import Mathlib.Data.List.Chain
import BunServe.Lib.JsMap

/-!
# BunServe.Lib.Rotation

A map walked by a cursor that is kept from one walk to the next, as an iterator
over a JavaScript `Map` is: what is deleted is not visited, what is appended is.

The cursor is the number of entries behind it, and it is never past the end.  A
walk looks at the next entry, over and over, starting again at the front when
the entries run out: for at most so many entries, and at most twice from the
front.  What is done with an entry, and at the start and the end of a pass, is a
`Policy`.

* `walk_invariant` — what every turn keeps, a walk keeps;
* `walk_ends` — a walk ends because it was stopped, or saw as many entries as it
  may, or came to the front twice;
* `le_seen` — a walk that is not stopped sees as many entries as there are, or
  as it may;
* `seen_distinct` — and no entry twice in a row.
-/

namespace BunServe

/-- A map and a position in its order: how many entries lie behind it. -/
structure Rotation (K V : Type) where
  map : JsMap K V
  cursor : Option Nat
  inside : ∀ p, cursor = some p → p ≤ map.size

namespace Rotation

variable {K V : Type}

/-- The empty map, without a cursor. -/
def empty : Rotation K V := ⟨.empty, none, fun _ h => by cases h⟩

/-- The keys behind the cursor. -/
def behind (r : Rotation K V) : List K :=
  match r.cursor with
  | none => []
  | some p => r.map.keys.take p

/-- A fresh cursor at the front. -/
def rewind (r : Rotation K V) : Rotation K V := ⟨r.map, some 0, fun _ h => by cases h; exact Nat.zero_le _⟩

/-- The cursor given up. -/
def release (r : Rotation K V) : Rotation K V := ⟨r.map, none, fun _ h => by cases h⟩

/-- The cursor past the entry at a position. -/
def forward (r : Rotation K V) (p : Nat) : Rotation K V :=
  ⟨r.map, some (min (p + 1) r.map.size), fun _ h => by cases h; exact Nat.min_le_right _ _⟩

@[simp] theorem map_rewind (r : Rotation K V) : r.rewind.map = r.map := rfl
@[simp] theorem map_release (r : Rotation K V) : r.release.map = r.map := rfl
@[simp] theorem map_forward (r : Rotation K V) (p : Nat) : (r.forward p).map = r.map := rfl
@[simp] theorem behind_rewind (r : Rotation K V) : r.rewind.behind = [] := rfl
@[simp] theorem behind_release (r : Rotation K V) : r.release.behind = [] := rfl

theorem behind_of_cursor {r : Rotation K V} {p : Nat} (h : r.cursor = some p) :
    r.behind = r.map.keys.take p := by
  simp only [behind, h]

theorem behind_subset {r : Rotation K V} {k : K} (h : k ∈ r.behind) : k ∈ r.map.keys := by
  cases hc : r.cursor with
  | none =>
    simp only [behind, hc] at h
    cases h
  | some p =>
    rw [behind_of_cursor hc] at h
    exact List.mem_of_mem_take h

theorem behind_forward {r : Rotation K V} {p : Nat} {k : K} {v : V} (hc : r.cursor = some p)
    (hp : r.map.entries[p]? = some (k, v)) : (r.forward p).behind = r.behind ++ [k] := by
  have hlt : p < r.map.size := (List.getElem?_eq_some_iff.mp hp).1
  have hforward : (r.forward p).cursor = some (p + 1) := by
    simp only [forward, Nat.min_eq_left (Nat.succ_le_of_lt hlt)]
  have hkey : r.map.keys[p]? = some k := by
    rw [JsMap.keys, List.getElem?_map, hp]
    rfl
  rw [behind_of_cursor hforward, behind_of_cursor hc, map_forward, List.take_add_one, hkey]
  rfl

theorem mem_behind_of_end {r : Rotation K V} {p : Nat} (hc : r.cursor = some p)
    (hp : r.map.entries[p]? = none) {k : K} (hk : k ∈ r.map.keys) : k ∈ r.behind := by
  have hlen : r.map.keys.length ≤ p := by
    rw [JsMap.length_keys]
    exact List.getElem?_eq_none_iff.mp hp
  rw [behind_of_cursor hc, List.take_of_length_le hlen]
  exact hk

/-! ## storing and deleting -/

variable [DecidableEq K]

/-- Store a value; a new key comes last. -/
def set (r : Rotation K V) (k : K) (v : V) : Rotation K V :=
  ⟨r.map.set k v, r.cursor, fun p h => by
    refine Nat.le_trans (r.inside p h) ?_
    rw [← JsMap.length_keys, ← JsMap.length_keys, JsMap.keys_set]
    split <;> simp⟩

/-- Delete a key; the cursor keeps its place among the others. -/
def delete (r : Rotation K V) (k : K) : Rotation K V :=
  ⟨r.map.delete k, r.cursor.map fun p => ((r.map.keys.take p).filter fun x => x ≠ k).length, fun p h => by
    obtain ⟨q, -, rfl⟩ := Option.map_eq_some_iff.mp h
    rw [← JsMap.length_keys, JsMap.keys_delete]
    exact ((List.take_sublist q r.map.keys).filter _).length_le⟩

@[simp] theorem map_set (r : Rotation K V) (k : K) (v : V) : (r.set k v).map = r.map.set k v := rfl
@[simp] theorem map_delete (r : Rotation K V) (k : K) : (r.delete k).map = r.map.delete k := rfl

/-- A new key is appended, so it does not lie behind. -/
theorem behind_set (r : Rotation K V) (k : K) (v : V) : (r.set k v).behind = r.behind := by
  cases hc : r.cursor with
  | none => simp only [behind, set, hc]
  | some p =>
    have hp := r.inside p hc
    rw [← JsMap.length_keys] at hp
    have hset : (r.set k v).cursor = some p := hc
    rw [behind_of_cursor hset, behind_of_cursor hc, map_set, JsMap.keys_set]
    split
    · rfl
    · exact List.take_append_of_le_length hp

theorem behind_delete (r : Rotation K V) (k : K) :
    (r.delete k).behind = r.behind.filter fun x => x ≠ k := by
  cases hc : r.cursor with
  | none => simp only [behind, delete, hc, Option.map_none, List.filter_nil]
  | some p =>
    have hdelete : (r.delete k).cursor =
        some ((r.map.keys.take p).filter fun x => x ≠ k).length := by
      simp only [delete, hc, Option.map_some]
    rw [behind_of_cursor hdelete, behind_of_cursor hc, map_delete, JsMap.keys_delete]
    have hsplit : r.map.keys.filter (fun x => x ≠ k) =
        (r.map.keys.take p).filter (fun x => x ≠ k) ++ (r.map.keys.drop p).filter fun x => x ≠ k := by
      rw [← List.filter_append, List.take_append_drop]
    rw [hsplit, List.take_left]

end Rotation

/-! ## walks -/

/-- What became of a look at an entry. -/
structure Visit (S : Type) where
  state : S
  /-- The entry is deleted. -/
  drop : Bool
  /-- The walk ends here. -/
  stop : Bool

/-- What is done at the start of a pass, at its end, and with an entry. -/
structure Policy (S K V : Type) where
  opened : S → S
  closed : S → S
  visit : S → K → V → Visit S

/-- The policy ends a walk when it deletes. -/
def Policy.Stops {S K V : Type} (P : Policy S K V) : Prop :=
  ∀ s k v, (P.visit s k v).drop = true → (P.visit s k v).stop = true

/-- A walk under way: what it has seen, how often it came to the front, and
whether it was stopped. -/
structure Walk (S K V : Type) where
  rot : Rotation K V
  state : S
  seen : List (K × V)
  wrapped : Nat
  stopped : Bool

namespace Walk

variable {S K V : Type} [DecidableEq K] (P : Policy S K V)

def start (rot : Rotation K V) (state : S) : Walk S K V :=
  { rot, state, seen := [], wrapped := 0, stopped := false }

/-- Whether the walk goes on. -/
def going (budget : Nat) (w : Walk S K V) : Bool :=
  !w.stopped && decide (w.seen.length < budget) && decide (w.wrapped < 2)

/-- A pass begins. -/
def reopened (w : Walk S K V) : Walk S K V :=
  { w with rot := w.rot.rewind, state := P.opened w.state, wrapped := w.wrapped + 1 }

/-- The pass ends. -/
def finished (w : Walk S K V) : Walk S K V :=
  { w with rot := w.rot.release, state := P.closed w.state }

/-- A look at an entry. -/
def looked (w : Walk S K V) (p : Nat) (k : K) (v : V) : Walk S K V :=
  let u := P.visit w.state k v
  { rot := if u.drop then (w.rot.forward p).delete k else w.rot.forward p
    state := u.state, seen := w.seen ++ [(k, v)], wrapped := w.wrapped, stopped := u.stop }

/-- The next entry from a position, or the end of the pass. -/
def advance (w : Walk S K V) (p : Nat) : Walk S K V :=
  match w.rot.map.entries[p]? with
  | none => w.finished P
  | some (k, v) => w.looked P p k v

/-- One turn of the loop. -/
def turn (w : Walk S K V) : Walk S K V :=
  match w.rot.cursor with
  | none => (w.reopened P).advance P 0
  | some p => w.advance P p

/-- The loop, for so many turns. -/
def walkFor (budget : Nat) : Nat → Walk S K V → Walk S K V
  | 0, w => w
  | n + 1, w => if w.going budget then walkFor budget n (w.turn P) else w

end Walk

/-- A walk over at most `budget` entries. -/
def Rotation.walk {S K V : Type} [DecidableEq K] (P : Policy S K V) (budget : Nat) (rot : Rotation K V)
    (state : S) : Walk S K V :=
  (Walk.start rot state).walkFor P budget (budget + 5)

namespace Walk

variable {S K V : Type} [DecidableEq K] {P : Policy S K V}

/-- One while there is a cursor. -/
def open₁ (r : Rotation K V) : Nat := if r.cursor.isSome then 1 else 0

omit [DecidableEq K] in
theorem open₁_le (r : Rotation K V) : open₁ r ≤ 1 := by
  unfold open₁
  split <;> decide

/-- The turns left: every one sees an entry, or ends a pass, or begins one. -/
def left (budget : Nat) (w : Walk S K V) : Nat :=
  budget - w.seen.length + 2 * (2 - w.wrapped) + open₁ w.rot

theorem turn_cases (w : Walk S K V) :
    (∃ p, w.rot.cursor = some p ∧ w.rot.map.entries[p]? = none ∧ w.turn P = w.finished P) ∨
    (∃ p k v, w.rot.cursor = some p ∧ w.rot.map.entries[p]? = some (k, v) ∧
      w.turn P = w.looked P p k v) ∨
    (w.rot.cursor = none ∧ w.rot.map.entries = [] ∧ w.turn P = (w.reopened P).finished P) ∨
    ∃ k v, w.rot.cursor = none ∧ w.rot.map.entries[0]? = some (k, v) ∧
      w.turn P = (w.reopened P).looked P 0 k v := by
  unfold turn advance
  cases hc : w.rot.cursor with
  | some p =>
    cases he : w.rot.map.entries[p]? with
    | none => exact .inl ⟨p, rfl, he, by simp only [he]⟩
    | some e => exact .inr (.inl ⟨p, e.1, e.2, rfl, he, by simp only [he]⟩)
  | none =>
    cases he : w.rot.map.entries[0]? with
    | none =>
      have hnil : w.rot.map.entries = [] := by simpa using he
      exact .inr (.inr (.inl ⟨rfl, hnil, by simp only [reopened, Rotation.map_rewind, he]⟩))
    | some e =>
      exact .inr (.inr (.inr ⟨e.1, e.2, rfl, rfl, by simp only [reopened, Rotation.map_rewind, he]⟩))

theorem left_turn {budget : Nat} {w : Walk S K V} (h : w.going budget = true) :
    (w.turn P).left budget < w.left budget := by
  simp only [going, Bool.and_eq_true, decide_eq_true_eq] at h
  obtain ⟨p, hc, -, heq⟩ | ⟨p, k, v, hc, -, heq⟩ | ⟨hc, -, heq⟩ | ⟨k, v, hc, -, heq⟩ :=
    turn_cases w
  · rw [heq]
    simp [left, finished, Rotation.release, open₁, hc]
  · have := open₁_le (w.looked P p k v).rot
    have hopen : open₁ w.rot = 1 := by simp [open₁, hc]
    rw [heq]
    simp only [left, looked, List.length_append, List.length_singleton] at this ⊢
    omega
  · have hclosed : open₁ ((w.reopened P).finished P).rot = 0 := rfl
    rw [heq]
    simp only [left, hclosed]
    simp only [finished, reopened]
    omega
  · have := open₁_le ((w.reopened P).looked P 0 k v).rot
    have hopen : open₁ w.rot = 0 := by simp [open₁, hc]
    rw [heq]
    simp only [left, hopen] at this ⊢
    simp only [looked, reopened, List.length_append, List.length_singleton] at this ⊢
    omega

theorem walkFor_ends {budget : Nat} (n : Nat) {w : Walk S K V} (h : w.left budget ≤ n) :
    (w.walkFor P budget n).going budget = false := by
  induction n generalizing w with
  | zero =>
    cases hg : w.going budget with
    | false => exact hg
    | true =>
      have := left_turn (P := P) hg
      omega
  | succ n ih =>
    simp only [walkFor]
    split
    · next hg =>
      have := left_turn (P := P) hg
      exact ih (by omega)
    · next hg => simpa using hg

theorem walkFor_invariant {budget : Nat} {I : Walk S K V → Prop}
    (hturn : ∀ w, I w → w.going budget = true → I (w.turn P)) (n : Nat) {w : Walk S K V} (h : I w) :
    I (w.walkFor P budget n) := by
  induction n generalizing w with
  | zero => exact h
  | succ n ih =>
    simp only [walkFor]
    split
    · next hg => exact ih (hturn w h hg)
    · exact h

end Walk

namespace Rotation

variable {S K V : Type} [DecidableEq K] {P : Policy S K V} {budget : Nat}

theorem walk_invariant {I : Walk S K V → Prop}
    (hturn : ∀ w, I w → w.going budget = true → I (w.turn P)) {rot : Rotation K V} {state : S}
    (h : I (Walk.start rot state)) : I (rot.walk P budget state) :=
  Walk.walkFor_invariant hturn _ h

/-- A walk ends because it was stopped, or saw as many entries as it may, or
came to the front twice. -/
theorem walk_ends (rot : Rotation K V) (state : S) : (rot.walk P budget state).going budget = false := by
  refine Walk.walkFor_ends _ ?_
  have := Walk.open₁_le rot
  simp only [Walk.left, Walk.start]
  omega

theorem walk_keeps {I : Rotation K V → S → Prop}
    (hopen : ∀ r s, r.cursor = none → I r s → I r.rewind (P.opened s))
    (hclose : ∀ r s p, r.cursor = some p → r.map.entries[p]? = none → I r s → I r.release (P.closed s))
    (hvisit : ∀ r s p k v, r.cursor = some p → r.map.entries[p]? = some (k, v) → I r s →
      I (if (P.visit s k v).drop then (r.forward p).delete k else r.forward p) (P.visit s k v).state)
    {rot : Rotation K V} {state : S} (h : I rot state) :
    I (rot.walk P budget state).rot (rot.walk P budget state).state := by
  refine walk_invariant (I := fun w => I w.rot w.state) (fun w hw _ => ?_) h
  obtain ⟨p, hc, he, heq⟩ | ⟨p, k, v, hc, he, heq⟩ | ⟨hc, he, heq⟩ | ⟨k, v, hc, he, heq⟩ :=
    Walk.turn_cases w
  · rw [heq]
    exact hclose _ _ p hc he hw
  · rw [heq]
    exact hvisit _ _ p k v hc he hw
  · rw [heq]
    refine hclose _ _ 0 rfl ?_ (hopen _ _ hc hw)
    simp [Walk.reopened, he]
  · rw [heq]
    exact hvisit _ _ 0 k v rfl he (hopen _ _ hc hw)

theorem walk_folds {I : List (K × V) → S → Bool → Prop} (hopen : ∀ l s b, I l s b → I l (P.opened s) b)
    (hclose : ∀ l s b, I l s b → I l (P.closed s) b) (hvisit : ∀ l s k v, I l s false →
      I (l ++ [(k, v)]) (P.visit s k v).state (P.visit s k v).stop) {rot : Rotation K V} {state : S}
    (h : I [] state false) :
    I (rot.walk P budget state).seen (rot.walk P budget state).state
      (rot.walk P budget state).stopped := by
  refine walk_invariant (I := fun w => I w.seen w.state w.stopped) (fun w hw hg => ?_) h
  have hgoing : w.stopped = false := by
    simp only [Walk.going, Bool.and_eq_true, Bool.not_eq_true'] at hg
    exact hg.1.1
  obtain ⟨p, hc, he, heq⟩ | ⟨p, k, v, hc, he, heq⟩ | ⟨hc, he, heq⟩ | ⟨k, v, hc, he, heq⟩ :=
    Walk.turn_cases w
  · rw [heq]
    exact hclose _ _ _ hw
  · rw [heq]
    exact hvisit _ _ _ _ (hgoing ▸ hw)
  · rw [heq]
    exact hclose _ _ _ (hopen _ _ _ hw)
  · rw [heq]
    exact hvisit _ _ _ _ (hgoing ▸ hopen _ _ _ hw)

theorem walk_map (hP : ∀ s k v, (P.visit s k v).drop = false) (rot : Rotation K V) (state : S) :
    (rot.walk P budget state).rot.map = rot.map := by
  refine walk_keeps (I := fun r _ => r.map = rot.map) (fun _ _ _ h => h) (fun _ _ _ _ _ h => h) ?_ rfl
  intro r s p k v _ _ h
  simp only [hP]
  exact h

/-! ## what a walk sees -/

/-- What a walk has seen of the map: what it saw is in it, and unless it was
stopped, as much as lies before the cursor since it came to the front. -/
structure Sees (m : JsMap K V) (w : Walk S K V) : Prop where
  held : w.stopped = false → w.rot.map = m
  seen : ∀ e ∈ w.seen, e ∈ m.entries
  ahead : w.stopped = false → ∀ p, w.rot.cursor = some p → 1 ≤ w.wrapped → p ≤ w.seen.length
  whole : w.stopped = false → w.rot.cursor = none → 1 ≤ w.wrapped → m.size ≤ w.seen.length
  twice : w.stopped = false → 2 ≤ w.wrapped → m.size ≤ w.seen.length
  /-- The cursor stands after the last entry seen. -/
  last : w.stopped = false → ∀ e ∈ w.seen.getLast?, ∃ q, m.entries[q]? = some e ∧
    (∀ p, w.rot.cursor = some p → p = q + 1 ∨ p = 0 ∧ q + 1 = m.size) ∧
    (w.rot.cursor = none → q + 1 = m.size)
  /-- With a second entry, none is seen twice in a row. -/
  chain : 2 ≤ m.size → w.seen.IsChain fun a b => a.1 ≠ b.1

variable {m : JsMap K V}

theorem rot_looked (hP : P.Stops) {w : Walk S K V} {p : Nat} {k : K} {v : V}
    (h : (w.looked P p k v).stopped = false) : (w.looked P p k v).rot = w.rot.forward p := by
  have hkept : (P.visit w.state k v).drop = false := by
    cases hd : (P.visit w.state k v).drop with
    | false => rfl
    | true =>
      have hstop : (P.visit w.state k v).stop = false := h
      rw [hP _ _ _ hd] at hstop
      cases hstop
  simp only [Walk.looked, hkept, Bool.false_eq_true, ↓reduceIte]

omit [DecidableEq K] in
theorem Sees.finished {w : Walk S K V} (h : Sees m w) (hw : w.stopped = false) {p : Nat}
    (hc : w.rot.cursor = some p) (hp : w.rot.map.entries[p]? = none) : Sees m (w.finished P) := by
  have hsize : m.size ≤ p := by
    rw [← h.held hw]
    exact List.getElem?_eq_none_iff.mp hp
  exact {
    held := h.held
    seen := h.seen
    ahead := fun _ q hq => by simp [Walk.finished, release] at hq
    whole := fun _ _ hwrapped => Nat.le_trans hsize (h.ahead hw p hc hwrapped)
    twice := h.twice
    last := fun _ e he => by
      obtain ⟨q, hq, hnext, -⟩ := h.last hw e he
      have hlt : q < m.size := (List.getElem?_eq_some_iff.mp hq).1
      refine ⟨q, hq, fun p hp => by simp [Walk.finished, release] at hp, fun _ => ?_⟩
      have := hnext p hc
      omega
    chain := h.chain }

omit [DecidableEq K] in
theorem Sees.reopened {w : Walk S K V} (h : Sees m w) (hw : w.stopped = false)
    (hc : w.rot.cursor = none) : Sees m (w.reopened P) where
  held := h.held
  seen := h.seen
  ahead := fun _ q hq _ => by
    obtain rfl : 0 = q := Option.some.inj hq
    exact Nat.zero_le _
  whole := fun _ hnone => by simp [Walk.reopened, rewind] at hnone
  twice := fun _ htwice => h.whole hw hc (by simpa [Walk.reopened] using htwice)
  last := fun _ e he => by
    obtain ⟨q, hq, -, hend⟩ := h.last hw e he
    refine ⟨q, hq, fun p hp => ?_, fun hnone => by simp [Walk.reopened, rewind] at hnone⟩
    obtain rfl : 0 = p := Option.some.inj hp
    exact .inr ⟨rfl, hend hc⟩
  chain := h.chain

theorem Sees.looked (hP : P.Stops) {w : Walk S K V} (h : Sees m w) (hw : w.stopped = false) {p : Nat}
    {k : K} {v : V} (hc : w.rot.cursor = some p) (hp : w.rot.map.entries[p]? = some (k, v)) :
    Sees m (w.looked P p k v) := by
  have hlen : (w.looked P p k v).seen.length = w.seen.length + 1 := by simp [Walk.looked]
  have hwrapped : (w.looked P p k v).wrapped = w.wrapped := rfl
  have hmap := h.held hw
  rw [hmap] at hp
  have hlt : p < m.size := (List.getElem?_eq_some_iff.mp hp).1
  have hcursor : (w.rot.forward p).cursor = some (p + 1) := by
    simp only [forward, hmap, Nat.min_eq_left (Nat.succ_le_of_lt hlt)]
  exact {
    held := fun hstop => by
      rw [rot_looked hP hstop]
      exact hmap
    seen := fun e he => by
      rcases List.mem_append.mp he with he | he
      · exact h.seen e he
      · rw [List.mem_singleton.mp he]
        exact List.mem_of_getElem? hp
    ahead := fun hstop q hq hw1 => by
      rw [rot_looked hP hstop] at hq
      have := h.ahead hw p hc (hwrapped ▸ hw1)
      have := Option.some.inj hq
      omega
    whole := fun hstop hnone => by
      rw [rot_looked hP hstop] at hnone
      cases hnone
    twice := fun hstop htwice => by
      have := h.twice hw (hwrapped ▸ htwice)
      omega
    last := fun hstop e he => by
      obtain rfl : (k, v) = e := by simpa [Walk.looked] using he
      rw [rot_looked hP hstop, hcursor]
      exact ⟨p, hp, fun q hq => .inl (Option.some.inj hq).symm, fun hnone => by cases hnone⟩
    chain := fun hsize => by
      refine List.isChain_append.mpr ⟨h.chain hsize, List.isChain_singleton _, ?_⟩
      intro e he e' he' hkey
      obtain rfl : (k, v) = e' := by simpa using he'
      obtain ⟨q, hq, hnext, -⟩ := h.last hw e he
      have hne : q ≠ p := by
        have := hnext p hc
        omega
      -- one key at two places
      have hkeys : m.keys[q]? = m.keys[p]? := by
        simp only [JsMap.keys, List.getElem?_map, hq, hp]
        exact congrArg some hkey
      have hqlt : q < m.keys.length := by
        rw [JsMap.length_keys]
        exact (List.getElem?_eq_some_iff.mp hq).1
      exact hne ((List.getElem?_inj hqlt m.nodup).mp hkeys) }

theorem sees_walk (hP : P.Stops) (rot : Rotation K V) (state : S) :
    Sees rot.map (rot.walk P budget state) := by
  refine walk_invariant (fun w hw hg => ?_) ?_
  · have hgoing : w.stopped = false := by
      simp only [Walk.going, Bool.and_eq_true, Bool.not_eq_true'] at hg
      exact hg.1.1
    obtain ⟨p, hc, he, heq⟩ | ⟨p, k, v, hc, he, heq⟩ | ⟨hc, he, heq⟩ | ⟨k, v, hc, he, heq⟩ :=
      Walk.turn_cases w
    · rw [heq]
      exact hw.finished hgoing hc he
    · rw [heq]
      exact hw.looked hP hgoing hc he
    · rw [heq]
      refine (hw.reopened hgoing hc).finished hgoing rfl ?_
      simp [Walk.reopened, he]
    · rw [heq]
      exact (hw.reopened hgoing hc).looked hP hgoing rfl he
  · exact {
      held := fun _ => rfl
      seen := fun e he => by cases he
      ahead := fun _ p _ hwrapped => by simp [Walk.start] at hwrapped
      whole := fun _ _ hwrapped => by simp [Walk.start] at hwrapped
      twice := fun _ hwrapped => by simp [Walk.start] at hwrapped
      last := fun _ e he => by simp [Walk.start] at he
      chain := fun _ => List.isChain_nil }

theorem le_seen (hP : P.Stops) (rot : Rotation K V) (state : S)
    (hw : (rot.walk P budget state).stopped = false) :
    min budget rot.map.size ≤ (rot.walk P budget state).seen.length := by
  have hsees : Sees rot.map (rot.walk P budget state) := sees_walk hP rot state
  have hends : (rot.walk P budget state).going budget = false := walk_ends rot state
  simp only [Walk.going, hw, Bool.not_false, Bool.true_and, Bool.and_eq_false_iff,
    decide_eq_false_iff_not, not_lt] at hends
  rcases hends with hends | hends
  · omega
  · have := hsees.twice hw hends
    omega

theorem size_of_stopped (hP : ∀ s k v, (P.visit s k v).stop = (P.visit s k v).drop)
    (rot : Rotation K V) (state : S) (hstop : (rot.walk P budget state).stopped = true) :
    (rot.walk P budget state).rot.map.size + 1 = rot.map.size := by
  have hlook : ∀ (w : Walk S K V) (p : Nat) (k : K) (v : V), w.rot.map = rot.map →
      w.rot.map.entries[p]? = some (k, v) → (w.looked P p k v).stopped = true →
      (w.looked P p k v).rot.map.size + 1 = rot.map.size := by
    intro w p k v hmap he hs
    have hdrop : (P.visit w.state k v).drop = true := by
      rw [← hP]
      exact hs
    have hkey : k ∈ w.rot.map.keys := JsMap.fst_mem_of_mem (List.mem_of_getElem? he)
    simp only [Walk.looked, hdrop, ↓reduceIte, map_delete, map_forward]
    rw [JsMap.size_delete hkey, hmap]
  suffices h : ((rot.walk P budget state).stopped = false → (rot.walk P budget state).rot.map = rot.map) ∧
      ((rot.walk P budget state).stopped = true →
        (rot.walk P budget state).rot.map.size + 1 = rot.map.size) from h.2 hstop
  refine walk_invariant (I := fun w => (w.stopped = false → w.rot.map = rot.map) ∧
    (w.stopped = true → w.rot.map.size + 1 = rot.map.size)) (fun w hw hg => ?_)
    ⟨fun _ => rfl, fun h => by cases h⟩
  have hgoing : w.stopped = false := by
    simp only [Walk.going, Bool.and_eq_true, Bool.not_eq_true'] at hg
    exact hg.1.1
  have hmap := hw.1 hgoing
  have hstops : P.Stops := fun s k v hd => (hP s k v).trans hd
  obtain ⟨p, hc, he, heq⟩ | ⟨p, k, v, hc, he, heq⟩ | ⟨hc, he, heq⟩ | ⟨k, v, hc, he, heq⟩ :=
    Walk.turn_cases w
  · rw [heq]
    exact ⟨fun _ => hmap, hw.2⟩
  · rw [heq]
    refine ⟨fun h => ?_, hlook w p k v hmap he⟩
    rw [rot_looked hstops h]
    exact hmap
  · rw [heq]
    exact ⟨fun _ => hmap, hw.2⟩
  · rw [heq]
    refine ⟨fun h => ?_, hlook (w.reopened P) 0 k v hmap he⟩
    rw [rot_looked hstops h]
    exact hmap

end Rotation

end BunServe
