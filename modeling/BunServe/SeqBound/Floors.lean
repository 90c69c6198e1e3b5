import BunServe.SeqBound

/-!
# BunServe.SeqBound.Floors

What an evicted topic leaves.

* `Later` — no topic's counter is behind, and no number is held that was not held before:
  what an eviction, a rotation and a whole sweep do;
* `Inv` — the numbers held are counter values that were returned, and no topic's counter
  is behind what was returned for it;
* `Same` — two bounds that differ in the seqs their callers saw;
* `seq_never_repeats` — the counter values of a topic increase, its floor is a counter
  value, and neither depends on the seqs its callers supply.
-/

namespace BunServe.SeqBound

/-- The last counter value of a topic, or the floor that it would start from. -/
def counter (s : State) (topic : JsString) : Nat := (s.seqMap.get? topic).getD (floorOf s topic)

/-- The numbers that a counter can come from. -/
def Held (s : State) (n : Nat) : Prop :=
  n = s.highWater ∨ (∃ k, s.floors.get? k = some n) ∨ ∃ topic, s.seqMap.get? topic = some n

/-- No counter is behind, and no number is new. -/
structure Later (s s' : State) : Prop where
  stamps : s'.stamps = s.stamps
  counter : ∀ topic, counter s topic ≤ counter s' topic
  held : ∀ n, Held s' n → Held s n

/-- A counter value that was returned, or where counters start. -/
def Issued (s : State) (n : Nat) : Prop := n = 0 ∨ ∃ topic, (topic, n) ∈ s.stamps

structure Inv (s : State) : Prop where
  stamped : ∀ x ∈ s.stamps, x.2 ≤ counter s x.1
  increasing : s.stamps.Pairwise fun x y => x.1 = y.1 → y.2 < x.2
  held : ∀ n, Held s n → Issued s n

/-! ## floors -/

theorem Later.refl (s : State) : Later s s := ⟨rfl, fun _ => le_refl _, fun _ h => h⟩

theorem Later.trans {s s' s'' : State} (h : Later s s') (h' : Later s' s'') : Later s s'' :=
  ⟨h'.stamps.trans h.stamps, fun topic => (h.counter topic).trans (h'.counter topic),
    fun n hn => h.held n (h'.held n hn)⟩

theorem floorOf_eq (s : State) (topic : JsString) :
    floorOf s topic = max ((s.floors.get? (fnv32 topic)).getD 0) s.highWater := by
  unfold floorOf
  cases s.floors.get? (fnv32 topic) with
  | none => simp
  | some exact =>
    simp only [Option.getD_some]
    split <;> omega

theorem foldl_max_spec (ns : List Nat) (n : Nat) :
    n ≤ ns.foldl max n ∧ (∀ m ∈ ns, m ≤ ns.foldl max n) ∧
      (ns.foldl max n = n ∨ ns.foldl max n ∈ ns) := by
  induction ns generalizing n with
  | nil => simp
  | cons m ns ih =>
    obtain ⟨hle, hmem, hor⟩ := ih (max n m)
    simp only [List.foldl_cons, List.mem_cons, forall_eq_or_imp]
    refine ⟨by omega, ⟨by omega, hmem⟩, ?_⟩
    rcases hor with heq | hin
    · rcases Nat.le_total n m with hnm | hnm
      · exact .inr (.inl (by rw [heq]; omega))
      · exact .inl (by rw [heq]; omega)
    · exact .inr (.inr hin)

section

variable {c : Config} {p : Probes} {s s' : State}

theorem raise_spec (floors : JsMap UInt32 Nat) (key : UInt32) (lastSeq : Nat) :
    (∀ k, (floors.get? k).getD 0 ≤ ((raise floors key lastSeq).get? k).getD 0) ∧
      lastSeq ≤ ((raise floors key lastSeq).get? key).getD 0 ∧
      ∀ k n, (raise floors key lastSeq).get? k = some n →
        n = lastSeq ∨ ∃ k, floors.get? k = some n := by
  unfold raise
  split
  · next hall =>
    refine ⟨fun k => ?_, by simp, fun k n hget => ?_⟩
    · rw [JsMap.get?_set]
      split
      · next hk =>
        subst hk
        cases hget : floors.get? k with
        | none => simp
        | some prev =>
          have : lastSeq > prev := by simpa [hget] using hall
          exact Nat.le_of_lt this
      · exact le_refl _
    · rw [JsMap.get?_set] at hget
      split at hget
      · exact .inl (Option.some.inj hget).symm
      · exact .inr ⟨k, hget⟩
  · next hall =>
    refine ⟨fun _ => le_refl _, ?_, fun k n hget => .inr ⟨k, hget⟩⟩
    cases hget : floors.get? key with
    | none => simp [hget] at hall
    | some prev =>
      have : ¬ lastSeq > prev := by simpa [hget] using hall
      simpa using this

/-- A floor is recorded, maybe in `highWater`. -/
theorem recordFloor_spec (s : State) (topic : JsString) (lastSeq : Nat) :
    (recordFloor c s topic lastSeq).seqMap = s.seqMap ∧
      (recordFloor c s topic lastSeq).stamps = s.stamps ∧
      (∀ t, floorOf s t ≤ floorOf (recordFloor c s topic lastSeq) t) ∧
      lastSeq ≤ floorOf (recordFloor c s topic lastSeq) topic ∧
      (∀ n, n = (recordFloor c s topic lastSeq).highWater ∨
          (∃ k, (recordFloor c s topic lastSeq).floors.get? k = some n) →
        n = lastSeq ∨ n = s.highWater ∨ ∃ k, s.floors.get? k = some n) := by
  obtain ⟨hmono, hlast, hnew⟩ := raise_spec s.floors (fnv32 topic) lastSeq
  simp only [recordFloor]
  split
  · -- all of them go into `highWater`
    obtain ⟨hle, hmem, hor⟩ := foldl_max_spec (raise s.floors (fnv32 topic) lastSeq).values s.highWater
    have hfloor : ∀ k, ((raise s.floors (fnv32 topic) lastSeq).get? k).getD 0 ≤
        (raise s.floors (fnv32 topic) lastSeq).values.foldl max s.highWater := by
      intro k
      cases hget : (raise s.floors (fnv32 topic) lastSeq).get? k with
      | none => simp
      | some n => exact hmem n (JsMap.mem_values_iff.2 ⟨k, hget⟩)
    refine ⟨rfl, rfl, fun t => ?_, ?_, fun n hn => ?_⟩
    · rw [floorOf_eq, floorOf_eq]
      have := hfloor (fnv32 t)
      have := hmono (fnv32 t)
      simp only [Option.getD_none]
      omega
    · rw [floorOf_eq]
      exact hlast.trans ((hfloor _).trans (Nat.le_max_right _ _))
    · rcases hn with hn | ⟨k, hk⟩
      · rcases hor with heq | hin
        · exact .inr (.inl (hn.trans heq))
        · obtain ⟨k, hk⟩ := JsMap.mem_values_iff.1 hin
          exact (hnew k n (hn ▸ hk)).imp_right .inr
      · simp at hk
  · refine ⟨rfl, rfl, fun t => ?_, ?_, fun n hn => ?_⟩
    · rw [floorOf_eq, floorOf_eq]
      exact max_le_max_right _ (hmono _)
    · rw [floorOf_eq]
      exact hlast.trans (Nat.le_max_left _ _)
    · rcases hn with hn | ⟨k, hk⟩
      · exact .inr (.inl hn)
      · exact (hnew k n hk).imp_right .inr

theorem later_evict (s : State) (topic : JsString) : Later s (evict c s topic) := by
  unfold evict
  cases hget : s.seqMap.get? topic with
  | none => exact ⟨rfl, fun _ => le_refl _, fun _ hn => hn⟩
  | some last =>
    obtain ⟨hseq, hstamps, hfloor, hlast, hheld⟩ := recordFloor_spec s topic last
    refine ⟨hstamps, fun t => ?_, fun n hn => ?_⟩
    · show counter s t ≤ (((recordFloor c s topic last).seqMap.delete topic).get? t).getD
        (floorOf (recordFloor c s topic last) t)
      rw [hseq, JsMap.get?_delete, counter]
      split
      · next ht =>
        rw [ht, hget]
        exact hlast
      · cases s.seqMap.get? t with
        | none => exact hfloor t
        | some v => exact le_refl _
    · rcases hn with hn | hn | ⟨t, ht⟩
      · rcases hheld n (.inl hn) with rfl | h | h
        · exact .inr (.inr ⟨topic, hget⟩)
        · exact .inl h
        · exact .inr (.inl h)
      · rcases hheld n (.inr hn) with rfl | h | h
        · exact .inr (.inr ⟨topic, hget⟩)
        · exact .inl h
        · exact .inr (.inl h)
      · simp only [hseq] at ht
        exact .inr (.inr ⟨t, (JsMap.of_get?_delete ht).2⟩)

theorem get?_rotate {V : Type} (map : JsMap JsString V) (passedOver : List JsString) (topic : JsString) :
    (rotate map passedOver).get? topic = map.get? topic := by
  induction passedOver generalizing map with
  | nil => rfl
  | cons t passedOver ih =>
    rw [rotate, List.foldl_cons]
    refine (ih _).trans ?_
    cases hget : map.get? t with
    | none => rfl
    | some value =>
      simp only [JsMap.get?_set, JsMap.get?_delete]
      split
      · next heq => rw [heq, hget]
      · rfl

theorem later_rotated (s : State) (registry : Registry) (passedOver : List JsString) :
    Later s (rotated c s registry passedOver) := by
  unfold rotated
  split
  · refine ⟨rfl, fun t => ?_, fun n hn => ?_⟩
    · exact le_of_eq (by rw [counter, counter, get?_rotate]; rfl)
    · unfold Held at hn ⊢
      simpa only [get?_rotate] using hn
  · exact ⟨rfl, fun _ => le_refl _, fun _ hn => hn⟩

theorem later_evictOldestUnprotected (registry : Registry) (admitted : JsString) (pass : Nat)
    (s : State) : Later s (evictOldestUnprotected c p registry admitted pass s).2 := by
  induction pass generalizing s with
  | zero => exact .refl s
  | succ pass ih =>
    unfold evictOldestUnprotected
    simp only
    have hrot := later_rotated (c := c) s registry
      (walk c.scanLimit (busy p s) admitted 0 (keysOf c s registry)).1
    split
    · exact hrot.trans (later_evict _ _)
    · split
      · exact hrot
      · exact hrot.trans (ih _)

theorem later_withBlockedSkip (s : State) (registry : Registry) (n : Nat) :
    Later s (s.withBlockedSkip registry n) := by
  cases registry <;> exact ⟨rfl, fun _ => le_refl _, fun _ hn => hn⟩

theorem later_onRegistryInsert (registry : Registry) (s : State) (topic : JsString) :
    Later s (onRegistryInsert c p registry s topic) := by
  unfold onRegistryInsert
  split
  · exact .refl s
  · split
    · exact later_withBlockedSkip _ _ _
    · simp only
      have hsweep := later_evictOldestUnprotected (c := c) (p := p) registry topic 2 s
      split
      · exact hsweep
      · exact hsweep.trans (later_withBlockedSkip _ _ _)

/-! ## the invariant -/

theorem Inv.later (h : Inv s) (hl : Later s s') : Inv s' where
  stamped x hx := by
    rw [hl.stamps] at hx
    exact (h.stamped x hx).trans (hl.counter x.1)
  increasing := hl.stamps ▸ h.increasing
  held n hn := by
    rw [Issued, hl.stamps]
    exact h.held n (hl.held n hn)

theorem Inv.count (h : Inv s) (topic : JsString) : Inv { s with
    seqMap := s.seqMap.set topic (counter s topic + 1)
    stamps := (topic, counter s topic + 1) :: s.stamps } where
  stamped x hx := by
    show x.2 ≤ ((s.seqMap.set topic (counter s topic + 1)).get? x.1).getD (floorOf s x.1)
    rw [JsMap.get?_set]
    rcases List.mem_cons.1 hx with rfl | hx
    · simp
    · split
      · next heq =>
        have := h.stamped x hx
        rw [heq] at this
        simp only [Option.getD_some]
        omega
      · exact h.stamped x hx
  increasing := by
    refine List.pairwise_cons.2 ⟨fun x hx heq => ?_, h.increasing⟩
    have := h.stamped x hx
    rw [← heq] at this
    exact Nat.lt_succ_of_le this
  held n hn := by
    have hold : ∀ n, Held s n → n = 0 ∨ ∃ t, (t, n) ∈ (topic, counter s topic + 1) :: s.stamps :=
      fun n hn => (h.held n hn).imp_right (Exists.imp fun _ => List.mem_cons_of_mem _)
    rcases hn with hn | hn | ⟨t, ht⟩
    · exact hold n (.inl hn)
    · exact hold n (.inr (.inl hn))
    · obtain ⟨-, rfl⟩ | ⟨-, ht⟩ := JsMap.of_get?_set ht
      · exact .inr ⟨topic, List.mem_cons_self⟩
      · exact hold n (.inr (.inr ⟨t, ht⟩))

theorem inv_stampSeqValue (h : Inv s) (opt : Publish.SeqOption) (topic : JsString) :
    Inv (stampSeqValue c p opt s topic).2 := by
  have hcount := h.count topic
  unfold stampSeqValue
  split
  · exact h
  · exact h
  · exact h
  · exact h
  · exact h
  all_goals
    unfold counter at hcount
    split
    · next current hget =>
      rw [hget] at hcount
      exact hcount
    · next hget =>
      rw [hget] at hcount
      exact hcount.later (later_onRegistryInsert _ _ _)

theorem inv_next {x : Action} (h : Inv s) (hn : next c s x = some s') : Inv s' := by
  cases x with
  | stamp opt topic p =>
    cases hn
    exact inv_stampSeqValue h opt topic
  | see topic seq =>
    obtain ⟨-, rfl⟩ := by simpa [next] using hn
    exact h.later ⟨rfl, fun _ => le_refl _, fun _ hn => hn⟩
  | onInsert topic p | onSeenInsert topic p =>
    cases hn
    exact h.later (later_onRegistryInsert _ _ _)
  | useQuietProbe =>
    cases hn
    exact h.later ⟨rfl, fun _ => le_refl _, fun _ hn => hn⟩

theorem inv_of_run {as : List Action} (h : (machine c).Runs Machine.Any as s) : Inv s := by
  refine Machine.Runs.invariant (m := machine c) ⟨nofun, .nil, fun n hn => .inl ?_⟩
    (fun _ _ _ h _ hn => inv_next h hn) h
  rcases hn with hn | ⟨k, hk⟩ | ⟨t, ht⟩
  · exact hn
  · cases hk
  · cases ht

/-! ## without the callers' seqs -/

/-- The same bound with other seqs seen. -/
def seenAs (s : State) (m : JsMap JsString JsNumber) : State := { s with seenMap := m }

theorem recordFloor_seenAs (s : State) (m : JsMap JsString JsNumber) (topic : JsString) (lastSeq : Nat) :
    (recordFloor c s topic lastSeq).seenMap = s.seenMap ∧
      recordFloor c (seenAs s m) topic lastSeq = seenAs (recordFloor c s topic lastSeq) m := by
  by_cases hfull : (raise s.floors (fnv32 topic) lastSeq).size > c.floorCap
  · have hs : recordFloor c s topic lastSeq = _ := if_pos hfull
    have hm : recordFloor c (seenAs s m) topic lastSeq = _ := if_pos hfull
    rw [hs, hm]
    exact ⟨rfl, rfl⟩
  · have hs : recordFloor c s topic lastSeq = _ := if_neg hfull
    have hm : recordFloor c (seenAs s m) topic lastSeq = _ := if_neg hfull
    rw [hs, hm]
    exact ⟨rfl, rfl⟩

theorem keys_rotate {V W : Type} {a : JsMap JsString V} {b : JsMap JsString W} (h : a.keys = b.keys)
    (passedOver : List JsString) : (rotate a passedOver).keys = (rotate b passedOver).keys := by
  induction passedOver generalizing a b with
  | nil => exact h
  | cons t passedOver ih =>
    refine ih ?_
    have hmem : a.get? t = none ↔ b.get? t = none := by
      rw [JsMap.get?_eq_none_iff, JsMap.get?_eq_none_iff, h]
    cases ha : a.get? t with
    | none => simpa only [ha, hmem.1 ha] using h
    | some v =>
      cases hb : b.get? t with
      | none =>
        rw [hmem.2 hb] at ha
        cases ha
      | some w => simp only [ha, hb, JsMap.keys_set, JsMap.keys_delete, h]

section

variable {m : JsMap JsString JsNumber} (hkeys : m.keys = s.seenMap.keys)

include hkeys

theorem evict_seenAs (topic : JsString) : ∃ m', m'.keys = (evict c s topic).seenMap.keys ∧
    evict c (seenAs s m) topic = seenAs (evict c s topic) m' := by
  refine ⟨m.delete topic, ?_, ?_⟩
  · unfold evict
    cases s.seqMap.get? topic with
    | none => simp only [JsMap.keys_delete, hkeys]
    | some last =>
      simp only [JsMap.keys_delete, hkeys, (recordFloor_seenAs s m topic last).1]
  · unfold evict
    simp only [show (seenAs s m).seqMap = s.seqMap from rfl]
    cases s.seqMap.get? topic with
    | none => rfl
    | some last =>
      simp only [(recordFloor_seenAs s m topic last).2]
      rfl

theorem rotated_seenAs (registry : Registry) (passedOver : List JsString) :
    ∃ m', m'.keys = (rotated c s registry passedOver).seenMap.keys ∧
      rotated c (seenAs s m) registry passedOver = seenAs (rotated c s registry passedOver) m' := by
  unfold rotated
  split
  · exact ⟨m, hkeys, rfl⟩
  · exact ⟨rotate m passedOver, keys_rotate hkeys _, rfl⟩

theorem keysOf_seenAs (registry : Registry) :
    keysOf c (seenAs s m) registry = keysOf c s registry ∧
      registrySize c (seenAs s m) registry = registrySize c s registry := by
  unfold keysOf registrySize seenAs
  rw [← JsMap.length_keys m, hkeys, JsMap.length_keys]
  exact ⟨rfl, rfl⟩

end

theorem evictOldestUnprotected_seenAs {m : JsMap JsString JsNumber} (registry : Registry)
    (admitted : JsString) (pass : Nat) (hkeys : m.keys = s.seenMap.keys) :
    ∃ m', m'.keys = (evictOldestUnprotected c p registry admitted pass s).2.seenMap.keys ∧
      evictOldestUnprotected c p registry admitted pass (seenAs s m) =
        ((evictOldestUnprotected c p registry admitted pass s).1,
          seenAs (evictOldestUnprotected c p registry admitted pass s).2 m') := by
  induction pass generalizing s m with
  | zero => exact ⟨m, hkeys, rfl⟩
  | succ pass ih =>
    unfold evictOldestUnprotected
    simp only [(keysOf_seenAs hkeys registry).1, show busy p (seenAs s m) = busy p s from rfl]
    generalize walk c.scanLimit (busy p s) admitted 0 (keysOf c s registry) = r
    obtain ⟨m₁, hkeys₁, hrot⟩ := rotated_seenAs hkeys registry r.1
    rw [hrot]
    cases r.2 with
    | some victim =>
      obtain ⟨m₂, hkeys₂, hevict⟩ := evict_seenAs hkeys₁ victim
      exact ⟨m₂, hkeys₂, by simp only [hevict]⟩
    | none =>
      simp only
      split
      · exact ⟨m₁, hkeys₁, rfl⟩
      · exact ih hkeys₁

theorem withBlockedSkip_seenAs (m : JsMap JsString JsNumber) (registry : Registry) (n : Nat) :
    (s.withBlockedSkip registry n).seenMap = s.seenMap ∧
      (seenAs s m).withBlockedSkip registry n = seenAs (s.withBlockedSkip registry n) m := by
  cases registry <;> exact ⟨rfl, rfl⟩

theorem onRegistryInsert_seenAs {m : JsMap JsString JsNumber} (registry : Registry)
    (topic : JsString) (hkeys : m.keys = s.seenMap.keys) :
    ∃ m', m'.keys = (onRegistryInsert c p registry s topic).seenMap.keys ∧
      onRegistryInsert c p registry (seenAs s m) topic =
        seenAs (onRegistryInsert c p registry s topic) m' := by
  have hskip : (seenAs s m).blockedSkip registry = s.blockedSkip registry := by cases registry <;> rfl
  unfold onRegistryInsert
  rw [(keysOf_seenAs hkeys registry).2, hskip]
  split
  · exact ⟨m, hkeys, rfl⟩
  split
  · obtain ⟨hseen, heq⟩ := withBlockedSkip_seenAs m registry (s.blockedSkip registry - 1)
    exact ⟨m, by rw [hseen, hkeys], heq⟩
  obtain ⟨m₁, hkeys₁, hsweep⟩ :=
    evictOldestUnprotected_seenAs (c := c) (p := p) registry topic 2 hkeys
  simp only [hsweep]
  split
  · exact ⟨m₁, hkeys₁, rfl⟩
  · obtain ⟨hseen, heq⟩ := withBlockedSkip_seenAs
      m₁ registry BLOCKED_BACKOFF
    exact ⟨m₁, by rw [hseen, hkeys₁], heq⟩

def counts : Publish.SeqOption → Bool
  | .undefined | .bool true => true
  | _ => false

/-- A call without what its caller supplies: an explicit seq is not stamped, and a seq
seen is 0. -/
def erase : Action → Option Action
  | .stamp opt topic p => if counts opt then some (.stamp opt topic p) else none
  | .see topic _ => some (.see topic (.ofNat 0))
  | x => some x

theorem next_erase {x : Action} {m : JsMap JsString JsNumber} (hkeys : m.keys = s.seenMap.keys)
    (hn : next c s x = some s') : ∃ m', m'.keys = s'.seenMap.keys ∧
      (erase x = none ∧ seenAs s m = seenAs s' m' ∨
        ∃ y, erase x = some y ∧ next c (seenAs s m) y = some (seenAs s' m')) := by
  cases x with
  | stamp opt topic p =>
    cases hn
    have hcase : counts opt = false ∧ (stampSeqValue c p opt s topic).2 = s ∨ counts opt = true := by
      cases opt with
      | bool b => cases b <;> simp [counts, stampSeqValue]
      | _ => simp [counts, stampSeqValue]
    rcases hcase with ⟨hfalse, hsame⟩ | hcounts
    · rw [hsame]
      exact ⟨m, hkeys, .inl ⟨by rw [erase, hfalse, if_neg Bool.false_ne_true], rfl⟩⟩
    have hopt : ∀ s, stampSeqValue c p opt s topic = stampSeqValue c p .undefined s topic := by
      intro s
      cases opt with
      | bool b =>
        cases b with
        | false => cases hcounts
        | true => rfl
      | undefined => rfl
      | _ => cases hcounts
    have hthis : ∃ m', m'.keys = (stampSeqValue c p .undefined s topic).2.seenMap.keys ∧
        (stampSeqValue c p .undefined (seenAs s m) topic).2 =
          seenAs (stampSeqValue c p .undefined s topic).2 m' := by
      unfold stampSeqValue
      simp only [show (seenAs s m).seqMap = s.seqMap from rfl]
      cases s.seqMap.get? topic with
      | some current => exact ⟨m, hkeys, rfl⟩
      | none =>
        obtain ⟨m₁, hkeys₁, heq⟩ := onRegistryInsert_seenAs
          (s := { s with
            seqMap := s.seqMap.set topic (floorOf s topic + 1)
            stamps := (topic, floorOf s topic + 1) :: s.stamps }) .seq topic hkeys
        exact ⟨m₁, hkeys₁, heq⟩
    obtain ⟨m₁, hkeys₁, heq⟩ := hthis
    refine ⟨m₁, by rw [hopt]; exact hkeys₁, .inr ⟨_, by rw [erase, hcounts, if_pos rfl], ?_⟩⟩
    rw [next, hopt, heq, hopt]
  | see topic seq =>
    simp only [next] at hn
    obtain ⟨hmaps, ⟨⟩⟩ := Option.ite_none_left_eq_some.mp hn
    refine ⟨m.set topic (.ofNat 0), ?_, .inr ⟨_, rfl, ?_⟩⟩
    · rw [JsMap.keys_set, JsMap.keys_set, hkeys]
    · simp only [next, if_neg hmaps]
      rfl
  | onInsert topic p =>
    cases hn
    obtain ⟨m₁, hkeys₁, heq⟩ := onRegistryInsert_seenAs .seq topic hkeys
    exact ⟨m₁, hkeys₁, .inr ⟨_, rfl, congrArg some heq⟩⟩
  | onSeenInsert topic p =>
    cases hn
    obtain ⟨m₁, hkeys₁, heq⟩ := onRegistryInsert_seenAs .seen topic hkeys
    exact ⟨m₁, hkeys₁, .inr ⟨_, rfl, congrArg some heq⟩⟩
  | useQuietProbe =>
    cases hn
    exact ⟨m, hkeys, .inr ⟨_, rfl, rfl⟩⟩

theorem runs_erase {as : List Action} (h : (machine c).Runs Machine.Any as s) :
    ∃ m, m.keys = s.seenMap.keys ∧ (machine c).Runs Machine.Any (as.filterMap erase) (seenAs s m) := by
  induction h with
  | nil => exact ⟨.empty, rfl, .nil⟩
  | snoc _ _ hn ih =>
    obtain ⟨m, hkeys, hrun⟩ := ih
    obtain ⟨m', hkeys', ⟨herase, heq⟩ | ⟨y, herase, hnext⟩⟩ := next_erase hkeys hn
    · refine ⟨m', hkeys', ?_⟩
      rw [List.filterMap_append, List.filterMap_cons, herase, ← heq]
      simpa using hrun
    · refine ⟨m', hkeys', ?_⟩
      rw [List.filterMap_append, List.filterMap_cons, herase]
      exact hrun.snoc trivial hnext

/-- The counter values returned for a topic increase; what a topic inherits is a counter
value that was returned, or where counters start; and without the seqs that the callers
supply, the counter values and the floors are the same. -/
theorem seq_never_repeats {as : List Action} (h : (machine c).Runs Machine.Any as s) :
    (s.stamps.Pairwise fun x y => x.1 = y.1 → y.2 < x.2) ∧
    (∀ topic, Issued s (floorOf s topic)) ∧
    ∃ s', (machine c).Runs Machine.Any (as.filterMap erase) s' ∧ s'.stamps = s.stamps ∧
      ∀ topic, floorOf s' topic = floorOf s topic := by
  have hinv := inv_of_run h
  refine ⟨hinv.increasing, fun topic => hinv.held _ ?_, ?_⟩
  · rw [floorOf]
    split
    · next exact hget =>
      split
      · exact .inr (.inl ⟨_, hget⟩)
      · exact .inl rfl
    · exact .inl rfl
  · obtain ⟨m, -, hrun⟩ := runs_erase h
    exact ⟨seenAs s m, hrun, rfl, fun _ => rfl⟩

end

/-- A registry of one topic, with no room for floors. -/
def tiny : Config where
  capacity := 1
  floorCap := 0
  scanLimit := 16
  oneMap := false

/-- Nothing is protected. -/
def quietAll : Probes where
  isProtected _ := false
  quiet _ := true

/-- A topic is evicted and counts again, above the floor that all topics then have. -/
theorem evicted_counts_on : ∃ s, (machine tiny).Runs Machine.Any
      [.stamp .undefined (js "a") quietAll, .stamp .undefined (js "a") quietAll,
        .stamp (.bigint 90) (js "a") quietAll, .stamp .undefined (js "b") quietAll,
        .stamp .undefined (js "a") quietAll] s ∧
    s.stamps = [(js "a", 3), (js "b", 1), (js "a", 2), (js "a", 1)] ∧
    s.stamps.Pairwise fun x y => x.1 = y.1 → y.2 < x.2 := by
  obtain ⟨s, hs⟩ : ∃ s, (machine tiny).exec (machine tiny).init
      [.stamp .undefined (js "a") quietAll, .stamp .undefined (js "a") quietAll,
        .stamp (.bigint 90) (js "a") quietAll, .stamp .undefined (js "b") quietAll,
        .stamp .undefined (js "a") quietAll] = some s := ⟨_, rfl⟩
  have hrun := Machine.runs_of_exec hs
  refine ⟨s, hrun, ?_, (seq_never_repeats hrun).1⟩
  cases hs
  decide +kernel

end BunServe.SeqBound
