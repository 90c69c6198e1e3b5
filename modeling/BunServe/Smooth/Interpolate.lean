import Mathlib.Algebra.Order.Field.Basic
import Mathlib.Algebra.Order.Field.Rat
import Mathlib.Data.List.Induction
import Mathlib.Tactic.Linarith
import Mathlib.Tactic.FieldSimp

/-!
# BunServe.Smooth.Interpolate

The sample ring of a remote entity (`plugins/smooth/interpolate.js`), in exact
arithmetic: where an entity was, whether it travelled or jumped between two
samples, and where it is drawn at a render time.

The three typed arrays are one array of samples; `spikes` is the mask of jump
verdicts, a bit per slot.  The fields of the resume ease are not part of it.

* `holds_pushAll` — the ring holds the newest samples of the history, and each
  verdict bit is the definition over the whole history;
* `Holds.drawn_sampleInto` — where a frame draws the entity;
* `ring_of_pushes` — both, after any pushes.
-/

namespace BunServe.Smooth.Interpolate

/-- A sample on the server's time axis. -/
structure Sample where
  t : ℚ
  x : ℚ
  y : ℚ
  deriving DecidableEq

/-- `RING_CAP`. -/
@[reducible] def ringCap : Nat := 32

/-- `JUMP_FACTOR_SQ`. -/
def jumpFactorSq : ℚ := 8 * 8

/-- The fields of a `SampleRing`; a `lastV2` of `-1` is no usable pair. -/
structure SampleRing where
  slots : Nat → Sample
  spikes : BitVec 32
  lastV2 : ℚ
  head : Nat
  len : Nat

namespace SampleRing

/-- `new SampleRing()`. -/
def empty : SampleRing := ⟨fun _ => ⟨0, 0, 0⟩, 0, -1, 0, 0⟩

/-- `spikes |= 1 << i`. -/
def mark (spikes : BitVec 32) (i : Nat) : BitVec 32 := spikes ||| 1#32 <<< i

/-- `spikes &= ~(1 << i)`. -/
def unmark (spikes : BitVec 32) (i : Nat) : BitVec 32 := spikes &&& ~~~(1#32 <<< i)

/-- `(spikes & (1 << i)) !== 0`. -/
def marked (spikes : BitVec 32) (i : Nat) : Bool := (spikes &&& 1#32 <<< i) != 0

/-- Squared speed of a pair, or `-1`. -/
def pairV2 (p s : Sample) : ℚ :=
  let span := s.t - p.t
  if 0 < span then ((s.x - p.x) * (s.x - p.x) + (s.y - p.y) * (s.y - p.y)) / (span * span) else -1

def newest? (r : SampleRing) : Option Nat :=
  if 0 < r.len then some ((r.head + r.len - 1) % ringCap) else none

/-- `t`, not before the newest sample. -/
def clamp (r : SampleRing) (t : ℚ) : ℚ :=
  match r.newest? with
  | some prev => if t < (r.slots prev).t then (r.slots prev).t else t
  | none => t

/-- `push(t, x, y)`. -/
def push (r : SampleRing) (s : Sample) : SampleRing :=
  let s := { s with t := r.clamp s.t }
  let full := r.len = ringCap
  let head := if full then (r.head + 1) % ringCap else r.head
  let len := if full then r.len - 1 else r.len
  let i := (head + len) % ringCap
  let slots := fun j => if j = i then s else r.slots j
  let v2 := match r.newest? with
    | some prev => pairV2 (r.slots prev) s
    | none => -1
  let back := r.lastV2
  let spikes := if 0 ≤ v2 ∧ 0 ≤ back ∧ jumpFactorSq * back < v2 then mark r.spikes i
    else unmark r.spikes i
  let spikes := match r.newest? with
    | some prev => if 0 ≤ v2 ∧ back ≤ jumpFactorSq * v2 then unmark spikes prev else spikes
    | none => spikes
  { slots, spikes, lastV2 := v2, head, len := len + 1 }

def pushAll (samples : List Sample) : SampleRing := samples.foldl push empty

end SampleRing

/-! ## sampling -/

/-- `SampleBounds`. -/
structure SampleBounds where
  extrapolateMs : ℚ
  snapGapMs : ℚ
  snapSpeedPerMs : ℚ
  autoSnap : Bool

/-- `overSpeed(dx, dy, span, perMs)`. -/
def overSpeed (dx dy span perMs : ℚ) : Bool :=
  if 0 < perMs then
    let lim := perMs * span
    lim * lim < dx * dx + dy * dy
  else false

/-- The status of a frame. -/
inductive Status where
  | empty
  | active
  | settled
  deriving DecidableEq

/-- How recent the position is. -/
inductive Fresh where
  | live
  | coasting
  | stale
  deriving DecidableEq

/-- What is written into the scratch. -/
structure Out where
  x : ℚ
  y : ℚ
  fresh : Fresh
  deriving DecidableEq

namespace SampleRing

/-- `isJump(lo, hi, dx, dy, span, bounds)`. -/
def isJump (r : SampleRing) (hi : Nat) (dx dy span : ℚ) (bounds : SampleBounds) : Bool :=
  if overSpeed dx dy span bounds.snapSpeedPerMs then true
  else bounds.autoSnap && marked r.spikes hi

/-- The last observed velocity, or zero. -/
def velocity (r : SampleRing) (bounds : SampleBounds) : ℚ × ℚ :=
  if 2 ≤ r.len then
    let ni := (r.head + r.len - 1) % ringCap
    let pi := (r.head + r.len - 2) % ringCap
    let span := (r.slots ni).t - (r.slots pi).t
    let dx := (r.slots ni).x - (r.slots pi).x
    let dy := (r.slots ni).y - (r.slots pi).y
    if 0 < span ∧ span ≤ bounds.snapGapMs ∧ r.isJump ni dx dy span bounds = false then
      (dx / span, dy / span)
    else (0, 0)
  else (0, 0)

def extrapolate (r : SampleRing) (renderTime : ℚ) (bounds : SampleBounds) : Status × Out :=
  let ni := (r.head + r.len - 1) % ringCap
  let (vx, vy) := r.velocity bounds
  let «over» := renderTime - (r.slots ni).t
  let dt := if bounds.extrapolateMs < «over» then bounds.extrapolateMs else «over»
  let fresh :=
    if bounds.extrapolateMs < «over» then Fresh.stale
    else if 0 < «over» then Fresh.coasting
    else Fresh.live
  let moving := (vx ≠ 0 ∨ vy ≠ 0) ∧ «over» < bounds.extrapolateMs
  (if moving then .active else .settled,
    ⟨(r.slots ni).x + vx * dt, (r.slots ni).y + vy * dt, fresh⟩)

/-- The backward search for the pair around the render time, from `k - 1` down:
how far behind the head the lower sample is. -/
def searchFrom (r : SampleRing) (renderTime : ℚ) : Nat → Option Nat
  | 0 => none
  | k + 1 =>
    if (r.slots ((r.head + k) % ringCap)).t ≤ renderTime then some k
    else searchFrom r renderTime k

/-- The slots of the straddling pair. -/
def straddle (r : SampleRing) (renderTime : ℚ) : Nat × Nat :=
  match r.searchFrom renderTime (r.len - 1) with
  | some k => ((r.head + k) % ringCap, (r.head + k + 1) % ringCap)
  | none => (r.head, (r.head + r.len - 1) % ringCap)

def interpolate (r : SampleRing) (renderTime : ℚ) (bounds : SampleBounds) : Status × Out :=
  let (lower, upper) := r.straddle renderTime
  let tl := (r.slots lower).t
  let span := (r.slots upper).t - tl
  let dx := (r.slots upper).x - (r.slots lower).x
  let dy := (r.slots upper).y - (r.slots lower).y
  if bounds.snapGapMs < span ∨ 0 < span ∧ r.isJump upper dx dy span bounds = true then
    (.active, ⟨(r.slots upper).x, (r.slots upper).y, .live⟩)
  else
    let f := if 0 < span then (renderTime - tl) / span else 1
    (.active, ⟨(r.slots lower).x + dx * f, (r.slots lower).y + dy * f, .live⟩)

/-- `sampleInto(renderTime, out, bounds)`: an empty ring leaves `out` alone. -/
def sampleInto (r : SampleRing) (renderTime : ℚ) (bounds : SampleBounds) :
    Status × Option Out :=
  if r.len = 0 then (.empty, none)
  else
    let ni := (r.head + r.len - 1) % ringCap
    if (r.slots ni).t ≤ renderTime then
      let (status, out) := r.extrapolate renderTime bounds
      (status, some out)
    else if renderTime ≤ (r.slots r.head).t then
      (.active, some ⟨(r.slots r.head).x, (r.slots r.head).y, .live⟩)
    else
      let (status, out) := r.interpolate renderTime bounds
      (status, some out)

end SampleRing

/-! ## the definition over the whole history -/

/-- The samples as they are recorded: no time goes back. -/
def record (samples : List Sample) : List Sample :=
  samples.foldl (fun history s =>
    history ++ [match history.getLast? with
      | some last => { s with t := max s.t last.t }
      | none => s]) []

/-- Squared speed of the pair that ends at `j`; none where its samples are not
apart in time. -/
def speed (history : List Sample) (j : Nat) : Option ℚ :=
  match j, history[j - 1]?, history[j]? with
  | 0, _, _ => none
  | _ + 1, some p, some s => if p.t < s.t then some (SampleRing.pairV2 p s) else none
  | _, _, _ => none

/-- The pair that ends at `j` is a jump: the pair before it has a speed and is
outrun by the factor, and the pair after it, where it has a speed, is as well. -/
def Jump (history : List Sample) (j : Nat) : Prop :=
  ∃ v b, speed history j = some v ∧ speed history (j - 1) = some b ∧ jumpFactorSq * b < v ∧
    ∀ w, speed history (j + 1) = some w → jumpFactorSq * w < v

/-! ## verdict bits -/

variable {j : Nat}

namespace SampleRing

theorem marked_eq (spikes : BitVec 32) (i : Nat) (hi : i < 32) :
    marked spikes i = spikes.getLsbD i := by
  unfold marked
  rw [← BitVec.twoPow_eq, BitVec.and_twoPow]
  have hpow : BitVec.twoPow 32 i ≠ 0#32 := by
    intro hzero
    have := congrArg (fun b : BitVec 32 => b.getLsbD i) hzero
    simp [hi] at this
  by_cases hb : spikes.getLsbD i <;> simp [hb, hpow]

theorem marked_mark (spikes : BitVec 32) (i : Nat) (hj : j < 32) :
    marked (mark spikes i) j = (decide (i = j) || marked spikes j) := by
  rw [marked_eq _ _ hj, marked_eq _ _ hj, mark, ← BitVec.twoPow_eq, BitVec.getLsbD_or,
    BitVec.getLsbD_twoPow]
  by_cases h : i = j <;> simp [h, hj]

theorem marked_unmark (spikes : BitVec 32) (i : Nat) (hj : j < 32) :
    marked (unmark spikes i) j = (!decide (i = j) && marked spikes j) := by
  rw [marked_eq _ _ hj, marked_eq _ _ hj, unmark, ← BitVec.twoPow_eq, BitVec.getLsbD_and,
    BitVec.getLsbD_not, BitVec.getLsbD_twoPow]
  by_cases h : i = j <;> simp [h, hj]

/-! ## speeds -/

theorem pairV2_nonneg {p s : Sample} (h : p.t < s.t) : 0 ≤ pairV2 p s := by
  have hspan : 0 < s.t - p.t := by linarith
  simp only [pairV2, hspan]
  exact div_nonneg (add_nonneg (mul_self_nonneg _) (mul_self_nonneg _)) (mul_self_nonneg _)

theorem pairV2_of_le {p s : Sample} (h : s.t ≤ p.t) : pairV2 p s = -1 := by
  have hspan : ¬0 < s.t - p.t := by linarith
  simp [pairV2, hspan]

end SampleRing

open SampleRing

variable {history : List Sample}

/-- `pairV2` of the pair that ends at `j`, or `-1`, as `push` keeps it. -/
theorem speed_pair {p s : Sample} (hp : history[j]? = some p) (hs : history[j + 1]? = some s) :
    (speed history (j + 1)).getD (-1) = pairV2 p s := by
  by_cases h : p.t < s.t
  · simp [speed, hp, hs, h]
  · simp [speed, hp, hs, h, pairV2_of_le (not_lt.mp h)]

theorem speed_nonneg {v : ℚ} (h : speed history j = some v) : 0 ≤ v := by
  unfold speed at h
  split at h
  · cases h
  · split at h
    · next hlt => exact Option.some.inj h ▸ pairV2_nonneg hlt
    · cases h
  · cases h

theorem speed_beyond (h : history.length ≤ j) : speed history j = none := by
  cases j with
  | zero => rfl
  | succ j =>
    have : history[j + 1]? = none := by simp [h]
    simp [speed, this]

theorem speed_append (history : List Sample) (s : Sample) (h : j < history.length) :
    speed (history ++ [s]) j = speed history j := by
  unfold speed
  rw [List.getElem?_append_left h, List.getElem?_append_left (by omega)]

/-! ## the ring and the history -/

def stamped (history : List Sample) (s : Sample) : Sample :=
  match history.getLast? with
  | some last => { s with t := max s.t last.t }
  | none => s
@[simp] theorem record_nil : record [] = [] := rfl

@[simp] theorem record_append (samples : List Sample) (s : Sample) :
    record (samples ++ [s]) = record samples ++ [stamped (record samples) s] := by
  simp only [record, List.foldl_append]
  rfl

@[simp] theorem pushAll_append (samples : List Sample) (s : Sample) :
    pushAll (samples ++ [s]) = (pushAll samples).push s := by
  simp [pushAll]

structure Holds (r : SampleRing) (history : List Sample) : Prop where
  len : r.len = min history.length ringCap
  head : r.head = (history.length - r.len) % ringCap
  slots : ∀ j s, history.length ≤ j + r.len → history[j]? = some s → r.slots (j % ringCap) = s
  verdicts : ∀ j, history.length ≤ j + r.len → j < history.length →
    (marked r.spikes (j % ringCap) = true ↔ Jump history j)
  last : r.lastV2 = (speed history (history.length - 1)).getD (-1)

theorem holds_empty : Holds empty [] where
  len := rfl
  head := rfl
  slots := by simp
  verdicts := by simp
  last := rfl

namespace Holds

variable {r : SampleRing} {history : List Sample}

theorem newest (h : Holds r history) {last : Sample} (hl : history.getLast? = some last) :
    r.newest? = some ((history.length - 1) % ringCap) ∧
      r.slots ((history.length - 1) % ringCap) = last := by
  have hpos : 0 < history.length := by
    cases history with
    | nil => simp at hl
    | cons a l => simp
  have hlen := h.len
  have hhead := h.head
  unfold ringCap at *
  constructor
  · unfold newest?
    rw [if_pos (by omega)]
    unfold ringCap
    congr 1
    omega
  · refine h.slots _ _ (by omega) ?_
    rw [← hl, List.getLast?_eq_getElem?]

theorem newest_nil (h : Holds r []) : r.newest? = none := by
  have hlen := h.len
  simp [newest?, hlen]

theorem clamp_eq (h : Holds r history) (s : Sample) :
    ({ s with t := r.clamp s.t } : Sample) = stamped history s := by
  unfold stamped clamp
  cases hl : history.getLast? with
  | none =>
    rw [List.getLast?_eq_none_iff] at hl
    subst hl
    simp [h.newest_nil]
  | some last =>
    obtain ⟨hn, hslot⟩ := h.newest hl
    simp only [hn, hslot]
    by_cases hlt : s.t < last.t
    · rw [if_pos hlt, max_eq_right (le_of_lt hlt)]
    · rw [if_neg hlt, max_eq_left (not_lt.mp hlt)]

end Holds

theorem jump_append (s : Sample)
    (h : j + 1 < history.length) : Jump (history ++ [s]) j ↔ Jump history j := by
  unfold Jump
  rw [speed_append _ _ (by omega : j < _), speed_append _ _ (by omega : j - 1 < _),
    speed_append _ _ h]

theorem jump_revised (s : Sample) (h : history ≠ []) :
    Jump (history ++ [s]) (history.length - 1) ↔
      Jump history (history.length - 1) ∧
        ∀ w, speed (history ++ [s]) history.length = some w →
          jumpFactorSq * w < (speed history (history.length - 1)).getD (-1) := by
  have hpos : 0 < history.length := List.length_pos_iff.mpr h
  have hsucc : history.length - 1 + 1 = history.length := by omega
  unfold Jump
  rw [speed_append _ _ (by omega : history.length - 1 < _),
    speed_append _ _ (by omega : history.length - 1 - 1 < _), hsucc,
    (speed_beyond le_rfl : speed history history.length = none)]
  constructor
  · rintro ⟨v, b, hv, hb, hout, hnext⟩
    refine ⟨⟨v, b, hv, hb, hout, by simp⟩, ?_⟩
    simpa [hv] using hnext
  · rintro ⟨⟨v, b, hv, hb, hout, -⟩, hnext⟩
    refine ⟨v, b, hv, hb, hout, ?_⟩
    simpa [hv] using hnext

theorem jump_newest (history : List Sample) (s : Sample) :
    Jump (history ++ [s]) history.length ↔
      ∃ v b, speed (history ++ [s]) history.length = some v ∧
        speed history (history.length - 1) = some b ∧ jumpFactorSq * b < v := by
  cases history with
  | nil => simp [Jump, speed]
  | cons a l =>
    unfold Jump
    rw [speed_append (a :: l) s (j := (a :: l).length - 1) (by simp),
      (speed_beyond (by simp) : speed (a :: l ++ [s]) ((a :: l).length + 1) = none)]
    simp

namespace Holds

variable {r : SampleRing} {history : List Sample}

theorem newSpeed (h : Holds r history) (s : Sample) :
    (match r.newest? with
      | some prev => pairV2 (r.slots prev) s
      | none => -1) = (speed (history ++ [s]) history.length).getD (-1) := by
  cases hl : history.getLast? with
  | none =>
    rw [List.getLast?_eq_none_iff] at hl
    subst hl
    simp [h.newest_nil, speed]
  | some last =>
    obtain ⟨hn, hslot⟩ := h.newest hl
    have hne : history ≠ [] := by
      intro hnil
      simp [hnil] at hl
    have hpos : 0 < history.length := List.length_pos_iff.mpr hne
    have hsucc : history.length - 1 + 1 = history.length := by omega
    have hp : (history ++ [s])[history.length - 1]? = some last := by
      rw [List.getElem?_append_left (by omega), ← List.getLast?_eq_getElem?, hl]
    have hs : (history ++ [s])[history.length - 1 + 1]? = some s := by simp [hsucc]
    have := speed_pair hp hs
    rw [hsucc] at this
    simp [hn, hslot, this]

end Holds

/-- The mask after a push into slot `i`, with the speeds of the new pair and of
the one before it. -/
def judged (spikes : BitVec 32) (i : Nat) (prev : Option Nat) (v2 back : ℚ) : BitVec 32 :=
  let spikes := if 0 ≤ v2 ∧ 0 ≤ back ∧ jumpFactorSq * back < v2 then mark spikes i
    else unmark spikes i
  match prev with
  | some prev => if 0 ≤ v2 ∧ back ≤ jumpFactorSq * v2 then unmark spikes prev else spikes
  | none => spikes

theorem judged_new (spikes : BitVec 32) {i : Nat} {prev : Option Nat} (v2 back : ℚ) (hi : i < 32)
    (hp : prev ≠ some i) :
    marked (judged spikes i prev v2 back) i =
      decide (0 ≤ v2 ∧ 0 ≤ back ∧ jumpFactorSq * back < v2) := by
  cases prev with
  | none =>
    simp only [judged]
    split <;> simp_all [marked_mark, marked_unmark]
  | some prev =>
    simp only [judged]
    split <;> split <;> simp_all [marked_mark, marked_unmark]

theorem judged_prev (spikes : BitVec 32) {i prev : Nat} (v2 back : ℚ) (hprev : prev < 32)
    (hne : i ≠ prev) :
    marked (judged spikes i (some prev) v2 back) prev =
      (marked spikes prev && !decide (0 ≤ v2 ∧ back ≤ jumpFactorSq * v2)) := by
  simp only [judged]
  by_cases hrev : 0 ≤ v2 ∧ back ≤ jumpFactorSq * v2
  · simp [hrev, marked_unmark _ _ hprev]
  · rw [if_neg hrev, decide_eq_false hrev]
    split <;> simp [marked_mark, marked_unmark, hprev, hne]

theorem judged_other (spikes : BitVec 32) {i : Nat} {prev : Option Nat} (v2 back : ℚ)
    (hj : j < 32) (hij : i ≠ j) (hp : prev ≠ some j) :
    marked (judged spikes i prev v2 back) j = marked spikes j := by
  cases prev with
  | none =>
    simp only [judged]
    split <;> simp_all [marked_mark, marked_unmark]
  | some prev =>
    simp only [judged]
    split <;> split <;> simp_all [marked_mark, marked_unmark]

namespace Holds

variable {r : SampleRing} {history : List Sample}

theorem push_eq (h : Holds r history) (s : Sample) :
    r.push s =
      { slots := fun j =>
          if j = history.length % ringCap then stamped history s else r.slots j
        spikes := judged r.spikes (history.length % ringCap) r.newest?
          ((speed (history ++ [stamped history s]) history.length).getD (-1))
          ((speed history (history.length - 1)).getD (-1))
        lastV2 := (speed (history ++ [stamped history s]) history.length).getD (-1)
        head := (history.length + 1 - min (history.length + 1) ringCap) % ringCap
        len := min (history.length + 1) ringCap } := by
  have hlen := h.len
  have hhead := h.head
  have hi : ((if r.len = ringCap then (r.head + 1) % ringCap else r.head) +
      if r.len = ringCap then r.len - 1 else r.len) % ringCap = history.length % ringCap := by
    unfold ringCap at *
    split <;> omega
  have hlen' : (if r.len = ringCap then r.len - 1 else r.len) + 1 =
      min (history.length + 1) ringCap := by
    unfold ringCap at *
    split <;> omega
  have hhead' : (if r.len = ringCap then (r.head + 1) % ringCap else r.head) =
      (history.length + 1 - min (history.length + 1) ringCap) % ringCap := by
    unfold ringCap at *
    split <;> omega
  have hv2 := h.newSpeed (stamped history s)
  rw [← hhead', ← hlen', ← hi, ← hv2, ← h.last, ← h.clamp_eq s]
  rfl

end Holds

theorem revised_iff (s : Sample) (h : history ≠ []) :
    Jump (history ++ [s]) (history.length - 1) ↔
      Jump history (history.length - 1) ∧
        ¬(0 ≤ (speed (history ++ [s]) history.length).getD (-1) ∧
          (speed history (history.length - 1)).getD (-1) ≤
            jumpFactorSq * (speed (history ++ [s]) history.length).getD (-1)) := by
  rw [jump_revised s h]
  cases hw : speed (history ++ [s]) history.length with
  | none => simp
  | some w => simp [speed_nonneg hw]

theorem newest_iff (history : List Sample) (s : Sample) :
    Jump (history ++ [s]) history.length ↔
      0 ≤ (speed (history ++ [s]) history.length).getD (-1) ∧
        0 ≤ (speed history (history.length - 1)).getD (-1) ∧
        jumpFactorSq * (speed history (history.length - 1)).getD (-1) <
          (speed (history ++ [s]) history.length).getD (-1) := by
  rw [jump_newest]
  cases hv : speed (history ++ [s]) history.length with
  | none => simp
  | some v =>
    cases hb : speed history (history.length - 1) with
    | none => simp
    | some b => simp [speed_nonneg hv, speed_nonneg hb]

namespace Holds

variable {r : SampleRing} {history : List Sample}

theorem push (h : Holds r history) (s : Sample) :
    Holds (r.push s) (history ++ [stamped history s]) := by
  have hlen := h.len
  rw [h.push_eq s]
  refine ⟨by simp, by simp, ?_, ?_, by simp⟩
  · intro j x hj hx
    simp only [List.length_append, List.length_cons] at hj
    by_cases hn : j < history.length
    · rw [List.getElem?_append_left hn] at hx
      have hres : history.length ≤ j + r.len := by
        omega
      have hslot : ¬j % ringCap = history.length % ringCap := by
        unfold ringCap at *
        omega
      simpa [hslot] using h.slots j x hres hx
    · have hjn : j = history.length := by
        have := (List.getElem?_eq_some_iff.mp hx).1
        simp only [List.length_append, List.length_cons, List.length_nil] at this
        omega
      subst hjn
      simpa using hx
  · intro j hj hjlt
    simp only [List.length_append, List.length_cons, List.length_nil] at hj hjlt
    have hmod : ∀ n, n % ringCap < 32 := fun n => Nat.mod_lt n (by decide)
    rcases Nat.lt_trichotomy (j + 1) history.length with hold | hprev | hnew
    · -- an older pair: its bit and its verdict stay
      have hne : ¬history.length % ringCap = j % ringCap := by
        unfold ringCap at *
        omega
      have hnp : r.newest? ≠ some (j % ringCap) := by
        cases hl : history.getLast? with
        | none =>
          rw [List.getLast?_eq_none_iff] at hl
          simp [hl] at hold
        | some last =>
          rw [(h.newest hl).1]
          unfold ringCap at *
          simp only [ne_eq, Option.some.injEq]
          omega
      rw [judged_other _ _ _ (hmod _) hne hnp, jump_append _ hold]
      exact h.verdicts j (by unfold ringCap at *; omega) (by omega)
    · -- the pair that was the newest one: revised
      have hj1 : j = history.length - 1 := by omega
      subst hj1
      have hne : history ≠ [] := List.length_pos_iff.mp (by omega)
      obtain ⟨last, hl⟩ := Option.isSome_iff_exists.mp (List.getLast?_isSome.mpr hne)
      have hdiff : ¬history.length % ringCap = (history.length - 1) % ringCap := by
        unfold ringCap at *
        omega
      rw [(h.newest hl).1, judged_prev _ _ _ (hmod _) hdiff, revised_iff _ hne,
        ← h.verdicts _ (by unfold ringCap at *; omega) (by omega)]
      simp only [Bool.and_eq_true, Bool.not_eq_true', decide_eq_false_iff_not]
    · -- the new pair
      have hjn : j = history.length := by omega
      subst hjn
      have hnp : r.newest? ≠ some (history.length % ringCap) := by
        unfold newest?
        split
        · have hhead := h.head
          unfold ringCap at *
          simp only [ne_eq, Option.some.injEq]
          omega
        · simp
      rw [judged_new _ _ _ (hmod _) hnp, newest_iff, decide_eq_true_iff]

end Holds

theorem holds_pushAll (samples : List Sample) : Holds (pushAll samples) (record samples) := by
  induction samples using List.reverseRecOn with
  | nil => exact holds_empty
  | append_singleton samples s ih =>
    rw [pushAll_append, record_append]
    exact ih.push s

/-! ## times -/

theorem record_sorted (samples : List Sample) : (record samples).Pairwise fun a b => a.t ≤ b.t := by
  induction samples using List.reverseRecOn with
  | nil => simp
  | append_singleton samples s ih =>
    rw [record_append, List.pairwise_append]
    refine ⟨ih, by simp, fun a ha b hb => ?_⟩
    rw [List.mem_singleton] at hb
    subst hb
    unfold stamped
    cases hl : (record samples).getLast? with
    | none =>
      rw [List.getLast?_eq_none_iff] at hl
      simp [hl] at ha
    | some last =>
      refine le_trans ?_ (le_max_right s.t last.t)
      obtain ⟨front, hfront⟩ := List.getLast?_eq_some_iff.mp hl
      rw [hfront] at ih ha
      rcases List.mem_append.mp ha with hold | hnew
      · exact (List.pairwise_append.mp ih).2.2 a hold last (by simp)
      · rw [List.mem_singleton.mp hnew]

theorem record_kept (samples : List Sample) :
    List.Forall₂ (fun s kept => kept.x = s.x ∧ kept.y = s.y ∧ s.t ≤ kept.t)
      samples (record samples) := by
  induction samples using List.reverseRecOn with
  | nil => simp
  | append_singleton samples s ih =>
    rw [record_append]
    refine List.rel_append ih (List.Forall₂.cons ?_ List.Forall₂.nil)
    unfold stamped
    cases (record samples).getLast? <;> simp

/-! ## where an entity is drawn -/

/-- A pair is snapped, not travelled: it is beyond the absolute speed, or a jump. -/
def Snaps (history : List Sample) (bounds : SampleBounds) (j : Nat) (p s : Sample) : Prop :=
  overSpeed (s.x - p.x) (s.y - p.y) (s.t - p.t) bounds.snapSpeedPerMs = true ∨
    bounds.autoSnap = true ∧ Jump history j

/-- The newest pair carries a velocity. -/
def Carries (history : List Sample) (bounds : SampleBounds) (p n : Sample) : Prop :=
  2 ≤ history.length ∧ history[history.length - 2]? = some p ∧
    p.t < n.t ∧ n.t - p.t ≤ bounds.snapGapMs ∧
    ¬Snaps history bounds (history.length - 1) p n

def oldest (history : List Sample) : Nat := history.length - min history.length ringCap

/-- Where a frame may draw an entity of this history. -/
inductive Drawn (history : List Sample) (bounds : SampleBounds) (renderTime : ℚ) :
    Option Out → Prop
  | empty : history = [] → Drawn history bounds renderTime none
  /-- The whole buffer is ahead. -/
  | held {o : Sample} : history[oldest history]? = some o → renderTime ≤ o.t →
      Drawn history bounds renderTime (some ⟨o.x, o.y, .live⟩)
  /-- On the segment of the pair around the render time. -/
  | travelled {k : Nat} {p s : Sample} (f : ℚ) : oldest history ≤ k →
      history[k]? = some p → history[k + 1]? = some s →
      p.t ≤ renderTime → renderTime < s.t →
      s.t - p.t ≤ bounds.snapGapMs → ¬Snaps history bounds (k + 1) p s →
      f = (renderTime - p.t) / (s.t - p.t) → 0 ≤ f → f < 1 →
      Drawn history bounds renderTime
        (some ⟨p.x + (s.x - p.x) * f, p.y + (s.y - p.y) * f, .live⟩)
  /-- At the newer end of that pair. -/
  | snapped {k : Nat} {p s : Sample} : oldest history ≤ k →
      history[k]? = some p → history[k + 1]? = some s →
      p.t ≤ renderTime → renderTime < s.t →
      bounds.snapGapMs < s.t - p.t ∨ Snaps history bounds (k + 1) p s →
      Drawn history bounds renderTime (some ⟨s.x, s.y, .live⟩)
  /-- Past the newest sample, no further than the cap. -/
  | extrapolated {n : Sample} {vx vy : ℚ} {fresh : Fresh} : history.getLast? = some n →
      n.t ≤ renderTime →
      (∀ p, Carries history bounds p n →
        vx = (n.x - p.x) / (n.t - p.t) ∧ vy = (n.y - p.y) / (n.t - p.t)) →
      ((¬∃ p, Carries history bounds p n) → vx = 0 ∧ vy = 0) →
      Drawn history bounds renderTime
        (some ⟨n.x + vx * min (renderTime - n.t) bounds.extrapolateMs,
          n.y + vy * min (renderTime - n.t) bounds.extrapolateMs, fresh⟩)

namespace Holds

variable {r : SampleRing} {history : List Sample}

theorem index (h : Holds r history) (k : Nat) :
    (r.head + k) % ringCap = (oldest history + k) % ringCap := by
  have hlen := h.len
  have hhead := h.head
  unfold oldest ringCap at *
  omega

theorem slot (h : Holds r history) {k : Nat} (hk : k < r.len) :
    history[oldest history + k]? = some (r.slots ((r.head + k) % ringCap)) := by
  have hlen := h.len
  have hlt : oldest history + k < history.length := by
    unfold oldest
    omega
  rw [h.index, List.getElem?_eq_getElem hlt]
  refine congrArg some (h.slots _ _ ?_ (List.getElem?_eq_getElem hlt)).symm
  unfold oldest
  omega

theorem isJump_iff (h : Holds r history) (bounds : SampleBounds) (p s : Sample) {k : Nat}
    (hk : k < r.len) :
    r.isJump ((r.head + k) % ringCap) (s.x - p.x) (s.y - p.y) (s.t - p.t) bounds = true ↔
      Snaps history bounds (oldest history + k) p s := by
  have hlen := h.len
  have hbit := h.verdicts (oldest history + k) (by unfold oldest; omega)
    (by unfold oldest; omega)
  unfold isJump Snaps
  rw [h.index, ← hbit]
  cases overSpeed (s.x - p.x) (s.y - p.y) (s.t - p.t) bounds.snapSpeedPerMs <;> simp

end Holds

namespace Holds

variable {r : SampleRing} {history : List Sample}

theorem newest_slot (h : Holds r history) (hne : r.len ≠ 0) :
    history.getLast? = some (r.slots ((r.head + r.len - 1) % ringCap)) := by
  have hslot := h.slot (k := r.len - 1) (by omega)
  have hlen := h.len
  rw [List.getLast?_eq_getElem?]
  have hidx : oldest history + (r.len - 1) = history.length - 1 := by
    unfold oldest
    omega
  have hring : r.head + (r.len - 1) = r.head + r.len - 1 := by omega
  rw [← hidx, hslot, hring]

theorem velocity_spec (h : Holds r history) (bounds : SampleBounds) :
    let n := r.slots ((r.head + r.len - 1) % ringCap)
    (∀ p, Carries history bounds p n →
        (r.velocity bounds).1 = (n.x - p.x) / (n.t - p.t) ∧
          (r.velocity bounds).2 = (n.y - p.y) / (n.t - p.t)) ∧
      ((¬∃ p, Carries history bounds p n) →
        (r.velocity bounds).1 = 0 ∧ (r.velocity bounds).2 = 0) := by
  intro n
  have hlen := h.len
  by_cases htwo : 2 ≤ r.len
  · have hidx : oldest history + (r.len - 2) = history.length - 2 := by
      unfold oldest
      omega
    have hlast : oldest history + (r.len - 1) = history.length - 1 := by
      omega
    have hring : r.head + (r.len - 1) = r.head + r.len - 1 := by omega
    have hring' : r.head + (r.len - 2) = r.head + r.len - 2 := by omega
    have hprev := h.slot (k := r.len - 2) (by omega)
    rw [hidx, hring'] at hprev
    have hjump := h.isJump_iff bounds (r.slots ((r.head + r.len - 2) % ringCap)) n
      (k := r.len - 1) (by omega)
    rw [hlast, hring] at hjump
    have hcarries : ∀ p, Carries history bounds p n ↔
        p = r.slots ((r.head + r.len - 2) % ringCap) ∧
        0 < n.t - p.t ∧ n.t - p.t ≤ bounds.snapGapMs ∧
        r.isJump ((r.head + r.len - 1) % ringCap) (n.x - p.x) (n.y - p.y) (n.t - p.t) bounds
          = false := by
      intro p
      unfold Carries
      rw [hprev, Option.some.injEq, sub_pos]
      constructor
      · rintro ⟨-, rfl, hlt, hgap, hno⟩
        exact ⟨rfl, hlt, hgap, Bool.eq_false_iff.mpr fun hyes => hno (hjump.mp hyes)⟩
      · rintro ⟨rfl, hlt, hgap, hno⟩
        refine ⟨by omega, rfl, hlt, hgap, fun hyes => ?_⟩
        rw [hjump.mpr hyes] at hno
        cases hno
    simp only [velocity, if_pos htwo]
    split
    · next hok =>
      refine ⟨?_, absurd ⟨_, (hcarries _).mpr ⟨rfl, hok⟩⟩⟩
      intro p hp
      obtain ⟨rfl, -⟩ := (hcarries p).mp hp
      exact ⟨rfl, rfl⟩
    · next hbad =>
      refine ⟨fun p hp => ?_, by simp⟩
      obtain ⟨rfl, hok⟩ := (hcarries p).mp hp
      exact absurd hok hbad
  · simp only [velocity, if_neg htwo]
    refine ⟨fun p hp => ?_, by simp⟩
    have := hp.1
    have : ringCap = 32 := rfl
    omega

end Holds

variable {renderTime : ℚ}

theorem searchFrom_some {r : SampleRing} {m k : Nat} (h : r.searchFrom renderTime m = some k) :
    k < m ∧ (r.slots ((r.head + k) % ringCap)).t ≤ renderTime ∧
      ∀ i, k < i → i < m → renderTime < (r.slots ((r.head + i) % ringCap)).t := by
  induction m with
  | zero => cases h
  | succ m ih =>
    unfold searchFrom at h
    split at h
    · next hle =>
      cases h
      exact ⟨by omega, hle, fun i hi hm => by omega⟩
    · next hgt =>
      obtain ⟨hk, hle, hnewer⟩ := ih h
      refine ⟨by omega, hle, fun i hi hm => ?_⟩
      rcases Nat.lt_succ_iff_lt_or_eq.mp hm with hlt | rfl
      · exact hnewer i hi hlt
      · exact not_le.mp hgt

theorem searchFrom_none {r : SampleRing} {m : Nat} (h : r.searchFrom renderTime m = none) :
    ∀ i, i < m → renderTime < (r.slots ((r.head + i) % ringCap)).t := by
  induction m with
  | zero => simp
  | succ m ih =>
    unfold searchFrom at h
    split at h
    · cases h
    · next hgt =>
      intro i hi
      rcases Nat.lt_succ_iff_lt_or_eq.mp hi with hlt | rfl
      · exact ih h i hlt
      · exact not_le.mp hgt

theorem straddle_spec {r : SampleRing}
    (hnewest : renderTime < (r.slots ((r.head + r.len - 1) % ringCap)).t)
    (holdest : (r.slots (r.head % ringCap)).t < renderTime) (hne : r.len ≠ 0) :
    ∃ k, k + 1 < r.len ∧
      r.straddle renderTime = ((r.head + k) % ringCap, (r.head + (k + 1)) % ringCap) ∧
      (r.slots ((r.head + k) % ringCap)).t ≤ renderTime ∧
      renderTime < (r.slots ((r.head + (k + 1)) % ringCap)).t := by
  have htwo : 1 < r.len := by
    by_contra hone
    have hlen1 : r.len = 1 := by omega
    rw [hlen1, Nat.add_sub_cancel] at hnewest
    linarith
  cases hs : r.searchFrom renderTime (r.len - 1) with
  | none =>
    have := searchFrom_none hs 0 (by omega)
    rw [Nat.add_zero] at this
    linarith
  | some k =>
    obtain ⟨hk, hle, hnewer⟩ := searchFrom_some hs
    refine ⟨k, by omega, by simp [straddle, hs, Nat.add_assoc], hle, ?_⟩
    rcases Nat.lt_or_ge (k + 1) (r.len - 1) with hlt | hge
    · exact hnewer (k + 1) (by omega) hlt
    · have hring : r.head + (k + 1) = r.head + r.len - 1 := by omega
      rwa [hring]

namespace Holds

variable {r : SampleRing} {history : List Sample}

theorem drawn_interpolate (h : Holds r history) (bounds : SampleBounds)
    (hnewest : renderTime < (r.slots ((r.head + r.len - 1) % ringCap)).t)
    (holdest : (r.slots (r.head % ringCap)).t < renderTime) (hne : r.len ≠ 0) :
    Drawn history bounds renderTime (some (r.interpolate renderTime bounds).2) := by
  obtain ⟨k, hk, hstraddle, hlow, hhigh⟩ := straddle_spec hnewest holdest hne
  have hp := h.slot (k := k) (by omega)
  have hs := h.slot hk
  have hjump := h.isJump_iff bounds (r.slots ((r.head + k) % ringCap))
    (r.slots ((r.head + (k + 1)) % ringCap)) hk
  rw [← Nat.add_assoc (oldest history)] at hs hjump
  simp only [interpolate, hstraddle]
  generalize r.slots ((r.head + k) % ringCap) = p at *
  generalize r.slots ((r.head + (k + 1)) % ringCap) = s at *
  have hspan : 0 < s.t - p.t := by linarith
  have hresident : oldest history ≤ oldest history + k := Nat.le_add_right _ _
  split
  · next hsnap =>
    refine Drawn.snapped hresident hp hs hlow hhigh ?_
    rw [← hjump]
    exact hsnap.imp_right And.right
  · next hno =>
    rw [not_or] at hno
    refine Drawn.travelled _ hresident hp hs hlow hhigh (not_lt.mp hno.1)
      (fun hsnap => hno.2 ⟨hspan, hjump.mpr hsnap⟩) rfl ?_ ?_
    · exact div_nonneg (by linarith) hspan.le
    · rw [div_lt_one hspan]
      linarith

theorem drawn_extrapolate (h : Holds r history) (bounds : SampleBounds)
    (hnewest : (r.slots ((r.head + r.len - 1) % ringCap)).t ≤ renderTime) (hne : r.len ≠ 0) :
    Drawn history bounds renderTime (some (r.extrapolate renderTime bounds).2) := by
  obtain ⟨hcarried, hrest⟩ := h.velocity_spec bounds
  have hmin : ∀ d : ℚ, (if bounds.extrapolateMs < d then bounds.extrapolateMs else d) =
      min d bounds.extrapolateMs := by
    intro d
    by_cases hlt : bounds.extrapolateMs < d
    · rw [if_pos hlt, min_eq_right hlt.le]
    · rw [if_neg hlt, min_eq_left (not_lt.mp hlt)]
  simp only [extrapolate, hmin]
  exact Drawn.extrapolated (h.newest_slot hne) hnewest hcarried hrest

theorem drawn_sampleInto (h : Holds r history) (renderTime : ℚ) (bounds : SampleBounds) :
    Drawn history bounds renderTime (r.sampleInto renderTime bounds).2 := by
  have hlen := h.len
  have hhead : r.head % ringCap = r.head := by
    rw [h.head, Nat.mod_mod]
  unfold sampleInto
  by_cases hzero : r.len = 0
  · rw [if_pos hzero]
    refine Drawn.empty (List.eq_nil_of_length_eq_zero ?_)
    unfold ringCap at hlen
    omega
  rw [if_neg hzero]
  by_cases hnewest : (r.slots ((r.head + r.len - 1) % ringCap)).t ≤ renderTime
  · simp only [if_pos hnewest]
    exact h.drawn_extrapolate bounds hnewest hzero
  simp only [if_neg hnewest]
  by_cases hheld : renderTime ≤ (r.slots r.head).t
  · simp only [if_pos hheld]
    have hslot := h.slot (k := 0) (by omega)
    rw [Nat.add_zero, Nat.add_zero, hhead] at hslot
    exact Drawn.held hslot hheld
  · simp only [if_neg hheld]
    refine h.drawn_interpolate bounds (not_le.mp hnewest) ?_ hzero
    rw [hhead]
    exact not_le.mp hheld

end Holds

/-- Main result: after any pushes the ring holds the newest samples in order of
time, each verdict bit is the definition over everything that was pushed, and a
frame draws the entity on the pair around its time, at an end of it, or beyond
the newest sample within the cap; a buffer that is all ahead is held at its
oldest sample. -/
theorem ring_of_pushes (samples : List Sample) (renderTime : ℚ) (bounds : SampleBounds) :
    let r := pushAll samples
    let history := record samples
    List.Forall₂ (fun s kept => kept.x = s.x ∧ kept.y = s.y ∧ s.t ≤ kept.t) samples history ∧
      history.Pairwise (fun a b => a.t ≤ b.t) ∧
      r.len = min history.length ringCap ∧
      (∀ k, k < r.len →
        history[oldest history + k]? = some (r.slots ((r.head + k) % ringCap)) ∧
          (marked r.spikes ((r.head + k) % ringCap) = true ↔
            Jump history (oldest history + k))) ∧
      Drawn history bounds renderTime (r.sampleInto renderTime bounds).2 := by
  intro r history
  have h : Holds r history := holds_pushAll samples
  have hlen := h.len
  refine ⟨record_kept samples, record_sorted samples, hlen, fun k hk => ⟨h.slot hk, ?_⟩,
    h.drawn_sampleInto renderTime bounds⟩
  rw [h.index]
  exact h.verdicts _ (by unfold oldest; omega) (by unfold oldest; omega)

/-- A jump as it would be judged across a pair without a speed: against the
nearest pairs with one, on either side. -/
def JumpAcross (history : List Sample) (j : Nat) : Prop :=
  ∃ i v b, i < j ∧ speed history j = some v ∧ speed history i = some b ∧
    (∀ m, i < m → m < j → speed history m = none) ∧ jumpFactorSq * b < v ∧
    ∀ k w, j < k → (∀ m, j < m → m < k → speed history m = none) →
      speed history k = some w → jumpFactorSq * w < v

def Straddled (history : List Sample) (renderTime : ℚ) : Prop :=
  ∃ k p s, history[k]? = some p ∧ history[k + 1]? = some s ∧
    p.t ≤ renderTime ∧ renderTime ≤ s.t

/-- Twice the same time, then a placement: the pair before it has no speed, and
no verdict is formed. -/
def restamped : List Sample := [⟨0, 0, 0⟩, ⟨1, 1, 0⟩, ⟨1, 1, 0⟩, ⟨2, 1001, 0⟩]

/-- A placement after two samples of one time is not a verdict, and a render time
before every sample is neither on a pair nor past the newest sample. -/
theorem restamped_and_held :
    (JumpAcross (record restamped) 3 ∧ 3 < (pushAll restamped).len ∧
      marked (pushAll restamped).spikes 3 = false) ∧
    (((pushAll [⟨10, 5, 5⟩]).sampleInto 0 ⟨100, 250, 0, true⟩).2 = some ⟨5, 5, .live⟩ ∧
      ¬Straddled (record [⟨10, 5, 5⟩]) 0 ∧
      ∀ n, (record [⟨10, 5, 5⟩]).getLast? = some n → (0 : ℚ) < n.t) := by
  refine ⟨⟨⟨1, 1000000, 1, by decide, by decide +kernel, by decide +kernel, ?_,
    by decide +kernel, ?_⟩, by decide +kernel, by decide +kernel⟩, by decide +kernel, ?_, ?_⟩
  · intro m hm hm'
    have : m = 2 := by omega
    subst this
    decide +kernel
  · intro k w hk _ hw
    have hnone : speed (record restamped) k = none := by
      refine speed_beyond (le_trans ?_ hk)
      decide +kernel
    rw [hnone] at hw
    cases hw
  · rintro ⟨k, p, s, -, hs, -, -⟩
    simp [record] at hs
  · intro n hn
    have : n = ⟨10, 5, 5⟩ := by simpa [record] using hn.symm
    subst this
    norm_num

end BunServe.Smooth.Interpolate
