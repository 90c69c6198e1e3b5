import BunServe.Lib.Ring
import BunServe.Upgrade
import Mathlib.Data.List.Induction

/-!
# BunServe.Upgrade.Runs

What holds of the admission controller over any order of admissions, releases of
slots that are held, drains and callbacks that call the controller again.

* `Flow.next` — the ring is a queue: what was deferred is what was called and
  what waits, in this order, and a turn calls no more than the budget allows.
* `Awake.next` — with a callback waiting a drain is scheduled, or running and
  about to schedule the next one.
* `Slots.next` — the counters are the slots held, within their limits.
* `upgrade_admission` — the three for every run, that every turn of the event
  loop gets to the callback waiting longest, and what `hasCapacity` answers.
-/

namespace BunServe.Upgrade

open List (prefix_rfl)
open State (ran)

variable {F : Type} {c : Config}

/-! ## the ring is a queue -/

/-- The ring has these entries, the first in first. -/
structure Holds (c : Config) (g : Gate F) (q : List (Entry F)) : Prop where
  depth : g.deferredDepth = q.length
  fits : q.length ≤ c.maxDeferred
  tail : g.deferredTail = (g.deferredHead + q.length) % c.maxDeferred
  head : 0 < c.maxDeferred → g.deferredHead < c.maxDeferred
  slot : ∀ i (hi : i < q.length), g.deferred ((g.deferredHead + i) % c.maxDeferred) = some q[i]

theorem advance_eq {i : Nat} (h : i < c.maxDeferred) : advance c i = (i + 1) % c.maxDeferred := by
  unfold advance
  split
  · next heq => rw [heq, Nat.mod_self]
  · next hne => rw [Nat.mod_eq_of_lt (by omega)]

theorem advance_lt {i : Nat} (h : i < c.maxDeferred) : advance c i < c.maxDeferred := by
  rw [advance_eq h]
  exact Nat.mod_lt _ (by omega)

variable {g : Gate F}

theorem Holds.enqueue {q : List (Entry F)} (h : Holds c g q)
    (hroom : q.length < c.maxDeferred) (entry : Entry F) :
    Holds c (enqueue c g entry) (q ++ [entry]) := by
  have hcap : 0 < c.maxDeferred := by omega
  have htail : g.deferredTail < c.maxDeferred := by
    rw [h.tail]
    exact Nat.mod_lt _ hcap
  refine { depth := ?_, fits := ?_, tail := ?_, head := h.head, slot := ?_ }
  · simp [Upgrade.enqueue, h.depth]
  · simp only [List.length_append, List.length_cons, List.length_nil]
    omega
  · show advance c g.deferredTail = (g.deferredHead + (q ++ [entry]).length) % c.maxDeferred
    rw [advance_eq htail, h.tail]
    simp [Nat.add_assoc]
  · intro i hi
    show (if (g.deferredHead + i) % c.maxDeferred = g.deferredTail then some entry
      else g.deferred ((g.deferredHead + i) % c.maxDeferred)) = _
    have hi' : i < q.length + 1 := by simpa using hi
    by_cases heq : i = q.length
    · subst heq
      simp [h.tail]
    · have hne : (g.deferredHead + i) % c.maxDeferred ≠ g.deferredTail := by
        rw [h.tail]
        intro hmod
        exact heq (Ring.mod_inj (by omega) hroom hmod)
      rw [if_neg hne, h.slot i (by omega), List.getElem_append_left]

theorem Holds.dequeue {e : Entry F} {q : List (Entry F)} (h : Holds c g (e :: q)) :
    (dequeue c g).1 = some e ∧ Holds c (dequeue c g).2 q := by
  have hfits := h.fits
  have hdepth := h.depth
  simp only [List.length_cons] at hfits hdepth
  have hhead := h.head (by omega)
  have hfirst := h.slot 0 (by simp)
  rw [Nat.add_zero, Nat.mod_eq_of_lt hhead] at hfirst
  refine ⟨hfirst, ?_⟩
  have hless : g.deferredDepth - 1 = q.length := by omega
  unfold Upgrade.dequeue
  rw [hless]
  by_cases hlast : q.length = 0
  · obtain rfl := List.eq_nil_of_length_eq_zero hlast
    refine { depth := rfl, fits := by simp, tail := ?_, head := fun hcap => ?_, slot := ?_ }
    · simp
    · exact hcap
    · simp
  · have hround : ∀ i, (advance c g.deferredHead + i) % c.maxDeferred =
        (g.deferredHead + (i + 1)) % c.maxDeferred := fun i => by
      rw [advance_eq hhead, Nat.mod_add_mod, Nat.add_assoc, Nat.add_comm 1 i]
    refine { depth := rfl, fits := by omega, tail := ?_, head := fun _ => ?_, slot := ?_ }
    · show (if q.length = 0 then 0 else g.deferredTail) =
        ((if q.length = 0 then 0 else advance c g.deferredHead) + q.length) % c.maxDeferred
      rw [if_neg hlast, if_neg hlast, hround, h.tail]
      rfl
    · show (if q.length = 0 then 0 else advance c g.deferredHead) < c.maxDeferred
      rw [if_neg hlast]
      exact advance_lt hhead
    · intro i hi
      show (if ((if q.length = 0 then 0 else advance c g.deferredHead) + i) % c.maxDeferred =
          g.deferredHead then none else
        g.deferred (((if q.length = 0 then 0 else advance c g.deferredHead) + i) %
          c.maxDeferred)) = _
      rw [if_neg hlast, hround]
      have hne : (g.deferredHead + (i + 1)) % c.maxDeferred ≠ g.deferredHead := by
        intro hmod
        have hzero : (g.deferredHead + (i + 1)) % c.maxDeferred =
            (g.deferredHead + 0) % c.maxDeferred := by
          rw [hmod, Nat.add_zero, Nat.mod_eq_of_lt hhead]
        have := Ring.mod_inj (by omega) (by omega) hzero
        omega
      rw [if_neg hne, h.slot (i + 1) (by simpa using hi)]
      rfl

/-! ## calls -/

def State.flow (s : State F) : Nat × (Nat → Option (Entry F)) × Nat × Nat × Nat × List F ×
    List (List (Call F)) × List (Call F) :=
  (s.gate.perTickCount, s.gate.deferred, s.gate.deferredHead, s.gate.deferredTail,
    s.gate.deferredDepth, s.deferrals, s.turns, s.turn)

/-- What the slots and permits have no part in. -/
def Gate.pacing (g : Gate F) : Nat × (Nat → Option (Entry F)) × Nat × Nat × Nat × Bool :=
  (g.perTickCount, g.deferred, g.deferredHead, g.deferredTail, g.deferredDepth, g.drainScheduled)

theorem tryAcquire_pacing (g : Gate F) : (tryAcquire c g).2.pacing = g.pacing := by
  unfold tryAcquire
  split <;> rfl

theorem tryAcquireConnection_pacing (g : Gate F) :
    (tryAcquireConnection c g).2.pacing = g.pacing := by
  unfold tryAcquireConnection
  split
  · rfl
  · split <;> rfl

theorem releaseConnection_pacing (g : Gate F) : (releaseConnection c g).2.pacing = g.pacing := by
  unfold releaseConnection
  split
  · rfl
  · split <;> rfl

theorem tryAcquireCursor_pacing (g : Gate F) : (tryAcquireCursor c g).2.pacing = g.pacing := by
  unfold tryAcquireCursor
  split
  · rfl
  · split <;> rfl

variable {s s' : State F}

theorem next_returns {now : Rat} (hn : next c s (.returns now) = some s') :
    (∃ fn frames, s.frames = .callback (.admitted fn) :: frames ∧ s' = { s with frames }) ∨
    (∃ fn frames, s.frames = .callback (.drained fn) :: frames ∧
      s' = drainLoop c { s with frames } now) ∨
    ∃ resume frames, s.frames = .observer resume :: frames ∧
      s' = proceed { s with frames } resume := by
  simp only [next] at hn
  split at hn
  · cases hn
  · next fn frames heq => exact .inl ⟨fn, frames, heq, (Option.some.inj hn).symm⟩
  · next fn frames heq => exact .inr (.inl ⟨fn, frames, heq, (Option.some.inj hn).symm⟩)
  · next resume frames heq =>
    exact .inr (.inr ⟨resume, frames, heq, (Option.some.inj hn).symm⟩)

theorem next_tick {now : Rat} (hn : next c s (.tick now) = some s') :
    s.frames = [] ∧ ∃ immediates, s.immediates = immediates + 1 ∧
      s' = drain c { s with immediates } now := by
  simp only [next] at hn
  split at hn
  · next immediates hf hi => exact ⟨hf, immediates, hi, (Option.some.inj hn).symm⟩
  · cases hn

/-- The counters of the slots and permits. -/
def State.slots (s : State F) : Int × Int × Nat × Nat × Nat :=
  (s.gate.inFlight, s.gate.cursorInFlight, s.gate.connectionPermits, s.main, s.cursor)

@[simp] theorem scheduleDrain_flow (s : State F) : (scheduleDrain s).flow = s.flow := by
  unfold scheduleDrain
  split <;> rfl

@[simp] theorem scheduleDrain_slots (s : State F) : (scheduleDrain s).slots = s.slots := by
  unfold scheduleDrain
  split <;> rfl

@[simp] theorem proceed_flow (s : State F) (r : Resume) : (proceed s r).flow = s.flow := by
  unfold proceed
  split
  · rfl
  · exact scheduleDrain_flow s
  · split
    · exact scheduleDrain_flow s
    · rfl
  · rfl

@[simp] theorem proceed_slots (s : State F) (r : Resume) : (proceed s r).slots = s.slots := by
  unfold proceed
  split
  · rfl
  · exact scheduleDrain_slots s
  · split
    · exact scheduleDrain_slots s
    · rfl
  · rfl

@[simp] theorem notify_flow (s : State F) (now : Rat) (r : Resume) :
    (notifyDeferredObserver s now r).flow = s.flow := by
  unfold notifyDeferredObserver
  split
  · rfl
  · exact proceed_flow s r

@[simp] theorem notify_slots (s : State F) (now : Rat) (r : Resume) :
    (notifyDeferredObserver s now r).slots = s.slots := by
  unfold notifyDeferredObserver
  split
  · rfl
  · exact proceed_slots s r

@[simp] theorem drainLoop_slots (s : State F) (now : Rat) :
    (drainLoop c s now).slots = s.slots := by
  unfold drainLoop
  split
  · rfl
  · exact notify_slots s now _

@[simp] theorem drain_slots (s : State F) (now : Rat) : (drain c s now).slots = s.slots :=
  drainLoop_slots _ now

@[simp] theorem admit_slots (s : State F) (fn : F) (enqueuedAt now : Rat) :
    (admitUpgrade c s fn enqueuedAt now).1.slots = s.slots := by
  unfold admitUpgrade
  split
  · rfl
  · split
    · exact scheduleDrain_slots
        { s with gate := { s.gate with perTickCount := s.gate.perTickCount + 1 } }
    · split <;> exact notify_slots _ now _

/-! ## slots and permits -/

/-- The counters are the slots held, within their limits. -/
structure Slots (c : Config) (s : State F) : Prop where
  inFlight : s.gate.inFlight = s.main + s.cursor
  cursorInFlight : s.gate.cursorInFlight = s.cursor
  main_le : 0 < c.maxConcurrent → s.main + s.cursor ≤ c.maxConcurrent
  cursor_le : s.cursor ≤ c.cursorMaxConcurrent
  permits_le : 0 < c.maxConnections → s.gate.connectionPermits ≤ c.maxConnections

theorem Slots.of_eq (h : Slots c s) (he : s'.slots = s.slots) : Slots c s' := by
  simp only [State.slots, Prod.mk.injEq] at he
  obtain ⟨h1, h2, h3, h4, h5⟩ := he
  exact { inFlight := by rw [h1, h4, h5, h.inFlight],
          cursorInFlight := by rw [h2, h5, h.cursorInFlight],
          main_le := by rw [h4, h5]; exact h.main_le, cursor_le := by rw [h5]; exact h.cursor_le,
          permits_le := by rw [h3]; exact h.permits_le }

theorem Slots.room (h : Slots c s) (hroom : ¬ atCeiling c s.gate = true)
    (hpos : 0 < c.maxConcurrent) : s.main + s.cursor + 1 ≤ c.maxConcurrent := by
  have := h.inFlight
  simp [atCeiling] at hroom
  omega

theorem Slots.tryAcquire (h : Slots c s) :
    Slots c { s with
      gate := (tryAcquire c s.gate).2
      main := s.main + taken (tryAcquire c s.gate).1 } := by
  unfold Upgrade.tryAcquire
  split
  · exact { h with }
  rename_i hroom
  have := h.inFlight
  refine { inFlight := ?_, cursorInFlight := h.cursorInFlight, main_le := fun hpos => ?_,
           cursor_le := h.cursor_le, permits_le := h.permits_le }
  · simp [taken]
    omega
  · have := h.room hroom hpos
    simp [taken]
    omega

theorem Slots.tryAcquireCursor (h : Slots c s) :
    Slots c { s with
      gate := (tryAcquireCursor c s.gate).2
      cursor := s.cursor + taken (tryAcquireCursor c s.gate).1 } := by
  unfold Upgrade.tryAcquireCursor
  split
  · exact { h with }
  rename_i hroom
  split
  · exact { h with }
  have := h.inFlight
  have := h.cursorInFlight
  refine { inFlight := ?_, cursorInFlight := ?_, main_le := fun hpos => ?_, cursor_le := ?_,
           permits_le := h.permits_le }
  · simp [taken]
    omega
  · simp [taken]
    omega
  · have := h.room hroom hpos
    simp [taken]
    omega
  · simp [taken]
    omega

theorem Slots.tryAcquireConnection (h : Slots c s) :
    Slots c { s with gate := (tryAcquireConnection c s.gate).2 } := by
  unfold Upgrade.tryAcquireConnection
  split
  · exact { h with }
  · split
    · exact { h with }
    · next hroom => exact { h with permits_le := fun _ => by simp; omega }

theorem Slots.releaseConnection (h : Slots c s) :
    Slots c { s with gate := (releaseConnection c s.gate).2 } := by
  unfold Upgrade.releaseConnection
  split
  · exact { h with }
  · split
    · exact { h with }
    · exact { h with
        permits_le := fun hpos => Nat.le_trans (Nat.sub_le _ 1) (h.permits_le hpos) }

variable {a : Action F}

theorem Slots.next (h : Slots c s) (hm : Matched s a) (hn : next c s a = some s') : Slots c s' := by
  cases a with
  | tryAcquire =>
    cases hn
    exact h.tryAcquire
  | release =>
    cases hn
    have hm : 0 < s.main := hm
    have := h.inFlight
    have := h.main_le
    refine { inFlight := ?_, cursorInFlight := h.cursorInFlight, main_le := fun hpos => ?_,
             cursor_le := h.cursor_le, permits_le := h.permits_le }
    · show s.gate.inFlight - 1 = ((s.main - 1 : Nat) : Int) + s.cursor
      omega
    · show s.main - 1 + s.cursor ≤ c.maxConcurrent
      omega
  | tryAcquireConnection =>
    cases hn
    exact h.tryAcquireConnection
  | releaseConnection =>
    cases hn
    exact h.releaseConnection
  | tryAcquireCursor =>
    cases hn
    exact h.tryAcquireCursor
  | releaseCursorInFlight =>
    cases hn
    have hm : 0 < s.cursor := hm
    have := h.inFlight
    have := h.cursorInFlight
    have := h.main_le
    have := h.cursor_le
    refine { inFlight := ?_, cursorInFlight := ?_, main_le := fun hpos => ?_, cursor_le := ?_,
             permits_le := h.permits_le }
    · show s.gate.inFlight - 1 = s.main + ((s.cursor - 1 : Nat) : Int)
      omega
    · show s.gate.cursorInFlight - 1 = ((s.cursor - 1 : Nat) : Int)
      omega
    · show s.main + (s.cursor - 1) ≤ c.maxConcurrent
      omega
    · show s.cursor - 1 ≤ c.cursorMaxConcurrent
      omega
  | setDeferredObserver on now =>
    cases hn
    exact h.of_eq (notify_slots _ now _)
  | admitUpgrade fn enqueuedAt now =>
    cases hn
    exact h.of_eq (admit_slots s fn enqueuedAt now)
  | returns now =>
    obtain ⟨fn, frames, -, rfl⟩ | ⟨fn, frames, -, rfl⟩ | ⟨resume, frames, -, rfl⟩ :=
      next_returns hn
    · exact h.of_eq rfl
    · exact h.of_eq (drainLoop_slots _ now)
    · exact h.of_eq (proceed_slots _ _)
  | tick now =>
    obtain ⟨-, immediates, -, rfl⟩ := next_tick hn
    exact h.of_eq (drain_slots _ now)

/-! ## the callbacks -/

@[simp] theorem ran_admitted (s : State F) (fn : F) : (s.call (.admitted fn)).ran = s.ran := by
  simp [ran, State.call, Call.drained?]

@[simp] theorem ran_drained (s : State F) (fn : F) :
    (s.call (.drained (some fn))).ran = s.ran ++ [fn] := by
  simp [ran, State.call, Call.drained?]

theorem call_flow {t : State F} (h : s.flow = t.flow) {call : Call F} :
    (s.call call).flow = (t.call call).flow := by
  simp only [State.flow, Prod.mk.injEq] at h
  simp [State.flow, State.call, h]

/-- The ring is a queue of the deferred callbacks not called yet, and a turn
calls no more than the budget. -/
structure Flow (c : Config) (s : State F) : Prop where
  queue : ∃ q, Holds c s.gate q ∧ s.deferrals = s.ran ++ q.map Entry.fn
  off : c.perTickBudget = 0 → s.deferrals = []
  count : 0 < c.perTickBudget → s.turn.length = s.gate.perTickCount
  count_le : s.gate.perTickCount ≤ c.perTickBudget
  turns : 0 < c.perTickBudget → ∀ t ∈ s.turns, t.length ≤ c.perTickBudget

theorem Flow.paced (h : Flow c s) (hw : 0 < s.gate.deferredDepth) : 0 < c.perTickBudget := by
  obtain ⟨q, hq, heq⟩ := h.queue
  refine Nat.pos_of_ne_zero fun hoff => ?_
  have hnone := h.off hoff
  have hdepth := hq.depth
  simp [heq] at hnone
  simp [hnone.2] at hdepth
  omega

theorem Flow.of_eq (h : Flow c s) (he : s'.flow = s.flow) : Flow c s' := by
  simp only [State.flow, Prod.mk.injEq] at he
  obtain ⟨hcount, hslots, hhead, htail, hdepth, hdeferrals, hturns, hturn⟩ := he
  obtain ⟨q, hq, heq⟩ := h.queue
  have hran : s'.ran = s.ran := by rw [ran, ran, hturns, hturn]
  refine { queue := ⟨q, ?_, by rw [hran, hdeferrals, heq]⟩,
           off := by rw [hdeferrals]; exact h.off,
           count := by rw [hturn, hcount]; exact h.count,
           count_le := by rw [hcount]; exact h.count_le,
           turns := by rw [hturns]; exact h.turns }
  exact { depth := by rw [hdepth, hq.depth], fits := hq.fits, tail := by rw [htail, hhead, hq.tail],
          head := by rw [hhead]; exact hq.head, slot := by rw [hslots, hhead]; exact hq.slot }

theorem Flow.drainLoop (h : Flow c s) (now : Rat) : Flow c (drainLoop c s now) := by
  unfold Upgrade.drainLoop
  split
  · next hmore =>
    obtain ⟨q, hq, heq⟩ := h.queue
    have hdepth := hq.depth
    cases q with
    | nil =>
      simp only [List.length_nil] at hdepth
      omega
    | cons e q =>
      obtain ⟨hfirst, hrest⟩ := hq.dequeue
      have hcount := h.count (by omega)
      simp only [hfirst, Option.map_some]
      refine { queue := ⟨q, { hrest with }, ?_⟩, off := h.off, count := fun _ => ?_,
               count_le := ?_, turns := h.turns }
      · rw [ran_drained]
        simpa [ran, State.call] using heq
      · simp [State.call, dequeue, hcount]
      · simp only [State.call, dequeue]
        omega
  · exact h.of_eq (notify_flow s now _)

theorem Flow.drain (h : Flow c s) (now : Rat) : Flow c (drain c s now) := by
  obtain ⟨q, hq, heq⟩ := h.queue
  have hbegun : Flow c { s with
      gate := { s.gate with drainScheduled := false, perTickCount := 0 }
      turns := s.turns ++ [s.turn]
      turn := [] } := by
    refine { queue := ⟨q, { hq with }, ?_⟩, off := h.off, count := fun _ => rfl,
             count_le := Nat.zero_le _, turns := fun hpos => ?_ }
    · simpa [ran] using heq
    · intro t ht
      rcases List.mem_append.mp ht with ht | ht
      · exact h.turns hpos t ht
      · obtain rfl := List.mem_singleton.mp ht
        rw [h.count hpos]
        exact h.count_le
  exact hbegun.drainLoop now

theorem Flow.admitUpgrade (h : Flow c s) (fn : F) (enqueuedAt now : Rat) :
    Flow c (admitUpgrade c s fn enqueuedAt now).1 := by
  obtain ⟨q, hq, heq⟩ := h.queue
  unfold Upgrade.admitUpgrade
  split
  · next hoff =>
    exact { queue := ⟨q, hq, by rw [ran_admitted]; exact heq⟩, off := h.off,
            count := fun _ => by omega, count_le := h.count_le, turns := h.turns }
  · next hon =>
    split
    · next hbudget =>
      have hcounted : Flow c ({ s with
          gate := { s.gate with perTickCount := s.gate.perTickCount + 1 } }.call
            (.admitted fn)) := by
        refine { queue := ⟨q, { hq with }, by rw [ran_admitted]; exact heq⟩, off := h.off,
                 count := fun hpos => ?_, count_le := hbudget, turns := h.turns }
        simp [State.call, h.count hpos]
      exact hcounted.of_eq (call_flow (scheduleDrain_flow _))
    · split
      · exact h.of_eq (notify_flow _ now _)
      · next hfull =>
        have hdepth := hq.depth
        refine Flow.of_eq ?_ (notify_flow _ now _)
        exact { queue := ⟨q ++ [_], hq.enqueue (by omega) _, by simp [heq, ran]⟩,
                off := fun hoff => absurd hoff hon, count := h.count, count_le := h.count_le,
                turns := h.turns }

theorem Flow.of_gate (h : Flow c s) (hg : g.pacing = s.gate.pacing)
    (main cursor : Nat) : Flow c { s with gate := g, main, cursor } := by
  simp only [Gate.pacing, Prod.mk.injEq] at hg
  exact h.of_eq (by simp [State.flow, hg])

theorem Flow.next (h : Flow c s) (hn : next c s a = some s') : Flow c s' := by
  cases a with
  | tryAcquire =>
    cases hn
    exact h.of_gate (tryAcquire_pacing _) _ _
  | release | releaseCursorInFlight =>
    cases hn
    exact h.of_eq rfl
  | tryAcquireConnection =>
    cases hn
    exact h.of_gate (tryAcquireConnection_pacing _) _ _
  | releaseConnection =>
    cases hn
    exact h.of_gate (releaseConnection_pacing _) _ _
  | tryAcquireCursor =>
    cases hn
    exact h.of_gate (tryAcquireCursor_pacing _) _ _
  | setDeferredObserver on now =>
    cases hn
    exact h.of_eq (notify_flow _ now _)
  | admitUpgrade fn enqueuedAt now =>
    cases hn
    exact h.admitUpgrade fn enqueuedAt now
  | returns now =>
    obtain ⟨fn, frames, -, rfl⟩ | ⟨fn, frames, -, rfl⟩ | ⟨resume, frames, -, rfl⟩ :=
      next_returns hn
    · exact h.of_eq rfl
    · have hpopped : Flow c { s with frames } := h.of_eq rfl
      exact hpopped.drainLoop now
    · exact h.of_eq (proceed_flow _ _)
  | tick now =>
    obtain ⟨-, immediates, -, rfl⟩ := next_tick hn
    have htaken : Flow c { s with immediates } := h.of_eq rfl
    exact htaken.drain now

/-! ## the drains -/

/-- A call after which a drain is scheduled if there is need of one. -/
def Frame.wakes : Frame F → Bool
  | .callback (.drained _) => true
  | .observer .deferred => true
  | .observer .drained => true
  | _ => false

/-- The event loop was asked for a drain exactly when the flag says so. -/
def Asked (s : State F) : Prop := s.immediates = if s.gate.drainScheduled then 1 else 0

/-- With a callback waiting, or the budget touched, a drain is scheduled or about
to be. -/
structure Awake (s : State F) : Prop where
  asked : Asked s
  wakes : 0 < s.gate.deferredDepth ∨ 0 < s.gate.perTickCount →
    s.gate.drainScheduled = true ∨ ∃ f ∈ s.frames, f.wakes = true

theorem Awake.scheduleDrain (h : Asked s) : Awake (scheduleDrain s) := by
  unfold Upgrade.scheduleDrain
  split
  · next hon => exact { asked := h, wakes := fun _ => .inl hon }
  · next hoff =>
    refine { asked := ?_, wakes := fun _ => .inl rfl }
    simp only [Asked, if_neg hoff] at h
    simp [Asked, h]

theorem Awake.notify (h : Asked s) (now : Rat) {r : Resume}
    (hr : (Frame.observer r : Frame F).wakes = true) (hp : Awake (proceed s r)) :
    Awake (notifyDeferredObserver s now r) := by
  unfold notifyDeferredObserver
  split
  · exact { asked := h, wakes := fun _ => .inr ⟨_, List.mem_cons_self, hr⟩ }
  · exact hp

theorem Awake.notify_idle (h : Awake s) (now : Rat) {r : Resume}
    (hp : proceed s r = s) : Awake (notifyDeferredObserver s now r) := by
  unfold notifyDeferredObserver
  split
  · refine { asked := h.asked, wakes := fun hneed => (h.wakes hneed).imp id ?_ }
    rintro ⟨f, hf, hw⟩
    exact ⟨f, List.mem_cons_of_mem _ hf, hw⟩
  · rw [hp]
    exact h

theorem Awake.proceed_drained (h : Asked s) : Awake (proceed s .drained) := by
  simp only [proceed]
  split
  · exact Awake.scheduleDrain h
  · next hidle => exact { asked := h, wakes := fun hneed => absurd hneed hidle }

theorem Awake.drainLoop (h : Asked s) (now : Rat) : Awake (drainLoop c s now) := by
  unfold Upgrade.drainLoop
  split
  · exact { asked := h, wakes := fun _ => .inr ⟨_, List.mem_cons_self, rfl⟩ }
  · exact Awake.notify h now rfl (Awake.proceed_drained h)

theorem Awake.drain {immediates : Nat} (h : Asked s)
    (hi : s.immediates = immediates + 1) (now : Rat) :
    Awake (drain c { s with immediates } now) := by
  have htaken : immediates = 0 := by
    simp only [Asked] at h
    split at h <;> omega
  have hbegun : Asked ({ s with
      gate := { s.gate with drainScheduled := false, perTickCount := 0 }
      immediates
      turns := s.turns ++ [s.turn]
      turn := [] } : State F) := htaken
  exact Awake.drainLoop hbegun now

theorem Awake.admitUpgrade (h : Awake s) (fn : F) (enqueuedAt now : Rat) :
    Awake (admitUpgrade c s fn enqueuedAt now).1 := by
  unfold Upgrade.admitUpgrade
  split
  · refine { asked := h.asked, wakes := fun hneed => (h.wakes hneed).imp id ?_ }
    rintro ⟨f, hf, hw⟩
    exact ⟨f, List.mem_cons_of_mem _ hf, hw⟩
  · split
    · have hscheduled : Awake (Upgrade.scheduleDrain
          { s with gate := { s.gate with perTickCount := s.gate.perTickCount + 1 } }) :=
        Awake.scheduleDrain h.asked
      refine { asked := hscheduled.asked, wakes := fun hneed => (hscheduled.wakes hneed).imp id ?_ }
      rintro ⟨f, hf, hw⟩
      exact ⟨f, List.mem_cons_of_mem _ hf, hw⟩
    · split
      · have hrefused : Awake { s with
            gate := { s.gate with deferredRejectedTotal := s.gate.deferredRejectedTotal + 1 } } :=
          { asked := h.asked, wakes := h.wakes }
        exact hrefused.notify_idle now rfl
      · have hdeferred : Asked ({ s with
            gate := enqueue c s.gate { fn, enqueuedAt }
            deferrals := s.deferrals ++ [fn] } : State F) := h.asked
        exact Awake.notify hdeferred now rfl (Awake.scheduleDrain hdeferred)

theorem Awake.of_gate (h : Awake s) (hg : g.pacing = s.gate.pacing)
    (main cursor : Nat) : Awake { s with gate := g, main, cursor } := by
  simp only [Gate.pacing, Prod.mk.injEq] at hg
  refine { asked := ?_, wakes := ?_ }
  · simpa [Asked, hg] using h.asked
  · simpa [hg] using h.wakes

theorem Awake.next (h : Awake s) (hn : next c s a = some s') : Awake s' := by
  cases a with
  | tryAcquire =>
    cases hn
    exact h.of_gate (tryAcquire_pacing _) _ _
  | release =>
    cases hn
    exact h.of_gate (g := release s.gate) rfl _ _
  | tryAcquireConnection =>
    cases hn
    exact h.of_gate (tryAcquireConnection_pacing _) _ _
  | releaseConnection =>
    cases hn
    exact h.of_gate (releaseConnection_pacing _) _ _
  | tryAcquireCursor =>
    cases hn
    exact h.of_gate (tryAcquireCursor_pacing _) _ _
  | releaseCursorInFlight =>
    cases hn
    exact h.of_gate (g := releaseCursorInFlight s.gate) rfl _ _
  | setDeferredObserver on now =>
    cases hn
    have hset : Awake { s with gate := { s.gate with deferredObserver := on } } :=
      { asked := h.asked, wakes := h.wakes }
    exact hset.notify_idle now rfl
  | admitUpgrade fn enqueuedAt now =>
    cases hn
    exact h.admitUpgrade fn enqueuedAt now
  | returns now =>
    obtain ⟨fn, frames, hf, rfl⟩ | ⟨fn, frames, -, rfl⟩ | ⟨resume, frames, hf, rfl⟩ :=
      next_returns hn
    · refine { asked := h.asked, wakes := fun hneed => (h.wakes hneed).imp id ?_ }
      rintro ⟨f, hmem, hw⟩
      rw [hf] at hmem
      rcases List.mem_cons.mp hmem with rfl | hmem
      · cases hw
      · exact ⟨f, hmem, hw⟩
    · exact Awake.drainLoop (s := { s with frames }) h.asked now
    · cases resume with
      | deferred => exact Awake.scheduleDrain h.asked
      | drained => exact Awake.proceed_drained h.asked
      | refused | installed =>
        refine { asked := h.asked, wakes := fun hneed => (h.wakes hneed).imp id ?_ }
        rintro ⟨f, hmem, hw⟩
        rw [hf] at hmem
        rcases List.mem_cons.mp hmem with rfl | hmem
        · cases hw
        · exact ⟨f, hmem, hw⟩
  | tick now =>
    obtain ⟨-, immediates, hi, rfl⟩ := next_tick hn
    exact Awake.drain h.asked hi now

/-! ## progress -/

theorem ran_of_flow (h : s'.flow = s.flow) : s'.ran = s.ran := by
  simp only [State.flow, Prod.mk.injEq] at h
  simp [ran, h]

theorem deferrals_of_flow (h : s'.flow = s.flow) : s'.deferrals = s.deferrals :=
  congrArg (fun f => f.2.2.2.2.2.1) h

theorem deferrals_call (s : State F) (call : Call F) : (s.call call).deferrals = s.deferrals := rfl

theorem deferrals_drainLoop (s : State F) (now : Rat) :
    (drainLoop c s now).deferrals = s.deferrals := by
  unfold drainLoop
  split
  · rfl
  · exact deferrals_of_flow (notify_flow s now _)

theorem deferrals_drain (s : State F) (now : Rat) : (drain c s now).deferrals = s.deferrals :=
  deferrals_drainLoop _ now

theorem ran_drainLoop (s : State F) (now : Rat) : s.ran <+: (drainLoop c s now).ran := by
  unfold drainLoop
  split
  · simp [ran, State.call]
  · exact (ran_of_flow (notify_flow s now _)).symm ▸ prefix_rfl

theorem ran_drain (s : State F) (now : Rat) : s.ran <+: (drain c s now).ran := by
  refine List.IsPrefix.trans ?_ (ran_drainLoop _ now)
  simp [ran]

theorem ran_tick (h : Flow c s) {immediates : Nat} (now : Rat)
    (hw : s.ran.length < s.deferrals.length) :
    s.ran.length < (drain c { s with immediates } now).ran.length := by
  obtain ⟨q, hq, heq⟩ := h.queue
  cases q with
  | nil => simp [heq] at hw
  | cons e q =>
    have hdepth : s.gate.deferredDepth = q.length + 1 := hq.depth
    have hbudget := h.paced (by omega)
    obtain ⟨hfirst, -⟩ := hq.dequeue
    have hcalled : s.gate.deferred s.gate.deferredHead = some e := hfirst
    unfold drain drainLoop
    rw [if_pos ⟨hbudget, by simp [hdepth]⟩]
    simp [dequeue, hcalled, ran, State.call, Call.drained?]

theorem next_grows (hn : next c s a = some s') :
    s.deferrals <+: s'.deferrals ∧ s.ran <+: s'.ran := by
  have hsame : ∀ {t : State F}, t.flow = s.flow →
      s.deferrals <+: t.deferrals ∧ s.ran <+: t.ran := fun ht => by
      rw [ran_of_flow ht, deferrals_of_flow ht]
      exact ⟨prefix_rfl, prefix_rfl⟩
  cases a with
  | tryAcquire | release | tryAcquireConnection | releaseConnection | tryAcquireCursor
  | releaseCursorInFlight =>
    cases hn
    exact ⟨prefix_rfl, prefix_rfl⟩
  | setDeferredObserver on now =>
    cases hn
    exact hsame (notify_flow _ now _)
  | admitUpgrade fn enqueuedAt now =>
    cases hn
    simp only [admitUpgrade]
    split
    · exact ⟨prefix_rfl, (ran_admitted ..).symm ▸ prefix_rfl⟩
    split
    · rw [ran_admitted]
      have hs := scheduleDrain_flow
        { s with gate := { s.gate with perTickCount := s.gate.perTickCount + 1 } }
      rw [ran_of_flow hs, deferrals_call, deferrals_of_flow hs]
      exact ⟨prefix_rfl, prefix_rfl⟩
    · split
      · exact hsame (notify_flow _ now _)
      · have hs := notify_flow { s with
          gate := enqueue c s.gate { fn, enqueuedAt }
          deferrals := s.deferrals ++ [fn] } now .deferred
        rw [ran_of_flow hs, deferrals_of_flow hs]
        exact ⟨List.prefix_append _ _, prefix_rfl⟩
  | returns now =>
    obtain ⟨fn, frames, -, rfl⟩ | ⟨fn, frames, -, rfl⟩ | ⟨resume, frames, -, rfl⟩ :=
      next_returns hn
    · exact ⟨prefix_rfl, prefix_rfl⟩
    · rw [deferrals_drainLoop]
      exact ⟨prefix_rfl, ran_drainLoop { s with frames } now⟩
    · exact hsame (proceed_flow _ _)
  | tick now =>
    obtain ⟨-, immediates, -, rfl⟩ := next_tick hn
    rw [deferrals_drain]
    exact ⟨prefix_rfl, ran_drain { s with immediates } now⟩

variable {as : List (Action F)}

theorem ran_ticks {bs : List (Action F)} (h : (machine F c).Runs Matched as s)
    (hf : ∀ {bs s'}, (machine F c).Runs Matched bs s' → Flow c s')
    (h' : (machine F c).Runs Matched (as ++ bs) s') :
    s.deferrals <+: s'.deferrals ∧ s.ran <+: s'.ran ∧
      min s.deferrals.length (s.ran.length + ticks bs) ≤ s'.ran.length := by
  induction bs using List.reverseRecOn generalizing s' with
  | nil =>
    rw [List.append_nil] at h'
    obtain rfl := h.unique h'
    exact ⟨prefix_rfl, prefix_rfl, by simp [ticks]⟩
  | append_singleton bs b ih =>
    rw [← List.append_assoc] at h'
    obtain ⟨t, ht, -, hn⟩ := h'.unsnoc
    obtain ⟨hd, hr, hfar⟩ := ih ht
    obtain ⟨hd', hr'⟩ := next_grows hn
    refine ⟨hd.trans hd', hr.trans hr', ?_⟩
    have hd := hd.length_le
    have hr' := hr'.length_le
    cases b with
    | tick now =>
      obtain ⟨-, immediates, -, rfl⟩ := next_tick hn
      have hstep := @ran_tick _ _ _ (hf ht) immediates now
      have hone : ticks (bs ++ [.tick now]) = ticks bs + 1 := by simp [ticks]
      omega
    | tryAcquire | release | tryAcquireConnection | releaseConnection | tryAcquireCursor
    | releaseCursorInFlight | setDeferredObserver | admitUpgrade | returns =>
      simp only [ticks, List.countP_append, List.countP_singleton] at hfar ⊢
      simp only [Bool.false_eq_true, if_false]
      omega

/-! ## capacity -/

/-- Whether a slot of a lane, a connection permit and an admission, taken one
after another, would all be had. -/
def admitsNow (acquire : Config → Gate F → Bool × Gate F) (c : Config) (s : State F) (fn : F)
    (enqueuedAt now : Rat) : Bool :=
  let (slot, gate) := acquire c s.gate
  let (permit, gate) := tryAcquireConnection c gate
  slot && permit && (admitUpgrade c { s with gate } fn enqueuedAt now).2.isSome

theorem admit_isSome (s : State F) (fn : F) (enqueuedAt now : Rat) :
    (admitUpgrade c s fn enqueuedAt now).2.isSome =
      !(decide (0 < c.perTickBudget) && decide (s.gate.perTickCount ≥ c.perTickBudget) &&
        decide (s.gate.deferredDepth ≥ c.maxDeferred)) := by
  unfold admitUpgrade
  split
  · next hoff => simp [hoff]
  split
  · next hbudget =>
    have : ¬ s.gate.perTickCount ≥ c.perTickBudget := by omega
    simp [this]
  · next hspent =>
    have hon : 0 < c.perTickBudget := by omega
    have hspent : c.perTickBudget ≤ s.gate.perTickCount := by omega
    split
    · next hfull => simp [hon, hspent, hfull]
    · next hroom => simp [hroom]

/-- `hasCapacity` answers what the three acquisitions would. -/
theorem hasCapacity_eq (s : State F) (fn : F) (enqueuedAt now : Rat) :
    hasCapacity c s.gate = admitsNow tryAcquire c s fn enqueuedAt now := by
  unfold hasCapacity admitsNow tryAcquire tryAcquireConnection
  by_cases hceiling : atCeiling c s.gate
  · simp [hceiling]
  · by_cases hoff : c.maxConnections = 0
    · simp [hceiling, hoff, admit_isSome]
    · by_cases hfull : s.gate.connectionPermits ≥ c.maxConnections
      · simp [hceiling, hoff, hfull]
      · simp [hceiling, hoff, hfull, admit_isSome]

/-! ## every run -/

theorem Flow.turn_le (h : Flow c s) {t : List (Call F)} (ht : t ∈ s.turns ++ [s.turn]) :
    (t.filterMap Call.drained?).length ≤ c.perTickBudget ∧
      (0 < c.perTickBudget → t.length ≤ c.perTickBudget) := by
  have hlength : 0 < c.perTickBudget → t.length ≤ c.perTickBudget := fun hpos => by
    rcases List.mem_append.mp ht with ht | ht
    · exact h.turns hpos t ht
    · obtain rfl := List.mem_singleton.mp ht
      rw [h.count hpos]
      exact h.count_le
  refine ⟨?_, hlength⟩
  rcases Nat.eq_zero_or_pos c.perTickBudget with hoff | hpos
  · obtain ⟨q, -, heq⟩ := h.queue
    rw [h.off hoff] at heq
    have hran : ((s.turns ++ [s.turn]).flatten).filterMap Call.drained? = [] := by
      simpa [ran] using (List.append_eq_nil_iff.mp heq.symm).1
    have hnone : t.filterMap Call.drained? = [] := by
      rw [List.filterMap_eq_nil_iff] at hran ⊢
      exact fun call hcall => hran call (List.mem_flatten_of_mem ht hcall)
    simp [hnone]
  · exact Nat.le_trans (List.length_filterMap_le _ _) (hlength hpos)

theorem flow_of_runs (h : (machine F c).Runs Matched as s) : Flow c s := by
  refine h.invariant ?_ fun s a s' hf _ hn => hf.next hn
  exact { queue := ⟨[], { depth := rfl, fits := Nat.zero_le _, tail := by simp [machine,
            createUpgradeAdmission], head := fun hcap => hcap, slot := by simp }, rfl⟩,
          off := fun _ => rfl, count := fun _ => rfl, count_le := Nat.zero_le _,
          turns := fun _ t ht => by cases ht }

theorem slots_of_runs (h : (machine F c).Runs Matched as s) : Slots c s := by
  refine h.invariant ?_ fun s a s' hi hm hn => hi.next hm hn
  exact { inFlight := rfl, cursorInFlight := rfl, main_le := fun _ => Nat.zero_le _,
          cursor_le := Nat.zero_le _, permits_le := fun _ => Nat.zero_le _ }

theorem awake_of_runs (h : (machine F c).Runs Matched as s) : Awake s := by
  refine h.invariant ?_ fun s a s' hi _ hn => hi.next hn
  exact { asked := rfl, wakes := fun hneed => by simp [machine, createUpgradeAdmission] at hneed }

/-- However admissions, releases, drains and callbacks interleave, the deferred
callbacks are called in the order of their admission, once each and as fast as
the event loop turns, within the budget of a turn and the bound of the ring; a
drain is to come while one waits; the counters keep to their limits; and
`hasCapacity` answers for a main slot, a permit and an admission. -/
theorem upgrade_admission {as : List (Action F)} {s : State F}
    (h : (machine F c).Runs Matched as s) :
    (∃ waiting, s.deferrals = s.ran ++ waiting ∧ waiting.length = s.gate.deferredDepth) ∧
    (∀ bs s', (machine F c).Runs Matched (as ++ bs) s' →
      s.deferrals <+: s'.deferrals ∧ s.ran <+: s'.ran ∧
      min s.deferrals.length (s.ran.length + ticks bs) ≤ s'.ran.length) ∧
    (∀ t ∈ s.turns ++ [s.turn], (t.filterMap Call.drained?).length ≤ c.perTickBudget ∧
      (0 < c.perTickBudget → t.length ≤ c.perTickBudget)) ∧
    s.gate.deferredDepth ≤ c.maxDeferred ∧
    (s.immediates = if s.gate.drainScheduled then 1 else 0) ∧
    (0 < s.gate.deferredDepth →
      s.gate.drainScheduled = true ∨ ∃ f ∈ s.frames, f.wakes = true) ∧
    (s.gate.cursorInFlight ≤ s.gate.inFlight ∧
      (0 < c.maxConcurrent → s.gate.inFlight ≤ c.maxConcurrent) ∧
      s.gate.cursorInFlight ≤ c.cursorMaxConcurrent ∧
      (0 < c.maxConnections → s.gate.connectionPermits ≤ c.maxConnections)) ∧
    ∀ fn enqueuedAt now, hasCapacity c s.gate = admitsNow tryAcquire c s fn enqueuedAt now := by
  have hflow := flow_of_runs h
  have hslots := slots_of_runs h
  have hawake := awake_of_runs h
  obtain ⟨q, hq, heq⟩ := hflow.queue
  have hinFlight := hslots.inFlight
  have hcursor := hslots.cursorInFlight
  have hmain := hslots.main_le
  have hlane := hslots.cursor_le
  refine ⟨⟨q.map Entry.fn, heq, by simp [hq.depth]⟩, fun bs s' h' => ?_, fun t ht => ?_, ?_,
    hawake.asked, fun hw => hawake.wakes (.inl hw), ⟨?_, fun hpos => ?_, ?_, hslots.permits_le⟩,
    hasCapacity_eq s⟩
  · exact ran_ticks h flow_of_runs h'
  · exact hflow.turn_le ht
  · rw [hq.depth]
    exact hq.fits
  · omega
  · omega
  · omega

/-- A budget of one call a turn, and a ring of one slot. -/
def paced : Config := ⟨2, 0, 1, 1, 1⟩

/-- Two admissions, the turn that calls the second, and a third one in its call. -/
def admissions : List (Action Nat) :=
  [.tryAcquireCursor, .admitUpgrade 1 0 0, .returns 0, .admitUpgrade 2 0 0, .tick 1,
    .admitUpgrade 3 1 1]

/-- The second callback waits in the ring, is called by the next turn, and admits a
third, which waits in turn. -/
theorem upgrade_admission_one :
    ∃ s, (machine Nat paced).exec (machine Nat paced).init admissions = some s ∧
      s.deferrals = [2, 3] ∧ s.ran = [2] ∧
      ∃ waiting, s.deferrals = s.ran ++ waiting ∧ waiting.length = s.gate.deferredDepth := by
  obtain ⟨s, hs⟩ : ∃ s, (machine Nat paced).exec (machine Nat paced).init admissions = some s :=
    Option.isSome_iff_exists.mp (by decide +kernel)
  have hrun : (machine Nat paced).Runs Matched _ s :=
    (Machine.runs_of_exec hs).restrict (by simp [admissions, Matched])
  have hran : ((machine Nat paced).exec (machine Nat paced).init admissions).all
      (fun s => decide (s.deferrals = [2, 3] ∧ s.ran = [2])) = true := by decide +kernel
  rw [hs] at hran
  obtain ⟨hdeferrals, hran⟩ := of_decide_eq_true hran
  exact ⟨s, hs, hdeferrals, hran, (upgrade_admission hrun).1⟩

/-- What `hasCapacity` answers is no answer for the cursor lane: with its one slot
taken, the main lane has room. -/
theorem hasCapacity_cursor :
    ¬ ∀ (o : Options) (as : List (Action Nat)) (s : State Nat),
      (machine Nat o.config).Runs Matched as s → ∀ fn enqueuedAt now,
        hasCapacity o.config s.gate = admitsNow tryAcquireCursor o.config s fn enqueuedAt now := by
  intro hall
  let o : Options := ⟨some 4, none, none, none, some ⟨none⟩⟩
  have hrun : (machine Nat o.config).Runs Matched ([] ++ [.tryAcquireCursor])
      { (machine Nat o.config).init with
        gate := (tryAcquireCursor o.config (createUpgradeAdmission)).2
        cursor := 0 + taken (tryAcquireCursor o.config (createUpgradeAdmission)).1 } :=
    .snoc .nil trivial rfl
  have := hall o _ _ hrun 0 0 0
  revert this
  decide +kernel

end BunServe.Upgrade
