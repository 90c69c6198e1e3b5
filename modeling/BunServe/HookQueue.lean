import BunServe.Lib.Machine

/-!
# BunServe.HookQueue

The queue of app hooks a client can drive (`runtime/utils/hook-queue.js`).

Tasks are called synchronously, by `enqueue` or by a `pump`, and may call the
queue again before they return, so the state carries the stack of the calls of
tasks that have not come back.  A task that has returned runs on until its
promise settles.  Reactions and microtasks run on an empty stack only.

* `fair_of_runs` — the bounds and the order of starting, in every run in which
  no call comes while a slot is free and a task waits;
* `overtaken` — such a call starts its task ahead of the waiting one.
-/

namespace BunServe.HookQueue

/-! ## the queue -/

/-- The options of `createHookQueue`. -/
structure Config where
  concurrency : Nat
  maxQueued : Nat

/-- Who called the task that is on the stack. -/
inductive Caller where
  | enqueue
  | pump
  deriving DecidableEq

/-- A task that has been called and has not come back. -/
structure Frame (T : Type) where
  task : T
  caller : Caller
  deriving DecidableEq

/-- The variables of the closure, and what is under way: the calls on the stack,
innermost first, the tasks whose promises are pending, and the microtasks that
will pump.  `accepted` and `started` record the tasks in order. -/
structure State (T : Type) where
  running : Int := 0
  queue : List T := []
  cleared : Bool := false
  stack : List (Frame T) := []
  pending : List T := []
  pumps : Nat := 0
  accepted : List T := []
  started : List T := []
  deriving DecidableEq

/-- What `enqueue` answers. -/
inductive Outcome where
  | ran
  | queued
  | refused
  | overflow
  deriving DecidableEq

section Queue

variable {T : Type} (config : Config)

/-- `start(task)` up to the call of the task. -/
def start (s : State T) (task : T) (caller : Caller) : State T :=
  { s with
    running := s.running + 1
    stack := ⟨task, caller⟩ :: s.stack
    started := s.started ++ [task] }

/-- `pump()` up to the next call of a task; the loop goes on when it is back. -/
def pump (s : State T) : State T :=
  match s.queue with
  | [] => s
  | next :: queue =>
    if s.running < config.concurrency then start { s with queue } next .pump else s

/-- `enqueue(task, required)`. -/
def enqueue (s : State T) (task : T) (required : Bool) : Outcome × State T :=
  if s.cleared then (.refused, s)
  else if s.running < config.concurrency then
    (.ran, start { s with accepted := s.accepted ++ [task] } task .enqueue)
  else if !required then (.refused, s)
  else if config.maxQueued ≤ s.queue.length then (.overflow, s)
  else (.queued, { s with queue := s.queue ++ [task], accepted := s.accepted ++ [task] })

/-- Back in the code that called the task. -/
def resume (s : State T) : Caller → State T
  | .enqueue => s
  | .pump => pump config s

/-- `clear()`. -/
def clear (s : State T) : State T := { s with cleared := true, queue := [] }

/-- What happens next: a call, the innermost task coming back, a promise that
settles, fulfilled or rejected, and a microtask. -/
inductive Action (T : Type) where
  | enqueue (task : T) (required : Bool)
  | returns
  | throws
  | settles (i : Nat)
  | microtask
  | clear

/-- One step. -/
def next (s : State T) : Action T → Option (State T)
  | .enqueue task required => some (enqueue config s task required).2
  | .returns =>
    match s.stack with
    | [] => none
    | f :: stack =>
      some (resume config { s with stack, pending := s.pending ++ [f.task] } f.caller)
  | .throws =>
    match s.stack with
    | [] => none
    | f :: stack =>
      some (resume config { s with stack, running := s.running - 1, pumps := s.pumps + 1 }
        f.caller)
  | .settles i =>
    if s.stack = [] ∧ i < s.pending.length then
      let s := { s with pending := s.pending.eraseIdx i, running := s.running - 1 }
      some (if s.cleared then s else pump config s)
    else none
  | .microtask =>
    if s.stack = [] ∧ 0 < s.pumps then some (pump config { s with pumps := s.pumps - 1 })
    else none
  | .clear => some (clear s)

/-- The queue, from its creation. -/
def machine : Machine (State T) (Action T) := ⟨{}, next config⟩

/-- The tasks that run: called and not back, or not settled. -/
def State.busy (s : State T) : Nat := s.stack.length + s.pending.length

/-- No call comes while a slot is free and a task waits. -/
def Settled (s : State T) : Action T → Prop
  | .enqueue _ _ => s.running < config.concurrency → s.queue = []
  | _ => True

instance (s : State T) : (a : Action T) → Decidable (Settled config s a)
  | .enqueue _ _ => inferInstanceAs (Decidable (_ → _))
  | .returns => isTrue trivial
  | .throws => isTrue trivial
  | .settles _ => isTrue trivial
  | .microtask => isTrue trivial
  | .clear => isTrue trivial

/-- What the queue promises of a state it is in. -/
structure Fair (s : State T) : Prop where
  /-- At most `concurrency` tasks run at once. -/
  bounded : s.busy ≤ config.concurrency
  /-- What was accepted is what was started and what waits, in order. -/
  ordered : s.cleared = false → s.accepted = s.started ++ s.queue
  /-- With no microtask pending, nothing waits while a slot is free. -/
  keen : s.stack = [] → s.pumps = 0 → s.queue ≠ [] → config.concurrency ≤ s.busy
  /-- Once everything is over, every accepted task has been started. -/
  served : s.cleared = false → s.busy = 0 → s.pumps = 0 → 0 < config.concurrency →
    s.started = s.accepted

/-! ## what every step keeps -/

/-- The tasks are counted, and the records agree with what waits. -/
structure Kept (s : State T) : Prop where
  counted : s.running = s.busy
  bounded : s.busy ≤ config.concurrency
  dropped : s.cleared = true → s.queue = []
  ordered : s.cleared = false → s.accepted = s.started ++ s.queue

/-- Whoever left a slot free while a task waits pumps again. -/
def Awake (s : State T) : Prop :=
  s.queue ≠ [] → s.running < config.concurrency →
    0 < s.pumps ∨ ∃ f ∈ s.stack, f.caller = .pump

variable {config} {s s' : State T}

theorem Kept.start {queue : List T} {task : T} (h : Kept config s)
    (hfree : s.running < config.concurrency) (caller : Caller) {accepted : List T}
    (hdropped : s.cleared = true → queue = [])
    (hordered : s.cleared = false → accepted = s.started ++ [task] ++ queue) :
    Kept config (HookQueue.start { s with queue, accepted } task caller) where
  counted := by
    have := h.counted
    simp [HookQueue.start, State.busy] at *
    omega
  bounded := by
    have := h.counted
    simp [HookQueue.start, State.busy] at *
    omega
  dropped := hdropped
  ordered := hordered

theorem Kept.pump (h : Kept config s) : Kept config (HookQueue.pump config s) := by
  unfold HookQueue.pump
  split
  · exact h
  rename_i task queue hq
  split
  · next hfree =>
    refine h.start hfree .pump (fun hc => ?_) (fun hc => ?_)
    · rw [h.dropped hc] at hq
      contradiction
    · rw [h.ordered hc, hq, List.append_assoc]
      rfl
  · exact h

theorem awake_pump (s : State T) : Awake config (pump config s) := by
  unfold pump
  split
  · next hq => exact absurd hq
  · split
    · exact fun _ _ => .inr ⟨_, List.mem_cons_self, rfl⟩
    · next hfull => exact fun _ hfree => absurd hfree hfull

theorem Kept.resume (h : Kept config s) (caller : Caller) :
    Kept config (HookQueue.resume config s caller) := by
  cases caller with
  | enqueue => exact h
  | pump => exact h.pump

theorem Kept.enqueue (h : Kept config s) (task : T) (required : Bool)
    (hok : s.running < config.concurrency → s.queue = []) :
    Kept config (HookQueue.enqueue config s task required).2 := by
  unfold HookQueue.enqueue
  split
  · exact h
  rename_i hc
  split
  · next hfree =>
    have hq := hok hfree
    refine h.start hfree .enqueue h.dropped fun hopen => ?_
    rw [h.ordered hopen, hq, List.append_nil, List.append_nil]
  · split
    · exact h
    · split
      · exact h
      · exact {
          h with
          dropped := fun hopen => absurd hopen hc
          ordered := fun hopen => by simp [h.ordered hopen] }

theorem Awake.enqueue (h : Awake config s) (task : T) (required : Bool) :
    Awake config (HookQueue.enqueue config s task required).2 := by
  unfold HookQueue.enqueue
  split
  · exact h
  split
  · next hfree =>
    intro hne _
    have := h hne hfree
    grind [start]
  · next hfull =>
    split
    · exact h
    · split
      · exact h
      · exact fun _ hfree => absurd hfree hfull

theorem Kept.back {f : Frame T} {stack : List (Frame T)} (h : Kept config s)
    (hs : s.stack = f :: stack) :
    Kept config { s with stack, pending := s.pending ++ [f.task] } ∧
      ∀ pumps, Kept config { s with stack, running := s.running - 1, pumps } := by
  have hcounted := h.counted
  have hbounded := h.bounded
  simp only [State.busy, hs, List.length_cons] at hcounted hbounded
  refine ⟨{ h with counted := ?_, bounded := ?_ }, fun pumps =>
    { h with counted := ?_, bounded := ?_ }⟩
  all_goals
    simp only [State.busy, List.length_append, List.length_singleton]
    omega

theorem Kept.settles {i : Nat} (h : Kept config s) (hi : i < s.pending.length) :
    Kept config { s with pending := s.pending.eraseIdx i, running := s.running - 1 } := by
  have hcounted := h.counted
  have hbounded := h.bounded
  have hlength : (s.pending.eraseIdx i).length + 1 = s.pending.length := by
    rw [List.length_eraseIdx_of_lt hi]
    omega
  simp only [State.busy] at hcounted hbounded
  exact { h with
    counted := by simp only [State.busy]; omega
    bounded := by simp only [State.busy]; omega }

variable (config) in
inductive Step (s : State T) : Action T → State T → Prop
  | enqueue (task : T) (required : Bool) :
      Step s (.enqueue task required) (HookQueue.enqueue config s task required).2
  | returns {f : Frame T} {stack : List (Frame T)} : s.stack = f :: stack →
      Step s .returns
        (resume config { s with stack, pending := s.pending ++ [f.task] } f.caller)
  | throws {f : Frame T} {stack : List (Frame T)} : s.stack = f :: stack →
      Step s .throws (resume config
        { s with stack, running := s.running - 1, pumps := s.pumps + 1 } f.caller)
  | settlesCleared {i : Nat} : s.stack = [] → i < s.pending.length → s.cleared = true →
      Step s (.settles i)
        { s with pending := s.pending.eraseIdx i, running := s.running - 1 }
  | settles {i : Nat} : s.stack = [] → i < s.pending.length →
      Step s (.settles i) (HookQueue.pump config
        { s with pending := s.pending.eraseIdx i, running := s.running - 1 })
  | microtask : s.stack = [] → 0 < s.pumps →
      Step s .microtask (HookQueue.pump config { s with pumps := s.pumps - 1 })
  | clear : Step s .clear (HookQueue.clear s)

variable {a : Action T}

theorem step_of_next (hn : next config s a = some s') : Step config s a s' := by
  cases a with
  | enqueue task required =>
    rw [← Option.some.inj hn]
    exact .enqueue task required
  | returns =>
    simp only [next] at hn
    split at hn
    · contradiction
    · next hs =>
      rw [← Option.some.inj hn]
      exact .returns hs
  | throws =>
    simp only [next] at hn
    split at hn
    · contradiction
    · next hs =>
      rw [← Option.some.inj hn]
      exact .throws hs
  | settles i =>
    simp only [next] at hn
    obtain ⟨hi, hn⟩ := Option.ite_none_right_eq_some.mp hn
    split at hn
    · next hc =>
      rw [← Option.some.inj hn]
      exact .settlesCleared hi.1 hi.2 hc
    · rw [← Option.some.inj hn]
      exact .settles hi.1 hi.2
  | microtask =>
    simp only [next] at hn
    obtain ⟨hp, hn⟩ := Option.ite_none_right_eq_some.mp hn
    rw [← Option.some.inj hn]
    exact .microtask hp.1 hp.2
  | clear =>
    rw [← Option.some.inj hn]
    exact .clear

theorem Kept.next (h : Kept config s) (hok : Settled config s a)
    (hn : HookQueue.next config s a = some s') : Kept config s' := by
  cases step_of_next hn with
  | enqueue task required => exact h.enqueue task required hok
  | returns hs => exact (h.back hs).1.resume _
  | throws hs => exact ((h.back hs).2 _).resume _
  | settlesCleared _ hi _ => exact h.settles hi
  | settles _ hi => exact (h.settles hi).pump
  | microtask => exact Kept.pump { h with }
  | clear => exact { h with dropped := fun _ => rfl, ordered := nofun }

/-- A frame of `enqueue` that comes back leaves the others as they are. -/
theorem awake_resume {f : Frame T} {stack : List (Frame T)} (h : Awake config s)
    (hs : s.stack = f :: stack) (hstack : s'.stack = stack) (hqueue : s'.queue = s.queue)
    (hpumps : s.pumps ≤ s'.pumps) (hrunning : s'.running = s.running ∨ 0 < s'.pumps) :
    Awake config (resume config s' f.caller) := by
  cases hcaller : f.caller with
  | pump => exact awake_pump s'
  | enqueue =>
    intro hne hfree
    change 0 < s'.pumps ∨ ∃ f ∈ s'.stack, f.caller = .pump
    cases hrunning with
    | inr hpumps => exact .inl hpumps
    | inl hrunning =>
      cases h (hqueue ▸ hne) (hrunning ▸ hfree) with
      | inl h => exact .inl (by omega)
      | inr h =>
        obtain ⟨g, hg, hpump⟩ := h
        rw [hs, List.mem_cons] at hg
        cases hg with
        | inl hg =>
          rw [hg, hcaller] at hpump
          contradiction
        | inr hg => exact .inr ⟨g, hstack ▸ hg, hpump⟩

theorem Awake.next (hk : Kept config s) (h : Awake config s)
    (hn : HookQueue.next config s a = some s') : Awake config s' := by
  cases step_of_next hn with
  | enqueue task required => exact h.enqueue task required
  | returns hs => exact awake_resume h hs rfl rfl (Nat.le_refl _) (.inl rfl)
  | throws hs => exact awake_resume h hs rfl rfl (Nat.le_succ _) (.inr (Nat.succ_pos _))
  | settlesCleared _ _ hc => exact absurd (hk.dropped hc)
  | settles | microtask => exact awake_pump _
  | clear => exact absurd rfl

/-! ## runs -/

theorem pump_of_empty {t : State T} (hq : t.queue = []) : pump config t = t := by
  simp [pump, hq]

theorem resume_of_empty {t : State T} (hq : t.queue = []) (caller : Caller) :
    resume config t caller = t := by
  cases caller with
  | enqueue => rfl
  | pump => exact pump_of_empty hq

theorem Kept.cleared_next (h : Kept config s) (hc : s.cleared = true)
    (hn : HookQueue.next config s a = some s') : s'.cleared = true ∧ s'.started = s.started := by
  have hq := h.dropped hc
  cases step_of_next hn with
  | enqueue task required => simp [HookQueue.enqueue, hc]
  | returns hs | throws hs =>
    rw [resume_of_empty (by exact hq)]
    exact ⟨hc, rfl⟩
  | settlesCleared => exact ⟨hc, rfl⟩
  | settles | microtask =>
    rw [pump_of_empty (by exact hq)]
    exact ⟨hc, rfl⟩
  | clear => exact ⟨rfl, rfl⟩

theorem Kept.cleared_exec {as : List (Action T)} (h : Kept config s) (hc : s.cleared = true)
    (he : (machine config).exec s as = some s') : s'.started = s.started := by
  induction as generalizing s with
  | nil => rw [← Option.some.inj he]
  | cons a as ih =>
    obtain ⟨t, hn, he⟩ := Option.bind_eq_some_iff.mp he
    have hok : Settled config s a := by
      cases a with
      | enqueue => exact fun _ => h.dropped hc
      | _ => trivial
    obtain ⟨htc, hts⟩ := h.cleared_next hc hn
    rw [ih (h.next hok hn) htc he, hts]

theorem kept_init : Kept config ({} : State T) where
  counted := rfl
  bounded := Nat.zero_le _
  dropped := nofun
  ordered _ := rfl

end Queue

/-! ## what the queue promises -/

theorem Kept.fair {T : Type} {config : Config} {s : State T} (h : Kept config s)
    (ha : Awake config s) : Fair config s where
  bounded := h.bounded
  ordered := h.ordered
  keen hstack hpumps hne := by
    have hcounted := h.counted
    refine Nat.not_lt.mp fun hlt => ?_
    cases ha hne (by omega) with
    | inl hp => omega
    | inr hp => simp [hstack] at hp
  served hc hbusy hpumps hpos := by
    have hcounted := h.counted
    have hstack : s.stack = [] := List.length_eq_zero_iff.mp (by unfold State.busy at hbusy; omega)
    by_cases hq : s.queue = []
    · rw [h.ordered hc, hq, List.append_nil]
    · cases ha hq (by omega) with
      | inl hp => omega
      | inr hp => simp [hstack] at hp

/-- **What the queue promises**, in every state of every run in which no call
comes while a slot is free and a task waits; and nothing starts after `clear`. -/
theorem fair_of_runs {T : Type} (config : Config) {as : List (Action T)} {s : State T}
    (h : (machine config).Runs (Settled config) as s) :
    Fair config s ∧ (s.cleared = true → ∀ bs s', (machine config).exec s bs = some s' →
      s'.started = s.started) := by
  have hkept {as : List (Action T)} {s : State T}
      (h : (machine config).Runs (Settled config) as s) : Kept config s :=
    h.invariant kept_init fun _ _ _ hI hok hn => hI.next hok hn
  have hawake : Awake config s :=
    h.invariant_of hkept
      (absurd rfl) fun _ _ _ hJ hI _ hn => hI.next hJ hn
  exact ⟨(hkept h).fair hawake, fun hc bs s' he => (hkept h).cleared_exec hc he⟩

/-- A task that throws before it returns, with another one waiting. -/
def throwing : List (Action Nat) :=
  [.enqueue 1 true, .enqueue 2 true, .throws, .microtask, .returns, .settles 0, .clear]

theorem fair_of_runs_throwing : ∃ s, (machine ⟨1, 8⟩).Runs (Settled ⟨1, 8⟩) throwing s ∧
    Fair ⟨1, 8⟩ s ∧ (s.cleared = true → ∀ bs s', (machine ⟨1, 8⟩).exec s bs = some s' →
      s'.started = s.started) := by
  obtain ⟨s, hs⟩ : ∃ s, (machine ⟨1, 8⟩).execIf (fun s a => decide (Settled ⟨1, 8⟩ s a))
      (machine ⟨1, 8⟩).init throwing = some s :=
    Option.isSome_iff_exists.mp (by decide +kernel)
  have hruns := Machine.runs_of_execIf (fun _ _ hok => of_decide_eq_true hok) hs
  exact ⟨s, hruns, fair_of_runs ⟨1, 8⟩ hruns⟩

/-- A call that comes between the throw of a task and the microtask starts its
task ahead of the one that waits. -/
theorem overtaken : ¬ ∀ (config : Config) (as : List (Action Nat)) (s : State Nat),
    (machine config).Runs Machine.Any as s → Fair config s := by
  intro hall
  let trace : List (Action Nat) := [.enqueue 1 true, .enqueue 2 true, .throws, .enqueue 3 true]
  obtain ⟨s, hs⟩ : ∃ s, (machine ⟨1, 8⟩).exec (machine ⟨1, 8⟩).init trace = some s :=
    Option.isSome_iff_exists.mp (by decide +kernel)
  have hbad : ((machine ⟨1, 8⟩).exec (machine ⟨1, 8⟩).init trace).all
      (fun s => decide (s.cleared = false ∧ s.accepted ≠ s.started ++ s.queue)) = true := by
    decide +kernel
  rw [hs] at hbad
  obtain ⟨hopen, hne⟩ := of_decide_eq_true hbad
  exact hne ((hall _ _ s (Machine.runs_of_exec hs)).ordered hopen)

end BunServe.HookQueue
