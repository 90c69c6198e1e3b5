import BunServe.Lock.Exclusion

/-!
# BunServe.Lock.Waiters

How many callers wait on a key, and when the lock says that its queue is full.

A waiter that times out is cancelled in place and stays in the queue until the
section in front of it ends, so the queue is longer than the number of callers
that still wait.  The bound is checked against the queue.

* `length_queue_le` — no queue grows past the bound, in any run;
* `waiters_of_owned` — while no section from before a `clear` releases another
  one's key, the live waiters of a key are within the bound, and a call is
  refused rightly exactly when no timed-out waiter stood in the full queue;
* `timed_out_waiter_refuses` — a call is refused although nobody waits, and
  twice the bound wait after a stale release.
-/

namespace BunServe.Lock

open Machine

/-! ## the promise -/

/-- The live waiters of a key: called, and neither started nor settled. -/
def live (s : State) (key : String) : List Call :=
  s.calls.filter fun c => c.key = key ∧ c ∉ s.started ∧ c ∉ s.settled.map Prod.fst

/-- A call that is refused because its queue is full finds as many live waiters
on its key as may wait. -/
def RefusedFull (o : Options) (s s' : State) : Prop :=
  ∀ c key max, (c, Outcome.refused (.queueFull key max)) ∈ s'.settled →
    (c, Outcome.refused (.queueFull key max)) ∉ s.settled →
      (live s key).length = o.maxWaitersPerKey

/-- A call arrives at a full queue in which a timed-out waiter still stands. -/
def crowded (o : Options) (s : State) : Action → Bool
  | .withLock r =>
    match validate o r with
    | .error _ => false
    | .ok key =>
      match s.states.get? key with
      | none => false
      | some ref => o.maxWaitersPerKey ≤ (s.heap ref).queue.length &&
          (s.heap ref).queue.any Waiter.cancelled
  | _ => false

/-! ## the queues are bounded -/

/-- No queue is longer than the bound. -/
def QueuesFit (o : Options) (s : State) : Prop :=
  ∀ ref, (s.heap ref).queue.length ≤ o.maxWaitersPerKey

variable {ref : Nat} {key : String}

section Step

variable {o : Options} {s s' : State}

theorem QueuesFit.update (h : QueuesFit o s) {k : KeyState}
    (hk : k.queue.length ≤ o.maxWaitersPerKey) (hheap : s'.heap = Function.update s.heap ref k) :
    QueuesFit o s' := by
  intro r
  rw [hheap]
  by_cases hr : r = ref
  · rw [hr, Function.update_self]
    exact hk
  · rw [Function.update_of_ne hr]
    exact h r

theorem QueuesFit.withLockOn (h : QueuesFit o s) (c : Call) (m : MaxWait) :
    QueuesFit o (withLockOn o s c m) := by
  unfold Lock.withLockOn
  cases s.states.get? c.key with
  | none =>
    by_cases hfull : o.maxKeys ≤ s.states.size
    · simp only [hfull]
      exact h
    · simp only [hfull]
      exact h.update (Nat.zero_le _) rfl
  | some ref =>
    simp only
    split
    · exact h.update (k := { s.heap ref with running := true }) (h ref) rfl
    · split
      · exact h
      · next hroom =>
        refine h.update ?_ rfl
        simp only [List.length_append, List.length_singleton]
        omega

/-- The state in which the arguments of a call are checked. -/
def called (s : State) (key : String) : State :=
  { s with calls := s.calls ++ [⟨s.calls.length, key, s.clears⟩] }

theorem withLock_ok {r : Request} (hv : validate o r = .ok key)
    (hkey : r.key = some key) : withLock o s r =
      withLockOn o (called s key) ⟨s.calls.length, key, s.clears⟩ r.maxWaitMs := by
  simp only [Lock.withLock, hv, hkey, Option.getD_some, called]

theorem QueuesFit.withLock (h : QueuesFit o s) (r : Request) : QueuesFit o (withLock o s r) := by
  simp only [Lock.withLock]
  split
  · exact h
  · exact QueuesFit.withLockOn (s := called s (r.key.getD "")) h _ _

theorem length_shiftLive {q rest : List Waiter} {w : Waiter} (h : shiftLive q = some (w, rest)) :
    rest.length ≤ q.length := by
  obtain ⟨-, pre, rfl, -⟩ := shiftLive_eq_some h
  simp only [List.length_append, List.length_cons]
  omega

theorem QueuesFit.advance (h : QueuesFit o s) (key : String) (ref : Nat) :
    QueuesFit o (advance s key ref) := by
  unfold Lock.advance
  cases hq : shiftLive (s.heap ref).queue with
  | none => exact h.update (Nat.zero_le _) rfl
  | some p => exact h.update (Nat.le_trans (length_shiftLive hq) (h ref)) rfl

theorem QueuesFit.timeout (h : QueuesFit o s) {id : Nat}
    (hs : timeout s ref id = some s') : QueuesFit o s' := by
  rw [Lock.timeout] at hs
  split at hs
  · contradiction
  · cases hs
    refine h.update ?_ rfl
    rw [List.length_map]
    exact h ref

theorem QueuesFit.clear (h : QueuesFit o s) : QueuesFit o (clear s) := by
  intro r
  simp only [Lock.clear]
  split
  · rw [List.length_map]
    exact h r
  · exact h r

theorem QueuesFit.next (h : QueuesFit o s) {a : Action}
    (hs : (machine o).next s a = some s') : QueuesFit o s' := by
  cases a with
  | withLock r => exact Option.some.inj hs ▸ h.withLock r
  | settle id ok =>
    obtain ⟨g, -, -, rfl⟩ := settle_eq_some hs
    exact QueuesFit.advance (s := leave s id) h g.call.key g.state
  | timeout ref id => exact h.timeout hs
  | clear => exact Option.some.inj hs ▸ h.clear

end Step

theorem length_queue_le {o : Options} {ok : State → Action → Prop} {as : List Action} {s : State}
    (h : (machine o).Runs ok as s) : QueuesFit o s :=
  h.invariant (fun _ => Nat.zero_le _) fun _ _ _ hi _ hs => hi.next hs

/-! ## the live waiters stand in one queue -/

section Live

variable {o : Options} {s : State}

theorem mem_live (hi : Inv none s) {c : Call} : c ∈ live s key ↔ c.key = key ∧ Waiting s c := by
  simp only [live, List.mem_filter, decide_eq_true_eq]
  constructor
  · rintro ⟨hc, hkey, hstart, hset⟩
    refine ⟨hkey, ?_⟩
    rcases hi.placed c hc (by simp) with hs | ⟨h, hh, rfl⟩ | hw
    · exact absurd hs hset
    · exact absurd (hi.holderStarted h hh) hstart
    · exact hw
  · rintro ⟨hkey, hw⟩
    obtain ⟨ref, hr, w, hmem, rfl, -⟩ := id hw
    exact ⟨(hi.queued _ ref hr w hmem).1, hkey, hi.not_started hr hmem,
      fun hs => (hi.unsettled _ hs).2 hw⟩

theorem nodup_live (hi : Inv none s) (key : String) : (live s key).Nodup := by
  have hids : (s.calls.map Call.id).Nodup := hi.ids ▸ List.nodup_range
  exact hids.of_map.filter _

theorem length_live (hi : Inv none s) (hr : s.states.get? key = some ref) :
    (live s key).length = ((s.heap ref).queue.filter fun w => !w.cancelled).length := by
  have hnodup : (((s.heap ref).queue.filter fun w => !w.cancelled).map Waiter.call).Nodup := by
    have hord := (hi.order ref).filter fun w => !w.cancelled
    exact List.pairwise_map.mpr (hord.imp fun hlt he => Nat.ne_of_lt hlt (congrArg Call.id he))
  have hmem (c : Call) : c ∈ live s key ↔
      c ∈ ((s.heap ref).queue.filter fun w => !w.cancelled).map Waiter.call := by
    simp only [mem_live hi, List.mem_map, List.mem_filter, Bool.not_eq_true']
    constructor
    · rintro ⟨rfl, ref', hr', w, hw, rfl, hl⟩
      obtain rfl := Option.some.inj (hr.symm.trans hr')
      exact ⟨w, ⟨hw, hl⟩, rfl⟩
    · rintro ⟨w, ⟨hw, hl⟩, rfl⟩
      exact ⟨(hi.queued key ref hr w hw).2.1, hi.waiting hr hw hl⟩
  have hperm := (List.perm_ext_iff_of_nodup (nodup_live hi key) hnodup).mpr hmem
  rw [hperm.length_eq, List.length_map]

theorem live_eq_nil (hi : Inv none s) (hr : s.states.get? key = none) : live s key = [] := by
  refine List.eq_nil_iff_forall_not_mem.mpr fun c hc => ?_
  obtain ⟨rfl, ref, hr', -⟩ := (mem_live hi).mp hc
  rw [hr] at hr'
  contradiction

theorem length_live_le (hi : Inv none s) (hq : QueuesFit o s) (key : String) :
    (live s key).length ≤ o.maxWaitersPerKey := by
  cases hr : s.states.get? key with
  | none =>
    rw [live_eq_nil hi hr]
    exact Nat.zero_le _
  | some ref =>
    rw [length_live hi hr]
    exact Nat.le_trans (List.length_filter_le _ _) (hq ref)

theorem length_live_full (hi : Inv none s) (hq : QueuesFit o s) (hr : s.states.get? key = some ref)
    (hfull : o.maxWaitersPerKey ≤ (s.heap ref).queue.length) :
    (live s key).length = o.maxWaitersPerKey ↔ (s.heap ref).queue.any Waiter.cancelled = false := by
  have hlen : (s.heap ref).queue.length = o.maxWaitersPerKey := Nat.le_antisymm (hq ref) hfull
  rw [length_live hi hr, ← hlen, List.length_filter_eq_length_iff, List.any_eq_false]
  simp only [Bool.not_eq_true', Bool.not_eq_true]

end Live

/-! ## refusals -/

section Refusals

variable {o : Options} {s s' : State}

theorem validate_ne_queueFull {r : Request} {max : Nat} :
    validate o r ≠ .error (.queueFull key max) := by
  unfold validate
  grind

theorem validate_eq_ok {r : Request} (h : validate o r = .ok key) : r.key = some key := by
  unfold validate at h
  grind

theorem withLockOn_refused {c d : Call} {m : MaxWait} {max : Nat}
    (hold : (d, Outcome.refused (.queueFull key max)) ∉ s.settled) :
    (d, Outcome.refused (.queueFull key max)) ∈ (withLockOn o s c m).settled ↔
      ∃ ref, s.states.get? c.key = some ref ∧ (s.heap ref).running = true ∧
        o.maxWaitersPerKey ≤ (s.heap ref).queue.length ∧ d = c ∧ key = c.key ∧
          max = o.maxWaitersPerKey := by
  unfold withLockOn
  cases hr : s.states.get? c.key with
  | none =>
    by_cases hkeys : o.maxKeys ≤ s.states.size
    · simp [hkeys, settlePromise, hold]
    · simp [hkeys, startNew, runHead, hold]
  | some ref =>
    by_cases hrun : (s.heap ref).running = true
    · by_cases hfull : o.maxWaitersPerKey ≤ (s.heap ref).queue.length
      · simp [hrun, hfull, settlePromise, hold]
      · simp [hrun, hfull, setQueue, hold]
    · simp [hrun, runHead, hold]

theorem next_refused {a : Action} (hs : (machine o).next s a = some s') {c : Call}
    {max : Nat} (hnew : (c, Outcome.refused (.queueFull key max)) ∈ s'.settled)
    (hold : (c, Outcome.refused (.queueFull key max)) ∉ s.settled) :
    ∃ r ref, a = .withLock r ∧ validate o r = .ok key ∧ s.states.get? key = some ref ∧
      o.maxWaitersPerKey ≤ (s.heap ref).queue.length := by
  cases a with
  | withLock r =>
    cases hs
    simp only [withLock] at hnew
    cases hv : validate o r with
    | error e =>
      rw [hv] at hnew
      simp only [settlePromise, List.mem_append, List.mem_singleton, Prod.mk.injEq,
        Outcome.refused.injEq, hold, false_or] at hnew
      exact absurd (hnew.2 ▸ hv) validate_ne_queueFull
    | ok key' =>
      have hsplit := withLock_ok (s := s) hv (validate_eq_ok hv)
      have hon : (c, Outcome.refused (.queueFull key max)) ∈ (withLock o s r).settled := by
        simpa only [withLock] using hnew
      rw [hsplit] at hon
      obtain ⟨ref, hr, -, hfull, -, rfl, -⟩ :=
        (withLockOn_refused (s := called s key') hold).mp hon
      exact ⟨r, ref, rfl, hv, hr, hfull⟩
  | settle id ok =>
    obtain ⟨g, -, -, rfl⟩ := settle_eq_some hs
    have hkeep : (advance (leave s id) g.call.key g.state).settled = s.settled := by
      unfold advance
      split <;> rfl
    simp only [settlePromise, hkeep, List.mem_append, hold] at hnew
    cases ok <;> simp at hnew
  | timeout ref id =>
    simp only [machine, timeout] at hs
    split at hs
    · contradiction
    · cases hs
      simp [settlePromise, setQueue, hold] at hnew
  | clear =>
    cases hs
    simp [clear, hold] at hnew

theorem refusedFull_iff (hi : Inv none s) (hq : QueuesFit o s) {a : Action}
    (hs : (machine o).next s a = some s') : RefusedFull o s s' ↔ crowded o s a = false := by
  constructor
  · intro hfull
    cases a with
    | withLock r =>
      cases hv : validate o r with
      | error e => simp [crowded, hv]
      | ok key =>
        cases hr : s.states.get? key with
        | none => simp [crowded, hv, hr]
        | some ref =>
          by_cases hlen : o.maxWaitersPerKey ≤ (s.heap ref).queue.length
          · simp only [crowded, hv, hr, hlen]
            have hnone : (⟨s.calls.length, key, s.clears⟩,
                Outcome.refused (.queueFull key o.maxWaitersPerKey)) ∉ s.settled :=
              fun hmem => absurd (hi.call_lt (hi.settledCalls _ (List.mem_map_of_mem hmem)))
                (Nat.lt_irrefl _)
            refine (length_live_full hi hq hr hlen).mp (hfull _ key _ ?_ hnone)
            cases hs
            rw [withLock_ok hv (validate_eq_ok hv)]
            exact (withLockOn_refused (s := called s key) hnone).mpr
              ⟨ref, hr, hi.running _ _ hr, hlen, rfl, rfl, rfl⟩
          · simp [crowded, hv, hr, hlen]
    | settle id ok | timeout ref id | clear => rfl
  · intro hok c key max hnew hold
    obtain ⟨r, ref, rfl, hv, hr, hlen⟩ := next_refused hs hnew hold
    simp only [crowded, hv, hr, hlen] at hok
    exact (length_live_full hi hq hr hlen).mpr hok

end Refusals

/-! ## runs -/

/-- Along every run whose steps are owned the live waiters of every key are
within the bound, and the next call is refused rightly exactly when it is not
crowded out by a timed-out waiter. -/
theorem waiters_of_owned (o : Options) {as : List Action} {s : State}
    (h : (machine o).Runs (fun s a => ¬ Unowned s a) as s) :
    (∀ key, (live s key).length ≤ o.maxWaitersPerKey) ∧
      ∀ a s', (machine o).next s a = some s' → (RefusedFull o s s' ↔ crowded o s a = false) :=
  ⟨length_live_le (inv_of_runs h) (length_queue_le h),
    fun _ _ hs => refusedFull_iff (inv_of_runs h) (length_queue_le h) hs⟩

def oneWaiter : Options := ⟨⟨1000000, million_pos⟩, ⟨256, keyUnits_pos⟩, ⟨1, Nat.one_pos⟩⟩

/-- A call on key `k`, with or without a bounded wait. -/
def onK (m : MaxWait) : Action := .withLock ⟨some "k", true, m⟩

/-- Not every refusal finds the waiters it speaks of, and not every run keeps
the bound: behind a running section the only waiter times out and the next call
is refused; and where a section from before a `clear` releases the key of a
later one, a second queue fills beside the first. -/
theorem timed_out_waiter_refuses :
    (∃ s s', (machine oneWaiter).Runs Any [onK .absent, onK (.ms 0), .timeout 0 1] s ∧
      (machine oneWaiter).next s (onK .absent) = some s' ∧ live s "k" = [] ∧
      ¬ RefusedFull oneWaiter s s') ∧
    ∃ s, (machine oneWaiter).Runs Any
      [onK .absent, .clear, onK .absent, onK .absent, .settle 0 true, onK .absent, onK .absent] s ∧
      ¬ (live s "k").length ≤ oneWaiter.maxWaitersPerKey := by
  constructor
  · obtain ⟨s, hs⟩ : ∃ s, (machine oneWaiter).exec (machine oneWaiter).init
        [onK .absent, onK (.ms 0), .timeout 0 1] = some s := ⟨_, rfl⟩
    have hlive : live s "k" = [] := by
      cases hs
      decide +kernel
    refine ⟨s, withLock oneWaiter s ⟨some "k", true, .absent⟩, runs_of_exec hs, rfl, hlive,
      fun h => ?_⟩
    have hfull := h ⟨2, "k", 0⟩ "k" 1
      (by cases hs; decide +kernel) (by cases hs; decide +kernel)
    rw [hlive] at hfull
    exact absurd hfull (by decide)
  · obtain ⟨s, hs⟩ : ∃ s, (machine oneWaiter).exec (machine oneWaiter).init
        [onK .absent, .clear, onK .absent, onK .absent, .settle 0 true, onK .absent,
          onK .absent] = some s := ⟨_, rfl⟩
    refine ⟨s, runs_of_exec hs, ?_⟩
    cases hs
    decide +kernel

/-- The bound and the refusals behind a running section with one waiter. -/
theorem waiters_of_owned_example : ∃ s,
    (machine oneWaiter).Runs (fun s a => ¬ Unowned s a) [onK .absent, onK (.ms 0)] s ∧
    (∀ key, (live s key).length ≤ oneWaiter.maxWaitersPerKey) ∧
      ∀ a s', (machine oneWaiter).next s a = some s' →
        (RefusedFull oneWaiter s s' ↔ crowded oneWaiter s a = false) :=
  have hrun : (machine oneWaiter).Runs (fun s a => ¬ Unowned s a) _ _ :=
    runs_of_execIf (fun s a (h : !decide (Unowned s a)) => by simpa using h) rfl
  ⟨_, hrun, waiters_of_owned oneWaiter hrun⟩

end BunServe.Lock
