import BunServe.Queue.Invariant

/-!
# BunServe.Queue.Moves

What one task or one key changing place does to the invariant of the queue: a
task starts (`inv_start`), settles (`inv_finish`), is cleared (`inv_rejectOne`)
or joins its key (`inv_enqueue`); a key is registered (`inv_register`) or
forgotten (`inv_cleanup`).

Each is one change of one object, so every layer follows from what holds of the
other objects and of the new value (`put_forall`, `register_forall`), and the
places from one task crossing between two lists (`waiting_shift`,
`waiting_push`).
-/

namespace BunServe.Queue

open Function (update update_of_ne)
open List (append_assoc countP_append length_append)

/-! ## one task changes place -/

section Moves

variable {o : Options} {s s' : State} {hole : Option Nat} {k : JsString} {r : Nat} {v : KeyQueue}

theorem put_forall {P : JsString → Nat → KeyQueue → Prop} (hreg : Registry s)
    (h : s.queues.get? k = some r)
    (hold : ∀ k' r', s.queues.get? k' = some r' → r' ≠ r → P k' r' (s.heap r')) (hnew : P k r v) :
    ∀ k' r', s.queues.get? k' = some r' → P k' r' ((s.put r v).heap r') := by
  intro k' r' hr'
  by_cases hr : r' = r
  · subst hr
    obtain rfl := hreg.inj k k' r' h hr'
    rw [put_self]
    exact hnew
  · rw [put_ne hr]
    exact hold k' r' hr' hr

theorem put_field {P : JsString → Nat → KeyQueue → Prop} (hreg : Registry s)
    (h : s.queues.get? k = some r) (hold : ∀ k' r', s.queues.get? k' = some r' → P k' r' (s.heap r'))
    (hnew : P k r v) : ∀ k' r', s.queues.get? k' = some r' → P k' r' ((s.put r v).heap r') :=
  put_forall hreg h (fun k' r' hr' _ => hold k' r' hr') hnew

/-- What holds of the work of one object, under its key. -/
structure Held (o : Options) (flights started : List Flight) (k : JsString) (r : Nat)
    (q : KeyQueue) : Prop where
  fifo : q.items.Ok
  perKey : q.running = (flights.countP fun f => f.q = r : Nat)
  bounded : q.running ≤ o.concurrency
  queued : ∀ t ∈ q.items.list, t.key = k
  sorted : q.items.list.Pairwise fun t t' => t.id < t'.id
  ahead : ∀ f ∈ started, f.task.key = k → ∀ t ∈ q.items.list, f.task.id < t.id

/-- The work of every object. -/
def AllHeld (o : Options) (s : State) : Prop :=
  ∀ k r, s.queues.get? k = some r → Held o s.flights s.started k r (s.heap r)

theorem Work.held (hi : Work o s) : AllHeld o s := fun k r h =>
  ⟨hi.fifo k r h, hi.perKey k r h, hi.bounded k r h, hi.queued k r h, hi.sorted k r h,
    hi.ahead k r h⟩

theorem Placed.work (hp : Placed s) (hheld : AllHeld o s)
    (hfresh : ∀ k r, s.queues.get? k = some r → r < s.nextQueue)
    (hinj : ∀ k k' r, s.queues.get? k = some r → s.queues.get? k' = some r → k = k')
    (hflight : ∀ f ∈ s.flights, s.queues.get? f.key = some f.q ∧ f.task.key = f.key)
    (hpending : s.pendingCurrent = s.waiting.length) (hrunning : s.runningCurrent = s.flights.length)
    (hbudget : ∀ n : Int, 0 ≤ n → n < s.runningCurrent →
      JsNumber.lt (.ofInt n) o.maxRunningTotal.value)
    (hstarts : s.started.Pairwise fun f f' => f.task.key = f'.task.key → f.task.id < f'.task.id)
    (hknown : ∀ f ∈ s.started, f.task ∈ s.pushed) : Work o s :=
  { hp with
    fresh := hfresh, inj := hinj, flight := hflight, pending := hpending, running := hrunning
    budget := hbudget, starts := hstarts, known := hknown
    fifo := fun k r h => (hheld k r h).fifo
    perKey := fun k r h => (hheld k r h).perKey
    bounded := fun k r h => (hheld k r h).bounded
    queued := fun k r h => (hheld k r h).queued
    sorted := fun k r h => (hheld k r h).sorted
    ahead := fun k r h => (hheld k r h).ahead }

theorem lined_put (hi : Lined o s) (hq : s'.queues = s.queues)
    (hl : s'.serviceLine = s.serviceLine) (hh : s'.heap = (s.put r v).heap)
    (hnode : v.lineNode = (s.heap r).lineNode)
    (hstart : (s.heap r).lineNode ≠ none → startable o v = true) : Lined o s' := by
  have hlines : ∀ r', (s'.heap r').lineNode = (s.heap r').lineNode := by
    intro r'
    rw [hh]
    by_cases hr : r' = r
    · subst hr
      rw [put_self, hnode]
    · rw [put_ne hr]
  constructor
  · rw [hl]
    exact hi.linked
  · simpa only [hq, hl, hlines] using hi.named
  · simpa only [hq, hl, hlines] using hi.placed
  intro k' r' i hr' hi'
  rw [hq] at hr'
  rw [hlines] at hi'
  rw [hh]
  by_cases hr : r' = r
  · subst hr
    rw [put_self]
    apply hstart
    rw [hi']
    simp
  · rw [put_ne hr]
    exact hi.ready k' r' i hr' hi'

theorem marked_put (hm : Marked o hole s) (hhole : ∀ r' ≠ r, some r' ≠ hole)
    (hq : s'.queues = s.queues) (hh : ∀ r' ≠ r, s'.heap r' = s.heap r') : Marked o (some r) s' := by
  intro k' r' hr' hne hst
  have hne : r' ≠ r := by simpa using hne
  rw [hh r' hne] at hst ⊢
  exact hm k' r' (hq ▸ hr') (hhole r' hne) hst

theorem Registry.shift (hreg : Registry s) (h : s.queues.get? k = some r)
    (hsize : (s.heap r).items.size ≠ 0) :
    ∃ t items, (s.heap r).items.shift = some (t, items) ∧ items.Ok ∧
      (s.heap r).items.list = t :: items.list := by
  have hok := hreg.fifo k r h
  cases hok.shift with
  | inl hnil =>
    rw [hok.size_eq, hnil.1] at hsize
    exact absurd rfl hsize
  | inr hcons => exact hcons

theorem ordered_shift (hi : Work o s) (h : s.queues.get? k = some r) {t : Task}
    {items : Fifo Task} (hlist : (s.heap r).items.list = t :: items.list) :
    t.key = k ∧ t ∈ s.waiting ∧ (∀ t' ∈ items.list, t'.key = k ∧ t.id < t'.id) ∧
      items.list.Pairwise fun t t' => t.id < t'.id := by
  have hqueued := hi.queued k r h
  have hsorted := hi.sorted k r h
  rw [hlist] at hqueued hsorted
  obtain ⟨hfirst, hrest⟩ := List.pairwise_cons.mp hsorted
  refine ⟨hqueued t (by simp), mem_waiting h (by simp [hlist]), ?_, hrest⟩
  intro t' ht'
  exact ⟨hqueued t' (List.mem_cons_of_mem _ ht'), hfirst t' ht'⟩

/-! ### starting a task -/

section Start

variable {t : Task} {items : Fifo Task}

/-- `start` on a key with waiting work. -/
theorem start_eq (hshift : (s.heap r).items.shift = some (t, items)) :
    start s k r =
      { s.put r { s.heap r with items := items, running := (s.heap r).running + 1 } with
        pendingCurrent := s.pendingCurrent - 1
        runningCurrent := s.runningCurrent + 1
        totals := { s.totals with runningPeak := max s.totals.runningPeak (s.runningCurrent + 1) }
        jobs := s.jobs ++ [⟨t, k, r⟩] } := by
  simp only [start, hshift]

theorem flights_start (hshift : (s.heap r).items.shift = some (t, items)) :
    (start s k r).flights.Perm (⟨t, k, r⟩ :: s.flights) := by
  rw [start_eq hshift, State.flights, append_assoc]
  exact List.perm_middle

theorem started_start (hshift : (s.heap r).items.shift = some (t, items)) :
    (start s k r).started = s.started ++ [⟨t, k, r⟩] := by
  rw [start_eq hshift]
  exact (append_assoc ..).symm

theorem waiting_start (hi : Work o s) (h : s.queues.get? k = some r)
    (hshift : (s.heap r).items.shift = some (t, items))
    (hlist : (s.heap r).items.list = t :: items.list) :
    s.waiting.Perm (t :: (start s k r).waiting) := by
  rw [start_eq hshift]
  exact waiting_shift hi.toRegistry h hlist

theorem placed_start (hi : Work o s) (h : s.queues.get? k = some r)
    (hshift : (s.heap r).items.shift = some (t, items))
    (hlist : (s.heap r).items.list = t :: items.list) : Placed (start s k r) := by
  have hflights := (flights_start (k := k) hshift).map Flight.task
  have hwaiting := waiting_start hi h hshift hlist
  have hplaces : ((start s k r).waiting ++ (start s k r).flights.map Flight.task).Perm
      (s.waiting ++ s.flights.map Flight.task) := by
    have hjoin : ((start s k r).waiting ++ (start s k r).flights.map Flight.task).Perm
        ((start s k r).waiting ++ t :: s.flights.map Flight.task) := hflights.append_left _
    have hfront : ((start s k r).waiting ++ t :: s.flights.map Flight.task).Perm
        (t :: ((start s k r).waiting ++ s.flights.map Flight.task)) := List.perm_middle
    exact hjoin.trans (hfront.trans (hwaiting.symm.append_right _))
  have hall := (hplaces.append_right (s.settled.map Prod.fst)).trans hi.places
  rw [start_eq hshift] at hall ⊢
  exact ⟨hi.ids, hall, hi.pushedTotal, hi.completedTotal, hi.failedTotal, hi.settledTotal⟩

theorem work_start (hi : Work o s) (h : s.queues.get? k = some r)
    (hshift : (s.heap r).items.shift = some (t, items))
    (hlist : (s.heap r).items.list = t :: items.list) (hok : items.Ok)
    (hconc : (s.heap r).running < o.concurrency) (hroom : hasRoom o s) :
    Work o (start s k r) := by
  obtain ⟨hkey, hmem, hbehind, hsorted⟩ := ordered_shift hi h hlist
  have hflights := flights_start (k := k) hshift
  have hstarted := started_start (k := k) hshift
  have hplaced := placed_start hi h hshift hlist
  have hwaiting := (waiting_start hi h hshift hlist).length_eq
  have hlen := hflights.length_eq
  have hpending := hi.pending
  have hrunning := hi.running
  have hids : ∀ f ∈ s.started, f.task.key = k → f.task.id < t.id := fun f hf hfk =>
    hi.ahead k r h f hf hfk t (by simp [hlist])
  have hcases : ∀ f ∈ (start s k r).started, f ∈ s.started ∨ f = ⟨t, k, r⟩ := by
    intro f hf
    rw [hstarted] at hf
    simpa using hf
  have hcount : ∀ r', (start s k r).flights.countP (fun f => f.q = r') =
      s.flights.countP (fun f => f.q = r') + if r = r' then 1 else 0 := by
    intro r'
    rw [hflights.countP_eq, List.countP_cons]
    simp
  have hheld := put_forall (v := { s.heap r with items := items, running := (s.heap r).running + 1 })
    (P := Held o (start s k r).flights (start s k r).started) hi.toRegistry h ?_ ?_
  · simp only [List.length_cons] at hwaiting hlen
    rw [start_eq hshift] at hheld hflights hstarted hplaced hwaiting hlen hcases ⊢
    refine hplaced.work hheld hi.fresh hi.inj (fun f hf => ?_) ?_ ?_ (fun n hn hlt => ?_) ?_ ?_
    · cases List.mem_cons.mp (hflights.mem_iff.mp hf) with
      | inl hnew =>
        subst hnew
        exact ⟨h, hkey⟩
      | inr hold => exact hi.flight f hold
    · show s.pendingCurrent - 1 = _
      omega
    · show s.runningCurrent + 1 = _
      omega
    · have hlt' : n < s.runningCurrent + 1 := hlt
      by_cases heq : n = s.runningCurrent
      · subst heq
        exact hroom
      · exact hi.budget n hn (by omega)
    · rw [hstarted]
      refine List.pairwise_append.mpr ⟨hi.starts, by simp, fun f hf f' hf' hkeys => ?_⟩
      obtain rfl : f' = ⟨t, k, r⟩ := by simpa using hf'
      exact hids f hf (hkeys.trans hkey)
    · intro f hf
      cases hcases f hf with
      | inl hold => exact hi.known f hold
      | inr hnew =>
        subst hnew
        exact hi.toPlaced.waiting_pushed hmem
  · intro k' r' hr' hne
    refine { hi.held k' r' hr' with perKey := ?_, ahead := fun f hf hfk => ?_ }
    · rw [hcount, if_neg (Ne.symm hne)]
      exact hi.perKey k' r' hr'
    · cases hcases f hf with
      | inl hold => exact hi.ahead k' r' hr' f hold hfk
      | inr hnew =>
        subst hnew
        obtain rfl : k = k' := hkey.symm.trans hfk
        rw [h] at hr'
        exact absurd (Option.some.inj hr').symm hne
  · refine ⟨hok, ?_, ?_, fun t' ht' => (hbehind t' ht').1, hsorted, fun f hf hfk t' ht' => ?_⟩
    · rw [hcount, if_pos rfl, hi.perKey k r h]
      rfl
    · show (s.heap r).running + 1 ≤ _
      omega
    · cases hcases f hf with
      | inl hold => exact Nat.lt_trans (hids f hold hfk) (hbehind t' ht').2
      | inr hnew =>
        subst hnew
        exact (hbehind t' ht').2

theorem inv_start (hi : Inv o hole s) (h : s.queues.get? k = some r)
    (hstart : startable o (s.heap r) = true) (hroom : hasRoom o s)
    (hnode : (s.heap r).lineNode = none) : Inv o hole (start s k r) := by
  obtain ⟨hsize, hconc⟩ := startable_iff.mp hstart
  obtain ⟨t, items, hshift, hok, hlist⟩ := hi.toRegistry.shift h hsize
  have hnonneg := hi.toWork.running_nonneg h
  have hlined : Lined o (start s k r) := by
    apply lined_put
      hi.toLined
    · rw [start_eq hshift]; rfl
    · rw [start_eq hshift]; rfl
    · rw [start_eq hshift]
    · rfl
    · intro hsome
      exact absurd hnode hsome
  refine { work_start hi.toWork h hshift hlist hok hconc hroom, hlined with live := ?_ }
  rw [start_eq hshift]
  apply put_forall (P := fun _ r' q => some r' ≠ hole → q.items.size ≠ 0 ∨ q.running ≠ 0)
    hi.toRegistry h
  · intro k' r' hr' _
    exact hi.live k' r' hr'
  · intro _
    right
    show (s.heap r).running + 1 ≠ 0
    omega

theorem marked_start (hm : Marked o (some r) s) : Marked o (some r) (start s k r) := by
  unfold start
  split
  · exact hm
  · exact marked_put hm (by simp) rfl fun _ => put_ne

end Start

/-! ### settling a task -/

section Finish

variable {f : Flight} {ok : Bool}

variable (ok) in
theorem flights_finish (hf : f ∈ s.active) : s.flights.Perm (f :: (finish s f ok).flights) := by
  have hperm := (List.perm_cons_erase hf).append_left s.jobs
  exact hperm.trans List.perm_middle

theorem waiting_finish : (finish s f ok).waiting = s.waiting :=
  waiting_same rfl

theorem placed_finish (hi : Work o s) (hf : f ∈ s.active) : Placed (finish s f ok) := by
  have hflights := (flights_finish ok hf).map Flight.task
  have hplaces : ((finish s f ok).waiting ++ (finish s f ok).flights.map Flight.task ++
      (finish s f ok).settled.map Prod.fst).Perm
      (s.waiting ++ s.flights.map Flight.task ++ s.settled.map Prod.fst) := by
    have hsettled : (finish s f ok).settled.map Prod.fst = s.settled.map Prod.fst ++ [f.task] := by
      simp [finish]
    rw [hsettled, waiting_finish, ← append_assoc, append_assoc, append_assoc,
      append_assoc]
    apply List.Perm.append_left
    have hfront := hflights.symm.append_right (s.settled.map Prod.fst)
    refine List.Perm.trans ?_ hfront
    rw [← append_assoc]
    exact List.perm_append_comm
  have hall := hplaces.trans hi.places
  have hcompleted := hi.completedTotal
  have hfailed := hi.failedTotal
  have htotal := hi.settledTotal
  cases ok with
  | true =>
    refine ⟨hi.ids, hall, hi.pushedTotal, ?_, ?_, ?_⟩
    · show s.totals.completedTotal + 1 = (s.settled ++ [(f.task, Outcome.completed)]).countP _
      rw [countP_append, ← hcompleted]
      rfl
    · show s.totals.failedTotal = (s.settled ++ [(f.task, Outcome.completed)]).countP _
      rw [countP_append, ← hfailed]
      rfl
    · show s.totals.completedTotal + 1 + s.totals.failedTotal + s.totals.clearedTotal =
        (s.settled ++ [(f.task, Outcome.completed)]).length
      rw [length_append, List.length_singleton]
      omega
  | false =>
    refine ⟨hi.ids, hall, hi.pushedTotal, ?_, ?_, ?_⟩
    · show s.totals.completedTotal = (s.settled ++ [(f.task, Outcome.failed)]).countP _
      rw [countP_append, ← hcompleted]
      rfl
    · show s.totals.failedTotal + 1 = (s.settled ++ [(f.task, Outcome.failed)]).countP _
      rw [countP_append, ← hfailed]
      rfl
    · show s.totals.completedTotal + (s.totals.failedTotal + 1) + s.totals.clearedTotal =
        (s.settled ++ [(f.task, Outcome.failed)]).length
      rw [length_append, List.length_singleton]
      omega

theorem work_finish (hi : Work o s) (hf : f ∈ s.active) : Work o (finish s f ok) := by
  have hq := (hi.flight f (List.mem_append_right _ hf)).1
  have hflights := flights_finish ok hf
  have hlen := hflights.length_eq
  have hrunning := hi.running
  have hcount : ∀ r', s.flights.countP (fun f => f.q = r') =
      (finish s f ok).flights.countP (fun f => f.q = r') + if f.q = r' then 1 else 0 := by
    intro r'
    rw [hflights.countP_eq, List.countP_cons]
    simp
  simp only [List.length_cons] at hlen
  refine (placed_finish hi hf).work (put_forall (P := Held o (finish s f ok).flights s.started)
    hi.toRegistry hq (fun k' r' hr' hne => ?_) ?_) hi.fresh hi.inj (fun g hg => ?_) ?_ ?_
    (fun n hn hlt => ?_) hi.starts hi.known
  · have hold := hi.held k' r' hr'
    refine { hold with perKey := ?_ }
    rw [hold.perKey, hcount, if_neg (Ne.symm hne)]
    rfl
  · have hold := hi.held f.key f.q hq
    have hkey := hold.perKey
    rw [hcount, if_pos rfl] at hkey
    refine { hold with perKey := ?_, bounded := ?_ }
    · show (s.heap f.q).running - 1 = _
      omega
    · have hbounded := hold.bounded
      show (s.heap f.q).running - 1 ≤ _
      omega
  · exact hi.flight g (hflights.mem_iff.mpr (List.mem_cons_of_mem _ hg))
  · rw [waiting_finish]
    exact hi.pending
  · show s.runningCurrent - 1 = _
    omega
  · have hlt' : n < s.runningCurrent - 1 := hlt
    exact hi.budget n hn (by omega)

theorem inv_finish (hi : Inv o none s) (hf : f ∈ s.active) : Inv o (some f.q) (finish s f ok) := by
  have hmem : f ∈ s.flights := List.mem_append_right _ hf
  have hq := (hi.flight f hmem).1
  have hlined : Lined o (finish s f ok) := by
    apply lined_put
      hi.toLined
    · rfl
    · rfl
    · rfl
    · rfl
    · intro hsome
      obtain ⟨i, hnode⟩ := Option.ne_none_iff_exists'.mp hsome
      obtain ⟨hsize, hconc⟩ := startable_iff.mp (hi.ready f.key f.q i hq hnode)
      refine startable_iff.mpr ⟨hsize, ?_⟩
      show (s.heap f.q).running - 1 < _
      omega
  refine { work_finish hi.toWork hf, hlined with live := ?_ }
  apply put_forall (P := fun _ r' q => some r' ≠ some f.q → q.items.size ≠ 0 ∨ q.running ≠ 0)
    hi.toRegistry hq
  · intro k' r' hr' _ _
    exact hi.live k' r' hr' (by simp)
  · intro hne
    exact absurd rfl hne

theorem marked_finish (hm : Marked o none s) : Marked o (some f.q) (finish s f ok) :=
  marked_put hm (by simp) rfl fun _ => put_ne

end Finish

/-! ### rejecting a waiting task -/

section Reject

variable {t : Task} {items : Fifo Task}

theorem rejectOne_eq (hshift : (s.heap r).items.shift = some (t, items)) :
    rejectOne s k r =
      { s.put r { s.heap r with items := items } with
        pendingCurrent := s.pendingCurrent - 1
        totals := { s.totals with clearedTotal := s.totals.clearedTotal + 1 }
        settled := s.settled ++ [(t, .cleared k)] } := by
  simp only [rejectOne, hshift]

theorem waiting_rejectOne (hi : Work o s) (h : s.queues.get? k = some r)
    (hshift : (s.heap r).items.shift = some (t, items))
    (hlist : (s.heap r).items.list = t :: items.list) :
    s.waiting.Perm (t :: (rejectOne s k r).waiting) := by
  rw [rejectOne_eq hshift]
  exact waiting_shift hi.toRegistry h hlist

theorem placed_rejectOne (hi : Work o s) (h : s.queues.get? k = some r)
    (hshift : (s.heap r).items.shift = some (t, items))
    (hlist : (s.heap r).items.list = t :: items.list) : Placed (rejectOne s k r) := by
  have hwaiting := waiting_rejectOne hi h hshift hlist
  have hplaces : ((rejectOne s k r).waiting ++ s.flights.map Flight.task ++
      (s.settled.map Prod.fst ++ [t])).Perm s.pushed := by
    have hback : ((rejectOne s k r).waiting ++ s.flights.map Flight.task ++
        (s.settled.map Prod.fst ++ [t])).Perm (t :: ((rejectOne s k r).waiting ++
          s.flights.map Flight.task ++ s.settled.map Prod.fst)) := by
      rw [← append_assoc]
      exact List.perm_append_singleton ..
    have hfront := (hwaiting.symm.append_right (s.flights.map Flight.task)).append_right
      (s.settled.map Prod.fst)
    exact hback.trans (hfront.trans hi.places)
  have hcompleted := hi.completedTotal
  have hfailed := hi.failedTotal
  have htotal := hi.settledTotal
  rw [rejectOne_eq hshift] at hplaces ⊢
  refine ⟨hi.ids, ?_, hi.pushedTotal, ?_, ?_, ?_⟩
  · rw [List.map_append]
    exact hplaces
  · rw [countP_append, ← hcompleted]
    rfl
  · rw [countP_append, ← hfailed]
    rfl
  · show s.totals.completedTotal + s.totals.failedTotal + (s.totals.clearedTotal + 1) = _
    rw [length_append, List.length_singleton]
    omega

theorem work_rejectOne (hi : Work o s) (h : s.queues.get? k = some r)
    (hsize : (s.heap r).items.size ≠ 0) : Work o (rejectOne s k r) := by
  obtain ⟨t, items, hshift, hok, hlist⟩ := hi.toRegistry.shift h hsize
  obtain ⟨-, -, hbehind, hsorted⟩ := ordered_shift hi h hlist
  have hwaiting := (waiting_rejectOne hi h hshift hlist).length_eq
  have hplaced := placed_rejectOne hi h hshift hlist
  have hpending : (rejectOne s k r).pendingCurrent = (rejectOne s k r).waiting.length := by
    have hold := hi.pending
    have hp : (rejectOne s k r).pendingCurrent = s.pendingCurrent - 1 := by
      rw [rejectOne_eq hshift]
    simp only [List.length_cons] at hwaiting
    omega
  rw [rejectOne_eq hshift] at hplaced hpending ⊢
  refine hplaced.work (put_field (P := Held o s.flights s.started) hi.toRegistry h hi.held
    { hi.held k r h with
      fifo := hok, queued := fun t' ht' => (hbehind t' ht').1, sorted := hsorted, ahead := ?_ })
    hi.fresh hi.inj hi.flight hpending hi.running hi.budget hi.starts hi.known
  intro g hg hgk t' ht'
  exact hi.ahead k r h g hg hgk t' (by simp [hlist, ht'])

theorem inv_rejectOne (hi : Inv o (some r) s) (h : s.queues.get? k = some r)
    (hnode : (s.heap r).lineNode = none) (hsize : (s.heap r).items.size ≠ 0) :
    Inv o (some r) (rejectOne s k r) ∧ ((rejectOne s k r).heap r).lineNode = none ∧
      ((rejectOne s k r).heap r).items.size + 1 = (s.heap r).items.size ∧
      (rejectOne s k r).queues = s.queues := by
  have hwork := work_rejectOne hi.toWork h hsize
  obtain ⟨t, items, hshift, hok, hlist⟩ := hi.toRegistry.shift h hsize
  have hcount : items.size + 1 = (s.heap r).items.size := by
    rw [hi.toRegistry.size_eq h, hlist, hok.size_eq]
    rfl
  rw [rejectOne_eq hshift] at hwork ⊢
  refine ⟨{ hwork, (?_ : Lined o _) with live := ?_ }, ?_, ?_, rfl⟩
  · apply lined_put hi.toLined
    · rfl
    · rfl
    · rfl
    · rfl
    · intro hsome
      exact absurd hnode hsome
  · refine put_field (P := fun _ r' q => some r' ≠ some r → q.items.size ≠ 0 ∨ q.running ≠ 0)
      hi.toRegistry h hi.live ?_
    intro hne
    exact absurd rfl hne
  · rw [put_self]
    exact hnode
  · rw [put_self]
    exact hcount

theorem marked_rejectOne (hm : Marked o (some r) s) : Marked o (some r) (rejectOne s k r) := by
  unfold rejectOne
  split
  · exact hm
  · exact marked_put hm (by simp) rfl fun _ => put_ne

end Reject

/-! ### accepting a task -/

section Enqueue

theorem waiting_enqueue (hi : Work o s) (h : s.queues.get? k = some r) :
    (enqueue s k r).waiting.Perm (⟨s.pushed.length, k⟩ :: s.waiting) := by
  apply waiting_push hi.toRegistry h
  exact (hi.fifo k r h).list_push _

theorem placed_enqueue (hi : Work o s) (h : s.queues.get? k = some r) : Placed (enqueue s k r) := by
  have hwaiting := waiting_enqueue hi h
  have hplaces : ((enqueue s k r).waiting ++ s.flights.map Flight.task ++
      s.settled.map Prod.fst).Perm (s.pushed ++ [⟨s.pushed.length, k⟩]) := by
    have hfront := (hwaiting.append_right (s.flights.map Flight.task)).append_right
      (s.settled.map Prod.fst)
    exact hfront.trans ((hi.places.cons _).trans (List.perm_append_singleton ..).symm)
  refine ⟨?_, hplaces, ?_, hi.completedTotal, hi.failedTotal, hi.settledTotal⟩
  · show (s.pushed ++ [_]).map Task.id = List.range (s.pushed ++ [_]).length
    rw [List.map_append, hi.ids, length_append, List.length_singleton, List.range_succ]
    rfl
  · show s.totals.pushedTotal + 1 = (s.pushed ++ [_]).length
    rw [hi.pushedTotal, length_append, List.length_singleton]

theorem work_enqueue (hi : Work o s) (h : s.queues.get? k = some r) : Work o (enqueue s k r) := by
  have hwaiting := (waiting_enqueue hi h).length_eq
  have hpending := hi.pending
  have hlist := (hi.fifo k r h).list_push ⟨s.pushed.length, k⟩
  simp only [List.length_cons] at hwaiting
  refine (placed_enqueue hi h).work (put_field (P := Held o s.flights s.started) hi.toRegistry h
    hi.held { hi.held k r h with
      fifo := (hi.fifo k r h).push _, queued := fun t ht => ?_, sorted := ?_
      ahead := fun g hg hgk t ht => ?_ })
    hi.fresh hi.inj hi.flight ?_ hi.running hi.budget hi.starts
    fun g hg => List.mem_append_left _ (hi.known g hg)
  · rw [hlist] at ht
    cases List.mem_append.mp ht with
    | inl hold => exact hi.queued k r h t hold
    | inr hnew => rw [List.mem_singleton.mp hnew]
  · rw [hlist]
    refine List.pairwise_append.mpr ⟨hi.sorted k r h, by simp, fun t ht t' ht' => ?_⟩
    rw [List.mem_singleton.mp ht']
    exact hi.toPlaced.id_lt (hi.toPlaced.waiting_pushed (mem_waiting h ht))
  · rw [hlist] at ht
    cases List.mem_append.mp ht with
    | inl hold => exact hi.ahead k r h g hg hgk t hold
    | inr hnew =>
      rw [List.mem_singleton.mp hnew]
      exact hi.toPlaced.id_lt (hi.known g hg)
  · show s.pendingCurrent + 1 = _
    omega

theorem inv_enqueue (hi : Inv o (some r) s) (h : s.queues.get? k = some r) :
    Inv o none (enqueue s k r) := by
  have hcount : ((s.heap r).items.push ⟨s.pushed.length, k⟩).size ≠ 0 := by
    rw [((hi.fifo k r h).push _).size_eq, (hi.fifo k r h).list_push]
    simp
  refine { work_enqueue hi.toWork h, (?_ : Lined o _) with live := ?_ }
  · apply lined_put
      hi.toLined
    · rfl
    · rfl
    · rfl
    · rfl
    · intro hsome
      obtain ⟨i, hnode⟩ := Option.ne_none_iff_exists'.mp hsome
      obtain ⟨-, hconc⟩ := startable_iff.mp (hi.ready k r i h hnode)
      exact startable_iff.mpr ⟨hcount, hconc⟩
  · apply put_forall (P := fun _ r' q => some r' ≠ none → q.items.size ≠ 0 ∨ q.running ≠ 0)
      hi.toRegistry h
    · intro k' r' hr' hne _
      exact hi.live k' r' hr' (by simpa using hne)
    · intro _
      exact Or.inl hcount

theorem marked_enqueue (hm : Marked o (some r) s) : Marked o (some r) (enqueue s k r) :=
  marked_put hm (by simp) rfl fun _ => put_ne

end Enqueue

end Moves

/-! ## keys come and go -/

section Keys

variable {o : Options} {s : State} {hole : Option Nat} {k : JsString} {r : Nat}

/-- What a lookup answers after `register`. -/
theorem get_register (k' : JsString) :
    (register s k).queues.get? k' = if k' = k then some s.nextQueue else s.queues.get? k' :=
  JsMap.get?_set ..

theorem register_forall {P : JsString → Nat → KeyQueue → Prop} (hreg : Registry s)
    (hold : ∀ k' r', s.queues.get? k' = some r' → P k' r' (s.heap r'))
    (hnew : P k s.nextQueue emptyQueue) :
    ∀ k' r', (register s k).queues.get? k' = some r' → P k' r' ((register s k).heap r') := by
  intro k' r' hr'
  rw [get_register] at hr'
  by_cases hk : k' = k
  · subst hk
    rw [if_pos rfl] at hr'
    cases hr'
    show P k' s.nextQueue (update s.heap s.nextQueue emptyQueue s.nextQueue)
    rw [Function.update_self]
    exact hnew
  · rw [if_neg hk] at hr'
    have hne : r' ≠ s.nextQueue := Nat.ne_of_lt (hreg.fresh k' r' hr')
    show P k' r' (update s.heap s.nextQueue emptyQueue r')
    rw [update_of_ne hne]
    exact hold k' r' hr'

theorem waiting_register (hreg : Registry s) (h : s.queues.get? k = none) :
    (register s k).waiting = s.waiting := by
  have hvalues : (register s k).queues.values = s.queues.values ++ [s.nextQueue] :=
    JsMap.values_set_new h _
  have hheap : (register s k).heap s.nextQueue = emptyQueue := Function.update_self ..
  rw [State.waiting, hvalues, List.flatMap_append, List.flatMap_singleton, hheap]
  have hnil : emptyQueue.items.list = [] := rfl
  rw [hnil, List.append_nil]
  apply List.flatMap_congr
  intro r' hr'
  obtain ⟨k', hk'⟩ := JsMap.mem_values_iff.mp hr'
  have hne : r' ≠ s.nextQueue := Nat.ne_of_lt (hreg.fresh k' r' hk')
  show (update s.heap s.nextQueue emptyQueue r').items.list = _
  rw [update_of_ne hne]

theorem work_register (hi : Work o s) (h : s.queues.get? k = none) : Work o (register s k) := by
  have hcount : s.flights.countP (fun f => f.q = s.nextQueue) = 0 := by
    apply List.countP_eq_zero.mpr
    intro f hf
    have hlt := hi.fresh _ _ (hi.flight f hf).1
    simpa using Nat.ne_of_lt hlt
  have hwaiting := waiting_register hi.toRegistry h
  have hplaced : Placed (register s k) := { hi.toPlaced with places := hwaiting ▸ hi.places }
  refine hplaced.work (register_forall (P := Held o s.flights s.started) hi.toRegistry hi.held ?_)
    ?_ (fun k₁ k₂ r' h₁ h₂ => ?_) (fun f hf => ?_) (hwaiting ▸ hi.pending) hi.running hi.budget
    hi.starts hi.known
  · exact ⟨Fifo.holds_create.ok, by rw [hcount]; rfl, Int.natCast_nonneg _,
      fun t ht => absurd ht List.not_mem_nil, .nil, fun _ _ _ t ht => absurd ht List.not_mem_nil⟩
  · apply register_forall (P := fun _ r' _ => r' < s.nextQueue + 1) hi.toRegistry
    · intro k' r' hr'
      exact Nat.lt_succ_of_lt (hi.fresh k' r' hr')
    · exact Nat.lt_succ_self _
  · rw [get_register] at h₁ h₂
    by_cases hk₁ : k₁ = k
    · by_cases hk₂ : k₂ = k
      · rw [hk₁, hk₂]
      · rw [if_pos hk₁] at h₁
        rw [if_neg hk₂] at h₂
        cases h₁
        exact absurd (hi.fresh k₂ _ h₂) (Nat.lt_irrefl _)
    · rw [if_neg hk₁] at h₁
      by_cases hk₂ : k₂ = k
      · rw [if_pos hk₂] at h₂
        cases h₂
        exact absurd (hi.fresh k₁ _ h₁) (Nat.lt_irrefl _)
      · rw [if_neg hk₂] at h₂
        exact hi.inj k₁ k₂ r' h₁ h₂
  · obtain ⟨hq, hkey⟩ := hi.flight f hf
    refine ⟨?_, hkey⟩
    have hne : f.key ≠ k := by
      rintro heq
      rw [heq, h] at hq
      contradiction
    rw [get_register, if_neg hne, hq]

theorem lined_register (hi : Lined o s) (hreg : Registry s) (h : s.queues.get? k = none) :
    Lined o (register s k) := by
  refine ⟨hi.linked, ?_, ?_, ?_⟩
  · intro i hmem
    obtain ⟨r', hr', hnode⟩ := hi.named i hmem
    have hne : r' ≠ s.nextQueue := Nat.ne_of_lt (hreg.fresh _ r' hr')
    have hkey : s.serviceLine.key i ≠ k := by
      intro heq
      rw [heq, h] at hr'
      contradiction
    refine ⟨r', ?_, ?_⟩
    · show (register s k).queues.get? (s.serviceLine.key i) = some r'
      rw [get_register, if_neg hkey, hr']
    · show (update s.heap s.nextQueue emptyQueue r').lineNode = some i
      rw [update_of_ne hne, hnode]
  · intro k' r' i
    apply register_forall (P := fun k' r' q => q.lineNode = some i →
      i ∈ s.serviceLine.ids ∧ s.serviceLine.key i = k') hreg
    · intro k' r' hr'
      exact hi.placed k' r' i hr'
    · intro hsome
      contradiction
  · intro k' r' i
    apply register_forall (P := fun k' r' q => q.lineNode = some i → startable o q = true) hreg
    · intro k' r' hr'
      exact hi.ready k' r' i hr'
    · intro hsome
      contradiction

theorem inv_register (hi : Inv o none s) (h : s.queues.get? k = none) :
    Inv o (some s.nextQueue) (register s k) := by
  refine { work_register hi.toWork h, lined_register hi.toLined hi.toRegistry h with live := ?_ }
  · apply register_forall (P := fun _ r' q => some r' ≠ some s.nextQueue →
      q.items.size ≠ 0 ∨ q.running ≠ 0) hi.toRegistry
    · intro k' r' hr' _
      exact hi.live k' r' hr' (by simp)
    · intro hne
      exact absurd rfl hne

theorem marked_register (hreg : Registry s) (hm : Marked o none s) :
    Marked o (some s.nextQueue) (register s k) := by
  apply register_forall (P := fun _ r' q => some r' ≠ some s.nextQueue → startable o q = true →
    q.lineNode ≠ none) hreg
  · intro k' r' hr' _ hst
    exact hm k' r' hr' (by simp) hst
  · intro hne
    exact absurd rfl hne

/-- `queues.delete(k)`, with its drains resolved. -/
def forget (s : State) (k : JsString) (drains : List Nat) : State :=
  { s with queues := s.queues.delete k, drained := s.drained ++ drains }

variable {d : List Nat}

theorem get_forget {k' : JsString} {r' : Nat}
    (h : (forget s k d).queues.get? k' = some r') : k' ≠ k ∧ s.queues.get? k' = some r' := by
  have hget : (forget s k d).queues.get? k' = if k' = k then none else s.queues.get? k' :=
    JsMap.get?_delete ..
  rw [hget] at h
  by_cases hk : k' = k
  · rw [if_pos hk] at h
    contradiction
  · rw [if_neg hk] at h
    exact ⟨hk, h⟩

theorem waiting_forget (h : s.queues.get? k = some r)
    (hlist : (s.heap r).items.list = []) : s.waiting.Perm (forget s k d).waiting := by
  have hperm := (JsMap.perm_values_delete h).flatMap_right fun r => (s.heap r).items.list
  rw [List.flatMap_cons, hlist] at hperm
  exact hperm

theorem work_forget (hi : Work o s) (h : s.queues.get? k = some r)
    (hrun : (s.heap r).running = 0) (hsize : (s.heap r).items.size = 0) :
    Work o (forget s k d) := by
  have hlist : (s.heap r).items.list = [] := by
    have hlen := hi.toRegistry.size_eq h
    rw [hsize] at hlen
    exact List.eq_nil_of_length_eq_zero hlen.symm
  have hwaiting := waiting_forget (d := d) h hlist
  have hnone : ∀ f ∈ s.flights, f.q ≠ r := by
    have hcount := hi.perKey k r h
    have hzero : s.flights.countP (fun f => f.q = r) = 0 := by omega
    intro f hf
    simpa using List.countP_eq_zero.mp hzero f hf
  have hplaced : Placed (forget s k d) :=
    { hi.toPlaced with
      places := ((hwaiting.symm.append_right _).append_right _).trans hi.places }
  refine hplaced.work (fun k' r' hr' => hi.held k' r' (get_forget hr').2)
    (fun k' r' hr' => hi.fresh k' r' (get_forget hr').2)
    (fun k₁ k₂ r' h₁ h₂ => hi.inj k₁ k₂ r' (get_forget h₁).2 (get_forget h₂).2) (fun f hf => ?_)
    (hwaiting.length_eq ▸ hi.pending) hi.running hi.budget hi.starts hi.known
  obtain ⟨hq, hkey⟩ := hi.flight f hf
  have hne : f.key ≠ k := by
    intro heq
    rw [heq, h] at hq
    exact hnone f hf (Option.some.inj hq).symm
  exact ⟨(JsMap.get?_delete_ne s.queues hne).trans hq, hkey⟩

theorem lined_forget (hi : Lined o s) (h : s.queues.get? k = some r)
    (hnode : (s.heap r).lineNode = none) : Lined o (forget s k d) := by
  refine ⟨hi.linked, ?_, ?_, ?_⟩
  · intro i hmem
    obtain ⟨r', hr', hn⟩ := hi.named i hmem
    have hkey : s.serviceLine.key i ≠ k := by
      apply hi.not_in_line h hmem
      rw [hnode]
      simp
    exact ⟨r', (JsMap.get?_delete_ne s.queues hkey).trans hr', hn⟩
  · intro k' r' i hr'
    exact hi.placed k' r' i (get_forget hr').2
  · intro k' r' i hr'
    exact hi.ready k' r' i (get_forget hr').2

/-- `cleanup` forgets no other key. -/
theorem get_cleanup_ne {k' : JsString} (hne : k' ≠ k) :
    (cleanup s k).queues.get? k' = s.queues.get? k' := by
  unfold cleanup
  split
  · rfl
  · next r h =>
    split
    · have hsame : SameWork s (unmarkReady s r) := sameWork_unmarkReady
      rw [JsMap.get?_delete_ne _ hne, hsame.queues]
    · rfl

/-- `cleanup` of a registered key: it is forgotten if it has no work. -/
theorem inv_cleanup (hi : Inv o (some r) s) (h : s.queues.get? k = some r) :
    Inv o none (cleanup s k) := by
  simp only [cleanup, h]
  by_cases hcond : (s.heap r).running = 0 ∧ (s.heap r).items.size = 0
  · rw [if_pos hcond]
    have hsame : SameWork s (unmarkReady s r) := sameWork_unmarkReady
    have hunmarked := inv_unmarkReady hi h
    have hnode := (lined_unmarkReady hi.toLined h).2
    have hget : (unmarkReady s r).queues.get? k = some r := by rw [hsame.queues, h]
    have hwork : Work o (forget (unmarkReady s r) k ((unmarkReady s r).heap r).drains) :=
      work_forget hunmarked.toWork hget (by rw [hsame.running, hcond.1])
        (by rw [hsame.items, hcond.2])
    have hlined : Lined o (forget (unmarkReady s r) k ((unmarkReady s r).heap r).drains) :=
      lined_forget hunmarked.toLined hget hnode
    refine { hwork, hlined with live := ?_ }
    intro k' r' hr' _
    obtain ⟨hk, hr⟩ := get_forget hr'
    apply hunmarked.live k' r' hr
    intro heq
    obtain rfl := Option.some.inj heq
    exact hk (hunmarked.inj k' k r' hr hget)
  · rw [if_neg hcond]
    refine { hi with live := ?_ }
    intro k' r' hr' _
    by_cases hr : r' = r
    · subst hr
      by_cases hsize : (s.heap r').items.size = 0
      · right
        intro hrun
        exact hcond ⟨hrun, hsize⟩
      · exact Or.inl hsize
    · exact hi.live k' r' hr' (by simpa using hr)

theorem marked_cleanup (hi : Inv o hole s) (hm : Marked o none s) :
    Marked o none (cleanup s k) := by
  unfold cleanup
  split
  · exact hm
  rename_i r h
  split
  · next hcond =>
    intro k' r' hr' _ hst
    obtain ⟨hk, hr⟩ := get_forget hr'
    have hsame : SameWork s (unmarkReady s r) := sameWork_unmarkReady
    have hne : r' ≠ r := by
      intro heq
      subst heq
      rw [hsame.queues] at hr
      exact hk (hi.inj k' k r' hr h)
    exact marked_unmarkReady hm k' r' hr (by simpa using hne) hst
  · exact hm

theorem idle_unmarkReady (hi : Lined o s) (h : s.queues.get? k = some r) (hidle : Idle o s) :
    Idle o (unmarkReady s r) := by
  have hsame : SameWork s (unmarkReady s r) := sameWork_unmarkReady
  cases hidle with
  | inr hroom =>
    right
    intro hnew
    exact hroom (hsame.hasRoom_iff.mp hnew)
  | inl hhead =>
    left
    have hnode : (s.heap r).lineNode = none := by
      cases hn : (s.heap r).lineNode with
      | none => rfl
      | some i =>
        have hmem := (hi.placed k r i h hn).1
        rw [hi.linked.head_eq, List.head?_eq_none_iff] at hhead
        rw [hhead] at hmem
        contradiction
    simp only [unmarkReady, hnode]
    exact hhead

theorem idle_cleanup (hi : Lined o s) (hidle : Idle o s) : Idle o (cleanup s k) := by
  unfold cleanup
  split
  · exact hidle
  · next r h =>
    split
    · exact idle_unmarkReady hi h hidle
    · exact hidle

end Keys

end BunServe.Queue
