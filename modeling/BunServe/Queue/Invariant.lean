import BunServe.Queue
import Mathlib.Data.List.Perm.Basic

/-!
# BunServe.Queue.Invariant

The invariant of the keyed queue, and what each internal operation does to it.

`Work` is about the tasks: every accepted task is in exactly one place (waiting
with its key, started, or settled), the gauges count the places, and a key hands
its tasks out in push order.  `Lined` is about the service line: its nodes and
the keys' `lineNode`s name each other, and a key in line is startable.  The line
can be edited without touching the work (`SameWork`): `inv_markReady` and
`inv_unmarkReady` give a place and take it back.
-/

namespace BunServe.Queue

/-! ## the layers -/

def State.waiting (s : State) : List Task :=
  s.queues.values.flatMap fun r => (s.heap r).items.list

/-- The started tasks that have not settled. -/
def State.flights (s : State) : List Flight := s.jobs ++ s.active

/-- The tasks in the order they start in. -/
def State.started (s : State) : List Flight := s.called ++ s.jobs

/-- The registered objects and the tasks that name them. -/
structure Registry (s : State) : Prop where
  fresh : ∀ k r, s.queues.get? k = some r → r < s.nextQueue
  inj : ∀ k k' r, s.queues.get? k = some r → s.queues.get? k' = some r → k = k'
  fifo : ∀ k r, s.queues.get? k = some r → (s.heap r).items.Ok
  flight : ∀ f ∈ s.flights, s.queues.get? f.key = some f.q ∧ f.task.key = f.key

/-- The gauges and the bounds. -/
structure Gauges (o : Options) (s : State) : Prop where
  pending : s.pendingCurrent = s.waiting.length
  running : s.runningCurrent = s.flights.length
  perKey : ∀ k r, s.queues.get? k = some r →
    (s.heap r).running = s.flights.countP fun f => f.q = r
  bounded : ∀ k r, s.queues.get? k = some r → (s.heap r).running ≤ o.concurrency
  budget : ∀ n : Int, 0 ≤ n → n < s.runningCurrent →
    JsNumber.lt (.ofInt n) o.maxRunningTotal.value

/-- Where every accepted task is. -/
structure Placed (s : State) : Prop where
  ids : s.pushed.map Task.id = List.range s.pushed.length
  places : (s.waiting ++ s.flights.map Flight.task ++ s.settled.map Prod.fst).Perm s.pushed
  pushedTotal : s.totals.pushedTotal = s.pushed.length
  completedTotal : s.totals.completedTotal = s.settled.countP fun e => e.2 = .completed
  failedTotal : s.totals.failedTotal = s.settled.countP fun e => e.2 = .failed
  settledTotal : s.totals.completedTotal + s.totals.failedTotal + s.totals.clearedTotal =
    s.settled.length

/-- The order tasks start in. -/
structure Ordered (s : State) : Prop where
  queued : ∀ k r, s.queues.get? k = some r → ∀ t ∈ (s.heap r).items.list, t.key = k
  sorted : ∀ k r, s.queues.get? k = some r →
    (s.heap r).items.list.Pairwise fun t t' => t.id < t'.id
  ahead : ∀ k r, s.queues.get? k = some r → ∀ f ∈ s.started, f.task.key = k →
    ∀ t ∈ (s.heap r).items.list, f.task.id < t.id
  starts : s.started.Pairwise fun f f' => f.task.key = f'.task.key → f.task.id < f'.task.id
  known : ∀ f ∈ s.started, f.task ∈ s.pushed

/-- What holds of the tasks. -/
structure Work (o : Options) (s : State) : Prop extends
  Registry s, Gauges o s, Placed s, Ordered s

/-- The service line and the keys in it. -/
structure Lined (o : Options) (s : State) : Prop where
  linked : s.serviceLine.Ok
  named : ∀ i ∈ s.serviceLine.ids, ∃ r,
    s.queues.get? (s.serviceLine.key i) = some r ∧ (s.heap r).lineNode = some i
  placed : ∀ k r i, s.queues.get? k = some r → (s.heap r).lineNode = some i →
    i ∈ s.serviceLine.ids ∧ s.serviceLine.key i = k
  ready : ∀ k r i, s.queues.get? k = some r → (s.heap r).lineNode = some i →
    startable o (s.heap r) = true

/-- The invariant of the queue.  `hole` is an object that may be registered
without work for the moment. -/
structure Inv (o : Options) (hole : Option Nat) (s : State) : Prop extends
  Work o s, Lined o s where
  live : ∀ k r, s.queues.get? k = some r → some r ≠ hole →
    (s.heap r).items.size ≠ 0 ∨ (s.heap r).running ≠ 0

/-- Every startable key but `hole` is in line. -/
def Marked (o : Options) (hole : Option Nat) (s : State) : Prop :=
  ∀ k r, s.queues.get? k = some r → some r ≠ hole → startable o (s.heap r) = true →
    (s.heap r).lineNode ≠ none

/-- The loop of `pump` has nothing left to do. -/
def Idle (o : Options) (s : State) : Prop := s.serviceLine.head = none ∨ ¬ hasRoom o s

/-! ## one object of the heap -/

variable {k : JsString} {t : Task}

section Heap

variable {s : State} {r r' : Nat} {v : KeyQueue}

@[simp] theorem put_self : (s.put r v).heap r = v := Function.update_self ..

theorem put_ne (h : r' ≠ r) : (s.put r v).heap r' = s.heap r' := Function.update_of_ne h ..

theorem put_eq_self : s.put r (s.heap r) = s := by
  simp [State.put]

theorem waiting_focus (hi : Registry s) (h : s.queues.get? k = some r) :
    ∃ rest, ∀ v, (s.put r v).waiting.Perm (v.items.list ++ rest) := by
  have hmem : r ∈ s.queues.values := JsMap.mem_values_iff.mpr ⟨k, h⟩
  have hnodup : s.queues.values.Nodup := JsMap.values_nodup hi.inj
  refine ⟨(s.queues.values.erase r).flatMap fun r => (s.heap r).items.list, fun v => ?_⟩
  have hfirst := (List.perm_cons_erase hmem).flatMap_right
    fun r' => ((s.put r v).heap r').items.list
  have hrest : ((s.queues.values.erase r).flatMap fun r' => ((s.put r v).heap r').items.list) =
      (s.queues.values.erase r).flatMap fun r => (s.heap r).items.list := by
    apply List.flatMap_congr
    intro r' hr'
    have hne : r' ≠ r := by
      intro heq
      subst heq
      exact (hnodup.mem_erase_iff.mp hr').1 rfl
    rw [put_ne hne]
  rw [List.flatMap_cons, put_self, hrest] at hfirst
  exact hfirst

theorem waiting_shift (hi : Registry s) (h : s.queues.get? k = some r)
    (hv : (s.heap r).items.list = t :: v.items.list) :
    s.waiting.Perm (t :: (s.put r v).waiting) := by
  obtain ⟨rest, hrest⟩ := waiting_focus hi h
  have hold := hrest (s.heap r)
  rw [put_eq_self, hv] at hold
  exact hold.trans ((hrest v).symm.cons t)

theorem waiting_push (hi : Registry s) (h : s.queues.get? k = some r)
    (hv : v.items.list = (s.heap r).items.list ++ [t]) :
    (s.put r v).waiting.Perm (t :: s.waiting) := by
  obtain ⟨rest, hrest⟩ := waiting_focus hi h
  have hold := hrest (s.heap r)
  have hnew := hrest v
  rw [put_eq_self] at hold
  rw [hv, List.append_assoc] at hnew
  exact hnew.trans (List.perm_middle.trans (hold.symm.cons t))

theorem waiting_same (hv : v.items = (s.heap r).items) : (s.put r v).waiting = s.waiting := by
  apply List.flatMap_congr
  intro r' _
  by_cases hr : r' = r
  · subst hr
    rw [put_self, hv]
  · rw [put_ne hr]

end Heap

/-! ## reading the invariant -/

section Reading

variable {o : Options} {s : State}

theorem startable_iff {q : KeyQueue} :
    startable o q = true ↔ q.items.size ≠ 0 ∧ q.running < o.concurrency := by
  simp [startable]

theorem Placed.id_lt (hi : Placed s) (ht : t ∈ s.pushed) : t.id < s.pushed.length := by
  have hmem : t.id ∈ List.range s.pushed.length := hi.ids ▸ List.mem_map_of_mem ht
  exact List.mem_range.mp hmem

theorem Placed.pushed_nodup (hi : Placed s) : s.pushed.Nodup := by
  have hids : (s.pushed.map Task.id).Nodup := hi.ids ▸ List.nodup_range
  exact hids.of_map

theorem Placed.places_nodup (hi : Placed s) :
    (s.waiting ++ s.flights.map Flight.task ++ s.settled.map Prod.fst).Nodup :=
  hi.places.nodup_iff.mpr hi.pushed_nodup

variable {r : Nat}

theorem mem_waiting (h : s.queues.get? k = some r)
    (ht : t ∈ (s.heap r).items.list) : t ∈ s.waiting :=
  List.mem_flatMap.mpr ⟨r, JsMap.mem_values_iff.mpr ⟨k, h⟩, ht⟩

theorem Placed.waiting_pushed (hi : Placed s) (ht : t ∈ s.waiting) : t ∈ s.pushed := by
  apply hi.places.mem_iff.mp
  simp [ht]

theorem Registry.size_eq (hi : Registry s) (h : s.queues.get? k = some r) :
    (s.heap r).items.size = (s.heap r).items.list.length := (hi.fifo k r h).size_eq

theorem Work.running_nonneg (hi : Work o s)
    (h : s.queues.get? k = some r) : 0 ≤ (s.heap r).running := by
  rw [hi.perKey k r h]
  omega

theorem Lined.not_in_line (hi : Lined o s) {i : Nat}
    (h : s.queues.get? k = some r) (hi' : i ∈ s.serviceLine.ids)
    (hn : (s.heap r).lineNode ≠ some i) : s.serviceLine.key i ≠ k := by
  intro hk
  obtain ⟨r', hr', hnode⟩ := hi.named i hi'
  rw [hk, h] at hr'
  cases hr'
  exact hn hnode

end Reading

/-! ## edits that leave the work alone -/

/-- `s'` has the same tasks in the same places as `s`. -/
structure SameWork (s s' : State) : Prop where
  queues : s'.queues = s.queues
  nextQueue : s'.nextQueue = s.nextQueue
  items : ∀ r, (s'.heap r).items = (s.heap r).items
  running : ∀ r, (s'.heap r).running = (s.heap r).running
  pendingCurrent : s'.pendingCurrent = s.pendingCurrent
  runningCurrent : s'.runningCurrent = s.runningCurrent
  jobs : s'.jobs = s.jobs
  active : s'.active = s.active
  pushed : s'.pushed = s.pushed
  called : s'.called = s.called
  settled : s'.settled = s.settled
  totals : s'.totals.pushedTotal = s.totals.pushedTotal ∧
    s'.totals.completedTotal = s.totals.completedTotal ∧
    s'.totals.failedTotal = s.totals.failedTotal ∧ s'.totals.clearedTotal = s.totals.clearedTotal

namespace SameWork

variable {o : Options} {s s' : State}

theorem refl (s : State) : SameWork s s :=
  ⟨rfl, rfl, fun _ => rfl, fun _ => rfl, rfl, rfl, rfl, rfl, rfl, rfl, rfl, rfl, rfl, rfl, rfl⟩

theorem waiting (h : SameWork s s') : s'.waiting = s.waiting := by
  simp only [State.waiting, h.queues, h.items]

theorem flights (h : SameWork s s') : s'.flights = s.flights := by
  simp only [State.flights, h.jobs, h.active]

theorem started (h : SameWork s s') : s'.started = s.started := by
  simp only [State.started, h.jobs, h.called]

theorem startable_eq (h : SameWork s s') (r : Nat) :
    startable o (s'.heap r) = startable o (s.heap r) := by
  simp only [startable, h.items, h.running]

theorem hasRoom_iff (h : SameWork s s') : hasRoom o s' ↔ hasRoom o s := by
  simp only [hasRoom, h.runningCurrent]

theorem work (h : SameWork s s') (hi : Work o s) : Work o s' := by
  obtain ⟨hp, hc, hf, hcl⟩ := h.totals
  constructor
  · constructor
    · simpa only [h.queues, h.nextQueue] using hi.fresh
    · simpa only [h.queues] using hi.inj
    · simpa only [h.queues, h.items] using hi.fifo
    · simpa only [h.queues, h.flights] using hi.flight
  · constructor
    · simpa only [h.pendingCurrent, h.waiting] using hi.pending
    · simpa only [h.runningCurrent, h.flights] using hi.running
    · simpa only [h.queues, h.running, h.flights] using hi.perKey
    · simpa only [h.queues, h.running] using hi.bounded
    · simpa only [h.runningCurrent] using hi.budget
  · constructor
    · simpa only [h.pushed] using hi.ids
    · simpa only [h.waiting, h.flights, h.settled, h.pushed] using hi.places
    · simpa only [hp, h.pushed] using hi.pushedTotal
    · simpa only [hc, h.settled] using hi.completedTotal
    · simpa only [hf, h.settled] using hi.failedTotal
    · simpa only [hc, hf, hcl, h.settled] using hi.settledTotal
  · constructor
    · simpa only [h.queues, h.items] using hi.queued
    · simpa only [h.queues, h.items] using hi.sorted
    · simpa only [h.queues, h.items, h.started] using hi.ahead
    · simpa only [h.started] using hi.starts
    · simpa only [h.started, h.pushed] using hi.known

theorem live {hole : Option Nat} (h : SameWork s s') (hi : Inv o hole s) :
    ∀ k r, s'.queues.get? k = some r → some r ≠ hole →
      (s'.heap r).items.size ≠ 0 ∨ (s'.heap r).running ≠ 0 := by
  simpa only [h.queues, h.items, h.running] using hi.live

end SameWork

/-! ## the service line -/

section ServiceLine

variable {o : Options} {s : State} {hole mark : Option Nat} {k : JsString} {r : Nat}

theorem sameWork_line (s : State) (r : Nat) (node : Option Nat) (l : Line JsString) :
    SameWork s { s.put r { s.heap r with lineNode := node } with serviceLine := l } := by
  have hheap : ∀ r', ((s.put r { s.heap r with lineNode := node }).heap r').items =
      (s.heap r').items ∧ ((s.put r { s.heap r with lineNode := node }).heap r').running =
      (s.heap r').running := by
    intro r'
    by_cases hr : r' = r
    · subst hr
      rw [put_self]
      exact ⟨rfl, rfl⟩
    · rw [put_ne hr]
      exact ⟨rfl, rfl⟩
  exact ⟨rfl, rfl, fun r => (hheap r).1, fun r => (hheap r).2, rfl, rfl, rfl, rfl, rfl, rfl, rfl,
    rfl, rfl, rfl, rfl⟩

theorem sameWork_markReady : SameWork s (markReady o s k r) := by
  unfold markReady
  split
  · exact .refl s
  · exact sameWork_line s r _ _

theorem sameWork_unmarkReady : SameWork s (unmarkReady s r) := by
  unfold unmarkReady
  split
  · exact .refl s
  · exact sameWork_line s r _ _

/-- `markReady` gives a startable key the last place, unless it has one. -/
theorem lined_markReady (hi : Lined o s) (hreg : Registry s) (h : s.queues.get? k = some r) :
    Lined o (markReady o s k r) := by
  unfold markReady
  split
  · exact hi
  rename_i hcond
  have hnone : (s.heap r).lineNode = none := by
    cases hnode : (s.heap r).lineNode with
    | none => rfl
    | some i => exact absurd (Or.inl (by simp [hnode])) hcond
  have hstart : startable o (s.heap r) = true := by
    cases hst : startable o (s.heap r) with
    | true => rfl
    | false => exact absurd (Or.inr (by simp [hst])) hcond
  have hids := hi.linked.ids_append k
  have hfst : (s.serviceLine.append k).1 = s.serviceLine.fresh := rfl
  refine ⟨hi.linked.append k, ?_, ?_, ?_⟩
  · intro i hmem
    cases List.mem_append.mp (hids ▸ hmem) with
    | inl hold =>
      obtain ⟨r', hr', hnode⟩ := hi.named i hold
      have hne : r' ≠ r := by
        intro heq
        subst heq
        rw [hnone] at hnode
        contradiction
      refine ⟨r', ?_, ?_⟩
      · show s.queues.get? ((s.serviceLine.append k).2.key i) = some r'
        rw [hi.linked.key_append_old k hold, hr']
      · rw [put_ne hne, hnode]
    | inr hnew =>
      have hfresh : i = s.serviceLine.fresh := by simpa using hnew
      subst hfresh
      refine ⟨r, ?_, ?_⟩
      · show s.queues.get? ((s.serviceLine.append k).2.key s.serviceLine.fresh) = some r
        rw [Line.key_append_new, h]
      · rw [put_self, hfst]
  · intro k' r' i hr' hnode
    by_cases hr : r' = r
    · subst hr
      have hi' : i = s.serviceLine.fresh := by
        have hput : ((s.put r' _).heap r').lineNode = some i := hnode
        rw [put_self] at hput
        exact (Option.some.inj hput).symm
      subst hi'
      rw [hids, Line.key_append_new]
      exact ⟨by simp, hreg.inj k k' r' h hr'⟩
    · have hold : (s.heap r').lineNode = some i := by
        have hput : ((s.put r _).heap r').lineNode = some i := hnode
        rwa [put_ne hr] at hput
      obtain ⟨hmem, hkey⟩ := hi.placed k' r' i hr' hold
      rw [hids, hi.linked.key_append_old k hmem]
      exact ⟨List.mem_append_left _ hmem, hkey⟩
  · intro k' r' i hr' hnode
    by_cases hr : r' = r
    · subst hr
      rw [put_self]
      exact hstart
    · have hold : (s.heap r').lineNode = some i := by
        have hput : ((s.put r _).heap r').lineNode = some i := hnode
        rwa [put_ne hr] at hput
      rw [put_ne hr]
      exact hi.ready k' r' i hr' hold

/-- After `markReady` the key is in line if it is startable. -/
theorem marked_markReady (hm : Marked o (some r) s) : Marked o none (markReady o s k r) := by
  intro k' r' hr' _ hstart
  have hsame : SameWork s (markReady o s k r) := sameWork_markReady
  rw [hsame.queues] at hr'
  rw [hsame.startable_eq] at hstart
  by_cases hr : r' = r
  · subst hr
    unfold markReady
    split
    · next hcond =>
      cases hcond with
      | inl hsome =>
        intro hnone
        simp [hnone] at hsome
      | inr hnot => exact absurd hstart hnot
    · simp
  · have hold := hm k' r' hr' (by simpa using hr) hstart
    unfold markReady
    split
    · exact hold
    · rw [put_ne hr]
      exact hold

/-- `unmarkReady` gives the place of a key back. -/
theorem lined_unmarkReady (hi : Lined o s) (h : s.queues.get? k = some r) :
    Lined o (unmarkReady s r) ∧ ((unmarkReady s r).heap r).lineNode = none := by
  unfold unmarkReady
  cases hnode : (s.heap r).lineNode with
  | none => exact ⟨hi, hnode⟩
  | some node =>
    obtain ⟨hmem, hkey⟩ := hi.placed k r node h hnode
    obtain ⟨hok, hids⟩ := hi.linked.remove hmem
    have hnodup : s.serviceLine.ids.Nodup := hi.linked.nodup
    have hother : ∀ r' i, ((s.put r { s.heap r with lineNode := none }).heap r').lineNode = some i →
        r' ≠ r ∧ (s.heap r').lineNode = some i := by
      intro r' i hput
      by_cases hr : r' = r
      · subst hr
        rw [put_self] at hput
        contradiction
      · rw [put_ne hr] at hput
        exact ⟨hr, hput⟩
    refine ⟨⟨hok, ?_, ?_, ?_⟩, ?_⟩
    · intro i hi'
      obtain ⟨hne, hmem'⟩ := hnodup.mem_erase_iff.mp (hids ▸ hi')
      obtain ⟨r', hr', hnode'⟩ := hi.named i hmem'
      have hr : r' ≠ r := by
        intro heq
        subst heq
        rw [hnode] at hnode'
        exact hne (Option.some.inj hnode').symm
      refine ⟨r', ?_, ?_⟩
      · show s.queues.get? ((s.serviceLine.remove node).key i) = some r'
        rw [Line.key_remove, hr']
      · rw [put_ne hr, hnode']
    · intro k' r' i hr' hput
      obtain ⟨hr, hold⟩ := hother r' i hput
      obtain ⟨hmem', hkey'⟩ := hi.placed k' r' i hr' hold
      have hne : i ≠ node := by
        intro heq
        subst heq
        have hkk : k = k' := hkey.symm.trans hkey'
        subst hkk
        have hrr : s.queues.get? k = some r' := hr'
        rw [h] at hrr
        exact hr (Option.some.inj hrr).symm
      rw [hids, Line.key_remove]
      exact ⟨hnodup.mem_erase_iff.mpr ⟨hne, hmem'⟩, hkey'⟩
    · intro k' r' i hr' hput
      obtain ⟨hr, hold⟩ := hother r' i hput
      rw [put_ne hr]
      exact hi.ready k' r' i hr' hold
    · rw [put_self]

/-- What `unmarkReady` takes out of the line is startable no more, or a hole. -/
theorem marked_unmarkReady (hm : Marked o none s) : Marked o (some r) (unmarkReady s r) := by
  intro k' r' hr' hne hstart
  have hsame : SameWork s (unmarkReady s r) := sameWork_unmarkReady
  rw [hsame.queues] at hr'
  rw [hsame.startable_eq] at hstart
  have hr : r' ≠ r := by simpa using hne
  have hold := hm k' r' hr' (by simp) hstart
  unfold unmarkReady
  split
  · exact hold
  · rw [put_ne hr]
    exact hold

theorem inv_markReady (hi : Inv o hole s) (h : s.queues.get? k = some r) :
    Inv o hole (markReady o s k r) :=
  { sameWork_markReady.work hi.toWork, lined_markReady hi.toLined hi.toRegistry h with
    live := sameWork_markReady.live hi }

theorem inv_unmarkReady (hi : Inv o hole s) (h : s.queues.get? k = some r) :
    Inv o hole (unmarkReady s r) :=
  { sameWork_unmarkReady.work hi.toWork, (lined_unmarkReady hi.toLined h).1 with
    live := sameWork_unmarkReady.live hi }

end ServiceLine

end BunServe.Queue
