import BunServe.Queue.Moves
import Mathlib.Algebra.BigOperators.Group.List.Basic

/-!
# BunServe.Queue.Accounting

What holds of the keyed queue after every action, whatever the order of pushes,
clears, drains, microtasks and completions.

`pump` gives the budget away until it is used up or nobody is in line
(`stable_pump`); every action ends with it or touches neither (`stable_next`), so
all runs keep the accounts (`queue_accounts`).

The budget is compared before a task starts, so a budget that is no whole number
is passed by the fraction it lacks: `assertCap` takes 1.5, and two tasks run
(`half_budget_passed`).
-/

namespace BunServe.Queue

/-- The state between two actions: every startable key is in line, and nobody
is in line while the budget has room. -/
structure Stable (o : Options) (s : State) : Prop extends Inv o none s where
  marked : Marked o none s
  idle : Idle o s

/-! ## the scheduler -/

section Scheduler

variable {o : Options} {s : State} {hole : Option Nat} {k : JsString} {r : Nat}

/-- The turns `pump` can still take. -/
def turnsLeft (s : State) : Nat := s.serviceLine.size + s.pendingCurrent.toNat

/-- What a turn of `pump` keeps, seen from the outside. -/
structure Pumped (o : Options) (hole : Option Nat) (s s' : State) : Prop where
  inv : Inv o hole s'
  marked : Marked o none s'
  queues : s'.queues = s.queues

theorem size_unmarkReady (hi : Lined o s) (h : s.queues.get? k = some r) {node : Nat}
    (hnode : (s.heap r).lineNode = some node) :
    (unmarkReady s r).serviceLine.size + 1 = s.serviceLine.size := by
  have hmem := (hi.placed k r node h hnode).1
  obtain ⟨hok, hids⟩ := hi.linked.remove hmem
  have hline : (unmarkReady s r).serviceLine = s.serviceLine.remove node := by
    simp only [unmarkReady, hnode]
  rw [hline, hok.size_eq, hids, hi.linked.size_eq, List.length_erase_of_mem hmem]
  have hpos := List.length_pos_of_mem hmem
  omega

theorem size_markReady (o : Options) (s : State) (k : JsString) (r : Nat) :
    (markReady o s k r).serviceLine.size ≤ s.serviceLine.size + 1 := by
  unfold markReady
  split
  · omega
  · rw [(Line.append_fields s.serviceLine k).2.1]

/-- A turn of `pump` starts a task of the key at the head and sends the key to
the back. -/
theorem visit_eq (hi : Inv o hole s) {node : Nat} (hnode : node ∈ s.serviceLine.ids) :
    ∃ r, s.queues.get? (s.serviceLine.key node) = some r ∧ (s.heap r).lineNode = some node ∧
      visit o s node = markReady o (start (unmarkReady s r) (s.serviceLine.key node) r)
        (s.serviceLine.key node) r := by
  obtain ⟨r, h, hn⟩ := hi.named node hnode
  have hready := hi.ready _ r node h hn
  have hunmark : unmarkReady s r = { s.put r { s.heap r with lineNode := none } with
      serviceLine := s.serviceLine.remove node } := by
    simp only [unmarkReady, hn]
  have hst : startable o { s.heap r with lineNode := none } = true := hready
  refine ⟨r, h, hn, ?_⟩
  rw [hunmark]
  simp only [visit, h]
  rw [if_pos (by simpa using hst)]
  rfl

/-- One turn of `pump`. -/
theorem pumped_visit (hi : Inv o hole s) (hm : Marked o none s) (hroom : hasRoom o s) {node : Nat}
    (hnode : node ∈ s.serviceLine.ids) :
    Pumped o hole s (visit o s node) ∧ turnsLeft (visit o s node) < turnsLeft s := by
  obtain ⟨r, h, hn, hvisit⟩ := visit_eq hi hnode
  have hsame : SameWork s (unmarkReady s r) := sameWork_unmarkReady
  have hget : (unmarkReady s r).queues.get? (s.serviceLine.key node) = some r := by
    rw [hsame.queues, h]
  have hunmarked := inv_unmarkReady hi h
  have hfree := (lined_unmarkReady hi.toLined h).2
  have hst : startable o ((unmarkReady s r).heap r) = true := by
    rw [hsame.startable_eq]
    exact hi.ready _ r node h hn
  have hstarted := inv_start hunmarked hget hst (hsame.hasRoom_iff.mpr hroom) hfree
  obtain ⟨t, items, hshift, -, hlist⟩ :=
    hunmarked.toRegistry.shift hget (startable_iff.mp hst).1
  have hqueues : (start (unmarkReady s r) (s.serviceLine.key node) r).queues = s.queues := by
    rw [start_eq hshift]
    exact hsame.queues
  have hgetStarted : (start (unmarkReady s r) (s.serviceLine.key node) r).queues.get?
      (s.serviceLine.key node) = some r := by
    rw [hqueues, h]
  have hmarked := marked_markReady (k := s.serviceLine.key node)
    (marked_start (k := s.serviceLine.key node) (marked_unmarkReady (r := r) hm))
  have hsameMark : SameWork (start (unmarkReady s r) (s.serviceLine.key node) r)
      (markReady o (start (unmarkReady s r) (s.serviceLine.key node) r)
        (s.serviceLine.key node) r) := sameWork_markReady
  rw [hvisit]
  refine ⟨⟨inv_markReady hstarted hgetStarted, hmarked, hsameMark.queues.trans hqueues⟩, ?_⟩
  have hline := size_markReady o (start (unmarkReady s r) (s.serviceLine.key node) r)
    (s.serviceLine.key node) r
  have hkept : (start (unmarkReady s r) (s.serviceLine.key node) r).serviceLine =
      (unmarkReady s r).serviceLine := by
    rw [start_eq hshift]
    rfl
  have hsize := size_unmarkReady hi.toLined h hn
  have hpending : (start (unmarkReady s r) (s.serviceLine.key node) r).pendingCurrent =
      s.pendingCurrent - 1 := by
    rw [start_eq hshift, ← hsame.pendingCurrent]
  have hnonneg := hstarted.pending
  rw [hkept] at hline
  unfold turnsLeft
  rw [hsameMark.pendingCurrent]
  omega

/-- The loop of `pump` keeps the invariant and ends with its condition false. -/
theorem pumped_pumpLoop {n : Nat} (hi : Inv o hole s) (hm : Marked o none s)
    (hn : turnsLeft s ≤ n) : Pumped o hole s (pumpLoop o n s) ∧ Idle o (pumpLoop o n s) := by
  induction n generalizing s with
  | zero =>
    refine ⟨⟨hi, hm, rfl⟩, Or.inl ?_⟩
    have hsize : s.serviceLine.ids.length = 0 := by
      rw [← hi.linked.size_eq]
      unfold turnsLeft at hn
      omega
    show s.serviceLine.head = none
    rw [hi.linked.head_eq, List.eq_nil_of_length_eq_zero hsize]
    rfl
  | succ n ih =>
    rw [pumpLoop]
    cases hhead : s.serviceLine.head with
    | none => exact ⟨⟨hi, hm, rfl⟩, Or.inl hhead⟩
    | some node =>
      by_cases hroom : hasRoom o s
      · have hnode : node ∈ s.serviceLine.ids := by
          rw [hi.linked.head_eq] at hhead
          exact List.mem_of_head? hhead
        obtain ⟨hvisit, hless⟩ := pumped_visit hi hm hroom hnode
        obtain ⟨hloop, hidle⟩ := ih hvisit.inv hvisit.marked (by omega)
        simp only [if_pos hroom]
        exact ⟨⟨hloop.inv, hloop.marked, hloop.queues.trans hvisit.queues⟩, hidle⟩
      · simp only [if_neg hroom]
        exact ⟨⟨hi, hm, rfl⟩, Or.inr hroom⟩

/-- `pump` gives the budget away until it is used up or nobody is in line. -/
theorem pumped_pump (hi : Inv o hole s) (hm : Marked o none s) :
    Pumped o hole s (pump o s) ∧ Idle o (pump o s) :=
  pumped_pumpLoop hi hm (Nat.le_refl _)

/-- The shortcut of `schedule` starts a task of a key that is not in line, since
nobody is. -/
theorem inv_startNow (hi : Inv o hole s) (hm : Marked o (some r) s) (h : s.queues.get? k = some r) :
    Inv o hole (startNow o s k r) ∧ Marked o (some r) (startNow o s k r) ∧
      (startNow o s k r).queues = s.queues := by
  unfold startNow
  by_cases hcond : s.serviceLine.head = none ∧ startable o (s.heap r) = true ∧ hasRoom o s
  · obtain ⟨hhead, hst, hroom⟩ := hcond
    have hnode : (s.heap r).lineNode = none := by
      cases hn : (s.heap r).lineNode with
      | none => rfl
      | some i =>
        have hmem := (hi.placed k r i h hn).1
        rw [hi.linked.head_eq, List.head?_eq_none_iff] at hhead
        rw [hhead] at hmem
        contradiction
    obtain ⟨t, items, hshift, -, -⟩ := hi.toRegistry.shift h (startable_iff.mp hst).1
    rw [if_pos ⟨hhead, hst, hroom⟩]
    refine ⟨inv_start hi h hst hroom hnode, marked_start hm, ?_⟩
    rw [start_eq hshift]
    rfl
  · rw [if_neg hcond]
    exact ⟨hi, hm, rfl⟩

/-- `schedule` after the key gained a task or finished one. -/
theorem pumped_schedule (hi : Inv o hole s) (hm : Marked o (some r) s)
    (h : s.queues.get? k = some r) :
    Pumped o hole s (schedule o s k r) ∧ Idle o (schedule o s k r) := by
  obtain ⟨hnow, hmarked, hqueues⟩ := inv_startNow hi hm h
  have hget : (startNow o s k r).queues.get? k = some r := by rw [hqueues, h]
  have hsame : SameWork (startNow o s k r) (markReady o (startNow o s k r) k r) :=
    sameWork_markReady
  obtain ⟨hpumped, hidle⟩ := pumped_pump (inv_markReady hnow hget) (marked_markReady hmarked)
  exact ⟨⟨hpumped.inv, hpumped.marked, hpumped.queues.trans (hsame.queues.trans hqueues)⟩, hidle⟩

end Scheduler

/-! ## the actions -/

section Actions

variable {o : Options} {s : State} {k : JsString} {r : Nat}

theorem Inv.weaken (hi : Inv o none s) (hole : Option Nat) : Inv o hole s :=
  { hi with live := fun k r hr _ => hi.live k r hr (by simp) }

theorem Marked.weaken (hm : Marked o none s) (hole : Option Nat) : Marked o hole s :=
  fun k r hr _ => hm k r hr (by simp)

theorem stable_init (o : Options) : Stable o State.init := by
  have hnone : ∀ {P : JsString → Nat → Prop} k r, State.init.queues.get? k = some r → P k r := by
    intro P k r hr
    contradiction
  have hline : State.init.serviceLine.Holds [] := Line.holds_create
  refine { fresh := hnone, inj := fun k k' r hr _ => hnone (P := fun k _ => k = k') k r hr, fifo := hnone, flight := ?_,
           pending := rfl, running := rfl, perKey := hnone, bounded := hnone, budget := ?_,
           ids := rfl, places := List.Perm.refl _, pushedTotal := rfl, completedTotal := rfl,
           failedTotal := rfl, settledTotal := rfl, queued := hnone, sorted := hnone,
           ahead := hnone, starts := List.Pairwise.nil, known := ?_, linked := hline.ok,
           named := ?_, placed := fun k r i hr hi =>
             hnone (P := fun k _ => i ∈ State.init.serviceLine.ids ∧
               State.init.serviceLine.key i = k) k r hr,
           ready := fun k r _ hr _ =>
             hnone (P := fun _ r => startable o (State.init.heap r) = true) k r hr,
           live := hnone, marked := hnone,
           idle := Or.inl rfl }
  · intro f hf
    exact absurd hf List.not_mem_nil
  · intro n hn hlt
    have hlt' : n < 0 := hlt
    omega
  · intro f hf
    exact absurd hf List.not_mem_nil
  · intro i hi
    exact absurd hi List.not_mem_nil

theorem stable_accept (hs : Stable o s) (k : JsString) : Stable o (accept o s k) := by
  unfold accept
  split
  · next r h =>
    have hinv := inv_enqueue (hs.toInv.weaken (some r)) h
    have hmarked := marked_enqueue (k := k) (hs.marked.weaken (some r))
    obtain ⟨hpumped, hidle⟩ := pumped_schedule hinv hmarked h
    exact { hpumped.inv with marked := hpumped.marked, idle := hidle }
  · next h =>
    have hget : (register s k).queues.get? k = some s.nextQueue := by
      rw [get_register, if_pos rfl]
    have hinv := inv_enqueue (inv_register hs.toInv h) hget
    have hmarked := marked_enqueue (k := k) (marked_register (k := k) hs.toRegistry hs.marked)
    obtain ⟨hpumped, hidle⟩ := pumped_schedule hinv hmarked hget
    exact { hpumped.inv with marked := hpumped.marked, idle := hidle }

theorem stable_shed (hs : Stable o s) (req : Request) (reason : Reason) :
    Stable o (shed o s req reason) :=
  { hs with }

theorem stable_push (hs : Stable o s) (req : Request) : Stable o (push o s req).1 := by
  unfold push
  split
  · exact hs
  · next key _ =>
    split
    · exact stable_shed hs req _
    · exact stable_accept hs key

theorem stable_complete (hs : Stable o s) {id : Nat} {ok : Bool} {t : State}
    (h : complete o s id ok = some t) : Stable o t := by
  unfold complete at h
  split at h
  · contradiction
  rename_i f hfind
  cases h
  have hf : f ∈ s.active := List.mem_of_find?_eq_some hfind
  have hq := (hs.flight f (List.mem_append_right _ hf)).1
  obtain ⟨hpumped, hidle⟩ := pumped_schedule (inv_finish hs.toInv hf)
    (marked_finish hs.marked) hq
  have hget : (schedule o (finish s f ok) f.key f.q).queues.get? f.key = some f.q := by
    rw [hpumped.queues]
    exact hq
  exact { inv_cleanup hpumped.inv hget with
    marked := marked_cleanup hpumped.inv hpumped.marked
    idle := idle_cleanup hpumped.inv.toLined hidle }

theorem stable_turn (hs : Stable o s) {t : State} (h : turn s = some t) : Stable o t := by
  unfold turn at h
  split at h
  · contradiction
  rename_i f jobs hjobs
  cases h
  have hflights : (jobs ++ (s.active ++ [f])).Perm s.flights := by
    rw [State.flights, hjobs, ← List.append_assoc]
    exact List.perm_append_singleton ..
  have hstarted : (s.called ++ [f]) ++ jobs = s.started := by
    rw [State.started, hjobs, List.append_assoc]
    rfl
  refine { hs with flight := ?_, running := ?_, perKey := ?_, places := ?_, ahead := ?_,
                   starts := ?_, known := ?_ }
  · intro g hg
    exact hs.flight g (hflights.mem_iff.mp hg)
  · show s.runningCurrent = ((jobs ++ (s.active ++ [f])).length : Int)
    rw [hflights.length_eq]
    exact hs.running
  · intro k r hr
    show _ = (((jobs ++ (s.active ++ [f])).countP fun f => f.q = r : Nat) : Int)
    rw [hflights.countP_eq]
    exact hs.perKey k r hr
  · exact (((hflights.map Flight.task).append_left _).append_right _).trans hs.places
  · intro k r hr
    show ∀ g ∈ (s.called ++ [f]) ++ jobs, _
    rw [hstarted]
    exact hs.ahead k r hr
  · show ((s.called ++ [f]) ++ jobs).Pairwise _
    rw [hstarted]
    exact hs.starts
  · show ∀ g ∈ (s.called ++ [f]) ++ jobs, _
    rw [hstarted]
    exact hs.known

theorem stable_drainKey (hs : Stable o s) (k : JsString) : Stable o (drainKey s k) := by
  unfold drainKey
  cases h : s.queues.get? k with
  | none =>
    simp only [h]
    exact { hs with }
  | some r =>
    simp only [h]
    split
    · exact { hs with }
    obtain ⟨v, hv⟩ : ∃ v, v = { s.heap r with drains := (s.heap r).drains ++ [s.drainCalls] } :=
      ⟨_, rfl⟩
    have hheap : ∀ r', ((s.put r v).heap r').items = (s.heap r').items ∧
        ((s.put r v).heap r').running = (s.heap r').running ∧
        ((s.put r v).heap r').lineNode = (s.heap r').lineNode := by
      intro r'
      by_cases hr : r' = r
      · subst hr
        rw [put_self, hv]
        exact ⟨rfl, rfl, rfl⟩
      · rw [put_ne hr]
        exact ⟨rfl, rfl, rfl⟩
    have hsame : SameWork s { s.put r v with drainCalls := s.drainCalls + 1 } :=
      ⟨rfl, rfl, fun r' => (hheap r').1, fun r' => (hheap r').2.1, rfl, rfl, rfl, rfl, rfl, rfl,
        rfl, rfl, rfl, rfl, rfl⟩
    have hlined : Lined o { s.put r v with drainCalls := s.drainCalls + 1 } := by
      apply lined_put hs.toLined
      · rfl
      · rfl
      · rfl
      · rw [hv]
      · intro hsome
        obtain ⟨i, hi⟩ := Option.ne_none_iff_exists'.mp hsome
        have hst := hs.ready k r i h hi
        rw [hv]
        exact hst
    rw [← hv]
    refine { hsame.work hs.toWork, hlined with
             live := hsame.live hs.toInv, marked := ?_, idle := ?_ }
    · intro k' r' hr' hne hst
      show ((s.put r v).heap r').lineNode ≠ none
      have hold : startable o (s.heap r') = true := (hsame.startable_eq r').symm.trans hst
      rw [(hheap r').2.2]
      exact hs.marked k' r' hr' hne hold
    · cases hs.idle with
      | inl hhead => exact Or.inl hhead
      | inr hroom => exact Or.inr hroom

theorem stable_drain (hs : Stable o s) (key : Option JsString) : Stable o (drain s key) := by
  cases key with
  | some k => exact stable_drainKey hs k
  | none =>
    show Stable o (s.queues.keys.foldl drainKey s)
    generalize s.queues.keys = ks
    induction ks generalizing s with
    | nil => exact hs
    | cons k ks ih => exact ih (stable_drainKey hs k)

/-! ### clearing -/

/-- `rejectWaiting` empties the list of a key that is not in line. -/
theorem inv_rejectLoop {n : Nat} (hi : Inv o (some r) s) (hm : Marked o (some r) s)
    (hidle : Idle o s) (h : s.queues.get? k = some r) (hnode : (s.heap r).lineNode = none)
    (hn : (s.heap r).items.size = n) :
    Inv o (some r) (rejectLoop k r n s) ∧ Marked o none (rejectLoop k r n s) ∧
      Idle o (rejectLoop k r n s) ∧ (rejectLoop k r n s).queues = s.queues := by
  induction n generalizing s with
  | zero =>
    refine ⟨hi, ?_, hidle, rfl⟩
    intro k' r' hr' _ hst
    by_cases hr : r' = r
    · subst hr
      exact absurd hn (startable_iff.mp hst).1
    · exact hm k' r' hr' (by simpa using hr) hst
  | succ n ih =>
    have hsize : (s.heap r).items.size ≠ 0 := by omega
    obtain ⟨hone, hnone, hcount, hqueues⟩ := inv_rejectOne hi h hnode hsize
    obtain ⟨t, items, hshift, -, -⟩ := hi.toRegistry.shift h hsize
    have hidle' : Idle o (rejectOne s k r) := by
      rw [rejectOne_eq hshift]
      exact hidle
    obtain ⟨hinv, hmarked, hlast, hq⟩ := ih hone (marked_rejectOne hm) hidle'
      (by rw [hqueues, h]) hnone (by omega)
    exact ⟨hinv, hmarked, hlast, hq.trans hqueues⟩

theorem stable_clearEntry (hs : Stable o s) (h : s.queues.get? k = some r) :
    Stable o (clearEntry s (k, r)) ∧
      ∀ k', k' ≠ k → (clearEntry s (k, r)).queues.get? k' = s.queues.get? k' := by
  have hsame : SameWork s (unmarkReady s r) := sameWork_unmarkReady
  have hget : (unmarkReady s r).queues.get? k = some r := by rw [hsame.queues, h]
  obtain ⟨hinv, hmarked, hidle, hqueues⟩ := inv_rejectLoop
    ((inv_unmarkReady hs.toInv h).weaken (some r)) (marked_unmarkReady hs.marked)
    (idle_unmarkReady hs.toLined h hs.idle) hget (lined_unmarkReady hs.toLined h).2
    (by rw [hsame.items])
  have hq : (rejectWaiting s k r).queues = s.queues := hqueues.trans hsame.queues
  have hreject : (rejectWaiting s k r).queues.get? k = some r := by rw [hq, h]
  refine ⟨{ inv_cleanup hinv hreject with
            marked := marked_cleanup hinv hmarked
            idle := idle_cleanup hinv.toLined hidle }, ?_⟩
  intro k' hne
  rw [← hq]
  exact get_cleanup_ne hne

theorem stable_clearAll {es : List (JsString × Nat)} (hs : Stable o s)
    (hnodup : (es.map Prod.fst).Nodup) (hes : ∀ e ∈ es, s.queues.get? e.1 = some e.2) :
    Stable o (es.foldl clearEntry s) := by
  induction es generalizing s with
  | nil => exact hs
  | cons e es ih =>
    obtain ⟨k, r⟩ := e
    have hcons := List.nodup_cons.mp hnodup
    obtain ⟨hstable, hothers⟩ := stable_clearEntry hs (hes (k, r) (by simp))
    apply ih hstable hcons.2
    intro e he
    have hne : e.1 ≠ k := by
      intro heq
      have hmem := JsMap.fst_mem_of_mem he
      rw [heq] at hmem
      exact hcons.1 hmem
    rw [hothers e.1 hne]
    exact hes e (List.mem_cons_of_mem _ he)

theorem stable_clear (hs : Stable o s) (key : Option JsString) : Stable o (clear s key) := by
  cases key with
  | some k =>
    rw [clear]
    split
    · exact hs
    · next r h => exact (stable_clearEntry hs h).1
  | none =>
    apply stable_clearAll hs s.queues.nodup
    intro e he
    exact JsMap.mem_entries_iff.mp he

/-! ### every run -/

/-- **Step lemma**: every action ends in a stable state. -/
theorem stable_next (hs : Stable o s) {a : Action} {t : State} (h : (machine o).next s a = some t) :
    Stable o t := by
  cases a with
  | push req =>
    cases h
    exact stable_push hs req
  | clear key =>
    cases h
    exact stable_clear hs key
  | drain key =>
    cases h
    exact stable_drain hs key
  | turn => exact stable_turn hs h
  | complete id ok => exact stable_complete hs h

/-- **Run lemma**: every state a queue reaches between two actions is stable. -/
theorem stable_run {as : List Action} (h : (machine o).Runs Machine.Any as s) : Stable o s :=
  h.invariant (stable_init o) fun _ _ _ hs _ hn => stable_next hs hn

end Actions

/-! ## the accounts -/

/-- A budget that tasks can use up exactly. -/
def Cap.Whole (c : Cap) : Prop := c.value = .infinity ∨ ∃ n : Nat, c.value = .ofNat n

/-- The sum of `f` over the live keys. -/
def State.sum (f : KeyQueue → Int) (s : State) : Int :=
  (s.queues.values.map fun r => f (s.heap r)).sum

/-- The accounts of a queue. -/
structure Accounts (o : Options) (s : State) : Prop where
  pending : s.pendingCurrent = s.sum fun q => q.items.size
  waiting : ∀ k r, s.queues.get? k = some r →
    (s.heap r).items.Ok ∧ (s.heap r).items.size = (s.heap r).items.list.length
  running : s.runningCurrent = s.sum KeyQueue.running
  flights : ∀ k r, s.queues.get? k = some r →
    (s.heap r).running = s.flights.countP fun f => f.key = k
  budget : JsNumber.le (.ofInt s.runningCurrent) o.maxRunningTotal.value
  concurrency : ∀ k r, s.queues.get? k = some r → (s.heap r).running ≤ o.concurrency
  line : s.serviceLine.Ok ∧ s.serviceLine.keys.Nodup
  lineLive : ∀ k ∈ s.serviceLine.keys, ∃ r, s.queues.get? k = some r
  lineReady : ∀ k r, s.queues.get? k = some r →
    (k ∈ s.serviceLine.keys ↔ startable o (s.heap r) = true)
  total : (s.totals.pushedTotal : Int) = s.totals.completedTotal + s.totals.failedTotal +
    s.totals.clearedTotal + s.pendingCurrent + s.runningCurrent
  pushed : s.pushed.map Task.id = List.range s.totals.pushedTotal
  places : (s.waiting ++ s.flights.map Flight.task ++ s.settled.map Prod.fst).Perm s.pushed
  once : (s.settled.map Prod.fst).Nodup
  allSettled : s.runningCurrent = 0 → (s.settled.map Prod.fst).Perm s.pushed
  order : (s.called.map Flight.task).Pairwise fun t t' => t.key = t'.key → t.id < t'.id

section Accounts

variable {o : Options} {s : State}

theorem sum_indicator_eq_count (a : Nat) (rs : List Nat) :
    (rs.map fun r => if a = r then (1 : Int) else 0).sum = rs.count a := by
  induction rs with
  | nil => rfl
  | cons r rs ih =>
    rw [List.map_cons, List.sum_cons, List.count_cons]
    by_cases h : a = r
    · subst h
      simp only [beq_self_eq_true]
      push_cast
      omega
    · rw [if_neg h, if_neg (by simpa using Ne.symm h)]
      omega

/-- Counting flights by objects that are all among `rs` counts all of them. -/
theorem sum_countP_eq_length {rs : List Nat} (hnodup : rs.Nodup) {fs : List Flight}
    (hfs : ∀ f ∈ fs, f.q ∈ rs) :
    (rs.map fun r => ((fs.countP fun f => f.q = r : Nat) : Int)).sum = fs.length := by
  induction fs with
  | nil => simp
  | cons f fs ih =>
    have hrest := ih fun g hg => hfs g (List.mem_cons_of_mem _ hg)
    have hone : (rs.map fun r => if f.q = r then (1 : Int) else 0).sum = 1 := by
      rw [sum_indicator_eq_count, List.count_eq_one_of_mem hnodup (hfs f (by simp))]
      rfl
    have hsplit : (rs.map fun r => (((f :: fs).countP fun f => f.q = r : Nat) : Int)) =
        rs.map fun r => ((fs.countP fun f => f.q = r : Nat) : Int) +
          if f.q = r then (1 : Int) else 0 := by
      apply List.map_congr_left
      intro r _
      by_cases h : f.q = r
      · simp [h]
      · simp [h]
    rw [hsplit, List.sum_map_add, hrest, hone]
    rfl

theorem sum_running (hs : Stable o s) : s.runningCurrent = s.sum KeyQueue.running := by
  have hmap : (s.queues.values.map fun r => (s.heap r).running) =
      s.queues.values.map fun r => ((s.flights.countP fun f => f.q = r : Nat) : Int) := by
    apply List.map_congr_left
    intro r hr
    obtain ⟨k, hk⟩ := JsMap.mem_values_iff.mp hr
    exact hs.perKey k r hk
  rw [hs.running, State.sum, hmap, sum_countP_eq_length (JsMap.values_nodup hs.inj)]
  intro f hf
  exact JsMap.mem_values_iff.mpr ⟨f.key, (hs.flight f hf).1⟩

theorem sum_pending (hs : Stable o s) : s.pendingCurrent = s.sum fun q => q.items.size := by
  have hmap : (s.queues.values.map fun r => (((s.heap r).items.size : Nat) : Int)) =
      s.queues.values.map fun r => (((s.heap r).items.list.length : Nat) : Int) := by
    apply List.map_congr_left
    intro r hr
    obtain ⟨k, hk⟩ := JsMap.mem_values_iff.mp hr
    rw [hs.toRegistry.size_eq hk]
  rw [hs.pending, State.sum, hmap, State.waiting]
  induction s.queues.values with
  | nil => rfl
  | cons r rs ih =>
    rw [List.flatMap_cons, List.length_append, List.map_cons, List.sum_cons, ← ih]
    rfl

theorem mem_line_iff (hs : Stable o s) {k : JsString} {r : Nat} (h : s.queues.get? k = some r) :
    k ∈ s.serviceLine.keys ↔ startable o (s.heap r) = true := by
  constructor
  · intro hmem
    obtain ⟨i, hi, hkey⟩ := List.mem_map.mp hmem
    obtain ⟨r', hr', hnode⟩ := hs.named i hi
    rw [hkey, h] at hr'
    cases hr'
    exact hs.ready k r i h hnode
  · intro hst
    obtain ⟨i, hnode⟩ := Option.ne_none_iff_exists'.mp (hs.marked k r h (by simp) hst)
    obtain ⟨hi, hkey⟩ := hs.placed k r i h hnode
    exact List.mem_map.mpr ⟨i, hi, hkey⟩

theorem keys_nodup (hs : Lined o s) : s.serviceLine.keys.Nodup := by
  apply hs.linked.nodup.map_on
  intro i hi j hj heq
  obtain ⟨r, hr, hnode⟩ := hs.named i hi
  obtain ⟨r', hr', hnode'⟩ := hs.named j hj
  rw [heq, hr'] at hr
  cases hr
  rw [hnode] at hnode'
  exact Option.some.inj hnode'

theorem waiting_eq_nil (hs : Stable o s) (hrun : s.runningCurrent = 0) : s.waiting = [] := by
  have hroom : hasRoom o s := by
    have hpos := o.maxRunningTotal.pos
    have hlt : JsNumber.lt (.ofInt s.runningCurrent) (.ofNat 1) := by
      rw [JsNumber.lt_ofInt_ofNat]
      omega
    exact JsNumber.lt_of_lt_of_le hlt hpos
  have hline : s.serviceLine.keys = [] := by
    cases hs.idle with
    | inr hnot => exact absurd hroom hnot
    | inl hhead =>
      rw [hs.linked.head_eq, List.head?_eq_none_iff] at hhead
      rw [Line.keys, hhead]
      rfl
  have hflights : s.flights = [] := by
    have hlen := hs.running
    exact List.eq_nil_of_length_eq_zero (by omega)
  apply List.flatMap_eq_nil_iff.mpr
  intro r hr
  obtain ⟨k, hk⟩ := JsMap.mem_values_iff.mp hr
  have hzero : (s.heap r).running = 0 := by
    rw [hs.perKey k r hk, hflights]
    rfl
  have hsize : (s.heap r).items.size = 0 := by
    by_cases hsz : (s.heap r).items.size = 0
    · exact hsz
    · have hst : startable o (s.heap r) = true := by
        refine startable_iff.mpr ⟨hsz, ?_⟩
        have hpos := o.concurrency.property
        omega
      have hmem := (mem_line_iff hs hk).mpr hst
      rw [hline] at hmem
      exact absurd hmem List.not_mem_nil
  rw [hs.toRegistry.size_eq hk] at hsize
  exact List.eq_nil_of_length_eq_zero hsize

theorem budget_of_whole (hwhole : o.maxRunningTotal.Whole) (hs : Stable o s) :
    JsNumber.le (.ofInt s.runningCurrent) o.maxRunningTotal.value := by
  cases hwhole with
  | inl hinf =>
    rw [hinf]
    exact JsNumber.le_infinity (JsNumber.ofInt_ne_nan _)
  | inr hnat =>
    obtain ⟨n, hn⟩ := hnat
    have hrunning := hs.running
    rw [hn, JsNumber.le_ofInt_ofNat]
    by_cases hzero : s.runningCurrent = 0
    · omega
    · have hlast := hs.budget (s.runningCurrent - 1) (by omega) (by omega)
      rw [hn, JsNumber.lt_ofInt_ofNat] at hlast
      omega

/-- With a budget that is a whole number or infinite, every run of pushes,
clears, drains, microtasks and completions keeps the accounts. -/
theorem queue_accounts (hwhole : o.maxRunningTotal.Whole) {as : List Action}
    (h : (machine o).Runs Machine.Any as s) : Accounts o s := by
  have hs := stable_run h
  have hplaces := hs.places
  have hnodup := hs.toPlaced.places_nodup
  refine { pending := sum_pending hs, waiting := ?_, running := sum_running hs, flights := ?_,
           budget := budget_of_whole hwhole hs, concurrency := hs.bounded,
           line := ⟨hs.linked, keys_nodup hs.toLined⟩, lineLive := ?_,
           lineReady := fun k r hr => mem_line_iff hs hr, total := ?_, pushed := ?_,
           places := hplaces, once := (List.nodup_append.mp hnodup).2.1, allSettled := ?_,
           order := ?_ }
  · intro k r hr
    exact ⟨hs.fifo k r hr, hs.toRegistry.size_eq hr⟩
  · intro k r hr
    rw [hs.perKey k r hr]
    congr 1
    apply List.countP_congr
    intro f hf
    have hflight := (hs.flight f hf).1
    simp only [decide_eq_true_eq]
    constructor
    · intro hq
      exact hs.inj f.key k r (hq ▸ hflight) hr
    · intro hk
      rw [hk, hr] at hflight
      exact (Option.some.inj hflight).symm
  · intro k hk
    obtain ⟨i, hi, hkey⟩ := List.mem_map.mp hk
    obtain ⟨r, hr, -⟩ := hs.named i hi
    exact ⟨r, hkey ▸ hr⟩
  · have hlen := hplaces.length_eq
    have hpushed := hs.pushedTotal
    have hsettled := hs.settledTotal
    have hpending := hs.pending
    have hrunning := hs.running
    simp only [List.length_append, List.length_map] at hlen
    omega
  · rw [hs.pushedTotal]
    exact hs.ids
  · intro hrun
    have hflights : s.flights = [] := by
      have hlen := hs.running
      exact List.eq_nil_of_length_eq_zero (by omega)
    rw [waiting_eq_nil hs hrun, hflights] at hplaces
    exact hplaces
  · have hstarts := (List.pairwise_append.mp hs.starts).1
    exact List.pairwise_map.mpr hstarts

/-- **No key is left behind.**  After every run, under any options, `queues` has an
object for exactly the keys of the tasks that wait or run. -/
theorem registered_iff_busy {as : List Action} (h : (machine o).Runs Machine.Any as s)
    (k : JsString) : s.queues.get? k ≠ none ↔
      (∃ t ∈ s.waiting, t.key = k) ∨ ∃ f ∈ s.flights, f.task.key = k := by
  have hs := stable_run h
  constructor
  · intro hne
    obtain ⟨r, hr⟩ := Option.ne_none_iff_exists'.mp hne
    cases hs.live k r hr (by simp) with
    | inl hsize =>
      rw [hs.toRegistry.size_eq hr] at hsize
      obtain ⟨t, ht⟩ := List.exists_mem_of_length_pos (Nat.pos_of_ne_zero hsize)
      exact .inl ⟨t, mem_waiting hr ht, hs.queued k r hr t ht⟩
    | inr hrunning =>
      rw [hs.perKey k r hr] at hrunning
      obtain ⟨f, hf, hq⟩ := List.countP_pos_iff.mp (by omega :
        0 < s.flights.countP fun f => f.q = r)
      have hflight := hs.flight f hf
      rw [of_decide_eq_true hq] at hflight
      exact .inr ⟨f, hf, hflight.2.trans (hs.inj _ _ r hflight.1 hr)⟩
  · rintro (⟨t, ht, rfl⟩ | ⟨f, hf, rfl⟩)
    · obtain ⟨r, hr, hmem⟩ := List.mem_flatMap.mp ht
      obtain ⟨k, hk⟩ := JsMap.mem_values_iff.mp hr
      simp [hs.queued k r hk t hmem, hk]
    · simp [(hs.flight f hf).2, (hs.flight f hf).1]

end Accounts

def pushUnder (key : String) : Action := .push { key := some (js key) }

/-- The options of a queue that runs one task per key and `budget` in all. -/
def withBudget (budget : Cap) : Options where
  concurrency := ⟨1, Nat.one_pos⟩
  maxSize := ⟨.ofNat 1000000, by simp⟩
  maxKeys := ⟨.ofNat 1000000, by simp⟩
  maxPendingTotal := ⟨.ofNat 1000000, by simp⟩
  maxRunningTotal := budget
  maxKeyLength := ⟨256, maxKeyLength_pos⟩
  onDrop := false

theorem runs_two (o : Options) : (machine o).Runs Machine.Any
    [pushUnder "a", pushUnder "b"] (push o (push o .init ⟨some (js "a"), true, false⟩).1
      ⟨some (js "b"), true, false⟩).1 :=
  .snoc (.snoc .nil trivial rfl) trivial rfl

/-- Under a budget of one the second task waits, and the accounts hold. -/
theorem queue_accounts_two : Accounts (withBudget ⟨.ofNat 1, by simp⟩)
    (push (withBudget ⟨.ofNat 1, by simp⟩)
      (push (withBudget ⟨.ofNat 1, by simp⟩) .init ⟨some (js "a"), true, false⟩).1
      ⟨some (js "b"), true, false⟩).1 :=
  queue_accounts (Or.inr ⟨1, rfl⟩) (runs_two _)

/-- The key of the waiting task is live beside the one of the task that runs. -/
theorem registered_iff_busy_two : ∃ s,
    (machine (withBudget ⟨.ofNat 1, by simp⟩)).Runs Machine.Any
      [pushUnder "a", pushUnder "b"] s ∧
    (s.queues.get? (js "b") ≠ none ↔
      (∃ t ∈ s.waiting, t.key = js "b") ∨ ∃ f ∈ s.flights, f.task.key = js "b") :=
  ⟨_, runs_two _, registered_iff_busy (runs_two _) (js "b")⟩

/-- A budget that is no whole number. -/
def threeHalves : Cap := ⟨.ofRat (3 / 2), by decide +kernel⟩

/-- `createQueue` takes a budget of 1.5, and two tasks run under it. -/
theorem half_budget_passed :
    createQueue { maxRunningTotal := .number (.ofRat (3 / 2)) } = .ok (withBudget threeHalves) ∧
      ¬ ∀ as s, (machine (withBudget threeHalves)).Runs Machine.Any as s →
        Accounts (withBudget threeHalves) s := by
  refine ⟨by decide +kernel, ?_⟩
  intro h
  have hbudget := (h _ _ (runs_two _)).budget
  have hpassed : ¬ JsNumber.le (.ofInt (push (withBudget threeHalves)
      (push (withBudget threeHalves) .init ⟨some (js "a"), true, false⟩).1
      ⟨some (js "b"), true, false⟩).1.runningCurrent) (.ofRat (3 / 2)) := by
    decide +kernel
  exact hpassed hbudget

end BunServe.Queue
