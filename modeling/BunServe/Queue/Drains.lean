import BunServe.Lib.Departures
import BunServe.Queue.Fairness

/-!
# BunServe.Queue.Drains

When a drain resolves.

A drain waits in the object of its key, and `cleanup` resolves the drains of the
keys it forgets.  The rest of the queue does not touch them (`book_of`), so an
action is a change of a table with calls that wait for departures
(`change_next`).

* `drained_iff` — a drain has resolved exactly when its key has been without
  work since the call;
* `queue_serves` — what the queue owes its keys.
-/

namespace BunServe.Queue

open Departures (Book Opening Closing Change Waits)
open Function (update update_of_ne update_self)

/-! ## the drains as calls that wait -/

/-- The keys with the drains that wait with them. -/
def book (s : State) : Book JsString where
  table k := (s.queues.get? k).map fun r => (s.heap r).drains
  calls := s.drainCalls
  released := s.drained

section Book

variable {o : Options} {s s' : State} {k : JsString} {r : Nat}

theorem table_eq (h : s.queues.get? k = some r) : (book s).table k = some (s.heap r).drains := by
  simp only [book, h, Option.map_some]

theorem book_of (hq : s'.queues = s.queues) (hd : ∀ r, (s'.heap r).drains = (s.heap r).drains)
    (hc : s'.drainCalls = s.drainCalls) (hr : s'.drained = s.drained) : book s' = book s := by
  simp only [book, hq, hd, hc, hr]

theorem drains_put {v : KeyQueue} (hv : v.drains = (s.heap r).drains) (r' : Nat) :
    ((s.put r v).heap r').drains = (s.heap r').drains := by
  by_cases hr : r' = r
  · subst hr
    rw [put_self, hv]
  · rw [put_ne hr]

theorem book_markReady : book (markReady o s k r) = book s := by
  unfold markReady
  split
  · rfl
  · exact book_of rfl (drains_put rfl) rfl rfl

theorem book_unmarkReady : book (unmarkReady s r) = book s := by
  unfold unmarkReady
  split
  · rfl
  · exact book_of rfl (drains_put rfl) rfl rfl

theorem book_start : book (start s k r) = book s := by
  unfold start
  split
  · rfl
  · exact book_of rfl (drains_put rfl) rfl rfl

theorem book_startNow : book (startNow o s k r) = book s := by
  unfold startNow
  split
  · exact book_start
  · rfl

theorem book_visit {node : Nat} : book (visit o s node) = book s := by
  unfold visit
  dsimp only
  split
  · rfl
  · split
    · rw [book_markReady, book_start]
      exact book_of rfl (drains_put rfl) rfl rfl
    · exact book_of rfl (drains_put rfl) rfl rfl

theorem book_pumpLoop {n : Nat} : book (pumpLoop o n s) = book s := by
  induction n generalizing s with
  | zero => rfl
  | succ n ih =>
    rw [pumpLoop]
    split
    · rfl
    · split
      · rw [ih, book_visit]
      · rfl

theorem book_schedule : book (schedule o s k r) = book s := by
  rw [schedule, pump, book_pumpLoop, book_markReady, book_startNow]

theorem book_enqueue : book (enqueue s k r) = book s :=
  book_of rfl (drains_put rfl) rfl rfl

theorem book_finish {f : Flight} {ok : Bool} : book (finish s f ok) = book s :=
  book_of rfl (drains_put rfl) rfl rfl

theorem book_rejectLoop {n : Nat} : book (rejectLoop k r n s) = book s := by
  induction n generalizing s with
  | zero => rfl
  | succ n ih =>
    rw [rejectLoop, ih]
    unfold rejectOne
    split
    · rfl
    · exact book_of rfl (drains_put rfl) rfl rfl

end Book

/-! ## the actions -/

section Actions

variable {o : Options} {s : State} {k : JsString} {r : Nat}

theorem opening_register (hreg : Registry s) (h : s.queues.get? k = none) :
    Opening (book s) (book (register s k)) := by
  have hnone : (book s).table k = none := by simp only [book, h, Option.map_none]
  have hbook : book (register s k) =
      { book s with table := update (book s).table k (some []) } := by
    apply Book.ext
    · funext k'
      show ((register s k).queues.get? k').map (fun r => ((register s k).heap r).drains) =
        update (book s).table k (some []) k'
      rw [get_register]
      by_cases hk : k' = k
      · subst hk
        rw [if_pos rfl, update_self]
        show some (update s.heap s.nextQueue emptyQueue s.nextQueue).drains = some []
        rw [update_self]
        rfl
      · rw [if_neg hk, update_of_ne hk]
        cases hget : s.queues.get? k' with
        | none => simp only [book, hget, Option.map_none]
        | some r' =>
          have hne : r' ≠ s.nextQueue := Nat.ne_of_lt (hreg.fresh k' r' hget)
          rw [table_eq hget]
          show some (update s.heap s.nextQueue emptyQueue r').drains = _
          rw [update_of_ne hne]
    · rfl
    · rfl
  rw [hbook]
  exact Opening.enter hnone

theorem closing_cleanup (s : State) (k : JsString) :
    Relation.ReflTransGen Closing (book s) (book (cleanup s k)) := by
  unfold cleanup
  split
  · exact .refl
  rename_i r h
  split
  · have hsame : SameWork s (unmarkReady s r) := sameWork_unmarkReady
    have hbook : book (forget (unmarkReady s r) k ((unmarkReady s r).heap r).drains) =
        { book (unmarkReady s r) with
          table := update (book (unmarkReady s r)).table k none
          released := (book (unmarkReady s r)).released ++
            ((unmarkReady s r).heap r).drains } := by
      apply Book.ext
      · funext k'
        show (((unmarkReady s r).queues.delete k).get? k').map
            (fun r' => ((unmarkReady s r).heap r').drains) =
          update (book (unmarkReady s r)).table k none k'
        rw [JsMap.get?_delete]
        by_cases hk : k' = k
        · subst hk
          rw [if_pos rfl, update_self, Option.map_none]
        · rw [if_neg hk, update_of_ne hk]
          rfl
      · rfl
      · rfl
    have hget : (unmarkReady s r).queues.get? k = some r := by rw [hsame.queues, h]
    have hstep := Closing.leave (table_eq hget)
    rw [← hbook, book_unmarkReady] at hstep
    exact .single hstep
  · exact .refl

theorem change_accept (hs : Stable o s) (k : JsString) : Change (book s) (book (accept o s k)) := by
  unfold accept
  split
  · rw [book_schedule, book_enqueue]
    exact Change.same
  · next h =>
    rw [book_schedule, book_enqueue]
    exact Change.opening (opening_register hs.toRegistry h)

theorem change_push (hs : Stable o s) (req : Request) :
    Change (book s) (book (push o s req).1) := by
  unfold push
  split
  · exact Change.same
  · next key _ =>
    split
    · exact Change.same
    · exact change_accept hs key

variable {t : State}

theorem change_complete {id : Nat} {ok : Bool} (h : complete o s id ok = some t) :
    Change (book s) (book t) := by
  unfold complete at h
  split at h
  · contradiction
  · next f _ =>
    cases h
    have hclose := closing_cleanup (schedule o (finish s f ok) f.key f.q) f.key
    rw [book_schedule, book_finish] at hclose
    exact Or.inr hclose

theorem closing_clearEntry (s : State) (e : JsString × Nat) :
    Relation.ReflTransGen Closing (book s) (book (clearEntry s e)) := by
  have hclose := closing_cleanup (rejectWaiting s e.1 e.2) e.1
  rw [rejectWaiting, book_rejectLoop, book_unmarkReady] at hclose
  exact hclose

theorem change_clear (s : State) (key : Option JsString) : Change (book s) (book (clear s key)) := by
  right
  cases key with
  | some k =>
    rw [clear]
    split
    · exact .refl
    · exact closing_clearEntry s _
  | none =>
    show Relation.ReflTransGen Closing (book s) (book (s.queues.entries.foldl clearEntry s))
    generalize s.queues.entries = es
    induction es generalizing s with
    | nil => exact .refl
    | cons e es ih => exact (closing_clearEntry s e).trans (ih (clearEntry s e))

theorem opening_drainKey (hs : Stable o s) (k : JsString) :
    Opening (book s) (book (drainKey s k)) := by
  unfold drainKey
  cases h : s.queues.get? k with
  | none =>
    simp only [h]
    exact Opening.go
  | some r =>
    simp only [h]
    split
    · exact Opening.go
    have hbook : book { s.put r { s.heap r with
          drains := (s.heap r).drains ++ [s.drainCalls] } with
          drainCalls := s.drainCalls + 1 } =
        { book s with
          table := update (book s).table k
            (some ((s.heap r).drains ++ [(book s).calls]))
          calls := (book s).calls + 1 } := by
      apply Book.ext
      · funext k'
        show (s.queues.get? k').map (fun r' => ((s.put r _).heap r').drains) =
          update (book s).table k _ k'
        by_cases hk : k' = k
        · subst hk
          rw [h, update_self, Option.map_some, put_self]
          rfl
        · rw [update_of_ne hk]
          cases hget : s.queues.get? k' with
          | none => simp only [book, hget, Option.map_none]
          | some r' =>
            have hne : r' ≠ r := by
              rintro rfl
              exact hk (hs.inj k' k r' hget h)
            rw [table_eq hget, Option.map_some, put_ne hne]
      · rfl
      · rfl
    have hstep := Opening.wait (table_eq h)
    rw [← hbook] at hstep
    exact hstep

theorem change_drain (hs : Stable o s) (key : Option JsString) :
    Change (book s) (book (drain s key)) := by
  left
  cases key with
  | some k => exact .single (opening_drainKey hs k)
  | none =>
    show Relation.ReflTransGen Opening (book s) (book (s.queues.keys.foldl drainKey s))
    generalize s.queues.keys = ks
    induction ks generalizing s with
    | nil => exact .refl
    | cons k ks ih => exact .head (opening_drainKey hs k) (ih (stable_drainKey hs k))

theorem change_turn (h : turn s = some t) : Change (book s) (book t) := by
  unfold turn at h
  split at h
  · contradiction
  · cases h
    exact Change.same

/-- **Step lemma**: an action adds keys and drains, or takes keys away. -/
theorem change_next (hs : Stable o s) {a : Action}
    (h : (machine o).next s a = some t) : Change (book s) (book t) := by
  cases a with
  | push req => exact Option.some.inj h ▸ change_push hs req
  | clear key => exact Option.some.inj h ▸ change_clear s key
  | drain key => exact Option.some.inj h ▸ change_drain hs key
  | turn => exact change_turn h
  | complete id ok => exact change_complete h

/-! ## runs -/

/-- **Run lemma**: every drain is in one place. -/
theorem book_run {as : List Action} (h : (machine o).Runs Machine.Any as s) : (book s).Ok := by
  revert h
  refine Machine.Runs.invariant_of (I := fun s => (book s).Ok) stable_run ?_ ?_
  · have hnone (k : JsString) (i : Nat) : ¬ Waits (book State.init) k i := by
      intro hw
      obtain ⟨ds, hds, -⟩ := hw
      contradiction
    exact ⟨fun _ hi => absurd hi List.not_mem_nil, fun k i hw => absurd hw (hnone k i),
      fun k _ i hw => absurd hw (hnone k i)⟩
  · intro s a s' hs hok _ hn
    exact (change_next hs hn).ok hok

theorem size_eq_zero_iff (hs : Stable o s) (k : JsString) :
    size s (some k) = 0 ↔ s.queues.get? k = none := by
  cases h : s.queues.get? k with
  | none => simp [size, h]
  | some r =>
    have hpos := hs.running_nonneg h
    have hlive := hs.live k r h (by simp)
    simp only [size, h]
    constructor
    · intro hzero
      omega
    · intro hnone
      contradiction

theorem table_none (h : (book s).table k = none) : s.queues.get? k = none := by
  simpa only [book, Option.map_eq_none_iff] using h

theorem drained_exec {i : Nat} (hs : Stable o s) {bs : List Action}
    (h : (machine o).exec s bs = some t) (hi : i ∈ s.drained) : i ∈ t.drained := by
  induction bs generalizing s with
  | nil => exact Option.some.inj h ▸ hi
  | cons a bs ih =>
    obtain ⟨u, hu, hrest⟩ := Option.bind_eq_some_iff.mp h
    exact ih (stable_next hs hu) hrest ((change_next hs hu).released hi)

theorem waits_exec {i : Nat} (hs : Stable o s) (hok : (book s).Ok) (hw : Waits (book s) k i)
    {bs : List Action} (h : (machine o).exec s bs = some t) :
    i ∈ t.drained ↔ ∃ cs ds u, bs = cs ++ ds ∧ (machine o).exec s cs = some u ∧
      size u (some k) = 0 := by
  induction bs generalizing s with
  | nil =>
    obtain rfl := Option.some.inj h
    have hpending : i ∉ s.drained := (hok.waiting k i hw).2
    constructor
    · intro hi
      exact absurd hi hpending
    intro hex
    obtain ⟨cs, ds, u, hsplit, hu, hzero⟩ := hex
    obtain ⟨rfl, rfl⟩ := List.append_eq_nil_iff.mp hsplit.symm
    cases hu
    obtain ⟨ds, hds, -⟩ := hw
    have hnone := (size_eq_zero_iff hs k).mp hzero
    simp only [book, hnone] at hds
    contradiction
  | cons a bs ih =>
    obtain ⟨v, hv, hrest⟩ := Option.bind_eq_some_iff.mp h
    have hstable := stable_next hs hv
    have hchange := change_next hs hv
    cases hw.change hchange with
    | inl hwaits =>
      rw [ih hstable (hchange.ok hok) hwaits hrest]
      constructor
      · intro hex
        obtain ⟨cs, ds, u, hsplit, hu, hzero⟩ := hex
        refine ⟨a :: cs, ds, u, by rw [hsplit, List.cons_append], ?_, hzero⟩
        exact Option.bind_eq_some_iff.mpr ⟨v, hv, hu⟩
      · intro hex
        obtain ⟨cs, ds, u, hsplit, hu, hzero⟩ := hex
        cases cs with
        | nil =>
          cases hu
          obtain ⟨es, hes, -⟩ := hw
          have hnone := (size_eq_zero_iff hs k).mp hzero
          simp only [book, hnone] at hes
          contradiction
        | cons c cs =>
          obtain ⟨rfl, hrests⟩ := List.cons.inj hsplit
          obtain ⟨v', hv', hu⟩ := Option.bind_eq_some_iff.mp hu
          rw [hv] at hv'
          cases hv'
          exact ⟨cs, ds, u, hrests, hu, hzero⟩
    | inr hdone =>
      constructor
      · intro _
        refine ⟨[a], bs, v, rfl, ?_, (size_eq_zero_iff hstable k).mpr (table_none hdone.2)⟩
        exact Option.bind_eq_some_iff.mpr ⟨v, hv, rfl⟩
      · intro _
        exact drained_exec hstable hrest hdone.1

theorem drained_iff (hs : Stable o s) (hok : (book s).Ok) (k : JsString) {bs : List Action}
    (h : (machine o).exec (drainKey s k) bs = some t) :
    s.drainCalls ∈ t.drained ↔ ∃ cs ds u, bs = cs ++ ds ∧
      (machine o).exec (drainKey s k) cs = some u ∧ size u (some k) = 0 := by
  have hdrain := stable_drainKey hs k
  have hbook := (opening_drainKey hs k).ok hok
  cases hzero : decide (size s (some k) = 0) with
  | true =>
    have hnone := (size_eq_zero_iff hs k).mp (of_decide_eq_true hzero)
    have hnow : drainKey s k =
        { s with drainCalls := s.drainCalls + 1, drained := s.drained ++ [s.drainCalls] } := by
      simp only [drainKey, hnone]
    constructor
    · intro _
      refine ⟨[], bs, drainKey s k, rfl, rfl, ?_⟩
      rw [size_eq_zero_iff hdrain, hnow]
      exact hnone
    · intro _
      apply drained_exec hdrain h
      rw [hnow]
      exact List.mem_append_right _ (List.mem_singleton_self _)
  | false =>
    have hsome : s.queues.get? k ≠ none := by
      intro hnone
      exact of_decide_eq_false hzero ((size_eq_zero_iff hs k).mpr hnone)
    obtain ⟨r, hr⟩ := Option.ne_none_iff_exists'.mp hsome
    have hwork : ¬ ((s.heap r).items.size = 0 ∧ (s.heap r).running = 0) := by
      have hlive := hs.live k r hr (by simp)
      omega
    apply waits_exec hdrain hbook _ h
    have hwait : drainKey s k = { s.put r { s.heap r with
        drains := (s.heap r).drains ++ [s.drainCalls] } with
        drainCalls := s.drainCalls + 1 } := by
      simp only [drainKey, hr]
      exact if_neg hwork
    rw [hwait]
    refine ⟨(s.heap r).drains ++ [s.drainCalls], ?_, by simp⟩
    show (s.queues.get? k).map (fun r' => ((s.put r _).heap r').drains) = _
    rw [hr, Option.map_some, put_self]

end Actions

/-- What a queue owes its keys. -/
structure Serves (o : Options) (s : State) : Prop where
  conserving : hasRoom o s → ∀ k r, s.queues.get? k = some r → (s.heap r).items.size ≠ 0 →
    ¬ (s.heap r).running < o.concurrency
  fair : ∀ b r, s.queues.get? b = some r → startable o (s.heap r) = true → ∀ bs t,
    (machine o).exec s bs = some t → (∀ a ∈ bs, ¬ Clears b a) →
      ∃ d, t.started.map Flight.key = s.started.map Flight.key ++ d ∧
        (d.takeWhile fun k => k ≠ b).Nodup
  drains : ∀ k bs t, (machine o).exec (drainKey s k) bs = some t →
    (s.drainCalls ∈ t.drained ↔ ∃ cs ds u, bs = cs ++ ds ∧
      (machine o).exec (drainKey s k) cs = some u ∧ size u (some k) = 0)

/-- Every run of pushes, clears, drains, microtasks and completions leaves the
queue to serve its keys. -/
theorem queue_serves {o : Options} {as : List Action} {s : State}
    (h : (machine o).Runs Machine.Any as s) : Serves o s where
  conserving hroom _ _ := work_conserving (stable_run h) hroom
  fair _ _ hget hst _ _ ht hbs := fair_starts (stable_run h) hget hst hbs ht
  drains k _ _ ht := drained_iff (stable_run h) (book_run h) k ht

/-- Two tasks of two keys under a budget of one. -/
theorem queue_serves_two : Serves (withBudget ⟨.ofNat 1, by simp⟩)
    (push (withBudget ⟨.ofNat 1, by simp⟩)
      (push (withBudget ⟨.ofNat 1, by simp⟩) .init ⟨some (js "a"), true, false⟩).1
      ⟨some (js "b"), true, false⟩).1 :=
  queue_serves (runs_two _)

end BunServe.Queue
