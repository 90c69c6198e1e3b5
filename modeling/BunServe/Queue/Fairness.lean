import BunServe.Lib.RoundRobin
import BunServe.Queue.Accounting

/-!
# BunServe.Queue.Fairness

Who is served when.

The service line and the log of started tasks change by the steps of a line
served round-robin (`turns_next`), so its fairness is the queue's.

* `work_conserving` — while the budget has room no key that may start a task has
  one waiting;
* `fair_starts` — until a ready key has started a task, no other starts two.
-/

namespace BunServe.Queue

open RoundRobin (Turns Step Steps)

/-! ## work conservation -/

theorem work_conserving {o : Options} {s : State} (hs : Stable o s) (hroom : hasRoom o s)
    {k : JsString} {r : Nat} (h : s.queues.get? k = some r) (hwait : (s.heap r).items.size ≠ 0) :
    ¬ (s.heap r).running < o.concurrency := by
  intro hconc
  have hmem := (mem_line_iff hs h).mpr (startable_iff.mpr ⟨hwait, hconc⟩)
  cases hs.idle with
  | inr hnot => exact hnot hroom
  | inl hhead =>
    rw [hs.linked.head_eq, List.head?_eq_none_iff] at hhead
    rw [Line.keys, hhead] at hmem
    exact absurd hmem List.not_mem_nil

/-! ## the line as a line served round-robin -/

def turns (s : State) : Turns JsString := ⟨s.serviceLine.keys, s.started.map Flight.key⟩

section Turns

variable {o : Options} {s : State} {hole : Option Nat} {k b : JsString} {r : Nat}

theorem keys_append {l : Line JsString} (h : l.Ok) (k : JsString) :
    (l.append k).2.keys = l.keys ++ [k] := by
  rw [Line.keys, h.ids_append, List.map_append, List.map_singleton, Line.key_append_new]
  congr 1
  apply List.map_congr_left
  intro i hi
  exact h.key_append_old k hi

theorem keys_remove {K : Type} [DecidableEq K] {l : Line K} (h : l.Ok) (hn : l.keys.Nodup) {i : Nat}
    (hi : i ∈ l.ids) : (l.remove i).keys = l.keys.erase (l.key i) := by
  obtain ⟨xs, ys, hids⟩ := List.append_of_mem hi
  have hkeys : l.keys = xs.map l.key ++ l.key i :: ys.map l.key := by
    rw [Line.keys, hids, List.map_append, List.map_cons]
  have hx : i ∉ xs := by
    intro hmem
    have hnd := h.nodup
    rw [hids] at hnd
    exact (List.nodup_cons.mp (List.nodup_middle.mp hnd)).1 (List.mem_append_left _ hmem)
  have hk : l.key i ∉ xs.map l.key := by
    intro hmem
    rw [hkeys] at hn
    exact (List.nodup_cons.mp (List.nodup_middle.mp hn)).1 (List.mem_append_left _ hmem)
  rw [Line.keys, (h.remove hi).2, Line.key_remove, hids, List.erase_append_right _ hx,
    List.erase_cons_head, List.map_append, hkeys, List.erase_append_right _ hk,
    List.erase_cons_head]

theorem keys_remove_head {K : Type} [DecidableEq K] {l : Line K} (h : l.Ok) (hn : l.keys.Nodup)
    {i : Nat} {is : List Nat} (hids : l.ids = i :: is) : (l.remove i).keys = is.map l.key := by
  have hmem : i ∈ l.ids := by
    rw [hids]
    exact List.mem_cons_self
  rw [keys_remove h hn hmem, Line.keys, hids, List.map_cons, List.erase_cons_head]

theorem keys_eq_nil (hi : Lined o s) (hhead : s.serviceLine.head = none) :
    s.serviceLine.keys = [] := by
  rw [hi.linked.head_eq, List.head?_eq_none_iff] at hhead
  rw [Line.keys, hhead, List.map_nil]

theorem turns_markReady (hi : Lined o s) (h : s.queues.get? k = some r) :
    Steps b (turns s) (turns (markReady o s k r)) := by
  unfold markReady
  split
  · exact Relation.ReflTransGen.refl
  rename_i hcond
  have hnone : (s.heap r).lineNode = none := by
    cases hnode : (s.heap r).lineNode with
    | none => rfl
    | some i => exact absurd (Or.inl (by simp [hnode])) hcond
  have hnot : k ∉ s.serviceLine.keys := by
    intro hmem
    obtain ⟨i, hi', hkey⟩ := List.mem_map.mp hmem
    exact hi.not_in_line h hi' (by rw [hnone]; simp) hkey
  have hline := keys_append hi.linked k
  apply Relation.ReflTransGen.single
  show Step b (turns s) ⟨(s.serviceLine.append k).2.keys, s.started.map Flight.key⟩
  rw [hline]
  exact Step.join hnot

theorem turns_start (hreg : Registry s) (h : s.queues.get? k = some r)
    (hsize : (s.heap r).items.size ≠ 0) :
    turns (start s k r) = ⟨s.serviceLine.keys, s.started.map Flight.key ++ [k]⟩ := by
  obtain ⟨t, items, hshift, -, -⟩ := hreg.shift h hsize
  have hstarted := started_start (k := k) hshift
  have hline : (start s k r).serviceLine = s.serviceLine := by
    rw [start_eq hshift]
    rfl
  rw [turns, hstarted, hline, List.map_append, List.map_singleton]

theorem turns_startNow (hi : Inv o hole s) (h : s.queues.get? k = some r) :
    Steps b (turns s) (turns (startNow o s k r)) := by
  unfold startNow
  split
  · next hcond =>
    obtain ⟨hhead, hst, -⟩ := hcond
    have hnil := keys_eq_nil hi.toLined hhead
    rw [turns_start hi.toRegistry h (startable_iff.mp hst).1, turns, hnil]
    exact Relation.ReflTransGen.single Step.alone
  · exact Relation.ReflTransGen.refl

/-- A turn of `pump` serves the head, which may join again. -/
theorem turns_visit (hi : Inv o hole s) {node : Nat} (hhead : s.serviceLine.head = some node)
    (hroom : hasRoom o s) : Steps b (turns s) (turns (visit o s node)) := by
  have hids : s.serviceLine.ids.head? = some node := by rw [← hi.linked.head_eq, hhead]
  have hmem : node ∈ s.serviceLine.ids := List.mem_of_head? hids
  obtain ⟨r, h, hn, hvisit⟩ := visit_eq hi hmem
  have hsame : SameWork s (unmarkReady s r) := sameWork_unmarkReady
  have hget : (unmarkReady s r).queues.get? (s.serviceLine.key node) = some r := by
    rw [hsame.queues, h]
  have hunmarked := inv_unmarkReady hi h
  have hst : startable o ((unmarkReady s r).heap r) = true := by
    rw [hsame.startable_eq]
    exact hi.ready _ r node h hn
  have hstarted := inv_start hunmarked hget hst (hsame.hasRoom_iff.mpr hroom)
    (lined_unmarkReady hi.toLined h).2
  obtain ⟨t, items, hshift, -, -⟩ := hunmarked.toRegistry.shift hget (startable_iff.mp hst).1
  have hgetStarted : (start (unmarkReady s r) (s.serviceLine.key node) r).queues.get?
      (s.serviceLine.key node) = some r := by
    rw [start_eq hshift]
    exact hget
  have hline : (unmarkReady s r).serviceLine = s.serviceLine.remove node := by
    simp only [unmarkReady, hn]
  have hserve : Step b (turns s) (turns (start (unmarkReady s r) (s.serviceLine.key node) r)) := by
    obtain ⟨is, hcons⟩ : ∃ is, s.serviceLine.ids = node :: is := by
      cases hlist : s.serviceLine.ids with
      | nil => simp [hlist] at hids
      | cons i is =>
        rw [hlist] at hids
        exact ⟨is, by rw [Option.some.inj hids]⟩
    have hkeys : s.serviceLine.keys = s.serviceLine.key node :: is.map s.serviceLine.key := by
      rw [Line.keys, hcons, List.map_cons]
    have hrest : (unmarkReady s r).serviceLine.keys = is.map s.serviceLine.key := by
      rw [hline, keys_remove_head hi.linked (keys_nodup hi.toLined) hcons]
    rw [turns_start hunmarked.toRegistry hget (startable_iff.mp hst).1, hsame.started, hrest,
      turns, hkeys]
    exact Step.serve
  rw [hvisit]
  exact Relation.ReflTransGen.head hserve (turns_markReady hstarted.toLined hgetStarted)

theorem turns_pumpLoop {n : Nat} (hi : Inv o hole s) (hm : Marked o none s) :
    Steps b (turns s) (turns (pumpLoop o n s)) := by
  induction n generalizing s with
  | zero => exact Relation.ReflTransGen.refl
  | succ n ih =>
    rw [pumpLoop]
    cases hhead : s.serviceLine.head with
    | none => exact Relation.ReflTransGen.refl
    | some node =>
      by_cases hroom : hasRoom o s
      · have hnode : node ∈ s.serviceLine.ids := by
          have hids := hhead
          rw [hi.linked.head_eq] at hids
          exact List.mem_of_head? hids
        obtain ⟨hvisit, -⟩ := pumped_visit hi hm hroom hnode
        simp only [if_pos hroom]
        exact (turns_visit hi hhead hroom).trans (ih hvisit.inv hvisit.marked)
      · simp only [if_neg hroom]
        exact Relation.ReflTransGen.refl

theorem turns_schedule (hi : Inv o hole s) (hm : Marked o (some r) s)
    (h : s.queues.get? k = some r) : Steps b (turns s) (turns (schedule o s k r)) := by
  obtain ⟨hnow, hmarked, hqueues⟩ := inv_startNow hi hm h
  have hget : (startNow o s k r).queues.get? k = some r := by rw [hqueues, h]
  have hpump := turns_pumpLoop (b := b) (n := turnsLeft (markReady o (startNow o s k r) k r))
    (inv_markReady hnow hget) (marked_markReady hmarked)
  exact (turns_startNow hi h).trans ((turns_markReady hnow.toLined hget).trans hpump)

theorem unmarkReady_idle (hi : Lined o s) (h : s.queues.get? k = some r)
    (hsize : (s.heap r).items.size = 0) : unmarkReady s r = s := by
  cases hnode : (s.heap r).lineNode with
  | none => simp only [unmarkReady, hnode]
  | some i => exact absurd hsize (startable_iff.mp (hi.ready k r i h hnode)).1

theorem turns_cleanup (hi : Lined o s) : turns (cleanup s k) = turns s := by
  unfold cleanup
  split
  · rfl
  · next r h =>
    split
    · next hcond =>
      rw [unmarkReady_idle hi h hcond.2]
      rfl
    · rfl

theorem turns_enqueue : turns (enqueue s k r) = turns s := rfl

theorem turns_register : turns (register s k) = turns s := rfl

theorem turns_finish (f : Flight) (ok : Bool) : turns (finish s f ok) = turns s := rfl

theorem turns_accept (hs : Stable o s) (k : JsString) :
    Steps b (turns s) (turns (accept o s k)) := by
  unfold accept
  split
  · next r h =>
    have hinv := inv_enqueue (hs.toInv.weaken (some r)) h
    have hmarked := marked_enqueue (k := k) (hs.marked.weaken (some r))
    rw [← turns_enqueue]
    exact turns_schedule hinv hmarked h
  · next h =>
    have hget : (register s k).queues.get? k = some s.nextQueue := by
      rw [get_register, if_pos rfl]
    have hinv := inv_enqueue (inv_register hs.toInv h) hget
    have hmarked := marked_enqueue (k := k) (marked_register (k := k) hs.toRegistry hs.marked)
    rw [← turns_register, ← turns_enqueue]
    exact turns_schedule hinv hmarked hget

theorem turns_push (hs : Stable o s) (req : Request) :
    Steps b (turns s) (turns (push o s req).1) := by
  unfold push
  split
  · exact Relation.ReflTransGen.refl
  · next key _ =>
    split
    · exact Relation.ReflTransGen.refl
    · exact turns_accept hs key

variable {t : State}

theorem turns_complete (hs : Stable o s) {id : Nat} {ok : Bool}
    (h : complete o s id ok = some t) : Steps b (turns s) (turns t) := by
  unfold complete at h
  split at h
  · contradiction
  rename_i f hfind
  cases h
  have hf : f ∈ s.active := List.mem_of_find?_eq_some hfind
  have hq := (hs.flight f (List.mem_append_right _ hf)).1
  have hfinish : Inv o (some f.q) (finish s f ok) := inv_finish hs.toInv hf
  have hmarked : Marked o (some f.q) (finish s f ok) := marked_finish hs.marked
  obtain ⟨hpumped, -⟩ := pumped_schedule hfinish hmarked hq
  rw [turns_cleanup hpumped.inv.toLined, ← turns_finish f ok]
  exact turns_schedule hfinish hmarked hq

theorem turns_turn (h : turn s = some t) : turns t = turns s := by
  unfold turn at h
  split at h
  · contradiction
  · next f jobs hjobs =>
    cases h
    have hstarted : (s.called ++ [f]) ++ jobs = s.started := by
      rw [State.started, hjobs, List.append_assoc]
      rfl
    show Turns.mk s.serviceLine.keys (((s.called ++ [f]) ++ jobs).map Flight.key) = turns s
    rw [hstarted, turns]

theorem turns_drain (key : Option JsString) : turns (drain s key) = turns s := by
  have hone (s : State) (k : JsString) : turns (drainKey s k) = turns s := by
    unfold drainKey
    cases h : s.queues.get? k with
    | none => simp only [h]; rfl
    | some r =>
      simp only [h]
      split <;> rfl
  cases key with
  | some k => exact hone s k
  | none =>
    show turns (s.queues.keys.foldl drainKey s) = turns s
    generalize s.queues.keys = ks
    induction ks generalizing s with
    | nil => rfl
    | cons k ks ih => exact (ih).trans (hone s k)

theorem turns_rejectLoop {n : Nat} : turns (rejectLoop k r n s) = turns s := by
  induction n generalizing s with
  | zero => rfl
  | succ n ih =>
    rw [rejectLoop, ih]
    unfold rejectOne
    split <;> rfl

theorem turns_clearEntry (hs : Stable o s) (h : s.queues.get? k = some r) (hne : k ≠ b) :
    Steps b (turns s) (turns (clearEntry s (k, r))) := by
  have hsame : SameWork s (unmarkReady s r) := sameWork_unmarkReady
  have hget : (unmarkReady s r).queues.get? k = some r := by rw [hsame.queues, h]
  obtain ⟨hinv, -, -, -⟩ := inv_rejectLoop
    ((inv_unmarkReady hs.toInv h).weaken (some r)) (marked_unmarkReady hs.marked)
    (idle_unmarkReady hs.toLined h hs.idle) hget (lined_unmarkReady hs.toLined h).2
    (by rw [hsame.items])
  have hclear : turns (clearEntry s (k, r)) = turns (unmarkReady s r) := by
    show turns (cleanup (rejectLoop k r (s.heap r).items.size (unmarkReady s r)) k) = _
    rw [turns_cleanup hinv.toLined, turns_rejectLoop]
  rw [hclear]
  cases hnode : (s.heap r).lineNode with
  | none =>
    have hkept : unmarkReady s r = s := by simp only [unmarkReady, hnode]
    rw [hkept]
  | some i =>
    obtain ⟨hmem, hkey⟩ := hs.placed k r i h hnode
    have hline : (unmarkReady s r).serviceLine = s.serviceLine.remove i := by
      simp only [unmarkReady, hnode]
    have hkeys := keys_remove hs.linked (keys_nodup hs.toLined) hmem
    rw [hkey] at hkeys
    apply Relation.ReflTransGen.single
    rw [turns, turns, hsame.started, hline, hkeys]
    exact Step.leave hne

/-- A clear that rejects the waiting tasks of `b`. -/
def Clears (b : JsString) : Action → Prop
  | .clear none => True
  | .clear (some k) => k = b
  | _ => False

/-- **Step lemma**: an action serves the line round-robin, and takes nobody out
of it but the key it clears. -/
theorem turns_next (hs : Stable o s) {a : Action} (ha : ¬ Clears b a)
    (h : (machine o).next s a = some t) : Steps b (turns s) (turns t) := by
  cases a with
  | push req => exact Option.some.inj h ▸ turns_push hs req
  | clear key =>
    cases h
    cases key with
    | none => exact absurd trivial ha
    | some k =>
      rw [clear]
      cases hk : s.queues.get? k with
      | none => exact Relation.ReflTransGen.refl
      | some r => exact turns_clearEntry hs hk ha
  | drain key =>
    cases h
    rw [turns_drain]
  | turn => rw [turns_turn h]
  | complete id ok => exact turns_complete hs h

/-- **Run lemma**. -/
theorem turns_exec (hs : Stable o s) {bs : List Action} (hbs : ∀ a ∈ bs, ¬ Clears b a)
    (h : (machine o).exec s bs = some t) : Steps b (turns s) (turns t) := by
  induction bs generalizing s with
  | nil =>
    cases h
    exact Relation.ReflTransGen.refl
  | cons a bs ih =>
    obtain ⟨u, hu, hrest⟩ := Option.bind_eq_some_iff.mp h
    have hstep := turns_next hs (hbs a (by simp)) hu
    exact hstep.trans (ih (stable_next hs hu) (fun a ha => hbs a (List.mem_cons_of_mem _ ha)) hrest)

/-- From a state in which `b` is ready, the tasks started before one of `b` are
of different keys. -/
theorem fair_starts (hs : Stable o s) (h : s.queues.get? b = some r)
    (hst : startable o (s.heap r) = true) {bs : List Action} (hbs : ∀ a ∈ bs, ¬ Clears b a)
    (ht : (machine o).exec s bs = some t) :
    ∃ d, t.started.map Flight.key = s.started.map Flight.key ++ d ∧
      (d.takeWhile fun k => k ≠ b).Nodup :=
  RoundRobin.fair (turns_exec hs hbs ht) (keys_nodup hs.toLined) ((mem_line_iff hs h).mpr hst)

end Turns

end BunServe.Queue
