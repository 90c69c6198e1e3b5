import BunServe.Smooth.Convergence
import Mathlib.Algebra.Order.BigOperators.Group.List
import Mathlib.Data.Nat.Find
import Mathlib.Logic.Function.Iterate

/-!
# BunServe.Smooth.Budget

Draining under a command budget, against draining without one.

A bounded tick takes a prefix of an entity's own queue and leaves the rest for
the next one; injected commands are unpaced.  So an entity that has both
injected commands and more own ones than the budget sees the injected ones
between its prefixes (`budget_shows`).  No other entity can tell the two
apart once all its commands are applied: after as many ticks as its queue needs,
its record is the one that one unbounded drain leaves (`catches_up`).

* `paced_drain` — drained under a budget until idle, an authority ends with the
  entities, the events of each entity and the last acknowledgements that
  unbounded drains leave; without `onMissing` one of them is enough.
-/

namespace BunServe.Smooth.Budget

open Server Convergence
open Function (iterate_succ_apply iterate_succ_apply')

variable {State Cmd Data Ws : Type}

/-! ## draining again and again -/

/-- The same authority without a budget. -/
def unbounded (o : Config State Cmd Data) : Config State Cmd Data :=
  { o with
    maxCommandsPerTick := none
    budget_pos := by simp }

section Drains

variable [DecidableEq State]

/-- `n` drains in which nothing throws, one after the other. -/
def drains (o : Config State Cmd Data) (n : Nat) (a : Authority State Cmd Ws) :
    Authority State Cmd Ws :=
  (fun a => (drain o noThrows a).authority)^[n] a

/-- Drain number `n`, counted from 0, is the first to answer `idle`. -/
def IdleAt (o : Config State Cmd Data) (a : Authority State Cmd Ws) (n : Nat) : Prop :=
  (drain o noThrows (drains o n a)).result.idle = true ∧
    ∀ i < n, (drain o noThrows (drains o i a)).result.idle = false

/-- What `n` drains acknowledge to the owner of an entity. -/
def acksOf (o : Config State Cmd Data) (a : Authority State Cmd Ws) (key : String) (n : Nat) :
    List (Ack State Ws) :=
  (List.range n).flatMap fun i =>
    (drain o noThrows (drains o i a)).result.acks.filter fun ack => ack.key = key

/-- What an entity emits in `n` drains. -/
def eventsOf (o : Config State Cmd Data) (a : Authority State Cmd Ws) (key : String) (n : Nat) :
    List (Sent Data Ws) :=
  (List.range n).flatMap fun i => (shareOf o (drains o i a) key).events

end Drains

/-! ## one entity -/

/-- An entity with what it has emitted and the last acknowledgement. -/
structure Seen (State Cmd Data Ws : Type) where
  entity : Entity State Cmd Ws
  events : List (Sent Data Ws)
  ack : Option (Ack State Ws)

variable {e : Entity State Cmd Ws} {n : Nat}

section Entity

variable [DecidableEq State] {o : Config State Cmd Data} {key : String}

/-- An entity through one drain. -/
def next (o : Config State Cmd Data) (key : String) (v : Seen State Cmd Data Ws) :
    Seen State Cmd Data Ws :=
  let share := drainEntity o noThrows key v.entity
  { entity := share.entity
    events := v.events ++ share.result.events
    ack := share.result.acks.getLast?.or v.ack }

/-- Nothing is left to do for an entity. -/
structure Rested (e : Entity State Cmd Ws) : Prop where
  queue : e.queue = []
  serverQueue : e.serverQueue = []
  active : e.active = false

omit [DecidableEq State] in
theorem runBatch_unbounded (t : Throws State Cmd) (s : State) (cs : List (Command Cmd)) :
    runBatch (unbounded o) t key s cs = runBatch o t key s cs := by
  induction cs generalizing s with
  | nil => rfl
  | cons c cs ih =>
    simp only [runBatch, ih]
    rfl

omit [DecidableEq State] in
theorem foldBatch_unbounded (s : State) (cs : List (Command Cmd)) :
    foldBatch (unbounded o) key s cs = foldBatch o key s cs := by
  apply Option.some.inj
  rw [← runBatch_noThrows, ← runBatch_noThrows]
  exact runBatch_unbounded noThrows s cs

theorem drainEntity_unbounded (h : waiting o e.queue = []) :
    drainEntity (unbounded o) noThrows key e = drainEntity o noThrows key e := by
  have hbatch : batch o e.queue = e.queue := by
    have happend := batch_append_waiting o e.queue
    rwa [h, List.append_nil] at happend
  have hown : ownerPhase (unbounded o) noThrows key e = ownerPhase o noThrows key e := by
    unfold ownerPhase
    simp only [hbatch, h, runBatch_unbounded]
    rfl
  have hserver (e : Entity State Cmd Ws) :
      serverPhase (unbounded o) noThrows key e = serverPhase o noThrows key e := by
    unfold serverPhase
    rw [runBatch_unbounded]
  obtain ⟨own, hsome⟩ := ownerPhase_noThrows o key e
  unfold drainEntity
  simp only [hown, hsome, hserver]

/-- An entity after its own commands of a tick. -/
def applied (o : Config State Cmd Data) (key : String) (e : Entity State Cmd Ws) :
    Entity State Cmd Ws :=
  { e with
    state := (foldBatch o key e.state (batch o e.queue)).1
    queue := waiting o e.queue
    lastAckedId := lastId (batch o e.queue) e.lastAckedId
    lastCommand := ((batch o e.queue).getLast?.map (·.cmd)).or e.lastCommand
    active := true }

variable {v : Seen State Cmd Data Ws}

theorem next_own (o : Config State Cmd Data) (key : String)
    (h : v.entity.queue ≠ []) (hs : v.entity.serverQueue = []) : next o key v = {
      entity := applied o key v.entity
      events := v.events ++ (foldBatch o key v.entity.state (batch o v.entity.queue)).2.map
        (attributed v.entity.ws true)
      ack := some { key, ws := v.entity.ws, id := (applied o key v.entity).lastAckedId,
                    state := (applied o key v.entity).state } } := by
  have hown : ownerPhase o noThrows key v.entity = some {
      entity := applied o key v.entity
      events := (foldBatch o key v.entity.state (batch o v.entity.queue)).2.map
        (attributed v.entity.ws true)
      applied := true
      notes := _ } := ownerPhase_commands o key (List.length_pos_iff.mpr h)
  have hserver : serverPhase o noThrows key (applied o key v.entity) = some {
      entity := applied o key v.entity, events := [], applied := false, notes := [] } :=
    serverPhase_empty o noThrows key hs
  simp only [next, drainEntity, hown, hserver, List.append_nil]
  rfl

omit [DecidableEq State] in
theorem foldBatch_queue (o : Config State Cmd Data) (key : String) (e : Entity State Cmd Ws) :
    (foldBatch o key e.state e.queue).1 =
      (foldBatch o key (applied o key e).state (waiting o e.queue)).1 ∧
    (foldBatch o key e.state e.queue).2 = (foldBatch o key e.state (batch o e.queue)).2 ++
      (foldBatch o key (applied o key e).state (waiting o e.queue)).2 := by
  have hfold := foldBatch_append o key e.state (batch o e.queue) (waiting o e.queue)
  rw [batch_append_waiting] at hfold
  rw [hfold]
  exact ⟨rfl, rfl⟩

omit [DecidableEq State] in
theorem applied_applied (key : String) (h : waiting o e.queue ≠ []) :
    applied (unbounded o) key (applied o key e) = applied (unbounded o) key e := by
  obtain ⟨c, hrest⟩ : ∃ c, (waiting o e.queue).getLast? = some c :=
    ⟨_, List.getLast?_eq_some_getLast h⟩
  have hlast : e.queue.getLast? = some c := by
    calc e.queue.getLast? = (batch o e.queue ++ waiting o e.queue).getLast? := by
          rw [batch_append_waiting]
      _ = some c := by rw [List.getLast?_append, hrest, Option.some_or]
  have hstate := (foldBatch_queue o key e).1
  show ({ e with
    state := (foldBatch (unbounded o) key (applied o key e).state (waiting o e.queue)).1
    queue := []
    lastAckedId := ((waiting o e.queue).getLast?.map (·.id)).getD (applied o key e).lastAckedId
    lastCommand := ((waiting o e.queue).getLast?.map (·.cmd)).or (applied o key e).lastCommand
    active := true } : Entity State Cmd Ws) = { e with
    state := (foldBatch (unbounded o) key e.state e.queue).1
    queue := []
    lastAckedId := (e.queue.getLast?.map (·.id)).getD e.lastAckedId
    lastCommand := (e.queue.getLast?.map (·.cmd)).or e.lastCommand
    active := true }
  rw [hlast, hrest, foldBatch_unbounded, foldBatch_unbounded, hstate]
  rfl

theorem next_unbounded_next (h : waiting o v.entity.queue ≠ []) (hs : v.entity.serverQueue = []) :
    next (unbounded o) key (next o key v) = next (unbounded o) key v := by
  have hqueue : v.entity.queue ≠ [] := by
    intro hnil
    exact h (by rw [hnil, waiting_nil])
  have hentity := applied_applied key h
  have hevents := (foldBatch_queue o key v.entity).2
  rw [next_own o key hqueue hs, next_own (unbounded o) key hqueue hs,
    next_own (unbounded o) key (v := ⟨applied o key v.entity, _, _⟩) h hs]
  simp only [hentity]
  congr 1
  show (v.events ++ (foldBatch o key v.entity.state (batch o v.entity.queue)).2.map
      (attributed v.entity.ws true)) ++
    (foldBatch (unbounded o) key (applied o key v.entity).state (waiting o v.entity.queue)).2.map
      (attributed v.entity.ws true) =
    v.events ++ (foldBatch (unbounded o) key v.entity.state v.entity.queue).2.map
      (attributed v.entity.ws true)
  rw [foldBatch_unbounded, foldBatch_unbounded, hevents, List.append_assoc, List.map_append]

/-- An entity whose injected commands do not come between its own. -/
def Apart (o : Config State Cmd Data) (e : Entity State Cmd Ws) : Prop :=
  e.serverQueue = [] ∨ waiting o e.queue = []

theorem next_unbounded (h : waiting o v.entity.queue = []) :
    next (unbounded o) key v = next o key v := by
  simp only [next, drainEntity_unbounded h]

theorem queue_next (v : Seen State Cmd Data Ws) :
    (next o key v).entity.queue = waiting o v.entity.queue :=
  (drainEntity_served o key v.entity).queue

omit [DecidableEq State] in
theorem serverPhase_clears {t : Throws State Cmd} {ph : Phase State Cmd Data Ws}
    (h : serverPhase o t key e = some ph) :
    ph.entity.serverQueue = [] ∧ ph.entity.active = e.active ∧
      (ph.applied = false → e.serverQueue = []) := by
  unfold serverPhase at h
  split at h
  · split at h
    · contradiction
    cases h
    exact ⟨rfl, rfl, fun happlied => absurd happlied (by simp)⟩
  · next hempty =>
    have hnil : e.serverQueue = [] := by simpa using hempty
    cases h
    exact ⟨hnil, rfl, fun _ => hnil⟩

theorem serverQueue_next (v : Seen State Cmd Data Ws) : (next o key v).entity.serverQueue = [] := by
  obtain ⟨own, hown⟩ := ownerPhase_noThrows o key v.entity
  obtain ⟨server, hserver⟩ := serverPhase_noThrows o key own.entity
  simp only [next, drainEntity, hown, hserver]
  exact (serverPhase_clears hserver).1

/-- **Step lemma**: as many ticks as the queue needs make one unbounded one. -/
theorem catches_up (key : String) (h : Apart o v.entity) :
    ∃ k, k ≤ v.entity.queue.length ∧ (next o key)^[k + 1] v = next (unbounded o) key v := by
  generalize hn : v.entity.queue.length = n
  induction n using Nat.strong_induction_on generalizing v with
  | _ n ih =>
    by_cases hall : waiting o v.entity.queue = []
    · exact ⟨0, Nat.zero_le _, (next_unbounded hall).symm⟩
    have hs : v.entity.serverQueue = [] := h.resolve_right hall
    have hless : (next o key v).entity.queue.length < n := by
      have hsplit := congrArg List.length (batch_append_waiting o v.entity.queue)
      have hrest := List.length_pos_iff.mpr hall
      rw [List.length_append] at hsplit
      have hbatch : 0 < (batch o v.entity.queue).length :=
        List.length_pos_iff.mpr (batch_ne_nil (by omega))
      rw [queue_next]
      omega
    obtain ⟨k, hk, heq⟩ := ih _ hless (Or.inl (serverQueue_next v)) rfl
    refine ⟨k + 1, by omega, ?_⟩
    rw [iterate_succ_apply, heq, next_unbounded_next hall hs]

theorem iterate_unbounded (h : v.entity.queue = []) (j : Nat) :
    (next o key)^[j] v = (next (unbounded o) key)^[j] v := by
  induction j generalizing v with
  | zero => rfl
  | succ j ih =>
    have hnone : waiting o v.entity.queue = [] := by rw [h, waiting_nil]
    rw [iterate_succ_apply, iterate_succ_apply, next_unbounded hnone]
    exact ih ((queue_next v).trans hnone)

/-- **Run lemma**: behind as many ticks as the queue needs, the runs are one. -/
theorem shift (key : String) (h : Apart o v.entity) :
    ∃ k, k ≤ v.entity.queue.length ∧
      ∀ j, (next o key)^[j + 1 + k] v = (next (unbounded o) key)^[j + 1] v := by
  obtain ⟨k, hk, heq⟩ := catches_up key h
  refine ⟨k, hk, fun j => ?_⟩
  have hqueue : (next (unbounded o) key v).entity.queue = [] := queue_next v
  calc (next o key)^[j + 1 + k] v = (next o key)^[j] ((next o key)^[k + 1] v) := by
        rw [← Function.iterate_add_apply]
        congr 1
        omega
    _ = (next (unbounded o) key)^[j] (next (unbounded o) key v) := by
        rw [heq, iterate_unbounded hqueue]
    _ = (next (unbounded o) key)^[j + 1] v := (iterate_succ_apply _ j v).symm

/-! ## coming to rest -/

theorem drainEntity_rested {t : Throws State Cmd} (h : Rested e) :
    drainEntity o t key e = {
      entity := e, result := { updates := [], acks := [], events := [], idle := true },
      failed := false, notes := [] } := by
  have hqueue : ¬ e.queue.length > 0 := by simp [h.queue]
  have hown : ownerPhase o t key e =
      some { entity := e, events := [], applied := false, notes := [] } := by
    have hactive : ({ e with active := false } : Entity State Cmd Ws) = e := by
      rw [← h.active]
    unfold ownerPhase
    rw [if_neg hqueue, h.active]
    simp only [hactive]
  simp only [drainEntity, hown, serverPhase_empty o t key h.serverQueue]
  simp [ackOf, updateOf, h.queue, h.active]

theorem next_rested (h : Rested v.entity) : next o key v = v := by
  simp [next, drainEntity_rested h]

theorem iterate_rested {m : Nat} (hnm : n ≤ m)
    (h : Rested ((next o key)^[n] v).entity) : (next o key)^[m] v = (next o key)^[n] v := by
  obtain ⟨d, rfl⟩ := Nat.exists_eq_add_of_le hnm
  induction d with
  | zero => rfl
  | succ d ih =>
    have hsame := ih (Nat.le_add_right n d)
    rw [← Nat.add_assoc, iterate_succ_apply', hsame, next_rested h]

theorem rested_of_idle {t : Throws State Cmd}
    (h : (drainEntity o t key e).result.idle = true) :
    (drainEntity o t key e).failed = false ∧ Rested (drainEntity o t key e).entity := by
  unfold drainEntity at h ⊢
  cases hown : ownerPhase o t key e with
  | none => simp [hown] at h
  | some own =>
    cases hserver : serverPhase o t key own.entity with
    | none => simp [hown, hserver] at h
    | some server =>
      simp only [hown, hserver, Bool.not_eq_true', Bool.or_eq_false_iff, decide_eq_false_iff_not,
        gt_iff_lt, List.length_pos_iff, not_not] at h
      simp only [hserver]
      exact ⟨trivial, h.1.2, (serverPhase_clears hserver).1, h.1.1⟩

theorem rest_unique (h : Apart o v.entity) {m : Nat} (hn : Rested ((next o key)^[n] v).entity)
    (hm : Rested ((next (unbounded o) key)^[m] v).entity) :
    (next o key)^[n] v = (next (unbounded o) key)^[m] v := by
  obtain ⟨k, -, hshift⟩ := shift key h
  calc (next o key)^[n] v = (next o key)^[n + m + 1 + k] v :=
        (iterate_rested (by omega) hn).symm
    _ = (next (unbounded o) key)^[n + m + 1] v := hshift (n + m)
    _ = (next (unbounded o) key)^[m] v := iterate_rested (by omega) hm

/-- Without `onMissing` an entity without commands falls asleep. -/
theorem next_asleep (ho : o.onMissing = none)
    (hq : v.entity.queue = []) (hs : v.entity.serverQueue = []) :
    next o key v = { v with entity := { v.entity with active := false } } := by
  have hqueue : ¬ v.entity.queue.length > 0 := by simp [hq]
  have hown : ownerPhase o noThrows key v.entity = some {
      entity := { v.entity with active := false }, events := [], applied := false, notes := [] } := by
    unfold ownerPhase
    rw [if_neg hqueue, ho]
    cases v.entity.active <;> rfl
  have hserver := serverPhase_empty o noThrows key
    (e := { v.entity with active := false }) hs
  simp [next, drainEntity, hown, hserver, ackOf]

end Entity

/-! ## all entities -/

section All

variable [DecidableEq State] {o : Config State Cmd Data} {a : Authority State Cmd Ws} {key : String}

def fresh (e : Entity State Cmd Ws) : Seen State Cmd Data Ws := ⟨e, [], none⟩

theorem drain_get? (o : Config State Cmd Data) (a : Authority State Cmd Ws) (key : String) :
    (drain o noThrows a).authority.entities.get? key =
      (a.entities.get? key).map fun e => (drainEntity o noThrows key e).entity := by
  obtain ⟨hin, hout, -⟩ := drainKeys_noThrows o a.entities.nodup a
  by_cases hkey : key ∈ a.entities.keys
  · exact hin key hkey
  · have hnone := JsMap.get?_eq_none_iff.mpr hkey
    rw [hnone, Option.map_none, ← hnone]
    exact hout key hkey

theorem drain_acks (o : Config State Cmd Data) (a : Authority State Cmd Ws) (key : String) :
    (drain o noThrows a).result.acks.filter (fun ack => ack.key = key) =
      (shareOf o a key).acks := by
  have hkeys : ∀ k, ∀ ack ∈ (shareOf o a k).acks, ack.key = k := by
    intro k ack hack
    unfold shareOf at hack
    split at hack
    · contradiction
    · next e he =>
      rw [(drainEntity_served o k e).acks] at hack
      split at hack
      · contradiction
      · rw [List.mem_singleton.mp hack]
  have hother : ∀ k ∈ a.entities.keys, k ≠ key →
      (shareOf o a k).acks.filter (fun ack => ack.key = key) = [] := by
    intro k _ hk
    rw [List.filter_eq_nil_iff]
    intro ack hack
    simpa [hkeys k ack hack] using hk
  have hself : (shareOf o a key).acks.filter (fun ack => ack.key = key) = (shareOf o a key).acks := by
    rw [List.filter_eq_self]
    intro ack hack
    simpa using hkeys key ack hack
  have hall : (drain o noThrows a).result.acks =
      a.entities.keys.flatMap fun k => (shareOf o a k).acks :=
    (drainKeys_noThrows o a.entities.nodup a).2.2.1
  have hnodup : a.entities.keys.Nodup := a.entities.nodup
  rw [hall]
  by_cases hkey : key ∈ a.entities.keys
  · rw [filter_flatMap hnodup hkey hother, hself]
  · have hnone : (shareOf o a key).acks = [] := by
      simp [shareOf, JsMap.get?_eq_none_iff.mpr hkey]
    rw [hnone, List.filter_flatMap, List.flatMap_eq_nil_iff]
    intro k hk
    apply hother k hk
    rintro rfl
    exact hkey hk

theorem drainKeys_idle {keys : List String} (hnodup : keys.Nodup) (a : Authority State Cmd Ws) :
    (drainKeys o noThrows keys a).result.idle = true ↔ ∀ k ∈ keys, (shareOf o a k).idle = true := by
  induction keys generalizing a with
  | nil => simp [drainKeys]
  | cons key keys ih =>
    have hcons := List.nodup_cons.mp hnodup
    rw [drainKeys, List.forall_mem_cons]
    cases he : a.entities.get? key with
    | none =>
      have hself : (shareOf o a key).idle = true := by simp only [shareOf, he]
      simp only [ih hcons.2, hself, true_and]
    | some e =>
      have hfailed := drainEntity_noThrows o key e
      have hself : shareOf o a key = (drainEntity o noThrows key e).result := by
        simp only [shareOf, he]
      have hothers : ∀ k ∈ keys, shareOf o { a with
          entities := a.entities.set key (drainEntity o noThrows key e).entity } k =
          shareOf o a k := by
        intro k hk
        have hne : k ≠ key := fun heq => hcons.1 (heq ▸ hk)
        simp only [shareOf, JsMap.get?_set_ne _ _ hne]
      simp only [hfailed, Bool.false_eq_true, if_false, Result.append, Bool.and_eq_true]
      rw [ih hcons.2, hself]
      refine and_congr_right fun _ => forall₂_congr fun k hk => ?_
      rw [hothers k hk]

theorem drain_idle (o : Config State Cmd Data) (a : Authority State Cmd Ws) :
    (drain o noThrows a).result.idle = true ↔
      ∀ key e, a.entities.get? key = some e →
        (drainEntity o noThrows key e).result.idle = true := by
  refine (drainKeys_idle a.entities.nodup a).trans ?_
  constructor
  · intro h key e he
    have hidle := h key (JsMap.mem_keys_iff.mpr ⟨e, he⟩)
    simpa only [shareOf, he] using hidle
  · intro h key hkey
    obtain ⟨e, he⟩ := JsMap.mem_keys_iff.mp hkey
    simpa only [shareOf, he] using h key e he

theorem drains_succ (n : Nat) : drains o (n + 1) a = (drain o noThrows (drains o n a)).authority :=
  iterate_succ_apply' ..

theorem drains_get? (n : Nat) : (drains o n a).entities.get? key =
    (a.entities.get? key).map fun e => ((next o key)^[n] (fresh e)).entity := by
  induction n with
  | zero =>
    show a.entities.get? key = _
    cases a.entities.get? key <;> rfl
  | succ n ih =>
    rw [drains_succ, drain_get?, ih, Option.map_map]
    congr 1
    funext e
    rw [iterate_succ_apply']
    rfl

theorem shareOf_drains (n : Nat) (he : a.entities.get? key = some e) :
    shareOf o (drains o n a) key =
      (drainEntity o noThrows key ((next o key)^[n] (fresh e)).entity).result := by
  have hget : (drains o n a).entities.get? key = _ := drains_get? n
  rw [he, Option.map_some] at hget
  simp only [shareOf, hget]

theorem eventsOf_eq (n : Nat) (he : a.entities.get? key = some e) :
    eventsOf o a key n = ((next o key)^[n] (fresh e)).events := by
  induction n with
  | zero => rfl
  | succ n ih =>
    have hshare := shareOf_drains (o := o) n he
    unfold eventsOf at ih ⊢
    rw [List.range_succ, List.flatMap_append, ih, List.flatMap_singleton, hshare,
      iterate_succ_apply']
    rfl

theorem acksOf_eq (n : Nat) (he : a.entities.get? key = some e) :
    (acksOf o a key n).getLast? = ((next o key)^[n] (fresh e)).ack := by
  induction n with
  | zero => rfl
  | succ n ih =>
    have hshare := shareOf_drains (o := o) n he
    unfold acksOf at ih ⊢
    rw [List.range_succ, List.flatMap_append, List.getLast?_append, ih, List.flatMap_singleton,
      drain_acks, hshare, iterate_succ_apply']
    rfl

theorem rested_of_drain_idle (h : (drain o noThrows (drains o n a)).result.idle = true)
    (he : a.entities.get? key = some e) : Rested ((next o key)^[n + 1] (fresh e)).entity := by
  rw [iterate_succ_apply']
  refine (rested_of_idle ?_).2
  apply (drain_idle o _).mp h key
  rw [drains_get?, he, Option.map_some]

theorem drain_idle_of_rested (h : ∀ key e, a.entities.get? key = some e →
    Rested ((next o key)^[n] (fresh e)).entity) :
    (drain o noThrows (drains o n a)).result.idle = true := by
  refine (drain_idle o _).mpr fun key e' he' => ?_
  rw [drains_get?] at he'
  obtain ⟨e, he, rfl⟩ := Option.map_eq_some_iff.mp he'
  rw [drainEntity_rested (h key e he)]

theorem idleAt_of_idle (h : (drain o noThrows (drains o n a)).result.idle = true) :
    ∃ m, IdleAt o a m := by
  have hex : ∃ n, (drain o noThrows (drains o n a)).result.idle = true := ⟨n, h⟩
  refine ⟨Nat.find hex, Nat.find_spec hex, fun i hi => ?_⟩
  exact Bool.eq_false_iff.mpr (Nat.find_min hex hi)

/-- No entity with injected commands keeps own commands for a later tick. -/
def Unmixed (o : Config State Cmd Data) (a : Authority State Cmd Ws) : Prop :=
  ∀ key e, a.entities.get? key = some e → Apart o e

/-- Two ways to drain an authority with the same outcome. -/
structure SameRun (o : Config State Cmd Data) (n : Nat) (o' : Config State Cmd Data) (n' : Nat)
    (a : Authority State Cmd Ws) : Prop where
  entities : ∀ key, (drains o n a).entities.get? key = (drains o' n' a).entities.get? key
  events : ∀ key, eventsOf o a key n = eventsOf o' a key n'
  acked : ∀ key, (acksOf o a key n).getLast? = (acksOf o' a key n').getLast?

theorem shareOf_absent (n : Nat) (he : a.entities.get? key = none) :
    shareOf o (drains o n a) key = { updates := [], acks := [], events := [], idle := true } := by
  have hget : (drains o n a).entities.get? key = none := by rw [drains_get?, he, Option.map_none]
  simp only [shareOf, hget]

theorem eventsOf_absent (n : Nat) (he : a.entities.get? key = none) : eventsOf o a key n = [] := by
  simp [eventsOf, shareOf_absent _ he]

theorem acksOf_absent (n : Nat) (he : a.entities.get? key = none) : acksOf o a key n = [] := by
  simp [acksOf, drain_acks, shareOf_absent _ he]

theorem sameRun_of_eq {o' : Config State Cmd Data} {n' : Nat}
    (h : ∀ key e, a.entities.get? key = some e →
      (next o key)^[n] (fresh e) = (next o' key)^[n'] (fresh e)) : SameRun o n o' n' a where
  entities key := by
    rw [drains_get?, drains_get?]
    cases he : a.entities.get? key with
    | none => rfl
    | some e => rw [Option.map_some, Option.map_some, h key e he]
  events key := by
    cases he : a.entities.get? key with
    | none => rw [eventsOf_absent n he, eventsOf_absent n' he]
    | some e => rw [eventsOf_eq n he, eventsOf_eq n' he, h key e he]
  acked key := by
    cases he : a.entities.get? key with
    | none => rw [acksOf_absent n he, acksOf_absent n' he]
    | some e => rw [acksOf_eq n he, acksOf_eq n' he, h key e he]

omit [DecidableEq State] in
theorem exists_bound (a : Authority State Cmd Ws) :
    ∃ l, ∀ key e, a.entities.get? key = some e → e.queue.length ≤ l := by
  refine ⟨(a.entities.values.map fun e => e.queue.length).sum, fun key e he => ?_⟩
  have hmem : e ∈ a.entities.values := JsMap.mem_values_iff.mpr ⟨key, he⟩
  exact List.single_le_sum (fun _ _ => Nat.zero_le _) _ (List.mem_map_of_mem hmem)

/-- Without `onMissing` two unbounded drains leave every entity at rest. -/
theorem rested_two (key : String) (ho : o.onMissing = none) (v : Seen State Cmd Data Ws) :
    (next (unbounded o) key)^[2] v = { next (unbounded o) key v with
      entity := { (next (unbounded o) key v).entity with active := false } } ∧
    Rested ((next (unbounded o) key)^[2] v).entity := by
  have hasleep : next (unbounded o) key (next (unbounded o) key v) = _ :=
    next_asleep ho (queue_next v) (serverQueue_next v)
  rw [show (next (unbounded o) key)^[2] v = _ from hasleep]
  exact ⟨rfl, queue_next v, serverQueue_next v, rfl⟩

/-- What a budget leaves of an authority that is drained until idle. -/
structure Paced (o : Config State Cmd Data) (a : Authority State Cmd Ws) : Prop where
  idles : (∃ n, IdleAt o a n) ↔ ∃ n, IdleAt (unbounded o) a n
  same : ∀ n m, IdleAt o a n → IdleAt (unbounded o) a m → SameRun o (n + 1) (unbounded o) (m + 1) a
  empties : ∀ n, IdleAt o a n → ∀ key e, (drains o (n + 1) a).entities.get? key = some e →
    e.queue = [] ∧ e.serverQueue = []
  settles : o.onMissing = none → ∃ n, IdleAt o a n
  once : o.onMissing = none → ∀ n, IdleAt o a n → ∀ key,
    (drains o (n + 1) a).entities.get? key =
      ((drains (unbounded o) 1 a).entities.get? key).map (fun e => { e with active := false }) ∧
    eventsOf o a key (n + 1) = eventsOf (unbounded o) a key 1 ∧
    (acksOf o a key (n + 1)).getLast? = (acksOf (unbounded o) a key 1).getLast?

theorem idles_iff (h : Unmixed o a) : (∃ n, IdleAt o a n) ↔ ∃ n, IdleAt (unbounded o) a n := by
  constructor
  · rintro ⟨n, hn⟩
    apply idleAt_of_idle
    apply drain_idle_of_rested
    intro key e he
    have hrest := rested_of_drain_idle hn.1 he
    obtain ⟨k, -, hshift⟩ := shift key (v := fresh e) (h key e he)
    rw [← hshift n, iterate_rested (Nat.le_add_right _ k) hrest]
    exact hrest
  · rintro ⟨m, hm⟩
    obtain ⟨l, hl⟩ := exists_bound a
    apply idleAt_of_idle
    apply drain_idle_of_rested
    intro key e he
    have hrest := rested_of_drain_idle hm.1 he
    obtain ⟨k, hk, hshift⟩ := shift key (v := fresh e) (h key e he)
    rw [← hshift m] at hrest
    have hle : m + 1 + k ≤ m + 1 + l := Nat.add_le_add_left (hk.trans (hl key e he)) _
    rw [iterate_rested hle hrest]
    exact hrest

theorem paced_of_unmixed (h : Unmixed o a) : Paced o a where
  idles := idles_iff h
  same n m hn hm := by
    apply sameRun_of_eq
    intro key e he
    exact rest_unique (h key e he) (rested_of_drain_idle hn.1 he) (rested_of_drain_idle hm.1 he)
  empties n hn key e' he' := by
    rw [drains_get?] at he'
    obtain ⟨e, he, rfl⟩ := Option.map_eq_some_iff.mp he'
    have hrest := rested_of_drain_idle hn.1 he
    exact ⟨hrest.queue, hrest.serverQueue⟩
  settles ho := by
    apply (idles_iff h).mpr
    apply idleAt_of_idle
    apply drain_idle_of_rested
    intro key e _
    exact (rested_two _ ho (fresh e)).2
  once ho n hn key := by
    cases he : a.entities.get? key with
    | none =>
      refine ⟨?_, ?_, ?_⟩
      · simp only [drains_get?, he, Option.map_none]
      · rw [eventsOf_absent _ he, eventsOf_absent _ he]
      · rw [acksOf_absent _ he, acksOf_absent _ he]
    | some e =>
      obtain ⟨htwo, hrest⟩ := rested_two key ho (fresh e)
      have hsame := rest_unique (h key e he) (rested_of_drain_idle hn.1 he) hrest
      rw [htwo] at hsame
      refine ⟨?_, ?_, ?_⟩
      · simp only [drains_get?, he, Option.map_some, hsame]
        rfl
      · rw [eventsOf_eq _ he, eventsOf_eq _ he, hsame]
        rfl
      · rw [acksOf_eq _ he, acksOf_eq _ he, hsame]
        rfl

/-- **Pacing**: unless injected commands come between the own commands of an
entity, an authority drained under a budget becomes idle exactly when unbounded
drains do, with every queue empty and the same entities, events of each entity
and last acknowledgements; without `onMissing` it becomes idle, and one unbounded
drain is enough.  From the first drain on no injected command is left, so the
same holds of every authority behind its first drain. -/
theorem paced_drain (o : Config State Cmd Data) (a : Authority State Cmd Ws) :
    (Unmixed o a → Paced o a) ∧ Paced o (drains o 1 a) := by
  refine ⟨paced_of_unmixed, paced_of_unmixed ?_⟩
  intro key e' he'
  rw [drains_get?] at he'
  obtain ⟨e, -, rfl⟩ := Option.map_eq_some_iff.mp he'
  exact Or.inl (serverQueue_next (fresh e))

end All

/-! ## commands that note themselves -/

/-- States that list the commands applied, two at a time. -/
def pairs : Config (List Int) Int Unit where
  apply s c _ := (s ++ [c], [])
  onMissing := none
  queueCap := 8
  maxCommandsPerTick := some 2
  cap_pos := by decide
  budget_pos := by simp

/-- Three commands of the owner. -/
def three : Authority (List Int) Int Unit :=
  (enqueue pairs (ensure createSmoothAuthority "a" () [] false).2.1 "a"
    (some [some ⟨1, 1⟩, some ⟨2, 2⟩, some ⟨3, 3⟩])).2.1

/-- One of the server beside them. -/
def mixed : Authority (List Int) Int Unit := (inject pairs three "a" 9).2.1

/-- States that drift until they are long enough. -/
def drifting : Config (List Int) Int Unit :=
  { pairs with onMissing := some fun s _ => if s.length < 5 then some (s ++ [0]) else none }

theorem paced_drain_three : Paced pairs three := by
  refine (paced_drain pairs three).1 ?_
  intro key e he
  have hall : ∀ p ∈ three.entities.entries, p.2.serverQueue = [] := by decide +kernel
  exact Or.inl (hall (key, e) (JsMap.mem_entries_iff.mpr he))

/-- Drained until idle, an authority has the states of one unbounded drain. -/
def LikeOneDrain [DecidableEq State] (o : Config State Cmd Data) (a : Authority State Cmd Ws) :
    Prop :=
  ∀ n, IdleAt o a n → ∀ key, ((drains o (n + 1) a).entities.get? key).map (·.state) =
    ((drains (unbounded o) 1 a).entities.get? key).map (·.state)

/-- An injected command overtakes the own commands that wait for the second
tick; `onMissing` goes on while a drain is not idle; and every prefix is
acknowledged. -/
theorem budget_shows : ¬ LikeOneDrain pairs mixed ∧ ¬ LikeOneDrain drifting three ∧
    (acksOf pairs three "a" 3).map (·.id) = [2, 3] ∧
    (acksOf (unbounded pairs) three "a" 1).map (·.id) = [3] := by
  have hmixed : IdleAt pairs mixed 2 := by
    unfold IdleAt
    decide +kernel
  have hthree : IdleAt drifting three 4 := by
    unfold IdleAt
    decide +kernel
  refine ⟨?_, ?_, by decide +kernel, by decide +kernel⟩
  · intro h
    have hstates : ((drains pairs 3 mixed).entities.get? "a").map (·.state) ≠
        ((drains (unbounded pairs) 1 mixed).entities.get? "a").map (·.state) := by
      decide +kernel
    exact hstates (h 2 hmixed "a")
  · intro h
    have hstates : ((drains drifting 5 three).entities.get? "a").map (·.state) ≠
        ((drains (unbounded drifting) 1 three).entities.get? "a").map (·.state) := by
      decide +kernel
    exact hstates (h 4 hthree "a")

end BunServe.Smooth.Budget
