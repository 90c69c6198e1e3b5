import BunServe.Smooth.Drain
import BunServe.Smooth.Predict

/-!
# BunServe.Smooth.Convergence

The predictor of `plugins/smooth/predict.js` against the authority of
`plugins/smooth/server.js`.

A system is one predictor, the authority its commands go to, the commands on
their way and the acknowledgements sent back.  Commands are delivered in order,
in batches of any size; acknowledgements may be delivered in any order, twice
or never; the authority drains under any budget, with other entities beside
this one.  Both sides run the same `apply`.

* `agree_run` — the two sides against the list of issued commands;
* `prediction_converges` — an acknowledgement of the last command makes the
  prediction the authority's state, and a command emits the same events on both
  sides.
-/

namespace BunServe.Smooth.Convergence

open Machine Server
open Predict (Predictor window)
open JsMap (get?_set_ne get?_set_self of_get?_set)
open List (append_nil length length_append length_drop)

variable {State Cmd Data Ws : Type}

/-! ## a drain in which nothing throws -/

def noThrows : Throws State Cmd :=
  { apply := fun _ _ _ => false, onMissing := fun _ _ => false }

theorem runBatch_noThrows (o : Config State Cmd Data) (key : String) (s : State)
    (cs : List (Command Cmd)) : runBatch o noThrows key s cs = some (foldBatch o key s cs) := by
  induction cs generalizing s with
  | nil => rfl
  | cons c cs ih =>
    rw [runBatch]
    simp only [ih]
    rfl

theorem serverPhase_noThrows (o : Config State Cmd Data) (key : String)
    (e : Entity State Cmd Ws) : ∃ ph, serverPhase o noThrows key e = some ph := by
  unfold serverPhase
  rw [runBatch_noThrows]
  split
  · exact ⟨_, rfl⟩
  · exact ⟨_, rfl⟩

variable {e : Entity State Cmd Ws}

theorem serverPhase_empty (o : Config State Cmd Data) (t : Throws State Cmd) (key : String)
    (h : e.serverQueue = []) :
    serverPhase o t key e = some { entity := e, events := [], applied := false, notes := [] } := by
  simp [serverPhase, h]

variable {o : Config State Cmd Data} {t : Throws State Cmd} {key : String}
  {ph : Phase State Cmd Data Ws}

theorem serverPhase_ws (h : serverPhase o t key e = some ph) :
    ph.entity.ws = e.ws ∧ ∀ ev ∈ ph.events, ev.ws = e.ws := by
  unfold serverPhase at h
  split at h
  · split at h
    · contradiction
    · cases h
      simp [attributed]
  · cases h
    simp

theorem batch_nil (o : Config State Cmd Data) : batch o ([] : List (Command Cmd)) = [] := by
  unfold batch
  split <;> simp

theorem waiting_nil (o : Config State Cmd Data) : waiting o ([] : List (Command Cmd)) = [] := by
  unfold waiting
  split <;> simp

theorem filter_attributed (ws : Ws) (commanded : Bool) (evs : List (Event Data)) :
    (evs.map (attributed ws commanded)).filter (·.commanded) =
      if commanded then evs.map (attributed ws commanded) else [] := by
  cases commanded with
  | true | false => simp [attributed]

/-- What the server's phase leaves to the owner's. -/
structure Kept (e : Entity State Cmd Ws) (ph : Phase State Cmd Data Ws) : Prop where
  queue : ph.entity.queue = e.queue
  ackedId : ph.entity.lastAckedId = e.lastAckedId
  events : ph.events.filter (·.commanded) = []

theorem serverPhase_keeps (h : serverPhase o t key e = some ph) : Kept e ph := by
  unfold serverPhase at h
  split at h
  · split at h
    · contradiction
    · cases h
      exact { queue := rfl, ackedId := rfl, events := by simp [filter_attributed] }
  · cases h
    exact { queue := rfl, ackedId := rfl, events := rfl }

section Shares

variable [DecidableEq State]

theorem ownerPhase_noThrows (o : Config State Cmd Data) (key : String)
    (e : Entity State Cmd Ws) : ∃ ph, ownerPhase o noThrows key e = some ph := by
  unfold ownerPhase
  simp only [runBatch_noThrows]
  split
  · exact ⟨_, rfl⟩
  split
  · next onMissing _ _ =>
    have hm : (noThrows : Throws State Cmd).onMissing e.state e.lastCommand = false := rfl
    rw [hm, if_neg Bool.false_ne_true]
    split
    · exact ⟨_, rfl⟩
    · split <;> exact ⟨_, rfl⟩
  · exact ⟨_, rfl⟩

theorem ownerPhase_ws (h : ownerPhase o t key e = some ph) :
    ph.entity.ws = e.ws ∧ ∀ ev ∈ ph.events, ev.ws = e.ws := by
  unfold ownerPhase at h
  split at h
  · simp only at h
    split at h
    · contradiction
    · cases h
      simp [attributed]
  · split at h
    · split at h
      · contradiction
      · split at h
        · cases h
          simp
        · split at h <;>
          · cases h
            simp
    · cases h
      simp

theorem ownerPhase_commands (o : Config State Cmd Data) (key : String)
    (h : e.queue.length > 0) :
    ownerPhase o noThrows key e = some {
      entity := { e with
        state := (foldBatch o key e.state (batch o e.queue)).1
        queue := waiting o e.queue
        lastAckedId := lastId (batch o e.queue) e.lastAckedId
        lastCommand := ((batch o e.queue).getLast?.map (·.cmd)).or e.lastCommand
        active := true }
      events := (foldBatch o key e.state (batch o e.queue)).2.map (attributed e.ws true)
      applied := true
      notes := [.committed key true (batch o e.queue)] } := by
  simp only [ownerPhase, runBatch_noThrows]
  rw [if_pos h]
  rfl

theorem ownerPhase_rests (h : ownerPhase o t key e = some ph)
    (hq : e.queue = []) : ph.applied = false ∧ ph.events = [] ∧ ph.entity.queue = [] := by
  have hlen : ¬ e.queue.length > 0 := by simp [hq]
  unfold ownerPhase at h
  rw [if_neg hlen] at h
  split at h
  · split at h
    · contradiction
    · split at h
      · cases h
        exact ⟨rfl, rfl, hq⟩
      · split at h <;>
        · cases h
          exact ⟨rfl, rfl, hq⟩
  · cases h
    exact ⟨rfl, rfl, hq⟩

theorem drainEntity_noThrows (o : Config State Cmd Data) (key : String)
    (e : Entity State Cmd Ws) : (drainEntity o noThrows key e).failed = false := by
  obtain ⟨own, hown⟩ := ownerPhase_noThrows o key e
  obtain ⟨server, hserver⟩ := serverPhase_noThrows o key own.entity
  simp only [drainEntity, hown, hserver]

theorem drainEntity_ws (o : Config State Cmd Data) (key : String) (e : Entity State Cmd Ws) :
    (drainEntity o noThrows key e).entity.ws = e.ws ∧
      ∀ ev ∈ (drainEntity o noThrows key e).result.events, ev.ws = e.ws := by
  obtain ⟨own, hown⟩ := ownerPhase_noThrows o key e
  obtain ⟨server, hserver⟩ := serverPhase_noThrows o key own.entity
  have ho := ownerPhase_ws hown
  have hs := serverPhase_ws hserver
  simp only [drainEntity, hown, hserver]
  constructor
  · rw [hs.1, ho.1]
  · intro ev hev
    cases List.mem_append.mp hev with
    | inl hev => exact ho.2 ev hev
    | inr hev => rw [hs.2 ev hev, ho.1]

/-- What the entity under a key adds to a drain. -/
def shareOf (o : Config State Cmd Data) (a : Authority State Cmd Ws) (k : String) :
    Result State Data Ws :=
  match a.entities.get? k with
  | none => { updates := [], acks := [], events := [], idle := true }
  | some e => (drainEntity o noThrows k e).result

theorem drainKeys_noThrows (o : Config State Cmd Data) {keys : List String} (hnodup : keys.Nodup)
    (a : Authority State Cmd Ws) :
    (∀ k ∈ keys, (drainKeys o noThrows keys a).authority.entities.get? k =
      (a.entities.get? k).map fun e => (drainEntity o noThrows k e).entity) ∧
    (∀ k, k ∉ keys → (drainKeys o noThrows keys a).authority.entities.get? k =
      a.entities.get? k) ∧
    (drainKeys o noThrows keys a).result.acks = keys.flatMap (fun k => (shareOf o a k).acks) ∧
    (drainKeys o noThrows keys a).result.events = keys.flatMap (fun k => (shareOf o a k).events) := by
  induction keys generalizing a with
  | nil => simp [drainKeys]
  | cons key keys ih =>
    have hcons := List.nodup_cons.mp hnodup
    rw [drainKeys]
    cases he : a.entities.get? key with
    | none =>
      obtain ⟨hin, hout, hacks, hevents⟩ := ih hcons.2 a
      refine ⟨?_, ?_, ?_, ?_⟩
      · intro k hk
        cases List.mem_cons.mp hk with
        | inl hk =>
          subst hk
          rw [hout k hcons.1, he]
          rfl
        | inr hk => exact hin k hk
      · intro k hk
        exact hout k fun hm => hk (List.mem_cons_of_mem _ hm)
      · simp [hacks, shareOf, he]
      · simp [hevents, shareOf, he]
    | some e =>
      have hfailed := drainEntity_noThrows o key e
      simp only [hfailed, Bool.false_eq_true, if_false]
      obtain ⟨e', he'⟩ : ∃ e', e' = (drainEntity o noThrows key e).entity := ⟨_, rfl⟩
      obtain ⟨a', ha'⟩ : ∃ a', a' = { a with entities := a.entities.set key e' } := ⟨_, rfl⟩
      rw [← he', ← ha']
      have hself : a'.entities.get? key = some e' := by
        rw [ha']
        exact get?_set_self _ _ _
      have hother : ∀ k, k ≠ key → a'.entities.get? k = a.entities.get? k := by
        intro k hk
        rw [ha']
        exact get?_set_ne _ _ hk
      have hshare : ∀ k ∈ keys, shareOf o a' k = shareOf o a k := by
        intro k hk
        have hne : k ≠ key := fun heq => hcons.1 (heq ▸ hk)
        rw [shareOf, hother k hne, shareOf]
      obtain ⟨hin, hout, hacks, hevents⟩ := ih hcons.2 a'
      refine ⟨?_, ?_, ?_, ?_⟩
      · intro k hk
        cases List.mem_cons.mp hk with
        | inl hk =>
          subst hk
          rw [hout k hcons.1, hself, he, he']
          rfl
        | inr hk =>
          have hne : k ≠ key := fun heq => hcons.1 (heq ▸ hk)
          rw [hin k hk, hother k hne]
      · intro k hk
        simp only [List.mem_cons, not_or] at hk
        rw [hout k hk.2, hother k hk.1]
      · have hmap : keys.flatMap (fun k => (shareOf o a' k).acks) =
            keys.flatMap (fun k => (shareOf o a k).acks) :=
          List.flatMap_congr fun k hk => by rw [hshare k hk]
        rw [List.flatMap_cons, ← hmap, ← hacks, shareOf, he]
        rfl
      · have hmap : keys.flatMap (fun k => (shareOf o a' k).events) =
            keys.flatMap (fun k => (shareOf o a k).events) :=
          List.flatMap_congr fun k hk => by rw [hshare k hk]
        rw [List.flatMap_cons, ← hmap, ← hevents, shareOf, he]
        rfl

/-- What a drain in which nothing throws makes of one entity. -/
structure Served (o : Config State Cmd Data) (key : String) (e : Entity State Cmd Ws)
    (share : Share State Cmd Data Ws) : Prop where
  ws : share.entity.ws = e.ws
  queue : share.entity.queue = waiting o e.queue
  acks : share.result.acks = if e.queue = [] then [] else
    [{ key, ws := e.ws, id := lastId (batch o e.queue) 0, state := share.entity.state }]
  state : e.serverQueue = [] → e.queue ≠ [] →
    share.entity.state = (foldBatch o key e.state (batch o e.queue)).1
  attribution : ∀ ev ∈ share.result.events, ev.ws = e.ws
  events : share.result.events.filter (·.commanded) =
    (foldBatch o key e.state (batch o e.queue)).2.map (attributed e.ws true)

theorem drainEntity_served (o : Config State Cmd Data) (key : String) (e : Entity State Cmd Ws) :
    Served o key e (drainEntity o noThrows key e) := by
  have hws := drainEntity_ws o key e
  obtain ⟨own, hown⟩ := ownerPhase_noThrows o key e
  obtain ⟨server, hserver⟩ := serverPhase_noThrows o key own.entity
  have hs := serverPhase_keeps hserver
  have hsw := (serverPhase_ws hserver).1
  have hempty : own.entity.serverQueue = [] → server.entity.state = own.entity.state := by
    intro h
    rw [serverPhase_empty o noThrows key h] at hserver
    rw [← Option.some.inj hserver]
  simp only [drainEntity, hown, hserver] at hws ⊢
  by_cases hq : e.queue = []
  · have hrest := ownerPhase_rests hown hq
    exact {
      ws := hws.1
      queue := by rw [hs.queue, hrest.2.2, hq, waiting_nil]
      acks := by simp [hrest.1, ackOf, hq]
      state := fun _ h => absurd hq h
      attribution := hws.2
      events := by simp [hrest.2.1, hs.events, hq, batch_nil, foldBatch] }
  · have hpos := List.length_pos_iff.mpr hq
    obtain rfl := Option.some.inj ((ownerPhase_commands o key hpos).symm.trans hown)
    have hid := lastId_eq (batch_ne_nil (o := o) hpos) e.lastAckedId 0
    exact {
      ws := hws.1
      queue := hs.queue
      acks := by
        rw [if_neg hq]
        show [({ key, ws := server.entity.ws, id := server.entity.lastAckedId, state := server.entity.state } :
          Ack State Ws)] = _
        rw [hs.ackedId, hsw, ← hid]
      state := fun h _ => hempty h
      attribution := hws.2
      events := by simp [hs.events, filter_attributed] }

end Shares

/-! ## the system -/

/-- One entity, its owner's predictor and the authority: one `apply` on both
sides, the entity's key, its connection, and the state it was created with. -/
structure Setup (State Cmd Data Ws : Type) where
  server : Config State Cmd Data
  client : Predict.Options State Cmd Data
  shared : client.apply = server.apply
  key : String
  ws : Ws
  initial : State
  active : Bool

/-- The two sides and what is on the way between them.  The last three fields
are read by no step: `settled` is the entity's state behind the latest drain
that applied commands of its owner, `moved` whether something has changed it
since, and `mirrored` whether both sides started from one state, the predictor
knew its key at every application, and nothing but its commands has moved the
entity. -/
structure System (State Cmd Data Ws : Type) where
  p : Predictor State Cmd Data
  a : Authority State Cmd Ws
  issued : List Cmd
  sent : List (Command Cmd)
  acks : List (Ack State Ws)
  optimistic : List (Event Data)
  authoritative : List (Event Data)
  settled : State
  moved : Bool
  mirrored : Bool

/-- What can happen next.  An acknowledgement stays where it is when it is
delivered: it may arrive again, or never. -/
inductive Action (State Cmd Ws : Type) where
  | command (cmd : Cmd) (monoNow : ℚ) (self : Option String)
  | drainEvents
  | deliver (n : Nat)
  | drain
  | ack (i : Nat) (self : Option String)
  | ensure (key : String) (ws : Ws) (initialState : State) (active : Bool)
  | enqueue (key : String) (commands : Option (List (Option (Command Cmd))))
  | inject (key : String) (cmd : Cmd)

section System

variable [DecidableEq State] [DecidableEq Ws]

/-- What a drain that took the entity from `e` to `e'` says about its state. -/
def observe (e e' : Entity State Cmd Ws) (s : System State Cmd Data Ws) :
    System State Cmd Data Ws :=
  if e.queue.length > 0 then
    { s with settled := e'.state, moved := false,
             mirrored := s.mirrored && decide (e.serverQueue.length = 0) }
  else
    { s with moved := s.moved || decide (e'.state ≠ e.state),
             mirrored := s.mirrored && decide (e'.state = e.state) }

def step (u : Setup State Cmd Data Ws) (s : System State Cmd Data Ws) :
    Action State Cmd Ws → System State Cmd Data Ws
  | .command cmd monoNow self =>
    let r := Predict.command u.client s.p cmd monoNow self
    { s with p := r.2, issued := s.issued ++ [cmd], sent := s.sent ++ [{ id := r.1, cmd }],
             mirrored := s.mirrored && decide (self = some u.key) }
  | .drainEvents =>
    let r := Predict.drainEvents s.p
    { s with p := r.2, optimistic := s.optimistic ++ r.1 }
  | .deliver n =>
    { s with a := (enqueue u.server s.a u.key (some ((s.sent.take n).map some))).2.1,
             sent := s.sent.drop n }
  | .drain =>
    let d := Server.drain u.server noThrows s.a
    let s' := { s with
      a := d.authority
      acks := s.acks ++ d.result.acks.filter (·.key = u.key)
      authoritative := s.authoritative ++
        ((d.result.events.filter (·.ws = u.ws)).filter (·.commanded)).map (·.toEvent) }
    match s.a.entities.get? u.key, d.authority.entities.get? u.key with
    | some e, some e' => observe e e' s'
    | _, _ => s'
  | .ack i self =>
    match s.acks[i]? with
    | none => s
    | some k =>
      { s with p := (Predict.ack u.client s.p (some (.ofInt k.id)) k.state self).2,
               mirrored := s.mirrored && decide (self = some u.key) }
  | .ensure key ws initialState active =>
    { s with a := (ensure s.a key ws initialState active).2.1 }
  | .enqueue key commands => { s with a := (enqueue u.server s.a key commands).2.1 }
  | .inject key cmd => { s with a := (inject u.server s.a key cmd).2.1 }

def system (u : Setup State Cmd Data Ws) :
    Machine (System State Cmd Data Ws) (Action State Cmd Ws) where
  init := {
    p := Predict.createPredictor u.client
    a := (ensure createSmoothAuthority u.key u.ws u.initial u.active).2.1
    issued := [], sent := [], acks := [], optimistic := [], authoritative := []
    settled := u.initial, moved := false, mirrored := decide (u.client.initial = u.initial) }
  next s a := some (step u s a)

/-- Nothing is evicted on either side; the entity stays with its connection,
which has no other, and gets its commands from it. -/
def Delivered (u : Setup State Cmd Data Ws) (s : System State Cmd Data Ws) :
    Action State Cmd Ws → Prop
  | .command cmd monoNow self => (Predict.command u.client s.p cmd monoNow self).2.overflowed = false
  | .deliver n =>
    ∀ e, s.a.entities.get? u.key = some e →
      e.queue.length + (s.sent.take n).length ≤ u.server.queueCap
  | .ensure key ws _ _ => key = u.key ↔ ws = u.ws
  | .enqueue key _ => key ≠ u.key
  | .drainEvents | .drain | .ack _ _ | .inject _ _ => True

end System

/-! ## the commands by number -/

/-- Commands numbered on from `n`. -/
def numbered : Nat → List Cmd → List (Command Cmd)
  | _, [] => []
  | n, c :: cs => { id := ((n + 1 : Nat) : Int), cmd := c } :: numbered (n + 1) cs

@[simp] theorem length_numbered (n : Nat) (cs : List Cmd) : (numbered n cs).length = cs.length := by
  induction cs generalizing n with
  | nil => rfl
  | cons c cs ih => simp [numbered, ih]

theorem numbered_append (n : Nat) (cs ds : List Cmd) :
    numbered n (cs ++ ds) = numbered n cs ++ numbered (n + cs.length) ds := by
  induction cs generalizing n with
  | nil => rfl
  | cons c cs ih =>
    have hn : n + (cs.length + 1) = n + 1 + cs.length := by omega
    simp [numbered, ih, hn]

theorem drop_numbered (n k : Nat) (cs : List Cmd) :
    (numbered n cs).drop k = numbered (n + k) (cs.drop k) := by
  induction k generalizing n cs with
  | zero => rfl
  | succ k ih =>
    cases cs with
    | nil => rfl
    | cons c cs =>
      have hn : n + (k + 1) = n + 1 + k := by omega
      rw [numbered, List.drop_succ_cons, List.drop_succ_cons, ih, hn]

theorem take_numbered (n k : Nat) (cs : List Cmd) :
    (numbered n cs).take k = numbered n (cs.take k) := by
  induction k generalizing n cs with
  | zero => rfl
  | succ k ih =>
    cases cs with
    | nil => rfl
    | cons c cs => rw [numbered, List.take_succ_cons, List.take_succ_cons, ih, numbered]

variable {cs : List Cmd}

theorem lastId_numbered (n : Nat) (h : cs ≠ []) (otherwise : Int) :
    lastId (numbered n cs) otherwise = ((n + cs.length : Nat) : Int) := by
  obtain ⟨ds, d, rfl⟩ := List.eq_nil_or_concat cs |>.resolve_left h
  rw [List.concat_eq_append, numbered_append]
  simp [lastId, numbered]
  omega

theorem foldBatch_append (o : Config State Cmd Data) (key : String) (s : State)
    (xs ys : List (Command Cmd)) :
    foldBatch o key s (xs ++ ys) =
      ((foldBatch o key (foldBatch o key s xs).1 ys).1,
        (foldBatch o key s xs).2 ++ (foldBatch o key (foldBatch o key s xs).1 ys).2) := by
  induction xs generalizing s with
  | nil => rfl
  | cons x xs ih => simp [foldBatch, ih]

theorem batch_eq_take (o : Config State Cmd Data) (queue : List (Command Cmd)) :
    batch o queue = queue.take (batch o queue).length ∧
      waiting o queue = queue.drop (batch o queue).length := by
  have h := batch_append_waiting o queue
  have ht := congrArg (List.take (batch o queue).length) h
  have hd := congrArg (List.drop (batch o queue).length) h
  rw [List.take_left] at ht
  rw [List.drop_left] at hd
  exact ⟨ht, hd⟩

def cell (e : Predict.Entry Cmd) : Command Cmd := { id := e.id, cmd := e.cmd }

variable {l : Nat}

/-- The loop of `ack` passes the commands up to the acknowledged one. -/
theorem confirmed_numbered {k : Nat} {es : List (Predict.Entry Cmd)}
    (hes : es.map cell = numbered l cs) (hk : k ≤ cs.length) :
    Predict.confirmed (.ofNat (l + k)) es = k := by
  induction es generalizing l k cs with
  | nil =>
    cases cs with
    | nil =>
      obtain rfl : k = 0 := by simpa using hk
      rfl
    | cons c cs => contradiction
  | cons e es ih =>
    cases cs with
    | nil => contradiction
    | cons c cs =>
      obtain ⟨he, hes⟩ := List.cons.inj hes
      have hid : e.id = l + 1 := by
        have := congrArg Command.id he
        simp only [cell] at this
        omega
      rw [Predict.confirmed, hid]
      cases k with
      | zero => rw [if_neg (by simp)]
      | succ k =>
        have hrec := ih hes (by simpa using hk)
        rw [show l + 1 + k = l + (k + 1) by omega] at hrec
        rw [if_pos (by simp), hrec]

variable {u : Setup State Cmd Data Ws}

theorem fold_eq_foldBatch (hpure : Pure u.server.apply) (s : State)
    (es : List (Predict.Entry Cmd)) :
    Predict.fold u.client s (es.map (Predict.Entry.under (some u.key))) =
      (foldBatch u.server u.key s (es.map cell)).1 := by
  induction es generalizing s with
  | nil => rfl
  | cons e es ih =>
    have happly : Predict.applied u.client s (e.under (some u.key)) =
        (u.server.apply s e.cmd (context u.key (cell e))).1 := by
      rw [Predict.applied, u.shared]
      exact (hpure s e.cmd (context u.key (cell e)) false)
    rw [List.map_cons, Predict.fold, List.foldl_cons, happly]
    exact ih _

/-! ## the invariant -/

/-- The two sides against the list of issued commands: the authority has
applied the first `done` of them to the entity `e`, the predictor has seen the
first `l` acknowledged. -/
structure Agree (u : Setup State Cmd Data Ws) (s : System State Cmd Data Ws)
    (e : Entity State Cmd Ws) (done l : Nat) : Prop where
  entity : s.a.entities.get? u.key = some e
  owner : e.ws = u.ws
  others : ∀ k e', k ≠ u.key → s.a.entities.get? k = some e' → e'.ws ≠ u.ws
  done_le : done ≤ s.issued.length
  undone : e.queue ++ s.sent = numbered done (s.issued.drop done)
  acks : ∀ k ∈ s.acks, ∃ n, 1 ≤ n ∧ n ≤ done ∧ k.id = (n : Int) ∧ (n = done → k.state = s.settled)
  unmoved : s.moved = false → e.state = s.settled
  live : s.p.overflowed = false
  nextId : s.p.nextId = s.issued.length + 1
  head_le : s.p.head ≤ s.p.pending.length
  acked : s.p.lastAckedId = .ofNat l
  acked_le : l ≤ done
  window : (window s.p).map cell = numbered l (s.issued.drop l)
  converged : 0 < l → l = s.issued.length → s.p.predicted = s.settled

/-- The first `n` issued commands through `apply`. -/
def history (u : Setup State Cmd Data Ws) (s : System State Cmd Data Ws) (n : Nat) :
    State × List (Event Data) :=
  foldBatch u.server u.key u.initial (numbered 0 (s.issued.take n))

/-- Both sides as the history of the issued commands. -/
structure Mirror (u : Setup State Cmd Data Ws) (s : System State Cmd Data Ws)
    (e : Entity State Cmd Ws) (done : Nat) : Prop where
  state : e.state = (history u s done).1
  acks : ∀ k ∈ s.acks, ∀ n : Nat, k.id = (n : Int) → k.state = (history u s n).1
  predicted : s.p.predicted = (history u s s.issued.length).1
  authoritative : s.authoritative = (history u s done).2
  optimistic : s.optimistic ++ s.p.eventSink = (history u s s.issued.length).2

/-- The invariant: the two sides agree, and mirror each other while nothing
comes between them. -/
def Inv (u : Setup State Cmd Data Ws) (s : System State Cmd Data Ws) : Prop :=
  ∃ e done l, Agree u s e done l ∧ (s.mirrored = true → Mirror u s e done)

variable {n : Nat}

theorem history_add (u : Setup State Cmd Data Ws) (s : System State Cmd Data Ws) {m : Nat}
    (h : n + m ≤ s.issued.length) :
    history u s (n + m) =
      ((foldBatch u.server u.key (history u s n).1 (numbered n ((s.issued.drop n).take m))).1,
        (history u s n).2 ++
          (foldBatch u.server u.key (history u s n).1 (numbered n ((s.issued.drop n).take m))).2) := by
  have hlen : (s.issued.take n).length = n := by
    rw [List.length_take]
    omega
  rw [history, List.take_add, numbered_append, foldBatch_append, hlen, Nat.zero_add]
  rfl

variable {done : Nat} {s : System State Cmd Data Ws}

theorem Agree.frame {e' : Entity State Cmd Ws} (h : Agree u s e done l) {a : Authority State Cmd Ws}
    (he' : a.entities.get? u.key = some e') (hws : e'.ws = e.ws) (hqueue : e'.queue = e.queue)
    (hstate : e'.state = e.state)
    (hothers : ∀ k e', k ≠ u.key → a.entities.get? k = some e' → e'.ws ≠ u.ws) :
    Agree u { s with a } e' done l :=
  { h with
    entity := he'
    owner := hws.trans h.owner
    others := hothers
    undone := by rw [hqueue]; exact h.undone
    unmoved := by rw [hstate]; exact h.unmoved }

theorem Mirror.frame {e' : Entity State Cmd Ws} (h : Mirror u s e done) {a : Authority State Cmd Ws}
    (hstate : e'.state = e.state) : Mirror u { s with a } e' done :=
  { h with state := by rw [hstate]; exact h.state }

/-! ## steps -/

theorem inv_frame (h : Inv u s) {a : Authority State Cmd Ws}
    (hself : ∀ e, s.a.entities.get? u.key = some e → ∃ e', a.entities.get? u.key = some e' ∧
      e'.ws = e.ws ∧ e'.queue = e.queue ∧ e'.state = e.state)
    (hothers : ∀ k e', k ≠ u.key → a.entities.get? k = some e' →
      (∃ e, s.a.entities.get? k = some e ∧ e'.ws = e.ws) ∨ e'.ws ≠ u.ws) : Inv u { s with a } := by
  obtain ⟨e, done, l, hag, hmir⟩ := h
  obtain ⟨e', he', hws, hqueue, hstate⟩ := hself e hag.entity
  refine ⟨e', done, l, hag.frame he' hws hqueue hstate ?_, fun hm => (hmir hm).frame hstate⟩
  intro k x hk hx
  cases hothers k x hk hx with
  | inl hold =>
    obtain ⟨y, hy, hxy⟩ := hold
    rw [hxy]
    exact hag.others k y hk hy
  | inr hne => exact hne

theorem inv_ensure [DecidableEq Ws] (h : Inv u s)
    {ws : Ws} (hown : key = u.key ↔ ws = u.ws) (initialState : State)
    (active : Bool) : Inv u { s with a := (ensure s.a key ws initialState active).2.1 } := by
  obtain ⟨e, done, l, hag, hmir⟩ := id h
  unfold ensure
  split
  · next hnone =>
    have hne : key ≠ u.key := by
      intro heq
      rw [heq, hag.entity] at hnone
      contradiction
    apply inv_frame h
    · intro x hx
      exact ⟨x, by rwa [get?_set_ne _ _ (Ne.symm hne)], rfl, rfl, rfl⟩
    intro k x hk hx
    obtain ⟨rfl, rfl⟩ | ⟨hkk, hx⟩ := of_get?_set hx
    · exact .inr fun hw => hne (hown.mpr hw)
    · exact .inl ⟨x, hx, rfl⟩
  · next y hy =>
    split
    · exact h
    rename_i hws
    have hne : key ≠ u.key := by
      intro heq
      rw [heq, hag.entity] at hy
      cases hy
      exact hws (hag.owner.trans (hown.mp heq).symm)
    apply inv_frame h
    · intro x hx
      exact ⟨x, by rwa [get?_set_ne _ _ (Ne.symm hne)], rfl, rfl, rfl⟩
    intro k x hk hx
    obtain ⟨rfl, rfl⟩ | ⟨hkk, hx⟩ := of_get?_set hx
    · exact .inr fun hw => hne (hown.mpr hw)
    · exact .inl ⟨x, hx, rfl⟩

theorem inv_enqueue (h : Inv u s)
    (hne : key ≠ u.key) (commands : Option (List (Option (Command Cmd)))) :
    Inv u { s with a := (enqueue u.server s.a key commands).2.1 } := by
  unfold enqueue
  split
  · next e cs he =>
    simp only
    split
    · exact h
    apply inv_frame h
    · intro x hx
      exact ⟨x, by rwa [get?_set_ne _ _ (Ne.symm hne)], rfl, rfl, rfl⟩
    intro k x hk hx
    obtain ⟨rfl, rfl⟩ | ⟨hkk, hx⟩ := of_get?_set hx
    · exact .inl ⟨e, he, rfl⟩
    · exact .inl ⟨x, hx, rfl⟩
  · exact h

theorem inv_inject (h : Inv u s)
    (key : String) (cmd : Cmd) : Inv u { s with a := (inject u.server s.a key cmd).2.1 } := by
  unfold inject
  split
  · exact h
  rename_i e he
  apply inv_frame h
  · intro x hx
    by_cases hkk : u.key = key
    · subst hkk
      obtain rfl := Option.some.inj (he.symm.trans hx)
      exact ⟨_, get?_set_self _ _ _, rfl, rfl, rfl⟩
    · exact ⟨x, by rwa [get?_set_ne _ _ hkk], rfl, rfl, rfl⟩
  · intro k x hk hx
    obtain ⟨rfl, rfl⟩ | ⟨hkk, hx⟩ := of_get?_set hx
    · exact .inl ⟨e, he, rfl⟩
    · exact .inl ⟨x, hx, rfl⟩

theorem numbered_concat (n : Nat) (cs : List Cmd) (c : Cmd) :
    numbered n (cs ++ [c]) = numbered n cs ++ [{ id := ((n + cs.length + 1 : Nat) : Int), cmd := c }] :=
  numbered_append n cs [c]

theorem history_concat (u : Setup State Cmd Data Ws) (s : System State Cmd Data Ws) (cmd : Cmd)
    (h : n ≤ s.issued.length) :
    history u { s with issued := s.issued ++ [cmd] } n = history u s n := by
  rw [history, List.take_append_of_le_length h, history]

theorem inv_command (h : Inv u s)
    (cmd : Cmd) (monoNow : ℚ) (self : Option String)
    (hlive : (Predict.command u.client s.p cmd monoNow self).2.overflowed = false) :
    let r := Predict.command u.client s.p cmd monoNow self
    Inv u { s with
      p := r.2, issued := s.issued ++ [cmd], sent := s.sent ++ [{ id := r.1, cmd }]
      mirrored := s.mirrored && decide (self = some u.key) } := by
  intro r
  obtain ⟨e, done, l, hag, hmir⟩ := h
  cases Predict.command_cases u.client s.p cmd monoNow self with
  | inl hover =>
    rw [hag.live] at hover
    exact absurd hover.1 Bool.false_ne_true
  | inr hrest =>
    cases hrest with
    | inl hkill =>
      rw [hkill.2] at hlive
      exact absurd hlive.symm Bool.false_ne_true
    | inr hok =>
      obtain ⟨-, -, x, hx, hr⟩ := hok
      have hr' : r = _ := hr
      rw [hr']
      have hnext := hag.nextId
      have hdone := hag.done_le
      have hl := hag.acked_le
      refine ⟨e, done, l, ?_, ?_⟩
      · exact {
          entity := hag.entity
          owner := hag.owner
          others := hag.others
          done_le := by simp only [length_append]; omega
          undone := by
            have hid : done + (s.issued.length - done) + 1 = s.p.nextId := by omega
            rw [← List.append_assoc, hag.undone, List.drop_append_of_le_length hdone,
              numbered_concat, length_drop, hid]
          acks := hag.acks
          unmoved := hag.unmoved
          live := hag.live
          nextId := by simp [hnext]
          head_le := by
            have hhead := hag.head_le
            simp only [length_append]
            omega
          acked := hag.acked
          acked_le := hl
          window := by
            have hid : l + (s.issued.length - l) + 1 = s.p.nextId := by omega
            show List.map cell ((s.p.pending ++ [_]).drop s.p.head) = _
            rw [Predict.window_append hag.head_le, List.map_append, hag.window,
              List.drop_append_of_le_length (by omega), numbered_concat, length_drop, hid]
            rfl
          converged := by
            intro _ heq
            simp only [length_append, List.length_singleton] at heq
            omega }
      · intro hm
        simp only [Bool.and_eq_true, decide_eq_true_eq] at hm
        obtain ⟨hm, rfl⟩ := hm
        have hmi := hmir hm
        have hlast : history u { s with issued := s.issued ++ [cmd] } (s.issued.length + 1) =
            (x.1, (history u s s.issued.length).2 ++ emitted s.p.nextId x.2) := by
          have hadd := history_add u { s with issued := s.issued ++ [cmd] }
            (n := s.issued.length) (m := 1) (by simp)
          rw [hadd, history_concat u s cmd le_rfl]
          have hone : (s.issued ++ [cmd]).drop s.issued.length = [cmd] := by simp
          simp only [hone, List.take_succ_cons, List.take_zero, numbered, foldBatch,
            append_nil, ← hmi.predicted]
          have hctx : x = u.server.apply s.p.predicted cmd
              (context u.key { id := ((s.issued.length + 1 : Nat) : Int), cmd }) := by
            rw [hx, u.shared, hnext]
            rfl
          rw [← hctx, hnext]
        have hlen : (s.issued ++ [cmd]).length = s.issued.length + 1 := by simp
        exact {
          state := by
            rw [hmi.state]
            exact congrArg Prod.fst (history_concat u s cmd hdone).symm
          acks := by
            intro k hk n hn
            obtain ⟨m, -, hm, hkm, -⟩ := hag.acks k hk
            rw [hmi.acks k hk n hn]
            exact congrArg Prod.fst (history_concat u s cmd (by omega)).symm
          predicted := by
            simp only [hlen]
            exact (congrArg Prod.fst hlast).symm
          authoritative := by
            rw [hmi.authoritative]
            exact congrArg Prod.snd (history_concat u s cmd hdone).symm
          optimistic := by
            simp only [hlen]
            rw [← List.append_assoc, hmi.optimistic]
            exact (congrArg Prod.snd hlast).symm }

theorem inv_drainEvents (h : Inv u s) :
    Inv u { s with p := (Predict.drainEvents s.p).2
                   optimistic := s.optimistic ++ (Predict.drainEvents s.p).1 } := by
  obtain ⟨e, done, l, hag, hmir⟩ := h
  refine ⟨e, done, l, { hag with }, fun hm => ?_⟩
  have hmi := hmir hm
  exact { hmi with
    optimistic := by
      show (s.optimistic ++ s.p.eventSink) ++ [] = _
      rw [append_nil]
      exact hmi.optimistic }

theorem id_nonneg_numbered : ∀ c ∈ numbered n cs, 0 ≤ c.id := by
  induction cs generalizing n with
  | nil => simp [numbered]
  | cons c cs ih =>
    intro x hx
    cases List.mem_cons.mp hx with
    | inl hx =>
      rw [hx]
      exact Int.natCast_nonneg _
    | inr hx => exact ih x hx

theorem incoming_eq {cap : Nat} {cs : List (Command Cmd)} (hcap : cs.length ≤ cap)
    (hid : ∀ c ∈ cs, 0 ≤ c.id) : incoming cap (cs.map some) = cs := by
  rw [incoming, List.length_map, Nat.sub_eq_zero_of_le hcap]
  simpa using hid

theorem inv_deliver (h : Inv u s)
    (n : Nat) (hcap : ∀ e, s.a.entities.get? u.key = some e →
      e.queue.length + (s.sent.take n).length ≤ u.server.queueCap) :
    Inv u { s with a := (enqueue u.server s.a u.key (some ((s.sent.take n).map some))).2.1
                   sent := s.sent.drop n } := by
  obtain ⟨e, done, l, hag, hmir⟩ := h
  have hroom := hcap e hag.entity
  have hids : ∀ c ∈ s.sent.take n, 0 ≤ c.id := by
    intro c hc
    apply id_nonneg_numbered c
    rw [← hag.undone]
    exact List.mem_append_right _ (List.mem_of_mem_take hc)
  have hin : incoming u.server.queueCap ((s.sent.take n).map some) = s.sent.take n :=
    incoming_eq (by omega) hids
  have hparts := List.take_append_drop n s.sent
  simp only [enqueue, hag.entity, hin]
  by_cases hempty : (s.sent.take n).length = 0
  · rw [if_pos hempty]
    rw [List.length_eq_zero_iff.mp hempty, List.nil_append] at hparts
    rw [hparts]
    exact ⟨e, done, l, hag, hmir⟩
  · rw [if_neg hempty, Nat.sub_eq_zero_of_le hroom]
    refine ⟨{ e with queue := e.queue ++ s.sent.take n }, done, l, ?_, fun hm => ?_⟩
    · exact { hag with
        entity := get?_set_self _ _ _
        others := by
          intro k x hk hx
          rw [get?_set_ne _ _ hk] at hx
          exact hag.others k x hk hx
        undone := by
          rw [List.append_assoc, hparts]
          exact hag.undone
        unmoved := hag.unmoved }
    · have hmi := hmir hm
      exact { hmi with state := hmi.state }

theorem ack_eventSink (o : Predict.Options State Cmd Data) (p : Predictor State Cmd Data)
    (ackedId : Option JsNumber) (state : State) (self : Option String) :
    (Predict.ack o p ackedId state self).2.eventSink = p.eventSink := by
  cases ackedId with
  | none => rfl
  | some k =>
    simp only [Predict.ack]
    split
    · rfl
    · split
      · rfl
      · rw [Predict.dropConfirmed_eq]

theorem inv_ack (hpure : Pure u.server.apply)
    (h : Inv u s) {k : Ack State Ws} (hk : k ∈ s.acks)
    (self : Option String) :
    let s' := { s with
      p := (Predict.ack u.client s.p (some (.ofInt k.id)) k.state self).2
      mirrored := s.mirrored && decide (self = some u.key) }
    Inv u s' ∧ (k.id = (s.issued.length : Int) → s'.p.predicted = s.settled) := by
  intro s'
  obtain ⟨e, done, l, hag, hmir⟩ := h
  obtain ⟨n, hn, hnd, hkn, hks⟩ := hag.acks k hk
  have hdone := hag.done_le
  have hl := hag.acked_le
  have hs' : s' = { s with
      p := (Predict.ack u.client s.p (some (.ofNat n)) k.state self).2
      mirrored := s.mirrored && decide (self = some u.key) } := by
    show ({ s with
      p := (Predict.ack u.client s.p (some (.ofInt k.id)) k.state self).2
      mirrored := s.mirrored && decide (self = some u.key) } : System State Cmd Data Ws) = _
    rw [hkn, JsNumber.ofInt_natCast]
  -- an acknowledgement at or below the last one changes nothing
  by_cases hle : n ≤ l
  · have hrej : (Predict.ack u.client s.p (some (.ofNat n)) k.state self).2 = s.p := by
      have hcond : JsNumber.le (.ofNat n) s.p.lastAckedId := by
        rw [hag.acked]
        exact JsNumber.le_ofNat.mpr hle
      simp only [Predict.ack]
      rw [if_pos (.inl hcond)]
    rw [hrej] at hs'
    rw [hs']
    refine ⟨⟨e, done, l, { hag with }, fun hm => ?_⟩, ?_⟩
    · simp only [Bool.and_eq_true] at hm
      exact { hmir hm.1 with }
    · intro hlast
      exact hag.converged (by omega) (by omega)
  · cases Predict.ack_cases u.client hag.head_le (some (.ofNat n)) k.state self with
    | inl hrej =>
      -- a fresh acknowledgement within the issued commands is not rejected
      have hcond : ¬ (JsNumber.le (.ofNat n) s.p.lastAckedId ∨
          JsNumber.le (.ofNat s.p.nextId) (.ofNat n)) := by
        rw [hag.acked, hag.nextId, JsNumber.le_ofNat, JsNumber.le_ofNat]
        omega
      have hnone := congrArg Prod.fst hrej
      simp only [Predict.ack] at hnone
      rw [if_neg hcond] at hnone
      split at hnone <;> contradiction
    | inr hacc =>
      obtain ⟨x, hx, -, -, hcase⟩ := hacc
      cases hx
      cases hcase with
      | inl hover =>
        rw [hag.live] at hover
        exact absurd hover.1 Bool.false_ne_true
      | inr hrep =>
        obtain ⟨-, p', hp', -, hacked, hnextId, hlive, hhead, hwin, hpred⟩ := hrep
        have hsink := ack_eventSink u.client s.p (some (.ofNat n)) k.state self
        rw [hp'] at hs' hsink
        rw [hs']
        have hpass : Predict.confirmed (.ofNat n) (window s.p) = n - l := by
          have hcount := confirmed_numbered hag.window (k := n - l)
            (by rw [length_drop]; omega)
          rwa [show l + (n - l) = n by omega] at hcount
        rw [hpass] at hwin
        have hcells : ((window s.p).drop (n - l)).map cell = numbered n (s.issued.drop n) := by
          rw [List.map_drop, hag.window, drop_numbered, List.drop_drop,
            show l + (n - l) = n by omega]
        have hcells' : (window p').map cell = numbered n (s.issued.drop n) := by
          rw [hwin, List.map_map, ← hcells]
          rfl
        -- behind the last command nothing is left to replay
        have hlast : n = s.issued.length → p'.predicted = s.settled := by
          intro heq
          have hnil : window p' = [] := by
            have hlen := congrArg length hcells'
            rw [List.length_map, length_numbered, length_drop] at hlen
            exact List.length_eq_zero_iff.mp (by omega)
          rw [hpred, hnil]
          exact hks (by omega)
        refine ⟨⟨e, done, n, ?_, fun hm => ?_⟩, fun heq => hlast (by omega)⟩
        · exact { hag with
            live := hlive
            nextId := by rw [hnextId]; exact hag.nextId
            head_le := hhead
            acked := hacked
            acked_le := hnd
            window := hcells'
            converged := fun _ => hlast }
        · simp only [Bool.and_eq_true, decide_eq_true_eq] at hm
          obtain ⟨hm, rfl⟩ := hm
          have hmi := hmir hm
          have hall := history_add u s (n := n) (m := s.issued.length - n) (by omega)
          rw [show n + (s.issued.length - n) = s.issued.length by omega,
            List.take_of_length_le (by rw [length_drop])] at hall
          exact { hmi with
            predicted := by
              show p'.predicted = (history u s s.issued.length).1
              rw [hpred, hwin, fold_eq_foldBatch hpure, hcells, hmi.acks k hk n hkn, hall]
            optimistic := by
              rw [hsink]
              exact hmi.optimistic }

/-! ## the drain step -/

theorem filter_flatMap {K A : Type} {keys : List K} (hnodup : keys.Nodup) {key : K} (hkey : key ∈ keys)
    {f : K → List A} {q : A → Bool} (hother : ∀ k ∈ keys, k ≠ key → (f k).filter q = []) :
    (keys.flatMap f).filter q = (f key).filter q := by
  induction keys with
  | nil => contradiction
  | cons k keys ih =>
    have hcons := List.nodup_cons.mp hnodup
    rw [List.flatMap_cons, List.filter_append]
    by_cases hk : k = key
    · have hrest : (keys.flatMap f).filter q = [] := by
        rw [List.filter_flatMap, List.flatMap_eq_nil_iff]
        intro x hx
        exact hother x (List.mem_cons_of_mem _ hx) fun heq => hcons.1 (hk ▸ heq ▸ hx)
      rw [hrest, append_nil, hk]
    · have hmem : key ∈ keys := (List.mem_cons.mp hkey).resolve_left fun heq => hk heq.symm
      rw [hother k List.mem_cons_self hk]
      exact ih hcons.2 hmem fun x hx => hother x (List.mem_cons_of_mem _ hx)

section Drained

variable [DecidableEq State] [DecidableEq Ws]

theorem drain_entity
     (h : Agree u s e done l) :
    let d := Server.drain u.server noThrows s.a
    let share := drainEntity u.server noThrows u.key e
    d.authority.entities.get? u.key = some share.entity ∧
    (∀ k e', k ≠ u.key → d.authority.entities.get? k = some e' → e'.ws ≠ u.ws) ∧
    d.result.acks.filter (·.key = u.key) = share.result.acks ∧
    (d.result.events.filter (·.ws = u.ws)).filter (·.commanded) =
      (foldBatch u.server u.key e.state (batch u.server e.queue)).2.map (attributed e.ws true) := by
  intro d share
  have hnodup : s.a.entities.keys.Nodup := s.a.entities.nodup
  have hkey : u.key ∈ s.a.entities.keys := by
    by_contra hno
    have hnone := JsMap.get?_eq_none_iff.mpr hno
    rw [h.entity] at hnone
    contradiction
  have hserved := drainEntity_served u.server u.key e
  have hshare : shareOf u.server s.a u.key = share.result := by rw [shareOf, h.entity]
  obtain ⟨hin, hout, hacks, hevents⟩ := drainKeys_noThrows u.server hnodup s.a
  refine ⟨?_, ?_, ?_, ?_⟩
  · show (drainKeys _ _ _ _).authority.entities.get? u.key = _
    rw [hin u.key hkey, h.entity]
    rfl
  · intro k e' hk he'
    by_cases hmem : k ∈ s.a.entities.keys
    · have hk' : (s.a.entities.get? k).map (fun e => (drainEntity u.server noThrows k e).entity) =
          some e' := (hin k hmem).symm.trans he'
      obtain ⟨x, hx, rfl⟩ := Option.map_eq_some_iff.mp hk'
      rw [(drainEntity_ws u.server k x).1]
      exact h.others k x hk hx
    · have hnone := JsMap.get?_eq_none_iff.mpr hmem
      have hk' : s.a.entities.get? k = some e' := (hout k hmem).symm.trans he'
      rw [hnone] at hk'
      contradiction
  · show (drainKeys _ _ _ _).result.acks.filter _ = _
    rw [hacks, filter_flatMap hnodup hkey, hshare]
    · rw [hserved.acks]
      split <;> simp
    · intro k hk hne
      rw [shareOf]
      split
      · rfl
      · next x _ =>
        rw [(drainEntity_served u.server k x).acks]
        split <;> simp [hne]
  · show ((drainKeys _ _ _ _).result.events.filter _).filter _ = _
    rw [hevents, filter_flatMap hnodup hkey, hshare]
    · have hall : share.result.events.filter (·.ws = u.ws) = share.result.events := by
        rw [List.filter_eq_self]
        intro ev hev
        simpa using (hserved.attribution ev hev).trans h.owner
      rw [hall, hserved.events]
    · intro k hk hne
      rw [shareOf]
      split
      · rfl
      · next x hx =>
        rw [List.filter_eq_nil_iff]
        intro ev hev
        have hws := (drainEntity_served u.server k x).attribution ev hev
        simpa [hws] using h.others k x hne hx

omit [DecidableEq State] [DecidableEq Ws] in
theorem batch_numbered (h : Agree u s e done l) {m : Nat}
    (hm : m = (batch u.server e.queue).length) :
    done + m ≤ s.issued.length ∧ m ≤ e.queue.length ∧
      batch u.server e.queue = numbered done ((s.issued.drop done).take m) ∧
      waiting u.server e.queue ++ s.sent = numbered (done + m) (s.issued.drop (done + m)) := by
  have hparts := batch_append_waiting u.server e.queue
  have hlen := congrArg length hparts
  rw [length_append] at hlen
  have hle : m ≤ e.queue.length := by omega
  have htotal := congrArg length h.undone
  rw [length_append, length_numbered, length_drop] at htotal
  have hbatch := (batch_eq_take u.server e.queue).1
  have hwaiting := (batch_eq_take u.server e.queue).2
  rw [← hm] at hbatch hwaiting
  have hdone := h.done_le
  refine ⟨by omega, hle, ?_, ?_⟩
  · rw [hbatch, ← take_numbered, ← h.undone, List.take_append_of_le_length hle]
  · rw [hwaiting, ← List.drop_append_of_le_length hle, h.undone, drop_numbered, List.drop_drop]

omit [DecidableEq State] [DecidableEq Ws] in
theorem map_toEvent (ws : Ws) (commanded : Bool) (evs : List (Event Data)) :
    (evs.map (attributed ws commanded)).map (·.toEvent) = evs := by
  rw [List.map_map]
  exact List.map_id evs

theorem inv_drain (h : Inv u s) : Inv u (step u s .drain) := by
  obtain ⟨e, done, l, hag, hmir⟩ := h
  obtain ⟨hentity, hothers, hacks, hevents⟩ := drain_entity hag
  have hserved := drainEntity_served u.server u.key e
  obtain ⟨share, hsh⟩ : ∃ share, share = drainEntity u.server noThrows u.key e := ⟨_, rfl⟩
  obtain ⟨m, hm⟩ : ∃ m, m = (batch u.server e.queue).length := ⟨_, rfl⟩
  obtain ⟨hdone, hmq, hbatch, hwaiting⟩ := batch_numbered hag hm
  simp only [step, hag.entity, hentity, hacks, hevents, map_toEvent]
  rw [← hsh] at hserved ⊢
  by_cases hq : e.queue.length > 0
  · -- the owner's commands are applied and acknowledged
    have hne : e.queue ≠ [] := List.length_pos_iff.mp hq
    have hmpos : 0 < m := by
      rw [hm]
      exact List.length_pos_iff.mpr (batch_ne_nil hq)
    have hid : lastId (batch u.server e.queue) 0 = ((done + m : Nat) : Int) := by
      have htake : ((s.issued.drop done).take m).length = m := by
        rw [List.length_take, length_drop]
        omega
      have hsome : (s.issued.drop done).take m ≠ [] := List.length_pos_iff.mp (by omega)
      rw [hbatch, lastId_numbered done hsome, htake]
    have hack := hserved.acks
    rw [if_neg hne, hid] at hack
    rw [observe, if_pos hq, hack]
    refine ⟨share.entity, done + m, l, ?_, fun hmm => ?_⟩
    · exact { hag with
        entity := by rw [hsh]; exact hentity
        owner := hserved.ws.trans hag.owner
        others := hothers
        done_le := hdone
        undone := by rw [hserved.queue]; exact hwaiting
        acks := by
          intro k hk
          cases List.mem_append.mp hk with
          | inl hk =>
            obtain ⟨n, hn, hnd, hkn, -⟩ := hag.acks k hk
            exact ⟨n, hn, by omega, hkn, fun heq => by omega⟩
          | inr hk =>
            obtain rfl := List.mem_singleton.mp hk
            exact ⟨done + m, by omega, le_rfl, rfl, fun _ => rfl⟩
        unmoved := fun _ => rfl
        acked_le := by have := hag.acked_le; omega
        converged := by
          intro _ heq
          have hall : l = s.issued.length := heq
          have := hag.acked_le
          omega }
    · simp only [Bool.and_eq_true, decide_eq_true_eq] at hmm
      have hmi := hmir hmm.1
      have hadd := history_add u s hdone
      rw [← hbatch, ← hmi.state] at hadd
      have hstate := hserved.state (List.length_eq_zero_iff.mp hmm.2) hne
      exact { hmi with
        state := by
          show share.entity.state = (history u s (done + m)).1
          rw [hstate, hadd]
        acks := by
          intro k hk n hn
          cases List.mem_append.mp hk with
          | inl hk => exact hmi.acks k hk n hn
          | inr hk =>
            obtain rfl := List.mem_singleton.mp hk
            obtain rfl : done + m = n := by simp only at hn; omega
            show share.entity.state = (history u s (done + m)).1
            rw [hstate, hadd]
        authoritative := by
          show s.authoritative ++ _ = (history u s (done + m)).2
          rw [hadd, hmi.authoritative] }
  · -- without commands nothing is acknowledged
    have hnil : e.queue = [] := List.length_eq_zero_iff.mp (by omega)
    have hbnil : batch u.server e.queue = [] := by rw [hnil, batch_nil]
    have hack := hserved.acks
    rw [if_pos hnil] at hack
    rw [observe, if_neg hq, hack, hbnil]
    simp only [foldBatch, append_nil]
    refine ⟨share.entity, done, l, ?_, fun hmm => ?_⟩
    · exact { hag with
        entity := by rw [hsh]; exact hentity
        owner := hserved.ws.trans hag.owner
        others := hothers
        undone := by
          rw [hserved.queue, hnil, waiting_nil, ← hnil]
          exact hag.undone
        unmoved := by
          intro hmoved
          simp only [Bool.or_eq_false_iff, decide_eq_false_iff_not, not_not] at hmoved
          rw [hmoved.2]
          exact hag.unmoved hmoved.1 }
    · simp only [Bool.and_eq_true, decide_eq_true_eq] at hmm
      have hmi := hmir hmm.1
      exact { hmi with state := by rw [hmm.2]; exact hmi.state }

/-! ## runs -/

theorem inv_init (u : Setup State Cmd Data Ws) : Inv u (system u).init := by
  obtain ⟨e, he⟩ : ∃ e : Entity State Cmd Ws, e = {
      state := u.initial, ws := u.ws, queue := [], lastAckedId := 0, lastCommand := none
      active := u.active, serverQueue := [] } := ⟨_, rfl⟩
  have hinit : (system u).init.a.entities = JsMap.empty.set u.key e := by
    rw [he]
    rfl
  refine ⟨e, 0, 0, ?_, fun hm => ?_⟩
  · exact {
      entity := by rw [hinit, get?_set_self]
      owner := by rw [he]
      others := by
        intro k e' hk he'
        rw [hinit, get?_set_ne _ _ hk] at he'
        contradiction
      done_le := Nat.zero_le _
      undone := by rw [he]; rfl
      acks := by simp [system]
      unmoved := fun _ => by rw [he]; rfl
      live := rfl
      nextId := rfl
      head_le := le_rfl
      acked := rfl
      acked_le := le_rfl
      window := rfl
      converged := fun h => absurd h (Nat.lt_irrefl 0) }
  · simp only [system, decide_eq_true_eq] at hm
    exact {
      state := by rw [he]; rfl
      acks := by simp [system]
      predicted := hm
      authoritative := rfl
      optimistic := rfl }

theorem inv_step (hpure : Pure u.server.apply) (h : Inv u s) {act : Action State Cmd Ws}
    (hok : Delivered u s act) : Inv u (step u s act) := by
  cases act with
  | command cmd monoNow self => exact inv_command h cmd monoNow self hok
  | drainEvents => exact inv_drainEvents h
  | deliver n => exact inv_deliver h n hok
  | drain => exact inv_drain h
  | ack i self =>
    simp only [step]
    split
    · exact h
    · next k hk => exact (inv_ack hpure h (List.mem_of_getElem? hk) self).1
  | ensure key ws initialState active => exact inv_ensure h hok initialState active
  | enqueue key commands => exact inv_enqueue h hok commands
  | inject key cmd => exact inv_inject h key cmd

theorem agree_run (hpure : Pure u.server.apply) {as : List (Action State Cmd Ws)}
    (h : (system u).Runs (Delivered u) as s) : Inv u s := by
  apply h.invariant
  · exact inv_init u
  · intro s a s' hs hok hnext
    obtain rfl : step u s a = s' := Option.some.inj hnext
    exact inv_step hpure hs hok

/-- How many commands of its owner the authority has applied to the entity. -/
def applied (u : Setup State Cmd Data Ws) (s : System State Cmd Data Ws) : Nat :=
  s.issued.length - s.sent.length - (queued s.a u.key true).length

omit [DecidableEq State] [DecidableEq Ws] in
theorem applied_eq (h : Agree u s e done l) : applied u s = done := by
  have htotal := congrArg length h.undone
  rw [length_append, length_numbered, length_drop] at htotal
  have hdone := h.done_le
  simp only [applied, queued, h.entity, Option.map_some, Option.getD_some, Entity.queueOf, if_pos]
  omega

omit [DecidableEq State] [DecidableEq Ws] in
theorem id_of_mem_foldBatch {s : State}
    {ev : Event Data} (h : ev ∈ (foldBatch o key s (numbered n cs)).2) :
    (n : Int) < ev.id ∧ ev.id ≤ ((n + cs.length : Nat) : Int) := by
  induction cs generalizing n s with
  | nil => simp [numbered, foldBatch] at h
  | cons c cs ih =>
    simp only [numbered, foldBatch] at h
    simp only [List.length_cons]
    cases List.mem_append.mp h with
    | inl h =>
      obtain ⟨i, hi, rfl⟩ := List.mem_mapIdx.mp h
      simp only
      omega
    | inr h =>
      have hrest := ih h
      omega

/-- **Prediction converges to authority**: in every state of every run without
an eviction, an acknowledgement of the last command issued leaves the
prediction at the state the authority settled on when it applied that command,
which is the entity's state unless something else has moved it since.  Both
sides key the events of a command alike, a replay emits none, and while nothing
else moves the entity the two sides have the same events for every command the
authority has applied. -/
theorem prediction_converges {u : Setup State Cmd Data Ws} (hpure : Pure u.server.apply)
    {as : List (Action State Cmd Ws)} {s : System State Cmd Data Ws}
    (h : (system u).Runs (Delivered u) as s) :
    (∀ i k self, s.acks[i]? = some k → k.id = (s.issued.length : Int) →
      (step u s (.ack i self)).p.predicted = s.settled ∧
      (s.moved = false →
        (s.a.entities.get? u.key).map (·.state) = some (step u s (.ack i self)).p.predicted)) ∧
    (∀ (id : Nat) (emissions : List (Emission Data)),
      Predict.emitted true id emissions = Server.emitted (id : Int) emissions ∧
      Predict.emitted false id emissions = []) ∧
    (s.mirrored = true → ∀ id : Int, id ≤ (applied u s : Int) →
      (s.optimistic ++ s.p.eventSink).filter (·.id = id) = s.authoritative.filter (·.id = id)) := by
  have hinv := agree_run hpure h
  obtain ⟨e, done, l, hag, hmir⟩ := id hinv
  refine ⟨?_, fun _ _ => ⟨rfl, rfl⟩, ?_⟩
  · intro i k self hk hlast
    have hack := (inv_ack hpure hinv (List.mem_of_getElem? hk) self).2 hlast
    have hstep : (step u s (.ack i self)).p.predicted = s.settled := by
      simp only [step, hk]
      exact hack
    refine ⟨hstep, fun hmoved => ?_⟩
    rw [hstep, hag.entity, Option.map_some, hag.unmoved hmoved]
  · intro hm id hid
    rw [applied_eq hag] at hid
    have hmi := hmir hm
    have hdone := hag.done_le
    have hall := history_add u s (n := done) (m := s.issued.length - done) (by omega)
    rw [show done + (s.issued.length - done) = s.issued.length by omega] at hall
    rw [hmi.optimistic, hmi.authoritative, hall, List.filter_append]
    -- what the authority has not applied yet is numbered above
    have hrest : ((foldBatch u.server u.key (history u s done).1 (numbered done
        ((s.issued.drop done).take (s.issued.length - done)))).2).filter (·.id = id) = [] := by
      rw [List.filter_eq_nil_iff]
      intro ev hev
      have hlt := (id_of_mem_foldBatch hev).1
      simp only [decide_eq_true_eq]
      omega
    rw [hrest, append_nil]

end Drained

/-- An adder that announces what it added, with a tick of one command. -/
def addition : Setup Int Int Unit Nat :=
  { server := counter, client := { Predict.adder with apply := counter.apply }, shared := rfl
    key := "a", ws := 1, initial := 0, active := false }

theorem prediction_converges_example :
    let as : List (Action Int Int Nat) := [.command 5 0 (some "a"), .command 7 16 (some "a"),
      .deliver 2, .drain, .drain]
    let s := as.foldl (step addition) (system addition).init
    s.acks.map (·.id) = [1, 2] ∧
      (step addition s (.ack 1 (some "a"))).p.predicted = s.settled ∧ s.settled = 12 ∧
      (s.optimistic ++ s.p.eventSink).filter (·.id = 2) = s.authoritative.filter (·.id = 2) := by
  intro as s
  have hnext : ∀ {as s} (act : Action Int Int Nat), (system addition).Runs (Delivered addition) as s →
      Delivered addition s act →
      (system addition).Runs (Delivered addition) (as ++ [act]) (step addition s act) :=
    fun _ h hok => h.snoc hok rfl
  have hrun : (system addition).Runs (Delivered addition) as s := by
    have h0 : (system addition).Runs (Delivered addition) [] (system addition).init := .nil
    have h1 := hnext (.command 5 0 (some "a")) h0 (by unfold Delivered; decide +kernel)
    have h2 := hnext (.command 7 16 (some "a")) h1 (by unfold Delivered; decide +kernel)
    have h3 := hnext (.deliver 2) h2 (by
      intro e he
      cases he
      decide)
    exact hnext .drain (hnext .drain h3 trivial) trivial
  have hmain := prediction_converges (fun _ _ _ _ => rfl) hrun
  have hids : s.acks.map (·.id) = [1, 2] := by decide +kernel
  obtain ⟨k, hk, hid⟩ : ∃ k, s.acks[1]? = some k ∧ k.id = 2 := by
    have hsecond : (s.acks.map (·.id))[1]? = some 2 := by rw [hids]; rfl
    rwa [List.getElem?_map, Option.map_eq_some_iff] at hsecond
  have hmirrored : s.mirrored = true := by decide +kernel
  have happlied : (2 : Int) ≤ (applied addition s : Int) := by decide +kernel
  exact ⟨hids, (hmain.1 1 k _ hk hid).1, by decide +kernel, hmain.2.2 hmirrored 2 happlied⟩

end BunServe.Smooth.Convergence
