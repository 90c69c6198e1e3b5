import BunServe.Lib.JsMap
import BunServe.Smooth

/-!
# BunServe.Smooth.Server

The authority of `plugins/smooth/server.js`: one bounded command queue per
entity, drained through `apply` once per tick.

`apply` is pure; which of its applications throw is a parameter of every drain
(`Throws`), and likewise for `onMissing`.  States are compared with `===`.

Every operation also answers what happened to commands and states (`Note`):
which commands were accepted, evicted, dropped or committed, and which states
were created or moved.  No function reads the notes; they are what the
accounting in `Smooth.Drain` is about.
-/

namespace BunServe.Smooth.Server

/-- `{ id, cmd }`. -/
structure Command (Cmd : Type) where
  id : Int
  cmd : Cmd
  deriving DecidableEq

/-- The options as the caller passes them; a cap that is no integer is none. -/
structure Options (State Cmd Data : Type) where
  apply : Apply State Cmd Data
  onMissing : Option (State → Option Cmd → Option State)
  queueCap : Option Int
  maxCommandsPerTick : Option Nat

/-- The resolved options: the queue bound, and the command budget of a tick,
none for `Infinity`. -/
structure Config (State Cmd Data : Type) where
  apply : Apply State Cmd Data
  onMissing : Option (State → Option Cmd → Option State)
  queueCap : Nat
  maxCommandsPerTick : Option Nat
  cap_pos : 1 ≤ queueCap
  budget_pos : ∀ n ∈ maxCommandsPerTick, 1 ≤ n

/-- An entity. -/
structure Entity (State Cmd Ws : Type) where
  state : State
  ws : Ws
  queue : List (Command Cmd)
  lastAckedId : Int
  lastCommand : Option Cmd
  active : Bool
  serverQueue : List (Command Cmd)

/-- The variables of an authority. -/
structure Authority (State Cmd Ws : Type) where
  entities : JsMap String (Entity State Cmd Ws)
  serverId : Int

/-- A discrete event with its attribution. -/
structure Sent (Data Ws : Type) extends Event Data where
  ws : Ws
  commanded : Bool

structure Update (State Ws : Type) where
  key : String
  state : State
  ws : Ws
  commanded : Bool

structure Ack (State Ws : Type) where
  key : String
  ws : Ws
  id : Int
  state : State

/-- What a drain answers; `partial` of a `SmoothDrainError` has the same shape. -/
structure Result (State Data Ws : Type) where
  updates : List (Update State Ws)
  acks : List (Ack State Ws)
  events : List (Sent Data Ws)
  idle : Bool

/-- What happened to the commands and the state of an entity; `own` tells its
owner's queue from the server's. -/
inductive Note (State Cmd Ws : Type) where
  | created (key : String) (state : State) (ws : Ws)
  | bound (key : String) (ws : Ws)
  | accepted (key : String) (own : Bool) (commands : List (Command Cmd))
  | evicted (key : String) (own : Bool) (commands : List (Command Cmd))
  | dropped (key : String) (commands : List (Command Cmd))
  | committed (key : String) (own : Bool) (commands : List (Command Cmd))
  | moved (key : String) (state : State)

/-- Which callbacks throw during a drain. -/
structure Throws (State Cmd : Type) where
  apply : State → Cmd → Ctx → Bool
  onMissing : State → Option Cmd → Bool

variable {State Cmd Data Ws : Type}

/-! ## createSmoothAuthority -/

def DEFAULT_QUEUE_CAP : Nat := 1024

/-- The queue bound: a malformed cap never disables it. -/
def resolveCap : Option Int → Nat
  | some n => if 1 ≤ n then n.toNat else DEFAULT_QUEUE_CAP
  | none => DEFAULT_QUEUE_CAP

theorem resolveCap_pos (cap : Option Int) : 1 ≤ resolveCap cap := by
  cases cap with
  | none => simp [resolveCap, DEFAULT_QUEUE_CAP]
  | some n =>
    simp only [resolveCap, DEFAULT_QUEUE_CAP]
    split <;> omega

/-- The checks of `createSmoothAuthority(options)`; none is the `TypeError`. -/
def configure (o : Options State Cmd Data) : Option (Config State Cmd Data) :=
  if h : ∀ n ∈ o.maxCommandsPerTick, 1 ≤ n then
    some { o with
      queueCap := resolveCap o.queueCap
      cap_pos := resolveCap_pos o.queueCap
      budget_pos := h }
  else none

/-- A fresh authority. -/
def createSmoothAuthority : Authority State Cmd Ws := { entities := .empty, serverId := 0 }

/-! ## ensure, enqueue, inject -/

section Queues

variable [DecidableEq Ws]

/-- `ensure(key, ws, initialState, { active })`. -/
def ensure (a : Authority State Cmd Ws) (key : String) (ws : Ws) (initialState : State)
    (active : Bool) : (State × Int) × Authority State Cmd Ws × List (Note State Cmd Ws) :=
  match a.entities.get? key with
  | none =>
    let e : Entity State Cmd Ws :=
      { state := initialState, ws, queue := [], lastAckedId := 0, lastCommand := none, active,
        serverQueue := [] }
    ((e.state, e.lastAckedId), { a with entities := a.entities.set key e },
      [.created key initialState ws])
  | some e =>
    if e.ws = ws then ((e.state, e.lastAckedId), a, [])
    else
      let e' := { e with ws, queue := [], lastAckedId := 0 }
      ((e'.state, e'.lastAckedId), { a with entities := a.entities.set key e' },
        [.dropped key e.queue, .bound key ws])

end Queues

/-- The commands of a batch that `enqueue` looks at and finds well formed; an
entry that is falsy or whose id is no integer is none. -/
def incoming (cap : Nat) (commands : List (Option (Command Cmd))) : List (Command Cmd) :=
  ((commands.drop (commands.length - cap)).filterMap id).filter fun c => 0 ≤ c.id

/-- `enqueue(key, commands)`; `none` is a batch that is no array. -/
def enqueue (o : Config State Cmd Data) (a : Authority State Cmd Ws) (key : String)
    (commands : Option (List (Option (Command Cmd)))) :
    Bool × Authority State Cmd Ws × List (Note State Cmd Ws) :=
  match a.entities.get? key, commands with
  | some e, some commands =>
    let cs := incoming o.queueCap commands
    if cs.length = 0 then (false, a, [])
    else
      let overflow := e.queue.length + cs.length - o.queueCap
      let e' := { e with queue := e.queue.drop overflow ++ cs }
      (true, { a with entities := a.entities.set key e' },
        [.accepted key true cs, .evicted key true (e.queue.take overflow)])
  | _, _ => (false, a, [])

/-- `inject(key, cmd)`. -/
def inject (o : Config State Cmd Data) (a : Authority State Cmd Ws) (key : String) (cmd : Cmd) :
    Bool × Authority State Cmd Ws × List (Note State Cmd Ws) :=
  match a.entities.get? key with
  | none => (false, a, [])
  | some e =>
    let full := e.serverQueue.length ≥ o.queueCap
    let kept := if full then e.serverQueue.drop 1 else e.serverQueue
    let c : Command Cmd := { id := a.serverId - 1, cmd }
    let e' := { e with serverQueue := kept ++ [c] }
    (true, { entities := a.entities.set key e', serverId := a.serverId - 1 },
      [.accepted key false [c], .evicted key false (if full then e.serverQueue.take 1 else [])])

/-! ## drain -/

/-- The events of one application, as `ctx.emitEvent` keys them. -/
def emitted (id : Int) (emissions : List (Emission Data)) : List (Event Data) :=
  emissions.mapIdx fun ordinal e =>
    { type := e.type, key := e.key.getD (toString id ++ ":" ++ toString ordinal), data := e.data,
      id }

/-- `ctx` at the application of a command. -/
def context (key : String) (c : Command Cmd) : Ctx :=
  { firstTime := true, seed := c.id, key := some key }

/-- One batch through `apply`: the state and the events, or none when an
application throws. -/
def runBatch (o : Config State Cmd Data) (t : Throws State Cmd) (key : String) :
    State → List (Command Cmd) → Option (State × List (Event Data))
  | s, [] => some (s, [])
  | s, c :: cs =>
    if t.apply s c.cmd (context key c) then none
    else
      let r := o.apply s c.cmd (context key c)
      (runBatch o t key r.1 cs).map fun rest => (rest.1, emitted c.id r.2 ++ rest.2)

/-- An event of an entity's batch. -/
def attributed (ws : Ws) (commanded : Bool) (ev : Event Data) : Sent Data Ws :=
  { ev with ws, commanded }

/-- The commands that a tick takes from a queue. -/
def batch (o : Config State Cmd Data) (queue : List (Command Cmd)) : List (Command Cmd) :=
  match o.maxCommandsPerTick with
  | none => queue
  | some n => queue.take n

/-- The commands that wait for the next tick. -/
def waiting (o : Config State Cmd Data) (queue : List (Command Cmd)) : List (Command Cmd) :=
  match o.maxCommandsPerTick with
  | none => []
  | some n => queue.drop n

/-- The queue after a failed batch: restored for a retry, within the cap. -/
def restored (o : Config State Cmd Data) (queue : List (Command Cmd)) : List (Command Cmd) :=
  match o.maxCommandsPerTick with
  | none => queue
  | some n =>
    let q := queue.take n ++ queue.drop n
    q.drop (q.length - o.queueCap)

/-- One phase of an entity's tick: the entity, its events, and whether the
phase applied commands. -/
structure Phase (State Cmd Data Ws : Type) where
  entity : Entity State Cmd Ws
  events : List (Sent Data Ws)
  applied : Bool
  notes : List (Note State Cmd Ws)

section Drain

variable [DecidableEq State]

/-- The owner's commands, or `onMissing` without any; none when a callback throws. -/
def ownerPhase (o : Config State Cmd Data) (t : Throws State Cmd) (key : String)
    (e : Entity State Cmd Ws) : Option (Phase State Cmd Data Ws) :=
  if e.queue.length > 0 then
    let cs := batch o e.queue
    match runBatch o t key e.state cs with
    | none => none
    | some (s, events) =>
      some {
        entity := { e with
          state := s
          queue := waiting o e.queue
          lastAckedId := (cs.getLast?.map (·.id)).getD e.lastAckedId
          lastCommand := (cs.getLast?.map (·.cmd)).or e.lastCommand
          active := true }
        events := events.map (attributed e.ws true)
        applied := true
        notes := [.committed key true cs] }
  else
    match e.active, o.onMissing with
    | true, some onMissing =>
      if t.onMissing e.state e.lastCommand then none
      else
        match onMissing e.state e.lastCommand with
        | none => some { entity := { e with active := false }, events := [], applied := false, notes := [] }
        | some s =>
          if s = e.state then
            some { entity := { e with active := false }, events := [], applied := false, notes := [] }
          else
            some { entity := { e with state := s }, events := [], applied := false,
                   notes := [.moved key s] }
    | _, _ => some { entity := { e with active := false }, events := [], applied := false, notes := [] }

/-- The injected commands; none when an application throws. -/
def serverPhase (o : Config State Cmd Data) (t : Throws State Cmd) (key : String)
    (e : Entity State Cmd Ws) : Option (Phase State Cmd Data Ws) :=
  if e.serverQueue.length > 0 then
    match runBatch o t key e.state e.serverQueue with
    | none => none
    | some (s, events) =>
      some {
        entity := { e with state := s, serverQueue := [] }
        events := events.map (attributed e.ws false)
        applied := true
        notes := [.committed key false e.serverQueue] }
  else some { entity := e, events := [], applied := false, notes := [] }

/-- What one entity adds to a drain. -/
structure Share (State Cmd Data Ws : Type) where
  entity : Entity State Cmd Ws
  result : Result State Data Ws
  failed : Bool
  notes : List (Note State Cmd Ws)

/-- The acknowledgement of an entity whose owner's commands were applied. -/
def ackOf (key : String) (commanded : Bool) (e : Entity State Cmd Ws) : List (Ack State Ws) :=
  if commanded then [{ key, ws := e.ws, id := e.lastAckedId, state := e.state }] else []

/-- The update of an entity whose state changed. -/
def updateOf (key : String) (before : State) (commanded : Bool) (e : Entity State Cmd Ws) :
    List (Update State Ws) :=
  if e.state ≠ before then [{ key, state := e.state, ws := e.ws, commanded }] else []

/-- The body of the loop of `drain`. -/
def drainEntity (o : Config State Cmd Data) (t : Throws State Cmd) (key : String)
    (e : Entity State Cmd Ws) : Share State Cmd Data Ws :=
  match ownerPhase o t key e with
  | none =>
    { entity := { e with queue := restored o e.queue }
      result := { updates := [], acks := [], events := [], idle := false }
      failed := true, notes := [] }
  | some own =>
    match serverPhase o t key own.entity with
    | none =>
      -- the owner's phase is committed and delivered with the error
      { entity := own.entity
        result :=
          { updates := updateOf key e.state own.applied own.entity
            acks := ackOf key own.applied own.entity
            events := own.events, idle := false }
        failed := true, notes := own.notes }
    | some server =>
      let e' := server.entity
      { entity := e'
        result :=
          { updates := updateOf key e.state (own.applied && !server.applied) e'
            acks := ackOf key own.applied e'
            events := own.events ++ server.events
            idle := !(e'.active || decide (e'.queue.length > 0) || server.applied) }
        failed := false, notes := own.notes ++ server.notes }

/-- Join what two stretches of a drain report. -/
def Result.append (r r' : Result State Data Ws) : Result State Data Ws :=
  { updates := r.updates ++ r'.updates, acks := r.acks ++ r'.acks, events := r.events ++ r'.events,
    idle := r.idle && r'.idle }

/-- The outcome of a drain: what it answers, or throws as the `partial` of a
`SmoothDrainError` when it stopped at an entity. -/
structure Outcome (State Cmd Data Ws : Type) where
  result : Result State Data Ws
  failedAt : Option String
  authority : Authority State Cmd Ws
  notes : List (Note State Cmd Ws)

/-- The loop of `drain` over the remaining entities. -/
def drainKeys (o : Config State Cmd Data) (t : Throws State Cmd) :
    List String → Authority State Cmd Ws → Outcome State Cmd Data Ws
  | [], a => { result := { updates := [], acks := [], events := [], idle := true }, failedAt := none,
               authority := a, notes := [] }
  | key :: keys, a =>
    match a.entities.get? key with
    | none => drainKeys o t keys a
    | some e =>
      let share := drainEntity o t key e
      let a := { a with entities := a.entities.set key share.entity }
      if share.failed then
        { result := share.result, failedAt := some key, authority := a, notes := share.notes }
      else
        let rest := drainKeys o t keys a
        { rest with
          result := share.result.append rest.result
          notes := share.notes ++ rest.notes }

/-- `drain()`. -/
def drain (o : Config State Cmd Data) (t : Throws State Cmd) (a : Authority State Cmd Ws) :
    Outcome State Cmd Data Ws :=
  drainKeys o t a.entities.keys a

end Drain

end BunServe.Smooth.Server
