import BunServe.Lib.Machine
import BunServe.Lib.Prog
import BunServe.Publish

/-!
# BunServe.WireState

Binary frames on one connection: its topic ids and codec states
(`handler/wire-state.js`), and the four walks of `platform.js` that hand it frames,
`publishWire`, `publishWireBatch`, `sendWire` and `sendWireBatch`.

A walk is a `Session`: it asks the codec for a state and for payloads, and the
socket what became of an announce or a frame.  While the socket is asked the
connection may close; its close hook may then send on it again.  What happened is
in the `log`, newest first.

The publish walks are those of one connection: a connection without the capability
is served the envelope, whether by the walk or natively, and a payload that is
encoded once for several connections is encoded for this one.
-/

namespace BunServe.WireState

open Resume Publish

/-! ## the connection -/

abbrev Payload := List UInt8

/-- A codec. -/
structure Wire where
  capability : String
  schemaVersion : Nat
  /-- It has a `state`. -/
  stateful : Bool
  /-- Its `state` has an `onDetach`. -/
  onDetach : Bool
  deriving DecidableEq

/-- What `onAttach` returns. -/
structure CodecState where
  /-- `state.schemaVersion`, where it is a number. -/
  schemaVersion : Option Nat
  deriving DecidableEq

/-- The arguments of `wire.encode`. -/
inductive Request where
  | single (event : String) (data : Option String)
  | batch (event : String) (updates : List (Option String))
  deriving DecidableEq

/-- A frame of `buildBinaryFrame`, with the capability and the topic it is of. -/
structure BinaryFrame where
  capability : String
  topic : String
  schemaVersion : Nat
  topicId : Nat
  seq : JsNumber
  payload : Payload
  deriving DecidableEq

inductive Message where
  | frame (f : BinaryFrame)
  | json (envelope : String)
  deriving DecidableEq

/-- What happens on a connection. -/
inductive Event where
  /-- `onAttach` was called; whether it gave a state. -/
  | attached (capability : String) (state : Bool)
  /-- `onDetach` was called. -/
  | detached (capability : String)
  /-- `encode` returned bytes. -/
  | encoded (capability : String) (state : Option CodecState) (request : Request) (payload : Payload)
  /-- The announce of an id was accepted. -/
  | announced (topic : String) (id : Nat)
  /-- A message was handed to the transport. -/
  | handed (message : Message)
  /-- The transport accepted it. -/
  | accepted (message : Message)
  deriving DecidableEq

/-- An entry of `WS_WIRE_STATE`. -/
structure Entry where
  state : Option CodecState
  /-- `entry.detach` is a function. -/
  detach : Bool
  poisoned : Bool

structure Connection where
  ws : Socket
  /-- A send goes through; it throws once this is false. -/
  isOpen : Bool
  /-- It is in `wsConnections`. -/
  listed : Bool
  /-- `getUserData` throws. -/
  detached : Bool
  /-- `WS_CAPS`. -/
  caps : Option (List String)
  /-- `WS_SUBSCRIPTIONS`. -/
  subscriptions : List String
  /-- `WS_TOPIC_IDS`: `byName` and `next`. -/
  byName : JsMap String Nat
  nextId : Nat
  /-- `WS_WIRE_STATE`. -/
  wireStates : JsMap String Entry
  log : List Event

namespace Connection

/-- A connection just opened. -/
def fresh (ws : Socket) : Connection where
  ws
  isOpen := true
  listed := true
  detached := false
  caps := none
  subscriptions := []
  byName := .empty
  nextId := 1
  wireStates := .empty
  log := []

def note (c : Connection) (e : Event) : Connection := { c with log := e :: c.log }

/-- `caps && caps.has(capability)`. -/
def capable (c : Connection) (capability : String) : Bool :=
  c.caps.any fun caps => decide (capability ∈ caps)

/-- `wireStatePoisoned(ud, capability)`. -/
def wireStatePoisoned (c : Connection) (capability : String) : Bool :=
  (c.wireStates.get? capability).any Entry.poisoned

/-- `entry.detach(ws, entry.state)`, where there is one. -/
def detachEntry (c : Connection) (capability : String) : Connection :=
  if (c.wireStates.get? capability).any Entry.detach then c.note (.detached capability) else c

def poisonedEntry : Entry := { state := none, detach := false, poisoned := true }

/-- `poisonWireState(ws, ud, capability)`. -/
def poisonWireState (c : Connection) (capability : String) : Connection :=
  if c.wireStatePoisoned capability then c
  else
    { c.detachEntry capability with wireStates := c.wireStates.set capability poisonedEntry }

/-- `detachWireStates(ws, ud)`. -/
def detachWireStates (c : Connection) : Connection :=
  { c with
    wireStates := .empty
    log := c.wireStates.entries.foldl
      (fun log e => if e.2.detach then .detached e.1 :: log else log) c.log }

/-- `allocWireId` of a topic that has no id. -/
def allocWireId (c : Connection) (topic : String) : Connection :=
  { c with byName := c.byName.set topic c.nextId, nextId := c.nextId + 1 }

/-- `retireWireId(ud, WS_TOPIC_IDS, topic)`. -/
def retireWireId (c : Connection) (topic : String) : Connection :=
  { c with byName := c.byName.delete topic }

/-- The close handler, up to the close hook. -/
def markClosed (c : Connection) : Connection := { c with isOpen := false, listed := false }

/-- The close handler, after the close hook. -/
def sweep (c : Connection) : Connection :=
  { ({ c with subscriptions := [], caps := none } : Connection).detachWireStates with
    detached := true }

end Connection

/-! ## the questions -/

/-- What `sendControl` answers. -/
inductive Control where
  | delivered
  | refused
  | gone
  deriving DecidableEq

/-- What a send answers that does not throw. -/
inductive SendResult where
  | enqueued
  | success
  | dropped
  deriving DecidableEq

inductive Op where
  | onAttach (capability : String)
  | encode (capability : String) (state : Option CodecState) (request : Request)
  | announce (topic : String) (id : Nat)
  | send (message : Message) (compress : Bool)
  deriving DecidableEq

/-- The answers to a question. -/
@[reducible] def Op.Ans : Op → Type
  | .onAttach _ => Option CodecState
  | .encode .. => Option Payload
  | .announce .. => Control
  | .send .. => SendResult

abbrev Session := Prog Connection Op Op.Ans

/-! ## handler/wire-state.js -/

/-- `sendControl(ws, wireIdAnnounce(topic, id))`. -/
def sendControl (topic : String) (id : Nat) : Session Control := do
  let r : Control ← Prog.ask (Op.announce topic id)
  Prog.modify fun c => if r = .delivered then c.note (.announced topic id) else c
  pure r

/-- `ensureWireId(ws, ud, topic)`; -1 is none. -/
def ensureWireId (topic : String) : Session (Option Nat) := do
  let c ← Prog.get
  match c.byName.get? topic with
  | some id => pure (some id)
  | none =>
    Prog.modify fun c => c.allocWireId topic
    let r ← sendControl topic c.nextId
    if r = .delivered then pure (some c.nextId)
    else
      Prog.modify fun c => c.retireWireId topic
      pure none

/-- `ensureWireState(ws, ud, wire)`. -/
def ensureWireState (wire : Wire) : Session (Option CodecState) :=
  if wire.stateful then do
    let c ← Prog.get
    match c.wireStates.get? wire.capability with
    | some entry => pure entry.state
    | none =>
      let state : Option CodecState ← Prog.ask (Op.onAttach wire.capability)
      Prog.modify fun c =>
        { c.note (.attached wire.capability state.isSome) with
          wireStates := c.wireStates.set wire.capability
            { state, detach := wire.onDetach, poisoned := false } }
      pure state
  else pure none

/-- `wire.encode(…, state)`. -/
def encode (wire : Wire) (state : Option CodecState) (request : Request) :
    Session (Option Payload) := do
  let payload : Option Payload ← Prog.ask (Op.encode wire.capability state request)
  Prog.modify fun c => match payload with
    | none => c
    | some payload => c.note (.encoded wire.capability state request payload)
  pure payload

/-- `ws.send(…)`; none where it throws, before it reaches the transport. -/
def send (message : Message) (compress : Bool) : Session (Option SendResult) := do
  let c ← Prog.get
  if c.isOpen then
    Prog.modify fun c => c.note (.handed message)
    let r : SendResult ← Prog.ask (Op.send message compress)
    Prog.modify fun c => if r = .dropped then c else c.note (.accepted message)
    pure (some r)
  else pure none

/-- Whether a send delivered. -/
def reached (r : Option SendResult) : Bool := r.any fun r => decide (r ≠ .dropped)

/-- `typeof state.schemaVersion === 'number' ? state.schemaVersion : wire.schemaVersion`. -/
def schemaVersionOf (wire : Wire) (state : Option CodecState) : Nat :=
  (state.bind CodecState.schemaVersion).getD wire.schemaVersion

/-- `buildBinaryFrame(…)` with a seq, 0 where there is none. -/
def frameOf (wire : Wire) (schemaVersion : Nat) (topic : String) (topicId : Nat)
    (seq : Option JsNumber) (payload : Payload) : Message :=
  .frame
    { capability := wire.capability
      topic
      schemaVersion
      topicId
      seq := seq.getD (.ofNat 0)
      payload }

/-- `wireEnvelopeSend(ws, envelope, compress)`. -/
def wireEnvelopeSend (envelope : String) (compress : Bool) : Session Bool := do
  let r ← send (.json envelope) compress
  pure (reached r)

/-- `poisonWireState(ws, ud, wire.capability)` in a walk. -/
def poison (wire : Wire) : Session Unit := Prog.modify fun c => c.poisonWireState wire.capability

/-! ## publishWire -/

/-- The walk passes a connection over. -/
def Connection.skips (c : Connection) (topic : String) : Bool :=
  !c.listed || c.detached || !decide (topic ∈ c.subscriptions)

/-- The walk of a stateful codec. -/
def publishStateful (wire : Wire) (event : String) (data : Option String) (r : Recorded) :
    Session Bool := do
  let state ← ensureWireState wire
  let c ← Prog.get
  match state with
  | none =>
    if c.wireStatePoisoned wire.capability then wireEnvelopeSend r.envelope r.compress
    else
      let payload ← encode wire none (.single event data)
      match payload with
      | none => wireEnvelopeSend r.envelope r.compress
      | some payload =>
        let id ← ensureWireId r.topic
        match id with
        | none =>
          poison wire
          wireEnvelopeSend r.envelope r.compress
        | some id =>
          -- a dropped frame poisons nothing here: no state is behind it
          let result ← send (frameOf wire wire.schemaVersion r.topic id r.seq payload) r.compress
          pure (reached result)
  | some state =>
    let payload ← encode wire (some state) (.single event data)
    match payload with
    | none => wireEnvelopeSend r.envelope r.compress
    | some payload =>
      let id ← ensureWireId r.topic
      match id with
      | none =>
        poison wire
        wireEnvelopeSend r.envelope r.compress
      | some id =>
        let result ← send
          (frameOf wire (schemaVersionOf wire (some state)) r.topic id r.seq payload) r.compress
        if result = some .dropped then poison wire
        pure (reached result)

/-- The walk of a stateless codec. -/
def publishStateless (wire : Wire) (event : String) (data : Option String) (r : Recorded) :
    Session Bool := do
  let payload ← encode wire none (.single event data)
  match payload with
  | none => wireEnvelopeSend r.envelope r.compress
  | some payload =>
    let c ← Prog.get
    if c.wireStatePoisoned wire.capability then wireEnvelopeSend r.envelope r.compress
    else
      let id ← ensureWireId r.topic
      match id with
      | none =>
        poison wire
        wireEnvelopeSend r.envelope r.compress
      | some id =>
        let result ← send (frameOf wire wire.schemaVersion r.topic id r.seq payload) r.compress
        pure (reached result)

/-- `publishWire(topic, event, data, wire, options)` at a connection, once it is
stamped. -/
def publishWire (wire : Wire) (event : String) (data : Option String) (r : Recorded) :
    Session Bool := do
  let c ← Prog.get
  if r.excludeWs = some c.ws then pure false
  else if c.skips r.topic then pure false
  else if c.capable wire.capability then
    if wire.stateful then publishStateful wire event data r
    else publishStateless wire event data r
  else wireEnvelopeSend r.envelope r.compress

/-! ## publishWireBatch -/

/-- What a connection receives of a batch: `list`, `envList`, `seqList` and
`lastSeq`. -/
structure Subset where
  list : List WireRecord
  envList : List String
  seqList : List (Option JsNumber)
  lastSeq : Option JsNumber

/-- The loop over the entries not excluded for a connection. -/
def filterFor (ws : Socket) : List WireRecord → List String → List (Option JsNumber) →
    Option JsNumber → Subset
  | entry :: entries, env :: envs, seq :: seqs, lastSeq =>
    if entry.excludeWs = some ws then filterFor ws entries envs seqs lastSeq
    else
      let rest := filterFor ws entries envs seqs seq
      { rest with
        list := entry :: rest.list, envList := env :: rest.envList, seqList := seq :: rest.seqList }
  | _, _, _, lastSeq => { list := [], envList := [], seqList := [], lastSeq }

/-- `anyExclude`. -/
def anyExclude (entries : List WireRecord) : Bool := entries.any fun e => e.excludeWs.isSome

def subsetFor (ws : Socket) (entries : List WireRecord) (envs : List String)
    (seqs : List (Option JsNumber)) : Subset :=
  let lastSeq := seqs.getLast?.getD none
  if anyExclude entries then filterFor ws entries envs seqs lastSeq
  else { list := entries, envList := envs, seqList := seqs, lastSeq }

/-- `sendJson(ws, list)`. -/
def sendJson (compress : Bool) : List String → Session Bool
  | [] => pure false
  | env :: list => do
      let r ← send (.json env) compress
      if r = none then pure false
      else
        let delivered ← sendJson compress list
        pure (reached r || delivered)

/-- The entries one by one, where the codec declined the batch. -/
def publishEntries (wire : Wire) (state : CodecState) (topic event : String) (compress : Bool) :
    List WireRecord → List String → List (Option JsNumber) → Session Bool
  | entry :: list, env :: envList, seq :: seqList => do
      let p ← encode wire (some state) (.single event entry.data)
      match p with
      | none =>
        let r ← send (.json env) compress
        if r = none then pure false
        else
          let delivered ← publishEntries wire state topic event compress list envList seqList
          pure (reached r || delivered)
      | some p =>
        let id ← ensureWireId topic
        match id with
        | none =>
          poison wire
          sendJson compress (env :: envList)
        | some id =>
          let r ← send (frameOf wire (schemaVersionOf wire (some state)) topic id seq p) compress
          match r with
          | none => pure false
          | some .dropped =>
            poison wire
            sendJson compress envList
          | some _ =>
            let _ ← publishEntries wire state topic event compress list envList seqList
            pure true
  | _, _, _ => pure false

/-- `publishWireBatch(topic, event, entries, wire, options)` of a stateful codec at
a connection, once it is stamped. -/
def publishWireBatch (wire : Wire) (topic event : String) (compress : Bool)
    (entries : List WireRecord) (envs : List String) (seqs : List (Option JsNumber)) :
    Session Bool := do
  let c ← Prog.get
  if entries = [] then pure false
  else if c.skips topic then pure false
  else
    let s := subsetFor c.ws entries envs seqs
    if s.list = [] then pure false
    else if c.capable wire.capability then
      let state ← ensureWireState wire
      match state with
      | none => sendJson compress s.envList
      | some state =>
        let payload ← encode wire (some state) (.batch (event ++ "-batch") (s.list.map WireRecord.data))
        match payload with
        | none => publishEntries wire state topic event compress s.list s.envList s.seqList
        | some payload =>
          let id ← ensureWireId topic
          match id with
          | none =>
            poison wire
            sendJson compress s.envList
          | some id =>
            let result ← send
              (frameOf wire (schemaVersionOf wire (some state)) topic id s.lastSeq payload) compress
            if result = some .dropped then poison wire
            pure (reached result)
    else sendJson compress s.envList

/-! ## sendWire -/

/-- `wireJsonSend(ws, topic, event, data, compress, seq)`. -/
def wireJsonSend (text : JsNumber → String) (topic event : String) (data : Option String)
    (compress : Bool) (seq : Option JsNumber) : Session SendResult :=
  match envelopeBody topic event data with
  | none => Prog.fail
  | some body => do
      let r ← send (.json (completeSerializedEnvelope text body seq none)) compress
      pure (r.getD .dropped)

/-- `sendWire(ws, topic, event, data, wire, options)`, its seq resolved. -/
def sendWire (text : JsNumber → String) (wire : Wire) (topic event : String) (data : Option String)
    (compress : Bool) (seq : Option JsNumber) : Session SendResult := do
  let c ← Prog.get
  if c.detached then pure .dropped
  else if c.capable wire.capability && !c.wireStatePoisoned wire.capability then
    let state ← ensureWireState wire
    let payload ← encode wire state (.single event data)
    match payload with
    | none => wireJsonSend text topic event data compress seq
    | some payload =>
      let id ← ensureWireId topic
      match id with
      | none =>
        poison wire
        wireJsonSend text topic event data compress seq
      | some id =>
        let result ← send
          (frameOf wire (schemaVersionOf wire state) topic id seq payload) compress
        if result = some .dropped ∧ wire.stateful then poison wire
        pure (result.getD .dropped)
  else wireJsonSend text topic event data compress seq

/-! ## sendWireBatch -/

/-- `sendJsonFrom(i, source, prior)`. -/
def sendJsonFrom (text : JsNumber → String) (topic event : String) (compress : Bool) :
    List (Option String) → SendResult → Session SendResult
  | [], prior => pure prior
  | data :: source, _ => do
      let result ← wireJsonSend text topic event data compress none
      let c ← Prog.get
      if result = .dropped ∧ !c.isOpen then pure .dropped
      else sendJsonFrom text topic event compress source result

/-- The entries one by one, where the codec declined the batch. -/
def sendEntries (text : JsNumber → String) (wire : Wire) (state : CodecState) (topic event : String)
    (compress : Bool) : List (Option String) → SendResult → Session SendResult
  | [], prior => pure prior
  | data :: datas, _ => do
      let p ← encode wire (some state) (.single event data)
      match p with
      | none =>
        let result ← wireJsonSend text topic event data compress none
        let c ← Prog.get
        if result = .dropped ∧ !c.isOpen then pure .dropped
        else sendEntries text wire state topic event compress datas result
      | some p =>
        let id ← ensureWireId topic
        match id with
        | none =>
          poison wire
          sendJsonFrom text topic event compress (data :: datas) .success
        | some id =>
          let r ← send (frameOf wire (schemaVersionOf wire (some state)) topic id none p) compress
          match r with
          | none => pure .dropped
          | some .dropped =>
            poison wire
            sendJsonFrom text topic event compress datas .dropped
          | some result => sendEntries text wire state topic event compress datas result

/-- `sendWireBatch(ws, topic, event, entries, wire, options)`. -/
def sendWireBatch (text : JsNumber → String) (wire : Wire) (topic event : String) (compress : Bool)
    (datas : List (Option String)) : Session SendResult := do
  let c ← Prog.get
  if datas = [] then pure .success
  else if c.detached then pure .dropped
  else if c.capable wire.capability && !c.wireStatePoisoned wire.capability && wire.stateful then
    let state ← ensureWireState wire
    match state with
    | none => sendJsonFrom text topic event compress datas .success
    | some state =>
      let payload ← encode wire (some state) (.batch (event ++ "-batch") datas)
      match payload with
      | none => sendEntries text wire state topic event compress datas .success
      | some payload =>
        let id ← ensureWireId topic
        match id with
        | none =>
          poison wire
          sendJsonFrom text topic event compress datas .success
        | some id =>
          let result ← send
            (frameOf wire (schemaVersionOf wire (some state)) topic id none payload) compress
          if result = some .dropped then poison wire
          pure (result.getD .dropped)
  else sendJsonFrom text topic event compress datas .success

/-! ## the machine -/

/-- A call that reaches the connection. -/
inductive Call where
  | publishWire (wire : Wire) (event : String) (data : Option String) (r : Recorded)
  | publishWireBatch (wire : Wire) (topic event : String) (compress : Bool)
      (entries : List WireRecord) (envs : List String) (seqs : List (Option JsNumber))
  | sendWire (wire : Wire) (topic event : String) (data : Option String) (compress : Bool)
      (seq : Option JsNumber)
  | sendWireBatch (wire : Wire) (topic event : String) (compress : Bool) (datas : List (Option String))

def Call.wire : Call → Wire
  | .publishWire wire .. | .publishWireBatch wire .. | .sendWire wire .. | .sendWireBatch wire .. => wire

/-- What a call does; `publishWireBatch` is on its stateful lane. -/
def Call.run (text : JsNumber → String) : Call → Session Unit
  | .publishWire wire event data r => do
      let _ ← WireState.publishWire wire event data r
      pure ()
  | .publishWireBatch wire topic event compress entries envs seqs => do
      let _ ← WireState.publishWireBatch wire topic event compress entries envs seqs
      pure ()
  | .sendWire wire topic event data compress seq => do
      let _ ← WireState.sendWire text wire topic event data compress seq
      pure ()
  | .sendWireBatch wire topic event compress datas => do
      let _ ← WireState.sendWireBatch text wire topic event compress datas
      pure ()

/-- What is still to do. -/
inductive Frame where
  /-- A call, at a question. -/
  | waiting (op : Op) (k : op.Ans → Connection → Outcome Connection Op Op.Ans Unit)
  /-- The close handler, at the close hook. -/
  | closing

structure State where
  conn : Connection
  stack : List Frame

/-- A call runs up to its next question. -/
def settle (stack : List Frame) : Outcome Connection Op Op.Ans Unit → State
  | .done _ conn => { conn, stack }
  | .fail conn => { conn, stack }
  | .ask op conn k => { conn, stack := .waiting op k :: stack }

/-- The answers that are possible: a closed socket accepts nothing. -/
def Op.possible : (op : Op) → Connection → op.Ans → Bool
  | .onAttach _, _, _ | .encode .., _, _ => true
  | .announce .., c, (r : Control) => decide (c.isOpen = true ↔ r ≠ .gone)
  | .send .., c, (r : SendResult) => c.isOpen || decide (r = .dropped)

/-- The socket is asked, and may close meanwhile. -/
def Op.interruptible : Op → Bool
  | .onAttach _ | .encode .. => false
  | .announce .. | .send .. => true

inductive Action where
  | call (c : Call)
  | answer (op : Op) (ans : op.Ans)
  /-- A hello; it replaces the capabilities. -/
  | hello (caps : List String)
  | subscribe (topic : String)
  | unsubscribe (topic : String)
  /-- The socket leaves its open state. -/
  | shut
  /-- The close handler starts. -/
  | close
  /-- The close hook returns. -/
  | swept

/-- No call is under way, or the close hook runs. -/
def State.free (s : State) : Bool :=
  match s.stack with
  | [] | .closing :: _ => true
  | .waiting .. :: _ => false

/-- The connection may close now. -/
def State.closable (s : State) : Bool :=
  match s.stack with
  | [] | .closing :: _ => true
  | .waiting op _ :: _ => op.interruptible

/-- What can happen; a capability has one codec. -/
def next (wires : String → Wire) (text : JsNumber → String) (s : State) : Action → Option State
  | .call c =>
    if s.free ∧ wires c.wire.capability = c.wire then
      some (settle s.stack (c.run text s.conn))
    else none
  | .answer op ans =>
    match s.stack with
    | .waiting op' k :: stack =>
      if h : op = op' then
        if op.possible s.conn ans then some (settle stack (k (h ▸ ans) s.conn)) else none
      else none
    | _ => none
  | .hello caps => if s.free then some { s with conn := { s.conn with caps := some caps } } else none
  | .subscribe topic =>
    if s.free then some { s with conn := { s.conn with subscriptions := topic :: s.conn.subscriptions } }
    else none
  | .unsubscribe topic =>
    if s.free then
      some { s with conn :=
        { s.conn with subscriptions := s.conn.subscriptions.filter (· ≠ topic) } }
    else none
  | .shut => if s.closable then some { s with conn := { s.conn with isOpen := false } } else none
  | .close =>
    if s.closable ∧ s.conn.listed then
      some { conn := s.conn.markClosed, stack := .closing :: s.stack }
    else none
  | .swept =>
    match s.stack with
    | .closing :: stack => some { conn := s.conn.sweep, stack }
    | _ => none

/-- A connection and the calls that reach it. -/
def machine (wires : String → Wire) (text : JsNumber → String) (ws : Socket) : Machine State Action where
  init := { conn := .fresh ws, stack := [] }
  next := next wires text

end BunServe.WireState
