import BunServe.Lib.Machine
import BunServe.Lib.Rotation
import Mathlib.Logic.Function.Basic

/-!
# BunServe.Coalesced

`platform.sendCoalesced`: one pending value per key and connection, flushed at
once (`runtime/handler/coalesced.js`) by a drain of the map
(`runtime/utils/backpressure.js`), again when the socket drains, and by a timer
where a drain gave up for the sake of the other work.

A drain stops where it hands control over: to `JSON.stringify`, which may call
the application, to the sink that is told of a value without a JSON form, and to
the socket.  What these do, calls of `sendCoalesced` included, are the next
actions; the running drains are the frames, innermost first.  What the serialiser
and the socket answer is part of the action that ends their call.

The map of a connection and the iterator over it are one `Rotation`.  Entries are
told apart by their number, the place of their call in `queued`.

`drained` is the event after which the adapter flushes: the socket drained, or the
delivery gate in front of it has handed on what it held.
-/

namespace BunServe.Coalesced

abbrev Socket := Nat

def MAX_COALESCED_KEYS_PER_CONNECTION : Nat := 1000000

/-- A queued message. -/
structure Entry (V : Type) where
  id : Nat
  topic : String
  event : String
  data : V
  pre : String

/-- The send results: `SEND_BACKPRESSURE`, `SEND_SUCCESS` and `SEND_DROPPED`. -/
inductive Status where
  | backpressure
  | success
  | dropped
  deriving DecidableEq

/-- What became of a value. -/
inductive Fate where
  | sent
  | superseded
  | unserializable
  | evicted
  deriving DecidableEq

/-- A connection: the map in its `WS_COALESCED` slot and the iterator over it,
whether its socket owes a drain, whether a continuation is registered, and how far
it is closed. -/
structure Conn (K V : Type) where
  pending : Rotation K (Entry V)
  pressured : Bool
  continuation : Bool
  closed : Bool
  detached : Bool

/-- The variables of a drain; `initial` and `sends` are its bound and count. -/
structure Drain where
  ws : Socket
  callerEntry : Option Nat
  previous : Option Socket
  initial : Nat
  remaining : Nat
  sends : Nat
  yielded : Bool
  callerError : Bool

/-- Whose call a drain waits for. -/
inductive Phase where
  | serializing
  | reporting
  | sending
  deriving DecidableEq

/-- A drain that is calling out for an entry. -/
structure Frame (K V : Type) where
  drain : Drain
  key : K
  value : Entry V
  retried : Bool
  phase : Phase

/-- A frame handed to the socket. -/
structure Offer (K : Type) where
  ws : Socket
  key : K
  id : Nat
  payload : String

/-- The connections, the module variables of the drains, the running drains, and
the record: the calls that queued, the frames handed to a socket, what became of
the values, and the failures reported or thrown. -/
structure State (K V : Type) where
  conns : Socket → Conn K V
  drainingCoalesced : Option Socket
  parentDrains : List Socket
  frames : List (Frame K V)
  closedWsAborts : Nat
  queued : List (Socket × K)
  offered : List (Offer K)
  fates : List (Nat × Fate)
  reported : List Nat
  thrown : List Nat

variable {K V : Type} [DecidableEq K]

/-- A connection with nothing queued. -/
def Conn.fresh : Conn K V :=
  { pending := .empty, pressured := false, continuation := false, closed := false,
    detached := false }

def State.setConn (s : State K V) (ws : Socket) (conn : Conn K V) : State K V :=
  { s with conns := Function.update s.conns ws conn }

def State.setPending (s : State K V) (ws : Socket) (pending : Rotation K (Entry V)) : State K V :=
  s.setConn ws { s.conns ws with pending }

def State.fate (s : State K V) (id : Nat) (f : Fate) : State K V :=
  { s with fates := s.fates ++ [(id, f)] }

/-! ## a drain -/

/-- The end of `drainCoalesced`, and what `flushCoalescedFor` does with its answer. -/
def finish (s : State K V) (d : Drain) (answer aborted : Bool) : State K V :=
  let conn := s.conns d.ws
  let conn := { conn with
    pending := if aborted then .empty else conn.pending.release
    continuation := conn.continuation || (!aborted && answer) }
  { s.setConn d.ws conn with
    drainingCoalesced := d.previous
    parentDrains := match d.previous with
      | none => s.parentDrains
      | some previous => s.parentDrains.erase previous
    thrown := if d.callerError then s.thrown ++ d.callerEntry.toList else s.thrown }

/-- The head of the inner loop: `send` is called while the bound allows. -/
def visit (s : State K V) (d : Drain) (key : K) (value : Entry V) (retried : Bool) : State K V :=
  if d.remaining = 0 then finish s d true false
  else
    let drain := { d with remaining := d.remaining - 1, sends := d.sends + 1 }
    { s with frames := { drain, key, value, retried, phase := .serializing } :: s.frames }

/-- The next turn of the loop over the map. -/
def advance (s : State K V) (d : Drain) : State K V :=
  let pending := (s.conns d.ws).pending
  match pending.cursor with
  | none => finish s d d.yielded false
  | some p =>
    match pending.map.entries[p]? with
    | none => finish s d d.yielded false
    | some (key, first) => visit (s.setPending d.ws (pending.forward p)) d key first false

/-- `Object.is(pending.get(key), value)` -/
def current (s : State K V) (ws : Socket) (key : K) (value : Entry V) : Bool :=
  match (s.conns ws).pending.map.get? key with
  | some e => e.id = value.id
  | none => false

/-- The inner loop behind the call of `send`, which answered. -/
def returned (s : State K V) (f : Frame K V) (result : Status) (aborted : Bool) : State K V :=
  let d := f.drain
  if result = .dropped then finish s d false aborted
  else if current s d.ws f.key f.value then
    let s := s.setPending d.ws ((s.conns d.ws).pending.delete f.key)
    if result = .backpressure then finish s d false aborted else advance s d
  else if result = .backpressure then finish s d false aborted
  else
    match (s.conns d.ws).pending.map.get? f.key with
    | none => advance s d
    | some value =>
      if f.retried then advance s { d with yielded := true }
      else visit s d f.key value true

/-- The callback of `flushCoalescedFor` behind `JSON.stringify`, which gave a text
or nothing. -/
def serialized (s : State K V) (f : Frame K V) (body : Option String) : State K V :=
  if !current s f.drain.ws f.key f.value then returned s f .success false
  else
    match body with
    | none =>
      let s := s.fate f.value.id .unserializable
      if f.drain.callerEntry = some f.value.id then
        returned s { f with drain := { f.drain with callerError := true } } .success false
      else
        { s with
          reported := s.reported ++ [f.value.id]
          frames := { f with phase := .reporting } :: s.frames }
    | some body =>
      if (s.conns f.drain.ws).closed then
        returned { s with closedWsAborts := s.closedWsAborts + 1 } f .backpressure true
      else
        { s with
          offered := s.offered ++
            [{ ws := f.drain.ws, key := f.key, id := f.value.id
               payload := f.value.pre ++ body ++ "\x7d" }]
          frames := { f with phase := .sending } :: s.frames }

/-- The callback of `flushCoalescedFor` behind the send. -/
def sent (s : State K V) (f : Frame K V) (result : Status) : State K V :=
  let conn := s.conns f.drain.ws
  let s := s.setConn f.drain.ws { conn with pressured := conn.pressured || result ≠ .success }
  let s := if result = .dropped then s else s.fate f.value.id .sent
  returned s f result false

/-- `drainCoalesced(pending, send)`: nothing where the map is being drained. -/
def drainCoalesced (s : State K V) (ws : Socket) (callerEntry : Option Nat) : State K V :=
  let conn := s.conns ws
  let size := conn.pending.map.size
  let begun := fun parentDrains =>
    advance { s.setPending ws conn.pending.rewind with drainingCoalesced := some ws, parentDrains }
      { ws, callerEntry, previous := s.drainingCoalesced, initial := size, remaining := size * 2
        sends := 0, yielded := false, callerError := false }
  match s.drainingCoalesced with
  | none => begun s.parentDrains
  | some previous =>
    if previous = ws ∨ ws ∈ s.parentDrains then s
    else begun (s.parentDrains.insert previous)

/-- `flushCoalescedFor(ws, callerEntry)` -/
def flushCoalescedFor (s : State K V) (ws : Socket) (callerEntry : Option Nat) : State K V :=
  if (s.conns ws).detached then { s with closedWsAborts := s.closedWsAborts + 1 }
  else if (s.conns ws).pending.map.size = 0 then s
  else drainCoalesced s ws callerEntry

/-! ## queueing -/

/-- At the cap with a new key: the oldest pending value goes. -/
def evict (s : State K V) (ws : Socket) (key : K) : State K V :=
  let pending := (s.conns ws).pending
  if pending.map.size ≥ MAX_COALESCED_KEYS_PER_CONNECTION ∧ pending.map.has key = false then
    match pending.map.entries with
    | [] => s
    | (oldest, e) :: _ => (s.setPending ws (pending.delete oldest)).fate e.id .evicted
  else s

/-- `pending.set(key, entry)` -/
def store (s : State K V) (ws : Socket) (key : K) (entry : Entry V) : State K V :=
  let pending := (s.conns ws).pending
  let s := match pending.map.get? key with
    | none => s
    | some e => s.fate e.id .superseded
  { s.setPending ws (pending.set key entry) with queued := s.queued ++ [(ws, key)] }

/-- `sendCoalesced(ws, message)`; `envelopePrefix` gives nothing for a topic or an
event the envelope cannot carry, and the call throws. -/
def sendCoalesced (envelopePrefix : String → String → Option String) (s : State K V) (ws : Socket)
    (key : K) (topic event : String) (data : V) : State K V :=
  if (s.conns ws).detached then { s with closedWsAborts := s.closedWsAborts + 1 }
  else
    match envelopePrefix topic event with
    | none => s
    | some pre =>
      let id := s.queued.length
      flushCoalescedFor (store (evict s ws key) ws key { id, topic, event, data, pre }) ws (some id)

/-! ## runs -/

/-- What happens next. -/
inductive Action (K V : Type) where
  | sendCoalesced (ws : Socket) (key : K) (topic event : String) (data : V)
  | serialized (body : Option String)
  | reported
  | sent (result : Status)
  | drained (ws : Socket)
  | timer (ws : Socket)
  | close (ws : Socket)
  | detach (ws : Socket)

/-- The adapter does one action. -/
def next (envelopePrefix : String → String → Option String) (s : State K V) :
    Action K V → Option (State K V)
  | .sendCoalesced ws key topic event data =>
    some (sendCoalesced envelopePrefix s ws key topic event data)
  | .serialized body =>
    match s.frames with
    | [] => none
    | f :: frames => if f.phase = .serializing then some (serialized { s with frames } f body) else none
  | .reported =>
    match s.frames with
    | [] => none
    | f :: frames =>
      if f.phase = .reporting then some (returned { s with frames } f .success false) else none
  | .sent result =>
    match s.frames with
    | [] => none
    | f :: frames => if f.phase = .sending then some (sent { s with frames } f result) else none
  | .drained ws =>
    some (flushCoalescedFor (s.setConn ws { s.conns ws with pressured := false }) ws none)
  | .timer ws =>
    match s.frames with
    | [] =>
      let conn := s.conns ws
      if conn.continuation then
        let s := s.setConn ws { conn with continuation := false }
        if conn.closed then some (s.setPending ws .empty)
        else some (flushCoalescedFor s ws none)
      else none
    | _ => none
  | .close ws => some (s.setConn ws { s.conns ws with closed := true })
  | .detach ws =>
    if (s.conns ws).closed then some (s.setConn ws { s.conns ws with detached := true }) else none

/-- The adapter before any connection queued a value. -/
def machine (K V : Type) [DecidableEq K] (envelopePrefix : String → String → Option String) :
    Machine (State K V) (Action K V) where
  init :=
    { conns := fun _ => .fresh, drainingCoalesced := none, parentDrains := [], frames := [],
      closedWsAborts := 0, queued := [], offered := [], fates := [], reported := [], thrown := [] }
  next := next envelopePrefix

def State.running (s : State K V) (ws : Socket) : Prop := ws ∈ s.frames.map fun f => f.drain.ws

end BunServe.Coalesced
