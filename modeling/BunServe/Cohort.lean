import BunServe.Lib.Machine
import BunServe.Lib.JsMap

/-!
# BunServe.Cohort

The cohorts of shared binary fan-out: the table of `utils/shared-wire-id.js`, and
`joinSharedCohort` and `leaveSharedCohort` of `handler/cohort.js` with the close
sweep of `handler/ws.js`.

A join announces its id in the middle, through `sendControl`, which may cut the
connection and so run its close hook.  The join leaves a `Frame` for the rest, and
so does a close for its sweep; while a close hook runs, the application may do
anything.  The native topics of a connection are in `subscriptions`, the cohorts
it is recorded in are in `cohorts`.
-/

namespace BunServe.Cohort

/-! ## the table of ids -/

/-- `SHARED_WIRE_ID_BASE`. -/
def SHARED_WIRE_ID_BASE : Nat := 0x100000000

structure Entry where
  id : Nat
  refs : Int

/-- `createSharedWireIdTable()`, with every assignment it made. -/
structure Table where
  byTopic : JsMap String Entry
  nextId : Nat
  assigned : List (Nat × String)

def createSharedWireIdTable : Table where
  byTopic := .empty
  nextId := SHARED_WIRE_ID_BASE
  assigned := []

namespace Table

/-- `acquire(topic)`. -/
def acquire (t : Table) (topic : String) : Nat × Table :=
  match t.byTopic.get? topic with
  | some e => (e.id, { t with byTopic := t.byTopic.set topic { e with refs := e.refs + 1 } })
  | none =>
    (t.nextId,
      { byTopic := t.byTopic.set topic { id := t.nextId, refs := 1 }
        nextId := t.nextId + 1
        assigned := (t.nextId, topic) :: t.assigned })

/-- `release(topic)`. -/
def release (t : Table) (topic : String) : Table :=
  match t.byTopic.get? topic with
  | none => t
  | some e =>
    if e.refs - 1 ≤ 0 then { t with byTopic := t.byTopic.delete topic }
    else { t with byTopic := t.byTopic.set topic { e with refs := e.refs - 1 } }

/-- `get(topic)`. -/
def get (t : Table) (topic : String) : Option Nat := (t.byTopic.get? topic).map Entry.id

/-- `refs(topic)`. -/
def refs (t : Table) (topic : String) : Int := ((t.byTopic.get? topic).map Entry.refs).getD 0

end Table

/-! ## the connections -/

/-- The binary cohort of `cohortTopics(topic)`. -/
def bin (topic : String) : String := topic ++ "\x00bin"

/-- The JSON cohort of `cohortTopics(topic)`. -/
def json (topic : String) : String := topic ++ "\x00json"

structure Connection where
  /-- Writes and subscriptions go through; they throw once it is closed. -/
  isOpen : Bool
  /-- `WS_CAPS`. -/
  caps : List String
  /-- The capabilities `wireStatePoisoned` answers true for. -/
  poisoned : List String
  /-- `WS_SHARED_COHORTS`. -/
  cohorts : List String
  /-- The native topics among the cohorts. -/
  subscriptions : List String
  /-- The id of each topic that was announced last and delivered. -/
  announced : JsMap String Nat
  /-- The shared topics it joined and did not leave since. -/
  joined : List String

namespace Connection

/-- A connection just opened. -/
def fresh : Connection where
  isOpen := true
  caps := []
  poisoned := []
  cohorts := []
  subscriptions := []
  announced := .empty
  joined := []

/-- `ws.subscribe(name)`. -/
def subscribe (c : Connection) (name : String) : Connection :=
  if c.isOpen then { c with subscriptions := name :: c.subscriptions.filter (· ≠ name) } else c

/-- `ws.unsubscribe(name)`. -/
def unsubscribe (c : Connection) (name : String) : Connection :=
  if c.isOpen then { c with subscriptions := c.subscriptions.filter (· ≠ name) } else c

/-- `caps && caps.has(capability) && !wireStatePoisoned(ud, capability)`. -/
def binary (c : Connection) (capability : String) : Bool :=
  decide (capability ∈ c.caps) && !decide (capability ∈ c.poisoned)

def join (c : Connection) (topic : String) : Connection := { c with joined := topic :: c.joined }

def leave (c : Connection) (topic : String) : Connection :=
  { c with joined := c.joined.filter (· ≠ topic) }

end Connection

/-- What is still to do. -/
inductive Frame where
  /-- `joinSharedCohort`, at `sendControl`. -/
  | announcing (ws : Nat) (topic : String) (id : Nat)
  /-- The close handler, at the close hook. -/
  | closing (ws : Nat)
  deriving DecidableEq

structure State where
  table : Table
  conns : JsMap Nat Connection
  stack : List Frame

def State.init : State where
  table := createSharedWireIdTable
  conns := .empty
  stack := []

/-! ## joining and leaving -/

/-- `joinSharedCohort(ws, ud, topic, capability)`, up to the announce. -/
def joinSharedCohort (s : State) (ws : Nat) (c : Connection) (topic capability : String) : State :=
  if c.binary capability then
    if topic ∈ c.cohorts then s
    else
      let r := s.table.acquire topic
      { s with table := r.2, stack := .announcing ws topic r.1 :: s.stack }
  else
    let held := decide (topic ∈ c.cohorts)
    let table := if held then s.table.release topic else s.table
    let c := if held then
      ({ c with cohorts := c.cohorts.filter (· ≠ topic) } : Connection).unsubscribe (bin topic) else c
    { s with table, conns := s.conns.set ws ((c.subscribe (json topic)).join topic) }

/-- The rest of a join whose announce was delivered. -/
def announceDelivered (s : State) (ws : Nat) (c : Connection) (topic : String) (id : Nat) : State :=
  let c := { c with
    cohorts := topic :: c.cohorts.filter (· ≠ topic), announced := c.announced.set topic id }
  { s with
    conns := s.conns.set ws (((c.unsubscribe (json topic)).subscribe (bin topic)).join topic) }

/-- The rest of a join whose announce was refused. -/
def announceRefused (s : State) (ws : Nat) (c : Connection) (topic : String) : State :=
  { s with
    table := s.table.release topic
    conns := s.conns.set ws ((c.subscribe (json topic)).join topic) }

/-- The rest of a join whose connection is gone. -/
def announceGone (s : State) (topic : String) : State := { s with table := s.table.release topic }

/-- `leaveSharedCohort(ws, ud, topic)`. -/
def leaveSharedCohort (s : State) (ws : Nat) (c : Connection) (topic : String) : State :=
  let left := (c.unsubscribe (bin topic)).unsubscribe (json topic)
  if topic ∈ c.cohorts then
    { s with
      table := s.table.release topic
      conns := s.conns.set ws
        (({ left with cohorts := left.cohorts.filter (· ≠ topic) } : Connection).leave topic) }
  else { s with conns := s.conns.set ws (left.leave topic) }

/-- A connection closes: nothing goes through it, its native topics are gone, and
its close hook runs. -/
def closeConnection (s : State) (ws : Nat) (c : Connection) : State :=
  { s with
    conns := s.conns.set ws { c with isOpen := false, subscriptions := [] }
    stack := .closing ws :: s.stack }

/-- The sweep after the close hook. -/
def sweep (s : State) (ws : Nat) (c : Connection) : State :=
  { s with
    table := c.cohorts.foldl Table.release s.table
    conns := s.conns.set ws { c with caps := [], poisoned := [], cohorts := [] } }

/-! ## the machine -/

inductive Action where
  | connect (ws : Nat)
  /-- A hello; it replaces the capabilities. -/
  | hello (ws : Nat) (caps : List String)
  | poison (ws : Nat) (capability : String)
  | join (ws : Nat) (topic capability : String)
  | leave (ws : Nat) (topic : String)
  | close (ws : Nat)
  /-- What `sendControl` answers. -/
  | delivered
  | refused
  | gone
  /-- `sendControl` cuts the connection. -/
  | cut
  /-- A close hook returns. -/
  | swept

/-- Nothing runs, or a close hook does. -/
def State.free (s : State) : Bool :=
  match s.stack with
  | [] | .closing _ :: _ => true
  | .announcing .. :: _ => false

/-- What the application and the clients can do. -/
def call (s : State) : Action → Option State
  | .connect ws =>
    match s.conns.get? ws with
    | some _ => none
    | none => some { s with conns := s.conns.set ws .fresh }
  | .hello ws caps =>
    (s.conns.get? ws).map fun c => { s with conns := s.conns.set ws { c with caps } }
  | .poison ws capability =>
    (s.conns.get? ws).map fun c =>
      { s with conns := s.conns.set ws { c with poisoned := capability :: c.poisoned } }
  | .join ws topic capability =>
    (s.conns.get? ws).map fun c => joinSharedCohort s ws c topic capability
  | .leave ws topic => (s.conns.get? ws).map fun c => leaveSharedCohort s ws c topic
  | .close ws =>
    match s.conns.get? ws with
    | none => none
    | some c => if c.isOpen then some (closeConnection s ws c) else none
  | _ => none

/-- What can happen. -/
def next (s : State) (a : Action) : Option State :=
  match s.stack, a with
  | .announcing ws topic id :: stack, .delivered =>
    match s.conns.get? ws with
    | none => none
    | some c => if c.isOpen then some (announceDelivered { s with stack } ws c topic id) else none
  | .announcing ws topic _ :: stack, .refused =>
    (s.conns.get? ws).map fun c => announceRefused { s with stack } ws c topic
  | .announcing ws topic _ :: stack, .gone =>
    match s.conns.get? ws with
    | none => none
    | some c => if c.isOpen then none else some (announceGone { s with stack } topic)
  | .announcing ws _ _ :: _, .cut =>
    match s.conns.get? ws with
    | none => none
    | some c => if c.isOpen then some (closeConnection s ws c) else none
  | .closing ws :: stack, .swept => (s.conns.get? ws).map fun c => sweep { s with stack } ws c
  | _, a => if s.free then call s a else none

/-- A server's shared cohorts. -/
def machine : Machine State Action where
  init := .init
  next := next

end BunServe.Cohort
