import BunServe.Lib.JsMap

/-!
# BunServe.Admission

The gate for application messages of `runtime/utils/message-admission.js`:
rate lanes in front, then concurrency limits with one bounded queue shared by
all connections.

The rate lanes compute with whatever numbers there are (`Arith`); doubles are
one instance, and nothing about the limits depends on them.  The counters are
integers, so that a release too many would show.

Every call of `enter` has a number, its *ticket*, which names the permit or the
wait it may lead to; `started`, `waiters` and `resolved` record what became of
the tickets and are read by no function.
-/

namespace BunServe.Admission

/-! ## options -/

/-- An option as the caller passes it. -/
inductive Value where
  | integer (n : Int)
  | other
  deriving DecidableEq

def MAX_SAFE_INTEGER : Int := 2 ^ 53 - 1

def DEFAULT_WINDOW_MS : Nat := 1000

/-- `limit(value, name, { positive })`. -/
def limit (value : Option Value) (name : String) (positive : Bool) : Except String Nat :=
  match value with
  | none => .ok 0
  | some (.integer n) =>
    if -MAX_SAFE_INTEGER ≤ n ∧ n ≤ MAX_SAFE_INTEGER ∧ ¬ n < (if positive then 1 else 0) then
      .ok n.toNat
    else .error (name ++ " must be " ++ (if positive then "a positive" else "a non-negative") ++
      " safe integer.")
  | some .other => .error (name ++ " must be " ++
      (if positive then "a positive" else "a non-negative") ++ " safe integer.")

/-- The options; `unknown` are the fields that are none of these. -/
structure Options where
  perConnectionRate : Option Value
  globalRate : Option Value
  perConnectionBytesRate : Option Value
  globalBytesRate : Option Value
  rateWindowMs : Option Value
  perConnectionConcurrent : Option Value
  globalConcurrent : Option Value
  maxQueue : Option Value
  unknown : List String

/-- The normalized options: a queue needs a concurrency limit. -/
structure Config where
  perConnectionRate : Nat
  globalRate : Nat
  perConnectionBytesRate : Nat
  globalBytesRate : Nat
  rateWindowMs : Nat
  perConnectionConcurrent : Nat
  globalConcurrent : Nat
  maxQueue : Nat
  queue_limited : 0 < maxQueue → 0 < perConnectionConcurrent ∨ 0 < globalConcurrent

/-- The options of a gate without any. -/
def unlimited : Config :=
  { perConnectionRate := 0, globalRate := 0, perConnectionBytesRate := 0, globalBytesRate := 0,
    rateWindowMs := DEFAULT_WINDOW_MS, perConnectionConcurrent := 0, globalConcurrent := 0,
    maxQueue := 0, queue_limited := by simp }

/-- What a caller passes as options; `other` is null, an array, or no object. -/
inductive Input where
  | undefined
  | object (o : Options)
  | other

/-- `normalizeMessageAdmission(input, prefix)` of an object. -/
def normalizeOptions (o : Options) (pre : String) : Except String Config := do
  if o.unknown.length > 0 then
    throw (pre ++ " contains unsupported field" ++ (if o.unknown.length = 1 then "" else "s") ++
      ": " ++ ", ".intercalate o.unknown ++ ".")
  let perConnectionRate ← limit o.perConnectionRate (pre ++ ".perConnectionRate") false
  let globalRate ← limit o.globalRate (pre ++ ".globalRate") false
  let rateWindowMs ←
    if o.rateWindowMs = none then pure DEFAULT_WINDOW_MS
    else limit o.rateWindowMs (pre ++ ".rateWindowMs") true
  let perConnectionBytesRate ← limit o.perConnectionBytesRate (pre ++ ".perConnectionBytesRate") false
  let globalBytesRate ← limit o.globalBytesRate (pre ++ ".globalBytesRate") false
  let perConnectionConcurrent ←
    limit o.perConnectionConcurrent (pre ++ ".perConnectionConcurrent") false
  let globalConcurrent ← limit o.globalConcurrent (pre ++ ".globalConcurrent") false
  let maxQueue ← limit o.maxQueue (pre ++ ".maxQueue") false
  if h : 0 < maxQueue → 0 < perConnectionConcurrent ∨ 0 < globalConcurrent then
    pure { perConnectionRate, globalRate, perConnectionBytesRate, globalBytesRate, rateWindowMs,
           perConnectionConcurrent, globalConcurrent, maxQueue, queue_limited := h }
  else
    throw (pre ++ ".maxQueue requires perConnectionConcurrent or globalConcurrent.")

/-- `normalizeMessageAdmission(input, prefix)`. -/
def normalizeMessageAdmission (input : Input) (pre : String) : Except String Config :=
  match input with
  | .undefined => .ok unlimited
  | .object o => normalizeOptions o pre
  | .other => .error (pre ++ " must be an object.")

/-- `enabled`: whether any limit is set. -/
def Config.enabled (c : Config) : Bool :=
  c.perConnectionRate > 0 || c.globalRate > 0 || c.perConnectionBytesRate > 0 ||
    c.globalBytesRate > 0 || c.perConnectionConcurrent > 0 || c.globalConcurrent > 0

/-! ## rate lanes -/

/-- The arithmetic of the rate lanes. -/
class Arith (N : Type) extends Add N, Sub N, Mul N, Div N, Max N, Min N where
  ofNat : Nat → N
  lt : N → N → Bool
  ceil : N → N

open Arith

structure Bucket (N : Type) where
  tokens : N
  updatedAt : N

inductive Scope where
  | connection
  | global
  deriving DecidableEq

/-- Why a message is refused. -/
inductive Reason where
  | rate_limit
  | concurrency_limit
  | queue_full
  | connection_closed
  deriving DecidableEq

structure Rejection (N : Type) where
  reason : Reason
  scope : Scope
  retryAfterMs : Option N

variable {N : Type} [Arith N]

/-- `refill(bucket, capacity, windowMs, at)`. -/
def refill (bucket : Option (Bucket N)) (capacity windowMs : Nat) (now : N) : Bucket N :=
  match bucket with
  | none => { tokens := ofNat capacity, updatedAt := now }
  | some b =>
    let elapsed := max (ofNat 0) (now - b.updatedAt)
    { tokens := min (ofNat capacity) (b.tokens + elapsed * ofNat capacity / ofNat windowMs)
      updatedAt := now }

/-- `rateRejection(scope, bucket, capacity, windowMs, cost)`. -/
def rateRejection (scope : Scope) (bucket : Bucket N) (capacity windowMs : Nat) (cost : N) :
    Rejection N :=
  { reason := .rate_limit, scope
    retryAfterMs := some (max (ofNat 1)
      (ceil ((min cost (ofNat capacity) - bucket.tokens) * ofNat windowMs / ofNat capacity))) }

/-- The four buckets an `enter` looks at. -/
structure Rates (N : Type) where
  connection : Option (Bucket N)
  global : Option (Bucket N)
  connectionBytes : Option (Bucket N)
  globalBytes : Option (Bucket N)

def charged (on : Bool) (slot : Option (Bucket N)) (next : Bucket N) (cost : N) : Option (Bucket N) :=
  if on then some { next with tokens := next.tokens - cost } else slot

/-- The rate lanes of `enter`: every lane is checked before any is charged. -/
def chargeRates (c : Config) (r : Rates N) (now cost : N) : Option (Rejection N) × Rates N :=
  let one := ofNat 1
  let weighed := lt (ofNat 0) cost
  let rate := refill r.connection c.perConnectionRate c.rateWindowMs now
  let global := refill r.global c.globalRate c.rateWindowMs now
  let bytes := refill r.connectionBytes c.perConnectionBytesRate c.rateWindowMs now
  let globalBytes := refill r.globalBytes c.globalBytesRate c.rateWindowMs now
  let onRate := c.perConnectionRate > 0
  let onGlobal := c.globalRate > 0
  let onBytes := weighed && c.perConnectionBytesRate > 0
  let onGlobalBytes := weighed && c.globalBytesRate > 0
  if onRate && lt rate.tokens one then
    (some (rateRejection .connection rate c.perConnectionRate c.rateWindowMs one),
      { r with connection := some rate })
  else if onGlobal && lt global.tokens one then
    (some (rateRejection .global global c.globalRate c.rateWindowMs one),
      { r with global := some global })
  else if onBytes && lt bytes.tokens cost then
    (some (rateRejection .connection bytes c.perConnectionBytesRate c.rateWindowMs cost),
      { r with connectionBytes := some bytes })
  else if onGlobalBytes && lt globalBytes.tokens cost then
    (some (rateRejection .global globalBytes c.globalBytesRate c.rateWindowMs cost),
      { r with globalBytes := some globalBytes })
  else
    (none, {
      connection := charged onRate r.connection rate one
      global := charged onGlobal r.global global one
      connectionBytes := charged onBytes r.connectionBytes bytes cost
      globalBytes := charged onGlobalBytes r.globalBytes globalBytes cost })

/-! ## the gate -/

abbrev Socket := Nat

/-- The state of a connection. -/
structure Connection (N : Type) where
  active : Int
  queued : Int
  rate : Option (Bucket N)
  bytes : Option (Bucket N)
  closed : Bool

/-- A queued message. -/
structure Waiter where
  ws : Socket
  ticket : Nat
  deriving DecidableEq

/-- A permit: whose it is, and whether it was released. -/
structure Permit where
  ws : Socket
  released : Bool

/-- How a wait was resolved: with a permit, or because its connection closed. -/
inductive Resolution where
  | permitted
  | closed
  deriving DecidableEq

/-- The variables of `createMessageAdmission`, and the record of the tickets. -/
structure State (N : Type) where
  connections : JsMap Socket (Connection N)
  queue : List Waiter
  active : Int
  globalBucket : Option (Bucket N)
  globalBytesBucket : Option (Bucket N)
  permits : JsMap Nat Permit
  nextTicket : Nat
  started : List Waiter
  waiters : List Nat
  resolved : List (Nat × Resolution)

/-- A fresh gate. -/
def createMessageAdmission : State N :=
  { connections := .empty, queue := [], active := 0, globalBucket := none, globalBytesBucket := none,
    permits := .empty, nextTicket := 0, started := [], waiters := [], resolved := [] }

/-- What `enter` answers; a permit and a wait carry the call's ticket. -/
inductive Answer (N : Type) where
  | permit (ticket : Nat)
  | rejected (r : Rejection N)
  | queued (ticket : Nat)

def fresh : Connection N :=
  { active := 0, queued := 0, rate := none, bytes := none, closed := false }

/-- `stateFor(ws)`. -/
def stateFor (s : State N) (ws : Socket) : Connection N × State N :=
  match s.connections.get? ws with
  | some conn => (conn, s)
  | none => (fresh, { s with connections := s.connections.set ws fresh })

/-- `canStart(state)`. -/
def canStart (c : Config) (active : Int) (conn : Connection N) : Bool :=
  (c.globalConcurrent == 0 || decide (active < c.globalConcurrent)) &&
    (c.perConnectionConcurrent == 0 || decide (conn.active < c.perConnectionConcurrent))

/-- `permit(state)` for a ticket. -/
def permit (s : State N) (w : Waiter) (conn : Connection N) : State N :=
  { s with
    active := s.active + 1
    connections := s.connections.set w.ws { conn with active := conn.active + 1 }
    permits := s.permits.set w.ticket { ws := w.ws, released := false }
    started := s.started ++ [w] }

/-- `blockedScope(state)`. -/
def blockedScope (c : Config) (conn : Connection N) : Scope :=
  if c.perConnectionConcurrent > 0 && decide (conn.active ≥ c.perConnectionConcurrent) then .connection
  else .global

/-- `!entry.state.closed && canStart(entry.state)`. -/
def startable (c : Config) (s : State N) (w : Waiter) : Bool :=
  match s.connections.get? w.ws with
  | none => false
  | some conn => !conn.closed && canStart c s.active conn

/-- One turn of `drain`: the first startable entry leaves the queue with a permit. -/
def startOne (c : Config) (s : State N) : Option (State N) :=
  match s.queue.find? (startable c s) with
  | none => none
  | some w =>
    match s.connections.get? w.ws with
    | none => none
    | some conn =>
      let s := { s with queue := s.queue.erase w, resolved := s.resolved ++ [(w.ticket, .permitted)] }
      some (permit s w { conn with queued := conn.queued - 1 })

/-- The loop of `drain`, for so many turns. -/
def drainFor (c : Config) : Nat → State N → State N
  | 0, s => s
  | n + 1, s =>
    match startOne c s with
    | none => s
    | some s' => drainFor c n s'

/-- `drain()`: every turn takes an entry off the queue. -/
def drain (c : Config) (s : State N) : State N := drainFor c s.queue.length s

/-- The concurrency limits of `enter`, behind the rate lanes. -/
def place (c : Config) (s : State N) (w : Waiter) (conn : Connection N) : Answer N × State N :=
  if canStart c s.active conn then (.permit w.ticket, permit s w conn)
  else if c.maxQueue = 0 then
    (.rejected { reason := .concurrency_limit, scope := blockedScope c conn, retryAfterMs := none }, s)
  else if s.queue.length ≥ c.maxQueue ∨ conn.queued ≥ c.maxQueue then
    (.rejected {
      reason := .queue_full
      scope := if s.queue.length ≥ c.maxQueue then .global else .connection
      retryAfterMs := none }, s)
  else
    (.queued w.ticket, { s with
      connections := s.connections.set w.ws { conn with queued := conn.queued + 1 }
      queue := s.queue ++ [w]
      waiters := s.waiters ++ [w.ticket] })

/-- Store what the rate lanes left of the buckets. -/
def storeRates (s : State N) (ws : Socket) (conn : Connection N) (rates : Rates N) :
    Connection N × State N :=
  let conn := { conn with rate := rates.connection, bytes := rates.connectionBytes }
  (conn, { s with
    connections := s.connections.set ws conn
    globalBucket := rates.global
    globalBytesBucket := rates.globalBytes })

/-- `enter(ws, bytes)` at the time `now`. -/
def enter (c : Config) (s : State N) (ws : Socket) (bytes now : N) : Answer N × State N :=
  let (conn, s) := stateFor s ws
  let w : Waiter := { ws, ticket := s.nextTicket }
  let s := { s with nextTicket := s.nextTicket + 1 }
  if !c.enabled then (.permit w.ticket, permit s w conn)
  else if conn.closed then
    (.rejected { reason := .connection_closed, scope := .connection, retryAfterMs := none }, s)
  else
    let cost := if lt (ofNat 0) bytes then bytes else ofNat 0
    let (refusal, rates) := chargeRates c
      { connection := conn.rate, global := s.globalBucket, connectionBytes := conn.bytes,
        globalBytes := s.globalBytesBucket } now cost
    let (conn, s) := storeRates s ws conn rates
    match refusal with
    | some r => (.rejected r, s)
    | none => place c s w conn

/-- `release()` of a ticket's permit. -/
def release (c : Config) (s : State N) (ticket : Nat) : State N :=
  match s.permits.get? ticket with
  | none => s
  | some p =>
    if p.released then s
    else
      match s.connections.get? p.ws with
      | none => s
      | some conn =>
        drain c { s with
          permits := s.permits.set ticket { p with released := true }
          active := s.active - 1
          connections := s.connections.set p.ws { conn with active := conn.active - 1 } }

/-- `close(ws)`: the entries of the connection leave the queue, the last first. -/
def close (c : Config) (s : State N) (ws : Socket) : State N :=
  match s.connections.get? ws with
  | none => s
  | some conn =>
    let gone := s.queue.filter fun w => w.ws = ws
    drain c { s with
      connections := s.connections.set ws
        { conn with closed := true, queued := conn.queued - gone.length }
      queue := s.queue.filter fun w => w.ws ≠ ws
      resolved := s.resolved ++ gone.reverse.map fun w => (w.ticket, .closed) }

end BunServe.Admission
