import BunServe.Lib.Machine
import BunServe.Lib.JsMap

/-!
# BunServe.Client

The connection of `client.js`: the socket, the auth preflight, the reconnect
timer and the queue of outgoing messages.

A handler of the source that sets a store runs the subscribers of the store in
the middle of it, and these may call the connection again.  So a handler runs up
to its next `set` and leaves a `Frame` for the rest; while frames are on the
stack the application may call, and `ret` goes on with the topmost one.  The
browser's own events come only when the stack is empty.  A `set` that is the
last thing a handler does leaves no frame: what a subscriber calls there is what
it could call afterwards.

What a handler reads off the clock, and what the `WebSocket` constructor and the
auth endpoint answer, is the environment's.
-/

namespace BunServe.Client

/-! ## the connection -/

/-- The options of a connection, as far as they decide what it does. -/
structure Config where
  /-- `url`, or a `window` to take the host from. -/
  hasUrl : Bool
  /-- `authPath`. -/
  authPath : Bool
  /-- Whether `getAuthUrl()` has an answer. -/
  authUrl : Bool
  /-- `maxReconnectAttempts`; none is `Infinity`. -/
  maxReconnectAttempts : Option Nat

/-- `readyState` of a `WebSocket`; its `close` event comes with `closed`. -/
inductive ReadyState where
  | connecting
  | opened
  | closing
  | closed
  deriving DecidableEq

/-- The outcome of `runAuth()`. -/
inductive Outcome where
  | ok
  | unauthorized
  | throttled
  | transient
  deriving DecidableEq

/-- The rest of a handler whose store is being set. -/
inductive Frame where
  /-- `doConnect`, at `statusStore.set('disconnected')`. -/
  | replaced (generation : Nat)
  /-- `doConnect`, at `statusStore.set('connecting')`. -/
  | connecting (generation : Nat)
  /-- `onopen`, at `failureStore.set(null)`. -/
  | openedFailure (sock : Nat)
  /-- `onopen`, at `setStatusOpen()`. -/
  | openedStatus (sock : Nat)
  /-- A failure that is a drain advisory, at `failureStore.set`. -/
  | drained (generation : Nat)
  /-- A failure to retry, at `failureStore.set`. -/
  | failed (generation : Nat)
  /-- A preflight that was rate-limited, at `failureStore.set`. -/
  | throttled (generation : Nat)
  /-- `statusStore.set('disconnected')` before `scheduleReconnect`; whether the
  delay is pre-rolled. -/
  | schedule (generation : Nat) (override : Bool)
  /-- `simulateOffline`, at `statusStore.set('disconnected')`. -/
  | offline (sock : Option Nat)
  /-- `simulateOffline`, at `failureStore.set(null)`. -/
  | offlineFailure (sock : Option Nat)
  /-- `close`, at `permaClosedStore.set(true)`. -/
  | closing
  deriving DecidableEq

/-- A message of `sendQueued`: which call it was, and what `serializeForSend` made
of it; none is the `undefined` of a value without a JSON form. -/
structure Message where
  call : Nat
  serialized : Option String
  deriving DecidableEq

/-- A connection. -/
structure State where
  ws : Option Nat
  /-- The sockets made so far. -/
  socks : JsMap Nat ReadyState
  nextSock : Nat
  connectionGeneration : Nat
  reconnectTimer : Option Nat
  /-- The armed reconnect timers, with the generation of each. -/
  timers : JsMap Nat Nat
  nextTimer : Nat
  authInFlight : Option Nat
  /-- The preflights made so far; some is what one has settled with. -/
  preflights : JsMap Nat (Option Outcome)
  nextPreflight : Nat
  /-- The reactions still to run: a preflight and the generation it is for. -/
  reactions : List (Nat × Nat)
  intentionallyClosed : Bool
  terminalClosed : Bool
  offlineSimulated : Bool
  reconnectAdvisory : Bool
  attempt : Nat
  backoffAttempt : Nat
  reconnectAttemptReserved : Bool
  sendQueue : List Message
  stack : List Frame
  /-- How often `sendQueued` was called. -/
  calls : Nat
  /-- What was handed to a socket, oldest first. -/
  handed : List (Nat × Message)
  /-- What was displaced, with the queue it was displaced from. -/
  displaced : List (Message × List Message)

namespace State

/-- `ws.readyState`. -/
def readyState (s : State) : Option ReadyState := s.ws.bind s.socks.get?

/-- `currentAttempt(generation)`. -/
def currentAttempt (s : State) (generation : Nat) : Bool :=
  generation = s.connectionGeneration && !s.intentionallyClosed && !s.terminalClosed &&
    !s.offlineSimulated

/-- `intentionallyClosed || terminalClosed || offlineSimulated`. -/
def stopped (s : State) : Bool := s.intentionallyClosed || s.terminalClosed || s.offlineSimulated

/-- Run the subscribers of a store, then go on with `f`. -/
def notify (s : State) (f : Frame) : State := { s with stack := f :: s.stack }

/-- `sock.close()`: a socket that is not closing already starts to. -/
def closeSock (s : State) (sock : Nat) : State :=
  match s.socks.get? sock with
  | some .connecting | some .opened => { s with socks := s.socks.set sock .closing }
  | _ => s

end State

/-! ## connecting -/

/-- `cancelAttempt()`. -/
def cancelAttempt (s : State) : State :=
  { s with connectionGeneration := s.connectionGeneration + 1, authInFlight := none }

/-- `clearReconnect(refundAttempt)`. -/
def clearReconnect (s : State) (refundAttempt : Bool) : State :=
  let s := match s.reconnectTimer with
    | none => s
    | some t => { s with timers := s.timers.delete t, reconnectTimer := none }
  let s := if refundAttempt && s.reconnectAttemptReserved && decide (s.attempt > 0) then
    { s with attempt := s.attempt - 1, backoffAttempt := s.backoffAttempt - 1 } else s
  { s with reconnectAttemptReserved := false }

/-- `disconnectSocket()`. -/
def disconnectSocket (s : State) : State :=
  match s.ws with
  | none => s
  | some sock => s.closeSock sock

/-- `attempt >= maxReconnectAttempts`. -/
def exhausted (c : Config) (s : State) : Bool :=
  c.maxReconnectAttempts.any fun limit => decide (limit ≤ s.attempt)

/-- `scheduleReconnect(overrideDelayMs, floorMs)`. -/
def scheduleReconnect (c : Config) (s : State) (override : Bool) : State :=
  if s.stopped || s.reconnectTimer.isSome then s
  else if exhausted c s then { s with terminalClosed := true }
  else
    let s := if override then s else
      { s with
        attempt := s.attempt + 1
        backoffAttempt := s.backoffAttempt + 1
        reconnectAttemptReserved := true }
    { s with
      reconnectTimer := some s.nextTimer
      timers := s.timers.set s.nextTimer s.connectionGeneration
      nextTimer := s.nextTimer + 1 }

/-- `openSocket()`; `throws` is what the constructor does. -/
def openSocket (c : Config) (s : State) (throws : Bool) : State :=
  if throws then scheduleReconnect c { s with reconnectAttemptReserved := false } false
  else
    { s with
      ws := some s.nextSock
      socks := s.socks.set s.nextSock .connecting
      nextSock := s.nextSock + 1 }

/-- `runAuth()`, and the reaction of `doConnect` to it. -/
def runAuth (c : Config) (s : State) (generation : Nat) : State :=
  match s.authInFlight with
  | some p => { s with reactions := s.reactions ++ [(p, generation)] }
  | none =>
    { s with
      authInFlight := if c.authUrl then some s.nextPreflight else none
      preflights := s.preflights.set s.nextPreflight (if c.authUrl then none else some .ok)
      nextPreflight := s.nextPreflight + 1
      reactions := s.reactions ++ [(s.nextPreflight, generation)] }

/-- `ws && (ws.readyState === CONNECTING || ws.readyState === OPEN)`. -/
def State.attached (s : State) : Bool :=
  s.readyState = some .connecting || s.readyState = some .opened

/-- `doConnect()`. -/
def doConnect (c : Config) (s : State) : State :=
  if s.stopped || !c.hasUrl || s.attached || s.authInFlight.isSome then s
  else
    let s := { s with connectionGeneration := s.connectionGeneration + 1 }
    if s.ws.isSome then { s with ws := none }.notify (.replaced s.connectionGeneration)
    else s.notify (.connecting s.connectionGeneration)

/-! ## the calls of the application -/

/-- `simulateOffline()`. -/
def simulateOffline (c : Config) (s : State) : State :=
  if s.stopped || !c.hasUrl then s
  else
    let s := clearReconnect (cancelAttempt { s with offlineSimulated := true }) true
    { s with reconnectAdvisory := false, ws := none }.notify (.offline s.ws)

/-- `resumeOnline()`. -/
def resumeOnline (c : Config) (s : State) : State :=
  if s.intentionallyClosed || s.terminalClosed || !s.offlineSimulated then s
  else doConnect c { s with offlineSimulated := false }

/-- `close()`. -/
def close (s : State) : State :=
  (clearReconnect (cancelAttempt { s with intentionallyClosed := true }) false).notify .closing

/-- `MAX_QUEUE_SIZE`. -/
def MAX_QUEUE_SIZE : Nat := 1000

/-- `ws.send(msg)`. -/
def handTo (s : State) (sock : Nat) (msg : Message) : State :=
  { s with handed := s.handed ++ [(sock, msg)] }

/-- The queue with its oldest message displaced if it is full. -/
def displace (s : State) : State :=
  match s.sendQueue with
  | [] => s
  | oldest :: rest =>
    if s.sendQueue.length ≥ MAX_QUEUE_SIZE then
      { s with sendQueue := rest, displaced := s.displaced ++ [(oldest, s.sendQueue)] }
    else s

/-- `sendQueued(data)`. -/
def sendQueued (s : State) (serialized : Option String) : State :=
  let msg : Message := ⟨s.calls, serialized⟩
  match s.ws, s.readyState with
  | some sock, some .opened => { handTo s sock msg with calls := s.calls + 1 }
  | _, _ =>
    let s := displace s
    { s with sendQueue := s.sendQueue ++ [msg], calls := s.calls + 1 }

/-! ## what a handler does after its store is set -/

/-- The flush at the end of `onopen`; an `undefined` entry is passed over. -/
def flush (s : State) (sock : Nat) : State :=
  { s with
    sendQueue := []
    handed := s.handed ++
      (s.sendQueue.filter fun msg => msg.serialized.isSome).map fun msg => (sock, msg) }

/-- `try { sock?.close(); } catch {}` and `sock?.close()`. -/
def closeOptional (s : State) (sock : Option Nat) : State :=
  match sock with
  | none => s
  | some sock => s.closeSock sock

/-- The rest of a handler, popped from the stack. -/
def resume (c : Config) (s : State) (throws : Bool) : Frame → State
  | .replaced generation =>
    if s.currentAttempt generation then s.notify (.connecting generation) else s
  | .connecting generation =>
    if s.currentAttempt generation then
      if c.authPath then runAuth c s generation else openSocket c s throws
    else s
  | .openedFailure sock => if s.ws = some sock then s.notify (.openedStatus sock) else s
  | .openedStatus sock => if s.ws = some sock then flush s sock else s
  | .drained generation =>
    if s.currentAttempt generation then
      { s with attempt := 0, backoffAttempt := 0 }.notify (.schedule generation true)
    else s
  | .failed generation =>
    if s.currentAttempt generation then s.notify (.schedule generation false) else s
  | .throttled generation =>
    if s.currentAttempt generation then
      { s with backoffAttempt := max s.backoffAttempt 5 }.notify (.schedule generation false)
    else s
  | .schedule generation override =>
    if s.currentAttempt generation then scheduleReconnect c s override else s
  | .offline sock =>
    if s.offlineSimulated && !s.intentionallyClosed && !s.terminalClosed then
      s.notify (.offlineFailure sock)
    else closeOptional s sock
  | .offlineFailure sock => closeOptional s sock
  | .closing => closeOptional { s with ws := none } s.ws

/-! ## the events of the browser -/

def TERMINAL_CLOSE_CODES : List Nat := [1008, 4401, 4403]

def THROTTLE_CLOSE_CODES : List Nat := [4429]

inductive CloseClass where
  | terminal
  | throttle
  | retry
  deriving DecidableEq

/-- `classifyCloseCode(code)`. -/
def classifyCloseCode (code : Nat) : CloseClass :=
  if code ∈ TERMINAL_CLOSE_CODES then .terminal
  else if code ∈ THROTTLE_CLOSE_CODES then .throttle
  else .retry

/-- `onopen`. -/
def onopen (s : State) (sock : Nat) : State :=
  if s.ws ≠ some sock then s
  else
    { s with
      reconnectAttemptReserved := false
      attempt := 0
      backoffAttempt := 0
      reconnectAdvisory := false }.notify (.openedFailure sock)

/-- `onclose`; `fresh` is whether a stashed drain advisory is still valid. -/
def onclose (s : State) (sock code : Nat) (fresh : Bool) : State :=
  if s.ws ≠ some sock then s
  else
    let s := { s with reconnectAttemptReserved := false, ws := none }
    if s.intentionallyClosed then s
    else if classifyCloseCode code = .terminal then { s with terminalClosed := true }
    else
      let advisory := s.reconnectAdvisory
      let s := { s with reconnectAdvisory := false }
      if advisory && fresh then s.notify (.drained s.connectionGeneration)
      else if classifyCloseCode code = .throttle then
        { s with backoffAttempt := max s.backoffAttempt 5 }.notify (.failed s.connectionGeneration)
      else s.notify (.failed s.connectionGeneration)

/-- The reaction of `doConnect` to its preflight. -/
def onAuth (c : Config) (s : State) (generation : Nat) (throws : Bool) : Outcome → State
  | outcome =>
    if !s.currentAttempt generation then s
    else
      match outcome with
      | .ok => openSocket c s throws
      | .unauthorized =>
        { s with reconnectAttemptReserved := false, terminalClosed := true }
      | .throttled =>
        { s with reconnectAttemptReserved := false }.notify (.throttled generation)
      | .transient =>
        { s with reconnectAttemptReserved := false }.notify (.failed generation)

/-- The callback of the reconnect timer. -/
def onTimer (c : Config) (s : State) (generation : Nat) : State :=
  if generation ≠ s.connectionGeneration then s
  else doConnect c { s with reconnectTimer := none }

/-- The callback of the timer that bounds a handshake. -/
def onAttemptTimeout (s : State) (sock : Nat) : State :=
  if s.ws = some sock ∧ s.readyState = some .connecting then disconnectSocket s else s

/-- The page is hidden; `gap` is whether it slept and nothing came since. -/
def onHidden (s : State) (gap : Bool) : State :=
  if s.stopped then s
  else if s.readyState = some .opened && gap then
    disconnectSocket { s with attempt := 0, backoffAttempt := 0 }
  else s

/-- Skip the backoff and connect. -/
def reconnectNow (c : Config) (s : State) : State :=
  doConnect c (clearReconnect { s with attempt := 0, backoffAttempt := 0 } false)

def onVisible (c : Config) (s : State) (gap : Bool) : State :=
  if s.stopped then s
  else if s.readyState = some .opened then
    if gap then disconnectSocket { s with attempt := 0, backoffAttempt := 0 } else s
  else reconnectNow c s

/-- `offlineHandler`. -/
def offlineHandler (s : State) : State :=
  if s.stopped then s else if s.attached then disconnectSocket s else s

/-- `onlineHandler`. -/
def onlineHandler (c : Config) (s : State) : State :=
  if s.stopped then s else if s.readyState = some .opened then s else reconnectNow c s

/-- The activity check; `silent` is whether the server seems gone. -/
def onActivity (s : State) (silent : Bool) : State :=
  if s.stopped then s
  else if s.readyState = some .opened && silent then disconnectSocket s
  else s

/-! ## the machine -/

/-- What can happen to a connection. -/
inductive Action where
  /-- Calls of the application, also from a subscriber. -/
  | simulateOffline
  | resumeOnline
  | close
  | sendQueued (serialized : Option String)
  /-- The subscribers of a store have returned. -/
  | ret (throws : Bool)
  /-- Events of a socket. -/
  | opened (sock : Nat)
  | closing (sock : Nat)
  | closed (sock code : Nat) (fresh : Bool)
  | advised (sock : Nat)
  /-- A preflight settles, and a reaction to it runs. -/
  | settled (preflight : Nat) (outcome : Outcome)
  | reaction (preflight generation : Nat) (throws : Bool)
  /-- Timers. -/
  | timer (id : Nat)
  | attemptTimeout (sock : Nat)
  | activity (silent : Bool)
  /-- Signals of the page. -/
  | hidden (gap : Bool)
  | visible (gap : Bool)
  | offline
  | online

/-- A connection before `doConnect()` of its creation. -/
def State.init : State where
  ws := none
  socks := .empty
  nextSock := 0
  connectionGeneration := 0
  reconnectTimer := none
  timers := .empty
  nextTimer := 0
  authInFlight := none
  preflights := .empty
  nextPreflight := 0
  reactions := []
  intentionallyClosed := false
  terminalClosed := false
  offlineSimulated := false
  reconnectAdvisory := false
  attempt := 0
  backoffAttempt := 0
  reconnectAttemptReserved := false
  sendQueue := []
  stack := []
  calls := 0
  handed := []
  displaced := []

/-- An event of a socket: what it does to `readyState`, then its handler. -/
def socketEvent (s : State) : Action → Option State
  | .opened sock =>
    if s.socks.get? sock = some .connecting then
      some (onopen { s with socks := s.socks.set sock .opened } sock)
    else none
  | .closing sock =>
    if s.socks.get? sock = some .connecting ∨ s.socks.get? sock = some .opened then
      some (s.closeSock sock)
    else none
  | .closed sock code fresh =>
    if (s.socks.get? sock).any fun r => decide (r ≠ .closed) then
      some (onclose { s with socks := s.socks.set sock .closed } sock code fresh)
    else none
  | .advised sock =>
    if s.socks.get? sock = some .opened then
      some (if s.ws = some sock then { s with reconnectAdvisory := true } else s)
    else none
  | _ => none

/-- An event of a preflight: its promise settles, which clears `authInFlight`
before the reaction of `doConnect` runs. -/
def preflightEvent (c : Config) (s : State) : Action → Option State
  | .settled p outcome =>
    if s.preflights.get? p = some none then
      some { s with
        preflights := s.preflights.set p (some outcome)
        authInFlight := if s.authInFlight = some p then none else s.authInFlight }
    else none
  | .reaction p generation throws =>
    match s.preflights.get? p with
    | some (some outcome) =>
      if (p, generation) ∈ s.reactions then
        some (onAuth c { s with reactions := s.reactions.erase (p, generation) } generation
          throws outcome)
      else none
    | _ => none
  | _ => none

def browserEvent (c : Config) (s : State) : Action → Option State
  | .timer id =>
    match s.timers.get? id with
    | none => none
    | some generation => some (onTimer c { s with timers := s.timers.delete id } generation)
  | .attemptTimeout sock => some (onAttemptTimeout s sock)
  | .activity silent => some (onActivity s silent)
  | .hidden gap => some (onHidden s gap)
  | .visible gap => some (onVisible c s gap)
  | .offline => some (offlineHandler s)
  | .online => some (onlineHandler c s)
  | a => (socketEvent s a).or (preflightEvent c s a)

/-- A step: a call of the application, the return of a store's subscribers, or
an event when nothing is running. -/
def next (c : Config) (s : State) : Action → Option State
  | .simulateOffline => some (simulateOffline c s)
  | .resumeOnline => some (resumeOnline c s)
  | .close => some (close s)
  | .sendQueued serialized => some (sendQueued s serialized)
  | .ret throws =>
    match s.stack with
    | [] => none
    | f :: stack => some (resume c { s with stack } throws f)
  | a => if s.stack = [] then browserEvent c s a else none

/-- A connection as a machine: `createConnection` connects at once. -/
def machine (c : Config) : Machine State Action where
  init := doConnect c .init
  next := next c

end BunServe.Client
