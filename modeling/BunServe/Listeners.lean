import BunServe.Lib.Machine
import BunServe.Lib.JsMap

/-!
# BunServe.Listeners

The listeners of the connection of `client.js`: `onTopic` and `onEvent` with the
stores they hand out, the reference counts of `subscribe` and `release`, the
forced `unsubscribe`, and the dispatch of one event to the stores.

A store is its number; who listens to it is in the listener.  A dispatch sets one
store after another, and each `set` runs listeners, so that anything else may
happen between two of them.
-/

namespace BunServe.Listeners

/-! ## stores and their wrappers -/

/-- An entry of `topicStores` or of `eventStores`. -/
inductive Slot where
  | topic (topic : String)
  | event (key : String)
  deriving DecidableEq

/-- The key of an event in `eventStores`. -/
def eventKey (topic event : String) : String := topic ++ "\x00" ++ event

/-- What `onTopic` and `onEvent` return, with the variables they close over. -/
structure Wrapper where
  topic : String
  slot : Slot
  subs : Nat
  store : Nat
  /-- How often the topic was forced off when `subs` last left zero. -/
  since : Nat

/-- A listener that is attached: its wrapper, and the store it subscribed to. -/
structure Listener where
  wrapper : Nat
  topic : String
  slot : Slot
  store : Nat
  /-- How often the topic had been forced off when it was attached. -/
  since : Nat

/-- The rest of a `dispatchEvent`. -/
structure Dispatch where
  number : Nat
  topic : String
  event : String
  /-- Whether the store of the topic was set. -/
  topicSet : Bool

structure State where
  topicRefCounts : JsMap String Nat
  subscribedTopics : List String
  managedTopics : List String
  /-- `topicStores` and `eventStores`. -/
  stores : JsMap Slot Nat
  wrappers : JsMap Nat Wrapper
  listeners : JsMap Nat Listener
  /-- The microtasks of `onTopic` and `onEvent`, each with its `ownStore`. -/
  cleanups : List (Nat × Nat)
  nextStore : Nat
  nextWrapper : Nat
  nextListener : Nat
  dispatching : Option Dispatch
  dispatched : Nat
  /-- How often each topic was forced off. -/
  forced : JsMap String Nat
  /-- The events each listener was called for. -/
  log : List (Nat × Nat)
  /-- The events each listener of the topic was attached for, in time. -/
  owed : List (Nat × Nat)

def State.init : State where
  topicRefCounts := .empty
  subscribedTopics := []
  managedTopics := []
  stores := .empty
  wrappers := .empty
  listeners := .empty
  cleanups := []
  nextStore := 0
  nextWrapper := 0
  nextListener := 0
  dispatching := none
  dispatched := 0
  forced := .empty
  log := []
  owed := []

def State.forcedOff (s : State) (topic : String) : Nat := (s.forced.get? topic).getD 0

/-- A listener attached since its topic was last forced off. -/
def State.fresh (s : State) (l : Listener) : Bool := l.since = s.forcedOff l.topic

/-! ## subscriptions -/

/-- A topic of the framework: its first two characters are `_`. -/
def isTap (topic : String) : Bool := topic.toList.take 2 = ['_', '_']

/-- `subscribe(topic)`. -/
def subscribe (s : State) (topic : String) : State :=
  let count := (s.topicRefCounts.get? topic).getD 0
  let s := { s with topicRefCounts := s.topicRefCounts.set topic (count + 1) }
  if count > 0 then s
  else if isTap topic || decide (topic ∈ s.managedTopics) then s
  else { s with subscribedTopics := topic :: s.subscribedTopics.filter (· ≠ topic) }

/-- Whether `doUnsubscribe` takes a store away. -/
def Slot.isOf (topic : String) : Slot → Bool
  | .topic topic' => topic' = topic
  | .event key => (topic ++ "\x00").toList.isPrefixOf key.toList

/-- `doUnsubscribe(topic)`; `singleton` says that this is the singleton connection. -/
def doUnsubscribe (singleton : Bool) (s : State) (topic : String) : State :=
  { s with
    managedTopics := if singleton then s.managedTopics.filter (· ≠ topic) else s.managedTopics
    subscribedTopics := s.subscribedTopics.filter (· ≠ topic)
    stores := s.stores.filter fun slot => !slot.isOf topic }

/-- `release(topic)`. -/
def release (singleton : Bool) (s : State) (topic : String) : State :=
  let count := (s.topicRefCounts.get? topic).getD 0
  if count ≤ 1 then
    doUnsubscribe singleton { s with topicRefCounts := s.topicRefCounts.delete topic } topic
  else { s with topicRefCounts := s.topicRefCounts.set topic (count - 1) }

/-- `unsubscribe(topic)`. -/
def unsubscribe (singleton : Bool) (s : State) (topic : String) : State :=
  doUnsubscribe singleton
    { s with
      topicRefCounts := s.topicRefCounts.delete topic
      forced := s.forced.set topic (s.forcedOff topic + 1) } topic

/-! ## wrappers -/

/-- The common body of `onTopic` and `onEvent`. -/
def register (s : State) (topic : String) (slot : Slot) : State :=
  match s.stores.get? slot with
  | some store =>
    { s with
      wrappers := s.wrappers.set s.nextWrapper { topic, slot, subs := 0, store, since := 0 }
      nextWrapper := s.nextWrapper + 1 }
  | none =>
    let store := s.nextStore
    { s with
      stores := s.stores.set slot store
      nextStore := s.nextStore + 1
      wrappers := s.wrappers.set s.nextWrapper { topic, slot, subs := 0, store, since := 0 }
      nextWrapper := s.nextWrapper + 1
      cleanups := (s.nextWrapper, store) :: s.cleanups }

/-- `onTopic(topic)`. -/
def onTopic (s : State) (topic : String) : State := register s topic (.topic topic)

/-- `onEvent(topic, event)`. -/
def onEvent (s : State) (topic event : String) : State :=
  register s topic (.event (eventKey topic event))

/-- The microtask of `onTopic` and `onEvent`. -/
def cleanup (s : State) (w : Wrapper) (ownStore : Nat) : State :=
  if w.subs = 0 ∧ s.topicRefCounts.get? w.topic = none ∧ s.stores.get? w.slot = some ownStore then
    { s with stores := s.stores.delete w.slot }
  else s

def refreshStore (s : State) (w : Wrapper) : State × Nat :=
  match s.stores.get? w.slot with
  | some current => (s, current)
  | none =>
    ({ s with stores := s.stores.set w.slot s.nextStore, nextStore := s.nextStore + 1 }, s.nextStore)

/-- `store.subscribe(fn)`, and what the wrapper remembers. -/
def listen (s : State) (id : Nat) (w : Wrapper) : State :=
  { s with
    wrappers := s.wrappers.set id { w with subs := w.subs + 1 }
    listeners := s.listeners.set s.nextListener {
      wrapper := id
      topic := w.topic
      slot := w.slot
      store := w.store
      since := s.forcedOff w.topic
    }
    nextListener := s.nextListener + 1 }

/-- `wrappedSubscribe(fn)`. -/
def wrappedSubscribe (s : State) (id : Nat) (w : Wrapper) : State :=
  if w.subs = 0 then
    let r := refreshStore s w
    listen (subscribe r.1 w.topic) id { w with store := r.2, since := s.forcedOff w.topic }
  else listen s id w

/-- The function `wrappedSubscribe` returned. -/
def detach (singleton : Bool) (s : State) (id : Nat) (l : Listener) (w : Wrapper) : State :=
  let s := { s with
    listeners := s.listeners.delete id
    wrappers := s.wrappers.set l.wrapper { w with subs := w.subs - 1 } }
  if w.subs - 1 = 0 then release singleton s w.topic else s

/-! ## dispatch -/

def State.subscribers (s : State) (store : Option Nat) : List Nat :=
  (s.listeners.entries.filter fun e => some e.2.store = store).map Prod.fst

/-- The listeners attached to a topic, or to an event of it, since it was last forced off. -/
def State.attached (s : State) (slot : Slot) : List Nat :=
  (s.listeners.entries.filter fun e => e.2.slot = slot && s.fresh e.2).map Prod.fst

/-- `store.set(…)` of one dispatch, where there is a store. -/
def setStore (s : State) (d : Dispatch) (slot : Slot) : State :=
  { s with
    log := s.log ++ (s.subscribers (s.stores.get? slot)).map fun l => (d.number, l)
    owed := s.owed ++ (s.attached slot).map fun l => (d.number, l) }

/-! ## the machine -/

inductive Action where
  | subscribe (topic : String)
  | unsubscribe (topic : String)
  | setTopicManaged (topic : String)
  | onTopic (topic : String)
  | onEvent (topic event : String)
  | attach (wrapper : Nat)
  | detach (listener : Nat)
  /-- A microtask. -/
  | cleanup (wrapper ownStore : Nat)
  /-- `dispatchEvent`, as far as the store of all events. -/
  | dispatch (topic event : String)
  /-- Its next store. -/
  | setNext

/-- What can happen. -/
def next (singleton : Bool) (s : State) : Action → Option State
  | .subscribe topic => some (subscribe s topic)
  | .unsubscribe topic => some (unsubscribe singleton s topic)
  | .setTopicManaged topic => some { s with managedTopics := topic :: s.managedTopics }
  | .onTopic topic => some (onTopic s topic)
  | .onEvent topic event => some (onEvent s topic event)
  | .attach id => (s.wrappers.get? id).map fun w => wrappedSubscribe s id w
  | .detach id =>
    match s.listeners.get? id with
    | none => none
    | some l => (s.wrappers.get? l.wrapper).map fun w => detach singleton s id l w
  | .cleanup id ownStore =>
    if (id, ownStore) ∈ s.cleanups then
      (s.wrappers.get? id).map fun w =>
        cleanup { s with cleanups := s.cleanups.erase (id, ownStore) } w ownStore
    else none
  | .dispatch topic event =>
    match s.dispatching with
    | some _ => none
    | none =>
      some { s with
        dispatching := some { number := s.dispatched, topic, event, topicSet := false }
        dispatched := s.dispatched + 1 }
  | .setNext =>
    match s.dispatching with
    | none => none
    | some d =>
      if d.topicSet then
        some { setStore s d (.event (eventKey d.topic d.event)) with dispatching := none }
      else
        some { setStore s d (.topic d.topic) with dispatching := some { d with topicSet := true } }

/-- The listeners of a connection. -/
def machine (singleton : Bool) : Machine State Action where
  init := .init
  next := next singleton

end BunServe.Listeners
