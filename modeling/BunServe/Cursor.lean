import Mathlib.Algebra.Group.Defs
import Mathlib.Logic.Function.Basic
import Mathlib.Order.Defs.LinearOrder
import BunServe.Lib.JsMap
import BunServe.Lib.JsString
import BunServe.Lib.Machine
import BunServe.Publish

/-!
# BunServe.Cursor

The cursor tracker of `plugins/cursor/server.js`: the state of each connection, the
cursors of each topic, the timers that hold back a move, and the moves that a topic has
yet to flush.

The map of a topic is an object that its timers hold on to, so a map is named by its topic
and by how many were made before it.  A timer may fire at any time while it is pending.
What a call reads off the clock, what `select` returns and who is subscribed are part of
the call; what is done with the coordinates of a viewport is a parameter.
-/

namespace BunServe.Cursor

abbrev Conn := Nat

/-- A connection key, by the number that it spells. -/
abbrev Key := Nat

/-! ## options -/

/-- Numbers, and what the code does with them. -/
class Number (N : Type) extends LinearOrder N, Add N, Sub N, Neg N, Zero N

structure Pos (N : Type) where
  x : N
  y : N

/-- What the cull does with coordinates. -/
structure Geometry (N R B C : Type) where
  /-- `rectBounds(rect)`. -/
  rectBounds : R → B
  inside : B → Pos N → Bool
  /-- The cells of the bounds, in the order of the walk; none where they are more than the
  movers. -/
  cells : B → Nat → Option (List C)
  packCell : Pos N → C

/-- The options, and what is asked about data. -/
structure Options (N D R B C : Type) where
  throttleMs : N
  topicThrottleMs : N
  maxConnections : Nat
  maxTopics : Nat
  maxTopicLength : Nat
  maxDataBytes : Nat
  bpEnabled : Bool
  bpMaxBufferedBytes : Nat
  viewportEnabled : Bool
  minMove : N
  finitePosition : D → Option (Pos N)
  /-- It is undefined or null. -/
  missing : D → Bool
  /-- `Buffer.byteLength(JSON.stringify(data))`; none where it throws. -/
  byteLength : D → Option Nat
  exceedsDepth : D → Bool
  /-- The platform has `forEachSubscriber`. -/
  forEachSubscriber : Bool
  geometry : Geometry N R B C

/-- `INDEX_CROSSOVER`. -/
def indexCrossover : Nat := 512

/-! ## state -/

structure WsState (U : Type) where
  key : Key
  user : U
  topics : JsMap String Unit

structure Entry (N U D : Type) where
  user : U
  data : D
  lastBroadcast : N
  timer : Option Nat
  lastSentPos : Option (Pos N)
  settleTimer : Option Nat

inductive TimerKind where
  | trailing
  | settle
  deriving DecidableEq

/-- A timer, by what its callback holds. -/
structure Timer where
  kind : TimerKind
  topic : String
  map : Nat
  key : Key

structure TopicFlush (N D : Type) where
  dirty : JsMap Key D
  lastFlush : N

inductive Event (U D : Type) where
  | time
  | you (key : Key)
  | join (key : Key) (user : U)
  | update (key : Key) (data : D)
  | bulk (entries : List (Key × D))
  | remove (key : Key)
  | catalog (entries : List (Key × U))
  deriving DecidableEq

/-- What the tracker did. -/
inductive Item (U D : Type) where
  | published (topic : String) (event : Event U D)
  | sent (ws : Conn) (topic : String) (event : Event U D)
  /-- A connection's state made room for another. -/
  | evictedConn (key : Key)
  /-- A topic made room for another. -/
  | evictedTopic (topic : String)
  /-- `remove` of the connection with this key is done. -/
  | removed (key : Key)
  | cleared
  deriving DecidableEq

structure State (N U D R : Type) where
  connCounter : Nat
  wsState : JsMap Conn (WsState U)
  maps : String × Nat → JsMap Key (Entry N U D)
  mapCounter : Nat
  /-- The map of each topic. -/
  topics : JsMap String Nat
  topicFlush : JsMap String (TopicFlush N D)
  dirtyTopics : JsMap String Unit
  subViewport : JsMap Key (JsMap String R)
  topicReporters : JsMap String Nat
  /-- The tick timer is set. -/
  tickTimer : Bool
  /-- The other timers that are pending. -/
  timers : JsMap Nat Timer
  timerCounter : Nat
  /-- Newest first. -/
  log : List (Item U D)

variable {N U D R B C : Type}

def State.init : State N U D R where
  connCounter := 0
  wsState := .empty
  maps _ := .empty
  mapCounter := 0
  topics := .empty
  topicFlush := .empty
  dirtyTopics := .empty
  subViewport := .empty
  topicReporters := .empty
  tickTimer := false
  timers := .empty
  timerCounter := 0
  log := []

def State.entry (s : State N U D R) (topic : String) (key : Key) : Option (Entry N U D) :=
  (s.topics.get? topic).bind fun map => (s.maps (topic, map)).get? key

/-- `emit(TOPIC_PREFIX + topic, event, data, platform)`. -/
def emit (s : State N U D R) (topic : String) (event : Event U D) : State N U D R :=
  { s with log := .published topic event :: s.log }

/-- `emitTo(ws, TOPIC_PREFIX + topic, event, data, platform)`. -/
def emitTo (s : State N U D R) (ws : Conn) (topic : String) (event : Event U D) : State N U D R :=
  { s with log := .sent ws topic event :: s.log }

/-! ## connections -/

/-- `addReporter(topic)`. -/
def addReporter (topicReporters : JsMap String Nat) (topic : String) : JsMap String Nat :=
  topicReporters.set topic ((topicReporters.get? topic).getD 0 + 1)

/-- `dropReporter(topic)`. -/
def dropReporter (topicReporters : JsMap String Nat) (topic : String) : JsMap String Nat :=
  match topicReporters.get? topic with
  | none => topicReporters
  | some n => if n ≤ 1 then topicReporters.delete topic else topicReporters.set topic (n - 1)

def dropViewports (s : State N U D R) (key : Key) : State N U D R :=
  match s.subViewport.get? key with
  | none => s
  | some byTopic =>
    { s with
      topicReporters := byTopic.keys.foldl dropReporter s.topicReporters
      subViewport := s.subViewport.delete key }

/-- The oldest connection's state makes room. -/
def evictConn (s : State N U D R) : State N U D R :=
  match s.wsState.keys.head? with
  | none => s
  | some oldest =>
    match s.wsState.get? oldest with
    | none => s
    | some evicted =>
      let s := dropViewports s evicted.key
      { s with
        wsState := s.wsState.delete oldest
        log := .evictedConn evicted.key :: s.log }

/-- `getWsState(ws)`. -/
def getWsState (o : Options N D R B C) (s : State N U D R) (ws : Conn) (user : U) :
    WsState U × State N U D R :=
  match s.wsState.get? ws with
  | some state => (state, s)
  | none =>
    let s := if s.wsState.size ≥ o.maxConnections then evictConn s else s
    let state := { key := s.connCounter + 1, user, topics := .empty }
    (state, { s with
      connCounter := s.connCounter + 1
      wsState := s.wsState.set ws state })

/-! ## topics -/

def Entry.handles (e : Entry N U D) : List Nat := e.timer.toList ++ e.settleTimer.toList

def clearTimers (timers : JsMap Nat Timer) (entries : List (Entry N U D)) : JsMap Nat Timer :=
  (entries.flatMap Entry.handles).foldl JsMap.delete timers

/-- `clearTopicFlush(topic)`. -/
def clearTopicFlush (s : State N U D R) (topic : String) : State N U D R :=
  { s with
    topicFlush := s.topicFlush.delete topic
    dirtyTopics := s.dirtyTopics.delete topic }

/-- The oldest topic makes room. -/
def evictTopic (s : State N U D R) : State N U D R :=
  match s.topics.keys.head? with
  | none => s
  | some oldest =>
    match s.topics.get? oldest with
    | none => s
    | some map =>
      clearTopicFlush
        { s with
          timers := clearTimers s.timers (s.maps (oldest, map)).values
          topics := s.topics.delete oldest
          log := .evictedTopic oldest :: s.log } oldest

/-- A topic gets its map. -/
def openTopic (o : Options N D R B C) (s : State N U D R) (topic : String) : State N U D R :=
  if s.topics.has topic then s
  else
    let s := if s.topics.size ≥ o.maxTopics then evictTopic s else s
    { s with
      topics := s.topics.set topic s.mapCounter
      maps := Function.update s.maps (topic, s.mapCounter) .empty
      mapCounter := s.mapCounter + 1 }

/-! ## flushing -/

/-- `lookupViewport(ws, topic)`. -/
def lookupViewport (s : State N U D R) (ws : Conn) (topic : String) : Option R :=
  (s.wsState.get? ws).bind fun state =>
    (s.subViewport.get? state.key).bind fun byTopic => byTopic.get? topic

/-- `cullDirect(rect)`. -/
def cullDirect (o : Options N D R B C) (items : List (Key × D)) (rect : R) : List (Key × D) :=
  let b := o.geometry.rectBounds rect
  items.filter fun item => (o.finitePosition item.2).all (o.geometry.inside b)

section

variable [DecidableEq C]

/-- `cullIndexed(rect)`. -/
def cullIndexed (o : Options N D R B C) (items : List (Key × D)) (rect : R) : List (Key × D) :=
  let b := o.geometry.rectBounds rect
  match o.geometry.cells b items.length with
  | none => items
  | some cells =>
    (items.filter fun item => (o.finitePosition item.2).isNone) ++ cells.flatMap fun cell =>
      items.filter fun item => (o.finitePosition item.2).any fun pos =>
        decide (o.geometry.packCell pos = cell) && o.geometry.inside b pos

/-- What a subscriber is sent of a flush. -/
def sliceFor (o : Options N D R B C) (s : State N U D R) (topic : String) (items : List (Key × D))
    (ws : Conn) : List (Key × D) :=
  if o.viewportEnabled then
    match lookupViewport s ws topic with
    | none => items
    | some rect => if items.length ≥ indexCrossover then cullIndexed o items rect else cullDirect o items rect
  else items

/-- `deliverFlush(topic, dirty, platform)`, over the subscribers and what each has queued. -/
def deliverFlush (o : Options N D R B C) (s : State N U D R) (topic : String) (items : List (Key × D))
    (subs : List (Conn × Nat)) : List (Item U D) :=
  subs.flatMap fun (ws, buffered) =>
    if o.bpEnabled && decide (buffered > o.bpMaxBufferedBytes) then []
    else
      match sliceFor o s topic items ws with
      | [] => []
      | [(key, data)] => [.sent ws topic (.update key data)]
      | slice => [.sent ws topic (.bulk slice)]

/-- `legacyEmit(topic, dirty, platform)`. -/
def legacyEmit (topic : String) : List (Key × D) → List (Item U D)
  | [(key, data)] => [.published topic (.update key data)]
  | entries => [.published topic (.bulk entries)]

/-- The per-subscriber walk is for this topic. -/
def walks (o : Options N D R B C) (s : State N U D R) (topic : String) : Bool :=
  (o.bpEnabled || o.viewportEnabled) &&
    (o.bpEnabled || (s.topicReporters.get? topic).any fun n => decide (0 < n))

/-- `flushDirty(topic, dirty)`. -/
def flushDirty (o : Options N D R B C) (s : State N U D R) (topic : String) (dirty : List (Key × D))
    (subs : List (Conn × Nat)) : List (Item U D) :=
  if dirty.length = 0 then []
  else if walks o s topic && o.forEachSubscriber then deliverFlush o s topic dirty subs
  else legacyEmit topic dirty

variable [Number N]

/-- `broadcast(topic, key, data, platform)`. -/
def broadcast (o : Options N D R B C) (s : State N U D R) (topic : String) (key : Key) (data : D)
    (now : N) (subs : List (Conn × Nat)) : State N U D R :=
  if o.topicThrottleMs ≤ 0 then
    if walks o s topic && o.forEachSubscriber then
      { s with log := (deliverFlush o s topic [(key, data)] subs).reverse ++ s.log }
    else emit s topic (.update key data)
  else
    let state := (s.topicFlush.get? topic).getD { dirty := .empty, lastFlush := now - o.topicThrottleMs }
    { s with
      topicFlush := s.topicFlush.set topic { state with dirty := state.dirty.set key data }
      dirtyTopics := s.dirtyTopics.set topic ()
      tickTimer := true }

def tickTopic (o : Options N D R B C) (now : N) (subs : String → List (Conn × Nat))
    (s : State N U D R) (topic : String) : State N U D R :=
  match s.topicFlush.get? topic with
  | none => { s with dirtyTopics := s.dirtyTopics.delete topic }
  | some state =>
    if state.dirty.size = 0 then { s with dirtyTopics := s.dirtyTopics.delete topic }
    else
      let deadline := state.lastFlush + o.topicThrottleMs
      if deadline ≤ now then
        { s with
          log := (flushDirty o s topic state.dirty.entries (subs topic)).reverse ++ s.log
          topicFlush := s.topicFlush.set topic
            { dirty := .empty
              lastFlush := if now - deadline < o.topicThrottleMs then deadline else now }
          dirtyTopics := s.dirtyTopics.delete topic }
      else s

/-- `tick()`; the topics whose deadline is to come stay, and set the timer again. -/
def tick (o : Options N D R B C) (s : State N U D R) (now : N) (subs : String → List (Conn × Nat)) :
    State N U D R :=
  let s := s.dirtyTopics.keys.foldl (tickTopic o now subs) { s with tickTimer := false }
  { s with tickTimer := decide (s.dirtyTopics.size ≠ 0) }

/-! ## moves -/

/-- An entry is written, of the map with this name. -/
def setEntry (s : State N U D R) (topic : String) (map : Nat) (key : Key) (e : Entry N U D) :
    State N U D R :=
  { s with maps := Function.update s.maps (topic, map) ((s.maps (topic, map)).set key e) }

/-- `setTimer`, with the handle kept in the entry. -/
def setTimer (s : State N U D R) (timer : Timer) (e : Nat → Entry N U D) : State N U D R :=
  let s := setEntry s timer.topic timer.map timer.key (e s.timerCounter)
  { s with
    timers := s.timers.set s.timerCounter timer
    timerCounter := s.timerCounter + 1 }

/-- `clearTimer(handle)`, if there is one. -/
def clearTimer (s : State N U D R) (handle : Option Nat) : State N U D R :=
  { s with timers := handle.toList.foldl JsMap.delete s.timers }

/-- `Math.max(Math.abs(p.x - q.x), Math.abs(p.y - q.y))`. -/
def distance (p q : Pos N) : N :=
  max (max (p.x - q.x) (-(p.x - q.x))) (max (p.y - q.y) (-(p.y - q.y)))

/-- A move that did not go far. -/
def jitters (o : Options N D R B C) (pos lastSentPos : Option (Pos N)) : Bool :=
  match pos, lastSentPos with
  | some p, some q => decide (distance p q < o.minMove)
  | _, _ => false

/-- Store a move of an entry, and broadcast it now, at the end of the window or when the
cursor settles. -/
def move (o : Options N D R B C) (s : State N U D R) (topic : String) (map : Nat) (state : WsState U)
    (data : D) (entry : Entry N U D) (now : N) (subs : List (Conn × Nat)) : State N U D R :=
  let s := if o.minMove > 0 then clearTimer s entry.settleTimer else s
  let entry := if o.minMove > 0 then { entry with settleTimer := none } else entry
  let pos := if o.minMove > 0 then o.finitePosition data else none
  if jitters o pos entry.lastSentPos then
    if entry.timer.isNone then
      setTimer s { kind := .settle, topic, map, key := state.key }
        fun handle => { entry with data, settleTimer := some handle }
    else setEntry s topic map state.key { entry with data }
  else
    let entry := { entry with data, user := state.user }
    if now - entry.lastBroadcast ≥ o.throttleMs then
      let s := clearTimer s entry.timer
      let s := setEntry s topic map state.key { entry with
        timer := none
        lastBroadcast := now
        lastSentPos := pos.or entry.lastSentPos }
      broadcast o s topic state.key data now subs
    else if entry.timer.isNone then
      setTimer s { kind := .trailing, topic, map, key := state.key }
        fun handle => { entry with timer := some handle }
    else setEntry s topic map state.key entry

/-- An update that goes through. -/
def accepts (o : Options N D R B C) (s : State N U D R) (topic : String) (data : D) : Bool :=
  decide ((js topic).length ≠ 0 ∧ (js topic).length ≤ o.maxTopicLength) &&
    (o.missing data || ((o.byteLength data).any (fun n => decide (n ≤ o.maxDataBytes)) &&
      !o.exceedsDepth data)) &&
    (s.topics.has topic || (Publish.esc topic).isSome)

/-- `update(ws, topic, data, platform)`. -/
def update (o : Options N D R B C) (s : State N U D R) (ws : Conn) (topic : String) (data : D) (user : U)
    (now : N) (subs : List (Conn × Nat)) : State N U D R :=
  if accepts o s topic data then
    let r := getWsState o s ws user
    let isFirstOnTopic := !r.1.topics.has topic
    let state := { r.1 with topics := r.1.topics.set topic () }
    let s := { r.2 with wsState := r.2.wsState.set ws state }
    let s := openTopic o s topic
    let s := if isFirstOnTopic then emit (emitTo s ws topic (.you state.key)) topic (.join state.key state.user)
      else s
    match s.topics.get? topic with
    | none => s
    | some map =>
      let entry := ((s.maps (topic, map)).get? state.key).getD
        { user := state.user, data, lastBroadcast := 0, timer := none, lastSentPos := none,
          settleTimer := none }
      move o s topic map state data entry now subs
  else s

def fire (o : Options N D R B C) (s : State N U D R) (timer : Timer) (now : N) (subs : List (Conn × Nat)) :
    State N U D R :=
  match (s.maps (timer.topic, timer.map)).get? timer.key with
  | none => s
  | some e =>
    match timer.kind with
    | .settle =>
      let e := { e with settleTimer := none }
      match o.finitePosition e.data with
      | none => setEntry s timer.topic timer.map timer.key e
      | some p =>
        if e.lastSentPos.all fun q => decide (p.x ≠ q.x ∨ p.y ≠ q.y) then
          let s := setEntry s timer.topic timer.map timer.key
            { e with lastBroadcast := now, lastSentPos := some p }
          broadcast o s timer.topic timer.key e.data now subs
        else setEntry s timer.topic timer.map timer.key e
    | .trailing =>
      let lastSentPos := if o.minMove > 0 then (o.finitePosition e.data).or e.lastSentPos
        else e.lastSentPos
      let s := setEntry s timer.topic timer.map timer.key
        { e with lastBroadcast := now, timer := none, lastSentPos }
      broadcast o s timer.topic timer.key e.data now subs

end

/-! ## the other calls -/

def removeFrom (key : Key) (s : State N U D R) (topic : String) : State N U D R :=
  match s.topics.get? topic with
  | none => s
  | some map =>
    match (s.maps (topic, map)).get? key with
    | none => s
    | some entry =>
      let topicMap := (s.maps (topic, map)).delete key
      let s := { s with
        timers := clearTimers s.timers [entry]
        maps := Function.update s.maps (topic, map) topicMap }
      let s := if topicMap.size = 0 then
          clearTopicFlush { s with topics := s.topics.delete topic } topic
        else
          match s.topicFlush.get? topic with
          | none => s
          | some flush =>
            { s with
              topicFlush := s.topicFlush.set topic { flush with dirty := flush.dirty.delete key } }
      emit s topic (.remove key)

/-- `remove(ws, platform)`. -/
def remove (s : State N U D R) (ws : Conn) : State N U D R :=
  match s.wsState.get? ws with
  | none => s
  | some state =>
    let s := state.topics.keys.foldl (removeFrom state.key) s
    let s := dropViewports s state.key
    { s with
      wsState := s.wsState.delete ws
      log := .removed state.key :: s.log }

/-- `viewport(ws, topic, rect)`, of a rect that counts. -/
def viewport (o : Options N D R B C) (s : State N U D R) (ws : Conn) (topic : String) (rect : R)
    (user : U) : State N U D R :=
  let r := getWsState o s ws user
  let s := r.2
  let byTopic := (s.subViewport.get? r.1.key).getD .empty
  { s with
    topicReporters := if byTopic.has topic then s.topicReporters else addReporter s.topicReporters topic
    subViewport := s.subViewport.set r.1.key (byTopic.set topic rect) }

/-- The frames of `snapshot(ws, topic, platform)`, when it is allowed. -/
def snapshot (o : Options N D R B C) (s : State N U D R) (ws : Conn) (topic : String) (user : U) :
    State N U D R :=
  let s := emitTo s ws topic .time
  let r := getWsState o s ws user
  let s := emitTo r.2 ws topic (.you r.1.key)
  let topicMap := (s.topics.get? topic).elim .empty fun map => s.maps (topic, map)
  let s := emitTo s ws topic (.catalog (topicMap.entries.map fun e => (e.1, e.2.user)))
  emitTo s ws topic (.bulk (topicMap.entries.map fun e => (e.1, e.2.data)))

/-- `clear()`. -/
def clear (s : State N U D R) : State N U D R where
  connCounter := 0
  wsState := .empty
  maps := s.maps
  mapCounter := s.mapCounter
  topics := .empty
  topicFlush := .empty
  dirtyTopics := .empty
  subViewport := .empty
  topicReporters := .empty
  tickTimer := false
  timers := clearTimers s.timers (s.topics.entries.flatMap fun e => (s.maps e).values)
  timerCounter := s.timerCounter
  log := .cleared :: s.log

/-! ## the calls -/

inductive Action (N U D R : Type) where
  | update (ws : Conn) (topic : String) (data : D) (user : U) (now : N) (subs : List (Conn × Nat))
  | viewport (ws : Conn) (topic : String) (rect : R) (user : U)
  | snapshot (ws : Conn) (topic : String) (user : U)
  | remove (ws : Conn)
  | clear
  /-- A timer fires. -/
  | fire (handle : Nat) (now : N) (subs : List (Conn × Nat))
  | tick (now : N) (subs : String → List (Conn × Nat))

section

variable [DecidableEq C] [Number N]

def next (o : Options N D R B C) (s : State N U D R) : Action N U D R → Option (State N U D R)
  | .update ws topic data user now subs => some (update o s ws topic data user now subs)
  | .viewport ws topic rect user => some (viewport o s ws topic rect user)
  | .snapshot ws topic user => some (snapshot o s ws topic user)
  | .remove ws => some (remove s ws)
  | .clear => some (clear s)
  | .fire handle now subs => (s.timers.get? handle).map fun timer =>
    fire o { s with timers := s.timers.delete handle } timer now subs
  | .tick now subs => if s.tickTimer then some (tick o s now subs) else none

/-- A tracker. -/
def machine (o : Options N D R B C) : Machine (State N U D R) (Action N U D R) where
  init := .init
  next := next o

end

end BunServe.Cursor
