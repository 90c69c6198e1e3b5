import BunServe.Lib.JsMap
import BunServe.Lib.JsNumber
import BunServe.Lib.Machine
import BunServe.Lib.Ring

/-!
# BunServe.Replay

The replay buffer of `plugins/replay/server.js`: for each topic a sequence counter and
a ring of the newest messages, the least recently used topic evicted on overflow.

`structuredClone`, or the JSON round trip in its place, is the parameter `clone`.  A
`publish` that throws is not a step.  The log of what was published, and of when the
record of a topic was dropped, is not in the code.
-/

namespace BunServe.Replay

variable {D : Type}

/-- `ReplayOptions`. -/
structure Config where
  maxSize : Nat
  maxTopics : Nat
  maxSize_pos : 0 < maxSize

/-- `BufferedMessage`. -/
structure BufferedMessage (D : Type) where
  seq : Nat
  topic : String
  event : String
  data : D
  deriving DecidableEq

structure TopicState (D : Type) (c : Config) where
  seq : Nat
  buf : Ring (BufferedMessage D) c.maxSize

inductive Entry (D : Type) where
  | published (m : BufferedMessage D)
  /-- Evicted or cleared. -/
  | dropped (topic : String)

structure State (D : Type) (c : Config) where
  topics : JsMap String (TopicState D c)
  /-- Least recently used first. -/
  topicOrder : JsMap String Unit
  /-- Newest first. -/
  log : List (Entry D)

variable {c : Config}

def State.init : State D c where
  topics := .empty
  topicOrder := .empty
  log := []

/-! ## topics -/

/-- `touchTopic(topic)`. -/
def touchTopic (s : State D c) (topic : String) : State D c :=
  if s.topics.has topic then { s with topicOrder := (s.topicOrder.delete topic).set topic () } else s

def drop (s : State D c) (topic : String) : State D c where
  topics := s.topics.delete topic
  topicOrder := s.topicOrder.delete topic
  log := .dropped topic :: s.log

/-- Evict the least recently used topic if at capacity. -/
def evictLru (s : State D c) : State D c :=
  if s.topics.size ≥ c.maxTopics then
    match s.topicOrder.keys.head? with
    | some lru => drop s lru
    | none => s
  else s

/-- `getTopic(topic)`. -/
def getTopic (s : State D c) (topic : String) : TopicState D c × State D c :=
  match s.topics.get? topic with
  | some state => (state, { s with topicOrder := (s.topicOrder.delete topic).set topic () })
  | none =>
    let s := evictLru s
    let state := { seq := 0, buf := .empty }
    (state, { s with topics := s.topics.set topic state, topicOrder := s.topicOrder.set topic () })

/-- `publish(platform, topic, event, data)`; none where it throws. -/
def publish (clone : D → Option D) (s : State D c) (topic event : String) (data : D) :
    Option (State D c) :=
  (clone data).map fun snapshot =>
    let r := getTopic s topic
    let seq := r.1.seq + 1
    let m := { seq, topic, event, data := snapshot }
    { r.2 with
      topics := r.2.topics.set topic { seq, buf := r.1.buf.push m }
      log := .published m :: r.2.log }

/-! ## reading -/

/-- `readSince(state, since)`. -/
def readSince (state : TopicState D c) (since : Nat) : List (BufferedMessage D) :=
  if state.buf.len = 0 ∨ since ≥ state.seq then []
  else state.buf.toList.filter fun entry => decide (entry.seq > since)

/-- A position, or none where `since` is malformed. -/
def position (since : JsNumber) : Option Nat :=
  since.integer?.bind fun z => if 0 ≤ z then some z.toNat else none

/-- `since(topic, since)`. -/
def since (s : State D c) (topic : String) (since : JsNumber) : List (BufferedMessage D) × State D c :=
  match position since with
  | none => ([], s)
  | some since =>
    let s := touchTopic s topic
    match s.topics.get? topic with
    | none => ([], s)
    | some state => (readSince state since, s)

inductive Payload (D : Type) where
  | msg (reqId : Option D) (seq : Nat) (event : String) (data : D)
  | done (reqId : Option D) (truncated : Bool)
  deriving DecidableEq

/-- A frame that `platform.send` takes. -/
structure Frame (D : Type) where
  topic : String
  payload : Payload D
  deriving DecidableEq

def TOPIC_PREFIX : String := "__replay:"

/-- An `end` frame. -/
def endFrame (topic : String) (reqId : Option D) (truncated : Bool) : Frame D where
  topic := TOPIC_PREFIX ++ topic
  payload := .done reqId truncated

/-- A `msg` frame. -/
def msgFrame (topic : String) (reqId : Option D) (m : BufferedMessage D) : Frame D where
  topic := TOPIC_PREFIX ++ topic
  payload := .msg reqId m.seq m.event m.data

/-- The oldest message kept is not the next one. -/
def truncated (state : TopicState D c) (sinceSeq : Nat) : Bool :=
  state.buf.toList.head?.any fun oldest => decide (oldest.seq > sinceSeq + 1)

/-- `replay(ws, topic, sinceSeq, platform, reqId)`: the frames sent. -/
def replay (s : State D c) (topic : String) (sinceSeq : JsNumber) (reqId : Option D) :
    List (Frame D) × State D c :=
  match position sinceSeq with
  | none => ([endFrame topic reqId false], s)
  | some sinceSeq =>
    let s := touchTopic s topic
    match s.topics.get? topic with
    | none => ([endFrame topic reqId false], s)
    | some state =>
      ((readSince state sinceSeq).map (msgFrame topic reqId) ++
        [endFrame topic reqId (truncated state sinceSeq)], s)

/-! ## the calls -/

/-- `clear()`. -/
def clear (s : State D c) : State D c where
  topics := .empty
  topicOrder := .empty
  log := s.topics.keys.map .dropped ++ s.log

inductive Action (D : Type) where
  | publish (topic event : String) (data : D)
  | seq (topic : String)
  | since (topic : String) (since : JsNumber)
  | replay (topic : String) (sinceSeq : JsNumber) (reqId : Option D)
  | clear
  | clearTopic (topic : String)

def next (clone : D → Option D) (s : State D c) : Action D → Option (State D c)
  | .publish topic event data => publish clone s topic event data
  | .seq topic => some (touchTopic s topic)
  | .since topic since => some (Replay.since s topic since).2
  | .replay topic sinceSeq reqId => some (Replay.replay s topic sinceSeq reqId).2
  | .clear => some (clear s)
  | .clearTopic topic => some (drop s topic)

/-- A replay buffer. -/
def machine (clone : D → Option D) (c : Config) : Machine (State D c) (Action D) where
  init := .init
  next := next clone

end BunServe.Replay
