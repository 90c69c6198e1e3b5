import BunServe.Lib.JsMap
import BunServe.Lib.Machine
import BunServe.Publish

/-!
# BunServe.Presence

The presence tracker of `plugins/presence/server.js`: the topics of each connection, the
roster of each topic with how often each key is present, and the diffs that are published
about it.

What the language does with a value (`deepEqual`, `JSON.stringify`) is a parameter, and so
is which field names are reserved.  `select`, and whether the socket takes the
subscription, are asked at each call, so their answers are part of it.  Each flush is
recorded with the rosters at that moment.
-/

namespace BunServe.Presence

abbrev Conn := Nat

/-- An object, by its own enumerable properties. -/
abbrev Obj (V : Type) := JsMap String V

/-! ## options -/

/-- What is done with values. -/
structure Values (V J : Type) where
  undefined : V
  /-- What JSON carries; none where it leaves the property out. -/
  json : V → Option J
  deepEqual : V → V → Bool
  /-- `deepEqual` of what `select` returns. -/
  sameData : Obj V → Obj V → Bool
  /-- `String(v)` of a value that is not null or undefined. -/
  text : V → Option String
  /-- `Buffer.byteLength(JSON.stringify(v) ?? '')`; none where it throws. -/
  byteLength : V → Option Nat
  /-- The same of the fields of an update. -/
  frameLength : Obj V → Option Nat
  /-- The same of a field name. -/
  nameLength : String → Nat
  /-- `exceedsDepth(fields, MAX_PROJECTION_DEPTH)`. -/
  exceedsDepth : Obj V → Bool

/-- `PresenceOptions`. -/
structure Options where
  keyField : String
  transientFields : List String
  clientUpdateFields : Option (List String)
  isReservedField : String → Bool
  maxConnections : Nat
  maxTopics : Nat
  maxTopicsPerConnection : Nat
  maxFieldsBytes : Int
  maxTotalFieldsBytes : Int

/-! ## state -/

structure Entry (V : Type) where
  data : Obj V
  fields : Option (Obj V)
  fieldsBytes : Int
  count : Int

abbrev Users (V : Type) := JsMap String (Entry V)

inductive Op (V : Type) where
  | join
  | leave (data : Obj V)
  | update (changed : Obj V)

/-- A `diff` frame. -/
structure Diff (V : Type) where
  joins : JsMap String (Obj V)
  leaves : JsMap String (Obj V)
  updates : JsMap String (Obj V)

/-- A flush: the diffs published, and the rosters. -/
structure Flush (V : Type) where
  diffs : JsMap String (Diff V)
  topicPresence : JsMap String (Users V)

structure State (V : Type) where
  /-- The key of each connection on each of its topics. -/
  wsTopics : JsMap Conn (JsMap String String)
  topicPresence : JsMap String (Users V)
  pendingDiffs : JsMap String (JsMap String (Op V))
  connCounter : Nat
  /-- Newest first. -/
  flushes : List (Flush V)

variable {V J : Type}

def State.init : State V where
  wsTopics := .empty
  topicPresence := .empty
  pendingDiffs := .empty
  connCounter := 0
  flushes := []

def State.keyOn (s : State V) (ws : Conn) (topic : String) : Option String :=
  (s.wsTopics.get? ws).bind fun connTopics => connTopics.get? topic

def State.entry (s : State V) (topic key : String) : Option (Entry V) :=
  (s.topicPresence.get? topic).bind fun users => users.get? key

/-- `topic.startsWith('__')`. -/
def isInternal (topic : String) : Bool := "__".toList.isPrefixOf topic.toList

section

variable (o : Options) (v : Values V J)

/-! ## diffs -/

/-- `publicData(entry)`. -/
def publicData (e : Entry V) : Obj V :=
  match e.fields with
  | none => e.data
  | some fields => fields.collect (fun k x => if k ∈ o.transientFields then none else some x) e.data

/-- `bufferDiff(topic, op, key, data)`. -/
def bufferDiff (s : State V) (topic key : String) (op : Op V) : State V :=
  let entries := (s.pendingDiffs.get? topic).getD .empty
  { s with pendingDiffs := s.pendingDiffs.set topic (entries.set key op) }

/-- `Object.assign(a, b)`. -/
def assign (a b : Obj V) : Obj V := b.collect (fun _ x => some x) a

/-- `bufferUpdate(topic, key, changed)`. -/
def bufferUpdate (s : State V) (topic key : String) (changed : Obj V) : State V :=
  let entries := (s.pendingDiffs.get? topic).getD .empty
  match entries.get? key with
  | some .join | some (.leave _) => { s with pendingDiffs := s.pendingDiffs.set topic entries }
  | some (.update pending) =>
    { s with
      pendingDiffs := s.pendingDiffs.set topic (entries.set key (.update (assign pending changed))) }
  | none => { s with pendingDiffs := s.pendingDiffs.set topic (entries.set key (.update changed)) }

/-- `snapshotState(users)`. -/
def snapshotState (users : Option (Users V)) : JsMap String (Obj V) :=
  (users.getD .empty).collect (fun _ e => some (publicData o e)) .empty

/-- The diff of a topic; a user who joined is read live. -/
def diffOf (users : Option (Users V)) (entries : JsMap String (Op V)) : Diff V where
  joins := entries.collect (fun key op => match op with
    | .join => ((users.getD .empty).get? key).map (publicData o)
    | _ => none) .empty
  leaves := entries.collect (fun _ op => match op with
    | .leave data => some data
    | _ => none) .empty
  updates := entries.collect (fun _ op => match op with
    | .update changed => some changed
    | _ => none) .empty

/-- `flushDiffs(platform)`. -/
def flushDiffs (s : State V) : State V where
  wsTopics := s.wsTopics
  topicPresence := s.topicPresence
  pendingDiffs := .empty
  connCounter := s.connCounter
  flushes :=
    { diffs := s.pendingDiffs.collect
        (fun topic entries => some (diffOf o (s.topicPresence.get? topic) entries)) .empty
      topicPresence := s.topicPresence } :: s.flushes

/-! ## leaving -/

/-- A connection's record of a topic goes, and the connection with its last. -/
def forgetTopic (s : State V) (ws : Conn) (topic : String) : State V :=
  match s.wsTopics.get? ws with
  | none => s
  | some connTopics =>
    let connTopics := connTopics.delete topic
    { s with
      wsTopics := if connTopics.size = 0 then s.wsTopics.delete ws else s.wsTopics.set ws connTopics }

/-- A user's entry goes, and the topic with its last. -/
def removeUser (s : State V) (topic key : String) (users : Users V) : State V :=
  let users := users.delete key
  { s with
    topicPresence := if users.size = 0 then s.topicPresence.delete topic
      else s.topicPresence.set topic users }

/-- One connection less for a key. -/
def uncount (s : State V) (topic key : String) : State V :=
  match s.topicPresence.get? topic with
  | none => s
  | some users =>
    match users.get? key with
    | none => s
    | some existing =>
      if existing.count - 1 ≤ 0 then
        bufferDiff (removeUser s topic key users) topic key (.leave (publicData o existing))
      else
        { s with
          topicPresence := s.topicPresence.set topic
            (users.set key { existing with count := existing.count - 1 }) }

/-- `leaveTopic(ws, topic, connTopics, platform)`. -/
def leaveTopic (s : State V) (ws : Conn) (topic : String) : State V :=
  match s.keyOn ws topic with
  | none => s
  | some key => uncount o (forgetTopic s ws topic) topic key

/-- The topics that a connection is recorded on, left one after another. -/
def leaveAll (s : State V) (ws : Conn) : State V :=
  match s.wsTopics.get? ws with
  | none => s
  | some connTopics =>
    let s := connTopics.keys.foldl (fun s topic => leaveTopic o s ws topic) s
    { s with wsTopics := s.wsTopics.delete ws }

/-- `leave(ws, platform)`. -/
def leave (s : State V) (ws : Conn) : State V := leaveAll o s ws

/-- `hooks.unsubscribe(ws, topic)`. -/
def unsubscribe (s : State V) (ws : Conn) (topic : String) : State V :=
  if isInternal topic then s else leaveTopic o s ws topic

/-! ## joining -/

/-- `resolveKey(data)`. -/
def resolveKey (s : State V) (data : Obj V) : String × State V :=
  let fallback := ("__conn:" ++ Nat.repr (s.connCounter + 1), { s with connCounter := s.connCounter + 1 })
  match (data.get? o.keyField).bind v.text with
  | some key => if key ∈ ["__proto__", "constructor", "prototype"] then fallback else (key, s)
  | none => fallback

/-- The connection that makes room for a new one. -/
def evictedConn (s : State V) (ws : Conn) : Option Conn :=
  if s.wsTopics.has ws then none
  else if s.wsTopics.size ≥ o.maxConnections then s.wsTopics.keys.head?
  else none

def makeRoomForConn (s : State V) (ws : Conn) : State V :=
  match evictedConn o s ws with
  | some oldest => leaveAll o s oldest
  | none => s

def trackConn (s : State V) (ws : Conn) (topic key : String) : State V :=
  let s := makeRoomForConn o s ws
  { s with wsTopics := s.wsTopics.set ws (((s.wsTopics.get? ws).getD .empty).set topic key) }

/-- The topic that makes room for a new one. -/
def evictedTopic (s : State V) (topic : String) : Option String :=
  if s.topicPresence.has topic then none
  else if s.topicPresence.size ≥ o.maxTopics then s.topicPresence.keys.head?
  else none

def makeRoomForTopic (s : State V) (topic : String) : State V :=
  match evictedTopic o s topic with
  | some oldest => { s with topicPresence := s.topicPresence.delete oldest }
  | none => s

def trackTopic (s : State V) (topic key : String) (data : Obj V) : State V :=
  let s := makeRoomForTopic o s topic
  let users := (s.topicPresence.get? topic).getD .empty
  match users.get? key with
  | some existing =>
    let existing := { existing with count := existing.count + 1 }
    if v.sameData existing.data data then
      { s with topicPresence := s.topicPresence.set topic (users.set key existing) }
    else
      bufferDiff { s with
        topicPresence := s.topicPresence.set topic (users.set key { existing with data }) }
        topic key .join
  | none =>
    let e := { data, fields := none, fieldsBytes := 0, count := 1 }
    bufferDiff { s with topicPresence := s.topicPresence.set topic (users.set key e) } topic key .join

/-- A call of `join` gets as far as its connection's record. -/
def joins (s : State V) (ws : Conn) (topic : String) : Bool :=
  (Publish.esc topic).isSome && !isInternal topic &&
    (s.wsTopics.get? ws).all fun connTopics =>
      !connTopics.has topic && decide (connTopics.size < o.maxTopicsPerConnection)

/-- `join(ws, topic, platform)`, with what `select` returns, none where it or the socket
throws, and whether the socket takes the subscription. -/
def join (s : State V) (ws : Conn) (topic : String) (selected : Option (Obj V)) (subscribes : Bool) :
    State V :=
  if joins o s ws topic then
    match selected with
    | none => s
    | some data =>
      let r := resolveKey o v s data
      let s := trackTopic o v (trackConn o r.2 ws topic r.1) topic r.1 data
      if subscribes then s else leaveTopic o s ws topic
  else s

/-! ## updates -/

/-- The fields of an update that count, of those that the client sends. -/
def effectiveFields (fields : Obj V) (fromClient : Bool) : Option (Obj V) :=
  if fromClient then
    match o.clientUpdateFields with
    | none => none
    | some allowed =>
      let accepted := fields.filter fun k => decide (k ∈ allowed)
      if accepted.size = 0 then none else some accepted
  else some fields

/-- A field that an update may not write. -/
def refused (fromClient : Bool) (k : String) : Bool :=
  match o.clientUpdateFields with
  | some allowed => decide (k ∉ allowed)
  | none => fromClient || o.isReservedField k

/-- The changed fields so far, and what they add to the budget. -/
def changeField (fields : Obj V) (fromClient : Bool) (acc : Obj V × Int) (k : String) (x : V) :
    Obj V × Int :=
  if refused o fromClient k then acc
  else if v.deepEqual ((fields.get? k).getD v.undefined) x then acc
  else
    match v.byteLength x, (fields.get? k).elim (some 0) v.byteLength with
    | some valueBytes, some oldBytes =>
      (acc.1.set k x, acc.2 + (valueBytes - oldBytes +
        if fields.has k then 0 else (v.nameLength k : Int) + 2))
    | _, _ => acc

def changedFields (fields effective : Obj V) (fromClient : Bool) : Obj V × Int :=
  effective.entries.foldl (fun acc e => changeField o v fields fromClient acc e.1 e.2) (.empty, 0)

/-- `update(ws, topic, fields, platform, fromClient)`, of an object. -/
def update (s : State V) (ws : Conn) (topic : String) (fields : Obj V) (fromClient : Bool) : State V :=
  if isInternal topic then s
  else
    match effectiveFields o fields fromClient with
    | none => s
    | some effective =>
      match s.keyOn ws topic, s.topicPresence.get? topic with
      | some key, some users =>
        match users.get? key with
        | none => s
        | some entry =>
          if (v.frameLength effective).all fun n => decide ((n : Int) > o.maxFieldsBytes) then s
          else if v.exceedsDepth effective then s
          else
            let entry := if entry.fields.isNone then
              { entry with fields := some .empty, fieldsBytes := 0 } else entry
            let store (entry : Entry V) : State V :=
              { s with topicPresence := s.topicPresence.set topic (users.set key entry) }
            let fields := entry.fields.getD .empty
            let r := changedFields o v fields effective fromClient
            if r.1.size = 0 then store entry
            else if entry.fieldsBytes + r.2 > o.maxTotalFieldsBytes then store entry
            else
              bufferUpdate (store { entry with
                fields := some (assign fields r.1)
                fieldsBytes := entry.fieldsBytes + r.2 }) topic key r.1
      | _, _ => s

/-! ## the calls -/

inductive Action (V : Type) where
  | join (ws : Conn) (topic : String) (selected : Option (Obj V)) (subscribes : Bool)
  | leave (ws : Conn)
  | unsubscribe (ws : Conn) (topic : String)
  | update (ws : Conn) (topic : String) (fields : Obj V) (fromClient : Bool)
  /-- The timer, or `flushDiffs()`. -/
  | flush

def next (s : State V) : Action V → Option (State V)
  | .join ws topic selected subscribes => some (join o v s ws topic selected subscribes)
  | .leave ws => some (leave o s ws)
  | .unsubscribe ws topic => some (unsubscribe o s ws topic)
  | .update ws topic fields fromClient => some (update o v s ws topic fields fromClient)
  | .flush => some (flushDiffs o s)

/-- A tracker. -/
def machine : Machine (State V) (Action V) where
  init := .init
  next := next o v

end

end BunServe.Presence
