import BunServe.Lib.JsString
import BunServe.Lib.Machine
import BunServe.Publish

/-!
# BunServe.SeqBound

The bounded seq registry of `runtime/utils/seq-bound.js`, with the counter of
`runtime/utils/epoch.js` that draws from it.

A `seqMap` holds the counter of each topic and a `seenMap` the seqs its caller saw; a
topic that is evicted leaves a floor under its hash, and floors that do not fit any more
leave `highWater`.  The two maps may be one and the same (`oneMap`).  What the probes
answer is part of the call that asks them.
-/

namespace BunServe.SeqBound

/-- `fnv32(str)`. -/
def fnv32 (str : JsString) : UInt32 :=
  str.foldl (fun h unit => (h ^^^ unit.toUInt32) * 0x01000193) 0x811c9dc5

def BLOCKED_BACKOFF : Nat := 16

/-- What `createSeqBound` is given. -/
structure Config where
  capacity : Nat
  floorCap : Nat
  scanLimit : Nat
  /-- `seqMap` and `seenMap` are one map. -/
  oneMap : Bool

/-- What the probes answer. -/
structure Probes where
  isProtected : JsString → Bool
  quiet : JsString → Bool

structure State where
  seqMap : JsMap JsString Nat
  /-- Empty where it is `seqMap`. -/
  seenMap : JsMap JsString JsNumber
  floors : JsMap UInt32 Nat
  highWater : Nat
  blockedSkipSeq : Nat
  blockedSkipSeen : Nat
  /-- A quiet probe is installed. -/
  quietProbe : Bool
  /-- The counter values that `stampSeqValue` returned, newest first. -/
  stamps : List (JsString × Nat)

def State.init : State where
  seqMap := .empty
  seenMap := .empty
  floors := .empty
  highWater := 0
  blockedSkipSeq := 0
  blockedSkipSeen := 0
  quietProbe := false
  stamps := []

/-! ## floors -/

def raise (floors : JsMap UInt32 Nat) (key : UInt32) (lastSeq : Nat) : JsMap UInt32 Nat :=
  if (floors.get? key).all fun prev => decide (lastSeq > prev) then floors.set key lastSeq
  else floors

/-- `recordFloor(topic, lastSeq)`. -/
def recordFloor (c : Config) (s : State) (topic : JsString) (lastSeq : Nat) : State :=
  let floors := raise s.floors (fnv32 topic) lastSeq
  if floors.size > c.floorCap then
    { s with floors := .empty, highWater := floors.values.foldl max s.highWater }
  else { s with floors }

/-- `evict(topic)`. -/
def evict (c : Config) (s : State) (topic : JsString) : State :=
  let s := match s.seqMap.get? topic with
    | some last =>
      let s := recordFloor c s topic last
      { s with seqMap := s.seqMap.delete topic }
    | none => s
  { s with seenMap := s.seenMap.delete topic }

/-- `floorOf(topic)`. -/
def floorOf (s : State) (topic : JsString) : Nat :=
  match s.floors.get? (fnv32 topic) with
  | some exact => if exact > s.highWater then exact else s.highWater
  | none => s.highWater

/-! ## the sweep -/

/-- One walk from the front: the topics passed over and the victim. -/
def walk (scanLimit : Nat) (busy : JsString → Bool) (admitted : JsString) :
    Nat → List JsString → List JsString × Option JsString
  | _, [] => ([], none)
  | scanned, candidate :: rest =>
    if candidate = admitted then walk scanLimit busy admitted scanned rest
    else if scanned + 1 > scanLimit then ([], none)
    else if busy candidate then
      let r := walk scanLimit busy admitted (scanned + 1) rest
      (candidate :: r.1, r.2)
    else ([], some candidate)

/-- The topics go to the tail. -/
def rotate {V : Type} (map : JsMap JsString V) (passedOver : List JsString) : JsMap JsString V :=
  passedOver.foldl (fun map topic =>
    match map.get? topic with
    | some value => (map.delete topic).set topic value
    | none => map) map

inductive Registry where
  | seq
  | seen
  deriving DecidableEq

def keysOf (c : Config) (s : State) (registry : Registry) : List JsString :=
  if registry = .seq ∨ c.oneMap then s.seqMap.keys else s.seenMap.keys

def registrySize (c : Config) (s : State) (registry : Registry) : Nat :=
  if registry = .seq ∨ c.oneMap then s.seqMap.size else s.seenMap.size

def rotated (c : Config) (s : State) (registry : Registry) (passedOver : List JsString) : State :=
  if registry = .seq ∨ c.oneMap then { s with seqMap := rotate s.seqMap passedOver }
  else { s with seenMap := rotate s.seenMap passedOver }

def busy (p : Probes) (s : State) (candidate : JsString) : Bool :=
  (s.quietProbe && !p.quiet candidate) || p.isProtected candidate

/-- `evictOldestUnprotected(from, admitted)`, in at most so many passes. -/
def evictOldestUnprotected (c : Config) (p : Probes) (registry : Registry) (admitted : JsString) :
    Nat → State → Bool × State
  | 0, s => (false, s)
  | pass + 1, s =>
    let r := walk c.scanLimit (busy p s) admitted 0 (keysOf c s registry)
    let s := rotated c s registry r.1
    match r.2 with
    | some victim => (true, evict c s victim)
    | none => if r.1 = [] then (false, s) else evictOldestUnprotected c p registry admitted pass s

def State.blockedSkip (s : State) : Registry → Nat
  | .seq => s.blockedSkipSeq
  | .seen => s.blockedSkipSeen

def State.withBlockedSkip (s : State) (registry : Registry) (n : Nat) : State :=
  match registry with
  | .seq => { s with blockedSkipSeq := n }
  | .seen => { s with blockedSkipSeen := n }

/-- `onInsert(topic)` and `onSeenInsert(topic)`. -/
def onRegistryInsert (c : Config) (p : Probes) (registry : Registry) (s : State) (topic : JsString) :
    State :=
  if c.capacity = 0 ∨ registrySize c s registry ≤ c.capacity then s
  else if s.blockedSkip registry > 0 then s.withBlockedSkip registry (s.blockedSkip registry - 1)
  else
    let r := evictOldestUnprotected c p registry topic 2 s
    if r.1 then r.2 else r.2.withBlockedSkip registry BLOCKED_BACKOFF

/-- `onInsert(topic)`. -/
def onInsert (c : Config) (p : Probes) (s : State) (topic : JsString) : State :=
  onRegistryInsert c p .seq s topic

/-- `onSeenInsert(topic)`. -/
def onSeenInsert (c : Config) (p : Probes) (s : State) (topic : JsString) : State :=
  onRegistryInsert c p .seen s topic

/-! ## stamping -/

/-- `stampSeqValue(opt, seqMap, topic, bound)`: what it returns, none where it throws. -/
def stampSeqValue (c : Config) (p : Probes) (opt : Publish.SeqOption) (s : State) (topic : JsString) :
    Option (Option JsNumber) × State :=
  match opt with
  | .bool false | .null => (some none, s)
  | .number _ | .bigint _ => ((Publish.explicitSeqValue opt).map some, s)
  | .other => (none, s)
  | .undefined | .bool true =>
    match s.seqMap.get? topic with
    | some current =>
      let next := current + 1
      (some (some (.ofNat next)),
        { s with seqMap := s.seqMap.set topic next, stamps := (topic, next) :: s.stamps })
    | none =>
      let next := floorOf s topic + 1
      let s := { s with seqMap := s.seqMap.set topic next, stamps := (topic, next) :: s.stamps }
      (some (some (.ofNat next)), onInsert c p s topic)

inductive Action where
  | stamp (opt : Publish.SeqOption) (topic : JsString) (p : Probes)
  /-- The caller records a seq in the seen map. -/
  | see (topic : JsString) (seq : JsNumber)
  | onInsert (topic : JsString) (p : Probes)
  | onSeenInsert (topic : JsString) (p : Probes)
  | useQuietProbe

def next (c : Config) (s : State) : Action → Option State
  | .stamp opt topic p => some (stampSeqValue c p opt s topic).2
  | .see topic seq => if c.oneMap then none else some { s with seenMap := s.seenMap.set topic seq }
  | .onInsert topic p => some (onInsert c p s topic)
  | .onSeenInsert topic p => some (onSeenInsert c p s topic)
  | .useQuietProbe => some { s with quietProbe := true }

/-- A bound with its two maps. -/
def machine (c : Config) : Machine State Action where
  init := .init
  next := next c

end BunServe.SeqBound
