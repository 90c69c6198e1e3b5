import BunServe.Lib.JsMap
import BunServe.Lib.JsNumber
import Mathlib.Data.Finset.Card

/-!
# BunServe.Resume

The replay-to-live cutover of `runtime/handler/resume-buffer.js`: live frames
are held while a resume hook is awaited (`captureResumeFrame`), and flushed to
the connection behind it (`flushResumeTopic`).  With it the authoritative marks
of `runtime/handler/ws-state.js` that bound what a flush may skip, and
`sendControl` of `runtime/handler/control-egress.js`.

The connection is a parameter (`Transport`): what it answers is any function of
everything exchanged with it before.  What a flush exchanges with it is
recorded (`Exchange`), for the results to be about.
-/

namespace BunServe

/-- `JSON.stringify` of a character of a string. -/
def quoteChar (c : Char) : String :=
  match c with
  | '"' => "\\\""
  | '\\' => "\\\\"
  | '\x08' => "\\b"
  | '\x0c' => "\\f"
  | '\n' => "\\n"
  | '\r' => "\\r"
  | '\t' => "\\t"
  | c =>
    if c.toNat < 0x20 then
      "\\u00" ++ String.singleton (Nat.digitChar (c.toNat / 16)) ++
        String.singleton (Nat.digitChar (c.toNat % 16))
    else String.singleton c

/-- `JSON.stringify` of a string. -/
def quote (s : String) : String := "\"" ++ String.join (s.toList.map quoteChar) ++ "\""

namespace Resume

/-! ## the authoritative marks -/

def MAX_SEQ_TOPICS : Nat := 10000

def SWEEP_LIMIT : Nat := 32

/-- `maxAuthoritativeSeq` and `maxAuthoritativeSeqRecent`. -/
structure Marks where
  map : JsMap String JsNumber
  recent : Finset String

/-- `noteRecentlyUsed(recent, key)`. -/
def noteRecentlyUsed (recent : Finset String) (key : String) : Finset String :=
  if key ∉ recent ∧ recent.card ≥ MAX_SEQ_TOPICS then {key} else insert key recent

/-- The sweep of `evictOne`: the spared keys, the victim, and the flags left. -/
def sweep : List String → Finset String → List String → List String × Option String × Finset String
  | [], recent, spared => (spared, none, recent)
  | key :: keys, recent, spared =>
    if key ∉ recent then (spared, some key, recent)
    else
      let spared := spared ++ [key]
      if spared.length ≥ SWEEP_LIMIT then (spared, none, recent.erase key)
      else sweep keys (recent.erase key) spared

def requeue (map : JsMap String JsNumber) (key : String) : JsMap String JsNumber :=
  match map.get? key with
  | none => map
  | some value => (map.delete key).set key value

/-- `evictOne(map, recent)`. -/
def evictOne (m : Marks) : Marks :=
  let (spared, victim, recent) := sweep m.map.keys m.recent []
  match victim, spared with
  | some victim, spared => { map := spared.foldl requeue (m.map.delete victim), recent }
  | none, victim :: spared => { map := spared.foldl requeue (m.map.delete victim), recent }
  | none, [] => { m with recent }

/-- `notePublishedSeq(topic, seq, authoritative)`. -/
def notePublishedSeq (m : Marks) (topic : String) (seq : JsNumber) (authoritative : Bool) : Marks :=
  if seq = .nan then m
  else
    match m.map.get? topic with
    | some prev =>
      let m := if m.map.size ≥ MAX_SEQ_TOPICS then
        { m with recent := noteRecentlyUsed m.recent topic } else m
      if authoritative && decide (JsNumber.lt prev seq) then { m with map := m.map.set topic seq }
      else m
    | none =>
      if authoritative then
        let m := if m.map.size ≥ MAX_SEQ_TOPICS then evictOne m else m
        { m with map := m.map.set topic seq }
      else m

/-- `resetSeqState()`. -/
def resetSeqState : Marks := { map := .empty, recent := ∅ }

/-- The mark of a topic this server has stamped nothing for. -/
def NO_MARK : JsNumber := .real ⊥

def Marks.at (m : Marks) (topic : String) : JsNumber := (m.map.get? topic).getD NO_MARK

/-! ## capturing -/

abbrev Socket := Nat

structure Frame where
  seq : Option JsNumber
  envelope : String
  compress : Bool
  authoritative : Bool
  deriving DecidableEq

structure Buffer where
  ws : Socket
  frames : List Frame
  overflow : Bool
  truncated : Bool

/-- A `ResumeCaptureEntry`; the buffer is known by its place in memory. -/
structure Entry where
  topic : String
  buffer : Nat
  before : JsNumber
  deriving DecidableEq

/-- A `ResumeCaptureHandle`. -/
structure Handle where
  ws : Socket
  entries : List Entry

/-- The marks, `resumeBuffers`, and the buffers in memory. -/
structure State where
  marks : Marks
  resumeBuffers : JsMap String (List Nat)
  buffers : JsMap Nat Buffer
  nextBuffer : Nat

def MAX_RESUME_BUFFERED_FRAMES : Nat := 4096

def openBuffer (s : State) (ws : Socket) (topic : String) : Entry × State :=
  let set := (s.resumeBuffers.get? topic).getD []
  ({ topic, buffer := s.nextBuffer, before := s.marks.at topic },
    { s with
      resumeBuffers := s.resumeBuffers.set topic (set ++ [s.nextBuffer])
      buffers := s.buffers.set s.nextBuffer { ws, frames := [], overflow := false, truncated := false }
      nextBuffer := s.nextBuffer + 1 })

/-- The loop of `beginResumeCapture(topics, ws)`. -/
def openBuffers (ws : Socket) : List String → State → List Entry × State
  | [], s => ([], s)
  | topic :: topics, s =>
    let r := openBuffer s ws topic
    let rest := openBuffers ws topics r.2
    (r.1 :: rest.1, rest.2)

/-- `beginResumeCapture(topics, ws)`. -/
def beginResumeCapture (s : State) (topics : List String) (ws : Socket) : Handle × State :=
  let r := openBuffers ws topics s
  ({ ws, entries := r.1 }, r.2)

def Buffer.capture (f : Frame) (excludeWs : Option Socket) (b : Buffer) : Buffer :=
  if excludeWs = some b.ws then b
  else if b.frames.length ≥ MAX_RESUME_BUFFERED_FRAMES then { b with overflow := true }
  else { b with frames := b.frames ++ [f] }

/-- The body of the loop of `captureResumeFrame`. -/
def captureInto (f : Frame) (excludeWs : Option Socket) (buffers : JsMap Nat Buffer) (id : Nat) :
    JsMap Nat Buffer :=
  match buffers.get? id with
  | none => buffers
  | some b => buffers.set id (b.capture f excludeWs)

/-- `captureResumeFrame(topic, seq, envelope, compress, excludeWs, authoritative)`. -/
def captureResumeFrame (s : State) (topic : String) (f : Frame) (excludeWs : Option Socket) : State :=
  match s.resumeBuffers.get? topic with
  | none => s
  | some set => { s with buffers := set.foldl (captureInto f excludeWs) s.buffers }

/-- `unregister(handle, entry)`. -/
def unregister (s : State) (entry : Entry) : State :=
  match s.resumeBuffers.get? entry.topic with
  | none => s
  | some set =>
    let set := set.erase entry.buffer
    if set.length = 0 then { s with resumeBuffers := s.resumeBuffers.delete entry.topic }
    else { s with resumeBuffers := s.resumeBuffers.set entry.topic set }

/-- `handle.entries.find((e) => e.topic === topic)`. -/
def Handle.entry? (h : Handle) (topic : String) : Option Entry :=
  h.entries.find? fun e => e.topic = topic

/-- `markResumeTruncated(handle, topic)`. -/
def markResumeTruncated (s : State) (h : Handle) (topic : String) : State :=
  match h.entry? topic with
  | none => s
  | some entry =>
    match s.buffers.get? entry.buffer with
    | none => s
    | some b => { s with buffers := s.buffers.set entry.buffer { b with truncated := true } }

/-- `discardResumeCapture(handle)`. -/
def discardResumeCapture (s : State) (h : Handle) : Handle × State :=
  ({ h with entries := [] }, h.entries.foldl unregister s)

/-! ## the connection -/

/-- What `mapSendResult` answers for a send on an open connection. -/
inductive SendResult where
  | backpressure
  | success
  | dropped
  deriving DecidableEq

/-- One exchange with the connection; a result of none is a throw. -/
inductive Exchange where
  /-- `chargeControlEgress(ws, bytes)`: whether the frame is within the budget. -/
  | charged (bytes : Nat) (within : Bool)
  /-- `ws._controlFloodSignalled`, read before the connection is cut. -/
  | signalled (already : Bool)
  /-- `deliveryAuthorization.control(ws, payload)`. -/
  | control (payload : String) (result : Option SendResult)
  /-- `deliveryAuthorization.send(ws, envelope, false, compress)`. -/
  | sent (envelope : String) (compress : Bool) (result : Option SendResult)
  /-- `ws.end(code, reason)` or `deliveryAuthorization.end(ws, code, reason)`. -/
  | ended (code : Nat) (reason : String) (threw : Bool)
  deriving DecidableEq

/-- A connection: each answer is a function of the exchanges before it. -/
structure Transport where
  charge : List Exchange → Nat → Bool
  signalled : List Exchange → Bool
  control : List Exchange → String → Option SendResult
  send : List Exchange → String → Bool → Option SendResult
  endThrows : List Exchange → Nat → Bool

/-! ## control frames -/

def CONTROL_FLOOD_CLOSE_CODE : Nat := 4429

def RESUME_INCOMPLETE_CLOSE_CODE : Nat := 1013

/-- `CONTROL_DELIVERED`, `CONTROL_REFUSED` and `CONTROL_GONE`. -/
inductive Control where
  | delivered
  | refused
  | gone
  deriving DecidableEq

/-- `refuseControlFlood(ws)`. -/
def refuseControlFlood (t : Transport) (log : List Exchange) : List Exchange :=
  let already := t.signalled log
  let log := log ++ [.signalled already]
  if already then log
  else
    log ++ [.ended CONTROL_FLOOD_CLOSE_CODE "control frame budget exhausted"
      (t.endThrows log CONTROL_FLOOD_CLOSE_CODE)]

/-- `sendControl(ws, payload)`. -/
def sendControl (t : Transport) (log : List Exchange) (payload : String) :
    Control × List Exchange :=
  let within := t.charge log payload.utf8ByteSize
  let log := log ++ [.charged payload.utf8ByteSize within]
  if !within then (.gone, refuseControlFlood t log)
  else
    let result := t.control log payload
    let log := log ++ [.control payload result]
    match result with
    | none => (.gone, log)
    | some .dropped => (.refused, log)
    | some _ => (.delivered, log)

/-- The marker of an incomplete gap-fill. -/
def truncatedMarker (topic : String) : String :=
  "\x7b\"topic\":" ++ quote ("__replay:" ++ topic) ++ ",\"event\":\"truncated\",\"data\":null\x7d"

/-- `sendTruncated(ws, topic)`. -/
def sendTruncated (t : Transport) (log : List Exchange) (topic : String) : Control × List Exchange :=
  sendControl t log (truncatedMarker topic)

/-! ## flushing -/

/-- The highest floor a flush believes: the mark now, or at window open. -/
def ceiling (m : Marks) (entry : Entry) : JsNumber :=
  match m.map.get? entry.topic with
  | some seen => if JsNumber.lt entry.before seen then seen else entry.before
  | none => entry.before

def dedupFloor (m : Marks) (entry : Entry) (coveredSeq : Option JsNumber) : JsNumber :=
  match coveredSeq with
  | none => entry.before
  | some covered => if JsNumber.lt (ceiling m entry) covered then entry.before else covered

/-- `f.authoritative && f.seq !== null && f.seq <= floor`. -/
def deduplicated (floor : JsNumber) (f : Frame) : Bool :=
  f.authoritative && f.seq.any fun seq => decide (JsNumber.le seq floor)

/-- How the loop over the held frames ended. -/
inductive Pushed where
  | whole
  | refused
  | gone
  deriving DecidableEq

/-- The loop over the held frames. -/
def pushFrames (t : Transport) (ws_compression_on : Bool) (floor : JsNumber) :
    List Frame → List Exchange → Pushed × List Exchange
  | [], log => (.whole, log)
  | f :: fs, log =>
    if deduplicated floor f then pushFrames t ws_compression_on floor fs log
    else
      let compress := ws_compression_on && f.compress
      let result := t.send log f.envelope compress
      let log := log ++ [.sent f.envelope compress result]
      match result with
      | none => (.gone, log)
      | some .dropped => (.refused, log)
      | some _ => pushFrames t ws_compression_on floor fs log

/-- The retry of a marker that was not taken: whether the connection is over. -/
def signalTruncation (t : Transport) (topic : String) (log : List Exchange) :
    Bool × List Exchange :=
  match sendTruncated t log topic with
  | (.delivered, log) => (false, log)
  | (.gone, log) => (true, log)
  | (.refused, log) =>
    (true, log ++ [.ended RESUME_INCOMPLETE_CLOSE_CODE "resume incomplete"
      (t.endThrows log RESUME_INCOMPLETE_CLOSE_CODE)])

/-- The exchanges of `flushResumeTopic` over a buffer: whether the connection
is over, and what was exchanged. -/
def flushBuffer (t : Transport) (ws_compression_on : Bool) (topic : String) (floor : JsNumber)
    (b : Buffer) : Bool × List Exchange :=
  let needsSignal := b.overflow || b.truncated
  let first := if needsSignal then sendTruncated t [] topic else (.refused, [])
  let signalled := needsSignal && decide (first.1 = .delivered)
  if needsSignal && decide (first.1 = .gone) then (true, first.2)
  else
    match pushFrames t ws_compression_on floor b.frames first.2 with
    | (.gone, log) => (true, log)
    | (.refused, log) => if signalled then (false, log) else signalTruncation t topic log
    | (.whole, log) =>
      if needsSignal && !signalled then signalTruncation t topic log else (false, log)

/-- `flushResumeTopic(handle, topic, coveredSeq)`: whether the connection is no
longer usable, what was exchanged with it, and the handle and state after. -/
def flushResumeTopic (t : Transport) (ws_compression_on : Bool) (s : State) (h : Handle)
    (topic : String) (coveredSeq : Option JsNumber) :
    Bool × List Exchange × Handle × State :=
  match h.entry? topic with
  | none => (false, [], h, s)
  | some entry =>
    match s.buffers.get? entry.buffer with
    | none => (false, [], h, s)
    | some b =>
      let r := flushBuffer t ws_compression_on topic (dedupFloor s.marks entry coveredSeq) b
      (r.1, r.2, { h with entries := h.entries.erase entry }, unregister s entry)

/-- What reading a property of a resume hook's answer gives. -/
inductive Reported where
  | number (n : JsNumber)
  | other
  | throws

/-- A resume hook's answer. -/
inductive Covered where
  | nullish
  | number (n : JsNumber)
  | object (get : String → Reported)
  | other

/-- `coveredSeqFor(covered, topic)`. -/
def coveredSeqFor (covered : Covered) (topic : String) : Option JsNumber :=
  match covered with
  | .nullish | .other => none
  | .number n => some n
  | .object get =>
    match get topic with
    | .number n => some n
    | .other | .throws => none

end Resume

end BunServe
