import BunServe.Resume

/-!
# BunServe.Publish

The publish lanes of `runtime/handler/platform.js` up to the fan-out: `publish`,
`publishBatched` on both its paths, and what `publishWire` and
`publishWireBatch` stamp, mark and hold before they walk the connections.

A lane makes a `Recorded` of each event (its seq, its envelope, and the two
answers to whether the seq is the cluster's: one for the mark, one for the frames
held for a resume).  `note` and `capture` are what it then does with it.

The payload of an event is given by the JSON of its `data`, and `String(n)` of a
number is a parameter (`text`).  An exception of the source is `none`.
-/

namespace BunServe.Publish

open Resume

/-! ## the seq of a publish -/

/-- The `seq` option of a publish. -/
inductive SeqOption where
  | undefined
  | null
  | bool (b : Bool)
  | number (n : JsNumber)
  | bigint (z : Int)
  | other
  deriving DecidableEq

/-- `Number.MAX_SAFE_INTEGER`. -/
def MAX_SAFE_INTEGER : Int := 9007199254740991

/-- `explicitSeqValue(value, topic)`. -/
def explicitSeqValue : SeqOption → Option JsNumber
  | .number n => if n.integer?.any fun z => decide (1 ≤ z ∧ z ≤ MAX_SAFE_INTEGER) then some n else none
  | .bigint z => if 1 ≤ z ∧ z ≤ MAX_SAFE_INTEGER then some (.ofInt z) else none
  | _ => none

/-- `stampSeqValue(seqOption, topic)`, over `topicSeqs` and its recency. -/
def stampSeqValue (topicSeqs : Marks) (seqOption : SeqOption) (topic : String) :
    Option (Option JsNumber × Marks) :=
  match seqOption with
  | .bool false | .null => some (none, topicSeqs)
  | .number _ | .bigint _ => (explicitSeqValue seqOption).map fun seq => (some seq, topicSeqs)
  | .other => none
  | .undefined | .bool true =>
    match topicSeqs.map.get? topic with
    | some current =>
      let seqs := if topicSeqs.map.size ≥ MAX_SEQ_TOPICS then
        { topicSeqs with recent := noteRecentlyUsed topicSeqs.recent topic } else topicSeqs
      some (some current.succ, { seqs with map := seqs.map.set topic current.succ })
    | none =>
      let seqs := if topicSeqs.map.size ≥ MAX_SEQ_TOPICS then evictOne topicSeqs else topicSeqs
      some (some (.ofNat 1), { seqs with map := seqs.map.set topic (.ofNat 1) })

/-- `assertStampableSeq(opt)`: whether a publish can stamp it. -/
def assertStampableSeq (opt : SeqOption) : Bool :=
  (stampSeqValue resetSeqState opt "").isSome

/-- `resolveEntrySeq(value, topic, index)`. -/
def resolveEntrySeq : SeqOption → Option SeqOption
  | .undefined => some .undefined
  | .number n => (explicitSeqValue (.number n)).map .number
  | .bigint z => (explicitSeqValue (.bigint z)).map .number
  | .bool false | .null => some (.bool false)
  | .bool true => some (.bool true)
  | .other => none

/-- `typeof seqOpt === 'number'`. -/
def SeqOption.isNumber : SeqOption → Bool
  | .number _ => true
  | _ => false

/-- `typeof seq === 'number' || typeof seq === 'bigint'`. -/
def SeqOption.isExplicit : SeqOption → Bool
  | .number _ | .bigint _ => true
  | _ => false

/-! ## the envelope -/

/-- `esc(s)`. -/
def esc (s : String) : Option String :=
  if s.toList.any fun c => decide (c.toNat < 32) || decide (c.toNat = 34) || decide (c.toNat = 92) then
    none
  else some ("\"" ++ s ++ "\"")

/-- `envelopePrefix(topic, event)`; what its cache answers is what it builds. -/
def envelopePrefix (topic event : String) : Option String :=
  match esc topic, esc event with
  | some topic, some event =>
    some ("\x7b\"topic\":" ++ topic ++ ",\"event\":" ++ event ++ ",\"data\":")
  | _, _ => none

/-- `envelopePrefix(topic, event) + envelopeData(data)`; `data` is the JSON of the
data, and none where it has no JSON form. -/
def envelopeBody (topic event : String) (data : Option String) : Option String :=
  match envelopePrefix topic event, data with
  | some start, some data => some (start ++ data)
  | _, _ => none

def envelopeTail (text : JsNumber → String) (jitterMs : Option JsNumber) : String :=
  match jitterMs with
  | none => "\x7d"
  | some j => ",\"j\":" ++ text j ++ "\x7d"

/-- `completeSerializedEnvelope(body, seq, jitterMs)`. -/
def completeSerializedEnvelope (text : JsNumber → String) (body : String) (seq jitterMs : Option JsNumber) :
    String :=
  match seq with
  | none => body ++ envelopeTail text jitterMs
  | some seq => body ++ ",\"seq\":" ++ text seq ++ envelopeTail text jitterMs

/-- `typeof jitterOpt === 'number' && jitterOpt > 0 ? jitterOpt : null`; an option
that is not a number is none. -/
def effectiveJitter (jitterOpt : Option JsNumber) : Option JsNumber :=
  jitterOpt.filter fun j => decide (JsNumber.lt (.ofNat 0) j)

/-! ## what a lane records -/

/-- An event of a lane, stamped. -/
structure Recorded where
  topic : String
  seq : Option JsNumber
  envelope : String
  compress : Bool
  excludeWs : Option Socket
  /-- `authoritative` of `notePublishedSeq`. -/
  marked : Bool
  /-- `authoritative` of `captureResumeFrame`. -/
  authoritative : Bool

/-- `if (seq !== null) notePublishedSeq(topic, seq, …)`. -/
def Recorded.note (r : Recorded) (m : Marks) : Marks :=
  match r.seq with
  | none => m
  | some seq => notePublishedSeq m r.topic seq r.marked

/-- The frame a resuming connection is held. -/
def Recorded.frame (r : Recorded) : Frame where
  seq := r.seq
  envelope := r.envelope
  compress := r.compress
  authoritative := r.authoritative

/-- `captureResumeFrame(topic, seq, envelope, compress, excludeWs, authoritative)`;
with no buffer open there is nothing to do. -/
def Recorded.capture (r : Recorded) (s : Resume.State) : Resume.State :=
  captureResumeFrame s r.topic r.frame r.excludeWs

/-- Both, in the order of `publish`. -/
def Recorded.commit (r : Recorded) (s : Resume.State) : Resume.State :=
  r.capture { s with marks := r.note s.marks }

/-! ## the connections -/

/-- A payload of `server.publish`. -/
inductive Payload where
  | envelope (text : String)
  | batch (envelopes : List String)
  deriving DecidableEq

/-- `wrapBatchEnvelope(eventEnvelopes)`. -/
def wrapBatchEnvelope (envelopes : List String) : String :=
  "\x7b\"type\":\"batch\",\"events\":[" ++ String.intercalate "," envelopes ++ "]\x7d"

/-- The frame on the wire. -/
def Payload.text : Payload → String
  | .envelope text => text
  | .batch envelopes => wrapBatchEnvelope envelopes

/-- The envelopes a client takes out of it. -/
def Payload.envelopes : Payload → List String
  | .envelope text => [text]
  | .batch envelopes => envelopes

/-- A call of `server.publish`. -/
structure Sent where
  topic : String
  payload : Payload
  compress : Bool

/-- A connection: `WS_SUBSCRIPTIONS`, which is also where Bun fans out to, and
`WS_CAPS`. -/
structure Connection where
  subscriptions : List String
  caps : List String

def Connection.received (ws : Connection) (sent : List Sent) : List String :=
  sent.flatMap fun x => if x.topic ∈ ws.subscriptions then x.payload.envelopes else []

/-- The counters, what a resume can see, and what was published. -/
structure State where
  topicSeqs : Marks
  resume : Resume.State
  sent : List Sent

/-! ## publish -/

/-- The options of `publish`. -/
structure Options where
  seq : SeqOption
  jitterMs : Option JsNumber
  /-- `compressOpt !== false`. -/
  compress : Bool

/-- What `publish` records. -/
def stamp (text : JsNumber → String) (ws_compression_on : Bool) (topicSeqs : Marks)
    (topic event : String) (data : Option String) (options : Options) : Option (Recorded × Marks) :=
  match envelopeBody topic event data with
  | none => none
  | some body =>
    match stampSeqValue topicSeqs options.seq topic with
    | none => none
    | some (seq, topicSeqs) =>
      let authoritative := options.seq.isNumber
      some
        ({ topic
           seq
           envelope := completeSerializedEnvelope text body seq (effectiveJitter options.jitterMs)
           compress := ws_compression_on && options.compress
           excludeWs := none
           marked := authoritative
           authoritative }, topicSeqs)

/-- `publish(topic, event, data, options)`, admitted. -/
def publish (text : JsNumber → String) (ws_compression_on : Bool) (s : State) (topic event : String)
    (data : Option String) (options : Options) : Option State :=
  match stamp text ws_compression_on s.topicSeqs topic event data options with
  | none => none
  | some (r, topicSeqs) =>
    some
      { topicSeqs
        resume := r.commit s.resume
        sent := s.sent ++ [⟨topic, .envelope r.envelope, r.compress⟩] }

/-! ## publishBatched -/

/-- A message of a batch. -/
structure Message where
  topic : String
  event : String
  data : Option String
  coalesceKey : Option String
  seq : SeqOption
  jitterMs : Option JsNumber
  deriving DecidableEq

def overtaken (m : Message) (later : List Message) : Bool :=
  m.coalesceKey.isSome && later.any fun x => decide (x.coalesceKey = m.coalesceKey)

/-- `collapseByCoalesceKey(messages)`: of the messages of one key, the last. -/
def collapseByCoalesceKey : List Message → List Message
  | [] => []
  | m :: rest =>
    if overtaken m rest then collapseByCoalesceKey rest
    else m :: collapseByCoalesceKey rest

/-- The detection pass: `allSeeAll` and `everyoneCapable`. -/
def detect (allSameTopic : Bool) (batchTopics : List String) : List Connection → Bool × Bool
  | [] => (true, true)
  | ws :: rest =>
    if ws.subscriptions = [] then detect allSameTopic batchTopics rest
    else
      let touchesAny := batchTopics.any fun t => decide (t ∈ ws.subscriptions)
      let touchesAll := batchTopics.all fun t => decide (t ∈ ws.subscriptions)
      if !allSameTopic && touchesAny && !touchesAll then (false, true)
      else if !touchesAny then detect allSameTopic batchTopics rest
      else if !decide ("batch" ∈ ws.caps) then (true, false)
      else detect allSameTopic batchTopics rest

/-- Whether the shared frame may be used. -/
def qualifies (wsConnections : List Connection) (messages : List Message) : Bool :=
  match messages with
  | [] => true
  | first :: rest =>
    let allSameTopic := rest.all fun m => decide (m.topic = first.topic)
    let r := detect allSameTopic (messages.map Message.topic) wsConnections
    !((!allSameTopic && !r.1) || !r.2)

/-- The options the per-event path hands on. -/
def Message.options (m : Message) (compressOptIn : Bool) : Options where
  seq := m.seq
  jitterMs := m.jitterMs
  compress := compressOptIn

/-- The per-event path: `publish` of each message. -/
def publishEach (text : JsNumber → String) (ws_compression_on compressOptIn : Bool) :
    State → List Message → Option State
  | s, [] => some s
  | s, m :: rest =>
    match publish text ws_compression_on s m.topic m.event m.data (m.options compressOptIn) with
    | none => none
    | some s => publishEach text ws_compression_on compressOptIn s rest

/-- The bodies of the fast path, made before anything is stamped. -/
def prepareBodies : List Message → Option (List (Message × String))
  | [] => some []
  | m :: rest =>
    match envelopeBody m.topic m.event m.data, prepareBodies rest with
    | some body, some bodies => some ((m, body) :: bodies)
    | _, _ => none

/-- The stamping loop of the fast path, over the counters and the marks. -/
def stampEvents (text : JsNumber → String) (compressOptIn : Bool) :
    Marks → Marks → List (Message × String) → Option (List Recorded × Marks × Marks)
  | topicSeqs, marks, [] => some ([], topicSeqs, marks)
  | topicSeqs, marks, (m, body) :: rest =>
    match stampSeqValue topicSeqs m.seq m.topic with
    | none => none
    | some (seq, topicSeqs) =>
      let r : Recorded :=
        { topic := m.topic
          seq
          envelope := completeSerializedEnvelope text body seq none
          compress := compressOptIn
          excludeWs := none
          marked := m.seq.isExplicit
          authoritative := false }
      match stampEvents text compressOptIn topicSeqs (r.note marks) rest with
      | none => none
      | some (rs, topicSeqs, marks) => some (r :: rs, topicSeqs, marks)

/-- The fast path; its first message says where to fan out. -/
def publishShared (text : JsNumber → String) (ws_compression_on compressOptIn : Bool) (s : State)
    (fanoutTopic : String) (messages : List Message) : Option State :=
  match prepareBodies messages with
  | none => none
  | some bodies =>
    match stampEvents text compressOptIn s.topicSeqs s.resume.marks bodies with
    | none => none
    | some (events, topicSeqs, marks) =>
      some
        { topicSeqs
          resume := events.foldl (fun s r => r.capture s) { s.resume with marks }
          sent := s.sent ++
            [⟨fanoutTopic, .batch (events.map Recorded.envelope), ws_compression_on && compressOptIn⟩] }

/-- `publishBatched(messages, options)`, admitted. -/
def publishBatched (text : JsNumber → String) (ws_compression_on compressOptIn : Bool)
    (wsConnections : List Connection) (s : State) (messages : List Message) : Option State :=
  match collapseByCoalesceKey messages with
  | [] => some s
  | first :: rest =>
    if !(first :: rest).all fun m => assertStampableSeq m.seq then none
    else if !qualifies wsConnections (first :: rest) then
      publishEach text ws_compression_on compressOptIn s (first :: rest)
    else publishShared text ws_compression_on compressOptIn s first.topic (first :: rest)

/-! ## the wire lanes, up to their walk -/

structure WireOptions where
  seq : SeqOption
  /-- `compressOpt === true`. -/
  compress : Bool
  excludeWs : Option Socket

/-- What `publishWire` records. -/
def stampWire (text : JsNumber → String) (ws_compression_on : Bool) (topicSeqs : Marks)
    (topic event : String) (data : Option String) (options : WireOptions) :
    Option (Recorded × Marks) :=
  match stampSeqValue topicSeqs options.seq topic with
  | none => none
  | some (seq, topicSeqs) =>
    let authoritative := options.seq.isNumber
    match envelopeBody topic event data with
    | none => none
    | some body =>
      some
        ({ topic
           seq
           envelope := completeSerializedEnvelope text body seq none
           compress := ws_compression_on && options.compress
           excludeWs := options.excludeWs
           marked := authoritative
           authoritative }, topicSeqs)

/-- An entry of `publishWireBatch` as its caller has it. -/
structure WireEntry where
  data : Option String
  excludeWs : Option Socket
  seq : SeqOption

/-- The private record of an entry. -/
structure WireRecord where
  data : Option String
  excludeWs : Option Socket
  ownExclude : Bool
  seq : SeqOption

/-- The pre-pass over the entries. -/
def captureEntries (options : WireOptions) : List WireEntry → Option (List WireRecord)
  | [] => some []
  | e :: rest =>
    match resolveEntrySeq e.seq, captureEntries options rest with
    | some seq, some records =>
      some
        ({ data := e.data
           excludeWs := if e.excludeWs.isSome then e.excludeWs else options.excludeWs
           ownExclude := e.excludeWs.isSome
           seq } :: records)
    | _, _ => none

/-- Whether `publishWireBatch` takes the batch-level seq. -/
def batchSeqAccepted (seq : SeqOption) : Bool :=
  !seq.isExplicit && assertStampableSeq seq

/-- The options of an entry on the stateless reroute. -/
def WireRecord.options (e : WireRecord) (options : WireOptions) : WireOptions :=
  if e.ownExclude || decide (e.seq ≠ .undefined) then
    { options with
      excludeWs := if e.excludeWs.isSome then e.excludeWs else options.excludeWs
      seq := if e.seq ≠ .undefined then e.seq else options.seq }
  else options

/-- The stamping loop of the stateful lane. -/
def stampEntries (text : JsNumber → String) (ws_compression_on : Bool) (topic event : String)
    (options : WireOptions) : Marks → List WireRecord → Option (List Recorded × Marks)
  | topicSeqs, [] => some ([], topicSeqs)
  | topicSeqs, entry :: rest =>
    let stamped := match entry.seq with
      | .undefined => stampSeqValue topicSeqs options.seq topic
      | .number n => some (some n, topicSeqs)
      | own => stampSeqValue topicSeqs own topic
    match stamped, envelopeBody topic event entry.data with
    | some (seq, topicSeqs), some body =>
      match stampEntries text ws_compression_on topic event options topicSeqs rest with
      | none => none
      | some (rs, topicSeqs) =>
        some
          ({ topic
             seq
             envelope := completeSerializedEnvelope text body seq none
             compress := ws_compression_on && options.compress
             excludeWs := entry.excludeWs
             marked := entry.seq.isNumber
             authoritative := entry.seq.isNumber } :: rs, topicSeqs)
    | _, _ => none

/-- `publishWire(topic, event, data, wire, options)` up to its walk. -/
def recordWire (text : JsNumber → String) (ws_compression_on : Bool) (s : State)
    (topic event : String) (data : Option String) (options : WireOptions) :
    Option (Recorded × State) :=
  match stampWire text ws_compression_on s.topicSeqs topic event data options with
  | none => none
  | some (r, topicSeqs) => some (r, { s with topicSeqs, resume := r.commit s.resume })

/-- `publishWireBatch(topic, event, entries, wire, options)` of a stateful codec up
to its walk. -/
def recordWireBatch (text : JsNumber → String) (ws_compression_on : Bool) (s : State)
    (topic event : String) (entries : List WireEntry) (options : WireOptions) :
    Option (List Recorded × State) :=
  if !batchSeqAccepted options.seq then none
  else
    match captureEntries options entries with
    | none => none
    | some records =>
      match stampEntries text ws_compression_on topic event options s.topicSeqs records with
      | none => none
      | some (rs, topicSeqs) =>
        let marks := rs.foldl (fun m r => r.note m) s.resume.marks
        some (rs, { s with
          topicSeqs
          resume := rs.foldl (fun s r => r.capture s) { s.resume with marks } })

/-- `publishWireBatch` of a stateless codec: the calls of `publishWire` it makes. -/
def reroute (entries : List WireEntry) (options : WireOptions) :
    Option (List (Option String × WireOptions)) :=
  if !batchSeqAccepted options.seq then none
  else (captureEntries options entries).map (List.map fun e => (e.data, e.options options))

end BunServe.Publish
