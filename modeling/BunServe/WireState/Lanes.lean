import BunServe.WireState.Told
import BunServe.Publish.Batched

/-!
# BunServe.WireState.Lanes

`publishWire` and `publishWireBatch` over a whole server: what they stamp, mark and
hold (`Publish`), and then their walk over the connections, each of which goes some
way its codec and its socket allow (`Client.environment`).

A call relates the server before it to the server after it; it also says what it
recorded of each event.  `stampBatch` says besides what a refused batch leaves.
-/

namespace BunServe.WireState

open Resume Publish

/-- The counters, the marks and the buffers, `wsCounters.publishCount`, and
`wsConnections`. -/
structure Server where
  lanes : Publish.State
  publishCount : Nat
  conns : List Connection

variable {E : Type} (k : Client E) (wires : String → Wire) (text : JsNumber → String)
  (ws_compression_on : Bool) (wire : Wire) (topic event : String)

def Walks (walk : Session Bool) : List Connection → List Connection → Prop :=
  List.Forall₂ fun c c' => ∃ delivered,
    Outcome.Exec (k.environment wires) (walk c) (some delivered) c'

/-! ## publishWire -/

/-- `publishWire(topic, event, data, wire, options)`. -/
structure PublishWire (s : Server) (data : Option String) (options : WireOptions) (r : Recorded)
    (s' : Server) : Prop where
  recorded : recordWire text ws_compression_on s.lanes topic event data options = some (r, s'.lanes)
  counted : s'.publishCount = s.publishCount + 1
  walked : Walks k wires (publishWire wire event data r) s.conns s'.conns

/-- Calls of `publishWire`, one after another. -/
inductive PublishWires : Server → List (Option String × WireOptions) → List Recorded → Server → Prop
  | nil (s : Server) : PublishWires s [] [] s
  | cons {s s₁ s' : Server} {data : Option String} {options : WireOptions} {r : Recorded}
      {calls : List (Option String × WireOptions)} {rs : List Recorded} :
      PublishWire k wires text ws_compression_on wire topic event s data options r s₁ →
      PublishWires s₁ calls rs s' → PublishWires s ((data, options) :: calls) (r :: rs) s'

/-- The calls of `publishWire` that publish the entries of a batch. -/
def entryCalls (options : WireOptions) (entries : List WireEntry) :
    List (Option String × WireOptions) :=
  entries.map fun e => (e.data,
    { options with
      seq := if e.seq = .undefined then options.seq else e.seq
      excludeWs := if e.excludeWs.isSome then e.excludeWs else options.excludeWs })

/-! ## publishWireBatch -/

def stampRecord (options : WireOptions) (topicSeqs : Marks) (topic : String) (seq : SeqOption) :
    Option (Option JsNumber × Marks) :=
  match seq with
  | .undefined => stampSeqValue topicSeqs options.seq topic
  | .number n => some (some n, topicSeqs)
  | own => stampSeqValue topicSeqs own topic

/-- The stamping loop of the stateful lane, and the counters where it ends: where
it throws it has stamped the entries before. -/
def stampLoop (options : WireOptions) : Marks → List WireRecord → Marks × Option (List Recorded)
  | topicSeqs, [] => (topicSeqs, some [])
  | topicSeqs, entry :: rest =>
    match stampRecord options topicSeqs topic entry.seq with
    | none => (topicSeqs, none)
    | some (seq, topicSeqs) =>
      match envelopeBody topic event entry.data with
      | none => (topicSeqs, none)
      | some body =>
        let r : Recorded :=
          { topic
            seq
            envelope := completeSerializedEnvelope text body seq none
            compress := ws_compression_on && options.compress
            excludeWs := entry.excludeWs
            marked := entry.seq.isNumber
            authoritative := entry.seq.isNumber }
        let rest := stampLoop options topicSeqs rest
        (rest.1, rest.2.map (r :: ·))

/-- The stateful lane up to its walk; none where it throws. -/
def stampBatch (s : Server) (entries : List WireEntry) (options : WireOptions) :
    Server × Option (List WireRecord × List Recorded) :=
  if !batchSeqAccepted options.seq then (s, none)
  else
    match captureEntries options entries with
    | none => (s, none)
    | some records =>
      let stamped := stampLoop text ws_compression_on topic event options s.lanes.topicSeqs records
      match stamped.2 with
      | none => ({ s with lanes := { s.lanes with topicSeqs := stamped.1 } }, none)
      | some rs =>
        ({ s with
          lanes := { s.lanes with
            topicSeqs := stamped.1
            resume := captures rs { s.lanes.resume with marks := notes rs s.lanes.resume.marks } }
          publishCount := s.publishCount + records.length }, some (records, rs))

/-- `publishWireBatch(topic, event, entries, wire, options)`. -/
inductive PublishWireBatch (s : Server) (entries : List WireEntry) (options : WireOptions) :
    List Recorded → Server → Prop
  | stateful {records : List WireRecord} {rs : List Recorded} {s₁ : Server}
      {conns : List Connection} :
      wire.stateful = true → entries ≠ [] →
      stampBatch text ws_compression_on topic event s entries options = (s₁, some (records, rs)) →
      Walks k wires (publishWireBatch wire topic event (ws_compression_on && options.compress) records
        (rs.map Recorded.envelope) (rs.map Recorded.seq)) s₁.conns conns →
      PublishWireBatch s entries options rs { s₁ with conns }
  | stateless {calls : List (Option String × WireOptions)} {rs : List Recorded} {s' : Server} :
      wire.stateful = false → entries ≠ [] → reroute entries options = some calls →
      PublishWires k wires text ws_compression_on wire topic event s calls rs s' →
      PublishWireBatch s entries options rs s'

end BunServe.WireState
