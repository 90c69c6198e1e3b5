import BunServe.Lib.Machine
import BunServe.Lib.JsMap

/-!
# BunServe.Topics

The subscriptions of the connection of `client.js`: the topics it wants, the
subscribe frames it sends for them (the microtask batch, the resubscribe of a new
socket, the retries of refused topics), the flow-control window the frames wait
for, and the offsets they ask recovery from.

One machine holds what all of these share.  `wire` is what went over the current
socket, newest first; `asked`, `recovering` and `unaccepted` are kept only to say
what an offset should have been.
-/

namespace BunServe.Topics

/-! ## state -/

/-- `ws` and its `readyState`. -/
inductive Phase where
  /-- No socket. -/
  | off
  /-- `doConnect` ran, `openSocket` not yet. -/
  | starting
  | connecting
  /-- `OPEN`, before `onopen` resubscribes. -/
  | opening
  | opened
  | closing
  deriving DecidableEq

/-- An entry of a `recover` map. -/
structure Offer where
  offset : Int
  epoch : Option Int
  deriving DecidableEq

/-- A send that goes through `_flowSend`. -/
inductive Send where
  /-- The single topic of `flushPendingSubscribes`. -/
  | subscribe (topic : String)
  /-- A chunk of `flushPendingSubscribes`. -/
  | batch (topics : List String)
  /-- A chunk of `flushRateLimitedRetries`. -/
  | retry (generation ref : Nat) (topics : List String) (recover : List (String × Offer))
  deriving DecidableEq

/-- An entry of `pendingRecoveries`. -/
structure Pending where
  ref : Nat
  highest : Option Int

/-- What went over a socket. -/
inductive Wire where
  | subscribe (topics : List String)
  | unsubscribe (topic : String)
  /-- `request-n`, with the backlog it reports. -/
  | request (queued : Nat)
  /-- A window came. -/
  | window
  deriving DecidableEq

/-- A recovery that was asked for: how far the topic had been heard before, the offset
and the frame that asked last, and whether that frame was refused. -/
structure Recovery where
  limit : Option Int
  offset : Int
  ref : Nat
  denied : Bool
  deriving DecidableEq

/-- An offset that was presented, with the recovery it belongs to: one not accepted
since, and one not otherwise over since. -/
structure Ask where
  topic : String
  offset : Int
  unaccepted : Option Recovery
  recovering : Option Recovery
  /-- The highest seq the topic was heard with. -/
  highest : Option Int
  deriving DecidableEq

structure State where
  phase : Phase
  connectionGeneration : Nat
  subscribedTopics : List String
  managedTopics : List String
  topicRefCounts : JsMap String Nat
  /-- `null` or the batch, and then its microtask is queued. -/
  pendingSubscribes : Option (List String)
  rateLimitedTopics : JsMap String Nat
  pendingRetryRefs : JsMap String Nat
  /-- The generation the timer was set in. -/
  rateLimitedTimer : Option Nat
  /-- The topics of `subscribe-denied` handlers, at `denialsStore.set`. -/
  refused : List String
  lastSeenSeqs : JsMap String Int
  lastSeenEpochs : JsMap String Int
  pendingRecoveries : JsMap String Pending
  nextSubscribeRef : Nat
  clock : Int
  flowActive : Bool
  flowAvail : Int
  flowExpiresAt : Int
  flowQueue : List Send
  flowReplenishSent : Bool
  flowReportedQueue : Nat
  wire : List Wire
  /-- The highest seq each topic was heard with. -/
  highest : JsMap String Int
  unaccepted : JsMap String Recovery
  recovering : JsMap String Recovery
  asked : List Ask

def State.init : State where
  phase := .off
  connectionGeneration := 0
  subscribedTopics := []
  managedTopics := []
  topicRefCounts := .empty
  pendingSubscribes := none
  rateLimitedTopics := .empty
  pendingRetryRefs := .empty
  rateLimitedTimer := none
  refused := []
  lastSeenSeqs := .empty
  lastSeenEpochs := .empty
  pendingRecoveries := .empty
  nextSubscribeRef := 1
  clock := 0
  flowActive := false
  flowAvail := 0
  flowExpiresAt := 0
  flowQueue := []
  flowReplenishSent := false
  flowReportedQueue := 0
  wire := []
  highest := .empty
  unaccepted := .empty
  recovering := .empty
  asked := []

/-- `ws && ws.readyState === WebSocket.OPEN`. -/
def State.isOpen (s : State) : Bool := s.phase = .opening || s.phase = .opened

/-- `subscribedTopics.has(topic) && !managedTopics.has(topic)`. -/
def State.wants (s : State) (topic : String) : Bool :=
  decide (topic ∈ s.subscribedTopics) && !decide (topic ∈ s.managedTopics)

/-! ## chunks -/

/-- The byte lengths that bound a frame: of a topic as JSON, and of its `recover` entry. -/
structure Sizes where
  topic : String → Nat
  offer : String → Offer → Nat

def SUBSCRIBE_BATCH_ENVELOPE_BYTES : Nat := 50
def SUBSCRIBE_BATCH_MAX_BYTES : Nat := 8000
def SUBSCRIBE_BATCH_MAX_TOPICS : Nat := 200

/-- The loop of both chunkers, each topic with its `entryBytes`. -/
def chunkTopics (entryBytes : String → Nat) : List String → Nat → List String → List (List String)
  | chunk, _, [] => if chunk.isEmpty then [] else [chunk]
  | chunk, chunkBytes, t :: ts =>
    if chunk.length > 0 && (chunk.length ≥ SUBSCRIBE_BATCH_MAX_TOPICS ||
        chunkBytes + entryBytes t > SUBSCRIBE_BATCH_MAX_BYTES) then
      chunk :: chunkTopics entryBytes [t] (SUBSCRIBE_BATCH_ENVELOPE_BYTES + entryBytes t) ts
    else chunkTopics entryBytes (chunk ++ [t]) (chunkBytes + entryBytes t) ts

/-- `chunkTopicsForBatch(topics)`. -/
def chunkTopicsForBatch (z : Sizes) (topics : List String) : List (List String) :=
  chunkTopics (fun t => z.topic t + 1) [] SUBSCRIBE_BATCH_ENVELOPE_BYTES topics

/-- What `chunkResubscribe` offers for a topic. -/
def State.offer? (s : State) (topic : String) : Option Offer :=
  (s.lastSeenSeqs.get? topic).map fun offset => { offset, epoch := s.lastSeenEpochs.get? topic }

/-- `chunkResubscribe(topics)`: the chunks with their `recover` maps. -/
def chunkResubscribe (z : Sizes) (s : State) (topics : List String) :
    List (List String × List (String × Offer)) :=
  let entryBytes := fun t =>
    z.topic t + 1 + ((s.offer? t).map fun entry => z.offer t entry + 1).getD 0
  (chunkTopics entryBytes [] SUBSCRIBE_BATCH_ENVELOPE_BYTES
      (topics.filter fun t => !decide (t ∈ s.managedTopics))).map fun chunk =>
    (chunk, chunk.filterMap fun t => (s.offer? t).map fun entry => (t, entry))

/-! ## sending -/

/-- `ws.send` of a subscribe or subscribe-batch frame with the next ref. -/
def sendSubscribe (s : State) (topics : List String) : State :=
  { s with nextSubscribeRef := s.nextSubscribeRef + 1, wire := .subscribe topics :: s.wire }

def Recovery.ask (old : Option Recovery) (highest : Option Int) (offset : Int) (ref : Nat) :
    Recovery where
  limit := (old.map Recovery.limit).getD highest
  offset := offset
  ref := ref
  denied := false

/-- One topic of `frame.recover`. -/
def askRecovery (ref : Nat) (s : State) (e : String × Offer) : State :=
  { s with
    pendingRecoveries := s.pendingRecoveries.set e.1 { ref, highest := none }
    lastSeenSeqs := s.lastSeenSeqs.set e.1 e.2.offset
    unaccepted := s.unaccepted.set e.1
      (.ask (s.unaccepted.get? e.1) (s.highest.get? e.1) e.2.offset ref)
    recovering := s.recovering.set e.1
      (.ask (s.recovering.get? e.1) (s.highest.get? e.1) e.2.offset ref)
    asked := {
      topic := e.1
      offset := e.2.offset
      unaccepted := s.unaccepted.get? e.1
      recovering := s.recovering.get? e.1
      highest := s.highest.get? e.1 } :: s.asked }

/-- `sendRecoveryFrame(frame)`. -/
def sendRecoveryFrame (s : State) (ref : Nat) (topics : List String)
    (recover : List (String × Offer)) : State :=
  if s.isOpen then
    let s := recover.foldl (askRecovery ref) s
    { s with wire := .subscribe topics :: s.wire }
  else s

/-- `doSend()`. -/
def doSend (s : State) : Send → State
  | .subscribe topic => if s.wants topic then sendSubscribe s [topic] else s
  | .batch topics =>
    let topics := topics.filter s.wants
    if topics.isEmpty then s else sendSubscribe s topics
  | .retry generation ref topics recover =>
    if generation ≠ s.connectionGeneration then s
    else
      let wanted := topics.filter fun t => s.wants t && s.pendingRetryRefs.get? t = some ref
      let s := { s with pendingRetryRefs := wanted.foldl JsMap.delete s.pendingRetryRefs }
      if wanted.isEmpty then s
      else if wanted.length ≠ topics.length then
        sendRecoveryFrame s ref wanted (recover.filter fun e => decide (e.1 ∈ wanted))
      else sendRecoveryFrame s ref topics recover

/-! ## the flow-control window -/

def FLOW_LOW_WATER : Int := 64
def FLOW_MAX_QUEUE : Nat := 256

/-- `_flowFresh()`. -/
def State.flowFresh (s : State) : Bool := s.flowAvail > 0 && s.clock < s.flowExpiresAt

/-- `ws.send(requestNFrame(…, queued))`, where a socket is open. -/
def sendRequest (s : State) (queued : Nat) : State := { s with wire := .request queued :: s.wire }

/-- `_maybeReplenish()`. -/
def maybeReplenish (s : State) : State :=
  if !s.flowActive || s.flowReplenishSent then s
  else if s.flowQueue.length > 0 || !s.flowFresh || s.flowAvail ≤ FLOW_LOW_WATER then
    let s := { s with flowReplenishSent := true }
    if s.isOpen then
      sendRequest { s with flowReportedQueue := s.flowQueue.length } s.flowQueue.length
    else s
  else s

/-- `_reportDeeperBacklog()`. -/
def reportDeeperBacklog (s : State) : State :=
  let depth := s.flowQueue.length
  if depth = 0 then s
  else if s.flowReportedQueue ≠ 0 && depth < s.flowReportedQueue * 2 then s
  else
    let s := { s with flowReportedQueue := depth }
    if s.isOpen then sendRequest s depth else s

/-- `_flowSend(doSend)`. -/
def flowSend (s : State) (send : Send) : State :=
  if !s.flowActive then doSend s send
  else if s.flowFresh then
    maybeReplenish (doSend { s with flowAvail := s.flowAvail - 1 } send)
  else if s.flowQueue.length < FLOW_MAX_QUEUE then
    reportDeeperBacklog (maybeReplenish { s with flowQueue := s.flowQueue ++ [send] })
  else s

/-- The loop of `_applyFlowWindow`, over the queue. -/
def drain (s : State) : List Send → State
  | [] => { s with flowQueue := [] }
  | send :: rest =>
    if s.flowAvail > 0 then
      drain (doSend { s with flowQueue := rest, flowAvail := s.flowAvail - 1 } send) rest
    else { s with flowQueue := send :: rest }

/-- `_applyFlowWindow(count, ttlMs)`. -/
def applyFlowWindow (s : State) (count ttlMs : Int) : State :=
  drain
    { s with
      flowActive := true
      flowExpiresAt := s.clock + ttlMs
      flowAvail := count
      flowReplenishSent := false
      wire := .window :: s.wire } s.flowQueue

/-! ## subscribe and release -/

/-- A topic of the framework: its first two characters are `_`. -/
def isTap (topic : String) : Bool := topic.toList.take 2 = ['_', '_']

/-- `subscribedTopics.add(topic)`. -/
def addTopic (topics : List String) (topic : String) : List String :=
  if topic ∈ topics then topics else topics ++ [topic]

/-- `subscribe(topic)`. -/
def subscribe (s : State) (topic : String) : State :=
  let count := (s.topicRefCounts.get? topic).getD 0
  let s := { s with topicRefCounts := s.topicRefCounts.set topic (count + 1) }
  if count > 0 then s
  else if isTap topic || decide (topic ∈ s.managedTopics) then s
  else
    let s := { s with subscribedTopics := addTopic s.subscribedTopics topic }
    if s.isOpen then { s with pendingSubscribes := some (s.pendingSubscribes.getD [] ++ [topic]) }
    else s

/-- `doUnsubscribe(topic)`, of the singleton connection. -/
def doUnsubscribe (s : State) (topic : String) : State :=
  let s := { s with
    managedTopics := s.managedTopics.filter (· ≠ topic)
    subscribedTopics := s.subscribedTopics.filter (· ≠ topic)
    pendingRecoveries := s.pendingRecoveries.delete topic
    pendingRetryRefs := s.pendingRetryRefs.delete topic
    rateLimitedTopics := s.rateLimitedTopics.delete topic
    recovering := s.recovering.delete topic }
  if isTap topic then s
  else if s.isOpen then { s with wire := .unsubscribe topic :: s.wire } else s

/-- `release(topic)`. -/
def release (s : State) (topic : String) : State :=
  let count := (s.topicRefCounts.get? topic).getD 0
  if count ≤ 1 then
    doUnsubscribe { s with topicRefCounts := s.topicRefCounts.delete topic } topic
  else { s with topicRefCounts := s.topicRefCounts.set topic (count - 1) }

/-- `unsubscribe(topic)`. -/
def unsubscribe (s : State) (topic : String) : State :=
  doUnsubscribe { s with topicRefCounts := s.topicRefCounts.delete topic } topic

/-- `setTopicManaged(topic)`. -/
def setTopicManaged (s : State) (topic : String) : State :=
  { s with managedTopics := topic :: s.managedTopics, recovering := s.recovering.delete topic }

/-- `flushPendingSubscribes()`. -/
def flushPendingSubscribes (z : Sizes) (s : State) : State :=
  let batch := s.pendingSubscribes.getD []
  let s := { s with pendingSubscribes := none }
  if batch.isEmpty || !s.isOpen then s
  else
    match batch with
    | [topic] => flowSend s (.subscribe topic)
    | _ => (chunkTopicsForBatch z batch).foldl (fun s chunk => flowSend s (.batch chunk)) s

/-! ## refusals -/

def RATE_LIMITED_MAX_ATTEMPTS : Nat := 6

/-- One chunk of `flushRateLimitedRetries`. -/
def sendRetry (s : State) (c : List String × List (String × Offer)) : State :=
  let ref := s.nextSubscribeRef
  let s := { s with
    nextSubscribeRef := ref + 1
    pendingRetryRefs := c.1.foldl (fun refs t => refs.set t ref) s.pendingRetryRefs }
  flowSend s (.retry s.connectionGeneration ref c.1 c.2)

/-- `flushRateLimitedRetries()`. -/
def flushRateLimitedRetries (z : Sizes) (s : State) : State :=
  let topics := s.rateLimitedTopics.keys.filter s.wants
  let s := { s with
    rateLimitedTimer := none
    rateLimitedTopics := s.rateLimitedTopics.filter s.wants }
  if topics.isEmpty || !s.isOpen then s
  else (chunkResubscribe z s topics).foldl sendRetry s

/-- `retryRateLimitedSubscribe(topic)`. -/
def retryRateLimitedSubscribe (s : State) (topic : String) : State :=
  if !s.wants topic then s
  else
    let attempts := (s.rateLimitedTopics.get? topic).getD 0 + 1
    if attempts > RATE_LIMITED_MAX_ATTEMPTS then
      { s with rateLimitedTopics := s.rateLimitedTopics.delete topic }
    else
      let s := { s with rateLimitedTopics := s.rateLimitedTopics.set topic attempts }
      match s.rateLimitedTimer with
      | some _ => s
      | none => { s with rateLimitedTimer := some s.connectionGeneration }

/-- `clearSubscriptionRetries()`. -/
def clearSubscriptionRetries (s : State) : State :=
  { s with rateLimitedTimer := none, rateLimitedTopics := .empty }

/-! ## recovery -/

/-- What a matching answer does to a recovery: an acceptance ends it. -/
def answer (m : JsMap String Recovery) (topic : String) (ref : Option Nat) (accepted : Bool) :
    JsMap String Recovery :=
  match m.get? topic with
  | none => m
  | some r =>
    if ref = some r.ref then
      if accepted then m.delete topic else m.set topic { r with denied := true }
    else m

/-- `finishRecovery(ack, accepted)`. -/
def finishRecovery (s : State) (topic : String) (ref : Option Nat) (accepted : Bool) : State :=
  let s := { s with
    unaccepted := answer s.unaccepted topic ref accepted
    recovering := answer s.recovering topic ref accepted }
  match s.pendingRecoveries.get? topic with
  | none => s
  | some pending =>
    if ref ≠ some pending.ref then s
    else
      let s := { s with pendingRecoveries := s.pendingRecoveries.delete topic }
      match accepted, pending.highest with
      | true, some highest =>
        match s.lastSeenSeqs.get? topic with
        | none => { s with lastSeenSeqs := s.lastSeenSeqs.set topic highest }
        | some previous =>
          if highest > previous then
            { s with lastSeenSeqs := s.lastSeenSeqs.set topic highest }
          else s
      | _, _ => s

def raise (old : Option Int) (seq : Int) : Int :=
  match old with
  | none => seq
  | some previous => if seq > previous then seq else previous

/-- A topic was heard with a seq; a recovery that was refused ends there. -/
def hear (s : State) (topic : String) (seq : Int) : State :=
  { s with
    highest := s.highest.set topic (raise (s.highest.get? topic) seq)
    recovering :=
      match s.recovering.get? topic with
      | some r => if r.denied then s.recovering.delete topic else s.recovering
      | none => s.recovering }

/-- What `dispatchEvent` reads of a message. -/
structure Msg where
  topic : String
  event : String
  seq : Option Int
  /-- `msg.data?.truncated === true`. -/
  truncated : Bool
  /-- `msg.data?.epoch`, where it is a number. -/
  epoch : Option Int

def markedTopic (msg : Msg) : Option String :=
  let marks := msg.event = "truncated" || msg.event = "rehydrate" || msg.event = "gap" ||
    msg.event = "denied" || (msg.event = "end" && msg.truncated)
  if marks && "__replay:".toList.isPrefixOf msg.topic.toList then
    some (String.ofList (msg.topic.toList.drop "__replay:".length))
  else none

/-- `dispatchEvent(msg)`, up to the stores. -/
def dispatchEvent (s : State) (msg : Msg) : State :=
  match msg.seq with
  | some seq =>
    let s := hear s msg.topic seq
    match s.pendingRecoveries.get? msg.topic with
    | some pending =>
      let pending := { pending with highest := some (raise pending.highest seq) }
      { s with pendingRecoveries := s.pendingRecoveries.set msg.topic pending }
    | none =>
      { s with lastSeenSeqs :=
        s.lastSeenSeqs.set msg.topic (raise (s.lastSeenSeqs.get? msg.topic) seq) }
  | none =>
    match markedTopic msg with
    | none => s
    | some baseTopic =>
      { s with
        lastSeenSeqs := s.lastSeenSeqs.delete baseTopic
        recovering := s.recovering.delete baseTopic
        pendingRecoveries :=
          match s.pendingRecoveries.get? baseTopic with
          | some pending => s.pendingRecoveries.set baseTopic { pending with highest := none }
          | none => s.pendingRecoveries
        lastSeenEpochs :=
          match msg.epoch with
          | some epoch =>
            if msg.event = "rehydrate" then s.lastSeenEpochs.set baseTopic epoch
            else s.lastSeenEpochs
          | none => s.lastSeenEpochs }

/-! ## the socket -/

/-- `doConnect()`, up to `openSocket`. -/
def doConnect (s : State) : State :=
  let s := { s with
    connectionGeneration := s.connectionGeneration + 1
    pendingRecoveries := .empty
    pendingRetryRefs := .empty }
  let s := if s.phase = .closing then clearSubscriptionRetries s else s
  { s with phase := .starting }

/-- One frame of the resubscribe in `onopen`. -/
def resubscribe (s : State) (c : List String × List (String × Offer)) : State :=
  let ref := s.nextSubscribeRef
  sendRecoveryFrame { s with nextSubscribeRef := ref + 1 } ref c.1 c.2

/-- The resubscribe in `onopen`. -/
def onopen (z : Sizes) (s : State) : State :=
  { (chunkResubscribe z s s.subscribedTopics).foldl resubscribe s with phase := .opened }

/-- `simulateOffline()` and `close()`. -/
def goOffline (s : State) : State :=
  { clearSubscriptionRetries s with
    connectionGeneration := s.connectionGeneration + 1
    phase := .off }

/-- `onclose`, of the current socket. -/
def onclose (s : State) : State := { clearSubscriptionRetries s with phase := .off }

/-! ## the machine -/

inductive Action where
  | subscribe (topic : String)
  | release (topic : String)
  | unsubscribe (topic : String)
  | setTopicManaged (topic : String)
  | goOffline
  /-- The clock reads something else. -/
  | tick (clock : Int)
  /-- The microtask of `subscribe`. -/
  | flush
  /-- `rateLimitedTimer`. -/
  | timer
  /-- The rest of a `subscribe-denied` handler. -/
  | retry (topic : String)
  | doConnect
  | openSocket
  /-- The socket is open, and `onopen` runs up to the resubscribe. -/
  | openedSocket
  | onopen
  | closingSocket
  | onclose
  | dispatchEvent (msg : Msg)
  | leaseOk
  | lease (count ttlMs : Int)
  | subscribed (topic : String) (ref : Option Nat) (epoch : Option Int)
  | denied (topic reason : String) (ref : Option Nat)

/-- What a message does; it comes over an open socket. -/
def receive (s : State) : Action → Option State
  | .dispatchEvent msg => some (dispatchEvent s msg)
  | .leaseOk => some { s with flowActive := true }
  | .lease count ttlMs => some (applyFlowWindow s count ttlMs)
  | .subscribed topic ref epoch =>
    let s := finishRecovery s topic ref true
    some { s with
      lastSeenEpochs :=
        match epoch with
        | some epoch => s.lastSeenEpochs.set topic epoch
        | none => s.lastSeenEpochs
      rateLimitedTopics := s.rateLimitedTopics.delete topic }
  | .denied topic reason ref =>
    let s := finishRecovery s topic ref false
    some (if reason = "RATE_LIMITED" then { s with refused := topic :: s.refused } else s)
  | _ => none

/-- What can happen. -/
def next (z : Sizes) (s : State) : Action → Option State
  | .subscribe topic => some (subscribe s topic)
  | .release topic => some (release s topic)
  | .unsubscribe topic => some (unsubscribe s topic)
  | .setTopicManaged topic => some (setTopicManaged s topic)
  | .goOffline => some (goOffline s)
  | .tick clock => some { s with clock }
  | .flush =>
    if s.pendingSubscribes.isSome && s.phase ≠ .opening then some (flushPendingSubscribes z s)
    else none
  | .timer =>
    match s.rateLimitedTimer with
    | none => none
    | some generation =>
      if s.phase = .opening then none
      else if generation = s.connectionGeneration then some (flushRateLimitedRetries z s)
      else some s
  | .retry topic =>
    if topic ∈ s.refused then
      some (retryRateLimitedSubscribe { s with refused := s.refused.erase topic } topic)
    else none
  | .doConnect =>
    if s.phase = .off ∨ s.phase = .starting ∨ s.phase = .closing then some (doConnect s) else none
  | .openSocket => if s.phase = .starting then some { s with phase := .connecting } else none
  | .openedSocket =>
    if s.phase = .connecting then some { s with phase := .opening, wire := [] } else none
  | .onopen => if s.phase = .opening then some (onopen z s) else none
  | .closingSocket =>
    if s.phase = .connecting ∨ s.phase = .opening ∨ s.phase = .opened then
      some { s with phase := .closing }
    else none
  | .onclose =>
    if s.phase = .off ∨ s.phase = .starting then none else some (onclose s)
  | a => if s.phase = .opened then receive s a else none

/-- The subscriptions of a connection. -/
def machine (z : Sizes) : Machine State Action where
  init := .init
  next := next z

end BunServe.Topics
