import BunServe.Lib.Machine
import BunServe.Lib.JsString
import Mathlib.Logic.Function.Basic

/-!
# BunServe.Delivery

Recipient delivery authorization (`runtime/utils/delivery-authorization.js`):
every application frame on its way to a socket passes a policy, and a frame
that has to wait keeps its place in front of the socket's later frames.

The policy is code of the application.  While it decides it may call back into
the boundary, drain other sockets or close its own, so an operation of the
source is not one step here: the state has the call stack (`Task`), and the
steps are what application code can do where it runs, its returns, and one
`step` for the boundary's own code.  Promises and timers are heap cells whose
reactions are actions of the empty stack.  `depth`, `inPolicy` and
`policySocket` of the source are read off the stack.

The boundary is modelled as configured with a policy.  A text payload is given
by its size and what `JSON.parse` makes of it; a socket throws from `send`,
`getBufferedAmount` and `end` once it is closed, and does not open again.
-/

namespace BunServe.Delivery

open Function (update)

/-! ## messages -/

/-- A parsed JSON value; numbers by their double bits. -/
inductive Json where
  | null
  | bool (b : Bool)
  | num (bits : BitVec 64)
  | str (s : JsString)
  | arr (items : List Json)
  | obj (fields : List (JsString × Json))

/-- The own property `key` of a value. -/
def Json.field? (v : Json) (key : String) : Option Json :=
  match v with
  | .obj fields => fields.lookup (js key)
  | _ => none

/-- The own property `key` of a value, if it is a string. -/
def Json.string? (v : Json) (key : String) : Option JsString :=
  match v.field? key with
  | some (.str s) => some s
  | _ => none

inductive MessageKind where
  | message | replay | request

/-- One logical message as the policy sees it. -/
structure Message where
  topic : Option JsString
  event : Json
  data : Option Json
  binary : Bool
  kind : MessageKind

/-- `message`: a replay-channel frame is shown under the topic it replays. -/
def message (topic : JsString) (event : Json) (data : Option Json) (binary : Bool) : Message :=
  if (js "__replay:").isPrefixOf topic then
    ⟨some (topic.drop (js "__replay:").length), event, data, binary, .replay⟩
  else ⟨some topic, event, data, binary, .message⟩

/-- A payload: its byte length, and for text the value `JSON.parse` returns,
`none` if it throws. -/
structure Payload where
  binary : Bool
  size : Nat
  json : Option Json

/-- A parsed message envelope; `none` throws. -/
def envelope (v : Json) : Option Message :=
  (v.string? "topic").map fun topic =>
    message topic ((v.field? "event").getD .null) (v.field? "data") false

/-- `describe`: the logical messages of a frame; `none` throws. -/
def describe (p : Payload) (topic : Option JsString) : Option (List Message) :=
  if p.binary then topic.map fun t => [message t .null none true]
  else
    match p.json with
    | none => none
    | some v =>
      if v.string? "type" = some (js "batch") then
        match v.field? "events" with
        | some (.arr (e :: es)) => (e :: es).mapM envelope
        | _ => none
      else if v.string? "type" = some (js "request") then
        some [⟨none, (v.field? "event").getD .null, v.field? "data", false, .request⟩]
      else (envelope v).map fun m => [m]

/-! ## the state -/

abbrev Socket := Nat

inductive Kind where
  | application | control
  deriving DecidableEq

/-- A frame; `id` numbers the frames in the order they were admitted. -/
structure Frame where
  id : Nat
  ws : Socket
  kind : Kind
  payload : Payload
  topic : Option JsString

/-- The bytes the bound counts for a held frame. -/
def Frame.charge (f : Frame) : Nat :=
  (if !f.payload.binary && f.kind = .application then 2 else 1) * f.payload.size + 128

/-- A held frame, and whether its decision has been taken. -/
structure Entry where
  frame : Frame
  verdict : Bool

/-- Why a decision refused; `closed` is a decision abandoned with its
connection. -/
inductive Reason where
  | denied | invalidResult | error | unattributed | timeout | closed
  deriving DecidableEq

/-- What `fail` closes the connection with. -/
def Reason.code (r : Reason) : Nat := if r = .denied then 1013 else 1011

/-- The outcome of a decision. -/
inductive Outcome where
  | granted
  | refused (r : Reason)
  deriving DecidableEq

/-- What a decision has come to when its code returns: an outcome, or a promise
with the messages from `next` on still to be asked. -/
inductive Decided where
  | now (o : Outcome)
  | later (next : Nat)

/-- The frames a socket holds.  The queue lists them from the head on; a timer
is armed or not. -/
structure Backlog where
  ws : Socket
  queue : List Entry
  bytes : Nat
  held : Nat
  waiting : Bool
  pumping : Bool
  closed : Bool
  failed : Bool
  timer : Bool
  ending : Option Nat
  endTimer : Bool

/-- How far a pending decision has come: behind a policy promise, with the
policy, decided, delivered. -/
inductive Phase where
  | awaiting (next : Nat)
  | running
  | done (o : Outcome)
  | delivered
  deriving DecidableEq

/-- A pending decision, with the backlog that waits for it; a decision whose
connection closed is only reported. -/
structure Decision where
  frame : Frame
  messages : List Message
  backlog : Option Nat
  phase : Phase

/-- What asked for a decision: an admission, the pump of a backlog, or a
pending decision that goes on. -/
inductive Asker where
  | fast (f : Frame)
  | pump (b : Nat) (f : Frame)
  | settle (d : Nat)

/-- An operation queued until the outermost one has finished. -/
inductive Job where
  | admission (kind : Kind) (ws : Socket) (p : Payload) (topic : Option JsString)
  | idle (ws : Socket)
  | walk (connections : List Socket) (topic : JsString) (p : Payload) (logical : Option JsString)
  | endNow (ws : Socket) (code : Nat)
  | endRefused (b : Nat) (r : Reason)
  | close (ws : Socket)
  | operation (owner : Option Socket)

/-- One frame of the call stack. -/
inductive Task where
  /-- The policy decides message `i` (application code). -/
  | policy (ws : Socket) (messages : List Message) (i : Nat) (asker : Asker)
  /-- A callback into the application: an idle handler, a close hook. -/
  | hook
  /-- The adapter's code between `begin` and `finish`. -/
  | fanout
  /-- A deferred operation, with the socket whose policy issued it. -/
  | operation (owner : Option Socket)
  /-- `ws.send` of a frame, from the drain of a backlog or directly. -/
  | hand (f : Frame) (pump : Option Nat)
  /-- `ws.send` on a socket whose close event has arrived. -/
  | native (f : Frame)
  /-- The loop of `drainQueue`. -/
  | pumping (b : Nat)
  /-- The loop of `walk`; `busy` while a socket is served. -/
  | walk (rest : List Socket) (topic : JsString) (p : Payload) (logical : Option JsString)
      (accepted busy : Bool)
  /-- The value of `drain`. -/
  | drained (ws : Socket)
  /-- `leave`, and the loop in it. -/
  | leave
  | flush
  | jobs (js : List Job)

/-- What an observer sees, newest first. -/
inductive Event where
  | admitted (ws : Socket) (id : Nat)
  /-- The policy answered true for message `i` of a frame. -/
  | answered (id i : Nat) (m : Message)
  /-- The transport was full when a frame was to be handed on. -/
  | full (id : Nat)
  | handed (f : Frame)
  /-- A decision for the socket refused, threw or timed out. -/
  | refused (ws : Socket)
  | reported (ws : Socket) (r : Reason) (code : Option Nat)
  | ended (ws : Socket) (code : Nat)
  | dropped (ws : Socket) (bytes : Nat)

/-- The bounds of the configured boundary. -/
structure Options where
  maxPendingBytes : Nat := 1048576
  closeOnOverflow : Bool := false

structure State where
  /-- The native sockets. -/
  isOpen : Socket → Bool
  buffered : Socket → Nat
  subscribed : Socket → JsString → Bool
  released : Socket → Bool
  backlogs : Socket → Option Nat
  blogs : Nat → Backlog
  nextBlog : Nat
  decisions : Nat → Decision
  nextDecision : Nat
  queued : List Job
  endings : Nat
  stack : List Task
  /-- The value of the last call, `none` if it threw. -/
  returned : Option Nat
  nextFrame : Nat
  log : List Event

def Backlog.empty (ws : Socket) : Backlog where
  ws := ws
  queue := []
  bytes := 0
  held := 0
  waiting := false
  pumping := false
  closed := false
  failed := false
  timer := false
  ending := none
  endTimer := false

def State.init : State where
  isOpen := fun _ => true
  buffered := fun _ => 0
  subscribed := fun _ _ => false
  released := fun _ => false
  backlogs := fun _ => none
  blogs := fun _ => .empty 0
  nextBlog := 0
  decisions := fun _ => ⟨⟨0, 0, .control, ⟨true, 0, none⟩, none⟩, [], none, .delivered⟩
  nextDecision := 0
  queued := []
  endings := 0
  stack := []
  returned := none
  nextFrame := 0
  log := []

namespace State

variable (s : State)

/-- `depth`: the operations in progress. -/
def depth : Nat := s.stack.countP fun
  | .fanout | .leave | .flush => true
  | _ => false

/-- `inPolicy`: the policy calls in progress. -/
def inPolicy : Nat := s.stack.countP fun
  | .policy .. => true
  | _ => false

/-- `policySocket`: the socket the innermost policy call decides for. -/
def policySocket : Option Socket := s.stack.findSome? fun
  | .policy ws _ _ _ => some ws
  | _ => none

def push (t : Task) : State := { s with stack := t :: s.stack }

def emit (e : Event) : State := { s with log := e :: s.log }

def returning (v : Option Nat) : State := { s with returned := v }

def defer (j : Job) : State := { s with queued := s.queued ++ [j] }

def modBlog (b : Nat) (f : Backlog → Backlog) : State :=
  { s with blogs := update s.blogs b (f (s.blogs b)) }

def modDecision (d : Nat) (f : Decision → Decision) : State :=
  { s with decisions := update s.decisions d (f (s.decisions d)) }

/-- `backlogs.delete(ws)` -/
def unregister (ws : Socket) : State :=
  { s with backlogs := update s.backlogs ws none }

/-- `open`: a fresh backlog for the socket. -/
def openBlog (ws : Socket) : State :=
  { s with
    blogs := update s.blogs s.nextBlog (.empty ws)
    backlogs := update s.backlogs ws (some s.nextBlog)
    nextBlog := s.nextBlog + 1 }

def number (kind : Kind) (ws : Socket) (p : Payload) (topic : Option JsString) : State × Frame :=
  ({ s with nextFrame := s.nextFrame + 1, log := .admitted ws s.nextFrame :: s.log },
    ⟨s.nextFrame, ws, kind, p, topic⟩)

end State

/-! ## closing -/

/-- `alive` -/
def alive (s : State) (ws : Socket) : Bool :=
  match s.backlogs ws with
  | some b => !(s.blogs b).closed
  | none => false

/-- The native `ws.end` and `ws.close` of an open socket; the close handler
runs inside. -/
def nativeEnd (s : State) (ws : Socket) (code : Nat) : State :=
  (({ s with isOpen := update s.isOpen ws false }).emit (.ended ws code)).push .hook

/-- `release` -/
def release (s : State) (b : Nat) : State :=
  let endings := if (s.blogs b).ending.isSome then s.endings - 1 else s.endings
  { s.modBlog b fun blog =>
      { blog with
        closed := true, ending := none, timer := false, endTimer := false
        queue := [], bytes := 0, held := 0 } with
    endings := endings }

/-- `report` -/
def report (s : State) (ws : Socket) (o : Outcome) (code : Option Nat) : State :=
  match o with
  | .granted => s
  | .refused .closed => s
  | .refused r => s.emit (.reported ws r code)

/-- `forget` -/
def forget (s : State) (b : Nat) : State :=
  let ws := (s.blogs b).ws
  if s.backlogs ws = some b then s.unregister ws else s

/-- `endRefused` -/
def endRefused (s : State) (b : Nat) (r : Reason) : State :=
  let ws := (s.blogs b).ws
  if s.isOpen ws then nativeEnd s ws r.code
  else
    let s := forget s b
    { s with released := update s.released ws true }

/-- `fail`: the connection is ended, after the operation in progress. -/
def fail (s : State) (b : Nat) (r : Reason) : State :=
  if (s.blogs b).failed then s
  else
    let ws := (s.blogs b).ws
    let gone := (s.blogs b).closed || s.released ws
    let s := release (s.modBlog b fun blog => { blog with failed := true }) b
    if gone then forget (report s ws (.refused r) none) b
    else
      let s := report s ws (.refused r) (some r.code)
      if 0 < s.depth then s.defer (.endRefused b r) else endRefused s b r

/-! ## decisions -/

/-- Is `decide` through at message `i`, or does it ask the policy? -/
def decide (s : State) (ws : Socket) (messages : List Message) (i : Nat) (asker : Asker)
    (through : State → State) : State :=
  if i < messages.length then s.push (.policy ws messages i asker) else through s

/-- `wait`: the head of `b` waits for a decision on the messages from `next`
on. -/
def wait (s : State) (b : Nat) (f : Frame) (messages : List Message) (next : Nat) : State :=
  let s := { s with
    decisions := update s.decisions s.nextDecision
      ⟨f, messages, some b, .awaiting next⟩
    nextDecision := s.nextDecision + 1 }
  s.modBlog b fun blog => { blog with waiting := true, timer := true }

/-- `settleClosed`: a decision whose connection closed is only reported. -/
def settleClosed (s : State) (f : Frame) (messages : List Message) (next : Nat) : State :=
  { s with
    decisions := update s.decisions s.nextDecision
      ⟨f, messages, none, .awaiting next⟩
    nextDecision := s.nextDecision + 1 }

/-- `hold` -/
def hold (s : State) (b : Nat) (f : Frame) : State :=
  s.modBlog b fun blog =>
    { blog with
      queue := blog.queue ++ [⟨f, false⟩]
      bytes := blog.bytes + f.charge
      held := blog.held + f.payload.size }

/-! ## the pump -/

/-- `retire`: every held frame reached the transport. -/
def retire (s : State) (b : Nat) : State :=
  let ws := (s.blogs b).ws
  let ending := (s.blogs b).ending
  let s := release (s.unregister ws) b
  match ending with
  | some code => if s.isOpen ws then nativeEnd s ws code else s
  | none => s.push .hook

/-- The pump is through, with every frame handed on or not. -/
def endPump (s : State) (b : Nat) (drained : Bool) : State :=
  let s := s.modBlog b fun blog => { blog with pumping := false }
  if drained then retire s b else s

/-- The socket threw under the pump. -/
def endPumpClosed (s : State) (b : Nat) : State :=
  (release (forget s b) b).modBlog b fun blog => { blog with pumping := false }

/-- `pump` -/
def pump (s : State) (b : Nat) : State :=
  if (s.blogs b).pumping ∨ (s.blogs b).waiting ∨ (s.blogs b).closed then s
  else (s.modBlog b fun blog => { blog with pumping := true }).push (.pumping b)

/-- The head of `b` leaves the queue for the transport. -/
def handHead (s : State) (b : Nat) (f : Frame) : State :=
  (s.modBlog b fun blog =>
    { blog with
      queue := blog.queue.tail
      bytes := blog.bytes - f.charge
      held := blog.held - f.payload.size }).push (.hand f (some b))

/-- `drainQueue`, once the head of `b` is decided. -/
def pumpDecided (s : State) (b : Nat) (f : Frame) (messages : List Message) (v : Decided) : State :=
  if (s.blogs b).closed then
    endPump (match v with
      | .later next => settleClosed s f messages next
      | .now .granted => s
      | .now (.refused r) => fail s b r) b false
  else
    match v with
    | .later next => endPump (wait s b f messages next) b false
    | .now .granted => handHead s b f
    | .now (.refused r) => endPump (fail s b r) b false

/-- One turn of the loop of `drainQueue`. -/
def drainQueue (s : State) (b : Nat) : State :=
  match (s.blogs b).queue with
  | [] => endPump s b true
  | e :: rest =>
    let ws := (s.blogs b).ws
    if !s.isOpen ws then endPumpClosed s b
    else
      let undecided := s.modBlog b fun blog => { blog with queue := ⟨e.frame, false⟩ :: rest }
      if 0 < s.buffered ws then endPump (undecided.emit (.full e.frame.id)) b false
      else if e.frame.kind = .control then handHead s b e.frame
      else if e.verdict then pumpDecided undecided b e.frame [] (.now .granted)
      else
        match describe e.frame.payload e.frame.topic with
        | none =>
          pumpDecided (undecided.emit (.refused ws)) b e.frame [] (.now (.refused .unattributed))
        | some messages => decide undecided ws messages 0 (.pump b e.frame) fun s =>
          pumpDecided s b e.frame messages (.now .granted)

/-- `transmit`: the native `ws.send`, answered with a status, and for a held
frame the rest of its turn in `drainQueue`. -/
def transmit (s : State) (f : Frame) (b : Option Nat) (status : Nat) : State :=
  if s.isOpen f.ws then
    let s := (s.emit (.handed f)).returning (some status)
    match b with
    | none => s
    | some b =>
      if (s.blogs b).closed then endPump s b false
      else if status = 2 then endPump s b (s.blogs b).queue.isEmpty
      else s.push (.pumping b)
  else
    match b with
    | none => s.returning none
    | some b => endPumpClosed s b

/-! ## admission -/

def fastDecided (s : State) (f : Frame) (messages : List Message) (v : Decided) : State :=
  if s.released f.ws then
    (match v with
      | .later next => settleClosed s f messages next
      | .now o => report s f.ws o none).push (.hand f none)
  else
    let b := s.nextBlog
    match v with
    | .now .granted => s.push (.hand f none)
    | .later next =>
      (wait (hold (s.openBlog f.ws) b f) b f messages next).returning (some 0)
    | .now (.refused r) => (fail (s.openBlog f.ws) b r).returning (some 2)

/-- The bounded queue of `admit`. -/
def enqueue (o : Options) (s : State) (b : Nat) (f : Frame) : State :=
  if !s.isOpen f.ws then s.returning none
  else if o.maxPendingBytes < s.buffered f.ws + (s.blogs b).bytes then
    let s := if (s.blogs b).queue.isEmpty then s.unregister f.ws else s
    let s := s.emit (.dropped f.ws f.payload.size)
    let s := if o.closeOnOverflow then s.defer (.close f.ws) else s
    s.returning (some 2)
  else (hold s b f).returning (some 0)

/-- `admit` -/
def admission (o : Options) (s : State) (kind : Kind) (ws : Socket) (p : Payload)
    (topic : Option JsString) : State :=
  let (s, f) := s.number kind ws p topic
  if s.released ws then s.push (.hand f none)
  else
    match s.backlogs ws with
    | none =>
      if kind = .control then s.push (.hand f none)
      else if !s.isOpen ws then s.returning none
      else if s.buffered ws = 0 then
        match describe p topic with
        | none => fastDecided (s.emit (.refused ws)) f [] (.now (.refused .unattributed))
        | some messages => decide s ws messages 0 (.fast f) fun s =>
          fastDecided s f messages (.now .granted)
      else enqueue o (s.openBlog ws) s.nextBlog f
    | some b =>
      if (s.blogs b).closed ∨ (s.blogs b).ending.isSome then s.returning (some 2)
      else enqueue o s b f

def nativeSend (s : State) (kind : Kind) (ws : Socket) (p : Payload) (topic : Option JsString) :
    State :=
  let (s, f) := s.number kind ws p topic
  s.push (.native f)

/-- One turn of the loop of `walk`. -/
def walk (o : Options) (s : State) (rest : List Socket) (topic : JsString) (p : Payload)
    (logical : Option JsString) (accepted busy : Bool) : State :=
  let accepted := accepted || (busy && s.returned.isSome)
  match rest with
  | [] => s.returning (some (if accepted then 1 else 0))
  | ws :: rest =>
    if s.isOpen ws && s.subscribed ws topic then
      admission o (s.push (.walk rest topic p logical accepted true)) .application ws p logical
    else s.push (.walk rest topic p logical accepted false)

/-- `endNow` -/
def endNow (s : State) (ws : Socket) (code : Nat) : State :=
  match s.backlogs ws with
  | none => if s.isOpen ws then nativeEnd s ws code else s.returning none
  | some b =>
    if (s.blogs b).closed ∨ (s.blogs b).ending.isSome then s
    else
      { s.modBlog b fun blog => { blog with ending := some code, endTimer := true } with
        endings := s.endings + 1 }

/-! ## operations and their queue -/

/-- One job of `leave`; what it throws is swallowed. -/
def runJob (o : Options) (s : State) : Job → State
  | .admission kind ws p topic => admission o s kind ws p topic
  | .idle ws => if s.released ws ∨ (s.backlogs ws).isSome then s else s.push .hook
  | .walk connections topic p logical => s.push (.walk connections topic p logical false false)
  | .endNow ws code => endNow s ws code
  | .endRefused b r => endRefused s b r
  | .close ws => if s.isOpen ws then nativeEnd s ws 1006 else s
  | .operation owner => s.push (.operation owner)

/-- `leave` -/
def leave (s : State) : State :=
  if 1 < (s.push .leave).depth ∨ 0 < s.inPolicy then s else s.push .flush

/-- One turn of the loop of `leave`. -/
def flush (s : State) : State :=
  match s.queued with
  | [] => s
  | js => ({ s with queued := [] }.push .flush).push (.jobs js)

/-- `enter`, then the body of an operation, then `leave`. -/
def operate (s : State) (body : State → State) : State := body (s.push .leave)

/-! ## returns and reactions -/

/-- What a policy call comes back with. -/
inductive Verdict where
  | yes | no | other | threw | promise
  deriving DecidableEq

/-- A settled policy promise. -/
inductive Settled where
  | yes | no | other | rejected
  deriving DecidableEq

def Asker.frame (s : State) : Asker → Frame
  | .fast f => f
  | .pump _ f => f
  | .settle d => (s.decisions d).frame

def conclude (s : State) (messages : List Message) (v : Decided) : Asker → State
  | .fast f => fastDecided s f messages v
  | .pump b f => pumpDecided s b f messages v
  | .settle d => s.modDecision d fun dec =>
    { dec with
      phase := match v with
        | .now o => .done o
        | .later next => .awaiting next }

/-- The policy returns for message `i`. -/
def policyReturn (s : State) (ws : Socket) (messages : List Message) (i : Nat) (asker : Asker)
    (m : Message) (v : Verdict) : State :=
  let refuse (r : Reason) : State :=
    conclude (s.emit (.refused ws)) messages (.now (.refused r)) asker
  match v with
  | .yes =>
    decide (s.emit (.answered (asker.frame s).id i m)) ws messages (i + 1) asker fun s =>
      conclude s messages (.now .granted) asker
  | .no => refuse .denied
  | .other => refuse .invalidResult
  | .threw => refuse .error
  | .promise => conclude s messages (.later (i + 1)) asker

/-- `settle`: the policy promise of the decision `d` settles. -/
def settle (s : State) (d : Nat) (v : Settled) : Option State :=
  let dec := s.decisions d
  let ws := dec.frame.ws
  let finish (s : State) (o : Outcome) : State :=
    s.modDecision d fun dec => { dec with phase := .done o }
  match dec.phase with
  | .awaiting next =>
    if d < s.nextDecision then
      match v, dec.messages[next - 1]? with
      | .yes, some m =>
        let s := s.emit (.answered dec.frame.id (next - 1) m)
        if next < dec.messages.length ∧ !alive s ws then some (finish s (.refused .closed))
        else some (decide (s.modDecision d fun dec => { dec with phase := .running }) ws
          dec.messages next (.settle d) fun s => finish s .granted)
      | .yes, none => none
      | .no, _ => some (finish (s.emit (.refused ws)) (.refused .denied))
      | .other, _ => some (finish (s.emit (.refused ws)) (.refused .invalidResult))
      | .rejected, _ => some (finish (s.emit (.refused ws)) (.refused .error))
    else none
  | _ => none

/-- The reaction to a decided promise: the body of `wait` or `settleClosed`. -/
def react (s : State) (d : Nat) : Option State :=
  let dec := s.decisions d
  match dec.phase with
  | .done o =>
    if d < s.nextDecision then
      some <| operate (s.modDecision d fun dec => { dec with phase := .delivered }) fun s =>
        match dec.backlog with
        | none => report s dec.frame.ws o none
        | some b =>
          if (s.blogs b).closed then
            if (s.blogs b).failed then s else report s dec.frame.ws o none
          else
            let s := s.modBlog b fun blog => { blog with timer := false, waiting := false }
            match o with
            | .refused r => fail s b r
            | .granted =>
              pump (s.modBlog b fun blog =>
                { blog with queue := blog.queue.map fun e =>
                  if e.frame.id = dec.frame.id then { e with verdict := true } else e }) b
    else none
  | _ => none

/-- The time bound of a decision. -/
def timeout (s : State) (b : Nat) : Option State :=
  if (s.blogs b).timer then
    some (fail ((s.modBlog b fun blog => { blog with timer := false }).emit
      (.refused (s.blogs b).ws)) b .timeout)
  else none

/-- The time bound of an `end`. -/
def endTimeout (s : State) (b : Nat) : Option State :=
  if (s.blogs b).endTimer then
    let ws := (s.blogs b).ws
    let code := (s.blogs b).ending.getD 0
    let s := release (forget (s.modBlog b fun blog => { blog with endTimer := false }) b) b
    some (if s.isOpen ws then nativeEnd s ws code else s)
  else none

/-! ## the machine -/

/-- Application code runs at the bottom of the stack and in a callback. -/
def atRest (s : State) : Bool :=
  match s.stack with
  | [] => true
  | .policy .. :: _ => true
  | .hook :: _ => true
  | .fanout :: _ => true
  | .operation _ :: _ => true
  | _ => false

/-- What can happen: the entry points and returns of application code, one step
of the boundary's code, the reactions and timers, the transport. -/
inductive Action where
  | send (ws : Socket) (p : Payload) (topic : Option JsString)
  | sendReplaceable (ws : Socket) (p : Payload)
  | control (ws : Socket) (p : Payload)
  | publish (subscribers : Bool) (connections : List Socket) (topic : JsString) (p : Payload)
      (logical : Option JsString)
  | end_ (ws : Socket) (code : Nat)
  | drain (ws : Socket)
  | closed (ws : Socket)
  | begin
  | finish
  | deferOperation
  | ret (v : Verdict)
  | step (status : Nat)
  | settle (d : Nat) (v : Settled)
  | react (d : Nat)
  | timeout (b : Nat)
  | endTimeout (b : Nat)
  | transport (ws : Socket) (buffered : Nat)
  | nativeClose (ws : Socket)
  | subscribe (ws : Socket) (topic : JsString) (on : Bool)

/-- The entry points. -/
def call (o : Options) (s : State) : Action → Option State
  | .send ws p topic => some <|
      if s.released ws then nativeSend s .application ws p topic
      else if 0 < s.inPolicy then (s.defer (.admission .application ws p topic)).returning (some 0)
      else operate s fun s => admission o s .application ws p topic
  | .sendReplaceable ws p => some <|
      if s.released ws then nativeSend s .application ws p none
      else if 0 < s.inPolicy then (s.defer (.idle ws)).returning (some 2)
      else if (s.backlogs ws).isSome then s.returning (some 2)
      else operate s fun s => admission o s .application ws p none
  | .control ws p => some <|
      if s.released ws then nativeSend s .control ws p none
      else if 0 < s.inPolicy then (s.defer (.admission .control ws p none)).returning (some 0)
      else operate s fun s => admission o s .control ws p none
  | .publish subscribers connections topic p logical => some <|
      if !subscribers then s.returning (some 0)
      else if 0 < s.inPolicy then
        (s.defer (.walk connections topic p logical)).returning (some 1)
      else operate s fun s => s.push (.walk connections topic p logical false false)
  | .end_ ws code => some <|
      if s.released ws then if s.isOpen ws then nativeEnd s ws code else s.returning none
      else if 0 < s.inPolicy then s.defer (.endNow ws code)
      else operate s fun s => endNow s ws code
  | .drain ws => some <|
      match s.backlogs ws with
      | none => s.returning (some (if s.released ws then 0 else 1))
      | some b => operate (s.push (.drained ws)) fun s => pump s b
  | .closed ws =>
    if s.isOpen ws then none
    else
      let s := { s with released := update s.released ws true }
      match s.backlogs ws with
      | none => some s
      | some b => some (release (s.unregister ws) b)
  | .begin => some (s.push .fanout)
  | .deferOperation => some (s.defer (.operation s.policySocket))
  | _ => none

/-- The returns of application code. -/
def ret (s : State) (v : Verdict) : Option State :=
  match s.stack with
  | .policy ws messages i asker :: stack =>
    messages[i]?.map fun m => policyReturn { s with stack := stack } ws messages i asker m v
  | .hook :: stack => some { s with stack := stack }
  | .operation owner :: stack =>
    let s := { s with stack := stack }
    match owner, v with
    | some ws, .threw =>
      match s.backlogs ws with
      | some b => some (fail (s.emit (.refused ws)) b .error)
      | none => some (fail ((s.emit (.refused ws)).openBlog ws) s.nextBlog .error)
    | _, _ => some s
  | _ => none

/-- One step of the boundary's own code. -/
def step (o : Options) (s : State) (status : Nat) : Option State :=
  match s.stack with
  | .hand f b :: stack => some (transmit { s with stack := stack } f b status)
  | .native f :: stack => some (transmit { s with stack := stack } f none status)
  | .pumping b :: stack => some (drainQueue { s with stack := stack } b)
  | .walk rest topic p logical accepted busy :: stack =>
    some (walk o { s with stack := stack } rest topic p logical accepted busy)
  | .drained ws :: stack =>
    some ({ s with stack := stack }.returning (some (if s.released ws then 0 else 1)))
  | .leave :: stack => some (leave { s with stack := stack })
  | .flush :: stack => some (flush { s with stack := stack })
  | .jobs [] :: stack => some { s with stack := stack }
  | .jobs (j :: js) :: stack => some (runJob o { s with stack := .jobs js :: stack } j)
  | _ => none

def machine (o : Options) : Machine State Action where
  init := .init
  next s
    | .transport ws n => some { s with buffered := update s.buffered ws n }
    | .nativeClose ws => some { s with isOpen := update s.isOpen ws false }
    | .subscribe ws topic on => some { s with
        subscribed := update s.subscribed ws
          (update (s.subscribed ws) topic on) }
    | .step status => step o s status
    | .ret v => ret s v
    | .finish =>
      match s.stack with
      | .fanout :: stack => some { s with stack := .leave :: stack }
      | _ => none
    | .settle d v => if s.stack.isEmpty then settle s d v else none
    | .react d => if s.stack.isEmpty then react s d else none
    | .timeout b => if s.stack.isEmpty ∧ b < s.nextBlog then timeout s b else none
    | .endTimeout b => if s.stack.isEmpty ∧ b < s.nextBlog then endTimeout s b else none
    | a => if atRest s then call o s a else none

end BunServe.Delivery
