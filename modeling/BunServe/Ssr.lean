import BunServe.Lib.Readable
import BunServe.Lib.JsMap
import BunServe.Lib.JsNumber
import BunServe.Lib.Machine
import BunServe.Lib.Utf8

/-!
# BunServe.Ssr

Rendering a request (`runtime/handler/ssr.js`): anonymous GETs that arrive
while the same page is being rendered wait for that render and are answered
from its bytes, if it turns out that they may be shared.

Every request is one `Entry` with its lifetime
(`runtime/handler/request-lifetime.js`), the body the application produces
for it, and where `renderSSR` is.  The collector of a body
(`runtime/handler/response-collect.js`) is stopped at each `await`, so that
between any two steps of one request all the others may move, the
application may enqueue, close or fail, and the client may hang up.
-/

namespace BunServe.Ssr

open Machine

abbrev Bytes := List UInt8

/-! ## requests and responses -/

/-- A string of the request line, of a header or of the environment: none of
them carries the NUL that separates the parts of a key. -/
def Text : Type := { s : String // '\x00' ∉ s.toList }

instance : DecidableEq Text := inferInstanceAs (DecidableEq { s : String // '\x00' ∉ s.toList })

/-- Names in lower case, with their values in order. -/
abbrev Headers := List (String × String)

def Headers.getAll (h : Headers) (name : String) : List String :=
  h.filterMap fun e => if e.1 = name then some e.2 else none

def Headers.get (h : Headers) (name : String) : Option String :=
  match h.getAll name with
  | [] => none
  | v :: vs => some (", ".intercalate (v :: vs))

def Headers.has (h : Headers) (name : String) : Bool := !(h.getAll name).isEmpty

structure Request where
  method : String
  /-- `requestTarget(request)` -/
  target : Text
  headers : Headers
  /-- `request.body !== null` -/
  body : Bool

/-- The body of a `Response`: none, one that something has already read, or
the stream of the request it answers. -/
inductive Body where
  | absent | locked | stream
  deriving DecidableEq

/-- What the application answers. -/
structure Response where
  status : Nat
  statusText : String
  headers : Headers
  body : Body

structure SharedResponse where
  status : Nat
  statusText : String
  headers : Headers
  body : Bytes

/-- A chunk of an application's stream. -/
inductive Chunk where
  /-- a `Uint8Array`, an `ArrayBuffer` or a view of one -/
  | bytes (b : Bytes)
  | text (s : JsString)
  | other

/-- `none` where it throws. -/
def responseChunkBytes : Chunk → Option Bytes
  | .bytes b => some b
  | .text s => some (Utf8.encode s)
  | .other => none

/-- The settings and the functions of the platform the handler calls. -/
structure Config where
  /-- `origin` -/
  origin : Option Text
  /-- `get_origin(headers)`, `none` where it throws. -/
  getOrigin : Headers → Option Text
  /-- `new URL(s)` does not throw. -/
  parses : String → Bool
  /-- `bodyLimitFor(method, url)` -/
  bodyLimitFor : String → Text → JsNumber
  /-- `Number(s)` -/
  number : String → JsNumber

/-! ## what may be shared -/

def maxSsrDedup : Nat := 500

def maxSsrDedupBody : Nat := 512 * 1024

/-- `!!headers.get(name)` -/
def Headers.carries (h : Headers) (name : String) : Bool := (h.get name).any (· ≠ "")

def Request.isCredentialed (r : Request) : Bool :=
  r.headers.carries "cookie" || r.headers.carries "authorization"

/-- `origin || get_origin(request.headers)` -/
def Config.baseOrigin (cfg : Config) (r : Request) : Option Text :=
  match cfg.origin with
  | some o => if o.1 = "" then cfg.getOrigin r.headers else some o
  | none => cfg.getOrigin r.headers

/-- `method + '\0' + base_origin + '\0' + url` -/
def dedupKey (method : String) (baseOrigin url : Text) : String :=
  String.ofList (method.toList ++ '\x00' :: (baseOrigin.1.toList ++ '\x00' :: url.1.toList))

/-- The characters `trim` takes off. -/
def isWhiteSpace (c : Char) : Bool :=
  c.val ∈ [0x9, 0xa, 0xb, 0xc, 0xd, 0x20, 0xa0, 0x1680, 0x2000, 0x2001, 0x2002, 0x2003, 0x2004, 0x2005,
    0x2006, 0x2007, 0x2008, 0x2009, 0x200a, 0x2028, 0x2029, 0x202f, 0x205f, 0x3000, 0xfeff]

def trim (s : List Char) : List Char :=
  ((s.dropWhile isWhiteSpace).reverse.dropWhile isWhiteSpace).reverse

/-- The header names a `Vary` lists. -/
def varyNames (value : String) : List (List Char) :=
  ((value.toList.map Char.toLower).splitOn ',').map trim

/-- The response varies on something other than `Accept-Encoding`. -/
def personalized (r : Response) : Bool :=
  match r.headers.get "vary" with
  | none => false
  | some value => (varyNames value).any fun t => t ≠ [] && t ≠ "accept-encoding".toList

/-- `runtime/handler/ssr-dedup.js` -/
def isDedupBufferable (r : Response) : Bool :=
  !("text/event-stream".toList.isPrefixOf
    (((r.headers.get "content-type").getD "").toList.map Char.toLower))

def declaresBodyPastCap (cfg : Config) (r : Response) (cap : Nat) : Bool :=
  match r.headers.get "content-length" with
  | none => false
  | some declared =>
    (cfg.number declared).finite?.isSome && decide ((JsNumber.ofNat cap).lt (cfg.number declared))

/-! ## collecting a body -/

/-- Where `readReady` is: on the plain first read, in its microtask, or in the
rest of the turn. -/
inductive Stage where
  | first | microtask | immediate
  deriving DecidableEq

/-- `collectImmediate` at an `await`. -/
structure Collector where
  chunks : List Bytes
  total : Nat
  released : Bool
  /-- `allowance.spent` -/
  spent : Bool
  stage : Stage
  /-- What the read in progress has been answered. -/
  result : Option (ReadResult Chunk)
  cap : Option Nat
  maxChunks : Option Nat

/-- How `collectImmediate` ended. -/
inductive Outcome where
  /-- `{ complete: true, bytes }` -/
  | complete (bytes : Bytes)
  /-- `{ complete: false, stream }` -/
  | streaming
  | thrown

def Collector.start (cap maxChunks : Option Nat) : Collector :=
  ⟨[], 0, false, false, .first, none, cap, maxChunks⟩

/-- `cancel(reason)`: a read in progress is answered `done` by the cancel. -/
def Collector.cancel (c : Collector) : Collector :=
  { c with released := true, result := some (c.result.getD .done) }

/-- The body of the loop, on the answer of a read. -/
def Collector.next (c : Collector) (x : ReadResult Chunk) : Collector ⊕ Outcome :=
  if c.released then .inr (.complete [])
  else
    match x with
    | .failed => .inr .thrown
    | .done => .inr (.complete c.chunks.flatten)
    | .chunk v =>
      match responseChunkBytes v with
      | none => .inr .thrown
      | some bytes =>
        let chunks := c.chunks ++ [bytes]
        let total := c.total + bytes.length
        if c.cap.any (· < total) || c.maxChunks.any (· ≤ chunks.length) then .inr .streaming
        else .inl { c with chunks := chunks, total := total, stage := .microtask, result := none }

/-- The read is still pending when `readReady` gives up on it. -/
def Collector.pending (c : Collector) : Outcome :=
  if c.released then .complete [] else .streaming

/-- The continuation of the read; `none` while there is nothing to run.
`readReady` has `seen` an answer only if its reaction ran before. -/
def Collector.resume (c : Collector) (seen : Bool) : Option (Collector ⊕ Outcome) :=
  match (if seen || c.stage = .first then c.result else none), c.stage with
  | some x, _ => some (c.next x)
  | none, .first => none
  | none, .microtask =>
    if c.spent then some (.inr c.pending)
    else some (.inl { c with spent := true, stage := .immediate })
  | none, .immediate => some (.inr c.pending)

/-! ## one request -/

/-- What a request is answered with, before headers and compression. -/
inductive Answer where
  | response400
  | response413
  | response500
  | bodyless (r : Response)
  | locked
  | buffered (r : Response) (bytes : Bytes)
  | streamed (r : Response)

/-- A response still producing keeps its request's lifetime open. -/
def Answer.streams : Answer → Bool
  | .streamed _ => true
  | _ => false

/-- `sharedPromise`, with whether its reaction has removed the key. -/
inductive Promise where
  | absent
  | pending
  | settled (v : Option SharedResponse) (removed : Bool)

def Promise.resolve (p : Promise) (v : Option SharedResponse) : Promise :=
  match p with
  | .pending => .settled v false
  | p => p

/-- Where `renderSSR` is; `leads` in the branch that registered the promise. -/
inductive Phase where
  /-- `await server.respond(…)` -/
  | rendering (leads : Bool)
  /-- `await existing` -/
  | waiting (leader : Nat)
  /-- in `collectImmediate` -/
  | collecting (leads : Bool) (r : Response) (c : Collector)
  /-- `await collectImmediate(…)`, which has ended -/
  | collected (leads : Bool) (r : Response) (o : Outcome)
  | ended (a : Answer)

/-- `openRequestLifetime` -/
structure Lifetime where
  /-- `controller.signal.aborted` -/
  aborted : Bool
  finished : Bool
  bodyReceived : Bool
  bodyLimitExceeded : Bool
  /-- `nativeRequest.signal.aborted` -/
  disconnected : Bool

structure Entry where
  request : Request
  lifetime : Lifetime
  phase : Phase
  promise : Promise
  /-- The body of the response being answered. -/
  source : Readable Chunk
  /-- What the application answered this request. -/
  response : Option Response
  /-- The render this request was answered from, when it is another's. -/
  servedFrom : Option (Nat × SharedResponse)
  /-- The application closed the body after the client had hung up. -/
  cutShort : Bool

namespace Entry

def answer (e : Entry) (a : Answer) : Entry :=
  { e with
    phase := .ended a
    lifetime := { e.lifetime with finished := e.lifetime.finished || !a.streams } }

def resolveShared (e : Entry) (v : Option SharedResponse) : Entry :=
  { e with promise := e.promise.resolve v }

/-- `controller.abort(…)` -/
def abort (e : Entry) : Entry := { e with lifetime := { e.lifetime with aborted := true } }

/-- The outer `catch`. -/
def throws (e : Entry) : Entry :=
  if e.lifetime.bodyLimitExceeded then e.answer .response413 else e.abort.answer .response500

/-- `collectImmediate(body, lifetime, cap, maxChunks)` up to its first read. -/
def collectImmediate (e : Entry) (leads : Bool) (r : Response) (cap maxChunks : Option Nat) : Entry :=
  if e.lifetime.finished || e.lifetime.disconnected || e.lifetime.bodyLimitExceeded then
    { e with source := e.source.cancel, phase := .collected leads r (.complete []) }
  else { e with phase := .collecting leads r (.start cap maxChunks) }

def finalizeResponse (e : Entry) (r : Response) : Entry :=
  match r.body with
  | .absent => e.answer (.bodyless r)
  | .locked => e.answer .locked
  | .stream =>
    if e.request.method = "HEAD" then e.answer (.streamed r)
    else if isDedupBufferable r then e.collectImmediate false r none (some 2)
    else e.answer (.streamed r)

def respondLeader (cfg : Config) (e : Entry) (r : Response) : Entry :=
  if r.headers.has "set-cookie" || r.body = .absent then (e.resolveShared none).finalizeResponse r
  else if personalized r then (e.resolveShared none).finalizeResponse r
  else if !isDedupBufferable r || declaresBodyPastCap cfg r maxSsrDedupBody then
    (e.resolveShared none).finalizeResponse r
  else if r.body = .locked then (e.resolveShared none).throws
  else e.collectImmediate true r (some maxSsrDedupBody) none

/-- The application answers, or throws. -/
def respond (cfg : Config) (e : Entry) (leads : Bool) : Option Response → Entry
  | none => (if leads then e.resolveShared none else e).throws
  | some r =>
    let e := { e with response := some r }
    if leads then e.respondLeader cfg r else e.finalizeResponse r

def collector (e : Entry) (leads : Bool) (r : Response) : Collector ⊕ Outcome → Entry
  | .inl c => { e with phase := .collecting leads r c }
  | .inr .thrown => { e with source := e.source.cancel, phase := .collected leads r .thrown }
  | .inr o => { e with phase := .collected leads r o }

/-- What the leader shares of a body it has collected. -/
def shared (e : Entry) (r : Response) (bytes : Bytes) : Option SharedResponse :=
  if !e.lifetime.aborted && bytes.length ≤ maxSsrDedupBody then
    some ⟨r.status, r.statusText, r.headers, bytes⟩
  else none

/-- `renderSSR` goes on with what was collected. -/
def settle (e : Entry) (leads : Bool) (r : Response) : Outcome → Entry
  | .thrown => (if leads then e.resolveShared none else e).throws
  | .streaming => (if leads then e.resolveShared none else e).answer (.streamed r)
  | .complete bytes =>
    (if leads then e.resolveShared (e.shared r bytes) else e).answer (.buffered r bytes)

/-- `cancelResponse()`, while a collector owns the response. -/
def cancelResponse (e : Entry) : Entry :=
  match e.phase with
  | .collecting leads r c =>
    { e with source := e.source.cancel, phase := .collecting leads r c.cancel }
  | _ => e

/-- `disconnect`, the listener of the native abort. -/
def disconnect (e : Entry) : Entry :=
  let e := { e with lifetime := { e.lifetime with disconnected := true } }
  if e.lifetime.finished then e
  else if e.lifetime.bodyReceived then e.cancelResponse
  else e.abort.cancelResponse

/-- A body past its limit aborts the request. -/
def bodyExceeds (e : Entry) : Entry :=
  let e := { e with lifetime := { e.lifetime with bodyLimitExceeded := true } }
  e.abort.cancelResponse

end Entry

/-- What happens to one request. -/
inductive Event where
  | respond (r : Option Response)
  | enqueue (c : Chunk)
  | close
  | error
  /-- The source answers the read in progress. -/
  | deliver
  /-- The continuation of a read runs. -/
  | resume (seen : Bool)
  /-- The continuation of `await collectImmediate(…)` runs. -/
  | settle
  | disconnect
  /-- The last of the request body has arrived. -/
  | bodyArrived
  /-- The request body has crossed its limit. -/
  | bodyExceeds
  /-- `abortInFlightRequests` comes to this request. -/
  | shutdown

def Entry.next (cfg : Config) (e : Entry) : Event → Option Entry
  | .respond r =>
    match e.phase with
    | .rendering leads => some (e.respond cfg leads r)
    | _ => none
  | .enqueue c => (e.source.enqueue c).map fun s => { e with source := s }
  | .close =>
    e.source.close.map fun s => { e with source := s, cutShort := e.lifetime.disconnected }
  | .error => e.source.error.map fun s => { e with source := s }
  | .deliver =>
    match e.phase with
    | .collecting leads r c =>
      if c.result.isSome then none else
      e.source.pull.map fun (x, s) =>
        { e with source := s, phase := .collecting leads r { c with result := some x } }
    | _ => none
  | .resume seen =>
    match e.phase with
    | .collecting leads r c => (c.resume seen).map (e.collector leads r)
    | _ => none
  | .settle =>
    match e.phase with
    | .collected leads r o => some (e.settle leads r o)
    | _ => none
  | .disconnect => if e.lifetime.disconnected then none else some e.disconnect
  | .bodyArrived =>
    if e.request.body && !e.lifetime.finished && !e.lifetime.bodyLimitExceeded then
      some { e with lifetime := { e.lifetime with bodyReceived := true } }
    else none
  | .bodyExceeds =>
    if e.request.body && !e.lifetime.finished && !e.lifetime.bodyReceived then
      some e.bodyExceeds
    else none
  | .shutdown =>
    if e.lifetime.finished then none else some e.abort

/-! ## all of them -/

structure World where
  entries : Nat → Entry
  nextEntry : Nat
  ssrInflight : JsMap String Nat

/-- A request as it reaches the handler, the client perhaps gone already. -/
def Entry.open (r : Request) (disconnected : Bool) (p : Phase) : Entry where
  request := r
  lifetime := ⟨disconnected, false, false, false, disconnected⟩
  phase := p
  promise := .absent
  source := .empty
  response := none
  servedFrom := none
  cutShort := false

/-- `renderSSR` up to its first `await`. -/
def World.arrive (cfg : Config) (w : World) (r : Request) (disconnected : Bool) : World :=
  let start (p : Phase) : Entry := Entry.open r disconnected p
  let put (e : Entry) : World :=
    { w with entries := Function.update w.entries w.nextEntry e, nextEntry := w.nextEntry + 1 }
  let refuse (a : Answer) : World := put ((start (.rendering false)).answer a)
  let declared := (r.headers.get "content-length").elim (JsNumber.ofNat 0) cfg.number
  if r.method ≠ "GET" ∧ r.method ≠ "HEAD" ∧ (cfg.bodyLimitFor r.method r.target).lt declared then
    refuse .response413
  else
    match cfg.baseOrigin r with
    | none => refuse .response400
    | some baseOrigin =>
      if !cfg.parses (baseOrigin.1 ++ r.target.1) then refuse .response400
      -- a `Request` that is a GET or a HEAD cannot be constructed with a body
      else if r.body && (r.method = "GET" || r.method = "HEAD") then refuse .response400
      else if r.method = "GET" && !r.isCredentialed && w.ssrInflight.size < maxSsrDedup then
        let key := dedupKey r.method baseOrigin r.target
        match w.ssrInflight.get? key with
        | some leader => put (start (.waiting leader))
        | none =>
          { put { start (.rendering true) with promise := .pending } with
            ssrInflight := w.ssrInflight.set key w.nextEntry }
      else put (start (.rendering false))

/-- `new Response(shared.body, …)` -/
def Entry.take (e : Entry) (leader : Nat) (s : SharedResponse) : Entry :=
  { e with
    phase := .rendering false
    source := .ofList [.bytes s.body]
    servedFrom := some (leader, s) }

/-- A waiter goes on with what its leader resolved the promise with. -/
def Entry.wake (e : Entry) (leader : Nat) : Option SharedResponse → Entry
  | none => { e with phase := .rendering false }
  | some s => (e.take leader s).finalizeResponse ⟨s.status, s.statusText, s.headers, .stream⟩

inductive Action where
  | arrive (r : Request) (disconnected : Bool)
  | event (i : Nat) (e : Event)
  /-- The reaction that continues the waiter `i`. -/
  | wake (i : Nat)
  /-- The reaction of `sharedPromise.finally(…)`. -/
  | removeKey (leader : Nat)

def World.set (w : World) (i : Nat) (e : Entry) : World :=
  { w with entries := Function.update w.entries i e }

def World.next (cfg : Config) (w : World) : Action → Option World
  | .arrive r disconnected => some (w.arrive cfg r disconnected)
  | .event i ev => if i < w.nextEntry then ((w.entries i).next cfg ev).map (w.set i) else none
  | .wake i =>
    match (w.entries i).phase with
    | .waiting leader =>
      match (w.entries leader).promise with
      | .settled v _ => some (w.set i ((w.entries i).wake leader v))
      | _ => none
    | _ => none
  | .removeKey leader =>
    match (w.entries leader).promise, cfg.baseOrigin (w.entries leader).request with
    | .settled v false, some baseOrigin =>
      let r := (w.entries leader).request
      some { w.set leader { w.entries leader with promise := .settled v true } with
        ssrInflight := w.ssrInflight.delete (dedupKey r.method baseOrigin r.target) }
    | _, _ => none

def renderer (cfg : Config) : Machine World Action where
  init := ⟨fun _ => (Entry.open ⟨"", ⟨"", by simp⟩, [], false⟩ false (.rendering false)).answer .response400,
    0, .empty⟩
  next := World.next cfg

end BunServe.Ssr
