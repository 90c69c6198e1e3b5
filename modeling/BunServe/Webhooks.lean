import Mathlib.Data.List.Dedup
import Mathlib.Data.List.Sort
import BunServe.Lib.JsMap
import BunServe.Lib.Prog
import BunServe.SafeUrl

/-!
# BunServe.Webhooks

One delivery of an outbound webhook, `plugins/webhooks/server.js`: the gate that each hop
passes, the pin of the addresses that a name resolves to, the request, its retries, and
the redirects.

A delivery is a program that asks: the callbacks of its config, the resolver, the delivery
controls, and the HTTP client.  While it waits the clocks go on and other deliveries of
the same config may change its pins.  What `new URL` answers and the digests are
parameters.  The state keeps what each hop did.
-/

namespace BunServe.Webhooks

open SafeUrl (Mode Answer Resolved checkUrl classifyAddress inner isDigit)

/-- Numbers, and what the code does with them. -/
class Number (N : Type) extends LinearOrder N, Add N, Sub N, Zero N, NatCast N

/-! ## what the module calls into -/

/-- A parsed URL. -/
structure Url where
  href : JsString
  origin : JsString
  protocol : JsString
  hostname : JsString
  port : JsString
  host : JsString

structure Platform where
  newUrl : JsString → Option Url
  /-- `new URL(location, base)`. -/
  resolveUrl : JsString → JsString → Option Url
  lc : LowerCase
  /-- `createHmac('sha256', secret).update(text).digest('hex')`. -/
  hmac : JsString → JsString → JsString
  /-- `createHash('sha256').update(text).digest('hex')`. -/
  sha256 : JsString → JsString
  bun : Bool

/-- What `checkUrl` calls into. -/
def Platform.env (p : Platform) : SafeUrl.Env where
  newUrl url := (p.newUrl url).map fun u => ⟨u.protocol, u.hostname⟩
  lc := p.lc

/-! ## options -/

/-- The config of a webhook: its callbacks by whether they are there. -/
structure Config (N : Type) where
  transform : Bool
  urlCallback : Bool
  /-- `config.url`, of a string. -/
  url : Option JsString
  secret : Option JsString
  previousSecret : Option JsString
  idempotencyKey : Bool
  urlMode : Mode
  allow : List JsString
  validateUrl : Bool
  resolve : Bool
  /-- `pinCacheMs`, of a finite number that is not negative. -/
  pinCacheMs : Option N
  maxRedirects : Option Nat
  /-- `retry.attempts`, of an integer that is not negative. -/
  attempts : Option Nat
  timeoutMs : N

structure Hooks where
  breaker : Bool
  budget : Bool
  admission : Bool
  traceContext : Option (JsString × Option JsString)

/-! ## questions -/

structure PinnedAddress where
  address : JsString
  family : Nat
  deriving DecidableEq

/-- Where a request may connect to. -/
inductive Connect where
  /-- `options.hostname` is the pin. -/
  | pinned (address : PinnedAddress)
  /-- `options.lookup` serves these. -/
  | lookup (pinned : List PinnedAddress)
  /-- Neither: the host of the URL. -/
  | url

structure Request where
  url : JsString
  connect : Connect
  headers : JsMap String JsString
  body : JsString

/-- Why a gate refuses. -/
inductive Reason where
  | checked (reason : SafeUrl.Reason)
  | validateUrlError
  | validateUrlRejected

inductive RedirectReason where
  | noLocation
  | badLocation
  | badScheme
  | downgrade

inductive Err where
  /-- What a callback or a hook throws. -/
  | thrown
  | urlNotString
  | unserialisable
  | idempotencyKey
  | gate (reason : Reason)
  | redirectLoop
  | redirect (reason : RedirectReason)
  | tooManyRedirects (maxRedirects : Nat)
  | admissionDenied (destination : JsString)
  | status (status : Nat)
  | timeout
  | noAddress
  /-- A connection that failed with a code that lets another address be tried. -/
  | refused
  | network

inductive Op where
  | transform
  | url
  | guard
  | success
  | failure (err : Err)
  | idempotencyKey
  | validateUrl (url : JsString)
  | resolve (hostname : JsString)
  | admission (destination : JsString)
  | budget
  | http (request : Request)
  | sleep

/-- What is answered; an error where a callback rejects or times out. -/
@[reducible] def Ans (P : Type) : Op → Type
  /- none for null or undefined -/
  | .transform => Except Err (Option P)
  /- none for what is not a string -/
  | .url => Except Err (Option JsString)
  | .guard => Except Err Unit
  | .success => Except Err Unit
  | .failure _ => Except Err Unit
  /- none for null or undefined -/
  | .idempotencyKey => Except Err (Option JsString)
  | .validateUrl _ => Except Err Bool
  /- an entry that is an object goes by its address -/
  | .resolve _ => Except Err Resolved
  /- it refuses: `false` or `0` -/
  | .admission _ => Bool
  /- the retry may proceed -/
  | .budget => Bool
  /- the status, and the `location` header -/
  | .http _ => Except Err (Nat × Option JsString)
  | .sleep => Unit

/-! ## state -/

structure CachedPin (N : Type) where
  expires : N
  pinned : List PinnedAddress

/-- What a hop did. -/
structure Hop where
  url : JsString
  /-- The gate passed, with the addresses that it pinned. -/
  gate : Option (Option (List PinnedAddress))
  /-- The requests of each attempt; the newest first. -/
  attempts : List (List Request)

structure World (N : Type) where
  /-- The pins of the config, by name and by whether they are range-checked. -/
  pins : JsMap (JsString × Bool) (CachedPin N)
  now : N
  monotonicNow : N
  /-- `String(Math.floor(wallEpoch() / 1000))`. -/
  seconds : JsString
  /-- The newest first. -/
  hops : List Hop

variable {N P : Type}

def beginHop (url : JsString) (w : World N) : World N :=
  { w with hops := { url, gate := none, attempts := [] } :: w.hops }

/-- The newest hop changes. -/
def onHop (f : Hop → Hop) (w : World N) : World N :=
  match w.hops with
  | [] => w
  | hop :: hops => { w with hops := f hop :: hops }

def Hop.pass (pinned : Option (List PinnedAddress)) (hop : Hop) : Hop := { hop with gate := some pinned }

def Hop.attempt (hop : Hop) : Hop := { hop with attempts := [] :: hop.attempts }

def Hop.request (request : Request) (hop : Hop) : Hop :=
  { hop with
    attempts := match hop.attempts with
      | [] => []
      | requests :: attempts => (request :: requests) :: attempts }

abbrev Delivery (N P α : Type) := Prog (World N) Op (Ans P) α

/-! ## the pin -/

/-- `pinnedLookup(pinned)`, asked for all addresses or for one of a family, 0 for any. -/
def pinnedLookup (pinned : List PinnedAddress) (all : Bool) (family : Nat) : List PinnedAddress :=
  if all then pinned
  else if family ≠ 0 then (pinned.find? fun a => decide (a.family = family)).toList
  else pinned.head?.toList

/-- `PIN_CACHE_DEFAULT_MS`. -/
def pinCacheDefaultMs : Nat := 30000

/-- `PIN_CACHE_MAX_ENTRIES`. -/
def pinCacheMaxEntries : Nat := 256

/-- `MAX_PINNED_ADDRESSES`. -/
def maxPinnedAddresses : Nat := 32

/-- `/^\d{1,3}(\.\d{1,3}){3}$/`. -/
def isDotted (host : JsString) : Bool :=
  let parts := host.splitOn (unit '.')
  decide (parts.length = 4) && parts.all fun p => decide (1 ≤ p.length ∧ p.length ≤ 3) && p.all isDigit

def isIpLiteral (host : JsString) : Bool := decide (host.head? = some (unit '[')) || isDotted host

section

variable [Number N]

/-- How long a pin is kept. -/
def cacheMs (c : Config N) : N :=
  c.pinCacheMs.getD (if c.resolve then 0 else (pinCacheDefaultMs : N))

def pinOne (p : Platform) (rangeCheck : Bool) : Answer → Except Reason PinnedAddress
  | .other => .error (.checked .unresolvedHost)
  | .str address =>
    if address.length = 0 then .error (.checked .unresolvedHost)
    else
      let address := if address.head? = some (unit '[') ∧ address.getLast? = some (unit ']') then
        inner address else address
      let address := address.takeWhile (· ≠ unit '%')
      let probe := if unit ':' ∈ address then js "http://[" ++ address ++ js "]/"
        else js "http://" ++ address ++ js "/"
      match p.newUrl probe with
      | none => .error (.checked .unresolvedHost)
      | some u =>
        if !isIpLiteral u.hostname then .error (.checked .unresolvedHost)
        else
          match if rangeCheck then classifyAddress p.lc u.hostname none else none with
          | some reason => .error (.checked reason)
          | none =>
            .ok (if u.hostname.head? = some (unit '[') then ⟨inner u.hostname, 6⟩ else ⟨u.hostname, 4⟩)

/-- All of them, or the first reason. -/
def pinAll (p : Platform) (rangeCheck : Bool) (answers : List Answer) :
    Except Reason (List PinnedAddress) :=
  if answers.length = 0 then .error (.checked .unresolvedHost) else answers.mapM (pinOne p rangeCheck)

/-- A pin is cached, and the oldest makes room. -/
def cachePin (c : Config N) (key : JsString × Bool) (pinned : List PinnedAddress) (w : World N) : World N :=
  if cacheMs c > 0 then
    let pins := if w.pins.size ≥ pinCacheMaxEntries then
      (match w.pins.keys.head? with
        | some oldest => w.pins.delete oldest
        | none => w.pins) else w.pins
    { w with pins := pins.set key { expires := w.now + cacheMs c, pinned } }
  else w

def cachedPin (c : Config N) (key : JsString × Bool) (w : World N) : Option (CachedPin N) :=
  if cacheMs c > 0 then w.pins.get? key else none

/-- Resolve a name that is not cached. -/
def resolveFresh (p : Platform) (c : Config N) (hostname : JsString) (rangeCheck : Bool) :
    Delivery N P (Except Reason (List PinnedAddress)) := do
  let raw : Except Err Resolved ← Prog.ask (Op.resolve hostname)
  match raw with
  | .error _ => pure (.error (.checked .unresolvedHost))
  | .ok raw =>
    match pinAll p rangeCheck raw.addresses with
    | .error reason => pure (.error reason)
    | .ok pinned => do
        let capped := pinned.take maxPinnedAddresses
        Prog.modify (cachePin c (hostname, rangeCheck) capped)
        pure (.ok capped)

/-- `resolveAndPin(hostname, config, rangeCheck)`. -/
def resolveAndPin (p : Platform) (c : Config N) (hostname : JsString) (rangeCheck : Bool) :
    Delivery N P (Except Reason (List PinnedAddress)) := do
  let w ← Prog.get
  match cachedPin c (hostname, rangeCheck) w with
  | none => resolveFresh p c hostname rangeCheck
  | some hit =>
    if hit.expires > w.now then pure (.ok hit.pinned)
    else do
      Prog.modify fun w => { w with pins := w.pins.delete (hostname, rangeCheck) }
      resolveFresh p c hostname rangeCheck

/-! ## the gate -/

/-- What `validateUrl` says of a URL, if there is one. -/
def validate (c : Config N) (url : JsString) : Delivery N P (Option Reason) :=
  if c.validateUrl then do
    let ok : Except Err Bool ← Prog.ask (Op.validateUrl url)
    match ok with
    | .error _ => pure (some .validateUrlError)
    | .ok false => pure (some .validateUrlRejected)
    | .ok true => pure none
  else pure none

/-- `ssrfGate(url, config)`: the addresses that are pinned, none for an IP literal. -/
def ssrfGate (p : Platform) (c : Config N) (url : JsString) :
    Delivery N P (Except Reason (Option (List PinnedAddress))) :=
  let base := checkUrl p.env url { mode := c.urlMode, allow := c.allow }
  if !base.safe then pure (.error (.checked (base.reason.getD .parseError)))
  else do
    let refusal ← validate c url
    match refusal with
    | some reason => pure (.error reason)
    | none =>
      match p.newUrl url with
      | none => pure (.error (.checked .parseError))
      | some u =>
        if isIpLiteral u.hostname then pure (.ok none)
        else do
          let pin ← resolveAndPin p c u.hostname (decide (c.urlMode ≠ .off))
          match pin with
          | .error reason => pure (.error reason)
          | .ok pinned => pure (.ok (some pinned))

/-- `resolveRedirect(currentUrl, location)`. -/
def resolveRedirect (p : Platform) (currentUrl : JsString) (location : Option JsString) :
    Except RedirectReason JsString :=
  match location with
  | none => .error .noLocation
  | some location =>
    if location.length = 0 then .error .noLocation
    else
      match p.resolveUrl location currentUrl with
      | none => .error .badLocation
      | some next =>
        if next.protocol ≠ js "http:" ∧ next.protocol ≠ js "https:" then .error .badScheme
        else if ((p.newUrl currentUrl).any fun cur => decide (cur.protocol = js "https:")) &&
            decide (next.protocol = js "http:") then .error .downgrade
        else .ok next.href

/-! ## a request -/

/-- A request is sent, and is the newest of its attempt. -/
def send (request : Request) : Delivery N P (Except Err (Nat × Option JsString)) := do
  Prog.modify (onHop (Hop.request request))
  Prog.ask (Op.http request)

/-- `{ ...headers, host: parsed.host }`, unless there is one. -/
def withHost (p : Platform) (url : JsString) (headers : JsMap String JsString) : JsMap String JsString :=
  match p.newUrl url with
  | none => headers
  | some u => if headers.keys.any fun name => name.toLower = "host" then headers else headers.set "host" u.host

/-- Try the addresses of a pin, while only connections fail. -/
def tryAddresses (p : Platform) (url : JsString) (headers : JsMap String JsString) (body : JsString)
    (deadline : N) : Err → List PinnedAddress → Delivery N P (Except Err (Nat × Option JsString))
  | lastError, [] => pure (.error lastError)
  | _, address :: addresses => do
      let w ← Prog.get
      if deadline - w.monotonicNow ≤ 0 then pure (.error .timeout)
      else do
        let r ← send { url, connect := .pinned address, headers := withHost p url headers, body }
        match r with
        | .error .refused => tryAddresses p url headers body deadline .refused addresses
        | r => pure r

/-- `httpDeliver(url, lookup, headers, body, timeoutMs)`. -/
def httpDeliver (p : Platform) (c : Config N) (url : JsString) (pinned : Option (List PinnedAddress))
    (headers : JsMap String JsString) (body : JsString) : Delivery N P (Except Err (Nat × Option JsString)) :=
  match pinned with
  | none => send { url, connect := .url, headers, body }
  | some pinned =>
    if p.bun then do
      let w ← Prog.get
      tryAddresses p url headers body (w.monotonicNow + c.timeoutMs) .noAddress
        (pinnedLookup pinned true 0)
    else send { url, connect := .lookup pinned, headers, body }

/-- `CROSS_ORIGIN_STRIPPED_HEADERS`. -/
def crossOriginStrippedHeaders : List String :=
  ["x-webhook-signature", "x-webhook-timestamp", "idempotency-key"]

/-- `headersForHop(hopUrl, initialOrigin, headers)`. -/
def headersForHop (p : Platform) (hopUrl : JsString) (initialOrigin : Option JsString)
    (headers : JsMap String JsString) : JsMap String JsString :=
  let origin := (p.newUrl hopUrl).map Url.origin
  if origin.isSome ∧ initialOrigin.isSome ∧ origin = initialOrigin then headers
  else crossOriginStrippedHeaders.foldl JsMap.delete headers

/-! ## attempts -/

inductive AttemptResult where
  | delivered
  | redirect (location : Option JsString)
  | failed (err : Err) (attempts : Nat)

/-- What an answer means: the result, or the error to retry after. -/
def verdictOf (attempt : Nat) : Except Err (Nat × Option JsString) → Except Err AttemptResult
  | .error err => .error err
  | .ok (status, location) =>
    if 200 ≤ status ∧ status < 300 then .ok .delivered
    else if 300 ≤ status ∧ status < 400 then .ok (.redirect location)
    else if 400 ≤ status ∧ status < 500 ∧ status ≠ 429 then .ok (.failed (.status status) (attempt + 1))
    else .error (.status status)

def mayRetry (h : Hooks) : Delivery N P Bool := if h.budget then Prog.ask Op.budget else pure true

def attemptFrom (p : Platform) (c : Config N) (h : Hooks) (url : JsString)
    (pinned : Option (List PinnedAddress)) (headers : JsMap String JsString) (body : JsString) :
    Nat → Nat → Err → Delivery N P AttemptResult
  | 0, attempt, lastErr => pure (.failed lastErr attempt)
  | left + 1, attempt, _ => do
      Prog.modify (onHop Hop.attempt)
      let r ← httpDeliver p c url pinned headers body
      match verdictOf attempt r with
      | .ok result => pure result
      | .error lastErr =>
        if left = 0 then pure (.failed lastErr (attempt + 1))
        else do
          let allowed ← mayRetry h
          if !allowed then pure (.failed lastErr (attempt + 1))
          else do
            let _ : Unit ← Prog.ask Op.sleep
            attemptFrom p c h url pinned headers body left (attempt + 1) lastErr

/-- `retry.attempts`, if it is positive, or 3. -/
def maxAttempts (c : Config N) : Nat :=
  match c.attempts with
  | some (n + 1) => n + 1
  | _ => 3

/-- `attemptDelivery(url, lookup, headers, body, config, hooks)`. -/
def attemptDelivery (p : Platform) (c : Config N) (h : Hooks) (url : JsString)
    (pinned : Option (List PinnedAddress)) (headers : JsMap String JsString) (body : JsString) :
    Delivery N P AttemptResult :=
  attemptFrom p c h url pinned headers body (maxAttempts c) 0 .network

/-! ## hops -/

inductive Outcome where
  | ok
  | failed (err : Err) (attempts : Nat)

/-- `destinationsOf(url, pinned)`. -/
def destinationsOf (p : Platform) (url : JsString) (pinned : Option (List PinnedAddress)) : List JsString :=
  match p.newUrl url with
  | none => []
  | some u =>
    let port := if u.port.length ≠ 0 then u.port else if u.protocol = js "https:" then js "443" else js "80"
    let key (address : JsString) : JsString :=
      (if unit ':' ∈ address then js "[" ++ address ++ js "]" else address) ++ js ":" ++ port
    let addresses := match pinned with
      | some (first :: rest) => (first :: rest).map PinnedAddress.address
      | _ => [if u.hostname.head? = some (unit '[') then inner u.hostname else u.hostname]
    (addresses.map key).dedup.insertionSort fun a b => decide (a ≤ b)

/-- Ask the admission of each destination; the first that it denies. -/
def takeAdmission : List JsString → Delivery N P (Option JsString)
  | [] => pure none
  | destination :: destinations => do
      let refused : Bool ← Prog.ask (Op.admission destination)
      if refused then pure (some destination) else takeAdmission destinations

/-- The destination that the admission denies, if it is asked: nothing was seen before the first hop. -/
def deniedOf (h : Hooks) (seen destinations : List JsString) : Delivery N P (Option JsString) :=
  if h.admission ∧ seen = [] then takeAdmission destinations else pure none

/-- `maxRedirects`, or 5. -/
def maxRedirects (c : Config N) : Nat := c.maxRedirects.getD 5

def hopsFrom (p : Platform) (c : Config N) (h : Hooks) (initialOrigin : Option JsString)
    (headers : JsMap String JsString) (body : JsString) : Nat → List JsString → JsString → Delivery N P Outcome
  | 0, _, _ => pure (.failed (.tooManyRedirects (maxRedirects c)) 0)
  | left + 1, seen, url =>
    if url ∈ seen then pure (.failed .redirectLoop 0)
    else do
      Prog.modify (beginHop url)
      let gate ← ssrfGate p c url
      match gate with
      | .error reason => pure (.failed (.gate reason) 0)
      | .ok pinned => do
          Prog.modify (onHop (Hop.pass pinned))
          let denied ← deniedOf h seen (destinationsOf p url pinned)
          match denied with
          | some destination => pure (.failed (.admissionDenied destination) 0)
          | none => do
              let result ← attemptDelivery p c h url pinned (headersForHop p url initialOrigin headers) body
              match result with
              | .delivered => pure .ok
              | .failed err attempts => pure (.failed err attempts)
              | .redirect location =>
                match resolveRedirect p url location with
                | .error reason => pure (.failed (.redirect reason) 0)
                | .ok next => hopsFrom p c h initialOrigin headers body left (url :: seen) next

/-- `deliverToUrl(initialUrl, headers, body, config, hooks)`. -/
def deliverToUrl (p : Platform) (c : Config N) (h : Hooks) (initialUrl : JsString)
    (headers : JsMap String JsString) (body : JsString) : Delivery N P Outcome :=
  let parsed := p.newUrl initialUrl
  hopsFrom p c h (parsed.map Url.origin) headers body (maxRedirects c + 1) []
    ((parsed.map Url.href).getD initialUrl)

/-! ## the delivery -/

/-- `injectTraceContext(headers, context)`, of one that is well formed. -/
def injectTraceContext (headers : JsMap String JsString) :
    Option (JsString × Option JsString) → JsMap String JsString
  | none => headers
  | some (traceparent, tracestate) =>
    let headers := headers.set "traceparent" traceparent
    match tracestate with
    | none => headers
    | some tracestate => headers.set "tracestate" tracestate

def idempotencyKeyOf (p : Platform) (c : Config N) (topic event body : JsString) :
    Delivery N P (Except Err (Option JsString)) :=
  if c.idempotencyKey then Prog.ask Op.idempotencyKey
  else
    let material := topic ++ [0] ++ event ++ [0] ++ body
    pure (.ok (some (match c.secret with
      | some secret => p.hmac secret (js "idem" ++ [0] ++ material)
      | none => p.sha256 material)))

/-- The idempotency key goes into the headers; none where it may not. -/
def withIdempotencyKey (headers : JsMap String JsString) : Option JsString → Option (JsMap String JsString)
  | none => some headers
  | some key =>
    if (key.any fun u => decide (u = 13 ∨ u = 10 ∨ u = 0)) || decide (key.length > 256) then none
    else some (headers.set "idempotency-key" key)

def withSignature (p : Platform) (c : Config N) (seconds body : JsString) (headers : JsMap String JsString) :
    JsMap String JsString :=
  match c.secret with
  | none => headers
  | some secret =>
    let signed := seconds ++ js "." ++ body
    let signature := js "sha256=" ++ p.hmac secret signed
    let signature := match c.previousSecret with
      | none => signature
      | some previous => signature ++ js ",sha256=" ++ p.hmac previous signed
    (headers.set "x-webhook-timestamp" seconds).set "x-webhook-signature" signature

/-- The breaker is told of an outcome. -/
def record (h : Hooks) (outcome : Outcome) : Delivery N P Outcome :=
  if h.breaker then
    match outcome with
    | .ok => do
        let r : Except Err Unit ← Prog.ask Op.success
        match r with
        | .error err => pure (.failed err 0)
        | .ok _ => pure outcome
    | .failed err attempts =>
      if attempts > 0 then do
        let r : Except Err Unit ← Prog.ask (Op.failure err)
        match r with
        | .error err => pure (.failed err 0)
        | .ok _ => pure outcome
      else pure outcome
  else pure outcome

/-- What follows once the breaker lets a delivery through. -/
def deliverGuarded (p : Platform) (c : Config N) (h : Hooks) (stringify : P → Option JsString)
    (topic event url : JsString) (payload : P) : Delivery N P Outcome :=
  match stringify payload with
  | none => pure (.failed .unserialisable 0)
  | some body => do
      let headers := injectTraceContext (JsMap.empty.set "content-type" (js "application/json")) h.traceContext
      let idem ← idempotencyKeyOf p c topic event body
      match idem with
      | .error err => pure (.failed err 0)
      | .ok idem =>
        match withIdempotencyKey headers idem with
        | none => pure (.failed .idempotencyKey 0)
        | some headers => do
            let w ← Prog.get
            let outcome ← deliverToUrl p c h url (withSignature p c w.seconds body headers) body
            record h outcome

/-- The breaker's gate, if there is a breaker. -/
def guard (h : Hooks) : Delivery N P (Except Err Unit) :=
  if h.breaker then Prog.ask Op.guard else pure (.ok ())

/-- The payload, none where the transform opted out. -/
def payloadOf (c : Config N) (payload : P) : Delivery N P (Except Err (Option P)) :=
  if c.transform then Prog.ask Op.transform else pure (.ok (some payload))

def urlOf (c : Config N) : Delivery N P (Except Err (Option JsString)) :=
  if c.urlCallback then Prog.ask Op.url else pure (.ok c.url)

/-- `deliverWebhook(config, topic, event, data, hooks)`, of the payload `{ event, data }`. -/
def deliverWebhook (p : Platform) (c : Config N) (h : Hooks) (stringify : P → Option JsString)
    (topic event : JsString) (payload : P) : Delivery N P Outcome := do
  let payload ← payloadOf c payload
  match payload with
  | .error err => pure (.failed err 0)
  | .ok none => pure .ok
  | .ok (some payload) => do
      let url ← urlOf c
      match url with
      | .error err => pure (.failed err 0)
      | .ok none => pure (.failed .urlNotString 0)
      | .ok (some url) =>
        if url.length = 0 then pure (.failed .urlNotString 0)
        else do
          let gate ← guard h
          match gate with
          | .error err => pure (.failed err 0)
          | .ok _ => deliverGuarded p c h stringify topic event url payload

end

end BunServe.Webhooks
