import BunServe.Lib.JsMap
import BunServe.Lib.Machine
import Mathlib.Order.Defs.LinearOrder

/-!
# BunServe.RateLimit

The buckets of `plugins/ratelimit/server.js`: how a call of `consume` and an admin
call name a bucket, and what they do to it.

Numbers are a linear order with the operations the code applies to them, none of
which is assumed to obey a law.  A key function, an address and a `tenant` resolver
are asked at each call, so their answers are part of the call; the attribution of a
connection does not change, so it is a function of the connection.

A bucket has an `id`, its place in memory, and each call of `consume` is recorded with
the bucket it drew from.  An eviction at `maxBuckets` is not a step.
-/

namespace BunServe.RateLimit

abbrev Conn := Nat

/-! ## options -/

inductive KeyBy where
  | ip
  | connection
  | function
  deriving DecidableEq

inductive Budget where
  | principal
  | tenant
  deriving DecidableEq

/-- Numbers, and what the code does with them. -/
class Number (N : Type) extends LinearOrder N, Add N, Sub N, Zero N, NatCast N

variable {N : Type} [Number N]

/-- `RateLimitOptions`. -/
structure Options (N : Type) where
  points : N
  interval : N
  blockDuration : N
  keyBy : KeyBy
  /-- A `tenant` resolver is set. -/
  tenant : Bool
  budget : Budget
  maxBuckets : Nat

/-! ## state -/

structure Bucket (N : Type) where
  points : N
  resetAt : N
  bannedUntil : N
  id : Nat

structure ConsumeResult (N : Type) where
  allowed : Bool
  remaining : N
  resetMs : N
  deriving DecidableEq

/-- What a call of `consume` drew. -/
structure Drawn (N : Type) where
  key : String
  bucket : Nat
  result : ConsumeResult N

/-- A call of `consume`; what it drew is none where it threw. -/
structure Draw (N : Type) where
  ws : Conn
  tenant : Option String
  drawn : Option (Drawn N)

structure State (N : Type) where
  buckets : JsMap String (Bucket N)
  wsKeys : JsMap Conn String
  connCounter : Nat
  nextBucket : Nat
  /-- The latest reading of the clock. -/
  clock : N
  /-- The calls of `consume`, newest first. -/
  draws : List (Draw N)

def State.init : State N where
  buckets := .empty
  wsKeys := .empty
  connCounter := 0
  nextBucket := 0
  clock := 0
  draws := []

/-! ## naming a bucket -/

def truthy (tenantId : Option String) : Option String := tenantId.filter fun id => decide (id ≠ "")

/-- `id.indexOf('\0') !== -1`. -/
def hasNul (id : String) : Bool := decide ('\x00' ∈ id.toList)

def keyOf (budget : Budget) (tenant : Option String) (rawKey : String) : String :=
  match budget, tenant with
  | .tenant, some id => id
  | .principal, some id => id ++ "\x00" ++ rawKey
  | _, none => rawKey

/-- `bucketKey(rawKey, tenantId)`; none where it throws. -/
def bucketKey (budget : Budget) (rawKey : String) (tenantId : Option String) : Option String :=
  if (truthy tenantId).any hasNul then none
  else if budget = .tenant ∧ truthy tenantId = none then none
  else some (keyOf budget (truthy tenantId) rawKey)

/-- `'__conn:' + n`. -/
def connKey (n : Nat) : String := "__conn:" ++ Nat.repr n

section

variable (o : Options N) (attribution : Conn → Option String)

/-- What `consume` takes for the tenant id of a connection. -/
def Options.tenantId (ws : Conn) (answer : Option String) : Option String :=
  if o.tenant then answer else attribution ws

/-- `resolveRawKey(ws)`. -/
def resolveRawKey (s : State N) (ws : Conn) (rawKey : String) : String × State N :=
  if o.keyBy = .connection then
    match s.wsKeys.get? ws with
    | some k => (k, s)
    | none =>
      let k := connKey (s.connCounter + 1)
      (k, { s with connCounter := s.connCounter + 1, wsKeys := s.wsKeys.set ws k })
  else (rawKey, s)

/-- `principalBucketKey(ws)`. -/
def principalBucketKey (s : State N) (ws : Conn) (rawKey : String) (answer : Option String) :
    Option String × State N :=
  if o.tenant then
    let r := resolveRawKey o s ws rawKey
    (bucketKey o.budget r.1 answer, r.2)
  else if o.keyBy = .connection then
    match s.wsKeys.get? ws with
    | some k => (some k, s)
    | none =>
      let s := { s with connCounter := s.connCounter + 1 }
      match bucketKey o.budget (connKey s.connCounter) (attribution ws) with
      | none => (none, s)
      | some k => (some k, { s with wsKeys := s.wsKeys.set ws k })
  else (bucketKey o.budget rawKey (attribution ws), s)

/-- The key that `consume` draws from. -/
def consumeKey (s : State N) (ws : Conn) (rawKey : String) (answer : Option String) :
    Option String × State N :=
  if o.budget = .tenant then (bucketKey o.budget "" (o.tenantId attribution ws answer), s)
  else principalBucketKey o attribution s ws rawKey answer

/-- `adminBucketKey(key, tenantId)`. -/
def adminBucketKey (key : String) (tenantId : Option String) : Option String :=
  if o.budget = .tenant then bucketKey o.budget "" tenantId else bucketKey o.budget key tenantId

/-! ## the buckets -/

/-- `bucket.resetAt <= t && bucket.bannedUntil <= t`. -/
def Bucket.expired (t : N) (b : Bucket N) : Bool := decide (b.resetAt ≤ t ∧ b.bannedUntil ≤ t)

/-- `cleanup(t)`. -/
def cleanup (s : State N) (t : N) : State N :=
  if s.buckets.size ≤ 1000 then s
  else { s with buckets := s.buckets.filter fun k => !(s.buckets.get? k).any (Bucket.expired t) }

def freshBucket (points t : N) (id : Nat) : Bucket N where
  points
  resetAt := t + o.interval
  bannedUntil := 0
  id

/-- Refill if the interval elapsed. -/
def Bucket.refill (b : Bucket N) (t : N) : Bucket N :=
  if b.resetAt ≤ t then { b with points := o.points, resetAt := t + o.interval } else b

/-- What `consume` does with its bucket. -/
def Bucket.draw (b : Bucket N) (cost t : N) : ConsumeResult N × Bucket N :=
  if t < b.bannedUntil then
    ({ allowed := false, remaining := 0, resetMs := b.bannedUntil - t }, b)
  else
    let b := b.refill o t
    if cost ≤ b.points then
      let b := { b with points := b.points - cost }
      ({ allowed := true, remaining := b.points, resetMs := b.resetAt - t }, b)
    else if 0 < o.blockDuration then
      ({ allowed := false, remaining := 0, resetMs := o.blockDuration },
        { b with bannedUntil := t + o.blockDuration })
    else ({ allowed := false, remaining := max 0 b.points, resetMs := b.resetAt - t }, b)

/-- The bucket of a key, with one of these points made where there is none. -/
def bucketAt (s : State N) (key : String) (points t : N) : Bucket N :=
  (s.buckets.get? key).getD (freshBucket o points t s.nextBucket)

/-- Put it back. -/
def store (s : State N) (key : String) (b : Bucket N) : State N :=
  { s with
    buckets := s.buckets.set key b
    nextBucket := if s.buckets.has key then s.nextBucket else s.nextBucket + 1 }

/-- An insert would evict. -/
def full (s : State N) (key : String) : Bool :=
  !s.buckets.has key && decide (s.buckets.size ≥ o.maxBuckets)

/-- `consume(ws, cost)` once it has its key; none where it evicts. -/
def drawFrom (s : State N) (key : String) (cost t : N) : Option (Drawn N × State N) :=
  let s := cleanup s t
  if full o s key then none
  else
    let b := bucketAt o s key o.points t
    let r := b.draw o cost t
    some ({ key, bucket := b.id, result := r.1 }, store s key r.2)

/-! ## the calls -/

inductive Action (N : Type) where
  /-- `consume(ws, cost)`: a cost that is a finite number, what the key function or the
  address gives, what the `tenant` resolver answers, and `now()`. -/
  | consume (ws : Conn) (cost : Option N) (rawKey : String) (answer : Option String) (t : N)
  | reset (key : String) (tenantId : Option String)
  | ban (key : String) (duration : Option N) (tenantId : Option String) (t : N)
  | unban (key : String) (tenantId : Option String)
  | clear (tenantId : Option String)

/-- `consume` throws. -/
def State.threw (s : State N) (ws : Conn) (tenant : Option String) : State N :=
  { s with draws := ⟨ws, tenant, none⟩ :: s.draws }

/-- `consume(ws, cost)`. -/
def consume (s : State N) (ws : Conn) (cost : Option N) (rawKey : String) (answer : Option String)
    (t : N) : Option (State N) :=
  let tenant := truthy (o.tenantId attribution ws answer)
  match cost.filter fun cost => decide (0 ≤ cost) with
  | none => some (s.threw ws tenant)
  | some cost =>
    match consumeKey o attribution s ws rawKey answer with
    | (none, s) => some (s.threw ws tenant)
    | (some key, s) =>
      (drawFrom o { s with clock := t } key cost t).map fun r =>
        { r.2 with draws := ⟨ws, tenant, some r.1⟩ :: r.2.draws }

/-- `reset(key, tenantId)`. -/
def reset (s : State N) (key : String) (tenantId : Option String) : State N :=
  match adminBucketKey o key tenantId with
  | none => s
  | some bk => { s with buckets := s.buckets.delete bk }

/-- `duration ?? (blockDuration || 60000)`. -/
def banDuration (duration : Option N) : N :=
  duration.getD (if o.blockDuration = 0 then ((60000 : Nat) : N) else o.blockDuration)

/-- `ban(key, duration, tenantId)`. -/
def ban (s : State N) (key : String) (duration : Option N) (tenantId : Option String) (t : N) :
    Option (State N) :=
  let s := { s with clock := t }
  match adminBucketKey o key tenantId with
  | none => some s
  | some bk =>
    if full o s bk then none
    else some (store s bk { bucketAt o s bk 0 t with bannedUntil := t + banDuration o duration })

/-- `unban(key, tenantId)`. -/
def unban (s : State N) (key : String) (tenantId : Option String) : State N :=
  match adminBucketKey o key tenantId with
  | none => s
  | some bk =>
    match s.buckets.get? bk with
    | none => s
    | some b => { s with buckets := s.buckets.set bk { b with bannedUntil := 0 } }

/-- `clear(tenantId)`. -/
def clear (s : State N) (tenantId : Option String) : State N :=
  match truthy tenantId with
  | some id =>
    let buckets := if o.budget = .tenant then s.buckets.delete id else s.buckets
    { s with buckets := buckets.filter fun k => !(id ++ "\x00").toList.isPrefixOf k.toList }
  | none => { s with buckets := .empty, connCounter := 0 }

def next (s : State N) : Action N → Option (State N)
  | .consume ws cost rawKey answer t => consume o attribution s ws cost rawKey answer t
  | .reset key tenantId => some (reset o s key tenantId)
  | .ban key duration tenantId t => ban o s key duration tenantId t
  | .unban key tenantId => some (unban o s key tenantId)
  | .clear tenantId => some (clear o s tenantId)

/-- A limiter. -/
def machine : Machine (State N) (Action N) where
  init := .init
  next := next o attribution

end

end BunServe.RateLimit
