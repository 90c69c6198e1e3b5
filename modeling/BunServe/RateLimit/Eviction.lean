import Mathlib.Data.Rat.Defs
import Mathlib.Algebra.Order.Ring.Unbundled.Rat
import Mathlib.Order.WithBot
import BunServe.Lib.Rotation
import BunServe.Lib.Machine
import BunServe.RateLimit

/-!
# BunServe.RateLimit.Eviction

The buckets of `plugins/ratelimit/server.js` at their bound: `evictOne` and the
cursor it rotates, the ban order, and what `consume`, `ban` and the admin calls
do to the map, once a call has named its bucket.

Numbers are exact.  The clock is the wall clock, whose readings are not negative
but may go back.  A run keeps a record that no function reads: the keys that were
banned, newest first; what each key has drawn since its window began; and the
evictions, each with the entries it sampled.
-/

namespace BunServe.RateLimit.Eviction

/-- The options that `createRateLimit` accepts. -/
structure Options where
  points : Nat
  interval : ℚ
  blockDuration : ℚ
  budget : Budget
  maxBuckets : Nat
  evictionSample : Nat
  points_pos : 0 < points
  interval_pos : 0 < interval
  blockDuration_nonneg : 0 ≤ blockDuration
  maxBuckets_pos : 0 < maxBuckets
  evictionSample_pos : 0 < evictionSample

structure Bucket where
  points : ℚ
  resetAt : ℚ
  bannedUntil : ℚ
  prev : ℚ
  banSeq : Nat

/-- The map with the cursor over it, and the count of bans placed. -/
structure Limiter where
  buckets : Rotation String Bucket
  banSeq : Nat

def createRateLimit : Limiter := { buckets := .empty, banSeq := 0 }

/-- Serving a ban. -/
def Bucket.banned (b : Bucket) (t : ℚ) : Bool := t < b.bannedUntil

/-- `bucket.resetAt <= t && bucket.bannedUntil <= t`. -/
def Bucket.expired (b : Bucket) (t : ℚ) : Bool := decide (b.resetAt ≤ t) && decide (b.bannedUntil ≤ t)

/-- `cleanup(t)`: a sweep that freed something gives the cursor up. -/
def cleanup (l : Limiter) (t : ℚ) : Limiter :=
  if l.buckets.map.size ≤ 1000 then l
  else if l.buckets.map.values.any (·.expired t) then
    let kept := l.buckets.map.filter fun k => !(l.buckets.map.get? k).any (·.expired t)
    { l with buckets := { map := kept, cursor := none, inside := fun _ h => by cases h } }
  else l

/-- `activity(bucket, t)`. -/
def activity (o : Options) (b : Bucket) (t : ℚ) : ℚ :=
  let drawn := o.points - b.points
  if t < b.resetAt then drawn + b.prev
  else if t < b.resetAt + o.interval then drawn
  else 0

/-- The variables of `evictOne`'s loop; `bannedSeq` starts at -1. -/
structure Sample where
  victim : Option String
  victimScore : WithTop ℚ
  victimExpired : Bool
  bannedVictim : Option String
  bannedSeq : Int

def Sample.start : Sample :=
  { victim := none, victimScore := ⊤, victimExpired := false, bannedVictim := none, bannedSeq := -1 }

/-- An unbanned candidate. -/
def Sample.consider (s : Sample) (k : String) (score : ℚ) (expired : Bool) : Sample :=
  if (score : WithTop ℚ) < s.victimScore ∨
      ((score : WithTop ℚ) = s.victimScore ∧ expired = true ∧ s.victimExpired = false) then
    { s with victim := some k, victimScore := score, victimExpired := expired }
  else s

/-- A banned candidate: the most recently placed ban of the sample. -/
def Sample.considerBanned (s : Sample) (k : String) (banSeq : Nat) : Sample :=
  if s.bannedSeq < banSeq then { s with bannedVictim := some k, bannedSeq := banSeq } else s

/-- The body of the loop of `evictOne`. -/
def sampling (o : Options) (t : ℚ) : Policy Sample String Bucket where
  opened s := s
  closed s := s
  visit s k b :=
    if b.banned t then { state := s.considerBanned k b.banSeq, drop := false, stop := false }
    else
      let score := activity o b t
      let expired := decide (b.resetAt ≤ t)
      { state := s.consider k score expired, drop := false, stop := decide (score = 0) && expired }

/-- The walk of `evictOne`. -/
def sample (o : Options) (l : Limiter) (t : ℚ) : Walk Sample String Bucket :=
  l.buckets.walk (sampling o t) o.evictionSample .start

/-- An eviction: the bucket that was dropped, whether it was serving a ban, and
the entries that were sampled. -/
structure Evicted where
  key : String
  banned : Bool
  sampled : List (String × Bucket)
  time : ℚ

/-- `evictOne(t)`. -/
def evictOne (o : Options) (l : Limiter) (t : ℚ) : Option Evicted × Limiter :=
  let w := sample o l t
  match w.state.victim with
  | some k =>
    (some { key := k, banned := false, sampled := w.seen, time := t },
      { l with buckets := w.rot.delete k })
  | none =>
    match w.state.bannedVictim with
    | some k =>
      (some { key := k, banned := true, sampled := w.seen, time := t },
        { l with buckets := w.rot.delete k })
    | none => (none, { l with buckets := w.rot })

/-- A key's bucket, with one of these points made where there is none. -/
def bucketFor (o : Options) (l : Limiter) (key : String) (points t : ℚ) :
    Bucket × Option Evicted × Limiter :=
  match l.buckets.map.get? key with
  | some b => (b, none, l)
  | none =>
    let (evicted, l) :=
      if l.buckets.map.size ≥ o.maxBuckets then evictOne o l t else (none, l)
    let b : Bucket := { points, resetAt := t + o.interval, bannedUntil := 0, prev := 0, banSeq := 0 }
    (b, evicted, { l with buckets := l.buckets.set key b })

/-- Refill if the interval elapsed. -/
def Bucket.refill (o : Options) (b : Bucket) (t : ℚ) : Bucket :=
  if b.resetAt ≤ t then
    { b with
      prev := if t < b.resetAt + o.interval then o.points - b.points else 0
      points := o.points
      resetAt := t + o.interval }
  else b

/-- What became of a call of `consume`, and whether it placed a ban. -/
structure Outcome where
  result : ConsumeResult ℚ
  placed : Bool

/-- What `consume` does with its bucket, for the next place in the ban order. -/
def Bucket.draw (o : Options) (b : Bucket) (cost t : ℚ) (next : Nat) : Outcome × Bucket :=
  if b.banned t then
    ({ result := { allowed := false, remaining := 0, resetMs := b.bannedUntil - t }, placed := false }, b)
  else
    let b := b.refill o t
    if cost ≤ b.points then
      let b := { b with points := b.points - cost }
      ({ result := { allowed := true, remaining := b.points, resetMs := b.resetAt - t }
         placed := false }, b)
    else if 0 < o.blockDuration then
      ({ result := { allowed := false, remaining := 0, resetMs := o.blockDuration }, placed := true },
        { b with bannedUntil := t + o.blockDuration, banSeq := next })
    else
      ({ result := { allowed := false, remaining := max 0 b.points, resetMs := b.resetAt - t }
         placed := false }, b)

/-- `consume(ws, cost)` once it has its key, for a cost that is accepted. -/
def consume (o : Options) (l : Limiter) (key : String) (cost t : ℚ) :
    Outcome × Option Evicted × Limiter :=
  let (b, evicted, l) := bucketFor o (cleanup l t) key o.points t
  let (outcome, b) := b.draw o cost t (l.banSeq + 1)
  (outcome, evicted,
    { buckets := l.buckets.set key b
      banSeq := if outcome.placed then l.banSeq + 1 else l.banSeq })

/-- `duration ?? (blockDuration || 60000)`. -/
def banDuration (o : Options) (duration : Option ℚ) : ℚ :=
  duration.getD (if o.blockDuration = 0 then 60000 else o.blockDuration)

/-- `ban(key, duration, tenantId)` once it has its key. -/
def ban (o : Options) (l : Limiter) (key : String) (duration : Option ℚ) (t : ℚ) :
    Option Evicted × Limiter :=
  let (b, evicted, l) := bucketFor o l key 0 t
  (evicted,
    { buckets := l.buckets.set key
        { b with bannedUntil := t + banDuration o duration, banSeq := l.banSeq + 1 }
      banSeq := l.banSeq + 1 })

/-- `unban(key, tenantId)` once it has its key. -/
def unban (l : Limiter) (key : String) : Limiter :=
  match l.buckets.map.get? key with
  | none => l
  | some b => { l with buckets := l.buckets.set key { b with bannedUntil := 0 } }

/-- `reset(key, tenantId)` once it has its key. -/
def reset (l : Limiter) (key : String) : Limiter :=
  if l.buckets.map.has key then { l with buckets := (l.buckets.delete key).release } else l

/-- `clear(tenantId)`. -/
def clear (o : Options) (l : Limiter) (tenantId : Option String) : Limiter :=
  match truthy tenantId with
  | some id =>
    let m := if o.budget = .tenant then l.buckets.map.delete id else l.buckets.map
    let kept := m.filter fun k => !(id ++ "\x00").toList.isPrefixOf k.toList
    { l with buckets := { map := kept, cursor := none, inside := fun _ h => by cases h } }
  | none => { l with buckets := .empty }

/-! ## runs -/

/-- A call, by the bucket it names; a `consume` whose cost is not accepted throws
before it does anything. -/
inductive Action where
  | consume (key : String) (cost t : ℚ)
  | ban (key : String) (duration : Option ℚ) (t : ℚ)
  | unban (key : String)
  | reset (key : String)
  | clear (tenantId : Option String)

/-- A limiter in a run, with the record. -/
structure State where
  limiter : Limiter
  bans : List String
  drawn : String → List ℚ
  evictions : List Evicted

/-- Whether the next `consume` of a key that is not banned starts a window. -/
def startsWindow (l : Limiter) (key : String) (t : ℚ) : Bool :=
  match l.buckets.map.get? key with
  | none => true
  | some b => !b.banned t && decide (b.resetAt ≤ t)

def next (o : Options) (s : State) : Action → Option State
  | .consume key cost t =>
    if 0 ≤ t then
      if 0 ≤ cost then
        let (outcome, evicted, l) := consume o s.limiter key cost t
        let before := if startsWindow (cleanup s.limiter t) key t then [] else s.drawn key
        some {
          limiter := l
          bans := if outcome.placed then key :: s.bans else s.bans
          drawn := Function.update s.drawn key
            (if outcome.result.allowed then cost :: before else before)
          evictions := evicted.toList ++ s.evictions }
      else some s
    else none
  | .ban key duration t =>
    if 0 ≤ t then
      let (evicted, l) := ban o s.limiter key duration t
      some {
        limiter := l
        bans := key :: s.bans
        drawn := if s.limiter.buckets.map.has key then s.drawn
          else Function.update s.drawn key []
        evictions := evicted.toList ++ s.evictions }
    else none
  | .unban key => some { s with limiter := unban s.limiter key }
  | .reset key => some { s with limiter := reset s.limiter key }
  | .clear tenantId => some { s with limiter := clear o s.limiter tenantId }

/-- All sequences of calls. -/
def machine (o : Options) : Machine State Action where
  init := { limiter := createRateLimit, bans := [], drawn := fun _ => [], evictions := [] }
  next := next o

end BunServe.RateLimit.Eviction
