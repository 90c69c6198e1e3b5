import BunServe.Lib.Machine
import BunServe.Webhooks

/-!
# BunServe.Webhooks.Pool

The deliveries of a process, under way at the same time: they share the pins of their
configs, and a circuit breaker, `createWebhookBreaker` of `plugins/webhooks/controls.js`.

A delivery that asks waits; an action answers one of them, and it goes on to its next
question.  What the breaker is asked, the breaker answers.  An action carries an answer to
every question, of which the one that is asked is taken.
-/

namespace BunServe.Webhooks

variable {N P : Type} [Number N]

/-! ## the breaker -/

inductive CircuitState where
  | healthy
  | broken
  | probing
  deriving DecidableEq

structure Circuit (N : Type) where
  state : CircuitState
  failures : Nat
  openedAt : N

structure BreakerOptions (N : Type) where
  failureThreshold : Nat
  resetMs : N
  maxKeys : Nat

structure Breaker (N : Type) where
  states : JsMap JsString (Circuit N)
  sweepBlockedUntil : N

/-- `SWEEP_RETRY_MS`. -/
def sweepRetryMs : Nat := 1000

/-- The state of a key that none is kept for. -/
def Circuit.fresh : Circuit N := { state := .healthy, failures := 0, openedAt := 0 }

def holdsFailureRecord (s : Circuit N) : Bool := decide (s.state ≠ .healthy) || decide (s.failures > 0)

/-- `sweepReclaimable(states, holdsFailureRecord)`. -/
def sweepReclaimable (states : JsMap JsString (Circuit N)) : JsMap JsString (Circuit N) :=
  states.filter fun k => decide (k = []) || (states.get? k).any holdsFailureRecord

/-- `stateFor(key)`: the state of the key, which is kept if there is room. -/
def stateFor (o : BreakerOptions N) (monotonicNow : N) (k : JsString) (b : Breaker N) :
    Circuit N × Breaker N :=
  match b.states.get? k with
  | some s => (s, b)
  | none =>
    if k ≠ [] ∧ b.states.size ≥ o.maxKeys then
      if monotonicNow ≥ b.sweepBlockedUntil then
        let swept := sweepReclaimable b.states
        if b.states.size - swept.size = 0 then
          (.fresh, { b with sweepBlockedUntil := monotonicNow + (sweepRetryMs : N) })
        else (.fresh, { b with states := swept.set k .fresh })
      else (.fresh, b)
    else (.fresh, { b with states := b.states.set k .fresh })

/-- The state of a key is written; one that is not kept is lost. -/
def Breaker.write (k : JsString) (s : Circuit N) (b : Breaker N) : Breaker N :=
  if b.states.has k then { b with states := b.states.set k s } else b

/-- `guard(key)`: whether the delivery is let through, and whether as the probe. -/
def Breaker.guard (o : BreakerOptions N) (monotonicNow : N) (k : JsString) (b : Breaker N) :
    Option Bool × Breaker N :=
  let (s, b) := stateFor o monotonicNow k b
  match s.state with
  | .healthy => (some false, b)
  | .broken =>
    if monotonicNow - s.openedAt ≥ o.resetMs then (some true, b.write k { s with state := .probing })
    else (none, b)
  | .probing => (none, b)

/-- `success(key)`. -/
def Breaker.success (o : BreakerOptions N) (monotonicNow : N) (k : JsString) (b : Breaker N) : Breaker N :=
  let (s, b) := stateFor o monotonicNow k b
  b.write k { s with state := .healthy, failures := 0 }

/-- What a failure makes of a state. -/
def Circuit.fail (o : BreakerOptions N) (monotonicNow : N) (s : Circuit N) : Circuit N :=
  if s.state = .probing then { s with state := .broken, openedAt := monotonicNow }
  else
    let s := if s.failures < o.failureThreshold then { s with failures := s.failures + 1 } else s
    if s.state = .healthy ∧ s.failures ≥ o.failureThreshold then
      { s with state := .broken, openedAt := monotonicNow }
    else s

/-- `failure(err, key)`. -/
def Breaker.failure (o : BreakerOptions N) (monotonicNow : N) (k : JsString) (b : Breaker N) : Breaker N :=
  let (s, b) := stateFor o monotonicNow k b
  b.write k (s.fail o monotonicNow)

/-- `stateOf(key)`. -/
def Breaker.stateOf (b : Breaker N) (k : JsString) : CircuitState :=
  match b.states.get? k with
  | none => .healthy
  | some s => s.state

/-! ## deliveries -/

/-- What the deliveries are run with. -/
structure Setup (N P : Type) where
  platform : Platform
  /-- The config objects. -/
  config : Nat → Config N
  stringify : P → Option JsString
  breaker : BreakerOptions N

/-- A delivery. -/
structure Member (N P : Type) where
  config : Nat
  /-- `hooks.key || ''`. -/
  key : JsString
  /-- Past the guard of the breaker, and whether as the probe. -/
  admitted : Option Bool
  outcome : BunServe.Outcome (World N) Op (Ans P) Outcome

def stateOf {α : Type} : BunServe.Outcome (World N) Op (Ans P) α → World N
  | .done _ w => w
  | .fail w => w
  | .ask _ w _ => w

structure Deliveries (N P : Type) where
  now : N
  monotonicNow : N
  seconds : JsString
  /-- The pins of each config. -/
  pins : Nat → JsMap (JsString × Bool) (CachedPin N)
  breaker : Breaker N
  /-- In the order in which they were started. -/
  members : List (Member N P)

inductive Action (P : Type) (N : Type) where
  | start (config : Nat) (key : JsString) (hooks : Hooks) (topic event : JsString) (payload : P)
  | answer (i : Nat) (reply : (op : Op) → Ans P op)
  | tick (now monotonicNow : N) (seconds : JsString)

/-- What a delivery finds of the shared state. -/
def Deliveries.refresh (s : Deliveries N P) (config : Nat) (w : World N) : World N :=
  { w with pins := s.pins config, now := s.now, monotonicNow := s.monotonicNow, seconds := s.seconds }

def Deliveries.fresh (s : Deliveries N P) (config : Nat) : World N :=
  { pins := s.pins config, now := s.now, monotonicNow := s.monotonicNow, seconds := s.seconds, hops := [] }

def Deliveries.leave (config : Nat) (w : World N) (s : Deliveries N P) : Deliveries N P :=
  { s with pins := fun c => if c = config then w.pins else s.pins c }

/-- The answer to a question, how the delivery is past the guard, and the breaker then. -/
def Deliveries.answer (x : Setup N P) (s : Deliveries N P) (m : Member N P)
    (reply : (op : Op) → Ans P op) : (op : Op) → Ans P op × Option Bool × Breaker N
  | .guard =>
    match s.breaker.guard x.breaker s.monotonicNow m.key with
    | (some probe, b) => (.ok (), some probe, b)
    | (none, b) => (.error .thrown, m.admitted, b)
  | .success => (.ok (), m.admitted, s.breaker.success x.breaker s.monotonicNow m.key)
  | .failure _ => (.ok (), m.admitted, s.breaker.failure x.breaker s.monotonicNow m.key)
  | op => (reply op, m.admitted, s.breaker)

def Deliveries.start (x : Setup N P) (config : Nat) (key : JsString) (hooks : Hooks) (topic event : JsString)
    (payload : P) (s : Deliveries N P) : Deliveries N P :=
  let outcome := deliverWebhook x.platform (x.config config) hooks x.stringify topic event payload
    (s.fresh config)
  { s.leave config (stateOf outcome) with
    members := s.members ++ [{ config, key, admitted := none, outcome }] }

/-- A delivery that asks is answered. -/
def Deliveries.resume (x : Setup N P) (i : Nat) (reply : (op : Op) → Ans P op) (s : Deliveries N P) :
    Option (Deliveries N P) :=
  match s.members[i]? with
  | none => none
  | some m =>
    match m.outcome with
    | .ask op w k =>
      let (ans, admitted, breaker) := s.answer x m reply op
      let outcome := k ans (s.refresh m.config w)
      some { s.leave m.config (stateOf outcome) with
        breaker
        members := s.members.set i { m with admitted, outcome } }
    | _ => none

def deliveries (x : Setup N P) : Machine (Deliveries N P) (Action P N) where
  init := {
    now := 0
    monotonicNow := 0
    seconds := []
    pins := fun _ => .empty
    breaker := { states := .empty, sweepBlockedUntil := 0 }
    members := [] }
  next s
    | .start config key hooks topic event payload => some (s.start x config key hooks topic event payload)
    | .answer i reply => s.resume x i reply
    | .tick now monotonicNow seconds =>
      if s.monotonicNow ≤ monotonicNow then some { s with now, monotonicNow, seconds } else none

end BunServe.Webhooks
