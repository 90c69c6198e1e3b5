import Mathlib.Data.Rat.Defs
import Mathlib.Algebra.Order.Ring.Unbundled.Rat
import Mathlib.Order.WithBot
import BunServe.Lib.Rotation

/-!
# BunServe.Egress

The publish-egress account of `runtime/utils/egress-account.js`: for each topic
and each tenant a window of what was published, ceilings on it, and a bounded
ledger of the windows.

Times are exact numbers, readings of a clock that starts at zero; what is
counted are whole messages, deliveries and bytes.  A clock reading that a
function takes is an argument of it.  Reports to the callbacks (`onRefused`,
`onEvicted`) are kept in the account in the order they are made.
-/

namespace BunServe.Egress

/-! ## options -/

def EGRESS_SWEEP_STEPS : Nat := 32
def EGRESS_SLACK_SHIFT : Nat := 4
def MAX_SAFE_INTEGER : Int := 2 ^ 53 - 1

/-- A raw option: a finite number, or anything else. -/
inductive Raw where
  | number (q : ℚ)
  | other

/-- `Number.isSafeInteger`, and the integer. -/
def Raw.safeInteger? : Raw → Option Int
  | .number q =>
    if q.den = 1 ∧ -MAX_SAFE_INTEGER ≤ q.num ∧ q.num ≤ MAX_SAFE_INTEGER then some q.num else none
  | .other => none

/-- A raw section of ceilings. -/
structure RawScope where
  messages : Raw
  bytes : Raw
  deliveries : Raw

/-- The ceilings of a scope; zero is none. -/
structure Ceilings where
  messages : Nat
  bytes : Nat
  deliveries : Nat

/-- What a publish is charged to. -/
inductive Scope where
  | topic
  | tenant
  deriving DecidableEq

/-- The normalized options. -/
structure Config where
  windowMs : ℚ
  maxKeys : Nat
  evictionSample : Nat
  ceilings : Scope → Ceilings
  windowMs_pos : 0 < windowMs
  maxKeys_pos : 0 < maxKeys
  evictionSample_pos : 0 < evictionSample

/-- `ceiling(v)`. -/
def ceiling (v : Raw) : Nat :=
  match v.safeInteger? with
  | some n => n.toNat
  | none => 0

/-- `scope(section)`. -/
def scope : Option RawScope → Ceilings
  | some s => { messages := ceiling s.messages, bytes := ceiling s.bytes, deliveries := ceiling s.deliveries }
  | none => { messages := 0, bytes := 0, deliveries := 0 }

/-- `topicEnabled`, `tenantEnabled`. -/
def Config.scopeEnabled (c : Config) (sc : Scope) : Bool :=
  (c.ceilings sc).messages > 0 || (c.ceilings sc).bytes > 0 || (c.ceilings sc).deliveries > 0

def Config.enabled (c : Config) : Bool := c.scopeEnabled .topic || c.scopeEnabled .tenant

/-! ## the ledger -/

abbrev Key := String

/-- A usage window: when it started, what share of its allowance the one before
spent, and what it has been charged. -/
structure Window where
  start : ℚ
  pu : ℚ
  m : Nat
  b : Nat
  d : Nat

def EMPTY_WINDOW : Window := { start := 0, pu := 0, m := 0, b := 0, d := 0 }

def Window.lapsed (w : Window) (windowMs now : ℚ) : Bool := windowMs ≤ now - w.start

/-- The larger of the share so far and one more. -/
def share (u : ℚ) (used limit : Nat) : ℚ :=
  if limit > 0 then if (used : ℚ) / limit > u then (used : ℚ) / limit else u else u

/-- `spent(w)`. -/
def spent (c : Ceilings) (w : Window) : ℚ :=
  share (share (share 0 w.m c.messages) w.d c.deliveries) w.b c.bytes

/-- One scope's ledger: the windows with the cursor over them, the proven-clean
horizon, and the earliest expiry the pass in progress has seen. -/
structure Ledger where
  windows : Rotation Key Window
  sweepUntil : ℚ
  passEarliestExpiry : WithTop ℚ

/-- `createWindowLedger`. -/
def createWindowLedger : Ledger :=
  { windows := .empty, sweepUntil := 0, passEarliestExpiry := ⊤ }

/-- The horizon, and the earliest expiry seen. -/
structure Pass where
  sweepUntil : ℚ
  passEarliestExpiry : WithTop ℚ

/-- `openPass()`, but for the cursor. -/
def openPass (s : Pass) : Pass := { s with passEarliestExpiry := ⊤ }

/-- `closePass()`, but for the cursor. -/
def closePass (s : Pass) : Pass :=
  match s.passEarliestExpiry with
  | none => s
  | some e => { s with sweepUntil := e }

def note (s : Pass) (expiry : ℚ) : Pass :=
  { s with passEarliestExpiry :=
      if (expiry : WithTop ℚ) < s.passEarliestExpiry then expiry else s.passEarliestExpiry }

/-- The body of the loop of `reclaimExpired`. -/
def reclaiming (windowMs now : ℚ) : Policy Pass Key Window where
  opened := openPass
  closed := closePass
  visit s _ w :=
    if w.lapsed windowMs now then { state := s, drop := true, stop := false }
    else { state := note s (w.start + windowMs), drop := false, stop := false }

/-- `reclaimExpired(nowMs, windowMs)`. -/
def reclaimExpired (l : Ledger) (now windowMs : ℚ) : Ledger :=
  if now < l.sweepUntil then l
  else
    let w := l.windows.walk (reclaiming windowMs now) EGRESS_SWEEP_STEPS
      { sweepUntil := l.sweepUntil, passEarliestExpiry := l.passEarliestExpiry }
    { windows := w.rot, sweepUntil := w.state.sweepUntil
      passEarliestExpiry := w.state.passEarliestExpiry }

/-- The variables of `evictOne`'s loop. -/
structure Hunt where
  pass : Pass
  victim : Option Key
  victimScore : WithTop ℚ

/-- The body of the loop of `evictOne`. -/
def hunting (c : Ceilings) (windowMs now : ℚ) : Policy Hunt Key Window where
  opened s := { s with pass := openPass s.pass }
  closed s := { s with pass := closePass s.pass }
  visit s k w :=
    if w.lapsed windowMs now then { state := s, drop := true, stop := true }
    else
      let s := { s with pass := note s.pass (w.start + windowMs) }
      let score := spent c w + w.pu
      { state := if (score : WithTop ℚ) < s.victimScore then
          { s with victim := some k, victimScore := score } else s
        drop := false, stop := false }

/-- `evictOne(nowMs, windowMs)`: the ledger, and whether a live window was
dropped. -/
def evictOne (c : Ceilings) (evictionSample : Nat) (l : Ledger) (now windowMs : ℚ) : Ledger × Bool :=
  let w := l.windows.walk (hunting c windowMs now) evictionSample
    { pass := { sweepUntil := l.sweepUntil, passEarliestExpiry := l.passEarliestExpiry }
      victim := none, victimScore := ⊤ }
  let l := { windows := w.rot, sweepUntil := w.state.pass.sweepUntil
             passEarliestExpiry := w.state.pass.passEarliestExpiry }
  if w.stopped then (l, false)
  else
    match w.state.victim with
    | some k => ({ l with windows := l.windows.delete k }, true)
    | none => (l, false)

/-- `spentIn(key, nowMs, windowMs)`. -/
def spentIn (l : Ledger) (k : Key) (now windowMs : ℚ) : Window :=
  match l.windows.map.get? k with
  | none => EMPTY_WINDOW
  | some w => if w.lapsed windowMs now then EMPTY_WINDOW else w

/-- Where reclamation starts. -/
def sweepFloor (maxKeys : Nat) : Nat := maxKeys - maxKeys >>> EGRESS_SLACK_SHIFT

/-- Room for a key that is not in the ledger, and whether a live window was
dropped for it. -/
def makeRoom (cfg : Config) (sc : Scope) (l : Ledger) (now : ℚ) : Ledger × Bool :=
  if l.windows.map.size ≥ sweepFloor cfg.maxKeys then
    let l := reclaimExpired l now cfg.windowMs
    if l.windows.map.size ≥ cfg.maxKeys then
      evictOne (cfg.ceilings sc) cfg.evictionSample l now cfg.windowMs
    else (l, false)
  else (l, false)

/-- A lapsed window begun again. -/
def rotated (c : Ceilings) (w : Window) (now windowMs : ℚ) : Window :=
  { start := now, pu := if now - w.start < windowMs * 2 then spent c w else 0, m := 0, b := 0, d := 0 }

/-- `windowFor(key, nowMs, windowMs)`: the key's window, the ledger, and whether
a live window was dropped. -/
def windowFor (cfg : Config) (sc : Scope) (l : Ledger) (k : Key) (now : ℚ) : Window × Ledger × Bool :=
  match l.windows.map.get? k with
  | none =>
    let (l, dropped) := makeRoom cfg sc l now
    let w := { EMPTY_WINDOW with start := now }
    (w, { l with windows := l.windows.set k w }, dropped)
  | some w =>
    let w := if w.lapsed cfg.windowMs now then rotated (cfg.ceilings sc) w now cfg.windowMs else w
    (w, { l with windows := l.windows.set k w }, false)

/-! ## the account -/

/-- What a ceiling is on. -/
inductive Dimension where
  | messages
  | bytes
  | deliveries
  deriving DecidableEq

def Ceilings.limit (c : Ceilings) : Dimension → Nat
  | .messages => c.messages
  | .bytes => c.bytes
  | .deliveries => c.deliveries

/-- A call of `onRefused` or `onEvicted`. -/
inductive Report where
  | refused (sc : Scope) (topic : Option Key) (dim : Dimension) (limit : Nat)
  | evicted (sc : Scope)

structure Account where
  ledger : Scope → Ledger
  reports : List Report

def createEgressAccount : Account := { ledger := fun _ => createWindowLedger, reports := [] }

/-- `over(usage, ceilings, messages, deliveries)`. -/
def overCeiling (usage : Window) (c : Ceilings) (messages deliveries : Nat) : Option Dimension :=
  if c.messages > 0 ∧ usage.m + messages > c.messages then some .messages
  else if c.deliveries > 0 ∧ usage.d + deliveries > c.deliveries then some .deliveries
  else if c.bytes > 0 ∧ usage.b ≥ c.bytes then some .bytes
  else none

/-- One half of the decision, for a key of the scope; the topic is for the
report. -/
def admitScope (cfg : Config) (sc : Scope) (a : Account) (key topic : Option Key)
    (messages deliveries : Nat) (now : ℚ) : Bool × Account :=
  match key with
  | none => (true, a)
  | some k =>
    if !cfg.enabled || !cfg.scopeEnabled sc then (true, a)
    else
      match overCeiling (spentIn (a.ledger sc) k now cfg.windowMs) (cfg.ceilings sc) messages
        deliveries with
      | none => (true, a)
      | some dim => (false, { a with
          reports := a.reports ++ [.refused sc topic dim ((cfg.ceilings sc).limit dim)] })

/-- `admitTopic(topic, messages, deliveries)`. -/
def admitTopic (cfg : Config) (a : Account) (topic : Option Key) (messages deliveries : Nat) (now : ℚ) :
    Bool × Account :=
  admitScope cfg .topic a topic topic messages deliveries now

/-- `admitTenant(tenantId, topic, messages, deliveries)`. -/
def admitTenant (cfg : Config) (a : Account) (tenantId topic : Option Key) (messages deliveries : Nat)
    (now : ℚ) : Bool × Account :=
  admitScope cfg .tenant a tenantId topic messages deliveries now

/-- `admit(topic, tenantId, messages, deliveries)`, the clock read at `now` for
the topic and at `later` for the tenant. -/
def admitBoth (cfg : Config) (a : Account) (topic tenantId : Option Key) (messages deliveries : Nat)
    (now later : ℚ) : Bool × Account :=
  if !cfg.enabled then (true, a)
  else
    match admitTopic cfg a topic messages deliveries now with
    | (true, a) => admitTenant cfg a tenantId topic messages deliveries later
    | (false, a) => (false, a)

def chargeScope (cfg : Config) (sc : Scope) (a : Account) (key : Option Key)
    (messages deliveries bytes : Nat) (now : ℚ) : Account :=
  match key with
  | none => a
  | some k =>
    if !cfg.scopeEnabled sc then a
    else
      let (w, l, dropped) := windowFor cfg sc (a.ledger sc) k now
      let w := { w with m := w.m + messages, d := w.d + deliveries, b := w.b + bytes }
      { ledger := Function.update a.ledger sc { l with windows := l.windows.set k w }
        reports := if dropped then a.reports ++ [.evicted sc] else a.reports }

/-- `charge(topic, tenantId, messages, deliveries, bytes)`. -/
def charge (cfg : Config) (a : Account) (topic tenantId : Option Key)
    (messages deliveries bytes : Nat) (now : ℚ) : Account :=
  if !cfg.enabled then a
  else
    chargeScope cfg .tenant (chargeScope cfg .topic a topic messages deliveries bytes now) tenantId
      messages deliveries bytes now

end BunServe.Egress
