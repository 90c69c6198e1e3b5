import BunServe.Lib.Machine
import Mathlib.Data.Rat.Floor

/-!
# BunServe.Upgrade

The admission controller for WebSocket upgrades of
`runtime/utils/upgrade-admission.js`: a ceiling for the upgrades in flight with
a sub-budget for the cursor lane, a ceiling for the connections, and a budget of
upgrade calls per turn of the event loop with a ring of deferred callbacks.

A callback is a value.  `admit` and `drain` call it by leaving a frame; what it
does, an `admit` of its own included, are the next actions, and `returns` ends
the innermost call.  The metrics observer is called in the same way.

The counters of the slots are integers, so that a release too many would show.
`deferrals`, `turns`, `turn`, `main` and `cursor` record what happened and are
read by no function.
-/

namespace BunServe.Upgrade

/-! ## options -/

def DEFAULT_MAX_DEFERRED : Nat := 1024

structure CursorLane where
  fraction : Option Rat

/-- The options; the guards of the configuration let through whole numbers only. -/
structure Options where
  maxConcurrent : Option Nat
  maxConnections : Option Nat
  perTickBudget : Option Nat
  maxDeferred : Option Nat
  cursorLane : Option CursorLane

/-- The constants of a controller; zero is no limit. -/
structure Config where
  maxConcurrent : Nat
  maxConnections : Nat
  perTickBudget : Nat
  maxDeferred : Nat
  cursorMaxConcurrent : Nat

/-- `cursorFraction` -/
def cursorFraction (lane : Option CursorLane) : Rat :=
  match lane.bind (·.fraction) with
  | some fraction => if 0 < fraction then min 1 fraction else 1 / 4
  | none => 1 / 4

/-- The constants of `createUpgradeAdmission(opts)`. -/
def Options.config (opts : Options) : Config :=
  let maxConcurrent := opts.maxConcurrent.getD 0
  let perTickBudget := opts.perTickBudget.getD 0
  { maxConcurrent
    maxConnections := opts.maxConnections.getD 0
    perTickBudget
    maxDeferred := if 0 < perTickBudget then opts.maxDeferred.getD DEFAULT_MAX_DEFERRED else 0
    cursorMaxConcurrent :=
      if 0 < maxConcurrent ∧ opts.cursorLane.isSome then
        max 1 ⌊maxConcurrent * cursorFraction opts.cursorLane⌋₊
      else 0 }

/-! ## the variables -/

/-- A deferred callback. -/
structure Entry (F : Type) where
  fn : F
  enqueuedAt : Rat

/-- The variables of `createUpgradeAdmission`; the observer only matters as one. -/
structure Gate (F : Type) where
  inFlight : Int
  cursorInFlight : Int
  connectionPermits : Nat
  perTickCount : Nat
  deferred : Nat → Option (Entry F)
  deferredHead : Nat
  deferredTail : Nat
  deferredDepth : Nat
  deferredRejectedTotal : Nat
  cursorSubBudgetRefusals : Nat
  overReleaseTotal : Nat
  deferredObserver : Bool
  drainScheduled : Bool

variable {F : Type}

/-- A fresh controller. -/
def createUpgradeAdmission : Gate F :=
  { inFlight := 0, cursorInFlight := 0, connectionPermits := 0, perTickCount := 0,
    deferred := fun _ => none, deferredHead := 0, deferredTail := 0, deferredDepth := 0,
    deferredRejectedTotal := 0, cursorSubBudgetRefusals := 0, overReleaseTotal := 0,
    deferredObserver := false, drainScheduled := false }

/-! ## slots and permits -/

/-- The main ceiling is reached. -/
def atCeiling (c : Config) (g : Gate F) : Bool :=
  0 < c.maxConcurrent && decide (g.inFlight ≥ c.maxConcurrent)

/-- `tryAcquire()` -/
def tryAcquire (c : Config) (g : Gate F) : Bool × Gate F :=
  if atCeiling c g then (false, g)
  else (true, { g with inFlight := g.inFlight + 1 })

/-- `release()` -/
def release (g : Gate F) : Gate F := { g with inFlight := g.inFlight - 1 }

/-- `tryAcquireConnection()` -/
def tryAcquireConnection (c : Config) (g : Gate F) : Bool × Gate F :=
  if c.maxConnections = 0 then (true, g)
  else if g.connectionPermits ≥ c.maxConnections then (false, g)
  else (true, { g with connectionPermits := g.connectionPermits + 1 })

/-- `releaseConnection()`, with the text of what it throws. -/
def releaseConnection (c : Config) (g : Gate F) : Option String × Gate F :=
  if c.maxConnections = 0 then (none, g)
  else if g.connectionPermits = 0 then
    (some "upgradeAdmission connection permit released without an acquisition.",
      { g with overReleaseTotal := g.overReleaseTotal + 1 })
  else (none, { g with connectionPermits := g.connectionPermits - 1 })

/-- `tryAcquireCursor()` -/
def tryAcquireCursor (c : Config) (g : Gate F) : Bool × Gate F :=
  if atCeiling c g then (false, g)
  else if g.cursorInFlight ≥ c.cursorMaxConcurrent then
    (false, { g with cursorSubBudgetRefusals := g.cursorSubBudgetRefusals + 1 })
  else (true, { g with inFlight := g.inFlight + 1, cursorInFlight := g.cursorInFlight + 1 })

/-- `releaseCursorInFlight()` -/
def releaseCursorInFlight (g : Gate F) : Gate F :=
  { g with inFlight := g.inFlight - 1, cursorInFlight := g.cursorInFlight - 1 }

/-- `hasCapacity()` -/
def hasCapacity (c : Config) (g : Gate F) : Bool :=
  !atCeiling c g &&
    !(decide (0 < c.maxConnections) && decide (g.connectionPermits ≥ c.maxConnections)) &&
    !(decide (0 < c.perTickBudget) && decide (g.perTickCount ≥ c.perTickBudget) &&
      decide (g.deferredDepth ≥ c.maxDeferred))

/-! ## the ring -/

/-- The slot after `i`. -/
def advance (c : Config) (i : Nat) : Nat := if i + 1 = c.maxDeferred then 0 else i + 1

/-- Put an entry at the tail, as `admit` does. -/
def enqueue (c : Config) (g : Gate F) (entry : Entry F) : Gate F :=
  { g with
    deferred := fun i => if i = g.deferredTail then some entry else g.deferred i
    deferredTail := advance c g.deferredTail
    deferredDepth := g.deferredDepth + 1 }

/-- `dequeue()` -/
def dequeue (c : Config) (g : Gate F) : Option (Entry F) × Gate F :=
  let depth := g.deferredDepth - 1
  (g.deferred g.deferredHead, { g with
    deferred := fun i => if i = g.deferredHead then none else g.deferred i
    deferredHead := if depth = 0 then 0 else advance c g.deferredHead
    deferredTail := if depth = 0 then 0 else g.deferredTail
    deferredDepth := depth })

/-- `oldestDeferredAgeMs()` -/
def oldestDeferredAgeMs (g : Gate F) (now : Rat) : Rat :=
  if g.deferredDepth = 0 then 0
  else match g.deferred g.deferredHead with
    | none => 0
    | some oldest => max 0 (now - oldest.enqueuedAt)

/-! ## calls -/

/-- A callback that is called: by `admit` itself, or by `drain`, which calls what
the ring had. -/
inductive Call (F : Type) where
  | admitted (fn : F)
  | drained (fn : Option F)

/-- What follows a call of the observer. -/
inductive Resume where
  | refused
  | deferred
  | drained
  | installed

/-- A running call. -/
inductive Frame (F : Type) where
  | callback (call : Call F)
  | observer (resume : Resume)

/-- What the observer is shown. -/
structure Snapshot where
  depth : Nat
  oldestAgeMs : Rat
  rejectedTotal : Nat

/-- The controller, its running calls, innermost first, and the drains the event
loop was asked for; then the record: the deferred callbacks in their order, the
callbacks called in the turns before and in this one, and the slots held in
either lane. -/
structure State (F : Type) where
  gate : Gate F
  frames : List (Frame F)
  immediates : Nat
  observed : List Snapshot
  deferrals : List F
  turns : List (List (Call F))
  turn : List (Call F)
  main : Nat
  cursor : Nat

/-- `scheduleDrain()` -/
def scheduleDrain (s : State F) : State F :=
  if s.gate.drainScheduled then s
  else { s with
    gate := { s.gate with drainScheduled := true }
    immediates := s.immediates + 1 }

/-- What stands after a call of the observer. -/
def proceed (s : State F) : Resume → State F
  | .refused => s
  | .deferred => scheduleDrain s
  | .drained =>
    if s.gate.deferredDepth > 0 ∨ s.gate.perTickCount > 0 then scheduleDrain s else s
  | .installed => s

/-- `notifyDeferredObserver()` and what stands after it. -/
def notifyDeferredObserver (s : State F) (now : Rat) (resume : Resume) : State F :=
  if s.gate.deferredObserver then
    { s with
      frames := .observer resume :: s.frames
      observed := s.observed ++ [{ depth := s.gate.deferredDepth
                                   oldestAgeMs := oldestDeferredAgeMs s.gate now
                                   rejectedTotal := s.gate.deferredRejectedTotal }] }
  else proceed s resume

def State.call (s : State F) (call : Call F) : State F :=
  { s with frames := .callback call :: s.frames, turn := s.turn ++ [call] }

/-- The loop of `drain` up to its next callback, or what stands after the loop. -/
def drainLoop (c : Config) (s : State F) (now : Rat) : State F :=
  if s.gate.perTickCount < c.perTickBudget ∧ s.gate.deferredDepth > 0 then
    let (entry, g) := dequeue c s.gate
    ({ s with gate := { g with perTickCount := g.perTickCount + 1 } }).call
      (.drained (entry.map Entry.fn))
  else notifyDeferredObserver s now .drained

/-- `drain()` -/
def drain (c : Config) (s : State F) (now : Rat) : State F :=
  drainLoop c { s with
    gate := { s.gate with drainScheduled := false, perTickCount := 0 }
    turns := s.turns ++ [s.turn]
    turn := [] } now

/-- `admit(fn)`, up to the call it makes, and what it will answer. -/
def admitUpgrade (c : Config) (s : State F) (fn : F) (enqueuedAt now : Rat) :
    State F × Option Bool :=
  if c.perTickBudget = 0 then (s.call (.admitted fn), some true)
  else if s.gate.perTickCount < c.perTickBudget then
    ((scheduleDrain { s with gate := { s.gate with perTickCount := s.gate.perTickCount + 1 } }).call
      (.admitted fn), some true)
  else if s.gate.deferredDepth ≥ c.maxDeferred then
    (notifyDeferredObserver { s with
      gate := { s.gate with deferredRejectedTotal := s.gate.deferredRejectedTotal + 1 } }
      now .refused, none)
  else
    (notifyDeferredObserver { s with
      gate := enqueue c s.gate { fn, enqueuedAt }
      deferrals := s.deferrals ++ [fn] } now .deferred, some false)

/-! ## runs -/

/-- What happens next; `returns` ends the innermost call, also when it throws,
and `tick` is the event loop calling a scheduled drain. -/
inductive Action (F : Type) where
  | tryAcquire
  | release
  | tryAcquireConnection
  | releaseConnection
  | tryAcquireCursor
  | releaseCursorInFlight
  | setDeferredObserver (on : Bool) (now : Rat)
  | admitUpgrade (fn : F) (enqueuedAt now : Rat)
  | returns (now : Rat)
  | tick (now : Rat)

/-- Whether an acquisition succeeded, counted. -/
def taken (ok : Bool) : Nat := if ok then 1 else 0

/-- The controller does one action. -/
def next (c : Config) (s : State F) : Action F → Option (State F)
  | .tryAcquire =>
    let (ok, gate) := tryAcquire c s.gate
    some { s with gate, main := s.main + taken ok }
  | .release => some { s with gate := release s.gate, main := s.main - 1 }
  | .tryAcquireConnection => some { s with gate := (tryAcquireConnection c s.gate).2 }
  | .releaseConnection => some { s with gate := (releaseConnection c s.gate).2 }
  | .tryAcquireCursor =>
    let (ok, gate) := tryAcquireCursor c s.gate
    some { s with gate, cursor := s.cursor + taken ok }
  | .releaseCursorInFlight =>
    some { s with gate := releaseCursorInFlight s.gate, cursor := s.cursor - 1 }
  | .setDeferredObserver on now =>
    some (notifyDeferredObserver { s with gate := { s.gate with deferredObserver := on } }
      now .installed)
  | .admitUpgrade fn enqueuedAt now => some (admitUpgrade c s fn enqueuedAt now).1
  | .returns now =>
    match s.frames with
    | [] => none
    | .callback (.admitted _) :: frames => some { s with frames }
    | .callback (.drained _) :: frames => some (drainLoop c { s with frames } now)
    | .observer resume :: frames => some (proceed { s with frames } resume)
  | .tick now =>
    match s.frames, s.immediates with
    | [], immediates + 1 => some (drain c { s with immediates } now)
    | _, _ => none

/-- A controller and its event loop. -/
def machine (F : Type) (c : Config) : Machine (State F) (Action F) where
  init :=
    { gate := createUpgradeAdmission, frames := [], immediates := 0, observed := [],
      deferrals := [], turns := [], turn := [], main := 0, cursor := 0 }
  next := next c

/-- Every release is of a slot or permit that is held. -/
def Matched (s : State F) : Action F → Prop
  | .release => 0 < s.main
  | .releaseCursorInFlight => 0 < s.cursor
  | .releaseConnection => 0 < s.gate.connectionPermits
  | _ => True

def Call.drained? : Call F → Option F
  | .admitted _ => none
  | .drained fn => fn

/-- The deferred callbacks that were called, in their order. -/
def State.ran (s : State F) : List F := (s.turns.flatten ++ s.turn).filterMap Call.drained?

/-- The turns the event loop has had. -/
def ticks (as : List (Action F)) : Nat :=
  as.countP fun a => match a with
    | .tick _ => true
    | _ => false

end BunServe.Upgrade
