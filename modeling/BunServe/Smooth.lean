/-!
# BunServe.Smooth

What the two sides of `plugins/smooth` share: the developer's `apply`, the
context it is given, and the discrete events it emits.

`apply` is a function of the state, the command and the context, so its draws
from `ctx.rng` are a function of the id the generator was reseeded with.  It is
pure when the state it answers does not depend on `ctx.firstTime`.
-/

namespace BunServe.Smooth

/-- `ctx`: whether this is the command's first application, the id `ctx.rng`
was reseeded with, and the key of the entity. -/
structure Ctx where
  firstTime : Bool
  seed : Int
  key : Option String
  deriving DecidableEq

/-- One call of `ctx.emitEvent`; `key` is the correlation key the caller asked for. -/
structure Emission (Data : Type) where
  type : String
  data : Data
  key : Option String
  deriving DecidableEq

/-- A discrete event as it leaves either side. -/
structure Event (Data : Type) where
  type : String
  key : String
  data : Data
  id : Int
  deriving DecidableEq

/-- The developer's `apply(state, command, ctx)`: the next state, and the
events emitted on the way. -/
abbrev Apply (State Cmd Data : Type) := State → Cmd → Ctx → State × List (Emission Data)

/-- A pure `apply`: `ctx.firstTime` may gate one-shot effects, but the state
does not depend on it. -/
def Pure {State Cmd Data : Type} (apply : Apply State Cmd Data) : Prop :=
  ∀ s c x b, (apply s c { x with firstTime := b }).1 = (apply s c x).1

end BunServe.Smooth
