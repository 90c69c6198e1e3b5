import BunServe.Lib.Reader
import BunServe.Lib.Utf8

/-!
# BunServe.Wire

The byte primitives of `runtime/wire.js`: `ByteWriter` and `ByteReader`.

A `ByteWriter` only ever appends, so a write is the list of bytes it appends.
A `ByteReader` is the bytes from its position on; reading past the end throws,
which is the failure of the reader.  Varints carry non-negative integers below
2^53, where the arithmetic of the source is exact.

* `reads_varint`, `reads_str` — what was written is read back, and the reader
  stops exactly behind it.
-/

namespace BunServe.Wire

open Reader (Reads)

/-- A sequence of bytes, as a `Uint8Array`. -/
abbrev Bytes := List UInt8

/-- A `ByteReader`. -/
abbrev ByteReader := Reader UInt8

/-! ## ByteWriter -/

/-- `u8(n)`: the low eight bits. -/
def writeU8 (n : Nat) : Bytes := [UInt8.ofNat n]

/-- `varint(value)`: unsigned LEB128. -/
def writeVarint (value : Nat) : Bytes :=
  if value > 0x7f then writeU8 (value % 128 + 128) ++ writeVarint (value / 128)
  else writeU8 value
termination_by value

/-- `str(s)`: length-prefixed UTF-8. -/
def writeStr (s : JsString) : Bytes :=
  let bytes := Utf8.encode s
  writeVarint bytes.length ++ bytes

/-! ## ByteReader -/

/-- `u8()`. -/
def readU8 : ByteReader Nat := do
  let b ← Reader.next
  pure b.toNat

/-- The loop of `varint()`: `result` so far, `mul` for the next group. -/
def readVarintFrom (result mul : Nat) : Bytes → Option (Nat × Bytes)
  | [] => none
  | b :: bs =>
    let result := result + (b.toNat % 128) * mul
    if 0x80 ≤ b.toNat then readVarintFrom result (mul * 128) bs else some (result, bs)

/-- `varint()`. -/
def readVarint : ByteReader Nat := readVarintFrom 0 1

/-- The next `len` bytes. -/
def readBytes (len : Nat) : ByteReader Bytes := fun bs =>
  if bs.length < len then none else some (bs.take len, bs.drop len)

/-- `str()`. -/
def readStr : ByteReader JsString := do
  let len ← readVarint
  let bytes ← readBytes len
  pure (Utf8.decode bytes)

/-! ## reading what was written -/

theorem reads_u8 {n : Nat} (h : n < 256) : Reads readU8 (writeU8 n) n := by
  have := (Reader.reads_next (UInt8.ofNat n)).map (f := UInt8.toNat)
  rwa [Utf8.toNat_ofNat_lt h] at this

theorem readVarintFrom_writeVarint (value result mul : Nat) (rest : Bytes) :
    readVarintFrom result mul (writeVarint value ++ rest) = some (result + value * mul, rest) := by
  induction value using Nat.strongRecOn generalizing result mul with
  | ind value ih =>
    rw [writeVarint]
    by_cases h : value > 0x7f
    · have hb := Utf8.toNat_ofNat_lt (n := value % 128 + 128) (by omega)
      have hmod : (value % 128 + 128) % 128 = value % 128 := by omega
      have hval : value % 128 * mul + value / 128 * (mul * 128) = value * mul := by
        calc value % 128 * mul + value / 128 * (mul * 128)
            = (128 * (value / 128) + value % 128) * mul := by
              rw [Nat.add_mul, Nat.mul_comm mul, ← Nat.mul_assoc, Nat.mul_comm (value / 128) 128]
              omega
          _ = value * mul := by rw [Nat.div_add_mod]
      rw [if_pos h, writeU8, List.singleton_append, List.cons_append, readVarintFrom, hb,
        if_pos (by omega), ih (value / 128) (by omega), hmod, Nat.add_assoc, hval]
    · have hb := Utf8.toNat_ofNat_lt (n := value) (by omega)
      rw [if_neg h, writeU8, List.singleton_append, readVarintFrom, hb, if_neg (by omega),
        Nat.mod_eq_of_lt (by omega)]

theorem reads_varint (value : Nat) : Reads readVarint (writeVarint value) value := by
  intro rest
  rw [readVarint, readVarintFrom_writeVarint]
  simp

theorem reads_bytes (bs : Bytes) : Reads (readBytes bs.length) bs bs := by
  intro rest
  rw [readBytes]
  simp

theorem reads_str (s : JsString) : Reads readStr (writeStr s) (Utf8.decode (Utf8.encode s)) :=
  (reads_varint _).bind (reads_bytes _).map

end BunServe.Wire
