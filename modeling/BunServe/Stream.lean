import BunServe.Bits

/-!
# BunServe.Stream

The temporal codec of `runtime/wire-stream.js`: one slot per series of numbers,
each number encoded against the one before it.

Whole numbers ride the second difference, everything else the XOR of the bits.
Both sides keep the slot; `writeStreamValue` and `readStreamValue` advance it.
Control codes and payloads are computed with doubles as the source does; a field
of bits holds a whole number, where double and integer arithmetic agree.
-/

namespace BunServe.Stream

open Bits (BitWriter BitReader Reading Words readBit readBits f64ToWords wordsToF64 clz64 ctz64)

/-! ## the slot -/

/-- Per-series state. -/
structure Slot where
  has : Bool
  prev : F64
  prevDelta : F64
  hasWindow : Bool
  wLead : Nat
  wLen : Nat
  deriving DecidableEq

/-- `createStreamSlot()`. -/
def createStreamSlot : Slot := ⟨false, .zero, .zero, false, 0, 64⟩

/-! ## spans of bits -/

/-- The shift of the low word for MSB index `p`: shift counts are taken modulo
32, also where a corrupt window leads past the word. -/
def loShift (p : Nat) : Nat := (127 - p) % 32

/-- `bitAt(hi, lo, p)`. -/
def bitAt (x : Words) (p : Nat) : Bool :=
  if p < 32 then (x.hi >>> (31 - p)).getLsbD 0 else (x.lo >>> loShift p).getLsbD 0

/-- `writeSpan(bw, hi, lo, start, len)`. -/
def writeSpan (w : BitWriter) (x : Words) (start : Nat) : Nat → BitWriter
  | 0 => w
  | n + 1 => writeSpan (w.writeBit (bitAt x start)) x (start + 1) n

/-- Set the bit with MSB index `p`. -/
def setBit (x : Words) (p : Nat) : Words :=
  if p < 32 then { x with hi := x.hi ||| (1#32 <<< (31 - p)) }
  else { x with lo := x.lo ||| (1#32 <<< loShift p) }

/-- The loop of `readSpan`. -/
def readSpanFrom (x : Words) (p : Nat) : Nat → Reading Words
  | 0 => pure x
  | n + 1 => do
      let b ← readBit
      readSpanFrom (if b then setBit x p else x) (p + 1) n

/-- `readSpan(br, start, len)`. -/
def readSpan (start len : Nat) : Reading Words := readSpanFrom ⟨0, 0⟩ start len

/-! ## signed fields -/

/-- `writeSigned(bw, value, bits)` of a whole number. -/
def writeSigned (w : BitWriter) (value : Int) (bits : Nat) : BitWriter :=
  w.writeBits (if value < 0 then value + 2 ^ bits else value).toNat bits

/-- `readSigned(br, bits)`. -/
def readSigned (bits : Nat) : Reading Int := do
  let u ← readBits bits
  pure (if u ≥ 2 ^ (bits - 1) then (u : Int) - 2 ^ bits else u)

/-! ## writing -/

/-- `DOD_MAX`. -/
def DOD_MAX : Int := 2 ^ 31

/-- `dod >= lo && dod <= hi`. -/
def within (lo hi : Int) (dod : F64) : Bool := F64.le (.ofInt lo) dod && F64.le dod (.ofInt hi)

/-- The whole number a double is. -/
def whole (a : F64) : Int := a.integer?.getD 0

/-- The difference and the second difference of `value` in `slot`. -/
def delta (slot : Slot) (value : F64) : F64 := F64.sub value slot.prev

/-- The second difference. -/
def dod (slot : Slot) (value : F64) : F64 := F64.sub (delta slot value) slot.prevDelta

/-- Whether `value` goes through the integer path. -/
def intMode (slot : Slot) (value : F64) : Bool :=
  value.isSafeInteger && slot.prev.isSafeInteger &&
    (F64.le (.ofInt (-DOD_MAX)) (dod slot value) && F64.lt (dod slot value) (.ofInt DOD_MAX))

/-- The payload of the integer path. -/
def writeDod (w : BitWriter) (d : F64) : BitWriter :=
  if F64.eq d .zero then w.writeBit false
  else
    let w := w.writeBit true
    if within (-64) 63 d then writeSigned (w.writeBit false) (whole d) 7
    else if within (-256) 255 d then writeSigned (w.writeBits 0b10 2) (whole d) 9
    else if within (-2048) 2047 d then writeSigned (w.writeBits 0b110 3) (whole d) 12
    else writeSigned (w.writeBits 0b111 3) (whole d) 32

def writeFirst (w : BitWriter) (slot : Slot) (value : F64) : BitWriter × Slot :=
  let w0 := f64ToWords value
  ((w.writeBits w0.hi.toNat 32).writeBits w0.lo.toNat 32,
    { slot with has := true, prev := value, prevDelta := .zero, hasWindow := false })

def xorWords (a b : F64) : Words :=
  ⟨(f64ToWords a).hi ^^^ (f64ToWords b).hi, (f64ToWords a).lo ^^^ (f64ToWords b).lo⟩

/-- The length of the meaningful middle. -/
def spanLen (x : Words) : Nat := 64 - clz64 x - ctz64 x

/-- Whether the meaningful bits lie in the window of the slot. -/
def fits (slot : Slot) (x : Words) : Bool :=
  slot.hasWindow && clz64 x ≥ slot.wLead && clz64 x + spanLen x ≤ slot.wLead + slot.wLen

/-- The XOR path. -/
def writeFloat (w : BitWriter) (slot : Slot) (value : F64) : BitWriter × Slot :=
  let w := w.writeBit true
  let x := xorWords value slot.prev
  let after : Slot := { slot with prev := value, prevDelta := .zero }
  if x.hi = 0 ∧ x.lo = 0 then (w.writeBit false, after)
  else
    let w := w.writeBit true
    if fits slot x then (writeSpan (w.writeBit false) x slot.wLead slot.wLen, after)
    else
      let w := (w.writeBit true).writeBits (clz64 x) 6
      (writeSpan (w.writeBits (spanLen x - 1) 6) x (clz64 x) (spanLen x),
        { after with hasWindow := true, wLead := clz64 x, wLen := spanLen x })

/-- `writeStreamValue(bw, slot, value)`. -/
def writeStreamValue (w : BitWriter) (slot : Slot) (value : F64) : BitWriter × Slot :=
  if !slot.has then writeFirst w slot value
  else if intMode slot value then
    (writeDod (w.writeBit false) (dod slot value),
      { slot with prev := value, prevDelta := delta slot value })
  else writeFloat w slot value

/-! ## reading -/

/-- The payload of the integer path. -/
def readDod : Reading Int := do
  if ← readBit then
    if ← readBit then
      if ← readBit then
        if ← readBit then readSigned 32 else readSigned 12
      else readSigned 9
    else readSigned 7
  else pure 0

def readFirst (slot : Slot) : Reading (F64 × Slot) := do
  let hi ← readBits 32
  let lo ← readBits 32
  let value := wordsToF64 ⟨BitVec.ofNat 32 hi, BitVec.ofNat 32 lo⟩
  pure (value, { slot with has := true, prev := value, prevDelta := .zero, hasWindow := false })

/-- The integer path. -/
def readInt (slot : Slot) : Reading (F64 × Slot) := do
  let d ← readDod
  let delta := F64.add slot.prevDelta (.ofInt d)
  let value := F64.add slot.prev delta
  pure (value, { slot with prev := value, prevDelta := delta })

/-- The window of the next span: the slot's own, or a new one. -/
def readWindow (slot : Slot) : Reading Slot := do
  if ← readBit then
    let lead ← readBits 6
    let len ← readBits 6
    pure { slot with hasWindow := true, wLead := lead, wLen := len + 1 }
  else pure slot

/-- The value of the XOR path, and the window it came through. -/
def readXor (slot : Slot) : Reading (F64 × Slot) := do
  if ← readBit then
    let slot ← readWindow slot
    let x ← readSpan slot.wLead slot.wLen
    let pv := f64ToWords slot.prev
    pure (wordsToF64 ⟨x.hi ^^^ pv.hi, x.lo ^^^ pv.lo⟩, slot)
  else pure (slot.prev, slot)

/-- The XOR path. -/
def readFloat (slot : Slot) : Reading (F64 × Slot) := do
  let (value, slot) ← readXor slot
  pure (value, { slot with prev := value, prevDelta := .zero })

/-- `readStreamValue(br, slot)`. -/
def readStreamValue (slot : Slot) : Reading (F64 × Slot) := do
  if !slot.has then readFirst slot
  else if ← readBit then readFloat slot
  else readInt slot

end BunServe.Stream
