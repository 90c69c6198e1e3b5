import BunServe.Lib.F64
import BunServe.Wire.Buffer

/-!
# BunServe.Wire.Frame

The `0x03` frame envelope of `runtime/wire.js`: `buildBinaryFrame` sizes its
array first and writes the four header fields into it by hand,
`parseBinaryFrame` reads them with a `ByteReader`.

The numbers of the header are doubles.  On whole numbers up to `2^53` the
writer's `Math.floor(value / 128)` is the quotient and needs no rounding; the
reader adds and multiplies doubles, which is followed here operation by
operation.

* `readVarint_writeVarint` — read in doubles, a varint is exact up to `2^53 - 1`;
* `build_eq` — the array is filled from its first byte to its last, with the
  header a `ByteWriter` would have written;
* `frame_roundTrip` — a frame is parsed back.
-/

namespace BunServe.Wire.Frame

open Buffer (ByteWriter)
open Buffer.ByteWriter (low7)
open F64 (ofInt)

/-- `WIRE_BINARY_TAG`. -/
def wireBinaryTag : Nat := 0x03

/-! ## ByteReader.varint, in doubles -/

/-- The loop of `varint()`. -/
def readVarintFrom (result mul : F64) : Bytes → Option (F64 × Bytes)
  | [] => none
  | b :: bs =>
    let result := F64.add result (F64.mul (ofInt (b.toNat % 128 : Nat)) mul)
    if 0x80 ≤ b.toNat then readVarintFrom result (F64.mul mul (ofInt 128)) bs
    else some (result, bs)

/-- `varint()`: one byte is answered at once. -/
def readVarint : Bytes → Option (F64 × Bytes)
  | [] => none
  | first :: bs =>
    if first.toNat < 0x80 then some (ofInt first.toNat, bs)
    else readVarintFrom F64.zero (ofInt 1) (first :: bs)

/-! ## buildBinaryFrame -/

/-- `lengthOfVarint`, from a length so far. -/
def lengthOfVarintFrom (length value : Nat) : Nat :=
  if value > 0x7f then lengthOfVarintFrom (length + 1) (value / 128) else length
termination_by value

/-- `lengthOfVarint(value)`. -/
def lengthOfVarint (value : Nat) : Nat := lengthOfVarintFrom 1 value

/-- `headerLength`. -/
def headerLength (topicId seq : Nat) : Nat := 2 + lengthOfVarint topicId + lengthOfVarint seq

/-- The array under construction, and `at`.  A write past the end is ignored,
as a `Uint8Array` ignores it. -/
structure Filling where
  frame : Bytes
  pos : Nat

namespace Filling

/-- `io.allocate(length)`. -/
def allocate (length : Nat) : Filling := ⟨List.replicate length 0, 0⟩

/-- `frame[at++] = n`. -/
def put (f : Filling) (n : Nat) : Filling := ⟨f.frame.set f.pos (UInt8.ofNat n), f.pos + 1⟩

/-- `writeVarint(value)`. -/
def writeVarint (f : Filling) (value : Nat) : Filling :=
  if value > 0x7f then (f.put (low7 value ||| 0x80)).writeVarint (value / 128)
  else f.put (low7 value)
termination_by value

/-- `io.copy(frame, payload, at)`: throws when the payload does not fit. -/
def copy (f : Filling) (payload : Bytes) : Option Filling :=
  if f.pos + payload.length ≤ f.frame.length then
    some ⟨f.frame.take f.pos ++ payload ++ f.frame.drop (f.pos + payload.length),
      f.pos + payload.length⟩
  else none

end Filling

def writeHeader (schemaVersion topicId seq : Nat) (payload : Bytes) : Filling :=
  let f := Filling.allocate (headerLength topicId seq + payload.length)
  let f := f.put wireBinaryTag
  let f := f.put (schemaVersion &&& 0xff)
  let f := f.writeVarint topicId
  f.writeVarint seq

/-- `buildBinaryFrame(schemaVersion, topicId, seq, payload)`. -/
def buildBinaryFrame (schemaVersion topicId seq : Nat) (payload : Bytes) : Option Bytes :=
  ((writeHeader schemaVersion topicId seq payload).copy payload).map Filling.frame

/-! ## parseBinaryFrame -/

/-- What `parseBinaryFrame` answers. -/
structure Parsed where
  schemaVersion : Nat
  topicId : F64
  seq : F64
  payload : Bytes
  deriving DecidableEq

/-- `parseBinaryFrame(bytes)`; a reader that throws answers null. -/
def parseBinaryFrame (bytes : Bytes) : Option Parsed :=
  if bytes.length < 2 ∨ bytes[0]? ≠ some (UInt8.ofNat wireBinaryTag) then none
  else do
    let (_, r) ← readU8 bytes
    let (schemaVersion, r) ← readU8 r
    let (topicId, r) ← readVarint r
    let (seq, r) ← readVarint r
    pure { schemaVersion, topicId, seq, payload := r }

/-! ## a varint is read exactly -/

theorem ofInt_eq {a : F64} {n : Int} (h : a.Is n) (h0 : n ≠ 0) (hn : n.natAbs ≤ 2 ^ 53) :
    a = ofInt n := h.eq_of_ne_zero (F64.is_ofInt hn) h0

/-- The loop adds what was written, scaled by the group it stands at; below
`2^53` no addition and no multiplication rounds. -/
theorem readVarintFrom_writeVarint (value r m : Nat) {result mul : F64} (hresult : result.Is r)
    (hmul : mul.Is m) (hm : 0 < m) (h : r + value * m ≤ 2 ^ 53) (rest : Bytes) :
    ∃ a, readVarintFrom result mul (writeVarint value ++ rest) = some (a, rest) ∧
      a.Is (r + value * m : Nat) := by
  induction value using Nat.strongRecOn generalizing r m result mul with
  | ind value ih =>
    have hsmall (x : Nat) (hx : x ≤ 128) : (ofInt x).Is (x : Nat) := F64.is_ofInt (by omega)
    have hgroup : value % 128 * m ≤ value * m := Nat.mul_le_mul_right _ (Nat.mod_le _ _)
    have hadd : (F64.add result (F64.mul (ofInt (value % 128 : Nat)) mul)).Is
        (r + value % 128 * m : Nat) := by
      have hprod := (hsmall (value % 128) (by omega)).mul hmul (by omega)
      have hsum := hresult.add hprod (by omega)
      exact hsum
    rw [writeVarint]
    by_cases hlt : value > 0x7f
    · have hb := Utf8.toNat_ofNat_lt (n := value % 128 + 128) (by omega)
      have hmod : (value % 128 + 128) % 128 = value % 128 := by omega
      have hsplit : value % 128 * m + value / 128 * (m * 128) = value * m := by
        calc value % 128 * m + value / 128 * (m * 128)
            = (128 * (value / 128) + value % 128) * m := by ring
          _ = value * m := by rw [Nat.div_add_mod]
      have hscale : m * 128 ≤ value / 128 * (m * 128) :=
        Nat.le_mul_of_pos_left _ (by omega)
      have hmul' : (F64.mul mul (ofInt 128)).Is (m * 128 : Nat) := by
        have h128 : (ofInt 128).Is 128 := F64.is_ofInt (by decide)
        have hprod := hmul.mul h128 (by omega)
        exact hprod
      obtain ⟨a, hread, ha⟩ := ih (value / 128) (by omega) (r + value % 128 * m) (m * 128)
        hadd hmul' (by omega) (by omega)
      refine ⟨a, ?_, ?_⟩
      · rw [if_pos hlt, writeU8, List.singleton_append, List.cons_append, readVarintFrom]
        simp only [hb, hmod]
        exact hread
      · rwa [Nat.add_assoc, hsplit] at ha
    · have hb := Utf8.toNat_ofNat_lt (n := value) (by omega)
      have hmod : value % 128 = value := Nat.mod_eq_of_lt (by omega)
      rw [hmod] at hadd
      refine ⟨_, ?_, hadd⟩
      rw [if_neg hlt, writeU8, List.singleton_append, readVarintFrom]
      simp only [hb, hmod]
      rw [if_neg (by omega)]

/-- A varint up to `2^53 - 1` is read back as the same number. -/
theorem readVarint_writeVarint {value : Nat} (h : value < 2 ^ 53) (rest : Bytes) :
    readVarint (writeVarint value ++ rest) = some (ofInt value, rest) := by
  by_cases hlt : value > 0x7f
  · have hone : (ofInt 1).Is (1 : Nat) := F64.is_ofInt (by decide)
    obtain ⟨a, hread, ha⟩ := readVarintFrom_writeVarint value 0 1 F64.is_zero hone (by decide)
      (by omega) rest
    have hval : a = ofInt value := by
      rw [Nat.zero_add, Nat.mul_one] at ha
      exact ofInt_eq ha (by omega) (by omega)
    have hb := Utf8.toNat_ofNat_lt (n := value % 128 + 128) (by omega)
    rw [writeVarint, if_pos hlt, writeU8, List.singleton_append, List.cons_append] at hread ⊢
    rw [readVarint, if_neg (by omega), hread, hval]
  · have hb := Utf8.toNat_ofNat_lt (n := value) (by omega)
    rw [writeVarint, if_neg hlt, writeU8, List.singleton_append, readVarint, hb, if_pos (by omega)]

/-! ## the array is filled -/

theorem lengthOfVarintFrom_eq (length value : Nat) :
    lengthOfVarintFrom (length + 1) value = length + (writeVarint value).length := by
  induction value using Nat.strongRecOn generalizing length with
  | ind value ih =>
    rw [lengthOfVarintFrom, writeVarint]
    by_cases hlt : value > 0x7f
    · rw [if_pos hlt, if_pos hlt, ih _ (by omega)]
      simp only [writeU8, List.length_append, List.length_singleton]
      omega
    · rw [if_neg hlt, if_neg hlt]
      rfl

theorem lengthOfVarint_eq (value : Nat) : lengthOfVarint value = (writeVarint value).length := by
  rw [lengthOfVarint, lengthOfVarintFrom_eq, Nat.zero_add]

/-- Everything up to `at` is written, and `room` bytes are left. -/
def Filling.Holds (f : Filling) (written : Bytes) (room : Nat) : Prop :=
  f.frame = written ++ List.replicate room 0 ∧ f.pos = written.length

namespace Filling.Holds

variable {f : Filling} {written : Bytes} {room : Nat}

theorem allocate (length : Nat) : (Filling.allocate length).Holds [] length := ⟨rfl, rfl⟩

theorem put (h : f.Holds written (room + 1)) (n : Nat) :
    (f.put n).Holds (written ++ writeU8 n) room := by
  constructor
  · rw [Filling.put, h.1, h.2, List.replicate_succ]
    simp [writeU8]
  · rw [Filling.put, h.2]
    simp [writeU8]

theorem writeVarint {value : Nat} (h : f.Holds written (room + (Wire.writeVarint value).length)) :
    (f.writeVarint value).Holds (written ++ Wire.writeVarint value) room := by
  induction f, value using Filling.writeVarint.induct generalizing written with
  | case1 f value hlt ih =>
    rw [Wire.writeVarint, if_pos hlt] at h
    rw [Filling.writeVarint, Wire.writeVarint, if_pos hlt, if_pos hlt, ByteWriter.low7_or,
      ← List.append_assoc]
    rw [ByteWriter.low7_or] at ih
    apply ih
    apply put
    exact h
  | case2 f value hlt =>
    rw [Wire.writeVarint, if_neg hlt] at h
    rw [Filling.writeVarint, Wire.writeVarint, if_neg hlt, if_neg hlt, ByteWriter.low7_eq,
      Nat.mod_eq_of_lt (by omega)]
    exact put h value

theorem copy {payload : Bytes} (h : f.Holds written payload.length) :
    f.copy payload = some ⟨written ++ payload, written.length + payload.length⟩ := by
  rw [Filling.copy, h.2, h.1, List.drop_of_length_le]
  · simp
  · simp

end Filling.Holds

/-- The header, as a `ByteWriter` writes it. -/
def header (schemaVersion topicId seq : Nat) : Bytes :=
  ((((ByteWriter.new 64 (by decide)).u8 wireBinaryTag).u8 schemaVersion).varint topicId).varint seq
    |>.take

theorem header_eq (schemaVersion topicId seq : Nat) :
    header schemaVersion topicId seq =
      writeU8 wireBinaryTag ++ writeU8 schemaVersion ++ writeVarint topicId ++ writeVarint seq := by
  simp only [header, ByteWriter.take_varint]
  rfl

theorem length_header (schemaVersion topicId seq : Nat) :
    (header schemaVersion topicId seq).length = headerLength topicId seq := by
  rw [header_eq, headerLength, lengthOfVarint_eq, lengthOfVarint_eq]
  simp only [List.length_append, writeU8, List.length_singleton]

theorem and_ff {n : Nat} (h : n < 256) : n &&& 0xff = n :=
  (Nat.and_two_pow_sub_one_eq_mod n 8).trans (Nat.mod_eq_of_lt h)

theorem writeHeader_holds {schemaVersion : Nat} (h : schemaVersion < 256) (topicId seq : Nat)
    (payload : Bytes) : (writeHeader schemaVersion topicId seq payload).Holds
      (header schemaVersion topicId seq) payload.length := by
  have hroom : headerLength topicId seq + payload.length =
      payload.length + (writeVarint seq).length + (writeVarint topicId).length + 1 + 1 := by
    rw [headerLength, lengthOfVarint_eq, lengthOfVarint_eq]
    omega
  rw [header_eq, writeHeader, hroom, and_ff h]
  exact ((((Filling.Holds.allocate _).put _).put _).writeVarint).writeVarint

theorem build_eq {schemaVersion : Nat} (h : schemaVersion < 256) (topicId seq : Nat)
    (payload : Bytes) : (writeHeader schemaVersion topicId seq payload).copy payload =
      some ⟨header schemaVersion topicId seq ++ payload,
        headerLength topicId seq + payload.length⟩ := by
  rw [(writeHeader_holds h topicId seq payload).copy, length_header]

/-! ## a frame is parsed back -/

theorem parse_header {schemaVersion topicId seq : Nat} (hv : schemaVersion < 256)
    (ht : topicId < 2 ^ 53) (hs : seq < 2 ^ 53) (payload : Bytes) :
    parseBinaryFrame (header schemaVersion topicId seq ++ payload) =
      some ⟨schemaVersion, ofInt topicId, ofInt seq, payload⟩ := by
  have hbytes : header schemaVersion topicId seq ++ payload =
      UInt8.ofNat wireBinaryTag :: UInt8.ofNat schemaVersion ::
        (writeVarint topicId ++ (writeVarint seq ++ payload)) := by
    rw [header_eq]
    simp [writeU8]
  have hguard : ¬ ((header schemaVersion topicId seq ++ payload).length < 2 ∨
      (header schemaVersion topicId seq ++ payload)[0]? ≠ some (UInt8.ofNat wireBinaryTag)) := by
    rw [hbytes]
    simp
  have hu8 (n : UInt8) (bs : Bytes) : readU8 (n :: bs) = some (n.toNat, bs) := rfl
  rw [parseBinaryFrame, if_neg hguard, hbytes]
  simp only [hu8, Option.bind_eq_bind, Option.bind_some, readVarint_writeVarint ht,
    readVarint_writeVarint hs, Utf8.toNat_ofNat_lt hv, Option.pure_def]

/-- **Frames**: the frame built for a version, a topic id, a sequence number and
a payload is the header a `ByteWriter` writes for the same numbers and the
payload behind it; its bytes reach the end of the allocated array and no
further; and it is parsed back into the same four parts. -/
theorem frame_roundTrip {schemaVersion topicId seq : Nat} (hv : schemaVersion < 256)
    (ht : topicId < 2 ^ 53) (hs : seq < 2 ^ 53) (payload : Bytes) :
    ∃ frame, buildBinaryFrame schemaVersion topicId seq payload = some frame ∧
      frame.take (headerLength topicId seq) = header schemaVersion topicId seq ∧
      (writeHeader schemaVersion topicId seq payload).pos + payload.length =
        (Filling.allocate (headerLength topicId seq + payload.length)).frame.length ∧
      frame.length = headerLength topicId seq + payload.length ∧
      parseBinaryFrame frame =
        some ⟨schemaVersion, ofInt topicId, ofInt seq, payload⟩ := by
  have hlen := length_header schemaVersion topicId seq
  refine ⟨header schemaVersion topicId seq ++ payload, ?_, ?_, ?_, ?_,
    parse_header hv ht hs payload⟩
  · rw [buildBinaryFrame, build_eq hv, Option.map_some]
  · exact List.take_left' hlen
  · rw [(writeHeader_holds hv topicId seq payload).2, hlen, Filling.allocate,
      List.length_replicate]
  · rw [List.length_append, hlen]

/-- Both numbers at a border of their encoding. -/
theorem frame_roundTrip_borders : ∃ frame, buildBinaryFrame 255 128 (2 ^ 53 - 1) [7] = some frame ∧
    frame.take (headerLength 128 (2 ^ 53 - 1)) = header 255 128 (2 ^ 53 - 1) ∧
    (writeHeader 255 128 (2 ^ 53 - 1) [7]).pos + 1 =
      (Filling.allocate (headerLength 128 (2 ^ 53 - 1) + 1)).frame.length ∧
    frame.length = headerLength 128 (2 ^ 53 - 1) + 1 ∧
    parseBinaryFrame frame = some ⟨255, ofInt 128, ofInt (2 ^ 53 - 1), [7]⟩ :=
  frame_roundTrip (by decide) (by decide) (by decide) [7]

end BunServe.Wire.Frame
