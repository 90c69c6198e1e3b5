import BunServe.Lib.BitList
import BunServe.Lib.F64

/-!
# BunServe.Bits

The bit streams of `runtime/wire-bits.js`: `BitWriter`, `BitReader` and the
words of a double.

A writer denotes the bits it has been given (`BitWriter.bits`), a reader the
bits from its position on (`BitReader.rest`).  `Writes` and `Reads` are the
specifications the codecs above are verified against: a write appends a list of
bits, a read consumes exactly such a list.

* `writes_bits`, `reads_bits` — a field of at most 32 bits;
* `bits_finish` — what a finished stream starts with.
-/

namespace BunServe.Bits

/-! ## BitWriter -/

/-- The completed bytes, and the partial byte with the number of its bits. -/
structure BitWriter where
  bytes : List UInt8
  cur : Nat
  nbits : Nat
  deriving DecidableEq

namespace BitWriter

/-- `new BitWriter()`. -/
def new : BitWriter := ⟨[], 0, 0⟩

/-- `writeBit(b)`. -/
def writeBit (w : BitWriter) (b : Bool) : BitWriter :=
  let cur := ((w.cur <<< 1) ||| b.toNat) &&& 0xff
  if w.nbits + 1 = 8 then ⟨w.bytes ++ [UInt8.ofNat cur], 0, 0⟩
  else { w with cur := cur, nbits := w.nbits + 1 }

/-- `writeBits(value, count)`, from the top bit down. -/
def writeBits (w : BitWriter) (value : Nat) : Nat → BitWriter
  | 0 => w
  | i + 1 => writeBits (w.writeBit (value / 2 ^ i % 2 = 1)) value i

/-- `finish()`: the bytes, the last one padded on the right. -/
def finish (w : BitWriter) : List UInt8 :=
  if w.nbits > 0 then w.bytes ++ [UInt8.ofNat ((w.cur <<< (8 - w.nbits)) &&& 0xff)] else w.bytes

end BitWriter

/-! ## BitReader -/

/-- A buffer and a position in it. -/
structure BitReader where
  buf : List UInt8
  byte : Nat
  bit : Nat

/-- `new BitReader(buf)`. -/
def BitReader.new (buf : List UInt8) : BitReader := ⟨buf, 0, 0⟩

/-- A read: none is the `RangeError` of a truncated stream. -/
abbrev Reading := StateT BitReader Option

/-- `readBit()`. -/
def readBit : Reading Bool := fun r =>
  match r.buf[r.byte]? with
  | none => none
  | some b =>
    let value := (b.toNat >>> (7 - r.bit)) &&& 1 = 1
    if r.bit + 1 = 8 then some (value, { r with bit := 0, byte := r.byte + 1 })
    else some (value, { r with bit := r.bit + 1 })

/-- The loop of `readBits(count)`. -/
def readBitsFrom (v : Nat) : Nat → Reading Nat
  | 0 => pure v
  | n + 1 => do
      let b ← readBit
      readBitsFrom (v * 2 + b.toNat) n

/-- `readBits(count)`. -/
def readBits (count : Nat) : Reading Nat := readBitsFrom 0 count

/-! ## words -/

/-- Two unsigned 32-bit words. -/
structure Words where
  hi : BitVec 32
  lo : BitVec 32
  deriving DecidableEq

/-- `f64ToWords(v)`. -/
def f64ToWords (v : F64) : Words := ⟨v.bits.extractLsb' 32 32, v.bits.extractLsb' 0 32⟩

/-- `wordsToF64(hi, lo)`. -/
def wordsToF64 (x : Words) : F64 := ⟨x.hi ++ x.lo⟩

/-- `Math.clz32(x)`. -/
def clz32 (x : BitVec 32) : Nat := x.clz.toNat

/-- `clz64(hi, lo)`. -/
def clz64 (x : Words) : Nat :=
  if x.hi ≠ 0 then clz32 x.hi else if x.lo ≠ 0 then 32 + clz32 x.lo else 64

/-- `ctz32(x)`. -/
def ctz32 (x : BitVec 32) : Nat := 31 - clz32 (x &&& -x)

/-- `ctz64(hi, lo)`. -/
def ctz64 (x : Words) : Nat :=
  if x.lo ≠ 0 then ctz32 x.lo else if x.hi ≠ 0 then 32 + ctz32 x.hi else 64

/-! ## what a writer has been given -/

def bitsOf (bytes : List UInt8) : List Bool := bytes.flatMap fun b => toBits 8 b.toNat

/-- The partial byte holds what its bit count says. -/
structure BitWriter.Ok (w : BitWriter) : Prop where
  room : w.nbits < 8
  small : w.cur < 2 ^ w.nbits

/-- The bits given to `w` so far. -/
def BitWriter.bits (w : BitWriter) : List Bool := bitsOf w.bytes ++ toBits w.nbits w.cur

theorem bitsOf_append (xs ys : List UInt8) : bitsOf (xs ++ ys) = bitsOf xs ++ bitsOf ys :=
  List.flatMap_append

theorem bitsOf_singleton {n : Nat} (h : n < 256) : bitsOf [UInt8.ofNat n] = toBits 8 n := by
  have hn : (UInt8.ofNat n).toNat = n := UInt8.toNat_ofNat_of_lt' h
  simp [bitsOf, hn]

@[simp] theorem length_bitsOf (bytes : List UInt8) : (bitsOf bytes).length = 8 * bytes.length := by
  induction bytes with
  | nil => rfl
  | cons b bytes ih =>
    rw [bitsOf, List.flatMap_cons, List.length_append, length_toBits, ← bitsOf,
      List.length_cons]
    omega

theorem ok_new : BitWriter.new.Ok := ⟨by decide, by decide⟩

@[simp] theorem bits_new : BitWriter.new.bits = [] := rfl

theorem cur_writeBit {w : BitWriter} (h : w.Ok) (b : Bool) :
    ((w.cur <<< 1) ||| b.toNat) &&& 0xff = w.cur * 2 + b.toNat ∧
      w.cur * 2 + b.toNat < 2 ^ (w.nbits + 1) := by
  have hsmall := h.small
  have hpow : 2 ^ (w.nbits + 1) ≤ 2 ^ 8 := Nat.pow_le_pow_right (by decide) h.room
  have hb := Bool.toNat_lt b
  have hor : (w.cur <<< 1) ||| b.toNat = w.cur * 2 + b.toNat := by
    rw [Nat.shiftLeft_eq, Nat.mul_comm, ← Nat.two_pow_add_eq_or_of_lt (by omega)]
  have hlt : w.cur * 2 + b.toNat < 2 ^ (w.nbits + 1) := by
    omega
  refine ⟨?_, hlt⟩
  rw [hor, show 0xff = 2 ^ 8 - 1 by decide, Nat.and_two_pow_sub_one_eq_mod]
  exact Nat.mod_eq_of_lt (by omega)

/-- `f` appends `bs`. -/
def Writes (f : BitWriter → BitWriter) (bs : List Bool) : Prop :=
  ∀ w, w.Ok → (f w).Ok ∧ (f w).bits = w.bits ++ bs

theorem writes_id : Writes (fun w => w) [] := fun _ h => ⟨h, (List.append_nil _).symm⟩

theorem Writes.comp {f g : BitWriter → BitWriter} {xs ys : List Bool} (hf : Writes f xs)
    (hg : Writes g ys) : Writes (fun w => g (f w)) (xs ++ ys) := by
  intro w hw
  obtain ⟨hfok, hfbits⟩ := hf w hw
  obtain ⟨hgok, hgbits⟩ := hg (f w) hfok
  refine ⟨hgok, ?_⟩
  rw [hgbits, hfbits, List.append_assoc]

theorem writes_bit (b : Bool) : Writes (fun w => w.writeBit b) [b] := by
  intro w hw
  obtain ⟨hcur, hlt⟩ := cur_writeBit hw b
  have hroom := hw.room
  simp only [BitWriter.writeBit, hcur]
  by_cases h : w.nbits + 1 = 8
  · rw [if_pos h]
    rw [h] at hlt
    refine ⟨⟨Nat.zero_lt_succ 7, Nat.zero_lt_one⟩, ?_⟩
    have hn : w.nbits = 7 := by omega
    show bitsOf (w.bytes ++ [UInt8.ofNat (w.cur * 2 + b.toNat)]) ++ toBits 0 0 = w.bits ++ [b]
    rw [toBits, List.append_nil, bitsOf_append, bitsOf_singleton hlt, toBits_snoc, BitWriter.bits,
      hn, List.append_assoc]
  · rw [if_neg h]
    refine ⟨⟨by show w.nbits + 1 < 8; omega, hlt⟩, ?_⟩
    show bitsOf w.bytes ++ toBits (w.nbits + 1) (w.cur * 2 + b.toNat) = w.bits ++ [b]
    rw [toBits_snoc, BitWriter.bits, List.append_assoc]

/-- A field of `n` bits. -/
theorem writes_bits (value n : Nat) : Writes (fun w => w.writeBits value n) (toBits n value) := by
  induction n with
  | zero => exact writes_id
  | succ n ih =>
    have hbit : decide (value / 2 ^ n % 2 = 1) = value.testBit n := by
      rw [Nat.testBit_eq_decide_div_mod_eq]
    rw [toBits, ← hbit]
    exact (writes_bit (value / 2 ^ n % 2 = 1)).comp ih

theorem bits_finish {w : BitWriter} (h : w.Ok) : ∃ pad, bitsOf w.finish = w.bits ++ pad := by
  have hroom := h.room
  have hsmall := h.small
  unfold BitWriter.finish
  by_cases hn : w.nbits > 0
  · rw [if_pos hn]
    have hpow : 2 ^ w.nbits * 2 ^ (8 - w.nbits) = 2 ^ 8 := by
      rw [← Nat.pow_add]
      congr 1
      omega
    have hlt : w.cur * 2 ^ (8 - w.nbits) < 2 ^ 8 := by
      rw [← hpow]
      exact Nat.mul_lt_mul_of_pos_right hsmall (Nat.two_pow_pos _)
    have hbyte : (w.cur <<< (8 - w.nbits)) &&& 0xff = w.cur * 2 ^ (8 - w.nbits) := by
      rw [Nat.shiftLeft_eq, show 0xff = 2 ^ 8 - 1 by decide, Nat.and_two_pow_sub_one_eq_mod]
      exact Nat.mod_eq_of_lt hlt
    have hbits := toBits_shift w.nbits (8 - w.nbits) w.cur
    rw [show w.nbits + (8 - w.nbits) = 8 by omega] at hbits
    refine ⟨List.replicate (8 - w.nbits) false, ?_⟩
    rw [hbyte, bitsOf_append, bitsOf_singleton hlt, hbits, BitWriter.bits, List.append_assoc]
  · have hzero : w.nbits = 0 := by omega
    rw [BitWriter.bits, hzero, toBits]
    simp

/-! ## what a reader has left -/

/-- A position inside a byte. -/
def BitReader.Ok (r : BitReader) : Prop := r.bit < 8

/-- How many bits `r` has read. -/
def BitReader.pos (r : BitReader) : Nat := 8 * r.byte + r.bit

/-- The bits `r` has not read. -/
def BitReader.rest (r : BitReader) : List Bool := (bitsOf r.buf).drop r.pos

/-- `p` reads `a` from `bs` and stops exactly behind them. -/
def Reads {α : Type} (p : Reading α) (bs : List Bool) (a : α) : Prop :=
  ∀ r rest, r.Ok → r.rest = bs ++ rest →
    ∃ r', p r = some (a, r') ∧ r'.Ok ∧ r'.buf = r.buf ∧ r'.pos = r.pos + bs.length ∧ r'.rest = rest

section Reads

variable {α β : Type}

theorem reads_pure (a : α) : Reads (pure a) [] a :=
  fun r _ hr hrest => ⟨r, rfl, hr, rfl, rfl, hrest⟩

theorem Reads.bind {p : Reading α} {f : α → Reading β} {xs ys : List Bool} {a : α} {b : β}
    (hp : Reads p xs a) (hf : Reads (f a) ys b) : Reads (p >>= f) (xs ++ ys) b := by
  intro r rest hr hrest
  rw [List.append_assoc] at hrest
  obtain ⟨r₁, hr₁, hok₁, hbuf₁, hpos₁, hrest₁⟩ := hp r (ys ++ rest) hr hrest
  obtain ⟨r₂, hr₂, hok₂, hbuf₂, hpos₂, hrest₂⟩ := hf r₁ rest hok₁ hrest₁
  refine ⟨r₂, ?_, hok₂, hbuf₂.trans hbuf₁, ?_, hrest₂⟩
  · show (p r).bind (fun x => f x.1 x.2) = some (b, r₂)
    rw [hr₁]
    exact hr₂
  · rw [hpos₂, hpos₁, List.length_append, Nat.add_assoc]

theorem Reads.map {p : Reading α} {f : α → β} {xs : List Bool} {a : α} (hp : Reads p xs a) :
    Reads (p >>= fun x => pure (f x)) xs (f a) := by
  have h := hp.bind (f := fun x => pure (f x)) (reads_pure (f a))
  rwa [List.append_nil] at h

theorem getElem?_bitsOf {buf : List UInt8} {i j : Nat} (hj : j < 8) {b : UInt8}
    (hb : buf[i]? = some b) : (bitsOf buf)[8 * i + j]? = some (b.toNat.testBit (7 - j)) := by
  induction buf generalizing i with
  | nil => simp at hb
  | cons c buf ih =>
    rw [bitsOf, List.flatMap_cons]
    cases i with
    | zero =>
      obtain rfl : c = b := by simpa using hb
      rw [List.getElem?_append_left (by simp; omega), Nat.zero_add,
        getElem?_toBits hj]
    | succ i =>
      rw [List.getElem?_append_right (by simp; omega), length_toBits,
        show 8 * (i + 1) + j - 8 = 8 * i + j by omega]
      exact ih hb

theorem reads_bit (b : Bool) : Reads readBit [b] b := by
  intro r rest hr hrest
  have hok : r.bit < 8 := hr
  have hat : (bitsOf r.buf)[r.pos]? = some b := by
    have hget : (r.rest)[0]? = some b := by simp [hrest]
    rwa [BitReader.rest, List.getElem?_drop, Nat.add_zero] at hget
  have hlt : r.pos < (bitsOf r.buf).length := (List.getElem?_eq_some_iff.mp hat).1
  have hbyte : r.byte < r.buf.length := by
    rw [length_bitsOf, BitReader.pos] at hlt
    omega
  have hsome : r.buf[r.byte]? = some r.buf[r.byte] := List.getElem?_eq_getElem hbyte
  have hbit : decide ((r.buf[r.byte].toNat >>> (7 - r.bit)) &&& 1 = 1) = b := by
    have hget := getElem?_bitsOf hok hsome
    rw [← BitReader.pos, hat] at hget
    rw [Option.some.inj hget, Nat.testBit]
    rcases Nat.mod_two_eq_zero_or_one (r.buf[r.byte].toNat >>> (7 - r.bit)) with h | h
    · simp [h]
    · simp [h]
  have hdrop : (bitsOf r.buf).drop (r.pos + 1) = rest := by
    rw [← List.drop_drop, ← BitReader.rest, hrest]
    rfl
  by_cases h8 : r.bit + 1 = 8
  · refine ⟨{ r with bit := 0, byte := r.byte + 1 }, ?_, ?_, rfl, ?_, ?_⟩
    · simp only [readBit, hsome]
      rw [if_pos h8, hbit]
    · exact Nat.zero_lt_succ 7
    · show 8 * (r.byte + 1) + 0 = r.pos + 1
      unfold BitReader.pos
      omega
    · show (bitsOf r.buf).drop (8 * (r.byte + 1) + 0) = rest
      rw [← hdrop]
      congr 1
      unfold BitReader.pos
      omega
  · refine ⟨{ r with bit := r.bit + 1 }, ?_, ?_, rfl, rfl, hdrop⟩
    · simp only [readBit, hsome]
      rw [if_neg h8, hbit]
    · show r.bit + 1 < 8
      omega

theorem reads_bitsFrom (v : Nat) (bs : List Bool) :
    Reads (readBitsFrom v bs.length) bs (ofBitsFrom v bs) := by
  induction bs generalizing v with
  | nil => exact reads_pure v
  | cons b bs ih => exact (reads_bit b).bind (ih (v * 2 + b.toNat))

/-- A field of `n` bits is read back. -/
theorem reads_bits {n v : Nat} (h : v < 2 ^ n) : Reads (readBits n) (toBits n v) v := by
  have hreads := reads_bitsFrom 0 (toBits n v)
  rw [length_toBits] at hreads
  have hval : ofBitsFrom 0 (toBits n v) = v := ofBits_toBits h
  rwa [hval] at hreads

end Reads

end BunServe.Bits
