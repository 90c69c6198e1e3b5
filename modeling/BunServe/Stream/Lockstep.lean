import BunServe.Stream.Span
import Mathlib.Tactic.Linarith

/-!
# BunServe.Stream.Lockstep

Writer and reader of a stream slot, side by side.

The integer path adds in doubles, so it is right only while the differences are
exact.  They are: the first difference changes by less than `2^31` a step and
moves the value by itself, so it cannot outgrow the safe integers it moves in
(`Swing`, kept by `swing_step`), and a difference that is not exact is too large
for the path anyway (`intMode_spec`).

What the reader cannot see is the sign of a zero.  `-0` is a safe integer, so it
takes the integer path; the reader adds integers, never gets `-0`, and the two
slots differ in the sign of `prev`, which the next XOR passes on to its value.

* `reads_value` — a value is read back, slot and all, or it is such a zero;
* `lockstep_iff` — a sequence is in step exactly if no `-0` takes the integer
  path;
* `sign_flipped` — after `5, -0` the number `0.5` is read as `-0.5`.
-/

namespace BunServe.Stream

open Bits
open F64 (add bias eq is_ofInt maxSafe ofInt)

/-! ## the first difference is bounded -/

/-- How far a difference can have grown at `p`: it took the way from the end of
the range it points away from. -/
structure Swing (p D : Int) : Prop where
  up : 0 ≤ D → D * D ≤ 2 ^ 32 * (p + maxSafe)
  down : D ≤ 0 → D * D ≤ 2 ^ 32 * (maxSafe - p)

theorem swing_up {p D d L : Int} (hp : -L ≤ p) (hD : 0 ≤ D → D * D ≤ 2 ^ 32 * (p + L))
    (hlo : -2 ^ 31 ≤ d) (hhi : d ≤ 2 ^ 31) (h : 0 ≤ D + d) :
    (D + d) * (D + d) ≤ 2 ^ 32 * (p + (D + d) + L) := by
  by_cases hneg : D < 0
  · -- the step alone made it positive
    nlinarith
  · have hold := hD (by omega)
    by_cases hle : d ≤ 0
    · nlinarith
    · nlinarith

theorem swing_step {p D d : Int} (hs : Swing p D) (hlo : -maxSafe ≤ p) (hhi : p ≤ maxSafe)
    (hd : -2 ^ 31 ≤ d) (hd' : d ≤ 2 ^ 31) : Swing (p + (D + d)) (D + d) := by
  constructor
  · intro h
    exact swing_up hlo hs.up hd hd' h
  intro h
  have hdown : 0 ≤ -D → -D * -D ≤ 2 ^ 32 * (-p + maxSafe) := by
    intro hD
    have := hs.down (by omega)
    rw [Int.neg_mul_neg, Int.add_comm]
    exact this
  have hup := swing_up (d := -d) (by omega) hdown (by omega) (by omega)
    (by omega)
  nlinarith

/-- A difference within its swing is far below `2^53`. -/
theorem Swing.small {p D : Int} (hs : Swing p D) (hlo : -maxSafe ≤ p) (hhi : p ≤ maxSafe) :
    -2 ^ 43 ≤ D ∧ D ≤ 2 ^ 43 := by
  have hsq : D * D ≤ 2 ^ 86 := by
    unfold maxSafe at hlo hhi
    have hup := hs.up
    have hdown := hs.down
    unfold maxSafe at hup hdown
    by_cases h : 0 ≤ D
    · omega
    · omega
  constructor
  · nlinarith
  · nlinarith

/-! ## the slot of a run -/

/-- What holds of every slot a run reaches. -/
structure Bounded (slot : Slot) : Prop where
  finite : slot.prev.isFinite = true
  window : slot.hasWindow = true → slot.wLead + slot.wLen ≤ 64
  swing : ∃ D : Int, slot.prevDelta.Is D ∧
    ∀ p : Int, slot.prev.Is p → -maxSafe ≤ p → p ≤ maxSafe → Swing p D

theorem swing_zero {p : Int} (hlo : -maxSafe ≤ p) (hhi : p ≤ maxSafe) : Swing p 0 := by
  constructor
  · intro _
    omega
  · intro _
    omega

theorem bounded_reset {slot : Slot} (hf : slot.prev.isFinite = true)
    (hw : slot.hasWindow = true → slot.wLead + slot.wLen ≤ 64) (hd : slot.prevDelta = .zero) :
    Bounded slot :=
  ⟨hf, hw, 0, hd ▸ F64.is_zero, fun _ _ hlo hhi => swing_zero hlo hhi⟩

theorem bounded_create : Bounded createStreamSlot :=
  bounded_reset (by decide) (by decide) rfl

/-- The numbers of a step of the integer path. -/
structure IntStep (slot : Slot) (v : F64) (x p D : Int) : Prop where
  value : v.Is x
  prev : slot.prev.Is p
  prevDelta : slot.prevDelta.Is D
  safe : -maxSafe ≤ x ∧ x ≤ maxSafe
  safePrev : -maxSafe ≤ p ∧ p ≤ maxSafe
  swing : Swing p D
  delta : (delta slot v).Is (x - p)
  dod : (dod slot v).Is (x - p - D)
  range : -DOD_MAX ≤ x - p - D ∧ x - p - D < DOD_MAX

theorem natAbs_is {a : F64} {n : Int} (h : a.Is n) : a.value.natAbs = n.natAbs * F64.unit := by
  rw [h.2, Int.natAbs_mul, Int.natAbs_natCast]

theorem not_in_range {a : F64} (h : 2 ^ 52 * F64.unit ≤ a.value.natAbs) :
    ¬ (F64.le (.ofInt (-DOD_MAX)) a = true ∧ F64.lt a (.ofInt DOD_MAX) = true) := by
  intro hr
  have hlo : (ofInt (-DOD_MAX)).value = -DOD_MAX * F64.unit :=
    (is_ofInt (by decide)).2
  have hhi : (ofInt DOD_MAX).value = DOD_MAX * F64.unit :=
    (is_ofInt (by decide)).2
  have hle : -DOD_MAX * F64.unit ≤ a.value := by
    have := hr.1
    unfold F64.le at this
    simp only [Bool.and_eq_true, decide_eq_true_eq] at this
    rw [← hlo]
    exact this.2
  have hlt : a.value < DOD_MAX * F64.unit := by
    have := hr.2
    unfold F64.lt at this
    simp only [Bool.and_eq_true, decide_eq_true_eq] at this
    rw [← hhi]
    exact this.2
  unfold DOD_MAX at hle hlt
  omega

/-- Taking a difference from a number beyond `2^53`. -/
theorem add_far {a b : F64} {y : Int} (ha : a.isFinite = true) (hb : b.Is y)
    (hlo : 2 ^ 53 * F64.unit ≤ a.value.natAbs) (hhi : a.value.natAbs ≤ 2 ^ 60 * F64.unit)
    (hy : y.natAbs ≤ 2 ^ 43) :
    (add a b).isFinite = true ∧ 2 ^ 52 * F64.unit ≤ (add a b).value.natAbs := by
  have hbabs : b.value.natAbs ≤ 2 ^ 43 * F64.unit := by
    rw [natAbs_is hb]
    exact Nat.mul_le_mul_right _ hy
  have hpow : 2 ^ (52 + bias) = 2 ^ 52 * F64.unit := Nat.pow_add 2 52 _
  have hsumLo : 2 ^ 52 * F64.unit ≤ (a.value + b.value).natAbs := by omega
  have hsumHi : (a.value + b.value).natAbs ≤ 2 ^ 61 * F64.unit := by omega
  have hadd := F64.natAbs_add ha hb.1 (hpow ▸ hsumLo)
    (F64.lt_of_le_units hsumHi (by decide))
  exact ⟨hadd.1, hpow ▸ hadd.2.1⟩

/-- The sum of two integers beyond `2^53` stays there. -/
theorem add_large {a b : F64} {x y : Int} (ha : a.Is x) (hb : b.Is y) (h : ¬ (x + y).natAbs ≤ 2 ^ 53)
    (h' : (x + y).natAbs ≤ 2 ^ 60) :
    (add a b).isFinite = true ∧ 2 ^ 53 * F64.unit ≤ (add a b).value.natAbs ∧
      (add a b).value.natAbs ≤ 2 * ((x + y).natAbs * F64.unit) := by
  have hsum : (a.value + b.value).natAbs = (x + y).natAbs * F64.unit := by
    rw [ha.2, hb.2, ← Int.add_mul, Int.natAbs_mul, Int.natAbs_natCast]
  have hlo : 2 ^ (53 + bias) ≤ (a.value + b.value).natAbs := by
    rw [hsum, Nat.pow_add]
    exact Nat.mul_le_mul_right _ (Nat.le_of_not_le h)
  have hhi : (a.value + b.value).natAbs < 2 ^ (bias + 900) := by
    rw [hsum]
    exact F64.lt_of_le_units (Nat.mul_le_mul_right _ h') (by decide)
  have hadd := F64.natAbs_add ha.1 hb.1 hlo hhi
  rwa [hsum, Nat.pow_add] at hadd

theorem intMode_spec {slot : Slot} {v : F64} (hb : Bounded slot) (hm : intMode slot v = true) :
    ∃ x p D, IntStep slot v x p D := by
  unfold intMode at hm
  simp only [Bool.and_eq_true] at hm
  obtain ⟨⟨hv, hp⟩, hrange⟩ := hm
  obtain ⟨x, hx, hxlo, hxhi⟩ := F64.isSafeInteger_iff.mp hv
  obtain ⟨p, hpis, hplo, hphi⟩ := F64.isSafeInteger_iff.mp hp
  obtain ⟨D, hD, hswing⟩ := hb.swing
  have hs := hswing p hpis hplo hphi
  obtain ⟨hDlo, hDhi⟩ := hs.small hplo hphi
  have hmax : maxSafe = 2 ^ 53 - 1 := rfl
  have hpneg := hpis.neg
  have hDneg := hD.neg
  -- the exact second difference is the double, or it is too large for the path
  by_cases hsmall : (x - p).natAbs ≤ 2 ^ 53
  · have hdelta : (delta slot v).Is (x - p) := hx.sub hpis hsmall
    by_cases hdod : (x - p - D).natAbs ≤ 2 ^ 53
    · have hd : (dod slot v).Is (x - p - D) := hdelta.sub hD hdod
      refine ⟨x, p, D, hx, hpis, hD, ⟨hxlo, hxhi⟩, ⟨hplo, hphi⟩, hs, hdelta, hd, ?_, ?_⟩
      · exact ((is_ofInt (by decide)).le_iff hd).mp hrange.1
      · exact (hd.lt_iff (is_ofInt (by decide))).mp hrange.2
    · obtain ⟨-, hlarge, -⟩ := add_large hdelta hDneg (by omega) (by omega)
      refine absurd hrange (not_in_range (Nat.le_trans ?_ hlarge))
      exact Nat.mul_le_mul_right _ (by decide)
  · obtain ⟨hf, hlo, hhi⟩ := add_large hx hpneg (by omega) (by omega)
    have hfar : (x + -p).natAbs * F64.unit ≤ 2 ^ 54 * F64.unit := Nat.mul_le_mul_right _ (by omega)
    have hup : (add v slot.prev.neg).value.natAbs ≤ 2 ^ 60 * F64.unit := by omega
    obtain ⟨-, hlarge⟩ := add_far hf hDneg hlo hup (by omega)
    exact absurd hrange (not_in_range hlarge)

/-! ## the paths of a value -/

section

variable {slot : Slot} {v : F64}

/-- The slot behind the XOR path. -/
def Slot.after (slot : Slot) (v : F64) : Slot := { slot with prev := v, prevDelta := .zero }

/-- The slot of a new window. -/
def Slot.widen (slot : Slot) (x : Words) : Slot :=
  { slot with hasWindow := true, wLead := clz64 x, wLen := spanLen x }

theorem write_first (hhas : slot.has = false) (w : BitWriter) :
    writeStreamValue w slot v = writeFirst w slot v := by
  unfold writeStreamValue
  rw [hhas]
  rfl

theorem write_int (hhas : slot.has = true) (hm : intMode slot v = true) (w : BitWriter) :
    writeStreamValue w slot v = (writeDod (w.writeBit false) (dod slot v),
      { slot with prev := v, prevDelta := delta slot v }) := by
  unfold writeStreamValue
  rw [hhas, hm]
  rfl

theorem write_float (hhas : slot.has = true) (hm : ¬ intMode slot v = true) (w : BitWriter) :
    writeStreamValue w slot v = writeFloat w slot v := by
  unfold writeStreamValue
  rw [hhas, if_neg hm]
  rfl

theorem writeFloat_same (hx : (xorWords v slot.prev).hi = 0 ∧ (xorWords v slot.prev).lo = 0)
    (w : BitWriter) : writeFloat w slot v = ((w.writeBit true).writeBit false, slot.after v) := by
  unfold writeFloat
  rw [if_pos hx]
  rfl

theorem writeFloat_fit (hx : ¬ ((xorWords v slot.prev).hi = 0 ∧ (xorWords v slot.prev).lo = 0))
    (hfit : fits slot (xorWords v slot.prev) = true) (w : BitWriter) :
    writeFloat w slot v = (writeSpan (((w.writeBit true).writeBit true).writeBit false)
      (xorWords v slot.prev) slot.wLead slot.wLen, slot.after v) := by
  unfold writeFloat
  rw [if_neg hx, if_pos hfit]
  rfl

theorem writeFloat_window (hx : ¬ ((xorWords v slot.prev).hi = 0 ∧ (xorWords v slot.prev).lo = 0))
    (hfit : ¬ fits slot (xorWords v slot.prev) = true) (w : BitWriter) :
    writeFloat w slot v = (writeSpan (((((w.writeBit true).writeBit true).writeBit true).writeBits
      (clz64 (xorWords v slot.prev)) 6).writeBits (spanLen (xorWords v slot.prev) - 1) 6)
      (xorWords v slot.prev) (clz64 (xorWords v slot.prev)) (spanLen (xorWords v slot.prev)),
      (slot.widen (xorWords v slot.prev)).after v) := by
  unfold writeFloat
  rw [if_neg hx, if_neg hfit]
  rfl

end

/-! ## one value, written and read -/

/-- The slot of the writer after `value`. -/
def nextSlot (slot : Slot) (value : F64) : Slot := (writeStreamValue .new slot value).2

theorem snd_writeStreamValue (w : BitWriter) (slot : Slot) (value : F64) :
    (writeStreamValue w slot value).2 = nextSlot slot value := by
  unfold nextSlot
  cases hhas : slot.has with
  | false =>
    rw [write_first hhas, write_first hhas]
    rfl
  | true =>
    by_cases hm : intMode slot value = true
    · rw [write_int hhas hm, write_int hhas hm]
    · rw [write_float hhas hm, write_float hhas hm]
      by_cases hx : (xorWords value slot.prev).hi = 0 ∧ (xorWords value slot.prev).lo = 0
      · rw [writeFloat_same hx, writeFloat_same hx]
      · by_cases hfit : fits slot (xorWords value slot.prev) = true
        · rw [writeFloat_fit hx hfit, writeFloat_fit hx hfit]
        · rw [writeFloat_window hx hfit, writeFloat_window hx hfit]

/-- The writer appends `bs` for `value`, and the reader makes `x` of them. -/
structure Coded (slot : Slot) (value : F64) (bs : List Bool) (x : F64) (slot' : Slot) : Prop where
  writes : Writes (fun w => (writeStreamValue w slot value).1) bs
  reads : Reads (readStreamValue slot) bs (x, slot')

section

variable {slot : Slot} {v : F64}

theorem coded_first (hhas : slot.has = false) : ∃ bs, Coded slot v bs v (nextSlot slot v) := by
  have hw := (writes_bits (f64ToWords v).hi.toNat 32).comp (writes_bits (f64ToWords v).lo.toNat 32)
  have hr : Reads (readFirst slot) (toBits 32 (f64ToWords v).hi.toNat ++
      toBits 32 (f64ToWords v).lo.toNat) (wordsToF64 ⟨BitVec.ofNat 32 (f64ToWords v).hi.toNat,
        BitVec.ofNat 32 (f64ToWords v).lo.toNat⟩, _) :=
    (reads_bits (f64ToWords v).hi.isLt).bind (reads_bits (f64ToWords v).lo.isLt).map
  have hback : wordsToF64 ⟨BitVec.ofNat 32 (f64ToWords v).hi.toNat,
      BitVec.ofNat 32 (f64ToWords v).lo.toNat⟩ = v := by
    rw [BitVec.ofNat_toNat, BitVec.ofNat_toNat]
    exact wordsToF64_f64ToWords v
  rw [hback] at hr
  have hnext : nextSlot slot v = (writeFirst .new slot v).2 := by
    rw [nextSlot, write_first hhas]
  have hread : readStreamValue slot = readFirst slot := by
    simp [readStreamValue, hhas]
  refine ⟨toBits 32 (f64ToWords v).hi.toNat ++ toBits 32 (f64ToWords v).lo.toNat, ?_, ?_⟩
  · simp only [write_first hhas, writeFirst]
    exact hw
  · rw [hread, hnext]
    exact hr

theorem readStreamValue_has (hhas : slot.has = true) :
    readStreamValue slot = readBit >>= fun b => if b = true then readFloat slot else readInt slot := by
  simp [readStreamValue, hhas]

theorem reads_xor {bs : List Bool} {slot' : Slot} (hwin : Reads (readWindow slot) bs slot')
    (hprev : slot'.prev = slot.prev) (hin : slot'.wLead + slot'.wLen ≤ 64)
    (hout : ∀ p, p < 64 → p < slot'.wLead ∨ slot'.wLead + slot'.wLen ≤ p →
      bitAt (xorWords v slot.prev) p = false) :
    Reads (readFloat slot)
      ([true] ++ (bs ++ spanBits (xorWords v slot.prev) slot'.wLead slot'.wLen))
      (v, slot'.after v) := by
  have hvalue : wordsToF64 ⟨(xorWords v slot.prev).hi ^^^ (f64ToWords slot'.prev).hi,
      (xorWords v slot.prev).lo ^^^ (f64ToWords slot'.prev).lo⟩ = v := by
    rw [hprev, xor_cancel]
  have hspan := (reads_span hin hout).map
    (f := fun x => (wordsToF64 ⟨x.hi ^^^ (f64ToWords slot'.prev).hi,
      x.lo ^^^ (f64ToWords slot'.prev).lo⟩, slot'))
  rw [hvalue] at hspan
  have hxor : Reads (readXor slot)
      ([true] ++ (bs ++ spanBits (xorWords v slot.prev) slot'.wLead slot'.wLen)) (v, slot') := by
    exact (reads_bit true).bind (hwin.bind hspan)
  exact hxor.map

theorem coded_float (hb : Bounded slot) (hhas : slot.has = true) (hm : ¬ intMode slot v = true) :
    ∃ bs, Coded slot v bs v (nextSlot slot v) := by
  have hnext : nextSlot slot v = (writeFloat .new slot v).2 := by
    rw [nextSlot, write_float hhas hm]
  have hcoded : ∀ bs, Writes (fun w => (writeFloat w slot v).1) ([true] ++ bs) →
      Reads (readFloat slot) bs (v, nextSlot slot v) → ∃ bs, Coded slot v bs v (nextSlot slot v) := by
    intro bs hw hr
    refine ⟨[true] ++ bs, ?_, ?_⟩
    · simp only [write_float hhas hm]
      exact hw
    · rw [readStreamValue_has hhas]
      exact (reads_bit true).bind hr
  by_cases hx : (xorWords v slot.prev).hi = 0 ∧ (xorWords v slot.prev).lo = 0
  · have hw := (writes_bit true).comp (writes_bit false)
    have hsame : v = slot.prev := xor_eq_zero hx
    have hxor : Reads (readXor slot) [false] (slot.prev, slot) :=
      (reads_bit false).bind (reads_pure (slot.prev, slot))
    have hr := hxor.map (f := fun y => (y.1, { y.2 with prev := y.1, prevDelta := F64.zero }))
    apply hcoded [false]
    · simp only [writeFloat_same hx]
      exact hw
    · rw [hnext, writeFloat_same hx, hsame]
      exact hr
  · obtain ⟨hone, hroom, hzero⟩ := spanLen_spec hx
    obtain ⟨hlead, -, -⟩ := clz64_spec hx
    by_cases hfit : fits slot (xorWords v slot.prev) = true
    · have hin := hfit
      unfold fits at hin
      simp only [Bool.and_eq_true, decide_eq_true_eq] at hin
      have hw := (writes_bit true).comp ((writes_bit true).comp ((writes_bit false).comp
        (writes_span (xorWords v slot.prev) slot.wLead slot.wLen)))
      have hwin : Reads (readWindow slot) [false] slot := (reads_bit false).bind (reads_pure slot)
      have hr := reads_xor hwin rfl (hb.window hin.1.1) fun p hp hout => hzero p hp (by omega)
      apply hcoded ([true] ++ ([false] ++ spanBits (xorWords v slot.prev) slot.wLead slot.wLen))
      · simp only [writeFloat_fit hx hfit]
        exact hw
      · rw [hnext, writeFloat_fit hx hfit]
        exact hr
    · have hw := (writes_bit true).comp ((writes_bit true).comp ((writes_bit true).comp
        ((writes_bits (clz64 (xorWords v slot.prev)) 6).comp
          ((writes_bits (spanLen (xorWords v slot.prev) - 1) 6).comp
            (writes_span (xorWords v slot.prev) (clz64 (xorWords v slot.prev))
              (spanLen (xorWords v slot.prev)))))))
      have hfields := ((reads_bits (n := 6) (by omega)).bind
        (f := fun lead => readBits 6 >>= fun len => pure ({ slot with
            hasWindow := true
            wLead := lead
            wLen := len + 1 } : Slot))
        (reads_bits (v := spanLen (xorWords v slot.prev) - 1) (by omega)).map)
      rw [show spanLen (xorWords v slot.prev) - 1 + 1 = spanLen (xorWords v slot.prev) by omega]
        at hfields
      have hwin : Reads (readWindow slot) _ (slot.widen (xorWords v slot.prev)) :=
        (reads_bit true).bind hfields
      have hr := reads_xor hwin rfl hroom hzero
      apply hcoded
      · simp only [writeFloat_window hx hfit]
        exact hw
      · rw [hnext, writeFloat_window hx hfit]
        exact hr

/-- The integer path: the reader comes to the same number, and to the same slot
unless the number is `-0`. -/
theorem coded_int (hb : Bounded slot) (hhas : slot.has = true) (hm : intMode slot v = true) :
    ∃ bs x slot', Coded slot v bs x slot' ∧ slot'.prev = x ∧ x ≠ .negZero ∧
      (v ≠ .negZero → x = v ∧ slot' = nextSlot slot v) := by
  obtain ⟨n, p, D, hs⟩ := intMode_spec hb hm
  have hnext : nextSlot slot v = { slot with prev := v, prevDelta := delta slot v } := by
    rw [nextSlot, write_int hhas hm]
  have hsmall := hs.swing.small hs.safePrev.1 hs.safePrev.2
  have hmax : maxSafe = 2 ^ 53 - 1 := rfl
  have hDOD : DOD_MAX = 2 ^ 31 := rfl
  have hrange := hs.range
  have hsafe := hs.safe
  -- the reader's sums, in integers
  have hd := is_ofInt (n := n - p - D) (by omega)
  have hd0 := F64.ofInt_ne_negZero (n := n - p - D) (by omega)
  have hdelta := hs.prevDelta.add hd (by omega)
  have hdelta0 := F64.add_ne_negZero hs.prevDelta hd (by omega) (Or.inr hd0)
  have hvalue := hs.prev.add hdelta (by omega)
  have hvalue0 := F64.add_ne_negZero hs.prev hdelta (by omega) (Or.inr hdelta0)
  have hw := (writes_bit false).comp (writes_dod hs.dod)
  have hr := (reads_dod hs.range.1 hs.range.2).map (f := fun d =>
    (add slot.prev (add slot.prevDelta (.ofInt d)), { slot with
      prev := add slot.prev (add slot.prevDelta (.ofInt d))
      prevDelta := add slot.prevDelta (.ofInt d) }))
  refine ⟨[false] ++ dodBits (n - p - D),
    add slot.prev (add slot.prevDelta (.ofInt (n - p - D))), { slot with
      prev := add slot.prev (add slot.prevDelta (.ofInt (n - p - D)))
      prevDelta := add slot.prevDelta (.ofInt (n - p - D)) }, ⟨?_, ?_⟩, rfl, hvalue0, ?_⟩
  · simp only [write_int hhas hm]
    exact hw
  · rw [readStreamValue_has hhas]
    exact (reads_bit false).bind hr
  intro hne
  have hsub0 : delta slot v ≠ .negZero := by
    have hneg := hs.prev.neg
    exact F64.add_ne_negZero hs.value hneg (by omega) (Or.inl hne)
  rw [show D + (n - p - D) = n - p by omega] at hdelta
  rw [show p + (D + (n - p - D)) = n by omega] at hvalue
  have hdeltaEq := hdelta.eq_of_ne_negZero hs.delta hdelta0 hsub0
  have hvalueEq := hvalue.eq_of_ne_negZero hs.value hvalue0 hne
  rw [hnext, hvalueEq, hdeltaEq]
  exact ⟨rfl, rfl⟩

/-- Whether the sign of `v` is lost: a negative zero on the integer path. -/
def SignLost (slot : Slot) (v : F64) : Prop :=
  v = .negZero ∧ slot.has = true ∧ intMode slot v = true

theorem reads_value (hb : Bounded slot) (v : F64) :
    ∃ bs x slot', Coded slot v bs x slot' ∧
      ((¬ SignLost slot v ∧ x = v ∧ slot' = nextSlot slot v) ∨
        (SignLost slot v ∧ slot' ≠ nextSlot slot v)) := by
  cases hhas : slot.has with
  | false =>
    obtain ⟨bs, hc⟩ := coded_first hhas
    refine ⟨bs, v, _, hc, Or.inl ⟨?_, rfl, rfl⟩⟩
    intro hl
    rw [hl.2.1] at hhas
    contradiction
  | true =>
    by_cases hm : intMode slot v = true
    · obtain ⟨bs, x, slot', hc, hprev, hx, hsame⟩ := coded_int hb hhas hm
      refine ⟨bs, x, slot', hc, ?_⟩
      by_cases hv : v = .negZero
      · refine Or.inr ⟨⟨hv, hhas, hm⟩, ?_⟩
        intro heq
        rw [heq, nextSlot, write_int hhas hm] at hprev
        exact hx (hprev.symm.trans hv)
      · exact Or.inl ⟨fun hl => hv hl.1, hsame hv⟩
    · obtain ⟨bs, hc⟩ := coded_float hb hhas hm
      exact ⟨bs, v, _, hc, Or.inl ⟨fun hl => hm hl.2.2, rfl, rfl⟩⟩

theorem bounded_next (hb : Bounded slot) (hv : v.isFinite = true) : Bounded (nextSlot slot v) := by
  unfold nextSlot
  cases hhas : slot.has with
  | false =>
    rw [write_first hhas]
    exact bounded_reset hv (by intro h; contradiction) rfl
  | true =>
    by_cases hm : intMode slot v = true
    · obtain ⟨n, p, D, hs⟩ := intMode_spec hb hm
      rw [write_int hhas hm]
      refine ⟨hv, hb.window, n - p, hs.delta, ?_⟩
      intro q hq _ _
      have hqn := hq.unique hs.value
      have hDOD : DOD_MAX = 2 ^ 31 := rfl
      have hrange := hs.range
      have hstep := swing_step hs.swing hs.safePrev.1 hs.safePrev.2 (d := n - p - D) (by omega)
        (by omega)
      rw [show D + (n - p - D) = n - p by omega, show p + (n - p) = n by omega] at hstep
      rw [hqn]
      exact hstep
    · rw [write_float hhas hm]
      by_cases hx : (xorWords v slot.prev).hi = 0 ∧ (xorWords v slot.prev).lo = 0
      · rw [writeFloat_same hx]
        exact bounded_reset hv hb.window rfl
      · by_cases hfit : fits slot (xorWords v slot.prev) = true
        · rw [writeFloat_fit hx hfit]
          exact bounded_reset hv hb.window rfl
        · rw [writeFloat_window hx hfit]
          exact bounded_reset hv (fun _ => (spanLen_spec hx).2.1) rfl

end

/-! ## a whole sequence -/

def writeAll (w : BitWriter) (slot : Slot) : List F64 → BitWriter
  | [] => w
  | v :: vs => writeAll (writeStreamValue w slot v).1 (writeStreamValue w slot v).2 vs

/-- The reader at `r` follows the writer at `w` through a sequence: each value is
the same number, and the same double where it is not an integer; each read takes
the bits that were written for it; and the two slots stay equal. -/
def Lockstep (sw sr : Slot) (w : BitWriter) (r : BitReader) : List F64 → Prop
  | [] => True
  | v :: vs => ∃ x sr' r', readStreamValue sr r = some ((x, sr'), r') ∧
      eq v x = true ∧ (v.integer? = none → x = v) ∧
      r'.pos - r.pos = (writeStreamValue w sw v).1.bits.length - w.bits.length ∧
      sr' = (writeStreamValue w sw v).2 ∧
      Lockstep (writeStreamValue w sw v).2 sr' (writeStreamValue w sw v).1 r' vs

/-- No negative zero takes the integer path. -/
def Undrifted (slot : Slot) : List F64 → Prop
  | [] => True
  | v :: vs => ¬ (v = .negZero ∧ slot.has = true ∧ intMode slot v = true) ∧
      Undrifted (writeStreamValue .new slot v).2 vs

theorem eq_self {v : F64} (hv : v.isFinite = true) : eq v v = true := by
  unfold eq
  simp [F64.not_isNaN_of_isFinite hv]

theorem lockstep_from {slot : Slot} (hb : Bounded slot) (vs : List F64)
    (hf : ∀ v ∈ vs, v.isFinite = true) :
    ∃ bs, Writes (fun w => writeAll w slot vs) bs ∧ ∀ w r rest, w.Ok → r.Ok →
      r.rest = bs ++ rest → (Lockstep slot slot w r vs ↔ Undrifted slot vs) := by
  induction vs generalizing slot with
  | nil => exact ⟨[], writes_id, fun _ _ _ _ _ _ => Iff.rfl⟩
  | cons v vs ih =>
    have hv : v.isFinite = true := hf v (List.mem_cons_self ..)
    obtain ⟨bs, x, slot', hc, hcase⟩ := reads_value hb v
    obtain ⟨bsRest, hwrites, hrun⟩ := ih (bounded_next hb hv)
      fun u hu => hf u (List.mem_cons_of_mem _ hu)
    refine ⟨bs ++ bsRest, ?_, ?_⟩
    · have hcomp := hc.writes.comp hwrites
      simp only [writeAll, snd_writeStreamValue]
      exact hcomp
    · intro w r rest hw hr hrest
      rw [List.append_assoc] at hrest
      obtain ⟨r', hread, hr', -, hpos, hrest'⟩ := hc.reads r (bsRest ++ rest) hr hrest
      obtain ⟨hw', hbits⟩ := hc.writes w hw
      have hlen : (writeStreamValue w slot v).1.bits.length - w.bits.length = bs.length := by
        rw [hbits, List.length_append, Nat.add_sub_cancel_left]
      unfold Lockstep Undrifted
      rw [snd_writeStreamValue, hlen]
      cases hcase with
      | inl hsame =>
        obtain ⟨hkept, rfl, rfl⟩ := hsame
        have hiff := hrun _ r' rest hw' hr' hrest'
        constructor
        · rintro ⟨y, sr, r'', hread', -, -, -, rfl, hlater⟩
          rw [hread] at hread'
          cases hread'
          exact ⟨hkept, hiff.mp hlater⟩
        · rintro ⟨-, hlater⟩
          refine ⟨x, _, r', hread, eq_self hv, fun _ => rfl, ?_, rfl, hiff.mpr hlater⟩
          rw [hpos, Nat.add_sub_cancel_left]
      | inr hlost =>
        constructor
        · rintro ⟨y, sr, r'', hread', -, -, -, rfl, -⟩
          rw [hread] at hread'
          cases hread'
          exact absurd rfl hlost.2
        · rintro ⟨hkept, -⟩
          exact absurd hlost.1 hkept

theorem writes_each (bs : List Bool) : Writes (fun w => bs.foldl BitWriter.writeBit w) bs := by
  induction bs with
  | nil => exact writes_id
  | cons b bs ih => exact (writes_bit b).comp ih

/-- A sequence is in step exactly if no negative zero takes the integer path,
wherever in a stream it stands. -/
theorem lockstep_iff (before later : List Bool) {vs : List F64}
    (hf : ∀ v ∈ vs, v.isFinite = true) :
    Lockstep createStreamSlot createStreamSlot (before.foldl BitWriter.writeBit .new)
      ⟨(later.foldl BitWriter.writeBit (writeAll (before.foldl BitWriter.writeBit .new)
        createStreamSlot vs)).finish, before.length / 8, before.length % 8⟩ vs ↔
      Undrifted createStreamSlot vs := by
  obtain ⟨bs, hwrites, hrun⟩ := lockstep_from bounded_create _ hf
  obtain ⟨hok₀, hbits₀⟩ := writes_each before .new ok_new
  obtain ⟨hok₁, hbits₁⟩ := hwrites _ hok₀
  obtain ⟨hok₂, hbits₂⟩ := writes_each later _ hok₁
  obtain ⟨pad, hpad⟩ := bits_finish hok₂
  apply hrun _ _ (later ++ pad) hok₀
  · exact Nat.mod_lt _ (by decide)
  · have hpos : 8 * (before.length / 8) + before.length % 8 = before.length := by omega
    show (bitsOf _).drop (8 * (before.length / 8) + before.length % 8) = _
    rw [hpos, hpad, hbits₂, hbits₁, hbits₀, bits_new, List.nil_append, List.append_assoc,
      List.append_assoc, List.drop_left]

/-- The number `0.5`. -/
def half : F64 := .ofMag false (1022 * 2 ^ 52)

/-- Zeros of both signs, in step: the negative one comes after a fraction. -/
theorem lockstep_iff_mixed :
    Lockstep createStreamSlot createStreamSlot ([true].foldl BitWriter.writeBit .new)
      ⟨([false].foldl BitWriter.writeBit (writeAll ([true].foldl BitWriter.writeBit .new)
        createStreamSlot [ofInt 5, .zero, half, .negZero])).finish, 1 / 8, 1 % 8⟩
      [ofInt 5, .zero, half, .negZero] :=
  (lockstep_iff [true] [false] (by decide +kernel)).mpr
    ⟨by decide +kernel, by decide +kernel, by decide +kernel, by decide +kernel, trivial⟩

/-- The values read back through one slot. -/
def readAll (slot : Slot) : Nat → Reading (List F64)
  | 0 => pure []
  | n + 1 => do
      let (v, slot) ← readStreamValue slot
      let vs ← readAll slot n
      pure (v :: vs)

/-- After `5, -0` the number `0.5` is read as `-0.5`. -/
theorem sign_flipped :
    (readAll createStreamSlot 3 (.new (writeAll .new createStreamSlot
      [ofInt 5, .negZero, half]).finish)).map (·.1) =
        some [ofInt 5, .zero, half.neg] ∧
      ¬ Lockstep createStreamSlot createStreamSlot .new
        (.new (writeAll .new createStreamSlot [ofInt 5, .negZero, half]).finish)
        [ofInt 5, .negZero, half] := by
  refine ⟨by decide +kernel, ?_⟩
  obtain ⟨bs, hwrites, hrun⟩ := lockstep_from bounded_create [ofInt 5, .negZero, half]
    (by decide +kernel)
  obtain ⟨hok, hbits⟩ := hwrites _ ok_new
  obtain ⟨pad, hpad⟩ := bits_finish hok
  rw [hbits] at hpad
  have hiff := hrun .new (.new (writeAll .new createStreamSlot [ofInt 5, .negZero, half]).finish)
    pad ok_new (Nat.zero_lt_succ 7) hpad
  intro hlock
  obtain ⟨-, hdrift, -⟩ := hiff.mp hlock
  exact hdrift (by decide +kernel)

end BunServe.Stream
