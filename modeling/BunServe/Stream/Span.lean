import BunServe.Stream

/-!
# BunServe.Stream.Span

The pieces of a stream value, each written and read back: the words of a double,
the span of its meaningful bits, signed fields and the codes of second
differences.

* `clz64_spec`, `ctz64_spec` — where the first and the last set bit are;
* `reads_span` — a span that holds every set bit is read back as the words;
* `reads_dod` — a second difference in range is read back.
-/

namespace BunServe.Stream

open Bits

/-! ## the bits of two words -/

variable {p : Nat}

theorem bitAt_hi (x : Words) (h : p < 32) : bitAt x p = x.hi.getLsbD (31 - p) := by
  rw [bitAt, if_pos h, BitVec.getLsbD_ushiftRight, Nat.add_zero]

theorem loShift_eq (h : 32 ≤ p) (h' : p < 64) : loShift p = 63 - p := by
  unfold loShift
  omega

theorem bitAt_lo (x : Words) (h : 32 ≤ p) (h' : p < 64) : bitAt x p = x.lo.getLsbD (63 - p) := by
  rw [bitAt, if_neg (by omega), BitVec.getLsbD_ushiftRight, Nat.add_zero, loShift_eq h h']

variable {x : Words}

theorem words_ext {y : Words} (h : ∀ p, p < 64 → bitAt x p = bitAt y p) : x = y := by
  have hhi : x.hi = y.hi := by
    apply BitVec.eq_of_getLsbD_eq
    intro i hi
    have hbit := h (31 - i) (by omega)
    rwa [bitAt_hi x (by omega), bitAt_hi y (by omega), show 31 - (31 - i) = i by omega] at hbit
  have hlo : x.lo = y.lo := by
    apply BitVec.eq_of_getLsbD_eq
    intro i hi
    have hbit := h (63 - i) (by omega)
    rwa [bitAt_lo x (by omega) (by omega), bitAt_lo y (by omega) (by omega),
      show 63 - (63 - i) = i by omega] at hbit
  cases x
  simp only at hhi hlo
  rw [hhi, hlo]

@[simp] theorem bitAt_zero (h : p < 64) : bitAt ⟨0, 0⟩ p = false := by
  by_cases hp : p < 32
  · rw [bitAt_hi _ hp]
    simp
  · rw [bitAt_lo _ (by omega) h]
    simp

variable {n : Nat}

theorem getLsbD_one_shift {i : Nat} (hn : n < 32) : (1#32 <<< n).getLsbD i = decide (i = n) := by
  by_cases h : i = n
  · subst h
    simp [hn]
  · by_cases hlt : i < n
    · simp [hlt, h]
    · simp [h, show i - n ≠ 0 by omega]

theorem bitAt_setBit (x : Words) {q : Nat} (hp : p < 64) (hq : q < 64) :
    bitAt (setBit x p) q = (bitAt x q || decide (q = p)) := by
  unfold setBit
  by_cases hph : p < 32
  · rw [if_pos hph]
    by_cases hqh : q < 32
    · rw [bitAt_hi _ hqh, bitAt_hi _ hqh, BitVec.getLsbD_or, getLsbD_one_shift (by omega)]
      congr 1
      rw [decide_eq_decide]
      omega
    · rw [bitAt_lo _ (by omega) hq, bitAt_lo _ (by omega) hq]
      simp [show q ≠ p by omega]
  · rw [if_neg hph, loShift_eq (by omega) hp]
    by_cases hqh : q < 32
    · rw [bitAt_hi _ hqh, bitAt_hi _ hqh]
      simp [show q ≠ p by omega]
    · rw [bitAt_lo _ (by omega) hq, bitAt_lo _ (by omega) hq, BitVec.getLsbD_or,
        getLsbD_one_shift (by omega)]
      congr 1
      rw [decide_eq_decide]
      omega

/-! ## words of a double -/

@[simp] theorem wordsToF64_f64ToWords (v : F64) : wordsToF64 (f64ToWords v) = v := by
  cases v with
  | mk bits =>
    unfold wordsToF64 f64ToWords
    congr 1
    apply BitVec.eq_of_getLsbD_eq
    intro i hi
    rw [BitVec.getLsbD_append]
    by_cases h : i < 32
    · simp [h]
    · simp [h, show i - 32 < 32 by omega, show 32 + (i - 32) = i by omega]

theorem xor_cancel (a b : F64) :
    wordsToF64 ⟨(xorWords a b).hi ^^^ (f64ToWords b).hi, (xorWords a b).lo ^^^ (f64ToWords b).lo⟩ =
      a := by
  unfold xorWords
  rw [BitVec.xor_assoc, BitVec.xor_assoc, BitVec.xor_self, BitVec.xor_self, BitVec.xor_zero,
    BitVec.xor_zero]
  exact wordsToF64_f64ToWords a

variable {a : F64}

theorem xor_eq_zero {b : F64} (h : (xorWords a b).hi = 0 ∧ (xorWords a b).lo = 0) : a = b := by
  have hcancel := xor_cancel a b
  rw [h.1, h.2] at hcancel
  have hzero : ∀ x : BitVec 32, (0 : BitVec 32) ^^^ x = x := fun x => BitVec.zero_xor
  rw [hzero, hzero] at hcancel
  rw [← hcancel]
  exact wordsToF64_f64ToWords b

/-! ## the first and the last set bit -/

/-- `Math.clz32`: the topmost set bit. -/
theorem clz32_spec {x : BitVec 32} (h : x ≠ 0) :
    clz32 x < 32 ∧ x.getLsbD (31 - clz32 x) = true ∧
      ∀ i, 31 - clz32 x < i → x.getLsbD i = false := by
  have hlt : clz32 x < 32 := by
    have := BitVec.clz_lt_iff_ne_zero.mpr h
    exact this
  refine ⟨hlt, BitVec.getLsbD_true_clz_of_ne_zero (by decide) h, ?_⟩
  intro i hi
  have hsmall : x.toNat < 2 ^ (32 - clz32 x) := BitVec.toNat_lt_two_pow_sub_clz
  have hpow : 2 ^ (32 - clz32 x) ≤ 2 ^ i := Nat.pow_le_pow_right (by decide) (by omega)
  exact Nat.testBit_lt_two_pow (by omega)

/-- The bits of `x & -x`: the lowest set bit alone. -/
theorem getLsbD_lowest (x : BitVec 32) (i : Nat) :
    (x &&& -x).getLsbD i = true ↔ x.getLsbD i = true ∧ ∀ j < i, x.getLsbD j = false := by
  rw [BitVec.getLsbD_and, BitVec.getLsbD_neg]
  by_cases hx : x.getLsbD i = true
  · have hi : i < 32 := BitVec.lt_of_getLsbD hx
    simp only [hx, decide_eq_true hi, Bool.true_and, Bool.true_xor, Bool.not_eq_true',
      decide_eq_false_iff_not, true_and]
    constructor
    · intro hnone j hj
      simpa using fun hset => hnone ⟨j, hj, hset⟩
    · intro hall hsome
      obtain ⟨j, hj, hset⟩ := hsome
      rw [hall j hj] at hset
      contradiction
  · simp [hx]

/-- `ctz32`: the lowest set bit. -/
theorem ctz32_spec {x : BitVec 32} (h : x ≠ 0) :
    ctz32 x < 32 ∧ x.getLsbD (ctz32 x) = true ∧ ∀ i, i < ctz32 x → x.getLsbD i = false := by
  have hbit : ∃ i, x.getLsbD i = true := by
    by_cases hall : ∃ i, x.getLsbD i = true
    · exact hall
    · refine absurd ?_ h
      apply BitVec.eq_of_getLsbD_eq
      intro i _
      have hi : x.getLsbD i ≠ true := fun hi => hall ⟨i, hi⟩
      simpa using hi
  have hlow : (x &&& -x) ≠ 0 := by
    intro hzero
    have hmin : (x &&& -x).getLsbD (Nat.find hbit) = true := by
      apply (getLsbD_lowest x _).mpr
      refine ⟨Nat.find_spec hbit, ?_⟩
      intro j hj
      simpa using Nat.find_min hbit hj
    rw [hzero] at hmin
    simp at hmin
  obtain ⟨hlt, htop, -⟩ := clz32_spec hlow
  obtain ⟨hset, hbelow⟩ := (getLsbD_lowest x _).mp htop
  refine ⟨?_, hset, hbelow⟩
  unfold ctz32
  omega

/-- `clz64`: the first set bit. -/
theorem clz64_spec (h : ¬ (x.hi = 0 ∧ x.lo = 0)) :
    clz64 x < 64 ∧ bitAt x (clz64 x) = true ∧ ∀ p, p < clz64 x → bitAt x p = false := by
  unfold clz64
  by_cases hhi : x.hi = 0
  · have hlo : x.lo ≠ 0 := fun hlo => h ⟨hhi, hlo⟩
    obtain ⟨hlt, hset, habove⟩ := clz32_spec hlo
    rw [if_neg (by simpa using hhi), if_pos hlo]
    refine ⟨by omega, ?_, ?_⟩
    · rw [bitAt_lo x (by omega) (by omega), show 63 - (32 + clz32 x.lo) = 31 - clz32 x.lo by omega]
      exact hset
    · intro p hp
      by_cases hp32 : p < 32
      · rw [bitAt_hi x hp32, hhi]
        simp
      · rw [bitAt_lo x (by omega) (by omega)]
        exact habove _ (by omega)
  · obtain ⟨hlt, hset, habove⟩ := clz32_spec hhi
    rw [if_pos hhi]
    refine ⟨by omega, ?_, ?_⟩
    · rw [bitAt_hi x hlt]
      exact hset
    · intro p hp
      rw [bitAt_hi x (by omega)]
      exact habove _ (by omega)

/-- `ctz64`: the last set bit. -/
theorem ctz64_spec (h : ¬ (x.hi = 0 ∧ x.lo = 0)) :
    ctz64 x < 64 ∧ bitAt x (63 - ctz64 x) = true ∧
      ∀ p, p < 64 → 63 - ctz64 x < p → bitAt x p = false := by
  unfold ctz64
  by_cases hlo : x.lo = 0
  · have hhi : x.hi ≠ 0 := fun hhi => h ⟨hhi, hlo⟩
    obtain ⟨hlt, hset, hbelow⟩ := ctz32_spec hhi
    rw [if_neg (by simpa using hlo), if_pos hhi]
    refine ⟨by omega, ?_, ?_⟩
    · rw [bitAt_hi x (by omega), show 31 - (63 - (32 + ctz32 x.hi)) = ctz32 x.hi by omega]
      exact hset
    · intro p hp hlast
      by_cases hp32 : p < 32
      · rw [bitAt_hi x hp32]
        exact hbelow _ (by omega)
      · rw [bitAt_lo x (by omega) hp, hlo]
        simp
  · obtain ⟨hlt, hset, hbelow⟩ := ctz32_spec hlo
    rw [if_pos hlo]
    refine ⟨by omega, ?_, ?_⟩
    · rw [bitAt_lo x (by omega) (by omega), show 63 - (63 - ctz32 x.lo) = ctz32 x.lo by omega]
      exact hset
    · intro p hp hlast
      rw [bitAt_lo x (by omega) hp]
      exact hbelow _ (by omega)

theorem spanLen_spec (h : ¬ (x.hi = 0 ∧ x.lo = 0)) :
    1 ≤ spanLen x ∧ clz64 x + spanLen x ≤ 64 ∧
      ∀ p, p < 64 → p < clz64 x ∨ clz64 x + spanLen x ≤ p → bitAt x p = false := by
  obtain ⟨hlead, hfirst, hbefore⟩ := clz64_spec h
  obtain ⟨htrail, hlast, hafter⟩ := ctz64_spec h
  have hle : clz64 x ≤ 63 - ctz64 x := by
    by_cases hc : clz64 x ≤ 63 - ctz64 x
    · exact hc
    · rw [hafter (clz64 x) hlead (by omega)] at hfirst
      contradiction
  unfold spanLen
  refine ⟨by omega, by omega, ?_⟩
  intro p hp hout
  cases hout with
  | inl hlt => exact hbefore p hlt
  | inr hge => exact hafter p hp (by omega)

/-! ## spans -/

/-- The bits of the span of `n` at MSB index `start`. -/
def spanBits (x : Words) (start : Nat) : Nat → List Bool
  | 0 => []
  | n + 1 => bitAt x start :: spanBits x (start + 1) n

theorem writes_span (x : Words) (start n : Nat) :
    Writes (fun w => writeSpan w x start n) (spanBits x start n) := by
  induction n generalizing start with
  | zero => exact writes_id
  | succ n ih => exact (writes_bit (bitAt x start)).comp (ih (start + 1))

theorem reads_spanFrom {acc : Words} (hp : p + n ≤ 64)
    (hacc : ∀ q, q < 64 → bitAt acc q = (decide (q < p) && bitAt x q))
    (hrest : ∀ q, q < 64 → p + n ≤ q → bitAt x q = false) :
    Reads (readSpanFrom acc p n) (spanBits x p n) x := by
  induction n generalizing acc p with
  | zero =>
    have heq : acc = x := by
      apply words_ext
      intro q hq
      rw [hacc q hq]
      by_cases hlt : q < p
      · simp [hlt]
      · simp [hrest q hq (by omega)]
    rw [heq]
    exact reads_pure x
  | succ n ih =>
    apply (reads_bit (bitAt x p)).bind
    apply ih (by omega)
    · intro q hq
      by_cases hb : bitAt x p = true
      · rw [if_pos hb, bitAt_setBit acc (by omega) hq, hacc q hq]
        by_cases hqp : q = p
        · subst hqp
          simp [hb]
        · simp [hqp, show (q < p + 1) = (q < p) by rw [eq_iff_iff]; omega]
      · rw [if_neg hb, hacc q hq]
        by_cases hqp : q = p
        · subst hqp
          simp [Bool.not_eq_true _ ▸ hb]
        · simp [show (q < p + 1) = (q < p) by rw [eq_iff_iff]; omega]
    · intro q hq hge
      exact hrest q hq (by omega)

theorem reads_span {start : Nat} (hn : start + n ≤ 64)
    (hout : ∀ p, p < 64 → p < start ∨ start + n ≤ p → bitAt x p = false) :
    Reads (readSpan start n) (spanBits x start n) x := by
  apply reads_spanFrom hn
  · intro q hq
    rw [bitAt_zero hq]
    by_cases hlt : q < start
    · simp [hout q hq (Or.inl hlt)]
    · simp [hlt]
  · intro q hq hge
    exact hout q hq (Or.inr hge)

/-! ## signed fields and second differences -/

/-- The field of a signed number. -/
def unsigned (value : Int) (bits : Nat) : Nat :=
  (if value < 0 then value + 2 ^ bits else value).toNat

theorem writes_signed (value : Int) (bits : Nat) :
    Writes (fun w => writeSigned w value bits) (toBits bits (unsigned value bits)) :=
  writes_bits _ bits

theorem reads_signed {value : Int} (hlo : -2 ^ n ≤ value) (hhi : value < 2 ^ n) :
    Reads (readSigned (n + 1)) (toBits (n + 1) (unsigned value (n + 1))) value := by
  have hcast' : ((2 ^ (n + 1) : Nat) : Int) = 2 ^ (n + 1) := by push_cast; rfl
  have hu : (unsigned value (n + 1) : Int) = if value < 0 then value + 2 ^ (n + 1) else value := by
    unfold unsigned
    split
    · omega
    · omega
  have hlt : unsigned value (n + 1) < 2 ^ (n + 1) := by
    split at hu
    · omega
    · omega
  have hval : (if unsigned value (n + 1) ≥ 2 ^ (n + 1 - 1) then
      (unsigned value (n + 1) : Int) - 2 ^ (n + 1) else unsigned value (n + 1)) = value := by
    rw [Nat.add_sub_cancel]
    by_cases hneg : value < 0
    · omega
    · rw [if_neg hneg] at hu
      rw [if_neg (by omega)]
      exact hu
  have hreads : Reads (readSigned (n + 1)) (toBits (n + 1) (unsigned value (n + 1))) _ :=
    (reads_bits hlt).map
  rw [hval] at hreads
  exact hreads

/-- The bits of a second difference. -/
def dodBits (d : Int) : List Bool :=
  if d = 0 then [false]
  else if -64 ≤ d ∧ d ≤ 63 then [true] ++ ([false] ++ toBits 7 (unsigned d 7))
  else if -256 ≤ d ∧ d ≤ 255 then [true] ++ (toBits 2 0b10 ++ toBits 9 (unsigned d 9))
  else if -2048 ≤ d ∧ d ≤ 2047 then [true] ++ (toBits 3 0b110 ++ toBits 12 (unsigned d 12))
  else [true] ++ (toBits 3 0b111 ++ toBits 32 (unsigned d 32))

variable {d : Int}

theorem within_iff {lo hi : Int} (ha : a.Is d) (hlo : lo.natAbs ≤ 2 ^ 53)
    (hhi : hi.natAbs ≤ 2 ^ 53) : within lo hi a = true ↔ lo ≤ d ∧ d ≤ hi := by
  unfold within
  rw [Bool.and_eq_true, (F64.is_ofInt hlo).le_iff ha, ha.le_iff (F64.is_ofInt hhi)]

theorem whole_eq (ha : a.Is d) : whole a = d := by
  unfold whole
  rw [F64.integer?_eq_some.mpr ha]
  rfl

theorem writes_dod (ha : a.Is d) : Writes (fun w => writeDod w a) (dodBits d) := by
  have hzero : F64.eq a .zero = true ↔ d = 0 := ha.eq_iff F64.is_zero
  have h7 : within (-64) 63 a = true ↔ -64 ≤ d ∧ d ≤ 63 := within_iff ha (by decide) (by decide)
  have h9 : within (-256) 255 a = true ↔ -256 ≤ d ∧ d ≤ 255 :=
    within_iff ha (by decide) (by decide)
  have h12 : within (-2048) 2047 a = true ↔ -2048 ≤ d ∧ d ≤ 2047 :=
    within_iff ha (by decide) (by decide)
  have hwhole := whole_eq ha
  unfold dodBits
  split
  · next h =>
    have hfun : (fun w => writeDod w a) = fun w => w.writeBit false := by
      funext w
      rw [writeDod, if_pos (hzero.mpr h)]
    rw [hfun]
    exact writes_bit false
  · next h =>
    have hne : ¬ F64.eq a .zero = true := fun hz => h (hzero.mp hz)
    split
    · next h' =>
      have hfun : (fun w => writeDod w a) = fun w =>
          writeSigned ((w.writeBit true).writeBit false) d 7 := by
        funext w
        rw [writeDod, if_neg hne, if_pos (h7.mpr h'), hwhole]
      have hw := (writes_bit true).comp ((writes_bit false).comp (writes_signed d 7))
      rw [hfun]
      exact hw
    · next hn7 =>
      have hn7' : ¬ within (-64) 63 a = true := fun hw => hn7 (h7.mp hw)
      split
      · next h' =>
        have hfun : (fun w => writeDod w a) = fun w =>
            writeSigned ((w.writeBit true).writeBits 0b10 2) d 9 := by
          funext w
          rw [writeDod, if_neg hne, if_neg hn7', if_pos (h9.mpr h'), hwhole]
        have hw := (writes_bit true).comp ((writes_bits 0b10 2).comp (writes_signed d 9))
        rw [hfun]
        exact hw
      · next hn9 =>
        have hn9' : ¬ within (-256) 255 a = true := fun hw => hn9 (h9.mp hw)
        split
        · next h' =>
          have hfun : (fun w => writeDod w a) = fun w =>
              writeSigned ((w.writeBit true).writeBits 0b110 3) d 12 := by
            funext w
            rw [writeDod, if_neg hne, if_neg hn7', if_neg hn9', if_pos (h12.mpr h'), hwhole]
          have hw := (writes_bit true).comp ((writes_bits 0b110 3).comp (writes_signed d 12))
          rw [hfun]
          exact hw
        · next hn12 =>
          have hn12' : ¬ within (-2048) 2047 a = true := fun hw => hn12 (h12.mp hw)
          have hfun : (fun w => writeDod w a) = fun w =>
              writeSigned ((w.writeBit true).writeBits 0b111 3) d 32 := by
            funext w
            rw [writeDod, if_neg hne, if_neg hn7', if_neg hn9', if_neg hn12', hwhole]
          have hw := (writes_bit true).comp ((writes_bits 0b111 3).comp (writes_signed d 32))
          rw [hfun]
          exact hw

theorem reads_dod (hlo : -DOD_MAX ≤ d) (hhi : d < DOD_MAX) : Reads readDod (dodBits d) d := by
  unfold DOD_MAX at hlo hhi
  unfold dodBits readDod
  by_cases h0 : d = 0
  · rw [h0]
    exact (reads_bit false).bind (reads_pure 0)
  rw [if_neg h0]
  by_cases h7 : -64 ≤ d ∧ d ≤ 63
  · rw [if_pos h7]
    exact (reads_bit true).bind ((reads_bit false).bind (reads_signed (by omega) (by omega)))
  by_cases h9 : -256 ≤ d ∧ d ≤ 255
  · rw [if_neg h7, if_pos h9]
    exact (reads_bit true).bind ((reads_bit true).bind ((reads_bit false).bind
      (reads_signed (by omega) (by omega))))
  · by_cases h12 : -2048 ≤ d ∧ d ≤ 2047
    · rw [if_neg h7, if_neg h9, if_pos h12]
      exact (reads_bit true).bind ((reads_bit true).bind ((reads_bit true).bind
        ((reads_bit false).bind (reads_signed (by omega) (by omega)))))
    · rw [if_neg h7, if_neg h9, if_neg h12]
      exact (reads_bit true).bind ((reads_bit true).bind ((reads_bit true).bind
        ((reads_bit true).bind (reads_signed (by omega) (by omega)))))

end BunServe.Stream
