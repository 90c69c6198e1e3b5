import Mathlib.Order.Monotone.Basic
import Mathlib.Data.Nat.Log
import Mathlib.Tactic.Ring
import Mathlib.Algebra.Order.Ring.Int

/-!
# BunServe.Lib.F64

JavaScript numbers as the engine holds them: IEEE 754 doubles, by their bits.

Every finite double is a whole multiple of the least positive one, `2⁻¹⁰⁷⁴`, so
its `value` is an integer in that unit and no rational number is needed.  `add`
computes the exact sum and rounds it once, to the nearest double and to the even
one of two.

* `value_inj` — a double that is not zero is determined by its value;
* `value_ofInt` — integers up to `2^53` are doubles;
* `value_add_small`, `value_add_large` — the sum of two integers is exact up to
  `2^53`, and does not fall below that when it is above.
-/

namespace BunServe

/-- A double: its 64 bits. -/
structure F64 where
  bits : BitVec 64
  deriving DecidableEq

namespace F64

/-! ## sign and magnitude -/

/-- The sign bit. -/
def sign (a : F64) : Bool := a.bits.msb

/-- The bits below the sign. -/
def mag (a : F64) : Nat := a.bits.toNat % 2 ^ 63

/-- The double with this sign and these bits below it. -/
def ofMag (s : Bool) (m : Nat) : F64 := ⟨BitVec.ofNat 64 ((if s then 2 ^ 63 else 0) + m)⟩

/-- The magnitude of an infinity. -/
def infMag : Nat := 2047 * 2 ^ 52

/-- `+0`. -/
def zero : F64 := ofMag false 0

/-- `-0`. -/
def negZero : F64 := ofMag true 0

/-- `NaN`. -/
def nan : F64 := ofMag false (infMag + 2 ^ 51)

/-- `Number.isNaN`. -/
def isNaN (a : F64) : Bool := infMag < a.mag

/-- `Number.isFinite`. -/
def isFinite (a : F64) : Bool := a.mag < infMag

theorem mag_lt (a : F64) : a.mag < 2 ^ 63 := Nat.mod_lt _ (by decide)

theorem toNat_eq (a : F64) : a.bits.toNat = (if a.sign then 2 ^ 63 else 0) + a.mag := by
  have hsign : a.sign = decide (2 ^ 63 ≤ a.bits.toNat) := BitVec.msb_eq_decide a.bits
  unfold mag
  by_cases h : 2 ^ 63 ≤ a.bits.toNat
  · rw [hsign, decide_eq_true h, if_pos rfl]
    omega
  · rw [hsign, decide_eq_false h, if_neg (by simp)]
    omega

variable {a b : F64}

theorem ext_mag (hs : a.sign = b.sign) (hm : a.mag = b.mag) : a = b := by
  have hbits : a.bits.toNat = b.bits.toNat := by rw [toNat_eq, toNat_eq, hs, hm]
  cases a
  congr 1
  exact BitVec.eq_of_toNat_eq hbits

variable {m : Nat}

theorem toNat_ofMag (s : Bool) (h : m < 2 ^ 63) :
    (ofMag s m).bits.toNat = (if s then 2 ^ 63 else 0) + m := by
  unfold ofMag
  apply Nat.mod_eq_of_lt
  cases s with
  | true => simp only [if_true]; omega
  | false => simp only [Bool.false_eq_true, if_false]; omega

theorem mag_ofMag (s : Bool) (h : m < 2 ^ 63) : (ofMag s m).mag = m := by
  unfold mag
  rw [toNat_ofMag s h]
  cases s with
  | true => simp only [if_true]; omega
  | false => simp only [Bool.false_eq_true, if_false]; omega

theorem sign_ofMag (s : Bool) (h : m < 2 ^ 63) : (ofMag s m).sign = s := by
  have hsign : (ofMag s m).sign = decide (2 ^ 63 ≤ (ofMag s m).bits.toNat) :=
    BitVec.msb_eq_decide _
  rw [hsign, toNat_ofMag s h]
  cases s with
  | true => simp only [if_true]; exact decide_eq_true (by omega)
  | false => simp only [Bool.false_eq_true, if_false]; exact decide_eq_false (by omega)

/-- `-a`. -/
def neg (a : F64) : F64 := ofMag (!a.sign) a.mag

@[simp] theorem mag_neg (a : F64) : a.neg.mag = a.mag := mag_ofMag _ a.mag_lt

@[simp] theorem sign_neg (a : F64) : a.neg.sign = !a.sign := sign_ofMag _ a.mag_lt

/-! ## the value, in units of the least positive double -/

/-- The magnitude bits as a number of units. -/
def unitsOf (m : Nat) : Nat :=
  if m < 2 ^ 52 then m else (2 ^ 52 + m % 2 ^ 52) * 2 ^ (m / 2 ^ 52 - 1)

/-- The value, in units of `2⁻¹⁰⁷⁴`; an infinity is one step above the largest
finite double. -/
def value (a : F64) : Int := if a.sign then -(unitsOf a.mag : Int) else unitsOf a.mag

theorem unitsOf_lt_succ (m : Nat) : unitsOf m < unitsOf (m + 1) := by
  unfold unitsOf
  by_cases h : m < 2 ^ 52
  · rw [if_pos h]
    by_cases h' : m + 1 < 2 ^ 52
    · rw [if_pos h']
      omega
    · have hm : m + 1 = 2 ^ 52 := by omega
      rw [hm]
      exact h
  · rw [if_neg h, if_neg (by omega)]
    by_cases hf : m % 2 ^ 52 + 1 < 2 ^ 52
    · have hdiv : (m + 1) / 2 ^ 52 = m / 2 ^ 52 := by omega
      rw [hdiv]
      exact Nat.mul_lt_mul_of_pos_right (by omega) (Nat.two_pow_pos _)
    · have hdiv : (m + 1) / 2 ^ 52 - 1 = (m / 2 ^ 52 - 1) + 1 := by omega
      have hpow : 2 ^ (m / 2 ^ 52 - 1 + 1) = 2 * 2 ^ (m / 2 ^ 52 - 1) := Nat.pow_succ'
      rw [hdiv, hpow, ← Nat.mul_assoc]
      exact Nat.mul_lt_mul_of_pos_right (by omega) (Nat.two_pow_pos _)

theorem unitsOf_strictMono : StrictMono unitsOf := strictMono_nat_of_lt_succ unitsOf_lt_succ

@[simp] theorem unitsOf_zero : unitsOf 0 = 0 := rfl

theorem unitsOf_eq_zero : unitsOf m = 0 ↔ m = 0 := by
  constructor
  · intro h
    exact unitsOf_strictMono.injective (h.trans unitsOf_zero.symm)
  · intro h
    rw [h, unitsOf_zero]

theorem natAbs_value (a : F64) : a.value.natAbs = unitsOf a.mag := by
  unfold value
  cases a.sign with
  | true | false => simp

theorem value_eq_zero : a.value = 0 ↔ a.mag = 0 := by
  rw [← Int.natAbs_eq_zero, natAbs_value, unitsOf_eq_zero]

theorem eq_zero_or_negZero (h : a.value = 0) : a = zero ∨ a = negZero := by
  have hm := value_eq_zero.mp h
  cases hs : a.sign with
  | true => exact Or.inr (ext_mag (by rw [hs]; rfl) (by rw [hm]; rfl))
  | false => exact Or.inl (ext_mag (by rw [hs]; rfl) (by rw [hm]; rfl))

@[simp] theorem value_zero : zero.value = 0 := by decide

@[simp] theorem value_negZero : negZero.value = 0 := by decide

theorem value_inj (h : a.value = b.value) (h0 : a.value ≠ 0) : a = b := by
  have hmag : a.mag = b.mag := by
    apply unitsOf_strictMono.injective
    rw [← natAbs_value, ← natAbs_value, h]
  have hpos : unitsOf a.mag ≠ 0 := by
    rw [← natAbs_value]
    omega
  apply ext_mag _ hmag
  unfold value at h
  cases ha : a.sign with
  | true =>
    cases hb : b.sign with
    | true => rfl
    | false =>
      simp only [ha, hb, if_true, Bool.false_eq_true, if_false] at h
      omega
  | false =>
    cases hb : b.sign with
    | true =>
      simp only [ha, hb, if_true, Bool.false_eq_true, if_false] at h
      omega
    | false => rfl

@[simp] theorem value_neg (a : F64) : a.neg.value = -a.value := by
  unfold value
  rw [sign_neg]
  cases a.sign with
  | true | false => simp

/-! ## rounding -/

/-- `n / d` to the nearest whole number, to the even one of two. -/
def rne (n d : Nat) : Nat :=
  if 2 * (n % d) < d ∨ (2 * (n % d) = d ∧ n / d % 2 = 0) then n / d else n / d + 1

/-- The exponent of the least positive double, below zero. -/
@[irreducible] def bias : Nat := 1074

theorem bias_eq : bias = 1074 := by
  unfold bias
  rfl

/-- The exponent of the last place of a magnitude of `n` units. -/
def place (n : Nat) : Nat := n.log2 - 52

/-- The magnitude nearest to `n` units; what is too large becomes infinity. -/
def roundMag (n : Nat) : Nat := min (place n * 2 ^ 52 + rne n (2 ^ place n)) infMag

/-- The double nearest to `x` units. -/
def round (x : Int) : F64 := ofMag (x < 0) (roundMag x.natAbs)

theorem rne_le (n d : Nat) : rne n d ≤ n / d + 1 := by
  unfold rne
  split
  · omega
  · omega

theorem le_rne (n d : Nat) : n / d ≤ rne n d := by
  unfold rne
  split
  · omega
  · omega

variable {n : Nat}

theorem rne_of_dvd {d : Nat} (hd : 0 < d) (h : d ∣ n) : rne n d = n / d := by
  unfold rne
  rw [if_pos]
  omega

@[simp] theorem rne_one (n : Nat) : rne n 1 = n := by
  rw [rne_of_dvd Nat.one_pos (Nat.one_dvd n), Nat.div_one]

/-- The significand of a rounded magnitude has 53 bits, or it is one more. -/
theorem rne_bounds (h : 2 ^ 53 ≤ n) :
    2 ^ 52 ≤ rne n (2 ^ place n) ∧ rne n (2 ^ place n) ≤ 2 ^ 53 := by
  have hn : n ≠ 0 := by omega
  have hlog : 53 ≤ n.log2 := (Nat.le_log2 hn).mpr h
  have hlo : 2 ^ n.log2 ≤ n := Nat.log2_self_le hn
  have hhi : n < 2 ^ (n.log2 + 1) := Nat.lt_log2_self
  have hsplit : 2 ^ n.log2 = 2 ^ 52 * 2 ^ place n := by
    rw [← Nat.pow_add]
    congr 1
    unfold place
    omega
  have hsplit' : 2 ^ (n.log2 + 1) = 2 ^ 53 * 2 ^ place n := by
    rw [← Nat.pow_add]
    congr 1
    unfold place
    omega
  have hq : 2 ^ 52 ≤ n / 2 ^ place n := by
    rw [Nat.le_div_iff_mul_le (Nat.two_pow_pos _), ← hsplit]
    exact hlo
  have hq' : n / 2 ^ place n < 2 ^ 53 := by
    rw [Nat.div_lt_iff_lt_mul (Nat.two_pow_pos _), ← hsplit']
    exact hhi
  have hle := rne_le n (2 ^ place n)
  have hge := le_rne n (2 ^ place n)
  omega

theorem unitsOf_encode {q s : Nat} (hs : s ≤ 2 ^ 53) (hq : q = 0 ∨ 2 ^ 52 ≤ s) :
    unitsOf (q * 2 ^ 52 + s) = s * 2 ^ q := by
  unfold unitsOf
  by_cases h : q * 2 ^ 52 + s < 2 ^ 52
  · have hq0 : q = 0 := by omega
    rw [if_pos h, hq0]
    omega
  · rw [if_neg h]
    by_cases hlast : s = 2 ^ 53
    · have hdiv : (q * 2 ^ 52 + s) / 2 ^ 52 - 1 = q + 1 := by omega
      have hmod : (q * 2 ^ 52 + s) % 2 ^ 52 = 0 := by omega
      have hpow : 2 ^ (q + 1) = 2 * 2 ^ q := Nat.pow_succ'
      have htwo : 2 ^ 52 * 2 = 2 ^ 53 := by decide
      rw [hdiv, hmod, hlast, hpow, Nat.add_zero, ← Nat.mul_assoc, htwo]
    · have hdiv : (q * 2 ^ 52 + s) / 2 ^ 52 - 1 = q := by omega
      have hmod : 2 ^ 52 + (q * 2 ^ 52 + s) % 2 ^ 52 = s := by omega
      rw [hdiv, hmod]

theorem place_of_lt (h : n < 2 ^ 53) : place n = 0 := by
  unfold place
  by_cases hn : n = 0
  · subst hn
    rfl
  · have := (Nat.log2_lt hn).mpr h
    omega

theorem roundMag_lt (h : n < 2 ^ (bias + 900)) : roundMag n < infMag ∧
    roundMag n = place n * 2 ^ 52 + rne n (2 ^ place n) := by
  have hplace : place n < 1974 := by
    have hbias := bias_eq
    unfold place
    by_cases hn : n = 0
    · subst hn
      decide
    · have := (Nat.log2_lt hn).mpr h
      omega
  have hrne : rne n (2 ^ place n) ≤ 2 ^ 53 := by
    by_cases hlt : n < 2 ^ 53
    · have hle := rne_le n (2 ^ place n)
      rw [place_of_lt hlt, Nat.pow_zero] at hle
      rw [place_of_lt hlt, Nat.pow_zero]
      omega
    · exact (rne_bounds (by omega)).2
  unfold roundMag infMag
  omega

theorem unitsOf_roundMag (h : n < 2 ^ (bias + 900)) :
    unitsOf (roundMag n) = rne n (2 ^ place n) * 2 ^ place n := by
  rw [(roundMag_lt h).2]
  by_cases hlt : n < 2 ^ 53
  · rw [place_of_lt hlt, Nat.pow_zero, rne_one]
    exact unitsOf_encode (by omega) (Or.inl rfl)
  · obtain ⟨hlo, hhi⟩ := rne_bounds (n := n) (by omega)
    exact unitsOf_encode hhi (Or.inr hlo)

theorem unitsOf_roundMag_of_dvd (h : n < 2 ^ (bias + 900)) (hd : 2 ^ place n ∣ n) :
    unitsOf (roundMag n) = n := by
  rw [unitsOf_roundMag h, rne_of_dvd (Nat.two_pow_pos _) hd, Nat.div_mul_cancel hd]

variable {k : Nat}

theorem le_unitsOf_roundMag (h : n < 2 ^ (bias + 900)) (hk : 2 ^ k ≤ n) :
    2 ^ k ≤ unitsOf (roundMag n) := by
  rw [unitsOf_roundMag h]
  by_cases hlt : n < 2 ^ 53
  · rw [place_of_lt hlt, Nat.pow_zero, rne_one, Nat.mul_one]
    exact hk
  have hn : n ≠ 0 := by omega
  have hlog : k ≤ n.log2 := (Nat.le_log2 hn).mpr hk
  have hplace : 53 ≤ n.log2 := (Nat.le_log2 hn).mpr (by omega)
  have hsplit : 2 ^ n.log2 = 2 ^ 52 * 2 ^ place n := by
    rw [← Nat.pow_add]
    congr 1
    unfold place
    omega
  calc 2 ^ k ≤ 2 ^ n.log2 := Nat.pow_le_pow_right (by decide) hlog
    _ = 2 ^ 52 * 2 ^ place n := hsplit
    _ ≤ rne n (2 ^ place n) * 2 ^ place n :=
        Nat.mul_le_mul_right _ (rne_bounds (by omega)).1

variable {x : Int}

theorem value_round (h : x.natAbs < 2 ^ (bias + 900)) :
    (round x).value = if x < 0 then -(unitsOf (roundMag x.natAbs) : Int)
      else unitsOf (roundMag x.natAbs) := by
  have hlt : roundMag x.natAbs < 2 ^ 63 := by
    have hinf := (roundMag_lt h).1
    unfold infMag at hinf
    omega
  unfold round value
  rw [mag_ofMag _ hlt, sign_ofMag _ hlt]
  by_cases hx : x < 0
  · simp
  · simp

theorem isFinite_round (h : x.natAbs < 2 ^ (bias + 900)) : (round x).isFinite = true := by
  have hinf := (roundMag_lt h).1
  have hlt : roundMag x.natAbs < 2 ^ 63 := by
    unfold infMag at hinf
    omega
  unfold isFinite round
  rw [mag_ofMag _ hlt]
  exact decide_eq_true hinf

/-! ## adding and comparing -/

/-- `a + b`: the exact sum, rounded once; two zeros give `-0` only if both are. -/
def add (a b : F64) : F64 :=
  if a.isNaN || b.isNaN then nan
  else if !a.isFinite then (if !b.isFinite && a.sign != b.sign then nan else a)
  else if !b.isFinite then b
  else if a.value + b.value = 0 then (if a.sign && b.sign then negZero else zero)
  else round (a.value + b.value)

/-- `a - b`. -/
def sub (a b : F64) : F64 := add a b.neg

/-- `a < b`. -/
def lt (a b : F64) : Bool := !a.isNaN && !b.isNaN && decide (a.value < b.value)

/-- `a <= b`. -/
def le (a b : F64) : Bool := !a.isNaN && !b.isNaN && decide (a.value ≤ b.value)

/-- `a === b`. -/
def eq (a b : F64) : Bool := !a.isNaN && !b.isNaN && decide (a.value = b.value)

theorem not_isNaN_of_isFinite (h : a.isFinite = true) : a.isNaN = false := by
  have hlt := of_decide_eq_true h
  exact decide_eq_false (by omega)

@[simp] theorem isFinite_neg (a : F64) : a.neg.isFinite = a.isFinite := by
  unfold isFinite
  rw [mag_neg]

theorem add_finite (ha : a.isFinite = true) (hb : b.isFinite = true) :
    add a b = if a.value + b.value = 0 then (if a.sign && b.sign then negZero else zero)
      else round (a.value + b.value) := by
  unfold add
  simp [not_isNaN_of_isFinite ha, not_isNaN_of_isFinite hb, ha, hb]

/-! ## integers -/

/-- The number one, in units. -/
def unit : Nat := 2 ^ bias

/-- The largest integer below which every one is a double, itself included. -/
def maxSafe : Int := 2 ^ 53 - 1

/-- The double nearest to an integer. -/
def ofInt (n : Int) : F64 := round (n * unit)

/-- `Number.isInteger`, with the integer. -/
def integer? (a : F64) : Option Int :=
  if a.isFinite ∧ a.value % unit = 0 then some (a.value / unit) else none

/-- `Number.isSafeInteger`. -/
def isSafeInteger (a : F64) : Bool :=
  match a.integer? with
  | some n => -maxSafe ≤ n ∧ n ≤ maxSafe
  | none => false

/-- The integer `a` is the double of. -/
def Is (a : F64) (n : Int) : Prop := a.isFinite = true ∧ a.value = n * unit

theorem unit_pos : 0 < unit := Nat.two_pow_pos _

theorem unit_ne_zero : (unit : Int) ≠ 0 := by
  have := unit_pos
  omega

theorem integer?_eq_some {n : Int} : a.integer? = some n ↔ a.Is n := by
  unfold integer? Is
  by_cases h : a.isFinite = true ∧ a.value % unit = 0
  · rw [if_pos h, Option.some.injEq]
    have hmul := Int.ediv_mul_cancel (Int.dvd_of_emod_eq_zero h.2)
    constructor
    · intro heq
      rw [← heq]
      exact ⟨h.1, hmul.symm⟩
    · rintro ⟨-, hv⟩
      rw [hv, Int.mul_ediv_cancel _ unit_ne_zero]
  · rw [if_neg h]
    constructor
    · intro hnone
      contradiction
    · rintro ⟨hf, hv⟩
      exact absurd ⟨hf, by rw [hv, Int.mul_emod_left]⟩ h

theorem isSafeInteger_iff : a.isSafeInteger = true ↔ ∃ n, a.Is n ∧ -maxSafe ≤ n ∧ n ≤ maxSafe := by
  unfold isSafeInteger
  cases h : a.integer? with
  | none =>
    simp only [Bool.false_eq_true, false_iff]
    rintro ⟨n, hn, -⟩
    rw [integer?_eq_some.mpr hn] at h
    contradiction
  | some n =>
    have hn := integer?_eq_some.mp h
    simp only [decide_eq_true_eq]
    constructor
    · intro hb
      exact ⟨n, hn, hb⟩
    · rintro ⟨m, hm, hb⟩
      have hmn := integer?_eq_some.mpr hm
      rw [h] at hmn
      cases hmn
      exact hb

/-- The last place of an integer up to `2^53` is a whole one. -/
theorem place_dvd (h : n ≤ 2 ^ 53) : 2 ^ place (n * unit) ∣ n * unit := by
  have hle : n * unit ≤ 2 ^ (53 + bias) := by
    rw [Nat.pow_add]
    exact Nat.mul_le_mul_right _ h
  by_cases hzero : n * unit = 0
  · rw [hzero]
    exact Nat.dvd_zero _
  have hlog : (n * unit).log2 ≤ 53 + bias := by
    have hlt : n * unit < 2 ^ (54 + bias) :=
      Nat.lt_of_le_of_lt hle (Nat.pow_lt_pow_right (by omega) (by omega))
    have := (Nat.log2_lt hzero).mpr hlt
    omega
  by_cases htop : (n * unit).log2 = 53 + bias
  · have hlo : 2 ^ (n * unit).log2 ≤ n * unit := Nat.log2_self_le hzero
    rw [htop] at hlo
    have heq : n * unit = 2 ^ (53 + bias) := Nat.le_antisymm hle hlo
    unfold place
    rw [htop, heq]
    exact Nat.pow_dvd_pow 2 (by omega)
  · have hplace : place (n * unit) ≤ bias := by
      unfold place
      omega
    have hunit : 2 ^ place (n * unit) ∣ unit := Nat.pow_dvd_pow 2 hplace
    exact Nat.dvd_trans hunit (Nat.dvd_mul_left _ _)

theorem lt_of_le_units (h : n ≤ 2 ^ k * unit) (hk : k < 900) : n < 2 ^ (bias + 900) := by
  rw [unit, ← Nat.pow_add] at h
  exact Nat.lt_of_le_of_lt h (Nat.pow_lt_pow_right (by omega) (by omega))

/-- Rounding an integer up to `2^53` is exact. -/
theorem is_round (h : x.natAbs ≤ 2 ^ 53) : (round (x * unit)).Is x := by
  have habs : (x * unit).natAbs = x.natAbs * unit := by
    rw [Int.natAbs_mul, Int.natAbs_natCast]
  have hlt : (x * unit).natAbs < 2 ^ (bias + 900) := by
    rw [habs]
    exact lt_of_le_units (Nat.mul_le_mul_right _ h) (by decide)
  refine ⟨isFinite_round hlt, ?_⟩
  rw [value_round hlt, habs, unitsOf_roundMag_of_dvd (habs ▸ hlt) (place_dvd h)]
  have hpos : (0 : Int) < unit := by
    have := unit_pos
    omega
  by_cases hx : x < 0
  · rw [if_pos (Int.mul_neg_of_neg_of_pos hx hpos), Int.natCast_mul, Int.ofNat_natAbs_of_nonpos
      (Int.le_of_lt hx), Int.neg_mul, Int.neg_neg]
  · have hx0 : 0 ≤ x := Int.not_lt.mp hx
    have hnot : ¬ x * unit < 0 := Int.not_lt.mpr (Int.mul_nonneg hx0 (Int.le_of_lt hpos))
    rw [if_neg hnot, Int.natCast_mul, Int.natAbs_of_nonneg hx0]

/-- Integers up to `2^53` are doubles. -/
theorem is_ofInt {n : Int} (h : n.natAbs ≤ 2 ^ 53) : (ofInt n).Is n := is_round h

theorem Is.unique {m n : Int} (h : a.Is m) (h' : a.Is n) : m = n := by
  exact Int.eq_of_mul_eq_mul_right unit_ne_zero (h.2.symm.trans h'.2)

theorem Is.neg {n : Int} (h : a.Is n) : a.neg.Is (-n) := by
  refine ⟨(isFinite_neg a).trans h.1, ?_⟩
  rw [value_neg, h.2, Int.neg_mul]

@[simp] theorem is_zero : zero.Is 0 := ⟨by decide, by simp⟩

@[simp] theorem is_negZero : negZero.Is 0 := ⟨by decide, by simp⟩

theorem Is.eq_of_ne_zero {n : Int} (ha : a.Is n) (hb : b.Is n) (h0 : n ≠ 0) : a = b := by
  apply value_inj (ha.2.trans hb.2.symm)
  rw [ha.2]
  exact Int.mul_ne_zero h0 unit_ne_zero

variable {y : Int}

/-- Doubles of integers compare as the integers do. -/
theorem Is.le_iff (ha : a.Is x) (hb : b.Is y) : le a b = true ↔ x ≤ y := by
  have hpos : (0 : Int) < unit := by
    have := unit_pos
    omega
  unfold le
  rw [not_isNaN_of_isFinite ha.1, not_isNaN_of_isFinite hb.1, ha.2, hb.2]
  simp only [Bool.not_false, Bool.true_and, decide_eq_true_eq]
  exact mul_le_mul_iff_left₀ hpos

theorem Is.lt_iff (ha : a.Is x) (hb : b.Is y) : lt a b = true ↔ x < y := by
  have hpos : (0 : Int) < unit := by
    have := unit_pos
    omega
  unfold lt
  rw [not_isNaN_of_isFinite ha.1, not_isNaN_of_isFinite hb.1, ha.2, hb.2]
  simp only [Bool.not_false, Bool.true_and, decide_eq_true_eq]
  exact mul_lt_mul_iff_left₀ hpos

theorem Is.eq_iff (ha : a.Is x) (hb : b.Is y) : eq a b = true ↔ x = y := by
  unfold eq
  rw [not_isNaN_of_isFinite ha.1, not_isNaN_of_isFinite hb.1, ha.2, hb.2]
  simp only [Bool.not_false, Bool.true_and, decide_eq_true_eq]
  exact mul_left_inj' unit_ne_zero

/-- The sum of two integers is exact up to `2^53`. -/
theorem Is.add (ha : a.Is x) (hb : b.Is y)
    (h : (x + y).natAbs ≤ 2 ^ 53) : (F64.add a b).Is (x + y) := by
  have hsum : a.value + b.value = (x + y) * unit := by rw [ha.2, hb.2, Int.add_mul]
  rw [add_finite ha.1 hb.1]
  by_cases hzero : a.value + b.value = 0
  · have hxy : x + y = 0 := by
      rw [hsum] at hzero
      exact (Int.mul_eq_zero.mp hzero).resolve_right unit_ne_zero
    rw [if_pos hzero, hxy]
    split
    · exact is_negZero
    · exact is_zero
  · rw [if_neg hzero, hsum]
    exact is_round h

/-- The difference of two integers is exact up to `2^53`. -/
theorem Is.sub (ha : a.Is x) (hb : b.Is y)
    (h : (x - y).natAbs ≤ 2 ^ 53) : (F64.sub a b).Is (x - y) := ha.add hb.neg h

theorem unitsOf_roundMag_le (h : n < 2 ^ (bias + 900)) : unitsOf (roundMag n) ≤ 2 * n := by
  rw [unitsOf_roundMag h]
  by_cases hlt : n < 2 ^ 53
  · rw [place_of_lt hlt, Nat.pow_zero, rne_one]
    omega
  have hn : n ≠ 0 := by omega
  have hlo : 2 ^ n.log2 ≤ n := Nat.log2_self_le hn
  have hplace : 2 ^ place n ≤ 2 ^ n.log2 :=
    Nat.pow_le_pow_right (by decide) (by unfold place; omega)
  have hdiv : n / 2 ^ place n * 2 ^ place n ≤ n := Nat.div_mul_le_self _ _
  calc rne n (2 ^ place n) * 2 ^ place n
      ≤ (n / 2 ^ place n + 1) * 2 ^ place n := Nat.mul_le_mul_right _ (rne_le _ _)
    _ = n / 2 ^ place n * 2 ^ place n + 2 ^ place n := by rw [Nat.add_mul, Nat.one_mul]
    _ ≤ 2 * n := by omega

theorem natAbs_round (h : x.natAbs < 2 ^ (bias + 900)) :
    (round x).value.natAbs = unitsOf (roundMag x.natAbs) := by
  rw [value_round h]
  by_cases hx : x < 0
  · rw [if_pos hx, Int.natAbs_neg, Int.natAbs_natCast]
  · rw [if_neg hx, Int.natAbs_natCast]

/-- A sum of at least a power of two in size stays there. -/
theorem natAbs_add (ha : a.isFinite = true) (hb : b.isFinite = true)
    (hk : 2 ^ k ≤ (a.value + b.value).natAbs) (h : (a.value + b.value).natAbs < 2 ^ (bias + 900)) :
    (add a b).isFinite = true ∧ 2 ^ k ≤ (add a b).value.natAbs ∧
      (add a b).value.natAbs ≤ 2 * (a.value + b.value).natAbs := by
  have hne : a.value + b.value ≠ 0 := by
    intro hzero
    rw [hzero] at hk
    exact absurd (Nat.two_pow_pos k) (Nat.not_lt.mpr hk)
  have hlo := le_unitsOf_roundMag h hk
  have hhi := unitsOf_roundMag_le h
  rw [add_finite ha hb, if_neg hne, natAbs_round h]
  exact ⟨isFinite_round h, hlo, hhi⟩

/-! ## the sign of a zero sum -/

/-- Two doubles of one integer are the same, `-0` apart. -/
theorem Is.eq_of_ne_negZero {n : Int} (ha : a.Is n) (hb : b.Is n) (ha' : a ≠ negZero)
    (hb' : b ≠ negZero) : a = b := by
  by_cases h0 : n = 0
  · have hva : a.value = 0 := by rw [ha.2, h0, Int.zero_mul]
    have hvb : b.value = 0 := by rw [hb.2, h0, Int.zero_mul]
    rw [(eq_zero_or_negZero hva).resolve_right ha', (eq_zero_or_negZero hvb).resolve_right hb']
  · exact ha.eq_of_ne_zero hb h0

/-- A sum is `-0` only if both operands are. -/
theorem add_ne_negZero (ha : a.Is x) (hb : b.Is y)
    (h : (x + y).natAbs ≤ 2 ^ 53) (hne : a ≠ negZero ∨ b ≠ negZero) : F64.add a b ≠ negZero := by
  intro heq
  have hsum := (ha.add hb h).unique (heq ▸ is_negZero)
  have hzero : a.value + b.value = 0 := by
    rw [ha.2, hb.2, ← Int.add_mul, hsum, Int.zero_mul]
  rw [add_finite ha.1 hb.1, if_pos hzero] at heq
  by_cases hsign : a.sign = true ∧ b.sign = true
  · have hva : a.value = 0 ∧ b.value = 0 := by
      unfold value at hzero ⊢
      rw [hsign.1, hsign.2] at hzero ⊢
      simp only [if_true] at hzero ⊢
      omega
    have hzeroSign : zero.sign = false := by decide
    cases hne with
    | inl hne =>
      have := (eq_zero_or_negZero hva.1).resolve_right hne
      rw [this, hzeroSign] at hsign
      exact absurd hsign.1 (by simp)
    | inr hne =>
      have := (eq_zero_or_negZero hva.2).resolve_right hne
      rw [this, hzeroSign] at hsign
      exact absurd hsign.2 (by simp)
  · rw [if_neg (by simpa using hsign)] at heq
    exact absurd heq (by decide)

/-- No integer is written as `-0`. -/
theorem ofInt_ne_negZero {n : Int} (h : n.natAbs ≤ 2 ^ 53) : ofInt n ≠ negZero := by
  intro heq
  have hn : n = 0 := (is_ofInt h).unique (heq ▸ is_negZero)
  rw [hn, ofInt, Int.zero_mul] at heq
  exact absurd heq (by decide)

/-! ## multiplying -/

/-- The magnitude nearest to `n / d` units. -/
def roundQuot (n d : Nat) : Nat :=
  min (place (n / d) * 2 ^ 52 + rne n (d * 2 ^ place (n / d))) infMag

/-- `a * b`: the exact product, rounded once. -/
def mul (a b : F64) : F64 :=
  if a.isNaN || b.isNaN then nan
  else if !a.isFinite || !b.isFinite then
    if a.value = 0 ∨ b.value = 0 then nan else ofMag (a.sign != b.sign) infMag
  else ofMag (a.sign != b.sign) (roundQuot (a.value * b.value).natAbs unit)

theorem rne_mul {d : Nat} (hk : 0 < k) : rne (n * k) (d * k) = rne n d := by
  have hmod : n * k % (d * k) = n % d * k := Nat.mul_mod_mul_right k n d
  have hdiv : n * k / (d * k) = n / d := Nat.mul_div_mul_right n d hk
  have hlt : 2 * (n % d * k) < d * k ↔ 2 * (n % d) < d := by
    rw [← Nat.mul_assoc]
    exact Nat.mul_lt_mul_right hk
  have heq : 2 * (n % d * k) = d * k ↔ 2 * (n % d) = d := by
    rw [← Nat.mul_assoc]
    exact Nat.mul_right_cancel_iff hk
  unfold rne
  simp only [hmod, hdiv, hlt, heq]

theorem roundQuot_mul {d : Nat} (hd : 0 < d) : roundQuot (n * d) d = roundMag n := by
  have hrne : rne (n * d) (d * 2 ^ place n) = rne n (2 ^ place n) := by
    rw [Nat.mul_comm d]
    exact rne_mul hd
  rw [roundQuot, roundMag, Nat.mul_div_cancel n hd, hrne]

theorem roundMag_zero : roundMag 0 = 0 := by decide

theorem sign_eq (h : a.value ≠ 0) : a.sign = decide (a.value < 0) := by
  unfold value at h ⊢
  cases a.sign with
  | true =>
    simp only [if_true] at h ⊢
    exact (decide_eq_true (by omega)).symm
  | false =>
    simp only [Bool.false_eq_true, if_false] at h ⊢
    exact (decide_eq_false (by omega)).symm

/-- A product whose exact value is an integer up to `2^53` is that integer. -/
theorem is_mul {z : Int} (ha : a.isFinite = true) (hb : b.isFinite = true)
    (hprod : a.value * b.value = z * unit * unit) (h : z.natAbs ≤ 2 ^ 53) : (F64.mul a b).Is z := by
  have habs : (a.value * b.value).natAbs = (z * unit).natAbs * unit := by
    rw [hprod, Int.natAbs_mul, Int.natAbs_natCast]
  have hmul : F64.mul a b = ofMag (a.sign != b.sign) (roundMag (z * unit).natAbs) := by
    unfold F64.mul
    rw [not_isNaN_of_isFinite ha, not_isNaN_of_isFinite hb, ha, hb, habs,
      roundQuot_mul unit_pos]
    rfl
  by_cases hzero : a.value * b.value = 0
  · have hz : z = 0 := by
      rw [hprod] at hzero
      exact (Int.mul_eq_zero.mp ((Int.mul_eq_zero.mp hzero).resolve_right unit_ne_zero)).resolve_right unit_ne_zero
    rw [hmul, hz, Int.zero_mul]
    cases a.sign != b.sign with
    | true => exact is_negZero
    | false => exact is_zero
  · have hne := Int.mul_ne_zero_iff.mp hzero
    have hsign : (a.sign != b.sign) = decide (z * unit < 0) := by
      have unit_ne_zero : (0 : Int) < unit := by
        have := unit_pos
        omega
      have hiff : z * unit < 0 ↔ 0 < a.value ∧ b.value < 0 ∨ a.value < 0 ∧ 0 < b.value := by
        rw [← mul_neg_iff, hprod]
        exact ⟨fun hlt => Int.mul_neg_of_neg_of_pos hlt unit_ne_zero,
          fun hlt => Int.lt_of_not_ge fun hge =>
            Int.not_lt.mpr (Int.mul_nonneg hge (Int.le_of_lt unit_ne_zero)) hlt⟩
      rw [sign_eq hne.1, sign_eq hne.2]
      rcases Int.lt_or_gt_of_ne hne.1 with ha' | ha'
      · rcases Int.lt_or_gt_of_ne hne.2 with hb' | hb'
        · simp [hiff, ha', hb', Int.lt_asymm ha', Int.lt_asymm hb']
        · simp [hiff, hb', Int.lt_asymm hb']
      · rcases Int.lt_or_gt_of_ne hne.2 with hb' | hb'
        · simp [hiff, ha', Int.lt_asymm ha']
        · simp [hiff, Int.lt_asymm ha', Int.lt_asymm hb']
    rw [hmul, hsign]
    exact is_round h

/-- The product of two integers is exact up to `2^53`. -/
theorem Is.mul (ha : a.Is x) (hb : b.Is y)
    (h : (x * y).natAbs ≤ 2 ^ 53) : (F64.mul a b).Is (x * y) := by
  refine is_mul ha.1 hb.1 ?_ h
  rw [ha.2, hb.2]
  ring

/-! ## infinity -/

/-- `Infinity`. -/
def inf : F64 := ofMag false infMag

theorem mag_round_le (x : Int) : (round x).mag ≤ infMag := by
  have hle : roundMag x.natAbs ≤ infMag := Nat.min_le_right _ _
  have hlt : infMag < 2 ^ 63 := by decide
  rw [round, mag_ofMag _ (by omega)]
  exact hle

/-- No integer is above `Infinity`. -/
theorem ofInt_le_inf (n : Int) : le (ofInt n) inf = true := by
  have hmag : (ofInt n).mag ≤ infMag := mag_round_le _
  have hnan : (ofInt n).isNaN = false := decide_eq_false (Nat.not_lt.mpr hmag)
  have hunits : unitsOf (ofInt n).mag ≤ unitsOf infMag := unitsOf_strictMono.monotone hmag
  have hlt : infMag < 2 ^ 63 := by decide
  have hinf : inf.value = unitsOf infMag := by
    rw [inf, value, mag_ofMag _ hlt, if_neg (by decide)]
  have hval : (ofInt n).value ≤ inf.value := by
    rw [value]
    cases (ofInt n).sign with
    | true | false =>
      omega
  unfold le
  rw [hnan, decide_eq_true hval]
  decide

theorem lt_asymm (h : lt a b = true) : lt b a = false := by
  unfold lt at h ⊢
  simp only [Bool.and_eq_true, decide_eq_true_eq] at h
  have hnot : ¬ b.value < a.value := Int.not_lt.mpr (Int.le_of_lt h.2)
  rw [decide_eq_false hnot, Bool.and_false]

theorem le_trans {c : F64} (hab : le a b = true) (hbc : le b c = true) : le a c = true := by
  unfold le at hab hbc ⊢
  simp only [Bool.and_eq_true, decide_eq_true_eq] at hab hbc ⊢
  exact ⟨⟨hab.1.1, hbc.1.2⟩, Int.le_trans hab.2 hbc.2⟩

theorem zero_le_ofInt (n : Nat) : le zero (ofInt n) = true := by
  have hmag : (ofInt n).mag ≤ infMag := mag_round_le _
  have hnan : (ofInt n).isNaN = false := decide_eq_false (Nat.not_lt.mpr hmag)
  have hlt : roundMag ((n : Int) * unit).natAbs < 2 ^ 63 := by
    have hle : roundMag ((n : Int) * unit).natAbs ≤ infMag := Nat.min_le_right _ _
    have hinf : infMag < 2 ^ 63 := by decide
    omega
  have hpos : ¬ (n : Int) * unit < 0 := Int.not_lt.mpr (Int.mul_nonneg (by omega) (by omega))
  have hsign : (ofInt n).sign = false := by
    rw [ofInt, round, sign_ofMag _ hlt]
    exact decide_eq_false hpos
  have hval : zero.value ≤ (ofInt n).value := by
    rw [value_zero, value, hsign]
    exact Int.natCast_nonneg _
  unfold le
  rw [hnan, decide_eq_true hval]
  decide

end F64

end BunServe
