import BunServe.Lib.F64.Whole
import Mathlib.Order.Monotone.Basic

/-!
# BunServe.Lib.F64.Order

Division, `Math.floor` and steps of one, and how they keep the order of doubles.

* `value_div_le`, `value_floor_le` — a larger double is not made smaller;
* `Cell`, `cell_floor`, `Cell.succ_le` — one more than a whole number is no more than any
  larger whole number that is a double, however large.
-/

namespace BunServe.F64

/-- `a / b`: the exact quotient, rounded once. -/
def div (a b : F64) : F64 :=
  if a.isNaN || b.isNaN then nan
  else if !b.isFinite then (if a.isFinite then ofMag (a.sign != b.sign) 0 else nan)
  else if !a.isFinite then ofMag (a.sign != b.sign) infMag
  else if b.value = 0 then (if a.value = 0 then nan else ofMag (a.sign != b.sign) infMag)
  else ofMag (a.sign != b.sign) (roundQuot (a.value * unit).natAbs b.value.natAbs)

/-- `Math.floor(a)`. -/
def floor (a : F64) : F64 :=
  if a.isFinite && decide (a.value % unit ≠ 0) then round (a.value / unit * unit) else a

variable {a b c q : F64} {x y : Int} {n m : Nat}

/-! ## signed magnitudes -/

/-- The value of a magnitude with the sign of `x`. -/
def signed (x : Int) (m : Nat) : Int := if x < 0 then -(unitsOf m : Int) else unitsOf m

theorem value_ofMag (s : Bool) (h : m ≤ infMag) :
    (ofMag s m).value = if s then -(unitsOf m : Int) else unitsOf m := by
  have hlt : m < 2 ^ 63 := h.trans_lt (by decide)
  rw [value, sign_ofMag s hlt, mag_ofMag s hlt]

/-- What keeps the order of magnitudes keeps that of values. -/
theorem signed_mono {f : Nat → Nat} (hf : Monotone f) (h : x ≤ y) :
    signed x (f x.natAbs) ≤ signed y (f y.natAbs) := by
  unfold signed
  split
  · split
    · have := unitsOf_strictMono.monotone (hf (by omega : y.natAbs ≤ x.natAbs))
      omega
    · omega
  · have := unitsOf_strictMono.monotone (hf (by omega : x.natAbs ≤ y.natAbs))
    omega

theorem value_round_eq (x : Int) : (round x).value = signed x (roundMag x.natAbs) := by
  rw [round, value_ofMag _ (show roundMag _ ≤ _ from Nat.min_le_right _ _)]
  simp [signed]

theorem value_round_le (h : x ≤ y) : (round x).value ≤ (round y).value := by
  rw [value_round_eq, value_round_eq]
  exact signed_mono (fun _ _ => roundMag_mono) h

theorem mag_le (h : a.isNaN = false) : a.mag ≤ infMag := by
  exact not_lt.mp (of_decide_eq_false h)

theorem value_round_value (h : a.isNaN = false) : (round a.value).value = a.value := by
  have hround : roundMag (unitsOf a.mag) = a.mag := by
    cases (mag_le h).lt_or_eq with
    | inl hlt => exact roundMag_unitsOf hlt
    | inr heq =>
      rw [heq]
      decide +kernel
  rw [value_round_eq, signed]
  unfold value
  grind

theorem isNaN_round (x : Int) : (round x).isNaN = false := by
  exact decide_eq_false (not_lt.mpr (mag_round_le x))

/-! ## dividing -/

theorem isFinite_iff : a.isFinite = true ↔ a.value.natAbs < unitsOf infMag := by
  rw [natAbs_value, unitsOf_strictMono.lt_iff_lt, isFinite, decide_eq_true_eq]

theorem value_div (hb : b.isFinite = true) (hpos : 0 < b.value) (ha : a.isNaN = false) :
    (div a b).isNaN = false ∧ (div a b).value = signed a.value
      (if a.value.natAbs < unitsOf infMag then roundQuot (a.value.natAbs * unit) b.value.natAbs
        else infMag) := by
  have hsign : b.sign = false := by
    rw [sign_eq hpos.ne']
    exact decide_eq_false (by omega)
  have hsame : a.value ≠ 0 → a.sign = decide (a.value < 0) := sign_eq
  have hzero : roundQuot 0 b.value.natAbs = 0 := by
    simpa [roundMag_zero] using roundQuot_mul (n := 0) (by omega)
  have hquot : ∀ n, roundQuot n b.value.natAbs ≤ infMag := fun n => Nat.min_le_right _ _
  have hmag : ∀ s m, m ≤ infMag → (ofMag s m).isNaN = false := by
    intro s m hm
    rw [isNaN, mag_ofMag s (hm.trans_lt (by decide))]
    exact decide_eq_false (not_lt.mpr hm)
  have hinf := unitsOf_zero
  unfold div
  simp only [ha, not_isNaN_of_isFinite hb, hb, hpos.ne', hsign, Int.natAbs_mul]
  by_cases hfin : a.isFinite = true
  · rw [if_pos (isFinite_iff.mp hfin)]
    simp [hfin, hquot, value_ofMag, signed]
    grind
  · rw [if_neg (mt isFinite_iff.mpr hfin)]
    have hne : a.value ≠ 0 := by
      intro h0
      rw [isFinite_iff, h0] at hfin
      exact hfin (by decide +kernel)
    have hvalue := value_ofMag a.sign le_rfl
    simp only [hsame hne, decide_eq_true_eq] at hvalue
    simp only [hfin, hsame hne, Bool.or_self, Bool.not_true, Bool.not_false, Bool.false_eq_true,
      if_false, if_true, Bool.bne_false]
    exact ⟨hmag _ _ le_rfl, hvalue⟩

/-- Dividing by a positive double keeps the order. -/
theorem value_div_le (hb : b.isFinite = true) (hpos : 0 < b.value) (ha : a.isNaN = false)
    (hc : c.isNaN = false) (h : a.value ≤ c.value) : (div a b).value ≤ (div c b).value := by
  rw [(value_div hb hpos ha).2, (value_div hb hpos hc).2]
  refine signed_mono (f := fun n => if n < unitsOf infMag then roundQuot (n * unit) b.value.natAbs
    else infMag) (fun n m hle => ?_) h
  have hquot : ∀ n, roundQuot n b.value.natAbs ≤ infMag := fun n => Nat.min_le_right _ _
  have := roundQuot_mono b.value.natAbs (Nat.mul_le_mul_right unit hle)
  grind

/-! ## whole numbers -/

/-- A whole number that is a double, or an infinity. -/
structure Cell (a : F64) : Prop where
  number : a.isNaN = false
  whole : (unit : Int) ∣ a.value

theorem unit_dvd_inf : unit ∣ unitsOf infMag := by
  decide +kernel

theorem cell_round (h : (unit : Int) ∣ x) : Cell (round x) := by
  obtain ⟨n, hn⟩ := Int.natAbs_dvd_natAbs.mpr h
  rw [Int.natAbs_natCast, Nat.mul_comm] at hn
  have hdvd : unit ∣ unitsOf (roundMag x.natAbs) := by
    rw [hn]
    by_cases hlt : roundMag (n * unit) < infMag
    · exact unit_dvd_roundMag hlt
    · have hmax : roundMag (n * unit) ≤ infMag := Nat.min_le_right _ _
      rw [hmax.antisymm (not_lt.mp hlt)]
      exact unit_dvd_inf
  refine ⟨isNaN_round x, ?_⟩
  rw [value_round_eq, signed]
  split
  · exact Int.dvd_neg.mpr (Int.natCast_dvd_natCast.mpr hdvd)
  · exact Int.natCast_dvd_natCast.mpr hdvd

/-- The value of `Math.floor`, of infinities as well. -/
theorem value_floor (h : a.isNaN = false) :
    (floor a).isNaN = false ∧ (floor a).value = (round (a.value / unit * unit)).value := by
  unfold floor
  split
  · exact ⟨isNaN_round _, rfl⟩
  · next hwhole =>
    have hdvd : (unit : Int) ∣ a.value := by
      by_cases hfin : a.isFinite = true
      · rw [hfin, Bool.true_and, decide_eq_true_eq] at hwhole
        exact Int.dvd_of_emod_eq_zero (Decidable.not_not.mp hwhole)
      · rw [← Int.natAbs_dvd_natAbs, natAbs_value]
        have hmag := mag_le h
        rw [le_antisymm hmag (not_lt.mp (of_decide_eq_false (Bool.eq_false_iff.mpr hfin)))]
        exact unit_dvd_inf
    rw [Int.ediv_mul_cancel hdvd, value_round_value h]
    exact ⟨h, rfl⟩

theorem cell_floor (h : (floor a).isNaN = false) : Cell (floor a) := by
  cases ha : a.isNaN with
  | true =>
    have hfin : a.isFinite = false := Bool.eq_false_iff.mpr fun hfin => by
      simp [not_isNaN_of_isFinite hfin] at ha
    simp [floor, hfin, ha] at h
  | false => exact ⟨h, (value_floor ha).2 ▸ (cell_round (Int.dvd_mul_left ..)).whole⟩

/-- `Math.floor` keeps the order. -/
theorem value_floor_le (ha : a.isNaN = false) (hb : b.isNaN = false) (h : a.value ≤ b.value) :
    (floor a).value ≤ (floor b).value := by
  rw [(value_floor ha).2, (value_floor hb).2]
  exact value_round_le (Int.mul_le_mul_of_nonneg_right (Int.ediv_le_ediv (by simp [unit_pos]) h) (by simp))

/-- `1`. -/
def one : F64 := ofInt 1

/-- The value one more than `x`, where it is a double. -/
def succ (x : Int) : Int := if x.natAbs < unitsOf infMag then (round (x + unit)).value else x

/-- One more than a whole number. -/
theorem Cell.add_one (h : Cell c) :
    Cell (add c one) ∧ (add c one).value = succ c.value ∧ c.value ≤ succ c.value := by
  have hone : one.Is 1 := is_ofInt (by decide)
  unfold succ
  by_cases hfin : c.isFinite = true
  · have hround : (add c one).isNaN = false ∧ (add c one).value = (round (c.value + unit)).value := by
      rw [add_finite hfin hone.1, hone.2, Int.one_mul]
      split
      · next h0 =>
        rw [h0]
        split <;> decide +kernel
      · exact ⟨isNaN_round _, rfl⟩
    have hle := value_round_le (Int.le_add_of_nonneg_right (Int.natCast_nonneg unit) : c.value ≤ _)
    rw [value_round_value h.number] at hle
    rw [if_pos (isFinite_iff.mp hfin), hround.2]
    exact ⟨⟨hround.1, hround.2 ▸ (cell_round (Int.dvd_add h.whole (Int.dvd_refl _))).whole⟩, rfl, hle⟩
  · have hsame : add c one = c := by
      simp [add, h.number, not_isNaN_of_isFinite hone.1, hfin, hone.1]
    rw [hsame, if_neg (mt isFinite_iff.mpr hfin)]
    exact ⟨h, rfl, le_rfl⟩

/-- It is no more than any larger one. -/
theorem Cell.succ_le (hc : Cell c) (hq : Cell q) (h : c.value < q.value) : succ c.value ≤ q.value := by
  unfold succ
  split
  · have hdvd := Int.le_of_dvd (by omega) (Int.dvd_sub hq.whole hc.whole)
    rw [← value_round_value hq.number]
    exact value_round_le (by omega)
  · exact h.le

end BunServe.F64
