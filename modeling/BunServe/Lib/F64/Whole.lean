import BunServe.Lib.F64

/-!
# BunServe.Lib.F64.Whole

Doubles that count: the whole numbers of any size, and what a loop that only adds
and multiplies them can reach.

Above `2^53` not every whole number is a double, and sums and products round.
They stay whole while they are finite, they are exact where the result is a
double at all, and they never fall below an operand.

* `roundMag_unitsOf`, `roundMag_mono` — rounding keeps doubles and their order;
* `Counts.add`, `Counts.mul` — counting reaches whole numbers, `Infinity` and
  `NaN`;
* `Is.add_exact`, `Is.mul_exact` — a result that is a double is exact.
-/

namespace BunServe.F64

/-! ## rounding keeps doubles and their order -/

variable {n : Nat}

theorem log2_mono {n' : Nat} (h : n ≤ n') : n.log2 ≤ n'.log2 := by
  by_cases hn : n = 0
  · subst hn
    simp
  · exact (Nat.le_log2 (by omega)).mpr ((Nat.log2_self_le hn).trans h)

theorem rne_mono {n' d : Nat} (h : n ≤ n') : rne n d ≤ rne n' d := by
  by_cases hlt : n / d < n' / d
  · calc rne n d ≤ n / d + 1 := rne_le n d
      _ ≤ n' / d := hlt
      _ ≤ rne n' d := le_rne n' d
  · have hdiv : n / d = n' / d := Nat.le_antisymm (Nat.div_le_div_right h) (by omega)
    have hn := Nat.div_add_mod n d
    have hn' := Nat.div_add_mod n' d
    rw [hdiv] at hn
    unfold rne
    split
    · split <;> omega
    · split <;> omega

theorem lt_place (n : Nat) : n < 2 ^ 53 * 2 ^ place n := by
  rw [← Nat.pow_add]
  exact Nat.lt_log2_self.trans_le (Nat.pow_le_pow_right (by decide) (by unfold place; omega))

theorem roundQuot_mono {n' : Nat} (d : Nat) (h : n ≤ n') : roundQuot n d ≤ roundQuot n' d := by
  have hdiv : n / d ≤ n' / d := Nat.div_le_div_right h
  have hplace : place (n / d) ≤ place (n' / d) := Nat.sub_le_sub_right (log2_mono hdiv) 52
  have hsum : place (n / d) * 2 ^ 52 + rne n (d * 2 ^ place (n / d)) ≤
      place (n' / d) * 2 ^ 52 + rne n' (d * 2 ^ place (n' / d)) := by
    by_cases heq : place (n / d) = place (n' / d)
    · rw [heq]
      exact Nat.add_le_add_left (rne_mono h) _
    have hbig : 2 ^ 53 ≤ n' / d := by
      by_contra hlt
      have := place_of_lt (n := n' / d) (by omega)
      omega
    have hlo : 2 ^ 52 ≤ rne n' (d * 2 ^ place (n' / d)) := by
      refine Nat.le_trans ?_ (le_rne _ _)
      rw [← Nat.div_div_eq_div_mul, Nat.le_div_iff_mul_le (Nat.two_pow_pos _), ← Nat.pow_add]
      refine (Nat.pow_le_pow_right (by decide) ?_).trans (Nat.log2_self_le (by omega))
      have := (Nat.le_log2 (by omega)).mpr hbig
      unfold place
      omega
    have hhi : rne n (d * 2 ^ place (n / d)) ≤ 2 ^ 53 := by
      refine (rne_le _ _).trans ?_
      rw [← Nat.div_div_eq_div_mul]
      exact (Nat.div_lt_iff_lt_mul (Nat.two_pow_pos _)).mpr (lt_place _)
    omega
  unfold roundQuot
  omega

theorem roundMag_mono {n' : Nat} (h : n ≤ n') : roundMag n ≤ roundMag n' := by
  simpa [← roundQuot_mul Nat.one_pos] using roundQuot_mono 1 h

theorem roundMag_unitsOf {m : Nat} (h : m < infMag) : roundMag (unitsOf m) = m := by
  unfold unitsOf
  by_cases hsmall : m < 2 ^ 52
  · rw [if_pos hsmall, roundMag, place_of_lt (by omega), Nat.pow_zero, rne_one]
    omega
  rw [if_neg hsmall]
  obtain ⟨s, hs⟩ : ∃ s, s = 2 ^ 52 + m % 2 ^ 52 := ⟨_, rfl⟩
  obtain ⟨e, he⟩ : ∃ e, e = m / 2 ^ 52 - 1 := ⟨_, rfl⟩
  rw [← hs, ← he]
  have hplace : place (s * 2 ^ e) = e := by
    have hlog : (s * 2 ^ e).log2 = 52 + e := by
      have hne : s * 2 ^ e ≠ 0 := Nat.mul_ne_zero (by omega) (Nat.two_pow_pos e).ne'
      apply Nat.le_antisymm
      · have hlt : s * 2 ^ e < 2 ^ (53 + e) := by
          rw [Nat.pow_add]
          exact Nat.mul_lt_mul_of_pos_right (by omega) (Nat.two_pow_pos e)
        have := (Nat.log2_lt hne).mpr hlt
        omega
      · rw [Nat.le_log2 hne, Nat.pow_add]
        exact Nat.mul_le_mul_right _ (by omega)
    unfold place
    omega
  rw [roundMag, hplace, rne_of_dvd (Nat.two_pow_pos e) (Nat.dvd_mul_left _ _),
    Nat.mul_div_cancel _ (Nat.two_pow_pos e)]
  omega

theorem unitsOf_roundMag_of_lt (h : roundMag n < infMag) :
    unitsOf (roundMag n) = rne n (2 ^ place n) * 2 ^ place n := by
  have hmin : roundMag n = place n * 2 ^ 52 + rne n (2 ^ place n) := by
    unfold roundMag at h ⊢
    omega
  rw [hmin]
  by_cases hlt : n < 2 ^ 53
  · rw [place_of_lt hlt, Nat.pow_zero, rne_one]
    exact unitsOf_encode (by omega) (Or.inl rfl)
  · obtain ⟨hlo, hhi⟩ := rne_bounds (n := n) (by omega)
    exact unitsOf_encode hhi (Or.inr hlo)

theorem unit_dvd_roundMag (h : roundMag (n * unit) < infMag) :
    unit ∣ unitsOf (roundMag (n * unit)) := by
  rw [unitsOf_roundMag_of_lt h]
  by_cases hplace : bias ≤ place (n * unit)
  · exact Nat.dvd_trans (Nat.pow_dvd_pow 2 hplace) (Nat.dvd_mul_left _ _)
  have hn : n ≤ 2 ^ 53 := by
    by_contra hlt
    have hlog : 53 + bias ≤ (n * unit).log2 := by
      have hne : n * unit ≠ 0 := Nat.mul_ne_zero (by omega) unit_pos.ne'
      rw [Nat.le_log2 hne, Nat.pow_add]
      exact Nat.mul_le_mul_right _ (by omega)
    unfold place at hplace
    omega
  have hdvd := place_dvd hn
  rw [rne_of_dvd (Nat.two_pow_pos _) hdvd, Nat.div_mul_cancel hdvd]
  exact Nat.dvd_mul_left _ _

/-! ## whole numbers -/

/-- The whole number `a` is the double of; `-0` is none. -/
structure Whole (a : F64) (n : Nat) : Prop where
  is : a.Is n
  sign : a.sign = false

/-- What counting up can reach. -/
def Counts (a : F64) : Prop := (∃ n, Whole a n) ∨ a = inf ∨ a = nan

section Whole

variable {a b : F64} {x y : Nat}

theorem Whole.unitsOf_mag (h : Whole a x) : unitsOf a.mag = x * unit := by
  have hval := h.is.2
  unfold value at hval
  rw [h.sign, if_neg (by decide)] at hval
  exact_mod_cast hval

theorem Whole.mag_lt_inf (h : Whole a x) : a.mag < infMag := of_decide_eq_true h.is.1

theorem whole_ofMag {m : Nat} (h : m < infMag) (hu : unitsOf m = x * unit) :
    Whole (ofMag false m) x := by
  have hlt : m < 2 ^ 63 := by
    unfold infMag at h
    omega
  refine ⟨⟨?_, ?_⟩, sign_ofMag _ hlt⟩
  · rw [isFinite, mag_ofMag _ hlt]
    exact decide_eq_true h
  · rw [value, sign_ofMag _ hlt, mag_ofMag _ hlt, if_neg (by decide), hu, Int.natCast_mul]

theorem Whole.eq_ofMag (h : Whole a x) : a = ofMag false a.mag :=
  ext_mag (by rw [h.sign, sign_ofMag _ a.mag_lt]) (by rw [mag_ofMag _ a.mag_lt])

theorem Whole.unique (ha : Whole a x) (hb : Whole b x) : a = b := by
  rw [ha.eq_ofMag, hb.eq_ofMag]
  congr 1
  apply unitsOf_strictMono.injective
  rw [ha.unitsOf_mag, hb.unitsOf_mag]

theorem whole_zero : Whole zero 0 := ⟨is_zero, by decide⟩

theorem whole_ofInt (h : n ≤ 2 ^ 53) : Whole (ofInt n) n := by
  refine ⟨is_ofInt (by omega), ?_⟩
  have hlt : roundMag ((n : Int) * unit).natAbs < 2 ^ 63 := by
    have hle : roundMag ((n : Int) * unit).natAbs ≤ infMag := Nat.min_le_right _ _
    have hinf : infMag < 2 ^ 63 := by decide
    omega
  have hpos : ¬ (n : Int) * unit < 0 := Int.not_lt.mpr (Int.mul_nonneg (by omega) (by omega))
  rw [ofInt, round, sign_ofMag _ hlt]
  exact decide_eq_false hpos

theorem whole_roundMag (h : roundMag (n * unit) < infMag) :
    ∃ z, Whole (ofMag false (roundMag (n * unit))) z := by
  obtain ⟨z, hz⟩ := unit_dvd_roundMag h
  exact ⟨z, whole_ofMag h (by rw [hz, Nat.mul_comm])⟩

theorem counts_roundMag (n : Nat) : Counts (ofMag false (roundMag (n * unit))) := by
  by_cases h : roundMag (n * unit) < infMag
  · exact Or.inl (whole_roundMag h)
  · have hle : roundMag (n * unit) ≤ infMag := Nat.min_le_right _ _
    have heq : roundMag (n * unit) = infMag := by omega
    rw [heq]
    exact Or.inr (Or.inl rfl)

theorem Whole.add_eq (ha : Whole a x) (hb : Whole b y) :
    F64.add a b = ofMag false (roundMag ((x + y) * unit)) := by
  have hsum : a.value + b.value = ((x + y) * unit : Nat) := by
    rw [ha.is.2, hb.is.2]
    push_cast
    ring
  rw [add_finite ha.is.1 hb.is.1, hsum, ha.sign]
  by_cases hzero : (x + y) * unit = 0
  · rw [hzero]
    rfl
  · rw [if_neg (by exact_mod_cast hzero), round, Int.natAbs_natCast,
      decide_eq_false (Int.not_lt.mpr (Int.natCast_nonneg _))]

theorem Whole.mul_eq (ha : Whole a x) (hb : Whole b y) :
    F64.mul a b = ofMag false (roundMag (x * y * unit)) := by
  have hprod : (a.value * b.value).natAbs = x * y * unit * unit := by
    rw [ha.is.2, hb.is.2, Int.natAbs_mul, Int.natAbs_mul, Int.natAbs_mul]
    simp only [Int.natAbs_natCast]
    ring
  unfold F64.mul
  rw [not_isNaN_of_isFinite ha.is.1, not_isNaN_of_isFinite hb.is.1, ha.is.1, hb.is.1, ha.sign,
    hb.sign, hprod, roundQuot_mul unit_pos]
  rfl

theorem Counts.sign (h : Counts a) : a.sign = false := by
  obtain ⟨x, hx⟩ | rfl | rfl := h
  · exact hx.sign
  · decide
  · decide

theorem Counts.whole (h : Counts a) (hfin : a.isFinite = true) : ∃ n, Whole a n := by
  obtain hx | rfl | rfl := h
  · exact hx
  · exact absurd hfin (by decide)
  · exact absurd hfin (by decide)

theorem counts_nan : Counts nan := Or.inr (Or.inr rfl)

theorem counts_inf : Counts inf := Or.inr (Or.inl rfl)

theorem Counts.add (ha : Counts a) (hb : Counts b) : Counts (F64.add a b) ∧
    ((F64.add a b).isFinite = true → a.isFinite = true ∧ b.isFinite = true) := by
  have hnotNan : nan.isFinite = false := by decide
  by_cases hnan : a.isNaN = true ∨ b.isNaN = true
  · have hres : F64.add a b = nan := by
      unfold F64.add
      rw [if_pos (by simpa using hnan)]
    rw [hres, hnotNan]
    exact ⟨counts_nan, by simp⟩
  · by_cases hfin : a.isFinite = true
    · obtain ⟨x, hx⟩ := ha.whole hfin
      by_cases hfin' : b.isFinite = true
      · obtain ⟨y, hy⟩ := hb.whole hfin'
        rw [hx.add_eq hy]
        exact ⟨counts_roundMag _, fun _ => ⟨hfin, hfin'⟩⟩
      · have hres : F64.add a b = b := by
          unfold F64.add
          simp [hnan, hfin, hfin']
        rw [hres]
        exact ⟨hb, fun h => absurd h hfin'⟩
    · have hres : F64.add a b = a := by
        unfold F64.add
        simp [hnan, hfin, ha.sign, hb.sign]
      rw [hres]
      exact ⟨ha, fun h => absurd h hfin⟩

theorem Counts.mul (ha : Counts a) (hb : Counts b) : Counts (F64.mul a b) := by
  by_cases hnan : a.isNaN = true ∨ b.isNaN = true
  · have hres : F64.mul a b = nan := by
      unfold F64.mul
      rw [if_pos (by simpa using hnan)]
    rw [hres]
    exact counts_nan
  · simp only [not_or, Bool.not_eq_true] at hnan
    by_cases hfin : a.isFinite = true ∧ b.isFinite = true
    · obtain ⟨x, hx⟩ := ha.whole hfin.1
      obtain ⟨y, hy⟩ := hb.whole hfin.2
      rw [hx.mul_eq hy]
      exact counts_roundMag _
    · have hnot : (!a.isFinite || !b.isFinite) = true := by
        cases ha' : a.isFinite with
        | false => rfl
        | true =>
          cases hb' : b.isFinite with
          | false => rfl
          | true => exact absurd ⟨ha', hb'⟩ hfin
      unfold F64.mul
      rw [hnan.1, hnan.2, hnot, ha.sign, hb.sign]
      simp only [Bool.or_self, Bool.false_eq_true, if_false, if_true]
      split
      · exact counts_nan
      · exact counts_inf

theorem Whole.add (ha : Whole a x) (hb : Whole b y) (h : (F64.add a b).isFinite = true) :
    ∃ z, Whole (F64.add a b) z ∧ x ≤ z := by
  have heq := ha.add_eq hb
  obtain ⟨z, hz⟩ := (Counts.add (Or.inl ⟨x, ha⟩) (Or.inl ⟨y, hb⟩)).1.whole h
  refine ⟨z, hz, ?_⟩
  have hmag : a.mag ≤ (F64.add a b).mag := by
    have hlt : roundMag ((x + y) * unit) < 2 ^ 63 := by
      have hle : roundMag ((x + y) * unit) ≤ infMag := Nat.min_le_right _ _
      have hinf : infMag < 2 ^ 63 := by decide
      omega
    rw [heq, mag_ofMag _ hlt, ← roundMag_unitsOf ha.mag_lt_inf, ha.unitsOf_mag]
    exact roundMag_mono (Nat.mul_le_mul_right _ (Nat.le_add_right x y))
  have hunits := unitsOf_strictMono.monotone hmag
  rw [ha.unitsOf_mag, hz.unitsOf_mag] at hunits
  exact Nat.le_of_mul_le_mul_right hunits unit_pos

theorem Whole.add_exact {c : F64} (ha : Whole a x) (hb : Whole b y) (hc : Whole c (x + y)) :
    F64.add a b = c := by
  rw [ha.add_eq hb, ← hc.unitsOf_mag, roundMag_unitsOf hc.mag_lt_inf, ← hc.eq_ofMag]

theorem Whole.mul_exact {c : F64} (ha : Whole a x) (hb : Whole b y) (hc : Whole c (x * y)) :
    F64.mul a b = c := by
  rw [ha.mul_eq hb, ← hc.unitsOf_mag, roundMag_unitsOf hc.mag_lt_inf, ← hc.eq_ofMag]

theorem Whole.sub (ha : Whole a x) (hb : Whole b y) (h : y ≤ x) :
    ∃ z, Whole (F64.sub a b) z ∧ (y < x → 0 < z) := by
  have hdiff : a.value + b.neg.value = ((x - y) * unit : Nat) := by
    rw [ha.is.2, value_neg, hb.is.2, Nat.sub_mul, Int.ofNat_sub (Nat.mul_le_mul_right _ h)]
    push_cast
    ring
  have heq : F64.sub a b = ofMag false (roundMag ((x - y) * unit)) := by
    rw [F64.sub, add_finite ha.is.1 ((isFinite_neg b).trans hb.is.1), hdiff, ha.sign]
    by_cases hzero : (x - y) * unit = 0
    · rw [hzero]
      rfl
    · rw [if_neg (by exact_mod_cast hzero), round, Int.natAbs_natCast,
        decide_eq_false (Int.not_lt.mpr (Int.natCast_nonneg _))]
  have hmag : roundMag ((x - y) * unit) ≤ a.mag := by
    rw [← roundMag_unitsOf ha.mag_lt_inf, ha.unitsOf_mag]
    exact roundMag_mono (Nat.mul_le_mul_right _ (Nat.sub_le x y))
  obtain ⟨z, hz⟩ := whole_roundMag (Nat.lt_of_le_of_lt hmag ha.mag_lt_inf)
  rw [heq]
  refine ⟨z, hz, fun hlt => ?_⟩
  have hone := whole_ofInt (n := 1) (by decide)
  have hle : (ofInt (1 : Nat)).mag ≤ roundMag ((x - y) * unit) := by
    rw [← roundMag_unitsOf hone.mag_lt_inf, hone.unitsOf_mag]
    exact roundMag_mono (Nat.mul_le_mul_right _ (by omega))
  have hunits := unitsOf_strictMono.monotone hle
  have hz' := hz.unitsOf_mag
  rw [mag_ofMag _ (by have := mag_lt a; omega)] at hz'
  rw [hone.unitsOf_mag, hz'] at hunits
  exact Nat.le_of_mul_le_mul_right hunits unit_pos

/-! ## leaving out the sign of zero -/

/-- `a`, or `0` for `-0`. -/
def unsigned (a : F64) : F64 := if a = negZero then zero else a

theorem Is.unsigned {n : Int} (ha : a.Is n) : a.unsigned.Is n := by
  unfold F64.unsigned
  split
  · rename_i heq
    rw [ha.unique (heq ▸ is_negZero)]
    exact is_zero
  · exact ha

theorem Whole.significand (ha : Whole a x) : ∃ s e, s < 2 ^ 53 ∧ x * unit = s * 2 ^ e := by
  rw [← ha.unitsOf_mag]
  unfold unitsOf
  split
  · next h => exact ⟨a.mag, 0, by omega, by omega⟩
  · exact ⟨2 ^ 52 + a.mag % 2 ^ 52, a.mag / 2 ^ 52 - 1, by omega, rfl⟩

/-- Below a double, a significand of 53 bits is one. -/
theorem Whole.of_le (ha : Whole a x) {s e : Nat} (hle : y ≤ x) (hs : s < 2 ^ 53)
    (hy : y * unit = s * 2 ^ e) : ∃ c, Whole c y := by
  have hmag : roundMag (y * unit) ≤ a.mag := by
    rw [← roundMag_unitsOf ha.mag_lt_inf, ha.unitsOf_mag]
    exact roundMag_mono (Nat.mul_le_mul_right _ hle)
  have hlt : roundMag (y * unit) < infMag := Nat.lt_of_le_of_lt hmag ha.mag_lt_inf
  refine ⟨_, whole_ofMag hlt ?_⟩
  rw [unitsOf_roundMag_of_lt hlt]
  have hplace : place (y * unit) ≤ e := by
    unfold place
    by_cases hzero : y * unit = 0
    · rw [hzero]
      simp
    · have hpow : y * unit < 2 ^ (53 + e) := by
        rw [hy, Nat.pow_add]
        exact Nat.mul_lt_mul_of_pos_right hs (Nat.two_pow_pos e)
      have := (Nat.log2_lt hzero).mpr hpow
      omega
  have hdvd : 2 ^ place (y * unit) ∣ y * unit := by
    rw [hy]
    exact Nat.dvd_trans (Nat.pow_dvd_pow 2 (hy ▸ hplace)) (Nat.dvd_mul_left _ _)
  rw [rne_of_dvd (Nat.two_pow_pos _) hdvd, Nat.div_mul_cancel hdvd]

/-- The low bits of a double are a double. -/
theorem Whole.mod (ha : Whole a x) (k : Nat) : ∃ c, Whole c (x % 2 ^ k) := by
  obtain ⟨s, e, hs, hx⟩ := ha.significand
  have hmod : x % 2 ^ k * unit = s * 2 ^ e % 2 ^ (k + bias) := by
    rw [← hx, Nat.pow_add]
    exact (Nat.mul_mod_mul_right unit x (2 ^ k)).symm
  by_cases he : k + bias ≤ e
  · apply ha.of_le (s := 0) (e := 0) (Nat.mod_le _ _) (by decide)
    rw [hmod, Nat.mod_eq_zero_of_dvd (Nat.dvd_trans (Nat.pow_dvd_pow 2 he) (Nat.dvd_mul_left _ _))]
    rfl
  · have hsplit : 2 ^ (k + bias) = 2 ^ (k + bias - e) * 2 ^ e := by
      rw [← Nat.pow_add]
      congr 1
      omega
    apply ha.of_le (s := s % 2 ^ (k + bias - e)) (e := e) (Nat.mod_le _ _)
    · exact Nat.lt_of_le_of_lt (Nat.mod_le _ _) hs
    · rw [hmod, hsplit, Nat.mul_mod_mul_right]

/-- A small multiple of a power of two, below a double. -/
theorem Whole.shift (ha : Whole a x) {s k : Nat} (hs : s < 2 ^ 53) (hle : s * 2 ^ k ≤ x) :
    ∃ c, Whole c (s * 2 ^ k) := by
  apply ha.of_le hle hs
  rw [unit, Nat.mul_assoc, ← Nat.pow_add]

end Whole

end BunServe.F64
