import Mathlib.Algebra.Order.BigOperators.Group.List
import Mathlib.Algebra.Order.Field.Basic
import Mathlib.Tactic.Linarith
import Mathlib.Tactic.Ring

/-!
# BunServe.Lib.TokenBucket

Token buckets over an ordered field.

A bucket holds at most `cap` tokens and gains `rate` of them for every unit of
time.  It is not kept up to date: a `Level` is what it held when it was last
looked at, and `level` what it would hold at a later time.  A bucket never
looked at is full.

* `level_level` — looking at a bucket on the way changes nothing later;
* `le_level` — what has flowed in by some time is enough for a cost;
* `Bounded` — the costs paid out of a bucket, in any stretch of time, against
  its capacity and what flows in meanwhile, kept by looking (`Bounded.look`), by
  paying (`Bounded.pay`) and by paying for nothing (`Bounded.waste`).
-/

namespace BunServe.TokenBucket

variable {F : Type} [Field F] [LinearOrder F]

/-- What a bucket held when it was last looked at. -/
structure Level (F : Type) where
  tokens : F
  updated : F

/-- What a bucket would hold at a time. -/
def level (cap rate : F) (b : Option (Level F)) (t : F) : F :=
  match b with
  | none => cap
  | some b => min cap (b.tokens + max 0 (t - b.updated) * rate)

/-- The bucket as it is after a look. -/
def look (cap rate : F) (b : Option (Level F)) (t : F) : Level F :=
  { tokens := level cap rate b t, updated := t }

theorem level_le (cap rate : F) (b : Option (Level F)) (t : F) : level cap rate b t ≤ cap := by
  cases b with
  | none => exact le_refl _
  | some b => exact min_le_left _ _

/-! ## payments -/

/-- The payments, by time and cost, within a stretch of time. -/
def spent (paid : List (F × F)) (a c : F) : F :=
  ((paid.filter fun e => a ≤ e.1 ∧ e.1 ≤ c).map Prod.snd).sum

@[simp] theorem spent_nil (a c : F) : spent ([] : List (F × F)) a c = 0 := rfl

theorem spent_cons (e : F × F) (paid : List (F × F)) (a c : F) :
    spent (e :: paid) a c = (if a ≤ e.1 ∧ e.1 ≤ c then e.2 else 0) + spent paid a c := by
  by_cases h : a ≤ e.1 ∧ e.1 ≤ c
  · simp [spent, h]
  · simp only [spent, List.filter_cons, decide_eq_true_eq, if_neg h, zero_add]

theorem spent_append (paid : List (F × F)) (t cost a c : F) :
    spent (paid ++ [(t, cost)]) a c = spent paid a c + if a ≤ t ∧ t ≤ c then cost else 0 := by
  induction paid with
  | nil => simp [spent_cons]
  | cons e paid ih => rw [List.cons_append, spent_cons, spent_cons, ih, add_assoc]

theorem spent_of_lt {paid : List (F × F)} {u a c : F} (hu : ∀ e ∈ paid, e.1 ≤ u) (ha : u < a) :
    spent paid a c = 0 := by
  have hnone : (paid.filter fun e => decide (a ≤ e.1 ∧ e.1 ≤ c)) = [] := by
    rw [List.filter_eq_nil_iff]
    intro e he
    have := hu e he
    simp only [decide_eq_true_eq, not_and_or]
    exact .inl (not_le.mpr (this.trans_lt ha))
  simp only [spent, hnone, List.map_nil, List.sum_nil]

/-- Payments of nothing do not count. -/
theorem spent_filter_ne_zero (paid : List (F × F)) (a c : F) :
    spent (paid.filter fun e => e.2 ≠ 0) a c = spent paid a c := by
  induction paid with
  | nil => rfl
  | cons e paid ih =>
    rw [List.filter_cons, spent_cons]
    split
    · rw [spent_cons, ih]
    · next hzero =>
      have hcost : e.2 = 0 := by simpa using hzero
      rw [ih, hcost, ite_self, zero_add]

/-- All payments lie before the last look, so a stretch may end there. -/
theorem spent_past {paid : List (F × F)} {u c : F} (hu : ∀ e ∈ paid, e.1 ≤ u) (hc : u ≤ c) (a : F) :
    spent paid a c = spent paid a u := by
  simp only [spent]
  congr 2
  refine List.filter_congr fun e he => ?_
  have h1 := hu e he
  have h2 := h1.trans hc
  simp [h1, h2]

/-! ## looking -/

variable [IsStrictOrderedRing F]

variable {t : F}

theorem level_some (cap rate : F) {b : Level F} (ht : b.updated ≤ t) :
    level cap rate (some b) t = min cap (b.tokens + (t - b.updated) * rate) := by
  simp only [level, max_eq_right (sub_nonneg.mpr ht)]

/-- Looking at a bucket on the way changes nothing later. -/
theorem level_level {cap rate : F} (hrate : 0 ≤ rate) {b : Option (Level F)} {s : F} (hst : s ≤ t)
    (hb : ∀ v, b = some v → v.updated ≤ s) :
    level cap rate (some (look cap rate b s)) t = level cap rate b t := by
  have hflow : 0 ≤ (t - s) * rate := mul_nonneg (sub_nonneg.mpr hst) hrate
  rw [level_some cap rate hst]
  cases b with
  | none =>
    show min cap (cap + (t - s) * rate) = cap
    exact min_eq_left (by linarith)
  | some b =>
    have hbs := hb b rfl
    simp only [look, level_some cap rate hbs, level_some cap rate (hbs.trans hst)]
    have hsum : b.tokens + (s - b.updated) * rate + (t - s) * rate =
        b.tokens + (t - b.updated) * rate := by ring
    rw [← min_add_add_right, hsum, ← min_assoc,
      min_eq_left (by linarith : cap ≤ cap + (t - s) * rate)]

theorem le_level {cap rate : F} {b : Level F} {cost : F} (ht : b.updated ≤ t) (hcap : cost ≤ cap)
    (hflow : cost - b.tokens ≤ (t - b.updated) * rate) : cost ≤ level cap rate (some b) t := by
  rw [level_some cap rate ht]
  exact le_min hcap (by linarith)

/-! ## the bound -/

/-- The payments out of a bucket: in any stretch of time no more than a full
bucket and what flows in, and up to now no more than has left it. -/
structure Bounded (cap rate : F) (b : Option (Level F)) (paid : List (F × F)) : Prop where
  within : ∀ a c, a ≤ c → spent paid a c ≤ cap + (c - a) * rate
  untouched : b = none → paid = []
  nonneg : ∀ v, b = some v → 0 ≤ v.tokens
  atMost : ∀ v, b = some v → v.tokens ≤ cap
  past : ∀ v, b = some v → ∀ e ∈ paid, e.1 ≤ v.updated
  left : ∀ v, b = some v → ∀ a ≤ v.updated,
    spent paid a v.updated ≤ cap - v.tokens + (v.updated - a) * rate

variable {cap rate : F} {b : Option (Level F)} {paid : List (F × F)}

/-- A bucket never looked at has paid nothing. -/
theorem Bounded.fresh (hcap : 0 ≤ cap) (hrate : 0 ≤ rate) : Bounded cap rate none ([] : List (F × F)) where
  within := fun a c hac => by
    have := mul_nonneg (sub_nonneg.mpr hac) hrate
    simp only [spent_nil]
    linarith
  untouched := fun _ => rfl
  nonneg := fun v hv => by cases hv
  atMost := fun v hv => by cases hv
  past := fun v hv => by cases hv
  left := fun v hv => by cases hv

theorem Bounded.look (h : Bounded cap rate b paid) (hcap : 0 ≤ cap) (hrate : 0 ≤ rate)
    (ht : ∀ v, b = some v → v.updated ≤ t) :
    Bounded cap rate (some (TokenBucket.look cap rate b t)) paid := by
  cases b with
  | none =>
    have hpaid := h.untouched rfl
    subst hpaid
    exact {
      within := h.within
      untouched := fun hv => by cases hv
      nonneg := fun v hv => by cases hv; exact hcap
      atMost := fun v hv => by cases hv; exact le_refl _
      past := fun v hv e he => by cases he
      left := fun v hv a ha => by
        cases hv
        have hflow : 0 ≤ (t - a) * rate := mul_nonneg (sub_nonneg.mpr ha) hrate
        simpa [TokenBucket.look, level] using hflow }
  | some b =>
    have hbt := ht b rfl
    have hflow : 0 ≤ (t - b.updated) * rate := mul_nonneg (sub_nonneg.mpr hbt) hrate
    have hpast : ∀ e ∈ paid, e.1 ≤ t := fun e he => (h.past b rfl e he).trans hbt
    have hlevel := level_some cap rate hbt
    exact {
      within := h.within
      untouched := fun hv => by cases hv
      nonneg := fun v hv => by
        cases hv
        show 0 ≤ level cap rate (some b) t
        rw [hlevel]
        exact le_min hcap (add_nonneg (h.nonneg b rfl) hflow)
      atMost := fun v hv => by cases hv; exact level_le cap rate (some b) t
      past := fun v hv => by cases hv; exact hpast
      left := fun v hv a ha => by
        cases hv
        show spent paid a t ≤ cap - level cap rate (some b) t + (t - a) * rate
        rw [hlevel, spent_past (h.past b rfl) hbt]
        have hmin := min_le_right cap (b.tokens + (t - b.updated) * rate)
        rcases le_or_gt a b.updated with hab | hab
        · have := h.left b rfl a hab
          linarith
        · rw [spent_of_lt (h.past b rfl) hab]
          have : 0 ≤ (t - a) * rate := mul_nonneg (sub_nonneg.mpr ha) hrate
          have := min_le_left cap (b.tokens + (t - b.updated) * rate)
          linarith }

theorem Bounded.waste {v : Level F} (h : Bounded cap rate (some v) paid) {cost : F} (hcost : 0 ≤ cost)
    (hpay : cost ≤ v.tokens) :
    Bounded cap rate (some { v with tokens := v.tokens - cost }) paid where
  within := h.within
  untouched := fun hw => by cases hw
  nonneg := fun w hw => by cases hw; exact sub_nonneg.mpr hpay
  atMost := fun w hw => by
    cases hw
    have := h.atMost v rfl
    linarith
  past := fun w hw => by cases hw; exact h.past v rfl
  left := fun w hw a ha => by
    cases hw
    have := h.left v rfl a ha
    linarith

theorem Bounded.pay {v : Level F} (h : Bounded cap rate (some v) paid) (hrate : 0 ≤ rate) {cost : F}
    (hcost : 0 ≤ cost) (hpay : cost ≤ v.tokens) :
    Bounded cap rate (some { v with tokens := v.tokens - cost }) (paid ++ [(v.updated, cost)]) := by
  have hcap := h.atMost v rfl
  -- up to now: what was paid before, and the new payment when the stretch reaches back to it
  have hleft : ∀ a ≤ v.updated, spent (paid ++ [(v.updated, cost)]) a v.updated ≤
      cap - (v.tokens - cost) + (v.updated - a) * rate := by
    intro a ha
    have := h.left v rfl a ha
    rw [spent_append, if_pos ⟨ha, le_refl _⟩]
    linarith
  have hpast : ∀ e ∈ paid ++ [(v.updated, cost)], e.1 ≤ v.updated := by
    intro e he
    rcases List.mem_append.mp he with he | he
    · exact h.past v rfl e he
    · simp only [List.mem_singleton] at he
      simp [he]
  exact {
    within := fun a c hac => by
      by_cases hin : a ≤ v.updated ∧ v.updated ≤ c
      · have hl := hleft a hin.1
        have hflow := mul_nonneg (sub_nonneg.mpr hin.2) hrate
        rw [spent_past hpast hin.2]
        linarith
      · rw [spent_append, if_neg hin, add_zero]
        exact h.within a c hac
    untouched := fun hw => by cases hw
    nonneg := fun w hw => by cases hw; exact sub_nonneg.mpr hpay
    atMost := fun w hw => by
      cases hw
      linarith
    past := fun w hw => by cases hw; exact hpast
    left := fun w hw => by cases hw; exact hleft }

end BunServe.TokenBucket
