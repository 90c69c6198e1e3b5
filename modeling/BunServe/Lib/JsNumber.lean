import Mathlib.Order.WithBot
import Mathlib.Algebra.Field.Rat
import Mathlib.Algebra.Order.Ring.Rat
import Mathlib.Data.Nat.Cast.Order.Ring
import Mathlib.Algebra.Order.Ring.Cast

/-!
# BunServe.Lib.JsNumber

JavaScript numbers as the comparison operators see them: NaN, or a rational
with the two infinities.  Every comparison with NaN is false, so `¬ a ≤ b` is
weaker than `b < a`; `lt_of_not_le` is where NaN has to be excluded.
-/

namespace BunServe

/-- A JavaScript number under `<` and `<=`. -/
inductive JsNumber where
  | nan
  | real (x : WithBot (WithTop ℚ))
  deriving DecidableEq

namespace JsNumber

/-- A whole number. -/
def ofNat (n : Nat) : JsNumber := .real (((n : ℚ) : WithTop ℚ) : WithBot (WithTop ℚ))

/-- An integer. -/
def ofInt (z : Int) : JsNumber := .real (((z : ℚ) : WithTop ℚ) : WithBot (WithTop ℚ))

@[simp] theorem ofInt_natCast (n : Nat) : ofInt n = ofNat n := by
  simp [ofInt, ofNat]

/-- `a <= b`. -/
def le : JsNumber → JsNumber → Prop
  | .real x, .real y => x ≤ y
  | _, _ => False

/-- `a < b`. -/
def lt : JsNumber → JsNumber → Prop
  | .real x, .real y => x < y
  | _, _ => False

instance (a b : JsNumber) : Decidable (le a b) :=
  match a, b with
  | .real x, .real y => inferInstanceAs (Decidable (x ≤ y))
  | .nan, _ => isFalse (by simp [le])
  | .real _, .nan => isFalse (by simp [le])

instance (a b : JsNumber) : Decidable (lt a b) :=
  match a, b with
  | .real x, .real y => inferInstanceAs (Decidable (x < y))
  | .nan, _ => isFalse (by simp [lt])
  | .real _, .nan => isFalse (by simp [lt])

/-- A finite number. -/
def ofRat (q : ℚ) : JsNumber := .real ((q : WithTop ℚ) : WithBot (WithTop ℚ))

/-- `Infinity`. -/
def infinity : JsNumber := .real ((⊤ : WithTop ℚ) : WithBot (WithTop ℚ))

/-- The value of a finite number. -/
def finite? : JsNumber → Option ℚ
  | .real (some (some q)) => some q
  | _ => none

/-- The value of a number that is an integer: `Number.isInteger`. -/
def integer? (a : JsNumber) : Option Int :=
  match a.finite? with
  | some q => if q.den = 1 then some q.num else none
  | none => none

/-- `Math.min(a, b)`. -/
def min : JsNumber → JsNumber → JsNumber
  | .real x, .real y => .real (if x ≤ y then x else y)
  | _, _ => .nan

/-- `Math.max(a, b)`. -/
def max : JsNumber → JsNumber → JsNumber
  | .real x, .real y => .real (if x ≤ y then y else x)
  | _, _ => .nan

/-- `a + 1`, where it is exact. -/
def succ : JsNumber → JsNumber
  | .nan => .nan
  | .real x => .real (x + 1)

/-! ## comparing -/

variable {n : Nat}

@[simp] theorem le_ofNat {m : Nat} : le (ofNat m) (ofNat n) ↔ m ≤ n := by
  simp [le, ofNat]

@[simp] theorem lt_ofNat {m : Nat} : lt (ofNat m) (ofNat n) ↔ m < n := by
  simp [lt, ofNat]

@[simp] theorem not_le_nan (a : JsNumber) : ¬ le a .nan := by
  cases a <;> simp [le]

@[simp] theorem not_lt_nan (a : JsNumber) : ¬ lt a .nan := by
  cases a <;> simp [lt]

@[simp] theorem not_nan_lt (a : JsNumber) : ¬ lt .nan a := by
  simp [lt]

@[simp] theorem ofNat_ne_nan (n : Nat) : ofNat n ≠ .nan := by
  simp [ofNat]

variable {a b : JsNumber}

/-- Away from NaN, what is not at most `b` is above it. -/
theorem lt_of_not_le (ha : a ≠ .nan) (hb : b ≠ .nan) (h : ¬ le a b) : lt b a := by
  cases a with
  | nan => contradiction
  | real x =>
    cases b with
    | nan => contradiction
    | real y => exact not_le.mp h

theorem le_refl (h : a ≠ .nan) : le a a := by
  cases a with
  | nan => contradiction
  | real x => exact Std.le_refl x

theorem le_infinity (h : a ≠ .nan) : le a infinity := by
  cases a with
  | nan => contradiction
  | real x =>
    have hx : x ≤ ⊤ := le_top
    exact hx

@[simp] theorem ofInt_ne_nan (z : Int) : ofInt z ≠ .nan := by
  simp [ofInt]

variable {z : Int}

@[simp] theorem le_ofInt {y : Int} : le (ofInt y) (ofInt z) ↔ y ≤ z := by
  simp [le, ofInt]

@[simp] theorem lt_ofInt {y : Int} : lt (ofInt y) (ofInt z) ↔ y < z := by
  simp [lt, ofInt]

@[simp] theorem le_ofInt_ofNat : le (ofInt z) (ofNat n) ↔ z ≤ n := by
  rw [← ofInt_natCast, le_ofInt]

@[simp] theorem lt_ofInt_ofNat : lt (ofInt z) (ofNat n) ↔ z < n := by
  rw [← ofInt_natCast, lt_ofInt]

variable {c : JsNumber}

theorem lt_of_le_of_lt (h : le a b) (h' : lt b c) : lt a c := by
  cases a <;> cases b <;> cases c <;> simp [le] at h h' ⊢
  exact h.trans_lt h'

theorem lt_of_lt_of_le (h : lt a b) (h' : le b c) : lt a c := by
  cases a <;> cases b <;> cases c <;> simp [lt] at h h' ⊢
  exact h.trans_le h'

theorem le_trans (h : le a b) (h' : le b c) : le a c := by
  cases a <;> cases b <;> cases c <;> simp [le] at h h' ⊢
  exact h.trans h'

theorem lt_trans (h : lt a b) (h' : lt b c) : lt a c := by
  cases a <;> cases b <;> cases c <;> simp [lt] at h h' ⊢
  exact h.trans h'

theorem le_of_lt (h : lt a b) : le a b := by
  cases a <;> cases b <;> simp [lt] at h ⊢
  exact h.le

theorem min_le_right (ha : a ≠ .nan) (hb : b ≠ .nan) : le (min a b) b := by
  cases a with
  | nan => contradiction
  | real x =>
    cases b with
    | nan => contradiction
    | real y =>
      by_cases h : x ≤ y
      · simp [min, le, h]
      · simp [min, le, h]

theorem min_ne_nan (ha : a ≠ .nan) (hb : b ≠ .nan) : min a b ≠ .nan := by
  cases a with
  | nan => contradiction
  | real x =>
    cases b with
    | nan => contradiction
    | real y => simp [min]

end JsNumber

end BunServe
