import Mathlib.Data.Nat.Bitwise

/-!
# BunServe.Lib.BitList

Numbers as lists of bits, most significant first: `toBits n v` are the low `n`
bits of `v`, `ofBits` the number a list reads as.
-/

namespace BunServe

/-- The low `n` bits of `v`, most significant first. -/
def toBits : Nat → Nat → List Bool
  | 0, _ => []
  | n + 1, v => v.testBit n :: toBits n v

/-- The number a list of bits reads as, above the bits read so far. -/
def ofBitsFrom (acc : Nat) : List Bool → Nat
  | [] => acc
  | b :: bs => ofBitsFrom (acc * 2 + b.toNat) bs

/-- The number a list of bits reads as. -/
def ofBits (bs : List Bool) : Nat := ofBitsFrom 0 bs

@[simp] theorem length_toBits (n v : Nat) : (toBits n v).length = n := by
  induction n with
  | zero => rfl
  | succ n ih => rw [toBits, List.length_cons, ih]

theorem mod_two_pow_succ (n v : Nat) :
    v % 2 ^ (n + 1) = (v.testBit n).toNat * 2 ^ n + v % 2 ^ n := by
  rw [Nat.pow_succ, Nat.mod_mul, Nat.toNat_testBit, Nat.mul_comm, Nat.add_comm]

theorem ofBitsFrom_toBits (acc n v : Nat) :
    ofBitsFrom acc (toBits n v) = acc * 2 ^ n + v % 2 ^ n := by
  induction n generalizing acc with
  | zero => simp [toBits, ofBitsFrom, Nat.mod_one]
  | succ n ih =>
    rw [toBits, ofBitsFrom, ih, mod_two_pow_succ, Nat.add_mul, Nat.mul_assoc, Nat.pow_succ,
      Nat.mul_comm 2 (2 ^ n), Nat.add_assoc]

/-- A number of `n` bits is read back. -/
theorem ofBits_toBits {n v : Nat} (h : v < 2 ^ n) : ofBits (toBits n v) = v := by
  rw [ofBits, ofBitsFrom_toBits, Nat.zero_mul, Nat.zero_add, Nat.mod_eq_of_lt h]

theorem toBits_snoc (n v : Nat) (b : Bool) :
    toBits (n + 1) (v * 2 + b.toNat) = toBits n v ++ [b] := by
  induction n with
  | zero =>
    have hbit : (v * 2 + b.toNat).testBit 0 = b := by
      cases b with
      | true | false => simp
    show [(v * 2 + b.toNat).testBit 0] = [b]
    rw [hbit]
  | succ n ih =>
    have hbit : (v * 2 + b.toNat).testBit (n + 1) = v.testBit n := by
      rw [Nat.testBit_add_one]
      congr 1
      cases b with
      | true => simp only [Bool.toNat_true]; omega
      | false => simp only [Bool.toNat_false]; omega
    rw [toBits, ih, hbit]
    rfl

theorem toBits_shift (n m v : Nat) :
    toBits (n + m) (v * 2 ^ m) = toBits n v ++ List.replicate m false := by
  induction m with
  | zero => simp
  | succ m ih =>
    have hpow : v * 2 ^ (m + 1) = v * 2 ^ m * 2 + (false).toNat := by
      rw [Nat.pow_succ, Bool.toNat_false, Nat.add_zero, Nat.mul_assoc]
    rw [← Nat.add_assoc, hpow, toBits_snoc, ih, List.append_assoc, List.replicate_succ']

theorem getElem?_toBits {n v i : Nat} (h : i < n) : (toBits n v)[i]? = some (v.testBit (n - 1 - i)) := by
  induction n generalizing i with
  | zero => omega
  | succ n ih =>
    cases i with
    | zero => simp [toBits]
    | succ i =>
      rw [toBits, List.getElem?_cons_succ, ih (by omega)]
      congr 2
      omega

end BunServe
