import Mathlib.Data.List.OfFn
import Mathlib.Data.Nat.ModEq

/-!
# BunServe.Lib.Ring

A ring buffer: an array of a fixed size that holds the newest elements pushed, the
oldest overwritten once it is full.  That the slots in use are filled is a field.

* `toList_push` — pushing adds an element and keeps as many of the newest as fit.
-/

namespace BunServe

/-- `len` elements from `start` on, around an array of `cap` slots. -/
structure Ring (α : Type) (cap : Nat) where
  slots : Nat → Option α
  start : Nat
  len : Nat
  len_le : len ≤ cap
  filled : ∀ i < len, (slots ((start + i) % cap)).isSome

namespace Ring

variable {α : Type} {cap : Nat}

def empty : Ring α cap where
  slots _ := none
  start := 0
  len := 0
  len_le := Nat.zero_le _
  filled _ hi := absurd hi (Nat.not_lt_zero _)

/-- The element so many places after the oldest. -/
def get (r : Ring α cap) (i : Nat) (hi : i < r.len) : α :=
  (r.slots ((r.start + i) % cap)).get (r.filled i hi)

/-- The elements, oldest first. -/
def toList (r : Ring α cap) : List α := List.ofFn fun i : Fin r.len => r.get i i.2

/-- An element in a slot. -/
def put (slots : Nat → Option α) (idx : Nat) (a : α) (i : Nat) : Option α :=
  if i = idx then some a else slots i

/-- Places less than one round apart have slots of their own. -/
theorem mod_inj {start i j : Nat} (hi : i < cap) (hj : j < cap)
    (h : (start + i) % cap = (start + j) % cap) : i = j :=
  Nat.ModEq.eq_of_lt_of_lt (Nat.ModEq.add_left_cancel' start h) hi hj

theorem put_isSome {slots : Nat → Option α} {idx i : Nat} {a : α}
    (h : i ≠ idx → (slots i).isSome) : (put slots idx a i).isSome := by
  unfold put
  split
  · rfl
  · next hne => exact h hne

/-- Push an element; a full ring loses its oldest. -/
def push (r : Ring α cap) (a : α) : Ring α cap :=
  if hlen : r.len < cap then
    { slots := put r.slots ((r.start + r.len) % cap) a
      start := r.start
      len := r.len + 1
      len_le := hlen
      filled i hi := put_isSome fun hne => r.filled i <| by
        have : i ≠ r.len := fun heq => hne (by rw [heq])
        omega }
  else
    { slots := put r.slots ((r.start + r.len) % cap) a
      start := (r.start + 1) % cap
      len := r.len
      len_le := r.len_le
      filled i hi := put_isSome fun hne => by
        have hround : ((r.start + 1) % cap + i) % cap = (r.start + (i + 1)) % cap := by
          rw [Nat.mod_add_mod, Nat.add_assoc, Nat.add_comm 1 i]
        rw [hround] at hne ⊢
        refine r.filled (i + 1) ?_
        have : i + 1 ≠ r.len := fun heq => hne (by rw [heq])
        omega }

@[simp] theorem toList_empty : (empty : Ring α cap).toList = [] := List.ofFn_zero

@[simp] theorem length_toList (r : Ring α cap) : r.toList.length = r.len := List.length_ofFn

theorem some_get (r : Ring α cap) (i : Nat) (hi : i < r.len) :
    some (r.get i hi) = r.slots ((r.start + i) % cap) := Option.some_get _

theorem getElem?_toList (r : Ring α cap) (i : Nat) (hi : i < r.len) :
    r.toList[i]? = r.slots ((r.start + i) % cap) := by
  rw [← some_get r i hi, List.getElem?_eq_getElem (by simpa using hi)]
  simp [toList]

theorem len_push (r : Ring α cap) (a : α) : (r.push a).len = r.len + 1 - (r.len + 1 - cap) := by
  have := r.len_le
  unfold push
  split
  · next hlen =>
    show r.len + 1 = _
    omega
  · show r.len = _
    omega

theorem toList_push (r : Ring α cap) (hcap : 0 < cap) (a : α) :
    (r.push a).toList = (r.toList ++ [a]).drop (r.len + 1 - cap) := by
  have hle := r.len_le
  have hpush := len_push r a
  refine List.ext_getElem? fun i => ?_
  rw [List.getElem?_drop]
  by_cases hi : i < (r.push a).len
  · rw [getElem?_toList _ _ hi]
    unfold push at hi ⊢
    split
    · next hlen =>
      rw [dif_pos hlen] at hi
      have hzero : r.len + 1 - cap = 0 := by omega
      rw [hzero, Nat.zero_add]
      show put r.slots ((r.start + r.len) % cap) a ((r.start + i) % cap) = _
      unfold put
      by_cases heq : i = r.len
      · rw [if_pos (by rw [heq]), heq, List.getElem?_append_right (by simp)]
        simp
      · have hlt : i < r.len := by
          have : i < r.len + 1 := hi
          omega
        rw [if_neg fun h => heq (mod_inj (by omega) hlen h), List.getElem?_append_left (by simpa using hlt),
          getElem?_toList _ _ hlt]
    · next hlen =>
      rw [dif_neg hlen] at hi
      have hfull : r.len = cap := by omega
      have hone : r.len + 1 - cap = 1 := by omega
      have hround : ((r.start + 1) % cap + i) % cap = (r.start + (1 + i)) % cap := by
        rw [Nat.mod_add_mod, Nat.add_assoc]
      rw [hone]
      show put r.slots ((r.start + r.len) % cap) a (((r.start + 1) % cap + i) % cap) = _
      rw [hround]
      unfold put
      have hi' : i < r.len := hi
      by_cases heq : 1 + i = r.len
      · rw [if_pos (by rw [heq]), heq, List.getElem?_append_right (by simp)]
        simp
      · have hne : (r.start + (1 + i)) % cap ≠ (r.start + r.len) % cap := by
          intro h
          rw [hfull, Nat.add_mod_right] at h
          have : 1 + i = 0 := mod_inj (by omega) hcap h
          omega
        rw [if_neg hne, List.getElem?_append_left (by simp; omega), getElem?_toList _ _ (by omega)]
  · rw [List.getElem?_eq_none (by simpa using hi), List.getElem?_eq_none (by simp; omega)]

end Ring

end BunServe
