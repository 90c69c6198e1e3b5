import Mathlib.Algebra.Order.Ring.Int
import Mathlib.Data.List.Basic

/-!
# BunServe.Lib.JsString

JavaScript strings as lists of UTF-16 code units, with the few operations the
parsers need: splitting at a unit, taking everything before a unit, ASCII case
folding and `toLowerCase`.

`toLowerCase` folds ASCII letters exactly.  What it does to other units is
Unicode data and is a parameter (`LowerCase`) with the one fact the parsers
rely on: no other unit disappears, and none turns into an ASCII unit besides
`k` (from the Kelvin sign) and `i` (from the dotted capital I).
`lower_eq_map_of_units` is the consequence: a lower-cased string made of other
ASCII units only came from an ASCII string.
-/

namespace BunServe

open List (map_cons mem_cons_of_mem)

/-- A JavaScript string. -/
abbrev JsString := List UInt16

instance : LawfulBEq JsString := inferInstance

/-- The UTF-16 code units of a character. -/
def units (c : Char) : JsString :=
  if c.val < 0x10000 then [c.val.toUInt16]
  else [(0xd800 + (c.val - 0x10000) / 0x400).toUInt16,
    (0xdc00 + (c.val - 0x10000) % 0x400).toUInt16]

/-- A string literal. -/
def js (s : String) : JsString := s.toList.flatMap units

/-- A one-unit character literal. -/
def unit (c : Char) : UInt16 := c.val.toUInt16

/-! ## splitting -/

/-- `s.split(cc)` for a separator that is one unit twice: leftmost matches
first, without overlap. -/
def splitOnTwice (c : UInt16) : JsString → List JsString
  | [] => [[]]
  | [u] => [[u]]
  | u :: v :: s =>
    if u = c ∧ v = c then [] :: splitOnTwice c s
    else (splitOnTwice c (v :: s)).modifyHead (u :: ·)

variable {c : UInt16}

theorem splitOn_map {f : UInt16 → UInt16} (hf : ∀ u, f u = c ↔ u = c)
    (s : JsString) : (s.map f).splitOn c = (s.splitOn c).map (List.map f) := by
  induction s with
  | nil => rfl
  | cons u s ih =>
    rw [map_cons, List.splitOn_cons_eq_if_modifyHead, List.splitOn_cons_eq_if_modifyHead, ih]
    cases hs : s.splitOn c with
    | nil => exact absurd hs (List.splitOn_ne_nil c s)
    | cons p ps => by_cases h : u = c <;> simp [hf, h]

theorem splitOnTwice_ne_nil (c : UInt16) (s : JsString) : splitOnTwice c s ≠ [] := by
  induction s using splitOnTwice.induct (c := c) with
  | case1 | case2 u => simp [splitOnTwice]
  | case3 u v s h ih => simp [splitOnTwice, h]
  | case4 u v s h ih =>
    rw [splitOnTwice, if_neg h]
    cases hs : splitOnTwice c (v :: s) with
    | nil => exact absurd hs ih
    | cons p ps => simp

theorem splitOnTwice_map {f : UInt16 → UInt16} (hf : ∀ u, f u = c ↔ u = c)
    (s : JsString) : splitOnTwice c (s.map f) = (splitOnTwice c s).map (List.map f) := by
  induction s using splitOnTwice.induct (c := c) with
  | case1 | case2 u => rfl
  | case3 u v s h ih =>
    rw [map_cons, map_cons, splitOnTwice, if_pos (by simpa [hf] using h), ih,
      splitOnTwice, if_pos h]
    rfl
  | case4 u v s h ih =>
    rw [map_cons, map_cons, splitOnTwice, if_neg (by simpa [hf] using h),
      ← map_cons, ih, splitOnTwice, if_neg h]
    cases hs : splitOnTwice c (v :: s) with
    | nil => exact absurd hs (splitOnTwice_ne_nil c _)
    | cons p ps => simp

variable {u : UInt16} {s : JsString}

/-- A unit other than the separator is in one of the pieces. -/
theorem mem_splitOn (hu : u ∈ s) (hc : u ≠ c) : ∃ p ∈ s.splitOn c, u ∈ p := by
  induction s with
  | nil => contradiction
  | cons v s ih =>
    rw [List.splitOn_cons_eq_if_modifyHead]
    cases hs : s.splitOn c with
    | nil => exact absurd hs (List.splitOn_ne_nil c s)
    | cons q qs =>
      rw [hs] at ih
      cases List.mem_cons.mp hu with
      | inl h => subst h; simp [hc]
      | inr h =>
        obtain ⟨p, hp, hup⟩ := ih h
        by_cases hv : v = c
        · exact ⟨p, by simp only [hv, beq_self_eq_true]; exact mem_cons_of_mem _ hp, hup⟩
        · cases List.mem_cons.mp hp with
          | inl h => subst h; exact ⟨v :: p, by simp [hv], mem_cons_of_mem _ hup⟩
          | inr h => exact ⟨p, by simp [hv, h], hup⟩

theorem mem_splitOnTwice (hu : u ∈ s) (hc : u ≠ c) : ∃ p ∈ splitOnTwice c s, u ∈ p := by
  induction s using splitOnTwice.induct (c := c) with
  | case1 => contradiction
  | case2 v => exact ⟨[v], by simp [splitOnTwice], hu⟩
  | case3 v w s h ih =>
    have hus : u ∈ s := by
      simpa [h.1, h.2, hc] using hu
    obtain ⟨p, hp, hup⟩ := ih hus
    exact ⟨p, by rw [splitOnTwice, if_pos h]; exact mem_cons_of_mem _ hp, hup⟩
  | case4 v w s h ih =>
    rw [splitOnTwice, if_neg h]
    cases hs : splitOnTwice c (w :: s) with
    | nil => exact absurd hs (splitOnTwice_ne_nil c _)
    | cons q qs =>
      rw [hs] at ih
      cases List.mem_cons.mp hu with
      | inl h => exact ⟨v :: q, by simp, by simp [h]⟩
      | inr h =>
        obtain ⟨p, hp, hup⟩ := ih h
        cases List.mem_cons.mp hp with
        | inl h => subst h; exact ⟨v :: p, by simp, mem_cons_of_mem _ hup⟩
        | inr h => exact ⟨p, by simp [h], hup⟩

/-- A string without the separator is one piece. -/
theorem splitOnTwice_eq_singleton (h : c ∉ s) : splitOnTwice c s = [s] := by
  induction s using splitOnTwice.induct (c := c) with
  | case1 | case2 u => rfl
  | case3 u v s hc ih => exact absurd (by simp [hc.1]) h
  | case4 u v s hc ih =>
    rw [splitOnTwice, if_neg hc, ih fun hm => h (mem_cons_of_mem _ hm)]
    rfl

/-! ## joining -/

theorem intercalate_splitOnTwice (c : UInt16) (s : JsString) :
    [c, c].intercalate (splitOnTwice c s) = s := by
  induction s using splitOnTwice.induct (c := c) with
  | case1 | case2 u => rfl
  | case3 u v s h ih =>
    rw [splitOnTwice, if_pos h, h.1, h.2]
    cases hs : splitOnTwice c s with
    | nil => exact absurd hs (splitOnTwice_ne_nil c s)
    | cons p ps =>
      rw [hs] at ih
      rw [List.intercalate_cons_cons, ih]
      rfl
  | case4 u v s h ih =>
    rw [splitOnTwice, if_neg h]
    cases hs : splitOnTwice c (v :: s) with
    | nil => exact absurd hs (splitOnTwice_ne_nil c _)
    | cons p ps =>
      rw [hs] at ih
      rw [List.modifyHead_cons, ← ih]
      cases ps with
      | nil => rfl
      | cons q qs => simp only [List.intercalate_cons_cons, List.cons_append]

theorem splitOnTwice_cons_of_ne (h : u ≠ c) (s : JsString) :
    splitOnTwice c (u :: s) = (splitOnTwice c s).modifyHead (u :: ·) := by
  cases s with
  | nil => rfl
  | cons v s => rw [splitOnTwice, if_neg fun hc => h hc.1]

theorem splitOnTwice_cons_self (h : s.head? ≠ some c) :
    splitOnTwice c (c :: s) = (splitOnTwice c s).modifyHead (c :: ·) := by
  cases s with
  | nil => rfl
  | cons v s => rw [splitOnTwice, if_neg fun hc => h (by simp [hc.2])]

theorem splitOnTwice_append {t : JsString} (h : c ∉ t) (s : JsString) :
    splitOnTwice c (t ++ s) = (splitOnTwice c s).modifyHead (t ++ ·) := by
  induction t with
  | nil =>
    rw [List.nil_append]
    cases splitOnTwice c s <;> rfl
  | cons u t ih =>
    rw [List.mem_cons, not_or] at h
    rw [List.cons_append, splitOnTwice_cons_of_ne (Ne.symm h.1), ih h.2]
    cases splitOnTwice c s <;> rfl

theorem splitOnTwice_intercalate {toks : List JsString}
    (h : ∀ t ∈ toks, t ≠ [] ∧ c ∉ t) (s : JsString) :
    splitOnTwice c ([c].intercalate toks ++ s) =
      (splitOnTwice c s).modifyHead ([c].intercalate toks ++ ·) := by
  induction toks with
  | nil =>
    rw [List.intercalate_nil, List.nil_append]
    cases splitOnTwice c s <;> rfl
  | cons t toks ih =>
    have ht := h t (by simp)
    cases toks with
    | nil =>
      rw [List.intercalate_singleton]
      exact splitOnTwice_append ht.2 s
    | cons t' toks =>
      have ht' := h t' (by simp)
      have hhead : ([c].intercalate (t' :: toks) ++ s).head? ≠ some c := by
        obtain ⟨u, t', rfl⟩ := List.exists_cons_of_ne_nil ht'.1
        have hu : u ≠ c := fun hu => ht'.2 (by simp [hu])
        cases toks <;> simp [hu]
      have ih := ih fun t ht => h t (mem_cons_of_mem _ ht)
      rw [List.intercalate_cons_cons, List.append_assoc, List.append_assoc,
        splitOnTwice_append ht.2, List.singleton_append, splitOnTwice_cons_self hhead, ih]
      cases splitOnTwice c s <;> simp

/-! ## case folding -/

/-- Lower-case one ASCII unit. -/
def asciiLower (u : UInt16) : UInt16 := if 65 ≤ u ∧ u ≤ 90 then u + 32 else u

/-- The Unicode part of `toLowerCase`: what the unit at an index of a string
becomes when it is not ASCII.  No such unit disappears, and the only ASCII
units that come out of one are `k` and `i`. -/
structure LowerCase where
  other : JsString → Nat → JsString
  other_ne_nil : ∀ s i, other s i ≠ []
  other_units : ∀ s i, ∀ u ∈ other s i, 128 ≤ u ∨ u = 107 ∨ u = 105

namespace LowerCase

/-- The two units whose lower case has ASCII in it; every other unit is kept. -/
def minimal : LowerCase where
  other s i := match s[i]? with
    | none => [128]
    | some u =>
      if u = 0x212a then [107] else if u = 0x130 then [105, 0x307]
      else if 128 ≤ u then [u] else [128]
  other_ne_nil s i := by grind
  other_units s i := by
    intro u hu
    cases hs : s[i]? with
    | none =>
      simp only [hs, List.mem_singleton] at hu
      exact .inl (by rw [hu]; decide)
    | some v =>
      simp only [hs] at hu
      grind

variable (lc : LowerCase)

/-- What the unit `u` at index `i` of `s` becomes. -/
def piece (s : JsString) (i : Nat) (u : UInt16) : JsString :=
  if u < 128 then [asciiLower u] else lc.other s i

/-- The tail of `s` from index `i` on, lower-cased. -/
def lowerFrom (s : JsString) : Nat → JsString → JsString
  | _, [] => []
  | i, u :: us => lc.piece s i u ++ lowerFrom s (i + 1) us

/-- `s.toLowerCase()`. -/
def lower (s : JsString) : JsString := lc.lowerFrom s 0 s

variable {lc} {s : JsString}

theorem piece_ne_nil (i : Nat) (u : UInt16) : lc.piece s i u ≠ [] := by
  unfold piece
  split
  · simp
  · exact lc.other_ne_nil s i

/-- The units that only ASCII units become. -/
def Plain (u : UInt16) : Prop := u < 128 ∧ u ≠ 107 ∧ u ≠ 105

instance (u : UInt16) : Decidable (Plain u) := inferInstanceAs (Decidable (_ ∧ _ ∧ _))

variable {i : Nat}

theorem piece_of_plain_mem {v : UInt16} (hv : Plain v) (h : v ∈ lc.piece s i u) :
    u < 128 ∧ lc.piece s i u = [asciiLower u] ∧ v = asciiLower u := by
  unfold piece at h ⊢
  split at h
  · next hu => exact ⟨hu, by rw [if_pos hu], List.mem_singleton.mp h⟩
  · next hu =>
    obtain ⟨hlt, hk, hi⟩ := hv
    cases lc.other_units s i v h with
    | inl hge => exact absurd hlt (by simpa using hge)
    | inr hki => cases hki with
      | inl he => exact absurd he hk
      | inr he => exact absurd he hi

theorem lowerFrom_append (i : Nat) (us vs : JsString) :
    lc.lowerFrom s i (us ++ vs) = lc.lowerFrom s i us ++ lc.lowerFrom s (i + us.length) vs := by
  induction us generalizing i with
  | nil => simp [lowerFrom]
  | cons u us ih =>
    rw [List.cons_append, lowerFrom, lowerFrom, ih, List.append_assoc, List.length_cons,
      Nat.add_right_comm, Nat.add_assoc]

variable {us : JsString}

theorem lowerFrom_eq_map
    (h : ∀ u ∈ lc.lowerFrom s i us, Plain u) : lc.lowerFrom s i us = us.map asciiLower := by
  induction us generalizing i with
  | nil => rfl
  | cons u us ih =>
    rw [lowerFrom] at h ⊢
    rw [ih fun v hv => h v (List.mem_append_right _ hv)]
    obtain ⟨v, hv⟩ := List.exists_mem_of_ne_nil _ (piece_ne_nil i u)
    rw [(piece_of_plain_mem (h v (List.mem_append_left _ hv)) hv).2.1]
    rfl

theorem lowerFrom_of_ascii (h : ∀ u ∈ us, u < 128) : lc.lowerFrom s i us = us.map asciiLower := by
  induction us generalizing i with
  | nil => rfl
  | cons u us ih =>
    rw [lowerFrom, piece, if_pos (h u (by simp)), ih fun v hv => h v (mem_cons_of_mem _ hv)]
    rfl

/-- A string folds to itself with a plain unit put in front exactly through
that unit. -/
theorem lowerFrom_eq_cons {xs : JsString} (hc : Plain c) (h : lc.lowerFrom s i us = c :: xs) :
    ∃ u us', us = u :: us' ∧ asciiLower u = c ∧ xs = lc.lowerFrom s (i + 1) us' := by
  cases us with
  | nil => contradiction
  | cons u us =>
    rw [lowerFrom] at h
    have hmem : c ∈ lc.piece s i u := by
      cases hp : lc.piece s i u with
      | nil => exact absurd hp (piece_ne_nil i u)
      | cons v vs =>
        rw [hp, List.cons_append, List.cons.injEq] at h
        simp [h.1]
    obtain ⟨-, hp, hcu⟩ := piece_of_plain_mem hc hmem
    rw [hp, List.singleton_append, List.cons.injEq] at h
    exact ⟨u, us, rfl, hcu.symm, h.2.symm⟩

theorem lowerFrom_eq_append_single {xs : JsString} (hc : Plain c)
    (h : lc.lowerFrom s i us = xs ++ [c]) :
    ∃ us' u, us = us' ++ [u] ∧ asciiLower u = c ∧ xs = lc.lowerFrom s i us' := by
  cases List.eq_nil_or_concat us with
  | inl he => simp [he, lowerFrom] at h
  | inr he =>
    obtain ⟨us', u, rfl⟩ := he
    rw [List.concat_eq_append, lowerFrom_append, lowerFrom, lowerFrom, List.append_nil] at h
    have hmem : c ∈ lc.piece s (i + us'.length) u := by
      cases List.eq_nil_or_concat (lc.piece s (i + us'.length) u) with
      | inl hp => exact absurd hp (piece_ne_nil _ u)
      | inr hp =>
        obtain ⟨vs, v, hp⟩ := hp
        rw [hp, List.concat_eq_append, ← List.append_assoc] at h
        have := (List.append_inj' h rfl).2
        simp_all
    obtain ⟨-, hp, hcu⟩ := piece_of_plain_mem hc hmem
    rw [hp] at h
    have := List.append_inj' h rfl
    exact ⟨us', u, by simp, hcu.symm, this.1.symm⟩

/-- Cutting at a plain unit that case folding fixes commutes with folding. -/
theorem takeWhile_lowerFrom (hc : Plain c) (hfix : ∀ u, asciiLower u = c ↔ u = c) :
    (lc.lowerFrom s i us).takeWhile (· ≠ c) = lc.lowerFrom s i (us.takeWhile (· ≠ c)) := by
  induction us generalizing i with
  | nil => rfl
  | cons u us ih =>
    by_cases hu : u = c
    · have hp : lc.piece s i u = [c] := by
        rw [piece, if_pos (hu ▸ hc.1), (hfix u).mpr hu]
      rw [lowerFrom, hp, List.singleton_append, List.takeWhile_cons_of_neg (by simp),
        List.takeWhile_cons_of_neg (by simp [hu]), lowerFrom]
    · have hp : ∀ v ∈ lc.piece s i u, decide (v ≠ c) = true := by
        intro v hv
        rw [decide_eq_true_eq]
        intro hvc
        subst hvc
        exact hu ((hfix u).mp (piece_of_plain_mem hc hv).2.2.symm)
      rw [lowerFrom, List.takeWhile_append_of_pos hp, ih,
        List.takeWhile_cons_of_pos (by simpa using hu), lowerFrom]

end LowerCase

end BunServe
