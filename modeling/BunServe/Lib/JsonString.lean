import BunServe.Lib.Utf8
import Mathlib.Tactic.IntervalCases

/-!
# BunServe.Lib.JsonString

How JSON carries a string: `JSON.stringify` and `JSON.parse` on string values,
and the UTF-8 text between them.

`stringify` escapes the two characters JSON reserves, the control characters
and every lone surrogate, so its text is well formed and starts with a quote:
UTF-8 loses nothing of it.

* `parse_stringify` — a string is parsed back;
* `carries` — also when the text travels as UTF-8: JSON carries every string.
-/

namespace BunServe.JsonString

open Utf8 (isHigh isLow isWellFormed)
open List (append_assoc cons_append)

/-! ## escapes -/

/-- A hexadecimal digit. -/
def hexDigit (n : Nat) : UInt16 := UInt16.ofNat (if n < 10 then 0x30 + n else 0x57 + n)

/-- The value of a hexadecimal digit. -/
def hexValue? (u : UInt16) : Option Nat :=
  if 0x30 ≤ u.toNat ∧ u.toNat < 0x3a then some (u.toNat - 0x30)
  else if 0x61 ≤ u.toNat ∧ u.toNat < 0x67 then some (u.toNat - 0x57)
  else if 0x41 ≤ u.toNat ∧ u.toNat < 0x47 then some (u.toNat - 0x37)
  else none

/-- `\u` and four digits. -/
def escapeUnit (u : UInt16) : JsString :=
  [0x5c, 0x75, hexDigit (u.toNat / 0x1000), hexDigit (u.toNat / 0x100 % 0x10),
    hexDigit (u.toNat / 0x10 % 0x10), hexDigit (u.toNat % 0x10)]

/-- The unit of four digits. -/
def unescapeUnit (a b c d : UInt16) : Option UInt16 := do
  let a ← hexValue? a
  let b ← hexValue? b
  let c ← hexValue? c
  let d ← hexValue? d
  pure (UInt16.ofNat (a * 0x1000 + b * 0x100 + c * 0x10 + d))

/-- The units with an escape of their own, and the letter behind the backslash. -/
def shortEscapes : List (UInt16 × UInt16) :=
  [(0x08, 0x62), (0x09, 0x74), (0x0a, 0x6e), (0x0c, 0x66), (0x0d, 0x72), (0x22, 0x22),
    (0x5c, 0x5c)]

/-- The letter behind the backslash, for the units that have one. -/
def shortEscape? (u : UInt16) : Option UInt16 := shortEscapes.lookup u

/-- The unit a letter behind a backslash stands for; a slash may be escaped too. -/
def shortUnescape? (e : UInt16) : Option UInt16 :=
  ((shortEscapes ++ [(0x2f, 0x2f)]).find? fun (p : UInt16 × UInt16) => p.2 == e).map Prod.fst

/-! ## JSON.stringify -/

/-- A unit that is no surrogate. -/
def quoteUnit (u : UInt16) : JsString :=
  match shortEscape? u with
  | some e => [0x5c, e]
  | none => if u.toNat < 0x20 then escapeUnit u else [u]

/-- What stands between the quotes. -/
def quoteBody : JsString → JsString
  | [] => []
  | [u] => if isHigh u || isLow u then escapeUnit u else quoteUnit u
  | u :: v :: s =>
    if isHigh u then
      if isLow v then u :: v :: quoteBody s else escapeUnit u ++ quoteBody (v :: s)
    else if isLow u then escapeUnit u ++ quoteBody (v :: s)
    else quoteUnit u ++ quoteBody (v :: s)

/-- `JSON.stringify(s)`. -/
def stringify (s : JsString) : JsString := 0x22 :: (quoteBody s ++ [0x22])

/-! ## JSON.parse -/

/-- From behind the opening quote to the end of the text. -/
def parseBody : JsString → Option JsString
  | [] => none
  | [u] => if u = 0x22 then some [] else none
  | u :: e :: s =>
    if u = 0x22 then none
    else if u = 0x5c then
      if e = 0x75 then
        match s with
        | a :: b :: c :: d :: s => do
            let x ← unescapeUnit a b c d
            let xs ← parseBody s
            pure (x :: xs)
        | _ => none
      else do
        let x ← shortUnescape? e
        let xs ← parseBody s
        pure (x :: xs)
    else if u.toNat < 0x20 then none
    else do
      let xs ← parseBody (e :: s)
      pure (u :: xs)

/-- `JSON.parse(text)` where the text is a string. -/
def parse : JsString → Option JsString
  | [] => none
  | u :: text => if u = 0x22 then parseBody text else none

/-- What the far side has of a string sent as JSON text. -/
def roundTrip (s : JsString) : Option JsString := parse (Utf8.decode (Utf8.encode (stringify s)))

example : roundTrip [0xfeff, 0xd800, 0x22, 0x07] = some [0xfeff, 0xd800, 0x22, 0x07] := by
  decide +kernel

/-! ## the text is parsed back -/

theorem hexValue_hexDigit {n : Nat} (h : n < 16) : hexValue? (hexDigit n) = some n := by
  interval_cases n <;> rfl

theorem unescapeUnit_escape (u : UInt16) :
    unescapeUnit (hexDigit (u.toNat / 0x1000)) (hexDigit (u.toNat / 0x100 % 0x10))
      (hexDigit (u.toNat / 0x10 % 0x10)) (hexDigit (u.toNat % 0x10)) = some u := by
  have hu : u.toNat < 65536 := u.toNat_lt
  have hsum : u.toNat / 0x1000 * 0x1000 + u.toNat / 0x100 % 0x10 * 0x100 +
      u.toNat / 0x10 % 0x10 * 0x10 + u.toNat % 0x10 = u.toNat := by omega
  unfold unescapeUnit
  rw [hexValue_hexDigit (by omega), hexValue_hexDigit (by omega), hexValue_hexDigit (by omega),
    hexValue_hexDigit (by omega)]
  simp only [Option.bind_eq_bind, Option.bind_some, Option.pure_def, hsum, UInt16.ofNat_toNat]

variable {u : UInt16}

theorem mem_shortEscapes {e : UInt16} (h : shortEscape? u = some e) : (u, e) ∈ shortEscapes := by
  obtain ⟨l₁, l₂, heq, -⟩ := List.lookup_eq_some_iff.mp h
  simp [heq]

theorem shortUnescape_escape {e : UInt16} (h : shortEscape? u = some e) :
    shortUnescape? e = some u ∧ e ≠ 0x75 := by
  have hall : ∀ p ∈ shortEscapes, shortUnescape? p.2 = some p.1 ∧ p.2 ≠ 0x75 := by
    simp [shortEscapes, shortUnescape?]
  exact hall (u, e) (mem_shortEscapes h)

theorem shortEscape_none (h : shortEscape? u = none) : u ≠ 0x22 ∧ u ≠ 0x5c := by
  constructor
  · rintro rfl
    exact absurd h (by decide)
  · rintro rfl
    exact absurd h (by decide)

theorem parseBody_escapeUnit (u : UInt16) (s : JsString) :
    parseBody (escapeUnit u ++ s) = (parseBody s).map (u :: ·) := by
  simp only [escapeUnit, cons_append, List.nil_append, parseBody, unescapeUnit_escape]
  cases parseBody s <;> rfl

/-- A unit that needs no escape. -/
theorem parseBody_plain (h : u ≠ 0x22 ∧ u ≠ 0x5c) (hu : ¬ u.toNat < 0x20)
    (s : JsString) : parseBody (u :: s) = (parseBody s).map (u :: ·) := by
  cases s with
  | nil => simp [parseBody, h.1]
  | cons e s =>
    rw [parseBody.eq_def]
    simp only [if_neg h.1, if_neg h.2, if_neg hu]
    cases parseBody (e :: s) <;> rfl

theorem parseBody_quoteUnit (u : UInt16) (s : JsString) :
    parseBody (quoteUnit u ++ s) = (parseBody s).map (u :: ·) := by
  unfold quoteUnit
  cases h : shortEscape? u with
  | some e =>
    obtain ⟨he, hne⟩ := shortUnescape_escape h
    rw [cons_append, cons_append, List.nil_append, parseBody.eq_def]
    simp only [if_neg hne, he]
    cases parseBody s <;> rfl
  | none =>
    by_cases hu : u.toNat < 0x20
    · simpa only [if_pos hu] using parseBody_escapeUnit u s
    · simpa only [if_neg hu, List.singleton_append] using
        parseBody_plain (shortEscape_none h) hu s

theorem plain_of_surrogate (h : isHigh u || isLow u) :
    (u ≠ 0x22 ∧ u ≠ 0x5c) ∧ ¬ u.toNat < 0x20 := by
  simp only [isHigh, isLow, Bool.or_eq_true, Bool.and_eq_true, decide_eq_true_eq] at h
  refine ⟨⟨?_, ?_⟩, by omega⟩
  · rintro rfl
    revert h
    decide
  · rintro rfl
    revert h
    decide

theorem parseBody_quoteBody (s : JsString) : parseBody (quoteBody s ++ [0x22]) = some s := by
  induction s using quoteBody.induct with
  | case1 => rfl
  | case2 u h => rw [quoteBody, if_pos h, parseBody_escapeUnit]; rfl
  | case3 u h => rw [quoteBody, if_neg h, parseBody_quoteUnit]; rfl
  | case4 u v s hu hv ih =>
    have pu := plain_of_surrogate (u := u) (by simp [hu])
    have pv := plain_of_surrogate (u := v) (by simp [hv])
    rw [quoteBody, if_pos hu, if_pos hv, cons_append, cons_append,
      parseBody_plain pu.1 pu.2, parseBody_plain pv.1 pv.2, ih]
    rfl
  | case5 u v s hu hv ih =>
    rw [quoteBody, if_pos hu, if_neg hv, append_assoc, parseBody_escapeUnit, ih]
    rfl
  | case6 u v s hu hl ih =>
    rw [quoteBody, if_neg hu, if_pos hl, append_assoc, parseBody_escapeUnit, ih]
    rfl
  | case7 u v s hu hl ih =>
    rw [quoteBody, if_neg hu, if_neg hl, append_assoc, parseBody_quoteUnit, ih]
    rfl

theorem parse_stringify (s : JsString) : parse (stringify s) = some s := by
  rw [stringify, parse, if_pos rfl, parseBody_quoteBody]

/-! ## the text survives UTF-8 -/

theorem isWellFormed_cons (hh : isHigh u = false) (hl : isLow u = false)
    (s : JsString) : isWellFormed (u :: s) = isWellFormed s := by
  cases s with
  | nil | cons v s => simp [isWellFormed, hh, hl]

theorem isWellFormed_append {xs : JsString} (h : ∀ u ∈ xs, u.toNat < 0xd800) (s : JsString) :
    isWellFormed (xs ++ s) = isWellFormed s := by
  induction xs with
  | nil => rfl
  | cons u xs ih =>
    have hu := h u (by simp)
    have hh : isHigh u = false := by simp only [isHigh]; simp; omega
    have hl : isLow u = false := by simp only [isLow]; simp; omega
    rw [cons_append, isWellFormed_cons hh hl, ih fun v hv => h v (by simp [hv])]

theorem hexDigit_lt {n : Nat} (h : n < 16) : (hexDigit n).toNat < 0xd800 := by
  interval_cases n <;> decide

theorem escapeUnit_lt (u : UInt16) : ∀ v ∈ escapeUnit u, v.toNat < 0xd800 := by
  have hu : u.toNat < 65536 := u.toNat_lt
  intro v hv
  simp only [escapeUnit, List.mem_cons, List.not_mem_nil, or_false] at hv
  rcases hv with rfl | rfl | rfl | rfl | rfl | rfl
  · decide
  · decide
  · exact hexDigit_lt (by omega)
  · exact hexDigit_lt (by omega)
  · exact hexDigit_lt (by omega)
  · exact hexDigit_lt (by omega)

theorem isWellFormed_quoteUnit (hh : isHigh u = false) (hl : isLow u = false)
    (s : JsString) : isWellFormed (quoteUnit u ++ s) = isWellFormed s := by
  unfold quoteUnit
  cases h : shortEscape? u with
  | some e =>
    have hall : ∀ p ∈ shortEscapes, ∀ v ∈ [0x5c, p.2], v.toNat < 0xd800 := by
      simp [shortEscapes]
    exact isWellFormed_append (hall (u, e) (mem_shortEscapes h)) s
  | none =>
    by_cases hu : u.toNat < 0x20
    · simpa only [if_pos hu] using isWellFormed_append (escapeUnit_lt u) s
    · simpa only [if_neg hu, List.singleton_append] using isWellFormed_cons hh hl s

theorem isWellFormed_quoteBody (s : JsString) : isWellFormed (quoteBody s ++ [0x22]) = true := by
  induction s using quoteBody.induct with
  | case1 => decide
  | case2 u h =>
    rw [quoteBody, if_pos h, isWellFormed_append (escapeUnit_lt u)]
    decide
  | case3 u h =>
    simp only [Bool.or_eq_true, not_or, Bool.not_eq_true] at h
    rw [quoteBody, if_neg (by simp [h]), isWellFormed_quoteUnit h.1 h.2]
    decide
  | case4 u v s hu hv ih =>
    rw [quoteBody]
    simp [isWellFormed, hu, hv, ih]
  | case5 u v s hu hv ih =>
    rw [quoteBody, if_pos hu, if_neg hv, append_assoc, isWellFormed_append (escapeUnit_lt u),
      ih]
  | case6 u v s hu hl ih =>
    rw [quoteBody, if_neg hu, if_pos hl, append_assoc, isWellFormed_append (escapeUnit_lt u),
      ih]
  | case7 u v s hu hl ih =>
    rw [quoteBody, if_neg hu, if_neg hl, append_assoc,
      isWellFormed_quoteUnit (by simpa using hu) (by simpa using hl), ih]

theorem carried_stringify (s : JsString) : Utf8.Carried (stringify s) := by
  constructor
  · rw [stringify, isWellFormed_cons (by decide) (by decide)]
    exact isWellFormed_quoteBody s
  · simp [stringify]

/-- **JSON carries every string**, lone surrogates and a leading U+FEFF included. -/
theorem carries (s : JsString) : roundTrip s = some s := by
  rw [roundTrip, Utf8.decode_encode_of_carried (carried_stringify s), parse_stringify]

end BunServe.JsonString
