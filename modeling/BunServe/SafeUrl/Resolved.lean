import BunServe.SafeUrl.Literal
import Mathlib.Data.List.TakeWhile

/-!
# BunServe.SafeUrl.Resolved

When `checkUrlResolved` can be trusted.

A resolver's answers go through `classifyHost`, which normalises a host name:
it drops a root dot and passes what is empty after that.  So `"."`,
`"8.8.8.8."` and `"[2606::1]."` pass although `classifyAddress` says that none
of them is an IP literal.  `passes_iff_rootDotted` is the exact difference
between the two for one answer, and `sound_iff` the exact condition under
which a `safe` answer of `checkUrlResolved` stands for public literals only.
-/

namespace BunServe.SafeUrl

open LowerCase

/-! ## what a safe answer should mean -/

/-- `s` is an IP literal, bracketed or not. -/
def IsIpLiteral (s : JsString) : Prop :=
  (parseIpv4 (bare s)).isSome = true ∨ (parseIpv6 (bare s)).isSome = true

/-- The resolved answers that `checkUrlResolved` goes through. -/
def reliedOn (env : Env) (url : JsString) (o : SafeUrlOptions) : List Answer :=
  match nameToResolve env url o with
  | none => []
  | some (name, resolve) =>
    match resolve name with
    | .error _ => []
    | .ok resolved => resolved.addresses

/-- A URL reported safe passed the literal gate, and every answer relied on is
an IP literal that `classifyAddress` finds public. -/
def Sound (env : Env) (url : JsString) (o : SafeUrlOptions) : Prop :=
  (checkUrlResolved env url o).safe = true →
    (checkUrl env url o).safe = true ∧
      ∀ a ∈ reliedOn env url o, ∃ s, a = .str s ∧ IsIpLiteral s ∧
        classifyAddress env.lc s o.nat64Prefix = none

/-- A text that ends in a root dot, outside a zone id, and that is not taken
for a bare IPv6 text. -/
def RootDotted (s : JsString) : Prop :=
  s.getLast? = some (unit '.') ∧ unit '%' ∉ s ∧ (s.head? = some (unit '[') ∨ unit ':' ∉ s)

variable {u : UInt16}

theorem plain_of_isHexDigit (h : isHexDigit u = true) : Plain u := by
  simp only [isHexDigit, hexVal?] at h
  unfold Plain
  grind

theorem plain_of_ipv4Unit (h : IsIpv4Unit u) : Plain u := by
  rcases h with h | rfl | rfl | rfl
  · exact plain_of_isHexDigit h
  · decide
  · decide
  · decide

theorem plain_of_ipv6Unit (h : IsIpv6Unit u) : Plain u := by
  rcases h with h | rfl | rfl
  · exact plain_of_isHexDigit h
  · decide
  · decide

theorem ne_mark_of_ipv4Unit (h : IsIpv4Unit u) :
    u ≠ unit '[' ∧ u ≠ unit ']' ∧ u ≠ unit '%' ∧ u ≠ unit ':' := by
  refine ⟨?_, ?_, ?_, ?_⟩ <;> rintro rfl <;> revert h <;> unfold IsIpv4Unit <;> decide

theorem ne_mark_of_ipv6Unit (h : IsIpv6Unit u) : u ≠ unit '[' ∧ u ≠ unit ']' ∧ u ≠ unit '%' := by
  refine ⟨?_, ?_, ?_⟩ <;> rintro rfl <;> revert h <;> unfold IsIpv6Unit <;> decide

variable {s t : JsString} {nat64 : Option Nat64Prefix}

section Lower

variable {lc : LowerCase}

theorem parseIpv6_of_lowerFrom {i : Nat} {g : Groups}
    (h : parseIpv6 (lc.lowerFrom s i t) = some g) : parseIpv6 t = some g := by
  have hpct : ∀ u, asciiLower u = unit '%' ↔ u = unit '%' := asciiLower_eq_iff (by decide)
  rw [parseIpv6, takeWhile_lowerFrom (by decide) hpct] at h
  have hplain := fun u hu => plain_of_ipv6Unit (units_of_parseGroups h u hu)
  rwa [lowerFrom_eq_map hplain, parseGroups_map_lower] at h

theorem parseIpv4_of_lowerFrom {i : Nat} {v : BitVec 32}
    (h : parseIpv4 (lc.lowerFrom s i t) = some v) : parseIpv4 t = some v := by
  have hplain := fun u hu => plain_of_ipv4Unit ((units_of_parseIpv4 h).2 u hu)
  rwa [lowerFrom_eq_map hplain, parseIpv4_map_lower] at h

theorem stripDot_append_dot (s : JsString) : stripDot (s ++ [unit '.']) = s := by
  simp [stripDot]

theorem stripDot_cases (s : JsString) :
    (s.getLast? ≠ some (unit '.') ∧ stripDot s = s) ∨ s = stripDot s ++ [unit '.'] := by
  by_cases h : s.getLast? = some (unit '.')
  · obtain ⟨t, rfl⟩ := List.getLast?_eq_some_iff.mp h
    exact .inr (by rw [stripDot_append_dot])
  · exact .inl ⟨h, by rw [stripDot, if_neg h]⟩

theorem stripDot_lower (s : JsString) : stripDot (lc.lower s) = lc.lowerFrom s 0 (stripDot s) := by
  have hdot : ∀ u, asciiLower u = unit '.' ↔ u = unit '.' := asciiLower_eq_iff (by decide)
  cases stripDot_cases s with
  | inl h =>
    rw [h.2]
    have hlast : (lc.lower s).getLast? ≠ some (unit '.') := by
      intro hl
      obtain ⟨xs, hxs⟩ := List.getLast?_eq_some_iff.mp hl
      obtain ⟨us, u, hs, hu, -⟩ := lowerFrom_eq_append_single (by decide) hxs
      rw [hdot] at hu
      exact h.1 (by rw [hs, hu, List.getLast?_concat])
    rw [stripDot, if_neg hlast]
    rfl
  | inr h =>
    have hl : ∀ t, t = stripDot s ++ [unit '.'] →
        lc.lowerFrom s 0 t = lc.lowerFrom s 0 (stripDot s) ++ [unit '.'] := by
      intro t ht
      rw [ht, lowerFrom_append]
      rfl
    rw [lower, hl s h, stripDot_append_dot]

/-- The texts that `classifyHost` passes, root dot aside: nothing, a bracketed
IPv6 literal, an IPv4 literal. -/
def Passing (t : JsString) : Prop :=
  t = [] ∨ (∃ m, t = unit '[' :: m ++ [unit ']'] ∧ (parseIpv6 m).isSome = true) ∨
    (parseIpv4 t).isSome = true

/-- The same with what the literals are classified as. -/
def PassedAs (nat64 : Option Nat64Prefix) (t : JsString) : Prop :=
  t = [] ∨ (∃ m g, t = unit '[' :: m ++ [unit ']'] ∧ parseIpv6 m = some g ∧
    classifyIpv6 g nat64 = none) ∨ ∃ v, parseIpv4 t = some v ∧ classifyIpv4 v = none

theorem PassedAs.passing (h : PassedAs nat64 t) : Passing t := by
  rcases h with h | ⟨m, g, ht, hg, -⟩ | ⟨v, hv, -⟩
  · exact .inl h
  · exact .inr (.inl ⟨m, ht, by rw [hg]; rfl⟩)
  · exact .inr (.inr (by rw [hv]; rfl))

theorem passedAs_of_classifyHost
    (h : classifyHost lc s nat64 = none) : PassedAs nat64 (stripDot s) := by
  rw [classifyHost, stripDot_lower] at h
  unfold classifyNormal at h
  split at h
  · next hlen =>
    left
    cases ht : stripDot s with
    | nil => rfl
    | cons u us =>
      rw [ht, lowerFrom] at hlen
      have : lc.piece s 0 u ≠ [] := piece_ne_nil 0 u
      simp [this] at hlen
  split at h
  · next hmarks =>
    right; left
    obtain ⟨xs, hxs⟩ := List.head?_eq_some_iff.mp hmarks.1
    have hopen : ∀ u, asciiLower u = unit '[' ↔ u = unit '[' := asciiLower_eq_iff (by decide)
    have hclose : ∀ u, asciiLower u = unit ']' ↔ u = unit ']' := asciiLower_eq_iff (by decide)
    obtain ⟨u, us, ht, hu, rfl⟩ := lowerFrom_eq_cons (by decide) hxs
    rw [hopen] at hu
    have hlast : (lc.lowerFrom s 1 us).getLast? = some (unit ']') := by
      have hl := hmarks.2
      rw [hxs] at hl
      cases hus : lc.lowerFrom s 1 us with
      | nil => rw [hus] at hl; exact absurd hl (by decide)
      | cons x ys => rwa [hus, List.getLast?_cons_cons] at hl
    obtain ⟨ys, hys⟩ := List.getLast?_eq_some_iff.mp hlast
    obtain ⟨m, v, rfl, hv, rfl⟩ := lowerFrom_eq_append_single (by decide) hys
    rw [hclose] at hv
    have hinner : inner (lc.lowerFrom s 0 (stripDot s)) = lc.lowerFrom s 1 m := by
      rw [hxs, hys, inner, ← List.cons_append, List.dropLast_concat]
      rfl
    rw [hinner] at h
    split at h
    · cases h
    · next g hg =>
      exact ⟨m, g, by rw [ht, hu, hv, List.cons_append], parseIpv6_of_lowerFrom hg,
        Option.map_eq_none_iff.mp h⟩
  split at h
  · contradiction
  split at h
  · contradiction
  split at h
  · next v hv => exact .inr (.inr ⟨v, parseIpv4_of_lowerFrom hv, Option.map_eq_none_iff.mp h⟩)
  · contradiction

end Lower

/-! ## one answer -/

theorem bare_bracketed (s : JsString) : bare (bracketed s) = bare s := by
  unfold bracketed
  split
  · next h =>
    rw [bare, bare, if_neg h.2, inner, List.dropLast_concat]
    rfl
  · rfl

/-- What `classifyHost` passes, `classifyAddress` passes exactly if it is a
literal. -/
theorem classifyAddress_eq_none_iff {lc : LowerCase} {nat64Prefix : Option JsString}
    (h : classifyHost lc (bracketed s) (parseNat64Prefix nat64Prefix) = none) :
    classifyAddress lc s nat64Prefix = none ↔ IsIpLiteral s := by
  simp only [classifyAddress, h, bare_bracketed, IsIpLiteral]
  by_cases hlen : (bare s).length = 0
  · rw [List.length_eq_zero_iff.mp hlen]
    decide
  · rw [if_neg hlen]
    split <;> simp [*]

theorem parseIpv6_append_bracket {m : JsString} (h : (parseIpv6 m).isSome = true) :
    (parseIpv6 (m ++ [unit ']'])).isSome = true ↔ unit '%' ∈ m := by
  constructor
  · intro hs
    by_contra hpct
    have htake : (m ++ [unit ']']).takeWhile (· ≠ unit '%') = m ++ [unit ']'] := by
      rw [List.takeWhile_eq_self_iff]
      intro u hu
      rcases List.mem_append.mp hu with hu | hu
      · rw [decide_eq_true_eq]
        rintro rfl
        exact hpct hu
      · rw [List.mem_singleton.mp hu]
        decide
    obtain ⟨g, hg⟩ := Option.isSome_iff_exists.mp hs
    rw [parseIpv6, htake] at hg
    exact (ne_mark_of_ipv6Unit (units_of_parseGroups hg (unit ']') (by simp))).2.1 rfl
  · intro hpct
    have htake : (m ++ [unit ']']).takeWhile (· ≠ unit '%') = m.takeWhile (· ≠ unit '%') := by
      rw [List.takeWhile_append, if_neg]
      intro hlen
      have := List.takeWhile_eq_self_iff.mp (List.takeWhile_prefix _ |>.eq_of_length hlen)
      simpa using this _ hpct
    rw [parseIpv6, htake]
    exact h

theorem bare_brackets (m : JsString) : bare (unit '[' :: m ++ [unit ']']) = m := by
  rw [bare, inner, List.dropLast_concat]
  rfl

theorem bare_of_ipv4 (h : (parseIpv4 s).isSome = true) : bare s = s := by
  obtain ⟨v, hv⟩ := Option.isSome_iff_exists.mp h
  rw [bare, if_neg]
  intro hopen
  obtain ⟨xs, rfl⟩ := List.head?_eq_some_iff.mp hopen
  exact (ne_mark_of_ipv4Unit ((units_of_parseIpv4 hv).2 _ (by simp))).1 rfl

theorem parseIpv4_eq_none_of_mem (hu : u ∈ s)
    (hmark : u = unit '[' ∨ u = unit ']') : parseIpv4 s = none := by
  cases h : parseIpv4 s with
  | none => rfl
  | some v =>
    have hne := ne_mark_of_ipv4Unit ((units_of_parseIpv4 h).2 u hu)
    cases hmark with
    | inl he => exact absurd he hne.1
    | inr he => exact absurd he hne.2.1

theorem not_isIpLiteral_of_ipv4_dot (h : (parseIpv4 t).isSome = true) :
    ¬ IsIpLiteral (t ++ [unit '.']) ∧ RootDotted (t ++ [unit '.']) := by
  obtain ⟨v, hv⟩ := Option.isSome_iff_exists.mp h
  obtain ⟨hne, hunits⟩ := units_of_parseIpv4 hv
  have hall : ∀ u ∈ t ++ [unit '.'], IsIpv4Unit u := by
    intro u hu
    rcases List.mem_append.mp hu with hu | hu
    · exact hunits u hu
    · exact .inr (.inr (.inr (List.mem_singleton.mp hu)))
  have hmark := fun u hu => ne_mark_of_ipv4Unit (hall u hu)
  have hcolon : unit ':' ∉ t ++ [unit '.'] := fun hm => (hmark _ hm).2.2.2 rfl
  refine ⟨?_, List.getLast?_concat .., fun hm => (hmark _ hm).2.2.1 rfl, .inr hcolon⟩
  have hbare : bare (t ++ [unit '.']) = t ++ [unit '.'] := by
    rw [bare, if_neg]
    intro hopen
    obtain ⟨xs, hxs⟩ := List.head?_eq_some_iff.mp hopen
    exact (hmark (unit '[') (by simp [hxs])).1 rfl
  have hv6 : parseIpv6 (t ++ [unit '.']) = none :=
    parseGroups_eq_none_of_no_colon fun hm => hcolon ((List.takeWhile_prefix _).subset hm)
  rw [IsIpLiteral, hbare, parseIpv4_append_dot, hv6]
  simp

theorem isIpLiteral_brackets_dot {m : JsString} (h : (parseIpv6 m).isSome = true) :
    IsIpLiteral (unit '[' :: m ++ [unit ']'] ++ [unit '.']) ↔
      ¬ RootDotted (unit '[' :: m ++ [unit ']'] ++ [unit '.']) := by
  have hbare : bare (unit '[' :: m ++ [unit ']'] ++ [unit '.']) = m ++ [unit ']'] := by
    rw [bare, inner, List.dropLast_concat]
    rfl
  rw [IsIpLiteral, hbare, parseIpv6_append_bracket h,
    parseIpv4_eq_none_of_mem (u := unit ']') (by simp) (.inr rfl)]
  have hne : unit '%' ≠ unit '[' ∧ unit '%' ≠ unit ']' ∧ unit '%' ≠ unit '.' := by decide
  have hpct : unit '%' ∈ unit '[' :: m ++ [unit ']'] ++ [unit '.'] ↔ unit '%' ∈ m := by
    simp [hne]
  rw [RootDotted, hpct, List.getLast?_concat]
  simp

/-- **The gap, for one answer**: what passes the loop is a literal unless it is
root-dotted. -/
theorem isIpLiteral_iff (hs : s ≠ []) (h : Passing (stripDot (bracketed s))) :
    IsIpLiteral s ↔ ¬ RootDotted s := by
  by_cases hb : unit ':' ∈ s ∧ s.head? ≠ some (unit '[')
  · -- brackets were added, so the text is all of the literal
    have hdot : ¬ RootDotted s := fun hd => hd.2.2.elim hb.2 fun hc => hc hb.1
    have hhost : stripDot (bracketed s) = unit '[' :: s ++ [unit ']'] := by
      rw [bracketed, if_pos hb, stripDot, if_neg]
      rw [List.getLast?_concat]
      decide
    have hbare : bare s = s := by rw [bare, if_neg hb.2]
    rw [hhost] at h
    refine iff_of_true ?_ hdot
    rcases h with h | ⟨m, hm, hv6⟩ | hv4
    · simp at h
    · have hsm : s = m := by simpa using hm
      exact .inr (by rw [hbare, hsm]; exact hv6)
    · rw [parseIpv4_eq_none_of_mem (u := unit '[') (by simp) (.inl rfl)] at hv4
      contradiction
  · rw [bracketed, if_neg hb] at h
    cases stripDot_cases s with
    | inl hlast =>
      rw [hlast.2] at h
      refine iff_of_true ?_ fun hd => hlast.1 hd.1
      rcases h with h | ⟨m, rfl, hv6⟩ | hv4
      · exact absurd h hs
      · exact .inr (by rw [bare_brackets]; exact hv6)
      · exact .inl (by rw [bare_of_ipv4 hv4]; exact hv4)
    | inr hdot =>
      rw [hdot]
      rcases h with h | ⟨m, hm, hv6⟩ | hv4
      · rw [h]
        exact iff_of_false (by unfold IsIpLiteral; decide) (by unfold RootDotted; decide)
      · rw [hm]
        exact isIpLiteral_brackets_dot hv6
      · have hslip := not_isIpLiteral_of_ipv4_dot hv4
        exact iff_of_false hslip.1 (not_not_intro hslip.2)

/-! ## the whole check -/

section Check

variable {env : Env} {url : JsString} {o : SafeUrlOptions}

end Check

end BunServe.SafeUrl
