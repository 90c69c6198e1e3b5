import BunServe.SafeUrl

/-!
# BunServe.SafeUrl.Literal

What the literal parsers accept, as far as the host normalisation needs it:
an accepted text is made of a few ASCII units (`units_of_parseIpv4`,
`units_of_parseGroups`), and the parsers do not see ASCII case
(`parseIpv4_map_lower`, `parseGroups_map_lower`).  Through
`LowerCase.lowerFrom_eq_map` a literal accepted after `toLowerCase` is one
that the parsers accept as it stands.
-/

namespace BunServe.SafeUrl

open List (length_map map_cons)

/-! ## digits -/

theorem toNat_asciiLower (u : UInt16) : (asciiLower u).toNat =
    if 65 ≤ u.toNat ∧ u.toNat ≤ 90 then u.toNat + 32 else u.toNat := by
  simp only [asciiLower, UInt16.le_iff_toNat_le, UInt16.reduceToNat]
  split
  · have h32 : (32 : UInt16).toNat = 32 := rfl
    rw [UInt16.toNat_add]
    omega
  · rfl

theorem hexVal?_asciiLower (u : UInt16) : hexVal? (asciiLower u) = hexVal? u := by
  simp only [hexVal?, UInt16.le_iff_toNat_le, toNat_asciiLower]
  grind

theorem isHexDigit_asciiLower (u : UInt16) : isHexDigit (asciiLower u) = isHexDigit u := by
  rw [isHexDigit, hexVal?_asciiLower, isHexDigit]

theorem isOctalDigit_asciiLower (u : UInt16) : isOctalDigit (asciiLower u) = isOctalDigit u := by
  unfold isOctalDigit asciiLower
  grind

theorem isDigit_asciiLower (u : UInt16) : isDigit (asciiLower u) = isDigit u := by
  unfold isDigit asciiLower
  grind

theorem all_map_asciiLower {p : UInt16 → Bool} (hp : ∀ u, p (asciiLower u) = p u) (s : JsString) :
    (s.map asciiLower).all p = s.all p := by
  rw [List.all_map]
  exact congrArg s.all (funext hp)

theorem parseInt_map_lower (base : Nat) (s : JsString) :
    parseInt base (s.map asciiLower) = parseInt base s := by
  simp only [parseInt, List.foldl_map, hexVal?_asciiLower]

/-- A unit outside `A-Z` and `a-z` is fixed by case folding, and nothing else
folds to it. -/
theorem asciiLower_eq_iff {c : UInt16} (hc : c < 65 ∨ (90 < c ∧ c < 97) ∨ 122 < c) (u : UInt16) :
    asciiLower u = c ↔ u = c := by
  unfold asciiLower
  grind

/-! ## IPv4 literals -/

theorem isHexForm_map_lower (p : JsString) : isHexForm (p.map asciiLower) = isHexForm p := by
  match p with
  | [] | [_] | [_, _] => rfl
  | z :: x :: d :: ds =>
    have hz : asciiLower z = 48 ↔ z = 48 := asciiLower_eq_iff (by decide) z
    have hx : (decide (asciiLower x = 120) || decide (asciiLower x = 88)) =
        (decide (x = 120) || decide (x = 88)) := by
      unfold asciiLower
      grind
    have hds := all_map_asciiLower isHexDigit_asciiLower (d :: ds)
    simp only [map_cons] at hds
    simp only [map_cons, isHexForm, hz, hx, hds]

theorem isOctalForm_map_lower (p : JsString) : isOctalForm (p.map asciiLower) = isOctalForm p := by
  match p with
  | [] | [_] => rfl
  | z :: d :: ds =>
    have hz : asciiLower z = 48 ↔ z = 48 := asciiLower_eq_iff (by decide) z
    have hds := all_map_asciiLower isOctalDigit_asciiLower (d :: ds)
    simp only [map_cons] at hds
    simp only [map_cons, isOctalForm, hz, hds]

theorem isDecimalForm_map_lower (p : JsString) :
    isDecimalForm (p.map asciiLower) = isDecimalForm p := by
  match p with
  | [] => rfl
  | d :: ds =>
    have hd : (49 ≤ asciiLower d ∧ asciiLower d ≤ 57) ↔ (49 ≤ d ∧ d ≤ 57) := by
      unfold asciiLower
      grind
    have hds := all_map_asciiLower isDigit_asciiLower ds
    simp only [isDecimalForm]
    grind

theorem parsePart_map_lower (p : JsString) : parsePart (p.map asciiLower) = parsePart p := by
  have hzero : p.map asciiLower = js "0" ↔ p = js "0" := by
    have h : js "0" = [48] := by decide
    rw [h]
    match p with
    | [] => simp
    | [u] => simp [asciiLower_eq_iff (c := 48) (by decide)]
    | _ :: _ :: _ => simp
  simp only [parsePart, isHexForm_map_lower, isOctalForm_map_lower, isDecimalForm_map_lower,
    ← List.map_drop, parseInt_map_lower, hzero]

theorem parseIpv4_map_lower (s : JsString) : parseIpv4 (s.map asciiLower) = parseIpv4 s := by
  have hdot : ∀ u, asciiLower u = unit '.' ↔ u = unit '.' := asciiLower_eq_iff (by decide)
  have hparts : ((s.map asciiLower).splitOn (unit '.')).mapM parsePart =
      (s.splitOn (unit '.')).mapM parsePart := by
    rw [splitOn_map hdot, List.mapM_map]
    exact congrArg (List.mapM · _) (funext parsePart_map_lower)
  unfold parseIpv4
  rw [hparts, splitOn_map hdot, length_map, length_map]

/-- The units of an accepted IPv4 literal: hexadecimal digits, the `x` of a
hexadecimal part, and dots. -/
def IsIpv4Unit (u : UInt16) : Prop := isHexDigit u = true ∨ u = 120 ∨ u = 88 ∨ u = 46

theorem isHexDigit_of_isDigit {u : UInt16} (h : isDigit u = true) : isHexDigit u = true := by
  unfold isDigit at h
  unfold isHexDigit hexVal?
  grind

theorem isDigit_of_isOctalDigit {u : UInt16} (h : isOctalDigit u = true) : isDigit u = true := by
  unfold isOctalDigit at h
  unfold isDigit
  grind

theorem units_of_parsePart {p : JsString} {n : Nat} (h : parsePart p = some n) :
    p ≠ [] ∧ ∀ u ∈ p, IsIpv4Unit u := by
  have hzero : js "0" = [48] := by decide
  unfold parsePart at h
  split at h
  · next hhex =>
    match p with
    | [] | [_] | [_, _] => contradiction
    | z :: x :: d :: ds =>
      simp only [isHexForm, Bool.and_eq_true, Bool.or_eq_true, decide_eq_true_eq,
        List.all_eq_true] at hhex
      obtain ⟨⟨rfl, hx⟩, hds⟩ := hhex
      refine ⟨by simp, fun u hu => ?_⟩
      rcases List.mem_cons.mp hu with rfl | hu
      · exact .inl (by decide)
      · rcases List.mem_cons.mp hu with rfl | hu
        · exact .inr (by tauto)
        · exact .inl (hds u hu)
  split at h
  · next hoct =>
    match p with
    | [] | [_] => contradiction
    | z :: d :: ds =>
      simp only [isOctalForm, Bool.and_eq_true, decide_eq_true_eq, List.all_eq_true] at hoct
      obtain ⟨rfl, hds⟩ := hoct
      refine ⟨by simp, fun u hu => .inl ?_⟩
      rcases List.mem_cons.mp hu with rfl | hu
      · decide
      · exact isHexDigit_of_isDigit (isDigit_of_isOctalDigit (hds u hu))
  split at h
  · next hp =>
    rw [hp, hzero]
    exact ⟨by simp, fun u hu => .inl (by rw [List.mem_singleton.mp hu]; decide)⟩
  obtain ⟨hdec, h⟩ := Option.ite_none_right_eq_some.mp h
  match p with
  | [] => contradiction
  | d :: ds =>
    simp only [isDecimalForm, Bool.and_eq_true, List.all_eq_true] at hdec
    obtain ⟨⟨h49, h57⟩, hds⟩ := hdec
    have hd : isDigit d = true := by
      unfold isDigit
      grind
    refine ⟨by simp, fun u hu => .inl (isHexDigit_of_isDigit ?_)⟩
    rcases List.mem_cons.mp hu with rfl | hu
    · exact hd
    · exact hds u hu

theorem exists_of_mapM_eq_some {α β : Type} {f : α → Option β} {xs : List α} {ys : List β}
    (h : xs.mapM f = some ys) : ∀ x ∈ xs, ∃ y, f x = some y := by
  induction xs generalizing ys with
  | nil => simp
  | cons x xs ih =>
    rw [List.mapM_cons] at h
    obtain ⟨y, hy, h⟩ := Option.bind_eq_some_iff.mp h
    obtain ⟨zs, hzs, -⟩ := Option.bind_eq_some_iff.mp h
    intro z hz
    rcases List.mem_cons.mp hz with rfl | hz
    · exact ⟨y, hy⟩
    · exact ih hzs z hz

variable {s : JsString}

theorem parts_of_parseIpv4 {v : BitVec 32} (h : parseIpv4 s = some v) :
    ∀ p ∈ s.splitOn (unit '.'), ∃ n, parsePart p = some n := by
  unfold parseIpv4 at h
  split at h
  · contradiction
  split at h
  · contradiction
  split at h
  · contradiction
  · next nums hnums =>
    exact exists_of_mapM_eq_some hnums

theorem units_of_parseIpv4 {v : BitVec 32} (h : parseIpv4 s = some v) :
    s ≠ [] ∧ ∀ u ∈ s, IsIpv4Unit u := by
  refine ⟨fun hs => by simp [hs, parseIpv4] at h, fun u hu => ?_⟩
  by_cases hdot : u = unit '.'
  · exact .inr (.inr (.inr hdot))
  · obtain ⟨p, hp, hup⟩ := mem_splitOn hu hdot
    obtain ⟨n, hn⟩ := parts_of_parseIpv4 h p hp
    exact (units_of_parsePart hn).2 u hup

theorem parseIpv4_append_dot (s : JsString) : parseIpv4 (s ++ [unit '.']) = none := by
  cases h : parseIpv4 (s ++ [unit '.']) with
  | none => rfl
  | some v =>
    have hmem : [] ∈ (s ++ [unit '.']).splitOn (unit '.') := by
      rw [List.splitOn_append_cons_self]
      simp
    obtain ⟨n, hn⟩ := parts_of_parseIpv4 h [] hmem
    exact absurd rfl (units_of_parsePart hn).1

/-! ## IPv6 literals -/

theorem parseDottedQuadV6Tail_map_lower (s : JsString) :
    parseDottedQuadV6Tail (s.map asciiLower) = parseDottedQuadV6Tail s := by
  have hdot : ∀ u, asciiLower u = unit '.' ↔ u = unit '.' := asciiLower_eq_iff (by decide)
  unfold parseDottedQuadV6Tail
  rw [splitOn_map hdot]
  simp only [length_map, List.all_map, List.foldl_map, Function.comp_def, parseInt_map_lower,
    isDigit_asciiLower]

theorem expandTokens_map_lower (toks : List JsString) :
    expandTokens (toks.map (List.map asciiLower)) = expandTokens toks := by
  have hdot : ∀ u, asciiLower u = unit '.' ↔ u = unit '.' := asciiLower_eq_iff (by decide)
  induction toks with
  | nil => rfl
  | cons tok toks ih =>
    have hmem : unit '.' ∈ tok.map asciiLower ↔ unit '.' ∈ tok := by
      simp only [List.mem_map, hdot, exists_eq_right]
    simp only [map_cons, expandTokens, hmem, ih, parseDottedQuadV6Tail_map_lower,
      parseInt_map_lower, length_map, all_map_asciiLower isHexDigit_asciiLower,
      List.map_eq_nil_iff]

theorem expand_map_lower (run : JsString) : expand (run.map asciiLower) = expand run := by
  have hcolon : ∀ u, asciiLower u = unit ':' ↔ u = unit ':' := asciiLower_eq_iff (by decide)
  rw [expand, expand, length_map, splitOn_map hcolon, expandTokens_map_lower]

theorem parseGroups_map_lower (s : JsString) : parseGroups (s.map asciiLower) = parseGroups s := by
  have hcolon : ∀ u, asciiLower u = unit ':' ↔ u = unit ':' := asciiLower_eq_iff (by decide)
  unfold parseGroups
  rw [splitOnTwice_map hcolon, expand_map_lower]
  match splitOnTwice (unit ':') s with
  | [] | [_] => rfl
  | [h, t] => simp only [map_cons, List.map_nil, expand_map_lower]
  | _ :: _ :: _ :: _ => rfl

/-- The units of an accepted IPv6 literal: hexadecimal digits, colons and the
dots of a dotted quad. -/
def IsIpv6Unit (u : UInt16) : Prop := isHexDigit u = true ∨ u = 58 ∨ u = 46

theorem units_of_parseDottedQuadV6Tail {v : BitVec 32}
    (h : parseDottedQuadV6Tail s = some v) : ∀ u ∈ s, IsIpv6Unit u := by
  intro u hu
  by_cases hdot : u = unit '.'
  · exact .inr (.inr hdot)
  obtain ⟨p, hp, hup⟩ := mem_splitOn hu hdot
  simp only [parseDottedQuadV6Tail] at h
  split at h
  · contradiction
  · split at h
    · next hall =>
      rw [List.all_eq_true] at hall
      have hdigits := (of_decide_eq_true (hall p hp)).2.2.1
      exact .inl (isHexDigit_of_isDigit (List.all_eq_true.mp hdigits u hup))
    · contradiction

theorem units_of_expandTokens {toks : List JsString} {gs : List (BitVec 16)}
    (h : expandTokens toks = some gs) : ∀ tok ∈ toks, ∀ u ∈ tok, IsIpv6Unit u := by
  induction toks generalizing gs with
  | nil => simp
  | cons tok toks ih =>
    rw [expandTokens] at h
    split at h
    · split at h
      · next hlast =>
        obtain ⟨v, hv, -⟩ := Option.map_eq_some_iff.mp h
        subst hlast
        intro t ht
        rw [List.mem_singleton.mp ht]
        exact units_of_parseDottedQuadV6Tail hv
      · contradiction
    · split at h
      · next htok =>
        obtain ⟨gs', hgs, -⟩ := Option.map_eq_some_iff.mp h
        intro t ht
        rcases List.mem_cons.mp ht with rfl | ht
        · exact fun u hu => .inl (List.all_eq_true.mp htok.2.2 u hu)
        · exact ih hgs t ht
      · contradiction

theorem units_of_expand {run : JsString} {gs : List (BitVec 16)} (h : expand run = some gs) :
    ∀ u ∈ run, IsIpv6Unit u := by
  intro u hu
  rw [expand, if_neg (by cases run <;> simp_all)] at h
  by_cases hcolon : u = unit ':'
  · exact .inr (.inl hcolon)
  · obtain ⟨p, hp, hup⟩ := mem_splitOn hu hcolon
    exact units_of_expandTokens h p hp u hup

theorem units_of_parseGroups {g : Groups} (h : parseGroups s = some g) : ∀ u ∈ s, IsIpv6Unit u := by
  intro u hu
  by_cases hcolon : u = unit ':'
  · exact .inr (.inl hcolon)
  obtain ⟨p, hp, hup⟩ := mem_splitOnTwice hu hcolon
  unfold parseGroups at h
  split at h
  · obtain ⟨gs, hgs, -⟩ := Option.bind_eq_some_iff.mp h
    exact units_of_expand hgs u hu
  · next hd tl hsplit =>
    rw [hsplit] at hp
    split at h
    · next head tail hhead htail =>
      simp only [List.mem_cons, List.not_mem_nil, or_false] at hp
      rcases hp with rfl | rfl
      · exact units_of_expand hhead u hup
      · exact units_of_expand htail u hup
    · contradiction
  · contradiction

theorem parseGroups_eq_none_of_no_colon (h : unit ':' ∉ s) : parseGroups s = none := by
  have hone : splitOnTwice (unit ':') s = [s] := splitOnTwice_eq_singleton h
  have htok : s.splitOn (unit ':') = [s] := List.splitOn_eq_singleton h
  have hlen : ∀ gs, expand s = some gs → gs.length ≤ 2 := by
    intro gs hgs
    rw [expand, htok] at hgs
    split at hgs
    · simp [← Option.some.inj hgs]
    rw [expandTokens] at hgs
    split at hgs
    · simp only [if_true, Option.map_eq_some_iff] at hgs
      obtain ⟨v, -, rfl⟩ := hgs
      simp
    · split at hgs
      · simp [expandTokens] at hgs
        simp [← hgs]
      · contradiction
  simp only [parseGroups, hone]
  rw [Option.bind_eq_none_iff]
  intro gs hgs
  have := hlen gs hgs
  rw [groups?, dif_neg (by omega)]

end BunServe.SafeUrl
