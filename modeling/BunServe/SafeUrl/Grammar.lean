import BunServe.SafeUrl.Resolved
import Mathlib.Data.List.Forall2

/-!
# BunServe.SafeUrl.Grammar

The texts of IP addresses, and what the literal parsers make of them.

`Rfc4291 s g` says that `s` is a textual form of `g`: groups of one to four
hexadecimal digits, the last two possibly a dotted quad, and at most one `::`,
which stands for one or more groups of zeros.  `parseGroups` reads two kinds of
text besides (`Surplus`): a `::` between eight groups, which stands for none,
and one that follows a dotted quad.  `parseGroups_iff` is the exact
correspondence and `not_rfc4291_of_surplus` says that no text is of both kinds.
`parseIpv4_iff` is the same for IPv4, in the encodings that `inet_aton` reads.

`classifyHost_eq_none_iff` says exactly what `classifyHost` passes, so that
`classifyAddress_eq_none` is the list of texts that `classifyAddress` takes for
public addresses.

Main result: `literals_exact`.
-/

namespace BunServe.SafeUrl

open LowerCase
open List (cons_append getLast?_concat)

/-! ## the texts -/

/-- A group: one to four hexadecimal digits. -/
structure HexGroup (tok : JsString) (x : BitVec 16) : Prop where
  pos : 1 ≤ tok.length
  le : tok.length ≤ 4
  digits : tok.all isHexDigit
  value : x = BitVec.ofNat 16 (parseInt 16 tok)

/-- An octet of a dotted quad: a decimal number of up to three digits. -/
structure Octet (part : JsString) (n : Nat) : Prop where
  pos : 1 ≤ part.length
  le : part.length ≤ 3
  digits : part.all isDigit
  value : n = parseInt 10 part
  lt : n ≤ 255

/-- A dotted quad, as two groups. -/
inductive DottedQuad : JsString → BitVec 16 → BitVec 16 → Prop
  | mk {p q r s : JsString} {a b c d : Nat} : Octet p a → Octet q b → Octet r c → Octet s d →
      DottedQuad ([unit '.'].intercalate [p, q, r, s])
        (BitVec.ofNat 16 (a * 256 + b)) (BitVec.ofNat 16 (c * 256 + d))

/-- Groups, of which the last two may be a dotted quad. -/
inductive Mixed : List JsString → List (BitVec 16) → Prop
  | nil : Mixed [] []
  | quad {tok : JsString} {x y : BitVec 16} : DottedQuad tok x y → Mixed [tok] [x, y]
  | cons {tok : JsString} {x : BitVec 16} {toks : List JsString} {gs : List (BitVec 16)} :
      HexGroup tok x → Mixed toks gs → Mixed (tok :: toks) (x :: gs)

/-- The text of a run of groups. -/
def colons (toks : List JsString) : JsString := [unit ':'].intercalate toks

/-- `head::tail` -/
def compressed (head tail : List JsString) : JsString :=
  colons head ++ unit ':' :: unit ':' :: colons tail

/-- The groups that `head::tail` stands for. -/
def filled (hs ts : List (BitVec 16)) : List (BitVec 16) :=
  hs ++ List.replicate (8 - hs.length - ts.length) 0 ++ ts

/-- The textual forms of an IPv6 address: all groups, or a `::` for one or more
groups of zeros; in both the last two may be a dotted quad. -/
inductive Rfc4291 : JsString → Groups → Prop
  | full {toks : List JsString} {g : Groups} : Mixed toks g.toList → Rfc4291 (colons toks) g
  | compressed {head tail : List JsString} {hs ts : List (BitVec 16)} {g : Groups} :
      List.Forall₂ HexGroup head hs → Mixed tail ts → hs.length + ts.length < 8 →
      g.toList = filled hs ts → Rfc4291 (compressed head tail) g

/-- The texts that are no such form: a `::` that stands for no group, and one
that follows a dotted quad. -/
inductive Surplus : JsString → Groups → Prop
  | mk {head tail : List JsString} {hs ts : List (BitVec 16)} {g : Groups} :
      Mixed head hs → Mixed tail ts → hs.length + ts.length ≤ 8 → g.toList = filled hs ts →
      hs.length + ts.length = 8 ∨ ¬ List.Forall₂ HexGroup head hs →
      Surplus (compressed head tail) g

/-! ## tokens -/

theorem isHexDigit_ne {u : UInt16} (h : isHexDigit u = true) : u ≠ unit ':' ∧ u ≠ unit '.' := by
  constructor <;> rintro rfl <;> revert h <;> decide

variable {tok : JsString}

theorem HexGroup.good {x : BitVec 16} (h : HexGroup tok x) :
    tok ≠ [] ∧ unit ':' ∉ tok ∧ unit '.' ∉ tok := by
  have hd := List.all_eq_true.mp h.digits
  refine ⟨?_, fun hm => (isHexDigit_ne (hd _ hm)).1 rfl, fun hm => (isHexDigit_ne (hd _ hm)).2 rfl⟩
  rintro rfl
  exact absurd h.pos (by simp)

variable {n : Nat}

theorem Octet.good {p : JsString} (h : Octet p n) : unit ':' ∉ p ∧ unit '.' ∉ p := by
  have hd := List.all_eq_true.mp h.digits
  exact ⟨fun hm => (isHexDigit_ne (isHexDigit_of_isDigit (hd _ hm))).1 rfl,
    fun hm => (isHexDigit_ne (isHexDigit_of_isDigit (hd _ hm))).2 rfl⟩

theorem DottedQuad.good {x y : BitVec 16} (h : DottedQuad tok x y) :
    tok ≠ [] ∧ unit ':' ∉ tok ∧ unit '.' ∈ tok := by
  obtain ⟨hp, hq, hr, hs⟩ := h
  have hne : unit ':' ≠ unit '.' := by decide
  simp [hne, hp.good, hq.good, hr.good,
    hs.good]

variable {toks : List JsString} {gs : List (BitVec 16)}

theorem Mixed.good (h : Mixed toks gs) : ∀ t ∈ toks, t ≠ [] ∧ unit ':' ∉ t := by
  induction h with
  | nil => simp
  | quad hq => simpa using ⟨hq.good.1, hq.good.2.1⟩
  | cons ht _ ih => simpa using ⟨⟨ht.good.1, ht.good.2.1⟩, ih⟩

theorem Mixed.of_hex (h : List.Forall₂ HexGroup toks gs) : Mixed toks gs := by
  induction h with
  | nil => exact .nil
  | cons ht _ ih => exact .cons ht ih

/-! ## dotted quads -/

theorem quad_split {m : Nat} (hm : m < 65536) :
    (((BitVec.ofNat 32 (n * 65536 + m)) >>> 16) &&& 0xffff).setWidth 16 = BitVec.ofNat 16 n ∧
      ((BitVec.ofNat 32 (n * 65536 + m)) &&& 0xffff).setWidth 16 = BitVec.ofNat 16 m := by
  have hand (k : Nat) : k &&& 65535 = k % 65536 := Nat.and_two_pow_sub_one_eq_mod k 16
  have hmask : (0xffff : BitVec 32).toNat = 65535 := rfl
  constructor
  · apply BitVec.eq_of_toNat_eq
    simp only [BitVec.toNat_setWidth, BitVec.toNat_and, BitVec.toNat_ushiftRight,
      BitVec.toNat_ofNat]
    rw [hmask, hand]
    omega
  · apply BitVec.eq_of_toNat_eq
    simp only [BitVec.toNat_setWidth, BitVec.toNat_and, BitVec.toNat_ofNat]
    rw [hmask, hand]
    omega

variable {v : BitVec 32}

theorem parseDottedQuadV6Tail_iff :
    parseDottedQuadV6Tail tok = some v ↔ ∃ p q r s a b c d, Octet p a ∧ Octet q b ∧ Octet r c ∧
      Octet s d ∧ tok = [unit '.'].intercalate [p, q, r, s] ∧
      v = BitVec.ofNat 32 ((a * 256 + b) * 65536 + (c * 256 + d)) := by
  constructor
  · intro h
    rw [parseDottedQuadV6Tail] at h
    split at h
    · contradiction
    next hlen =>
    obtain ⟨hall, h⟩ := Option.ite_none_right_eq_some.mp h
    have htok : [unit '.'].intercalate (tok.splitOn (unit '.')) = tok :=
      List.intercalate_splitOn _
    obtain ⟨p, q, r, s, hparts⟩ := List.length_eq_four.mp (not_not.mp hlen)
    rw [hparts] at h hall htok
    have hoct (t : JsString) (ht : t ∈ [p, q, r, s]) : Octet t (parseInt 10 t) := by
      have := of_decide_eq_true (List.all_eq_true.mp hall t ht)
      exact ⟨this.1, this.2.1, this.2.2.1, rfl, this.2.2.2⟩
    refine ⟨p, q, r, s, _, _, _, _, hoct p (by simp), hoct q (by simp), hoct r (by simp),
      hoct s (by simp), htok.symm, ?_⟩
    rw [← Option.some.inj h]
    refine congrArg (BitVec.ofNat 32) ?_
    simp only [List.foldl_cons, List.foldl_nil]
    omega
  · rintro ⟨p, q, r, s, a, b, c, d, hp, hq, hr, hs, rfl, rfl⟩
    have hsplit : ([unit '.'].intercalate [p, q, r, s]).splitOn (unit '.') = [p, q, r, s] := by
      refine List.splitOn_intercalate _ ?_ (by simp)
      simpa using ⟨hp.good.2, hq.good.2, hr.good.2, hs.good.2⟩
    have hall : [p, q, r, s].all fun p =>
        1 ≤ p.length ∧ p.length ≤ 3 ∧ p.all isDigit ∧ parseInt 10 p ≤ 255 := by
      have hok {t : JsString} {n : Nat} (h : Octet t n) :
          1 ≤ t.length ∧ t.length ≤ 3 ∧ t.all isDigit ∧ parseInt 10 t ≤ 255 :=
        ⟨h.pos, h.le, h.digits, h.value ▸ h.lt⟩
      simp only [List.all_cons, List.all_nil, Bool.and_true, Bool.and_eq_true, decide_eq_true_eq]
      exact ⟨hok hp, hok hq, hok hr, hok hs⟩
    rw [parseDottedQuadV6Tail]
    simp only [hsplit]
    rw [if_pos hall, hp.value, hq.value, hr.value, hs.value]
    refine congrArg (fun n => some (BitVec.ofNat 32 n)) ?_
    simp only [List.foldl_cons, List.foldl_nil]
    omega

theorem dottedQuad_iff : (parseDottedQuadV6Tail tok).map (fun (v4 : BitVec 32) =>
        [((v4 >>> 16) &&& 0xffff).setWidth 16, (v4 &&& 0xffff).setWidth 16]) = some gs ↔
      ∃ x y, DottedQuad tok x y ∧ gs = [x, y] := by
  rw [Option.map_eq_some_iff]
  constructor
  · rintro ⟨v, hv, rfl⟩
    obtain ⟨p, q, r, s, a, b, c, d, hp, hq, hr, hs, rfl, rfl⟩ := parseDottedQuadV6Tail_iff.mp hv
    obtain ⟨hhi, hlo⟩ := quad_split (m := c * 256 + d)
      (by have := hr.lt; have := hs.lt; omega)
    exact ⟨_, _, .mk hp hq hr hs, by rw [hhi, hlo]⟩
  · rintro ⟨x, y, ⟨hp, hq, hr, hs⟩, rfl⟩
    refine ⟨_, parseDottedQuadV6Tail_iff.mpr ⟨_, _, _, _, _, _, _, _, hp, hq, hr, hs, rfl, rfl⟩, ?_⟩
    rw [(quad_split (by have := hr.lt; have := hs.lt; omega)).1,
      (quad_split (by have := hr.lt; have := hs.lt; omega)).2]

/-! ## what the parsers read -/

theorem expandTokens_iff : expandTokens toks = some gs ↔ Mixed toks gs := by
  induction toks generalizing gs with
  | nil =>
    rw [expandTokens, Option.some.injEq]
    constructor
    · rintro rfl
      exact .nil
    · intro h
      cases h
      rfl
  | cons tok toks ih =>
    rw [expandTokens]
    constructor
    · intro h
      split at h
      · split at h
        · next hlast =>
          obtain ⟨x, y, hq, rfl⟩ := dottedQuad_iff.mp h
          rw [hlast]
          exact .quad hq
        · contradiction
      · split at h
        · next htok =>
          obtain ⟨gs', hgs, rfl⟩ := Option.map_eq_some_iff.mp h
          exact .cons ⟨htok.1, htok.2.1, htok.2.2, rfl⟩ (ih.mp hgs)
        · contradiction
    · intro h
      cases h with
      | quad hq =>
        rw [if_pos hq.good.2.2]
        exact dottedQuad_iff.mpr ⟨_, _, hq, rfl⟩
      | cons ht hrest =>
        rw [if_neg ht.good.2.2, if_pos ⟨ht.pos, ht.le, ht.digits⟩, ih.mpr hrest, ht.value]
        rfl

theorem colons_eq_nil (h : ∀ t ∈ toks, t ≠ [] ∧ unit ':' ∉ t) : colons toks = [] ↔ toks = [] := by
  cases toks with
  | nil => simp [colons]
  | cons t toks =>
    have := (h t (by simp)).1
    cases toks <;> simp [colons, this]

theorem splitOn_colons (h : ∀ t ∈ toks, t ≠ [] ∧ unit ':' ∉ t)
    (hne : toks ≠ []) : (colons toks).splitOn (unit ':') = toks :=
  List.splitOn_intercalate _ (fun t ht => (h t ht).2) hne

theorem colons_inj {toks' : List JsString} (h : ∀ t ∈ toks, t ≠ [] ∧ unit ':' ∉ t)
    (h' : ∀ t ∈ toks', t ≠ [] ∧ unit ':' ∉ t) (he : colons toks = colons toks') : toks = toks' := by
  by_cases hnil : toks = []
  · rw [hnil] at he ⊢
    exact ((colons_eq_nil h').mp (he.symm.trans rfl)).symm
  · have hnil' : toks' ≠ [] := fun hn => hnil ((colons_eq_nil h).mp (he.trans (by rw [hn]; rfl)))
    rw [← splitOn_colons h hnil, he, splitOn_colons h' hnil']

theorem expand_iff {run : JsString} :
    expand run = some gs ↔ ∃ toks, Mixed toks gs ∧ run = colons toks := by
  rw [expand]
  constructor
  · intro h
    split at h
    · next hlen =>
      cases h
      exact ⟨[], .nil, List.length_eq_zero_iff.mp hlen⟩
    · exact ⟨_, expandTokens_iff.mp h, (List.intercalate_splitOn _).symm⟩
  · rintro ⟨toks, hm, rfl⟩
    by_cases hnil : toks = []
    · subst hnil
      cases hm
      rfl
    · have hrun : colons toks ≠ [] := fun h => hnil ((colons_eq_nil hm.good).mp h)
      rw [if_neg (by simpa using hrun), splitOn_colons hm.good hnil]
      exact expandTokens_iff.mpr hm

variable {g : Groups}

theorem groups?_iff : groups? gs = some g ↔ g.toList = gs := by
  rw [groups?]
  constructor
  · intro h
    split at h
    · rw [← Option.some.inj h]
      simp
    · contradiction
  · rintro rfl
    rw [dif_pos (by simp), Option.some.injEq]
    ext i hi
    simp

theorem splitOnTwice_colons (h : ∀ t ∈ toks, t ≠ [] ∧ unit ':' ∉ t) :
    splitOnTwice (unit ':') (colons toks) = [colons toks] := by
  have := splitOnTwice_intercalate h []
  rwa [List.append_nil, splitOnTwice, List.modifyHead_cons, List.append_nil] at this

theorem splitOnTwice_compressed {head tail : List JsString}
    (hh : ∀ t ∈ head, t ≠ [] ∧ unit ':' ∉ t) (ht : ∀ t ∈ tail, t ≠ [] ∧ unit ':' ∉ t) :
    splitOnTwice (unit ':') (compressed head tail) = [colons head, colons tail] := by
  have := splitOnTwice_intercalate hh (unit ':' :: unit ':' :: colons tail)
  rwa [splitOnTwice, if_pos ⟨rfl, rfl⟩, splitOnTwice_colons ht, List.modifyHead_cons,
    List.append_nil] at this

variable {s : JsString}

/-- **What the parser reads**: the textual forms, and the surplus texts. -/
theorem parseGroups_iff : parseGroups s = some g ↔ Rfc4291 s g ∨ Surplus s g := by
  constructor
  · intro h
    have hjoin := intercalate_splitOnTwice (unit ':') s
    rw [parseGroups] at h
    split at h
    · next hsplit =>
      obtain ⟨gs, hgs, hg⟩ := Option.bind_eq_some_iff.mp h
      obtain ⟨toks, hm, rfl⟩ := expand_iff.mp hgs
      exact .inl (.full (by rw [groups?_iff.mp hg]; exact hm))
    · next hd tl hsplit =>
      split at h
      · next hs ts hhs hts =>
        obtain ⟨head, hmh, rfl⟩ := expand_iff.mp hhs
        obtain ⟨tail, hmt, rfl⟩ := expand_iff.mp hts
        have hg := groups?_iff.mp h
        have hlen : hs.length + ts.length ≤ 8 := by
          have := congrArg List.length hg
          simp at this
          omega
        obtain rfl : s = compressed head tail := by
          rw [← hjoin, hsplit, List.intercalate_cons_cons, List.intercalate_singleton, List.append_assoc]
          rfl
        by_cases hrfc : hs.length + ts.length < 8 ∧ List.Forall₂ HexGroup head hs
        · exact .inl (.compressed hrfc.2 hmt hrfc.1 hg)
        · refine .inr ⟨hmh, hmt, hlen, hg, ?_⟩
          by_cases h8 : hs.length + ts.length = 8
          · exact .inl h8
          · exact .inr fun hex => hrfc ⟨by omega, hex⟩
      · contradiction
    · contradiction
  · rintro (h | h)
    · cases h with
      | full hm =>
        rw [parseGroups, splitOnTwice_colons hm.good]
        exact Option.bind_eq_some_iff.mpr ⟨_, expand_iff.mpr ⟨_, hm, rfl⟩, groups?_iff.mpr rfl⟩
      | compressed hh ht hlen hg =>
        rw [parseGroups, splitOnTwice_compressed (Mixed.of_hex hh).good ht.good]
        simp only [expand_iff.mpr ⟨_, Mixed.of_hex hh, rfl⟩, expand_iff.mpr ⟨_, ht, rfl⟩]
        exact groups?_iff.mpr hg
    · obtain ⟨hh, ht, hlen, hg, -⟩ := h
      rw [parseGroups, splitOnTwice_compressed hh.good ht.good]
      simp only [expand_iff.mpr ⟨_, hh, rfl⟩, expand_iff.mpr ⟨_, ht, rfl⟩]
      exact groups?_iff.mpr hg

theorem not_rfc4291_of_surplus {g' : Groups} (h : Surplus s g) : ¬ Rfc4291 s g' := by
  obtain ⟨hh, ht, hlen, hg, hbad⟩ := h
  rename_i head tail hs ts
  have hsplit := splitOnTwice_compressed hh.good ht.good
  generalize hs' : compressed head tail = s' at hsplit
  intro hrfc
  cases hrfc with
  | full hm =>
    rw [splitOnTwice_colons hm.good] at hsplit
    simp at hsplit
  | compressed hh' ht' hlen' hg' =>
    rw [splitOnTwice_compressed (Mixed.of_hex hh').good ht'.good] at hsplit
    simp only [List.cons.injEq, and_true] at hsplit
    obtain rfl := colons_inj (Mixed.of_hex hh').good hh.good hsplit.1
    obtain rfl := colons_inj ht'.good ht.good hsplit.2
    have hhs := (expandTokens_iff.mpr (Mixed.of_hex hh')).symm.trans (expandTokens_iff.mpr hh)
    have hts := (expandTokens_iff.mpr ht').symm.trans (expandTokens_iff.mpr ht)
    cases hhs
    cases hts
    cases hbad with
    | inl h8 => omega
    | inr hhex => exact hhex hh'

/-! ## IPv4 texts -/

/-- A number as `inet_aton` reads it: hexadecimal behind `0x`, octal behind `0`,
else decimal. -/
inductive Numeral : JsString → Nat → Prop
  | hex {x : UInt16} {ds : JsString} : x = unit 'x' ∨ x = unit 'X' → ds ≠ [] → ds.all isHexDigit →
      Numeral (unit '0' :: x :: ds) (parseInt 16 ds)
  | octal {ds : JsString} : ds ≠ [] → ds.all isOctalDigit → Numeral (unit '0' :: ds) (parseInt 8 ds)
  | zero : Numeral [unit '0'] 0
  | decimal {d : UInt16} {ds : JsString} : 49 ≤ d → d ≤ 57 → ds.all isDigit →
      Numeral (d :: ds) (parseInt 10 (d :: ds))

/-- The texts of an IPv4 address: up to four numbers, octets but for the last,
which fills what they leave. -/
inductive Ipv4Text : JsString → BitVec 32 → Prop
  | mk {parts : List JsString} {part : JsString} {lead : List Nat} {last : Nat} :
      List.Forall₂ Numeral parts lead → Numeral part last → lead.length ≤ 3 →
      (∀ n ∈ lead, n ≤ 255) → last < 256 ^ (4 - lead.length) →
      Ipv4Text ([unit '.'].intercalate (parts ++ [part]))
        (BitVec.ofNat 32 (last + (lead.mapIdx fun i n => n * 256 ^ (3 - i)).sum))

theorem parsePart_iff {part : JsString} : parsePart part = some n ↔ Numeral part n := by
  constructor
  · intro h
    unfold parsePart at h
    split at h
    · next hhex =>
      rcases part with _ | ⟨z, _ | ⟨x, _ | ⟨d, ds⟩⟩⟩
      · contradiction
      · contradiction
      · contradiction
      simp only [isHexForm, Bool.and_eq_true, Bool.or_eq_true, decide_eq_true_eq] at hhex
      obtain ⟨⟨rfl, hx⟩, hds⟩ := hhex
      rw [← Option.some.inj h]
      exact .hex hx (by simp) hds
    split at h
    · next hoct =>
      rcases part with _ | ⟨z, _ | ⟨d, ds⟩⟩
      · contradiction
      · contradiction
      simp only [isOctalForm, Bool.and_eq_true, decide_eq_true_eq] at hoct
      obtain ⟨rfl, hds⟩ := hoct
      rw [← Option.some.inj h]
      exact .octal (by simp) hds
    split at h
    · next hp =>
      rw [hp, ← Option.some.inj h]
      exact .zero
    obtain ⟨hdec, h⟩ := Option.ite_none_right_eq_some.mp h
    cases part with
    | nil => contradiction
    | cons d ds =>
      simp only [isDecimalForm, Bool.and_eq_true, decide_eq_true_eq] at hdec
      rw [← Option.some.inj h]
      exact .decimal hdec.1.1 hdec.1.2 hdec.2
  · intro h
    unfold parsePart
    cases h with
    | @hex x ds hx hne hds =>
      obtain ⟨d, ds, rfl⟩ := List.exists_cons_of_ne_nil hne
      rw [if_pos]
      · rfl
      · simp only [isHexForm, Bool.and_eq_true, Bool.or_eq_true, decide_eq_true_eq]
        exact ⟨⟨rfl, hx⟩, hds⟩
    | @octal ds hne hds =>
      obtain ⟨d, ds, rfl⟩ := List.exists_cons_of_ne_nil hne
      have hoct : isOctalForm (unit '0' :: d :: ds) = true := by
        simp only [isOctalForm, Bool.and_eq_true]
        exact ⟨rfl, hds⟩
      rw [if_neg, if_pos hoct]
      · rfl
      -- an octal digit is not an `x`
      intro hhex
      cases ds with
      | nil => contradiction
      | cons e ds =>
        simp only [isHexForm, Bool.and_eq_true, Bool.or_eq_true, decide_eq_true_eq] at hhex
        have hd := List.all_eq_true.mp hds d (by simp)
        rcases hhex.1.2 with rfl | rfl <;> revert hd <;> decide
    | zero => decide
    | @decimal d ds h49 h57 hds =>
      have hd : d ≠ 48 := by
        rintro rfl
        exact absurd h49 (by decide)
      have hdec : isDecimalForm (d :: ds) = true := by
        simp only [isDecimalForm, Bool.and_eq_true, decide_eq_true_eq]
        exact ⟨⟨h49, h57⟩, hds⟩
      rw [if_neg, if_neg, if_neg, if_pos hdec]
      · exact fun he => hd (List.cons.inj he).1
      · intro hoct
        cases ds <;> simp [isOctalForm, hd] at hoct
      · intro hhex
        rcases ds with _ | ⟨_, _ | ⟨_, _⟩⟩
        · contradiction
        · contradiction
        · simp [isHexForm, hd] at hhex

theorem mapM_iff_forall₂ {α β : Type} {f : α → Option β} {R : α → β → Prop}
    (hf : ∀ a b, f a = some b ↔ R a b) {as : List α} {bs : List β} :
    as.mapM f = some bs ↔ List.Forall₂ R as bs := by
  induction as generalizing bs with
  | nil => cases bs <;> simp
  | cons a as ih =>
    rw [List.mapM_cons]
    constructor
    · intro h
      obtain ⟨b, hb, h⟩ := Option.bind_eq_some_iff.mp h
      obtain ⟨bs', hbs, h⟩ := Option.bind_eq_some_iff.mp h
      cases h
      exact .cons ((hf a b).mp hb) (ih.mp hbs)
    · intro h
      cases h with
      | cons hab hrest => simp [(hf a _).mpr hab, ih.mpr hrest]

theorem not_mem_of_digits {ds : JsString} (h : ds.all isHexDigit) : unit '.' ∉ ds :=
  fun hm => (isHexDigit_ne (List.all_eq_true.mp h _ hm)).2 rfl

theorem all_isHexDigit {ds : JsString} (h : ds.all isDigit) : ds.all isHexDigit :=
  List.all_eq_true.mpr fun u hu => isHexDigit_of_isDigit (List.all_eq_true.mp h u hu)

theorem Numeral.no_dot {part : JsString} (h : Numeral part n) : unit '.' ∉ part := by
  have h0 : unit '.' ≠ unit '0' := by decide
  cases h with
  | @hex x ds hx _ hds =>
    have hx : unit '.' ≠ x := by
      rintro rfl
      exact absurd hx (by decide)
    simp [h0, hx, not_mem_of_digits hds]
  | octal _ hds =>
    have hdigits : List.all _ isDigit :=
      List.all_eq_true.mpr fun u hu => isDigit_of_isOctalDigit (List.all_eq_true.mp hds u hu)
    simp [h0, not_mem_of_digits (all_isHexDigit hdigits)]
  | zero => simp [h0]
  | @decimal d ds h49 _ hds =>
    have hd : unit '.' ≠ d := by
      rintro rfl
      exact absurd h49 (by decide)
    simp [hd, not_mem_of_digits (all_isHexDigit hds)]

/-- **What the IPv4 parser reads**. -/
theorem parseIpv4_iff : parseIpv4 s = some v ↔ Ipv4Text s v := by
  constructor
  · intro h
    have hjoin : [unit '.'].intercalate (s.splitOn (unit '.')) = s := List.intercalate_splitOn _
    unfold parseIpv4 at h
    split at h
    · contradiction
    split at h
    · contradiction
    next hlen =>
    split at h
    · contradiction
    next nums hnums =>
    obtain hnil | ⟨parts, part, hparts⟩ := List.eq_nil_or_concat (s.splitOn (unit '.'))
    · exact absurd hnil (List.splitOn_ne_nil _ _)
    rw [List.concat_eq_append] at hparts
    rw [hparts] at hnums hjoin hlen
    rw [List.mapM_append, List.mapM_cons, List.mapM_nil] at hnums
    obtain ⟨lead, hlead, h1⟩ := Option.bind_eq_some_iff.mp hnums
    obtain ⟨tail, htail, h2⟩ := Option.bind_eq_some_iff.mp h1
    obtain ⟨last, hlast, h3⟩ := Option.bind_eq_some_iff.mp htail
    cases h3
    cases h2
    simp only [List.dropLast_concat, List.getLastD_concat] at h
    split at h
    · contradiction
    next hfit =>
    split at h
    · contradiction
    next hoctets =>
    have hleads := (mapM_iff_forall₂ fun _ _ => parsePart_iff).mp hlead
    have hle := hleads.length_eq
    rw [List.length_append, List.length_singleton] at hlen
    rw [← hjoin, ← Option.some.inj h]
    refine .mk hleads (parsePart_iff.mp hlast) (by omega) ?_ (by omega)
    simpa using hoctets
  · rintro ⟨hleads, hlast, hlen, hoctets, hfit⟩
    rename_i parts part lead last
    have hdots : ∀ t ∈ parts ++ [part], unit '.' ∉ t := by
      intro t ht
      rcases List.mem_append.mp ht with ht | ht
      · obtain ⟨n, hn⟩ := exists_of_mapM_eq_some ((mapM_iff_forall₂ fun _ _ => parsePart_iff).mpr
          hleads) t ht
        exact (parsePart_iff.mp hn).no_dot
      · rw [List.mem_singleton.mp ht]
        exact hlast.no_dot
    have hsplit := List.splitOn_intercalate (unit '.') hdots (by simp)
    have hmap : (parts ++ [part]).mapM parsePart = some (lead ++ [last]) := by
      rw [List.mapM_append, (mapM_iff_forall₂ fun _ _ => parsePart_iff).mpr hleads]
      simp [parsePart_iff.mpr hlast]
    have hne : [unit '.'].intercalate (parts ++ [part]) ≠ [] := by
      intro hnil
      rw [hnil] at hsplit
      have hempty : parts ++ [part] = [[]] := hsplit.symm
      have := List.append_inj' (hempty.trans (List.nil_append _).symm) rfl
      obtain rfl : part = [] := by simpa using this.2
      cases hlast
    have hle := hleads.length_eq
    unfold parseIpv4
    rw [if_neg (by simpa using hne), hsplit, if_neg (by simp; omega), hmap]
    simp only [List.dropLast_concat, List.getLastD_concat]
    rw [if_neg (by omega), if_neg (by simpa using hoctets)]

/-! ## what `classifyHost` passes -/

section Hosts

variable {lc : LowerCase} {nat64 : Option Nat64Prefix}

theorem parseIpv6_lowerFrom {t : JsString} (h : parseIpv6 t = some g) (i : Nat) :
    parseIpv6 (lc.lowerFrom s i t) = some g := by
  have hpct : ∀ u, asciiLower u = unit '%' ↔ u = unit '%' := asciiLower_eq_iff (by decide)
  have hascii : ∀ u ∈ t.takeWhile (· ≠ unit '%'), u < 128 := fun u hu =>
    (plain_of_ipv6Unit (units_of_parseGroups h u hu)).1
  rw [parseIpv6, takeWhile_lowerFrom (by decide) hpct, lowerFrom_of_ascii hascii,
    parseGroups_map_lower]
  exact h

theorem parseIpv4_lowerFrom {t : JsString} (h : parseIpv4 t = some v) (i : Nat) :
    parseIpv4 (lc.lowerFrom s i t) = some v := by
  have hascii : ∀ u ∈ t, u < 128 := fun u hu =>
    (plain_of_ipv4Unit ((units_of_parseIpv4 h).2 u hu)).1
  rw [lowerFrom_of_ascii hascii, parseIpv4_map_lower]
  exact h

theorem lowerFrom_brackets (s m : JsString) :
    lc.lowerFrom s 0 (unit '[' :: m ++ [unit ']']) =
      unit '[' :: lc.lowerFrom s 1 m ++ [unit ']'] := by
  rw [cons_append, lowerFrom, lowerFrom_append]
  rfl

theorem classifyNormal_of_ipv4 {t : JsString} (h : parseIpv4 t = some v) :
    classifyNormal t nat64 = (classifyIpv4 v).map .reason := by
  obtain ⟨hne, hunits⟩ := units_of_parseIpv4 h
  have hopen : t.head? ≠ some (unit '[') := by
    intro hh
    obtain ⟨xs, rfl⟩ := List.head?_eq_some_iff.mp hh
    exact (ne_mark_of_ipv4Unit (hunits _ (by simp))).1 rfl
  have hname {u : UInt16} {name : JsString} (hu : u ∈ name) (hnot : ¬ IsIpv4Unit u) : t ≠ name := by
    rintro rfl
    exact hnot (hunits u hu)
  have hl : ¬ IsIpv4Unit 108 := by unfold IsIpv4Unit; decide
  have hm : ¬ IsIpv4Unit 109 := by unfold IsIpv4Unit; decide
  have hnames : t ∉ metadataHostnames := by
    simp only [metadataHostnames, List.mem_cons, List.not_mem_nil, or_false, not_or]
    exact ⟨hname (by decide) hm, hname (by decide) hm⟩
  rw [classifyNormal, if_neg (by simpa using hne), if_neg fun hb => hopen hb.1,
    if_neg (hname (by decide) hl), if_neg hnames]
  simp only [h]

theorem classifyNormal_of_brackets {m : JsString} (h : parseIpv6 m = some g) :
    classifyNormal (unit '[' :: m ++ [unit ']']) nat64 = (classifyIpv6 g nat64).map .reason := by
  have hinner : inner (unit '[' :: m ++ [unit ']']) = m := by
    rw [inner, List.dropLast_concat]
    rfl
  rw [classifyNormal, if_neg (by simp), if_pos ⟨by simp, by rw [getLast?_concat]⟩, hinner]
  simp only [h]

/-- **What `classifyHost` passes**: nothing, or a public literal, root dot
aside. -/
theorem classifyHost_eq_none_iff :
    classifyHost lc s nat64 = none ↔ PassedAs nat64 (stripDot s) := by
  refine ⟨passedAs_of_classifyHost, fun h => ?_⟩
  rw [classifyHost, stripDot_lower]
  rcases h with h | ⟨m, g, ht, hg, hpub⟩ | ⟨v, hv, hpub⟩
  · rw [h]
    rfl
  · rw [ht, lowerFrom_brackets, classifyNormal_of_brackets (parseIpv6_lowerFrom hg 1), hpub]
    rfl
  · rw [classifyNormal_of_ipv4 (parseIpv4_lowerFrom hv 0), hpub]
    rfl

end Hosts

/-! ## what `classifyAddress` takes for public -/

/-- The text of an address, without its zone. -/
def address (y : JsString) : JsString := y.takeWhile (· ≠ unit '%')

/-- `ip` is the text `y`, bare or in brackets. -/
def Wraps (ip y : JsString) : Prop := ip = y ∨ ip = unit '[' :: y ++ [unit ']']

/-- The texts of a public address. -/
def PublicLiteral (nat64 : Option Nat64Prefix) (ip : JsString) : Prop :=
  (∃ v, Ipv4Text ip v ∧ classifyIpv4 v = none) ∨
    ∃ y g, Wraps ip y ∧ Rfc4291 (address y) g ∧ classifyIpv6 g nat64 = none

/-- The malformed texts that count as one: the surplus texts, and a bracketed
text with a zone and a root dot. -/
def Misread (nat64 : Option Nat64Prefix) (ip : JsString) : Prop :=
  ∃ y g, classifyIpv6 g nat64 = none ∧
    (Wraps ip y ∧ Surplus (address y) g ∨
      ip = unit '[' :: y ++ [unit ']'] ++ [unit '.'] ∧ unit '%' ∈ y ∧
        (Rfc4291 (address y) g ∨ Surplus (address y) g))

section Addresses

variable {lc : LowerCase} {nat64 : Option Nat64Prefix} {ip y : JsString} {g : Groups}

theorem parseIpv6_iff : parseIpv6 y = some g ↔ Rfc4291 (address y) g ∨ Surplus (address y) g :=
  parseGroups_iff

theorem marks_of_parseIpv6 (h : parseIpv6 y = some g) :
    unit ':' ∈ y ∧ y.head? ≠ some (unit '[') := by
  constructor
  · by_contra hno
    have hnone : parseIpv6 y = none :=
      parseGroups_eq_none_of_no_colon fun hm => hno ((List.takeWhile_prefix _).subset hm)
    rw [hnone] at h
    contradiction
  · intro hh
    obtain ⟨xs, rfl⟩ := List.head?_eq_some_iff.mp hh
    have hmem : unit '[' ∈ (unit '[' :: xs).takeWhile (· ≠ unit '%') := by
      rw [List.takeWhile_cons_of_pos (by decide)]
      simp
    exact (ne_mark_of_ipv6Unit (units_of_parseGroups h _ hmem)).1 rfl

theorem bracketed_brackets (rest : JsString) : bracketed (unit '[' :: rest) = unit '[' :: rest := by
  rw [bracketed, if_neg fun h => h.2 rfl]

theorem stripDot_brackets (m : JsString) :
    stripDot (unit '[' :: m ++ [unit ']']) = unit '[' :: m ++ [unit ']'] := by
  rw [stripDot, if_neg]
  rw [getLast?_concat]
  decide

theorem classifyAddress_none_iff {nat64Prefix : Option JsString} :
    classifyAddress lc ip nat64Prefix = none ↔
      PassedAs (parseNat64Prefix nat64Prefix) (stripDot (bracketed ip)) ∧ IsIpLiteral ip := by
  constructor
  · intro h
    have hhost : classifyHost lc (bracketed ip) (parseNat64Prefix nat64Prefix) = none := by
      rw [classifyAddress] at h
      split at h
      · assumption
      · contradiction
      · contradiction
    exact ⟨classifyHost_eq_none_iff.mp hhost, (classifyAddress_eq_none_iff hhost).mp h⟩
  · rintro ⟨hpass, hlit⟩
    exact (classifyAddress_eq_none_iff (classifyHost_eq_none_iff.mpr hpass)).mpr hlit

theorem public_or_misread (hpass : PassedAs nat64 (stripDot (bracketed ip)))
    (hlit : IsIpLiteral ip) : PublicLiteral nat64 ip ∨ Misread nat64 ip := by
  have hread {y : JsString} {g : Groups} (hw : Wraps ip y) (hg : parseIpv6 y = some g)
      (hpub : classifyIpv6 g nat64 = none) : PublicLiteral nat64 ip ∨ Misread nat64 ip := by
    cases parseIpv6_iff.mp hg with
    | inl hrfc => exact .inl (.inr ⟨y, g, hw, hrfc, hpub⟩)
    | inr hs => exact .inr ⟨y, g, hpub, .inl ⟨hw, hs⟩⟩
  have hne : ip ≠ [] := by
    rintro rfl
    revert hlit
    unfold IsIpLiteral
    decide
  have hdot := (isIpLiteral_iff hne hpass.passing).mp hlit
  by_cases hb : unit ':' ∈ ip ∧ ip.head? ≠ some (unit '[')
  · rw [bracketed, if_pos hb, stripDot_brackets] at hpass
    rcases hpass with h | ⟨m, g, hm, hg, hpub⟩ | ⟨v, hv, -⟩
    · simp at h
    · obtain rfl : ip = m := by simpa using hm
      exact hread (.inl rfl) hg hpub
    · rw [parseIpv4_eq_none_of_mem (u := unit '[') (by simp) (.inl rfl)] at hv
      contradiction
  · rw [bracketed, if_neg hb] at hpass
    cases stripDot_cases ip with
    | inl hlast =>
      rw [hlast.2] at hpass
      rcases hpass with h | ⟨m, g, hm, hg, hpub⟩ | ⟨v, hv, hpub⟩
      · exact absurd h hne
      · exact hread (.inr hm) hg hpub
      · exact .inl (.inl ⟨v, parseIpv4_iff.mp hv, hpub⟩)
    | inr hlast =>
      rcases hpass with h | ⟨m, g, hm, hg, hpub⟩ | ⟨v, hv, -⟩
      · have hroot : ¬ IsIpLiteral ([] ++ [unit '.']) := by unfold IsIpLiteral; decide
        rw [hlast, h] at hlit
        exact absurd hlit hroot
      · rw [hm] at hlast
        refine .inr ⟨m, g, hpub, .inr ⟨hlast, ?_, parseIpv6_iff.mp hg⟩⟩
        by_contra hpct
        refine hdot ⟨by rw [hlast, getLast?_concat], ?_, .inl (by rw [hlast]; rfl)⟩
        have hne : unit '%' ≠ unit '[' ∧ unit '%' ≠ unit ']' ∧ unit '%' ≠ unit '.' := by decide
        rw [hlast]
        simpa [hne] using hpct
      · rw [hlast] at hlit
        exact absurd hlit (not_isIpLiteral_of_ipv4_dot (by rw [hv]; rfl)).1

theorem passes_of_public_or_misread (h : PublicLiteral nat64 ip ∨ Misread nat64 ip) :
    PassedAs nat64 (stripDot (bracketed ip)) ∧ IsIpLiteral ip := by
  have hwrap {y : JsString} {g : Groups} (hw : Wraps ip y) (hg : parseIpv6 y = some g)
      (hpub : classifyIpv6 g nat64 = none) :
      PassedAs nat64 (stripDot (bracketed ip)) ∧ IsIpLiteral ip := by
    rcases hw with rfl | rfl
    · obtain ⟨hcolon, hopen⟩ := marks_of_parseIpv6 hg
      rw [bracketed, if_pos ⟨hcolon, hopen⟩, stripDot_brackets, IsIpLiteral, bare, if_neg hopen, hg]
      exact ⟨.inr (.inl ⟨_, g, rfl, hg, hpub⟩), .inr rfl⟩
    · rw [cons_append, bracketed_brackets, ← cons_append, stripDot_brackets, IsIpLiteral,
        bare_brackets, hg]
      exact ⟨.inr (.inl ⟨_, g, rfl, hg, hpub⟩), .inr rfl⟩
  rcases h with (⟨v, hv, hpub⟩ | ⟨y, g, hw, hrfc, hpub⟩) | ⟨y, g, hpub, ⟨hw, hs⟩ | ⟨rfl, hpct, hg⟩⟩
  · have hv := parseIpv4_iff.mpr hv
    have hcolon : unit ':' ∉ ip := fun hm =>
      (ne_mark_of_ipv4Unit ((units_of_parseIpv4 hv).2 _ hm)).2.2.2 rfl
    have hstrip : stripDot ip = ip := by
      cases stripDot_cases ip with
      | inl h => exact h.2
      | inr h =>
        rw [h, parseIpv4_append_dot] at hv
        contradiction
    rw [bracketed, if_neg fun h => hcolon h.1, hstrip, IsIpLiteral, bare_of_ipv4 (by rw [hv]; rfl),
      hv]
    exact ⟨.inr (.inr ⟨v, hv, hpub⟩), .inl rfl⟩
  · exact hwrap hw (parseIpv6_iff.mpr (.inl hrfc)) hpub
  · exact hwrap hw (parseIpv6_iff.mpr (.inr hs)) hpub
  · have hg := parseIpv6_iff.mpr hg
    have hlit : IsIpLiteral (unit '[' :: y ++ [unit ']'] ++ [unit '.']) :=
      (isIpLiteral_brackets_dot (by rw [hg]; rfl)).mpr fun hd => hd.2.1 (by simp [hpct])
    refine ⟨?_, hlit⟩
    rw [cons_append, cons_append, bracketed_brackets,
      ← cons_append, stripDot_append_dot]
    exact .inr (.inl ⟨y, g, rfl, hg, hpub⟩)

theorem not_public_of_misread (h : Misread nat64 ip) : ¬ PublicLiteral nat64 ip := by
  obtain ⟨y, g, -, hform⟩ := h
  have hparse : ∃ y g, parseIpv6 y = some g ∧
      (Wraps ip y ∧ Surplus (address y) g ∨ ip = unit '[' :: y ++ [unit ']'] ++ [unit '.']) := by
    rcases hform with ⟨hw, hs⟩ | ⟨hip, -, hg⟩
    · exact ⟨y, g, parseIpv6_iff.mpr (.inr hs), .inl ⟨hw, hs⟩⟩
    · exact ⟨y, g, parseIpv6_iff.mpr hg, .inr hip⟩
  obtain ⟨y, g, hg, hform⟩ := hparse
  have hy := marks_of_parseIpv6 hg
  rintro (⟨v, hv, -⟩ | ⟨y', g', hw', hrfc, -⟩)
  · have hv := parseIpv4_iff.mpr hv
    have hunits := fun u hu => ne_mark_of_ipv4Unit ((units_of_parseIpv4 hv).2 u hu)
    rcases hform with ⟨rfl | rfl, -⟩ | rfl
    · exact (hunits _ hy.1).2.2.2 rfl
    · exact (hunits (unit '[') (by simp)).1 rfl
    · exact (hunits (unit '[') (by simp)).1 rfl
  · have hy' := marks_of_parseIpv6 (parseIpv6_iff.mpr (.inl hrfc))
    rcases hform with ⟨hw, hs⟩ | hip
    · rcases hw with rfl | rfl <;> rcases hw' with hw' | hw'
      · exact not_rfc4291_of_surplus (hw' ▸ hs) hrfc
      · exact hy.2 (by rw [hw']; rfl)
      · exact hy'.2 (by rw [← hw']; rfl)
      · obtain rfl : y = y' := by simpa using hw'
        exact not_rfc4291_of_surplus hs hrfc
    · rcases hw' with hw' | hw'
      · exact hy'.2 (by rw [← hw', hip]; rfl)
      · have := congrArg List.getLast? (hip.symm.trans hw')
        rw [getLast?_concat, getLast?_concat] at this
        exact absurd this (by decide)

end Addresses

/-- **Literals, exactly**: `parseIpv6` reads the textual forms and nothing else
except the surplus texts, and `classifyAddress` passes texts of public
addresses only except the misread ones. -/
theorem literals_exact (lc : LowerCase) (nat64Prefix : Option JsString) (s : JsString) :
    ((∀ g, parseIpv6 s = some g ↔ Rfc4291 (address s) g) ↔ ¬ ∃ g, Surplus (address s) g) ∧
      ((classifyAddress lc s nat64Prefix = none → PublicLiteral (parseNat64Prefix nat64Prefix) s) ↔
        ¬ Misread (parseNat64Prefix nat64Prefix) s) := by
  constructor
  · constructor
    · rintro hexact ⟨g, hs⟩
      exact not_rfc4291_of_surplus hs ((hexact g).mp (parseIpv6_iff.mpr (.inr hs)))
    · intro hno g
      rw [parseIpv6_iff]
      exact or_iff_left fun hs => hno ⟨g, hs⟩
  · rw [classifyAddress_none_iff]
    constructor
    · intro hsound hm
      exact not_public_of_misread hm (hsound (passes_of_public_or_misread (.inr hm)))
    · rintro hno ⟨hpass, hlit⟩
      exact (public_or_misread hpass hlit).resolve_right hno

/-- `2606:4700:1:2::3:4:5:6` is no address, and parses and classifies as a public
one. -/
theorem literals_refuted :
    ¬ ∀ (lc : LowerCase) (nat64Prefix : Option JsString) (s : JsString),
      (∀ g, parseIpv6 s = some g ↔ Rfc4291 (address s) g) ∧
        (classifyAddress lc s nat64Prefix = none →
          PublicLiteral (parseNat64Prefix nat64Prefix) s) := by
  intro h
  have hs : address (js "2606:4700:1:2::3:4:5:6") =
      compressed [js "2606", js "4700", js "1", js "2"] [js "3", js "4", js "5", js "6"] := by
    decide +kernel
  have hsurplus : Surplus (address (js "2606:4700:1:2::3:4:5:6"))
      #v[0x2606, 0x4700, 1, 2, 3, 4, 5, 6] := by
    have hhead : Mixed [js "2606", js "4700", js "1", js "2"] [0x2606, 0x4700, 1, 2] :=
      expandTokens_iff.mp (by decide +kernel)
    have htail : Mixed [js "3", js "4", js "5", js "6"] [3, 4, 5, 6] :=
      expandTokens_iff.mp (by decide +kernel)
    rw [hs]
    exact .mk hhead htail (by decide) rfl (.inl rfl)
  have hpublic := (h .minimal none (js "2606:4700:1:2::3:4:5:6")).2 (by decide +kernel)
  exact not_public_of_misread ⟨_, _, by decide, .inl ⟨.inl rfl, hsurplus⟩⟩ hpublic

end BunServe.SafeUrl
