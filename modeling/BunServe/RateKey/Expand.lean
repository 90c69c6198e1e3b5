import BunServe.RateKey
import BunServe.SafeUrl.Grammar
import Mathlib.Data.List.Induction
import Mathlib.Data.List.TakeDrop

/-!
# BunServe.RateKey.Expand

What `expandIpv6` reads.

The texts are those of `SafeUrl.Grammar`: `Reads y g` says that `y` is a textual
form of `g`, or one with a `::` that stands for no group (`NoGroup`), which this
parser reads as well.  `reads_of_expandIpv6` and `expandIpv6_of_reads` are the
two directions, the second for lowercase texts.  An embedded IPv4 tail is
replaced by two groups before the text is split and put back afterwards
(`colons_tail`, `compressed_tail`).
-/

namespace BunServe.RateKey

open SafeUrl
open List (all_append all_cons append_assoc map_take mem_append replicate)

/-! ## hexadecimal numbers -/

theorem hexDigit_unit {d : Nat} (hd : d < 16) :
    isLowerHexDigit (unit (Nat.digitChar d)) = true ∧
      hexVal? (unit (Nat.digitChar d)) = some d := by
  have h : ∀ d < 16, isLowerHexDigit (unit (Nat.digitChar d)) = true ∧
      hexVal? (unit (Nat.digitChar d)) = some d := by decide
  exact h d hd

theorem parseInt_append (base : Nat) (s : JsString) (u : UInt16) :
    parseInt base (s ++ [u]) = parseInt base s * base + (hexVal? u).getD 0 := by
  simp [parseInt]

theorem parseInt_hexText (n : Nat) : parseInt 16 (hexText n) = n := by
  induction n using Nat.strongRecOn with
  | ind n ih =>
    by_cases hn : n < 16
    · rw [hexText, Nat.toDigits_of_lt_base hn]
      simp [parseInt, (hexDigit_unit hn).2]
    · have hd : n % 16 < 16 := Nat.mod_lt _ (by omega)
      have ih := ih (n / 16) (by omega)
      rw [hexText] at ih
      rw [hexText, Nat.toDigits_of_base_le (by omega) (by omega), List.map_append, List.map_cons,
        List.map_nil, parseInt_append, ih, (hexDigit_unit hd).2]
      show n / 16 * 16 + n % 16 = n
      omega

theorem hexText_digits (n : Nat) : (hexText n).all isLowerHexDigit = true := by
  induction n using Nat.strongRecOn with
  | ind n ih =>
    by_cases hn : n < 16
    · rw [hexText, Nat.toDigits_of_lt_base hn]
      simp [(hexDigit_unit hn).1]
    · have hd : n % 16 < 16 := Nat.mod_lt _ (by omega)
      have ih := ih (n / 16) (by omega)
      rw [hexText] at ih
      rw [hexText, Nat.toDigits_of_base_le (by omega) (by omega), List.map_append, all_append,
        ih]
      simp [(hexDigit_unit hd).1]

theorem hexText_length {n : Nat} (hn : n < 65536) :
    1 ≤ (hexText n).length ∧ (hexText n).length ≤ 4 := by
  rw [hexText, List.length_map]
  exact ⟨Nat.length_toDigits_pos, (Nat.length_toDigits_le_iff (by omega) (by omega)).mpr hn⟩

theorem hexText_inj {n m : Nat} (h : hexText n = hexText m) : n = m := by
  rw [← parseInt_hexText n, h, parseInt_hexText]

/-- No unit is an upper-case hexadecimal digit. -/
def Lower (s : JsString) : Prop := ∀ u ∈ s, u < 65 ∨ 70 < u

theorem isGroup_iff {tok : JsString} : isGroup tok = true ↔
    HexGroup tok (BitVec.ofNat 16 (parseInt 16 tok)) ∧ Lower tok := by
  have hall : tok.all isLowerHexDigit = true ↔ tok.all isHexDigit = true ∧ Lower tok := by
    simp only [List.all_eq_true, isLowerHexDigit, Bool.and_eq_true]
    constructor
    · intro h
      exact ⟨fun u hu => (h u hu).1, fun u hu => by simpa using (h u hu).2⟩
    · intro ⟨h, hl⟩ u hu
      exact ⟨h u hu, by simpa using hl u hu⟩
  simp only [isGroup, Bool.and_eq_true, decide_eq_true_eq, hall]
  constructor
  · intro ⟨⟨h1, h4⟩, hd, hl⟩
    exact ⟨⟨h1, h4, hd, rfl⟩, hl⟩
  · intro ⟨h, hl⟩
    exact ⟨⟨h.pos, h.le⟩, h.digits, hl⟩

theorem isGroup_hexText {n : Nat} (hn : n < 65536) : isGroup (hexText n) = true := by
  simp only [isGroup, Bool.and_eq_true, decide_eq_true_eq]
  exact ⟨hexText_length hn, hexText_digits n⟩

theorem hexVal?_lt (u : UInt16) : (hexVal? u).getD 0 < 16 := by
  unfold hexVal?
  simp only [UInt16.le_iff_toNat_le]
  grind

theorem parseInt_lt (s : JsString) : parseInt 16 s < 16 ^ s.length := by
  induction s using List.reverseRec with
  | nil => simp [parseInt]
  | append_singleton s u ih =>
    have := hexVal?_lt u
    rw [parseInt_append, List.length_append, List.length_singleton]
    omega

theorem parseInt_lt_of_group {tok : JsString} {x : BitVec 16} (h : HexGroup tok x) :
    parseInt 16 tok < 65536 :=
  Nat.lt_of_lt_of_le (parseInt_lt tok) (Nat.pow_le_pow_right (by omega) h.le)

/-! ## around the last colon -/

variable {b : JsString}

theorem splitLast_append {c : UInt16} {a : JsString} (h : c ∉ a) :
    splitLast c (b ++ c :: a) = some (b, a) := by
  have hpos : ∀ u ∈ a.reverse, decide (u ≠ c) = true := by
    intro u hu
    rw [decide_eq_true_eq]
    rintro rfl
    exact h (List.mem_reverse.mp hu)
  have hrev : (b ++ c :: a).reverse = a.reverse ++ (c :: b.reverse) := by simp
  rw [splitLast, List.span_eq_takeWhile_dropWhile, hrev, List.takeWhile_append_of_pos hpos,
    List.dropWhile_append_of_pos hpos]
  simp

theorem splitLast_eq_none {c : UInt16} {s : JsString} (h : c ∉ s) : splitLast c s = none := by
  have hall : ∀ u ∈ s.reverse, decide (u ≠ c) = true := by
    intro u hu
    rw [decide_eq_true_eq]
    rintro rfl
    exact h (List.mem_reverse.mp hu)
  rw [splitLast, List.span_eq_takeWhile_dropWhile, List.dropWhile_eq_nil_iff.mpr hall]

/-- What `lastColon` cuts off has no colon, and it cuts behind one. -/
theorem lastColon_cases (host : JsString) :
    host = (lastColon host).1 ++ (lastColon host).2 ∧ unit ':' ∉ (lastColon host).2 ∧
      ((lastColon host).1 = [] ∨ ∃ b, (lastColon host).1 = b ++ [unit ':']) := by
  by_cases h : unit ':' ∈ host
  · obtain ⟨a, b, hab, ha⟩ := List.eq_append_cons_of_mem (List.mem_reverse.mpr h)
    have hrev : host = b.reverse ++ unit ':' :: a.reverse := by
      have := congrArg List.reverse hab
      simpa using this
    rw [hrev, lastColon, splitLast_append (by simpa using ha)]
    exact ⟨by simp, by simpa using ha, .inr ⟨_, rfl⟩⟩
  · rw [lastColon, splitLast_eq_none h]
    exact ⟨rfl, h, .inl rfl⟩

theorem lastColon_append {last : JsString} (h : unit ':' ∉ last)
    (hb : b = [] ∨ ∃ q, b = q ++ [unit ':']) : lastColon (b ++ last) = (b, last) := by
  rcases hb with rfl | ⟨q, rfl⟩
  · rw [List.nil_append, lastColon, splitLast_eq_none h]
  · rw [append_assoc, List.singleton_append, lastColon, splitLast_append h]

/-! ## tokens -/

/-- The tokens are not empty and have no colon. -/
def Good (toks : List JsString) : Prop := ∀ t ∈ toks, t ≠ [] ∧ unit ':' ∉ t

/-- What stands before a last token. -/
def before (toks : List JsString) : JsString :=
  if toks = [] then [] else colons toks ++ [unit ':']

theorem colons_concat (toks : List JsString) (x : JsString) :
    colons (toks ++ [x]) = before toks ++ x := by
  induction toks with
  | nil => simp [colons, before]
  | cons t toks ih =>
    cases toks with
    | nil => simp [colons, before]
    | cons t' toks =>
      simp only [colons, before, List.cons_append, List.intercalate_cons_cons] at ih ⊢
      rw [ih]
      simp

theorem colons_concat_two (toks : List JsString) :
    colons (toks ++ [js "0", js "0"]) = before toks ++ js "0:0" := by
  have h : toks ++ [js "0", js "0"] = (toks ++ [js "0"]) ++ [js "0"] := by simp
  have hjs : js "0:0" = js "0" ++ unit ':' :: js "0" := by decide
  rw [h, colons_concat, before, colons_concat, hjs]
  simp

theorem before_cases (toks : List JsString) :
    before toks = [] ∨ ∃ q, before toks = q ++ [unit ':'] := by
  rw [before]
  split
  · exact .inl rfl
  · exact .inr ⟨_, rfl⟩

theorem splitOn_zeros (hb : b = [] ∨ ∃ q, b = q ++ [unit ':']) :
    ∃ toks, b = before toks ∧ (b ++ js "0:0").splitOn (unit ':') = toks ++ [js "0", js "0"] := by
  have hzeros : (js "0:0").splitOn (unit ':') = [js "0", js "0"] := by decide
  rcases hb with rfl | ⟨q, rfl⟩
  · exact ⟨[], rfl, hzeros⟩
  · refine ⟨q.splitOn (unit ':'), ?_, ?_⟩
    · rw [before, if_neg (List.splitOn_ne_nil _ _), colons, List.intercalate_splitOn]
    · rw [append_assoc, List.singleton_append, List.splitOn_append_cons_self, hzeros]

variable {toks : List JsString}

theorem splitGroups_colons (h : Good toks) : splitGroups (colons toks) = toks := by
  rw [splitGroups]
  split
  · next hnil => rw [(colons_eq_nil h).mp hnil]
  · next hnil =>
    exact splitOn_colons h fun he => hnil ((colons_eq_nil h).mpr he)

theorem colons_splitGroups (s : JsString) : colons (splitGroups s) = s := by
  rw [splitGroups]
  split
  · next h => rw [h]; rfl
  · exact List.intercalate_splitOn _

/-- The fill between two runs. -/
def fill (head tail : List JsString) : List JsString :=
  head ++ replicate (8 - head.length - tail.length) (js "0") ++ tail

theorem spread_colons (h : Good toks) (h8 : toks.length = 8) :
    spread (colons toks) = some toks := by
  rw [spread, splitOnTwice_colons h]
  simp only [splitGroups_colons h, h8, if_true]

variable {head tail : List JsString}

theorem spread_compressed (hh : Good head) (ht : Good tail) (h8 : head.length + tail.length ≤ 8) :
    spread (compressed head tail) = some (fill head tail) := by
  rw [spread, splitOnTwice_compressed hh ht]
  simp only [splitGroups_colons hh, splitGroups_colons ht, h8]
  rfl

/-- What `spread` splits. -/
theorem spread_some {s : JsString} {gs : List JsString} (h : spread s = some gs) :
    (gs = splitGroups s ∧ gs.length = 8) ∨
      ∃ l r, s = l ++ unit ':' :: unit ':' :: r ∧ gs = fill (splitGroups l) (splitGroups r) ∧
        (splitGroups l).length + (splitGroups r).length ≤ 8 := by
  have hjoin := intercalate_splitOnTwice (unit ':') s
  rw [spread] at h
  split at h
  · next text hs =>
    rw [hs, List.intercalate_singleton] at hjoin
    simp only at h
    obtain ⟨h8, ⟨⟩⟩ := Option.ite_none_right_eq_some.mp h
    exact .inl ⟨by rw [hjoin], h8⟩
  · next l r hs =>
    rw [hs] at hjoin
    simp only at h
    obtain ⟨h8, ⟨⟩⟩ := Option.ite_none_right_eq_some.mp h
    exact .inr ⟨l, r, by rw [← hjoin]; simp, rfl, h8⟩
  · contradiction

/-- The two groups put in for an embedded IPv4 tail are behind the `::`. -/
theorem zeros_behind {l r : JsString} (hb : b = [] ∨ ∃ q, b = q ++ [unit ':'])
    (h : b ++ js "0:0" = l ++ unit ':' :: unit ':' :: r) :
    ∃ b', b = l ++ unit ':' :: unit ':' :: b' ∧ r = b' ++ js "0:0" ∧
      (b' = [] ∨ ∃ q, b' = q ++ [unit ':']) := by
  have hjs : js "0:0" = [unit '0', unit ':', unit '0'] := by decide
  have h0 : unit '0' ≠ unit ':' := by decide
  have h : b ++ js "0:0" = (l ++ [unit ':', unit ':']) ++ r := by simpa using h
  rcases List.append_eq_append_iff.mp h with ⟨c, hl, hr⟩ | ⟨c, hb', hr⟩
  · -- `c` would be a piece of `0:0` that ends in two colons, or nothing
    rw [hjs] at hr
    match c with
    | [] => exact ⟨[], by simpa using hl.symm, hr.symm, .inl rfl⟩
    | [u] =>
      have := congrArg List.getLast? hl
      simp at hr
      simp [← hr.1] at this
      exact absurd this.symm h0
    | [u, v] =>
      simp at hr
      have := (List.append_inj' hl rfl).2
      simp [← hr.1] at this
      exact absurd this.1.symm h0
    | [u, v, w] =>
      have := congrArg List.getLast? hl
      simp at hr
      simp [← hr.2.2.1] at this
      exact absurd this.symm h0
    | _ :: _ :: _ :: _ :: _ => simp at hr
  · refine ⟨c, by simpa using hb', hr, ?_⟩
    rcases List.eq_nil_or_concat c with hc | ⟨c', u, hc⟩
    · exact .inl hc
    · right
      rcases hb with hb | ⟨q, hq⟩
      · rw [hb] at hb'
        simp at hb'
      · rw [hc, List.concat_eq_append, ← append_assoc] at hb'
        have := (List.append_inj' (hq.symm.trans hb') rfl).2
        exact ⟨c', by rw [hc, List.concat_eq_append, ← this]⟩

/-! ## the embedded IPv4 tail -/

theorem tailGroups_iff {last t₁ t₂ : JsString} : tailGroups last = some (t₁, t₂) ↔
    ∃ x y, DottedQuad last x y ∧ t₁ = hexText x.toNat ∧ t₂ = hexText y.toNat := by
  have hval {a b : Nat} (ha : a ≤ 255) (hb : b ≤ 255) :
      (BitVec.ofNat 16 (a * 256 + b)).toNat = a * 256 + b := by
    rw [BitVec.toNat_ofNat, Nat.mod_eq_of_lt (by omega)]
  constructor
  · intro h
    rw [tailGroups] at h
    split at h
    · contradiction
    next hlen =>
    obtain ⟨hall, h⟩ := Option.ite_none_right_eq_some.mp h
    have hjoin : [unit '.'].intercalate (last.splitOn (unit '.')) = last :=
      List.intercalate_splitOn _
    obtain ⟨p, q, r, s, hparts⟩ := List.length_eq_four.mp (not_not.mp hlen)
    rw [hparts] at h hall hjoin
    have hoct (t : JsString) (ht : t ∈ [p, q, r, s]) : Octet t (parseInt 10 t) := by
      have := List.all_eq_true.mp hall t ht
      simp only [Bool.and_eq_true, decide_eq_true_eq] at this
      exact ⟨this.1.1.1, this.1.1.2, this.1.2, rfl, this.2⟩
    have hp := hoct p (by simp)
    have hq := hoct q (by simp)
    have hr := hoct r (by simp)
    have hs := hoct s (by simp)
    simp only [List.map_cons, List.getD_cons_zero, List.getD_cons_succ,
      Option.some.injEq, Prod.mk.injEq] at h
    have hquad := DottedQuad.mk hp hq hr hs
    rw [hjoin] at hquad
    refine ⟨_, _, hquad, ?_, ?_⟩
    · rw [hval hp.lt hq.lt, h.1]
    · rw [hval hr.lt hs.lt, h.2]
  · rintro ⟨x, y, ⟨hp, hq, hr, hs⟩, rfl, rfl⟩
    rename_i p q r s a b c d
    have hsplit : ([unit '.'].intercalate [p, q, r, s]).splitOn (unit '.') = [p, q, r, s] := by
      refine List.splitOn_intercalate _ ?_ (by simp)
      simpa using ⟨hp.good.2, hq.good.2, hr.good.2, hs.good.2⟩
    have hall : ([p, q, r, s].all fun o =>
        1 ≤ o.length && o.length ≤ 3 && o.all isDigit && parseInt 10 o ≤ 255) = true := by
      have hok {t : JsString} {n : Nat} (h : Octet t n) : (decide (1 ≤ t.length) &&
          decide (t.length ≤ 3) && t.all isDigit && decide (parseInt 10 t ≤ 255)) = true := by
        simp only [Bool.and_eq_true, decide_eq_true_eq]
        exact ⟨⟨⟨h.pos, h.le⟩, h.digits⟩, h.value ▸ h.lt⟩
      simp only [all_cons, List.all_nil, hok hp, hok hq, hok hr, hok hs, Bool.and_true]
    rw [tailGroups]
    simp only [hsplit]
    rw [if_pos hall, hval hp.lt hq.lt, hval hr.lt hs.lt, hp.value, hq.value,
      hr.value, hs.value]
    rfl

/-! ## what the parser reads -/

/-- The texts with a `::` that stands for no group. -/
inductive NoGroup : JsString → Groups → Prop
  | mk {head tail : List JsString} {hs ts : List (BitVec 16)} {g : Groups} :
      List.Forall₂ HexGroup head hs → Mixed tail ts → hs.length + ts.length = 8 →
      g.toList = filled hs ts → NoGroup (compressed head tail) g

/-- `y` is a textual form of `g`, or has a `::` that stands for no group. -/
def Reads (y : JsString) (g : Groups) : Prop := Rfc4291 y g ∨ NoGroup y g

variable {g : Groups}

theorem reads_compressed {hs ts : List (BitVec 16)}
    (hh : List.Forall₂ HexGroup head hs) (ht : Mixed tail ts) (h8 : hs.length + ts.length ≤ 8)
    (hg : g.toList = filled hs ts) : Reads (compressed head tail) g := by
  by_cases h : hs.length + ts.length = 8
  · exact .inr ⟨hh, ht, h, hg⟩
  · exact .inl (.compressed hh ht (by omega) hg)

theorem surplus_of_noGroup {y : JsString} (h : NoGroup y g) : Surplus y g := by
  obtain ⟨hh, ht, h8, hg⟩ := h
  exact ⟨Mixed.of_hex hh, ht, by omega, hg, .inl h8⟩

theorem parseGroups_of_reads {y : JsString} (h : Reads y g) : parseGroups y = some g :=
  parseGroups_iff.mpr (h.imp_right surplus_of_noGroup)

def value (tok : JsString) : BitVec 16 := BitVec.ofNat 16 (parseInt 16 tok)

theorem forall₂_of_isGroup (h : toks.all isGroup = true) :
    List.Forall₂ HexGroup toks (toks.map value) := by
  induction toks with
  | nil => exact .nil
  | cons t toks ih =>
    rw [all_cons, Bool.and_eq_true] at h
    exact .cons (isGroup_iff.mp h.1).1 (ih h.2)

theorem good_of_isGroup (h : toks.all isGroup = true) : Good toks :=
  (Mixed.of_hex (forall₂_of_isGroup h)).good

variable {gs : List (BitVec 16)}

theorem mixed_concat {q : JsString}
    {x y : BitVec 16} (h : List.Forall₂ HexGroup toks gs) (hq : DottedQuad q x y) :
    Mixed (toks ++ [q]) (gs ++ [x, y]) := by
  induction h with
  | nil => exact .quad hq
  | cons ht _ ih => exact .cons ht ih

theorem mixed_cases (h : Mixed toks gs) :
    List.Forall₂ HexGroup toks gs ∨ ∃ T hs q x y, toks = T ++ [q] ∧ gs = hs ++ [x, y] ∧
      List.Forall₂ HexGroup T hs ∧ DottedQuad q x y := by
  induction h with
  | nil => exact .inl .nil
  | quad hq => exact .inr ⟨[], [], _, _, _, rfl, rfl, .nil, hq⟩
  | cons ht _ ih =>
    rcases ih with ih | ⟨T, hs, q, x, y, rfl, rfl, hT, hq⟩
    · exact .inl (.cons ht ih)
    · exact .inr ⟨_ :: T, _ :: hs, q, x, y, rfl, rfl, .cons ht hT, hq⟩

theorem all_isGroup
    (h : List.Forall₂ HexGroup toks gs) (hl : ∀ t ∈ toks, Lower t) : toks.all isGroup = true := by
  induction h with
  | nil => rfl
  | cons ht _ ih =>
    rw [all_cons, Bool.and_eq_true]
    have ht := isGroup_iff.mpr ⟨ht.value ▸ ht, hl _ (by simp)⟩
    exact ⟨ht, ih fun t hm => hl t (List.mem_cons_of_mem _ hm)⟩

def texts (g : Groups) : List JsString := g.toList.map fun x => hexText x.toNat

theorem normalize_some {gs : List JsString} (h : normalize toks = some gs)
    (h8 : toks.length = 8) (hg : g.toList.take 4 = (toks.take 4).map value) :
    toks.all isGroup = true ∧ gs.take 4 = (texts g).take 4 := by
  rw [normalize] at h
  obtain ⟨hall, h⟩ := Option.ite_none_right_eq_some.mp h
  refine ⟨hall, ?_⟩
  have h4 : ((toks.take 4).map fun g => hexText (parseInt 16 g)).length = 4 := by
    simp [h8]
  rw [← Option.some.inj h, List.take_left' h4, texts, ← map_take, hg, List.map_map]
  refine List.map_congr_left fun t ht => ?_
  have ht := isGroup_iff.mp (List.all_eq_true.mp hall t (List.mem_of_mem_take ht))
  rw [Function.comp_apply, value, BitVec.toNat_ofNat,
    Nat.mod_eq_of_lt (parseInt_lt_of_group ht.1)]

theorem isGroup_of_normalize {gs : List JsString} (h : normalize toks = some gs) :
    toks.all isGroup = true := by
  rw [normalize] at h
  split at h
  · assumption
  · contradiction

theorem fill_values (head tail : List JsString) :
    (fill head tail).map value = filled (head.map value) (tail.map value) := by
  have h0 : value (js "0") = 0 := by decide
  simp [fill, filled, h0]

theorem isGroup_of_fill (h : (fill head tail).all isGroup = true) :
    head.all isGroup = true ∧ tail.all isGroup = true := by
  simp only [fill, all_append, Bool.and_eq_true] at h
  exact ⟨h.1.1, h.2⟩

theorem length_fill (h : head.length + tail.length ≤ 8) : (fill head tail).length = 8 := by
  simp only [fill, List.length_append, List.length_replicate]
  omega

theorem exists_toList (gs : List (BitVec 16)) (h : gs.length = 8) : ∃ g : Groups, g.toList = gs :=
  ⟨⟨gs.toArray, h⟩, by simp⟩

variable {h : JsString}

theorem reads_of_spread (hs : spread h = some toks) (hall : toks.all isGroup = true) :
    ∃ g, Reads h g ∧ g.toList = toks.map value ∧ toks.length = 8 := by
  rcases spread_some hs with ⟨rfl, h8⟩ | ⟨l, r, rfl, rfl, h8⟩
  · obtain ⟨g, hg⟩ := exists_toList ((splitGroups h).map value) (by simpa using h8)
    refine ⟨g, .inl ?_, hg, h8⟩
    have := Rfc4291.full (hg ▸ Mixed.of_hex (forall₂_of_isGroup hall))
    rwa [colons_splitGroups] at this
  · obtain ⟨hl, hr⟩ := isGroup_of_fill hall
    have h8' := length_fill h8
    obtain ⟨g, hg⟩ := exists_toList ((fill (splitGroups l) (splitGroups r)).map value)
      (by simpa using h8')
    refine ⟨g, ?_, hg, h8'⟩
    have := reads_compressed (forall₂_of_isGroup hl) (Mixed.of_hex (forall₂_of_isGroup hr))
      (by simpa using h8) (hg.trans (fill_values _ _))
    rwa [compressed, colons_splitGroups, colons_splitGroups] at this

theorem set_last_two {X : List JsString} (h : X.length = 6) (a b t₁ t₂ : JsString) :
    ((X ++ [a, b]).set 6 t₁).set 7 t₂ = X ++ [t₁, t₂] := by
  rw [List.set_append_right _ _ (by omega), List.set_append_right _ _ (by omega), h]
  rfl

theorem splitGroups_zeros (hb : b = [] ∨ ∃ q, b = q ++ [unit ':']) :
    ∃ T, b = before T ∧ splitGroups (b ++ js "0:0") = T ++ [js "0", js "0"] := by
  obtain ⟨T, hT, hsplit⟩ := splitOn_zeros hb
  refine ⟨T, hT, ?_⟩
  rw [splitGroups, hsplit]
  have hjs : js "0:0" ≠ [] := by decide
  simp [hjs]

theorem isGroup_of_two {X : List JsString} {t₁ t₂ : JsString}
    (h : (X ++ [t₁, t₂]).all isGroup = true) : X.all isGroup = true := by
  rw [all_append, Bool.and_eq_true] at h
  exact h.1

theorem reads_of_tail {last t₁ t₂ : JsString}
    (hb : b = [] ∨ ∃ q, b = q ++ [unit ':']) (hs : spread (b ++ js "0:0") = some toks)
    (ht : tailGroups last = some (t₁, t₂)) (hall : ((toks.set 6 t₁).set 7 t₂).all isGroup = true) :
    ∃ g, Reads (b ++ last) g ∧ toks.length = 8 ∧
      g.toList.take 4 = (((toks.set 6 t₁).set 7 t₂).take 4).map value := by
  obtain ⟨x, y, hq, -, -⟩ := tailGroups_iff.mp ht
  rcases spread_some hs with ⟨htoks, h8⟩ | ⟨l, r, hlr, htoks, h8⟩
  · obtain ⟨T, rfl, hT⟩ := splitGroups_zeros hb
    rw [hT] at htoks
    subst htoks
    have h6 : T.length = 6 := by simpa using h8
    rw [set_last_two h6] at hall ⊢
    have hhex := forall₂_of_isGroup (isGroup_of_two hall)
    obtain ⟨g, hg⟩ := exists_toList (T.map value ++ [x, y]) (by simp [h6])
    refine ⟨g, .inl ?_, h8, ?_⟩
    · rw [← colons_concat]
      exact .full (hg ▸ mixed_concat hhex hq)
    · rw [hg, List.take_append_of_le_length (by simp [h6]),
        List.take_append_of_le_length (by omega), map_take]
  · obtain ⟨b', hbl, hr, hb'⟩ := zeros_behind hb hlr
    obtain ⟨T, rfl, hT⟩ := splitGroups_zeros hb'
    rw [hr, hT] at htoks h8
    have h8' := length_fill h8
    have hfill : fill (splitGroups l) (T ++ [js "0", js "0"]) =
        (splitGroups l ++ replicate (8 - (splitGroups l).length - (T.length + 2)) (js "0") ++
          T) ++ [js "0", js "0"] := by simp [fill]
    rw [hfill] at htoks h8'
    subst htoks
    have h6 : (splitGroups l ++ replicate (8 - (splitGroups l).length - (T.length + 2))
        (js "0") ++ T).length = 6 := by
      simp at h8' ⊢
      omega
    rw [set_last_two h6] at hall ⊢
    have hgroups := isGroup_of_two hall
    have hlT : (splitGroups l).all isGroup = true ∧ T.all isGroup = true := by
      simp only [all_append, Bool.and_eq_true] at hgroups
      exact ⟨hgroups.1.1, hgroups.2⟩
    have h0 : value (js "0") = 0 := by decide
    have hg8 : (filled ((splitGroups l).map value) (T.map value ++ [x, y])).length = 8 := by
      simp [filled] at h6 ⊢
      omega
    obtain ⟨g, hg⟩ := exists_toList _ hg8
    refine ⟨g, ?_, h8', ?_⟩
    · have := reads_compressed (forall₂_of_isGroup hlT.1)
        (mixed_concat (forall₂_of_isGroup hlT.2) hq) (by simpa using h8) hg
      rw [compressed, colons_splitGroups, colons_concat] at this
      rw [hbl]
      simpa using this
    · have hvals : filled ((splitGroups l).map value) (T.map value ++ [x, y]) =
          (splitGroups l ++ replicate (8 - (splitGroups l).length - (T.length + 2))
            (js "0") ++ T).map value ++ [x, y] := by simp [filled, h0]
      rw [hg, hvals, List.take_append_of_le_length (by rw [List.length_map, h6]; omega),
        List.take_append_of_le_length (by omega), map_take]

/-- **What `expandIpv6` reads**: an address text, whose first groups it
normalises. -/
theorem reads_of_expandIpv6 {gs : List JsString} (he : expandIpv6 h = some gs) :
    ∃ g, Reads h g ∧ gs.take 4 = (texts g).take 4 := by
  obtain ⟨hcut, -, hb⟩ := lastColon_cases h
  rw [expandIpv6] at he
  simp only at he
  split at he
  · split at he
    · contradiction
    next t₁ t₂ ht =>
    split at he
    · contradiction
    next toks hs =>
    obtain ⟨g, hreads, h8, hg⟩ := reads_of_tail hb hs ht (isGroup_of_normalize he)
    refine ⟨g, by rw [hcut]; exact hreads, (normalize_some he (by simpa using h8) ?_).2⟩
    rw [hg]
  · split at he
    · contradiction
    next toks hs =>
    obtain ⟨g, hreads, hg, h8⟩ := reads_of_spread hs (isGroup_of_normalize he)
    refine ⟨g, hreads, (normalize_some he h8 ?_).2⟩
    rw [hg, map_take]

/-! ## every lowercase text is read -/

theorem mem_colons {u : UInt16} (h : u ∈ colons toks) : u = unit ':' ∨ ∃ t ∈ toks, u ∈ t := by
  induction toks with
  | nil => simp [colons] at h
  | cons t toks ih =>
    cases toks with
    | nil => exact .inr ⟨t, by simp, by simpa [colons] using h⟩
    | cons t' toks =>
      rw [colons, List.intercalate_cons_cons, append_assoc, mem_append,
        mem_append, List.mem_singleton] at h
      rcases h with h | h | h
      · exact .inr ⟨t, by simp, h⟩
      · exact .inl h
      · exact (ih h).imp_right (Exists.imp fun t ht => ⟨List.mem_cons_of_mem _ ht.1, ht.2⟩)

theorem mem_colons_of_mem {t : JsString} {u : UInt16} (ht : t ∈ toks)
    (hu : u ∈ t) : u ∈ colons toks := by
  induction toks with
  | nil => contradiction
  | cons t' toks ih =>
    cases toks with
    | nil =>
      rw [List.mem_singleton.mp ht] at hu
      simpa [colons] using hu
    | cons t'' toks =>
      rw [colons, List.intercalate_cons_cons, append_assoc, mem_append,
        mem_append]
      rcases List.mem_cons.mp ht with rfl | ht
      · exact .inl hu
      · exact .inr (.inr (ih ht))

theorem Lower.token (h : Lower (colons toks)) : ∀ t ∈ toks, Lower t :=
  fun _ ht u hu => h u (mem_colons_of_mem ht hu)

theorem Lower.append {s t : JsString} (h : Lower (s ++ t)) : Lower s ∧ Lower t :=
  ⟨fun u hu => h u (List.mem_append_left _ hu), fun u hu => h u (List.mem_append_right _ hu)⟩

theorem Lower.compressed (h : Lower (compressed head tail)) :
    (∀ t ∈ head, Lower t) ∧ ∀ t ∈ tail, Lower t := by
  obtain ⟨hhead, htail⟩ := Lower.append h
  have htail : Lower (colons tail) := fun u hu =>
    htail u (List.mem_cons_of_mem _ (List.mem_cons_of_mem _ hu))
  exact ⟨hhead.token, htail.token⟩

theorem no_dot (h : List.Forall₂ HexGroup toks gs) : unit '.' ∉ colons toks := by
  intro hm
  rcases mem_colons hm with hcolon | ⟨t, ht, hu⟩
  · exact absurd hcolon (by decide)
  · induction h with
    | nil => contradiction
    | cons hg hrest ih =>
      rcases List.mem_cons.mp ht with rfl | ht
      · exact hg.good.2.2 hu
      · exact ih (mem_colons_of_mem ht hu) ht

theorem isSome_normalize (h : toks.all isGroup = true) : (normalize toks).isSome = true := by
  rw [normalize, if_pos h]
  rfl

theorem expandIpv6_of_plain (hdot : unit '.' ∉ h)
    (hs : spread h = some toks) (hall : toks.all isGroup = true) :
    (expandIpv6 h).isSome = true := by
  have hlast : unit '.' ∉ (lastColon h).2 := by
    intro hm
    refine hdot ?_
    rw [(lastColon_cases h).1]
    exact List.mem_append_right _ hm
  rw [expandIpv6]
  simp only [if_neg hlast, hs]
  exact isSome_normalize hall

theorem expandIpv6_of_tail {q : JsString} {x y : BitVec 16} {X : List JsString}
    (hb : b = [] ∨ ∃ r, b = r ++ [unit ':']) (hq : DottedQuad q x y)
    (hs : spread (b ++ js "0:0") = some (X ++ [js "0", js "0"])) (h6 : X.length = 6)
    (hall : X.all isGroup = true) : (expandIpv6 (b ++ q)).isSome = true := by
  have hcut := lastColon_append hq.good.2.1 hb
  have htail := tailGroups_iff.mpr ⟨x, y, hq, rfl, rfl⟩
  rw [expandIpv6, hcut]
  simp only [if_pos hq.good.2.2, htail, hs, set_last_two h6]
  refine isSome_normalize ?_
  simp only [all_append, hall, all_cons, isGroup_hexText x.isLt, isGroup_hexText y.isLt,
    List.all_nil, Bool.and_true]

theorem isGroup_zero : isGroup (js "0") = true := by decide

/-- **Every lowercase text is read.** -/
theorem expandIpv6_of_reads (hr : Reads h g) (hl : Lower h) : (expandIpv6 h).isSome = true := by
  have hgap {head tail : List JsString} {hs ts : List (BitVec 16)}
      (hh : List.Forall₂ HexGroup head hs) (ht : Mixed tail ts) (h8 : hs.length + ts.length ≤ 8)
      (hl : Lower (compressed head tail)) : (expandIpv6 (compressed head tail)).isSome = true := by
    obtain ⟨hlh, hlt⟩ := hl.compressed
    have hhead := all_isGroup hh hlh
    have hlen := hh.length_eq
    rcases mixed_cases ht with ht | ⟨T, ts', q, x, y, rfl, rfl, hT, hq⟩
    · have htail := all_isGroup ht hlt
      have hlen' := ht.length_eq
      have hdot : unit '.' ∉ compressed head tail := by
        have hne : unit '.' ≠ unit ':' := by decide
        simp [compressed, no_dot hh, no_dot ht, hne]
      refine expandIpv6_of_plain hdot (spread_compressed (good_of_isGroup hhead)
        (good_of_isGroup htail) (by omega)) ?_
      simp [fill, hhead, htail, isGroup_zero]
    · have hlen' := hT.length_eq
      have hTall := all_isGroup hT fun t ht => hlt t (List.mem_append_left _ ht)
      have hzeros : (T ++ [js "0", js "0"]).all isGroup = true := by
        simp [hTall, isGroup_zero]
      have hb : colons head ++ unit ':' :: unit ':' :: before T = [] ∨
          ∃ r, colons head ++ unit ':' :: unit ':' :: before T = r ++ [unit ':'] := by
        right
        rcases before_cases T with hT | ⟨r, hT⟩
        · exact ⟨colons head ++ [unit ':'], by simp [hT]⟩
        · exact ⟨colons head ++ unit ':' :: unit ':' :: r, by simp [hT]⟩
      have hspread := spread_compressed (good_of_isGroup hhead) (good_of_isGroup hzeros)
        (by simp at h8 ⊢; omega)
      have hfill : fill head (T ++ [js "0", js "0"]) =
          (head ++ replicate (8 - head.length - (T.length + 2)) (js "0") ++ T) ++
            [js "0", js "0"] := by simp [fill]
      have happ (s : JsString) : colons head ++ unit ':' :: unit ':' :: (before T ++ s) =
          (colons head ++ unit ':' :: unit ':' :: before T) ++ s := by simp
      rw [hfill, compressed, colons_concat_two, happ] at hspread
      rw [compressed, colons_concat, happ]
      refine expandIpv6_of_tail hb hq hspread (by simp at h8 ⊢; omega) ?_
      simp [hhead, hTall, isGroup_zero]
  rcases hr with hrfc | hno
  · cases hrfc with
    | compressed hh ht h8 _ => exact hgap hh ht (by omega) hl
    | @full toks g hm =>
      rcases mixed_cases hm with hm | ⟨T, ts', q, x, y, rfl, hg, hT, hq⟩
      · have hall := all_isGroup hm hl.token
        have hlen := hm.length_eq
        exact expandIpv6_of_plain (no_dot hm)
          (spread_colons (good_of_isGroup hall) (by simpa using hlen)) hall
      · have hlen := hT.length_eq
        have hlen' := congrArg List.length hg
        have hTall := all_isGroup hT fun t ht => hl.token t (List.mem_append_left _ ht)
        have hzeros : (T ++ [js "0", js "0"]).all isGroup = true := by
          simp [hTall, isGroup_zero]
        have h6 : T.length = 6 := by
          simp at hlen'
          omega
        have hspread := spread_colons (good_of_isGroup hzeros) (by simp [h6])
        rw [colons_concat_two] at hspread
        rw [colons_concat]
        exact expandIpv6_of_tail (before_cases T) hq hspread h6 hTall
  · obtain ⟨hh, ht, h8, -⟩ := hno
    exact hgap hh ht (by omega) hl

end BunServe.RateKey
