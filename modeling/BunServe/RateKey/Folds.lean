import BunServe.RateKey.Expand
import BunServe.SafeUrl.Embedded

/-!
# BunServe.RateKey.Folds

Which values share a bucket.

An address literal has a fold group (`FoldGroup`): the allocation prefix of an
IPv6 address, the address itself where prefixes are shared by unrelated clients
(`Exempt`), an address with its zone, an IPv4 address.  `Denotes s G` says that
the value `s` spells a literal of that group, bare or in brackets with or without
a port.  `fold_spec` is the one fact about `foldToPrefix`: it leaves a value as
it is, or makes of a literal the text of its group.  It also takes some values
that are no literals (`Slipped`): a `::` that stands for no group, and a
bracketed IPv4 address with the port inside.

Main result: `rateLimitKey_folds`.
-/

namespace BunServe.RateKey

open SafeUrl LowerCase
open List (append_nil intercalate_cons_cons intercalate_singleton length_append length_cons map
  takeWhile_append_of_pos takeWhile_cons_of_neg)

/-! ## fold groups -/

/-- What is metered together. -/
inductive FoldGroup where
  | site (b c : BitVec 16)
  | subnet (a b c d : BitVec 16)
  | address (g : Groups)
  | zoned (g : Groups) (zone : JsString)
  | ipv4 (v : BitVec 32)
  deriving DecidableEq

/-- The ranges whose `/64` is shared by unrelated clients: a zero prefix, NAT64,
Teredo, link-local. -/
def Exempt (g : Groups) : Prop :=
  (g.get 0 = 0 ∧ g.get 1 = 0 ∧ g.get 2 = 0 ∧ g.get 3 = 0) ∨ (g.get 0 = 0x64 ∧ g.get 1 = 0xff9b) ∨
    (g.get 0 = 0x2001 ∧ g.get 1 = 0) ∨ g.get 0 &&& 0xffc0 = 0xfe80

instance (g : Groups) : Decidable (Exempt g) := inferInstanceAs (Decidable (_ ∨ _ ∨ _ ∨ _))

/-- The group of an IPv6 address: its `/64`, its `/48` for 6to4. -/
def foldGroup (g : Groups) : FoldGroup :=
  if Exempt g then .address g
  else if g.get 0 = 0x2002 then .site (g.get 1) (g.get 2)
  else .subnet (g.get 0) (g.get 1) (g.get 2) (g.get 3)

def FoldGroup.IsPrefix : FoldGroup → Prop
  | .site _ _ | .subnet _ _ _ _ => True
  | _ => False

/-! ## spellings -/

/-- `s` is `y` in brackets, perhaps with a port. -/
def Bracketed (s y : JsString) : Prop :=
  unit ']' ∉ y ∧ ∃ rest, s = unit '[' :: y ++ unit ']' :: rest ∧
    (rest = [] ∨ ∃ port, rest = unit ':' :: port ∧ isPort port = true)

/-- `s` is `y`, bare or in brackets. -/
def Spells (s y : JsString) : Prop := s = y ∨ Bracketed s y

/-- A dotted quad and its value. -/
inductive Quad : JsString → BitVec 32 → Prop
  | mk {p q r s : JsString} {a b c d : Nat} : Octet p a → Octet q b → Octet r c → Octet s d →
      Quad ([unit '.'].intercalate [p, q, r, s])
        (BitVec.ofNat 32 ((a * 256 + b) * 65536 + (c * 256 + d)))

/-- `s` spells an IPv4 address, which may have a port without brackets too. -/
def SpellsIpv4 (s p : JsString) : Prop :=
  Spells s p ∨ ∃ port, isPort port = true ∧ s = p ++ unit ':' :: port

/-- A text without brackets and port is a literal of the group. -/
inductive Bare : JsString → FoldGroup → Prop
  | ipv6 {y : JsString} {g : Groups} : Rfc4291 y g → Bare y (foldGroup g)
  | zoned {y zone : JsString} {g : Groups} : Rfc4291 y g →
      Bare (y ++ unit '%' :: zone) (.zoned g zone)
  | ipv4 {p : JsString} {v : BitVec 32} : Quad p v → Bare p (.ipv4 v)

/-- A value is a literal of the group. -/
inductive Denotes : JsString → FoldGroup → Prop
  | bare {s y : JsString} {G : FoldGroup} : Bare y G → Spells s y → Denotes s G
  | port {p port : JsString} {v : BitVec 32} : Quad p v → isPort port = true →
      Denotes (p ++ unit ':' :: port) (.ipv4 v)

/-- Values that are folded though they are no literals: a `::` that stands for no
group, and an IPv4 address with its port in brackets. -/
def Slipped (s : JsString) : Prop :=
  (∃ y g, NoGroup y g ∧ (Spells s y ∨ ∃ zone, Spells s (y ++ unit '%' :: zone))) ∨
    ∃ p port v, Quad p v ∧ isPort port = true ∧ Bracketed s (p ++ unit ':' :: port)

/-! ## case -/

variable {x : BitVec 16}

theorem HexGroup.map_lower {tok : JsString} (h : HexGroup tok x) :
    HexGroup (tok.map asciiLower) x :=
  ⟨by simpa using h.pos, by simpa using h.le,
    by rw [all_map_asciiLower isHexDigit_asciiLower]; exact h.digits,
    by rw [parseInt_map_lower]; exact h.value⟩

variable {p : JsString}

theorem Octet.map_lower {n : Nat} (h : Octet p n) : Octet (p.map asciiLower) n :=
  ⟨by simpa using h.pos, by simpa using h.le,
    by rw [all_map_asciiLower isDigit_asciiLower]; exact h.digits,
    by rw [parseInt_map_lower]; exact h.value, h.lt⟩

theorem intercalate_map (f : UInt16 → UInt16) (c : UInt16) (hc : f c = c) (toks : List JsString) :
    ([c].intercalate toks).map f = [c].intercalate (toks.map (map f)) := by
  induction toks with
  | nil => rfl
  | cons t toks ih =>
    cases toks with
    | nil => simp
    | cons t' toks =>
      simp only [List.map_cons, List.map_append, intercalate_cons_cons, List.map_nil,
        hc] at ih ⊢
      rw [ih]

theorem colons_map_lower (toks : List JsString) :
    (colons toks).map asciiLower = colons (toks.map (map asciiLower)) :=
  intercalate_map _ _ (by decide) _

theorem DottedQuad.map_lower {tok : JsString} {y : BitVec 16} (h : DottedQuad tok x y) :
    DottedQuad (tok.map asciiLower) x y := by
  obtain ⟨hp, hq, hr, hs⟩ := h
  rw [intercalate_map _ _ (by decide)]
  exact .mk (Octet.map_lower hp) (Octet.map_lower hq) (Octet.map_lower hr) (Octet.map_lower hs)

variable {toks : List JsString} {gs : List (BitVec 16)}

theorem Mixed.map_lower (h : Mixed toks gs) : Mixed (toks.map (map asciiLower)) gs := by
  induction h with
  | nil => exact .nil
  | quad hq => exact .quad (DottedQuad.map_lower hq)
  | cons ht _ ih => exact .cons (HexGroup.map_lower ht) ih

theorem hex_map_lower (h : List.Forall₂ HexGroup toks gs) :
    List.Forall₂ HexGroup (toks.map (map asciiLower)) gs := by
  induction h with
  | nil => exact .nil
  | cons ht _ ih => exact .cons (HexGroup.map_lower ht) ih

theorem compressed_map_lower (head tail : List JsString) :
    (compressed head tail).map asciiLower =
      compressed (head.map (map asciiLower)) (tail.map (map asciiLower)) := by
  have hcolon : asciiLower (unit ':') = unit ':' := by decide
  simp only [compressed, List.map_append, List.map_cons, hcolon, colons_map_lower]

variable {y : JsString} {g : Groups}

theorem rfc4291_map_lower (h : Rfc4291 y g) : Rfc4291 (y.map asciiLower) g := by
  cases h with
  | full hm =>
    rw [colons_map_lower]
    exact .full (Mixed.map_lower hm)
  | compressed hh ht h8 hg =>
    rw [compressed_map_lower]
    exact .compressed (hex_map_lower hh) (Mixed.map_lower ht) h8 hg

theorem noGroup_map_lower (h : NoGroup y g) : NoGroup (y.map asciiLower) g := by
  obtain ⟨hh, ht, h8, hg⟩ := h
  rw [compressed_map_lower]
  exact .mk (hex_map_lower hh) (Mixed.map_lower ht) h8 hg

/-- A reading is a parse with no dot before the `::`. -/
theorem reads_iff : Reads y g ↔
    parseGroups y = some g ∧ ∀ l r, splitOnTwice (unit ':') y = [l, r] → unit '.' ∉ l := by
  constructor
  · intro h
    refine ⟨parseGroups_of_reads h, fun l r hs => ?_⟩
    have hgap {head tail : List JsString} {hs ts : List (BitVec 16)}
        (hh : List.Forall₂ HexGroup head hs) (ht : Mixed tail ts)
        (hs : splitOnTwice (unit ':') (compressed head tail) = [l, r]) : unit '.' ∉ l := by
      rw [splitOnTwice_compressed (Mixed.of_hex hh).good ht.good] at hs
      rw [← (List.cons.inj hs).1]
      exact no_dot hh
    rcases h with h | h
    · cases h with
      | full hm =>
        rw [splitOnTwice_colons hm.good] at hs
        simp at hs
      | compressed hh ht _ _ => exact hgap hh ht hs
    · obtain ⟨hh, ht, -, -⟩ := h
      exact hgap hh ht hs
  · rintro ⟨hp, hl⟩
    rcases parseGroups_iff.mp hp with h | ⟨hh, ht, h8, hg, -⟩
    · exact .inl h
    · have hdot := hl _ _ (splitOnTwice_compressed hh.good ht.good)
      rcases mixed_cases hh with hhex | ⟨T, hs', q, x, y, rfl, -, -, hq⟩
      · exact reads_compressed hhex ht h8 hg
      · exact absurd (mem_colons_of_mem (by simp) hq.good.2.2) hdot

theorem reads_map_lower : Reads (y.map asciiLower) g ↔ Reads y g := by
  have hcolon : ∀ u, asciiLower u = unit ':' ↔ u = unit ':' := asciiLower_eq_iff (by decide)
  have hdot : ∀ u, asciiLower u = unit '.' ↔ u = unit '.' := asciiLower_eq_iff (by decide)
  constructor
  · intro h
    obtain ⟨hp, hl⟩ := reads_iff.mp h
    rw [parseGroups_map_lower] at hp
    refine reads_iff.mpr ⟨hp, fun l r hs hm => ?_⟩
    refine hl (l.map asciiLower) (r.map asciiLower) ?_ ?_
    · rw [splitOnTwice_map hcolon, hs]
      rfl
    · simpa [hdot] using hm
  · exact fun h => h.imp rfc4291_map_lower noGroup_map_lower

/-! ## dotted quads -/

/-- What is left of an octet after some digits. -/
structure Rest (digits value : Nat) (part : JsString) : Prop where
  pos : 0 < digits + part.length
  le : digits + part.length ≤ 3
  digits : part.all isDigit = true
  lt : part.foldl (fun n u => n * 10 + (hexVal? u).getD 0) value ≤ 255

theorem octet_iff {part : JsString} : Rest 0 0 part ↔ Octet part (parseInt 10 part) :=
  ⟨fun ⟨hp, hl, hd, hv⟩ => ⟨by omega, by omega, hd, rfl, hv⟩,
    fun ⟨hp, hl, hd, _, hv⟩ => ⟨by omega, by omega, hd, hv⟩⟩

theorem hexVal?_of_digit {u : UInt16} (h : isDigit u = true) :
    (hexVal? u).getD 0 = u.toNat - 48 := by
  simp only [isDigit, decide_eq_true_eq] at h
  rw [hexVal?, if_pos h]
  rfl

theorem foldl_ge (part : JsString) (value : Nat) :
    value ≤ part.foldl (fun n u => n * 10 + (hexVal? u).getD 0) value := by
  induction part generalizing value with
  | nil => exact Nat.le_refl _
  | cons u us ih =>
    have := ih (value * 10 + (hexVal? u).getD 0)
    rw [List.foldl_cons]
    omega

theorem rest_cons {digits value : Nat} {c : UInt16} {part : JsString} :
    Rest digits value (c :: part) ↔ isDigit c = true ∧ digits + 1 ≤ 3 ∧
      value * 10 + (c.toNat - 48) ≤ 255 ∧ Rest (digits + 1) (value * 10 + (c.toNat - 48)) part := by
  constructor
  · intro ⟨hp, hl, hd, hv⟩
    rw [List.all_cons, Bool.and_eq_true] at hd
    rw [List.foldl_cons, hexVal?_of_digit hd.1] at hv
    rw [length_cons] at hl
    exact ⟨hd.1, by omega, Nat.le_trans (foldl_ge part _) hv, by omega, by omega, hd.2, hv⟩
  · intro ⟨hc, h3, hv, hr⟩
    have hl := hr.le
    refine ⟨by rw [length_cons]; omega, by rw [length_cons]; omega, ?_, ?_⟩
    · rw [List.all_cons, hc, hr.digits]
      rfl
    · rw [List.foldl_cons, hexVal?_of_digit hc]
      exact hr.lt

theorem rest_nil {digits value : Nat} (hd : digits ≤ 3) (hv : value ≤ 255) :
    Rest digits value [] ↔ 0 < digits :=
  ⟨fun h => h.pos, fun h => ⟨h, hd, rfl, hv⟩⟩

theorem scanIpv4_iff {octets digits value : Nat} (ho : octets ≤ 3) (hd : digits ≤ 3)
    (hv : value ≤ 255) (s : JsString) :
    scanIpv4 octets digits value s = true ↔ ∃ part parts, s.splitOn (unit '.') = part :: parts ∧
      Rest digits value part ∧ (∀ p ∈ parts, Rest 0 0 p) ∧ octets + parts.length = 3 := by
  induction s generalizing octets digits value with
  | nil =>
    simp only [scanIpv4, Bool.and_eq_true, decide_eq_true_eq]
    constructor
    · intro ⟨h3, hpos⟩
      exact ⟨[], [], rfl, (rest_nil hd hv).mpr hpos, by simp, h3⟩
    · rintro ⟨part, parts, hs, hr, -, h3⟩
      obtain ⟨rfl, rfl⟩ := List.cons.inj hs
      exact ⟨h3, (rest_nil hd hv).mp hr⟩
  | cons c cs ih =>
    rw [scanIpv4, List.splitOn_cons_eq_if_modifyHead]
    obtain ⟨q, qs, hq⟩ := List.exists_cons_of_ne_nil (List.splitOn_ne_nil (unit '.') cs)
    rw [hq]
    by_cases hc : c = unit '.'
    · have hb : (c == unit '.') = true := by simpa using hc
      rw [if_pos hc, if_pos hb]
      constructor
      · intro h
        split at h
        · contradiction
        next hstop =>
        simp only [Bool.or_eq_true, decide_eq_true_eq] at hstop
        obtain ⟨p, ps, hs, hr, hall, h3⟩ := (ih (by omega) (by omega) (by omega)).mp h
        rw [hq] at hs
        obtain ⟨rfl, rfl⟩ := List.cons.inj hs
        refine ⟨[], q :: qs, rfl, (rest_nil hd hv).mpr (by omega), ?_, by
          rw [length_cons]; omega⟩
        simpa using ⟨hr, hall⟩
      · rintro ⟨part, parts, hs, hr, hall, h3⟩
        obtain ⟨rfl, rfl⟩ := List.cons.inj hs
        have hpos := (rest_nil hd hv).mp hr
        rw [length_cons] at h3
        rw [if_neg (by simp; omega)]
        refine (ih (by omega) (by omega) (by omega)).mpr ⟨q, qs, hq, hall q (by simp),
          fun p hp => hall p (List.mem_cons_of_mem _ hp), by omega⟩
    · have hb : ¬ (c == unit '.') = true := by simpa using hc
      rw [if_neg hc, if_neg hb]
      constructor
      · intro h
        split at h
        · contradiction
        next hdigit =>
        split at h
        · contradiction
        next h3 =>
        split at h
        · contradiction
        next hval =>
        obtain ⟨p, ps, hs, hr, hall, hlen⟩ := (ih ho (by omega) (by omega)).mp h
        rw [hq] at hs
        obtain ⟨rfl, rfl⟩ := List.cons.inj hs
        have hdigit : isDigit c = true := by simpa using hdigit
        exact ⟨c :: q, qs, rfl, rest_cons.mpr ⟨hdigit, by omega, by omega, hr⟩, hall, hlen⟩
      · rintro ⟨part, parts, hs, hr, hall, hlen⟩
        obtain ⟨rfl, rfl⟩ := List.cons.inj hs
        obtain ⟨hdigit, h3, hval, hr⟩ := rest_cons.mp hr
        rw [if_neg (by simp [hdigit]), if_neg (by omega), if_neg (by omega)]
        exact (ih ho (by omega) hval).mpr ⟨q, qs, hq, hr, hall, hlen⟩

/-- `isIpv4` accepts the dotted quads. -/
theorem isIpv4_iff : isIpv4 p = true ↔ ∃ v, Quad p v := by
  rw [isIpv4, scanIpv4_iff (by omega) (by omega) (by omega)]
  constructor
  · rintro ⟨part, parts, hs, hr, hall, hlen⟩
    have hjoin : [unit '.'].intercalate (p.splitOn (unit '.')) = p := List.intercalate_splitOn _
    obtain ⟨q, r, s, rfl⟩ := List.length_eq_three.mp (show parts.length = 3 by omega)
    rw [hs] at hjoin
    rw [← hjoin]
    exact ⟨_, .mk (octet_iff.mp hr) (octet_iff.mp (hall q (by simp)))
      (octet_iff.mp (hall r (by simp))) (octet_iff.mp (hall s (by simp)))⟩
  · rintro ⟨v, ⟨hp, hq, hr, hs⟩⟩
    rename_i p q r s a b c d
    have hsplit : ([unit '.'].intercalate [p, q, r, s]).splitOn (unit '.') = [p, q, r, s] := by
      refine List.splitOn_intercalate _ ?_ (by simp)
      simpa using ⟨hp.good.2, hq.good.2, hr.good.2, hs.good.2⟩
    have hrest {t : JsString} {n : Nat} (h : Octet t n) : Rest 0 0 t :=
      octet_iff.mpr (h.value ▸ h)
    exact ⟨p, [q, r, s], hsplit, hrest hp, by simpa using ⟨hrest hq, hrest hr, hrest hs⟩, rfl⟩

/-! ## brackets -/

variable {s : JsString}

theorem unwrap_bare (h : s.head? ≠ some (unit '[')) :
    unwrap s = some (s, false) := if_neg h

theorem cut_bracket {rest : JsString} (h : unit ']' ∉ y) :
    (y ++ unit ']' :: rest).takeWhile (· ≠ unit ']') = y ∧
      (y ++ unit ']' :: rest).dropWhile (· ≠ unit ']') = unit ']' :: rest := by
  have hpos : ∀ u ∈ y, decide (u ≠ unit ']') = true := by
    intro u hu
    rw [decide_eq_true_eq]
    rintro rfl
    exact h hu
  rw [takeWhile_append_of_pos hpos, List.dropWhile_append_of_pos hpos, List.dropWhile_cons_of_neg (by simp)]
  simp

theorem unwrap_bracketed (h : Bracketed s y) : unwrap s = some (y, true) := by
  obtain ⟨hy, rest, rfl, hrest⟩ := h
  have hopen : (unit '[' :: y ++ unit ']' :: rest).head? = some (unit '[') := rfl
  have hdrop : (unit '[' :: y ++ unit ']' :: rest).drop 1 = y ++ unit ']' :: rest := rfl
  rw [unwrap, if_pos hopen, hdrop, (cut_bracket hy).1, (cut_bracket hy).2]
  simp only
  rw [if_pos]
  rcases hrest with rfl | ⟨port, rfl, hport⟩
  · exact .inl rfl
  · exact .inr ⟨rfl, hport⟩

theorem unwrap_some {b : Bool} (h : unwrap s = some (y, b)) :
    (b = true ∧ Bracketed s y) ∨ (b = false ∧ s = y) := by
  rw [unwrap] at h
  split at h
  · next hopen =>
    obtain ⟨t, rfl⟩ := List.head?_eq_some_iff.mp hopen
    have hsplit := List.takeWhile_append_dropWhile (p := (· ≠ unit ']')) (l := t)
    simp only [List.drop_succ_cons, List.drop_zero] at h
    split at h
    · contradiction
    rename_i u rest hd
    obtain ⟨hrest, h⟩ := Option.ite_none_right_eq_some.mp h
    obtain ⟨rfl, rfl⟩ := h
    have hu : u = unit ']' := by
      have := List.head?_dropWhile_not (p := (· ≠ unit ']')) t
      rw [hd] at this
      simpa using this
    refine .inl ⟨rfl, fun hm => ?_, rest, ?_, ?_⟩
    · have := List.mem_takeWhile_imp hm
      simp at this
    · rw [hd, hu] at hsplit
      rw [List.cons_append, hsplit]
    · rcases hrest with hrest | ⟨hcolon, hport⟩
      · exact .inl hrest
      · obtain ⟨port, rfl⟩ := List.head?_eq_some_iff.mp hcolon
        exact .inr ⟨port, rfl, hport⟩
  · simp only [Option.some.injEq, Prod.mk.injEq] at h
    exact .inr ⟨h.2.symm, h.1⟩

/-! ## the text of a prefix -/

/-- The key of an allocation prefix. -/
def prefixText (g : Groups) : JsString :=
  let t := fun x : BitVec 16 => hexText x.toNat
  if g.get 0 = 0x2002 then t (g.get 0) ++ js ":" ++ t (g.get 1) ++ js ":" ++ t (g.get 2) ++ js "::"
  else t (g.get 0) ++ js ":" ++ t (g.get 1) ++ js ":" ++ t (g.get 2) ++ js ":" ++ t (g.get 3) ++ js "::"

theorem prefixText_congr {h : Groups} (hgroup : foldGroup g = foldGroup h)
    (hp : (foldGroup g).IsPrefix) : prefixText g = prefixText h := by
  simp only [foldGroup] at hgroup hp
  split at hgroup
  · next hex =>
    rw [if_pos hex] at hp
    exact hp.elim
  · split at hgroup <;> split at hgroup <;> (try split at hgroup) <;>
      simp_all [prefixText]

theorem hexText_eq_iff {n : Nat} (hn : n < 65536)
    (hs : s = hexText n) : hexText x.toNat = s ↔ x = BitVec.ofNat 16 n := by
  rw [hs]
  constructor
  · intro h
    have := hexText_inj h
    exact BitVec.eq_of_toNat_eq (by rw [BitVec.toNat_ofNat, Nat.mod_eq_of_lt hn, this])
  · rintro rfl
    rw [BitVec.toNat_ofNat, Nat.mod_eq_of_lt hn]

theorem foldGroups_eq {gs : List JsString} (h : gs.take 4 = (texts g).take 4)
    (declined : JsString) :
    foldGroups gs declined = if Exempt g then declined else prefixText g := by
  have hget (i : Nat) (hi : i < 4) : gs.getD i [] = hexText g[i].toNat := by
    have := congrArg (fun l => l.getD i []) h
    simp only [List.getD_eq_getElem?_getD, List.getElem?_take, hi, if_true] at this
    rw [List.getD_eq_getElem?_getD, this]
    simp [texts, show i < 8 by omega]
  have hzero (x : BitVec 16) : hexText x.toNat = js "0" ↔ x = 0 :=
    hexText_eq_iff (n := 0) (by omega) (by decide)
  have h64 (x : BitVec 16) : hexText x.toNat = js "64" ↔ x = 0x64 :=
    hexText_eq_iff (n := 0x64) (by omega) (by decide)
  have hff9b (x : BitVec 16) : hexText x.toNat = js "ff9b" ↔ x = 0xff9b :=
    hexText_eq_iff (n := 0xff9b) (by omega) (by decide)
  have h2001 (x : BitVec 16) : hexText x.toNat = js "2001" ↔ x = 0x2001 :=
    hexText_eq_iff (n := 0x2001) (by omega) (by decide)
  have h2002 (x : BitVec 16) : hexText x.toNat = js "2002" ↔ x = 0x2002 :=
    hexText_eq_iff (n := 0x2002) (by omega) (by decide)
  have hval : BitVec.ofNat 16 (parseInt 16 (hexText (g.get 0).toNat)) = g.get 0 := by
    rw [parseInt_hexText, BitVec.ofNat_toNat, BitVec.setWidth_eq]
  have hfour : gs.getD 0 [] = hexText (g.get 0).toNat ∧ gs.getD 1 [] = hexText (g.get 1).toNat ∧
      gs.getD 2 [] = hexText (g.get 2).toNat ∧ gs.getD 3 [] = hexText (g.get 3).toNat :=
    ⟨hget 0 (by omega), hget 1 (by omega), hget 2 (by omega), hget 3 (by omega)⟩
  rw [foldGroups]
  simp only [hfour, hzero, h64, hff9b, h2001, h2002, hval]
  rw [prefixText]
  by_cases hex : Exempt g
  · rw [if_pos hex]
    rw [Exempt] at hex
    grind
  · rw [if_neg hex]
    rw [Exempt, not_or, not_or, not_or] at hex
    rw [if_neg hex.1, if_neg hex.2.1, if_neg hex.2.2.1, if_neg hex.2.2.2]

/-! ## the fold of a literal -/

theorem units_of_reads (h : Reads y g) : ∀ u ∈ y, IsIpv6Unit u :=
  units_of_parseGroups (parseGroups_of_reads h)

theorem reads_inj {g' : Groups} (h : Reads y g) (h' : Reads y g') : g = g' :=
  Option.some.inj ((parseGroups_of_reads h).symm.trans (parseGroups_of_reads h'))

theorem marks_of_reads (h : Reads y g) :
    unit ':' ∈ y ∧ unit '%' ∉ y ∧ unit '[' ∉ y ∧ unit ']' ∉ y := by
  have hunits := fun u hu => ne_mark_of_ipv6Unit (units_of_reads h u hu)
  refine ⟨?_, fun hm => (hunits _ hm).2.2 rfl, fun hm => (hunits _ hm).1 rfl,
    fun hm => (hunits _ hm).2.1 rfl⟩
  by_contra hno
  have := parseGroups_of_reads h
  rw [parseGroups_eq_none_of_no_colon hno] at this
  contradiction

theorem lower_map (y : JsString) : Lower (y.map asciiLower) := by
  intro u hu
  obtain ⟨v, -, rfl⟩ := List.mem_map.mp hu
  unfold asciiLower
  grind

theorem takeWhile_colons {t : JsString} (toks : List JsString) (rest : JsString)
    (ht : unit ':' ∉ t) (h : toks ≠ [] ∨ rest.head? = some (unit ':') ∨ rest = []) :
    (colons (t :: toks) ++ rest).takeWhile (· ≠ unit ':') = t := by
  have hpos : ∀ u ∈ t, decide (u ≠ unit ':') = true := by
    intro u hu
    rw [decide_eq_true_eq]
    rintro rfl
    exact ht hu
  cases toks with
  | nil =>
    have hself : t.takeWhile (· ≠ unit ':') = t := List.takeWhile_eq_self_iff.mpr hpos
    rcases h with h | h | rfl
    · contradiction
    · obtain ⟨r, rfl⟩ := List.head?_eq_some_iff.mp h
      rw [colons, intercalate_singleton, takeWhile_append_of_pos hpos,
        takeWhile_cons_of_neg (by simp), append_nil]
    · rw [append_nil, colons, intercalate_singleton, hself]
  | cons t' toks =>
    rw [colons, intercalate_cons_cons, List.append_assoc, List.append_assoc,
      takeWhile_append_of_pos hpos, List.singleton_append,
      takeWhile_cons_of_neg (by simp), append_nil]

theorem first_no_dot (h : Reads y g) : unit '.' ∉ y.takeWhile (· ≠ unit ':') := by
  have hgap {head tail : List JsString} {hs : List (BitVec 16)}
      (hh : List.Forall₂ HexGroup head hs) :
      unit '.' ∉ (compressed head tail).takeWhile (· ≠ unit ':') := by
    cases hh with
    | nil =>
      rw [compressed, colons, List.intercalate_nil, List.nil_append]
      simp
    | cons ht hrest =>
      rw [compressed, takeWhile_colons _ _ ht.good.2.1 (.inr (.inl rfl))]
      exact ht.good.2.2
  rcases h with h | h
  · cases h with
    | @full toks g hm =>
      have h8 : g.toList.length = 8 := by simp
      generalize g.toList = gs at hm h8
      cases hm with
      | nil | quad hq => simp at h8
      | @cons t x toks gs ht hrest =>
        have := takeWhile_colons toks [] ht.good.2.1 (.inr (.inr rfl))
        rw [append_nil] at this
        rw [this]
        exact ht.good.2.2
    | compressed hh _ _ _ => exact hgap hh
  · obtain ⟨hh, -, -, -⟩ := h
    exact hgap hh

variable {v : BitVec 32}

section Fold

variable {lc : LowerCase}

theorem lower_of_reads (h : Reads y g) : lc.lower y = y.map asciiLower :=
  lowerFrom_of_ascii fun u hu => (plain_of_ipv6Unit (units_of_reads h u hu)).1

theorem foldHost_of_reads {value : JsString} {b : Bool} (h : Reads y g)
    (hz : b = true ∨ zeroPrefixed y = false) :
    foldHost lc value y b =
      if Exempt g then (if b then y.map asciiLower else value) else prefixText g := by
  obtain ⟨hcolon, hpct, -, -⟩ := marks_of_reads h
  have hlow := reads_map_lower.mpr h
  obtain ⟨gs, hgs⟩ := Option.isSome_iff_exists.mp (expandIpv6_of_reads hlow (lower_map y))
  obtain ⟨g', hg', htexts⟩ := reads_of_expandIpv6 hgs
  obtain rfl := reads_inj hlow hg'
  have hzero : ¬ (!b && zeroPrefixed y) = true := by
    rcases hz with rfl | hz
    · simp
    · simp [hz]
  rw [foldHost, if_neg (not_not.mpr hcolon), if_neg hzero, if_neg hpct]
  simp only [lower_of_reads h]
  rw [if_neg (first_no_dot hlow)]
  simp only [hgs]
  exact foldGroups_eq htexts _

theorem head_of_reads (h : Reads y g) : y.head? ≠ some (unit '[') := by
  intro hh
  obtain ⟨t, rfl⟩ := List.head?_eq_some_iff.mp hh
  exact (marks_of_reads h).2.2.1 (by simp)

theorem hexGroup_hexText (x : BitVec 16) : HexGroup (hexText x.toNat) x := by
  have h := (isGroup_iff.mp (isGroup_hexText x.isLt)).1
  rwa [parseInt_hexText, BitVec.ofNat_toNat, BitVec.setWidth_eq] at h

theorem bare_prefixText (h : ¬ Exempt g) : Bare (prefixText g) (foldGroup g) := by
  have hcolon : js ":" = [unit ':'] := by decide
  have htwo : js "::" = [unit ':', unit ':'] := by decide
  rw [prefixText, hcolon, htwo]
  by_cases h6 : g.get 0 = 0x2002
  · rw [if_pos h6]
    have hrfc : Rfc4291 (compressed [hexText (g.get 0).toNat, hexText (g.get 1).toNat,
        hexText (g.get 2).toNat] []) #v[g.get 0, g.get 1, g.get 2, 0, 0, 0, 0, 0] :=
      .compressed (.cons (hexGroup_hexText _) (.cons (hexGroup_hexText _)
        (.cons (hexGroup_hexText _) .nil))) .nil (by simp) rfl
    have hgroup : foldGroup #v[g.get 0, g.get 1, g.get 2, 0, 0, 0, 0, 0] = foldGroup g := by
      have hne : ¬ Exempt #v[g.get 0, g.get 1, g.get 2, 0, 0, 0, 0, 0] := by
        simp [Exempt, h6]
      rw [foldGroup, if_neg hne, foldGroup, if_neg h, if_pos h6]
      exact if_pos h6
    have := Bare.ipv6 hrfc
    rw [hgroup] at this
    simpa [compressed, colons] using this
  · rw [if_neg h6]
    have hrfc : Rfc4291 (compressed [hexText (g.get 0).toNat, hexText (g.get 1).toNat,
        hexText (g.get 2).toNat, hexText (g.get 3).toNat] []) #v[g.get 0, g.get 1, g.get 2, g.get 3, 0, 0, 0, 0] :=
      .compressed (.cons (hexGroup_hexText _) (.cons (hexGroup_hexText _)
        (.cons (hexGroup_hexText _) (.cons (hexGroup_hexText _) .nil)))) .nil (by simp) rfl
    have hgroup : foldGroup #v[g.get 0, g.get 1, g.get 2, g.get 3, 0, 0, 0, 0] = foldGroup g := by
      have hne : ¬ Exempt #v[g.get 0, g.get 1, g.get 2, g.get 3, 0, 0, 0, 0] := h
      rw [foldGroup, if_neg hne, foldGroup, if_neg h, if_neg h6]
      exact if_neg h6
    have := Bare.ipv6 hrfc
    rw [hgroup] at this
    simpa [compressed, colons] using this

theorem length_prefixText (g : Groups) : (prefixText g).length ≤ 21 := by
  have h (x : BitVec 16) := (hexText_length x.isLt).2
  have h0 := h (g.get 0)
  have h1 := h (g.get 1)
  have h2 := h (g.get 2)
  have h3 := h (g.get 3)
  have hcolon : (js ":").length = 1 := by decide
  have htwo : (js "::").length = 2 := by decide
  rw [prefixText]
  split <;> simp only [length_append] <;> omega

theorem Bracketed.length_le (h : Bracketed s y) : y.length ≤ s.length := by
  obtain ⟨-, rest, rfl, -⟩ := h
  simp
  omega

theorem Spells.length_le (h : Spells s y) : y.length ≤ s.length := by
  rcases h with rfl | h
  · exact Nat.le_refl _
  · exact h.length_le

theorem lower_eq_self
    (h : ∀ u ∈ lc.lower y, isDigit u = true ∨ u = unit '.' ∨ u = unit ':') : lc.lower y = y := by
  have hplain : ∀ u ∈ lc.lower y, Plain u := by
    intro u hu
    rcases h u hu with h | rfl | rfl
    · exact plain_of_isHexDigit (isHexDigit_of_isDigit h)
    · decide
    · decide
  have hmap : lc.lower y = y.map asciiLower := lowerFrom_eq_map hplain
  rw [hmap] at h ⊢
  have hfix : ∀ u ∈ y, asciiLower u = u := by
    intro u hu
    have := h _ (List.mem_map_of_mem hu)
    unfold isDigit asciiLower at *
    have hdot : unit '.' = 46 := by decide
    have hcolon : unit ':' = 58 := by decide
    grind
  calc y.map asciiLower = y.map id := List.map_congr_left hfix
    _ = y := List.map_id y

theorem lower_of_digits
    (h : ∀ u ∈ y, isDigit u = true ∨ u = unit '.' ∨ u = unit ':') : lc.lower y = y := by
  have hdot : unit '.' = 46 := by decide
  have hcolon : unit ':' = 58 := by decide
  have hfix : ∀ u ∈ y, u < 128 ∧ asciiLower u = u := by
    intro u hu
    have := h u hu
    unfold isDigit at this
    unfold asciiLower
    grind
  calc lc.lower y = y.map asciiLower := lowerFrom_of_ascii fun u hu => (hfix u hu).1
    _ = y.map id := List.map_congr_left fun u hu => (hfix u hu).2
    _ = y := List.map_id y

/-- What the fold may make of the value `b`: itself, or the text of a group that
`b` is a literal of. -/
def Folded (b key : JsString) : Prop :=
  key.length ≤ max b.length 21 ∧
    (key = b ∨ Slipped b ∨ ∃ G, Bare key G ∧ Denotes b G)

theorem Folded.self (b : JsString) : Folded b b := ⟨Nat.le_max_left _ _, .inl rfl⟩

theorem Quad.digits (h : Quad p v) : ∀ u ∈ p, isDigit u = true ∨ u = unit '.' := by
  obtain ⟨hp, hq, hr, hs⟩ := h
  have hd {t : JsString} {n : Nat} (h : Octet t n) : ∀ u ∈ t, isDigit u = true :=
    List.all_eq_true.mp h.digits
  intro u hu
  simp only [intercalate_cons_cons, intercalate_singleton, List.mem_append,
    List.mem_singleton] at hu
  tauto

theorem digits_of_isPort {port : JsString} (h : isPort port = true) :
    ∀ u ∈ port, isDigit u = true := by
  simp only [isPort, Bool.and_eq_true] at h
  exact List.all_eq_true.mp h.1.2

theorem cut_port (h : isPort (s.drop ((s.takeWhile (· ≠ unit ':')).length + 1)) = true) :
    ∃ port, s = s.takeWhile (· ≠ unit ':') ++ unit ':' :: port ∧ isPort port = true := by
  have hsplit := List.takeWhile_append_dropWhile (p := (· ≠ unit ':')) (l := s)
  generalize s.takeWhile (· ≠ unit ':') = first at h hsplit ⊢
  cases hd : s.dropWhile (· ≠ unit ':') with
  | nil =>
    rw [hd, append_nil] at hsplit
    rw [← hsplit, List.drop_of_length_le (by omega)] at h
    contradiction
  | cons c port =>
    have hc : c = unit ':' := by
      have := List.head?_dropWhile_not (p := (· ≠ unit ':')) s
      rw [hd] at this
      simpa using this
    rw [hd, hc] at hsplit
    rw [← hsplit, List.drop_length_add_append] at h
    exact ⟨port, hsplit.symm, h⟩

theorem reads_of_lower (h : Reads (lc.lower y) g) : lc.lower y = y.map asciiLower ∧ Reads y g := by
  have hmap : lc.lower y = y.map asciiLower :=
    lowerFrom_eq_map fun u hu => plain_of_ipv6Unit (units_of_reads h u hu)
  rw [hmap] at h
  exact ⟨hmap, reads_map_lower.mp h⟩

theorem foldHost_spec {b : JsString} {br : Bool}
    (h : (br = true ∧ Bracketed b y) ∨ (br = false ∧ b = y)) : Folded b (foldHost lc b y br) := by
  have hspells : Spells b y := h.elim (fun h => .inr h.2) (fun h => .inl h.2)
  have hle : y.length ≤ max b.length 21 := Nat.le_trans hspells.length_le (Nat.le_max_left _ _)
  rw [foldHost]
  split
  · split
    · next hv4 =>
      obtain ⟨v, hv⟩ := isIpv4_iff.mp (Bool.and_eq_true _ _ ▸ hv4).2
      exact ⟨hle, .inr (.inr ⟨_, .ipv4 hv, .bare (.ipv4 hv) hspells⟩)⟩
    · exact .self b
  split
  · exact .self b
  split
  · split
    · next hpct hlit =>
      have hlit := (Bool.and_eq_true _ _ ▸ hlit).2
      obtain ⟨gs, hgs⟩ := Option.isSome_iff_exists.mp hlit
      obtain ⟨g, hg, -⟩ := reads_of_expandIpv6 hgs
      obtain ⟨a, zone, rfl, ha⟩ := List.eq_append_cons_of_mem hpct
      have htake : (a ++ unit '%' :: zone).takeWhile (· ≠ unit '%') = a := by
        rw [takeWhile_append_of_pos, takeWhile_cons_of_neg (by simp), append_nil]
        intro u hu
        rw [decide_eq_true_eq]
        rintro rfl
        exact ha hu
      rw [htake] at hg
      refine ⟨hle, .inr ?_⟩
      rcases (reads_of_lower hg).2 with hrfc | hno
      · exact .inr ⟨_, .zoned hrfc, .bare (.zoned hrfc) hspells⟩
      · exact .inl (.inl ⟨a, g, hno, .inr ⟨zone, hspells⟩⟩)
    · exact .self b
  · simp only
    split
    · split
      · next hport =>
        obtain ⟨hv4, hport⟩ := Bool.and_eq_true _ _ ▸ hport
        obtain ⟨v, hv⟩ := isIpv4_iff.mp hv4
        obtain ⟨port, hsplit, hp⟩ := cut_port hport
        have hdigits : ∀ u ∈ lc.lower y, isDigit u = true ∨ u = unit '.' ∨ u = unit ':' := by
          intro u hu
          rw [hsplit, List.mem_append, List.mem_cons] at hu
          rcases hu with hu | hu | hu
          · exact (hv.digits u hu).imp_right .inl
          · exact .inr (.inr hu)
          · exact .inl (digits_of_isPort hp u hu)
        have hy := (lower_eq_self hdigits).symm.trans hsplit
        refine ⟨Nat.le_trans ?_ hle, .inr ?_⟩
        · have := congrArg List.length hy
          rw [length_append] at this
          omega
        · rcases h with ⟨-, hb⟩ | ⟨-, rfl⟩
          · exact .inl (.inr ⟨_, port, v, hv, hp, hy ▸ hb⟩)
          · refine .inr ⟨_, .ipv4 hv, ?_⟩
            have := Denotes.port hv hp
            rwa [← hy] at this
      · exact .self b
    · split
      · exact .self b
      rename_i gs hgs
      obtain ⟨g, hg, htexts⟩ := reads_of_expandIpv6 hgs
      obtain ⟨hmap, hg⟩ := reads_of_lower hg
      rw [foldGroups_eq htexts]
      split
      · cases br with
        | false => exact .self b
        | true =>
          simp only [if_true, hmap]
          refine ⟨by rw [List.length_map]; exact hle, .inr ?_⟩
          rcases hg with hrfc | hno
          · exact .inr ⟨_, .ipv6 (rfc4291_map_lower hrfc), .bare (.ipv6 hrfc) hspells⟩
          · exact .inl (.inl ⟨y, g, hno, .inl hspells⟩)
      · next hex =>
        refine ⟨Nat.le_trans (length_prefixText g) (Nat.le_max_right _ _), .inr ?_⟩
        rcases hg with hrfc | hno
        · exact .inr ⟨_, bare_prefixText hex, .bare (.ipv6 hrfc) hspells⟩
        · exact .inl (.inl ⟨y, g, hno, .inl hspells⟩)

/-- **What the fold does**: it leaves a value, or makes of a literal the text of
its group. -/
theorem fold_spec (b : JsString) : Folded b (foldToPrefix lc b) := by
  rw [foldToPrefix]
  cases hu : unwrap b with
  | none => exact .self b
  | some r =>
    exact foldHost_spec (unwrap_some hu)

end Fold

/-! ## one text, one group -/

theorem Quad.marks (h : Quad p v) : unit ':' ∉ p ∧ unit '%' ∉ p ∧ unit '[' ∉ p ∧ unit ']' ∉ p := by
  refine ⟨?_, ?_, ?_, ?_⟩ <;> intro hm <;> have := h.digits _ hm <;> revert this <;> decide

theorem Quad.inj {w : BitVec 32} (h : Quad p v) (h' : Quad p w) : v = w := by
  have hparse {p : JsString} {v : BitVec 32} (h : Quad p v) : parseDottedQuadV6Tail p = some v := by
    obtain ⟨hp, hq, hr, hs⟩ := h
    exact parseDottedQuadV6Tail_iff.mpr ⟨_, _, _, _, _, _, _, _, hp, hq, hr, hs, rfl, rfl⟩
  exact Option.some.inj ((hparse h).symm.trans (hparse h'))

theorem Bare.inj {G H : FoldGroup} (h : Bare y G) (h' : Bare y H) : G = H := by
  cases h with
  | ipv6 hrfc =>
    have hm := marks_of_reads (.inl hrfc)
    cases h' with
    | ipv6 hrfc' => rw [reads_inj (.inl hrfc) (.inl hrfc')]
    | zoned _ => exact absurd (by simp) hm.2.1
    | ipv4 hq => exact absurd hm.1 hq.marks.1
  | @zoned a zone g hrfc =>
    have hm := marks_of_reads (.inl hrfc)
    generalize hy : a ++ unit '%' :: zone = y at h'
    cases h' with
    | ipv6 hrfc' => exact absurd (by simp [← hy]) (marks_of_reads (.inl hrfc')).2.1
    | @zoned a' zone' g' hrfc' =>
      have hm' := marks_of_reads (.inl hrfc')
      obtain ⟨rfl, hz⟩ : a = a' ∧ unit '%' :: zone = unit '%' :: zone' := by
        have hcut {a : JsString} (zone : JsString) (h : unit '%' ∉ a) :
            (a ++ unit '%' :: zone).takeWhile (· ≠ unit '%') = a := by
          rw [takeWhile_append_of_pos, takeWhile_cons_of_neg (by simp),
            append_nil]
          intro u hu
          rw [decide_eq_true_eq]
          rintro rfl
          exact h hu
        have haa : a = a' := by rw [← hcut zone hm.2.1, hy, hcut zone' hm'.2.1]
        exact ⟨haa, List.append_cancel_left (haa ▸ hy)⟩
      rw [reads_inj (.inl hrfc) (.inl hrfc'), (List.cons.inj hz).2]
    | ipv4 hq => exact absurd (by simp [← hy]) hq.marks.2.1
  | ipv4 hq =>
    cases h' with
    | ipv6 hrfc' => exact absurd (marks_of_reads (.inl hrfc')).1 hq.marks.1
    | zoned _ => exact absurd (by simp) hq.marks.2.1
    | ipv4 hq' => rw [hq.inj hq']

/-! ## zero prefixes -/

theorem zeros_of_zeroGroups {n : Nat} {rest : JsString}
    (hg : Good toks) (hr : rest = [] ∨ ∃ r, rest = unit ':' :: unit ':' :: r)
    (h : zeroGroups n (colons toks ++ rest) = true) :
    ∃ zs ts, toks = zs ++ ts ∧ zs.length = n ∧ ∀ z ∈ zs, ∀ u ∈ z, u = unit '0' := by
  induction n generalizing toks with
  | zero => exact ⟨[], toks, rfl, rfl, by simp⟩
  | succ n ih =>
    rw [zeroGroups] at h
    simp only [Bool.and_eq_true, decide_eq_true_eq] at h
    obtain ⟨⟨⟨h1, -⟩, hc⟩, hn⟩ := h
    have h0 : unit '0' ≠ unit ':' := by decide
    have hzeros : ∀ u ∈ (colons toks ++ rest).takeWhile (· = unit '0'), u = unit '0' :=
      fun u hu => by simpa using List.mem_takeWhile_imp hu
    obtain ⟨s', hs'⟩ := List.head?_eq_some_iff.mp hc
    have hcut := List.take_append_drop
      ((colons toks ++ rest).takeWhile (· = unit '0')).length (colons toks ++ rest)
    rw [← List.prefix_iff_eq_take.mp (List.takeWhile_prefix _), hs'] at hcut
    have hdrop : (colons toks ++ rest).drop
        (((colons toks ++ rest).takeWhile (· = unit '0')).length + 1) = s' := by
      rw [← List.drop_drop, hs']
      rfl
    rw [hdrop] at hn
    generalize (colons toks ++ rest).takeWhile (· = unit '0') = z at h1 hzeros hcut
    have hz : unit ':' ∉ z := fun hm => h0 (hzeros _ hm).symm
    have hfirst : (colons toks ++ rest).takeWhile (· ≠ unit ':') = z := by
      rw [← hcut, takeWhile_append_of_pos, takeWhile_cons_of_neg (by simp),
        append_nil]
      intro u hu
      rw [decide_eq_true_eq]
      rintro rfl
      exact hz hu
    cases toks with
    | nil =>
      rcases hr with rfl | ⟨r, rfl⟩
      · simp [colons] at hcut
      · rw [colons, List.intercalate_nil, List.nil_append] at hfirst
        simp [← hfirst] at h1
    | cons t ts =>
      have ht := hg t (by simp)
      have htz : t = z := by
        rw [← hfirst, takeWhile_colons _ _ ht.2]
        rcases hr with rfl | ⟨r, rfl⟩
        · exact .inr (.inr rfl)
        · exact .inr (.inl rfl)
      subst htz
      cases ts with
      | nil =>
        rw [colons, intercalate_singleton] at hcut
        have hrest := List.append_cancel_left hcut
        cases n with
        | zero => exact ⟨[t], [], rfl, rfl, by simpa using hzeros⟩
        | succ n =>
          rcases hr with rfl | ⟨r, rfl⟩
          · contradiction
          · rw [(List.cons.inj hrest).2, zeroGroups] at hn
            simp [h0.symm] at hn
      | cons t' ts =>
        rw [colons, intercalate_cons_cons, List.append_assoc, List.append_assoc] at hcut
        have hrest := List.append_cancel_left hcut
        rw [(List.cons.inj hrest).2] at hn
        obtain ⟨zs, us, hts, hlen, hall⟩ := ih
          (fun t ht => hg t (List.mem_cons_of_mem _ ht)) hn
        refine ⟨t :: zs, us, by rw [hts, List.cons_append], by simp [hlen], ?_⟩
        intro z hz
        rcases List.mem_cons.mp hz with rfl | hz
        · exact hzeros
        · exact hall z hz

theorem value_zeros {z : JsString} (h : HexGroup z x) (hz : ∀ u ∈ z, u = unit '0') : x = 0 := by
  have hparse : parseInt 16 z = 0 := by
    have : z = List.replicate z.length (unit '0') := List.eq_replicate_of_mem hz
    rw [this]
    generalize z.length = n
    induction n with
    | zero => rfl
    | succ n ih => rw [List.replicate_succ', parseInt_append, ih]; decide
  rw [h.value, hparse]
  rfl

theorem mixed_zero {z : JsString} {ts : List JsString}
    (h : Mixed (z :: ts) gs) (hz : ∀ u ∈ z, u = unit '0') : ∃ gs', gs = 0 :: gs' ∧ Mixed ts gs' := by
  cases h with
  | quad hq => exact absurd (hz _ hq.good.2.2) (by decide)
  | cons ht hrest => exact ⟨_, by rw [value_zeros ht hz], hrest⟩

theorem mixed_zeros {zs ts : List JsString} (h : Mixed (zs ++ ts) gs)
    (h4 : zs.length = 4) (hz : ∀ z ∈ zs, ∀ u ∈ z, u = unit '0') :
    ∃ gs', gs = 0 :: 0 :: 0 :: 0 :: gs' := by
  match zs, h4 with
  | [a, b, c, d], _ =>
    obtain ⟨_, rfl, ha⟩ := mixed_zero h (hz a (by simp))
    obtain ⟨_, rfl, hb⟩ := mixed_zero ha (hz b (by simp))
    obtain ⟨_, rfl, hc⟩ := mixed_zero hb (hz c (by simp))
    obtain ⟨_, rfl, hd⟩ := mixed_zero hc (hz d (by simp))
    exact ⟨_, rfl⟩

/-- A text that the zero-prefix pattern matches has a zero prefix, unless it
begins with `::`. -/
theorem exempt_of_zeroPrefixed (h : Reads y g)
    (hz : zeroPrefixed y = true) (hplain : y.take 2 ≠ js "::") : Exempt g := by
  have hz : zeroGroups 4 y = true := by
    rw [zeroPrefixed, Bool.or_eq_true, decide_eq_true_eq] at hz
    exact hz.resolve_right hplain
  have hgap {head tail : List JsString} {hs ts : List (BitVec 16)}
      (hh : List.Forall₂ HexGroup head hs) (hg : g.toList = filled hs ts)
      (hz : zeroGroups 4 (compressed head tail) = true) :
      ∃ gs', g.toList = 0 :: 0 :: 0 :: 0 :: gs' := by
    obtain ⟨zs, us, hhead, hlen, hall⟩ :=
      zeros_of_zeroGroups (Mixed.of_hex hh).good (.inr ⟨_, rfl⟩) hz
    obtain ⟨gs', hgs⟩ := mixed_zeros (hhead ▸ Mixed.of_hex hh) hlen hall
    rw [hg, hgs]
    exact ⟨_, rfl⟩
  have hlist : ∃ gs', g.toList = 0 :: 0 :: 0 :: 0 :: gs' := by
    rcases h with h | h
    · cases h with
      | @full toks g hm =>
        obtain ⟨zs, us, htoks, hlen, hall⟩ := zeros_of_zeroGroups hm.good (.inl rfl)
          (by rw [append_nil]; exact hz)
        exact mixed_zeros (htoks ▸ hm) hlen hall
      | compressed hh _ _ hg => exact hgap hh hg hz
    · obtain ⟨hh, -, -, hg⟩ := h
      exact hgap hh hg hz
  obtain ⟨gs', hlist⟩ := hlist
  obtain ⟨g0, g1, g2, g3, g4, g5, g6, g7, rfl⟩ := exists_groups g
  obtain ⟨rfl, rfl, rfl, rfl, -⟩ := hlist
  exact .inl ⟨rfl, rfl, rfl, rfl⟩

/-! ## lengths -/

theorem length_hex (h : List.Forall₂ HexGroup toks gs) : (colons toks).length ≤ 5 * gs.length := by
  induction h with
  | nil => simp [colons]
  | @cons t x toks gs ht hrest ih =>
    have := ht.le
    cases toks with
    | nil =>
      rw [colons, intercalate_singleton, length_cons]
      omega
    | cons t' toks =>
      rw [colons] at ih ⊢
      rw [intercalate_cons_cons, length_append, length_append]
      simp only [length_cons, List.length_nil] at ih ⊢
      omega

theorem length_quad {tok : JsString} {y : BitVec 16} (h : DottedQuad tok x y) :
    tok.length ≤ 15 := by
  obtain ⟨hp, hq, hr, hs⟩ := h
  have := hp.le
  have := hq.le
  have := hr.le
  have := hs.le
  simp only [intercalate_cons_cons, intercalate_singleton, length_append,
    length_cons, List.length_nil]
  omega

theorem length_mixed (h : Mixed toks gs) : (colons toks).length ≤ 5 * gs.length + 5 := by
  induction h with
  | nil => simp [colons]
  | quad hq =>
    rw [colons, intercalate_singleton]
    exact length_quad hq
  | @cons t x toks gs ht hrest ih =>
    have := ht.le
    cases toks with
    | nil =>
      rw [colons, intercalate_singleton]
      omega
    | cons t' toks =>
      rw [colons] at ih ⊢
      rw [intercalate_cons_cons, length_append, length_append]
      simp only [length_cons, List.length_nil] at ih ⊢
      omega

theorem length_rfc4291 (h : Rfc4291 y g) : y.length ≤ 45 := by
  cases h with
  | full hm =>
    have := length_mixed hm
    simpa using this
  | compressed hh ht h8 _ =>
    have := length_hex hh
    have := length_mixed ht
    rw [compressed, length_append, length_cons, length_cons]
    omega

theorem length_isPort {port : JsString} (h : isPort port = true) : port.length ≤ 5 := by
  simp only [isPort, Bool.and_eq_true, decide_eq_true_eq] at h
  exact h.1.1.2

theorem Spells.length (h : Spells s y) : s.length ≤ y.length + 8 := by
  rcases h with rfl | ⟨-, rest, rfl, rfl | ⟨port, rfl, hport⟩⟩
  · omega
  · simp
  · have := length_isPort hport
    simp
    omega

theorem Quad.length (h : Quad p v) : p.length ≤ 15 := by
  obtain ⟨hp, hq, hr, hs⟩ := h
  exact length_quad (.mk hp hq hr hs)

/-! ## keys -/

section Keys

variable {lc : LowerCase} {maxKeyLen : Nat}

theorem rateLimitKey_eq (hcap : 53 ≤ maxKeyLen) (s : JsString) :
    rateLimitKey lc s maxKeyLen = foldToPrefix lc (s.take maxKeyLen) := by
  have h : (foldToPrefix lc (s.take maxKeyLen)).length ≤ _ := (fold_spec _).1
  rw [List.length_take] at h
  exact List.take_of_length_le (by omega)

theorem rateLimitKey_of_le (hcap : 53 ≤ maxKeyLen) (hs : s.length ≤ 53) :
    rateLimitKey lc s maxKeyLen = foldToPrefix lc s := by
  rw [rateLimitKey_eq hcap, List.take_of_length_le (by omega)]

theorem foldToPrefix_of_spells (h : Rfc4291 y g)
    (hs : Bracketed s y ∨ s = y ∧ zeroPrefixed y = false) :
    foldToPrefix lc s = if Exempt g then (if s = y then s else y.map asciiLower)
      else prefixText g := by
  rcases hs with hb | ⟨rfl, hz⟩
  · have hne : s ≠ y := by
      rintro rfl
      obtain ⟨-, rest, he, -⟩ := hb
      exact head_of_reads (.inl h) (by rw [he]; rfl)
    rw [foldToPrefix, unwrap_bracketed hb, if_neg hne]
    exact foldHost_of_reads (.inl h) (.inl rfl)
  · rw [foldToPrefix, unwrap_bare (head_of_reads (.inl h)), if_pos rfl]
    exact foldHost_of_reads (.inl h) (.inr hz)

theorem foldToPrefix_of_ipv4 (h : Quad p v) (hs : SpellsIpv4 s p) : foldToPrefix lc s = p := by
  obtain ⟨hcolon, hpct, hopen, -⟩ := h.marks
  have hhead {t : JsString} (ht : unit '[' ∉ t) : t.head? ≠ some (unit '[') := by
    intro hh
    obtain ⟨r, rfl⟩ := List.head?_eq_some_iff.mp hh
    exact ht (by simp)
  rcases hs with (rfl | hb) | ⟨port, hport, rfl⟩
  · rw [foldToPrefix, unwrap_bare (hhead hopen)]
    simp only [foldHost, if_pos hcolon]
    rfl
  · rw [foldToPrefix, unwrap_bracketed hb]
    simp only [foldHost, if_pos hcolon]
    rw [isIpv4_iff.mpr ⟨v, h⟩]
    rfl
  · have hport0 : port ≠ [] := by
      rintro rfl
      contradiction
    have hdot : unit '.' ∈ p := by
      obtain ⟨hp, hq, hr, hs⟩ := h
      exact (DottedQuad.mk hp hq hr hs).good.2.2
    have hne : p ≠ [] := List.ne_nil_of_mem hdot
    have hdigits : ∀ u ∈ p ++ unit ':' :: port, isDigit u = true ∨ u = unit '.' ∨ u = unit ':' := by
      intro u hu
      rw [List.mem_append, List.mem_cons] at hu
      rcases hu with hu | hu | hu
      · exact (h.digits u hu).imp_right .inl
      · exact .inr (.inr hu)
      · exact .inl (digits_of_isPort hport u hu)
    have hmark (c : UInt16) (hc : ¬ (isDigit c = true ∨ c = unit '.' ∨ c = unit ':')) :
        c ∉ p ++ unit ':' :: port := fun hm => hc (hdigits c hm)
    have hpcolon : unit ':' ∉ port := fun hm => absurd (digits_of_isPort hport _ hm) (by decide)
    have hzero : zeroPrefixed (p ++ unit ':' :: port) = false := by
      rw [zeroPrefixed, Bool.or_eq_false_iff, decide_eq_false_iff_not]
      constructor
      · -- two tokens are not four
        have hcolons : p ++ unit ':' :: port = colons [p, port] ++ [] := by
          simp [colons, intercalate_cons_cons]
        have hgood : Good [p, port] := by
          simpa [Good] using ⟨⟨hne, hcolon⟩, hport0, hpcolon⟩
        rw [hcolons, Bool.eq_false_iff]
        intro hz
        obtain ⟨zs, ts, he, h4, -⟩ := zeros_of_zeroGroups hgood (.inl rfl) hz
        have := congrArg List.length he
        simp at this
        omega
      · obtain ⟨u, p, rfl⟩ := List.exists_cons_of_ne_nil hne
        have hjs : js "::" = [unit ':', unit ':'] := by decide
        rw [hjs]
        intro he
        have : u = unit ':' := by
          cases p <;> exact (List.cons.inj he).1
        exact hcolon (by simp [this])
    have hfirst : (p ++ unit ':' :: port).takeWhile (· ≠ unit ':') = p := by
      rw [takeWhile_append_of_pos, takeWhile_cons_of_neg (by simp), append_nil]
      intro u hu
      rw [decide_eq_true_eq]
      rintro rfl
      exact hcolon hu
    have hdrop : (p ++ unit ':' :: port).drop (p.length + 1) = port := by
      rw [List.drop_length_add_append]
      rfl
    have hcol : ¬ unit ':' ∉ p ++ unit ':' :: port := not_not.mpr (by simp)
    rw [foldToPrefix, unwrap_bare (hhead (hmark _ (by decide)))]
    simp only [foldHost, if_neg hcol, hzero, if_neg (hmark (unit '%') (by decide)),
      lower_of_digits hdigits, hfirst, if_pos hdot, hdrop, isIpv4_iff.mpr ⟨v, h⟩, hport]
    rfl

theorem key_of_denotes (hcap : 53 ≤ maxKeyLen) {G : FoldGroup} (h : Denotes s G)
    (hp : G.IsPrefix) (hplain : s.take 2 ≠ js "::") :
    ∃ g, foldGroup g = G ∧ rateLimitKey lc s maxKeyLen = prefixText g := by
  cases h with
  | port hq hport => exact hp.elim
  | bare hb hs =>
    cases hb with
    | zoned _ | ipv4 _ => exact hp.elim
    | @ipv6 y g hrfc =>
      have hex : ¬ Exempt g := by
        intro hex
        rw [foldGroup, if_pos hex] at hp
        exact hp
      have hlen := length_rfc4291 hrfc
      have hlen' := hs.length
      refine ⟨g, rfl, ?_⟩
      rw [rateLimitKey_of_le hcap (by omega), foldToPrefix_of_spells hrfc, if_neg hex]
      rcases hs with rfl | hb
      · refine .inr ⟨rfl, ?_⟩
        by_contra hz
        exact hex (exempt_of_zeroPrefixed (.inl hrfc) (by simpa using hz) hplain)
      · exact .inl hb

theorem key_of_exempt (hcap : 53 ≤ maxKeyLen) (h : Rfc4291 y g) (hex : Exempt g) :
    (s = y → rateLimitKey lc s maxKeyLen = y) ∧
      (Bracketed s y → rateLimitKey lc s maxKeyLen = y.map asciiLower) := by
  have hlen := length_rfc4291 h
  constructor
  · rintro rfl
    rw [rateLimitKey_of_le hcap (by omega)]
    by_cases hz : zeroPrefixed s = true
    · have hcolon : ¬ unit ':' ∉ s := not_not.mpr (marks_of_reads (.inl h)).1
      rw [foldToPrefix, unwrap_bare (head_of_reads (.inl h))]
      simp only [foldHost, if_neg hcolon, hz]
      rfl
    · rw [foldToPrefix_of_spells h (.inr ⟨rfl, by simpa using hz⟩), if_pos hex, if_pos rfl]
  · intro hb
    have hlen' := Spells.length (.inr hb)
    have hne : s ≠ y := by
      rintro rfl
      obtain ⟨-, rest, he, -⟩ := hb
      exact head_of_reads (.inl h) (by rw [he]; rfl)
    rw [rateLimitKey_of_le hcap (by omega), foldToPrefix_of_spells h (.inl hb), if_pos hex,
      if_neg hne]

theorem of_key_eq (hcap : 53 ≤ maxKeyLen) {t : JsString}
    (h : rateLimitKey lc s maxKeyLen = rateLimitKey lc t maxKeyLen) :
    s.take maxKeyLen = t.take maxKeyLen ∨
      (∃ G, Denotes (s.take maxKeyLen) G ∧ Denotes (t.take maxKeyLen) G) ∨
      Slipped (s.take maxKeyLen) ∨ Slipped (t.take maxKeyLen) := by
  rw [rateLimitKey_eq hcap, rateLimitKey_eq hcap] at h
  have hfold (b : JsString) : foldToPrefix lc b = b ∨ Slipped b ∨
      ∃ G, Bare (foldToPrefix lc b) G ∧ Denotes b G := (fold_spec b).2
  have hs := hfold (s.take maxKeyLen)
  have ht := hfold (t.take maxKeyLen)
  rw [h] at hs
  rcases hs with hs | hs | ⟨G, hG, hs⟩
  · rcases ht with ht | ht | ⟨H, hH, ht⟩
    · exact .inl (hs.symm.trans ht)
    · exact .inr (.inr (.inr ht))
    · exact .inr (.inl ⟨H, .bare (hs ▸ hH) (.inl rfl), ht⟩)
  · exact .inr (.inr (.inl hs))
  · rcases ht with ht | ht | ⟨H, hH, ht⟩
    · exact .inr (.inl ⟨G, hs, .bare (ht ▸ hG) (.inl rfl)⟩)
    · exact .inr (.inr (.inr ht))
    · exact .inr (.inl ⟨G, hs, hG.inj hH ▸ ht⟩)

end Keys

/-- **Buckets**: the spellings of an allocation prefix share a key, an IPv4
address is its own key, an exempt address keeps its text, and values that share a
key are equal or literals of one group. -/
theorem rateLimitKey_folds (lc : LowerCase) {maxKeyLen : Nat} (hcap : 53 ≤ maxKeyLen) :
    (∀ s t G, Denotes s G → Denotes t G → G.IsPrefix → s.take 2 ≠ js "::" → t.take 2 ≠ js "::" →
      rateLimitKey lc s maxKeyLen = rateLimitKey lc t maxKeyLen) ∧
    (∀ s p v, Quad p v → SpellsIpv4 s p → rateLimitKey lc s maxKeyLen = p) ∧
    (∀ s y g, Rfc4291 y g → Exempt g →
      (s = y → rateLimitKey lc s maxKeyLen = y) ∧
        (Bracketed s y → rateLimitKey lc s maxKeyLen = y.map asciiLower)) ∧
    (∀ s t, rateLimitKey lc s maxKeyLen = rateLimitKey lc t maxKeyLen →
      ¬ Slipped (s.take maxKeyLen) → ¬ Slipped (t.take maxKeyLen) →
      s.take maxKeyLen = t.take maxKeyLen ∨
        ∃ G, Denotes (s.take maxKeyLen) G ∧ Denotes (t.take maxKeyLen) G) := by
  refine ⟨?_, ?_, fun s y g h hex => key_of_exempt hcap h hex, ?_⟩
  · intro s t G hs ht hp hps hpt
    obtain ⟨g, rfl, hkey⟩ := key_of_denotes hcap hs hp hps
    obtain ⟨g', hgroup, hkey'⟩ := key_of_denotes hcap ht hp hpt
    exact hkey.trans ((prefixText_congr hgroup.symm hp).trans hkey'.symm)
  · intro s p v hq hs
    have hlen := hq.length
    have hslen : s.length ≤ 53 := by
      rcases hs with hs | ⟨port, hport, rfl⟩
      · have := hs.length
        omega
      · have := length_isPort hport
        simp
        omega
    rw [rateLimitKey_of_le hcap hslen, foldToPrefix_of_ipv4 hq hs]
  · intro s t h hs ht
    rcases of_key_eq hcap h with h | h | h | h
    · exact .inl h
    · exact .inr h
    · exact absurd h hs
    · exact absurd h ht

/-- One client behind a bracketed socket address and a bare one, at the length the
doors use. -/
theorem rateLimitKey_folds_example :
    rateLimitKey .minimal (js "[2001:db8:1:2::1]:443") 128 =
        rateLimitKey .minimal (js "2001:db8:1:2:0:0:0:9") 128 ∧
      rateLimitKey .minimal (js "1.2.3.4:80") 128 = js "1.2.3.4" := by
  have hcompressed : Rfc4291 (js "2001:db8:1:2::1") #v[0x2001, 0xdb8, 1, 2, 0, 0, 0, 1] := by
    have he : js "2001:db8:1:2::1" =
        compressed [js "2001", js "db8", js "1", js "2"] [js "1"] := by decide +kernel
    rw [he]
    exact .compressed (forall₂_of_isGroup (by decide +kernel))
      (Mixed.of_hex (forall₂_of_isGroup (by decide +kernel))) (by simp) (by decide +kernel)
  have hfull : Rfc4291 (js "2001:db8:1:2:0:0:0:9") #v[0x2001, 0xdb8, 1, 2, 0, 0, 0, 9] := by
    have he : js "2001:db8:1:2:0:0:0:9" = colons [js "2001", js "db8", js "1", js "2", js "0",
        js "0", js "0", js "9"] := by decide +kernel
    rw [he]
    exact .full (expandTokens_iff.mp (by decide +kernel))
  have hbracketed : Spells (js "[2001:db8:1:2::1]:443") (js "2001:db8:1:2::1") :=
    .inr ⟨by decide +kernel, js ":443", by decide +kernel, .inr ⟨js "443", by decide +kernel,
      by decide +kernel⟩⟩
  have hquad : Quad (js "1.2.3.4") 0x01020304 := by
    have hoctet (u : UInt16) (n : Nat) (hu : isDigit u = true) (hn : n = parseInt 10 [u])
        (hlt : n ≤ 255) : Octet [u] n := ⟨by simp, by simp, by simpa using hu, hn, hlt⟩
    exact .mk (hoctet 49 1 (by decide) (by decide) (by decide))
      (hoctet 50 2 (by decide) (by decide) (by decide))
      (hoctet 51 3 (by decide) (by decide) (by decide))
      (hoctet 52 4 (by decide) (by decide) (by decide))
  obtain ⟨hshare, hipv4, -⟩ := rateLimitKey_folds .minimal (show 53 ≤ 128 by omega)
  exact ⟨hshare _ _ (.subnet 0x2001 0xdb8 1 2) (.bare (.ipv6 hcompressed) hbracketed)
      (.bare (.ipv6 hfull) (.inl rfl)) trivial (by decide +kernel) (by decide +kernel),
    hipv4 _ _ _ hquad (.inr ⟨js "80", by decide, by decide +kernel⟩)⟩

/-- In `2000::/3`. -/
def GlobalUnicast (g : Groups) : Prop := g.get 0 &&& 0xe000 = 0x2000

/-- Two addresses of one `/64`, or of one `/48` for 6to4. -/
def SameSubnet (g h : Groups) : Prop :=
  g.get 0 = h.get 0 ∧ g.get 1 = h.get 1 ∧ g.get 2 = h.get 2 ∧ (g.get 0 = 0x2002 ∨ g.get 3 = h.get 3)

/-- Two spellings of one Teredo address have two keys: its `/64` is not folded,
so its text is its key. -/
theorem rateLimitKey_teredo :
    ¬ ∀ (lc : LowerCase) (s t y z : JsString) (g h : Groups), Spells s y → Spells t z →
      Rfc4291 y g → Rfc4291 z h → GlobalUnicast g → SameSubnet g h →
      rateLimitKey lc s 128 = rateLimitKey lc t 128 := by
  intro hall
  have hlower : Rfc4291 (js "2001:0:1:2:0:0:0:a") #v[0x2001, 0, 1, 2, 0, 0, 0, 0xa] := by
    have he : js "2001:0:1:2:0:0:0:a" = colons [js "2001", js "0", js "1", js "2", js "0",
        js "0", js "0", js "a"] := by decide +kernel
    rw [he]
    exact .full (expandTokens_iff.mp (by decide +kernel))
  have hupper : Rfc4291 (js "2001:0:1:2:0:0:0:A") #v[0x2001, 0, 1, 2, 0, 0, 0, 0xa] := by
    have he : js "2001:0:1:2:0:0:0:A" = colons [js "2001", js "0", js "1", js "2", js "0",
        js "0", js "0", js "A"] := by decide +kernel
    rw [he]
    exact .full (expandTokens_iff.mp (by decide +kernel))
  have := hall .minimal _ _ _ _ _ _ (.inl rfl) (.inl rfl) hlower hupper (by unfold GlobalUnicast; decide)
    (by unfold SameSubnet; decide)
  exact absurd this (by decide +kernel)

end BunServe.RateKey
