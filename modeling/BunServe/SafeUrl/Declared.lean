import BunServe.SafeUrl.Embedded

/-!
# BunServe.SafeUrl.Declared

What a declared NAT64 prefix still refuses.

`Conformant p v g` says that `g` is the RFC 6052 embedding of `v` under `p`:
inside the prefix, `v` in the octets behind it, u-octet and suffix zero.  The
declared reading of such an address is `v` and nothing about it is dirty
(`classifyDeclared_eq_none_iff`), so a public `v` can only be refused by a
check that comes before the declared prefix or falls behind it.  Outside the
blocked ranges none before it does (`classifyIpv6_of_conformant`); of the
tunnels behind it the ISATAP identifier can be formed by the embedded address
itself, at `/56` and for `x.0.94.254` (`classifyTunnels_of_conformant`).

Main result: `classifyIpv6_declared_public`.
-/

namespace BunServe.SafeUrl

open List (mem_cons not_mem_nil)

/-! ## conformant embeddings -/

/-- `g` is the conformant embedding of `v` under `p`. -/
structure Conformant (p : Nat64Prefix) (v : BitVec 32) (g : Groups) : Prop where
  within : Within p g
  carries : Carries (.nat64 p.len) g v
  uOctet : (octets g).getD 8 0 = 0
  suffix : ∀ j < 16, (∀ i ∈ (Form.nat64 p.len).positions, i < j) → (octets g).getD j 0 = 0

/-- The prefix lies in a range that is blocked whatever it embeds: unique-local,
link-local, site-local, multicast, Teredo, or the 6to4 space of blocked IPv4
addresses. -/
def InBlockedRange (p : Nat64Prefix) : Prop :=
  p.groups.get 0 &&& 0xfe00 = 0xfc00 ∨ p.groups.get 0 &&& 0xffc0 = 0xfe80 ∨
    p.groups.get 0 &&& 0xffc0 = 0xfec0 ∨ p.groups.get 0 &&& 0xff00 = 0xff00 ∨
    (p.groups.get 0 = 0x2001 ∧ p.groups.get 1 = 0) ∨
    (p.groups.get 0 = 0x2002 ∧ ∀ g, Within p g → classifyIpv4 (pair (g.get 1) (g.get 2)) ≠ none)

/-! ## public IPv4 addresses -/

theorem shiftRight_and_ff (v : BitVec 32) (k : Nat) :
    (v >>> k) &&& (0xff : BitVec 32) = (v.extractLsb' k 8).setWidth 32 := by
  have h : (v >>> k) &&& (0xff : BitVec 32) = 0#24 ++ (v >>> k).setWidth 8 := by
    exact BitVec.and_setWidth_allOnes 24 8 _
  rw [h]
  grind

/-- A public address is not in `0.0.0.0/8`. -/
theorem not_inZeroNet_of_public {v : BitVec 32} (hv : classifyIpv4 v = none) : ¬ InZeroNet v := by
  intro hz
  rw [classifyIpv4, hz] at hv
  contradiction

theorem ite_some_eq_none {c : Prop} [Decidable c] {r : Reason} {o : Option Reason} :
    (if c then some r else o) = none ↔ ¬ c ∧ o = none := by
  split <;> simp [*]

/-- Only `192.0.0.0/24` is blocked beyond its first two octets. -/
theorem public_of_agree {v w : BitVec 32} (hw : classifyIpv4 w = none)
    (ha : v.extractLsb' 24 8 = w.extractLsb' 24 8) (hb : v.extractLsb' 16 8 = w.extractLsb' 16 8)
    (hc : v.extractLsb' 8 8 = w.extractLsb' 8 8 ∨ v.extractLsb' 8 8 ≠ 0) :
    classifyIpv4 v = none := by
  have hc0 (h : v.extractLsb' 8 8 ≠ 0) : (v.extractLsb' 8 8).setWidth 32 ≠ (0 : BitVec 32) := by
    intro h0
    have := congrArg (BitVec.setWidth 8) h0
    exact h (by simpa using this)
  simp only [classifyIpv4, shiftRight_and_ff, ha, hb, ite_some_eq_none] at hw ⊢
  obtain ⟨-, h0, h127, h169, h10, h172, h192, h100, h198, hreserved, hrest⟩ := hw
  refine ⟨fun h => h169 ⟨h.1, h.2.1⟩, h0, h127, h169, h10, h172, h192, h100, h198, ?_, hrest⟩
  intro h
  cases hc with
  | inl hc => exact hreserved (hc ▸ h)
  | inr hc => exact hc0 hc h.2.2

/-! ## the declared reading -/

theorem flatMap_getD (l : List (BitVec 16)) (j : Nat) :
    (l.flatMap fun x => [hi x, lo x]).getD j 0 =
      if j % 2 = 0 then hi (l.getD (j / 2) 0) else lo (l.getD (j / 2) 0) := by
  induction l generalizing j with
  | nil => simp [hi, lo]
  | cons x l ih =>
    rcases j with _ | _ | j
    · simp
    · simp
    · simpa [Nat.add_assoc] using ih j

theorem octets_getD (g : Groups) (j : Nat) :
    (octets g).getD j 0 =
      if j % 2 = 0 then hi (g.toList.getD (j / 2) 0) else lo (g.toList.getD (j / 2) 0) :=
  flatMap_getD g.toList j

theorem and_one_of_getLsbD {x : BitVec 16} {n : Nat} (h : x.getLsbD n = false) :
    (x >>> n) &&& 1 = 0 := by
  ext i hi
  cases i with
  | zero => simp [h]
  | succ i => simp

theorem shiftRight_of_hi {x : BitVec 16} (h : hi x = 0) : x >>> 8 = 0 := by
  ext i hi
  have := congrArg (BitVec.getLsbD · i) h
  simp only [SafeUrl.hi] at this
  grind

theorem bit_of_octet {g : Groups} {bit : Nat} (h : (octets g).getD (bit / 8) 0 = 0) :
    ((g.toList.getD (bit >>> 4) 0) >>> (15 - (bit &&& 15))) &&& 1 = 0 := by
  have hdiv : bit >>> 4 = bit / 16 := Nat.shiftRight_eq_div_pow bit 4
  have hmod : bit &&& 15 = bit % 16 := Nat.and_two_pow_sub_one_eq_mod bit 4
  rw [hdiv, hmod]
  rw [octets_getD, show bit / 8 / 2 = bit / 16 by omega] at h
  refine and_one_of_getLsbD ?_
  have bits {a : BitVec 8} (ha : a = 0) (i : Nat) : a.getLsbD i = false := by simp [ha]
  split at h
  · have hb := bits h (7 - bit % 16)
    simp only [hi, BitVec.getLsbD_extractLsb'] at hb
    rw [show 8 + (7 - bit % 16) = 15 - bit % 16 by omega] at hb
    simpa [show 7 - bit % 16 < 8 by omega] using hb
  · have hb := bits h (15 - bit % 16)
    simp only [lo] at hb
    simpa [show 15 - bit % 16 < 8 by omega] using hb

section Conformant

variable {p : Nat64Prefix} {v : BitVec 32} {g : Groups}

theorem suffix_clean (hg : Conformant p v g) : nat64SuffixDirty g p.len = false := by
  rw [nat64SuffixDirty, List.any_eq_false]
  intro bit hbit
  have hj : (octets g).getD (bit / 8) 0 = 0 := by
    obtain ⟨q, len, hl⟩ := p
    have hlt : bit / 8 < 16 := by grind [List.mem_range']
    refine hg.suffix _ hlt fun i hi => ?_
    simp only [nat64PrefixLengths, mem_cons, not_mem_nil, or_false] at hl
    rcases hl with rfl | rfl | rfl | rfl | rfl | rfl <;>
      simp [Form.positions, List.range_succ] at hi hbit <;> omega
  simpa using bit_of_octet hj

theorem classifyDeclared_of_conformant (hg : Conformant p v g) :
    classifyDeclared g p.len = classifyIpv4 v := by
  have hu : g.get 4 >>> 8 = 0 := by
    have h := hg.uOctet
    obtain ⟨g0, g1, g2, g3, g4, g5, g6, g7, rfl⟩ := exists_groups g
    exact shiftRight_of_hi h
  rw [classifyDeclared, nat64ReadAt_of_carries hg.carries, suffix_clean hg]
  simp [hu]

/-! ## the tunnels behind it -/

theorem within_getD (hin : Within p g) {j : Nat} (hj : j < p.len / 8) :
    (octets g).getD j 0 = (octets p.groups).getD j 0 := by
  have h := congrArg (fun l => l.getD j 0) hin
  simpa [hj] using h

theorem four_le (p : Nat64Prefix) : 4 ≤ p.len / 8 := by
  have h := p.valid
  simp only [nat64PrefixLengths, mem_cons, not_mem_nil, or_false] at h
  omega

theorem within_head (hin : Within p g) : g.get 0 = p.groups.get 0 ∧ g.get 1 = p.groups.get 1 := by
  have h4 := four_le p
  have h0 := within_getD hin (show 0 < _ by omega)
  have h1 := within_getD hin (show 1 < _ by omega)
  have h2 := within_getD hin (show 2 < _ by omega)
  have h3 := within_getD hin (show 3 < _ by omega)
  obtain ⟨g0, g1, g2, g3, g4, g5, g6, g7, rfl⟩ := exists_groups g
  obtain ⟨q, len, hl⟩ := p
  obtain ⟨q0, q1, q2, q3, q4, q5, q6, q7, rfl⟩ := exists_groups q
  exact ⟨group_eq_iff.mpr ⟨h0, h1⟩, group_eq_iff.mpr ⟨h2, h3⟩⟩

theorem first_ne_zero (hv : classifyIpv4 v = none) : (octets4 v).getD 0 0 ≠ 0 := by
  have h := not_inZeroNet_of_public hv
  rw [inZeroNet_iff] at h
  simpa [octets4] using h

/-- An ISATAP identifier in a conformant embedding is the prefix's own, or
formed by the embedded address at `/56`. -/
theorem isatap_of_conformant (hv : classifyIpv4 v = none) (hg : Conformant p v g)
    (hm : Form.isatap.Marked g) :
    p.len = 96 ∨ p.len = 56 ∧ (octets4 v).drop 1 = [0, 0x5e, 0xfe] := by
  have hoct : (octets g).getD 9 0 = 0 ∧ (octets g).getD 10 0 = 0x5e ∧
      (octets g).getD 11 0 = 0xfe := by
    obtain ⟨g0, g1, g2, g3, g4, g5, g6, g7, rfl⟩ := exists_groups g
    simp [Form.Marked, octets] at hm ⊢
    grind
  obtain ⟨h9, h10, h11⟩ := hoct
  have hfirst := first_ne_zero hv
  obtain ⟨-, ⟨-, hemb⟩, -, hsuffix⟩ := hg
  have hl := p.valid
  generalize p.len = len at *
  simp only [nat64PrefixLengths, mem_cons, not_mem_nil, or_false] at hl
  -- below `/56` the suffix covers the identifier, at `/64` the embedded address begins in it
  rcases hl with rfl | rfl | rfl | rfl | rfl | rfl
  · have := hsuffix 10 (by decide) (by decide)
    rw [h10] at this
    contradiction
  · have := hsuffix 10 (by decide) (by decide)
    rw [h10] at this
    contradiction
  · have := hsuffix 11 (by decide) (by decide)
    rw [h11] at this
    contradiction
  · have hpos : (Form.nat64 56).positions = [7, 9, 10, 11] := by decide
    rw [hpos] at hemb
    refine .inr ⟨rfl, ?_⟩
    rw [← hemb, List.map_cons, List.drop_one, List.tail_cons]
    simp only [List.map_cons, List.map_nil, h9, h10, h11]
  · rw [← hemb] at hfirst
    exact absurd h9 hfirst
  · exact .inl rfl

theorem classifyTunnels_eq_none_iff :
    classifyTunnels g = none ↔
      (Form.sixToFour.Marked g → classifyIpv4 (pair (g.get 1) (g.get 2)) = none) ∧
      ¬ (g.get 0 = 0x2001 ∧ g.get 1 = 0) ∧
      (Form.isatap.Marked g → classifyIpv4 (pair (g.get 6) (g.get 7)) = none) := by
  rw [classifyTunnels, marked_sixToFour_iff, marked_isatap_iff]
  split <;> split <;> simp_all

/-! ## the checks before it -/

theorem classifyIpv6_of_wrapped {q : Option Nat64Prefix}
    (h : Form.mapped.Marked g ∨ Form.translated.Marked g) :
    classifyIpv6 g q = classifyIpv4 (pair (g.get 6) (g.get 7)) := by
  rw [marked_mapped_iff, marked_translated_iff] at h
  rw [classifyIpv6]
  cases h with
  | inl hm => exact if_pos hm
  | inr ht =>
    obtain ⟨h0, h1, h2, h3, h4, h5⟩ := ht
    have hnot : ¬ ∀ i (hi : i < 8), g[i] = 0 := by
      intro hall
      have := h4.symm.trans (hall 4 (by omega))
      contradiction
    simp only [h0, h1, h2, h3, h4, h5]
    simp
    exact fun hall => absurd hall hnot

theorem classifyIpv6_of_plain {q : Option Nat64Prefix} (hm : ¬ Form.mapped.Marked g)
    (ht : ¬ Form.translated.Marked g)
    (hc : Form.compatible.Marked g → classifyIpv4 (pair (g.get 6) (g.get 7)) = none)
    (hula : g.get 0 &&& 0xfe00 ≠ 0xfc00) (hlink : g.get 0 &&& 0xffc0 ≠ 0xfe80)
    (hsite : g.get 0 &&& 0xffc0 ≠ 0xfec0) (hmulti : g.get 0 &&& 0xff00 ≠ 0xff00) :
    classifyIpv6 g q = classifyNat64 g q := by
  rw [marked_mapped_iff, AllZeroHigh] at hm
  rw [marked_translated_iff] at ht
  rw [marked_compatible_iff] at hc
  have hmeta : g.get 0 ≠ 0xfd00 := by
    intro h
    rw [h] at hula
    exact hula (by decide)
  have hzero : ¬ g.toList.all (· = 0) := by
    intro hz
    have hall : ∀ i (hi : i < 8), g[i] = 0 := by
      intro i hi
      have := List.all_eq_true.mp hz g[i] (by simp)
      simpa using this
    have := hc ⟨⟨hall 0 (by omega), hall 1 (by omega), hall 2 (by omega), hall 3 (by omega),
      hall 4 (by omega)⟩, hall 5 (by omega)⟩
    rw [show g.get 6 = 0 from hall 6 (by omega), show g.get 7 = 0 from hall 7 (by omega)] at this
    contradiction
  have hone : ¬ ((g.get 0 = 0 ∧ g.get 1 = 0 ∧ g.get 2 = 0 ∧ g.get 3 = 0 ∧ g.get 4 = 0) ∧
      g.get 5 = 0 ∧ g.get 6 = 0 ∧ g.get 7 = 1) := by
    rintro ⟨hhigh, h5, h6, h7⟩
    have := hc ⟨hhigh, h5⟩
    rw [h6, h7] at this
    contradiction
  have hcompat : (if (g.get 0 = 0 ∧ g.get 1 = 0 ∧ g.get 2 = 0 ∧ g.get 3 = 0 ∧ g.get 4 = 0) ∧
      g.get 5 = 0 ∧ (g.get 6 ≠ 0 ∨ g.get 7 ≠ 0) ∧ pair (g.get 6) (g.get 7) ≠ 1 then
      classifyIpv4 (pair (g.get 6) (g.get 7)) else none) = none := by
    split
    · next h => exact hc ⟨h.1, h.2.1⟩
    · rfl
  rw [classifyIpv6, if_neg hm, hcompat, Option.none_or, if_neg hzero, if_neg hone,
    if_neg fun h => hmeta h.1, if_neg ht, if_neg hula, if_neg hlink, if_neg hsite, if_neg hmulti]

/-- Only a `/96` embedding has its first five groups zero. -/
theorem len_of_allZeroHigh (hv : classifyIpv4 v = none) (hg : Conformant p v g)
    (hz : AllZeroHigh g) : p.len = 96 := by
  have hfirst := first_ne_zero hv
  obtain ⟨-, ⟨-, hemb⟩, -, -⟩ := hg
  have hl := p.valid
  obtain ⟨g0, g1, g2, g3, g4, g5, g6, g7, rfl⟩ := exists_groups g
  obtain ⟨rfl, rfl, rfl, rfl, rfl⟩ : g0 = 0 ∧ g1 = 0 ∧ g2 = 0 ∧ g3 = 0 ∧ g4 = 0 := hz
  rw [← hemb] at hfirst
  generalize p.len = len at *
  simp only [nat64PrefixLengths, mem_cons, not_mem_nil, or_false] at hl
  rcases hl with rfl | rfl | rfl | rfl | rfl | rfl
  case inr.inr.inr.inr.inr => rfl
  all_goals exact absurd rfl hfirst

/-- So does only a `/96` embedding wear the marks of the wrapping forms. -/
theorem len_of_marked (hv : classifyIpv4 v = none) (hg : Conformant p v g)
    (hm : Form.mapped.Marked g ∨ Form.compatible.Marked g ∨ Form.translated.Marked g) :
    p.len = 96 := by
  rw [marked_mapped_iff, marked_compatible_iff, marked_translated_iff] at hm
  rcases hm with hm | hm | ht
  · exact len_of_allZeroHigh hv hg hm.1
  · exact len_of_allZeroHigh hv hg hm.1
  · have h := hg.uOctet
    obtain ⟨g0, g1, g2, g3, g4, g5, g6, g7, rfl⟩ := exists_groups g
    obtain ⟨-, -, -, -, rfl, -⟩ : g0 = 0 ∧ g1 = 0 ∧ g2 = 0 ∧ g3 = 0 ∧ g4 = 0xffff ∧ g5 = 0 := ht
    have h8 : hi 0xffff = 0 := h
    exact absurd h8 (by decide)

/-- At `/96` the last two groups are what is embedded. -/
theorem pair_of_conformant (hg : Conformant p v g) (h96 : p.len = 96) :
    pair (g.get 6) (g.get 7) = v := by
  have := nat64ReadAt_of_carries hg.carries
  rw [h96] at this
  exact this

/-- Outside the blocked ranges a conformant embedding of a public address gets
to the NAT64 part, or is passed as what it wraps. -/
theorem classifyIpv6_of_conformant (hp : ¬ InBlockedRange p) (hv : classifyIpv4 v = none)
    (hg : Conformant p v g) :
    classifyIpv6 g (some p) = none ∧ p.len = 96 ∨ classifyIpv6 g (some p) = classifyTunnels g := by
  by_cases hw : Form.mapped.Marked g ∨ Form.translated.Marked g
  · have h96 := len_of_marked hv hg (by tauto)
    rw [classifyIpv6_of_wrapped hw, pair_of_conformant hg h96]
    exact .inl ⟨hv, h96⟩
  · have h0 := (within_head hg.within).1
    rw [InBlockedRange] at hp
    push Not at hp
    rw [← h0] at hp
    obtain ⟨hula, hlink, hsite, hmulti, -, -⟩ := hp
    have hc (h : Form.compatible.Marked g) : classifyIpv4 (pair (g.get 6) (g.get 7)) = none := by
      rw [pair_of_conformant hg (len_of_marked hv hg (.inr (.inl h)))]
      exact hv
    have hin : nat64InPrefix g p.groups p.len = true := nat64InPrefix_iff.mpr hg.within
    rw [classifyIpv6_of_plain (by tauto) (by tauto) hc hula hlink hsite hmulti]
    rw [classifyNat64, Option.filter_some, if_pos hin]
    exact .inr (by simp only [classifyDeclared_of_conformant hg, hv, Option.none_or])

/-- The 6to4 reading of a conformant embedding is public: the prefix holds its
first two octets, and at `/32` the third is the first of a public address. -/
theorem sixToFour_of_conformant (hp : ¬ InBlockedRange p) (hv : classifyIpv4 v = none)
    (hg : Conformant p v g) (hm : Form.sixToFour.Marked g) :
    classifyIpv4 (pair (g.get 1) (g.get 2)) = none := by
  have h0 := (within_head hg.within).1
  rw [marked_sixToFour_iff, h0] at hm
  obtain ⟨g', hin, hpub⟩ : ∃ g', Within p g' ∧ classifyIpv4 (pair (g'.get 1) (g'.get 2)) = none := by
    by_contra hall
    push Not at hall
    exact hp (.inr (.inr (.inr (.inr (.inr ⟨hm, hall⟩)))))
  have h4 := four_le p
  have hagree {j : Nat} (hj : j < p.len / 8) : (octets g).getD j 0 = (octets g').getD j 0 :=
    (within_getD hg.within hj).trans (within_getD hin hj).symm
  have hthird : (octets g).getD 4 0 = (octets g').getD 4 0 ∨ (octets g).getD 4 0 ≠ 0 := by
    by_cases h5 : 4 < p.len / 8
    · exact .inl (hagree h5)
    right
    have hfirst := first_ne_zero hv
    obtain ⟨-, ⟨-, hemb⟩, -, -⟩ := hg
    have hl := p.valid
    rw [← hemb] at hfirst
    generalize p.len = len at *
    simp only [nat64PrefixLengths, mem_cons, not_mem_nil, or_false] at hl
    obtain rfl : len = 32 := by omega
    exact hfirst
  have h2 := hagree (show 2 < _ by omega)
  have h3 := hagree (show 3 < _ by omega)
  obtain ⟨g0, g1, g2, g3, g4, g5, g6, g7, rfl⟩ := exists_groups g
  obtain ⟨k0, k1, k2, k3, k4, k5, k6, k7, rfl⟩ := exists_groups g'
  have hoct {a b : BitVec 16} : octets4 (pair a b) = [hi a, lo a, hi b, lo b] := octets4_pair a b
  simp only [octets4, List.cons.injEq] at hoct
  refine public_of_agree hpub ?_ ?_ ?_
  · exact hoct.1.trans (h2.trans hoct.1.symm)
  · exact hoct.2.1.trans (h3.trans hoct.2.1.symm)
  · rw [hoct.2.2.1, hoct.2.2.1]
    exact hthird

theorem classifyTunnels_of_conformant (hp : ¬ InBlockedRange p) (hv : classifyIpv4 v = none)
    (hg : Conformant p v g) :
    classifyTunnels g = none ↔ ¬ (p.len = 56 ∧ (octets4 v).drop 1 = [0, 0x5e, 0xfe]) := by
  rw [classifyTunnels_eq_none_iff]
  constructor
  · rintro ⟨_, _, hisatap⟩ ⟨h56, hoct⟩
    obtain ⟨-, ⟨-, hemb⟩, hu, hsuffix⟩ := hg
    have h12 := hsuffix 12 (by decide) (by rw [h56]; decide)
    have h13 := hsuffix 13 (by decide) (by rw [h56]; decide)
    have h14 := hsuffix 14 (by decide) (by rw [h56]; decide)
    have h15 := hsuffix 15 (by decide) (by rw [h56]; decide)
    have hpos : (Form.nat64 56).positions = [7, 9, 10, 11] := by decide
    rw [h56, hpos] at hemb
    rw [← hemb] at hoct
    obtain ⟨g0, g1, g2, g3, g4, g5, g6, g7, rfl⟩ := exists_groups g
    obtain ⟨rfl, rfl⟩ : g6 = 0 ∧ g7 = 0 :=
      ⟨group_eq_iff.mpr ⟨h12, h13⟩, group_eq_iff.mpr ⟨h14, h15⟩⟩
    have hu : hi g4 = 0 := hu
    have hmark : Form.isatap.Marked #v[g0, g1, g2, g3, g4, g5, 0, 0] := by
      simp [octets] at hoct
      simp [Form.Marked, octets, hu, hoct]
    have hzero : classifyIpv4 (pair 0 0) = none := hisatap hmark
    exact absurd hzero (by decide)
  · intro hnot
    have hhead := within_head hg.within
    refine ⟨sixToFour_of_conformant hp hv hg, fun hteredo => ?_, fun hm => ?_⟩
    · rw [hhead.1, hhead.2] at hteredo
      exact hp (.inr (.inr (.inr (.inr (.inl hteredo)))))
    · cases isatap_of_conformant hv hg hm with
      | inl h96 => rw [pair_of_conformant hg h96]; exact hv
      | inr h => exact absurd h hnot

end Conformant

/-- **Declared prefixes**: the conformant embedding of a public address under a
declared prefix outside the blocked ranges passes, except that of `x.0.94.254`
at `/56`, which reads as an ISATAP identifier. -/
theorem classifyIpv6_declared_public {p : Nat64Prefix} {v : BitVec 32} {g : Groups}
    (hp : ¬ InBlockedRange p) (hv : classifyIpv4 v = none) (hg : Conformant p v g) :
    classifyIpv6 g (some p) = none ↔
      ¬ (p.len = 56 ∧ (octets4 v).drop 1 = [0, 0x5e, 0xfe]) := by
  rcases classifyIpv6_of_conformant hp hv hg with ⟨hnone, h96⟩ | heq
  · refine iff_of_true hnone fun h => ?_
    rw [h96] at h
    exact absurd h.1 (by decide)
  · rw [heq]
    exact classifyTunnels_of_conformant hp hv hg

deriving instance DecidableEq for Nat64Prefix

theorem mem_nat64PrefixLengths : 56 ∈ nat64PrefixLengths := by decide

/-- The prefix `2001:db8:1:100::/56`. -/
def documented : Nat64Prefix :=
  ⟨#v[0x2001, 0xdb8, 1, 0x100, 0, 0, 0, 0], 56, mem_nat64PrefixLengths⟩

theorem documented_not_inBlockedRange : ¬ InBlockedRange documented := by
  rintro (h | h | h | h | ⟨-, h⟩ | ⟨h, -⟩) <;> exact absurd h (by decide)

/-- 8.8.8.8 under it passes. -/
theorem classifyIpv6_declared_public_example :
    classifyIpv6 #v[0x2001, 0xdb8, 1, 0x108, 0x8, 0x808, 0, 0] (some documented) = none :=
  (classifyIpv6_declared_public (v := 0x08080808) documented_not_inBlockedRange (by decide)
    ⟨by decide, ⟨by decide, by decide⟩, by decide, by decide⟩).mpr (by decide)

/-- 8.0.94.254 under it is public and is refused. -/
theorem classifyIpv6_declared_refused :
    ¬ ∀ (spec : JsString) (p : Nat64Prefix) (v : BitVec 32) (g : Groups),
      parseNat64Prefix (some spec) = some p → ¬ InBlockedRange p → classifyIpv4 v = none →
      Conformant p v g → classifyIpv6 g (some p) = none := by
  intro h
  have := h (js "2001:db8:1:100::/56") documented 0x08005efe
    #v[0x2001, 0xdb8, 1, 0x108, 0, 0x5efe, 0, 0] (by decide +kernel) documented_not_inBlockedRange
    (by decide) ⟨by decide, ⟨by decide, by decide⟩, by decide, by decide⟩
  exact absurd this (by decide)

end BunServe.SafeUrl
