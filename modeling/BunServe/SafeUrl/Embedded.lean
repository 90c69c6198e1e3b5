import BunServe.SafeUrl

/-!
# BunServe.SafeUrl.Embedded

No blocked IPv4 address gets through `classifyIpv6` inside an IPv6 address.

`Carries` says which address a form embeds, octet by octet and without the
classifier's shifts: a form is a pattern on some octets (`Marked`) and the
four octets that hold the IPv4 address (`positions`), for NAT64 those after
the prefix with the u-octet stepped over.  `octets4_nat64ReadAt` ties the
classifier's readings to it.

`classifyIpv6_eq_none` says once what a `none` answer means; every form then
contradicts one of its parts (`classifyIpv6_of_carries`).  A declared prefix is
read at its own length only, so at another length a blocked address passes
(`classifyIpv6_declared_short`).
-/

namespace BunServe.SafeUrl

/-! ## octets -/

/-- The high octet of a group. -/
def hi (x : BitVec 16) : BitVec 8 := x.extractLsb' 8 8

/-- The low octet of a group. -/
def lo (x : BitVec 16) : BitVec 8 := x.extractLsb' 0 8

/-- The sixteen octets of an IPv6 address, in network order. -/
def octets (g : Groups) : List (BitVec 8) := g.toList.flatMap fun x => [hi x, lo x]

/-- The four octets of an IPv4 address, in network order. -/
def octets4 (v : BitVec 32) : List (BitVec 8) :=
  [v.extractLsb' 24 8, v.extractLsb' 16 8, v.extractLsb' 8 8, v.extractLsb' 0 8]

theorem group_eq_iff {x y : BitVec 16} : x = y ↔ hi x = hi y ∧ lo x = lo y := by
  refine ⟨fun h => by simp [h], fun ⟨hhi, hlo⟩ => ?_⟩
  have bits {a b : BitVec 8} (h : a = b) (j : Nat) : a.getLsbD j = b.getLsbD j := by rw [h]
  ext i hi
  have h8 := bits hhi (i - 8)
  have h0 := bits hlo i
  simp only [SafeUrl.hi, lo] at h8 h0
  grind

theorem hi_and_ff00 (x : BitVec 16) : hi (x &&& 0xff00#16) = hi x := by
  have hmask : hi 0xff00#16 = BitVec.allOnes 8 := by decide
  have hand : hi (x &&& 0xff00#16) = hi x &&& hi 0xff00#16 := by simp only [hi, BitVec.extractLsb'_and]
  rw [hand, hmask, BitVec.and_allOnes]

theorem lo_and_ff00 (x : BitVec 16) : lo (x &&& 0xff00#16) = 0 := by
  have hand : lo (x &&& 0xff00#16) = lo x &&& lo 0xff00#16 := by simp only [lo, BitVec.extractLsb'_and]
  rw [hand]
  exact BitVec.and_zero

theorem and_ff00_eq_iff {x y : BitVec 16} : x &&& 0xff00#16 = y &&& 0xff00#16 ↔ hi x = hi y := by
  rw [group_eq_iff, hi_and_ff00, hi_and_ff00, lo_and_ff00, lo_and_ff00]
  simp

variable {v : BitVec 32}

theorem octets4_inj {w : BitVec 32} (h : octets4 v = octets4 w) : v = w := by
  simp only [octets4, List.cons.injEq, and_true] at h
  obtain ⟨h24, h16, h8, h0⟩ := h
  have bits {a b : BitVec 8} (h : a = b) (j : Nat) : a.getLsbD j = b.getLsbD j := by rw [h]
  ext i hi
  have k24 := bits h24 (i - 24)
  have k16 := bits h16 (i - 16)
  have k8 := bits h8 (i - 8)
  have k0 := bits h0 i
  grind

@[simp]
theorem get_groups (a b c d e f g h : BitVec 16) :
    Vector.get #v[a, b, c, d, e, f, g, h] 0 = a ∧ Vector.get #v[a, b, c, d, e, f, g, h] 1 = b ∧
      Vector.get #v[a, b, c, d, e, f, g, h] 2 = c ∧ Vector.get #v[a, b, c, d, e, f, g, h] 3 = d ∧
      Vector.get #v[a, b, c, d, e, f, g, h] 4 = e ∧ Vector.get #v[a, b, c, d, e, f, g, h] 5 = f ∧
      Vector.get #v[a, b, c, d, e, f, g, h] 6 = g ∧ Vector.get #v[a, b, c, d, e, f, g, h] 7 = h :=
  ⟨rfl, rfl, rfl, rfl, rfl, rfl, rfl, rfl⟩

theorem exists_groups (g : Groups) :
    ∃ g0 g1 g2 g3 g4 g5 g6 g7, g = #v[g0, g1, g2, g3, g4, g5, g6, g7] :=
  ⟨g.get 0, g.get 1, g.get 2, g.get 3, g.get 4, g.get 5, g.get 6, g.get 7, by
    refine Vector.ext fun i hi => ?_
    obtain rfl | rfl | rfl | rfl | rfl | rfl | rfl | rfl : i = 0 ∨ i = 1 ∨ i = 2 ∨ i = 3 ∨ i = 4 ∨
      i = 5 ∨ i = 6 ∨ i = 7 := by omega
    all_goals rfl⟩

/-! ## the readings -/

theorem setWidth_and_ff (x : BitVec 16) : (x &&& 0xff).setWidth 32 = (lo x).setWidth 32 := by
  have h : x &&& 0xff = 0#8 ++ x.setWidth 8 := by
    change x &&& (BitVec.allOnes 8).setWidth (8 + 8) = _
    rw [BitVec.and_setWidth_allOnes 8 8]
  rw [h]
  simp [lo]
  grind

theorem setWidth_shiftRight (x : BitVec 16) : (x >>> 8).setWidth 32 = (hi x).setWidth 32 := by
  simp [SafeUrl.hi]
  grind

theorem octets4_pair (a b : BitVec 16) : octets4 (pair a b) = [hi a, lo a, hi b, lo b] := by
  simp only [octets4, pair, hi, lo, List.cons.injEq, and_true]
  refine ⟨?_, ?_, ?_, ?_⟩ <;> ext i hi <;> simp <;> grind

/-- The octets of a reading that straddles the groups as `/40` and `/64` do. -/
theorem octets4_1_2_1 (a : BitVec 8) (b : BitVec 16) (c : BitVec 8) :
    octets4 ((a.setWidth 32 <<< 24) ||| (b.setWidth 32 <<< 8) ||| c.setWidth 32) =
      [a, hi b, lo b, c] := by
  simp only [octets4, hi, lo, List.cons.injEq, and_true]
  refine ⟨?_, ?_, ?_, ?_⟩ <;> ext i hi <;> simp <;> grind

/-- The octets of a reading that straddles the groups as `/48` does. -/
theorem octets4_2_1_1 (a : BitVec 16) (b c : BitVec 8) :
    octets4 ((a.setWidth 32 <<< 16) ||| (b.setWidth 32 <<< 8) ||| c.setWidth 32) =
      [hi a, lo a, b, c] := by
  simp only [octets4, hi, lo, List.cons.injEq, and_true]
  refine ⟨?_, ?_, ?_, ?_⟩ <;> ext i hi <;> simp <;> grind

/-- The octets of a reading that straddles the groups as `/56` does. -/
theorem octets4_1_1_2 (a b : BitVec 8) (c : BitVec 16) :
    octets4 ((a.setWidth 32 <<< 24) ||| (b.setWidth 32 <<< 16) ||| c.setWidth 32) =
      [a, b, hi c, lo c] := by
  simp only [octets4, hi, lo, List.cons.injEq, and_true]
  refine ⟨?_, ?_, ?_, ?_⟩ <;> ext i hi <;> simp <;> grind

/-! ## what an address carries -/

/-- How an IPv6 address can embed an IPv4 address. -/
inductive Form where
  | mapped | compatible | translated | sixToFour | isatap
  | nat64 (len : Nat)

/-- The octets of the address that `f` puts the IPv4 address in.  NAT64 puts it
after the prefix and steps over octet 8, unless the prefix covers it. -/
def Form.positions : Form → List Nat
  | .sixToFour => [2, 3, 4, 5]
  | .nat64 len => (List.range 4).map fun i =>
    if len / 8 ≤ 8 ∧ 8 ≤ len / 8 + i then len / 8 + i + 1 else len / 8 + i
  | _ => [12, 13, 14, 15]

/-- The octets that tell the form. -/
def Form.Marked : Form → Groups → Prop
  | .mapped, g => (octets g).take 12 = [0, 0, 0, 0, 0, 0, 0, 0, 0, 0, 0xff, 0xff]
  | .compatible, g => (octets g).take 12 = List.replicate 12 0
  | .translated, g => (octets g).take 12 = [0, 0, 0, 0, 0, 0, 0, 0, 0xff, 0xff, 0, 0]
  | .sixToFour, g => (octets g).take 2 = [0x20, 0x02]
  | .isatap, g => ((octets g).drop 8).take 4 = [0, 0, 0x5e, 0xfe] ∨
      ((octets g).drop 8).take 4 = [2, 0, 0x5e, 0xfe]
  | .nat64 len, _ => len ∈ nat64PrefixLengths

instance : (f : Form) → (g : Groups) → Decidable (f.Marked g)
  | .mapped, _ | .compatible, _ | .translated, _ | .sixToFour, _ => inferInstanceAs (Decidable (_ = _))
  | .isatap, _ => inferInstanceAs (Decidable (_ ∨ _))
  | .nat64 len, _ => inferInstanceAs (Decidable (len ∈ _))

/-- `g` embeds `v` in the form `f`. -/
structure Carries (f : Form) (g : Groups) (v : BitVec 32) : Prop where
  marked : f.Marked g
  embedded : f.positions.map (fun j => (octets g).getD j 0) = octets4 v

/-- `g` is inside `64:ff9b::/32`. -/
def WellKnown (g : Groups) : Prop := (octets g).take 4 = [0x00, 0x64, 0xff, 0x9b]

/-- `g` is inside the declared prefix `p`: every length is a whole number of
octets. -/
def Within (p : Nat64Prefix) (g : Groups) : Prop :=
  (octets g).take (p.len / 8) = (octets p.groups).take (p.len / 8)

/-- `v` is in `0.0.0.0/8`. -/
def InZeroNet (v : BitVec 32) : Prop := v >>> 24 = 0

instance (g : Groups) : Decidable (WellKnown g) := inferInstanceAs (Decidable (_ = _))

instance (p : Nat64Prefix) (g : Groups) : Decidable (Within p g) :=
  inferInstanceAs (Decidable (_ = _))

instance (v : BitVec 32) : Decidable (InZeroNet v) := inferInstanceAs (Decidable (_ = _))

variable {g : Groups} {len : Nat}

theorem octets4_nat64ReadAt (hl : len ∈ nat64PrefixLengths) :
    octets4 (nat64ReadAt g len) = (Form.nat64 len).positions.map fun j => (octets g).getD j 0 := by
  obtain ⟨g0, g1, g2, g3, g4, g5, g6, g7, rfl⟩ := exists_groups g
  simp only [nat64PrefixLengths, List.mem_cons, List.not_mem_nil, or_false] at hl
  rcases hl with rfl | rfl | rfl | rfl | rfl | rfl <;>
    simp only [nat64ReadAt, Nat.reduceEqDiff, if_true, if_false, setWidth_and_ff,
      setWidth_shiftRight, octets4_pair, octets4_1_2_1, octets4_2_1_1, octets4_1_1_2] <;>
    simp [Form.positions, octets, List.range_succ]

theorem nat64ReadAt_of_carries (hc : Carries (.nat64 len) g v) : nat64ReadAt g len = v :=
  octets4_inj ((octets4_nat64ReadAt hc.marked).trans hc.embedded)

theorem pair_of_carries {f : Form} (hc : Carries f g v)
    (hp : f.positions = [12, 13, 14, 15]) : pair (g.get 6) (g.get 7) = v := by
  have he := hc.embedded
  rw [hp] at he
  refine octets4_inj (Eq.trans ?_ he)
  obtain ⟨g0, g1, g2, g3, g4, g5, g6, g7, rfl⟩ := exists_groups g
  simp [octets4_pair, octets]

theorem nat64InPrefix_iff {p : Nat64Prefix} :
    nat64InPrefix g p.groups p.len = true ↔ Within p g := by
  obtain ⟨q, len, hl⟩ := p
  obtain ⟨g0, g1, g2, g3, g4, g5, g6, g7, rfl⟩ := exists_groups g
  obtain ⟨q0, q1, q2, q3, q4, q5, q6, q7, rfl⟩ := exists_groups q
  simp only [nat64PrefixLengths, List.mem_cons, List.not_mem_nil, or_false] at hl
  rcases hl with rfl | rfl | rfl | rfl | rfl | rfl <;>
    simp only [nat64InPrefix, Within, octets] <;>
    simp [List.range_succ, and_ff00_eq_iff] <;>
    simp only [group_eq_iff, and_assoc]

/-! ## what `none` means -/

/-- `64:ff9b::/32` with no declaration passes only when no reading outside
`0.0.0.0/8` is blocked. -/
theorem classifyWellKnown_eq_none (h : classifyWellKnown g = none)
    (hl : len ∈ nat64PrefixLengths) (hz : ¬ InZeroNet (nat64ReadAt g len)) :
    classifyIpv4 (nat64ReadAt g len) = none := by
  rw [classifyWellKnown, Option.or_eq_none_iff, List.findSome?_eq_none_iff] at h
  have := h.1 _ (List.mem_map_of_mem hl)
  rwa [if_neg fun hskip => hz hskip.2] at this

theorem classifyTunnels_eq_none (h : classifyTunnels g = none) :
    (g.get 0 = 0x2002 → classifyIpv4 (pair (g.get 1) (g.get 2)) = none) ∧
      ((g.get 4 = 0 ∨ g.get 4 = 0x0200) → g.get 5 = 0x5efe → classifyIpv4 (pair (g.get 6) (g.get 7)) = none) := by
  rw [classifyTunnels, Option.or_eq_none_iff] at h
  obtain ⟨h6to4, hrest⟩ := h
  refine ⟨fun hg => by rwa [if_pos hg] at h6to4, fun h4 h5 => ?_⟩
  split at hrest
  · contradiction
  · rwa [if_pos ⟨h4, h5⟩] at hrest

theorem wellKnown_iff : WellKnown g ↔ g.get 0 = 0x0064 ∧ g.get 1 = 0xff9b := by
  obtain ⟨g0, g1, g2, g3, g4, g5, g6, g7, rfl⟩ := exists_groups g
  simp only [WellKnown, octets, group_eq_iff]
  simp [hi, lo, and_assoc]

/-- `g` is in the declared prefix, if there is one. -/
def Declared (p : Option Nat64Prefix) (g : Groups) : Prop := ∃ q, p = some q ∧ Within q g

/-- The NAT64 part passes in three ways: the declared reading is public, no
reading of the well-known span is blocked, or neither applies; the tunnels are
checked in the first and the last. -/
theorem classifyNat64_eq_none {p : Option Nat64Prefix} (h : classifyNat64 g p = none) :
    (∀ q, p = some q → Within q g → classifyIpv4 (nat64ReadAt g q.len) = none) ∧
      (¬ Declared p g → WellKnown g → classifyWellKnown g = none) ∧
      (Declared p g ∨ ¬ WellKnown g → classifyTunnels g = none) := by
  rw [classifyNat64] at h
  split at h
  · next q hq =>
    obtain ⟨hp, hin⟩ := Option.filter_eq_some_iff.mp hq
    have hin : Within q g := nat64InPrefix_iff.mp hin
    rw [Option.or_eq_none_iff, classifyDeclared, Option.or_eq_none_iff] at h
    refine ⟨fun q' hq' _ => ?_, absurd ⟨q, hp, hin⟩, fun _ => h.2⟩
    rw [← Option.some.inj (hp.symm.trans hq')]
    exact h.1.1
  · next hq =>
    have hnot : ∀ q, p = some q → ¬ Within q g := by
      intro q hp hin
      rw [Option.filter_eq_none_iff] at hq
      exact hq q hp (nat64InPrefix_iff.mpr hin)
    refine ⟨fun q hp hin => absurd hin (hnot q hp), fun _ hw => ?_, fun hd => ?_⟩
    · rwa [if_pos (wellKnown_iff.mp hw)] at h
    · cases hd with
      | inl hd => exact absurd hd.choose_spec.2 (hnot _ hd.choose_spec.1)
      | inr hw => rwa [if_neg fun hg => hw (wellKnown_iff.mpr hg)] at h

section Marks

variable {g : Groups}

/-- The first five groups are zero, as in the mapped and compatible forms. -/
def AllZeroHigh (g : Groups) : Prop :=
  g.get 0 = 0 ∧ g.get 1 = 0 ∧ g.get 2 = 0 ∧ g.get 3 = 0 ∧ g.get 4 = 0

theorem marked_mapped_iff : Form.mapped.Marked g ↔ AllZeroHigh g ∧ g.get 5 = 0xffff := by
  obtain ⟨g0, g1, g2, g3, g4, g5, g6, g7, rfl⟩ := exists_groups g
  simp only [Form.Marked, octets, AllZeroHigh, group_eq_iff]
  simp [hi, lo, and_assoc]

theorem marked_compatible_iff : Form.compatible.Marked g ↔ AllZeroHigh g ∧ g.get 5 = 0 := by
  obtain ⟨g0, g1, g2, g3, g4, g5, g6, g7, rfl⟩ := exists_groups g
  simp only [Form.Marked, octets, AllZeroHigh, group_eq_iff]
  simp [hi, lo, and_assoc]

theorem marked_translated_iff : Form.translated.Marked g ↔
    g.get 0 = 0 ∧ g.get 1 = 0 ∧ g.get 2 = 0 ∧ g.get 3 = 0 ∧ g.get 4 = 0xffff ∧ g.get 5 = 0 := by
  obtain ⟨g0, g1, g2, g3, g4, g5, g6, g7, rfl⟩ := exists_groups g
  simp only [Form.Marked, octets, group_eq_iff]
  simp [hi, lo, and_assoc]

theorem marked_sixToFour_iff : Form.sixToFour.Marked g ↔ g.get 0 = 0x2002 := by
  obtain ⟨g0, g1, g2, g3, g4, g5, g6, g7, rfl⟩ := exists_groups g
  simp only [Form.Marked, octets, group_eq_iff]
  simp [hi, lo]

theorem marked_isatap_iff :
    Form.isatap.Marked g ↔ (g.get 4 = 0 ∨ g.get 4 = 0x0200) ∧ g.get 5 = 0x5efe := by
  obtain ⟨g0, g1, g2, g3, g4, g5, g6, g7, rfl⟩ := exists_groups g
  simp only [Form.Marked, octets, group_eq_iff]
  simp [hi, lo]
  grind

theorem pair_eq_one_iff {a b : BitVec 16} : pair a b = 1 ↔ a = 0 ∧ b = 1 := by
  refine ⟨fun h => ?_, fun ⟨ha, hb⟩ => by subst ha hb; decide⟩
  have ho := congrArg octets4 h
  rw [octets4_pair] at ho
  rw [group_eq_iff, group_eq_iff]
  simpa [octets4, hi, lo, and_assoc] using ho

end Marks

/-- What `classifyIpv6` has checked when it answers `none`: the embedded
address where the address is of the mapped, compatible or translated form, and
the NAT64 part unless it is of the first or the last. -/
theorem classifyIpv6_eq_none {p : Option Nat64Prefix} (h : classifyIpv6 g p = none) :
    (Form.mapped.Marked g ∨ Form.compatible.Marked g ∨ Form.translated.Marked g →
      classifyIpv4 (pair (g.get 6) (g.get 7)) = none) ∧
    (¬ Form.mapped.Marked g → ¬ Form.translated.Marked g → classifyNat64 g p = none) := by
  rw [marked_mapped_iff, marked_compatible_iff, marked_translated_iff]
  rw [classifyIpv6] at h
  split at h
  · next hmapped => exact ⟨fun _ => h, absurd hmapped⟩
  rename_i hmapped
  rw [Option.or_eq_none_iff] at h
  obtain ⟨hcompat, h⟩ := h
  split at h
  · contradiction
  next hzero =>
  split at h
  · contradiction
  next hone =>
  split at h
  · contradiction
  split at h
  · next htrans => exact ⟨fun _ => h, fun _ ht => absurd htrans ht⟩
  next htrans =>
  refine ⟨fun hform => ?_, fun _ _ => ?_⟩
  · rcases hform with hm | ⟨⟨h0, h1, h2, h3, h4⟩, h5⟩ | ht
    · exact absurd hm hmapped
    · -- `::` and `::1` have answered before; any other value has been classified
      have hv : (g.get 6 ≠ 0 ∨ g.get 7 ≠ 0) ∧ pair (g.get 6) (g.get 7) ≠ 1 := by
        constructor
        · by_contra hall
          obtain ⟨g0, g1, g2, g3, g4, g5, g6, g7, rfl⟩ := exists_groups g
          simp_all
        · intro he
          have := pair_eq_one_iff.mp he
          exact hone ⟨⟨h0, h1, h2, h3, h4⟩, h5, this.1, this.2⟩
      rwa [if_pos ⟨⟨h0, h1, h2, h3, h4⟩, h5, hv.1, hv.2⟩] at hcompat
    · exact absurd ht htrans
  · repeat (split at h; · contradiction)
    exact h

/-! ## no smuggling -/

/-- Where the classifier examines the address that a form carries: everywhere
for the forms told by their own octets; for NAT64 at every length inside
`64:ff9b::/32`, and inside the declared prefix at its length.  `0.0.0.0/8` is
left to NAT64 padding.  The two exclusions are places where another form
answers first: an ISATAP identifier inside `64:ff9b::/32` on `0.0.0.0/8`, and
a translated address inside a declared `::/64`. -/
def Examined (p : Option Nat64Prefix) : Form → Groups → BitVec 32 → Prop
  | .nat64 len, g, v => ¬ InZeroNet v ∧
      ((WellKnown g ∧ ¬ Declared p g) ∨
        ∃ q, p = some q ∧ Within q g ∧ q.len = len ∧ ¬ (len = 64 ∧ Form.translated.Marked g))
  | .isatap, g, v => ¬ (WellKnown g ∧ ¬ Declared p g ∧ InZeroNet v)
  | _, _, _ => True

theorem inZeroNet_iff : InZeroNet v ↔ (octets4 v).head? = some 0 := by
  have h : v >>> 24 = (v.extractLsb' 24 8).setWidth 32 := by
    ext i hi
    grind
  rw [InZeroNet, h]
  simp only [octets4, List.head?_cons, Option.some.injEq]
  constructor
  · intro he
    have := congrArg (BitVec.setWidth 8) he
    simpa using this
  · intro he
    rw [he]
    rfl

/-- Inside the mapped or translated form a NAT64 length other than `/96` (and
`/64` for the latter) reads zeros in the first octet. -/
theorem inZeroNet_of_carries (hc : Carries (.nat64 len) g v) (h96 : len ≠ 96)
    (hg : Form.mapped.Marked g ∨ Form.translated.Marked g ∧ len ≠ 64) : InZeroNet v := by
  have hm : len ∈ nat64PrefixLengths := hc.marked
  rw [inZeroNet_iff, ← hc.embedded]
  rw [marked_mapped_iff, marked_translated_iff] at hg
  obtain ⟨g0, g1, g2, g3, g4, g5, g6, g7, rfl⟩ := exists_groups g
  simp only [nat64PrefixLengths, List.mem_cons, List.not_mem_nil, or_false] at hm
  rcases hm with rfl | rfl | rfl | rfl | rfl | rfl <;>
    simp [Form.positions, octets, List.range_succ, AllZeroHigh] at h96 hg ⊢ <;>
    grind [hi, lo]

theorem not_wellKnown_of_marked
    (h : Form.mapped.Marked g ∨ Form.translated.Marked g) : ¬ WellKnown g := by
  rw [marked_mapped_iff, marked_translated_iff] at h
  obtain ⟨g0, g1, g2, g3, g4, g5, g6, g7, rfl⟩ := exists_groups g
  intro hw
  simp [WellKnown, octets, AllZeroHigh] at hw h
  grind [hi, lo]

theorem pair_of_carries_sixToFour (hc : Carries .sixToFour g v) :
    pair (g.get 1) (g.get 2) = v := by
  refine octets4_inj (Eq.trans ?_ hc.embedded)
  obtain ⟨g0, g1, g2, g3, g4, g5, g6, g7, rfl⟩ := exists_groups g
  simp [octets4_pair, octets, Form.positions]

/-- A 6to4 address is neither mapped, translated nor inside `64:ff9b::/32`. -/
theorem not_marked_of_sixToFour (h : Form.sixToFour.Marked g) :
    ¬ Form.mapped.Marked g ∧ ¬ Form.translated.Marked g ∧ ¬ WellKnown g := by
  rw [marked_sixToFour_iff] at h
  rw [marked_mapped_iff, marked_translated_iff, wellKnown_iff, AllZeroHigh, h]
  refine ⟨fun hm => ?_, fun ht => ?_, fun hw => ?_⟩
  · exact absurd hm.1.1 (by decide)
  · exact absurd ht.1 (by decide)
  · exact absurd hw.1 (by decide)

theorem not_marked_of_isatap (h : Form.isatap.Marked g) :
    ¬ Form.mapped.Marked g ∧ ¬ Form.translated.Marked g := by
  rw [marked_isatap_iff] at h
  rw [marked_mapped_iff, marked_translated_iff, h.2]
  refine ⟨fun hm => ?_, fun ht => ?_⟩
  · exact absurd hm.2 (by decide)
  · exact absurd ht.2.2.2.2.2 (by decide)

/-- **No smuggling**: an address that carries a blocked IPv4 address where the
classifier examines it is blocked. -/
theorem classifyIpv6_of_carries {p : Option Nat64Prefix} {f : Form} {g : Groups} {v : BitVec 32}
    (hblocked : classifyIpv4 v ≠ none) (hc : Carries f g v) (hex : Examined p f g v) :
    classifyIpv6 g p ≠ none := by
  intro h
  obtain ⟨hunwrap, hnat⟩ := classifyIpv6_eq_none h
  cases f with
  | mapped => exact hblocked (pair_of_carries hc rfl ▸ hunwrap (.inl hc.marked))
  | compatible => exact hblocked (pair_of_carries hc rfl ▸ hunwrap (.inr (.inl hc.marked)))
  | translated => exact hblocked (pair_of_carries hc rfl ▸ hunwrap (.inr (.inr hc.marked)))
  | sixToFour =>
    obtain ⟨hm, ht, hw⟩ := not_marked_of_sixToFour hc.marked
    have htunnels := (classifyNat64_eq_none (hnat hm ht)).2.2 (.inr hw)
    have := (classifyTunnels_eq_none htunnels).1 (marked_sixToFour_iff.mp hc.marked)
    exact hblocked (pair_of_carries_sixToFour hc ▸ this)
  | isatap =>
    obtain ⟨hm, ht⟩ := not_marked_of_isatap hc.marked
    obtain ⟨-, hwell, htunnels⟩ := classifyNat64_eq_none (hnat hm ht)
    have hv : pair (g.get 6) (g.get 7) = v := pair_of_carries hc rfl
    by_cases hw : WellKnown g ∧ ¬ Declared p g
    · -- the `/96` reading is the ISATAP address
      have hread : nat64ReadAt g 96 = v := hv
      have hz : ¬ InZeroNet (nat64ReadAt g 96) := fun hz => hex ⟨hw.1, hw.2, hread ▸ hz⟩
      have := classifyWellKnown_eq_none (hwell hw.2 hw.1) (by decide) hz
      exact hblocked (hread ▸ this)
    · have hg := marked_isatap_iff.mp hc.marked
      have := (classifyTunnels_eq_none (htunnels (by tauto))).2 hg.1 hg.2
      exact hblocked (hv ▸ this)
  | nat64 len =>
    have hread := nat64ReadAt_of_carries hc
    obtain ⟨hz, hplace⟩ := hex
    rcases hplace with ⟨hw, hd⟩ | ⟨q, hp, hin, rfl, hnot⟩
    · have hm : ¬ Form.mapped.Marked g := fun hm => not_wellKnown_of_marked (.inl hm) hw
      have ht : ¬ Form.translated.Marked g := fun ht => not_wellKnown_of_marked (.inr ht) hw
      have hwell := (classifyNat64_eq_none (hnat hm ht)).2.1 hd hw
      have := classifyWellKnown_eq_none hwell hc.marked (by rwa [hread])
      exact hblocked (hread ▸ this)
    · by_cases h96 : q.len = 96
      · -- the declared reading and the unwrapped address coincide
        have hv : pair (g.get 6) (g.get 7) = v := by rw [← hread, h96]; rfl
        by_cases hmt : Form.mapped.Marked g ∨ Form.translated.Marked g
        · exact hblocked (hv ▸ hunwrap (by tauto))
        · have := (classifyNat64_eq_none (hnat (by tauto) (by tauto))).1 q hp hin
          exact hblocked (hread ▸ this)
      · have hm : ¬ Form.mapped.Marked g := fun hm => hz (inZeroNet_of_carries hc h96 (.inl hm))
        have ht : ¬ Form.translated.Marked g := fun ht =>
          hz (inZeroNet_of_carries hc h96 (.inr ⟨ht, fun h64 => hnot ⟨h64, ht⟩⟩))
        have := (classifyNat64_eq_none (hnat hm ht)).1 q hp hin
        exact hblocked (hread ▸ this)

/-- The metadata address under a declared `/48` with a junk suffix is blocked. -/
theorem classifyIpv6_of_carries_metadata :
    classifyIpv6 #v[0x2001, 0xdb8, 1, 0xa9fe, 0xa9, 0xfe00, 0x808, 0x808]
      (some ⟨#v[0x2001, 0xdb8, 1, 0, 0, 0, 0, 0], 48, by decide⟩) ≠ none :=
  classifyIpv6_of_carries (f := .nat64 48) (v := 0xa9fea9fe) (by decide) ⟨by decide, by decide⟩
    ⟨by decide, .inr ⟨_, rfl, by decide, rfl, by decide⟩⟩

/-- A declared prefix is read at its own length only: 10.0.0.0 embedded at
`/56` inside a declared `/48` reads as the public 200.10.0.0 and passes. -/
theorem classifyIpv6_declared_short :
    ¬ ∀ (p : Option Nat64Prefix) (f : Form) (g : Groups) (v : BitVec 32), classifyIpv4 v ≠ none →
      Carries f g v →
      (∀ len, f = .nat64 len → ¬ InZeroNet v ∧ (WellKnown g ∨ Declared p g)) →
      classifyIpv6 g p ≠ none := by
  intro h
  refine h (some ⟨#v[0x2001, 0xdb8, 1, 0, 0, 0, 0, 0], 48, by decide⟩) (.nat64 56)
    #v[0x2001, 0xdb8, 1, 0xc80a, 0, 0, 0, 0] 0x0a000000 (by decide) ⟨by decide, by decide⟩
    (fun len hlen => ⟨by decide, .inr ⟨_, rfl, by decide⟩⟩) (by decide)

end BunServe.SafeUrl
