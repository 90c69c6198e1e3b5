import BunServe.Lib.JsString

/-!
# BunServe.Lib.Utf8

UTF-8 between JavaScript strings and bytes: `TextEncoder.encode` and
`TextDecoder.decode` with their default options.

Encoding goes through scalar values, so a lone surrogate becomes U+FFFD.
Decoding is the state machine of the encoding standard (a malformed sequence
becomes one U+FFFD and the byte that broke it is read again), and a leading
U+FEFF is taken for a byte order mark and dropped.

* `decode_encode` — what a string becomes on the way through both;
* `decode_encode_eq_iff` — a string survives exactly when it is well formed
  and does not start with U+FEFF.
-/

namespace BunServe.Utf8

open List (cons_append flatMap_cons length_append length_nil nil_append)

/-! ## scalar values -/

/-- The replacement character. -/
def replacement : Nat := 0xfffd

/-- The byte order mark. -/
def bom : Nat := 0xfeff

def isHigh (u : UInt16) : Bool := 0xd800 ≤ u.toNat && u.toNat < 0xdc00

def isLow (u : UInt16) : Bool := 0xdc00 ≤ u.toNat && u.toNat < 0xe000

/-- The code point of a surrogate pair. -/
def pairPoint (u v : UInt16) : Nat := 0x10000 + (u.toNat - 0xd800) * 0x400 + (v.toNat - 0xdc00)

/-- The scalar values of a string; a lone surrogate is replaced. -/
def scalars : JsString → List Nat
  | [] => []
  | [u] => if isHigh u || isLow u then [replacement] else [u.toNat]
  | u :: v :: s =>
    if isHigh u then
      if isLow v then pairPoint u v :: scalars s else replacement :: scalars (v :: s)
    else if isLow u then replacement :: scalars (v :: s)
    else u.toNat :: scalars (v :: s)

/-- `s.isWellFormed()`: no lone surrogate. -/
def isWellFormed : JsString → Bool
  | [] => true
  | [u] => !(isHigh u || isLow u)
  | u :: v :: s =>
    if isHigh u then isLow v && isWellFormed s
    else !isLow u && isWellFormed (v :: s)

/-- The UTF-16 code units of a scalar value. -/
def scalarUnits (c : Nat) : JsString :=
  if c < 0x10000 then [UInt16.ofNat c]
  else [UInt16.ofNat (0xd800 + (c - 0x10000) / 0x400), UInt16.ofNat (0xdc00 + (c - 0x10000) % 0x400)]

/-- Whether a number is a scalar value: a code point that is no surrogate. -/
def IsScalar (c : Nat) : Prop := c < 0xd800 ∨ 0xe000 ≤ c ∧ c < 0x110000

/-! ## encoding -/

/-- The bytes of a scalar value. -/
def encodeScalar (c : Nat) : List UInt8 :=
  if c < 0x80 then [UInt8.ofNat c]
  else if c < 0x800 then [UInt8.ofNat (0xc0 + c / 0x40), UInt8.ofNat (0x80 + c % 0x40)]
  else if c < 0x10000 then
    [UInt8.ofNat (0xe0 + c / 0x1000), UInt8.ofNat (0x80 + c / 0x40 % 0x40),
      UInt8.ofNat (0x80 + c % 0x40)]
  else
    [UInt8.ofNat (0xf0 + c / 0x40000), UInt8.ofNat (0x80 + c / 0x1000 % 0x40),
      UInt8.ofNat (0x80 + c / 0x40 % 0x40), UInt8.ofNat (0x80 + c % 0x40)]

/-- `new TextEncoder().encode(s)`. -/
def encode (s : JsString) : List UInt8 := (scalars s).flatMap encodeScalar

/-! ## decoding -/

/-- A sequence under way: bytes still needed, the bits so far, and the range
the next byte must be in. -/
structure Pending where
  needed : Nat
  point : Nat
  lower : Nat
  upper : Nat

/-- The first byte of a sequence: what it completes, and what it opens. -/
def lead (b : Nat) : List Nat × Option Pending :=
  if b < 0x80 then ([b], none)
  else if 0xc2 ≤ b ∧ b < 0xe0 then ([], some ⟨1, b - 0xc0, 0x80, 0xbf⟩)
  else if 0xe0 ≤ b ∧ b < 0xf0 then
    ([], some ⟨2, b - 0xe0, if b = 0xe0 then 0xa0 else 0x80, if b = 0xed then 0x9f else 0xbf⟩)
  else if 0xf0 ≤ b ∧ b < 0xf5 then
    ([], some ⟨3, b - 0xf0, if b = 0xf0 then 0x90 else 0x80, if b = 0xf4 then 0x8f else 0xbf⟩)
  else ([replacement], none)

/-- The scalar values of a byte sequence. -/
def decodeFrom : Option Pending → List UInt8 → List Nat
  | none, [] => []
  | some _, [] => [replacement]
  | none, b :: bs => (lead b.toNat).1 ++ decodeFrom (lead b.toNat).2 bs
  | some p, b :: bs =>
    if p.lower ≤ b.toNat ∧ b.toNat ≤ p.upper then
      if p.needed = 1 then (p.point * 0x40 + (b.toNat - 0x80)) :: decodeFrom none bs
      else decodeFrom (some ⟨p.needed - 1, p.point * 0x40 + (b.toNat - 0x80), 0x80, 0xbf⟩) bs
    -- the byte that breaks a sequence is read again as a first byte
    else replacement :: ((lead b.toNat).1 ++ decodeFrom (lead b.toNat).2 bs)

/-- `new TextDecoder().decode(bytes)`. -/
def decode (bs : List UInt8) : JsString :=
  match decodeFrom none bs with
  | [] => []
  | c :: cs => if c = bom then cs.flatMap scalarUnits else (c :: cs).flatMap scalarUnits

/-! ## decoding what was encoded -/

variable {n : Nat}

theorem toNat_ofNat_lt (h : n < 256) : (UInt8.ofNat n).toNat = n := by
  rw [UInt8.toNat_ofNat']
  omega

theorem decodeFrom_last {p : Pending} {c : Nat} (hn : n < 256) (hp : p.needed = 1)
    (hl : p.lower ≤ n) (hu : n ≤ p.upper) (hc : p.point * 0x40 + (n - 0x80) = c) (bs : List UInt8) :
    decodeFrom (some p) (UInt8.ofNat n :: bs) = c :: decodeFrom none bs := by
  rw [decodeFrom, toNat_ofNat_lt hn, if_pos ⟨hl, hu⟩, if_pos hp, hc]

/-- Any other byte of a sequence adds six bits. -/
theorem decodeFrom_more {p : Pending} (hn : n < 256) (hp : p.needed ≠ 1)
    (hl : p.lower ≤ n) (hu : n ≤ p.upper) (bs : List UInt8) :
    decodeFrom (some p) (UInt8.ofNat n :: bs) =
      decodeFrom (some ⟨p.needed - 1, p.point * 0x40 + (n - 0x80), 0x80, 0xbf⟩) bs := by
  rw [decodeFrom, toNat_ofNat_lt hn, if_pos ⟨hl, hu⟩, if_neg hp]

theorem decodeFrom_open {p : Pending} (hn : n < 256) (h : lead n = ([], some p))
    (bs : List UInt8) : decodeFrom none (UInt8.ofNat n :: bs) = decodeFrom (some p) bs := by
  rw [decodeFrom, toNat_ofNat_lt hn, h, nil_append]

theorem decodeFrom_encodeScalar {c : Nat} (hc : IsScalar c) (bs : List UInt8) :
    decodeFrom none (encodeScalar c ++ bs) = c :: decodeFrom none bs := by
  unfold IsScalar at hc
  unfold encodeScalar
  by_cases h1 : c < 0x80
  · have hb := toNat_ofNat_lt (n := c) (by omega)
    simp [h1, decodeFrom, lead, hb]
  by_cases h2 : c < 0x800
  · have hlead : lead (0xc0 + c / 0x40) = ([], some ⟨1, c / 0x40, 0x80, 0xbf⟩) := by
      rw [lead, if_neg (by omega), if_pos (by omega), Nat.add_sub_cancel_left]
    rw [if_neg h1, if_pos h2, cons_append, cons_append, nil_append,
      decodeFrom_open (by omega) hlead, decodeFrom_last (c := c) (by omega) rfl (by simp) (by simp; omega) (by simp only; omega)]
  by_cases h3 : c < 0x10000
  · have hlead : lead (0xe0 + c / 0x1000) =
        ([], some ⟨2, c / 0x1000, if 0xe0 + c / 0x1000 = 0xe0 then 0xa0 else 0x80,
          if 0xe0 + c / 0x1000 = 0xed then 0x9f else 0xbf⟩) := by
      rw [lead, if_neg (by omega), if_neg (by omega), if_pos (by omega), Nat.add_sub_cancel_left]
    rw [if_neg h1, if_neg h2, if_pos h3, cons_append, cons_append, cons_append,
      nil_append, decodeFrom_open (by omega) hlead,
      decodeFrom_more (by omega) (by simp) (by simp only; split <;> omega)
        (by simp only; split <;> omega),
      decodeFrom_last (c := c) (by omega) rfl (by simp) (by simp; omega) (by simp only; omega)]
  · have hlead : lead (0xf0 + c / 0x40000) =
        ([], some ⟨3, c / 0x40000, if 0xf0 + c / 0x40000 = 0xf0 then 0x90 else 0x80,
          if 0xf0 + c / 0x40000 = 0xf4 then 0x8f else 0xbf⟩) := by
      rw [lead, if_neg (by omega), if_neg (by omega), if_neg (by omega), if_pos (by omega),
        Nat.add_sub_cancel_left]
    rw [if_neg h1, if_neg h2, if_neg h3, cons_append, cons_append, cons_append,
      cons_append, nil_append, decodeFrom_open (by omega) hlead,
      decodeFrom_more (by omega) (by simp) (by simp only; split <;> omega)
        (by simp only; split <;> omega),
      decodeFrom_more (by omega) (by simp) (by simp) (by simp; omega),
      decodeFrom_last (c := c) (by omega) rfl (by simp) (by simp; omega) (by simp only; omega)]

theorem decodeFrom_flatMap_encodeScalar {cs : List Nat} (h : ∀ c ∈ cs, IsScalar c) :
    decodeFrom none (cs.flatMap encodeScalar) = cs := by
  induction cs with
  | nil => rfl
  | cons c cs ih =>
    have hc : IsScalar c := h c (by simp)
    have hcs : ∀ c ∈ cs, IsScalar c := fun c' h' => h c' (by simp [h'])
    rw [flatMap_cons, decodeFrom_encodeScalar hc, ih hcs]

theorem isScalar_replacement : IsScalar replacement := by
  unfold IsScalar replacement
  omega

variable {u : UInt16}

theorem isScalar_unit (h : ¬ isHigh u) (h' : ¬ isLow u) : IsScalar u.toNat := by
  have hu := u.toNat_lt
  simp only [isHigh, isLow, Bool.and_eq_true, decide_eq_true_eq] at h h'
  unfold IsScalar
  omega

theorem isScalar_pairPoint {v : UInt16} (h : isHigh u) (h' : isLow v) :
    IsScalar (pairPoint u v) := by
  simp only [isHigh, isLow, Bool.and_eq_true, decide_eq_true_eq] at h h'
  unfold IsScalar pairPoint
  omega

theorem isScalar_of_mem_scalars {s : JsString} : ∀ c ∈ scalars s, IsScalar c := by
  induction s using scalars.induct with
  | case1 => simp [scalars]
  | case2 u h => simp [scalars, h, isScalar_replacement]
  | case3 u h =>
    simp only [Bool.or_eq_true, not_or] at h
    simp [scalars, h.1, h.2, isScalar_unit]
  | case4 u v s hu hv ih =>
    simpa [scalars, hu, hv, isScalar_pairPoint hu hv] using ih
  | case5 u v s hu hv ih =>
    simpa [scalars, hu, hv, isScalar_replacement] using ih
  | case6 u v s hu hl ih =>
    simpa [scalars, hu, hl, isScalar_replacement] using ih
  | case7 u v s hu hl ih =>
    simpa [scalars, hu, hl, isScalar_unit hu hl] using ih

theorem decode_encode (s : JsString) :
    decode (encode s) =
      if (scalars s).head? = some bom then (scalars s).tail.flatMap scalarUnits
      else (scalars s).flatMap scalarUnits := by
  unfold decode encode
  rw [decodeFrom_flatMap_encodeScalar isScalar_of_mem_scalars]
  cases scalars s with
  | nil => simp
  | cons c cs => by_cases h : c = bom <;> simp

/-! ## what survives -/

theorem scalarUnits_unit (u : UInt16) : scalarUnits u.toNat = [u] := by
  have hu := u.toNat_lt
  have hlt : u.toNat < 0x10000 := by omega
  simp [scalarUnits, hlt]

theorem scalarUnits_pairPoint {v : UInt16} (h : isHigh u) (h' : isLow v) :
    scalarUnits (pairPoint u v) = [u, v] := by
  simp only [isHigh, isLow, Bool.and_eq_true, decide_eq_true_eq] at h h'
  have hge : ¬ pairPoint u v < 0x10000 := by
    unfold pairPoint
    omega
  have hu : 0xd800 + (pairPoint u v - 0x10000) / 0x400 = u.toNat := by
    unfold pairPoint
    omega
  have hv : 0xdc00 + (pairPoint u v - 0x10000) % 0x400 = v.toNat := by
    unfold pairPoint
    omega
  rw [scalarUnits, if_neg hge, hu, hv]
  simp

theorem scalarUnits_replacement : scalarUnits replacement = [0xfffd] := by decide

theorem replacement_ne (h : isHigh u ∨ isLow u) : (0xfffd : UInt16) ≠ u := by
  intro heq
  subst heq
  revert h
  decide

/-- Replacing lone surrogates changes nothing exactly when there are none. -/
theorem flatMap_scalars_eq_iff (s : JsString) :
    (scalars s).flatMap scalarUnits = s ↔ isWellFormed s := by
  induction s using scalars.induct with
  | case1 => simp [scalars, isWellFormed]
  | case2 u h =>
    have hne := replacement_ne (by simpa using h)
    simp [scalars, isWellFormed, h, scalarUnits_replacement, hne]
  | case3 u h => simp [scalars, isWellFormed, h, scalarUnits_unit]
  | case4 u v s hu hv ih =>
    simp [scalars, isWellFormed, hu, hv, scalarUnits_pairPoint hu hv, ih]
  | case5 u v s hu hv ih =>
    have hne := replacement_ne (.inl hu)
    simp [scalars, isWellFormed, hu, hv, scalarUnits_replacement, hne]
  | case6 u v s hu hl ih =>
    have hne := replacement_ne (.inr hl)
    simp [scalars, isWellFormed, hu, hl, scalarUnits_replacement, hne]
  | case7 u v s hu hl ih =>
    simp [scalars, isWellFormed, hu, hl, scalarUnits_unit, ih]

theorem length_scalarUnits_pos (c : Nat) : 0 < (scalarUnits c).length := by
  unfold scalarUnits
  split <;> simp

theorem length_flatMap_scalars (s : JsString) :
    ((scalars s).flatMap scalarUnits).length = s.length := by
  induction s using scalars.induct with
  | case1 => simp [scalars]
  | case2 u h => simp [scalars, h, scalarUnits_replacement]
  | case3 u h => simp [scalars, h, scalarUnits_unit]
  | case4 u v s hu hv ih =>
    simp only [scalars, hu, hv, if_true, flatMap_cons, length_append,
      scalarUnits_pairPoint hu hv, List.length_cons, length_nil]
    omega
  | case5 u v s hu hv ih =>
    rw [scalars, if_pos hu, if_neg hv]
    simp only [flatMap_cons, length_append, ih, scalarUnits_replacement,
      List.length_cons, length_nil]
    omega
  | case6 u v s hu hl ih =>
    rw [scalars, if_neg hu, if_pos hl]
    simp only [flatMap_cons, length_append, ih, scalarUnits_replacement,
      List.length_cons, length_nil]
    omega
  | case7 u v s hu hl ih =>
    rw [scalars, if_neg hu, if_neg hl]
    simp only [flatMap_cons, length_append, ih, scalarUnits_unit, List.length_cons,
      length_nil]
    omega

theorem head_scalars_eq_bom_iff (s : JsString) :
    (scalars s).head? = some bom ↔ s.head? = some 0xfeff := by
  have hunit : ∀ u : UInt16, u.toNat = bom ↔ u = 0xfeff := fun u =>
    ⟨fun h => UInt16.toNat_inj.mp h, fun h => by rw [h]; rfl⟩
  have hhigh : ∀ u : UInt16, isHigh u → u ≠ 0xfeff := by
    intro u h heq
    subst heq
    revert h
    decide
  have hlow : ∀ u : UInt16, isLow u → u ≠ 0xfeff := by
    intro u h heq
    subst heq
    revert h
    decide
  have hrep : replacement ≠ bom := by decide
  induction s using scalars.induct with
  | case1 => simp [scalars]
  | case2 u h =>
    have hne : u ≠ 0xfeff := by
      cases Bool.or_eq_true _ _ ▸ h with
      | inl h => exact hhigh u h
      | inr h => exact hlow u h
    simp [scalars, h, hrep, hne]
  | case3 u h => simp [scalars, h, hunit]
  | case4 u v s hu hv ih =>
    have hp : pairPoint u v ≠ bom := by
      unfold pairPoint bom
      omega
    simp [scalars, hu, hv, hp, hhigh u hu]
  | case5 u v s hu hv ih => simp [scalars, hu, hv, hrep, hhigh u hu]
  | case6 u v s hu hl ih => simp [scalars, hu, hl, hrep, hlow u hl]
  | case7 u v s hu hl ih => simp [scalars, hu, hl, hunit]

/-- A string that UTF-8 carries: well formed, with nothing to take for a byte
order mark. -/
def Carried (s : JsString) : Prop := isWellFormed s ∧ s.head? ≠ some 0xfeff

instance (s : JsString) : Decidable (Carried s) := inferInstanceAs (Decidable (_ ∧ _))

/-- **Round trip**: exactly the carried strings survive. -/
theorem decode_encode_eq_iff (s : JsString) : decode (encode s) = s ↔ Carried s := by
  simp only [decode_encode, head_scalars_eq_bom_iff]
  by_cases h : s.head? = some 0xfeff
  · -- the mark is dropped, so the result is shorter
    have hlen := length_flatMap_scalars s
    have hne : (scalars s).tail.flatMap scalarUnits ≠ s := by
      intro heq
      cases hs : scalars s with
      | nil =>
        rw [hs] at heq
        simp [← heq] at h
      | cons c cs =>
        rw [hs] at heq hlen
        have hpos := length_scalarUnits_pos c
        have : (cs.flatMap scalarUnits).length = s.length := congrArg List.length heq
        simp only [flatMap_cons, length_append] at hlen
        omega
    simp [h, Carried, hne]
  · rw [if_neg h, flatMap_scalars_eq_iff]
    simp [Carried, h]

theorem decode_encode_of_carried {s : JsString} (h : Carried s) : decode (encode s) = s :=
  (decode_encode_eq_iff s).mpr h

end BunServe.Utf8
