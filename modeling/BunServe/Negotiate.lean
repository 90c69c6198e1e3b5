import BunServe.Lib.JsString
import Mathlib.Data.List.TakeWhile

/-!
# BunServe.Negotiate

The choice among the representations of a static file
(`runtime/utils/static-negotiate.js`).  A position in the header is what is left of it.

* `negotiate_best` — of a header that lists no coding twice, the fast path answers what the
  full pass does, which is the best of the available codings.
-/

namespace BunServe.Negotiate

/-! ## the code -/

def isOws (c : UInt16) : Bool := c = 0x20 || c = 0x09

/-- What ends a coding, or a weight. -/
def isEnd (c : UInt16) : Bool := c = 0x2c || c = 0x3b || isOws c

/-- The digits after the dot, and what follows them. -/
def fraction : Nat → Nat → JsString → Nat × JsString
  | n + 1, scale, d :: s =>
    if d < 0x30 ∨ d > 0x39 then (0, d :: s)
    else
      let r := fraction n (scale / 10) s
      ((d.toNat - 0x30) * scale + r.1, r.2)
  | _, _, s => (0, s)

def parseWeight : JsString → Option Nat
  | [] => none
  | lead :: s =>
    if lead ≠ 0x30 ∧ lead ≠ 0x31 then none
    else
      let r := if s.head? = some 0x2e then fraction 3 100 s.tail else (0, s)
      let value := (lead.toNat - 0x30) * 1000 + r.1
      if r.2.head?.any fun after => !isEnd after then none
      else if value > 1000 then none
      else some value

inductive Encoding where
  | br | gzip
deriving DecidableEq

inductive Kind where
  | other | br | gzip | star
deriving DecidableEq

/-- `kind`, of a token. -/
def kindOf : JsString → Kind
  | [a, b] => if (a ||| 0x20) = 0x62 ∧ (b ||| 0x20) = 0x72 then .br else .other
  | [a, b, c, d] =>
    if (a ||| 0x20) = 0x67 ∧ (b ||| 0x20) = 0x7a ∧ (c ||| 0x20) = 0x69 ∧ (d ||| 0x20) = 0x70 then .gzip
    else .other
  | [a] => if a = 0x2a then .star else .other
  | _ => .other

/-- A parameter is read: only `q` is. -/
def readParam (q : Nat) : JsString → Nat
  | a :: b :: s => if (a ||| 0x20) = 0x71 ∧ b = 0x3d then (parseWeight s).getD q else q
  | _ => q

/-- Parameters up to the next comma. -/
def params (q : Nat) : JsString → Nat × JsString
  | [] => (q, [])
  | c :: s =>
    if c = 0x2c then (q, c :: s)
    else if c = 0x3b then params (readParam q (s.dropWhile isOws)) (s.dropWhile isOws)
    else params q s
termination_by s => s.length
decreasing_by
  all_goals simp only [List.length_cons]
  · exact Nat.lt_succ_of_le (List.length_dropWhile_le ..)
  · exact Nat.lt_succ_self _

/-- `qBr`, `qGz` and `qStar`, where -1 is none. -/
structure Weights where
  br : Option Nat
  gz : Option Nat
  star : Option Nat

def Weights.note (w : Weights) (q : Nat) : Kind → Weights
  | .other => w
  | .br => { w with br := w.br.or (some q) }
  | .gzip => { w with gz := w.gz.or (some q) }
  | .star => { w with star := w.star.or (some q) }

theorem length_params (q : Nat) (s : JsString) : (params q s).2.length ≤ s.length ∧
    (s ≠ [] → s.head? ≠ some 0x2c → (params q s).2.length < s.length) := by
  induction q, s using params.induct with
  | case1 q | case2 q s => simp [params]
  | case3 q s hc ih =>
    have hle : (s.dropWhile isOws).length ≤ s.length := List.length_dropWhile_le ..
    rw [params, if_neg hc, if_pos rfl, List.length_cons]
    omega
  | case4 q c s hc hs ih =>
    rw [params, if_neg hc, if_neg hs, List.length_cons]
    omega

def scan (w : Weights) : JsString → Weights
  | [] => w
  | c :: s =>
    if isOws c || c = 0x2c then scan w s
    else
      let token := (c :: s).takeWhile fun c => !isEnd c
      let r := params 1000 ((c :: s).dropWhile fun c => !isEnd c)
      scan (w.note r.1 (kindOf token)) r.2
termination_by s => s.length
decreasing_by
  · simp
  · next hc =>
    simp only [Bool.or_eq_true, decide_eq_true_eq, not_or, Bool.not_eq_true] at hc
    cases hend : isEnd c with
    | false =>
      rw [List.dropWhile_cons_of_pos (by simp [hend])]
      exact Nat.lt_succ_of_le ((length_params ..).1.trans (List.length_dropWhile_le ..))
    | true =>
      rw [List.dropWhile_cons_of_neg (by simp [hend])]
      exact (length_params ..).2 (by simp) (by simp [hc.2])

def negotiateWeighted (header : JsString) (hasBr hasGz : Bool) : Option Encoding :=
  let w := scan ⟨none, none, none⟩ header
  let br := if hasBr then (w.br.or w.star).getD 0 else 0
  let gz := if hasGz then (w.gz.or w.star).getD 0 else 0
  if br > 0 ∧ br ≥ gz then some .br
  else if gz > 0 then some .gzip
  else none

/-- `header.indexOf(token)`: what is before the first occurrence, in reverse, and after it. -/
def indexOf (token : JsString) (before : JsString) : JsString → Option (JsString × JsString)
  | [] => none
  | c :: s =>
    if token.isPrefixOf (c :: s) then some (before, (c :: s).drop token.length)
    else indexOf token (c :: before) s

def listedWeightless (header token : JsString) : Bool :=
  match indexOf token [] header with
  | none => false
  | some (before, after) =>
    ((before.dropWhile isOws).head?.all (· = 0x2c)) && ((after.dropWhile isOws).head?.all (· = 0x2c))

def negotiateEncoding (header : JsString) (hasBr hasGz : Bool) : Option Encoding :=
  if header = [] ∨ (!hasBr && !hasGz) then none
  else if header = js "br" then if hasBr then some .br else none
  else if header = js "gzip" then if hasGz then some .gzip else none
  else if hasBr && (header = js "gzip, deflate, br" || header = js "gzip, deflate, br, zstd" ||
      listedWeightless header (js "br")) then some .br
  else if !hasBr && listedWeightless header (js "gzip") then some .gzip
  else negotiateWeighted header hasBr hasGz

/-! ## the header as a list -/

variable {header s e : JsString} {c : UInt16}

def codingOf (e : JsString) : JsString :=
  ((e.dropWhile isOws).takeWhile fun c => !isEnd c).map asciiLower

/-- The digits of a qvalue, in thousandths. -/
def thousandths (scale : Nat) : JsString → Nat
  | [] => 0
  | d :: ds => (d.toNat - 0x30) * scale + thousandths (scale / 10) ds

def isDigit (d : UInt16) : Bool := 0x30 ≤ d && d ≤ 0x39

/-- A qvalue: `0` with up to three digits, or `1` with up to three zeros. -/
def qvalue : JsString → Option Nat
  | [] => none
  | lead :: s =>
    let ds := s.tail
    if s = [] ∨ (s.head? = some 0x2e ∧ ds.length ≤ 3 ∧ ds.all isDigit) then
      if lead = 0x30 then some (thousandths 100 ds)
      else if lead = 0x31 ∧ ds.all (· = 0x30) then some 1000
      else none
    else none

/-- The weight that a parameter gives. -/
def qOf (p : JsString) : Option Nat :=
  match p.dropWhile isOws with
  | a :: b :: v =>
    if asciiLower a = 0x71 ∧ b = 0x3d then qvalue (v.takeWhile fun c => !isOws c) else none
  | _ => none

/-- The weight of an element: 1 where its parameters give none. -/
def weightOf (e : JsString) : Nat := ((e.splitOn 0x3b).tail.filterMap qOf).getLast?.getD 1000

def codings (header : JsString) : List JsString :=
  ((header.splitOn 0x2c).map codingOf).filter (· ≠ [])

/-- The weight that a coding is listed with. -/
def listed (header c : JsString) : Option Nat :=
  ((header.splitOn 0x2c).find? fun e => codingOf e = c).map weightOf

/-- The weight of a coding: that of `*` where it is not listed. -/
def weight (header c : JsString) : Nat := ((listed header c).or (listed header (js "*"))).getD 0

/-! ## a weight -/

theorem lor_eq_iff {t : UInt16} (ht : 97 ≤ t ∧ t ≤ 122) : (c ||| 0x20) = t ↔ asciiLower c = t := by
  have hsmall : ∀ n : Fin 128, ∀ m : Fin 128, 97 ≤ m.val → m.val ≤ 122 →
      ((UInt16.ofNat n ||| 0x20) = UInt16.ofNat m ↔ asciiLower (UInt16.ofNat n) = UInt16.ofNat m) := by
    decide +kernel
  have hle : t.toNat ≤ 122 := ht.2
  by_cases hc : c.toNat < 128
  · simpa using hsmall ⟨c.toNat, hc⟩ ⟨t.toNat, by omega⟩ ht.1 hle
  · have hor : c.toNat ≤ (c ||| 0x20).toNat := by
      exact Nat.left_le_or
    have hlower : asciiLower c = c := by
      rw [asciiLower, if_neg]
      exact fun h => hc (lt_of_le_of_lt h.2 (by decide : (90 : UInt16).toNat < 128))
    rw [hlower]
    constructor <;> rintro rfl <;> omega

theorem isEnd_of_isDigit (h : isDigit c) : isEnd c = false := by
  simp only [isDigit] at h
  simp only [isEnd, isOws]
  grind

theorem fraction_eq (n scale : Nat) (s : JsString) :
    let t := s.takeWhile fun c => !isEnd c
    if t.length ≤ n ∧ t.all isDigit then
      fraction n scale s = (thousandths scale t, s.dropWhile fun c => !isEnd c)
    else (fraction n scale s).2.head?.any fun c => !isEnd c := by
  induction s generalizing n scale with
  | nil => cases n <;> simp [fraction, thousandths]
  | cons d s ih =>
    cases hend : isEnd d with
    | true =>
      have hd : ¬ isDigit d := fun h => by simp [isEnd_of_isDigit h] at hend
      cases n with
      | zero => simp [fraction, thousandths, hend]
      | succ n =>
        have hd : d < 0x30 ∨ d > 0x39 := by simp [isDigit] at hd; grind
        simp [fraction, thousandths, hend, hd]
    | false =>
      cases n with
      | zero => simp [fraction, hend]
      | succ n =>
        by_cases hd : d < 0x30 ∨ d > 0x39
        · have hdigit : isDigit d = false := by simp [isDigit]; grind
          simp [fraction, hend, hd, hdigit]
        · have hdigit : isDigit d = true := by simp [isDigit]; grind
          have ih := ih n (scale / 10)
          simp only [fraction, if_neg hd, hend, Bool.not_false, List.takeWhile_cons_of_pos,
            List.dropWhile_cons_of_pos, List.length_cons, Nat.add_le_add_iff_right, List.all_cons,
            hdigit, Bool.true_and] at ih ⊢
          split at ih
          · next ht => rw [if_pos ht, ih]; rfl
          · next ht => rw [if_neg ht]; exact ih

theorem toNat_digit (h : isDigit c) : 0x30 ≤ c.toNat ∧ c.toNat ≤ 0x39 ∧ (c = 0x30 ↔ c.toNat = 0x30) := by
  simp only [isDigit, Bool.and_eq_true, decide_eq_true_eq] at h
  exact ⟨h.1, h.2, UInt16.toNat_inj.symm⟩

theorem thousandths_lt {ds : JsString} (hlen : ds.length ≤ 3) (h : ds.all isDigit) :
    thousandths 100 ds < 1000 ∧ (thousandths 100 ds = 0 ↔ ds.all (· = 0x30)) := by
  match ds, hlen with
  | [], _ => simp [thousandths]
  | [a], _ =>
    have ha := toNat_digit (by simpa using h)
    simp only [thousandths, List.all_cons, List.all_nil, Bool.and_true, decide_eq_true_eq, ha.2.2]
    omega
  | [a, b], _ =>
    simp only [List.all_cons, List.all_nil, Bool.and_true, Bool.and_eq_true] at h
    have ha := toNat_digit h.1
    have hb := toNat_digit h.2
    simp only [thousandths, List.all_cons, List.all_nil, Bool.and_true, Bool.and_eq_true,
      decide_eq_true_eq, ha.2.2, hb.2.2]
    omega
  | [a, b, c], _ =>
    simp only [List.all_cons, List.all_nil, Bool.and_true, Bool.and_eq_true] at h
    have ha := toNat_digit h.1
    have hb := toNat_digit h.2.1
    have hc := toNat_digit h.2.2
    simp only [thousandths, List.all_cons, List.all_nil, Bool.and_true, Bool.and_eq_true,
      decide_eq_true_eq, ha.2.2, hb.2.2, hc.2.2]
    omega

theorem parseWeight_eq (s : JsString) : parseWeight s = qvalue (s.takeWhile fun c => !isEnd c) := by
  cases s with
  | nil => rfl
  | cons lead s =>
    by_cases hlead : lead ≠ 0x30 ∧ lead ≠ 0x31
    · rw [parseWeight]
      cases hend : isEnd lead <;> simp [hend, hlead, qvalue]
    · have hend : isEnd lead = false := by simp only [isEnd, isOws]; grind
      have hvalue : lead = 0x30 ∨ lead = 0x31 := by grind
      rw [parseWeight, if_neg hlead, List.takeWhile_cons_of_pos (by simp [hend]), qvalue]
      cases s with
      | nil => rcases hvalue with rfl | rfl <;> simp [thousandths]
      | cons d s =>
        by_cases hd : d = 0x2e
        · subst hd
          have hrest := fraction_eq 3 100 s
          have hends : ((s.dropWhile fun c => !isEnd c).head?.any fun c => !isEnd c) = false := by
            have hnot := List.head?_dropWhile_not (fun c => !isEnd c) s
            cases hhead : (s.dropWhile fun c => !isEnd c).head? <;> simp_all
          rw [List.takeWhile_cons_of_pos (by decide), List.head?_cons, if_pos rfl, List.tail_cons]
          simp only [List.head?_cons, List.tail_cons, reduceCtorEq, true_and, false_or] at hrest ⊢
          by_cases ht : (s.takeWhile fun c => !isEnd c).length ≤ 3 ∧
              (s.takeWhile fun c => !isEnd c).all isDigit
          · obtain ⟨hlt, hzero⟩ := thousandths_lt ht.1 ht.2
            rw [if_pos ht] at hrest ⊢
            simp only [hrest, ← hzero, hends, Bool.false_eq_true, if_false]
            rcases hvalue with rfl | rfl
            · rw [if_neg (by simp; omega)]; simp
            · by_cases hz : thousandths 100 (s.takeWhile fun c => !isEnd c) = 0 <;> simp [hz]
          · rw [if_neg ht] at hrest ⊢
            rw [if_pos hrest]
        · have hsome : (d :: s).head? ≠ some 0x2e := by simpa using hd
          rw [if_neg hsome]
          cases hnext : isEnd d with
          | false => simp [hnext, hd]
          | true => rcases hvalue with rfl | rfl <;> simp [hnext, thousandths]

theorem splitOn_eq (c : UInt16) (s : JsString) : s.splitOn c = s.takeWhile (· ≠ c) ::
    match s.dropWhile (· ≠ c) with
    | [] => []
    | _ :: r => r.splitOn c := by
  induction s with
  | nil => simp
  | cons u s ih =>
    rw [List.splitOn_cons_eq_if_modifyHead]
    by_cases hu : u = c
    · simp [hu]
    · simp [hu, ih]

section Dropping

variable {p q : UInt16 → Bool} (h : ∀ c, q c → p c) (s : JsString)
include h

theorem dropWhile_takeWhile : (s.takeWhile p).dropWhile q = (s.dropWhile q).takeWhile p := by
  induction s with
  | nil => rfl
  | cons c s ih =>
    cases hq : q c with
    | true => simp [hq, h c hq, ih]
    | false => cases hp : p c <;> simp [hq, hp]

theorem dropWhile_dropWhile : (s.dropWhile q).dropWhile p = s.dropWhile p := by
  induction s with
  | nil => rfl
  | cons c s ih =>
    cases hq : q c with
    | true => simp [hq, h c hq, ih]
    | false => simp [hq]

end Dropping

theorem ne_of_isOws (h : isOws c) : c ≠ 0x2c ∧ c ≠ 0x3b := by
  simp only [isOws, Bool.or_eq_true, decide_eq_true_eq] at h
  rcases h with rfl | rfl <;> decide

/-! ## a header -/

theorem readParam_eq (q : Nat) (s : JsString) : readParam q (s.dropWhile isOws) =
    (qOf ((s.takeWhile (· ≠ 0x2c)).takeWhile (· ≠ 0x3b))).getD q := by
  have hows : ∀ c, isOws c → decide (decide (c ≠ 0x3b) = true ∧ decide (c ≠ 0x2c) = true) := fun c hc => by
    simp [ne_of_isOws hc]
  rw [List.takeWhile_takeWhile, qOf, dropWhile_takeWhile hows]
  rcases s.dropWhile isOws with - | ⟨a, - | ⟨b, v⟩⟩
  · rfl
  · by_cases ha : a ≠ 0x3b ∧ a ≠ 0x2c <;> simp [readParam, ha]
  · simp only [readParam, lor_eq_iff (t := 0x71) (by decide), parseWeight_eq]
    by_cases hq : asciiLower a = 0x71 ∧ b = 0x3d
    · have ha : a ≠ 0x3b ∧ a ≠ 0x2c := by
        constructor <;> rintro rfl <;> exact absurd hq.1 (by decide)
      rw [List.takeWhile_cons_of_pos (by simpa using ha),
        List.takeWhile_cons_of_pos (by simp [hq.2])]
      simp only [hq, and_self, if_true, List.takeWhile_takeWhile]
      congr 3
      simp [isEnd, and_comm]
    · by_cases ha : a ≠ 0x3b ∧ a ≠ 0x2c <;> by_cases hb : b ≠ 0x3b ∧ b ≠ 0x2c <;> simp [ha, hb, hq]

theorem params_eq (q : Nat) (s : JsString) : params q s =
    ((((s.takeWhile (· ≠ 0x2c)).splitOn 0x3b).tail.filterMap qOf).getLast?.getD q,
      s.dropWhile (· ≠ 0x2c)) := by
  induction q, s using params.induct with
  | case1 q | case2 q s => simp [params]
  | case3 q s hc ih =>
    have hows : ∀ c, isOws c → decide (c ≠ 0x2c) := fun c hc => by simp [ne_of_isOws hc]
    have hows' : ∀ c, isOws c → decide (c ≠ 0x3b) := fun c hc => by simp [ne_of_isOws hc]
    rw [params, if_neg hc, if_pos rfl, ih, dropWhile_dropWhile hows, ← dropWhile_takeWhile hows,
      splitOn_eq, dropWhile_dropWhile hows', readParam_eq, List.takeWhile_cons_of_pos (by decide),
      List.splitOn_cons_eq_if_modifyHead, if_pos (by simp)]
    rw [List.tail_cons, List.tail_cons, splitOn_eq _ (s.takeWhile _), List.filterMap_cons]
    cases qOf ((s.takeWhile (· ≠ 0x2c)).takeWhile (· ≠ 0x3b)) with
    | none => simp
    | some w => simp [List.getLast?_cons]
  | case4 q c s hc hs ih =>
    rw [params, ih]
    simp [hc, hs, List.splitOn_cons_eq_if_modifyHead]

theorem kindOf_eq (t : JsString) :
    (kindOf t = .br ↔ t.map asciiLower = js "br") ∧ (kindOf t = .gzip ↔ t.map asciiLower = js "gzip") ∧
      (kindOf t = .star ↔ t.map asciiLower = js "*") := by
  have hbr : js "br" = [0x62, 0x72] := rfl
  have hgzip : js "gzip" = [0x67, 0x7a, 0x69, 0x70] := rfl
  have hstar : js "*" = [0x2a] := rfl
  have hlower : ∀ c, asciiLower c = 0x2a ↔ c = 0x2a := fun c => by
    rw [asciiLower]
    split
    · next hc =>
      constructor
      · intro h
        have hlo : 65 ≤ c.toNat := hc.1
        have hhi : c.toNat ≤ 90 := hc.2
        have hsum := congrArg UInt16.toNat h
        simp only [UInt16.toNat_add, UInt16.reduceToNat] at hsum
        omega
      · rintro rfl
        exact absurd hc.1 (by decide)
    · rfl
  unfold kindOf
  split
  · simp only [lor_eq_iff (t := 0x62) (by decide), lor_eq_iff (t := 0x72) (by decide)]
    grind
  · simp only [lor_eq_iff (t := 0x67) (by decide), lor_eq_iff (t := 0x7a) (by decide),
      lor_eq_iff (t := 0x69) (by decide), lor_eq_iff (t := 0x70) (by decide)]
    grind
  · grind
  · next h2 h4 h1 =>
    rcases t with - | ⟨a, - | ⟨b, - | ⟨c, - | ⟨d, - | ⟨e, t⟩⟩⟩⟩⟩
    · simp [hbr, hgzip, hstar]
    · exact absurd rfl (h1 a)
    · exact absurd rfl (h2 a b)
    · simp [hbr, hgzip, hstar]
    · exact absurd rfl (h4 a b c d)
    · simp [hbr, hgzip, hstar]

variable {name : JsString}

theorem codingOf_cons (hc : isOws c) (e : JsString) : codingOf (c :: e) = codingOf e := by
  rw [codingOf, List.dropWhile_cons_of_pos hc, codingOf]

theorem weightOf_append {t : JsString} (ht : ∀ c ∈ t, c ≠ 0x3b) (e : JsString) :
    weightOf (t ++ e) = weightOf e := by
  induction t with
  | nil => rfl
  | cons c t ih =>
    have hc := ht c List.mem_cons_self
    rw [← ih fun c hc => ht c (List.mem_cons_of_mem _ hc), weightOf, weightOf, List.cons_append,
      List.splitOn_cons_eq_if_modifyHead, if_neg (by simpa using hc), List.tail_modifyHead]

theorem listed_eq (hname : name ≠ []) (s : JsString) : listed s name =
    if codingOf (s.takeWhile (· ≠ 0x2c)) = name then some (weightOf (s.takeWhile (· ≠ 0x2c)))
    else listed (s.dropWhile (· ≠ 0x2c)) name := by
  have hempty : codingOf [] ≠ name := hname.symm
  rw [listed, splitOn_eq, List.find?_cons]
  by_cases hc : codingOf (s.takeWhile (· ≠ 0x2c)) = name
  · rw [if_pos hc]
    simp only [hc, decide_true, Option.map_some]
  · rw [listed]
    simp only [hc]
    have hhead := List.head?_dropWhile_not (· ≠ (0x2c : UInt16)) s
    cases hrest : s.dropWhile (· ≠ 0x2c) with
    | nil => simp [hempty]
    | cons u r =>
      rw [hrest] at hhead
      obtain rfl : u = 0x2c := by simpa using hhead
      simp [List.splitOn_cons_eq_if_modifyHead, hempty]

theorem listed_skip (hname : name ≠ []) (hc : isOws c ∨ c = 0x2c) (s : JsString) :
    listed (c :: s) name = listed s name := by
  rcases hc with hc | rfl
  · rw [listed_eq hname, listed_eq hname s]
    have hne := (ne_of_isOws hc).1
    have hweight := weightOf_append (t := [c]) (by simpa using (ne_of_isOws hc).2)
    simp only [List.singleton_append] at hweight
    rw [List.takeWhile_cons_of_pos (by simpa using hne), List.dropWhile_cons_of_pos (by simpa using hne),
      codingOf_cons hc, hweight]
  · simp [listed, codingOf, hname.symm, List.splitOn_cons_eq_if_modifyHead]

theorem scan_eq (w : Weights) (s : JsString) : scan w s =
    ⟨w.br.or (listed s (js "br")), w.gz.or (listed s (js "gzip")), w.star.or (listed s (js "*"))⟩ := by
  induction w, s using scan.induct with
  | case1 w =>
    have hnone : ∀ name : JsString, name ≠ [] → listed [] name = none := fun name h => by
      simp [listed, codingOf, h.symm]
    rw [hnone _ (by decide), hnone _ (by decide), hnone _ (by decide)]
    simp [scan]
  | case2 w c s hc ih =>
    rw [scan, if_pos hc, ih]
    have hc : isOws c ∨ c = 0x2c := by simpa using hc
    rw [listed_skip (by decide) hc, listed_skip (by decide) hc, listed_skip (by decide) hc]
  | case3 w c s hc token r ih =>
    simp only [Bool.or_eq_true, not_or] at hc
    rw [scan, if_neg (by simp [hc])]
    have hends : ∀ c, !isEnd c → decide (c ≠ 0x2c) := fun c h => by
      simp only [isEnd, Bool.not_eq_true', Bool.or_eq_false_iff] at h
      simpa using h.1.1
    -- the coding and the weight of the element that starts here
    have htoken : codingOf ((c :: s).takeWhile (· ≠ 0x2c)) =
        ((c :: s).takeWhile fun c => !isEnd c).map asciiLower := by
      have hfirst := List.takeWhile_cons_of_pos (p := fun x => decide (x ≠ 0x2c)) (l := s)
        (by simpa using hc.2)
      rw [codingOf, hfirst, List.dropWhile_cons_of_neg (by simp [hc.1]), ← hfirst,
        List.takeWhile_takeWhile]
      congr 2
      grind
    have hweight : weightOf ((c :: s).takeWhile (· ≠ 0x2c)) =
        (params 1000 ((c :: s).dropWhile fun c => !isEnd c)).1 := by
      rw [params_eq, ← dropWhile_takeWhile hends]
      have happ := weightOf_append (t := ((c :: s).takeWhile (· ≠ 0x2c)).takeWhile fun c => !isEnd c)
        (fun c hc => by have := List.mem_takeWhile_imp hc; simp [isEnd] at this; exact this.1.2)
        (((c :: s).takeWhile (· ≠ 0x2c)).dropWhile fun c => !isEnd c)
      rw [List.takeWhile_append_dropWhile] at happ
      exact happ
    have hrest : (params 1000 ((c :: s).dropWhile fun c => !isEnd c)).2 = (c :: s).dropWhile (· ≠ 0x2c) := by
      rw [params_eq, dropWhile_dropWhile hends]
    obtain ⟨hbr, hgzip, hstar⟩ := kindOf_eq ((c :: s).takeWhile fun c => !isEnd c)
    rw [← htoken] at hbr hgzip hstar
    rw [ih, hrest, ← hweight, listed_eq (by decide) (c :: s), listed_eq (by decide) (c :: s),
      listed_eq (by decide) (c :: s)]
    simp only [← hbr, ← hgzip, ← hstar]
    cases kindOf ((c :: s).takeWhile fun c => !isEnd c) <;> simp [Weights.note]

theorem negotiateWeighted_eq (header : JsString) (hasBr hasGz : Bool) :
    negotiateWeighted header hasBr hasGz =
      let br := if hasBr then weight header (js "br") else 0
      let gz := if hasGz then weight header (js "gzip") else 0
      if br > 0 ∧ br ≥ gz then some .br else if gz > 0 then some .gzip else none := by
  simp [negotiateWeighted, scan_eq, weight]

/-! ## the fast path -/

theorem indexOf_eq {token before b a : JsString} (h : indexOf token before s = some (b, a)) :
    b.reverse ++ (token ++ a) = before.reverse ++ s := by
  induction s generalizing before with
  | nil => cases h
  | cons c s ih =>
    rw [indexOf] at h
    split at h
    · next hp =>
      obtain ⟨r, hr⟩ := List.isPrefixOf_iff_prefix.mp hp
      cases h
      rw [← hr]
      simp
    · simpa using ih h

theorem mem_splitOn_of_around {b a t : JsString} (ht : 0x2c ∉ t)
    (hb : (b.dropWhile isOws).head?.all (· = 0x2c)) (ha : (a.dropWhile isOws).head?.all (· = 0x2c)) :
    ∃ l r : JsString, (∀ c ∈ l, isOws c) ∧ (∀ c ∈ r, isOws c) ∧
      l ++ (t ++ r) ∈ (b.reverse ++ (t ++ a)).splitOn 0x2c := by
  refine ⟨(b.takeWhile isOws).reverse, a.takeWhile isOws, fun c hc =>
    List.mem_takeWhile_imp (List.mem_reverse.mp hc), fun c hc => List.mem_takeWhile_imp hc, ?_⟩
  generalize he : (b.takeWhile isOws).reverse ++ (t ++ a.takeWhile isOws) = e
  have hcomma : ∀ c ∈ e, decide (c ≠ 0x2c) := fun c hc => by
    subst he
    simp only [List.mem_append, List.mem_reverse] at hc
    rcases hc with hc | hc | hc
    · simpa using (ne_of_isOws (List.mem_takeWhile_imp hc)).1
    · simpa using fun h : c = 0x2c => ht (h ▸ hc)
    · simpa using (ne_of_isOws (List.mem_takeWhile_imp hc)).1
  have hsplit : b.reverse ++ (t ++ a) = (b.dropWhile isOws).reverse ++ (e ++ a.dropWhile isOws) := by
    have hb := congrArg List.reverse (List.takeWhile_append_dropWhile (p := isOws) (l := b))
    have ha := List.takeWhile_append_dropWhile (p := isOws) (l := a)
    rw [List.reverse_append] at hb
    rw [← he, ← hb]
    simp only [List.append_assoc, ha]
  -- the element is the first of what the comma before it leaves
  have hhead : e ∈ (e ++ a.dropWhile isOws).splitOn 0x2c := by
    rw [splitOn_eq, List.takeWhile_append_of_pos hcomma]
    cases hrest : a.dropWhile isOws with
    | nil => simp
    | cons c r => simp_all
  rw [hsplit]
  cases hrest : b.dropWhile isOws with
  | nil => exact hhead
  | cons c r =>
    rw [hrest] at hb
    obtain rfl : c = 0x2c := by simpa using hb
    rw [List.reverse_cons, List.append_assoc, List.singleton_append, List.splitOn_eq_splitOnP,
      List.splitOnP_append_cons _ _ (by simp)]
    exact List.mem_append_right _ hhead

theorem listed_of_mem (h : (codings header).Nodup) (he : e ∈ header.splitOn 0x2c)
    (hname : codingOf e ≠ []) : listed header (codingOf e) = some (weightOf e) := by
  unfold codings at h
  rw [listed]
  generalize header.splitOn 0x2c = es at h he
  induction es with
  | nil => cases he
  | cons e' es ih =>
    rw [List.find?_cons]
    by_cases heq : codingOf e' = codingOf e
    · obtain rfl | he := List.mem_cons.mp he
      · simp
      · rw [List.map_cons, List.filter_cons_of_pos (by simpa [heq] using hname)] at h
        have hmem : codingOf e' ∈ (es.map codingOf).filter (· ≠ []) := by
          simpa [heq, hname] using ⟨e, he, rfl⟩
        exact absurd hmem (List.nodup_cons.mp h).1
    · obtain rfl | he := List.mem_cons.mp he
      · exact absurd rfl heq
      · simp only [heq]
        refine ih ?_ he
        rw [List.map_cons, List.filter_cons] at h
        split at h
        · exact (List.nodup_cons.mp h).2
        · exact h

theorem qvalue_le {v : JsString} {q : Nat} (h : qvalue v = some q) : q ≤ 1000 := by
  cases v with
  | nil => cases h
  | cons lead s =>
    obtain ⟨hs, h⟩ := Option.ite_none_right_eq_some.mp h
    split at h
    · cases h
      rcases hs with rfl | ⟨-, hlen, hall⟩
      · simp [thousandths]
      · exact (thousandths_lt hlen hall).1.le
    · split at h
      · cases h; exact le_rfl
      · cases h

theorem weightOf_le (e : JsString) : weightOf e ≤ 1000 := by
  unfold weightOf
  cases hq : ((e.splitOn 0x3b).tail.filterMap qOf).getLast? with
  | none => exact le_rfl
  | some q =>
    obtain ⟨p, -, hp⟩ := List.mem_filterMap.mp (List.mem_of_getLast? hq)
    unfold qOf at hp
    split at hp
    · split at hp
      · exact qvalue_le hp
      · cases hp
    · cases hp

theorem weight_le (header name : JsString) : weight header name ≤ 1000 := by
  have hlisted : ∀ name, ∀ q ∈ listed header name, q ≤ 1000 := fun name q hq => by
    obtain ⟨e, -, rfl⟩ := Option.map_eq_some_iff.mp hq
    exact weightOf_le e
  unfold weight
  cases hq : (listed header name).or (listed header (js "*")) with
  | none => exact Nat.zero_le _
  | some q =>
    obtain h | ⟨-, h⟩ := Option.or_eq_some_iff.mp hq
    · exact hlisted _ q h
    · exact hlisted _ q h

theorem listed_of_listedWeightless (h : (codings header).Nodup) (hname : name = js "br" ∨ name = js "gzip")
    (hlisted : listedWeightless header name) : listed header name = some 1000 := by
  unfold listedWeightless at hlisted
  split at hlisted
  · cases hlisted
  · next b a hat =>
    rw [Bool.and_eq_true] at hlisted
    obtain ⟨l, r, hl, hr, hmem⟩ := mem_splitOn_of_around (t := name)
      (by rcases hname with rfl | rfl <;> decide) hlisted.1 hlisted.2
    have heq := indexOf_eq hat
    rw [heq] at hmem
    have hends : ∀ c ∈ name, isEnd c = false ∧ c ≠ 0x3b := by
      have hall : name.all (fun c => !isEnd c && c ≠ 0x3b) = true := by
        rcases hname with rfl | rfl <;> decide
      simpa using hall
    have hcoding : codingOf (l ++ (name ++ r)) = name := by
      have hl' : (name ++ r).dropWhile isOws = name ++ r := by rcases hname with rfl | rfl <;> rfl
      have hr' : (r.takeWhile fun c => !isEnd c) = [] := by
        cases r with
        | nil => rfl
        | cons c r => exact List.takeWhile_cons_of_neg (by simp [isEnd, hr c])
      rw [codingOf, List.dropWhile_append_of_pos hl, hl',
        List.takeWhile_append_of_pos fun c hc => by simp [hends c hc], hr']
      rcases hname with rfl | rfl <;> rfl
    have hweight : weightOf (l ++ (name ++ r)) = 1000 := by
      have happ := weightOf_append (t := l ++ (name ++ r)) (fun c hc => by
        simp only [List.mem_append] at hc
        rcases hc with hc | hc | hc
        · exact (ne_of_isOws (hl c hc)).2
        · exact (hends c hc).2
        · exact (ne_of_isOws (hr c hc)).2) []
      rw [List.append_nil] at happ
      exact happ
    have hone := listed_of_mem h hmem (by rw [hcoding]; rcases hname with rfl | rfl <;> decide)
    rwa [hcoding, hweight] at hone

def Encoding.coding : Encoding → JsString
  | .br => js "br"
  | .gzip => js "gzip"

/-- The available coding with the highest positive weight, brotli on ties. -/
def Best (header : JsString) (available : Encoding → Bool) : Option Encoding → Prop
  | some c => available c ∧ 0 < weight header c.coding ∧ ∀ c', available c' →
      weight header c'.coding ≤ weight header c.coding ∧
        (weight header c'.coding = weight header c.coding → c = .br ∨ c' = c)
  | none => ∀ c, available c → weight header c.coding = 0

theorem best_negotiateWeighted (header : JsString) (hasBr hasGz : Bool) :
    Best header (fun | .br => hasBr | .gzip => hasGz) (negotiateWeighted header hasBr hasGz) := by
  rw [negotiateWeighted_eq]
  cases hasBr <;> cases hasGz <;> simp only [Bool.false_eq_true, if_false] <;>
    split_ifs <;> grind [Best, Encoding.coding, cases Encoding]

/-- **Negotiation**: of a header that lists no coding twice, the fast path answers what the full
pass does, which is the best of the available codings. -/
theorem negotiate_best (header : JsString) (hasBr hasGz : Bool) (h : (codings header).Nodup) :
    negotiateEncoding header hasBr hasGz = negotiateWeighted header hasBr hasGz ∧
      Best header (fun | .br => hasBr | .gzip => hasGz) (negotiateWeighted header hasBr hasGz) := by
  refine ⟨?_, best_negotiateWeighted header hasBr hasGz⟩
  have hle := weight_le header (js "gzip")
  -- a coding that is listed without a weight has the highest
  have hbr : listed header (js "br") = some 1000 → hasBr = true →
      some Encoding.br = negotiateWeighted header hasBr hasGz := fun h1 h2 => by
    have hweight : weight header (js "br") = 1000 := by simp [weight, h1]
    rw [negotiateWeighted_eq]
    cases hasGz <;> simp [h2, hweight, hle]
  have hgzip : listed header (js "gzip") = some 1000 → hasBr = false → hasGz = true →
      some Encoding.gzip = negotiateWeighted header hasBr hasGz := fun h1 h2 h3 => by
    have hweight : weight header (js "gzip") = 1000 := by simp [weight, h1]
    simp [negotiateWeighted_eq, h2, h3, hweight]
  unfold negotiateEncoding
  split
  · next hnone =>
    rcases hnone with rfl | hnone
    · have hzero : weight [] (js "br") = 0 ∧ weight [] (js "gzip") = 0 := by decide
      simp [negotiateWeighted_eq, hzero]
    · simp_all [negotiateWeighted_eq]
  · next hsome =>
    split
    · next hheader =>
      subst hheader
      cases hasBr with
      | true => exact hbr (by decide) rfl
      | false => simp [negotiateWeighted_eq, show weight (js "br") (js "gzip") = 0 by decide]
    · split
      · next hheader =>
        subst hheader
        have hzero : weight (js "gzip") (js "br") = 0 := by decide
        have hfull : weight (js "gzip") (js "gzip") = 1000 := by decide
        cases hasGz <;> cases hasBr <;> simp [negotiateWeighted_eq, hzero, hfull]
      · split
        · next hfast =>
          simp only [Bool.and_eq_true, Bool.or_eq_true, decide_eq_true_eq] at hfast
          obtain ⟨hhas, (rfl | rfl) | hlisted⟩ := hfast
          · exact hbr (by decide) hhas
          · exact hbr (by decide) hhas
          · exact hbr (listed_of_listedWeightless h (.inl rfl) hlisted) hhas
        · split
          · next hfast =>
            simp only [Bool.and_eq_true, Bool.not_eq_true'] at hfast
            refine hgzip (listed_of_listedWeightless h (.inr rfl) hfast.2) hfast.1 ?_
            simp_all
          · rfl

theorem negotiate_best_weighted :
    negotiateEncoding (js "br;q=0.5, gzip") true true = negotiateWeighted (js "br;q=0.5, gzip") true true ∧
      Best (js "br;q=0.5, gzip") (fun | .br => true | .gzip => true)
        (negotiateWeighted (js "br;q=0.5, gzip") true true) :=
  negotiate_best _ _ _ (by decide)

end BunServe.Negotiate
