import BunServe.Lib.F64.Order
import Mathlib.Data.List.Nodup
import Mathlib.Data.List.Pairwise
import Mathlib.Data.List.ProdSigma

/-!
# BunServe.Cursor.Cull

The indexed cull of `plugins/cursor/server.js` over doubles: the cells of a viewport, the
walk over them, and what it pulls.

An item is its index.  A loop is given fuel, and none is a loop that has not ended.

* `steps`, `steps_spec`, `steps_end` — the numbers that a loop over cells runs through;
* `culls_iff` — the indexed cull ends with just what the direct one returns when it
  delivers all, or every cell of the range is less than the next, and no two cells of it
  share a key that a mover in sight has.
-/

namespace BunServe.Cursor.Cull

open F64

/-! ## culling -/

/-- `viewport.padding` and `viewport.cell`, as accepted. -/
structure Options where
  padding : F64
  cell : F64
  finite : cell.isFinite = true
  positive : 0 < cell.value

structure Rect where
  x : F64
  y : F64
  w : F64
  h : F64
  zoom : F64

/-- A rect that `viewport` records. -/
def Rect.accepted (r : Rect) : Bool :=
  [r.x, r.y, r.w, r.h, r.zoom].all isFinite && lt zero r.w && lt zero r.h && lt zero r.zoom

structure Point where
  x : F64
  y : F64

structure Bounds where
  minX : F64
  minY : F64
  maxX : F64
  maxY : F64

/-- `packCell(cx, cy)`. -/
def packCell (cx cy : F64) : BitVec 32 :=
  let toInt32 (a : F64) : BitVec 32 := if a.isFinite then BitVec.ofInt 32 (a.value.tdiv unit) else 0
  (toInt32 cx &&& 0xffff) <<< 16 ||| (toInt32 cy &&& 0xffff)

/-- `rectBounds(rect)`. -/
def rectBounds (o : Options) (r : Rect) : Bounds :=
  let pad := if lt r.zoom one then div o.padding r.zoom else o.padding
  { minX := sub r.x pad
    minY := sub r.y pad
    maxX := add (add r.x r.w) pad
    maxY := add (add r.y r.h) pad }

def inside (b : Bounds) (p : Point) : Bool :=
  le b.minX p.x && le p.x b.maxX && le b.minY p.y && le p.y b.maxY

/-- `Math.floor(a / viewportCell)`. -/
def cellAt (o : Options) (a : F64) : F64 := floor (div a o.cell)

/-- The range of cells of a viewport. -/
def cells (o : Options) (r : Rect) : Bounds where
  minX := cellAt o (rectBounds o r).minX
  minY := cellAt o (rectBounds o r).minY
  maxX := cellAt o (rectBounds o r).maxX
  maxY := cellAt o (rectBounds o r).maxY

/-- The movers of a flush; one without a position is always visible. -/
abbrev Flush := List (Option Point)

/-- `flushPos[i]`. -/
def pos (flush : Flush) (i : Nat) : Option Point := flush[i]?.join

def alwaysVisible (flush : Flush) : List Nat :=
  (List.range flush.length).filter fun i => (pos flush i).isNone

/-- `cullDirect(rect)`. -/
def cullDirect (o : Options) (flush : Flush) (r : Rect) : List Nat :=
  (List.range flush.length).filter fun i => (pos flush i).all (inside (rectBounds o r))

/-- The movers of a cell that are in the bounds. -/
def pulled (o : Options) (flush : Flush) (b : Bounds) (key : BitVec 32) : List Nat :=
  (List.range flush.length).filter fun i => (pos flush i).any fun p =>
    decide (packCell (cellAt o p.x) (cellAt o p.y) = key) && inside b p

/-- `for (let c = lo; c <= hi; c++)`, with what its body pushes. -/
def walk (hi : F64) (body : F64 → Option (List Nat)) : Nat → F64 → Option (List Nat)
  | 0, _ => none
  | fuel + 1, c =>
    if le c hi then do
      let out ← body c
      let rest ← walk hi body fuel (add c one)
      some (out ++ rest)
    else some []

/-- There are more cells than movers. -/
def delivers (o : Options) (flush : Flush) (r : Rect) : Bool :=
  let c := cells o r
  lt (ofInt flush.length) (mul (add (sub c.maxX c.minX) one) (add (sub c.maxY c.minY) one))

/-- `cullIndexed(rect)`. -/
def cullIndexed (o : Options) (flush : Flush) (r : Rect) (fuel : Nat) : Option (List Nat) :=
  let b := rectBounds o r
  let c := cells o r
  if delivers o flush r then some (List.range flush.length)
  else (walk c.maxY (fun cy => walk c.maxX (fun cx => some (pulled o flush b (packCell cx cy))) fuel c.minX)
    fuel c.minY).map (alwaysVisible flush ++ ·)

/-! ## loops -/

variable {lo hi c q : F64} {fuel : Nat} {cs : List F64}

/-- The numbers that a loop runs through. -/
def steps (hi : F64) : Nat → F64 → Option (List F64)
  | 0, _ => none
  | fuel + 1, c => if le c hi then (steps hi fuel (add c one)).map (c :: ·) else some []

theorem walk_some {body : F64 → Option (List Nat)} {g : F64 → List Nat}
    (h : le c hi = true → ∀ q, body q = some (g q)) :
    walk hi body fuel c = (steps hi fuel c).map (·.flatMap g) := by
  induction fuel generalizing c with
  | zero => rfl
  | succ fuel ih =>
    rw [walk, steps]
    split
    · next hle =>
      rw [h hle, ih fun _ => h hle]
      cases steps hi fuel (add c one) <;> rfl
    · rfl

theorem walk_none {body : F64 → Option (List Nat)} (hle : le c hi = true) (h : body c = none) :
    walk hi body fuel c = none := by
  cases fuel <;> simp [walk, hle, h]

theorem le_iff : le c hi = true ↔ c.isNaN = false ∧ hi.isNaN = false ∧ c.value ≤ hi.value := by
  simp [le, and_assoc]

theorem le_trans (h : le lo c = true) (h' : le c hi = true) : le lo hi = true := by
  rw [le_iff] at *
  exact ⟨h.1, h'.2.1, h.2.2.trans h'.2.2⟩

theorem steps_stuck (hc : Cell c) (hle : le c hi = true) (h : F64.succ c.value = c.value) :
    steps hi fuel c = none := by
  induction fuel generalizing c with
  | zero => rfl
  | succ fuel ih =>
    obtain ⟨hcell, hvalue, -⟩ := hc.add_one
    rw [h] at hvalue
    rw [le_iff] at hle
    rw [steps, if_pos (le_iff.mpr hle), ih hcell (le_iff.mpr ⟨hcell.number, hle.2.1, hvalue ▸ hle.2.2⟩)
      (by rw [hvalue, h])]
    rfl

/-- Every whole number of the range is less than the next. -/
def Ends (lo hi : F64) : Prop :=
  ∀ p, Cell p → le lo p = true → le p hi = true → lt p (add p one) = true

/-- What holds of the numbers that a loop runs through. -/
structure Steps (lo hi : F64) (cs : List F64) : Prop where
  range : ∀ p ∈ cs, Cell p ∧ le lo p = true ∧ le p hi = true
  all : ∀ q, Cell q → le lo q = true → le q hi = true → ∃ p ∈ cs, p.value = q.value
  inj : ∀ p ∈ cs, ∀ q ∈ cs, p.value = q.value → p = q
  nodup : cs.Nodup
  ends : Ends lo hi

theorem steps_spec (hc : le c hi = true → Cell c) (h : steps hi fuel c = some cs) : Steps c hi cs := by
  induction fuel generalizing c cs with
  | zero => cases h
  | succ fuel ih =>
    rw [steps] at h
    split at h
    · next hle =>
      have hcell := hc hle
      obtain ⟨hnext, hvalue, hge⟩ := hcell.add_one
      obtain ⟨rest, hrest, rfl⟩ := Option.map_eq_some_iff.mp h
      have hrun := ih (fun _ => hnext) hrest
      have hlt : c.value < F64.succ c.value := by
        refine lt_of_le_of_ne hge fun heq => ?_
        have hsame : F64.succ (add c one).value = (add c one).value := by rw [hvalue, ← heq, ← heq]
        have hhi := le_iff.mp hle
        rw [steps_stuck hnext (le_iff.mpr ⟨hnext.number, hhi.2.1, by omega⟩) hsame] at hrest
        cases hrest
      -- what is not this number is no less than the next
      have hsplit : ∀ q, Cell q → le c q = true → q.value = c.value ∨ le (add c one) q = true := by
        intro q hq hcq
        have hcq := (le_iff.mp hcq).2.2
        by_cases heq : q.value = c.value
        · exact .inl heq
        · exact .inr (le_iff.mpr ⟨hnext.number, hq.number, hvalue ▸ hcell.succ_le hq (by omega)⟩)
      have habove : ∀ p ∈ rest, c.value < p.value := fun p hp => by
        have := (le_iff.mp (hrun.range p hp).2.1).2.2
        omega
      refine ⟨?_, ?_, ?_, ?_, ?_⟩
      · rintro p (_ | ⟨_, hp⟩)
        · exact ⟨hcell, le_iff.mpr ⟨hcell.number, hcell.number, le_rfl⟩, hle⟩
        · obtain ⟨hp', -, hphi⟩ := hrun.range p hp
          exact ⟨hp', le_iff.mpr ⟨hcell.number, hp'.number, (habove p hp).le⟩, hphi⟩
      · intro q hq hcq hqhi
        cases hsplit q hq hcq with
        | inl heq => exact ⟨c, by simp, heq.symm⟩
        | inr hnq =>
          obtain ⟨p, hp, heq⟩ := hrun.all q hq hnq hqhi
          exact ⟨p, by simp [hp], heq⟩
      · have hinj := hrun.inj
        grind
      · exact List.nodup_cons.mpr ⟨fun hmem => absurd (habove c hmem) (by omega), hrun.nodup⟩
      · intro q hq hcq hqhi
        cases hsplit q hq hcq with
        | inl heq =>
          obtain ⟨hq', hvalue', -⟩ := hq.add_one
          simp [F64.lt, hq.number, hq'.number, hvalue', heq, hlt]
        | inr hnq => exact hrun.ends q hq hnq hqhi
    · next hle =>
      cases h
      exact ⟨nofun, fun q _ hcq hqhi => absurd (le_trans hcq hqhi) hle, nofun, .nil,
        fun q _ hcq hqhi => absurd (le_trans hcq hqhi) hle⟩

theorem steps_end (hc : le c hi = true → Cell c) (h : Ends c hi) :
    ∃ cs N, ∀ fuel ≥ N, steps hi fuel c = some cs := by
  obtain ⟨k, hk⟩ : ∃ k, (hi.value - c.value + 1).toNat = k := ⟨_, rfl⟩
  induction k using Nat.strong_induction_on generalizing c with
  | h k ih =>
    by_cases hle : le c hi = true
    · have hcell := hc hle
      obtain ⟨hnext, hvalue, hge⟩ := hcell.add_one
      have hlt : c.value < (add c one).value := by
        have := h c hcell (le_iff.mpr ⟨hcell.number, hcell.number, le_rfl⟩) hle
        simpa [F64.lt, hcell.number, hnext.number] using this
      have hrange := (le_iff.mp hle).2.2
      obtain ⟨cs, N, hcs⟩ := ih _ (by omega) (fun _ => hnext) (fun p hp hcp hphi => h p hp
        (le_iff.mpr ⟨hcell.number, hp.number, hlt.le.trans (le_iff.mp hcp).2.2⟩) hphi) rfl
      refine ⟨c :: cs, N + 1, fun fuel hfuel => ?_⟩
      obtain ⟨m, rfl⟩ : ∃ m, fuel = m + 1 := ⟨fuel - 1, by omega⟩
      rw [steps, if_pos hle, hcs m (by omega)]
      rfl
    · refine ⟨[], 1, fun fuel hfuel => ?_⟩
      obtain ⟨m, rfl⟩ : ∃ m, fuel = m + 1 := ⟨fuel - 1, by omega⟩
      rw [steps, if_neg hle]

/-! ## the cells of a mover in sight -/

variable {o : Options} {flush : Flush} {r : Rect} {a b x y : F64} {p : Point} {i : Nat}
  {key : BitVec 32} {xs ys : List F64}

theorem cellAt_le (h : le a b = true) : le (cellAt o a) (cellAt o b) = true := by
  obtain ⟨ha, hb, hab⟩ := le_iff.mp h
  have hdiv : ∀ {a : F64}, a.isNaN = false → (div a o.cell).isNaN = false :=
    fun h => (value_div o.finite o.positive h).1
  exact le_iff.mpr ⟨(value_floor (hdiv ha)).1, (value_floor (hdiv hb)).1,
    value_floor_le (hdiv ha) (hdiv hb) (value_div_le o.finite o.positive ha hb hab)⟩

theorem cell_of_le (h : le (cellAt o a) b = true) : Cell (cellAt o a) := cell_floor (le_iff.mp h).1

theorem cell_minX (h : le (cells o r).minX b = true) : Cell (cells o r).minX := cell_of_le h

theorem packCell_congr (hx : x.value = a.value) (hy : y.value = b.value) :
    packCell x y = packCell a b := by
  have hfin : ∀ {a b : F64}, a.value = b.value → a.isFinite = b.isFinite := fun h => by
    rw [Bool.eq_iff_iff, isFinite_iff, isFinite_iff, h]
  simp only [packCell, hx, hy, hfin hx, hfin hy]

theorem range_of_inside (h : inside (rectBounds o r) p = true) :
    (le (cells o r).minX (cellAt o p.x) = true ∧
      le (cellAt o p.x) (cells o r).maxX = true) ∧
    le (cells o r).minY (cellAt o p.y) = true ∧ le (cellAt o p.y) (cells o r).maxY = true := by
  simp only [inside, Bool.and_eq_true] at h
  exact ⟨⟨cellAt_le h.1.1.1, cellAt_le h.1.1.2⟩, cellAt_le h.1.2, cellAt_le h.2⟩

theorem lt_of_pos (h : pos flush i = some p) : i < flush.length := by
  by_contra hge
  simp [pos, List.getElem?_eq_none (not_lt.mp hge)] at h

theorem mem_pulled {b : Bounds} : i ∈ pulled o flush b key ↔ ∃ p, pos flush i = some p ∧
    packCell (cellAt o p.x) (cellAt o p.y) = key ∧ inside b p = true := by
  simp only [pulled, List.mem_filter, List.mem_range, Option.any_eq_true, Bool.and_eq_true, decide_eq_true_eq]
  exact ⟨fun h => h.2, fun h => ⟨lt_of_pos h.choose_spec.1, h⟩⟩

theorem mem_cullDirect : i ∈ cullDirect o flush r ↔ i ∈ alwaysVisible flush ∨
    ∃ p, pos flush i = some p ∧ inside (rectBounds o r) p = true := by
  simp only [cullDirect, alwaysVisible, List.mem_filter]
  cases h : pos flush i with
  | none => simp
  | some p => simp [lt_of_pos h]

/-! ## both culls -/

/-- A cell of the range that has the key of a mover in sight is the mover's. -/
def Separate (o : Options) (flush : Flush) (r : Rect) : Prop :=
  let c := cells o r
  ∀ i p, pos flush i = some p → inside (rectBounds o r) p = true → ∀ x y, Cell x → Cell y →
    le c.minX x = true → le x c.maxX = true → le c.minY y = true → le y c.maxY = true →
    packCell x y = packCell (cellAt o p.x) (cellAt o p.y) →
    x.value = (cellAt o p.x).value ∧ y.value = (cellAt o p.y).value

/-- The indexed cull ends, with just what the direct one returns, or with more when it
delivers all. -/
def Culls (o : Options) (flush : Flush) (r : Rect) : Prop :=
  ∃ out, (∃ N, ∀ fuel ≥ N, cullIndexed o flush r fuel = some out) ∧
    if delivers o flush r then cullDirect o flush r ⊆ out ∧ out.Nodup
    else out.Perm (cullDirect o flush r)

/-- What the walk over these cells returns. -/
def walked (o : Options) (flush : Flush) (r : Rect) (xs ys : List F64) : List Nat :=
  alwaysVisible flush ++ ys.flatMap fun cy => xs.flatMap fun cx =>
    pulled o flush (rectBounds o r) (packCell cx cy)

theorem cullIndexed_eq (hd : ¬delivers o flush r = true)
    (h : le (cells o r).minY (cells o r).maxY = true →
      steps (cells o r).maxX fuel (cells o r).minX = some xs) :
    cullIndexed o flush r fuel =
      (steps (cells o r).maxY fuel (cells o r).minY).map (walked o flush r xs) := by
  rw [cullIndexed, if_neg hd, walk_some, Option.map_map]
  · rfl
  · intro hle q
    rw [walk_some fun _ _ => rfl, h hle]
    rfl

theorem walked_eq : walked o flush r xs ys = alwaysVisible flush ++ (ys.product xs).flatMap fun c =>
    pulled o flush (rectBounds o r) (packCell c.2 c.1) := by
  simp only [walked, List.product, List.flatMap_assoc, List.flatMap_map]

section

variable (hy : Steps (cells o r).minY (cells o r).maxY ys)
  (hx : le (cells o r).minY (cells o r).maxY = true → Steps (cells o r).minX (cells o r).maxX xs)

include hy hx

theorem pulled_of_key (hpos : pos flush i = some p) (hin : inside (rectBounds o r) p = true)
    (hcx : Cell x) (hcy : Cell y) (hx1 : le (cells o r).minX x = true)
    (hx2 : le x (cells o r).maxX = true) (hy1 : le (cells o r).minY y = true)
    (hy2 : le y (cells o r).maxY = true)
    (hkey : packCell x y = packCell (cellAt o p.x) (cellAt o p.y)) :
    ∃ c ∈ ys.product xs, c.1.value = y.value ∧ c.2.value = x.value ∧
      i ∈ pulled o flush (rectBounds o r) (packCell c.2 c.1) := by
  obtain ⟨y', hmemy, hyv⟩ := hy.all y hcy hy1 hy2
  obtain ⟨x', hmemx, hxv⟩ := (hx (le_trans hy1 hy2)).all x hcx hx1 hx2
  exact ⟨(y', x'), List.pair_mem_product.mpr ⟨hmemy, hmemx⟩, hyv, hxv,
    mem_pulled.mpr ⟨p, hpos, hkey.symm.trans (packCell_congr hxv hyv).symm, hin⟩⟩

theorem pulled_of_inside (hpos : pos flush i = some p) (hin : inside (rectBounds o r) p = true) :
    ∃ c ∈ ys.product xs, c.1.value = (cellAt o p.y).value ∧ c.2.value = (cellAt o p.x).value ∧
      i ∈ pulled o flush (rectBounds o r) (packCell c.2 c.1) := by
  have ⟨hinx, hiny⟩ := range_of_inside hin
  exact pulled_of_key hy hx hpos hin (cell_of_le hinx.2) (cell_of_le hiny.2) hinx.1 hinx.2 hiny.1 hiny.2 rfl

theorem nodup_of_separate (hsep : Separate o flush r) : ((ys.product xs).flatMap fun c =>
    pulled o flush (rectBounds o r) (packCell c.2 c.1)).Nodup := by
  refine List.nodup_flatMap.mpr ⟨fun c _ => List.nodup_range.filter _, ?_⟩
  by_cases hnil : ys.product xs = []
  · simp [hnil]
  · have hle : le (cells o r).minY (cells o r).maxY = true := by
      obtain ⟨c, hc⟩ := List.exists_mem_of_ne_nil _ hnil
      have ⟨_, hcy1, hcy2⟩ := hy.range _ (List.pair_mem_product.mp hc).1
      exact le_trans hcy1 hcy2
    have hsx := hx hle
    have hcell : ∀ c ∈ ys.product xs, ∀ i p, pos flush i = some p → inside (rectBounds o r) p = true →
        packCell (cellAt o p.x) (cellAt o p.y) = packCell c.2 c.1 →
        c.2 ∈ xs ∧ c.1 ∈ ys ∧ c.2.value = (cellAt o p.x).value ∧ c.1.value = (cellAt o p.y).value := by
      intro c hc i p hpos hin hkey
      obtain ⟨hcy, hcx⟩ := List.pair_mem_product.mp hc
      have ⟨hcy0, hcy1, hcy2⟩ := hy.range _ hcy
      have ⟨hcx0, hcx1, hcx2⟩ := hsx.range _ hcx
      exact ⟨hcx, hcy, hsep i p hpos hin _ _ hcx0 hcy0 hcx1 hcx2 hcy1 hcy2 hkey.symm⟩
    refine (hy.nodup.product hsx.nodup).pairwise_of_forall_ne fun c hc d hd hne i hi hi' => hne ?_
    obtain ⟨p, hpos, hkey, hin⟩ := mem_pulled.mp hi
    obtain ⟨p', hpos', hkey', -⟩ := mem_pulled.mp hi'
    cases hpos.symm.trans hpos'
    have ⟨hcx, hcy, hcxv, hcyv⟩ := hcell c hc i p hpos hin hkey
    have ⟨hdx, hdy, hdxv, hdyv⟩ := hcell d hd i p hpos hin hkey'
    exact Prod.ext (hy.inj _ hcy _ hdy (hcyv.trans hdyv.symm)) (hsx.inj _ hcx _ hdx (hcxv.trans hdxv.symm))

theorem walked_perm : (walked o flush r xs ys).Perm (cullDirect o flush r) ↔ Separate o flush r := by
  have hdirect : (cullDirect o flush r).Nodup := List.nodup_range.filter _
  rw [walked_eq]
  constructor
  · intro hperm i p hpos hin x y hcx hcy hx1 hx2 hy1 hy2 hkey
    have hapart := (List.nodup_flatMap.mp (List.nodup_append.mp (hperm.nodup_iff.mpr hdirect)).2.1).2
    have : Std.Symm (Function.onFun List.Disjoint fun c : F64 × F64 =>
      pulled o flush (rectBounds o r) (packCell c.2 c.1)) := ⟨fun _ _ h _ hi hi' => h hi' hi⟩
    obtain ⟨c, hc, hcyv, hcxv, hi⟩ := pulled_of_key hy hx hpos hin hcx hcy hx1 hx2 hy1 hy2 hkey
    obtain ⟨d, hd, hdyv, hdxv, hi'⟩ := pulled_of_inside hy hx hpos hin
    have heq : c = d := by
      by_contra hne
      exact hapart.forall hc hd hne hi hi'
    exact ⟨hcxv.symm.trans (heq ▸ hdxv), hcyv.symm.trans (heq ▸ hdyv)⟩
  · intro hsep
    have hall : (alwaysVisible flush ++ (ys.product xs).flatMap fun c =>
        pulled o flush (rectBounds o r) (packCell c.2 c.1)).Nodup := by
      refine List.nodup_append.mpr
        ⟨List.nodup_range.filter _, nodup_of_separate hy hx hsep, fun i hi j hj heq => ?_⟩
      obtain ⟨c, -, hc⟩ := List.mem_flatMap.mp hj
      obtain ⟨p, hpos, -⟩ := mem_pulled.mp hc
      simp [alwaysVisible, heq, hpos] at hi
    rw [List.perm_ext_iff_of_nodup hall hdirect]
    intro i
    rw [List.mem_append, mem_cullDirect, List.mem_flatMap]
    refine or_congr_right ⟨fun ⟨c, _, hc⟩ => ?_, fun ⟨p, hpos, hin⟩ => ?_⟩
    · obtain ⟨p, hpos, -, hin⟩ := mem_pulled.mp hc
      exact ⟨p, hpos, hin⟩
    · obtain ⟨c, hc, -, -, hi⟩ := pulled_of_inside hy hx hpos hin
      exact ⟨c, hc, hi⟩

end

theorem cullIndexed_none (hd : ¬delivers o flush r = true)
    (hle : le (cells o r).minY (cells o r).maxY = true)
    (h : steps (cells o r).maxX fuel (cells o r).minX = none) : cullIndexed o flush r fuel = none := by
  rw [cullIndexed, if_neg hd, walk_none hle]
  · rfl
  · rw [walk_some fun _ _ => rfl, h]
    rfl

theorem steps_of_cullIndexed {out : List Nat} (hd : ¬delivers o flush r = true)
    (h : cullIndexed o flush r fuel = some out) : ∃ ys xs,
    steps (cells o r).maxY fuel (cells o r).minY = some ys ∧
    (le (cells o r).minY (cells o r).maxY = true →
      steps (cells o r).maxX fuel (cells o r).minX = some xs) ∧ out = walked o flush r xs ys := by
  obtain ⟨xs, hxs⟩ : ∃ xs, le (cells o r).minY (cells o r).maxY = true →
      steps (cells o r).maxX fuel (cells o r).minX = some xs := by
    cases hsteps : steps (cells o r).maxX fuel (cells o r).minX with
    | some xs => exact ⟨xs, fun _ => rfl⟩
    | none =>
      refine ⟨[], fun hle => ?_⟩
      cases h.symm.trans (cullIndexed_none hd hle hsteps)
  rw [cullIndexed_eq hd hxs] at h
  obtain ⟨ys, hys, rfl⟩ := Option.map_eq_some_iff.mp h
  exact ⟨ys, xs, hys, hxs, rfl⟩

variable (o flush r)

/-- When the indexed cull agrees with the direct one. -/
theorem culls_iff : Culls o flush r ↔ delivers o flush r = true ∨
    Ends (cells o r).minY (cells o r).maxY ∧
      (le (cells o r).minY (cells o r).maxY = true → Ends (cells o r).minX (cells o r).maxX) ∧
      Separate o flush r := by
  by_cases hd : delivers o flush r = true
  · simp only [Culls, cullIndexed, hd, true_or, iff_true]
    exact ⟨_, ⟨0, fun _ _ => rfl⟩, fun _ => List.mem_of_mem_filter, List.nodup_range⟩
  · rw [or_iff_right hd]
    constructor
    · rintro ⟨out, ⟨N, hout⟩, hperm⟩
      obtain ⟨ys, xs, hys, hxs, rfl⟩ := steps_of_cullIndexed hd (hout N le_rfl)
      have hsy := steps_spec cell_of_le hys
      have hsx := fun hle => steps_spec cell_of_le (hxs hle)
      rw [if_neg hd] at hperm
      exact ⟨hsy.ends, fun hle => (hsx hle).ends, (walked_perm hsy hsx).mp hperm⟩
    · rintro ⟨hey, hex, hsep⟩
      obtain ⟨ys, N, hys⟩ := steps_end (c := (cells o r).minY) cell_of_le hey
      obtain ⟨xs, M, hxs⟩ : ∃ xs M, le (cells o r).minY (cells o r).maxY = true →
          ∀ fuel ≥ M, steps (cells o r).maxX fuel (cells o r).minX = some xs := by
        by_cases hle : le (cells o r).minY (cells o r).maxY = true
        · obtain ⟨xs, M, hxs⟩ := steps_end cell_of_le (hex hle)
          exact ⟨xs, M, fun _ => hxs⟩
        · exact ⟨[], 0, fun h => absurd h hle⟩
      refine ⟨walked o flush r xs ys, ⟨max N M, fun fuel hfuel => ?_⟩, ?_⟩
      · rw [cullIndexed_eq hd fun hle => hxs hle fuel (by omega), hys fuel (by omega)]
        rfl
      · rw [if_neg hd]
        exact (walked_perm (steps_spec cell_of_le (hys N le_rfl)) fun hle =>
          steps_spec cell_of_le (hxs hle M le_rfl)).mpr hsep

/-- The defaults of `viewport`. -/
def defaults : Options where
  padding := ofInt 256
  cell := ofInt 256
  finite := by decide +kernel
  positive := by decide +kernel

/-- A viewport at `x = 1e20`. -/
def far : Rect := { x := ofInt (10 ^ 20), y := zero, w := one, h := one, zoom := one }

/-- Its one column of cells has no next: `cx++` does not change `cx`, and the loop goes on. -/
theorem far_stuck : far.accepted = true ∧
    ¬Culls defaults (List.replicate 512 (some ⟨zero, zero⟩)) far := by
  refine ⟨by decide +kernel, fun ⟨out, ⟨N, hout⟩, _⟩ => ?_⟩
  have hx : le (cells defaults far).minX (cells defaults far).maxX = true := by decide +kernel
  cases (hout N le_rfl).symm.trans (cullIndexed_none (by decide +kernel) (by decide +kernel)
    (steps_stuck (cell_minX hx) hx (by decide +kernel)))

end BunServe.Cursor.Cull
