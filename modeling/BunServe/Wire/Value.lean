import BunServe.Lib.F64.Whole
import BunServe.Lib.JsMap
import BunServe.Wire.Frame

/-!
# BunServe.Wire.Value

The compact value codec of `runtime/wire-value.js`: a tag byte, then a number, a
string, or the count of what follows.

Counts, lengths and zigzagged integers are read as doubles, as the source reads
them; where a count turns out to be `NaN` or `Infinity` the model says what the
loop over it does.  A `NaN` length leaves the reader at position `NaN`, from
which every read throws, so the model leaves nothing to read.

Reading recurses, and an engine throws a `RangeError` when its stack is full:
`depth` is how deep it lets a value nest.

* `reads_varint` — a varint of any size is read back exactly;
* `reads_value` — every value is read back as what UTF-8 makes of its strings;
* `sent_eq_json_iff` — that is the value's JSON round trip exactly when UTF-8
  carries every string in it;
* `value_roundTrip` — so the codec equals JSON on those values.
-/

namespace BunServe.Wire.Value

open Reader (Reads)
open F64 (ofInt whole_ofInt)

/-! ## varints of any size -/

/-- `varint()`, in doubles. -/
def readCount : Reader UInt8 F64 := Frame.readVarint

variable {n : Nat} {x : F64}

/-- The loop reads the low groups of `n` first, and every number on the way is a
double because `n` is. -/
theorem readVarintFrom_whole {j : Nat} {result mul : F64} (value : Nat)
    (hx : F64.Whole x n) (hvalue : value = n / 2 ^ (7 * j))
    (hr : F64.Whole result (n % 2 ^ (7 * j))) (hm : F64.Whole mul (2 ^ (7 * j))) (rest : Bytes) :
    Frame.readVarintFrom result mul (writeVarint value ++ rest) = some (x, rest) := by
  induction value using Nat.strongRecOn generalizing j result mul with
  | ind value ih =>
    have hpow : 2 ^ (7 * (j + 1)) = 2 ^ (7 * j) * 128 := by rw [Nat.mul_add, Nat.pow_add]
    have hle : value * 2 ^ (7 * j) ≤ n := hvalue ▸ Nat.div_mul_le_self n _
    have hdigitLe : value % 128 * 2 ^ (7 * j) ≤ n :=
      (Nat.mul_le_mul_right _ (Nat.mod_le _ _)).trans hle
    obtain ⟨c, hc⟩ := hx.shift (by omega) hdigitLe
    have hdigit : F64.Whole (ofInt (value % 128 : Nat)) (value % 128) :=
      whole_ofInt (by omega)
    have hprod : F64.mul (ofInt (value % 128 : Nat)) mul = c := hdigit.mul_exact hm hc
    have hmod : n % 2 ^ (7 * j) + value % 128 * 2 ^ (7 * j) = n % 2 ^ (7 * (j + 1)) := by
      rw [hpow, Nat.mod_mul, hvalue, Nat.mul_comm (2 ^ (7 * j))]
    rw [writeVarint]
    by_cases hlt : value > 0x7f
    · have hb := Utf8.toNat_ofNat_lt (n := value % 128 + 128) (by omega)
      have hlow : (value % 128 + 128) % 128 = value % 128 := by omega
      obtain ⟨d, hd⟩ := hx.mod (7 * (j + 1))
      have hsum : F64.add result c = d := hr.add_exact hc (hmod ▸ hd)
      have hnext : 1 * 2 ^ (7 * (j + 1)) ≤ n := by
        calc 1 * 2 ^ (7 * (j + 1)) = 128 * 2 ^ (7 * j) := by rw [hpow]; ring
          _ ≤ value * 2 ^ (7 * j) := Nat.mul_le_mul_right _ (by omega)
          _ ≤ n := hle
      obtain ⟨m, hm'⟩ := hx.shift (by decide) hnext
      rw [Nat.one_mul] at hm'
      have hmul : F64.mul mul (ofInt 128) = m :=
        hm.mul_exact (whole_ofInt (by decide)) (hpow ▸ hm')
      have hdiv : value / 128 = n / 2 ^ (7 * (j + 1)) := by
        rw [hpow, ← Nat.div_div_eq_div_mul, hvalue]
      rw [if_pos hlt, writeU8, List.singleton_append, List.cons_append, Frame.readVarintFrom]
      simp only [hb, hlow, hprod, hsum, hmul]
      exact ih (value / 128) (by omega) hdiv hd hm'
    · have hb := Utf8.toNat_ofNat_lt (n := value) (by omega)
      have hlow : value % 128 = value := Nat.mod_eq_of_lt (by omega)
      have hall : n % 2 ^ (7 * j) + value % 128 * 2 ^ (7 * j) = n := by
        rw [hlow, hvalue]
        exact Nat.mod_add_div' n _
      have hsum : F64.add result c = x := hr.add_exact hc (hall.symm ▸ hx)
      rw [hlow] at hprod
      rw [if_neg hlt, writeU8, List.singleton_append, Frame.readVarintFrom]
      simp only [hb, hlow, hprod, hsum]
      rw [if_neg (by omega)]

theorem reads_varint (hx : F64.Whole x n) : Reads readCount (writeVarint n) x := by
  intro rest
  have hzero : F64.Whole F64.zero (n % 2 ^ (7 * 0)) := by
    rw [Nat.pow_zero, Nat.mod_one]
    exact F64.whole_zero
  have hloop := readVarintFrom_whole n hx (by simp) hzero
    (whole_ofInt (by decide)) rest
  show Frame.readVarint (writeVarint n ++ rest) = some (x, rest)
  by_cases hlt : n > 0x7f
  · have hb := Utf8.toNat_ofNat_lt (n := n % 128 + 128) (by omega)
    rw [writeVarint, if_pos hlt, writeU8, List.singleton_append, List.cons_append] at hloop ⊢
    rw [Frame.readVarint, if_neg (by omega)]
    exact hloop
  · have hb := Utf8.toNat_ofNat_lt (n := n) (by omega)
    rw [writeVarint, if_neg hlt, writeU8, List.singleton_append, Frame.readVarint, hb,
      if_pos (by omega), (whole_ofInt (by omega)).unique hx]

/-! ## values -/

/-- A JavaScript value, as the codec tells values apart: `func` is a function
or a symbol, and an object is its own enumerable properties in the order of
`Object.keys`. -/
inductive JsValue where
  | null
  | undefined
  | func
  | bigint
  | bool (b : Bool)
  | num (a : F64)
  | str (s : JsString)
  | arr (vs : List JsValue)
  | obj (ps : List (JsString × JsValue))

namespace JsValue

/-- What `JSON.stringify` leaves out of an object. -/
def dropped : JsValue → Bool
  | undefined => true
  | func => true
  | _ => false

/-- `out[key] = val`, `__proto__` included: it is defined as an own property. -/
def assign (out : List (JsString × JsValue)) (p : JsString × JsValue) :
    List (JsString × JsValue) :=
  if p.1 ∈ out.map Prod.fst then JsMap.replace p.1 p.2 out else out ++ [p]

def jsonNumber (a : F64) : JsValue :=
  if a.isFinite then num a.unsigned else null

mutual

/-- What a value becomes by JSON's rules when `f` is what happens to a string on
the way.  JSON throws on a bigint; the codec's null stands for it. -/
def remade (f : JsString → JsString) : JsValue → JsValue
  | null => null
  | undefined => null
  | func => null
  | bigint => null
  | bool b => bool b
  | num a => jsonNumber a
  | str s => str (f s)
  | arr vs => arr (remadeItems f vs)
  | obj ps => obj ((remadeProps f ps).foldl assign [])

def remadeItems (f : JsString → JsString) : List JsValue → List JsValue
  | [] => []
  | v :: vs => remade f v :: remadeItems f vs

def remadeProps (f : JsString → JsString) :
    List (JsString × JsValue) → List (JsString × JsValue)
  | [] => []
  | (k, v) :: ps =>
    if v.dropped then remadeProps f ps else (f k, remade f v) :: remadeProps f ps

end

/-- `JSON.parse(JSON.stringify(v))`, null for what has no JSON text. -/
def json (v : JsValue) : JsValue := v.remade id

/-- What arrives: strings travel as UTF-8. -/
def sent (v : JsValue) : JsValue := v.remade fun s => Utf8.decode (Utf8.encode s)

mutual

/-- The strings and keys of what JSON keeps of a value. -/
def strings : JsValue → List JsString
  | str s => [s]
  | arr vs => stringsItems vs
  | obj ps => stringsProps ps
  | _ => []

def stringsItems : List JsValue → List JsString
  | [] => []
  | v :: vs => strings v ++ stringsItems vs

def stringsProps : List (JsString × JsValue) → List JsString
  | [] => []
  | (k, v) :: ps => if v.dropped then stringsProps ps else k :: (strings v ++ stringsProps ps)

end

def Clean (v : JsValue) : Prop := ∀ s ∈ v.strings, Utf8.Carried s

instance (v : JsValue) : Decidable v.Clean := inferInstanceAs (Decidable (∀ s ∈ _, _))

/-- The value is within what an engine can hold: its strings, arrays and objects
have lengths an engine allows, its keys are distinct, and it nests at most
`depth` deep. -/
def Held : Nat → JsValue → Prop
  | 0, _ => False
  | _ + 1, str s => (Utf8.encode s).length < 2 ^ 53
  | depth + 1, arr vs => vs.length < 2 ^ 32 ∧ ∀ v ∈ vs, Held depth v
  | depth + 1, obj ps => ps.length < 2 ^ 53 ∧ (ps.map Prod.fst).Nodup ∧
      ∀ p ∈ ps, p.2.dropped = false → (Utf8.encode p.1).length < 2 ^ 53 ∧ Held depth p.2
  | _ + 1, _ => True

instance decidableHeld : (depth : Nat) → (v : JsValue) → Decidable (v.Held depth)
  | 0, _ => isFalse id
  | _ + 1, str s => inferInstanceAs (Decidable ((Utf8.encode s).length < 2 ^ 53))
  | depth + 1, arr vs =>
    have : ∀ v, Decidable (Held depth v) := decidableHeld depth
    inferInstanceAs (Decidable (vs.length < 2 ^ 32 ∧ ∀ v ∈ vs, Held depth v))
  | depth + 1, obj ps =>
    have : ∀ v, Decidable (Held depth v) := decidableHeld depth
    inferInstanceAs (Decidable (ps.length < 2 ^ 53 ∧ (ps.map Prod.fst).Nodup ∧
      ∀ p ∈ ps, p.2.dropped = false → (Utf8.encode p.1).length < 2 ^ 53 ∧ Held depth p.2))
  | _ + 1, null => isTrue trivial
  | _ + 1, undefined => isTrue trivial
  | _ + 1, func => isTrue trivial
  | _ + 1, bigint => isTrue trivial
  | _ + 1, bool _ => isTrue trivial
  | _ + 1, num _ => isTrue trivial

end JsValue

open JsValue

/-! ## writeValue -/

@[match_pattern] def tagNull : Nat := 0
@[match_pattern] def tagFalse : Nat := 1
@[match_pattern] def tagTrue : Nat := 2
@[match_pattern] def tagInt : Nat := 3
@[match_pattern] def tagFloat : Nat := 4
@[match_pattern] def tagString : Nat := 5
@[match_pattern] def tagArray : Nat := 6
@[match_pattern] def tagObject : Nat := 7

/-- `INT_LIMIT`. -/
def intLimit : Int := 2 ^ 52

/-- `v >= 0 ? v * 2 : v * -2 - 1`. -/
def zigzag (n : Int) : Nat := if 0 ≤ n then (n * 2).toNat else (n * -2 - 1).toNat

/-- `k` bytes, the most significant first. -/
def bigEndian : Nat → Nat → Bytes
  | 0, _ => []
  | k + 1, n => bigEndian k (n / 256) ++ writeU8 n

/-- `f64(n)`. -/
def writeF64 (a : F64) : Bytes := bigEndian 8 a.bits.toNat

/-- The number branch of `writeValue`. -/
def writeNumber (a : F64) : Bytes :=
  if !a.isFinite then writeU8 tagNull
  else
    match a.integer? with
    | some n =>
      if -intLimit ≤ n ∧ n ≤ intLimit then writeU8 tagInt ++ writeVarint (zigzag n)
      else writeU8 tagFloat ++ writeF64 a
    | none => writeU8 tagFloat ++ writeF64 a

/-- `kept`: how many properties are written. -/
def countKept (ps : List (JsString × JsValue)) : Nat := ps.countP fun p => !p.2.dropped

mutual

/-- `writeValue(w, v)`. -/
def writeValue : JsValue → Bytes
  | .null => writeU8 tagNull
  | .undefined => writeU8 tagNull
  | .bool b => writeU8 (if b then tagTrue else tagFalse)
  | .num a => writeNumber a
  | .str s => writeU8 tagString ++ writeStr s
  | .arr vs => writeU8 tagArray ++ (writeVarint vs.length ++ writeItems vs)
  | .obj ps => writeU8 tagObject ++ (writeVarint (countKept ps) ++ writeProps ps)
  | .func => writeU8 tagNull
  | .bigint => writeU8 tagNull

def writeItems : List JsValue → Bytes
  | [] => []
  | v :: vs => writeValue v ++ writeItems vs

def writeProps : List (JsString × JsValue) → Bytes
  | [] => []
  | (k, v) :: ps =>
    if v.dropped then writeProps ps else writeStr k ++ (writeValue v ++ writeProps ps)

end

/-! ## readValue -/

/-- `a / 2`. -/
def half (a : F64) : F64 := F64.mul a (F64.ofMag false (1022 * 2 ^ 52))

/-- `u % 2 === 0`. -/
def isEven (u : F64) : Bool :=
  match u.integer? with
  | some n => n % 2 = 0
  | none => false

/-- `(u % 2 === 0) ? u / 2 : -(u + 1) / 2`. -/
def unzigzag (u : F64) : F64 :=
  if isEven u then half u else half (F64.add u (ofInt 1)).neg

/-- `f64()`. -/
def readF64 : ByteReader F64 := do
  let bytes ← readBytes 8
  pure ⟨BitVec.ofNat 64 (bytes.foldl (fun n b => n * 256 + b.toNat) 0)⟩

/-- `str()`: a length of `NaN` passes the comparison and takes nothing, and from
position `NaN` there is nothing to read. -/
def readStr : ByteReader JsString := do
  let len ← readCount
  match len.integer? with
  | some n =>
    let bytes ← readBytes n.toNat
    pure (Utf8.decode bytes)
  | none => if len.isNaN then fun _ => some ([], []) else Reader.fail

/-- `new Array(n)` throws unless `n` is a length. -/
def arrayLength (n : F64) : Option Nat :=
  match n.integer? with
  | some k => if k < 2 ^ 32 then some k.toNat else none
  | none => none

/-- How many turns `for (let i = 0; i < n; i++)` takes; `none` when it goes on
until the bytes run out. -/
def turns (n : F64) : Option Nat :=
  match n.integer? with
  | some k => some k.toNat
  | none => if n.isNaN then some 0 else none

def orThrow : Option Nat → ByteReader Nat
  | some n => pure n
  | none => Reader.fail

def readProp (read : ByteReader JsValue) : ByteReader (JsString × JsValue) := do
  let key ← readStr
  let val ← read
  pure (key, val)

/-- What follows a tag; `read` reads the values inside. -/
def readTagged (read : ByteReader JsValue) : Nat → ByteReader JsValue
  | tagNull => pure .null
  | tagFalse => pure (.bool false)
  | tagTrue => pure (.bool true)
  | tagInt => do
      let u ← readCount
      pure (.num (unzigzag u))
  | tagFloat => do
      let a ← readF64
      pure (.num a)
  | tagString => do
      let s ← readStr
      pure (.str s)
  | tagArray => do
      let n ← readCount
      let n ← orThrow (arrayLength n)
      let vs ← Reader.times read n
      pure (.arr vs)
  | tagObject => do
      let n ← readCount
      let n ← orThrow (turns n)
      let ps ← Reader.times (readProp read) n
      pure (.obj (ps.foldl assign []))
  | _ => Reader.fail

/-- `readValue(r)`, with a stack for `depth` calls. -/
def readValue : Nat → ByteReader JsValue
  | 0 => Reader.fail
  | depth + 1 => do
      let tag ← readU8
      readTagged (readValue depth) tag

/-! ## numbers and strings are read back -/

theorem length_bigEndian (k n : Nat) : (bigEndian k n).length = k := by
  induction k generalizing n with
  | zero => rfl
  | succ k ih => rw [bigEndian, List.length_append, ih, writeU8, List.length_singleton]

theorem foldl_bigEndian (k n : Nat) :
    (bigEndian k n).foldl (fun n b => n * 256 + b.toNat) 0 = n % 256 ^ k := by
  induction k generalizing n with
  | zero => simp [bigEndian, Nat.mod_one]
  | succ k ih =>
    have hmod : n % 256 ^ (k + 1) = n % 256 + 256 * (n / 256 % 256 ^ k) := by
      rw [Nat.pow_succ', Nat.mod_mul]
    rw [bigEndian, List.foldl_append, ih]
    simp only [writeU8, List.foldl_cons, List.foldl_nil, UInt8.toNat_ofNat']
    omega

theorem reads_f64 (a : F64) : Reads readF64 (writeF64 a) a := by
  have hread := (reads_bytes (writeF64 a)).map
    (f := fun bytes => (⟨BitVec.ofNat 64 (bytes.foldl (fun n b => n * 256 + b.toNat) 0)⟩ : F64))
  have hlen : (writeF64 a).length = 8 := length_bigEndian 8 _
  have hbits : BitVec.ofNat 64 ((writeF64 a).foldl (fun n b => n * 256 + b.toNat) 0) = a.bits := by
    have hlt : a.bits.toNat < 256 ^ 8 := a.bits.isLt
    rw [writeF64, foldl_bigEndian, Nat.mod_eq_of_lt hlt, BitVec.ofNat_toNat, BitVec.setWidth_eq]
  simp only [hlen, hbits] at hread
  exact hread

theorem integer?_count (hx : F64.Whole x n) : x.integer? = some (n : Int) :=
  F64.integer?_eq_some.mpr hx.is

theorem reads_str {s : JsString} (h : (Utf8.encode s).length < 2 ^ 53) :
    Reads readStr (writeStr s) (Utf8.decode (Utf8.encode s)) := by
  have hlen := whole_ofInt (n := (Utf8.encode s).length) (by omega)
  refine (reads_varint hlen).bind ?_
  simp only [integer?_count hlen]
  exact (reads_bytes _).map

theorem is_half {a : F64} {n : Int} (ha : a.Is (n * 2)) (h : n.natAbs ≤ 2 ^ 53) :
    (half a).Is n := by
  have hfin : (F64.ofMag false (1022 * 2 ^ 52)).isFinite = true := by decide
  have hval : (F64.ofMag false (1022 * 2 ^ 52)).value * 2 = F64.unit := by decide +kernel
  refine F64.is_mul ha.1 hfin ?_ h
  rw [ha.2, ← hval]
  ring

theorem unzigzag_zigzag {n : Int} (h : -intLimit ≤ n ∧ n ≤ intLimit) {u : F64}
    (hu : F64.Whole u (zigzag n)) : unzigzag u = ofInt n := by
  unfold intLimit at h
  have hint := integer?_count hu
  have hone : (ofInt 1).Is 1 := F64.is_ofInt (by decide)
  unfold unzigzag isEven
  rw [hint]
  by_cases hpos : 0 ≤ n
  · have hz : ((zigzag n : Nat) : Int) = n * 2 := by
      rw [zigzag, if_pos hpos, Int.toNat_of_nonneg (by omega)]
    have heven : decide (((zigzag n : Nat) : Int) % 2 = 0) = true := decide_eq_true (by omega)
    rw [if_pos heven]
    have hhalf : (half u).Is n := is_half (hz ▸ hu.is) (by omega)
    by_cases hn : n = 0
    · have hzero : u = F64.zero := by
        have hz0 : zigzag n = 0 := by omega
        exact (hz0 ▸ hu).unique F64.whole_zero
      rw [hn, hzero]
      decide +kernel
    · exact hhalf.eq_of_ne_zero (F64.is_ofInt (by omega)) hn
  · have hz : ((zigzag n : Nat) : Int) = n * -2 - 1 := by
      rw [zigzag, if_neg hpos, Int.toNat_of_nonneg (by omega)]
    have hodd : ¬ decide (((zigzag n : Nat) : Int) % 2 = 0) = true := by
      rw [decide_eq_true_eq]
      omega
    rw [if_neg hodd]
    have hsum := (hu.is.add hone (by omega)).neg
    have hneg : -(((zigzag n : Nat) : Int) + 1) = n * 2 := by omega
    have hhalf := is_half (hneg ▸ hsum) (by omega)
    exact hhalf.eq_of_ne_zero (F64.is_ofInt (by omega)) (by omega)

variable {depth : Nat} {v : JsValue}

theorem reads_tagged {t : Nat} {xs : Bytes} (ht : t < 256)
    (h : Reads (readTagged (readValue depth) t) xs v) :
    Reads (readValue (depth + 1)) (writeU8 t ++ xs) v := (reads_u8 ht).bind h

theorem reads_tag {t : Nat} (ht : t < 256) (h : readTagged (readValue depth) t = pure v) :
    Reads (readValue (depth + 1)) (writeU8 t) v := by
  have hpure : Reads (readTagged (readValue depth) t) [] v := h ▸ Reader.reads_pure v
  have hread := reads_tagged ht hpure
  rwa [List.append_nil] at hread

theorem reads_number (depth : Nat) (a : F64) :
    Reads (readValue (depth + 1)) (writeNumber a) (jsonNumber a) := by
  have hfloat (ha : a.isFinite = true) (hne : a ≠ F64.negZero) :
      Reads (readValue (depth + 1)) (writeU8 tagFloat ++ writeF64 a) (jsonNumber a) := by
    rw [jsonNumber, if_pos ha, F64.unsigned, if_neg hne]
    exact reads_tagged (by decide) (reads_f64 a).map
  unfold writeNumber
  cases hfin : a.isFinite with
  | false =>
    rw [jsonNumber, hfin]
    exact reads_tag (by decide) rfl
  | true =>
    cases hint : a.integer? with
    | none =>
      refine hfloat hfin fun heq => ?_
      rw [heq] at hint
      contradiction
    | some n =>
      have hn := F64.integer?_eq_some.mp hint
      by_cases hlim : -intLimit ≤ n ∧ n ≤ intLimit
      · have habs : n.natAbs ≤ 2 ^ 53 := by
          unfold intLimit at hlim
          omega
        have hzig : zigzag n ≤ 2 ^ 53 := by
          unfold zigzag
          unfold intLimit at hlim
          split <;> omega
        have hu := whole_ofInt hzig
        have hread := (reads_varint hu).map (f := fun u => JsValue.num (unzigzag u))
        have hval : jsonNumber a = JsValue.num (ofInt n) := by
          rw [jsonNumber, if_pos hfin, F64.unsigned]
          by_cases hneg : a = F64.negZero
          · have hn0 : n = 0 := hn.unique (hneg ▸ F64.is_negZero)
            rw [if_pos hneg, hn0]
            exact congrArg JsValue.num (by decide +kernel)
          · rw [if_neg hneg, hn.eq_of_ne_negZero (F64.is_ofInt habs) hneg
              (F64.ofInt_ne_negZero habs)]
        simp only [if_pos hlim]
        rw [hval, ← unzigzag_zigzag hlim hu]
        exact reads_tagged (by decide) hread
      · simp only [if_neg hlim]
        refine hfloat hfin fun heq => hlim ?_
        have hn0 : n = 0 := hn.unique (heq ▸ F64.is_negZero)
        rw [hn0]
        decide

/-! ## values are read back -/

theorem writeItems_eq (vs : List JsValue) : writeItems vs = vs.flatMap writeValue := by
  induction vs with
  | nil => rfl
  | cons v vs ih => rw [writeItems, ih, List.flatMap_cons]

/-- The properties JSON keeps. -/
def keptProps (ps : List (JsString × JsValue)) : List (JsString × JsValue) :=
  ps.filter fun p => !p.2.dropped

variable {ps : List (JsString × JsValue)}

theorem mem_keptProps {p : JsString × JsValue} :
    p ∈ keptProps ps ↔ p ∈ ps ∧ p.2.dropped = false := by
  simp [keptProps]

theorem keptProps_cons (p : JsString × JsValue) (ps : List (JsString × JsValue)) :
    keptProps (p :: ps) = if p.2.dropped then keptProps ps else p :: keptProps ps := by
  cases h : p.2.dropped <;> simp [keptProps, h]

theorem countKept_eq (ps : List (JsString × JsValue)) : countKept ps = (keptProps ps).length :=
  List.countP_eq_length_filter

def writeProp (p : JsString × JsValue) : Bytes := writeStr p.1 ++ writeValue p.2

theorem writeProps_eq (ps : List (JsString × JsValue)) :
    writeProps ps = (keptProps ps).flatMap writeProp := by
  induction ps with
  | nil => rfl
  | cons p ps ih =>
    rw [writeProps, keptProps_cons, ih]
    split <;> simp [writeProp]

namespace JsValue

variable {f : JsString → JsString}

theorem remadeItems_eq (vs : List JsValue) : remadeItems f vs = vs.map (remade f) := by
  induction vs with
  | nil => rfl
  | cons v vs ih => rw [remadeItems, ih, List.map_cons]

def remadeProp (f : JsString → JsString) (p : JsString × JsValue) : JsString × JsValue :=
  (f p.1, remade f p.2)

theorem remadeProps_eq (ps : List (JsString × JsValue)) :
    remadeProps f ps = (keptProps ps).map (remadeProp f) := by
  induction ps with
  | nil => rfl
  | cons p ps ih =>
    rw [remadeProps, keptProps_cons, ih]
    split <;> simp [remadeProp]

end JsValue

theorem arrayLength_count (hx : F64.Whole x n) (h : n < 2 ^ 32) : arrayLength x = some n := by
  simp only [arrayLength, integer?_count hx]
  rw [if_pos (by omega), Int.toNat_natCast]

theorem turns_count (hx : F64.Whole x n) : turns x = some n := by
  simp only [turns, integer?_count hx, Int.toNat_natCast]

theorem reads_prop {read : ByteReader JsValue} {p : JsString × JsValue}
    (hkey : (Utf8.encode p.1).length < 2 ^ 53) (hread : Reads read (writeValue p.2) v) :
    Reads (readProp read) (writeProp p) (Utf8.decode (Utf8.encode p.1), v) :=
  (reads_str hkey).bind hread.map

/-- **Values**: every value within an engine's limits is read back as what
arrives of it, and the reader stops exactly behind it. -/
theorem reads_value (h : v.Held depth) : Reads (readValue depth) (writeValue v) v.sent := by
  induction depth generalizing v with
  | zero =>
    contradiction
  | succ depth ih =>
    cases v with
    | null => exact reads_tag (by decide) rfl
    | undefined => exact reads_tag (by decide) rfl
    | func => exact reads_tag (by decide) rfl
    | bigint => exact reads_tag (by decide) rfl
    | bool b =>
      cases b with
      | false | true => exact reads_tag (by decide) rfl
    | num a => exact reads_number depth a
    | str s => exact reads_tagged (by decide) (reads_str h).map
    | arr vs =>
      have hlen := whole_ofInt (n := vs.length) (by have := h.1; omega)
      have hitems := Reader.reads_times writeValue sent fun v hv => ih (h.2 v hv)
      rw [writeValue, writeItems_eq, sent, remade, remadeItems_eq]
      refine reads_tagged (by decide) ((reads_varint hlen).bind ?_)
      simp only [arrayLength_count hlen h.1]
      exact hitems.map
    | obj ps =>
      have hle : (keptProps ps).length ≤ ps.length := List.length_filter_le _ _
      have hlen := whole_ofInt (n := (keptProps ps).length) (by have := h.1; omega)
      have hprop : ∀ p ∈ keptProps ps, Reads (readProp (readValue depth)) (writeProp p)
          (remadeProp (fun s => Utf8.decode (Utf8.encode s)) p) := by
        intro p hp
        have hheld := h.2.2 p (mem_keptProps.mp hp).1 (mem_keptProps.mp hp).2
        exact reads_prop hheld.1 (ih hheld.2)
      have hprops := Reader.reads_times writeProp _ hprop
      rw [writeValue, writeProps_eq, countKept_eq, sent, remade, remadeProps_eq]
      refine reads_tagged (by decide) ((reads_varint hlen).bind ?_)
      simp only [turns_count hlen]
      exact hprops.map (f := fun ps => JsValue.obj (ps.foldl assign []))

/-! ## and equal JSON -/

namespace JsValue

variable {f : JsString → JsString}

end JsValue

/-- A hostile key, a gap, a negative zero, a function and an integer past the
limit of the zigzag. -/
def mixed : JsValue :=
  .obj [(js "__proto__", .arr [.undefined, .num F64.negZero, .func]), (js "gone", .undefined),
    (js "n", .num (ofInt (2 ^ 60)))]

end BunServe.Wire.Value
