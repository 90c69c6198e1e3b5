import BunServe.Wire
import BunServe.Lib.JsonString

/-!
# BunServe.Wire.Buffer

The buffers behind the byte primitives of `runtime/wire.js`: a `ByteWriter` is
an array that doubles when it runs out of room, a `ByteReader` a position in an
array that holds more than what it reads.

Seen through `take()`, every write of the growing array is the append of
`BunServe.Wire`, and a read at a position is the read of the bytes from there
on.

* `take_str`, `str_eq` — the refinement, for strings;
* `faithful_iff` — a string is read back, whatever surrounds it, exactly when
  UTF-8 carries it.  JSON carries every string, so a leading U+FEFF, which the
  decoder takes for a byte order mark, and a lone surrogate set the two wires
  apart.
-/

namespace BunServe.Wire.Buffer

open List (append_assoc get_eq_getElem length_append)

/-! ## ByteWriter -/

/-- A `ByteWriter`: the backing array and how much of it is written.  An array
of length zero could not grow by doubling; no caller passes one. -/
structure ByteWriter where
  buf : Bytes
  len : Nat
  len_le : len ≤ buf.length
  pos : 0 < buf.length

namespace ByteWriter

/-- `new ByteWriter(initial)`. -/
def new (initial : Nat) (h : 0 < initial) : ByteWriter where
  buf := List.replicate initial 0
  len := 0
  len_le := Nat.zero_le _
  pos := by simpa using h

/-- `take()`. -/
def take (w : ByteWriter) : Bytes := w.buf.take w.len

/-- The loop of `_ensure`: double until the wanted size fits. -/
def grow (want cap : Nat) (h : 0 < cap) : Nat :=
  if cap < want then grow want (cap * 2) (by omega) else cap
termination_by want - cap

theorem le_grow (want cap : Nat) (h : 0 < cap) :
    want ≤ grow want cap h ∧ cap ≤ grow want cap h := by
  induction cap, h using grow.induct want with
  | case1 cap h hlt ih =>
    rw [grow, if_pos hlt]
    omega
  | case2 cap h hlt =>
    rw [grow, if_neg hlt]
    omega

/-- `_ensure(need)`. -/
def ensure (w : ByteWriter) (need : Nat) : ByteWriter :=
  if w.len + need ≤ w.buf.length then w
  else
    have hpos : 0 < w.buf.length * 2 := Nat.mul_pos w.pos (by decide)
    have hcap := le_grow (w.len + need) (w.buf.length * 2) hpos
    have hlen := w.len_le
    { buf := w.buf.take w.len ++
        List.replicate (grow (w.len + need) (w.buf.length * 2) hpos - w.len) 0
      len := w.len
      len_le := by simp only [length_append, List.length_take]; omega
      pos := by simp only [length_append, List.length_take, List.length_replicate]; omega }

@[simp] theorem len_ensure (w : ByteWriter) (need : Nat) : (w.ensure need).len = w.len := by
  unfold ensure
  split <;> rfl

@[simp] theorem take_ensure (w : ByteWriter) (need : Nat) : (w.ensure need).take = w.take := by
  have hlen := w.len_le
  unfold ensure take
  split
  · rfl
  · exact List.take_left' (by rw [List.length_take, Nat.min_eq_left hlen])

theorem room_ensure (w : ByteWriter) (need : Nat) : w.len + need ≤ (w.ensure need).buf.length := by
  have hlen := w.len_le
  unfold ensure
  split
  · assumption
  · have hpos : 0 < w.buf.length * 2 := Nat.mul_pos w.pos (by decide)
    have hcap := le_grow (w.len + need) (w.buf.length * 2) hpos
    simp only [length_append, List.length_take, List.length_replicate]
    omega

/-- `u8(n)`. -/
def u8 (w : ByteWriter) (n : Nat) : ByteWriter :=
  have hroom := w.room_ensure 1
  { buf := (w.ensure 1).buf.set w.len (UInt8.ofNat n)
    len := w.len + 1
    len_le := by rwa [List.length_set]
    pos := by rw [List.length_set]; exact (w.ensure 1).pos }

/-- `bytes(bytes)`: the bulk copy. -/
def bytes (w : ByteWriter) (bytes : Bytes) : ByteWriter :=
  have hroom := w.room_ensure bytes.length
  { buf := (w.ensure bytes.length).buf.take w.len ++ bytes ++
      (w.ensure bytes.length).buf.drop (w.len + bytes.length)
    len := w.len + bytes.length
    len_le := by simp only [length_append, List.length_take]; omega
    pos := by
      have hpos := (w.ensure bytes.length).pos
      simp only [length_append, List.length_take, List.length_drop]
      omega }

/-- `value & 0x7f`: the operator works on the low 32 bits. -/
def low7 (value : Nat) : Nat := value % 2 ^ 32 &&& 0x7f

/-- `varint(value)`. -/
def varint (w : ByteWriter) (value : Nat) : ByteWriter :=
  if value > 0x7f then (w.u8 (low7 value ||| 0x80)).varint (value / 128) else w.u8 (low7 value)
termination_by value

/-- `str(s)`. -/
def str (w : ByteWriter) (s : JsString) : ByteWriter :=
  let bytes := Utf8.encode s
  (w.varint bytes.length).bytes bytes

/-! ## what is written is appended -/

theorem length_take (w : ByteWriter) : w.take.length = w.len := by
  rw [take, List.length_take, Nat.min_eq_left w.len_le]

@[simp] theorem take_u8 (w : ByteWriter) (n : Nat) : (w.u8 n).take = w.take ++ writeU8 n := by
  have hroom := w.room_ensure 1
  have htake : (w.ensure 1).buf.take w.len = w.take := by
    have h := w.take_ensure 1
    rwa [take, len_ensure] at h
  show ((w.ensure 1).buf.set w.len (UInt8.ofNat n)).take (w.len + 1) = _
  rw [List.take_add_one, List.take_set_of_le (Nat.le_refl _), htake,
    List.getElem?_set_self (by omega)]
  rfl

@[simp] theorem take_bytes (w : ByteWriter) (bytes : Bytes) :
    (w.bytes bytes).take = w.take ++ bytes := by
  have htake : (w.ensure bytes.length).buf.take w.len = w.take := by
    have h := w.take_ensure bytes.length
    rwa [take, len_ensure] at h
  have hlen : (w.take ++ bytes).length = w.len + bytes.length := by
    rw [length_append, length_take]
  show ((w.ensure bytes.length).buf.take w.len ++ bytes ++ _).take (w.len + bytes.length) = _
  rw [htake, List.take_left' hlen]

theorem low7_eq (value : Nat) : low7 value = value % 128 := by
  have hand := Nat.and_two_pow_sub_one_eq_mod (value % 2 ^ 32) 7
  have hmod : value % 2 ^ 32 % 2 ^ 7 = value % 128 := Nat.mod_mod_of_dvd _ (by decide)
  rw [low7, ← hmod, ← hand]

theorem low7_or (value : Nat) : low7 value ||| 0x80 = value % 128 + 128 := by
  have h := Nat.two_pow_add_eq_or_of_lt (i := 7) (b := value % 128) (Nat.mod_lt _ (by decide)) 1
  rw [low7_eq, Nat.or_comm, Nat.add_comm]
  exact h.symm

@[simp] theorem take_varint (w : ByteWriter) (value : Nat) :
    (w.varint value).take = w.take ++ writeVarint value := by
  induction w, value using varint.induct with
  | case1 w value hlt ih =>
    rw [varint, writeVarint, if_pos hlt, if_pos hlt, ih, take_u8, low7_or, append_assoc]
  | case2 w value hlt =>
    rw [varint, writeVarint, if_neg hlt, if_neg hlt, take_u8, low7_eq,
      Nat.mod_eq_of_lt (by omega)]

/-- Writing a string appends its bytes, however the array grew. -/
@[simp] theorem take_str (w : ByteWriter) (s : JsString) :
    (w.str s).take = w.take ++ writeStr s := by
  simp only [str, writeStr, take_bytes, take_varint, append_assoc]

theorem len_str (w : ByteWriter) (s : JsString) : (w.str s).len = w.len + (writeStr s).length := by
  rw [← length_take, take_str, length_append, length_take]

end ByteWriter

/-! ## ByteReader -/

/-- A `ByteReader`: the whole array and the position in it. -/
structure ByteReader where
  buf : Bytes
  pos : Nat
  deriving DecidableEq

namespace ByteReader

/-- `u8()`. -/
def u8 (r : ByteReader) : Option (Nat × ByteReader) :=
  (r.buf[r.pos]?).map fun b => (b.toNat, ⟨r.buf, r.pos + 1⟩)

/-- The loop of `varint()`. -/
def varintFrom (buf : Bytes) (pos result mul : Nat) : Option (Nat × ByteReader) :=
  if h : pos < buf.length then
    let b := (buf.get ⟨pos, h⟩).toNat
    let result := result + b % 128 * mul
    if 0x80 ≤ b then varintFrom buf (pos + 1) result (mul * 128)
    else some (result, ⟨buf, pos + 1⟩)
  else none
termination_by buf.length - pos

/-- `varint()`: one byte is answered at once. -/
def varint (r : ByteReader) : Option (Nat × ByteReader) :=
  match r.buf[r.pos]? with
  | none => none
  | some first =>
    if first.toNat < 0x80 then some (first.toNat, ⟨r.buf, r.pos + 1⟩)
    else varintFrom r.buf r.pos 0 1

/-- `str()`. -/
def str (r : ByteReader) : Option (JsString × ByteReader) :=
  match r.varint with
  | none => none
  | some (len, r) =>
    if r.pos + len > r.buf.length then none
    else some (Utf8.decode ((r.buf.drop r.pos).take len), ⟨r.buf, r.pos + len⟩)

/-! ## a read at a position -/

/-- Where a reader over `buf` stands when `rest` is left. -/
def leaving (buf rest : Bytes) : ByteReader := ⟨buf, buf.length - rest.length⟩

theorem varintFrom_eq (buf : Bytes) (pos result mul : Nat) :
    varintFrom buf pos result mul =
      (readVarintFrom result mul (buf.drop pos)).map fun p => (p.1, leaving buf p.2) := by
  induction pos, result, mul using varintFrom.induct buf with
  | case1 pos result mul h b result' hb ih =>
    rw [varintFrom, dif_pos h, List.drop_eq_getElem_cons h, readVarintFrom]
    simp only [get_eq_getElem, b] at hb
    simp only [get_eq_getElem, if_pos hb]
    exact ih
  | case2 pos result mul h b hb =>
    rw [varintFrom, dif_pos h, List.drop_eq_getElem_cons h, readVarintFrom]
    simp only [get_eq_getElem, b] at hb
    have hpos : buf.length - (buf.length - (pos + 1)) = pos + 1 := by omega
    simp only [get_eq_getElem, if_neg hb, Option.map_some, leaving, List.length_drop, hpos]
  | case3 pos result mul h =>
    rw [varintFrom, dif_neg h, List.drop_of_length_le (by omega)]
    rfl

theorem varint_eq (r : ByteReader) :
    r.varint = (readVarint (r.buf.drop r.pos)).map fun p => (p.1, leaving r.buf p.2) := by
  unfold varint readVarint
  by_cases h : r.pos < r.buf.length
  · rw [List.getElem?_eq_getElem h]
    by_cases hb : (r.buf[r.pos]).toNat < 0x80
    · have hpos : r.buf.length - (r.buf.length - (r.pos + 1)) = r.pos + 1 := by omega
      have hmod : (r.buf[r.pos]).toNat % 128 = (r.buf[r.pos]).toNat := Nat.mod_eq_of_lt hb
      rw [List.drop_eq_getElem_cons h, readVarintFrom]
      simp only [if_pos hb, Nat.mul_one, Nat.zero_add, hmod, if_neg (Nat.not_le.mpr hb),
        Option.map_some, leaving, List.length_drop, hpos]
    · simp only [if_neg hb, varintFrom_eq]
  · rw [List.getElem?_eq_none (by omega), List.drop_of_length_le (by omega)]
    rfl

/-- A string in the middle of an array is read as what UTF-8 makes of it, and
the reader stops right behind it. -/
theorem str_eq (before after : Bytes) (s : JsString) :
    str ⟨before ++ writeStr s ++ after, before.length⟩ =
      some (Utf8.decode (Utf8.encode s), ⟨before ++ writeStr s ++ after,
        before.length + (writeStr s).length⟩) := by
  have hvar : varint ⟨before ++ writeStr s ++ after, before.length⟩ =
      some ((Utf8.encode s).length, ⟨before ++ writeStr s ++ after,
        before.length + (writeVarint (Utf8.encode s).length).length⟩) := by
    have hread := reads_varint (Utf8.encode s).length (Utf8.encode s ++ after)
    have hdrop : (before ++ writeStr s ++ after).drop before.length =
        writeVarint (Utf8.encode s).length ++ (Utf8.encode s ++ after) := by
      rw [append_assoc, List.drop_left, writeStr, append_assoc]
    have hpos : (before ++ writeStr s ++ after).length - (Utf8.encode s ++ after).length =
        before.length + (writeVarint (Utf8.encode s).length).length := by
      simp only [writeStr, length_append]
      omega
    rw [varint_eq]
    rw [hdrop, hread, Option.map_some, leaving, hpos]
  have hdrop : (before ++ writeStr s ++ after).drop
      (before.length + (writeVarint (Utf8.encode s).length).length) = Utf8.encode s ++ after := by
    have hsplit : before ++ writeStr s ++ after =
        before ++ writeVarint (Utf8.encode s).length ++ (Utf8.encode s ++ after) := by
      simp only [writeStr, append_assoc]
    rw [hsplit, ← length_append, List.drop_left]
  unfold str
  rw [hvar]
  simp only [hdrop, List.take_left]
  rw [if_neg (by simp only [writeStr, length_append]; omega)]
  simp only [writeStr, length_append, Nat.add_assoc]

end ByteReader

/-! ## strings -/

/-- What `str` wrote behind any content, followed by any content, is read back
as the same string, and the reader stops where the writer stopped. -/
def Faithful (s : JsString) : Prop :=
  ∀ (w : ByteWriter) (after : Bytes),
    ByteReader.str ⟨(w.str s).take ++ after, w.len⟩ =
      some (s, ⟨(w.str s).take ++ after, (w.str s).len⟩)

/-- **String fidelity**: exactly the strings UTF-8 carries are read back. -/
theorem faithful_iff (s : JsString) : Faithful s ↔ Utf8.Carried s := by
  have hread (w : ByteWriter) (after : Bytes) :
      ByteReader.str ⟨(w.str s).take ++ after, w.len⟩ =
        some (Utf8.decode (Utf8.encode s), ⟨(w.str s).take ++ after, (w.str s).len⟩) := by
    have h := ByteReader.str_eq w.take after s
    rwa [w.length_take, ← w.take_str, ← w.len_str] at h
  rw [← Utf8.decode_encode_eq_iff]
  constructor
  · intro h
    have hnew := h (ByteWriter.new 64 (by decide)) []
    rw [hread] at hnew
    simpa using hnew
  · intro h w after
    rw [hread, h]

/-- JSON carries a string that starts with U+FEFF; the binary wire drops it. -/
theorem bom_lost : JsonString.roundTrip [0xfeff, 0x61] = some [0xfeff, 0x61] ∧
    ¬ Faithful [0xfeff, 0x61] := by
  refine ⟨JsonString.carries _, fun h => ?_⟩
  have hnew := h (ByteWriter.new 64 (by decide)) []
  revert hnew
  decide +kernel

/-! ## a whole buffer -/

/-- A value of one of the primitives. -/
inductive Item where
  | u8 (n : Fin 256)
  | varint (value : Fin (2 ^ 53))
  | str (s : JsString)

/-- What a codec reads next. -/
inductive Kind where
  | u8
  | varint
  | str

namespace Item

def kind : Item → Kind
  | u8 _ => .u8
  | varint _ => .varint
  | str _ => .str

/-- The bytes of a value. -/
def bytes : Item → Bytes
  | u8 n => writeU8 n
  | varint value => writeVarint value
  | str s => writeStr s

def write (w : ByteWriter) : Item → ByteWriter
  | u8 n => w.u8 n
  | varint value => w.varint value
  | str s => w.str s

end Item

namespace ByteReader

/-- Read a value, if it is one of its kind. -/
def item (r : ByteReader) : Kind → Option (Item × ByteReader)
  | .u8 => r.u8.bind fun p => if h : p.1 < 256 then some (.u8 ⟨p.1, h⟩, p.2) else none
  | .varint => r.varint.bind fun p =>
    if h : p.1 < 2 ^ 53 then some (.varint ⟨p.1, h⟩, p.2) else none
  | .str => r.str.map fun p => (.str p.1, p.2)

/-- Read one value after another. -/
def items (r : ByteReader) : List Kind → Option (List Item × ByteReader)
  | [] => some ([], r)
  | k :: ks => (r.item k).bind fun p => (p.2.items ks).map fun q => (p.1 :: q.1, q.2)

end ByteReader

end BunServe.Wire.Buffer
