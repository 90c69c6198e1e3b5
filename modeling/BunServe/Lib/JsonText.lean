import BunServe.Lib.JsonString

/-!
# BunServe.Lib.JsonText

The text of JSON arrays and objects, and how many UTF-8 bytes it takes.

* `byteLength_append` — an ASCII unit splits the bytes of a text;
* `byteLength_arrayText`, `byteLength_objectText` — what the text takes, by its parts.
-/

namespace BunServe.JsonText

/-- `Buffer.byteLength(s)`. -/
def byteLength (s : JsString) : Nat := (Utf8.encode s).length

/-- An array, by the texts of its elements. -/
def arrayText (elements : List JsString) : JsString :=
  0x5b :: List.intercalate [0x2c] elements ++ [0x5d]

/-- A property, by its name and the text of its value. -/
def propertyText (p : JsString × JsString) : JsString := JsonString.stringify p.1 ++ 0x3a :: p.2

/-- An object, by the names of its properties and the texts of their values. -/
def objectText (properties : List (JsString × JsString)) : JsString :=
  0x7b :: List.intercalate [0x2c] (properties.map propertyText) ++ [0x7d]

variable {u : UInt16} {s t : JsString}

/-- A unit that is one byte, and no half of a pair. -/
abbrev Ascii (u : UInt16) : Prop := u.toNat < 0x80

theorem Ascii.not_surrogate (h : Ascii u) : Utf8.isHigh u = false ∧ Utf8.isLow u = false := by
  grind [Utf8.isHigh, Utf8.isLow]

theorem scalars_append (h : Ascii u) :
    Utf8.scalars (s ++ u :: t) = Utf8.scalars s ++ Utf8.scalars (u :: t) := by
  induction s using Utf8.scalars.induct <;> grind [Utf8.scalars, h.not_surrogate]

theorem scalars_cons (h : Ascii u) : Utf8.scalars (u :: t) = u.toNat :: Utf8.scalars t := by
  cases t <;> simp [Utf8.scalars, h.not_surrogate]

@[simp] theorem byteLength_nil : byteLength [] = 0 := rfl

theorem byteLength_cons (h : Ascii u) : byteLength (u :: t) = byteLength t + 1 := by
  have hone : Utf8.encodeScalar u.toNat = [UInt8.ofNat u.toNat] := if_pos h
  simp [byteLength, Utf8.encode, scalars_cons h, hone]

theorem byteLength_append (h : Ascii u) :
    byteLength (s ++ u :: t) = byteLength s + byteLength t + 1 := by
  have hcons := byteLength_cons (t := t) h
  simp only [byteLength, Utf8.encode, scalars_append h, List.flatMap_append, List.length_append]
    at hcons ⊢
  omega

theorem byteLength_intercalate (elements : List JsString) (h : Ascii u) :
    byteLength (List.intercalate [0x2c] elements ++ u :: t) =
      (elements.map fun e => byteLength e + 1).sum - 1 + byteLength t + 1 := by
  induction elements with
  | nil => simp [byteLength_cons h]
  | cons e es ih =>
    cases es with
    | nil => simp [byteLength_append h]
    | cons e' es =>
      have hcomma : Ascii 0x2c := by decide
      rw [List.intercalate_cons_cons, List.append_assoc, List.append_assoc, List.singleton_append,
        byteLength_append hcomma, ih]
      simp only [List.map_cons, List.sum_cons]
      omega

theorem byteLength_arrayText (elements : List JsString) : byteLength (arrayText elements) =
    (elements.map fun e => byteLength e + 1).sum - 1 + 2 := by
  have hopen : Ascii 0x5b := by decide
  have hclose : Ascii 0x5d := by decide
  rw [arrayText, List.cons_append, byteLength_cons hopen, byteLength_intercalate _ hclose,
    byteLength_nil]

theorem byteLength_propertyText (p : JsString × JsString) :
    byteLength (propertyText p) = byteLength (JsonString.stringify p.1) + byteLength p.2 + 1 :=
  byteLength_append (by decide)

theorem byteLength_objectText (properties : List (JsString × JsString)) :
    byteLength (objectText properties) =
      (properties.map fun p => byteLength (JsonString.stringify p.1) + byteLength p.2 + 2).sum - 1 + 2 := by
  have hopen : Ascii 0x7b := by decide
  have hclose : Ascii 0x7d := by decide
  rw [objectText, List.cons_append, byteLength_cons hopen, byteLength_intercalate _ hclose, List.map_map]
  simp [Function.comp_def, byteLength_propertyText, add_assoc]

end BunServe.JsonText
