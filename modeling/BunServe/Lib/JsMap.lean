import Mathlib.Algebra.BigOperators.Group.List.Basic
import Mathlib.Algebra.Order.Ring.Int
import Mathlib.Data.List.Basic
import Mathlib.Data.List.Nodup

/-!
# BunServe.Lib.JsMap

An insertion-ordered map with unique keys: the data structure behind a
JavaScript `Map`.  `set` on a present key replaces the value in place, on an
absent key appends; `delete` keeps the order of the rest.  The key-uniqueness
invariant is a field, so no map with a repeated key can be built.

Every operation is characterized by what `get?` answers afterwards; the
lemmas are tagged for `simp`, and nothing outside this module unfolds the
entry list.
-/

namespace BunServe

instance instLawfulBEqPair {A B : Type} [DecidableEq A] [DecidableEq B] : LawfulBEq (A × B) := inferInstance

open List (lookup_cons map_congr_left map_cons map_id sum_cons)

/-- An insertion-ordered map: the entry list, oldest first, with distinct keys. -/
structure JsMap (K V : Type) where
  entries : List (K × V)
  nodup : (entries.map Prod.fst).Nodup

namespace JsMap

variable {K V : Type} [DecidableEq K]

/-- The empty map. -/
def empty : JsMap K V := ⟨[], by simp⟩

instance : Inhabited (JsMap K V) := ⟨empty⟩

/-- The value stored under `k`. -/
def get? (m : JsMap K V) (k : K) : Option V := m.entries.lookup k

/-- Whether `k` is present. -/
def has (m : JsMap K V) (k : K) : Bool := (m.get? k).isSome

/-- The number of entries. -/
def size (m : JsMap K V) : Nat := m.entries.length

/-- The keys, oldest first. -/
def keys (m : JsMap K V) : List K := m.entries.map Prod.fst

/-- The values, oldest first. -/
def values (m : JsMap K V) : List V := m.entries.map Prod.snd

/-- Replace the value of a present key in place. -/
def replace (k : K) (v : V) (es : List (K × V)) : List (K × V) :=
  es.map fun e => if e.1 = k then (k, v) else e

variable {es : List (K × V)}

omit [DecidableEq K] in
theorem fst_mem_of_mem {e : K × V} (h : e ∈ es) : e.1 ∈ es.map Prod.fst :=
  List.mem_map_of_mem h

theorem map_fst_replace (k : K) (v : V) (es : List (K × V)) :
    (replace k v es).map Prod.fst = es.map Prod.fst := by
  simp only [replace, List.map_map]
  refine map_congr_left fun e _ => ?_
  by_cases h : e.1 = k <;> simp [h]

/-- Store `v` under `k`: in place when `k` is present, at the end otherwise. -/
def set (m : JsMap K V) (k : K) (v : V) : JsMap K V :=
  if h : k ∈ m.entries.map Prod.fst then
    ⟨replace k v m.entries, by rw [map_fst_replace]; exact m.nodup⟩
  else
    ⟨m.entries ++ [(k, v)], by
      rw [List.map_append, List.nodup_append]
      refine ⟨m.nodup, by simp, fun a ha b hb hab => h ?_⟩
      simp only [map_cons, List.map_nil, List.mem_singleton] at hb
      rwa [← hb, ← hab]⟩

/-- Remove `k`. -/
def delete (m : JsMap K V) (k : K) : JsMap K V :=
  ⟨m.entries.filter fun e => e.1 ≠ k, (List.filter_sublist.map _).nodup m.nodup⟩

/-- Keep the entries whose key answers true. -/
def filter (m : JsMap K V) (p : K → Bool) : JsMap K V :=
  ⟨m.entries.filter fun e => p e.1, (List.filter_sublist.map _).nodup m.nodup⟩

/-! ## lookup in the entry list -/

variable {k : K}

theorem lookup_eq_none_iff : es.lookup k = none ↔ k ∉ es.map Prod.fst := by
  induction es with
  | nil => simp
  | cons e es ih =>
    obtain ⟨a, b⟩ := e
    by_cases h : k = a
    · subst h; simp
    · rw [lookup_cons, beq_false_of_ne h, ih]
      simp [h]

theorem lookup_replace (es : List (K × V)) (k k' : K) (v : V) :
    (replace k v es).lookup k' = if k' = k ∧ k ∈ es.map Prod.fst then some v else es.lookup k' := by
  induction es with
  | nil => simp [replace]
  | cons e es ih =>
    obtain ⟨a, b⟩ := e
    simp only [replace, map_cons] at ih ⊢
    by_cases ha : a = k
    · subst ha
      by_cases hk : k' = a
      · subst hk; simp
      · simpa [lookup_cons, beq_false_of_ne hk, hk] using ih
    · simp only [ha, if_false, lookup_cons]
      by_cases hk : k' = a
      · subst hk; simp [ha]
      · rw [beq_false_of_ne hk]
        simp only [ih, List.mem_cons, Ne.symm ha, false_or]

theorem lookup_append_single (es : List (K × V)) (k k' : K) (v : V) :
    (es ++ [(k, v)]).lookup k' = (es.lookup k').or (if k' = k then some v else none) := by
  induction es with
  | nil =>
    by_cases h : k' = k
    · simp [h]
    · simp [h]
  | cons e es ih =>
    obtain ⟨a, b⟩ := e
    by_cases h : k' = a
    · subst h; simp
    · simp [lookup_cons, beq_false_of_ne h, ih]

theorem lookup_filter_ne (es : List (K × V)) (k k' : K) :
    (es.filter fun e => e.1 ≠ k).lookup k' = if k' = k then none else es.lookup k' := by
  induction es with
  | nil => simp
  | cons e es ih =>
    obtain ⟨a, b⟩ := e
    by_cases ha : a = k
    · subst ha
      by_cases hk : k' = a
      · subst hk; simpa using ih
      · simpa [lookup_cons, beq_false_of_ne hk] using ih
    · by_cases hk : k' = a
      · subst hk; simp [ha]
      · simpa [ha, lookup_cons, beq_false_of_ne hk] using ih

theorem lookup_filter (es : List (K × V)) (p : K → Bool) (k : K) :
    (es.filter fun e => p e.1).lookup k = if p k then es.lookup k else none := by
  induction es with
  | nil => simp
  | cons e es ih =>
    obtain ⟨a, b⟩ := e
    by_cases hk : k = a
    · subst hk
      by_cases hp : p k = true
      · simp [hp]
      · simpa [hp] using ih
    · by_cases hp : p a = true
      · simp [hp, lookup_cons, beq_false_of_ne hk, ih]
      · simpa [hp, lookup_cons, beq_false_of_ne hk] using ih

/-! ## what `get?` answers -/

@[simp] theorem get?_empty (k : K) : (empty : JsMap K V).get? k = none := rfl

variable {m : JsMap K V}

theorem get?_eq_none_iff : m.get? k = none ↔ k ∉ m.keys :=
  lookup_eq_none_iff

/-- What a lookup answers after `set`. -/
theorem get?_set (m : JsMap K V) (k k' : K) (v : V) :
    (m.set k v).get? k' = if k' = k then some v else m.get? k' := by
  unfold set get?
  split
  · next h =>
    rw [lookup_replace]
    by_cases hk : k' = k <;> simp [h]
  · next h =>
    rw [lookup_append_single]
    by_cases hk : k' = k
    · subst hk
      rw [lookup_eq_none_iff.mpr h]
      simp
    · simp [hk]

@[simp] theorem get?_set_self (m : JsMap K V) (k : K) (v : V) : (m.set k v).get? k = some v := by
  rw [get?_set, if_pos rfl]

variable {k' : K}

theorem get?_set_ne (m : JsMap K V) (v : V) (h : k' ≠ k) : (m.set k v).get? k' = m.get? k' := by
  rw [get?_set, if_neg h]

/-- What a lookup answers after `delete`. -/
theorem get?_delete (m : JsMap K V) (k k' : K) :
    (m.delete k).get? k' = if k' = k then none else m.get? k' :=
  lookup_filter_ne _ _ _

@[simp] theorem get?_delete_self (m : JsMap K V) (k : K) : (m.delete k).get? k = none := by
  rw [get?_delete, if_pos rfl]

theorem get?_delete_ne (m : JsMap K V) (h : k' ≠ k) : (m.delete k).get? k' = m.get? k' := by
  rw [get?_delete, if_neg h]

variable {v : V}

/-- What a map with an entry more has is that entry, or was there. -/
theorem of_get?_set {x : V} (h : (m.set k v).get? k' = some x) :
    k' = k ∧ v = x ∨ k' ≠ k ∧ m.get? k' = some x := by
  rw [get?_set] at h
  split at h
  · next heq => exact .inl ⟨heq, Option.some.inj h⟩
  · next hne => exact .inr ⟨hne, h⟩

/-- What a map with an entry less has, it had. -/
theorem of_get?_delete (h : (m.delete k).get? k' = some v) : k' ≠ k ∧ m.get? k' = some v := by
  rw [get?_delete] at h
  split at h
  · cases h
  · next hne => exact ⟨hne, h⟩

theorem get?_foldl_delete (m : JsMap K V) (ks : List K) (k : K) :
    (ks.foldl delete m).get? k = if k ∈ ks then none else m.get? k := by
  induction ks generalizing m with
  | nil => simp
  | cons a ks ih =>
    rw [List.foldl_cons, ih, get?_delete]
    by_cases hk : k = a
    · simp [hk]
    · simp [hk]

/-- What a lookup answers after setting several keys to one value. -/
theorem get?_foldl_set (m : JsMap K V) (ks : List K) (v : V) (k : K) :
    (ks.foldl (fun m a => m.set a v) m).get? k = if k ∈ ks then some v else m.get? k := by
  induction ks generalizing m with
  | nil => simp
  | cons a ks ih =>
    rw [List.foldl_cons, ih, get?_set]
    by_cases hk : k = a
    · simp [hk]
    · simp [hk]

/-- What a lookup answers after `filter`. -/
theorem get?_filter (m : JsMap K V) (p : K → Bool) (k : K) :
    (m.filter p).get? k = if p k then m.get? k else none :=
  lookup_filter _ _ _

theorem mem_entries_iff : (k, v) ∈ m.entries ↔ m.get? k = some v := by
  obtain ⟨es, hnd⟩ := m
  simp only [get?]
  induction es with
  | nil => simp
  | cons e es ih =>
    obtain ⟨a, b⟩ := e
    simp only [map_cons, List.nodup_cons] at hnd
    by_cases h : k = a
    · subst h
      have hne : ¬ (k, v) ∈ es := fun hm => hnd.1 (fst_mem_of_mem hm)
      simp [hne, eq_comm]
    · have := ih hnd.2
      simpa [lookup_cons, beq_false_of_ne h, h] using this

theorem mem_values_iff : v ∈ m.values ↔ ∃ k, m.get? k = some v := by
  simp only [values, List.mem_map, Prod.exists, mem_entries_iff]
  constructor
  · rintro ⟨k, v', h, rfl⟩
    exact ⟨k, h⟩
  · rintro ⟨k, h⟩
    exact ⟨k, v, h, rfl⟩

theorem mem_keys_iff : k ∈ m.keys ↔ ∃ v, m.get? k = some v := by
  have h := get?_eq_none_iff (m := m) (k := k)
  cases hget : m.get? k with
  | none => simp [h.mp hget]
  | some v =>
    have : k ∈ m.keys := by
      by_cases hmem : k ∈ m.keys
      · exact hmem
      · rw [h.mpr hmem] at hget
        contradiction
    simp [this]

/-! ## maps that are the same -/

omit [DecidableEq K] in
theorem ext_entries {m' : JsMap K V} (h : m.entries = m'.entries) : m = m' := by
  cases m
  cases m'
  cases h
  rfl

theorem delete_eq_self (h : m.get? k = none) : m.delete k = m := by
  refine ext_entries (List.filter_eq_self.2 fun e he => ?_)
  have hne : e.1 ≠ k := fun heq => get?_eq_none_iff.1 h (heq ▸ fst_mem_of_mem he)
  simpa using hne

theorem delete_set (m : JsMap K V) (k : K) (v : V) : (m.set k v).delete k = m.delete k := by
  refine ext_entries ?_
  show ((m.set k v).entries.filter fun e => decide (e.1 ≠ k)) = m.entries.filter fun e => decide (e.1 ≠ k)
  unfold set
  split
  · simp only [replace, List.filter_map]
    refine Eq.trans ?_ (map_id _)
    have hsame : (m.entries.filter ((fun e : K × V => decide (e.1 ≠ k)) ∘
        fun e => if e.1 = k then (k, v) else e)) = m.entries.filter fun e => decide (e.1 ≠ k) := by
      refine List.filter_congr fun e _ => ?_
      by_cases he : e.1 = k <;> simp [he]
    rw [hsame]
    exact map_congr_left fun e he => if_neg (by simpa using (List.mem_filter.1 he).2)
  · simp

theorem delete_delete (m : JsMap K V) (k : K) : (m.delete k).delete k = m.delete k :=
  delete_eq_self (get?_delete_self m k)

theorem delete_set_self (h : m.get? k = none) (v : V) : (m.set k v).delete k = m := by
  rw [delete_set, delete_eq_self h]

/-- A value that is put back in its place. -/
theorem set_eq_self (h : m.get? k = some v) : m.set k v = m := by
  have hmem : k ∈ m.entries.map Prod.fst := mem_keys_iff.2 ⟨v, h⟩
  refine ext_entries ?_
  rw [set, dif_pos hmem]
  refine (map_congr_left fun e he => ?_).trans (map_id _)
  split
  · next heq =>
    obtain ⟨a, b⟩ := e
    obtain rfl : a = k := heq
    have hb := mem_entries_iff.1 he
    rw [h] at hb
    cases hb
    rfl
  · rfl

theorem set_set_self (m : JsMap K V) (k : K) (v w : V) : (m.set k v).set k w = m.set k w := by
  have hkeys : (k ∈ (m.set k v).entries.map Prod.fst) := by
    rw [show (m.set k v).entries.map Prod.fst = (m.set k v).keys from rfl, mem_keys_iff]
    exact ⟨v, get?_set_self m k v⟩
  refine ext_entries ?_
  rw [show (m.set k v).set k w = _ from dif_pos hkeys]
  by_cases hmem : k ∈ m.entries.map Prod.fst
  · rw [set, dif_pos hmem, set, dif_pos hmem]
    simp only [replace, List.map_map]
    refine map_congr_left fun e _ => ?_
    by_cases he : e.1 = k <;> simp [he]
  · rw [set, dif_neg hmem, set, dif_neg hmem]
    simp only [replace]
    have hsame : m.entries.map (fun e => if e.1 = k then (k, w) else e) = m.entries := by
      refine (map_congr_left fun e he => ?_).trans (map_id _)
      exact if_neg fun heq : e.1 = k => hmem (heq ▸ fst_mem_of_mem he)
    simp [hsame]

/-! ## walking over the entries -/

/-- Set what `f` makes of each entry, in order. -/
def collect {W : Type} (f : K → V → Option W) (m : JsMap K V) (acc : JsMap K W) : JsMap K W :=
  m.entries.foldl (fun acc e => match f e.1 e.2 with
    | some w => acc.set e.1 w
    | none => acc) acc

theorem get?_collect {W : Type} (f : K → V → Option W) (m : JsMap K V) (acc : JsMap K W) (k : K) :
    (m.collect f acc).get? k = ((m.get? k).bind (f k)).or (acc.get? k) := by
  obtain ⟨es, hnodup⟩ := m
  simp only [collect, get?]
  induction es generalizing acc with
  | nil => simp
  | cons e es ih =>
    obtain ⟨a, b⟩ := e
    rw [map_cons, List.nodup_cons] at hnodup
    rw [List.foldl_cons, ih _ hnodup.2]
    by_cases h : k = a
    · subst h
      rw [lookup_eq_none_iff.2 hnodup.1]
      cases hf : f k b with
      | none => simp [hf]
      | some w =>
        have hself : (acc.set k w).entries.lookup k = some w := get?_set_self acc k w
        simp [hf, hself]
    · rw [lookup_cons, beq_false_of_ne h]
      cases hf : f a b with
      | none => rfl
      | some w => exact congrArg _ (get?_set_ne acc w h)

/-! ## the keys as a list -/

omit [DecidableEq K] in
theorem length_keys (m : JsMap K V) : m.keys.length = m.size := List.length_map ..

theorem keys_set (m : JsMap K V) (k : K) (v : V) :
    (m.set k v).keys = if k ∈ m.keys then m.keys else m.keys ++ [k] := by
  unfold set keys
  split
  · exact map_fst_replace ..
  · rw [List.map_append]
    rfl

theorem keys_delete (m : JsMap K V) (k : K) :
    (m.delete k).keys = m.keys.filter fun k' => decide (k' ≠ k) := by
  rw [keys, keys, List.filter_map]
  rfl

theorem size_set (m : JsMap K V) (k : K) (v : V) :
    (m.set k v).size = if k ∈ m.keys then m.size else m.size + 1 := by
  rw [← length_keys, keys_set, ← length_keys]
  split <;> simp

theorem size_delete_le (m : JsMap K V) (k : K) : (m.delete k).size ≤ m.size :=
  List.length_filter_le _ _

/-! ## the values as a list -/

theorem values_nodup
    (hinj : ∀ k k' v, m.get? k = some v → m.get? k' = some v → k = k') : m.values.Nodup := by
  have hentries : m.entries.Nodup := List.Nodup.of_map _ m.nodup
  apply hentries.map_on
  intro e he e' he' heq
  obtain ⟨k, v⟩ := e
  obtain ⟨k', v'⟩ := e'
  obtain rfl : v = v' := heq
  rw [hinj k k' v (mem_entries_iff.mp he) (mem_entries_iff.mp he')]

theorem values_set_new (h : m.get? k = none) (v : V) : (m.set k v).values = m.values ++ [v] := by
  have hk : k ∉ m.entries.map Prod.fst := get?_eq_none_iff.mp h
  unfold set values
  rw [dif_neg hk]
  simp

theorem perm_filter_ne (hnodup : (es.map Prod.fst).Nodup) (h : es.lookup k = some v) :
    (es.map Prod.snd).Perm (v :: (es.filter fun e => e.1 ≠ k).map Prod.snd) := by
  induction es with
  | nil => simp at h
  | cons e es ih =>
    obtain ⟨a, b⟩ := e
    have hcons := List.nodup_cons.mp hnodup
    by_cases ha : a = k
    · subst ha
      obtain rfl : b = v := by simpa using h
      have hrest : (es.filter fun e => e.1 ≠ a) = es := by
        apply List.filter_eq_self.mpr
        intro e he
        have hmem := fst_mem_of_mem he
        have hne : e.1 ≠ a := by
          intro heq
          rw [heq] at hmem
          exact hcons.1 hmem
        simpa using hne
      rw [List.filter_cons_of_neg (by simp), hrest]
      simp
    · rw [lookup_cons, beq_false_of_ne (Ne.symm ha)] at h
      have := ih hcons.2 h
      rw [List.filter_cons_of_pos (by simpa using ha)]
      exact (this.cons b).trans (List.Perm.swap ..)

theorem perm_values_delete (h : m.get? k = some v) : m.values.Perm (v :: (m.delete k).values) :=
  perm_filter_ne m.nodup h

theorem size_delete (h : k ∈ m.keys) : (m.delete k).size + 1 = m.size := by
  obtain ⟨v, hv⟩ := mem_keys_iff.mp h
  have hlen := (perm_values_delete hv).length_eq
  simp only [values, List.length_cons, List.length_map] at hlen
  exact hlen.symm

/-! ## sums over the values -/

/-- The sum of `f` over the values. -/
def sum (f : V → Int) (m : JsMap K V) : Int := (m.values.map f).sum

/-- The sum of `f` over the entries. -/
def sumEntries (f : K → V → Int) (m : JsMap K V) : Int := (m.entries.map fun e => f e.1 e.2).sum

omit [DecidableEq K] in
theorem sumEntries_natCast (f : K → V → Nat) (m : JsMap K V) :
    m.sumEntries (fun k v => f k v) = ((m.entries.map fun e => f e.1 e.2).sum : Nat) := by
  unfold sumEntries
  induction m.entries with
  | nil => rfl
  | cons e es ih => simp [ih]

theorem sum_replace (f : K → V → Int) (hnodup : (es.map Prod.fst).Nodup)
    {v₀ : V} (hk : es.lookup k = some v₀) (v : V) :
    ((replace k v es).map fun e => f e.1 e.2).sum =
      (es.map fun e => f e.1 e.2).sum - f k v₀ + f k v := by
  induction es with
  | nil => simp at hk
  | cons e es ih =>
    obtain ⟨k', w⟩ := e
    have hcons := List.nodup_cons.mp hnodup
    by_cases h : k' = k
    · subst h
      obtain rfl : w = v₀ := by simpa using hk
      have hrest : replace k' v es = es := by
        conv_rhs => rw [← map_id es]
        apply map_congr_left
        intro e he
        have hmem := fst_mem_of_mem he
        have hne : e.1 ≠ k' := by
          intro heq
          rw [heq] at hmem
          exact hcons.1 hmem
        rw [if_neg hne]
        rfl
      have hhead : replace k' v ((k', w) :: es) = (k', v) :: replace k' v es := by simp [replace]
      rw [hhead, hrest]
      simp only [map_cons, sum_cons]
      omega
    · have hk' : es.lookup k = some v₀ := by
        rwa [lookup_cons, show (k == k') = false by simpa using Ne.symm h] at hk
      have hhead : replace k v ((k', w) :: es) = (k', w) :: replace k v es := by simp [replace, h]
      have hih := ih hcons.2 hk'
      rw [hhead]
      simp only [map_cons, sum_cons]
      omega

theorem sumEntries_set (f : K → V → Int) (m : JsMap K V) (k : K) (v : V) :
    (m.set k v).sumEntries f = m.sumEntries f - ((m.get? k).map (f k)).getD 0 + f k v := by
  unfold set sumEntries
  split
  · next h =>
    have hsome : m.get? k ≠ none := fun hnone => lookup_eq_none_iff.mp hnone h
    obtain ⟨v₀, hv₀⟩ := Option.ne_none_iff_exists'.mp hsome
    rw [hv₀]
    exact sum_replace f m.nodup hv₀ v
  · next h =>
    have hnone : m.get? k = none := get?_eq_none_iff.mpr h
    simp [hnone]

theorem sum_set (f : V → Int) (m : JsMap K V) (k : K) (v : V) :
    (m.set k v).sum f = m.sum f - ((m.get? k).map f).getD 0 + f v := by
  simpa [sum, sumEntries, values, Function.comp_def] using sumEntries_set (fun _ => f) m k v

theorem sum_delete (f : V → Int) (h : m.get? k = some v) : (m.delete k).sum f = m.sum f - f v := by
  have hperm := (perm_values_delete h).map f
  have hsum := hperm.sum_eq
  simp only [map_cons, sum_cons] at hsum
  unfold sum
  omega

theorem sum_set_new (f : V → Int) (h : m.get? k = none) (v : V) :
    (m.set k v).sum f = m.sum f + f v := by
  rw [sum_set, h]
  simp

theorem sum_set_old (f : V → Int) {v₀ : V} (h : m.get? k = some v₀) (v : V) :
    (m.set k v).sum f = m.sum f - f v₀ + f v := by
  rw [sum_set, h]
  rfl

variable {f : V → Int}

theorem sum_congr {g : V → Int} (h : ∀ k v, m.get? k = some v → f v = g v) : m.sum f = m.sum g := by
  unfold sum
  rw [map_congr_left]
  intro v hv
  obtain ⟨k, hk⟩ := mem_values_iff.mp hv
  exact h k v hk

theorem sum_eq_zero (h : ∀ k v, m.get? k = some v → f v = 0) : m.sum f = 0 := by
  rw [sum_congr h]
  simp [sum]

theorem sum_map_nonneg (hf : ∀ v, 0 ≤ f v) (vs : List V) : 0 ≤ (vs.map f).sum := by
  induction vs with
  | nil => simp
  | cons v vs ih =>
    have := hf v
    simp only [map_cons, sum_cons]
    omega

omit [DecidableEq K] in
theorem sum_nonneg (hf : ∀ v, 0 ≤ f v) (m : JsMap K V) : 0 ≤ m.sum f :=
  sum_map_nonneg hf m.values

theorem le_sum (hf : ∀ v, 0 ≤ f v) (h : m.get? k = some v) : f v ≤ m.sum f := by
  have hmem : v ∈ m.values := mem_values_iff.mpr ⟨k, h⟩
  unfold sum
  generalize m.values = vs at hmem
  induction vs with
  | nil => contradiction
  | cons w vs ih =>
    simp only [map_cons, sum_cons]
    cases List.mem_cons.mp hmem with
    | inl heq =>
      have := sum_map_nonneg hf vs
      rw [heq]
      omega
    | inr hmem =>
      have := ih hmem
      have := hf w
      omega

end JsMap

end BunServe
