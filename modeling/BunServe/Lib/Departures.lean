import Mathlib.Logic.Function.Basic
import Mathlib.Logic.Relation

/-!
# BunServe.Lib.Departures

Calls that wait until an entry of a table is gone.

A call waits with the entry it names, or goes at once; the entry that leaves
releases the calls that wait with it.  Changes that only add (`Opening`) are told
from changes that only take away (`Closing`).

* `Change.ok` — every call stays in one place;
* `Waits.change` — a call waits on until a change releases it, after which its
  entry is gone.
-/

namespace BunServe.Departures

open Function (update)

variable {K : Type} [DecidableEq K]

/-- The entries with the calls that wait with them, the number of calls so far,
and the calls released. -/
@[ext]
structure Book (K : Type) where
  table : K → Option (List Nat)
  calls : Nat
  released : List Nat

/-- An entry comes, or a call is made. -/
inductive Opening : Book K → Book K → Prop
  | enter {b k} (h : b.table k = none) :
      Opening b { b with table := update b.table k (some []) }
  | wait {b k ds} (h : b.table k = some ds) :
      Opening b { b with
        table := update b.table k (some (ds ++ [b.calls]))
        calls := b.calls + 1 }
  | go {b} : Opening b { b with calls := b.calls + 1, released := b.released ++ [b.calls] }

/-- An entry leaves. -/
inductive Closing : Book K → Book K → Prop
  | leave {b k ds} (h : b.table k = some ds) :
      Closing b { b with
        table := update b.table k none
        released := b.released ++ ds }

/-- Call `i` waits with entry `k`. -/
def Waits (b : Book K) (k : K) (i : Nat) : Prop := ∃ ds, b.table k = some ds ∧ i ∈ ds

/-- Calls are numbered in order, and each is in one place. -/
structure Book.Ok (b : Book K) : Prop where
  released : ∀ i ∈ b.released, i < b.calls
  waiting : ∀ k i, Waits b k i → i < b.calls ∧ i ∉ b.released
  apart : ∀ k k' i, Waits b k i → Waits b k' i → k = k'

/-! ## one change -/

section Steps

variable {b b' : Book K} {k k₀ : K} {i : Nat} {ds : List Nat}

theorem waits_enter (h : b.table k₀ = none) :
    Waits { b with table := update b.table k₀ (some []) } k i ↔ Waits b k i := by
  unfold Waits
  by_cases hk : k = k₀
  · subst hk
    simp [h]
  · simp [hk]

/-- A call joins those of its entry. -/
theorem waits_wait (h : b.table k₀ = some ds) :
    Waits { b with
      table := update b.table k₀ (some (ds ++ [b.calls]))
      calls := b.calls + 1 } k i ↔ Waits b k i ∨ k = k₀ ∧ i = b.calls := by
  unfold Waits
  by_cases hk : k = k₀
  · subst hk
    simp [h]
  · simp [hk]

theorem waits_leave {r : List Nat} :
    Waits { b with table := update b.table k₀ none, released := r } k i ↔
      k ≠ k₀ ∧ Waits b k i := by
  unfold Waits
  by_cases hk : k = k₀
  · subst hk
    simp
  · simp [hk]

theorem Opening.ok (hs : Opening b b') (h : b.Ok) : b'.Ok := by
  cases hs with
  | enter hnone =>
    constructor
    · exact h.released
    · intro k i hw
      exact h.waiting k i ((waits_enter hnone).mp hw)
    · intro k k' i hw hw'
      exact h.apart k k' i ((waits_enter hnone).mp hw) ((waits_enter hnone).mp hw')
  | wait hds =>
    have hfresh (k : K) : ¬ Waits b k b.calls := by
      intro hw
      exact Nat.lt_irrefl _ (h.waiting k _ hw).1
    constructor
    · intro i hi
      exact Nat.lt_succ_of_lt (h.released i hi)
    · intro k i hw
      cases (waits_wait hds).mp hw with
      | inl hold => exact ⟨Nat.lt_succ_of_lt (h.waiting k i hold).1, (h.waiting k i hold).2⟩
      | inr hnew =>
        rw [hnew.2]
        exact ⟨Nat.lt_succ_self _, fun hi => Nat.lt_irrefl _ (h.released _ hi)⟩
    · intro k k' i hw hw'
      cases (waits_wait hds).mp hw with
      | inl hold =>
        cases (waits_wait hds).mp hw' with
        | inl hold' => exact h.apart k k' i hold hold'
        | inr hnew' =>
          rw [hnew'.2] at hold
          exact absurd hold (hfresh k)
      | inr hnew =>
        cases (waits_wait hds).mp hw' with
        | inl hold' =>
          rw [hnew.2] at hold'
          exact absurd hold' (hfresh k')
        | inr hnew' => rw [hnew.1, hnew'.1]
  | go =>
    constructor
    · intro i hi
      cases List.mem_append.mp hi with
      | inl hold => exact Nat.lt_succ_of_lt (h.released i hold)
      | inr hnew =>
        rw [List.mem_singleton.mp hnew]
        exact Nat.lt_succ_self _
    · intro k i hw
      obtain ⟨hlt, hnot⟩ := h.waiting k i hw
      refine ⟨Nat.lt_succ_of_lt hlt, ?_⟩
      intro hi
      cases List.mem_append.mp hi with
      | inl hold => exact hnot hold
      | inr hnew =>
        rw [List.mem_singleton.mp hnew] at hlt
        exact Nat.lt_irrefl _ hlt
    · exact h.apart

theorem Closing.ok (hs : Closing b b') (h : b.Ok) : b'.Ok := by
  cases hs with
  | @leave k₀ ds hds =>
    constructor
    · intro i hi
      cases List.mem_append.mp hi with
      | inl hold => exact h.released i hold
      | inr hnew => exact (h.waiting k₀ i ⟨ds, hds, hnew⟩).1
    · intro k i hw
      obtain ⟨hne, hold⟩ := waits_leave.mp hw
      refine ⟨(h.waiting k i hold).1, ?_⟩
      intro hi
      cases List.mem_append.mp hi with
      | inl hmem => exact (h.waiting k i hold).2 hmem
      | inr hnew => exact hne (h.apart k k₀ i hold ⟨ds, hds, hnew⟩)
    · intro k k' i hw hw'
      exact h.apart k k' i (waits_leave.mp hw).2 (waits_leave.mp hw').2

theorem Waits.opening (h : Waits b k i) (hs : Opening b b') : Waits b' k i := by
  cases hs with
  | enter hnone => exact (waits_enter hnone).mpr h
  | wait hds => exact (waits_wait hds).mpr (Or.inl h)
  | go => exact h

theorem Waits.closing (h : Waits b k i) (hs : Closing b b') :
    Waits b' k i ∨ i ∈ b'.released ∧ b'.table k = none := by
  cases hs with
  | @leave k₀ ds hds =>
    by_cases hk : k = k₀
    · subst hk
      obtain ⟨ds', hds', hi⟩ := h
      rw [hds] at hds'
      cases hds'
      exact Or.inr ⟨List.mem_append_right _ hi, Function.update_self ..⟩
    · exact Or.inl (waits_leave.mpr ⟨hk, h⟩)

theorem Closing.released (hs : Closing b b') (h : i ∈ b.released) : i ∈ b'.released := by
  cases hs
  exact List.mem_append_left _ h

theorem Opening.released (hs : Opening b b') (h : i ∈ b.released) : i ∈ b'.released := by
  cases hs with
  | enter | wait => exact h
  | go => exact List.mem_append_left _ h

theorem Closing.gone (hs : Closing b b') (h : b.table k = none) : b'.table k = none := by
  cases hs with
  | @leave k₀ ds hds =>
    show update b.table k₀ none k = none
    by_cases hk : k = k₀
    · rw [hk, Function.update_self]
    · rw [Function.update_of_ne hk, h]

end Steps

/-! ## many changes -/

/-- Entries come and calls are made, or entries leave. -/
def Change (b b' : Book K) : Prop :=
  Relation.ReflTransGen Opening b b' ∨ Relation.ReflTransGen Closing b b'

section Change

variable {b b' : Book K} {k : K} {i : Nat}

theorem Change.same : Change b b := Or.inl .refl

theorem Change.opening (h : Opening b b') : Change b b' := Or.inl (.single h)

theorem Change.ok (hs : Change b b') (h : b.Ok) : b'.Ok := by
  cases hs with
  | inl hopen =>
    induction hopen with
    | refl => exact h
    | tail _ hstep ih => exact hstep.ok ih
  | inr hclose =>
    induction hclose with
    | refl => exact h
    | tail _ hstep ih => exact hstep.ok ih

theorem Change.released (hs : Change b b') (h : i ∈ b.released) : i ∈ b'.released := by
  cases hs with
  | inl hopen =>
    induction hopen with
    | refl => exact h
    | tail _ hstep ih => exact hstep.released ih
  | inr hclose =>
    induction hclose with
    | refl => exact h
    | tail _ hstep ih => exact hstep.released ih

theorem Waits.change (h : Waits b k i) (hs : Change b b') :
    Waits b' k i ∨ i ∈ b'.released ∧ b'.table k = none := by
  cases hs with
  | inl hopen =>
    left
    induction hopen with
    | refl => exact h
    | tail _ hstep ih => exact ih.opening hstep
  | inr hclose =>
    induction hclose with
    | refl => exact Or.inl h
    | tail _ hstep ih =>
      cases ih with
      | inl hwaits => exact hwaits.closing hstep
      | inr hdone => exact Or.inr ⟨hstep.released hdone.1, hstep.gone hdone.2⟩

end Change

end BunServe.Departures
