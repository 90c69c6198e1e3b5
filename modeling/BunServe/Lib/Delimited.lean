import Mathlib.Data.List.Basic

/-!
# BunServe.Lib.Delimited

Two lists joined by a delimiter that the first does not contain: both can be read
back, and only the joins with the same first list start with it and the delimiter.
-/

namespace BunServe

variable {α : Type} {c : α} {a b r r' : List α}

theorem append_delim_inj (ha : c ∉ a) (hb : c ∉ b) (h : a ++ c :: r = b ++ c :: r') :
    a = b ∧ r = r' := by
  induction a generalizing b with
  | nil =>
    cases b with
    | nil => simpa using h
    | cons x b =>
      simp only [List.nil_append, List.cons_append, List.cons.injEq] at h
      exact absurd (by simp [h.1]) hb
  | cons x a ih =>
    cases b with
    | nil =>
      simp only [List.nil_append, List.cons_append, List.cons.injEq] at h
      exact absurd (by simp [h.1]) ha
    | cons y b =>
      simp only [List.cons_append, List.cons.injEq] at h
      obtain ⟨rfl, h⟩ := h
      obtain ⟨rfl, rfl⟩ := ih (fun hm => ha (List.mem_cons_of_mem _ hm))
        (fun hm => hb (List.mem_cons_of_mem _ hm)) h
      exact ⟨rfl, rfl⟩

theorem append_delim_isPrefix (ha : c ∉ a) (hb : c ∉ b) (h : a ++ [c] <+: b ++ c :: r) : a = b := by
  obtain ⟨t, ht⟩ := h
  rw [List.append_assoc] at ht
  exact (append_delim_inj ha hb ht).1

end BunServe
