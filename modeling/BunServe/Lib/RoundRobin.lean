import Mathlib.Data.List.Nodup
import Mathlib.Logic.Relation

/-!
# BunServe.Lib.RoundRobin

A line served one turn at a time: whoever has the first place is served and may
join again at the back, and places are given back from anywhere.

`Step keep` is one change of the line and of the log of turns, in which `keep`
does not give its place back.  The log of a line is what was served, oldest
first; nobody is served out of turn while somebody is in line.

* `fair` — until somebody in line has had a turn, nobody else has two.
-/

namespace BunServe.RoundRobin

variable {K : Type} [DecidableEq K]

/-- The line, and who has been served. -/
structure Turns (K : Type) where
  line : List K
  log : List K

/-- One change of the line. -/
inductive Step (keep : K) : Turns K → Turns K → Prop
  | join {line log k} (h : k ∉ line) : Step keep ⟨line, log⟩ ⟨line ++ [k], log⟩
  | serve {line log k} : Step keep ⟨k :: line, log⟩ ⟨line, log ++ [k]⟩
  | leave {line log k} (h : k ≠ keep) : Step keep ⟨line, log⟩ ⟨line.erase k, log⟩
  | alone {log k} : Step keep ⟨[], log⟩ ⟨[], log ++ [k]⟩

/-- Any number of changes. -/
abbrev Steps (keep : K) : Turns K → Turns K → Prop := Relation.ReflTransGen (Step keep)

/-- What `b` sees since it was in line and `served` had been served: either it
still stands in line, and whoever has had a turn since has had one and stands
behind it; or it has had its turn, before which nobody had two. -/
def Sees (b : K) (served : List K) (t : Turns K) : Prop :=
  t.line.Nodup ∧ ∃ d, t.log = served ++ d ∧
    ((∃ front back, t.line = front ++ b :: back ∧ b ∉ d ∧ d.Nodup ∧ ∀ k ∈ front, k ∉ d) ∨
      ∃ d₁ d₂, d = d₁ ++ b :: d₂ ∧ b ∉ d₁ ∧ d₁.Nodup)

section Sees

variable {b : K} {served : List K}

theorem sees_start {t : Turns K} (hn : t.line.Nodup) (hb : b ∈ t.line) : Sees b t.log t := by
  obtain ⟨front, back, hline⟩ := List.append_of_mem hb
  exact ⟨hn, [], (List.append_nil _).symm, Or.inl ⟨front, back, hline, List.not_mem_nil,
    List.nodup_nil, fun _ _ => List.not_mem_nil⟩⟩

theorem Sees.step {t t' : Turns K} (h : Sees b served t) (hs : Step b t t') : Sees b served t' := by
  obtain ⟨hn, d, hlog, hview⟩ := h
  cases hs with
  | @join line log k hk =>
    refine ⟨List.nodup_append.mpr ⟨hn, by simp, ?_⟩, d, hlog, ?_⟩
    · intro x hx y hy hxy
      rw [List.mem_singleton.mp hy] at hxy
      exact hk (hxy ▸ hx)
    · rcases hview with ⟨front, back, hline, hview⟩ | hdone
      · refine Or.inl ⟨front, back ++ [k], ?_, hview⟩
        rw [show line = front ++ b :: back from hline]
        simp
      · exact Or.inr hdone
  | @serve line log k =>
    refine ⟨(List.nodup_cons.mp hn).2, d ++ [k], ?_, ?_⟩
    · rw [show log = served ++ d from hlog, List.append_assoc]
    rcases hview with ⟨front, back, hline, hb, hd, hfront⟩ | ⟨d₁, d₂, hd, hrest⟩
    · cases front with
      | nil =>
        obtain ⟨rfl, -⟩ := List.cons.inj hline
        exact Or.inr ⟨d, [], rfl, hb, hd⟩
      | cons x front =>
        obtain ⟨rfl, rfl⟩ := List.cons.inj hline
        have hk : k ∉ d := hfront k List.mem_cons_self
        have hnot := List.nodup_cons.mp hn
        have hbk : b ≠ k := fun h => hnot.1 (by simp [← h])
        refine Or.inl ⟨front, back, rfl, ?_, ?_, ?_⟩
        · simp [hb, hbk]
        · exact List.nodup_append.mpr ⟨hd, by simp, fun x hx y hy hxy =>
            hk (by rw [← List.mem_singleton.mp hy, ← hxy]; exact hx)⟩
        · intro x hx hmem
          rcases List.mem_append.mp hmem with hmem | hmem
          · exact hfront x (List.mem_cons_of_mem _ hx) hmem
          · exact hnot.1 (List.mem_append_left _ (List.mem_singleton.mp hmem ▸ hx))
    · exact Or.inr ⟨d₁, d₂ ++ [k], by rw [hd]; simp, hrest⟩
  | @leave line log k hk =>
    refine ⟨hn.erase k, d, hlog, ?_⟩
    rcases hview with ⟨front, back, hline, hb, hd, hfront⟩ | hdone
    · rw [show line = front ++ b :: back from hline]
      by_cases hmem : k ∈ front
      · rw [List.erase_append_left _ hmem]
        exact Or.inl ⟨front.erase k, back, rfl, hb, hd, fun x hx =>
          hfront x (List.mem_of_mem_erase hx)⟩
      · rw [List.erase_append_right _ hmem, List.erase_cons_tail (by simpa using hk.symm)]
        exact Or.inl ⟨front, back.erase k, rfl, hb, hd, hfront⟩
    · exact Or.inr hdone
  | @alone log k =>
    refine ⟨hn, d ++ [k], ?_, ?_⟩
    · rw [show log = served ++ d from hlog, List.append_assoc]
    · rcases hview with ⟨front, back, hline, -⟩ | ⟨d₁, d₂, hd, hrest⟩
      · simp at hline
      · exact Or.inr ⟨d₁, d₂ ++ [k], by rw [hd]; simp, hrest⟩

end Sees

/-- **Fairness**: of the turns since `b` was in line, those before its own are
of different ones. -/
theorem fair {b : K} {t t' : Turns K} (h : Steps b t t') (hn : t.line.Nodup) (hb : b ∈ t.line) :
    ∃ d, t'.log = t.log ++ d ∧ (d.takeWhile fun k => k ≠ b).Nodup := by
  have hsees : Sees b t.log t' := by
    induction h with
    | refl => exact sees_start hn hb
    | tail _ hs ih => exact ih.step hs
  obtain ⟨-, d, hlog, hview⟩ := hsees
  refine ⟨d, hlog, ?_⟩
  rcases hview with ⟨-, -, -, -, hd, -⟩ | ⟨d₁, d₂, rfl, hb, hd⟩
  · exact (List.takeWhile_prefix _).sublist.nodup hd
  · rw [List.takeWhile_append_of_pos (by intro k hk; simpa using fun h : k = b => hb (h ▸ hk)),
      List.takeWhile_cons_of_neg (by simp), List.append_nil]
    exact hd

end BunServe.RoundRobin
