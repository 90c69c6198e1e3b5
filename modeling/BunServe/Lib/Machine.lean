/-!
# BunServe.Lib.Machine

Guarded transition machines and their runs.

A `Machine` is an initial state and a partial step function over actions;
`next s a = none` says that `a` cannot happen in `s`.  A run is a list of
actions executed from the initial state.  `Runs ok as s` collects the runs
whose every step meets the guard `ok`, so that a property of all runs and a
property of the runs avoiding one kind of step are the same statement with
two guards.

* `Runs.invariant` — what holds initially and is kept by every guarded step
  holds in every state reached;
* `Runs.invariant_of` — the same, with an invariant already established at
  hand in the step;
* `runs_of_exec` — an executed trace is a run, which is how a concrete
  interleaving is replayed.
-/

namespace BunServe

/-- A machine with partial steps: `next s a = none` when `a` is not enabled. -/
structure Machine (S A : Type) where
  init : S
  next : S → A → Option S

namespace Machine

variable {S A : Type} (m : Machine S A)

/-- The runs whose every step meets the guard `ok`, newest action last. -/
inductive Runs (ok : S → A → Prop) : List A → S → Prop
  | nil : Runs ok [] m.init
  | snoc {as s a s'} : Runs ok as s → ok s a → m.next s a = some s' → Runs ok (as ++ [a]) s'

/-- The guard of an unrestricted run. -/
def Any (_ : S) (_ : A) : Prop := True

/-- Execute a list of actions. -/
def exec : S → List A → Option S
  | s, [] => some s
  | s, a :: as => (m.next s a).bind fun s' => exec s' as

/-- Execute a list of actions, checking the guard at every step. -/
def execIf (ok : S → A → Bool) : S → List A → Option S
  | s, [] => some s
  | s, a :: as => if ok s a then (m.next s a).bind fun s' => execIf ok s' as else none

variable {m}

variable {ok : S → A → Prop} {as : List A} {s : S}

theorem Runs.mono {ok' : S → A → Prop} (hok : ∀ s a, ok s a → ok' s a)
    (h : m.Runs ok as s) : m.Runs ok' as s := by
  induction h with
  | nil => exact .nil
  | snoc _ hg hn ih => exact .snoc ih (hok _ _ hg) hn

theorem Runs.restrict {ok' : S → A → Prop} (h : m.Runs ok as s)
    (hok : ∀ a ∈ as, ∀ s, ok' s a) : m.Runs ok' as s := by
  induction h with
  | nil => exact .nil
  | snoc _ _ hn ih =>
    exact .snoc (ih fun a ha => hok a (List.mem_append_left _ ha)) (hok _ (by simp) _) hn

/-- **Invariant rule**: what holds initially and is kept by every guarded
step holds in every state reached. -/
theorem Runs.invariant {I : S → Prop} (h0 : I m.init)
    (hstep : ∀ s a s', I s → ok s a → m.next s a = some s' → I s') (h : m.Runs ok as s) : I s := by
  induction h with
  | nil => exact h0
  | snoc _ hg hn ih => exact hstep _ _ _ ih hg hn

/-- The invariant rule over an established invariant `J`. -/
theorem Runs.invariant_of {I J : S → Prop} (hJ : ∀ {as s}, m.Runs ok as s → J s) (h0 : I m.init)
    (hstep : ∀ s a s', J s → I s → ok s a → m.next s a = some s' → I s')
    (h : m.Runs ok as s) : I s := by
  induction h with
  | nil => exact h0
  | snoc hr hg hn ih => exact hstep _ _ _ (hJ hr) ih hg hn

theorem Runs.unsnoc {a : A} (h : m.Runs ok (as ++ [a]) s) :
    ∃ s₀, m.Runs ok as s₀ ∧ ok s₀ a ∧ m.next s₀ a = some s := by
  generalize hbs : as ++ [a] = bs at h
  cases h with
  | nil => simp at hbs
  | snoc hr hg hn =>
    obtain ⟨rfl, rfl⟩ := by simpa using hbs
    exact ⟨_, hr, hg, hn⟩

theorem Runs.unique {ok' : S → A → Prop} {s' : S} (h : m.Runs ok as s)
    (h' : m.Runs ok' as s') : s = s' := by
  induction h generalizing s' with
  | nil =>
    generalize hbs : ([] : List A) = bs at h'
    cases h' with
    | nil => rfl
    | snoc => simp at hbs
  | snoc _ _ hn ih =>
    obtain ⟨t, ht, -, hn'⟩ := h'.unsnoc
    have heq := ih ht
    rw [heq, hn'] at hn
    exact (Option.some.inj hn).symm

variable {bs : List A}

theorem runs_exec {s' : S} (h : m.Runs ok as s)
    (hok : ∀ s a, ok s a) (he : m.exec s bs = some s') : m.Runs ok (as ++ bs) s' := by
  induction bs generalizing as s with
  | nil =>
    simp only [exec, Option.some.injEq] at he
    subst he
    simpa using h
  | cons b bs ih =>
    obtain ⟨t, ht, he⟩ := Option.bind_eq_some_iff.mp he
    have := ih (h.snoc (hok s b) ht) he
    simpa using this

theorem runs_of_exec (he : m.exec m.init bs = some s) : m.Runs Any bs s := by
  exact runs_exec (.nil : m.Runs Any [] m.init) (fun _ _ => trivial) he

theorem runs_append_foldl {f : S → A → S} (hf : ∀ s a, m.next s a = some (f s a))
     (h : m.Runs ok as s) (hok : ∀ b ∈ bs, ∀ s, ok s b) : m.Runs ok (as ++ bs) (bs.foldl f s) := by
  induction bs generalizing as s with
  | nil => simpa using h
  | cons b bs ih =>
    have hb := h.snoc (hok b (by simp) s) (hf s b)
    have := ih hb fun b' hb' => hok b' (List.mem_cons_of_mem _ hb')
    simpa using this

/-- Of a machine whose every action is enabled, every list of actions that
meet the guard is a run. -/
theorem runs_foldl {f : S → A → S} (hf : ∀ s a, m.next s a = some (f s a))
    (hok : ∀ a ∈ as, ∀ s, ok s a) : m.Runs ok as (as.foldl f m.init) := by
  exact runs_append_foldl hf (.nil : m.Runs ok [] m.init) hok

theorem runs_execIf {okb : S → A → Bool} (hok : ∀ s a, okb s a → ok s a)
    {s' : S} (h : m.Runs ok as s) (he : m.execIf okb s bs = some s') : m.Runs ok (as ++ bs) s' := by
  induction bs generalizing as s with
  | nil =>
    simp only [execIf, Option.some.injEq] at he
    subst he
    simpa using h
  | cons b bs ih =>
    rw [execIf] at he
    split at he
    · next hb =>
      obtain ⟨t, ht, he⟩ := Option.bind_eq_some_iff.mp he
      have := ih (h.snoc (hok s b hb) ht) he
      simpa using this
    · contradiction

theorem runs_of_execIf {okb : S → A → Bool} (hok : ∀ s a, okb s a → ok s a)
     (he : m.execIf okb m.init bs = some s) : m.Runs ok bs s := by
  exact runs_execIf hok (.nil : m.Runs ok [] m.init) he

end Machine

end BunServe
