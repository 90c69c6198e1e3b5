import Mathlib.Init

/-!
# BunServe.Lib.Prog

Programs over a state that ask their environment: a program runs up to its next
question, and goes on from the answer and from the state it then finds.

A `Contract` says what must hold where a question is asked, what the environment
may answer and do to the state, and what must hold where a program fails.

* `Outcome.Meets` — every way a program goes on meets the contract, and ends in
  its postcondition;
* `Meets.bind`, `Meets.mono`, `meets_ask` — its rules;
* `Outcome.Exec` — the executions, and `Meets.exec` — what holds at their end;
* `Outcome.Returns` — a program returns, whatever it is answered: its `run` against a
  sequence of answers has a result;
* `Outcome.play` — the execution against answers given by a function.
-/

namespace BunServe

/-- How far a program has come. -/
inductive Outcome (S Op : Type) (Ans : Op → Type) (α : Type) where
  | done (a : α) (s : S)
  /-- An exception left it. -/
  | fail (s : S)
  /-- It asks, and goes on from an answer and a state. -/
  | ask (op : Op) (s : S) (k : Ans op → S → Outcome S Op Ans α)

/-- A program. -/
def Prog (S Op : Type) (Ans : Op → Type) (α : Type) : Type := S → Outcome S Op Ans α

variable {S Op : Type} {Ans : Op → Type} {α β γ : Type}

/-- Go on with what was returned. -/
def Outcome.bind : Outcome S Op Ans α → (α → Prog S Op Ans β) → Outcome S Op Ans β
  | .done a s, f => f a s
  | .fail s, _ => .fail s
  | .ask op s k, f => .ask op s fun ans s => (k ans s).bind f

namespace Prog

instance : Monad (Prog S Op Ans) where
  pure a := fun s => .done a s
  bind p f := fun s => (p s).bind f

/-- The state. -/
def get : Prog S Op Ans S := fun s => .done s s

/-- Change the state. -/
def modify (f : S → S) : Prog S Op Ans Unit := fun s => .done () (f s)

/-- Throw. -/
def fail : Prog S Op Ans α := fun s => .fail s

/-- Ask the environment. -/
def ask (op : Op) : Prog S Op Ans (Ans op) := fun s => .ask op s fun ans s => .done ans s

@[simp] theorem pure_run (a : α) (s : S) : (pure a : Prog S Op Ans α) s = .done a s := rfl

@[simp] theorem fail_run (s : S) : (fail : Prog S Op Ans α) s = .fail s := rfl

@[simp] theorem modify_run (f : S → S) (s : S) :
    (modify f : Prog S Op Ans Unit) s = .done () (f s) := rfl

theorem bind_run (p : Prog S Op Ans α) (f : α → Prog S Op Ans β) (s : S) :
    (p >>= f) s = (p s).bind f := rfl

@[simp] theorem pure_bind_run (a : α) (f : α → Prog S Op Ans β) (s : S) :
    ((pure a : Prog S Op Ans α) >>= f) s = f a s := rfl

@[simp] theorem get_bind_run (f : S → Prog S Op Ans β) (s : S) :
    ((get : Prog S Op Ans S) >>= f) s = f s s := rfl

@[simp] theorem modify_bind_run (g : S → S) (f : Unit → Prog S Op Ans β) (s : S) :
    ((modify g : Prog S Op Ans Unit) >>= f) s = f () (g s) := rfl

@[simp] theorem fail_bind_run (f : α → Prog S Op Ans β) (s : S) :
    ((fail : Prog S Op Ans α) >>= f) s = .fail s := rfl

@[simp] theorem ite_run (b : Prop) [Decidable b] (p q : Prog S Op Ans α) (s : S) :
    (if b then p else q) s = if b then p s else q s := by
  split <;> rfl

end Prog

/-- What a program and its environment owe each other. -/
structure Contract (S Op : Type) (Ans : Op → Type) where
  /-- Holds where a question is asked. -/
  pre : Op → S → Prop
  /-- What the environment answers, and does to the state meanwhile. -/
  post : (op : Op) → S → Ans op → S → Prop
  /-- Holds where a program fails. -/
  fail : S → Prop

namespace Outcome

/-- However the environment keeps its side, the program keeps its own and ends in
`Q`. -/
def Meets (c : Contract S Op Ans) (Q : α → S → Prop) : Outcome S Op Ans α → Prop
  | .done a s => Q a s
  | .fail s => c.fail s
  | .ask op s k => c.pre op s ∧ ∀ ans s', c.post op s ans s' → (k ans s').Meets c Q

variable {c : Contract S Op Ans} {Q Q' : α → S → Prop} {R : β → S → Prop}

@[simp] theorem meets_done (a : α) (s : S) : (Outcome.done a s).Meets c Q ↔ Q a s := Iff.rfl

@[simp] theorem meets_fail (s : S) : (Outcome.fail s).Meets c Q ↔ c.fail s := Iff.rfl

theorem meets_ask (op : Op) (s : S) (k : Ans op → S → Outcome S Op Ans α) :
    (Outcome.ask op s k).Meets c Q ↔
      c.pre op s ∧ ∀ ans s', c.post op s ans s' → (k ans s').Meets c Q := Iff.rfl

variable {o : Outcome S Op Ans α}

theorem Meets.mono (h : o.Meets c Q) (hQ : ∀ a s, Q a s → Q' a s) : o.Meets c Q' := by
  induction o with
  | done a s => exact hQ a s h
  | fail s => exact h
  | ask op s k ih => exact ⟨h.1, fun ans s' hpost => ih ans s' (h.2 ans s' hpost)⟩

theorem Meets.bind {f : α → Prog S Op Ans β} (h : o.Meets c Q)
    (hf : ∀ a s, Q a s → (f a s).Meets c R) : (o.bind f).Meets c R := by
  induction o with
  | done a s => exact hf a s h
  | fail s => exact h
  | ask op s k ih => exact ⟨h.1, fun ans s' hpost => ih ans s' (h.2 ans s' hpost)⟩

variable {s : S}

/-- The rule of a sequence. -/
theorem Meets.seq {p : Prog S Op Ans α} {f : α → Prog S Op Ans β} (h : (p s).Meets c Q)
    (hf : ∀ a s, Q a s → (f a s).Meets c R) : ((p >>= f) s).Meets c R :=
  Meets.bind h hf

/-- The rule of a question. -/
theorem Meets.ask {op : Op} {f : Ans op → Prog S Op Ans β} (hpre : c.pre op s)
    (hf : ∀ ans s', c.post op s ans s' → (f ans s').Meets c R) :
    ((Prog.ask op >>= f) s).Meets c R :=
  ⟨hpre, hf⟩

/-- Two things hold of a program. -/
theorem Meets.and (h : o.Meets c Q) (h' : o.Meets c Q') : o.Meets c fun a s => Q a s ∧ Q' a s := by
  induction o with
  | done a s => exact ⟨h, h'⟩
  | fail s => exact h
  | ask op s k ih => exact ⟨h.1, fun ans s' hpost => ih ans s' (h.2 ans s' hpost) (h'.2 ans s' hpost)⟩

/-- A program that keeps its side asks no less of a tamer environment. -/
theorem Meets.weaken {c' : Contract S Op Ans} (h : o.Meets c Q)
    (hpre : ∀ op s, c.pre op s → c'.pre op s)
    (hpost : ∀ op s ans s', c'.post op s ans s' → c.post op s ans s')
    (hfail : ∀ s, c.fail s → c'.fail s) : o.Meets c' Q := by
  induction o with
  | done a s => exact h
  | fail s => exact hfail s h
  | ask op s k ih =>
    exact ⟨hpre op s h.1, fun ans s' hp => ih ans s' (h.2 ans s' (hpost op s ans s' hp))⟩

/-! ## executions -/

/-- The executions under the environment `post`: what is returned, none where an
exception left the program, and the state at the end. -/
inductive Exec (post : (op : Op) → S → Ans op → S → Prop) :
    Outcome S Op Ans α → Option α → S → Prop
  | done (a : α) (s : S) : Exec post (.done a s) (some a) s
  | fail (s : S) : Exec post (.fail s) none s
  | ask {op : Op} {s s' s'' : S} {k : Ans op → S → Outcome S Op Ans α} {ans : Ans op}
      {r : Option α} :
      post op s ans s' → Exec post (k ans s') r s'' → Exec post (.ask op s k) r s''

theorem Meets.exec {r : Option α} (h : o.Meets c Q)
    (he : Exec c.post o r s) : (∃ a, r = some a ∧ Q a s) ∨ r = none ∧ c.fail s := by
  induction he with
  | done a s => exact .inl ⟨a, rfl, h⟩
  | fail s => exact .inr ⟨rfl, h⟩
  | ask hpost _ ih => exact ih (h.2 _ _ hpost)

/-- Run against an environment that answers the questions in turn, and changes the
state meanwhile: what is returned, none where an exception left the program. -/
def run (answer : Nat → (op : Op) → S → Ans op × S) : Nat → Outcome S Op Ans α → Option α × S
  | _, .done a s => (some a, s)
  | _, .fail s => (none, s)
  | n, .ask op s k => (k (answer n op s).1 (answer n op s).2).run answer (n + 1)

theorem Meets.run (h : o.Meets c Q) {answer : Nat → (op : Op) → S → Ans op × S}
    (hanswer : ∀ n op s, c.post op s (answer n op s).1 (answer n op s).2) (n : Nat) :
    (∃ a s, o.run answer n = (some a, s) ∧ Q a s) ∨ ∃ s, o.run answer n = (none, s) ∧ c.fail s := by
  induction o generalizing n with
  | done a s => exact .inl ⟨a, s, rfl, h⟩
  | fail s => exact .inr ⟨s, rfl, h⟩
  | ask op s k ih => exact ih _ _ (h.2 _ _ (hanswer n op s)) (n + 1)

/-- The contract of a program that is to return, whatever it is answered and
whatever state it finds. -/
def Total : Contract S Op Ans where
  pre _ _ := True
  post _ _ _ _ := True
  fail _ := False

/-- A program returns. -/
def Returns (o : Outcome S Op Ans α) : Prop := o.Meets Total fun _ _ => True

theorem Returns.seq {p : Prog S Op Ans α} {f : α → Prog S Op Ans β} (h : (p s).Returns)
    (hf : ∀ a s, (f a s).Returns) : ((p >>= f) s).Returns :=
  Meets.seq h fun a s _ => hf a s

theorem Returns.ask {op : Op} {f : Ans op → Prog S Op Ans β} (hf : ∀ ans s, (f ans s).Returns) :
    ((Prog.ask op >>= f) s).Returns :=
  ⟨trivial, fun ans s _ => hf ans s⟩

theorem Returns.run (h : o.Returns) (answer : Nat → (op : Op) → S → Ans op × S)
    (n : Nat) : ∃ a s, o.run answer n = (some a, s) := by
  rcases Meets.run h (fun _ _ _ => trivial) n with ⟨a, s, hrun, -⟩ | ⟨s, -, hfail⟩
  · exact ⟨a, s, hrun⟩
  · exact hfail.elim

/-- Run against an environment that answers by a function and leaves the state. -/
def play (answer : (op : Op) → S → Ans op) : Outcome S Op Ans α → Option α × S
  | .done a s => (some a, s)
  | .fail s => (none, s)
  | .ask op s k => (k (answer op s) s).play answer

theorem exec_play {post : (op : Op) → S → Ans op → S → Prop} {answer : (op : Op) → S → Ans op}
    (h : ∀ op s, post op s (answer op s) s) (o : Outcome S Op Ans α) :
    Exec post o (o.play answer).1 (o.play answer).2 := by
  induction o with
  | done a s => exact .done a s
  | fail s => exact .fail s
  | ask op s k ih => exact .ask (h op s) (ih (answer op s) s)

end Outcome

end BunServe
