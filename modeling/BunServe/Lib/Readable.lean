import Mathlib.Data.List.Basic

/-!
# BunServe.Lib.Readable

A readable stream and what its one reader has taken from it.

The source enqueues while the stream is open; a close lets the queue drain,
an error and a cancel drop it.  `Taken r as` is the bookkeeping of the
reader: unless the stream was broken off, what it has taken and what still
waits are all the source produced.
-/

namespace BunServe

/-- Whether more can come out of a stream. -/
inductive StreamState where
  | readable | closed | errored | cancelled
  deriving DecidableEq

/-- What one read is answered. -/
inductive ReadResult (α : Type) where
  | chunk (a : α)
  | done
  | failed
  deriving DecidableEq

structure Readable (α : Type) where
  /-- Everything the source has enqueued. -/
  produced : List α
  queue : List α
  state : StreamState
  deriving DecidableEq

namespace Readable

variable {α : Type} {r r' : Readable α} {as : List α} {a : α}

def empty : Readable α := ⟨[], [], .readable⟩

/-- A stream with all of its chunks, closed behind them. -/
def ofList (as : List α) : Readable α := ⟨as, as, .closed⟩

/-- `controller.enqueue(a)` -/
def enqueue (r : Readable α) (a : α) : Option (Readable α) :=
  if r.state = .readable then some ⟨r.produced ++ [a], r.queue ++ [a], .readable⟩ else none

/-- `controller.close()` -/
def close (r : Readable α) : Option (Readable α) :=
  if r.state = .readable then some { r with state := .closed } else none

/-- `controller.error()`; a stream that has drained after its close is settled. -/
def error (r : Readable α) : Option (Readable α) :=
  if r.state = .readable ∨ r.state = .closed ∧ r.queue ≠ [] then
    some { r with queue := [], state := .errored }
  else none

/-- `reader.cancel()` -/
def cancel (r : Readable α) : Readable α :=
  if r.state = .readable ∨ r.state = .closed ∧ r.queue ≠ [] then
    { r with queue := [], state := .cancelled }
  else r

/-- The next read, once it can be answered. -/
def pull (r : Readable α) : Option (ReadResult α × Readable α) :=
  match r.queue, r.state with
  | a :: rest, _ => some (.chunk a, { r with queue := rest })
  | [], .readable => none
  | [], .errored => some (.failed, r)
  | [], _ => some (.done, r)

/-- What the source may do between two reads. -/
def Moved (r r' : Readable α) : Prop :=
  (∃ a, r.enqueue a = some r') ∨ r.close = some r' ∨ r.error = some r'

/-- Nothing was lost between what the reader took and what waits. -/
def Taken (r : Readable α) (as : List α) : Prop :=
  r.state = .readable ∨ r.state = .closed → r.produced = as ++ r.queue

/-- The source has closed the stream and the reader has all of it. -/
def Drained (r : Readable α) (as : List α) : Prop :=
  r.state = .closed ∧ r.queue = [] ∧ r.produced = as

theorem Taken.enqueue (h : r.Taken as) (he : r.enqueue a = some r') : r'.Taken as := by
  obtain ⟨hs, rfl⟩ := by simpa [Readable.enqueue] using he
  intro _
  simp [h (.inl hs)]

theorem Taken.close (h : r.Taken as) (hc : r.close = some r') : r'.Taken as := by
  obtain ⟨hs, rfl⟩ := by simpa [Readable.close] using hc
  exact fun _ => h (.inl hs)

theorem Taken.error (he : r.error = some r') : r'.Taken as := by
  obtain ⟨-, rfl⟩ := by simpa [Readable.error] using he
  simp [Taken]

theorem Taken.moved (h : r.Taken as) (hm : r.Moved r') : r'.Taken as := by
  rcases hm with ⟨a, he⟩ | hc | he
  · exact h.enqueue he
  · exact h.close hc
  · exact .error he

theorem Moved.state (hm : r.Moved r') : r'.state ≠ .cancelled := by
  rcases hm with ⟨a, h⟩ | h | h
  · simp only [Readable.enqueue, Option.ite_none_right_eq_some, Option.some.injEq] at h
    simp [← h.2]
  · simp only [Readable.close, Option.ite_none_right_eq_some, Option.some.injEq] at h
    simp [← h.2]
  · simp only [Readable.error, Option.ite_none_right_eq_some, Option.some.injEq] at h
    simp [← h.2]

theorem Taken.chunk (h : r.Taken as) (hp : r.pull = some (.chunk a, r')) :
    r'.Taken (as ++ [a]) := by
  unfold pull at hp
  split at hp
  · next b rest hq =>
    obtain ⟨rfl, rfl⟩ := hp
    intro hs
    simp [h hs, hq]
  all_goals simp at hp

/-- A read answered `done` on a stream nobody cancelled has reached its end. -/
theorem Taken.done (h : r.Taken as) (hc : r.state ≠ .cancelled) (hp : r.pull = some (.done, r')) :
    r'.Drained as := by
  unfold pull at hp
  split at hp
  · simp at hp
  · simp at hp
  · simp at hp
  rename_i hq hr he
  simp only [Option.some.injEq, Prod.mk.injEq, true_and] at hp
  subst hp
  have hclosed : r.state = .closed := by
    cases hs : r.state with
    | readable => exact absurd hs hr
    | errored => exact absurd hs he
    | cancelled => exact absurd hs hc
    | closed => rfl
  exact ⟨hclosed, hq, by simpa [hq] using h (.inr hclosed)⟩

theorem pull_state {x : ReadResult α} (hp : r.pull = some (x, r')) : r'.state = r.state := by
  unfold pull at hp
  split at hp <;> simp_all only [Option.some.injEq, Prod.mk.injEq, reduceCtorEq]
  rw [← hp.2]

section Drained

variable (h : r.Drained as)
include h

/-- A stream read to its end does not move any more. -/
theorem Drained.not_moved : ¬ r.Moved r' := by
  simp [Moved, Readable.enqueue, Readable.close, Readable.error, h.1, h.2.1]

theorem Drained.cancel : r.cancel = r := by simp [Readable.cancel, h.1, h.2.1]

end Drained

end Readable

end BunServe
