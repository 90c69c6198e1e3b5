import BunServe.Smooth.Budget

/-!
# BunServe.Smooth.Queues

The bound of the command queues, and what an idle drain promises.

An oversized batch is cut to its newest `queueCap` entries before any of them is
examined, so a malformed entry among those takes a place that an older command
of the batch does not get.
-/

namespace BunServe.Smooth.Server

open Machine
open Budget (Rested rested_of_idle drainEntity_rested serverPhase_clears)

variable {State Cmd Data Ws : Type} {o : Config State Cmd Data} {t : Throws State Cmd}
  {a : Authority State Cmd Ws} {e : Entity State Cmd Ws} {key : String}

/-- The well-formed commands of a batch. -/
def valid (commands : List (Option (Command Cmd))) : List (Command Cmd) :=
  (commands.filterMap id).filter fun c => 0 ≤ c.id

/-- The newest `n` entries. -/
def newest {α : Type} (n : Nat) (l : List α) : List α := l.drop (l.length - n)

/-- Neither queue is longer than the cap. -/
def Bounded (o : Config State Cmd Data) (a : Authority State Cmd Ws) : Prop :=
  ∀ k own, (queued a k own).length ≤ o.queueCap

theorem queued_of_get? (h : a.entities.get? key = some e) (own : Bool) :
    queued a key own = e.queueOf own := by
  simp [queued, h]

theorem Bounded.set (h : Bounded o a) (he : ∀ own, (e.queueOf own).length ≤ o.queueCap)
    (key : String) (id : Int) : Bounded o ⟨a.entities.set key e, id⟩ := by
  intro k own
  simp only [queued, JsMap.get?_set]
  split
  · exact he own
  · exact h k own

theorem Bounded.entity (h : Bounded o a) (he : a.entities.get? key = some e) (own : Bool) :
    (e.queueOf own).length ≤ o.queueCap := by
  rw [← queued_of_get? he]
  exact h key own

variable [DecidableEq State] [DecidableEq Ws]

/-- A drain that does nothing and reports nothing. -/
def silent (a : Authority State Cmd Ws) : Outcome State Cmd Data Ws :=
  ⟨⟨[], [], [], true⟩, none, a, []⟩

end BunServe.Smooth.Server
