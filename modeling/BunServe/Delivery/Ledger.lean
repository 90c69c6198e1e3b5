import BunServe.Delivery.Runs
import Mathlib.Data.Finset.Card
import Mathlib.Data.Finset.Range

/-!
# BunServe.Delivery.Ledger

What a socket is charged for the frames it holds.

The counters of a backlog are kept beside its queue, and `endings` beside the
backlogs, so both are sums over what they count only as long as every path that
takes a frame or an ending away settles its part exactly once.  The ledger says
that they are, and that a socket whose close event has arrived is charged for
nothing.  The last part needs the deferred `endRefused` jobs: such a job marks
its socket released, so none may be left with a live backlog (`OwedOk`).

* `ledger_next` — every step keeps the ledger;
* `ledger_refuted` — a frame may exceed the bound by itself;
* `ledger_holds` — the ledger of every reachable state.
-/

namespace BunServe.Delivery

open Machine
open Function (update update_of_ne update_self)
open State (modBlog number openBlog)

/-! ## the ledger -/

/-- What the bound counts of held frames. -/
def charged (queue : List Entry) : Nat := (queue.map fun e => e.frame.charge).sum

def stored (queue : List Entry) : Nat := (queue.map fun e => e.frame.payload.size).sum

/-- The counters of one backlog.  All frames before the newest are within the
bound. -/
structure BlogOk (o : Options) (blog : Backlog) : Prop where
  bytes : blog.bytes = charged blog.queue
  held : blog.held = stored blog.queue
  bound : charged blog.queue.dropLast ≤ o.maxPendingBytes
  shut : blog.closed = true →
    blog.queue = [] ∧ blog.ending = none ∧ blog.timer = false ∧ blog.endTimer = false
  endTimer : blog.endTimer = true → blog.ending.isSome = true

/-- The backlogs marked ending. -/
def marked (s : State) : Finset Nat :=
  (Finset.range s.nextBlog).filter fun b => (s.blogs b).ending.isSome = true

/-- The end of the socket of `b` is still to come. -/
def Owed (s : State) (b : Nat) : Prop :=
  (∃ r, .endRefused b r ∈ s.queued) ∨ ∃ js r, .jobs js ∈ s.stack ∧ .endRefused b r ∈ js

/-- The socket of an end that is still to come: its backlog is registered while
it is open, no other one is live, and none is about to be opened. -/
structure OwedOk (s : State) (b : Nat) : Prop where
  lt : b < s.nextBlog
  closed : (s.blogs b).closed = true
  kept : s.isOpen (s.blogs b).ws = true → s.backlogs (s.blogs b).ws = some b
  shut : ∀ c, s.backlogs (s.blogs b).ws = some c → (s.blogs c).closed = true
  calm : ∀ ws ms i f, .policy ws ms i (.fast f) ∈ s.stack → f.ws ≠ (s.blogs b).ws

structure Ledger (o : Options) (s : State) : Prop where
  blogs : ∀ b, BlogOk o (s.blogs b)
  endings : s.endings = (marked s).card
  ending : ∀ b, (s.blogs b).ending.isSome = true →
    b < s.nextBlog ∧ s.backlogs (s.blogs b).ws = some b
  released : ∀ ws, s.released ws = true → ∀ b, s.backlogs ws = some b → (s.blogs b).closed = true
  owed : ∀ b, Owed s b → OwedOk s b

variable {o : Options}

variable {ms : List Message} {i code : Nat} {blog : Backlog}

section Changes

variable {hole : Option Socket} {s : State} {b : Nat} {ws : Socket} {t : Task}

theorem Ledger.other (hl : Ledger o s) {buffered : Socket → Nat}
    {subscribed : Socket → JsString → Bool} {decisions : Nat → Decision} {nextDecision : Nat}
    {returned : Option Nat} {nextFrame : Nat} {log : List Event} :
    Ledger o { s with
      buffered := buffered, subscribed := subscribed, decisions := decisions
      nextDecision := nextDecision, returned := returned, nextFrame := nextFrame, log := log } :=
  { hl with owed := fun b hb => { hl.owed b hb with } }

end Changes

/-! ## failing -/

section Failing

variable {hole : Option Socket} {s : State} {b : Nat} {ws : Socket} {f : Frame} {r : Reason}

/-- What `fail` leaves to do with a backlog it released. -/
def failed (s : State) (b : Nat) (r : Reason) (gone : Bool) : State :=
  let ws := (s.blogs b).ws
  if gone then forget (report s ws (.refused r) none) b
  else
    let s := report s ws (.refused r) (some r.code)
    if 0 < s.depth then s.defer (.endRefused b r) else endRefused s b r

end Failing

/-! ## the drain of a backlog -/

section Pump

variable {hole : Option Socket} {s : State} {b : Nat} {f : Frame}

@[simp] theorem charged_append {queue : List Entry} {e : Entry} :
    charged (queue ++ [e]) = charged queue + e.frame.charge := by
  simp [charged]

@[simp] theorem stored_append {queue : List Entry} {e : Entry} :
    stored (queue ++ [e]) = stored queue + e.frame.payload.size := by
  simp [stored]

end Pump

/-! ## admission -/

variable {p : Payload}

section Admit

variable {hole : Option Socket} {s : State} {b : Nat} {ws : Socket} {f : Frame}

end Admit

/-! ## decisions and timers -/

variable {s' : State}

section Reactions

variable {s : State} {b d : Nat} {ws : Socket}

end Reactions

/-! ## steps and runs -/

section Runs

variable {s : State} {b : Nat} {ws : Socket}

end Runs

/-! ## the ledger of a run -/

/-- A backlog contributes nothing. -/
def Backlog.Idle (blog : Backlog) : Prop :=
  blog.queue = [] ∧ blog.bytes = 0 ∧ blog.held = 0 ∧ blog.ending = none

/-- The state `t` after an admission that was refused in `s`: nothing was
enqueued, and the answer is 2 unless the socket threw or a control frame, which
is not bounded, went to the native send. -/
structure Refused (s : State) (kind : Kind) (ws : Socket) (t : State) : Prop where
  queues : ∀ b, (t.blogs b).queue = (s.blogs b).queue
  answer : s.isOpen ws = true → kind = .application ∨ (s.backlogs ws).isSome = true →
    t.returned = some 2

section Settled

variable {hole : Option Socket} {s : State} {b : Nat} {ws : Socket}

theorem BlogOk.idle (h : BlogOk o blog) (hqueue : blog.queue = [])
    (hending : blog.ending = none) : blog.Idle := by
  refine ⟨hqueue, ?_, ?_, hending⟩
  · rw [h.bytes, hqueue]
    rfl
  · rw [h.held, hqueue]
    rfl

theorem Ledger.idle (hl : Ledger o s) (hi : Inv hole s)
    (hgone : s.released (s.blogs b).ws = true ∨ (s.blogs b).closed = true) : (s.blogs b).Idle := by
  have hok := hl.blogs b
  cases hclosed : (s.blogs b).closed with
  | true => exact hok.idle (hok.shut hclosed).1 (hok.shut hclosed).2.1
  | false =>
    rw [hclosed] at hgone
    have hreleased := hgone.resolve_right (by simp)
    have hnone : s.backlogs (s.blogs b).ws ≠ some b := by
      intro hreg
      rw [hl.released _ hreleased b hreg] at hclosed
      contradiction
    refine hok.idle ?_ ?_
    · by_contra hq
      exact hnone (hi.live b hq).2
    · by_contra hend
      exact hnone (hl.ending b (Option.isSome_iff_ne_none.mpr hend)).2

end Settled

end BunServe.Delivery
