import BunServe.Lib.Machine
import Mathlib.Logic.Function.Basic

/-!
# BunServe.Channel

The client channel of one CRDT document (`plugins/crdt/channel.js`): the local
replica, the sync exchange that keeps it converged with the server, and the
timers that bring the exchange about.

A sync is a chain of promise reactions: the request leaves, the transport
answers, the reply is handled, and what the handler throws is caught.  Each
link is an action of its own, as are the timers, the status changes, the
frames and the local edits, so a run of the machine is any order in which they
can come; an app callback that calls back into the channel is the next action.

The document library enters through `Replica`, over an arbitrary type of
documents `D`, of updates `U` and of state vectors `V`.
-/

namespace BunServe.Channel

/-- The document library, as the channel uses it; `none` is a throw. -/
structure Replica (D U V : Type) where
  doc : D
  applyUpdate : D → U → Option D
  /-- `store.pendingStructs || store.pendingDs` -/
  pending : D → Bool
  encodeStateVector : D → Option V
  /-- The vector sent when encoding throws: `[]`. -/
  noVector : V
  encodeStateAsUpdate : D → V → Option U
  isEmptyUpdate : U → Bool
  /-- Bytes of length zero. -/
  noBytes : U → Bool
  noVectorBytes : V → Bool

/-- The options of `createCrdtChannel`, as normalised. -/
structure Options where
  reconcileIntervalMs : Nat := 30000
  hasClose : Bool := true

/-- `{ read, write, comment }` -/
structure Access where
  read : Bool
  write : Bool
  comment : Bool
  deriving DecidableEq

/-- The reply of the transport: an absent or malformed field is `none`. -/
structure Reply (U V : Type) where
  topic : Option String
  access : Option Access
  diff : Option U
  sv : Option V

/-- How the transport settles a sync: an object, something else, a rejection. -/
inductive Answer (U V : Type) where
  | reply (r : Reply U V)
  | nothing
  | rejected

/-- How far the promise chain of a sync has come. -/
inductive Phase (U V : Type) where
  | queued
  | sent
  | answered (a : Answer U V)
  | discarded
  | threw
  | settled

/-- One sync: the generation it was issued under and the vector it sends. -/
structure Sync (U V : Type) where
  gen : Nat
  sv : V
  phase : Phase U V

/-- What leaves through the transport. -/
inductive Sent (U V : Type) where
  | update (u : U)
  | sync (sv : V)
  | close
  deriving DecidableEq

/-- What the state callback is told. -/
structure Notice where
  synced : Bool
  degraded : Bool
  access : Option Access
  deriving DecidableEq

structure State (D U V : Type) where
  doc : D
  destroyed : Bool
  synced : Bool
  everSynced : Bool
  degraded : Bool
  syncGen : Nat
  /-- `none` for -1. -/
  syncInFlightGen : Option Nat
  lastStatus : String
  access : Option Access
  wireTopic : Option String
  tapped : Bool
  retryTimer : Bool
  pendingResyncTimer : Bool
  reconcileTimer : Bool
  presyncBuffer : List (String × U)
  /-- A state callback is registered. -/
  listening : Bool
  notices : List Notice
  syncs : Nat → Sync U V
  nextSync : Nat
  sent : List (Sent U V)

section Operations

variable {D U V : Type}

/-- `PRESYNC_BUFFER_CAP` -/
def presyncBufferCap : Nat := 256

/-- `CRDT_TOPIC_PREFIX` -/
def crdtTopicPrefix : String := "__crdt:"

/-- A new channel, before the status store has delivered its value. -/
def State.init (o : Options) (p : Replica D U V) : State D U V where
  doc := p.doc
  destroyed := false
  synced := false
  everSynced := false
  degraded := false
  syncGen := 0
  syncInFlightGen := none
  lastStatus := ""
  access := none
  wireTopic := none
  tapped := false
  retryTimer := false
  pendingResyncTimer := false
  reconcileTimer := o.reconcileIntervalMs ≠ 0
  presyncBuffer := []
  listening := false
  notices := []
  syncs := fun _ => ⟨0, p.noVector, .queued⟩
  nextSync := 0
  sent := []

/-- The promise chain of the sync `i` comes to `phase`. -/
def State.setPhase (s : State D U V) (i : Nat) (phase : Phase U V) : State D U V :=
  { s with syncs := Function.update s.syncs i { s.syncs i with phase := phase } }

def notifyState (s : State D U V) : State D U V :=
  if s.listening ∧ !s.destroyed then
    { s with notices := s.notices ++ [⟨s.synced, s.degraded, s.access⟩] }
  else s

def setDegraded (s : State D U V) (value : Bool) : State D U V :=
  if s.degraded = value then s else notifyState { s with degraded := value }

/-- A dependency gap schedules one resync. -/
def checkPending (p : Replica D U V) (s : State D U V) : State D U V :=
  if s.destroyed ∨ s.pendingResyncTimer then s
  else if p.pending s.doc then { s with pendingResyncTimer := true } else s

def applyRemote (p : Replica D U V) (s : State D U V) (u : U) : State D U V :=
  if p.noBytes u then s
  else match p.applyUpdate s.doc u with
    | none => s
    | some doc => checkPending p { s with doc := doc }

def clearRetry (s : State D U V) : State D U V := { s with retryTimer := false }

def scheduleRetry (s : State D U V) : State D U V :=
  if s.destroyed ∨ s.retryTimer then s else { s with retryTimer := true }

/-- `resync`: issue a sync, unless one of this generation is in flight. -/
def resync (p : Replica D U V) (s : State D U V) : State D U V :=
  if s.destroyed then s
  else if s.syncInFlightGen = some s.syncGen then s
  else { s with
    syncInFlightGen := some s.syncGen
    syncs := Function.update s.syncs s.nextSync
      ⟨s.syncGen, (p.encodeStateVector s.doc).getD p.noVector, .queued⟩
    nextSync := s.nextSync + 1 }

/-! ## one sync -/

/-- The request leaves, unless its generation is over by then. -/
def send (s : State D U V) (i : Nat) : Option (State D U V) :=
  match (s.syncs i).phase with
  | .queued =>
    if i < s.nextSync then
      if s.destroyed ∨ (s.syncs i).gen ≠ s.syncGen then some (s.setPhase i .discarded)
      else some { s.setPhase i .sent with sent := s.sent ++ [.sync (s.syncs i).sv] }
    else none
  | _ => none

def answer (s : State D U V) (i : Nat) (a : Answer U V) : Option (State D U V) :=
  match (s.syncs i).phase with
  | .sent => if i < s.nextSync then some (s.setPhase i (.answered a)) else none
  | _ => none

/-- `if (syncInFlightGen === gen) syncInFlightGen = -1` -/
def leaveFlight (s : State D U V) (gen : Nat) : State D U V :=
  { s with syncInFlightGen := if s.syncInFlightGen = some gen then none else s.syncInFlightGen }

def failSync (s : State D U V) : State D U V := scheduleRetry (setDegraded s true)

/-- The first reply that names the topic binds the taps. -/
def learnTopic (s : State D U V) (r : Reply U V) : State D U V :=
  match s.wireTopic, r.topic with
  | none, some topic =>
    if topic ≠ "" then { s with wireTopic := some (crdtTopicPrefix ++ topic), tapped := true }
    else s
  | _, _ => s

/-- The access record of the reply, and whether it changed. -/
def learnAccess (s : State D U V) (r : Reply U V) : State D U V × Bool :=
  match r.access with
  | some next => ({ s with access := some next }, s.access ≠ some next)
  | none => (s, false)

/-- The frames that raced past the diff. -/
def replay (p : Replica D U V) (s : State D U V) : State D U V :=
  s.presyncBuffer.foldl
    (fun s f => if some f.1 = s.wireTopic then applyRemote p s f.2 else s)
    { s with presyncBuffer := [] }

/-- What the server lacks, if this mount may send it. -/
def upload (p : Replica D U V) (s : State D U V) (r : Reply U V) : Option U :=
  match r.sv with
  | none => none
  | some sv =>
    if s.access.all (·.write) ∧ !p.noVectorBytes sv then
      (p.encodeStateAsUpdate s.doc sv).filter fun mine => !p.isEmptyUpdate mine
    else none

def completeSync (s : State D U V) (accessChanged : Bool) : State D U V :=
  let s := { s with everSynced := true }
  if s.lastStatus ≠ "open" then s
  else
    let wasSynced := s.synced
    let s := clearRetry { s with synced := true }
    if s.degraded then setDegraded s false
    else if !wasSynced ∨ accessChanged then notifyState s
    else s

/-- What the reply brings: the topic, the access, the diff and the frames. -/
def takeReply (p : Replica D U V) (s : State D U V) (r : Reply U V) : State D U V × Bool :=
  let (s, accessChanged) := learnAccess (learnTopic s r) r
  let s := match r.diff with
    | some diff => applyRemote p s diff
    | none => s
  (replay p s, accessChanged)

/-- The handler of a reply of the current generation; `throws` is whether the
transport throws on the upload.  Returns whether the handler threw. -/
def onReply (p : Replica D U V) (s : State D U V) (r : Reply U V) (throws : Bool) :
    State D U V × Bool :=
  let (s, accessChanged) := takeReply p s r
  if s.wireTopic = none then (failSync s, false)
  else match upload p s r with
    | none => (completeSync s accessChanged, false)
    | some mine =>
      if throws then (s, true)
      else (completeSync { s with sent := s.sent ++ [.update mine] } accessChanged, false)

/-- The last reaction of the sync `i`, which failed. -/
def onFailure (s : State D U V) (i : Nat) : State D U V :=
  let gen := (s.syncs i).gen
  let s := leaveFlight (s.setPhase i .settled) gen
  if s.destroyed ∨ gen ≠ s.syncGen then s else failSync s

/-- The reaction of the sync `i`: to its answer, or to what its handler threw. -/
def react (p : Replica D U V) (s : State D U V) (i : Nat) (throws : Bool) :
    Option (State D U V) :=
  let gen := (s.syncs i).gen
  if i < s.nextSync then
    match (s.syncs i).phase with
    | .discarded => some (leaveFlight (s.setPhase i .settled) gen)
    | .answered .rejected => some (onFailure s i)
    | .answered .nothing => some (onFailure s i)
    | .answered (.reply r) =>
      if s.destroyed ∨ gen ≠ s.syncGen then some (leaveFlight (s.setPhase i .settled) gen)
      else
        let (t, threw) := onReply p (leaveFlight s gen) r throws
        some (t.setPhase i (if threw then .threw else .settled))
    | .threw => some (onFailure s i)
    | _ => none
  else none

/-! ## status and frames -/

def onStatus (p : Replica D U V) (s : State D U V) (status : String) : State D U V :=
  let changed := status ≠ s.lastStatus
  let s := { s with lastStatus := status }
  if s.destroyed then s
  else
    let s := if changed then { s with syncGen := s.syncGen + 1 } else s
    if status = "open" then resync p { s with synced := false }
    else if s.synced then notifyState { s with synced := false }
    else s

/-- An update or a snapshot frame. -/
def onFrame (p : Replica D U V) (s : State D U V) (topic : String) (bytes : U) : State D U V :=
  if s.destroyed then s
  else match s.wireTopic with
    | some wire => if topic = wire then applyRemote p s bytes else s
    | none =>
      if s.syncInFlightGen = none then s
      else
        let kept := if presyncBufferCap ≤ s.presyncBuffer.length then s.presyncBuffer.tail
          else s.presyncBuffer
        { s with presyncBuffer := kept ++ [(topic, bytes)] }

/-- An envelope on the JSON tap. -/
def onTap (p : Replica D U V) (s : State D U V) (bytes : U) : State D U V :=
  if s.destroyed ∨ !s.tapped then s else applyRemote p s bytes

/-- A local transaction, with the update it emits; a read-only mount throws. -/
def edit (p : Replica D U V) (s : State D U V) (u : U) : State D U V :=
  if s.access.all (·.write) then
    let s := { s with doc := (p.applyUpdate s.doc u).getD s.doc }
    if s.destroyed ∨ !s.synced then s else { s with sent := s.sent ++ [.update u] }
  else s

def onState (s : State D U V) : State D U V := notifyState { s with listening := true }

/-! ## timers -/

def fireRetry (p : Replica D U V) (s : State D U V) : Option (State D U V) :=
  if s.retryTimer then
    let s := { s with retryTimer := false }
    if s.destroyed ∨ s.lastStatus ≠ "open" then some s
    else if !s.synced ∨ s.degraded ∨ p.pending s.doc then some (resync p s)
    else some s
  else none

def firePendingResync (p : Replica D U V) (s : State D U V) : Option (State D U V) :=
  if s.pendingResyncTimer then
    let s := { s with pendingResyncTimer := false }
    if s.destroyed then some s else if p.pending s.doc then some (resync p s) else some s
  else none

def scheduleReconcile (o : Options) (s : State D U V) : State D U V :=
  if s.destroyed ∨ o.reconcileIntervalMs = 0 ∨ s.reconcileTimer then s
  else { s with reconcileTimer := true }

def fireReconcile (o : Options) (p : Replica D U V) (s : State D U V) : Option (State D U V) :=
  if s.reconcileTimer then
    let s := { s with reconcileTimer := false }
    if s.destroyed then some s
    else if s.lastStatus = "open" ∧ s.synced ∧ !s.degraded ∧ s.syncInFlightGen = none then
      some (scheduleReconcile o (resync p s))
    else some (scheduleReconcile o s)
  else none

def destroy (o : Options) (s : State D U V) : State D U V :=
  if s.destroyed then s
  else { s with
    destroyed := true
    sent := if s.everSynced ∧ o.hasClose then s.sent ++ [.close] else s.sent
    tapped := false
    retryTimer := false
    pendingResyncTimer := false
    reconcileTimer := false
    presyncBuffer := []
    listening := false }

/-! ## the machine -/

/-- What can happen to a channel. -/
inductive Action (U V : Type) where
  | status (s : String)
  | resync
  | send (i : Nat)
  | answer (i : Nat) (a : Answer U V)
  | react (i : Nat) (throws : Bool)
  | frame (topic : String) (bytes : U)
  | tap (bytes : U)
  | edit (u : U)
  | onState
  | retry
  | pendingResync
  | reconcile
  | destroy

def machine (o : Options) (p : Replica D U V) : Machine (State D U V) (Action U V) where
  init := .init o p
  next s
    | .status status => some (onStatus p s status)
    | .resync => some (resync p s)
    | .send i => send s i
    | .answer i a => answer s i a
    | .react i throws => react p s i throws
    | .frame topic bytes => some (onFrame p s topic bytes)
    | .tap bytes => some (onTap p s bytes)
    | .edit u => some (edit p s u)
    | .onState => some (onState s)
    | .retry => fireRetry p s
    | .pendingResync => firePendingResync p s
    | .reconcile => fireReconcile o p s
    | .destroy => some (destroy o s)

end Operations

end BunServe.Channel
