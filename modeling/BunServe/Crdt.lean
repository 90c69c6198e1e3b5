import BunServe.Lib.Machine
import BunServe.Lib.JsMap
import Mathlib.Logic.Function.Basic

/-!
# BunServe.Crdt

The document authority of the CRDT plugin (`plugins/crdt/replica.js`): one
replica per topic, its persistence schedule, the chained store attempts and
the bounded flush.

Records and store attempts live in heaps, since both outlive the registry
`topics`: a record that was dropped is still captured by the callbacks that
were registered on it.  Every promise reaction and timer callback of the
source is an action of its own, enabled once what it waits for has settled, so
a run of the machine is any order in which they can be delivered; a host hook
that calls back into the authority is the next action.

Yjs enters through `Yjs`: whether an update is malformed and whether it
changes the document.  A document is the list of updates merged so far, and
`encodeStateAsUpdate` captures all of it.
-/

namespace BunServe.Crdt

open Function (update)

/-! ## configuration -/

/-- The verdicts of the document library on one update. -/
structure Yjs (U : Type) where
  malformed : List U → U → Bool
  changes : List U → U → Bool
  /-- `u8.length <= MAX_CACHED_NOOP_BYTES` -/
  cacheable : U → Bool

/-- The options of `createCrdtAuthority`, as accepted; a `none` timeout is
`Infinity`. -/
structure Options where
  hasLoad : Bool := true
  hasStore : Bool := true
  debounceWait : Nat := 2000
  debounceMaxWait : Nat := 10000
  snapshotEvery : {n : Nat // 1 ≤ n} := ⟨200, by decide⟩
  flushTimeout : Option Nat := some 10000
  persistOnEmpty : Bool := true

/-! ## the state -/

/-- The outcome of one store attempt. -/
inductive Outcome where
  | durable | declined | failed
  deriving DecidableEq

/-- The host's answer to `persist.store`: `false` declines. -/
inductive StoreAnswer where
  | resolved (value : Bool)
  | rejected
  deriving DecidableEq

/-- How far a store attempt has come: behind the previous one, with the host,
answered, its rejection reported, settled. -/
inductive StorePhase where
  | queued
  | issued
  | answered (a : StoreAnswer)
  | skipped
  | reported
  | settled (o : Outcome)
  deriving DecidableEq

/-- One store attempt: its handle, what it captured, and the promise that the
next attempt waits behind. -/
structure Attempt (U : Type) where
  record : Nat
  blob : List U
  attempt : Nat
  behind : Option Nat
  waiters : List Nat
  abandoned : Bool
  silent : Bool
  phase : StorePhase
  deadline : Option Nat
  chain : Option Outcome

/-- What `persist.load` comes back with. -/
inductive LoadAnswer (U : Type) where
  | nothing
  | bytes (doc : List U)
  | notBytes
  | rejected

/-- How far the load of a record has come. -/
inductive LoadPhase (U : Type) where
  | queued
  | issued
  | answered (a : LoadAnswer U)
  | done
  | failed

/-- A topic record.  `accepted` lists the updates that `applyUpdate` has
accepted on it. -/
structure TopicRecord (U : Type) where
  topic : String
  doc : List U
  accepted : List U
  refs : Nat
  load : LoadPhase U
  loadInflight : Bool
  loadSilent : Bool
  dirty : Bool
  lastNoop : Option U
  updatesSinceStore : Nat
  debounceTimer : Option Nat
  maxWaitStart : Option Nat
  storing : Option Nat
  newest : Option Nat
  storeAttempt : Nat
  inflight : List Nat
  unloading : Bool
  /-- The unload checks that `release` registered, by the chain they wait on. -/
  checks : List (Option Nat)

inductive FlushOutcome where
  | stored (o : Outcome)
  | timedOut
  deriving DecidableEq

/-- The report of `persistNow`. -/
structure FlushResult where
  ok : Bool
  durable : List String
  declined : List String
  failed : List String
  timedOut : List String
  dirty : List String
  deriving DecidableEq

/-- A topic that a flush still waits on, and the chain it waits for. -/
structure Wait where
  topic : String
  record : Nat
  chain : Option Nat
  deriving DecidableEq

structure Flush where
  targets : List (String × Nat)
  deadline : Option Nat
  pending : List Wait
  outcomes : List (String × FlushOutcome)
  timer : Option Nat
  result : Option FlushResult

/-- The failing operation that `onError` is told. -/
inductive Op where
  | load | store
  deriving DecidableEq

structure State (U : Type) where
  topics : JsMap String Nat
  recs : Nat → TopicRecord U
  nextRec : Nat
  attempts : Nat → Attempt U
  nextAttempt : Nat
  flushes : Nat → Flush
  nextFlush : Nat
  /-- The acquires that have not gone through yet, by their record. -/
  acquires : List Nat
  errors : List (String × Op)
  now : Nat
  destroyed : Bool

/-- A record as `ensure` creates it. -/
def TopicRecord.fresh {U : Type} (topic : String) : TopicRecord U where
  topic := topic
  doc := []
  accepted := []
  refs := 0
  load := .queued
  loadInflight := true
  loadSilent := false
  dirty := false
  lastNoop := none
  updatesSinceStore := 0
  debounceTimer := none
  maxWaitStart := none
  storing := none
  newest := none
  storeAttempt := 0
  inflight := []
  unloading := false
  checks := []

/-- A fresh authority. -/
def State.init {U : Type} : State U where
  topics := .empty
  recs := fun _ => .fresh ""
  nextRec := 0
  attempts := fun _ => ⟨0, [], 0, none, [], false, false, .queued, none, none⟩
  nextAttempt := 0
  flushes := fun _ => ⟨[], none, [], [], none, none⟩
  nextFlush := 0
  acquires := []
  errors := []
  now := 0
  destroyed := false

section Operations

variable {U : Type}

/-- `rec.loaded` -/
def TopicRecord.loaded (rec : TopicRecord U) : Bool :=
  match rec.load with
  | .done => true
  | _ => false

/-- Update the record `r`. -/
def State.modRec (s : State U) (r : Nat) (f : TopicRecord U → TopicRecord U) : State U :=
  { s with recs := update s.recs r (f (s.recs r)) }

/-- Update the attempt `h`. -/
def State.modAttempt (s : State U) (h : Nat) (f : Attempt U → Attempt U) : State U :=
  { s with attempts := update s.attempts h (f (s.attempts h)) }

def State.addAttempt (s : State U) (a : Attempt U) : State U :=
  { s with
    attempts := update s.attempts s.nextAttempt a
    nextAttempt := s.nextAttempt + 1 }

/-- Add a fresh record for `topic`, at the next index. -/
def State.addRec (s : State U) (topic : String) : State U :=
  { s with
    topics := s.topics.set topic s.nextRec
    recs := update s.recs s.nextRec (.fresh topic)
    nextRec := s.nextRec + 1 }

/-- Update the flush `f`. -/
def State.modFlush (s : State U) (f : Nat) (g : Flush → Flush) : State U :=
  { s with flushes := update s.flushes f (g (s.flushes f)) }

/-- `topics.get(topic) === rec` -/
def State.registered (s : State U) (r : Nat) : Bool :=
  s.topics.get? (s.recs r).topic = some r

/-- `destroyed || topics.get(topic) !== rec` -/
def State.gone (s : State U) (r : Nat) : Bool := s.destroyed || !s.registered r

/-! ## the schedule -/

def clearSchedule (rec : TopicRecord U) : TopicRecord U :=
  { rec with debounceTimer := none, maxWaitStart := none }

/-- `armRetry`: the recovery timer, unless one is armed. -/
def armRetry (o : Options) (s : State U) (r : Nat) : State U :=
  if (s.recs r).debounceTimer.isSome then s
  else s.modRec r fun rec =>
    { rec with debounceTimer := some (s.now + max 1000 o.debounceMaxWait) }

/-- The flag and timer of a record whose capture did not confirm. -/
def keepDirty (o : Options) (s : State U) (r attempt : Nat) : State U :=
  armRetry o (s.modRec r fun rec => { rec with storeAttempt := attempt, dirty := true }) r

/-- `abandon`: stop waiting on the attempt `h` of the record `r`. -/
def abandon (o : Options) (s : State U) (r h : Nat) (silent : Bool) : State U :=
  if (s.attempts h).abandoned then s
  else
    let s := s.modAttempt h fun a =>
      { a with abandoned := true, silent := silent, chain := a.chain.or (some .failed) }
    let s := s.modRec r fun rec => { rec with inflight := rec.inflight.filter (· ≠ h) }
    if silent then s
    else if s.gone r then s
    else keepDirty o s r (s.attempts h).attempt

/-- `abortInFlight`: silently abandon every call of a record. -/
def abortInFlight (o : Options) (s : State U) (r : Nat) : State U :=
  let s := (s.recs r).inflight.foldl (fun s h => abandon o s r h true) s
  s.modRec r fun rec =>
    { rec with loadInflight := false, loadSilent := rec.loadSilent || rec.loadInflight }

/-- `unload`: forget the topic. -/
def unload (o : Options) (s : State U) (r : Nat) : State U :=
  let s := abortInFlight o (s.modRec r clearSchedule) r
  if s.registered r then { s with topics := s.topics.delete (s.recs r).topic } else s

/-- `storeNow`: capture the state and chain its store.  Returns the chain that
settles with this attempt. -/
def storeNow (o : Options) (s : State U) (r : Nat) (flush : Option Nat) : State U × Option Nat :=
  let s := s.modRec r fun rec =>
    { clearSchedule rec with dirty := false, updatesSinceStore := 0 }
  let kept := s.recs r
  if !o.hasStore then (s, kept.storing)
  else
    let h := s.nextAttempt
    let handle : Attempt U := {
      record := r, blob := kept.doc, attempt := kept.storeAttempt + 1, behind := kept.storing,
      waiters := flush.toList, abandoned := false, silent := false, phase := .queued,
      deadline := none, chain := none }
    ((s.addAttempt handle).modRec r fun rec =>
      { rec with inflight := rec.inflight ++ [h], newest := some h, storing := some h }, some h)

/-- `scheduleStore`: the trailing debounce, bounded by the max wait. -/
def scheduleStore (o : Options) (s : State U) (r : Nat) : State U :=
  if !o.hasStore then s
  else s.modRec r fun rec =>
    let start := rec.maxWaitStart.getD s.now
    { rec with
      maxWaitStart := some start
      debounceTimer := some (s.now + min o.debounceWait (start + o.debounceMaxWait - s.now)) }

/-- The debounce or retry timer of `r` fires. -/
def timer (o : Options) (s : State U) (r : Nat) : Option (State U) :=
  match (s.recs r).debounceTimer with
  | none => none
  | some due =>
    if due ≤ s.now then
      let s := s.modRec r fun rec => { rec with debounceTimer := none }
      if s.gone r ∨ !(s.recs r).dirty then some s else some (storeNow o s r none).1
    else none

/-! ## one store attempt -/

/-- The value a chain has settled with; the initial promise counts as durable. -/
def State.chainValue (s : State U) : Option Nat → Option Outcome
  | none => some .durable
  | some h => (s.attempts h).chain

/-- `waiterDeadline`: the latest deadline of the waiters, if all have one. -/
def waiterDeadline (s : State U) (waiters : List Nat) : Option Nat :=
  if waiters.all fun f => (s.flushes f).deadline.isSome then
    (waiters.filterMap fun f => (s.flushes f).deadline).max?
  else none

/-- The chain before `h` has settled: issue the store, unless it was abandoned. -/
def dispatch (s : State U) (h : Nat) : Option (State U) :=
  let a := s.attempts h
  if h < s.nextAttempt ∧ a.phase = .queued ∧ (s.chainValue a.behind).isSome then
    some (s.modAttempt h fun a =>
      if a.abandoned then { a with phase := .skipped }
      else { a with phase := .issued, deadline := waiterDeadline s a.waiters })
  else none

def answer (s : State U) (h : Nat) (ans : StoreAnswer) : Option (State U) :=
  if h < s.nextAttempt ∧ (s.attempts h).phase = .issued then
    some (s.modAttempt h fun a => { a with phase := .answered ans })
  else none

/-- The attempt settles with `o`. -/
def settleAs (s : State U) (h : Nat) (o : Outcome) : State U :=
  s.modAttempt h fun a => { a with phase := .settled o }

/-- `rec.inflight.delete(handle)` -/
def leaveInflight (s : State U) (h : Nat) : State U :=
  s.modRec (s.attempts h).record fun rec => { rec with inflight := rec.inflight.filter (· ≠ h) }

/-- The reaction to a resolved store. -/
def onResolved (o : Options) (s : State U) (h : Nat) (value : Bool) : State U :=
  let a := s.attempts h
  let r := a.record
  let s := leaveInflight s h
  if a.abandoned then settleAs s h .failed
  else
    let outcome : Outcome := if value then .durable else .declined
    let s := settleAs s h outcome
    if s.gone r then s
    else if (s.recs r).newest ≠ some h then s
    else if outcome = .declined then
      let s := s.modRec r fun rec => { rec with storeAttempt := a.attempt, dirty := true }
      if (s.recs r).unloading ∧ (s.recs r).refs = 0 then unload o s r else armRetry o s r
    else
      let s := s.modRec r fun rec => { rec with storeAttempt := 0 }
      if (s.recs r).unloading ∧ (s.recs r).refs = 0 then
        if (s.recs r).dirty then (storeNow o s r none).1 else unload o s r
      else s

/-- The reaction to a rejected store, up to the report to the host. -/
def onRejected (s : State U) (h : Nat) : State U :=
  let a := s.attempts h
  let s := leaveInflight s h
  let s := s.modAttempt h fun a => { a with phase := .reported }
  if !a.silent ∧ !s.destroyed then
    { s with errors := s.errors ++ [((s.recs a.record).topic, .store)] }
  else s

/-- The reaction to a rejected store, after the report. -/
def afterReport (o : Options) (s : State U) (h : Nat) : State U :=
  let a := s.attempts h
  let s := settleAs s h .failed
  if a.abandoned then s
  else if s.gone a.record then s
  else if (s.recs a.record).newest ≠ some h then s
  else keepDirty o s a.record a.attempt

/-- The reactions chained on the host's answer. -/
def react (o : Options) (s : State U) (h : Nat) : Option (State U) :=
  if h < s.nextAttempt then
    match (s.attempts h).phase with
    | .answered (.resolved value) => some (onResolved o s h value)
    | .skipped => some (onResolved o s h true)
    | .answered .rejected => some (onRejected s h)
    | .reported => some (afterReport o s h)
    | _ => none
  else none

/-- The chain of a settled attempt settles too, if it was not released. -/
def chainSettle (s : State U) (h : Nat) : Option (State U) :=
  if h < s.nextAttempt then
    match (s.attempts h).phase with
    | .settled o => some (s.modAttempt h fun a => { a with chain := a.chain.or (some o) })
    | _ => none
  else none

/-! ## holders -/

/-- `acquire`: find or create the record; the reference is taken when its load
is through (`acquired`). -/
def acquire (s : State U) (topic : String) : State U :=
  if s.destroyed then s
  else match s.topics.get? topic with
    | some r =>
      { s.modRec r fun rec => { rec with unloading := false } with acquires := s.acquires ++ [r] }
    | none => { s.addRec topic with acquires := s.acquires ++ [s.nextRec] }

/-- The load is issued; without a hook it answers nothing. -/
def loadDispatch (o : Options) (s : State U) (r : Nat) : Option (State U) :=
  match (s.recs r).load with
  | .queued =>
    if r < s.nextRec then
      some (s.modRec r fun rec =>
        { rec with load := if o.hasLoad then .issued else .answered .nothing })
    else none
  | _ => none

def loadAnswer (s : State U) (r : Nat) (ans : LoadAnswer U) : Option (State U) :=
  match (s.recs r).load with
  | .issued => some (s.modRec r fun rec => { rec with load := .answered ans })
  | _ => none

def loadFailed (o : Options) (s : State U) (r : Nat) : State U :=
  let silent := (s.recs r).loadSilent
  let s := unload o (s.modRec r fun rec => { rec with load := .failed }) r
  if !silent ∧ !s.destroyed then { s with errors := s.errors ++ [((s.recs r).topic, .load)] }
  else s

def loadReact (o : Options) (s : State U) (r : Nat) : Option (State U) :=
  match (s.recs r).load with
  | .answered ans =>
    let s := s.modRec r fun rec => { rec with loadInflight := false }
    match ans with
    | .rejected => some (loadFailed o s r)
    | .notBytes => some (loadFailed o s r)
    | .nothing =>
      if s.registered r then some (s.modRec r fun rec => { rec with load := .done })
      else some (loadFailed o s r)
    | .bytes doc =>
      if s.registered r then
        some (s.modRec r fun rec => { rec with doc := rec.doc ++ doc, load := .done })
      else some (loadFailed o s r)
  | _ => none

/-- The acquire at index `i` goes through, or is rejected with its load. -/
def acquired (s : State U) (i : Nat) : Option (State U) :=
  match s.acquires[i]? with
  | none => none
  | some r =>
    match (s.recs r).load with
    | .done =>
      some { s.modRec r fun rec => { rec with refs := rec.refs + 1 } with
        acquires := s.acquires.eraseIdx i }
    | .failed => some { s with acquires := s.acquires.eraseIdx i }
    | _ => none

/-- `release`: the last one stores what is dirty, or checks for an unload once
the store in flight has settled. -/
def release (o : Options) (s : State U) (topic : String) : State U :=
  match s.topics.get? topic with
  | none => s
  | some r =>
    if !(s.recs r).loaded then s
    else
      let s := s.modRec r fun rec => { rec with refs := rec.refs - 1 }
      if 0 < (s.recs r).refs then s
      else
        let s := s.modRec r fun rec => { rec with unloading := true }
        if o.persistOnEmpty ∧ (s.recs r).dirty ∧ o.hasStore then (storeNow o s r none).1
        else s.modRec r fun rec => { rec with checks := rec.checks ++ [rec.storing] }

/-- What the unload check of `release` asks of a record. -/
def mayUnload (o : Options) (rec : TopicRecord U) : Bool :=
  rec.refs = 0 ∧ rec.unloading ∧ (!rec.dirty ∨ !o.hasStore ∨ !o.persistOnEmpty)

/-- The unload check at index `i` of `r` runs. -/
def check (o : Options) (s : State U) (r i : Nat) : Option (State U) :=
  match (s.recs r).checks[i]? with
  | none => none
  | some chain =>
    if (s.chainValue chain).isSome then
      let s := s.modRec r fun rec => { rec with checks := rec.checks.eraseIdx i }
      if s.gone r then some s
      else if mayUnload o (s.recs r) then some (unload o s r)
      else some s
    else none

/-! ## edits -/

variable [DecidableEq U]

/-- `applyUpdate`, with the bytes it returns. -/
def applyUpdate (o : Options) (yjs : Yjs U) (s : State U) (topic : String) (u : U) :
    State U × Option U :=
  match s.topics.get? topic with
  | none => (s, none)
  | some r =>
    if !(s.recs r).loaded ∨ s.destroyed then (s, none)
    else if (s.recs r).lastNoop = some u then (s, none)
    else if yjs.malformed (s.recs r).doc u then (s, none)
    else if !yjs.changes (s.recs r).doc u then
      (if yjs.cacheable u then s.modRec r fun rec => { rec with lastNoop := some u } else s, none)
    else
      let s := s.modRec r fun rec => { rec with
        doc := rec.doc ++ [u], accepted := rec.accepted ++ [u], dirty := true
        updatesSinceStore := rec.updatesSinceStore + 1 }
      if o.snapshotEvery ≤ (s.recs r).updatesSinceStore then ((storeNow o s r none).1, some u)
      else (scheduleStore o s r, some u)

/-! ## flushes -/

omit [DecidableEq U] in
/-- `buildFlushResult` -/
def buildFlushResult (o : Options) (s : State U) (targets : List (String × Nat))
    (outcomes : List (String × FlushOutcome)) : FlushResult :=
  let having (p : Option FlushOutcome → Bool) : List String :=
    (targets.filter fun t => p (outcomes.lookup t.1)).map Prod.fst
  let dirty := (targets.filter fun t =>
    outcomes.lookup t.1 ≠ some (.stored .durable) ∨
      ((s.recs t.2).dirty ∧ s.topics.get? t.1 = some t.2)).map Prod.fst
  { ok := dirty.isEmpty
    durable := if o.hasStore then having (· = some (.stored .durable)) else []
    declined := having (· = some (.stored .declined))
    failed := having (· = some (.stored .failed))
    timedOut := having (· = some .timedOut)
    dirty := dirty }

/-- The flush `f` stops counting as a waiter of the calls of `r`. -/
def forgetWaiter (s : State U) (f r : Nat) : State U :=
  (s.recs r).inflight.foldl
    (fun s h => s.modAttempt h fun a => { a with waiters := a.waiters.filter (· ≠ f) }) s

/-- `finish`: the flush `f` resolves. -/
def finish (o : Options) (s : State U) (f : Nat) : State U :=
  let s := (s.flushes f).targets.foldl (fun s t => forgetWaiter s f t.2) s
  s.modFlush f fun fl =>
    { fl with timer := none, result := some (buildFlushResult o s fl.targets fl.outcomes) }

/-- `flushOne`: register on every store in flight, and force one if the record
is dirty.  Returns the chain to wait for. -/
def flushOne (o : Options) (s : State U) (r f : Nat) : State U × Option Nat :=
  let s := (s.recs r).inflight.foldl
    (fun s h => s.modAttempt h fun a =>
      { a with waiters := if f ∈ a.waiters then a.waiters else a.waiters ++ [f] }) s
  if (s.recs r).loaded ∧ (s.recs r).dirty ∧ o.hasStore then storeNow o s r (some f)
  else (s, (s.recs r).storing)

/-- Start waiting on one target. -/
def awaitTarget (o : Options) (f : Nat) (s : State U) (t : String × Nat) : State U :=
  let (s, chain) := flushOne o s t.2 f
  s.modFlush f fun fl => { fl with pending := fl.pending ++ [⟨t.1, t.2, chain⟩] }

/-- `runFlush` -/
def runFlush (o : Options) (s : State U) (targets : List (String × Nat)) (timeout : Option Nat) :
    State U :=
  let f := s.nextFlush
  let deadline := timeout.map (s.now + ·)
  let s := { s with
    flushes := update s.flushes f ⟨targets, deadline, [], [], none, none⟩
    nextFlush := f + 1 }
  let s := targets.foldl (awaitTarget o f) s
  if targets.isEmpty then finish o s f
  else s.modFlush f fun fl => { fl with timer := deadline }

/-- `persistNow(topic?, { timeout? })`; a `none` timeout is the configured
one. -/
def persistNow (o : Options) (s : State U) (topic : Option String)
    (timeout : Option (Option Nat)) : State U :=
  let targets := match topic with
    | some name => ((s.topics.get? name).map fun r => (name, r)).toList
    | none => s.topics.entries
  runFlush o s targets (timeout.getD o.flushTimeout)

/-- A store that the flush `f` waits on has settled. -/
def flushReact (o : Options) (s : State U) (f : Nat) (topic : String) : Option (State U) :=
  match (s.flushes f).pending.find? fun w => w.topic = topic with
  | none => none
  | some w =>
    match s.chainValue w.chain with
    | none => none
    | some outcome =>
      let s := s.modFlush f fun fl => { fl with
        pending := fl.pending.filter fun w => w.topic ≠ topic
        outcomes := fl.outcomes ++ [(topic, .stored outcome)] }
      if (s.flushes f).pending.isEmpty then some (finish o s f) else some s

/-- Give up on one call of `r`, if `f` waits on it and nobody else does. -/
def giveUp (o : Options) (f r : Nat) (s : State U) (h : Nat) : State U :=
  if f ∈ (s.attempts h).waiters then
    let s := s.modAttempt h fun a => { a with waiters := a.waiters.filter (· ≠ f) }
    if (s.attempts h).waiters.isEmpty then abandon o s r h false else s
  else s

/-- One pending topic at the deadline of `f`. -/
def timeOut (o : Options) (f : Nat) (s : State U) (w : Wait) : State U :=
  let s := s.modFlush f fun fl => { fl with outcomes := fl.outcomes ++ [(w.topic, .timedOut)] }
  (s.recs w.record).inflight.foldl (giveUp o f w.record) s

/-- The deadline of the flush `f`. -/
def flushDeadline (o : Options) (s : State U) (f : Nat) : Option (State U) :=
  match (s.flushes f).timer with
  | none => none
  | some due =>
    if due ≤ s.now then
      let s := (s.flushes f).pending.foldl (timeOut o f) s
      some (finish o (s.modFlush f fun fl => { fl with pending := [] }) f)
    else none

/-! ## erasure -/

/-- `drop`: erase one topic. -/
def drop (o : Options) (s : State U) (topic : String) : State U :=
  match s.topics.get? topic with
  | none => s
  | some r => unload o s r

/-- `destroy`: tear the authority down. -/
def destroy (o : Options) (s : State U) : State U :=
  if s.destroyed then s
  else
    let s := { s with destroyed := true }
    let s := s.topics.values.foldl (fun s r => abortInFlight o (s.modRec r clearSchedule) r) s
    { s with topics := .empty }

/-! ## the machine -/

/-- What can happen to an authority: its API, the reactions and timers it has
registered, the host's answers, and time. -/
inductive Action (U : Type) where
  | acquire (topic : String)
  | loadDispatch (r : Nat)
  | loadAnswer (r : Nat) (ans : LoadAnswer U)
  | loadReact (r : Nat)
  | acquired (i : Nat)
  | release (topic : String)
  | check (r i : Nat)
  | applyUpdate (topic : String) (u : U)
  | timer (r : Nat)
  | dispatch (h : Nat)
  | answer (h : Nat) (ans : StoreAnswer)
  | react (h : Nat)
  | chainSettle (h : Nat)
  | persistNow (topic : Option String) (timeout : Option (Option Nat))
  | flushReact (f : Nat) (topic : String)
  | flushDeadline (f : Nat)
  | drop (topic : String)
  | destroy
  | tick (ms : Nat)

def machine (o : Options) (yjs : Yjs U) : Machine (State U) (Action U) where
  init := .init
  next s
    | .acquire topic => some (acquire s topic)
    | .loadDispatch r => loadDispatch o s r
    | .loadAnswer r ans => loadAnswer s r ans
    | .loadReact r => loadReact o s r
    | .acquired i => acquired s i
    | .release topic => some (release o s topic)
    | .check r i => check o s r i
    | .applyUpdate topic u => some (applyUpdate o yjs s topic u).1
    | .timer r => timer o s r
    | .dispatch h => dispatch s h
    | .answer h ans => answer s h ans
    | .react h => react o s h
    | .chainSettle h => chainSettle s h
    | .persistNow topic timeout => some (persistNow o s topic timeout)
    | .flushReact f topic => flushReact o s f topic
    | .flushDeadline f => flushDeadline o s f
    | .drop topic => some (drop o s topic)
    | .destroy => some (destroy o s)
    | .tick ms => some { s with now := s.now + ms }

end Operations

end BunServe.Crdt
