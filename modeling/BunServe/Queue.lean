import BunServe.Lib.JsMap
import BunServe.Lib.JsNumber
import BunServe.Lib.JsString
import BunServe.Lib.Linked
import BunServe.Lib.Machine

/-!
# BunServe.Queue

The keyed task queue (`plugins/queue/server.js`): per key a list of waiting
tasks and a number of running ones, and one line of the keys that have startable
work, served round-robin under a budget of running tasks.

The per-key objects live in a heap and `queues` maps a key to the reference of
its object; a started task closes over the reference, as the callbacks of
`start` do.  The gauges are integers, so that a task counted down twice would
show.

A started task is first a job of the microtask queue and is called when its turn
comes; it finishes whenever its own promise does.  The reactions of the callers
are microtasks as well, so nothing runs between two statements of an operation
but `onDrop`, which has the last word of a refused push: what it pushes or clears
is the next action.
-/

namespace BunServe.Queue

/-! ## options -/

/-- An option or argument as the caller passes it; `null` counts as absent. -/
inductive Value where
  | absent
  | number (x : JsNumber)
  | function
  | other

/-- The numbers `assertCap` lets through. -/
structure Cap where
  value : JsNumber
  pos : JsNumber.le (.ofNat 1) value
  deriving DecidableEq

/-- `assertCap` on a number that is not among the numbers it refuses. -/
theorem one_le_of_checks {x : JsNumber}
    (h : ¬ ((x.finite? = none ∧ x ≠ .infinity) ∨ JsNumber.lt x (.ofNat 1))) :
    JsNumber.le (.ofNat 1) x := by
  cases x with
  | nan => exact absurd (Or.inl ⟨rfl, by simp [JsNumber.infinity]⟩) h
  | real x =>
    have hlt : ¬ x < _ := fun hlt => h (Or.inr hlt)
    exact not_lt.mp hlt

/-- `assertCap(name, value)`. -/
def assertCap (name : String) (value : JsNumber) : Except String Cap :=
  if h : (value.finite? = none ∧ value ≠ .infinity) ∨ JsNumber.lt value (.ofNat 1) then
    .error ("queue: " ++ name ++ " must be a positive number or Infinity")
  else .ok ⟨value, one_le_of_checks h⟩

/-- `assertCap(name, options.name ?? 1_000_000)`. -/
def cap (name : String) : Value → Except String Cap
  | .absent => assertCap name (.ofNat 1000000)
  | .number x => assertCap name x
  | _ => .error ("queue: " ++ name ++ " must be a positive number or Infinity")

/-- `options.name ?? default`, which must be a positive integer. -/
def positiveInteger (name : String) (default : {n : Nat // 0 < n}) :
    Value → Except String {n : Nat // 0 < n}
  | .absent => .ok default
  | .number x =>
    match x.integer? with
    | some n => if h : 0 < n.toNat then .ok ⟨n.toNat, h⟩
        else .error ("queue: " ++ name ++ " must be a positive integer")
    | none => .error ("queue: " ++ name ++ " must be a positive integer")
  | _ => .error ("queue: " ++ name ++ " must be a positive integer")

/-- Accepted options: every bound is positive. -/
structure Options where
  concurrency : {n : Nat // 0 < n}
  maxSize : Cap
  maxKeys : Cap
  maxPendingTotal : Cap
  maxRunningTotal : Cap
  maxKeyLength : {n : Nat // 0 < n}
  onDrop : Bool
  deriving DecidableEq

/-- The options of `createQueue`. -/
structure Input where
  concurrency : Value := .absent
  maxSize : Value := .absent
  maxKeys : Value := .absent
  maxPendingTotal : Value := .absent
  maxRunningTotal : Value := .absent
  maxKeyLength : Value := .absent
  onDrop : Value := .absent

/-- `options.onDrop ?? null`, which must be a function when there is one. -/
def dropSink : Value → Except String Bool
  | .absent => .ok false
  | .function => .ok true
  | _ => .error "queue: onDrop must be a function"

theorem maxKeyLength_pos : 0 < 256 := by decide

/-- `createQueue(options)`: the checks, in source order. -/
def createQueue (i : Input) : Except String Options := do
  let concurrency ← positiveInteger "concurrency" ⟨1, Nat.one_pos⟩ i.concurrency
  let maxSize ← cap "maxSize" i.maxSize
  let maxKeys ← cap "maxKeys" i.maxKeys
  let maxPendingTotal ← cap "maxPendingTotal" i.maxPendingTotal
  let maxRunningTotal ← cap "maxRunningTotal" i.maxRunningTotal
  let maxKeyLength ← positiveInteger "maxKeyLength" ⟨256, maxKeyLength_pos⟩ i.maxKeyLength
  let onDrop ← dropSink i.onDrop
  return { concurrency, maxSize, maxKeys, maxPendingTotal, maxRunningTotal, maxKeyLength, onDrop }

/-! ## calls and their outcomes -/

/-- The bounds a push can trip. -/
inductive Reason where
  | maxSize
  | maxKeys
  | maxPendingTotal
  deriving DecidableEq

/-- The name of the option. -/
def Reason.bound : Reason → String
  | .maxSize => "maxSize"
  | .maxKeys => "maxKeys"
  | .maxPendingTotal => "maxPendingTotal"

/-- The `code` of the error. -/
def Reason.code : Reason → String
  | .maxSize => "QUEUE_FULL"
  | .maxKeys => "QUEUE_TOO_MANY_KEYS"
  | .maxPendingTotal => "QUEUE_BACKLOG_FULL"

/-- Why a push is refused. -/
inductive Refusal where
  | badKey
  | keyTooLong (length max : Nat)
  | badTask
  | overload (reason : Reason) (key : JsString) (limit : JsNumber)
  deriving DecidableEq

/-- The message of the error; `text` is what a number reads as. -/
def Refusal.message (text : JsNumber → JsString) : Refusal → JsString
  | .badKey => js "queue: key must be a string"
  | .keyTooLong n max => js "queue: key length " ++ text (.ofNat n) ++
      js " exceeds maxKeyLength " ++ text (.ofNat max)
  | .badTask => js "queue: task must be a function"
  | .overload reason key limit => js "queue \"" ++ key ++ js "\": " ++ js reason.bound ++
      js " exceeded (limit " ++ text limit ++ js ")"

/-- The typed `err.code` of a refusal. -/
def Refusal.code : Refusal → Option String
  | .overload reason _ _ => some reason.code
  | _ => none

/-- How the promise of an accepted push settles. -/
inductive Outcome where
  | completed
  | failed
  | cleared (key : JsString)
  deriving DecidableEq

/-- The message and the code of the error `rejectWaiting` builds. -/
def clearedError : String × String := ("queue cleared", "QUEUE_CLEARED")

/-- The arguments of one `push`; `key = none` is a key that is not a string, and
`dropThrows` says what `onDrop` does if it is told. -/
structure Request where
  key : Option JsString
  taskIsFunction : Bool := true
  dropThrows : Bool := false

/-! ## the state -/

/-- An accepted push: its number in push order and the key it was made under.
It stands for the `{ task, resolve, reject }` of the source. -/
structure Task where
  id : Nat
  key : JsString
  deriving DecidableEq, Inhabited

/-- A started task and what the callbacks of `start` close over. -/
structure Flight where
  task : Task
  key : JsString
  q : Nat
  deriving DecidableEq

/-- The per-key object. -/
structure KeyQueue where
  items : Fifo Task
  running : Int
  drains : List Nat
  lineNode : Option Nat

/-- The cumulative counters and the peaks. -/
structure Totals where
  keysPeak : Nat
  pendingPeak : Int
  runningPeak : Int
  pushedTotal : Nat
  completedTotal : Nat
  failedTotal : Nat
  clearedTotal : Nat
  onDropErrorsTotal : Nat
  dropped : Reason → Nat

/-- The queue and the record of its run: `pushed`, `called`, `settled` and
`drained` list what has happened, oldest first.  `jobs` are the started tasks
not yet called, `active` the called ones not yet finished. -/
structure State where
  queues : JsMap JsString Nat
  heap : Nat → KeyQueue
  nextQueue : Nat
  serviceLine : Line JsString
  pendingCurrent : Int
  runningCurrent : Int
  totals : Totals
  jobs : List Flight
  active : List Flight
  pushed : List Task
  called : List Flight
  settled : List (Task × Outcome)
  drainCalls : Nat
  drained : List Nat

/-- `{ items: fifoCreate(), running: 0, drains: [], lineNode: null }`. -/
def emptyQueue : KeyQueue := ⟨.create, 0, [], none⟩

/-- A fresh queue. -/
def State.init : State where
  queues := .empty
  heap := fun _ => emptyQueue
  nextQueue := 0
  serviceLine := .create
  pendingCurrent := 0
  runningCurrent := 0
  totals := ⟨0, 0, 0, 0, 0, 0, 0, 0, fun _ => 0⟩
  jobs := []
  active := []
  pushed := []
  called := []
  settled := []
  drainCalls := 0
  drained := []

/-- `q = v` in the heap. -/
def State.put (s : State) (r : Nat) (v : KeyQueue) : State :=
  { s with heap := Function.update s.heap r v }

/-! ## the service line -/

/-- Whether the key has waiting work and room to run it. -/
def startable (o : Options) (q : KeyQueue) : Bool :=
  q.items.size ≠ 0 ∧ q.running < o.concurrency

/-- `markReady(key, q)`. -/
def markReady (o : Options) (s : State) (key : JsString) (r : Nat) : State :=
  if (s.heap r).lineNode.isSome ∨ ¬ startable o (s.heap r) then s
  else
    { s.put r { s.heap r with lineNode := some (s.serviceLine.append key).1 } with
      serviceLine := (s.serviceLine.append key).2 }

/-- `unmarkReady(q)`. -/
def unmarkReady (s : State) (r : Nat) : State :=
  match (s.heap r).lineNode with
  | none => s
  | some node =>
    { s.put r { s.heap r with lineNode := none } with
      serviceLine := s.serviceLine.remove node }

/-! ## starting tasks -/

/-- `start(key, q)`: the oldest waiting task becomes a job. -/
def start (s : State) (key : JsString) (r : Nat) : State :=
  match (s.heap r).items.shift with
  | none => s
  | some (task, items) =>
    { s.put r { s.heap r with items := items, running := (s.heap r).running + 1 } with
      pendingCurrent := s.pendingCurrent - 1
      runningCurrent := s.runningCurrent + 1
      totals := { s.totals with runningPeak := max s.totals.runningPeak (s.runningCurrent + 1) }
      jobs := s.jobs ++ [⟨task, key, r⟩] }

/-- Whether the budget has room. -/
def hasRoom (o : Options) (s : State) : Prop :=
  JsNumber.lt (.ofInt s.runningCurrent) o.maxRunningTotal.value

instance (o : Options) (s : State) : Decidable (hasRoom o s) :=
  inferInstanceAs (Decidable (JsNumber.lt _ _))

/-- One turn of the loop of `pump` at the head of the line. -/
def visit (o : Options) (s : State) (node : Nat) : State :=
  let key := s.serviceLine.key node
  let s := { s with serviceLine := s.serviceLine.remove node }
  match s.queues.get? key with
  | none => s
  | some r =>
    let s := s.put r { s.heap r with lineNode := none }
    if startable o (s.heap r) then markReady o (start s key r) key r else s

/-- The loop of `pump`, for `n` turns at most. -/
def pumpLoop (o : Options) : Nat → State → State
  | 0, s => s
  | n + 1, s =>
    match s.serviceLine.head with
    | none => s
    | some node => if hasRoom o s then pumpLoop o n (visit o s node) else s

/-- `pump()`: a turn takes a key out of the line or a task out of its queue, so
there are at most this many. -/
def pump (o : Options) (s : State) : State :=
  pumpLoop o (s.serviceLine.size + s.pendingCurrent.toNat) s

/-- The shortcut of `schedule`. -/
def startNow (o : Options) (s : State) (key : JsString) (r : Nat) : State :=
  if s.serviceLine.head = none ∧ startable o (s.heap r) ∧ hasRoom o s then start s key r else s

/-- `schedule(key, q)`. -/
def schedule (o : Options) (s : State) (key : JsString) (r : Nat) : State :=
  pump o (markReady o (startNow o s key r) key r)

/-- `cleanup(key)`: a key without work is forgotten and its drains resolve. -/
def cleanup (s : State) (key : JsString) : State :=
  match s.queues.get? key with
  | none => s
  | some r =>
    if (s.heap r).running = 0 ∧ (s.heap r).items.size = 0 then
      let s := unmarkReady s r
      { s with queues := s.queues.delete key, drained := s.drained ++ (s.heap r).drains }
    else s

/-! ## push -/

/-- `shed(key, task, code, reason, limit)`. -/
def shed (o : Options) (s : State) (req : Request) (reason : Reason) : State :=
  { s with totals :=
    { s.totals with
      dropped := fun r => s.totals.dropped r + if r = reason then 1 else 0
      onDropErrorsTotal := s.totals.onDropErrorsTotal +
        if o.onDrop ∧ req.dropThrows then 1 else 0 } }

/-- The argument checks of `push`, in source order. -/
def validate (o : Options) (req : Request) : Except Refusal JsString :=
  match req.key with
  | none => .error .badKey
  | some key =>
    if o.maxKeyLength < key.length then .error (.keyTooLong key.length o.maxKeyLength)
    else if !req.taskIsFunction then .error .badTask
    else .ok key

def backlogFull (o : Options) (s : State) : Option (Reason × JsNumber) :=
  if JsNumber.le o.maxPendingTotal.value (.ofInt s.pendingCurrent) then
    some (.maxPendingTotal, o.maxPendingTotal.value)
  else none

/-- The bound a push under `key` trips, in source order. -/
def overload (o : Options) (s : State) (key : JsString) : Option (Reason × JsNumber) :=
  match s.queues.get? key with
  | some r =>
    if JsNumber.le o.maxSize.value (.ofNat (s.heap r).items.size) then
      some (.maxSize, o.maxSize.value)
    else backlogFull o s
  | none =>
    if JsNumber.le o.maxKeys.value (.ofNat s.queues.size) then
      some (.maxKeys, o.maxKeys.value)
    else backlogFull o s

/-- `queues.set(key, q)` of a fresh object. -/
def register (s : State) (key : JsString) : State :=
  { s with
    queues := s.queues.set key s.nextQueue
    heap := Function.update s.heap s.nextQueue emptyQueue
    nextQueue := s.nextQueue + 1
    totals := { s.totals with
      keysPeak := max s.totals.keysPeak (s.queues.set key s.nextQueue).size } }

/-- The task joins the list of its key. -/
def enqueue (s : State) (key : JsString) (r : Nat) : State :=
  { s.put r { s.heap r with items := (s.heap r).items.push ⟨s.pushed.length, key⟩ } with
    pendingCurrent := s.pendingCurrent + 1
    totals := { s.totals with
      pendingPeak := max s.totals.pendingPeak (s.pendingCurrent + 1)
      pushedTotal := s.totals.pushedTotal + 1 }
    pushed := s.pushed ++ [⟨s.pushed.length, key⟩] }

/-- A push past its bounds. -/
def accept (o : Options) (s : State) (key : JsString) : State :=
  match s.queues.get? key with
  | some r => schedule o (enqueue s key r) key r
  | none => schedule o (enqueue (register s key) key s.nextQueue) key s.nextQueue

/-- `push(key, task)`: the queue afterwards, and the number of the task or why
it is refused. -/
def push (o : Options) (s : State) (req : Request) : State × Except Refusal Nat :=
  match validate o req with
  | .error e => (s, .error e)
  | .ok key =>
    match overload o s key with
    | some (reason, limit) => (shed o s req reason, .error (.overload reason key limit))
    | none => (accept o s key, .ok s.pushed.length)

/-! ## completion -/

/-- The task of `f` has settled: the first lines of the two callbacks. -/
def finish (s : State) (f : Flight) (ok : Bool) : State :=
  { s.put f.q { s.heap f.q with running := (s.heap f.q).running - 1 } with
    runningCurrent := s.runningCurrent - 1
    totals := if ok then { s.totals with completedTotal := s.totals.completedTotal + 1 }
      else { s.totals with failedTotal := s.totals.failedTotal + 1 }
    active := s.active.erase f
    settled := s.settled ++ [(f.task, if ok then .completed else .failed)] }

/-- The promise of a called task fulfills (`ok`) or rejects; a task that throws
rejects. -/
def complete (o : Options) (s : State) (id : Nat) (ok : Bool) : Option State :=
  match s.active.find? fun f => f.task.id = id with
  | none => none
  | some f => some (cleanup (schedule o (finish s f ok) f.key f.q) f.key)

/-- The next job of the microtask queue calls its task. -/
def turn (s : State) : Option State :=
  match s.jobs with
  | [] => none
  | f :: jobs => some { s with jobs := jobs, active := s.active ++ [f], called := s.called ++ [f] }

/-! ## clear and drain -/

/-- One turn of the loop of `rejectWaiting`. -/
def rejectOne (s : State) (key : JsString) (r : Nat) : State :=
  match (s.heap r).items.shift with
  | none => s
  | some (task, items) =>
    { s.put r { s.heap r with items := items } with
      pendingCurrent := s.pendingCurrent - 1
      totals := { s.totals with clearedTotal := s.totals.clearedTotal + 1 }
      settled := s.settled ++ [(task, .cleared key)] }

/-- The loop of `rejectWaiting`, for `n` tasks. -/
def rejectLoop (key : JsString) (r : Nat) : Nat → State → State
  | 0, s => s
  | n + 1, s => rejectLoop key r n (rejectOne s key r)

/-- `rejectWaiting(key, q)`. -/
def rejectWaiting (s : State) (key : JsString) (r : Nat) : State :=
  rejectLoop key r (s.heap r).items.size (unmarkReady s r)

/-- `rejectWaiting(k, q); cleanup(k)`. -/
def clearEntry (s : State) (e : JsString × Nat) : State :=
  cleanup (rejectWaiting s e.1 e.2) e.1

/-- `clear(key)`; without a key, each entry in turn.  The entry that goes is the
one just visited, so the loop meets the entries there are at its start. -/
def clear (s : State) : Option JsString → State
  | some key =>
    match s.queues.get? key with
    | none => s
    | some r => clearEntry s (key, r)
  | none => s.queues.entries.foldl clearEntry s

/-- `drain(key)`: a promise that is resolved at once or waits with the key. -/
def drainKey (s : State) (key : JsString) : State :=
  let id := s.drainCalls
  let s := { s with drainCalls := s.drainCalls + 1 }
  match s.queues.get? key with
  | none => { s with drained := s.drained ++ [id] }
  | some r =>
    if (s.heap r).items.size = 0 ∧ (s.heap r).running = 0 then
      { s with drained := s.drained ++ [id] }
    else s.put r { s.heap r with drains := (s.heap r).drains ++ [id] }

/-- `drain(key)`; without a key, one promise for each. -/
def drain (s : State) : Option JsString → State
  | some key => drainKey s key
  | none => s.queues.keys.foldl drainKey s

/-! ## what the queue answers -/

/-- `size(key)`. -/
def size (s : State) : Option JsString → Int
  | some key =>
    match s.queues.get? key with
    | some r => (s.heap r).items.size + (s.heap r).running
    | none => 0
  | none => s.pendingCurrent + s.runningCurrent

/-- The gauges of `stats()`; the totals are reported as they are. -/
structure Stats where
  keysCurrent : Nat
  pendingCurrent : Int
  runningCurrent : Int
  readyCurrent : Nat
  totals : Totals

/-- `stats()`. -/
def stats (s : State) : Stats :=
  ⟨s.queues.size, s.pendingCurrent, s.runningCurrent, s.serviceLine.size, s.totals⟩

/-! ## the machine -/

/-- What can happen to a queue. -/
inductive Action where
  | push (req : Request)
  | clear (key : Option JsString)
  | drain (key : Option JsString)
  | turn
  | complete (id : Nat) (ok : Bool)

def machine (o : Options) : Machine State Action where
  init := .init
  next s
    | .push req => some (push o s req).1
    | .clear key => some (clear s key)
    | .drain key => some (drain s key)
    | .turn => turn s
    | .complete id ok => complete o s id ok

end BunServe.Queue
