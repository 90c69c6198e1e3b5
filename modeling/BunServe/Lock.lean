import BunServe.Lib.Machine
import BunServe.Lib.JsMap
import Mathlib.Logic.Function.Basic

/-!
# BunServe.Lock

The keyed lock (`plugins/lock/server.js`): concurrent `withLock(key, fn)`
calls on one key run one at a time in arrival order, calls on different keys
run in parallel.

Each active key owns a state object `{ running, queue }`.  The objects live in
a heap and the registry `states` maps a key to the *reference* of its object:
`clear` drops the registry but not the objects, so a holder from before a
clear still advances the object it started on.  The sections themselves are
the environment's; `settle` is the moment one of them returns or throws.

A section starts synchronously inside `withLock` or `advance`, after the last
write either of them makes, so what `fn` itself calls is the next action.
-/

namespace BunServe.Lock

/-! ## options -/

/-- A numeric option as `createLock` finds it. -/
inductive Knob where
  | absent
  | int (n : Int)
  | other

/-- `options.name ?? default`, which must be a positive integer. -/
def positiveInteger (name : String) (default : {n : Nat // 0 < n}) :
    Knob → Except String {n : Nat // 0 < n}
  | .absent => .ok default
  | .int n => if h : 0 < n.toNat then .ok ⟨n.toNat, h⟩
      else .error s!"lock: {name} must be a positive integer"
  | .other => .error s!"lock: {name} must be a positive integer"

/-- Accepted options: every bound is positive. -/
structure Options where
  maxKeys : {n : Nat // 0 < n}
  maxKeyLength : {n : Nat // 0 < n}
  maxWaitersPerKey : {n : Nat // 0 < n}

theorem million_pos : 0 < 1000000 := by decide
theorem keyUnits_pos : 0 < 256 := by decide
theorem thousand_pos : 0 < 1000 := by decide

/-- `createLock`: the three bounds, each checked. -/
def createLock (maxKeys maxKeyLength maxWaitersPerKey : Knob) : Except String Options := do
  let keys ← positiveInteger "maxKeys" ⟨1000000, million_pos⟩ maxKeys
  let len ← positiveInteger "maxKeyLength" ⟨256, keyUnits_pos⟩ maxKeyLength
  let waiters ← positiveInteger "maxWaitersPerKey" ⟨1000, thousand_pos⟩ maxWaitersPerKey
  return ⟨keys, len, waiters⟩

/-! ## calls and their outcomes -/

/-- `key.length`: UTF-16 code units. -/
def keyLength (key : String) : Nat :=
  (key.toList.map fun c => if c.val < 0x10000 then 1 else 2).sum

/-- The `maxWaitMs` option of one call. -/
inductive MaxWait where
  | absent
  | ms (n : Nat)
  | invalid

/-- The arguments of one `withLock` call; `key = none` is a key that is not a
string. -/
structure Request where
  key : Option String
  fnIsFunction : Bool := true
  maxWaitMs : MaxWait := .absent

/-- Why a call is rejected before it queues. -/
inductive Refusal where
  | badKey
  | keyTooLong (length max : Nat)
  | badFn
  | badMaxWait
  | tooManyKeys (max : Nat)
  | queueFull (key : String) (max : Nat)
  deriving DecidableEq

def Refusal.message : Refusal → String
  | .badKey => "lock: key must be a non-empty string"
  | .keyTooLong n max => s!"lock: key length {n} exceeds maxKeyLength {max}"
  | .badFn => "lock: fn must be a function"
  | .badMaxWait => "lock: maxWaitMs must be a non-negative finite number"
  | .tooManyKeys max => s!"lock: active key count exceeded {max}"
  | .queueFull key max => s!"lock: waiter queue for key '{key}' exceeded {max}"

/-- How the promise of a call settles. -/
inductive Outcome where
  | fulfilled
  | threw
  | timedOut
  | cleared
  | refused (why : Refusal)
  deriving DecidableEq

/-- The typed `err.code` of a rejection. -/
def Outcome.code : Outcome → Option String
  | .timedOut => some "LOCK_TIMEOUT"
  | .cleared => some "LOCK_CLEARED"
  | .refused (.queueFull _ _) => some "LOCK_QUEUE_FULL"
  | _ => none

/-- One `withLock` call: its number in call order, its key, and the number of
`clear`s before it. -/
structure Call where
  id : Nat
  key : String
  gen : Nat
  deriving DecidableEq

/-! ## the state -/

/-- A queued caller. -/
structure Waiter where
  call : Call
  timer : Bool
  cancelled : Bool
  deriving DecidableEq

/-- The per-key state object. -/
structure KeyState where
  running : Bool
  queue : List Waiter
  deriving DecidableEq

/-- A section in progress and the state object its `runHead` closed over. -/
structure Holder where
  call : Call
  state : Nat
  deriving DecidableEq

/-- The lock and the record of its run: `calls`, `started` and `settled` list
what has happened, oldest first. -/
structure State where
  states : JsMap String Nat
  heap : Nat → KeyState
  nextState : Nat
  holders : List Holder
  clears : Nat
  calls : List Call
  started : List Call
  settled : List (Call × Outcome)

/-- A fresh lock. -/
def State.init : State where
  states := .empty
  heap := fun _ => ⟨false, []⟩
  nextState := 0
  holders := []
  clears := 0
  calls := []
  started := []
  settled := []

/-! ## the operations -/

/-- Settle the promise of `call`. -/
def settlePromise (s : State) (call : Call) (o : Outcome) : State :=
  { s with settled := s.settled ++ [(call, o)] }

/-- Enter `fn` of `call` as the holder of the state object `ref`. -/
def runHead (s : State) (ref : Nat) (call : Call) : State :=
  { s with holders := s.holders ++ [⟨call, ref⟩], started := s.started ++ [call] }

/-- `state.queue = q` on the object `ref`. -/
def setQueue (s : State) (ref : Nat) (q : List Waiter) : State :=
  { s with heap := Function.update s.heap ref { s.heap ref with queue := q } }

/-- Register the key of `call` to a fresh object and enter `fn` on it. -/
def startNew (s : State) (call : Call) : State :=
  runHead { s with
    states := s.states.set call.key s.nextState
    heap := Function.update s.heap s.nextState ⟨true, []⟩
    nextState := s.nextState + 1 } s.nextState call

/-- `state.running = false; states.delete(key)`: the registry entry of `key`
goes, whatever object it names. -/
def releaseKey (s : State) (key : String) (ref : Nat) : State :=
  { s with
    heap := Function.update s.heap ref ⟨false, []⟩
    states := s.states.delete key }

/-- The first waiter that has not been cancelled, and the queue after it. -/
def shiftLive : List Waiter → Option (Waiter × List Waiter)
  | [] => none
  | w :: q => if w.cancelled then shiftLive q else some (w, q)

/-- Promote the next live waiter of the object `ref`, or release `key`. -/
def advance (s : State) (key : String) (ref : Nat) : State :=
  match shiftLive (s.heap ref).queue with
  | some (w, rest) => runHead (setQueue s ref rest) ref w.call
  | none => releaseKey s key ref

/-- The argument checks of `withLock`, in source order. -/
def validate (o : Options) (r : Request) : Except Refusal String :=
  match r.key with
  | none => .error .badKey
  | some key =>
    if keyLength key = 0 then .error .badKey
    else if o.maxKeyLength < keyLength key then
      .error (.keyTooLong (keyLength key) o.maxKeyLength)
    else if !r.fnIsFunction then .error .badFn
    else match r.maxWaitMs with
      | .invalid => .error .badMaxWait
      | _ => .ok key

/-- Whether a queued call arms a timer. -/
def MaxWait.timed : MaxWait → Bool
  | .ms _ => true
  | _ => false

/-- `withLock` past its argument checks. -/
def withLockOn (o : Options) (s : State) (call : Call) (maxWait : MaxWait) : State :=
  match s.states.get? call.key with
  | none =>
    if o.maxKeys ≤ s.states.size then settlePromise s call (.refused (.tooManyKeys o.maxKeys))
    else startNew s call
  | some ref =>
    if !(s.heap ref).running then
      runHead { s with heap := Function.update s.heap ref { s.heap ref with running := true } }
        ref call
    else if o.maxWaitersPerKey ≤ (s.heap ref).queue.length then
      settlePromise s call (.refused (.queueFull call.key o.maxWaitersPerKey))
    else setQueue s ref ((s.heap ref).queue ++ [⟨call, maxWait.timed, false⟩])

/-- `withLock(key, fn, opts)`. -/
def withLock (o : Options) (s : State) (r : Request) : State :=
  let call : Call := ⟨s.calls.length, r.key.getD "", s.clears⟩
  let s := { s with calls := s.calls ++ [call] }
  match validate o r with
  | .error e => settlePromise s call (.refused e)
  | .ok _ => withLockOn o s call r.maxWaitMs

/-- A waiter given up on: its timer is gone and it is skipped from now on. -/
def Waiter.cancel (w : Waiter) : Waiter := { w with timer := false, cancelled := true }

/-- A waiter's timer fires: the waiter is cancelled in place and its caller
rejected. -/
def timeout (s : State) (ref id : Nat) : Option State :=
  match (s.heap ref).queue.find? fun w => w.call.id = id ∧ w.timer ∧ !w.cancelled with
  | none => none
  | some w =>
    some (settlePromise
      (setQueue s ref ((s.heap ref).queue.map fun v => if v.call.id = id then v.cancel else v))
      w.call .timedOut)

/-- The section of call `id` has left `fn`. -/
def leave (s : State) (id : Nat) : State :=
  { s with holders := s.holders.filter fun h => h.call.id ≠ id }

/-- A section returns or throws: the object it started on advances, then the
caller's promise settles. -/
def settle (s : State) (id : Nat) (ok : Bool) : Option State :=
  match s.holders.find? fun h => h.call.id = id with
  | none => none
  | some h =>
    some (settlePromise (advance (leave s id) h.call.key h.state) h.call
      (if ok then .fulfilled else .threw))

/-- The live waiters of the registered objects, in registry order. -/
def liveWaiters (s : State) : List Call :=
  s.states.entries.flatMap fun e =>
    ((s.heap e.2).queue.filter fun w => !w.cancelled).map Waiter.call

/-- `clear()`: reject every pending waiter and drop the registry.  The state
objects and the sections running on them are left alone. -/
def clear (s : State) : State :=
  { s with
    states := .empty
    heap := fun r => if r ∈ s.states.values then
        { s.heap r with queue := (s.heap r).queue.map Waiter.cancel }
      else s.heap r
    clears := s.clears + 1
    settled := s.settled ++ (liveWaiters s).map fun c => (c, .cleared) }

/-- What can happen to a lock. -/
inductive Action where
  | withLock (r : Request)
  | settle (id : Nat) (ok : Bool)
  | timeout (ref id : Nat)
  | clear

def machine (o : Options) : Machine State Action where
  init := .init
  next s
    | .withLock r => some (withLock o s r)
    | .settle id ok => settle s id ok
    | .timeout ref id => timeout s ref id
    | .clear => some (clear s)

end BunServe.Lock
