import BunServe.Lib.Machine
import BunServe.Lib.JsMap
import Mathlib.Data.Finset.Card

/-!
# BunServe.Subscriptions

The subscription bookkeeping of one connection (`runtime/utils/ws-symbols.js`):
the registry of its logical subscriptions with the worker-wide total it
charges (`adjustTotalSubscriptions` of `runtime/handler/ws-state.js`), and the
subscribes that are in flight.

A `Socket` is a connection as these helpers see it: its userData, what its
facade still answers, and the worker's counter.  A native call throws on a
closed facade; on an open one it may (the native socket goes first), which
each operation takes as an argument.
-/

namespace BunServe.Subscriptions

/-! ## the connection -/

/-- `MAX_SUBSCRIPTIONS_PER_CONNECTION` -/
def maxSubscriptionsPerConnection : Nat := 65536

/-- What `registryStates` holds for a registry; nothing for a live one. -/
inductive RegistryState where
  | live | unaccounted | settled
  deriving DecidableEq

/-- One topic of `WS_PENDING_SUBSCRIBES`. -/
structure Pending where
  epoch : Nat
  inflight : Nat
  granted : Bool
  deriving DecidableEq

/-- The slots of a connection's userData; `none` is `undefined`. -/
structure UserData where
  subscriptions : Finset String
  registryState : RegistryState
  pendingSubscribes : JsMap String Pending
  pendingTotal : Option Int
  publishGrant : Option String

/-- As the open handler leaves it. -/
def UserData.fresh : UserData := ⟨∅, .live, .empty, none, none⟩

/-- The worker's counter, and whether it was ever found negative. -/
structure Account where
  totalSubscriptions : Int
  totalNegative : Bool

structure Socket where
  ud : UserData
  closed : Bool
  detached : Bool
  account : Account

/-! ## accounting -/

/-- `adjustTotalSubscriptions` -/
def adjustTotalSubscriptions (a : Account) (delta : Int) : Account :=
  if a.totalSubscriptions + delta < 0 then ⟨0, true⟩
  else { a with totalSubscriptions := a.totalSubscriptions + delta }

/-- `accountSubscriptionDelta`, for a live registry. -/
def Socket.charge (s : Socket) (delta : Int) : Socket :=
  if s.ud.registryState = .live then { s with account := adjustTotalSubscriptions s.account delta }
  else s

/-- `addLogicalSubscription` -/
def addLogicalSubscription (s : Socket) (topic : String) : Socket × Bool :=
  if topic ∈ s.ud.subscriptions then (s, false)
  else
    (Socket.charge { s with ud := { s.ud with subscriptions := insert topic s.ud.subscriptions } } 1,
      true)

/-- `removeLogicalSubscription` -/
def removeLogicalSubscription (s : Socket) (topic : String) : Socket × Bool :=
  if topic ∉ s.ud.subscriptions then (s, false)
  else
    (Socket.charge { s with ud := { s.ud with subscriptions := s.ud.subscriptions.erase topic } } (-1),
      true)

/-- One delta for each membership released. -/
def discharge : Nat → Account → Account
  | 0, a => a
  | n + 1, a => discharge n (adjustTotalSubscriptions a (-1))

/-- `accountClosedLogicalSubscriptions`, with the number of memberships it
released. -/
def accountClosed (s : Socket) : Socket × Nat :=
  match s.ud.registryState with
  | .settled => (s, 0)
  | .unaccounted =>
    ({ s with ud := { s.ud with registryState := .settled } }, s.ud.subscriptions.card)
  | .live =>
    ({ s with
        ud := { s.ud with registryState := .settled }
        account := discharge s.ud.subscriptions.card s.account },
      s.ud.subscriptions.card)

/-! ## subscribes in flight -/

def pendingSubscribeTotal (ud : UserData) : Int := ud.pendingTotal.getD 0

/-- `beginPendingSubscribe`: the token is the topic's revocation epoch. -/
def beginPendingSubscribe (ud : UserData) (topic : String) (held : Bool) : UserData × Nat :=
  let entry := (ud.pendingSubscribes.get? topic).getD ⟨0, 0, held⟩
  ({ ud with
      pendingSubscribes := ud.pendingSubscribes.set topic
        { entry with inflight := entry.inflight + 1 }
      pendingTotal := some (ud.pendingTotal.getD 0 + 1) },
    entry.epoch)

/-- One attempt less on the entry of `topic`, which goes with its last. -/
def leavePending (ud : UserData) (topic : String) (entry : Pending) : UserData :=
  { ud with
    pendingSubscribes :=
      if entry.inflight ≤ 1 then ud.pendingSubscribes.delete topic
      else ud.pendingSubscribes.set topic { entry with inflight := entry.inflight - 1 }
    pendingTotal := some (ud.pendingTotal.getD 1 - 1) }

/-- `settlePendingSubscribe`: may the grant be installed? -/
def settlePendingSubscribe (ud : UserData) (topic : String) (token : Nat) (granted : Bool) :
    UserData × Bool :=
  match ud.pendingSubscribes.get? topic with
  | none => (ud, false)
  | some entry =>
    let entry := if granted ∧ entry.epoch = token then { entry with granted := true } else entry
    (leavePending ud topic entry, entry.epoch = token)

inductive HeldVerdict where
  | ack | deny | denyUnwind
  deriving DecidableEq

/-- `settleHeldSubscribe` -/
def settleHeldSubscribe (ud : UserData) (topic : String) (token : Nat) : UserData × HeldVerdict :=
  match ud.pendingSubscribes.get? topic with
  | none => (ud, .ack)
  | some entry =>
    if entry.epoch = token then (leavePending ud topic { entry with granted := true }, .ack)
    else
      (leavePending ud topic entry,
        if entry.granted then .ack else if entry.inflight ≤ 1 then .denyUnwind else .deny)

/-- `membershipUnconfirmed` -/
def membershipUnconfirmed (ud : UserData) (topic : String) : Bool :=
  match ud.pendingSubscribes.get? topic with
  | none => false
  | some entry => !entry.granted

/-- `heldLandingWouldAck` -/
def heldLandingWouldAck (ud : UserData) (topic : String) (token : Nat) : Bool :=
  match ud.pendingSubscribes.get? topic with
  | none => true
  | some entry => entry.epoch = token || entry.granted

/-- `settleDeniedSubscribe`: must a membership be unwound? -/
def settleDeniedSubscribe (ud : UserData) (topic : String) (held : Bool) : UserData × Bool :=
  match ud.pendingSubscribes.get? topic with
  | none => (ud, false)
  | some entry =>
    (leavePending ud topic entry, held && !entry.granted && decide (entry.inflight ≤ 1))

/-- `isPendingSubscribeCancelled` -/
def isPendingSubscribeCancelled (ud : UserData) (topic : String) (token : Nat) : Bool :=
  match ud.pendingSubscribes.get? topic with
  | none => true
  | some entry => entry.epoch ≠ token

/-- `tombstonePendingSubscribe`: did it cancel an attempt? -/
def tombstonePendingSubscribe (ud : UserData) (topic : String) : UserData × Bool :=
  match ud.pendingSubscribes.get? topic with
  | none => (ud, false)
  | some entry =>
    if entry.inflight = 0 then (ud, false)
    else
      ({ ud with
          pendingSubscribes := ud.pendingSubscribes.set topic
            { entry with epoch := entry.epoch + 1, granted := false } },
        true)

/-! ## tracked membership -/

/-- `exceedsSubscriptionCap` -/
def exceedsSubscriptionCap (held : Bool) (size max : Nat) : Bool := !held && decide (max ≤ size)

/-- Does the facade throw on a native call? -/
def Socket.refuses (s : Socket) (throws : Bool) : Bool := s.closed || throws

/-- `trackedSubscribe` -/
def trackedSubscribe (s : Socket) (topic : String) (throws : Bool) : Socket × Bool :=
  if s.detached then (s, false)
  else if exceedsSubscriptionCap (decide (topic ∈ s.ud.subscriptions)) s.ud.subscriptions.card
      maxSubscriptionsPerConnection then (s, false)
  else if s.refuses throws then (s, false)
  else ((addLogicalSubscription s topic).1, true)

def clearGrant (ud : UserData) (topic : String) : UserData :=
  if ud.publishGrant = some topic then { ud with publishGrant := none } else ud

/-- `trackedUnsubscribe` -/
def trackedUnsubscribe (s : Socket) (topic : String) (throws : Bool) : Socket × Bool :=
  if s.detached then (s, !s.refuses throws)
  else
    let ud := clearGrant (tombstonePendingSubscribe s.ud topic).1 topic
    ((removeLogicalSubscription { s with ud := ud } topic).1, !s.refuses throws)

/-- The topics a plugin derived from `topic`; `prefixes` is
`derivedTopicPrefixes`. -/
def derivedTopics (prefixes : List String) (topic : String) : List String :=
  (prefixes.filter fun p => !p.toList.isPrefixOf topic.toList).map (· ++ topic)

/-- `releaseDerivedSubscriptions` -/
def releaseDerivedSubscriptions (prefixes : List String) (s : Socket) (topic : String)
    (throws : String → Bool) : Socket :=
  (derivedTopics prefixes topic).foldl (fun s t => (trackedUnsubscribe s t (throws t)).1) s

/-- `releaseMembership` -/
def releaseMembership (s : Socket) (topic : String) (throws : Bool) : Socket × Bool :=
  let withdrawn : Socket :=
    match s.ud.pendingSubscribes.get? topic with
    | none => s
    | some entry =>
      let pending := s.ud.pendingSubscribes.set topic { entry with granted := false }
      { s with ud := { s.ud with pendingSubscribes := pending } }
  if s.refuses throws then (withdrawn, false)
  else
    let (s, removed) := removeLogicalSubscription withdrawn topic
    ({ s with ud := clearGrant s.ud topic }, removed || decide (s.ud.publishGrant = some topic))

/-- `releaseSubscription` -/
def releaseSubscription (prefixes : List String) (s : Socket) (topic : String)
    (throws : String → Bool) : Socket × Bool :=
  if s.detached ∨ s.ud.registryState = .settled then (s, false)
  else
    (derivedTopics prefixes topic).foldl
      (fun (s, removed) t =>
        let (s, also) := releaseMembership s t (throws t)
        (s, removed || also))
      (releaseMembership s topic (throws topic))

/-- `unwindRevokedMembership` -/
def unwindRevokedMembership (prefixes : List String) (s : Socket) (topic : String)
    (throws : String → Bool) : Socket :=
  (trackedUnsubscribe (releaseDerivedSubscriptions prefixes s topic throws) topic (throws topic)).1

/-- `unsubscribeMembership` of `runtime/handler/platform.js`, up to the app's
hook: whether membership was removed or an attempt cancelled. -/
def unsubscribeMembership (prefixes : List String) (s : Socket) (topic : String)
    (throws : String → Bool) : Socket × Bool :=
  if s.detached then (s, false)
  else
    let (ud, cancelledPending) := tombstonePendingSubscribe s.ud topic
    let s := releaseDerivedSubscriptions prefixes { s with ud := ud } topic throws
    let s := { s with ud := clearGrant s.ud topic }
    if topic ∈ s.ud.subscriptions then ((removeLogicalSubscription s topic).1, true)
    else (s, cancelledPending)

/-- The end of a landing: native membership and the registry. -/
def installMembership (s : Socket) (topic : String) (throws : Bool) : Socket × Bool :=
  if s.refuses throws then (s, false) else ((addLogicalSubscription s topic).1, true)

/-- The end of the close handler: the registry is settled and cleared, with the
subscribes in flight, and the userData is released. -/
def finishClose (s : Socket) : Socket × Nat :=
  let (s, released) := accountClosed s
  ({ s with
      ud := { s.ud with subscriptions := ∅, pendingSubscribes := .empty, pendingTotal := none }
      detached := true },
    released)

end BunServe.Subscriptions
