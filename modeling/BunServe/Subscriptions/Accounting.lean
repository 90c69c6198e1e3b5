import BunServe.Subscriptions
import Mathlib.Algebra.BigOperators.Group.Finset.Basic
import Mathlib.Algebra.Order.BigOperators.Group.Finset

/-!
# BunServe.Subscriptions.Accounting

The worker's subscription total over all of its connections.

A worker runs any number of connections through the tracked operations, the
releases of the server and the wire, the landings of subscribes and the two
ends of the close handler, between which the app's close hook may do any of
the others.  What reaches a connection after its close is a step like any
other.

* `Accounted` — what every operation on one connection does to the counter;
* `total_eq_sum` — the counter is the sum of the registries not yet settled,
  and each close settles its registry once.
-/

namespace BunServe.Subscriptions

open Machine
open Function (update)

/-! ## the worker -/

/-- A connection of the worker, with what each run of its close released. -/
structure Conn where
  ud : UserData
  closed : Bool
  detached : Bool
  released : List Nat

structure Worker where
  conns : Nat → Conn
  nextConn : Nat
  account : Account
  /-- `derivedTopicPrefixes` -/
  prefixes : List String

/-- The connection `c` as its helpers see it. -/
def Worker.socket (w : Worker) (c : Nat) : Socket :=
  ⟨(w.conns c).ud, (w.conns c).closed, (w.conns c).detached, w.account⟩

/-- What the helpers left of the connection `c`. -/
def Worker.put (w : Worker) (c : Nat) (s : Socket) : Worker :=
  { w with
    conns := update w.conns c
      { w.conns c with ud := s.ud, closed := s.closed, detached := s.detached }
    account := s.account }

/-- What can happen to a worker's connections. -/
inductive Action where
  | opened
  | registerPrefix (p : String)
  | trackedSubscribe (c : Nat) (topic : String) (throws : Bool)
  | trackedUnsubscribe (c : Nat) (topic : String) (throws : Bool)
  | releaseSubscription (c : Nat) (topic : String) (throws : String → Bool)
  | unwind (c : Nat) (topic : String) (throws : String → Bool)
  | unsubscribe (c : Nat) (topic : String) (throws : String → Bool)
  | begin (c : Nat) (topic : String) (held : Bool)
  | settle (c : Nat) (topic : String) (token : Nat) (granted : Bool)
  | settleHeld (c : Nat) (topic : String) (token : Nat)
  | settleDenied (c : Nat) (topic : String) (held : Bool)
  | install (c : Nat) (topic : String) (throws : Bool)
  | closing (c : Nat)
  | close (c : Nat)

/-- The connection an operation is on, and what it does there; opening,
closing and registering a prefix are the worker's. -/
def operation (prefixes : List String) : Action → Option (Nat × (Socket → Socket))
  | .trackedSubscribe c topic throws => some (c, fun s => (trackedSubscribe s topic throws).1)
  | .trackedUnsubscribe c topic throws => some (c, fun s => (trackedUnsubscribe s topic throws).1)
  | .releaseSubscription c topic throws =>
    some (c, fun s => (releaseSubscription prefixes s topic throws).1)
  | .unwind c topic throws => some (c, fun s => unwindRevokedMembership prefixes s topic throws)
  | .unsubscribe c topic throws =>
    some (c, fun s => (unsubscribeMembership prefixes s topic throws).1)
  | .begin c topic held => some (c, fun s => { s with ud := (beginPendingSubscribe s.ud topic held).1 })
  | .settle c topic token granted =>
    some (c, fun s => { s with ud := (settlePendingSubscribe s.ud topic token granted).1 })
  | .settleHeld c topic token =>
    some (c, fun s => { s with ud := (settleHeldSubscribe s.ud topic token).1 })
  | .settleDenied c topic held =>
    some (c, fun s => { s with ud := (settleDeniedSubscribe s.ud topic held).1 })
  | .install c topic throws => some (c, fun s => (installMembership s topic throws).1)
  | .closing c => some (c, fun s => { s with closed := true })
  | _ => none

/-- The end of the close handler of `c`. -/
def Worker.close (w : Worker) (c : Nat) : Worker :=
  let (s, released) := finishClose (w.socket c)
  let w := w.put c s
  { w with
    conns := update w.conns c
      { w.conns c with released := (w.conns c).released ++ [released] } }

def worker : Machine Worker Action where
  init := ⟨fun _ => ⟨.fresh, false, false, []⟩, 0, ⟨0, false⟩, []⟩
  next w a :=
    match operation w.prefixes a with
    | some (c, f) => if c < w.nextConn then some (w.put c (f (w.socket c))) else none
    | none =>
      match a with
      | .opened => some { w with
          conns := update w.conns w.nextConn ⟨.fresh, false, false, []⟩
          nextConn := w.nextConn + 1 }
      | .registerPrefix p =>
        some { w with prefixes := if p ∈ w.prefixes then w.prefixes else w.prefixes ++ [p] }
      | .close c => if c < w.nextConn ∧ (w.conns c).closed then some (w.close c) else none
      | _ => none

/-! ## one connection -/

/-- The memberships of a connection that are still to be released. -/
def UserData.held (ud : UserData) : Int :=
  if ud.registryState = .settled then 0 else ud.subscriptions.card

/-- The counter holds what this connection holds on top of `rest`. -/
structure Fits (rest : Int) (s : Socket) : Prop where
  accounted : s.ud.registryState ≠ .unaccounted
  total : s.account = ⟨rest + s.ud.held, false⟩

/-- An operation that moves the counter with the registry. -/
structure Accounted (s s' : Socket) : Prop where
  state : s'.ud.registryState = s.ud.registryState
  fits : ∀ rest, 0 ≤ rest → Fits rest s → Fits rest s'

section Operations

variable {s s' t : Socket} {topic : String} {prefixes : List String} {rest : Int}

theorem UserData.held_nonneg (ud : UserData) : 0 ≤ ud.held := by
  unfold UserData.held
  split <;> simp

theorem Accounted.refl : Accounted s s := ⟨rfl, fun _ _ h => h⟩

theorem Accounted.trans (h : Accounted s s') (h' : Accounted s' t) : Accounted s t :=
  ⟨h'.state.trans h.state, fun rest hrest hs => h'.fits rest hrest (h.fits rest hrest hs)⟩

theorem accounted_of_same (hsubs : s'.ud.subscriptions = s.ud.subscriptions)
    (hstate : s'.ud.registryState = s.ud.registryState) (haccount : s'.account = s.account) :
    Accounted s s' := by
  refine ⟨hstate, fun rest _ h => ⟨hstate ▸ h.accounted, ?_⟩⟩
  rw [haccount, h.total, UserData.held, UserData.held, hsubs, hstate]

theorem adjust_eq {a : Int} {delta : Int} (h : 0 ≤ a + delta) :
    adjustTotalSubscriptions ⟨a, false⟩ delta = ⟨a + delta, false⟩ := by
  simp [adjustTotalSubscriptions, Int.not_lt.mpr h]

theorem accounted_charge {subs : Finset String} {delta : Int}
    (hdelta : (subs.card : Int) = s.ud.subscriptions.card + delta) :
    Accounted s (Socket.charge { s with ud := { s.ud with subscriptions := subs } } delta) := by
  unfold Socket.charge
  refine ⟨by split <;> rfl, fun rest hrest h => ⟨by split <;> exact h.accounted, ?_⟩⟩
  have htotal := h.total
  split
  · next hlive =>
    have hlive : s.ud.registryState = .live := hlive
    simp only [UserData.held, hlive, reduceCtorEq, if_false] at htotal ⊢
    rw [htotal, adjust_eq (by omega)]
    congr 1
    omega
  · next hdead =>
    have hsettled : s.ud.registryState = .settled := by
      have haccounted := h.accounted
      cases hs : s.ud.registryState with
      | settled => rfl
      | live => exact absurd hs hdead
      | unaccounted => exact absurd hs haccounted
    simpa [UserData.held, hsettled] using htotal

theorem accounted_add : Accounted s (addLogicalSubscription s topic).1 := by
  unfold addLogicalSubscription
  split
  · exact .refl
  · next h => exact accounted_charge (by simp [h])

theorem accounted_remove : Accounted s (removeLogicalSubscription s topic).1 := by
  unfold removeLogicalSubscription
  split
  · exact .refl
  · next h =>
    have hm : topic ∈ s.ud.subscriptions := not_not.mp h
    have hpos := Finset.card_pos.mpr ⟨topic, hm⟩
    refine accounted_charge ?_
    rw [Finset.card_erase_of_mem hm]
    omega

theorem tombstone_same (ud : UserData) (topic : String) :
    (tombstonePendingSubscribe ud topic).1.subscriptions = ud.subscriptions ∧
      (tombstonePendingSubscribe ud topic).1.registryState = ud.registryState := by
  unfold tombstonePendingSubscribe
  split
  · exact ⟨rfl, rfl⟩
  · split <;> exact ⟨rfl, rfl⟩

theorem clearGrant_same (ud : UserData) (topic : String) :
    (clearGrant ud topic).subscriptions = ud.subscriptions ∧
      (clearGrant ud topic).registryState = ud.registryState := by
  unfold clearGrant
  split <;> exact ⟨rfl, rfl⟩

theorem accounted_clearGrant : Accounted s { s with ud := clearGrant s.ud topic } :=
  accounted_of_same (clearGrant_same _ _).1 (clearGrant_same _ _).2 rfl

theorem accounted_tombstone : Accounted s { s with ud := (tombstonePendingSubscribe s.ud topic).1 } :=
  accounted_of_same (tombstone_same _ _).1 (tombstone_same _ _).2 rfl

variable {throws : Bool}

theorem accounted_trackedSubscribe : Accounted s (trackedSubscribe s topic throws).1 := by
  unfold trackedSubscribe
  split
  · exact .refl
  · split
    · exact .refl
    · split
      · exact .refl
      · exact accounted_add

theorem accounted_trackedUnsubscribe : Accounted s (trackedUnsubscribe s topic throws).1 := by
  unfold trackedUnsubscribe
  split
  · exact .refl
  · refine Accounted.trans ?_ accounted_remove
    exact accounted_tombstone.trans accounted_clearGrant

theorem accounted_releaseDerived {throws : String → Bool} :
    Accounted s (releaseDerivedSubscriptions prefixes s topic throws) :=
  List.foldlRecOn _ _ .refl
    fun _ ht _ _ => ht.trans accounted_trackedUnsubscribe

theorem accounted_releaseMembership : Accounted s (releaseMembership s topic throws).1 := by
  have hwithdraw : ∀ pending, Accounted s { s with ud := { s.ud with pendingSubscribes := pending } } :=
    fun _ => accounted_of_same rfl rfl rfl
  unfold releaseMembership
  cases s.ud.pendingSubscribes.get? topic <;> dsimp only <;> split
  · exact .refl
  · exact accounted_remove.trans accounted_clearGrant
  · exact hwithdraw _
  · exact ((hwithdraw _).trans accounted_remove).trans accounted_clearGrant

theorem accounted_releaseSubscription {throws : String → Bool} :
    Accounted s (releaseSubscription prefixes s topic throws).1 := by
  unfold releaseSubscription
  split
  · exact .refl
  · exact List.foldlRecOn (motive := fun t : Socket × Bool => Accounted s t.1) _ _
      accounted_releaseMembership fun _ ht _ _ => ht.trans accounted_releaseMembership

theorem accounted_unsubscribe {throws : String → Bool} :
    Accounted s (unsubscribeMembership prefixes s topic throws).1 := by
  unfold unsubscribeMembership
  split
  · exact .refl
  · dsimp only
    split
    · exact ((accounted_tombstone.trans accounted_releaseDerived).trans
        accounted_clearGrant).trans accounted_remove
    · exact (accounted_tombstone.trans accounted_releaseDerived).trans accounted_clearGrant

theorem accounted_install : Accounted s (installMembership s topic throws).1 := by
  unfold installMembership
  split
  · exact .refl
  · exact accounted_add

theorem leavePending_same (ud : UserData) (entry : Pending) :
    (leavePending ud topic entry).subscriptions = ud.subscriptions ∧
      (leavePending ud topic entry).registryState = ud.registryState := ⟨rfl, rfl⟩

theorem settle_same (ud : UserData) (token : Nat) (granted : Bool) :
    (settlePendingSubscribe ud topic token granted).1.subscriptions = ud.subscriptions ∧
      (settlePendingSubscribe ud topic token granted).1.registryState = ud.registryState := by
  unfold settlePendingSubscribe
  split
  · exact ⟨rfl, rfl⟩
  · exact leavePending_same _ _

theorem settleHeld_same (ud : UserData) (token : Nat) :
    (settleHeldSubscribe ud topic token).1.subscriptions = ud.subscriptions ∧
      (settleHeldSubscribe ud topic token).1.registryState = ud.registryState := by
  unfold settleHeldSubscribe
  split
  · exact ⟨rfl, rfl⟩
  · split <;> exact leavePending_same _ _

theorem settleDenied_same (ud : UserData) (held : Bool) :
    (settleDeniedSubscribe ud topic held).1.subscriptions = ud.subscriptions ∧
      (settleDeniedSubscribe ud topic held).1.registryState = ud.registryState := by
  unfold settleDeniedSubscribe
  split
  · exact ⟨rfl, rfl⟩
  · exact leavePending_same _ _

theorem accounted_operation {a : Action} {c : Nat} {f : Socket → Socket}
    (h : operation prefixes a = some (c, f)) : Accounted s (f s) := by
  cases a with
  | trackedSubscribe c topic throws =>
    obtain ⟨rfl, rfl⟩ := Prod.mk.inj (Option.some.inj h)
    exact accounted_trackedSubscribe
  | trackedUnsubscribe c topic throws =>
    obtain ⟨rfl, rfl⟩ := Prod.mk.inj (Option.some.inj h)
    exact accounted_trackedUnsubscribe
  | releaseSubscription c topic throws =>
    obtain ⟨rfl, rfl⟩ := Prod.mk.inj (Option.some.inj h)
    exact accounted_releaseSubscription
  | unwind c topic throws =>
    obtain ⟨rfl, rfl⟩ := Prod.mk.inj (Option.some.inj h)
    exact accounted_releaseDerived.trans accounted_trackedUnsubscribe
  | unsubscribe c topic throws =>
    obtain ⟨rfl, rfl⟩ := Prod.mk.inj (Option.some.inj h)
    exact accounted_unsubscribe
  | begin c topic held | closing c =>
    obtain ⟨rfl, rfl⟩ := Prod.mk.inj (Option.some.inj h)
    exact accounted_of_same rfl rfl rfl
  | settle c topic token granted =>
    obtain ⟨rfl, rfl⟩ := Prod.mk.inj (Option.some.inj h)
    exact accounted_of_same (settle_same _ _ _).1 (settle_same _ _ _).2 rfl
  | settleHeld c topic token =>
    obtain ⟨rfl, rfl⟩ := Prod.mk.inj (Option.some.inj h)
    exact accounted_of_same (settleHeld_same _ _).1 (settleHeld_same _ _).2 rfl
  | settleDenied c topic held =>
    obtain ⟨rfl, rfl⟩ := Prod.mk.inj (Option.some.inj h)
    exact accounted_of_same (settleDenied_same _ _).1 (settleDenied_same _ _).2 rfl
  | install c topic throws =>
    obtain ⟨rfl, rfl⟩ := Prod.mk.inj (Option.some.inj h)
    exact accounted_install
  | _ => contradiction

/-! ## closes -/

theorem discharge_eq (n : Nat) (hrest : 0 ≤ rest) :
    discharge n ⟨rest + n, false⟩ = ⟨rest, false⟩ := by
  induction n with
  | zero => simp [discharge]
  | succ n ih =>
    have hone : rest + ((n + 1 : Nat) : Int) + -1 = rest + n := by
      omega
    rw [discharge, adjust_eq (by omega), hone, ih]

theorem finishClose_spec (hrest : 0 ≤ rest) (h : Fits rest s) :
    (finishClose s).1.ud.registryState = .settled ∧ Fits rest (finishClose s).1 ∧
      ((finishClose s).2 : Int) = s.ud.held := by
  have htotal := h.total
  cases hs : s.ud.registryState with
  | unaccounted => exact absurd hs h.accounted
  | settled =>
    refine ⟨by simp [finishClose, accountClosed, hs], ⟨by simp [finishClose, accountClosed, hs], ?_⟩,
      by simp [finishClose, accountClosed, hs, UserData.held]⟩
    simpa [finishClose, accountClosed, hs, UserData.held] using htotal
  | live =>
    refine ⟨by simp [finishClose, accountClosed, hs], ⟨by simp [finishClose, accountClosed, hs], ?_⟩,
      by simp [finishClose, accountClosed, hs, UserData.held]⟩
    simp [finishClose, accountClosed, hs, UserData.held, htotal, discharge_eq _ hrest]

end Operations

/-! ## all of them -/

/-- The counter is the sum of the registries not yet settled, and a close has
released what its connection held, once. -/
structure Balanced (w : Worker) : Prop where
  accounted : ∀ i < w.nextConn, (w.conns i).ud.registryState ≠ .unaccounted
  total : w.account = ⟨∑ i ∈ Finset.range w.nextConn, (w.conns i).ud.held, false⟩
  released : ∀ i < w.nextConn,
    ((w.conns i).ud.registryState ≠ .settled ∧ (w.conns i).released = []) ∨
      (w.conns i).ud.registryState = .settled ∧ ∃ n zs, (w.conns i).released = n :: zs ∧ ∀ z ∈ zs, z = 0

section Worker

variable {w w' : Worker} {c : Nat}

/-- What the other connections hold. -/
def others (w : Worker) (c : Nat) : Int :=
  ∑ i ∈ (Finset.range w.nextConn).erase c, (w.conns i).ud.held

theorem others_nonneg : 0 ≤ others w c :=
  Finset.sum_nonneg fun i _ => (w.conns i).ud.held_nonneg

theorem Balanced.fits (hb : Balanced w) (hc : c < w.nextConn) : Fits (others w c) (w.socket c) := by
  refine ⟨hb.accounted c hc, ?_⟩
  have hsum := Finset.sum_erase_add (Finset.range w.nextConn)
    (fun i => (w.conns i).ud.held) (Finset.mem_range.mpr hc)
  exact hb.total.trans (by rw [others, Worker.socket, hsum])

/-- The connection `c` has changed, and the counter with it. -/
theorem balanced_of_fits (hb : Balanced w) (hc : c < w.nextConn) {k : Conn} {s : Socket}
    (hfits : Fits (others w c) s) (hud : k.ud = s.ud)
    (hreleased : (k.ud.registryState ≠ .settled ∧ k.released = []) ∨
      k.ud.registryState = .settled ∧ ∃ n zs, k.released = n :: zs ∧ ∀ z ∈ zs, z = 0) :
    Balanced { w with conns := update w.conns c k, account := s.account } := by
  have hself : (update w.conns c k) c = k := Function.update_self ..
  have hne : ∀ i ≠ c, (update w.conns c k) i = w.conns i := fun i hi =>
    Function.update_of_ne hi ..
  refine ⟨fun i hi => ?_, ?_, fun i hi => ?_⟩
  · by_cases hic : i = c
    · subst hic
      simp only [hself, hud]
      exact hfits.accounted
    · simp only [hne i hic]
      exact hb.accounted i hi
  · have hsum := Finset.sum_erase_add (Finset.range w.nextConn)
      (fun i => ((update w.conns c k) i).ud.held) (Finset.mem_range.mpr hc)
    have hothers : ∑ i ∈ (Finset.range w.nextConn).erase c,
        ((update w.conns c k) i).ud.held = others w c :=
      Finset.sum_congr rfl fun i hi => by rw [hne i (Finset.ne_of_mem_erase hi)]
    rw [hothers, hself, hud] at hsum
    exact hfits.total.trans (by rw [hsum])
  · by_cases hic : i = c
    · subst hic
      simpa only [hself] using hreleased
    · simpa only [hne i hic] using hb.released i hi

theorem balanced_put (hb : Balanced w) (hc : c < w.nextConn) {f : Socket → Socket}
    (hf : Accounted (w.socket c) (f (w.socket c))) : Balanced (w.put c (f (w.socket c))) := by
  refine balanced_of_fits hb hc (hf.fits _ others_nonneg (hb.fits hc)) rfl ?_
  have hstate : (f (w.socket c)).ud.registryState = (w.conns c).ud.registryState := hf.state
  simp only [hstate]
  exact hb.released c hc

theorem balanced_close (hb : Balanced w) (hc : c < w.nextConn) : Balanced (w.close c) := by
  obtain ⟨hsettled, hfits, hheld⟩ := finishClose_spec others_nonneg (hb.fits hc)
  have hput : w.close c = { w with
      conns := update w.conns c
        { w.conns c with
          ud := (finishClose (w.socket c)).1.ud, closed := (finishClose (w.socket c)).1.closed
          detached := (finishClose (w.socket c)).1.detached
          released := (w.conns c).released ++ [(finishClose (w.socket c)).2] }
      account := (finishClose (w.socket c)).1.account } := by
    simp [Worker.close, Worker.put]
  rw [hput]
  refine balanced_of_fits hb hc hfits rfl (.inr ⟨hsettled, ?_⟩)
  rcases hb.released c hc with ⟨-, hr⟩ | ⟨hs, n, zs, hr, hz⟩
  · exact ⟨(finishClose (w.socket c)).2, [], by simp [hr], by simp⟩
  · have hzero : (finishClose (w.socket c)).2 = 0 := by
      have hnone : (w.socket c).ud.held = 0 := by simp [Worker.socket, UserData.held, hs]
      omega
    exact ⟨n, zs ++ [0], by simp [hr, hzero], by simpa [or_imp] using hz⟩

theorem balanced_next {a : Action} (hb : Balanced w) (hs : worker.next w a = some w') :
    Balanced w' := by
  simp only [worker] at hs
  split at hs
  · next c f hop =>
    split at hs
    · next hc => exact Option.some.inj hs ▸ balanced_put hb hc (accounted_operation hop)
    · contradiction
  · split at hs
    · cases hs
      have hself : (update w.conns w.nextConn ⟨.fresh, false, false, []⟩) w.nextConn =
          ⟨.fresh, false, false, []⟩ := Function.update_self ..
      have hold : ∀ i < w.nextConn,
          (update w.conns w.nextConn ⟨.fresh, false, false, []⟩) i = w.conns i :=
        fun i hi => Function.update_of_ne (Nat.ne_of_lt hi) ..
      refine ⟨fun i hi => ?_, ?_, fun i hi => ?_⟩
      · rcases Nat.lt_succ_iff_lt_or_eq.mp hi with hi | rfl
        · simpa only [hold i hi] using hb.accounted i hi
        · simp [UserData.fresh]
      · have hsum : ∑ i ∈ Finset.range w.nextConn,
            ((update w.conns w.nextConn ⟨.fresh, false, false, []⟩) i).ud.held =
              ∑ i ∈ Finset.range w.nextConn, (w.conns i).ud.held :=
          Finset.sum_congr rfl fun i hi => by rw [hold i (Finset.mem_range.mp hi)]
        have hfresh : UserData.fresh.held = 0 := by simp [UserData.held, UserData.fresh]
        simp only [Finset.sum_range_succ, hself, hsum, hfresh, add_zero]
        exact hb.total
      · rcases Nat.lt_succ_iff_lt_or_eq.mp hi with hi | rfl
        · simpa only [hold i hi] using hb.released i hi
        · exact .inl (by simp [UserData.fresh])
    · exact Option.some.inj hs ▸ ⟨hb.accounted, hb.total, hb.released⟩
    · split at hs
      · next hc => exact Option.some.inj hs ▸ balanced_close hb hc.1
      · contradiction
    · contradiction

/-- **Accounting**: after every run the total is the sum of the registries of
the connections not yet closed, it has never been found negative, and the
close of a connection has released its registry exactly once: the first time
it ran. -/
theorem total_eq_sum {as : List Action} (h : worker.Runs Any as w) :
    w.account.totalSubscriptions = ∑ i ∈ Finset.range w.nextConn, (w.conns i).ud.held ∧
      0 ≤ w.account.totalSubscriptions ∧ w.account.totalNegative = false ∧
      ∀ i < w.nextConn, ((w.conns i).ud.registryState ≠ .settled ∧ (w.conns i).released = []) ∨
        (w.conns i).ud.registryState = .settled ∧
          ∃ n zs, (w.conns i).released = n :: zs ∧ ∀ z ∈ zs, z = 0 := by
  have hb : Balanced w := h.invariant ⟨by simp [worker], by simp [worker], by simp [worker]⟩
    fun _ _ _ hb _ hs => balanced_next hb hs
  refine ⟨by rw [hb.total], ?_, by rw [hb.total], hb.released⟩
  simpa [hb.total] using Finset.sum_nonneg fun i _ => (w.conns i).ud.held_nonneg

/-- Two connections: one subscribes twice, leaves a topic and closes with the
other topic held; a subscribe that lands after its close charges nothing, and
the close that runs again releases nothing. -/
theorem total_eq_sum_example : ∃ w, worker.Runs Any
    [.opened, .opened, .trackedSubscribe 0 "a" false, .trackedSubscribe 0 "b" false,
      .trackedSubscribe 1 "a" false, .trackedUnsubscribe 0 "a" false, .closing 0, .close 0,
      .trackedSubscribe 0 "c" false, .close 0] w ∧
    w.account.totalSubscriptions = 1 ∧ (w.conns 0).released = [1, 0] ∧
    w.account.totalSubscriptions = ∑ i ∈ Finset.range w.nextConn, (w.conns i).ud.held := by
  obtain ⟨w, hw⟩ : ∃ w, worker.exec worker.init
      [.opened, .opened, .trackedSubscribe 0 "a" false, .trackedSubscribe 0 "b" false,
        .trackedSubscribe 1 "a" false, .trackedUnsubscribe 0 "a" false, .closing 0, .close 0,
        .trackedSubscribe 0 "c" false, .close 0] = some w := ⟨_, rfl⟩
  have hrun := runs_of_exec hw
  have hstate : w.account.totalSubscriptions = 1 ∧ (w.conns 0).released = [1, 0] := by
    cases hw
    decide +kernel
  exact ⟨w, hrun, hstate.1, hstate.2, (total_eq_sum hrun).1⟩

end Worker

end BunServe.Subscriptions
