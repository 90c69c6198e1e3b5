import BunServe.Lib.F64
import BunServe.Lib.Machine

/-!
# BunServe.Lease

The send gate of one connection: `createLeaseState` (`runtime/utils/lease.js`,
and the same text in `runtime/wire.js`).

A grant is a window: a number of permits and an absolute deadline, fixed when
it is granted and compared with the clock on every check.  `tryAcquire` lets one
frame through, `enqueue` keeps one for later, and `requestN` opens a new window
and releases from the queue what it covers.  Every number is a double, and each
operation carries the clock reading it makes.

* `kept_of_fits` — in every run whose windows fit, no more frames pass than the
  window in force permits and none after its deadline, queued frames leave in
  order and once each, and the queue keeps its bound;
* `late_release` — `requestN` releases from the queue without a look at the
  deadline, and rounds a fraction of a permit up.
-/

namespace BunServe.Lease

open Machine
open F64 (inf is_ofInt le lt ofInt sub zero)

/-! ## options -/

/-- The options of `createLeaseState` that are numbers. -/
structure Options where
  requestCount : Option F64
  ttlMs : Option F64
  maxQueue : Option F64

/-- `MAX_QUEUED_REQUESTS`. -/
def maxQueuedRequests : F64 := ofInt 256

namespace Options

def bound (o : Options) : F64 := o.maxQueue.getD maxQueuedRequests

def defaultCount (o : Options) : F64 := o.requestCount.getD zero

def defaultTtl (o : Options) : F64 := o.ttlMs.getD zero

end Options

/-! ## the gate -/

/-- A frame let through: the reading of the clock, and the deadline of the
window in force. -/
structure Release where
  now : F64
  deadline : F64
  deriving DecidableEq

/-- The gate, and the record of its run: the frames let through since the last
grant, the frames taken into the queue and out of it, and every release. -/
structure State (α : Type) where
  expiresAt : F64
  available : F64
  granted : F64
  queue : List α
  spent : Nat
  accepted : List α
  drained : List α
  releases : List Release

variable {α : Type}

/-- A fresh gate. -/
def State.init : State α where
  expiresAt := zero
  available := zero
  granted := zero
  queue := []
  spent := 0
  accepted := []
  drained := []
  releases := []

/-- `_expiresAt = now() + t`. -/
def deadline (o : Options) (ttl : Option F64) (now : F64) : F64 :=
  F64.add now (ttl.getD o.defaultTtl)

/-- `fresh()`. -/
def fresh (s : State α) (now : F64) : Bool := lt zero s.available && lt now s.expiresAt

/-- `grant(count, ttlMs)`. -/
def grant (o : Options) (s : State α) (count ttl : Option F64) (now : F64) : State α :=
  { s with
    expiresAt := deadline o ttl now
    available := count.getD o.defaultCount
    granted := count.getD o.defaultCount
    spent := 0 }

/-- `tryAcquire()`. -/
def tryAcquire (s : State α) (now : F64) : Bool × State α :=
  if fresh s now then
    (true, { s with
      available := sub s.available (ofInt 1)
      spent := s.spent + 1
      releases := s.releases ++ [⟨now, s.expiresAt⟩] })
  else (false, s)

/-- `enqueue(item)`: refused, with the queue as it was, once the bound is reached. -/
def enqueue (o : Options) (s : State α) (item : α) : Bool × State α :=
  if le o.bound (ofInt s.queue.length) then (false, s)
  else (true, { s with queue := s.queue ++ [item], accepted := s.accepted ++ [item] })

/-- The loop of `requestN`: what leaves the queue, the permits left, and what
stays. -/
def drain (available : F64) : List α → List α × F64 × List α
  | [] => ([], available, [])
  | item :: queue =>
    if lt zero available then
      let (out, available, queue) := drain (sub available (ofInt 1)) queue
      (item :: out, available, queue)
    else ([], available, item :: queue)

/-- `requestN(count, ttlMs)`. -/
def requestN (o : Options) (s : State α) (count : F64) (ttl : Option F64) (now : F64) :
    List α × State α :=
  let (out, available, queue) := drain count s.queue
  (out, { s with
    expiresAt := deadline o ttl now
    available
    granted := count
    queue
    spent := out.length
    drained := s.drained ++ out
    releases := s.releases ++ List.replicate out.length ⟨now, deadline o ttl now⟩ })

/-- What can happen to a gate. -/
inductive Action (α : Type) where
  | grant (count ttl : Option F64) (now : F64)
  | tryAcquire (now : F64)
  | enqueue (item : α)
  | requestN (count : F64) (ttl : Option F64) (now : F64)

def machine (o : Options) : Machine (State α) (Action α) where
  init := .init
  next s
    | .grant count ttl now => some (grant o s count ttl now)
    | .tryAcquire now => some (tryAcquire s now).2
    | .enqueue item => some (enqueue o s item).2
    | .requestN count ttl now => some (requestN o s count ttl now).2

/-! ## the promises -/

/-- What the gate promises of every state. -/
structure Kept (o : Options) (s : State α) : Prop where
  /-- Of each frame let through since the last grant: it has a permit. -/
  permitted : s.spent = 0 ∨ le (ofInt s.spent) s.granted = true
  /-- No release is after the deadline of its window. -/
  inTime : ∀ r ∈ s.releases, lt r.deadline r.now = false
  /-- The frames taken into the queue left it in order and once each, or stand in it. -/
  fifo : s.accepted = s.drained ++ s.queue
  /-- The queue is within its bound. -/
  bounded : s.queue = [] ∨ le (ofInt s.queue.length) o.bound = true

/-- A number that can be counted up to one by one: whole and at most `2^53`,
not positive, or infinite. -/
def Counts (c : F64) : Prop :=
  (∃ n : Nat, n ≤ 2 ^ 53 ∧ c.Is n) ∨ lt zero c = false ∨ c = inf

/-- A window fits: its permits can be counted, and where it releases frames
from the queue it is not over when it opens. -/
def Fits (o : Options) (s : State α) : Action α → Prop
  | .grant count _ _ => Counts (count.getD o.defaultCount)
  | .requestN count ttl now => Counts count ∧
      (s.queue = [] ∨ lt zero count = false ∨ lt (deadline o ttl now) now = false)
  | _ => True

/-! ## permits -/

/-- The permits left after `spent` frames. -/
def Spending (granted available : F64) (spent : Nat) : Prop :=
  (∃ n : Nat, n ≤ 2 ^ 53 ∧ granted.Is n ∧ spent ≤ n ∧ available.Is ((n : Int) - spent)) ∨
    (lt zero available = false ∧ spent = 0) ∨ (granted = inf ∧ available = inf)

theorem Spending.start {c : F64} (h : Counts c) : Spending c c 0 := by
  rcases h with ⟨n, hn, hc⟩ | hc | hc
  · exact Or.inl ⟨n, hn, hc, Nat.zero_le n, hc⟩
  · exact Or.inr (Or.inl ⟨hc, rfl⟩)
  · exact Or.inr (Or.inr ⟨hc, hc⟩)

theorem is_one : (ofInt 1).Is 1 := is_ofInt (by decide)

theorem inf_sub_one : sub inf (ofInt 1) = inf := by decide +kernel

variable {available : F64}

theorem Spending.take {granted : F64} {spent : Nat}
    (h : Spending granted available spent) (hpos : lt zero available = true) :
    Spending granted (sub available (ofInt 1)) (spent + 1) := by
  rcases h with ⟨n, hn, hgranted, hle, havail⟩ | ⟨hnot, -⟩ | ⟨hgranted, havail⟩
  · have hlt := (F64.is_zero.lt_iff havail).mp hpos
    have hsub := havail.sub is_one (by omega)
    refine Or.inl ⟨n, hn, hgranted, by omega, ?_⟩
    have heq : (n : Int) - (spent + 1 : Nat) = n - spent - 1 := by omega
    rwa [heq]
  · rw [hnot] at hpos
    contradiction
  · rw [havail, inf_sub_one]
    exact Or.inr (Or.inr ⟨hgranted, rfl⟩)

theorem Spending.permitted {granted : F64} {spent : Nat} (h : Spending granted available spent) :
    spent = 0 ∨ le (ofInt spent) granted = true := by
  rcases h with ⟨n, hn, hgranted, hle, -⟩ | ⟨-, hzero⟩ | ⟨hgranted, -⟩
  · have hspent : (ofInt spent).Is spent := is_ofInt (by omega)
    exact Or.inr ((hspent.le_iff hgranted).mpr (by omega))
  · exact Or.inl hzero
  · rw [hgranted]
    exact Or.inr (F64.ofInt_le_inf _)

/-- The loop of `requestN` takes from the front, and a permit for each. -/
theorem drain_spec {granted : F64} {spent : Nat} (queue : List α)
    (h : Spending granted available spent) :
    (drain available queue).1 ++ (drain available queue).2.2 = queue ∧
      Spending granted (drain available queue).2.1 (spent + (drain available queue).1.length) := by
  induction queue generalizing available spent with
  | nil => exact ⟨rfl, h⟩
  | cons item queue ih =>
    by_cases hpos : lt zero available = true
    · have hrest := ih (h.take hpos)
      rw [drain, if_pos hpos]
      refine ⟨congrArg (item :: ·) hrest.1, ?_⟩
      have heq : spent + ((drain (sub available (ofInt 1)) queue).1.length + 1) =
          spent + 1 + (drain (sub available (ofInt 1)) queue).1.length := by omega
      show Spending granted _ (spent + (_ + 1))
      rw [heq]
      exact hrest.2
    · rw [drain, if_neg hpos]
      exact ⟨rfl, h⟩

theorem drain_none {queue : List α}
    (h : queue = [] ∨ lt zero available = false) : (drain available queue).1 = [] := by
  cases queue with
  | nil => rfl
  | cons item queue =>
    have hnot := h.resolve_left (by simp)
    rw [drain, if_neg (by simp [hnot])]

/-! ## the queue -/

/-- The queue has been filled one by one up to a bound that can be counted. -/
def Within (bound : F64) (length : Nat) : Prop :=
  length = 0 ∨ (∃ n : Nat, n ≤ 2 ^ 53 ∧ bound.Is n ∧ length ≤ n) ∨ bound = inf

/-- A bound that can be counted up to. -/
def Bounds (bound : F64) : Prop :=
  (∃ n : Nat, n ≤ 2 ^ 53 ∧ bound.Is n) ∨ le bound zero = true ∨ bound = inf

theorem Within.mono {bound : F64} {m n : Nat} (h : Within bound n) (hle : m ≤ n) :
    Within bound m := by
  rcases h with hzero | ⟨k, hk, hbound, hn⟩ | hinf
  · exact Or.inl (by omega)
  · exact Or.inr (Or.inl ⟨k, hk, hbound, by omega⟩)
  · exact Or.inr (Or.inr hinf)

theorem Within.push {bound : F64} {length : Nat} (hb : Bounds bound) (h : Within bound length)
    (hroom : le bound (ofInt length) = false) : Within bound (length + 1) := by
  rcases hb with ⟨n, hn, hbound⟩ | hzero | hinf
  · have hle : length ≤ n := by
      rcases h with h0 | ⟨k, -, hk, hle⟩ | hinf
      · omega
      · have := hk.unique hbound
        omega
      · rw [hinf] at hbound
        exact absurd hbound.1 (by decide)
    have hlength : (ofInt length).Is length := is_ofInt (by omega)
    have hlt : ¬ (n : Int) ≤ length := fun hge => by
      rw [(hbound.le_iff hlength).mpr hge] at hroom
      contradiction
    exact Or.inr (Or.inl ⟨n, hn, hbound, by omega⟩)
  · rw [F64.le_trans hzero (F64.zero_le_ofInt _)] at hroom
    contradiction
  · exact Or.inr (Or.inr hinf)

theorem Within.bounded {bound : F64} {queue : List α} (h : Within bound queue.length) :
    queue = [] ∨ le (ofInt queue.length) bound = true := by
  rcases h with hzero | ⟨n, hn, hbound, hle⟩ | hinf
  · exact Or.inl (List.eq_nil_of_length_eq_zero hzero)
  · have hlength : (ofInt queue.length).Is queue.length := is_ofInt (by omega)
    exact Or.inr ((hlength.le_iff hbound).mpr (by omega))
  · rw [hinf]
    exact Or.inr (F64.ofInt_le_inf _)

/-! ## the invariant -/

/-- The invariant of the gate. -/
structure Inv (o : Options) (s : State α) : Prop where
  spending : Spending s.granted s.available s.spent
  inTime : ∀ r ∈ s.releases, lt r.deadline r.now = false
  fifo : s.accepted = s.drained ++ s.queue
  within : Within o.bound s.queue.length

section Step

variable {o : Options} {s : State α}

theorem inv_init : Inv o (State.init (α := α)) where
  spending := Or.inr (Or.inl ⟨show lt zero zero = false by decide, rfl⟩)
  inTime := fun _ h => absurd h List.not_mem_nil
  fifo := rfl
  within := Or.inl rfl

theorem inv_grant (hi : Inv o s) {count : Option F64} (hc : Counts (count.getD o.defaultCount))
    (ttl : Option F64) (now : F64) : Inv o (grant o s count ttl now) :=
  { hi with spending := Spending.start hc }

theorem inv_tryAcquire (hi : Inv o s) (now : F64) : Inv o (tryAcquire s now).2 := by
  unfold tryAcquire
  by_cases hfresh : fresh s now = true
  · have hpair := (Bool.and_eq_true _ _).mp hfresh
    rw [if_pos hfresh]
    refine { hi with spending := hi.spending.take hpair.1, inTime := fun r hr => ?_ }
    rcases List.mem_append.mp hr with hr | hr
    · exact hi.inTime r hr
    · rw [List.mem_singleton.mp hr]
      exact F64.lt_asymm hpair.2
  · rw [if_neg hfresh]
    exact hi

theorem inv_enqueue (hb : Bounds o.bound) (hi : Inv o s) (item : α) :
    Inv o (enqueue o s item).2 := by
  unfold enqueue
  by_cases hfull : le o.bound (ofInt s.queue.length) = true
  · rw [if_pos hfull]
    exact hi
  · have hpush := Within.push hb hi.within (Bool.eq_false_iff.mpr hfull)
    rw [if_neg hfull]
    refine { hi with fifo := ?_, within := ?_ }
    · simp only [hi.fifo, List.append_assoc]
    · simpa only [List.length_append, List.length_singleton] using hpush

theorem inv_requestN (hi : Inv o s) {count : F64} {ttl : Option F64} {now : F64}
    (h : Fits o s (.requestN count ttl now)) : Inv o (requestN o s count ttl now).2 := by
  have hspec := drain_spec s.queue (Spending.start h.1)
  have hlength := congrArg List.length hspec.1
  rw [List.length_append] at hlength
  constructor
  case spending => simpa only [requestN, Nat.zero_add] using hspec.2
  case inTime =>
    intro r hr
    rcases List.mem_append.mp hr with hr | hr
    · exact hi.inTime r hr
    · obtain ⟨hne, rfl⟩ := List.mem_replicate.mp hr
      rcases h.2 with hnil | hnone | hlate
      · rw [drain_none (Or.inl hnil)] at hne
        exact absurd rfl hne
      · rw [drain_none (Or.inr hnone)] at hne
        exact absurd rfl hne
      · exact hlate
  case fifo =>
    simp only [requestN, List.append_assoc, hspec.1]
    exact hi.fifo
  case within =>
    apply hi.within.mono
    show (drain count s.queue).2.2.length ≤ s.queue.length
    omega

/-- **Step lemma**. -/
theorem inv_next (hb : Bounds o.bound) (hi : Inv o s) {a : Action α} (hfit : Fits o s a)
    {s' : State α} (hs : (machine o).next s a = some s') : Inv o s' := by
  cases a with
  | grant count ttl now => exact Option.some.inj hs ▸ inv_grant hi hfit ttl now
  | tryAcquire now => exact Option.some.inj hs ▸ inv_tryAcquire hi now
  | enqueue item => exact Option.some.inj hs ▸ inv_enqueue hb hi item
  | requestN count ttl now => exact Option.some.inj hs ▸ inv_requestN hi hfit

theorem Inv.observed (hi : Inv o s) : Kept o s :=
  ⟨hi.spending.permitted, hi.inTime, hi.fifo, hi.within.bounded⟩

end Step

/-! ## runs -/

/-- **The gate**: in every run whose windows fit, over a bound that can be
counted up to. -/
theorem kept_of_fits (o : Options) (hb : Bounds o.bound) {as : List (Action α)} {s : State α}
    (h : (machine o).Runs (Fits o) as s) : Kept o s :=
  (h.invariant inv_init fun _ _ _ hi hfit hs => inv_next hb hi hfit hs).observed

def defaults : Options := ⟨some (ofInt 256), some (ofInt 10000), none⟩

def half : F64 := ⟨0x3fe0000000000000⟩

/-- A frame queued, and the window that ended a millisecond before it opens. -/
def lateWindow : State Nat :=
  (requestN defaults (enqueue defaults .init 7).2 (ofInt 1) (some (ofInt (-1)))
    (ofInt 1000)).2

/-- A frame through a window of half a permit. -/
def halfWindow : State Nat :=
  (tryAcquire (grant defaults .init (some half) none (ofInt 1000)) (ofInt 1000)).2

/-- Not every run keeps the promises: `requestN` releases a queued frame though
its window is over, and half a permit lets a frame through. -/
theorem late_release :
    ((machine defaults).Runs Any
      ([] ++ [.enqueue 7] ++ [.requestN (ofInt 1) (some (ofInt (-1))) (ofInt 1000)])
        lateWindow ∧ lateWindow.drained = [7] ∧ ¬ Kept defaults lateWindow) ∧
    ((machine defaults).Runs Any
      ([] ++ [.grant (some half) none (ofInt 1000)] ++ [.tryAcquire (ofInt 1000)])
        halfWindow ∧ halfWindow.spent = 1 ∧ ¬ Kept defaults halfWindow) := by
  constructor
  · refine ⟨.snoc (.snoc .nil trivial rfl) trivial rfl, by decide +kernel, fun h => ?_⟩
    have hlate := h.inTime ⟨ofInt 1000, ofInt 999⟩ (by decide +kernel)
    have hover : lt (ofInt 999) (ofInt 1000) = true := by decide +kernel
    rw [hover] at hlate
    contradiction
  · refine ⟨.snoc (.snoc .nil trivial rfl) trivial rfl, by decide +kernel, fun h => ?_⟩
    have hover : ¬ (halfWindow.spent = 0 ∨
        le (ofInt halfWindow.spent) halfWindow.granted = true) := by decide +kernel
    exact hover h.permitted

/-- A window of two permits, opened in time over a queue of one. -/
theorem kept_of_fits_example : Kept defaults
    (tryAcquire (requestN defaults (enqueue defaults .init 7).2 (ofInt 2) none
      (ofInt 1000)).2 (ofInt 1001)).2 := by
  have hbound : Bounds defaults.bound := Or.inl ⟨256, by decide, is_ofInt (by decide)⟩
  have hcount : Counts (ofInt 2) := Or.inl ⟨2, by decide, is_ofInt (by decide)⟩
  have hlate : lt (deadline defaults none (ofInt 1000)) (ofInt 1000) = false := by
    decide +kernel
  have hrun : (machine defaults).Runs (Fits defaults)
      ([] ++ [.enqueue 7] ++ [.requestN (ofInt 2) none (ofInt 1000)] ++
        [.tryAcquire (ofInt 1001)]) _ :=
    .snoc (.snoc (.snoc .nil trivial rfl) ⟨hcount, Or.inr (Or.inr hlate)⟩ rfl) trivial rfl
  exact kept_of_fits defaults hbound hrun

end BunServe.Lease
