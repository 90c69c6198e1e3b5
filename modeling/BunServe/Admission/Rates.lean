import Mathlib.Data.List.Find
import Mathlib.Data.Rat.Floor
import BunServe.Admission.Accounting
import BunServe.Lib.TokenBucket

/-!
# BunServe.Admission.Rates

The rate lanes of the message gate, counted exactly and on a clock that does
not run backwards.

A message passes up to four lanes: a count and a weight of bytes, each for its
connection and for all.  `refusing` names the lane that refuses it, the first
in the order of the source.

* `enter_refused` — a rate refusal is that lane's, and only that lane is looked
  at; `enter_passed` — otherwise every lane that is on pays;
* `metered` — the gate with the clock and the messages it admitted;
* `rate_lanes` — in every run no lane admits more, in any stretch of time, than
  its capacity and what flows in; a refusal charges nothing; and the delay it
  gives is enough.
-/

namespace BunServe.Admission

open Machine
open Arith
open JsMap (get?_set)

/-! ## lanes -/

/-- A rate lane. -/
inductive Lane where
  | connection (ws : Socket)
  | global
  | connectionBytes (ws : Socket)
  | globalBytes
  deriving DecidableEq

/-- The lanes of a connection's messages, in the order they are checked. -/
def lanesOf (ws : Socket) : List Lane := [.connection ws, .global, .connectionBytes ws, .globalBytes]

namespace Lane

def capacity (c : Config) : Lane → Nat
  | .connection _ => c.perConnectionRate
  | .global => c.globalRate
  | .connectionBytes _ => c.perConnectionBytesRate
  | .globalBytes => c.globalBytesRate

def scope : Lane → Scope
  | .connection _ | .connectionBytes _ => .connection
  | .global | .globalBytes => .global

end Lane

variable {c : Config} {ws : Socket} {L : Lane}

section
variable {N : Type} [Arith N]

/-- `bytes > 0 ? bytes : 0`. -/
def weight (bytes : N) : N := if lt (ofNat 0) bytes then bytes else ofNat 0

namespace Lane

def need (cost : N) : Lane → N
  | .connection _ | .global => ofNat 1
  | .connectionBytes _ | .globalBytes => cost

/-- Whether the lane looks at a message of a weight. -/
def on (c : Config) (cost : N) : Lane → Bool
  | .connection _ => c.perConnectionRate > 0
  | .global => c.globalRate > 0
  | .connectionBytes _ => lt (ofNat 0) cost && c.perConnectionBytesRate > 0
  | .globalBytes => lt (ofNat 0) cost && c.globalBytesRate > 0

def bucket (s : State N) : Lane → Option (Bucket N)
  | .connection ws => (s.connections.get? ws).bind (·.rate)
  | .global => s.globalBucket
  | .connectionBytes ws => (s.connections.get? ws).bind (·.bytes)
  | .globalBytes => s.globalBytesBucket

/-- The lane's bucket among the four an `enter` looks at. -/
def slot (r : Rates N) : Lane → Option (Bucket N)
  | .connection _ => r.connection
  | .global => r.global
  | .connectionBytes _ => r.connectionBytes
  | .globalBytes => r.globalBytes

def refilled (c : Config) (b : Option (Bucket N)) (now : N) (L : Lane) : Bucket N :=
  refill b (L.capacity c) c.rateWindowMs now

def short (c : Config) (b : Option (Bucket N)) (now cost : N) (L : Lane) : Bool :=
  L.on c cost && lt (L.refilled c b now).tokens (L.need cost)

def rejection (c : Config) (b : Option (Bucket N)) (now cost : N) (L : Lane) : Rejection N :=
  rateRejection L.scope (L.refilled c b now) (L.capacity c) c.rateWindowMs (L.need cost)

def paid (c : Config) (b : Option (Bucket N)) (now cost : N) (L : Lane) : Bucket N :=
  { L.refilled c b now with tokens := (L.refilled c b now).tokens - L.need cost }

end Lane

def refusing (c : Config) (s : State N) (ws : Socket) (bytes now : N) : Option Lane :=
  (lanesOf ws).find? fun L => L.short c (L.bucket s) now (weight bytes)

/-! ## one message -/

/-- The rate lanes of `enter`, lane by lane. -/
theorem chargeRates_eq (c : Config) (r : Rates N) (now cost : N) (ws : Socket) :
    chargeRates c r now cost =
      if (Lane.connection ws).short c r.connection now cost then
        (some ((Lane.connection ws).rejection c r.connection now cost),
          { r with connection := some ((Lane.connection ws).refilled c r.connection now) })
      else if Lane.global.short c r.global now cost then
        (some (Lane.global.rejection c r.global now cost),
          { r with global := some (Lane.global.refilled c r.global now) })
      else if (Lane.connectionBytes ws).short c r.connectionBytes now cost then
        (some ((Lane.connectionBytes ws).rejection c r.connectionBytes now cost),
          { r with
            connectionBytes := some ((Lane.connectionBytes ws).refilled c r.connectionBytes now) })
      else if Lane.globalBytes.short c r.globalBytes now cost then
        (some (Lane.globalBytes.rejection c r.globalBytes now cost),
          { r with globalBytes := some (Lane.globalBytes.refilled c r.globalBytes now) })
      else (none, {
        connection := if (Lane.connection ws).on c cost then
          some ((Lane.connection ws).paid c r.connection now cost) else r.connection
        global := if Lane.global.on c cost then
          some (Lane.global.paid c r.global now cost) else r.global
        connectionBytes := if (Lane.connectionBytes ws).on c cost then
          some ((Lane.connectionBytes ws).paid c r.connectionBytes now cost) else r.connectionBytes
        globalBytes := if Lane.globalBytes.on c cost then
          some (Lane.globalBytes.paid c r.globalBytes now cost) else r.globalBytes }) := rfl

/-- The lane that refuses, among the four buckets. -/
def refusingOf (c : Config) (r : Rates N) (ws : Socket) (now cost : N) : Option Lane :=
  (lanesOf ws).find? fun L => L.short c (L.slot r) now cost

theorem chargeRates_refused {r : Rates N} {now cost : N} (h : refusingOf c r ws now cost = some L) :
    (chargeRates c r now cost).1 = some (L.rejection c (L.slot r) now cost) ∧
      ∀ M ∈ lanesOf ws, M.slot (chargeRates c r now cost).2 =
        if M = L then some (L.refilled c (L.slot r) now) else M.slot r := by
  rw [chargeRates_eq c r now cost ws]
  simp only [refusingOf, lanesOf, Lane.slot] at h
  cases h1 : (Lane.connection ws).short c r.connection now cost with
  | true =>
    obtain rfl : Lane.connection ws = L := by simpa [h1] using h
    simp [lanesOf, Lane.slot]
  | false =>
    cases h2 : Lane.global.short c r.global now cost with
    | true =>
      obtain rfl : Lane.global = L := by simpa [h1, h2] using h
      simp [lanesOf, Lane.slot]
    | false =>
      cases h3 : (Lane.connectionBytes ws).short c r.connectionBytes now cost with
      | true =>
        obtain rfl : Lane.connectionBytes ws = L := by simpa [h1, h2, h3] using h
        simp [lanesOf, Lane.slot]
      | false =>
        cases h4 : Lane.globalBytes.short c r.globalBytes now cost with
        | true =>
          obtain rfl : Lane.globalBytes = L := by simpa [h1, h2, h3, h4] using h
          simp [lanesOf, Lane.slot]
        | false => simp [h1, h2, h3, h4] at h

theorem chargeRates_passed {r : Rates N} {now cost : N} (h : refusingOf c r ws now cost = none) :
    (chargeRates c r now cost).1 = none ∧
      ∀ M ∈ lanesOf ws, M.slot (chargeRates c r now cost).2 =
        if M.on c cost then some (M.paid c (M.slot r) now cost) else M.slot r := by
  rw [chargeRates_eq c r now cost ws]
  simp only [refusingOf, List.find?_eq_none, lanesOf, List.forall_mem_cons, Lane.slot] at h
  obtain ⟨h1, h2, h3, h4, -⟩ := h
  simp [h1, h2, h3, h4, lanesOf, Lane.slot]

/-! ## the buckets of the gate -/

def SameBuckets (s s' : State N) : Prop := ∀ L : Lane, L.bucket s' = L.bucket s

variable {s : State N}

omit [Arith N] in
theorem SameBuckets.trans {s' s'' : State N} (h : SameBuckets s s') (h' : SameBuckets s' s'') :
    SameBuckets s s'' := fun L => (h' L).trans (h L)

omit [Arith N] in
theorem SameBuckets.touch {s' : State N} {conn conn' : Connection N}
    (hconn : s.connections.get? ws = some conn)
    (hset : s'.connections = s.connections.set ws conn') (hrate : conn'.rate = conn.rate)
    (hbytes : conn'.bytes = conn.bytes) (hglobal : s'.globalBucket = s.globalBucket)
    (hglobalBytes : s'.globalBytesBucket = s.globalBytesBucket) : SameBuckets s s' := by
  intro L
  cases L with
  | connection ws' =>
    simp only [Lane.bucket, hset, get?_set]
    split
    · next heq => subst heq; simp [hconn, hrate]
    · rfl
  | connectionBytes ws' =>
    simp only [Lane.bucket, hset, get?_set]
    split
    · next heq => subst heq; simp [hconn, hbytes]
    · rfl
  | global => exact hglobal
  | globalBytes => exact hglobalBytes

omit [Arith N] in
theorem same_startOne {s' : State N} (h : startOne c s = some s') : SameBuckets s s' := by
  unfold startOne at h
  split at h
  · cases h
  · next w hw =>
    split at h
    · cases h
    · next conn hconn =>
      cases h
      exact .touch hconn rfl rfl rfl rfl rfl

omit [Arith N] in
theorem same_drainFor (n : Nat) (s : State N) : SameBuckets s (drainFor c n s) := by
  induction n generalizing s with
  | zero => exact fun _ => rfl
  | succ n ih =>
    simp only [drainFor]
    split
    · exact fun _ => rfl
    · next s' hs => exact (same_startOne hs).trans (ih s')

omit [Arith N] in
theorem same_drain (c : Config) (s : State N) : SameBuckets s (drain c s) :=
  same_drainFor _ s

omit [Arith N] in
theorem same_release (c : Config) (s : State N) (ticket : Nat) : SameBuckets s (release c s ticket) := by
  unfold release
  split
  · exact fun _ => rfl
  rename_i p hp
  split
  · exact fun _ => rfl
  · split
    · exact fun _ => rfl
    · next conn hconn =>
      refine .trans ?_ (same_drain c _)
      exact .touch hconn rfl rfl rfl rfl rfl

omit [Arith N] in
theorem same_close (c : Config) (s : State N) (ws : Socket) : SameBuckets s (close c s ws) := by
  unfold close
  split
  · exact fun _ => rfl
  · next conn hconn =>
    refine .trans ?_ (same_drain c _)
    exact .touch hconn rfl rfl rfl rfl rfl

omit [Arith N] in
theorem same_place (c : Config) {w : Waiter} {conn : Connection N}
    (hconn : s.connections.get? w.ws = some conn) : SameBuckets s (place c s w conn).2 := by
  unfold place
  split
  · exact .touch hconn rfl rfl rfl rfl rfl
  · split
    · exact fun _ => rfl
    · split
      · exact fun _ => rfl
      · exact .touch hconn rfl rfl rfl rfl rfl

/-! ## one message at the gate -/

/-- The four buckets an `enter` of the connection looks at. -/
def ratesOf (s : State N) (ws : Socket) : Rates N :=
  { connection := (stateFor s ws).1.rate, global := s.globalBucket
    connectionBytes := (stateFor s ws).1.bytes, globalBytes := s.globalBytesBucket }

omit [Arith N] in
theorem slot_ratesOf (h : L ∈ lanesOf ws) : L.slot (ratesOf s ws) = L.bucket s := by
  have hconn : ∀ f : Connection N → Option (Bucket N), f fresh = none →
      f (stateFor s ws).1 = (s.connections.get? ws).bind f := by
    intro f hf
    unfold stateFor
    split
    · next hget => simp [hget]
    · next hget => simp [hget, hf]
  simp only [lanesOf, List.mem_cons, List.not_mem_nil, or_false] at h
  obtain rfl | rfl | rfl | rfl := h
  · exact hconn (·.rate) rfl
  · rfl
  · exact hconn (·.bytes) rfl
  · rfl

theorem refusing_eq (c : Config) (s : State N) (ws : Socket) (bytes now : N) :
    refusing c s ws bytes now = refusingOf c (ratesOf s ws) ws now (weight bytes) := by
  refine List.find?_congr fun L hL => ?_
  rw [slot_ratesOf hL]

omit [Arith N] in
theorem same_stateFor (s : State N) (ws : Socket) : SameBuckets s (stateFor s ws).2 := by
  unfold stateFor
  split
  · exact fun _ => rfl
  rename_i hget
  intro L
  cases L with
  | connection ws' | connectionBytes ws' =>
    simp only [Lane.bucket, get?_set]
    split
    · next heq => subst heq; simp [hget, fresh]
    · rfl
  | global | globalBytes => rfl

omit [Arith N] in
theorem bucket_storeRates (s : State N) (ws : Socket) (conn : Connection N) (r : Rates N) (L : Lane) :
    L.bucket (storeRates s ws conn r).2 = if L ∈ lanesOf ws then L.slot r else L.bucket s := by
  cases L with
  | connection ws' | connectionBytes ws' =>
    simp only [storeRates, Lane.bucket, get?_set, lanesOf, Lane.slot]
    by_cases heq : ws' = ws <;> simp [heq]
  | global | globalBytes => simp [storeRates, Lane.bucket, lanesOf, Lane.slot]

/-- Whether the gate looks at the rate lanes of a connection's messages. -/
def metersOf (c : Config) (s : State N) (ws : Socket) : Bool :=
  c.enabled && !(stateFor s ws).1.closed

/-- The message is admitted, to run or to wait. -/
def Answer.admits : Answer N → Bool
  | .permit _ | .queued _ => true
  | .rejected _ => false

/-- Without rate lanes to look at, `enter` leaves the buckets as they are and
refuses nothing for a rate. -/
theorem enter_unmetered (bytes now : N) (h : metersOf c s ws = false) :
    SameBuckets s (enter c s ws bytes now).2 ∧
      (∀ r, (enter c s ws bytes now).1 = .rejected r → r.reason ≠ .rate_limit) ∧
      ((enter c s ws bytes now).1.admits = true → c.enabled = false) := by
  have hsame := same_stateFor s ws
  have hconn : (stateFor s ws).2.connections.get? ws = some (stateFor s ws).1 := by
    unfold stateFor
    split
    · next hget => exact hget
    · exact JsMap.get?_set_self _ _ _
  unfold enter
  cases hen : c.enabled with
  | false =>
    simp only [↓reduceIte]
    refine ⟨hsame.trans ?_, by simp, fun _ => trivial⟩
    exact .touch hconn rfl rfl rfl rfl rfl
  | true =>
    have hclosed : (stateFor s ws).1.closed = true := by simpa [metersOf, hen] using h
    simp only [hclosed]
    refine ⟨hsame, fun r hr => ?_, fun hadmits => by simp [Answer.admits] at hadmits⟩
    obtain rfl := Answer.rejected.inj hr
    simp

/-- `enter` past the closed check: the lanes, then the concurrency limits. -/
theorem enter_metered (bytes now : N)
    (h : metersOf c s ws = true) :
    ∃ s₀ : State N, SameBuckets s s₀ ∧ enter c s ws bytes now =
      let r := chargeRates c (ratesOf s ws) now (weight bytes)
      let (conn, s₁) := storeRates s₀ ws (stateFor s ws).1 r.2
      match r.1 with
      | some r => (.rejected r, s₁)
      | none => place c s₁ { ws, ticket := s₀.nextTicket - 1 } conn := by
  obtain ⟨hen, hopen⟩ : c.enabled = true ∧ (stateFor s ws).1.closed = false := by
    simpa [metersOf] using h
  have hglobals : (stateFor s ws).2.globalBucket = s.globalBucket ∧
      (stateFor s ws).2.globalBytesBucket = s.globalBytesBucket := by
    unfold stateFor
    split <;> exact ⟨rfl, rfl⟩
  refine ⟨{ (stateFor s ws).2 with nextTicket := (stateFor s ws).2.nextTicket + 1 },
    same_stateFor s ws, ?_⟩
  unfold enter
  simp only [hen, hopen, hglobals]
  rfl

/-- **A rate refusal** is that of the lane that refuses, and only its bucket is
brought up to date. -/
theorem enter_refused {bytes now : N}
    (h : metersOf c s ws = true) (hL : refusing c s ws bytes now = some L) :
    (enter c s ws bytes now).1 = .rejected (L.rejection c (L.bucket s) now (weight bytes)) ∧
      ∀ M : Lane, M.bucket (enter c s ws bytes now).2 =
        if M = L then some (L.refilled c (L.bucket s) now) else M.bucket s := by
  have hmem : L ∈ lanesOf ws := List.mem_of_find?_eq_some hL
  rw [refusing_eq] at hL
  obtain ⟨s₀, hsame, heq⟩ := enter_metered bytes now h
  obtain ⟨hrefused, hslots⟩ := chargeRates_refused hL
  rw [heq]
  simp only [hrefused, slot_ratesOf hmem, true_and]
  intro M
  rw [bucket_storeRates]
  by_cases hM : M ∈ lanesOf ws
  · rw [if_pos hM, hslots M hM, slot_ratesOf hmem, slot_ratesOf hM]
  · rw [if_neg hM, hsame M, if_neg (by rintro rfl; exact hM hmem)]

/-- **A message that passes** has paid on every lane of its own that is on; it
is not refused for a rate. -/
theorem enter_passed {bytes now : N}
    (h : metersOf c s ws = true) (hL : refusing c s ws bytes now = none) :
    (∀ r, (enter c s ws bytes now).1 = .rejected r → r.reason ≠ .rate_limit) ∧
      ∀ M : Lane, M.bucket (enter c s ws bytes now).2 =
        if M ∈ lanesOf ws ∧ M.on c (weight bytes) then some (M.paid c (M.bucket s) now (weight bytes))
        else M.bucket s := by
  rw [refusing_eq] at hL
  obtain ⟨s₀, hsame, heq⟩ := enter_metered bytes now h
  obtain ⟨hnone, hslots⟩ := chargeRates_passed hL
  rw [heq]
  simp only [hnone]
  constructor
  · intro r hr
    unfold place at hr
    split at hr
    · cases hr
    · split at hr
      · obtain rfl := Answer.rejected.inj hr
        simp
      · split at hr
        · obtain rfl := Answer.rejected.inj hr
          simp
        · cases hr
  · intro M
    rw [same_place c (JsMap.get?_set_self _ _ _) M, bucket_storeRates]
    by_cases hM : M ∈ lanesOf ws
    · rw [hslots M hM, slot_ratesOf hM]
      simp [hM]
    · rw [if_neg hM, hsame M, if_neg fun hc => hM hc.1]

end

/-! ## exact numbers -/

instance : Arith ℚ where
  ofNat n := n
  lt a b := a < b
  ceil q := ⌈q⌉

open TokenBucket (Level Bounded spent)

def Bucket.toLevel (b : Bucket ℚ) : Level ℚ := { tokens := b.tokens, updated := b.updatedAt }

def Lane.flow (c : Config) (L : Lane) : ℚ := L.capacity c / c.rateWindowMs

theorem Lane.flow_nonneg (c : Config) (L : Lane) : 0 ≤ L.flow c := by
  simp only [Lane.flow]
  positivity

theorem Lane.refilled_updatedAt (c : Config) (b : Option (Bucket ℚ)) (now : ℚ) (L : Lane) :
    (L.refilled c b now).updatedAt = now := by
  cases b <;> rfl

theorem Lane.refilled_eq (c : Config) (b : Option (Bucket ℚ)) (now : ℚ) (L : Lane) :
    (L.refilled c b now).toLevel =
      TokenBucket.look (L.capacity c : ℚ) (L.flow c) (b.map (·.toLevel)) now := by
  cases b with
  | none => rfl
  | some b =>
    have hflow : max 0 (now - b.updatedAt) * (L.capacity c : ℚ) / c.rateWindowMs =
        max 0 (now - b.updatedAt) * L.flow c := mul_div_assoc _ _ _
    show Level.mk (min (L.capacity c : ℚ) (b.tokens + max 0 (now - b.updatedAt) *
      (L.capacity c : ℚ) / c.rateWindowMs)) now = _
    rw [hflow]
    rfl

theorem weight_nonneg (bytes : ℚ) : 0 ≤ weight bytes := by
  show (0 : ℚ) ≤ if decide ((0 : ℚ) < bytes) then bytes else 0
  split
  · next h => exact (of_decide_eq_true h).le
  · exact le_refl _

variable {cost : ℚ}

theorem Lane.on_iff (hcost : 0 ≤ cost) (hcap : 0 < L.capacity c) :
    L.on c cost = true ↔ L.need cost ≠ 0 := by
  have hweighs : (lt (ofNat 0) cost : Bool) = true ↔ cost ≠ 0 := by
    show decide ((0 : ℚ) < cost) = true ↔ cost ≠ 0
    rw [decide_eq_true_iff]
    exact ⟨ne_of_gt, lt_of_le_of_ne' hcost⟩
  cases L with
  | connection ws | global => simpa [Lane.on, Lane.need, Arith.ofNat, Lane.capacity] using hcap
  | connectionBytes ws | globalBytes =>
    simp only [Lane.capacity] at hcap
    simp [Lane.on, Lane.need, hweighs, hcap]

theorem Lane.need_nonneg (hcost : 0 ≤ cost) (L : Lane) : 0 ≤ L.need cost := by
  have hone : (0 : ℚ) ≤ ofNat 1 := by
    show (0 : ℚ) ≤ ((1 : ℕ) : ℚ)
    simp
  cases L with
  | connection ws | global => exact hone
  | connectionBytes ws | globalBytes => exact hcost

theorem Lane.capacity_pos_of_on (h : L.on c cost = true) : 0 < L.capacity c := by
  cases L with
  | connection ws | global => simpa [Lane.on, Lane.capacity] using h
  | connectionBytes ws | globalBytes =>
    simp only [Lane.on, Bool.and_eq_true, decide_eq_true_eq] at h
    exact h.2

/-! ## runs -/

/-- A message the gate admitted. -/
structure Entry where
  ws : Socket
  bytes : ℚ
  time : ℚ

def Lane.costs (admitted : List Entry) (L : Lane) : List (ℚ × ℚ) :=
  (admitted.filter fun e => L ∈ lanesOf e.ws).map fun e => (e.time, L.need (weight e.bytes))

/-- The gate, the last reading of the clock, and the messages admitted so far. -/
structure Metered where
  gate : State ℚ
  clock : WithBot ℚ
  admitted : List Entry

/-- All sequences of calls on a clock that does not run backwards. -/
def metered (c : Config) : Machine Metered (Action ℚ) where
  init := { gate := createMessageAdmission, clock := ⊥, admitted := [] }
  next m
    | .enter ws bytes now =>
      if m.clock ≤ now then
        some {
          gate := step c m.gate (.enter ws bytes now)
          clock := now
          admitted := if (enter c m.gate ws bytes now).1.admits then
            m.admitted ++ [{ ws, bytes, time := now }] else m.admitted }
      else none
    | a => some { m with gate := step c m.gate a }

/-- The lanes in use stay within their bounds, and were last looked at in the past. -/
structure Steady (c : Config) (m : Metered) : Prop where
  bounded : ∀ L : Lane, 0 < L.capacity c →
    Bounded (L.capacity c : ℚ) (L.flow c) ((L.bucket m.gate).map (·.toLevel))
      ((L.costs m.admitted).filter fun e => e.2 ≠ 0)
  past : ∀ (L : Lane) (b : Bucket ℚ), L.bucket m.gate = some b → (b.updatedAt : WithBot ℚ) ≤ m.clock

theorem costs_append (admitted : List Entry) (e : Entry) (L : Lane) :
    (L.costs (admitted ++ [e])).filter (fun e => e.2 ≠ 0) =
      (L.costs admitted).filter (fun e => e.2 ≠ 0) ++
        if L ∈ lanesOf e.ws ∧ L.need (weight e.bytes) ≠ 0 then
          [(e.time, L.need (weight e.bytes))] else [] := by
  simp only [Lane.costs]
  by_cases hmem : L ∈ lanesOf e.ws <;> by_cases hneed : L.need (weight e.bytes) = 0 <;>
    simp [hmem, hneed]

variable {m m' : Metered}

theorem Steady.same (h : Steady c m) (hsame : SameBuckets m.gate m'.gate)
    (hclock : m.clock ≤ m'.clock) (hadmitted : m'.admitted = m.admitted) : Steady c m' where
  bounded := fun L hcap => by
    rw [hsame L, hadmitted]
    exact h.bounded L hcap
  past := fun L b hb => (h.past L b (by rw [← hsame L]; exact hb)).trans hclock

variable {now : ℚ}

theorem Steady.look_past (h : Steady c m) (hnow : m.clock ≤ now)
    (L : Lane) : ∀ v, (L.bucket m.gate).map (·.toLevel) = some v → v.updated ≤ now := by
  intro v hv
  obtain ⟨b, hb, rfl⟩ := Option.map_eq_some_iff.mp hv
  exact WithBot.coe_le_coe.mp ((h.past L b hb).trans hnow)

theorem capacity_of_disabled (h : c.enabled = false) (L : Lane) : L.capacity c = 0 := by
  simp only [Config.enabled, Bool.or_eq_false_iff, decide_eq_false_iff_not, not_lt,
    Nat.le_zero] at h
  obtain ⟨⟨⟨⟨⟨hrate, hglobal⟩, hbytes⟩, hglobalBytes⟩, -⟩, -⟩ := h
  cases L with
  | connection ws => exact hrate
  | global => exact hglobal
  | connectionBytes ws => exact hbytes
  | globalBytes => exact hglobalBytes

theorem need_le_refilled {s : State ℚ} {bytes : ℚ}
    (hnone : refusing c s ws bytes now = none) (hL : L ∈ lanesOf ws)
    (hon : L.on c (weight bytes) = true) :
    L.need (weight bytes) ≤ (L.refilled c (L.bucket s) now).tokens := by
  have hshort := List.find?_eq_none.mp hnone L hL
  simp only [Lane.short, hon] at hshort
  have hlt : ¬ (L.refilled c (L.bucket s) now).tokens < L.need (weight bytes) := by
    intro hlt
    exact hshort (decide_eq_true hlt)
  exact not_lt.mp hlt

theorem steady_refused (h : Steady c m)
    (hnow : m.clock ≤ now) (hclock : m'.clock = now) (hadmitted : m'.admitted = m.admitted)
    (hbuckets : ∀ M : Lane, M.bucket m'.gate =
      if M = L then some (L.refilled c (L.bucket m.gate) now) else M.bucket m.gate) : Steady c m' where
  bounded := fun M hcap => by
    rw [hbuckets M, hadmitted]
    split
    · next heq =>
      subst heq
      rw [Option.map_some, Lane.refilled_eq]
      exact (h.bounded M hcap).look (Nat.cast_nonneg _) (M.flow_nonneg c) (h.look_past hnow M)
    · exact h.bounded M hcap
  past := fun M b hb => by
    rw [hbuckets M] at hb
    split at hb
    · cases hb
      rw [hclock, Lane.refilled_updatedAt]
    · rw [hclock]
      exact (h.past M b hb).trans hnow

theorem steady_passed (h : Steady c m) {bytes : ℚ}
    (hnow : m.clock ≤ now) (hnone : refusing c m.gate ws bytes now = none) (hclock : m'.clock = now)
    (hadmitted : m'.admitted = m.admitted ∨ m'.admitted = m.admitted ++ [{ ws, bytes, time := now }])
    (hbuckets : ∀ M : Lane, M.bucket m'.gate =
      if M ∈ lanesOf ws ∧ M.on c (weight bytes) then
        some (M.paid c (M.bucket m.gate) now (weight bytes)) else M.bucket m.gate) : Steady c m' where
  bounded := fun M hcap => by
    have hon := Lane.on_iff (weight_nonneg bytes) hcap
    have hbound := h.bounded M hcap
    rw [hbuckets M]
    by_cases hpays : M ∈ lanesOf ws ∧ M.on c (weight bytes) = true
    · have hlook := hbound.look (Nat.cast_nonneg _) (M.flow_nonneg c) (h.look_past hnow M)
      rw [← Lane.refilled_eq] at hlook
      have hcost := M.need_nonneg (weight_nonneg bytes)
      have hpay : M.need (weight bytes) ≤ (M.refilled c (M.bucket m.gate) now).toLevel.tokens :=
        need_le_refilled hnone hpays.1 hpays.2
      have hupdated : (M.refilled c (M.bucket m.gate) now).toLevel.updated = now :=
        Lane.refilled_updatedAt c _ now M
      rw [if_pos hpays]
      rcases hadmitted with hadmitted | hadmitted
      · rw [hadmitted]
        exact hlook.waste hcost hpay
      have hpaid : Bounded (M.capacity c : ℚ) (M.flow c)
          (some (M.paid c (M.bucket m.gate) now (weight bytes)).toLevel)
          (((M.costs m.admitted).filter fun e => e.2 ≠ 0) ++
            [((M.refilled c (M.bucket m.gate) now).toLevel.updated, M.need (weight bytes))]) :=
        hlook.pay (M.flow_nonneg c) hcost hpay
      rw [hupdated] at hpaid
      rw [hadmitted, costs_append, if_pos ⟨hpays.1, hon.mp hpays.2⟩]
      exact hpaid
    · have hfree : (M.costs m'.admitted).filter (fun e => e.2 ≠ 0) =
          (M.costs m.admitted).filter fun e => e.2 ≠ 0 := by
        rcases hadmitted with hadmitted | hadmitted
        · rw [hadmitted]
        · rw [hadmitted, costs_append, if_neg fun hc => hpays ⟨hc.1, hon.mpr hc.2⟩, List.append_nil]
      rw [if_neg hpays, hfree]
      exact hbound
  past := fun M b hb => by
    rw [hbuckets M] at hb
    rw [hclock]
    split at hb
    · cases hb
      show (((M.refilled c (M.bucket m.gate) now).updatedAt : ℚ) : WithBot ℚ) ≤ now
      rw [Lane.refilled_updatedAt]
    · exact (h.past M b hb).trans hnow

theorem steady_enter (h : Steady c m) {bytes : ℚ}
    (hn : (metered c).next m (.enter ws bytes now) = some m') : Steady c m' := by
  obtain ⟨hnow, rfl⟩ := by simpa [metered] using hn
  cases hmeters : metersOf c m.gate ws with
  | false =>
    obtain ⟨hsame, -, hadmits⟩ := enter_unmetered bytes now hmeters
    by_cases hadmit : (enter c m.gate ws bytes now).1.admits = true
    · -- only a gate without limits admits unmetered, and it has no lane in use
      exact {
        bounded := fun L hcap => by
          rw [capacity_of_disabled (hadmits hadmit)] at hcap
          cases hcap
        past := fun L b hb => (h.past L b (by rw [← hsame L]; exact hb)).trans hnow }
    · exact h.same hsame hnow (if_neg hadmit)
  | true =>
    cases hL : refusing c m.gate ws bytes now with
    | some L =>
      obtain ⟨hanswer, hbuckets⟩ := enter_refused hmeters hL
      refine steady_refused h hnow rfl (if_neg ?_) hbuckets
      simp [hanswer, Answer.admits]
    | none =>
      obtain ⟨-, hbuckets⟩ := enter_passed hmeters hL
      refine steady_passed h hnow hL rfl ?_ hbuckets
      split
      · exact .inr rfl
      · exact .inl rfl

theorem steady_run {as : List (Action ℚ)} (h : (metered c).Runs Any as m) : Steady c m := by
  apply h.invariant
  · have hnone : ∀ L : Lane, L.bucket (metered c).init.gate = none := by
      intro L
      cases L <;> rfl
    exact {
      bounded := fun L hcap => by
        rw [hnone L]
        exact .fresh (Nat.cast_nonneg _) (L.flow_nonneg c)
      past := fun L b hb => by
        rw [hnone L] at hb
        cases hb }
  · intro m a m' hs _ hn
    cases a with
    | enter ws bytes now => exact steady_enter hs hn
    | release ticket =>
      cases hn
      exact hs.same (same_release c m.gate ticket) (le_refl _) rfl
    | close ws =>
      cases hn
      exact hs.same (same_close c m.gate ws) (le_refl _) rfl

/-! ## refusals -/

theorem refill_refilled (L : Lane) {b : Option (Bucket ℚ)} {t : ℚ} (ht : now ≤ t)
    (hb : ∀ v, b = some v → v.updatedAt ≤ now) :
    L.refilled c (some (L.refilled c b now)) t = L.refilled c b t := by
  have hpast : ∀ v, b.map (·.toLevel) = some v → v.updated ≤ now := by
    intro v hv
    obtain ⟨w, hw, rfl⟩ := Option.map_eq_some_iff.mp hv
    exact hb w hw
  have hlevel : TokenBucket.level (L.capacity c : ℚ) (L.flow c)
      (some (TokenBucket.look (L.capacity c : ℚ) (L.flow c) (b.map (·.toLevel)) now)) t =
      TokenBucket.level (L.capacity c : ℚ) (L.flow c) (b.map (·.toLevel)) t :=
    TokenBucket.level_level (L.flow_nonneg c) ht hpast
  have heq : (L.refilled c (some (L.refilled c b now)) t).toLevel = (L.refilled c b t).toLevel := by
    rw [Lane.refilled_eq, Lane.refilled_eq, Option.map_some, Lane.refilled_eq]
    exact congrArg (Level.mk · t) hlevel
  simp only [Bucket.toLevel] at heq
  cases hl : L.refilled c (some (L.refilled c b now)) t
  simp_all

theorem short_after_delay (hwindow : 0 < c.rateWindowMs)
    {b : Option (Bucket ℚ)} {d t : ℚ} (hshort : L.short c b now cost = true)
    (hd : (L.rejection c b now cost).retryAfterMs = some d) (hcost : L.need cost ≤ L.capacity c)
    (ht : now + d ≤ t) : L.short c (some (L.refilled c b now)) t cost = false := by
  simp only [Lane.short, Bool.and_eq_true] at hshort
  have hcap : (0 : ℚ) < L.capacity c := Nat.cast_pos.mpr (Lane.capacity_pos_of_on hshort.1)
  have hwin : (0 : ℚ) < c.rateWindowMs := Nat.cast_pos.mpr hwindow
  have hmax : d = max 1 (⌈(min (L.need cost) (L.capacity c : ℚ) - (L.refilled c b now).tokens) *
      c.rateWindowMs / L.capacity c⌉ : ℚ) := (Option.some.inj hd).symm
  rw [min_eq_left hcost] at hmax
  have hceil : (L.need cost - (L.refilled c b now).tokens) * c.rateWindowMs / L.capacity c ≤ d := by
    rw [hmax]
    exact (Int.le_ceil _).trans (le_max_right _ _)
  have hpast : (L.refilled c b now).toLevel.updated ≤ t := by
    have hone : 1 ≤ d := by
      rw [hmax]
      exact le_max_left _ _
    show (L.refilled c b now).updatedAt ≤ t
    rw [Lane.refilled_updatedAt]
    linarith
  have hflow : L.need cost - (L.refilled c b now).tokens ≤ (t - now) * L.flow c := by
    have hwait : (L.need cost - (L.refilled c b now).tokens) * c.rateWindowMs / L.capacity c ≤
        t - now := by linarith
    have hscaled := (div_le_iff₀ hcap).mp hwait
    rw [Lane.flow, ← mul_div_assoc]
    exact (le_div_iff₀ hwin).mpr hscaled
  have henough : L.need cost ≤ (L.refilled c (some (L.refilled c b now)) t).toLevel.tokens := by
    rw [Lane.refilled_eq]
    refine TokenBucket.le_level hpast hcost ?_
    show _ - _ ≤ (t - (L.refilled c b now).updatedAt) * L.flow c
    rw [Lane.refilled_updatedAt]
    exact hflow
  have hlt : decide ((L.refilled c (some (L.refilled c b now)) t).tokens < L.need cost) = false :=
    decide_eq_false (not_lt.mpr henough)
  show (L.on c cost && decide (_ < _)) = false
  rw [hlt, Bool.and_false]

/-! ## the main result -/

theorem ok_of_bind {α β : Type} {x : Except String α} {f : α → Except String β} {b : β}
    (h : x >>= f = .ok b) : ∃ a, x = .ok a ∧ f a = .ok b := by
  cases x with
  | error e => cases h
  | ok a => exact ⟨a, rfl, h⟩

theorem limit_pos {v : Option Value} {name : String} {k : Nat} (hv : v ≠ none)
    (h : limit v name true = .ok k) : 0 < k := by
  unfold limit at h
  split at h
  · exact absurd rfl hv
  · next n =>
    by_cases hb : -MAX_SAFE_INTEGER ≤ n ∧ n ≤ MAX_SAFE_INTEGER ∧ ¬ n < 1
    · obtain rfl := Except.ok.inj ((if_pos hb).symm.trans h)
      omega
    · cases (if_neg hb).symm.trans h
  · cases h

theorem rateWindowMs_pos {input : Input} {pre : String}
    (hc : normalizeMessageAdmission input pre = .ok c) : 0 < c.rateWindowMs := by
  cases input with
  | undefined =>
    cases hc
    decide
  | other => cases hc
  | object o =>
    unfold normalizeMessageAdmission normalizeOptions at hc
    simp only at hc
    split at hc
    · cases hc
    obtain ⟨_, -, hc⟩ := ok_of_bind hc
    obtain ⟨_, -, hc⟩ := ok_of_bind hc
    -- the window, by default or checked, and then the fields that are left
    split at hc
    · obtain ⟨window, hwindow, hc⟩ := ok_of_bind hc
      cases hwindow
      obtain ⟨_, -, hc⟩ := ok_of_bind hc
      obtain ⟨_, -, hc⟩ := ok_of_bind hc
      obtain ⟨_, -, hc⟩ := ok_of_bind hc
      obtain ⟨_, -, hc⟩ := ok_of_bind hc
      obtain ⟨_, -, hc⟩ := ok_of_bind hc
      split at hc
      · cases hc
        exact (by decide : 0 < DEFAULT_WINDOW_MS)
      · cases hc
    · next hnone =>
      obtain ⟨window, hwindow, hc⟩ := ok_of_bind hc
      have hpos := limit_pos hnone hwindow
      obtain ⟨_, -, hc⟩ := ok_of_bind hc
      obtain ⟨_, -, hc⟩ := ok_of_bind hc
      obtain ⟨_, -, hc⟩ := ok_of_bind hc
      obtain ⟨_, -, hc⟩ := ok_of_bind hc
      obtain ⟨_, -, hc⟩ := ok_of_bind hc
      split at hc
      · cases hc
        exact hpos
      · cases hc

/-- An action without a message. -/
def Action.quiet : Action ℚ → Prop
  | .enter _ _ _ => False
  | _ => True

theorem same_quiet {as : List (Action ℚ)} (has : ∀ a ∈ as, a.quiet) (s : State ℚ) :
    SameBuckets s (as.foldl (step c) s) := by
  induction as generalizing s with
  | nil => exact fun _ => rfl
  | cons a as ih =>
    have hrest := ih (fun b hb => has b (List.mem_cons_of_mem _ hb)) (step c s a)
    refine SameBuckets.trans ?_ hrest
    cases a with
    | enter ws bytes now => exact (has _ List.mem_cons_self).elim
    | release ticket => exact same_release c s ticket
    | close ws => exact same_close c s ws

/-- What a message that is refused for a rate finds: a lane too short for it,
whose refusal it is; buckets that are, at any later time, as if it had not come;
and, when its cost is within the lane's capacity, a delay after which that lane
does not refuse it, whatever is released or closed meanwhile. -/
structure Refused (c : Config) (s : State ℚ) (ws : Socket) (bytes now : ℚ) (r : Rejection ℚ)
    (L : Lane) : Prop where
  refusing : refusing c s ws bytes now = some L
  rejection : r = L.rejection c (L.bucket s) now (weight bytes)
  uncharged : ∀ M : Lane, ∀ t ≥ now,
    M.refilled c (M.bucket (enter c s ws bytes now).2) t = M.refilled c (M.bucket s) t
  retry : ∀ d, r.retryAfterMs = some d → L.need (weight bytes) ≤ L.capacity c →
    ∀ as : List (Action ℚ), (∀ a ∈ as, a.quiet) → ∀ t ≥ now + d,
      L.short c (L.bucket (as.foldl (step c) (enter c s ws bytes now).2)) t (weight bytes) = false

/-- **The rate lanes**: in every run of a gate with normalized options, on a
clock that does not run backwards, the messages admitted on a lane in any
stretch of time cost no more than its capacity and what flows in meanwhile; and
a message that is refused for a rate is refused by one lane, charges none, and
is told a delay that is enough. -/
theorem rate_lanes {input : Input} {pre : String} {c : Config}
    (hc : normalizeMessageAdmission input pre = .ok c) {as : List (Action ℚ)} {m : Metered}
    (h : (metered c).Runs Any as m) :
    (∀ L : Lane, 0 < L.capacity c → ∀ a b, a ≤ b → spent (L.costs m.admitted) a b ≤
      L.capacity c + (b - a) * L.capacity c / c.rateWindowMs) ∧
      ∀ ws bytes now r, m.clock ≤ (now : ℚ) → (enter c m.gate ws bytes now).1 = .rejected r →
        r.reason = .rate_limit → ∃ L, Refused c m.gate ws bytes now r L := by
  have hsteady := steady_run h
  constructor
  · intro L hcap a b hab
    have := (hsteady.bounded L hcap).within a b hab
    rw [TokenBucket.spent_filter_ne_zero] at this
    rw [mul_div_assoc]
    exact this
  · intro ws bytes now r hnow hanswer hreason
    cases hmeters : metersOf c m.gate ws with
    | false => exact absurd hreason ((enter_unmetered bytes now hmeters).2.1 r hanswer)
    | true =>
      cases hL : refusing c m.gate ws bytes now with
      | none => exact absurd hreason ((enter_passed hmeters hL).1 r hanswer)
      | some L =>
        obtain ⟨hrejected, hbuckets⟩ := enter_refused hmeters hL
        have hr : r = L.rejection c (L.bucket m.gate) now (weight bytes) :=
          Answer.rejected.inj (hanswer.symm.trans hrejected)
        have hpast : ∀ v, L.bucket m.gate = some v → v.updatedAt ≤ now := fun v hv =>
          WithBot.coe_le_coe.mp ((hsteady.past L v hv).trans hnow)
        refine ⟨L, hL, hr, fun M t ht => ?_, fun d hd hcost as has t ht => ?_⟩
        · rw [hbuckets M]
          split
          · next heq =>
            subst heq
            exact refill_refilled M ht hpast
          · rfl
        · rw [same_quiet has _ L, hbuckets L, if_pos rfl]
          have hshort := List.find?_some hL
          rw [hr] at hd
          exact short_after_delay (rateWindowMs_pos hc) hshort hd hcost ht

/-- Two messages a second on each connection, and eight bytes a second for all. -/
def slow : Config :=
  { unlimited with perConnectionRate := 2, globalBytesRate := 8, queue_limited := by decide }

def slowOptions : Options :=
  { perConnectionRate := some (.integer 2), globalRate := none, perConnectionBytesRate := none
    globalBytesRate := some (.integer 8), rateWindowMs := none, perConnectionConcurrent := none
    globalConcurrent := none, maxQueue := none, unknown := [] }

theorem rate_lanes_example :
    ∃ m, (metered slow).Runs Any [.enter 1 5 0, .enter 1 1 0] m ∧
      spent (Lane.globalBytes.costs m.admitted) 0 100 ≤ 8 + (100 - 0) * 8 / 1000 ∧
      ∃ r L, (enter slow m.gate 1 4 250).1 = .rejected r ∧ Refused slow m.gate 1 4 250 r L := by
  obtain ⟨m, hm⟩ : ∃ m, (metered slow).exec (metered slow).init [.enter 1 5 0, .enter 1 1 0] = some m :=
    Option.isSome_iff_exists.mp (by decide +kernel)
  have hrun := runs_of_exec hm
  have hslow : normalizeMessageAdmission (.object slowOptions) "admission" = .ok slow := rfl
  have hlanes := rate_lanes hslow hrun
  refine ⟨m, hrun, hlanes.1 .globalBytes (by decide) 0 100 (by decide), ?_⟩
  have hrefused : ((metered slow).exec (metered slow).init [.enter 1 5 0, .enter 1 1 0]).all (fun m =>
      decide (m.clock ≤ ((250 : ℚ) : WithBot ℚ)) && match (enter slow m.gate 1 4 (250 : ℚ)).1 with
        | .rejected r => r.reason = .rate_limit
        | _ => false) = true := by decide +kernel
  rw [hm] at hrefused
  simp only [Option.all_some, Bool.and_eq_true, decide_eq_true_eq] at hrefused
  obtain ⟨hclock, hanswer⟩ := hrefused
  split at hanswer
  · next r hr =>
    obtain ⟨L, hL⟩ := hlanes.2 1 4 250 r hclock hr (of_decide_eq_true hanswer)
    exact ⟨r, L, hr, hL⟩
  · cases hanswer

end BunServe.Admission
