import BunServe.RateLimit.Isolation
import Mathlib.Data.List.Induction

/-!
# BunServe.RateLimit.Tenants

What a call for one tenant leaves of the others.

* `Alike` — two buckets that no later call tells apart: the same, or, where buckets are
  swept, both without a window or a ban that still runs;
* `untouched` — a call for a tenant leaves the buckets of the others alike;
* `scoped_call` — without it, the calls of `consume` for other tenants have the same
  results.
-/

namespace BunServe.RateLimit

open JsMap (get?_delete get?_set)

variable {N : Type} [Number N]

/-! ## buckets that are alike -/

def Bucket.ban? (t : N) (b : Bucket N) : Option N :=
  if t < b.bannedUntil then some b.bannedUntil else none

/-- What a call from `t` on can see of a bucket; swept buckets count for none. -/
def seen (sweeps : Bool) (t : N) (b : Bucket N) : Option (N × N × Option N) :=
  if sweeps then if b.expired t then none else some (b.points, b.resetAt, b.ban? t)
  else some (b.points, b.resetAt, some b.bannedUntil)

def Alike (sweeps : Bool) (t : N) (x y : Option (Bucket N)) : Prop :=
  x.bind (seen sweeps t) = y.bind (seen sweeps t)

/-- Two buckets with the same points, window and ban. -/
structure Equal (sweeps : Bool) (t : N) (b b' : Bucket N) : Prop where
  points : b.points = b'.points
  resetAt : b.resetAt = b'.resetAt
  ban : b.ban? t = b'.ban? t
  bannedUntil : sweeps = false → b.bannedUntil = b'.bannedUntil

section

variable {o : Options N} {sweeps : Bool} {t t' : N} {b b' : Bucket N} {x y z : Option (Bucket N)}

theorem Alike.trans (h : Alike sweeps t x y) (h' : Alike sweeps t y z) : Alike sweeps t x z :=
  Eq.trans h h'

theorem Alike.symm (h : Alike sweeps t x y) : Alike sweeps t y x := Eq.symm h

theorem Alike.of_eq (h : x = y) : Alike sweeps t x y := h ▸ rfl

theorem ban?_eq_some {u : N} : b.ban? t = some u ↔ u = b.bannedUntil ∧ t < b.bannedUntil := by
  unfold Bucket.ban?
  split
  · next h => simp [h, eq_comm]
  · next h => simp [h]

theorem ban?_eq_none : b.ban? t = none ↔ b.bannedUntil ≤ t := by
  unfold Bucket.ban?
  split
  · next h => simp [h]
  · next h => simpa using h

theorem expired_iff : b.expired t = true ↔ b.resetAt ≤ t ∧ b.ban? t = none := by
  rw [ban?_eq_none]
  exact decide_eq_true_iff

theorem Equal.expired (h : Equal sweeps t b b') : b.expired t = b'.expired t := by
  rw [Bool.eq_iff_iff, expired_iff, expired_iff, h.resetAt, h.ban]

theorem Equal.seen (h : Equal sweeps t b b') : seen sweeps t b = seen sweeps t b' := by
  unfold RateLimit.seen
  rw [h.expired, h.points, h.resetAt, h.ban]
  cases sweeps with
  | true => rfl
  | false => rw [h.bannedUntil rfl]

theorem equal_of_seen (h : seen sweeps t b = seen sweeps t b') (hlive : (seen sweeps t b).isSome) :
    Equal sweeps t b b' := by
  cases sweeps with
  | false =>
    simp only [seen, Bool.false_eq_true, if_false, Option.some.injEq, Prod.mk.injEq] at h
    obtain ⟨hp, hr, hb⟩ := h
    exact ⟨hp, hr, by simp [Bucket.ban?, hb], fun _ => hb⟩
  | true =>
    simp only [seen, if_true] at h hlive
    cases hexp : b.expired t with
    | true => simp [hexp] at hlive
    | false =>
      rw [hexp] at h
      cases hexp' : b'.expired t with
      | true => simp [hexp'] at h
      | false =>
        simp only [hexp', Bool.false_eq_true, if_false, Option.some.injEq, Prod.mk.injEq] at h
        exact ⟨h.1, h.2.1, h.2.2, nofun⟩

theorem seen_eq_none : seen sweeps t b = none ↔ sweeps = true ∧ b.expired t = true := by
  unfold seen
  cases sweeps <;> simp

theorem Equal.later (h : Equal sweeps t b b') (ht : t ≤ t') : Equal sweeps t' b b' := by
  refine ⟨h.points, h.resetAt, ?_, h.bannedUntil⟩
  have hban := h.ban
  cases hb : b.ban? t with
  | none =>
    rw [hb] at hban
    rw [ban?_eq_none.2 ((ban?_eq_none.1 hb).trans ht), ban?_eq_none.2 ((ban?_eq_none.1 hban.symm).trans ht)]
  | some u =>
    rw [hb] at hban
    unfold Bucket.ban?
    rw [← (ban?_eq_some.1 hb).1, ← (ban?_eq_some.1 hban.symm).1]

theorem expired_later (h : b.expired t = true) (ht : t ≤ t') : b.expired t' = true := by
  rw [expired_iff, ban?_eq_none] at h ⊢
  exact ⟨h.1.trans ht, h.2.trans ht⟩

theorem alike_iff : Alike sweeps t x y ↔
    x.bind (seen sweeps t) = none ∧ y.bind (seen sweeps t) = none ∨
      ∃ b b', x = some b ∧ y = some b' ∧ Equal sweeps t b b' := by
  unfold Alike
  cases x with
  | none => simp [eq_comm]
  | some b =>
    cases y with
    | none => simp
    | some b' =>
      simp only [Option.bind_some, Option.some.injEq, ↓existsAndEq, true_and]
      refine ⟨fun h => ?_, fun h => ?_⟩
      · cases hb : seen sweeps t b with
        | none => exact .inl ⟨rfl, by rw [← h, hb]⟩
        | some v => exact .inr (equal_of_seen h (by simp [hb]))
      · rcases h with ⟨h, h'⟩ | h
        · rw [h, h']
        · exact h.seen

theorem bind_seen_none : x.bind (seen sweeps t) = none ↔
    x = none ∨ sweeps = true ∧ ∃ b, x = some b ∧ b.expired t = true := by
  cases x with
  | none => simp
  | some b => simp [seen_eq_none]

theorem Alike.later (h : Alike sweeps t x y) (ht : t ≤ t') : Alike sweeps t' x y := by
  rw [alike_iff] at h ⊢
  rcases h with ⟨hx, hy⟩ | ⟨b, b', hx, hy, heq⟩
  · have hlater : ∀ {z : Option (Bucket N)}, z.bind (seen sweeps t) = none →
        z.bind (seen sweeps t') = none := by
      intro z hz
      rw [bind_seen_none] at hz ⊢
      rcases hz with hz | ⟨hs, b, hz, hexp⟩
      · exact .inl hz
      · exact .inr ⟨hs, b, hz, expired_later hexp ht⟩
    exact .inl ⟨hlater hx, hlater hy⟩
  · exact .inr ⟨b, b', hx, hy, heq.later ht⟩

/-! ## drawing from them -/

theorem Equal.refill (h : Equal sweeps t b b') : Equal sweeps t (b.refill o t) (b'.refill o t) := by
  unfold Bucket.refill
  rw [h.resetAt]
  split
  · exact ⟨rfl, rfl, h.ban, h.bannedUntil⟩
  · exact h

theorem Equal.draw (h : Equal sweeps t b b') (cost : N) :
    (b.draw o cost t).1 = (b'.draw o cost t).1 ∧
      Equal sweeps t (b.draw o cost t).2 (b'.draw o cost t).2 := by
  unfold Bucket.draw
  cases hban : b.ban? t with
  | some u =>
    obtain ⟨hu, hlt⟩ := ban?_eq_some.1 hban
    obtain ⟨hu', hlt'⟩ := ban?_eq_some.1 (h.ban ▸ hban)
    rw [if_pos hlt, if_pos hlt', ← hu, ← hu']
    exact ⟨rfl, h⟩
  | none =>
    have hle := ban?_eq_none.1 hban
    have hle' := ban?_eq_none.1 (h.ban ▸ hban)
    have hr := h.refill (o := o)
    rw [if_neg (not_lt.2 hle), if_neg (not_lt.2 hle')]
    simp only [hr.points, hr.resetAt]
    split
    · exact ⟨rfl, rfl, rfl, hr.ban, hr.bannedUntil⟩
    · split
      · exact ⟨rfl, rfl, rfl, rfl, fun _ => rfl⟩
      · exact ⟨rfl, hr⟩

theorem refill_ban (b : Bucket N) : (b.refill o t).ban? t = b.ban? t := by
  unfold Bucket.refill Bucket.ban?
  split <;> rfl

theorem draw_refill (h : b.ban? t = none) (cost : N) :
    b.draw o cost t = (b.refill o t).draw o cost t := by
  have hb := not_lt.2 (ban?_eq_none.1 h)
  have hr := not_lt.2 (ban?_eq_none.1 ((refill_ban b).trans h : (b.refill o t).ban? t = none))
  have htwice : (b.refill o t).refill o t = b.refill o t := by
    unfold Bucket.refill
    split
    · simp
    · rfl
  unfold Bucket.draw
  rw [if_neg hb, if_neg hr, htwice]

theorem draw_expired (hexp : b.expired t = true) (ht : 0 ≤ t) (cost : N) (id : Nat) :
    (b.draw o cost t).1 = ((freshBucket o o.points t id).draw o cost t).1 ∧
      Equal true t (b.draw o cost t).2 ((freshBucket o o.points t id).draw o cost t).2 := by
  obtain ⟨hreset, hban⟩ := expired_iff.1 hexp
  have hfresh : (freshBucket o o.points t id).ban? t = none := ban?_eq_none.2 ht
  rw [draw_refill hban, draw_refill hfresh]
  have hpoints : ((freshBucket o o.points t id).refill o t).points = o.points ∧
      ((freshBucket o o.points t id).refill o t).resetAt = t + o.interval := by
    unfold Bucket.refill
    split <;> exact ⟨rfl, rfl⟩
  have heq : Equal true t (b.refill o t) ((freshBucket o o.points t id).refill o t) := by
    refine ⟨?_, ?_, ?_, nofun⟩
    · rw [hpoints.1, Bucket.refill, if_pos hreset]
    · rw [hpoints.2, Bucket.refill, if_pos hreset]
    · rw [refill_ban, refill_ban, hban, hfresh]
  exact heq.draw cost

/-- Of buckets that are alike, `consume` makes the same. -/
theorem Alike.draw (cost : N) (h : Alike sweeps t x y) (ht : sweeps = true → 0 ≤ t) (i j : Nat) :
    ((x.getD (freshBucket o o.points t i)).draw o cost t).1 =
        ((y.getD (freshBucket o o.points t j)).draw o cost t).1 ∧
      Equal sweeps t ((x.getD (freshBucket o o.points t i)).draw o cost t).2
        ((y.getD (freshBucket o o.points t j)).draw o cost t).2 := by
  -- each is as good as a fresh one, or they are equal
  have hone : ∀ {z : Option (Bucket N)} (k : Nat), z.bind (seen sweeps t) = none →
      ((z.getD (freshBucket o o.points t k)).draw o cost t).1 =
          ((freshBucket o o.points t j).draw o cost t).1 ∧
        Equal sweeps t ((z.getD (freshBucket o o.points t k)).draw o cost t).2
          ((freshBucket o o.points t j).draw o cost t).2 := by
    intro z k hz
    rcases bind_seen_none.1 hz with rfl | ⟨rfl, b, rfl, hexp⟩
    · have hk : Equal sweeps t (freshBucket o o.points t k) (freshBucket o o.points t j) :=
        ⟨rfl, rfl, rfl, fun _ => rfl⟩
      exact hk.draw cost
    · exact draw_expired hexp (ht rfl) cost j
  rcases alike_iff.1 h with ⟨hx, hy⟩ | ⟨b, b', rfl, rfl, heq⟩
  · obtain ⟨hres, heq⟩ := hone i hx
    obtain ⟨hres', heq'⟩ := hone j hy
    refine ⟨hres.trans hres'.symm, heq.points.trans heq'.points.symm,
      heq.resetAt.trans heq'.resetAt.symm, heq.ban.trans heq'.ban.symm, fun hs => ?_⟩
    exact (heq.bannedUntil hs).trans (heq'.bannedUntil hs).symm
  · exact heq.draw cost

end

/-! ## the calls of a tenant -/

section

variable (o : Options N) (attribution : Conn → Option String) (sweeps : Bool)

/-- The tenant a call is for; `clear` without a tenant is for all. -/
def scope : Action N → Option (Option String)
  | .consume ws _ _ answer _ => some (truthy (o.tenantId attribution ws answer))
  | .reset _ tenantId | .ban _ _ tenantId _ | .unban _ tenantId => some (truthy tenantId)
  | .clear tenantId => (truthy tenantId).map some

/-- Either the sweep of expired buckets never runs, or the clock does not go back and no
ban meets a bucket that has expired and was not swept. -/
def Steady (s : State N) : Action N → Prop
  | .consume _ _ _ _ t => if sweeps then s.clock ≤ t ∧ 0 ≤ t else s.buckets.size ≤ 1000
  | .ban key _ tenantId t => sweeps = true → s.clock ≤ t ∧ 0 ≤ t ∧
      ∀ bk b, adminBucketKey o key tenantId = some bk → s.buckets.get? bk = some b →
        b.expired t = false
  | _ => True

/-- The results of the calls of `consume` for other tenants, newest first. -/
def results (tenant : Option String) (s : State N) : List (Conn × Option (ConsumeResult N)) :=
  s.draws.filterMap fun d =>
    if d.tenant = tenant then none else some (d.ws, d.drawn.map Drawn.result)

/-- Two limiters that differ in the buckets of a tenant. -/
structure Agree (tenant : Option String) (a b : State N) : Prop where
  wsKeys : a.wsKeys = b.wsKeys
  connCounter : a.connCounter = b.connCounter
  clock : sweeps = true → b.clock ≤ a.clock ∧ 0 ≤ a.clock
  buckets : ∀ tenant' rawKey, tenant' ≠ tenant → Valid o.budget tenant' rawKey →
    Alike sweeps a.clock (a.buckets.get? (keyOf o.budget tenant' rawKey))
      (b.buckets.get? (keyOf o.budget tenant' rawKey))
  results : results tenant a = results tenant b

end

section

variable {o : Options N} {attribution : Conn → Option String} {sweeps : Bool} {s s' a b : State N}
  {tenant : Option String}

omit [Number N] in
theorem adminBucketKey_spec {key bk : String} {tenantId : Option String}
    (h : adminBucketKey o key tenantId = some bk) (hjoined : truthy tenantId = none → ¬ Joined key) :
    ∃ rawKey, bk = keyOf o.budget (truthy tenantId) rawKey ∧ Valid o.budget (truthy tenantId) rawKey := by
  unfold adminBucketKey at h
  split at h
  · next hbudget =>
    obtain ⟨heq, hnul, hnone⟩ := bucketKey_eq_some.1 h
    refine ⟨"", heq, fun id hid => ⟨truthy_ne hid, hnul id hid⟩, fun hn => ?_⟩
    rw [hbudget] at hnone
    cases hnone hn
  · obtain ⟨heq, hnul, hnone⟩ := bucketKey_eq_some.1 h
    exact ⟨key, heq, fun id hid => ⟨truthy_ne hid, hnul id hid⟩, fun hn => ⟨hnone hn, hjoined hn⟩⟩

variable {ws : Conn} {rawKey : String}

omit [Number N] in
/-- Which key `consume` takes is a matter of the names given so far. -/
theorem consumeKey_congr {answer : Option String}
    (hkeys : a.wsKeys = b.wsKeys) (hcounter : a.connCounter = b.connCounter) :
    (consumeKey o attribution a ws rawKey answer).1 = (consumeKey o attribution b ws rawKey answer).1 ∧
      (consumeKey o attribution a ws rawKey answer).2.wsKeys =
        (consumeKey o attribution b ws rawKey answer).2.wsKeys ∧
      (consumeKey o attribution a ws rawKey answer).2.connCounter =
        (consumeKey o attribution b ws rawKey answer).2.connCounter := by
  unfold consumeKey principalBucketKey resolveRawKey
  rw [hkeys, hcounter]
  split
  · exact ⟨rfl, hkeys, hcounter⟩
  split
  · split
    · cases b.wsKeys.get? ws with
      | some k => exact ⟨rfl, hkeys, hcounter⟩
      | none => exact ⟨rfl, rfl, rfl⟩
    · exact ⟨rfl, hkeys, hcounter⟩
  · split
    · cases b.wsKeys.get? ws with
      | some k => exact ⟨rfl, hkeys, hcounter⟩
      | none =>
        simp only
        cases bucketKey o.budget (connKey (b.connCounter + 1)) (attribution ws) with
        | none | some k => exact ⟨rfl, rfl, rfl⟩
    · exact ⟨rfl, hkeys, hcounter⟩

omit [Number N] in
theorem consumeKey_clock (attribution : Conn → Option String) (ws : Conn) (rawKey : String)
    (answer : Option String) : (consumeKey o attribution s ws rawKey answer).2.clock = s.clock := by
  unfold consumeKey principalBucketKey resolveRawKey
  split
  · rfl
  split
  · split
    · cases s.wsKeys.get? ws <;> rfl
    · rfl
  · split
    · cases s.wsKeys.get? ws with
      | some k => rfl
      | none =>
        simp only
        cases bucketKey o.budget (connKey (s.connCounter + 1)) (attribution ws) <;> rfl
    · rfl

variable {t : N}

@[simp] theorem wsKeys_cleanup (s : State N) (t : N) : (cleanup s t).wsKeys = s.wsKeys := by
  unfold cleanup
  split <;> rfl

@[simp] theorem connCounter_cleanup (s : State N) (t : N) :
    (cleanup s t).connCounter = s.connCounter := by
  unfold cleanup
  split <;> rfl

@[simp] theorem clock_cleanup (s : State N) (t : N) : (cleanup s t).clock = s.clock := by
  unfold cleanup
  split <;> rfl

@[simp] theorem draws_cleanup (s : State N) (t : N) : (cleanup s t).draws = s.draws := by
  unfold cleanup
  split <;> rfl

/-- A sweep at `t` shows in no bucket. -/
def CanSweep (sweeps : Bool) (s : State N) (t : N) : Prop :=
  if sweeps then s.clock ≤ t ∧ 0 ≤ t else s.buckets.size ≤ 1000

theorem CanSweep.later (h : CanSweep sweeps s t) (hs : sweeps = true) : s.clock ≤ t ∧ 0 ≤ t := by
  simpa [CanSweep, hs] using h

theorem CanSweep.small (h : CanSweep sweeps s t) : sweeps = true ∨ s.buckets.size ≤ 1000 := by
  cases sweeps with
  | true => exact .inl rfl
  | false => exact .inr h

theorem alike_cleanup (h : sweeps = true ∨ s.buckets.size ≤ 1000) (key : String) :
    Alike sweeps t ((cleanup s t).buckets.get? key) (s.buckets.get? key) := by
  unfold cleanup
  split
  · exact .of_eq rfl
  rename_i hsize
  obtain rfl := h.resolve_right hsize
  rw [JsMap.get?_filter]
  split
  · exact .of_eq rfl
  · next hswept =>
    refine alike_iff.2 (.inl ⟨rfl, ?_⟩)
    cases hget : s.buckets.get? key with
    | none => rfl
    | some b =>
      have hexp : b.expired t = true := by simpa [hget] using hswept
      simp [seen, hexp]

/-- What `drawFrom` does. -/
theorem drawFrom_spec {key : String} {cost : N} {x : Drawn N}
    (h : drawFrom o s key cost t = some (x, s')) :
    x.result = ((((cleanup s t).buckets.get? key).getD
        (freshBucket o o.points t (cleanup s t).nextBucket)).draw o cost t).1 ∧
      (∀ k, s'.buckets.get? k = if k = key then
          some ((((cleanup s t).buckets.get? key).getD
            (freshBucket o o.points t (cleanup s t).nextBucket)).draw o cost t).2
        else (cleanup s t).buckets.get? k) ∧
      s'.wsKeys = s.wsKeys ∧ s'.connCounter = s.connCounter ∧ s'.clock = s.clock ∧
      s'.draws = s.draws := by
  unfold drawFrom at h
  simp only at h
  split at h
  · cases h
  · cases h
    exact ⟨rfl, fun k => get?_set _ _ _ _, wsKeys_cleanup s t, connCounter_cleanup s t,
      clock_cleanup s t, draws_cleanup s t⟩

omit [Number N] in
theorem consumeKey_of_not_mints (attribution : Conn → Option String) (rawKey : String)
    (answer : Option String) (h : ¬ Mints o s ws) : (consumeKey o attribution s ws rawKey answer).2 = s := by
  unfold consumeKey principalBucketKey resolveRawKey
  split
  · rfl
  rename_i hbudget
  have hprincipal : o.budget = .principal := by
    cases hb : o.budget with
    | principal => rfl
    | tenant => exact absurd hb hbudget
  have hkeyed : o.keyBy = .connection → s.wsKeys.get? ws ≠ none := fun hk hnone =>
    h ⟨hprincipal, hk, hnone⟩
  split
  · split
    · next hk =>
      cases hget : s.wsKeys.get? ws with
      | some k => rfl
      | none => exact absurd hget (hkeyed hk)
    · rfl
  · split
    · next hk =>
      cases hget : s.wsKeys.get? ws with
      | some k => rfl
      | none => exact absurd hget (hkeyed hk)
    · rfl

/-! ## steps on both sides -/

variable {x y : Option (Bucket N)}

theorem Alike.at {t' : N} (h : Alike sweeps t x y)
    (ht : sweeps = true → t ≤ t') : Alike sweeps t' x y := by
  cases sweeps with
  | true => exact h.later (ht rfl)
  | false => exact h

theorem Agree.refl (s : State N) (hclock : sweeps = true → 0 ≤ s.clock) :
    Agree o sweeps tenant s s where
  wsKeys := rfl
  connCounter := rfl
  clock h := ⟨le_refl _, hclock h⟩
  buckets _ _ _ _ := .of_eq rfl
  results := rfl

theorem Agree.names {a₁ b₁ : State N} (h : Agree o sweeps tenant a b) (ha : Kept a a₁)
    (hb : Kept b b₁) (hca : a₁.clock = a.clock) (hcb : b₁.clock = b.clock)
    (hkeys : a₁.wsKeys = b₁.wsKeys) (hcounter : a₁.connCounter = b₁.connCounter) :
    Agree o sweeps tenant a₁ b₁ where
  wsKeys := hkeys
  connCounter := hcounter
  clock := by rw [hca, hcb]; exact h.clock
  buckets := by rw [ha.buckets, hb.buckets, hca]; exact h.buckets
  results := by unfold RateLimit.results; rw [ha.draws, hb.draws]; exact h.results

theorem Agree.sweepLeft (h : Agree o sweeps tenant a b) (ht : CanSweep sweeps a t) :
    Agree o sweeps tenant (cleanup { a with clock := t } t) b where
  wsKeys := by simpa using h.wsKeys
  connCounter := by simpa using h.connCounter
  clock hs := by simpa using ⟨(h.clock hs).1.trans (ht.later hs).1, (ht.later hs).2⟩
  buckets tenant' rawKey hne hvalid := by
    rw [clock_cleanup]
    exact (alike_cleanup (s := { a with clock := t }) ht.small _).trans
      ((h.buckets tenant' rawKey hne hvalid).at fun hs => (ht.later hs).1)
  results := by simpa [RateLimit.results] using h.results

theorem Agree.sweepRight (h : Agree o sweeps tenant a b) (ht : CanSweep sweeps b t)
    (hle : sweeps = true → t ≤ a.clock) :
    Agree o sweeps tenant a (cleanup { b with clock := t } t) where
  wsKeys := by simpa using h.wsKeys
  connCounter := by simpa using h.connCounter
  clock hs := by simpa using ⟨hle hs, (h.clock hs).2⟩
  buckets tenant' rawKey hne hvalid :=
    (h.buckets tenant' rawKey hne hvalid).trans
      ((alike_cleanup (s := { b with clock := t }) ht.small _).at hle).symm
  results := by simpa [RateLimit.results] using h.results

variable {a' b' : State N}

theorem Agree.update {tenant' : Option String}
    (h : Agree o sweeps tenant a b) (hvalid : Valid o.budget tenant' rawKey)
    (ha : ∀ k, a'.buckets.get? k = if k = keyOf o.budget tenant' rawKey then x else a.buckets.get? k)
    (hb : ∀ k, b'.buckets.get? k = if k = keyOf o.budget tenant' rawKey then y else b.buckets.get? k)
    (hxy : tenant' ≠ tenant → Alike sweeps a'.clock x y)
    (hkeys : a'.wsKeys = b'.wsKeys) (hcounter : a'.connCounter = b'.connCounter)
    (hclock : sweeps = true → a.clock ≤ a'.clock ∧ b'.clock ≤ a'.clock)
    (hresults : RateLimit.results tenant a' = RateLimit.results tenant b') :
    Agree o sweeps tenant a' b' where
  wsKeys := hkeys
  connCounter := hcounter
  clock hs := ⟨(hclock hs).2, (h.clock hs).2.trans (hclock hs).1⟩
  buckets u raw hne hv := by
    rw [ha, hb]
    split
    · next heq =>
      obtain ⟨rfl, -⟩ := keyOf_inj hv hvalid heq
      exact hxy hne
    · exact (h.buckets u raw hne hv).at fun hs => (hclock hs).1
  results := hresults

omit [Number N] in
/-- A call of `consume` is recorded. -/
theorem results_cons (ws : Conn) (tenant' : Option String) (x : Option (Drawn N)) :
    results tenant { s with draws := ⟨ws, tenant', x⟩ :: s.draws } =
      if tenant' = tenant then results tenant s
      else (ws, x.map Drawn.result) :: results tenant s := by
  unfold results
  rw [List.filterMap_cons]
  split <;> simp_all

theorem Agree.threw (h : Agree o sweeps tenant a b) (ws : Conn) (tenant' : Option String) :
    Agree o sweeps tenant (a.threw ws tenant') (b.threw ws tenant') where
  wsKeys := h.wsKeys
  connCounter := h.connCounter
  clock := h.clock
  buckets := h.buckets
  results := by
    unfold State.threw
    rw [results_cons, results_cons, h.results]

theorem Agree.drawFrom {tenant' : Option String}
    {cost : N} {x y : Drawn N} (h : Agree o sweeps tenant a b)
    (hvalid : Valid o.budget tenant' rawKey)
    (hta : CanSweep sweeps a t)
    (htb : CanSweep sweeps b t)
    (ha : drawFrom o { a with clock := t } (keyOf o.budget tenant' rawKey) cost t = some (x, a'))
    (hb : drawFrom o { b with clock := t } (keyOf o.budget tenant' rawKey) cost t = some (y, b')) :
    Agree o sweeps tenant { a' with draws := ⟨ws, tenant', some x⟩ :: a'.draws }
      { b' with draws := ⟨ws, tenant', some y⟩ :: b'.draws } := by
  obtain ⟨hx, hgeta, hkeysa, hcountera, hclocka, hdrawsa⟩ := drawFrom_spec ha
  obtain ⟨hy, hgetb, hkeysb, hcounterb, hclockb, hdrawsb⟩ := drawFrom_spec hb
  have hleft := h.sweepLeft hta
  have hclean : (cleanup { a with clock := t } t).clock = t := clock_cleanup _ t
  have hswept := hleft.sweepRight htb fun _ => hclean.ge
  -- of buckets that are alike, both draw the same
  have hdraw : tenant' ≠ tenant → _ := fun hne => Alike.draw (o := o) cost
    (hclean ▸ hswept.buckets tenant' rawKey hne hvalid)
    (fun hs => (hta.later hs).2)
    (cleanup { a with clock := t } t).nextBucket (cleanup { b with clock := t } t).nextBucket
  refine hswept.update hvalid hgeta hgetb (fun hne => ?_) (hkeysa.trans (h.wsKeys.trans hkeysb.symm))
    (hcountera.trans (h.connCounter.trans hcounterb.symm)) (fun _ => ?_) ?_
  · rw [show ({ a' with draws := _ } : State N).clock = t from hclocka]
    exact alike_iff.2 (.inr ⟨_, _, rfl, rfl, (hdraw hne).2⟩)
  · rw [hclean, show ({ a' with draws := _ } : State N).clock = t from hclocka,
      show ({ b' with draws := _ } : State N).clock = t from hclockb]
    exact ⟨le_refl _, le_refl _⟩
  · have hra : RateLimit.results tenant a' = RateLimit.results tenant b' := by
      unfold RateLimit.results
      rw [hdrawsa, hdrawsb]
      exact h.results
    rw [results_cons, results_cons, hra]
    split
    · rfl
    · next hne => simp [hx, hy, (hdraw hne).1]

theorem Agree.consume {cost : Option N}
    {answer : Option String} (h : Agree o sweeps tenant a b) (hia : Inv o attribution a)
    (hib : Inv o attribution b) (hsa : Sound o attribution a (.consume ws cost rawKey answer t))
    (hsb : Sound o attribution b (.consume ws cost rawKey answer t))
    (hta : CanSweep sweeps a t)
    (htb : CanSweep sweeps b t)
    (ha : RateLimit.consume o attribution a ws cost rawKey answer t = some a')
    (hb : RateLimit.consume o attribution b ws cost rawKey answer t = some b') :
    Agree o sweeps tenant a' b' := by
  unfold RateLimit.consume at ha hb
  generalize cost.filter (fun cost => decide (0 ≤ cost)) = c at ha hb
  cases c with
  | none =>
    cases ha
    cases hb
    exact h.threw ws _
  | some c =>
    obtain ⟨hkepta, -, hnamed⟩ := consumeKey_spec hia hsa
    obtain ⟨hkeptb, -⟩ := consumeKey_spec hib hsb
    obtain ⟨hkey, hkeys, hcounter⟩ := consumeKey_congr
      h.wsKeys h.connCounter
    have hclocka := consumeKey_clock (o := o) (s := a) attribution ws rawKey answer
    have hclockb := consumeKey_clock (o := o) (s := b) attribution ws rawKey answer
    have h₁ := h.names hkepta hkeptb hclocka hclockb hkeys hcounter
    have hsizea := hkepta.buckets
    have hsizeb := hkeptb.buckets
    generalize consumeKey o attribution a ws rawKey answer = ra at *
    generalize consumeKey o attribution b ws rawKey answer = rb at *
    obtain ⟨ka, a₁⟩ := ra
    obtain ⟨kb, b₁⟩ := rb
    cases hkey
    cases ka with
    | none =>
      cases ha
      cases hb
      exact h₁.threw ws _
    | some key =>
      obtain ⟨⟨x, a₂⟩, hda, rfl⟩ := Option.map_eq_some_iff.1 ha
      obtain ⟨⟨y, b₂⟩, hdb, rfl⟩ := Option.map_eq_some_iff.1 hb
      obtain ⟨raw, rfl, hvalid, -⟩ := hnamed key rfl
      exact h₁.drawFrom hvalid (by rwa [CanSweep, hclocka, hsizea]) (by rwa [CanSweep, hclockb, hsizeb])
        hda hdb

theorem unban_spec {key bk : String} {tenantId : Option String}
    (h : adminBucketKey o key tenantId = some bk) :
    (∀ k, (unban o s key tenantId).buckets.get? k = if k = bk then
        (s.buckets.get? bk).map fun b => { b with bannedUntil := 0 } else s.buckets.get? k) ∧
      ∃ buckets, unban o s key tenantId = { s with buckets } := by
  cases hget : s.buckets.get? bk with
  | none =>
    have heq : unban o s key tenantId = s := by simp [unban, h, hget]
    rw [heq]
    refine ⟨fun k => ?_, s.buckets, rfl⟩
    split
    · next heq => rw [heq, hget]; rfl
    · rfl
  | some b =>
    have heq : unban o s key tenantId =
        { s with buckets := s.buckets.set bk { b with bannedUntil := 0 } } := by simp [unban, h, hget]
    rw [heq]
    exact ⟨fun k => get?_set _ _ _ _, _, rfl⟩

theorem Alike.unban (h : Alike sweeps t x y)
    (ht : sweeps = true → 0 ≤ t) :
    Alike sweeps t (x.map fun b => { b with bannedUntil := 0 })
      (y.map fun b => { b with bannedUntil := 0 }) := by
  have hnone : ∀ {z : Option (Bucket N)}, z.bind (seen sweeps t) = none →
      (z.map fun b => { b with bannedUntil := 0 }).bind (seen sweeps t) = none := by
    intro z hz
    rcases bind_seen_none.1 hz with rfl | ⟨hs, b, rfl, hexp⟩
    · rfl
    · refine bind_seen_none.2 (.inr ⟨hs, _, rfl, ?_⟩)
      exact expired_iff.2 ⟨(expired_iff.1 hexp).1, ban?_eq_none.2 (ht hs)⟩
  rcases alike_iff.1 h with ⟨hx, hy⟩ | ⟨b, b', rfl, rfl, heq⟩
  · exact alike_iff.2 (.inl ⟨hnone hx, hnone hy⟩)
  · exact alike_iff.2 (.inr ⟨_, _, rfl, rfl, heq.points, heq.resetAt, rfl, fun _ => rfl⟩)

theorem Alike.ban {until_ : N} (h : Alike sweeps t x y)
    (hx : sweeps = true → ∀ b, x = some b → b.expired t = false)
    (hy : sweeps = true → ∀ b, y = some b → b.expired t = false) (i j : Nat) :
    Equal sweeps t { x.getD (freshBucket o 0 t i) with bannedUntil := until_ }
      { y.getD (freshBucket o 0 t j) with bannedUntil := until_ } := by
  have hnone : ∀ {z : Option (Bucket N)}, (sweeps = true → ∀ b, z = some b → b.expired t = false) →
      z.bind (seen sweeps t) = none → z = none := by
    intro z hz hseen
    rcases bind_seen_none.1 hseen with hz' | ⟨hs, b, hb, hexp⟩
    · exact hz'
    · rw [hz hs b hb] at hexp
      cases hexp
  rcases alike_iff.1 h with ⟨hx', hy'⟩ | ⟨b, b', rfl, rfl, heq⟩
  · rw [hnone hx hx', hnone hy hy']
    exact ⟨rfl, rfl, rfl, fun _ => rfl⟩
  · exact ⟨heq.points, heq.resetAt, rfl, fun _ => rfl⟩

theorem Agree.admin {x : Action N} (h : Agree o sweeps tenant a b)
    (hx : ∀ ws cost rawKey answer t, x ≠ .consume ws cost rawKey answer t)
    (hsa : Sound o attribution a x) (hta : Steady o sweeps a x) (htb : Steady o sweeps b x)
    (ha : next o attribution a x = some a') (hb : next o attribution b x = some b') :
    Agree o sweeps tenant a' b' := by
  cases x with
  | consume ws cost rawKey answer t => exact absurd rfl (hx ws cost rawKey answer t)
  | reset key tenantId =>
    cases ha
    cases hb
    unfold reset
    cases hkey : adminBucketKey o key tenantId with
    | none => exact h
    | some bk =>
      obtain ⟨raw, rfl, hvalid⟩ := adminBucketKey_spec hkey hsa
      exact h.update hvalid (fun k => get?_delete _ _ _) (fun k => get?_delete _ _ _)
        (fun _ => .of_eq rfl) h.wsKeys h.connCounter (fun hs => ⟨le_refl _, (h.clock hs).1⟩) h.results
  | unban key tenantId =>
    cases ha
    cases hb
    cases hkey : adminBucketKey o key tenantId with
    | none =>
      unfold unban
      rw [hkey]
      exact h
    | some bk =>
      obtain ⟨raw, rfl, hvalid⟩ := adminBucketKey_spec hkey hsa
      obtain ⟨hgeta, bucketsa, heqa⟩ := unban_spec hkey
      obtain ⟨hgetb, bucketsb, heqb⟩ := unban_spec hkey
      rw [heqa] at hgeta ⊢
      rw [heqb] at hgetb ⊢
      exact h.update hvalid hgeta hgetb (fun hne => (h.buckets _ raw hne hvalid).unban fun hs =>
        (h.clock hs).2) h.wsKeys h.connCounter (fun hs => ⟨le_refl _, (h.clock hs).1⟩) h.results
  | ban key duration tenantId t =>
    simp only [next, ban] at ha hb
    cases hkey : adminBucketKey o key tenantId with
    | none =>
      rw [hkey] at ha hb
      cases ha
      cases hb
      refine ⟨h.wsKeys, h.connCounter, fun hs => ⟨le_refl _, (hta hs).2.1⟩, fun u raw hne hv => ?_,
        h.results⟩
      exact (h.buckets u raw hne hv).at fun hs => (hta hs).1
    | some bk =>
      obtain ⟨raw, rfl, hvalid⟩ := adminBucketKey_spec hkey hsa
      rw [hkey] at ha hb
      simp only at ha hb
      split at ha
      · cases ha
      split at hb
      · cases hb
      · cases ha
        cases hb
        refine h.update hvalid (fun k => get?_set _ _ _ _) (fun k => get?_set _ _ _ _)
          (fun hne => ?_) h.wsKeys h.connCounter (fun hs => ⟨(hta hs).1, le_refl _⟩) h.results
        have halike := (h.buckets _ raw hne hvalid).at fun hs => (hta hs).1
        exact alike_iff.2 (.inr ⟨_, _, rfl, rfl, halike.ban (fun hs b hb => (hta hs).2.2 _ b hkey hb)
          (fun hs b hb => (htb hs).2.2 _ b hkey hb) _ _⟩)
  | clear tenantId =>
    cases ha
    cases hb
    unfold clear
    cases htenant : truthy tenantId with
    | none =>
      exact ⟨h.wsKeys, rfl, h.clock, fun _ _ _ _ => .of_eq rfl, h.results⟩
    | some id =>
      refine ⟨h.wsKeys, h.connCounter, h.clock, fun u raw hne hv => ?_, h.results⟩
      have halike := h.buckets u raw hne hv
      simp only [JsMap.get?_filter]
      split
      · split
        · rw [get?_delete, get?_delete]
          split
          · exact .of_eq rfl
          · exact halike
        · exact halike
      · exact .of_eq rfl

/-! ## a call on one side -/

omit [Number N] in
/-- `clear` of a tenant leaves the keys of the others. -/
theorem keyOf_cleared {id : String} {tenant' : Option String} {budget : Budget}
    (hne : tenant' ≠ some id) (hid : id ≠ "") (hnul : '\x00' ∉ id.toList)
    (hvalid : Valid budget tenant' rawKey) :
    (id ++ "\x00").toList.isPrefixOf (keyOf budget tenant' rawKey).toList = false ∧
      (budget = .tenant → keyOf budget tenant' rawKey ≠ id) := by
  rw [Bool.eq_false_iff, ne_eq, List.isPrefixOf_iff_prefix, String.toList_append]
  cases tenant' with
  | none =>
    obtain ⟨rfl, hjoined⟩ := hvalid.unscoped rfl
    refine ⟨fun hstart => hjoined ?_, by simp⟩
    obtain ⟨rest, hrest⟩ := hstart
    refine ⟨id, String.ofList rest, hid, hnul, String.toList_inj.1 ?_⟩
    simpa [keyOf] using hrest.symm
  | some id' =>
    obtain ⟨-, hnul'⟩ := hvalid.scope id' rfl
    have hids : id' ≠ id := fun heq => hne (by rw [heq])
    cases budget with
    | principal =>
      rw [keyOf_toList]
      exact ⟨fun hstart => hids (String.toList_inj.1 (append_delim_isPrefix hnul hnul' hstart)).symm,
        by simp⟩
    | tenant =>
      refine ⟨fun hstart => hnul' (hstart.subset ?_), fun _ => hids⟩
      simp

theorem untouched {x : Action N} (hinv : Inv o attribution s) (hclock : sweeps = true → 0 ≤ s.clock)
    (hsound : Sound o attribution s x) (hsteady : Steady o sweeps s x)
    (hscope : scope o attribution x = some tenant)
    (hmints : ∀ ws cost rawKey answer t, x = .consume ws cost rawKey answer t → ¬ Mints o s ws)
    (hn : next o attribution s x = some s') : Agree o sweeps tenant s' s := by
  have hrefl : Agree o sweeps tenant s s := .refl s hclock
  -- the bucket of a name of the tenant changes
  have hone : ∀ {rawKey : String} {c c' : State N} {y : Option (Bucket N)},
      Agree o sweeps tenant c s → Valid o.budget tenant rawKey →
      (∀ k, c'.buckets.get? k = if k = keyOf o.budget tenant rawKey then y else c.buckets.get? k) →
      c'.wsKeys = s.wsKeys → c'.connCounter = s.connCounter →
      (sweeps = true → c.clock ≤ c'.clock ∧ s.clock ≤ c'.clock) → results tenant c' = results tenant s →
      Agree o sweeps tenant c' s := by
    intro rawKey c c' y hc hvalid hget hkeys hcounter hck hres
    refine hc.update hvalid hget (y := s.buckets.get? (keyOf o.budget tenant rawKey)) (fun k => ?_)
      (absurd rfl) hkeys hcounter hck hres
    split
    · next heq => rw [heq]
    · rfl
  cases x with
  | consume ws cost rawKey answer t =>
    simp only [scope, Option.some.injEq] at hscope
    have hsame := consumeKey_of_not_mints attribution rawKey answer (hmints ws cost rawKey answer t rfl)
    have hthrew : Agree o sweeps tenant (s.threw ws tenant) s :=
      ⟨rfl, rfl, hrefl.clock, hrefl.buckets, by rw [State.threw, results_cons, if_pos rfl]⟩
    simp only [next, RateLimit.consume, hscope] at hn
    generalize cost.filter (fun cost => decide (0 ≤ cost)) = c at hn
    cases c with
    | none =>
      cases hn
      exact hthrew
    | some c =>
      obtain ⟨-, -, hnamed⟩ := consumeKey_spec hinv hsound
      rw [hscope] at hnamed
      generalize consumeKey o attribution s ws rawKey answer = r at *
      obtain ⟨k, s₁⟩ := r
      cases hsame
      cases k with
      | none =>
        cases hn
        exact hthrew
      | some key =>
        obtain ⟨⟨y, s₂⟩, hdraw, rfl⟩ := Option.map_eq_some_iff.1 hn
        obtain ⟨raw, rfl, hvalid, -⟩ := hnamed key rfl
        obtain ⟨-, hget, hkeys, hcounter, hck, hdraws⟩ := drawFrom_spec hdraw
        have hswept := hrefl.sweepLeft hsteady
        have hclean : (cleanup { s₁ with clock := t } t).clock = t := clock_cleanup _ t
        refine hone hswept hvalid hget hkeys hcounter (fun hs => ?_) ?_
        · rw [hclean, show ({ s₂ with draws := _ } : State N).clock = t from hck]
          simp only [Steady, if_pos hs] at hsteady
          exact ⟨le_refl _, hsteady.1⟩
        · rw [results_cons, if_pos rfl]
          unfold results
          rw [hdraws]
  | reset key tenantId =>
    simp only [scope, Option.some.injEq] at hscope
    cases hn
    unfold reset
    cases hkey : adminBucketKey o key tenantId with
    | none => exact hrefl
    | some bk =>
      obtain ⟨raw, rfl, hvalid⟩ := adminBucketKey_spec hkey hsound
      rw [hscope] at hvalid ⊢
      exact hone hrefl hvalid (fun k => get?_delete _ _ _) rfl rfl
        (fun _ => ⟨le_refl _, le_refl _⟩) rfl
  | unban key tenantId =>
    simp only [scope, Option.some.injEq] at hscope
    cases hn
    cases hkey : adminBucketKey o key tenantId with
    | none =>
      unfold unban
      rw [hkey]
      exact hrefl
    | some bk =>
      obtain ⟨raw, rfl, hvalid⟩ := adminBucketKey_spec hkey hsound
      obtain ⟨hget, buckets, heq⟩ := unban_spec hkey
      rw [hscope] at hvalid hget
      rw [heq] at hget ⊢
      exact hone hrefl hvalid hget rfl rfl (fun _ => ⟨le_refl _, le_refl _⟩) rfl
  | ban key duration tenantId t =>
    simp only [scope, Option.some.injEq] at hscope
    simp only [next, ban] at hn
    cases hkey : adminBucketKey o key tenantId with
    | none =>
      rw [hkey] at hn
      cases hn
      exact ⟨rfl, rfl, fun hs => ⟨(hsteady hs).1, (hsteady hs).2.1⟩,
        fun u raw hne hv => .of_eq rfl, rfl⟩
    | some bk =>
      obtain ⟨raw, rfl, hvalid⟩ := adminBucketKey_spec hkey hsound
      rw [hkey] at hn
      simp only at hn
      split at hn
      · cases hn
      · cases hn
        rw [hscope] at hvalid ⊢
        exact hone hrefl hvalid (fun k => get?_set _ _ _ _) rfl rfl
          (fun hs => ⟨(hsteady hs).1, (hsteady hs).1⟩) rfl
  | clear tenantId =>
    cases hn
    unfold clear
    cases htenant : truthy tenantId with
    | none =>
      simp [scope, htenant] at hscope
    | some id =>
      have hid : tenant = some id := by simpa [scope, htenant, eq_comm] using hscope
      refine ⟨rfl, rfl, hrefl.clock, fun u raw hne hv => .of_eq ?_, rfl⟩
      obtain ⟨hstart, hown⟩ := keyOf_cleared (hid ▸ hne) (truthy_ne htenant) (hsound id htenant) hv
      simp only [JsMap.get?_filter, hstart, Bool.not_false, if_true]
      split
      · next hbudget => rw [get?_delete, if_neg (hown hbudget)]
      · rfl

/-! ## runs -/

/-- The steps of the runs. -/
def Guard (o : Options N) (attribution : Conn → Option String) (sweeps : Bool) (s : State N)
    (x : Action N) : Prop :=
  Sound o attribution s x ∧ Steady o sweeps s x

theorem inv_of_guarded {as : List (Action N)}
    (h : (machine o attribution).Runs (Guard o attribution sweeps) as s) : Inv o attribution s :=
  inv_of_run (h.mono fun _ _ hg => hg.1)

theorem Agree.step {x : Action N} (h : Agree o sweeps tenant a b)
    (hia : Inv o attribution a) (hib : Inv o attribution b) (hga : Guard o attribution sweeps a x)
    (hgb : Guard o attribution sweeps b x) (ha : next o attribution a x = some a')
    (hb : next o attribution b x = some b') : Agree o sweeps tenant a' b' := by
  cases x with
  | consume ws cost rawKey answer t => exact h.consume hia hib hga.1 hgb.1 hga.2 hgb.2 ha hb
  | _ => exact h.admin (fun _ _ _ _ _ heq => by cases heq) hga.1 hga.2 hgb.2 ha hb

/-- What a call reads of the clock. -/
def reading : Action N → Option N
  | .consume _ _ _ _ t | .ban _ _ _ t => some t
  | _ => none

theorem next_clock {x : Action N} (hn : next o attribution s x = some s') :
    s'.clock = s.clock ∨ reading x = some s'.clock := by
  cases x with
  | consume ws cost rawKey answer t =>
    simp only [next, RateLimit.consume] at hn
    split at hn
    · cases hn
      exact .inl rfl
    have hclock := consumeKey_clock (o := o) (s := s) attribution ws rawKey answer
    split at hn
    · next heq =>
      cases hn
      rw [heq] at hclock
      exact .inl hclock
    · obtain ⟨⟨y, s₂⟩, hdraw, rfl⟩ := Option.map_eq_some_iff.1 hn
      obtain ⟨-, -, -, -, hck, -⟩ := drawFrom_spec hdraw
      exact .inr (congrArg some hck.symm)
  | reset key tenantId =>
    cases hn
    unfold reset
    split <;> exact .inl rfl
  | ban key duration tenantId t =>
    simp only [next, ban] at hn
    split at hn
    · cases hn
      exact .inr rfl
    · split at hn
      · cases hn
      · cases hn
        exact .inr rfl
  | unban key tenantId =>
    cases hn
    unfold unban
    split
    · exact .inl rfl
    · split <;> exact .inl rfl
  | clear tenantId =>
    cases hn
    unfold clear
    split <;> exact .inl rfl

theorem clock_nonneg {as : List (Action N)}
    (h : (machine o attribution).Runs (Guard o attribution sweeps) as s) (hs : sweeps = true) :
    0 ≤ s.clock := by
  refine Machine.Runs.invariant (I := fun s : State N => 0 ≤ s.clock)
    (le_refl _) (fun s x s' hI hg hn => ?_) h
  have hsteady := hg.2
  rcases next_clock hn with heq | hread
  · exact heq ▸ hI
  cases x with
  | consume ws cost rawKey answer t =>
    cases hread
    simp only [Steady, if_pos hs] at hsteady
    exact hsteady.2
  | ban key duration tenantId t =>
    cases hread
    exact (hsteady hs).2.1
  | _ => cases hread

theorem scoped_call {x : Action N} {before after : List (Action N)}
    (ha : (machine o attribution).Runs (Guard o attribution sweeps) (before ++ x :: after) a)
    (hb : (machine o attribution).Runs (Guard o attribution sweeps) (before ++ after) b)
    (hscope : scope o attribution x = some tenant)
    (hmints : ∀ s, (machine o attribution).Runs (Guard o attribution sweeps) before s →
      ∀ ws cost rawKey answer t, x = .consume ws cost rawKey answer t → ¬ Mints o s ws) :
    Agree o sweeps tenant a b := by
  induction after using List.reverseRecOn generalizing a b with
  | nil =>
    rw [List.append_nil] at hb
    obtain ⟨s, hs, hg, hn⟩ := ha.unsnoc
    obtain rfl := hs.unique hb
    exact untouched (inv_of_guarded hs) (clock_nonneg hs) hg.1 hg.2 hscope (hmints s hs) hn
  | append_singleton after y ih =>
    rw [← List.cons_append, ← List.append_assoc] at ha
    rw [← List.append_assoc] at hb
    obtain ⟨a₀, ha₀, hga, hna⟩ := ha.unsnoc
    obtain ⟨b₀, hb₀, hgb, hnb⟩ := hb.unsnoc
    exact (ih ha₀ hb₀).step (inv_of_guarded ha₀) (inv_of_guarded hb₀) hga hgb hna hnb

end

end BunServe.RateLimit
