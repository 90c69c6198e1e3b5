import BunServe.RateLimit.Tenants
import Mathlib.Data.Int.Order.Basic

/-!
# BunServe.RateLimit.Renamed

The first call of a connection under `keyBy: 'connection'`: it takes a number, so the
connections after it get other numbers than they would without it.  Nothing shows of
that as long as no admin call names a bucket by such a number.

* `Renamed` — two limiters with other numbers for their connections, in which the
  buckets of each connection are alike;
* `first_call` — without the first call of a connection, the connections of other
  tenants are answered the same;
* `bucket_isolation` — both together, with the calls that share a bucket.
-/

namespace BunServe.RateLimit

variable {N : Type} [Number N]

section

variable (o : Options N) (attribution : Conn → Option String) (sweeps : Bool)

/-- No number above `connCounter` was given out. -/
def Current (s : State N) : Prop := ∀ ws n, Given o attribution s ws n → n ≤ s.connCounter

/-- No tenant, or an id that `bucketKey` takes. -/
def Clean (tenant : Option String) : Prop :=
  ∀ id, tenant = some id → id ≠ "" ∧ '\x00' ∉ id.toList

def connBucket (s : State N) (tenant : Option String) (n : Nat) : Option (Bucket N) :=
  s.buckets.get? (keyOf .principal tenant (connKey n))

/-- The numbers not given out have no buckets, but for those of a tenant. -/
def Fresh (tenant : Option String) (s : State N) : Prop :=
  Current o attribution s → ∀ u, u ≠ tenant → Clean u → ∀ n, s.connCounter < n →
    connBucket s u n = none

/-- Two limiters whose connections have other numbers, the first with more connections;
their buckets are alike, but for those of a tenant. -/
structure Renamed (tenant : Option String) (a b : State N) : Prop where
  clock : sweeps = true → b.clock ≤ a.clock ∧ 0 ≤ a.clock
  keyed : ∀ ws, a.wsKeys.get? ws = none → b.wsKeys.get? ws = none
  conns : ∀ u, u ≠ tenant → Clean u → ∀ ws n m, Given o attribution a ws n →
    Given o attribution b ws m → Alike sweeps a.clock (connBucket a u n) (connBucket b u m)
  alone : ∀ u, u ≠ tenant → Clean u → ∀ ws n, Given o attribution a ws n →
    b.wsKeys.get? ws = none → Alike sweeps a.clock (connBucket a u n) none
  left : Fresh o attribution tenant a
  right : Fresh o attribution tenant b
  results : results tenant a = results tenant b

/-- An admin call that names no connection. -/
def Plain : Action N → Prop
  | .reset key _ | .ban key _ _ _ | .unban key _ => ∀ n, key ≠ connKey n
  | _ => True

end

section

variable {o : Options N} {attribution : Conn → Option String} {sweeps : Bool} {s s' a b a' b' : State N}
  {tenant u v : Option String} {ws : Conn} {n m : Nat}

theorem Clean.valid (h : Clean u) (n : Nat) : Valid .principal u (connKey n) :=
  ⟨h, fun _ => ⟨rfl, connKey_not_joined n⟩⟩

theorem connBucket_key (hu : Clean u) (hv : Clean v)
    (h : keyOf .principal u (connKey n) = keyOf .principal v (connKey m)) : u = v ∧ n = m := by
  obtain ⟨htenant, hraw⟩ := keyOf_inj (hu.valid n) (hv.valid m) h
  exact ⟨htenant, connKey_inj (hraw rfl)⟩

omit [Number N] in
theorem given_inj (h : Given o attribution s ws n) (h' : Given o attribution s ws m) : n = m :=
  wsKey_inj (Option.some.inj (h.symm.trans h'))

/-! ## one side at a time -/

variable {t : N}

theorem cleanup_none {k : String} (h : s.buckets.get? k = none) :
    (cleanup s t).buckets.get? k = none := by
  unfold cleanup
  split
  · exact h
  · rw [JsMap.get?_filter, h, ite_self]

theorem Renamed.onLeft (h : Renamed o attribution sweeps tenant a b)
    (hkeys : a'.wsKeys = a.wsKeys) (hcounter : a'.connCounter = a.connCounter)
    (hclock : sweeps = true → a.clock ≤ a'.clock) (halike : ∀ u, u ≠ tenant → Clean u → ∀ n,
      Alike sweeps a'.clock (connBucket a' u n) (connBucket a u n))
    (hnone : ∀ u, u ≠ tenant → Clean u → ∀ n, connBucket a u n = none → connBucket a' u n = none)
    (hresults : RateLimit.results tenant a' = RateLimit.results tenant a) :
    Renamed o attribution sweeps tenant a' b where
  clock hs := ⟨(h.clock hs).1.trans (hclock hs), (h.clock hs).2.trans (hclock hs)⟩
  keyed := by rw [hkeys]; exact h.keyed
  conns u hu hc ws n m hn hm := by
    unfold Given at hn
    rw [hkeys] at hn
    exact (halike u hu hc n).trans ((h.conns u hu hc ws n m hn hm).at hclock)
  alone u hu hc ws n hn hb := by
    unfold Given at hn
    rw [hkeys] at hn
    exact (halike u hu hc n).trans ((h.alone u hu hc ws n hn hb).at hclock)
  left hcurrent u hu hc n hn := by
    unfold Current Given at hcurrent
    rw [hkeys, hcounter] at hcurrent
    rw [hcounter] at hn
    exact hnone u hu hc n (h.left hcurrent u hu hc n hn)
  right := h.right
  results := hresults.trans h.results

theorem Renamed.onRight (h : Renamed o attribution sweeps tenant a b)
    (hkeys : b'.wsKeys = b.wsKeys) (hcounter : b'.connCounter = b.connCounter)
    (hclock : sweeps = true → b'.clock ≤ a.clock) (halike : ∀ u, u ≠ tenant → Clean u → ∀ n,
      Alike sweeps a.clock (connBucket b' u n) (connBucket b u n))
    (hnone : ∀ u, u ≠ tenant → Clean u → ∀ n, connBucket b u n = none → connBucket b' u n = none)
    (hresults : RateLimit.results tenant b' = RateLimit.results tenant b) :
    Renamed o attribution sweeps tenant a b' where
  clock hs := ⟨hclock hs, (h.clock hs).2⟩
  keyed := by rw [hkeys]; exact h.keyed
  conns u hu hc ws n m hn hm := by
    unfold Given at hm
    rw [hkeys] at hm
    exact (h.conns u hu hc ws n m hn hm).trans (halike u hu hc m).symm
  alone u hu hc ws n hn hb := by
    rw [hkeys] at hb
    exact h.alone u hu hc ws n hn hb
  left := h.left
  right hcurrent u hu hc n hn := by
    unfold Current Given at hcurrent
    rw [hkeys, hcounter] at hcurrent
    rw [hcounter] at hn
    exact hnone u hu hc n (h.right hcurrent u hu hc n hn)
  results := h.results.trans hresults.symm

theorem Renamed.sweep (h : Renamed o attribution sweeps tenant a b)
    (hta : CanSweep sweeps a t)
    (htb : CanSweep sweeps b t) :
    Renamed o attribution sweeps tenant (cleanup { a with clock := t } t)
      (cleanup { b with clock := t } t) := by
  have hres : ∀ c : State N, RateLimit.results tenant (cleanup { c with clock := t } t) =
      RateLimit.results tenant c := fun c => by simp [RateLimit.results]
  have hleft : Renamed o attribution sweeps tenant (cleanup { a with clock := t } t) b := by
    refine h.onLeft (by simp) (by simp) (fun hs => ?_) (fun u _ _ n => ?_)
      (fun u _ _ n hnone => cleanup_none hnone) (hres a)
    · rw [clock_cleanup]
      exact (hta.later hs).1
    · rw [clock_cleanup]
      exact alike_cleanup (s := { a with clock := t }) hta.small _
  refine hleft.onRight (by simp) (by simp) (fun hs => by simp) (fun u _ _ n => ?_)
    (fun u _ _ n hnone => cleanup_none hnone) (hres b)
  rw [clock_cleanup]
  exact alike_cleanup (s := { b with clock := t }) htb.small _

/-! ## naming -/

/-- A connection with a number of its own. -/
def minted (o : Options N) (attribution : Conn → Option String) (s : State N) (ws : Conn) : State N :=
  { s with
    connCounter := s.connCounter + 1
    wsKeys := s.wsKeys.set ws (wsKey o attribution ws (s.connCounter + 1)) }

/-- A number lost. -/
def bumped (s : State N) : State N := { s with connCounter := s.connCounter + 1 }

omit [Number N] in
theorem given_minted {ws' : Conn} : Given o attribution (minted o attribution s ws) ws' n ↔
    ws' = ws ∧ n = s.connCounter + 1 ∨ ws' ≠ ws ∧ Given o attribution s ws' n := by
  simp only [Given, minted, JsMap.get?_set]
  split
  · next heq =>
    subst heq
    simp only [Option.some.injEq, true_and, ne_eq, not_true_eq_false, false_and, or_false]
    exact ⟨fun h => (wsKey_inj h).symm, fun h => by rw [h]⟩
  · next hne => simp [hne]

omit [Number N] in
theorem get?_minted {ws' : Conn} : (minted o attribution s ws).wsKeys.get? ws' = none ↔
    ws' ≠ ws ∧ s.wsKeys.get? ws' = none := by
  simp only [minted, JsMap.get?_set]
  split
  · next heq => simp [heq]
  · next hne => simp [hne]

theorem Renamed.mintLeft (h : Renamed o attribution sweeps tenant a b)
    (hnone : a.wsKeys.get? ws = none) (hcurrent : Current o attribution a) :
    Renamed o attribution sweeps tenant (minted o attribution a ws) b where
  clock := h.clock
  keyed ws' hws' := h.keyed ws' (get?_minted.1 hws').2
  conns u hu hc ws' n m hn hm := by
    rcases given_minted.1 hn with ⟨rfl, -⟩ | ⟨-, hn⟩
    · rw [Given, h.keyed ws' hnone] at hm
      cases hm
    · exact h.conns u hu hc ws' n m hn hm
  alone u hu hc ws' n hn hb := by
    rcases given_minted.1 hn with ⟨rfl, rfl⟩ | ⟨-, hn⟩
    · exact .of_eq (h.left hcurrent u hu hc _ (Nat.lt_succ_self _))
    · exact h.alone u hu hc ws' n hn hb
  left _ u hu hc n hn := h.left hcurrent u hu hc n (Nat.lt_of_succ_lt hn)
  right := h.right
  results := h.results

theorem Renamed.mintRight (h : Renamed o attribution sweeps tenant a b)
    (hkeyed : a.wsKeys.get? ws ≠ none) (hnone : b.wsKeys.get? ws = none)
    (hcurrent : Current o attribution b) :
    Renamed o attribution sweeps tenant a (minted o attribution b ws) where
  clock := h.clock
  keyed ws' hws' := get?_minted.2 ⟨fun heq => hkeyed (heq ▸ hws'), h.keyed ws' hws'⟩
  conns u hu hc ws' n m hn hm := by
    rcases given_minted.1 hm with ⟨rfl, rfl⟩ | ⟨-, hm⟩
    · refine (h.alone u hu hc ws' n hn hnone).trans (.of_eq ?_)
      exact (h.right hcurrent u hu hc _ (Nat.lt_succ_self _)).symm
    · exact h.conns u hu hc ws' n m hn hm
  alone u hu hc ws' n hn hb := h.alone u hu hc ws' n hn (get?_minted.1 hb).2
  left := h.left
  right _ u hu hc n hn := h.right hcurrent u hu hc n (Nat.lt_of_succ_lt hn)
  results := h.results

theorem Renamed.bump (h : Renamed o attribution sweeps tenant a b)
    (ha : Current o attribution a) (hb : Current o attribution b) :
    Renamed o attribution sweeps tenant (bumped a) (bumped b) where
  clock := h.clock
  keyed := h.keyed
  conns := h.conns
  alone := h.alone
  left _ u hu hc n hn := h.left ha u hu hc n (Nat.lt_of_succ_lt hn)
  right _ u hu hc n hn := h.right hb u hu hc n (Nat.lt_of_succ_lt hn)
  results := h.results

variable {rawKey : String}

omit [Number N] in
theorem bucketKey_clean {tenantId : Option String} (h : Clean (truthy tenantId)) :
    bucketKey .principal rawKey tenantId = some (keyOf .principal (truthy tenantId) rawKey) :=
  bucketKey_eq_some.2 ⟨rfl, fun id hid => (h id hid).2, fun _ => rfl⟩

omit [Number N] in
theorem bucketKey_unclean {tenantId : Option String}
    (h : ¬ Clean (truthy tenantId)) : bucketKey .principal rawKey tenantId = none := by
  cases hkey : bucketKey .principal rawKey tenantId with
  | none => rfl
  | some k => exact absurd (fun id hid => ⟨truthy_ne hid, (bucketKey_eq_some.1 hkey).2.1 id hid⟩) h

variable {answer : Option String}

section

variable (hbudget : o.budget = .principal) (hkeyBy : o.keyBy = .connection)

include hbudget hkeyBy

omit [Number N] in
theorem consumeKey_given (hinv : Inv o attribution s)
    (hg : Given o attribution s ws n) : consumeKey o attribution s ws rawKey answer =
      (bucketKey .principal (connKey n) (o.tenantId attribution ws answer), s) := by
  have hget : s.wsKeys.get? ws = some (wsKey o attribution ws n) := hg
  cases htenant : o.tenant with
  | true =>
    simp [consumeKey, principalBucketKey, resolveRawKey, hbudget, hkeyBy, htenant, hget, wsKey,
      Options.tenantId]
  | false =>
    obtain ⟨_, -, hnul⟩ := hinv.given ws _ hget
    have hclean : Clean (truthy (attribution ws)) := fun id hid => ⟨truthy_ne hid, hnul htenant id hid⟩
    simp [consumeKey, principalBucketKey, hbudget, hkeyBy, htenant, hget, wsKey, Options.tenantId,
      bucketKey_clean hclean]

omit [Number N] in
theorem consumeKey_new (hnone : s.wsKeys.get? ws = none) :
    (consumeKey o attribution s ws rawKey answer).1 =
        bucketKey .principal (connKey (s.connCounter + 1)) (o.tenantId attribution ws answer) ∧
      (o.tenant = false ∧ ¬ Clean (truthy (o.tenantId attribution ws answer)) →
        (consumeKey o attribution s ws rawKey answer).2 = bumped s) ∧
      (¬ (o.tenant = false ∧ ¬ Clean (truthy (o.tenantId attribution ws answer))) →
        (consumeKey o attribution s ws rawKey answer).2 = minted o attribution s ws) := by
  cases htenant : o.tenant with
  | true =>
    simp [consumeKey, principalBucketKey, resolveRawKey, hbudget, hkeyBy, htenant, hnone, wsKey,
      Options.tenantId, minted]
  | false =>
    by_cases hclean : Clean (truthy (attribution ws))
    · simp [consumeKey, principalBucketKey, hbudget, hkeyBy, htenant, hnone, wsKey,
        Options.tenantId, minted, bucketKey_clean hclean, hclean]
    · simp [consumeKey, principalBucketKey, hbudget, hkeyBy, htenant, hnone,
        Options.tenantId, bumped, bucketKey_unclean hclean, hclean]

theorem Renamed.naming (h : Renamed o attribution sweeps tenant a b) (hia : Inv o attribution a)
    (hib : Inv o attribution b) (hca : Mints o a ws → Current o attribution a)
    (hcb : Mints o b ws → Current o attribution b) :
    Renamed o attribution sweeps tenant (consumeKey o attribution a ws rawKey answer).2
        (consumeKey o attribution b ws rawKey answer).2 ∧
      ((consumeKey o attribution a ws rawKey answer).1 = none ∧
          (consumeKey o attribution b ws rawKey answer).1 = none ∨
        Clean (truthy (o.tenantId attribution ws answer)) ∧ ∃ n m,
          Given o attribution (consumeKey o attribution a ws rawKey answer).2 ws n ∧
          Given o attribution (consumeKey o attribution b ws rawKey answer).2 ws m ∧
          (consumeKey o attribution a ws rawKey answer).1 =
            some (keyOf .principal (truthy (o.tenantId attribution ws answer)) (connKey n)) ∧
          (consumeKey o attribution b ws rawKey answer).1 =
            some (keyOf .principal (truthy (o.tenantId attribution ws answer)) (connKey m))) := by
  -- the answers: of one tenant, so both throw or neither
  have hanswers : ∀ {ka kb : Option String} {a₁ b₁ : State N} {n m : Nat},
      ka = bucketKey .principal (connKey n) (o.tenantId attribution ws answer) →
      kb = bucketKey .principal (connKey m) (o.tenantId attribution ws answer) →
      (Clean (truthy (o.tenantId attribution ws answer)) →
        Given o attribution a₁ ws n ∧ Given o attribution b₁ ws m) →
      (ka = none ∧ kb = none ∨ Clean (truthy (o.tenantId attribution ws answer)) ∧ ∃ n m,
        Given o attribution a₁ ws n ∧ Given o attribution b₁ ws m ∧
          ka = some (keyOf .principal (truthy (o.tenantId attribution ws answer)) (connKey n)) ∧
          kb = some (keyOf .principal (truthy (o.tenantId attribution ws answer)) (connKey m))) := by
    rintro ka kb a₁ b₁ n m rfl rfl hgiven
    by_cases hclean : Clean (truthy (o.tenantId attribution ws answer))
    · obtain ⟨hn, hm⟩ := hgiven hclean
      exact .inr ⟨hclean, n, m, hn, hm, bucketKey_clean hclean, bucketKey_clean hclean⟩
    · exact .inl ⟨bucketKey_unclean hclean, bucketKey_unclean hclean⟩
  have hself : ∀ c : State N, Given o attribution (minted o attribution c ws) ws (c.connCounter + 1) :=
    fun c => given_minted.2 (.inl ⟨rfl, rfl⟩)
  cases hkb : b.wsKeys.get? ws with
  | some kb =>
    obtain ⟨m, rfl, -⟩ := hib.given ws kb hkb
    have hm : Given o attribution b ws m := hkb
    rw [consumeKey_given hbudget hkeyBy hib hm]
    cases hka : a.wsKeys.get? ws with
    | none =>
      rw [h.keyed ws hka] at hkb
      cases hkb
    | some ka =>
      obtain ⟨n, rfl, -⟩ := hia.given ws ka hka
      have hn : Given o attribution a ws n := hka
      rw [consumeKey_given hbudget hkeyBy hia hn]
      exact ⟨h, hanswers rfl rfl fun _ => ⟨hn, hm⟩⟩
  | none =>
    have hcurb := hcb ⟨hbudget, hkeyBy, hkb⟩
    obtain ⟨hkeyb, hbumpb, hmintb⟩ := consumeKey_new
      hbudget hkeyBy hkb
    cases hka : a.wsKeys.get? ws with
    | some ka =>
      obtain ⟨n, rfl, hnul⟩ := hia.given ws ka hka
      have hn : Given o attribution a ws n := hka
      rw [consumeKey_given hbudget hkeyBy hia hn]
      -- the tenant of a connection that has its key is one that `bucketKey` takes
      have hgood : ¬ (o.tenant = false ∧ ¬ Clean (truthy (o.tenantId attribution ws answer))) := by
        rintro ⟨htenant, hunclean⟩
        refine hunclean fun id hid => ⟨truthy_ne hid, hnul htenant id ?_⟩
        simpa [Options.tenantId, htenant] using hid
      rw [hmintb hgood]
      refine ⟨h.mintRight (by simp [hka]) hkb hcurb, hanswers rfl hkeyb fun _ => ⟨hn, hself b⟩⟩
    | none =>
      have hcura := hca ⟨hbudget, hkeyBy, hka⟩
      obtain ⟨hkeya, hbumpa, hminta⟩ := consumeKey_new
        hbudget hkeyBy hka
      by_cases hbad : o.tenant = false ∧ ¬ Clean (truthy (o.tenantId attribution ws answer))
      · rw [hbumpa hbad, hbumpb hbad]
        exact ⟨h.bump hcura hcurb, hanswers hkeya hkeyb fun hclean => absurd hclean hbad.2⟩
      · rw [hminta hbad, hmintb hbad]
        have hleft := h.mintLeft hka hcura
        have hkeyed : (minted o attribution a ws).wsKeys.get? ws ≠ none := by
          rw [show _ = some _ from hself a]
          simp
        exact ⟨hleft.mintRight hkeyed hkb hcurb, hanswers hkeya hkeyb fun _ => ⟨hself a, hself b⟩⟩

end

theorem Renamed.drawFrom {cost : N} {x y : Drawn N} (h : Renamed o attribution sweeps tenant a b)
    (hia : Inv o attribution a) (hib : Inv o attribution b) (hclean : Clean u)
    (hn : Given o attribution a ws n) (hm : Given o attribution b ws m)
    (hta : CanSweep sweeps a t)
    (htb : CanSweep sweeps b t)
    (ha : drawFrom o { a with clock := t } (keyOf .principal u (connKey n)) cost t = some (x, a'))
    (hb : drawFrom o { b with clock := t } (keyOf .principal u (connKey m)) cost t = some (y, b')) :
    Renamed o attribution sweeps tenant { a' with draws := ⟨ws, u, some x⟩ :: a'.draws }
      { b' with draws := ⟨ws, u, some y⟩ :: b'.draws } := by
  obtain ⟨hx, hgeta, hkeysa, hcountera, hclocka, hdrawsa⟩ := drawFrom_spec ha
  obtain ⟨hy, hgetb, hkeysb, hcounterb, hclockb, hdrawsb⟩ := drawFrom_spec hb
  have hswept := h.sweep hta htb
  have hclock : (cleanup { a with clock := t } t).clock = t := clock_cleanup _ t
  have hnswept : Given o attribution (cleanup { a with clock := t } t) ws n := by
    simpa [Given] using hn
  have hmswept : Given o attribution (cleanup { b with clock := t } t) ws m := by
    simpa [Given] using hm
  have hdraw : u ≠ tenant → _ := fun hne => Alike.draw (o := o) cost
    (hclock ▸ hswept.conns u hne hclean ws n m hnswept hmswept)
    (fun hs => (hta.later hs).2)
    (cleanup { a with clock := t } t).nextBucket (cleanup { b with clock := t } t).nextBucket
  -- the buckets of other connections, and of other tenants, are those that were swept
  have hothera : ∀ v, Clean v → ∀ j, ¬ (v = u ∧ j = n) →
      connBucket a' v j = connBucket (cleanup { a with clock := t } t) v j := by
    intro v hv j hne
    unfold connBucket
    rw [hgeta, if_neg fun heq => hne (connBucket_key hv hclean heq)]
  have hotherb : ∀ v, Clean v → ∀ j, ¬ (v = u ∧ j = m) →
      connBucket b' v j = connBucket (cleanup { b with clock := t } t) v j := by
    intro v hv j hne
    unfold connBucket
    rw [hgetb, if_neg fun heq => hne (connBucket_key hv hclean heq)]
  have hkeya : a'.wsKeys = (cleanup { a with clock := t } t).wsKeys := by simpa using hkeysa
  have hkeyb : b'.wsKeys = (cleanup { b with clock := t } t).wsKeys := by simpa using hkeysb
  have hcounta : a'.connCounter = (cleanup { a with clock := t } t).connCounter := by
    simpa using hcountera
  have hcountb : b'.connCounter = (cleanup { b with clock := t } t).connCounter := by
    simpa using hcounterb
  have hta' : a'.clock = (cleanup { a with clock := t } t).clock := hclocka.trans hclock.symm
  -- the number of a connection is its own
  have howna : ∀ ws', ws' ≠ ws → ∀ j, a'.wsKeys.get? ws' = some (wsKey o attribution ws' j) →
      j ≠ n := by
    rintro ws' hne j hj rfl
    exact hne (hia.apart ws' ws j (by rw [Given, ← hkeysa]; exact hj) hn)
  have hownb : ∀ ws', ws' ≠ ws → ∀ j, b'.wsKeys.get? ws' = some (wsKey o attribution ws' j) →
      j ≠ m := by
    rintro ws' hne j hj rfl
    exact hne (hib.apart ws' ws j (by rw [Given, ← hkeysb]; exact hj) hm)
  refine
    { clock := fun hs => ?_, keyed := ?_, conns := fun v hv hc ws' i j hi hj => ?_,
      alone := fun v hv hc ws' i hi hnone => ?_, left := fun hcur v hv hc j hj => ?_,
      right := fun hcur v hv hc j hj => ?_, results := ?_ }
  · rw [hclocka, hclockb]
    exact ⟨le_refl _, (hta.later hs).2⟩
  · rw [hkeya, hkeyb]
    exact hswept.keyed
  · show Alike sweeps a'.clock (connBucket a' v i) (connBucket b' v j)
    by_cases hws : ws' = ws
    · subst hws
      have hin : i = n := given_inj hi (hkeysa ▸ hn : a'.wsKeys.get? ws' = _)
      have hjm : j = m := given_inj hj (hkeysb ▸ hm : b'.wsKeys.get? ws' = _)
      by_cases hvu : v = u
      · rw [hin, hjm, hvu, connBucket, connBucket, hgeta, hgetb, if_pos rfl, if_pos rfl, hclocka]
        exact alike_iff.2 (.inr ⟨_, _, rfl, rfl, (hdraw (hvu ▸ hv)).2⟩)
      · rw [hothera v hc i fun h => hvu h.1, hotherb v hc j fun h => hvu h.1, hta']
        refine hswept.conns v hv hc ws' i j ?_ ?_
        · rw [Given, ← hkeya]
          exact hi
        · rw [Given, ← hkeyb]
          exact hj
    · rw [hothera v hc i fun h => howna ws' hws i hi h.2, hotherb v hc j fun h => hownb ws' hws j hj h.2,
        hta']
      refine hswept.conns v hv hc ws' i j ?_ ?_
      · rw [Given, ← hkeya]
        exact hi
      · rw [Given, ← hkeyb]
        exact hj
  · show Alike sweeps a'.clock (connBucket a' v i) none
    have hws : ws' ≠ ws := by
      rintro rfl
      rw [show ({ b' with draws := _ } : State N).wsKeys = b.wsKeys from hkeysb,
        show b.wsKeys.get? ws' = _ from hm] at hnone
      cases hnone
    rw [hothera v hc i fun h => howna ws' hws i hi h.2, hta']
    refine hswept.alone v hv hc ws' i ?_ ?_
    · rw [Given, ← hkeya]
      exact hi
    · rw [← hkeyb]
      exact hnone
  · show connBucket a' v j = none
    have hle : n ≤ a'.connCounter := hcur ws n (hkeysa ▸ hn : a'.wsKeys.get? ws = _)
    have hjn : j ≠ n := fun heq => absurd (heq ▸ hj : a'.connCounter < n) (by omega)
    rw [hothera v hc j fun h => hjn h.2]
    refine hswept.left ?_ v hv hc j (hcounta ▸ hj)
    intro ws' i hi
    rw [← hcounta]
    exact hcur ws' i (hkeya ▸ hi : a'.wsKeys.get? ws' = _)
  · show connBucket b' v j = none
    have hle : m ≤ b'.connCounter := hcur ws m (hkeysb ▸ hm : b'.wsKeys.get? ws = _)
    have hjm : j ≠ m := fun heq => absurd (heq ▸ hj : b'.connCounter < m) (by omega)
    rw [hotherb v hc j fun h => hjm h.2]
    refine hswept.right ?_ v hv hc j (hcountb ▸ hj)
    intro ws' i hi
    rw [← hcountb]
    exact hcur ws' i (hkeyb ▸ hi : b'.wsKeys.get? ws' = _)
  · have hra : RateLimit.results tenant a' = RateLimit.results tenant b' := by
      unfold RateLimit.results
      rw [hdrawsa, hdrawsb]
      exact h.results
    rw [results_cons, results_cons, hra]
    split
    · rfl
    · next hne =>
      have hxy : x.result = y.result := by
        rw [hx, hy]
        exact (hdraw hne).1
      simp [hxy]

/-! ## steps -/

theorem Renamed.threw (h : Renamed o attribution sweeps tenant a b) (ws : Conn) (u : Option String) :
    Renamed o attribution sweeps tenant (a.threw ws u) (b.threw ws u) where
  clock := h.clock
  keyed := h.keyed
  conns := h.conns
  alone := h.alone
  left := h.left
  right := h.right
  results := by
    unfold State.threw
    rw [results_cons, results_cons, h.results]

theorem Renamed.consume {cost : Option N}
    (hbudget : o.budget = .principal) (hkeyBy : o.keyBy = .connection)
    (h : Renamed o attribution sweeps tenant a b) (hia : Inv o attribution a)
    (hib : Inv o attribution b)
    (hga : Guard o attribution sweeps a (.consume ws cost rawKey answer t))
    (hgb : Guard o attribution sweeps b (.consume ws cost rawKey answer t))
    (ha : RateLimit.consume o attribution a ws cost rawKey answer t = some a')
    (hb : RateLimit.consume o attribution b ws cost rawKey answer t = some b') :
    Renamed o attribution sweeps tenant a' b' := by
  unfold RateLimit.consume at ha hb
  generalize cost.filter (fun cost => decide (0 ≤ cost)) = c at ha hb
  cases c with
  | none =>
    cases ha
    cases hb
    exact h.threw ws _
  | some c =>
    obtain ⟨hkepta, hia₁, -⟩ := consumeKey_spec hia hga.1
    obtain ⟨hkeptb, hib₁, -⟩ := consumeKey_spec hib hgb.1
    have hclocka := consumeKey_clock (o := o) (s := a) attribution ws rawKey answer
    have hclockb := consumeKey_clock (o := o) (s := b) attribution ws rawKey answer
    obtain ⟨h₁, hkeys⟩ := h.naming hbudget hkeyBy hia hib
      hga.1.1 hgb.1.1
    have hsizea := hkepta.buckets
    have hsizeb := hkeptb.buckets
    have hta := hga.2
    have htb := hgb.2
    generalize consumeKey o attribution a ws rawKey answer = ra at *
    generalize consumeKey o attribution b ws rawKey answer = rb at *
    obtain ⟨ka, a₁⟩ := ra
    obtain ⟨kb, b₁⟩ := rb
    rcases hkeys with ⟨rfl, rfl⟩ | ⟨hclean, n, m, hn, hm, rfl, rfl⟩
    · cases ha
      cases hb
      exact h₁.threw ws _
    · obtain ⟨⟨x, a₂⟩, hda, rfl⟩ := Option.map_eq_some_iff.1 ha
      obtain ⟨⟨y, b₂⟩, hdb, rfl⟩ := Option.map_eq_some_iff.1 hb
      exact h₁.drawFrom hia₁ hib₁ hclean hn hm (by rwa [CanSweep, hclocka, hsizea])
        (by rwa [CanSweep, hclockb, hsizeb]) hda hdb

/-- A call drops the connections' buckets of a tenant. -/
def clears : Action N → Option String → Bool
  | .clear tenantId, u => (truthy tenantId).all fun id => decide (u = some id)
  | _, _ => false

/-- A call drops all. -/
def clearsAll : Action N → Bool
  | .clear tenantId => (truthy tenantId).isNone
  | _ => false

theorem admin_spec (hbudget : o.budget = .principal) {x : Action N}
    (hx : ∀ ws cost rawKey answer t, x ≠ .consume ws cost rawKey answer t) (hplain : Plain x)
    (hsound : Sound o attribution s x) (hn : next o attribution s x = some s') :
    s'.wsKeys = s.wsKeys ∧ s'.draws = s.draws ∧ s'.clock = (reading x).getD s.clock ∧
      s'.connCounter = (if clearsAll x then 0 else s.connCounter) ∧
      ∀ u n, Clean u → connBucket s' u n = if clears x u then none else connBucket s u n := by
  -- the key of the call is not that of a connection
  have hkey : ∀ {key bk : String} {tenantId : Option String}, (∀ n, key ≠ connKey n) →
      (truthy tenantId = none → ¬ Joined key) → adminBucketKey o key tenantId = some bk →
      ∀ u n, Clean u → keyOf .principal u (connKey n) ≠ bk := by
    intro key bk tenantId hne hjoined hbk u n hc heq
    have hbk' : bucketKey .principal key tenantId = some bk := by
      simpa [adminBucketKey, hbudget] using hbk
    obtain ⟨rfl, hnul, -⟩ := bucketKey_eq_some.1 hbk'
    obtain ⟨-, hraw⟩ := keyOf_inj (hc.valid n)
      ⟨fun id hid => ⟨truthy_ne hid, hnul id hid⟩, fun hnone => ⟨rfl, hjoined hnone⟩⟩ heq
    exact hne n (hraw rfl).symm
  cases x with
  | consume ws cost rawKey answer t => exact absurd rfl (hx ws cost rawKey answer t)
  | reset key tenantId =>
    cases hn
    unfold reset
    cases hbk : adminBucketKey o key tenantId with
    | none => exact ⟨rfl, rfl, rfl, rfl, fun _ _ _ => rfl⟩
    | some bk =>
      exact ⟨rfl, rfl, rfl, rfl, fun u n hc => JsMap.get?_delete_ne _ (hkey hplain hsound hbk u n hc)⟩
  | ban key duration tenantId t =>
    simp only [next, ban] at hn
    cases hbk : adminBucketKey o key tenantId with
    | none =>
      rw [hbk] at hn
      cases hn
      exact ⟨rfl, rfl, rfl, rfl, fun _ _ _ => rfl⟩
    | some bk =>
      rw [hbk] at hn
      simp only at hn
      split at hn
      · cases hn
      · cases hn
        exact ⟨rfl, rfl, rfl, rfl, fun u n hc => JsMap.get?_set_ne _ _ (hkey hplain hsound hbk u n hc)⟩
  | unban key tenantId =>
    cases hn
    cases hbk : adminBucketKey o key tenantId with
    | none =>
      unfold unban
      rw [hbk]
      exact ⟨rfl, rfl, rfl, rfl, fun _ _ _ => rfl⟩
    | some bk =>
      obtain ⟨hget, buckets, heq⟩ := unban_spec hbk
      rw [heq] at hget ⊢
      refine ⟨rfl, rfl, rfl, rfl, fun u n hc => ?_⟩
      exact (hget _).trans (if_neg (hkey hplain hsound hbk u n hc))
  | clear tenantId =>
    cases hn
    cases htenant : truthy tenantId with
    | none =>
      simp only [clear, clears, clearsAll, htenant, Option.isNone_none, if_true]
      exact ⟨trivial, trivial, rfl, trivial, fun _ _ _ => rfl⟩
    | some id =>
      have hbucket : ¬ o.budget = .tenant := by simp [hbudget]
      simp only [clear, clears, clearsAll, htenant, Option.all_some, Option.isNone_some,
        Bool.false_eq_true, if_false, if_neg hbucket]
      refine ⟨trivial, trivial, rfl, trivial, fun u n hc => ?_⟩
      simp only [connBucket, JsMap.get?_filter]
      by_cases hu : u = some id
      · have hstart : (id ++ "\x00").toList.isPrefixOf (keyOf .principal u (connKey n)).toList = true := by
          rw [hu, keyOf_toList, List.isPrefixOf_iff_prefix]
          exact ⟨(connKey n).toList, by simp⟩
        simp only [hstart, Bool.not_true, Bool.false_eq_true, if_false, decide_eq_true hu, if_true]
      · obtain ⟨hstart, -⟩ := keyOf_cleared hu (truthy_ne htenant) (hsound id htenant) (hc.valid n)
        simp only [hstart, Bool.not_false, if_true, decide_eq_false hu, Bool.false_eq_true, if_false]

theorem reading_le {x : Action N} (hx : ∀ ws cost rawKey answer t, x ≠ .consume ws cost rawKey answer t)
    (hg : Guard o attribution sweeps s x) (hs : sweeps = true) (ht : reading x = some t) :
    s.clock ≤ t := by
  have hsteady := hg.2
  cases x with
  | consume ws cost rawKey answer t => exact absurd rfl (hx ws cost rawKey answer t)
  | ban key duration tenantId t =>
    cases ht
    exact (hsteady hs).1
  | _ => cases ht

theorem Renamed.step {x : Action N} (hbudget : o.budget = .principal) (hkeyBy : o.keyBy = .connection)
    (h : Renamed o attribution sweeps tenant a b) (hia : Inv o attribution a)
    (hib : Inv o attribution b) (hplain : Plain x) (hga : Guard o attribution sweeps a x)
    (hgb : Guard o attribution sweeps b x) (ha : next o attribution a x = some a')
    (hb : next o attribution b x = some b') : Renamed o attribution sweeps tenant a' b' := by
  by_cases hx : ∀ ws cost rawKey answer t, x ≠ .consume ws cost rawKey answer t
  · obtain ⟨hkeysa, hdrawsa, hclocka, hcounta, hspeca⟩ := admin_spec hbudget hx hplain hga.1 ha
    obtain ⟨hkeysb, hdrawsb, hclockb, hcountb, hspecb⟩ := admin_spec hbudget hx hplain hgb.1 hb
    have hclock : sweeps = true → a.clock ≤ a'.clock ∧ b'.clock ≤ a'.clock := by
      intro hs
      rw [hclocka, hclockb]
      cases ht : reading x with
      | none => exact ⟨le_refl _, (h.clock hs).1⟩
      | some t => exact ⟨reading_le hx hga hs ht, le_refl _⟩
    -- the numbers not given out have no buckets still
    have hfresh : ∀ {c c' : State N}, Fresh o attribution tenant c → c'.wsKeys = c.wsKeys →
        c'.connCounter = (if clearsAll x then 0 else c.connCounter) →
        (∀ u n, Clean u → connBucket c' u n = if clears x u then none else connBucket c u n) →
        Fresh o attribution tenant c' := by
      intro c c' hc hkeys hcount hspec hcur u hu hclean n hn
      rw [hspec u n hclean]
      split
      · rfl
      have hall : clearsAll x = false := by
        cases x with
        | clear tenantId => cases htenant : truthy tenantId <;> simp_all [clears, clearsAll]
        | _ => rfl
      rw [hall, if_neg Bool.false_ne_true] at hcount
      refine hc (fun ws' i hi => ?_) u hu hclean n (hcount ▸ hn)
      have := hcur ws' i (by rw [Given, hkeys]; exact hi)
      rwa [hcount] at this
    refine ⟨fun hs => ⟨(hclock hs).2, (h.clock hs).2.trans (hclock hs).1⟩, ?_, ?_, ?_,
      hfresh h.left hkeysa hcounta hspeca, hfresh h.right hkeysb hcountb hspecb, ?_⟩
    · rw [hkeysa, hkeysb]
      exact h.keyed
    · intro u hu hc ws n m hn hm
      rw [Given, hkeysa] at hn
      rw [Given, hkeysb] at hm
      rw [hspeca u n hc, hspecb u m hc]
      split
      · exact .of_eq rfl
      · exact (h.conns u hu hc ws n m hn hm).at fun hs => (hclock hs).1
    · intro u hu hc ws n hn hm
      rw [Given, hkeysa] at hn
      rw [hkeysb] at hm
      rw [hspeca u n hc]
      split
      · exact .of_eq rfl
      · exact (h.alone u hu hc ws n hn hm).at fun hs => (hclock hs).1
    · unfold RateLimit.results
      rw [hdrawsa, hdrawsb]
      exact h.results
  · simp only [not_forall, not_not] at hx
    obtain ⟨ws, cost, rawKey, answer, t, rfl⟩ := hx
    exact h.consume hbudget hkeyBy hia hib hga hgb ha hb

/-! ## the first call of a connection -/

theorem Renamed.refl_of_run {as : List (Action N)} (hbudget : o.budget = .principal)
    (hkeyBy : o.keyBy = .connection) (hplain : ∀ x ∈ as, Plain x)
    (h : (machine o attribution).Runs (Guard o attribution sweeps) as s) :
    Renamed o attribution sweeps tenant s s := by
  induction as using List.reverseRecOn generalizing s with
  | nil =>
    obtain rfl := h.unique (.nil : (machine o attribution).Runs (Guard o attribution sweeps) [] _)
    exact ⟨fun _ => ⟨le_refl _, le_refl _⟩, fun _ hnone => hnone, nofun, nofun,
      fun _ _ _ _ _ _ => rfl, fun _ _ _ _ _ _ => rfl, rfl⟩
  | append_singleton as x ih =>
    obtain ⟨s₀, hs₀, hg, hn⟩ := h.unsnoc
    have hinv := inv_of_guarded hs₀
    exact (ih (fun y hy => hplain y (List.mem_append_left _ hy)) hs₀).step hbudget hkeyBy hinv hinv
      (hplain x (by simp)) hg hg hn hn

theorem Renamed.bumpLeft (h : Renamed o attribution sweeps tenant a b)
    (ha : Current o attribution a) : Renamed o attribution sweeps tenant (bumped a) b where
  clock := h.clock
  keyed := h.keyed
  conns := h.conns
  alone := h.alone
  left _ u hu hc n hn := h.left ha u hu hc n (Nat.lt_of_succ_lt hn)
  right := h.right
  results := h.results

theorem Renamed.threwLeft (h : Renamed o attribution sweeps tenant a b) (ws : Conn) :
    Renamed o attribution sweeps tenant (a.threw ws tenant) b where
  clock := h.clock
  keyed := h.keyed
  conns := h.conns
  alone := h.alone
  left := h.left
  right := h.right
  results := by
    unfold State.threw
    rw [results_cons, if_pos rfl]
    exact h.results

theorem Renamed.drawLeft {cost : N} {x : Drawn N} (h : Renamed o attribution sweeps tenant a b)
    (hclean : Clean tenant)
    (hta : CanSweep sweeps a t)
    (ha : RateLimit.drawFrom o { a with clock := t } (keyOf .principal tenant (connKey n)) cost t =
      some (x, a')) :
    Renamed o attribution sweeps tenant { a' with draws := ⟨ws, tenant, some x⟩ :: a'.draws } b := by
  obtain ⟨-, hget, hkeys, hcounter, hclock, hdraws⟩ := drawFrom_spec ha
  have hother : ∀ u, u ≠ tenant → Clean u → ∀ j,
      connBucket a' u j = connBucket (cleanup { a with clock := t } t) u j := by
    intro u hu hc j
    unfold connBucket
    rw [hget, if_neg fun heq => hu (connBucket_key hc hclean heq).1]
  refine h.onLeft hkeys hcounter (fun hs => ?_) (fun u hu hc j => ?_) (fun u hu hc j hnone => ?_) ?_
  · exact (hta.later hs).1.trans_eq hclock.symm
  · show Alike sweeps a'.clock (connBucket a' u j) (connBucket a u j)
    rw [hother u hu hc j, hclock]
    exact alike_cleanup (s := { a with clock := t }) hta.small _
  · exact (hother u hu hc j).trans (cleanup_none hnone)
  · rw [results_cons, if_pos rfl]
    unfold RateLimit.results
    rw [hdraws]

theorem Renamed.first {cost : Option N}
    (h : Renamed o attribution sweeps tenant s s) (hmints : Mints o s ws)
    (hg : Guard o attribution sweeps s (.consume ws cost rawKey answer t))
    (htenant : truthy (o.tenantId attribution ws answer) = tenant)
    (hn : RateLimit.consume o attribution s ws cost rawKey answer t = some s') :
    Renamed o attribution sweeps tenant s' s := by
  have hcurrent : Current o attribution s := hg.1.1 hmints
  obtain ⟨hbudget, hkeyBy, hnone⟩ := hmints
  obtain ⟨hkey, hbumped, hminted⟩ := consumeKey_new
    hbudget hkeyBy hnone
  have hclock := consumeKey_clock (o := o) (s := s) attribution ws rawKey answer
  have hnamed : Renamed o attribution sweeps tenant (consumeKey o attribution s ws rawKey answer).2 s := by
    by_cases hbad : o.tenant = false ∧ ¬ Clean (truthy (o.tenantId attribution ws answer))
    · rw [hbumped hbad]
      exact h.bumpLeft hcurrent
    · rw [hminted hbad]
      exact h.mintLeft hnone hcurrent
  have hbuckets : (consumeKey o attribution s ws rawKey answer).2.buckets = s.buckets := by
    by_cases hbad : o.tenant = false ∧ ¬ Clean (truthy (o.tenantId attribution ws answer))
    · rw [hbumped hbad]
      rfl
    · rw [hminted hbad]
      rfl
  unfold RateLimit.consume at hn
  simp only [htenant] at hn
  split at hn
  · cases hn
    exact h.threwLeft ws
  generalize consumeKey o attribution s ws rawKey answer = r at *
  obtain ⟨k, s₁⟩ := r
  by_cases hclean : Clean (truthy (o.tenantId attribution ws answer))
  · rw [bucketKey_clean hclean] at hkey
    subst hkey
    obtain ⟨⟨x, s₂⟩, hdraw, rfl⟩ := Option.map_eq_some_iff.1 hn
    rw [htenant] at hclean hdraw
    exact hnamed.drawLeft hclean (by rw [CanSweep, hclock, hbuckets]; exact hg.2) hdraw
  · rw [bucketKey_unclean hclean] at hkey
    subst hkey
    cases hn
    exact hnamed.threwLeft ws

theorem first_call {cost : Option N} {before after : List (Action N)}
    (ha : (machine o attribution).Runs (Guard o attribution sweeps)
      (before ++ .consume ws cost rawKey answer t :: after) a)
    (hb : (machine o attribution).Runs (Guard o attribution sweeps) (before ++ after) b)
    (htenant : truthy (o.tenantId attribution ws answer) = tenant)
    (hmints : ∀ s, (machine o attribution).Runs (Guard o attribution sweeps) before s → Mints o s ws)
    (hbudget : o.budget = .principal) (hkeyBy : o.keyBy = .connection)
    (hplain : ∀ x ∈ before ++ after, Plain x) : Renamed o attribution sweeps tenant a b := by
  induction after using List.reverseRecOn generalizing a b with
  | nil =>
    rw [List.append_nil] at hb hplain
    obtain ⟨s, hs, hg, hn⟩ := ha.unsnoc
    obtain rfl := hs.unique hb
    exact (Renamed.refl_of_run hbudget hkeyBy hplain hs).first (hmints s hs) hg htenant hn
  | append_singleton after y ih =>
    rw [← List.cons_append, ← List.append_assoc] at ha
    rw [← List.append_assoc] at hb hplain
    obtain ⟨a₀, ha₀, hga, hna⟩ := ha.unsnoc
    obtain ⟨b₀, hb₀, hgb, hnb⟩ := hb.unsnoc
    exact (ih ha₀ hb₀ fun x hx => hplain x (List.mem_append_left _ hx)).step hbudget hkeyBy
      (inv_of_guarded ha₀) (inv_of_guarded hb₀) (hplain y (by simp)) hga hgb hna hnb

/-- In a run whose steps keep the buckets apart, calls that drew from one bucket are of
one tenant, and of one connection where each has its own; and a call for a tenant could be
left out without another tenant's results changing.  Where the call gives its connection a
number, this needs that no admin call names a connection by its number. -/
theorem bucket_isolation {as : List (Action N)}
    (hrun : (machine o attribution).Runs (Guard o attribution sweeps) as s) :
    (∀ d ∈ s.draws, ∀ d' ∈ s.draws, ∀ x x', d.drawn = some x → d'.drawn = some x' →
      x.bucket = x'.bucket →
        d.tenant = d'.tenant ∧ (o.budget = .principal → o.keyBy = .connection → d.ws = d'.ws)) ∧
    ∀ before x after tenant b, as = before ++ x :: after → scope o attribution x = some tenant →
      (machine o attribution).Runs (Guard o attribution sweeps) (before ++ after) b →
      (∀ s₀ ws cost rawKey answer t,
        (machine o attribution).Runs (Guard o attribution sweeps) before s₀ →
        x = .consume ws cost rawKey answer t → Mints o s₀ ws → ∀ y ∈ before ++ after, Plain y) →
      results tenant s = results tenant b := by
  refine ⟨fun d hd d' hd' x x' hx hx' heq =>
    draws_apart (hrun.mono fun _ _ hg => hg.1) hd hd' hx hx' heq, ?_⟩
  rintro before x after tenant b rfl hscope hb hplain
  by_cases hmints : ∃ s₀, (machine o attribution).Runs (Guard o attribution sweeps) before s₀ ∧
      ∃ ws cost rawKey answer t, x = .consume ws cost rawKey answer t ∧ Mints o s₀ ws
  · obtain ⟨s₀, hs₀, ws, cost, rawKey, answer, t, rfl, hm⟩ := hmints
    have hone : ∀ s₁, (machine o attribution).Runs (Guard o attribution sweeps) before s₁ →
        Mints o s₁ ws := fun s₁ hs₁ => (hs₀.unique hs₁) ▸ hm
    exact (first_call hrun hb (Option.some.inj hscope) hone hm.1 hm.2.1
      (hplain s₀ ws cost rawKey answer t hs₀ rfl hm)).results
  · refine (scoped_call hrun hb hscope fun s₀ hs₀ ws cost rawKey answer t heq hm => hmints ?_).results
    exact ⟨s₀, hs₀, ws, cost, rawKey, answer, t, heq, hm⟩

end

/-! ## two runs -/

instance : Number Int where
  toLinearOrder := Int.instLinearOrder
  toAdd := Int.instAdd
  toSub := Int.instSub
  toZero := ⟨0⟩
  toNatCast := ⟨Int.ofNat⟩

/-- A limiter that keys by connection, in whole milliseconds. -/
def perConnection : Options Int where
  points := 10
  interval := 1000
  blockDuration := 0
  keyBy := .connection
  tenant := false
  budget := .principal
  maxBuckets := 10000

/-- A limiter of connections of tenant `b`. -/
abbrev tenantB : Machine (State Int) (Action Int) := machine perConnection fun _ => some "b"

theorem guard_only {s : State Int} {cost : Option Int} {t : Int}
    (h : s.wsKeys.get? 1 ≠ none ∨ s.wsKeys = .empty) (hsize : s.buckets.size ≤ 1000) :
    Guard perConnection (fun _ => some "b") false s (.consume 1 cost "" none t) := by
  refine ⟨⟨fun hm ws n hg => ?_, absurd rfl⟩, hsize⟩
  rcases h with h | h
  · exact absurd hm.2.2 h
  · rw [Given, h] at hg
    cases hg

/-- A ban of tenant `a` between two calls of a connection of tenant `b`. -/
theorem ban_isolated : ∃ s b : State Int,
    tenantB.Runs (Guard perConnection (fun _ => some "b") false)
      ([.consume 1 (some 3) "" none 5] ++ .ban "k" none (some "a") 6 :: [.consume 1 (some 3) "" none 7]) s ∧
    tenantB.Runs (Guard perConnection (fun _ => some "b") false)
      ([.consume 1 (some 3) "" none 5] ++ [.consume 1 (some 3) "" none 7]) b ∧
    results (some "a") s = results (some "a") b ∧ (results (some "a") b).length = 2 := by
  obtain ⟨s₁, hs₁⟩ : ∃ s₁, tenantB.next tenantB.init (.consume 1 (some 3) "" none 5) = some s₁ :=
    ⟨_, rfl⟩
  have hfirst : tenantB.Runs (Guard perConnection (fun _ => some "b") false)
      [.consume 1 (some 3) "" none 5] s₁ := Machine.Runs.nil.snoc (guard_only (.inr rfl) (by decide)) hs₁
  obtain ⟨b, hb⟩ : ∃ b, tenantB.next s₁ (.consume 1 (some 3) "" none 7) = some b := by
    cases hs₁
    exact ⟨_, rfl⟩
  obtain ⟨s₂, hs₂⟩ : ∃ s₂, tenantB.next s₁ (.ban "k" none (some "a") 6) = some s₂ := by
    cases hs₁
    exact ⟨_, rfl⟩
  obtain ⟨s, hs⟩ : ∃ s, tenantB.next s₂ (.consume 1 (some 3) "" none 7) = some s := by
    cases hs₁
    cases hs₂
    exact ⟨_, rfl⟩
  have hwithout := hfirst.snoc (guard_only (.inl (by cases hs₁; decide)) (by cases hs₁; decide)) hb
  have hguard : Guard perConnection (fun _ => some "b") false s₁ (.ban "k" none (some "a") 6) :=
    ⟨fun hnone => absurd hnone (by decide), nofun⟩
  have hbanned := hfirst.snoc hguard hs₂
  have hwith := hbanned.snoc (guard_only (.inl (by cases hs₁; cases hs₂; decide))
    (by cases hs₁; cases hs₂; decide)) hs
  refine ⟨s, b, hwith, hwithout, ?_, by cases hs₁; cases hb; decide +kernel⟩
  exact (bucket_isolation hwith).2 [.consume 1 (some 3) "" none 5] (.ban "k" none (some "a") 6)
    [.consume 1 (some 3) "" none 7] (some "a") b rfl (by decide) hwithout
    fun _ _ _ _ _ _ _ heq => by cases heq

/-- After `clear()` the numbers start again, while a connection that has its number keeps
it: two connections draw from one bucket. -/
theorem clear_shares_bucket : ∃ as s, (machine perConnection fun _ => none).Runs (fun _ _ => True) as s ∧
    ∃ d ∈ s.draws, ∃ d' ∈ s.draws, ∃ x x', d.drawn = some x ∧ d'.drawn = some x' ∧
      d.ws ≠ d'.ws ∧ x.bucket = x'.bucket := by
  obtain ⟨s, hs⟩ : ∃ s, (machine perConnection fun _ => none).exec (machine perConnection fun _ => none).init
      [.consume 0 (some 1) "" none 5, .clear none, .consume 1 (some 1) "" none 6,
        .consume 0 (some 1) "" none 7] = some s := ⟨_, rfl⟩
  refine ⟨_, s, Machine.runs_of_exec hs, ?_⟩
  cases hs
  exact ⟨_, List.mem_cons_self, _, List.mem_cons_of_mem _ List.mem_cons_self, _, _, rfl, rfl,
    by decide, by decide +kernel⟩

end BunServe.RateLimit
