import BunServe.Lib.Delimited
import BunServe.RateLimit
import Std.Data.String.ToNat

/-!
# BunServe.RateLimit.Isolation

Which calls of `consume` draw from one bucket.

* `keyOf_inj` — the key of a bucket says its tenant, and under `budget: 'principal'`
  its raw key, unless a raw key without tenant reads as one with (`Joined`);
* `Inv` — each drawn bucket has one key, and each keyed connection a number of its own;
* `Sound` — the steps that keep it: no connection is keyed while `connCounter` is behind
  the numbers it gave out.
-/

namespace BunServe.RateLimit

/-! ## names -/

def Joined (rawKey : String) : Prop :=
  ∃ id rest, id ≠ "" ∧ '\x00' ∉ id.toList ∧ rawKey = id ++ "\x00" ++ rest

/-- A tenant and a raw key that name a bucket of their own. -/
structure Valid (budget : Budget) (tenant : Option String) (rawKey : String) : Prop where
  scope : ∀ id, tenant = some id → id ≠ "" ∧ '\x00' ∉ id.toList
  unscoped : tenant = none → budget = .principal ∧ ¬ Joined rawKey

theorem keyOf_toList (id rawKey : String) :
    (keyOf .principal (some id) rawKey).toList = id.toList ++ '\x00' :: rawKey.toList := by
  simp [keyOf]

variable {rawKey : String}

theorem keyOf_inj {budget : Budget} {tenant tenant' : Option String} {rawKey' : String}
    (h : Valid budget tenant rawKey) (h' : Valid budget tenant' rawKey')
    (heq : keyOf budget tenant rawKey = keyOf budget tenant' rawKey') :
    tenant = tenant' ∧ (budget = .principal → rawKey = rawKey') := by
  cases tenant with
  | none =>
    obtain ⟨rfl, hjoined⟩ := h.unscoped rfl
    cases tenant' with
    | none => exact ⟨rfl, fun _ => heq⟩
    | some id' =>
      obtain ⟨hne, hnul⟩ := h'.scope id' rfl
      exact absurd ⟨id', rawKey', hne, hnul, heq⟩ hjoined
  | some id =>
    obtain ⟨hne, hnul⟩ := h.scope id rfl
    cases tenant' with
    | none =>
      obtain ⟨rfl, hjoined⟩ := h'.unscoped rfl
      exact absurd ⟨id, rawKey, hne, hnul, heq.symm⟩ hjoined
    | some id' =>
      obtain ⟨-, hnul'⟩ := h'.scope id' rfl
      cases budget with
      | tenant => exact ⟨congrArg some heq, nofun⟩
      | principal =>
        have hlist := congrArg String.toList heq
        rw [keyOf_toList, keyOf_toList] at hlist
        obtain ⟨hid, hraw⟩ := append_delim_inj hnul hnul' hlist
        rw [String.toList_inj.1 hid, String.toList_inj.1 hraw]
        exact ⟨rfl, fun _ => rfl⟩

theorem connKey_inj {n n' : Nat} (h : connKey n = connKey n') : n = n' := by
  simp only [connKey, String.append_right_inj] at h
  exact Nat.repr_inj.1 h

theorem connKey_not_joined (n : Nat) : ¬ Joined (connKey n) := by
  rintro ⟨id, rest, -, -, heq⟩
  have hmem : '\x00' ∈ (connKey n).toList := by simp [heq]
  simp only [connKey, String.toList_append, List.mem_append, Nat.toList_repr] at hmem
  rcases hmem with hmem | hmem
  · revert hmem
    decide
  · have := Nat.isDigit_of_mem_toDigits (by decide) (by decide) hmem
    revert this
    decide

theorem bucketKey_eq_some {budget : Budget} {k : String} {tenantId : Option String} :
    bucketKey budget rawKey tenantId = some k ↔
      k = keyOf budget (truthy tenantId) rawKey ∧
        (∀ id, truthy tenantId = some id → '\x00' ∉ id.toList) ∧
        (truthy tenantId = none → budget = .principal) := by
  unfold bucketKey
  cases htenant : truthy tenantId with
  | none =>
    cases budget with
    | tenant => simp
    | principal => simp [eq_comm]
  | some id =>
    by_cases hnul : '\x00' ∈ id.toList
    · simp [hasNul, hnul]
    · simp [hasNul, hnul, eq_comm]

theorem truthy_ne {tenantId : Option String} {id : String} (h : truthy tenantId = some id) :
    id ≠ "" := by
  simp only [truthy, Option.filter_eq_some_iff, decide_eq_true_eq] at h
  exact h.2

/-! ## the connections -/

variable {N : Type} [Number N]

section

variable (o : Options N) (attribution : Conn → Option String)

/-- What `wsKeys` holds for a connection with a number. -/
def wsKey (ws : Conn) (n : Nat) : String :=
  if o.tenant then connKey n else keyOf .principal (truthy (attribution ws)) (connKey n)

def Given (s : State N) (ws : Conn) (n : Nat) : Prop :=
  s.wsKeys.get? ws = some (wsKey o attribution ws n)

/-- `consume` gives a connection a number. -/
def Mints (s : State N) (ws : Conn) : Prop :=
  o.budget = .principal ∧ o.keyBy = .connection ∧ s.wsKeys.get? ws = none

/-- The calls that keep buckets apart: a connection is given a number only while no
number above `connCounter` was given out, a raw key without tenant does not read as one
with, nor does a key of an admin call without tenant, and `clear` is not called with a
tenant id that contains a NUL. -/
def Sound (s : State N) : Action N → Prop
  | .consume ws _ rawKey answer _ =>
    (Mints o s ws → ∀ ws' n, Given o attribution s ws' n → n ≤ s.connCounter) ∧
      (o.keyBy ≠ .connection → truthy (o.tenantId attribution ws answer) = none → ¬ Joined rawKey)
  | .reset key tenantId | .ban key _ tenantId _ | .unban key tenantId =>
    truthy tenantId = none → ¬ Joined key
  | .clear tenantId => ∀ id, truthy tenantId = some id → '\x00' ∉ id.toList

/-- A call drew from the bucket of its tenant and its raw key or connection. -/
def Named (s : State N) (ws : Conn) (tenant : Option String) (key : String) : Prop :=
  ∃ rawKey, key = keyOf o.budget tenant rawKey ∧ Valid o.budget tenant rawKey ∧
    (o.budget = .principal → o.keyBy = .connection →
      ∃ n, rawKey = connKey n ∧ Given o attribution s ws n)

/-- Each bucket has one key, also one that is gone, and each keyed connection has a
number of its own. -/
structure Inv (s : State N) : Prop where
  given : ∀ ws k, s.wsKeys.get? ws = some k → ∃ n, k = wsKey o attribution ws n ∧
    (o.tenant = false → ∀ id, truthy (attribution ws) = some id → '\x00' ∉ id.toList)
  apart : ∀ ws ws' n, Given o attribution s ws n → Given o attribution s ws' n → ws = ws'
  ids : ∀ k b, s.buckets.get? k = some b → b.id < s.nextBucket
  unique : ∀ k k' b b', s.buckets.get? k = some b → s.buckets.get? k' = some b' → b.id = b'.id →
    k = k'
  drawn : ∀ d ∈ s.draws, ∀ x, d.drawn = some x → x.bucket < s.nextBucket ∧
    (∀ k b, s.buckets.get? k = some b → b.id = x.bucket → k = x.key) ∧
    Named o attribution s d.ws d.tenant x.key
  same : ∀ d ∈ s.draws, ∀ d' ∈ s.draws, ∀ x x', d.drawn = some x → d'.drawn = some x' →
    x.bucket = x'.bucket → x.key = x'.key

end

section

variable {o : Options N} {attribution : Conn → Option String} {s s' : State N} {ws : Conn}

omit [Number N] in
theorem wsKey_inj {n n' : Nat} (h : wsKey o attribution ws n = wsKey o attribution ws n') :
    n = n' := by
  unfold wsKey at h
  split at h
  · exact connKey_inj h
  cases htenant : truthy (attribution ws) with
  | none =>
    rw [htenant] at h
    exact connKey_inj h
  | some id =>
    rw [htenant] at h
    simp only [keyOf, String.append_right_inj] at h
    exact connKey_inj h

omit [Number N] in
theorem Named.mono {tenant : Option String} {key : String} (h : Named o attribution s ws tenant key)
    (hgiven : ∀ n, Given o attribution s ws n → Given o attribution s' ws n) :
    Named o attribution s' ws tenant key := by
  obtain ⟨rawKey, hkey, hvalid, hn⟩ := h
  refine ⟨rawKey, hkey, hvalid, fun hb hk => ?_⟩
  obtain ⟨n, hraw, hg⟩ := hn hb hk
  exact ⟨n, hraw, hgiven n hg⟩

omit [Number N] in
theorem Inv.shrink (h : Inv o attribution s)
    (hbuckets : ∀ k b, s'.buckets.get? k = some b → s.buckets.get? k = some b)
    (hkeys : s'.wsKeys = s.wsKeys) (hnext : s'.nextBucket = s.nextBucket)
    (hdraws : s'.draws = s.draws) : Inv o attribution s' where
  given := by rw [hkeys]; exact h.given
  apart := by unfold Given; rw [hkeys]; exact h.apart
  ids k b hb := by rw [hnext]; exact h.ids k b (hbuckets k b hb)
  unique k k' b b' hb hb' := h.unique k k' b b' (hbuckets k b hb) (hbuckets k' b' hb')
  drawn d hd x hx := by
    rw [hdraws] at hd
    obtain ⟨hlt, hkey, hnamed⟩ := h.drawn d hd x hx
    refine ⟨by rw [hnext]; exact hlt, fun k b hb => hkey k b (hbuckets k b hb), hnamed.mono ?_⟩
    unfold Given
    rw [hkeys]
    exact fun _ h => h
  same := by rw [hdraws]; exact h.same

theorem Inv.store (key : String) (points t : N) (h : Inv o attribution s) {b : Bucket N}
    (hb : b.id = (bucketAt o s key points t).id) :
    Inv o attribution (store s key b) ∧
      (∀ d ∈ s.draws, ∀ x, d.drawn = some x → x.bucket = b.id → x.key = key) ∧
      b.id < (RateLimit.store s key b).nextBucket := by
  have hid : (∃ b₀, s.buckets.get? key = some b₀ ∧ b.id = b₀.id ∧
        (RateLimit.store s key b).nextBucket = s.nextBucket) ∨
      s.buckets.get? key = none ∧ b.id = s.nextBucket ∧
        (RateLimit.store s key b).nextBucket = s.nextBucket + 1 := by
    cases hget : s.buckets.get? key with
    | none => exact .inr ⟨rfl, by simpa [bucketAt, hget, freshBucket] using hb,
        by simp [RateLimit.store, JsMap.has, hget]⟩
    | some b₀ => exact .inl ⟨b₀, rfl, by simpa [bucketAt, hget] using hb,
        by simp [RateLimit.store, JsMap.has, hget]⟩
  have hget : ∀ k, (RateLimit.store s key b).buckets.get? k =
      if k = key then some b else s.buckets.get? k := fun k => JsMap.get?_set _ _ _ _
  have hlt : b.id < (RateLimit.store s key b).nextBucket := by
    rcases hid with ⟨b₀, hb₀, heq, hnext⟩ | ⟨_, heq, hnext⟩
    · rw [heq, hnext]
      exact h.ids key b₀ hb₀
    · omega
  -- the id is that of the bucket of the key, or of none
  have hown : ∀ k b', s.buckets.get? k = some b' → b'.id = b.id → k = key := by
    intro k b' hb' heq
    rcases hid with ⟨b₀, hb₀, hid, -⟩ | ⟨_, hid, -⟩
    · exact h.unique k key b' b₀ hb' hb₀ (heq.trans hid)
    · have := h.ids k b' hb'
      omega
  have hdrawn : ∀ d ∈ s.draws, ∀ x, d.drawn = some x → x.bucket = b.id → x.key = key := by
    intro d hd x hx heq
    obtain ⟨hxlt, hxkey, -⟩ := h.drawn d hd x hx
    rcases hid with ⟨b₀, hb₀, hid, -⟩ | ⟨_, hid, -⟩
    · exact (hxkey key b₀ hb₀ (by rw [← hid, heq])).symm
    · omega
  refine ⟨{ given := h.given, apart := h.apart, ids := ?_, unique := ?_, drawn := ?_, same := h.same },
    hdrawn, hlt⟩
  · intro k b' hb'
    rw [hget] at hb'
    split at hb'
    · cases hb'
      exact hlt
    · have := h.ids k b' hb'
      omega
  · intro k k' b₁ b₂ hb₁ hb₂ heq
    rw [hget] at hb₁ hb₂
    split at hb₁ <;> split at hb₂
    · next hk hk' => rw [hk, hk']
    · next hk hk' =>
      cases hb₁
      rw [hk, hown k' b₂ hb₂ heq.symm]
    · next hk hk' =>
      cases hb₂
      rw [hk', hown k b₁ hb₁ heq]
    · exact h.unique k k' b₁ b₂ hb₁ hb₂ heq
  · intro d hd x hx
    obtain ⟨hxlt, hxkey, hnamed⟩ := h.drawn d hd x hx
    refine ⟨by omega, fun k b' hb' heq => ?_, hnamed⟩
    rw [hget] at hb'
    split at hb'
    · next hk =>
      cases hb'
      rw [hk, hdrawn d hd x hx heq.symm]
    · exact hxkey k b' hb' heq

omit [Number N] in
theorem Inv.record (h : Inv o attribution s) {tenant : Option String} {x : Drawn N}
    (hlt : x.bucket < s.nextBucket)
    (hkey : ∀ k b, s.buckets.get? k = some b → b.id = x.bucket → k = x.key)
    (hnamed : Named o attribution s ws tenant x.key)
    (hsame : ∀ d ∈ s.draws, ∀ y, d.drawn = some y → y.bucket = x.bucket → y.key = x.key) :
    Inv o attribution { s with draws := ⟨ws, tenant, some x⟩ :: s.draws } where
  given := h.given
  apart := h.apart
  ids := h.ids
  unique := h.unique
  drawn d hd y hy := by
    rcases List.mem_cons.1 hd with rfl | hd
    · cases hy
      exact ⟨hlt, hkey, hnamed⟩
    · exact h.drawn d hd y hy
  same d hd d' hd' y y' hy hy' heq := by
    rcases List.mem_cons.1 hd with rfl | hd <;> rcases List.mem_cons.1 hd' with rfl | hd'
    · cases hy
      cases hy'
      rfl
    · cases hy
      exact (hsame d' hd' y' hy' heq.symm).symm
    · cases hy'
      exact hsame d hd y hy heq
    · exact h.same d hd d' hd' y y' hy hy' heq

omit [Number N] in
theorem Inv.threw (h : Inv o attribution s) (tenant : Option String) :
    Inv o attribution (s.threw ws tenant) where
  given := h.given
  apart := h.apart
  ids := h.ids
  unique := h.unique
  drawn d hd y hy := by
    rcases List.mem_cons.1 hd with rfl | hd
    · cases hy
    · exact h.drawn d hd y hy
  same d hd d' hd' y y' hy hy' heq := by
    rcases List.mem_cons.1 hd with rfl | hd
    · cases hy
    · rcases List.mem_cons.1 hd' with rfl | hd'
      · cases hy'
      · exact h.same d hd d' hd' y y' hy hy' heq

omit [Number N] in
theorem Inv.mint (h : Inv o attribution s) (hnone : s.wsKeys.get? ws = none)
    (hbehind : ∀ ws' n, Given o attribution s ws' n → n ≤ s.connCounter)
    (hnul : o.tenant = false → ∀ id, truthy (attribution ws) = some id → '\x00' ∉ id.toList) :
    Inv o attribution { s with
      connCounter := s.connCounter + 1
      wsKeys := s.wsKeys.set ws (wsKey o attribution ws (s.connCounter + 1)) } := by
  have hget : ∀ ws', (s.wsKeys.set ws (wsKey o attribution ws (s.connCounter + 1))).get? ws' =
      if ws' = ws then some (wsKey o attribution ws (s.connCounter + 1)) else s.wsKeys.get? ws' :=
    fun ws' => JsMap.get?_set _ _ _ _
  refine
    { given := fun ws' k hk => ?_, apart := fun a b n ha hb => ?_, ids := h.ids, unique := h.unique,
      drawn := fun d hd x hx => ?_, same := h.same }
  · rw [hget] at hk
    split at hk
    · next heq =>
      cases hk
      exact ⟨_, by rw [heq], by rw [heq]; exact hnul⟩
    · exact h.given ws' k hk
  · -- the new number is above all that were given out
    have hlt : ∀ ws', Given o attribution s ws' n → n ≠ s.connCounter + 1 := fun ws' hg heq => by
      have := hbehind ws' n hg
      omega
    simp only [Given, hget] at ha hb
    split at ha <;> split at hb
    · next ha' hb' => rw [ha', hb']
    · next ha' _ =>
      simp only [Option.some.injEq, ha'] at ha
      exact absurd (wsKey_inj ha).symm (hlt b hb)
    · next _ hb' =>
      simp only [Option.some.injEq, hb'] at hb
      exact absurd (wsKey_inj hb).symm (hlt a ha)
    · exact h.apart a b n ha hb
  · obtain ⟨hxlt, hxkey, hnamed⟩ := h.drawn d hd x hx
    refine ⟨hxlt, hxkey, hnamed.mono fun n hn => ?_⟩
    simp only [Given, hget]
    split
    · next heq =>
      rw [Given, heq, hnone] at hn
      cases hn
    · exact hn

omit [Number N] in
/-- A key that `bucketKey` made names a bucket of its own. -/
theorem named_bucketKey {key : String} {tenantId : Option String}
    (hkey : bucketKey o.budget rawKey tenantId = some key)
    (hjoined : truthy tenantId = none → ¬ Joined rawKey)
    (hgiven : o.budget = .principal → o.keyBy = .connection →
      ∃ n, rawKey = connKey n ∧ Given o attribution s ws n) :
    Named o attribution s ws (truthy tenantId) key := by
  obtain ⟨heq, hnul, hbudget⟩ := bucketKey_eq_some.1 hkey
  exact ⟨rawKey, heq, ⟨fun id hid => ⟨truthy_ne hid, hnul id hid⟩,
    fun hnone => ⟨hbudget hnone, hjoined hnone⟩⟩, hgiven⟩

/-- What naming a bucket leaves. -/
structure Kept (s s' : State N) : Prop where
  buckets : s'.buckets = s.buckets
  nextBucket : s'.nextBucket = s.nextBucket
  draws : s'.draws = s.draws

omit [Number N] in
theorem consumeKey_spec (h : Inv o attribution s) {answer : Option String}
    (hsound : (Mints o s ws → ∀ ws' n, Given o attribution s ws' n → n ≤ s.connCounter) ∧
      (o.keyBy ≠ .connection → truthy (o.tenantId attribution ws answer) = none → ¬ Joined rawKey)) :
    Kept s (consumeKey o attribution s ws rawKey answer).2 ∧
      Inv o attribution (consumeKey o attribution s ws rawKey answer).2 ∧
      ∀ k, (consumeKey o attribution s ws rawKey answer).1 = some k →
        Named o attribution (consumeKey o attribution s ws rawKey answer).2 ws
          (truthy (o.tenantId attribution ws answer)) k := by
  obtain ⟨hbehind, hjoined⟩ := hsound
  unfold consumeKey
  split
  · next hbudget =>
    refine ⟨⟨rfl, rfl, rfl⟩, h, fun k hk => named_bucketKey hk (fun hnone => ?_) ?_⟩
    · have := (bucketKey_eq_some.1 hk).2.2 hnone
      rw [hbudget] at this
      cases this
    · intro hprincipal
      rw [hbudget] at hprincipal
      cases hprincipal
  · next hbudget =>
    have hprincipal : o.budget = .principal := by
      cases hb : o.budget with
      | principal => rfl
      | tenant => exact absurd hb hbudget
    unfold principalBucketKey
    cases htenant : o.tenant with
    | true =>
      have hanswer : o.tenantId attribution ws answer = answer := by simp [Options.tenantId, htenant]
      rw [hanswer] at hjoined ⊢
      simp only [if_true, resolveRawKey]
      split
      · next hconn =>
        cases hget : s.wsKeys.get? ws with
        | some k =>
          obtain ⟨n, hk, -⟩ := h.given ws k hget
          have hraw : k = connKey n := by simpa [wsKey, htenant] using hk
          refine ⟨⟨rfl, rfl, rfl⟩, h, fun key hkey => named_bucketKey hkey ?_ fun _ _ => ?_⟩
          · rw [hraw]
            exact fun _ => connKey_not_joined n
          · exact ⟨n, hraw, hk ▸ hget⟩
        | none =>
          have hminted := h.mint hget (hbehind ⟨hprincipal, hconn, hget⟩) (by simp [htenant])
          have hwsKey : wsKey o attribution ws (s.connCounter + 1) = connKey (s.connCounter + 1) := by
            simp [wsKey, htenant]
          rw [hwsKey] at hminted
          refine ⟨⟨rfl, rfl, rfl⟩, hminted, fun key hkey => named_bucketKey hkey
            (fun _ => connKey_not_joined _) fun _ _ => ⟨_, rfl, ?_⟩⟩
          simp [Given, hwsKey]
      · next hconn =>
        exact ⟨⟨rfl, rfl, rfl⟩, h, fun key hkey => named_bucketKey hkey (hjoined hconn)
          fun _ hc => absurd hc hconn⟩
    | false =>
      have hanswer : o.tenantId attribution ws answer = attribution ws := by
        simp [Options.tenantId, htenant]
      rw [hanswer] at hjoined ⊢
      simp only [Bool.false_eq_true, if_false]
      split
      · next hconn =>
        cases hget : s.wsKeys.get? ws with
        | some k =>
          obtain ⟨n, hk, hnul⟩ := h.given ws k hget
          have hkey : k = keyOf .principal (truthy (attribution ws)) (connKey n) := by
            simpa [wsKey, htenant] using hk
          refine ⟨⟨rfl, rfl, rfl⟩, h, fun key heq => ?_⟩
          cases heq
          exact ⟨connKey n, by rw [hprincipal]; exact hkey,
            ⟨fun id hid => ⟨truthy_ne hid, hnul htenant id hid⟩,
              fun _ => ⟨hprincipal, connKey_not_joined n⟩⟩, fun _ _ => ⟨n, rfl, hk ▸ hget⟩⟩
        | none =>
          simp only
          cases hkey : bucketKey o.budget (connKey (s.connCounter + 1)) (attribution ws) with
          | none =>
            exact ⟨⟨rfl, rfl, rfl⟩, { h with }, by simp⟩
          | some key =>
            obtain ⟨heq, hnul, -⟩ := bucketKey_eq_some.1 hkey
            have hwsKey : wsKey o attribution ws (s.connCounter + 1) = key := by
              simp [wsKey, htenant, heq, hprincipal]
            have hminted := h.mint hget (hbehind ⟨hprincipal, hconn, hget⟩) fun _ => hnul
            rw [hwsKey] at hminted
            refine ⟨⟨rfl, rfl, rfl⟩, hminted, fun k hk => ?_⟩
            cases hk
            exact named_bucketKey hkey (fun _ => connKey_not_joined _) fun _ _ =>
              ⟨_, rfl, by simp [Given, hwsKey]⟩
      · next hconn =>
        exact ⟨⟨rfl, rfl, rfl⟩, h, fun key hkey => named_bucketKey hkey (hjoined hconn)
          fun _ hc => absurd hc hconn⟩

/-! ## the steps -/

omit [Number N] in
theorem Inv.tick (h : Inv o attribution s) (t : N) : Inv o attribution { s with clock := t } :=
  h.shrink (fun _ _ hb => hb) rfl rfl rfl

theorem Inv.cleanup (h : Inv o attribution s) (t : N) : Inv o attribution (cleanup s t) := by
  unfold RateLimit.cleanup
  split
  · exact h
  · refine h.shrink (fun k b hb => ?_) rfl rfl rfl
    rw [JsMap.get?_filter] at hb
    split at hb
    · exact hb
    · cases hb

theorem refill_id (b : Bucket N) (t : N) : (b.refill o t).id = b.id := by
  unfold Bucket.refill
  split <;> rfl

theorem draw_id (b : Bucket N) (cost t : N) : (b.draw o cost t).2.id = b.id := by
  unfold Bucket.draw
  split
  · rfl
  · simp only
    split
    · exact refill_id b t
    · split
      · exact refill_id b t
      · exact refill_id b t

theorem inv_consume (h : Inv o attribution s) {cost : Option N} {answer : Option String} {t : N}
    (hsound : Sound o attribution s (.consume ws cost rawKey answer t))
    (hn : consume o attribution s ws cost rawKey answer t = some s') : Inv o attribution s' := by
  unfold consume at hn
  split at hn
  · cases hn
    exact h.threw _
  rename_i c _
  obtain ⟨-, hinv, hnamed⟩ := consumeKey_spec h hsound
  split at hn
  · next s₁ hkey =>
    cases hn
    rw [hkey] at hinv
    exact hinv.threw _
  · next key s₁ hkey =>
    rw [hkey] at hinv hnamed
    obtain ⟨⟨x, s₂⟩, hdraw, rfl⟩ := Option.map_eq_some_iff.1 hn
    unfold drawFrom at hdraw
    simp only at hdraw
    split at hdraw
    · cases hdraw
    cases hdraw
    have hclean := (hinv.tick t).cleanup t
    obtain ⟨hstore, hsame, hlt⟩ := hclean.store _ _ t
      (draw_id _ _ _)
    rw [draw_id] at hsame hlt
    have hmono : ∀ n, Given o attribution s₁ ws n → Given o attribution
        (RateLimit.store (RateLimit.cleanup { s₁ with clock := t } t) key
          ((bucketAt o (RateLimit.cleanup { s₁ with clock := t } t) key o.points t).draw o c t).2)
        ws n := by
      intro n hg
      unfold RateLimit.store RateLimit.cleanup Given
      split <;> exact hg
    refine hstore.record hlt (fun k b hb heq => ?_) ((hnamed key rfl).mono hmono) hsame
    refine hstore.unique k key b _ hb (JsMap.get?_set_self _ _ _) ?_
    rw [heq, draw_id]

theorem inv_next (h : Inv o attribution s) {a : Action N} (hsound : Sound o attribution s a)
    (hn : next o attribution s a = some s') : Inv o attribution s' := by
  cases a with
  | consume ws cost rawKey answer t => exact inv_consume h hsound hn
  | reset key tenantId =>
    cases hn
    unfold reset
    split
    · exact h
    · refine h.shrink (fun k b hb => ?_) rfl rfl rfl
      exact (JsMap.of_get?_delete hb).2
  | ban key duration tenantId t =>
    simp only [next, ban] at hn
    split at hn
    · cases hn
      exact h.tick t
    · split at hn
      · cases hn
      · next bk _ _ =>
        cases hn
        refine (Inv.store _ 0 t (h.tick t) ?_).1
        rfl
  | unban key tenantId =>
    cases hn
    unfold unban
    split
    · exact h
    rename_i bk _
    split
    · exact h
    · next b hb =>
      have hstore := (h.store bk 0 0 (b := { b with bannedUntil := 0 })
        (by simp [bucketAt, hb])).1
      have heq : store s bk { b with bannedUntil := 0 } =
          { s with buckets := s.buckets.set bk { b with bannedUntil := 0 } } := by
        simp [store, JsMap.has, hb]
      rwa [heq] at hstore
  | clear tenantId =>
    cases hn
    unfold clear
    split
    · refine h.shrink (fun k b hb => ?_) rfl rfl rfl
      obtain ⟨-, hb⟩ := by simpa [JsMap.get?_filter] using hb
      split at hb
      · exact (JsMap.of_get?_delete hb).2
      · exact hb
    · exact h.shrink (by simp) rfl rfl rfl

theorem inv_of_run {as : List (Action N)}
    (hrun : (machine o attribution).Runs (Sound o attribution) as s) : Inv o attribution s :=
  Machine.Runs.invariant (m := machine o attribution)
    { given := nofun, apart := nofun, ids := nofun, unique := nofun, drawn := nofun, same := nofun }
    (fun _ _ _ h hs hn => inv_next h hs hn) hrun

/-- Two calls that drew from one bucket are of one tenant, and where a connection has a
bucket of its own, of one connection. -/
theorem draws_apart {as : List (Action N)}
    (hrun : (machine o attribution).Runs (Sound o attribution) as s) {d d' : Draw N}
    (hd : d ∈ s.draws) (hd' : d' ∈ s.draws) {x x' : Drawn N} (hx : d.drawn = some x)
    (hx' : d'.drawn = some x') (heq : x.bucket = x'.bucket) :
    d.tenant = d'.tenant ∧ (o.budget = .principal → o.keyBy = .connection → d.ws = d'.ws) := by
  have h := inv_of_run hrun
  obtain ⟨-, -, rawKey, hkey, hvalid, hgiven⟩ := h.drawn d hd x hx
  obtain ⟨-, -, rawKey', hkey', hvalid', hgiven'⟩ := h.drawn d' hd' x' hx'
  have hsame := h.same d hd d' hd' x x' hx hx' heq
  rw [hkey, hkey'] at hsame
  obtain ⟨htenant, hraw⟩ := keyOf_inj hvalid hvalid' hsame
  refine ⟨htenant, fun hb hk => ?_⟩
  obtain ⟨n, hn, hg⟩ := hgiven hb hk
  obtain ⟨n', hn', hg'⟩ := hgiven' hb hk
  have hnn : n = n' := connKey_inj (by rw [← hn, ← hn', hraw hb])
  exact h.apart d.ws d'.ws n hg (hnn ▸ hg')

end

end BunServe.RateLimit
