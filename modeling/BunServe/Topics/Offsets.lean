import BunServe.Topics
import BunServe.Topics.Subscribed

/-!
# BunServe.Topics.Offsets

The offsets a recovery is asked from, over all runs.

A recovery is over when its frame is accepted, when a marker says that its window is
lost, when its topic is released, and when its frame is refused and the topic is heard
again.  Until then it is asked for from the same offset.

* `Inv` — the topic of a recovery was last seen at its offset, and while its frame is
  unanswered its entry in `pendingRecoveries` keeps it there;
* `recovery_safe` — every run;
* `marker_forgets` — a marker does end a recovery that was not accepted.
-/

namespace BunServe.Topics.Offsets

open Machine BunServe.Topics
open JsMap (delete get?_set of_get?_delete of_get?_set)
open List (mem_cons_of_mem mem_cons_self)

/-! ## what the claim is about -/

/-- An offset is the one of the recovery it belongs to, and not above what the topic was
heard with before that; without a recovery it is not above what the topic was heard with. -/
def Safe (a : Ask) : Prop :=
  match a.recovering with
  | some r => a.offset = r.offset ∧ ∃ b, r.limit = some b ∧ a.offset ≤ b
  | none => ∃ b, a.highest = some b ∧ a.offset ≤ b

/-! ## the invariant -/

def Heard (s : State) (topic : String) (x : Int) : Prop :=
  ∃ h, s.highest.get? topic = some h ∧ x ≤ h

/-- The retry of some topics, as it waits. -/
structure Waiting (s : State) (ref : Nat) (topics : List String) (recover : List (String × Offer)) :
    Prop where
  old : ref < s.nextSubscribeRef
  topics : ∀ e ∈ recover, e.1 ∈ topics
  heard : ∀ e ∈ recover, Heard s e.1 e.2.offset
  single : ∀ e ∈ recover, ∀ e' ∈ recover, e.1 = e'.1 → e.2.offset = e'.2.offset
  agrees : ∀ e ∈ recover, s.pendingRetryRefs.get? e.1 = some ref →
    ∀ r, s.recovering.get? e.1 = some r → e.2.offset = r.offset

def Promises (s : State) : Send → Prop
  | .retry _ ref topics recover => Waiting s ref topics recover
  | _ => True

/-- A recovery and the entry of its topic. -/
def Matches (r : Recovery) : Option Pending → Prop
  | some p => p.ref = r.ref
  | none => r.denied = true

structure Inv (s : State) : Prop where
  safe : ∀ a ∈ s.asked, Safe a
  seen : ∀ topic x, s.lastSeenSeqs.get? topic = some x → Heard s topic x
  ahead : ∀ topic p x, s.pendingRecoveries.get? topic = some p → p.highest = some x →
    Heard s topic x
  recovering : ∀ topic r, s.recovering.get? topic = some r →
    s.lastSeenSeqs.get? topic = some r.offset ∧ (∃ b, r.limit = some b ∧ r.offset ≤ b) ∧
      s.wants topic = true
  asking : s.phase = .opened → ∀ topic r, s.recovering.get? topic = some r →
    Matches r (s.pendingRecoveries.get? topic)
  queue : ∀ send ∈ s.flowQueue, Promises s send
  quiet : s.phase = .starting ∨ s.phase = .connecting ∨ s.phase = .opening →
    ∀ topic, s.pendingRetryRefs.get? topic = none

theorem Promises.of {s t : State} {send : Send} (h : Promises s send)
    (hnext : s.nextSubscribeRef ≤ t.nextSubscribeRef)
    (hheard : ∀ topic x, Heard s topic x → Heard t topic x)
    (hrefs : ∀ topic ref, ref < s.nextSubscribeRef → t.pendingRetryRefs.get? topic = some ref →
      s.pendingRetryRefs.get? topic = some ref)
    (hrec : ∀ topic ref r, t.pendingRetryRefs.get? topic = some ref → ref < s.nextSubscribeRef →
      t.recovering.get? topic = some r → ∃ r₀, s.recovering.get? topic = some r₀ ∧
        r₀.offset = r.offset) : Promises t send := by
  cases send with
  | subscribe topic | batch topics => trivial
  | retry generation ref topics recover =>
    have hw : Waiting s ref topics recover := h
    refine ⟨Nat.lt_of_lt_of_le hw.old hnext, hw.topics, fun e he => hheard _ _ (hw.heard e he),
      hw.single, fun e he href r hr => ?_⟩
    obtain ⟨r₀, hr₀, heq⟩ := hrec e.1 ref r href hw.old hr
    rw [hw.agrees e he (hrefs _ _ hw.old href) r₀ hr₀, heq]

theorem Promises.quiet {s t : State} {send : Send} (h : Promises s send)
    (hsame : (t.nextSubscribeRef, t.highest) = (s.nextSubscribeRef, s.highest))
    (hrefs : ∀ topic ref, t.pendingRetryRefs.get? topic = some ref →
      s.pendingRetryRefs.get? topic = some ref)
    (hrec : ∀ topic ref r, t.pendingRetryRefs.get? topic = some ref →
      t.recovering.get? topic = some r → ∃ r₀, s.recovering.get? topic = some r₀ ∧
        r₀.offset = r.offset) : Promises t send := by
  obtain ⟨hnext, hhighest⟩ := Prod.mk.inj hsame
  refine h.of (Nat.le_of_eq hnext.symm) (fun _ _ hx => ?_) (fun t ref _ => hrefs t ref)
    fun t ref r href _ => hrec t ref r href
  rwa [Heard, hhighest]

theorem Promises.same {s t : State} {send : Send} (h : Promises s send)
    (hsame : (t.nextSubscribeRef, t.highest) = (s.nextSubscribeRef, s.highest))
    (hmaps : (t.pendingRetryRefs, t.recovering) = (s.pendingRetryRefs, s.recovering)) :
    Promises t send := by
  obtain ⟨hretry, hrec⟩ := Prod.mk.inj hmaps
  exact h.quiet hsame (fun _ _ ht => hretry ▸ ht) fun _ _ r _ hr => ⟨r, hrec ▸ hr, rfl⟩

/-- What the invariant reads. -/
def view (s : State) :=
  (s.phase, s.subscribedTopics, s.managedTopics, s.pendingRetryRefs, s.lastSeenSeqs,
    s.pendingRecoveries, s.flowQueue, s.highest, s.recovering, s.asked)

theorem Inv.of_view {s s' : State} (h : Inv s) (hsame : view s' = view s)
    (hnext : s.nextSubscribeRef ≤ s'.nextSubscribeRef) : Inv s' := by
  simp only [view, Prod.mk.injEq] at hsame
  obtain ⟨hphase, hsub, hmanaged, hretry, hseen, hpending, hqueue, hhighest, hrec, hasked⟩ := hsame
  have hheard : ∀ topic x, Heard s topic x → Heard s' topic x := by
    unfold Heard
    rw [hhighest]
    exact fun _ _ hx => hx
  refine ⟨?_, fun t x hx => ?_, fun t p x hp hx => ?_, fun t r hr => ?_, fun hopened t r hr => ?_,
    fun send hsend => ?_, ?_⟩
  · rw [hasked]
    exact h.safe
  · rw [hseen] at hx
    exact hheard t x (h.seen t x hx)
  · rw [hpending] at hp
    exact hheard t x (h.ahead t p x hp hx)
  · rw [hrec] at hr
    obtain ⟨hlast, hlimit, hwants⟩ := h.recovering t r hr
    refine ⟨by rw [hseen, hlast], hlimit, ?_⟩
    simpa [State.wants, hsub, hmanaged] using hwants
  · rw [hrec] at hr
    rw [hphase] at hopened
    rw [hpending]
    exact h.asking hopened t r hr
  · rw [hqueue] at hsend
    exact (h.queue send hsend).of hnext hheard (fun _ _ _ href => hretry ▸ href)
      fun _ _ r _ _ hr => ⟨r, hrec ▸ hr, rfl⟩
  · rw [hphase, hretry]
    exact h.quiet

theorem Inv.of_same {s s' : State} (h : Inv s)
    (hsame : (view s', s'.nextSubscribeRef) = (view s, s.nextSubscribeRef)) : Inv s' :=
  h.of_view (Prod.mk.inj hsame).1 (Nat.le_of_eq (Prod.mk.inj hsame).2.symm)

/-! ## asking -/

theorem inv_askRecovery {s : State} (h : Inv s) {ref : Nat} {e : String × Offer}
    (hwants : s.wants e.1 = true) (hheard : Heard s e.1 e.2.offset)
    (hagrees : ∀ r, s.recovering.get? e.1 = some r → e.2.offset = r.offset)
    (href : s.pendingRetryRefs.get? e.1 = none) : Inv (askRecovery ref s e) := by
  obtain ⟨topic, offer⟩ := e
  have hget : ∀ t r, (askRecovery ref s (topic, offer)).recovering.get? t = some r →
      (t = topic ∧ r = .ask (s.recovering.get? topic) (s.highest.get? topic) offer.offset ref) ∨
        (t ≠ topic ∧ s.recovering.get? t = some r) := by
    intro t r hr
    simp only [askRecovery, get?_set] at hr
    split at hr
    · next heq => exact .inl ⟨heq, by simpa using hr.symm⟩
    · next hne => exact .inr ⟨hne, hr⟩
  refine ⟨fun a ha => ?_, fun t x hx => ?_, fun t p x hp hx => ?_, fun t r hr => ?_,
    fun hopened t r hr => ?_, fun send hsend => ?_, h.quiet⟩
  · cases List.mem_cons.mp ha with
    | inr hold => exact h.safe a hold
    | inl hnew =>
      rw [hnew]
      unfold Safe
      split
      · next r hr =>
        obtain ⟨-, ⟨b, hb, hle⟩, -⟩ := h.recovering topic r hr
        have heq : offer.offset = r.offset := hagrees r hr
        exact ⟨heq, b, hb, by show offer.offset ≤ b; omega⟩
      · exact hheard
  · obtain ⟨heq, rfl⟩ | ⟨-, hx⟩ := of_get?_set hx
    · rw [heq]
      exact hheard
    · exact h.seen t x hx
  · obtain ⟨-, rfl⟩ | ⟨-, hp⟩ := of_get?_set hp
    · cases hx
    · exact h.ahead t p x hp hx
  · cases hget t r hr with
    | inl hnew =>
      obtain ⟨rfl, rfl⟩ := hnew
      refine ⟨by simp [askRecovery, Recovery.ask], ?_, hwants⟩
      cases hold : s.recovering.get? t with
      | none =>
        obtain ⟨b, hb, hle⟩ := hheard
        exact ⟨b, by simp [Recovery.ask, hb], hle⟩
      | some r₀ =>
        obtain ⟨-, ⟨b, hb, hle⟩, -⟩ := h.recovering t r₀ hold
        have heq : offer.offset = r₀.offset := hagrees r₀ hold
        exact ⟨b, by simp [Recovery.ask, hb], by simp only [Recovery.ask]; omega⟩
    | inr hold =>
      obtain ⟨hlast, hlimit, hwants'⟩ := h.recovering t r hold.2
      exact ⟨by simp only [askRecovery, JsMap.get?_set_ne _ _ hold.1]; exact hlast, hlimit, hwants'⟩
  · cases hget t r hr with
    | inl hnew =>
      obtain ⟨rfl, rfl⟩ := hnew
      simp [askRecovery, Matches, Recovery.ask]
    | inr hold =>
      simp only [askRecovery, JsMap.get?_set_ne _ _ hold.1]
      exact h.asking hopened t r hold.2
  · refine (h.queue send hsend).quiet rfl (fun _ _ hr => hr) fun t ref' r href' hr => ?_
    cases hget t r hr with
    | inl hnew =>
      have hsome : s.pendingRetryRefs.get? t = some ref' := href'
      rw [hnew.1] at hsome
      rw [href] at hsome
      contradiction
    | inr hold => exact ⟨r, hold.2, rfl⟩

/-- Several wanted topics to ask for, each from one offset, that of its recovery. -/
structure Askable (s : State) (recover : List (String × Offer)) : Prop where
  wants : ∀ e ∈ recover, s.wants e.1 = true
  heard : ∀ e ∈ recover, Heard s e.1 e.2.offset
  single : ∀ e ∈ recover, ∀ e' ∈ recover, e.1 = e'.1 → e.2.offset = e'.2.offset
  agrees : ∀ e ∈ recover, ∀ r, s.recovering.get? e.1 = some r → e.2.offset = r.offset
  refs : ∀ e ∈ recover, s.pendingRetryRefs.get? e.1 = none

theorem inv_askRecoveries {s : State} (h : Inv s) (ref : Nat) {recover : List (String × Offer)}
    (ha : Askable s recover) : Inv (recover.foldl (askRecovery ref) s) := by
  induction recover generalizing s with
  | nil => exact h
  | cons e recover ih =>
    have hin : ∀ {x}, x ∈ recover → x ∈ e :: recover := mem_cons_of_mem _
    have hself : e ∈ e :: recover := mem_cons_self ..
    have hfirst : Inv (askRecovery ref s e) := inv_askRecovery h (ha.wants e hself)
      (ha.heard e hself) (ha.agrees e hself) (ha.refs e hself)
    refine ih hfirst ⟨fun x hx => ha.wants x (hin hx), fun x hx => ha.heard x (hin hx),
      fun x hx y hy => ha.single x (hin hx) y (hin hy), fun x hx r hr => ?_,
      fun x hx => ha.refs x (hin hx)⟩
    obtain ⟨heq, rfl⟩ | ⟨-, hr⟩ := of_get?_set hr
    · exact ha.single x (hin hx) e hself heq
    · exact ha.agrees x (hin hx) r hr

theorem asks_seen {s : State} {ref : Nat} {recover : List (String × Offer)}
    (hseen : ∀ e ∈ recover, s.lastSeenSeqs.get? e.1 = some e.2.offset) (topic : String) :
    (recover.foldl (askRecovery ref) s).lastSeenSeqs.get? topic = s.lastSeenSeqs.get? topic := by
  induction recover generalizing s with
  | nil => rfl
  | cons e recover ih =>
    have hsame : ∀ t, (askRecovery ref s e).lastSeenSeqs.get? t = s.lastSeenSeqs.get? t := by
      intro t
      simp only [askRecovery, get?_set]
      split
      · next heq => rw [heq, hseen e (mem_cons_self ..)]
      · rfl
    rw [List.foldl_cons, ih, hsame]
    intro x hx
    rw [hsame]
    exact hseen x (mem_cons_of_mem _ hx)

/-- What a retry or a resubscribe was built from. -/
structure Built (s : State) (c : List String × List (String × Offer)) : Prop where
  topics : ∀ e ∈ c.2, e.1 ∈ c.1
  seen : ∀ e ∈ c.2, s.lastSeenSeqs.get? e.1 = some e.2.offset

theorem Built.single {s : State} {c : List String × List (String × Offer)} (h : Built s c) :
    ∀ e ∈ c.2, ∀ e' ∈ c.2, e.1 = e'.1 → e.2.offset = e'.2.offset := by
  intro e he e' he' heq
  have hseen := h.seen e he
  rw [heq, h.seen e' he'] at hseen
  simpa using hseen.symm

theorem Built.agrees {s : State} (hinv : Inv s) {c : List String × List (String × Offer)}
    (h : Built s c) : ∀ e ∈ c.2, ∀ r, s.recovering.get? e.1 = some r → e.2.offset = r.offset := by
  intro e he r hr
  obtain ⟨hlast, -, -⟩ := hinv.recovering e.1 r hr
  rw [h.seen e he] at hlast
  simpa using hlast

theorem Built.of {s t : State} {c : List String × List (String × Offer)} (h : Built s c)
    (hseen : ∀ topic, t.lastSeenSeqs.get? topic = s.lastSeenSeqs.get? topic) : Built t c :=
  ⟨h.topics, fun e he => by rw [hseen, h.seen e he]⟩

theorem built_chunkResubscribe {z : Sizes} {s : State} {topics : List String}
    {c : List String × List (String × Offer)} (h : c ∈ chunkResubscribe z s topics) :
    Built s c ∧ (∀ t ∈ c.1, t ∈ topics ∧ t ∉ s.managedTopics) ∧
      ∀ t ∈ c.1, s.lastSeenSeqs.get? t ≠ none → ∃ e ∈ c.2, e.1 = t := by
  obtain ⟨chunk, hchunk, rfl⟩ := List.mem_map.mp h
  refine ⟨⟨fun e he => ?_, fun e he => ?_⟩, fun t ht => ?_, fun t ht hne => ?_⟩
  · obtain ⟨t, ht, hoffer⟩ := List.mem_filterMap.mp he
    obtain ⟨offer, -, rfl⟩ := Option.map_eq_some_iff.mp hoffer
    exact ht
  · obtain ⟨t, ht, hoffer⟩ := List.mem_filterMap.mp he
    obtain ⟨offer, hsome, rfl⟩ := Option.map_eq_some_iff.mp hoffer
    obtain ⟨x, hx, rfl⟩ := Option.map_eq_some_iff.mp hsome
    exact hx
  · have hflat := List.mem_flatten.mpr ⟨chunk, hchunk, ht⟩
    rw [flatten_chunkTopics] at hflat
    simpa using hflat
  · cases hlast : s.lastSeenSeqs.get? t with
    | none => exact absurd hlast hne
    | some x =>
      let offer : Offer := { offset := x, epoch := s.lastSeenEpochs.get? t }
      have hoffer : s.offer? t = some offer := by simp [State.offer?, hlast, offer]
      exact ⟨(t, offer), List.mem_filterMap.mpr ⟨t, ht, by simp [hoffer]⟩, rfl⟩

/-! ## sends -/

theorem inv_sendRecoveryFrame {s : State} (h : Inv s) {ref : Nat} (topics : List String)
    {recover : List (String × Offer)} (ha : Askable s recover) :
    Inv (sendRecoveryFrame s ref topics recover) := by
  unfold sendRecoveryFrame
  split
  · exact (inv_askRecoveries h ref ha).of_same rfl
  · exact h

theorem sendRecoveryFrame_seen {s : State} {ref : Nat} {topics : List String}
    {recover : List (String × Offer)}
    (hseen : ∀ e ∈ recover, s.lastSeenSeqs.get? e.1 = some e.2.offset) (topic : String) :
    (sendRecoveryFrame s ref topics recover).lastSeenSeqs.get? topic =
      s.lastSeenSeqs.get? topic := by
  unfold sendRecoveryFrame
  split
  · exact asks_seen hseen topic
  · rfl

theorem inv_deleteRefs {s : State} (h : Inv s) (topics : List String) :
    Inv { s with pendingRetryRefs := topics.foldl delete s.pendingRetryRefs } := by
  have hget : ∀ t ref, (topics.foldl delete s.pendingRetryRefs).get? t = some ref →
      s.pendingRetryRefs.get? t = some ref := by
    intro t ref ht
    rw [JsMap.get?_foldl_delete] at ht
    split at ht
    · contradiction
    · exact ht
  refine { h with queue := fun send hsend => ?_, quiet := fun hphase t => ?_ }
  · exact (h.queue send hsend).quiet rfl hget fun _ _ r _ hr => ⟨r, hr, rfl⟩
  · have hnone := h.quiet hphase t
    rw [JsMap.get?_foldl_delete, hnone]
    split <;> rfl

theorem inv_sendSubscribe {s : State} (h : Inv s) (topics : List String) :
    Inv (sendSubscribe s topics) :=
  h.of_view rfl (Nat.le_succ _)

theorem inv_doSend {s : State} (h : Inv s) {send : Send} (hp : Promises s send) :
    Inv (doSend s send) := by
  cases send with
  | subscribe topic =>
    simp only [doSend]
    split
    · exact inv_sendSubscribe h _
    · exact h
  | batch topics =>
    simp only [doSend]
    split
    · exact h
    · exact inv_sendSubscribe h _
  | retry generation ref topics recover =>
    have hw : Waiting s ref topics recover := hp
    let wanted := topics.filter fun t => s.wants t && s.pendingRetryRefs.get? t = some ref
    have hmem : ∀ t ∈ wanted, s.wants t = true ∧ s.pendingRetryRefs.get? t = some ref := by
      intro t ht
      simpa using (List.mem_filter.mp ht).2
    let u : State := { s with pendingRetryRefs := wanted.foldl delete s.pendingRetryRefs }
    have hu : Inv u := inv_deleteRefs h wanted
    -- whatever the frame asks for is wanted
    have hsend : ∀ (topics : List String) (recover' : List (String × Offer)),
        (∀ e ∈ recover', e ∈ recover) → (∀ e ∈ recover', e.1 ∈ wanted) →
        Inv (sendRecoveryFrame u ref topics recover') := by
      intro topics recover' hsub hwanted
      refine inv_sendRecoveryFrame hu topics ⟨fun e he => (hmem _ (hwanted e he)).1,
        fun e he => hw.heard e (hsub e he),
        fun e he e' he' => hw.single e (hsub e he) e' (hsub e' he'),
        fun e he => hw.agrees e (hsub e he) (hmem _ (hwanted e he)).2, fun e he => ?_⟩
      rw [JsMap.get?_foldl_delete, if_pos (hwanted e he)]
    simp only [doSend]
    split
    · exact h
    split
    · exact hu
    · split
      · refine hsend wanted _ (fun e he => (List.mem_filter.mp he).1) fun e he => ?_
        exact of_decide_eq_true (List.mem_filter.mp he).2
      · next hlen =>
        refine hsend topics recover (fun _ he => he) fun e he => ?_
        have hall := List.length_filter_eq_length_iff.mp (Decidable.not_not.mp hlen)
        exact List.mem_filter.mpr ⟨hw.topics e he, hall e.1 (hw.topics e he)⟩

theorem inv_asks {s s' : State} (h : Inv s) (hs : Asks s s') : Inv s' := by
  obtain ⟨sent, n, wire, rfl, -⟩ := hs
  exact h.of_same rfl

theorem inv_flowSend {s : State} (h : Inv s) {send : Send} (hp : Promises s send) :
    Inv (flowSend s send) := by
  unfold flowSend
  split
  · exact inv_doSend h hp
  split
  · refine inv_asks ?_ (maybeReplenish_asks _)
    apply inv_doSend
    · exact h.of_same rfl
    · exact hp.same rfl rfl
  · split
    · refine inv_asks ?_ (reportDeeperBacklog_asks _)
      refine inv_asks ?_ (maybeReplenish_asks _)
      refine { h with queue := fun send' hmem => ?_ }
      have hold : Promises s send' := by
        cases List.mem_append.mp hmem with
        | inl hin => exact h.queue send' hin
        | inr hin =>
          obtain rfl : send' = send := by simpa using hin
          exact hp
      exact hold.same rfl rfl
    · exact h

theorem inv_drain {s : State} (h : Inv s) (queue : List Send)
    (hp : ∀ send ∈ queue, Promises s send) : Inv (drain s queue) := by
  induction queue generalizing s with
  | nil =>
    refine { h with queue := fun send hmem => ?_ }
    exact absurd hmem (List.not_mem_nil)
  | cons send rest ih =>
    simp only [drain]
    split
    · let t : State := { s with flowQueue := rest, flowAvail := s.flowAvail - 1 }
      have hsame : ∀ {x}, Promises s x → Promises t x := fun hx => hx.same rfl rfl
      have ht : Inv t :=
        { h with queue := fun x hx => hsame (hp x (mem_cons_of_mem _ hx)) }
      have hsent : Inv (doSend t send) := inv_doSend ht (hsame (hp send (mem_cons_self ..)))
      refine ih hsent fun x hx => hsent.queue x ?_
      rw [(doSend_quiet t send).queue]
      exact hx
    · refine { h with queue := fun x hx => ?_ }
      exact (hp x hx).same rfl rfl

/-! ## the retries -/

theorem flowSend_seen {s : State} (generation ref : Nat) {c : List String × List (String × Offer)}
    (hb : Built s c) (topic : String) :
    (flowSend s (.retry generation ref c.1 c.2)).lastSeenSeqs.get? topic =
      s.lastSeenSeqs.get? topic := by
  have hsend : ∀ u : State, u.lastSeenSeqs = s.lastSeenSeqs →
      (doSend u (.retry generation ref c.1 c.2)).lastSeenSeqs.get? topic =
        s.lastSeenSeqs.get? topic := by
    intro u hu
    simp only [doSend]
    split
    · rw [hu]
    split
    · simp only [hu]
    split
    · rw [sendRecoveryFrame_seen]
      · simp only [hu]
      · intro e he
        simp only [hu]
        exact hb.seen e (List.mem_filter.mp he).1
    · rw [sendRecoveryFrame_seen]
      · simp only [hu]
      · intro e he
        simp only [hu]
        exact hb.seen e he
  have hasks : ∀ {u u' : State}, Asks u u' → u'.lastSeenSeqs = u.lastSeenSeqs := by
    rintro u u' ⟨sent, n, wire, rfl, -⟩
    rfl
  unfold flowSend
  split
  · exact hsend s rfl
  · split
    · rw [hasks (maybeReplenish_asks _)]
      exact hsend _ rfl
    · split
      · rw [hasks (reportDeeperBacklog_asks _), hasks (maybeReplenish_asks _)]
      · rfl

theorem inv_sendRetry {s : State} (h : Inv s) (hopened : s.phase = .opened)
    {c : List String × List (String × Offer)} (hb : Built s c) : Inv (sendRetry s c) := by
  let refs := c.1.foldl (fun refs t => refs.set t s.nextSubscribeRef) s.pendingRetryRefs
  let u : State := { s with nextSubscribeRef := s.nextSubscribeRef + 1, pendingRetryRefs := refs }
  have hu : Inv u := by
    refine { h with queue := fun send hsend => ?_, quiet := fun hphase => ?_ }
    · refine (h.queue send hsend).of (Nat.le_succ _) (fun _ _ hx => hx) (fun t ref hold ht => ?_)
        fun _ _ r _ _ hr => ⟨r, hr, rfl⟩
      have ht' : refs.get? t = some ref := ht
      rw [JsMap.get?_foldl_set] at ht'
      split at ht'
      · have heq : s.nextSubscribeRef = ref := by simpa using ht'
        omega
      · exact ht'
    · have hphase' : s.phase = .starting ∨ s.phase = .connecting ∨ s.phase = .opening := hphase
      simp [hopened] at hphase'
  have hw : Waiting u s.nextSubscribeRef c.1 c.2 :=
    ⟨Nat.lt_succ_self _, hb.topics, fun e he => h.seen _ _ (hb.seen e he), hb.single,
      fun e he _ r hr => hb.agrees h e he r hr⟩
  exact inv_flowSend hu hw

theorem sendRetry_phase (s : State) (c : List String × List (String × Offer)) :
    (sendRetry s c).phase = s.phase :=
  (flowSend_grown _ (.retry s.connectionGeneration s.nextSubscribeRef c.1 c.2)).phase

theorem sendRetry_seen {s : State} {c : List String × List (String × Offer)} (hb : Built s c)
    (topic : String) : (sendRetry s c).lastSeenSeqs.get? topic = s.lastSeenSeqs.get? topic := by
  refine flowSend_seen (c := c) _ _ ?_ topic
  exact hb.of fun _ => rfl

theorem inv_sendRetries {s : State} (h : Inv s) (hopened : s.phase = .opened)
    {chunks : List (List String × List (String × Offer))} (hb : ∀ c ∈ chunks, Built s c) :
    Inv (chunks.foldl sendRetry s) := by
  induction chunks generalizing s with
  | nil => exact h
  | cons c chunks ih =>
    have hself := hb c (mem_cons_self ..)
    refine ih (inv_sendRetry h hopened hself) ?_ fun x hx => ?_
    · rw [sendRetry_phase, hopened]
    · exact (hb x (mem_cons_of_mem _ hx)).of fun topic => sendRetry_seen hself topic

theorem inv_timer {z : Sizes} {s : State} (h : Inv s) (hphase : s.phase ≠ .opening) :
    Inv (flushRateLimitedRetries z s) := by
  have hless : Inv { s with
      rateLimitedTimer := none
      rateLimitedTopics := s.rateLimitedTopics.filter s.wants } := h.of_same rfl
  simp only [flushRateLimitedRetries]
  split
  · exact hless
  · next hcond =>
    have hopened : s.phase = .opened := by
      cases hp : s.phase with
      | opened => rfl
      | opening => exact absurd hp hphase
      | _ => simp [State.isOpen, hp] at hcond
    exact inv_sendRetries hless hopened fun c hc => (built_chunkResubscribe hc).1

/-! ## the resubscribe -/

/-- The frame of a recovery is unanswered, or was refused. -/
def Answered (s : State) (topic : String) : Prop :=
  ∀ r, s.recovering.get? topic = some r → Matches r (s.pendingRecoveries.get? topic)

theorem answered_ask {s : State} {ref : Nat} {e : String × Offer} {topic : String}
    (h : topic = e.1 ∨ Answered s topic) : Answered (askRecovery ref s e) topic := by
  intro r hr
  simp only [askRecovery, get?_set] at hr ⊢
  by_cases heq : topic = e.1
  · rw [if_pos heq] at hr ⊢
    cases hr
    rfl
  · rw [if_neg heq] at hr ⊢
    exact h.resolve_left heq r hr

theorem answered_asks {s : State} (ref : Nat) {recover : List (String × Offer)} {topic : String}
    (h : (∃ e ∈ recover, e.1 = topic) ∨ Answered s topic) :
    Answered (recover.foldl (askRecovery ref) s) topic := by
  induction recover generalizing s with
  | nil =>
    refine h.resolve_left fun hex => ?_
    obtain ⟨e, he, -⟩ := hex
    exact absurd he (List.not_mem_nil)
  | cons e recover ih =>
    apply ih
    cases h with
    | inr hold => exact .inr (answered_ask (.inr hold))
    | inl hex =>
      obtain ⟨x, hx, heq⟩ := hex
      cases List.mem_cons.mp hx with
      | inl hself => exact .inr (answered_ask (.inl (by rw [← heq, hself])))
      | inr hrest => exact .inl ⟨x, hrest, heq⟩

theorem answered_resubscribe {s : State} (hopen : s.isOpen = true)
    {c : List String × List (String × Offer)} {topic : String}
    (h : (∃ e ∈ c.2, e.1 = topic) ∨ Answered s topic) : Answered (resubscribe s c) topic := by
  have hopen' : State.isOpen { s with nextSubscribeRef := s.nextSubscribeRef + 1 } = true := hopen
  simp only [resubscribe, sendRecoveryFrame]
  rw [if_pos hopen']
  have hasks := answered_asks (s := { s with nextSubscribeRef := s.nextSubscribeRef + 1 })
    s.nextSubscribeRef h
  exact hasks

theorem inv_resubscribe {s : State} (h : Inv s) (hphase : s.phase = .opening)
    {c : List String × List (String × Offer)} (hb : Built s c)
    (hwants : ∀ t ∈ c.1, s.wants t = true) : Inv (resubscribe s c) := by
  let u : State := { s with nextSubscribeRef := s.nextSubscribeRef + 1 }
  have hu : Inv u :=
    h.of_view rfl (Nat.le_succ _)
  have hquiet := h.quiet (.inr (.inr hphase))
  exact inv_sendRecoveryFrame hu c.1 ⟨fun e he => hwants e.1 (hb.topics e he),
    fun e he => h.seen _ _ (hb.seen e he), hb.single, hb.agrees h, fun e _ => hquiet e.1⟩

theorem inv_resubscribes {s : State} (h : Inv s) (hphase : s.phase = .opening)
    {chunks : List (List String × List (String × Offer))} (hb : ∀ c ∈ chunks, Built s c)
    (hwants : ∀ c ∈ chunks, ∀ t ∈ c.1, s.wants t = true) :
    Inv (chunks.foldl resubscribe s) ∧ ∀ topic, ((∃ c ∈ chunks, ∃ e ∈ c.2, e.1 = topic) ∨
      Answered s topic) → Answered (chunks.foldl resubscribe s) topic := by
  induction chunks generalizing s with
  | nil =>
    refine ⟨h, fun topic hor => hor.resolve_left fun hex => ?_⟩
    obtain ⟨c, hc, -⟩ := hex
    exact absurd hc (List.not_mem_nil)
  | cons c chunks ih =>
    have hself := hb c (mem_cons_self ..)
    have hq := resubscribe_quiet s c
    obtain ⟨hinv, hanswered⟩ := ih
      (inv_resubscribe h hphase hself (hwants c (mem_cons_self ..)))
      (hq.phase.trans hphase)
      (fun x hx => (hb x (mem_cons_of_mem _ hx)).of fun topic =>
        sendRecoveryFrame_seen (s := { s with nextSubscribeRef := s.nextSubscribeRef + 1 })
          hself.seen topic)
      (fun x hx t ht => by
        rw [hq.toFrame.wants]
        exact hwants x (mem_cons_of_mem _ hx) t ht)
    refine ⟨hinv, fun topic hor => hanswered topic ?_⟩
    have hopen : s.isOpen = true := by simp [State.isOpen, hphase]
    cases hor with
    | inr hold => exact .inr (answered_resubscribe hopen (.inr hold))
    | inl hex =>
      obtain ⟨x, hx, e, he, heq⟩ := hex
      cases List.mem_cons.mp hx with
      | inl hfirst => exact .inr (answered_resubscribe hopen (.inl ⟨e, hfirst ▸ he, heq⟩))
      | inr hrest => exact .inl ⟨x, hrest, e, he, heq⟩

theorem inv_onopen {z : Sizes} {s : State} (h : Inv s) (hphase : s.phase = .opening) :
    Inv (onopen z s) := by
  obtain ⟨hinv, hanswered⟩ := inv_resubscribes h hphase
    (fun c hc => (built_chunkResubscribe hc).1)
    (fun c hc t ht => wants_iff.mpr ((built_chunkResubscribe hc).2.1 t ht))
  have hall : ∀ topic,
      Answered ((chunkResubscribe z s s.subscribedTopics).foldl resubscribe s) topic := by
    intro topic
    apply hanswered
    cases hr : s.recovering.get? topic with
    | none =>
      refine .inr fun r hr' => ?_
      rw [hr] at hr'
      contradiction
    | some r =>
      obtain ⟨hlast, -, hwants⟩ := h.recovering topic r hr
      rw [wants_iff] at hwants
      obtain ⟨c, hc, htopic⟩ := mem_chunkResubscribe hwants.1 hwants.2
      obtain ⟨e, he, heq⟩ := (built_chunkResubscribe hc).2.2 topic htopic (by simp [hlast])
      exact .inl ⟨c, hc, e, he, heq⟩
  refine {
    hinv with
    asking := fun _ topic r hr => hall topic r hr
    queue := fun send hsend => (hinv.queue send hsend).same rfl rfl
    quiet := fun hor => ?_ }
  rcases hor with hp | hp | hp <;> cases hp

/-! ## messages -/

theorem le_raise (old : Option Int) (seq : Int) : seq ≤ raise old seq := by
  unfold raise
  split
  · exact Int.le_refl _
  · omega

theorem le_raise_old (previous seq : Int) : previous ≤ raise (some previous) seq := by
  simp only [raise]
  omega

theorem raise_le {old : Option Int} {seq h : Int} (hseq : seq ≤ h) (hold : ∀ x, old = some x → x ≤ h) :
    raise old seq ≤ h := by
  unfold raise
  split
  · exact hseq
  · next previous =>
    have := hold previous rfl
    omega

theorem heard_hear {s : State} {topic t : String} {seq x : Int} (h : Heard s t x) :
    Heard (hear s topic seq) t x := by
  obtain ⟨h, hget, hle⟩ := h
  simp only [Heard, hear, get?_set]
  by_cases heq : t = topic
  · refine ⟨_, by rw [if_pos heq], ?_⟩
    rw [← heq, hget]
    exact Int.le_trans hle (le_raise_old h seq)
  · exact ⟨h, by rw [if_neg heq, hget], hle⟩

theorem heard_self (s : State) (topic : String) (seq : Int) : Heard (hear s topic seq) topic seq :=
  ⟨raise (s.highest.get? topic) seq, by simp [hear], le_raise _ _⟩

theorem recovering_hear {s : State} {topic t : String} {seq : Int} {r : Recovery}
    (h : (hear s topic seq).recovering.get? t = some r) :
    s.recovering.get? t = some r ∧ (t = topic → r.denied = false) := by
  simp only [hear] at h
  split at h
  · next r' hr' =>
    split at h
    · next hdenied =>
      obtain ⟨hne, h⟩ := of_get?_delete h
      exact ⟨h, fun heq => absurd heq hne⟩
    · next hdenied =>
      refine ⟨h, fun heq => ?_⟩
      rw [heq, hr'] at h
      cases h
      simpa using hdenied
  · next hnone =>
    refine ⟨h, fun heq => ?_⟩
    rw [heq, hnone] at h
    contradiction

theorem inv_hear {s : State} (h : Inv s) (topic : String) (seq : Int) : Inv (hear s topic seq) := by
  refine ⟨h.safe, fun t x hx => heard_hear (h.seen t x hx), fun t p x hp hx => heard_hear
    (h.ahead t p x hp hx), fun t r hr => h.recovering t r (recovering_hear hr).1,
    fun hopened t r hr => h.asking hopened t r (recovering_hear hr).1, fun send hsend => ?_, h.quiet⟩
  exact (h.queue send hsend).of (Nat.le_refl _) (fun _ _ => heard_hear) (fun _ _ _ ht => ht)
    fun _ _ r _ _ hr => ⟨r, (recovering_hear hr).1, rfl⟩

theorem inv_setSeen {s : State} (h : Inv s) {topic : String} {x : Int} (hx : Heard s topic x)
    (hnone : s.recovering.get? topic = none) :
    Inv { s with lastSeenSeqs := s.lastSeenSeqs.set topic x } := by
  refine {
    h with
    seen := fun t y hy => ?_
    recovering := fun t r hr => ?_
    queue := fun send hsend => (h.queue send hsend).same rfl rfl }
  · have hy' : (s.lastSeenSeqs.set topic x).get? t = some y := hy
    obtain ⟨heq, rfl⟩ | ⟨-, hy'⟩ := of_get?_set hy'
    · rw [heq]
      exact hx
    · exact h.seen t y hy'
  · obtain ⟨hlast, hlimit, hwants⟩ := h.recovering t r hr
    have hne : t ≠ topic := by
      intro heq
      have hr' : s.recovering.get? t = some r := hr
      rw [heq, hnone] at hr'
      contradiction
    exact ⟨by rw [JsMap.get?_set_ne _ _ hne, hlast], hlimit, hwants⟩

theorem inv_setAhead {s : State} (h : Inv s) {topic : String} {p : Pending}
    (hp : s.pendingRecoveries.get? topic = some p) {highest : Option Int}
    (hhighest : ∀ x, highest = some x → Heard s topic x) :
    Inv { s with pendingRecoveries := s.pendingRecoveries.set topic { p with highest } } := by
  refine {
    h with
    ahead := fun t q x hq hx => ?_
    asking := fun hopened t r hr => ?_
    queue := fun send hsend => (h.queue send hsend).same rfl rfl }
  · have hq' : (s.pendingRecoveries.set topic { p with highest }).get? t = some q := hq
    obtain ⟨heq, rfl⟩ | ⟨-, hq'⟩ := of_get?_set hq'
    · rw [heq]
      exact hhighest x hx
    · exact h.ahead t q x hq' hx
  · have hold := h.asking hopened t r hr
    rw [get?_set]
    split
    · next heq =>
      rw [heq, hp] at hold
      exact hold
    · exact hold

theorem inv_forget {s : State} (h : Inv s) (topic : String) :
    Inv { s with
      lastSeenSeqs := s.lastSeenSeqs.delete topic
      recovering := s.recovering.delete topic } := by
  refine {
    h with
    seen := fun t y hy => ?_
    recovering := fun t r hr => ?_
    asking := fun hopened t r hr => h.asking hopened t r (of_get?_delete hr).2
    queue := fun send hsend => ?_ }
  · have hy' : (s.lastSeenSeqs.delete topic).get? t = some y := hy
    exact h.seen t y (of_get?_delete hy').2
  · obtain ⟨hne, hr'⟩ := of_get?_delete hr
    obtain ⟨hlast, hlimit, hwants⟩ := h.recovering t r hr'
    exact ⟨by rw [JsMap.get?_delete_ne _ hne, hlast], hlimit, hwants⟩
  · exact (h.queue send hsend).quiet rfl (fun _ _ ht => ht)
      fun _ _ r _ hr => ⟨r, (of_get?_delete hr).2, rfl⟩

theorem inv_dispatchEvent {s : State} (h : Inv s) (hopened : s.phase = .opened) (msg : Msg) :
    Inv (dispatchEvent s msg) := by
  unfold dispatchEvent
  split
  · next seq hseq =>
    have hinv := inv_hear h msg.topic seq
    have hself := heard_self s msg.topic seq
    simp only
    split
    · next p hp =>
      refine inv_setAhead hinv hp fun x hx => ?_
      cases hx
      obtain ⟨b, hb, hle⟩ := hself
      refine ⟨b, hb, raise_le hle fun y hy => ?_⟩
      obtain ⟨b', hb', hle'⟩ := hinv.ahead msg.topic p y hp hy
      rw [hb] at hb'
      cases hb'
      exact hle'
    · next hp =>
      refine inv_setSeen hinv ?_ ?_
      · obtain ⟨b, hb, hle⟩ := hself
        refine ⟨b, hb, raise_le hle fun y hy => ?_⟩
        obtain ⟨b', hb', hle'⟩ := hinv.seen msg.topic y hy
        rw [hb] at hb'
        cases hb'
        exact hle'
      · -- a recovery without an entry was refused, and ends here
        cases hr : (hear s msg.topic seq).recovering.get? msg.topic with
        | none => rfl
        | some r =>
          obtain ⟨hr', hdenied⟩ := recovering_hear hr
          have hmatches := h.asking hopened msg.topic r hr'
          have hnone : s.pendingRecoveries.get? msg.topic = none := hp
          rw [hnone] at hmatches
          have hdenied' := hdenied rfl
          have htrue : r.denied = true := hmatches
          rw [htrue] at hdenied'
          contradiction
  · split
    · exact h
    rename_i baseTopic hbase
    have hinv := inv_forget h baseTopic
    have hpend : ∀ pending, (∀ p, s.pendingRecoveries.get? baseTopic = some p →
        pending = s.pendingRecoveries.set baseTopic { p with highest := none }) →
        (s.pendingRecoveries.get? baseTopic = none → pending = s.pendingRecoveries) →
        Inv { s with
          lastSeenSeqs := s.lastSeenSeqs.delete baseTopic
          recovering := s.recovering.delete baseTopic
          pendingRecoveries := pending } := by
      intro pending hsome hnone
      cases hp : s.pendingRecoveries.get? baseTopic with
      | none =>
        rw [hnone hp]
        exact hinv
      | some p =>
        rw [hsome p hp]
        exact inv_setAhead hinv hp fun x hx => by cases hx
    have hgoal := hpend
      (match s.pendingRecoveries.get? baseTopic with
        | some pending => s.pendingRecoveries.set baseTopic { pending with highest := none }
        | none => s.pendingRecoveries)
      (fun p hp => by rw [hp]) (fun hp => by rw [hp])
    exact hgoal.of_same rfl

/-! ## answers -/

theorem answer_cases {m : JsMap String Recovery} {topic t : String} {ref : Option Nat}
    {accepted : Bool} {r : Recovery} (h : (answer m topic ref accepted).get? t = some r) :
    (m.get? t = some r ∧ (t = topic → ref ≠ some r.ref)) ∨
      (t = topic ∧ accepted = false ∧ ∃ r₀, m.get? topic = some r₀ ∧ ref = some r₀.ref ∧
        r = { r₀ with denied := true }) := by
  unfold answer at h
  split at h
  · next hnone =>
    refine .inl ⟨h, fun heq => ?_⟩
    rw [heq, hnone] at h
    contradiction
  · next r₀ hr₀ =>
    split at h
    · next href =>
      split at h
      · obtain ⟨hne, h⟩ := of_get?_delete h
        exact .inl ⟨h, fun heq => absurd heq hne⟩
      · next hrefused =>
        obtain ⟨heq, rfl⟩ | ⟨hne, h⟩ := of_get?_set h
        · exact .inr ⟨heq, by simpa using hrefused, r₀, hr₀, href, rfl⟩
        · exact .inl ⟨h, fun heq => absurd heq hne⟩
    · next href =>
      refine .inl ⟨h, fun heq => ?_⟩
      rw [heq, hr₀] at h
      cases h
      exact href

theorem inv_answer {s : State} (h : Inv s) (topic : String) (ref : Option Nat) (accepted : Bool)
    (unaccepted : JsMap String Recovery) :
    Inv { s with unaccepted, recovering := answer s.recovering topic ref accepted } := by
  have hold : ∀ {t r}, (answer s.recovering topic ref accepted).get? t = some r →
      ∃ r₀, s.recovering.get? t = some r₀ ∧ r₀.offset = r.offset ∧ r₀.limit = r.limit ∧
        r₀.ref = r.ref ∧ (r₀.denied = true → r.denied = true) := by
    intro t r hr
    cases answer_cases hr with
    | inl hsame => exact ⟨r, hsame.1, rfl, rfl, rfl, fun hd => hd⟩
    | inr hdenied =>
      obtain ⟨heq, -, r₀, hr₀, -, rfl⟩ := hdenied
      exact ⟨r₀, by rw [heq, hr₀], rfl, rfl, rfl, fun _ => rfl⟩
  refine {
    h with
    recovering := fun t r hr => ?_
    asking := fun hopened t r hr => ?_
    queue := fun send hsend => ?_ }
  · obtain ⟨r₀, hr₀, hoffset, hlimit, -, -⟩ := hold hr
    rw [← hoffset, ← hlimit]
    exact h.recovering t r₀ hr₀
  · obtain ⟨r₀, hr₀, -, -, href, hdenied⟩ := hold hr
    have hmatches := h.asking hopened t r₀ hr₀
    cases hp : s.pendingRecoveries.get? t with
    | none =>
      rw [hp] at hmatches
      exact hdenied hmatches
    | some p =>
      rw [hp] at hmatches
      exact Eq.trans hmatches href
  · refine (h.queue send hsend).quiet rfl (fun _ _ ht => ht) fun t _ r _ hr => ?_
    obtain ⟨r₀, hr₀, hoffset, -⟩ := hold hr
    exact ⟨r₀, hr₀, hoffset⟩

theorem inv_deletePending {s : State} (h : Inv s) {topic : String}
    (hdenied : ∀ r, s.phase = .opened → s.recovering.get? topic = some r → r.denied = true) :
    Inv { s with pendingRecoveries := s.pendingRecoveries.delete topic } := by
  refine {
    h with
    ahead := fun t p x hp hx => ?_
    asking := fun hopened t r hr => ?_
    queue := fun send hsend => (h.queue send hsend).same rfl rfl }
  · have hp' : (s.pendingRecoveries.delete topic).get? t = some p := hp
    exact h.ahead t p x (of_get?_delete hp').2 hx
  · rw [JsMap.get?_delete]
    split
    · next heq =>
      have hr' : s.recovering.get? t = some r := hr
      rw [heq] at hr'
      exact hdenied r hopened hr'
    · exact h.asking hopened t r hr

theorem inv_finishRecovery {s : State} (h : Inv s) (hopened : s.phase = .opened) (topic : String)
    (ref : Option Nat) (accepted : Bool) : Inv (finishRecovery s topic ref accepted) := by
  have hinv := inv_answer h topic ref accepted (answer s.unaccepted topic ref accepted)
  simp only [finishRecovery]
  split
  · exact hinv
  rename_i p hp
  have hp' : s.pendingRecoveries.get? topic = some p := hp
  split
  · exact hinv
  rename_i href
  have href' : ref = some p.ref := Decidable.not_not.mp href
  -- a recovery that is left was refused by this very answer
  have hleft : ∀ r, (answer s.recovering topic ref accepted).get? topic = some r →
      accepted = false ∧ r.denied = true := by
    intro r hr
    cases answer_cases hr with
    | inl hsame =>
      have hmatches := h.asking hopened topic r hsame.1
      rw [hp'] at hmatches
      have hrefs : p.ref = r.ref := hmatches
      exact absurd (by rw [href', hrefs]) (hsame.2 rfl)
    | inr hdenied =>
      obtain ⟨-, hfalse, r₀, -, -, rfl⟩ := hdenied
      exact ⟨hfalse, rfl⟩
  have hless := inv_deletePending hinv fun r _ hr => (hleft r hr).2
  split
  · next highest hhighest =>
    have hnone : (answer s.recovering topic ref true).get? topic = none := by
      cases hr : (answer s.recovering topic ref true).get? topic with
      | none => rfl
      | some r => exact absurd (hleft r hr).1 (by simp)
    have hheard : Heard s topic highest := h.ahead topic p highest hp' hhighest
    split
    · exact inv_setSeen hless hheard hnone
    · split
      · exact inv_setSeen hless hheard hnone
      · exact hless
  · exact hless

/-! ## the other steps -/

theorem inv_doUnsubscribe {s : State} (h : Inv s) (topic : String) : Inv (doUnsubscribe s topic) := by
  have hinv : Inv { s with
      managedTopics := s.managedTopics.filter (· ≠ topic)
      subscribedTopics := s.subscribedTopics.filter (· ≠ topic)
      pendingRecoveries := s.pendingRecoveries.delete topic
      pendingRetryRefs := s.pendingRetryRefs.delete topic
      rateLimitedTopics := s.rateLimitedTopics.delete topic
      recovering := s.recovering.delete topic } := by
    refine {
      h with
      ahead := fun t p x hp hx => ?_
      recovering := fun t r hr => ?_
      asking := fun hopened t r hr => ?_
      queue := fun send hsend => ?_
      quiet := fun hphase t => ?_ }
    · have hp' : (s.pendingRecoveries.delete topic).get? t = some p := hp
      exact h.ahead t p x (of_get?_delete hp').2 hx
    · obtain ⟨hne, hr'⟩ := of_get?_delete hr
      obtain ⟨hlast, hlimit, hwants⟩ := h.recovering t r hr'
      simp only [wants_iff] at hwants
      exact ⟨hlast, hlimit, by simp [State.wants, hwants, hne]⟩
    · obtain ⟨hne, hr'⟩ := of_get?_delete hr
      rw [JsMap.get?_delete_ne _ hne]
      exact h.asking hopened t r hr'
    · exact (h.queue send hsend).quiet rfl (fun _ _ ht => (of_get?_delete ht).2)
        fun _ _ r _ hr => ⟨r, (of_get?_delete hr).2, rfl⟩
    · have hnone := h.quiet hphase t
      rw [JsMap.get?_delete, hnone]
      split <;> rfl
  simp only [doUnsubscribe]
  split
  · exact hinv
  · split
    · exact hinv.of_same rfl
    · exact hinv

theorem inv_setTopicManaged {s : State} (h : Inv s) (topic : String) :
    Inv (setTopicManaged s topic) := by
  refine {
    h with
    recovering := fun t r hr => ?_
    asking := fun hopened t r hr => h.asking hopened t r (of_get?_delete hr).2
    queue := fun send hsend => ?_ }
  · obtain ⟨hne, hr'⟩ := of_get?_delete hr
    obtain ⟨hlast, hlimit, hwants⟩ := h.recovering t r hr'
    simp only [wants_iff] at hwants
    exact ⟨hlast, hlimit, by simp [State.wants, setTopicManaged, hwants, hne]⟩
  · exact (h.queue send hsend).quiet rfl (fun _ _ ht => ht)
      fun _ _ r _ hr => ⟨r, (of_get?_delete hr).2, rfl⟩

theorem inv_subscribe {s : State} (h : Inv s) (topic : String) : Inv (subscribe s topic) := by
  have hrefs : ∀ refs, Inv { s with topicRefCounts := refs } := fun _ => h.of_same rfl
  have hmore : ∀ refs pending, Inv { s with
      topicRefCounts := refs
      subscribedTopics := addTopic s.subscribedTopics topic
      pendingSubscribes := pending } := by
    intro refs pending
    refine {
      h with
      recovering := fun t r hr => ?_
      queue := fun send hsend => (h.queue send hsend).same rfl rfl }
    obtain ⟨hlast, hlimit, hwants⟩ := h.recovering t r hr
    simp only [wants_iff] at hwants
    have hadd : t ∈ addTopic s.subscribedTopics topic := by
      unfold addTopic
      split
      · exact hwants.1
      · exact List.mem_append_left _ hwants.1
    exact ⟨hlast, hlimit, by simp [State.wants, hadd, hwants.2]⟩
  simp only [subscribe]
  split
  · exact hrefs _
  · split
    · exact hrefs _
    · split
      · exact hmore _ _
      · exact hmore _ _

theorem inv_release {s : State} (h : Inv s) (topic : String) : Inv (release s topic) := by
  simp only [release]
  split
  · apply inv_doUnsubscribe
    exact h.of_same rfl
  · exact h.of_same rfl

theorem inv_retry {s : State} (h : Inv s) (topic : String) :
    Inv (retryRateLimitedSubscribe s topic) := by
  have hretries : ∀ topics timer, Inv { s with
      rateLimitedTopics := topics, rateLimitedTimer := timer } := fun _ _ => h.of_same rfl
  simp only [retryRateLimitedSubscribe]
  split
  · exact h
  · split
    · exact hretries _ _
    · split
      · exact hretries _ _
      · exact hretries _ _

theorem inv_flush {z : Sizes} {s : State} (h : Inv s) : Inv (flushPendingSubscribes z s) := by
  have hbatches : ∀ (chunks : List (List String)) (u : State), Inv u →
      Inv (chunks.foldl (fun s chunk => flowSend s (.batch chunk)) u) := by
    intro chunks
    induction chunks with
    | nil => exact fun _ hu => hu
    | cons chunk chunks ih => exact fun u hu => ih _ (inv_flowSend hu trivial)
  have hless : Inv { s with pendingSubscribes := none } :=
    h.of_same rfl
  simp only [flushPendingSubscribes]
  split
  · exact hless
  · split
    · exact inv_flowSend hless trivial
    · exact hbatches _ _ hless

theorem inv_doConnect {s : State} (h : Inv s) : Inv (doConnect s) := by
  have hinv : ∀ generation timer topics, Inv { s with
      connectionGeneration := generation
      pendingRecoveries := .empty
      pendingRetryRefs := .empty
      rateLimitedTimer := timer
      rateLimitedTopics := topics
      phase := .starting } := by
    intro generation timer topics
    refine {
      h with
      ahead := fun t p x hp _ => by cases hp
      asking := fun hopened => by cases hopened
      queue := fun send hsend => ?_
      quiet := fun _ _ => rfl }
    exact (h.queue send hsend).quiet rfl (fun _ _ ht => by cases ht)
      fun _ _ r _ hr => ⟨r, hr, rfl⟩
  simp only [doConnect]
  split
  · exact hinv _ _ _
  · exact hinv _ _ _

theorem inv_phase {s : State} (h : Inv s) {phase : Phase} (hopened : phase ≠ .opened)
    (hquiet : phase = .starting ∨ phase = .connecting ∨ phase = .opening →
      ∀ topic, s.pendingRetryRefs.get? topic = none) : Inv { s with phase } :=
  { h with
    asking := fun hp => absurd hp hopened
    queue := fun send hsend => (h.queue send hsend).same rfl rfl
    quiet := hquiet }

/-! ## every run -/

theorem inv_init : Inv .init := by
  constructor
  all_goals simp [State.init]

theorem inv_receive {s s' : State} (h : Inv s) (hopened : s.phase = .opened) {a : Action}
    (hnext : receive s a = some s') : Inv s' := by
  cases a with
  | dispatchEvent msg =>
    cases hnext
    exact inv_dispatchEvent h hopened msg
  | leaseOk =>
    cases hnext
    exact h.of_same rfl
  | lease count ttlMs =>
    cases hnext
    apply inv_drain
    · exact h.of_same rfl
    · exact fun send hsend => (h.queue send hsend).same rfl rfl
  | subscribed topic ref epoch =>
    cases hnext
    exact (inv_finishRecovery h hopened topic ref true).of_same rfl
  | denied topic reason ref =>
    cases hnext
    have hinv := inv_finishRecovery h hopened topic ref false
    split
    · exact hinv.of_same rfl
    · exact hinv
  | _ => cases hnext

theorem inv_next {z : Sizes} {s s' : State} (h : Inv s) {a : Action}
    (hnext : next z s a = some s') : Inv s' := by
  have hreceive : (if s.phase = .opened then receive s a else none) = some s' → Inv s' := by
    intro hif
    split at hif
    · next hopened => exact inv_receive h hopened hif
    · contradiction
  cases a with
  | subscribe topic =>
    cases hnext
    exact inv_subscribe h topic
  | release topic =>
    cases hnext
    exact inv_release h topic
  | unsubscribe topic =>
    cases hnext
    apply inv_doUnsubscribe
    exact h.of_same rfl
  | setTopicManaged topic =>
    cases hnext
    exact inv_setTopicManaged h topic
  | goOffline =>
    cases hnext
    have hoff : Inv { s with phase := .off } := inv_phase h (by simp) (by simp)
    exact hoff.of_same rfl
  | tick clock =>
    cases hnext
    exact h.of_same rfl
  | flush =>
    obtain ⟨-, rfl⟩ := by simpa [next] using hnext
    exact inv_flush h
  | timer =>
    simp only [next] at hnext
    split at hnext
    · contradiction
    obtain ⟨hphase, hnext⟩ := Option.ite_none_left_eq_some.mp hnext
    split at hnext
    · cases hnext
      exact inv_timer h hphase
    · cases hnext
      exact h
  | retry topic =>
    obtain ⟨-, rfl⟩ := by simpa [next] using hnext
    apply inv_retry
    exact h.of_same rfl
  | doConnect =>
    obtain ⟨-, rfl⟩ := by simpa [next] using hnext
    exact inv_doConnect h
  | openSocket =>
    obtain ⟨hphase, rfl⟩ := by simpa [next] using hnext
    exact inv_phase h (by simp) fun _ => h.quiet (.inl hphase)
  | openedSocket =>
    obtain ⟨hphase, rfl⟩ := by simpa [next] using hnext
    have hinv : Inv { s with phase := .opening } :=
      inv_phase h (by simp) fun _ => h.quiet (.inr (.inl hphase))
    exact hinv.of_same rfl
  | onopen =>
    obtain ⟨hphase, rfl⟩ := by simpa [next] using hnext
    exact inv_onopen h hphase
  | closingSocket =>
    obtain ⟨-, rfl⟩ := by simpa [next] using hnext
    exact inv_phase h (by simp) (by simp)
  | onclose =>
    obtain ⟨-, rfl⟩ := by simpa [next] using hnext
    have hoff : Inv { s with phase := .off } := inv_phase h (by simp) (by simp)
    exact hoff.of_same rfl
  | _ => exact hreceive hnext

end BunServe.Topics.Offsets
