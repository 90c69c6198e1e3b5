import BunServe.Topics

/-!
# BunServe.Topics.Subscribed

No subscribe is lost, over all runs.

A flow-control queue that is full drops a send; a window smaller than the queue, and a
new socket, leave the queue without a permit and without a request.

* `Inv` — each wanted topic is named by a frame or a waiting send, and a waiting send
  has a request before it;
* `subscribed` — every run in which none of the three happens;
* `small_window_starves` — what happens else.
-/

namespace BunServe.Topics

open Machine

/-! ## what the claim is about -/

/-- A subscribe frame that names the topic was sent after its last unsubscribe frame. -/
def named (topic : String) : List Wire → Bool
  | [] => false
  | .subscribe topics :: wire => decide (topic ∈ topics) || named topic wire
  | .unsubscribe topic' :: wire => topic' ≠ topic && named topic wire
  | _ :: wire => named topic wire

/-- A request was sent since the last window came. -/
def requested : List Wire → Bool
  | [] => false
  | .request _ :: _ => true
  | .window :: _ => false
  | _ :: wire => requested wire

/-- Whether a waiting send still names the topic. -/
def State.parks (s : State) (topic : String) : Send → Bool
  | .subscribe topic' => topic' = topic
  | .batch topics => decide (topic ∈ topics)
  | .retry generation ref topics _ =>
    generation = s.connectionGeneration && decide (topic ∈ topics) &&
      s.pendingRetryRefs.get? topic = some ref

/-- With an open socket each wanted topic was asked for, or is going to be; and a waiting
send has a permit, or a request for one. -/
structure Subscribed (s : State) : Prop where
  topics : s.phase = .opened → ∀ topic ∈ s.subscribedTopics, topic ∉ s.managedTopics →
    named topic s.wire = true ∨ topic ∈ s.pendingSubscribes.getD [] ∨
      (∃ send ∈ s.flowQueue, s.parks topic send = true) ∨
        (s.rateLimitedTopics.has topic = true ∧ s.rateLimitedTimer.isSome = true)
  window : s.phase = .opened → s.flowQueue ≠ [] → s.flowFresh = true ∨ requested s.wire = true

/-! ## chunks -/

theorem flatten_chunkTopics (entryBytes : String → Nat) (chunk : List String) (bytes : Nat)
    (topics : List String) :
    (chunkTopics entryBytes chunk bytes topics).flatten = chunk ++ topics := by
  induction topics generalizing chunk bytes with
  | nil =>
    unfold chunkTopics
    cases chunk with
    | nil => rfl
    | cons t chunk => simp
  | cons t topics ih =>
    unfold chunkTopics
    split
    · rw [List.flatten_cons, ih]
      simp
    · rw [ih]
      simp

variable {z : Sizes} {topic : String}

theorem mem_chunkTopicsForBatch {topics : List String}
    (h : topic ∈ topics) : ∃ chunk ∈ chunkTopicsForBatch z topics, topic ∈ chunk := by
  have hflat : topic ∈ (chunkTopicsForBatch z topics).flatten := by
    rw [chunkTopicsForBatch, flatten_chunkTopics]
    exact h
  exact List.mem_flatten.mp hflat

variable {s : State}

theorem mem_chunkResubscribe {topics : List String}
    (h : topic ∈ topics) (hmanaged : topic ∉ s.managedTopics) :
    ∃ c ∈ chunkResubscribe z s topics, topic ∈ c.1 := by
  have hflat : topic ∈ ((chunkResubscribe z s topics).map Prod.fst).flatten := by
    simp only [chunkResubscribe, List.map_map, Function.comp_def, List.map_id']
    rw [flatten_chunkTopics]
    simp [h, hmanaged]
  obtain ⟨chunk, hchunk, hmem⟩ := List.mem_flatten.mp hflat
  obtain ⟨c, hc, rfl⟩ := List.mem_map.mp hchunk
  exact ⟨c, hc, hmem⟩

/-! ## sending -/

/-- What a send leaves alone. -/
structure Frame (s s' : State) : Prop where
  phase : s'.phase = s.phase
  subscribed : s'.subscribedTopics = s.subscribedTopics
  managed : s'.managedTopics = s.managedTopics
  pending : s'.pendingSubscribes = s.pendingSubscribes
  active : s'.flowActive = s.flowActive
  clock : s'.clock = s.clock
  expiresAt : s'.flowExpiresAt = s.flowExpiresAt

/-- What `doSend` leaves alone besides. -/
structure Quiet (s s' : State) : Prop extends Frame s s' where
  avail : s'.flowAvail = s.flowAvail
  queue : s'.flowQueue = s.flowQueue
  latch : s'.flowReplenishSent = s.flowReplenishSent
  reported : s'.flowReportedQueue = s.flowReportedQueue
  wire : s'.wire = s.wire ∨ ∃ topics, s'.wire = .subscribe topics :: s.wire

theorem Frame.refl (s : State) : Frame s s := ⟨rfl, rfl, rfl, rfl, rfl, rfl, rfl⟩

variable {s' : State}

theorem Frame.same (h : (s'.phase, s'.subscribedTopics, s'.managedTopics, s'.pendingSubscribes,
    s'.flowActive, s'.clock, s'.flowExpiresAt) = (s.phase, s.subscribedTopics, s.managedTopics,
      s.pendingSubscribes, s.flowActive, s.clock, s.flowExpiresAt)) : Frame s s' := by
  simp only [Prod.mk.injEq] at h
  obtain ⟨hphase, hsub, hmanaged, hpending, hactive, hclock, hexpires⟩ := h
  exact ⟨hphase, hsub, hmanaged, hpending, hactive, hclock, hexpires⟩

theorem Frame.trans {t u : State} (h : Frame s t) (h' : Frame t u) : Frame s u :=
  ⟨h'.phase.trans h.phase, h'.subscribed.trans h.subscribed, h'.managed.trans h.managed,
    h'.pending.trans h.pending, h'.active.trans h.active, h'.clock.trans h.clock,
    h'.expiresAt.trans h.expiresAt⟩

theorem Frame.isOpen (h : Frame s s') : s'.isOpen = s.isOpen := by
  simp [State.isOpen, h.phase]

theorem Frame.wants (h : Frame s s') (topic : String) : s'.wants topic = s.wants topic := by
  simp [State.wants, h.subscribed, h.managed]

theorem Quiet.refl (s : State) : Quiet s s := ⟨.refl s, rfl, rfl, rfl, rfl, .inl rfl⟩

theorem askRecovery_frame (ref : Nat) (s : State) (recover : List (String × Offer)) :
    Quiet s (recover.foldl (askRecovery ref) s) ∧
      (recover.foldl (askRecovery ref) s).wire = s.wire := by
  induction recover generalizing s with
  | nil => exact ⟨.refl s, rfl⟩
  | cons e recover ih =>
    obtain ⟨hq, hwire⟩ := ih (askRecovery ref s e)
    have hfirst : Frame s (askRecovery ref s e) := .same rfl
    exact ⟨⟨hfirst.trans hq.toFrame, hq.avail, hq.queue, hq.latch, hq.reported, .inl hwire⟩, hwire⟩

theorem sendRecoveryFrame_quiet (s : State) (ref : Nat) (topics : List String)
    (recover : List (String × Offer)) : Quiet s (sendRecoveryFrame s ref topics recover) := by
  unfold sendRecoveryFrame
  split
  · obtain ⟨hq, hwire⟩ := askRecovery_frame ref s recover
    exact { hq with wire := .inr ⟨topics, by rw [← hwire]⟩ }
  · exact .refl s

theorem sendSubscribe_quiet (s : State) (topics : List String) : Quiet s (sendSubscribe s topics) :=
  ⟨.same rfl, rfl, rfl, rfl, rfl, .inr ⟨topics, rfl⟩⟩

theorem doSend_quiet (s : State) (send : Send) : Quiet s (doSend s send) := by
  cases send with
  | subscribe topic =>
    simp only [doSend]
    split
    · exact sendSubscribe_quiet s _
    · exact .refl s
  | batch topics =>
    simp only [doSend]
    split
    · exact .refl s
    · exact sendSubscribe_quiet s _
  | retry generation ref topics recover =>
    have hframe : ∀ {refs : JsMap String Nat} {s' : State},
        Quiet { s with pendingRetryRefs := refs } s' → Quiet s s' := fun h => { h with }
    simp only [doSend]
    split
    · exact .refl s
    · split
      · exact hframe (.refl _)
      · split
        · exact hframe (sendRecoveryFrame_quiet ..)
        · exact hframe (sendRecoveryFrame_quiet ..)

/-- Whether a first subscribe of a topic is in the send. -/
def Send.names (topic : String) : Send → Bool
  | .subscribe topic' => topic' = topic
  | .batch topics => decide (topic ∈ topics)
  | .retry .. => false

theorem named_doSend {send : Send} (hnames : send.names topic = true)
    (hwants : s.wants topic = true) : named topic (doSend s send).wire = true := by
  cases send with
  | subscribe topic' =>
    obtain rfl : topic' = topic := by simpa [Send.names] using hnames
    simp [doSend, hwants, sendSubscribe, named]
  | batch topics =>
    have hmem : topic ∈ topics.filter s.wants := by
      simp only [List.mem_filter]
      exact ⟨by simpa [Send.names] using hnames, hwants⟩
    have hne : (topics.filter s.wants).isEmpty = false := by
      cases hlist : topics.filter s.wants with
      | nil => simp [hlist] at hmem
      | cons t ts => rfl
    simp only [doSend, hne, sendSubscribe]
    simp [named, hmem]
  | retry generation ref topics recover => simp [Send.names] at hnames

theorem named_quiet (h : Quiet s s')
    (hnamed : named topic s.wire = true) : named topic s'.wire = true := by
  cases h.wire with
  | inl heq => rw [heq, hnamed]
  | inr hex =>
    obtain ⟨topics, heq⟩ := hex
    simp [heq, named, hnamed]

theorem requested_quiet (h : Quiet s s') : requested s'.wire = requested s.wire := by
  cases h.wire with
  | inl heq => rw [heq]
  | inr hex =>
    obtain ⟨topics, heq⟩ := hex
    simp [heq, requested]

/-! ## the window -/

/-- A waiting send has a request before it; and a request made with nothing waiting
reported nothing. -/
structure Window (s : State) : Prop where
  waiting : s.isOpen = true → s.flowQueue ≠ [] → requested s.wire = true
  reported : s.flowQueue = [] → s.flowReplenishSent = true → s.flowReportedQueue = 0

/-- A wanted topic is asked for, or its first subscribe waits. -/
def State.covers (s : State) (topic : String) : Prop :=
  named topic s.wire = true ∨ topic ∈ s.pendingSubscribes.getD [] ∨
    ∃ send ∈ s.flowQueue, send.names topic = true

/-- What a flow-controlled send may add. -/
structure Grown (s s' : State) : Prop extends Frame s s' where
  queue : ∀ send ∈ s.flowQueue, send ∈ s'.flowQueue
  named : ∀ topic, named topic s.wire = true → BunServe.Topics.named topic s'.wire = true

theorem Grown.refl (s : State) : Grown s s := ⟨.refl s, fun _ h => h, fun _ h => h⟩

theorem Grown.trans {t u : State} (h : Grown s t) (h' : Grown t u) : Grown s u :=
  ⟨h.toFrame.trans h'.toFrame, fun q hq => h'.queue q (h.queue q hq),
    fun t ht => h'.named t (h.named t ht)⟩

theorem Quiet.grown (h : Quiet s s') : Grown s s' :=
  ⟨h.toFrame, fun q hq => by rwa [h.queue], fun _ ht => named_quiet h ht⟩

theorem Grown.covers (h : Grown s s') (hc : s.covers topic) : s'.covers topic := by
  rcases hc with hnamed | hpending | ⟨q, hq, hnames⟩
  · exact .inl (h.named topic hnamed)
  · exact .inr (.inl (by rwa [h.pending]))
  · exact .inr (.inr ⟨q, h.queue q hq, hnames⟩)

/-- A request at most: its frame, the latch and the depth it reports. -/
def Asks (s s' : State) : Prop :=
  ∃ sent n wire, s' = { s with flowReplenishSent := sent, flowReportedQueue := n, wire } ∧
    (wire = s.wire ∨ ∃ queued, wire = .request queued :: s.wire)

theorem Asks.grown (h : Asks s s') : Grown s s' := by
  obtain ⟨sent, n, wire, rfl, rfl | ⟨queued, rfl⟩⟩ := h
  · exact ⟨.same rfl, fun _ hq => hq, fun _ ht => ht⟩
  · exact ⟨.same rfl, fun _ hq => hq, fun _ ht => ht⟩

theorem maybeReplenish_asks (s : State) : Asks s (maybeReplenish s) := by
  simp only [maybeReplenish]
  split
  · exact ⟨_, _, _, rfl, .inl rfl⟩
  split
  · split
    · exact ⟨_, _, _, rfl, .inr ⟨_, rfl⟩⟩
    · exact ⟨_, _, _, rfl, .inl rfl⟩
  · exact ⟨_, _, _, rfl, .inl rfl⟩

theorem reportDeeperBacklog_asks (s : State) : Asks s (reportDeeperBacklog s) := by
  simp only [reportDeeperBacklog]
  split
  · exact ⟨_, _, _, rfl, .inl rfl⟩
  split
  · exact ⟨_, _, _, rfl, .inl rfl⟩
  split
  · exact ⟨_, _, _, rfl, .inr ⟨_, rfl⟩⟩
  · exact ⟨_, _, _, rfl, .inl rfl⟩

theorem Asks.queue (h : Asks s s') : s'.flowQueue = s.flowQueue := by
  obtain ⟨sent, n, wire, rfl, -⟩ := h
  rfl

theorem window_maybeReplenish (h : Window s) (hopen : s.isOpen = true) :
    Window (maybeReplenish s) := by
  simp only [maybeReplenish]
  split
  · exact h
  · split
    · split
      · exact ⟨fun _ _ => rfl, fun hqueue _ => by simpa [sendRequest] using hqueue⟩
      · next hclosed => exact absurd hopen hclosed
    · exact h

theorem requested_maybeReplenish (hopen : s.isOpen = true)
    (hactive : s.flowActive = true) (hlatch : s.flowReplenishSent = false)
    (hqueue : s.flowQueue ≠ []) : requested (maybeReplenish s).wire = true := by
  have hopen' : State.isOpen { s with flowReplenishSent := true } = true := hopen
  have hcond : (decide (s.flowQueue.length > 0) || !s.flowFresh ||
      decide (s.flowAvail ≤ FLOW_LOW_WATER)) = true := by
    simp [List.length_pos_iff.mpr hqueue]
  simp only [maybeReplenish]
  rw [if_neg (by simp [hactive, hlatch]), if_pos hcond, if_pos hopen']
  rfl

theorem requested_reportDeeperBacklog (hopen : s.isOpen = true)
    (hqueue : s.flowQueue ≠ []) (hzero : s.flowReportedQueue = 0) :
    requested (reportDeeperBacklog s).wire = true := by
  have hopen' : State.isOpen { s with flowReportedQueue := s.flowQueue.length } = true := hopen
  simp only [reportDeeperBacklog]
  rw [if_neg (by simpa using hqueue), if_neg (by simp [hzero]), if_pos hopen']
  rfl

theorem window_push (h : Window s) (hopen : s.isOpen = true)
    (hactive : s.flowActive = true) (send : Send) :
    Window (reportDeeperBacklog (maybeReplenish { s with flowQueue := s.flowQueue ++ [send] })) := by
  let t : State := { s with flowQueue := s.flowQueue ++ [send] }
  have hne : t.flowQueue ≠ [] := by simp [t]
  have hqueue : (reportDeeperBacklog (maybeReplenish t)).flowQueue = t.flowQueue := by
    rw [(reportDeeperBacklog_asks _).queue, (maybeReplenish_asks _).queue]
  have hkeep : ∀ u : State, requested u.wire = true →
      requested (reportDeeperBacklog u).wire = true := by
    intro u hu
    obtain ⟨_, _, _, heq, rfl | ⟨queued, rfl⟩⟩ := reportDeeperBacklog_asks u
    · rw [heq]
      exact hu
    · rw [heq]
      rfl
  refine ⟨fun _ _ => ?_, fun hnil => absurd (hqueue.symm.trans hnil) hne⟩
  by_cases hlatch : s.flowReplenishSent = true
  · have hsame : maybeReplenish t = t := by simp [maybeReplenish, t, hlatch]
    rw [hsame]
    by_cases hempty : s.flowQueue = []
    · -- the latch was set with nothing waiting, so the backlog report asks
      exact requested_reportDeeperBacklog hopen hne (h.reported hempty hlatch)
    · exact hkeep t (h.waiting hopen hempty)
  · -- the latch is open, so the replenish asks
    have hlatch' : t.flowReplenishSent = false := by simpa using hlatch
    exact hkeep _ (requested_maybeReplenish hopen hactive hlatch' hne)

theorem window_quiet (h : Window s) (hq : Quiet s s') : Window s' := by
  refine ⟨fun hopen hne => ?_, fun hnil hlatch => ?_⟩
  · rw [hq.queue] at hne
    rw [hq.isOpen] at hopen
    rw [requested_quiet hq]
    exact h.waiting hopen hne
  · rw [hq.queue] at hnil
    rw [hq.latch] at hlatch
    rw [hq.reported]
    exact h.reported hnil hlatch

theorem window_flowSend (h : Window s) (hopen : s.isOpen = true) (send : Send) :
    Window (flowSend s send) := by
  unfold flowSend
  split
  · exact window_quiet h (doSend_quiet s send)
  rename_i hactive
  have hactive' : s.flowActive = true := by simpa using hactive
  split
  · have hless : Window { s with flowAvail := s.flowAvail - 1 } := ⟨h.waiting, h.reported⟩
    have hq := doSend_quiet { s with flowAvail := s.flowAvail - 1 } send
    refine window_maybeReplenish (window_quiet hless hq) ?_
    rw [hq.isOpen]
    exact hopen
  · split
    · exact window_push h hopen hactive' send
    · exact h

theorem flowSend_grown (s : State) (send : Send) : Grown s (flowSend s send) := by
  unfold flowSend
  split
  · exact (doSend_quiet s send).grown
  split
  · have hless : Grown s { s with flowAvail := s.flowAvail - 1 } :=
      ⟨.same rfl, fun _ hq => hq, fun _ ht => ht⟩
    exact hless.trans ((doSend_quiet _ send).grown.trans (maybeReplenish_asks _).grown)
  · split
    · have hmore : Grown s { s with flowQueue := s.flowQueue ++ [send] } :=
        ⟨.same rfl, fun q hq => List.mem_append_left _ hq, fun _ ht => ht⟩
      exact hmore.trans ((maybeReplenish_asks _).grown.trans (reportDeeperBacklog_asks _).grown)
    · exact .refl s

/-! ## room for the sends of a flush -/

/-- Whether so many sends find a permit or a place in the queue. -/
def State.room (s : State) (n : Nat) : Bool :=
  !s.flowActive || decide (n ≤ (if s.flowFresh then s.flowAvail.toNat else 0) +
    (FLOW_MAX_QUEUE - s.flowQueue.length))

theorem Asks.avail (h : Asks s s') : s'.flowAvail = s.flowAvail := by
  obtain ⟨sent, n, wire, rfl, -⟩ := h
  rfl

theorem room_flowSend {n : Nat} (h : s.room (n + 1) = true) (send : Send) :
    (flowSend s send).room n = true := by
  have hframe := (flowSend_grown s send).toFrame
  cases hactive : s.flowActive with
  | false => simp [State.room, hframe.active, hactive]
  | true =>
    have hroom : n + 1 ≤ (if s.flowFresh then s.flowAvail.toNat else 0) +
        (FLOW_MAX_QUEUE - s.flowQueue.length) := by
      simpa [State.room, hactive] using h
    suffices hgoal : n ≤ (if (flowSend s send).flowFresh then (flowSend s send).flowAvail.toNat
        else 0) + (FLOW_MAX_QUEUE - (flowSend s send).flowQueue.length) by
      simp only [State.room, hgoal, decide_true, Bool.or_true]
    have hfresh' : (flowSend s send).flowFresh =
        (decide ((flowSend s send).flowAvail > 0) && decide (s.clock < s.flowExpiresAt)) := by
      simp only [State.flowFresh, hframe.clock, hframe.expiresAt]
    by_cases hfresh : s.flowFresh = true
    · have hboth : s.flowAvail > 0 ∧ s.clock < s.flowExpiresAt := by
        simpa [State.flowFresh] using hfresh
      have hsend : flowSend s send =
          maybeReplenish (doSend { s with flowAvail := s.flowAvail - 1 } send) := by
        simp [flowSend, hactive, hfresh]
      have hq := doSend_quiet { s with flowAvail := s.flowAvail - 1 } send
      have havail : (flowSend s send).flowAvail = s.flowAvail - 1 := by
        rw [hsend, (maybeReplenish_asks _).avail, hq.avail]
      have hqueue : (flowSend s send).flowQueue = s.flowQueue := by
        rw [hsend, (maybeReplenish_asks _).queue, hq.queue]
      rw [hfresh', hqueue, havail]
      simp only [hfresh, if_true] at hroom
      by_cases hlast : s.flowAvail - 1 > 0
      · simp only [hlast, hboth.2, decide_true, Bool.and_self, if_true]
        omega
      · omega
    · have hlt : s.flowQueue.length < FLOW_MAX_QUEUE := by
        simp only [hfresh, Bool.false_eq_true, if_false] at hroom
        omega
      have hsend : flowSend s send = reportDeeperBacklog
          (maybeReplenish { s with flowQueue := s.flowQueue ++ [send] }) := by
        simp [flowSend, hactive, hfresh, hlt]
      have hqueue : (flowSend s send).flowQueue = s.flowQueue ++ [send] := by
        rw [hsend, (reportDeeperBacklog_asks _).queue, (maybeReplenish_asks _).queue]
      rw [hqueue, List.length_append]
      simp only [hfresh, Bool.false_eq_true, if_false] at hroom
      simp only [List.length_cons, List.length_nil]
      omega

theorem covers_flowSend {n : Nat} (h : s.room (n + 1) = true) {send : Send}
    (hnames : send.names topic = true) (hwants : s.wants topic = true) :
    (flowSend s send).covers topic := by
  unfold flowSend
  split
  · exact .inl (named_doSend hnames hwants)
  rename_i hactive
  split
  · have hwants' : State.wants { s with flowAvail := s.flowAvail - 1 } topic = true := hwants
    exact .inl ((maybeReplenish_asks _).grown.named topic (named_doSend hnames hwants'))
  rename_i hfresh
  split
  · refine .inr (.inr ⟨send, ?_, hnames⟩)
    rw [(reportDeeperBacklog_asks _).queue, (maybeReplenish_asks _).queue]
    simp
  · next hfull =>
    simp only [State.room, hactive, hfresh] at h
    simp at h
    omega

theorem flush_batches {chunks : List (List String)}
    (hroom : s.room chunks.length = true) (hopen : s.isOpen = true) (hw : Window s) :
    Grown s (chunks.foldl (fun s chunk => flowSend s (.batch chunk)) s) ∧
      Window (chunks.foldl (fun s chunk => flowSend s (.batch chunk)) s) ∧
      ∀ chunk ∈ chunks, ∀ topic ∈ chunk, s.wants topic = true →
        (chunks.foldl (fun s chunk => flowSend s (.batch chunk)) s).covers topic := by
  induction chunks generalizing s with
  | nil => exact ⟨.refl s, hw, fun _ hmem => absurd hmem (List.not_mem_nil)⟩
  | cons chunk chunks ih =>
    have hgrown := flowSend_grown s (.batch chunk)
    obtain ⟨hrest, hwindow, hcovers⟩ := ih (room_flowSend hroom (.batch chunk))
      (by rw [hgrown.toFrame.isOpen, hopen]) (window_flowSend hw hopen (.batch chunk))
    refine ⟨hgrown.trans hrest, hwindow, fun chunk' hmem topic htopic hwants => ?_⟩
    cases List.mem_cons.mp hmem with
    | inl heq =>
      have hnames : Send.names topic (.batch chunk) = true := by
        simpa [Send.names, ← heq] using htopic
      exact hrest.covers (covers_flowSend hroom hnames hwants)
    | inr hmem => exact hcovers chunk' hmem topic htopic (by rw [hgrown.toFrame.wants, hwants])

/-- The number of sends of a flush. -/
def flushes (z : Sizes) (s : State) : Nat :=
  match s.pendingSubscribes.getD [] with
  | [_] => 1
  | batch => (chunkTopicsForBatch z batch).length

/-! ## the invariant -/

structure Inv (s : State) : Prop extends Window s where
  topics : s.phase = .opened → ∀ topic ∈ s.subscribedTopics, topic ∉ s.managedTopics → s.covers topic

/-- What the invariant reads. -/
def view (s : State) :=
  (s.phase, s.subscribedTopics, s.managedTopics, s.pendingSubscribes, s.flowQueue,
    s.flowReplenishSent, s.flowReportedQueue, s.wire)

theorem Inv.of_same (h : Inv s) (hsame : view s' = view s) : Inv s' := by
  simp only [view, Prod.mk.injEq] at hsame
  obtain ⟨hphase, hsub, hmanaged, hpending, hqueue, hlatch, hreported, hwire⟩ := hsame
  refine ⟨⟨?_, ?_⟩, ?_⟩
  · simp only [State.isOpen, hphase, hqueue, hwire]
    exact h.waiting
  · rw [hqueue, hlatch, hreported]
    exact h.reported
  · unfold State.covers
    rw [hphase, hsub, hmanaged, hpending, hqueue, hwire]
    exact h.topics

theorem Inv.of_closed (h : Inv s) (hphase : s'.isOpen = false)
    (hqueue : s'.flowQueue = s.flowQueue) (hlatch : s'.flowReplenishSent = s.flowReplenishSent)
    (hreported : s'.flowReportedQueue = s.flowReportedQueue) : Inv s' := by
  refine ⟨⟨fun hopen => ?_, ?_⟩, fun hopened => ?_⟩
  · rw [hphase] at hopen
    contradiction
  · rw [hqueue, hlatch, hreported]
    exact h.reported
  · simp [State.isOpen, hopened] at hphase

theorem inv_grown (h : Inv s) (hgrown : Grown s s') (hw : Window s') : Inv s' := by
  refine ⟨hw, fun hopened topic hmem hmanaged => hgrown.covers ?_⟩
  rw [hgrown.phase] at hopened
  rw [hgrown.subscribed] at hmem
  rw [hgrown.managed] at hmanaged
  exact h.topics hopened topic hmem hmanaged

theorem wants_iff : s.wants topic = true ↔ topic ∈ s.subscribedTopics ∧ topic ∉ s.managedTopics := by
  simp [State.wants]

theorem inv_flush (h : Inv s) (hroom : s.room (flushes z s) = true) :
    Inv (flushPendingSubscribes z s) := by
  let t : State := { s with pendingSubscribes := none }
  have hw : Window t := ⟨h.waiting, h.reported⟩
  -- a topic of the batch is not covered by the batch any more
  have hkeep : ∀ {u : State}, Grown t u → Window u → (∀ topic ∈ s.pendingSubscribes.getD [],
      s.wants topic = true → u.covers topic) → Inv u := by
    intro u hgrown hwindow hbatch
    refine ⟨hwindow, fun hopened topic hmem hmanaged => ?_⟩
    rw [hgrown.phase] at hopened
    rw [hgrown.subscribed] at hmem
    rw [hgrown.managed] at hmanaged
    rcases h.topics hopened topic hmem hmanaged with hnamed | hpending | hqueue
    · exact .inl (hgrown.named topic hnamed)
    · exact hbatch topic hpending (wants_iff.mpr ⟨hmem, hmanaged⟩)
    · obtain ⟨q, hq, hnames⟩ := hqueue
      exact .inr (.inr ⟨q, hgrown.queue q hq, hnames⟩)
  simp only [flushPendingSubscribes]
  split
  · next hcond =>
    by_cases hopen : s.isOpen = true
    · refine hkeep (.refl t) hw fun topic hmem _ => ?_
      have hopen' : t.isOpen = true := hopen
      have hempty : s.pendingSubscribes.getD [] = [] := by simpa [t, hopen'] using hcond
      rw [hempty] at hmem
      contradiction
    · exact h.of_closed (by simpa [State.isOpen] using hopen) rfl rfl rfl
  · next hcond =>
    have hopen : t.isOpen = true := by
      have hboth : ¬ (s.pendingSubscribes.getD [] = [] ∨ t.isOpen = false) := by
        simpa using hcond
      cases hopen : t.isOpen with
      | true => rfl
      | false => exact absurd (.inr hopen) hboth
    split
    · next topic hbatch =>
      have hone : t.room (0 + 1) = true := by
        have : flushes z s = 1 := by simp [flushes, hbatch]
        rw [this] at hroom
        exact hroom
      refine hkeep (flowSend_grown t _) (window_flowSend hw hopen _) fun topic' hmem hwants => ?_
      rw [hbatch] at hmem
      obtain rfl : topic' = topic := by simpa using hmem
      exact covers_flowSend hone (by simp [Send.names]) hwants
    · next batch hbatch =>
      have hmany : t.room (chunkTopicsForBatch z (s.pendingSubscribes.getD [])).length = true := by
        have : flushes z s = (chunkTopicsForBatch z (s.pendingSubscribes.getD [])).length := by
          unfold flushes
          split
          · next topic heq => exact absurd heq (hbatch topic)
          · rfl
        rw [this] at hroom
        exact hroom
      obtain ⟨hgrown, hwindow, hcovers⟩ := flush_batches hmany hopen hw
      refine hkeep hgrown hwindow fun topic hmem hwants => ?_
      obtain ⟨chunk, hchunk, htopic⟩ := mem_chunkTopicsForBatch hmem
      exact hcovers chunk hchunk topic htopic hwants

/-! ## the other steps -/

theorem inv_subscribe (h : Inv s) (topic : String) : Inv (subscribe s topic) := by
  have hrefs : ∀ refs, Inv { s with topicRefCounts := refs } :=
    fun _ => h.of_same rfl
  simp only [subscribe]
  split
  · exact hrefs _
  split
  · exact hrefs _
  split
  · refine ⟨⟨h.waiting, h.reported⟩, fun hopened topic' hmem hmanaged => ?_⟩
    by_cases heq : topic' = topic
    · exact .inr (.inl (by simp [heq]))
    have hmem' : topic' ∈ s.subscribedTopics := by
      have hin : topic' ∈ addTopic s.subscribedTopics topic := hmem
      unfold addTopic at hin
      split at hin
      · exact hin
      · simpa [heq] using hin
    rcases h.topics hopened topic' hmem' hmanaged with hnamed | hpending | hqueue
    · exact .inl hnamed
    · exact .inr (.inl (by simp [hpending]))
    · exact .inr (.inr hqueue)
  · next hclosed =>
    refine ⟨⟨h.waiting, h.reported⟩, fun hopened => ?_⟩
    have hopened' : s.phase = .opened := hopened
    simp [State.isOpen, hopened'] at hclosed

theorem inv_doUnsubscribe (h : Inv s) (topic : String) : Inv (doUnsubscribe s topic) := by
  -- a topic that is still wanted is another one
  have hother : ∀ topic', topic' ∈ s.subscribedTopics.filter (· ≠ topic) →
      topic' ∉ s.managedTopics.filter (· ≠ topic) →
      topic' ≠ topic ∧ topic' ∈ s.subscribedTopics ∧ topic' ∉ s.managedTopics := by
    intro topic' hmem hmanaged
    have hne : topic' ∈ s.subscribedTopics ∧ topic' ≠ topic := by simpa using hmem
    exact ⟨hne.2, hne.1, fun hin => hmanaged (by simp [hin, hne.2])⟩
  simp only [doUnsubscribe]
  split
  · refine ⟨⟨h.waiting, h.reported⟩, fun hopened topic' hmem hmanaged => ?_⟩
    obtain ⟨-, hmem', hmanaged'⟩ := hother topic' hmem hmanaged
    exact h.topics hopened topic' hmem' hmanaged'
  · split
    · refine ⟨⟨fun hopen hne => ?_, h.reported⟩, fun hopened topic' hmem hmanaged => ?_⟩
      · have hreq := h.waiting hopen hne
        exact hreq
      · obtain ⟨hne, hmem', hmanaged'⟩ := hother topic' hmem hmanaged
        rcases h.topics hopened topic' hmem' hmanaged' with hnamed | hpending | hqueue
        · exact .inl (by simp [named, hnamed, Ne.symm hne])
        · exact .inr (.inl hpending)
        · exact .inr (.inr hqueue)
    · refine ⟨⟨h.waiting, h.reported⟩, fun hopened topic' hmem hmanaged => ?_⟩
      obtain ⟨-, hmem', hmanaged'⟩ := hother topic' hmem hmanaged
      exact h.topics hopened topic' hmem' hmanaged'

theorem inv_release (h : Inv s) (topic : String) : Inv (release s topic) := by
  simp only [release]
  split
  · apply inv_doUnsubscribe
    exact h.of_same rfl
  · exact h.of_same rfl

theorem inv_setTopicManaged (h : Inv s) (topic : String) : Inv (setTopicManaged s topic) := by
  refine ⟨⟨h.waiting, h.reported⟩, fun hopened topic' hmem hmanaged => ?_⟩
  have hmanaged' : topic' ∉ s.managedTopics := fun hin => hmanaged (List.mem_cons_of_mem _ hin)
  exact h.topics hopened topic' hmem hmanaged'

theorem inv_retries (h : Inv s) (hopen : s.isOpen = true)
    (chunks : List (List String × List (String × Offer))) : Inv (chunks.foldl sendRetry s) := by
  induction chunks generalizing s with
  | nil => exact h
  | cons c chunks ih =>
    let t : State := { s with
      nextSubscribeRef := s.nextSubscribeRef + 1
      pendingRetryRefs := c.1.foldl (fun refs t => refs.set t s.nextSubscribeRef) s.pendingRetryRefs }
    have ht : Inv t := h.of_same rfl
    have hgrown := flowSend_grown t (.retry s.connectionGeneration s.nextSubscribeRef c.1 c.2)
    have hnext := inv_grown ht hgrown (window_flowSend ht.toWindow hopen _)
    exact ih hnext (hgrown.toFrame.isOpen.trans hopen)

theorem inv_timer (h : Inv s) : Inv (flushRateLimitedRetries z s) := by
  simp only [flushRateLimitedRetries]
  split
  · exact h.of_same rfl
  rename_i hcond
  have hopen : s.isOpen = true := by
    cases hopen : s.isOpen with
    | true => rfl
    | false => exact absurd (by simp at hopen ⊢; tauto) hcond
  apply inv_retries
  · exact h.of_same rfl
  · exact hopen

theorem inv_retry (h : Inv s) (topic : String) : Inv (retryRateLimitedSubscribe s topic) := by
  simp only [retryRateLimitedSubscribe]
  split
  · exact h
  · split
    · exact h.of_same rfl
    · split
      · exact h.of_same rfl
      · exact h.of_same rfl

theorem resubscribe_quiet (s : State) (c : List String × List (String × Offer)) :
    Quiet s (resubscribe s c) :=
  { sendRecoveryFrame_quiet { s with nextSubscribeRef := s.nextSubscribeRef + 1 }
      s.nextSubscribeRef c.1 c.2 with }

theorem resubscribe_names (hopen : s.isOpen = true)
    (c : List String × List (String × Offer)) (hmem : topic ∈ c.1) :
    named topic (resubscribe s c).wire = true := by
  have hopen' : State.isOpen { s with nextSubscribeRef := s.nextSubscribeRef + 1 } = true := hopen
  simp only [resubscribe, sendRecoveryFrame]
  rw [if_pos hopen']
  simp [named, hmem]

theorem resubscribe_all (hopen : s.isOpen = true) (hw : Window s)
    (chunks : List (List String × List (String × Offer))) :
    Grown s (chunks.foldl resubscribe s) ∧ Window (chunks.foldl resubscribe s) ∧
      ∀ c ∈ chunks, ∀ topic ∈ c.1, named topic (chunks.foldl resubscribe s).wire = true := by
  induction chunks generalizing s with
  | nil => exact ⟨.refl s, hw, fun _ hmem => absurd hmem (List.not_mem_nil)⟩
  | cons c chunks ih =>
    have hq := resubscribe_quiet s c
    obtain ⟨hgrown, hwindow, hnames⟩ := ih (hq.toFrame.isOpen.trans hopen) (window_quiet hw hq)
    refine ⟨hq.grown.trans hgrown, hwindow, fun c' hmem topic htopic => ?_⟩
    cases List.mem_cons.mp hmem with
    | inl heq => exact hgrown.named topic (resubscribe_names hopen c (heq ▸ htopic))
    | inr hmem => exact hnames c' hmem topic htopic

theorem inv_onopen (h : Inv s) (hphase : s.phase = .opening) : Inv (onopen z s) := by
  have hopen : s.isOpen = true := by simp [State.isOpen, hphase]
  obtain ⟨hgrown, hwindow, hnames⟩ :=
    resubscribe_all hopen h.toWindow (chunkResubscribe z s s.subscribedTopics)
  refine ⟨⟨fun _ hne => ?_, hwindow.reported⟩, fun _ topic hmem hmanaged => ?_⟩
  · exact hwindow.waiting (hgrown.toFrame.isOpen.trans hopen) hne
  · have hmem' : topic ∈ s.subscribedTopics := by rwa [← hgrown.subscribed]
    have hmanaged' : topic ∉ s.managedTopics := by rwa [← hgrown.managed]
    obtain ⟨c, hc, htopic⟩ := mem_chunkResubscribe hmem' hmanaged'
    exact .inl (hnames c hc topic htopic)

theorem drain_all {queue : List Send} (havail : (queue.length : Int) ≤ s.flowAvail) :
    Frame s (drain s queue) ∧ (drain s queue).flowQueue = [] ∧
      (drain s queue).flowReplenishSent = s.flowReplenishSent ∧
      (∀ topic, named topic s.wire = true → named topic (drain s queue).wire = true) ∧
      ∀ send ∈ queue, ∀ topic, send.names topic = true → s.wants topic = true →
        named topic (drain s queue).wire = true := by
  induction queue generalizing s with
  | nil =>
    exact ⟨.same rfl, rfl, rfl, fun _ h => h,
      fun _ hmem => absurd hmem (List.not_mem_nil)⟩
  | cons send rest ih =>
    have hpos : s.flowAvail > 0 := by
      simp only [List.length_cons] at havail
      omega
    let t : State := { s with flowQueue := rest, flowAvail := s.flowAvail - 1 }
    have hq := doSend_quiet t send
    have hframe : Frame s t := .same rfl
    have hless : (rest.length : Int) ≤ (doSend t send).flowAvail := by
      rw [hq.avail]
      simp only [List.length_cons] at havail
      show (rest.length : Int) ≤ s.flowAvail - 1
      omega
    obtain ⟨hrest, hempty, hlatch, hold, hnames⟩ := ih hless
    have hstep : drain s (send :: rest) = drain (doSend t send) rest := by simp [drain, hpos, t]
    rw [hstep]
    refine ⟨hframe.trans (hq.toFrame.trans hrest), hempty, hlatch.trans hq.latch,
      fun topic ht => hold topic (named_quiet hq ht), fun send' hmem topic hin hwants => ?_⟩
    cases List.mem_cons.mp hmem with
    | inl heq =>
      have hwants' : t.wants topic = true := hwants
      exact hold topic (named_doSend (heq ▸ hin) hwants')
    | inr hmem =>
      refine hnames send' hmem topic hin ?_
      rw [hq.toFrame.wants]
      exact hwants

theorem inv_lease (h : Inv s) (hopened : s.phase = .opened) (count ttlMs : Int)
    (hcount : (s.flowQueue.length : Int) ≤ count) : Inv (applyFlowWindow s count ttlMs) := by
  let t : State := { s with
    flowActive := true
    flowExpiresAt := s.clock + ttlMs
    flowAvail := count
    flowReplenishSent := false
    wire := .window :: s.wire }
  have havail : (s.flowQueue.length : Int) ≤ t.flowAvail := hcount
  obtain ⟨hframe, hempty, hlatch, hold, hnames⟩ := drain_all havail
  show Inv (drain t s.flowQueue)
  refine ⟨⟨fun _ hne => absurd hempty hne, fun _ hsent => ?_⟩, fun _ topic hmem hmanaged => ?_⟩
  · rw [hlatch] at hsent
    simp at hsent
  have hmem' : topic ∈ s.subscribedTopics := by
    have heq := hframe.subscribed
    rwa [heq] at hmem
  have hmanaged' : topic ∉ s.managedTopics := by
    have heq := hframe.managed
    rwa [heq] at hmanaged
  rcases h.topics hopened topic hmem' hmanaged' with hnamed | hpending | hqueue
  · exact .inl (hold topic hnamed)
  · exact .inr (.inl (by rw [hframe.pending]; exact hpending))
  · obtain ⟨send, hin, hsend⟩ := hqueue
    exact .inl (hnames send hin topic hsend (wants_iff.mpr ⟨hmem', hmanaged'⟩))

theorem inv_finishRecovery (h : Inv s) (topic : String) (ref : Option Nat)
    (accepted : Bool) : Inv (finishRecovery s topic ref accepted) := by
  simp only [finishRecovery]
  split
  · exact h.of_same rfl
  split
  · exact h.of_same rfl
  · split
    · split
      · exact h.of_same rfl
      · split
        · exact h.of_same rfl
        · exact h.of_same rfl
    · exact h.of_same rfl

theorem inv_dispatchEvent (h : Inv s) (msg : Msg) : Inv (dispatchEvent s msg) := by
  simp only [dispatchEvent]
  split
  · split
    · exact h.of_same rfl
    · exact h.of_same rfl
  · split
    · exact h
    · exact h.of_same rfl

/-! ## every run -/

/-- Whether a step leaves no send behind: a flush has room for its sends, a window has a
permit for each waiting send, and no socket opens while sends wait. -/
def calm (z : Sizes) (s : State) : Action → Bool
  | .flush => s.room (flushes z s)
  | .lease count _ => decide ((s.flowQueue.length : Int) ≤ count)
  | .openedSocket => s.flowQueue.isEmpty
  | _ => true

theorem inv_init : Inv .init := by
  refine ⟨⟨?_, ?_⟩, ?_⟩
  all_goals simp [State.init]

theorem inv_receive (h : Inv s) (hopened : s.phase = .opened)
    {a : Action} (hok : calm z s a = true) (hnext : receive s a = some s') : Inv s' := by
  cases a with
  | dispatchEvent msg =>
    cases hnext
    exact inv_dispatchEvent h msg
  | leaseOk =>
    cases hnext
    exact h.of_same rfl
  | lease count ttlMs =>
    cases hnext
    exact inv_lease h hopened count ttlMs (by simpa [calm] using hok)
  | subscribed topic ref epoch =>
    cases hnext
    exact (inv_finishRecovery h topic ref true).of_same rfl
  | denied topic reason ref =>
    cases hnext
    have hinv := inv_finishRecovery h topic ref false
    split
    · exact hinv.of_same rfl
    · exact hinv
  | _ => cases hnext

theorem inv_next (h : Inv s) {a : Action} (hok : calm z s a = true)
    (hnext : next z s a = some s') : Inv s' := by
  have hreceive : (if s.phase = .opened then receive s a else none) = some s' → Inv s' := by
    intro hif
    obtain ⟨hopened, hif⟩ := Option.ite_none_right_eq_some.mp hif
    exact inv_receive h hopened hok hif
  cases a with
  | subscribe topic =>
    cases hnext
    exact inv_subscribe h topic
  | release topic =>
    cases hnext
    exact inv_release h topic
  | unsubscribe topic =>
    cases hnext
    apply inv_doUnsubscribe
    exact h.of_same rfl
  | setTopicManaged topic =>
    cases hnext
    exact inv_setTopicManaged h topic
  | goOffline =>
    cases hnext
    exact h.of_closed rfl rfl rfl rfl
  | tick clock =>
    cases hnext
    exact h.of_same rfl
  | flush =>
    obtain ⟨-, rfl⟩ := by simpa [next] using hnext
    exact inv_flush h hok
  | timer =>
    simp only [next] at hnext
    split at hnext
    · contradiction
    obtain ⟨-, hnext⟩ := Option.ite_none_left_eq_some.mp hnext
    split at hnext
    · cases hnext
      exact inv_timer h
    · cases hnext
      exact h
  | retry topic =>
    obtain ⟨-, rfl⟩ := by simpa [next] using hnext
    apply inv_retry
    exact h.of_same rfl
  | doConnect =>
    obtain ⟨-, rfl⟩ := by simpa [next] using hnext
    simp only [doConnect]
    split
    · exact h.of_closed rfl rfl rfl rfl
    · exact h.of_closed rfl rfl rfl rfl
  | openSocket | closingSocket =>
    obtain ⟨-, rfl⟩ := by simpa [next] using hnext
    exact h.of_closed rfl rfl rfl rfl
  | openedSocket =>
    obtain ⟨-, rfl⟩ := by simpa [next] using hnext
    have hempty : s.flowQueue = [] := by simpa [calm] using hok
    refine ⟨⟨fun _ hne => absurd hempty hne, h.reported⟩, fun hopened => ?_⟩
    simp at hopened
  | onopen =>
    obtain ⟨hphase, rfl⟩ := by simpa [next] using hnext
    exact inv_onopen h hphase
  | onclose =>
    obtain ⟨-, rfl⟩ := by simpa [next] using hnext
    exact h.of_closed rfl rfl rfl rfl
  | _ => exact hreceive hnext

/-- **No subscribe is lost**, in every run whose flushes have room, whose windows have a
permit for each waiting send, and whose sockets open with none waiting. -/
theorem subscribed (z : Sizes) {as : List Action} {s : State}
    (h : (machine z).Runs (fun s a => calm z s a = true) as s) : Subscribed s := by
  have hinv : Inv s := Runs.invariant inv_init
    (fun _ _ _ hinv hok hnext => inv_next hinv hok hnext) h
  refine ⟨fun hopened topic hmem hmanaged => ?_, fun hopened hne => ?_⟩
  · rcases hinv.topics hopened topic hmem hmanaged with hnamed | hpending | ⟨send, hin, hnames⟩
    · exact .inl hnamed
    · exact .inr (.inl hpending)
    · refine .inr (.inr (.inl ⟨send, hin, ?_⟩))
      cases send with
      | subscribe topic' | batch topics => exact hnames
      | retry generation ref topics recover => simp [Send.names] at hnames
  · exact .inr (hinv.waiting (by simp [State.isOpen, hopened]) hne)

/-- Sizes that fit every chunk. -/
def small : Sizes where
  topic := fun _ => 1
  offer := fun _ _ => 1

/-- A topic waits for its permit, and gets it with the next window. -/
theorem subscribed_parked : ∃ as s, (machine small).Runs (fun s a => calm small s a = true) as s ∧
    Subscribed s ∧ s.phase = .opened ∧ s.subscribedTopics = ["a", "b"] ∧
      s.flowQueue = [.subscribe "b"] := by
  obtain ⟨s, hs⟩ : ∃ s, (machine small).execIf (calm small) (machine small).init
      [.doConnect, .openSocket, .openedSocket, .onopen, .leaseOk, .subscribe "a", .flush,
        .lease 1 1000, .subscribe "b", .flush] = some s := ⟨_, rfl⟩
  have hrun := runs_of_execIf (fun _ _ hok => hok) hs
  refine ⟨_, s, hrun, subscribed small hrun, ?_⟩
  cases hs
  decide +kernel

/-- Two topics wait, and the window has a permit for one: the other waits without a permit
and without a request. -/
theorem small_window_starves : ∃ as s, (machine small).Runs Any as s ∧ ¬ Subscribed s ∧
    s.phase = .opened ∧ s.flowQueue = [.subscribe "b"] ∧
      s.wire = [.subscribe ["a"], .window, .request 2, .request 1] := by
  obtain ⟨s, hs⟩ : ∃ s, (machine small).exec (machine small).init
      [.doConnect, .openSocket, .openedSocket, .onopen, .leaseOk, .subscribe "a", .flush,
        .subscribe "b", .flush, .lease 1 1000] = some s := ⟨_, rfl⟩
  have hrun := runs_of_exec hs
  have hseen : (s.phase = .opened ∧ s.flowQueue = [.subscribe "b"] ∧
      s.wire = [.subscribe ["a"], .window, .request 2, .request 1]) ∧ s.flowFresh = false := by
    cases hs
    decide +kernel
  refine ⟨_, s, hrun, fun hsub => ?_, hseen.1⟩
  have hne : s.flowQueue ≠ [] := by simp [hseen.1.2.1]
  cases hsub.window hseen.1.1 hne with
  | inl hfresh => simp [hseen.2] at hfresh
  | inr hreq => simp [hseen.1.2.2, requested] at hreq

end BunServe.Topics
