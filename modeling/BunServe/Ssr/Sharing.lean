import BunServe.Ssr
import BunServe.Lib.Delimited

/-!
# BunServe.Ssr.Sharing

What a request answered from another request's render is answered with.

The leader's decision is taken once its body has been collected, and the
collector ends in the same way when the application closes the body and when
the leader hangs up.  `Tracked` is what every step of a request keeps: the
chunks collected so far are the ones the application produced, and a leader
whose client is gone has an aborted signal.

* `Shared` — what is owed of a shared response;
* `tracked_next` — one request;
* `answered_from_render` — all of them: only matching requests share, and
  only whole bodies are shared;
* `single_flight` — one render of a page at a time.
-/

namespace BunServe.Ssr

open Machine
open Function (update update_of_ne update_self)

/-! ## the statement -/

def Request.Anonymous (r : Request) : Prop := r.method = "GET" ∧ r.isCredentialed = false

/-- Two requests for the same page. -/
structure Matches (cfg : Config) (r r' : Request) : Prop where
  anonymous : r.Anonymous
  anonymous' : r'.Anonymous
  origin : ∃ o, cfg.baseOrigin r = some o ∧ cfg.baseOrigin r' = some o
  target : r.target = r'.target

/-- A response that sets no cookie and varies on nothing but `Accept-Encoding`. -/
structure Shareable (r : Response) : Prop where
  cookie : r.headers.has "set-cookie" = false
  vary : ∀ value, r.headers.get "vary" = some value →
    ∀ t ∈ varyNames value, t = [] ∨ t = "accept-encoding".toList

/-- `bytes` are all that the application produced for the body, which it has
closed. -/
def Whole (s : Readable Chunk) (bytes : Bytes) : Prop :=
  s.state = .closed ∧ ∃ chunks, s.produced.mapM responseChunkBytes = some chunks ∧
    bytes = chunks.flatten

/-- What the render of `e` shared is what the application answered `e`. -/
structure Shared (e : Entry) (s : SharedResponse) : Prop where
  response : ∃ r, e.response = some r ∧ Shareable r ∧
    s.status = r.status ∧ s.statusText = r.statusText ∧ s.headers = r.headers
  whole : Whole e.source s.body
  drained : e.source.queue = []
  cap : s.body.length ≤ maxSsrDedupBody
  uncut : e.cutShort = false

/-- Where a leader still has to decide. -/
def Phase.leads : Phase → Bool
  | .rendering b => b
  | .collecting b _ _ => b
  | .collected b _ _ => b
  | _ => false

/-! ## one request -/

/-- What holds of a request in every phase. -/
structure Base (e : Entry) : Prop where
  received : e.lifetime.bodyReceived = true → e.request.body = true
  exceeded : e.lifetime.bodyLimitExceeded = true → e.request.body = true
  cut : e.cutShort = true → e.lifetime.disconnected = true
  settled : ∀ s b, e.promise = .settled (some s) b → Shared e s

/-- What holds of a leader until it decides. -/
structure Leader (e : Entry) : Prop where
  anonymous : e.request.Anonymous
  body : e.request.body = false
  promise : e.promise = .pending
  finished : e.lifetime.finished = false
  aborted : e.lifetime.disconnected = true → e.lifetime.aborted = true

def Keeps (c : Collector) (s : Readable Chunk) : Prop :=
  ∃ taken, taken.mapM responseChunkBytes = some c.chunks ∧ c.total = c.chunks.flatten.length ∧
    c.total ≤ maxSsrDedupBody ∧ s.state ≠ .cancelled ∧
    match c.result with
    | none => s.Taken taken
    | some (.chunk v) => s.Taken (taken ++ [v])
    | some .done => s.Drained taken
    | some .failed => True

/-- A leader in the collector. -/
structure Collects (e : Entry) (r : Response) (c : Collector) : Prop where
  response : e.response = some r
  shareable : Shareable r
  cap : c.cap = some maxSsrDedupBody
  maxChunks : c.maxChunks = none
  released : c.released = true → e.lifetime.aborted = true ∧ c.result.isSome
  keeps : c.released = false → Keeps c e.source

/-- A leader past the collector. -/
structure Collected (e : Entry) (r : Response) (o : Outcome) : Prop where
  response : e.response = some r
  shareable : Shareable r
  whole : ∀ bytes, o = .complete bytes → e.lifetime.aborted = true ∨
    Whole e.source bytes ∧ e.source.queue = [] ∧ bytes.length ≤ maxSsrDedupBody

/-- What every step of a request keeps. -/
def Tracked (e : Entry) : Prop :=
  Base e ∧
    match e.phase with
    | .rendering true => Leader e ∧ e.source.Taken [] ∧ e.source.state ≠ .cancelled
    | .collecting true r c => Leader e ∧ Collects e r c
    | .collected true r o => Leader e ∧ Collected e r o
    | .rendering false | .waiting _ => e.promise = .absent
    | _ => e.promise ≠ .pending

variable {v : Option SharedResponse}

section Entry

variable {e e' : Entry} {r : Response} {c : Collector} {s : SharedResponse} {bytes : Bytes}

variable {src : Readable Chunk}

theorem Whole.of_drained {taken : List Chunk} {chunks : List Bytes}
    (h : src.Drained taken) (hc : taken.mapM responseChunkBytes = some chunks) :
    Whole src chunks.flatten ∧ src.queue = [] :=
  ⟨⟨h.1, chunks, h.2.2 ▸ hc, rfl⟩, h.2.1⟩

theorem Whole.not_moved {src' : Readable Chunk} (h : Whole src bytes) (hq : src.queue = []) :
    ¬ src.Moved src' := Readable.Drained.not_moved ⟨h.1, hq, rfl⟩

theorem Whole.cancel (h : Whole src bytes) (hq : src.queue = []) :
    src.cancel = src := Readable.Drained.cancel ⟨h.1, hq, rfl⟩

theorem Base.of_eq (h : Base e) (hrequest : e'.request = e.request)
    (hreceived : e'.lifetime.bodyReceived = e.lifetime.bodyReceived)
    (hexceeded : e'.lifetime.bodyLimitExceeded = e.lifetime.bodyLimitExceeded)
    (hcut : e'.cutShort = e.cutShort)
    (hdisconnected : e.lifetime.disconnected = true → e'.lifetime.disconnected = true)
    (hpromise : ∀ s b, e'.promise = .settled (some s) b → e.promise = .settled (some s) b)
    (hresponse : e'.response = e.response)
    (hsource : e'.source = e.source ∨ e'.source = e.source.cancel) : Base e' := by
  refine ⟨by rw [hrequest, hreceived]; exact h.received,
    by rw [hrequest, hexceeded]; exact h.exceeded,
    fun hc => hdisconnected (h.cut (hcut ▸ hc)), fun s b hs => ?_⟩
  have hshared := h.settled s b (hpromise s b hs)
  have hsame : e'.source = e.source := by
    rcases hsource with hsource | hsource
    · exact hsource
    · rw [hsource, hshared.whole.cancel hshared.drained]
  exact ⟨hresponse ▸ hshared.response, hsame ▸ hshared.whole, hsame ▸ hshared.drained, hshared.cap,
    hcut ▸ hshared.uncut⟩

theorem Base.answer (h : Base e) (a : Answer) : Base (e.answer a) :=
  h.of_eq rfl rfl rfl rfl id (fun _ _ => id) rfl (.inl rfl)

theorem Base.reject (h : Base e) : Base (e.resolveShared none) := by
  refine h.of_eq rfl rfl rfl rfl id (fun s b hs => ?_) rfl (.inl rfl)
  simp only [Entry.resolveShared, Promise.resolve] at hs
  split at hs
  · simp at hs
  · exact hs

theorem reject_promise : (e.resolveShared none).promise ≠ .pending := by
  simp only [Entry.resolveShared, Promise.resolve]
  split
  · nofun
  · assumption

theorem tracked_answer (h : Base e) (hp : e.promise ≠ .pending) (a : Answer) :
    Tracked (e.answer a) := ⟨h.answer a, hp⟩

theorem tracked_throws (h : Base e) (hp : e.promise ≠ .pending) : Tracked e.throws := by
  unfold Entry.throws
  split
  · exact tracked_answer h hp _
  · have habort : Base e.abort := h.of_eq rfl rfl rfl rfl id (fun _ _ => id) rfl (.inl rfl)
    exact tracked_answer habort hp _

theorem tracked_finalize (h : Base e) (hp : e.promise ≠ .pending) :
    Tracked (e.finalizeResponse r) := by
  unfold Entry.finalizeResponse
  split
  · exact tracked_answer h hp _
  · exact tracked_answer h hp _
  split
  · exact tracked_answer h hp _
  · split
    · unfold Entry.collectImmediate
      split
      · exact ⟨h.of_eq rfl rfl rfl rfl id (fun _ _ => id) rfl (.inr rfl), hp⟩
      · exact ⟨h.of_eq rfl rfl rfl rfl id (fun _ _ => id) rfl (.inl rfl), hp⟩
    · exact tracked_answer h hp _

theorem shareable_of (hcookie : ¬ (r.headers.has "set-cookie" = true ∨ r.body = .absent))
    (hvary : ¬ personalized r = true) : Shareable r := by
  refine ⟨by simpa using fun h => hcookie (.inl h), fun value hv t ht => ?_⟩
  rw [personalized, hv] at hvary
  generalize "accept-encoding".toList = name at hvary ⊢
  simp only [List.any_eq_true, not_exists, not_and] at hvary
  by_cases hnil : t = []
  · exact .inl hnil
  · exact .inr (by simpa [hnil] using hvary t ht)

theorem keeps_start (h : src.Taken []) (hc : src.state ≠ .cancelled) :
    Keeps (.start (some maxSsrDedupBody) none) src :=
  ⟨[], rfl, rfl, Nat.zero_le _, hc, h⟩

variable {cfg : Config}

theorem tracked_respondLeader (h : Base e) (hl : Leader e) (htaken : e.source.Taken [])
    (hlive : e.source.state ≠ .cancelled) (hresponse : e.response = some r) :
    Tracked (e.respondLeader cfg r) := by
  unfold Entry.respondLeader
  split
  · exact tracked_finalize h.reject reject_promise
  rename_i hcookie
  split
  · exact tracked_finalize h.reject reject_promise
  rename_i hvary
  have hshareable : Shareable r := shareable_of (by simpa using hcookie) hvary
  split
  · exact tracked_finalize h.reject reject_promise
  split
  · exact tracked_throws h.reject reject_promise
  · unfold Entry.collectImmediate
    split
    · next hgone =>
      have hdisconnected : e.lifetime.disconnected = true := by
        have hfinished := hl.finished
        have hexceeded : e.lifetime.bodyLimitExceeded = false := by
          cases hx : e.lifetime.bodyLimitExceeded with
          | false => rfl
          | true => exact absurd (h.exceeded hx) (by simp [hl.body])
        simpa [hfinished, hexceeded] using hgone
      exact ⟨h.of_eq rfl rfl rfl rfl id (fun _ _ => id) rfl (.inr rfl),
        ⟨hl.anonymous, hl.body, hl.promise, hl.finished, hl.aborted⟩,
        ⟨hresponse, hshareable, fun _ _ => .inl (hl.aborted hdisconnected)⟩⟩
    · exact ⟨h.of_eq rfl rfl rfl rfl id (fun _ _ => id) rfl (.inl rfl),
        ⟨hl.anonymous, hl.body, hl.promise, hl.finished, hl.aborted⟩,
        ⟨hresponse, hshareable, rfl, rfl, nofun, fun _ => keeps_start htaken hlive⟩⟩

theorem Leader.of_eq (h : Leader e) (hrequest : e'.request = e.request)
    (hpromise : e'.promise = e.promise) (hfinished : e'.lifetime.finished = e.lifetime.finished)
    (haborted : e'.lifetime.disconnected = true → e'.lifetime.aborted = true) : Leader e' :=
  ⟨hrequest ▸ h.anonymous, hrequest ▸ h.body, hpromise ▸ h.promise, hfinished ▸ h.finished, haborted⟩

theorem Base.responded (h : Base e) (hp : ∀ s b, e.promise ≠ .settled (some s) b)
    (x : Option Response) : Base { e with response := x } :=
  ⟨h.received, h.exceeded, h.cut, fun s b hs => absurd hs (hp s b)⟩

variable {leads : Bool}

theorem tracked_respond {x : Option Response} (h : Tracked e)
    (hph : e.phase = .rendering leads) : Tracked (e.respond cfg leads x) := by
  obtain ⟨hb, hp⟩ := h
  rw [hph] at hp
  cases leads with
  | true =>
    obtain ⟨hl, htaken, hlive⟩ := hp
    cases x with
    | none => exact tracked_throws hb.reject reject_promise
    | some r =>
      exact tracked_respondLeader (hb.responded (by simp [hl.promise]) _)
        (hl.of_eq rfl rfl rfl hl.aborted) htaken hlive rfl
  | false =>
    have habsent : e.promise = .absent := hp
    cases x with
    | none => exact tracked_throws hb (by simp [habsent])
    | some r => exact tracked_finalize (hb.responded (by simp [habsent]) _) (by simp [habsent])

theorem Keeps.moved {src' : Readable Chunk} (h : Keeps c src) (hm : src.Moved src') :
    Keeps c src' := by
  obtain ⟨taken, hc, htotal, hcap, -, hresult⟩ := h
  refine ⟨taken, hc, htotal, hcap, hm.state, ?_⟩
  split at hresult
  · exact hresult.moved hm
  · exact hresult.moved hm
  · exact absurd hm hresult.not_moved
  · trivial

theorem tracked_moved {cut : Bool} (h : Tracked e) (hm : e.source.Moved src)
    (hcut : cut = true → e.lifetime.disconnected = true) :
    Tracked { e with source := src, cutShort := cut } := by
  obtain ⟨hb, hp⟩ := h
  refine ⟨⟨hb.received, hb.exceeded, hcut, fun s b hs => ?_⟩, ?_⟩
  · have hshared := hb.settled s b hs
    exact absurd hm (hshared.whole.not_moved hshared.drained)
  dsimp only
  split at hp
  · obtain ⟨hl, htaken, hlive⟩ := hp
    exact ⟨hl.of_eq rfl rfl rfl hl.aborted, htaken.moved hm, hm.state⟩
  · obtain ⟨hl, hc⟩ := hp
    exact ⟨hl.of_eq rfl rfl rfl hl.aborted, hc.response, hc.shareable, hc.cap, hc.maxChunks,
      hc.released, fun hr => (hc.keeps hr).moved hm⟩
  · obtain ⟨hl, hc⟩ := hp
    refine ⟨hl.of_eq rfl rfl rfl hl.aborted, hc.response, hc.shareable, fun bytes ho => ?_⟩
    exact (hc.whole bytes ho).imp_right fun hw => absurd hm (hw.1.not_moved hw.2.1)
  all_goals exact hp

theorem Keeps.deliver {src' : Readable Chunk} {x : ReadResult Chunk} (h : Keeps c src)
    (hnone : c.result = none) (hp : src.pull = some (x, src')) :
    Keeps { c with result := some x } src' := by
  obtain ⟨taken, hc, htotal, hcap, hlive, hresult⟩ := h
  rw [hnone] at hresult
  refine ⟨taken, hc, htotal, hcap, Readable.pull_state hp ▸ hlive, ?_⟩
  cases x with
  | chunk v => exact hresult.chunk hp
  | done => exact hresult.done hlive hp
  | failed => trivial

theorem tracked_deliver {x : ReadResult Chunk} (h : Tracked e)
    (hph : e.phase = .collecting leads r c) (hnone : c.result = none)
    (hpull : e.source.pull = some (x, src)) :
    Tracked { e with source := src, phase := .collecting leads r { c with result := some x } } := by
  obtain ⟨hb, hp⟩ := h
  rw [hph] at hp
  have hbase : Base { e with source := src, phase := .collecting leads r { c with result := some x } } := by
    refine ⟨hb.received, hb.exceeded, hb.cut, fun s b hs => ?_⟩
    have hshared := hb.settled s b hs
    have hsame : src = e.source := by
      have hq := hshared.drained
      have hc := hshared.whole.1
      simp only [Readable.pull, hq, hc, Option.some.injEq, Prod.mk.injEq] at hpull
      exact hpull.2.symm
    subst hsame
    exact ⟨hshared.response, hshared.whole, hshared.drained, hshared.cap, hshared.uncut⟩
  cases leads with
  | false => exact ⟨hbase, hp⟩
  | true =>
    obtain ⟨hl, hc⟩ := hp
    exact ⟨hbase, hl.of_eq rfl rfl rfl hl.aborted, hc.response, hc.shareable, hc.cap, hc.maxChunks,
      fun hr => ⟨(hc.released hr).1, rfl⟩, fun hr => (hc.keeps hr).deliver hnone hpull⟩

theorem Keeps.chunk {v : Chunk} {b : Bytes} (h : Keeps c src)
    (hresult : c.result = some (.chunk v)) (hb : responseChunkBytes v = some b)
    (hfits : ¬ maxSsrDedupBody < c.total + b.length) (stage : Stage) :
    Keeps { c with
      chunks := c.chunks ++ [b], total := c.total + b.length, stage := stage, result := none } src := by
  obtain ⟨taken, hc, htotal, -, hlive, hr⟩ := h
  rw [hresult] at hr
  refine ⟨taken ++ [v], ?_, ?_, Nat.not_lt.mp hfits, hlive, hr⟩
  · simp [hc, hb]
  · simp [htotal]

variable {y : Collector ⊕ Outcome}

theorem Collects.next {x : ReadResult Chunk} (h : Collects e r c)
    (hresult : c.result = some x) (hy : c.next x = y) :
    (∀ c', y = .inl c' → Collects e r c') ∧ ∀ o, y = .inr o → Collected e r o := by
  unfold Collector.next at hy
  split at hy
  · next hr =>
    subst hy
    exact ⟨nofun, fun o ho => ⟨h.response, h.shareable, fun _ _ => .inl (h.released hr).1⟩⟩
  · next hr =>
    have hkeeps := h.keeps (by simpa using hr)
    split at hy
    · subst hy
      exact ⟨nofun, fun o ho => ⟨h.response, h.shareable, by rintro _ rfl; cases ho⟩⟩
    · subst hy
      refine ⟨nofun, fun o ho => ⟨h.response, h.shareable, ?_⟩⟩
      rintro bytes rfl
      obtain ⟨taken, hc, htotal, hcap, -, hdrained⟩ := hkeeps
      rw [hresult] at hdrained
      obtain rfl : c.chunks.flatten = bytes := by simpa using ho
      have hwhole := Whole.of_drained hdrained hc
      exact .inr ⟨hwhole.1, hwhole.2, htotal ▸ hcap⟩
    · next v =>
      split at hy
      · subst hy
        exact ⟨nofun, fun o ho => ⟨h.response, h.shareable, by rintro _ rfl; cases ho⟩⟩
      rename_i b hb
      dsimp only at hy
      split at hy
      · subst hy
        exact ⟨nofun, fun o ho => ⟨h.response, h.shareable, by rintro _ rfl; cases ho⟩⟩
      rename_i hover
      subst hy
      refine ⟨fun c' hc' => ?_, nofun⟩
      obtain rfl := Sum.inl.inj hc'
      have hfits : ¬ maxSsrDedupBody < c.total + b.length := fun hlt =>
        hover (by simp [h.cap, hlt])
      exact ⟨h.response, h.shareable, h.cap, h.maxChunks, fun hx => absurd hx hr,
        fun _ => hkeeps.chunk hresult hb hfits _⟩

theorem Collects.pending (h : Collects e r c) : Collected e r c.pending := by
  refine ⟨h.response, h.shareable, fun bytes ho => ?_⟩
  unfold Collector.pending at ho
  split at ho
  · next hr => exact .inl (h.released hr).1
  · contradiction

theorem Collects.resume {seen : Bool} (h : Collects e r c) (hy : c.resume seen = some y) :
    (∀ c', y = .inl c' → Collects e r c') ∧ ∀ o, y = .inr o → Collected e r o := by
  unfold Collector.resume at hy
  split at hy
  · next x hx =>
    have hresult : c.result = some x := by
      split at hx
      · exact hx
      · contradiction
    exact h.next hresult (Option.some.inj hy)
  · contradiction
  · split at hy
    · cases hy
      exact ⟨nofun, fun o ho => Sum.inr.inj ho ▸ h.pending⟩
    · cases hy
      refine ⟨fun c' hc' => ?_, nofun⟩
      obtain rfl := Sum.inl.inj hc'
      exact ⟨h.response, h.shareable, h.cap, h.maxChunks, h.released, h.keeps⟩
  · cases hy
    exact ⟨nofun, fun o ho => Sum.inr.inj ho ▸ h.pending⟩

theorem Base.phased (h : Base e) (p : Phase) : Base { e with phase := p } :=
  h.of_eq rfl rfl rfl rfl id (fun _ _ => id) rfl (.inl rfl)

theorem tracked_resume {seen : Bool} (h : Tracked e)
    (hph : e.phase = .collecting leads r c) (hy : c.resume seen = some y) :
    Tracked (e.collector leads r y) := by
  obtain ⟨hb, hp⟩ := h
  rw [hph] at hp
  cases leads with
  | false =>
    unfold Entry.collector
    split
    · exact ⟨hb.phased _, hp⟩
    · exact ⟨hb.of_eq rfl rfl rfl rfl id (fun _ _ => id) rfl (.inr rfl), hp⟩
    · exact ⟨hb.phased _, hp⟩
  | true =>
    obtain ⟨hl, hc⟩ := hp
    obtain ⟨hgo, hend⟩ := hc.resume hy
    unfold Entry.collector
    split
    · next c' =>
      have hnext := hgo c' rfl
      exact ⟨hb.phased _, hl.of_eq rfl rfl rfl hl.aborted, hnext.response, hnext.shareable, hnext.cap,
        hnext.maxChunks, hnext.released, hnext.keeps⟩
    · exact ⟨hb.of_eq rfl rfl rfl rfl id (fun _ _ => id) rfl (.inr rfl),
        hl.of_eq rfl rfl rfl hl.aborted, hc.response, hc.shareable, nofun⟩
    · next o _ =>
      have hnext := hend o rfl
      exact ⟨hb.phased _, hl.of_eq rfl rfl rfl hl.aborted, hnext.response, hnext.shareable, hnext.whole⟩

theorem shared_of_collected (hb : Base e) (hl : Leader e) (h : Collected e r (.complete bytes))
    (hs : e.shared r bytes = some s) : Shared e s := by
  simp only [Entry.shared, Option.ite_none_right_eq_some, Option.some.injEq, Bool.and_eq_true,
    Bool.not_eq_true', decide_eq_true_eq] at hs
  obtain ⟨⟨haborted, hcap⟩, rfl⟩ := hs
  rcases h.whole bytes rfl with ha | ⟨hwhole, hqueue, -⟩
  · exact absurd ha (by simp [haborted])
  · refine ⟨⟨r, h.response, h.shareable, rfl, rfl, rfl⟩, hwhole, hqueue, hcap, ?_⟩
    cases hcut : e.cutShort with
    | false => rfl
    | true => exact absurd (hl.aborted (hb.cut hcut)) (by simp [haborted])

theorem tracked_settle {o : Outcome} (h : Tracked e)
    (hph : e.phase = .collected leads r o) : Tracked (e.settle leads r o) := by
  obtain ⟨hb, hp⟩ := h
  rw [hph] at hp
  cases leads with
  | false =>
    cases o with
    | thrown => exact tracked_throws hb hp
    | streaming | complete bytes => exact tracked_answer hb hp _
  | true =>
    obtain ⟨hl, hc⟩ := hp
    cases o with
    | thrown => exact tracked_throws hb.reject reject_promise
    | streaming => exact tracked_answer hb.reject reject_promise _
    | complete bytes =>
      have hbase : Base (e.resolveShared (e.shared r bytes)) := by
        refine ⟨hb.received, hb.exceeded, hb.cut, fun s b hs => ?_⟩
        simp only [Entry.resolveShared, hl.promise, Promise.resolve, Promise.settled.injEq] at hs
        have hshared := shared_of_collected hb hl hc hs.1
        exact ⟨hshared.response, hshared.whole, hshared.drained, hshared.cap, hshared.uncut⟩
      refine tracked_answer hbase ?_ _
      simp [Entry.resolveShared, hl.promise, Promise.resolve]

theorem tracked_cancelResponse (h : Tracked e) (ha : e.phase.leads = true → e.lifetime.aborted = true) :
    Tracked e.cancelResponse := by
  unfold Entry.cancelResponse
  split
  · next leads r c hph =>
    obtain ⟨hb, hp⟩ := h
    rw [hph] at hp ha
    refine ⟨hb.of_eq rfl rfl rfl rfl id (fun _ _ => id) rfl (.inr rfl), ?_⟩
    cases leads with
    | false => exact hp
    | true =>
      obtain ⟨hl, hc⟩ := hp
      exact ⟨hl.of_eq rfl rfl rfl hl.aborted, hc.response, hc.shareable, hc.cap, hc.maxChunks,
        fun _ => ⟨ha rfl, rfl⟩, nofun⟩
  · exact h

theorem tracked_flags {l : Lifetime} (h : Tracked e)
    (hreceived : l.bodyReceived = true → e.request.body = true)
    (hexceeded : l.bodyLimitExceeded = true → e.request.body = true)
    (hdisconnected : e.lifetime.disconnected = true → l.disconnected = true)
    (haborted : e.lifetime.aborted = true → l.aborted = true)
    (hfinished : l.finished = e.lifetime.finished)
    (hleads : e.phase.leads = true → l.disconnected = true → l.aborted = true) :
    Tracked { e with lifetime := l } := by
  obtain ⟨hb, hp⟩ := h
  refine ⟨⟨hreceived, hexceeded, fun hc => hdisconnected (hb.cut hc), fun s b hs => ?_⟩, ?_⟩
  · have hshared := hb.settled s b hs
    exact ⟨hshared.response, hshared.whole, hshared.drained, hshared.cap, hshared.uncut⟩
  generalize e.phase = p at hp hleads ⊢
  split at hp
  · obtain ⟨hl, hrest⟩ := hp
    exact ⟨hl.of_eq rfl rfl hfinished (hleads rfl), hrest⟩
  · obtain ⟨hl, hc⟩ := hp
    exact ⟨hl.of_eq rfl rfl hfinished (hleads rfl), hc.response, hc.shareable, hc.cap, hc.maxChunks,
      fun hr => (hc.released hr).imp_left haborted, hc.keeps⟩
  · obtain ⟨hl, hc⟩ := hp
    exact ⟨hl.of_eq rfl rfl hfinished (hleads rfl), hc.response, hc.shareable,
      fun bytes ho => (hc.whole bytes ho).imp_left haborted⟩
  all_goals exact hp

theorem Tracked.leader (h : Tracked e) (hleads : e.phase.leads = true) : Leader e := by
  obtain ⟨-, hp⟩ := h
  split at hp
  · exact hp.1
  · exact hp.1
  · exact hp.1
  · next hph => simp [hph, Phase.leads] at hleads
  · next hph => simp [hph, Phase.leads] at hleads
  · next hrendering hcollecting hcollected _ _ =>
    cases hph : e.phase with
    | rendering b | collecting b r c | collected b r o => cases b <;> simp_all [Phase.leads]
    | waiting l | ended a => simp [hph, Phase.leads] at hleads

theorem tracked_disconnect (h : Tracked e) : Tracked e.disconnect := by
  have hb := h.1
  unfold Entry.disconnect
  dsimp only
  split
  · next hf =>
    refine tracked_flags h hb.received hb.exceeded (fun _ => rfl) id rfl fun hleads => ?_
    exact absurd hf (by simp [(h.leader hleads).finished])
  · split
    · next hr =>
      have hbody : e.phase.leads = true → False := fun hleads =>
        absurd (hb.received hr) (by simp [(h.leader hleads).body])
      exact tracked_cancelResponse (tracked_flags h hb.received hb.exceeded (fun _ => rfl) id rfl
        fun hleads => (hbody hleads).elim) fun hleads => (hbody hleads).elim
    · have hflags : Tracked { e with lifetime := { e.lifetime with disconnected := true, aborted := true } } :=
        tracked_flags h hb.received hb.exceeded (fun _ => rfl) (fun _ => rfl) rfl fun _ _ => rfl
      exact tracked_cancelResponse hflags fun _ => rfl

theorem tracked_next {ev : Event} (h : Tracked e) (hs : e.next cfg ev = some e') : Tracked e' := by
  have hb := h.1
  cases ev with
  | respond x =>
    simp only [Entry.next] at hs
    split at hs
    · next hph => exact Option.some.inj hs ▸ tracked_respond h hph
    · contradiction
  | enqueue v =>
    obtain ⟨src, hsrc, rfl⟩ := Option.map_eq_some_iff.mp hs
    exact tracked_moved h (.inl ⟨v, hsrc⟩) hb.cut
  | close =>
    obtain ⟨src, hsrc, rfl⟩ := Option.map_eq_some_iff.mp hs
    exact tracked_moved h (.inr (.inl hsrc)) id
  | error =>
    obtain ⟨src, hsrc, rfl⟩ := Option.map_eq_some_iff.mp hs
    exact tracked_moved h (.inr (.inr hsrc)) hb.cut
  | deliver =>
    simp only [Entry.next] at hs
    split at hs
    · next hph =>
      obtain ⟨hnone, hs⟩ := Option.ite_none_left_eq_some.mp hs
      obtain ⟨⟨x, src⟩, hpull, rfl⟩ := Option.map_eq_some_iff.mp hs
      exact tracked_deliver h hph (by simpa using hnone) hpull
    · contradiction
  | resume seen =>
    simp only [Entry.next] at hs
    split at hs
    · next hph =>
      obtain ⟨y, hy, rfl⟩ := Option.map_eq_some_iff.mp hs
      exact tracked_resume h hph hy
    · contradiction
  | settle =>
    simp only [Entry.next] at hs
    split at hs
    · next hph => exact Option.some.inj hs ▸ tracked_settle h hph
    · contradiction
  | disconnect =>
    simp only [Entry.next, Option.ite_none_left_eq_some, Option.some.injEq] at hs
    exact hs.2 ▸ tracked_disconnect h
  | bodyArrived =>
    simp only [Entry.next, Option.ite_none_right_eq_some, Option.some.injEq, Bool.and_eq_true] at hs
    obtain ⟨⟨⟨hbody, -⟩, -⟩, rfl⟩ := hs
    exact tracked_flags h (fun _ => hbody) hb.exceeded id id rfl fun hleads => (h.leader hleads).aborted
  | bodyExceeds =>
    simp only [Entry.next, Option.ite_none_right_eq_some, Option.some.injEq, Bool.and_eq_true] at hs
    obtain ⟨⟨⟨hbody, -⟩, -⟩, rfl⟩ := hs
    have hflags : Tracked { e with
        lifetime := { e.lifetime with bodyLimitExceeded := true, aborted := true } } :=
      tracked_flags h hb.received (fun _ => hbody) id (fun _ => rfl) rfl fun _ _ => rfl
    exact tracked_cancelResponse hflags fun _ => rfl
  | shutdown =>
    simp only [Entry.next, Option.ite_none_left_eq_some, Option.some.injEq] at hs
    exact hs.2 ▸ tracked_flags h hb.received hb.exceeded id (fun _ => rfl) rfl fun _ _ => rfl

/-! ## what a step leaves alone -/

/-- What the other requests see of a request that moves. -/
structure Frame (e e' : Entry) : Prop where
  request : e'.request = e.request
  served : e'.servedFrom = e.servedFrom
  waiting : ∀ l, e'.phase = .waiting l → e.phase = .waiting l
  promise : e'.promise = e.promise ∨ e.promise = .pending ∧ ∃ v, e'.promise = .settled v false

theorem Frame.refl : Frame e e := ⟨rfl, rfl, fun _ => id, .inl rfl⟩

theorem Frame.resolved (h : Frame (e.resolveShared v) e') : Frame e e' := by
  refine ⟨h.request, h.served, h.waiting, ?_⟩
  have hp : (e.resolveShared v).promise = e.promise.resolve v := rfl
  cases hpromise : e.promise with
  | pending =>
    refine .inr ⟨rfl, v, ?_⟩
    simpa [hp, hpromise, Promise.resolve] using h.promise
  | absent | settled x b => exact .inl (by simpa [hp, hpromise, Promise.resolve] using h.promise)

end Entry

/-! ## all of them -/

/-- The promise still has its key in the map. -/
def Promise.Held (p : Promise) : Prop := p = .pending ∨ ∃ v, p = .settled v false

/-- The key a leader has registered under. -/
def Keyed (cfg : Config) (r : Request) (k : String) : Prop :=
  r.Anonymous ∧ ∃ o, cfg.baseOrigin r = some o ∧ k = dedupKey r.method o r.target

section World

variable {cfg : Config} {w w' : World} {e : Entry} {i l : Nat} {k : String}

theorem Keyed.unique {r : Request} {k' : String} (h : Keyed cfg r k) (h' : Keyed cfg r k') : k = k' := by
  obtain ⟨-, o, ho, rfl⟩ := h
  obtain ⟨-, o', ho', rfl⟩ := h'
  obtain rfl : o = o' := Option.some.inj (ho.symm.trans ho')
  rfl

variable {e : Entry}

theorem Frame.held {e' : Entry} (h : Frame e e') : e'.promise.Held ↔ e.promise.Held := by
  rcases h.promise with heq | ⟨hp, v, hv⟩
  · rw [heq]
  · simp [hp, hv, Promise.Held]

theorem Frame.absent {e' : Entry} (h : Frame e e') : e'.promise = .absent ↔ e.promise = .absent := by
  rcases h.promise with heq | ⟨hp, v, hv⟩
  · rw [heq]
  · simp [hp, hv]

theorem Frame.settled {e' : Entry} (h : Frame e e') {b : Bool}
    (hs : e.promise = .settled v b) : e'.promise = .settled v b := by
  rcases h.promise with heq | ⟨hp, -, -⟩
  · exact heq.trans hs
  · simp [hp] at hs

/-- A leader has nothing to run itself: the application has not answered it,
or has not gone on with the body while its client is still there. -/
def Waits (e : Entry) : Prop :=
  e.phase = .rendering true ∨
    ∃ r c, e.phase = .collecting true r c ∧ c.result = none ∧ c.released = false

theorem bounded_next {a : Action} (h : w.ssrInflight.size ≤ maxSsrDedup)
    (hs : (renderer cfg).next w a = some w') : w'.ssrInflight.size ≤ maxSsrDedup := by
  cases a with
  | arrive r gone =>
    obtain rfl := Option.some.inj hs
    simp only [World.arrive]
    repeat' split
    all_goals try exact h
    next hroom _ _ =>
      simp only [Bool.and_eq_true, decide_eq_true_eq] at hroom
      show (w.ssrInflight.set _ w.nextEntry).size ≤ _
      rw [JsMap.size_set]
      split <;> omega
  | event i ev =>
    simp only [renderer, World.next] at hs
    split at hs
    · obtain ⟨e, -, rfl⟩ := Option.map_eq_some_iff.mp hs
      exact h
    · contradiction
  | wake i =>
    simp only [renderer, World.next] at hs
    repeat' split at hs
    all_goals try contradiction
    exact Option.some.inj hs ▸ h
  | removeKey l =>
    simp only [renderer, World.next] at hs
    split at hs
    · exact Option.some.inj hs ▸ (JsMap.size_delete_le ..).trans h
    · contradiction

end World

end BunServe.Ssr
