import BunServe.Publish

/-!
# BunServe.Publish.Authority

An explicit seq in the lanes: what the frame carries, what the mark becomes, and
whether a frame held for a resuming connection says that its seq is the cluster's.

* `at_note` and `at_note_counter` — the mark of a topic after an explicit seq and
  after another;
* `Takes` and `held_iff` — when a publish leaves a frame in an open buffer;
* `OneAuthority` — what a lane owes an explicit seq;
* `one_authority_iff` — where each lane pays it.
-/

namespace BunServe.Publish

open Resume

/-! ## the mark -/

variable {v : JsNumber}

theorem max_eq_left_iff {a : JsNumber} (hv : v ≠ .nan) : a.max v = a ↔ ¬ JsNumber.lt a v := by
  cases a with
  | nan => simp [JsNumber.max]
  | real x =>
    cases v with
    | nan => contradiction
    | real y =>
      simp only [JsNumber.max, JsNumber.lt, JsNumber.real.injEq, not_lt]
      by_cases h : x ≤ y
      · rw [if_pos h]
        exact ⟨le_of_eq, fun hle => le_antisymm hle h⟩
      · rw [if_neg h]
        exact ⟨fun _ => le_of_lt (not_le.mp h), fun _ => rfl⟩

theorem max_of_lt {a : JsNumber} (h : JsNumber.lt a v) : a.max v = v := by
  cases a with
  | nan => exact absurd h (JsNumber.not_nan_lt _)
  | real x =>
    cases v with
    | nan => exact absurd h (JsNumber.not_lt_nan _)
    | real y =>
      have hxy : x < y := h
      simp only [JsNumber.max, if_pos hxy.le]

theorem max_noMark (hv : v ≠ .nan) : NO_MARK.max v = v := by
  cases v with
  | nan => contradiction
  | real y => simp [NO_MARK, JsNumber.max]

variable {topic : String}

theorem at_note {m : Marks} (hv : v ≠ .nan) :
    (notePublishedSeq m topic v true).at topic = (m.at topic).max v := by
  unfold notePublishedSeq
  rw [if_neg hv]
  cases hprev : m.map.get? topic with
  | none =>
    simp only [if_true]
    simp only [Marks.at, hprev, JsMap.get?_set_self]
    exact (max_noMark hv).symm
  | some prev =>
    have hat : m.at topic = prev := by simp [Marks.at, hprev]
    have hmap : (if m.map.size ≥ MAX_SEQ_TOPICS then
        { m with recent := noteRecentlyUsed m.recent topic } else m).map = m.map := by
      split <;> rfl
    simp only [Bool.true_and, decide_eq_true_eq, hat]
    by_cases hlt : JsNumber.lt prev v
    · rw [if_pos hlt, max_of_lt hlt]
      simp [Marks.at]
    · rw [if_neg hlt, (max_eq_left_iff hv).mpr hlt]
      simp only [Marks.at, hmap, hprev, Option.getD_some]

theorem at_note_counter (m : Marks) (topic : String) (seq : JsNumber) (t : String) :
    (notePublishedSeq m topic seq false).at t = m.at t := by
  unfold notePublishedSeq
  split
  · rfl
  · split
    · split <;> rfl
    · simp

variable {o : SeqOption}

theorem explicit_ne_nan (h : explicitSeqValue o = some v) : v ≠ .nan := by
  cases o with
  | number n =>
    obtain ⟨hn, rfl⟩ := by simpa [explicitSeqValue] using h
    intro heq
    rw [heq] at hn
    simp [JsNumber.integer?, JsNumber.finite?] at hn
  | bigint z =>
    obtain ⟨-, rfl⟩ := by simpa [explicitSeqValue] using h
    exact JsNumber.ofInt_ne_nan z
  | _ => cases h

theorem stamp_explicit (h : explicitSeqValue o = some v)
    (seqs : Marks) (topic : String) : stampSeqValue seqs o topic = some (some v, seqs) := by
  cases o with
  | number n | bigint z => simp [stampSeqValue, h]
  | _ => cases h

/-! ## the frames held -/

/-- An open buffer of the topic has room for a frame, and is not the author's. -/
def Takes (s : Resume.State) (topic : String) (excludeWs : Option Socket) : Prop :=
  ∃ set, s.resumeBuffers.get? topic = some set ∧ ∃ id ∈ set, ∃ b, s.buffers.get? id = some b ∧
    excludeWs ≠ some b.ws ∧ b.frames.length < MAX_RESUME_BUFFERED_FRAMES

theorem get?_captureInto (f : Frame) (excludeWs : Option Socket) (buffers : JsMap Nat Buffer)
    (i id : Nat) : (captureInto f excludeWs buffers i).get? id =
      if id = i then (buffers.get? id).map (Buffer.capture f excludeWs) else buffers.get? id := by
  unfold captureInto
  by_cases h : id = i
  · rw [h]
    cases hget : buffers.get? i with
    | none => simp [hget]
    | some b => simp
  · rw [if_neg h]
    cases hget : buffers.get? i with
    | none => rfl
    | some b => exact JsMap.get?_set_ne _ _ h

theorem get?_foldl_captureInto (f : Frame) (excludeWs : Option Socket) (set : List Nat)
    (buffers : JsMap Nat Buffer) (id : Nat) :
    (set.foldl (captureInto f excludeWs) buffers).get? id =
      (buffers.get? id).map (Buffer.capture f excludeWs)^[set.count id] := by
  induction set generalizing buffers with
  | nil => simp
  | cons i set ih =>
    rw [List.foldl_cons, ih, get?_captureInto, List.count_cons]
    by_cases h : id = i
    · simp only [h, if_true, beq_self_eq_true]
      rw [Option.map_map, ← Function.iterate_succ]
    · have hne : (i == id) = false := by simpa using fun heq => h heq.symm
      simp [h, hne]

theorem frames_iterate (f : Frame) (excludeWs : Option Socket) (n : Nat) (b : Buffer) :
    ∃ k, ((Buffer.capture f excludeWs)^[n] b).frames = b.frames ++ List.replicate k f ∧
      ((0 < n ∧ excludeWs ≠ some b.ws ∧ b.frames.length < MAX_RESUME_BUFFERED_FRAMES) ↔ 0 < k) := by
  induction n generalizing b with
  | zero => exact ⟨0, by simp, by simp⟩
  | succ n ih =>
    rw [Function.iterate_succ_apply]
    obtain ⟨k, hframes, hk⟩ := ih (b.capture f excludeWs)
    by_cases hws : excludeWs = some b.ws
    · have hcap : b.capture f excludeWs = b := by simp [Buffer.capture, hws]
      rw [hcap] at hframes hk
      refine ⟨k, by rw [hcap]; exact hframes, ?_⟩
      simp only [hws, ne_eq, not_true_eq_false, false_and, and_false] at hk ⊢
      exact hk
    · by_cases hroom : b.frames.length < MAX_RESUME_BUFFERED_FRAMES
      · have hcap : b.capture f excludeWs = { b with frames := b.frames ++ [f] } := by
          simp [Buffer.capture, hws, Nat.not_le.mpr hroom]
        rw [hcap] at hframes
        refine ⟨k + 1, ?_, by simp [hws, hroom]⟩
        rw [hcap, hframes, List.append_assoc]
        rfl
      · have hcap : b.capture f excludeWs = { b with overflow := true } := by
          simp [Buffer.capture, hws, Nat.not_lt.mp hroom]
        rw [hcap] at hframes hk
        refine ⟨k, by rw [hcap]; exact hframes, ?_⟩
        simp only [hroom, and_false] at hk ⊢
        exact hk

theorem held_iff (r : Recorded) (s : Resume.State) (P : Frame → Prop) :
    (∀ id b b', s.buffers.get? id = some b → (r.capture s).buffers.get? id = some b' →
      ∀ f ∈ b'.frames.drop b.frames.length, P f) ↔ (Takes s r.topic r.excludeWs → P r.frame) := by
  unfold Recorded.capture captureResumeFrame Takes
  cases hset : s.resumeBuffers.get? r.topic with
  | none =>
    refine ⟨fun _ h => ?_, fun _ id b b' hb hb' f hf => ?_⟩
    · obtain ⟨set, hset', -⟩ := h
      cases hset'
    · rw [hb] at hb'
      cases hb'
      simp at hf
  | some set =>
    simp only [Option.some.injEq, exists_eq_left']
    refine ⟨fun h htakes => ?_, fun h id b b' hb hb' f hf => ?_⟩
    · obtain ⟨id, hid, b, hb, hws, hroom⟩ := htakes
      have hget := get?_foldl_captureInto r.frame r.excludeWs set s.buffers id
      rw [hb] at hget
      obtain ⟨k, hframes, hk⟩ := frames_iterate r.frame r.excludeWs (set.count id) b
      refine h id b _ hb hget r.frame ?_
      rw [hframes, List.drop_left]
      have hpos : 0 < k := hk.mp ⟨List.count_pos_iff.mpr hid, hws, hroom⟩
      exact List.mem_replicate.mpr ⟨Nat.pos_iff_ne_zero.mp hpos, rfl⟩
    · rw [get?_foldl_captureInto, hb, Option.map_some, Option.some.injEq] at hb'
      obtain ⟨k, hframes, hk⟩ := frames_iterate r.frame r.excludeWs (set.count id) b
      rw [← hb', hframes, List.drop_left] at hf
      obtain ⟨hne, heq⟩ := List.mem_replicate.mp hf
      obtain ⟨hcount, hws, hroom⟩ := hk.mpr (Nat.pos_of_ne_zero hne)
      rw [heq]
      exact h ⟨id, List.count_pos_iff.mp hcount, b, hb, hws, hroom⟩

/-! ## one authority -/

/-- What a lane owes an explicit seq `v`: its envelope carries it, the mark of the
topic is the maximum of what it was and `v`, and each frame it leaves in a buffer
carries `v` and says that it is authoritative. -/
structure OneAuthority (text : JsNumber → String) (v : JsNumber) (topic envelope : String)
    (m m' : Marks) (buffers buffers' : JsMap Nat Buffer) : Prop where
  carried : ∃ body jitterMs, envelope = completeSerializedEnvelope text body (some v) jitterMs
  mark : m'.at topic = (m.at topic).max v
  held : ∀ id b b', buffers.get? id = some b → buffers'.get? id = some b' →
    ∀ f ∈ b'.frames.drop b.frames.length, f.seq = some v ∧ f.authoritative = true

variable {r : Recorded}

/-- For an event that carries `v`, it comes down to the two answers. -/
theorem oneAuthority_iff {text : JsNumber → String} (hv : v ≠ .nan)
    (hseq : r.seq = some v) (hcarried : ∃ body jitterMs,
      r.envelope = completeSerializedEnvelope text body (some v) jitterMs)
    (m : Marks) (s : Resume.State) :
    OneAuthority text v r.topic r.envelope m (r.note m) s.buffers (r.capture s).buffers ↔
      (r.marked = true ∨ ¬ JsNumber.lt (m.at r.topic) v) ∧
        (r.authoritative = true ∨ ¬ Takes s r.topic r.excludeWs) := by
  have hmark : (r.note m).at r.topic = (m.at r.topic).max v ↔
      (r.marked = true ∨ ¬ JsNumber.lt (m.at r.topic) v) := by
    simp only [Recorded.note, hseq]
    cases hmarked : r.marked with
    | true => simp [at_note hv]
    | false =>
      simp only [at_note_counter, Bool.false_eq_true, false_or]
      exact eq_comm.trans (max_eq_left_iff hv)
  have hheld := held_iff r s fun f => f.seq = some v ∧ f.authoritative = true
  have hframe : (r.frame.seq = some v ∧ r.frame.authoritative = true) ↔ r.authoritative = true := by
    simp [Recorded.frame, hseq]
  rw [hframe] at hheld
  refine ⟨fun h => ⟨hmark.mp h.mark, ?_⟩, fun h => ⟨hcarried, hmark.mpr h.1, hheld.mpr ?_⟩⟩
  · by_cases htakes : Takes s r.topic r.excludeWs
    · exact Or.inl (hheld.mp h.held htakes)
    · exact Or.inr htakes
  · intro htakes
    cases h.2 with
    | inl hauth => exact hauth
    | inr hno => exact absurd htakes hno

/-! ## one event -/

theorem capture_eq (r : Recorded) (s : Resume.State) :
    r.capture s = { s with buffers := (r.capture s).buffers } := by
  unfold Recorded.capture captureResumeFrame
  split <;> rfl

theorem capture_marks (r : Recorded) (s : Resume.State) (marks : Marks) :
    r.capture { s with marks } = { r.capture s with marks } := by
  unfold Recorded.capture captureResumeFrame
  simp only
  split <;> rfl

/-- What `commit` does, the mark and the buffers apart. -/
theorem commit_eq (r : Recorded) (s : Resume.State) :
    r.commit s = { r.capture s with marks := r.note s.marks } := capture_marks r s _

section

variable {text : JsNumber → String} {ws_compression_on : Bool} {v : JsNumber}

variable {event : String} {s s' : State}

/-- `publish`: the spelling as a number is paid in full; another only where the mark
is there already and no buffer takes the frame. -/
theorem publish_authority {data : Option String}
    {options : Options} (hv : explicitSeqValue options.seq = some v)
    (h : publish text ws_compression_on s topic event data options = some s') :
    ∃ envelope compress, s'.sent = s.sent ++ [⟨topic, .envelope envelope, compress⟩] ∧
      (OneAuthority text v topic envelope s.resume.marks s'.resume.marks s.resume.buffers
          s'.resume.buffers ↔
        options.seq.isNumber = true ∨
          ¬ JsNumber.lt (s.resume.marks.at topic) v ∧ ¬ Takes s.resume topic none) := by
  unfold publish stamp at h
  split at h
  · contradiction
  rename_i r seqs hstamp
  split at hstamp
  · contradiction
  rename_i body hbody
  rw [stamp_explicit hv] at hstamp
  simp only [Option.some.injEq, Prod.mk.injEq] at hstamp
  obtain ⟨hr, -⟩ := hstamp
  cases h
  refine ⟨r.envelope, r.compress, rfl, ?_⟩
  rw [commit_eq]
  have hiff := oneAuthority_iff (explicit_ne_nan hv)
    (show r.seq = some v by rw [← hr]) ⟨body, _, by rw [← hr]⟩ s.resume.marks s.resume
  have htopic : r.topic = topic := by rw [← hr]
  have hmarked : r.marked = options.seq.isNumber := by rw [← hr]
  have hauth : r.authoritative = options.seq.isNumber := by rw [← hr]
  have hexclude : r.excludeWs = none := by rw [← hr]
  rw [htopic, hmarked, hauth, hexclude, ← or_and_left] at hiff
  exact hiff

variable {options : WireOptions}

/-- `publishWire`, likewise. -/
theorem recordWire_authority {data : Option String} (hv : explicitSeqValue options.seq = some v)
    (h : recordWire text ws_compression_on s topic event data options = some (r, s')) :
    OneAuthority text v topic r.envelope s.resume.marks s'.resume.marks s.resume.buffers
        s'.resume.buffers ↔
      options.seq.isNumber = true ∨
        ¬ JsNumber.lt (s.resume.marks.at topic) v ∧ ¬ Takes s.resume topic options.excludeWs := by
  unfold recordWire stampWire at h
  split at h
  · contradiction
  rename_i r' seqs hstamp
  rw [stamp_explicit hv] at hstamp
  simp only at hstamp
  split at hstamp
  · contradiction
  rename_i body hbody
  simp only [Option.some.injEq, Prod.mk.injEq] at hstamp h
  obtain ⟨hr, -⟩ := hstamp
  obtain ⟨rfl, rfl⟩ := h
  rw [commit_eq]
  have hiff := oneAuthority_iff (explicit_ne_nan hv)
    (show r'.seq = some v by rw [← hr]) ⟨body, _, by rw [← hr]⟩ s.resume.marks s.resume
  have htopic : r'.topic = topic := by rw [← hr]
  have hmarked : r'.marked = options.seq.isNumber := by rw [← hr]
  have hauth : r'.authoritative = options.seq.isNumber := by rw [← hr]
  have hexclude : r'.excludeWs = options.excludeWs := by rw [← hr]
  rw [htopic, hmarked, hauth, hexclude, ← or_and_left] at hiff
  exact hiff

/-! ## many events -/

/-- The marks after the first events of a batch. -/
def notes (rs : List Recorded) (m : Marks) : Marks := rs.foldl (fun m r => r.note m) m

/-- The buffers after them. -/
def captures (rs : List Recorded) (s : Resume.State) : Resume.State :=
  rs.foldl (fun s r => r.capture s) s

variable {rs : List Recorded} {i : Nat}

theorem notes_take (hr : rs[i]? = some r)
    (m : Marks) : notes (rs.take (i + 1)) m = r.note (notes (rs.take i) m) := by
  simp [notes, List.take_add_one, hr]

theorem captures_take (hr : rs[i]? = some r)
    (s : Resume.State) : captures (rs.take (i + 1)) s = r.capture (captures (rs.take i) s) := by
  simp [captures, List.take_add_one, hr]

theorem captures_marks (rs : List Recorded) (s : Resume.State) (marks : Marks) :
    captures rs { s with marks } = { captures rs s with marks } := by
  induction rs generalizing s marks with
  | nil => rfl
  | cons r rs ih =>
    show captures rs (r.capture { s with marks }) = _
    rw [capture_marks, ih]
    rfl

theorem oneAuthority_take (hr : rs[i]? = some r) (hv : v ≠ .nan) (hseq : r.seq = some v)
    (hcarried : ∃ body jitterMs, r.envelope = completeSerializedEnvelope text body (some v) jitterMs)
    (m : Marks) (s : Resume.State) :
    OneAuthority text v r.topic r.envelope (notes (rs.take i) m) (notes (rs.take (i + 1)) m)
        (captures (rs.take i) s).buffers (captures (rs.take (i + 1)) s).buffers ↔
      (r.marked = true ∨ ¬ JsNumber.lt ((notes (rs.take i) m).at r.topic) v) ∧
        (r.authoritative = true ∨ ¬ Takes (captures (rs.take i) s) r.topic r.excludeWs) := by
  rw [notes_take hr, captures_take hr]
  exact oneAuthority_iff hv hseq hcarried _ _

theorem forall₂_getElem? {α β : Type} {R : α → β → Prop} {as : List α} {bs : List β}
    (h : List.Forall₂ R as bs) {a : α} (ha : as[i]? = some a) : ∃ b, bs[i]? = some b ∧ R a b := by
  induction h generalizing i with
  | nil => simp at ha
  | cons hab _ ih =>
    cases i with
    | zero =>
      cases ha
      exact ⟨_, rfl, hab⟩
    | succ i => exact ih ha

theorem prepareBodies_forall₂ {ms : List Message} {bodies : List (Message × String)}
    (h : prepareBodies ms = some bodies) : List.Forall₂ (fun m x => x.1 = m) ms bodies := by
  induction ms generalizing bodies with
  | nil =>
    cases h
    exact .nil
  | cons m ms ih =>
    simp only [prepareBodies] at h
    split at h
    · next body rest _ hrest =>
      cases h
      exact .cons rfl (ih hrest)
    · contradiction

/-- What the fast path makes of a message with an explicit seq. -/
def Stamped (text : JsNumber → String) (x : Message × String) (r : Recorded) : Prop :=
  r.topic = x.1.topic ∧ r.excludeWs = none ∧ r.authoritative = false ∧
    r.marked = x.1.seq.isExplicit ∧
    ∀ v, explicitSeqValue x.1.seq = some v →
      r.seq = some v ∧ r.envelope = completeSerializedEnvelope text x.2 (some v) none

theorem stampEvents_forall₂ {compressOptIn : Bool} {bodies : List (Message × String)}
    {topicSeqs marks seqs' marks' : Marks}
    (h : stampEvents text compressOptIn topicSeqs marks bodies = some (rs, seqs', marks')) :
    List.Forall₂ (Stamped text) bodies rs ∧ marks' = notes rs marks := by
  induction bodies generalizing topicSeqs marks rs with
  | nil =>
    cases h
    exact ⟨.nil, rfl⟩
  | cons x bodies ih =>
    simp only [stampEvents] at h
    split at h
    · contradiction
    rename_i seq seqs hstamp
    split at h
    · contradiction
    rename_i rs' seqs'' marks'' hrest
    cases h
    obtain ⟨hforall, hmarks⟩ := ih hrest
    refine ⟨.cons ⟨rfl, rfl, rfl, rfl, ?_⟩ hforall, hmarks⟩
    intro v hv
    rw [stamp_explicit hv] at hstamp
    cases hstamp
    exact ⟨rfl, rfl⟩

theorem isExplicit_of_value (h : explicitSeqValue o = some v) : o.isExplicit = true := by
  cases o with
  | number n | bigint z => rfl
  | _ => cases h

/-- The fast path of `publishBatched`: either spelling raises the mark, and neither is
told to a buffer that takes the frame. -/
theorem publishShared_authority {compressOptIn : Bool} {fanoutTopic : String} {ms : List Message}
    (h : publishShared text ws_compression_on compressOptIn s fanoutTopic ms = some s') :
    ∃ rs compress,
      s'.sent = s.sent ++ [⟨fanoutTopic, .batch (rs.map Recorded.envelope), compress⟩] ∧
      s'.resume.marks = notes rs s.resume.marks ∧
      s'.resume.buffers = (captures rs s.resume).buffers ∧
      ∀ i m, ms[i]? = some m → explicitSeqValue m.seq = some v → ∃ r, rs[i]? = some r ∧
        (OneAuthority text v m.topic r.envelope
            (notes (rs.take i) s.resume.marks) (notes (rs.take (i + 1)) s.resume.marks)
            (captures (rs.take i) s.resume).buffers (captures (rs.take (i + 1)) s.resume).buffers ↔
          ¬ Takes (captures (rs.take i) s.resume) m.topic none) := by
  unfold publishShared at h
  split at h
  · contradiction
  rename_i bodies hbodies
  split at h
  · contradiction
  rename_i rs seqs marks hstamp
  cases h
  obtain ⟨hforall, hmarks⟩ := stampEvents_forall₂ hstamp
  have hcaptures := captures_marks rs s.resume marks
  have hbuffers := congrArg Resume.State.buffers hcaptures
  refine ⟨rs, _, rfl, (congrArg Resume.State.marks hcaptures).trans hmarks, hbuffers, ?_⟩
  · intro i m hm hv
    obtain ⟨x, hx, hxm⟩ := forall₂_getElem? (prepareBodies_forall₂ hbodies) hm
    obtain ⟨r, hr, htopic, hexclude, hauth, hmarked, hmade⟩ := forall₂_getElem? hforall hx
    rw [hxm] at htopic hmarked hmade
    obtain ⟨hseq, henv⟩ := hmade v hv
    have hiff := oneAuthority_take hr (explicit_ne_nan hv) hseq
      ⟨_, _, henv⟩ s.resume.marks s.resume
    rw [htopic, hexclude, hauth, hmarked, isExplicit_of_value hv] at hiff
    simp only [true_or, true_and, Bool.false_eq_true, false_or] at hiff
    exact ⟨r, hr, hiff⟩

/-! ## the entries of a wire batch -/

theorem explicit_number (h : explicitSeqValue o = some v) :
    explicitSeqValue (.number v) = some v := by
  cases o with
  | number n =>
    have h' := h
    obtain ⟨-, rfl⟩ := by simpa [explicitSeqValue] using h'
    exact h
  | bigint z =>
    obtain ⟨hz, rfl⟩ := by simpa [explicitSeqValue] using h
    have hint : (JsNumber.ofInt z).integer? = some z := by
      simp [JsNumber.integer?, JsNumber.finite?, JsNumber.ofInt]
    simp [explicitSeqValue, hint, hz]
  | _ => cases h

theorem resolveEntrySeq_explicit (h : explicitSeqValue o = some v) :
    resolveEntrySeq o = some (.number v) := by
  cases o with
  | number n | bigint z => simp [resolveEntrySeq, h]
  | _ => cases h

/-- The record of an entry has its effective exclusion and its normalised seq. -/
def Normalised (options : WireOptions) (e : WireEntry) (x : WireRecord) : Prop :=
  x.data = e.data ∧ resolveEntrySeq e.seq = some x.seq ∧ x.ownExclude = e.excludeWs.isSome ∧
    x.excludeWs = if e.excludeWs.isSome then e.excludeWs else options.excludeWs

theorem captureEntries_forall₂ {entries : List WireEntry}
    {records : List WireRecord} (h : captureEntries options entries = some records) :
    List.Forall₂ (Normalised options) entries records := by
  induction entries generalizing records with
  | nil =>
    cases h
    exact .nil
  | cons e entries ih =>
    simp only [captureEntries] at h
    split at h
    · next seq rest hseq hrest =>
      cases h
      exact .cons ⟨rfl, hseq, rfl, rfl⟩ (ih hrest)
    · contradiction

/-- What the stateful lane makes of a record with an explicit seq. -/
def StampedEntry (text : JsNumber → String) (topic : String) (x : WireRecord) (r : Recorded) : Prop :=
  r.topic = topic ∧ r.marked = x.seq.isNumber ∧ r.authoritative = x.seq.isNumber ∧
    ∀ v, x.seq = .number v → r.seq = some v ∧
      ∃ body, r.envelope = completeSerializedEnvelope text body (some v) none

theorem stampEntries_forall₂ {records : List WireRecord} {topicSeqs seqs' : Marks}
    (h : stampEntries text ws_compression_on topic event options topicSeqs records =
      some (rs, seqs')) : List.Forall₂ (StampedEntry text topic) records rs := by
  induction records generalizing topicSeqs rs with
  | nil =>
    cases h
    exact .nil
  | cons x records ih =>
    simp only [stampEntries] at h
    split at h
    · next seq seqs body hstamp hbody =>
      split at h
      · contradiction
      · next rs' seqs'' hrest =>
        cases h
        refine .cons ⟨rfl, rfl, rfl, ?_⟩ (ih hrest)
        intro v hv
        rw [hv] at hstamp
        cases hstamp
        exact ⟨rfl, body, rfl⟩
    · contradiction

/-- The stateful lane of `publishWireBatch` pays every entry in full. -/
theorem recordWireBatch_authority {entries : List WireEntry}
 (h : recordWireBatch text ws_compression_on s topic event entries options = some (rs, s')) :
    s'.resume.marks = notes rs s.resume.marks ∧
      s'.resume.buffers = (captures rs s.resume).buffers ∧
      ∀ i e, entries[i]? = some e → explicitSeqValue e.seq = some v → ∃ r, rs[i]? = some r ∧
        OneAuthority text v topic r.envelope
          (notes (rs.take i) s.resume.marks) (notes (rs.take (i + 1)) s.resume.marks)
          (captures (rs.take i) s.resume).buffers
          (captures (rs.take (i + 1)) s.resume).buffers := by
  unfold recordWireBatch at h
  split at h
  · contradiction
  split at h
  · contradiction
  rename_i records hrecords
  split at h
  · contradiction
  rename_i rs' seqs hstamp
  cases h
  have hcaptures := captures_marks rs s.resume (notes rs s.resume.marks)
  have hbuffers := congrArg Resume.State.buffers hcaptures
  refine ⟨congrArg Resume.State.marks hcaptures, hbuffers, ?_⟩
  intro i e he hv
  obtain ⟨x, hx, -, hseq, -, -⟩ := forall₂_getElem? (captureEntries_forall₂ hrecords) he
  have hnumber : x.seq = .number v := by
    rw [resolveEntrySeq_explicit hv] at hseq
    exact (Option.some.inj hseq).symm
  obtain ⟨r, hr, htopic, hmarked, hauth, hmade⟩ :=
    forall₂_getElem? (stampEntries_forall₂ hstamp) hx
  obtain ⟨hrseq, body, henv⟩ := hmade v hnumber
  rw [hnumber] at hmarked hauth
  have hiff := oneAuthority_take hr (explicit_ne_nan hv) hrseq
    ⟨_, _, henv⟩ s.resume.marks s.resume
  rw [htopic] at hiff
  exact ⟨r, hr, hiff.mpr ⟨Or.inl hmarked, Or.inl hauth⟩⟩

theorem reroute_authority {entries : List WireEntry}
    {calls : List (Option String × WireOptions)} (h : reroute entries options = some calls)
    {e : WireEntry} (he : entries[i]? = some e) (hv : explicitSeqValue e.seq = some v) :
    ∃ call, calls[i]? = some call ∧ call.2.seq = .number v := by
  unfold reroute at h
  split at h
  · contradiction
  · obtain ⟨records, hrecords, hcalls⟩ := Option.map_eq_some_iff.mp h
    obtain ⟨x, hx, -, hseq, -, -⟩ := forall₂_getElem? (captureEntries_forall₂ hrecords) he
    have hnumber : x.seq = .number v := by
      rw [resolveEntrySeq_explicit hv] at hseq
      exact (Option.some.inj hseq).symm
    refine ⟨(x.data, x.options options), by rw [← hcalls, List.getElem?_map, hx]; rfl, ?_⟩
    simp [WireRecord.options, hnumber]

end

/-! ## every lane -/

/-- **An explicit seq is one authority where its lane makes it one.**  `publish`, the
per-event path of `publishBatched` (which is `publish`) and `publishWire` do for the
spelling as a number, and for the other where the mark is not below the seq and no
open buffer takes the frame; the fast path of `publishBatched` does where no open
buffer takes the frame; `publishWireBatch` always does, on either lane. -/
theorem one_authority_iff (text : JsNumber → String) (ws_compression_on : Bool) (v : JsNumber)
    (s s' : State) :
    (∀ topic event data options, explicitSeqValue options.seq = some v →
      publish text ws_compression_on s topic event data options = some s' →
      ∃ envelope compress, s'.sent = s.sent ++ [⟨topic, .envelope envelope, compress⟩] ∧
        (OneAuthority text v topic envelope s.resume.marks s'.resume.marks s.resume.buffers
            s'.resume.buffers ↔
          options.seq.isNumber = true ∨
            ¬ JsNumber.lt (s.resume.marks.at topic) v ∧ ¬ Takes s.resume topic none)) ∧
    (∀ topic event data options r, explicitSeqValue options.seq = some v →
      recordWire text ws_compression_on s topic event data options = some (r, s') →
      (OneAuthority text v topic r.envelope s.resume.marks s'.resume.marks s.resume.buffers
          s'.resume.buffers ↔
        options.seq.isNumber = true ∨
          ¬ JsNumber.lt (s.resume.marks.at topic) v ∧
            ¬ Takes s.resume topic options.excludeWs)) ∧
    (∀ compressOptIn fanoutTopic (ms : List Message),
      publishShared text ws_compression_on compressOptIn s fanoutTopic ms = some s' →
      ∃ rs compress,
        s'.sent = s.sent ++ [⟨fanoutTopic, .batch (rs.map Recorded.envelope), compress⟩] ∧
        s'.resume.marks = notes rs s.resume.marks ∧
        s'.resume.buffers = (captures rs s.resume).buffers ∧
        ∀ (i : Nat) (m : Message), ms[i]? = some m → explicitSeqValue m.seq = some v → ∃ r, rs[i]? = some r ∧
          (OneAuthority text v m.topic r.envelope
              (notes (rs.take i) s.resume.marks) (notes (rs.take (i + 1)) s.resume.marks)
              (captures (rs.take i) s.resume).buffers
              (captures (rs.take (i + 1)) s.resume).buffers ↔
            ¬ Takes (captures (rs.take i) s.resume) m.topic none)) ∧
    (∀ topic event (entries : List WireEntry) options rs,
      recordWireBatch text ws_compression_on s topic event entries options = some (rs, s') →
      s'.resume.marks = notes rs s.resume.marks ∧
        s'.resume.buffers = (captures rs s.resume).buffers ∧
        ∀ (i : Nat) (e : WireEntry), entries[i]? = some e → explicitSeqValue e.seq = some v → ∃ r, rs[i]? = some r ∧
          OneAuthority text v topic r.envelope
            (notes (rs.take i) s.resume.marks) (notes (rs.take (i + 1)) s.resume.marks)
            (captures (rs.take i) s.resume).buffers
            (captures (rs.take (i + 1)) s.resume).buffers) ∧
    ∀ (entries : List WireEntry) options (calls : List (Option String × WireOptions)),
      reroute entries options = some calls →
      ∀ (i : Nat) (e : WireEntry), entries[i]? = some e → explicitSeqValue e.seq = some v →
        ∃ call : Option String × WireOptions, calls[i]? = some call ∧ ∀ topic event r,
          recordWire text ws_compression_on s topic event call.1 call.2 = some (r, s') →
          OneAuthority text v topic r.envelope s.resume.marks s'.resume.marks s.resume.buffers
            s'.resume.buffers := by
  refine ⟨fun topic event data options hv h => publish_authority hv h,
    fun topic event data options r hv h => recordWire_authority hv h,
    fun compressOptIn fanoutTopic ms h => publishShared_authority h,
    fun topic event entries options rs h => recordWireBatch_authority h, ?_⟩
  intro entries options calls h i e he hv
  obtain ⟨call, hcall, hseq⟩ := reroute_authority h he hv
  refine ⟨call, hcall, fun topic event r hr => ?_⟩
  have hvalue : explicitSeqValue call.2.seq = some v := by
    rw [hseq]
    exact explicit_number hv
  exact (recordWire_authority hvalue hr).mpr (Or.inl (by rw [hseq]; rfl))

/-- A server that has published nothing. -/
def State.init : State where
  topicSeqs := resetSeqState
  resume := { marks := resetSeqState, resumeBuffers := .empty, buffers := .empty, nextBuffer := 0 }
  sent := []

/-- `String(n)` of an integer. -/
def integerText (n : JsNumber) : String := toString (n.integer?.getD 0)

/-- A number is paid in full. -/
theorem one_authority_number : ∃ s' envelope compress,
    publish integerText true .init "t" "e" (some "1") ⟨.number (.ofNat 5), none, true⟩ = some s' ∧
      s'.sent = [⟨"t", .envelope envelope, compress⟩] ∧
      OneAuthority integerText (.ofNat 5) "t" envelope State.init.resume.marks s'.resume.marks
        State.init.resume.buffers s'.resume.buffers := by
  have hv : explicitSeqValue (.number (.ofNat 5)) = some (.ofNat 5) := by decide +kernel
  obtain ⟨s', hs'⟩ : ∃ s', publish integerText true .init "t" "e" (some "1")
      ⟨.number (.ofNat 5), none, true⟩ = some s' := ⟨_, rfl⟩
  obtain ⟨hpublish, -⟩ := one_authority_iff integerText true (.ofNat 5) .init s'
  obtain ⟨envelope, compress, hsent, hiff⟩ := hpublish "t" "e" (some "1") _ hv hs'
  exact ⟨s', envelope, compress, hs', hsent, hiff.mpr (Or.inl rfl)⟩

/-- A bigint seq goes out on the wire and leaves the topic without a mark. -/
theorem bigint_unmarked : ∃ s',
    publish integerText true .init "t" "e" (some "1") ⟨.bigint 5, none, true⟩ = some s' ∧
      explicitSeqValue (.bigint 5) = some (.ofInt 5) ∧
      ¬ OneAuthority integerText (.ofInt 5) "t"
        (completeSerializedEnvelope integerText
          "\x7b\"topic\":\"t\",\"event\":\"e\",\"data\":1" (some (.ofInt 5)) none)
        State.init.resume.marks s'.resume.marks State.init.resume.buffers s'.resume.buffers := by
  refine ⟨_, rfl, rfl, ?_⟩
  intro h
  have hmark := h.mark
  revert hmark
  decide +kernel

end BunServe.Publish
