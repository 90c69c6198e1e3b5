import BunServe.Publish.Authority

/-!
# BunServe.Publish.Batched

The shared frame of `publishBatched` beside the publishes it stands for.

* `plan` — what both paths stamp, and `publishShared_plan`, `publishEach_plan`;
* `qualifies_iff` — when the connections let the shared frame be used;
* `Same` and `step_iff` — when one message does the same on either path;
* `batched_iff` — a batch and all it starts with are delivered, counted, marked
  and held alike exactly if each of its messages is.
-/

namespace BunServe.Publish

open Resume
open List (map_cons mem_cons_of_mem mem_cons_self mem_map_of_mem)

/-! ## what both paths stamp -/

/-- A message with its body and the seq it is given. -/
structure Planned where
  message : Message
  body : String
  seq : Option JsNumber

/-- The bodies and the seqs of a batch. -/
def plan (topicSeqs : Marks) : List Message → Option (List Planned × Marks)
  | [] => some ([], topicSeqs)
  | m :: rest =>
    match envelopeBody m.topic m.event m.data, stampSeqValue topicSeqs m.seq m.topic with
    | some body, some (seq, topicSeqs) =>
      (plan topicSeqs rest).map fun x => (⟨m, body, seq⟩ :: x.1, x.2)
    | _, _ => none

section

variable (text : JsNumber → String) (ws_compression_on compressOptIn : Bool)

def Planned.shared (x : Planned) : Recorded where
  topic := x.message.topic
  seq := x.seq
  envelope := completeSerializedEnvelope text x.body x.seq none
  compress := compressOptIn
  excludeWs := none
  marked := x.message.seq.isExplicit
  authoritative := false

/-- What `publish` records of it. -/
def Planned.each (x : Planned) : Recorded where
  topic := x.message.topic
  seq := x.seq
  envelope := completeSerializedEnvelope text x.body x.seq (effectiveJitter x.message.jitterMs)
  compress := ws_compression_on && compressOptIn
  excludeWs := none
  marked := x.message.seq.isNumber
  authoritative := x.message.seq.isNumber

def commits (rs : List Recorded) (s : Resume.State) : Resume.State :=
  rs.foldl (fun s r => r.commit s) s

theorem commits_eq (rs : List Recorded) (s : Resume.State) :
    commits rs s = { captures rs s with marks := notes rs s.marks } := by
  induction rs generalizing s with
  | nil => rfl
  | cons r rs ih =>
    show commits rs (r.commit s) = { captures rs (r.capture s) with marks := notes rs (r.note s.marks) }
    rw [ih, commit_eq, captures_marks]

end

section

variable {text : JsNumber → String} {ws_compression_on compressOptIn : Bool}

variable (text compressOptIn) in
theorem stampEvents_plan (topicSeqs marks : Marks) (ms : List Message) :
    (prepareBodies ms).bind (stampEvents text compressOptIn topicSeqs marks) =
      (plan topicSeqs ms).map fun x =>
        (x.1.map (Planned.shared text compressOptIn), x.2,
          notes (x.1.map (Planned.shared text compressOptIn)) marks) := by
  induction ms generalizing topicSeqs marks with
  | nil => rfl
  | cons m ms ih =>
    simp only [prepareBodies, plan]
    cases hbody : envelopeBody m.topic m.event m.data with
    | none => rfl
    | some body =>
      cases hstamp : stampSeqValue topicSeqs m.seq m.topic with
      | none =>
        cases hrest : prepareBodies ms with
        | none => rfl
        | some bodies => simp [stampEvents, hstamp]
      | some y =>
        obtain ⟨seq, seqs⟩ := y
        have hih := ih seqs ((Planned.shared text compressOptIn ⟨m, body, seq⟩).note marks)
        cases hrest : prepareBodies ms with
        | none =>
          rw [hrest] at hih
          cases hplan : plan seqs ms with
          | none => simp [hplan]
          | some z =>
            rw [hplan] at hih
            cases hih
        | some bodies =>
          rw [hrest, Option.bind_some] at hih
          simp only [Option.bind_some, stampEvents, hstamp]
          rw [show Recorded.mk m.topic seq (completeSerializedEnvelope text body seq none)
              compressOptIn none m.seq.isExplicit false =
            Planned.shared text compressOptIn ⟨m, body, seq⟩ from rfl, hih]
          cases hplan : plan seqs ms with
          | none | some z => rfl

variable (text ws_compression_on compressOptIn) in
theorem publishShared_plan (s : State) (fanoutTopic : String) (ms : List Message) :
    publishShared text ws_compression_on compressOptIn s fanoutTopic ms =
      (plan s.topicSeqs ms).map fun x =>
        { topicSeqs := x.2
          resume := commits (x.1.map (Planned.shared text compressOptIn)) s.resume
          sent := s.sent ++ [⟨fanoutTopic,
            .batch (x.1.map fun p => (Planned.shared text compressOptIn p).envelope),
            ws_compression_on && compressOptIn⟩] } := by
  have hplan := stampEvents_plan text compressOptIn s.topicSeqs s.resume.marks ms
  unfold publishShared
  cases hbodies : prepareBodies ms with
  | none =>
    rw [hbodies] at hplan
    cases hp : plan s.topicSeqs ms with
    | none => rfl
    | some x =>
      rw [hp] at hplan
      cases hplan
  | some bodies =>
    rw [hbodies, Option.bind_some] at hplan
    simp only [hplan]
    cases hp : plan s.topicSeqs ms with
    | none => rfl
    | some x =>
      have hmarks := captures_marks (x.1.map (Planned.shared text compressOptIn)) s.resume
        (notes (x.1.map (Planned.shared text compressOptIn)) s.resume.marks)
      simp only [Option.map_some, Option.some.injEq, commits_eq, ← hmarks]
      simp [captures, Function.comp_def]

variable (text ws_compression_on compressOptIn) in
theorem publishEach_plan (s : State) (ms : List Message) :
    publishEach text ws_compression_on compressOptIn s ms =
      (plan s.topicSeqs ms).map fun x =>
        { topicSeqs := x.2
          resume := commits (x.1.map (Planned.each text ws_compression_on compressOptIn)) s.resume
          sent := s.sent ++ x.1.map fun p => ⟨p.message.topic,
            .envelope (Planned.each text ws_compression_on compressOptIn p).envelope,
            ws_compression_on && compressOptIn⟩ } := by
  induction ms generalizing s with
  | nil => simp [publishEach, plan, commits]
  | cons m ms ih =>
    simp only [publishEach, publish, stamp, plan, Message.options]
    cases hbody : envelopeBody m.topic m.event m.data with
    | none => rfl
    | some body =>
      cases hstamp : stampSeqValue s.topicSeqs m.seq m.topic with
      | none => rfl
      | some y =>
        obtain ⟨seq, seqs⟩ := y
        simp only [ih]
        cases hplan : plan seqs ms with
        | none => rfl
        | some z =>
          simp only [Option.map_some, Option.some.injEq, map_cons,
            List.append_assoc, List.cons_append, List.nil_append]
          rfl

end

/-! ## the connections of a shared frame -/

/-- A connection that holds one topic of the batch holds them all and takes batches. -/
def SeesAll (topics : List String) (ws : Connection) : Prop :=
  (∃ t ∈ topics, t ∈ ws.subscriptions) → (∀ t ∈ topics, t ∈ ws.subscriptions) ∧ "batch" ∈ ws.caps

theorem detect_iff {allSameTopic : Bool} {topics : List String}
    (hsame : allSameTopic = true → ∀ t ∈ topics, ∀ t' ∈ topics, t = t') (conns : List Connection) :
    (!((!allSameTopic && !(detect allSameTopic topics conns).1) ||
      !(detect allSameTopic topics conns).2)) = true ↔ ∀ ws ∈ conns, SeesAll topics ws := by
  induction conns with
  | nil => simp [detect]
  | cons ws conns ih =>
    simp only [List.forall_mem_cons, detect]
    by_cases hsubs : ws.subscriptions = []
    · have hsees : SeesAll topics ws := by
        rintro ⟨t, -, ht⟩
        rw [hsubs] at ht
        contradiction
      simp only [hsubs, hsees, true_and]
      exact ih
    · simp only [if_neg hsubs]
      by_cases hany : (∃ t ∈ topics, t ∈ ws.subscriptions)
      · have hany' : (topics.any fun t => decide (t ∈ ws.subscriptions)) = true := by
          simpa using hany
        by_cases hall : ∀ t ∈ topics, t ∈ ws.subscriptions
        · have hall' : (topics.all fun t => decide (t ∈ ws.subscriptions)) = true := by
            simpa using hall
          simp only [hany', hall', Bool.not_true, Bool.and_false]
          by_cases hcap : "batch" ∈ ws.caps
          · have hsees : SeesAll topics ws := fun _ => ⟨hall, hcap⟩
            simp only [hcap, hsees,
              true_and]
            exact ih
          · have hsees : ¬ SeesAll topics ws := fun h => hcap (h hany).2
            simp [hcap, hsees]
        · have hall' : (topics.all fun t => decide (t ∈ ws.subscriptions)) = false := by
            simpa using hall
          have hsees : ¬ SeesAll topics ws := fun h => hall (h hany).1
          cases hall'' : allSameTopic with
          | true =>
            -- one topic: to hold it is to hold them all
            obtain ⟨t, ht, hmem⟩ := hany
            refine absurd (fun t' ht' => ?_) hall
            rw [hsame hall'' t' ht' t ht]
            exact hmem
          | false => simp [hany', hall', hsees]
      · have hany' : (topics.any fun t => decide (t ∈ ws.subscriptions)) = false := by
          simpa using hany
        have hsees : SeesAll topics ws := fun h => absurd h hany
        simp only [hany', Bool.and_false, if_true, hsees, true_and]
        exact ih

/-- **When the shared frame may be used.** -/
theorem qualifies_iff (conns : List Connection) (ms : List Message) :
    qualifies conns ms = true ↔ ∀ ws ∈ conns, SeesAll (ms.map Message.topic) ws := by
  cases ms with
  | nil => simp [qualifies, SeesAll]
  | cons first rest =>
    refine detect_iff ?_ conns
    intro hsame t ht t' ht'
    have hfirst : ∀ t ∈ (first :: rest).map Message.topic, t = first.topic := by
      intro t ht
      obtain ⟨m, hm, rfl⟩ := List.mem_map.mp ht
      cases List.mem_cons.mp hm with
      | inl heq => rw [heq]
      | inr hmem => exact of_decide_eq_true (List.all_eq_true.mp hsame m hmem)
    rw [hfirst t ht, hfirst t' ht']

theorem SeesAll.sublist {topics topics' : List String} {ws : Connection} (h : SeesAll topics ws)
    (hsub : ∀ t ∈ topics', t ∈ topics) : SeesAll topics' ws := by
  rintro ⟨t, ht, hmem⟩
  obtain ⟨hall, hcap⟩ := h ⟨t, hsub t ht, hmem⟩
  exact ⟨fun t' ht' => hall t' (hsub t' ht'), hcap⟩

/-! ## coalescing -/

/-- No two messages have one key. -/
def Coalesced (ms : List Message) : Prop :=
  ms.Pairwise fun m m' => m.coalesceKey.isSome = true → m'.coalesceKey ≠ m.coalesceKey

theorem overtaken_iff (m : Message) (later : List Message) : overtaken m later = true ↔
    m.coalesceKey.isSome = true ∧ ∃ x ∈ later, x.coalesceKey = m.coalesceKey := by
  simp [overtaken]

theorem collapse_subset (ms : List Message) : ∀ m ∈ collapseByCoalesceKey ms, m ∈ ms := by
  induction ms with
  | nil => simp [collapseByCoalesceKey]
  | cons m ms ih =>
    intro x hx
    simp only [collapseByCoalesceKey] at hx
    split at hx
    · exact mem_cons_of_mem _ (ih x hx)
    · cases List.mem_cons.mp hx with
      | inl heq => exact heq ▸ mem_cons_self ..
      | inr hmem => exact mem_cons_of_mem _ (ih x hmem)

theorem coalesced_collapse (ms : List Message) : Coalesced (collapseByCoalesceKey ms) := by
  induction ms with
  | nil => exact .nil
  | cons m ms ih =>
    simp only [collapseByCoalesceKey]
    split
    · exact ih
    · next hkept =>
      refine .cons (fun x hx hkey heq => ?_) ih
      exact hkept ((overtaken_iff m ms).mpr ⟨hkey, x, collapse_subset ms x hx, heq⟩)

variable {ms : List Message}

theorem Coalesced.collapse (h : Coalesced ms) : collapseByCoalesceKey ms = ms := by
  induction ms with
  | nil => rfl
  | cons m ms ih =>
    obtain ⟨hm, hms⟩ := List.pairwise_cons.mp h
    have hkept : ¬ overtaken m ms = true := by
      intro hover
      obtain ⟨hkey, x, hx, heq⟩ := (overtaken_iff m ms).mp hover
      exact hm x hx hkey heq
    simp only [collapseByCoalesceKey, if_neg hkept, ih hms]

/-! ## one message on either path -/

theorem envelope_eq_iff (text : JsNumber → String) (body : String) (seq j : Option JsNumber) :
    completeSerializedEnvelope text body seq j = completeSerializedEnvelope text body seq none ↔
      j = none := by
  cases j with
  | none => simp
  | some j =>
    refine ⟨fun h => ?_, fun h => by contradiction⟩
    have hlen := congrArg String.length h
    cases seq with
    | none | some seq =>
      simp only [completeSerializedEnvelope, envelopeTail, String.length_append] at hlen
      have : ",\"j\":".length = 5 := rfl
      omega

theorem noMark_lt_explicit {o : SeqOption} {v : JsNumber} (h : explicitSeqValue o = some v) :
    JsNumber.lt NO_MARK v := by
  cases o with
  | number n =>
    simp only [explicitSeqValue] at h
    obtain ⟨hn, ⟨⟩⟩ := Option.ite_none_right_eq_some.mp h
    cases v with
    | nan => simp [JsNumber.integer?, JsNumber.finite?] at hn
    | real x =>
      have hx : x ≠ ⊥ := by
        intro heq
        rw [heq] at hn
        exact absurd hn (by decide)
      exact bot_lt_iff_ne_bot.mpr hx
  | bigint z =>
    obtain ⟨-, rfl⟩ := by simpa [explicitSeqValue] using h
    exact WithBot.bot_lt_coe _
  | _ => cases h

theorem note_eq_iff (m : Marks) (topic : String) {v : JsNumber} (hlow : JsNumber.lt NO_MARK v) :
    notePublishedSeq m topic v false = notePublishedSeq m topic v true ↔
      ¬ JsNumber.lt (m.at topic) v := by
  have hv : v ≠ .nan := by
    intro heq
    rw [heq] at hlow
    exact JsNumber.not_lt_nan _ hlow
  refine ⟨fun h => ?_, fun h => ?_⟩
  · have hat := congrArg (fun m : Marks => m.at topic) h
    simp only [at_note hv, at_note_counter] at hat
    exact (max_eq_left_iff hv).mp hat.symm
  · unfold notePublishedSeq
    cases hprev : m.map.get? topic with
    | some prev =>
      have hlt : ¬ JsNumber.lt prev v := by simpa [Marks.at, hprev] using h
      simp [hlt]
    | none =>
      -- a topic without a mark is below every seq
      have hlt : ¬ JsNumber.lt NO_MARK v := by simpa [Marks.at, hprev] using h
      exact absurd hlow hlt

theorem foldl_captureInto_congr {f f' : Frame} {excludeWs : Option Socket} {set : List Nat}
    {buffers : JsMap Nat Buffer} (h : ∀ id ∈ set, ∀ b, buffers.get? id = some b →
      ¬ (excludeWs ≠ some b.ws ∧ b.frames.length < MAX_RESUME_BUFFERED_FRAMES)) :
    set.foldl (captureInto f excludeWs) buffers = set.foldl (captureInto f' excludeWs) buffers := by
  induction set generalizing buffers with
  | nil => rfl
  | cons i set ih =>
    have hsame : ∀ b, buffers.get? i = some b →
        b.capture f excludeWs = b.capture f' excludeWs ∧
          (b.capture f' excludeWs).ws = b.ws ∧ (b.capture f' excludeWs).frames = b.frames := by
      intro b hb
      have hno := h i (mem_cons_self ..) b hb
      unfold Buffer.capture
      by_cases hws : excludeWs = some b.ws
      · simp [hws]
      · have hfull : b.frames.length ≥ MAX_RESUME_BUFFERED_FRAMES :=
          Nat.not_lt.mp fun hroom => hno ⟨hws, hroom⟩
        simp [hws, hfull]
    have hstep : captureInto f excludeWs buffers i = captureInto f' excludeWs buffers i := by
      unfold captureInto
      cases hb : buffers.get? i with
      | none => rfl
      | some b => simp only [(hsame b hb).1]
    rw [List.foldl_cons, hstep]
    refine ih fun id hid b hb => ?_
    rw [get?_captureInto] at hb
    split at hb
    · next heq =>
      subst heq
      obtain ⟨b₀, hb₀, hcap⟩ := Option.map_eq_some_iff.mp hb
      obtain ⟨-, hws, hframes⟩ := hsame b₀ hb₀
      rw [← hcap, hws, hframes]
      exact h id (mem_cons_self ..) b₀ hb₀
    · exact h id (mem_cons_of_mem _ hid) b hb

theorem capture_eq_iff {r r' : Recorded} (htopic : r.topic = r'.topic)
    (hexclude : r.excludeWs = r'.excludeWs) (s : Resume.State) :
    (r.capture s).buffers = (r'.capture s).buffers ↔
      (Takes s r'.topic r'.excludeWs → r.frame = r'.frame) := by
  unfold Recorded.capture captureResumeFrame Takes
  rw [htopic, hexclude]
  cases hset : s.resumeBuffers.get? r'.topic with
  | none => simp
  | some set =>
    simp only [Option.some.injEq, exists_eq_left']
    refine ⟨fun h htakes => ?_, fun h => ?_⟩
    · obtain ⟨id, hid, b, hb, hws, hroom⟩ := htakes
      have hget := congrArg (fun buffers => JsMap.get? buffers id) h
      simp only [get?_foldl_captureInto, hb, Option.map_some, Option.some.injEq] at hget
      obtain ⟨k, hframes, hk⟩ := frames_iterate r.frame r'.excludeWs (set.count id) b
      obtain ⟨k', hframes', hk'⟩ := frames_iterate r'.frame r'.excludeWs (set.count id) b
      rw [hget, hframes'] at hframes
      have hrep := List.append_cancel_left hframes
      have hpos : 0 < k := hk.mp ⟨List.count_pos_iff.mpr hid, hws, hroom⟩
      have hmem : r.frame ∈ List.replicate k' r'.frame := by
        rw [hrep]
        exact List.mem_replicate.mpr ⟨Nat.pos_iff_ne_zero.mp hpos, rfl⟩
      exact (List.mem_replicate.mp hmem).2
    · by_cases htakes : ∃ id ∈ set, ∃ b, s.buffers.get? id = some b ∧
          r'.excludeWs ≠ some b.ws ∧ b.frames.length < MAX_RESUME_BUFFERED_FRAMES
      · rw [h htakes]
      · refine foldl_captureInto_congr fun id hid b hb hroom => htakes ⟨id, hid, b, hb, hroom⟩

/-- A message the shared frame treats as `publish` does: it asks for no window that
a subscriber or a buffer would see, no buffer takes it with an explicit seq as a
number or with a compression the server has not turned on, and as a bigint its seq is
not above the mark. -/
structure Same (ws_compression_on compressOptIn : Bool) (conns : List Connection)
    (s : Resume.State) (m : Message) : Prop where
  jitter : effectiveJitter m.jitterMs ≠ none →
    (∀ ws ∈ conns, m.topic ∉ ws.subscriptions) ∧ ¬ Takes s m.topic none
  number : m.seq.isNumber = true → ¬ Takes s m.topic none
  bigint : ∀ z, m.seq = .bigint z → ¬ JsNumber.lt (s.marks.at m.topic) (.ofInt z)
  compress : compressOptIn = true → ws_compression_on = false → ¬ Takes s m.topic none

section

variable {text : JsNumber → String} {ws_compression_on compressOptIn : Bool}

/-- The seq of a plan is the explicit one, where the message has one. -/
def Planned.Stamps (x : Planned) : Prop :=
  ∃ topicSeqs topicSeqs', stampSeqValue topicSeqs x.message.seq x.message.topic =
    some (x.seq, topicSeqs')

theorem note_planned {x : Planned} (hx : x.Stamps) (m : Marks) :
    (Planned.each text ws_compression_on compressOptIn x).note m =
        (Planned.shared text compressOptIn x).note m ↔
      ∀ z, x.message.seq = .bigint z → ¬ JsNumber.lt (m.at x.message.topic) (.ofInt z) := by
  obtain ⟨seqs, seqs', hstamp⟩ := hx
  simp only [Recorded.note, Planned.each, Planned.shared]
  cases hseq : x.message.seq with
  | bigint z =>
    simp only [hseq, stampSeqValue] at hstamp
    cases hv : explicitSeqValue (.bigint z) with
    | none =>
      rw [hv] at hstamp
      cases hstamp
    | some v =>
      rw [hv] at hstamp
      have hxs : x.seq = some v := by
        simp only [Option.map_some, Option.some.injEq, Prod.mk.injEq] at hstamp
        exact hstamp.1.symm
      have hvz : v = .ofInt z := by
        simp only [explicitSeqValue] at hv
        split at hv
        · exact (Option.some.inj hv).symm
        · contradiction
      have hiff := note_eq_iff m x.message.topic (noMark_lt_explicit hv)
      simpa [hxs, SeqOption.isNumber, SeqOption.isExplicit, hvz] using hiff
  | _ => simp [SeqOption.isNumber, SeqOption.isExplicit]

theorem frame_planned (x : Planned) :
    (Planned.each text ws_compression_on compressOptIn x).frame =
        (Planned.shared text compressOptIn x).frame ↔
      effectiveJitter x.message.jitterMs = none ∧ x.message.seq.isNumber = false ∧
        ¬ (compressOptIn = true ∧ ws_compression_on = false) := by
  simp only [Recorded.frame, Planned.each, Planned.shared, Frame.mk.injEq,
    envelope_eq_iff]
  cases ws_compression_on <;> cases compressOptIn <;> simp

variable (text ws_compression_on compressOptIn) in
/-- **One message.**  It does the same on either path exactly where `Same` holds. -/
theorem step_iff (conns : List Connection) {x : Planned} (hx : x.Stamps) (s : Resume.State) :
    ((Planned.each text ws_compression_on compressOptIn x).commit s =
        (Planned.shared text compressOptIn x).commit s ∧
      ∀ ws ∈ conns, x.message.topic ∈ ws.subscriptions →
        (Planned.each text ws_compression_on compressOptIn x).envelope =
          (Planned.shared text compressOptIn x).envelope) ↔
    Same ws_compression_on compressOptIn conns s x.message := by
  have hcommit : (Planned.each text ws_compression_on compressOptIn x).commit s =
      (Planned.shared text compressOptIn x).commit s ↔
      (Planned.each text ws_compression_on compressOptIn x).note s.marks =
        (Planned.shared text compressOptIn x).note s.marks ∧
      ((Planned.each text ws_compression_on compressOptIn x).capture s).buffers =
        ((Planned.shared text compressOptIn x).capture s).buffers := by
    rw [commit_eq, commit_eq, capture_eq, capture_eq (Planned.shared text compressOptIn x)]
    simp
  have hcapture := capture_eq_iff (show (Planned.each text ws_compression_on compressOptIn x).topic =
    (Planned.shared text compressOptIn x).topic from rfl) rfl s
  have henv : (Planned.each text ws_compression_on compressOptIn x).envelope =
      (Planned.shared text compressOptIn x).envelope ↔
      effectiveJitter x.message.jitterMs = none := envelope_eq_iff ..
  rw [hcommit, hcapture, note_planned hx, frame_planned, henv]
  refine ⟨fun h => ?_, fun h => ?_⟩
  · obtain ⟨⟨hbigint, htakes⟩, hsubs⟩ := h
    refine ⟨fun hj => ⟨fun ws hws hmem => hj (hsubs ws hws hmem), fun ht => hj (htakes ht).1⟩,
      fun hn ht => ?_, hbigint, fun hc ho ht => (htakes ht).2.2 ⟨hc, ho⟩⟩
    have := (htakes ht).2.1
    rw [hn] at this
    contradiction
  · refine ⟨⟨h.bigint, fun ht => ⟨?_, ?_, fun hc => h.compress hc.1 hc.2 ht⟩⟩, ?_⟩
    · by_cases hj : effectiveJitter x.message.jitterMs = none
      · exact hj
      · exact absurd ht (h.jitter hj).2
    · cases hn : x.message.seq.isNumber with
      | false => rfl
      | true => exact absurd ht (h.number hn)
    · intro ws hws hmem
      by_cases hj : effectiveJitter x.message.jitterMs = none
      · exact hj
      · exact absurd hmem ((h.jitter hj).1 ws hws)

/-! ## a batch on either path -/

/-- Every message does the same, in the state the messages before it leave. -/
def Faithful (text : JsNumber → String) (ws_compression_on compressOptIn : Bool)
    (conns : List Connection) : State → List Message → Prop
  | _, [] => True
  | s, m :: rest =>
    Same ws_compression_on compressOptIn conns s.resume m ∧
      ∀ s', publish text ws_compression_on s m.topic m.event m.data (m.options compressOptIn) =
        some s' → Faithful text ws_compression_on compressOptIn conns s' rest

/-- `Faithful`, over the plan. -/
def FaithfulPlan (text : JsNumber → String) (ws_compression_on compressOptIn : Bool)
    (conns : List Connection) : Resume.State → List Planned → Prop
  | _, [] => True
  | s, x :: rest =>
    Same ws_compression_on compressOptIn conns s x.message ∧
      FaithfulPlan text ws_compression_on compressOptIn conns
        ((Planned.each text ws_compression_on compressOptIn x).commit s) rest

variable {seqs' : Marks} {xs : List Planned}

theorem plan_cons {topicSeqs : Marks} {m : Message}
    (h : plan topicSeqs (m :: ms) = some (xs, seqs')) : ∃ body seq seqs rest,
      envelopeBody m.topic m.event m.data = some body ∧
      stampSeqValue topicSeqs m.seq m.topic = some (seq, seqs) ∧
      plan seqs ms = some (rest, seqs') ∧ xs = ⟨m, body, seq⟩ :: rest := by
  simp only [plan] at h
  split at h
  · next body seq seqs hbody hstamp =>
    obtain ⟨⟨rest, seqs''⟩, hrest, heq⟩ := Option.map_eq_some_iff.mp h
    cases heq
    exact ⟨body, seq, seqs, rest, hbody, hstamp, hrest, rfl⟩
  · contradiction

variable {conns : List Connection}

theorem faithful_plan {s : State} (h : plan s.topicSeqs ms = some (xs, seqs')) :
    Faithful text ws_compression_on compressOptIn conns s ms ↔
      FaithfulPlan text ws_compression_on compressOptIn conns s.resume xs := by
  induction ms generalizing s xs with
  | nil =>
    cases h
    exact Iff.rfl
  | cons m ms ih =>
    obtain ⟨body, seq, seqs, rest, hbody, hstamp, hrest, rfl⟩ := plan_cons h
    have hpublish : publish text ws_compression_on s m.topic m.event m.data
        (m.options compressOptIn) = some
          { topicSeqs := seqs
            resume := (Planned.each text ws_compression_on compressOptIn ⟨m, body, seq⟩).commit
              s.resume
            sent := s.sent ++ [⟨m.topic, .envelope
              (Planned.each text ws_compression_on compressOptIn ⟨m, body, seq⟩).envelope,
              ws_compression_on && compressOptIn⟩] } := by
      simp only [publish, stamp, Message.options, hbody, hstamp]
      rfl
    simp only [Faithful, hpublish, Option.some.injEq, forall_eq']
    exact and_congr_right fun _ => ih hrest

theorem plan_take {topicSeqs : Marks} (h : plan topicSeqs ms = some (xs, seqs')) (k : Nat) :
    ∃ seqs'', plan topicSeqs (ms.take k) = some (xs.take k, seqs'') := by
  induction ms generalizing topicSeqs xs k with
  | nil =>
    cases h
    exact ⟨seqs', by simp [plan]⟩
  | cons m ms ih =>
    obtain ⟨body, seq, seqs, rest, hbody, hstamp, hrest, rfl⟩ := plan_cons h
    cases k with
    | zero => exact ⟨topicSeqs, by simp [plan]⟩
    | succ k =>
      obtain ⟨seqs'', hk⟩ := ih hrest k
      exact ⟨seqs'', by simp [plan, hbody, hstamp, hk]⟩

theorem plan_messages {topicSeqs : Marks} (h : plan topicSeqs ms = some (xs, seqs')) :
    xs.map Planned.message = ms ∧ ∀ x ∈ xs, x.Stamps := by
  induction ms generalizing topicSeqs xs with
  | nil =>
    cases h
    simp
  | cons m ms ih =>
    obtain ⟨body, seq, seqs, rest, hbody, hstamp, hrest, rfl⟩ := plan_cons h
    obtain ⟨hmap, hstamps⟩ := ih hrest
    refine ⟨by rw [map_cons, hmap], ?_⟩
    intro x hx
    cases List.mem_cons.mp hx with
    | inl heq =>
      rw [heq]
      exact ⟨topicSeqs, seqs, hstamp⟩
    | inr hmem => exact hstamps x hmem

/-- The connections of a list of planned messages are told the same. -/
def ToldAlike (text : JsNumber → String) (ws_compression_on compressOptIn : Bool)
    (conns : List Connection) (xs : List Planned) : Prop :=
  ∀ ws ∈ conns, ∀ x ∈ xs, x.message.topic ∈ ws.subscriptions →
    (Planned.each text ws_compression_on compressOptIn x).envelope =
      (Planned.shared text compressOptIn x).envelope

theorem paths_iff (hxs : ∀ x ∈ xs, x.Stamps) (s : Resume.State) :
    (∀ k, commits ((xs.take k).map (Planned.each text ws_compression_on compressOptIn)) s =
        commits ((xs.take k).map (Planned.shared text compressOptIn)) s ∧
      ToldAlike text ws_compression_on compressOptIn conns (xs.take k)) ↔
    FaithfulPlan text ws_compression_on compressOptIn conns s xs := by
  induction xs generalizing s with
  | nil => simp [ToldAlike, FaithfulPlan]
  | cons x xs ih =>
    have hstep := step_iff text ws_compression_on compressOptIn conns
      (hxs x (mem_cons_self ..)) s
    have hrest := ih (fun y hy => hxs y (mem_cons_of_mem _ hy))
      ((Planned.each text ws_compression_on compressOptIn x).commit s)
    refine ⟨fun h => ?_, fun h => ?_⟩
    · obtain ⟨hone, htold⟩ := h 1
      have hsame : (Planned.each text ws_compression_on compressOptIn x).commit s =
          (Planned.shared text compressOptIn x).commit s := by
        exact hone
      refine ⟨hstep.mp ⟨hsame, fun ws hws => htold ws hws x (by simp)⟩, hrest.mp fun k => ?_⟩
      obtain ⟨hk, hktold⟩ := h (k + 1)
      refine ⟨?_, fun ws hws y hy => hktold ws hws y (by simp [hy])⟩
      have hk' : commits ((xs.take k).map (Planned.each text ws_compression_on compressOptIn))
            ((Planned.each text ws_compression_on compressOptIn x).commit s) =
          commits ((xs.take k).map (Planned.shared text compressOptIn))
            ((Planned.shared text compressOptIn x).commit s) := hk
      rw [← hsame] at hk'
      exact hk'
    · obtain ⟨hsame, henv⟩ := hstep.mpr h.1
      intro k
      cases k with
      | zero => simp [ToldAlike]
      | succ k =>
        obtain ⟨hk, hktold⟩ := hrest.mpr h.2 k
        refine ⟨?_, ?_⟩
        · show commits _ ((Planned.each text ws_compression_on compressOptIn x).commit s) =
            commits _ ((Planned.shared text compressOptIn x).commit s)
          rw [← hsame]
          exact hk
        · intro ws hws y hy
          cases List.mem_cons.mp hy with
          | inl heq =>
            rw [heq]
            exact henv ws hws
          | inr hmem => exact hktold ws hws y hmem

/-! ## the batch of a caller -/

theorem received_append (ws : Connection) (xs ys : List Sent) :
    ws.received (xs ++ ys) = ws.received xs ++ ws.received ys := by
  simp [Connection.received]

theorem received_each {ws : Connection} (hall : ∀ p ∈ xs, p.message.topic ∈ ws.subscriptions) :
    ws.received (xs.map fun p => ⟨p.message.topic,
        .envelope (Planned.each text ws_compression_on compressOptIn p).envelope,
        ws_compression_on && compressOptIn⟩) =
      xs.map fun p => (Planned.each text ws_compression_on compressOptIn p).envelope := by
  induction xs with
  | nil => rfl
  | cons x xs ih =>
    have hx := hall x (mem_cons_self ..)
    have hrest := ih fun p hp => hall p (mem_cons_of_mem _ hp)
    simp only [Connection.received, map_cons, List.flatMap_cons, hx, if_true,
      Payload.envelopes, List.singleton_append] at hrest ⊢
    rw [hrest]

variable (text ws_compression_on compressOptIn) in
theorem told_iff {x : Planned}
    (hsees : ∀ ws ∈ conns, SeesAll ((x :: xs).map fun p => p.message.topic) ws) (sent : List Sent) :
    (∀ ws ∈ conns, ws.received (sent ++ [⟨x.message.topic,
          .batch ((x :: xs).map fun p => (Planned.shared text compressOptIn p).envelope),
          ws_compression_on && compressOptIn⟩]) =
        ws.received (sent ++ (x :: xs).map fun p => ⟨p.message.topic,
          .envelope (Planned.each text ws_compression_on compressOptIn p).envelope,
          ws_compression_on && compressOptIn⟩)) ↔
      ToldAlike text ws_compression_on compressOptIn conns (x :: xs) := by
  refine forall₂_congr fun ws hws => ?_
  rw [received_append, received_append, List.append_right_inj]
  by_cases hmem : x.message.topic ∈ ws.subscriptions
  · have hall : ∀ p ∈ x :: xs, p.message.topic ∈ ws.subscriptions := fun p hp =>
      (hsees ws hws ⟨x.message.topic, mem_map_of_mem (mem_cons_self ..), hmem⟩).1 _
        (mem_map_of_mem hp)
    rw [received_each hall]
    simp only [Connection.received, List.flatMap_cons, List.flatMap_nil, hmem, if_true,
      Payload.envelopes, List.append_nil]
    rw [List.map_inj_left]
    exact ⟨fun h p hp _ => (h p hp).symm, fun h p hp => (h p hp (hall p hp)).symm⟩
  · have hnone : ∀ p ∈ x :: xs, p.message.topic ∉ ws.subscriptions := fun p hp hp' =>
      hmem ((hsees ws hws ⟨p.message.topic, mem_map_of_mem hp, hp'⟩).1 _
        (mem_map_of_mem (mem_cons_self ..)))
    have heach : ws.received ((x :: xs).map fun p => ⟨p.message.topic,
        .envelope (Planned.each text ws_compression_on compressOptIn p).envelope,
        ws_compression_on && compressOptIn⟩) = [] := by
      unfold Connection.received
      rw [List.flatMap_map, List.flatMap_eq_nil_iff]
      exact fun p hp => by simp [hnone p hp]
    rw [heach]
    refine ⟨fun _ p hp hp' => absurd hp' (hnone p hp), fun _ => ?_⟩
    simp [Connection.received, hmem]

/-- Two states that cannot be told apart: the counters, what a resume can see, and
what each connection received. -/
structure Agree (conns : List Connection) (a b : State) : Prop where
  counters : a.topicSeqs = b.topicSeqs
  resume : a.resume = b.resume
  received : ∀ ws ∈ conns, ws.received a.sent = ws.received b.sent

/-- `publishBatched` does what publishing the coalesced messages one by one does. -/
def Equals (text : JsNumber → String) (ws_compression_on compressOptIn : Bool)
    (conns : List Connection) (s : State) (ms : List Message) : Prop :=
  ∃ a b, publishBatched text ws_compression_on compressOptIn conns s ms = some a ∧
    publishEach text ws_compression_on compressOptIn s (collapseByCoalesceKey ms) = some b ∧
    Agree conns a b

theorem stampable_of_stamp {seqs : Marks} {o : SeqOption} {topic : String}
    {x : Option JsNumber × Marks} (h : stampSeqValue seqs o topic = some x) :
    assertStampableSeq o = true := by
  cases o with
  | undefined | null => rfl
  | bool b => cases b <;> rfl
  | number n | bigint z =>
    obtain ⟨v, hv, -⟩ := Option.map_eq_some_iff.mp h
    simp [assertStampableSeq, stampSeqValue, hv]
  | other => cases h

theorem equals_iff {s : State} (hms : Coalesced ms) (hq : qualifies conns ms = true)
    (hplan : plan s.topicSeqs ms = some (xs, seqs')) :
    Equals text ws_compression_on compressOptIn conns s ms ↔
      commits (xs.map (Planned.each text ws_compression_on compressOptIn)) s.resume =
          commits (xs.map (Planned.shared text compressOptIn)) s.resume ∧
        ToldAlike text ws_compression_on compressOptIn conns xs := by
  obtain ⟨hmap, hstamps⟩ := plan_messages hplan
  have heach := publishEach_plan text ws_compression_on compressOptIn s ms
  rw [hplan, Option.map_some] at heach
  unfold Equals publishBatched
  rw [hms.collapse]
  cases ms with
  | nil =>
    cases hplan
    refine ⟨fun _ => ⟨rfl, fun _ _ x hx => by contradiction⟩, fun _ => ?_⟩
    exact ⟨s, s, rfl, rfl, rfl, rfl, fun _ _ => rfl⟩
  | cons first rest =>
    have hstampable : ((first :: rest).all fun m => assertStampableSeq m.seq) = true := by
      rw [List.all_eq_true, ← hmap]
      intro m hm
      obtain ⟨x, hx, rfl⟩ := List.mem_map.mp hm
      obtain ⟨_, _, hstamp⟩ := hstamps x hx
      exact stampable_of_stamp hstamp
    have hshared := publishShared_plan text ws_compression_on compressOptIn s first.topic
      (first :: rest)
    rw [hplan, Option.map_some] at hshared
    simp only [hstampable, hq, Bool.not_true, Bool.false_eq_true, if_false, hshared, heach,
      Option.some.injEq, exists_and_left, exists_eq_left']
    cases xs with
    | nil => cases hmap
    | cons x xs =>
      have hfirst : first.topic = x.message.topic := by
        rw [map_cons, List.cons.injEq] at hmap
        rw [hmap.1]
      have hsees := (qualifies_iff conns (first :: rest)).mp hq
      rw [← hmap, List.map_map] at hsees
      have htold := told_iff text ws_compression_on compressOptIn hsees s.sent
      rw [← htold, hfirst]
      exact ⟨fun h => ⟨h.resume.symm, h.received⟩, fun h => ⟨rfl, h.1.symm, h.2⟩⟩

theorem Coalesced.take (h : Coalesced ms) (k : Nat) : Coalesced (ms.take k) :=
  h.sublist (List.take_sublist k ms)

theorem qualifies_take
    (h : qualifies conns ms = true) (k : Nat) : qualifies conns (ms.take k) = true := by
  rw [qualifies_iff] at h ⊢
  refine fun ws hws => (h ws hws).sublist fun t ht => ?_
  obtain ⟨m, hm, rfl⟩ := List.mem_map.mp ht
  exact mem_map_of_mem (List.mem_of_mem_take hm)

/-- **The shared frame equals the publishes it stands for exactly where each message
does.**  Of a batch that is not refused and whose connections qualify: the coalesced
batch, and every batch it starts with, leaves the counters, the marks and the held
frames as its publishes would, and brings each connection the same envelopes, if and
only if each message is one the two paths treat alike. -/
theorem batched_iff {conns : List Connection} {s : State} {ms : List Message}
    (hq : qualifies conns (collapseByCoalesceKey ms) = true)
    (haccepted : (publishBatched text ws_compression_on compressOptIn conns s ms).isSome = true) :
    ((∀ k, Equals text ws_compression_on compressOptIn conns s
        ((collapseByCoalesceKey ms).take k)) ↔
      Faithful text ws_compression_on compressOptIn conns s (collapseByCoalesceKey ms)) ∧
    (Faithful text ws_compression_on compressOptIn conns s (collapseByCoalesceKey ms) →
      Equals text ws_compression_on compressOptIn conns s ms) := by
  have hms := coalesced_collapse ms
  obtain ⟨⟨xs, seqs'⟩, hplan⟩ : ∃ x, plan s.topicSeqs (collapseByCoalesceKey ms) = some x := by
    unfold publishBatched at haccepted
    cases hcollapse : collapseByCoalesceKey ms with
    | nil => exact ⟨_, rfl⟩
    | cons first rest =>
      rw [hcollapse] at haccepted hq
      simp only [hq, Bool.not_true, Bool.false_eq_true, if_false, publishShared_plan] at haccepted
      split at haccepted
      · contradiction
      · rw [Option.isSome_map] at haccepted
        exact Option.isSome_iff_exists.mp haccepted
  obtain ⟨-, hstamps⟩ := plan_messages hplan
  have htake : ∀ k, Equals text ws_compression_on compressOptIn conns s
      ((collapseByCoalesceKey ms).take k) ↔
      commits ((xs.take k).map (Planned.each text ws_compression_on compressOptIn)) s.resume =
          commits ((xs.take k).map (Planned.shared text compressOptIn)) s.resume ∧
        ToldAlike text ws_compression_on compressOptIn conns (xs.take k) := by
    intro k
    obtain ⟨seqs'', hk⟩ := plan_take hplan k
    exact equals_iff (hms.take k) (qualifies_take hq k) hk
  have hiff : (∀ k, Equals text ws_compression_on compressOptIn conns s
      ((collapseByCoalesceKey ms).take k)) ↔
      Faithful text ws_compression_on compressOptIn conns s (collapseByCoalesceKey ms) := by
    rw [faithful_plan hplan, ← paths_iff hstamps]
    exact forall_congr' htake
  refine ⟨hiff, fun h => ?_⟩
  have hwhole := hiff.mpr h (collapseByCoalesceKey ms).length
  rw [List.take_length] at hwhole
  unfold Equals publishBatched at hwhole ⊢
  rwa [hms.collapse] at hwhole

end

/-- Two counters and an explicit seq, to one subscriber. -/
theorem batched_plain : Equals integerText false false [⟨["t"], ["batch"]⟩] .init
    [⟨"t", "a", some "1", some "k", .undefined, none⟩, ⟨"t", "b", some "2", none, .number (.ofNat 7), none⟩,
      ⟨"t", "c", some "3", some "k", .undefined, none⟩] := by
  refine (batched_iff (by decide +kernel) (by decide +kernel)).2 ?_
  refine ⟨⟨absurd rfl, fun _ h => ?_, fun z h => by contradiction, fun h => by contradiction⟩,
    fun s' hs' => ?_⟩
  · obtain ⟨set, hset, -⟩ := h
    cases hset
  · refine ⟨⟨absurd rfl, fun h => by contradiction, fun z h => by contradiction,
      fun h => by contradiction⟩, fun _ _ => trivial⟩

/-- A de-herd window is lost in the shared frame. -/
theorem window_lost : ¬ Equals integerText false false [⟨["t"], ["batch"]⟩] .init
    [⟨"t", "a", some "1", none, .undefined, some (.ofNat 500)⟩] := by
  rintro ⟨a, b, ha, hb, hagree⟩
  cases ha
  cases hb
  have hreceived := hagree.received ⟨["t"], ["batch"]⟩ (List.mem_singleton_self _)
  revert hreceived
  decide +kernel

end BunServe.Publish
