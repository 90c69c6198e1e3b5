import BunServe.Replay

/-!
# BunServe.Replay.Gaps

What a replay misses.

* `Inv` — the record of a topic holds the newest messages since the record was made,
  numbered from 1;
* `replay_lossless_iff` — a replay from a position that a publish gave misses nothing
  unmarked just where the record was not dropped since, where nothing was published
  since, or where the new record is so far on that it is marked.
-/

namespace BunServe.Replay

variable {D : Type} {c : Config}

def Entry.on? (topic : String) : Entry D → Option (BufferedMessage D)
  | .published m => if m.topic = topic then some m else none
  | .dropped _ => none

def messages (topic : String) (log : List (Entry D)) : List (BufferedMessage D) :=
  log.reverse.filterMap (Entry.on? topic)

/-- Those since its record was made. -/
def current (topic : String) : List (Entry D) → List (BufferedMessage D)
  | [] => []
  | .published m :: log => if m.topic = topic then current topic log ++ [m] else current topic log
  | .dropped t :: log => if t = topic then [] else current topic log

section

variable {topic : String} {log later earlier : List (Entry D)}

theorem messages_cons (e : Entry D) (log : List (Entry D)) :
    messages topic (e :: log) = messages topic log ++ (e.on? topic).toList := by
  unfold messages
  cases h : e.on? topic <;> simp [h]

theorem current_of_not_dropped (h : .dropped topic ∉ later) :
    current topic (later ++ earlier) = current topic earlier ++ messages topic later := by
  induction later with
  | nil => simp [messages]
  | cons e later ih =>
    rw [List.mem_cons, not_or] at h
    rw [messages_cons, ← List.append_assoc, ← ih h.2, List.cons_append]
    cases e with
    | published m =>
      simp only [current, Entry.on?]
      split <;> simp
    | dropped t =>
      have hne : t ≠ topic := fun heq => h.1 (by rw [heq])
      simp [current, Entry.on?, hne]

theorem messages_of_dropped (h : .dropped topic ∈ later) :
    ∃ gone, messages topic later = gone ++ current topic (later ++ earlier) := by
  induction later with
  | nil => cases h
  | cons e later ih =>
    rw [messages_cons, List.cons_append]
    rw [List.mem_cons] at h
    cases e with
    | published m =>
      obtain ⟨gone, hgone⟩ := ih (h.resolve_left nofun)
      simp only [current, Entry.on?]
      split <;> simp [hgone]
    | dropped t =>
      by_cases ht : t = topic
      · exact ⟨messages topic later, by simp [current, Entry.on?, ht]⟩
      · obtain ⟨gone, hgone⟩ := ih (h.resolve_left fun heq => ht (Entry.dropped.inj heq).symm)
        exact ⟨gone, by simp [current, Entry.on?, ht, hgone]⟩

theorem current_map_dropped (topics : List String) :
    current topic (topics.map .dropped ++ log) = if topic ∈ topics then [] else current topic log := by
  induction topics with
  | nil => rfl
  | cons t topics ih =>
    simp only [List.map_cons, List.cons_append, current, List.mem_cons, eq_comm (a := topic), ih]
    by_cases ht : t = topic <;> simp [ht]

end

/-! ## the invariant -/

/-- The record of a topic is what its messages since then make it. -/
structure Recorded (ms : List (BufferedMessage D)) (state : TopicState D c) : Prop where
  seq : state.seq = ms.length
  buf : state.buf.toList = ms.drop (ms.length - c.maxSize)

structure Inv (s : State D c) : Prop where
  none : ∀ topic, s.topics.get? topic = none → current topic s.log = []
  some : ∀ topic state, s.topics.get? topic = some state →
    current topic s.log ≠ [] ∧ Recorded (current topic s.log) state
  numbered : ∀ topic, (current topic s.log).map BufferedMessage.seq =
    List.range' 1 (current topic s.log).length
  seqs : ∀ later m earlier, s.log = later ++ .published m :: earlier →
    m.seq = (current m.topic earlier).length + 1

section

variable {s s' : State D c} {topic : String}

theorem recorded_new : Recorded [] ({ seq := 0, buf := .empty } : TopicState D c) :=
  ⟨rfl, by simp⟩

variable {ms : List (BufferedMessage D)}

theorem Recorded.push {state : TopicState D c} (h : Recorded ms state) (m : BufferedMessage D) :
    Recorded (ms ++ [m]) ({ seq := state.seq + 1, buf := state.buf.push m } : TopicState D c) where
  seq := by simp [h.seq]
  buf := by
    have hlen : state.buf.len = ms.length - (ms.length - c.maxSize) := by
      rw [← Ring.length_toList, h.buf, List.length_drop]
    rw [Ring.toList_push _ c.maxSize_pos, h.buf, List.length_append, List.length_singleton,
      ← List.drop_append_of_le_length (Nat.sub_le _ _), List.drop_drop]
    congr 1
    omega

theorem Inv.reorder (h : Inv s) (htopics : s'.topics = s.topics) (hlog : s'.log = s.log) : Inv s' where
  none topic := by rw [htopics, hlog]; exact h.none topic
  some topic := by rw [htopics, hlog]; exact h.some topic
  numbered topic := by rw [hlog]; exact h.numbered topic
  seqs := by rw [hlog]; exact h.seqs

theorem Inv.touchTopic (h : Inv s) (topic : String) : Inv (touchTopic s topic) := by
  unfold Replay.touchTopic
  split
  · exact h.reorder rfl rfl
  · exact h

theorem Inv.forget (h : Inv s) (topics : List String) (hlog : s'.log = topics.map .dropped ++ s.log)
    (htopics : ∀ t, s'.topics.get? t = if t ∈ topics then Option.none else s.topics.get? t) : Inv s' where
  none t ht := by
    rw [hlog, current_map_dropped]
    rw [htopics] at ht
    split
    · rfl
    · next hmem =>
      rw [if_neg hmem] at ht
      exact h.none t ht
  some t state ht := by
    rw [htopics] at ht
    split at ht
    · cases ht
    · next hmem =>
      rw [hlog, current_map_dropped, if_neg hmem]
      exact h.some t state ht
  numbered t := by
    rw [hlog, current_map_dropped]
    split
    · rfl
    · exact h.numbered t
  seqs later m earlier heq := by
    rw [hlog, List.append_eq_append_iff] at heq
    rcases heq with ⟨as, -, hs⟩ | ⟨bs, hmap, hs⟩
    · exact h.seqs as m earlier hs
    · cases bs with
      | nil => exact h.seqs [] m earlier hs.symm
      | cons b bs =>
        cases hs
        have hmem : Entry.published m ∈ topics.map .dropped := by simp [hmap]
        simp at hmem

theorem Inv.drop (h : Inv s) (topic : String) : Inv (drop s topic) := by
  refine h.forget [topic] rfl fun t => ?_
  show (s.topics.delete topic).get? t = _
  simp [JsMap.get?_delete]

theorem Inv.evictLru (h : Inv s) : Inv (evictLru s) := by
  unfold Replay.evictLru
  split
  · split
    · exact h.drop _
    · exact h
  · exact h

theorem evictLru_none (h : s.topics.get? topic = none) : (evictLru s).topics.get? topic = none := by
  unfold Replay.evictLru
  split
  · split
    · show (s.topics.delete _).get? topic = none
      rw [JsMap.get?_delete, h, ite_self]
    · exact h
  · exact h

theorem getTopic_spec (h : Inv s) (topic : String) : ∃ s₁, Inv s₁ ∧ (getTopic s topic).2.log = s₁.log ∧
    (∀ t, t ≠ topic → (getTopic s topic).2.topics.get? t = s₁.topics.get? t) ∧
    Recorded (current topic s₁.log) (getTopic s topic).1 := by
  unfold getTopic
  cases hget : s.topics.get? topic with
  | some state => exact ⟨s, h, rfl, fun _ _ => rfl, (h.some topic state hget).2⟩
  | none =>
    refine ⟨Replay.evictLru s, h.evictLru, rfl, fun t ht => JsMap.get?_set_ne _ _ ht, ?_⟩
    rw [h.evictLru.none topic (evictLru_none hget)]
    exact recorded_new

theorem Inv.publish {clone : D → Option D} {event : String} {data : D} (h : Inv s)
    (hn : publish clone s topic event data = Option.some s') : Inv s' := by
  obtain ⟨snapshot, -, rfl⟩ := Option.map_eq_some_iff.1 hn
  obtain ⟨s₁, h₁, hlog, htopics, hrec⟩ := getTopic_spec h topic
  generalize getTopic s topic = r at *
  obtain ⟨state, s₂⟩ := r
  simp only at hlog htopics hrec
  simp only [hlog]
  generalize hm : ({ seq := state.seq + 1, topic, event, data := snapshot } : BufferedMessage D) = m
  have hseq : m.seq = state.seq + 1 := by rw [← hm]
  have htopic : m.topic = topic := by rw [← hm]
  -- what is current for the topic, and for the others
  have hself : current topic (.published m :: s₁.log) = current topic s₁.log ++ [m] := if_pos htopic
  have hother : ∀ t, t ≠ topic → current t (.published m :: s₁.log) = current t s₁.log :=
    fun t ht => if_neg fun heq => ht (heq.symm.trans htopic)
  refine ⟨fun t ht => ?_, fun t st ht => ?_, fun t => ?_, fun later m' earlier heq => ?_⟩
  · simp only [JsMap.get?_set] at ht
    split at ht
    · cases ht
    · next hne =>
      refine (hother t hne).trans (h₁.none t ?_)
      rw [← htopics t hne]
      exact ht
  · obtain ⟨heq, rfl⟩ | ⟨hne, ht⟩ := JsMap.of_get?_set ht
    · simp only [heq, hself]
      exact ⟨by simp, hrec.push m⟩
    · simp only [hother t hne]
      refine h₁.some t st ?_
      rw [← htopics t hne]
      exact ht
  · by_cases ht : t = topic
    · simp only [ht, hself, List.map_append, h₁.numbered, List.length_append, List.map_cons,
        List.map_nil, hseq, hrec.seq, List.length_singleton]
      rw [List.range'_concat, Nat.one_mul, Nat.add_comm]
    · simp only [hother t ht]
      exact h₁.numbered t
  · cases later with
    | nil =>
      cases heq
      rw [hseq, hrec.seq, htopic]
    | cons e later =>
      rw [List.cons_append, List.cons.injEq] at heq
      exact h₁.seqs later m' earlier heq.2

theorem Inv.next {clone : D → Option D} {x : Action D} (h : Inv s) (hn : next clone s x = Option.some s') :
    Inv s' := by
  cases x with
  | publish topic event data => exact h.publish hn
  | seq topic =>
    cases hn
    exact h.touchTopic topic
  | since topic since =>
    cases hn
    unfold Replay.since
    split
    · exact h
    · simp only
      split <;> exact h.touchTopic topic
  | replay topic sinceSeq reqId =>
    cases hn
    unfold Replay.replay
    split
    · exact h
    · simp only
      split <;> exact h.touchTopic topic
  | clear =>
    cases hn
    refine h.forget s.topics.keys rfl fun t => ?_
    split
    · rfl
    · next hmem => exact (JsMap.get?_eq_none_iff.2 hmem).symm
  | clearTopic topic =>
    cases hn
    exact h.drop topic

theorem inv_of_run {clone : D → Option D} {as : List (Action D)}
    (h : (machine clone c).Runs Machine.Any as s) : Inv s := by
  refine Machine.Runs.invariant (m := machine clone c) ⟨fun _ _ => rfl, nofun, fun _ => rfl, ?_⟩
    (fun _ _ _ h _ hn => h.next hn) h
  rintro later m earlier heq
  cases later <;> cases heq

/-! ## replays -/

/-- A replay that ends without a `truncated` marker has sent these messages, in order,
before it ends. -/
def Lossless (frames : List (Frame D)) (topic : String) (reqId : Option D)
    (ms : List (BufferedMessage D)) : Prop :=
  frames.getLast? = some (endFrame topic reqId false) →
    frames = ms.map (msgFrame topic reqId) ++ [endFrame topic reqId false]

theorem position_ofNat (n : Nat) : position (.ofNat n) = some n := by
  simp [position, JsNumber.integer?, JsNumber.finite?, JsNumber.ofNat]

theorem touchTopic_topics (s : State D c) (topic : String) : (touchTopic s topic).topics = s.topics := by
  unfold touchTopic
  split <;> rfl

theorem endFrame_inj {reqId : Option D} {b b' : Bool} :
    endFrame topic reqId b = endFrame topic reqId b' ↔ b = b' := by
  simp [endFrame]

theorem msgFrame_inj {reqId : Option D} {ms' : List (BufferedMessage D)}
    (h : ms.map (msgFrame topic reqId) = ms'.map (msgFrame topic reqId)) : ms.length = ms'.length := by
  simpa using congrArg List.length h

theorem filter_numbered {n : Nat} (since : Nat)
    (h : ms.map BufferedMessage.seq = List.range' (n + 1) ms.length) :
    ms.filter (fun m => decide (m.seq > since)) = ms.drop (since - n) := by
  induction ms generalizing n with
  | nil => simp
  | cons m ms ih =>
    rw [List.map_cons, List.length_cons, List.range'_succ, List.cons.injEq] at h
    have ih := ih h.2
    rw [List.filter_cons, ih]
    by_cases hm : m.seq > since
    · have hzero : since - n = 0 := by omega
      have hzero' : since - (n + 1) = 0 := by omega
      simp [hm, hzero, hzero']
    · have hsucc : since - n = since - (n + 1) + 1 := by omega
      simp [hm, hsucc]

theorem Recorded.read {state : TopicState D c} (h : Recorded ms state)
    (hne : ms ≠ []) (hnum : ms.map BufferedMessage.seq = List.range' 1 ms.length) (since : Nat) :
    (truncated state since = true ↔ since + c.maxSize < ms.length) ∧
      (truncated state since = false → readSince state since = ms.drop since) := by
  have hpos := List.length_pos_iff.2 hne
  have hcap := c.maxSize_pos
  have hdrop : (ms.drop (ms.length - c.maxSize)).map BufferedMessage.seq =
      List.range' (ms.length - c.maxSize + 1) (ms.drop (ms.length - c.maxSize)).length := by
    rw [List.map_drop, hnum, List.drop_range', List.length_drop, Nat.mul_one, Nat.add_comm]
  have hoption : truncated state since = true ↔ ms.length - c.maxSize + 1 > since + 1 := by
    unfold truncated
    rw [h.buf]
    cases hbuf : ms.drop (ms.length - c.maxSize) with
    | nil =>
      rw [List.drop_eq_nil_iff] at hbuf
      omega
    | cons oldest rest =>
      rw [hbuf, List.map_cons, List.length_cons, List.range'_succ, List.cons.injEq] at hdrop
      simp [hdrop.1]
  refine ⟨hoption.trans (by omega), fun hnot => ?_⟩
  have hle : ms.length - c.maxSize ≤ since := by
    by_contra hlt
    have := hoption.2 (by omega)
    rw [hnot] at this
    cases this
  unfold readSince
  split
  · next hempty =>
    refine (List.drop_eq_nil_of_le ?_).symm
    rcases hempty with hempty | hge
    · rw [← Ring.length_toList, h.buf, List.length_drop] at hempty
      omega
    · rw [← h.seq]
      exact hge
  · rw [h.buf, filter_numbered since hdrop, List.drop_drop]
    congr 1
    omega

/-- A replay from a position that a publish gave: what it sends before it ends without a
marker is all that was published since, just where the record of the topic was not
dropped since, or nothing was published to the topic since, or the new record no longer
holds the message after the position. -/
theorem replay_lossless_iff {clone : D → Option D} {as : List (Action D)}
    (h : (machine clone c).Runs Machine.Any as s) {later earlier : List (Entry D)}
    {m : BufferedMessage D} (hlog : s.log = later ++ .published m :: earlier) (reqId : Option D) :
    Lossless (replay s m.topic (.ofNat m.seq) reqId).1 m.topic reqId (messages m.topic later) ↔
      .dropped m.topic ∉ later ∨ messages m.topic later = [] ∨
        ∃ state, s.topics.get? m.topic = some state ∧ m.seq + c.maxSize < state.seq := by
  have hinv := inv_of_run h
  have hseq := hinv.seqs later m earlier hlog
  have hnum := hinv.numbered m.topic
  unfold replay
  rw [position_ofNat]
  simp only [touchTopic_topics]
  cases hget : s.topics.get? m.topic with
  | none =>
    have hcur := hinv.none m.topic hget
    have hdropped : .dropped m.topic ∈ later := by
      by_contra hnot
      rw [hlog, current_of_not_dropped hnot] at hcur
      simp [current] at hcur
    refine ⟨fun hloss => .inr (.inl ?_), fun hor _ => ?_⟩
    · have hlen := congrArg List.length (hloss rfl)
      simpa using hlen
    · rcases hor with hnot | hnil | ⟨_, heq, -⟩
      · exact absurd hdropped hnot
      · rw [hnil]
        rfl
      · cases heq
  | some state =>
    obtain ⟨hne, hrec⟩ := hinv.some m.topic state hget
    obtain ⟨htrunc, hread⟩ := hrec.read hne hnum m.seq
    simp only [Option.some.injEq, exists_eq_left', hrec.seq, ← htrunc]
    cases hcase : truncated state m.seq with
    | true => simp [Lossless, endFrame_inj]
    | false =>
      have hlossless : Lossless ((readSince state m.seq).map (msgFrame m.topic reqId) ++
            [endFrame m.topic reqId false]) m.topic reqId (messages m.topic later) ↔
          ((current m.topic s.log).drop m.seq).map (msgFrame m.topic reqId) =
            (messages m.topic later).map (msgFrame m.topic reqId) := by
        rw [hread hcase]
        simp [Lossless]
      rw [hlossless]
      simp only [Bool.false_eq_true, or_false]
      by_cases hdropped : .dropped m.topic ∈ later
      · -- the first message of the new record is never sent
        obtain ⟨gone, hgone⟩ := messages_of_dropped hdropped
        rw [← hlog] at hgone
        have hpos := List.length_pos_iff.2 hne
        refine ⟨fun heq => ?_, fun hor => ?_⟩
        · have hlen := msgFrame_inj heq
          rw [hgone, List.length_drop, List.length_append] at hlen
          omega
        · have hnil := hor.resolve_left (not_not.2 hdropped)
          rw [hgone, List.append_eq_nil_iff] at hnil
          exact absurd hnil.2 hne
      · refine ⟨fun _ => .inl hdropped, fun _ => ?_⟩
        rw [hlog, current_of_not_dropped hdropped]
        have hself : current m.topic (.published m :: earlier) = current m.topic earlier ++ [m] := if_pos rfl
        rw [hself, hseq, List.drop_left' (by simp)]

end

def oneTopic : Config where
  maxSize := 10
  maxTopics := 1
  maxSize_pos := by decide

/-- A replay of the topic that has its record. -/
theorem replay_kept : ∃ s : State Nat oneTopic,
    (machine some oneTopic).Runs Machine.Any [.publish "a" "x" 5, .publish "a" "y" 6] s ∧
    Lossless (replay s "a" (.ofNat 1) none).1 "a" none [⟨2, "a", "y", 6⟩] := by
  obtain ⟨s, hs⟩ : ∃ s : State Nat oneTopic, (machine some oneTopic).exec (machine some oneTopic).init
      [.publish "a" "x" 5, .publish "a" "y" 6] = some s := ⟨_, rfl⟩
  have hrun := Machine.runs_of_exec hs
  refine ⟨s, hrun, ?_⟩
  have hlog : s.log = [.published ⟨2, "a", "y", 6⟩] ++ .published ⟨1, "a", "x", 5⟩ :: [] := by
    cases hs
    rfl
  exact (replay_lossless_iff hrun hlog none).2 (.inl (by simp))

/-- Of a topic that was evicted after two messages, a replay from the first sends nothing
and ends as if there was nothing to send. -/
theorem evicted_looks_current : ∃ s : State Nat oneTopic,
    (machine some oneTopic).Runs Machine.Any
      [.publish "a" "x" 5, .publish "a" "y" 6, .publish "b" "z" 7] s ∧
    s.log = [.published ⟨1, "b", "z", 7⟩, .dropped "a", .published ⟨2, "a", "y", 6⟩] ++
      .published ⟨1, "a", "x", 5⟩ :: [] ∧
    (replay s "a" (.ofNat 1) none).1 = [endFrame "a" none false] ∧
    ¬ Lossless (replay s "a" (.ofNat 1) none).1 "a" none
      (messages "a" [.published ⟨1, "b", "z", 7⟩, .dropped "a", .published ⟨2, "a", "y", 6⟩]) := by
  obtain ⟨s, hs⟩ : ∃ s : State Nat oneTopic, (machine some oneTopic).exec (machine some oneTopic).init
      [.publish "a" "x" 5, .publish "a" "y" 6, .publish "b" "z" 7] = some s := ⟨_, rfl⟩
  refine ⟨s, Machine.runs_of_exec hs, ?_⟩
  cases hs
  refine ⟨rfl, by decide +kernel, fun hloss => ?_⟩
  have := hloss (by decide +kernel)
  revert this
  decide +kernel

end BunServe.Replay
