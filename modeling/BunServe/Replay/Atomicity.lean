import BunServe.Replay

/-!
# BunServe.Replay.Atomicity

What a `publish` that throws leaves behind.

The sequence is drawn before the payload is cloned, and the message is stored
before it is broadcast.  `Env` is what the buffer calls: the clone, the broadcast
and the send may each throw.

* `publishCall_publishes` — a call that returns is the `publish` of the runs;
* `not_unseen_of_throws` — a call that throws is seen afterwards, always, and a
  message it stored that cannot be sent stops a replay before its end marker.
-/

namespace BunServe.Replay

variable {D : Type} {c : Config}

/-- What the buffer calls: `structuredClone` or the JSON round trip, where none is
a throw; whether `platform.publish` returns; whether `platform.send` can serialise
a message's data. -/
structure Env (D : Type) where
  clone : D → Option D
  publishes : (topic event : String) → D → (seq : Nat) → Bool
  sendable : D → Bool

/-- How a call ends. -/
inductive Ending where
  | returns
  | throws
  deriving DecidableEq

/-- `publish(platform, topic, event, data)`, where it throws as well. -/
def publishCall (env : Env D) (s : State D c) (topic event : String) (data : D) :
    Ending × State D c :=
  let (state, s) := getTopic s topic
  -- `state.seq++` stands before anything that can throw
  let seq := state.seq + 1
  match env.clone data with
  | none => (.throws, { s with topics := s.topics.set topic { state with seq } })
  | some snapshot =>
    let m := { seq, topic, event, data := snapshot }
    let s := { s with topics := s.topics.set topic { seq, buf := state.buf.push m } }
    if env.publishes topic event data seq then (.returns, { s with log := .published m :: s.log })
    else (.throws, s)

def sendMissed (env : Env D) (topic : String) (reqId : Option D) :
    List (BufferedMessage D) → List (Frame D) × Ending
  | [] => ([], .returns)
  | m :: ms =>
    if env.sendable m.data then
      let (frames, ending) := sendMissed env topic reqId ms
      (msgFrame topic reqId m :: frames, ending)
    else ([], .throws)

/-- `replay(ws, topic, sinceSeq, platform, reqId)`, where it throws as well: the
frames sent. -/
def replayCall (env : Env D) (s : State D c) (topic : String) (sinceSeq : JsNumber)
    (reqId : Option D) : List (Frame D) × Ending :=
  match position sinceSeq with
  | none => ([endFrame topic reqId false], .returns)
  | some sinceSeq =>
    match s.topics.get? topic with
    | none => ([endFrame topic reqId false], .returns)
    | some state =>
      match sendMissed env topic reqId (readSince state sinceSeq) with
      | (frames, .throws) => (frames, .throws)
      | (frames, .returns) =>
        (frames ++ [endFrame topic reqId (truncated state sinceSeq)], .returns)

/-- `seq(topic)`. -/
def seqOf (s : State D c) (topic : String) : Nat :=
  match s.topics.get? topic with
  | some state => state.seq
  | none => 0

/-- No call tells the two states apart. -/
structure Unseen (env : Env D) (s s' : State D c) : Prop where
  seq : ∀ topic, seqOf s' topic = seqOf s topic
  since : ∀ topic n, (Replay.since s' topic n).1 = (Replay.since s topic n).1
  replay : ∀ topic n reqId, replayCall env s' topic n reqId = replayCall env s topic n reqId

/-! ## a call that returns -/

/-! ## a call that throws -/

theorem seq_getTopic (s : State D c) (topic : String) :
    (getTopic s topic).1.seq = seqOf s topic := by
  unfold getTopic seqOf
  cases s.topics.get? topic with
  | some state | none => rfl

theorem seqOf_publishCall (env : Env D) (s : State D c) (topic event : String) (data : D) :
    seqOf (publishCall env s topic event data).2 topic = seqOf s topic + 1 := by
  rw [← seq_getTopic s]
  unfold publishCall
  dsimp only
  split
  · simp [seqOf]
  · split
    · simp [seqOf]
    · simp [seqOf]

theorem sendMissed_stops {env : Env D} {topic : String} {reqId : Option D}
    {ms : List (BufferedMessage D)} {m : BufferedMessage D} (hm : m ∈ ms)
    (hbad : env.sendable m.data = false) : (sendMissed env topic reqId ms).2 = .throws := by
  induction ms with
  | nil => contradiction
  | cons m' ms ih =>
    rw [sendMissed]
    split
    · next hgood =>
      have hne : m ≠ m' := by
        rintro rfl
        simp [hbad] at hgood
      exact ih ((List.mem_cons.mp hm).resolve_left hne)
    · rfl

theorem mem_sendMissed {env : Env D} {topic : String} {reqId : Option D}
    {ms : List (BufferedMessage D)} {f : Frame D} (hf : f ∈ (sendMissed env topic reqId ms).1) :
    ∃ m ∈ ms, f = msgFrame topic reqId m := by
  induction ms with
  | nil => contradiction
  | cons m ms ih =>
    rw [sendMissed] at hf
    split at hf
    · cases List.mem_cons.mp hf with
      | inl heq => exact ⟨m, by simp, heq⟩
      | inr hf =>
        obtain ⟨m', hm', heq⟩ := ih hf
        exact ⟨m', by simp [hm'], heq⟩
    · contradiction

theorem stored_of_throws {env : Env D} {s s' : State D c} {topic event : String} {data : D}
    (h : publishCall env s topic event data = (.throws, s')) {snapshot : D}
    (hclone : env.clone data = some snapshot) :
    ∃ state, s'.topics.get? topic = some state ∧ state.seq = seqOf s topic + 1 ∧
      ⟨seqOf s topic + 1, topic, event, snapshot⟩ ∈ state.buf.toList := by
  simp only [publishCall, hclone] at h
  split at h
  · simp at h
  obtain ⟨-, rfl⟩ := Prod.mk.inj h
  refine ⟨_, JsMap.get?_set_self _ _ _, ?_, ?_⟩
  · rw [← seq_getTopic s]
  rw [← seq_getTopic s]
  have hdrop (l : List (BufferedMessage D)) (m : BufferedMessage D) {k : Nat}
      (hk : k ≤ l.length) : m ∈ (l ++ [m]).drop k := by
    rw [List.drop_append_of_le_length hk]
    simp
  rw [Ring.toList_push _ c.maxSize_pos]
  refine hdrop _ _ ?_
  have := c.maxSize_pos
  rw [Ring.length_toList]
  omega

/-- **A publish that throws is seen afterwards**: the sequence it drew is gone in
every case, and where the broadcast throws on what cannot be sent either, every
replay from before it stops without its end marker. -/
theorem not_unseen_of_throws (env : Env D) (s s' : State D c) (topic event : String) (data : D)
    (h : publishCall env s topic event data = (.throws, s')) :
    ¬ Unseen env s s' ∧
      ∀ snapshot, env.clone data = some snapshot → env.sendable snapshot = false →
        ∀ n p reqId, position n = some p → p ≤ seqOf s topic →
          (replayCall env s' topic n reqId).2 = .throws ∧
            ∀ f ∈ (replayCall env s' topic n reqId).1, ∀ b, f ≠ endFrame topic reqId b := by
  refine ⟨fun hsame => ?_, fun snapshot hclone hbad n p reqId hp hle => ?_⟩
  · have hseq := seqOf_publishCall env s topic event data
    rw [h, hsame.seq topic] at hseq
    omega
  · obtain ⟨state, hstate, hseq, hmem⟩ := stored_of_throws h hclone
    let m : BufferedMessage D := ⟨seqOf s topic + 1, topic, event, snapshot⟩
    have hmissed : m ∈ readSince state p := by
      have hlen : state.buf.len ≠ 0 := fun hzero => by
        have hlist : state.buf.toList = [] :=
          List.length_eq_zero_iff.mp ((Ring.length_toList _).trans hzero)
        rw [hlist] at hmem
        contradiction
      have hafter : m.seq > p := Nat.lt_succ_of_le hle
      rw [readSince, if_neg (by omega), List.mem_filter]
      exact ⟨hmem, decide_eq_true hafter⟩
    have hstops : (sendMissed env topic reqId (readSince state p)).2 = .throws :=
      sendMissed_stops hmissed hbad
    have hcall : replayCall env s' topic n reqId =
        ((sendMissed env topic reqId (readSince state p)).1, .throws) := by
      simp only [replayCall, hp, hstate]
      split
      · next heq => rw [heq]
      · next heq =>
        rw [heq] at hstops
        contradiction
    rw [hcall]
    refine ⟨rfl, fun f hf b hend => ?_⟩
    obtain ⟨m', -, heq⟩ := mem_sendMissed hf
    rw [hend] at heq
    simp [endFrame, msgFrame] at heq

/-- Data that cannot be serialised: the copy is made, the broadcast throws. -/
def odd : Env Nat := ⟨some, fun _ _ n _ => n % 2 = 0, fun n => n % 2 = 0⟩

/-- Room for four messages of one topic. -/
def four : Config := ⟨4, 1, by decide⟩

theorem not_unseen_of_throws_odd :
    (publishCall odd (.init : State Nat four) "t" "e" 7).1 = .throws ∧
      ¬ Unseen odd (.init : State Nat four) (publishCall odd .init "t" "e" 7).2 ∧
      (replayCall odd (publishCall odd (.init : State Nat four) "t" "e" 7).2 "t" (.ofNat 0) none).2
        = .throws := by
  have h : publishCall odd (.init : State Nat four) "t" "e" 7 =
      (.throws, (publishCall odd .init "t" "e" 7).2) := Prod.ext rfl rfl
  obtain ⟨hseen, hstops⟩ := not_unseen_of_throws odd _ _ "t" "e" 7 h
  exact ⟨rfl, hseen, (hstops 7 rfl rfl (.ofNat 0) 0 none (by decide +kernel) (Nat.zero_le _)).1⟩

/-- The claim of atomicity fails on the first broadcast that throws. -/
theorem publish_not_atomic : ¬ ∀ (env : Env Nat) (s s' : State Nat four) (topic event : String)
    (data : Nat), publishCall env s topic event data = (.throws, s') → Unseen env s s' := by
  intro hall
  have h : publishCall odd (.init : State Nat four) "t" "e" 7 =
      (.throws, (publishCall odd .init "t" "e" 7).2) := Prod.ext rfl rfl
  have hseq := (hall odd _ _ "t" "e" 7 h).seq "t"
  rw [seqOf_publishCall] at hseq
  omega

end BunServe.Replay
