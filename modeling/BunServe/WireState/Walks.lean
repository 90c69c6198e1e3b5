import BunServe.WireState.Invariant

/-!
# BunServe.WireState.Walks

The four walks keep the invariant, whatever the codec and the socket answer
(`meets_run`).  In all of them a payload that is on its way goes out in a frame, or
its capability is poisoned (`meets_deliver`, `meets_poison_dropped`).
-/

namespace BunServe.WireState

open Resume Publish

variable {wires : String → Wire} {start c : Connection}

/-! ## the walks -/

theorem meets_wireEnvelopeSend (h : Carries wires start none c) (env : String) (compress : Bool) :
    (wireEnvelopeSend env compress c).Meets (contract wires start) fun _ c' =>
      Carries wires start none c' :=
  Outcome.Meets.seq (meets_send_json h env compress) fun _ _ h => h.1

variable {wire : Wire}

theorem meets_deliver {α : Type} {Q : α → Connection → Prop} {b : Bool} {p : Payload}
    {topic : String} {sv : Nat} {seq : Option JsNumber} {compress : Bool} {fallback : Session α}
    {k : Option SendResult → Session α}
    (h : Carries wires start (some (wire.capability, p)) c) (hs : Served wires wire.capability b c)
    (hfallback : ∀ c', Carries wires start none c' → (fallback c').Meets (contract wires start) Q)
    (hk : ∀ r c', Later c c' → Carries wires start
      (if r = some .dropped then some (wire.capability, p) else none) c' →
      (k r c').Meets (contract wires start) Q) :
    ((ensureWireId topic >>= fun id => match id with
      | none => poison wire >>= fun _ => fallback
      | some id => send (frameOf wire sv topic id seq p) compress >>= k) c).Meets
      (contract wires start) Q := by
  refine Outcome.Meets.seq (meets_ensureWireId h topic) ?_
  rintro id c₁ ⟨hl₁, h₁, hann⟩
  cases id with
  | none => exact hfallback _ (h₁.poison (by simp))
  | some id =>
    refine Outcome.Meets.seq (meets_send_frame h₁ (hs.later hl₁) (hann id rfl) compress) ?_
    rintro r c₂ ⟨hl₂, h₂⟩
    exact hk r c₂ (hl₁.trans hl₂) h₂

theorem meets_poison_dropped {α : Type} {p : Payload} {r : Option SendResult}
    (h : Carries wires start (if r = some .dropped then some (wire.capability, p) else none) c)
    (a : α) :
    ((if r = some .dropped then poison wire >>= fun _ => pure a else pure a : Session α) c).Meets
      (contract wires start) fun _ c' => Carries wires start none c' := by
  split
  · next hr =>
    exact h.poison (by simp)
  · next hr =>
    rw [if_neg hr] at h
    exact h

theorem Carries.settled {p : Payload} {r : Option SendResult}
    (h : Carries wires start (if r = some .dropped then some (wire.capability, p) else none) c)
    (hs : Served wires wire.capability false c) : Carries wires start none c := by
  refine ⟨h.1, h.2.settled ?_ fun e he => hs.stateless h.2 he⟩
  split <;> simp

theorem meets_publishStateful (hreg : wires wire.capability = wire)
    (h : Carries wires start none c) (hd : c.detached = false) (event : String)
    (data : Option String) (r : Recorded) :
    (publishStateful wire event data r c).Meets (contract wires start) fun _ c' =>
      Carries wires start none c' := by
  refine Outcome.Meets.seq (meets_ensureWireState hreg h hd) ?_
  rintro state c₁ ⟨h₁, -, hs⟩
  simp only [Prog.get_bind_run]
  cases state with
  | none =>
    split
    · exact meets_wireEnvelopeSend h₁ _ _
    rename_i hp
    have hs₁ := hs (.inr (by simpa using hp))
    refine Outcome.Meets.seq (meets_encode h₁ hs₁ _ _) ?_
    rintro p c₂ ⟨hl₂, h₂⟩
    cases p with
    | none => exact meets_wireEnvelopeSend h₂ _ _
    | some p =>
      have hs₂ := hs₁.later hl₂
      refine meets_deliver h₂ hs₂ (fun c' h' => meets_wireEnvelopeSend h' _ _) ?_
      intro result c₃ hl₃ h₃
      exact h₃.settled (hs₂.later hl₃)
  | some state =>
    have hs₁ := hs (.inl rfl)
    refine Outcome.Meets.seq (meets_encode h₁ hs₁ _ _) ?_
    rintro p c₂ ⟨hl₂, h₂⟩
    cases p with
    | none => exact meets_wireEnvelopeSend h₂ _ _
    | some p =>
      refine meets_deliver h₂ (hs₁.later hl₂) (fun c' h' => meets_wireEnvelopeSend h' _ _) ?_
      intro result c₃ _ h₃
      exact meets_poison_dropped h₃ _

theorem Served.of_stateless (hreg : wires wire.capability = wire)
    (hst : wire.stateful = false) (c : Connection) : Served wires wire.capability false c := by
  intro hs
  rw [hreg, hst] at hs
  cases hs

theorem meets_publishStateless (hreg : wires wire.capability = wire)
    (hst : wire.stateful = false) (h : Carries wires start none c) (event : String)
    (data : Option String) (r : Recorded) :
    (publishStateless wire event data r c).Meets (contract wires start) fun _ c' =>
      Carries wires start none c' := by
  refine Outcome.Meets.seq (meets_encode h (.of_stateless hreg hst c) _ _) ?_
  rintro p c₁ ⟨hl₁, h₁⟩
  cases p with
  | none => exact meets_wireEnvelopeSend h₁ _ _
  | some p =>
    have hs₁ : Served wires wire.capability false c₁ := .of_stateless hreg hst c₁
    simp only [Prog.get_bind_run]
    split
    · exact meets_wireEnvelopeSend ⟨h₁.1, h₁.2.settled (by simp) fun e => hs₁.stateless h₁.2⟩ _ _
    · refine meets_deliver h₁ hs₁ (fun c' h' => meets_wireEnvelopeSend h' _ _) ?_
      intro result c₂ _ h₂
      exact h₂.settled (.of_stateless hreg hst c₂)

theorem meets_publishWire (hreg : wires wire.capability = wire)
    (h : Carries wires start none c) (event : String) (data : Option String) (r : Recorded) :
    (publishWire wire event data r c).Meets (contract wires start) fun _ c' =>
      Carries wires start none c' := by
  simp only [publishWire, Prog.get_bind_run]
  split
  · exact h
  split
  · exact h
  rename_i hskip
  have hd : c.detached = false := by
    simp only [Connection.skips] at hskip
    cases hc : c.detached <;> simp [hc] at hskip ⊢
  split
  · split
    · exact meets_publishStateful hreg h hd _ _ _
    · next hst => exact meets_publishStateless hreg (by simpa using hst) h _ _ _
  · exact meets_wireEnvelopeSend h _ _

theorem meets_sendJson (compress : Bool) (list : List String) (h : Carries wires start none c) :
    (sendJson compress list c).Meets (contract wires start) fun _ c' =>
      Carries wires start none c' := by
  induction list generalizing c with
  | nil => exact h
  | cons env list ih =>
    refine Outcome.Meets.seq (meets_send_json h env compress) ?_
    rintro r c₁ ⟨h₁, -⟩
    split
    · exact h₁
    · exact Outcome.Meets.seq (ih h₁) fun _ _ h => h

theorem meets_publishEntries {state : CodecState} (topic event : String)
    (compress : Bool) (list : List WireRecord) (envList : List String)
    (seqList : List (Option JsNumber)) (h : Carries wires start none c)
    (hs : Served wires wire.capability true c) :
    (publishEntries wire state topic event compress list envList seqList c).Meets
      (contract wires start) fun _ c' => Carries wires start none c' := by
  induction list generalizing c envList seqList with
  | nil => exact h
  | cons entry list ih =>
    cases envList with
    | nil => exact h
    | cons env envList =>
      cases seqList with
      | nil => exact h
      | cons seq seqList =>
        refine Outcome.Meets.seq (meets_encode h hs _ _) ?_
        rintro p c₁ ⟨hl₁, h₁⟩
        cases p with
        | none =>
          refine Outcome.Meets.seq (meets_send_json h₁ env compress) ?_
          rintro r c₂ ⟨h₂, hl₂⟩
          split
          · exact h₂
          · exact Outcome.Meets.seq (ih _ _ h₂ ((hs.later hl₁).later hl₂)) fun _ _ h => h
        | some p =>
          refine meets_deliver h₁ (hs.later hl₁) (fun c' h' => meets_sendJson compress _ h') ?_
          intro r c₂ hl₂ h₂
          have hs₂ := (hs.later hl₁).later hl₂
          rcases r with _ | _ | _ | _
          · exact h₂
          · exact Outcome.Meets.seq (ih _ _ h₂ hs₂) fun _ _ h => h
          · exact Outcome.Meets.seq (ih _ _ h₂ hs₂) fun _ _ h => h
          · exact meets_sendJson compress _ (h₂.poison (by simp))

theorem meets_publishWireBatch (hreg : wires wire.capability = wire)
    (h : Carries wires start none c) (topic event : String) (compress : Bool)
    (entries : List WireRecord) (envs : List String) (seqs : List (Option JsNumber)) :
    (publishWireBatch wire topic event compress entries envs seqs c).Meets (contract wires start)
      fun _ c' => Carries wires start none c' := by
  simp only [publishWireBatch, Prog.get_bind_run]
  split
  · exact h
  split
  · exact h
  next hskip =>
  have hd : c.detached = false := by
    simp only [Connection.skips] at hskip
    cases hc : c.detached <;> simp [hc] at hskip ⊢
  split
  · exact h
  split
  · refine Outcome.Meets.seq (meets_ensureWireState hreg h hd) ?_
    rintro state c₁ ⟨h₁, -, hs⟩
    cases state with
    | none => exact meets_sendJson compress _ h₁
    | some state =>
      have hs₁ := hs (.inl rfl)
      refine Outcome.Meets.seq (meets_encode h₁ hs₁ _ _) ?_
      rintro p c₂ ⟨hl₂, h₂⟩
      cases p with
      | none => exact meets_publishEntries topic event compress _ _ _ h₂ (hs₁.later hl₂)
      | some p =>
        refine meets_deliver h₂ (hs₁.later hl₂) (fun c' h' => meets_sendJson compress _ h') ?_
        intro result c₃ _ h₃
        exact meets_poison_dropped h₃ _
  · exact meets_sendJson compress _ h

variable {text : JsNumber → String}

theorem meets_wireJsonSend (h : Carries wires start none c) (topic event : String)
    (data : Option String) (compress : Bool) (seq : Option JsNumber) :
    (wireJsonSend text topic event data compress seq c).Meets (contract wires start) fun _ c' =>
      Carries wires start none c' ∧ Later c c' := by
  unfold wireJsonSend
  cases envelopeBody topic event data with
  | none => exact h
  | some body => exact Outcome.Meets.seq (meets_send_json h _ compress) fun _ _ h => h

theorem meets_sendWire (hreg : wires wire.capability = wire)
    (h : Carries wires start none c) (topic event : String) (data : Option String) (compress : Bool)
    (seq : Option JsNumber) :
    (sendWire text wire topic event data compress seq c).Meets (contract wires start) fun _ c' =>
      Carries wires start none c' := by
  have hjson : ∀ c', Carries wires start none c' →
      (wireJsonSend text topic event data compress seq c').Meets (contract wires start)
        fun _ c'' => Carries wires start none c'' := fun c' h' =>
    (meets_wireJsonSend h' topic event data compress seq).mono fun _ _ h => h.1
  simp only [sendWire, Prog.get_bind_run]
  split
  · exact h
  next hd =>
  split
  · next hcap =>
    simp only [Bool.and_eq_true, Bool.not_eq_true'] at hcap
    refine Outcome.Meets.seq (meets_ensureWireState hreg h (by simpa using hd)) ?_
    rintro state c₁ ⟨h₁, hp, hs⟩
    have hs₁ := hs (.inr (hp hcap.2))
    refine Outcome.Meets.seq (meets_encode h₁ hs₁ _ _) ?_
    rintro p c₂ ⟨hl₂, h₂⟩
    cases p with
    | none => exact hjson _ h₂
    | some p =>
      refine meets_deliver h₂ (hs₁.later hl₂) hjson ?_
      intro result c₃ _ h₃
      by_cases hst : wire.stateful = true
      · simp only [hst, and_true]
        exact meets_poison_dropped h₃ _
      · rw [if_neg fun hr => hst hr.2]
        exact h₃.settled (.of_stateless hreg (by simpa using hst) c₃)
  · exact hjson _ h

theorem meets_sendJsonFrom (h : Carries wires start none c) (topic event : String) (compress : Bool)
    (source : List (Option String)) (prior : SendResult) :
    (sendJsonFrom text topic event compress source prior c).Meets (contract wires start)
      fun _ c' => Carries wires start none c' := by
  induction source generalizing c prior with
  | nil => exact h
  | cons data source ih =>
    refine Outcome.Meets.seq (meets_wireJsonSend h topic event data compress none) ?_
    rintro result c₁ ⟨h₁, -⟩
    simp only [Prog.get_bind_run]
    split
    · exact h₁
    · exact ih h₁ result

theorem meets_sendEntries {state : CodecState} (h : Carries wires start none c)
    (hs : Served wires wire.capability true c) (topic event : String) (compress : Bool)
    (datas : List (Option String)) (prior : SendResult) :
    (sendEntries text wire state topic event compress datas prior c).Meets (contract wires start)
      fun _ c' => Carries wires start none c' := by
  induction datas generalizing c prior with
  | nil => exact h
  | cons data datas ih =>
    refine Outcome.Meets.seq (meets_encode h hs _ _) ?_
    rintro p c₁ ⟨hl₁, h₁⟩
    have hs₁ := hs.later hl₁
    cases p with
    | none =>
      refine Outcome.Meets.seq (meets_wireJsonSend h₁ topic event data compress none) ?_
      rintro result c₂ ⟨h₂, hl₂⟩
      simp only [Prog.get_bind_run]
      split
      · exact h₂
      · exact ih h₂ (hs₁.later hl₂) result
    | some p =>
      refine meets_deliver h₁ hs₁ (fun c' h' => meets_sendJsonFrom h' _ _ compress _ _) ?_
      intro r c₂ hl₂ h₂
      have hs₂ := hs₁.later hl₂
      rcases r with _ | _ | _ | _
      · exact h₂
      · exact ih h₂ hs₂ _
      · exact ih h₂ hs₂ _
      · exact meets_sendJsonFrom (h₂.poison (by simp)) _ _ compress _ _

theorem meets_sendWireBatch (hreg : wires wire.capability = wire)
    (h : Carries wires start none c) (topic event : String) (compress : Bool)
    (datas : List (Option String)) :
    (sendWireBatch text wire topic event compress datas c).Meets (contract wires start)
      fun _ c' => Carries wires start none c' := by
  simp only [sendWireBatch, Prog.get_bind_run]
  split
  · exact h
  split
  · exact h
  next hd =>
  split
  · refine Outcome.Meets.seq (meets_ensureWireState hreg h (by simpa using hd)) ?_
    rintro state c₁ ⟨h₁, -, hs⟩
    cases state with
    | none => exact meets_sendJsonFrom h₁ _ _ compress _ _
    | some state =>
      have hs₁ := hs (.inl rfl)
      refine Outcome.Meets.seq (meets_encode h₁ hs₁ _ _) ?_
      rintro p c₂ ⟨hl₂, h₂⟩
      cases p with
      | none => exact meets_sendEntries h₂ (hs₁.later hl₂) _ _ compress _ _
      | some p =>
        refine meets_deliver h₂ (hs₁.later hl₂) (fun c' h' => meets_sendJsonFrom h' _ _ compress _ _) ?_
        intro result c₃ _ h₃
        exact meets_poison_dropped h₃ _
  · exact meets_sendJsonFrom h _ _ compress _ _

theorem meets_run {x : Call} (hreg : wires x.wire.capability = x.wire)
    (h : Carries wires start none c) :
    (x.run text c).Meets (contract wires start) fun _ c' => Carries wires start none c' := by
  cases x with
  | publishWire wire event data r =>
    exact Outcome.Meets.seq (meets_publishWire hreg h event data r) fun _ _ h => h
  | publishWireBatch wire topic event compress entries envs seqs =>
    exact Outcome.Meets.seq (meets_publishWireBatch hreg h topic event compress entries envs seqs)
      fun _ _ h => h
  | sendWire wire topic event data compress seq =>
    exact Outcome.Meets.seq (meets_sendWire hreg h topic event data compress seq) fun _ _ h => h
  | sendWireBatch wire topic event compress datas =>
    exact Outcome.Meets.seq (meets_sendWireBatch hreg h topic event compress datas) fun _ _ h => h

end BunServe.WireState
