import BunServe.WireState.Walks

/-!
# BunServe.WireState.Told

What the publish walks hand to a connection, read as its client reads it.

* `Client` — how a client reads envelopes and frames; a frame is decoded after the
  payloads of its capability that were accepted before it;
* `environment` — a codec whose payloads decode to what they were encoded from, and
  a socket that may refuse or drop, but stays as it is;
* `told_publishWire` — `publishWire` hands a connection its event, in whichever form;
* `told_publishWireBatch` — `publishWireBatch` hands it the entries that do not
  exclude it, in their order, in whichever forms.
-/

namespace BunServe.WireState

open Resume Publish

variable {wires : String → Wire} {start c : Connection}

/-! ## the client -/

structure Client (E : Type) where
  /-- An event and its data, as the envelope gives them. -/
  view : String → Option String → E
  /-- The events of an envelope. -/
  parse : String → List E
  /-- The events of a payload of a schema version, after other payloads. -/
  decode : List Payload → Nat → Payload → List E

namespace Client

variable {E : Type}

/-- The events a connection was handed, oldest first. -/
def events (k : Client E) : List Event → List E
  | [] => []
  | .handed (.json env) :: log => k.events log ++ k.parse env
  | .handed (.frame f) :: log =>
    k.events log ++ k.decode (acceptedOf f.capability log) f.schemaVersion f.payload
  | _ :: log => k.events log

/-- What `encode` was asked stands for these events. -/
def Stands (k : Client E) : Request → List E → Prop
  | .single event data, es => es = [k.view event data]
  | .batch name updates, es => ∀ event, name = event ++ "-batch" → es = updates.map (k.view event)

/-- A payload decodes to what it was encoded from: one that was encoded against a
state after those encoded before it, another after any. -/
def Reads (k : Client E) (wires : String → Wire) (c : Connection) : (op : Op) → op.Ans → Prop
  | .encode capability (some state) request, (ans : Option Payload) => ∀ p, ans = some p →
      k.Stands request (k.decode (encodedOf capability c.log)
        (schemaVersionOf (wires capability) (some state)) p)
  | .encode capability none request, (ans : Option Payload) => ∀ p, ans = some p →
      ∀ past, k.Stands request (k.decode past (wires capability).schemaVersion p)
  | _, _ => True

/-- A codec that can be read, and a connection that does not close. -/
def environment (k : Client E) (wires : String → Wire) (op : Op) (c : Connection) (ans : op.Ans)
    (c' : Connection) : Prop :=
  c' = c ∧ op.possible c ans = true ∧ k.Reads wires c op ans

/-- The walks in it. -/
def quiet (k : Client E) (wires : String → Wire) : Contract Connection Op Op.Ans where
  pre _ _ := True
  post := k.environment wires
  fail _ := True

end Client

variable {E : Type} {k : Client E}

theorem tame {α : Type} {Q : α → Connection → Prop} {o : Outcome Connection Op Op.Ans α}
    (h : o.Meets (contract wires start) Q) : o.Meets (k.quiet wires) Q := by
  refine h.weaken (fun _ _ _ => trivial) ?_ fun _ _ => trivial
  rintro op s ans s' ⟨rfl, hposs, -⟩
  exact ⟨.inl rfl, hposs⟩

/-! ## what was handed -/

/-- What the walks leave of a connection. -/
structure Stays (c c' : Connection) : Prop where
  ws : c'.ws = c.ws
  isOpen : c'.isOpen = c.isOpen
  listed : c'.listed = c.listed
  detached : c'.detached = c.detached
  subscriptions : c'.subscriptions = c.subscriptions

theorem Stays.skips {c c' : Connection} (h : Stays c c') (topic : String) :
    c'.skips topic = c.skips topic := by
  simp only [Connection.skips, h.listed, h.detached, h.subscriptions]

/-- A connection was handed these events, if it is open. -/
structure Told (k : Client E) (c : Connection) (es : List E) (c' : Connection) : Prop extends
    Stays c c' where
  events : k.events c'.log = k.events c.log ++ if c.isOpen then es else []

theorem Told.refl (c : Connection) : Told k c [] c := ⟨⟨rfl, rfl, rfl, rfl, rfl⟩, by simp⟩

variable {es : List E}

theorem Told.trans {a b c : Connection} {es' : List E} (h : Told k a es b)
    (h' : Told k b es' c) : Told k a (es ++ es') c where
  ws := h'.ws.trans h.ws
  isOpen := h'.isOpen.trans h.isOpen
  listed := h'.listed.trans h.listed
  detached := h'.detached.trans h.detached
  subscriptions := h'.subscriptions.trans h.subscriptions
  events := by
    rw [h'.events, h.events, h.isOpen]
    split <;> simp

theorem Told.of_closed {c c' : Connection} {es' : List E} (h : Told k c es c')
    (hc : c.isOpen = false) : Told k c es' c' :=
  ⟨h.toStays, by rw [h.events]; simp [hc]⟩

theorem told_note (c : Connection) {e : Event} (he : ∀ m, e ≠ .handed m) : Told k c [] (c.note e) := by
  refine ⟨⟨rfl, rfl, rfl, rfl, rfl⟩, ?_⟩
  cases e with
  | handed m => exact absurd rfl (he m)
  | _ => simp [Connection.note, Client.events]

theorem told_poison {ahead : Option (String × Payload)} (capability : String)
    (_ : Carries wires start ahead c) : Told k c [] (c.poisonWireState capability) := by
  unfold Connection.poisonWireState
  split
  · exact .refl c
  · rcases detachEntry_cases c capability with ⟨heq, -⟩ | ⟨heq, -⟩ <;> rw [heq]
    · exact ⟨⟨rfl, rfl, rfl, rfl, rfl⟩, by simp⟩
    · have h := told_note (k := k) c (e := .detached capability) (by simp)
      exact ⟨⟨rfl, rfl, rfl, rfl, rfl⟩, h.events⟩

/-! ## sends and announces -/

theorem told_json (h : Carries wires start none c) (env : String) (compress : Bool) :
    (send (.json env) compress c).Meets (k.quiet wires) fun r c' =>
      (Carries wires start none c' ∧ Later c c') ∧ Told k c (k.parse env) c' ∧
        (r = none → c.isOpen = false) := by
  refine (tame (meets_send_json h env compress)).and ?_
  simp only [send, Prog.get_bind_run]
  split
  · next hopen =>
    refine ⟨trivial, ?_⟩
    rintro (r : SendResult) c₁ ⟨rfl, -⟩
    have hhanded : Told k c (k.parse env) (c.note (.handed (.json env))) :=
      ⟨⟨rfl, rfl, rfl, rfl, rfl⟩, by simp [Connection.note, Client.events, hopen]⟩
    have haccepted := hhanded.trans (told_note _ (e := .accepted (.json env)) (by simp))
    show Told k c (k.parse env) (if r = .dropped then _ else _) ∧ _
    split
    · exact ⟨hhanded, by simp⟩
    · exact ⟨by simpa using haccepted, by simp⟩
  · next hclosed =>
    have hc : c.isOpen = false := by simpa using hclosed
    exact ⟨Told.refl c |>.of_closed hc, fun _ => hc⟩

variable {wire : Wire}

theorem told_frame {b : Bool} {p : Payload} {topic : String} {id sv : Nat}
    {seq : Option JsNumber} (h : Carries wires start (some (wire.capability, p)) c)
    (hs : Served wires wire.capability b c) (hann : c.isOpen → .announced topic id ∈ c.log)
    (compress : Bool) :
    (send (frameOf wire sv topic id seq p) compress c).Meets (k.quiet wires) fun r c' =>
      (Later c c' ∧ Carries wires start
        (if r = some .dropped then some (wire.capability, p) else none) c') ∧
      Told k c (k.decode (acceptedOf wire.capability c.log) sv p) c' ∧
        (r = none → c.isOpen = false) := by
  refine (tame (meets_send_frame h hs hann compress)).and ?_
  simp only [send, Prog.get_bind_run]
  split
  · next hopen =>
    refine ⟨trivial, ?_⟩
    rintro (r : SendResult) c₁ ⟨rfl, -⟩
    have hhanded : Told k c (k.decode (acceptedOf wire.capability c.log) sv p)
        (c.note (.handed (frameOf wire sv topic id seq p))) :=
      ⟨⟨rfl, rfl, rfl, rfl, rfl⟩, by simp [Connection.note, Client.events, frameOf, hopen]⟩
    have haccepted := hhanded.trans
      (told_note _ (e := .accepted (frameOf wire sv topic id seq p)) (by simp))
    show Told k c _ (if r = .dropped then _ else _) ∧ _
    split
    · exact ⟨hhanded, by simp⟩
    · exact ⟨by simpa using haccepted, by simp⟩
  · next hclosed =>
    have hc : c.isOpen = false := by simpa using hclosed
    exact ⟨Told.refl c |>.of_closed hc, fun _ => hc⟩

theorem told_ensureWireId {ahead : Option (String × Payload)} (h : Carries wires start ahead c)
    (topic : String) :
    (ensureWireId topic c).Meets (k.quiet wires) fun id c' =>
      (Later c c' ∧ Carries wires start ahead c' ∧
        ∀ i, id = some i → c'.isOpen → .announced topic i ∈ c'.log) ∧
      Told k c [] c' ∧ ∀ x, acceptedOf x c'.log = acceptedOf x c.log := by
  refine (tame (meets_ensureWireId h topic)).and ?_
  simp only [ensureWireId, Prog.get_bind_run]
  cases c.byName.get? topic with
  | some id => exact ⟨.refl c, fun _ => rfl⟩
  | none =>
    refine Outcome.Meets.ask trivial ?_
    rintro (r : Control) c₁ ⟨rfl, -⟩
    have halloc : Told k c [] (c.allocWireId topic) :=
      ⟨⟨rfl, rfl, rfl, rfl, rfl⟩, by simp [Connection.allocWireId]⟩
    by_cases hr : r = .delivered
    · have hn := halloc.trans (told_note _ (e := .announced topic c.nextId) (by simp))
      simp only [hr]
      exact ⟨hn, fun x => by simp [Connection.note, Connection.allocWireId, acceptedOf]⟩
    · simp only [hr]
      exact ⟨⟨⟨rfl, rfl, rfl, rfl, rfl⟩, halloc.events⟩, fun x => rfl⟩

/-! ## states and payloads -/

theorem told_ensureWireState (hreg : wires wire.capability = wire)
    (h : Carries wires start none c) (hd : c.detached = false) :
    (ensureWireState wire c).Meets (k.quiet wires) fun state c' =>
      (Carries wires start none c' ∧
        (c.wireStatePoisoned wire.capability = false →
          c'.wireStatePoisoned wire.capability = false) ∧
        (state.isSome = true ∨ c'.wireStatePoisoned wire.capability = false →
          Served wires wire.capability state.isSome c')) ∧ Told k c [] c' := by
  refine (tame (meets_ensureWireState hreg h hd)).and ?_
  simp only [ensureWireState, Prog.ite_run, Prog.get_bind_run]
  split
  · cases c.wireStates.get? wire.capability with
    | some e => exact .refl c
    | none =>
      refine ⟨trivial, ?_⟩
      rintro (state : Option CodecState) c₁ ⟨rfl, -⟩
      have hn := told_note (k := k) c₁ (e := .attached wire.capability state.isSome) (by simp)
      exact ⟨⟨rfl, rfl, rfl, rfl, rfl⟩, hn.events⟩
  · exact .refl c

/-- A payload can be read where its frame will be. -/
def Readable (k : Client E) (wire : Wire) (state : Option CodecState) (request : Request)
    (p : Payload) (c : Connection) : Prop :=
  c.isOpen → k.Stands request
    (k.decode (acceptedOf wire.capability c.log) (schemaVersionOf wire state) p)

theorem told_encode (hreg : wires wire.capability = wire)
    (h : Carries wires start none c) (state : Option CodecState)
    (hst : state.isSome = true → wire.stateful = true)
    (hs : Served wires wire.capability state.isSome c) (request : Request) :
    (encode wire state request c).Meets (k.quiet wires) fun p c' =>
      (Later c c' ∧ Carries wires start (p.map fun p => (wire.capability, p)) c') ∧
      Told k c [] c' ∧ ∀ q, p = some q → Readable k wire state request q c' := by
  refine (tame (meets_encode h hs state request)).and ?_
  refine ⟨trivial, ?_⟩
  rintro (p : Option Payload) c₁ ⟨rfl, -, hreads⟩
  cases p with
  | none => exact ⟨.refl c₁, by simp⟩
  | some p =>
    have hn := told_note (k := k) c₁ (e := .encoded wire.capability state request p) (by simp)
    refine ⟨hn, ?_⟩
    rintro q ⟨⟩ hopen
    show k.Stands request (k.decode (acceptedOf wire.capability c₁.log) _ p)
    cases state with
    | none =>
      have := hreads p rfl (acceptedOf wire.capability c₁.log)
      rw [hreg] at this
      exact this
    | some state =>
      have hread := hreads p rfl
      obtain ⟨hat, he⟩ := hs (by rw [hreg]; exact hst rfl)
      obtain ⟨e, he, hes⟩ := he rfl hopen
      have hlevel := h.2.level hopen _ _ he hes
      rw [hlevel, hreg] at hread
      simpa [aheadOf] using hread

/-! ## the walks -/

theorem told_deliver {α : Type} {Q : α → Connection → Prop} {b : Bool} {p : Payload}
    {topic : String} {sv : Nat} {seq : Option JsNumber} {compress : Bool} {fallback : Session α}
    {next : Option SendResult → Session α}
    (h : Carries wires start (some (wire.capability, p)) c) (hs : Served wires wire.capability b c)
    (hread : c.isOpen → k.decode (acceptedOf wire.capability c.log) sv p = es)
    (hfallback : ∀ c', Carries wires start none c' → Told k c [] c' →
      (fallback c').Meets (k.quiet wires) Q)
    (hnext : ∀ r c', Later c c' → Carries wires start
      (if r = some .dropped then some (wire.capability, p) else none) c' → Told k c es c' →
      (r = none → c.isOpen = false) → (next r c').Meets (k.quiet wires) Q) :
    ((ensureWireId topic >>= fun id => match id with
      | none => poison wire >>= fun _ => fallback
      | some id => send (frameOf wire sv topic id seq p) compress >>= next) c).Meets
      (k.quiet wires) Q := by
  refine Outcome.Meets.seq (told_ensureWireId h topic) ?_
  rintro id c₁ ⟨⟨hl₁, h₁, hann⟩, ht₁, hacc⟩
  cases id with
  | none =>
    exact hfallback _ (h₁.poison (by simp)) (ht₁.trans (told_poison wire.capability h₁))
  | some id =>
    refine Outcome.Meets.seq (told_frame h₁ (hs.later hl₁) (hann id rfl) compress) ?_
    rintro r c₂ ⟨⟨hl₂, h₂⟩, ht₂, hr⟩
    have ht : Told k c (k.decode (acceptedOf wire.capability c₁.log) sv p) c₂ := by
      exact ht₁.trans ht₂
    have ht' : Told k c es c₂ := by
      cases hopen : c.isOpen with
      | false => exact ht.of_closed hopen
      | true =>
        rw [hacc, hread hopen] at ht
        exact ht
    exact hnext r c₂ (hl₁.trans hl₂) h₂ ht' fun hnone => ht₁.isOpen ▸ hr hnone

theorem told_wireEnvelopeSend (h : Carries wires start none c) (env : String) (compress : Bool) :
    (wireEnvelopeSend env compress c).Meets (k.quiet wires) fun _ c' =>
      Carries wires start none c' ∧ Told k c (k.parse env) c' :=
  Outcome.Meets.seq (told_json h env compress) fun _ _ h => ⟨h.1.1, h.2.1⟩

theorem told_poison_dropped {α : Type} {p : Payload} {r : Option SendResult} {c₀ : Connection}
    (h : Carries wires start (if r = some .dropped then some (wire.capability, p) else none) c)
    (ht : Told k c₀ es c) (a : α) :
    ((if r = some .dropped then poison wire >>= fun _ => pure a else pure a : Session α) c).Meets
      (k.quiet wires) fun _ c' => Carries wires start none c' ∧ Told k c₀ es c' := by
  refine (tame (meets_poison_dropped h a)).and ?_
  split
  · have hp : Told k c₀ es (c.poisonWireState wire.capability) := by
      simpa using ht.trans (told_poison wire.capability h)
    exact hp
  · exact ht

variable {event : String}

theorem told_publishStateful (hreg : wires wire.capability = wire)
    (hst : wire.stateful = true) (h : Carries wires start none c) (hd : c.detached = false)
    {data : Option String} {r : Recorded} (hparse : k.parse r.envelope = [k.view event data]) :
    (publishStateful wire event data r c).Meets (k.quiet wires) fun _ c' =>
      Carries wires start none c' ∧ Told k c [k.view event data] c' := by
  have hjson : ∀ c', Carries wires start none c' → Told k c [] c' →
      (wireEnvelopeSend r.envelope r.compress c').Meets (k.quiet wires) fun _ c'' =>
        Carries wires start none c'' ∧ Told k c [k.view event data] c'' := by
    intro c' h' ht
    refine (told_wireEnvelopeSend h' r.envelope r.compress).mono ?_
    rintro _ c'' ⟨h'', ht'⟩
    exact ⟨h'', by simpa [hparse] using ht.trans ht'⟩
  refine Outcome.Meets.seq (told_ensureWireState hreg h hd) ?_
  rintro state c₁ ⟨⟨h₁, -, hs⟩, ht₁⟩
  simp only [Prog.get_bind_run]
  cases state with
  | none =>
    split
    · exact hjson _ h₁ ht₁
    rename_i hp
    have hs₁ := hs (.inr (by simpa using hp))
    refine Outcome.Meets.seq (told_encode hreg h₁ _ (by simp) hs₁ _) ?_
    rintro p c₂ ⟨⟨hl₂, h₂⟩, ht₂, hread⟩
    have ht : Told k c [] c₂ := ht₁.trans ht₂
    cases p with
    | none => exact hjson _ h₂ ht
    | some p =>
      have hs₂ := hs₁.later hl₂
      refine told_deliver h₂ hs₂ (hread p rfl) (fun c' h' ht' => hjson _ h' ?_) ?_
      · exact ht.trans ht'
      · intro result c₃ hl₃ h₃ ht₃ _
        exact ⟨h₃.settled (hs₂.later hl₃), ht.trans ht₃⟩
  | some state =>
    have hs₁ := hs (.inl rfl)
    refine Outcome.Meets.seq (told_encode hreg h₁ _ (fun _ => hst) hs₁ _) ?_
    rintro p c₂ ⟨⟨hl₂, h₂⟩, ht₂, hread⟩
    have ht : Told k c [] c₂ := ht₁.trans ht₂
    cases p with
    | none => exact hjson _ h₂ ht
    | some p =>
      refine told_deliver h₂ (hs₁.later hl₂) (hread p rfl) (fun c' h' ht' => hjson _ h' ?_) ?_
      · exact ht.trans ht'
      · intro result c₃ _ h₃ ht₃ _
        exact told_poison_dropped h₃ (ht.trans ht₃) _

theorem told_publishStateless (hreg : wires wire.capability = wire)
    (hst : wire.stateful = false) (h : Carries wires start none c)
    {data : Option String} {r : Recorded} (hparse : k.parse r.envelope = [k.view event data]) :
    (publishStateless wire event data r c).Meets (k.quiet wires) fun _ c' =>
      Carries wires start none c' ∧ Told k c [k.view event data] c' := by
  have hjson : ∀ c', Carries wires start none c' → Told k c [] c' →
      (wireEnvelopeSend r.envelope r.compress c').Meets (k.quiet wires) fun _ c'' =>
        Carries wires start none c'' ∧ Told k c [k.view event data] c'' := by
    intro c' h' ht
    refine (told_wireEnvelopeSend h' r.envelope r.compress).mono ?_
    rintro _ c'' ⟨h'', ht'⟩
    exact ⟨h'', by simpa [hparse] using ht.trans ht'⟩
  have hs : ∀ c', Served wires wire.capability false c' := .of_stateless hreg hst
  refine Outcome.Meets.seq (told_encode hreg h none (by simp) (hs c) _) ?_
  rintro p c₁ ⟨⟨hl₁, h₁⟩, ht₁, hread⟩
  cases p with
  | none => exact hjson _ h₁ ht₁
  | some p =>
    simp only [Prog.get_bind_run]
    split
    · exact hjson _ ⟨h₁.1, h₁.2.settled (by simp) fun e => (hs c₁).stateless h₁.2⟩ ht₁
    · refine told_deliver h₁ (hs c₁) (hread p rfl) (fun c' h' ht' => hjson _ h' ?_) ?_
      · exact ht₁.trans ht'
      · intro result c₂ _ h₂ ht₂ _
        exact ⟨h₂.settled (hs c₂), ht₁.trans ht₂⟩

/-- What `publishWire` hands to a connection. -/
theorem told_publishWire (hreg : wires wire.capability = wire)
    (h : Carries wires start none c) {data : Option String} {r : Recorded}
    (hparse : k.parse r.envelope = [k.view event data]) :
    (publishWire wire event data r c).Meets (k.quiet wires) fun _ c' =>
      Carries wires start none c' ∧
        Told k c (if r.excludeWs = some c.ws ∨ c.skips r.topic then [] else [k.view event data]) c' := by
  simp only [publishWire, Prog.get_bind_run]
  by_cases hexclude : r.excludeWs = some c.ws
  · rw [if_pos hexclude, if_pos (.inl hexclude)]
    exact ⟨h, .refl c⟩
  rw [if_neg hexclude]
  by_cases hskip : c.skips r.topic = true
  · rw [if_pos hskip, if_pos (.inr hskip)]
    exact ⟨h, .refl c⟩
  rw [if_neg hskip, if_neg (by simp [hexclude, hskip])]
  have hd : c.detached = false := by
    simp only [Connection.skips] at hskip
    cases hc : c.detached <;> simp [hc] at hskip ⊢
  split
  · split
    · next hst => exact told_publishStateful hreg hst h hd hparse
    · next hst => exact told_publishStateless hreg (by simpa using hst) h hparse
  · refine (told_wireEnvelopeSend h r.envelope r.compress).mono ?_
    rintro _ c' ⟨h', ht⟩
    exact ⟨h', by rw [← hparse]; exact ht⟩

/-! ## the batch -/

/-- Envelopes that read as the entries they are of. -/
def Envelopes (k : Client E) (event : String) (list : List WireRecord) (envList : List String) : Prop :=
  List.Forall₂ (fun x env => k.parse env = [k.view event x.data]) list envList

def views (k : Client E) (event : String) (list : List WireRecord) : List E :=
  list.map fun x => k.view event x.data

theorem told_sendJson {list : List WireRecord} {envList : List String}
    (henv : Envelopes k event list envList) (compress : Bool) (h : Carries wires start none c) :
    (sendJson compress envList c).Meets (k.quiet wires) fun _ c' =>
      Carries wires start none c' ∧ Told k c (views k event list) c' := by
  induction henv generalizing c with
  | nil => exact ⟨h, .refl c⟩
  | @cons x env list envList hx _ ih =>
    refine Outcome.Meets.seq (told_json h env compress) ?_
    rintro r c₁ ⟨⟨h₁, -⟩, ht₁, hr⟩
    split
    · next hnone => exact ⟨h₁, ht₁.of_closed (hr hnone)⟩
    · refine Outcome.Meets.seq (ih h₁) ?_
      rintro _ c₂ ⟨h₂, ht₂⟩
      refine ⟨h₂, ?_⟩
      have ht := ht₁.trans ht₂
      rw [hx] at ht
      exact ht

theorem told_publishEntries (hreg : wires wire.capability = wire)
    (hst : wire.stateful = true) {state : CodecState} (topic : String)
    (compress : Bool) {list : List WireRecord} {envList : List String}
    (henv : Envelopes k event list envList) {seqList : List (Option JsNumber)}
    (hlen : seqList.length = list.length) (h : Carries wires start none c)
    (hs : Served wires wire.capability true c) :
    (publishEntries wire state topic event compress list envList seqList c).Meets (k.quiet wires)
      fun _ c' => Carries wires start none c' ∧ Told k c (views k event list) c' := by
  induction henv generalizing c seqList with
  | nil => exact ⟨h, .refl c⟩
  | @cons x env list envList hx henv ih =>
    cases seqList with
    | nil => cases hlen
    | cons seq seqList =>
      have hlen' : seqList.length = list.length := by simpa using hlen
      -- what the rest of the entries adds to what was told so far
      have hrest : ∀ {c' c'' : Connection}, Told k c [k.view event x.data] c' →
          Told k c' (views k event list) c'' → Told k c (views k event (x :: list)) c'' :=
        fun ht ht' => ht.trans ht'
      refine Outcome.Meets.seq (told_encode hreg h (some state) (fun _ => hst) hs _) ?_
      rintro p c₁ ⟨⟨hl₁, h₁⟩, ht₁, hread⟩
      have hs₁ := hs.later hl₁
      cases p with
      | none =>
        refine Outcome.Meets.seq (told_json h₁ env compress) ?_
        rintro r c₂ ⟨⟨h₂, hl₂⟩, ht₂, hr⟩
        have ht : Told k c [k.view event x.data] c₂ := by
          rw [hx] at ht₂
          exact ht₁.trans ht₂
        split
        · next hnone => exact ⟨h₂, ht.of_closed (ht₁.isOpen ▸ hr hnone)⟩
        · refine Outcome.Meets.seq (ih hlen' h₂ (hs₁.later hl₂)) ?_
          rintro _ c₃ ⟨h₃, ht₃⟩
          exact ⟨h₃, hrest ht ht₃⟩
      | some p =>
        refine told_deliver h₁ hs₁ (hread p rfl) (fun c' h' ht' => ?_) ?_
        · refine (told_sendJson (.cons hx henv) compress h').mono ?_
          rintro _ c'' ⟨h'', ht''⟩
          exact ⟨h'', (ht₁.trans ht').trans ht''⟩
        · intro r c₂ hl₂ h₂ ht₂ hr
          have ht : Told k c [k.view event x.data] c₂ := ht₁.trans ht₂
          have hs₂ := hs₁.later hl₂
          rcases r with _ | _ | _ | _
          · exact ⟨h₂, ht.of_closed (ht₁.isOpen ▸ hr rfl)⟩
          · exact Outcome.Meets.seq (ih hlen' h₂ hs₂) fun _ c₃ h₃ => ⟨h₃.1, hrest ht h₃.2⟩
          · exact Outcome.Meets.seq (ih hlen' h₂ hs₂) fun _ c₃ h₃ => ⟨h₃.1, hrest ht h₃.2⟩
          · have hp : Told k c [k.view event x.data] (c₂.poisonWireState wire.capability) := by
              exact ht.trans (told_poison wire.capability h₂)
            refine (told_sendJson henv compress (h₂.poison (by simp))).mono ?_
            rintro _ c₃ ⟨h₃, ht₃⟩
            exact ⟨h₃, hrest hp ht₃⟩

/-- The entries a connection receives. -/
def entriesFor (ws : Socket) (entries : List WireRecord) : List WireRecord :=
  entries.filter fun x => decide (x.excludeWs ≠ some ws)

theorem filterFor_spec (ws : Socket) {entries : List WireRecord}
    {envs : List String} (henv : Envelopes k event entries envs) {seqs : List (Option JsNumber)}
    (hlen : seqs.length = entries.length) (lastSeq : Option JsNumber) :
    (filterFor ws entries envs seqs lastSeq).list = entriesFor ws entries ∧
      Envelopes k event (filterFor ws entries envs seqs lastSeq).list
        (filterFor ws entries envs seqs lastSeq).envList ∧
      (filterFor ws entries envs seqs lastSeq).seqList.length =
        (filterFor ws entries envs seqs lastSeq).list.length := by
  induction henv generalizing seqs lastSeq with
  | nil => exact ⟨rfl, .nil, rfl⟩
  | @cons x env entries envs hx henv ih =>
    cases seqs with
    | nil => cases hlen
    | cons seq seqs =>
      have hlen' : seqs.length = entries.length := by simpa using hlen
      simp only [filterFor, entriesFor, List.filter_cons]
      by_cases hexclude : x.excludeWs = some ws
      · simp only [hexclude, ne_eq]
        exact ih hlen' lastSeq
      · obtain ⟨hlist, henvs, hseqs⟩ := ih hlen' seq
        simp only [hexclude, if_false, ne_eq, not_false_eq_true, decide_true, if_true]
        exact ⟨by rw [hlist, entriesFor], .cons hx henvs, by simp [hseqs]⟩

theorem subsetFor_spec (ws : Socket) {entries : List WireRecord}
    {envs : List String} (henv : Envelopes k event entries envs) {seqs : List (Option JsNumber)}
    (hlen : seqs.length = entries.length) :
    (subsetFor ws entries envs seqs).list = entriesFor ws entries ∧
      Envelopes k event (subsetFor ws entries envs seqs).list
        (subsetFor ws entries envs seqs).envList ∧
      (subsetFor ws entries envs seqs).seqList.length =
        (subsetFor ws entries envs seqs).list.length := by
  unfold subsetFor
  split
  · exact filterFor_spec ws henv hlen _
  · next hno =>
    refine ⟨?_, henv, hlen⟩
    have hnone : ∀ x ∈ entries, x.excludeWs = none := by
      simpa [anyExclude] using hno
    exact (List.filter_eq_self.2 fun x hx => by simp [hnone x hx]).symm

/-- What `publishWireBatch` hands to a connection. -/
theorem told_publishWireBatch (hreg : wires wire.capability = wire)
    (hst : wire.stateful = true) (h : Carries wires start none c) (topic : String)
    (compress : Bool) {entries : List WireRecord} {envs : List String}
    (henv : Envelopes k event entries envs) {seqs : List (Option JsNumber)}
    (hlen : seqs.length = entries.length) :
    (publishWireBatch wire topic event compress entries envs seqs c).Meets (k.quiet wires)
      fun _ c' => Carries wires start none c' ∧
        Told k c (if c.skips topic then [] else views k event (entriesFor c.ws entries)) c' := by
  obtain ⟨hlist, henvs, hseqs⟩ := subsetFor_spec c.ws henv hlen
  simp only [publishWireBatch, Prog.get_bind_run]
  by_cases hnil : entries = []
  · subst hnil
    exact ⟨h, by simpa [views, entriesFor] using Told.refl c⟩
  rw [if_neg hnil]
  by_cases hskip : c.skips topic = true
  · rw [if_pos hskip, if_pos hskip]
    exact ⟨h, .refl c⟩
  rw [if_neg hskip, if_neg hskip, ← hlist]
  have hd : c.detached = false := by
    simp only [Connection.skips] at hskip
    cases hc : c.detached <;> simp [hc] at hskip ⊢
  have hjson : ∀ c', Carries wires start none c' → Told k c [] c' →
      (sendJson compress (subsetFor c.ws entries envs seqs).envList c').Meets (k.quiet wires)
        fun _ c'' => Carries wires start none c'' ∧
          Told k c (views k event (subsetFor c.ws entries envs seqs).list) c'' := by
    intro c' h' ht
    refine (told_sendJson henvs compress h').mono ?_
    rintro _ c'' ⟨h'', ht'⟩
    exact ⟨h'', ht.trans ht'⟩
  split
  · next hempty => exact ⟨h, by rw [hempty]; exact .refl c⟩
  split
  · refine Outcome.Meets.seq (told_ensureWireState hreg h hd) ?_
    rintro state c₁ ⟨⟨h₁, -, hs⟩, ht₁⟩
    cases state with
    | none => exact hjson _ h₁ ht₁
    | some state =>
      have hs₁ := hs (.inl rfl)
      refine Outcome.Meets.seq (told_encode hreg h₁ _ (fun _ => hst) hs₁ _) ?_
      rintro p c₂ ⟨⟨hl₂, h₂⟩, ht₂, hread⟩
      have ht : Told k c [] c₂ := ht₁.trans ht₂
      cases p with
      | none =>
        refine (told_publishEntries hreg hst topic compress henvs hseqs h₂ (hs₁.later hl₂)).mono ?_
        rintro _ c₃ ⟨h₃, ht₃⟩
        exact ⟨h₃, ht.trans ht₃⟩
      | some p =>
        have hread' : c₂.isOpen → k.decode (acceptedOf wire.capability c₂.log)
            (schemaVersionOf wire (some state)) p =
              views k event (subsetFor c.ws entries envs seqs).list := fun hopen => by
          rw [hread p rfl hopen event rfl, List.map_map]
          rfl
        refine told_deliver h₂ (hs₁.later hl₂) hread' (fun c' h' ht' => hjson _ h' ?_) ?_
        · exact ht.trans ht'
        · intro result c₃ _ h₃ ht₃ _
          exact told_poison_dropped h₃ (ht.trans ht₃) _
  · exact hjson _ h (.refl c)

end BunServe.WireState
