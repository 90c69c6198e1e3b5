import BunServe.WireState
import Mathlib.Data.List.Infix

/-!
# BunServe.WireState.Invariant

What holds of a connection between two questions of a walk.

* `Fits` — what may happen after a log, and `WellFormed` logs;
* `Inv` — the invariant, with the payload that is encoded and not yet handed on
  and the topic whose announce is out;
* `contract` — what a walk and the socket owe each other; a close may pass while
  the socket is asked;
* `meets_send_frame`, `meets_ensureWireId`, `meets_ensureWireState`, `meets_encode`,
  `Carries.poison` — the pieces of a walk keep it.
-/

namespace BunServe.WireState

open Resume Publish

/-! ## the log -/

def encodedOf (capability : String) : List Event → List Payload
  | [] => []
  | .encoded x _ _ p :: log =>
    if x = capability then encodedOf capability log ++ [p] else encodedOf capability log
  | _ :: log => encodedOf capability log

/-- The payloads of a capability the transport accepted, oldest first. -/
def acceptedOf (capability : String) : List Event → List Payload
  | [] => []
  | .accepted (.frame f) :: log =>
    if f.capability = capability then acceptedOf capability log ++ [f.payload]
    else acceptedOf capability log
  | _ :: log => acceptedOf capability log

/-- A client that decoded what was accepted can decode this payload. -/
def InStep (capability : String) (payload : Payload) (log : List Event) : Prop :=
  encodedOf capability log = acceptedOf capability log ++ [payload]

instance (capability : String) (payload : Payload) (log : List Event) :
    Decidable (InStep capability payload log) :=
  inferInstanceAs (Decidable (_ = _))

/-- A frame may be on its way: where its codec has a state, it is in step. -/
def FrameFits (wires : String → Wire) (f : BinaryFrame) (log : List Event) : Prop :=
  (wires f.capability).stateful →
    ∃ b, .attached f.capability b ∈ log ∧ (b = true → InStep f.capability f.payload log)

/-- What may happen after a log. -/
def Fits (wires : String → Wire) (log : List Event) : Event → Prop
  | .attached capability _ => ∀ b, .attached capability b ∉ log
  | .detached capability => .detached capability ∉ log
  | .encoded capability _ _ _ => (wires capability).stateful → ∃ b, .attached capability b ∈ log
  | .announced .. => True
  | .handed (.frame f) => FrameFits wires f log
  | .accepted (.frame f) => FrameFits wires f log ∧ .announced f.topic f.topicId ∈ log
  | .handed (.json _) | .accepted (.json _) => True

def WellFormed (wires : String → Wire) : List Event → Prop
  | [] => True
  | e :: log => Fits wires log e ∧ WellFormed wires log

variable {wires : String → Wire}

theorem WellFormed.split {later earlier : List Event} {e : Event}
    (h : WellFormed wires (later ++ e :: earlier)) :
    Fits wires earlier e ∧ WellFormed wires earlier := by
  induction later with
  | nil => exact h
  | cons x later ih => exact ih h.2

theorem WellFormed.attached_unique {log : List Event} (h : WellFormed wires log)
    {capability : String} {b b' : Bool} (hb : .attached capability b ∈ log)
    (hb' : .attached capability b' ∈ log) : b = b' := by
  induction log with
  | nil => cases hb
  | cons e log ih =>
    rcases List.mem_cons.1 hb with rfl | hb₁
    · rcases List.mem_cons.1 hb' with heq | hb₂
      · cases heq
        rfl
      · exact absurd hb₂ (h.1 b')
    · rcases List.mem_cons.1 hb' with rfl | hb₂
      · exact absurd hb₁ (h.1 b)
      · exact ih h.2 hb₁ hb₂

theorem WellFormed.detached_once {log : List Event} (h : WellFormed wires log)
    (capability : String) : log.count (.detached capability) ≤ 1 := by
  induction log with
  | nil => simp
  | cons e log ih =>
    have hih := ih h.2
    rw [List.count_cons]
    split
    · next heq =>
      have he : e = .detached capability := by simpa using heq
      have hfit : Fits wires log e := h.1
      rw [he] at hfit
      have : log.count (.detached capability) = 0 := List.count_eq_zero.2 hfit
      omega
    · omega

theorem WellFormed.unattached {log : List Event} (h : WellFormed wires log) {capability : String}
    (hs : (wires capability).stateful) (hno : ∀ b, .attached capability b ∉ log) :
    encodedOf capability log = [] ∧ acceptedOf capability log = [] := by
  induction log with
  | nil => exact ⟨rfl, rfl⟩
  | cons e log ih =>
    have hno' : ∀ b, .attached capability b ∉ log := fun b hb => hno b (List.mem_cons_of_mem _ hb)
    obtain ⟨henc, hacc⟩ := ih h.2 hno'
    have hfit : Fits wires log e := h.1
    cases e with
    | encoded x state request p =>
      have hx : x ≠ capability := by
        rintro rfl
        obtain ⟨b, hb⟩ := hfit hs
        exact hno' b hb
      exact ⟨by simp [encodedOf, hx, henc], by simp [acceptedOf, hacc]⟩
    | accepted m =>
      cases m with
      | json env => exact ⟨by simp [encodedOf, henc], by simp [acceptedOf, hacc]⟩
      | frame f =>
        have hx : f.capability ≠ capability := by
          rintro rfl
          obtain ⟨b, hb, -⟩ := hfit.1 hs
          exact hno' b hb
        exact ⟨by simp [encodedOf, henc], by simp [acceptedOf, hx, hacc]⟩
    | attached x b
    | detached x
    | announced t id
    | handed m => exact ⟨by simp [encodedOf, henc], by simp [acceptedOf, hacc]⟩

theorem WellFormed.accepted_isPrefix {log : List Event} (h : WellFormed wires log)
    {capability : String} (hs : (wires capability).stateful)
    (hat : .attached capability true ∈ log) :
    acceptedOf capability log <+: encodedOf capability log := by
  induction log with
  | nil => exact List.prefix_refl _
  | cons e log ih =>
    have hfit : Fits wires log e := h.1
    by_cases hat' : .attached capability true ∈ log
    · have hpre := ih h.2 hat'
      cases e with
      | encoded x state request p =>
        simp only [encodedOf]
        split
        · exact hpre.trans (List.prefix_append _ _)
        · exact hpre
      | accepted m =>
        cases m with
        | json env => exact hpre
        | frame f =>
          simp only [acceptedOf]
          split
          · next hx =>
            subst hx
            obtain ⟨b, hb, hstep⟩ := hfit.1 hs
            have hbt : b = true := h.2.attached_unique hb hat'
            exact (hstep hbt) ▸ List.prefix_refl _
          · exact hpre
      | attached x b | detached x | announced t id | handed m => exact hpre
    · have he : e = .attached capability true := by
        rcases List.mem_cons.1 hat with he | hmem
        · exact he.symm
        · exact absurd hmem hat'
      subst he
      obtain ⟨henc, hacc⟩ := h.2.unattached hs hfit
      simp [acceptedOf, hacc]

/-! ## the invariant -/

/-- The payload of a capability that is encoded and not yet handed on. -/
def aheadOf (ahead : Option (String × Payload)) (capability : String) : List Payload :=
  match ahead with
  | some (x, p) => if x = capability then [p] else []
  | none => []

def EntryOk (wires : String → Wire) (c : Connection) (capability : String) : Prop :=
  match c.wireStates.get? capability with
  | none =>
    if c.detached then
      ∀ b, .attached capability b ∈ c.log → (wires capability).onDetach →
        .detached capability ∈ c.log
    else (∀ b, .attached capability b ∉ c.log) ∧ .detached capability ∉ c.log
  | some e =>
    if e.poisoned then
      e.state = none ∧ e.detach = false ∧
        ∀ b, .attached capability b ∈ c.log → (wires capability).onDetach →
          .detached capability ∈ c.log
    else
      (wires capability).stateful = true ∧ .attached capability e.state.isSome ∈ c.log ∧
        .detached capability ∉ c.log ∧ e.detach = (wires capability).onDetach ∧
        c.detached = false

/-- The invariant: `ahead` is the payload on its way, `owed` the topic whose
announce is out. -/
structure Inv (wires : String → Wire) (ahead : Option (String × Payload)) (owed : Option String)
    (c : Connection) : Prop where
  log : WellFormed wires c.log
  entries : ∀ capability, EntryOk wires c capability
  level : c.isOpen → ∀ capability e, c.wireStates.get? capability = some e → e.state.isSome →
    encodedOf capability c.log = acceptedOf capability c.log ++ aheadOf ahead capability
  known : c.isOpen → ∀ topic id, c.byName.get? topic = some id → owed ≠ some topic →
    .announced topic id ∈ c.log

theorem Inv.of_closed {ahead ahead' : Option (String × Payload)} {owed owed' : Option String}
    {c : Connection} (h : Inv wires ahead owed c) (hc : c.isOpen = false) :
    Inv wires ahead' owed' c where
  log := h.log
  entries := h.entries
  level := by simp [hc]
  known := by simp [hc]

theorem aheadOf_ne {ahead : Option (String × Payload)} {capability x : String}
    (ha : ∀ y ∈ ahead, y.1 = capability) (hx : x ≠ capability) : aheadOf ahead x = [] := by
  cases ahead with
  | none => rfl
  | some y =>
    have hy : y.1 = capability := ha y rfl
    simp [aheadOf, hy, hx.symm]

theorem Inv.settled {ahead : Option (String × Payload)} {capability : String} {c : Connection}
    (h : Inv wires ahead none c) (ha : ∀ x ∈ ahead, x.1 = capability)
    (hno : ∀ e, c.wireStates.get? capability = some e → e.state = none) :
    Inv wires none none c where
  log := h.log
  entries := h.entries
  level := by
    intro hopen x e he hst
    have hx : x ≠ capability := by
      rintro rfl
      rw [hno e he] at hst
      cases hst
    rw [h.level hopen x e he hst, aheadOf_ne ha hx]
    simp [aheadOf]
  known := h.known

/-- A connection later: what was logged stays, and once closed it is closed. -/
structure Grows (c c' : Connection) : Prop where
  log : c.log <:+ c'.log
  isOpen : c'.isOpen → c.isOpen

theorem Grows.refl (c : Connection) : Grows c c := ⟨List.suffix_refl _, id⟩

theorem Grows.trans {a b c : Connection} (h : Grows a b) (h' : Grows b c) : Grows a c :=
  ⟨h.log.trans h'.log, fun hc => h.isOpen (h'.isOpen hc)⟩

theorem Grows.mem {c c' : Connection} (h : Grows c c') {e : Event} (he : e ∈ c.log) : e ∈ c'.log :=
  h.log.subset he

/-- What may have become of a connection while a question was out. -/
def Passes (wires : String → Wire) (op : Op) (c c' : Connection) : Prop :=
  c' = c ∨ op.interruptible = true ∧ c'.isOpen = false ∧ Grows c c' ∧ Inv wires none none c'

theorem Passes.grows {op : Op} {c c' : Connection} (h : Passes wires op c c') : Grows c c' := by
  rcases h with rfl | ⟨-, -, h, -⟩
  · exact .refl _
  · exact h

/-- What a walk leaves, and what it is left with between two questions: `ahead` is
on its way. -/
def Carries (wires : String → Wire) (start : Connection) (ahead : Option (String × Payload))
    (c : Connection) : Prop :=
  Grows start c ∧ Inv wires ahead none c

def contract (wires : String → Wire) (start : Connection) : Contract Connection Op Op.Ans where
  pre _ c := Grows start c ∧ ∃ ahead owed, Inv wires ahead owed c
  post op c ans c' := Passes wires op c c' ∧ op.possible c' ans
  fail c := Carries wires start none c

/-- A connection later, with the states it had. -/
structure Later (c c' : Connection) : Prop extends Grows c c' where
  states : c'.isOpen → c'.wireStates = c.wireStates

theorem Later.refl (c : Connection) : Later c c := ⟨.refl c, fun _ => rfl⟩

theorem Later.trans {a b c : Connection} (h : Later a b) (h' : Later b c) : Later a c :=
  ⟨h.toGrows.trans h'.toGrows, fun hc => (h'.states hc).trans (h.states (h'.isOpen hc))⟩

theorem Passes.later {op : Op} {c c' : Connection} (h : Passes wires op c c') : Later c c' := by
  rcases h with rfl | ⟨-, hc, h, -⟩
  · exact .refl _
  · exact ⟨h, by simp [hc]⟩

theorem Passes.inv {op : Op} {c c' : Connection} {ahead : Option (String × Payload)}
    {owed : Option String} (h : Passes wires op c c') (hinv : Inv wires ahead owed c) :
    Inv wires ahead owed c' := by
  rcases h with rfl | ⟨-, hc, -, h⟩
  · exact hinv
  · exact h.of_closed hc

/-! ## events -/

theorem later_note (c : Connection) (e : Event) : Later c (c.note e) :=
  ⟨⟨List.suffix_cons _ _, id⟩, fun _ => rfl⟩

theorem EntryOk.of_same {c c' : Connection} {capability : String} (h : EntryOk wires c capability)
    (hw : c'.wireStates.get? capability = c.wireStates.get? capability)
    (hd : c'.detached = c.detached)
    (hat : ∀ b, .attached capability b ∈ c'.log ↔ .attached capability b ∈ c.log)
    (hde : .detached capability ∈ c'.log ↔ .detached capability ∈ c.log) :
    EntryOk wires c' capability := by
  simp only [EntryOk, hw, hd, hat, hde]
  exact h

theorem Inv.note {ahead ahead' : Option (String × Payload)} {owed : Option String} {c : Connection}
    (h : Inv wires ahead owed c) {e : Event} (hfit : Fits wires c.log e)
    (hat : ∀ x b, e ≠ .attached x b) (hde : ∀ x, e ≠ .detached x)
    (hlevel : ∀ x, encodedOf x c.log = acceptedOf x c.log ++ aheadOf ahead x →
      encodedOf x (e :: c.log) = acceptedOf x (e :: c.log) ++ aheadOf ahead' x) :
    Inv wires ahead' owed (c.note e) where
  log := ⟨hfit, h.log⟩
  entries x := (h.entries x).of_same rfl rfl
    (fun b => by simp [Connection.note, (hat x b).symm]) (by simp [Connection.note, (hde x).symm])
  level hopen x e he hst := hlevel x (h.level hopen x e he hst)
  known hopen topic id hid howed := List.mem_cons_of_mem _ (h.known hopen topic id hid howed)

theorem Inv.note_handed {ahead : Option (String × Payload)} {owed : Option String} {c : Connection}
    (h : Inv wires ahead owed c) {m : Message} (hfit : Fits wires c.log (.handed m)) :
    Inv wires ahead owed (c.note (.handed m)) :=
  h.note hfit (by simp) (by simp) fun _ hx => hx

theorem Inv.note_accepted_json {ahead : Option (String × Payload)} {owed : Option String}
    {c : Connection} (h : Inv wires ahead owed c) (env : String) :
    Inv wires ahead owed (c.note (.accepted (.json env))) :=
  h.note trivial (by simp) (by simp) fun _ hx => by
    exact hx

theorem Inv.note_accepted_frame {owed : Option String} {c : Connection} {f : BinaryFrame}
    (h : Inv wires (some (f.capability, f.payload)) owed c)
    (hfit : Fits wires c.log (.accepted (.frame f))) :
    Inv wires none owed (c.note (.accepted (.frame f))) := by
  refine h.note hfit (by simp) (by simp) fun x hx => ?_
  rw [encodedOf, hx, acceptedOf]
  · by_cases hxf : f.capability = x <;> simp [aheadOf, hxf]
  all_goals simp

theorem Inv.note_encoded {owed : Option String} {c : Connection} (h : Inv wires none owed c)
    {capability : String} {state : Option CodecState} {request : Request} {p : Payload}
    (hfit : Fits wires c.log (.encoded capability state request p)) :
    Inv wires (some (capability, p)) owed (c.note (.encoded capability state request p)) := by
  refine h.note hfit (by simp) (by simp) fun x hx => ?_
  rw [acceptedOf, encodedOf]
  · by_cases hxc : capability = x <;> simp_all [aheadOf]
  all_goals simp

/-! ## sends and announces -/

variable {start c : Connection}

/-- A codec was attached here, and gave a state or not. -/
def Served (wires : String → Wire) (capability : String) (b : Bool) (c : Connection) : Prop :=
  (wires capability).stateful → .attached capability b ∈ c.log ∧
    (b = true → c.isOpen → ∃ e, c.wireStates.get? capability = some e ∧ e.state.isSome)

theorem Served.later {capability : String} {b : Bool} {c' : Connection}
    (h : Served wires capability b c) (hl : Later c c') : Served wires capability b c' := by
  intro hs
  obtain ⟨hat, he⟩ := h hs
  refine ⟨hl.mem hat, fun hb hopen => ?_⟩
  rw [hl.states hopen]
  exact he hb (hl.isOpen hopen)

theorem Served.stateless {capability : String} {ahead : Option (String × Payload)}
    {owed : Option String} (h : Served wires capability false c) (hinv : Inv wires ahead owed c)
    {e : Entry} (he : c.wireStates.get? capability = some e) : e.state = none := by
  have hentry := hinv.entries capability
  simp only [EntryOk, he] at hentry
  split at hentry
  · exact hentry.1
  · have hu := hinv.log.attached_unique (h hentry.1).1 hentry.2.1
    simpa using hu.symm

theorem Carries.ahead {ahead : Option (String × Payload)} (h : Carries wires start ahead c) :
    Grows start c ∧ ∃ ahead owed, Inv wires ahead owed c :=
  ⟨h.1, ahead, none, h.2⟩

theorem meets_send_json (h : Carries wires start none c) (env : String) (compress : Bool) :
    (send (.json env) compress c).Meets (contract wires start) fun _ c' =>
      Carries wires start none c' ∧ Later c c' := by
  simp only [send, Prog.get_bind_run]
  split
  · have hn : Later c (c.note (.handed (.json env))) := later_note _ _
    have hinv : Inv wires none none (c.note (.handed (.json env))) := h.2.note_handed trivial
    refine Outcome.Meets.ask ⟨h.1.trans hn.toGrows, _, _, hinv⟩ ?_
    rintro (r : SendResult) c₁ ⟨hpass, -⟩
    have hl : Later c c₁ := hn.trans hpass.later
    split
    · exact ⟨⟨h.1.trans hl.toGrows, hpass.inv hinv⟩, hl⟩
    · have hl' := hl.trans (later_note c₁ (.accepted (.json env)))
      exact ⟨⟨h.1.trans hl'.toGrows, (hpass.inv hinv).note_accepted_json env⟩, hl'⟩
  · exact ⟨h, .refl c⟩

theorem meets_send_frame {wire : Wire} {b : Bool} {p : Payload} {topic : String} {id sv : Nat}
    {seq : Option JsNumber} (h : Carries wires start (some (wire.capability, p)) c)
    (hs : Served wires wire.capability b c) (hann : c.isOpen → .announced topic id ∈ c.log)
    (compress : Bool) :
    (send (frameOf wire sv topic id seq p) compress c).Meets (contract wires start) fun r c' =>
      Later c c' ∧ Carries wires start
        (if r = some .dropped then some (wire.capability, p) else none) c' := by
  simp only [send, Prog.get_bind_run]
  split
  · next hopen =>
    let f : BinaryFrame :=
      { capability := wire.capability, topic, schemaVersion := sv, topicId := id
        seq := seq.getD (.ofNat 0), payload := p }
    have hfit : FrameFits wires f c.log := by
      intro hst
      obtain ⟨hat, he⟩ := hs hst
      refine ⟨b, hat, fun hb => ?_⟩
      obtain ⟨e, he, hes⟩ := he hb hopen
      have := h.2.level hopen _ _ he hes
      simpa [InStep, aheadOf] using this
    have hn : Later c (c.note (.handed (.frame f))) := later_note _ _
    have hinv : Inv wires (some (wire.capability, p)) none (c.note (.handed (.frame f))) :=
      h.2.note_handed hfit
    refine Outcome.Meets.ask ⟨h.1.trans hn.toGrows, _, _, hinv⟩ ?_
    rintro (r : SendResult) c₁ ⟨hpass, hposs⟩
    have hl : Later c c₁ := hn.trans hpass.later
    simp only [Prog.modify_bind_run, Prog.pure_run, Outcome.meets_done]
    by_cases hr : r = .dropped
    · rw [if_pos hr, if_pos (by rw [hr])]
      exact ⟨hl, h.1.trans hl.toGrows, hpass.inv hinv⟩
    -- only an open socket accepts, so nothing came between
    have hopen₁ : c₁.isOpen = true := by simpa [Op.possible, hr] using hposs
    obtain rfl : c₁ = c.note (.handed (.frame f)) := by
      rcases hpass with heq | ⟨-, hclosed, -⟩
      · exact heq
      · rw [hopen₁] at hclosed
        cases hclosed
    have hl' := hl.trans (later_note _ (.accepted (.frame f)))
    have hfit' : Fits wires (c.note (.handed (.frame f))).log (.accepted (.frame f)) := by
      refine ⟨fun hst => ?_, List.mem_cons_of_mem _ (hann hopen)⟩
      obtain ⟨b, hat, hstep⟩ := hfit hst
      exact ⟨b, List.mem_cons_of_mem _ hat, hstep⟩
    rw [if_neg hr, if_neg (by simpa using hr)]
    exact ⟨hl', h.1.trans hl'.toGrows, hinv.note_accepted_frame hfit'⟩
  · next hclosed =>
    exact ⟨.refl c, h.1, h.2.of_closed (by simpa using hclosed)⟩

theorem Inv.alloc {ahead : Option (String × Payload)} (h : Inv wires ahead none c) (topic : String) :
    Inv wires ahead (some topic) (c.allocWireId topic) := by
  refine ⟨h.log, h.entries, h.level, fun hopen t i hi howed => ?_⟩
  have ht : t ≠ topic := fun heq => howed (by rw [heq])
  rw [Connection.allocWireId, JsMap.get?_set_ne _ _ ht] at hi
  exact h.known hopen t i hi (by simp)

theorem Inv.retire {ahead : Option (String × Payload)} {topic : String}
    (h : Inv wires ahead (some topic) c) : Inv wires ahead none (c.retireWireId topic) := by
  refine ⟨h.log, h.entries, h.level, fun hopen t i hi _ => ?_⟩
  have ht : t ≠ topic := by
    rintro rfl
    simp [Connection.retireWireId] at hi
  rw [Connection.retireWireId, JsMap.get?_delete_ne _ ht] at hi
  exact h.known hopen t i hi (by simpa using ht.symm)

theorem Inv.announce {ahead : Option (String × Payload)} {topic : String} {id : Nat}
    (h : Inv wires ahead (some topic) c) (hid : c.byName.get? topic = some id) :
    Inv wires ahead none (c.note (.announced topic id)) := by
  have hn : Inv wires ahead (some topic) (c.note (.announced topic id)) :=
    h.note trivial (by simp) (by simp) fun x hx => by
      exact hx
  refine ⟨hn.log, hn.entries, hn.level, fun hopen t i hi _ => ?_⟩
  by_cases ht : t = topic
  · have hi' : c.byName.get? t = some i := hi
    rw [ht, hid] at hi'
    cases hi'
    rw [ht]
    exact List.mem_cons_self
  · exact hn.known hopen t i hi (by simpa using Ne.symm ht)

theorem meets_ensureWireId {ahead : Option (String × Payload)} (h : Carries wires start ahead c)
    (topic : String) :
    (ensureWireId topic c).Meets (contract wires start) fun id c' =>
      Later c c' ∧ Carries wires start ahead c' ∧
        ∀ i, id = some i → c'.isOpen → .announced topic i ∈ c'.log := by
  simp only [ensureWireId, Prog.get_bind_run]
  cases hid : c.byName.get? topic with
  | some id =>
    refine ⟨.refl c, h, ?_⟩
    rintro i ⟨⟩ hopen
    exact h.2.known hopen topic id hid (by simp)
  | none =>
    have hl : Later c (c.allocWireId topic) := ⟨⟨List.suffix_refl _, fun h => h⟩, fun _ => rfl⟩
    have hinv := h.2.alloc topic
    have hself : (c.allocWireId topic).byName.get? topic = some c.nextId := by
      simp [Connection.allocWireId]
    refine Outcome.Meets.ask ⟨h.1.trans hl.toGrows, _, _, hinv⟩ ?_
    rintro (r : Control) c₁ ⟨hpass, hposs⟩
    have hl₁ : Later c c₁ := hl.trans hpass.later
    by_cases hr : r = .delivered
    · -- only an open socket takes an announce, so nothing came between
      have hopen₁ : c₁.isOpen = true := by simpa [Op.possible, hr] using hposs
      obtain rfl : c₁ = c.allocWireId topic := by
        rcases hpass with heq | ⟨-, hclosed, -⟩
        · exact heq
        · rw [hopen₁] at hclosed
          cases hclosed
      have hl₂ := hl₁.trans (later_note _ (.announced topic c.nextId))
      simp only [hr]
      refine ⟨hl₂, ⟨h.1.trans hl₂.toGrows, hinv.announce hself⟩, ?_⟩
      rintro i ⟨⟩ -
      exact List.mem_cons_self
    · have hl₂ : Later c (c₁.retireWireId topic) :=
        hl₁.trans ⟨⟨List.suffix_refl _, fun h => h⟩, fun _ => rfl⟩
      simp only [hr]
      exact ⟨hl₂, ⟨h.1.trans hl₂.toGrows, (hpass.inv hinv).retire⟩, by simp⟩

/-! ## states and payloads -/

/-- `c` with an answer of `onAttach` installed. -/
theorem Inv.attach {wire : Wire} (hreg : wires wire.capability = wire) (h : Inv wires none none c)
    (hd : c.detached = false) (hst : wire.stateful = true)
    (he : c.wireStates.get? wire.capability = none) (state : Option CodecState) :
    Inv wires none none
      { c.note (.attached wire.capability state.isSome) with
        wireStates := c.wireStates.set wire.capability
          { state, detach := wire.onDetach, poisoned := false } } := by
  have hnone : (∀ b, .attached wire.capability b ∉ c.log) ∧ .detached wire.capability ∉ c.log := by
    have hentry := h.entries wire.capability
    simpa only [EntryOk, he, hd, Bool.false_eq_true, if_false] using hentry
  have hlog : WellFormed wires (c.note (.attached wire.capability state.isSome)).log :=
    ⟨hnone.1, h.log⟩
  constructor
  case log => exact hlog
  case entries =>
    intro x
    by_cases hx : x = wire.capability
    · subst hx
      simp [EntryOk, Connection.note, hreg, hst, hnone.2, hd]
    · exact (h.entries x).of_same (JsMap.get?_set_ne _ _ hx) rfl
        (fun b => by simp [Connection.note, hx]) (by simp [Connection.note])
  case level =>
    intro hopen x e hx hes
    simp only [Connection.note, encodedOf, acceptedOf]
    by_cases hxc : x = wire.capability
    · subst hxc
      obtain ⟨henc, hacc⟩ := h.log.unattached (by rw [hreg]; exact hst) hnone.1
      simp [henc, hacc, aheadOf]
    · exact h.level hopen x e ((JsMap.get?_set_ne _ _ hxc).symm.trans hx) hes
  case known =>
    intro hopen topic id hid howed
    exact List.mem_cons_of_mem _ (h.known hopen topic id hid howed)

theorem meets_ensureWireState {wire : Wire} (hreg : wires wire.capability = wire)
    (h : Carries wires start none c) (hd : c.detached = false) :
    (ensureWireState wire c).Meets (contract wires start) fun state c' =>
      Carries wires start none c' ∧
        (c.wireStatePoisoned wire.capability = false →
          c'.wireStatePoisoned wire.capability = false) ∧
        (state.isSome = true ∨ c'.wireStatePoisoned wire.capability = false →
          Served wires wire.capability state.isSome c') := by
  simp only [ensureWireState, Prog.ite_run, Prog.get_bind_run]
  by_cases hst : wire.stateful = true
  · rw [if_pos hst]
    cases he : c.wireStates.get? wire.capability with
    | some e =>
      have hentry := h.2.entries wire.capability
      simp only [EntryOk, he] at hentry
      refine ⟨h, id, fun hp hst => ?_⟩
      by_cases hp' : e.poisoned = true
      · rw [if_pos hp'] at hentry
        simp [hentry.1, Connection.wireStatePoisoned, he, hp'] at hp
      · rw [if_neg hp'] at hentry
        exact ⟨hentry.2.1, fun hb _ => ⟨e, he, hb⟩⟩
    | none =>
      refine Outcome.Meets.ask (h.ahead) ?_
      rintro (state : Option CodecState) c₁ ⟨hpass, -⟩
      obtain rfl : c₁ = c := by
        rcases hpass with heq | ⟨hno, -⟩
        · exact heq
        · cases hno
      have hg : Grows c₁ (c₁.note (.attached wire.capability state.isSome)) :=
        (later_note c₁ _).toGrows
      refine ⟨⟨h.1.trans ⟨hg.log, hg.isOpen⟩, h.2.attach hreg hd hst he state⟩, ?_, fun _ _ => ?_⟩
      · simp [Connection.wireStatePoisoned]
      · exact ⟨List.mem_cons_self, fun hb _ => ⟨_, JsMap.get?_set_self _ _ _, hb⟩⟩
  · rw [if_neg hst]
    refine ⟨h, id, fun _ hst' => ?_⟩
    rw [hreg] at hst'
    exact absurd hst' hst

theorem meets_encode {wire : Wire} {b : Bool} (h : Carries wires start none c)
    (hs : Served wires wire.capability b c) (state : Option CodecState) (request : Request) :
    (encode wire state request c).Meets (contract wires start) fun p c' =>
      Later c c' ∧ Carries wires start (p.map fun p => (wire.capability, p)) c' := by
  refine Outcome.Meets.ask h.ahead ?_
  rintro (p : Option Payload) c₁ ⟨hpass, -⟩
  obtain rfl : c₁ = c := by
    rcases hpass with heq | ⟨hno, -⟩
    · exact heq
    · cases hno
  cases p with
  | none => exact ⟨.refl _, h⟩
  | some p =>
    have hl : Later c₁ (c₁.note (.encoded wire.capability state request p)) := later_note _ _
    exact ⟨hl, h.1.trans hl.toGrows, h.2.note_encoded fun hst => ⟨b, (hs hst).1⟩⟩

/-! ## poisoning -/

theorem detachEntry_cases (c : Connection) (capability : String) :
    (c.detachEntry capability = c ∧
        ∀ e, c.wireStates.get? capability = some e → e.detach = false) ∨
      c.detachEntry capability = c.note (.detached capability) ∧
        ∃ e, c.wireStates.get? capability = some e ∧ e.detach = true := by
  unfold Connection.detachEntry
  cases he : c.wireStates.get? capability with
  | none => exact .inl ⟨rfl, by simp⟩
  | some e =>
    cases hd : e.detach with
    | false => exact .inl ⟨by simp [hd], by simp [hd]⟩
    | true => exact .inr ⟨by simp [hd], e, rfl, hd⟩

theorem EntryOk.nothing_left {capability : String} (h : EntryOk wires c capability)
    (hno : ∀ e, c.wireStates.get? capability = some e → e.detach = false) :
    ∀ b, .attached capability b ∈ c.log → (wires capability).onDetach →
      .detached capability ∈ c.log := by
  intro b hb hon
  unfold EntryOk at h
  cases he : c.wireStates.get? capability with
  | none =>
    simp only [he] at h
    split at h
    · exact h b hb hon
    · exact absurd hb (h.1 b)
  | some e =>
    simp only [he] at h
    split at h
    · exact h.2.2 b hb hon
    · rw [hno e he, hon] at h
      exact absurd h.2.2.2.1 (by simp)

theorem EntryOk.gone {capability : String} (h : EntryOk wires c capability)
    (hgone : c.wireStatePoisoned capability = true ∨ c.detached = true) :
    ∀ b, .attached capability b ∈ c.log → (wires capability).onDetach →
      .detached capability ∈ c.log := by
  refine h.nothing_left fun e he => ?_
  simp only [EntryOk, he] at h
  split at h
  · exact h.2.1
  · next hp =>
    simp [Connection.wireStatePoisoned, he, hp, h.2.2.2.2] at hgone

theorem EntryOk.undetached {capability : String} (h : EntryOk wires c capability) {e : Entry}
    (he : c.wireStates.get? capability = some e) (hd : e.detach = true) :
    .detached capability ∉ c.log := by
  simp only [EntryOk, he] at h
  split at h
  · rw [h.2.1] at hd
    cases hd
  · exact h.2.2.1

theorem Inv.poison {ahead : Option (String × Payload)} {capability : String}
    (h : Inv wires ahead none c) (ha : ∀ x ∈ ahead, x.1 = capability) :
    Inv wires none none (c.poisonWireState capability) := by
  have hentry := h.entries capability
  by_cases hp : c.wireStatePoisoned capability = true
  · rw [Connection.poisonWireState, if_pos hp]
    refine h.settled ha fun e he => ?_
    simp only [Connection.wireStatePoisoned, he, Option.any_some] at hp
    simp only [EntryOk, he, hp] at hentry
    exact hentry.1
  · rw [Connection.poisonWireState, if_neg hp]
    have hlevel : c.isOpen → ∀ x e,
        (c.wireStates.set capability Connection.poisonedEntry).get? x = some e → e.state.isSome →
        encodedOf x c.log = acceptedOf x c.log ++ aheadOf none x := by
      intro hopen x e hx hes
      have hxc : x ≠ capability := by
        rintro rfl
        rw [JsMap.get?_set_self] at hx
        cases hx
        cases hes
      rw [JsMap.get?_set_ne _ _ hxc] at hx
      rw [h.level hopen x e hx hes, aheadOf_ne ha hxc]
      rfl
    rcases detachEntry_cases c capability with ⟨heq, hno⟩ | ⟨heq, e, he, hd⟩ <;> rw [heq]
    · refine ⟨h.log, fun x => ?_, hlevel, h.known⟩
      by_cases hx : x = capability
      · subst hx
        simpa [EntryOk, Connection.poisonedEntry] using hentry.nothing_left hno
      · exact (h.entries x).of_same (JsMap.get?_set_ne _ _ hx) rfl (fun _ => Iff.rfl) Iff.rfl
    · refine ⟨⟨hentry.undetached he hd, h.log⟩, fun x => ?_, ?_, ?_⟩
      · by_cases hx : x = capability
        · subst hx
          simp [EntryOk, Connection.poisonedEntry, Connection.note]
        · exact (h.entries x).of_same (JsMap.get?_set_ne _ _ hx) rfl
            (fun b => by simp [Connection.note]) (by simp [Connection.note, hx])
      · intro hopen x e hx hes
        exact hlevel hopen x e hx hes
      · intro hopen topic id hid howed
        exact List.mem_cons_of_mem _ (h.known hopen topic id hid howed)

theorem Carries.poison {ahead : Option (String × Payload)} {capability : String}
    (h : Carries wires start ahead c) (ha : ∀ x ∈ ahead, x.1 = capability) :
    Carries wires start none (c.poisonWireState capability) := by
  refine ⟨h.1.trans ?_, h.2.poison ha⟩
  unfold Connection.poisonWireState
  split
  · exact .refl c
  · rcases detachEntry_cases c capability with ⟨heq, -⟩ | ⟨heq, -⟩ <;> rw [heq]
    · exact ⟨List.suffix_refl _, id⟩
    · exact ⟨List.suffix_cons _ _, id⟩

end BunServe.WireState
