import BunServe.Lib.JsonText
import BunServe.Presence.FailedJoin

/-!
# BunServe.Presence.Budget

The byte budget of the fields that updates store.

* `withTexts` — what is asked about values, answered by their JSON texts;
* `charges_changedFields` — what an update adds to the budget is what its fields add;
* `Charged` — an entry's count of bytes is what its fields are charged, and in the budget;
* `budget_of_runs` — every entry of a run is charged, its text takes at most a byte more,
  and an update for which there is no room changes nothing.
-/

namespace BunServe.Presence

open JsonText
open JsMap (empty get?_set)

variable {V J : Type}

/-! ## texts -/

/-- The JSON text of an object, of what `JSON.stringify` makes of its values; none where
it throws on one, and a property that is left out has no text. -/
def stringify (text : V → Option (Option JsString)) (fields : Obj V) : Option JsString :=
  if fields.entries.all fun e => (text e.2).isSome then
    some (objectText (fields.entries.filterMap fun e => (text e.2).join.map fun t => (js e.1, t)))
  else none

/-- What is asked about values, answered by their JSON texts. -/
def Values.withTexts (v : Values V J) (text : V → Option (Option JsString)) : Values V J :=
  { v with
    byteLength := fun x => (text x).map fun t => JsonText.byteLength (t.getD [])
    frameLength := fun fields => (stringify text fields).map JsonText.byteLength
    nameLength := fun k => JsonText.byteLength (JsonString.stringify (js k)) }

/-! ## charges -/

/-- What a field is charged: its name, its value, a colon and a comma. -/
def charge (v : Values V J) (k : String) (x : V) : Int :=
  v.nameLength k + 2 + ((v.byteLength x).getD 0 : Nat)

def charges (v : Values V J) (fields : Obj V) : Int := fields.sumEntries (charge v)

def Texted (v : Values V J) (fields : Obj V) : Prop :=
  ∀ k x, fields.get? k = some x → (v.byteLength x).isSome

variable {o : Options} {v : Values V J} {fields : Obj V} {fromClient : Bool}

theorem get?_assign (a b : Obj V) (k : String) : (assign a b).get? k = (b.get? k).or (a.get? k) := by
  rw [assign, JsMap.get?_collect]
  cases b.get? k <;> rfl

theorem assign_set {a b : Obj V} {k : String} (h : b.get? k = none) (x : V) :
    assign a (b.set k x) = (assign a b).set k x := by
  have hnew : k ∉ b.entries.map Prod.fst := JsMap.get?_eq_none_iff.mp h
  simp [assign, JsMap.collect, JsMap.set, hnew]

/-- What the changed fields so far add to the budget is what they add to the charges. -/
structure Adds (v : Values V J) (fields : Obj V) (acc : Obj V × Int) : Prop where
  charges : charges v (assign fields acc.1) = charges v fields + acc.2
  texts : Texted v acc.1

theorem changeField_other {acc : Obj V × Int} {k k' : String} {x : V} (h : k' ≠ k) :
    (changeField o v fields fromClient acc k x).1.get? k' = acc.1.get? k' := by
  unfold changeField
  grind [get?_set]

theorem Adds.changeField {acc : Obj V × Int} {k : String} (h : Adds v fields acc)
    (hnew : acc.1.get? k = none) (x : V) :
    Adds v fields (changeField o v fields fromClient acc k x) := by
  unfold Presence.changeField
  split
  · exact h
  split
  · exact h
  split
  · next valueBytes oldBytes hvalue hold =>
    constructor
    · have hsum := h.charges
      simp only [Presence.charges] at hsum ⊢
      rw [assign_set hnew, JsMap.sumEntries_set, get?_assign]
      cases hget : fields.get? k with
      | none | some y => grind [charge, JsMap.has]
    · have htexts := h.texts
      grind [Texted, get?_set]
  · exact h

theorem charges_changedFields (effective : Obj V) :
    Adds v fields (changedFields o v fields effective fromClient) := by
  obtain ⟨es, hnodup⟩ := effective
  suffices h : ∀ acc : Obj V × Int, Adds v fields acc → (∀ k ∈ es.map Prod.fst, acc.1.get? k = none) →
      Adds v fields (es.foldl (fun acc e => changeField o v fields fromClient acc e.1 e.2) acc) by
    refine h (.empty, 0) ⟨?_, by simp [Texted]⟩ (by simp)
    simp [assign, JsMap.collect, empty]
  induction es with
  | nil => exact fun _ hadds _ => hadds
  | cons e es ih =>
    intro acc hadds hnew
    rw [List.map_cons, List.nodup_cons] at hnodup
    refine ih hnodup.2 _ (hadds.changeField (hnew e.1 (by simp)) e.2) fun k hk => ?_
    have hne : k ≠ e.1 := fun heq => hnodup.1 (heq ▸ hk)
    rw [changeField_other hne]
    exact hnew k (by simp [hk])

/-! ## entries -/

/-- An entry's count of bytes is what its fields are charged, and in the budget. -/
structure Charged (o : Options) (v : Values V J) (e : Entry V) : Prop where
  bytes : e.fieldsBytes = charges v (e.fields.getD .empty)
  within : e.fieldsBytes ≤ o.maxTotalFieldsBytes
  texts : Texted v (e.fields.getD .empty)

def Every (P : Entry V → Prop) (s : State V) : Prop :=
  ∀ topic users key e, s.topicPresence.get? topic = some users → users.get? key = some e → P e

variable {s s' : State V} {ws : Conn} {topic key : String}

theorem Every.of_eq {P : Entry V → Prop} (h : Every P s) (heq : s'.topicPresence = s.topicPresence) :
    Every P s' := by
  unfold Every
  rwa [heq]

theorem Every.store {P : Entry V → Prop} {users : Users V} {e : Entry V} (h : Every P s)
    (husers : ∀ key e, users.get? key = some e → P e) (he : P e) :
    Every P { s with topicPresence := s.topicPresence.set topic (users.set key e) } := by
  unfold Every at *
  grind [get?_set]

section Keeps

variable {P : Entry V → Prop} (hP : ∀ e data count, P e → P { e with data, count })

include hP

theorem Every.leaveTopic (h : Every P s) : Every P (leaveTopic o s ws topic) := by
  unfold Presence.leaveTopic
  split
  · exact h
  · next key _ =>
    have hforgot : Every P (forgetTopic s ws topic) := h.of_eq forgetTopic_topicPresence
    unfold uncount removeUser bufferDiff
    unfold Every at *
    grind [get?_set, JsMap.get?_delete]

theorem Every.leaveAll (h : Every P s) : Every P (leaveAll o s ws) := by
  unfold Presence.leaveAll
  split
  · exact h
  · next connTopics _ =>
    suffices hfold : ∀ (topics : List String) (s : State V), Every P s →
        Every P (topics.foldl (fun s topic => Presence.leaveTopic o s ws topic) s) from hfold _ s h
    intro topics
    induction topics with
    | nil => exact fun _ h => h
    | cons t topics ih => exact fun s h => ih _ (h.leaveTopic hP)

theorem Every.trackTopic (h : Every P s) (data : Obj V)
    (hfresh : P { data, fields := none, fieldsBytes := 0, count := 1 }) :
    Every P (trackTopic o v s topic key data) := by
  have hroom : Every P (makeRoomForTopic o s topic) := by
    unfold makeRoomForTopic
    unfold Every at *
    grind [JsMap.get?_delete]
  unfold Presence.trackTopic bufferDiff
  generalize makeRoomForTopic o s topic = s at hroom
  have husers : ∀ key e, ((s.topicPresence.get? topic).getD .empty).get? key = some e → P e := by
    intro key e hget
    cases htopic : s.topicPresence.get? topic with
    | none => simp [htopic] at hget
    | some users => exact hroom topic users key e htopic (by simpa [htopic] using hget)
  simp only
  split
  · next existing hget =>
    have hold := husers key existing hget
    split
    · exact hroom.store husers (hP _ existing.data _ hold)
    · exact (hroom.store husers (hP _ data _ hold)).of_eq rfl
  · exact (hroom.store husers hfresh).of_eq rfl

theorem Every.join {selected : Option (Obj V)} {subscribes : Bool} (h : Every P s)
    (hfresh : ∀ data, P { data, fields := none, fieldsBytes := 0, count := 1 }) :
    Every P (join o v s ws topic selected subscribes) := by
  unfold Presence.join
  split
  · split
    · exact h
    · next data =>
      have hkey : Every P (resolveKey o v s data).2 := by
        unfold resolveKey
        grind [Every]
      have hconn : Every P (trackConn o (resolveKey o v s data).2 ws topic (resolveKey o v s data).1) := by
        unfold trackConn makeRoomForConn
        split
        · exact (hkey.leaveAll hP).of_eq rfl
        · exact hkey.of_eq rfl
      have htrack : Every P (Presence.trackTopic o v (trackConn o (resolveKey o v s data).2 ws topic
          (resolveKey o v s data).1) topic (resolveKey o v s data).1 data) :=
        hconn.trackTopic hP data (hfresh data)
      split
      · exact htrack
      · exact htrack.leaveTopic hP
  · exact h

end Keeps

theorem Charged.opened {e : Entry V} (h : Charged o v e) : e.opened.fieldsBytes = e.fieldsBytes ∧
    e.opened.fields.getD .empty = e.fields.getD .empty := by
  unfold Entry.opened
  split
  · next hnone =>
    rw [h.bytes, Option.isNone_iff_eq_none.mp hnone]
    simp [charges, JsMap.sumEntries, empty]
  · exact ⟨rfl, rfl⟩

theorem Every.update (h : Every (Charged o v) s) :
    Every (Charged o v) (update o v s ws topic fields fromClient) := by
  apply update_cases h
  · intro users key e htopic hget
    have he := h topic users key e htopic hget
    obtain ⟨hbytes, hfields⟩ := he.opened
    refine h.store (fun k e => h topic users k e htopic) ⟨?_, ?_, ?_⟩
    · rw [hbytes, hfields, he.bytes]
    · exact hbytes ▸ he.within
    · exact hfields ▸ he.texts
  · intro users key e effective htopic hget _ _ r hfits
    have he := h topic users key e htopic hget
    obtain ⟨hbytes, hfields⟩ := he.opened
    have hadds : Adds v (e.opened.fields.getD .empty) r :=
      charges_changedFields effective
    refine .of_eq (h.store (fun k e => h topic users k e htopic) ⟨?_, hfits, fun k x hx => ?_⟩)
      bufferUpdate_spec.2
    · rw [Option.getD_some, hadds.charges, hbytes, he.bytes, hfields]
    · rw [Option.getD_some, get?_assign, hfields, Option.or_eq_some_iff] at hx
      exact hx.elim (hadds.texts k x) fun hx => he.texts k x hx.2

/-! ## runs -/

theorem every_of_run (hbudget : 1 ≤ o.maxTotalFieldsBytes) {as : List (Action V)}
    (h : (machine o v).Runs Machine.Any as s) : Every (Charged o v) s := by
  have hkeeps : ∀ (e : Entry V) data count, Charged o v e → Charged o v { e with data, count } :=
    fun e _ _ he => ⟨he.bytes, he.within, he.texts⟩
  have hfresh : ∀ data : Obj V, Charged o v { data, fields := none, fieldsBytes := 0, count := 1 } :=
    fun data => ⟨by simp [charges, JsMap.sumEntries, empty], by simp; omega, by simp [Texted]⟩
  refine Machine.Runs.invariant (fun _ _ _ _ husers => by cases husers) ?_ h
  intro s a s' hi _ hn
  cases a with
  | join ws topic selected subscribes =>
    cases hn
    exact hi.join hkeeps hfresh
  | leave ws =>
    cases hn
    exact hi.leaveAll hkeeps
  | unsubscribe ws topic =>
    cases hn
    unfold unsubscribe
    split
    · exact hi
    · exact hi.leaveTopic hkeeps
  | update ws topic fields fromClient =>
    cases hn
    exact hi.update
  | flush =>
    cases hn
    exact hi.of_eq rfl

variable {text : V → Option (Option JsString)}

theorem byteLength_stringify (h : Texted (v.withTexts text) fields) : ∃ t, stringify text fields = some t ∧
    (byteLength t : Int) ≤ max 2 (charges (v.withTexts text) fields + 1) := by
  have hall : ∀ e ∈ fields.entries, (text e.2).isSome := by
    intro e he
    have := h e.1 e.2 (JsMap.mem_entries_iff.mp he)
    simpa [Values.withTexts] using this
  refine ⟨_, if_pos (List.all_eq_true.mpr hall), ?_⟩
  rw [byteLength_objectText]
  have hsum : (((fields.entries.filterMap fun e => (text e.2).join.map fun t => (js e.1, t)).map
      fun p => byteLength (JsonString.stringify p.1) + byteLength p.2 + 2).sum : Int) ≤
        charges (v.withTexts text) fields := by
    unfold charges JsMap.sumEntries
    induction fields.entries with
    | nil => simp
    | cons e es ih =>
      have hcharge : charge (v.withTexts text) e.1 e.2 = byteLength (JsonString.stringify (js e.1)) +
          2 + (((text e.2).map fun t => byteLength (t.getD [])).getD 0 : Nat) := rfl
      rw [List.filterMap_cons]
      rcases htext : text e.2 with _ | _ | t <;> simp [htext] at hcharge ih ⊢ <;> omega
  omega

def Entry.told (e : Entry V) : Obj V × Obj V × Int × Int :=
  (e.data, e.fields.getD .empty, e.fieldsBytes, e.count)

/-- Nothing is changed that is told of an entry, and nothing that is yet to be published. -/
structure Unchanged (s s' : State V) : Prop where
  entries : ∀ topic key, (s'.entry topic key).map Entry.told = (s.entry topic key).map Entry.told
  pendingDiffs : s'.pendingDiffs = s.pendingDiffs

/-- An entry counts the bytes its fields are charged, their text takes at most a byte more
than the budget, and an update that would be more than it changes nothing. -/
theorem budget_of_runs (hbudget : 1 ≤ o.maxTotalFieldsBytes) {as : List (Action V)}
    (h : (machine o (v.withTexts text)).Runs Machine.Any as s) :
    (∀ topic key e, s.entry topic key = some e →
      e.fieldsBytes = charges (v.withTexts text) (e.fields.getD .empty) ∧
      ∃ t, stringify text (e.fields.getD .empty) = some t ∧
        (byteLength t : Int) ≤ o.maxTotalFieldsBytes + 1) ∧
    ∀ ws topic key e fields fromClient effective, s.keyOn ws topic = some key →
      s.entry topic key = some e → effectiveFields o fields fromClient = some effective →
      o.maxTotalFieldsBytes < charges (v.withTexts text) (assign (e.fields.getD .empty)
        (changedFields o (v.withTexts text) (e.fields.getD .empty) effective fromClient).1) →
      Unchanged s (update o (v.withTexts text) s ws topic fields fromClient) := by
  have hevery := every_of_run hbudget h
  have hcharged : ∀ topic key e, s.entry topic key = some e → Charged o (v.withTexts text) e := by
    intro topic key e he
    obtain ⟨users, husers, he⟩ := Option.bind_eq_some_iff.mp he
    exact hevery topic users key e husers he
  refine ⟨fun topic key e he => ?_, ?_⟩
  · have hc := hcharged topic key e he
    obtain ⟨t, ht, hle⟩ := byteLength_stringify hc.texts
    have hbytes := hc.bytes
    have hwithin := hc.within
    exact ⟨hbytes, t, ht, by omega⟩
  intro ws topic key e fields fromClient effective hkey he heffective hover
  apply update_cases ⟨fun _ _ => rfl, rfl⟩
  · intro users key e htopic hget
    have hc := hevery topic users key e htopic hget
    obtain ⟨hbytes, hfields⟩ := hc.opened
    have htold : e.opened.told = e.told := by
      simp only [Entry.told, hbytes, hfields]
      unfold Entry.opened
      split <;> rfl
    refine ⟨fun t k => ?_, rfl⟩
    grind [State.entry, get?_set]
  · -- what would be charged is what the update found to be in the budget
    intro users key' e' effective' htopic hget hkey' heffective' r hfits
    cases hkey.symm.trans hkey'
    cases heffective.symm.trans heffective'
    have he' : s.entry topic key = some e' := by rw [State.entry, htopic, Option.bind_some, hget]
    cases he.symm.trans he'
    have hc := hcharged topic key e he
    obtain ⟨hbytes, hfields⟩ := hc.opened
    have hadds : Adds (v.withTexts text) (e.opened.fields.getD .empty) r :=
      charges_changedFields effective
    have hsum := hadds.charges
    have hold := hc.bytes
    simp only [r, hfields] at hsum hfits
    omega

def numberText (n : Nat) : Option (Option JsString) := some (if n = 0 then none else some (js (Nat.repr n)))

/-- A field is set, set anew and deleted. -/
def edits : List (Action Nat) :=
  [.join 1 "room" (some user7) true, .update 1 "room" (JsMap.empty.set "é" 10) true,
    .update 1 "room" (JsMap.empty.set "é" 10) false, .update 1 "room" (JsMap.empty.set "x" 5) false,
    .update 1 "room" (JsMap.empty.set "x" 0) false]

/-- There is no room for a field with a long name. -/
theorem edits_in_budget : ∃ s : State Nat, ∃ e,
    (machine { oneTopic with maxFieldsBytes := 1000 } (numbers.withTexts numberText)).Runs Machine.Any
      edits s ∧ s.entry "room" "7" = some e ∧ e.fieldsBytes = 13 ∧
    Unchanged s (update { oneTopic with maxFieldsBytes := 1000 } (numbers.withTexts numberText) s 1 "room"
      (JsMap.empty.set (String.ofList (List.replicate 100 'x')) 1) false) := by
  obtain ⟨s, hs⟩ : ∃ s : State Nat,
      (machine { oneTopic with maxFieldsBytes := 1000 } (numbers.withTexts numberText)).exec .init edits =
        some s := ⟨_, rfl⟩
  have hrun := Machine.runs_of_exec hs
  obtain ⟨hbytes, hover⟩ := budget_of_runs (by decide) hrun
  obtain ⟨e, he⟩ : ∃ e, s.entry "room" "7" = some e := by
    cases hs
    exact ⟨_, rfl⟩
  refine ⟨s, e, hrun, he, ?_, hover 1 "room" "7" e _ false _ ?_ he rfl ?_⟩
  · cases hs
    cases he
    decide +kernel
  · cases hs
    rfl
  · cases hs
    cases he
    decide +kernel

end BunServe.Presence
