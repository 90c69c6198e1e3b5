import BunServe.Lib.Delimited
import BunServe.Listeners

/-!
# BunServe.Listeners.Kept

Which listeners keep their topic, over all runs.

A forced `unsubscribe` drops the reference of a wrapper but leaves its `subs` and
its store, so a later listener of the same wrapper is never subscribed, and a later
release by it takes away the reference of somebody else.

* `Inv` — a wrapper whose reference was not dropped is counted in `topicRefCounts`,
  and its listeners are those of the store of its topic;
* `kept` — every run in which no such wrapper is used again;
* `stale_detach_cancels` — what happens else.
-/

namespace BunServe.Listeners

open Machine
open JsMap (get?_delete get?_filter get?_set get?_set_ne get?_set_self le_sum of_get?_set)

/-! ## names -/

def Named (topic : String) (slot : Slot) : Prop :=
  '\x00' ∉ topic.toList ∧ (slot = .topic topic ∨ ∃ event, slot = .event (eventKey topic event))

theorem eventKey_toList (topic event : String) :
    (eventKey topic event).toList = topic.toList ++ '\x00' :: event.toList := by
  simp [eventKey]

variable {topic : String} {slot : Slot}

theorem Named.unique {topic' : String} (h : Named topic slot)
    (h' : Named topic' slot) : topic = topic' := by
  obtain ⟨hnul, h⟩ := h
  obtain ⟨hnul', h'⟩ := h'
  cases h with
  | inl h =>
    cases h' with
    | inl h' => simpa using h.symm.trans h'
    | inr h' =>
      obtain ⟨event, h'⟩ := h'
      cases h.symm.trans h'
  | inr h =>
    obtain ⟨event, h⟩ := h
    cases h' with
    | inl h' => cases h.symm.trans h'
    | inr h' =>
      obtain ⟨event', h'⟩ := h'
      have hkey : eventKey topic event = eventKey topic' event' := by simpa using h.symm.trans h'
      have hlist := congrArg String.toList hkey
      rw [eventKey_toList, eventKey_toList] at hlist
      exact String.toList_inj.mp (append_delim_inj hnul hnul' hlist).1

/-- `doUnsubscribe` takes only the stores of its topic. -/
theorem Named.isOf {topic' : String} (h : Named topic slot)
    (hnul : '\x00' ∉ topic'.toList) (hof : slot.isOf topic' = true) : topic = topic' := by
  obtain ⟨hnul', h⟩ := h
  cases h with
  | inl h => simpa [h, Slot.isOf] using hof
  | inr h =>
    obtain ⟨event, h⟩ := h
    rw [h, Slot.isOf, List.isPrefixOf_iff_prefix] at hof
    rw [eventKey_toList, String.toList_append] at hof
    exact String.toList_inj.mp (append_delim_isPrefix hnul hnul' hof).symm

/-! ## the invariant -/

def on (id : Nat) (l : Listener) : Int := if l.wrapper = id then 1 else 0

/-- One for a wrapper of the topic whose reference is counted. -/
def holds (topic : String) (n : Nat) (w : Wrapper) : Int :=
  if w.topic = topic ∧ 0 < w.subs ∧ w.since = n then 1 else 0

theorem on_nonneg (id : Nat) (l : Listener) : 0 ≤ on id l := by
  unfold on
  split <;> decide

theorem holds_nonneg (topic : String) (n : Nat) (w : Wrapper) : 0 ≤ holds topic n w := by
  unfold holds
  split <;> decide

/-- How many wrappers of a topic have a reference that is counted. -/
def State.live (s : State) (topic : String) : Int :=
  s.wrappers.sum (holds topic (s.forcedOff topic))

/-- `topicRefCounts.get(topic) || 0`. -/
def State.refs (s : State) (topic : String) : Nat := (s.topicRefCounts.get? topic).getD 0

structure Listener.Of (l : Listener) (w : Wrapper) : Prop where
  topic : w.topic = l.topic
  slot : w.slot = l.slot
  store : w.store = l.store
  since : w.since = l.since

structure Inv (s : State) : Prop where
  counted : ∀ id w, s.wrappers.get? id = some w → (w.subs : Int) = s.listeners.sum (on id)
  known : ∀ i l, s.listeners.get? i = some l → ∃ w, s.wrappers.get? l.wrapper = some w ∧ l.Of w
  named : ∀ id w, s.wrappers.get? id = some w → Named w.topic w.slot
  since : ∀ id w, s.wrappers.get? id = some w → w.since ≤ s.forcedOff w.topic
  refs : ∀ topic, s.live topic ≤ s.refs topic
  current : ∀ i l, s.listeners.get? i = some l → s.fresh l = true →
    s.stores.get? l.slot = some l.store
  owner : ∀ id w slot, s.wrappers.get? id = some w → s.stores.get? slot = some w.store →
    slot = w.slot
  inj : ∀ a b store, s.stores.get? a = some store → s.stores.get? b = some store → a = b
  storeBound : ∀ a store, s.stores.get? a = some store → store < s.nextStore
  wrapperBound : ∀ id w, s.wrappers.get? id = some w → id < s.nextWrapper ∧ w.store < s.nextStore
  listenerBound : ∀ i l, s.listeners.get? i = some l → i < s.nextListener
  subscribed : ∀ topic, s.topicRefCounts.get? topic ≠ none →
    topic ∈ s.subscribedTopics ∨ isTap topic = true ∨ topic ∈ s.managedTopics

variable {s : State} {i : Nat} {l : Listener}

theorem live_pos (h : Inv s) (hl : s.listeners.get? i = some l)
    (hfresh : s.fresh l = true) : 0 < s.live l.topic := by
  obtain ⟨w, hw, hof⟩ := h.known i l hl
  have hsubs : 0 < w.subs := by
    have hle := le_sum (on_nonneg l.wrapper) hl
    have hone : on l.wrapper l = 1 := by simp [on]
    have := h.counted _ _ hw
    omega
  have hsince : w.since = s.forcedOff l.topic := by
    rw [hof.since]
    simpa [State.fresh] using hfresh
  have hle := le_sum (holds_nonneg l.topic (s.forcedOff l.topic)) hw
  have hone : holds l.topic (s.forcedOff l.topic) w = 1 := by simp [holds, hof.topic, hsubs, hsince]
  unfold State.live
  omega

theorem not_fresh (h : Inv s) (hlive : s.live topic = 0)
    (hl : s.listeners.get? i = some l) (htopic : l.topic = topic) : s.fresh l = false := by
  cases hfresh : s.fresh l with
  | false => rfl
  | true =>
    have := live_pos h hl hfresh
    rw [htopic] at this
    omega

theorem live_nonneg (s : State) (topic : String) : 0 ≤ s.live topic :=
  JsMap.sum_nonneg (holds_nonneg topic _) _

/-! ## subscriptions -/

theorem refs_subscribe (s : State) (topic topic' : String) :
    (subscribe s topic).refs topic' = s.refs topic' + if topic' = topic then 1 else 0 := by
  have hrefs : (subscribe s topic).topicRefCounts =
      s.topicRefCounts.set topic ((s.topicRefCounts.get? topic).getD 0 + 1) := by
    simp only [subscribe]
    split
    · rfl
    · split <;> rfl
  unfold State.refs
  rw [hrefs, get?_set]
  by_cases heq : topic' = topic
  · simp [heq]
  · simp [heq]

theorem subscribe_frame (s : State) (topic : String) :
    subscribe s topic = { s with
      topicRefCounts := (subscribe s topic).topicRefCounts
      subscribedTopics := (subscribe s topic).subscribedTopics } := by
  simp only [subscribe]
  split
  · rfl
  · split <;> rfl

theorem subscribed_subscribe (h : Inv s) (topic topic' : String)
    (hrefs : (subscribe s topic).topicRefCounts.get? topic' ≠ none) :
    topic' ∈ (subscribe s topic).subscribedTopics ∨ isTap topic' = true ∨
      topic' ∈ s.managedTopics := by
  have hkeep : topic' ≠ topic → topic' ∈ s.subscribedTopics ∨ isTap topic' = true ∨
      topic' ∈ s.managedTopics := by
    intro hne
    have hget : (subscribe s topic).topicRefCounts.get? topic' = s.topicRefCounts.get? topic' := by
      simp only [subscribe]
      split
      · exact get?_set_ne _ _ hne
      · split
        · exact get?_set_ne _ _ hne
        · exact get?_set_ne _ _ hne
    exact h.subscribed topic' (by rwa [hget] at hrefs)
  simp only [subscribe]
  split
  · next hcount =>
    by_cases heq : topic' = topic
    · refine h.subscribed topic' fun hnone => ?_
      rw [heq] at hnone
      simp [hnone] at hcount
    · exact hkeep heq
  · split
    · next hskip =>
      by_cases heq : topic' = topic
      · rw [heq]
        exact .inr (by simpa using hskip)
      · exact hkeep heq
    · by_cases heq : topic' = topic
      · exact .inl (by simp [heq])
      · have hold := hkeep heq
        simpa [heq] using hold

theorem inv_subscribe (h : Inv s) (topic : String) : Inv (subscribe s topic) := by
  have hsub := subscribed_subscribe h topic
  have hrefs := refs_subscribe s topic
  rw [subscribe_frame]
  refine { h with refs := fun topic' => ?_, subscribed := hsub }
  have hlive := h.refs topic'
  have hmore : s.refs topic' ≤ (subscribe s topic).refs topic' := by
    rw [hrefs]
    omega
  have : s.live topic' ≤ ((subscribe s topic).refs topic' : Int) := by omega
  exact this

theorem inv_doUnsubscribe (singleton : Bool) (h : Inv s)
    (hnul : '\x00' ∉ topic.toList) (hrefs : s.topicRefCounts.get? topic = none) :
    Inv (doUnsubscribe singleton s topic) := by
  have hlive : s.live topic = 0 := by
    have := h.refs topic
    have := live_nonneg s topic
    have hzero : s.refs topic = 0 := by simp [State.refs, hrefs]
    omega
  refine {
    h with
    current := fun i l hl hfresh => ?_
    owner := fun id w slot hw hget => ?_
    inj := fun a b store ha hb => ?_
    storeBound := fun a store ha => ?_
    subscribed := fun topic' hget => ?_ }
  · obtain ⟨w, hw, hof⟩ := h.known i l hl
    have hnot : l.slot.isOf topic = false := by
      cases hof' : l.slot.isOf topic with
      | false => rfl
      | true =>
        have hnamed := h.named _ _ hw
        rw [hof.topic, hof.slot] at hnamed
        have hstale := not_fresh h hlive hl (hnamed.isOf hnul hof')
        have hfresh' : s.fresh l = true := hfresh
        rw [hstale] at hfresh'
        contradiction
    have hget := h.current i l hl hfresh
    simp only [doUnsubscribe, get?_filter, hnot]
    exact hget
  · simp only [doUnsubscribe, get?_filter] at hget
    split at hget
    · exact h.owner id w slot hw hget
    · contradiction
  · simp only [doUnsubscribe, get?_filter] at ha hb
    split at ha
    · split at hb
      · exact h.inj a b store ha hb
      · contradiction
    · contradiction
  · simp only [doUnsubscribe, get?_filter] at ha
    split at ha
    · exact h.storeBound a store ha
    · contradiction
  · have hne : topic' ≠ topic := fun heq => hget (by rw [heq]; exact hrefs)
    have hold := h.subscribed topic' hget
    simp only [doUnsubscribe]
    split
    · simpa [hne] using hold
    · simpa [hne] using hold

theorem inv_delete (h : Inv s) (hlive : s.live topic = 0) :
    Inv { s with topicRefCounts := s.topicRefCounts.delete topic } := by
  refine { h with refs := fun topic' => ?_, subscribed := fun topic' hget => ?_ }
  · have hold := h.refs topic'
    show s.live topic' ≤ (((s.topicRefCounts.delete topic).get? topic').getD 0 : Nat)
    rw [get?_delete]
    by_cases heq : topic' = topic
    · simp [heq, hlive]
    · simpa [heq, State.refs] using hold
  · have hget' : (s.topicRefCounts.delete topic).get? topic' ≠ none := hget
    rw [get?_delete] at hget'
    split at hget'
    · contradiction
    · exact h.subscribed topic' hget'

theorem inv_release (singleton : Bool) (h : Inv s)
    (hnul : '\x00' ∉ topic.toList) (hlive : s.live topic + 1 ≤ s.refs topic ∨ s.live topic = 0) :
    Inv (release singleton s topic) := by
  simp only [release]
  split
  · next hle =>
    have hzero : s.live topic = 0 := by
      have := live_nonneg s topic
      have hle' : s.refs topic ≤ 1 := hle
      omega
    exact inv_doUnsubscribe singleton (inv_delete h hzero) hnul (JsMap.get?_delete_self ..)
  · next hgt =>
    refine { h with refs := fun topic' => ?_, subscribed := fun topic' hget => ?_ }
    · have hold := h.refs topic'
      show s.live topic' ≤
        (((s.topicRefCounts.set topic (s.refs topic - 1)).get? topic').getD 0 : Nat)
      rw [get?_set]
      by_cases heq : topic' = topic
      · simp only [heq, if_true, Option.getD_some]
        omega
      · simpa [heq, State.refs] using hold
    · refine h.subscribed topic' fun hnone => hget ?_
      have hne : topic' ≠ topic := by
        intro heq
        rw [heq] at hnone
        simp [hnone] at hgt
      rw [get?_set_ne _ _ hne, hnone]

theorem inv_unsubscribe (singleton : Bool) (h : Inv s)
    (hnul : '\x00' ∉ topic.toList) : Inv (unsubscribe singleton s topic) := by
  have hforced : ∀ topic', ((s.forced.set topic (s.forcedOff topic + 1)).get? topic').getD 0 =
      s.forcedOff topic' + if topic' = topic then 1 else 0 := by
    intro topic'
    rw [get?_set]
    by_cases heq : topic' = topic
    · simp [heq]
    · simp [heq, State.forcedOff]
  refine inv_doUnsubscribe singleton ?_ hnul (JsMap.get?_delete_self ..)
  refine {
    h with
    since := fun id w hw => ?_
    refs := fun topic' => ?_
    current := fun i l hl hfresh => ?_
    subscribed := fun topic' hget => ?_ }
  · have hold := h.since id w hw
    show w.since ≤ ((s.forced.set topic (s.forcedOff topic + 1)).get? w.topic).getD 0
    rw [hforced]
    omega
  · show s.wrappers.sum (holds topic' (((s.forced.set topic (s.forcedOff topic + 1)).get?
      topic').getD 0)) ≤ (((s.topicRefCounts.delete topic).get? topic').getD 0 : Nat)
    rw [hforced, get?_delete]
    by_cases heq : topic' = topic
    · have hzero : s.wrappers.sum (holds topic (s.forcedOff topic + 1)) = 0 := by
        refine JsMap.sum_eq_zero fun id w hw => ?_
        have hold := h.since id w hw
        unfold holds
        split
        · next hw =>
          obtain ⟨htopic, -, hsince⟩ := hw
          rw [htopic] at hold
          omega
        · rfl
      simp [heq, hzero]
    · have hold := h.refs topic'
      simpa [heq, State.refs, State.live] using hold
  · obtain ⟨w, hw, hof⟩ := h.known i l hl
    have hle := h.since _ _ hw
    rw [hof.since, hof.topic] at hle
    have hfresh' : l.since = ((s.forced.set topic (s.forcedOff topic + 1)).get? l.topic).getD 0 := by
      exact of_decide_eq_true hfresh
    rw [hforced] at hfresh'
    refine h.current i l hl ?_
    unfold State.fresh
    simp only [decide_eq_true_eq]
    omega
  · have hget' : (s.topicRefCounts.delete topic).get? topic' ≠ none := hget
    rw [get?_delete] at hget'
    split at hget'
    · contradiction
    · exact h.subscribed topic' hget'

/-! ## wrappers -/

theorem inv_newStore (h : Inv s) (hnone : s.stores.get? slot = none) :
    Inv { s with stores := s.stores.set slot s.nextStore, nextStore := s.nextStore + 1 } := by
  have hget : ∀ a store, (s.stores.set slot s.nextStore).get? a = some store →
      (a = slot ∧ store = s.nextStore) ∨ s.stores.get? a = some store := by
    intro a store ha
    obtain ⟨heq, rfl⟩ | ⟨-, ha⟩ := of_get?_set ha
    · exact .inl ⟨heq, rfl⟩
    · exact .inr ha
  refine {
    h with
    current := fun i l hl hfresh => ?_
    owner := fun id w a hw ha => ?_
    inj := fun a b store ha hb => ?_
    storeBound := fun a store ha => ?_
    wrapperBound := fun id w hw => ?_ }
  · have hold := h.current i l hl hfresh
    have hne : l.slot ≠ slot := by
      intro heq
      rw [heq, hnone] at hold
      contradiction
    rw [get?_set_ne _ _ hne, hold]
  · have hbound := (h.wrapperBound id w hw).2
    cases hget a w.store ha with
    | inl hnew => omega
    | inr hold => exact h.owner id w a hw hold
  · cases hget a store ha with
    | inl hnew =>
      cases hget b store hb with
      | inl hnew' => rw [hnew.1, hnew'.1]
      | inr hold =>
        have := h.storeBound b store hold
        omega
    | inr hold =>
      have hbound := h.storeBound a store hold
      cases hget b store hb with
      | inl hnew' => omega
      | inr hold' => exact h.inj a b store hold hold'
  · show store < s.nextStore + 1
    cases hget a store ha with
    | inl hnew => omega
    | inr hold =>
      have := h.storeBound a store hold
      omega
  · have hbound := h.wrapperBound id w hw
    exact ⟨hbound.1, Nat.lt_succ_of_lt hbound.2⟩

theorem inv_newWrapper (h : Inv s)
    (hnamed : Named topic slot) {store : Nat} (hstore : s.stores.get? slot = some store) :
    Inv { s with
      wrappers := s.wrappers.set s.nextWrapper { topic, slot, subs := 0, store, since := 0 }
      nextWrapper := s.nextWrapper + 1 } := by
  let new : Wrapper := { topic, slot, subs := 0, store, since := 0 }
  have hnone : s.wrappers.get? s.nextWrapper = none := by
    cases hw : s.wrappers.get? s.nextWrapper with
    | none => rfl
    | some w =>
      have := (h.wrapperBound _ w hw).1
      omega
  have hget : ∀ id w, (s.wrappers.set s.nextWrapper new).get? id = some w →
      (id = s.nextWrapper ∧ w = new) ∨ s.wrappers.get? id = some w := by
    intro id w hw
    obtain ⟨heq, rfl⟩ | ⟨-, hw⟩ := of_get?_set hw
    · exact .inl ⟨heq, rfl⟩
    · exact .inr hw
  refine {
    h with
    counted := fun id w hw => ?_
    known := fun i l hl => ?_
    named := fun id w hw => ?_
    since := fun id w hw => ?_
    refs := fun topic' => ?_
    owner := fun id w a hw ha => ?_
    wrapperBound := fun id w hw => ?_ }
  · cases hget id w hw with
    | inl hnew =>
      obtain ⟨rfl, rfl⟩ := hnew
      rw [JsMap.sum_eq_zero]
      · rfl
      · intro i l hl
        obtain ⟨w, hw, -⟩ := h.known i l hl
        have hne : l.wrapper ≠ s.nextWrapper := by
          intro heq
          rw [heq, hnone] at hw
          contradiction
        simp [on, hne]
    | inr hold => exact h.counted id w hold
  · obtain ⟨w, hw, hof⟩ := h.known i l hl
    refine ⟨w, ?_, hof⟩
    have hne : l.wrapper ≠ s.nextWrapper := by
      intro heq
      rw [heq, hnone] at hw
      contradiction
    rw [get?_set_ne _ _ hne, hw]
  · cases hget id w hw with
    | inl hnew =>
      rw [hnew.2]
      exact hnamed
    | inr hold => exact h.named id w hold
  · cases hget id w hw with
    | inl hnew =>
      rw [hnew.2]
      exact Nat.zero_le _
    | inr hold => exact h.since id w hold
  · have hsum := JsMap.sum_set_new (holds topic' (s.forcedOff topic')) hnone new
    have hzero : holds topic' (s.forcedOff topic') new = 0 := by simp [holds, new]
    have hold := h.refs topic'
    show (s.wrappers.set s.nextWrapper new).sum (holds topic' (s.forcedOff topic')) ≤ s.refs topic'
    rw [hsum, hzero]
    simpa [State.live] using hold
  · cases hget id w hw with
    | inl hnew =>
      rw [hnew.2] at ha ⊢
      exact h.inj a slot store ha hstore
    | inr hold => exact h.owner id w a hold ha
  · cases hget id w hw with
    | inl hnew =>
      have := h.storeBound slot store hstore
      rw [hnew.1, hnew.2]
      exact ⟨Nat.lt_succ_self _, this⟩
    | inr hold =>
      have hbound := h.wrapperBound id w hold
      exact ⟨Nat.lt_succ_of_lt hbound.1, hbound.2⟩

theorem inv_register (h : Inv s) (hnamed : Named topic slot) : Inv (register s topic slot) := by
  unfold register
  split
  · next store hstore => exact inv_newWrapper h hnamed hstore
  · next hnone =>
    have hnew := inv_newWrapper (inv_newStore h hnone) hnamed (get?_set_self ..)
    exact { hnew with }

variable {id : Nat} {w : Wrapper}

theorem inv_cleanup (h : Inv s)
    (hw : s.wrappers.get? id = some w) (ownStore : Nat) : Inv (cleanup s w ownStore) := by
  unfold cleanup
  split
  · next hcond =>
    obtain ⟨-, hrefs, -⟩ := hcond
    have hlive : s.live w.topic = 0 := by
      have := h.refs w.topic
      have := live_nonneg s w.topic
      have hzero : s.refs w.topic = 0 := by simp [State.refs, hrefs]
      omega
    have hget : ∀ a store, (s.stores.delete w.slot).get? a = some store →
        s.stores.get? a = some store := by
      intro a store ha
      exact (JsMap.of_get?_delete ha).2
    refine {
      h with
      current := fun i l hl hfresh => ?_
      owner := fun id' w' a hw' ha => h.owner id' w' a hw' (hget a _ ha)
      inj := fun a b store ha hb => h.inj a b store (hget a _ ha) (hget b _ hb)
      storeBound := fun a store ha => h.storeBound a store (hget a _ ha) }
    have hne : l.slot ≠ w.slot := by
      intro heq
      obtain ⟨w', hw', hof⟩ := h.known i l hl
      have hnamed := h.named _ _ hw'
      rw [hof.topic, hof.slot, heq] at hnamed
      have hstale := not_fresh h hlive hl (hnamed.unique (h.named id w hw))
      have hfresh' : s.fresh l = true := hfresh
      rw [hstale] at hfresh'
      contradiction
    rw [JsMap.get?_delete_ne _ hne]
    exact h.current i l hl hfresh
  · exact h

/-! ## listeners -/

theorem no_listener (h : Inv s) (hw : s.wrappers.get? id = some w) (hzero : w.subs = 0)
    (hl : s.listeners.get? i = some l) : l.wrapper ≠ id := by
  intro heq
  have hle := le_sum (on_nonneg id) hl
  have hone : on id l = 1 := by simp [on, heq]
  have hcount := h.counted id w hw
  omega

theorem exists_listener (h : Inv s) (hw : s.wrappers.get? id = some w) (hpos : w.subs ≠ 0) :
    ∃ i l, s.listeners.get? i = some l ∧ l.wrapper = id := by
  by_cases hex : ∃ i l, s.listeners.get? i = some l ∧ l.wrapper = id
  · exact hex
  · have hzero : s.listeners.sum (on id) = 0 := by
      refine JsMap.sum_eq_zero fun i l hl => ?_
      have hne : l.wrapper ≠ id := fun heq => hex ⟨i, l, hl, heq⟩
      simp [on, hne]
    have hcount := h.counted id w hw
    omega

theorem inv_listen (h : Inv s) (w₀ : Wrapper)
    (hw₀ : s.wrappers.get? id = some w₀) (htopic : w.topic = w₀.topic) (hslot : w.slot = w₀.slot)
    (hsubs : w.subs = w₀.subs) (hsame : w₀.subs ≠ 0 → w = w₀)
    (hstore : s.stores.get? w.slot = some w.store) (hsince : w.since = s.forcedOff w.topic)
    (hrefs : ∀ topic, s.live topic + (if w₀.subs = 0 ∧ topic = w.topic then 1 else 0) ≤
      s.refs topic) : Inv (listen s id w) := by
  let w' : Wrapper := { w with subs := w.subs + 1 }
  let new : Listener := {
    wrapper := id
    topic := w.topic
    slot := w.slot
    store := w.store
    since := s.forcedOff w.topic }
  have hnone : s.listeners.get? s.nextListener = none := by
    cases hl : s.listeners.get? s.nextListener with
    | none => rfl
    | some l =>
      have := h.listenerBound _ l hl
      omega
  have hget : ∀ i l, (s.listeners.set s.nextListener new).get? i = some l →
      (i = s.nextListener ∧ l = new) ∨ s.listeners.get? i = some l := by
    intro i l hl
    obtain ⟨heq, rfl⟩ | ⟨-, hl⟩ := of_get?_set hl
    · exact .inl ⟨heq, rfl⟩
    · exact .inr hl
  have hgetW : ∀ id' v, (s.wrappers.set id w').get? id' = some v →
      (id' = id ∧ v = w') ∨ (id' ≠ id ∧ s.wrappers.get? id' = some v) := by
    intro id' v hv
    obtain ⟨heq, rfl⟩ | ⟨hne, hv⟩ := of_get?_set hv
    · exact .inl ⟨heq, rfl⟩
    · exact .inr ⟨hne, hv⟩
  refine {
    h with
    counted := fun id' v hv => ?_
    known := fun i l hl => ?_
    named := fun id' v hv => ?_
    since := fun id' v hv => ?_
    refs := fun topic => ?_
    current := fun i l hl hfresh => ?_
    owner := fun id' v a hv ha => ?_
    wrapperBound := fun id' v hv => ?_
    listenerBound := fun i l hl => ?_ }
  · have hsum := JsMap.sum_set_new (on id') hnone new
    show (v.subs : Int) = (s.listeners.set s.nextListener new).sum (on id')
    rw [hsum]
    cases hgetW id' v hv with
    | inl hnew =>
      obtain ⟨rfl, rfl⟩ := hnew
      have hcount := h.counted id' w₀ hw₀
      have hone : on id' new = 1 := by simp [on, new]
      simp only [w']
      omega
    | inr hold =>
      have hcount := h.counted id' v hold.2
      have hzero : on id' new = 0 := by simp [on, new, Ne.symm hold.1]
      omega
  · show ∃ v, (s.wrappers.set id w').get? l.wrapper = some v ∧ l.Of v
    cases hget i l hl with
    | inl hnew =>
      obtain ⟨-, rfl⟩ := hnew
      exact ⟨w', get?_set_self .., rfl, rfl, rfl, hsince⟩
    | inr hold =>
      obtain ⟨v, hv, hof⟩ := h.known i l hold
      by_cases heq : l.wrapper = id
      · have hpos : w₀.subs ≠ 0 := fun hzero => no_listener h hw₀ hzero hold heq
        obtain rfl : v = w₀ := by
          rw [heq, hw₀] at hv
          simpa using hv.symm
        rw [heq, get?_set_self]
        have hw := hsame hpos
        refine ⟨w', rfl, ?_, ?_, ?_, ?_⟩
        · simp only [w', hw, hof.topic]
        · simp only [w', hw, hof.slot]
        · simp only [w', hw, hof.store]
        · simp only [w', hw, hof.since]
      · exact ⟨v, by rw [get?_set_ne _ _ heq, hv], hof⟩
  · cases hgetW id' v hv with
    | inl hnew =>
      have hnamed := h.named id w₀ hw₀
      rw [hnew.2]
      simpa [w', htopic, hslot] using hnamed
    | inr hold => exact h.named id' v hold.2
  · cases hgetW id' v hv with
    | inl hnew =>
      rw [hnew.2]
      exact Nat.le_of_eq hsince
    | inr hold => exact h.since id' v hold.2
  · have hsum := JsMap.sum_set_old (holds topic (s.forcedOff topic)) hw₀ w'
    have hold := hrefs topic
    show (s.wrappers.set id w').sum (holds topic (s.forcedOff topic)) ≤ s.refs topic
    have hnew : holds topic (s.forcedOff topic) w' ≤ holds topic (s.forcedOff topic) w₀ +
        if w₀.subs = 0 ∧ topic = w.topic then 1 else 0 := by
      by_cases hzero : w₀.subs = 0
      · by_cases ht : topic = w.topic
        · simp only [holds, hzero, true_and]
          split
          all_goals simp
        · have hne : ¬ w.topic = topic := fun heq => ht heq.symm
          have hne' : ¬ w₀.topic = topic := by rwa [← htopic]
          simp [holds, w', hne, hne', ht]
      · have hw := hsame hzero
        simp only [hzero]
        simp [holds, w', hw, Nat.pos_of_ne_zero hzero]
    unfold State.live at hold
    omega
  · cases hget i l hl with
    | inl hnew =>
      rw [hnew.2]
      exact hstore
    | inr hold => exact h.current i l hold hfresh
  · cases hgetW id' v hv with
    | inl hnew =>
      rw [hnew.2] at ha ⊢
      exact h.inj a w.slot w.store ha hstore
    | inr hold => exact h.owner id' v a hold.2 ha
  · cases hgetW id' v hv with
    | inl hnew =>
      have hbound := h.wrapperBound id w₀ hw₀
      rw [hnew.1, hnew.2]
      exact ⟨hbound.1, h.storeBound w.slot w.store hstore⟩
    | inr hold => exact h.wrapperBound id' v hold.2
  · show i < s.nextListener + 1
    cases hget i l hl with
    | inl hnew => omega
    | inr hold =>
      have := h.listenerBound i l hold
      omega

theorem inv_refreshStore (h : Inv s) (w : Wrapper) :
    Inv (refreshStore s w).1 ∧ (refreshStore s w).1.stores.get? w.slot = some (refreshStore s w).2 ∧
      refreshStore s w = ({ s with
        stores := (refreshStore s w).1.stores
        nextStore := (refreshStore s w).1.nextStore }, (refreshStore s w).2) := by
  unfold refreshStore
  split
  · next store hstore => exact ⟨h, hstore, rfl⟩
  · next hnone => exact ⟨inv_newStore h hnone, get?_set_self .., rfl⟩

theorem inv_attach (h : Inv s)
    (hw : s.wrappers.get? id = some w) (hok : w.subs = 0 ∨ w.since = s.forcedOff w.topic) :
    Inv (wrappedSubscribe s id w) := by
  unfold wrappedSubscribe
  split
  · next hzero =>
    obtain ⟨hinv, hstore, hframe⟩ := inv_refreshStore h w
    have hmore := refs_subscribe (refreshStore s w).1 w.topic
    have hinv' := inv_subscribe hinv w.topic
    have hframe' := subscribe_frame (refreshStore s w).1 w.topic
    have hwrappers : (subscribe (refreshStore s w).1 w.topic).wrappers = s.wrappers := by
      rw [hframe', hframe]
    have hstores : (subscribe (refreshStore s w).1 w.topic).stores =
        (refreshStore s w).1.stores := by
      rw [hframe']
    have hforced : ∀ topic, (subscribe (refreshStore s w).1 w.topic).forcedOff topic =
        s.forcedOff topic := by
      intro topic
      rw [hframe', hframe]
      rfl
    have hlive : ∀ topic, (subscribe (refreshStore s w).1 w.topic).live topic =
        (refreshStore s w).1.live topic := by
      intro topic
      rw [hframe']
      rfl
    refine inv_listen hinv' w (by rw [hwrappers, hw]) rfl rfl rfl
      (absurd hzero) (by rw [hstores]; exact hstore) (hforced w.topic).symm
      fun topic => ?_
    have hold := hinv.refs topic
    rw [hlive, hmore]
    simp only [hzero, true_and]
    split
    all_goals simp; omega
  · next hpos =>
    have hsince := hok.resolve_left hpos
    obtain ⟨i, l, hl, hwrapper⟩ := exists_listener h hw hpos
    obtain ⟨v, hv, hof⟩ := h.known i l hl
    obtain rfl : v = w := by
      rw [hwrapper, hw] at hv
      simpa using hv.symm
    have hfresh : s.fresh l = true := by
      have hl' : l.since = s.forcedOff l.topic := by rw [← hof.since, ← hof.topic, hsince]
      exact decide_eq_true hl'
    refine inv_listen h _ hw rfl rfl rfl (fun _ => rfl) ?_ hsince fun topic => ?_
    · rw [hof.slot, hof.store]
      exact h.current i l hl hfresh
    · simpa [hpos] using h.refs topic

/-- A listener is detached, before `release`. -/
theorem inv_unlisten (h : Inv s)
    (hl : s.listeners.get? i = some l) (hw : s.wrappers.get? l.wrapper = some w) :
    Inv { s with
      listeners := s.listeners.delete i
      wrappers := s.wrappers.set l.wrapper { w with subs := w.subs - 1 } } := by
  let w' : Wrapper := { w with subs := w.subs - 1 }
  have hgetL : ∀ j k, (s.listeners.delete i).get? j = some k → s.listeners.get? j = some k := by
    intro j k hj
    exact (JsMap.of_get?_delete hj).2
  have hgetW : ∀ id v, (s.wrappers.set l.wrapper w').get? id = some v →
      (id = l.wrapper ∧ v = w') ∨ (id ≠ l.wrapper ∧ s.wrappers.get? id = some v) := by
    intro id v hv
    obtain ⟨heq, rfl⟩ | ⟨hne, hv⟩ := of_get?_set hv
    · exact .inl ⟨heq, rfl⟩
    · exact .inr ⟨hne, hv⟩
  refine {
    h with
    counted := fun id v hv => ?_
    known := fun j k hk => ?_
    named := fun id v hv => ?_
    since := fun id v hv => ?_
    refs := fun topic => ?_
    current := fun j k hk hfresh => h.current j k (hgetL j k hk) hfresh
    owner := fun id v a hv ha => ?_
    wrapperBound := fun id v hv => ?_
    listenerBound := fun j k hk => h.listenerBound j k (hgetL j k hk) }
  · have hsum := JsMap.sum_delete (on id) hl
    rw [hsum]
    cases hgetW id v hv with
    | inl hnew =>
      obtain ⟨rfl, rfl⟩ := hnew
      have hcount := h.counted _ w hw
      have hone : on l.wrapper l = 1 := by simp [on]
      have hle := le_sum (on_nonneg l.wrapper) hl
      simp only [w']
      omega
    | inr hold =>
      have hcount := h.counted id v hold.2
      have hzero : on id l = 0 := by simp [on, Ne.symm hold.1]
      omega
  · obtain ⟨v, hv, hof⟩ := h.known j k (hgetL j k hk)
    by_cases heq : k.wrapper = l.wrapper
    · obtain rfl : v = w := by
        rw [heq, hw] at hv
        simpa using hv.symm
      exact ⟨w', by rw [heq, get?_set_self], hof.topic, hof.slot, hof.store, hof.since⟩
    · exact ⟨v, by rw [get?_set_ne _ _ heq, hv], hof⟩
  · cases hgetW id v hv with
    | inl hnew =>
      rw [hnew.2]
      exact h.named _ w hw
    | inr hold => exact h.named id v hold.2
  · cases hgetW id v hv with
    | inl hnew =>
      rw [hnew.2]
      exact h.since _ w hw
    | inr hold => exact h.since id v hold.2
  · have hsum := JsMap.sum_set_old (holds topic (s.forcedOff topic)) hw w'
    have hold := h.refs topic
    show (s.wrappers.set l.wrapper w').sum (holds topic (s.forcedOff topic)) ≤ s.refs topic
    have hless : holds topic (s.forcedOff topic) w' ≤ holds topic (s.forcedOff topic) w := by
      have hpos : 0 < w.subs - 1 → 0 < w.subs := by omega
      unfold holds
      split
      · next hcond =>
        obtain ⟨ht, hs, hn⟩ := hcond
        exact Int.le_of_eq (if_pos ⟨ht, hpos hs, hn⟩).symm
      · split
        all_goals decide
    unfold State.live at hold
    omega
  · cases hgetW id v hv with
    | inl hnew =>
      rw [hnew.2] at ha ⊢
      exact h.owner _ w a hw ha
    | inr hold => exact h.owner id v a hold.2 ha
  · cases hgetW id v hv with
    | inl hnew =>
      rw [hnew.1, hnew.2]
      exact h.wrapperBound _ w hw
    | inr hold => exact h.wrapperBound id v hold.2

theorem inv_detach (singleton : Bool) (h : Inv s)
    (hl : s.listeners.get? i = some l) (hw : s.wrappers.get? l.wrapper = some w)
    (hok : w.subs ≤ 1 → w.since = s.forcedOff w.topic ∨ s.topicRefCounts.get? w.topic = none) :
    Inv (detach singleton s i l w) := by
  have hinv := inv_unlisten h hl hw
  have hnul := (h.named _ w hw).1
  unfold detach
  split
  · next hzero =>
    refine inv_release singleton hinv hnul ?_
    have hold := h.refs w.topic
    have hsum := JsMap.sum_set_old (holds w.topic (s.forcedOff w.topic)) hw
    have hnone : holds w.topic (s.forcedOff w.topic) { w with subs := w.subs - 1 } = 0 := by
      simp [holds, hzero]
    have hnonneg := holds_nonneg w.topic (s.forcedOff w.topic) w
    have hlive : State.live { s with
        listeners := s.listeners.delete i
        wrappers := s.wrappers.set l.wrapper { w with subs := w.subs - 1 } } w.topic =
          s.live w.topic - holds w.topic (s.forcedOff w.topic) w := by
      show (s.wrappers.set l.wrapper { w with subs := w.subs - 1 }).sum
        (holds w.topic (s.forcedOff w.topic)) = _
      rw [hsum, hnone]
      exact Int.add_zero _
    rw [hlive]
    cases hok (by omega) with
    | inl hsince =>
      have hsubs : 0 < w.subs := by
        have hcount := h.counted _ w hw
        have hone : on l.wrapper l = 1 := by simp [on]
        have hle := le_sum (on_nonneg l.wrapper) hl
        omega
      have hone : holds w.topic (s.forcedOff w.topic) w = 1 := by simp [holds, hsubs, hsince]
      rw [hone]
      left
      show s.live w.topic - 1 + 1 ≤ s.refs w.topic
      omega
    | inr hnone =>
      have hzero : s.refs w.topic = 0 := by simp [State.refs, hnone]
      omega
  · exact hinv

/-! ## what is dispatched -/

/-- What was dispatched so far. -/
structure Logged (s : State) : Prop where
  nodup : s.log.Nodup
  bound : ∀ x ∈ s.log, x.1 < s.dispatched ∧ x.2 < s.nextListener
  owed : ∀ x ∈ s.owed, x ∈ s.log
  /-- In the middle of a dispatch only the listeners of the topic were called. -/
  now : ∀ d, s.dispatching = some d → d.number < s.dispatched ∧
    ∀ x ∈ s.log, x.1 = d.number → d.topicSet = true ∧
      ∀ l, s.listeners.get? x.2 = some l → l.slot = .topic d.topic

/-- A step that calls nobody, and attaches under a new number. -/
structure Silent (s s' : State) : Prop where
  log : s'.log = s.log
  owed : s'.owed = s.owed
  dispatching : s'.dispatching = s.dispatching
  dispatched : s'.dispatched = s.dispatched
  next : s.nextListener ≤ s'.nextListener
  old : ∀ i l, i < s.nextListener → s'.listeners.get? i = some l → s.listeners.get? i = some l

theorem Logged.of {s' : State} (h : Logged s) (hs : Silent s s') : Logged s' := by
  refine ⟨?_, fun x hx => ?_, ?_, fun d hd => ?_⟩
  · rw [hs.log]
    exact h.nodup
  · rw [hs.log] at hx
    have hbound := h.bound x hx
    rw [hs.dispatched]
    exact ⟨hbound.1, Nat.lt_of_lt_of_le hbound.2 hs.next⟩
  · rw [hs.log, hs.owed]
    exact h.owed
  · rw [hs.dispatching] at hd
    rw [hs.dispatched, hs.log]
    obtain ⟨hnumber, hcalled⟩ := h.now d hd
    refine ⟨hnumber, fun x hx heq => ?_⟩
    obtain ⟨hset, hslot⟩ := hcalled x hx heq
    exact ⟨hset, fun l hl => hslot l (hs.old x.2 l (h.bound x hx).2 hl)⟩

theorem Silent.trans {t u : State} (h : Silent s t) (h' : Silent t u) : Silent s u where
  log := h'.log.trans h.log
  owed := h'.owed.trans h.owed
  dispatching := h'.dispatching.trans h.dispatching
  dispatched := h'.dispatched.trans h.dispatched
  next := Nat.le_trans h.next h'.next
  old := fun i l hi hl => h.old i l hi (h'.old i l (Nat.lt_of_lt_of_le hi h.next) hl)

theorem Silent.of_same {s' : State} (hlog : s'.log = s.log) (howed : s'.owed = s.owed)
    (hdispatching : s'.dispatching = s.dispatching) (hdispatched : s'.dispatched = s.dispatched)
    (hnext : s'.nextListener = s.nextListener) (hlisteners : s'.listeners = s.listeners) :
    Silent s s' :=
  ⟨hlog, howed, hdispatching, hdispatched, Nat.le_of_eq hnext.symm, fun _ _ _ hl => hlisteners ▸ hl⟩

theorem silent_subscribe (s : State) (topic : String) : Silent s (subscribe s topic) := by
  rw [subscribe_frame]
  exact .of_same rfl rfl rfl rfl rfl rfl

theorem silent_release (singleton : Bool) (s : State) (topic : String) :
    Silent s (release singleton s topic) := by
  simp only [release]
  split
  · exact .of_same rfl rfl rfl rfl rfl rfl
  · exact .of_same rfl rfl rfl rfl rfl rfl

theorem silent_register (s : State) (topic : String) (slot : Slot) :
    Silent s (register s topic slot) := by
  unfold register
  split
  · exact .of_same rfl rfl rfl rfl rfl rfl
  · exact .of_same rfl rfl rfl rfl rfl rfl

theorem silent_cleanup (s : State) (w : Wrapper) (ownStore : Nat) :
    Silent s (cleanup s w ownStore) := by
  unfold cleanup
  split
  · exact .of_same rfl rfl rfl rfl rfl rfl
  · exact .of_same rfl rfl rfl rfl rfl rfl

theorem silent_listen (s : State) (id : Nat) (w : Wrapper) : Silent s (listen s id w) where
  log := rfl
  owed := rfl
  dispatching := rfl
  dispatched := rfl
  next := Nat.le_succ _
  old := by
    intro i l hi hl
    have hne : i ≠ s.nextListener := by omega
    rwa [show (listen s id w).listeners.get? i = s.listeners.get? i from
      get?_set_ne _ _ hne] at hl

theorem silent_attach (h : Inv s) (id : Nat) (w : Wrapper) :
    Silent s (wrappedSubscribe s id w) := by
  unfold wrappedSubscribe
  split
  · have hframe := (inv_refreshStore h w).2.2
    have hrefresh : Silent s (refreshStore s w).1 := by
      rw [hframe]
      exact .of_same rfl rfl rfl rfl rfl rfl
    exact hrefresh.trans ((silent_subscribe _ _).trans (silent_listen _ _ _))
  · exact silent_listen s id w

theorem silent_detach (singleton : Bool) (s : State) (i : Nat) (l : Listener) (w : Wrapper) :
    Silent s (detach singleton s i l w) := by
  have hless : Silent s { s with
      listeners := s.listeners.delete i
      wrappers := s.wrappers.set l.wrapper { w with subs := w.subs - 1 } } := by
    refine ⟨rfl, rfl, rfl, rfl, Nat.le_refl _, fun j k _ hk => ?_⟩
    have hk' : (s.listeners.delete i).get? j = some k := hk
    exact (JsMap.of_get?_delete hk').2
  unfold detach
  split
  · exact hless.trans (silent_release _ _ _)
  · exact hless

theorem mem_subscribers {store : Option Nat} :
    i ∈ s.subscribers store ↔ ∃ l, s.listeners.get? i = some l ∧ some l.store = store := by
  simp only [State.subscribers, List.mem_map, List.mem_filter, decide_eq_true_eq, Prod.exists,
    JsMap.mem_entries_iff]
  constructor
  · rintro ⟨j, l, ⟨hl, hstore⟩, heq⟩
    exact ⟨l, heq ▸ hl, hstore⟩
  · rintro ⟨l, hl, hstore⟩
    exact ⟨i, l, ⟨hl, hstore⟩, rfl⟩

theorem mem_attached :
    i ∈ s.attached slot ↔ ∃ l, s.listeners.get? i = some l ∧ l.slot = slot ∧ s.fresh l = true := by
  simp only [State.attached, List.mem_map, List.mem_filter, Bool.and_eq_true, decide_eq_true_eq,
    Prod.exists, JsMap.mem_entries_iff]
  constructor
  · rintro ⟨j, l, ⟨hl, hcond⟩, heq⟩
    exact ⟨l, heq ▸ hl, hcond⟩
  · rintro ⟨l, hl, hcond⟩
    exact ⟨i, l, ⟨hl, hcond⟩, rfl⟩

theorem subscribers_nodup (s : State) (store : Option Nat) : (s.subscribers store).Nodup :=
  (List.filter_sublist.map _).nodup s.listeners.nodup

theorem slot_of_subscriber (h : Inv s)
    (hl : s.listeners.get? i = some l) (hstore : some l.store = s.stores.get? slot) :
    l.slot = slot := by
  obtain ⟨w, hw, hof⟩ := h.known i l hl
  rw [← hof.store] at hstore
  rw [← hof.slot]
  exact (h.owner _ w slot hw hstore.symm).symm

theorem logged_setStore (h : Inv s) (hlog : Logged s) {d : Dispatch}
    (hd : s.dispatching = some d) (slot : Slot)
    (hslot : d.topicSet = true → slot ≠ .topic d.topic) :
    (setStore s d slot).log.Nodup ∧
      (∀ x ∈ (setStore s d slot).log, x.1 < s.dispatched ∧ x.2 < s.nextListener) ∧
      ∀ x ∈ (setStore s d slot).owed, x ∈ (setStore s d slot).log := by
  obtain ⟨hnumber, hcalled⟩ := hlog.now d hd
  refine ⟨?_, fun x hx => ?_, fun x hx => ?_⟩
  · refine List.nodup_append.mpr ⟨hlog.nodup, ?_, fun x hx y hy heq => ?_⟩
    · exact (subscribers_nodup s _).map fun a b hab => by simpa using hab
    · obtain ⟨i, hi, rfl⟩ := List.mem_map.mp hy
      obtain ⟨l, hl, hstore⟩ := mem_subscribers.mp hi
      obtain ⟨hset, hold⟩ := hcalled x hx (by rw [heq])
      have hslot' := hold l (by rw [heq]; exact hl)
      exact hslot hset ((slot_of_subscriber h hl hstore).symm.trans hslot')
  · cases List.mem_append.mp hx with
    | inl hold => exact hlog.bound x hold
    | inr hnew =>
      obtain ⟨i, hi, rfl⟩ := List.mem_map.mp hnew
      obtain ⟨l, hl, -⟩ := mem_subscribers.mp hi
      exact ⟨hnumber, h.listenerBound i l hl⟩
  · refine List.mem_append.mpr ?_
    cases List.mem_append.mp hx with
    | inl hold => exact .inl (hlog.owed x hold)
    | inr hnew =>
      obtain ⟨i, hi, rfl⟩ := List.mem_map.mp hnew
      obtain ⟨l, hl, rfl, hfresh⟩ := mem_attached.mp hi
      have hcurrent := h.current i l hl hfresh
      exact .inr (List.mem_map.mpr ⟨i, mem_subscribers.mpr ⟨l, hl, hcurrent.symm⟩, rfl⟩)

/-! ## every run -/

/-- Whether a step uses no wrapper that a forced `unsubscribe` left behind: nothing is
attached to one that still has listeners, and the last listener of one is detached only
while the topic has no reference.  No topic has a NUL. -/
def careful (s : State) : Action → Bool
  | .subscribe topic | .unsubscribe topic | .onTopic topic | .onEvent topic _ =>
    decide ('\x00' ∉ topic.toList)
  | .attach id =>
    match s.wrappers.get? id with
    | none => true
    | some w => w.subs = 0 || w.since = s.forcedOff w.topic
  | .detach i =>
    match (s.listeners.get? i).bind fun l => s.wrappers.get? l.wrapper with
    | none => true
    | some w =>
      decide (1 < w.subs) || w.since = s.forcedOff w.topic ||
        (s.topicRefCounts.get? w.topic).isNone
  | _ => true

def Good (s : State) : Prop := Inv s ∧ Logged s

theorem good_init : Good .init := by
  constructor
  · constructor
    case refs =>
      intro topic
      exact Int.le_refl 0
    all_goals simp [State.init]
  · constructor
    all_goals simp [State.init]

theorem good_dispatch (h : Good s) (topic event : String) :
    Good { s with
      dispatching := some { number := s.dispatched, topic, event, topicSet := false }
      dispatched := s.dispatched + 1 } := by
  obtain ⟨h, hlog⟩ := h
  refine ⟨{ h with }, hlog.nodup, fun x hx => ?_, hlog.owed, fun d hd => ?_⟩
  · have hbound := hlog.bound x hx
    exact ⟨Nat.lt_succ_of_lt hbound.1, hbound.2⟩
  · cases hd
    refine ⟨Nat.lt_succ_self _, fun x hx heq => ?_⟩
    have hbound := (hlog.bound x hx).1
    have heq' : x.1 = s.dispatched := heq
    omega

theorem good_setNext (h : Good s) {d : Dispatch} (hd : s.dispatching = some d) :
    Good (if d.topicSet then
      { setStore s d (.event (eventKey d.topic d.event)) with dispatching := none }
    else { setStore s d (.topic d.topic) with dispatching := some { d with topicSet := true } }) := by
  obtain ⟨h, hlog⟩ := h
  split
  · obtain ⟨hnodup, hbound, howed⟩ := logged_setStore h hlog hd
      (.event (eventKey d.topic d.event)) (fun _ => by simp)
    exact ⟨{ h with }, hnodup, hbound, howed, fun d' hd' => by cases hd'⟩
  · next hset =>
    obtain ⟨hnodup, hbound, howed⟩ := logged_setStore h hlog hd _
      (fun hset' => absurd hset' hset)
    refine ⟨{ h with }, hnodup, hbound, howed, fun d' hd' => ?_⟩
    cases hd'
    obtain ⟨hnumber, hcalled⟩ := hlog.now d hd
    refine ⟨hnumber, fun x hx heq => ⟨rfl, fun l hl => ?_⟩⟩
    cases List.mem_append.mp hx with
    | inl hold => exact absurd (hcalled x hold heq).1 hset
    | inr hnew =>
      obtain ⟨i, hi, rfl⟩ := List.mem_map.mp hnew
      obtain ⟨k, hk, hstore⟩ := mem_subscribers.mp hi
      obtain rfl : k = l := by
        have hl' : s.listeners.get? i = some l := hl
        rw [hk] at hl'
        simpa using hl'
      exact slot_of_subscriber h hk hstore

theorem good_next {singleton : Bool} {s' : State} (h : Good s) {a : Action}
    (hok : careful s a = true) (hnext : next singleton s a = some s') : Good s' := by
  obtain ⟨hinv, hlog⟩ := h
  cases a with
  | subscribe topic =>
    cases hnext
    exact ⟨inv_subscribe hinv topic, hlog.of (silent_subscribe s topic)⟩
  | unsubscribe topic =>
    cases hnext
    exact ⟨inv_unsubscribe singleton hinv (by simpa [careful] using hok),
      hlog.of (.of_same rfl rfl rfl rfl rfl rfl)⟩
  | setTopicManaged topic =>
    cases hnext
    refine ⟨{ hinv with subscribed := fun t ht => ?_ }, hlog.of (.of_same rfl rfl rfl rfl rfl rfl)⟩
    have hold := hinv.subscribed t ht
    simp only [List.mem_cons]
    tauto
  | onTopic topic =>
    cases hnext
    exact ⟨inv_register hinv ⟨by simpa [careful] using hok, .inl rfl⟩,
      hlog.of (silent_register ..)⟩
  | onEvent topic event =>
    cases hnext
    exact ⟨inv_register hinv ⟨by simpa [careful] using hok, .inr ⟨event, rfl⟩⟩,
      hlog.of (silent_register ..)⟩
  | attach id =>
    obtain ⟨w, hw, rfl⟩ := Option.map_eq_some_iff.mp hnext
    exact ⟨inv_attach hinv hw (by simpa [careful, hw] using hok),
      hlog.of (silent_attach hinv id w)⟩
  | detach i =>
    simp only [next] at hnext
    split at hnext
    · contradiction
    rename_i l hl
    obtain ⟨w, hw, rfl⟩ := Option.map_eq_some_iff.mp hnext
    refine ⟨inv_detach singleton hinv hl hw fun hle => ?_, hlog.of (silent_detach ..)⟩
    have hok' : (1 < w.subs ∨ w.since = s.forcedOff w.topic) ∨
        s.topicRefCounts.get? w.topic = none := by
      simpa [careful, hl, hw] using hok
    rcases hok' with (hlt | hsince) | hnone
    · omega
    · exact .inl hsince
    · exact .inr hnone
  | cleanup id ownStore =>
    simp only [next] at hnext
    split at hnext
    · obtain ⟨w, hw, rfl⟩ := Option.map_eq_some_iff.mp hnext
      have hinv' : Inv { s with cleanups := s.cleanups.erase (id, ownStore) } := { hinv with }
      have hlog' : Logged { s with cleanups := s.cleanups.erase (id, ownStore) } :=
        hlog.of (.of_same rfl rfl rfl rfl rfl rfl)
      exact ⟨inv_cleanup hinv' hw ownStore, hlog'.of (silent_cleanup ..)⟩
    · contradiction
  | dispatch topic event =>
    simp only [next] at hnext
    split at hnext
    · contradiction
    · cases hnext
      exact good_dispatch ⟨hinv, hlog⟩ topic event
  | setNext =>
    simp only [next] at hnext
    split at hnext
    · contradiction
    rename_i d hd
    have hgood := good_setNext ⟨hinv, hlog⟩ hd
    split at hnext
    · next hset =>
      cases hnext
      simpa [hset] using hgood
    · next hset =>
      cases hnext
      simpa [hset] using hgood

/-- The listeners of one state keep their topics: a fresh one has its topic's references,
subscription and store, and was called once for each event it was attached for. -/
structure Kept (s : State) : Prop where
  subscribed : ∀ i l, s.listeners.get? i = some l → s.fresh l = true →
    s.topicRefCounts.get? l.topic ≠ none ∧
      (l.topic ∈ s.subscribedTopics ∨ isTap l.topic = true ∨ l.topic ∈ s.managedTopics)
  heard : ∀ i l, s.listeners.get? i = some l → s.fresh l = true →
    s.stores.get? l.slot = some l.store
  once : ∀ x ∈ s.owed, s.log.count x = 1

/-- **A listener keeps its topic**, in every run without a wrapper that a forced
`unsubscribe` left behind. -/
theorem kept (singleton : Bool) {as : List Action} {s : State}
    (h : (machine singleton).Runs (fun s a => careful s a = true) as s) : Kept s := by
  obtain ⟨hinv, hlog⟩ : Good s :=
    Runs.invariant good_init
      (fun _ _ _ hgood hok hnext => good_next hgood hok hnext) h
  refine ⟨fun i l hl hfresh => ?_, hinv.current, fun x hx => ?_⟩
  · have hrefs : s.topicRefCounts.get? l.topic ≠ none := by
      intro hnone
      have hpos := live_pos hinv hl hfresh
      have hle := hinv.refs l.topic
      have hzero : s.refs l.topic = 0 := by simp [State.refs, hnone]
      omega
    exact ⟨hrefs, hinv.subscribed l.topic hrefs⟩
  · exact List.count_eq_one_of_mem hlog.nodup (hlog.owed x hx)

/-- A forced `unsubscribe` between two attached listeners, the first of which is detached
while the topic has no reference; then an event. -/
theorem kept_resubscribed : ∃ as s, (machine true).Runs (fun s a => careful s a = true) as s ∧
    Kept s ∧ s.owed = [(0, 1)] ∧ s.log = [(0, 1)] := by
  obtain ⟨s, hs⟩ : ∃ s, (machine true).execIf careful (machine true).init
      [.onTopic "t", .attach 0, .unsubscribe "t", .detach 0, .onEvent "t" "e", .attach 1,
        .dispatch "t" "e", .setNext, .setNext] = some s := ⟨_, rfl⟩
  have hrun := runs_of_execIf (fun _ _ hok => hok) hs
  refine ⟨_, s, hrun, kept true hrun, ?_⟩
  cases hs
  decide +kernel

/-- The first listener is detached when the second is attached already: the topic is
unsubscribed, and the second is not called. -/
theorem stale_detach_cancels : ∃ as s, (machine true).Runs Any as s ∧ ¬ Kept s ∧
    s.topicRefCounts.get? "t" = none ∧ s.owed = [(0, 1)] ∧ s.log = [] := by
  obtain ⟨s, hs⟩ : ∃ s, (machine true).exec (machine true).init
      [.onTopic "t", .attach 0, .unsubscribe "t", .onTopic "t", .attach 1, .detach 0,
        .dispatch "t" "e", .setNext] = some s := ⟨_, rfl⟩
  have hrun := runs_of_exec hs
  have hseen : s.topicRefCounts.get? "t" = none ∧ s.owed = [(0, 1)] ∧ s.log = [] := by
    cases hs
    decide +kernel
  refine ⟨_, s, hrun, fun hkept => ?_, hseen⟩
  have hcount := hkept.once (0, 1) (by simp [hseen.2.1])
  simp [hseen.2.2] at hcount

end BunServe.Listeners
