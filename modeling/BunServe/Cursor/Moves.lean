import BunServe.Cursor.Invariant

/-!
# BunServe.Cursor.Moves

An update, a timer and a tick keep the invariant.

* `Handled` — the pending timers of a cursor are those that its entry has a handle of;
* `mem_flushDirty` — a flush is of the keys that are dirty;
* `Inv.update`, `Inv.fire`, `Inv.tick` — the three calls.
-/

namespace BunServe.Cursor

variable {N U D R B C : Type} {o : Options N D R B C} {owed : String → Key → Prop}
  {s s' : State N U D R} {ws : Conn} {topic t : String} {key k : Key} {map : Nat}

/-! ## entries -/

/-- The pending timers of a cursor have their handles in this entry. -/
def Handled (s : State N U D R) (topic : String) (key : Key) (e : Entry N U D) : Prop :=
  ∀ id τ, s.timers.get? id = some τ → τ.topic = topic → τ.key = key → e.handle τ.kind = some id

variable {e : Entry N U D}

theorem Inv.handled (h : Inv owed s) (hentry : ∀ old, s.entry topic key = some old → e = old) :
    Handled s topic key e := by
  rintro id τ hget rfl rfl
  obtain ⟨old, hold, hid⟩ := h.timer_entry hget
  rw [hentry old hold]
  exact hid

theorem Inv.weaken (h : Inv nothing s) : Inv owed s :=
  { h with shown := fun topic key hstanding => (h.shown topic key hstanding).imp_right False.elim }

theorem Inv.not_gone_of_holds (h : Inv owed s) (hholds : Holds s topic key) : ¬ Gone key s.log := by
  obtain ⟨ws, state, hget, rfl, -⟩ := hholds
  exact (h.held ws state hget).2.2

theorem Inv.not_gone_of_entry (h : Inv owed s) (hsome : (s.entry topic key).isSome) : ¬ Gone key s.log := by
  intro hgone
  rw [(h.gone key hgone).2 topic] at hsome
  cases hsome

theorem Inv.fewerTimers {timers : JsMap Nat Timer} (h : Inv owed s)
    (hfewer : ∀ id τ, timers.get? id = some τ → s.timers.get? id = some τ) :
    Inv owed { s with timers := timers } :=
  ⟨fun id τ hget => h.timers id τ (hfewer id τ hget), h.dirty, h.owned, h.held, h.keys, h.evicted, h.gone,
    h.shown, h.silent⟩

theorem Inv.write {timers : JsMap Nat Timer} {timerCounter : Nat} (h : Inv owed s)
    (htopic : s.topics.get? topic = some map) (hholds : Holds s topic key ∨ (s.entry topic key).isSome)
    (howed : ∀ t k, owed t k → t = topic ∧ k = key)
    (htimers : ∀ id τ, timers.get? id = some τ →
      τ.topic = topic ∧ τ.map = map ∧ τ.key = key ∧ e.handle τ.kind = some id ∨
      ¬ (τ.topic = topic ∧ τ.key = key) ∧ s.timers.get? id = some τ) :
    Inv nothing { s with
      maps := Function.update s.maps (topic, map) ((s.maps (topic, map)).set key e)
      timers
      timerCounter } := by
  have hmaps : ∀ p, Function.update s.maps (topic, map) ((s.maps (topic, map)).set key e) p =
      if p = (topic, map) then (s.maps (topic, map)).set key e else s.maps p :=
    fun p => Function.update_apply _ _ _ _
  have hentry : ∀ t k, State.entry { s with
      maps := Function.update s.maps (topic, map) ((s.maps (topic, map)).set key e)
      timers
      timerCounter } t k = if t = topic ∧ k = key then some e else s.entry t k := by
    intro t k
    unfold State.entry
    simp only [hmaps]
    by_cases ht : t = topic
    · subst ht
      rw [htopic, Option.bind_some, if_pos rfl, JsMap.get?_set]
      simp
    · rw [if_neg fun hand => ht hand.1]
      have hne : ∀ m, (t, m) ≠ (topic, map) := fun m heq => ht (Prod.ext_iff.1 heq).1
      simp only [hne, if_false]
  have hngone : ¬ Gone key s.log := by
    rcases hholds with hholds | hsome
    · exact h.not_gone_of_holds hholds
    · exact h.not_gone_of_entry hsome
  refine ⟨fun id τ hget => ?_, fun t flush k hget hsome => ?_, fun t k hsome => ?_, h.held, h.keys, h.evicted,
    fun k hkey => ⟨(h.gone k hkey).1, fun t => ?_⟩, fun t k hstanding => ?_, h.silent⟩
  · rcases htimers id τ hget with ⟨rfl, rfl, rfl, hid⟩ | ⟨hne, hold⟩
    · refine ⟨htopic, e, ?_, hid⟩
      simp only [hmaps, if_true, JsMap.get?_set_self]
    obtain ⟨hmap, old, hget', hid⟩ := h.timers id τ hold
    refine ⟨hmap, old, ?_, hid⟩
    simp only [hmaps]
    split
    · next heq =>
      obtain ⟨ht, hm⟩ := Prod.ext_iff.1 heq
      simp only at ht hm
      rw [JsMap.get?_set_ne _ _ fun hk => hne ⟨ht, hk⟩, ← ht, ← hm]
      exact hget'
    · exact hget'
  · rw [hentry]
    split
    · rfl
    · exact h.dirty t flush k hget hsome
  · rw [hentry] at hsome
    split at hsome
    · next heq =>
      obtain ⟨rfl, rfl⟩ := heq
      rcases hholds with hholds | hold
      · exact .inl hholds
      · exact h.owned t k hold
    · exact h.owned t k hsome
  · have hne : ¬ (t = topic ∧ k = key) := fun hand => hngone (hand.2 ▸ hkey)
    rw [hentry, if_neg hne]
    exact (h.gone k hkey).2 t
  · rw [hentry]
    split
    · exact .inl rfl
    · next hne => exact .inl ((h.shown t k hstanding).resolve_right fun howes => hne (howed t k howes))

theorem Inv.setEntry (h : Inv owed s) (htopic : s.topics.get? topic = some map)
    (hholds : Holds s topic key ∨ (s.entry topic key).isSome)
    (howed : ∀ t k, owed t k → t = topic ∧ k = key) (hhandled : Handled s topic key e) :
    Inv nothing (setEntry s topic map key e) := by
  refine h.write htopic hholds howed fun id τ hget => ?_
  by_cases hsame : τ.topic = topic ∧ τ.key = key
  · have hmap := (h.timers id τ hget).1
    rw [hsame.1] at hmap
    cases htopic.symm.trans hmap
    exact .inl ⟨hsame.1, rfl, hsame.2, hhandled id τ hget hsame.1 hsame.2⟩
  · exact .inr ⟨hsame, hget⟩

theorem Inv.setTimer {e₀ : Entry N U D} {e : Nat → Entry N U D} {timer : Timer} (h : Inv owed s)
    (htopic : s.topics.get? timer.topic = some timer.map)
    (hholds : Holds s timer.topic timer.key ∨ (s.entry timer.topic timer.key).isSome)
    (howed : ∀ t k, owed t k → t = timer.topic ∧ k = timer.key)
    (hhandled : Handled s timer.topic timer.key e₀) (hnone : e₀.handle timer.kind = none)
    (hnew : ∀ handle, (e handle).handle timer.kind = some handle)
    (hold : ∀ handle kind, kind ≠ timer.kind → (e handle).handle kind = e₀.handle kind) :
    Inv nothing (setTimer s timer e) := by
  refine h.write
    htopic hholds howed fun id τ hget => ?_
  obtain ⟨hid, rfl⟩ | ⟨-, hget⟩ := JsMap.of_get?_set hget
  · exact .inl ⟨rfl, rfl, rfl, hid ▸ hnew _⟩
  · by_cases hsame : τ.topic = timer.topic ∧ τ.key = timer.key
    · have hhandle := hhandled id τ hget hsame.1 hsame.2
      have hmap := (h.timers id τ hget).1
      rw [hsame.1] at hmap
      have hkind : τ.kind ≠ timer.kind := by
        intro heq
        rw [heq, hnone] at hhandle
        cases hhandle
      refine .inl ⟨hsame.1, ?_, hsame.2, (hold _ _ hkind).trans hhandle⟩
      exact Option.some.inj (hmap.symm.trans htopic)
    · exact .inr ⟨hsame, hget⟩

theorem stored_setEntry (h : s.topics.get? topic = some map) :
    ((setEntry s topic map key e).entry topic key).isSome := by
  unfold Cursor.setEntry State.entry
  simp [h]

theorem get?_clearTimer {handle : Option Nat} {id : Nat} {τ : Timer}
    (h : (clearTimer s handle).timers.get? id = some τ) : s.timers.get? id = some τ ∧ handle ≠ some id := by
  have hget : (handle.toList.foldl JsMap.delete s.timers).get? id = some τ := h
  rw [JsMap.get?_foldl_delete] at hget
  split at hget
  · cases hget
  · next hnot => exact ⟨hget, fun heq => hnot (by simp [heq])⟩

theorem Inv.clearTimer {handle : Option Nat} (h : Inv owed s) : Inv owed (clearTimer s handle) :=
  h.fewerTimers fun _ _ hget => (get?_clearTimer hget).1

theorem Handled.dropSettle (h : Handled s topic key e) :
    Handled (Cursor.clearTimer s e.settleTimer) topic key { e with settleTimer := none } := by
  intro id τ hget htopic hkey
  obtain ⟨hold, hne⟩ := get?_clearTimer hget
  have hid := h id τ hold htopic hkey
  cases hkind : τ.kind with
  | trailing =>
    rw [hkind] at hid
    exact hid
  | settle =>
    rw [hkind] at hid
    exact absurd hid hne

theorem Handled.dropTimer (h : Handled s topic key e) :
    Handled (Cursor.clearTimer s e.timer) topic key { e with timer := none } := by
  intro id τ hget htopic hkey
  obtain ⟨hold, hne⟩ := get?_clearTimer hget
  have hid := h id τ hold htopic hkey
  cases hkind : τ.kind with
  | trailing =>
    rw [hkind] at hid
    exact absurd hid hne
  | settle =>
    rw [hkind] at hid
    exact hid

theorem Handled.congr {e' : Entry N U D} (h : Handled s topic key e) (htimer : e'.timer = e.timer)
    (hsettle : e'.settleTimer = e.settleTimer) : Handled s topic key e' := by
  intro id τ hget htopic hkey
  have hid := h id τ hget htopic hkey
  cases hkind : τ.kind with
  | trailing =>
    rw [hkind] at hid
    exact htimer.trans hid
  | settle =>
    rw [hkind] at hid
    exact hsettle.trans hid

/-! ## flushes -/

section

variable [DecidableEq C]

def About (topic : String) (keys : List Key) (item : Item U D) : Prop :=
  item.Frame ∧ (∀ t k, item.Shows t k → t = topic ∧ k ∈ keys) ∧ ∀ k, item.Carries k → k ∈ keys

variable {data : D}

theorem about_update {keys : List Key} (h : key ∈ keys) :
    About topic keys (.published topic (.update key data) : Item U D) :=
  ⟨trivial, fun _ _ hshow => ⟨hshow.1.symm, hshow.2 ▸ h⟩, fun _ hcarries => hcarries ▸ h⟩

theorem mem_sliceFor {items : List (Key × D)} {item : Key × D} (h : item ∈ sliceFor o s topic items ws) :
    item ∈ items := by
  unfold sliceFor at h
  split at h
  · split at h
    · exact h
    split at h
    · unfold cullIndexed at h
      simp only at h
      split at h
      · exact h
      · rcases List.mem_append.1 h with hnone | hcell
        · exact (List.mem_filter.1 hnone).1
        · obtain ⟨cell, -, hmem⟩ := List.mem_flatMap.1 hcell
          exact (List.mem_filter.1 hmem).1
    · exact (List.mem_filter.1 h).1
  · exact h

variable {subs : List (Conn × Nat)}

theorem mem_deliverFlush {items : List (Key × D)} {item : Item U D}
    (h : item ∈ deliverFlush o s topic items subs) : About topic (items.map Prod.fst) item := by
  obtain ⟨⟨ws, buffered⟩, -, hmem⟩ := List.mem_flatMap.1 h
  simp only at hmem
  split at hmem
  · cases hmem
  have hslice : ∀ x ∈ sliceFor o s topic items ws, x.1 ∈ items.map Prod.fst :=
    fun x hx => List.mem_map_of_mem (mem_sliceFor hx)
  generalize sliceFor o s topic items ws = slice at *
  split at hmem
  · cases hmem
  · next key data =>
    cases List.mem_singleton.1 hmem
    have hkey := hslice (key, data) List.mem_cons_self
    exact ⟨trivial, fun _ _ hshow => ⟨hshow.1.symm, hshow.2 ▸ hkey⟩, fun _ hcarries => hcarries ▸ hkey⟩
  · cases List.mem_singleton.1 hmem
    have hkeys : ∀ k, k ∈ slice.map Prod.fst → k ∈ items.map Prod.fst := by
      intro k hk
      obtain ⟨x, hx, rfl⟩ := List.mem_map.1 hk
      exact hslice x hx
    exact ⟨trivial, fun _ _ hshow => ⟨hshow.1.symm, hkeys _ hshow.2⟩, fun _ hcarries => hkeys _ hcarries⟩

theorem mem_legacyEmit {items : List (Key × D)} {item : Item U D} (h : item ∈ legacyEmit topic items) :
    About topic (items.map Prod.fst) item := by
  unfold legacyEmit at h
  split at h
  · cases List.mem_singleton.1 h
    exact about_update List.mem_cons_self
  · cases List.mem_singleton.1 h
    exact ⟨trivial, fun _ _ hshow => ⟨hshow.1.symm, hshow.2⟩, fun _ hcarries => hcarries⟩

theorem mem_flushDirty {dirty : List (Key × D)} {item : Item U D}
    (h : item ∈ flushDirty o s topic dirty subs) : About topic (dirty.map Prod.fst) item := by
  obtain ⟨-, h⟩ := by simpa [flushDirty] using h
  split at h
  · exact mem_deliverFlush h
  · exact mem_legacyEmit h

theorem Inv.about {keys : List Key} (h : Inv nothing s) (items : List (Item U D))
    (hstored : ∀ k ∈ keys, (s.entry topic k).isSome) (habout : ∀ i ∈ items, About topic keys i) :
    Inv nothing { s with log := items ++ s.log } := by
  refine h.frames items (fun i hi => (habout i hi).1) (fun i hi t k hshow => .inl ?_)
    fun i hi k hcarries => ⟨topic, hstored k ((habout i hi).2.2 k hcarries)⟩
  obtain ⟨rfl, hk⟩ := (habout i hi).2.1 t k hshow
  exact hstored k hk

variable [Number N]

variable {now : N}

theorem Inv.broadcast (h : Inv nothing s)
    (hstored : (s.entry topic key).isSome) : Inv nothing (broadcast o s topic key data now subs) := by
  have hkeys : ∀ k ∈ [key], (s.entry topic k).isSome := by
    intro k hk
    cases List.mem_singleton.1 hk
    exact hstored
  unfold Cursor.broadcast
  split
  · split
    · refine h.about _ hkeys fun i hi => ?_
      exact mem_deliverFlush (List.mem_reverse.1 hi)
    · refine h.about [.published topic (.update key data)] hkeys fun i hi => ?_
      cases List.mem_singleton.1 hi
      exact about_update List.mem_cons_self
  · refine ⟨h.timers, fun t flush k hget hsome => ?_, h.owned, h.held, h.keys, h.evicted, h.gone, h.shown,
      h.silent⟩
    simp only [JsMap.get?_set] at hget
    split at hget
    · next ht =>
      subst ht
      cases hget
      simp only [JsMap.get?_set] at hsome
      split at hsome
      · next hk =>
        cases hk
        exact hstored
      · cases hold : s.topicFlush.get? t with
        | none => simp [hold] at hsome
        | some flush =>
          rw [hold] at hsome
          exact h.dirty t flush k hold hsome
    · exact h.dirty t flush k hget hsome

theorem Inv.tickTopic {subs : String → List (Conn × Nat)} (h : Inv nothing s) (topic : String) :
    Inv nothing (tickTopic o now subs s topic) := by
  unfold Cursor.tickTopic
  split
  · exact h.of_eq rfl rfl rfl rfl rfl rfl rfl
  rename_i flush hflush
  split
  · exact h.of_eq rfl rfl rfl rfl rfl rfl rfl
  simp only
  split
  · have hframes := h.about
      (flushDirty o s topic flush.dirty.entries (subs topic)).reverse
      (fun k hk => ?_) fun i hi => mem_flushDirty (List.mem_reverse.1 hi)
    · refine ⟨hframes.timers, fun t flush' k hget hsome => ?_, hframes.owned, hframes.held, hframes.keys,
        hframes.evicted, hframes.gone, hframes.shown, hframes.silent⟩
      obtain ⟨-, rfl⟩ | ⟨-, hget⟩ := JsMap.of_get?_set hget
      · cases hsome
      · exact h.dirty t flush' k hget hsome
    · obtain ⟨d, hd⟩ := JsMap.mem_keys_iff.1 hk
      exact h.dirty topic flush k hflush (by rw [hd]; rfl)
  · exact h

theorem Inv.tick {subs : String → List (Conn × Nat)} (h : Inv nothing s) :
    Inv nothing (tick o s now subs) := by
  have hfold : ∀ topics : List String, ∀ s : State N U D R, Inv nothing s →
      Inv nothing (topics.foldl (Cursor.tickTopic o now subs) s) := by
    intro topics
    induction topics with
    | nil => exact fun _ => id
    | cons topic topics ih => exact fun s h => ih _ (h.tickTopic topic)
  have hticked := hfold s.dirtyTopics.keys { s with tickTimer := false } (h.of_eq rfl rfl rfl rfl rfl rfl rfl)
  exact hticked.of_eq rfl rfl rfl rfl rfl rfl rfl

/-! ## moves -/

theorem Inv.move {state : WsState U}
    (h : Inv owed s) (htopic : s.topics.get? topic = some map) (hholds : Holds s topic state.key)
    (howed : ∀ t k, owed t k → t = topic ∧ k = state.key) (hhandled : Handled s topic state.key e) :
    Inv nothing (move o s topic map state data e now subs) := by
  unfold Cursor.move
  -- what the jitter filter does before it looks
  have hbefore : ∃ s₁ e₁, (if o.minMove > 0 then Cursor.clearTimer s e.settleTimer else s) = s₁ ∧
      (if o.minMove > 0 then { e with settleTimer := none } else e) = e₁ ∧ Inv owed s₁ ∧
      s₁.topics = s.topics ∧ s₁.wsState = s.wsState ∧ Handled s₁ topic state.key e₁ ∧
      (o.minMove > 0 → e₁.settleTimer = none) := by
    split
    · exact ⟨_, _, rfl, rfl, h.clearTimer, rfl, rfl, hhandled.dropSettle, fun _ => rfl⟩
    · next hnot => exact ⟨_, _, rfl, rfl, h, rfl, rfl, hhandled, fun hpos => absurd hpos hnot⟩
  obtain ⟨s₁, e₁, hs₁, he₁, h₁, htopics₁, hws₁, hhandled₁, hsettle₁⟩ := hbefore
  rw [hs₁, he₁]
  generalize hpos : (if o.minMove > 0 then o.finitePosition data else none) = pos
  have htopic₁ : s₁.topics.get? topic = some map := by rw [htopics₁, htopic]
  have hholds₁ : Holds s₁ topic state.key := by
    unfold Holds
    rw [hws₁]
    exact hholds
  simp only
  split
  · next hjitters =>
    have hfilters : o.minMove > 0 := by
      by_contra hnot
      rw [← hpos, if_neg hnot] at hjitters
      cases hjitters
    split
    · refine h₁.setTimer
        htopic₁ (.inl hholds₁) howed (hhandled₁.congr rfl rfl) (hsettle₁ hfilters)
        (fun _ => rfl) fun handle kind hne => ?_
      cases kind with
      | trailing => rfl
      | settle => exact absurd rfl hne
    · exact h₁.setEntry htopic₁ (.inl hholds₁) howed (hhandled₁.congr rfl rfl)
  · split
    · have hset := h₁.clearTimer |>.setEntry (e := { e₁ with
          data
          user := state.user
          timer := none
          lastBroadcast := now
          lastSentPos := pos.or e₁.lastSentPos }) htopic₁ (.inl hholds₁) howed
        (hhandled₁.dropTimer.congr rfl rfl)
      exact hset.broadcast (stored_setEntry htopic₁)
    · split
      · next hnone =>
        refine h₁.setTimer
          htopic₁ (.inl hholds₁) howed (hhandled₁.congr rfl rfl)
          (Option.isNone_iff_eq_none.1 hnone) (fun _ => rfl) fun handle kind hne => ?_
        cases kind with
        | trailing => exact absurd rfl hne
        | settle => rfl
      · exact h₁.setEntry htopic₁ (.inl hholds₁) howed (hhandled₁.congr rfl rfl)

theorem Inv.update {user : U} (h : Inv nothing s) :
    Inv nothing (update o s ws topic data user now subs) := by
  unfold Cursor.update
  split
  · simp only
    have hget := wsState_getWsState (o := o) (s := s) ws user
    have hconn := (h.getWsState (o := o) user ws).addTopic hget topic
    generalize Cursor.getWsState o s ws user = r at *
    generalize hstate : ({ r.1 with topics := r.1.topics.set topic () } : WsState U) = state at *
    have hkey : r.1.key = state.key := by rw [← hstate]
    have huser : r.1.user = state.user := by rw [← hstate]
    rw [hkey, huser]
    have hopen := hconn.openTopic (o := o) topic
    obtain ⟨map, htopic⟩ := topics_openTopic
    have hholds : Holds (Cursor.openTopic o { r.2 with wsState := r.2.wsState.set ws state } topic) topic
        state.key := by
      refine ⟨ws, state, ?_, rfl, ?_⟩
      · rw [wsState_openTopic]
        exact JsMap.get?_set_self _ _ _
      · rw [← hstate]
        simp [JsMap.has]
    generalize Cursor.openTopic o { r.2 with wsState := r.2.wsState.set ws state } topic = s₁ at *
    -- the key is announced before its cursor is stored
    have hjoined : ∃ s₂, (if (!r.1.topics.has topic) = true then
          emit (emitTo s₁ ws topic (.you state.key)) topic (.join state.key state.user) else s₁) = s₂ ∧
        Inv (fun t k => t = topic ∧ k = state.key) s₂ ∧ s₂.topics = s₁.topics ∧ s₂.wsState = s₁.wsState ∧
        s₂.maps = s₁.maps ∧ s₂.timers = s₁.timers := by
      have hngone := hopen.not_gone_of_holds hholds
      split
      · refine ⟨_, rfl, ?_, rfl, rfl, rfl, rfl⟩
        have howing : Inv (fun t k => t = topic ∧ k = state.key) s₁ := hopen.weaken
        have hyou := howing.frame
          (.sent ws topic (.you state.key)) trivial (fun t k hshow => hshow.2.elim) fun k hcarries => by
            cases hcarries
            exact hngone
        refine hyou.frame (.published topic (.join state.key state.user)) trivial
          (fun t k hshow => .inr ⟨hshow.1.symm, hshow.2.symm⟩) fun k hcarries => ?_
        cases hcarries
        exact fun hgone => hngone ((sinceClear_cons (by simp) (by simp)).1 hgone)
      · exact ⟨_, rfl, hopen.weaken, rfl, rfl, rfl, rfl⟩
    obtain ⟨s₂, hs₂, h₂, htopics₂, hws₂, hmaps₂, htimers₂⟩ := hjoined
    rw [hs₂]
    have htopic₂ : s₂.topics.get? topic = some map := by rw [htopics₂, htopic]
    rw [htopic₂]
    refine h₂.move htopic₂ ?_ (fun _ _ => id) (h₂.handled fun old hold => ?_)
    · unfold Holds
      rw [hws₂]
      exact hholds
    · rw [entry_eq htopic₂] at hold
      rw [hold, Option.getD_some]
  · exact h

theorem Inv.fire {id : Nat} {τ : Timer} (h : Inv nothing s) (hget : s.timers.get? id = some τ) :
    Inv nothing (fire o { s with timers := s.timers.delete id } τ now subs) := by
  obtain ⟨htopic, e, he, hid⟩ := h.timers id τ hget
  have hdelete : ∀ id' τ', (s.timers.delete id).get? id' = some τ' →
      id' ≠ id ∧ s.timers.get? id' = some τ' := by
    intro id' τ' heq
    obtain ⟨hne, heq⟩ := JsMap.of_get?_delete heq
    exact ⟨hne, heq⟩
  have h₁ := h.fewerTimers fun id' τ' heq => (hdelete id' τ' heq).2
  have hentry : s.entry τ.topic τ.key = some e := (entry_eq htopic).trans he
  have hhandled : Handled s τ.topic τ.key e := h.handled fun old hold => by
    rw [hentry] at hold
    exact Option.some.inj hold
  have hsome : (State.entry { s with timers := s.timers.delete id } τ.topic τ.key).isSome := by
    rw [show State.entry { s with timers := s.timers.delete id } τ.topic τ.key = s.entry τ.topic τ.key
      from rfl, hentry]
    rfl
  unfold Cursor.fire
  simp only [he]
  split
  · next hkind =>
    rw [hkind] at hid
    have hdropped : Handled { s with timers := s.timers.delete id } τ.topic τ.key
        { e with settleTimer := none } := by
      intro id' τ' heq ht hk
      obtain ⟨hne, hold⟩ := hdelete id' τ' heq
      have hid' := hhandled id' τ' hold ht hk
      cases hkind' : τ'.kind with
      | trailing =>
        rw [hkind'] at hid'
        exact hid'
      | settle =>
        rw [hkind'] at hid'
        exact absurd (Option.some.inj (hid'.symm.trans hid)) hne
    split
    · exact h₁.setEntry htopic (.inr hsome) (fun _ _ => False.elim) hdropped
    rename_i p _
    split
    · have hset := h₁.setEntry (e := { e with
          settleTimer := none
          lastBroadcast := now
          lastSentPos := some p }) htopic (.inr hsome) (fun _ _ => False.elim) (hdropped.congr rfl rfl)
      exact hset.broadcast (stored_setEntry htopic)
    · exact h₁.setEntry htopic (.inr hsome) (fun _ _ => False.elim) hdropped
  · next hkind =>
    rw [hkind] at hid
    have hdropped : Handled { s with timers := s.timers.delete id } τ.topic τ.key
        { e with timer := none } := by
      intro id' τ' heq ht hk
      obtain ⟨hne, hold⟩ := hdelete id' τ' heq
      have hid' := hhandled id' τ' hold ht hk
      cases hkind' : τ'.kind with
      | trailing =>
        rw [hkind'] at hid'
        exact absurd (Option.some.inj (hid'.symm.trans hid)) hne
      | settle =>
        rw [hkind'] at hid'
        exact hid'
    have hset := h₁.setEntry (e := { e with
        timer := none
        lastBroadcast := now
        lastSentPos := if o.minMove > 0 then (o.finitePosition e.data).or e.lastSentPos else e.lastSentPos })
      htopic (.inr hsome) (fun _ _ => False.elim) (hdropped.congr rfl rfl)
    exact hset.broadcast (stored_setEntry htopic)

end

end BunServe.Cursor
