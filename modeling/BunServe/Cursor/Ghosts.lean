import BunServe.Cursor.Moves

/-!
# BunServe.Cursor.Ghosts

No cursor outlives its connection, but where the tracker makes room.

* `Inv.removeFrom` — a cursor that is removed takes its timers and marks with it;
* `no_ghosts` — what is stored is that of a connection which is held or made room, a
  remove tells every topic that still shows the key, and the key is not named again;
* `evicted_ghost` — a connection, a topic and all of them go without a remove.
-/

namespace BunServe.Cursor

variable {N U D R B C : Type} {o : Options N D R B C} {owed : String → Key → Prop}
  {s s' : State N U D R} {ws : Conn} {topic t : String} {key k : Key} {map : Nat}

/-! ## removing -/

theorem Inv.drop (h : Inv nothing s) (hngone : ¬ Gone key s.log)
    (hentry : ∀ t k, s'.entry t k = if t = topic ∧ k = key then none else s.entry t k)
    (htimers : ∀ id τ, s'.timers.get? id = some τ →
      s.timers.get? id = some τ ∧ ¬ (τ.topic = topic ∧ τ.key = key))
    (hmaps : ∀ t m k e, s.topics.get? t = some m → ¬ (t = topic ∧ k = key) →
      (s.maps (t, m)).get? k = some e → s'.topics.get? t = some m ∧ (s'.maps (t, m)).get? k = some e)
    (hdirty : ∀ t flush k, s'.topicFlush.get? t = some flush → (flush.dirty.get? k).isSome →
      ¬ (t = topic ∧ k = key) ∧ (s.entry t k).isSome)
    (hwsState : s'.wsState = s.wsState) (hcounter : s'.connCounter = s.connCounter)
    (hlog : s'.log = .published topic (.remove key) :: s.log) : Inv nothing s' := by
  have hev : ∀ k, Evicted k s'.log ↔ Evicted k s.log := fun k => by
    rw [hlog]
    exact sinceClear_cons (by simp) (by simp)
  have hgone : ∀ k, Gone k s'.log ↔ Gone k s.log := fun k => by
    rw [hlog]
    exact sinceClear_cons (by simp) (by simp)
  constructor
  · intro id τ hget
    obtain ⟨hold, hne⟩ := htimers id τ hget
    obtain ⟨hmap, e, he, hid⟩ := h.timers id τ hold
    obtain ⟨hmap', he'⟩ := hmaps _ _ _ e hmap hne he
    exact ⟨hmap', e, he', hid⟩
  · intro t flush k hget hsome
    obtain ⟨hne, hold⟩ := hdirty t flush k hget hsome
    rw [hentry, if_neg hne]
    exact hold
  · intro t k hsome
    rw [hentry] at hsome
    split at hsome
    · cases hsome
    · rw [hev]
      unfold Holds
      rw [hwsState]
      exact h.owned t k hsome
  · intro ws state hget
    rw [hwsState] at hget
    rw [hev, hgone, hcounter]
    exact h.held ws state hget
  · rw [hwsState]
    exact h.keys
  · intro k hk
    rw [hcounter]
    exact h.evicted k ((hev k).1 hk)
  · intro k hk
    obtain ⟨hle, hnone⟩ := h.gone k ((hgone k).1 hk)
    rw [hcounter]
    refine ⟨hle, fun t => ?_⟩
    rw [hentry, hnone, ite_self]
  · intro t k hstanding
    rw [hlog] at hstanding
    rcases hstanding with hshow | ⟨hends, hrest⟩
    · exact hshow.2.elim
    · rw [hentry, if_neg fun hand => hends ⟨hand.1.symm, hand.2.symm⟩]
      exact h.shown t k hrest
  · rw [hlog]
    refine h.silent.cons fun k hcarries => ?_
    cases hcarries
    exact hngone

theorem removeFrom_none (h : s.entry topic key = none) : removeFrom key s topic = s := by
  unfold removeFrom
  split
  · rfl
  · next map htopic =>
    rw [entry_eq htopic] at h
    simp only [h]

theorem removeFrom_some {e : Entry N U D} (h : Inv nothing s) (hngone : ¬ Gone key s.log)
    (he : s.entry topic key = some e) :
    Inv nothing (removeFrom key s topic) ∧ (removeFrom key s topic).wsState = s.wsState ∧
    (∀ t k, (removeFrom key s topic).entry t k = if t = topic ∧ k = key then none else s.entry t k) ∧
    (removeFrom key s topic).log = .published topic (.remove key) :: s.log := by
  obtain ⟨map, htopic, hget⟩ := Option.bind_eq_some_iff.1 he
  -- the timers of the entry are gone
  have htimers : ∀ id τ, (clearTimers s.timers [e]).get? id = some τ →
      s.timers.get? id = some τ ∧ ¬ (τ.topic = topic ∧ τ.key = key) := by
    intro id τ heq
    rw [get?_clearTimers] at heq
    obtain ⟨hnot, heq⟩ := Option.ite_none_left_eq_some.mp heq
    refine ⟨heq, ?_⟩
    rintro ⟨rfl, rfl⟩
    obtain ⟨e', he', hid⟩ := h.timer_entry heq
    cases he.symm.trans he'
    exact hnot (by simpa using mem_handles hid)
  have hupdate : ∀ p, Function.update s.maps (topic, map) ((s.maps (topic, map)).delete key) p =
      if p = (topic, map) then (s.maps (topic, map)).delete key else s.maps p :=
    fun p => Function.update_apply _ _ _ _
  have hother : ∀ t m k e, ¬ (t = topic ∧ k = key) → (s.maps (t, m)).get? k = some e →
      (Function.update s.maps (topic, map) ((s.maps (topic, map)).delete key) (t, m)).get? k = some e := by
    intro t m k e hne hget
    rw [hupdate]
    split
    · next heq =>
      cases heq
      rw [JsMap.get?_delete_ne _ fun hk => hne ⟨rfl, hk⟩]
      exact hget
    · exact hget
  by_cases hsize : ((s.maps (topic, map)).delete key).size = 0
  · -- that was the last cursor of the topic
    have hempty : ∀ k, k ≠ key → s.entry topic k = none := by
      intro k hk
      have hnil := List.length_eq_zero_iff.1 hsize
      have hnone : ((s.maps (topic, map)).delete key).get? k = none := by
        rw [JsMap.get?, hnil]
        rfl
      rw [JsMap.get?_delete_ne _ hk] at hnone
      rw [entry_eq htopic, hnone]
    have heq : removeFrom key s topic = emit (clearTopicFlush
        { s with
          timers := clearTimers s.timers [e]
          maps := Function.update s.maps (topic, map) ((s.maps (topic, map)).delete key)
          topics := s.topics.delete topic } topic) topic (.remove key) := by
      simp only [removeFrom, htopic, hget, if_pos hsize]
    have hentry : ∀ t k, (removeFrom key s topic).entry t k =
        if t = topic ∧ k = key then none else s.entry t k := by
      intro t k
      rw [heq]
      unfold State.entry emit clearTopicFlush
      simp only [JsMap.get?_delete]
      by_cases ht : t = topic
      · subst ht
        by_cases hk : k = key
        · simp [hk]
        · have := hempty k hk
          rw [State.entry] at this
          simp [this]
      · simp [ht]
    refine ⟨h.drop hngone hentry ?_ ?_ ?_ ?_ ?_ ?_, ?_, hentry, ?_⟩
    · rw [heq]
      exact htimers
    · intro t m k e' hm hne hget'
      rw [heq]
      have ht : t ≠ topic := by
        rintro rfl
        cases htopic.symm.trans hm
        have hnone := hempty k fun hk => hne ⟨rfl, hk⟩
        rw [entry_eq htopic, hget'] at hnone
        cases hnone
      exact ⟨(JsMap.get?_delete_ne _ ht).trans hm, hother t m k e' hne hget'⟩
    · intro t flush k hget' hsome
      rw [heq] at hget'
      obtain ⟨ht, hget'⟩ := JsMap.of_get?_delete hget'
      exact ⟨fun hand => ht hand.1, h.dirty t flush k hget' hsome⟩
    all_goals
      rw [heq]
      rfl
  · have heq : ∃ topicFlush, removeFrom key s topic = emit
        { s with
          timers := clearTimers s.timers [e]
          maps := Function.update s.maps (topic, map) ((s.maps (topic, map)).delete key)
          topicFlush } topic (.remove key) ∧
        ∀ t flush k, topicFlush.get? t = some flush → (flush.dirty.get? k).isSome →
          ¬ (t = topic ∧ k = key) ∧ (s.entry t k).isSome := by
      cases hflush : s.topicFlush.get? topic with
      | none =>
        refine ⟨s.topicFlush, by simp only [removeFrom, htopic, hget, if_neg hsize, hflush], ?_⟩
        intro t flush k hget' hsome
        refine ⟨?_, h.dirty t flush k hget' hsome⟩
        rintro ⟨rfl, -⟩
        cases hflush.symm.trans hget'
      | some flush =>
        refine ⟨s.topicFlush.set topic { flush with dirty := flush.dirty.delete key },
          by simp only [removeFrom, htopic, hget, if_neg hsize, hflush], ?_⟩
        intro t flush' k hget' hsome
        rw [JsMap.get?_set] at hget'
        split at hget'
        · next ht =>
          subst ht
          cases hget'
          rw [JsMap.get?_delete] at hsome
          split at hsome
          · cases hsome
          · next hk => exact ⟨fun hand => hk hand.2, h.dirty t flush k hflush hsome⟩
        · next ht => exact ⟨fun hand => ht hand.1, h.dirty t flush' k hget' hsome⟩
    obtain ⟨topicFlush, heq, hdirty⟩ := heq
    have hentry : ∀ t k, (removeFrom key s topic).entry t k =
        if t = topic ∧ k = key then none else s.entry t k := by
      intro t k
      rw [heq]
      unfold State.entry emit
      by_cases ht : t = topic
      · subst ht
        simp only [htopic, Option.bind_some, hupdate, if_true, JsMap.get?_delete, true_and]
      · simp [ht]
    refine ⟨h.drop hngone hentry ?_ ?_ ?_ ?_ ?_ ?_, ?_, hentry, ?_⟩
    · rw [heq]
      exact htimers
    · intro t m k e' hm hne hget'
      rw [heq]
      exact ⟨hm, hother t m k e' hne hget'⟩
    · rw [heq]
      exact hdirty
    all_goals
      rw [heq]
      rfl

variable {state : WsState U}

theorem removeFrom_foldl (topics : List String) (h : Inv nothing s)
    (hget : s.wsState.get? ws = some state) : ∃ new,
      Inv nothing (topics.foldl (removeFrom state.key) s) ∧
      (topics.foldl (removeFrom state.key) s).wsState = s.wsState ∧
      (topics.foldl (removeFrom state.key) s).log = new ++ s.log ∧
      (∀ t k, (topics.foldl (removeFrom state.key) s).entry t k =
        if t ∈ topics ∧ k = state.key then none else s.entry t k) ∧
      ∀ t ∈ topics, (s.entry t state.key).isSome → .published t (.remove state.key) ∈ new := by
  induction topics generalizing s with
  | nil => exact ⟨[], h, rfl, rfl, fun t k => by simp, nofun⟩
  | cons topic topics ih =>
    rw [List.foldl_cons]
    cases hentry : s.entry topic state.key with
    | none =>
      rw [removeFrom_none hentry]
      obtain ⟨new, hinv, hws, hlog, hentries, hnew⟩ := ih h hget
      refine ⟨new, hinv, hws, hlog, fun t k => ?_, fun t ht hsome => ?_⟩
      · rw [hentries]
        by_cases hk : k = state.key
        · subst hk
          by_cases ht : t = topic
          · subst ht
            simp [hentry]
          · simp [ht]
        · simp [hk]
      · rcases List.mem_cons.1 ht with rfl | ht
        · rw [hentry] at hsome
          cases hsome
        · exact hnew t ht hsome
    | some e =>
      obtain ⟨hinv₁, hws₁, hentry₁, hlog₁⟩ := removeFrom_some h (h.held ws state hget).2.2 hentry
      obtain ⟨new, hinv, hws, hlog, hentries, hnew⟩ := ih hinv₁ (by rw [hws₁]; exact hget)
      refine ⟨new ++ [.published topic (.remove state.key)], hinv, hws.trans hws₁, ?_, fun t k => ?_,
        fun t ht hsome => ?_⟩
      · rw [hlog, hlog₁, List.append_assoc]
        rfl
      · rw [hentries, hentry₁]
        by_cases hk : k = state.key
        · by_cases ht : t = topic
          · simp [ht, hk]
          · simp [ht]
        · simp [hk]
      · rcases List.mem_cons.1 ht with rfl | ht
        · exact List.mem_append_right _ List.mem_cons_self
        · by_cases hsame : t = topic
          · subst hsame
            exact List.mem_append_right _ List.mem_cons_self
          · refine List.mem_append_left _ (hnew t ht ?_)
            rw [hentry₁, if_neg fun hand => hsame hand.1]
            exact hsome

theorem Inv.topic_of_entry (h : Inv nothing s) (hget : s.wsState.get? ws = some state)
    (hsome : (s.entry topic state.key).isSome) : topic ∈ state.topics.keys := by
  rcases h.owned topic state.key hsome with ⟨ws', state', hget', hkey, hmem⟩ | hev
  · have hws := h.keys ws' ws state' state hget' hget hkey
    subst hws
    cases hget.symm.trans hget'
    exact JsMap.mem_keys_iff.2 (Option.isSome_iff_exists.1 hmem)
  · exact absurd hev (h.held ws state hget).2.1

/-- What `remove` does of a connection that is held. -/
theorem Inv.remove_some (h : Inv nothing s) (hget : s.wsState.get? ws = some state) :
    Inv nothing (remove s ws) ∧ ∃ new, (remove s ws).log = .removed state.key :: new ++ s.log ∧
      ∀ t, (s.entry t state.key).isSome → .published t (.remove state.key) ∈ new := by
  obtain ⟨new, hinv, hws, hlog, hentry, hnew⟩ := removeFrom_foldl state.topics.keys h hget
  unfold remove
  rw [hget]
  simp only
  generalize state.topics.keys.foldl (removeFrom state.key) s = s₁ at *
  obtain ⟨topicReporters, subViewport, heq⟩ := dropViewports_eq s₁ state.key
  have hdrop := hinv.dropViewports state.key
  rw [heq] at hdrop ⊢
  refine ⟨hdrop.leave ?_ (.inr ⟨rfl, fun t => ?_⟩), new, by rw [hlog]; rfl,
    fun t hsome => hnew t (h.topic_of_entry hget hsome) hsome⟩
  · rw [hws]
    exact hget
  · show s₁.entry t state.key = none
    rw [hentry]
    split
    · rfl
    · next hnot =>
      by_contra hne
      exact hnot ⟨h.topic_of_entry hget (Option.isSome_iff_ne_none.2 hne), rfl⟩

theorem Inv.remove (h : Inv nothing s) (ws : Conn) : Inv nothing (remove s ws) := by
  cases hget : s.wsState.get? ws with
  | none =>
    unfold Cursor.remove
    rw [hget]
    exact h
  | some state => exact (h.remove_some hget).1

/-! ## the other calls -/

theorem Inv.viewport {rect : R} {user : U} (h : Inv nothing s) :
    Inv nothing (viewport o s ws topic rect user) :=
  (h.getWsState _ ws).of_eq rfl rfl rfl rfl rfl rfl rfl

theorem Inv.snapshot {user : U} (h : Inv nothing s) : Inv nothing (snapshot o s ws topic user) := by
  unfold Cursor.snapshot
  have htime : Inv nothing (emitTo s ws topic .time) := h.frame (.sent ws topic .time) trivial (fun _ _ hshow => hshow.2.elim)
    (fun _ hcarries => hcarries.elim)
  have hconn := htime.getWsState (o := o) user ws
  have hget := wsState_getWsState (o := o) (s := emitTo s ws topic .time) ws user
  simp only
  generalize Cursor.getWsState o (emitTo s ws topic .time) ws user = r at *
  have hyou : Inv nothing (emitTo r.2 ws topic (.you r.1.key)) :=
    hconn.frame (.sent ws topic (.you r.1.key)) trivial (fun _ _ hshow => hshow.2.elim) fun k hcarries => by
      cases hcarries
      exact (hconn.held ws r.1 hget).2.2
  generalize emitTo r.2 ws topic (.you r.1.key) = s₁ at *
  have hstored : ∀ k ∈ ((s₁.topics.get? topic).elim .empty fun map => s₁.maps (topic, map)).keys,
      (s₁.entry topic k).isSome := by
    intro k hk
    cases htopic : s₁.topics.get? topic with
    | none =>
      rw [htopic] at hk
      cases hk
    | some map =>
      rw [htopic] at hk
      obtain ⟨e, he⟩ := JsMap.mem_keys_iff.1 hk
      rw [entry_eq htopic]
      exact Option.isSome_iff_exists.2 ⟨e, he⟩
  generalize ((s₁.topics.get? topic).elim .empty fun map => s₁.maps (topic, map)) = topicMap at *
  refine (hyou.about [_, _] hstored fun i hi => ?_ :
    Inv nothing { s₁ with log := [
      .sent ws topic (.bulk (topicMap.entries.map fun e => (e.1, e.2.data))),
      .sent ws topic (.catalog (topicMap.entries.map fun e => (e.1, e.2.user)))] ++ s₁.log })
  have hkeys : ∀ {W : Type} (f : Entry N U D → W) k,
      k ∈ (topicMap.entries.map fun e => (e.1, f e.2)).map Prod.fst → k ∈ topicMap.keys := by
    intro W f k hk
    rw [List.map_map] at hk
    exact hk
  rcases List.mem_cons.1 hi with rfl | hi
  · exact ⟨trivial, fun _ _ hshow => ⟨hshow.1.symm, hkeys _ _ hshow.2⟩, fun _ hcarries => hkeys _ _ hcarries⟩
  · cases List.mem_singleton.1 hi
    exact ⟨trivial, fun _ _ hshow => ⟨hshow.1.symm, hkeys _ _ hshow.2⟩, fun _ hcarries => hkeys _ _ hcarries⟩

theorem Inv.clear (h : Inv nothing s) : Inv nothing (clear s) := by
  have hlog : ∀ item : Item U D, item ≠ .cleared → ¬ SinceClear item (.cleared :: s.log) := by
    rintro item hne (heq | ⟨hclear, -⟩)
    · exact hne heq.symm
    · exact hclear rfl
  refine ⟨fun id τ hget => ?_, nofun, fun t k hsome => ?_, nofun, nofun,
    fun k hev => absurd hev (hlog _ (by simp)), fun k hgone => absurd hgone (hlog _ (by simp)), ?_,
    h.silent.cons fun _ => False.elim⟩
  · replace hget : (clearTimers s.timers (s.topics.entries.flatMap fun e => (s.maps e).values)).get? id =
        some τ := hget
    rw [get?_clearTimers] at hget
    obtain ⟨hnot, hget⟩ := Option.ite_none_left_eq_some.mp hget
    obtain ⟨hmap, e, he, hid⟩ := h.timers id τ hget
    refine absurd (List.mem_flatMap.2 ⟨e, List.mem_flatMap.2 ⟨(τ.topic, τ.map), ?_, ?_⟩, mem_handles hid⟩) hnot
    · exact JsMap.mem_entries_iff.2 hmap
    · exact JsMap.mem_values_iff.2 ⟨_, he⟩
  · cases hsome
  · rintro t k (hshow | ⟨hends, -⟩)
    · exact hshow.elim
    · exact absurd trivial hends

section

variable [DecidableEq C] [Number N]

theorem Inv.next {a : Action N U D R} (h : Inv nothing s) (hn : next o s a = some s') : Inv nothing s' := by
  cases a with
  | update ws topic data user now subs =>
    cases hn
    exact h.update
  | viewport ws topic rect user =>
    cases hn
    exact h.viewport
  | snapshot ws topic user =>
    cases hn
    exact h.snapshot
  | remove ws =>
    cases hn
    exact h.remove ws
  | clear =>
    cases hn
    exact h.clear
  | fire handle now subs =>
    obtain ⟨timer, hget, rfl⟩ := Option.map_eq_some_iff.1 hn
    exact h.fire hget
  | tick now subs =>
    obtain ⟨-, rfl⟩ := by simpa [Cursor.next] using hn
    exact h.tick

/-! ## runs -/

theorem inv_of_run {as : List (Action N U D R)} (h : (machine o).Runs Machine.Any as s) : Inv nothing s :=
  Machine.Runs.invariant (m := machine o)
    ⟨nofun, nofun, nofun, nofun, nofun, fun _ => False.elim, fun _ => False.elim, fun _ _ => False.elim,
      fun later _ _ heq => by cases later <;> cases heq⟩
    (fun _ _ _ hi _ hn => hi.next hn) h

/-- After any run, a stored cursor is that of a connection which is held, or made room since
the last clear; timers and dirty marks are those of stored cursors; a remove of a connection
that is held tells every topic that its key stands on; and its key is not named again before
a clear. -/
theorem no_ghosts {as : List (Action N U D R)} (h : (machine o).Runs Machine.Any as s) :
    (∀ topic key e, s.entry topic key = some e →
      (∃ ws state, s.wsState.get? ws = some state ∧ state.key = key ∧ state.topics.has topic = true) ∨
        Evicted key s.log) ∧
    (∀ id timer, s.timers.get? id = some timer →
      ∃ e, s.entry timer.topic timer.key = some e ∧ e.handle timer.kind = some id) ∧
    (∀ topic flush key, s.topicFlush.get? topic = some flush → (flush.dirty.get? key).isSome →
      (s.entry topic key).isSome) ∧
    (∀ ws state, s.wsState.get? ws = some state →
      ∃ new, (remove s ws).log = .removed state.key :: new ++ s.log ∧
        ∀ topic, Standing topic state.key s.log → .published topic (.remove state.key) ∈ new) ∧
    ∀ later key earlier, s.log = later ++ .removed key :: earlier → .cleared ∉ later →
      ∀ item ∈ later, ¬ item.Carries key := by
  have hinv := inv_of_run h
  refine ⟨fun topic key e he => hinv.owned topic key (by rw [he]; rfl), fun id timer => hinv.timer_entry,
    hinv.dirty, fun ws state hget => ?_, hinv.silent⟩
  obtain ⟨-, new, hlog, hnew⟩ := hinv.remove_some hget
  exact ⟨new, hlog, fun topic hstanding =>
    hnew topic ((hinv.shown topic state.key hstanding).resolve_right id)⟩

end

instance : Number Int where
  toLinearOrder := Int.instLinearOrder
  toAdd := Int.instAdd
  toSub := Int.instSub
  toNeg := Int.instNegInt
  toZero := ⟨0⟩

/-- No throttle, no culling, and room for so many. -/
def plain (maxConnections maxTopics : Nat) (throttleMs : Int) : Options Int Nat Unit Unit Unit where
  throttleMs
  topicThrottleMs := 0
  maxConnections
  maxTopics
  maxTopicLength := 256
  maxDataBytes := 8192
  bpEnabled := false
  bpMaxBufferedBytes := 0
  viewportEnabled := false
  minMove := 0
  finitePosition _ := none
  missing _ := false
  byteLength _ := some 1
  exceedsDepth _ := false
  forEachSubscriber := false
  geometry :=
    { rectBounds := id
      inside := fun _ _ => true
      cells := fun _ _ => none
      packCell := fun _ => () }

/-- A cursor moves twice, within the window, and its connection goes. -/
theorem removed_told : ∃ s : State Int Unit Nat Unit, (machine (plain 10 10 16)).Runs Machine.Any
      [.update 1 "board" 3 () 100 [], .update 1 "board" 4 () 101 []] s ∧
    s.timers.size = 1 ∧ ∃ new, (remove s 1).log = .removed 1 :: new ++ s.log ∧
      .published "board" (.remove 1) ∈ new := by
  obtain ⟨s, hs⟩ : ∃ s : State Int Unit Nat Unit, (machine (plain 10 10 16)).exec
      (machine (plain 10 10 16)).init
      [.update 1 "board" 3 () 100 [], .update 1 "board" 4 () 101 []] = some s := ⟨_, rfl⟩
  have hrun := Machine.runs_of_exec hs
  obtain ⟨-, -, -, hremove, -⟩ := no_ghosts hrun
  obtain ⟨state, hget, hkey⟩ : ∃ state, s.wsState.get? 1 = some state ∧ state.key = 1 := by
    cases hs
    exact ⟨_, rfl, rfl⟩
  have hstanding : Standing "board" 1 s.log := by
    cases hs
    exact .inl ⟨rfl, rfl⟩
  have htimers : s.timers.size = 1 := by
    cases hs
    decide +kernel
  have htold := hremove 1 state hget
  rw [hkey] at htold
  obtain ⟨new, hlog, hnew⟩ := htold
  exact ⟨s, hrun, htimers, new, hlog, hnew "board" hstanding⟩

/-- A connection makes room and its cursor stays; a topic makes room and a remove does not
tell it; and after a clear the key is that of another connection. -/
theorem evicted_ghost :
    (∃ s : State Int Unit Nat Unit, (machine (plain 1 10 0)).Runs Machine.Any
        [.update 1 "board" 3 () 100 [], .update 2 "board" 4 () 101 []] s ∧
      (s.entry "board" 1).isSome ∧ (∀ ws state, s.wsState.get? ws = some state → state.key ≠ 1) ∧
      .published "board" (.remove 1) ∉ s.log) ∧
    (∃ s : State Int Unit Nat Unit, (machine (plain 10 1 0)).Runs Machine.Any
        [.update 1 "a" 3 () 100 [], .update 1 "b" 4 () 101 [], .remove 1] s ∧
      .published "a" (.update 1 3) ∈ s.log ∧ .published "a" (.remove 1) ∉ s.log) ∧
    ∃ s : State Int Unit Nat Unit, (machine (plain 10 10 0)).Runs Machine.Any
        [.update 1 "a" 3 () 100 [], .remove 1, .clear, .update 2 "a" 4 () 101 []] s ∧
      ∃ later earlier, s.log = later ++ .removed 1 :: earlier ∧ .published "a" (.update 1 4) ∈ later := by
  refine ⟨?_, ?_, ?_⟩
  · obtain ⟨s, hs⟩ : ∃ s : State Int Unit Nat Unit, (machine (plain 1 10 0)).exec
        (machine (plain 1 10 0)).init
        [.update 1 "board" 3 () 100 [], .update 2 "board" 4 () 101 []] = some s := ⟨_, rfl⟩
    refine ⟨s, Machine.runs_of_exec hs, ?_⟩
    have hkeys : s.wsState.values.all fun state => decide (state.key ≠ 1) := by
      cases hs
      decide +kernel
    refine ⟨?_, fun ws state hget => ?_, ?_⟩
    · cases hs
      decide +kernel
    · exact of_decide_eq_true (List.all_eq_true.1 hkeys state (JsMap.mem_values_iff.2 ⟨ws, hget⟩))
    · cases hs
      decide +kernel
  · obtain ⟨s, hs⟩ : ∃ s : State Int Unit Nat Unit, (machine (plain 10 1 0)).exec
        (machine (plain 10 1 0)).init
        [.update 1 "a" 3 () 100 [], .update 1 "b" 4 () 101 [], .remove 1] = some s := ⟨_, rfl⟩
    refine ⟨s, Machine.runs_of_exec hs, ?_⟩
    cases hs
    decide +kernel
  · obtain ⟨s, hs⟩ : ∃ s : State Int Unit Nat Unit, (machine (plain 10 10 0)).exec
        (machine (plain 10 10 0)).init
        [.update 1 "a" 3 () 100 [], .remove 1, .clear, .update 2 "a" 4 () 101 []] = some s := ⟨_, rfl⟩
    refine ⟨s, Machine.runs_of_exec hs, s.log.take 4, s.log.drop 5, ?_⟩
    cases hs
    decide +kernel

end BunServe.Cursor
