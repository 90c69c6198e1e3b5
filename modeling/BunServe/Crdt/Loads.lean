import BunServe.Crdt.Tracked

/-!
# BunServe.Crdt.Loads

The load of a record, and the acquires that wait for it.

A record is loaded once: every acquire that finds it in the registry waits for
that load and resolves to that record, or is rejected with it.  A load that
comes back after its record was forgotten ends on that record.

* `still_next` — the actions that acquire, load or release nothing leave
  counts, loads and acquires as they are;
* `loading_next` — a load step touches its record and no other;
* `load_coalescing` — what this makes of every run.
-/

namespace BunServe.Crdt

open Machine Relation
open TopicRecord (silenced)

variable {U : Type}

/-! ## what holds nothing -/

/-- Loads are as they were, and no record and no topic is new. -/
structure Level (s s' : State U) : Prop where
  nextRec : s'.nextRec = s.nextRec
  topics : ∀ k q, s'.topics.get? k = some q → s.topics.get? k = some q
  topic : ∀ q, (s'.recs q).topic = (s.recs q).topic
  load : ∀ q, (s'.recs q).load = (s.recs q).load

/-- Counts and acquires too. -/
structure Still (s s' : State U) : Prop extends Level s s' where
  acquires : s'.acquires = s.acquires
  refs : ∀ q, (s'.recs q).refs = (s.recs q).refs

variable {f : TopicRecord U → TopicRecord U} {a : Action U}

section Still

variable {o : Options} {flush hold : Prop} {late : State U → Nat → Prop} {s s' t : State U} {r h : Nat}

theorem Level.trans (h : Level s s') (h' : Level s' t) : Level s t where
  nextRec := h'.nextRec.trans h.nextRec
  topics k q hk := h.topics k q (h'.topics k q hk)
  topic q := (h'.topic q).trans (h.topic q)
  load q := (h'.load q).trans (h.load q)

theorem Still.refl : Still s s :=
  ⟨⟨rfl, fun _ _ h => h, fun _ => rfl, fun _ => rfl⟩, rfl, fun _ => rfl⟩

theorem Still.trans (h : Still s s') (h' : Still s' t) : Still s t where
  toLevel := h.toLevel.trans h'.toLevel
  acquires := h'.acquires.trans h.acquires
  refs q := (h'.refs q).trans (h.refs q)

theorem Level.registered (h : Level s s') {q : Nat} (hq : s'.registered q = true) :
    s.registered q = true := by
  rw [registered_eq_true, h.topic] at hq
  exact registered_eq_true.mpr (h.topics _ _ hq)

theorem level_modRec (htopic : (f (s.recs r)).topic = (s.recs r).topic)
    (hload : (f (s.recs r)).load = (s.recs r).load) : Level s (s.modRec r f) := by
  refine ⟨rfl, fun _ _ h => h, fun q => ?_, fun q => ?_⟩ <;>
  · by_cases hq : q = r
    · subst hq
      rwa [recs_modRec_self]
    · rw [recs_modRec_ne hq]

theorem still_modRec
    (htopic : (f (s.recs r)).topic = (s.recs r).topic) (hrefs : (f (s.recs r)).refs = (s.recs r).refs)
    (hload : (f (s.recs r)).load = (s.recs r).load) : Still s (s.modRec r f) := by
  refine ⟨level_modRec htopic hload, rfl, fun q => ?_⟩
  by_cases hq : q = r
  · subst hq
    rwa [recs_modRec_self]
  · rw [recs_modRec_ne hq]

theorem still_modAttempt {g : Attempt U → Attempt U} : Still s (s.modAttempt h g) :=
  ⟨⟨rfl, fun _ _ h => h, fun _ => rfl, fun _ => rfl⟩, rfl, fun _ => rfl⟩

theorem Quits.still {quit : Nat → Bool} (hq : Quits quit s s') : Still s s' :=
  ⟨⟨hq.nextRec, hq.topics, hq.topic, hq.load⟩, hq.acquires, hq.refs⟩

theorem still_addAttempt {a : Attempt U} : Still s (s.addAttempt a) :=
  ⟨⟨rfl, fun _ _ h => h, fun _ => rfl, fun _ => rfl⟩, rfl, fun _ => rfl⟩

theorem still_storeNow {by' : Option Nat} : Still s (storeNow o s r by').1 := by
  by_cases ho : o.hasStore = true
  · rw [storeNow_eq ho]
    exact still_addAttempt.trans (still_modRec rfl rfl rfl)
  · simp only [storeNow, ho, Bool.not_false, if_true]
    exact still_modRec rfl rfl rfl

theorem still_keepDirty {attempt : Nat} : Still s (keepDirty o s r attempt) := by
  unfold keepDirty armRetry
  split
  · exact still_modRec rfl rfl rfl
  · exact (still_modRec rfl rfl rfl).trans (still_modRec rfl rfl rfl)

theorem still_move (hi : Tracked o s) (hm : Move o flush False late s s') : Still s s' := by
  cases hm with
  | aside ha =>
    have hacq : s'.acquires = s.acquires := by simpa using ha.acquires
    refine ⟨⟨ha.nextRec, ?_, ?_, ?_⟩, hacq, ?_⟩ <;> simp [ha.topics, ha.recs]
  | idle hf =>
    have hheld := hf.held.resolve_left id
    exact still_modRec hf.topic hheld.1 hheld.2
  | waiters w _ | report _ _ _ | settle out _ _ _ _ => exact still_modAttempt
  | create hf _ _ => exact hf.elim
  | capture by' _ => exact still_storeNow
  | fire _ | leave _ _ => exact still_modRec rfl rfl rfl
  | giveUp hin _ => exact (quits_abandon hi hin).still
  | unload => exact (quits_unload hi).still
  | destroy hd => exact (quits_destroy hi hd).still
  | dispatch hs =>
    simp only [dispatch] at hs
    split at hs
    · exact Option.some.inj hs ▸ still_modAttempt
    · contradiction
  | answer hs =>
    unfold answer at hs
    split at hs
    · exact Option.some.inj hs ▸ still_modAttempt
    · contradiction
  | refuse out _ _ _ _ => exact still_modAttempt.trans still_keepDirty
  | chainSettle hs =>
    obtain ⟨-, hs⟩ := by simpa [chainSettle] using hs
    split at hs
    · exact Option.some.inj hs ▸ still_modAttempt
    · contradiction

theorem still_moves (hi : Tracked o s) (hm : Moves o flush False late s s') : Still s s' := by
  suffices Still s s' ∧ Tracked o s' from this.1
  induction hm with
  | refl => exact ⟨.refl, hi⟩
  | tail _ hm ih => exact ⟨ih.1.trans (still_move ih.2 hm), tracked_move ih.2 hm⟩

theorem still_edit (he : Edit o s s') : Still s s' := by
  cases he with
  | @mk r u _ _ =>
    have hacc : Still s (s.accept r u) := still_modRec rfl rfl rfl
    unfold scheduleStore
    split
    · exact hacc
    · exact hacc.trans (still_modRec rfl rfl rfl)

variable [DecidableEq U] {yjs : Yjs U}

theorem still_next (hi : Tracked o s) (ha : holding a = false)
    (hs : (machine o yjs).next s a = some s') : Still s s' := by
  by_cases he : ∃ topic u, a = .applyUpdate topic u
  · obtain ⟨topic, u, rfl⟩ := he
    cases hs
    rcases applyUpdate_cases (fun _ _ => True) hi.named with hm | ⟨t, he, hm⟩
    · exact still_moves hi hm
    · exact (still_edit he).trans (still_moves (tracked_edit hi he) hm)
  · have hm := next_moves (fun _ _ => True) hi.named (fun f hf => by
      subst hf
      exact moves_flushDeadline (fun _ _ => trivial) hs) (fun topic u hu => he ⟨topic, u, hu⟩) hs
    rw [ha] at hm
    exact still_moves hi (by simpa using hm)

end Still

/-! ## what loads -/

/-- The load has not come back. -/
def LoadPhase.pending : LoadPhase U → Bool
  | .queued | .issued | .answered _ => true
  | .done | .failed => false

/-- `persist.load` has not been called. -/
def LoadPhase.isQueued : LoadPhase U → Bool
  | .queued => true
  | _ => false

/-- A step of the load of `r`. -/
structure Loading (r : Nat) (s s' : State U) : Prop where
  nextRec : s'.nextRec = s.nextRec
  acquires : s'.acquires = s.acquires
  topics : ∀ k q, s'.topics.get? k = some q → s.topics.get? k = some q
  topic : (s'.recs r).topic = (s.recs r).topic
  refs : (s'.recs r).refs = (s.recs r).refs
  others : ∀ q ≠ r, s'.recs q = s.recs q
  pending : (s.recs r).load.pending = true
  started : (s'.recs r).load.isQueued = false
  done : (s'.recs r).load = .done → s.registered r = true
  failed : (s'.recs r).load = .failed → s'.registered r = false
  stale : s.registered r = false → s'.topics = s.topics

section Loading

variable {o : Options} {s s' : State U} {r : Nat}

theorem loading_modRec
    (htopic : (f (s.recs r)).topic = (s.recs r).topic) (hrefs : (f (s.recs r)).refs = (s.recs r).refs)
    (hpending : (s.recs r).load.pending = true) (hstarted : (f (s.recs r)).load.isQueued = false)
    (hdone : (f (s.recs r)).load = .done → s.registered r = true)
    (hfailed : (f (s.recs r)).load ≠ .failed) : Loading r s (s.modRec r f) where
  nextRec := rfl
  acquires := rfl
  topics _ _ h := h
  topic := by rw [recs_modRec_self, htopic]
  refs := by rw [recs_modRec_self, hrefs]
  others _ hq := recs_modRec_ne hq
  pending := hpending
  started := by rwa [recs_modRec_self]
  done h := hdone (by rwa [recs_modRec_self] at h)
  failed h := absurd (by rwa [recs_modRec_self] at h) hfailed
  stale _ := rfl

theorem loading_dispatch (hs : loadDispatch o s r = some s') : Loading r s s' := by
  unfold loadDispatch at hs
  split at hs
  · next hq =>
    split at hs
    · cases hs
      refine loading_modRec rfl rfl (by rw [hq]; rfl) ?_ ?_ ?_ <;>
        cases o.hasLoad <;> simp [LoadPhase.isQueued]
    · contradiction
  · contradiction

theorem loading_answer {ans : LoadAnswer U} (hs : loadAnswer s r ans = some s') :
    Loading r s s' := by
  unfold loadAnswer at hs
  split at hs
  · next hq =>
    cases hs
    exact loading_modRec rfl rfl (by rw [hq]; rfl) rfl nofun nofun
  · contradiction

theorem Loading.of_modRec
    (htopic : (f (s.recs r)).topic = (s.recs r).topic) (hrefs : (f (s.recs r)).refs = (s.recs r).refs)
    (hload : (f (s.recs r)).load = (s.recs r).load) (h : Loading r (s.modRec r f) s') :
    Loading r s s' := by
  have hreg : (s.modRec r f).registered r = s.registered r := registered_modRec htopic
  refine ⟨h.nextRec, h.acquires, h.topics, ?_, ?_, fun q hq => ?_, ?_, h.started, fun hd => ?_,
    h.failed, fun hr => ?_⟩
  · rw [h.topic, recs_modRec_self, htopic]
  · rw [h.refs, recs_modRec_self, hrefs]
  · rw [h.others q hq, recs_modRec_ne hq]
  · have hp := h.pending
    rwa [recs_modRec_self, hload] at hp
  · rw [← hreg]
    exact h.done hd
  · rw [← hreg] at hr
    exact h.stale hr

/-- What `unload` does to its record and to the registry. -/
theorem unload_spec (how : Owned s) :
    (unload o s r).nextRec = s.nextRec ∧ (unload o s r).acquires = s.acquires ∧
      (unload o s r).recs = Function.update s.recs r (s.recs r).silenced ∧
      (unload o s r).registered r = false ∧
      (unload o s r).topics = if s.registered r then s.topics.delete (s.recs r).topic else s.topics := by
  rw [unload_eq how]
  cases hr : s.registered r with
  | true => simp [State.registered, silenced, clearSchedule]
  | false => simpa [State.registered, silenced, clearSchedule] using hr

theorem loading_failed (hi : Tracked o s) (hpending : (s.recs r).load.pending = true) :
    Loading r s (loadFailed o s r) := by
  have hidle : Idle True (fun rec : TopicRecord U => { rec with load := .failed }) (s.recs r) :=
    ⟨rfl, List.prefix_refl _, rfl, rfl, rfl, rfl, rfl, rfl, rfl, .inl trivial⟩
  have hmark := tracked_idle hi hidle
  have hreg : (s.modRec r fun rec => { rec with load := .failed }).registered r = s.registered r :=
    registered_modRec rfl
  obtain ⟨hnext, hacq, hrecs, hgone, htopics⟩ := unload_spec hmark.own
  rw [hreg] at htopics
  suffices Loading r s (unload o (s.modRec r fun rec => { rec with load := .failed }) r) by
    unfold loadFailed
    dsimp only
    split
    · exact { this with }
    · exact this
  refine ⟨hnext, hacq, fun k q hk => ?_, ?_, ?_, fun q hq => ?_, hpending, ?_, ?_, fun _ => hgone,
    fun hr => by simpa [hr] using htopics⟩
  · rw [htopics] at hk
    split at hk
    · exact (JsMap.of_get?_delete hk).2
    · exact hk
  · simp [hrecs, silenced, clearSchedule]
  · simp [hrecs, silenced, clearSchedule]
  · rw [hrecs, Function.update_of_ne hq, recs_modRec_ne hq]
  · simp [hrecs, silenced, clearSchedule, LoadPhase.isQueued]
  · simp [hrecs, silenced, clearSchedule]

theorem loading_react (hi : Tracked o s) (hs : loadReact o s r = some s') : Loading r s s' := by
  unfold loadReact at hs
  split at hs
  · next ans hans =>
    have hpending : (s.recs r).load.pending = true := by rw [hans]; rfl
    have hidle : Idle True (fun rec : TopicRecord U => { rec with loadInflight := false })
        (s.recs r) :=
      ⟨rfl, List.prefix_refl _, rfl, rfl, rfl, rfl, rfl, rfl, rfl, .inl trivial⟩
    have hleft := tracked_idle hi hidle
    have hreg : (s.modRec r fun rec => { rec with loadInflight := false }).registered r =
        s.registered r := registered_modRec rfl
    have hfail : Loading r s
        (loadFailed o (s.modRec r fun rec => { rec with loadInflight := false }) r) := by
      refine .of_modRec rfl rfl rfl (loading_failed hleft ?_)
      rwa [recs_modRec_self]
    have hdone : ∀ doc : List U, s.registered r = true →
        Loading r s ((s.modRec r fun rec => { rec with loadInflight := false }).modRec r
          fun rec => { rec with doc := rec.doc ++ doc, load := .done }) := by
      refine fun doc hr => .of_modRec rfl rfl rfl (loading_modRec rfl rfl ?_ rfl ?_ nofun)
      · rwa [recs_modRec_self]
      · exact fun _ => hreg.trans hr
    cases ans with
    | rejected | notBytes => exact Option.some.inj hs ▸ hfail
    | nothing =>
      dsimp only at hs
      split at hs
      · next hr =>
        cases hs
        simpa using hdone [] (hreg ▸ hr)
      · exact Option.some.inj hs ▸ hfail
    | bytes doc =>
      dsimp only at hs
      split at hs
      · next hr => exact Option.some.inj hs ▸ hdone doc (hreg ▸ hr)
      · exact Option.some.inj hs ▸ hfail
  · contradiction

end Loading

/-! ## what acquires and releases -/

section Acquiring

variable {o : Options} {s s' : State U} {r : Nat} {topic : String}

theorem acquire_joins (hd : s.destroyed = false) (hr : s.topics.get? topic = some r) :
    acquire s topic = { s.modRec r fun rec => { rec with unloading := false } with
      acquires := s.acquires ++ [r] } := by
  simp [acquire, hd, hr]

theorem acquire_creates (hd : s.destroyed = false) (hnone : s.topics.get? topic = none) :
    acquire s topic = { s.addRec topic with acquires := s.acquires ++ [s.nextRec] } := by
  simp [acquire, hd, hnone]

theorem acquired_cases {i : Nat} (hs : acquired s i = some s') : ∃ r, s.acquires[i]? = some r ∧
    ((s.recs r).load = .done ∧
        s' = { s.modRec r fun rec => { rec with refs := rec.refs + 1 } with
          acquires := s.acquires.eraseIdx i } ∨
      (s.recs r).load = .failed ∧ s' = { s with acquires := s.acquires.eraseIdx i }) := by
  unfold acquired at hs
  split at hs
  · contradiction
  · next r hr =>
    refine ⟨r, hr, ?_⟩
    split at hs
    · next hl => exact .inl ⟨hl, (Option.some.inj hs).symm⟩
    · next hl => exact .inr ⟨hl, (Option.some.inj hs).symm⟩
    · contradiction

theorem release_unloaded (h : ∀ q, s.topics.get? topic = some q → (s.recs q).loaded = false) :
    release o s topic = s := by
  unfold release
  split
  · rfl
  · next r hr => simp [h r hr]

theorem release_loaded (hr : s.topics.get? topic = some r) (hl : (s.recs r).loaded = true) :
    Still (s.modRec r fun rec => { rec with refs := rec.refs - 1 }) (release o s topic) := by
  unfold release
  simp only [hr, hl, Bool.not_true, Bool.false_eq_true, if_false]
  split
  · exact .refl
  · split
    · exact (still_modRec rfl rfl rfl).trans still_storeNow
    · exact (still_modRec rfl rfl rfl).trans (still_modRec rfl rfl rfl)

variable [DecidableEq U] {yjs : Yjs U}

/-- The steps of the load of `r`. -/
def loads (r : Nat) : Action U → Bool
  | .loadDispatch q | .loadAnswer q _ | .loadReact q => q == r
  | _ => false

/-- What one step can do to counts, loads and acquires. -/
inductive Held (o : Options) (s : State U) : Action U → State U → Prop where
  | still {a t} : holding a = false → Still s t → Held o s a t
  | loading {a t} {q : Nat} : loads q a = true → Loading q s t → Held o s a t
  | acquire (name : String) : Held o s (.acquire name) (acquire s name)
  | acquired {i t} : acquired s i = some t → Held o s (.acquired i) t
  | release (name : String) : Held o s (.release name) (release o s name)

theorem held_next (hi : Tracked o s) (hs : (machine o yjs).next s a = some s') : Held o s a s' := by
  cases ha : holding a with
  | false => exact .still ha (still_next hi ha hs)
  | true =>
    cases a with
    | acquire topic => exact Option.some.inj hs ▸ .acquire topic
    | loadDispatch r => exact .loading (by simp [loads]) (loading_dispatch hs)
    | loadAnswer r ans => exact .loading (by simp [loads]) (loading_answer hs)
    | loadReact r => exact .loading (by simp [loads]) (loading_react hi hs)
    | acquired i => exact .acquired hs
    | release topic => exact Option.some.inj hs ▸ .release topic
    | _ => contradiction

theorem load_kept (hi : Tracked o s) (hs : (machine o yjs).next s a = some s') :
    s.nextRec ≤ s'.nextRec ∧
      (∀ q, loads q a = false → (s'.recs q).load = (s.recs q).load ∨
        q = s.nextRec ∧ (s'.recs q).load = .queued) ∧
      ∀ q < s.nextRec, s.registered q = false → s'.registered q = false := by
  have hlevel : ∀ {t : State U}, Level s t → s.nextRec ≤ t.nextRec ∧
      (∀ q, loads q a = false → (t.recs q).load = (s.recs q).load ∨
        q = s.nextRec ∧ (t.recs q).load = .queued) ∧
      ∀ q < s.nextRec, s.registered q = false → t.registered q = false := by
    refine fun h => ⟨h.nextRec.ge, fun q _ => .inl (h.load q), fun q _ hq => ?_⟩
    rw [← Bool.not_eq_true] at hq ⊢
    exact fun hq' => hq (h.registered hq')
  cases held_next hi hs with
  | still _ h => exact hlevel h.toLevel
  | @loading _ _ r ha h =>
    -- only `r` changes, and no topic is new
    refine ⟨h.nextRec.ge, fun q hq => .inl ?_, fun q _ hq => ?_⟩
    · rw [h.others q (by rintro rfl; rw [ha] at hq; contradiction)]
    · rw [← Bool.not_eq_true] at hq ⊢
      refine fun hq' => hq (registered_eq_true.mpr (h.topics _ _ ?_))
      have htopic : (s'.recs q).topic = (s.recs q).topic := by
        by_cases hqr : q = r
        · exact hqr ▸ h.topic
        · rw [h.others q hqr]
      exact htopic ▸ registered_eq_true.mp hq'
  | acquire topic =>
    cases hd : s.destroyed with
    | true =>
      have hsame : acquire s topic = s := by simp [acquire, hd]
      rw [hsame]
      exact hlevel Still.refl.toLevel
    | false =>
      cases hr : s.topics.get? topic with
      | some r =>
        rw [acquire_joins hd hr]
        exact hlevel (t := s.modRec r fun rec => { rec with unloading := false })
          (level_modRec rfl rfl)
      | none =>
        rw [acquire_creates hd hr]
        refine ⟨Nat.le_succ _, fun q _ => ?_, fun q hq hreg => ?_⟩
        · by_cases hq : q = s.nextRec
          · subst hq
            exact .inr ⟨rfl, congrArg TopicRecord.load recs_addRec_self⟩
          · exact .inl (congrArg TopicRecord.load (recs_addRec_ne hq))
        · exact (registered_addRec hr (Nat.ne_of_lt hq)).trans hreg
  | @acquired i _ h =>
    obtain ⟨r, -, ⟨-, rfl⟩ | ⟨-, rfl⟩⟩ := acquired_cases h
    · exact hlevel (t := s.modRec r fun rec => { rec with refs := rec.refs + 1 })
        (level_modRec rfl rfl)
    · exact hlevel (t := s) Still.refl.toLevel
  | release topic =>
    by_cases hl : ∃ r, s.topics.get? topic = some r ∧ (s.recs r).loaded = true
    · obtain ⟨r, hr, hl⟩ := hl
      exact hlevel ((level_modRec rfl rfl).trans (release_loaded hr hl).toLevel)
    · rw [release_unloaded fun q hq => by
        rw [← Bool.not_eq_true]
        exact fun hq' => hl ⟨q, hq, hq'⟩]
      exact hlevel Still.refl.toLevel

/-! ## coalescing -/

/-- The load of `r` is issued. -/
def dispatches (r : Nat) : Action U → Bool
  | .loadDispatch q => q == r
  | _ => false

omit [DecidableEq U] in
theorem loads_of_dispatches (h : dispatches r a = true) : loads r a = true := by
  cases a <;> simp_all [dispatches, loads]

theorem loads_next (hi : Tracked o s) (ha : loads r a = true)
    (hs : (machine o yjs).next s a = some s') :
    Loading r s s' ∧ (s.recs r).load.isQueued = dispatches r a ∧
      ((s.recs r).load.isQueued = true → r < s.nextRec) := by
  cases a with
  | loadDispatch q =>
    obtain rfl : q = r := by simpa [loads] using ha
    refine ⟨loading_dispatch hs, ?_⟩
    change loadDispatch o s q = some s' at hs
    unfold loadDispatch at hs
    split at hs
    · next hq =>
      split at hs
      · next hlt => simp [hq, LoadPhase.isQueued, dispatches, hlt]
      · contradiction
    · contradiction
  | loadAnswer q ans =>
    obtain rfl : q = r := by simpa [loads] using ha
    refine ⟨loading_answer hs, ?_⟩
    change loadAnswer s q ans = some s' at hs
    unfold loadAnswer at hs
    split at hs
    · next hq => simp [hq, LoadPhase.isQueued, dispatches]
    · contradiction
  | loadReact q =>
    obtain rfl : q = r := by simpa [loads] using ha
    refine ⟨loading_react hi hs, ?_⟩
    change loadReact o s q = some s' at hs
    unfold loadReact at hs
    split at hs
    · next hq => simp [hq, LoadPhase.isQueued, dispatches]
    · contradiction
  | _ => contradiction

/-- A record that has not been created has no load, and one whose load has
failed has left the registry. -/
structure Settling (s : State U) : Prop where
  unmade : ∀ q, s.nextRec ≤ q → (s.recs q).load.isQueued = true
  failed : ∀ q, (s.recs q).load = .failed → s.registered q = false

omit [DecidableEq U] in
theorem Settling.lt (hw : Settling s) {q : Nat} (hq : (s.recs q).load.isQueued = false) :
    q < s.nextRec := by
  refine Nat.lt_of_not_le fun hle => ?_
  rw [hw.unmade q hle] at hq
  contradiction

theorem settling_next (hi : Tracked o s) (hw : Settling s)
    (hs : (machine o yjs).next s a = some s') : Settling s' := by
  obtain ⟨hle, hsame, hgone⟩ := load_kept hi hs
  constructor
  · intro q hq
    have hold := hw.unmade q (Nat.le_trans hle hq)
    cases ha : loads q a with
    | true => exact absurd ((loads_next hi ha hs).2.2 hold) (Nat.not_lt.mpr (Nat.le_trans hle hq))
    | false =>
      rcases hsame q ha with he | ⟨-, he⟩
      · rw [he, hold]
      · rw [he]
        rfl
  · intro q hq
    cases ha : loads q a with
    | true => exact (loads_next hi ha hs).1.failed hq
    | false =>
      rcases hsame q ha with he | ⟨-, he⟩
      · rw [he] at hq
        exact hgone q (hw.lt (by rw [hq]; rfl)) (hw.failed q hq)
      · rw [he] at hq
        contradiction

theorem settling_run {as : List (Action U)} (h : (machine o yjs).Runs Any as s) : Settling s :=
  h.invariant_of tracked_run ⟨fun _ _ => rfl, nofun⟩ fun _ _ _ hi hw _ hs => settling_next hi hw hs

theorem load_once {as : List (Action U)} (h : (machine o yjs).Runs Any as s) :
    as.countP (dispatches r) = if (s.recs r).load.isQueued then 0 else 1 := by
  induction h with
  | nil => rfl
  | @snoc as s a s' hr _ hs ih =>
    have hi := tracked_run hr
    rw [List.countP_append, ih, List.countP_singleton]
    cases ha : loads r a with
    | true =>
      obtain ⟨hload, hqueued, -⟩ := loads_next hi ha hs
      rw [hqueued, hload.started]
      cases dispatches r a <;> rfl
    | false =>
      have hd : dispatches r a = false := by
        rw [← Bool.not_eq_true] at ha ⊢
        exact fun hd => ha (loads_of_dispatches hd)
      obtain ⟨-, hsame, -⟩ := load_kept hi hs
      rcases hsame r ha with he | ⟨hr', he⟩
      · simp [hd, he]
      · have hold := (settling_run hr).unmade r (Nat.le_of_eq hr'.symm)
        rw [hd, hold, he]
        rfl

/-- What a run makes of its acquires and loads. -/
structure Coalesced (o : Options) (yjs : Yjs U) (as : List (Action U)) (s : State U) : Prop where
  /-- The load of a record is issued once, or not yet. -/
  once : ∀ r, as.countP (dispatches r) = if (s.recs r).load.isQueued then 0 else 1
  /-- An acquire of a known topic waits for the load of its record. -/
  joins : ∀ topic r, s.topics.get? topic = some r →
    (acquire s topic).acquires = s.acquires ++ [r] ∧ (acquire s topic).topics = s.topics ∧
      (acquire s topic).nextRec = s.nextRec ∧
      ∀ q, ((acquire s topic).recs q).load = (s.recs q).load
  /-- It goes through once that load has come back, on that record, or is
  rejected with it. -/
  goes : ∀ i r, s.acquires[i]? = some r → ((s.recs r).load.pending = true ∧ acquired s i = none) ∨
    ((s.recs r).load = .done ∧ acquired s i =
      some { s.modRec r fun rec => { rec with refs := rec.refs + 1 } with
        acquires := s.acquires.eraseIdx i }) ∨
    ((s.recs r).load = .failed ∧ acquired s i = some { s with acquires := s.acquires.eraseIdx i })
  /-- A load that has come back stays as it is. -/
  final : ∀ a s', (machine o yjs).next s a = some s' →
    ∀ r, (s.recs r).load.pending = false → (s'.recs r).load = (s.recs r).load
  /-- A failed load leaves no record behind. -/
  failed : ∀ r, (s.recs r).load = .failed → ∀ topic, s.topics.get? topic ≠ some r
  /-- An acquire of an unknown topic loads a record of its own. -/
  afresh : ∀ topic, s.topics.get? topic = none → s.destroyed = false →
    (acquire s topic).topics.get? topic = some s.nextRec ∧
      (acquire s topic).acquires = s.acquires ++ [s.nextRec] ∧
      (acquire s topic).recs s.nextRec = .fresh topic ∧ as.countP (dispatches s.nextRec) = 0
  /-- A record that was forgotten is never registered again. -/
  gone : ∀ a s', (machine o yjs).next s a = some s' →
    ∀ r < s.nextRec, s.registered r = false → s'.registered r = false
  /-- The load of a forgotten record touches no other, and does not succeed. -/
  stale : ∀ r a s', s.registered r = false → loads r a = true →
    (machine o yjs).next s a = some s' → s'.topics = s.topics ∧ s'.nextRec = s.nextRec ∧
      s'.acquires = s.acquires ∧ (∀ q ≠ r, s'.recs q = s.recs q) ∧ (s'.recs r).load ≠ .done

/-- **Coalescing**: whatever is acquired, dropped and answered, the acquires
that arrive while a load is pending share it and its record; a load that fails
rejects them and leaves the topic to be loaded afresh; and the load of a
dropped record never reaches a later one. -/
theorem load_coalescing {as : List (Action U)} (h : (machine o yjs).Runs Any as s) :
    Coalesced o yjs as s where
  once _ := load_once h
  joins topic r hr := by
    have hi := tracked_run h
    have hd : s.destroyed = false := by
      rw [← Bool.not_eq_true]
      intro hd
      rw [hi.ended hd topic] at hr
      contradiction
    rw [acquire_joins hd hr]
    exact ⟨rfl, rfl, rfl, (level_modRec (f := fun rec => { rec with unloading := false })
      rfl rfl).load⟩
  goes i r hr := by
    unfold acquired
    simp only [hr]
    cases hl : (s.recs r).load <;> simp [LoadPhase.pending]
  final a s' hs r hp := by
    have hi := tracked_run h
    cases ha : loads r a with
    | true =>
      rw [(loads_next hi ha hs).1.pending] at hp
      contradiction
    | false =>
      rcases (load_kept hi hs).2.1 r ha with he | ⟨hr, -⟩
      · exact he
      · have hq := (settling_run h).unmade r (Nat.le_of_eq hr.symm)
        cases hl : (s.recs r).load <;> simp_all [LoadPhase.pending, LoadPhase.isQueued]
  failed r hf topic hr := by
    have hreg := (tracked_run h).named.registered hr
    rw [(settling_run h).failed r hf] at hreg
    contradiction
  afresh topic hnone hd := by
    rw [acquire_creates hd hnone]
    refine ⟨JsMap.get?_set_self .., rfl, recs_addRec_self, ?_⟩
    rw [load_once h, (settling_run h).unmade _ (Nat.le_refl _), if_pos rfl]
  gone a s' hs r hlt hr := (load_kept (tracked_run h) hs).2.2 r hlt hr
  stale r a s' hr ha hs := by
    obtain ⟨hload, -⟩ := loads_next (tracked_run h) ha hs
    refine ⟨hload.stale hr, hload.nextRec, hload.acquires, hload.others, fun hd => ?_⟩
    rw [hload.done hd] at hr
    contradiction

end Acquiring

/-- Two acquires share a load; the topic is dropped and acquired again before
that load answers. -/
def droppedWhileLoading : List (Action Nat) :=
  [.acquire "t", .acquire "t", .loadDispatch 0, .drop "t", .acquire "t", .loadAnswer 0 (.bytes [1]),
    .loadReact 0, .acquired 0, .loadDispatch 1, .loadAnswer 1 .nothing]

theorem load_coalescing_example : ∃ s : State Nat,
    (machine {} numbers).Runs Any droppedWhileLoading s ∧ s.acquires = [0, 1] ∧
      s.registered 0 = false ∧ Coalesced {} numbers droppedWhileLoading s := by
  obtain ⟨s, hs⟩ : ∃ s, (machine {} numbers).exec (machine {} numbers).init droppedWhileLoading =
      some s := ⟨_, rfl⟩
  have hrun := runs_of_exec hs
  have hstate : s.acquires = [0, 1] ∧ s.registered 0 = false := by
    cases hs
    decide +kernel
  exact ⟨s, hrun, hstate.1, hstate.2, load_coalescing hrun⟩

end BunServe.Crdt
