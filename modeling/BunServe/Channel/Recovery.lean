import BunServe.Channel

/-!
# BunServe.Channel.Recovery

An open channel always recovers.

Recovery turns on few fields: the generation counter and the in-flight marker,
the synced flag and the degraded latch, the retry timer and the status.
`Kept` and `Calm` say which of them an operation leaves alone.

* `recovering_next` — every step leaves an open channel synced, or a sync of
  its generation in flight, or the retry timer armed;
* `always_recovers` — hence every run does, and only a reply of the current
  generation makes the channel synced or changes what it holds.
-/

namespace BunServe.Channel

open Machine

variable {D U V : Type}

/-! ## the invariant -/

/-- The chain has run to its end. -/
def Phase.isSettled : Phase U V → Bool
  | .settled => true
  | _ => false

/-- A sync of the current generation whose last reaction has not run. -/
def InFlight (s : State D U V) : Prop :=
  ∃ i < s.nextSync, (s.syncs i).gen = s.syncGen ∧ (s.syncs i).phase.isSettled = false

/-- Nothing needs recovering, or the retry timer will see to it. -/
def Quiet (s : State D U V) : Prop :=
  s.destroyed = true ∨ s.lastStatus ≠ "open" ∨ (s.synced = true ∧ s.degraded = false) ∨
    s.retryTimer = true

/-- The marker of the sync in flight is right. -/
structure Flying (s : State D U V) : Prop where
  bounded : ∀ i < s.nextSync, (s.syncs i).gen ≤ s.syncGen
  marker : ∀ g, s.syncInFlightGen = some g → g ≤ s.syncGen
  marked : s.syncInFlightGen = some s.syncGen → InFlight s
  discarded : ∀ i < s.nextSync, (s.syncs i).phase = .discarded →
    s.destroyed = true ∨ (s.syncs i).gen ≠ s.syncGen

/-- The recovery invariant. -/
structure Recovering (s : State D U V) : Prop extends Flying s where
  recovers : Quiet s ∨ InFlight s

/-! ## frames -/

/-- Generations, syncs and the status are as they were. -/
structure Kept (s t : State D U V) : Prop where
  destroyed : t.destroyed = s.destroyed
  syncGen : t.syncGen = s.syncGen
  syncInFlightGen : t.syncInFlightGen = s.syncInFlightGen
  lastStatus : t.lastStatus = s.lastStatus
  syncs : t.syncs = s.syncs
  nextSync : t.nextSync = s.nextSync

/-- So are the flags and the retry timer. -/
structure Calm (s t : State D U V) : Prop extends Kept s t where
  synced : t.synced = s.synced
  degraded : t.degraded = s.degraded
  retryTimer : t.retryTimer = s.retryTimer

section Frames

variable {p : Replica D U V} {s t u : State D U V}

theorem Kept.refl : Kept s s := ⟨rfl, rfl, rfl, rfl, rfl, rfl⟩

theorem Kept.trans (h : Kept s t) (h' : Kept t u) : Kept s u :=
  ⟨h'.destroyed.trans h.destroyed, h'.syncGen.trans h.syncGen,
    h'.syncInFlightGen.trans h.syncInFlightGen, h'.lastStatus.trans h.lastStatus,
    h'.syncs.trans h.syncs, h'.nextSync.trans h.nextSync⟩

theorem Calm.refl : Calm s s := ⟨.refl, rfl, rfl, rfl⟩

theorem Calm.trans (h : Calm s t) (h' : Calm t u) : Calm s u :=
  ⟨h.toKept.trans h'.toKept, h'.synced.trans h.synced, h'.degraded.trans h.degraded,
    h'.retryTimer.trans h.retryTimer⟩

theorem Kept.setPhase (h : Kept s t) (i : Nat) (phase : Phase U V) :
    Kept (s.setPhase i phase) (t.setPhase i phase) :=
  ⟨h.destroyed, h.syncGen, h.syncInFlightGen, h.lastStatus, by simp [State.setPhase, h.syncs],
    h.nextSync⟩

theorem calm_notifyState : Calm s (notifyState s) := by
  unfold notifyState
  split
  · exact ⟨⟨rfl, rfl, rfl, rfl, rfl, rfl⟩, rfl, rfl, rfl⟩
  · exact .refl

theorem calm_checkPending : Calm s (checkPending p s) := by
  unfold checkPending
  split
  · exact .refl
  · split
    · exact ⟨⟨rfl, rfl, rfl, rfl, rfl, rfl⟩, rfl, rfl, rfl⟩
    · exact .refl

theorem calm_applyRemote {b : U} : Calm s (applyRemote p s b) := by
  unfold applyRemote
  split
  · exact .refl
  · split
    · exact .refl
    · refine Calm.trans ?_ calm_checkPending
      exact ⟨⟨rfl, rfl, rfl, rfl, rfl, rfl⟩, rfl, rfl, rfl⟩

theorem calm_replay : Calm s (replay p s) := by
  refine List.foldlRecOn _ _
    ⟨⟨rfl, rfl, rfl, rfl, rfl, rfl⟩, rfl, rfl, rfl⟩ fun t ht f _ => ?_
  split
  · exact ht.trans calm_applyRemote
  · exact ht

theorem calm_takeReply {r : Reply U V} : Calm s (takeReply p s r).1 := by
  have htopic : Calm s (learnTopic s r) := by
    unfold learnTopic
    split
    · split
      · exact ⟨⟨rfl, rfl, rfl, rfl, rfl, rfl⟩, rfl, rfl, rfl⟩
      · exact .refl
    · exact .refl
  have haccess : Calm s (learnAccess (learnTopic s r) r).1 := by
    unfold learnAccess
    split
    · exact htopic.trans ⟨⟨rfl, rfl, rfl, rfl, rfl, rfl⟩, rfl, rfl, rfl⟩
    · exact htopic
  unfold takeReply
  dsimp only
  split
  · exact (haccess.trans calm_applyRemote).trans calm_replay
  · exact haccess.trans calm_replay

theorem failSync_spec : Kept s (failSync s) ∧ Quiet (failSync s) := by
  have hdegraded : Kept s (setDegraded s true) := by
    unfold setDegraded
    split
    · exact .refl
    · refine Kept.trans ?_ calm_notifyState.toKept
      exact ⟨rfl, rfl, rfl, rfl, rfl, rfl⟩
  unfold failSync scheduleRetry
  split
  · next h => exact ⟨hdegraded, h.elim .inl fun h => .inr (.inr (.inr h))⟩
  · exact ⟨hdegraded.trans ⟨rfl, rfl, rfl, rfl, rfl, rfl⟩, .inr (.inr (.inr rfl))⟩

theorem completeSync_spec {changed : Bool} :
    Kept s (completeSync s changed) ∧ Quiet (completeSync s changed) := by
  unfold completeSync
  dsimp only
  split
  · next h => exact ⟨⟨rfl, rfl, rfl, rfl, rfl, rfl⟩, .inr (.inl h)⟩
  have hnotify : ∀ t : State D U V, t.synced = true → t.degraded = false → Kept s t →
      Kept s (notifyState t) ∧ Quiet (notifyState t) := fun t hs hd hk =>
    ⟨hk.trans calm_notifyState.toKept, .inr (.inr (.inl ⟨calm_notifyState.synced.trans hs,
      calm_notifyState.degraded.trans hd⟩))⟩
  split
  · next hd =>
    have hd : s.degraded = true := hd
    simp only [hd]
    exact hnotify _ rfl rfl ⟨rfl, rfl, rfl, rfl, rfl, rfl⟩
  · next hd =>
    have hd : s.degraded = false := by simpa [clearRetry] using hd
    split
    · exact hnotify _ rfl hd ⟨rfl, rfl, rfl, rfl, rfl, rfl⟩
    · exact ⟨⟨rfl, rfl, rfl, rfl, rfl, rfl⟩, .inr (.inr (.inl ⟨rfl, hd⟩))⟩

theorem onReply_spec {r : Reply U V} {throws : Bool} :
    Kept s (onReply p s r throws).1 ∧
      ((onReply p s r throws).2 = false → Quiet (onReply p s r throws).1) := by
  have htake : Calm s (takeReply p s r).1 := calm_takeReply
  unfold onReply
  generalize takeReply p s r = q at htake
  obtain ⟨t, changed⟩ := q
  dsimp only at htake ⊢
  split
  · exact ⟨htake.toKept.trans failSync_spec.1, fun _ => failSync_spec.2⟩
  · split
    · exact ⟨htake.toKept.trans completeSync_spec.1, fun _ => completeSync_spec.2⟩
    · split
      · exact ⟨htake.toKept, nofun⟩
      · have hsent : ∀ xs, Kept t { t with sent := xs } := fun _ => ⟨rfl, rfl, rfl, rfl, rfl, rfl⟩
        exact ⟨(htake.toKept.trans (hsent _)).trans completeSync_spec.1,
          fun _ => completeSync_spec.2⟩

theorem InFlight.of_kept (hf : InFlight s) (h : Kept s t) : InFlight t := by
  obtain ⟨i, hi, hgen, hphase⟩ := hf
  exact ⟨i, h.nextSync ▸ hi, by rw [h.syncs, h.syncGen, hgen], by rw [h.syncs, hphase]⟩

theorem Flying.of_kept (hf : Flying s) (h : Kept s t) : Flying t where
  bounded i hi := by
    rw [h.syncs, h.syncGen]
    exact hf.bounded i (h.nextSync ▸ hi)
  marker g hg := h.syncGen ▸ hf.marker g (h.syncInFlightGen ▸ hg)
  marked hm := (hf.marked (by rwa [h.syncInFlightGen, h.syncGen] at hm)).of_kept h
  discarded i hi hd := by
    rw [h.destroyed, h.syncs, h.syncGen]
    exact hf.discarded i (h.nextSync ▸ hi) (h.syncs ▸ hd)

theorem Quiet.calm (hq : Quiet s) (h : Calm s t) : Quiet t := by
  rw [Quiet, h.destroyed, h.lastStatus, h.synced, h.degraded, h.retryTimer]
  exact hq

theorem Recovering.calm (hr : Recovering s) (h : Calm s t) : Recovering t where
  toFlying := hr.toFlying.of_kept h.toKept
  recovers := hr.recovers.imp (·.calm h) (·.of_kept h.toKept)

end Frames

/-! ## syncs -/

section Syncs

variable {p : Replica D U V} {s t : State D U V} {i : Nat} {phase : Phase U V}

@[simp] theorem syncs_setPhase_self : ((s.setPhase i phase).syncs i).phase = phase := by
  simp [State.setPhase]

@[simp] theorem gen_setPhase {j : Nat} : ((s.setPhase i phase).syncs j).gen = (s.syncs j).gen := by
  by_cases hj : j = i
  · subst hj
    simp [State.setPhase]
  · simp [State.setPhase, hj]

theorem syncs_setPhase_ne {j : Nat} (hj : j ≠ i) : (s.setPhase i phase).syncs j = s.syncs j := by
  simp [State.setPhase, hj]

theorem InFlight.setPhase (hf : InFlight s) (hphase : phase.isSettled = false) :
    InFlight (s.setPhase i phase) := by
  obtain ⟨j, hj, hgen, hunsettled⟩ := hf
  refine ⟨j, hj, gen_setPhase.trans hgen, ?_⟩
  by_cases hji : j = i
  · subst hji
    rw [syncs_setPhase_self, hphase]
  · rw [syncs_setPhase_ne hji, hunsettled]

theorem InFlight.setPhase_ne (hf : InFlight s) (hgen : (s.syncs i).gen ≠ s.syncGen) :
    InFlight (s.setPhase i phase) := by
  obtain ⟨j, hj, hjgen, hunsettled⟩ := hf
  have hji : j ≠ i := by
    rintro rfl
    exact hgen hjgen
  exact ⟨j, hj, gen_setPhase.trans hjgen, by rw [syncs_setPhase_ne hji, hunsettled]⟩

theorem discarded_setPhase (hf : ∀ j < s.nextSync, (s.syncs j).phase = .discarded →
      s.destroyed = true ∨ (s.syncs j).gen ≠ s.syncGen)
    (hdiscard : phase = .discarded → s.destroyed = true ∨ (s.syncs i).gen ≠ s.syncGen) :
    ∀ j < s.nextSync, ((s.setPhase i phase).syncs j).phase = .discarded →
      s.destroyed = true ∨ ((s.setPhase i phase).syncs j).gen ≠ s.syncGen := by
  intro j hj hd
  rw [gen_setPhase]
  by_cases hji : j = i
  · subst hji
    exact hdiscard (syncs_setPhase_self.symm.trans hd)
  · exact hf j hj (syncs_setPhase_ne hji ▸ hd)

theorem Flying.setPhase (hf : Flying s) (hphase : phase.isSettled = false)
    (hdiscard : phase = .discarded → s.destroyed = true ∨ (s.syncs i).gen ≠ s.syncGen) :
    Flying (s.setPhase i phase) where
  bounded j hj := Nat.le_trans (Nat.le_of_eq gen_setPhase) (hf.bounded j hj)
  marker := hf.marker
  marked hm := (hf.marked hm).setPhase hphase
  discarded := discarded_setPhase hf.discarded hdiscard

theorem Flying.leave (hf : Flying s) (hphase : phase ≠ .discarded) :
    Flying ((leaveFlight s (s.syncs i).gen).setPhase i phase) where
  bounded j hj := Nat.le_trans (Nat.le_of_eq gen_setPhase) (hf.bounded j hj)
  marker g hg := by
    simp only [leaveFlight] at hg
    split at hg
    · contradiction
    · exact hf.marker g hg
  marked hm := by
    simp only [leaveFlight] at hm
    obtain ⟨hne, hm⟩ := Option.ite_none_left_eq_some.mp hm
    refine InFlight.setPhase_ne ?_ fun hgen => hne ?_
    · exact hf.marked hm
    · exact hm.trans (congrArg some hgen.symm)
  discarded :=
    discarded_setPhase hf.discarded fun h => absurd h hphase

theorem Flying.resync (hf : Flying s) : Recovering (resync p s) := by
  unfold Channel.resync
  split
  · next hd => exact ⟨hf, .inl (.inl hd)⟩
  split
  · next hm => exact ⟨hf, .inr (hf.marked hm)⟩
  generalize (p.encodeStateVector s.doc).getD p.noVector = sv
  have hflight : InFlight { s with
      syncs := Function.update s.syncs s.nextSync ⟨s.syncGen, sv, .queued⟩
      nextSync := s.nextSync + 1 } :=
    ⟨s.nextSync, Nat.lt_succ_self _, by simp, by simp [Phase.isSettled]⟩
  refine ⟨⟨fun j hj => ?_, fun g hg => Nat.le_of_eq (Option.some.inj hg).symm, fun _ => hflight,
    fun j hj => ?_⟩, .inr hflight⟩
  · rcases Nat.lt_succ_iff_lt_or_eq.mp hj with hj | rfl
    · simpa [Nat.ne_of_lt hj] using hf.bounded j hj
    · simp
  · rcases Nat.lt_succ_iff_lt_or_eq.mp hj with hj | rfl
    · simpa [Nat.ne_of_lt hj] using hf.discarded j hj
    · simp

end Syncs

/-! ## steps -/

section Steps

variable {o : Options} {p : Replica D U V} {s s' : State D U V} {i : Nat} {throws : Bool}

theorem Quiet.setPhase {phase : Phase U V} (hq : Quiet s) : Quiet (s.setPhase i phase) := hq

theorem recovering_send (hr : Recovering s) (hs : send s i = some s') : Recovering s' := by
  unfold send at hs
  split at hs
  · split at hs
    · split at hs
      · next hover =>
        cases hs
        exact ⟨hr.toFlying.setPhase rfl fun _ => hover,
          hr.recovers.imp (·.setPhase) (·.setPhase rfl)⟩
      · cases hs
        have hsent : Recovering (s.setPhase i .sent) :=
          ⟨hr.toFlying.setPhase rfl nofun, hr.recovers.imp (·.setPhase) (·.setPhase rfl)⟩
        exact hsent.calm ⟨⟨rfl, rfl, rfl, rfl, rfl, rfl⟩, rfl, rfl, rfl⟩
    · contradiction
  · contradiction

theorem recovering_answer {a : Answer U V} (hr : Recovering s) (hs : answer s i a = some s') :
    Recovering s' := by
  unfold answer at hs
  split at hs
  · split at hs
    · cases hs
      exact ⟨hr.toFlying.setPhase rfl nofun, hr.recovers.imp (·.setPhase) (·.setPhase rfl)⟩
    · contradiction
  · contradiction

theorem flying_settle (hf : Flying s) :
    Flying (leaveFlight (s.setPhase i .settled) (s.syncs i).gen) := by
  have hne : (Phase.settled : Phase U V) ≠ .discarded := nofun
  exact hf.leave hne

theorem recovering_stale (hr : Recovering s)
    (hover : s.destroyed = true ∨ (s.syncs i).gen ≠ s.syncGen) :
    Recovering (leaveFlight (s.setPhase i .settled) (s.syncs i).gen) := by
  refine ⟨flying_settle hr.toFlying, ?_⟩
  rcases hover with hd | hgen
  · exact .inl (.inl hd)
  · exact hr.recovers.imp id fun hf => hf.setPhase_ne hgen

theorem recovering_onFailure (hr : Recovering s) : Recovering (onFailure s i) := by
  unfold onFailure
  dsimp only
  split
  · next hover => exact recovering_stale hr hover
  · exact ⟨(flying_settle hr.toFlying).of_kept failSync_spec.1, .inl failSync_spec.2⟩

theorem recovering_react (hr : Recovering s) (hs : react p s i throws = some s') :
    Recovering s' := by
  unfold react at hs
  dsimp only at hs
  obtain ⟨hlt, hs⟩ := Option.ite_none_right_eq_some.mp hs
  split at hs
  · next hd =>
    exact Option.some.inj hs ▸ recovering_stale hr (hr.discarded i hlt hd)
  · exact Option.some.inj hs ▸ recovering_onFailure hr
  · exact Option.some.inj hs ▸ recovering_onFailure hr
  · next r _ =>
    split at hs
    · next hover => exact Option.some.inj hs ▸ recovering_stale hr hover
    rename_i hcurrent
    cases hs
    rw [not_or, not_not] at hcurrent
    obtain ⟨hkept, hquiet⟩ :=
      @onReply_spec _ _ _ p (leaveFlight s (s.syncs i).gen) r throws
    have hflying := fun phase (h : phase ≠ .discarded) =>
      (hr.toFlying.leave h).of_kept (hkept.setPhase i phase)
    split
    · -- the sync itself is in flight until what it threw is caught
      refine ⟨hflying .threw nofun, .inr (InFlight.of_kept ?_ (hkept.setPhase i _))⟩
      exact ⟨i, hlt, gen_setPhase.trans hcurrent.2, by rw [syncs_setPhase_self]; rfl⟩
    · next hthrew =>
      exact ⟨hflying .settled nofun, .inl (hquiet (by simpa using hthrew)).setPhase⟩
  · exact Option.some.inj hs ▸ recovering_onFailure hr
  · contradiction

theorem flying_status {status : String} (hf : Flying s) :
    Flying { s with lastStatus := status, syncGen := s.syncGen + 1 } where
  bounded j hj := Nat.le_succ_of_le (hf.bounded j hj)
  marker g hg := Nat.le_succ_of_le (hf.marker g hg)
  marked hm := absurd (hf.marker _ hm) (Nat.not_succ_le_self _)
  discarded j hj _ := .inr (Nat.ne_of_lt (Nat.lt_succ_of_le (hf.bounded j hj)))

theorem recovering_onStatus {status : String} (hr : Recovering s) :
    Recovering (onStatus p s status) := by
  obtain ⟨t, hbump, ht, hstatus⟩ : ∃ t : State D U V,
      (if status ≠ s.lastStatus then
        { s with lastStatus := status, syncGen := s.syncGen + 1 }
      else { s with lastStatus := status }) = t ∧ Flying t ∧ t.lastStatus = status := by
    refine ⟨_, rfl, ?_, by split <;> rfl⟩
    split
    · exact flying_status hr.toFlying
    · exact ⟨hr.bounded, hr.marker, hr.marked, hr.discarded⟩
  unfold onStatus
  dsimp only
  split
  · next hd => exact ⟨⟨hr.bounded, hr.marker, hr.marked, hr.discarded⟩, .inl (.inl hd)⟩
  rw [hbump]
  have hdown : Flying { t with synced := false } := ht.of_kept ⟨rfl, rfl, rfl, rfl, rfl, rfl⟩
  split
  · exact hdown.resync
  · next hclosed =>
    have hquiet : ∀ u : State D U V, u.lastStatus = status → Quiet u := fun u hu =>
      .inr (.inl (hu ▸ hclosed))
    split
    · have hnotify := calm_notifyState (s := { t with synced := false })
      exact ⟨hdown.of_kept hnotify.toKept, .inl (hquiet _ (hnotify.lastStatus.trans hstatus))⟩
    · exact ⟨ht, .inl (hquiet t hstatus)⟩

theorem calm_onFrame {topic : String} {bytes : U} : Calm s (onFrame p s topic bytes) := by
  unfold onFrame
  split
  · exact .refl
  · split
    · split
      · exact calm_applyRemote
      · exact .refl
    · split
      · exact .refl
      · exact ⟨⟨rfl, rfl, rfl, rfl, rfl, rfl⟩, rfl, rfl, rfl⟩

theorem calm_onTap {bytes : U} : Calm s (onTap p s bytes) := by
  unfold onTap
  split
  · exact .refl
  · exact calm_applyRemote

theorem calm_edit {u : U} : Calm s (edit p s u) := by
  unfold edit
  split
  · dsimp only
    split <;> exact ⟨⟨rfl, rfl, rfl, rfl, rfl, rfl⟩, rfl, rfl, rfl⟩
  · exact .refl

theorem calm_onState : Calm s (onState s) := by
  refine Calm.trans ?_ calm_notifyState
  exact ⟨⟨rfl, rfl, rfl, rfl, rfl, rfl⟩, rfl, rfl, rfl⟩

theorem recovering_fireRetry (hr : Recovering s) (hs : fireRetry p s = some s') :
    Recovering s' := by
  have hfired : Flying { s with retryTimer := false } := hr.toFlying.of_kept ⟨rfl, rfl, rfl, rfl, rfl, rfl⟩
  unfold fireRetry at hs
  dsimp only at hs
  obtain ⟨-, hs⟩ := Option.ite_none_right_eq_some.mp hs
  split at hs
  · next hidle =>
    cases hs
    exact ⟨hfired, .inl (hidle.imp id .inl)⟩
  · split at hs
    · exact Option.some.inj hs ▸ hfired.resync
    · next hsynced =>
      cases hs
      refine ⟨hfired, .inl (.inr (.inr (.inl ?_)))⟩
      simp only [not_or, Bool.not_eq_true, Bool.not_eq_false'] at hsynced
      exact ⟨hsynced.1, hsynced.2.1⟩

theorem calm_scheduleReconcile : Calm s (scheduleReconcile o s) := by
  unfold scheduleReconcile
  split
  · exact .refl
  · exact ⟨⟨rfl, rfl, rfl, rfl, rfl, rfl⟩, rfl, rfl, rfl⟩

theorem recovering_firePendingResync (hr : Recovering s) (hs : firePendingResync p s = some s') :
    Recovering s' := by
  have hfired : Calm s { s with pendingResyncTimer := false } :=
    ⟨⟨rfl, rfl, rfl, rfl, rfl, rfl⟩, rfl, rfl, rfl⟩
  unfold firePendingResync at hs
  dsimp only at hs
  split at hs
  · split at hs
    · exact Option.some.inj hs ▸ hr.calm hfired
    · split at hs
      · exact Option.some.inj hs ▸ (hr.calm hfired).toFlying.resync
      · exact Option.some.inj hs ▸ hr.calm hfired
  · contradiction

theorem recovering_fireReconcile (hr : Recovering s) (hs : fireReconcile o p s = some s') :
    Recovering s' := by
  have hfired : Calm s { s with reconcileTimer := false } :=
    ⟨⟨rfl, rfl, rfl, rfl, rfl, rfl⟩, rfl, rfl, rfl⟩
  unfold fireReconcile at hs
  dsimp only at hs
  split at hs
  · split at hs
    · exact Option.some.inj hs ▸ hr.calm hfired
    · split at hs
      · exact Option.some.inj hs ▸ (hr.calm hfired).toFlying.resync.calm calm_scheduleReconcile
      · exact Option.some.inj hs ▸ (hr.calm hfired).calm calm_scheduleReconcile
  · contradiction

theorem recovering_destroy (hr : Recovering s) : Recovering (destroy o s) := by
  unfold destroy
  split
  · exact hr
  · exact ⟨⟨hr.bounded, hr.marker, hr.marked, fun _ _ _ => .inl rfl⟩, .inl (.inl rfl)⟩

theorem recovering_next {a : Action U V} (hr : Recovering s)
    (hs : (machine o p).next s a = some s') : Recovering s' := by
  cases a with
  | status status => exact Option.some.inj hs ▸ recovering_onStatus hr
  | resync => exact Option.some.inj hs ▸ hr.toFlying.resync
  | send i => exact recovering_send hr hs
  | answer i a => exact recovering_answer hr hs
  | react i throws => exact recovering_react hr hs
  | frame topic bytes => exact Option.some.inj hs ▸ hr.calm calm_onFrame
  | tap bytes => exact Option.some.inj hs ▸ hr.calm calm_onTap
  | edit u => exact Option.some.inj hs ▸ hr.calm calm_edit
  | onState => exact Option.some.inj hs ▸ hr.calm calm_onState
  | retry => exact recovering_fireRetry hr hs
  | pendingResync => exact recovering_firePendingResync hr hs
  | reconcile => exact recovering_fireReconcile hr hs
  | destroy => exact Option.some.inj hs ▸ recovering_destroy hr

theorem recovering_run {ok : State D U V → Action U V → Prop} {as : List (Action U V)}
    (h : (machine o p).Runs ok as s) : Recovering s :=
  Runs.invariant
    ⟨⟨by simp [machine, State.init], by simp [machine, State.init], by simp [machine, State.init],
      by simp [machine, State.init]⟩, .inl (.inr (.inl (by simp [machine, State.init])))⟩
    (fun _ _ _ hr _ hs => recovering_next hr hs) h

/-! ## earlier generations -/

theorem react_stale (hs : react p s i throws = some s') (hgen : (s.syncs i).gen ≠ s.syncGen) :
    s' = leaveFlight (s.setPhase i .settled) (s.syncs i).gen := by
  have hfail : onFailure s i = leaveFlight (s.setPhase i .settled) (s.syncs i).gen := by
    unfold onFailure
    exact if_pos (.inr hgen)
  obtain ⟨-, hs⟩ := by simpa [react] using hs
  split at hs
  · exact (Option.some.inj hs).symm
  · exact (Option.some.inj hs).symm.trans hfail
  · exact (Option.some.inj hs).symm.trans hfail
  · rw [if_pos (.inr hgen)] at hs
    exact (Option.some.inj hs).symm
  · exact (Option.some.inj hs).symm.trans hfail
  · contradiction

theorem synced_resync : (resync p s).synced = s.synced := by
  unfold resync
  split
  · rfl
  · split <;> rfl

theorem synced_onFailure : (onFailure s i).synced = s.synced := by
  have hdegraded : ∀ t : State D U V, (setDegraded t true).synced = t.synced := by
    intro t
    unfold setDegraded
    split
    · rfl
    · exact calm_notifyState.synced
  unfold onFailure
  dsimp only
  split
  · rfl
  · unfold failSync scheduleRetry
    split <;> exact hdegraded _

theorem synced_onStatus {status : String} (h : s.synced = false) :
    (onStatus p s status).synced = false := by
  unfold onStatus
  dsimp only
  split
  · exact h
  split
  · exact synced_resync
  · next hs =>
    have hbump : ∀ t : State D U V, t.synced = false →
        (if t.synced then notifyState { t with synced := false } else t).synced = false := by
      intro t ht
      simp [ht]
    refine hbump _ ?_
    split <;> exact h

theorem synced_timers {a : Action U V} (ha : a = .retry ∨ a = .pendingResync ∨ a = .reconcile)
    (hs : (machine o p).next s a = some s') : s'.synced = s.synced := by
  rcases ha with rfl | rfl | rfl
  · simp only [machine, fireRetry] at hs
    split at hs
    · split at hs
      · exact Option.some.inj hs ▸ rfl
      · split at hs
        · exact Option.some.inj hs ▸ synced_resync
        · exact Option.some.inj hs ▸ rfl
    · contradiction
  · simp only [machine, firePendingResync] at hs
    split at hs
    · split at hs
      · exact Option.some.inj hs ▸ rfl
      · split at hs
        · exact Option.some.inj hs ▸ synced_resync
        · exact Option.some.inj hs ▸ rfl
    · contradiction
  · simp only [machine, fireReconcile] at hs
    split at hs
    · split at hs
      · exact Option.some.inj hs ▸ rfl
      · split at hs
        · exact Option.some.inj hs ▸ calm_scheduleReconcile.synced.trans synced_resync
        · exact Option.some.inj hs ▸ calm_scheduleReconcile.synced
    · contradiction

theorem synced_next {a : Action U V} (hs : (machine o p).next s a = some s')
    (hbefore : s.synced = false) (hafter : s'.synced = true) :
    ∃ i throws r, a = .react i throws ∧ (s.syncs i).gen = s.syncGen ∧
      (s.syncs i).phase = .answered (.reply r) := by
  have hsame : s'.synced = s.synced → False := fun h => by
    rw [h, hbefore] at hafter
    contradiction
  cases a with
  | status status =>
    exact (hsame (Option.some.inj hs ▸ (synced_onStatus hbefore).trans hbefore.symm)).elim
  | resync => exact (hsame (Option.some.inj hs ▸ synced_resync)).elim
  | send i =>
    simp only [machine, send] at hs
    split at hs
    · split at hs
      · split at hs <;> exact (hsame (Option.some.inj hs ▸ rfl)).elim
      · contradiction
    · contradiction
  | answer i a =>
    simp only [machine, answer] at hs
    split at hs
    · split at hs
      · exact (hsame (Option.some.inj hs ▸ rfl)).elim
      · contradiction
    · contradiction
  | react i throws =>
    by_cases hgen : (s.syncs i).gen = s.syncGen
    · simp only [machine, react] at hs
      split at hs
      · split at hs
        · exact (hsame (Option.some.inj hs ▸ rfl)).elim
        · exact (hsame (Option.some.inj hs ▸ synced_onFailure)).elim
        · exact (hsame (Option.some.inj hs ▸ synced_onFailure)).elim
        · next r hr => exact ⟨i, throws, r, rfl, hgen, hr⟩
        · exact (hsame (Option.some.inj hs ▸ synced_onFailure)).elim
        · contradiction
      · contradiction
    · exact (hsame (react_stale hs hgen ▸ rfl)).elim
  | frame topic bytes => exact (hsame (Option.some.inj hs ▸ calm_onFrame.synced)).elim
  | tap bytes => exact (hsame (Option.some.inj hs ▸ calm_onTap.synced)).elim
  | edit u => exact (hsame (Option.some.inj hs ▸ calm_edit.synced)).elim
  | onState => exact (hsame (Option.some.inj hs ▸ calm_onState.synced)).elim
  | retry => exact (hsame (synced_timers (.inl rfl) hs)).elim
  | pendingResync => exact (hsame (synced_timers (.inr (.inl rfl)) hs)).elim
  | reconcile => exact (hsame (synced_timers (.inr (.inr rfl)) hs)).elim
  | destroy =>
    cases hs
    refine (hsame ?_).elim
    unfold destroy
    split <;> rfl

/-- **Recovery**: in every reachable state of a live channel on an open
connection, the channel is synced and not degraded, or a sync of the current
generation is in flight, or the retry timer is armed.  A reply of an earlier
generation only ends its own sync: the document, the topic, the access and the
flags stay, and only a reply of the current one makes the channel synced. -/
theorem always_recovers {as : List (Action U V)} (h : (machine o p).Runs Any as s) :
    (s.destroyed = false → s.lastStatus = "open" →
      (s.synced = true ∧ s.degraded = false) ∨ InFlight s ∨ s.retryTimer = true) ∧
      (∀ i throws s', react p s i throws = some s' → (s.syncs i).gen ≠ s.syncGen →
        s' = leaveFlight (s.setPhase i .settled) (s.syncs i).gen) ∧
      ∀ a s', (machine o p).next s a = some s' → s.synced = false → s'.synced = true →
        ∃ i throws r, a = .react i throws ∧ (s.syncs i).gen = s.syncGen ∧
          (s.syncs i).phase = .answered (.reply r) := by
  refine ⟨fun hd hopen => ?_, fun _ _ _ hs hgen => react_stale hs hgen,
    fun _ _ hs hb ha => synced_next hs hb ha⟩
  rcases (recovering_run h).recovers with hq | hf
  · rcases hq with hq | hq | hq | hq
    · rw [hd] at hq
      contradiction
    · exact absurd hopen hq
    · exact .inl hq
    · exact .inr (.inr hq)
  · exact .inr (.inl hf)

end Steps

/-! ## a run -/

/-- Documents as lists of updates; nothing is ever missing. -/
def lists : Replica (List Nat) Nat Nat where
  doc := []
  applyUpdate d u := some (d ++ [u])
  pending _ := false
  encodeStateVector d := some d.length
  noVector := 0
  encodeStateAsUpdate _ _ := none
  isEmptyUpdate _ := false
  noBytes _ := false
  noVectorBytes _ := false

/-- The connection flaps with a request out; its reply comes in the next
generation, whose own sync fails. -/
def flapped : List (Action Nat Nat) :=
  [.status "open", .send 0, .status "disconnected", .status "open", .send 1,
    .answer 0 (.reply ⟨some "t", none, some 7, none⟩), .react 0 false, .answer 1 .rejected,
    .react 1 false]

theorem always_recovers_example : ∃ s : State (List Nat) Nat Nat,
    (machine {} lists).Runs Any flapped s ∧ s.doc = [] ∧ s.synced = false ∧
      ((s.synced = true ∧ s.degraded = false) ∨ InFlight s ∨ s.retryTimer = true) := by
  obtain ⟨s, hs⟩ : ∃ s, (machine {} lists).exec (machine {} lists).init flapped = some s := ⟨_, rfl⟩
  have hrun := runs_of_exec hs
  have hstate : s.destroyed = false ∧ s.lastStatus = "open" ∧ s.doc = [] ∧ s.synced = false := by
    cases hs
    decide +kernel
  obtain ⟨hd, hopen, hdoc, hsynced⟩ := hstate
  exact ⟨s, hrun, hdoc, hsynced, (always_recovers hrun).1 hd hopen⟩

end BunServe.Channel
