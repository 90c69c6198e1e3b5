import BunServe.Crdt.Unload

/-!
# BunServe.Crdt.Flush

Flush report soundness: when `persistNow` resolves with `ok`, every update
accepted on its topics is in a blob that landed.

The report is computed from the outcomes the flush waited for and the dirty
flags at the end.  `WaitsWell` is what the waiting keeps, and makes a flush that
meets its deadline report a timeout; an `ok` report is sound where the clean
targets have their newest store settled (`Unconfirmed`).  A capture that a
timer takes while the flush waits clears the flag without being waited for:
`captured_edit_reported_ok` is such a run.
-/

namespace BunServe.Crdt

open Machine
open Function (update update_of_ne update_self)

variable {U : Type}

/-! ## the operations that leave the flushes alone -/

section Frame

variable {o : Options} {s s' : State U} {r h f : Nat}

@[simp] theorem flushes_modRec {g : TopicRecord U → TopicRecord U} :
    (s.modRec r g).flushes = s.flushes := rfl

@[simp] theorem flushes_modAttempt {g : Attempt U → Attempt U} :
    (s.modAttempt h g).flushes = s.flushes := rfl

@[simp] theorem topics_modAttempt {g : Attempt U → Attempt U} :
    (s.modAttempt h g).topics = s.topics := rfl

@[simp] theorem flushes_addAttempt {a : Attempt U} : (s.addAttempt a).flushes = s.flushes := rfl

@[simp] theorem flushes_modFlush_self {g : Flush → Flush} :
    (s.modFlush f g).flushes f = g (s.flushes f) := by
  simp [State.modFlush]

theorem flushes_modFlush_ne {f' : Nat} {g : Flush → Flush} (hne : f ≠ f') :
    (s.modFlush f' g).flushes f = s.flushes f := by
  simp [State.modFlush, hne]

theorem foldl_keeps {α β γ : Type} {k : β → α → β} {g : β → γ}
    (hk : ∀ b a, g (k b a) = g b) (l : List α) (b : β) : g (l.foldl k b) = g b := by
  induction l generalizing b with
  | nil => rfl
  | cons a l ih => rw [List.foldl_cons, ih, hk]

@[simp] theorem flushes_armRetry : (armRetry o s r).flushes = s.flushes := by
  unfold armRetry
  split <;> simp

@[simp] theorem flushes_keepDirty {n : Nat} : (keepDirty o s r n).flushes = s.flushes := by
  simp [keepDirty]

@[simp] theorem flushes_abandon {silent : Bool} : (abandon o s r h silent).flushes = s.flushes := by
  simp only [abandon]
  repeat' split
  all_goals simp

@[simp] theorem flushes_abortInFlight : (abortInFlight o s r).flushes = s.flushes := by
  exact foldl_keeps (fun _ _ => flushes_abandon) _ s

@[simp] theorem flushes_unload : (unload o s r).flushes = s.flushes := by
  simp only [unload]
  split <;> simp

@[simp] theorem flushes_storeNow {flush : Option Nat} :
    (storeNow o s r flush).1.flushes = s.flushes := by
  simp only [storeNow]
  split <;> simp

@[simp] theorem flushes_settleAs {out : Outcome} : (settleAs s h out).flushes = s.flushes := rfl

@[simp] theorem flushes_leaveInflight : (leaveInflight s h).flushes = s.flushes := rfl

@[simp] theorem flushes_onResolved {value : Bool} :
    (onResolved o s h value).flushes = s.flushes := by
  simp only [onResolved]
  repeat' split
  all_goals simp

@[simp] theorem flushes_afterReport : (afterReport o s h).flushes = s.flushes := by
  simp only [afterReport]
  repeat' split
  all_goals simp

@[simp] theorem flushes_onRejected : (onRejected s h).flushes = s.flushes := by
  simp only [onRejected]
  split <;> simp

@[simp] theorem flushes_loadFailed : (loadFailed o s r).flushes = s.flushes := by
  simp only [loadFailed]
  split <;> simp

@[simp] theorem flushes_giveUp : (giveUp o f r s h).flushes = s.flushes := by
  simp only [giveUp]
  repeat' split
  all_goals simp

@[simp] theorem flushes_forgetWaiter : (forgetWaiter s f r).flushes = s.flushes := by
  exact foldl_keeps (fun _ _ => flushes_modAttempt) _ s

@[simp] theorem flushes_flushOne : (flushOne o s r f).1.flushes = s.flushes := by
  have hjoin := foldl_keeps
    (k := fun (s : State U) h => s.modAttempt h fun a =>
      { a with waiters := if f ∈ a.waiters then a.waiters else a.waiters ++ [f] })
    (fun _ _ => flushes_modAttempt) (s.recs r).inflight s
  simp only [flushOne]
  split
  · rw [flushes_storeNow, hjoin]
  · exact hjoin

def flushing : Action U → Bool
  | .persistNow _ _ => true
  | .flushReact _ _ => true
  | .flushDeadline _ => true
  | _ => false

theorem flushes_next [DecidableEq U] {yjs : Yjs U} {a : Action U} (ha : flushing a = false)
    (hs : (machine o yjs).next s a = some s') : s'.flushes = s.flushes := by
  cases a with
  | persistNow topic timeout | flushReact f topic | flushDeadline f => contradiction
  | acquire topic =>
    cases hs
    simp only [acquire]
    repeat' split
    all_goals simp [State.addRec]
  | loadDispatch r =>
    simp only [machine, loadDispatch] at hs
    grind [flushes_modRec]
  | loadAnswer r ans =>
    simp only [machine, loadAnswer] at hs
    grind [flushes_modRec]
  | loadReact r =>
    simp only [machine, loadReact] at hs
    grind [flushes_modRec, flushes_loadFailed]
  | acquired i =>
    simp only [machine, acquired] at hs
    grind [flushes_modRec]
  | release topic =>
    cases hs
    simp only [release]
    repeat' split
    all_goals simp
  | check r i =>
    simp only [machine, check] at hs
    grind [flushes_modRec, flushes_unload]
  | applyUpdate topic u =>
    cases hs
    simp only [applyUpdate, scheduleStore]
    repeat' split
    all_goals simp
  | timer r =>
    simp only [machine, timer] at hs
    grind [flushes_modRec, flushes_storeNow]
  | dispatch h =>
    simp only [machine, dispatch] at hs
    grind [flushes_modAttempt]
  | answer h ans =>
    simp only [machine, answer] at hs
    grind [flushes_modAttempt]
  | react h =>
    simp only [machine, react] at hs
    grind [flushes_onResolved, flushes_onRejected, flushes_afterReport]
  | chainSettle h =>
    simp only [machine, chainSettle] at hs
    grind [flushes_modAttempt]
  | drop topic =>
    cases hs
    simp only [drop]
    split <;> simp
  | destroy =>
    cases hs
    simp only [destroy]
    split
    · rfl
    · exact foldl_keeps (g := State.flushes) (fun _ _ => by simp) _ _
  | tick ms =>
    cases hs
    rfl

end Frame

/-! ## the operations on flushes -/

section Flushes

variable {o : Options} {s s' : State U} {f : Nat}

theorem flushes_awaitTarget {t : String × Nat} : ∃ chain, (awaitTarget o f s t).flushes =
    update s.flushes f { s.flushes f with
      pending := (s.flushes f).pending ++ [⟨t.1, t.2, chain⟩] } := by
  have hone : (flushOne o s t.2 f).1.flushes = s.flushes := flushes_flushOne
  unfold awaitTarget
  split
  next t chain hflush =>
    rw [hflush] at hone
    refine ⟨chain, ?_⟩
    rw [← hone]
    rfl

/-- The pending topics after the wait on `targets` has started, by induction on
the targets. -/
theorem flushes_awaitAll (targets : List (String × Nat)) (s : State U) : ∃ pend,
    pend.map (fun w => (w.topic, w.record)) = targets ∧
      (targets.foldl (awaitTarget o f) s).flushes = update s.flushes f
        { s.flushes f with pending := (s.flushes f).pending ++ pend } := by
  induction targets generalizing s with
  | nil => exact ⟨[], rfl, by simp⟩
  | cons t ts ih =>
    obtain ⟨chain, hone⟩ := flushes_awaitTarget
    obtain ⟨pend, hmap, hrest⟩ := ih (awaitTarget o f s t)
    refine ⟨⟨t.1, t.2, chain⟩ :: pend, by simp [hmap], ?_⟩
    rw [List.foldl_cons, hrest, hone]
    simp

theorem forgetAll (targets : List (String × Nat)) (s : State U) :
    let t := targets.foldl (fun s t => forgetWaiter s f t.2) s
    t.recs = s.recs ∧ t.topics = s.topics ∧ t.flushes = s.flushes ∧ Same s t := by
  have hone : ∀ (s : State U) r, (forgetWaiter s f r).recs = s.recs ∧
      (forgetWaiter s f r).topics = s.topics ∧ Same s (forgetWaiter s f r) := by
    intro s r
    refine ⟨?_, ?_, ?_⟩
    · exact foldl_keeps (fun _ _ => recs_modAttempt) _ s
    · exact foldl_keeps (fun _ _ => topics_modAttempt) _ s
    · exact List.foldlRecOn _ _ (Same.refl s) fun _ hs _ _ =>
        hs.trans (same_modAttempt rfl rfl fun hl => hl)
  refine ⟨foldl_keeps (fun s (t : String × Nat) => (hone s t.2).1) _ s,
    foldl_keeps (fun s (t : String × Nat) => (hone s t.2).2.1) _ s,
    foldl_keeps (fun _ _ => flushes_forgetWaiter) _ s, ?_⟩
  exact List.foldlRecOn _ _ (Same.refl s) fun t ht w _ => ht.trans (hone t w.2).2.2

theorem flushes_finish : (finish o s f).flushes = update s.flushes f { s.flushes f with
    timer := none
    result := some (buildFlushResult o s (s.flushes f).targets (s.flushes f).outcomes) } := by
  obtain ⟨hrecs, htopics, hflushes, -⟩ := forgetAll (f := f) (s.flushes f).targets s
  simp only [finish, State.modFlush, hflushes, buildFlushResult, hrecs, htopics]

theorem finish_same : Same s (finish o s f) := by
  obtain ⟨-, -, -, hsame⟩ := forgetAll (s.flushes f).targets s
  exact { hsame with }

theorem finish_recs : (finish o s f).recs = s.recs :=
  (forgetAll (s.flushes f).targets s).1

theorem flushes_timeOut {w : Wait} : (timeOut o f s w).flushes = update s.flushes f
    { s.flushes f with outcomes := (s.flushes f).outcomes ++ [(w.topic, .timedOut)] } := by
  exact foldl_keeps (fun _ _ => flushes_giveUp) _ _

theorem flushes_timeOutAll (ws : List Wait) (s : State U) :
    (ws.foldl (timeOut o f) s).flushes = update s.flushes f { s.flushes f with
      outcomes := (s.flushes f).outcomes ++ ws.map fun w => (w.topic, .timedOut) } := by
  induction ws generalizing s with
  | nil => simp
  | cons w ws ih =>
    rw [List.foldl_cons, ih, flushes_timeOut]
    simp

/-- What an `ok` report says of the state it was built in. -/
theorem buildFlushResult_ok {targets : List (String × Nat)}
    {outcomes : List (String × FlushOutcome)} :
    (buildFlushResult o s targets outcomes).ok = true ↔ ∀ t ∈ targets,
      outcomes.lookup t.1 = some (.stored .durable) ∧
        ((s.recs t.2).dirty = true → s.topics.get? t.1 ≠ some t.2) := by
  simp [buildFlushResult]

end Flushes

/-! ## waiting -/

/-- A flush waits on topics of its own that have no outcome yet, and its timer
runs only while it waits. -/
structure WaitsWell (fl : Flush) : Prop where
  target : ∀ w ∈ fl.pending, ∃ r, (w.topic, r) ∈ fl.targets
  undecided : ∀ w ∈ fl.pending, fl.outcomes.lookup w.topic = none
  timed : fl.timer.isSome = true → fl.pending ≠ []

section Waiting

variable {o : Options} {s s' : State U} {f : Nat}

theorem waitsWell_finish (hother : ∀ g ≠ f, WaitsWell (s.flushes g))
    (htarget : ∀ w ∈ (s.flushes f).pending, ∃ r, (w.topic, r) ∈ (s.flushes f).targets)
    (hopen : ∀ w ∈ (s.flushes f).pending, (s.flushes f).outcomes.lookup w.topic = none) (g : Nat) :
    WaitsWell ((finish o s f).flushes g) := by
  rw [flushes_finish]
  by_cases hg : g = f
  · subst hg
    rw [update_self]
    exact ⟨htarget, hopen, by simp⟩
  · rw [update_of_ne hg]
    exact hother g hg

theorem waitsWell_persistNow {topic : Option String} {timeout : Option (Option Nat)}
    (hw : ∀ f, WaitsWell (s.flushes f)) (g : Nat) :
    WaitsWell ((persistNow o s topic timeout).flushes g) := by
  have hrun : ∀ targets d, ∀ g, WaitsWell ((runFlush o s targets d).flushes g) := by
    intro targets d
    unfold runFlush
    dsimp only
    generalize hs₀ : ({ s with
      flushes := _
      nextFlush := _ } : State U) = s₀
    obtain ⟨pend, hmap, hflush⟩ := flushes_awaitAll targets s₀
    have hfresh : s₀.flushes = update s.flushes s.nextFlush
        ⟨targets, d.map (s.now + ·), [], [], none, none⟩ := by rw [← hs₀]
    have hwait : ∀ g, WaitsWell ((targets.foldl (awaitTarget o s.nextFlush) s₀).flushes g) := by
      intro g
      rw [hflush, hfresh]
      by_cases hg : g = s.nextFlush
      · subst hg
        refine ⟨fun w hwp => ⟨w.record, ?_⟩, by simp, by simp⟩
        simp only [update_self] at hwp ⊢
        rw [← hmap]
        exact List.mem_map_of_mem hwp
      · simp only [update_of_ne hg]
        exact hw g
    split
    · exact waitsWell_finish (fun g _ => hwait g) (hwait _).target (hwait _).undecided
    rename_i hne
    intro g
    by_cases hg : g = s.nextFlush
    · subst hg
      rw [flushes_modFlush_self]
      refine ⟨(hwait _).target, (hwait _).undecided, fun _ => ?_⟩
      rw [hflush, hfresh]
      simp only [update_self, List.nil_append]
      intro hnil
      rw [← hmap, hnil] at hne
      exact hne rfl
    · rw [flushes_modFlush_ne hg]
      exact hwait g
  exact hrun _ _ g

theorem waitsWell_flushReact {topic : String} (hw : ∀ f, WaitsWell (s.flushes f))
    (hs : flushReact o s f topic = some s') (g : Nat) : WaitsWell (s'.flushes g) := by
  unfold flushReact at hs
  split at hs
  · contradiction
  split at hs
  · contradiction
  rename_i out _
  have hopen : ∀ w ∈ (s.flushes f).pending.filter fun w => w.topic ≠ topic,
      ((s.flushes f).outcomes ++ [(topic, FlushOutcome.stored out)]).lookup w.topic = none := by
    intro w hm
    obtain ⟨hm, hne⟩ := List.mem_filter.mp hm
    have hne : w.topic ≠ topic := by simpa using hne
    simp [List.lookup_append, (hw f).undecided w hm, List.lookup_cons, beq_eq_false_iff_ne.mpr hne]
  have htarget : ∀ w ∈ (s.flushes f).pending.filter fun w => w.topic ≠ topic,
      ∃ r, (w.topic, r) ∈ (s.flushes f).targets :=
    fun w hm => (hw f).target w (List.mem_filter.mp hm).1
  dsimp only at hs
  split at hs
  · cases hs
    refine waitsWell_finish (fun g hg => ?_) ?_ ?_ g
    · rw [flushes_modFlush_ne hg]
      exact hw g
    · rwa [flushes_modFlush_self]
    · rwa [flushes_modFlush_self]
  · next hne =>
    cases hs
    by_cases hg : g = f
    · subst hg
      rw [flushes_modFlush_self] at hne ⊢
      exact ⟨htarget, hopen, fun _ => by simpa using hne⟩
    · rw [flushes_modFlush_ne hg]
      exact hw g

theorem waitsWell_flushDeadline (hw : ∀ f, WaitsWell (s.flushes f))
    (hs : flushDeadline o s f = some s') (g : Nat) : WaitsWell (s'.flushes g) := by
  unfold flushDeadline at hs
  split at hs
  · contradiction
  split at hs
  · cases hs
    refine waitsWell_finish (fun g hg => ?_) ?_ ?_ g
    · rw [flushes_modFlush_ne hg, flushes_timeOutAll, update_of_ne hg]
      exact hw g
    · simp
    · simp
  · contradiction

theorem waitsWell_next [DecidableEq U] {yjs : Yjs U} {a : Action U}
    (hw : ∀ f, WaitsWell (s.flushes f)) (hs : (machine o yjs).next s a = some s') (f : Nat) :
    WaitsWell (s'.flushes f) := by
  cases ha : flushing a with
  | false =>
    rw [flushes_next ha hs]
    exact hw f
  | true =>
    cases a with
    | persistNow topic timeout =>
      cases hs
      exact waitsWell_persistNow hw f
    | flushReact g topic => exact waitsWell_flushReact hw hs f
    | flushDeadline g => exact waitsWell_flushDeadline hw hs f
    | _ => contradiction

theorem waitsWell_run [DecidableEq U] {yjs : Yjs U} {ok : State U → Action U → Prop}
    {as : List (Action U)} (h : (machine o yjs).Runs ok as s) : ∀ f, WaitsWell (s.flushes f) :=
  h.invariant (fun _ => ⟨by simp [machine, State.init], by simp [machine, State.init],
    by simp [machine, State.init]⟩) fun _ _ _ hw _ hs => waitsWell_next hw hs

end Waiting

/-! ## the report -/

section Report

variable {o : Options} {s s' : State U} {f : Nat}

/-- The flush `f` resolves with `ok` in the step from `s` to `s'`. -/
def ReportsOk (s s' : State U) (f : Nat) : Prop :=
  (s.flushes f).result = none ∧ ∃ res, (s'.flushes f).result = some res ∧ res.ok = true

/-- Every update accepted on a topic of the flush `f`, on any record of it, is
in a blob that landed. -/
def Flushed (s : State U) (f : Nat) : Prop :=
  ∀ t ∈ (s.flushes f).targets, ∀ r < s.nextRec, (s.recs r).topic = t.1 →
    ∀ u ∈ (s.recs r).accepted, Saved s r u

/-- The reaction on `topic` is the last one the flush `f` waits for. -/
def Finishing (s : State U) (f : Nat) (topic : String) : Prop :=
  ∀ w ∈ (s.flushes f).pending, w.topic = topic

/-- A topic of the flush `f` holds bytes that the report of `f` does not see:
its record is clean and the newest store has not settled, or it is dirty and
not the record that `f` started with. -/
def Unconfirmed (s : State U) (f : Nat) : Prop :=
  ∃ t ∈ (s.flushes f).targets, ∃ r, s.topics.get? t.1 = some r ∧
    if (s.recs r).dirty then r ≠ t.2
    else ∃ h, (s.recs r).newest = some h ∧ ∀ out, (s.attempts h).phase ≠ .settled out

/-- The report of a flush that meets its deadline is not `ok`. -/
theorem not_ok_of_flushDeadline (hw : ∀ f, WaitsWell (s.flushes f)) {res : FlushResult}
    (hs : flushDeadline o s f = some s') (hres : (s'.flushes f).result = some res) :
    res.ok = false := by
  unfold flushDeadline at hs
  split at hs
  · contradiction
  rename_i due hdue
  obtain ⟨-, ⟨⟩⟩ := Option.ite_none_right_eq_some.mp hs
  have hne : (s.flushes f).pending ≠ [] := (hw f).timed (by simp [hdue])
  obtain ⟨w, ws, hws⟩ := List.exists_cons_of_ne_nil hne
  have hmem : w ∈ (s.flushes f).pending := by simp [hws]
  obtain ⟨r, hr⟩ := (hw f).target w hmem
  simp only [flushes_finish, flushes_modFlush_self, flushes_timeOutAll,
    update_self, Option.some.injEq] at hres
  subst hres
  rw [Bool.eq_false_iff]
  intro hok
  have hstored := (buildFlushResult_ok.mp hok (w.topic, r) hr).1
  simp [List.lookup_append, (hw f).undecided w hmem, hws] at hstored

theorem flushed_of_persistNow {topic : Option String} {timeout : Option (Option Nat)}
    (hrep : ReportsOk s (persistNow o s topic timeout) f) :
    Flushed (persistNow o s topic timeout) f := by
  have hrun : ∀ targets d, ReportsOk s (runFlush o s targets d) f →
      ((runFlush o s targets d).flushes f).targets = [] := by
    intro targets d
    unfold runFlush
    dsimp only
    generalize hs₀ : ({ s with
      flushes := _
      nextFlush := _ } : State U) = s₀
    obtain ⟨pend, hmap, hflush⟩ := flushes_awaitAll (o := o) (f := s.nextFlush) targets s₀
    have hfresh : s₀.flushes = update s.flushes s.nextFlush
        ⟨targets, d.map (s.now + ·), [], [], none, none⟩ := by rw [← hs₀]
    intro hrep
    obtain ⟨hnone, res, hres, -⟩ := hrep
    by_cases hf : f = s.nextFlush
    · subst hf
      split at hres
      · next hempty =>
        rw [if_pos hempty]
        simpa [flushes_finish, hflush, hfresh] using hempty
      · simp [hflush, hfresh] at hres
    · split at hres
      · simp [flushes_finish, hflush, hfresh, update_of_ne hf, hnone] at hres
      · simp [flushes_modFlush_ne hf, hflush, hfresh, update_of_ne hf, hnone] at hres
  intro t ht
  have hnil := hrun _ _ hrep
  simp only [persistNow] at ht
  rw [hnil] at ht
  contradiction

/-- A flush that ends with the reaction on `topic`. -/
theorem flushed_of_flushReact {g : Nat} {topic : String} (hi : Inv o none s)
    (hok : Finishing s g topic → ¬ Unconfirmed s g) (hs : flushReact o s g topic = some s')
    (hrep : ReportsOk s s' f) : Flushed s' f := by
  obtain ⟨hnone, res, hres, hresok⟩ := hrep
  unfold flushReact at hs
  split at hs
  · contradiction
  split at hs
  · contradiction
  rename_i out _
  dsimp only at hs
  generalize ht : (s.modFlush g fun fl => { fl with
    pending := fl.pending.filter fun w => w.topic ≠ topic
    outcomes := fl.outcomes ++ [(topic, .stored out)] }) = t at hs
  have hsame : Same s t := by
    rw [← ht]
    exact { Same.refl s with }
  have hrecs : t.recs = s.recs := by rw [← ht]; rfl
  by_cases hf : f = g
  · subst hf
    have htargets : (t.flushes f).targets = (s.flushes f).targets := by
      rw [← ht, flushes_modFlush_self]
    split at hs
    · next hempty =>
      cases hs
      have hfin : Finishing s f topic := by
        rw [← ht] at hempty
        simpa [Finishing] using hempty
      simp only [flushes_finish, update_self, Option.some.injEq] at hres
      rw [← hres, buildFlushResult_ok] at hresok
      intro w hw r hr htopic u hu
      have hsame' : Same s (finish o t f) := hsame.trans finish_same
      rw [hsame'.nextRec] at hr
      rw [hsame'.topic] at htopic
      rw [hsame'.accepted] at hu
      simp only [flushes_finish, update_self, htargets] at hw
      refine hsame'.saved r u ?_
      cases hreg : s.registered r with
      | false => exact hi.saved r hr hreg u hu
      | true =>
        have hget : s.topics.get? w.1 = some r := htopic ▸ registered_eq_true.mp hreg
        have hconf : ¬ (if (s.recs r).dirty = true then r ≠ w.2
            else ∃ h, (s.recs r).newest = some h ∧
              ∀ out, (s.attempts h).phase ≠ .settled out) :=
          fun hun => hok hfin ⟨w, hw, r, hget, hun⟩
        have hdirty := (hresok w (htargets ▸ hw)).2
        rw [hrecs, hsame.topics] at hdirty
        split at hconf
        · next hd =>
          rw [not_not] at hconf
          subst hconf
          exact absurd hget (hdirty hd)
        · next hd =>
          refine saved_of_clean hi hreg (by simpa using hd) (fun h hh => ?_) u hu
          by_contra hset
          exact hconf ⟨h, hh, fun out ho => hset ⟨out, ho⟩⟩
    · cases hs
      rw [← ht, flushes_modFlush_self, hnone] at hres
      contradiction
  · have hsame : (s'.flushes f).result = (s.flushes f).result := by
      split at hs
      · cases hs
        rw [flushes_finish, update_of_ne hf, ← ht, flushes_modFlush_ne hf]
      · cases hs
        rw [← ht, flushes_modFlush_ne hf]
    rw [hsame, hnone] at hres
    contradiction

variable [DecidableEq U] {yjs : Yjs U}

/-- A step of unload safety that ends no flush on unconfirmed bytes. -/
def FlushStep (o : Options) (s : State U) (a : Action U) : Prop :=
  Step o s a ∧ ∀ f topic, a = .flushReact f topic → Finishing s f topic → ¬ Unconfirmed s f

/-- **Flush report soundness**: along every run of flush steps, a flush that
resolves with `ok` has every update accepted on its topics in a blob that
landed. -/
theorem flushed_of_reportsOk {as : List (Action U)} {a : Action U}
    (h : (machine o yjs).Runs (FlushStep o) as s) (hok : FlushStep o s a)
    (hs : (machine o yjs).next s a = some s') (hrep : ReportsOk s s' f) : Flushed s' f := by
  have hi : Inv o none s := inv_run (h.mono fun _ _ hg => hg.1)
  obtain ⟨hnone, res, hres, hresok⟩ := hrep
  cases ha : flushing a with
  | false =>
    rw [flushes_next ha hs, hnone] at hres
    contradiction
  | true =>
    cases a with
    | persistNow topic timeout =>
      cases hs
      exact flushed_of_persistNow ⟨hnone, res, hres, hresok⟩
    | flushReact g topic =>
      exact flushed_of_flushReact hi (hok.2 g topic rfl) hs ⟨hnone, res, hres, hresok⟩
    | flushDeadline g =>
      by_cases hf : f = g
      · subst hf
        rw [not_ok_of_flushDeadline (waitsWell_run h) hs hres] at hresok
        contradiction
      · simp only [machine, flushDeadline] at hs
        split at hs
        · contradiction
        · split at hs
          · cases hs
            simp [flushes_finish, flushes_modFlush_ne hf, flushes_timeOutAll,
              update_of_ne hf, hnone] at hres
          · contradiction
    | _ => contradiction

end Report

/-! ## two runs -/

section Traces

/-- An edit is flushed and its store lands; the last wait is still to come. -/
def flushedRun : List (Action Nat) :=
  opened ++ [.applyUpdate "t" 1, .persistNow none none, .dispatch 0, .answer 0 (.resolved true),
    .react 0, .chainSettle 0]

/-- The same, with a second edit that the debounce timer captures while the
flush waits. -/
def capturedRun : List (Action Nat) :=
  opened ++ [.applyUpdate "t" 1, .persistNow none none, .applyUpdate "t" 2, .tick 2000, .timer 0,
    .dispatch 0, .answer 0 (.resolved true), .react 0, .chainSettle 0]

theorem flushed_of_reportsOk_example : ∃ s s' : State Nat,
    (machine {} numbers).Runs (FlushStep {}) flushedRun s ∧
      (machine {} numbers).next s (.flushReact 0 "t") = some s' ∧ ReportsOk s s' 0 ∧
      (s'.recs 0).accepted = [1] ∧ Flushed s' 0 := by
  have hok : ∀ (s : State Nat) (a : Action Nat), (hosted s a && !(match a with
      | .check _ _ => true | .flushReact _ _ => true | _ => false)) → FlushStep {} s a := by
    intro s a h
    rw [Bool.and_eq_true] at h
    refine ⟨step_of_orderly rfl ⟨hosted_sound s a h.1, fun r i ha => ?_⟩, fun f topic ha => ?_⟩
    · subst ha
      simp at h
    · subst ha
      simp at h
  have hrun : (machine {} numbers).Runs (FlushStep {}) flushedRun _ := runs_of_execIf hok rfl
  refine ⟨_, _, hrun, rfl, ⟨rfl, _, rfl, rfl⟩, rfl,
    flushed_of_reportsOk (a := .flushReact 0 "t") hrun ⟨trivial, ?_⟩ rfl ⟨rfl, _, rfl, rfl⟩⟩
  intro f topic ha _ hun
  obtain ⟨rfl, rfl⟩ := Action.flushReact.inj ha
  obtain ⟨t, ht, r, hr, hun⟩ := hun
  obtain rfl : t = ("t", 0) := List.mem_singleton.mp ht
  obtain rfl : 0 = r := Option.some.inj hr
  obtain ⟨h, hh, hset⟩ : ∃ h, some 0 = some h ∧ _ := hun
  obtain rfl : 0 = h := Option.some.inj hh
  exact hset .durable rfl

/-- The capture of update 2 clears the dirty flag, and the flush reports `ok`
while store 1 has not even been issued. -/
theorem captured_edit_reported_ok :
    ¬ ∀ (as : List (Action Nat)) (s s' : State Nat) (a : Action Nat) (f : Nat),
      (machine {} numbers).Runs Hosted as s → Hosted s a →
        (machine {} numbers).next s a = some s' → ReportsOk s s' f → Flushed s' f := by
  intro h
  have hrun : (machine {} numbers).Runs Hosted capturedRun _ := runs_of_execIf hosted_sound rfl
  have hflushed := h _ _ _ (.flushReact 0 "t") 0 hrun trivial rfl ⟨rfl, _, rfl, rfl⟩
  obtain ⟨g, hlt, -, hland, hu⟩ :=
    hflushed ("t", 0) (by decide) 0 (by decide) rfl 2 (by decide)
  have hg : g < 2 := hlt
  interval_cases g
  · exact absurd hu (by decide)
  · exact absurd hland (by decide)

end Traces

end BunServe.Crdt
