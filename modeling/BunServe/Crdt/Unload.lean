import BunServe.Crdt.Coverage
import Mathlib.Tactic.IntervalCases

/-!
# BunServe.Crdt.Unload

Unload safety: a record leaves memory only when every update it accepted is in
a blob that landed.

The lemmas of this module take the invariant through the operations on
holders, edits and flushes; `inv_next` assembles them into the step lemma.
Its guard `Step` excludes erasure, and two ways of unloading a record with
unconfirmed bytes: a declined store (`DeclineUnloads`) and an unload check that
runs while the newest store has not settled (`Strands`).  The check waits for
the chain that was newest when `release` was called; a later capture clears
the dirty flag without joining that wait, and `late_check_loses_update` is a
run where the check then throws the capture away.
-/

namespace BunServe.Crdt

open Machine
open TopicRecord (fresh loaded)

variable {U : Type}

/-! ## holders -/

variable {topic : String}

section Holders

variable {o : Options} {s s' : State U} {r : Nat}

theorem inv_modRec_plain {f : TopicRecord U → TopicRecord U} (hi : Inv o none s)
    (hf : Keeps o f (s.recs r)) (hd : (f (s.recs r)).dirty = (s.recs r).dirty) :
    Inv o none (s.modRec r f) :=
  inv_modRec hi hf (fun _ hq he => absurd he hq) fun _ h => hd ▸ h

@[simp] theorem recs_addRec_self : (s.addRec topic).recs s.nextRec = .fresh topic := by
  simp [State.addRec]

theorem recs_addRec_ne (h : r ≠ s.nextRec) : (s.addRec topic).recs r = s.recs r := by
  simp [State.addRec, h]

theorem inv_addRec (hi : Inv o none s) (hnone : s.topics.get? topic = none) :
    Inv o none (s.addRec topic) := by
  have hold : ∀ {k q}, (s.addRec topic).topics.get? k = some q →
      (k = topic ∧ q = s.nextRec) ∨ (k ≠ topic ∧ q ≠ s.nextRec ∧ s.topics.get? k = some q) := by
    intro k q hq
    simp only [State.addRec, JsMap.get?_set] at hq
    split at hq
    · next h => exact .inl ⟨h, (Option.some.inj hq).symm⟩
    · next h => exact .inr ⟨h, Nat.ne_of_lt (hi.keys k q hq).2, hq⟩
  have hreg : ∀ {q}, q ≠ s.nextRec → (s.addRec topic).registered q = s.registered q := by
    intro q hq
    rw [State.registered, State.registered, recs_addRec_ne hq]
    simp only [State.addRec, JsMap.get?_set]
    split
    · next h => simp [h, hnone, hq.symm]
    · rfl
  constructor
  case alive => exact hi.alive
  case keys =>
    intro k q hq
    rcases hold hq with ⟨rfl, rfl⟩ | ⟨-, hne, hq⟩
    · exact ⟨by simp [fresh], Nat.lt_succ_self _⟩
    · rw [recs_addRec_ne hne]
      exact ⟨(hi.keys k q hq).1, Nat.lt_succ_of_lt (hi.keys k q hq).2⟩
  case newest =>
    intro q h hq
    by_cases hn : q = s.nextRec
    · subst hn; simp [fresh] at hq
    · rw [recs_addRec_ne hn] at hq
      exact hi.newest q h hq
  case inflight =>
    intro q h hq
    by_cases hn : q = s.nextRec
    · subst hn; simp [fresh] at hq
    · rw [recs_addRec_ne hn] at hq
      exact hi.inflight q h hq
  case skipped => exact hi.skipped
  case docs =>
    intro q u hu
    by_cases hn : q = s.nextRec
    · subst hn; simp [fresh] at hu
    · rw [recs_addRec_ne hn] at hu ⊢
      exact hi.docs q u hu
  case unloaded =>
    intro q hq
    by_cases hn : q = s.nextRec
    · subst hn; simp [fresh]
    · rw [recs_addRec_ne hn] at hq ⊢
      exact hi.unloaded q hq
  case covered =>
    intro q hq hh hd
    by_cases hn : q = s.nextRec
    · subst hn
      exact .inl (by simp [fresh])
    · rw [hreg hn] at hq
      rw [recs_addRec_ne hn] at hd
      have := hi.covered q hq hh hd
      rwa [Captured, recs_addRec_ne hn]
  case saved =>
    intro q hlt hq u hu
    by_cases hn : q = s.nextRec
    · subst hn; simp [fresh] at hu
    · rw [hreg hn] at hq
      rw [recs_addRec_ne hn] at hu
      have hlt : q < s.nextRec + 1 := hlt
      exact hi.saved q (by omega) hq u hu
  case hookless =>
    intro hno
    refine ⟨(hi.hookless hno).1, fun q => ?_⟩
    by_cases hn : q = s.nextRec
    · subst hn; simp [fresh]
    · rw [recs_addRec_ne hn]
      exact (hi.hookless hno).2 q

theorem inv_acquire (hi : Inv o none s) : Inv o none (acquire s topic) := by
  unfold acquire
  split
  · exact hi
  · split
    · next r hr =>
      have hun : Inv o none (s.modRec r fun rec => { rec with unloading := false }) :=
        inv_modRec_plain hi
          ⟨rfl, rfl, fun _ h => h, fun h => h, rfl, fun _ h => h, fun _ h => h⟩ rfl
      exact { hun with }
    · next hnone => exact { inv_addRec hi hnone with }

theorem inv_loadDispatch (hi : Inv o none s) (hs : loadDispatch o s r = some s') :
    Inv o none s' := by
  unfold loadDispatch at hs
  split at hs
  · next hl =>
    split at hs
    · cases hs
      refine inv_modRec_plain hi ⟨rfl, rfl, fun _ h => h, fun _ => ?_, rfl, fun _ h => h,
        fun _ h => h⟩ rfl
      rw [loaded, hl]
    · contradiction
  · contradiction

theorem inv_loadAnswer {ans : LoadAnswer U} (hi : Inv o none s)
    (hs : loadAnswer s r ans = some s') : Inv o none s' := by
  unfold loadAnswer at hs
  split at hs
  · next hl =>
    cases hs
    refine inv_modRec_plain hi ⟨rfl, rfl, fun _ h => h, fun _ => ?_, rfl, fun _ h => h,
      fun _ h => h⟩ rfl
    rw [loaded, hl]
  · contradiction

theorem inv_loadFailed (hi : Inv o none s) (hl : (s.recs r).loaded = false) :
    Inv o none (loadFailed o s r) := by
  have hmark : Inv o none (s.modRec r fun rec => { rec with load := .failed }) :=
    inv_modRec_plain hi ⟨rfl, rfl, fun _ h => h, fun _ => hl, rfl, fun _ h => h, fun _ h => h⟩ rfl
  have hun : Inv o none (unload o (s.modRec r fun rec => { rec with load := .failed }) r) := by
    refine inv_unload hmark fun _ u hu => ?_
    rw [recs_modRec_self, hi.unloaded r hl] at hu
    contradiction
  simp only [loadFailed]
  split
  · exact { hun with }
  · exact hun

theorem inv_loadReact (hi : Inv o none s) (hs : loadReact o s r = some s') : Inv o none s' := by
  unfold loadReact at hs
  split at hs
  · next ans hl =>
    have hnot : (s.recs r).loaded = false := by rw [loaded, hl]
    have hleft : Inv o none (s.modRec r fun rec => { rec with loadInflight := false }) :=
      inv_modRec_plain hi ⟨rfl, rfl, fun _ h => h, fun h => h, rfl, fun _ h => h,
        fun _ h => h⟩ rfl
    have hfail : Inv o none (loadFailed o
        (s.modRec r fun rec => { rec with loadInflight := false }) r) :=
      inv_loadFailed hleft (by rw [recs_modRec_self]; exact hnot)
    cases ans with
    | rejected | notBytes => exact Option.some.inj hs ▸ hfail
    | nothing =>
      dsimp only at hs
      split at hs
      · cases hs
        exact inv_modRec_plain hleft ⟨rfl, rfl, fun _ h => h, fun h => by contradiction, rfl,
          fun _ h => h, fun _ h => h⟩ rfl
      · exact Option.some.inj hs ▸ hfail
    | bytes doc =>
      dsimp only at hs
      split at hs
      · cases hs
        exact inv_modRec_plain hleft ⟨rfl, rfl, fun _ h => List.mem_append_left _ h,
          fun h => by contradiction, rfl, fun _ h => h, fun _ h => h⟩ rfl
      · exact Option.some.inj hs ▸ hfail
  · contradiction

theorem inv_acquired {i : Nat} (hi : Inv o none s) (hs : acquired s i = some s') :
    Inv o none s' := by
  unfold acquired at hs
  split at hs
  · contradiction
  rename_i r hr
  split at hs
  · cases hs
    have hrefs : Inv o none (s.modRec r fun rec => { rec with refs := rec.refs + 1 }) :=
      inv_modRec_plain hi ⟨rfl, rfl, fun _ h => h, fun h => h, rfl, fun _ h => h,
        fun _ h => h⟩ rfl
    exact { hrefs with }
  · cases hs
    exact { hi with }
  · contradiction

theorem inv_release (hi : Inv o none s) : Inv o none (release o s topic) := by
  unfold release
  split
  · exact hi
  rename_i r hr
  have hrefs : Inv o none (s.modRec r fun rec => { rec with refs := rec.refs - 1 }) :=
    inv_modRec_plain hi ⟨rfl, rfl, fun _ h => h, fun h => h, rfl, fun _ h => h,
      fun _ h => h⟩ rfl
  split
  · exact hi
  dsimp only
  split
  · exact hrefs
  have hun : Inv o none ((s.modRec r fun rec => { rec with refs := rec.refs - 1 }).modRec r
      fun rec => { rec with unloading := true }) :=
    inv_modRec_plain hrefs ⟨rfl, rfl, fun _ h => h, fun h => h, rfl, fun _ h => h,
      fun _ h => h⟩ rfl
  split
  · next hstore => exact inv_storeNow hun (fun _ hq => by contradiction) hstore.2.2
  · exact inv_modRec_plain hun ⟨rfl, rfl, fun _ h => h, fun h => h, rfl, fun _ h => h,
      fun _ h => h⟩ rfl

/-- The unload check of `r` would pass while bytes of `r` are unconfirmed: it
is dirty, or its newest store has not settled. -/
def Strands (o : Options) (s : State U) (r : Nat) : Prop :=
  s.registered r = true ∧ mayUnload o (s.recs r) = true ∧
    ((s.recs r).dirty = true ∨
      ∃ h, (s.recs r).newest = some h ∧ ∀ out, (s.attempts h).phase ≠ .settled out)

theorem inv_check {i : Nat} (hi : Inv o none s) (hok : ¬ Strands o s r)
    (hs : check o s r i = some s') : Inv o none s' := by
  unfold check at hs
  split at hs
  · contradiction
  obtain ⟨-, hs⟩ := Option.ite_none_right_eq_some.mp hs
  have hdone : Inv o none (s.modRec r fun rec => { rec with checks := rec.checks.eraseIdx i }) :=
    inv_modRec_plain hi ⟨rfl, rfl, fun _ h => h, fun h => h, rfl, fun _ h => h,
      fun _ h => h⟩ rfl
  dsimp only at hs
  split at hs
  · exact Option.some.inj hs ▸ hdone
  split at hs
  · next hmay =>
    cases hs
    refine inv_unload hdone fun hreg => ?_
    have hreg' : s.registered r = true := by
      rw [registered_modRec rfl] at hreg
      exact hreg
    have hmay : mayUnload o (s.recs r) = true := by simpa [mayUnload] using hmay
    have hclean : (s.recs r).dirty = false := by
      by_contra hd
      exact hok ⟨hreg', hmay, .inl (by simpa using hd)⟩
    refine saved_of_clean hdone hreg (by simpa using hclean) fun g hg => ?_
    by_contra hg'
    exact hok ⟨hreg', hmay, .inr ⟨g, by simpa using hg, fun out ho => hg' ⟨out, ho⟩⟩⟩
  · exact Option.some.inj hs ▸ hdone

theorem inv_timer (hi : Inv o none s) (hs : timer o s r = some s') : Inv o none s' := by
  unfold timer at hs
  split at hs
  · contradiction
  rename_i due hdue
  obtain ⟨-, hs⟩ := Option.ite_none_right_eq_some.mp hs
  have hoff : Inv o none (s.modRec r fun rec => { rec with debounceTimer := none }) :=
    inv_modRec_plain hi ⟨rfl, rfl, fun _ h => h, fun h => h, rfl, fun _ h => h,
      fun _ _ => rfl⟩ rfl
  have ho : o.hasStore = true := by
    by_contra hno
    have := (hi.hookless (by simpa using hno)).2 r
    rw [hdue] at this
    contradiction
  dsimp only at hs
  split at hs
  · exact Option.some.inj hs ▸ hoff
  · exact Option.some.inj hs ▸ inv_storeNow hoff (fun _ hq => by contradiction) ho

end Holders

/-! ## edits -/

section Edits

variable {o : Options} {s s' : State U} {r : Nat}

theorem inv_accept {u : U} (hi : Inv o none s) (hreg : s.registered r = true)
    (hl : (s.recs r).loaded = true) :
    Inv o none (s.modRec r fun rec => { rec with
      doc := rec.doc ++ [u], accepted := rec.accepted ++ [u], dirty := true
      updatesSinceStore := rec.updatesSinceStore + 1 }) := by
  refine { hi with keys := ?_, newest := ?_, inflight := ?_, docs := ?_, unloaded := ?_,
                   covered := ?_, saved := ?_, hookless := ?_ }
  · intro k q hq
    by_cases h : q = r
    · subst h; simpa using hi.keys k q hq
    · rw [recs_modRec_ne h]; exact hi.keys k q hq
  · intro q h hq
    by_cases hqr : q = r
    · subst hqr; exact hi.newest q h (by simpa using hq)
    · rw [recs_modRec_ne hqr] at hq; exact hi.newest q h hq
  · intro q h hq
    by_cases hqr : q = r
    · subst hqr; exact hi.inflight q h (by simpa using hq)
    · rw [recs_modRec_ne hqr] at hq; exact hi.inflight q h hq
  · intro q v hv
    by_cases hqr : q = r
    · subst hqr
      simp only [recs_modRec_self, List.mem_append] at hv ⊢
      exact hv.imp_left (hi.docs q v)
    · rw [recs_modRec_ne hqr] at hv ⊢
      exact hi.docs q v hv
  · intro q hq
    by_cases hqr : q = r
    · subst hqr
      simp only [recs_modRec_self] at hq
      change (s.recs q).loaded = false at hq
      rw [hl] at hq
      contradiction
    · rw [recs_modRec_ne hqr] at hq ⊢
      exact hi.unloaded q hq
  · intro q hq hne hd
    rw [registered_modRec rfl] at hq
    by_cases hqr : q = r
    · subst hqr
      simp at hd
    · rw [recs_modRec_ne hqr] at hd
      have := hi.covered q hq hne hd
      rwa [Captured, recs_modRec_ne hqr]
  · intro q hlt hq v hv
    rw [registered_modRec rfl] at hq
    have hqr : q ≠ r := by
      intro he
      rw [he, hreg] at hq
      contradiction
    rw [recs_modRec_ne hqr] at hv
    exact hi.saved q hlt hq v hv
  · intro hno
    refine ⟨(hi.hookless hno).1, fun q => ?_⟩
    by_cases hqr : q = r
    · subst hqr; simpa using (hi.hookless hno).2 q
    · rw [recs_modRec_ne hqr]; exact (hi.hookless hno).2 q

theorem inv_scheduleStore (hi : Inv o none s) : Inv o none (scheduleStore o s r) := by
  unfold scheduleStore
  split
  · exact hi
  · next ho =>
    refine inv_modRec_plain hi ⟨rfl, rfl, fun _ h => h, fun h => h, rfl, fun _ h => h, ?_⟩ rfl
    intro hno
    simp [hno] at ho

/-- The next accepted update of `topic` would be captured with no store hook to
hand it to: the dirty flag is cleared and nothing is stored. -/
def Uncaptured (o : Options) (s : State U) (topic : String) : Prop :=
  o.hasStore = false ∧ ∃ r, s.topics.get? topic = some r ∧
    o.snapshotEvery ≤ (s.recs r).updatesSinceStore + 1

theorem inv_applyUpdate [DecidableEq U] {yjs : Yjs U} {u : U}
    (hi : Inv o none s) (hok : ¬ Uncaptured o s topic) :
    Inv o none (applyUpdate o yjs s topic u).1 := by
  unfold applyUpdate
  split
  · exact hi
  rename_i r hr
  split
  · exact hi
  rename_i hlive
  rw [not_or] at hlive
  split
  · exact hi
  split
  · exact hi
  · split
    · dsimp only
      split
      · exact inv_modRec_plain hi
          ⟨rfl, rfl, fun _ h => h, fun h => h, rfl, fun _ h => h, fun _ h => h⟩ rfl
      · exact hi
    · have hreg : s.registered r = true :=
        registered_eq_true.mpr ((hi.keys topic r hr).1 ▸ hr)
      have hacc := inv_accept (u := u) hi hreg (by simpa using hlive.1)
      dsimp only
      split
      · next hfull =>
        refine inv_storeNow hacc (fun _ hq => by contradiction) ?_
        by_contra hno
        exact hok ⟨by simpa using hno, r, hr, by simpa using hfull⟩
      · exact inv_scheduleStore hacc

end Edits

/-! ## flushes -/

section Flushes

variable {o : Options} {s s' : State U} {f r h : Nat}

theorem inv_modWaiters {g : List Nat → List Nat} (hi : Inv o none s) :
    Inv o none (s.modAttempt h fun a => { a with waiters := g a.waiters }) :=
  inv_modAttempt hi ⟨rfl, rfl, fun hl => hl, hi.skipped h,
    fun _ _ _ _ _ hw => .inl hw⟩

theorem inv_forgetWaiter (hi : Inv o none s) : Inv o none (forgetWaiter s f r) :=
  List.foldlRecOn _ _ hi fun _ hs _ _ => inv_modWaiters hs

theorem inv_finish (hi : Inv o none s) : Inv o none (finish o s f) := by
  unfold finish
  exact inv_modFlush (List.foldlRecOn _ _ hi fun _ hs _ _ => inv_forgetWaiter hs)

theorem inv_flushOne (hi : Inv o none s) : Inv o none (flushOne o s r f).1 := by
  have hjoin : Inv o none ((s.recs r).inflight.foldl
      (fun s h => s.modAttempt h fun a =>
        { a with waiters := if f ∈ a.waiters then a.waiters else a.waiters ++ [f] }) s) :=
    List.foldlRecOn _ _ hi fun _ hs _ _ =>
      inv_modWaiters (g := fun ws => if f ∈ ws then ws else ws ++ [f]) hs
  unfold flushOne
  dsimp only
  split
  · next hstore => exact inv_storeNow hjoin (fun _ hq => by contradiction) hstore.2.2
  · exact hjoin

theorem inv_awaitTarget {t : String × Nat} (hi : Inv o none s) :
    Inv o none (awaitTarget o f s t) := by
  have hone : Inv o none (flushOne o s t.2 f).1 := inv_flushOne hi
  unfold awaitTarget
  split
  next t chain hflush =>
    rw [hflush] at hone
    exact inv_modFlush hone

theorem inv_persistNow {topic : Option String} {timeout : Option (Option Nat)}
    (hi : Inv o none s) : Inv o none (persistNow o s topic timeout) := by
  have hrun : ∀ targets d, Inv o none (runFlush o s targets d) := by
    intro targets d
    unfold runFlush
    dsimp only
    generalize hs₀ : ({ s with
      flushes := _
      nextFlush := _ } : State U) = s₀
    have hi₀ : Inv o none s₀ := hs₀ ▸ { hi with }
    have hawait : Inv o none (targets.foldl (awaitTarget o s.nextFlush) s₀) :=
      List.foldlRecOn _ _ hi₀ fun _ hs _ _ => inv_awaitTarget hs
    split
    · exact inv_finish hawait
    · exact inv_modFlush hawait
  exact hrun _ _

theorem inv_flushReact (hi : Inv o none s)
    (hs : flushReact o s f topic = some s') : Inv o none s' := by
  unfold flushReact at hs
  split at hs
  · contradiction
  · split at hs
    · contradiction
    · dsimp only at hs
      split at hs
      · exact Option.some.inj hs ▸ inv_finish (inv_modFlush hi)
      · exact Option.some.inj hs ▸ inv_modFlush hi

theorem abandon_same {silent : Bool} : Same s (abandon o s r h silent) := by
  unfold abandon
  split
  · exact .refl s
  have hgive := (same_modAttempt (s := s) (h := h) (f := fun a => { a with
      abandoned := true, silent := silent, chain := a.chain.or (some .failed) })
      rfl rfl fun hl => hl).trans (same_modRec (r := r) (f := fun rec => { rec with
        inflight := rec.inflight.filter (· ≠ h) }) rfl rfl)
  dsimp only
  split
  · exact hgive
  · split
    · exact hgive
    · refine hgive.trans ?_
      unfold keepDirty armRetry
      split
      · exact same_modRec rfl rfl
      · exact (same_modRec rfl rfl).trans (same_modRec rfl rfl)

theorem inv_giveUpOn (hi : Inv o none s) (hlt : h < s.nextAttempt)
    (hr : (s.attempts h).record = r) :
    Inv o none (giveUp o f r s h) ∧ Same s (giveUp o f r s h) := by
  have hsame : Same s (s.modAttempt h fun a => { a with waiters := a.waiters.filter (· ≠ f) }) :=
    same_modAttempt rfl rfl fun hl => hl
  have hwait : Inv o none (s.modAttempt h fun a => { a with waiters := a.waiters.filter (· ≠ f) }) :=
    inv_modWaiters hi
  unfold giveUp
  split
  · dsimp only
    split
    · exact ⟨inv_abandon hwait hlt ((hsame.record h).trans hr), hsame.trans abandon_same⟩
    · exact ⟨hwait, hsame⟩
  · exact ⟨hi, .refl s⟩

/-- Giving up on a list of calls of `r`, by induction on the list. -/
theorem inv_giveUpAll {hs : List Nat} (hi : Inv o none s)
    (hr : ∀ h ∈ hs, h < s.nextAttempt ∧ (s.attempts h).record = r) :
    Inv o none (hs.foldl (giveUp o f r) s) := by
  induction hs generalizing s with
  | nil => exact hi
  | cons h hs ih =>
    obtain ⟨hlt, hrec⟩ := hr h (by simp)
    obtain ⟨hone, hsame⟩ := inv_giveUpOn hi hlt hrec
    refine ih hone fun g hg => ?_
    have := hr g (List.mem_cons_of_mem _ hg)
    rwa [hsame.nextAttempt, hsame.record]

theorem inv_flushDeadline (hi : Inv o none s) (hs : flushDeadline o s f = some s') :
    Inv o none s' := by
  unfold flushDeadline at hs
  split at hs
  · contradiction
  · split at hs
    · cases hs
      refine inv_finish (inv_modFlush (List.foldlRecOn _ _ hi fun t ht w _ => ?_))
      have hout : Inv o none (t.modFlush f fun fl =>
          { fl with outcomes := fl.outcomes ++ [(w.topic, .timedOut)] }) := inv_modFlush ht
      exact inv_giveUpAll hout fun h hh => hout.inflight w.record h hh
    · contradiction

end Flushes

/-! ## runs -/

section Runs

variable [DecidableEq U] {o : Options} {yjs : Yjs U}

/-- The steps that unload safety is about: no erasure, no unload on a declined
store or on an unsettled one, no capture with no hook. -/
def Step (o : Options) (s : State U) : Action U → Prop
  | .drop _ => False
  | .destroy => False
  | .react h => ¬ DeclineUnloads s h
  | .check r _ => ¬ Strands o s r
  | .applyUpdate topic _ => ¬ Uncaptured o s topic
  | _ => True

theorem inv_next {s s' : State U} {a : Action U} (hi : Inv o none s) (hok : Step o s a)
    (hs : (machine o yjs).next s a = some s') : Inv o none s' := by
  cases a with
  | acquire topic => exact Option.some.inj hs ▸ inv_acquire hi
  | loadDispatch r => exact inv_loadDispatch hi hs
  | loadAnswer r ans => exact inv_loadAnswer hi hs
  | loadReact r => exact inv_loadReact hi hs
  | acquired i => exact inv_acquired hi hs
  | release topic => exact Option.some.inj hs ▸ inv_release hi
  | check r i => exact inv_check hi hok hs
  | applyUpdate topic u => exact Option.some.inj hs ▸ inv_applyUpdate hi hok
  | timer r => exact inv_timer hi hs
  | dispatch h => exact inv_dispatch hi hs
  | answer h ans => exact inv_answer hi hs
  | react h => exact inv_react hi hok hs
  | chainSettle h => exact inv_chainSettle hi hs
  | persistNow topic timeout => exact Option.some.inj hs ▸ inv_persistNow hi
  | flushReact f topic => exact inv_flushReact hi hs
  | flushDeadline f => exact inv_flushDeadline hi hs
  | drop topic | destroy => exact hok.elim
  | tick ms => exact Option.some.inj hs ▸ { hi with }

theorem inv_run {as : List (Action U)} {s : State U}
    (h : (machine o yjs).Runs (Step o) as s) : Inv o none s :=
  h.invariant (inv_init o) fun _ _ _ hi hok hs => inv_next hi hok hs

/-- No erasure, and no declined store that ends in an unload. -/
def Hosted (s : State U) : Action U → Prop
  | .drop _ => False
  | .destroy => False
  | .react h => ¬ DeclineUnloads s h
  | _ => True

/-- A hosted step that does not run an unload check on a stranded record. -/
def Orderly (o : Options) (s : State U) (a : Action U) : Prop :=
  Hosted s a ∧ ∀ r i, a = .check r i → ¬ Strands o s r

omit [DecidableEq U] in
theorem step_of_orderly (ho : o.hasStore = true) {s : State U} {a : Action U}
    (h : Orderly o s a) : Step o s a := by
  have hcap : ∀ topic, ¬ Uncaptured o s topic := by
    intro topic hun
    simp [Uncaptured, ho] at hun
  cases a with
  | check r i => exact h.2 r i rfl
  | applyUpdate topic u => exact hcap topic
  | react h' | drop topic | destroy => exact h.1
  | _ => trivial

/-- **Unload safety**: with a store hook, along every orderly run a record that
is no longer in memory has each update it accepted in a blob that landed. -/
theorem saved_of_unloaded (ho : o.hasStore = true) {as : List (Action U)} {s : State U}
    (h : (machine o yjs).Runs (Orderly o) as s) {r : Nat} (hr : r < s.nextRec)
    (hgone : s.registered r = false) : ∀ u ∈ (s.recs r).accepted, Saved s r u :=
  (inv_run (h.mono fun _ _ => step_of_orderly ho)).saved r hr hgone

end Runs

/-! ## two runs -/

section Traces

/-- A document library whose updates are numbers and whose documents are sets of
them. -/
def numbers : Yjs Nat where
  malformed _ _ := false
  changes doc u := !doc.contains u
  cacheable _ := true

/-- Create the topic `t` and load it. -/
def opened : List (Action Nat) :=
  [.acquire "t", .loadDispatch 0, .loadAnswer 0 .nothing, .loadReact 0, .acquired 0]

/-- The last holder leaves while the record is dirty: the store lands, then the
record goes. -/
def cleanUnload : List (Action Nat) :=
  opened ++ [.applyUpdate "t" 1, .release "t", .dispatch 0, .answer 0 (.resolved true), .react 0]

/-- The first release waits for store 0.  The topic is taken again, edited and
captured by store 1, and released; when store 0 settles, the first release's
check passes. -/
def lateCheck : List (Action Nat) :=
  opened ++ [.applyUpdate "t" 1, .tick 2000, .timer 0, .dispatch 0, .release "t",
    .acquire "t", .acquired 0, .applyUpdate "t" 2, .tick 2000, .timer 0, .release "t",
    .answer 0 (.resolved true), .react 0, .chainSettle 0, .check 0 0]

/-- `Hosted`, computed. -/
def hosted (s : State Nat) : Action Nat → Bool
  | .drop _ => false
  | .destroy => false
  | .react h => (s.attempts h).phase ≠ .answered (.resolved false)
  | _ => true

theorem hosted_sound (s : State Nat) (a : Action Nat) (h : hosted s a) : Hosted s a := by
  cases a with
  | react g =>
    intro hd
    simp [hosted, hd.1] at h
  | drop topic | destroy => contradiction
  | _ => trivial

theorem saved_of_unloaded_example : ∃ s : State Nat,
    (machine {} numbers).Runs (Orderly {}) cleanUnload s ∧ s.registered 0 = false ∧
      (s.recs 0).accepted = [1] ∧ ∀ u ∈ (s.recs 0).accepted, Saved s 0 u := by
  have hok : ∀ (s : State Nat) (a : Action Nat),
      (hosted s a && !(match a with | .check _ _ => true | _ => false)) → Orderly {} s a := by
    intro s a h
    rw [Bool.and_eq_true] at h
    refine ⟨hosted_sound s a h.1, fun r i ha => ?_⟩
    subst ha
    simp at h
  have hrun : (machine {} numbers).Runs (Orderly {}) cleanUnload _ := runs_of_execIf hok rfl
  exact ⟨_, hrun, by decide, by decide, saved_of_unloaded rfl hrun (by decide) (by decide)⟩

/-- The check of the first release throws update 2 away: it is only in store 1,
which was never issued. -/
theorem late_check_loses_update :
    ¬ ∀ (as : List (Action Nat)) (s : State Nat), (machine {} numbers).Runs Hosted as s →
      ∀ r < s.nextRec, s.registered r = false → ∀ u ∈ (s.recs r).accepted, Saved s r u := by
  intro h
  have hrun : (machine {} numbers).Runs Hosted lateCheck _ := runs_of_execIf hosted_sound rfl
  obtain ⟨g, hlt, -, hland, hu⟩ := h _ _ hrun 0 (by decide) (by decide) 2 (by decide)
  have hg : g < 2 := hlt
  interval_cases g
  · exact absurd hu (by decide)
  · exact absurd hland (by decide)

end Traces

end BunServe.Crdt
