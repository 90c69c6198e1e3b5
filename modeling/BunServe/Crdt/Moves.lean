import BunServe.Crdt.Flush
import Mathlib.Logic.Relation

/-!
# BunServe.Crdt.Moves

What one step of the document authority can do, said once.

An action is a short sequence of `Move`s: a record is created, captured,
unloaded or changed in fields that its store does not depend on; an attempt is
given up on, issued, answered or settled.  An accepted update is the one
action that is no sequence of moves (`Edit`).  An invariant of the authority
is then kept by every run once it is kept by the moves and by edits.

* `next_moves` — every step is an edit or a sequence of moves;
* `Runs.kept` — the invariant rule over moves.

A move that touches flushes or their waiters is one of a `flush`, one that
touches holders or a load is one of a `hold`; `late` says which attempts a flush
deadline may give up on.
-/

namespace BunServe.Crdt

open Machine Relation
open List (prefix_refl)
open State (gone modRec)

variable {U : Type}

/-! ## moves -/

/-- A change of a record that its store does not depend on. -/
structure Idle (hold : Prop) (f : TopicRecord U → TopicRecord U) (rec : TopicRecord U) : Prop where
  topic : (f rec).topic = rec.topic
  doc : rec.doc <+: (f rec).doc
  accepted : (f rec).accepted = rec.accepted
  dirty : (f rec).dirty = rec.dirty
  debounceTimer : (f rec).debounceTimer = rec.debounceTimer
  maxWaitStart : (f rec).maxWaitStart = rec.maxWaitStart
  storing : (f rec).storing = rec.storing
  newest : (f rec).newest = rec.newest
  inflight : (f rec).inflight = rec.inflight
  held : hold ∨ (f rec).refs = rec.refs ∧ (f rec).load = rec.load

/-- A change of the state that touches no record and no attempt. -/
structure Aside (flush hold : Prop) (s s' : State U) : Prop where
  topics : s'.topics = s.topics
  recs : s'.recs = s.recs
  nextRec : s'.nextRec = s.nextRec
  attempts : s'.attempts = s.attempts
  nextAttempt : s'.nextAttempt = s.nextAttempt
  destroyed : s'.destroyed = s.destroyed
  now : s.now ≤ s'.now
  flushes : flush ∨ s'.flushes = s.flushes
  acquires : hold ∨ s'.acquires = s.acquires

/-- The attempt `h` decides nothing about its record. -/
def Superseded (s : State U) (h : Nat) : Prop :=
  s.gone (s.attempts h).record = true ∨ (s.recs (s.attempts h).record).newest ≠ some h

/-- The reaction to the answer of `h` is under way: `h` has left the in-flight
set, or its rejection has been reported. -/
def Reacting (s : State U) (h : Nat) : Prop :=
  (((s.attempts h).phase = .skipped ∨ ∃ ans, (s.attempts h).phase = .answered ans) ∧
      h ∉ (s.recs (s.attempts h).record).inflight) ∨
    (s.attempts h).phase = .reported

/-- The moves of the authority. -/
inductive Move (o : Options) (flush hold : Prop) (late : State U → Nat → Prop) :
    State U → State U → Prop where
  | aside {s s'} : Aside flush hold s s' → Move o flush hold late s s'
  | idle {s r f} : Idle hold f (s.recs r) → Move o flush hold late s (s.modRec r f)
  | waiters {s h} (w : List Nat → List Nat) : flush →
      Move o flush hold late s (s.modAttempt h fun a => { a with waiters := w a.waiters })
  | create {s topic} : hold → s.destroyed = false → s.topics.get? topic = none →
      Move o flush hold late s (s.addRec topic)
  | capture {s r} (by' : Option Nat) : s.registered r = true →
      Move o flush hold late s (storeNow o s r by').1
  | fire {s r} : s.gone r = true ∨ (s.recs r).dirty = false →
      Move o flush hold late s (s.modRec r fun rec => { rec with debounceTimer := none })
  | giveUp {s r h} : h ∈ (s.recs r).inflight → late s h →
      Move o flush hold late s (abandon o s r h false)
  | unload {s r} : Move o flush hold late s (unload o s r)
  | destroy {s} : s.destroyed = false → Move o flush hold late s (destroy o s)
  | dispatch {s s' h} : dispatch s h = some s' → Move o flush hold late s s'
  | answer {s s' h ans} : answer s h ans = some s' → Move o flush hold late s s'
  | leave {s h} : h < s.nextAttempt →
      (s.attempts h).phase = .skipped ∨ (∃ ans, (s.attempts h).phase = .answered ans) →
      Move o flush hold late s (leaveInflight s h)
  | report {s h} : h < s.nextAttempt → (∃ ans, (s.attempts h).phase = .answered ans) →
      h ∉ (s.recs (s.attempts h).record).inflight →
      Move o flush hold late s (s.modAttempt h fun a => { a with phase := .reported })
  | settle {s h} (out : Outcome) : h < s.nextAttempt → Reacting s h →
      ((s.attempts h).abandoned = true → out = .failed) →
      ((s.attempts h).abandoned = true ∨ Superseded s h ∨ out = .durable) →
      Move o flush hold late s (settleAs s h out)
  | refuse {s h} (out : Outcome) : h < s.nextAttempt → Reacting s h →
      (s.attempts h).abandoned = false → s.gone (s.attempts h).record = false →
      Move o flush hold late s
        (keepDirty o (settleAs s h out) (s.attempts h).record (s.attempts h).attempt)
  | chainSettle {s s' h} : chainSettle s h = some s' → Move o flush hold late s s'

/-- The actions that acquire, load or release. -/
def holding : Action U → Bool
  | .acquire _ => true
  | .loadDispatch _ => true
  | .loadAnswer _ _ => true
  | .loadReact _ => true
  | .acquired _ => true
  | .release _ => true
  | _ => false

def Moves (o : Options) (flush hold : Prop) (late : State U → Nat → Prop) :
    State U → State U → Prop :=
  ReflTransGen (Move o flush hold late)

/-- The record of `topic` accepts the update `u`. -/
def State.accept (s : State U) (r : Nat) (u : U) : State U :=
  s.modRec r fun rec => { rec with
    doc := rec.doc ++ [u], accepted := rec.accepted ++ [u], dirty := true
    updatesSinceStore := rec.updatesSinceStore + 1 }

/-- An accepted update, put on the schedule. -/
inductive Edit (o : Options) : State U → State U → Prop where
  | mk {s r u} : s.registered r = true → s.destroyed = false →
      Edit o s (scheduleStore o (s.accept r u) r)

/-- Every topic is registered under its own name. -/
def Named (s : State U) : Prop :=
  ∀ k r, s.topics.get? k = some r → (s.recs r).topic = k ∧ r < s.nextRec

theorem Named.registered {s : State U} (hk : Named s) {k : String} {r : Nat}
    (h : s.topics.get? k = some r) : s.registered r = true :=
  registered_eq_true.mpr ((hk k r h).1 ▸ h)

/-! ## the operations as moves -/

variable {n : Nat}

section Operations

variable {o : Options} {flush hold : Prop} {late : State U → Nat → Prop} {s s' : State U} {r h : Nat}

theorem gone_modRec {q : Nat} {f : TopicRecord U → TopicRecord U}
    (hf : (f (s.recs r)).topic = (s.recs r).topic) : (s.modRec r f).gone q = s.gone q := by
  rw [gone, registered_modRec hf]
  rfl

theorem gone_eq_false : s.gone r = false ↔ s.destroyed = false ∧ s.registered r = true := by
  simp [gone]

theorem aside_acquires (xs : List Nat) (hh : hold) : Aside flush hold s { s with acquires := xs } :=
  ⟨rfl, rfl, rfl, rfl, rfl, rfl, Nat.le_refl _, .inr rfl, .inl hh⟩

theorem aside_errors (xs : List (String × Op)) : Aside flush hold s { s with errors := xs } :=
  ⟨rfl, rfl, rfl, rfl, rfl, rfl, Nat.le_refl _, .inr rfl, .inr rfl⟩

theorem aside_modFlush {f : Nat} {g : Flush → Flush} (hf : flush) : Aside flush hold s (s.modFlush f g) :=
  ⟨rfl, rfl, rfl, rfl, rfl, rfl, Nat.le_refl _, .inl hf, .inr rfl⟩

theorem moves_acquire (hh : hold) (topic : String) : Moves o flush hold late s (acquire s topic) := by
  unfold acquire
  split
  · exact .refl
  · next hd =>
    split
    · exact .tail (.single (.idle ⟨rfl, prefix_refl _, rfl, rfl, rfl, rfl, rfl, rfl, rfl, .inr ⟨rfl, rfl⟩⟩))
        (.aside (aside_acquires _ hh))
    · next hnone =>
      exact .tail (.single (.create hh (by simpa using hd) hnone)) (.aside (aside_acquires _ hh))

theorem moves_loadDispatch (hh : hold) (hs : loadDispatch o s r = some s') : Moves o flush hold late s s' := by
  unfold loadDispatch at hs
  split at hs
  · split at hs
    · cases hs
      exact .single (.idle ⟨rfl, prefix_refl _, rfl, rfl, rfl, rfl, rfl, rfl, rfl, .inl hh⟩)
    · contradiction
  · contradiction

theorem moves_loadAnswer {ans : LoadAnswer U} (hh : hold) (hs : loadAnswer s r ans = some s') :
    Moves o flush hold late s s' := by
  unfold loadAnswer at hs
  split at hs
  · cases hs
    exact .single (.idle ⟨rfl, prefix_refl _, rfl, rfl, rfl, rfl, rfl, rfl, rfl, .inl hh⟩)
  · contradiction

theorem moves_loadFailed (hh : hold) : Moves o flush hold late s (loadFailed o s r) := by
  have hun : Moves o flush hold late s (unload o (s.modRec r fun rec => { rec with load := .failed }) r) :=
    .tail (.single (.idle ⟨rfl, prefix_refl _, rfl, rfl, rfl, rfl, rfl, rfl, rfl, .inl hh⟩)) .unload
  simp only [loadFailed]
  split
  · exact hun.tail (.aside (aside_errors _))
  · exact hun

theorem moves_loadReact (hh : hold) (hs : loadReact o s r = some s') : Moves o flush hold late s s' := by
  unfold loadReact at hs
  split at hs
  · next ans _ =>
    have hleft : Moves o flush hold late s (s.modRec r fun rec => { rec with loadInflight := false }) :=
      .single (.idle ⟨rfl, prefix_refl _, rfl, rfl, rfl, rfl, rfl, rfl, rfl, .inr ⟨rfl, rfl⟩⟩)
    have hfail : Moves o flush hold late s
        (loadFailed o (s.modRec r fun rec => { rec with loadInflight := false }) r) :=
      hleft.trans (moves_loadFailed hh)
    cases ans with
    | rejected | notBytes => exact Option.some.inj hs ▸ hfail
    | nothing =>
      dsimp only at hs
      split at hs
      · cases hs
        exact hleft.tail (.idle ⟨rfl, prefix_refl _, rfl, rfl, rfl, rfl, rfl, rfl, rfl, .inl hh⟩)
      · exact Option.some.inj hs ▸ hfail
    | bytes doc =>
      dsimp only at hs
      split at hs
      · cases hs
        exact hleft.tail (.idle ⟨rfl, List.prefix_append _ _, rfl, rfl, rfl, rfl, rfl, rfl, rfl, .inl hh⟩)
      · exact Option.some.inj hs ▸ hfail
  · contradiction

theorem moves_acquired {i : Nat} (hh : hold) (hs : acquired s i = some s') : Moves o flush hold late s s' := by
  unfold acquired at hs
  split at hs
  · contradiction
  · split at hs
    · cases hs
      exact .tail (.single (.idle ⟨rfl, prefix_refl _, rfl, rfl, rfl, rfl, rfl, rfl, rfl, .inl hh⟩))
        (.aside (aside_acquires _ hh))
    · cases hs
      exact .single (.aside (aside_acquires _ hh))
    · contradiction

theorem moves_release (hh : hold) (hk : Named s) (topic : String) :
    Moves o flush hold late s (release o s topic) := by
  unfold release
  split
  · exact .refl
  rename_i r hr
  have hreg := hk.registered hr
  have hrefs : Moves o flush hold late s (s.modRec r fun rec => { rec with refs := rec.refs - 1 }) :=
    .single (.idle ⟨rfl, prefix_refl _, rfl, rfl, rfl, rfl, rfl, rfl, rfl, .inl hh⟩)
  split
  · exact .refl
  dsimp only
  split
  · exact hrefs
  have hun : Moves o flush hold late s
      ((s.modRec r fun rec => { rec with refs := rec.refs - 1 }).modRec r
        fun rec => { rec with unloading := true }) :=
    hrefs.tail (.idle ⟨rfl, prefix_refl _, rfl, rfl, rfl, rfl, rfl, rfl, rfl, .inr ⟨rfl, rfl⟩⟩)
  split
  · refine hun.tail (.capture _ ?_)
    rw [registered_modRec rfl, registered_modRec rfl, hreg]
  · exact hun.tail (.idle ⟨rfl, prefix_refl _, rfl, rfl, rfl, rfl, rfl, rfl, rfl, .inr ⟨rfl, rfl⟩⟩)

theorem moves_check {i : Nat} (hs : check o s r i = some s') : Moves o flush hold late s s' := by
  unfold check at hs
  split at hs
  · contradiction
  split at hs
  · have hdone : Moves o flush hold late s
        (s.modRec r fun rec => { rec with checks := rec.checks.eraseIdx i }) :=
      .single (.idle ⟨rfl, prefix_refl _, rfl, rfl, rfl, rfl, rfl, rfl, rfl, .inr ⟨rfl, rfl⟩⟩)
    dsimp only at hs
    split at hs
    · exact Option.some.inj hs ▸ hdone
    · split at hs
      · exact Option.some.inj hs ▸ hdone.tail .unload
      · exact Option.some.inj hs ▸ hdone
  · contradiction

theorem storeNow_modRec (timer start : Option Nat) {by' : Option Nat} :
    storeNow o (s.modRec r fun rec => { rec with debounceTimer := timer, maxWaitStart := start }) r
      by' = storeNow o s r by' := by
  simp [storeNow, modRec, clearSchedule]

theorem moves_timer (hs : timer o s r = some s') : Moves o flush hold late s s' := by
  unfold timer at hs
  split at hs
  · contradiction
  obtain ⟨-, hs⟩ := Option.ite_none_right_eq_some.mp hs
  dsimp only at hs
  split at hs
  · next hidle =>
    cases hs
    refine .single (.fire (hidle.imp (fun hg => ?_) fun hd => by simpa using hd))
    rwa [gone_modRec rfl] at hg
  · next hgo =>
    cases hs
    rw [not_or, gone_modRec rfl, Bool.not_eq_true] at hgo
    have hcap : storeNow o (s.modRec r fun rec => { rec with debounceTimer := none }) r none =
        storeNow o s r none :=
      storeNow_modRec none (s.recs r).maxWaitStart
    rw [hcap]
    exact .single (.capture _ (gone_eq_false.mp hgo.1).2)

theorem keepDirty_eq :
    ∃ due : Nat, keepDirty o s r n = s.modRec r fun rec =>
      { rec with storeAttempt := n, dirty := true, debounceTimer := some due } := by
  unfold keepDirty armRetry
  split
  · next hdue =>
    obtain ⟨due, hdue⟩ := Option.isSome_iff_exists.mp hdue
    refine ⟨due, ?_⟩
    rw [recs_modRec_self] at hdue
    simp [modRec, ← hdue]
  · exact ⟨s.now + max 1000 o.debounceMaxWait, by simp [modRec]⟩

theorem unload_keepDirty : unload o (keepDirty o s r n) r =
    unload o (s.modRec r fun rec => { rec with storeAttempt := n, dirty := true }) r := by
  obtain ⟨due, hdue⟩ := keepDirty_eq
  rw [hdue]
  simp [unload, modRec, clearSchedule]

theorem moves_onResolved {value : Bool} (hlt : h < s.nextAttempt)
    (hph : (s.attempts h).phase = .skipped ∨ ∃ ans, (s.attempts h).phase = .answered ans) :
    Moves o flush hold late s (onResolved o s h value) := by
  have hleave : Moves o flush hold late s (leaveInflight s h) := .single (.leave hlt hph)
  have hreact : Reacting (leaveInflight s h) h := .inl ⟨hph, by simp [leaveInflight]⟩
  have hsettle : ∀ out, ((s.attempts h).abandoned = true → out = .failed) →
      ((s.attempts h).abandoned = true ∨ Superseded (leaveInflight s h) h ∨ out = .durable) →
        Move o flush hold late (leaveInflight s h) (settleAs (leaveInflight s h) h out) :=
    fun out => .settle (s := leaveInflight s h) out hlt hreact
  simp only [onResolved]
  split
  · next ha => exact hleave.tail (hsettle .failed (fun _ => rfl) (.inl ha))
  rename_i ha
  generalize hout : (if value = true then Outcome.durable else Outcome.declined) = out
  split
  · next hgone => exact hleave.tail (hsettle out (fun hab => absurd hab ha) (.inr (.inl (.inl hgone))))
  rename_i hgone
  split
  · next hnew => exact hleave.tail (hsettle out (fun hab => absurd hab ha) (.inr (.inl (.inr hnew))))
  rename_i hnew
  have hgone : (leaveInflight s h).gone (s.attempts h).record = false :=
    Bool.not_eq_true _ ▸ hgone
  split
  · have hrefuse : Moves o flush hold late s (keepDirty o (settleAs (leaveInflight s h) h out)
        (s.attempts h).record (s.attempts h).attempt) :=
      hleave.tail (.refuse out hlt hreact
        (Bool.not_eq_true _ ▸ ha) hgone)
    split
    · rw [← unload_keepDirty]
      exact hrefuse.tail .unload
    · exact hrefuse
  · next hnot =>
    have hland : out = .durable := by
      cases value <;> simp_all
    have hreg := (gone_eq_false.mp hgone).2
    subst hland
    have hzero := (hleave.tail (hsettle .durable (fun hab => absurd hab ha)
      (.inr (.inr rfl)))).tail (.idle (r := (s.attempts h).record)
        (f := fun rec => { rec with storeAttempt := 0 })
        ⟨rfl, prefix_refl _, rfl, rfl, rfl, rfl, rfl, rfl, rfl, .inr ⟨rfl, rfl⟩⟩)
    split
    · split
      · refine hzero.tail (.capture _ ?_)
        rw [registered_modRec rfl]
        exact hreg
      · exact hzero.tail .unload
    · exact hzero

theorem moves_react (hs : react o s h = some s') : Moves o flush hold late s s' := by
  obtain ⟨hlt, hs⟩ := by simpa [react] using hs
  split at hs
  · next value hph =>
    exact Option.some.inj hs ▸ moves_onResolved hlt (.inr ⟨_, hph⟩)
  · next hph => exact Option.some.inj hs ▸ moves_onResolved hlt (.inl hph)
  · next hph =>
    cases hs
    have hrep : Moves o flush hold late s
        ((leaveInflight s h).modAttempt h fun a => { a with phase := .reported }) :=
      .tail (.single (.leave hlt (.inr ⟨_, hph⟩)))
        (.report hlt ⟨_, hph⟩ (by simp [leaveInflight]))
    simp only [onRejected]
    split
    · exact hrep.tail (.aside (aside_errors _))
    · exact hrep
  · next hph =>
    cases hs
    have hsettle : ((s.attempts h).abandoned = true ∨ Superseded s h ∨
        Outcome.failed = .durable) → Move o flush hold late s (settleAs s h .failed) :=
      .settle .failed hlt (.inr hph) fun _ => rfl
    simp only [afterReport]
    split
    · next ha => exact .single (hsettle (.inl ha))
    rename_i ha
    split
    · next hgone => exact .single (hsettle (.inr (.inl (.inl hgone))))
    · next hgone =>
      split
      · next hnew => exact .single (hsettle (.inr (.inl (.inr hnew))))
      · exact .single (.refuse .failed hlt (.inr hph) (by simpa using ha)
          (Bool.not_eq_true _ ▸ hgone))
  · contradiction

theorem moves_drop (topic : String) : Moves o flush hold late s (drop o s topic) := by
  unfold drop
  split
  · exact .refl
  · exact .single .unload

theorem moves_destroy : Moves o flush hold late s (destroy o s) := by
  by_cases hd : s.destroyed = true
  · simp only [destroy, hd]
    exact .refl
  · exact .single (.destroy (by simpa using hd))

end Operations

/-! ## flushes as moves -/

section Flushes

variable {o : Options} {hold : Prop} {late : State U → Nat → Prop} {s s' : State U} {f r : Nat}

theorem moves_foldl {β : Type} {flush hold : Prop} {g : State U → β → State U} {xs : List β}
    (hg : ∀ s, ∀ x ∈ xs, Moves o flush hold late s (g s x)) :
    Moves o flush hold late s (xs.foldl g s) :=
  List.foldlRecOn xs g .refl fun _ ht x hx => ht.trans (hg _ x hx)

theorem moves_forgetWaiter : Moves o True hold late s (forgetWaiter s f r) :=
  moves_foldl fun _ _ _ => .single (.waiters (fun ws => ws.filter (· ≠ f)) trivial)

theorem moves_finish : Moves o True hold late s (finish o s f) := by
  unfold finish
  exact .tail (moves_foldl fun _ _ _ => moves_forgetWaiter) (.aside (aside_modFlush trivial))

theorem registered_join (hs : List Nat) (q : Nat) :
    (hs.foldl (fun s h => s.modAttempt h fun a =>
      { a with waiters := if f ∈ a.waiters then a.waiters else a.waiters ++ [f] }) s).registered q =
      s.registered q :=
  List.foldlRecOn (motive := fun t : State U => t.registered q = s.registered q) hs _ rfl
    fun _ ht _ _ => ht

theorem registered_storeNow {by' : Option Nat} {q : Nat} :
    (storeNow o s r by').1.registered q = s.registered q := by
  simp only [storeNow]
  split
  · exact registered_modRec rfl
  · rw [registered_modRec rfl]
    exact registered_modRec (f := fun rec =>
      { clearSchedule rec with dirty := false, updatesSinceStore := 0 }) rfl

theorem moves_flushOne (hr : s.registered r = true) :
    Moves o True hold late s (flushOne o s r f).1 ∧
      ∀ q, (flushOne o s r f).1.registered q = s.registered q := by
  have hjoin : Moves o True hold late s ((s.recs r).inflight.foldl
      (fun s h => s.modAttempt h fun a =>
        { a with waiters := if f ∈ a.waiters then a.waiters else a.waiters ++ [f] }) s) :=
    moves_foldl fun _ _ _ =>
      .single (.waiters (fun ws => if f ∈ ws then ws else ws ++ [f]) trivial)
  unfold flushOne
  dsimp only
  split
  · exact ⟨hjoin.tail (.capture _ (by rw [registered_join, hr])),
      fun q => by rw [registered_storeNow, registered_join]⟩
  · exact ⟨hjoin, fun q => by rw [registered_join]⟩

theorem moves_awaitAll {targets : List (String × Nat)}
    (hr : ∀ t ∈ targets, s.registered t.2 = true) :
    Moves o True hold late s (targets.foldl (awaitTarget o f) s) := by
  induction targets generalizing s with
  | nil => exact .refl
  | cons t ts ih =>
    obtain ⟨hone, hreg⟩ : Moves o True hold late s (flushOne o s t.2 f).1 ∧ _ :=
      moves_flushOne (hr t (by simp))
    have hwait : Moves o True hold late s (awaitTarget o f s t) :=
      hone.tail (.aside (aside_modFlush (g := fun fl =>
        { fl with pending := fl.pending ++ [⟨t.1, t.2, (flushOne o s t.2 f).2⟩] }) trivial))
    refine hwait.trans (ih fun t' ht' => ?_)
    exact (hreg t'.2).trans (hr t' (List.mem_cons_of_mem _ ht'))

theorem moves_persistNow (hk : Named s) (topic : Option String) (timeout : Option (Option Nat)) :
    Moves o True hold late s (persistNow o s topic timeout) := by
  have hrun : ∀ targets d, (∀ t ∈ targets, s.registered t.2 = true) →
      Moves o True hold late s (runFlush o s targets d) := by
    intro targets d hreg
    unfold runFlush
    dsimp only
    generalize hs₀ : ({ s with
      flushes := _
      nextFlush := _ } : State U) = s₀
    have haside : Moves o True hold late s s₀ :=
      hs₀ ▸ .single (.aside ⟨rfl, rfl, rfl, rfl, rfl, rfl, Nat.le_refl _, .inl trivial, .inr rfl⟩)
    have hawait : Moves o True hold late s (targets.foldl (awaitTarget o s.nextFlush) s₀) :=
      haside.trans (moves_awaitAll fun t ht => hs₀ ▸ hreg t ht)
    split
    · exact hawait.trans moves_finish
    · exact hawait.tail (.aside (aside_modFlush trivial))
  refine hrun _ _ fun t ht => ?_
  cases topic with
  | some name =>
    obtain ⟨r, hr, rfl⟩ : ∃ r, s.topics.get? name = some r ∧ (name, r) = t := by
      simpa using ht
    exact hk.registered hr
  | none => exact hk.registered (JsMap.mem_entries_iff.mp ht)

theorem moves_flushReact {topic : String} (hs : flushReact o s f topic = some s') :
    Moves o True hold late s s' := by
  unfold flushReact at hs
  split at hs
  · contradiction
  · split at hs
    · contradiction
    · dsimp only at hs
      split at hs
      · exact Option.some.inj hs ▸
          (Relation.ReflTransGen.single (.aside (aside_modFlush trivial))).trans moves_finish
      · exact Option.some.inj hs ▸ .single (.aside (aside_modFlush trivial))

theorem inflight_keepDirty {q : Nat} :
    ((keepDirty o s r n).recs q).inflight = (s.recs q).inflight := by
  obtain ⟨due, hdue⟩ := keepDirty_eq
  rw [hdue]
  by_cases hq : q = r
  · subst hq; simp
  · rw [recs_modRec_ne hq]

theorem attempts_keepDirty : (keepDirty o s r n).attempts = s.attempts := by
  obtain ⟨due, hdue⟩ := keepDirty_eq
  rw [hdue]
  rfl

theorem inflight_abandon (silent : Bool) {h : Nat} (ha : (s.attempts h).abandoned = false) :
    ((abandon o s r h silent).recs r).inflight = (s.recs r).inflight.filter (· ≠ h) ∧
      (∀ q ≠ r, ((abandon o s r h silent).recs q).inflight = (s.recs q).inflight) ∧
      (abandon o s r h silent).attempts = Function.update s.attempts h { s.attempts h with
        abandoned := true, silent := silent
        chain := (s.attempts h).chain.or (some .failed) } := by
  simp only [abandon, ha, Bool.false_eq_true, if_false]
  split
  · exact ⟨by simp, fun q hq => by rw [recs_modRec_ne hq]; rfl, rfl⟩
  split
  · exact ⟨by simp, fun q hq => by rw [recs_modRec_ne hq]; rfl, rfl⟩
  · refine ⟨?_, fun q hq => ?_, ?_⟩
    · rw [inflight_keepDirty]
      simp
    · rw [inflight_keepDirty, recs_modRec_ne hq]
      rfl
    · rw [attempts_keepDirty]
      rfl

/-- The flush `f` waits on the attempt `h`, and no other flush does. -/
def LastWaiter (s : State U) (f h : Nat) : Prop :=
  f ∈ (s.attempts h).waiters ∧ (s.attempts h).waiters.filter (· ≠ f) = []

/-- What a call of `giveUp` does: nothing, or it takes `f` off the waiters and,
if nobody else waits, abandons the attempt. -/
theorem giveUp_cases {h : Nat} :
    (f ∉ (s.attempts h).waiters ∧ giveUp o f r s h = s) ∨
      ((s.attempts h).waiters.filter (· ≠ f) ≠ [] ∧ giveUp o f r s h =
        (s.modAttempt h fun a => { a with waiters := a.waiters.filter (· ≠ f) })) ∨
      (LastWaiter s f h ∧ giveUp o f r s h =
        abandon o (s.modAttempt h fun a => { a with waiters := a.waiters.filter (· ≠ f) }) r h
          false) := by
  unfold giveUp
  split
  · next hf =>
    dsimp only
    split
    · next hnone =>
      refine .inr (.inr ⟨⟨hf, ?_⟩, rfl⟩)
      rw [attempts_modAttempt_self] at hnone
      exact List.isEmpty_iff.mp hnone
    · next hsome =>
      refine .inr (.inl ⟨fun hnil => hsome ?_, rfl⟩)
      rw [attempts_modAttempt_self]
      exact List.isEmpty_iff.mpr hnil
  · next hf => exact .inl ⟨hf, rfl⟩

/-- Giving up on calls of `r`, by induction on their list: each is still in
flight when its turn comes, or has been abandoned. -/
theorem moves_giveUpAll (hs : List Nat) (hlate : ∀ s h, late s h)
    (hin : ∀ h ∈ hs, h ∈ (s.recs r).inflight ∨ (s.attempts h).abandoned = true) :
    Moves o True hold late s (hs.foldl (giveUp o f r) s) := by
  induction hs generalizing s with
  | nil => exact .refl
  | cons h hs ih =>
    have hw : Move o True hold late s
        (s.modAttempt h fun a => { a with waiters := a.waiters.filter (· ≠ f) }) :=
      .waiters (fun ws => ws.filter (· ≠ f)) trivial
    have hrest := fun g hg => hin g (List.mem_cons_of_mem h hg)
    have hrest' : ∀ g ∈ hs, g ∈ (s.recs r).inflight ∨
        ((s.modAttempt h fun a => { a with waiters := a.waiters.filter (· ≠ f) }).attempts
          g).abandoned = true := by
      intro g hg
      by_cases hgh : g = h
      · subst hgh
        simpa using hrest g hg
      · rw [attempts_modAttempt_ne hgh]
        exact hrest g hg
    rcases giveUp_cases with ⟨-, he⟩ | ⟨-, he⟩ | ⟨-, he⟩
    · rw [List.foldl_cons, he]
      exact ih hrest
    · rw [List.foldl_cons, he]
      exact .head hw (ih hrest')
    rw [List.foldl_cons, he]
    cases ha : (s.attempts h).abandoned with
    | true =>
      have hsame : abandon o (s.modAttempt h fun a =>
          { a with waiters := a.waiters.filter (· ≠ f) }) r h false =
          s.modAttempt h fun a => { a with waiters := a.waiters.filter (· ≠ f) } := by
        simp [abandon, ha]
      rw [hsame]
      exact .head hw (ih hrest')
    | false =>
      have hhere : h ∈ (s.recs r).inflight := by simpa [ha] using hin h (by simp)
      have ha' : ((s.modAttempt h fun a =>
          { a with waiters := a.waiters.filter (· ≠ f) }).attempts h).abandoned = false := by
        simp [ha]
      obtain ⟨hr, -, hatt⟩ := inflight_abandon false ha'
      refine .head hw (.head (.giveUp hhere (hlate _ _)) (ih fun g hg => ?_))
      rw [hr, hatt]
      by_cases hgh : g = h
      · subst hgh
        exact .inr (by simp)
      · rw [Function.update_of_ne hgh, attempts_modAttempt_ne hgh]
        exact (hrest g hg).imp_left fun hm => List.mem_filter.mpr ⟨hm, by simpa using hgh⟩

theorem moves_flushDeadline (hlate : ∀ s h, late s h) (hs : flushDeadline o s f = some s') :
    Moves o True hold late s s' := by
  unfold flushDeadline at hs
  split at hs
  · contradiction
  · split at hs
    · cases hs
      refine .trans (moves_foldl fun t w _ => ?_)
        (.trans (.single (.aside (aside_modFlush trivial))) moves_finish)
      exact .trans (.single (.aside (aside_modFlush trivial)))
        (moves_giveUpAll _ hlate fun h hh => .inl hh)
    · contradiction

end Flushes

/-! ## steps -/

section Steps

variable [DecidableEq U] {o : Options} {yjs : Yjs U} {hold : Prop}
  {late : State U → Nat → Prop} {s s' : State U}

variable (late) in
theorem applyUpdate_cases (hk : Named s) {topic : String} {u : U} :
    Moves o False False late s (applyUpdate o yjs s topic u).1 ∨
      ∃ t, Edit o s t ∧ Moves o False False late t (applyUpdate o yjs s topic u).1 := by
  unfold applyUpdate
  split
  · exact .inl .refl
  rename_i r hr
  split
  · exact .inl .refl
  rename_i hlive
  split
  · exact .inl .refl
  split
  · exact .inl .refl
  · split
    · dsimp only
      split
      · exact .inl (.single
          (.idle ⟨rfl, prefix_refl _, rfl, rfl, rfl, rfl, rfl, rfl, rfl, .inr ⟨rfl, rfl⟩⟩))
      · exact .inl .refl
    · have hreg := hk.registered hr
      have hd : s.destroyed = false := by
        rw [not_or] at hlive
        simpa using hlive.2
      refine .inr ⟨_, .mk (u := u) hreg hd, ?_⟩
      dsimp only
      split
      · have hcap : storeNow o (s.accept r u) r none =
            storeNow o (scheduleStore o (s.accept r u) r) r none := by
          unfold scheduleStore
          split
          · rfl
          · exact (storeNow_modRec _ _).symm
        change Moves o False False late _ (storeNow o (s.accept r u) r none).1
        rw [hcap]
        refine .single (.capture _ ?_)
        have hacc : (s.accept r u).registered r = true :=
          (registered_modRec (s := s) rfl).trans hreg
        unfold scheduleStore
        split
        · exact hacc
        · rw [registered_modRec rfl, hacc]
      · exact .refl

variable (late) in
theorem next_moves (hk : Named s) {a : Action U}
    (hdeadline : ∀ f, a = .flushDeadline f → Moves o True (holding a = true) late s s')
    (ha : ∀ topic u, a ≠ .applyUpdate topic u)
    (hs : (machine o yjs).next s a = some s') : Moves o (flushing a = true) (holding a = true) late s s' := by
  have htrue : flushing a = true → Moves o True (holding a = true) late s s' →
      Moves o (flushing a = true) (holding a = true) late s s' :=
    fun hf hm => by simpa [hf] using hm
  cases a with
  | acquire topic => exact Option.some.inj hs ▸ moves_acquire rfl topic
  | loadDispatch r => exact moves_loadDispatch rfl hs
  | loadAnswer r ans => exact moves_loadAnswer rfl hs
  | loadReact r => exact moves_loadReact rfl hs
  | acquired i => exact moves_acquired rfl hs
  | release topic => exact Option.some.inj hs ▸ moves_release rfl hk topic
  | check r i => exact moves_check hs
  | applyUpdate topic u => exact absurd rfl (ha topic u)
  | timer r => exact moves_timer hs
  | dispatch h => exact .single (.dispatch hs)
  | answer h ans => exact .single (.answer hs)
  | react h => exact moves_react hs
  | chainSettle h => exact .single (.chainSettle hs)
  | persistNow topic timeout =>
    exact htrue rfl (Option.some.inj hs ▸ moves_persistNow hk topic timeout)
  | flushReact f topic => exact htrue rfl (moves_flushReact hs)
  | flushDeadline f => exact htrue rfl (hdeadline f rfl)
  | drop topic => exact Option.some.inj hs ▸ moves_drop topic
  | destroy => exact Option.some.inj hs ▸ moves_destroy
  | tick ms =>
    exact Option.some.inj hs ▸
      .single (.aside ⟨rfl, rfl, rfl, rfl, rfl, rfl, Nat.le_add_right _ _, .inr rfl, .inr rfl⟩)

end Steps

end BunServe.Crdt
