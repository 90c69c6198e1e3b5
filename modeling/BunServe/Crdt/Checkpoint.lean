import BunServe.Crdt.Tracked

/-!
# BunServe.Crdt.Checkpoint

How long a stream of edits can postpone the store.

`Clocked` is the authority with the times of the edits that each record has
accepted since its last capture.  While there are any, a timer is armed, due
`debounceMaxWait` after the first of them at the latest
(`checkpoint_bound`); an edit that comes when that moment is already past, since
the timer is late, re-arms it to fire at once, which is later than that bound
(`late_timer_rearmed`).
-/

namespace BunServe.Crdt

open Machine

variable {U : Type}

/-! ## the times of the edits -/

/-- A step from `s` to `s'` has captured the record `r`. -/
def captured (s s' : State U) (r : Nat) : Bool :=
  (List.range s'.nextAttempt).any fun h => s.nextAttempt ≤ h && (s'.attempts h).record == r

/-- The authority, and the times of the edits that each record has accepted
since its last capture. -/
structure Clocked (U : Type) where
  auth : State U
  edits : Nat → List Nat

/-- Keep the times over a step of the authority. -/
def Clocked.keep (c : Clocked U) (s' : State U) : Clocked U where
  auth := s'
  edits r := if captured c.auth s' r then [] else c.edits r ++
    List.replicate ((s'.recs r).accepted.length - (c.auth.recs r).accepted.length) c.auth.now

/-- The authority as a machine that keeps the times of its edits. -/
def clocked [DecidableEq U] (o : Options) (yjs : Yjs U) : Machine (Clocked U) (Action U) where
  init := ⟨.init, fun _ => []⟩
  next c a := ((machine o yjs).next c.auth a).map c.keep

theorem captured_iff {s s' : State U} {r : Nat} : captured s s' r = true ↔
    ∃ h < s'.nextAttempt, s.nextAttempt ≤ h ∧ (s'.attempts h).record = r := by
  simp [captured]

/-! ## the schedule of a record -/

/-- The schedule of a record with the uncaptured edits `es`: the max wait
starts with the first of them, and a timer is armed. -/
structure Scheduled (wait : Nat) (es : List Nat) (rec : TopicRecord U) : Prop where
  start : rec.maxWaitStart = es.head?
  dirty : es ≠ [] → rec.dirty = true
  due : ∀ first last, es.head? = some first → es.getLast? = some last →
    ∃ due, rec.debounceTimer = some due ∧ due ≤ max (first + wait) last

/-- Every registered record is scheduled. -/
structure Timed (o : Options) (es : Nat → List Nat) (s : State U) : Prop where
  scheduled : ∀ r, s.registered r = true → Scheduled o.debounceMaxWait (es r) (s.recs r)
  fresh : ∀ r, s.nextRec ≤ r → es r = []

section Steps

variable {o : Options} {flush hold : Prop} {late : State U → Nat → Prop} {s s' t : State U} {r h : Nat}
  {es : Nat → List Nat}

/-- What a step without edits leaves of attempts and edits. -/
structure Unedited (s s' : State U) : Prop where
  nextAttempt : s.nextAttempt ≤ s'.nextAttempt
  record : ∀ h < s.nextAttempt, (s'.attempts h).record = (s.attempts h).record
  nextRec : s.nextRec ≤ s'.nextRec
  accepted : ∀ r < s.nextRec, (s'.recs r).accepted = (s.recs r).accepted
  length : ∀ r, (s'.recs r).accepted.length ≤ (s.recs r).accepted.length

theorem Unedited.refl : Unedited s s :=
  ⟨Nat.le_refl _, fun _ _ => rfl, Nat.le_refl _, fun _ _ => rfl, fun _ => Nat.le_refl _⟩

theorem Unedited.trans (h : Unedited s s') (h' : Unedited s' t) : Unedited s t where
  nextAttempt := Nat.le_trans h.nextAttempt h'.nextAttempt
  record g hg := (h'.record g (Nat.lt_of_lt_of_le hg h.nextAttempt)).trans (h.record g hg)
  nextRec := Nat.le_trans h.nextRec h'.nextRec
  accepted r hr :=
    (h'.accepted r (Nat.lt_of_lt_of_le hr h.nextRec)).trans (h.accepted r hr)
  length r := Nat.le_trans (h'.length r) (h.length r)

theorem captured_trans (h : Unedited s s') (h' : Unedited s' t) :
    captured s t r = (captured s s' r || captured s' t r) := by
  rw [Bool.eq_iff_iff, Bool.or_eq_true, captured_iff, captured_iff, captured_iff]
  constructor
  · rintro ⟨g, hlt, hle, hr⟩
    rcases Nat.lt_or_ge g s'.nextAttempt with hg | hg
    · exact .inl ⟨g, hg, hle, (h'.record g hg).symm.trans hr⟩
    · exact .inr ⟨g, hlt, hg, hr⟩
  · rintro (⟨g, hlt, hle, hr⟩ | ⟨g, hlt, hle, hr⟩)
    · exact ⟨g, Nat.lt_of_lt_of_le hlt h'.nextAttempt, hle, (h'.record g hlt).trans hr⟩
    · exact ⟨g, hlt, Nat.le_trans h.nextAttempt hle, hr⟩

theorem captured_of_same (h : s'.nextAttempt = s.nextAttempt) : captured s s' r = false := by
  rw [Bool.eq_false_iff, ne_eq, captured_iff]
  rintro ⟨g, hlt, hle, -⟩
  omega

/-- A step that captures nothing, and leaves what stays registered on its
schedule. -/
structure Steady (s s' : State U) : Prop where
  nextAttempt : s'.nextAttempt = s.nextAttempt
  nextRec : s'.nextRec = s.nextRec
  registered : ∀ q, s'.registered q = true → s.registered q = true
  start : ∀ q, s'.registered q = true → (s'.recs q).maxWaitStart = (s.recs q).maxWaitStart
  dirty : ∀ q, s'.registered q = true → (s.recs q).dirty = true → (s'.recs q).dirty = true
  timer : ∀ q, s'.registered q = true → (s.recs q).dirty = true → ∀ due,
    (s.recs q).debounceTimer = some due → (s'.recs q).debounceTimer = some due

theorem Steady.trans (h : Steady s s') (h' : Steady s' t) : Steady s t where
  nextAttempt := h'.nextAttempt.trans h.nextAttempt
  nextRec := h'.nextRec.trans h.nextRec
  registered q hq := h.registered q (h'.registered q hq)
  start q hq := (h'.start q hq).trans (h.start q (h'.registered q hq))
  dirty q hq hd := h'.dirty q hq (h.dirty q (h'.registered q hq) hd)
  timer q hq hd due hdue :=
    h'.timer q hq (h.dirty q (h'.registered q hq) hd) due
      (h.timer q (h'.registered q hq) hd due hdue)

theorem timed_of_steady (ht : Timed o es s) (hs : Steady s s') :
    Timed o (fun q => if captured s s' q then [] else es q) s' := by
  have hes : (fun q => if captured s s' q = true then [] else es q) = es := by
    simp [captured_of_same hs.nextAttempt]
  rw [hes]
  refine ⟨fun q hq => ?_, fun q hq => ht.fresh q (hs.nextRec ▸ hq)⟩
  obtain ⟨hstart, hd, hdue⟩ := ht.scheduled q (hs.registered q hq)
  refine ⟨(hs.start q hq).trans hstart, fun hne => hs.dirty q hq (hd hne), fun first last hf hl => ?_⟩
  obtain ⟨due, htime, hle⟩ := hdue first last hf hl
  refine ⟨due, hs.timer q hq (hd ?_) due htime, hle⟩
  rintro hnil
  simp [hnil] at hf

theorem steady_of_same (hrecs : s'.recs = s.recs) (htopics : s'.topics = s.topics)
    (hnextRec : s'.nextRec = s.nextRec) (hnextAttempt : s'.nextAttempt = s.nextAttempt) :
    Steady s s' := by
  have hreg : ∀ q, s'.registered q = s.registered q := fun q => by
    rw [State.registered, State.registered, hrecs, htopics]
  refine ⟨hnextAttempt, hnextRec, fun q hq => hreg q ▸ hq, ?_, ?_, ?_⟩ <;> rw [hrecs]
  · exact fun _ _ => rfl
  · exact fun _ _ hd => hd
  · exact fun _ _ _ _ hdue => hdue

theorem steady_modRec {f : TopicRecord U → TopicRecord U}
    (htopic : (f (s.recs r)).topic = (s.recs r).topic)
    (hstart : (f (s.recs r)).maxWaitStart = (s.recs r).maxWaitStart)
    (hf : s.registered r = true → (s.recs r).dirty = true → (f (s.recs r)).dirty = true ∧
      ∀ due, (s.recs r).debounceTimer = some due → (f (s.recs r)).debounceTimer = some due) :
    Steady s (s.modRec r f) := by
  have hreg := fun q => registered_modRec (q := q) htopic
  have hrec : ∀ q, q = r ∧ (s.modRec r f).recs q = f (s.recs r) ∨
      (s.modRec r f).recs q = s.recs q := by
    intro q
    by_cases hq : q = r
    · subst hq
      exact .inl ⟨rfl, recs_modRec_self⟩
    · exact .inr (recs_modRec_ne hq)
  refine ⟨rfl, rfl, fun q hq => hreg q ▸ hq, fun q _ => ?_, fun q hq hd => ?_,
    fun q hq hd due hdue => ?_⟩
  · rcases hrec q with ⟨rfl, he⟩ | he
    · rw [he, hstart]
    · rw [he]
  · rcases hrec q with ⟨rfl, he⟩ | he
    · rw [he]
      exact (hf (hreg q ▸ hq) hd).1
    · rwa [he]
  · rcases hrec q with ⟨rfl, he⟩ | he
    · rw [he]
      exact (hf (hreg q ▸ hq) hd).2 due hdue
    · rwa [he]

theorem steady_keepDirty {n : Nat} : Steady s (keepDirty o s r n) := by
  have hdirty : Steady s (s.modRec r fun rec => { rec with storeAttempt := n, dirty := true }) :=
    steady_modRec rfl rfl fun _ _ => ⟨rfl, fun _ hdue => hdue⟩
  unfold keepDirty armRetry
  split
  · exact hdirty
  · next hnone =>
    refine hdirty.trans (steady_modRec rfl rfl fun _ hd => ⟨hd, fun due hdue => ?_⟩)
    exact absurd (by rw [hdue]; rfl) hnone

theorem steady_abandon {silent : Bool} : Steady s (abandon o s r h silent) := by
  have hmark : Steady s (s.modAttempt h fun a => { a with
      abandoned := true, silent := silent, chain := a.chain.or (some .failed) }) :=
    steady_of_same rfl rfl rfl rfl
  have hquit : Steady s ((s.modAttempt h fun a => { a with
      abandoned := true, silent := silent, chain := a.chain.or (some .failed) }).modRec r
      fun rec => { rec with inflight := rec.inflight.filter (· ≠ h) }) :=
    hmark.trans (steady_modRec rfl rfl fun _ hd => ⟨hd, fun _ hdue => hdue⟩)
  unfold abandon
  split
  · exact steady_of_same rfl rfl rfl rfl
  · dsimp only
    split
    · exact hquit
    · split
      · exact hquit
      · exact hquit.trans steady_keepDirty

theorem steady_of_quits {quit : Nat → Bool} (hq : Quits quit s s')
    (hsame : ∀ q, s'.registered q = true → s'.recs q = s.recs q) : Steady s s' := by
  refine ⟨hq.nextAttempt, hq.nextRec, fun q hreg => ?_, fun q hreg => by rw [hsame q hreg],
    fun q hreg hd => by rwa [hsame q hreg], fun q hreg _ due hdue => by rwa [hsame q hreg]⟩
  rw [registered_eq_true] at hreg ⊢
  rw [hq.topic] at hreg
  exact hq.topics _ _ hreg

theorem steady_unload (hi : Tracked o s) : Steady s (unload o s r) := by
  refine steady_of_quits (quits_unload hi) fun q hq => ?_
  rw [unload_eq hi.own] at hq ⊢
  refine Function.update_of_ne ?_ ..
  rintro rfl
  -- `q` was registered under its own name, which the unload deletes
  have hreg : s.registered q = true := by
    by_contra hno
    rw [registered_eq_true] at hq
    simp only [hno, Function.update_self] at hq
    exact hno (registered_eq_true.mpr hq)
  rw [registered_eq_true] at hq
  simp [hreg, TopicRecord.silenced, clearSchedule] at hq

theorem steady_destroy (hi : Tracked o s) (hd : s.destroyed = false) : Steady s (destroy o s) :=
  steady_of_quits (quits_destroy hi hd) fun q hq => by
    rw [registered_eq_true] at hq
    simp [destroy, hd] at hq

theorem timed_storeNow {by' : Option Nat} (ht : Timed o es s) (ho : o.hasStore = true) :
    Timed o (fun q => if captured s (storeNow o s r by').1 q then [] else es q)
      (storeNow o s r by').1 := by
  rw [storeNow_eq ho]
  set a : Attempt U := {
    record := r, blob := (s.recs r).doc, attempt := (s.recs r).storeAttempt + 1
    behind := (s.recs r).storing, waiters := by'.toList, abandoned := false, silent := false
    phase := .queued, deadline := none, chain := none }
  set f : TopicRecord U → TopicRecord U := fun rec => { rec with
    debounceTimer := none, maxWaitStart := none, dirty := false, updatesSinceStore := 0
    inflight := rec.inflight ++ [s.nextAttempt]
    newest := some s.nextAttempt, storing := some s.nextAttempt }
  have hcap : ∀ q, captured s ((s.addAttempt a).modRec r f) q = decide (q = r) := by
    intro q
    rw [Bool.eq_iff_iff, captured_iff, decide_eq_true_eq]
    constructor
    · rintro ⟨h, hlt, hle, hh⟩
      have : h = s.nextAttempt := Nat.le_antisymm (Nat.le_of_lt_succ hlt) hle
      rw [this, attempts_modRec, attempts_addAttempt_self] at hh
      exact hh.symm
    · rintro rfl
      exact ⟨s.nextAttempt, Nat.lt_succ_self _, Nat.le_refl _, by
        rw [attempts_modRec, attempts_addAttempt_self]⟩
  constructor
  · intro q hq
    rw [hcap]
    by_cases hqr : q = r
    · subst hqr
      exact ⟨by simp [f], fun hne => by simp at hne, fun first last hf _ => by simp at hf⟩
    · rw [recs_modRec_ne hqr]
      simp only [hqr]
      have hreg : ((s.addAttempt a).modRec r f).registered q = s.registered q :=
        registered_modRec rfl
      exact ht.scheduled q (hreg ▸ hq)
  · intro q hq
    split
    · rfl
    · exact ht.fresh q hq

theorem timed_move (hi : Tracked o s) (ht : Timed o es s) (ho : o.hasStore = true)
    (hm : Move o flush hold late s s') :
    Timed o (fun q => if captured s s' q then [] else es q) s' := by
  cases hm with
  | aside ha =>
    exact timed_of_steady ht (steady_of_same ha.recs ha.topics ha.nextRec ha.nextAttempt)
  | idle hf =>
    exact timed_of_steady ht (steady_modRec hf.topic hf.maxWaitStart fun _ hd =>
      ⟨hf.dirty.trans hd, fun due hdue => hf.debounceTimer.trans hdue⟩)
  | waiters w _
  | report _ _ _
  | settle out _ _ _ _ => exact timed_of_steady ht (steady_of_same rfl rfl rfl rfl)
  | @create topic _ hd hnone =>
    have hes : (fun q => if captured s (s.addRec topic) q = true then [] else es q) = es := by
      funext q
      rw [captured_of_same (show (s.addRec topic).nextAttempt = s.nextAttempt from rfl)]
      simp
    rw [hes]
    refine ⟨fun q hq => ?_, fun q hq => ht.fresh q (Nat.le_of_succ_le hq)⟩
    by_cases hqn : q = s.nextRec
    · rw [hqn, recs_addRec_self, ht.fresh _ (Nat.le_refl _)]
      exact ⟨rfl, absurd rfl, fun _ _ hf _ => by contradiction⟩
    · rw [recs_addRec_ne hqn]
      exact ht.scheduled q (registered_addRec hnone hqn ▸ hq)
  | capture by' _ => exact timed_storeNow ht ho
  | fire hidle =>
    refine timed_of_steady ht (steady_modRec rfl rfl fun hr hd => ?_)
    rw [registered_iff_gone hi] at hr
    rcases hidle with hgone | hclean
    · rw [hr] at hgone
      contradiction
    · rw [hclean] at hd
      contradiction
  | giveUp _ _ => exact timed_of_steady ht steady_abandon
  | unload => exact timed_of_steady ht (steady_unload hi)
  | destroy hd => exact timed_of_steady ht (steady_destroy hi hd)
  | dispatch hs =>
    simp only [dispatch] at hs
    split at hs
    · exact Option.some.inj hs ▸ timed_of_steady ht (steady_of_same rfl rfl rfl rfl)
    · contradiction
  | answer hs =>
    unfold answer at hs
    split at hs
    · exact Option.some.inj hs ▸ timed_of_steady ht (steady_of_same rfl rfl rfl rfl)
    · contradiction
  | leave _ _ =>
    exact timed_of_steady ht (steady_modRec rfl rfl fun _ hd => ⟨hd, fun _ hdue => hdue⟩)
  | @refuse h out _ _ _ _ =>
    have hset : Steady s (settleAs s h out) := steady_of_same rfl rfl rfl rfl
    exact timed_of_steady ht (hset.trans steady_keepDirty)
  | chainSettle hs =>
    obtain ⟨-, hs⟩ := by simpa [chainSettle] using hs
    split at hs
    · exact Option.some.inj hs ▸ timed_of_steady ht (steady_of_same rfl rfl rfl rfl)
    · contradiction

theorem unedited_modRec {f : TopicRecord U → TopicRecord U}
    (hf : (f (s.recs r)).accepted = (s.recs r).accepted) : Unedited s (s.modRec r f) := by
  have hacc : ∀ q, ((s.modRec r f).recs q).accepted = (s.recs q).accepted := by
    intro q
    by_cases hq : q = r
    · subst hq
      rw [recs_modRec_self, hf]
    · rw [recs_modRec_ne hq]
  exact ⟨Nat.le_refl _, fun _ _ => rfl, Nat.le_refl _, fun q _ => hacc q,
    fun q => Nat.le_of_eq (by rw [hacc])⟩

theorem unedited_modAttempt {f : Attempt U → Attempt U}
    (hf : (f (s.attempts h)).record = (s.attempts h).record) : Unedited s (s.modAttempt h f) := by
  refine ⟨Nat.le_refl _, fun g _ => ?_, Nat.le_refl _, fun _ _ => rfl, fun _ => Nat.le_refl _⟩
  by_cases hg : g = h
  · subst hg
    rw [attempts_modAttempt_self, hf]
  · rw [attempts_modAttempt_ne hg]

theorem unedited_of_quits {quit : Nat → Bool} (hq : Quits quit s s') : Unedited s s' := by
  refine ⟨Nat.le_of_eq hq.nextAttempt.symm, fun g _ => ?_, Nat.le_of_eq hq.nextRec.symm,
    fun q _ => hq.accepted q, fun q => by rw [hq.accepted]⟩
  rcases hq.attempts g with he | ⟨-, silent, he⟩ <;> rw [he]

theorem unedited_move (hi : Tracked o s) (hm : Move o flush hold late s s') : Unedited s s' := by
  cases hm with
  | aside ha =>
    exact ⟨Nat.le_of_eq ha.nextAttempt.symm, fun h _ => by rw [ha.attempts],
      Nat.le_of_eq ha.nextRec.symm, fun q _ => by rw [ha.recs], fun q => by rw [ha.recs]⟩
  | idle hf => exact unedited_modRec hf.accepted
  | waiters w _ | report _ _ _ | settle out _ _ _ _ => exact unedited_modAttempt rfl
  | create _ _ _ =>
    refine ⟨Nat.le_refl _, fun _ _ => rfl, Nat.le_succ _, fun q hq => ?_, fun q => ?_⟩
    · rw [recs_addRec_ne (Nat.ne_of_lt hq)]
    · by_cases hq : q = s.nextRec
      · subst hq
        rw [recs_addRec_self]
        exact Nat.zero_le _
      · rw [recs_addRec_ne hq]
  | @capture r by' _ =>
    by_cases ho : o.hasStore = true
    · rw [storeNow_eq ho]
      set a : Attempt U := {
        record := r, blob := (s.recs r).doc, attempt := (s.recs r).storeAttempt + 1
        behind := (s.recs r).storing, waiters := by'.toList, abandoned := false, silent := false
        phase := .queued, deadline := none, chain := none }
      have hadd : Unedited s (s.addAttempt a) :=
        ⟨Nat.le_succ _, fun g hg => by rw [attempts_addAttempt_lt hg], Nat.le_refl _,
          fun _ _ => rfl, fun _ => Nat.le_refl _⟩
      exact hadd.trans (unedited_modRec rfl)
    · simp only [storeNow, ho, Bool.not_false, if_true]
      exact unedited_modRec rfl
  | fire _ | leave _ _ => exact unedited_modRec rfl
  | giveUp hin _ => exact unedited_of_quits (quits_abandon hi hin)
  | unload => exact unedited_of_quits (quits_unload hi)
  | destroy hd => exact unedited_of_quits (quits_destroy hi hd)
  | dispatch hs =>
    obtain ⟨-, rfl⟩ := by simpa [dispatch] using hs
    refine unedited_modAttempt ?_
    split <;> rfl
  | answer hs =>
    unfold answer at hs
    split at hs
    · exact Option.some.inj hs ▸ unedited_modAttempt rfl
    · contradiction
  | @refuse h out _ _ _ _ =>
    obtain ⟨due, hdue⟩ := keepDirty_eq
    rw [hdue]
    have hset : Unedited s (settleAs s h out) := unedited_modAttempt rfl
    exact hset.trans (unedited_modRec rfl)
  | chainSettle hs =>
    obtain ⟨-, hs⟩ := by simpa [chainSettle] using hs
    split at hs
    · exact Option.some.inj hs ▸ unedited_modAttempt rfl
    · contradiction

theorem timed_moves (hi : Tracked o s) (ht : Timed o es s) (ho : o.hasStore = true)
    (hm : Moves o flush hold late s s') :
    Unedited s s' ∧ Timed o (fun q => if captured s s' q then [] else es q) s' := by
  have hall : Tracked o s' ∧ Unedited s s' ∧
      Timed o (fun q => if captured s s' q then [] else es q) s' := by
    induction hm with
    | refl => exact ⟨hi, .refl, by simpa [captured_of_same] using ht⟩
    | @tail t s' _ hm ih =>
      obtain ⟨hit, hun, htt⟩ := ih
      have hone := unedited_move hit hm
      refine ⟨tracked_move hit hm, hun.trans hone, ?_⟩
      have hlast := timed_move hit htt ho hm
      convert hlast using 2 with q
      rw [captured_trans hun hone]
      cases captured s t q <;> cases captured t s' q <;> rfl
  exact hall.2

theorem edit_eq (ho : o.hasStore = true) {u : U} :
    scheduleStore o (s.accept r u) r = s.modRec r fun rec => { rec with
      doc := rec.doc ++ [u], accepted := rec.accepted ++ [u], dirty := true
      updatesSinceStore := rec.updatesSinceStore + 1
      maxWaitStart := some (rec.maxWaitStart.getD s.now)
      debounceTimer := some (s.now + min o.debounceWait
        (rec.maxWaitStart.getD s.now + o.debounceMaxWait - s.now)) } := by
  simp [scheduleStore, ho, State.accept, State.modRec]

theorem timed_edit {u : U} (hi : Tracked o s) (ht : Timed o es s) (ho : o.hasStore = true)
    (hr : s.registered r = true) :
    Timed o (fun q => if q = r then es q ++ [s.now] else es q)
      (scheduleStore o (s.accept r u) r) := by
  have hrlt : r < s.nextRec := (hi.named _ r (registered_eq_true.mp hr)).2
  rw [edit_eq ho]
  refine ⟨fun q hq => ?_, fun q hq => ?_⟩
  · rw [registered_modRec rfl] at hq
    by_cases hqr : q = r
    · subst hqr
      rw [recs_modRec_self]
      obtain ⟨hstart, -, -⟩ := ht.scheduled q hq
      refine ⟨?_, fun _ => rfl, fun first last hf hl => ⟨_, rfl, ?_⟩⟩
      · cases hes : es q <;> simp [hstart, hes]
      have hlast : s.now = last := by simpa using hl
      have hfirst : (s.recs q).maxWaitStart.getD s.now = first := by
        rw [hstart]
        cases hes : es q with
        | nil | cons e rest => simpa [hes] using hf
      omega
    · rw [recs_modRec_ne hqr, if_neg hqr]
      exact ht.scheduled q hq
  · have hne : q ≠ r := fun he => by
      rw [he] at hq
      exact absurd hrlt (Nat.not_lt.mpr hq)
    rw [if_neg hne]
    exact ht.fresh q hq

variable [DecidableEq U] {yjs : Yjs U}

theorem timed_next {c c' : Clocked U} {a : Action U} (hi : Tracked o c.auth)
    (ht : Timed o c.edits c.auth) (ho : o.hasStore = true)
    (hnext : (clocked o yjs).next c a = some c') : Timed o c'.edits c'.auth := by
  obtain ⟨s', hs, rfl⟩ := Option.map_eq_some_iff.mp hnext
  -- with no edit the times are kept, unless there was a capture
  have hmoves : ∀ {flush hold : Prop}, Moves o flush hold (fun _ _ => True) c.auth s' →
      Timed o (c.keep s').edits s' := by
    intro flush hold hm
    obtain ⟨hun, htimed⟩ := timed_moves hi ht ho hm
    have hsame : (c.keep s').edits = fun q => if captured c.auth s' q then [] else c.edits q := by
      funext q
      simp only [Clocked.keep, Nat.sub_eq_zero_of_le (hun.length q), List.replicate_zero,
        List.append_nil]
    rwa [hsame]
  by_cases he : ∃ topic u, a = .applyUpdate topic u
  · obtain ⟨topic, u, rfl⟩ := he
    cases hs
    rcases applyUpdate_cases (fun _ _ => True) hi.named with hm | ⟨t, he, hm⟩
    · exact hmoves hm
    cases he with
    | @mk r v hr hd =>
      have hrlt : r < c.auth.nextRec := (hi.named _ r (registered_eq_true.mp hr)).2
      obtain ⟨hun, htimed⟩ := timed_moves (tracked_edit hi (.mk hr hd))
        (timed_edit hi ht ho hr) ho hm
      rw [edit_eq ho] at hun htimed
      generalize (applyUpdate o yjs c.auth topic u).1 = s' at hun htimed
      have hsame : (c.keep s').edits = fun q => if captured c.auth s' q then [] else
          if q = r then c.edits q ++ [c.auth.now] else c.edits q := by
        funext q
        have hlen : (s'.recs q).accepted.length - (c.auth.recs q).accepted.length =
            if q = r then 1 else 0 := by
          by_cases hq : q = r
          · subst hq
            have := hun.accepted q hrlt
            simp [this]
          · have := hun.length q
            rw [recs_modRec_ne hq] at this
            simp [hq, Nat.sub_eq_zero_of_le this]
        simp only [Clocked.keep, hlen]
        by_cases hq : q = r <;> simp [hq]
      rw [hsame]
      exact htimed
  · exact hmoves (next_moves (fun _ _ => True) hi.named (fun f hf => by
      subst hf
      exact moves_flushDeadline (fun _ _ => trivial) hs) (fun topic u hu => he ⟨topic, u, hu⟩) hs)

theorem timed_run {as : List (Action U)} {c : Clocked U} (ho : o.hasStore = true)
    (h : (clocked o yjs).Runs Any as c) : Tracked o c.auth ∧ Timed o c.edits c.auth := by
  refine Runs.invariant (I := fun c => Tracked o c.auth ∧ Timed o c.edits c.auth)
    ⟨tracked_init o, ⟨fun r hr => ?_, fun _ _ => rfl⟩⟩ (fun c a c' hi _ hs => ⟨?_, ?_⟩) h
  · simp [clocked, State.init, State.registered] at hr
  · obtain ⟨s', hauth, rfl⟩ := Option.map_eq_some_iff.mp hs
    exact tracked_next hi.1 hauth
  · exact timed_next hi.1 hi.2 ho hs

/-- **Checkpoint bound**: while a registered record has uncaptured edits a timer
is armed, due `debounceMaxWait` after the first of them, or at the moment of the
last one if that moment had already passed. -/
theorem checkpoint_bound {as : List (Action U)} {c : Clocked U} (ho : o.hasStore = true)
    (h : (clocked o yjs).Runs Any as c) (hr : c.auth.registered r = true) {first last : Nat}
    (hfirst : (c.edits r).head? = some first) (hlast : (c.edits r).getLast? = some last) :
    ∃ due, (c.auth.recs r).debounceTimer = some due ∧ due ≤ max (first + o.debounceMaxWait) last :=
  ((timed_run ho h).2.scheduled r hr).due first last hfirst hlast

end Steps

/-! ## two runs -/

section Traces

/-- Three edits, the timer of the first two having fired. -/
def steadyRun : List (Action Nat) :=
  opened ++ [.applyUpdate "t" 1, .tick 1500, .applyUpdate "t" 2, .tick 2000, .timer 0, .tick 100,
    .applyUpdate "t" 3]

theorem checkpoint_bound_example : ∃ c : Clocked Nat,
    (clocked {} numbers).Runs Any steadyRun c ∧ c.edits 0 = [3600] ∧
      ∃ due, (c.auth.recs 0).debounceTimer = some due ∧ due ≤ max (3600 + 10000) 3600 := by
  obtain ⟨c, hc⟩ : ∃ c, (clocked {} numbers).exec (clocked {} numbers).init steadyRun = some c :=
    ⟨_, rfl⟩
  have hrun := runs_of_exec hc
  have hstate : c.edits 0 = [3600] ∧ c.auth.registered 0 = true := by
    cases hc
    decide +kernel
  exact ⟨c, hrun, hstate.1, checkpoint_bound rfl hrun hstate.2 (by rw [hstate.1]; rfl)
    (by rw [hstate.1]; rfl)⟩

/-- The timer of the first edit is due after two seconds and has not fired after
ten, when the second edit re-arms it. -/
def lateRun : List (Action Nat) :=
  opened ++ [.applyUpdate "t" 1, .tick 10001, .applyUpdate "t" 2]

/-- A late timer is re-armed by the next edit, past `debounceMaxWait` from the
first one. -/
theorem late_timer_rearmed :
    ¬ ∀ (as : List (Action Nat)) (c : Clocked Nat) (r first : Nat),
      (clocked {} numbers).Runs Any as c → c.auth.registered r = true →
        (c.auth.recs r).inflight = [] → (c.edits r).head? = some first →
        ∃ due, (c.auth.recs r).debounceTimer = some due ∧
          due ≤ first + ({} : Options).debounceMaxWait := by
  intro h
  obtain ⟨c, hc⟩ : ∃ c, (clocked {} numbers).exec (clocked {} numbers).init lateRun = some c :=
    ⟨_, rfl⟩
  have hrun := runs_of_exec hc
  have hstate : c.edits 0 = [0, 10001] ∧ c.auth.registered 0 = true ∧
      (c.auth.recs 0).inflight = [] ∧ (c.auth.recs 0).debounceTimer = some 10001 := by
    cases hc
    decide +kernel
  obtain ⟨hedits, hreg, hidle, htimer⟩ := hstate
  obtain ⟨due, hdue, hle⟩ := h _ c 0 0 hrun hreg hidle (by rw [hedits]; rfl)
  obtain rfl : 10001 = due := Option.some.inj (htimer.symm.trans hdue)
  exact absurd hle (by decide)

end Traces

end BunServe.Crdt
