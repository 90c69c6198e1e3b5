import BunServe.Crdt
import Mathlib.Data.List.Basic

/-!
# BunServe.Crdt.Coverage

The invariant of the document authority, and one preservation lemma per
operation.

`dirty` is cleared when the state is captured, not when it lands, so what a
clean record means is a statement about its newest store attempt: the attempt
holds every accepted update, and it is still on its way or has landed
(`Covered`).  A record that is gone has all its updates in attempts that
landed (`Saved`).  `Inv` adds the bookkeeping that ties records, attempts and
the registry together; its `hole` is a record whose coverage an operation has
suspended.

Two steps break it and are the guards of the run lemmas: an unload check that
passes while the newest store has not settled, and a declined store that ends
in an unload (`Strands`, `DeclineUnloads`).
-/

namespace BunServe.Crdt

variable {U : Type}

/-! ## the invariant -/

/-- The host confirmed the attempt, and it was not abandoned by then. -/
def Attempt.Landed (a : Attempt U) : Prop := a.phase = .settled .durable

instance (a : Attempt U) : Decidable a.Landed :=
  inferInstanceAs (Decidable (a.phase = .settled .durable))

/-- The attempt has not been given up on and has not settled. -/
def Attempt.OnItsWay (a : Attempt U) : Prop := a.abandoned = false ∧ ∀ o, a.phase ≠ .settled o

/-- The update `u` of the record `r` is in a blob that landed. -/
def Saved (s : State U) (r : Nat) (u : U) : Prop :=
  ∃ h < s.nextAttempt, (s.attempts h).record = r ∧ (s.attempts h).Landed ∧
    u ∈ (s.attempts h).blob

/-- The newest attempt of `r` holds every accepted update, and is on its way or
has landed. -/
def Captured (s : State U) (r : Nat) : Prop :=
  ∃ h, (s.recs r).newest = some h ∧ (∀ u ∈ (s.recs r).accepted, u ∈ (s.attempts h).blob) ∧
    ((s.attempts h).OnItsWay ∨ (s.attempts h).Landed)

/-- A clean record has nothing to store or has captured it. -/
def Covered (s : State U) (r : Nat) : Prop :=
  (s.recs r).dirty = false → (s.recs r).accepted = [] ∨ Captured s r

/-- The invariant; the coverage of `hole` is suspended. -/
structure Inv (o : Options) (hole : Option Nat) (s : State U) : Prop where
  alive : s.destroyed = false
  keys : ∀ k r, s.topics.get? k = some r → (s.recs r).topic = k ∧ r < s.nextRec
  newest : ∀ r h, (s.recs r).newest = some h → h < s.nextAttempt ∧ (s.attempts h).record = r
  inflight : ∀ r, ∀ h ∈ (s.recs r).inflight, h < s.nextAttempt ∧ (s.attempts h).record = r
  skipped : ∀ h, (s.attempts h).phase = .skipped → (s.attempts h).abandoned = true
  docs : ∀ r, ∀ u ∈ (s.recs r).accepted, u ∈ (s.recs r).doc
  unloaded : ∀ r, (s.recs r).loaded = false → (s.recs r).accepted = []
  covered : ∀ r, s.registered r = true → hole ≠ some r → Covered s r
  saved : ∀ r < s.nextRec, s.registered r = false → ∀ u ∈ (s.recs r).accepted, Saved s r u
  hookless : o.hasStore = false →
    s.nextAttempt = 0 ∧ ∀ r, (s.recs r).debounceTimer = none

theorem inv_init (o : Options) : Inv o none (State.init : State U) := by
  constructor <;> simp [State.init, TopicRecord.fresh, State.registered]

variable {r h : Nat} {f : TopicRecord U → TopicRecord U}

section Frame

variable {o : Options} {hole : Option Nat} {s : State U}

@[simp] theorem recs_modRec_self : (s.modRec r f).recs r = f (s.recs r) := by
  simp [State.modRec]

theorem recs_modRec_ne {q : Nat} (h : q ≠ r) : (s.modRec r f).recs q = s.recs q := by
  simp [State.modRec, h]

@[simp] theorem attempts_modRec :
    (s.modRec r f).attempts = s.attempts := rfl

@[simp] theorem topics_modRec :
    (s.modRec r f).topics = s.topics := rfl

@[simp] theorem nextRec_modRec :
    (s.modRec r f).nextRec = s.nextRec := rfl

@[simp] theorem attempts_modAttempt_self {f : Attempt U → Attempt U} :
    (s.modAttempt h f).attempts h = f (s.attempts h) := by
  simp [State.modAttempt]

theorem attempts_modAttempt_ne {g : Nat} {f : Attempt U → Attempt U} (hne : g ≠ h) :
    (s.modAttempt h f).attempts g = s.attempts g := by
  simp [State.modAttempt, hne]

@[simp] theorem recs_modAttempt {f : Attempt U → Attempt U} :
    (s.modAttempt h f).recs = s.recs := rfl

theorem registered_eq_true : s.registered r = true ↔ s.topics.get? (s.recs r).topic = some r := by
  simp [State.registered]

theorem gone_iff (hi : Inv o hole s) : s.gone r = true ↔ s.registered r = false := by
  simp [State.gone, hi.alive]

/-- What a change of one record must keep. -/
structure Keeps (o : Options) (f : TopicRecord U → TopicRecord U) (rec : TopicRecord U) : Prop where
  topic : (f rec).topic = rec.topic
  accepted : (f rec).accepted = rec.accepted
  doc : ∀ u ∈ rec.doc, u ∈ (f rec).doc
  loaded : (f rec).loaded = false → rec.loaded = false
  newest : (f rec).newest = rec.newest
  inflight : ∀ h ∈ (f rec).inflight, h ∈ rec.inflight
  timer : o.hasStore = false → rec.debounceTimer = none → (f rec).debounceTimer = none

theorem registered_modRec {q : Nat} (hf : (f (s.recs r)).topic = (s.recs r).topic) :
    (s.modRec r f).registered q = s.registered q := by
  by_cases h : q = r
  · subst h
    simp [State.registered, hf]
  · simp [State.registered, recs_modRec_ne h]

/-- **Frame rule for records**: a change that keeps what the invariant reads
keeps the invariant, and one that leaves the record dirty restores its
coverage. -/
theorem inv_modRec {hole' : Option Nat} (hi : Inv o hole s) (hf : Keeps o f (s.recs r))
    (hhole : ∀ q, hole' ≠ some q → hole = some q → q = r ∧ (f (s.recs r)).dirty = true)
    (hdirty : hole' ≠ some r → (f (s.recs r)).dirty = false → (s.recs r).dirty = false) :
    Inv o hole' (s.modRec r f) := by
  have hreg := fun q => registered_modRec (q := q) hf.topic
  have hacc : ∀ q, ((s.modRec r f).recs q).accepted = (s.recs q).accepted := by
    intro q
    by_cases h : q = r
    · subst h; simp [hf.accepted]
    · rw [recs_modRec_ne h]
  have hnew : ∀ q, ((s.modRec r f).recs q).newest = (s.recs q).newest := by
    intro q
    by_cases h : q = r
    · subst h; simp [hf.newest]
    · rw [recs_modRec_ne h]
  constructor
  case alive => exact hi.alive
  case keys =>
    intro k q hq
    by_cases h : q = r
    · subst h
      simpa [hf.topic] using hi.keys k q hq
    · rw [recs_modRec_ne h]
      exact hi.keys k q hq
  case newest =>
    intro q h hq
    rw [hnew] at hq
    exact hi.newest q h hq
  case inflight =>
    intro q h hq
    by_cases hqr : q = r
    · subst hqr
      exact hi.inflight q h (hf.inflight h (by simpa using hq))
    · rw [recs_modRec_ne hqr] at hq
      exact hi.inflight q h hq
  case skipped => exact hi.skipped
  case docs =>
    intro q u hu
    rw [hacc] at hu
    by_cases h : q = r
    · subst h
      simpa using hf.doc u (hi.docs q u hu)
    · rw [recs_modRec_ne h]
      exact hi.docs q u hu
  case unloaded =>
    intro q hq
    rw [hacc]
    by_cases h : q = r
    · subst h
      exact hi.unloaded q (hf.loaded (by simpa using hq))
    · rw [recs_modRec_ne h] at hq
      exact hi.unloaded q hq
  case covered =>
    intro q hq hh hd
    rw [hreg] at hq
    rw [Captured, hnew, hacc]
    by_cases h : q = r
    · subst h
      have hd : (f (s.recs q)).dirty = false := by simpa using hd
      have hne : hole ≠ some q := fun he => by simp [(hhole q hh he).2] at hd
      exact hi.covered q hq hne (hdirty hh hd)
    · rw [recs_modRec_ne h] at hd
      exact hi.covered q hq (fun he => h (hhole q hh he).1) hd
  case saved =>
    intro q hlt hq u hu
    rw [hreg] at hq
    rw [hacc] at hu
    exact hi.saved q hlt hq u hu
  case hookless =>
    intro ho
    refine ⟨(hi.hookless ho).1, fun q => ?_⟩
    by_cases h : q = r
    · subst h
      simpa using hf.timer ho ((hi.hookless ho).2 q)
    · rw [recs_modRec_ne h]
      exact (hi.hookless ho).2 q

/-- What a change of the attempt `h` must keep: its record and blob, and its
being on its way or landed unless its record is dirty, gone or suspended. -/
structure KeepsAttempt (hole : Option Nat) (s : State U) (h : Nat) (f : Attempt U → Attempt U) :
    Prop where
  record : (f (s.attempts h)).record = (s.attempts h).record
  blob : (f (s.attempts h)).blob = (s.attempts h).blob
  landed : (s.attempts h).Landed → (f (s.attempts h)).Landed
  skipped : (f (s.attempts h)).phase = .skipped → (f (s.attempts h)).abandoned = true
  onItsWay : ∀ r, (s.recs r).newest = some h → hole ≠ some r → s.registered r = true →
    (s.recs r).dirty = false → (s.attempts h).OnItsWay →
      (f (s.attempts h)).OnItsWay ∨ (f (s.attempts h)).Landed

theorem saved_modAttempt {f : Attempt U → Attempt U} {u : U}
    (hf : KeepsAttempt hole s h f) (hs : Saved s r u) : Saved (s.modAttempt h f) r u := by
  obtain ⟨g, hlt, hrec, hland, hu⟩ := hs
  by_cases hg : g = h
  · subst hg
    exact ⟨g, hlt, by simpa [hf.record] using hrec, by simpa using hf.landed hland,
      by simpa [hf.blob] using hu⟩
  · exact ⟨g, hlt, by rwa [attempts_modAttempt_ne hg], by rwa [attempts_modAttempt_ne hg],
      by rwa [attempts_modAttempt_ne hg]⟩

/-- **Frame rule for attempts**. -/
theorem inv_modAttempt {f : Attempt U → Attempt U} (hi : Inv o hole s)
    (hf : KeepsAttempt hole s h f) : Inv o hole (s.modAttempt h f) := by
  have hrecord : ∀ g, ((s.modAttempt h f).attempts g).record = (s.attempts g).record := by
    intro g
    by_cases hg : g = h
    · subst hg; simp [hf.record]
    · rw [attempts_modAttempt_ne hg]
  refine { hi with newest := ?_, inflight := ?_, skipped := ?_, covered := ?_, saved := ?_ }
  · intro r g hg
    rw [hrecord]
    exact hi.newest r g hg
  · intro r g hg
    rw [hrecord]
    exact hi.inflight r g hg
  · intro g hg
    by_cases hgh : g = h
    · subst hgh
      simpa using hf.skipped (by simpa using hg)
    · rw [attempts_modAttempt_ne hgh] at hg ⊢
      exact hi.skipped g hg
  · intro r hr hh hd
    rcases hi.covered r hr hh hd with he | ⟨g, hg, hb, hw⟩
    · exact .inl he
    refine .inr ⟨g, hg, ?_, ?_⟩
    · by_cases hgh : g = h
      · subst hgh
        simpa [hf.blob] using hb
      · rw [attempts_modAttempt_ne hgh]
        exact hb
    · by_cases hgh : g = h
      · subst hgh
        rw [attempts_modAttempt_self]
        exact hw.elim (hf.onItsWay r hg hh hr hd) fun hl => .inr (hf.landed hl)
      · rw [attempts_modAttempt_ne hgh]
        exact hw
  · intro r hlt hr u hu
    exact saved_modAttempt hf (hi.saved r hlt hr u hu)

theorem inv_modFlush {f : Nat} {g : Flush → Flush} (hi : Inv o hole s) :
    Inv o hole (s.modFlush f g) :=
  { hi with }

theorem Inv.suspend (hi : Inv o none s) (r : Nat) : Inv o (some r) s :=
  { hi with covered := fun q hq _ => hi.covered q hq (by simp) }

theorem Inv.resume (hi : Inv o (some r) s) (hr : s.registered r = false) : Inv o none s :=
  { hi with
    covered := fun q hq _ => hi.covered q hq fun he => by
      rw [← Option.some.inj he, hr] at hq
      contradiction }

end Frame

/-! ## the schedule -/

section Schedule

variable {o : Options} {hole : Option Nat} {s : State U} {r : Nat}

theorem inv_armRetry (hi : Inv o hole s) (ho : o.hasStore = true) :
    Inv o hole (armRetry o s r) := by
  unfold armRetry
  split
  · exact hi
  · refine inv_modRec hi ⟨rfl, rfl, fun _ h => h, fun h => h, rfl, fun _ h => h, ?_⟩
      (fun q hq he => absurd he hq) fun _ hd => hd
    intro hno
    rw [ho] at hno
    contradiction

theorem inv_keepDirty {attempt : Nat} (hi : Inv o (some r) s) (ho : o.hasStore = true) :
    Inv o none (keepDirty o s r attempt) := by
  refine inv_armRetry (inv_modRec hi ⟨rfl, rfl, fun _ h => h, fun h => h, rfl, fun _ h => h,
    fun _ h => h⟩ ?_ ?_) ho
  · intro q _ he
    exact ⟨(Option.some.inj he).symm, rfl⟩
  · intro _ hd
    contradiction

theorem hasStore_of_attempt (hi : Inv o hole s) (hlt : h < s.nextAttempt) : o.hasStore = true := by
  by_contra hn
  have := (hi.hookless (by simpa using hn)).1
  omega

/-- Giving an attempt of `r` up suspends the coverage of `r` only. -/
theorem inv_giveUp (silent : Bool) (hi : Inv o (some r) s)
    (hr : (s.attempts h).record = r) :
    Inv o (some r) ((s.modAttempt h fun a =>
      { a with abandoned := true, silent := silent, chain := a.chain.or (some .failed) }).modRec r
        fun rec => { rec with inflight := rec.inflight.filter (· ≠ h) }) := by
  have hatt : Inv o (some r) (s.modAttempt h fun a =>
      { a with abandoned := true, silent := silent, chain := a.chain.or (some .failed) }) := by
    refine inv_modAttempt hi ⟨rfl, rfl, fun hl => hl, fun _ => rfl, fun q hq hne => ?_⟩
    exact absurd (congrArg some (hr.symm.trans (hi.newest q h hq).2)) hne
  refine inv_modRec hatt ⟨rfl, rfl, fun _ h => h, fun h => h, rfl,
    fun g hg => (List.mem_filter.mp hg).1, fun _ h => h⟩ (fun q hq he => absurd he hq) ?_
  intro hne
  exact absurd rfl hne

theorem inv_abandon (hi : Inv o none s) (hlt : h < s.nextAttempt)
    (hr : (s.attempts h).record = r) : Inv o none (abandon o s r h false) := by
  have hgive := inv_giveUp false (hi.suspend r) hr
  have ho := hasStore_of_attempt hi hlt
  unfold abandon
  split
  · exact hi
  · simp only [Bool.false_eq_true, if_false]
    split
    · next hgone => exact hgive.resume ((gone_iff hgive).mp hgone)
    · exact inv_keepDirty hgive ho

end Schedule

/-! ## unloading -/

section Unload

variable {o : Options} {s s' t : State U} {r : Nat}

/-- What silently giving attempts up leaves alone. -/
structure Same (s s' : State U) : Prop where
  topics : s'.topics = s.topics
  nextRec : s'.nextRec = s.nextRec
  nextAttempt : s'.nextAttempt = s.nextAttempt
  destroyed : s'.destroyed = s.destroyed
  topic : ∀ q, (s'.recs q).topic = (s.recs q).topic
  accepted : ∀ q, (s'.recs q).accepted = (s.recs q).accepted
  record : ∀ h, (s'.attempts h).record = (s.attempts h).record
  saved : ∀ q u, Saved s q u → Saved s' q u

theorem Same.refl (s : State U) : Same s s :=
  ⟨rfl, rfl, rfl, rfl, fun _ => rfl, fun _ => rfl, fun _ => rfl, fun _ _ h => h⟩

theorem Same.trans (h : Same s s') (h' : Same s' t) : Same s t where
  topics := h'.topics.trans h.topics
  nextRec := h'.nextRec.trans h.nextRec
  nextAttempt := h'.nextAttempt.trans h.nextAttempt
  destroyed := h'.destroyed.trans h.destroyed
  topic q := (h'.topic q).trans (h.topic q)
  accepted q := (h'.accepted q).trans (h.accepted q)
  record g := (h'.record g).trans (h.record g)
  saved q u hs := h'.saved q u (h.saved q u hs)

theorem same_modRec (htopic : (f (s.recs r)).topic = (s.recs r).topic)
    (hacc : (f (s.recs r)).accepted = (s.recs r).accepted) : Same s (s.modRec r f) where
  topics := rfl
  nextRec := rfl
  nextAttempt := rfl
  destroyed := rfl
  topic q := by
    by_cases h : q = r
    · subst h; simp [htopic]
    · rw [recs_modRec_ne h]
  accepted q := by
    by_cases h : q = r
    · subst h; simp [hacc]
    · rw [recs_modRec_ne h]
  record _ := rfl
  saved _ _ hs := hs

theorem same_modAttempt {f : Attempt U → Attempt U}
    (hrec : (f (s.attempts h)).record = (s.attempts h).record)
    (hblob : (f (s.attempts h)).blob = (s.attempts h).blob)
    (hland : (s.attempts h).Landed → (f (s.attempts h)).Landed) : Same s (s.modAttempt h f) where
  topics := rfl
  nextRec := rfl
  nextAttempt := rfl
  destroyed := rfl
  topic _ := rfl
  accepted _ := rfl
  record g := by
    by_cases hg : g = h
    · subst hg; simp [hrec]
    · rw [attempts_modAttempt_ne hg]
  saved q u hs := by
    obtain ⟨g, hlt, hq, hl, hu⟩ := hs
    by_cases hg : g = h
    · subst hg
      exact ⟨g, hlt, by simpa [hrec] using hq, by simpa using hland hl, by simpa [hblob] using hu⟩
    · exact ⟨g, hlt, by rwa [attempts_modAttempt_ne hg], by rwa [attempts_modAttempt_ne hg],
        by rwa [attempts_modAttempt_ne hg]⟩

theorem Same.registered (h : Same s s') (q : Nat) : s'.registered q = s.registered q := by
  rw [State.registered, State.registered, h.topics, h.topic]

theorem abandon_silent (hi : Inv o (some r) s) (hr : (s.attempts h).record = r) :
    Inv o (some r) (abandon o s r h true) ∧ Same s (abandon o s r h true) := by
  unfold abandon
  split
  · exact ⟨hi, .refl s⟩
  · simp only [if_true]
    exact ⟨inv_giveUp true hi hr, (same_modAttempt rfl rfl fun hl => hl).trans (same_modRec rfl rfl)⟩

theorem abandonAll {hs : List Nat} (hi : Inv o (some r) s)
    (hr : ∀ h ∈ hs, (s.attempts h).record = r) :
    Inv o (some r) (hs.foldl (fun s h => abandon o s r h true) s) ∧
      Same s (hs.foldl (fun s h => abandon o s r h true) s) := by
  induction hs generalizing s with
  | nil => exact ⟨hi, .refl s⟩
  | cons h hs ih =>
    obtain ⟨hone, hsame⟩ := abandon_silent hi (hr h (by simp))
    have hrest : ∀ g ∈ hs, ((abandon o s r h true).attempts g).record = r := fun g hg =>
      (hsame.record g).trans (hr g (List.mem_cons_of_mem _ hg))
    obtain ⟨hall, hsames⟩ := ih hone hrest
    exact ⟨hall, hsame.trans hsames⟩

theorem abortInFlight_same (hi : Inv o (some r) s) :
    Inv o (some r) (abortInFlight o s r) ∧ Same s (abortInFlight o s r) := by
  obtain ⟨hall, hsame⟩ := abandonAll hi fun h hh => (hi.inflight r h hh).2
  unfold abortInFlight
  refine ⟨inv_modRec hall ⟨rfl, rfl, fun _ h => h, fun h => h, rfl, fun _ h => h, fun _ h => h⟩
    (fun q hq he => absurd he hq) (fun _ hd => hd), hsame.trans (same_modRec rfl rfl)⟩

theorem inv_unload (hi : Inv o none s)
    (hsaved : s.registered r = true → ∀ u ∈ (s.recs r).accepted, Saved s r u) :
    Inv o none (unload o s r) := by
  have hclear : Inv o (some r) (s.modRec r clearSchedule) :=
    inv_modRec (hi.suspend r) ⟨rfl, rfl, fun _ h => h, fun h => h, rfl, fun _ h => h,
      fun _ _ => rfl⟩ (fun q hq he => absurd he hq) fun _ hd => hd
  obtain ⟨habort, hsame⟩ := abortInFlight_same hclear
  replace hsame : Same s _ := (same_modRec rfl rfl).trans hsame
  unfold unload
  dsimp only
  generalize abortInFlight o (s.modRec r clearSchedule) r = t at habort hsame
  split
  · next hreg =>
    have hkey : t.topics.get? (t.recs r).topic = some r := registered_eq_true.mp hreg
    -- the deleted key is the key of `r` only
    have hdel : ∀ q, State.registered { t with topics := t.topics.delete (t.recs r).topic } q =
        (decide (q ≠ r) && t.registered q) := by
      intro q
      simp only [State.registered, JsMap.get?_delete]
      by_cases hq : (t.recs q).topic = (t.recs r).topic
      · rw [hq, hkey]
        by_cases hqr : r = q <;> simp [eq_comm]
      · rw [if_neg hq]
        have hne : q ≠ r := fun he => hq (he ▸ rfl)
        simp [hne]
    refine { habort with keys := ?_, covered := ?_, saved := ?_ }
    · intro k q hq
      exact habort.keys k q (JsMap.of_get?_delete hq).2
    · intro q hq _
      rw [hdel, Bool.and_eq_true, decide_eq_true_eq] at hq
      exact habort.covered q hq.2 fun he => hq.1 (Option.some.inj he).symm
    · intro q hlt hq u hu
      rw [hdel] at hq
      by_cases hqr : q = r
      · subst hqr
        rw [hsame.registered] at hreg
        exact hsame.saved q u (hsaved hreg u (hsame.accepted q ▸ hu))
      · exact habort.saved q hlt (by simpa [hqr] using hq) u hu
  · next hreg => exact habort.resume (by simpa using hreg)

end Unload

/-! ## capturing -/

section Capture

variable {o : Options} {hole : Option Nat} {s : State U} {r : Nat}

variable {a : Attempt U}

@[simp] theorem attempts_addAttempt_self : (s.addAttempt a).attempts s.nextAttempt = a := by
  simp [State.addAttempt]

theorem attempts_addAttempt_ne (hne : h ≠ s.nextAttempt) :
    (s.addAttempt a).attempts h = s.attempts h := by
  simp [State.addAttempt, hne]

theorem attempts_addAttempt_lt (hlt : h < s.nextAttempt) :
    (s.addAttempt a).attempts h = s.attempts h :=
  attempts_addAttempt_ne (Nat.ne_of_lt hlt)

@[simp] theorem nextAttempt_addAttempt :
    (s.addAttempt a).nextAttempt = s.nextAttempt + 1 := rfl

@[simp] theorem recs_addAttempt : (s.addAttempt a).recs = s.recs := rfl

theorem inv_addAttempt (hi : Inv o hole s) (ho : o.hasStore = true)
    (hphase : a.phase ≠ .skipped) : Inv o hole (s.addAttempt a) := by
  refine { hi with newest := ?_, inflight := ?_, skipped := ?_, covered := ?_, saved := ?_,
                   hookless := fun hno => by rw [ho] at hno; contradiction }
  · intro q h hq
    obtain ⟨hlt, hr⟩ := hi.newest q h hq
    exact ⟨Nat.lt_succ_of_lt hlt, by rw [attempts_addAttempt_lt hlt]; exact hr⟩
  · intro q h hq
    obtain ⟨hlt, hr⟩ := hi.inflight q h hq
    exact ⟨Nat.lt_succ_of_lt hlt, by rw [attempts_addAttempt_lt hlt]; exact hr⟩
  · intro h hh
    by_cases hn : h = s.nextAttempt
    · subst hn
      rw [attempts_addAttempt_self] at hh
      exact absurd hh hphase
    · rw [attempts_addAttempt_ne hn] at hh ⊢
      exact hi.skipped h hh
  · intro q hq hne hd
    rcases hi.covered q hq hne hd with he | ⟨h, hh, hb, hw⟩
    · exact .inl he
    · have hlt := (hi.newest q h hh).1
      exact .inr ⟨h, hh, by rw [attempts_addAttempt_lt hlt]; exact hb,
        by rw [attempts_addAttempt_lt hlt]; exact hw⟩
  · intro q hlt hq u hu
    obtain ⟨h, hh, hs⟩ := hi.saved q hlt hq u hu
    exact ⟨h, Nat.lt_succ_of_lt hh, by rw [attempts_addAttempt_lt hh]; exact hs⟩

/-- Making the attempt `n` the newest of `r` covers `r`, if it captured the
whole document and is on its way. -/
theorem inv_newest {n : Nat} (hi : Inv o (some r) s) (hn : n < s.nextAttempt)
    (hrec : (s.attempts n).record = r) (hblob : (s.attempts n).blob = (s.recs r).doc)
    (hway : (s.attempts n).OnItsWay) :
    Inv o none (s.modRec r fun rec =>
      { rec with inflight := rec.inflight ++ [n], newest := some n, storing := some n }) := by
  refine { hi with keys := ?_, newest := ?_, inflight := ?_, docs := ?_, unloaded := ?_,
                   covered := ?_, saved := ?_, hookless := ?_ }
  · intro k q hq
    by_cases h : q = r
    · subst h; simpa using hi.keys k q hq
    · rw [recs_modRec_ne h]; exact hi.keys k q hq
  · intro q h hq
    by_cases hqr : q = r
    · subst hqr
      simp only [recs_modRec_self, Option.some.injEq] at hq
      subst hq
      exact ⟨hn, hrec⟩
    · rw [recs_modRec_ne hqr] at hq
      exact hi.newest q h hq
  · intro q h hq
    by_cases hqr : q = r
    · subst hqr
      simp only [recs_modRec_self, List.mem_append, List.mem_singleton] at hq
      rcases hq with hq | rfl
      · exact hi.inflight q h hq
      · exact ⟨hn, hrec⟩
    · rw [recs_modRec_ne hqr] at hq
      exact hi.inflight q h hq
  · intro q u hu
    by_cases hqr : q = r
    · subst hqr
      simp only [recs_modRec_self] at hu ⊢
      exact hi.docs q u hu
    · rw [recs_modRec_ne hqr] at hu ⊢
      exact hi.docs q u hu
  · intro q hq
    by_cases hqr : q = r
    · subst hqr
      simp only [recs_modRec_self] at hq ⊢
      exact hi.unloaded q hq
    · rw [recs_modRec_ne hqr] at hq ⊢
      exact hi.unloaded q hq
  · intro q hq _ hd
    rw [registered_modRec rfl] at hq
    by_cases hqr : q = r
    · subst hqr
      refine .inr ⟨n, by simp, fun u hu => ?_, .inl hway⟩
      simp only [recs_modRec_self] at hu
      rw [attempts_modRec, hblob]
      exact hi.docs q u hu
    · rw [recs_modRec_ne hqr] at hd
      have := hi.covered q hq (fun he => hqr (Option.some.inj he).symm) hd
      simpa only [Captured, recs_modRec_ne hqr, attempts_modRec] using this
  · intro q hlt hq u hu
    rw [registered_modRec rfl] at hq
    refine hi.saved q hlt hq u ?_
    by_cases hqr : q = r
    · subst hqr; simpa using hu
    · rwa [recs_modRec_ne hqr] at hu
  · intro hno
    refine ⟨(hi.hookless hno).1, fun q => ?_⟩
    by_cases hqr : q = r
    · subst hqr; simpa using (hi.hookless hno).2 q
    · rw [recs_modRec_ne hqr]; exact (hi.hookless hno).2 q

theorem inv_storeNow {flush : Option Nat} (hi : Inv o hole s) (hhole : ∀ q, hole = some q → q = r)
    (ho : o.hasStore = true) : Inv o none (storeNow o s r flush).1 := by
  have hclean : Inv o (some r) (s.modRec r fun rec =>
      { clearSchedule rec with dirty := false, updatesSinceStore := 0 }) := by
    refine inv_modRec hi ⟨rfl, rfl, fun _ h => h, fun h => h, rfl, fun _ h => h, fun _ _ => rfl⟩
      (fun q hq he => ?_) fun hne => absurd rfl hne
    exact absurd (congrArg some (hhole q he).symm) hq
  simp only [storeNow, ho]
  refine inv_newest (inv_addAttempt hclean ho (by simp)) (Nat.lt_succ_self _) ?_ ?_ ?_
  · simp
  · simp
  · simp [Attempt.OnItsWay]

end Capture

/-! ## one store attempt -/

section Store

variable {o : Options} {s s' : State U} {h : Nat}

theorem inv_leaveInflight (hi : Inv o none s) : Inv o none (leaveInflight s h) :=
  inv_modRec hi ⟨rfl, rfl, fun _ h => h, fun h => h, rfl, fun _ hg => (List.mem_filter.mp hg).1,
    fun _ h => h⟩ (fun _ hq he => absurd he hq) fun _ hd => hd

theorem inv_dispatch (hi : Inv o none s) (hs : dispatch s h = some s') : Inv o none s' := by
  obtain ⟨hc, rfl⟩ := by simpa [dispatch] using hs
  by_cases ha : (s.attempts h).abandoned = true
  · refine inv_modAttempt hi ⟨?_, ?_, ?_, ?_, ?_⟩ <;> simp [ha, Attempt.OnItsWay, Attempt.Landed, hc.2.1]
  · refine inv_modAttempt hi ⟨?_, ?_, ?_, ?_, ?_⟩ <;> simp [ha, Attempt.OnItsWay, Attempt.Landed, hc.2.1]

theorem inv_answer {ans : StoreAnswer} (hi : Inv o none s) (hs : answer s h ans = some s') :
    Inv o none s' := by
  obtain ⟨hc, rfl⟩ := by simpa [answer] using hs
  refine inv_modAttempt hi ⟨?_, ?_, ?_, ?_, ?_⟩ <;>
    simp +contextual [Attempt.OnItsWay, Attempt.Landed, hc.2]

theorem inv_chainSettle (hi : Inv o none s) (hs : chainSettle s h = some s') : Inv o none s' := by
  obtain ⟨-, hs⟩ := by simpa [chainSettle] using hs
  split at hs
  · cases hs
    exact inv_modAttempt hi ⟨rfl, rfl, fun hl => hl, hi.skipped h,
      fun _ _ _ _ _ hw => .inl hw⟩
  · contradiction

theorem inv_settleAs (out : Outcome) (hi : Inv o none s)
    (hold : ∀ o, (s.attempts h).phase ≠ .settled o) :
    Inv o (some (s.attempts h).record) (settleAs s h out) := by
  refine inv_modAttempt (hi.suspend _) ⟨rfl, rfl, fun hl => absurd hl (hold _), ?_, ?_⟩
  · intro hp
    contradiction
  · intro r hr hne _ _ _
    exact absurd (congrArg some (hi.newest r h hr).2) hne

theorem inv_settleAs_idle {out : Outcome} (hi : Inv o none s)
    (hold : ∀ o, (s.attempts h).phase ≠ .settled o)
    (hidle : (s.attempts h).abandoned = true ∨ s.registered (s.attempts h).record = false ∨
      (s.recs (s.attempts h).record).newest ≠ some h) : Inv o none (settleAs s h out) := by
  refine inv_modAttempt hi ⟨rfl, rfl, fun hl => absurd hl (hold _), ?_, ?_⟩
  · intro hp
    contradiction
  intro r hr _ hreg _ hw
  have hrec := (hi.newest r h hr).2
  rcases hidle with ha | hgone | hnew
  · rw [hw.1] at ha
    contradiction
  · rw [hrec, hreg] at hgone
    contradiction
  · exact absurd (hrec ▸ hr) hnew

theorem inv_landed (hi : Inv o none s) (hold : ∀ o, (s.attempts h).phase ≠ .settled o) :
    Inv o none (settleAs s h .durable) :=
  inv_modAttempt hi ⟨rfl, rfl, fun hl => absurd hl (hold _), fun hp => by contradiction,
    fun _ _ _ _ _ _ => .inr rfl⟩

theorem saved_of_clean (hi : Inv o none s) (hr : s.registered r = true)
    (hd : (s.recs r).dirty = false)
    (hset : ∀ g, (s.recs r).newest = some g → ∃ out, (s.attempts g).phase = .settled out) :
    ∀ u ∈ (s.recs r).accepted, Saved s r u := by
  intro u hu
  rcases hi.covered r hr (by simp) hd with he | ⟨g, hg, hb, hw⟩
  · rw [he] at hu
    contradiction
  · obtain ⟨hlt, hrec⟩ := hi.newest r g hg
    obtain ⟨out, hout⟩ := hset g hg
    refine ⟨g, hlt, hrec, ?_, hb u hu⟩
    cases hw with
    | inl hway => exact absurd hout (hway.2 out)
    | inr hl => exact hl

/-- The host declined, and the record goes anyway. -/
def DeclineUnloads (s : State U) (h : Nat) : Prop :=
  (s.attempts h).phase = .answered (.resolved false) ∧ (s.attempts h).abandoned = false ∧
    s.registered (s.attempts h).record = true ∧
    (s.recs (s.attempts h).record).newest = some h ∧
    (s.recs (s.attempts h).record).unloading = true ∧ (s.recs (s.attempts h).record).refs = 0

theorem recs_settleAs {out : Outcome} {q : Nat} :
    ((settleAs (leaveInflight s h) h out).recs q).newest = (s.recs q).newest ∧
      ((settleAs (leaveInflight s h) h out).recs q).dirty = (s.recs q).dirty ∧
      ((settleAs (leaveInflight s h) h out).recs q).refs = (s.recs q).refs ∧
      ((settleAs (leaveInflight s h) h out).recs q).unloading = (s.recs q).unloading ∧
      (settleAs (leaveInflight s h) h out).registered q = s.registered q := by
  have hreg : (settleAs (leaveInflight s h) h out).registered q = s.registered q := by
    change (leaveInflight s h).registered q = s.registered q
    exact registered_modRec rfl
  by_cases hq : q = (s.attempts h).record
  · subst hq
    refine ⟨?_, ?_, ?_, ?_, hreg⟩ <;> simp [settleAs, leaveInflight]
  · refine ⟨?_, ?_, ?_, ?_, hreg⟩ <;> simp [settleAs, leaveInflight, recs_modRec_ne hq]

theorem inv_markDirty (attempt : Nat) (hi : Inv o (some r) s) :
    Inv o none (s.modRec r fun rec => { rec with storeAttempt := attempt, dirty := true }) := by
  refine inv_modRec hi ⟨rfl, rfl, fun _ h => h, fun h => h, rfl, fun _ h => h, fun _ h => h⟩
    (fun q _ he => ⟨(Option.some.inj he).symm, rfl⟩) fun _ hd => ?_
  contradiction

theorem inv_declined (hi : Inv o none s) (hlt : h < s.nextAttempt)
    (hold : ∀ out, (s.attempts h).phase ≠ .settled out)
    (hph : (s.attempts h).phase = .answered (.resolved false))
    (hok : ¬ DeclineUnloads s h) : Inv o none (onResolved o s h false) := by
  have hleft : Inv o none (leaveInflight s h) := inv_leaveInflight hi
  have ho := hasStore_of_attempt hi hlt
  simp only [onResolved]
  split
  · next ha => exact inv_settleAs_idle hleft hold (.inl ha)
  rename_i ha
  simp only [Bool.false_eq_true, if_false]
  have hrecs := @recs_settleAs U s h .declined (s.attempts h).record
  split
  · next hgone =>
    have hset := inv_settleAs .declined hleft hold
    exact hset.resume ((gone_iff hset).mp hgone)
  · next hgone =>
    split
    · next hnew =>
      rw [hrecs.1] at hnew
      refine inv_settleAs_idle hleft hold (.inr (.inr ?_))
      simpa [leaveInflight] using hnew
    · next hnew =>
      have hset := inv_settleAs .declined hleft hold
      have hmark := inv_markDirty (s.attempts h).attempt hset
      simp only [if_true]
      split
      · next hun =>
        exfalso
        apply hok
        have hreg := mt (gone_iff hset).mpr hgone
        rw [hrecs.2.2.2.2, Bool.not_eq_false] at hreg
        rw [hrecs.1, not_not] at hnew
        simp only [recs_modRec_self, hrecs.2.2.1, hrecs.2.2.2.1] at hun
        exact ⟨hph, by simpa using ha, hreg, hnew, hun.1, hun.2⟩
      · exact inv_armRetry hmark ho

theorem inv_confirmed (hi : Inv o none s) (hlt : h < s.nextAttempt)
    (hold : ∀ out, (s.attempts h).phase ≠ .settled out) : Inv o none (onResolved o s h true) := by
  have hleft : Inv o none (leaveInflight s h) := inv_leaveInflight hi
  have ho := hasStore_of_attempt hi hlt
  simp only [onResolved]
  split
  · next ha => exact inv_settleAs_idle hleft hold (.inl ha)
  simp only [if_true, reduceCtorEq, if_false]
  have hset := inv_landed hleft hold
  split
  · exact hset
  split
  · exact hset
  rename_i hnew
  have hzero : Inv o none ((settleAs (leaveInflight s h) h .durable).modRec
      (s.attempts h).record fun rec => { rec with storeAttempt := 0 }) :=
    inv_modRec hset ⟨rfl, rfl, fun _ h => h, fun h => h, rfl, fun _ h => h,
      fun _ h => h⟩ (fun _ hq he => absurd he hq) fun _ hd => hd
  split
  · split
    · exact inv_storeNow hzero (fun _ hq => by contradiction) ho
    · next hd =>
      refine inv_unload hzero fun hr => ?_
      refine saved_of_clean hzero hr (by simpa using hd) fun g hg => ⟨.durable, ?_⟩
      -- the newest attempt is the one that has just landed
      rw [not_not] at hnew
      simp only [recs_modRec_self, hnew, Option.some.injEq] at hg
      subst hg
      simp [settleAs]
  · exact hzero

theorem inv_onRejected (hi : Inv o none s)
    (hph : (s.attempts h).phase = .answered .rejected) : Inv o none (onRejected s h) := by
  have hrep : Inv o none ((leaveInflight s h).modAttempt h fun a => { a with phase := .reported }) := by
    refine inv_modAttempt (inv_leaveInflight hi) ⟨?_, ?_, ?_, ?_, ?_⟩ <;>
      simp +contextual [Attempt.OnItsWay, Attempt.Landed, leaveInflight, hph]
  simp only [onRejected]
  split
  · exact { hrep with }
  · exact hrep

theorem inv_afterReport (hi : Inv o none s) (hlt : h < s.nextAttempt)
    (hph : (s.attempts h).phase = .reported) : Inv o none (afterReport o s h) := by
  have hold : ∀ out, (s.attempts h).phase ≠ .settled out := by simp [hph]
  have ho := hasStore_of_attempt hi hlt
  simp only [afterReport]
  split
  · next ha => exact inv_settleAs_idle hi hold (.inl ha)
  · have hset := inv_settleAs .failed hi hold
    split
    · next hgone => exact hset.resume ((gone_iff hset).mp hgone)
    · split
      · next hnew => exact inv_settleAs_idle hi hold (.inr (.inr hnew))
      · exact inv_keepDirty hset ho

theorem inv_react (hi : Inv o none s) (hok : ¬ DeclineUnloads s h)
    (hs : react o s h = some s') : Inv o none s' := by
  obtain ⟨hlt, hs⟩ := by simpa [react] using hs
  split at hs
  · next value hph =>
    cases hs
    cases value with
    | true => exact inv_confirmed hi hlt (by simp [hph])
    | false => exact inv_declined hi hlt (by simp [hph]) hph hok
  · next hph =>
    cases hs
    exact inv_confirmed hi hlt (by simp [hph])
  · next hph =>
    cases hs
    exact inv_onRejected hi hph
  · next hph =>
    cases hs
    exact inv_afterReport hi hlt hph
  · contradiction

end Store

end BunServe.Crdt
