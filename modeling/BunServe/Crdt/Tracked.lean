import BunServe.Crdt.Moves

/-!
# BunServe.Crdt.Tracked

The bookkeeping that holds in every reachable state of the document authority,
whatever is dropped, destroyed, declined or abandoned.

`Tracked` ties each record to its chain of store attempts: the in-flight set
holds what has neither been given up on nor answered, each attempt waits
behind the one before it, and the newest one is what the next attempt will
wait behind.  Of a registered record it adds that dirty bytes have a timer and
clean ones an attempt.

* `tracked_move` — every move keeps it;
* `tracked_run` — it holds after every run;
* `accepted_not_stranded` — no accepted update is ever out of sight.
-/

namespace BunServe.Crdt

open Machine
open Function (update update_of_ne update_self)
open State (modRec)
open TopicRecord (fresh)

variable {U : Type}

/-! ## the invariant -/

/-- Neither given up on nor answered. -/
def Attempt.Waiting (a : Attempt U) : Prop :=
  a.abandoned = false ∧ (a.phase = .queued ∨ a.phase = .issued)

/-- The reaction to its answer has not started. -/
def Attempt.Unread (a : Attempt U) : Prop :=
  a.phase ≠ .reported ∧ ∀ out, a.phase ≠ .settled out

/-- What ties records, attempts and the registry together. -/
structure Tracked (o : Options) (s : State U) : Prop where
  named : Named s
  ended : s.destroyed = true → ∀ k, s.topics.get? k = none
  made : ∀ h < s.nextAttempt, (s.attempts h).record < s.nextRec
  owned : ∀ r, ∀ h ∈ (s.recs r).inflight, h < s.nextAttempt ∧ (s.attempts h).record = r ∧
    (s.attempts h).abandoned = false ∧ (s.attempts h).Unread
  sorted : ∀ r, (s.recs r).inflight.Pairwise (· < ·)
  waiting : ∀ h < s.nextAttempt, (s.attempts h).Waiting →
    h ∈ (s.recs (s.attempts h).record).inflight
  idle : ∀ r, s.registered r = false → (s.recs r).inflight = []
  storing : ∀ r, (s.recs r).storing = (s.recs r).newest
  newest : ∀ r h, (s.recs r).newest = some h → h < s.nextAttempt ∧ (s.attempts h).record = r
  latest : ∀ g < s.nextAttempt, ∃ h, (s.recs (s.attempts g).record).newest = some h ∧ g ≤ h
  behind : ∀ h < s.nextAttempt, ∀ b, (s.attempts h).behind = some b →
    b < h ∧ (s.attempts b).record = (s.attempts h).record
  previous : ∀ h < s.nextAttempt, ∀ g < h, (s.attempts g).record = (s.attempts h).record →
    ∃ b, (s.attempts h).behind = some b ∧ g ≤ b
  released : ∀ h, (s.attempts h).abandoned = true → (s.attempts h).chain = some .failed
  chained : ∀ h out, (s.attempts h).chain = some out →
    (s.attempts h).abandoned = true ∨ (s.attempts h).phase = .settled out
  skipped : ∀ h, (s.attempts h).phase = .skipped → (s.attempts h).abandoned = true
  blob : ∀ h < s.nextAttempt, (s.attempts h).blob <+: (s.recs (s.attempts h).record).doc
  blobs : ∀ h < s.nextAttempt, ∀ g < h, (s.attempts g).record = (s.attempts h).record →
    (s.attempts g).blob <+: (s.attempts h).blob
  docs : ∀ r, ∀ u ∈ (s.recs r).accepted, u ∈ (s.recs r).doc
  armed : o.hasStore = true → ∀ r, s.registered r = true → (s.recs r).dirty = true →
    (s.recs r).debounceTimer.isSome = true
  covered : o.hasStore = true → ∀ r, s.registered r = true → Covered s r

theorem tracked_init (o : Options) : Tracked o (State.init : State U) := by
  constructor <;>
    simp [State.init, fresh, Named, Covered]

section Frame

variable {o : Options} {s : State U} {r h : Nat}

/-- What a change of the record `r` must keep. -/
structure Tracks (o : Options) (f : TopicRecord U → TopicRecord U) (rec : TopicRecord U)
    (registered : Bool) : Prop where
  topic : (f rec).topic = rec.topic
  doc : rec.doc <+: (f rec).doc
  accepted : ∀ u ∈ (f rec).accepted, u ∈ (f rec).doc
  storing : (f rec).storing = rec.storing
  newest : (f rec).newest = rec.newest
  inflight : (f rec).inflight = rec.inflight
  armed : o.hasStore = true → registered = true → (f rec).dirty = true →
    (f rec).debounceTimer.isSome = true
  clean : o.hasStore = true → registered = true → (f rec).dirty = false →
    rec.dirty = false ∧ (f rec).accepted = rec.accepted

/-- **Frame rule for records**. -/
theorem tracked_modRec {f : TopicRecord U → TopicRecord U} (hi : Tracked o s)
    (hf : Tracks o f (s.recs r) (s.registered r)) : Tracked o (s.modRec r f) := by
  have hreg := fun q => registered_modRec (q := q) hf.topic
  have hrec : ∀ q, (s.modRec r f).recs q = if q = r then f (s.recs r) else s.recs q := by
    intro q
    simp [modRec, Function.update_apply]
  have hsame : ∀ q, ((s.modRec r f).recs q).inflight = (s.recs q).inflight ∧
      ((s.modRec r f).recs q).newest = (s.recs q).newest ∧
      ((s.modRec r f).recs q).storing = (s.recs q).storing ∧
      ((s.modRec r f).recs q).topic = (s.recs q).topic ∧
      (s.recs q).doc <+: ((s.modRec r f).recs q).doc := by
    intro q
    rw [hrec]
    split
    · next h =>
      subst h
      exact ⟨hf.inflight, hf.newest, hf.storing, hf.topic, hf.doc⟩
    · exact ⟨rfl, rfl, rfl, rfl, List.prefix_refl _⟩
  constructor
  case named =>
    intro k q hq
    rw [(hsame q).2.2.2.1]
    exact hi.named k q hq
  case ended => exact hi.ended
  case made => exact hi.made
  case owned =>
    intro q h hh
    rw [(hsame q).1] at hh
    exact hi.owned q h hh
  case sorted =>
    intro q
    rw [(hsame q).1]
    exact hi.sorted q
  case waiting =>
    intro h hlt hw
    rw [(hsame _).1]
    exact hi.waiting h hlt hw
  case idle =>
    intro q hq
    rw [(hsame q).1]
    exact hi.idle q (hreg q ▸ hq)
  case storing =>
    intro q
    rw [(hsame q).2.1, (hsame q).2.2.1]
    exact hi.storing q
  case newest =>
    intro q h hq
    rw [(hsame q).2.1] at hq
    exact hi.newest q h hq
  case latest =>
    intro g hg
    rw [(hsame _).2.1]
    exact hi.latest g hg
  case behind => exact hi.behind
  case previous => exact hi.previous
  case released => exact hi.released
  case chained => exact hi.chained
  case skipped => exact hi.skipped
  case blob =>
    intro h hlt
    exact (hi.blob h hlt).trans (hsame _).2.2.2.2
  case blobs => exact hi.blobs
  case docs =>
    intro q u hu
    rw [hrec] at hu ⊢
    split at hu
    · next h =>
      subst h
      rw [if_pos rfl]
      exact hf.accepted u hu
    · next h =>
      rw [if_neg h]
      exact hi.docs q u hu
  case armed =>
    intro ho q hq hd
    rw [hreg] at hq
    rw [hrec] at hd ⊢
    split at hd
    · next h =>
      subst h
      rw [if_pos rfl]
      exact hf.armed ho hq hd
    · next h =>
      rw [if_neg h]
      exact hi.armed ho q hq hd
  case covered =>
    intro ho q hq hd
    rw [hreg] at hq
    rw [Captured, (hsame q).2.1]
    rw [hrec] at hd ⊢
    split at hd
    · next h =>
      subst h
      obtain ⟨hclean, hacc⟩ := hf.clean ho hq hd
      rw [if_pos rfl, hacc]
      exact hi.covered ho q hq hclean
    · next h =>
      rw [if_neg h]
      exact hi.covered ho q hq hd

/-- What a change of the attempt `h` must keep. -/
structure TracksAttempt (o : Options) (s : State U) (h : Nat) (a : Attempt U) : Prop where
  record : a.record = (s.attempts h).record
  blob : a.blob = (s.attempts h).blob
  behind : a.behind = (s.attempts h).behind
  abandoned : a.abandoned = (s.attempts h).abandoned
  waiting : a.Waiting → (s.attempts h).Waiting
  unread : h ∈ (s.recs (s.attempts h).record).inflight → a.Unread
  released : a.abandoned = true → a.chain = some .failed
  chained : ∀ out, a.chain = some out → a.abandoned = true ∨ a.phase = .settled out
  skipped : a.phase = .skipped → a.abandoned = true
  onItsWay : o.hasStore = true → ∀ r, (s.recs r).newest = some h → s.registered r = true →
    (s.recs r).dirty = false → (s.attempts h).OnItsWay ∨ (s.attempts h).Landed →
      a.OnItsWay ∨ a.Landed

/-- **Frame rule for attempts**. -/
theorem tracked_modAttempt {f : Attempt U → Attempt U} (hi : Tracked o s)
    (hf : TracksAttempt o s h (f (s.attempts h))) : Tracked o (s.modAttempt h f) := by
  have hatt : ∀ g, (s.modAttempt h f).attempts g =
      if g = h then f (s.attempts h) else s.attempts g := by
    intro g
    simp [State.modAttempt, Function.update_apply]
  have hsame : ∀ g, ((s.modAttempt h f).attempts g).record = (s.attempts g).record ∧
      ((s.modAttempt h f).attempts g).blob = (s.attempts g).blob ∧
      ((s.modAttempt h f).attempts g).behind = (s.attempts g).behind ∧
      ((s.modAttempt h f).attempts g).abandoned = (s.attempts g).abandoned := by
    intro g
    rw [hatt]
    split
    · next hg =>
      subst hg
      exact ⟨hf.record, hf.blob, hf.behind, hf.abandoned⟩
    · exact ⟨rfl, rfl, rfl, rfl⟩
  refine { hi with made := ?_, owned := ?_, waiting := ?_, newest := ?_, latest := ?_, behind := ?_,
                   previous := ?_, released := ?_, chained := ?_, skipped := ?_, blob := ?_,
                   blobs := ?_, covered := ?_ }
  · intro g hg
    rw [(hsame g).1]
    exact hi.made g hg
  · intro q g hg
    obtain ⟨hlt, hrec, ha, hun⟩ := hi.owned q g hg
    rw [(hsame g).1, (hsame g).2.2.2]
    refine ⟨hlt, hrec, ha, ?_⟩
    rw [hatt]
    split
    · next hgh =>
      subst hgh
      exact hf.unread (hrec ▸ hg)
    · exact hun
  · intro g hg hw
    rw [(hsame g).1]
    rw [hatt] at hw
    split at hw
    · next hgh =>
      subst hgh
      exact hi.waiting g hg (hf.waiting hw)
    · exact hi.waiting g hg hw
  · intro q g hq
    rw [(hsame g).1]
    exact hi.newest q g hq
  · intro g hg
    rw [(hsame g).1]
    exact hi.latest g hg
  · intro g hg b hb
    rw [(hsame g).1, (hsame b).1]
    exact hi.behind g hg b ((hsame g).2.2.1 ▸ hb)
  · intro g hg g' hlt hr
    rw [(hsame g).1, (hsame g').1] at hr
    rw [(hsame g).2.2.1]
    exact hi.previous g hg g' hlt hr
  · intro g hg
    rw [hatt] at hg ⊢
    split
    · next hgh =>
      rw [if_pos hgh] at hg
      exact hf.released hg
    · next hgh =>
      rw [if_neg hgh] at hg
      exact hi.released g hg
  · intro g out hg
    rw [hatt] at hg ⊢
    split
    · next hgh =>
      rw [if_pos hgh] at hg
      exact hf.chained out hg
    · next hgh =>
      rw [if_neg hgh] at hg
      exact hi.chained g out hg
  · intro g hg
    rw [hatt] at hg ⊢
    split
    · next hgh =>
      rw [if_pos hgh] at hg
      exact hf.skipped hg
    · next hgh =>
      rw [if_neg hgh] at hg
      exact hi.skipped g hg
  · intro g hg
    rw [(hsame g).1, (hsame g).2.1]
    exact hi.blob g hg
  · intro g hg g' hlt hr
    rw [(hsame g).1, (hsame g').1] at hr
    rw [(hsame g).2.1, (hsame g').2.1]
    exact hi.blobs g hg g' hlt hr
  · intro ho q hq hd
    rcases hi.covered ho q hq hd with he | ⟨g, hg, hb, hw⟩
    · exact .inl he
    refine .inr ⟨g, hg, ?_, ?_⟩
    · rw [(hsame g).2.1]
      exact hb
    · rw [hatt]
      split
      · next hgh =>
        subst hgh
        exact hf.onItsWay ho q hg hq hd hw
      · exact hw

theorem tracked_aside {flush hold : Prop} {s' : State U} (hi : Tracked o s) (ha : Aside flush hold s s') :
    Tracked o s' := by
  obtain ⟨htopics, hrecs, hnextRec, hattempts, hnextAttempt, hdestroyed, -, -, -⟩ := ha
  cases s'
  subst htopics hrecs hnextRec hattempts hnextAttempt hdestroyed
  exact { hi with }

theorem tracked_idle {hold : Prop} {f : TopicRecord U → TopicRecord U} (hi : Tracked o s)
    (hf : Idle hold f (s.recs r)) : Tracked o (s.modRec r f) := by
  refine tracked_modRec hi ⟨hf.topic, hf.doc, fun u hu => ?_, hf.storing, hf.newest, hf.inflight,
    fun ho hr hd => ?_, fun _ _ hd => ⟨hf.dirty ▸ hd, hf.accepted⟩⟩
  · rw [hf.accepted] at hu
    exact hf.doc.subset (hi.docs r u hu)
  · rw [hf.debounceTimer]
    exact hi.armed ho r hr (hf.dirty ▸ hd)

theorem registered_of_destroyed (hi : Tracked o s) (hd : s.destroyed = true) :
    s.registered r = false := by
  simp [State.registered, hi.ended hd]

theorem registered_iff_gone (hi : Tracked o s) : s.registered r = true ↔ s.gone r = false := by
  rw [gone_eq_false]
  refine ⟨fun hr => ⟨?_, hr⟩, And.right⟩
  by_contra hd
  rw [registered_of_destroyed hi (by simpa using hd)] at hr
  contradiction

theorem tracked_leave (hi : Tracked o s) (hw : ¬ (s.attempts h).Waiting) :
    Tracked o (s.modRec r fun rec => { rec with inflight := rec.inflight.filter (· ≠ h) }) := by
  have hreg := fun q => registered_modRec (s := s) (r := r) (q := q)
    (f := fun rec => { rec with inflight := rec.inflight.filter (· ≠ h) }) rfl
  have hrec : ∀ q, ∃ xs, (s.modRec r fun rec =>
      { rec with inflight := rec.inflight.filter (· ≠ h) }).recs q =
        { s.recs q with inflight := xs } ∧ xs.Sublist (s.recs q).inflight ∧
        ∀ g ∈ (s.recs q).inflight, g ≠ h → g ∈ xs := by
    intro q
    by_cases hq : q = r
    · subst hq
      exact ⟨_, recs_modRec_self, List.filter_sublist, fun g hg hne => by simp [hg, hne]⟩
    · exact ⟨(s.recs q).inflight, recs_modRec_ne hq, .refl _, fun g hg _ => hg⟩
  refine { hi with named := ?_, owned := ?_, sorted := ?_, waiting := ?_, idle := ?_,
                   storing := ?_, newest := ?_, latest := ?_, blob := ?_, docs := ?_,
                   armed := ?_, covered := ?_ }
  · intro k q hq
    obtain ⟨xs, hxs, -, -⟩ := hrec q
    rw [hxs]
    exact hi.named k q hq
  · intro q g hg
    obtain ⟨xs, hxs, hsub, -⟩ := hrec q
    rw [hxs] at hg
    exact hi.owned q g (hsub.subset hg)
  · intro q
    obtain ⟨xs, hxs, hsub, -⟩ := hrec q
    rw [hxs]
    exact (hi.sorted q).sublist hsub
  · intro g hg hwait
    rw [attempts_modRec] at hwait ⊢
    obtain ⟨xs, hxs, -, hin⟩ := hrec (s.attempts g).record
    rw [hxs]
    refine hin g (hi.waiting g hg hwait) fun he => ?_
    rw [he] at hwait
    exact hw hwait
  · intro q hq
    obtain ⟨xs, hxs, hsub, -⟩ := hrec q
    rw [hxs]
    rw [hi.idle q (hreg q ▸ hq)] at hsub
    exact List.sublist_nil.mp hsub
  · intro q
    obtain ⟨xs, hxs, -, -⟩ := hrec q
    rw [hxs]
    exact hi.storing q
  · intro q g hg
    obtain ⟨xs, hxs, -, -⟩ := hrec q
    rw [hxs] at hg
    exact hi.newest q g hg
  · intro g hg
    rw [attempts_modRec]
    obtain ⟨xs, hxs, -, -⟩ := hrec (s.attempts g).record
    rw [hxs]
    exact hi.latest g hg
  · intro g hg
    rw [attempts_modRec]
    obtain ⟨xs, hxs, -, -⟩ := hrec (s.attempts g).record
    rw [hxs]
    exact hi.blob g hg
  · intro q u hu
    obtain ⟨xs, hxs, -, -⟩ := hrec q
    rw [hxs] at hu ⊢
    exact hi.docs q u hu
  · intro ho q hq hd
    obtain ⟨xs, hxs, -, -⟩ := hrec q
    rw [hxs] at hd ⊢
    exact hi.armed ho q (hreg q ▸ hq) hd
  · intro ho q hq hd
    rw [Captured]
    obtain ⟨xs, hxs, -, -⟩ := hrec q
    rw [hxs] at hd ⊢
    exact hi.covered ho q (hreg q ▸ hq) hd

end Frame

/-! ## giving up -/

section Quits

variable {o : Options} {s s' : State U} {r h : Nat}

/-- The attempts in `quit` are given up on, and nothing else happens to a
record that stays registered, unless it is put back on the schedule. -/
structure Quits (quit : Nat → Bool) (s s' : State U) : Prop where
  nextRec : s'.nextRec = s.nextRec
  nextAttempt : s'.nextAttempt = s.nextAttempt
  ended : s'.destroyed = true → ∀ k, s'.topics.get? k = none
  topics : ∀ k q, s'.topics.get? k = some q → s.topics.get? k = some q
  inflight : ∀ h, quit h = true → h ∈ (s.recs (s.attempts h).record).inflight
  left : ∀ q, (s'.recs q).inflight = (s.recs q).inflight.filter (!quit ·)
  gone : ∀ q, s'.registered q = false → s.registered q = true →
    ∀ h ∈ (s.recs q).inflight, quit h = true
  topic : ∀ q, (s'.recs q).topic = (s.recs q).topic
  doc : ∀ q, (s'.recs q).doc = (s.recs q).doc
  accepted : ∀ q, (s'.recs q).accepted = (s.recs q).accepted
  storing : ∀ q, (s'.recs q).storing = (s.recs q).storing
  newest : ∀ q, (s'.recs q).newest = (s.recs q).newest
  refs : ∀ q, (s'.recs q).refs = (s.recs q).refs
  load : ∀ q, (s'.recs q).load = (s.recs q).load
  acquires : s'.acquires = s.acquires
  attempts : ∀ h, s'.attempts h = s.attempts h ∨
    quit h = true ∧ ∃ silent, s'.attempts h = { s.attempts h with
      abandoned := true, silent := silent, chain := (s.attempts h).chain.or (some .failed) }
  abandoned : ∀ h, quit h = true → (s'.attempts h).abandoned = true
  schedule : ∀ q, s'.registered q = true →
    ((∀ h, (s.recs q).newest = some h → quit h = false) ∧
        (s'.recs q).dirty = (s.recs q).dirty ∧
        (s'.recs q).debounceTimer = (s.recs q).debounceTimer) ∨
      (s'.recs q).dirty = true ∧ (s'.recs q).debounceTimer.isSome = true

theorem tracked_quits {quit : Nat → Bool} (hi : Tracked o s) (hq : Quits quit s s') :
    Tracked o s' := by
  have hsame : ∀ g, (s'.attempts g).record = (s.attempts g).record ∧
      (s'.attempts g).blob = (s.attempts g).blob ∧
      (s'.attempts g).behind = (s.attempts g).behind ∧
      (s'.attempts g).phase = (s.attempts g).phase := by
    intro g
    rcases hq.attempts g with he | ⟨-, silent, he⟩ <;> simp [he]
  have hkeep : ∀ g, (s'.attempts g).abandoned = false → s'.attempts g = s.attempts g := by
    intro g hg
    rcases hq.attempts g with he | ⟨-, silent, he⟩
    · exact he
    · rw [he] at hg
      contradiction
  have hunquit : ∀ g, quit g = false → s'.attempts g = s.attempts g := by
    intro g hg
    rcases hq.attempts g with he | ⟨hquit, -⟩
    · exact he
    · rw [hg] at hquit
      contradiction
  have hmem : ∀ {q g}, g ∈ (s'.recs q).inflight ↔ g ∈ (s.recs q).inflight ∧ quit g = false := by
    intro q g
    simp [hq.left q]
  have hreg : ∀ q, s'.registered q = true → s.registered q = true := by
    intro q hr
    rw [registered_eq_true] at hr ⊢
    rw [hq.topic] at hr
    exact hq.topics _ _ hr
  constructor
  case named =>
    intro k q hk
    rw [hq.topic, hq.nextRec]
    exact hi.named k q (hq.topics k q hk)
  case ended => exact hq.ended
  case made =>
    intro h hlt
    rw [(hsame h).1, hq.nextRec]
    exact hi.made h (hq.nextAttempt ▸ hlt)
  case owned =>
    intro q h hh
    obtain ⟨hin, hnot⟩ := hmem.mp hh
    rw [hunquit h hnot, hq.nextAttempt]
    exact hi.owned q h hin
  case sorted =>
    intro q
    rw [hq.left]
    exact (hi.sorted q).filter _
  case waiting =>
    intro h hlt hw
    have hsame' := hkeep h hw.1
    rw [hsame'] at hw ⊢
    refine hmem.mpr ⟨hi.waiting h (hq.nextAttempt ▸ hlt) hw, ?_⟩
    by_contra hquit
    have := hq.abandoned h (by simpa using hquit)
    rw [hsame', hw.1] at this
    contradiction
  case idle =>
    intro q hr
    rw [hq.left, List.filter_eq_nil_iff]
    intro h hh
    cases hr' : s.registered q with
    | true => simp [hq.gone q hr hr' h hh]
    | false =>
      rw [hi.idle q hr'] at hh
      contradiction
  case storing =>
    intro q
    rw [hq.storing, hq.newest]
    exact hi.storing q
  case newest =>
    intro q h hh
    rw [(hsame h).1, hq.nextAttempt]
    exact hi.newest q h (hq.newest q ▸ hh)
  case latest =>
    intro g hg
    rw [(hsame g).1, hq.newest]
    exact hi.latest g (hq.nextAttempt ▸ hg)
  case behind =>
    intro h hlt b hb
    rw [(hsame h).1, (hsame b).1]
    exact hi.behind h (hq.nextAttempt ▸ hlt) b ((hsame h).2.2.1 ▸ hb)
  case previous =>
    intro h hlt g hg hr
    rw [(hsame h).1, (hsame g).1] at hr
    rw [(hsame h).2.2.1]
    exact hi.previous h (hq.nextAttempt ▸ hlt) g hg hr
  case released =>
    intro h ha
    rcases hq.attempts h with he | ⟨hquit, silent, he⟩
    · rw [he] at ha ⊢
      exact hi.released h ha
    obtain ⟨-, -, halive, hun⟩ := hi.owned _ h (hq.inflight h hquit)
    have hnone : (s.attempts h).chain = none := by
      cases hc : (s.attempts h).chain with
      | none => rfl
      | some out =>
        rcases hi.chained h out hc with hab | hph
        · rw [halive] at hab
          contradiction
        · exact absurd hph (hun.2 out)
    simp [he, hnone]
  case chained =>
    intro h out hc
    rcases hq.attempts h with he | ⟨-, silent, he⟩
    · rw [he] at hc ⊢
      exact hi.chained h out hc
    · exact .inl (by rw [he])
  case skipped =>
    intro h hp
    rw [(hsame h).2.2.2] at hp
    rcases hq.attempts h with he | ⟨-, silent, he⟩
    · rw [he]
      exact hi.skipped h hp
    · rw [he]
  case blob =>
    intro h hlt
    rw [(hsame h).1, (hsame h).2.1, hq.doc]
    exact hi.blob h (hq.nextAttempt ▸ hlt)
  case blobs =>
    intro h hlt g hg hr
    rw [(hsame h).1, (hsame g).1] at hr
    rw [(hsame h).2.1, (hsame g).2.1]
    exact hi.blobs h (hq.nextAttempt ▸ hlt) g hg hr
  case docs =>
    intro q u hu
    rw [hq.accepted] at hu
    rw [hq.doc]
    exact hi.docs q u hu
  case armed =>
    intro ho q hr hd
    rcases hq.schedule q hr with ⟨-, hdirty, htimer⟩ | ⟨-, htimer⟩
    · rw [htimer]
      exact hi.armed ho q (hreg q hr) (hdirty ▸ hd)
    · exact htimer
  case covered =>
    intro ho q hr hd
    rw [Captured, hq.newest, hq.accepted]
    rcases hq.schedule q hr with ⟨hnew, hdirty, -⟩ | ⟨hdirty, -⟩
    · rcases hi.covered ho q (hreg q hr) (hdirty ▸ hd) with he | ⟨h, hh, hb, hw⟩
      · exact .inl he
      · exact .inr ⟨h, hh, by rw [hunquit h (hnew h hh)]; exact ⟨hb, hw⟩⟩
    · rw [hdirty] at hd
      contradiction

theorem quits_abandon (hi : Tracked o s) (hh : h ∈ (s.recs r).inflight) :
    Quits (· == h) s (abandon o s r h false) := by
  obtain ⟨-, hrec, halive, -⟩ := hi.owned r h hh
  obtain ⟨hleft, hothers, hatt⟩ := inflight_abandon (o := o) (r := r) false halive
  have hshape : ∃ f : TopicRecord U → TopicRecord U,
      (abandon o s r h false = (s.modAttempt h fun a => { a with
        abandoned := true, silent := false, chain := a.chain.or (some .failed) }).modRec r f) ∧
      (f (s.recs r)).topic = (s.recs r).topic ∧ (f (s.recs r)).doc = (s.recs r).doc ∧
      (f (s.recs r)).accepted = (s.recs r).accepted ∧
      (f (s.recs r)).storing = (s.recs r).storing ∧ (f (s.recs r)).newest = (s.recs r).newest ∧
      (f (s.recs r)).refs = (s.recs r).refs ∧ (f (s.recs r)).load = (s.recs r).load ∧
      (s.registered r = true →
        (f (s.recs r)).dirty = true ∧ (f (s.recs r)).debounceTimer.isSome = true) := by
    simp only [abandon, halive, Bool.false_eq_true, if_false]
    split
    · next hgone =>
      refine ⟨_, rfl, rfl, rfl, rfl, rfl, rfl, rfl, rfl, fun hr => ?_⟩
      rw [gone_modRec rfl] at hgone
      exact absurd (hgone.symm.trans ((registered_iff_gone hi).mp hr)) (by simp)
    · obtain ⟨due, hdue⟩ := keepDirty_eq
      refine ⟨fun rec => { rec with
        inflight := rec.inflight.filter (· ≠ h), storeAttempt := (s.attempts h).attempt
        dirty := true, debounceTimer := some due }, ?_, rfl, rfl, rfl, rfl, rfl, rfl, rfl,
          fun _ => ⟨rfl, rfl⟩⟩
      simp only [attempts_modRec, attempts_modAttempt_self]
      rw [hdue]
      simp [modRec]
  obtain ⟨f, hf, htopic, hdoc, hacc, hstoring, hnewest, hrefs, hload, hsched⟩ := hshape
  have hother : ∀ q ≠ r, (abandon o s r h false).recs q = s.recs q := fun q hq => by
    rw [hf, recs_modRec_ne hq]
    rfl
  have hself : (abandon o s r h false).recs r = f (s.recs r) := by
    rw [hf, recs_modRec_self]
    rfl
  have htopics : (abandon o s r h false).topics = s.topics := by
    rw [hf]
    rfl
  have hpoint : ∀ {α : Type} (p : TopicRecord U → α), p (f (s.recs r)) = p (s.recs r) →
      ∀ q, p ((abandon o s r h false).recs q) = p (s.recs q) := by
    intro α p hp q
    by_cases hq : q = r
    · subst hq
      rw [hself, hp]
    · rw [hother q hq]
  have hreg : ∀ q, (abandon o s r h false).registered q = s.registered q := fun q => by
    rw [State.registered, State.registered, htopics, hpoint (·.topic) htopic]
  constructor
  case nextRec => rw [hf]; rfl
  case nextAttempt => rw [hf]; rfl
  case ended =>
    rw [hf]
    exact hi.ended
  case topics =>
    rw [htopics]
    exact fun _ _ hk => hk
  case inflight =>
    intro g hg
    rw [eq_of_beq hg, hrec]
    exact hh
  case left =>
    intro q
    by_cases hq : q = r
    · subst hq
      rw [hleft]
      exact List.filter_congr fun g _ => by by_cases hg : g = h <;> simp [hg]
    · rw [hother q hq, List.filter_eq_self.mpr]
      intro g hg
      have : g ≠ h := by
        rintro rfl
        exact hq ((hi.owned q g hg).2.1.symm.trans hrec)
      simpa using this
  case gone =>
    intro q hq hq'
    rw [hreg, hq'] at hq
    contradiction
  case topic => exact hpoint (·.topic) htopic
  case doc => exact hpoint (·.doc) hdoc
  case accepted => exact hpoint (·.accepted) hacc
  case storing => exact hpoint (·.storing) hstoring
  case newest => exact hpoint (·.newest) hnewest
  case refs => exact hpoint (·.refs) hrefs
  case load => exact hpoint (·.load) hload
  case acquires =>
    rw [hf]
    rfl
  case attempts =>
    intro g
    rw [hatt]
    by_cases hg : g = h
    · subst hg
      exact .inr ⟨by simp, false, by simp⟩
    · exact .inl (update_of_ne hg ..)
  case abandoned =>
    intro g hg
    rw [hatt, eq_of_beq hg]
    simp
  case schedule =>
    intro q hq
    rw [hreg] at hq
    by_cases hqr : q = r
    · subst hqr
      rw [hself]
      exact .inr (hsched hq)
    · rw [hother q hqr]
      refine .inl ⟨fun g hg => ?_, rfl, rfl⟩
      have : g ≠ h := by
        rintro rfl
        exact hqr ((hi.newest q g hg).2.symm.trans hrec)
      simpa using this

/-! ## erasing -/

/-- A call that was cancelled with its record. -/
def Attempt.silenced (a : Attempt U) : Attempt U :=
  { a with abandoned := true, silent := true, chain := a.chain.or (some .failed) }

/-- Silently giving up on a list of calls of `r`. -/
theorem silence_all {hs : List Nat} (hnodup : hs.Nodup)
    (halive : ∀ h ∈ hs, (s.attempts h).abandoned = false) :
    hs.foldl (fun s h => abandon o s r h true) s = { s with
      attempts := fun h => if h ∈ hs then (s.attempts h).silenced else s.attempts h
      recs := update s.recs r
        { s.recs r with inflight := (s.recs r).inflight.filter (· ∉ hs) } } := by
  induction hs generalizing s with
  | nil => simp
  | cons h hs ih =>
    obtain ⟨hnot, hnodup⟩ := List.nodup_cons.mp hnodup
    have hne : ∀ g ∈ hs, g ≠ h := fun g hg he => hnot (he ▸ hg)
    have hone : abandon o s r h true = (s.modAttempt h Attempt.silenced).modRec r
        fun rec => { rec with inflight := rec.inflight.filter (· ≠ h) } := by
      simp only [abandon, halive h (by simp)]
      rfl
    rw [List.foldl_cons, hone, ih hnodup]
    · have hatt : ∀ g, (if g ∈ hs then
          ((s.modAttempt h Attempt.silenced).attempts g).silenced
          else (s.modAttempt h Attempt.silenced).attempts g) =
          if g ∈ h :: hs then (s.attempts g).silenced else s.attempts g := by
        intro g
        by_cases hg : g = h
        · subst hg
          simp [hnot]
        · simp [attempts_modAttempt_ne hg, hg]
      have hleft : ((s.recs r).inflight.filter (· ≠ h)).filter (· ∉ hs) =
          (s.recs r).inflight.filter (· ∉ h :: hs) := by
        rw [List.filter_filter]
        exact List.filter_congr fun g _ => by simp [Bool.and_comm]
      simp only [modRec] at hatt ⊢
      simp only [hatt, recs_modAttempt, update_self, Function.update_idem, hleft]
      rfl
    · intro g hg
      rw [attempts_modRec, attempts_modAttempt_ne (hne g hg)]
      exact halive g (by simp [hg])

/-- Each record has its own calls in flight. -/
def Owned (s : State U) : Prop :=
  ∀ r, (s.recs r).inflight.Nodup ∧
    ∀ h ∈ (s.recs r).inflight, (s.attempts h).record = r ∧ (s.attempts h).abandoned = false

theorem Tracked.own (hi : Tracked o s) : Owned s := fun r =>
  ⟨(hi.sorted r).imp Nat.ne_of_lt, fun h hh => ⟨(hi.owned r h hh).2.1, (hi.owned r h hh).2.2.1⟩⟩

/-- A record whose calls are cancelled. -/
def TopicRecord.silenced (rec : TopicRecord U) : TopicRecord U :=
  { clearSchedule rec with
    inflight := [], loadInflight := false, loadSilent := rec.loadSilent || rec.loadInflight }

theorem abortInFlight_eq (how : Owned s) :
    abortInFlight o (s.modRec r clearSchedule) r = { s with
      attempts := fun h =>
        if h ∈ (s.recs r).inflight then (s.attempts h).silenced else s.attempts h
      recs := update s.recs r (s.recs r).silenced } := by
  have hinflight : ((s.modRec r clearSchedule).recs r).inflight = (s.recs r).inflight := by
    rw [recs_modRec_self]
    rfl
  have hnone : (s.recs r).inflight.filter (· ∉ (s.recs r).inflight) = [] :=
    List.filter_eq_nil_iff.mpr fun h hh => by simp [hh]
  have hall := silence_all (o := o) (r := r) (s := s.modRec r clearSchedule) (how r).1
    fun h hh => ((how r).2 h hh).2
  unfold abortInFlight
  rw [hinflight, hall]
  simp only [modRec, update_self, Function.update_idem, clearSchedule,
    TopicRecord.silenced, hnone]

theorem unload_eq (how : Owned s) : unload o s r = { s with
    topics := if s.registered r then s.topics.delete (s.recs r).topic else s.topics
    attempts := fun h =>
      if h ∈ (s.recs r).inflight then (s.attempts h).silenced else s.attempts h
    recs := update s.recs r (s.recs r).silenced } := by
  have hreg : ∀ atts : Nat → Attempt U, State.registered { s with
      attempts := atts, recs := update s.recs r (s.recs r).silenced } r =
        s.registered r := by
    intro atts
    simp [State.registered, TopicRecord.silenced, clearSchedule]
  unfold unload
  rw [abortInFlight_eq how]
  simp only [hreg, update_self]
  split <;> rfl

/-- The loop of `destroy`. -/
theorem silenceAll_eq {rs : List Nat} (hnodup : rs.Nodup) (how : Owned s) :
    rs.foldl (fun s r => abortInFlight o (s.modRec r clearSchedule) r) s = { s with
      attempts := fun h => if ∃ r ∈ rs, h ∈ (s.recs r).inflight then (s.attempts h).silenced
        else s.attempts h
      recs := fun q => if q ∈ rs then (s.recs q).silenced else s.recs q } := by
  induction rs generalizing s with
  | nil => simp
  | cons r rs ih =>
    obtain ⟨hnot, hnodup⟩ := List.nodup_cons.mp hnodup
    have hrecs : ∀ q ∈ rs, update s.recs r (s.recs r).silenced q = s.recs q :=
      fun q hq => update_of_ne (by rintro rfl; exact hnot hq) ..
    rw [List.foldl_cons, abortInFlight_eq how, ih hnodup]
    · have hmem : ∀ h, (∃ q ∈ rs, h ∈ (update s.recs r (s.recs r).silenced q).inflight) ↔
          ∃ q ∈ rs, h ∈ (s.recs q).inflight := fun h =>
        exists_congr fun q => and_congr_right fun hq => by rw [hrecs q hq]
      have hatt : ∀ h, (if ∃ q ∈ rs, h ∈ (s.recs q).inflight then
            (if h ∈ (s.recs r).inflight then (s.attempts h).silenced else s.attempts h).silenced
          else if h ∈ (s.recs r).inflight then (s.attempts h).silenced else s.attempts h) =
          if ∃ q ∈ r :: rs, h ∈ (s.recs q).inflight then (s.attempts h).silenced
          else s.attempts h := by
        intro h
        by_cases hr : h ∈ (s.recs r).inflight
        · have hno : ¬ ∃ q ∈ rs, h ∈ (s.recs q).inflight := by
            rintro ⟨q, hq, hh⟩
            obtain rfl := ((how q).2 h hh).1.symm.trans ((how r).2 h hr).1
            exact hnot hq
          simp [hno]
        · simp [hr]
      have hrec : ∀ q, (if q ∈ rs then
            (update s.recs r (s.recs r).silenced q).silenced
          else update s.recs r (s.recs r).silenced q) =
          if q ∈ r :: rs then (s.recs q).silenced else s.recs q := by
        intro q
        by_cases hq : q = r
        · subst hq
          simp [hnot]
        · simp [hq]
      simp only [hmem, hatt, hrec]
    · intro q
      dsimp only
      by_cases hq : q = r
      · subst hq
        simp [TopicRecord.silenced]
      · rw [update_of_ne hq]
        refine ⟨(how q).1, fun h hh => ?_⟩
        have hr : h ∉ (s.recs r).inflight := fun hr =>
          hq (((how q).2 h hh).1.symm.trans ((how r).2 h hr).1)
        simp only [hr]
        exact (how q).2 h hh

/-- What cancelling the calls of the records in `gone` does, where these are
the ones that leave the registry. -/
theorem quits_of_silenced (gone : Nat → Bool) (topics : JsMap String Nat) (destroyed : Bool)
    (hi : Tracked o s)
    (hended : destroyed = true → ∀ k, topics.get? k = none)
    (htopics : ∀ k q, topics.get? k = some q ↔ s.topics.get? k = some q ∧ gone q = false) :
    Quits (fun h => gone (s.attempts h).record && (s.recs (s.attempts h).record).inflight.contains h)
      s { s with
        topics := topics
        destroyed := destroyed
        attempts := fun h => if gone (s.attempts h).record ∧
          h ∈ (s.recs (s.attempts h).record).inflight then (s.attempts h).silenced else s.attempts h
        recs := fun q => if gone q then (s.recs q).silenced else s.recs q } := by
  have hpoint : ∀ {α : Type} (p : TopicRecord U → α), (∀ rec, p rec.silenced = p rec) → ∀ q,
      p (if gone q then (s.recs q).silenced else s.recs q) = p (s.recs q) := by
    intro α p hp q
    split
    · exact hp _
    · rfl
  have hreg : ∀ {t : State U} {q}, t.topics = topics → (t.recs q).topic = (s.recs q).topic →
      (t.registered q = true ↔ s.registered q = true ∧ gone q = false) := by
    intro t q ht hq
    rw [registered_eq_true, registered_eq_true, ht, hq, htopics]
  constructor
  case nextRec => rfl
  case nextAttempt => rfl
  case ended => exact hended
  case topics => exact fun k q hk => ((htopics k q).mp hk).1
  case inflight =>
    intro h hh
    simp only [Bool.and_eq_true, List.contains_iff_mem] at hh
    exact hh.2
  case left =>
    intro q
    cases hq : gone q with
    | true =>
      simp only [hq]
      refine (List.filter_eq_nil_iff.mpr fun h hh => ?_).symm
      obtain ⟨-, hr, -⟩ := hi.owned q h hh
      simp [hr, hq, hh]
    | false =>
      simp only [hq]
      refine (List.filter_eq_self.mpr fun h hh => ?_).symm
      obtain ⟨-, hr, -⟩ := hi.owned q h hh
      simp [hr, hq]
  case gone =>
    intro q hq hq' h hh
    obtain ⟨-, hr, -⟩ := hi.owned q h hh
    cases hg : gone q with
    | true => simp [hr, hg, hh]
    | false =>
      rw [(hreg rfl (hpoint (·.topic) (fun _ => rfl) q)).mpr ⟨hq', hg⟩] at hq
      contradiction
  case topic => exact hpoint (·.topic) fun _ => rfl
  case doc => exact hpoint (·.doc) fun _ => rfl
  case accepted => exact hpoint (·.accepted) fun _ => rfl
  case storing => exact hpoint (·.storing) fun _ => rfl
  case newest => exact hpoint (·.newest) fun _ => rfl
  case refs => exact hpoint (·.refs) fun _ => rfl
  case load => exact hpoint (·.load) fun _ => rfl
  case acquires => rfl
  case attempts =>
    intro h
    dsimp only
    split
    · next hh => exact .inr ⟨by simp [hh], true, rfl⟩
    · exact .inl rfl
  case abandoned =>
    intro h hh
    simp only [Bool.and_eq_true, List.contains_iff_mem] at hh
    simp [hh, Attempt.silenced]
  case schedule =>
    intro q hq
    obtain ⟨-, hg⟩ := (hreg rfl (hpoint (·.topic) (fun _ => rfl) q)).mp hq
    refine .inl ⟨fun h hh => ?_, ?_, ?_⟩
    · simp [(hi.newest q h hh).2, hg]
    · simp [hg]
    · simp [hg]

theorem quits_unload (hi : Tracked o s) :
    Quits (fun h => (s.attempts h).record == r &&
      (s.recs (s.attempts h).record).inflight.contains h) s (unload o s r) := by
  have hquit := quits_of_silenced (· == r)
    (if s.registered r then s.topics.delete (s.recs r).topic else s.topics) s.destroyed hi ?_ ?_
  · have heq : unload o s r = _ := unload_eq hi.own
    rw [heq]
    convert hquit using 2
    · funext q
      by_cases hq : q = r
      · subst hq; simp
      · simp [hq]
    · funext h
      by_cases hh : h ∈ (s.recs r).inflight
      · obtain ⟨-, hr, -⟩ := hi.owned r h hh
        simp [hr]
      · by_cases hr : (s.attempts h).record = r
        · simp [hr]
        · simp [hh, hr]
  · intro hd k
    split
    · rw [JsMap.get?_delete, hi.ended hd]
      simp
    · exact hi.ended hd k
  · intro k q
    split
    · next hr =>
      rw [registered_eq_true] at hr
      rw [JsMap.get?_delete]
      split
      · next hk =>
        subst hk
        simp only [hr, Option.some.injEq, reduceCtorEq, false_iff, not_and]
        rintro rfl
        simp
      · next hk =>
        have : s.topics.get? k = some q → q ≠ r := by
          rintro hq rfl
          exact hk (hi.named k q hq).1.symm
        simpa using this
    · next hr =>
      have : s.topics.get? k = some q → q ≠ r := by
        rintro hq rfl
        exact hr (hi.named.registered hq)
      simpa using this

theorem quits_destroy (hi : Tracked o s) (hd : s.destroyed = false) :
    Quits (fun h => s.topics.values.contains (s.attempts h).record &&
      (s.recs (s.attempts h).record).inflight.contains h) s (destroy o s) := by
  have hnodup : s.topics.values.Nodup := JsMap.values_nodup fun k k' r hk hk' =>
    (hi.named k r hk).1.symm.trans (hi.named k' r hk').1
  have hquit := quits_of_silenced s.topics.values.contains .empty true hi
    (fun _ k => JsMap.get?_empty k) ?_
  · have how : Owned { s with destroyed := true } := hi.own
    simp only [destroy, hd, Bool.false_eq_true, if_false]
    rw [silenceAll_eq hnodup how]
    convert hquit using 2
    · simp
    funext h
    have : (∃ r ∈ s.topics.values, h ∈ (s.recs r).inflight) ↔
        (s.attempts h).record ∈ s.topics.values ∧
          h ∈ (s.recs (s.attempts h).record).inflight := by
      constructor
      · rintro ⟨r, hr, hh⟩
        obtain ⟨-, he, -⟩ := hi.owned r h hh
        rw [he]
        exact ⟨hr, hh⟩
      · rintro ⟨hr, hh⟩
        exact ⟨_, hr, hh⟩
    simp [this]
  · intro k q
    simp only [JsMap.get?_empty, reduceCtorEq, false_iff, not_and]
    intro hq
    simpa using JsMap.mem_values_iff.mpr ⟨k, hq⟩

end Quits

/-! ## creating and capturing -/

section Create

variable {o : Options} {s : State U} {r : Nat}

theorem registered_addRec {topic : String} (hnone : s.topics.get? topic = none) {q : Nat}
    (hq : q ≠ s.nextRec) : (s.addRec topic).registered q = s.registered q := by
  rw [State.registered, State.registered, recs_addRec_ne hq]
  simp only [State.addRec, JsMap.get?_set]
  split
  · next h => simp [h, hnone, hq.symm]
  · rfl

theorem tracked_addRec {topic : String} (hi : Tracked o s) (hd : s.destroyed = false)
    (hnone : s.topics.get? topic = none) : Tracked o (s.addRec topic) := by
  have hatt : (s.addRec topic).attempts = s.attempts := rfl
  have hrec : ∀ q, (q = s.nextRec ∧ (s.addRec topic).recs q = .fresh topic) ∨
      (q ≠ s.nextRec ∧ (s.addRec topic).recs q = s.recs q) := by
    intro q
    by_cases hq : q = s.nextRec
    · subst hq
      exact .inl ⟨rfl, recs_addRec_self⟩
    · exact .inr ⟨hq, recs_addRec_ne hq⟩
  have hmade : ∀ h < s.nextAttempt, (s.addRec topic).recs (s.attempts h).record =
      s.recs (s.attempts h).record := fun h hlt => recs_addRec_ne (Nat.ne_of_lt (hi.made h hlt))
  refine { hi with named := ?_, ended := ?_, made := ?_, owned := ?_, sorted := ?_, waiting := ?_,
                   idle := ?_, storing := ?_, newest := ?_, latest := ?_, blob := ?_, docs := ?_,
                   armed := ?_, covered := ?_ }
  · intro k q hq
    obtain ⟨hk, rfl⟩ | ⟨-, hq⟩ := JsMap.of_get?_set hq
    · exact ⟨by rw [recs_addRec_self, hk]; rfl, Nat.lt_succ_self _⟩
    · obtain ⟨htopic, hlt⟩ := hi.named k q hq
      exact ⟨by rw [recs_addRec_ne (Nat.ne_of_lt hlt), htopic], Nat.lt_succ_of_lt hlt⟩
  · intro hd'
    have : s.destroyed = true := hd'
    rw [hd] at this
    contradiction
  · exact fun h hlt => Nat.lt_succ_of_lt (hi.made h hlt)
  · intro q h hh
    rcases hrec q with ⟨-, he⟩ | ⟨-, he⟩
    · simp [he, fresh] at hh
    · exact hi.owned q h (he ▸ hh)
  · intro q
    rcases hrec q with ⟨-, he⟩ | ⟨-, he⟩
    · simp [he, fresh]
    · rw [he]
      exact hi.sorted q
  · intro h hlt hw
    rw [hatt, hmade h hlt]
    exact hi.waiting h hlt hw
  · intro q hq
    rcases hrec q with ⟨-, he⟩ | ⟨hne, he⟩
    · simp [he, fresh]
    · rw [he]
      exact hi.idle q (registered_addRec hnone hne ▸ hq)
  · intro q
    rcases hrec q with ⟨-, he⟩ | ⟨-, he⟩
    · simp [he, fresh]
    · rw [he]
      exact hi.storing q
  · intro q h hh
    rcases hrec q with ⟨-, he⟩ | ⟨-, he⟩
    · simp [he, fresh] at hh
    · exact hi.newest q h (he ▸ hh)
  · intro g hg
    rw [hatt, hmade g hg]
    exact hi.latest g hg
  · intro h hlt
    rw [hatt, hmade h hlt]
    exact hi.blob h hlt
  · intro q u hu
    rcases hrec q with ⟨-, he⟩ | ⟨-, he⟩
    · simp [he, fresh] at hu
    · rw [he] at hu ⊢
      exact hi.docs q u hu
  · intro ho q hq hd
    rcases hrec q with ⟨-, he⟩ | ⟨hne, he⟩
    · simp [he, fresh] at hd
    · rw [he] at hd ⊢
      exact hi.armed ho q (registered_addRec hnone hne ▸ hq) hd
  · intro ho q hq hd
    rw [Captured]
    rcases hrec q with ⟨-, he⟩ | ⟨hne, he⟩
    · exact .inl (by simp [he, fresh])
    · rw [he] at hd ⊢
      exact hi.covered ho q (registered_addRec hnone hne ▸ hq) hd

theorem storeNow_eq (ho : o.hasStore = true) {by' : Option Nat} :
    (storeNow o s r by').1 =
      (s.addAttempt {
        record := r, blob := (s.recs r).doc, attempt := (s.recs r).storeAttempt + 1
        behind := (s.recs r).storing, waiters := by'.toList, abandoned := false, silent := false
        phase := .queued, deadline := none, chain := none }).modRec r fun rec =>
          { rec with
            debounceTimer := none, maxWaitStart := none, dirty := false, updatesSinceStore := 0
            inflight := rec.inflight ++ [s.nextAttempt]
            newest := some s.nextAttempt, storing := some s.nextAttempt } := by
  simp [storeNow, ho, modRec, State.addAttempt, clearSchedule]

theorem tracked_storeNow {by' : Option Nat} (hi : Tracked o s) (hr : s.registered r = true) :
    Tracked o (storeNow o s r by').1 := by
  by_cases ho : o.hasStore = true
  case neg =>
    simp only [storeNow, ho, Bool.not_false, if_true]
    refine tracked_modRec hi ⟨rfl, List.prefix_refl _, hi.docs r, rfl, rfl, rfl, ?_, ?_⟩ <;>
      exact fun hno => absurd hno ho
  case pos =>
    rw [storeNow_eq ho]
    set a : Attempt U := {
      record := r, blob := (s.recs r).doc, attempt := (s.recs r).storeAttempt + 1
      behind := (s.recs r).storing, waiters := by'.toList, abandoned := false, silent := false
      phase := .queued, deadline := none, chain := none } with ha
    set n := s.nextAttempt with hn
    set f : TopicRecord U → TopicRecord U := fun rec => { rec with
      debounceTimer := none, maxWaitStart := none, dirty := false, updatesSinceStore := 0
      inflight := rec.inflight ++ [n], newest := some n, storing := some n } with hf
    have hreg : ∀ q, ((s.addAttempt a).modRec r f).registered q = s.registered q := fun q =>
      registered_modRec rfl
    have hrlt : r < s.nextRec := (hi.named _ r (registered_eq_true.mp hr)).2
    have hother : ∀ q ≠ r, ((s.addAttempt a).modRec r f).recs q = s.recs q := fun q hq =>
      recs_modRec_ne hq
    have hself : ((s.addAttempt a).modRec r f).recs r = f (s.recs r) := recs_modRec_self
    have hnew : ((s.addAttempt a).modRec r f).attempts n = a := attempts_addAttempt_self
    have hold : ∀ h ≠ n, ((s.addAttempt a).modRec r f).attempts h = s.attempts h := fun h hne =>
      attempts_addAttempt_ne hne
    have hlt : ∀ {h}, h < ((s.addAttempt a).modRec r f).nextAttempt → h ≠ n → h < n := by
      intro h hlt hne
      exact Nat.lt_of_le_of_ne (Nat.le_of_lt_succ hlt) hne
    have hlast : ∀ {h}, (s.recs r).newest = some h → h < n ∧ (s.attempts h).record = r :=
      hi.newest r _
    constructor
    case named =>
      intro k q hq
      by_cases h : q = r
      · subst h
        rw [hself]
        exact hi.named k q hq
      · rw [hother q h]
        exact hi.named k q hq
    case ended => exact hi.ended
    case made =>
      intro h hh
      by_cases hne : h = n
      · rw [hne, hnew]
        exact hrlt
      · rw [hold h hne]
        exact hi.made h (hlt hh hne)
    case owned =>
      intro q h hh
      have hcase : h ∈ (s.recs q).inflight ∨ q = r ∧ h = n := by
        by_cases hq : q = r
        · subst hq
          simpa [hf] using hh
        · exact .inl (hother q hq ▸ hh)
      rcases hcase with hh | ⟨rfl, rfl⟩
      · obtain ⟨hhn, hrest⟩ := hi.owned q h hh
        rw [hold h (Nat.ne_of_lt hhn)]
        exact ⟨Nat.lt_succ_of_lt hhn, hrest⟩
      · rw [hnew]
        exact ⟨Nat.lt_succ_self _, rfl, rfl, by simp [Attempt.Unread]⟩
    case sorted =>
      intro q
      by_cases hq : q = r
      · subst hq
        rw [hself]
        exact List.pairwise_append.mpr ⟨hi.sorted q, List.pairwise_singleton .., fun g hg h hh => by
          rw [List.mem_singleton.mp hh]
          exact (hi.owned q g hg).1⟩
      · rw [hother q hq]
        exact hi.sorted q
    case waiting =>
      intro h hh hw
      by_cases hne : h = n
      · rw [hne, hnew, hself]
        simp [hf]
      rw [hold h hne] at hw ⊢
      have hin := hi.waiting h (hlt hh hne) hw
      by_cases hq : (s.attempts h).record = r
      · rw [hq] at hin ⊢
        rw [hself]
        exact List.mem_append_left _ hin
      · rw [hother _ hq]
        exact hin
    case idle =>
      intro q hq
      rw [hreg] at hq
      have hne : q ≠ r := by
        rintro rfl
        rw [hr] at hq
        contradiction
      rw [hother q hne]
      exact hi.idle q hq
    case storing =>
      intro q
      by_cases hq : q = r
      · subst hq
        rw [hself]
      · rw [hother q hq]
        exact hi.storing q
    case newest =>
      intro q h hh
      by_cases hq : q = r
      · subst hq
        rw [hself] at hh
        obtain rfl : n = h := Option.some.inj hh
        rw [hnew]
        exact ⟨Nat.lt_succ_self _, rfl⟩
      · rw [hother q hq] at hh
        obtain ⟨hhn, hrec⟩ := hi.newest q h hh
        rw [hold h (Nat.ne_of_lt hhn)]
        exact ⟨Nat.lt_succ_of_lt hhn, hrec⟩
    case latest =>
      intro g hg
      by_cases hq : (((s.addAttempt a).modRec r f).attempts g).record = r
      · rw [hq, hself]
        exact ⟨n, rfl, Nat.le_of_lt_succ hg⟩
      · have hne : g ≠ n := by
          rintro rfl
          exact hq (by rw [hnew])
        rw [hother _ hq, hold g hne]
        exact hi.latest g (hlt hg hne)
    case behind =>
      intro h hh b hb
      by_cases hne : h = n
      · subst hne
        rw [hnew] at hb ⊢
        obtain ⟨hbn, hrec⟩ := hlast ((hi.storing r).symm.trans hb)
        rw [hold b (Nat.ne_of_lt hbn)]
        exact ⟨hbn, hrec⟩
      · rw [hold h hne] at hb ⊢
        obtain ⟨hbh, hrec⟩ := hi.behind h (hlt hh hne) b hb
        rw [hold b (Nat.ne_of_lt (hbh.trans (hlt hh hne)))]
        exact ⟨hbh, hrec⟩
    case previous =>
      intro h hh g hg hrec
      have hgn : g ≠ n := Nat.ne_of_lt (Nat.lt_of_lt_of_le hg (Nat.le_of_lt_succ hh))
      rw [hold g hgn] at hrec
      by_cases hne : h = n
      · subst hne
        rw [hnew] at hrec ⊢
        obtain ⟨b, hb, hle⟩ := hi.latest g hg
        rw [hrec] at hb
        exact ⟨b, (hi.storing r).trans hb, hle⟩
      · rw [hold h hne] at hrec ⊢
        exact hi.previous h (hlt hh hne) g hg hrec
    case released =>
      intro h hab
      by_cases hne : h = n
      · rw [hne, hnew] at hab
        contradiction
      · rw [hold h hne] at hab ⊢
        exact hi.released h hab
    case chained =>
      intro h out hc
      by_cases hne : h = n
      · rw [hne, hnew] at hc
        contradiction
      · rw [hold h hne] at hc ⊢
        exact hi.chained h out hc
    case skipped =>
      intro h hp
      by_cases hne : h = n
      · rw [hne, hnew] at hp
        contradiction
      · rw [hold h hne] at hp ⊢
        exact hi.skipped h hp
    case blob =>
      intro h hh
      by_cases hne : h = n
      · rw [hne, hnew]
        exact ⟨[], by rw [hself, List.append_nil]⟩
      · rw [hold h hne]
        by_cases hq : (s.attempts h).record = r
        · rw [hq, hself]
          exact hq ▸ hi.blob h (hlt hh hne)
        · rw [hother _ hq]
          exact hi.blob h (hlt hh hne)
    case blobs =>
      intro h hh g hg hrec
      have hgn : g < n := Nat.lt_of_lt_of_le hg (Nat.le_of_lt_succ hh)
      rw [hold g (Nat.ne_of_lt hgn)] at hrec ⊢
      by_cases hne : h = n
      · rw [hne, hnew] at hrec ⊢
        have := hi.blob g hgn
        rw [hrec] at this
        exact this
      · rw [hold h hne] at hrec ⊢
        exact hi.blobs h (hlt hh hne) g hg hrec
    case docs =>
      intro q u hu
      by_cases hq : q = r
      · subst hq
        rw [hself] at hu ⊢
        exact hi.docs q u hu
      · rw [hother q hq] at hu ⊢
        exact hi.docs q u hu
    case armed =>
      intro ho q hq hd
      rw [hreg] at hq
      by_cases hqr : q = r
      · rw [hqr, hself] at hd
        contradiction
      · rw [hother q hqr] at hd ⊢
        exact hi.armed ho q hq hd
    case covered =>
      intro ho q hq hd
      rw [hreg] at hq
      rw [Captured]
      by_cases hqr : q = r
      · subst hqr
        rw [hself]
        refine .inr ⟨n, rfl, ?_⟩
        rw [hnew]
        exact ⟨hi.docs q, .inl ⟨rfl, by simp⟩⟩
      · rw [hother q hqr] at hd ⊢
        rcases hi.covered ho q hq hd with he | ⟨h, hh, hb, hw⟩
        · exact .inl he
        · refine .inr ⟨h, hh, ?_⟩
          rw [hold h (Nat.ne_of_lt (hi.newest q h hh).1)]
          exact ⟨hb, hw⟩

end Create

/-! ## the moves -/

section Run

variable {o : Options} {flush hold : Prop} {late : State U → Nat → Prop} {s s' : State U} {h : Nat}

theorem tracked_dispatch (hi : Tracked o s) (hs : dispatch s h = some s') : Tracked o s' := by
  obtain ⟨hc, rfl⟩ := by simpa [dispatch] using hs
  refine tracked_modAttempt hi ?_
  cases ha : (s.attempts h).abandoned with
  | true =>
    refine ⟨rfl, rfl, rfl, ?_, ?_, ?_, fun _ => hi.released h ha, ?_, ?_, ?_⟩ <;>
      simp [ha, Attempt.Waiting, Attempt.Unread, Attempt.OnItsWay, Attempt.Landed, hc.2.1]
  | false =>
    have hnone : ∀ out, (s.attempts h).chain ≠ some out := fun out ho => by
      rcases hi.chained h out ho with hab | hph
      · simp [ha] at hab
      · simp [hc.2.1] at hph
    refine ⟨rfl, rfl, rfl, ?_, ?_, ?_, ?_, ?_, ?_, ?_⟩ <;>
      simp [ha, Attempt.Waiting, Attempt.Unread, Attempt.OnItsWay, hc.2.1,
        hnone]

theorem tracked_answer {ans : StoreAnswer} (hi : Tracked o s) (hs : answer s h ans = some s') :
    Tracked o s' := by
  obtain ⟨hc, rfl⟩ := by simpa [answer] using hs
  have hchain : ∀ out, (s.attempts h).chain = some out → (s.attempts h).abandoned = true :=
    fun out ho => (hi.chained h out ho).resolve_right (by simp [hc.2])
  refine tracked_modAttempt hi
    ⟨rfl, rfl, rfl, rfl, ?_, ?_, hi.released h, fun out ho => .inl (hchain out ho), ?_, ?_⟩ <;>
    simp +contextual [Attempt.Waiting, Attempt.Unread, Attempt.OnItsWay, Attempt.Landed, hc.2]

theorem tracked_chainSettle (hi : Tracked o s) (hs : chainSettle s h = some s') : Tracked o s' := by
  unfold chainSettle at hs
  obtain ⟨-, hs⟩ := Option.ite_none_right_eq_some.mp hs
  split at hs
  · next out hph =>
    cases hs
    refine tracked_modAttempt hi
      ⟨rfl, rfl, rfl, rfl, fun hw => hw, fun hm => (hi.owned _ h hm).2.2.2, fun ha => ?_, ?_,
        hi.skipped h, fun _ _ _ _ _ hw => hw⟩
    · simp [hi.released h ha]
    intro out' ho
    cases hc : (s.attempts h).chain with
    | some x =>
      simp only [hc, Option.some_or] at ho
      exact hi.chained h out' (by rw [hc, ho])
    | none =>
      simp only [hc, Option.none_or, Option.some.injEq] at ho
      exact .inr (by rw [hph, ho])
  · contradiction

theorem Reacting.left (hi : Tracked o s) (hr : Reacting s h) :
    h ∉ (s.recs (s.attempts h).record).inflight := by
  rcases hr with ⟨-, hin⟩ | hph
  · exact hin
  · exact fun hin => (hi.owned _ h hin).2.2.2.1 hph

theorem Reacting.unsettled (hr : Reacting s h) (out : Outcome) :
    (s.attempts h).phase ≠ .settled out := by
  rcases hr with ⟨hph | ⟨ans, hph⟩, -⟩ | hph <;> simp [hph]

variable {out : Outcome}

/-- An attempt settles; `hdecides` is what becomes of a clean record whose
newest attempt it is. -/
theorem tracksAttempt_settle (hi : Tracked o s) (hr : Reacting s h)
    (hdecides : ∀ r, (s.recs r).newest = some h → s.registered r = true →
      (s.recs r).dirty = false → (s.attempts h).OnItsWay → out = .durable) :
    TracksAttempt o s h { s.attempts h with phase := .settled out } := by
  refine ⟨rfl, rfl, rfl, rfl, ?_, fun hin => absurd hin (hr.left hi), hi.released h, ?_, ?_, ?_⟩
  · simp [Attempt.Waiting]
  · intro out' ho
    refine .inl (((hi.chained h out' ho).resolve_right ?_))
    exact hr.unsettled out'
  · simp
  · intro _ r hnew hreg hd hw
    rcases hw with hw | hl
    · exact .inr (by rw [hdecides r hnew hreg hd hw]; rfl)
    · exact absurd hl (hr.unsettled _)

theorem tracked_settle (hi : Tracked o s) (hr : Reacting s h)
    (hidle : (s.attempts h).abandoned = true ∨ Superseded s h ∨ out = .durable) :
    Tracked o (settleAs s h out) := by
  refine tracked_modAttempt hi (tracksAttempt_settle hi hr fun r hnew hreg _ hw => ?_)
  have hrec := (hi.newest r h hnew).2
  rcases hidle with ha | (hgone | hne) | hdur
  · rw [hw.1] at ha
    contradiction
  · rw [hrec, (registered_iff_gone hi).mp hreg] at hgone
    contradiction
  · rw [hrec] at hne
    exact absurd hnew hne
  · exact hdur

theorem tracked_keepDirty {r n : Nat} (hi : Tracked o s) : Tracked o (keepDirty o s r n) := by
  obtain ⟨due, hdue⟩ := keepDirty_eq
  rw [hdue]
  exact tracked_modRec hi ⟨rfl, List.prefix_refl _, hi.docs r, rfl, rfl, rfl, fun _ _ _ => rfl,
    fun _ _ hd => by contradiction⟩

theorem keepDirty_settleAs {r n : Nat} :
    keepDirty o (settleAs s h out) r n = settleAs (keepDirty o s r n) h out := by
  unfold keepDirty armRetry
  split <;> split
  · rfl
  · contradiction
  · contradiction
  · rfl

theorem tracked_refuse (hi : Tracked o s) (hr : Reacting s h) :
    Tracked o (keepDirty o (settleAs s h out) (s.attempts h).record (s.attempts h).attempt) := by
  rw [keepDirty_settleAs]
  set r := (s.attempts h).record with hrec
  obtain ⟨due, hdue⟩ := keepDirty_eq
  have hkeep := tracked_keepDirty (r := r) (n := (s.attempts h).attempt) hi
  rw [hdue] at hkeep ⊢
  refine tracked_modAttempt hkeep (tracksAttempt_settle hkeep ?_ fun q hnew _ hd _ => ?_)
  · exact hr.imp_left fun hp => ⟨hp.1, by
      rw [attempts_modRec, recs_modRec_self]
      exact hp.2⟩
  · have hq : q = r := (hkeep.newest q h hnew).2.symm
    rw [hq, recs_modRec_self] at hd
    contradiction

theorem tracked_move (hi : Tracked o s) (hm : Move o flush hold late s s') : Tracked o s' := by
  cases hm with
  | aside ha => exact tracked_aside hi ha
  | idle hf => exact tracked_idle hi hf
  | waiters w _ =>
    exact tracked_modAttempt hi ⟨rfl, rfl, rfl, rfl, fun hw => hw,
      fun hm => (hi.owned _ _ hm).2.2.2, hi.released _, hi.chained _, hi.skipped _,
      fun _ _ _ _ _ hw => hw⟩
  | create _ hd hnone => exact tracked_addRec hi hd hnone
  | capture by' hr => exact tracked_storeNow hi hr
  | fire hidle =>
    refine tracked_modRec hi ⟨rfl, List.prefix_refl _, hi.docs _, rfl, rfl, rfl,
      fun _ hr hd => ?_, fun _ _ hd => ⟨hd, rfl⟩⟩
    rw [registered_iff_gone hi] at hr
    rcases hidle with hgone | hclean
    · rw [hr] at hgone
      contradiction
    · exact absurd (hclean.symm.trans hd) (by simp)
  | giveUp hin _ => exact tracked_quits hi (quits_abandon hi hin)
  | unload => exact tracked_quits hi (quits_unload hi)
  | destroy hd => exact tracked_quits hi (quits_destroy hi hd)
  | dispatch hs => exact tracked_dispatch hi hs
  | answer hs => exact tracked_answer hi hs
  | @leave h _ hph =>
    refine tracked_leave hi ?_
    rintro ⟨-, hw⟩
    rcases hph with hph | ⟨ans, hph⟩ <;> simp [hph] at hw
  | @report h _ hph hleft =>
    obtain ⟨ans, hph⟩ := hph
    refine tracked_modAttempt hi ⟨rfl, rfl, rfl, rfl, ?_, fun hin => absurd hin hleft,
      hi.released h, fun out ho => .inl ((hi.chained h out ho).resolve_right ?_), ?_, ?_⟩ <;>
      simp +contextual [Attempt.Waiting, Attempt.OnItsWay, Attempt.Landed, hph]
  | settle out _ hr _ hidle => exact tracked_settle hi hr hidle
  | refuse out _ hr _ _ => exact tracked_refuse hi hr
  | chainSettle hs => exact tracked_chainSettle hi hs

theorem tracked_moves (hi : Tracked o s) (hm : Moves o flush hold late s s') : Tracked o s' := by
  induction hm with
  | refl => exact hi
  | tail _ hm ih => exact tracked_move ih hm

theorem tracked_edit (hi : Tracked o s) (he : Edit o s s') : Tracked o s' := by
  cases he with
  | @mk r u hr hd =>
    by_cases ho : o.hasStore = true
    · have hsched : scheduleStore o (s.accept r u) r = s.modRec r fun rec => { rec with
          doc := rec.doc ++ [u], accepted := rec.accepted ++ [u], dirty := true
          updatesSinceStore := rec.updatesSinceStore + 1
          maxWaitStart := some (rec.maxWaitStart.getD s.now)
          debounceTimer := some (s.now + min o.debounceWait
            (rec.maxWaitStart.getD s.now + o.debounceMaxWait - s.now)) } := by
        simp [scheduleStore, ho, State.accept, modRec]
      rw [hsched]
      refine tracked_modRec hi ⟨rfl, List.prefix_append .., fun v hv => ?_, rfl, rfl, rfl,
        fun _ _ _ => rfl, fun _ _ hd => by contradiction⟩
      rcases List.mem_append.mp hv with hv | hv
      · exact List.mem_append_left _ (hi.docs r v hv)
      · exact List.mem_append_right _ hv
    · have hsched : scheduleStore o (s.accept r u) r = s.accept r u := by
        simp [scheduleStore, ho]
      rw [hsched]
      refine tracked_modRec hi ⟨rfl, List.prefix_append .., fun v hv => ?_, rfl, rfl, rfl,
        fun hno => absurd hno ho, fun hno => absurd hno ho⟩
      rcases List.mem_append.mp hv with hv | hv
      · exact List.mem_append_left _ (hi.docs r v hv)
      · exact List.mem_append_right _ hv

variable [DecidableEq U] {yjs : Yjs U}

theorem tracked_next {a : Action U} (hi : Tracked o s)
    (hs : (machine o yjs).next s a = some s') : Tracked o s' := by
  by_cases ha : ∃ topic u, a = .applyUpdate topic u
  · obtain ⟨topic, u, rfl⟩ := ha
    cases hs
    rcases applyUpdate_cases (fun _ _ => True) hi.named with hm | ⟨t, he, hm⟩
    · exact tracked_moves hi hm
    · exact tracked_moves (tracked_edit hi he) hm
  · refine tracked_moves hi (next_moves (fun _ _ => True) hi.named (fun f he => ?_)
      (fun topic u he => ha ⟨topic, u, he⟩) hs)
    exact moves_flushDeadline (fun _ _ => trivial) (he ▸ hs)

theorem tracked_run {ok : State U → Action U → Prop} {as : List (Action U)}
    (h : (machine o yjs).Runs ok as s) : Tracked o s :=
  h.invariant (tracked_init o) fun _ _ _ hi _ hs => tracked_next hi hs

/-- **No stranded edit**: whatever happens to stores and flushes, each update
that a registered record has accepted is in a blob the host confirmed, or in
one whose attempt is pending and not abandoned, or the record is dirty with a
timer armed. -/
theorem accepted_not_stranded (ho : o.hasStore = true) {as : List (Action U)}
    (h : (machine o yjs).Runs Any as s) {r : Nat} (hr : s.registered r = true) {u : U}
    (hu : u ∈ (s.recs r).accepted) :
    Saved s r u ∨
      (∃ g < s.nextAttempt, (s.attempts g).record = r ∧ (s.attempts g).OnItsWay ∧
        u ∈ (s.attempts g).blob) ∨
      (s.recs r).dirty = true ∧ (s.recs r).debounceTimer.isSome = true := by
  have hi := tracked_run h
  cases hd : (s.recs r).dirty with
  | true => exact .inr (.inr ⟨rfl, hi.armed ho r hr hd⟩)
  | false =>
    rcases hi.covered ho r hr hd with he | ⟨g, hg, hb, hw⟩
    · rw [he] at hu
      contradiction
    · obtain ⟨hlt, hrec⟩ := hi.newest r g hg
      rcases hw with hway | hland
      · exact .inr (.inl ⟨g, hlt, hrec, hway, hb u hu⟩)
      · exact .inl ⟨g, hlt, hrec, hland, hb u hu⟩

end Run

/-! ## a run -/

/-- An edit is captured by its timer and a second one by a flush, whose
deadline passes while the first store fails. -/
def abandonedRun : List (Action Nat) :=
  opened ++ [.applyUpdate "t" 1, .tick 2000, .timer 0, .dispatch 0, .applyUpdate "t" 2,
    .persistNow none (some (some 100)), .answer 0 .rejected, .react 0, .tick 100,
    .flushDeadline 0, .react 0]

theorem accepted_not_stranded_example : ∃ s : State Nat,
    (machine {} numbers).Runs Any abandonedRun s ∧ s.registered 0 = true ∧
      2 ∈ (s.recs 0).accepted ∧
      (Saved s 0 2 ∨
        (∃ g < s.nextAttempt, (s.attempts g).record = 0 ∧ (s.attempts g).OnItsWay ∧
          2 ∈ (s.attempts g).blob) ∨
        (s.recs 0).dirty = true ∧ (s.recs 0).debounceTimer.isSome = true) := by
  obtain ⟨s, hs⟩ : ∃ s, (machine {} numbers).exec (machine {} numbers).init abandonedRun = some s :=
    ⟨_, rfl⟩
  have hrun := runs_of_exec hs
  have hreg : s.registered 0 = true ∧ 2 ∈ (s.recs 0).accepted := by
    cases hs
    decide +kernel
  exact ⟨s, hrun, hreg.1, hreg.2, accepted_not_stranded rfl hrun hreg.1 hreg.2⟩

end BunServe.Crdt
