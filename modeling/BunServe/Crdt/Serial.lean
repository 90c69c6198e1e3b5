import BunServe.Crdt.Tracked

/-!
# BunServe.Crdt.Serial

Store calls of one topic one at a time and in capture order.

A store waits behind the chain of the one before it, and an abandoned store
releases its chain.  `Ordered` is what makes this serial: whatever is no longer
queued, or was given up on, has nothing waiting before it.  A flush deadline
that gives up on a store but not on the one it is queued behind breaks it
(`Overtakes`): the released chain lets the next store run beside the older one,
as in `overtaking_stores`.

* `serialised_run` — along the runs without such a deadline, one call at a time
  and in order; and along every run, late answers change nothing and a
  deadline gives up on no store that another flush waits on.
-/

namespace BunServe.Crdt

open Machine

variable {U : Type}

/-! ## the order of a chain -/

/-- What has left the queue, or was given up on, has nothing waiting before
it. -/
def Ordered (s : State U) : Prop :=
  ∀ h < s.nextAttempt, ((s.attempts h).abandoned = true ∨ (s.attempts h).phase ≠ .queued) →
    ∀ g < h, (s.attempts g).record = (s.attempts h).record → ¬ (s.attempts g).Waiting

/-- Nothing of the same record is in flight before the attempt `h`. -/
def First (s : State U) (h : Nat) : Prop :=
  ∀ g ∈ (s.recs (s.attempts h).record).inflight, h ≤ g

section Order

variable {o : Options} {flush hold : Prop} {s s' : State U} {h : Nat}

theorem ordered_of_same (ho : Ordered s) (hnext : s'.nextAttempt = s.nextAttempt)
    (hrec : ∀ h, (s'.attempts h).record = (s.attempts h).record)
    (hstart : ∀ h, (s'.attempts h).abandoned = true ∨ (s'.attempts h).phase ≠ .queued →
      (s.attempts h).abandoned = true ∨ (s.attempts h).phase ≠ .queued)
    (hwait : ∀ g, (s'.attempts g).Waiting → (s.attempts g).Waiting) : Ordered s' := by
  intro h hlt hs g hg hr hw
  rw [hrec, hrec] at hr
  exact ho h (hnext ▸ hlt) (hstart h hs) g hg hr (hwait g hw)

theorem ordered_modAttempt {f : Attempt U → Attempt U} (ho : Ordered s)
    (hrec : (f (s.attempts h)).record = (s.attempts h).record)
    (hstart : (f (s.attempts h)).abandoned = true ∨ (f (s.attempts h)).phase ≠ .queued →
      (s.attempts h).abandoned = true ∨ (s.attempts h).phase ≠ .queued)
    (hwait : (f (s.attempts h)).Waiting → (s.attempts h).Waiting) : Ordered (s.modAttempt h f) := by
  have hcases : ∀ g, g = h ∧ (s.modAttempt h f).attempts g = f (s.attempts h) ∨
      (s.modAttempt h f).attempts g = s.attempts g := by
    intro g
    by_cases hg : g = h
    · subst hg
      exact .inl ⟨rfl, attempts_modAttempt_self⟩
    · exact .inr (attempts_modAttempt_ne hg)
  refine ordered_of_same ho rfl (fun g => ?_) (fun g => ?_) fun g => ?_
  · rcases hcases g with ⟨rfl, he⟩ | he
    · rw [he, hrec]
    · rw [he]
  · rcases hcases g with ⟨rfl, he⟩ | he
    · rw [he]
      exact hstart
    · rw [he]
      exact id
  · rcases hcases g with ⟨rfl, he⟩ | he
    · rw [he]
      exact hwait
    · rw [he]
      exact id

theorem ordered_quits {quit : Nat → Bool} (hi : Tracked o s) (ho : Ordered s) (hq : Quits quit s s')
    (hclosed : ∀ h, quit h = true → ∀ g ∈ (s.recs (s.attempts h).record).inflight, g < h →
      quit g = true) : Ordered s' := by
  have hsame : ∀ g, (s'.attempts g).record = (s.attempts g).record ∧
      (s'.attempts g).phase = (s.attempts g).phase ∧
      ((s'.attempts g).abandoned = true → (s.attempts g).abandoned = true ∨ quit g = true) ∧
      ((s'.attempts g).Waiting → (s.attempts g).Waiting ∧ quit g = false) := by
    intro g
    rcases hq.attempts g with he | ⟨hquit, silent, he⟩
    · refine ⟨by rw [he], by rw [he], fun ha => .inl (he ▸ ha), fun hw => ⟨he ▸ hw, ?_⟩⟩
      by_contra hquit
      have := hq.abandoned g (by simpa using hquit)
      rw [hw.1] at this
      contradiction
    · refine ⟨by rw [he], by rw [he], fun _ => .inr hquit, fun hw => ?_⟩
      have := hw.1
      rw [he] at this
      contradiction
  intro h hlt hstart g hg hr hw
  rw [(hsame g).1, (hsame h).1] at hr
  obtain ⟨hwait, hnot⟩ := (hsame g).2.2.2 hw
  have hlt' : h < s.nextAttempt := hq.nextAttempt ▸ hlt
  have hquit : quit h = true ∨
      ((s.attempts h).abandoned = true ∨ (s.attempts h).phase ≠ .queued) := by
    rcases hstart with ha | hp
    · exact ((hsame h).2.2.1 ha).symm.imp_right .inl
    · exact .inr (.inr ((hsame h).2.1 ▸ hp))
  rcases hquit with hquit | hstart
  · have hin := hi.waiting g (hg.trans hlt') hwait
    rw [hr] at hin
    rw [hclosed h hquit g hin hg] at hnot
    contradiction
  · exact ho h hlt' hstart g hg hr hwait

theorem ordered_storeNow {r : Nat} {by' : Option Nat} (ho : Ordered s) :
    Ordered (storeNow o s r by').1 := by
  by_cases hstore : o.hasStore = true
  case neg =>
    simp only [storeNow, hstore]
    exact ho
  case pos =>
    rw [storeNow_eq hstore]
    intro h hlt hs g hg hr
    have hle : h ≤ s.nextAttempt := Nat.le_of_lt_succ hlt
    rw [attempts_modRec] at hs hr ⊢
    rw [attempts_addAttempt_lt (Nat.lt_of_lt_of_le hg hle)] at hr ⊢
    by_cases hn : h = s.nextAttempt
    · subst hn
      simp at hs
    · rw [attempts_addAttempt_ne hn] at hs hr
      exact ho h (Nat.lt_of_le_of_ne hle hn) hs g hg hr

theorem ordered_dispatch (hi : Tracked o s) (ho : Ordered s) (hs : dispatch s h = some s') :
    Ordered s' := by
  have hbefore : h < s.nextAttempt → (s.chainValue (s.attempts h).behind).isSome = true →
      ∀ g < h, (s.attempts g).record = (s.attempts h).record → ¬ (s.attempts g).Waiting := by
    intro hlt hchain g hg hr
    obtain ⟨b, hb, hle⟩ := hi.previous h hlt g hg hr
    obtain ⟨hbh, hrb⟩ := hi.behind h hlt b hb
    rw [hb] at hchain
    obtain ⟨out, hout⟩ := Option.isSome_iff_exists.mp hchain
    have hdone : (s.attempts b).abandoned = true ∨ (s.attempts b).phase = .settled out :=
      hi.chained b out hout
    rcases Nat.lt_or_eq_of_le hle with hgb | rfl
    · refine ho b (hbh.trans hlt) (hdone.imp_right fun hp => by simp [hp]) g hgb ?_
      rw [hr, hrb]
    · rintro ⟨ha, hw⟩
      rcases hdone with hd | hd
      · rw [ha] at hd
        contradiction
      · simp [hd] at hw
  obtain ⟨hc, hs⟩ := by simpa [dispatch] using hs
  obtain ⟨hlt, hqueued, hchain⟩ := hc
  cases hs
  have hrec : ∀ g, ((s.modAttempt h fun a => if a.abandoned = true
      then { a with phase := .skipped } else { a with
        phase := .issued, deadline := waiterDeadline s a.waiters }).attempts g).record =
          (s.attempts g).record := by
    intro g
    by_cases hg : g = h
    · subst hg
      rw [attempts_modAttempt_self]
      split <;> rfl
    · rw [attempts_modAttempt_ne hg]
  have hwait : ∀ g, ((s.modAttempt h fun a => if a.abandoned = true
      then { a with phase := .skipped } else { a with
        phase := .issued, deadline := waiterDeadline s a.waiters }).attempts g).Waiting →
          (s.attempts g).Waiting := by
    intro g hw
    by_cases hg : g = h
    · subst hg
      rw [attempts_modAttempt_self] at hw
      split at hw
      · simp [Attempt.Waiting] at hw
      · exact ⟨hw.1, .inl hqueued⟩
    · rwa [attempts_modAttempt_ne hg] at hw
  intro h' hlt' hs g hg hr hw
  rw [hrec, hrec] at hr
  replace hw := hwait g hw
  by_cases hh : h' = h
  · subst hh
    exact hbefore hlt hchain g hg hr hw
  · rw [attempts_modAttempt_ne hh] at hs
    exact ho h' hlt' hs g hg hr hw

theorem started_of_reacting (hr : Reacting s h) : (s.attempts h).phase ≠ .queued := by
  rcases hr with ⟨hph | ⟨ans, hph⟩, -⟩ | hph <;> simp [hph]

theorem ordered_move (hi : Tracked o s) (ho : Ordered s) (hm : Move o flush hold First s s') :
    Ordered s' := by
  cases hm with
  | aside ha =>
    refine ordered_of_same ho ha.nextAttempt (fun h => ?_) (fun h hs => ?_) fun h hw => ?_
    · rw [ha.attempts]
    · rwa [ha.attempts] at hs
    · rwa [ha.attempts] at hw
  | idle _ | create _ _ _ | fire _ | leave _ _ => exact ho
  | waiters w _ => exact ordered_modAttempt ho rfl id id
  | capture by' _ => exact ordered_storeNow ho
  | @giveUp r h hin hfirst =>
    refine ordered_quits hi ho (quits_abandon hi hin) fun g hg k hk hlt => ?_
    rw [eq_of_beq hg] at hk hlt
    have := hfirst k hk
    omega
  | unload =>
    refine ordered_quits hi ho (quits_unload hi) fun h hq g hg _ => ?_
    simp only [Bool.and_eq_true] at hq ⊢
    rw [(hi.owned _ g hg).2.1]
    exact ⟨hq.1, by simpa using hg⟩
  | destroy hd =>
    refine ordered_quits hi ho (quits_destroy hi hd) fun h hq g hg _ => ?_
    simp only [Bool.and_eq_true] at hq ⊢
    rw [(hi.owned _ g hg).2.1]
    exact ⟨hq.1, by simpa using hg⟩
  | dispatch hs => exact ordered_dispatch hi ho hs
  | answer hs =>
    obtain ⟨hc, rfl⟩ := by simpa [answer] using hs
    exact ordered_modAttempt ho rfl (fun _ => .inr (by simp [hc.2]))
      fun hw => by simp [Attempt.Waiting] at hw
  | report _ hph _ =>
    obtain ⟨ans, hph⟩ := hph
    exact ordered_modAttempt ho rfl (fun _ => .inr (by simp [hph]))
      fun hw => by simp [Attempt.Waiting] at hw
  | settle out _ hr _ _ =>
    exact ordered_modAttempt ho rfl (fun _ => .inr (started_of_reacting hr))
      fun hw => by simp [Attempt.Waiting] at hw
  | @refuse h out _ hr _ _ =>
    obtain ⟨due, hdue⟩ := keepDirty_eq
    rw [hdue]
    have hset : Ordered (settleAs s h out) :=
      ordered_modAttempt ho rfl (fun _ => .inr (started_of_reacting hr))
        fun hw => by simp [Attempt.Waiting] at hw
    exact hset
  | chainSettle hs =>
    obtain ⟨-, hs⟩ := by simpa [chainSettle] using hs
    split at hs
    · cases hs
      exact ordered_modAttempt ho rfl id id
    · contradiction

theorem ordered_moves (hi : Tracked o s) (ho : Ordered s) (hm : Moves o flush hold First s s') :
    Ordered s' := by
  have hboth : Tracked o s' ∧ Ordered s' := by
    induction hm with
    | refl => exact ⟨hi, ho⟩
    | tail _ hm ih => exact ⟨tracked_move ih.1 hm, ordered_move ih.1 ih.2 hm⟩
  exact hboth.2

theorem ordered_edit (ho : Ordered s) (he : Edit o s s') : Ordered s' := by
  cases he with
  | @mk r u _ _ =>
    have hacc : Ordered (s.accept r u) := ho
    unfold scheduleStore
    split
    · exact hacc
    · exact hacc

end Order

/-! ## a flush deadline -/

section Deadline

variable {o : Options} {s t : State U} {f r h : Nat}

/-- One call of `giveUp` touches one attempt: `f` waits on it no longer, or it
leaves the in-flight set. -/
theorem giveUp_spec (hi : Tracked o t) (hin : h ∈ (t.recs r).inflight) :
    (∀ q, ∀ g ∈ ((giveUp o f r t h).recs q).inflight, g ∈ (t.recs q).inflight) ∧
      (∀ g ∈ (t.recs r).inflight, g ≠ h → g ∈ ((giveUp o f r t h).recs r).inflight) ∧
      (∀ g ≠ h, (giveUp o f r t h).attempts g = t.attempts g) ∧
      ((giveUp o f r t h).attempts h).record = (t.attempts h).record ∧
      ((giveUp o f r t h).attempts h).waiters.filter (· ≠ f) =
        (t.attempts h).waiters.filter (· ≠ f) ∧
      f ∉ ((giveUp o f r t h).attempts h).waiters ∧
      (LastWaiter t f h → h ∉ ((giveUp o f r t h).recs r).inflight) ∧
      (¬ LastWaiter t f h →
        ((giveUp o f r t h).attempts h).abandoned = (t.attempts h).abandoned) := by
  rcases giveUp_cases with
    ⟨hf, he⟩ | ⟨hne, he⟩ | ⟨hlast, he⟩
  · rw [he]
    exact ⟨fun _ _ hg => hg, fun _ hg _ => hg, fun _ _ => rfl, rfl, rfl, hf,
      fun hl => absurd hl.1 hf, fun _ => rfl⟩
  · rw [he]
    refine ⟨fun _ _ hg => hg, fun _ hg _ => hg, fun g hg => attempts_modAttempt_ne hg, ?_, ?_, ?_,
      fun hl => absurd hl.2 hne, fun _ => ?_⟩ <;> rw [attempts_modAttempt_self]
    · simp
    · simp
  · have halive := (hi.owned r h hin).2.2.1
    have ha : ((t.modAttempt h fun a =>
        { a with waiters := a.waiters.filter (· ≠ f) }).attempts h).abandoned = false := by
      rw [attempts_modAttempt_self]
      exact halive
    obtain ⟨hleft, hothers, hatt⟩ := inflight_abandon false ha
    rw [he, hatt]
    refine ⟨fun q g hg => ?_, fun g hg hne => ?_, fun g hg => ?_, ?_, ?_, ?_, fun _ => ?_,
      absurd hlast⟩
    · by_cases hq : q = r
      · subst hq
        rw [hleft] at hg
        exact (List.mem_filter.mp hg).1
      · rw [hothers q hq] at hg
        exact hg
    · rw [hleft]
      exact List.mem_filter.mpr ⟨hg, by simpa using hne⟩
    · rw [Function.update_of_ne hg, attempts_modAttempt_ne hg]
    · simp
    · simp
    · simp
    · rw [hleft]
      simp

theorem nextAttempt_giveUp : (giveUp o f r t h).nextAttempt = t.nextAttempt := by
  rcases giveUp_cases with
    ⟨-, he⟩ | ⟨-, he⟩ | ⟨-, he⟩
  · rw [he]
  · rw [he]
    rfl
  · rw [he]
    exact abandon_same.nextAttempt

/-- What the deadline of `f` has done so far: what is still in flight has its
other waiters, and `f` if it is to be given up on; what was given up on had no
other waiter. -/
structure Expiring (o : Options) (f : Nat) (s t : State U) : Prop where
  tracked : Tracked o t
  nextAttempt : t.nextAttempt = s.nextAttempt
  record : ∀ h, (t.attempts h).record = (s.attempts h).record
  inflight : ∀ r, ∀ h ∈ (t.recs r).inflight, h ∈ (s.recs r).inflight
  others : ∀ h, (t.attempts h).waiters.filter (· ≠ f) = (s.attempts h).waiters.filter (· ≠ f)
  joined : ∀ h, f ∈ (t.attempts h).waiters → f ∈ (s.attempts h).waiters
  last : ∀ r, ∀ h ∈ (t.recs r).inflight, LastWaiter s f h → f ∈ (t.attempts h).waiters
  abandoned : ∀ h, (s.attempts h).abandoned = false → (t.attempts h).abandoned = true →
    LastWaiter s f h ∧ h ∈ (s.recs (s.attempts h).record).inflight

theorem Expiring.refl (hi : Tracked o s) : Expiring o f s s :=
  ⟨hi, rfl, fun _ => rfl, fun _ _ h => h, fun _ => rfl, fun _ h => h, fun _ _ _ hl => hl.1,
    fun _ hf ht => by rw [hf] at ht; contradiction⟩

theorem tracked_giveUp (hi : Tracked o t) (hin : h ∈ (t.recs r).inflight) :
    Tracked o (giveUp o f r t h) := by
  have hm : Moves o True False (fun _ _ => True) t (giveUp o f r t h) :=
    moves_giveUpAll [h] (fun _ _ => trivial) fun g hg => by
      rw [List.mem_singleton.mp hg]
      exact .inl hin
  exact tracked_moves hi hm

theorem Expiring.giveUp (he : Expiring o f s t) (hin : h ∈ (t.recs r).inflight) :
    Expiring o f s (giveUp o f r t h) := by
  obtain ⟨hsub, -, hne, hrec, hwait, hnot, hgone, hkeep⟩ := giveUp_spec he.tracked hin
  have hlast : LastWaiter s f h → LastWaiter t f h := fun hl =>
    ⟨he.last r h hin hl, by rw [he.others, hl.2]⟩
  have hown : (s.attempts h).record = r := by
    rw [← he.record]
    exact (he.tracked.owned r h hin).2.1
  refine ⟨tracked_giveUp he.tracked hin, ?_, fun g => ?_, fun q g hg => he.inflight q g (hsub q g hg),
    fun g => ?_, fun g hg => ?_, fun q g hg hl => ?_, fun g ha hb => ?_⟩
  · rw [nextAttempt_giveUp, he.nextAttempt]
  · by_cases hgh : g = h
    · subst hgh
      rw [hrec, he.record]
    · rw [hne g hgh, he.record]
  · by_cases hgh : g = h
    · subst hgh
      rw [hwait, he.others]
    · rw [hne g hgh, he.others]
  · by_cases hgh : g = h
    · subst hgh
      exact absurd hg hnot
    · rw [hne g hgh] at hg
      exact he.joined g hg
  · by_cases hgh : g = h
    · subst hgh
      have hq : q = r := (he.tracked.owned q g (hsub q g hg)).2.1.symm.trans
        (he.tracked.owned r g hin).2.1
      subst hq
      exact absurd hg (hgone (hlast hl))
    · rw [hne g hgh]
      exact he.last q g (hsub q g hg) hl
  · by_cases hgh : g = h
    · subst hgh
      by_cases hl : LastWaiter t f g
      · refine ⟨⟨he.joined g hl.1, by rw [← he.others, hl.2]⟩, ?_⟩
        rw [hown]
        exact he.inflight r g hin
      · rw [hkeep hl] at hb
        exact he.abandoned g ha hb
    · rw [hne g hgh] at hb
      exact he.abandoned g ha hb

/-- The deadline of `f` would give up on a store of `r` and keep an earlier one
that is still in flight. -/
def Skips (s : State U) (f r : Nat) : Prop :=
  ∃ h ∈ (s.recs r).inflight, ∃ g ∈ (s.recs r).inflight,
    g < h ∧ LastWaiter s f h ∧ ¬ LastWaiter s f g

/-- Giving up on the calls `hs` of `r`, in capture order.  `hrest` says that
what is in flight and not on the list has had its turn. -/
theorem expiring_giveUpAll {hs : List Nat} (he : Expiring o f s t) (hsorted : hs.Pairwise (· < ·))
    (hin : ∀ h ∈ hs, h ∈ (t.recs r).inflight)
    (hrest : ∀ g ∈ (t.recs r).inflight, g ∈ hs ∨ f ∉ (t.attempts g).waiters) :
    Expiring o f s (hs.foldl (giveUp o f r) t) ∧
      (¬ Skips s f r → Moves o True hold First t (hs.foldl (giveUp o f r) t)) := by
  induction hs generalizing t with
  | nil => exact ⟨he, fun _ => .refl⟩
  | cons h hs ih =>
    obtain ⟨hlater, hsorted⟩ := List.pairwise_cons.mp hsorted
    have hhere := hin h (by simp)
    obtain ⟨hsub, hstay, hne, -, -, hnot, -, -⟩ := giveUp_spec he.tracked hhere
    have hmove : ¬ Skips s f r → Moves o True hold First t (giveUp o f r t h) := by
      intro hskip
      rcases giveUp_cases with
        ⟨-, heq⟩ | ⟨-, heq⟩ | ⟨hlast, heq⟩
      · rw [heq]
        exact .refl
      · rw [heq]
        exact .single (.waiters (fun ws => ws.filter (· ≠ f)) trivial)
      rw [heq]
      refine .tail (.single (.waiters (fun ws => ws.filter (· ≠ f)) trivial))
        (.giveUp hhere fun g hg => ?_)
      rw [attempts_modAttempt_self] at hg
      rw [(he.tracked.owned r h hhere).2.1] at hg
      -- an earlier one still in flight has had its turn, so `f` gave up on it
      by_contra hlt
      have hlt : g < h := Nat.lt_of_not_le hlt
      have hlast' : LastWaiter s f h := ⟨he.joined h hlast.1, by rw [← he.others, hlast.2]⟩
      have hg' : LastWaiter s f g := by
        by_contra hno
        exact hskip ⟨h, he.inflight r h hhere, g, he.inflight r g hg, hlt, hlast', hno⟩
      rcases hrest g hg with hmem | hf
      · rcases List.mem_cons.mp hmem with rfl | hmem
        · exact Nat.lt_irrefl _ hlt
        · exact Nat.lt_asymm hlt (hlater g hmem)
      · exact hf (he.last r g hg hg')
    obtain ⟨hexp, hmoves⟩ := ih (he.giveUp hhere) hsorted
      (fun g hg => hstay g (hin g (List.mem_cons_of_mem _ hg)) (Nat.ne_of_gt (hlater g hg)))
      fun g hg => by
        by_cases hgh : g = h
        · subst hgh
          exact .inr hnot
        · rw [hne g hgh]
          exact (hrest g (hsub r g hg)).imp_left fun hm =>
            (List.mem_cons.mp hm).resolve_left hgh
    exact ⟨hexp, fun hskip => (hmove hskip).trans (hmoves hskip)⟩

variable (hold) in
theorem expiring_timeOutAll (ws : List Wait) (he : Expiring o f s t) :
    Expiring o f s (ws.foldl (timeOut o f) t) ∧
      ((∀ w ∈ ws, ¬ Skips s f w.record) → Moves o True hold First t (ws.foldl (timeOut o f) t)) := by
  induction ws generalizing t with
  | nil => exact ⟨he, fun _ => .refl⟩
  | cons w ws ih =>
    have haside : Aside True hold t (t.modFlush f fun fl =>
        { fl with outcomes := fl.outcomes ++ [(w.topic, .timedOut)] }) := aside_modFlush trivial
    have hout : Expiring o f s (t.modFlush f fun fl =>
        { fl with outcomes := fl.outcomes ++ [(w.topic, .timedOut)] }) :=
      { he with tracked := tracked_aside he.tracked haside }
    obtain ⟨hone, hmove⟩ := expiring_giveUpAll (r := w.record) hout
      (he.tracked.sorted w.record) (fun _ hh => hh) fun _ hg => .inl hg
    obtain ⟨hall, hmoves⟩ := ih hone
    refine ⟨hall, fun hskip => ?_⟩
    exact (Relation.ReflTransGen.head (.aside haside) (hmove (hskip w (by simp)))).trans
      (hmoves fun w' hw' => hskip w' (List.mem_cons_of_mem _ hw'))

/-- The deadline of `f` would give up on a store behind one that it keeps. -/
def Overtakes (s : State U) (f : Nat) : Prop :=
  ∃ w ∈ (s.flushes f).pending, Skips s f w.record

theorem moves_flushDeadline_first {s' : State U} (hi : Tracked o s) (hok : ¬ Overtakes s f)
    (hs : flushDeadline o s f = some s') : Moves o True hold First s s' := by
  unfold flushDeadline at hs
  split at hs
  · contradiction
  · split at hs
    · cases hs
      obtain ⟨-, hmoves⟩ := expiring_timeOutAll hold (s.flushes f).pending
        (Expiring.refl hi)
      exact (hmoves fun w hw hskip => hok ⟨w, hw, hskip⟩).trans
        (.trans (.single (.aside (aside_modFlush trivial))) moves_finish)
    · contradiction

end Deadline

/-! ## who waits on what -/

/-- A flush that waits for a chain is a waiter of every store in flight that
this chain is behind. -/
structure Joined (s : State U) : Prop where
  bounded : ∀ g, ∀ w ∈ (s.flushes g).pending, ∀ c, w.chain = some c → c < s.nextAttempt
  waits : ∀ g, ∀ w ∈ (s.flushes g).pending, ∀ c, w.chain = some c →
    ∀ h ∈ (s.recs w.record).inflight, h ≤ c → g ∈ (s.attempts h).waiters

/-- Nothing old joins an in-flight set, and no waiter but those in `leaving`
is taken off. -/
structure Quiet (leaving : Nat → Prop) (s s' : State U) : Prop where
  nextAttempt : s.nextAttempt ≤ s'.nextAttempt
  inflight : ∀ r, ∀ h ∈ (s'.recs r).inflight, h < s.nextAttempt → h ∈ (s.recs r).inflight
  waiters : ∀ h < s.nextAttempt, ∀ g, ¬ leaving g → g ∈ (s.attempts h).waiters →
    g ∈ (s'.attempts h).waiters

section Joining

variable {o : Options} {leaving : Nat → Prop} {s s' t : State U} {f r h : Nat}

theorem Quiet.refl : Quiet leaving s s :=
  ⟨Nat.le_refl _, fun _ _ hh _ => hh, fun _ _ _ _ hg => hg⟩

theorem Quiet.trans (h : Quiet leaving s s') (h' : Quiet leaving s' t) : Quiet leaving s t where
  nextAttempt := Nat.le_trans h.nextAttempt h'.nextAttempt
  inflight r g hg hlt :=
    h.inflight r g (h'.inflight r g hg (Nat.lt_of_lt_of_le hlt h.nextAttempt)) hlt
  waiters g hlt k hk hm :=
    h'.waiters g (Nat.lt_of_lt_of_le hlt h.nextAttempt) k hk (h.waiters g hlt k hk hm)

theorem joined_of_quiet (leaving : Nat → Prop) (hj : Joined s) (hq : Quiet leaving s s')
    (hpending : ∀ g, ∀ w ∈ (s'.flushes g).pending, w ∈ (s.flushes g).pending ∧ ¬ leaving g) :
    Joined s' := by
  constructor
  · intro g w hw c hc
    exact Nat.lt_of_lt_of_le (hj.bounded g w (hpending g w hw).1 c hc) hq.nextAttempt
  · intro g w hw c hc h hh hle
    obtain ⟨hw, hg⟩ := hpending g w hw
    have hlt := Nat.lt_of_le_of_lt hle (hj.bounded g w hw c hc)
    exact hq.waiters h hlt g hg (hj.waits g w hw c hc h (hq.inflight w.record h hh hlt) hle)

theorem quiet_modRec {f : TopicRecord U → TopicRecord U}
    (hf : ∀ h ∈ (f (s.recs r)).inflight, h < s.nextAttempt → h ∈ (s.recs r).inflight) :
    Quiet leaving s (s.modRec r f) := by
  refine ⟨Nat.le_refl _, fun q h hh hlt => ?_, fun _ _ _ _ hg => hg⟩
  by_cases hq : q = r
  · subst hq
    rw [recs_modRec_self] at hh
    exact hf h hh hlt
  · rwa [recs_modRec_ne hq] at hh

theorem quiet_modAttempt {f : Attempt U → Attempt U}
    (hf : ∀ g, ¬ leaving g → g ∈ (s.attempts h).waiters → g ∈ (f (s.attempts h)).waiters) :
    Quiet leaving s (s.modAttempt h f) := by
  refine ⟨Nat.le_refl _, fun _ _ hh _ => hh, fun k _ g hg hm => ?_⟩
  by_cases hk : k = h
  · subst hk
    rw [attempts_modAttempt_self]
    exact hf g hg hm
  · rwa [attempts_modAttempt_ne hk]

theorem quiet_quits {quit : Nat → Bool} (hq : Quits quit s s') : Quiet leaving s s' := by
  refine ⟨Nat.le_of_eq hq.nextAttempt.symm, fun r h hh _ => ?_, fun h _ g _ hm => ?_⟩
  · rw [hq.left] at hh
    exact (List.mem_filter.mp hh).1
  · rcases hq.attempts h with he | ⟨-, silent, he⟩
    · rwa [he]
    · rwa [he]

theorem quiet_storeNow {by' : Option Nat} : Quiet leaving s (storeNow o s r by').1 := by
  by_cases ho : o.hasStore = true
  case neg =>
    simp only [storeNow, ho, Bool.not_false, if_true]
    exact quiet_modRec fun h hh _ => hh
  case pos =>
    rw [storeNow_eq ho]
    refine ⟨Nat.le_succ _, fun q h hh hlt => ?_, fun h hlt g _ hm => ?_⟩
    · by_cases hq : q = r
      · subst hq
        rw [recs_modRec_self] at hh
        rcases List.mem_append.mp hh with hh | hh
        · exact hh
        · rw [List.mem_singleton.mp hh] at hlt
          exact absurd hlt (Nat.lt_irrefl _)
      · rwa [recs_modRec_ne hq] at hh
    · rw [attempts_modRec, attempts_addAttempt_lt hlt]
      exact hm

theorem quiet_move {late : State U → Nat → Prop} (hi : Tracked o s)
    (hm : Move o False hold late s s') : Quiet leaving s s' := by
  cases hm with
  | aside ha =>
    refine ⟨Nat.le_of_eq ha.nextAttempt.symm, fun r h hh _ => ?_, fun h _ g _ hg => ?_⟩
    · rwa [ha.recs] at hh
    · rwa [ha.attempts]
  | idle hf => exact quiet_modRec fun h hh _ => hf.inflight ▸ hh
  | waiters w hf => exact hf.elim
  | create _ _ _ =>
    refine ⟨Nat.le_refl _, fun q h hh _ => ?_, fun _ _ _ _ hg => hg⟩
    by_cases hq : q = s.nextRec
    · rw [hq] at hh
      simp [TopicRecord.fresh] at hh
    · rwa [recs_addRec_ne hq] at hh
  | capture by' _ => exact quiet_storeNow
  | fire _ => exact quiet_modRec fun h hh _ => hh
  | giveUp hin _ => exact quiet_quits (quits_abandon hi hin)
  | unload => exact quiet_quits (quits_unload hi)
  | destroy hd => exact quiet_quits (quits_destroy hi hd)
  | dispatch hs =>
    obtain ⟨-, rfl⟩ := by simpa [dispatch] using hs
    refine quiet_modAttempt fun g _ hm => ?_
    split <;> exact hm
  | answer hs =>
    obtain ⟨-, rfl⟩ := by simpa [answer] using hs
    exact quiet_modAttempt fun g _ hm => hm
  | leave _ _ => exact quiet_modRec fun h hh _ => (List.mem_filter.mp hh).1
  | report _ _ _ | settle out _ _ _ _ => exact quiet_modAttempt fun g _ hm => hm
  | @refuse h out _ _ _ _ =>
    obtain ⟨due, hdue⟩ := keepDirty_eq
    rw [hdue]
    have hset : Quiet leaving s (settleAs s h out) := quiet_modAttempt fun g _ hm => hm
    exact hset.trans (quiet_modRec fun h hh _ => hh)
  | chainSettle hs =>
    obtain ⟨-, hs⟩ := by simpa [chainSettle] using hs
    split at hs
    · cases hs
      exact quiet_modAttempt fun g _ hm => hm
    · contradiction

theorem quiet_moves {late : State U → Nat → Prop} (hi : Tracked o s)
    (hm : Moves o False hold late s s') : Quiet leaving s s' := by
  have hboth : Tracked o s' ∧ Quiet leaving s s' := by
    induction hm with
    | refl => exact ⟨hi, .refl⟩
    | tail _ hm ih => exact ⟨tracked_move ih.1 hm, ih.2.trans (quiet_move ih.1 hm)⟩
  exact hboth.2

theorem quiet_finish : Quiet (· = f) s (finish o s f) := by
  have hone : ∀ (t : State U) q, Quiet (· = f) t (forgetWaiter t f q) := by
    intro t q
    refine List.foldlRecOn _ _ .refl
      fun t' ht h _ => ht.trans (quiet_modAttempt fun g hg hm => ?_)
    exact List.mem_filter.mpr ⟨hm, by simpa using hg⟩
  have hall : Quiet (· = f) s
      ((s.flushes f).targets.foldl (fun s t => forgetWaiter s f t.2) s) :=
    List.foldlRecOn _ _ .refl
      fun t' ht w _ => ht.trans (hone t' w.2)
  exact { hall with }

theorem pending_finish (g : Nat) : ((finish o s f).flushes g).pending = (s.flushes g).pending := by
  rw [flushes_finish]
  by_cases hg : g = f
  · subst hg
    simp
  · rw [Function.update_of_ne hg]

theorem joined_finish (hj : Joined s) (hnone : (s.flushes f).pending = []) :
    Joined (finish o s f) := by
  refine joined_of_quiet _ hj quiet_finish fun g w hw => ?_
  rw [pending_finish] at hw
  refine ⟨hw, ?_⟩
  rintro rfl
  rw [hnone] at hw
  contradiction

/-- The loop of `flushOne`. -/
theorem join_spec (hs : List Nat) (s : State U) :
    let t := hs.foldl (fun s h => s.modAttempt h fun a =>
      { a with waiters := if f ∈ a.waiters then a.waiters else a.waiters ++ [f] }) s
    t.recs = s.recs ∧ Quiet (fun _ => False) s t ∧
      ∀ h, h ∈ hs ∨ f ∈ (s.attempts h).waiters → f ∈ (t.attempts h).waiters := by
  induction hs generalizing s with
  | nil => exact ⟨rfl, .refl, fun h hh => hh.resolve_left (by simp)⟩
  | cons k hs ih =>
    have hone : Quiet (fun _ => False) s (s.modAttempt k fun a =>
        { a with waiters := if f ∈ a.waiters then a.waiters else a.waiters ++ [f] }) := by
      refine quiet_modAttempt fun g _ hm => ?_
      split
      · exact hm
      · exact List.mem_append_left _ hm
    obtain ⟨hrecs, hquiet, hjoin⟩ := ih (s.modAttempt k fun a =>
      { a with waiters := if f ∈ a.waiters then a.waiters else a.waiters ++ [f] })
    refine ⟨hrecs, hone.trans hquiet, fun h hh => hjoin h ?_⟩
    by_cases hk : h = k
    · subst hk
      refine .inr ?_
      rw [attempts_modAttempt_self]
      split
      · assumption
      · simp
    · rw [attempts_modAttempt_ne hk]
      exact hh.imp_left fun hm => (List.mem_cons.mp hm).resolve_left hk

/-- `f` joins every store in flight of `r`, and the chain it waits for is of no
later attempt. -/
theorem flushOne_spec (hi : Tracked o s) (hr : s.registered r = true) :
    Quiet (fun _ => False) s (flushOne o s r f).1 ∧
      (∀ h ∈ ((flushOne o s r f).1.recs r).inflight,
        f ∈ ((flushOne o s r f).1.attempts h).waiters) ∧
      (∀ c, (flushOne o s r f).2 = some c → c < (flushOne o s r f).1.nextAttempt) ∧
      Tracked o (flushOne o s r f).1 := by
  have hmoves : Moves o True False (fun _ _ => True) s (flushOne o s r f).1 ∧ _ := moves_flushOne hr
  have htracked := tracked_moves hi hmoves.1
  obtain ⟨hrecs, hquiet, hjoin⟩ := join_spec (f := f) (s.recs r).inflight s
  revert htracked
  unfold flushOne
  dsimp only
  split
  · next hstore =>
    obtain ⟨-, -, ho⟩ := hstore
    refine fun htracked => ⟨hquiet.trans quiet_storeNow, ?_, fun c hc => ?_, htracked⟩
    · rw [storeNow_eq ho]
      intro h hh
      rw [recs_modRec_self] at hh
      rw [attempts_modRec]
      rcases List.mem_append.mp hh with hh | hh
      · have hlt := (hi.owned r h (by rwa [recs_addAttempt, hrecs] at hh)).1
        rw [attempts_addAttempt_lt (Nat.lt_of_lt_of_le hlt hquiet.nextAttempt)]
        exact hjoin h (.inl (by rwa [recs_addAttempt, hrecs] at hh))
      · rw [List.mem_singleton.mp hh]
        simp
    · simp only [storeNow, ho, Bool.not_true, Bool.false_eq_true, if_false,
        Option.some.injEq] at hc ⊢
      rw [← hc]
      exact Nat.lt_succ_self _
  · refine fun htracked => ⟨hquiet, fun h hh => ?_, fun c hc => ?_, htracked⟩
    · rw [hrecs] at hh
      exact hjoin h (.inl hh)
    · exact (htracked.newest r c ((htracked.storing r).symm.trans hc)).1

theorem joined_awaitTarget {t : String × Nat} (hi : Tracked o s) (hj : Joined s)
    (hr : s.registered t.2 = true) :
    Joined (awaitTarget o f s t) ∧ Tracked o (awaitTarget o f s t) := by
  obtain ⟨hquiet, hwaits, hbound, htracked⟩ := flushOne_spec hi hr
  have hold : Joined (flushOne o s t.2 f).1 := by
    refine joined_of_quiet _ hj hquiet fun g w hw => ⟨?_, id⟩
    rwa [flushes_flushOne] at hw
  have haside : Aside True False (flushOne o s t.2 f).1 (awaitTarget o f s t) :=
    aside_modFlush (g := fun fl =>
      { fl with pending := fl.pending ++ [⟨t.1, t.2, (flushOne o s t.2 f).2⟩] }) trivial
  have hmem : ∀ g, ∀ w ∈ ((awaitTarget o f s t).flushes g).pending,
      w ∈ ((flushOne o s t.2 f).1.flushes g).pending ∨
        g = f ∧ w = ⟨t.1, t.2, (flushOne o s t.2 f).2⟩ := by
    intro g w hw
    by_cases hg : g = f
    · subst hg
      simp only [awaitTarget, flushes_modFlush_self, List.mem_append, List.mem_singleton] at hw
      exact hw.imp_right fun hw => ⟨rfl, hw⟩
    · simp only [awaitTarget, flushes_modFlush_ne hg] at hw
      exact .inl hw
  refine ⟨⟨fun g w hw c hc => ?_, fun g w hw c hc h hh hle => ?_⟩, tracked_aside htracked haside⟩
  · rw [haside.nextAttempt]
    rcases hmem g w hw with hw | ⟨rfl, rfl⟩
    · exact hold.bounded g w hw c hc
    · exact hbound c hc
  · rcases hmem g w hw with hw | ⟨rfl, rfl⟩
    · exact hold.waits g w hw c hc h hh hle
    · exact hwaits h hh

theorem joined_awaitAll {targets : List (String × Nat)} (hi : Tracked o s) (hj : Joined s)
    (hr : ∀ t ∈ targets, s.registered t.2 = true) : Joined (targets.foldl (awaitTarget o f) s) := by
  induction targets generalizing s with
  | nil => exact hj
  | cons t ts ih =>
    obtain ⟨hone, htracked⟩ := joined_awaitTarget hi hj (hr t (by simp))
    obtain ⟨-, hreg⟩ : Moves o True False (fun _ _ => True) s (flushOne o s t.2 f).1 ∧ _ :=
      moves_flushOne (hr t (by simp))
    exact ih htracked hone fun t' ht' =>
      (hreg t'.2).trans (hr t' (List.mem_cons_of_mem _ ht'))

theorem joined_persistNow {topic : Option String} {timeout : Option (Option Nat)}
    (hi : Tracked o s) (hj : Joined s) : Joined (persistNow o s topic timeout) := by
  have hrun : ∀ targets d, (∀ t ∈ targets, s.registered t.2 = true) →
      Joined (runFlush o s targets d) := by
    intro targets d hreg
    unfold runFlush
    dsimp only
    generalize hs₀ : ({ s with
      flushes := _
      nextFlush := _ } : State U) = s₀
    have hi₀ : Tracked o s₀ := hs₀ ▸ { hi with }
    have hj₀ : Joined s₀ := by
      refine joined_of_quiet (fun _ => False) hj ?_ fun g w hw => ⟨?_, id⟩
      · rw [← hs₀]
        exact ⟨Nat.le_refl _, fun _ _ hh _ => hh, fun _ _ _ _ hg => hg⟩
      · rw [← hs₀] at hw
        by_cases hg : g = s.nextFlush
        · subst hg
          simp at hw
        · simpa [Function.update_of_ne hg] using hw
    have hawait : Joined (targets.foldl (awaitTarget o s.nextFlush) s₀) :=
      joined_awaitAll hi₀ hj₀ fun t ht => hs₀ ▸ hreg t ht
    split
    · next hempty =>
      refine joined_finish hawait ?_
      rw [List.isEmpty_iff.mp hempty, ← hs₀]
      simp
    · refine joined_of_quiet (fun _ => False) hawait
        ⟨Nat.le_refl _, fun _ _ hh _ => hh, fun _ _ _ _ hg => hg⟩ fun g w hw => ⟨?_, id⟩
      by_cases hg : g = s.nextFlush
      · subst hg
        rwa [flushes_modFlush_self] at hw
      · rwa [flushes_modFlush_ne hg] at hw
  refine hrun _ _ fun t ht => ?_
  cases topic with
  | some name =>
    obtain ⟨r, hr, rfl⟩ : ∃ r, s.topics.get? name = some r ∧ (name, r) = t := by
      simpa using ht
    exact hi.named.registered hr
  | none => exact hi.named.registered (JsMap.mem_entries_iff.mp ht)

theorem joined_flushReact {topic : String} (hj : Joined s)
    (hs : flushReact o s f topic = some s') : Joined s' := by
  unfold flushReact at hs
  split at hs
  · contradiction
  split at hs
  · contradiction
  rename_i out _
  have hmark : Joined (s.modFlush f fun fl => { fl with
      pending := fl.pending.filter fun w => w.topic ≠ topic
      outcomes := fl.outcomes ++ [(topic, .stored out)] }) := by
    refine joined_of_quiet (fun _ => False) hj
      ⟨Nat.le_refl _, fun _ _ hh _ => hh, fun _ _ _ _ hg => hg⟩ fun g w hw => ⟨?_, id⟩
    by_cases hg : g = f
    · subst hg
      rw [flushes_modFlush_self] at hw
      exact (List.mem_filter.mp hw).1
    · rwa [flushes_modFlush_ne hg] at hw
  dsimp only at hs
  split at hs
  · next hempty =>
    exact Option.some.inj hs ▸ joined_finish hmark (List.isEmpty_iff.mp hempty)
  · exact Option.some.inj hs ▸ hmark

theorem quiet_expiring (he : Expiring o f s t) : Quiet (· = f) s t := by
  refine ⟨Nat.le_of_eq he.nextAttempt.symm, fun r h hh _ => he.inflight r h hh,
    fun h _ g hg hm => ?_⟩
  have hmem : g ∈ (s.attempts h).waiters.filter (· ≠ f) :=
    List.mem_filter.mpr ⟨hm, by simpa using hg⟩
  rw [← he.others] at hmem
  exact (List.mem_filter.mp hmem).1

theorem joined_flushDeadline (hi : Tracked o s) (hj : Joined s)
    (hs : flushDeadline o s f = some s') : Joined s' := by
  unfold flushDeadline at hs
  split at hs
  · contradiction
  obtain ⟨-, ⟨⟩⟩ := Option.ite_none_right_eq_some.mp hs
  obtain ⟨hexp, -⟩ := expiring_timeOutAll False (s.flushes f).pending
    (Expiring.refl hi)
  have hquiet := quiet_expiring hexp
  have hwaits : Joined (((s.flushes f).pending.foldl (timeOut o f) s).modFlush f
      fun fl => { fl with pending := [] }) := by
    refine joined_of_quiet _ hj (hquiet.trans
      ⟨Nat.le_refl _, fun _ _ hh _ => hh, fun _ _ _ _ hg => hg⟩) fun g w hw => ?_
    by_cases hg : g = f
    · subst hg
      rw [flushes_modFlush_self] at hw
      contradiction
    · rw [flushes_modFlush_ne hg, flushes_timeOutAll, Function.update_of_ne hg] at hw
      exact ⟨hw, hg⟩
  refine joined_finish hwaits ?_
  rw [flushes_modFlush_self]

variable [DecidableEq U] {yjs : Yjs U}

theorem joined_next {a : Action U} (hi : Tracked o s) (hj : Joined s)
    (hs : (machine o yjs).next s a = some s') : Joined s' := by
  cases ha : flushing a with
  | true =>
    cases a with
    | persistNow topic timeout => exact Option.some.inj hs ▸ joined_persistNow hi hj
    | flushReact f topic => exact joined_flushReact hj hs
    | flushDeadline f => exact joined_flushDeadline hi hj hs
    | _ => contradiction
  | false =>
    refine joined_of_quiet (fun _ => False) hj ?_ fun g w hw => ⟨?_, id⟩
    · by_cases he : ∃ topic u, a = .applyUpdate topic u
      · obtain ⟨topic, u, rfl⟩ := he
        cases hs
        rcases applyUpdate_cases (fun _ _ => True) hi.named with hm | ⟨t, he, hm⟩
        · exact quiet_moves hi hm
        refine Quiet.trans ?_ (quiet_moves (tracked_edit hi he) hm)
        cases he with
        | @mk r v _ _ =>
          have hacc : Quiet (fun _ => False) s (s.accept r v) :=
            quiet_modRec fun h hh _ => hh
          unfold scheduleStore
          split
          · exact hacc
          · exact hacc.trans (quiet_modRec fun h hh _ => hh)
      · have hm := next_moves (fun _ _ => True) hi.named (fun f hf => by
            rw [hf] at ha
            contradiction) (fun topic u hu => he ⟨topic, u, hu⟩) hs
        rw [ha] at hm
        exact quiet_moves hi (by simpa using hm)
    · rwa [flushes_next ha hs] at hw

theorem joined_run {ok : State U → Action U → Prop} {as : List (Action U)}
    (h : (machine o yjs).Runs ok as s) : Joined s :=
  h.invariant_of tracked_run ⟨by simp [machine, State.init], by simp [machine, State.init]⟩
    fun _ _ _ hi hj _ hs => joined_next hi hj hs

end Joining

/-! ## serialised stores -/

/-- The host has the call, has not answered, and its answer is still trusted. -/
def Attempt.Outstanding (a : Attempt U) : Prop := a.abandoned = false ∧ a.phase = .issued

/-- A step that is no flush deadline giving up on a store behind one it
keeps. -/
def Serial (s : State U) (a : Action U) : Prop := ∀ f, a = .flushDeadline f → ¬ Overtakes s f

section Serialised

variable [DecidableEq U] {o : Options} {yjs : Yjs U} {s s' : State U} {f h : Nat}

theorem ordered_next {a : Action U} (hi : Tracked o s) (ho : Ordered s) (hok : Serial s a)
    (hs : (machine o yjs).next s a = some s') : Ordered s' := by
  by_cases he : ∃ topic u, a = .applyUpdate topic u
  · obtain ⟨topic, u, rfl⟩ := he
    cases hs
    rcases applyUpdate_cases First hi.named with hm | ⟨t, he, hm⟩
    · exact ordered_moves hi ho hm
    · exact ordered_moves (tracked_edit hi he) (ordered_edit ho he) hm
  · refine ordered_moves hi ho (next_moves First hi.named (fun f hf => ?_)
      (fun topic u hu => he ⟨topic, u, hu⟩) hs)
    exact moves_flushDeadline_first hi (hok f hf) (by rw [hf] at hs; exact hs)

theorem ordered_run {as : List (Action U)} (h : (machine o yjs).Runs Serial as s) : Ordered s :=
  h.invariant_of tracked_run (fun _ hlt => absurd hlt (Nat.not_lt_zero _))
    fun _ _ _ hi ho hok hs => ordered_next hi ho hok hs

omit [DecidableEq U] in
theorem outstanding_unique (hi : Tracked o s) (ho : Ordered s) {g : Nat} (hg : g < s.nextAttempt)
    (hh : h < s.nextAttempt) (hog : (s.attempts g).Outstanding) (hoh : (s.attempts h).Outstanding)
    (htopic : (s.recs (s.attempts g).record).topic = (s.recs (s.attempts h).record).topic) :
    g = h := by
  have hreg : ∀ {k}, k < s.nextAttempt → (s.attempts k).Outstanding →
      s.topics.get? (s.recs (s.attempts k).record).topic = some (s.attempts k).record := by
    intro k hk hok
    rw [← registered_eq_true]
    by_contra hgone
    have hin := hi.waiting k hk ⟨hok.1, .inr hok.2⟩
    rw [hi.idle _ (by simpa using hgone)] at hin
    contradiction
  have hrec : (s.attempts g).record = (s.attempts h).record := by
    have := hreg hg hog
    rw [htopic, hreg hh hoh] at this
    exact (Option.some.inj this).symm
  have hno : ∀ {g h}, h < s.nextAttempt → (s.attempts g).Outstanding →
      (s.attempts h).Outstanding → (s.attempts g).record = (s.attempts h).record → ¬ g < h :=
    fun hlt hog hoh hr hgh =>
      ho _ hlt (.inr (by simp [hoh.2])) _ hgh hr ⟨hog.1, .inr hog.2⟩
  have h1 := hno hh hog hoh hrec
  have h2 := hno hg hoh hog hrec.symm
  omega

omit [DecidableEq U] in
theorem issued_in_order (hi : Tracked o s) (ho : Ordered s) (hs : dispatch s h = some s')
    (hissued : (s'.attempts h).phase = .issued) {g : Nat} (hg : g < s.nextAttempt)
    (hrec : (s.attempts g).record = (s.attempts h).record)
    (hleft : (s.attempts g).phase ≠ .queued) :
    g < h ∧ (s.attempts g).blob <+: (s.attempts h).blob := by
  simp only [dispatch] at hs
  split at hs
  · next hc =>
    obtain ⟨hlt, hqueued, -⟩ := hc
    cases hs
    rw [attempts_modAttempt_self] at hissued
    have ha : (s.attempts h).abandoned = false := by
      split at hissued
      · contradiction
      · next ha => simpa using ha
    have hgh : g < h := by
      rcases Nat.lt_trichotomy g h with hlt' | rfl | hgt
      · exact hlt'
      · exact absurd hqueued hleft
      · exact absurd ⟨ha, .inl hqueued⟩ (ho g hg (.inr hleft) h hgt hrec.symm)
    exact ⟨hgh, hi.blobs h hlt g hgh hrec⟩
  · contradiction

omit [DecidableEq U] in
theorem leaveInflight_eq (hi : Tracked o s) (ha : (s.attempts h).abandoned = true) :
    leaveInflight s h = s := by
  have hout : h ∉ (s.recs (s.attempts h).record).inflight := fun hin => by
    have := (hi.owned _ h hin).2.2.1
    rw [ha] at this
    contradiction
  have hsame : (s.recs (s.attempts h).record).inflight.filter (· ≠ h) =
      (s.recs (s.attempts h).record).inflight :=
    List.filter_eq_self.mpr fun g hg => by
      have : g ≠ h := by
        rintro rfl
        exact hout hg
      simpa using this
  simp only [leaveInflight, State.modRec, hsame, Function.update_eq_self]

omit [DecidableEq U] in
theorem react_abandoned (hi : Tracked o s) (ha : (s.attempts h).abandoned = true)
    (hs : react o s h = some s') :
    s'.recs = s.recs ∧ s'.topics = s.topics ∧ s'.flushes = s.flushes := by
  have hleave := leaveInflight_eq hi ha
  unfold react at hs
  split at hs
  · split at hs
    · cases hs
      simp only [onResolved, ha, if_true, hleave]
      exact ⟨rfl, rfl, rfl⟩
    · cases hs
      simp only [onResolved, ha, if_true, hleave]
      exact ⟨rfl, rfl, rfl⟩
    · cases hs
      simp only [onRejected, hleave]
      split <;> exact ⟨rfl, rfl, rfl⟩
    · cases hs
      simp only [afterReport, ha, if_true]
      exact ⟨rfl, rfl, rfl⟩
    · contradiction
  · contradiction

omit [DecidableEq U] in
theorem flushReact_abandoned (hi : Tracked o s) {topic : String} {w : Wait}
    (hw : (s.flushes f).pending.find? (fun w => w.topic = topic) = some w)
    (hchain : w.chain = some h) (ha : (s.attempts h).abandoned = true)
    (hs : flushReact o s f topic = some s') :
    (s'.flushes f).outcomes = (s.flushes f).outcomes ++ [(topic, .stored .failed)] := by
  have hvalue : s.chainValue w.chain = some .failed := by
    rw [hchain]
    exact hi.released h ha
  simp only [flushReact, hw, hvalue] at hs
  split at hs
  · cases hs
    rw [flushes_finish, Function.update_self, flushes_modFlush_self]
  · cases hs
    rw [flushes_modFlush_self]

omit [DecidableEq U] in
theorem abandoned_by_deadline (hi : Tracked o s) (hj : Joined s)
    (hs : flushDeadline o s f = some s') (hbefore : (s.attempts h).abandoned = false)
    (hafter : (s'.attempts h).abandoned = true) {g c : Nat} (hg : g ≠ f) {w : Wait}
    (hw : w ∈ (s.flushes g).pending) (hrec : w.record = (s.attempts h).record)
    (hchain : w.chain = some c) : c < h := by
  unfold flushDeadline at hs
  split at hs
  · contradiction
  split at hs
  · cases hs
    obtain ⟨hexp, -⟩ := expiring_timeOutAll False (o := o) (f := f) (s.flushes f).pending
      (Expiring.refl hi)
    have hfinish : ∀ t : State U, ((finish o t f).attempts h).abandoned =
        (t.attempts h).abandoned := by
      intro t
      exact List.foldlRecOn (motive := fun t' : State U =>
          (t'.attempts h).abandoned = (t.attempts h).abandoned) _ _ rfl
        fun t' ht w' _ => List.foldlRecOn (motive := fun t'' : State U =>
            (t''.attempts h).abandoned = (t.attempts h).abandoned) _ _ ht
          fun t'' ht' k _ => by
            by_cases hk : h = k
            · subst hk
              rw [attempts_modAttempt_self]
              exact ht'
            · rw [attempts_modAttempt_ne hk]
              exact ht'
    rw [hfinish] at hafter
    obtain ⟨⟨-, honly⟩, hin⟩ := hexp.abandoned h hbefore hafter
    by_contra hle
    have hjoin := hj.waits g w hw c hchain h (hrec ▸ hin) (Nat.le_of_not_lt hle)
    have : g ∈ (s.attempts h).waiters.filter (· ≠ f) :=
      List.mem_filter.mpr ⟨hjoin, by simpa using hg⟩
    rw [honly] at this
    contradiction
  · contradiction

/-- What serialised stores are: one trusted call per topic with the host at any
time, issued in capture order, each blob extending the ones issued before; the
late answer of an abandoned attempt changes no record and is no durable
outcome; and a deadline gives up on no store that another flush waits on. -/
structure Serialised (o : Options) (yjs : Yjs U) (s : State U) : Prop where
  one_call : ∀ g < s.nextAttempt, ∀ h < s.nextAttempt, (s.attempts g).Outstanding →
    (s.attempts h).Outstanding →
    (s.recs (s.attempts g).record).topic = (s.recs (s.attempts h).record).topic → g = h
  in_order : ∀ h s', (machine o yjs).next s (.dispatch h) = some s' →
    (s'.attempts h).phase = .issued → ∀ g < s.nextAttempt,
    (s.attempts g).record = (s.attempts h).record → (s.attempts g).phase ≠ .queued →
    g < h ∧ (s.attempts g).blob <+: (s.attempts h).blob
  late_answer : ∀ h s' a, (s.attempts h).abandoned = true →
    (a = .react h ∨ a = .chainSettle h ∨ ∃ ans, a = .answer h ans) →
    (machine o yjs).next s a = some s' →
    s'.recs = s.recs ∧ s'.topics = s.topics ∧ s'.flushes = s.flushes
  late_report : ∀ f topic w h s', (s.attempts h).abandoned = true →
    (s.flushes f).pending.find? (fun w => w.topic = topic) = some w → w.chain = some h →
    (machine o yjs).next s (.flushReact f topic) = some s' →
    (s'.flushes f).outcomes = (s.flushes f).outcomes ++ [(topic, .stored .failed)]
  last_waiter : ∀ f s' h, (machine o yjs).next s (.flushDeadline f) = some s' →
    (s.attempts h).abandoned = false → (s'.attempts h).abandoned = true →
    ∀ g ≠ f, ∀ w ∈ (s.flushes g).pending, w.record = (s.attempts h).record →
    ∀ c, w.chain = some c → c < h

/-- **Serialised stores**: along every run in which no flush deadline gives up
on a store behind one that it keeps. -/
theorem serialised_run {as : List (Action U)} (h : (machine o yjs).Runs Serial as s) :
    Serialised o yjs s := by
  have hi := tracked_run h
  have ho := ordered_run h
  have hj := joined_run h
  constructor
  case one_call => exact fun g hg k hk hog hok => outstanding_unique hi ho hg hk hog hok
  case in_order => exact fun k s' hs hissued g hg => issued_in_order hi ho hs hissued hg
  case late_answer =>
    rintro k s' a ha (rfl | rfl | ⟨ans, rfl⟩) hs
    · exact react_abandoned hi ha hs
    · change chainSettle s k = some s' at hs
      obtain ⟨-, hs⟩ := by simpa [chainSettle] using hs
      split at hs
      · cases hs
        exact ⟨rfl, rfl, rfl⟩
      · contradiction
    · change answer s k ans = some s' at hs
      obtain ⟨-, rfl⟩ := by simpa [answer] using hs
      exact ⟨rfl, rfl, rfl⟩
  case late_report => exact fun f topic w k s' ha hw hc hs => flushReact_abandoned hi hw hc ha hs
  case last_waiter =>
    exact fun f s' k hs hb ha g hg w hw hr c hc => abandoned_by_deadline hi hj hs hb ha hg hw hr hc

end Serialised

/-! ## two runs -/

section Traces

instance (s : State U) (f : Nat) : Decidable (Overtakes s f) :=
  inferInstanceAs (Decidable (∃ w ∈ (s.flushes f).pending, ∃ h ∈ (s.recs w.record).inflight,
    ∃ g ∈ (s.recs w.record).inflight, g < h ∧
      (f ∈ (s.attempts h).waiters ∧ (s.attempts h).waiters.filter (· ≠ f) = []) ∧
      ¬ (f ∈ (s.attempts g).waiters ∧ (s.attempts g).waiters.filter (· ≠ f) = [])))

/-- The guard of a serial run, evaluated. -/
def serial (s : State Nat) : Action Nat → Bool
  | .flushDeadline f => !decide (Overtakes s f)
  | _ => true

theorem serial_sound (s : State Nat) (a : Action Nat) (h : serial s a) : Serial s a := by
  rintro f rfl
  simpa [serial] using h

/-- A flush whose deadline gives up on the only store in flight; the retry is
issued and lands, then the late answer comes. -/
def retriedRun : List (Action Nat) :=
  opened ++ [.applyUpdate "t" 1, .persistNow none (some (some 100)), .dispatch 0, .tick 100,
    .flushDeadline 0, .tick 10000, .timer 0, .dispatch 1, .answer 1 (.resolved true), .react 1,
    .answer 0 (.resolved true), .react 0]

theorem serialised_run_example : ∃ s : State Nat,
    (machine {} numbers).Runs Serial retriedRun s ∧ Serialised {} numbers s := by
  obtain ⟨s, hs⟩ : ∃ s, (machine {} numbers).execIf serial (machine {} numbers).init retriedRun =
    some s := ⟨_, rfl⟩
  have hrun := runs_of_execIf serial_sound hs
  exact ⟨s, hrun, serialised_run hrun⟩

/-- Store 0 is issued and a patient flush waits on it.  A second edit is
captured by a flush with little time, which gives up on store 1 and not on
store 0; the chain of store 1 is released, so the retry is issued at once. -/
def overtakingRun : List (Action Nat) :=
  opened ++ [.applyUpdate "t" 1, .persistNow none (some none), .dispatch 0, .applyUpdate "t" 2,
    .persistNow none (some (some 100)), .tick 100, .flushDeadline 1, .tick 10000, .timer 0,
    .dispatch 2]

/-- Two calls that nobody has given up on are with the host at once, for one
topic. -/
theorem overtaking_stores :
    ¬ ∀ (as : List (Action Nat)) (s : State Nat), (machine {} numbers).Runs Any as s →
      ∀ g < s.nextAttempt, ∀ h < s.nextAttempt, (s.attempts g).Outstanding →
        (s.attempts h).Outstanding →
        (s.recs (s.attempts g).record).topic = (s.recs (s.attempts h).record).topic → g = h := by
  intro h
  obtain ⟨s, hs⟩ : ∃ s, (machine {} numbers).exec (machine {} numbers).init overtakingRun = some s :=
    ⟨_, rfl⟩
  have hrun := runs_of_exec hs
  cases hs
  have := h _ _ hrun 0 (by decide +kernel) 2 (by decide +kernel) ⟨by decide +kernel, by decide +kernel⟩
    ⟨by decide +kernel, by decide +kernel⟩ (by decide +kernel)
  contradiction

end Traces

end BunServe.Crdt
