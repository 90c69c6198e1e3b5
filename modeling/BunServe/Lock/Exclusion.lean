import BunServe.Lock.Invariant

/-!
# BunServe.Lock.Exclusion

What the lock promises, and when it keeps it.

The promises are about the calls made since the last `clear`: their sections
on one key never overlap (`Exclusive`) and start in call order
(`InCallOrder`), every call is settled exactly once (`SettledOnce`), and a
section from before the clear leaves its key alone when it finishes
(`StaleHarmless`).

`Unowned` is the one step that breaks them: a section finishes while its key
is registered to an object it did not start on.  Every other step keeps the
invariant (`inv_next`), so a run without unowned steps keeps every promise
(`promises_of_owned`).  `stale_delete_overlaps` is a run with one such step
that ends with two sections on one key.
-/

namespace BunServe.Lock

open Machine

/-! ## the promises -/

/-- Two sections on one key, both called after the last `clear`, are the same. -/
def Exclusive (s : State) : Prop :=
  ∀ h ∈ s.holders, ∀ h' ∈ s.holders, h.call.key = h'.call.key →
    h.call.gen = s.clears → h'.call.gen = s.clears → h = h'

/-- No promise settles twice, and a call whose promise has not settled is
running, or waits behind a section that runs on the object of its key. -/
def SettledOnce (s : State) : Prop :=
  (s.settled.map Prod.fst).Nodup ∧
    ∀ c ∈ s.calls, Settled s c ∨ Running s c ∨
      (Waiting s c ∧ ∃ h ∈ s.holders, h.call.key = c.key ∧ s.states.get? c.key = some h.state)

/-- If `a` is the end of a section from before the last `clear`, then its key
stays registered as it was and the queue of that object is untouched. -/
def StaleHarmless (s : State) (a : Action) (s' : State) : Prop :=
  ∀ id ok, a = .settle id ok → ∀ h ∈ s.holders, h.call.id = id → h.call.gen < s.clears →
    s'.states.get? h.call.key = s.states.get? h.call.key ∧
      ∀ ref, s.states.get? h.call.key = some ref → s'.heap ref = s.heap ref

/-- What holds of a state, all promises together. -/
structure Promises (s : State) : Prop where
  exclusive : Exclusive s
  inCallOrder : InCallOrder s
  settledOnce : SettledOnce s

/-- A section finishes while its key is registered to an object it did not
start on. -/
def Unowned (s : State) (a : Action) : Prop :=
  ∃ id ok, a = .settle id ok ∧ ∃ h ∈ s.holders, h.call.id = id ∧
    ∃ ref, s.states.get? h.call.key = some ref ∧ ref ≠ h.state

instance (s : State) (a : Action) : Decidable (Unowned s a) :=
  match a with
  | .settle id ok => decidable_of_iff
      (∃ h ∈ s.holders, h.call.id = id ∧ ∃ ref ∈ s.states.get? h.call.key, ref ≠ h.state)
      ⟨fun hu => ⟨id, ok, rfl, hu⟩, fun ⟨_, _, he, hu⟩ => by
        obtain ⟨rfl, rfl⟩ := Action.settle.inj he
        exact hu⟩
  | .withLock _ | .timeout _ _ | .clear => isFalse fun ⟨_, _, he, _⟩ => by contradiction

/-! ## what a step keeps -/

variable {o : Options}

section Step

variable {s s' : State}

theorem inv_withLockOn {c : Call} (hi : Inv (some c) s) (hn : Newest s c)
    (m : MaxWait) : Inv none (withLockOn o s c m) := by
  unfold withLockOn
  cases hk : s.states.get? c.key with
  | none =>
    dsimp only
    split
    · exact inv_settlePromise hi _
    · exact inv_startNew hi hn hk
  | some ref =>
    have hrun := hi.running _ _ hk
    simp only [hrun, Bool.not_true, Bool.false_eq_true, if_false]
    split
    · exact inv_settlePromise hi _
    · exact inv_enqueue hi hn hk _

theorem inv_withLock (hi : Inv none s) (r : Request) : Inv none (withLock o s r) := by
  have hadd := inv_addCall hi (r.key.getD "")
  have hnew := newest_addCall hi (r.key.getD "")
  simp only [withLock]
  split
  · exact inv_settlePromise hadd _
  · exact inv_withLockOn hadd hnew _

theorem inv_timeout {ref id : Nat} (hi : Inv none s) (h : timeout s ref id = some s') :
    Inv none s' := by
  rw [timeout] at h
  split at h
  · contradiction
  · next w hw =>
    have hp := List.find?_some hw
    simp only [decide_eq_true_eq,
      Bool.not_eq_true'] at hp
    obtain ⟨rfl, -, hl⟩ := hp
    cases h
    exact inv_settlePromise (inv_cancel hi (List.mem_of_find?_eq_some hw) hl) _

/-- What `settle` does: the holder found leaves and its promise settles. -/
theorem settle_eq_some {id : Nat} {ok : Bool} (h : settle s id ok = some s') :
    ∃ g ∈ s.holders, g.call.id = id ∧
      s' = settlePromise (advance (leave s id) g.call.key g.state) g.call
        (if ok then .fulfilled else .threw) := by
  rw [settle] at h
  split at h
  · contradiction
  · next g hg =>
    exact ⟨g, List.mem_of_find?_eq_some hg, by simpa using List.find?_some hg,
      (Option.some.inj h).symm⟩

theorem advance_eq_handOver {h : Holder} {w : Waiter} {rest : List Waiter}
    (hq : shiftLive (s.heap h.state).queue = some (w, rest)) :
    advance (leave s h.call.id) h.call.key h.state = handOver s h w.call rest := by
  have : shiftLive ((leave s h.call.id).heap h.state).queue = some (w, rest) := hq
  simp only [advance, this, handOver]

theorem advance_eq_releaseKey {h : Holder} (hq : shiftLive (s.heap h.state).queue = none) :
    advance (leave s h.call.id) h.call.key h.state =
      releaseKey (leave s h.call.id) h.call.key h.state := by
  have : shiftLive ((leave s h.call.id).heap h.state).queue = none := hq
  simp only [advance, this]

theorem inv_settle {id : Nat} {ok : Bool} (hi : Inv none s) (h : settle s id ok = some s')
    (hok : ¬ Unowned s (.settle id ok)) : Inv none s' := by
  obtain ⟨g, hg, rfl, rfl⟩ := settle_eq_some h
  refine inv_settlePromise ?_ _
  cases hq : shiftLive (s.heap g.state).queue with
  | some p =>
    rw [advance_eq_handOver hq]
    exact inv_promote hi hg hq
  | none =>
    rw [advance_eq_releaseKey hq]
    refine inv_release hi hg hq fun r hr => ?_
    by_contra hne
    exact hok ⟨_, ok, rfl, g, hg, rfl, r, hr, hne⟩

/-- **Step lemma**: every step but an unowned one keeps the invariant. -/
theorem inv_next {a : Action} (hi : Inv none s) (hok : ¬ Unowned s a)
    (h : (machine o).next s a = some s') : Inv none s' := by
  cases a with
  | withLock r => exact Option.some.inj h ▸ inv_withLock hi r
  | settle id ok => exact inv_settle hi h hok
  | timeout ref id => exact inv_timeout hi h
  | clear => exact Option.some.inj h ▸ inv_clear hi

end Step

/-- **Run lemma**: the invariant holds along every run without unowned steps. -/
theorem inv_of_runs {as : List Action} {s : State}
    (h : (machine o).Runs (fun s a => ¬ Unowned s a) as s) : Inv none s :=
  h.invariant inv_init fun _ _ _ => inv_next

/-! ## the promises from the invariant -/

section Promises

variable {s s' : State}

theorem Inv.exclusive (hi : Inv none s) : Exclusive s := by
  intro h hh h' hh' hk hg hg'
  have hr := hi.current h hh hg
  have hr' := hi.current h' hh' hg'
  rw [← hk] at hr'
  exact hi.single h hh h' hh' (Option.some.inj (hr.symm.trans hr'))

theorem Inv.settledOnce (hi : Inv none s) : SettledOnce s := by
  refine ⟨hi.once, fun c hc => ?_⟩
  rcases hi.placed c hc (by simp) with hs | hr | hw
  · exact .inl hs
  · exact .inr (.inl hr)
  · obtain ⟨r, hr, -⟩ := id hw
    obtain ⟨h, hh, rfl, hk, -⟩ := hi.owner _ _ hr
    exact .inr (.inr ⟨hw, h, hh, hk, hr⟩)

theorem Inv.promises (hi : Inv none s) : Promises s := ⟨hi.exclusive, hi.starts, hi.settledOnce⟩

theorem SettledOnce.drained (h : SettledOnce s) (hd : s.holders = []) {c : Call}
    (hc : c ∈ s.calls) : Settled s c := by
  rcases h.2 c hc with hs | ⟨g, hg, -⟩ | ⟨-, g, hg, -⟩
  · exact hs
  · simp [hd] at hg
  · simp [hd] at hg

theorem advance_of_stale (hi : Inv none s) {h : Holder} (hh : h ∈ s.holders)
    (hg : h.call.gen < s.clears) :
    advance (leave s h.call.id) h.call.key h.state =
      releaseKey (leave s h.call.id) h.call.key h.state :=
  advance_eq_releaseKey (shiftLive_eq_none.mpr (hi.dead _ (hi.stale h hh (Nat.ne_of_lt hg))))

theorem staleHarmless_iff {a : Action} (hi : Inv none s)
    (h : (machine o).next s a = some s') : StaleHarmless s a s' ↔ ¬ Unowned s a := by
  constructor
  · rintro hsafe ⟨id, ok, rfl, g, hg, rfl, ref, hr, hne⟩
    have hgen : g.call.gen < s.clears := by
      refine Nat.lt_of_le_of_ne (hi.gens _ (hi.holder_call hg)) fun he => hne ?_
      exact Option.some.inj (hr.symm.trans (hi.current g hg he))
    obtain ⟨g', hg', hid, rfl⟩ := settle_eq_some h
    obtain rfl := hi.holder_inj hg' hg hid
    have hkept := (hsafe _ ok rfl g' hg rfl hgen).1
    rw [advance_of_stale hi hg hgen, hr] at hkept
    simp [settlePromise, releaseKey] at hkept
  · rintro hok id ok rfl g hg rfl hgen
    obtain ⟨g', hg', hid, rfl⟩ := settle_eq_some h
    obtain rfl := hi.holder_inj hg' hg hid
    have hnone : s.states.get? g'.call.key = none := by
      cases hr : s.states.get? g'.call.key with
      | none => rfl
      | some ref =>
        refine absurd ⟨_, ok, rfl, g', hg, rfl, ref, hr, ?_⟩ hok
        exact fun he => hi.stale g' hg (Nat.ne_of_lt hgen) _ (he ▸ hr)
    rw [advance_of_stale hi hg hgen]
    refine ⟨by simp [settlePromise, releaseKey, hnone], fun ref hr => ?_⟩
    rw [hnone] at hr
    contradiction

end Promises

/-! ## runs -/

/-- Along every run whose steps are owned the lock keeps its promises, and the
next step is harmless to the key of a stale section exactly when it is owned
too. -/
theorem promises_of_owned (o : Options) {as : List Action} {s : State}
    (h : (machine o).Runs (fun s a => ¬ Unowned s a) as s) :
    Promises s ∧ (s.holders = [] → ∀ c ∈ s.calls, Settled s c) ∧
      ∀ a s', (machine o).next s a = some s' → (StaleHarmless s a s' ↔ ¬ Unowned s a) := by
  have hi := inv_of_runs h
  exact ⟨hi.promises, fun hd c hc => hi.settledOnce.drained hd hc,
    fun a s' hn => staleHarmless_iff hi hn⟩

/-- **No key is left behind.**  Along such a run the map holds an object for exactly the keys
that a section called since the last `clear` is running on, and one object for each of them. -/
theorem held_iff_running (o : Options) {as : List Action} {s : State}
    (h : (machine o).Runs (fun s a => ¬ Unowned s a) as s) (key : String) :
    (s.states.get? key ≠ none ↔ ∃ g ∈ s.holders, g.call.key = key ∧ g.call.gen = s.clears) ∧
      ∀ g ∈ s.holders, ∀ g' ∈ s.holders, s.states.get? key = some g.state →
        s.states.get? key = some g'.state → g = g' := by
  have hi := inv_of_runs h
  refine ⟨⟨fun hne => ?_, ?_⟩, fun g hg g' hg' hs hs' => ?_⟩
  · obtain ⟨r, hr⟩ := Option.ne_none_iff_exists'.mp hne
    obtain ⟨g, hg, -, hkey, hgen⟩ := hi.owner key r hr
    exact ⟨g, hg, hkey, hgen⟩
  · rintro ⟨g, hg, rfl, hgen⟩
    simp [hi.current g hg hgen]
  · exact hi.single g hg g' hg' (Option.some.inj (hs.symm.trans hs'))

def defaults : Options := ⟨⟨1000000, million_pos⟩, ⟨256, keyUnits_pos⟩, ⟨1000, thousand_pos⟩⟩

/-- Section 0 runs across a `clear`, after which section 1 takes the key;
section 0 finishing deletes the entry of section 1, so call 2 starts at once. -/
def staleDelete : List Action :=
  [.withLock ⟨some "k", true, .absent⟩, .clear, .withLock ⟨some "k", true, .absent⟩,
   .settle 0 true, .withLock ⟨some "k", true, .absent⟩]

/-- Not every run keeps the promises: two sections called after the last
`clear` run on one key at once. -/
theorem stale_delete_overlaps :
    ¬ ∀ (o : Options) (as : List Action) (s : State), (machine o).Runs Any as s → Promises s := by
  intro h
  have hrun : (machine defaults).Runs Any staleDelete _ := runs_of_exec rfl
  have he := (h _ _ _ hrun).exclusive ⟨⟨1, "k", 1⟩, 1⟩ (by decide) ⟨⟨2, "k", 1⟩, 2⟩ (by decide)
  exact absurd he (by decide)

/-- The promises on a run through a `clear` whose stale section finishes while
its key is free. -/
theorem promises_of_owned_example : ∃ s,
    (machine defaults).Runs (fun s a => ¬ Unowned s a)
      [.withLock ⟨some "k", true, .absent⟩, .clear, .settle 0 true] s ∧
    Promises s ∧ (s.holders = [] → ∀ c ∈ s.calls, Settled s c) ∧
      ∀ a s', (machine defaults).next s a = some s' → (StaleHarmless s a s' ↔ ¬ Unowned s a) :=
  have hrun : (machine defaults).Runs (fun s a => ¬ Unowned s a) _ _ :=
    runs_of_execIf (fun s a (h : !decide (Unowned s a)) => by simpa using h) rfl
  ⟨_, hrun, promises_of_owned defaults hrun⟩

/-- A section called before a `clear` runs on, and its key has no object in the map. -/
theorem held_iff_running_example : ∃ s,
    (machine defaults).Runs (fun s a => ¬ Unowned s a)
      [.withLock ⟨some "k", true, .absent⟩, .clear, .withLock ⟨some "j", true, .absent⟩] s ∧
    (s.states.get? "k" ≠ none ↔ ∃ g ∈ s.holders, g.call.key = "k" ∧ g.call.gen = s.clears) :=
  have hrun : (machine defaults).Runs (fun s a => ¬ Unowned s a) _ _ :=
    runs_of_execIf (fun s a (h : !decide (Unowned s a)) => by simpa using h) rfl
  ⟨_, hrun, (held_iff_running defaults hrun "k").1⟩

end BunServe.Lock
