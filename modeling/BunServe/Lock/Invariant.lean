import BunServe.Lock
import Mathlib.Data.List.Basic
import Mathlib.Data.List.Nodup

/-!
# BunServe.Lock.Invariant

The invariant of the lock, and one preservation lemma per operation.

`advance` ends with `states.delete(key)`, which names the key and not the
object being released, so a holder from before a `clear` deletes whatever
object its key is registered to when it finishes.  The invariant is kept by
every operation except that one: `inv_release` needs the key to be registered
to the finishing section's own object, or to none.

It has four layers.  `Registry` ties the registered objects to the sections
running on them, `Queues` says who waits where, `Starts` orders the calls, and
`Accounts` places every call: settled, running or waiting.
-/

namespace BunServe.Lock

open List (mem_append mem_singleton)

/-! ## the layers -/

/-- `c` is waiting, not cancelled, in the object its key is registered to. -/
def Waiting (s : State) (c : Call) : Prop :=
  ∃ ref, s.states.get? c.key = some ref ∧
    ∃ w ∈ (s.heap ref).queue, w.call = c ∧ w.cancelled = false

/-- `c` is in the queue its key is registered to, cancelled or not. -/
def Queued (s : State) (c : Call) : Prop :=
  ∃ ref, s.states.get? c.key = some ref ∧ ∃ w ∈ (s.heap ref).queue, w.call = c

/-- `c` is running its section. -/
def Running (s : State) (c : Call) : Prop := ∃ h ∈ s.holders, h.call = c

/-- The promise of `c` has settled. -/
def Settled (s : State) (c : Call) : Prop := c ∈ s.settled.map Prod.fst

/-- The sections of one key called between the same two `clear`s start in call
order. -/
def InCallOrder (s : State) : Prop :=
  s.started.Pairwise fun c c' => c.key = c'.key → c.gen = c'.gen → c.id < c'.id

/-- Registered objects and the sections running on them. -/
structure Registry (s : State) : Prop where
  fresh : ∀ k r, s.states.get? k = some r → r < s.nextState
  running : ∀ k r, s.states.get? k = some r → (s.heap r).running = true
  owner : ∀ k r, s.states.get? k = some r →
    ∃ h ∈ s.holders, h.state = r ∧ h.call.key = k ∧ h.call.gen = s.clears
  current : ∀ h ∈ s.holders, h.call.gen = s.clears → s.states.get? h.call.key = some h.state
  stale : ∀ h ∈ s.holders, h.call.gen ≠ s.clears → ∀ k, s.states.get? k ≠ some h.state
  old : ∀ h ∈ s.holders, h.state < s.nextState
  single : ∀ h ∈ s.holders, ∀ h' ∈ s.holders, h.state = h'.state → h = h'

/-- The queues: a registered object holds this generation's calls of its key,
in call order and behind every started one; an abandoned object holds only
cancelled waiters. -/
structure Queues (s : State) : Prop where
  queued : ∀ k r, s.states.get? k = some r → ∀ w ∈ (s.heap r).queue,
    w.call ∈ s.calls ∧ w.call.key = k ∧ w.call.gen = s.clears
  dead : ∀ r, (∀ k, s.states.get? k ≠ some r) → ∀ w ∈ (s.heap r).queue, w.cancelled = true
  order : ∀ r, (s.heap r).queue.Pairwise fun w w' => w.call.id < w'.call.id
  ahead : ∀ k r, s.states.get? k = some r → ∀ c ∈ s.started, c.key = k → c.gen = s.clears →
    ∀ w ∈ (s.heap r).queue, c.id < w.call.id

/-- The calls and the order they start in. -/
structure Starts (s : State) : Prop where
  ids : s.calls.map Call.id = List.range s.calls.length
  gens : ∀ c ∈ s.calls, c.gen ≤ s.clears
  starts : InCallOrder s
  startedCalls : ∀ c ∈ s.started, c ∈ s.calls
  holderStarted : ∀ h ∈ s.holders, h.call ∈ s.started
  holders : (s.holders.map fun h => h.call.id).Nodup

/-- Where every call is.  `hole` is a call that has been made and not yet
placed. -/
structure Accounts (hole : Option Call) (s : State) : Prop where
  once : (s.settled.map Prod.fst).Nodup
  settledCalls : ∀ c, Settled s c → c ∈ s.calls
  placed : ∀ c ∈ s.calls, some c ≠ hole → Settled s c ∨ Running s c ∨ Waiting s c
  unsettled : ∀ c, Settled s c → ¬ Running s c ∧ ¬ Waiting s c
  unplaced : ∀ c, hole = some c → c ∈ s.calls ∧ ¬ Settled s c ∧ ¬ Running s c ∧ ¬ Waiting s c

/-- `c` is the latest call and nothing has happened to it yet. -/
structure Newest (s : State) (c : Call) : Prop where
  gen : c.gen = s.clears
  last : ∀ d ∈ s.calls, d ≠ c → d.id < c.id
  notStarted : c ∉ s.started
  notQueued : ¬ Queued s c

/-- The invariant of the lock. -/
structure Inv (hole : Option Call) (s : State) : Prop extends
  Registry s, Queues s, Starts s, Accounts hole s

/-! ## reading the invariant -/

section Reading

variable {s : State} {hole : Option Call}

theorem Starts.call_inj (hi : Starts s) {c c' : Call} (hc : c ∈ s.calls) (hc' : c' ∈ s.calls)
    (h : c.id = c'.id) : c = c' :=
  List.inj_on_of_nodup_map (hi.ids ▸ List.nodup_range) hc hc' h

theorem Starts.call_lt (hi : Starts s) {c : Call} (hc : c ∈ s.calls) : c.id < s.calls.length := by
  have : c.id ∈ List.range s.calls.length := hi.ids ▸ List.mem_map_of_mem hc
  exact List.mem_range.mp this

theorem Starts.holder_inj (hi : Starts s) {h h' : Holder} (hh : h ∈ s.holders)
    (hh' : h' ∈ s.holders) (he : h.call.id = h'.call.id) : h = h' :=
  List.inj_on_of_nodup_map hi.holders hh hh' he

theorem Starts.holder_call (hi : Starts s) {h : Holder} (hh : h ∈ s.holders) :
    h.call ∈ s.calls := hi.startedCalls _ (hi.holderStarted h hh)

theorem Newest.started_lt {c d : Call} (hn : Newest s c) (hi : Starts s) (hd : d ∈ s.started) :
    d.id < c.id := hn.last d (hi.startedCalls d hd) fun h => hn.notStarted (h ▸ hd)

theorem Registry.key_inj (hi : Registry s) {k k' : String} {r : Nat}
    (h : s.states.get? k = some r) (h' : s.states.get? k' = some r) : k = k' := by
  obtain ⟨g, hg, hr, hk, -⟩ := hi.owner k r h
  obtain ⟨g', hg', hr', hk', -⟩ := hi.owner k' r h'
  have := hi.single g hg g' hg' (hr.trans hr'.symm)
  rw [← hk, ← hk', this]

theorem Queues.not_started (hi : Queues s) {k : String} {r : Nat} (hr : s.states.get? k = some r)
    {w : Waiter} (hw : w ∈ (s.heap r).queue) : w.call ∉ s.started := fun hc =>
  have hq := hi.queued k r hr w hw
  absurd (hi.ahead k r hr w.call hc hq.2.1 hq.2.2 w hw) (Nat.lt_irrefl _)

theorem Queues.waiting (hi : Queues s) {k : String} {r : Nat} (hr : s.states.get? k = some r)
    {w : Waiter} (hw : w ∈ (s.heap r).queue) (hl : w.cancelled = false) : Waiting s w.call := by
  have hq := hi.queued k r hr w hw
  exact ⟨r, by rw [hq.2.1]; exact hr, w, hw, rfl, hl⟩

end Reading

theorem inv_init : Inv none State.init := by
  constructor <;> constructor <;> simp [State.init, InCallOrder, Settled]

/-! ## making and settling a call -/

theorem inv_addCall {s : State} (hi : Inv none s) (key : String) :
    Inv (some ⟨s.calls.length, key, s.clears⟩)
      { s with calls := s.calls ++ [⟨s.calls.length, key, s.clears⟩] } := by
  have hnew : (⟨s.calls.length, key, s.clears⟩ : Call) ∉ s.calls := fun h =>
    absurd (hi.call_lt h) (Nat.lt_irrefl _)
  refine { hi with queued := ?_, ids := ?_, gens := ?_, startedCalls := ?_, settledCalls := ?_,
                   placed := ?_, unplaced := ?_ }
  · intro k r hr w hw
    have := hi.queued k r hr w hw
    exact ⟨List.mem_append_left _ this.1, this.2⟩
  · simp [hi.ids, List.range_succ]
  · intro c hc
    rcases List.mem_append.mp hc with hc | hc
    · exact hi.gens c hc
    · obtain rfl := List.mem_singleton.mp hc
      exact Nat.le_refl _
  · exact fun c hc => List.mem_append_left _ (hi.startedCalls c hc)
  · exact fun c hc => List.mem_append_left _ (hi.settledCalls c hc)
  · intro c hc hne
    rcases List.mem_append.mp hc with hc | hc
    · exact hi.placed c hc (by simp)
    · exact absurd (by rw [List.mem_singleton.mp hc]) hne
  · intro c hc
    cases hc
    refine ⟨by simp, fun h => hnew (hi.settledCalls _ h), ?_, ?_⟩
    · rintro ⟨h, hh, hhc⟩
      exact hnew (hhc ▸ hi.holder_call hh)
    · rintro ⟨r, hr, w, hw, hwc, -⟩
      exact hnew (hwc ▸ (hi.queued _ r hr w hw).1)

theorem newest_addCall {s : State} (hi : Inv none s) (key : String) :
    Newest { s with calls := s.calls ++ [⟨s.calls.length, key, s.clears⟩] }
      ⟨s.calls.length, key, s.clears⟩ := by
  have hnew : (⟨s.calls.length, key, s.clears⟩ : Call) ∉ s.calls := fun h =>
    absurd (hi.call_lt h) (Nat.lt_irrefl _)
  refine ⟨rfl, fun d hd hne => ?_, fun h => hnew (hi.startedCalls _ h), ?_⟩
  · rcases List.mem_append.mp hd with hd | hd
    · exact hi.call_lt hd
    · exact absurd (List.mem_singleton.mp hd) hne
  · rintro ⟨r, hr, w, hw, hwc⟩
    exact hnew (hwc ▸ (hi.queued _ r hr w hw).1)

@[simp] theorem settled_settlePromise {s : State} {c d : Call} {o : Outcome} :
    Settled (settlePromise s c o) d ↔ Settled s d ∨ d = c := by
  simp [Settled, settlePromise]

theorem inv_settlePromise {s : State} {c : Call} (hi : Inv (some c) s) (o : Outcome) :
    Inv none (settlePromise s c o) := by
  obtain ⟨hc, hset, hrun, hwait⟩ := hi.unplaced c rfl
  refine { hi with once := ?_, settledCalls := ?_, placed := ?_, unsettled := ?_, unplaced := ?_ }
  · simp only [settlePromise, List.map_append, List.map_cons, List.map_nil]
    exact List.nodup_append.mpr ⟨hi.once, by simp, fun a ha b hb hab => hset (by
      rw [mem_singleton] at hb; rw [← hb, ← hab]; exact ha)⟩
  · intro d hd
    rcases settled_settlePromise.mp hd with hd | rfl
    · exact hi.settledCalls d hd
    · exact hc
  · intro d hd _
    by_cases hdc : d = c
    · exact .inl (settled_settlePromise.mpr (.inr hdc))
    · rcases hi.placed d hd (by simpa using hdc) with h | h | h
      · exact .inl (settled_settlePromise.mpr (.inl h))
      · exact .inr (.inl h)
      · exact .inr (.inr h)
  · intro d hd
    rcases settled_settlePromise.mp hd with hd | rfl
    · exact hi.unsettled d hd
    · exact ⟨hrun, hwait⟩
  · simp

/-! ## starting a call -/

/-- A call that follows every started call of its key and generation starts in
order, whatever object it starts on and whichever sections have finished. -/
theorem Starts.start {s s' : State} {c : Call} {hs : List Holder} {ref : Nat} (hi : Starts s)
    (hc : c ∈ s.calls) (hstart : c ∉ s.started)
    (hlast : ∀ d ∈ s.started, d.key = c.key → d.gen = c.gen → d.id < c.id)
    (hsub : hs.Sublist s.holders) (hcalls : s'.calls = s.calls) (hclears : s'.clears = s.clears)
    (hstarted : s'.started = s.started ++ [c]) (hholders : s'.holders = hs ++ [⟨c, ref⟩]) :
    Starts s' := by
  constructor
  case ids => rw [hcalls]; exact hi.ids
  case gens => rw [hcalls, hclears]; exact hi.gens
  case starts =>
    rw [InCallOrder, hstarted]
    refine List.pairwise_append.mpr ⟨hi.starts, by simp, fun d hd e he => ?_⟩
    rw [List.mem_singleton.mp he]
    exact hlast d hd
  case startedCalls =>
    intro d hd
    rw [hstarted, mem_append, mem_singleton] at hd
    rw [hcalls]
    rcases hd with hd | rfl
    · exact hi.startedCalls d hd
    · exact hc
  case holderStarted =>
    intro h hh
    rw [hholders, mem_append, mem_singleton] at hh
    rw [hstarted, mem_append, mem_singleton]
    rcases hh with hh | rfl
    · exact .inl (hi.holderStarted h (hsub.subset hh))
    · exact .inr rfl
  case holders =>
    rw [hholders, List.map_append, List.map_cons, List.map_nil]
    refine List.nodup_append.mpr ⟨(hsub.map _).nodup hi.holders, by simp, fun a ha b hb hab => ?_⟩
    rw [mem_singleton] at hb
    obtain ⟨h, hh, rfl⟩ := List.mem_map.mp ha
    have := hi.call_inj (hi.holder_call (hsub.subset hh)) hc (hab.trans hb)
    exact hstart (this ▸ hi.holderStarted h (hsub.subset hh))

/-! ## starting on a fresh object -/

section StartNew

variable {s : State} {c : Call}

theorem get?_startNew {k : String} {r : Nat} : (startNew s c).states.get? k = some r ↔
    (k = c.key ∧ r = s.nextState) ∨ (k ≠ c.key ∧ s.states.get? k = some r) := by
  simp only [startNew, runHead, JsMap.get?_set]
  by_cases h : k = c.key <;> simp [h, eq_comm]

theorem heap_startNew_self : (startNew s c).heap s.nextState = ⟨true, []⟩ := by
  simp [startNew, runHead]

theorem heap_startNew_ne {r : Nat} (h : r ≠ s.nextState) : (startNew s c).heap r = s.heap r := by
  simp [startNew, runHead, h]

theorem mem_holders_startNew {h : Holder} :
    h ∈ (startNew s c).holders ↔ h ∈ s.holders ∨ h = ⟨c, s.nextState⟩ := by
  simp [startNew, runHead]

theorem mem_started_startNew {d : Call} : d ∈ (startNew s c).started ↔ d ∈ s.started ∨ d = c := by
  simp [startNew, runHead]

theorem Registry.ne_of_unregistered (hi : Registry s) (hk : s.states.get? c.key = none)
    {k : String} {r : Nat} (h : s.states.get? k = some r) : k ≠ c.key ∧ r ≠ s.nextState :=
  ⟨fun he => by simp [he, hk] at h, Nat.ne_of_lt (hi.fresh k r h)⟩

theorem registry_startNew (hi : Registry s) (hgen : c.gen = s.clears)
    (hk : s.states.get? c.key = none) : Registry (startNew s c) := by
  have hne : ∀ {k r}, s.states.get? k = some r → k ≠ c.key ∧ r ≠ s.nextState :=
    hi.ne_of_unregistered hk
  constructor
  case fresh =>
    intro k r hr
    rcases get?_startNew.mp hr with ⟨-, rfl⟩ | ⟨-, hr⟩
    · exact Nat.lt_succ_self _
    · exact Nat.lt_succ_of_lt (hi.fresh k r hr)
  case running =>
    intro k r hr
    rcases get?_startNew.mp hr with ⟨-, rfl⟩ | ⟨-, hr⟩
    · rw [heap_startNew_self]
    · rw [heap_startNew_ne (hne hr).2]
      exact hi.running k r hr
  case owner =>
    intro k r hr
    rcases get?_startNew.mp hr with ⟨rfl, rfl⟩ | ⟨-, hr⟩
    · exact ⟨⟨c, s.nextState⟩, mem_holders_startNew.mpr (.inr rfl), rfl, rfl, hgen⟩
    · obtain ⟨h, hh, hrest⟩ := hi.owner k r hr
      exact ⟨h, mem_holders_startNew.mpr (.inl hh), hrest⟩
  case current =>
    intro h hh hg
    rcases mem_holders_startNew.mp hh with hh | rfl
    · have := hi.current h hh hg
      exact get?_startNew.mpr (.inr ⟨(hne this).1, this⟩)
    · exact get?_startNew.mpr (.inl ⟨rfl, rfl⟩)
  case stale =>
    intro h hh hg k hr
    rcases mem_holders_startNew.mp hh with hh | rfl
    · rcases get?_startNew.mp hr with ⟨-, he⟩ | ⟨-, hr⟩
      · exact absurd (hi.old h hh) (by rw [he]; exact Nat.lt_irrefl _)
      · exact hi.stale h hh hg k hr
    · exact hg hgen
  case old =>
    intro h hh
    rcases mem_holders_startNew.mp hh with hh | rfl
    · exact Nat.lt_succ_of_lt (hi.old h hh)
    · exact Nat.lt_succ_self _
  case single =>
    intro h hh h' hh' he
    rcases mem_holders_startNew.mp hh with hh | rfl <;>
      rcases mem_holders_startNew.mp hh' with hh' | rfl
    · exact hi.single h hh h' hh' he
    · exact absurd (hi.old h hh) (by rw [he]; exact Nat.lt_irrefl _)
    · exact absurd (hi.old h' hh') (by rw [← he]; exact Nat.lt_irrefl _)
    · rfl

theorem queues_startNew (hi : Registry s) (hq : Queues s) (hk : s.states.get? c.key = none) :
    Queues (startNew s c) := by
  have hne : ∀ {k r}, s.states.get? k = some r → k ≠ c.key ∧ r ≠ s.nextState :=
    hi.ne_of_unregistered hk
  constructor
  case queued =>
    intro k r hr
    rcases get?_startNew.mp hr with ⟨-, rfl⟩ | ⟨-, hr⟩
    · simp [heap_startNew_self]
    · rw [heap_startNew_ne (hne hr).2]
      exact hq.queued k r hr
  case dead =>
    intro r hr
    by_cases h : r = s.nextState
    · subst h; simp [heap_startNew_self]
    · rw [heap_startNew_ne h]
      exact hq.dead r fun k hk' => hr k (get?_startNew.mpr (.inr ⟨(hne hk').1, hk'⟩))
  case order =>
    intro r
    by_cases h : r = s.nextState
    · subst h; simp [heap_startNew_self]
    · rw [heap_startNew_ne h]
      exact hq.order r
  case ahead =>
    intro k r hr d hd hdk hdg
    rcases get?_startNew.mp hr with ⟨-, rfl⟩ | ⟨hkc, hr⟩
    · simp [heap_startNew_self]
    · rw [heap_startNew_ne (hne hr).2]
      rcases mem_started_startNew.mp hd with hd | rfl
      · exact hq.ahead k r hr d hd hdk hdg
      · exact absurd hdk.symm hkc

theorem waiting_startNew (hi : Registry s) (hk : s.states.get? c.key = none) {d : Call} :
    Waiting (startNew s c) d ↔ Waiting s d := by
  have hne : ∀ {k r}, s.states.get? k = some r → k ≠ c.key ∧ r ≠ s.nextState :=
    hi.ne_of_unregistered hk
  constructor
  · rintro ⟨r, hr, w, hw, hwd⟩
    rcases get?_startNew.mp hr with ⟨-, rfl⟩ | ⟨-, hr⟩
    · simp [heap_startNew_self] at hw
    · rw [heap_startNew_ne (hne hr).2] at hw
      exact ⟨r, hr, w, hw, hwd⟩
  · rintro ⟨r, hr, w, hw, hwd⟩
    exact ⟨r, get?_startNew.mpr (.inr ⟨(hne hr).1, hr⟩), w,
      by rwa [heap_startNew_ne (hne hr).2], hwd⟩

theorem running_startNew {d : Call} : Running (startNew s c) d ↔ Running s d ∨ d = c := by
  simp [Running, mem_holders_startNew, eq_comm]

theorem inv_startNew (hi : Inv (some c) s) (hn : Newest s c) (hk : s.states.get? c.key = none) :
    Inv none (startNew s c) := by
  obtain ⟨hc, hset, -, -⟩ := hi.unplaced c rfl
  have hstarts : Starts (startNew s c) :=
    hi.toStarts.start hc hn.notStarted (fun d hd _ _ => hn.started_lt hi.toStarts hd)
      (List.Sublist.refl _) rfl rfl rfl rfl
  refine { registry_startNew hi.toRegistry hn.gen hk, queues_startNew hi.toRegistry hi.toQueues hk,
           hstarts with
           once := hi.once, settledCalls := hi.settledCalls, placed := ?_, unsettled := ?_,
           unplaced := by simp }
  · intro d hd _
    by_cases hdc : d = c
    · exact .inr (.inl (running_startNew.mpr (.inr hdc)))
    · rcases hi.placed d hd (by simpa using hdc) with h | h | h
      · exact .inl h
      · exact .inr (.inl (running_startNew.mpr (.inl h)))
      · exact .inr (.inr ((waiting_startNew hi.toRegistry hk).mpr h))
  · intro d hd
    refine ⟨fun h => ?_, fun h => (hi.unsettled d hd).2 ((waiting_startNew hi.toRegistry hk).mp h)⟩
    rcases running_startNew.mp h with h | rfl
    · exact (hi.unsettled d hd).1 h
    · exact hset hd

end StartNew

/-! ## editing the queue of a registered object -/

section SetQueue

variable {s : State} {k : String} {ref : Nat} {q : List Waiter}

@[simp] theorem heap_setQueue_self : (setQueue s ref q).heap ref = { s.heap ref with queue := q } := by
  simp [setQueue]

theorem heap_setQueue_ne {r : Nat} (h : r ≠ ref) : (setQueue s ref q).heap r = s.heap r := by
  simp [setQueue, h]

theorem registry_setQueue (hi : Registry s) : Registry (setQueue s ref q) := by
  refine { hi with running := fun k r hr => ?_ }
  by_cases h : r = ref
  · subst h
    simpa using hi.running k r hr
  · rw [heap_setQueue_ne h]
    exact hi.running k r hr

theorem queues_setQueue (hi : Registry s) (hq : Queues s) (hk : s.states.get? k = some ref)
    (hall : ∀ w ∈ q, w.call ∈ s.calls ∧ w.call.key = k ∧ w.call.gen = s.clears)
    (hahead : ∀ c ∈ s.started, c.key = k → c.gen = s.clears → ∀ w ∈ q, c.id < w.call.id)
    (hord : q.Pairwise fun w w' => w.call.id < w'.call.id) : Queues (setQueue s ref q) := by
  constructor
  case queued =>
    intro k' r hr
    by_cases h : r = ref
    · subst h
      obtain rfl := hi.key_inj hk hr
      rw [heap_setQueue_self]
      exact hall
    · rw [heap_setQueue_ne h]
      exact hq.queued k' r hr
  case dead =>
    intro r hr
    have h : r ≠ ref := fun h => hr k (h ▸ hk)
    rw [heap_setQueue_ne h]
    exact hq.dead r hr
  case order =>
    intro r
    by_cases h : r = ref
    · subst h
      simpa using hord
    · rw [heap_setQueue_ne h]
      exact hq.order r
  case ahead =>
    intro k' r hr c hc hck hcg
    by_cases h : r = ref
    · subst h
      obtain rfl := hi.key_inj hk hr
      simpa using hahead c hc hck hcg
    · rw [heap_setQueue_ne h]
      exact hq.ahead k' r hr c hc hck hcg

theorem waiting_setQueue (hi : Registry s) (hk : s.states.get? k = some ref)
    (hall : ∀ w ∈ q, w.call.key = k) {d : Call} :
    Waiting (setQueue s ref q) d ↔
      (∃ w ∈ q, w.call = d ∧ w.cancelled = false) ∨ (d.key ≠ k ∧ Waiting s d) := by
  constructor
  · rintro ⟨r, hr, w, hw, hwd⟩
    by_cases h : r = ref
    · subst h
      exact .inl ⟨w, by simpa using hw, hwd⟩
    · rw [heap_setQueue_ne h] at hw
      refine .inr ⟨fun he => h ?_, r, hr, w, hw, hwd⟩
      subst he
      exact Option.some.inj (hr.symm.trans hk)
  · rintro (⟨w, hw, rfl, hl⟩ | ⟨hd, r, hr, w, hw, hwd⟩)
    · exact ⟨ref, by rw [hall w hw]; exact hk, w, by simpa using hw, rfl, hl⟩
    · have h : r ≠ ref := fun h => hd (hi.key_inj (h ▸ hr) hk)
      exact ⟨r, hr, w, by rw [heap_setQueue_ne h]; exact hw, hwd⟩

/-- Who waits for `k` is the live part of its queue. -/
theorem waiting_iff_of_key (hk : s.states.get? k = some ref) {d : Call} (hd : d.key = k) :
    Waiting s d ↔ ∃ w ∈ (s.heap ref).queue, w.call = d ∧ w.cancelled = false := by
  subst hd
  constructor
  · rintro ⟨r, hr, w⟩
    obtain rfl := Option.some.inj (hr.symm.trans hk)
    exact w
  · exact fun h => ⟨ref, hk, h⟩

theorem inv_enqueue {c : Call} (hi : Inv (some c) s) (hn : Newest s c)
    (hk : s.states.get? c.key = some ref) (timer : Bool) :
    Inv none (setQueue s ref ((s.heap ref).queue ++ [⟨c, timer, false⟩])) := by
  obtain ⟨hc, hset, -, -⟩ := hi.unplaced c rfl
  have hall : ∀ w ∈ (s.heap ref).queue ++ [⟨c, timer, false⟩],
      w.call ∈ s.calls ∧ w.call.key = c.key ∧ w.call.gen = s.clears := by
    intro w hw
    rcases List.mem_append.mp hw with hw | hw
    · exact hi.queued _ ref hk w hw
    · rw [List.mem_singleton.mp hw]
      exact ⟨hc, rfl, hn.gen⟩
  have hahead : ∀ d ∈ s.started, d.key = c.key → d.gen = s.clears →
      ∀ w ∈ (s.heap ref).queue ++ [⟨c, timer, false⟩], d.id < w.call.id := by
    intro d hd hdk hdg w hw
    rcases List.mem_append.mp hw with hw | hw
    · exact hi.ahead _ ref hk d hd hdk hdg w hw
    · rw [List.mem_singleton.mp hw]
      exact hn.started_lt hi.toStarts hd
  have hord : ((s.heap ref).queue ++ [(⟨c, timer, false⟩ : Waiter)]).Pairwise
      fun w w' => w.call.id < w'.call.id := by
    refine List.pairwise_append.mpr ⟨hi.order ref, by simp, fun w hw v hv => ?_⟩
    rw [List.mem_singleton.mp hv]
    exact hn.last _ (hi.queued _ ref hk w hw).1 fun h => hn.notQueued ⟨ref, hk, w, hw, h⟩
  have hwaiting : ∀ d, Waiting (setQueue s ref ((s.heap ref).queue ++ [⟨c, timer, false⟩])) d ↔
      Waiting s d ∨ d = c := by
    intro d
    rw [waiting_setQueue hi.toRegistry hk fun w hw => (hall w hw).2.1]
    by_cases hd : d.key = c.key
    · rw [waiting_iff_of_key hk hd]
      simp only [hd, ne_eq, not_true_eq_false, false_and, or_false, mem_append,
        mem_singleton]
      constructor
      · rintro ⟨w, hw | rfl, hwd⟩
        · exact .inl ⟨w, hw, hwd⟩
        · exact .inr hwd.1.symm
      · rintro (⟨w, hw, hwd⟩ | rfl)
        · exact ⟨w, .inl hw, hwd⟩
        · exact ⟨_, .inr rfl, rfl, rfl⟩
    · have : d ≠ c := fun h => hd (h ▸ rfl)
      simp only [hd, this, ne_eq, not_false_eq_true, true_and, or_false, or_iff_right_iff_imp]
      rintro ⟨w, hw, rfl, -⟩
      exact absurd (hall w hw).2.1 hd
  refine { registry_setQueue hi.toRegistry, hi.toStarts,
           queues_setQueue hi.toRegistry hi.toQueues hk hall hahead hord with
           once := hi.once, settledCalls := hi.settledCalls, placed := ?_, unsettled := ?_,
           unplaced := by simp }
  · intro d hd _
    by_cases hdc : d = c
    · exact .inr (.inr ((hwaiting d).mpr (.inr hdc)))
    · rcases hi.placed d hd (by simpa using hdc) with h | h | h
      · exact .inl h
      · exact .inr (.inl h)
      · exact .inr (.inr ((hwaiting d).mpr (.inl h)))
  · intro d hd
    refine ⟨(hi.unsettled d hd).1, fun h => ?_⟩
    rcases (hwaiting d).mp h with h | rfl
    · exact (hi.unsettled d hd).2 h
    · exact hset hd

theorem registered_of_live {hole : Option Call} (hi : Inv hole s) {w : Waiter}
    (hw : w ∈ (s.heap ref).queue) (hl : w.cancelled = false) :
    s.states.get? w.call.key = some ref := by
  by_cases h : ∃ k, s.states.get? k = some ref
  · obtain ⟨k, hk⟩ := h
    rw [(hi.queued k ref hk w hw).2.1]
    exact hk
  · have := hi.dead ref (fun k hk => h ⟨k, hk⟩) w hw
    rw [hl] at this
    contradiction

/-- The queue with the waiter of call `id` given up on. -/
def cancelIn (id : Nat) (q : List Waiter) : List Waiter :=
  q.map fun v => if v.call.id = id then v.cancel else v

theorem mem_cancelIn {id : Nat} {v : Waiter} : v ∈ cancelIn id q ↔
    ∃ u ∈ q, v = if u.call.id = id then u.cancel else u := by
  simp [cancelIn, eq_comm]

theorem call_of_cancelIn {id : Nat} {v : Waiter} (h : v ∈ cancelIn id q) :
    ∃ u ∈ q, v.call = u.call := by
  obtain ⟨u, hu, rfl⟩ := mem_cancelIn.mp h
  exact ⟨u, hu, by split <;> rfl⟩

theorem inv_cancel (hi : Inv none s) {w : Waiter} (hw : w ∈ (s.heap ref).queue)
    (hl : w.cancelled = false) :
    Inv (some w.call) (setQueue s ref (cancelIn w.call.id (s.heap ref).queue)) := by
  have hk := registered_of_live hi hw hl
  have hall : ∀ v ∈ cancelIn w.call.id (s.heap ref).queue,
      v.call ∈ s.calls ∧ v.call.key = w.call.key ∧ v.call.gen = s.clears := by
    intro v hv
    obtain ⟨u, hu, hvu⟩ := call_of_cancelIn hv
    rw [hvu]
    exact hi.queued _ ref hk u hu
  have hahead : ∀ c ∈ s.started, c.key = w.call.key → c.gen = s.clears →
      ∀ v ∈ cancelIn w.call.id (s.heap ref).queue, c.id < v.call.id := by
    intro c hc hck hcg v hv
    obtain ⟨u, hu, hvu⟩ := call_of_cancelIn hv
    rw [hvu]
    exact hi.ahead _ ref hk c hc hck hcg u hu
  have hord : (cancelIn w.call.id (s.heap ref).queue).Pairwise
      fun v v' => v.call.id < v'.call.id := by
    refine List.pairwise_map.mpr ((hi.order ref).imp fun {u u'} h => ?_)
    split <;> split <;> exact h
  have hwaiting : ∀ d, Waiting (setQueue s ref (cancelIn w.call.id (s.heap ref).queue)) d ↔
      Waiting s d ∧ d ≠ w.call := by
    intro d
    rw [waiting_setQueue hi.toRegistry hk fun v hv => (hall v hv).2.1]
    by_cases hd : d.key = w.call.key
    · rw [waiting_iff_of_key hk hd]
      simp only [hd, ne_eq, not_true_eq_false, false_and, or_false]
      constructor
      · rintro ⟨v, hv, rfl, hvl⟩
        obtain ⟨u, hu, rfl⟩ := mem_cancelIn.mp hv
        by_cases h : u.call.id = w.call.id
        · simp [h, Waiter.cancel] at hvl
        · simp only [if_neg h] at hvl ⊢
          exact ⟨⟨u, hu, rfl, hvl⟩, fun he => h (congrArg Call.id he)⟩
      · rintro ⟨⟨u, hu, rfl, hul⟩, hne⟩
        have h : u.call.id ≠ w.call.id := fun he => hne
          (hi.call_inj (hi.queued _ ref hk u hu).1 (hi.queued _ ref hk w hw).1 he)
        exact ⟨u, mem_cancelIn.mpr ⟨u, hu, by rw [if_neg h]⟩, rfl, hul⟩
    · have : d ≠ w.call := fun h => hd (h ▸ rfl)
      simp only [hd, this, ne_eq, not_false_eq_true, true_and, and_true, or_iff_right_iff_imp]
      rintro ⟨v, hv, rfl, -⟩
      exact absurd (hall v hv).2.1 hd
  have hwt := hi.waiting hk hw hl
  refine { registry_setQueue hi.toRegistry, hi.toStarts,
           queues_setQueue hi.toRegistry hi.toQueues hk hall hahead hord with
           once := hi.once, settledCalls := hi.settledCalls, placed := ?_, unsettled := ?_,
           unplaced := ?_ }
  · intro d hd hne
    rcases hi.placed d hd (by simp) with h | h | h
    · exact .inl h
    · exact .inr (.inl h)
    · exact .inr (.inr ((hwaiting d).mpr ⟨h, fun he => hne (by rw [he])⟩))
  · exact fun d hd => ⟨(hi.unsettled d hd).1, fun h => (hi.unsettled d hd).2 ((hwaiting d).mp h).1⟩
  · intro c hc
    cases hc
    refine ⟨(hi.queued _ ref hk w hw).1, fun h => (hi.unsettled _ h).2 hwt, ?_,
      fun h => ((hwaiting _).mp h).2 rfl⟩
    rintro ⟨h, hh, hhc⟩
    exact hi.not_started hk hw (hhc ▸ hi.holderStarted h hh)

end SetQueue

/-! ## leaving a section -/

theorem shiftLive_eq_some {q rest : List Waiter} {w : Waiter} (h : shiftLive q = some (w, rest)) :
    w.cancelled = false ∧ ∃ pre, q = pre ++ w :: rest ∧ ∀ v ∈ pre, v.cancelled = true := by
  induction q with
  | nil => simp [shiftLive] at h
  | cons v q ih =>
    rw [shiftLive] at h
    split at h
    · next hv =>
      obtain ⟨hl, pre, rfl, hpre⟩ := ih h
      exact ⟨hl, v :: pre, rfl, by simpa [hv] using hpre⟩
    · next hv =>
      obtain ⟨rfl, rfl⟩ := h
      exact ⟨by simpa using hv, [], rfl, by simp⟩

theorem shiftLive_eq_none {q : List Waiter} : shiftLive q = none ↔ ∀ w ∈ q, w.cancelled = true := by
  induction q with
  | nil => simp [shiftLive]
  | cons v q ih => by_cases hv : v.cancelled <;> simp [shiftLive, hv, ih]

section Leave

variable {s : State} {h : Holder}

/-- The sections left when `h` leaves. -/
theorem mem_leave (hi : Starts s) (hh : h ∈ s.holders) {g : Holder} :
    g ∈ (leave s h.call.id).holders ↔ g ∈ s.holders ∧ g ≠ h := by
  simp only [leave, List.mem_filter, decide_not, Bool.not_eq_eq_eq_not, Bool.not_true,
    decide_eq_false_iff_not, and_congr_right_iff]
  exact fun hg => not_congr ⟨hi.holder_inj hg hh, fun he => he ▸ rfl⟩

/-- The leaving section `h` hands its object over to the call `c`. -/
def handOver (s : State) (h : Holder) (c : Call) (rest : List Waiter) : State :=
  runHead (setQueue (leave s h.call.id) h.state rest) h.state c

theorem mem_handOver (hi : Starts s) (hh : h ∈ s.holders) {c : Call} {rest : List Waiter}
    {g : Holder} : g ∈ (handOver s h c rest).holders ↔
      (g ∈ s.holders ∧ g ≠ h) ∨ g = ⟨c, h.state⟩ := by
  rw [← mem_leave hi hh]
  simp [handOver, runHead, setQueue]

theorem registry_handOver (hi : Registry s) (hs : Starts s) (hh : h ∈ s.holders) {c : Call}
    {rest : List Waiter} (hk : s.states.get? c.key = some h.state) (hgen : c.gen = s.clears) :
    Registry (handOver s h c rest) := by
  have hedit : Registry (setQueue s h.state rest) := registry_setQueue hi
  have hmem := @mem_handOver s h hs hh c rest
  constructor
  case fresh => exact hi.fresh
  case running => exact hedit.running
  case owner =>
    intro k r hr
    obtain ⟨g, hg, rfl, hgk, hgg⟩ := hi.owner k r hr
    by_cases hgh : g = h
    · subst hgh
      exact ⟨⟨c, g.state⟩, hmem.mpr (.inr rfl), rfl, hi.key_inj hk hr, hgen⟩
    · exact ⟨g, hmem.mpr (.inl ⟨hg, hgh⟩), rfl, hgk, hgg⟩
  case current =>
    intro g hg hgg
    rcases hmem.mp hg with ⟨hg, -⟩ | rfl
    · exact hi.current g hg hgg
    · exact hk
  case stale =>
    intro g hg hgg
    rcases hmem.mp hg with ⟨hg, -⟩ | rfl
    · exact hi.stale g hg hgg
    · exact absurd hgen hgg
  case old =>
    intro g hg
    rcases hmem.mp hg with ⟨hg, -⟩ | rfl
    · exact hi.old g hg
    · exact hi.old h hh
  case single =>
    intro g hg g' hg' he
    rcases hmem.mp hg with ⟨hg, hgh⟩ | rfl <;> rcases hmem.mp hg' with ⟨hg', hgh'⟩ | rfl
    · exact hi.single g hg g' hg' he
    · exact absurd (hi.single g hg h hh he) hgh
    · exact absurd (hi.single g' hg' h hh he.symm) hgh'
    · rfl

theorem inv_promote (hi : Inv none s) (hh : h ∈ s.holders) {w : Waiter} {rest : List Waiter}
    (hw : shiftLive (s.heap h.state).queue = some (w, rest)) :
    Inv (some h.call) (handOver s h w.call rest) := by
  obtain ⟨hl, pre, hq, hpre⟩ := shiftLive_eq_some hw
  have hsub : rest.Sublist (s.heap h.state).queue := by
    rw [hq]
    exact ((List.sublist_cons_self w rest).trans (List.sublist_append_right pre _))
  have hwmem : w ∈ (s.heap h.state).queue := by simp [hq]
  have hk := registered_of_live hi hwmem hl
  have hwq := hi.queued _ _ hk w hwmem
  have hord : (w :: rest).Pairwise fun v v' => v.call.id < v'.call.id :=
    (hi.order h.state).sublist (by rw [hq]; exact List.sublist_append_right pre _)
  have hmem := @mem_handOver s h hi.toStarts hh w.call rest
  have hstarts : Starts (handOver s h w.call rest) :=
    hi.toStarts.start hwq.1 (hi.not_started hk hwmem)
      (fun d hd hdk hdg => hi.ahead _ _ hk d hd hdk (hdg.trans hwq.2.2) w hwmem)
      List.filter_sublist rfl rfl rfl rfl
  have hqueues : Queues (handOver s h w.call rest) := by
    have hedit : Queues (setQueue s h.state rest) :=
      queues_setQueue hi.toRegistry hi.toQueues hk
        (fun v hv => hi.queued _ _ hk v (hsub.subset hv))
        (fun c hc hck hcg v hv => hi.ahead _ _ hk c hc hck hcg v (hsub.subset hv))
        (List.pairwise_cons.mp hord).2
    refine { hedit with ahead := fun k r hr c hc hck hcg v hv => ?_ }
    rcases List.mem_append.mp hc with hc | hc
    · exact hedit.ahead k r hr c hc hck hcg v hv
    · rw [mem_singleton] at hc
      subst hc
      obtain rfl := Option.some.inj (hk.symm.trans (hck ▸ hr))
      have hv : v ∈ rest := by simpa [handOver, runHead] using hv
      exact (List.pairwise_cons.mp hord).1 v hv
  have hwaiting : ∀ d, Waiting (handOver s h w.call rest) d ↔ Waiting s d ∧ d ≠ w.call := by
    intro d
    change Waiting (setQueue s h.state rest) d ↔ _
    rw [waiting_setQueue hi.toRegistry hk fun v hv => (hi.queued _ _ hk v (hsub.subset hv)).2.1]
    by_cases hd : d.key = w.call.key
    · rw [waiting_iff_of_key hk hd, hq]
      simp only [hd, ne_eq, not_true_eq_false, false_and, or_false]
      constructor
      · rintro ⟨v, hv, rfl, hvl⟩
        refine ⟨⟨v, by simp [hv], rfl, hvl⟩, fun he => ?_⟩
        have := (List.pairwise_cons.mp hord).1 v hv
        rw [he] at this
        exact absurd this (Nat.lt_irrefl _)
      · rintro ⟨⟨v, hv, rfl, hvl⟩, hne⟩
        rcases List.mem_append.mp hv with hv | hv
        · rw [hpre v hv] at hvl; contradiction
        · rcases List.mem_cons.mp hv with rfl | hv
          · exact absurd rfl hne
          · exact ⟨v, hv, rfl, hvl⟩
    · have : d ≠ w.call := fun h => hd (h ▸ rfl)
      simp only [hd, this, ne_eq, not_false_eq_true, true_and, and_true, or_iff_right_iff_imp]
      rintro ⟨v, hv, rfl, -⟩
      exact absurd (hi.queued _ _ hk v (hsub.subset hv)).2.1 hd
  have hrunning : ∀ d, Running (handOver s h w.call rest) d ↔
      (Running s d ∧ d ≠ h.call) ∨ d = w.call := by
    intro d
    constructor
    · rintro ⟨g, hg, rfl⟩
      rcases hmem.mp hg with ⟨hg, hgh⟩ | rfl
      · exact .inl ⟨⟨g, hg, rfl⟩, fun he => hgh (hi.holder_inj hg hh (congrArg Call.id he))⟩
      · exact .inr rfl
    · rintro (⟨⟨g, hg, rfl⟩, hne⟩ | rfl)
      · exact ⟨g, hmem.mpr (.inl ⟨hg, fun he => hne (he ▸ rfl)⟩), rfl⟩
      · exact ⟨_, hmem.mpr (.inr rfl), rfl⟩
  have hwt := hi.waiting hk hwmem hl
  have hne : h.call ≠ w.call := fun he =>
    hi.not_started hk hwmem (he ▸ hi.holderStarted h hh)
  refine { registry_handOver hi.toRegistry hi.toStarts hh hk hwq.2.2, hqueues, hstarts with
           once := hi.once, settledCalls := hi.settledCalls, placed := ?_, unsettled := ?_,
           unplaced := ?_ }
  · intro d hd hdh
    by_cases hdw : d = w.call
    · exact .inr (.inl ((hrunning d).mpr (.inr hdw)))
    · rcases hi.placed d hd (by simp) with hs | hr | hw
      · exact .inl hs
      · exact .inr (.inl ((hrunning d).mpr (.inl ⟨hr, fun he => hdh (by rw [he])⟩)))
      · exact .inr (.inr ((hwaiting d).mpr ⟨hw, hdw⟩))
  · intro d hd
    refine ⟨fun hr => ?_, fun hw => (hi.unsettled d hd).2 ((hwaiting d).mp hw).1⟩
    rcases (hrunning d).mp hr with hr | rfl
    · exact (hi.unsettled d hd).1 hr.1
    · exact (hi.unsettled _ hd).2 hwt
  · intro c hc
    cases hc
    refine ⟨hi.holder_call hh, fun hs => (hi.unsettled _ hs).1 ⟨h, hh, rfl⟩, fun hr => ?_,
      fun hw => ?_⟩
    · rcases (hrunning _).mp hr with hr | he
      · exact hr.2 rfl
      · exact hne he
    · obtain ⟨r, hr, v, hv, hvc, -⟩ := ((hwaiting _).mp hw).1
      exact hi.not_started hr hv (hvc ▸ hi.holderStarted h hh)

/-- The leaving section `h` releases its key, whose queue has drained.  The
key must be registered to the section's own object or to none. -/
theorem inv_release (hi : Inv none s) (hh : h ∈ s.holders)
    (hq : shiftLive (s.heap h.state).queue = none)
    (hk : ∀ r, s.states.get? h.call.key = some r → r = h.state) :
    Inv (some h.call) (releaseKey (leave s h.call.id) h.call.key h.state) := by
  have hmem := @mem_leave s h hi.toStarts hh
  have hdead := shiftLive_eq_none.mp hq
  -- an entry that survives the deletion names another object
  have hget : ∀ {k r}, (s.states.delete h.call.key).get? k = some r →
      s.states.get? k = some r ∧ k ≠ h.call.key ∧ r ≠ h.state := by
    intro k r hr
    obtain ⟨hne, hr⟩ := JsMap.of_get?_delete hr
    refine ⟨hr, hne, fun he => ?_⟩
    obtain ⟨g, hg, hgr, hgk, -⟩ := hi.owner k r hr
    have := hi.single g hg h hh (hgr.trans he)
    exact hne (by rw [← hgk, this])
  have hheap : ∀ {r}, r ≠ h.state →
      (releaseKey (leave s h.call.id) h.call.key h.state).heap r = s.heap r := by
    intro r hr
    simp [releaseKey, leave, hr]
  have hwaiting : ∀ d, Waiting (releaseKey (leave s h.call.id) h.call.key h.state) d ↔
      Waiting s d := by
    intro d
    constructor
    · rintro ⟨r, hr, w, hw, hwd⟩
      obtain ⟨hr, -, hne⟩ := hget hr
      rw [hheap hne] at hw
      exact ⟨r, hr, w, hw, hwd⟩
    · rintro ⟨r, hr, w, hw, rfl, hl⟩
      have hne : r ≠ h.state := by
        rintro rfl
        rw [hdead w hw] at hl
        contradiction
      have hkey : w.call.key ≠ h.call.key := fun he => hne (hk r (by rw [← he]; exact hr))
      exact ⟨r, (JsMap.get?_delete_ne _ hkey).trans hr, w, by rw [hheap hne]; exact hw, rfl, hl⟩
  have hrunning : ∀ d, Running (releaseKey (leave s h.call.id) h.call.key h.state) d ↔
      Running s d ∧ d ≠ h.call := by
    intro d
    constructor
    · rintro ⟨g, hg, rfl⟩
      obtain ⟨hg, hgh⟩ := hmem.mp hg
      exact ⟨⟨g, hg, rfl⟩, fun he => hgh (hi.holder_inj hg hh (congrArg Call.id he))⟩
    · rintro ⟨⟨g, hg, rfl⟩, hne⟩
      exact ⟨g, hmem.mpr ⟨hg, fun he => hne (he ▸ rfl)⟩, rfl⟩
  constructor
  case toRegistry =>
    constructor
    case fresh => exact fun k r hr => hi.fresh k r (hget hr).1
    case running =>
      intro k r hr
      rw [hheap (hget hr).2.2]
      exact hi.running k r (hget hr).1
    case owner =>
      intro k r hr
      obtain ⟨g, hg, rfl, hgk, hgg⟩ := hi.owner k r (hget hr).1
      exact ⟨g, hmem.mpr ⟨hg, fun he => (hget hr).2.2 (he ▸ rfl)⟩, rfl, hgk, hgg⟩
    case current =>
      intro g hg hgg
      obtain ⟨hg, hgh⟩ := hmem.mp hg
      have hr := hi.current g hg hgg
      have hkey : g.call.key ≠ h.call.key := fun he =>
        hgh (hi.single g hg h hh (hk _ (by rw [← he]; exact hr)))
      exact (JsMap.get?_delete_ne _ hkey).trans hr
    case stale =>
      intro g hg hgg k hr
      exact hi.stale g (hmem.mp hg).1 hgg k (hget hr).1
    case old => exact fun g hg => hi.old g (hmem.mp hg).1
    case single => exact fun g hg g' hg' => hi.single g (hmem.mp hg).1 g' (hmem.mp hg').1
  case toQueues =>
    constructor
    case queued =>
      intro k r hr
      rw [hheap (hget hr).2.2]
      exact hi.queued k r (hget hr).1
    case dead =>
      intro r hr
      by_cases hne : r = h.state
      · subst hne; simp [releaseKey]
      · rw [hheap hne]
        refine hi.dead r fun k hk' => ?_
        by_cases hkk : k = h.call.key
        · exact hne (hk r (hkk ▸ hk'))
        · exact hr k (by rw [releaseKey, JsMap.get?_delete_ne _ hkk]; exact hk')
    case order =>
      intro r
      by_cases hne : r = h.state
      · subst hne; simp [releaseKey]
      · rw [hheap hne]
        exact hi.order r
    case ahead =>
      intro k r hr
      rw [hheap (hget hr).2.2]
      exact hi.ahead k r (hget hr).1
  case toStarts =>
    exact { hi.toStarts with
            holderStarted := fun g hg => hi.holderStarted g (hmem.mp hg).1
            holders := (List.filter_sublist.map _).nodup hi.holders }
  case toAccounts =>
    refine { once := hi.once, settledCalls := hi.settledCalls, placed := ?_, unsettled := ?_,
             unplaced := ?_ }
    · intro d hd hdh
      rcases hi.placed d hd (by simp) with hs | hr | hw
      · exact .inl hs
      · exact .inr (.inl ((hrunning d).mpr ⟨hr, fun he => hdh (by rw [he])⟩))
      · exact .inr (.inr ((hwaiting d).mpr hw))
    · exact fun d hd => ⟨fun hr => (hi.unsettled d hd).1 ((hrunning d).mp hr).1,
        fun hw => (hi.unsettled d hd).2 ((hwaiting d).mp hw)⟩
    · intro c hc
      cases hc
      refine ⟨hi.holder_call hh, fun hs => (hi.unsettled _ hs).1 ⟨h, hh, rfl⟩,
        fun hr => ((hrunning _).mp hr).2 rfl, fun hw => ?_⟩
      obtain ⟨r, hr, v, hv, hvc, -⟩ := (hwaiting _).mp hw
      exact hi.not_started hr hv (hvc ▸ hi.holderStarted h hh)

end Leave

/-! ## clearing -/

section Clear

variable {s : State}

theorem mem_liveWaiters {c : Call} : c ∈ liveWaiters s ↔
    ∃ k r, s.states.get? k = some r ∧ ∃ w ∈ (s.heap r).queue, w.call = c ∧ w.cancelled = false := by
  simp only [liveWaiters, List.mem_flatMap, Prod.exists, JsMap.mem_entries_iff, List.mem_map,
    List.mem_filter, Bool.not_eq_true']
  constructor
  · rintro ⟨k, r, hr, w, ⟨hw, hl⟩, hc⟩
    exact ⟨k, r, hr, w, hw, hc, hl⟩
  · rintro ⟨k, r, hr, w, hw, hc, hl⟩
    exact ⟨k, r, hr, w, ⟨hw, hl⟩, hc⟩

/-- `clear` rejects exactly the calls that wait. -/
theorem mem_liveWaiters_iff_waiting (hi : Queues s) {c : Call} :
    c ∈ liveWaiters s ↔ Waiting s c := by
  rw [mem_liveWaiters]
  constructor
  · rintro ⟨k, r, hr, w, hw, rfl, hl⟩
    exact hi.waiting hr hw hl
  · rintro ⟨r, hr, hw⟩
    exact ⟨c.key, r, hr, hw⟩

theorem nodup_liveWaiters (hq : Queues s) : (liveWaiters s).Nodup := by
  refine List.nodup_flatMap.mpr ⟨fun e he => ?_, ?_⟩
  · have hord := (hq.order e.2).filter fun w => !w.cancelled
    exact List.pairwise_map.mpr (hord.imp fun hlt he => Nat.ne_of_lt hlt (congrArg Call.id he))
  have hkeys : s.states.entries.Pairwise fun e e' => e.1 ≠ e'.1 :=
    List.pairwise_map.mp s.states.nodup
  refine hkeys.imp_of_mem fun {e e'} he he' hne c hc hc' => hne ?_
  obtain ⟨w, hw, rfl⟩ := List.mem_map.mp hc
  obtain ⟨v, hv, hvw⟩ := List.mem_map.mp hc'
  have hkw := hq.queued _ _ (JsMap.mem_entries_iff.mp he) w (List.mem_filter.mp hw).1
  have hkv := hq.queued _ _ (JsMap.mem_entries_iff.mp he') v (List.mem_filter.mp hv).1
  rw [← hkw.2.1, ← hkv.2.1, hvw]

theorem mem_heap_clear {r : Nat} {w : Waiter} (h : w ∈ ((clear s).heap r).queue) :
    (∃ v ∈ (s.heap r).queue, w.call = v.call) ∧
      (w.cancelled = true ∨ (∀ k, s.states.get? k ≠ some r) ∧ w ∈ (s.heap r).queue) := by
  simp only [clear] at h
  split at h
  · obtain ⟨v, hv, rfl⟩ := List.mem_map.mp h
    exact ⟨⟨v, hv, rfl⟩, .inl rfl⟩
  · next hr =>
    exact ⟨⟨w, h, rfl⟩, .inr ⟨fun k hk => hr (JsMap.mem_values_iff.mpr ⟨k, hk⟩), h⟩⟩

theorem settled_clear (hq : Queues s) {c : Call} :
    Settled (clear s) c ↔ Settled s c ∨ Waiting s c := by
  rw [← mem_liveWaiters_iff_waiting hq]
  simp [Settled, clear]

theorem not_waiting_clear {c : Call} : ¬ Waiting (clear s) c := by
  rintro ⟨r, hr, -⟩
  simp [clear] at hr

/-- `clear` settles every waiter and abandons every object. -/
theorem inv_clear (hi : Inv none s) : Inv none (clear s) := by
  have hgone : ∀ {k r}, (clear s).states.get? k ≠ some r := by simp [clear]
  constructor
  case toRegistry =>
    refine { fresh := fun k r hr => absurd hr hgone, running := fun k r hr => absurd hr hgone,
             owner := fun k r hr => absurd hr hgone, current := fun h hh hg => ?_,
             stale := fun _ _ _ _ => hgone, old := hi.old, single := hi.single }
    have hle := hi.gens _ (hi.holder_call hh)
    have hlt : h.call.gen = s.clears + 1 := hg
    omega
  case toQueues =>
    refine { queued := fun k r hr => absurd hr hgone, dead := fun r _ w hw => ?_,
             order := fun r => ?_, ahead := fun k r hr => absurd hr hgone }
    · rcases (mem_heap_clear hw).2 with hc | ⟨hr, hw⟩
      · exact hc
      · exact hi.dead r hr w hw
    · simp only [clear]
      split
      · exact List.pairwise_map.mpr ((hi.order r).imp fun h => h)
      · exact hi.order r
  case toStarts =>
    exact { hi.toStarts with gens := fun c hc => Nat.le_succ_of_le (hi.gens c hc) }
  case toAccounts =>
    refine { once := ?_, settledCalls := fun c hc => ?_, placed := fun c hc _ => ?_,
             unsettled := fun c hc => ⟨fun hr => ?_, not_waiting_clear⟩, unplaced := by simp }
    · simp only [clear, List.map_append, List.map_map, Function.comp_def, List.map_id']
      refine List.nodup_append.mpr
        ⟨hi.once, nodup_liveWaiters hi.toQueues, fun a ha b hb hab => ?_⟩
      subst hab
      exact (hi.unsettled a ha).2 ((mem_liveWaiters_iff_waiting hi.toQueues).mp hb)
    · rcases (settled_clear hi.toQueues).mp hc with hc | ⟨r, hr, w, hw, rfl, -⟩
      · exact hi.settledCalls c hc
      · exact (hi.queued _ r hr w hw).1
    · rcases hi.placed c hc (by simp) with hs | hr | hw
      · exact .inl ((settled_clear hi.toQueues).mpr (.inl hs))
      · exact .inr (.inl hr)
      · exact .inl ((settled_clear hi.toQueues).mpr (.inr hw))
    · rcases (settled_clear hi.toQueues).mp hc with hc | ⟨r, hk, w, hw, rfl, -⟩
      · exact (hi.unsettled c hc).1 hr
      · obtain ⟨h, hh, hhc⟩ := hr
        exact hi.not_started hk hw (hhc ▸ hi.holderStarted h hh)

end Clear

end BunServe.Lock
