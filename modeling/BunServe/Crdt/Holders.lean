import BunServe.Crdt.Loads

/-!
# BunServe.Crdt.Holders

The holders of a topic.

A holder is an acquire that has gone through and has not been released; it
releases by the name of its topic, whatever record that name stands for by
then.  `holders` runs the authority next to its holders, each with the record
it went through on, and keeps the holders apart whose release found their
record forgotten: `drop` documents that those do nothing.

* `holders_counted` — while no such release finds a loaded successor under its
  topic, every record counts its holders, and such a release changes nothing;
* `successor_robbed` — one that does takes the reference of another holder.
-/

namespace BunServe.Crdt

open Machine
open TopicRecord (loaded)

variable {U : Type}

/-! ## holders -/

/-- An authority and its holders. -/
structure Holding (U : Type) where
  auth : State U
  /-- The holders that have not released, by their record. -/
  held : List Nat
  /-- The holders that released once their record was forgotten. -/
  late : List Nat

/-- A holder releases, or something else happens to the authority. -/
inductive HolderAction (U : Type) where
  | release (i : Nat)
  | other (a : Action U)

/-- The acquire at index `i` becomes a holder, if its load is done. -/
def Holding.take (c : Holding U) (i : Nat) (s : State U) : Holding U :=
  match c.auth.acquires[i]? with
  | some r => { c with auth := s, held := if (c.auth.recs r).loaded then c.held ++ [r] else c.held }
  | none => { c with auth := s }

/-- The holder of `r` at index `i` releases its topic. -/
def Holding.give (o : Options) (c : Holding U) (i r : Nat) : Holding U where
  auth := release o c.auth (c.auth.recs r).topic
  held := c.held.eraseIdx i
  late := if c.auth.registered r then c.late else c.late ++ [r]

variable [DecidableEq U]

/-- The authority as its holders use it. -/
def holders (o : Options) (yjs : Yjs U) : Machine (Holding U) (HolderAction U) where
  init := ⟨.init, [], []⟩
  next c
    | .release i => (c.held[i]?).map (c.give o i)
    | .other (.release _) => none
    | .other (.acquired i) => ((machine o yjs).next c.auth (.acquired i)).map (c.take i)
    | .other a => ((machine o yjs).next c.auth a).map fun s => { c with auth := s }

omit [DecidableEq U] in
/-- The topic of `r` stands for another record, which is loaded. -/
def succeeded (s : State U) (r : Nat) : Bool :=
  match s.topics.get? (s.recs r).topic with
  | some q => q ≠ r && (s.recs q).loaded
  | none => false

omit [DecidableEq U] in
/-- No holder releases a topic that now stands for another, loaded record. -/
def Unsucceeded (c : Holding U) : HolderAction U → Prop
  | .release i => ∀ r ∈ c.held[i]?, succeeded c.auth r = false
  | .other _ => True

instance (c : Holding U) (a : HolderAction U) : Decidable (Unsucceeded c a) :=
  match a with
  | .release i => inferInstanceAs (Decidable (∀ r ∈ c.held[i]?, succeeded c.auth r = false))
  | .other _ => inferInstanceAs (Decidable True)

/-! ## counting -/

section Counting

variable {o : Options} {yjs : Yjs U} {c c' : Holding U} {i r : Nat}

omit [DecidableEq U]

/-- Every record counts its holders, and those that released it too late. -/
structure Counted (c : Holding U) : Prop where
  acquires : ∀ q ∈ c.auth.acquires, q < c.auth.nextRec
  held : ∀ q ∈ c.held, q < c.auth.nextRec ∧ (c.auth.recs q).load = .done
  late : ∀ q ∈ c.late, q < c.auth.nextRec ∧ c.auth.registered q = false
  refs : ∀ q < c.auth.nextRec, (c.auth.recs q).refs = c.held.count q + c.late.count q

theorem count_eraseIdx {xs : List Nat} (h : xs[i]? = some r) (q : Nat) :
    xs.count q = (xs.eraseIdx i).count q + if r == q then 1 else 0 := by
  obtain ⟨hlt, rfl⟩ := List.getElem?_eq_some_iff.mp h
  rw [← (List.getElem_cons_eraseIdx_perm hlt).count_eq q, List.count_cons]

theorem Counted.late_eq_zero (hc : Counted c) {q : Nat} (hq : c.auth.registered q = true) :
    c.late.count q = 0 := by
  rw [List.count_eq_zero]
  intro hm
  rw [(hc.late q hm).2] at hq
  contradiction

variable {s : State U}

theorem counted_still (hc : Counted c) (hs : Still c.auth s) : Counted { c with auth := s } := by
  refine ⟨fun q hq => ?_, fun q hq => ?_, fun q hq => ?_, fun q hq => ?_⟩
  · rw [hs.nextRec]
    exact hc.acquires q (hs.acquires ▸ hq)
  · rw [hs.nextRec, hs.load]
    exact hc.held q hq
  · obtain ⟨hlt, hreg⟩ := hc.late q hq
    refine ⟨hs.nextRec ▸ hlt, ?_⟩
    rw [← Bool.not_eq_true] at hreg ⊢
    exact fun h => hreg (hs.registered h)
  · rw [hs.refs]
    exact hc.refs q (hs.nextRec ▸ hq)

/-- One holder of `r` more or less, and its count with it. -/
theorem counted_modRec {f : TopicRecord U → TopicRecord U} {held : List Nat} (hc : Counted c)
    (htopic : (f (c.auth.recs r)).topic = (c.auth.recs r).topic)
    (hload : (f (c.auth.recs r)).load = (c.auth.recs r).load)
    (hheld : ∀ q ∈ held, q < c.auth.nextRec ∧ (c.auth.recs q).load = .done)
    (hrefs : (f (c.auth.recs r)).refs = held.count r + c.late.count r)
    (hothers : ∀ q ≠ r, held.count q = c.held.count q) :
    Counted { c with auth := c.auth.modRec r f, held := held } := by
  have hlevel : Level c.auth (c.auth.modRec r f) := level_modRec htopic hload
  refine ⟨hc.acquires, fun q hq => ?_, fun q hq => ?_, fun q hq => ?_⟩
  · exact ⟨(hheld q hq).1, (hlevel.load q).trans (hheld q hq).2⟩
  · exact ⟨(hc.late q hq).1, (registered_modRec htopic).trans (hc.late q hq).2⟩
  · by_cases hqr : q = r
    · subst hqr
      rw [recs_modRec_self, hrefs]
    · rw [recs_modRec_ne hqr, hc.refs q hq, hothers q hqr]

theorem counted_release (hc : Counted c) (hi : c.held[i]? = some r)
    (hr : c.auth.registered r = true) : Counted (c.give o i r) := by
  have hcount := count_eraseIdx hi
  obtain ⟨hlt, hload⟩ := hc.held r (List.mem_of_getElem? hi)
  have hs := release_loaded (o := o) (registered_eq_true.mp hr) (by simp [loaded, hload])
  have htaken : Counted { c with
      auth := c.auth.modRec r fun rec => { rec with refs := rec.refs - 1 }
      held := c.held.eraseIdx i } := by
    refine counted_modRec hc rfl rfl (fun q hq => hc.held q (List.mem_of_mem_eraseIdx hq)) ?_
      fun q hq => ?_
    · have hrefs := hc.refs r hlt
      have hone := hcount r
      simp only [beq_self_eq_true, if_true] at hone
      dsimp only
      omega
    · simp [hcount q, Ne.symm hq]
  have := counted_still htaken hs
  simpa [Holding.give, hr] using this

theorem give_late (hr : c.auth.registered r = false) (hn : succeeded c.auth r = false) :
    c.give o i r = { c with held := c.held.eraseIdx i, late := c.late ++ [r] } := by
  have hsame : release o c.auth (c.auth.recs r).topic = c.auth := by
    refine release_unloaded fun q hq => ?_
    have hne : q ≠ r := by
      rintro rfl
      rw [registered_eq_true.mpr hq] at hr
      contradiction
    simpa [succeeded, hq, hne] using hn
  simp [Holding.give, hsame, hr]

theorem counted_late (hc : Counted c) (hi : c.held[i]? = some r)
    (hr : c.auth.registered r = false) :
    Counted { c with held := c.held.eraseIdx i, late := c.late ++ [r] } := by
  refine ⟨hc.acquires, fun q hq => hc.held q (List.mem_of_mem_eraseIdx hq), fun q hq => ?_,
    fun q hq => ?_⟩
  · rcases List.mem_append.mp hq with hq | hq
    · exact hc.late q hq
    · rw [List.mem_singleton.mp hq]
      exact ⟨(hc.held r (List.mem_of_getElem? hi)).1, hr⟩
  · have hcount := count_eraseIdx hi q
    have hrefs := hc.refs q hq
    simp only [List.count_append, List.count_singleton]
    omega

theorem counted_loading (hc : Counted c) (hs : Loading r c.auth s)
    (hgone : ∀ q < c.auth.nextRec, c.auth.registered q = false → s.registered q = false) :
    Counted { c with auth := s } := by
  refine ⟨fun q hq => ?_, fun q hq => ?_, fun q hq => ?_, fun q hq => ?_⟩
  · rw [hs.nextRec]
    exact hc.acquires q (hs.acquires ▸ hq)
  · obtain ⟨hlt, hdone⟩ := hc.held q hq
    have hne : q ≠ r := by
      rintro rfl
      have hp := hs.pending
      rw [hdone] at hp
      contradiction
    rw [hs.nextRec, hs.others q hne]
    exact ⟨hlt, hdone⟩
  · obtain ⟨hlt, hreg⟩ := hc.late q hq
    exact ⟨hs.nextRec ▸ hlt, hgone q hlt hreg⟩
  · rw [hs.nextRec] at hq
    rw [← hc.refs q hq]
    by_cases hqr : q = r
    · exact hqr ▸ hs.refs
    · rw [hs.others q hqr]

theorem counted_acquire {topic : String} (hc : Counted c) (hn : Named c.auth) :
    Counted { c with auth := acquire c.auth topic } := by
  cases hd : c.auth.destroyed with
  | true =>
    have hsame : acquire c.auth topic = c.auth := by simp [acquire, hd]
    rw [hsame]
    exact hc
  | false =>
    cases hr : c.auth.topics.get? topic with
    | some r =>
      rw [acquire_joins hd hr]
      have hkeep := counted_still hc (s := c.auth.modRec r fun rec => { rec with unloading := false })
        (still_modRec rfl rfl rfl)
      refine { hkeep with acquires := fun q hq => ?_ }
      rcases List.mem_append.mp hq with hq | hq
      · exact hc.acquires q hq
      · rw [List.mem_singleton.mp hq]
        exact (hn topic r hr).2
    | none =>
      rw [acquire_creates hd hr]
      have hrec : ∀ q < c.auth.nextRec, (c.auth.addRec topic).recs q = c.auth.recs q :=
        fun q hq => recs_addRec_ne (Nat.ne_of_lt hq)
      refine ⟨fun q hq => ?_, fun q hq => ?_, fun q hq => ?_, fun q hq => ?_⟩
      · rcases List.mem_append.mp hq with hq | hq
        · exact Nat.lt_succ_of_lt (hc.acquires q hq)
        · rw [List.mem_singleton.mp hq]
          exact Nat.lt_succ_self _
      · obtain ⟨hlt, hdone⟩ := hc.held q hq
        exact ⟨Nat.lt_succ_of_lt hlt, (congrArg _ (hrec q hlt)).trans hdone⟩
      · obtain ⟨hlt, hreg⟩ := hc.late q hq
        exact ⟨Nat.lt_succ_of_lt hlt, (registered_addRec hr (Nat.ne_of_lt hlt)).trans hreg⟩
      · rcases Nat.lt_succ_iff_lt_or_eq.mp hq with hlt | rfl
        · exact (congrArg _ (hrec q hlt)).trans (hc.refs q hlt)
        · have hheld : c.held.count c.auth.nextRec = 0 :=
            List.count_eq_zero.mpr fun hm => Nat.lt_irrefl _ (hc.held _ hm).1
          have hlate : c.late.count c.auth.nextRec = 0 :=
            List.count_eq_zero.mpr fun hm => Nat.lt_irrefl _ (hc.late _ hm).1
          rw [hheld, hlate]
          exact congrArg TopicRecord.refs recs_addRec_self

theorem counted_acquired (hc : Counted c) (hs : acquired c.auth i = some s) :
    Counted (c.take i s) := by
  obtain ⟨r, hr, ⟨hl, rfl⟩ | ⟨hl, rfl⟩⟩ := acquired_cases hs
  · have hnew : Counted { c with
        auth := c.auth.modRec r fun rec => { rec with refs := rec.refs + 1 }
        held := c.held ++ [r] } := by
      have hlt := hc.acquires r (List.mem_of_getElem? hr)
      refine counted_modRec hc rfl rfl (fun q hq => ?_) ?_ fun q hq => ?_
      · rcases List.mem_append.mp hq with hq | hq
        · exact hc.held q hq
        · exact List.mem_singleton.mp hq ▸ ⟨hlt, hl⟩
      · simp [hc.refs r hlt]
        omega
      · simp [Ne.symm hq]
    simp only [Holding.take, hr, loaded, hl]
    exact { hnew with acquires := fun q hq => hc.acquires q (List.mem_of_mem_eraseIdx hq) }
  · simp only [Holding.take, hr, loaded, hl]
    exact ⟨fun q hq => hc.acquires q (List.mem_of_mem_eraseIdx hq), hc.held, hc.late, hc.refs⟩

variable [DecidableEq U]

theorem holders_other {a : Action U} (hr : ∀ topic, a ≠ .release topic) (hi : ∀ i, a ≠ .acquired i) :
    (holders o yjs).next c (.other a) =
      ((machine o yjs).next c.auth a).map fun s => { c with auth := s } := by
  cases a with
  | release topic => exact absurd rfl (hr topic)
  | acquired i => exact absurd rfl (hi i)
  | _ => rfl

theorem holders_next {a : HolderAction U} (hs : (holders o yjs).next c a = some c') :
    ∃ b, (machine o yjs).next c.auth b = some c'.auth := by
  cases a with
  | release i =>
    obtain ⟨r, -, rfl⟩ := Option.map_eq_some_iff.mp hs
    exact ⟨.release (c.auth.recs r).topic, rfl⟩
  | other a =>
    by_cases hr : ∃ topic, a = .release topic
    · obtain ⟨topic, rfl⟩ := hr
      contradiction
    by_cases hi : ∃ i, a = .acquired i
    · obtain ⟨i, rfl⟩ := hi
      obtain ⟨s, hnext, rfl⟩ := Option.map_eq_some_iff.mp hs
      refine ⟨.acquired i, hnext.trans ?_⟩
      unfold Holding.take
      split <;> rfl
    · rw [holders_other (fun t ht => hr ⟨t, ht⟩) fun i ht => hi ⟨i, ht⟩] at hs
      obtain ⟨s, hnext, rfl⟩ := Option.map_eq_some_iff.mp hs
      exact ⟨a, hnext⟩

theorem counted_next {a : HolderAction U} (hi : Tracked o c.auth) (hc : Counted c)
    (hok : Unsucceeded c a) (hs : (holders o yjs).next c a = some c') : Counted c' := by
  cases a with
  | release i =>
    obtain ⟨r, hr, rfl⟩ := Option.map_eq_some_iff.mp hs
    cases hreg : c.auth.registered r with
    | true => exact counted_release hc hr hreg
    | false =>
      rw [give_late hreg (hok r hr)]
      exact counted_late hc hr hreg
  | other a =>
    by_cases hr : ∃ topic, a = .release topic
    · obtain ⟨topic, rfl⟩ := hr
      contradiction
    by_cases ha : ∃ i, a = .acquired i
    · obtain ⟨i, rfl⟩ := ha
      obtain ⟨s, hnext, rfl⟩ := Option.map_eq_some_iff.mp hs
      exact counted_acquired hc hnext
    · rw [holders_other (fun t ht => hr ⟨t, ht⟩) fun i ht => ha ⟨i, ht⟩] at hs
      obtain ⟨s, hnext, rfl⟩ := Option.map_eq_some_iff.mp hs
      have hgone := (load_kept hi hnext).2.2
      cases held_next hi hnext with
      | still _ h => exact counted_still hc h
      | loading _ h => exact counted_loading hc h hgone
      | acquire topic => exact counted_acquire hc hi.named
      | @acquired i _ _ => exact absurd ⟨i, rfl⟩ ha
      | release topic => exact absurd ⟨topic, rfl⟩ hr

omit [DecidableEq U] in
theorem release_registered {topic : String} (q : Nat) :
    (release o s topic).registered q = s.registered q := by
  unfold release
  split
  · rfl
  dsimp only
  split
  · rfl
  · split
    · exact registered_modRec rfl
    · split
      · rw [registered_storeNow, registered_modRec rfl, registered_modRec rfl]
      · rw [registered_modRec rfl, registered_modRec rfl, registered_modRec rfl]

theorem tracked_holders {ok : Holding U → HolderAction U → Prop} {as : List (HolderAction U)}
    (h : (holders o yjs).Runs ok as c) : Tracked o c.auth :=
  Runs.invariant (I := fun c => Tracked o c.auth) (tracked_init o)
    (fun _ _ _ hi _ hs => (holders_next hs).elim fun _ hb => tracked_next hi hb) h

theorem counted_run {as : List (HolderAction U)} (h : (holders o yjs).Runs Unsucceeded as c) :
    Counted c :=
  h.invariant_of tracked_holders ⟨by simp [holders, State.init], by simp [holders],
    by simp [holders], by simp [holders, State.init]⟩
    fun _ _ _ hi hc hok hs => counted_next hi hc hok hs

/-- **Holder safety**: as long as no holder of a forgotten record releases its
topic under a loaded successor, a registered record counts its holders, a
forgotten one also those that released it too late, and a release changes no
record but the holder's own, and nothing at all once that is forgotten. -/
theorem holders_counted {as : List (HolderAction U)} (h : (holders o yjs).Runs Unsucceeded as c) :
    (∀ r, c.auth.registered r = true → (c.auth.recs r).refs = c.held.count r) ∧
      (∀ r < c.auth.nextRec, (c.auth.recs r).refs = c.held.count r + c.late.count r) ∧
      ∀ i r, c.held[i]? = some r → succeeded c.auth r = false →
        (∀ q ≠ r, ((c.give o i r).auth.recs q).refs = (c.auth.recs q).refs ∧
          (c.give o i r).auth.registered q = c.auth.registered q) ∧
        (c.auth.registered r = false → (c.give o i r).auth = c.auth) := by
  have hc := counted_run h
  refine ⟨fun r hr => ?_, hc.refs, fun i r hi hn => ⟨fun q hq => ⟨?_, ?_⟩, fun hr => ?_⟩⟩
  · have hlt := ((tracked_holders h).named _ r (registered_eq_true.mp hr)).2
    rw [hc.refs r hlt, hc.late_eq_zero hr, Nat.add_zero]
  · cases hr : c.auth.registered r with
    | true =>
      have hl := (hc.held r (List.mem_of_getElem? hi)).2
      have hs := release_loaded (o := o) (registered_eq_true.mp hr) (by simp [loaded, hl])
      exact (hs.refs q).trans (by rw [recs_modRec_ne hq])
    | false => rw [give_late hr hn]
  · exact release_registered q
  · rw [give_late hr hn]

end Counting

/-! ## runs -/

/-- A topic is acquired, dropped, acquired again and loaded. -/
def reacquired : List (HolderAction Nat) :=
  [.other (.acquire "t"), .other (.loadDispatch 0), .other (.loadAnswer 0 .nothing),
    .other (.loadReact 0), .other (.acquired 0), .other (.drop "t"), .other (.acquire "t"),
    .other (.loadDispatch 1), .other (.loadAnswer 1 .nothing), .other (.loadReact 1),
    .other (.acquired 0)]

/-- The first holder releases while the second acquire is still loading. -/
def releasedWhileLoading : List (HolderAction Nat) :=
  reacquired.take 7 ++ [.release 0] ++ reacquired.drop 7

theorem holders_counted_example : ∃ c : Holding Nat,
    (holders {} numbers).Runs Unsucceeded releasedWhileLoading c ∧ c.auth.registered 1 = true ∧
      c.held = [1] ∧ (c.auth.recs 1).refs = c.held.count 1 ∧
      (c.auth.recs 0).refs = c.held.count 0 + c.late.count 0 := by
  obtain ⟨c, hs⟩ : ∃ c, (holders {} numbers).execIf (fun c a => decide (Unsucceeded c a))
      (holders {} numbers).init releasedWhileLoading = some c := ⟨_, rfl⟩
  have hrun : (holders {} numbers).Runs Unsucceeded releasedWhileLoading c :=
    runs_of_execIf (fun _ _ => of_decide_eq_true) hs
  have hstate : c.auth.registered 1 = true ∧ c.held = [1] ∧ 0 < c.auth.nextRec := by
    cases hs
    decide +kernel
  obtain ⟨hreg, hheld, hlt⟩ := hstate
  obtain ⟨hcount, hlate, -⟩ := holders_counted hrun
  exact ⟨c, hrun, hreg, hheld, hcount 1 hreg, hlate 0 hlt⟩

/-- The first holder releases the topic of the second: its record counts no
holder and is unloaded. -/
theorem successor_robbed : ∃ c : Holding Nat,
    (holders {} numbers).Runs Any (reacquired ++ [.release 0]) c ∧ c.held = [1] ∧
      c.auth.registered 1 = true ∧ (c.auth.recs 1).refs = 0 ∧
      ∃ c', (holders {} numbers).next c (.other (.check 1 0)) = some c' ∧
        c'.auth.registered 1 = false := by
  obtain ⟨c, hs⟩ : ∃ c, (holders {} numbers).exec (holders {} numbers).init
      (reacquired ++ [.release 0]) = some c := ⟨_, rfl⟩
  have hrun := runs_of_exec hs
  have hstate : c.held = [1] ∧ c.auth.registered 1 = true ∧ (c.auth.recs 1).refs = 0 ∧
      ((holders {} numbers).next c (.other (.check 1 0))).map (·.auth.registered 1) = some false := by
    cases hs
    decide +kernel
  obtain ⟨hheld, hreg, hrefs, hcheck⟩ := hstate
  obtain ⟨c', hc', hgone⟩ := Option.map_eq_some_iff.mp hcheck
  exact ⟨c, hrun, hheld, hreg, hrefs, c', hc', hgone⟩

end BunServe.Crdt
