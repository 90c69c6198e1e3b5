import BunServe.Lib.JsNumber

/-!
# BunServe.Posture

The protection posture of `runtime/utils/pressure.js`: three levels, moved one
at a time by the ticks of the pressure sampler.

A session keeps beside the posture the samples that the ticks have taken, newest
first.  `Due` says which of them a change of level needs; the three run counters
are the streaks it counts (`Inv`).
-/

namespace BunServe.Posture

open JsNumber (ofNat)

inductive Level where
  | normal
  | elevated
  | siege
  deriving DecidableEq

/-- The ceilings of `cfg.admission`; one that is missing is NaN. -/
structure Gate where
  maxConcurrent : JsNumber
  maxConnections : JsNumber

/-- The variables of a posture, and the calls of `onTransition`. -/
structure State where
  level : Level
  rejectAccum : Nat
  rejectedPerSecond : Int
  rateLimitAccum : Nat
  activeRun : Nat
  overCapRun : Nat
  quietRun : Nat
  transitions : List (Level × Level)

inductive Action where
  | recordCapacityReject
  | recordRateLimitReject
  /-- `tick(snapshot)`; the snapshot is none or its `active`. -/
  | tick (snapshot : Option Bool) (gate : Gate)

def ESCALATE_ELEVATED_SAMPLES : Nat := 5
def ESCALATE_SIEGE_SAMPLES : Nat := 10
def RELAX_SAMPLES : Nat := 10

/-- `createPosture(cfg)`. -/
def createPosture (pin : Option Level) : State where
  level := pin.getD .normal
  rejectAccum := 0
  rejectedPerSecond := 0
  rateLimitAccum := 0
  activeRun := 0
  overCapRun := 0
  quietRun := 0
  transitions := []

/-- `ceiling || 0`. -/
def orZero : JsNumber → JsNumber
  | .nan => ofNat 0
  | a => a

/-- `ceiling * 2`, where it is exact. -/
def twice : JsNumber → JsNumber
  | .nan => .nan
  | .real x => .real (x + x)

def siegeRejectRate (g : Gate) : JsNumber :=
  let handshakeCeiling := orZero g.maxConcurrent
  let connectionCeiling := orZero g.maxConnections
  let ceiling :=
    if JsNumber.lt (ofNat 0) handshakeCeiling ∧ JsNumber.lt (ofNat 0) connectionCeiling then
      JsNumber.min handshakeCeiling connectionCeiling
    else JsNumber.max handshakeCeiling connectionCeiling
  if JsNumber.lt (ofNat 0) ceiling then twice ceiling else JsNumber.infinity

/-- `n >> 1`, on 32 bits. -/
def halved (n : Int) : Int := ((BitVec.ofInt 32 n).sshiftRight 1).toInt

/-- A change of level, which the observer is told. -/
def State.enter (s : State) (l : Level) : State :=
  { s with level := l, transitions := s.transitions ++ [(s.level, l)] }

def tick (pin : Option Level) (s : State) (snapshot : Option Bool) (g : Gate) : State :=
  let freshRejects := s.rejectAccum
  let s := { s with
    rejectedPerSecond := s.rejectAccum + halved s.rejectedPerSecond
    rejectAccum := 0
    rateLimitAccum := 0 }
  if pin.isSome then s
  else
    let active := snapshot = some true
    let overCapacity := JsNumber.le (siegeRejectRate g) (ofNat freshRejects)
    let calm := ¬ active ∧ freshRejects = 0
    let s := { s with
      activeRun := if active then s.activeRun + 1 else 0
      overCapRun := if overCapacity then s.overCapRun + 1 else 0
      quietRun := if calm then s.quietRun + 1 else 0 }
    match s.level with
    | .normal =>
      if s.activeRun ≥ ESCALATE_ELEVATED_SAMPLES then
        { s.enter .elevated with overCapRun := 0, quietRun := 0 }
      else s
    | .elevated =>
      if s.overCapRun ≥ ESCALATE_SIEGE_SAMPLES then { s.enter .siege with quietRun := 0 }
      else if s.quietRun ≥ RELAX_SAMPLES then { s.enter .normal with activeRun := 0 }
      else s
    | .siege =>
      if s.quietRun ≥ RELAX_SAMPLES then
        { s.enter .elevated with quietRun := 0, overCapRun := 0 }
      else s

def next (pin : Option Level) (s : State) : Action → State
  | .recordCapacityReject => { s with rejectAccum := s.rejectAccum + 1 }
  | .recordRateLimitReject => { s with rateLimitAccum := s.rateLimitAccum + 1 }
  | .tick snapshot g => tick pin s snapshot g

/-- A posture after a sequence of calls. -/
def run (pin : Option Level) (as : List Action) : State := as.foldl (next pin) (createPosture pin)

/-! ## rate-limit rejects -/

/-- What can be observed of a posture. -/
def State.observed (s : State) : Level × Int × List (Level × Level) :=
  (s.level, s.rejectAccum + s.rejectedPerSecond, s.transitions)

/-- All but the inert counter. -/
def State.core (s : State) : State := { s with rateLimitAccum := 0 }

theorem core_next (pin : Option Level) (s : State) (a : Action) :
    (next pin s a).core = (next pin s.core a).core := by
  cases a with
  | tick snapshot g => rfl
  | _ => rfl

/-- Not a rate-limit reject. -/
def Action.counts : Action → Bool
  | .recordRateLimitReject => false
  | _ => true

theorem core_foldl {pin : Option Level} {s t : State} (h : s.core = t.core) (as : List Action) :
    (as.foldl (next pin) s).core = ((as.filter Action.counts).foldl (next pin) t).core := by
  induction as generalizing s t with
  | nil => exact h
  | cons a as ih =>
    have hsame : (next pin s a).core = (next pin t a).core := by
      rw [core_next, h, ← core_next]
    cases a with
    | recordRateLimitReject => exact ih (s := next pin s .recordRateLimitReject) h
    | recordCapacityReject => exact ih hsame
    | tick snapshot g => exact ih hsame

/-! ## samples -/

/-- What a tick has seen, and the level it was taken at. -/
structure Sample where
  level : Level
  active : Bool
  overCapacity : Bool
  calm : Bool

/-- A posture, the capacity rejects since the last tick, and the samples. -/
structure Session where
  posture : State
  fresh : Nat
  samples : List Sample

/-- The sample of a tick. -/
def Session.sample (s : Session) (snapshot : Option Bool) (g : Gate) : Sample where
  level := s.posture.level
  active := snapshot == some true
  overCapacity := JsNumber.le (siegeRejectRate g) (ofNat s.fresh)
  calm := snapshot != some true && s.fresh == 0

def step (s : Session) (a : Action) : Session :=
  let posture := next none s.posture a
  match a with
  | .recordCapacityReject => { s with posture, fresh := s.fresh + 1 }
  | .recordRateLimitReject => { s with posture }
  | .tick snapshot g => ⟨posture, 0, s.sample snapshot g :: s.samples⟩

def session (as : List Action) : Session := as.foldl step ⟨createPosture none, 0, []⟩

/-- The last `n` samples are all as `p` says. -/
def Last (n : Nat) (p : Sample → Bool) (samples : List Sample) : Prop :=
  n ≤ samples.length ∧ ∀ x ∈ samples.take n, p x

/-- A sample over capacity, taken while elevated. -/
def Sample.besieged (x : Sample) : Bool := x.overCapacity && x.level == .elevated

/-- A calm sample, taken at a level. -/
def Sample.calmAt (l : Level) (x : Sample) : Bool := x.calm && x.level == l

/-- What the samples must be for a change of level. -/
def Due (samples : List Sample) : Level → Level → Prop
  | .normal, .elevated => Last ESCALATE_ELEVATED_SAMPLES Sample.active samples
  | .elevated, .siege => Last ESCALATE_SIEGE_SAMPLES Sample.besieged samples
  | .elevated, .normal => Last RELAX_SAMPLES (Sample.calmAt .elevated) samples
  | .siege, .elevated => Last RELAX_SAMPLES (Sample.calmAt .siege) samples
  | _, _ => False

/-! ## streaks -/

/-- How many of the newest samples in a row are as `p` says. -/
def streak (p : Sample → Bool) (samples : List Sample) : Nat := (samples.takeWhile p).length

theorem streak_cons (p : Sample → Bool) (x : Sample) (xs : List Sample) :
    streak p (x :: xs) = if p x then streak p xs + 1 else 0 := by
  simp only [streak, List.takeWhile_cons]
  split <;> rfl

theorem le_streak_iff {p : Sample → Bool} {n : Nat} {xs : List Sample} :
    n ≤ streak p xs ↔ Last n p xs := by
  induction xs generalizing n with
  | nil => simp [streak, Last]
  | cons x xs ih =>
    rw [streak_cons]
    cases n with
    | zero => simp [Last]
    | succ n => cases hx : p x <;> simp [Last, hx, ih]

theorem threshold_pos (a : JsNumber) :
    ¬ JsNumber.le (if JsNumber.lt (ofNat 0) a then twice a else JsNumber.infinity) (ofNat 0) := by
  split
  case isTrue h =>
    cases a with
    | nan => simp at h
    | real x =>
      have hx : 0 < x := by simpa [JsNumber.lt, ofNat] using h
      have hxx : 0 < x + x := lt_of_lt_of_le hx (le_add_of_nonneg_right hx.le)
      simpa [JsNumber.le, twice, ofNat] using hxx
  case isFalse =>
    have htop : ((Nat.cast 0 : ℚ) : WithTop ℚ) < ⊤ := WithTop.coe_lt_top _
    exact fun hle => not_le_of_gt htop (WithBot.coe_le_coe.mp hle)

theorem siegeRejectRate_pos (g : Gate) : ¬ JsNumber.le (siegeRejectRate g) (ofNat 0) :=
  threshold_pos _

/-- The counters are streaks of the samples. -/
structure Inv (s : Session) : Prop where
  fresh : s.posture.rejectAccum = s.fresh
  active : s.posture.activeRun = streak Sample.active s.samples
  besieged : s.posture.level = .elevated → s.posture.overCapRun = streak Sample.besieged s.samples
  quiet : s.posture.level ≠ .normal →
    s.posture.quietRun = streak (Sample.calmAt s.posture.level) s.samples

section Tick

variable {s : Session} {snapshot : Option Bool} {g : Gate}

theorem Inv.active_tick (h : Inv s) (snapshot : Option Bool) (g : Gate) :
    (if snapshot = some true then s.posture.activeRun + 1 else 0) =
      streak Sample.active (s.sample snapshot g :: s.samples) := by
  simp [streak_cons, Session.sample, h.active]

theorem Inv.over_tick (h : Inv s) (hl : s.posture.level = .elevated) (snapshot : Option Bool)
    (g : Gate) :
    (if JsNumber.le (siegeRejectRate g) (ofNat s.posture.rejectAccum) then
      s.posture.overCapRun + 1 else 0) =
      streak Sample.besieged (s.sample snapshot g :: s.samples) := by
  simp [streak_cons, Session.sample, Sample.besieged, h.fresh, h.besieged hl, hl]

theorem Inv.quiet_tick (h : Inv s) (hl : s.posture.level ≠ .normal) (snapshot : Option Bool)
    (g : Gate) :
    (if ¬ snapshot = some true ∧ s.posture.rejectAccum = 0 then s.posture.quietRun + 1 else 0) =
      streak (Sample.calmAt s.posture.level) (s.sample snapshot g :: s.samples) := by
  simp [streak_cons, Session.sample, Sample.calmAt, h.fresh, h.quiet hl]

theorem streak_calmAt_ne {l : Level} (hl : s.posture.level ≠ l) :
    streak (Sample.calmAt l) (s.sample snapshot g :: s.samples) = 0 := by
  simp [streak_cons, Session.sample, Sample.calmAt, hl]

theorem streak_besieged_ne (hl : s.posture.level ≠ .elevated) :
    streak Sample.besieged (s.sample snapshot g :: s.samples) = 0 := by
  simp [streak_cons, Session.sample, Sample.besieged, hl]

theorem streak_of_calm {l : Level} (hl : s.posture.level = l) {n : Nat} (hn : 0 < n)
    (hcalm : n ≤ streak (Sample.calmAt l) (s.sample snapshot g :: s.samples)) :
    streak Sample.active (s.sample snapshot g :: s.samples) = 0 ∧
      streak Sample.besieged (s.sample snapshot g :: s.samples) = 0 := by
  have hx : (s.sample snapshot g).calmAt l := by
    by_contra hx
    simp only [streak_cons, hx, if_false] at hcalm
    omega
  obtain ⟨hsnapshot, hfresh⟩ : snapshot ≠ some true ∧ s.fresh = 0 := by
    simpa [Sample.calmAt, Session.sample, hl] using hx
  simp [streak_cons, Session.sample, Sample.besieged, hsnapshot, hfresh, siegeRejectRate_pos]

theorem Inv.changes_iff (h : Inv s) (l : Level) :
    (tick none s.posture snapshot g).level = l ∧ l ≠ s.posture.level ↔
      Due (s.sample snapshot g :: s.samples) s.posture.level l := by
  have hactive := h.active_tick snapshot g
  cases hl : s.posture.level with
  | normal =>
    simp only [tick, hl, hactive, Option.isSome_none, Bool.false_eq_true, if_false]
    split
    case isTrue hdue => cases l <;> simp [State.enter, Due, ← le_streak_iff, hdue]
    case isFalse hdue => cases l <;> simp [Due, ← le_streak_iff, hdue]
  | elevated =>
    have hover := h.over_tick hl snapshot g
    have hquiet := h.quiet_tick (by simp [hl]) snapshot g
    rw [hl] at hquiet
    simp only [tick, hl, hactive, hover, hquiet, Option.isSome_none, Bool.false_eq_true, if_false]
    split
    case isTrue hdue =>
      have hcalm : ¬ RELAX_SAMPLES ≤
          streak (Sample.calmAt .elevated) (s.sample snapshot g :: s.samples) := by
        intro hcalm
        have hzero := (streak_of_calm hl (by decide) hcalm).2
        exact absurd (hzero ▸ hdue) (by decide)
      cases l <;> simp [State.enter, Due, ← le_streak_iff, hdue, hcalm]
    case isFalse hover =>
      split
      case isTrue hdue => cases l <;> simp [State.enter, Due, ← le_streak_iff, hdue, hover]
      case isFalse hdue => cases l <;> simp [Due, ← le_streak_iff, hdue, hover]
  | siege =>
    have hquiet := h.quiet_tick (by simp [hl]) snapshot g
    rw [hl] at hquiet
    simp only [tick, hl, hactive, hquiet, Option.isSome_none, Bool.false_eq_true, if_false]
    split
    case isTrue hdue => cases l <;> simp [State.enter, Due, ← le_streak_iff, hdue]
    case isFalse hdue => cases l <;> simp [Due, ← le_streak_iff, hdue]

end Tick

theorem inv_step {s : Session} (h : Inv s) (a : Action) : Inv (step s a) := by
  cases a with
  | recordCapacityReject => exact { h with fresh := congrArg (· + 1) h.fresh }
  | recordRateLimitReject => exact { h with }
  | tick snapshot g =>
    have hactive := h.active_tick snapshot g
    cases hl : s.posture.level with
    | normal =>
      simp only [step, next, tick, hl, hactive, Option.isSome_none, Bool.false_eq_true, if_false]
      split
      · exact ⟨rfl, rfl, fun _ => (streak_besieged_ne (by simp [hl])).symm,
          fun _ => (streak_calmAt_ne (by simp [hl, State.enter])).symm⟩
      · exact ⟨rfl, rfl, fun h' => by simp at h', fun h' => by simp at h'⟩
    | elevated =>
      have hover := h.over_tick hl snapshot g
      have hquiet := h.quiet_tick (by simp [hl]) snapshot g
      simp only [step, next, tick, hl, hactive, hover, hquiet, Option.isSome_none,
        Bool.false_eq_true, if_false]
      split
      · exact ⟨rfl, rfl, fun h' => by simp [State.enter] at h',
          fun _ => (streak_calmAt_ne (by simp [hl, State.enter])).symm⟩
      · split
        case isTrue hcalm =>
          have hzero := streak_of_calm hl (by decide) hcalm
          exact ⟨rfl, hzero.1.symm, fun h' => by simp [State.enter] at h',
            fun h' => by simp [State.enter] at h'⟩
        case isFalse => exact ⟨rfl, rfl, fun _ => rfl, fun _ => rfl⟩
    | siege =>
      have hquiet := h.quiet_tick (by simp [hl]) snapshot g
      simp only [step, next, tick, hl, hactive, hquiet, Option.isSome_none, Bool.false_eq_true,
        if_false]
      split
      · exact ⟨rfl, rfl, fun _ => (streak_besieged_ne (by simp [hl])).symm,
          fun _ => (streak_calmAt_ne (by simp [hl, State.enter])).symm⟩
      · exact ⟨rfl, rfl, fun h' => by simp at h', fun _ => rfl⟩

theorem inv_session (as : List Action) : Inv (session as) := by
  suffices hrun : ∀ s, Inv s → Inv (as.foldl step s) from
    hrun _ ⟨rfl, rfl, fun _ => rfl, fun h => absurd rfl h⟩
  intro s h
  induction as generalizing s with
  | nil => exact h
  | cons a as ih => exact ih _ (inv_step h a)

theorem session_posture (as : List Action) : (session as).posture = run none as := by
  suffices hrun : ∀ s : Session, (as.foldl step s).posture = as.foldl (next none) s.posture from
    hrun _
  intro s
  induction as generalizing s with
  | nil => rfl
  | cons a as ih =>
    rw [List.foldl_cons, ih, List.foldl_cons]
    cases a <;> rfl

/-- A tick moves the level exactly when its dwell is complete, and nothing else does; the
rate-limit rejects of a run are not observed. -/
theorem posture_dwell (as : List Action) :
    (let s := session as
     s.posture = run none as ∧
     (step s .recordCapacityReject).posture.level = s.posture.level ∧
     (step s .recordRateLimitReject).posture.level = s.posture.level ∧
     ∀ snapshot g l,
       let t := step s (.tick snapshot g)
       t.posture.level = l ∧ l ≠ s.posture.level ↔ Due t.samples s.posture.level l) ∧
    ∀ pin, (run pin as).observed = (run pin (as.filter Action.counts)).observed := by
  refine ⟨⟨session_posture as, rfl, rfl, fun snapshot g l => (inv_session as).changes_iff l⟩,
    fun pin => ?_⟩
  have hcore : (run pin as).core = (run pin (as.filter Action.counts)).core := core_foldl rfl as
  calc (run pin as).observed
      _ = (run pin as).core.observed := rfl
      _ = (run pin (as.filter Action.counts)).core.observed := by rw [hcore]
      _ = (run pin (as.filter Action.counts)).observed := rfl

/-- **No siege without a ceiling.**  While no tick finds a ceiling that is enabled, an
unpinned posture does not reach siege, whatever is rejected. -/
theorem no_siege (as : List Action)
    (h : ∀ snapshot g, .tick snapshot g ∈ as → siegeRejectRate g = JsNumber.infinity) :
    (run none as).level ≠ .siege := by
  suffices hrun : ∀ s, Inv s → s.posture.level ≠ .siege → (∀ x ∈ s.samples, x.besieged = false) →
      (as.foldl step s).posture.level ≠ .siege by
    rw [← session_posture]
    exact hrun _ ⟨rfl, rfl, fun _ => rfl, fun hne => absurd rfl hne⟩ (by decide) (by simp)
  induction as with
  | nil => exact fun _ _ hlevel _ => hlevel
  | cons a as ih =>
    intro s hi hlevel hnone
    have ih := ih (fun snapshot g hmem => h snapshot g (List.mem_cons_of_mem _ hmem)) _
      (inv_step hi a)
    cases a with
    | recordCapacityReject => exact ih hlevel hnone
    | recordRateLimitReject => exact ih hlevel hnone
    | tick snapshot g =>
      have hinfinite : ¬ JsNumber.le (siegeRejectRate g) (ofNat s.fresh) := by
        rw [h snapshot g List.mem_cons_self]
        exact fun hle => not_le_of_gt (WithTop.coe_lt_top _) (WithBot.coe_le_coe.mp hle)
      have hsamples : ∀ x ∈ (step s (.tick snapshot g)).samples, x.besieged = false :=
        List.forall_mem_cons.mpr ⟨by simp [Sample.besieged, Session.sample, hinfinite], hnone⟩
      refine ih (fun hsiege => ?_) hsamples
      -- the newest of ten samples over capacity would be
      have hdue := (hi.changes_iff .siege).mp ⟨hsiege, hlevel.symm⟩
      cases hl : s.posture.level with
      | elevated =>
        rw [hl] at hdue
        have hnewest := hdue.2 _ List.mem_cons_self
        rw [hsamples _ List.mem_cons_self] at hnewest
        contradiction
      | _ =>
        rw [hl] at hdue
        exact hdue

/-- A gate without ceilings, under rejects and pressure. -/
theorem no_siege_open : (run none ((List.replicate 30
    [.recordCapacityReject, .tick (some true) ⟨ofNat 0, .nan⟩]).flatten)).level ≠ .siege :=
  no_siege _ fun snapshot g hmem => by
    obtain ⟨l, hl, hmem⟩ := List.mem_flatten.mp hmem
    obtain rfl := (List.mem_replicate.mp hl).2
    simp only [List.mem_cons, reduceCtorEq, Action.tick.injEq, List.not_mem_nil, or_false,
      false_or] at hmem
    rw [hmem.2]
    decide +kernel

end BunServe.Posture
