import BunServe.Lib.JsNumber
import BunServe.Lib.Machine
import BunServe.Smooth

/-!
# BunServe.Smooth.Predict

The predictor of `plugins/smooth/predict.js`: every command is applied at once
and waits in a window of unacknowledged commands; an acknowledgement drops the
confirmed prefix, rebases on the authoritative state and replays the rest.

Left out is what only the renderer reads: the decaying error offset, the motion
sweep and the speed baseline.  Command ids are whole numbers, as `nextId++`
makes them; an acknowledgement carries any JavaScript value.

* `windowInv_run` — the prediction is the fold of `apply` over the window, the
  window's ids increase strictly between the last acknowledged id and the next
  one, and it is bounded;
* `stale_ack` — what an acknowledgement from before a reset or a sync can do.
-/

namespace BunServe.Smooth.Predict

open Machine

/-- The resolved options. -/
structure Options (State Cmd Data : Type) where
  apply : Apply State Cmd Data
  initial : State
  computeError : State → State → ℚ
  windowCap : ℚ
  windowMaxAgeMs : ℚ

/-- A windowed command.  `key` is what `ctx.key` was when it was last applied. -/
structure Entry (Cmd : Type) where
  id : Nat
  cmd : Cmd
  sentMono : ℚ
  key : Option String

/-- The predictor's variables. -/
structure Predictor (State Cmd Data : Type) where
  base : State
  predicted : State
  lastAckedId : JsNumber
  nextId : Nat
  overflowed : Bool
  pending : List (Entry Cmd)
  head : Nat
  lastDivergence : ℚ
  eventSink : List (Event Data)

/-- The answer of `ack`. -/
structure AckResult where
  divergence : ℚ
  sentMono : Option ℚ

variable {State Cmd Data : Type}

/-- `createPredictor(options)`. -/
def createPredictor (o : Options State Cmd Data) : Predictor State Cmd Data :=
  { base := o.initial, predicted := o.initial, lastAckedId := .ofNat 0, nextId := 1,
    overflowed := false, pending := [], head := 0, lastDivergence := 0, eventSink := [] }

/-- The unacknowledged commands: `pending` from `head` on. -/
def window (p : Predictor State Cmd Data) : List (Entry Cmd) := p.pending.drop p.head

/-- The events of one application, as `ctx.emitEvent` keys them; a replay emits
nothing. -/
def emitted (firstTime : Bool) (id : Nat) (emissions : List (Emission Data)) :
    List (Event Data) :=
  if firstTime then
    emissions.mapIdx fun ordinal e =>
      { type := e.type, key := e.key.getD (toString id ++ ":" ++ toString ordinal),
        data := e.data, id }
  else []

/-- `runApply(state, entry, firstTime)`; `self` is what the `self` accessor answers. -/
def runApply (o : Options State Cmd Data) (self : Option String) (state : State)
    (entry : Entry Cmd) (firstTime : Bool) : State × List (Emission Data) :=
  o.apply state entry.cmd { firstTime, seed := entry.id, key := self }

/-- The replay loop of `ack`. -/
def replay (o : Options State Cmd Data) (self : Option String) : State → List (Entry Cmd) → State
  | state, [] => state
  | state, e :: es => replay o self (runApply o self state e false).1 es

/-- `killPrediction()`. -/
def killPrediction (p : Predictor State Cmd Data) : Predictor State Cmd Data :=
  { p with pending := [], head := 0, predicted := p.base, overflowed := true }

/-- `compactWindow()`. -/
def compactWindow (p : Predictor State Cmd Data) : Predictor State Cmd Data :=
  if p.head > 32 ∧ p.head * 2 ≥ p.pending.length then
    { p with pending := p.pending.drop p.head, head := 0 }
  else p

/-- `pending.length > head && monoNow - pending[head].sentMono > windowMaxAgeMs`. -/
def aged (o : Options State Cmd Data) (p : Predictor State Cmd Data) (monoNow : ℚ) : Bool :=
  match window p with
  | [] => false
  | e :: _ => monoNow - e.sentMono > o.windowMaxAgeMs

/-- `command(cmd, monoNow)`: the id and the predictor afterwards. -/
def command (o : Options State Cmd Data) (p : Predictor State Cmd Data) (cmd : Cmd) (monoNow : ℚ)
    (self : Option String) : Nat × Predictor State Cmd Data :=
  let id := p.nextId
  let p := { p with nextId := id + 1 }
  if p.overflowed then (id, p)
  else if ((p.pending.length - p.head : Nat) : ℚ) ≥ o.windowCap ∨ aged o p monoNow then
    (id, killPrediction p)
  else
    let entry : Entry Cmd := { id, cmd, sentMono := monoNow, key := self }
    let r := runApply o self p.predicted entry true
    (id, { p with
      pending := p.pending ++ [entry]
      predicted := r.1
      eventSink := p.eventSink ++ emitted true id r.2 })

/-- `drainEvents()`. -/
def drainEvents (p : Predictor State Cmd Data) :
    List (Event Data) × Predictor State Cmd Data :=
  (p.eventSink, { p with eventSink := [] })

/-- How many entries the loop of `ack` passes: the leading ones with an id at
or below the acknowledged one. -/
def confirmed (ackedId : JsNumber) : List (Entry Cmd) → Nat
  | [] => 0
  | e :: es => if JsNumber.le (.ofNat e.id) ackedId then confirmed ackedId es + 1 else 0

/-- The send time of the acknowledged command, when the loop passes it. -/
def sentAt (ackedId : JsNumber) (passed : List (Entry Cmd)) : Option ℚ :=
  (passed.filter fun e => JsNumber.ofNat e.id = ackedId).getLast?.map (·.sentMono)

/-- The loop of `ack`, followed by `compactWindow()`. -/
def dropConfirmed (ackedId : JsNumber) (p : Predictor State Cmd Data) :
    Predictor State Cmd Data :=
  compactWindow { p with head := p.head + confirmed ackedId (window p) }

/-- `ack(ackedId, state, monoNow)`: none is a rejected acknowledgement.  An id
that is no number is `none`. -/
def ack (o : Options State Cmd Data) (p : Predictor State Cmd Data) (ackedId : Option JsNumber)
    (state : State) (self : Option String) : Option AckResult × Predictor State Cmd Data :=
  match ackedId with
  | none => (none, p)
  | some ackedId =>
    if JsNumber.le ackedId p.lastAckedId ∨ JsNumber.le (.ofNat p.nextId) ackedId then (none, p)
    else
      let p := { p with lastAckedId := ackedId, base := state }
      if p.overflowed then
        (some { divergence := 0, sentMono := none },
          { p with predicted := state, overflowed := false, lastDivergence := 0 })
      else
        let sentMono := sentAt ackedId ((window p).take (confirmed ackedId (window p)))
        let p := dropConfirmed ackedId p
        let next := replay o self state (window p)
        let divergence := o.computeError p.predicted next
        (some { divergence, sentMono },
          { p with
            pending := p.pending.map fun e => { e with key := self }
            predicted := next
            lastDivergence := divergence })

/-- `sync(state, ackedId)`. -/
def sync (p : Predictor State Cmd Data) (state : State) (ackedId : Option JsNumber) :
    Predictor State Cmd Data :=
  let watermark := match ackedId with
    | some n => if JsNumber.le (.ofNat 0) n then n else .ofNat 0
    | none => .ofNat 0
  { p with
    base := state, predicted := state
    lastAckedId := JsNumber.min watermark (.ofNat (p.nextId - 1))
    pending := [], head := 0, lastDivergence := 0, overflowed := false }

/-- `rebase(state)`: whether the state was adopted. -/
def rebase (p : Predictor State Cmd Data) (state : State) : Bool × Predictor State Cmd Data :=
  if p.pending.length > p.head then (false, p)
  else (true, { p with base := state, predicted := state })

/-- `checkOverflow(monoNow)`. -/
def checkOverflow (o : Options State Cmd Data) (p : Predictor State Cmd Data) (monoNow : ℚ) :
    Bool × Predictor State Cmd Data :=
  let p := if !p.overflowed && aged o p monoNow then killPrediction p else p
  (p.overflowed, p)

/-- `reset(initial)`. -/
def reset (o : Options State Cmd Data) (p : Predictor State Cmd Data) (initial : Option State) :
    Predictor State Cmd Data :=
  let base := initial.getD o.initial
  { p with
    base, predicted := base, lastAckedId := .ofNat 0
    pending := [], head := 0, lastDivergence := 0, overflowed := false, eventSink := [] }

/-! ## sessions -/

/-- One call on the predictor; `self` is what the `self` accessor answers
during the call. -/
inductive Action (State Cmd : Type) where
  | command (cmd : Cmd) (monoNow : ℚ) (self : Option String)
  | drainEvents
  | ack (ackedId : Option JsNumber) (state : State) (self : Option String)
  | sync (state : State) (ackedId : Option JsNumber)
  | rebase (state : State)
  | checkOverflow (monoNow : ℚ)
  | reset (initial : Option State)

/-- A predictor; `mark` is the next id at the most recent reset or sync, and
`adopted` the watermark it adopted and the ids acknowledged since. -/
structure Session (State Cmd Data : Type) where
  p : Predictor State Cmd Data
  mark : Nat
  adopted : List JsNumber

/-- A session goes on from a reset or sync predictor. -/
def restart (p : Predictor State Cmd Data) : Session State Cmd Data :=
  { p, mark := p.nextId, adopted := [p.lastAckedId] }

def acknowledge (s : Session State Cmd Data) (r : Option AckResult × Predictor State Cmd Data) :
    Session State Cmd Data :=
  { s with
    p := r.2
    adopted := if r.1.isSome then r.2.lastAckedId :: s.adopted else s.adopted }

def step (o : Options State Cmd Data) (s : Session State Cmd Data) :
    Action State Cmd → Session State Cmd Data
  | .command cmd monoNow self => { s with p := (command o s.p cmd monoNow self).2 }
  | .drainEvents => { s with p := (drainEvents s.p).2 }
  | .ack ackedId state self => acknowledge s (ack o s.p ackedId state self)
  | .sync state ackedId => restart (sync s.p state ackedId)
  | .rebase state => { s with p := (rebase s.p state).2 }
  | .checkOverflow monoNow => { s with p := (checkOverflow o s.p monoNow).2 }
  | .reset initial => restart (reset o s.p initial)

/-- All sequences of calls. -/
def session (o : Options State Cmd Data) : Machine (Session State Cmd Data) (Action State Cmd) where
  init := { p := createPredictor o, mark := 0, adopted := [.ofNat 0] }
  next s a := some (step o s a)

/-- The call acknowledges no NaN. -/
def Numeric (_ : Session State Cmd Data) : Action State Cmd → Prop
  | .ack ackedId _ _ => ackedId ≠ some .nan
  | _ => True

/-! ## the window -/

/-- One entry's contribution to the prediction. -/
def applied (o : Options State Cmd Data) (s : State) (e : Entry Cmd) : State :=
  (o.apply s e.cmd { firstTime := false, seed := e.id, key := e.key }).1

/-- The left fold of `apply` over windowed commands. -/
def fold (o : Options State Cmd Data) (base : State) (es : List (Entry Cmd)) : State :=
  es.foldl (applied o) base

/-- An entry after a replay under `self`. -/
def Entry.under (self : Option String) (e : Entry Cmd) : Entry Cmd := { e with key := self }

theorem replay_eq_fold (o : Options State Cmd Data) (self : Option String) (s : State)
    (es : List (Entry Cmd)) : replay o self s es = fold o s (es.map (Entry.under self)) := by
  induction es generalizing s with
  | nil => rfl
  | cons e es ih =>
    rw [replay, ih]
    rfl

@[simp] theorem window_compactWindow (p : Predictor State Cmd Data) :
    window (compactWindow p) = window p := by
  unfold compactWindow
  split <;> simp [window]

variable {p : Predictor State Cmd Data}

theorem head_compactWindow_le (h : p.head ≤ p.pending.length) :
    (compactWindow p).head ≤ (compactWindow p).pending.length := by
  unfold compactWindow
  split
  · simp
  · exact h

theorem confirmed_le_length (ackedId : JsNumber) (es : List (Entry Cmd)) :
    confirmed ackedId es ≤ es.length := by
  induction es with
  | nil => simp [confirmed]
  | cons e es ih =>
    rw [confirmed]
    split <;> simp [ih]

theorem dropConfirmed_eq (k : JsNumber) (p : Predictor State Cmd Data) :
    dropConfirmed k p =
      { p with pending := (dropConfirmed k p).pending, head := (dropConfirmed k p).head } := by
  unfold dropConfirmed compactWindow
  split <;> rfl

theorem window_dropConfirmed (k : JsNumber) (p : Predictor State Cmd Data) :
    window (dropConfirmed k p) = (window p).drop (confirmed k (window p)) := by
  rw [dropConfirmed, window_compactWindow]
  simp [window]

theorem head_dropConfirmed_le (k : JsNumber) (h : p.head ≤ p.pending.length) :
    (dropConfirmed k p).head ≤ (dropConfirmed k p).pending.length := by
  apply head_compactWindow_le
  have hlen := confirmed_le_length k (window p)
  have hwin : (window p).length = p.pending.length - p.head := List.length_drop
  show p.head + confirmed k (window p) ≤ p.pending.length
  omega

theorem lt_of_mem_drop_confirmed {ackedId : JsNumber} (hnan : ackedId ≠ .nan)
    {es : List (Entry Cmd)} (hinc : es.Pairwise fun a b => a.id < b.id) :
    ∀ e ∈ es.drop (confirmed ackedId es), JsNumber.lt ackedId (.ofNat e.id) := by
  induction es with
  | nil => simp
  | cons a es ih =>
    have hcons := List.pairwise_cons.mp hinc
    rw [confirmed]
    by_cases h : JsNumber.le (.ofNat a.id) ackedId
    · rw [if_pos h]
      exact ih hcons.2
    · rw [if_neg h]
      have ha : JsNumber.lt ackedId (.ofNat a.id) :=
        JsNumber.lt_of_not_le (JsNumber.ofNat_ne_nan _) hnan h
      intro e he
      cases List.mem_cons.mp he with
      | inl he => rwa [he]
      | inr he => exact JsNumber.lt_trans ha (by simpa using hcons.1 e he)

theorem confirmed_eq_zero {ackedId : JsNumber} {es : List (Entry Cmd)}
    (h : ∀ e ∈ es, ¬ JsNumber.le (.ofNat e.id) ackedId) : confirmed ackedId es = 0 := by
  cases es with
  | nil => rfl
  | cons e es => rw [confirmed, if_neg (h e (by simp))]

/-! ## what one call can do -/

theorem window_append (h : p.head ≤ p.pending.length)
    (e : Entry Cmd) : (p.pending ++ [e]).drop p.head = window p ++ [e] := by
  rw [List.drop_append_of_le_length h]
  rfl

theorem command_cases (o : Options State Cmd Data) (p : Predictor State Cmd Data) (cmd : Cmd)
    (monoNow : ℚ) (self : Option String) :
    (p.overflowed = true ∧ command o p cmd monoNow self = (p.nextId, { p with nextId := p.nextId + 1 })) ∨
    (p.overflowed = false ∧
      command o p cmd monoNow self = (p.nextId, killPrediction { p with nextId := p.nextId + 1 })) ∨
    (p.overflowed = false ∧ ((window p).length : ℚ) < o.windowCap ∧
      ∃ r, r = o.apply p.predicted cmd { firstTime := true, seed := p.nextId, key := self } ∧
        command o p cmd monoNow self = (p.nextId, { p with
          nextId := p.nextId + 1
          pending := p.pending ++ [{ id := p.nextId, cmd, sentMono := monoNow, key := self }]
          predicted := r.1
          eventSink := p.eventSink ++ emitted true p.nextId r.2 })) := by
  by_cases ho : p.overflowed = true
  · exact .inl ⟨ho, by simp only [command]; rw [if_pos ho]⟩
  have hof : p.overflowed = false := by simpa using ho
  by_cases hk : ((p.pending.length - p.head : Nat) : ℚ) ≥ o.windowCap ∨
      aged o { p with nextId := p.nextId + 1 } monoNow
  · exact .inr (.inl ⟨hof, by simp only [command]; rw [if_neg ho, if_pos hk]⟩)
  · have hlt : ((window p).length : ℚ) < o.windowCap := by
      rw [window, List.length_drop]
      exact not_le.mp fun h => hk (.inl h)
    exact .inr (.inr ⟨hof, hlt, _, rfl, by simp only [command]; rw [if_neg ho, if_neg hk]; rfl⟩)

theorem ack_cases (o : Options State Cmd Data)
    (hhead : p.head ≤ p.pending.length) (ackedId : Option JsNumber) (state : State)
    (self : Option String) :
    ack o p ackedId state self = (none, p) ∨
    ∃ k, ackedId = some k ∧ ¬ JsNumber.le k p.lastAckedId ∧ ¬ JsNumber.le (.ofNat p.nextId) k ∧
      ((p.overflowed = true ∧ (ack o p ackedId state self).2 =
        { p with lastAckedId := k, base := state, predicted := state, overflowed := false,
                 lastDivergence := 0 }) ∨
      (p.overflowed = false ∧ ∃ p', (ack o p ackedId state self).2 = p' ∧
        p'.base = state ∧ p'.lastAckedId = k ∧ p'.nextId = p.nextId ∧ p'.overflowed = false ∧
        p'.head ≤ p'.pending.length ∧
        window p' = ((window p).drop (confirmed k (window p))).map (Entry.under self) ∧
        p'.predicted = fold o state (window p'))) := by
  cases ackedId with
  | none => exact .inl rfl
  | some k =>
    by_cases hr : JsNumber.le k p.lastAckedId ∨ JsNumber.le (.ofNat p.nextId) k
    · exact .inl (by simp only [ack]; rw [if_pos hr])
    have hr' := not_or.mp hr
    refine .inr ⟨k, rfl, hr'.1, hr'.2, ?_⟩
    by_cases ho : p.overflowed = true
    · exact .inl ⟨ho, by simp only [ack]; rw [if_neg hr, if_pos ho]⟩
    have hof : p.overflowed = false := by simpa using ho
    refine .inr ⟨hof, _, rfl, ?_⟩
    simp only [ack]
    rw [if_neg hr, if_neg ho, dropConfirmed_eq]
    have hwin : window { p with lastAckedId := k, base := state } = window p := rfl
    have hdrop := window_dropConfirmed k { p with lastAckedId := k, base := state }
    have hhead' := head_dropConfirmed_le k (p := { p with lastAckedId := k, base := state })
      hhead
    rw [hwin] at hdrop
    refine ⟨rfl, rfl, rfl, hof, by simpa using hhead', ?_, ?_⟩
    · rw [← hdrop]
      exact List.map_drop.symm
    · rw [replay_eq_fold]
      exact congrArg (fold o state) List.map_drop

/-! ## the invariant -/

/-- What the window promises. -/
structure WindowInv (o : Options State Cmd Data) (p : Predictor State Cmd Data) : Prop where
  folded : p.predicted = fold o p.base (window p)
  increasing : (window p).Pairwise fun a b => a.id < b.id
  above : ∀ e ∈ window p, JsNumber.lt p.lastAckedId (.ofNat e.id)
  below : ∀ e ∈ window p, e.id < p.nextId
  capped : ((window p).length : ℚ) ≤ o.windowCap

/-- The invariant: the window's promises, and what keeps them. -/
structure Inv (o : Options State Cmd Data) (p : Predictor State Cmd Data) : Prop
    extends WindowInv o p where
  head : p.head ≤ p.pending.length
  number : p.lastAckedId ≠ .nan
  issued : JsNumber.lt p.lastAckedId (.ofNat p.nextId)
  first : 1 ≤ p.nextId
  idle : p.overflowed = true → window p = []

variable {o : Options State Cmd Data}

theorem inv_of_empty (hcap : 0 ≤ o.windowCap) (hw : window p = []) (hp : p.predicted = p.base)
    (hhead : p.head ≤ p.pending.length) (hnum : p.lastAckedId ≠ .nan)
    (hissued : JsNumber.lt p.lastAckedId (.ofNat p.nextId)) (hfirst : 1 ≤ p.nextId) : Inv o p where
  folded := by rw [hw, hp]; rfl
  increasing := by simp [hw]
  above := by simp [hw]
  below := by simp [hw]
  capped := by simpa [hw] using hcap
  head := hhead
  number := hnum
  issued := hissued
  first := hfirst
  idle _ := hw

theorem fold_append (o : Options State Cmd Data) (base : State) (es : List (Entry Cmd))
    (e : Entry Cmd) : fold o base (es ++ [e]) = applied o (fold o base es) e := by
  simp [fold]

theorem lt_nextId_succ {k : JsNumber} {n : Nat} (h : JsNumber.lt k (.ofNat n)) :
    JsNumber.lt k (.ofNat (n + 1)) :=
  JsNumber.lt_trans h (by simp)

theorem inv_killPrediction (hcap : 0 ≤ o.windowCap) (hnum : p.lastAckedId ≠ .nan)
    (hissued : JsNumber.lt p.lastAckedId (.ofNat p.nextId)) (hfirst : 1 ≤ p.nextId) :
    Inv o (killPrediction p) :=
  inv_of_empty hcap rfl rfl (Nat.le_refl 0) hnum hissued hfirst

theorem inv_command (hpure : Pure o.apply)
    (hcap : ∃ n : Nat, o.windowCap = n) (h : Inv o p) (cmd : Cmd)
    (monoNow : ℚ) (self : Option String) : Inv o (command o p cmd monoNow self).2 := by
  obtain ⟨n, hn⟩ := hcap
  have hcap0 : 0 ≤ o.windowCap := by
    rw [hn]
    exact Nat.cast_nonneg n
  obtain ⟨ho, hc⟩ | ⟨ho, hc⟩ | ⟨ho, hlt, r, hr, hc⟩ := command_cases o p cmd monoNow self
  · rw [hc]
    exact {
      folded := h.folded
      increasing := h.increasing
      above := h.above
      below := fun e he => Nat.lt_succ_of_lt (h.below e he)
      capped := h.capped
      head := h.head
      number := h.number
      issued := lt_nextId_succ h.issued
      first := Nat.le_succ_of_le h.first
      idle := h.idle }
  · rw [hc]
    exact inv_killPrediction hcap0 h.number (lt_nextId_succ h.issued) (Nat.le_succ_of_le h.first)
  · have hwin := window_append h.head
    rw [hc]
    constructor
    · constructor
      · show r.1 = fold o p.base (List.drop p.head _)
        rw [hwin, fold_append, ← h.folded, hr]
        exact hpure _ _ { firstTime := false, seed := p.nextId, key := self } true
      · show (List.drop p.head _).Pairwise _
        rw [hwin, List.pairwise_append]
        simpa [h.increasing] using h.below
      · show ∀ e ∈ List.drop p.head _, _
        rw [hwin]
        intro e he
        cases List.mem_append.mp he with
        | inl he => exact h.above e he
        | inr he =>
          rw [List.mem_singleton.mp he]
          exact h.issued
      · show ∀ e ∈ List.drop p.head _, _
        rw [hwin]
        intro e he
        cases List.mem_append.mp he with
        | inl he => exact Nat.lt_succ_of_lt (h.below e he)
        | inr he =>
          rw [List.mem_singleton.mp he]
          exact Nat.lt_succ_self _
      · show ((List.drop p.head _).length : ℚ) ≤ _
        rw [hn, Nat.cast_lt] at hlt
        rw [hwin, hn, Nat.cast_le, List.length_append]
        exact hlt
    · rw [List.length_append]
      exact Nat.le_add_right_of_le h.head
    · exact h.number
    · exact lt_nextId_succ h.issued
    · exact Nat.le_succ_of_le h.first
    · intro hover
      rw [show p.overflowed = true from hover] at ho
      contradiction

theorem inv_ack (h : Inv o p)
    {ackedId : Option JsNumber} (hnan : ackedId ≠ some .nan) (state : State)
    (self : Option String) : Inv o (ack o p ackedId state self).2 := by
  obtain hrej | ⟨k, rfl, hk, hk', hacc⟩ := ack_cases o h.head ackedId state self
  · rw [hrej]
    exact h
  have hknan : k ≠ .nan := fun heq => hnan (by rw [heq])
  have hissued : JsNumber.lt k (.ofNat p.nextId) :=
    JsNumber.lt_of_not_le (JsNumber.ofNat_ne_nan _) hknan hk'
  have hcap : 0 ≤ o.windowCap := le_trans (Nat.cast_nonneg _) h.capped
  obtain ⟨ho, heq⟩ | ⟨ho, p', heq, hbase, hacked, hnext, hover, hhead, hwin, hpred⟩ := hacc
  · rw [heq]
    exact inv_of_empty hcap (h.idle ho) rfl h.head hknan hissued h.first
  rw [heq]
  have hids : ∀ e ∈ window p', ∃ e' ∈ (window p).drop (confirmed k (window p)), e'.id = e.id := by
    intro e he
    rw [hwin] at he
    obtain ⟨e', he', rfl⟩ := List.mem_map.mp he
    exact ⟨e', he', rfl⟩
  constructor
  · constructor
    · rw [hpred, hbase]
    · rw [hwin, List.pairwise_map]
      exact h.increasing.sublist (List.drop_sublist _ _)
    · intro e he
      obtain ⟨e', he', hid⟩ := hids e he
      rw [hacked, ← hid]
      exact lt_of_mem_drop_confirmed hknan h.increasing e' he'
    · intro e he
      obtain ⟨e', he', hid⟩ := hids e he
      rw [hnext, ← hid]
      exact h.below e' (List.mem_of_mem_drop he')
    · have hlen : (window p').length ≤ (window p).length := by
        rw [hwin, List.length_map, List.length_drop]
        omega
      exact le_trans (Nat.cast_le.mpr hlen) h.capped
  · exact hhead
  · rwa [hacked]
  · rwa [hacked, hnext]
  · rw [hnext]
    exact h.first
  · intro ho'
    rw [hover] at ho'
    contradiction

theorem sync_watermark (hfirst : 1 ≤ p.nextId) (state : State) (ackedId : Option JsNumber) :
    (sync p state ackedId).lastAckedId ≠ .nan ∧
      JsNumber.lt (sync p state ackedId).lastAckedId (.ofNat p.nextId) := by
  have hmin : ∀ w : JsNumber, w ≠ .nan → JsNumber.min w (.ofNat (p.nextId - 1)) ≠ .nan ∧
      JsNumber.lt (JsNumber.min w (.ofNat (p.nextId - 1))) (.ofNat p.nextId) := by
    intro w hw
    have hle := JsNumber.min_le_right hw (JsNumber.ofNat_ne_nan (p.nextId - 1))
    have hlt : JsNumber.lt (.ofNat (p.nextId - 1)) (.ofNat p.nextId) :=
      JsNumber.lt_ofNat.mpr (by omega)
    exact ⟨JsNumber.min_ne_nan hw (JsNumber.ofNat_ne_nan _), JsNumber.lt_of_le_of_lt hle hlt⟩
  cases ackedId with
  | none => exact hmin _ (JsNumber.ofNat_ne_nan 0)
  | some n =>
    by_cases hn : JsNumber.le (.ofNat 0) n
    · have hnan : n ≠ .nan := by
        intro heq
        rw [heq] at hn
        exact JsNumber.not_le_nan _ hn
      simpa [sync, hn] using hmin n hnan
    · simpa [sync, hn] using hmin _ (JsNumber.ofNat_ne_nan 0)

theorem inv_sync (hcap : 0 ≤ o.windowCap)
    (h : Inv o p) (state : State) (ackedId : Option JsNumber) : Inv o (sync p state ackedId) :=
  have hw := sync_watermark h.first state ackedId
  inv_of_empty hcap rfl rfl (Nat.le_refl 0) hw.1 hw.2 h.first

theorem inv_rebase (h : Inv o p) (state : State) : Inv o (rebase p state).2 := by
  unfold rebase
  split
  · exact h
  · next hle =>
    have hw : window p = [] := List.drop_eq_nil_of_le (by omega)
    have hcap : 0 ≤ o.windowCap := le_trans (Nat.cast_nonneg _) h.capped
    exact inv_of_empty hcap hw rfl h.head h.number h.issued h.first

theorem inv_checkOverflow (h : Inv o p) (monoNow : ℚ) : Inv o (checkOverflow o p monoNow).2 := by
  have hcap : 0 ≤ o.windowCap := le_trans (Nat.cast_nonneg _) h.capped
  simp only [checkOverflow]
  split
  · exact inv_killPrediction hcap h.number h.issued h.first
  · exact h

theorem inv_reset (hcap : 0 ≤ o.windowCap) (h : Inv o p) (initial : Option State) :
    Inv o (reset o p initial) :=
  inv_of_empty hcap rfl rfl (Nat.le_refl 0) (JsNumber.ofNat_ne_nan 0)
    (JsNumber.lt_ofNat.mpr h.first) h.first

theorem inv_createPredictor (hcap : 0 ≤ o.windowCap) : Inv o (createPredictor o) :=
  inv_of_empty hcap rfl rfl (Nat.le_refl 0) (JsNumber.ofNat_ne_nan 0)
    (JsNumber.lt_ofNat.mpr Nat.one_pos) (Nat.le_refl 1)

variable {s : Session State Cmd Data}

theorem inv_step (hpure : Pure o.apply) (hcap : ∃ n : Nat, o.windowCap = n) (h : Inv o s.p)
    {a : Action State Cmd} (ha : Numeric s a) : Inv o (step o s a).p := by
  have hcap0 : 0 ≤ o.windowCap := le_trans (Nat.cast_nonneg _) h.capped
  cases a with
  | command cmd monoNow self => exact inv_command hpure hcap h cmd monoNow self
  | drainEvents =>
    exact ⟨⟨h.folded, h.increasing, h.above, h.below, h.capped⟩, h.head, h.number, h.issued,
      h.first, h.idle⟩
  | ack ackedId state self => exact inv_ack h ha state self
  | sync state ackedId => exact inv_sync hcap0 h state ackedId
  | rebase state => exact inv_rebase h state
  | checkOverflow monoNow => exact inv_checkOverflow h monoNow
  | reset initial => exact inv_reset hcap0 h initial

variable {as : List (Action State Cmd)}

theorem inv_run (hpure : Pure o.apply) (hcap : ∃ n : Nat, o.windowCap = n)
    (h : (session o).Runs Numeric as s) : Inv o s.p := by
  obtain ⟨n, hn⟩ := hcap
  have hcap0 : 0 ≤ o.windowCap := by
    rw [hn]
    exact Nat.cast_nonneg n
  apply h.invariant (inv_createPredictor hcap0)
  intro s a s' hs ha hnext
  obtain rfl : step o s a = s' := Option.some.inj hnext
  exact inv_step hpure ⟨n, hn⟩ hs ha

/-- **The window's promises** hold in every state of a session, when the cap is
a whole number and no acknowledged id is NaN. -/
theorem windowInv_run {o : Options State Cmd Data} (hpure : Pure o.apply)
    (hcap : ∃ n : Nat, o.windowCap = n) {as : List (Action State Cmd)}
    {s : Session State Cmd Data} (h : (session o).Runs Numeric as s) : WindowInv o s.p :=
  (inv_run hpure hcap h).toWindowInv

theorem runs_step {ok : Session State Cmd Data → Action State Cmd → Prop}
    (hok : ∀ a ∈ as, ∀ s, ok s a) : (session o).Runs ok as (as.foldl (step o) (session o).init) :=
  runs_foldl (fun _ _ => rfl) hok

/-- Commands that add to a number, in a window of three. -/
def adder : Options Int Int Unit :=
  { apply := fun s c _ => (s + c, []), initial := 0, computeError := fun _ _ => 0, windowCap := 3,
    windowMaxAgeMs := 3000 }

theorem windowInv_run_example :
    let as : List (Action Int Int) := [.command 5 0 none, .command 7 16 none,
      .ack (some (.ofNat 1)) 6 (some "self"), .command 1 32 (some "self")]
    WindowInv adder (as.foldl (step adder) (session adder).init).p := by
  intro as
  have hok : ∀ a ∈ as, ∀ s, @Numeric Int Int Unit s a := by
    intro a ha s
    simp only [as, List.mem_cons, List.not_mem_nil, or_false] at ha
    obtain rfl | rfl | rfl | rfl := ha <;> simp [Numeric]
  exact windowInv_run (fun _ _ _ _ => rfl) ⟨3, rfl⟩ (runs_step hok)

/-- NaN passes the guard of `ack`, and no id is above it. -/
theorem nan_ack_slips :
    let as : List (Action Int Int) := [.command 5 0 none, .ack (some .nan) 6 none]
    let s := as.foldl (step adder) (session adder).init
    (session adder).Runs Any as s ∧ s.p.lastAckedId = .nan ∧ ¬ WindowInv adder s.p := by
  intro as s
  have hacked : s.p.lastAckedId = .nan := by decide
  have hwin : (window s.p).length = 1 := by decide
  refine ⟨runs_step fun _ _ _ => trivial, hacked, ?_⟩
  intro h
  cases hw : window s.p with
  | nil => simp [hw] at hwin
  | cons e es =>
    have := h.above e (by simp [hw])
    exact JsNumber.not_nan_lt _ this

/-! ## acknowledgements from before a reset or a sync -/

/-- What a restart leaves behind: the window only holds ids issued since. -/
structure Marked (s : Session State Cmd Data) : Prop where
  head : s.p.head ≤ s.p.pending.length
  mark : s.mark ≤ s.p.nextId
  since : ∀ e ∈ window s.p, s.mark ≤ e.id
  idle : s.p.overflowed = true → window s.p = []

theorem marked_of_empty (hhead : s.p.head ≤ s.p.pending.length)
    (hmark : s.mark ≤ s.p.nextId) (hw : window s.p = []) : Marked s where
  head := hhead
  mark := hmark
  since := by simp [hw]
  idle _ := hw

theorem marked_restart (hp : p.pending = []) (hh : p.head = 0) : Marked (restart p) :=
  marked_of_empty (by simp [restart, hp, hh]) (Nat.le_refl _) (by simp [restart, window, hp])

theorem marked_command (o : Options State Cmd Data) (h : Marked s)
    (cmd : Cmd) (monoNow : ℚ) (self : Option String) :
    Marked { s with p := (command o s.p cmd monoNow self).2 } := by
  have hmark : s.mark ≤ s.p.nextId + 1 := Nat.le_succ_of_le h.mark
  obtain ⟨ho, hc⟩ | ⟨ho, hc⟩ | ⟨ho, -, r, -, hc⟩ := command_cases o s.p cmd monoNow self
  · rw [hc]
    exact ⟨h.head, hmark, h.since, h.idle⟩
  · rw [hc]
    exact marked_of_empty (Nat.le_refl 0) hmark rfl
  have hwin := window_append h.head
  rw [hc]
  constructor
  · rw [List.length_append]
    exact Nat.le_add_right_of_le h.head
  · exact hmark
  · show ∀ e ∈ List.drop s.p.head _, _
    rw [hwin]
    intro e he
    cases List.mem_append.mp he with
    | inl he => exact h.since e he
    | inr he =>
      rw [List.mem_singleton.mp he]
      exact h.mark
  · intro hover
    rw [show s.p.overflowed = true from hover] at ho
    contradiction

theorem marked_ack (o : Options State Cmd Data) (h : Marked s)
    (ackedId : Option JsNumber) (state : State) (self : Option String) :
    Marked (acknowledge s (ack o s.p ackedId state self)) := by
  obtain hrej | ⟨k, rfl, -, -, hacc⟩ := ack_cases o h.head ackedId state self
  · rw [hrej]
    exact ⟨h.head, h.mark, h.since, h.idle⟩
  obtain ⟨ho, heq⟩ | ⟨-, p', heq, -, -, hnext, hover, hhead, hwin, -⟩ := hacc
  · exact marked_of_empty (by simpa [acknowledge, heq] using h.head)
      (by simpa [acknowledge, heq] using h.mark)
      (by simpa [acknowledge, heq, window] using h.idle ho)
  · constructor
    · simpa [acknowledge, heq] using hhead
    · simpa [acknowledge, heq, hnext] using h.mark
    · intro e he
      simp only [acknowledge, heq, hwin] at he
      obtain ⟨e', he', rfl⟩ := List.mem_map.mp he
      exact h.since e' (List.mem_of_mem_drop he')
    · intro ho'
      rw [show p'.overflowed = true by simpa [acknowledge, heq] using ho'] at hover
      contradiction

theorem marked_step (o : Options State Cmd Data) (h : Marked s)
    (a : Action State Cmd) : Marked (step o s a) := by
  cases a with
  | command cmd monoNow self => exact marked_command o h cmd monoNow self
  | drainEvents => exact ⟨h.head, h.mark, h.since, h.idle⟩
  | ack ackedId state self => exact marked_ack o h ackedId state self
  | sync state ackedId | reset initial => exact marked_restart rfl rfl
  | rebase state =>
    simp only [step, rebase]
    split <;> exact ⟨h.head, h.mark, h.since, h.idle⟩
  | checkOverflow monoNow =>
    simp only [step, checkOverflow]
    split
    · exact marked_of_empty (Nat.le_refl 0) h.mark rfl
    · exact h

theorem marked_run (h : (session o).Runs Any as s) : Marked s := by
  apply h.invariant
  · exact marked_of_empty (Nat.le_refl 0) (Nat.zero_le _) rfl
  · intro s a s' hs _ hnext
    obtain rfl : step o s a = s' := Option.some.inj hnext
    exact marked_step o hs a

/-- The watermark is the largest of what was adopted and acknowledged. -/
structure Watermark (s : Session State Cmd Data) : Prop where
  first : 1 ≤ s.p.nextId
  mem : s.p.lastAckedId ∈ s.adopted
  max : ∀ x ∈ s.adopted, JsNumber.le x s.p.lastAckedId

theorem Watermark.number (h : Watermark s) : s.p.lastAckedId ≠ .nan := by
  intro heq
  have := h.max _ h.mem
  rw [heq] at this
  exact JsNumber.not_le_nan _ this

theorem Watermark.keep (h : Watermark s) (hlast : p.lastAckedId = s.p.lastAckedId)
    (hnext : s.p.nextId ≤ p.nextId) : Watermark { s with p } where
  first := Nat.le_trans h.first hnext
  mem := by
    rw [hlast]
    exact h.mem
  max x hx := by
    rw [hlast]
    exact h.max x hx

theorem watermark_restart (hfirst : 1 ≤ p.nextId)
    (hnum : p.lastAckedId ≠ .nan) : Watermark (restart p) where
  first := hfirst
  mem := by simp [restart]
  max x hx := by
    rw [List.mem_singleton.mp hx]
    exact JsNumber.le_refl hnum

theorem watermark_ack (o : Options State Cmd Data) (hm : Marked s)
    (h : Watermark s) {ackedId : Option JsNumber} (hnan : ackedId ≠ some .nan) (state : State)
    (self : Option String) : Watermark (acknowledge s (ack o s.p ackedId state self)) := by
  cases hr : ack o s.p ackedId state self with
  | mk res p' =>
    cases res with
    | none =>
      obtain hrej | ⟨k, rfl, hk, hk', -⟩ := ack_cases o hm.head ackedId state self
      · rw [hrej] at hr
        rw [← (Prod.mk.inj hr).2]
        exact h
      · simp only [ack] at hr
        rw [if_neg (not_or.mpr ⟨hk, hk'⟩)] at hr
        split at hr <;> simp at hr
    | some res =>
      obtain hrej | ⟨k, rfl, hk, hk', hacc⟩ := ack_cases o hm.head ackedId state self
      · rw [hrej] at hr
        simp at hr
      have hknan : k ≠ .nan := fun heq => hnan (by rw [heq])
      have hlt := JsNumber.lt_of_not_le hknan h.number hk
      have hp' : p'.lastAckedId = k ∧ p'.nextId = s.p.nextId := by
        rw [hr] at hacc
        obtain ⟨-, heq⟩ | ⟨-, p'', heq, -, hlast, hnext, -⟩ := hacc
        · simp only at heq
          simp [heq]
        · simp only at heq
          rw [heq]
          exact ⟨hlast, hnext⟩
      constructor
      · simpa [acknowledge, hp'.2] using h.first
      · simp [acknowledge]
      intro x hx
      simp only [acknowledge] at hx ⊢
      rw [hp'.1] at hx ⊢
      cases List.mem_cons.mp hx with
      | inl hx =>
        rw [hx]
        exact JsNumber.le_refl hknan
      | inr hx => exact JsNumber.le_trans (h.max x hx) (JsNumber.le_of_lt hlt)

theorem watermark_step (o : Options State Cmd Data) (hm : Marked s)
    (h : Watermark s) {a : Action State Cmd} (ha : Numeric s a) : Watermark (step o s a) := by
  cases a with
  | command cmd monoNow self =>
    obtain ⟨-, hc⟩ | ⟨-, hc⟩ | ⟨-, -, r, -, hc⟩ := command_cases o s.p cmd monoNow self
    all_goals
      simp only [step, hc]
      exact h.keep rfl (Nat.le_succ _)
  | drainEvents => exact h.keep rfl (Nat.le_refl _)
  | ack ackedId state self => exact watermark_ack o hm h ha state self
  | sync state ackedId => exact watermark_restart h.first (sync_watermark h.first state ackedId).1
  | rebase state =>
    simp only [step, rebase]
    split <;> exact h.keep rfl (Nat.le_refl _)
  | checkOverflow monoNow =>
    simp only [step, checkOverflow]
    split <;> exact h.keep rfl (Nat.le_refl _)
  | reset initial => exact watermark_restart h.first (JsNumber.ofNat_ne_nan 0)

theorem watermark_run (h : (session o).Runs Numeric as s) : Watermark s := by
  apply h.invariant_of
    fun h => marked_run (h.mono fun _ _ _ => trivial)
  · exact ⟨Nat.le_refl 1, by simp [session, createPredictor], by simp [session, createPredictor]⟩
  · intro s a s' hm hs ha hnext
    obtain rfl : step o s a = s' := Option.some.inj hnext
    exact watermark_step o hm hs ha

/-- The command of an entry, without the key of its last application. -/
def Entry.sent (e : Entry Cmd) : Nat × Cmd × ℚ := (e.id, e.cmd, e.sentMono)

/-- **An acknowledgement from before the most recent reset or sync** never
touches the window.  It is ignored when it is at or below the watermark, which
is the largest of what the restart adopted and what was acknowledged since;
above it, it rebases the prediction and replays the whole window. -/
theorem stale_ack {o : Options State Cmd Data} {as : List (Action State Cmd)}
    {s : Session State Cmd Data} (h : (session o).Runs Any as s) {k : Nat} (hk : k < s.mark)
    (state : State) (self : Option String) :
    let p' := (ack o s.p (some (.ofNat k)) state self).2
    (window p').map Entry.sent = (window s.p).map Entry.sent ∧
    (JsNumber.le (.ofNat k) s.p.lastAckedId → p' = s.p) ∧
    (¬ JsNumber.le (.ofNat k) s.p.lastAckedId →
      p'.base = state ∧ p'.predicted = fold o state (window p')) ∧
    ((∀ a ∈ as, ∀ s, @Numeric State Cmd Data s a) →
      (JsNumber.le (.ofNat k) s.p.lastAckedId ↔ ∃ x ∈ s.adopted, JsNumber.le (.ofNat k) x)) := by
  intro p'
  have hm := marked_run h
  have hfuture : ¬ JsNumber.le (.ofNat s.p.nextId) (.ofNat k) := by
    have := hm.mark
    simp only [JsNumber.le_ofNat]
    omega
  refine ⟨?_, ?_, ?_, ?_⟩
  · obtain hrej | ⟨k', hk', -, -, hacc⟩ := ack_cases o hm.head (some (.ofNat k)) state self
    · simp only [p', hrej]
    obtain ⟨-, heq⟩ | ⟨-, p'', heq, -, -, -, -, -, hwin, -⟩ := hacc
    · simp only [p', heq, window]
    have hzero : confirmed k' (window s.p) = 0 := by
      rw [← Option.some.inj hk']
      apply confirmed_eq_zero
      intro e he
      have := hm.since e he
      simp only [JsNumber.le_ofNat]
      omega
    simp only [p', heq]
    rw [hwin, hzero, List.map_map]
    rfl
  · intro hle
    simp only [p', ack]
    rw [if_pos (.inl hle)]
  · intro hle
    obtain hrej | ⟨k', hk', -, -, hacc⟩ := ack_cases o hm.head (some (.ofNat k)) state self
    · simp only [ack] at hrej
      rw [if_neg (not_or.mpr ⟨hle, hfuture⟩)] at hrej
      split at hrej <;> simp at hrej
    · obtain ⟨ho, heq⟩ | ⟨-, p'', heq, hbase, -, -, -, -, -, hpred⟩ := hacc
      · have hw : window p' = [] := by simpa [p', heq, window] using hm.idle ho
        rw [hw]
        simp [p', heq, fold]
      · simp only [p', heq]
        exact ⟨hbase, hpred⟩
  · intro hnum
    have hw := watermark_run (h.restrict hnum)
    constructor
    · intro hle
      exact ⟨_, hw.mem, hle⟩
    · intro hex
      obtain ⟨x, hx, hle⟩ := hex
      exact JsNumber.le_trans hle (hw.max x hx)

theorem stale_ack_example :
    let as : List (Action Int Int) := [.command 5 0 none, .command 7 16 none,
      .sync 20 (some (.ofNat 1)), .command 1 32 none]
    let s := as.foldl (step adder) (session adder).init
    (ack adder s.p (some (.ofNat 1)) 5 none).2 = s.p := by
  intro as s
  have hrun : (session adder).Runs Any as s := runs_step fun _ _ _ => trivial
  exact (stale_ack hrun (by decide +kernel) 5 none).2.1 (by decide +kernel)

/-- A reset sets the watermark to zero, so an acknowledgement in flight across
it rebases the predictor. -/
theorem reset_forgets_watermark :
    let as : List (Action Int Int) := [.command 5 0 none, .ack (some (.ofNat 1)) 5 none,
      .command 7 16 none, .reset none, .command 1 32 none]
    let s := as.foldl (step adder) (session adder).init
    (session adder).Runs Any as s ∧ 2 < s.mark ∧ s.p.base = 0 ∧ s.p.predicted = 1 ∧
      (ack adder s.p (some (.ofNat 2)) 12 none).2.base = 12 ∧
      (ack adder s.p (some (.ofNat 2)) 12 none).2.predicted = 13 := by
  intro as s
  have hrun : (session adder).Runs Any as s := runs_step fun _ _ _ => trivial
  exact ⟨hrun, by decide +kernel⟩

end BunServe.Smooth.Predict
