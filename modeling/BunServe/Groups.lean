import BunServe.Lib.JsMap
import BunServe.Lib.JsNumber
import BunServe.Lib.Machine

/-!
# BunServe.Groups

Broadcast groups with explicit membership (`plugins/groups/server.js`).

`join` calls the application in the middle, so a join that waits for the answer
of its admission hook is on a stack, and what the hook calls are the next steps.
The other hooks have the last word of their call.  `subscribed` are the sockets
the group has subscribed to its topic and not unsubscribed; `announced` are the
broadcasts, oldest first.

* `roster_of_runs` — members, subscriptions and broadcasts agree in every run in
  which each join that is admitted still fits when it is carried out;
* `phantom` — a join whose socket is gone is announced and never taken back.
-/

namespace BunServe.Groups

/-- The roles of a member. -/
inductive Role where
  | member
  | admin
  | viewer
  deriving DecidableEq

/-- The checked options of `createGroup`. -/
structure Options where
  maxMembers : JsNumber
  onJoin : Bool
  one_le : JsNumber.le (.ofNat 1) maxMembers

/-- What `onJoin` comes to: a refusal, a role, a string that is none, a promise,
anything else, or a throw. -/
inductive Decision where
  | refuse
  | role (r : Role)
  | badRole
  | promise
  | ignored
  | throws
  deriving DecidableEq

/-- A broadcast to the group. -/
inductive Notice where
  | join (role : Role) (count : Nat)
  | leave (role : Role) (count : Nat)
  | close
  deriving DecidableEq

/-- A join whose admission hook has not answered. -/
structure Joining (W : Type) where
  ws : W
  role : Role
  deriving DecidableEq

/-- The group; `joining` is the stack of joins, innermost first. -/
structure State (W : Type) where
  members : JsMap W Role := .empty
  closed : Bool := false
  subscribed : List W := []
  joining : List (Joining W) := []
  announced : List Notice := []

section Group

variable {W : Type} [DecidableEq W] (o : Options)

/-- `trackedSubscribe(ws, internalTopic)`; `alive` is whether the socket can be
subscribed. -/
def trackedSubscribe (s : State W) (ws : W) (alive : Bool) : Bool × State W :=
  if alive then
    (true, { s with
      subscribed := if ws ∈ s.subscribed then s.subscribed else s.subscribed ++ [ws] })
  else (false, s)

/-- `trackedUnsubscribe(ws, internalTopic)`. -/
def trackedUnsubscribe (s : State W) (ws : W) : State W :=
  { s with subscribed := s.subscribed.filter fun ws' => ws' ≠ ws }

/-- `join` behind its admission hook: membership, broadcast, subscription. -/
def enter (s : State W) (ws : W) (role : Role) (alive : Bool) : Bool × State W :=
  let members := s.members.set ws role
  let s := { s with members, announced := s.announced ++ [.join role members.size] }
  match trackedSubscribe s ws alive with
  | (true, s) => (true, s)
  | (false, s) => (false, { s with members := s.members.delete ws })

/-- `join(ws, platform, role)` up to the call of `onJoin`, or to its end: `none`
is an invalid role, which throws. -/
def join (s : State W) (ws : W) (role : Option Role) (alive : Bool) : State W :=
  if s.closed then s
  else if s.members.has ws then s
  else
    match role with
    | none => s
    | some role =>
      if JsNumber.le o.maxMembers (.ofNat s.members.size) then s
      else if o.onJoin then { s with joining := ⟨ws, role⟩ :: s.joining }
      else (enter s ws role alive).2

/-- The role a decision comes to; `none` refuses or throws. -/
def Decision.granted (requested : Role) : Decision → Option Role
  | refuse => none
  | role r => some r
  | badRole => none
  | promise => none
  | ignored => some requested
  | throws => none

/-- `join` from the answer of its hook on. -/
def answer (s : State W) (j : Joining W) (decision : Decision) (alive : Bool) : State W :=
  match decision.granted j.role with
  | none => s
  | some role => (enter s j.ws role alive).2

/-- `leave(ws, platform)`. -/
def leave (s : State W) (ws : W) : State W :=
  match s.members.get? ws with
  | none => s
  | some role =>
    let members := s.members.delete ws
    let s := trackedUnsubscribe { s with members } ws
    { s with announced := s.announced ++ [.leave role members.size] }

/-- `close(platform)`. -/
def close (s : State W) : State W :=
  if s.closed then s
  else
    let s := { s with closed := true, announced := s.announced ++ [Notice.close] }
    let s := s.members.keys.foldl trackedUnsubscribe s
    { s with members := .empty }

/-- A call, or the answer of the innermost admission hook. -/
inductive Action (W : Type) where
  | join (ws : W) (role : Option Role) (alive : Bool)
  | decides (decision : Decision) (alive : Bool)
  | leave (ws : W)
  | close

/-- One step. -/
def next (s : State W) : Action W → Option (State W)
  | .join ws role alive => some (join o s ws role alive)
  | .decides decision alive =>
    match s.joining with
    | [] => none
    | j :: joining => some (answer { s with joining } j decision alive)
  | .leave ws => some (leave s ws)
  | .close => some (close s)

/-- A group, from its creation. -/
def machine : Machine (State W) (Action W) := ⟨{}, next o⟩

/-- How many joins have been broadcast. -/
def State.joins (s : State W) : Nat :=
  s.announced.countP fun n => match n with | .join _ _ => true | _ => false

/-- How many leaves have been broadcast. -/
def State.leaves (s : State W) : Nat :=
  s.announced.countP fun n => match n with | .leave _ _ => true | _ => false

/-- What the group promises of a state. -/
structure Roster (s : State W) : Prop where
  bounded : JsNumber.le (.ofNat s.members.size) o.maxMembers
  subscribed : ∀ ws, ws ∈ s.members.keys ↔ ws ∈ s.subscribed
  announced : s.closed = false → s.joins = s.leaves + s.members.size

/-- The join can be carried out: the socket is not a member meanwhile and can be
subscribed, and one more member is within the bound.  A closed group has to
agree with its subscriptions only. -/
def Fits (s : State W) (ws : W) (alive : Bool) : Prop :=
  (s.closed = true ∨ ws ∉ s.members.keys ∧ alive = true) ∧
  (ws ∈ s.members.keys → alive = true) ∧
  (ws ∉ s.members.keys → alive = true → JsNumber.le (.ofNat (s.members.size + 1)) o.maxMembers)

/-- Each join that reaches its insertion can be carried out. -/
def Fitting (s : State W) : Action W → Prop
  | .join ws role alive =>
    s.closed = false → ws ∉ s.members.keys → role.isSome →
      ¬ JsNumber.le o.maxMembers (.ofNat s.members.size) → o.onJoin = false → Fits o s ws alive
  | .decides decision alive =>
    ∀ j ∈ s.joining.head?, (decision.granted j.role).isSome → Fits o s j.ws alive
  | _ => True

instance (s : State W) (ws : W) (alive : Bool) : Decidable (Fits o s ws alive) :=
  inferInstanceAs (Decidable ((_ ∨ _ ∧ _) ∧ (_ → _) ∧ (_ → _ → _)))

instance (s : State W) : (a : Action W) → Decidable (Fitting o s a)
  | .join _ _ _ => inferInstanceAs (Decidable (_ → _ → _ → _ → _ → Fits o s _ _))
  | .decides _ _ => inferInstanceAs (Decidable (∀ j ∈ s.joining.head?, _ → Fits o s j.ws _))
  | .leave _ => isTrue trivial
  | .close => isTrue trivial

/-! ## what every step keeps -/

variable {o} {s s' : State W}

theorem mem_trackedUnsubscribe (s : State W) (ws ws' : W) :
    ws' ∈ (trackedUnsubscribe s ws).subscribed ↔ ws' ∈ s.subscribed ∧ ws' ≠ ws := by
  simp [trackedUnsubscribe]

theorem mem_foldl_unsubscribe (s : State W) (wss : List W) (ws : W) :
    ws ∈ (wss.foldl trackedUnsubscribe s).subscribed ↔ ws ∈ s.subscribed ∧ ws ∉ wss := by
  induction wss generalizing s with
  | nil => simp
  | cons w wss ih =>
    rw [List.foldl_cons, ih, mem_trackedUnsubscribe, List.mem_cons]
    tauto

theorem foldl_unsubscribe (s : State W) (wss : List W) :
    wss.foldl trackedUnsubscribe s =
      { s with subscribed := (wss.foldl trackedUnsubscribe s).subscribed } := by
  induction wss generalizing s with
  | nil => rfl
  | cons w wss ih => exact ih (trackedUnsubscribe s w)

theorem mem_keys_set {m : JsMap W Role} {ws ws' : W} {role : Role} :
    ws' ∈ (m.set ws role).keys ↔ ws' = ws ∨ ws' ∈ m.keys := by
  rw [JsMap.keys_set]
  split
  · next h =>
    constructor
    · exact .inr
    · rintro (rfl | h')
      · exact h
      · exact h'
  · simp [or_comm]

theorem mem_keys_delete {m : JsMap W Role} {ws ws' : W} :
    ws' ∈ (m.delete ws).keys ↔ ws' ∈ m.keys ∧ ws' ≠ ws := by
  rw [JsMap.keys_delete]
  simp

theorem enter_alive (s : State W) (ws : W) (role : Role) :
    (enter s ws role true).2 = {
      members := s.members.set ws role
      closed := s.closed
      subscribed := if ws ∈ s.subscribed then s.subscribed else s.subscribed ++ [ws]
      joining := s.joining
      announced := s.announced ++ [.join role (s.members.set ws role).size] } := rfl

theorem enter_gone (s : State W) (ws : W) (role : Role) :
    (enter s ws role false).2 = { s with
      members := (s.members.set ws role).delete ws
      announced := s.announced ++ [.join role (s.members.set ws role).size] } := rfl

theorem Roster.enter (h : Roster o s) {ws : W} {alive : Bool} (hfits : Fits o s ws alive)
    (role : Role) : Roster o (enter s ws role alive).2 := by
  obtain ⟨hopen, hheld, hroom⟩ := hfits
  cases alive with
  | false =>
    -- only a closed group may have broadcast the join of a socket that is gone
    have hnot : ws ∉ s.members.keys := fun hmem => absurd (hheld hmem) (by simp)
    have hclosed : s.closed = true := hopen.resolve_right (by simp)
    rw [enter_gone, JsMap.delete_set_self (JsMap.get?_eq_none_iff.mpr hnot)]
    exact { h with announced := fun hc => by simp [hclosed] at hc }
  | true =>
    have hsize : (s.members.set ws role).size =
        if ws ∈ s.members.keys then s.members.size else s.members.size + 1 :=
      JsMap.size_set _ _ _
    rw [enter_alive]
    refine { bounded := ?_, subscribed := fun ws' => ?_, announced := fun hc => ?_ }
    · rw [hsize]
      split
      · exact h.bounded
      · next hnot => exact hroom hnot rfl
    · rw [mem_keys_set, h.subscribed]
      split
      · next hmem =>
        constructor
        · rintro (rfl | h')
          · exact hmem
          · exact h'
        · exact .inr
      · simp [or_comm]
    · have hnot : ws ∉ s.members.keys := (hopen.resolve_left (by simpa using hc)).1
      have hbalance := h.announced hc
      simp only [State.joins, State.leaves] at hbalance ⊢
      rw [hsize, if_neg hnot]
      simp
      omega

theorem Roster.leave (h : Roster o s) (ws : W) : Roster o (leave s ws) := by
  unfold Groups.leave
  split
  · exact h
  rename_i role hrole
  have hmem : ws ∈ s.members.keys := JsMap.mem_keys_iff.mpr ⟨role, hrole⟩
  have hsize := JsMap.size_delete hmem
  refine { bounded := ?_, subscribed := fun ws' => ?_, announced := fun hc => ?_ }
  · have hle : JsNumber.le (.ofNat (s.members.delete ws).size) (.ofNat s.members.size) := by
      rw [JsNumber.le_ofNat]
      omega
    exact JsNumber.le_trans hle h.bounded
  · show ws' ∈ (s.members.delete ws).keys ↔ ws' ∈ s.subscribed.filter fun w => decide (w ≠ ws)
    rw [mem_keys_delete, h.subscribed]
    simp
  · have hbalance := h.announced hc
    simp only [State.joins, State.leaves, trackedUnsubscribe] at hbalance ⊢
    simp
    omega

theorem Roster.close (h : Roster o s) : Roster o (close s) := by
  unfold Groups.close
  split
  · exact h
  dsimp only
  rw [foldl_unsubscribe]
  refine { bounded := ?_, subscribed := fun ws => ?_, announced := nofun }
  · exact JsNumber.le_trans (JsNumber.le_ofNat.mpr (Nat.zero_le 1)) o.one_le
  · have hws := h.subscribed ws
    rw [mem_foldl_unsubscribe]
    constructor
    · nofun
    · exact fun hleft => absurd (hws.mpr hleft.1) hleft.2

theorem Roster.next {a : Action W} (h : Roster o s) (hfit : Fitting o s a)
    (hn : Groups.next o s a = some s') : Roster o s' := by
  cases a with
  | join ws role alive =>
    rw [← Option.some.inj hn]
    unfold Groups.join
    split
    · exact h
    rename_i hopen
    split
    · exact h
    rename_i hhas
    split
    · exact h
    rename_i role
    split
    · exact h
    · next hroom =>
      split
      · exact { h with }
      · next hhook =>
        refine h.enter (hfit (by simpa using hopen) ?_ rfl hroom
          (by simpa using hhook)) role
        simpa [JsMap.has, JsMap.get?_eq_none_iff] using hhas
  | decides decision alive =>
    simp only [Groups.next] at hn
    split at hn
    · contradiction
    rename_i j joining hj
    rw [← Option.some.inj hn]
    have hroster : Roster o { s with joining } := { h with }
    unfold answer
    split
    · exact hroster
    · next role hrole =>
      have hfits := hfit j (by simp [hj]) (by simp [hrole])
      exact hroster.enter hfits role
  | leave ws =>
    rw [← Option.some.inj hn]
    exact h.leave ws
  | close =>
    rw [← Option.some.inj hn]
    exact h.close

end Group

/-- **The roster**: in every run in which each join that is admitted fits when it
is carried out, the members are within the bound and are the subscribed sockets,
and until the group is closed the joins broadcast are the leaves broadcast and
the members. -/
theorem roster_of_runs {W : Type} [DecidableEq W] (o : Options) {as : List (Action W)}
    {s : State W} (h : (machine o).Runs (Fitting o) as s) : Roster o s := by
  refine h.invariant ?_ fun _ _ _ hI hfit hn => hI.next hfit hn
  exact {
    bounded := JsNumber.le_trans (JsNumber.le_ofNat.mpr (Nat.zero_le 1)) o.one_le
    subscribed := fun ws => ⟨nofun, nofun⟩
    announced := fun _ => rfl }

/-- Two members at most, and an admission hook. -/
def pair : Options := ⟨.ofNat 2, true, by decide⟩

/-- A hook that joins another socket before it admits the first, a leave and the
end. -/
def nested : List (Action Nat) :=
  [.join 1 (some .member) true, .join 2 (some .viewer) true, .decides .ignored true,
    .decides (.role .admin) true, .leave 2, .close]

theorem roster_of_runs_nested : ∃ s, (machine pair).Runs (Fitting pair) nested s ∧
    Roster pair s := by
  obtain ⟨s, hs⟩ : ∃ s, (machine pair).execIf (fun s a => decide (Fitting pair s a))
      (machine pair).init nested = some s := Option.isSome_iff_exists.mp (by decide +kernel)
  have hruns := Machine.runs_of_execIf (fun _ _ hok => of_decide_eq_true hok) hs
  exact ⟨s, hruns, roster_of_runs pair hruns⟩

/-- **A phantom member**: the join of a socket that is gone is broadcast, and no
leave ever is. -/
theorem phantom : ¬ ∀ (o : Options) (as : List (Action Nat)) (s : State Nat),
    (machine o).Runs Machine.Any as s → Roster o s := by
  intro hall
  let o : Options := ⟨.ofNat 2, false, by decide⟩
  let trace : List (Action Nat) := [.join 1 (some .member) false]
  obtain ⟨s, hs⟩ : ∃ s, (machine o).exec (machine o).init trace = some s :=
    Option.isSome_iff_exists.mp (by decide +kernel)
  have hbad : ((machine o).exec (machine o).init trace).all (fun s =>
      decide (s.closed = false ∧ s.joins = 1 ∧ s.leaves = 0 ∧ s.members.size = 0)) = true := by
    decide +kernel
  rw [hs] at hbad
  obtain ⟨hopen, hjoins, hleaves, hsize⟩ := of_decide_eq_true hbad
  have := (hall o trace s (Machine.runs_of_exec hs)).announced hopen
  omega

end BunServe.Groups
