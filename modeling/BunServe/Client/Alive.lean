import BunServe.Client

/-!
# BunServe.Client.Alive

The connection never gives up silently.

* `Alive` — something will bring it forward: a socket with events to come, a
  preflight of the current generation, its reconnect timer, or a handler of the
  current generation that is still on the stack;
* `Core` — what makes the generations and the one timer trustworthy: a timer is
  always the one in `reconnectTimer` and of the current generation, an attempt to
  connect is made once for a generation and with no socket attached;
* `never_gives_up` — every run.

Each function has a lemma for `Core` and one for `Alive`; a step is their
composition.
-/

namespace BunServe.Client

open Machine
open JsMap (get?_set get?_set_self)
open List (mem_cons_of_mem)
open State (stopped)

/-! ## what brings a connection forward -/

/-- A socket, a preflight, or a timer. -/
def Armed (s : State) : Prop :=
  (∃ i r, s.ws = some i ∧ s.socks.get? i = some r ∧ r ≠ .closed) ∨
    (∃ p, (s.preflights.get? p).isSome = true ∧ (p, s.connectionGeneration) ∈ s.reactions) ∨
    ∃ t, s.reconnectTimer = some t ∧ s.timers.get? t = some s.connectionGeneration

/-- The generation of a handler that leads on to the next attempt. -/
def Frame.generation? : Frame → Option Nat
  | .replaced g | .connecting g | .drained g | .failed g | .throttled g | .schedule g _ => some g
  | .openedFailure _ | .openedStatus _ | .offline _ | .offlineFailure _ | .closing => none

/-- A handler of the current generation is still running. -/
def Owed (s : State) : Prop := ∃ f ∈ s.stack, f.generation? = some s.connectionGeneration

/-- The connection is stopped, has no URL, or something brings it forward. -/
def Alive (c : Config) (s : State) : Prop :=
  s.stopped = true ∨ c.hasUrl = false ∨ Armed s ∨ Owed s

/-! ## what makes the generations trustworthy -/

/-- The handler is going to open a socket for generation `g`. -/
def Frame.opens (g : Nat) (f : Frame) : Bool :=
  decide (f = .replaced g) || decide (f = .connecting g)

/-- The socket the handler is going to close. -/
def Frame.closes : Frame → Option Nat
  | .offline sock | .offlineFailure sock => sock
  | _ => none

/-- The attempts of the current generation that have not opened a socket. -/
def attempts (s : State) : Nat :=
  s.stack.countP (Frame.opens s.connectionGeneration) +
    s.reactions.countP fun x => decide (x.2 = s.connectionGeneration)

def live (r : Option ReadyState) : Bool := r = some .connecting || r = some .opened

/-- What holds in every state, also in the middle of a handler. -/
structure Core (s : State) : Prop where
  sock : ∀ i, s.ws = some i → ∃ r, s.socks.get? i = some r ∧ r ≠ .closed
  numbered : ∀ i r, s.socks.get? i = some r → i < s.nextSock
  lone : ∀ i, live (s.socks.get? i) = true → s.ws = some i ∨ ∃ f ∈ s.stack, f.closes = some i
  timer : ∀ t, s.reconnectTimer = some t → s.timers.get? t = some s.connectionGeneration
  timers : ∀ t g, s.timers.get? t = some g → s.reconnectTimer = some t
  auth : ∀ p, s.authInFlight = some p →
    (p, s.connectionGeneration) ∈ s.reactions ∧ s.preflights.get? p = some none
  known : ∀ x ∈ s.reactions, (s.preflights.get? x.1).isSome = true ∧ x.2 ≤ s.connectionGeneration
  preflight : ∀ p o, s.preflights.get? p = some o → p < s.nextPreflight
  frames : ∀ f ∈ s.stack, ∀ g, f.generation? = some g → g ≤ s.connectionGeneration
  single : attempts s ≤ 1
  unattached : 0 < attempts s → s.ws = none
  offline : s.offlineSimulated = true →
    s.ws = none ∧ s.reconnectTimer = none ∧ s.authInFlight = none
  perma : Frame.closing ∈ s.stack → s.intentionallyClosed = true

theorem core_init : Core .init := by
  constructor
  all_goals simp [State.init, attempts, live]

variable {g : Nat} {f : Frame}

theorem generation?_of_opens (h : f.opens g = true) : f.generation? = some g := by
  unfold Frame.opens at h
  rw [Bool.or_eq_true, decide_eq_true_eq, decide_eq_true_eq] at h
  cases h with
  | inl h | inr h => rw [h]; rfl

/-! ## the small steps -/

section

variable {c : Config} {s : State}

theorem attempts_notify (s : State) (f : Frame) :
    attempts (s.notify f) = attempts s + if f.opens s.connectionGeneration then 1 else 0 := by
  unfold attempts State.notify
  simp only [List.countP_cons]
  omega

theorem Core.restack (h : Core s) (stack : List Frame) (hframes : ∀ f ∈ stack, f ∈ s.stack ∨
      (∀ g, f.generation? = some g → g ≤ s.connectionGeneration) ∧
        (f = .closing → s.intentionallyClosed = true))
    (hcloses : ∀ f ∈ s.stack, ∀ i, f.closes = some i → ∃ g ∈ stack, g.closes = some i)
    (hsingle : attempts { s with stack } ≤ 1)
    (hunattached : 0 < attempts { s with stack } → s.ws = none) : Core { s with stack } :=
  { h with
    lone := fun i hi => (h.lone i hi).imp_right fun ⟨f, hf, hfi⟩ => hcloses f hf i hfi
    frames := fun f hf g hg => (hframes f hf).elim (h.frames f · g hg) (·.1 g hg)
    single := hsingle
    unattached := hunattached
    perma := fun hf => (hframes _ hf).elim h.perma (·.2 rfl) }

theorem Core.push (h : Core s) (hgen : ∀ g, f.generation? = some g → g ≤ s.connectionGeneration)
    (hperma : f = .closing → s.intentionallyClosed = true) (hsingle : attempts (s.notify f) ≤ 1)
    (hunattached : 0 < attempts (s.notify f) → s.ws = none) : Core (s.notify f) := by
  refine h.restack _ (fun g hg => ?_) (fun g hg i hi => ⟨g, mem_cons_of_mem _ hg, hi⟩) hsingle
    hunattached
  cases List.mem_cons.mp hg with
  | inl heq => exact Or.inr (heq ▸ ⟨hgen, hperma⟩)
  | inr hmem => exact Or.inl hmem

theorem Core.notify (h : Core s) (hopens : f.opens s.connectionGeneration = false)
    (hgen : ∀ g, f.generation? = some g → g ≤ s.connectionGeneration)
    (hperma : f = .closing → s.intentionallyClosed = true) : Core (s.notify f) := by
  have hcount : attempts (s.notify f) = attempts s := by
    rw [attempts_notify, hopens]
    rfl
  exact h.push hgen hperma (hcount ▸ h.single) (hcount ▸ h.unattached)

variable {i : Nat} {r : ReadyState}

theorem alive_of_sock (hws : s.ws = some i)
    (hget : s.socks.get? i = some r) (hr : r ≠ .closed) : Alive c s :=
  Or.inr (Or.inr (Or.inl (Or.inl ⟨i, r, hws, hget, hr⟩)))

variable {p : Nat}

theorem alive_of_preflight (hget : (s.preflights.get? p).isSome = true)
    (hmem : (p, s.connectionGeneration) ∈ s.reactions) : Alive c s :=
  Or.inr (Or.inr (Or.inl (Or.inr (Or.inl ⟨p, hget, hmem⟩))))

theorem alive_of_timer {t : Nat} (ht : s.reconnectTimer = some t)
    (hget : s.timers.get? t = some s.connectionGeneration) : Alive c s :=
  Or.inr (Or.inr (Or.inl (Or.inr (Or.inr ⟨t, ht, hget⟩))))

variable {s' : State}

theorem Alive.mono (h : Alive c s) (hstop : s.stopped = true → Alive c s')
    (hsock : ∀ i r, s.ws = some i → s.socks.get? i = some r → r ≠ .closed → Alive c s')
    (hpre : ∀ p, (s.preflights.get? p).isSome = true →
      (p, s.connectionGeneration) ∈ s.reactions → Alive c s')
    (htimer : ∀ t, s.reconnectTimer = some t →
      s.timers.get? t = some s.connectionGeneration → Alive c s')
    (howed : ∀ f ∈ s.stack, f.generation? = some s.connectionGeneration → Alive c s') :
    Alive c s' := by
  obtain h | h | h | h := h
  · exact hstop h
  · exact Or.inr (Or.inl h)
  · obtain ⟨i, r, hws, hget, hr⟩ | ⟨p, hget, hmem⟩ | ⟨t, ht, hget⟩ := h
    · exact hsock i r hws hget hr
    · exact hpre p hget hmem
    · exact htimer t ht hget
  · obtain ⟨f, hf, hgen⟩ := h
    exact howed f hf hgen

theorem Alive.notify (h : Alive c s) (f : Frame) : Alive c (s.notify f) :=
  h.mono Or.inl (fun _ _ hws hget hr => alive_of_sock hws hget hr)
    (fun _ hget hmem => alive_of_preflight hget hmem) (fun _ ht hget => alive_of_timer ht hget)
    fun g hg hgen => Or.inr (Or.inr (Or.inr ⟨g, mem_cons_of_mem _ hg, hgen⟩))

theorem alive_of_owed (hf : f.generation? = some s.connectionGeneration) : Alive c (s.notify f) :=
  Or.inr (Or.inr (Or.inr ⟨f, List.mem_cons_self .., hf⟩))

/-- What a socket reads after `close()`. -/
theorem get?_closeSock (s : State) (i j : Nat) :
    (s.closeSock i).socks.get? j =
      if j = i ∧ live (s.socks.get? i) = true then some .closing else s.socks.get? j := by
  unfold State.closeSock live
  split
  · next h =>
    rw [get?_set, h]
    by_cases hj : j = i
    · simp
    · simp
  · next h =>
    rw [get?_set, h]
    by_cases hj : j = i
    · simp
    · simp
  · next hnot hnot' =>
    rw [if_neg]
    rintro ⟨-, hl⟩
    rw [Bool.or_eq_true, decide_eq_true_eq, decide_eq_true_eq] at hl
    cases hl with
    | inl hl => exact hnot hl
    | inr hl => exact hnot' hl

theorem closeSock_eq (s : State) (i : Nat) :
    s.closeSock i = { s with socks := (s.closeSock i).socks } := by
  unfold State.closeSock
  split <;> rfl

variable {stack : List Frame}

/-- `close()` on a socket; what was to be closed need not be any more. -/
theorem core_closeSock (h : Core s) (i : Nat) (hstack : ∀ f ∈ stack, f ∈ s.stack)
    (hcloses : ∀ f ∈ s.stack, ∀ j, f.closes = some j → j = i ∨ ∃ g ∈ stack, g.closes = some j)
    (hcount : stack.countP (Frame.opens s.connectionGeneration) ≤
      s.stack.countP (Frame.opens s.connectionGeneration)) :
    Core ({ s with stack }.closeSock i) := by
  have hattempts : attempts { s with socks := ({ s with stack }.closeSock i).socks, stack } ≤
      attempts s := by
    exact Nat.add_le_add_right hcount _
  rw [closeSock_eq]
  refine { h with
    sock := ?_
    numbered := ?_
    lone := ?_
    frames := fun f hf => h.frames f (hstack f hf)
    perma := fun hf => h.perma (hstack _ hf)
    single := Nat.le_trans hattempts h.single
    unattached := fun hpos => h.unattached (Nat.lt_of_lt_of_le hpos hattempts) }
  · intro j hj
    rw [get?_closeSock]
    split
    · exact ⟨.closing, rfl, by decide⟩
    · exact h.sock j hj
  · intro j r hj
    have hget : ({ s with stack }.closeSock i).socks.get? j = some r := hj
    rw [get?_closeSock] at hget
    split at hget
    · next hlive =>
      rw [hlive.1]
      have hl : live (s.socks.get? i) = true := hlive.2
      cases hi : s.socks.get? i with
      | none =>
        rw [hi] at hl
        contradiction
      | some r => exact h.numbered i r hi
    · exact h.numbered j r hget
  · intro j hj
    have hget : live (({ s with stack }.closeSock i).socks.get? j) = true := hj
    rw [get?_closeSock] at hget
    split at hget
    · contradiction
    rename_i hnot
    have hl : live (s.socks.get? j) = true := hget
    cases h.lone j hl with
    | inl hws => exact Or.inl hws
    | inr hf =>
      obtain ⟨f, hf, hfj⟩ := hf
      cases hcloses f hf j hfj with
      | inl heq =>
        subst heq
        exact absurd ⟨rfl, hl⟩ hnot
      | inr hg => exact Or.inr hg

theorem Alive.closeSock (h : Alive c s) (i : Nat) : Alive c (s.closeSock i) := by
  rw [closeSock_eq]
  refine h.mono Or.inl ?_ (fun _ hget hmem => alive_of_preflight hget hmem)
    (fun _ ht hget => alive_of_timer ht hget)
    fun g hg hgen => Or.inr (Or.inr (Or.inr ⟨g, hg, hgen⟩))
  intro j r hws hget hr
  have hj := get?_closeSock s i j
  split at hj
  · exact alive_of_sock hws hj (by decide)
  · exact alive_of_sock hws (hj.trans hget) hr

theorem attempts_cons (hstack : s.stack = f :: stack) :
    attempts s = attempts { s with stack } + if f.opens s.connectionGeneration then 1 else 0 := by
  show s.stack.countP (Frame.opens s.connectionGeneration) +
      s.reactions.countP (fun x => decide (x.2 = s.connectionGeneration)) =
    stack.countP (Frame.opens s.connectionGeneration) +
      s.reactions.countP (fun x => decide (x.2 = s.connectionGeneration)) + _
  rw [hstack, List.countP_cons]
  omega

theorem Core.pop (h : Core s) (hstack : s.stack = f :: stack)
    (hcloses : f.closes = none) : Core { s with stack } := by
  have hcount : attempts { s with stack } ≤ attempts s := by
    rw [attempts_cons hstack]
    exact Nat.le_add_right _ _
  refine h.restack _ (fun g hg => Or.inl (hstack ▸ mem_cons_of_mem _ hg)) (fun g hg i hi => ?_)
    (Nat.le_trans hcount h.single) fun hpos => h.unattached (Nat.lt_of_lt_of_le hpos hcount)
  rw [hstack] at hg
  cases List.mem_cons.mp hg with
  | inl heq =>
    rw [heq, hcloses] at hi
    contradiction
  | inr hmem => exact ⟨g, hmem, hi⟩

theorem attempts_pop (h : Core s) (hstack : s.stack = f :: stack)
    (hopens : f.opens s.connectionGeneration = true) :
    attempts { s with stack } = 0 ∧ s.ws = none := by
  have hsingle := h.single
  have hcount := attempts_cons hstack
  rw [hopens, if_pos rfl] at hcount
  exact ⟨by omega, h.unattached (by omega)⟩

theorem Alive.pop (h : Alive c s) (hstack : s.stack = f :: stack) :
    Alive c { s with stack } ∨ f.generation? = some s.connectionGeneration := by
  by_cases hf : f.generation? = some s.connectionGeneration
  · exact Or.inr hf
  refine Or.inl (h.mono Or.inl (fun _ _ hws hget hr => alive_of_sock hws hget hr)
    (fun _ hget hmem => alive_of_preflight hget hmem)
    (fun _ ht hget => alive_of_timer ht hget) ?_)
  intro g hg hgen
  rw [hstack] at hg
  cases List.mem_cons.mp hg with
  | inl heq => exact absurd (heq ▸ hgen) hf
  | inr hmem => exact Or.inr (Or.inr (Or.inr ⟨g, hmem, hgen⟩))

/-! ## cancelling -/

/-- What `clearReconnect` leaves: no timer.  It neither reads nor changes the flags. -/
theorem clearReconnect_eq (s : State) (refund : Bool) : ∃ timers attempt backoffAttempt,
    (∀ gen auth closed off, Client.clearReconnect { s with
        connectionGeneration := gen
        authInFlight := auth
        intentionallyClosed := closed
        offlineSimulated := off } refund = { s with
      connectionGeneration := gen
      authInFlight := auth
      intentionallyClosed := closed
      offlineSimulated := off
      timers
      reconnectTimer := none
      attempt
      backoffAttempt
      reconnectAttemptReserved := false }) ∧
    ((∀ t g, s.timers.get? t = some g → s.reconnectTimer = some t) →
      ∀ t g, timers.get? t ≠ some g) := by
  refine ⟨s.reconnectTimer.elim s.timers s.timers.delete,
    if refund && s.reconnectAttemptReserved && decide (s.attempt > 0) then s.attempt - 1 else s.attempt,
    if refund && s.reconnectAttemptReserved && decide (s.attempt > 0) then s.backoffAttempt - 1
    else s.backoffAttempt, fun gen auth closed off => ?_, fun hall t g hget => ?_⟩
  · unfold Client.clearReconnect
    cases htimer : s.reconnectTimer <;> dsimp only <;> split <;> simp only [*, Option.elim]
  · cases htimer : s.reconnectTimer with
    | none =>
      rw [htimer] at hget
      have := hall t g hget
      rw [htimer] at this
      contradiction
    | some u =>
      rw [htimer] at hget
      obtain ⟨hne, hget⟩ := JsMap.of_get?_delete hget
      exact hne (Option.some.inj ((hall t g hget).symm.trans htimer))

theorem Core.clearReconnect (h : Core s) (refund : Bool) :
    Core (clearReconnect s refund) ∧ (Client.clearReconnect s refund).reconnectTimer = none := by
  obtain ⟨timers, a, b, heq, hnone⟩ := clearReconnect_eq s refund
  have hs : Client.clearReconnect s refund = _ := heq _ _ _ _
  rw [hs]
  exact ⟨{ h with
    timer := nofun
    timers := fun t g hget => absurd hget (hnone h.timers t g)
    offline := fun hoff => ⟨(h.offline hoff).1, rfl, (h.offline hoff).2.2⟩ }, rfl⟩

theorem attempts_fresh {reactions : List (Nat × Nat)}
    (hframes : ∀ f ∈ stack, ∀ n, f.generation? = some n → n ≤ g)
    (hknown : ∀ x ∈ reactions, x.2 ≤ g) :
    stack.countP (Frame.opens (g + 1)) + reactions.countP (fun x => decide (x.2 = g + 1)) = 0 := by
  have hstack : stack.countP (Frame.opens (g + 1)) = 0 := by
    rw [List.countP_eq_zero]
    intro f hf hopens
    have := hframes f hf _ (generation?_of_opens hopens)
    omega
  have hreactions : reactions.countP (fun x => decide (x.2 = g + 1)) = 0 := by
    rw [List.countP_eq_zero]
    intro x hx heq
    have := hknown x hx
    simp only [decide_eq_true_eq] at heq
    omega
  omega

theorem Core.bump (h : Core s) (htimer : s.reconnectTimer = none) :
    Core { s with connectionGeneration := s.connectionGeneration + 1, authInFlight := none } ∧
      attempts { s with
        connectionGeneration := s.connectionGeneration + 1, authInFlight := none } = 0 := by
  have hcount : attempts { s with
      connectionGeneration := s.connectionGeneration + 1, authInFlight := none } = 0 :=
    attempts_fresh h.frames fun x hx => (h.known x hx).2
  refine ⟨?_, hcount⟩
  refine { h with
    timer := ?_
    auth := ?_
    known := fun x hx => ⟨(h.known x hx).1, Nat.le_succ_of_le (h.known x hx).2⟩
    frames := fun f hf g hg => Nat.le_succ_of_le (h.frames f hf g hg)
    single := by rw [hcount]; exact Nat.zero_le 1
    unattached := fun hpos => absurd hpos (by rw [hcount]; exact Nat.lt_irrefl 0)
    offline := fun hoff => ⟨(h.offline hoff).1, (h.offline hoff).2.1, rfl⟩ }
  · intro t ht
    have : s.reconnectTimer = some t := ht
    rw [htimer] at this
    contradiction
  · intro p hp
    contradiction

theorem Core.cancel (h : Core s) (refund : Bool) : ∃ t, Core t ∧ t.reconnectTimer = none ∧
    t.authInFlight = none ∧ t.intentionallyClosed = s.intentionallyClosed ∧
    t.offlineSimulated = s.offlineSimulated ∧
    ∀ closed off, Client.clearReconnect (cancelAttempt { s with
        intentionallyClosed := closed
        offlineSimulated := off }) refund =
      { t with intentionallyClosed := closed, offlineSimulated := off } := by
  obtain ⟨timers, a, b, heq, -⟩ := clearReconnect_eq s refund
  obtain ⟨hcore, hnone⟩ := h.clearReconnect refund
  have hbump := (hcore.bump hnone).1
  rw [show Client.clearReconnect s refund = _ from heq _ _ _ _] at hbump
  exact ⟨_, hbump, rfl, rfl, rfl, rfl, fun closed off => heq _ _ _ _⟩

/-! ## connecting -/

theorem stopped_false {s : State} (h : s.stopped = false) :
    s.intentionallyClosed = false ∧ s.terminalClosed = false ∧ s.offlineSimulated = false := by
  unfold stopped at h
  simp only [Bool.or_eq_false_iff] at h
  exact ⟨h.1.1, h.1.2, h.2⟩

theorem currentAttempt_iff :
    s.currentAttempt g = true ↔ g = s.connectionGeneration ∧ s.stopped = false := by
  unfold State.currentAttempt stopped
  simp [and_assoc]

/-- `scheduleReconnect`: a timer, or the connection has given up openly. -/
theorem core_scheduleReconnect (h : Core s) (override : Bool) :
    Core (scheduleReconnect c s override) ∧ Alive c (scheduleReconnect c s override) := by
  unfold scheduleReconnect
  by_cases hstop : (s.stopped || s.reconnectTimer.isSome) = true
  · rw [if_pos hstop]
    refine ⟨h, ?_⟩
    rw [Bool.or_eq_true] at hstop
    cases hstop with
    | inl hstop => exact Or.inl hstop
    | inr hsome =>
      obtain ⟨t, ht⟩ := Option.isSome_iff_exists.mp hsome
      exact alive_of_timer ht (h.timer t ht)
  · rw [if_neg hstop]
    simp only [Bool.or_eq_true, not_or, Bool.not_eq_true, Option.isSome_eq_false_iff,
      Option.isNone_iff_eq_none] at hstop
    obtain ⟨hon, hnone⟩ := hstop
    have hon := (stopped_false hon).2.2
    by_cases hexhausted : exhausted c s = true
    · rw [if_pos hexhausted]
      exact ⟨{ h with }, Or.inl (by simp [stopped])⟩
    rw [if_neg hexhausted]
    have hset : ∀ (a b : Nat) (r : Bool), Core { s with
          attempt := a
          backoffAttempt := b
          reconnectAttemptReserved := r
          reconnectTimer := some s.nextTimer
          timers := s.timers.set s.nextTimer s.connectionGeneration
          nextTimer := s.nextTimer + 1 } ∧
        Alive c { s with
          reconnectTimer := some s.nextTimer
          timers := s.timers.set s.nextTimer s.connectionGeneration
          nextTimer := s.nextTimer + 1 } := by
      intro a b r
      refine ⟨{ h with
        timer := ?_
        timers := ?_
        offline := fun hoff => absurd (hon.symm.trans hoff) nofun }, alive_of_timer rfl (get?_set_self _ _ _)⟩
      · intro t ht
        cases ht
        exact get?_set_self _ _ _
      · intro t g hget
        obtain ⟨rfl, -⟩ | ⟨-, hget⟩ := JsMap.of_get?_set hget
        · rfl
        · exact absurd (hnone.symm.trans (h.timers t g hget)) nofun
    cases override with
    | true | false => exact hset _ _ _

/-- `openSocket`: a socket, or a later attempt. -/
theorem core_openSocket (h : Core s) (hws : s.ws = none) (hcount : attempts s = 0)
    (hstop : s.stopped = false) (throws : Bool) :
    Core (openSocket c s throws) ∧ Alive c (openSocket c s throws) := by
  cases throws with
  | true =>
    have hreset : Core { s with reconnectAttemptReserved := false } := { h with }
    exact core_scheduleReconnect hreset false
  | false =>
    refine ⟨?_, Or.inr (Or.inr (Or.inl (Or.inl ?_)))⟩
    · refine { h with
        sock := ?_
        numbered := ?_
        lone := ?_
        unattached := fun hpos => absurd hpos (by
          show ¬ 0 < attempts s
          rw [hcount]
          exact Nat.lt_irrefl 0)
        offline := ?_ }
      · intro i hi
        cases hi
        exact ⟨.connecting, get?_set_self _ _ _, by decide⟩
      · intro i r hget
        obtain ⟨rfl, -⟩ | ⟨-, hget⟩ := JsMap.of_get?_set hget
        · exact Nat.lt_succ_self _
        · exact Nat.lt_succ_of_lt (h.numbered i r hget)
      · intro i hi
        have hi' : live ((s.socks.set s.nextSock .connecting).get? i) = true := hi
        rw [get?_set] at hi'
        split at hi'
        · next heq => exact Or.inl (congrArg some heq.symm)
        · cases h.lone i hi' with
          | inl hw =>
            rw [hws] at hw
            contradiction
          | inr hf => exact Or.inr hf
      · intro hoff
        exact absurd ((stopped_false hstop).2.2.symm.trans hoff) (by simp)
    · exact ⟨s.nextSock, .connecting, rfl, get?_set_self _ _ _, by decide⟩

/-- `runAuth`: a preflight of the current generation. -/
theorem core_runAuth (h : Core s) (hws : s.ws = none) (hcount : attempts s = 0)
    (hstop : s.stopped = false) :
    Core (runAuth c s s.connectionGeneration) ∧ Alive c (runAuth c s s.connectionGeneration) := by
  have hone : ∀ p, s.stack.countP (Frame.opens s.connectionGeneration) +
      (s.reactions ++ [(p, s.connectionGeneration)]).countP
        (fun x : Nat × Nat => decide (x.2 = s.connectionGeneration)) = 1 := by
    intro p
    have hcount' : s.stack.countP (Frame.opens s.connectionGeneration) +
        s.reactions.countP (fun x => decide (x.2 = s.connectionGeneration)) = 0 := hcount
    rw [List.countP_append]
    simp only [List.countP_singleton, decide_true, if_true]
    omega
  unfold runAuth
  split
  · next p hauth =>
    obtain ⟨hmem, hget⟩ := h.auth p hauth
    have hsome : (s.preflights.get? p).isSome = true := by rw [hget]; rfl
    refine ⟨?_, Or.inr (Or.inr (Or.inl (Or.inr (Or.inl
      ⟨p, hsome, List.mem_append_right _ (List.mem_singleton_self _)⟩))))⟩
    refine { h with
      auth := ?_
      known := ?_
      single := Nat.le_of_eq (hone p)
      unattached := fun _ => hws }
    · intro q hq
      obtain ⟨hq₁, hq₂⟩ := h.auth q hq
      exact ⟨List.mem_append_left _ hq₁, hq₂⟩
    · intro x hx
      cases List.mem_append.mp hx with
      | inl hx => exact h.known x hx
      | inr hx =>
        rw [List.mem_singleton.mp hx]
        exact ⟨hsome, Nat.le_refl _⟩
  · next hauth =>
    have hkept : ∀ p, (s.preflights.get? p).isSome = true → ∀ o,
        ((s.preflights.set s.nextPreflight o).get? p).isSome = true := by
      intro p hp o
      rw [get?_set]
      split
      · rfl
      · exact hp
    refine ⟨?_, Or.inr (Or.inr (Or.inl (Or.inr (Or.inl ⟨s.nextPreflight, ?_,
      List.mem_append_right _ (List.mem_singleton_self _)⟩))))⟩
    · refine { h with
        auth := ?_
        known := ?_
        preflight := ?_
        single := Nat.le_of_eq (hone _)
        unattached := fun _ => hws
        offline := ?_ }
      · intro q hq
        by_cases hurl : c.authUrl = true
        · simp only [hurl, if_true, Option.some.injEq] at hq
          subst hq
          refine ⟨List.mem_append_right _ (List.mem_singleton_self _), ?_⟩
          rw [get?_set_self, if_pos hurl]
        · simp [hurl] at hq
      · intro x hx
        cases List.mem_append.mp hx with
        | inl hx => exact ⟨hkept _ (h.known x hx).1 _, (h.known x hx).2⟩
        | inr hx =>
          rw [List.mem_singleton.mp hx]
          refine ⟨?_, Nat.le_refl _⟩
          rw [get?_set_self]
          rfl
      · intro p o hget
        obtain ⟨rfl, -⟩ | ⟨-, hget⟩ := JsMap.of_get?_set hget
        · exact Nat.lt_succ_self _
        · exact Nat.lt_succ_of_lt (h.preflight p o hget)
      · intro hoff
        exact absurd ((stopped_false hstop).2.2.symm.trans hoff) (by simp)
    · rw [get?_set_self]
      rfl

theorem Core.notify_opens (h : Core s) (hws : s.ws = none) (hcount : attempts s = 0)
    (hf : f.opens s.connectionGeneration = true) : Core (s.notify f) := by
  have hone : attempts (s.notify f) = 1 := by
    rw [attempts_notify, hcount, if_pos hf]
  refine h.push (fun n hn => ?_) (fun heq => ?_) (Nat.le_of_eq hone) fun _ => hws
  · rw [generation?_of_opens hf] at hn
    exact Nat.le_of_eq (Option.some.inj hn).symm
  · rw [heq] at hf
    contradiction

/-- `doConnect` with no timer armed. -/
theorem core_doConnect (h : Core s) (htimer : s.reconnectTimer = none) :
    Core (doConnect c s) ∧ Alive c (doConnect c s) := by
  unfold doConnect
  by_cases hskip : (s.stopped || !c.hasUrl || s.attached || s.authInFlight.isSome) = true
  · rw [if_pos hskip]
    refine ⟨h, ?_⟩
    simp only [Bool.or_eq_true, Bool.not_eq_true'] at hskip
    cases hskip with
    | inr hauth =>
      obtain ⟨p, hp⟩ := Option.isSome_iff_exists.mp hauth
      obtain ⟨hmem, hget⟩ := h.auth p hp
      exact alive_of_preflight (by rw [hget]; rfl) hmem
    | inl hskip =>
      cases hskip with
      | inl hskip =>
        cases hskip with
        | inl hstop => exact Or.inl hstop
        | inr hurl => exact Or.inr (Or.inl hurl)
      | inr hattached =>
        have hws : ∃ i, s.ws = some i := by
          cases hw : s.ws with
          | none => simp [State.attached, State.readyState, hw] at hattached
          | some i => exact ⟨i, rfl⟩
        obtain ⟨i, hi⟩ := hws
        obtain ⟨r, hget, hr⟩ := h.sock i hi
        exact alive_of_sock hi hget hr
  · rw [if_neg hskip]
    have hauth : s.authInFlight = none := by
      cases ha : s.authInFlight with
      | none => rfl
      | some p => simp [ha] at hskip
    obtain ⟨hbump, hcount⟩ := h.bump htimer
    rw [← hauth] at hbump hcount
    by_cases hws : s.ws.isSome = true
    · rw [if_pos hws]
      have hdetach : Core { s with
          connectionGeneration := s.connectionGeneration + 1, ws := none } := by
        refine { hbump with
          sock := by simp
          lone := ?_
          unattached := fun _ => rfl
          offline := fun hoff => ⟨rfl, (hbump.offline hoff).2⟩ }
        intro i hi
        cases hbump.lone i hi with
        | inr hf => exact Or.inr hf
        | inl hw =>
          -- the socket it replaces was neither connecting nor open
          have hw' : s.ws = some i := hw
          have hl : live (s.socks.get? i) = true := hi
          have : s.attached = true := by
            unfold State.attached State.readyState
            rw [hw']
            exact hl
          rw [this] at hskip
          simp at hskip
      exact ⟨hdetach.notify_opens rfl hcount (by simp [Frame.opens]), alive_of_owed rfl⟩
    · rw [if_neg hws]
      have hnone : s.ws = none := by
        cases hw : s.ws with
        | none => rfl
        | some i => simp [hw] at hws
      exact ⟨hbump.notify_opens hnone hcount (by simp [Frame.opens]), alive_of_owed rfl⟩

/-! ## the calls of the application -/

theorem Core.detach (h : Core s) : Core ({ s with ws := none }.notify (.offline s.ws)) := by
  have hpush : Core (s.notify (.offline s.ws)) := h.notify rfl nofun nofun
  refine { hpush with
    sock := nofun
    lone := fun i hi => ?_
    unattached := fun _ => rfl
    offline := fun hoff => ⟨rfl, (h.offline hoff).2⟩ }
  cases hpush.lone i hi with
  | inl hws => exact Or.inr ⟨.offline s.ws, List.mem_cons_self .., hws⟩
  | inr hf => exact Or.inr hf

theorem core_closeOptional (h : Core s)
    (hstack : s.stack = f :: stack) : Core (closeOptional { s with stack } f.closes) := by
  cases hcloses : f.closes with
  | none => exact h.pop hstack hcloses
  | some i =>
    refine core_closeSock h i ?_ ?_ ?_
    · intro g hg
      rw [hstack]
      exact mem_cons_of_mem _ hg
    · intro g hg j hj
      rw [hstack] at hg
      cases List.mem_cons.mp hg with
      | inl heq =>
        rw [heq, hcloses] at hj
        exact Or.inl (Option.some.inj hj).symm
      | inr hmem => exact Or.inr ⟨g, hmem, hj⟩
    · rw [hstack, List.countP_cons]
      exact Nat.le_add_right _ _

theorem Alive.closeOptional (h : Alive c s) (sock : Option Nat) :
    Alive c (closeOptional s sock) := by
  cases sock with
  | none => exact h
  | some i => exact h.closeSock i

theorem core_simulateOffline (h : Core s) (ha : Alive c s) :
    Core (simulateOffline c s) ∧ Alive c (simulateOffline c s) := by
  unfold simulateOffline
  by_cases hskip : (s.stopped || !c.hasUrl) = true
  · rw [if_pos hskip]
    exact ⟨h, ha⟩
  rw [if_neg hskip]
  obtain ⟨t, hcore, htimer, hauth, hclosed, -, heq⟩ := h.cancel true
  have hdetach := hcore.detach
  rw [show clearReconnect (cancelAttempt { s with offlineSimulated := true }) true = _ from
    heq s.intentionallyClosed true]
  refine ⟨?_, Or.inl (by simp [stopped, State.notify])⟩
  exact { hdetach with
    offline := fun _ => ⟨rfl, htimer, hauth⟩
    perma := fun hmem => hclosed.symm.trans (hdetach.perma hmem) }

theorem core_resumeOnline (h : Core s) (ha : Alive c s) :
    Core (resumeOnline c s) ∧ Alive c (resumeOnline c s) := by
  unfold resumeOnline
  split
  · exact ⟨h, ha⟩
  rename_i hgo
  have hoff : s.offlineSimulated = true := by
    cases ho : s.offlineSimulated with
    | true => rfl
    | false => simp [ho] at hgo
  have hcore : Core { s with offlineSimulated := false } :=
    { h with offline := nofun }
  exact core_doConnect hcore (h.offline hoff).2.1

theorem core_close (h : Core s) : Core (close s) ∧ Alive c (close s) := by
  obtain ⟨t, hcore, -, -, -, hoff, heq⟩ := h.cancel false
  unfold close
  rw [show clearReconnect (cancelAttempt { s with intentionallyClosed := true }) false = _ from
    heq true s.offlineSimulated]
  have hclosed : Core { t with
      intentionallyClosed := true, offlineSimulated := s.offlineSimulated } :=
    { hcore with
      offline := fun ho => hcore.offline (hoff.trans ho)
      perma := fun _ => rfl }
  refine ⟨hclosed.notify rfl (nofun) (fun _ => rfl), Or.inl ?_⟩
  simp [stopped, State.notify]

theorem core_mail (h : Core s) (ha : Alive c s) (q : List Message) (n : Nat)
    (handed : List (Nat × Message)) (displaced : List (Message × List Message)) :
    Core { s with sendQueue := q, calls := n, handed, displaced } ∧
      Alive c { s with sendQueue := q, calls := n, handed, displaced } := ⟨{ h with }, ha⟩

theorem core_sendQueued (h : Core s) (ha : Alive c s) (serialized : Option String) :
    Core (sendQueued s serialized) ∧ Alive c (sendQueued s serialized) := by
  unfold sendQueued
  split
  · exact core_mail h ha ..
  · unfold displace
    split
    · exact core_mail h ha ..
    · split
      · exact core_mail h ha ..
      · exact core_mail h ha ..

/-! ## what a handler does after its store is set -/

theorem alive_of_stale (ha : Alive c s)
    (hstack : s.stack = f :: stack) (hf : f.generation? = some g)
    (hstale : ({ s with stack } : State).currentAttempt g ≠ true) : Alive c { s with stack } := by
  cases ha.pop hstack with
  | inl ha => exact ha
  | inr hgen =>
    have hg : g = s.connectionGeneration := Option.some.inj (hf.symm.trans hgen)
    cases hstop : s.stopped with
    | true => exact Or.inl hstop
    | false => exact absurd (currentAttempt_iff.mpr ⟨hg, hstop⟩) hstale

theorem Alive.pop_of_none (ha : Alive c s)
    (hstack : s.stack = f :: stack) (hf : f.generation? = none) : Alive c { s with stack } := by
  cases ha.pop hstack with
  | inl ha => exact ha
  | inr hgen =>
    rw [hf] at hgen
    contradiction

theorem core_schedule {override : Bool} (h : Core s)
    (hg : s.currentAttempt g = true) (a b : Nat) :
    Core ({ s with attempt := a, backoffAttempt := b }.notify (.schedule g override)) ∧
      Alive c ({ s with attempt := a, backoffAttempt := b }.notify (.schedule g override)) := by
  have hcore : Core { s with attempt := a, backoffAttempt := b } := { h with }
  have heq := (currentAttempt_iff.mp hg).1
  refine ⟨hcore.notify rfl ?_ (nofun), alive_of_owed (congrArg some heq)⟩
  intro n hn
  have hn' : some g = some n := hn
  have : n = s.connectionGeneration := (Option.some.inj hn').symm.trans heq
  exact Nat.le_of_eq this

theorem core_flush (h : Core s) (ha : Alive c s) (sock : Nat) :
    Core (flush s sock) ∧ Alive c (flush s sock) := core_mail h ha ..

theorem core_resume (h : Core s) (ha : Alive c s) (hstack : s.stack = f :: stack) (throws : Bool) :
    Core (resume c { s with stack } throws f) ∧ Alive c (resume c { s with stack } throws f) := by
  cases f with
  | replaced g =>
    have hpop := h.pop hstack rfl
    simp only [resume]
    split
    · next hg =>
      have hopens : Frame.opens s.connectionGeneration (.replaced g) = true := by
        simp [Frame.opens, show g = s.connectionGeneration from (currentAttempt_iff.mp hg).1]
      obtain ⟨hcount, hws⟩ := attempts_pop h hstack hopens
      refine ⟨hpop.notify_opens hws hcount ?_, alive_of_owed ?_⟩
      · simp [Frame.opens, (currentAttempt_iff.mp hg).1]
      · exact congrArg some (currentAttempt_iff.mp hg).1
    · next hg => exact ⟨hpop, alive_of_stale ha hstack rfl hg⟩
  | connecting g =>
    have hpop := h.pop hstack rfl
    simp only [resume]
    split
    · next hg =>
      obtain ⟨heq, hstop⟩ := currentAttempt_iff.mp hg
      have hopens : Frame.opens s.connectionGeneration (.connecting g) = true := by
        simp [Frame.opens, show g = s.connectionGeneration from heq]
      obtain ⟨hcount, hws⟩ := attempts_pop h hstack hopens
      split
      · rw [heq]
        exact core_runAuth hpop hws hcount hstop
      · exact core_openSocket hpop hws hcount hstop throws
    · next hg => exact ⟨hpop, alive_of_stale ha hstack rfl hg⟩
  | openedFailure sock =>
    have hpop := h.pop hstack rfl
    have halive := ha.pop_of_none hstack rfl
    simp only [resume]
    split
    · exact ⟨hpop.notify rfl (nofun) (nofun),
        halive.notify _⟩
    · exact ⟨hpop, halive⟩
  | openedStatus sock =>
    have hpop := h.pop hstack rfl
    have halive := ha.pop_of_none hstack rfl
    simp only [resume]
    split
    · exact core_flush hpop halive sock
    · exact ⟨hpop, halive⟩
  | drained g | failed g | throttled g =>
    have hpop := h.pop hstack rfl
    simp only [resume]
    split
    · next hg => exact core_schedule hpop hg ..
    · next hg => exact ⟨hpop, alive_of_stale ha hstack rfl hg⟩
  | schedule g override =>
    have hpop := h.pop hstack rfl
    simp only [resume]
    split
    · exact core_scheduleReconnect hpop override
    · next hg => exact ⟨hpop, alive_of_stale ha hstack rfl hg⟩
  | offline sock =>
    have halive := ha.pop_of_none hstack rfl
    simp only [resume]
    split
    · next hoff =>
      simp only [Bool.and_eq_true] at hoff
      have hws := (h.offline hoff.1.1).1
      refine ⟨?_, halive.notify _⟩
      have hcount : attempts ({ s with stack }.notify (.offlineFailure sock)) = attempts s := by
        rw [attempts_cons hstack]
        rfl
      refine h.restack _ (fun g hg => ?_) (fun g hg i hi => ?_) (hcount ▸ h.single) fun _ => hws
      · cases List.mem_cons.mp hg with
        | inl heq => exact Or.inr (heq ▸ ⟨nofun, nofun⟩)
        | inr hmem => exact Or.inl (hstack ▸ mem_cons_of_mem _ hmem)
      · rw [hstack] at hg
        cases List.mem_cons.mp hg with
        | inl heq =>
          rw [heq] at hi
          exact ⟨_, List.mem_cons_self .., hi⟩
        | inr hmem => exact ⟨g, mem_cons_of_mem _ hmem, hi⟩
    · exact ⟨core_closeOptional h hstack, halive.closeOptional sock⟩
  | offlineFailure sock =>
    exact ⟨core_closeOptional h hstack, (ha.pop_of_none hstack rfl).closeOptional sock⟩
  | closing =>
    have hpop := h.pop hstack rfl
    refine ⟨core_closeOptional hpop.detach rfl, Alive.closeOptional (Or.inl ?_) _⟩
    have : s.intentionallyClosed = true := h.perma (hstack ▸ List.mem_cons_self ..)
    simp [stopped, this]

/-! ## the events of the browser -/

theorem Core.setSock (h : Core s) {r' : ReadyState} (hget : s.socks.get? i = some r)
    (hr : r' ≠ .closed ∨ s.ws ≠ some i) (hlive : live (some r') = true → live (some r) = true) :
    Core { s with socks := s.socks.set i r' } := by
  refine { h with
    sock := ?_
    numbered := ?_
    lone := ?_ }
  · intro j hj
    rw [get?_set]
    split
    · next heq =>
      refine ⟨r', rfl, ?_⟩
      cases hr with
      | inl hr => exact hr
      | inr hws => exact absurd (heq ▸ hj) hws
    · exact h.sock j hj
  · intro j q hj
    obtain ⟨rfl, -⟩ | ⟨-, hj⟩ := JsMap.of_get?_set hj
    · exact h.numbered _ r hget
    · exact h.numbered j q hj
  · intro j hj
    have hj' : live ((s.socks.set i r').get? j) = true := hj
    rw [get?_set] at hj'
    split at hj'
    · next heq =>
      rw [heq]
      exact h.lone i (by rw [hget]; exact hlive hj')
    · exact h.lone j hj'

theorem Alive.setSock (ha : Alive c s)
    (hr : r ≠ .closed ∨ s.ws ≠ some i) : Alive c { s with socks := s.socks.set i r } := by
  refine ha.mono Or.inl ?_ (fun _ hget hmem => alive_of_preflight hget hmem)
    (fun _ ht hget => alive_of_timer ht hget)
    fun g hg hgen => Or.inr (Or.inr (Or.inr ⟨g, hg, hgen⟩))
  intro j q hws hget hq
  by_cases heq : j = i
  · have hset : (s.socks.set i r).get? j = some r := by rw [heq, get?_set_self]
    refine alive_of_sock hws hset ?_
    cases hr with
    | inl hr => exact hr
    | inr hne => exact absurd (heq ▸ hws) hne
  · exact alive_of_sock hws ((JsMap.get?_set_ne _ _ heq).trans hget) hq

theorem Core.closed (h : Core s) (hws : s.ws = some i) :
    Core { s with ws := none, socks := s.socks.set i .closed } := by
  refine { h with
    sock := nofun
    numbered := ?_
    lone := ?_
    unattached := fun _ => rfl
    offline := fun hoff => ⟨rfl, (h.offline hoff).2⟩ }
  · intro j r hj
    obtain ⟨rfl, -⟩ | ⟨-, hj⟩ := JsMap.of_get?_set hj
    · obtain ⟨q, hget, -⟩ := h.sock _ hws
      exact h.numbered _ q hget
    · exact h.numbered j r hj
  · intro j hj
    have hj' : live ((s.socks.set i .closed).get? j) = true := hj
    rw [get?_set] at hj'
    split at hj'
    · contradiction
    · next hne =>
      cases h.lone j hj' with
      | inl hw =>
        rw [hws] at hw
        exact absurd (Option.some.inj hw).symm hne
      | inr hf => exact Or.inr hf

theorem core_onopen (h : Core s) (ha : Alive c s) (sock : Nat) :
    Core (onopen s sock) ∧ Alive c (onopen s sock) := by
  unfold onopen
  split
  · exact ⟨h, ha⟩
  have hcore : Core { s with
      reconnectAttemptReserved := false
      attempt := 0
      backoffAttempt := 0
      reconnectAdvisory := false } := { h with }
  have halive : Alive c { s with
      reconnectAdvisory := false } := ha
  exact ⟨hcore.notify rfl (nofun) (nofun),
    halive.notify _⟩

theorem core_fail (h : Core s) (hf : f.generation? = some s.connectionGeneration)
    (hopens : f.opens s.connectionGeneration = false) :
    Core (s.notify f) ∧ Alive c (s.notify f) := by
  refine ⟨h.notify hopens ?_ ?_, alive_of_owed hf⟩
  · intro g hg
    rw [hf] at hg
    exact Nat.le_of_eq (Option.some.inj hg).symm
  · intro heq
    rw [heq] at hf
    contradiction

theorem core_onclose (h : Core s) (ha : Alive c s) {sock : Nat}
    (hget : s.socks.get? sock = some r) (code : Nat) (fresh : Bool) :
    Core (onclose { s with socks := s.socks.set sock .closed } sock code fresh) ∧
      Alive c (onclose { s with socks := s.socks.set sock .closed } sock code fresh) := by
  unfold onclose
  by_cases hws : s.ws = some sock
  · rw [if_neg (not_not_intro hws)]
    have hclosed := h.closed hws
    by_cases hperma : s.intentionallyClosed = true
    · rw [if_pos hperma]
      exact ⟨{ hclosed with }, Or.inl (by simp [stopped, hperma])⟩
    rw [if_neg hperma]
    split
    · exact ⟨{ hclosed with }, Or.inl (by simp [stopped])⟩
    have hafter : ∀ n, Core { s with
        ws := none
        socks := s.socks.set sock .closed
        reconnectAttemptReserved := false
        reconnectAdvisory := false
        backoffAttempt := n } := fun n => { hclosed with }
    simp only
    split
    · exact core_fail (hafter s.backoffAttempt) rfl rfl
    · split
      · exact core_fail (hafter _) rfl rfl
      · exact core_fail (hafter s.backoffAttempt) rfl rfl
  · rw [if_pos hws]
    exact ⟨h.setSock hget (Or.inr hws) (nofun), ha.setSock (Or.inr hws)⟩

variable {a : Action}

theorem core_socketEvent (h : Core s) (ha : Alive c s)
    (hn : socketEvent s a = some s') : Core s' ∧ Alive c s' := by
  cases a with
  | opened sock =>
    obtain ⟨hget, rfl⟩ := by simpa [socketEvent] using hn
    refine core_onopen (h.setSock hget (Or.inl ?_) ?_) (ha.setSock (Or.inl ?_)) sock
    · decide
    · exact fun _ => rfl
    · decide
  | closing sock =>
    obtain ⟨-, rfl⟩ := by simpa [socketEvent] using hn
    exact ⟨core_closeSock h sock (fun f hf => hf) (fun f hf j hj => Or.inr ⟨f, hf, hj⟩)
      (Nat.le_refl _), ha.closeSock sock⟩
  | closed sock code fresh =>
    obtain ⟨hany, rfl⟩ := by simpa [socketEvent] using hn
    obtain ⟨hsome, -⟩ := (Option.any_eq_true_iff_get _ _).mp hany
    exact core_onclose h ha (Option.eq_some_of_isSome hsome) code fresh
  | advised sock =>
    obtain ⟨-, rfl⟩ := by simpa [socketEvent] using hn
    split
    · exact ⟨{ h with }, ha⟩
    · exact ⟨h, ha⟩
  | _ => cases hn

theorem core_settled (h : Core s) (ha : Alive c s) {outcome : Outcome}
    (hget : s.preflights.get? p = some none) :
    Core { s with
      preflights := s.preflights.set p (some outcome)
      authInFlight := if s.authInFlight = some p then none else s.authInFlight } ∧
    Alive c { s with
      preflights := s.preflights.set p (some outcome)
      authInFlight := if s.authInFlight = some p then none else s.authInFlight } := by
  have hkept : ∀ q, (s.preflights.get? q).isSome = true →
      ((s.preflights.set p (some outcome)).get? q).isSome = true := by
    intro q hq
    rw [get?_set]
    split
    · rfl
    · exact hq
  refine ⟨?_, ?_⟩
  · refine { h with
      auth := ?_
      known := fun x hx => ⟨hkept _ (h.known x hx).1, (h.known x hx).2⟩
      preflight := ?_
      offline := ?_ }
    · intro q hq
      have hq' : (if s.authInFlight = some p then none else s.authInFlight) = some q := hq
      obtain ⟨hne, hq'⟩ := Option.ite_none_left_eq_some.mp hq'
      obtain ⟨hmem, hnone⟩ := h.auth q hq'
      have hqp : q ≠ p := fun heq => hne (heq ▸ hq')
      refine ⟨hmem, ?_⟩
      rw [JsMap.get?_set_ne _ _ hqp]
      exact hnone
    · intro q o hq
      obtain ⟨rfl, -⟩ | ⟨-, hq⟩ := JsMap.of_get?_set hq
      · exact h.preflight _ none hget
      · exact h.preflight q o hq
    · intro hoff
      obtain ⟨hws, htimer, hauth⟩ := h.offline hoff
      refine ⟨hws, htimer, ?_⟩
      rw [hauth]
      rfl
  · exact ha.mono Or.inl (fun _ _ hws hget hr => alive_of_sock hws hget hr)
      (fun q hq hmem => alive_of_preflight (hkept q hq) hmem)
      (fun _ ht hget => alive_of_timer ht hget)
      fun g hg hgen => Or.inr (Or.inr (Or.inr ⟨g, hg, hgen⟩))

theorem Core.react (h : Core s) {outcome : Outcome}
    (hget : s.preflights.get? p = some (some outcome)) (hmem : (p, g) ∈ s.reactions) :
    Core { s with reactions := s.reactions.erase (p, g) } ∧
      (g = s.connectionGeneration →
        attempts { s with reactions := s.reactions.erase (p, g) } = 0 ∧ s.ws = none) := by
  have hcount : attempts s = attempts { s with reactions := s.reactions.erase (p, g) } +
      if g = s.connectionGeneration then 1 else 0 := by
    have herase := (List.perm_cons_erase hmem).countP_eq
      (fun x : Nat × Nat => decide (x.2 = s.connectionGeneration))
    simp only [List.countP_cons, decide_eq_true_eq] at herase
    show s.stack.countP (Frame.opens s.connectionGeneration) +
        s.reactions.countP (fun x => decide (x.2 = s.connectionGeneration)) =
      s.stack.countP (Frame.opens s.connectionGeneration) +
        (s.reactions.erase (p, g)).countP (fun x => decide (x.2 = s.connectionGeneration)) + _
    omega
  have hle : attempts { s with reactions := s.reactions.erase (p, g) } ≤ attempts s := by
    rw [hcount]
    exact Nat.le_add_right _ _
  refine ⟨?_, ?_⟩
  · refine { h with
      auth := ?_
      known := fun x hx => h.known x (List.mem_of_mem_erase hx)
      single := Nat.le_trans hle h.single
      unattached := fun hpos => h.unattached (Nat.lt_of_lt_of_le hpos hle) }
    intro q hq
    obtain ⟨hq₁, hq₂⟩ := h.auth q hq
    refine ⟨?_, hq₂⟩
    refine (List.mem_erase_of_ne ?_).mpr hq₁
    intro heq
    have hqp : q = p := congrArg Prod.fst heq
    rw [hqp, hget] at hq₂
    cases hq₂
  · intro hg
    have hsingle := h.single
    rw [if_pos hg] at hcount
    exact ⟨by omega, h.unattached (by omega)⟩

theorem core_reaction (h : Core s) (ha : Alive c s) {outcome : Outcome}
    (hget : s.preflights.get? p = some (some outcome)) (hmem : (p, g) ∈ s.reactions)
    (throws : Bool) :
    Core (onAuth c { s with reactions := s.reactions.erase (p, g) } g throws outcome) ∧
      Alive c (onAuth c { s with reactions := s.reactions.erase (p, g) } g throws outcome) := by
  obtain ⟨hcore, hfirst⟩ := h.react hget hmem
  unfold onAuth
  by_cases hg : ({ s with reactions := s.reactions.erase (p, g) } : State).currentAttempt g = true
  · rw [if_neg (by simp [hg])]
    obtain ⟨heq, hstop⟩ := currentAttempt_iff.mp hg
    obtain ⟨hcount, hws⟩ := hfirst heq
    have hreset : Core { s with
        reactions := s.reactions.erase (p, g), reconnectAttemptReserved := false } := { hcore with }
    cases outcome with
    | ok => exact core_openSocket hcore hws hcount hstop throws
    | unauthorized => exact ⟨{ hcore with }, Or.inl (by simp [stopped])⟩
    | throttled | transient => exact core_fail hreset (congrArg some heq) rfl
  · rw [if_pos (by simp [hg])]
    refine ⟨hcore, ha.mono Or.inl (fun _ _ hws hget hr => alive_of_sock hws hget hr) ?_
      (fun _ ht hget => alive_of_timer ht hget)
      fun f hf hgen => Or.inr (Or.inr (Or.inr ⟨f, hf, hgen⟩))⟩
    intro q hq hqmem
    by_cases heq : g = s.connectionGeneration
    · cases hstop : s.stopped with
      | true => exact Or.inl hstop
      | false => exact absurd (currentAttempt_iff.mpr ⟨heq, hstop⟩) hg
    · refine alive_of_preflight hq ((List.mem_erase_of_ne ?_).mpr hqmem)
      exact fun h => heq (congrArg Prod.snd h).symm

theorem core_preflightEvent (h : Core s) (ha : Alive c s)
    (hn : preflightEvent c s a = some s') : Core s' ∧ Alive c s' := by
  cases a with
  | settled p outcome =>
    obtain ⟨hget, rfl⟩ := by simpa [preflightEvent] using hn
    exact core_settled h ha hget
  | reaction p g throws =>
    simp only [preflightEvent] at hn
    split at hn
    · next outcome hget =>
      obtain ⟨hmem, ⟨⟩⟩ := Option.ite_none_right_eq_some.mp hn
      exact core_reaction h ha hget hmem throws
    · contradiction
  | _ => cases hn

theorem core_disconnectSocket (h : Core s) (ha : Alive c s) :
    Core (disconnectSocket s) ∧ Alive c (disconnectSocket s) := by
  unfold disconnectSocket
  split
  · exact ⟨h, ha⟩
  · next sock hws =>
    exact ⟨core_closeSock h sock (fun f hf => hf) (fun f hf j hj => Or.inr ⟨f, hf, hj⟩)
      (Nat.le_refl _), ha.closeSock sock⟩

theorem core_backoff (h : Core s) (ha : Alive c s) (a b : Nat) :
    Core { s with attempt := a, backoffAttempt := b } ∧
      Alive c { s with attempt := a, backoffAttempt := b } := ⟨{ h with }, ha⟩

theorem core_reconnectNow (h : Core s) : Core (reconnectNow c s) ∧ Alive c (reconnectNow c s) := by
  have hcore : Core { s with attempt := 0, backoffAttempt := 0 } := { h with }
  obtain ⟨hclear, htimer⟩ := hcore.clearReconnect false
  exact core_doConnect hclear htimer

/-- The timer of `reconnectTimer` fires; there is no other. -/
theorem core_onTimer (h : Core s) {id : Nat} (hget : s.timers.get? id = some g) :
    Core (onTimer c { s with timers := s.timers.delete id } g) ∧
      Alive c (onTimer c { s with timers := s.timers.delete id } g) := by
  have hid := h.timers id g hget
  have hg : g = s.connectionGeneration := by
    have := h.timer id hid
    rw [hget] at this
    exact Option.some.inj this
  have hcore : Core { s with timers := s.timers.delete id, reconnectTimer := none } := by
    refine { h with
      timer := nofun
      timers := ?_
      offline := ?_ }
    · intro t n ht
      have ht' : (s.timers.delete id).get? t = some n := ht
      obtain ⟨hne, ht'⟩ := JsMap.of_get?_delete ht'
      have := h.timers t n ht'
      rw [hid] at this
      exact absurd (Option.some.inj this).symm hne
    · intro hoff
      obtain ⟨hws, -, hauth⟩ := h.offline hoff
      exact ⟨hws, rfl, hauth⟩
  unfold onTimer
  rw [if_neg (not_not_intro hg)]
  exact core_doConnect hcore rfl

theorem core_browserEvent (h : Core s) (ha : Alive c s)
    (hn : browserEvent c s a = some s') : Core s' ∧ Alive c s' := by
  obtain ⟨hreset, hareset⟩ := core_backoff h ha 0 0
  cases a with
  | timer id =>
    simp only [browserEvent] at hn
    split at hn
    · contradiction
    · next g hget =>
      cases hn
      exact core_onTimer h hget
  | attemptTimeout sock =>
    cases hn
    unfold onAttemptTimeout
    split
    · exact core_disconnectSocket h ha
    · exact ⟨h, ha⟩
  | activity silent =>
    cases hn
    unfold onActivity
    split
    · exact ⟨h, ha⟩
    · split
      · exact core_disconnectSocket h ha
      · exact ⟨h, ha⟩
  | hidden gap =>
    cases hn
    unfold onHidden
    split
    · exact ⟨h, ha⟩
    · split
      · exact core_disconnectSocket hreset hareset
      · exact ⟨h, ha⟩
  | visible gap =>
    cases hn
    unfold onVisible
    split
    · exact ⟨h, ha⟩
    · split
      · split
        · exact core_disconnectSocket hreset hareset
        · exact ⟨h, ha⟩
      · exact core_reconnectNow h
  | offline =>
    cases hn
    unfold offlineHandler
    split
    · exact ⟨h, ha⟩
    · split
      · exact core_disconnectSocket h ha
      · exact ⟨h, ha⟩
  | online =>
    cases hn
    unfold onlineHandler
    split
    · exact ⟨h, ha⟩
    · split
      · exact ⟨h, ha⟩
      · exact core_reconnectNow h
  | _ =>
    simp only [browserEvent, Option.or_eq_some_iff] at hn
    cases hn with
    | inl hn => exact core_socketEvent h ha hn
    | inr hn => exact core_preflightEvent h ha hn.2

/-! ## runs -/

theorem core_next (h : Core s) (ha : Alive c s)
    (hn : next c s a = some s') : Core s' ∧ Alive c s' := by
  cases a with
  | simulateOffline =>
    cases hn
    exact core_simulateOffline h ha
  | resumeOnline =>
    cases hn
    exact core_resumeOnline h ha
  | close =>
    cases hn
    exact core_close h
  | sendQueued serialized =>
    cases hn
    exact core_sendQueued h ha serialized
  | ret throws =>
    simp only [next] at hn
    split at hn
    · contradiction
    · next f stack hstack =>
      cases hn
      exact core_resume h ha hstack throws
  | _ =>
    obtain ⟨-, hn⟩ := by simpa [next] using hn
    exact core_browserEvent h ha hn

theorem core_runs {ok : State → Action → Prop} {as : List Action}
    (h : (machine c).Runs ok as s) : Core s ∧ Alive c s :=
  h.invariant (I := fun s => Core s ∧ Alive c s) (core_doConnect core_init rfl)
    fun _ _ _ hI _ hn => core_next hI.1 hI.2 hn

/-! ## never giving up -/

/-- The socket an event is about. -/
def Action.sock? : Action → Option Nat
  | .opened sock | .closing sock | .closed sock _ _ | .advised sock | .attemptTimeout sock =>
    some sock
  | _ => none

theorem replaced_event (hws : s.ws ≠ some i)
    (ha : a.sock? = some i) (hn : next c s a = some s') : ∃ socks, s' = { s with socks } := by
  cases a with
  | opened sock | closed sock code fresh =>
    cases ha
    simp only [next, browserEvent, socketEvent] at hn
    split at hn
    · split at hn
      · cases hn
        exact ⟨_, if_pos hws⟩
      · cases hn
    · contradiction
  | closing sock =>
    cases ha
    simp only [next, browserEvent, socketEvent] at hn
    split at hn
    · split at hn
      · cases hn
        exact ⟨_, closeSock_eq s i⟩
      · cases hn
    · contradiction
  | advised sock =>
    cases ha
    simp only [next, browserEvent, socketEvent] at hn
    split at hn
    · split at hn
      · cases hn
        exact ⟨_, rfl⟩
      · cases hn
    · contradiction
  | attemptTimeout sock =>
    cases ha
    obtain ⟨-, hn⟩ := by simpa [next, browserEvent, onAttemptTimeout] using hn
    rw [if_neg (fun h => hws h.1)] at hn
    cases hn
    exact ⟨_, rfl⟩
  | _ => cases ha

theorem Core.current (h : Core s) (hstack : s.stack = [])
    (hi : live (s.socks.get? i) = true) : s.ws = some i := by
  cases h.lone i hi with
  | inl hws => exact hws
  | inr hf =>
    obtain ⟨f, hf, -⟩ := hf
    rw [hstack] at hf
    contradiction

/-- **A connection never gives up silently.**  In every state it reaches it is
stopped, has no URL, is armed, or runs a handler of the current generation; when
no handler runs it is armed, and no other socket than the current one connects or
is open; an event of any other socket changes nothing but that socket. -/
theorem never_gives_up {as : List Action} (h : (machine c).Runs Any as s) :
    (s.stopped = false → c.hasUrl = true → Armed s ∨ Owed s) ∧
      (s.stopped = false → c.hasUrl = true → s.stack = [] → Armed s) ∧
      (s.stack = [] → ∀ i, live (s.socks.get? i) = true → s.ws = some i) ∧
      ∀ i a s', s.ws ≠ some i → a.sock? = some i → next c s a = some s' →
        ∃ socks, s' = { s with socks } := by
  obtain ⟨hcore, halive⟩ := core_runs h
  have hgo : s.stopped = false → c.hasUrl = true → Armed s ∨ Owed s := by
    intro hstop hurl
    cases halive with
    | inl h => exact absurd h (by simp [hstop])
    | inr h =>
      cases h with
      | inl h => exact absurd h (by simp [hurl])
      | inr h => exact h
  refine ⟨hgo, ?_, fun hstack i hi => hcore.current hstack hi,
    fun i a s' hws ha hn => replaced_event hws ha hn⟩
  intro hstop hurl hstack
  cases hgo hstop hurl with
  | inl harmed => exact harmed
  | inr howed =>
    obtain ⟨f, hf, -⟩ := howed
    rw [hstack] at hf
    contradiction

/-- A socket fails while the application, told so, goes offline and back. -/
theorem never_gives_up_toggled : ∃ s,
    (machine ⟨true, true, true, some 3⟩).exec (machine ⟨true, true, true, some 3⟩).init
      [.ret false, .settled 0 .ok, .reaction 0 1 false, .closed 0 1006 false, .ret false,
        .simulateOffline, .resumeOnline, .ret false, .ret false, .ret false,
        .settled 1 .transient, .reaction 1 3 false, .ret false, .ret false] = some s ∧
      Armed s := by
  obtain ⟨s, hs⟩ : ∃ s,
      (machine ⟨true, true, true, some 3⟩).exec (machine ⟨true, true, true, some 3⟩).init
        [.ret false, .settled 0 .ok, .reaction 0 1 false, .closed 0 1006 false, .ret false,
          .simulateOffline, .resumeOnline, .ret false, .ret false, .ret false,
          .settled 1 .transient, .reaction 1 3 false, .ret false, .ret false] = some s := ⟨_, rfl⟩
  obtain ⟨-, harmed, -⟩ := never_gives_up (runs_of_exec hs)
  refine ⟨s, hs, harmed ?_ rfl ?_⟩
  · cases hs
    decide
  · cases hs
    decide

/-- **One connection at a time.**  Also in the middle of a handler there is at most one
attempt to connect, with no socket attached, and one armed timer, of the current generation;
between handlers at most one socket is connecting or open; a simulated offline has none. -/
theorem one_connection {as : List Action} (h : (machine c).Runs Any as s) :
    attempts s ≤ 1 ∧ (0 < attempts s → s.ws = none) ∧
      (∀ t t' g g', s.timers.get? t = some g → s.timers.get? t' = some g' →
        t = t' ∧ g = s.connectionGeneration) ∧
      (s.stack = [] → ∀ i j, live (s.socks.get? i) = true → live (s.socks.get? j) = true → i = j) ∧
      (s.offlineSimulated = true → s.stack = [] →
        s.timers = .empty ∧ ∀ i, live (s.socks.get? i) = false) := by
  have hcore := (core_runs h).1
  refine ⟨hcore.single, hcore.unattached, fun t t' g g' ht ht' => ?_, fun hstack i j hi hj => ?_,
    fun hoff hstack => ⟨?_, fun i => ?_⟩⟩
  · have hreconnect := hcore.timers t g ht
    have hgeneration := hcore.timer t hreconnect
    rw [ht] at hgeneration
    exact ⟨Option.some.inj (hreconnect.symm.trans (hcore.timers t' g' ht')),
      Option.some.inj hgeneration⟩
  · have hws := hcore.current hstack hi
    exact Option.some.inj (hws.symm.trans (hcore.current hstack hj))
  · obtain ⟨-, htimer, -⟩ := hcore.offline hoff
    refine JsMap.ext_entries (List.eq_nil_iff_forall_not_mem.mpr fun e he => ?_)
    have hget := hcore.timers e.1 e.2 (JsMap.mem_entries_iff.mp he)
    rw [htimer] at hget
    contradiction
  · obtain ⟨hws, -, -⟩ := hcore.offline hoff
    by_contra hi
    have hcurrent := hcore.current hstack (by simpa using hi)
    rw [hws] at hcurrent
    contradiction

theorem one_connection_started : ∃ s, (machine ⟨true, true, true, some 3⟩).exec
      (machine ⟨true, true, true, some 3⟩).init
        [.ret false, .settled 0 .ok, .reaction 0 1 false] = some s ∧ attempts s ≤ 1 := by
  obtain ⟨s, hs⟩ : ∃ s, (machine ⟨true, true, true, some 3⟩).exec
      (machine ⟨true, true, true, some 3⟩).init
        [.ret false, .settled 0 .ok, .reaction 0 1 false] = some s := ⟨_, rfl⟩
  exact ⟨s, hs, (one_connection (runs_of_exec hs)).1⟩

end

end BunServe.Client
