import BunServe.Client

/-!
# BunServe.Client.SendQueue

The order of queued messages.

`sendQueued` hands a message to an open socket at once, and `onopen` flushes the
backlog last, after the subscribers of `failureStore` and `statusStore` have run
on a socket that already reads `OPEN`.  A message one of them sends overtakes the
backlog (`backlog_overtaken`).  Where nothing is sent in that moment the order is
kept (`queue_in_order`).

Everything but `sendQueued` and the flush leaves the messages alone
(`next_mail`).
-/

namespace BunServe.Client

open Machine
open List (map_append map_cons map_nil mem_append)

/-! ## what touches a message -/

def State.mail (s : State) : List Message × List (Nat × Message) × List (Message × List Message) × Nat :=
  (s.sendQueue, s.handed, s.displaced, s.calls)

@[simp] theorem mail_notify (s : State) (f : Frame) : (s.notify f).mail = s.mail := rfl

@[simp] theorem mail_closeSock (s : State) (sock : Nat) : (s.closeSock sock).mail = s.mail := by
  unfold State.closeSock
  split <;> rfl

@[simp] theorem mail_clearReconnect (s : State) (refund : Bool) :
    (clearReconnect s refund).mail = s.mail := by
  unfold clearReconnect
  cases s.reconnectTimer with
  | none | some t =>
    simp only
    split <;> rfl

@[simp] theorem mail_disconnectSocket (s : State) : (disconnectSocket s).mail = s.mail := by
  unfold disconnectSocket
  split
  · rfl
  · exact mail_closeSock s _

@[simp] theorem mail_closeOptional (s : State) (sock : Option Nat) :
    (closeOptional s sock).mail = s.mail := by
  unfold closeOptional
  split
  · rfl
  · exact mail_closeSock s _

variable (c : Config)

@[simp] theorem mail_scheduleReconnect (s : State) (override : Bool) :
    (scheduleReconnect c s override).mail = s.mail := by
  unfold scheduleReconnect
  split
  · rfl
  · split
    · rfl
    · cases override with
      | true | false => rfl

@[simp] theorem mail_openSocket (s : State) (throws : Bool) :
    (openSocket c s throws).mail = s.mail := by
  cases throws with
  | true => exact mail_scheduleReconnect c _ false
  | false => rfl

@[simp] theorem mail_runAuth (s : State) (generation : Nat) :
    (runAuth c s generation).mail = s.mail := by
  unfold runAuth
  split <;> rfl

@[simp] theorem mail_doConnect (s : State) : (doConnect c s).mail = s.mail := by
  unfold doConnect
  split
  · rfl
  · simp only
    split <;> rfl

theorem mail_resume (s : State) (throws : Bool) (f : Frame) :
    (resume c s throws f).mail = s.mail ∨
      ∃ sock, f = .openedStatus sock ∧ s.ws = some sock ∧ resume c s throws f = flush s sock := by
  cases f with
  | openedStatus sock =>
    by_cases h : s.ws = some sock
    · exact Or.inr ⟨sock, rfl, h, if_pos h⟩
    · exact Or.inl (by rw [resume, if_neg h])
  | replaced generation
  | openedFailure sock
  | drained generation
  | failed generation
  | throttled generation =>
    left
    simp only [resume]
    split <;> rfl
  | connecting generation =>
    left
    simp only [resume]
    split
    · split
      · exact mail_runAuth c s generation
      · exact mail_openSocket c s throws
    · rfl
  | schedule generation override =>
    left
    simp only [resume]
    split
    · exact mail_scheduleReconnect c s override
    · rfl
  | offline sock =>
    left
    simp only [resume]
    split
    · rfl
    · exact mail_closeOptional s sock
  | offlineFailure sock => exact Or.inl (mail_closeOptional s sock)
  | closing => exact Or.inl (mail_closeOptional { s with ws := none } s.ws)

@[simp] theorem mail_onopen (s : State) (sock : Nat) : (onopen s sock).mail = s.mail := by
  unfold onopen
  split <;> rfl

@[simp] theorem mail_onclose (s : State) (sock code : Nat) (fresh : Bool) :
    (onclose s sock code fresh).mail = s.mail := by
  unfold onclose
  simp only
  repeat' split
  all_goals rfl

@[simp] theorem mail_onAuth (s : State) (generation : Nat) (throws : Bool) (outcome : Outcome) :
    (onAuth c s generation throws outcome).mail = s.mail := by
  unfold onAuth
  split
  · rfl
  · cases outcome with
    | ok => exact mail_openSocket c s throws
    | unauthorized | throttled | transient => rfl

@[simp] theorem mail_reconnectNow (s : State) : (reconnectNow c s).mail = s.mail := by
  unfold reconnectNow
  rw [mail_doConnect, mail_clearReconnect]
  rfl

variable {s s' : State} {a : Action}

theorem mail_socketEvent (h : socketEvent s a = some s') : s'.mail = s.mail := by
  unfold socketEvent at h
  split at h
  · split at h
    · cases h
      rw [mail_onopen]
      rfl
    · contradiction
  · split at h
    · cases h
      exact mail_closeSock s _
    · contradiction
  · split at h
    · cases h
      rw [mail_onclose]
      rfl
    · contradiction
  · split at h
    · cases h
      split <;> rfl
    · contradiction
  · contradiction

theorem mail_preflightEvent (h : preflightEvent c s a = some s') : s'.mail = s.mail := by
  unfold preflightEvent at h
  split at h
  · split at h
    · cases h
      rfl
    · contradiction
  · split at h
    · split at h
      · cases h
        rw [mail_onAuth]
        rfl
      · contradiction
    · contradiction
  · contradiction

theorem mail_browserEvent (h : browserEvent c s a = some s') : s'.mail = s.mail := by
  unfold browserEvent at h
  split at h
  · split at h
    · contradiction
    · cases h
      unfold onTimer
      split
      · rfl
      · rw [mail_doConnect]
        rfl
  · cases h
    unfold onAttemptTimeout
    split
    · exact mail_disconnectSocket s
    · rfl
  · cases h
    unfold onActivity
    split
    · rfl
    · split
      · exact mail_disconnectSocket s
      · rfl
  · cases h
    unfold onHidden
    split
    · rfl
    · split
      · rw [mail_disconnectSocket]
        rfl
      · rfl
  · cases h
    unfold onVisible
    split
    · rfl
    · split
      · split
        · rw [mail_disconnectSocket]
          rfl
        · rfl
      · exact mail_reconnectNow c s
  · cases h
    unfold offlineHandler
    split
    · rfl
    · split
      · exact mail_disconnectSocket s
      · rfl
  · cases h
    unfold onlineHandler
    split
    · rfl
    · split
      · rfl
      · exact mail_reconnectNow c s
  · rw [Option.or_eq_some_iff] at h
    cases h with
    | inl h => exact mail_socketEvent h
    | inr h => exact mail_preflightEvent c h.2

theorem mail_simulateOffline (s : State) : (simulateOffline c s).mail = s.mail := by
  unfold simulateOffline
  split
  · rfl
  · show (clearReconnect (cancelAttempt { s with offlineSimulated := true }) true).mail = s.mail
    rw [mail_clearReconnect]
    rfl

theorem mail_resumeOnline (s : State) : (resumeOnline c s).mail = s.mail := by
  unfold resumeOnline
  split
  · rfl
  · rw [mail_doConnect]
    rfl

theorem mail_close (s : State) : (close s).mail = s.mail := by
  unfold close
  rw [mail_notify, mail_clearReconnect]
  rfl

/-- A step leaves the messages alone, or it is a call of `sendQueued`, or the
flush of an open. -/
theorem next_mail (h : next c s a = some s') :
    s'.mail = s.mail ∨ (∃ serialized, a = .sendQueued serialized ∧ s' = sendQueued s serialized) ∨
      ∃ sock stack, s' = flush { s with stack } sock := by
  unfold next at h
  split at h
  · cases h
    exact Or.inl (mail_simulateOffline c s)
  · cases h
    exact Or.inl (mail_resumeOnline c s)
  · cases h
    exact Or.inl (mail_close s)
  · next serialized =>
    cases h
    exact Or.inr (Or.inl ⟨serialized, rfl, rfl⟩)
  · next throws =>
    split at h
    · contradiction
    · next f stack hstack =>
      cases h
      cases mail_resume c { s with stack } throws f with
      | inl hmail => exact Or.inl hmail
      | inr hflush =>
        obtain ⟨sock, -, -, heq⟩ := hflush
        exact Or.inr (Or.inr ⟨sock, stack, heq⟩)
  · split at h
    · exact Or.inl (mail_browserEvent c h)
    · contradiction

/-! ## the order of messages -/

/-- Messages are handed over in call order, each at most once; one is missing
only if it is still queued or was the oldest of a full queue. -/
structure InOrder (s : State) : Prop where
  handed : (s.handed.map fun h => h.2.call).Pairwise (· < ·)
  found : ∀ n < s.calls, n ∈ s.handed.map (fun h => h.2.call) ∨ n ∈ s.sendQueue.map Message.call ∨
    n ∈ s.displaced.map fun d => d.1.call
  displaced : ∀ d ∈ s.displaced, d.2.head? = some d.1 ∧ MAX_QUEUE_SIZE ≤ d.2.length

/-- The messages handed over and those queued, as one sequence. -/
structure Queued (s : State) : Prop where
  order : (s.handed.map (fun h => h.2.call) ++ s.sendQueue.map Message.call).Pairwise (· < ·)
  below : ∀ n ∈ s.handed.map (fun h => h.2.call) ++ s.sendQueue.map Message.call, n < s.calls
  found : ∀ n < s.calls, n ∈ s.handed.map (fun h => h.2.call) ∨ n ∈ s.sendQueue.map Message.call ∨
    n ∈ s.displaced.map fun d => d.1.call
  displaced : ∀ d ∈ s.displaced, d.2.head? = some d.1 ∧ MAX_QUEUE_SIZE ≤ d.2.length
  text : ∀ msg ∈ s.sendQueue, msg.serialized.isSome = true

theorem Queued.inOrder (h : Queued s) : InOrder s :=
  ⟨(List.pairwise_append.mp h.order).1, h.found, h.displaced⟩

theorem Queued.of_mail (h : Queued s) (hm : s'.mail = s.mail) : Queued s' := by
  unfold State.mail at hm
  simp only [Prod.mk.injEq] at hm
  obtain ⟨hqueue, hhanded, hdisplaced, hcalls⟩ := hm
  obtain ⟨horder, hbelow, hfound, hdisp, htext⟩ := h
  rw [← hqueue, ← hhanded] at horder hbelow
  rw [← hqueue, ← hhanded, ← hdisplaced] at hfound
  rw [← hdisplaced] at hdisp
  rw [← hqueue] at htext
  rw [← hcalls] at hbelow hfound
  exact ⟨horder, hbelow, hfound, hdisp, htext⟩

/-- No message overtakes the backlog of an open socket, and every message that
is queued has a text. -/
def polite (s : State) : Action → Bool
  | .sendQueued serialized =>
    decide (s.readyState = some .opened → s.sendQueue = []) &&
      (decide (s.readyState = some .opened) || serialized.isSome)
  | _ => true

theorem queued_handTo (h : Queued s) (hempty : s.sendQueue = []) (sock : Nat)
    (serialized : Option String) :
    Queued { handTo s sock ⟨s.calls, serialized⟩ with calls := s.calls + 1 } := by
  have horder := h.order
  have hbelow := h.below
  have hfound := h.found
  rw [hempty] at horder hbelow hfound
  simp only [map_nil, List.append_nil] at horder hbelow hfound
  refine ⟨?_, ?_, ?_, h.displaced, h.text⟩
  · simp only [handTo, hempty, map_append, map_nil, List.append_nil]
    rw [List.pairwise_append]
    refine ⟨horder, List.pairwise_singleton _ _, ?_⟩
    intro a ha b hb
    rw [List.mem_singleton.mp hb]
    exact hbelow a ha
  · intro n hn
    simp only [handTo, hempty, map_append, map_cons, map_nil, List.append_nil,
      mem_append, List.mem_singleton] at hn
    show n < s.calls + 1
    cases hn with
    | inl hn =>
      have := hbelow n hn
      omega
    | inr hn => omega
  · intro n hn
    have hn' : n < s.calls + 1 := hn
    simp only [handTo, map_append, map_cons, map_nil, mem_append,
      List.mem_singleton]
    by_cases heq : n = s.calls
    · exact Or.inl (Or.inr heq)
    · cases hfound n (by omega) with
      | inl hf => exact Or.inl (Or.inl hf)
      | inr hf => exact Or.inr (Or.inr (hf.resolve_left (by simp)))

theorem queued_displace (h : Queued s) : Queued (displace s) := by
  unfold displace
  split
  · exact h
  rename_i oldest rest hqueue
  split
  · next hfull =>
    have horder := h.order
    have hbelow := h.below
    have hfound := h.found
    have htext := h.text
    rw [hqueue] at horder hbelow hfound htext
    have hsub : (s.handed.map (fun h => h.2.call) ++ rest.map Message.call).Sublist
        (s.handed.map (fun h => h.2.call) ++ (oldest :: rest).map Message.call) :=
      (List.Sublist.refl _).append (List.sublist_cons_self _ _)
    refine ⟨horder.sublist hsub, fun n hn => hbelow n (hsub.subset hn), ?_, ?_, ?_⟩
    · intro n hn
      simp only [map_append, map_cons, map_nil, mem_append,
        List.mem_singleton]
      cases hfound n hn with
      | inl hf => exact Or.inl hf
      | inr hf =>
        cases hf with
        | inl hf =>
          cases List.mem_cons.mp hf with
          | inl heq => exact Or.inr (Or.inr (Or.inr heq))
          | inr hrest => exact Or.inr (Or.inl hrest)
        | inr hf => exact Or.inr (Or.inr (Or.inl hf))
    · intro d hd
      cases List.mem_append.mp hd with
      | inl hd => exact h.displaced d hd
      | inr hd =>
        rw [List.mem_singleton.mp hd, hqueue]
        rw [hqueue] at hfull
        exact ⟨rfl, hfull⟩
    · intro msg hmsg
      exact htext msg (List.mem_cons_of_mem _ hmsg)
  · exact h

theorem calls_displace (s : State) : (displace s).calls = s.calls := by
  unfold displace
  split
  · rfl
  · split <;> rfl

theorem queued_push (h : Queued s) {serialized : Option String}
    (htext : serialized.isSome = true) :
    Queued { s with
      calls := s.calls + 1
      sendQueue := s.sendQueue ++ [⟨s.calls, serialized⟩] } := by
  have hbelow := h.below
  refine ⟨?_, ?_, ?_, h.displaced, ?_⟩
  · simp only [map_append, ← List.append_assoc]
    rw [List.pairwise_append]
    refine ⟨h.order, List.pairwise_singleton _ _, ?_⟩
    intro a ha b hb
    rw [List.mem_singleton.mp hb]
    exact hbelow a ha
  · intro n hn
    simp only [map_append, map_cons, ← List.append_assoc] at hn
    show n < s.calls + 1
    cases List.mem_append.mp hn with
    | inl hn =>
      have := hbelow n hn
      omega
    | inr hn =>
      rw [List.mem_singleton.mp hn]
      omega
  · intro n hn
    have hn' : n < s.calls + 1 := hn
    simp only [map_append, map_cons, map_nil, mem_append, List.mem_singleton]
    by_cases heq : n = s.calls
    · exact Or.inr (Or.inl (Or.inr heq))
    · cases h.found n (by omega) with
      | inl hf => exact Or.inl hf
      | inr hf =>
        cases hf with
        | inl hf => exact Or.inr (Or.inl (Or.inl hf))
        | inr hf => exact Or.inr (Or.inr hf)
  · intro msg hmsg
    cases List.mem_append.mp hmsg with
    | inl hmsg => exact h.text msg hmsg
    | inr hmsg =>
      rw [List.mem_singleton.mp hmsg]
      exact htext

theorem queued_sendQueued (h : Queued s) {serialized : Option String}
    (hp : polite s (.sendQueued serialized) = true) : Queued (sendQueued s serialized) := by
  unfold polite at hp
  rw [Bool.and_eq_true, decide_eq_true_eq, Bool.or_eq_true, decide_eq_true_eq] at hp
  obtain ⟨hdirect, hqueue⟩ := hp
  unfold sendQueued
  simp only
  split
  · next sock hws hopen => exact queued_handTo h (hdirect hopen) sock serialized
  rename_i hnot
  have hclosed : s.readyState ≠ some .opened := by
    intro hopen
    cases hws : s.ws with
    | none => simp [State.readyState, hws] at hopen
    | some sock => exact hnot sock hws hopen
  have hpush := queued_push (queued_displace h) (hqueue.resolve_left hclosed)
  rw [calls_displace] at hpush ⊢
  exact hpush

theorem queued_flush (h : Queued s) (sock : Nat) : Queued (flush s sock) := by
  have hall : (s.sendQueue.filter fun msg => msg.serialized.isSome) = s.sendQueue :=
    List.filter_eq_self.mpr h.text
  have hmap : (flush s sock).handed.map (fun h => h.2.call) =
      s.handed.map (fun h => h.2.call) ++ s.sendQueue.map Message.call := by
    simp only [flush, hall, map_append, List.map_map]
    rfl
  refine ⟨?_, ?_, ?_, h.displaced, ?_⟩
  · rw [hmap]
    simpa [flush] using h.order
  · rw [hmap]
    simpa [flush] using h.below
  · intro n hn
    rw [hmap]
    cases h.found n hn with
    | inl hf => exact Or.inl (List.mem_append_left _ hf)
    | inr hf =>
      cases hf with
      | inl hf => exact Or.inl (List.mem_append_right _ hf)
      | inr hf => exact Or.inr (Or.inr hf)
  · intro msg hmsg
    simp [flush] at hmsg

theorem queued_init : Queued (doConnect c .init) := by
  have hinit : Queued .init := by
    constructor
    all_goals simp [State.init]
  exact hinit.of_mail (mail_doConnect c .init)

/-- Every run that lets the backlog go first keeps the order. -/
theorem queue_in_order {as : List Action} {s : State}
    (h : (machine c).Runs (fun s a => polite s a = true) as s) : InOrder s := by
  apply Queued.inOrder
  apply h.invariant (queued_init c)
  intro s a s' hs hp hn
  cases next_mail c hn with
  | inl hmail => exact hs.of_mail hmail
  | inr hcase =>
    cases hcase with
    | inl hsend =>
      obtain ⟨serialized, rfl, rfl⟩ := hsend
      exact queued_sendQueued hs hp
    | inr hflush =>
      obtain ⟨sock, stack, rfl⟩ := hflush
      have hpop : Queued { s with stack } := hs.of_mail rfl
      exact queued_flush hpop sock

/-- A connection without a preflight that never stops trying. -/
def plain : Config := ⟨true, false, false, none⟩

/-- A message of the time before the open, and one after it. -/
theorem queue_in_order_two : ∃ s, (machine plain).execIf polite (machine plain).init
    [.sendQueued (some "a"), .ret false, .opened 0, .ret false, .ret false,
      .sendQueued (some "b")] = some s ∧
    s.handed = [(0, ⟨0, some "a"⟩), (0, ⟨1, some "b"⟩)] ∧ InOrder s := by
  obtain ⟨s, hs⟩ : ∃ s, (machine plain).execIf polite (machine plain).init
    [.sendQueued (some "a"), .ret false, .opened 0, .ret false, .ret false,
      .sendQueued (some "b")] = some s := ⟨_, rfl⟩
  refine ⟨s, hs, ?_, queue_in_order plain (runs_of_execIf (fun _ _ h => h) hs)⟩
  cases hs
  decide

/-- A subscriber that sends while the socket opens overtakes the backlog. -/
theorem backlog_overtaken : ∃ s, (machine plain).Runs Any
    [.sendQueued (some "a"), .ret false, .opened 0, .sendQueued (some "b"), .ret false,
      .ret false] s ∧ s.handed = [(0, ⟨1, some "b"⟩), (0, ⟨0, some "a"⟩)] ∧ ¬ InOrder s := by
  refine ⟨_, runs_of_exec rfl, by decide, ?_⟩
  intro h
  exact absurd h.handed (by decide)

end BunServe.Client
