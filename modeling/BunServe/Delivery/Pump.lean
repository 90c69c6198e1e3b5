import BunServe.Delivery.Steps

/-!
# BunServe.Delivery.Pump

The invariant of the delivery boundary through the drain of a backlog.

A drain may run inside policy calls, so its lemmas ask of the stack only that
the backlog is drained nowhere else.

* `inv_pumpDecided` — a decided head is handed on, waits, or fails its socket;
* `inv_drainQueue` — one turn of the loop;
* `inv_transmit` — the send of a frame, and the rest of its turn.
-/

namespace BunServe.Delivery

open State (modBlog)

section Pump

variable {hole : Option Socket} {s : State} {b : Nat} {f : Frame}

theorem swaps_keep {blog : Backlog} (hi : Inv hole s) (hws : blog.ws = (s.blogs b).ws)
    (hqueue : blog.queue = (s.blogs b).queue) (hclosed : blog.closed = (s.blogs b).closed)
    (hfailed : blog.failed = (s.blogs b).failed) (hwaiting : blog.waiting = (s.blogs b).waiting)
    (htimer : blog.timer = true → (s.blogs b).timer = true)
    (hpumping : b ∈ pumps s.stack → blog.pumping = true) : Swaps s b blog s.backlogs where
  ws := hws
  registry := fun _ => .inl rfl
  closed := hclosed.trans
  failed := by
    rw [hfailed, hclosed]
    exact hi.failed b
  registered := by
    rw [hclosed, hfailed]
    exact hi.closed _ b
  queue := by
    rw [hqueue, hclosed, hws]
    exact hi.live b
  entries := by
    rw [hqueue, hws]
    exact hi.entries b
  sorted := by
    rw [hqueue]
    exact hi.sorted b
  waiting := by
    rw [hwaiting, hclosed, hqueue]
    exact hi.waiting b
  timer := by
    rw [hwaiting, hclosed]
    exact fun h => hi.timer b (htimer h)
  pumping := by
    intro hmem
    have hold := hi.pumps b hmem
    rw [hwaiting, hclosed, hws, hqueue]
    exact ⟨hpumping hmem, hold.waiting, fun h => ⟨hold.live h, rfl⟩, hold.shut⟩
  decisions := by
    intro d hd hp hb
    obtain ⟨-, hok⟩ := hi.decisions d hd hp
    rw [hb] at hok
    rw [hws, hclosed, hwaiting, hqueue, hok.1]
    exact ⟨hok.2.2.1, fun h => ⟨(hok.2.2.2 h).1, (hok.2.2.2 h).2.1⟩⟩
  refused := by
    intro hnone hsome
    rw [hnone] at hsome
    contradiction

theorem inv_modBlog {g : Backlog → Backlog} (hi : Inv hole s) (hsteady : Steady s)
    (h : Swaps s b (g (s.blogs b)) s.backlogs) : Inv hole (s.modBlog b g) :=
  inv_swap hi hsteady h

theorem inv_endPump (hi : Inv hole s) (hsteady : Steady s) (hb : b ∉ pumps s.stack) :
    Inv hole (endPump s b false) := by
  have hkeep : Swaps s b { s.blogs b with pumping := false } s.backlogs :=
    swaps_keep hi rfl rfl rfl rfl rfl (fun h => h) fun h => absurd h hb
  exact inv_swap hi hsteady hkeep

theorem inv_retire (hi : Inv none s) (hsteady : Steady s) (hb : b ∉ pumps s.stack)
    (hclosed : (s.blogs b).closed = false) (hwaiting : (s.blogs b).waiting = false)
    (hreg : s.backlogs (s.blogs b).ws = some b) : Inv none (retire s b) := by
  have hbl : ∀ w, (s.unregister (s.blogs b).ws).backlogs w = s.backlogs w ∨
      w = (s.blogs b).ws ∧ s.backlogs w = some b ∧
        (s.unregister (s.blogs b).ws).backlogs w = none := by
    intro w
    by_cases hw : w = (s.blogs b).ws
    · subst hw
      exact .inr ⟨rfl, hreg, by simp [State.unregister]⟩
    · exact .inl (by simp [State.unregister, hw])
  have hshut : Inv none (release (s.unregister (s.blogs b).ws) b) := by
    exact Inv.other (inv_shut (s.blogs b).failed hi hsteady hbl
      (fun h => by simp [State.unregister] at h) (fun h => absurd h hb)
      fun _ => .inr ⟨hwaiting, hclosed, hreg, by simp⟩)
  unfold retire
  cases (s.blogs b).ending with
  | none => exact inv_pushPlain hshut hsteady trivial rfl rfl
  | some code =>
    simp only
    split
    · exact (inv_nativeEnd hshut hsteady).1
    · exact hshut

theorem inv_endPump_drained (hi : Inv none s) (hsteady : Steady s) (hb : b ∉ pumps s.stack)
    (hp : PumpOk s b) (hclosed : (s.blogs b).closed = false) : Inv none (endPump s b true) := by
  have hrest := inv_endPump hi hsteady hb
  have hblog : ((endPump s b false).blogs b) = { s.blogs b with pumping := false } := by
    simp [endPump, modBlog]
  have hretire : Inv none (retire (endPump s b false) b) := by
    refine inv_retire hrest hsteady hb ?_ ?_ ?_
    · rw [hblog]
      exact hclosed
    · rw [hblog]
      exact hp.waiting
    · rw [hblog]
      exact hp.live hclosed
  exact hretire

theorem inv_endPumpClosed (hi : Inv none s) (hsteady : Steady s) (hb : b ∉ pumps s.stack)
    (hopen : s.isOpen (s.blogs b).ws = false) : Inv none (endPumpClosed s b) := by
  have hstack : (release (forget s b) b).stack = s.stack := by rw [release_eq, forget_eq]
  have hshut := inv_releaseForget hi hsteady hopen
  have hkeep : Swaps (release (forget s b) b) b
      { (release (forget s b) b).blogs b with pumping := false }
      (release (forget s b) b).backlogs := by
    refine swaps_keep hshut rfl rfl rfl rfl rfl (fun h => h) fun h => ?_
    rw [hstack] at h
    exact absurd h hb
  have hsteady' : Steady (release (forget s b) b) := by rwa [Steady, hstack]
  exact inv_swap hshut hsteady' hkeep

theorem not_refused (hi : Inv none s) (hp : PumpOk s b) (hclosed : (s.blogs b).closed = false)
    (hopen : s.isOpen (s.blogs b).ws = true) : .refused (s.blogs b).ws ∉ s.log := by
  intro hmem
  rcases hi.refused _ (by simp) hmem with h | ⟨c, hc, h⟩
  · rw [h] at hopen
    contradiction
  rw [hp.live hclosed] at hc
  cases hc
  rcases h with h | ⟨d, hd, hdb, r, hr⟩
  · rw [hclosed] at h
    contradiction
  · obtain ⟨-, hok⟩ := hi.decisions d hd (by simp [hr])
    rw [hdb] at hok
    have hwait := (hok.2.2.2 hclosed).1
    rw [hp.waiting] at hwait
    contradiction

theorem inv_handHead {v : Bool} {rest : List Entry} (hi : Inv none s) (hsteady : Steady s)
    (hb : b ∉ pumps s.stack) (hp : PumpOk s b) (hq : (s.blogs b).queue = ⟨f, v⟩ :: rest)
    (hcleared : f.kind = .application → Cleared s.log f) : Inv none (handHead s b f) := by
  have hclosed := (hi.live b (by simp [hq])).1
  have hreg := hp.live hclosed
  have hentries := hi.entries b
  have hsorted := hi.sorted b
  rw [hq] at hentries hsorted
  obtain ⟨hfirst, hrest⟩ := List.pairwise_cons.mp hsorted
  have hhead := hentries ⟨f, v⟩ (by simp)
  have hws : f.ws = (s.blogs b).ws := hhead.ws
  have hleft : Inv none (s.modBlog b fun blog =>
      { blog with
        queue := blog.queue.tail
        bytes := blog.bytes - f.charge
        held := blog.held - f.payload.size }) := by
    refine inv_modBlog hi hsteady { ws := rfl, registry := fun _ => .inl rfl, closed := id,
                                    failed := hi.failed b,
                                    registered := hi.closed _ b,
                                    queue := fun _ => ⟨hclosed, hreg⟩, entries := ?_, sorted := ?_,
                                    waiting := ?_, timer := hi.timer b,
                                    pumping := fun h => absurd h hb, decisions := ?_,
                                    refused := ?_ }
    · rw [hq]
      exact fun e he => hentries e (List.mem_cons_of_mem _ he)
    · rw [hq]
      exact hrest
    · intro h
      have hnot := hp.waiting
      rw [h] at hnot
      contradiction
    · intro d hd hph hdb
      obtain ⟨-, hok⟩ := hi.decisions d hd hph
      rw [hdb] at hok
      have hwait := (hok.2.2.2 hclosed).1
      rw [hp.waiting] at hwait
      contradiction
    · intro hnone hsome
      rw [hnone] at hsome
      contradiction
  refine inv_push hleft hsteady ?_ (fun h => by contradiction) ?_
  · refine ⟨fun c hc => ?_, fun hopen => ⟨⟨hhead.known, hhead.handed, ?_⟩, hcleared, ?_⟩⟩
    · cases hc
      simp [modBlog, hws]
    · intro c e he hews
      by_cases hcb : c = b
      · subst hcb
        simp only [modBlog, Function.update_self, hq] at he
        exact hfirst e he
      · simp only [modBlog, Function.update_of_ne hcb] at he
        have hcws := (hi.entries c e he).ws
        exact absurd (eq_of_queue hi hreg (List.ne_nil_of_mem he)
          (hcws.symm.trans (hews.trans hws))) hcb
    · rw [hws] at hopen ⊢
      exact not_refused hi hp hclosed hopen
  · intro c hc
    cases hc
    refine ⟨hb, hp.lt, ?_, ?_, ?_, ?_⟩
    · simpa [modBlog] using hp.pumping
    · simpa [modBlog] using hp.waiting
    · simpa [modBlog] using hp.live
    · simpa [modBlog] using hp.shut

variable {ms : List Message}

theorem inv_wait {next : Nat} {v : Bool} {rest : List Entry}
    (hi : Inv hole s) (hsteady : Steady s) (hb : b ∉ pumps s.stack) (hlt : b < s.nextBlog)
    (hwaiting : (s.blogs b).waiting = false) (hq : (s.blogs b).queue = ⟨f, v⟩ :: rest) (hws : (s.blogs b).ws = f.ws)
    (hknown : .admitted f.ws f.id ∈ s.log) (hnext : 0 < next)
    (hasked : Asked s.log f ms (next - 1)) : Inv hole (wait s b f ms next) := by
  have hne : (s.blogs b).queue ≠ [] := by simp [hq]
  obtain ⟨hclosed, hreg⟩ := hi.live b hne
  have hpending : ∀ d < s.nextDecision, (s.decisions d).phase ≠ .delivered →
      (s.decisions d).backlog ≠ some b := by
    intro d hd hp hdb
    obtain ⟨-, hok⟩ := hi.decisions d hd hp
    rw [hdb] at hok
    have hwait := (hok.2.2.2 hclosed).1
    rw [hwaiting] at hwait
    contradiction
  have hswap : Swaps s b { s.blogs b with waiting := true, timer := true } s.backlogs :=
    { ws := rfl, registry := fun _ => .inl rfl, closed := id, failed := hi.failed b,
      registered := hi.closed _ b, queue := hi.live b, entries := hi.entries b
      sorted := hi.sorted b, waiting := fun _ _ => hne, timer := fun _ => ⟨rfl, hclosed⟩
      pumping := fun h => absurd h hb
      decisions := fun d hd hp hdb => absurd hdb (hpending d hd hp)
      refused := fun hnone hsome => by
        rw [hnone] at hsome
        contradiction }
  have hmod := inv_swap hi hsteady hswap
  have hok : DecisionOk
      { s with blogs := Function.update s.blogs b { s.blogs b with waiting := true, timer := true } }
      ⟨f, ms, some b, .awaiting next⟩ := by
    refine ⟨hknown, ?_⟩
    simp only [Function.update_self]
    exact ⟨hws, hlt, fun _ => .inr (hws ▸ hreg), fun _ => ⟨trivial, ⟨v, rest, hq⟩, hnext, hasked⟩⟩
  refine inv_newDecision hmod hok fun c hc _ d hd hp => ?_
  cases hc
  exact hpending d hd hp

theorem inv_settleClosed {next : Nat} (hi : Inv hole s)
    (hknown : .admitted f.ws f.id ∈ s.log) (hopen : s.isOpen f.ws = false) :
    Inv hole (settleClosed s f ms next) := by
  refine inv_newDecision hi ⟨hknown, hopen⟩ ?_
  intro c hc
  contradiction

@[simp] theorem pumps_push (t : Task) (ht : t.pump? = none) :
    pumps (s.push t).stack = pumps s.stack := by
  simp [State.push, pumps, ht]

variable {r : Reason}

theorem pumps_endRefused : pumps (endRefused s b r).stack = pumps s.stack := by
  simp only [endRefused]
  split
  · exact pumps_push .hook rfl
  · rw [forget_eq]

theorem pumps_fail : pumps (fail s b r).stack = pumps s.stack := by
  simp only [fail]
  split
  · rfl
  split
  · rw [forget_eq, stack_report]
    rfl
  · split
    · simp only [State.defer, stack_report]
      rfl
    · rw [pumps_endRefused, stack_report]
      rfl

theorem inv_pumpFail (hi : Inv (some (s.blogs b).ws) s) (hsteady : Steady s)
    (hb : b ∉ pumps s.stack) (hp : PumpOk s b) : Inv none (endPump (fail s b r) b false) := by
  have hopenReg : s.isOpen (s.blogs b).ws = true → s.backlogs (s.blogs b).ws = some b := by
    intro hopen
    cases hclosed : (s.blogs b).closed with
    | false => exact hp.live hclosed
    | true =>
      rw [hp.shut hclosed] at hopen
      contradiction
  obtain ⟨hfail, hsteady'⟩ := inv_fail hi hsteady hp.lt (fun h => absurd h hb) hopenReg
  exact inv_endPump hfail hsteady' (by rwa [pumps_fail])

theorem inv_pumpGranted (hi : Inv none s) (hsteady : Steady s)
    (hb : b ∉ pumps s.stack) (hp : PumpOk s b)
    (hhead : (s.blogs b).closed = false → (∃ v rest, (s.blogs b).queue = ⟨f, v⟩ :: rest) ∧
      (f.kind = .application → Cleared s.log f)) :
    Inv none (pumpDecided s b f ms (.now .granted)) := by
  unfold pumpDecided
  split
  · exact inv_endPump hi hsteady hb
  · rename_i hclosed
    obtain ⟨⟨v, rest, hq⟩, hcleared⟩ := hhead (by simpa using hclosed)
    exact inv_handHead hi hsteady hb hp hq hcleared

theorem inv_pumpRefused (hi : Inv (some (s.blogs b).ws) s)
    (hsteady : Steady s) (hb : b ∉ pumps s.stack) (hp : PumpOk s b) :
    Inv none (pumpDecided s b f ms (.now (.refused r))) := by
  unfold pumpDecided
  split
  · exact inv_pumpFail hi hsteady hb hp
  · exact inv_pumpFail hi hsteady hb hp

theorem inv_pumpLater {next : Nat} (hi : Inv none s) (hsteady : Steady s)
    (hb : b ∉ pumps s.stack) (hp : PumpOk s b) (hws : (s.blogs b).ws = f.ws)
    (hknown : .admitted f.ws f.id ∈ s.log) (hnext : 0 < next)
    (hhead : (s.blogs b).closed = false → (∃ v rest, (s.blogs b).queue = ⟨f, v⟩ :: rest) ∧
      Asked s.log f ms (next - 1)) : Inv none (pumpDecided s b f ms (.later next)) := by
  unfold pumpDecided
  split
  · rename_i hclosed
    exact inv_endPump (inv_settleClosed hi hknown (hws ▸ hp.shut hclosed)) hsteady hb
  · rename_i hclosed
    obtain ⟨⟨v, rest, hq⟩, hasked⟩ := hhead (by simpa using hclosed)
    exact inv_endPump (inv_wait hi hsteady hb hp.lt hp.waiting hq hws hknown hnext hasked) hsteady hb

theorem inv_undecide {e : Entry} {rest : List Entry} (hi : Inv none s) (hsteady : Steady s)
    (hb : b ∉ pumps s.stack) (hp : PumpOk s b) (hq : (s.blogs b).queue = e :: rest) :
    Inv none (s.modBlog b fun blog => { blog with queue := ⟨e.frame, false⟩ :: rest }) := by
  have hclosed := (hi.live b (by simp [hq])).1
  have hentry := hi.entries b
  have hsorted := hi.sorted b
  rw [hq] at hentry hsorted
  have hhead := hentry e (by simp)
  have hswap : Swaps s b { s.blogs b with queue := ⟨e.frame, false⟩ :: rest } s.backlogs :=
    { ws := rfl, registry := fun _ => .inl rfl, closed := id, failed := hi.failed b
      registered := hi.closed _ b
      queue := fun _ => hi.live b (by simp [hq])
      entries := by
        intro e' he'
        rcases List.mem_cons.mp he' with rfl | he'
        · exact ⟨hhead.ws, hhead.known, hhead.handed, by simp⟩
        · exact hentry e' (List.mem_cons_of_mem _ he')
      sorted := List.pairwise_cons.mpr (List.pairwise_cons.mp hsorted)
      waiting := by simp
      timer := hi.timer b
      pumping := fun h => absurd h hb
      decisions := by
        intro d hd hph hdb
        obtain ⟨-, hok⟩ := hi.decisions d hd hph
        rw [hdb] at hok
        have hwait := (hok.2.2.2 hclosed).1
        rw [hp.waiting] at hwait
        contradiction
      refused := fun hnone hsome => by
        rw [hnone] at hsome
        contradiction }
  exact inv_swap hi hsteady hswap

/-- One turn of the loop of `drainQueue`. -/
theorem inv_drainQueue (hi : Inv none s) (hsteady : Steady s) (hb : b ∉ pumps s.stack)
    (hp : PumpOk s b) (hclosed : (s.blogs b).closed = false) : Inv none (drainQueue s b) := by
  unfold drainQueue
  cases hq : (s.blogs b).queue with
  | nil => exact inv_endPump_drained hi hsteady hb hp hclosed
  | cons e rest =>
    have hentry := hi.entries b
    have hsorted := hi.sorted b
    rw [hq] at hentry hsorted
    have hhead := hentry e (by simp)
    simp only
    split
    · rename_i hopen
      exact inv_endPumpClosed hi hsteady hb (by simpa using hopen)
    generalize hs' : s.modBlog b _ = s'
    -- the head is undecided again
    have hblog : s'.blogs b = { s.blogs b with queue := ⟨e.frame, false⟩ :: rest } := by
      rw [← hs']
      simp [modBlog]
    have hi' : Inv none s' := hs' ▸ inv_undecide hi hsteady hb hp hq
    have hstack : s'.stack = s.stack := by rw [← hs']; rfl
    have hsteady' : Steady s' := by rwa [Steady, hstack]
    have hb' : b ∉ pumps s'.stack := by rwa [hstack]
    have hp' : PumpOk s' b := by
      constructor
      · rw [← hs']
        exact hp.lt
      · rw [hblog]
        exact hp.pumping
      · rw [hblog]
        exact hp.waiting
      · rw [hblog, ← hs']
        exact hp.live
      · rw [hblog, ← hs']
        exact hp.shut
    have hq' : (s'.blogs b).queue = ⟨e.frame, false⟩ :: rest := by rw [hblog]
    have hws' : (s'.blogs b).ws = (s.blogs b).ws := by rw [hblog]
    have hknown' : .admitted e.frame.ws e.frame.id ∈ s'.log := by
      rw [← hs']
      exact hhead.known
    split
    · exact inv_endPump (inv_full hi' hsteady' hb' hp' hq') hsteady' hb'
    split
    · rename_i hcontrol
      exact inv_handHead hi hsteady hb hp hq fun h => by rw [hcontrol] at h; contradiction
    split
    · rename_i hverdict
      refine inv_pumpGranted hi' hsteady' hb' hp' fun _ => ⟨⟨_, _, hq'⟩, fun _ => ?_⟩
      rw [← hs']
      exact hhead.verdict hverdict
    · cases hms : describe e.frame.payload e.frame.topic with
      | none =>
        have hrefuse := inv_refuse (s'.blogs b).ws hi' hsteady'
        rw [hws'] at hrefuse
        refine inv_pumpRefused ?_ hsteady' hb' { hp' with }
        change Inv (some (s'.blogs b).ws) (s'.emit (.refused (s.blogs b).ws))
        rwa [hws']
      | some ms =>
        simp only [decide]
        split
        · refine inv_push hi' hsteady' ?_ (fun h => by contradiction) ?_
          · exact ⟨hws', hhead.ws, hknown', fun _ => ⟨⟨_, _, hq'⟩, hms,
              fun k m hk => absurd hk (Nat.not_lt_zero k)⟩⟩
          · intro c hc
            cases hc
            exact ⟨hb', hp'⟩
        · refine inv_pumpGranted hi' hsteady' hb' hp' fun _ => ⟨⟨_, _, hq'⟩,
            fun _ => ⟨ms, hms, fun i m hm => ?_⟩⟩
          have hlt := (List.getElem?_eq_some_iff.mp hm).1
          omega

theorem inv_transmit {bo : Option Nat} {status : Nat} (hi : Inv none s) (hsteady : Steady s)
    (htask : TaskOk s (.hand f bo)) (hpump : ∀ b, bo = some b → b ∉ pumps s.stack ∧ PumpOk s b)
    (hcalm : bo = none → ∀ u ∈ s.stack, u.isPolicy = false) :
    Inv none (transmit s f bo status) := by
  obtain ⟨hws, hready⟩ := htask
  unfold transmit
  split
  · rename_i hopen
    obtain ⟨hahead, hcleared, hrefused⟩ := hready hopen
    have hfast : ∀ ws ms i g, .policy ws ms i (.fast g) ∈ s.stack → g.ws ≠ f.ws := by
      intro ws ms i g hmem hgf
      cases bo with
      | none =>
        have hpolicy := hcalm rfl _ hmem
        contradiction
      | some b =>
        obtain ⟨hgws, -, hnone, -⟩ := hi.tasks _ hmem
        obtain ⟨-, hp⟩ := hpump b rfl
        have hbws := hws b rfl
        cases hclosed : (s.blogs b).closed with
        | false =>
          have hreg := hp.live hclosed
          rw [hbws, ← hgf, hgws, hnone] at hreg
          contradiction
        | true =>
          have hshut := hp.shut hclosed
          rw [hbws, hopen] at hshut
          contradiction
    have hhanded : Inv none ((s.emit (.handed f)).returning (some status)) :=
      (inv_handed hi hsteady hahead hcleared hrefused hfast).other
    cases bo with
    | none => exact hhanded
    | some b =>
      obtain ⟨hb, hp⟩ := hpump b rfl
      have hp' : PumpOk ((s.emit (.handed f)).returning (some status)) b := { hp with }
      simp only
      split
      · exact inv_endPump hhanded hsteady hb
      rename_i hopened
      have hclosed : (s.blogs b).closed = false := (Bool.not_eq_true _).mp hopened
      split
      · cases (State.blogs _ b).queue.isEmpty with
        | true => exact inv_endPump_drained hhanded hsteady hb hp' hclosed
        | false => exact inv_endPump hhanded hsteady hb
      · refine inv_push hhanded hsteady hclosed (fun h => by contradiction) fun c hc => ?_
        cases hc
        exact ⟨hb, hp'⟩
  · rename_i hopen
    cases bo with
    | none => exact hi.other
    | some b =>
      refine inv_endPumpClosed hi hsteady (hpump b rfl).1 ?_
      rw [hws b rfl]
      simpa using hopen

end Pump

end BunServe.Delivery
