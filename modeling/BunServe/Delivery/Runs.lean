import BunServe.Delivery.Admit
import Mathlib.Data.List.Sort

/-!
# BunServe.Delivery.Runs

The step lemma of the delivery boundary, and what it means for every run.

* `inv_next` — every step keeps the invariant;
* `delivery_ordered` — frames reach a socket in the order of their admission;
* `delivery_mediated` — and only approved.
-/

namespace BunServe.Delivery

open Machine
open Function (update)
open State (modBlog modDecision)

variable {log : List Event} {ms : List Message} {i : Nat} {ws : Socket}

section Runs

variable {s : State} {b d : Nat} {ws : Socket} {f : Frame}

/-! ## decisions come back -/

/-- What the stack below a policy call must be like. -/
def AskerOk (s : State) : Asker → Prop
  | .pump b _ => b ∉ pumps s.stack ∧ PumpOk s b
  | _ => Plain s.stack

theorem Asked.answered {m : Message} (h : Asked log f ms i) (hm : ms[i]? = some m) :
    Asked (.answered f.id i m :: log) f ms (i + 1) := by
  refine ⟨h.1, fun k m' hk hm' => ?_⟩
  by_cases hki : k = i
  · subst hki
    rw [hm] at hm'
    exact .inl ⟨rfl, rfl, Option.some.inj hm'⟩
  · exact .inr (h.2 k m' (by omega) hm')

theorem Asked.cleared (h : Asked log f ms i) (hi : ms.length ≤ i) : Cleared log f := by
  refine ⟨ms, h.1, fun k m hm => h.2 k m ?_ hm⟩
  have hlt := (List.getElem?_eq_some_iff.mp hm).1
  omega

theorem inv_phaseRefused {r : Reason} (hi : Inv (some (s.decisions d).frame.ws) s)
    (hplain : Plain s.stack) (hd : d < s.nextDecision) (hp : (s.decisions d).phase ≠ .delivered)
    (hdone : ∀ r, (s.decisions d).phase ≠ .done (.refused r)) :
    Inv none (s.modDecision d fun dec => { dec with phase := .done (.refused r) }) := by
  obtain ⟨-, hok⟩ := hi.decisions d hd hp
  refine inv_phase hi hd hp (fun w ms i hmem => ?_) (fun _ _ _ _ => trivial) ?_
    (fun r' h => absurd h (hdone r'))
  · have hpolicy := hplain.calm _ hmem
    contradiction
  intro w hw
  cases hw
  right
  cases hb : (s.decisions d).backlog with
  | none =>
    rw [hb] at hok
    exact .inl hok
  | some b =>
    rw [hb] at hok
    obtain ⟨hws, hlt, hcl, hwait⟩ := hok
    cases hclosed : (s.blogs b).closed with
    | true =>
      rcases hcl hclosed with h | h
      · exact .inl h
      · exact .inr ⟨b, h, .inl hclosed⟩
    | false =>
      obtain ⟨-, ⟨v, rest, hq⟩, -⟩ := hwait hclosed
      have hreg := (hi.live b (by simp [hq])).2
      rw [hws] at hreg
      refine .inr ⟨b, hreg, .inr ⟨d, hd, ?_, r, ?_⟩⟩
      · simp [modDecision, hb]
      · simp [modDecision]

theorem inv_phaseOn {p : Phase} (hi : Inv none s) (hplain : Plain s.stack)
    (hd : d < s.nextDecision) (hp : (s.decisions d).phase ≠ .delivered)
    (hdone : ∀ r, (s.decisions d).phase ≠ .done (.refused r))
    (hok : ∀ b, (s.decisions d).backlog = some b → (s.blogs b).closed = false →
      PhaseOk s.log { s.decisions d with phase := p }) :
    Inv none (s.modDecision d fun dec => { dec with phase := p }) := by
  refine inv_phase hi hd hp (fun w ms i hmem => ?_) (fun _ => hok) (by simp)
    (fun r' h => absurd h (hdone r'))
  have hpolicy := hplain.calm _ hmem
  contradiction

section Conclude

variable {ms : List Message} {i : Nat} {asker : Asker}

theorem inv_concludeGranted (hi : Inv none s) (hsteady : Steady s)
    (htask : TaskOk s (.policy ws ms i asker)) (hasker : AskerOk s asker) (hlen : ms.length ≤ i) :
    Inv none (conclude s ms (.now .granted) asker) := by
  cases asker with
  | fast f =>
    obtain ⟨hws, -, hnone, hahead, hasked⟩ := htask
    have hfast : Inv none (fastDecided s f ms (.now .granted)) :=
      inv_fastGranted hi hasker (hws ▸ hnone) hahead (hasked.cleared hlen)
    exact hfast
  | pump b f =>
    obtain ⟨-, -, -, hhead⟩ := htask
    have hpump : Inv none (pumpDecided s b f ms (.now .granted)) :=
      inv_pumpGranted hi hsteady hasker.1 hasker.2 fun h =>
        ⟨(hhead h).1, fun _ => (hhead h).2.cleared hlen⟩
    exact hpump
  | settle d =>
    obtain ⟨hd, hphase, -, -, hasked⟩ := htask
    exact inv_phaseOn hi hasker hd (by simp [hphase]) (by simp [hphase]) fun b hb hcl =>
      (hasked b hb hcl).cleared hlen

theorem inv_concludeRefused {r : Reason} (hi : Inv (some ws) s) (hsteady : Steady s)
    (htask : TaskOk s (.policy ws ms i asker)) (hasker : AskerOk s asker) :
    Inv none (conclude s ms (.now (.refused r)) asker) := by
  cases asker with
  | fast f =>
    obtain ⟨hws, -, hnone, -⟩ := htask
    have hfast : Inv none (fastDecided s f ms (.now (.refused r))) :=
      inv_fastRefused (hws ▸ hi) hasker (hws ▸ hnone)
    exact hfast
  | pump b f =>
    obtain ⟨hws, -⟩ := htask
    have hpump : Inv none (pumpDecided s b f ms (.now (.refused r))) :=
      inv_pumpRefused (hws ▸ hi) hsteady hasker.1 hasker.2
    exact hpump
  | settle d =>
    obtain ⟨hd, hphase, hws, -⟩ := htask
    exact inv_phaseRefused (hws ▸ hi) hasker hd (by simp [hphase]) (by simp [hphase])

theorem inv_concludeLater (hi : Inv none s) (hsteady : Steady s)
    (htask : TaskOk s (.policy ws ms i asker)) (hasker : AskerOk s asker) :
    Inv none (conclude s ms (.later (i + 1)) asker) := by
  cases asker with
  | fast f =>
    obtain ⟨hws, -, hnone, hahead, hasked⟩ := htask
    exact inv_fastLater hi hasker (hws ▸ hnone) hahead (Nat.succ_pos i) hasked
  | pump b f =>
    obtain ⟨hws, hf, hknown, hhead⟩ := htask
    exact inv_pumpLater hi hsteady hasker.1 hasker.2 (hws.trans hf.symm) hknown (Nat.succ_pos i)
      hhead
  | settle d =>
    obtain ⟨hd, hphase, -, hms, hasked⟩ := htask
    refine inv_phaseOn hi hasker hd (by simp [hphase]) (by simp [hphase]) fun b hb hcl => ?_
    have hold := hasked b hb hcl
    rw [← hms] at hold
    exact ⟨Nat.succ_pos i, hold⟩

/-- Asking about the messages from `i` on, or concluding that there are none
left. -/
theorem inv_decide (hi : Inv none s) (hsteady : Steady s)
    (htask : TaskOk s (.policy ws ms i asker)) (hasker : AskerOk s asker) :
    Inv none (decide s ws ms i asker fun s => conclude s ms (.now .granted) asker) := by
  unfold decide
  split
  · refine inv_push hi hsteady htask ?_ ?_
    · intro hcalm
      cases asker with
      | fast f | settle d => exact Plain.calm hasker
      | pump b f => contradiction
    · intro c hc
      cases asker with
      | fast f | settle d => contradiction
      | pump b f =>
        cases hc
        exact hasker
  · exact inv_concludeGranted hi hsteady htask hasker (by omega)

theorem askerOk_emit {e : Event} (h : AskerOk s asker) : AskerOk (s.emit e) asker := by
  cases asker with
  | pump b f => exact ⟨h.1, { h.2 with }⟩
  | _ => exact h

theorem inv_policyReturn {m : Message} {v : Verdict} (hi : Inv none s) (hsteady : Steady s)
    (htask : TaskOk s (.policy ws ms i asker)) (hasker : AskerOk s asker)
    (hm : ms[i]? = some m) : Inv none (policyReturn s ws ms i asker m v) := by
  have hrefused (r : Reason) :
      Inv none (conclude (s.emit (.refused ws)) ms (.now (.refused r)) asker) := by
    have htask' : TaskOk (s.emit (.refused ws)) (.policy ws ms i asker) :=
      taskOk_policy_emit htask (by simp) (by simp)
    exact inv_concludeRefused (inv_refuse _ hi hsteady) hsteady htask' (askerOk_emit hasker)
  cases v with
  | yes =>
    refine inv_decide (inv_quiet hi hsteady rfl) hsteady ?_ (askerOk_emit hasker)
    cases asker with
    | fast f =>
      obtain ⟨hws, hkind, hnone, hahead, hasked⟩ := htask
      exact ⟨hws, hkind, hnone, hahead.cons (by simp), hasked.answered hm⟩
    | pump b f =>
      obtain ⟨hws, hf, hknown, hhead⟩ := htask
      exact ⟨hws, hf, List.mem_cons_of_mem _ hknown, fun h =>
        ⟨(hhead h).1, (hhead h).2.answered hm⟩⟩
    | settle d =>
      obtain ⟨hd, hphase, hws, hms, hasked⟩ := htask
      exact ⟨hd, hphase, hws, hms, fun b hb hcl => (hasked b hb hcl).answered hm⟩
  | no => exact hrefused .denied
  | other => exact hrefused .invalidResult
  | threw => exact hrefused .error
  | promise => exact inv_concludeLater hi hsteady htask hasker

end Conclude

variable {s' : State}

theorem inv_settle {v : Settled} (hi : Inv none s) (hplain : Plain s.stack)
    (h : settle s d v = some s') : Inv none s' := by
  unfold settle at h
  simp only at h
  cases hphase : (s.decisions d).phase with
  | awaiting next =>
    rw [hphase] at h
    simp only at h
    obtain ⟨hd, h⟩ := Option.ite_none_right_eq_some.mp h
    have hp : (s.decisions d).phase ≠ .delivered := by simp [hphase]
    have hdone : ∀ r, (s.decisions d).phase ≠ .done (.refused r) := by simp [hphase]
    have hok := (hi.decisions d hd hp).2
    have hrefused (r : Reason) : Inv none ((s.emit (.refused (s.decisions d).frame.ws)).modDecision
        d fun dec => { dec with phase := .done (.refused r) }) :=
      inv_phaseRefused (inv_refuse _ hi hplain.steady) hplain hd hp hdone
    cases v with
    | yes =>
      cases hm : (s.decisions d).messages[next - 1]? with
      | none =>
        rw [hm] at h
        contradiction
      | some m =>
        rw [hm] at h
        simp only at h
        have hanswer : Inv none (s.emit (.answered (s.decisions d).frame.id (next - 1) m)) :=
          inv_quiet hi hplain.steady rfl
        -- the messages before `next` are approved now
        have hasked : ∀ b, (s.decisions d).backlog = some b → (s.blogs b).closed = false →
            Asked (s.emit (.answered (s.decisions d).frame.id (next - 1) m)).log
              (s.decisions d).frame (s.decisions d).messages next := by
          intro b hb hcl
          rw [hb] at hok
          have hwait := (hok.2.2.2 hcl).2.2
          simp only [PhaseOk, hphase] at hwait
          have hsucc : next - 1 + 1 = next := by omega
          exact hsucc ▸ hwait.2.answered hm
        split at h
        · cases h
          exact inv_phaseOn hanswer hplain hd hp hdone fun _ _ _ => trivial
        cases h
        have hrunning := inv_phaseOn (p := .running) hanswer hplain hd hp hdone
          fun _ _ _ => trivial
        have htask : TaskOk ((s.emit (.answered (s.decisions d).frame.id (next - 1)
            m)).modDecision d fun dec => { dec with phase := .running })
            (.policy (s.decisions d).frame.ws (s.decisions d).messages next
              (.settle d)) := by
          simp only [TaskOk, modDecision, Function.update_self]
          exact ⟨hd, trivial, rfl, rfl, hasked⟩
        exact inv_decide hrunning hplain.steady htask hplain
    | no =>
      cases h
      exact hrefused .denied
    | other =>
      cases h
      exact hrefused .invalidResult
    | rejected =>
      cases h
      exact hrefused .error
  | _ =>
    rw [hphase] at h
    contradiction

theorem inv_pump (hi : Inv none s) (hsteady : Steady s) (hlt : b < s.nextBlog)
    (hreg : (s.blogs b).closed = false → s.backlogs (s.blogs b).ws = some b) :
    Inv none (pump s b) := by
  unfold pump
  split
  · exact hi
  rename_i hidle
  simp only [not_or, Bool.not_eq_true] at hidle
  obtain ⟨hpumping, hwaiting, hclosed⟩ := hidle
  have hb : b ∉ pumps s.stack := by
    intro hmem
    rw [(hi.pumps b hmem).pumping] at hpumping
    contradiction
  have hkeep : Swaps s b { s.blogs b with pumping := true } s.backlogs :=
    swaps_keep hi rfl rfl rfl rfl rfl (fun h => h) fun _ => rfl
  have hmod := inv_swap hi hsteady hkeep
  have hblog : (s.modBlog b fun blog => { blog with pumping := true }).blogs b =
      { s.blogs b with pumping := true } := by simp [modBlog]
  have hok : PumpOk (s.modBlog b fun blog => { blog with pumping := true }) b := by
    refine ⟨hlt, ?_, ?_, ?_, ?_⟩
    · rw [hblog]
    · rw [hblog]
      exact hwaiting
    · rw [hblog]
      exact hreg
    · rw [hblog]
      intro h
      rw [hclosed] at h
      contradiction
  refine inv_push hmod hsteady ?_ (fun h => by contradiction) ?_
  · show (State.blogs _ b).closed = false
    rw [hblog]
    exact hclosed
  · intro c hc
    cases hc
    exact ⟨hb, hok⟩

/-- The socket a refusal has yet to take effect for. -/
def Outcome.hole (ws : Socket) : Outcome → Option Socket
  | .granted => none
  | .refused _ => some ws

theorem inv_deliver {o : Outcome} (hi : Inv none s) (hplain : Plain s.stack)
    (hd : d < s.nextDecision) (hphase : (s.decisions d).phase = .done o) :
    Inv (o.hole (s.decisions d).frame.ws)
      (s.modDecision d fun dec => { dec with phase := .delivered }) := by
  refine inv_phase hi hd (by simp [hphase]) (fun w ms i hmem => ?_) (absurd rfl)
    (by simp) ?_
  · have hpolicy := hplain.calm _ hmem
    contradiction
  · intro r hr
    rw [hphase] at hr
    obtain rfl := Phase.done.inj hr
    rfl

/-- No decision is pending for the backlog. -/
def Unasked (s : State) (b : Nat) : Prop :=
  ∀ d < s.nextDecision, (s.decisions d).phase ≠ .delivered → (s.decisions d).backlog ≠ some b

theorem unasked_deliver (hi : Inv none s) (hd : d < s.nextDecision)
    (hp : (s.decisions d).phase ≠ .delivered) (hb : (s.decisions d).backlog = some b)
    (hclosed : (s.blogs b).closed = false) :
    Unasked (s.modDecision d fun dec => { dec with phase := .delivered }) b := by
  intro d' hd' hp' hb'
  by_cases hdd : d' = d
  · subst hdd
    simp [modDecision] at hp'
  · simp only [modDecision, Function.update_of_ne hdd] at hp' hb'
    exact hdd (hi.single d' hd' d hd b hp' hp hb' hb hclosed)

theorem inv_unwait {hole : Option Socket} (hi : Inv hole s) (hplain : Plain s.stack)
    (hunasked : Unasked s b) :
    Inv hole (s.modBlog b fun blog => { blog with timer := false, waiting := false }) := by
  have hswap : Swaps s b { s.blogs b with timer := false, waiting := false } s.backlogs :=
    { ws := rfl, registry := fun _ => .inl rfl, closed := id, failed := hi.failed b
      registered := hi.closed _ b, queue := hi.live b, entries := hi.entries b
      sorted := hi.sorted b, waiting := by simp, timer := by simp
      pumping := fun h => absurd h hplain.not_pump
      decisions := fun d hd hp hb => absurd hb (hunasked d hd hp)
      refused := fun hnone hsome => by
        rw [hnone] at hsome
        contradiction }
  exact inv_swap hi hplain.steady hswap

theorem inv_approve {v : Bool} {rest : List Entry} (hi : Inv none s) (hplain : Plain s.stack)
    (hunasked : Unasked s b) (hq : (s.blogs b).queue = ⟨f, v⟩ :: rest)
    (hcleared : Cleared s.log f) :
    Inv none (s.modBlog b fun blog =>
      { blog with
        queue := blog.queue.map fun e => if e.frame.id = f.id then { e with verdict := true } else e }) := by
  have hframe (e : Entry) :
      (if e.frame.id = f.id then { e with verdict := true } else e).frame = e.frame := by
    split <;> rfl
  have hswap : Swaps s b
      { s.blogs b with
        queue := (s.blogs b).queue.map fun e =>
          if e.frame.id = f.id then { e with verdict := true } else e } s.backlogs :=
    { ws := rfl, registry := fun _ => .inl rfl, closed := id, failed := hi.failed b
      registered := hi.closed _ b
      queue := fun _ => hi.live b (by simp [hq])
      entries := by
        intro e he
        obtain ⟨e', he', rfl⟩ := List.mem_map.mp he
        have hok := hi.entries b e' he'
        refine ⟨by rw [hframe]; exact hok.ws, by rw [hframe]; exact hok.known,
          by rw [hframe]; exact hok.handed, fun hv => ?_⟩
        rw [hframe]
        split at hv
        · -- only the head has the number
          have hsorted := hi.sorted b
          rw [hq] at he' hsorted
          rcases List.mem_cons.mp he' with rfl | he'
          · exact hcleared
          · have hlt := (List.pairwise_cons.mp hsorted).1 e' he'
            simp only at hlt
            omega
        · exact hok.verdict hv
      sorted := by
        rw [List.pairwise_map]
        exact (hi.sorted b).imp fun {e e'} h => by rwa [hframe, hframe]
      waiting := fun hw hcl => by
        simpa using hi.waiting b hw hcl
      timer := hi.timer b
      pumping := fun h => absurd h hplain.not_pump
      decisions := fun d hd hp hb => absurd hb (hunasked d hd hp)
      refused := fun hnone hsome => by
        rw [hnone] at hsome
        contradiction }
  exact inv_swap hi hplain.steady hswap

theorem inv_waitedRefused {r : Reason} {v : Bool} {rest : List Entry} (hi : Inv (some f.ws) s)
    (hplain : Plain s.stack) (hlt : b < s.nextBlog) (hws : (s.blogs b).ws = f.ws)
    (hq : (s.blogs b).queue = ⟨f, v⟩ :: rest) (hunasked : Unasked s b) :
    Inv none (fail (s.modBlog b fun blog =>
      { blog with timer := false, waiting := false }) b r) := by
  have hreg := (hi.live b (by simp [hq])).2
  have hidle := inv_unwait hi hplain hunasked
  have hblog : (s.modBlog b fun blog => { blog with timer := false, waiting := false }).blogs b =
      { s.blogs b with timer := false, waiting := false } := by simp [modBlog]
  have hplain' : Plain (s.modBlog b fun blog =>
      { blog with timer := false, waiting := false }).stack := hplain
  have hhole : Inv (some ((s.modBlog b fun blog =>
      { blog with timer := false, waiting := false }).blogs b).ws)
      (s.modBlog b fun blog => { blog with timer := false, waiting := false }) := by
    rw [hblog]
    exact hws.symm ▸ hidle
  refine (inv_fail hhole hplain'.steady hlt (fun h => absurd h hplain'.not_pump) fun _ => ?_).1
  rw [hblog]
  exact hreg

theorem inv_waitedGranted {v : Bool} {rest : List Entry} (hi : Inv none s)
    (hplain : Plain s.stack) (hlt : b < s.nextBlog) (hq : (s.blogs b).queue = ⟨f, v⟩ :: rest)
    (hunasked : Unasked s b) (hcleared : Cleared s.log f) :
    Inv none (pump ((s.modBlog b fun blog =>
      { blog with timer := false, waiting := false }).modBlog b fun blog =>
        { blog with
          queue := blog.queue.map fun e =>
            if e.frame.id = f.id then { e with verdict := true } else e }) b) := by
  have hreg := (hi.live b (by simp [hq])).2
  have hidle := inv_unwait hi hplain hunasked
  have hblog : (s.modBlog b fun blog => { blog with timer := false, waiting := false }).blogs b =
      { s.blogs b with timer := false, waiting := false } := by simp [modBlog]
  have happrove := inv_approve hidle hplain hunasked (by rw [hblog]; exact hq) hcleared
  refine inv_pump happrove hplain.steady hlt fun _ => ?_
  simpa [modBlog] using hreg

theorem Plain.push {t : Task} (h : Plain s.stack) (ht : t.transient = false)
    (hp : t.isPolicy = false) : Plain (s.push t).stack := by
  intro u hu
  rcases List.mem_cons.mp hu with rfl | hu
  · exact ⟨ht, hp⟩
  · exact h u hu

theorem inv_react (hi : Inv none s) (hplain : Plain s.stack)
    (h : react s d = some s') : Inv none s' := by
  unfold react at h
  simp only at h
  cases hphase : (s.decisions d).phase with
  | done o =>
    rw [hphase] at h
    simp only at h
    obtain ⟨hd, ⟨⟩⟩ := Option.ite_none_right_eq_some.mp h
    have hp : (s.decisions d).phase ≠ .delivered := by simp [hphase]
    obtain ⟨-, hok⟩ := hi.decisions d hd hp
    have hcalled := inv_pushPlain (t := .leave) (inv_deliver hi hplain hd hphase)
      hplain.steady trivial rfl rfl
    have hplain' : Plain ((s.modDecision d fun dec =>
        { dec with phase := .delivered }).push .leave).stack := Plain.push hplain rfl rfl
    have hsettled (hgone : s.isOpen (s.decisions d).frame.ws = false ∨
        ∃ b, s.backlogs (s.decisions d).frame.ws = some b ∧ (s.blogs b).closed = true) : Inv none
          ((s.modDecision d fun dec => { dec with phase := .delivered }).push .leave) := by
      cases o with
      | granted => exact hcalled
      | refused r =>
        exact inv_fill hcalled (hgone.imp_right fun ⟨b, hb, hcl⟩ => ⟨b, hb, .inl hcl⟩)
    unfold operate
    cases hb : (s.decisions d).backlog with
    | none =>
      rw [hb] at hok
      exact inv_report (hsettled (.inl hok)) hplain'.steady
    | some b =>
      rw [hb] at hok
      obtain ⟨hws, hlt, hcl, hwait⟩ := hok
      simp only
      split
      · rename_i hclosed
        have hdone := hsettled ((hcl hclosed).imp_right fun h => ⟨b, h, hclosed⟩)
        split
        · exact hdone
        · exact inv_report hdone hplain'.steady
      · rename_i hopen
        have hclosed : (s.blogs b).closed = false := (Bool.not_eq_true _).mp hopen
        obtain ⟨-, ⟨v, rest, hq⟩, hdecided⟩ := hwait hclosed
        have hunasked := unasked_deliver hi hd hp hb hclosed
        cases o with
        | refused r => exact inv_waitedRefused hcalled hplain' hlt hws hq hunasked
        | granted =>
          simp only [PhaseOk, hphase] at hdecided
          exact inv_waitedGranted hcalled hplain' hlt hq hunasked hdecided
  | _ =>
    rw [hphase] at h
    contradiction

/-! ## timers -/

theorem inv_timeout (hi : Inv none s) (hplain : Plain s.stack) (hlt : b < s.nextBlog)
    (h : timeout s b = some s') : Inv none s' := by
  obtain ⟨htimer, rfl⟩ := by simpa [timeout] using h
  obtain ⟨hwaiting, hclosed⟩ := hi.timer b htimer
  have hreg := (hi.live b (hi.waiting b hwaiting hclosed)).2
  have hkeep : Swaps s b { s.blogs b with timer := false } s.backlogs :=
    swaps_keep hi rfl rfl rfl rfl rfl (by simp) fun h => absurd h hplain.not_pump
  have hmod := inv_swap hi hplain.steady hkeep
  have hblog : (s.modBlog b fun blog => { blog with timer := false }).blogs b =
      { s.blogs b with timer := false } := by simp [modBlog]
  have hrefused := inv_refuse (s.blogs b).ws hmod hplain.steady
  have hhole : Inv (some (((s.modBlog b fun blog => { blog with timer := false }).emit
      (.refused (s.blogs b).ws)).blogs b).ws) ((s.modBlog b fun blog =>
        { blog with timer := false }).emit (.refused (s.blogs b).ws)) := by
    simp only [State.emit, hblog]
    exact hrefused
  refine (inv_fail hhole hplain.steady hlt (fun h => absurd h hplain.not_pump) fun _ => ?_).1
  simp only [State.emit, hblog]
  exact hreg

/-- The time bound of an `end` runs out. -/
theorem inv_endTimeout (hi : Inv none s) (hplain : Plain s.stack)
    (h : endTimeout s b = some s') : Inv none s' := by
  obtain ⟨-, rfl⟩ := by simpa [endTimeout] using h
  have hkeep : Swaps s b { s.blogs b with endTimer := false } s.backlogs :=
    swaps_keep hi rfl rfl rfl rfl rfl (fun h => h) fun h => absurd h hplain.not_pump
  have hmod := inv_swap hi hplain.steady hkeep
  have hws : ((s.modBlog b fun blog => { blog with endTimer := false }).blogs b).ws =
      (s.blogs b).ws := by simp [modBlog]
  generalize hs₀ : (s.modBlog b fun blog => { blog with endTimer := false }) = s₀ at hws ⊢
  have hi₀ : Inv none s₀ := hs₀ ▸ hmod
  have hplain₀ : Plain s₀.stack := by
    rw [← hs₀]
    exact hplain
  split
  · -- the socket is ended first, as nothing below looks at it
    have hclose := @inv_close _ _ (s.blogs b).ws hi₀
    have hswap : { release (forget s₀ b) b with
        isOpen := update (release (forget s₀ b) b).isOpen (s.blogs b).ws false } =
        release (forget { s₀ with
          isOpen := update s₀.isOpen (s.blogs b).ws false } b) b := by
      simp only [forget]
      split <;> rfl
    have hreleased := inv_releaseForget (b := b) hclose hplain₀.steady (by simp [hws])
    have hsteady : Steady (release (forget { s₀ with
        isOpen := update s₀.isOpen (s.blogs b).ws false } b) b) := by
      rw [forget_eq]
      exact hplain₀.steady
    have hended := inv_quiet (e := .ended (s.blogs b).ws ((s.blogs b).ending.getD 0))
      hreleased hsteady rfl
    unfold nativeEnd
    rw [hswap]
    exact inv_pushPlain hended hsteady trivial rfl rfl
  · rename_i hopen
    have hsame : (release (forget s₀ b) b).isOpen = s₀.isOpen := by
      rw [forget_eq]
      rfl
    rw [hsame, Bool.not_eq_true] at hopen
    exact inv_releaseForget hi₀ hplain₀.steady (by rw [hws]; exact hopen)

/-! ## operations -/

/-- `endNow` -/
theorem inv_endNow {code : Nat} (hi : Inv none s) (hplain : Plain s.stack) :
    Inv none (endNow s ws code) := by
  unfold endNow
  split
  · split
    · exact (inv_nativeEnd hi hplain.steady).1
    · exact hi.other
  · rename_i b hb
    split
    · exact hi
    · have hkeep : Swaps s b { s.blogs b with ending := some code, endTimer := true }
          s.backlogs :=
        swaps_keep hi rfl rfl rfl rfl rfl (fun h => h) fun h => absurd h hplain.not_pump
      have hmod := inv_swap hi hplain.steady hkeep
      exact Inv.other hmod

theorem inv_pushCalm {t : Task} (hi : Inv none s) (hplain : Plain s.stack) (ht : TaskOk s t)
    (hpump : t.pump? = none) : Inv none (s.push t) :=
  inv_push hi hplain.steady ht (fun _ => hplain.calm) fun c hc => by
    rw [hpump] at hc
    contradiction

variable {o : Options}

theorem inv_walk {rest : List Socket} {topic : JsString} {p : Payload}
    {logical : Option JsString} {accepted busy : Bool} (hi : Inv none s) (hplain : Plain s.stack) :
    Inv none (walk o s rest topic p logical accepted busy) := by
  unfold walk
  cases rest with
  | nil => exact hi.other
  | cons ws rest =>
    simp only
    split
    · exact inv_admission (inv_pushCalm hi hplain trivial rfl) (hplain.push rfl rfl)
    · exact inv_pushCalm hi hplain trivial rfl

theorem inv_runJob {j : Job} (hi : Inv none s) (hplain : Plain s.stack)
    (hj : ∀ b r, j = .endRefused b r → b < s.nextBlog ∧ (s.blogs b).closed = true) :
    Inv none (runJob o s j) := by
  cases j with
  | admission kind ws p topic => exact inv_admission hi hplain
  | idle ws =>
    simp only [runJob]
    split
    · exact hi
    · exact inv_pushCalm hi hplain trivial rfl
  | walk connections topic p logical | operation owner => exact inv_pushCalm hi hplain trivial rfl
  | endNow ws code => exact inv_endNow hi hplain
  | endRefused b r => exact (inv_endRefused hi hplain.steady (hj b r rfl).2).1
  | close ws =>
    simp only [runJob]
    split
    · exact (inv_nativeEnd hi hplain.steady).1
    · exact hi

theorem calm_of_inPolicy (h : ¬ 0 < s.inPolicy) : ∀ u ∈ s.stack, u.isPolicy = false := by
  intro u hu
  have hzero : s.inPolicy = 0 := by omega
  have hnot := List.countP_eq_zero.mp hzero u hu
  cases u with
  | policy ws ms i asker => exact absurd rfl hnot
  | _ => rfl

theorem plain_of_inPolicy (hsteady : Steady s) (h : ¬ 0 < s.inPolicy) : Plain s.stack :=
  fun u hu => ⟨hsteady u hu, calm_of_inPolicy h u hu⟩

/-- `leave` -/
theorem inv_leave (hi : Inv none s) (hsteady : Steady s) : Inv none (leave s) := by
  unfold leave
  split
  · exact hi
  · rename_i hlast
    exact inv_pushCalm hi (plain_of_inPolicy hsteady fun h => hlast (.inr h)) trivial rfl

/-- One turn of the loop of `leave`. -/
theorem inv_flush (hi : Inv none s) (hplain : Plain s.stack) : Inv none (flush s) := by
  unfold flush
  split
  · exact hi
  have hempty : Inv none { s with queued := [] } :=
    { hi with
      pumps := fun c hc => { hi.pumps c hc with }
      queued := by simp }
  have hloop := inv_pushCalm (t := .flush) hempty hplain trivial rfl
  exact inv_pushCalm hloop (hplain.push rfl rfl) hi.queued rfl

/-! ## entry points and returns -/

theorem steady_of_atRest (hi : Inv none s) (h : atRest s = true) : Steady s := by
  intro t ht
  have hd := hi.discipline
  cases hstack : s.stack with
  | nil =>
    rw [hstack] at ht
    contradiction
  | cons top rest =>
    rw [hstack] at ht hd
    rcases List.mem_cons.mp ht with rfl | ht
    · simp only [atRest, hstack] at h
      cases t <;> first | rfl | contradiction
    · exact hd.1 t ht

/-- `enter`, an operation, `leave`. -/
theorem inv_operate {body : State → State} (hi : Inv none s) (hplain : Plain s.stack)
    (hbody : ∀ s', Inv none s' → Plain s'.stack → Inv none (body s')) : Inv none (operate s body) :=
  hbody _ (inv_pushCalm hi hplain trivial rfl) (hplain.push rfl rfl)

theorem inv_call {a : Action} (hi : Inv none s) (hsteady : Steady s)
    (h : call o s a = some s') : Inv none s' := by
  have hnative {kind : Kind} {ws : Socket} {p : Payload} {topic : Option JsString}
      (hreleased : s.released ws = true) : Inv none (nativeSend s kind ws p topic) :=
    inv_nativeSend hi hsteady (hi.released ws hreleased)
  have hdefer {j : Job} (hj : ∀ b r, j ≠ .endRefused b r) : Inv none (s.defer j) :=
    inv_defer hi fun b r h => absurd h (hj b r)
  have hadmit {kind : Kind} {ws : Socket} {p : Payload} {topic : Option JsString}
      (hpolicy : ¬ 0 < s.inPolicy) :
      Inv none (operate s fun s => admission o s kind ws p topic) :=
    inv_operate hi (plain_of_inPolicy hsteady hpolicy) fun _ => inv_admission
  cases a with
  | send ws p topic | control ws p =>
    cases h
    split
    · rename_i hreleased
      exact hnative hreleased
    · split
      · exact (hdefer (by simp)).other
      · rename_i hpolicy
        exact hadmit hpolicy
  | sendReplaceable ws p =>
    cases h
    split
    · rename_i hreleased
      exact hnative hreleased
    · split
      · exact (hdefer (by simp)).other
      · rename_i hpolicy
        split
        · exact hi.other
        · exact hadmit hpolicy
  | publish subscribers connections topic p logical =>
    cases h
    split
    · exact hi.other
    · split
      · exact (hdefer (by simp)).other
      · rename_i hpolicy
        exact inv_operate hi (plain_of_inPolicy hsteady hpolicy) fun _ hi' hplain =>
          inv_pushCalm hi' hplain trivial rfl
  | end_ ws code =>
    cases h
    split
    · split
      · exact (inv_nativeEnd hi hsteady).1
      · exact hi.other
    · split
      · exact hdefer (by simp)
      · rename_i hpolicy
        exact inv_operate hi (plain_of_inPolicy hsteady hpolicy) fun _ => inv_endNow
  | drain ws =>
    cases h
    split
    · exact hi.other
    · rename_i b hb
      obtain ⟨hlt, hws⟩ := hi.registered ws b hb
      have hcalled := inv_pushPlain (t := .drained ws) hi hsteady trivial rfl rfl
      have hsteady' := steady_push (t := .drained ws) hsteady rfl
      have hentered := inv_pushPlain (t := .leave) hcalled hsteady' trivial rfl rfl
      exact inv_pump hentered (steady_push hsteady' rfl) hlt fun _ => hws ▸ hb
  | closed ws =>
    simp only [call] at h
    split at h
    · contradiction
    rename_i hopen
    have hopen : s.isOpen ws = false := (Bool.not_eq_true _).mp hopen
    have hreleased : Inv none { s with released := update s.released ws true } :=
      { hi with
        pumps := fun c hc => { hi.pumps c hc with }
        released := fun w hw => by
          by_cases hww : w = ws
          · exact hww ▸ hopen
          · exact hi.released w (by simpa [hww] using hw) }
    split at h
    · cases h
      exact hreleased
    rename_i b hb
    cases h
    have hws := (hi.registered ws b hb).2
    have hforget : forget { s with released := update s.released ws true } b =
        State.unregister { s with released := update s.released ws true } ws := by
      simp [forget, hws, hb]
    have hdone := inv_releaseForget hreleased hsteady (by rw [hws]; exact hopen)
    rwa [hforget] at hdone
  | begin =>
    cases h
    exact inv_pushPlain hi hsteady trivial rfl rfl
  | deferOperation =>
    cases h
    exact hdefer (by simp)
  | _ => contradiction

/-- What holds of a call that is taken off the stack, and of what is left. -/
structure Popped (s : State) (t : Task) (stack : List Task) : Prop where
  inv : Inv none { s with stack := stack }
  steady : Steady { s with stack := stack }
  task : TaskOk s t
  plain : t.calm = true → Plain stack
  drain : ∀ {b}, t.pump? = some b → b ∉ pumps stack ∧ PumpOk { s with stack := stack } b

theorem inv_popped {t : Task} {stack : List Task} (hi : Inv none s) (hstack : s.stack = t :: stack) :
    Popped s t stack := by
  obtain ⟨hpop, hsteady⟩ := inv_pop hi hstack
  have hd := hi.discipline
  have hnodup := hi.nodup
  have hpumps := hi.pumps
  rw [hstack] at hd hnodup hpumps
  refine ⟨hpop, hsteady, hi.tasks t (by simp [hstack]),
    fun hcalm u hu => ⟨hd.1 u hu, hd.2.1 hcalm u hu⟩, fun {b} hb => ?_⟩
  have hcons : pumps (t :: stack) = b :: pumps stack := by
    rw [pumps, List.filterMap_cons, hb]
    rfl
  rw [hcons] at hnodup hpumps
  exact ⟨(List.nodup_cons.mp hnodup).1, { hpumps b (List.mem_cons_self ..) with }⟩

theorem Popped.asker {asker : Asker}
    {stack : List Task} (h : Popped s (.policy ws ms i asker) stack) :
    AskerOk { s with stack := stack } asker := by
  cases asker with
  | fast f | settle d => exact h.plain rfl
  | pump b f => exact h.drain rfl

theorem inv_ret {v : Verdict} (hi : Inv none s) (h : ret s v = some s') : Inv none s' := by
  cases hstack : s.stack with
  | nil => simp [ret, hstack] at h
  | cons t stack =>
    have ht := inv_popped hi hstack
    simp only [ret, hstack] at h
    cases t with
    | policy ws ms i asker =>
      simp only at h
      cases hm : ms[i]? with
      | none =>
        rw [hm] at h
        contradiction
      | some m =>
        rw [hm] at h
        cases h
        refine inv_policyReturn ht.inv ht.steady ?_ ht.asker hm
        have htask := ht.task
        cases asker <;> exact htask
    | hook =>
      cases h
      exact ht.inv
    | operation owner =>
      simp only at h
      have hplain : Plain stack := ht.plain rfl
      split at h
      · rename_i ws
        have hrefused := inv_refuse ws ht.inv ht.steady
        split at h
        · rename_i b hb
          cases h
          obtain ⟨hlt, hws⟩ := hi.registered ws b hb
          have hhole : Inv (some ((({ s with stack := stack } : State).emit
              (.refused ws)).blogs b).ws) (({ s with stack := stack } : State).emit
                (.refused ws)) := hws.symm ▸ hrefused
          exact (inv_fail hhole ht.steady hlt (fun h => absurd h hplain.not_pump)
            fun _ => hws.symm ▸ hb).1
        · rename_i hb
          cases h
          exact inv_failFresh hrefused hplain hb
      · cases h
        exact ht.inv
    | _ => contradiction

theorem inv_step {status : Nat} (hi : Inv none s)
    (h : step o s status = some s') : Inv none s' := by
  cases hstack : s.stack with
  | nil => simp [step, hstack] at h
  | cons t stack =>
    have ht := inv_popped hi hstack
    simp only [step, hstack] at h
    cases t with
    | hand f bo =>
      cases h
      refine inv_transmit ht.inv ht.steady ht.task (fun b hb => ht.drain hb) fun hnone => ?_
      subst hnone
      exact (ht.plain rfl).calm
    | native f =>
      cases h
      have hopen : ¬ s.isOpen f.ws = true := by
        have hclosed : s.isOpen f.ws = false := ht.task
        simp [hclosed]
      rw [transmit, if_neg hopen]
      exact ht.inv.other
    | pumping b =>
      cases h
      obtain ⟨hb, hp⟩ := ht.drain rfl
      exact inv_drainQueue ht.inv ht.steady hb hp ht.task
    | walk rest topic p logical accepted busy =>
      cases h
      exact inv_walk ht.inv (ht.plain rfl)
    | drained ws =>
      cases h
      exact ht.inv.other
    | leave =>
      cases h
      exact inv_leave ht.inv ht.steady
    | flush =>
      cases h
      exact inv_flush ht.inv (ht.plain rfl)
    | jobs js =>
      cases js with
      | nil =>
        cases h
        exact ht.inv
      | cons j js =>
        cases h
        have hrest : TaskOk { s with stack := stack } (.jobs js) :=
          fun b r hm => ht.task b r (List.mem_cons_of_mem _ hm)
        have hloop := inv_pushCalm ht.inv (ht.plain rfl) hrest rfl
        have hplain : Plain (.jobs js :: stack) :=
          Plain.push (s := { s with stack := stack }) (ht.plain rfl) rfl rfl
        exact inv_runJob hloop hplain fun b r hj =>
          ht.task b r (hj ▸ List.mem_cons_self ..)
    | _ => contradiction

/-- **Step lemma**. -/
theorem inv_next {a : Action} (hi : Inv none s)
    (h : (machine o).next s a = some s') : Inv none s' := by
  have hplain (hempty : s.stack.isEmpty = true) : Plain s.stack := by
    rw [List.isEmpty_iff.mp hempty]
    intro u hu
    contradiction
  cases a with
  | transport ws n | subscribe ws topic on =>
    cases h
    exact hi.other
  | nativeClose ws =>
    cases h
    exact inv_close hi
  | step status => exact inv_step hi h
  | ret v => exact inv_ret hi h
  | finish =>
    simp only [machine] at h
    split at h
    · rename_i stack hstack
      cases h
      obtain ⟨hpop, hsteady⟩ := inv_pop hi hstack
      exact inv_pushPlain hpop hsteady trivial rfl rfl
    · contradiction
  | settle d v =>
    simp only [machine] at h
    obtain ⟨hempty, h⟩ := Option.ite_none_right_eq_some.mp h
    exact inv_settle hi (hplain hempty) h
  | react d =>
    simp only [machine] at h
    obtain ⟨hempty, h⟩ := Option.ite_none_right_eq_some.mp h
    exact inv_react hi (hplain hempty) h
  | timeout b =>
    simp only [machine] at h
    obtain ⟨hcan, h⟩ := Option.ite_none_right_eq_some.mp h
    exact inv_timeout hi (hplain hcan.1) hcan.2 h
  | endTimeout b =>
    simp only [machine] at h
    obtain ⟨hcan, h⟩ := Option.ite_none_right_eq_some.mp h
    exact inv_endTimeout hi (hplain hcan.1) h
  | _ =>
    simp only [machine] at h
    obtain ⟨hrest, h⟩ := Option.ite_none_right_eq_some.mp h
    exact inv_call hi (steady_of_atRest hi hrest) h

theorem inv_of_runs {ok : State → Action → Prop} {as : List Action}
    (h : (machine o).Runs ok as s) : Inv none s :=
  h.invariant inv_init fun _ _ _ hi _ hn => inv_next hi hn

end Runs

/-! ## delivery order -/

/-- The numbers of the frames handed to a socket, newest first. -/
def handedTo (ws : Socket) (log : List Event) : List Nat :=
  ((handedFrames log).filter fun f => f.ws = ws).map Frame.id

/-- The numbers of the frames admitted for a socket, newest first. -/
def admittedTo (ws : Socket) (log : List Event) : List Nat := log.filterMap fun
  | .admitted w id => if w = ws then some id else none
  | _ => none

/-- The frame is kept back: held, or with the policy on the fast path. -/
def Kept (s : State) (f : Frame) : Prop :=
  (∃ b, ∃ e ∈ (s.blogs b).queue, e.frame = f) ∨
    ∃ ws ms i, .policy ws ms i (.fast f) ∈ s.stack

theorem mem_handedTo {id : Nat} :
    id ∈ handedTo ws log ↔ ∃ f, .handed f ∈ log ∧ f.ws = ws ∧ f.id = id := by
  simp [handedTo, mem_handedFrames, and_assoc]

theorem mem_admittedTo {id : Nat} : id ∈ admittedTo ws log ↔ .admitted ws id ∈ log := by
  simp only [admittedTo, List.mem_filterMap]
  constructor
  · rintro ⟨e, he, h⟩
    cases e with
    | admitted w id' =>
      obtain ⟨rfl, rfl⟩ : w = ws ∧ id' = id := by simpa using h
      exact he
    | _ => contradiction
  · intro h
    exact ⟨_, h, by simp⟩

theorem admittedTo_sublist : (admittedTo ws log).Sublist (admittedIds log) := by
  induction log with
  | nil => exact .slnil
  | cons e log ih =>
    cases e with
    | admitted w id =>
      simp only [admittedTo, List.filterMap_cons] at ih ⊢
      split
      · exact ih.cons _
      · rename_i hid
        obtain ⟨-, ⟨⟩⟩ := Option.ite_none_right_eq_some.mp hid
        exact ih.cons_cons _
    | _ => exact ih

section Order

variable {hole : Option Socket} {s : State} {ws : Socket}

theorem Inv.admittedTo_sorted (hi : Inv hole s) :
    (admittedTo ws s.log).Pairwise fun newer older => older < newer :=
  hi.numbered.sublist admittedTo_sublist

theorem Inv.handedTo_sorted (hi : Inv hole s) :
    (handedTo ws s.log).Pairwise fun newer older => older < newer := by
  rw [handedTo, List.pairwise_map]
  have hsocket := hi.ordered.sublist (List.filter_sublist (p := fun f => f.ws = ws))
  refine hsocket.imp_of_mem fun hf hg hlt => hlt ?_
  simp only [List.mem_filter, decide_eq_true_eq] at hf hg
  exact hf.2.trans hg.2.symm

theorem Inv.handedTo_sublist (hi : Inv hole s) :
    (handedTo ws s.log).Sublist (admittedTo ws s.log) := by
  have hsorted : (handedTo ws s.log).Pairwise fun newer older => older < newer :=
    hi.handedTo_sorted
  refine List.sublist_of_subperm_of_pairwise ?_
    (hsorted.imp Nat.le_of_lt) (hi.admittedTo_sorted.imp Nat.le_of_lt)
  refine List.subperm_of_subset (hsorted.imp fun h => (Nat.ne_of_lt h).symm) fun id hid => ?_
  obtain ⟨f, hf, rfl, rfl⟩ := mem_handedTo.mp hid
  exact mem_admittedTo.mpr (hi.handed f hf)

theorem Inv.handed_lt_kept {f : Frame} (hi : Inv hole s) (hf : Kept s f) :
    f.id ∈ admittedTo f.ws s.log ∧ ∀ id ∈ handedTo f.ws s.log, id < f.id := by
  obtain ⟨hknown, hbefore⟩ : .admitted f.ws f.id ∈ s.log ∧
      ∀ g, .handed g ∈ s.log → g.ws = f.ws → g.id < f.id := by
    rcases hf with ⟨b, e, he, rfl⟩ | ⟨ws, ms, i, hmem⟩
    · have hok := hi.entries b e he
      exact ⟨hok.known, hok.handed⟩
    · obtain ⟨-, -, -, hahead, -⟩ := hi.tasks _ hmem
      exact ⟨hahead.known, hahead.handed⟩
  refine ⟨mem_admittedTo.mpr hknown, fun id hid => ?_⟩
  obtain ⟨g, hg, hws, rfl⟩ := mem_handedTo.mp hid
  exact hbefore g hg hws

end Order

/-- **Delivery order**: frames are handed to a socket in the order in which
they were admitted for it, each at most once, and before all that it keeps
back. -/
theorem delivery_ordered {o : Options} {as : List Action} {s : State}
    (h : (machine o).Runs Any as s) (ws : Socket) :
    (admittedTo ws s.log).Pairwise (fun newer older => older < newer) ∧
      (handedTo ws s.log).Sublist (admittedTo ws s.log) ∧ (handedTo ws s.log).Nodup ∧
        ∀ f, Kept s f → f.ws = ws →
          f.id ∈ admittedTo ws s.log ∧ ∀ id ∈ handedTo ws s.log, id < f.id := by
  have hi := inv_of_runs h
  refine ⟨hi.admittedTo_sorted, hi.handedTo_sublist, ?_, ?_⟩
  · exact hi.handedTo_sorted.imp fun hlt => (Nat.ne_of_lt hlt).symm
  · rintro f hf rfl
    exact hi.handed_lt_kept hf

/-- A frame waits for a promise, a control frame queues up behind it, and both
are handed on once the promise is granted. -/
def orderly : List Action :=
  [.send 0 ⟨true, 3, none⟩ (some []), .ret .promise, .step 0, .step 0,
    .control 0 ⟨true, 3, none⟩, .step 0, .step 0,
    .settle 0 .yes, .react 0, .step 1, .step 1, .step 1, .step 1]

theorem delivery_ordered_run : ∃ s, (machine {}).Runs Any orderly s ∧
    handedTo 0 s.log = [1, 0] ∧ (handedTo 0 s.log).Sublist (admittedTo 0 s.log) := by
  obtain ⟨s, hs⟩ : ∃ s, (machine {}).exec (machine {}).init orderly = some s := ⟨_, rfl⟩
  have hrun := runs_of_exec hs
  exact ⟨s, hrun, by cases hs; rfl, (delivery_ordered hrun 0).2.1⟩

/-! ## what is kept back -/

theorem Approved.split {id : Nat} {m : Message} (h : Approved id i m log) :
    ∃ since before, log = since ++ .answered id i m :: before ∧ .full id ∉ since := by
  induction log with
  | nil => contradiction
  | cons e log ih =>
    have hcons (htail : Approved id i m log) (he : e ≠ .full id) :
        ∃ since before, e :: log = since ++ .answered id i m :: before ∧ .full id ∉ since := by
      obtain ⟨since, before, rfl, hfull⟩ := ih htail
      exact ⟨e :: since, before, rfl, by simp [hfull, he.symm]⟩
    cases e with
    | answered id' i' m' =>
      rcases h with ⟨rfl, rfl, rfl⟩ | htail
      · exact ⟨[], log, rfl, by simp⟩
      · exact hcons htail (by simp)
    | full id' => exact hcons h.2 (by simpa using h.1)
    | _ => exact hcons h (by simp)

theorem Mediated.at_handed {newer older : List Event} {f : Frame}
    (h : Mediated (newer ++ .handed f :: older)) :
    (f.kind = .application → Cleared older f) ∧ .refused f.ws ∉ older := by
  induction newer with
  | nil => exact ⟨h.1, h.2.1⟩
  | cons e newer ih =>
    cases e with
    | handed g => exact ih h.2.2
    | _ => exact ih h

theorem describe_ne_nil {p : Payload} {topic : Option JsString}
    (h : describe p topic = some ms) : ms ≠ [] := by
  unfold describe at h
  repeat' split at h
  all_goals try contradiction
  · obtain ⟨t, -, rfl⟩ := Option.map_eq_some_iff.mp h
    simp
  · rename_i e es _
    rw [List.mapM_cons] at h
    obtain ⟨m, -, h⟩ := Option.bind_eq_some_iff.mp h
    obtain ⟨ms', -, h⟩ := Option.bind_eq_some_iff.mp h
    cases h
    simp
  · cases h
    simp
  · obtain ⟨m, -, rfl⟩ := Option.map_eq_some_iff.mp h
    simp

/-- **Complete mediation**: when a frame was handed on, the policy had answered
true for every message in it since the transport was last full for it, and no
decision for its socket had failed. -/
theorem delivery_mediated {o : Options} {as : List Action} {s : State}
    (h : (machine o).Runs Any as s) {newer older : List Event} {f : Frame}
    (hlog : s.log = newer ++ .handed f :: older) :
    (f.kind = .application → ∃ ms, describe f.payload f.topic = some ms ∧ ms ≠ [] ∧
      ∀ i m, ms[i]? = some m →
        ∃ since before, older = since ++ .answered f.id i m :: before ∧ .full f.id ∉ since) ∧
      .refused f.ws ∉ older := by
  have hmediated := (inv_of_runs h).mediated
  rw [hlog] at hmediated
  obtain ⟨hcleared, hrefused⟩ := hmediated.at_handed
  refine ⟨fun hkind => ?_, hrefused⟩
  obtain ⟨ms, hms, hall⟩ := hcleared hkind
  exact ⟨ms, hms, describe_ne_nil hms, fun i m hm => (hall i m hm).split⟩

theorem delivery_mediated_run : ∃ s, (machine {}).Runs Any orderly s ∧
    ∃ newer older, s.log = newer ++ .handed ⟨0, 0, .application, ⟨true, 3, none⟩, some []⟩ :: older ∧
      .refused 0 ∉ older := by
  obtain ⟨s, hs⟩ : ∃ s, (machine {}).exec (machine {}).init orderly = some s := ⟨_, rfl⟩
  have hrun := runs_of_exec hs
  have hlog : ∃ newer older, s.log =
      newer ++ .handed ⟨0, 0, .application, ⟨true, 3, none⟩, some []⟩ :: older := by
    cases hs
    exact ⟨[_], _, rfl⟩
  obtain ⟨newer, older, hlog⟩ := hlog
  exact ⟨s, hrun, newer, older, hlog, (delivery_mediated hrun hlog).2⟩

end BunServe.Delivery
