import BunServe.Delivery.Invariant

/-!
# BunServe.Delivery.Steps

The invariant of the delivery boundary through each of its operations, and the
step lemma `inv_next`.

An operation runs with its own call popped, so it starts from a steady stack.
The drain of a backlog (`PumpOk`, and no other drain of it on the stack) may run
inside policy calls; an admission runs on a `Plain` stack.
-/

namespace BunServe.Delivery

open Machine
open Function (update)

/-! ## closing -/

section Closing

variable {hole : Option Socket} {s : State} {b : Nat} {ws : Socket}

theorem inv_pushPlain {t : Task} (hi : Inv hole s) (hsteady : Steady s) (ht : TaskOk s t)
    (hcalm : t.calm = false) (hpump : t.pump? = none) : Inv hole (s.push t) :=
  inv_push hi hsteady ht (fun h => by rw [hcalm] at h; contradiction)
    fun b h => by rw [hpump] at h; contradiction

theorem steady_push {t : Task} (hsteady : Steady s) (ht : t.transient = false) :
    Steady (s.push t) := by
  intro u hu
  rcases List.mem_cons.mp hu with rfl | hu
  · exact ht
  · exact hsteady u hu

theorem inv_nativeEnd {code : Nat} (hi : Inv hole s) (hsteady : Steady s) :
    Inv hole (nativeEnd s ws code) ∧ Steady (nativeEnd s ws code) := by
  have hended := inv_quiet (e := .ended ws code) (@inv_close _ _ ws hi) hsteady rfl
  exact ⟨inv_pushPlain hended hsteady trivial rfl rfl, steady_push hsteady rfl⟩

def Backlog.shut (blog : Backlog) (failed : Bool) : Backlog :=
  { blog with
    closed := true, failed := failed, ending := none, timer := false, endTimer := false
    queue := [], bytes := 0, held := 0 }

/-- Releasing a backlog, with the registry left as `bl`: it stays registered
only as failed, and is dropped only with its socket closed or nothing decided
for it. -/
theorem inv_shut {bl : Socket → Option Nat} (failed : Bool) (hi : Inv hole s) (hsteady : Steady s)
    (hbl : ∀ w, bl w = s.backlogs w ∨
      w = (s.blogs b).ws ∧ s.backlogs w = some b ∧ bl w = none)
    (hfailed : bl (s.blogs b).ws = some b → failed = true)
    (hpump : b ∈ pumps s.stack → s.isOpen (s.blogs b).ws = false)
    (hgone : bl (s.blogs b).ws ≠ some b → s.isOpen (s.blogs b).ws = false ∨
      (s.blogs b).waiting = false ∧ (s.blogs b).closed = false ∧
        s.backlogs (s.blogs b).ws = some b ∧ hole ≠ some (s.blogs b).ws) :
    Inv hole { s with
      blogs := update s.blogs b ((s.blogs b).shut failed)
      backlogs := bl } := by
  have hpend : ∀ d < s.nextDecision, (s.decisions d).phase ≠ .delivered →
      (s.decisions d).backlog = some b → (s.blogs b).closed = false →
        (s.blogs b).waiting = true := by
    intro d hd hp hb hcl
    obtain ⟨-, hok⟩ := hi.decisions d hd hp
    simp only [hb] at hok
    exact (hok.2.2.2 hcl).1
  refine inv_swap hi hsteady { ws := rfl, registry := hbl, closed := fun _ => rfl, failed := fun _ => rfl,
                               registered := fun h _ => hfailed h, queue := absurd rfl,
                               entries := by simp [Backlog.shut], sorted := by simp [Backlog.shut],
                               waiting := by simp [Backlog.shut], timer := by simp [Backlog.shut],
                               pumping := ?_, decisions := ?_, refused := ?_ }
  · intro hmem
    have hold := hi.pumps b hmem
    exact ⟨hold.pumping, hold.waiting, by simp [Backlog.shut], fun _ => hpump hmem⟩
  · intro d hd hp hb
    refine ⟨fun _ => ?_, by simp [Backlog.shut]⟩
    by_cases hreg : bl (s.blogs b).ws = some b
    · exact .inr hreg
    · refine (hgone hreg).imp_right fun h => ?_
      have := hpend d hd hp hb h.2.1
      rw [h.1] at this
      contradiction
  · intro hnone hreg hrefused
    rcases hgone (by change bl (s.blogs b).ws = none at hnone; simp [hnone]) with h | h
    · exact h
    rcases hi.refused _ h.2.2.2 hrefused with ho | ⟨c, hc, hcl⟩
    · exact ho
    have hcb : c = b := by
      rw [h.2.2.1] at hc
      exact (Option.some.inj hc).symm
    subst hcb
    rcases hcl with hcl | ⟨d, hd, hdb, r, hr⟩
    · rw [h.2.1] at hcl
      contradiction
    · have := hpend d hd (by simp [hr]) hdb h.2.1
      rw [h.1] at this
      contradiction

theorem release_eq : release s b = { s with
    blogs := update s.blogs b ((s.blogs b).shut (s.blogs b).failed)
    endings := if (s.blogs b).ending.isSome then s.endings - 1 else s.endings } := rfl

/-- What `forget` leaves of the registry. -/
theorem forget_backlogs : (∀ w, (forget s b).backlogs w = s.backlogs w ∨
      w = (s.blogs b).ws ∧ s.backlogs w = some b ∧ (forget s b).backlogs w = none) ∧
    (forget s b).backlogs (s.blogs b).ws ≠ some b := by
  simp only [forget, State.unregister]
  constructor
  · intro w
    split
    · next h =>
      by_cases hw : w = (s.blogs b).ws
      · subst hw
        exact .inr ⟨rfl, h, by simp⟩
      · exact .inl (by simp [hw])
    · exact .inl rfl
  · split
    · simp
    · next h => exact h

theorem forget_eq : forget s b = { s with backlogs := (forget s b).backlogs } := by
  simp only [forget]
  split <;> rfl

theorem inv_dropClosed (failed : Bool) (hi : Inv hole s) (hsteady : Steady s)
    (hopen : s.isOpen (s.blogs b).ws = false) :
    Inv hole { s with
      blogs := update s.blogs b ((s.blogs b).shut failed)
      backlogs := (forget s b).backlogs } :=
  inv_shut failed hi hsteady forget_backlogs.1 (fun h => absurd h forget_backlogs.2)
    (fun _ => hopen) fun _ => .inl hopen

theorem inv_releaseForget (hi : Inv hole s) (hsteady : Steady s)
    (hopen : s.isOpen (s.blogs b).ws = false) : Inv hole (release (forget s b) b) := by
  rw [forget_eq]
  exact (inv_dropClosed (s.blogs b).failed hi hsteady hopen).other

theorem inv_defer {j : Job} (hi : Inv hole s)
    (hj : ∀ b r, j = .endRefused b r → b < s.nextBlog ∧ (s.blogs b).closed = true) :
    Inv hole (s.defer j) := by
  refine { hi with tasks := ?_, pumps := fun b hb => { hi.pumps b hb with }, queued := ?_ }
  · intro t ht
    have := hi.tasks t ht
    cases t <;> exact this
  · intro b r h
    rcases List.mem_append.mp h with h | h
    · exact hi.queued b r h
    · exact hj b r (List.mem_singleton.mp h).symm

theorem inv_report {o : Outcome} {code : Option Nat} (hi : Inv hole s) (hsteady : Steady s) :
    Inv hole (report s ws o code) := by
  unfold report
  split
  · exact hi
  · exact hi
  · exact inv_quiet hi hsteady rfl

@[simp] theorem stack_report {o : Outcome} {code : Option Nat} :
    (report s ws o code).stack = s.stack := by
  unfold report
  split <;> rfl

theorem forget_report {o : Outcome} {code : Option Nat} :
    forget (report s ws o code) b = report (forget s b) ws o code := by
  unfold report
  split
  · rfl
  · rfl
  · by_cases h : s.backlogs (s.blogs b).ws = some b <;>
      simp [forget, State.emit, State.unregister, h]

theorem inv_endRefused {r : Reason} (hi : Inv hole s) (hsteady : Steady s)
    (hclosed : (s.blogs b).closed = true) :
    Inv hole (endRefused s b r) ∧ Steady (endRefused s b r) := by
  simp only [endRefused]
  split
  · exact inv_nativeEnd hi hsteady
  rename_i hopen
  have hopen : s.isOpen (s.blogs b).ws = false := by simpa using hopen
  have hnil : (s.blogs b).queue = [] := by
    by_contra h
    rw [(hi.live b h).1] at hclosed
    contradiction
  have hforget : Inv hole { s with
      blogs := update s.blogs b (s.blogs b)
      backlogs := (forget s b).backlogs } := by
    refine inv_swap hi hsteady { ws := rfl, registry := forget_backlogs.1, closed := id,
                                 failed := hi.failed b,
                                 registered := fun h => absurd h forget_backlogs.2,
                                 queue := absurd hnil, entries := hi.entries b,
                                 sorted := hi.sorted b, waiting := hi.waiting b,
                                 timer := hi.timer b, pumping := fun hmem => ?_,
                                 decisions := ?_, refused := fun _ _ _ => hopen }
    · have hold := hi.pumps b hmem
      refine ⟨hold.pumping, hold.waiting, fun h => ?_, fun _ => hopen⟩
      rw [hclosed] at h
      contradiction
    · intro d hd hp hb
      refine ⟨fun _ => .inl hopen, fun h => ?_⟩
      rw [hclosed] at h
      contradiction
  rw [Function.update_eq_self] at hforget
  rw [forget_eq]
  refine ⟨?_, hsteady⟩
  refine { hforget with tasks := ?_, pumps := fun c hc => { hforget.pumps c hc with },
                        released := ?_ }
  · intro t ht
    have := hforget.tasks t ht
    cases t <;> exact this
  · intro w hw
    by_cases h : w = (s.blogs b).ws
    · subst h; exact hopen
    · exact hi.released w (by simpa [h] using hw)

/-- **Failing** a backlog that is registered while its socket is open makes a
refusal for the socket take effect. -/
theorem inv_fail {r : Reason} (hi : Inv (some (s.blogs b).ws) s) (hsteady : Steady s)
    (hlt : b < s.nextBlog) (hpump : b ∈ pumps s.stack → s.isOpen (s.blogs b).ws = false)
    (hopenReg : s.isOpen (s.blogs b).ws = true → s.backlogs (s.blogs b).ws = some b) :
    Inv none (fail s b r) ∧ Steady (fail s b r) := by
  have hfailed : release (s.modBlog b fun blog => { blog with failed := true }) b = { s with
      blogs := update s.blogs b ((s.blogs b).shut true)
      endings := if (s.blogs b).ending.isSome then s.endings - 1 else s.endings } := by
    simp [release, State.modBlog, Backlog.shut]
  simp only [fail]
  split
  · next hf =>
    refine ⟨inv_fill hi ?_, hsteady⟩
    cases ho : s.isOpen (s.blogs b).ws with
    | false => exact .inl ho
    | true => exact .inr ⟨b, hopenReg ho, .inl (hi.failed b hf)⟩
  · next hf =>
    rw [hfailed]
    generalize (if (s.blogs b).ending.isSome then s.endings - 1 else s.endings) = n
    split
    · next hgone =>
      have hopen : s.isOpen (s.blogs b).ws = false := by
        rw [Bool.or_eq_true] at hgone
        cases hgone with
        | inl hcl =>
          by_contra ho
          exact hf (hi.closed _ b (hopenReg (by simpa using ho)) hcl)
        | inr hrel => exact hi.released _ hrel
      have hforget : forget { s with
          blogs := update s.blogs b ((s.blogs b).shut true)
          endings := n } b =
          { s with
            blogs := update s.blogs b ((s.blogs b).shut true)
            backlogs := (forget s b).backlogs
            endings := n } := by
        simp only [forget, Function.update_self, Backlog.shut]
        split <;> rfl
      have hdrop := inv_fill (inv_dropClosed true hi hsteady hopen) (.inl hopen)
      rw [forget_report, hforget]
      refine ⟨inv_report hdrop.other hsteady, ?_⟩
      simpa only [Steady, stack_report] using hsteady
    · have hshut : Inv (some (s.blogs b).ws) { s with
          blogs := update s.blogs b ((s.blogs b).shut true) } :=
        inv_shut true hi hsteady (fun w => .inl rfl) (fun _ => rfl) hpump fun hne => .inl (by
          by_contra ho
          exact hne (hopenReg (by simpa using ho)))
      have hblocked : Blocked { s with
          blogs := update s.blogs b ((s.blogs b).shut true) } (s.blogs b).ws := by
        cases ho : s.isOpen (s.blogs b).ws with
        | false => exact .inl ho
        | true => exact .inr ⟨b, hopenReg ho, .inl (by simp [Backlog.shut])⟩
      have hfill : Inv none { s with
          blogs := update s.blogs b ((s.blogs b).shut true)
          endings := n } :=
        (inv_fill hshut hblocked).other
      have hreport : Inv none (report _ (s.blogs b).ws (.refused r) (some r.code)) :=
        inv_report hfill hsteady
      split
      · refine ⟨inv_defer hreport fun c r' hj => ?_, ?_⟩
        · obtain ⟨rfl, -⟩ := Job.endRefused.inj hj
          unfold report
          split <;> simp [Backlog.shut, State.emit, hlt]
        · simpa only [Steady, State.defer, stack_report] using hsteady
      · refine inv_endRefused hreport (by simpa only [Steady, stack_report] using hsteady) ?_
        unfold report
        split <;> simp [Backlog.shut, State.emit]

end Closing

end BunServe.Delivery
