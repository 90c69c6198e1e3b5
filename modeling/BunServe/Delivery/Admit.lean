import BunServe.Delivery.Pump

/-!
# BunServe.Delivery.Admit

The invariant of the delivery boundary through an admission.

An admission runs inside no policy call, so the stack below it is `Plain`: no
backlog is being drained, and no other frame is on the fast path.

* `inv_fastGranted`, `inv_fastRefused`, `inv_fastLater` — a decision on the fast
  path;
* `inv_admission` — a frame is handed on, asked about, held or refused;
* `inv_walk` — one turn of a publish.
-/

namespace BunServe.Delivery

open State (openBlog)

section Admit

variable {hole : Option Socket} {s : State} {b : Nat} {ws : Socket} {f : Frame}

theorem Plain.steady (h : Plain s.stack) : Steady s := fun t ht => (h t ht).1

theorem Plain.not_pump (h : Plain s.stack) : b ∉ pumps s.stack := by
  rw [pumps_eq_nil h]
  exact List.not_mem_nil

theorem Plain.calm (h : Plain s.stack) : ∀ u ∈ s.stack, u.isPolicy = false :=
  fun u hu => (h u hu).2

/-! ## opening and holding -/

theorem inv_openBlog (hi : Inv hole s) (hplain : Plain s.stack) (hnone : s.backlogs ws = none) :
    Inv hole (s.openBlog ws) := by
  have hold : ∀ {c}, c < s.nextBlog →
      Function.update s.blogs s.nextBlog (.empty ws) c = s.blogs c := fun hc =>
    Function.update_of_ne (Nat.ne_of_lt hc) _ _
  have hblogs : ∀ c, (s.openBlog ws).blogs c = s.blogs c ∨
      (s.openBlog ws).blogs c = .empty ws := by
    intro c
    by_cases hc : c = s.nextBlog
    · subst hc
      exact .inr (by simp [openBlog])
    · exact .inl (by simp [openBlog, hc])
  have hother : ∀ w, w ≠ ws → (s.openBlog ws).backlogs w = s.backlogs w := fun w hw => by
    simp [openBlog, hw]
  have hself : (s.openBlog ws).backlogs ws = some s.nextBlog := by simp [openBlog]
  have hkeep : ∀ w c, s.backlogs w = some c → (s.openBlog ws).backlogs w = some c := by
    intro w c hc
    have hw : w ≠ ws := by
      rintro rfl
      rw [hnone] at hc
      contradiction
    rw [hother w hw, hc]
  have hlt : ∀ w c, s.backlogs w = some c → c < s.nextBlog := fun w c hc =>
    (hi.registered w c hc).1
  refine { hi with tasks := ?_, pumps := ?_, registered := ?_, live := ?_, failed := ?_,
                   closed := ?_, queued := ?_, waiting := ?_, timer := ?_, entries := ?_,
                   sorted := ?_, decisions := ?_, single := ?_, refused := ?_ }
  · refine tasks_of_policies (s.openBlog ws) hi hplain.steady rfl ?_ ?_
    · intro c hc
      refine ⟨Nat.lt_succ_of_lt hc.1, ?_⟩
      simp only [openBlog, hold hc.1]
      exact hc.2
    · intro w ms i asker hmem
      have hpolicy := hplain.calm _ hmem
      contradiction
  · intro c hc
    exact absurd hc hplain.not_pump
  · intro w c hc
    by_cases hw : w = ws
    · subst hw
      rw [hself] at hc
      cases hc
      exact ⟨Nat.lt_succ_self _, by simp [openBlog, Backlog.empty]⟩
    · rw [hother w hw] at hc
      obtain ⟨hlt', hws⟩ := hi.registered w c hc
      refine ⟨Nat.lt_succ_of_lt hlt', ?_⟩
      simp only [openBlog, hold hlt']
      exact hws
  · intro c hq
    rcases hblogs c with h | h
    · rw [h] at hq ⊢
      exact ⟨(hi.live c hq).1, hkeep _ c (hi.live c hq).2⟩
    · rw [h] at hq
      exact absurd rfl hq
  · intro c hf
    rcases hblogs c with h | h
    · rw [h] at hf ⊢
      exact hi.failed c hf
    · rw [h] at hf
      contradiction
  · intro w c hc hcl
    rcases hblogs c with h | h
    · rw [h] at hcl ⊢
      by_cases hw : w = ws
      · rw [hw, hself] at hc
        cases hc
        simp only [openBlog, Function.update_self] at h
        rw [← h] at hcl
        contradiction
      · rw [hother w hw] at hc
        exact hi.closed w c hc hcl
    · rw [h] at hcl
      contradiction
  · intro c r hm
    obtain ⟨hlt', hcl⟩ := hi.queued c r hm
    refine ⟨Nat.lt_succ_of_lt hlt', ?_⟩
    simp only [openBlog, hold hlt']
    exact hcl
  · intro c hw hcl
    rcases hblogs c with h | h
    · rw [h] at hw hcl ⊢
      exact hi.waiting c hw hcl
    · rw [h] at hw
      contradiction
  · intro c ht
    rcases hblogs c with h | h
    · rw [h] at ht ⊢
      exact hi.timer c ht
    · rw [h] at ht
      contradiction
  · intro c e he
    rcases hblogs c with h | h
    · rw [h] at he ⊢
      exact hi.entries c e he
    · rw [h] at he
      exact absurd he List.not_mem_nil
  · intro c
    rcases hblogs c with h | h
    · rw [h]
      exact hi.sorted c
    · rw [h]
      exact List.Pairwise.nil
  · intro d hd hp
    obtain ⟨hknown, hok⟩ := hi.decisions d hd hp
    refine ⟨hknown, ?_⟩
    simp only [openBlog]
    cases hb : (s.decisions d).backlog with
    | none =>
      rw [hb] at hok
      exact hok
    | some c =>
      rw [hb] at hok
      obtain ⟨hws, hlt', hcl, hwait⟩ := hok
      simp only [hold hlt']
      exact ⟨hws, Nat.lt_succ_of_lt hlt', fun h => (hcl h).imp_right (hkeep _ c), hwait⟩
  · intro d hd d' hd' c hp hp' hdc hdc' hcl
    refine hi.single d hd d' hd' c hp hp' hdc hdc' ?_
    have hback : (s.decisions d).backlog = some c := hdc
    obtain ⟨-, hok⟩ := hi.decisions d hd hp
    rw [hback] at hok
    simpa only [openBlog, hold hok.2.1] using hcl
  · intro w hne hw
    rcases hi.refused w hne hw with h | ⟨c, hc, h⟩
    · exact .inl h
    · refine .inr ⟨c, hkeep w c hc, ?_⟩
      have hcs : (s.openBlog ws).blogs c = s.blogs c := hold (hlt w c hc)
      rw [hcs]
      exact h

theorem inv_hold (hi : Inv hole s) (hplain : Plain s.stack) (hclosed : (s.blogs b).closed = false)
    (hreg : s.backlogs f.ws = some b) (hknown : .admitted f.ws f.id ∈ s.log)
    (hhanded : ∀ g, .handed g ∈ s.log → g.ws = f.ws → g.id < f.id)
    (hlast : ∀ e ∈ (s.blogs b).queue, e.frame.id < f.id) : Inv hole (hold s b f) := by
  have hws := (hi.registered f.ws b hreg).2
  have hswap : Swaps s b
      { s.blogs b with
        queue := (s.blogs b).queue ++ [⟨f, false⟩]
        bytes := (s.blogs b).bytes + f.charge
        held := (s.blogs b).held + f.payload.size } s.backlogs :=
    { ws := rfl, registry := fun _ => .inl rfl, closed := id, failed := hi.failed b
      registered := hi.closed _ b
      queue := fun _ => ⟨hclosed, by rw [hws]; exact hreg⟩
      entries := by
        intro e he
        rcases List.mem_append.mp he with he | he
        · exact hi.entries b e he
        · obtain rfl := List.mem_singleton.mp he
          exact ⟨hws.symm, hknown, hhanded, by simp⟩
      sorted := by
        refine List.pairwise_append.mpr ⟨hi.sorted b, List.pairwise_singleton .., ?_⟩
        intro e he e' he'
        obtain rfl := List.mem_singleton.mp he'
        exact hlast e he
      waiting := by simp
      timer := hi.timer b
      pumping := fun h => absurd h hplain.not_pump
      decisions := by
        intro d hd hp hdb
        obtain ⟨-, hok⟩ := hi.decisions d hd hp
        rw [hdb] at hok
        refine ⟨hok.1 ▸ hok.2.2.1, fun h => ⟨(hok.2.2.2 h).1, ?_⟩⟩
        obtain ⟨v, rest, hq⟩ := (hok.2.2.2 h).2.1
        exact ⟨v, rest ++ [⟨f, false⟩], by rw [hq]; rfl⟩
      refused := fun hnone hsome => by
        rw [hnone] at hsome
        contradiction }
  exact inv_swap hi hplain.steady hswap

theorem inv_unregister (hi : Inv none s) (hplain : Plain s.stack) (hreg : s.backlogs ws = some b)
    (hclosed : (s.blogs b).closed = false) (hq : (s.blogs b).queue = []) :
    Inv none (s.unregister ws) := by
  have hws := (hi.registered ws b hreg).2
  have hwaiting : (s.blogs b).waiting = false := by
    cases hw : (s.blogs b).waiting with
    | false => rfl
    | true => exact absurd hq (hi.waiting b hw hclosed)
  have hidle : ∀ d < s.nextDecision, (s.decisions d).phase ≠ .delivered →
      (s.decisions d).backlog ≠ some b := by
    intro d hd hp hdb
    obtain ⟨-, hok⟩ := hi.decisions d hd hp
    rw [hdb] at hok
    have hwait := (hok.2.2.2 hclosed).1
    rw [hwaiting] at hwait
    contradiction
  have hswap : Swaps s b (s.blogs b) (Function.update s.backlogs ws none) :=
    { ws := rfl
      registry := by
        intro w
        by_cases hw : w = ws
        · subst hw
          exact .inr ⟨hws.symm, hreg, by simp⟩
        · exact .inl (by simp [hw])
      closed := id, failed := hi.failed b
      registered := fun h => by
        rw [hws] at h
        simp at h
      queue := absurd hq
      entries := hi.entries b, sorted := hi.sorted b, waiting := hi.waiting b
      timer := hi.timer b
      pumping := fun h => absurd h hplain.not_pump
      decisions := fun d hd hp hdb => absurd hdb (hidle d hd hp)
      refused := by
        intro _ _ hmem
        rcases hi.refused _ (by simp) hmem with h | ⟨c, hc, h⟩
        · exact h
        · rw [hws, hreg] at hc
          cases hc
          rcases h with h | ⟨d, hd, hdb, r, hr⟩
          · rw [hclosed] at h
            contradiction
          · exact absurd hdb (hidle d hd (by simp [hr])) }
  have hinv := inv_swap hi hplain.steady hswap
  rwa [Function.update_eq_self] at hinv

/-! ## the fast path -/

theorem inv_handFast (hi : Inv none s) (hplain : Plain s.stack)
    (hready : s.isOpen f.ws = true → Ahead s.log s.blogs f ∧
      (f.kind = .application → Cleared s.log f) ∧ .refused f.ws ∉ s.log) :
    Inv none (s.push (.hand f none)) := by
  refine inv_push hi hplain.steady ⟨fun c hc => ?_, hready⟩ (fun _ => hplain.calm) fun c hc => ?_
  · contradiction
  · contradiction

theorem not_refused_of_none (hi : Inv none s) (hnone : s.backlogs ws = none)
    (hopen : s.isOpen ws = true) : .refused ws ∉ s.log := by
  intro hmem
  rcases hi.refused ws (by simp) hmem with h | ⟨c, hc, -⟩
  · rw [h] at hopen
    contradiction
  · rw [hnone] at hc
    contradiction

theorem inv_fastGranted {ms : List Message} (hi : Inv none s) (hplain : Plain s.stack)
    (hnone : s.backlogs f.ws = none) (hahead : Ahead s.log s.blogs f)
    (hcleared : Cleared s.log f) : Inv none (fastDecided s f ms (.now .granted)) := by
  have hhand : Inv none (s.push (.hand f none)) :=
    inv_handFast hi hplain fun hopen =>
      ⟨hahead, fun _ => hcleared, not_refused_of_none hi hnone hopen⟩
  unfold fastDecided
  split
  · exact hhand
  · exact hhand

theorem inv_failFresh {r : Reason} (hi : Inv (some ws) s) (hplain : Plain s.stack)
    (hnone : s.backlogs ws = none) : Inv none (fail (s.openBlog ws) s.nextBlog r) := by
  have hopened := inv_openBlog hi hplain hnone
  have hws : ((s.openBlog ws).blogs s.nextBlog).ws = ws := by
    simp [openBlog, Backlog.empty]
  have hreg : (s.openBlog ws).backlogs ws = some s.nextBlog := by simp [openBlog]
  have hplain' : Plain (s.openBlog ws).stack := hplain
  exact (inv_fail (hws.symm ▸ hopened) hplain'.steady (Nat.lt_succ_self _)
    (fun h => absurd h hplain'.not_pump) fun _ => by rw [hws, hreg]).1

theorem inv_fastRefused {ms : List Message} {r : Reason} (hi : Inv (some f.ws) s)
    (hplain : Plain s.stack) (hnone : s.backlogs f.ws = none) :
    Inv none (fastDecided s f ms (.now (.refused r))) := by
  unfold fastDecided
  split
  · rename_i hreleased
    have hopen := hi.released _ hreleased
    have hreport : Inv none (report s f.ws (.refused r) none) :=
      inv_report (inv_fill hi (.inl hopen)) hplain.steady
    have hplain' : Plain (report s f.ws (.refused r) none).stack := by
      rwa [stack_report]
    refine inv_handFast hreport hplain' fun hopen' => ?_
    have hsame : (report s f.ws (.refused r) none).isOpen = s.isOpen := by
      unfold report
      split <;> rfl
    rw [hsame, hopen] at hopen'
    contradiction
  · exact (inv_failFresh hi hplain hnone).other

theorem inv_fastLater {ms : List Message} {next : Nat} (hi : Inv none s) (hplain : Plain s.stack)
    (hnone : s.backlogs f.ws = none) (hahead : Ahead s.log s.blogs f) (hnext : 0 < next)
    (hasked : Asked s.log f ms (next - 1)) : Inv none (fastDecided s f ms (.later next)) := by
  unfold fastDecided
  split
  · rename_i hreleased
    have hopen := hi.released _ hreleased
    have hsettle : Inv none (settleClosed s f ms next) :=
      inv_settleClosed hi hahead.known hopen
    refine inv_handFast hsettle hplain fun hopen' => ?_
    have hclosed : s.isOpen f.ws = true := hopen'
    rw [hopen] at hclosed
    contradiction
  · have hopened := inv_openBlog hi hplain hnone
    have hblog : (s.openBlog f.ws).blogs s.nextBlog = .empty f.ws := by simp [openBlog]
    have hreg : (s.openBlog f.ws).backlogs f.ws = some s.nextBlog := by simp [openBlog]
    have hplain' : Plain (s.openBlog f.ws).stack := hplain
    have hheld := inv_hold hopened hplain' (by rw [hblog]; rfl) hreg hahead.known hahead.handed
      (by rw [hblog]; simp [Backlog.empty])
    have hblog' : (hold (s.openBlog f.ws) s.nextBlog f).blogs s.nextBlog =
        { Backlog.empty f.ws with
          queue := [⟨f, false⟩], bytes := 0 + f.charge, held := 0 + f.payload.size } := by
      simp [hold, State.modBlog, hblog, Backlog.empty]
    have hwait := inv_wait hheld hplain'.steady hplain'.not_pump (Nat.lt_succ_self _)
      (by rw [hblog']; rfl) (by rw [hblog']) (by rw [hblog']; rfl) hahead.known hnext hasked
    exact hwait.other

/-! ## admission -/

/-- A numbered frame comes after everything handed on or held. -/
structure Last (s : State) (f : Frame) : Prop where
  known : .admitted f.ws f.id ∈ s.log
  handed : ∀ g, .handed g ∈ s.log → g.id < f.id
  held : ∀ b, ∀ e ∈ (s.blogs b).queue, e.frame.id < f.id

theorem last_number (kind : Kind) (ws : Socket) (p : Payload) (topic : Option JsString)
    (hi : Inv hole s) : Last (s.number kind ws p topic).1 (s.number kind ws p topic).2 where
  known := List.mem_cons_self ..
  handed := by
    intro g hg
    rcases List.mem_cons.mp hg with hg | hg
    · contradiction
    · exact hi.admitted g.ws g.id (hi.handed g hg)
  held := fun b e he => hi.admitted e.frame.ws e.frame.id (hi.entries b e he).known

theorem Last.ahead (h : Last s f) (hi : Inv hole s) (hnone : s.backlogs f.ws = none) :
    Ahead s.log s.blogs f where
  known := h.known
  handed := fun g hg _ => h.handed g hg
  held := by
    intro b e he hws
    have hreg := (hi.live b (List.ne_nil_of_mem he)).2
    rw [← (hi.entries b e he).ws, hws, hnone] at hreg
    contradiction

theorem inv_enqueue {o : Options} (hi : Inv none s) (hplain : Plain s.stack) (hlast : Last s f)
    (hreg : s.backlogs f.ws = some b) (hclosed : (s.blogs b).closed = false) :
    Inv none (enqueue o s b f) := by
  unfold enqueue
  split
  · exact hi.other
  split
  · have hdrop : Inv none (if (s.blogs b).queue.isEmpty then s.unregister f.ws else s) := by
      split
      · rename_i hempty
        exact inv_unregister hi hplain hreg hclosed (List.isEmpty_iff.mp hempty)
      · exact hi
    have hplain' : Plain (if (s.blogs b).queue.isEmpty then s.unregister f.ws else s).stack := by
      split
      · exact hplain
      · exact hplain
    have hdropped := inv_quiet (e := .dropped f.ws f.payload.size) hdrop hplain'.steady rfl
    simp only
    split
    · exact (inv_defer hdropped fun c r h => by contradiction).other
    · exact hdropped.other
  · have hheld := inv_hold hi hplain hclosed hreg hlast.known
      (fun g hg _ => hlast.handed g hg) (hlast.held b)
    exact hheld.other

theorem inv_nativeSend {kind : Kind} {p : Payload} {topic : Option JsString} (hi : Inv none s)
    (hsteady : Steady s) (hopen : s.isOpen ws = false) :
    Inv none (nativeSend s kind ws p topic) := by
  have hnumber := inv_number kind ws p topic hi hsteady
  exact inv_pushPlain hnumber hsteady hopen rfl rfl

/-- **Admission** keeps the invariant. -/
theorem inv_admission {o : Options} {kind : Kind} {p : Payload} {topic : Option JsString}
    (hi : Inv none s) (hplain : Plain s.stack) : Inv none (admission o s kind ws p topic) := by
  have hnumber := inv_number kind ws p topic hi hplain.steady
  have hlast := last_number kind ws p topic hi
  unfold admission
  have hframe : (s.number kind ws p topic).2 = ⟨s.nextFrame, ws, kind, p, topic⟩ := rfl
  have hplain' : Plain (s.number kind ws p topic).1.stack := hplain
  revert hnumber hlast hplain' hframe
  rcases s.number kind ws p topic with ⟨s', f⟩
  simp only
  rintro hi' hlast rfl hplain'
  split
  · rename_i hreleased
    have hopen := hi'.released _ hreleased
    refine inv_handFast hi' hplain' fun hopen' => ?_
    rw [hopen] at hopen'
    contradiction
  · cases hb : s'.backlogs ws with
    | none =>
      have hahead := hlast.ahead hi' hb
      simp only
      split
      · rename_i hcontrol
        refine inv_handFast hi' hplain' fun hopen => ⟨hahead, fun h => ?_,
          not_refused_of_none hi' hb hopen⟩
        rw [hcontrol] at h
        contradiction
      · split
        · exact hi'.other
        split
        · cases hms : describe p topic with
          | none =>
            exact inv_fastRefused (inv_refuse ws hi' hplain'.steady) hplain' hb
          | some ms =>
            rename_i happ _ _
            have hkind : kind = .application := by
              cases kind with
              | application => rfl
              | control => exact absurd rfl happ
            simp only [decide]
            split
            · refine inv_push hi' hplain'.steady ?_ (fun _ => hplain'.calm) fun c hc => ?_
              · exact ⟨rfl, hkind, hb, hahead, hms, fun k m hk => absurd hk (Nat.not_lt_zero k)⟩
              · contradiction
            · refine inv_fastGranted hi' hplain' hb hahead ⟨ms, hms, fun i m hm => ?_⟩
              have hlt := (List.getElem?_eq_some_iff.mp hm).1
              omega
        · have hopened := inv_openBlog hi' hplain' hb
          have hblog : (s'.openBlog ws).blogs s'.nextBlog = .empty ws := by
            simp [openBlog]
          refine inv_enqueue hopened hplain' ⟨hlast.known, hlast.handed, ?_⟩
            (by simp [openBlog]) (by rw [hblog]; rfl)
          intro c e he
          by_cases hc : c = s'.nextBlog
          · rw [hc, hblog] at he
            exact absurd he List.not_mem_nil
          · simp only [openBlog, Function.update_of_ne hc] at he
            exact hlast.held c e he
    | some b =>
      simp only
      split
      · exact hi'.other
      · rename_i hlive
        simp only [not_or, Bool.not_eq_true] at hlive
        exact inv_enqueue hi' hplain' hlast hb hlive.1

end Admit

end BunServe.Delivery
