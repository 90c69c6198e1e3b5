import BunServe.Delivery
import Mathlib.Data.List.Basic

/-!
# BunServe.Delivery.Invariant

The invariant of the delivery boundary.

Its ordering part says where a frame can be: handed on, held in the live
backlog of its socket, or in front of both (`Ahead`) while the policy decides
it on the fast path.  Its mediation part says which messages of a frame the
policy has approved since the transport was last full (`Approved`), wherever
the decision is being kept: an entry, a policy call, a pending decision.

Reentrancy is confined by the shape of the stack (`Disciplined`): a call that
admits frames or opens backlogs never runs above a policy call, since inside
one every operation but a drain is deferred.
-/

namespace BunServe.Delivery

open Function (update update_apply update_of_ne update_self)
open List (mem_cons_of_mem)
open State (emit modDecision)

/-! ## the log -/

/-- The policy answered true for message `i` of a frame, after the transport
was last full for it. -/
def Approved (id i : Nat) (m : Message) : List Event → Prop
  | [] => False
  | .answered id' i' m' :: log => (id' = id ∧ i' = i ∧ m' = m) ∨ Approved id i m log
  | .full id' :: log => id' ≠ id ∧ Approved id i m log
  | _ :: log => Approved id i m log

/-- Every message of the frame is approved. -/
def Cleared (log : List Event) (f : Frame) : Prop :=
  ∃ ms, describe f.payload f.topic = some ms ∧ ∀ i m, ms[i]? = some m → Approved f.id i m log

/-- Complete mediation: an application frame was approved when it was handed
on, and no frame was after a decision for its socket failed. -/
def Mediated : List Event → Prop
  | [] => True
  | .handed f :: log =>
    (f.kind = .application → Cleared log f) ∧ .refused f.ws ∉ log ∧ Mediated log
  | _ :: log => Mediated log

def handedFrames (log : List Event) : List Frame := log.filterMap fun
  | .handed f => some f
  | _ => none

variable {log : List Event}

theorem mem_handedFrames {f : Frame} : f ∈ handedFrames log ↔ .handed f ∈ log := by
  simp only [handedFrames, List.mem_filterMap]
  constructor
  · intro h
    obtain ⟨e, he, h⟩ := h
    cases e <;> simp_all
  · intro h
    exact ⟨_, h, rfl⟩

/-- The numbers under which frames were admitted, newest first. -/
def admittedIds (log : List Event) : List Nat := log.filterMap fun
  | .admitted _ id => some id
  | _ => none

theorem mem_admittedIds {id : Nat} : id ∈ admittedIds log ↔ ∃ ws, .admitted ws id ∈ log := by
  simp only [admittedIds, List.mem_filterMap]
  constructor
  · rintro ⟨e, he, h⟩
    cases e with
    | admitted ws id' =>
      cases h
      exact ⟨ws, he⟩
    | _ => contradiction
  · rintro ⟨ws, h⟩
    exact ⟨_, h, rfl⟩

/-- An event that neither hands on, admits nor refuses, nor finds the transport
full. -/
def Event.quiet : Event → Bool
  | .answered .. | .reported .. | .ended .. | .dropped .. => true
  | _ => false

variable {i : Nat}

theorem Approved.cons {id : Nat} {m : Message} {e : Event}
    (h : Approved id i m log) (he : ∀ id', e = .full id' → id' ≠ id) :
    Approved id i m (e :: log) := by
  cases e <;> grind [Approved]

theorem Cleared.cons {f : Frame} {e : Event} (h : Cleared log f)
    (he : ∀ id', e = .full id' → id' ≠ f.id) : Cleared (e :: log) f := by
  obtain ⟨ms, hms, hall⟩ := h
  exact ⟨ms, hms, fun i m hm => (hall i m hm).cons he⟩

/-! ## the stack -/

/-- The backlog that a call drains. -/
def Task.pump? : Task → Option Nat
  | .policy _ _ _ (.pump b _) => some b
  | .hand _ b => b
  | .pumping b => some b
  | _ => none

/-- The backlogs being drained. -/
def pumps (stack : List Task) : List Nat := stack.filterMap Task.pump?

/-- A call that runs no other code before it returns. -/
def Task.transient : Task → Bool
  | .hand .. => true
  | .native _ => true
  | .pumping _ => true
  | _ => false

def Task.isPolicy : Task → Bool
  | .policy .. => true
  | _ => false

/-- A call that runs inside no policy call. -/
def Task.calm : Task → Bool
  | .policy _ _ _ (.pump ..) => false
  | .policy .. => true
  | .hand _ none => true
  | .walk .. => true
  | .jobs _ => true
  | .flush => true
  | .operation _ => true
  | _ => false

/-- Only the innermost call is transient, and calm calls are inside no policy
call. -/
def Disciplined : List Task → Prop
  | [] => True
  | t :: rest =>
    (∀ u ∈ rest, u.transient = false) ∧
      (t.calm = true → ∀ u ∈ rest, u.isPolicy = false) ∧ Disciplined rest

def Plain (stack : List Task) : Prop := ∀ u ∈ stack, u.transient = false ∧ u.isPolicy = false

theorem pumps_eq_nil {stack : List Task} (h : Plain stack) : pumps stack = [] := by
  rw [pumps, List.filterMap_eq_nil_iff]
  intro t ht
  have := h t ht
  cases t <;> simp_all [Task.transient, Task.isPolicy, Task.pump?]

/-! ## the invariant -/

/-- The frame is in front of its socket: later than what was handed on, earlier
than what is held. -/
structure Ahead (log : List Event) (blogs : Nat → Backlog) (f : Frame) : Prop where
  known : .admitted f.ws f.id ∈ log
  handed : ∀ g, .handed g ∈ log → g.ws = f.ws → g.id < f.id
  held : ∀ b, ∀ e ∈ (blogs b).queue, e.frame.ws = f.ws → f.id < e.frame.id

/-- The first `i` messages of the frame are approved. -/
def Asked (log : List Event) (f : Frame) (ms : List Message) (i : Nat) : Prop :=
  describe f.payload f.topic = some ms ∧
    ∀ k m, k < i → ms[k]? = some m → Approved f.id k m log

/-- What a call on the stack relies on. -/
def TaskOk (s : State) : Task → Prop
  | .policy ws ms i (.fast f) =>
    f.ws = ws ∧ f.kind = .application ∧ s.backlogs ws = none ∧ Ahead s.log s.blogs f ∧ Asked s.log f ms i
  | .policy ws ms i (.pump b f) =>
    (s.blogs b).ws = ws ∧ f.ws = ws ∧ .admitted f.ws f.id ∈ s.log ∧
      ((s.blogs b).closed = false →
        (∃ v rest, (s.blogs b).queue = ⟨f, v⟩ :: rest) ∧ Asked s.log f ms i)
  | .policy ws ms i (.settle d) =>
    d < s.nextDecision ∧ (s.decisions d).phase = .running ∧ (s.decisions d).frame.ws = ws ∧
      (s.decisions d).messages = ms ∧ ∀ b, (s.decisions d).backlog = some b → (s.blogs b).closed = false →
        Asked s.log (s.decisions d).frame ms i
  | .hand f b =>
    (∀ c, b = some c → (s.blogs c).ws = f.ws) ∧
      (s.isOpen f.ws = true → Ahead s.log s.blogs f ∧
        (f.kind = .application → Cleared s.log f) ∧ .refused f.ws ∉ s.log)
  | .native f => s.isOpen f.ws = false
  | .pumping b => (s.blogs b).closed = false
  | .jobs js => ∀ b r, .endRefused b r ∈ js → b < s.nextBlog ∧ (s.blogs b).closed = true
  | _ => True

/-- How far a decision that a live backlog waits for has come. -/
def PhaseOk (log : List Event) (dec : Decision) : Prop :=
  match dec.phase with
  | .awaiting next => 0 < next ∧ Asked log dec.frame dec.messages (next - 1)
  | .running => True
  | .done .granted => Cleared log dec.frame
  | .done (.refused _) => True
  | .delivered => True

/-- A pending decision: its socket has closed, its backlog is closed, or its
backlog waits for it with the frame at the head. -/
def DecisionOk (s : State) (dec : Decision) : Prop :=
  .admitted dec.frame.ws dec.frame.id ∈ s.log ∧ match dec.backlog with
  | none => s.isOpen dec.frame.ws = false
  | some b =>
    (s.blogs b).ws = dec.frame.ws ∧ b < s.nextBlog ∧
      ((s.blogs b).closed = true →
        s.isOpen dec.frame.ws = false ∨ s.backlogs dec.frame.ws = some b) ∧
      ((s.blogs b).closed = false → (s.blogs b).waiting = true ∧
        (∃ v rest, (s.blogs b).queue = ⟨dec.frame, v⟩ :: rest) ∧ PhaseOk s.log dec)

/-- No frame of the socket gets through any more. -/
def Blocked (s : State) (ws : Socket) : Prop :=
  s.isOpen ws = false ∨ ∃ b, s.backlogs ws = some b ∧
    ((s.blogs b).closed = true ∨ ∃ d < s.nextDecision, (s.decisions d).backlog = some b ∧
      ∃ r, (s.decisions d).phase = .done (.refused r))

/-- What a held entry relies on. -/
structure EntryOk (log : List Event) (ws : Socket) (e : Entry) : Prop where
  ws : e.frame.ws = ws
  known : .admitted e.frame.ws e.frame.id ∈ log
  handed : ∀ g, .handed g ∈ log → g.ws = e.frame.ws → g.id < e.frame.id
  verdict : e.verdict = true → Cleared log e.frame

/-- What the drain of a backlog relies on. -/
structure PumpOk (s : State) (b : Nat) : Prop where
  lt : b < s.nextBlog
  pumping : (s.blogs b).pumping = true
  waiting : (s.blogs b).waiting = false
  live : (s.blogs b).closed = false → s.backlogs (s.blogs b).ws = some b
  shut : (s.blogs b).closed = true → s.isOpen (s.blogs b).ws = false

/-- The invariant; a refusal for the socket `hole` may not have taken effect
yet. -/
structure Inv (hole : Option Socket) (s : State) : Prop where
  discipline : Disciplined s.stack
  tasks : ∀ t ∈ s.stack, TaskOk s t
  nodup : (pumps s.stack).Nodup
  pumps : ∀ b ∈ pumps s.stack, PumpOk s b
  registered : ∀ ws b, s.backlogs ws = some b → b < s.nextBlog ∧ (s.blogs b).ws = ws
  live : ∀ b, (s.blogs b).queue ≠ [] →
    (s.blogs b).closed = false ∧ s.backlogs (s.blogs b).ws = some b
  failed : ∀ b, (s.blogs b).failed = true → (s.blogs b).closed = true
  closed : ∀ ws b, s.backlogs ws = some b → (s.blogs b).closed = true → (s.blogs b).failed = true
  released : ∀ ws, s.released ws = true → s.isOpen ws = false
  queued : ∀ b r, .endRefused b r ∈ s.queued → b < s.nextBlog ∧ (s.blogs b).closed = true
  waiting : ∀ b, (s.blogs b).waiting = true → (s.blogs b).closed = false → (s.blogs b).queue ≠ []
  timer : ∀ b, (s.blogs b).timer = true →
    (s.blogs b).waiting = true ∧ (s.blogs b).closed = false
  entries : ∀ b, ∀ e ∈ (s.blogs b).queue, EntryOk s.log (s.blogs b).ws e
  sorted : ∀ b, (s.blogs b).queue.Pairwise fun e e' => e.frame.id < e'.frame.id
  admitted : ∀ ws id, .admitted ws id ∈ s.log → id < s.nextFrame
  unique : ∀ ws ws' id, .admitted ws id ∈ s.log → .admitted ws' id ∈ s.log → ws = ws'
  numbered : (admittedIds s.log).Pairwise fun newer older => older < newer
  handed : ∀ f, .handed f ∈ s.log → .admitted f.ws f.id ∈ s.log
  ordered : (handedFrames s.log).Pairwise fun newer older =>
    newer.ws = older.ws → older.id < newer.id
  mediated : Mediated s.log
  decisions : ∀ d < s.nextDecision, (s.decisions d).phase ≠ .delivered →
    DecisionOk s (s.decisions d)
  single : ∀ d < s.nextDecision, ∀ d' < s.nextDecision, ∀ b,
    (s.decisions d).phase ≠ .delivered → (s.decisions d').phase ≠ .delivered →
      (s.decisions d).backlog = some b → (s.decisions d').backlog = some b →
        (s.blogs b).closed = false → d = d'
  refused : ∀ ws, hole ≠ some ws → .refused ws ∈ s.log → Blocked s ws

theorem inv_init : Inv none State.init := by
  constructor <;>
    simp [State.init, Disciplined, pumps, handedFrames, admittedIds, Mediated, Backlog.empty]

theorem Inv.other {hole : Option Socket} {s : State} (hi : Inv hole s)
    {buffered : Socket → Nat} {subscribed : Socket → JsString → Bool} {endings : Nat}
    {returned : Option Nat} :
    Inv hole { s with
      buffered := buffered, subscribed := subscribed, endings := endings
      returned := returned } := by
  refine { hi with tasks := ?_, pumps := fun b hb => { hi.pumps b hb with } }
  intro t ht
  have := hi.tasks t ht
  cases t <;> exact this

/-! ## the stack under the invariant -/

section Stack

variable {hole : Option Socket} {s : State} {t : Task} {rest : List Task}

/-- No call is transient: the boundary's own code has just returned from the
innermost one. -/
def Steady (s : State) : Prop := ∀ t ∈ s.stack, t.transient = false

theorem inv_pop (hi : Inv hole s) (hs : s.stack = t :: rest) :
    Inv hole { s with stack := rest } ∧ Steady { s with stack := rest } := by
  have hd := hs ▸ hi.discipline
  have htasks := hs ▸ hi.tasks
  have hnodup := hs ▸ hi.nodup
  have hpumps := hs ▸ hi.pumps
  have hsub : ∀ b ∈ pumps rest, b ∈ pumps (t :: rest) := by
    intro b hb
    simp only [pumps, List.filterMap_cons] at hb ⊢
    split <;> simp_all
  refine ⟨{ hi with
    discipline := hd.2.2
    tasks := ?_
    nodup := ?_
    pumps := ?_ }, hd.1⟩
  · intro u hu
    have := htasks u (mem_cons_of_mem _ hu)
    cases u <;> exact this
  · simp only [pumps, List.filterMap_cons] at hnodup
    split at hnodup
    · exact hnodup
    · exact (List.nodup_cons.mp hnodup).2
  · intro b hb
    have := hpumps b (hsub b hb)
    exact { this with }

theorem inv_push (hi : Inv hole s) (hsteady : Steady s) (ht : TaskOk s t)
    (hcalm : t.calm = true → ∀ u ∈ s.stack, u.isPolicy = false)
    (hpump : ∀ b, t.pump? = some b → b ∉ pumps s.stack ∧ PumpOk s b) : Inv hole (s.push t) := by
  refine { hi with discipline := ⟨hsteady, hcalm, hi.discipline⟩, tasks := ?_, nodup := ?_,
                   pumps := ?_ }
  · intro u hu
    rcases List.mem_cons.mp hu with rfl | hu
    · cases u <;> exact ht
    · have := hi.tasks u hu
      cases u <;> exact this
  · change (pumps (t :: s.stack)).Nodup
    simp only [pumps, List.filterMap_cons]
    split
    · exact hi.nodup
    · next b hb => exact List.nodup_cons.mpr ⟨(hpump b hb).1, hi.nodup⟩
  · intro b hb
    change b ∈ pumps (t :: s.stack) at hb
    simp only [pumps, List.filterMap_cons] at hb
    split at hb
    · exact { hi.pumps b hb with }
    · next c hc =>
      rcases List.mem_cons.mp hb with rfl | hb
      · exact { (hpump b hc).2 with }
      · exact { hi.pumps b hb with }

end Stack

/-! ## the sockets -/

section Sockets

variable {hole : Option Socket} {s : State} {ws : Socket}

theorem inv_close (hi : Inv hole s) : Inv hole { s with isOpen := update s.isOpen ws false } := by
  have hmono : ∀ w, update s.isOpen ws false w = true → s.isOpen w = true := by
    intro w hw
    by_cases h : w = ws
    · subst h; simp at hw
    · simpa [h] using hw
  have hkeep : ∀ w, s.isOpen w = false → update s.isOpen ws false w = false := by
    intro w hw
    by_contra hn
    simp [hmono w (by simpa using hn)] at hw
  refine { hi with tasks := ?_, pumps := ?_, released := ?_, decisions := ?_, refused := ?_ }
  · intro t ht
    have := hi.tasks t ht
    cases t with
    | hand f b => exact ⟨this.1, fun h => this.2 (hmono _ h)⟩
    | native f => exact hkeep _ this
    | policy w ms i asker => cases asker <;> exact this
    | jobs js | pumping b => exact this
    | _ => trivial
  · intro b hb
    exact { hi.pumps b hb with shut := fun h => hkeep _ ((hi.pumps b hb).shut h) }
  · intro w hw
    exact hkeep w (hi.released w hw)
  · intro d hd hp
    have := hi.decisions d hd hp
    grind [DecisionOk, PhaseOk]
  · intro w hne hw
    grind [Blocked, hi.refused w hne hw]

end Sockets

/-! ## the backlogs -/

section Backlogs

variable {hole : Option Socket} {s : State} {b : Nat}

theorem tasks_of_policies (s' : State) (hi : Inv hole s) (hsteady : Steady s)
    (hstack : s'.stack = s.stack) (hclosed : ∀ b, b < s.nextBlog ∧ (s.blogs b).closed = true →
      b < s'.nextBlog ∧ (s'.blogs b).closed = true)
    (hpolicy : ∀ ws ms i asker, .policy ws ms i asker ∈ s.stack →
      TaskOk s (.policy ws ms i asker) → TaskOk s' (.policy ws ms i asker)) :
    ∀ t ∈ s'.stack, TaskOk s' t := by
  intro t ht
  rw [hstack] at ht
  have htransient := hsteady t ht
  cases t with
  | policy ws ms i asker => exact hpolicy ws ms i asker ht (hi.tasks _ ht)
  | hand f c | native f | pumping c => contradiction
  | jobs js => exact fun b r h => hclosed b (hi.tasks _ ht b r h)
  | _ => trivial

/-- The policy call that drains `b` is one of the drains of `b`. -/
theorem mem_pumps {ws : Socket} {ms : List Message} {f : Frame}
    (h : .policy ws ms i (.pump b f) ∈ s.stack) : b ∈ pumps s.stack :=
  List.mem_filterMap.mpr ⟨_, h, rfl⟩

/-- What a change of the backlog `b`, with the registry left as `bl`, must keep:
`b` may close and be unregistered, and its queue may change while it is live. -/
structure Swaps (s : State) (b : Nat) (blog : Backlog) (bl : Socket → Option Nat) : Prop where
  ws : blog.ws = (s.blogs b).ws
  registry : ∀ w, bl w = s.backlogs w ∨ w = blog.ws ∧ s.backlogs w = some b ∧ bl w = none
  closed : (s.blogs b).closed = true → blog.closed = true
  failed : blog.failed = true → blog.closed = true
  registered : bl blog.ws = some b → blog.closed = true → blog.failed = true
  queue : blog.queue ≠ [] → blog.closed = false ∧ bl blog.ws = some b
  entries : ∀ e ∈ blog.queue, EntryOk s.log blog.ws e
  sorted : blog.queue.Pairwise fun e e' => e.frame.id < e'.frame.id
  waiting : blog.waiting = true → blog.closed = false → blog.queue ≠ []
  timer : blog.timer = true → blog.waiting = true ∧ blog.closed = false
  pumping : b ∈ pumps s.stack → blog.pumping = true ∧ blog.waiting = false ∧
    (blog.closed = false → bl blog.ws = some b ∧ blog.queue = (s.blogs b).queue) ∧
      (blog.closed = true → s.isOpen blog.ws = false)
  decisions : ∀ d < s.nextDecision, (s.decisions d).phase ≠ .delivered →
    (s.decisions d).backlog = some b →
      (blog.closed = true → s.isOpen blog.ws = false ∨ bl blog.ws = some b) ∧
        (blog.closed = false → blog.waiting = true ∧
          ∃ v rest, blog.queue = ⟨(s.decisions d).frame, v⟩ :: rest)
  refused : bl blog.ws = none → s.backlogs blog.ws = some b → .refused blog.ws ∈ s.log →
    s.isOpen blog.ws = false

/-- **Frame rule for backlogs**. -/
theorem inv_swap {blog : Backlog} {bl : Socket → Option Nat} (hi : Inv hole s) (hsteady : Steady s)
    (h : Swaps s b blog bl) :
    Inv hole { s with blogs := update s.blogs b blog, backlogs := bl } := by
  have hreg : ∀ w c, bl w = some c → s.backlogs w = some c := by
    intro w c hw
    have := h.registry w
    grind
  have hclosed : ∀ c, (s.blogs c).closed = true →
      (update s.blogs b blog c).closed = true := by
    have := h.closed
    grind
  refine { hi with tasks := ?_, pumps := ?_, registered := ?_, live := ?_, failed := ?_,
                   closed := ?_,
                   queued := fun c r hm => ⟨(hi.queued c r hm).1, hclosed c (hi.queued c r hm).2⟩,
                   waiting := ?_, timer := ?_, entries := ?_, sorted := ?_, decisions := ?_,
                   single := ?_, refused := ?_ }
  · refine tasks_of_policies _ hi hsteady rfl (fun c hc => ⟨hc.1, hclosed c hc.2⟩)
      fun ws ms i asker ht htask => ?_
    cases asker with
    | fast f =>
      obtain ⟨hws, hkind, hnone, hahead, hasked⟩ := htask
      have hnone' : bl ws = none := by
        have := h.registry ws
        grind
      refine ⟨hws, hkind, hnone', ⟨hahead.known, hahead.handed, fun c e he hf => ?_⟩, hasked⟩
      by_cases hc : c = b
      · subst hc
        simp only [update_self] at he
        have hlive := (h.queue (List.ne_nil_of_mem he)).2
        have := (h.entries e he).ws
        grind
      · simp only [update_of_ne hc] at he
        exact hahead.held c e he hf
    | pump c f =>
      obtain ⟨hws, hf, hhead⟩ := htask
      by_cases hc : c = b
      · subst hc
        have := h.pumping (mem_pumps ht)
        have := h.ws
        simp only [TaskOk]
        grind
      · simpa only [TaskOk, update_of_ne hc] using ⟨hws, hf, hhead⟩
    | settle d =>
      simp only [TaskOk] at htask ⊢
      grind
  · intro c hc
    have hold := hi.pumps c hc
    by_cases hcb : c = b
    · subst hcb
      have := h.pumping hc
      constructor <;> simp only [update_self]
      · exact hold.lt
      · exact this.1
      · exact this.2.1
      · exact fun hcl => (this.2.2.1 hcl).1
      · exact this.2.2.2
    · have hregc := h.registry (s.blogs c).ws
      constructor <;> simp only [update_of_ne hcb]
      · exact hold.lt
      · exact hold.pumping
      · exact hold.waiting
      · have := hold.live
        grind
      · have := hold.shut
        grind
  all_goals simp only [DecisionOk, update_apply]
  · have := hi.registered
    have := h.ws
    grind
  · intro c hq
    have hl := hi.live c
    have := h.queue
    have hregc := h.registry (s.blogs c).ws
    grind
  · have := hi.failed
    have := h.failed
    grind
  · have := hi.closed
    have := hi.registered
    have := h.registered
    have := h.ws
    grind
  · have := hi.waiting
    have := h.waiting
    grind
  · have := hi.timer
    have := h.timer
    grind
  · have := hi.entries
    have := h.entries
    grind
  · have := hi.sorted
    have := h.sorted
    grind
  · intro d hd hp
    obtain ⟨hknown, hold⟩ := hi.decisions d hd hp
    refine ⟨hknown, ?_⟩
    cases hb : (s.decisions d).backlog with
    | none =>
      rw [hb] at hold
      exact hold
    | some c =>
      rw [hb] at hold
      obtain ⟨hws, hlt, hcl, hwait⟩ := hold
      by_cases hcb : c = b
      · subst hcb
        obtain ⟨hcl', hwait'⟩ := h.decisions d hd hp hb
        rw [h.ws, hws] at hcl'
        simp only [if_true]
        refine ⟨h.ws.trans hws, hlt, hcl', fun hopen => ⟨(hwait' hopen).1, (hwait' hopen).2, ?_⟩⟩
        cases hold : (s.blogs c).closed with
        | false => exact (hwait hold).2.2
        | true =>
          rw [h.closed hold] at hopen
          contradiction
      · simp only [hcb]
        have := h.registry (s.decisions d).frame.ws
        grind
  · have := hi.single
    grind
  · intro w hne hw
    have hold := hi.refused w hne hw
    have := h.refused
    have hregw := h.registry w
    grind [Blocked]

end Backlogs

/-! ## the events -/

section Events

variable {hole : Option Socket} {s : State} {e : Event} {f : Frame} {b : Nat}

theorem handedFrames_cons (he : ∀ f, e ≠ .handed f) :
    handedFrames (e :: s.log) = handedFrames s.log := by
  cases e <;> simp_all [handedFrames]

theorem Asked.cons {ms : List Message} (h : Asked log f ms i)
    (he : ∀ id, e = .full id → id ≠ f.id) : Asked (e :: log) f ms i :=
  ⟨h.1, fun k m hk hm => (h.2 k m hk hm).cons he⟩

theorem Ahead.cons {blogs : Nat → Backlog} (h : Ahead log blogs f)
    (he : ∀ g, e = .handed g → g.ws = f.ws → g.id < f.id) : Ahead (e :: log) blogs f := by
  refine ⟨mem_cons_of_mem _ h.known, fun g hg hws => ?_, h.held⟩
  rcases List.mem_cons.mp hg with hg | hg
  · exact he g hg.symm hws
  · exact h.handed g hg hws

theorem PhaseOk.cons {dec : Decision} (h : PhaseOk log dec)
    (he : ∀ id, e = .full id → id ≠ dec.frame.id) : PhaseOk (e :: log) dec := by
  unfold PhaseOk at h ⊢
  cases hp : dec.phase with
  | awaiting next =>
    rw [hp] at h
    exact ⟨h.1, h.2.cons he⟩
  | done o =>
    rw [hp] at h
    cases o with
    | granted => exact Cleared.cons h he
    | refused r => trivial
  | _ => trivial

/-- **Frame rule for the log**: an event that hands nothing on, admits under a
fresh number only, and finds the transport full only for a frame that nothing
relies on. -/
theorem inv_emit (hi : Inv hole s) (hadmitted : ∀ ws id, e = .admitted ws id →
      id < s.nextFrame ∧ ∀ w id', .admitted w id' ∈ s.log → id' < id) (hhanded : ∀ f, e ≠ .handed f)
    (htasks : ∀ t ∈ s.stack, TaskOk (s.emit e) t)
    (hentries : ∀ b, ∀ en ∈ (s.blogs b).queue, en.verdict = true →
      ∀ id, e = .full id → id ≠ en.frame.id)
    (hdecisions : ∀ d < s.nextDecision, (s.decisions d).phase ≠ .delivered →
      (∃ b, (s.decisions d).backlog = some b ∧ (s.blogs b).closed = false) →
        ∀ id, e = .full id → id ≠ (s.decisions d).frame.id)
    (hrefused : ∀ ws, e = .refused ws → hole = some ws) : Inv hole (s.emit e) := by
  refine { hi with tasks := htasks, pumps := ?_, entries := ?_,
                   admitted := ?_, unique := ?_, numbered := ?_, handed := ?_, ordered := ?_,
                   mediated := ?_, decisions := ?_, refused := ?_ }
  · intro c hc
    exact { hi.pumps c hc with }
  · intro c en hen
    have hok := hi.entries c en hen
    refine ⟨hok.ws, mem_cons_of_mem _ hok.known, fun g hg hws => ?_, fun hv => ?_⟩
    · rcases List.mem_cons.mp hg with hg | hg
      · exact absurd hg.symm (hhanded g)
      · exact hok.handed g hg hws
    · exact (hok.verdict hv).cons (hentries c en hen hv)
  · intro ws id h
    rcases List.mem_cons.mp h with h | h
    · exact (hadmitted ws id h.symm).1
    · exact hi.admitted ws id h
  · intro ws ws' id h h'
    rcases List.mem_cons.mp h with h | h
    · rcases List.mem_cons.mp h' with h' | h'
      · exact (Event.admitted.inj (h.trans h'.symm)).1
      · exact absurd ((hadmitted ws id h.symm).2 ws' id h') (Nat.lt_irrefl id)
    · rcases List.mem_cons.mp h' with h' | h'
      · exact absurd ((hadmitted ws' id h'.symm).2 ws id h) (Nat.lt_irrefl id)
      · exact hi.unique ws ws' id h h'
  · cases e with
    | admitted ws id =>
      refine List.pairwise_cons.mpr ⟨fun id' h => ?_, hi.numbered⟩
      obtain ⟨w, hw⟩ := mem_admittedIds.mp h
      exact (hadmitted ws id rfl).2 w id' hw
    | _ => exact hi.numbered
  · intro g hg
    rcases List.mem_cons.mp hg with hg | hg
    · exact absurd hg.symm (hhanded g)
    · exact mem_cons_of_mem _ (hi.handed g hg)
  · change (handedFrames (e :: s.log)).Pairwise _
    rw [handedFrames_cons hhanded]
    exact hi.ordered
  · have := hi.mediated
    cases e with
    | handed g => exact absurd rfl (hhanded g)
    | _ => exact this
  · intro d hd hp
    obtain ⟨hknown, hok⟩ := hi.decisions d hd hp
    refine ⟨mem_cons_of_mem _ hknown, ?_⟩
    have hfull := hdecisions d hd hp
    change (match (s.decisions d).backlog with
      | none => s.isOpen (s.decisions d).frame.ws = false
      | some b => _ ∧ _ ∧ (_ → _) ∧
        ((s.blogs b).closed = false → (s.blogs b).waiting = true ∧ _ ∧ PhaseOk (e :: s.log) _))
    cases hb : (s.decisions d).backlog with
    | none =>
      rw [hb] at hok
      exact hok
    | some c =>
      rw [hb] at hok hfull
      obtain ⟨hws, hlt, hcl, hwait⟩ := hok
      exact ⟨hws, hlt, hcl, fun hopen =>
        ⟨(hwait hopen).1, (hwait hopen).2.1, (hwait hopen).2.2.cons (hfull ⟨c, rfl, hopen⟩)⟩⟩
  · intro ws hne h
    rcases List.mem_cons.mp h with h | h
    · exact absurd (hrefused ws h.symm) hne
    · exact hi.refused ws hne h

/-- What a policy call relies on survives an event that hands nothing of its
socket on and does not find the transport full for its frame. -/
theorem taskOk_policy_emit {ws : Socket} {ms : List Message} {asker : Asker}
    (h : TaskOk s (.policy ws ms i asker))
    (hhanded : ∀ f g, asker = .fast f → e = .handed g → g.ws ≠ f.ws) (hfull : ∀ id, e = .full id →
      (∀ b f, asker = .pump b f → (s.blogs b).closed = false → id ≠ f.id) ∧
      (∀ f, asker = .fast f → id ≠ f.id) ∧
      (∀ d b, asker = .settle d → (s.decisions d).backlog = some b → (s.blogs b).closed = false →
        id ≠ (s.decisions d).frame.id)) : TaskOk (s.emit e) (.policy ws ms i asker) := by
  cases asker with
  | fast f =>
    obtain ⟨hws, hkind, hnone, hahead, hasked⟩ := h
    exact ⟨hws, hkind, hnone, hahead.cons fun g hg hne => absurd hne (hhanded f g rfl hg),
      hasked.cons fun id hid => (hfull id hid).2.1 f rfl⟩
  | pump c f =>
    obtain ⟨hws, hf, hknown, hhead⟩ := h
    exact ⟨hws, hf, mem_cons_of_mem _ hknown, fun hcl => ⟨(hhead hcl).1,
      (hhead hcl).2.cons fun id hid => (hfull id hid).1 c f rfl hcl⟩⟩
  | settle d =>
    obtain ⟨hlt, hphase, hws, hms, hasked⟩ := h
    exact ⟨hlt, hphase, hws, hms, fun c hc hcl =>
      (hasked c hc hcl).cons fun id hid => (hfull id hid).2.2 d c rfl hc hcl⟩

theorem inv_quiet (hi : Inv hole s) (hsteady : Steady s) (hquiet : e.quiet = true) :
    Inv hole (s.emit e) := by
  have hadmitted : ∀ ws id, e ≠ .admitted ws id := by rintro ws id rfl; contradiction
  have hhanded : ∀ f, e ≠ .handed f := by rintro f rfl; contradiction
  have hfull : ∀ id, e ≠ .full id := by rintro id rfl; contradiction
  have hrefused : ∀ ws, e ≠ .refused ws := by rintro ws rfl; contradiction
  refine inv_emit hi (fun ws id h => absurd h (hadmitted ws id)) hhanded ?_ (fun _ _ _ _ id hid => absurd hid (hfull id))
    (fun _ _ _ _ id hid => absurd hid (hfull id)) fun ws hws => absurd hws (hrefused ws)
  exact tasks_of_policies (s.emit e) hi hsteady rfl (fun _ h => h) fun _ _ _ _ _ h =>
    taskOk_policy_emit h (fun _ g _ hg => absurd hg (hhanded g)) fun id hid => absurd hid (hfull id)

theorem inv_refuse (ws : Socket) (hi : Inv none s) (hsteady : Steady s) :
    Inv (some ws) (s.emit (.refused ws)) := by
  have hi' : Inv (some ws) s := { hi with refused := fun w _ h => hi.refused w (by simp) h }
  refine inv_emit hi' (by simp) (by simp) ?_ (by simp) (by simp) (by simp)
  exact tasks_of_policies (s.emit (.refused ws)) hi hsteady rfl (fun _ h => h) fun _ _ _ _ _ h =>
    taskOk_policy_emit h (by simp) (by simp)

theorem inv_fill {ws : Socket} (hi : Inv (some ws) s) (hb : Blocked s ws) : Inv none s :=
  { hi with
    refused := fun w _ h => by
      by_cases hw : w = ws
      · exact hw ▸ hb
      · exact hi.refused w (fun he => hw (Option.some.inj he).symm) h }

theorem eq_of_queue {c : Nat} (hi : Inv hole s) (hb : s.backlogs (s.blogs b).ws = some b)
    (hc : (s.blogs c).queue ≠ []) (hws : (s.blogs c).ws = (s.blogs b).ws) : c = b := by
  have := (hi.live c hc).2
  rw [hws, hb] at this
  exact (Option.some.inj this).symm

/-- The transport is full for the head of `b`, which is undecided. -/
theorem inv_full {rest : List Entry} (hi : Inv hole s) (hsteady : Steady s)
    (hb : b ∉ pumps s.stack) (hp : PumpOk s b) (hq : (s.blogs b).queue = ⟨f, false⟩ :: rest) :
    Inv hole (s.emit (.full f.id)) := by
  have hne : (s.blogs b).queue ≠ [] := by simp [hq]
  have hreg := (hi.live b hne).2
  have hf := hi.entries b ⟨f, false⟩ (by simp [hq])
  -- a frame of the same number is of the same socket
  have hsame : ∀ g : Frame, .admitted g.ws g.id ∈ s.log → f.id = g.id →
      g.ws = (s.blogs b).ws := fun g hg hid => by
    have hk := hf.known
    rw [hid] at hk
    exact (hi.unique g.ws f.ws g.id hg hk).trans hf.ws
  have hdecision : ∀ d < s.nextDecision, (s.decisions d).phase ≠ .delivered →
      ∀ c, (s.decisions d).backlog = some c → (s.blogs c).closed = false →
        f.id ≠ (s.decisions d).frame.id := by
    intro d hd hph c hc hcl hid
    obtain ⟨hknown, hok⟩ := hi.decisions d hd hph
    simp only [hc] at hok
    have hwait := (hok.2.2.2 hcl).1
    have hws := hsame _ hknown hid
    have hcb : c = b := eq_of_queue hi hreg (hi.waiting c hwait hcl) (hok.1.trans hws)
    rw [hcb, hp.waiting] at hwait
    contradiction
  refine inv_emit hi (by simp) (by simp) ?_ ?_ ?_ (by simp)
  · refine tasks_of_policies (s.emit (.full f.id)) hi hsteady rfl (fun _ h => h) fun ws ms i asker hmem h => ?_
    refine taskOk_policy_emit h (by simp) fun id hid => ?_
    obtain rfl := Event.full.inj hid
    refine ⟨?_, ?_, ?_⟩
    · intro c g hasker hcl heq
      subst hasker
      obtain ⟨v, tl, hqc⟩ := (h.2.2.2 hcl).1
      have hg := hi.entries c ⟨g, v⟩ (by simp [hqc])
      have hws := hsame g hg.known heq
      have hcb : c = b := eq_of_queue hi hreg (by simp [hqc]) (hg.ws.symm.trans hws)
      exact hb (hcb ▸ mem_pumps hmem)
    · intro g hasker heq
      subst hasker
      obtain ⟨hws, -, hnone, hahead, -⟩ := h
      have := hsame g hahead.known heq
      rw [← hws, this, hreg] at hnone
      contradiction
    · intro d c hasker hc hcl
      subst hasker
      obtain ⟨hlt, hphase, -⟩ := h
      exact hdecision d hlt (by simp [hphase]) c hc hcl
  · intro c en hen hv id hid heq
    obtain rfl := Event.full.inj hid
    have hg := hi.entries c en hen
    have hws := hsame en.frame hg.known heq
    have hcb : c = b := eq_of_queue hi hreg (List.ne_nil_of_mem hen) (hg.ws.symm.trans hws)
    subst hcb
    -- the head is undecided, and the other entries have later numbers
    rw [hq] at hen
    have hsorted := hi.sorted c
    rw [hq] at hsorted
    rcases List.mem_cons.mp hen with rfl | hen
    · contradiction
    · have := (List.pairwise_cons.mp hsorted).1 en hen
      simp only at this
      omega
  · rintro d hd hph ⟨c, hc, hcl⟩ id hid
    obtain rfl := Event.full.inj hid
    exact hdecision d hd hph c hc hcl

theorem inv_handed (hi : Inv hole s) (hsteady : Steady s) (hahead : Ahead s.log s.blogs f)
    (hcleared : f.kind = .application → Cleared s.log f) (hrefused : .refused f.ws ∉ s.log)
    (hfast : ∀ ws ms i g, .policy ws ms i (.fast g) ∈ s.stack → g.ws ≠ f.ws) :
    Inv hole (s.emit (.handed f)) := by
  refine { hi with tasks := ?_, pumps := ?_, entries := ?_, admitted := ?_, unique := ?_,
                   handed := ?_, ordered := ?_, mediated := ⟨hcleared, hrefused, hi.mediated⟩,
                   decisions := ?_, refused := ?_ }
  · refine tasks_of_policies (s.emit (.handed f)) hi hsteady rfl (fun _ h => h) fun ws ms i asker hmem h =>
      taskOk_policy_emit h ?_ (by simp)
    intro g g' hasker hg
    subst hasker
    obtain rfl := Event.handed.inj hg
    exact (hfast ws ms i g hmem).symm
  · intro c hc
    exact { hi.pumps c hc with }
  · intro c en hen
    have hok := hi.entries c en hen
    refine ⟨hok.ws, mem_cons_of_mem _ hok.known, fun g hg hws => ?_, fun hv =>
      (hok.verdict hv).cons (by simp)⟩
    rcases List.mem_cons.mp hg with hg | hg
    · obtain rfl := Event.handed.inj hg
      exact hahead.held c en hen hws.symm
    · exact hok.handed g hg hws
  · intro ws id h
    exact hi.admitted ws id (by simpa [emit] using h)
  · intro ws ws' id h h'
    exact hi.unique ws ws' id (by simpa [emit] using h) (by simpa [emit] using h')
  · intro g hg
    rcases List.mem_cons.mp hg with hg | hg
    · obtain rfl := Event.handed.inj hg
      exact mem_cons_of_mem _ hahead.known
    · exact mem_cons_of_mem _ (hi.handed g hg)
  · refine List.pairwise_cons.mpr ⟨fun g hg hws => ?_, hi.ordered⟩
    exact hahead.handed g (mem_handedFrames.mp hg) hws.symm
  · intro d hd hp
    obtain ⟨hknown, hok⟩ := hi.decisions d hd hp
    refine ⟨mem_cons_of_mem _ hknown, ?_⟩
    change (match (s.decisions d).backlog with
      | none => s.isOpen (s.decisions d).frame.ws = false
      | some b => _ ∧ _ ∧ (_ → _) ∧
        ((s.blogs b).closed = false → (s.blogs b).waiting = true ∧ _ ∧ PhaseOk (_ :: s.log) _))
    cases hb : (s.decisions d).backlog with
    | none => rw [hb] at hok; exact hok
    | some c =>
      rw [hb] at hok
      obtain ⟨hws, hlt, hcl, hwait⟩ := hok
      exact ⟨hws, hlt, hcl, fun hopen =>
        ⟨(hwait hopen).1, (hwait hopen).2.1, (hwait hopen).2.2.cons (by simp)⟩⟩
  · intro ws hne h
    exact hi.refused ws hne (by simpa [emit] using h)

theorem inv_number (kind : Kind) (ws : Socket) (p : Payload) (topic : Option JsString)
    (hi : Inv hole s) (hsteady : Steady s) : Inv hole (s.number kind ws p topic).1 := by
  have hnext : Inv hole { s with nextFrame := s.nextFrame + 1 } :=
    { hi with
      admitted := fun w id h => Nat.lt_succ_of_lt (hi.admitted w id h)
      pumps := fun c hc => { hi.pumps c hc with } }
  refine inv_emit
    hnext ?_ (by simp) ?_ (by simp) (by simp) (by simp)
  · intro w id h
    obtain ⟨rfl, rfl⟩ := Event.admitted.inj h
    exact ⟨Nat.lt_succ_self _, hi.admitted⟩
  · exact tasks_of_policies (s.number kind ws p topic).1 hnext hsteady rfl (fun _ h => h) fun _ _ _ _ _ h =>
      taskOk_policy_emit h (by simp) (by simp)

end Events

/-! ## the decisions -/

section Decisions

variable {hole : Option Socket} {s : State} {d : Nat} {dec : Decision}

theorem inv_newDecision (hi : Inv hole s) (hok : DecisionOk s dec)
    (hsingle : ∀ b, dec.backlog = some b → (s.blogs b).closed = false →
      ∀ d < s.nextDecision, (s.decisions d).phase ≠ .delivered → (s.decisions d).backlog ≠ some b) :
    Inv hole { s with
      decisions := update s.decisions s.nextDecision dec
      nextDecision := s.nextDecision + 1 } := by
  have hold : ∀ {c}, c < s.nextDecision →
      update s.decisions s.nextDecision dec c = s.decisions c := fun hc =>
    update_of_ne (Nat.ne_of_lt hc) _ _
  refine { hi with tasks := ?_, pumps := ?_, decisions := ?_, single := ?_, refused := ?_ }
  · intro t ht
    have := hi.tasks t ht
    cases t with
    | policy ws ms i asker =>
      cases asker with
      | settle c =>
        obtain ⟨hlt, hrest⟩ := this
        refine ⟨Nat.lt_succ_of_lt hlt, ?_⟩
        simpa only [hold hlt] using hrest
      | _ => exact this
    | _ => exact this
  · intro c hc
    exact { hi.pumps c hc with }
  · intro c hc hp
    by_cases hn : c = s.nextDecision
    · subst hn
      simp only [update_self]
      exact hok
    · have hlt : c < s.nextDecision := by
        have : c < s.nextDecision + 1 := hc
        omega
      simp only [hold hlt] at hp ⊢
      exact hi.decisions c hlt hp
  · intro c hc c' hc' b hp hp' hb hb' hcl
    have hlt : c < s.nextDecision + 1 := hc
    have hlt' : c' < s.nextDecision + 1 := hc'
    by_cases hn : c = s.nextDecision
    · by_cases hn' : c' = s.nextDecision
      · exact hn.trans hn'.symm
      · subst hn
        have hlt' : c' < s.nextDecision := by omega
        simp only [update_self, hold hlt'] at hb hb' hp'
        exact absurd hb' (hsingle b hb hcl c' hlt' hp')
    · have hlt : c < s.nextDecision := by omega
      by_cases hn' : c' = s.nextDecision
      · subst hn'
        simp only [update_self, hold hlt] at hb hb' hp
        exact absurd hb (hsingle b hb' hcl c hlt hp)
      · have hlt' : c' < s.nextDecision := by omega
        simp only [hold hlt, hold hlt'] at hp hp' hb hb'
        exact hi.single c hlt c' hlt' b hp hp' hb hb' hcl
  · intro ws hne hw
    rcases hi.refused ws hne hw with h | ⟨b, hb, h | ⟨c, hc, hcb, r, hr⟩⟩
    · exact .inl h
    · exact .inr ⟨b, hb, .inl h⟩
    · refine .inr ⟨b, hb, .inr ⟨c, Nat.lt_succ_of_lt hc, ?_, r, ?_⟩⟩
      · simpa only [hold hc] using hcb
      · simpa only [hold hc] using hr

theorem inv_phase {hole' : Option Socket} {p : Phase} (hi : Inv hole s) (hd : d < s.nextDecision)
    (hp : (s.decisions d).phase ≠ .delivered)
    (hstack : ∀ ws ms i, .policy ws ms i (.settle d) ∉ s.stack)
    (hok : p ≠ .delivered → ∀ b, (s.decisions d).backlog = some b → (s.blogs b).closed = false →
      PhaseOk s.log { s.decisions d with phase := p })
    (hhole : ∀ ws, hole = some ws → hole' = some ws ∨ Blocked (s.modDecision d fun dec =>
      { dec with phase := p }) ws)
    (hrefused : ∀ r, (s.decisions d).phase = .done (.refused r) →
      hole' = some (s.decisions d).frame.ws) :
    Inv hole' (s.modDecision d fun dec => { dec with phase := p }) := by
  refine { hi with tasks := ?_, pumps := ?_, decisions := ?_, single := ?_, refused := ?_ }
  · intro t ht
    have := hi.tasks t ht
    cases t with
    | policy ws ms i asker =>
      cases asker with
      | settle c =>
        have hc : c ≠ d := fun h => hstack ws ms i (h ▸ ht)
        simpa only [TaskOk, modDecision, update_of_ne hc] using this
      | _ => exact this
    | _ => exact this
  · intro c hc
    exact { hi.pumps c hc with }
  · intro c hc hph
    by_cases hcd : c = d
    · subst hcd
      obtain ⟨hknown, hold⟩ := hi.decisions c hc hp
      simp only [modDecision, update_self] at hph ⊢
      refine ⟨hknown, ?_⟩
      cases hb : (s.decisions c).backlog with
      | none => rw [hb] at hold; exact hold
      | some b =>
        rw [hb] at hold
        obtain ⟨hws, hlt, hcl, hwait⟩ := hold
        exact ⟨hws, hlt, hcl, fun hopen => ⟨(hwait hopen).1, (hwait hopen).2.1,
          hok hph b hb hopen⟩⟩
    · simp only [modDecision, update_of_ne hcd] at hph ⊢
      exact hi.decisions c hc hph
  · intro c hc c' hc' b hph hph' hb hb'
    have hphase : ∀ {c}, (update s.decisions d
        { s.decisions d with phase := p } c).phase ≠ .delivered →
          (s.decisions c).phase ≠ .delivered := by
      intro c h
      by_cases hcd : c = d
      · exact hcd ▸ hp
      · rwa [update_of_ne hcd] at h
    have hback : ∀ {c}, (update s.decisions d
        { s.decisions d with phase := p } c).backlog = (s.decisions c).backlog := by
      intro c
      by_cases hcd : c = d
      · subst hcd; simp
      · rw [update_of_ne hcd]
    exact hi.single c hc c' hc' b (hphase hph) (hphase hph') (hback.symm.trans hb)
      (hback.symm.trans hb')
  · intro ws hne hw
    by_cases hh : hole = some ws
    · exact (hhole ws hh).resolve_left hne
    rcases hi.refused ws hh hw with h | ⟨b, hb, h | ⟨c, hc, hcb, r, hr⟩⟩
    · exact .inl h
    · exact .inr ⟨b, hb, .inl h⟩
    have hcd : c ≠ d := by
      rintro rfl
      obtain ⟨-, hold⟩ := hi.decisions c hc hp
      rw [hcb] at hold
      have hws := (hi.registered ws b hb).2
      rw [hold.1] at hws
      exact hne (hws ▸ hrefused r hr)
    refine .inr ⟨b, hb, .inr ⟨c, hc, ?_, r, ?_⟩⟩
    · simpa only [modDecision, update_of_ne hcd] using hcb
    · simpa only [modDecision, update_of_ne hcd] using hr

end Decisions

end BunServe.Delivery
