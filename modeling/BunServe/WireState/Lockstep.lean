import BunServe.WireState.Walks
import BunServe.Publish.Authority

/-!
# BunServe.WireState.Lockstep

What a connection's client sees of a stateful codec, over every run of the calls
that reach it.

* `Good` — the invariant of a state, with the calls at a question and the close
  handlers under way;
* `lockstep` — where the codec has a state, what the transport accepted is what was
  encoded, up to the first payload that was not accepted;
* `baseline_gap` — where it has none, that fails.
-/

namespace BunServe.WireState

open Resume Publish

variable {wires : String → Wire} {text : JsNumber → String} {start c : Connection}

/-! ## closing -/

theorem Inv.markClosed {ahead : Option (String × Payload)} {owed : Option String}
    (h : Inv wires ahead owed c) : Inv wires none none c.markClosed :=
  have hclosed : Inv wires ahead owed c.markClosed :=
    ⟨h.log, h.entries, by simp [Connection.markClosed], by simp [Connection.markClosed]⟩
  hclosed.of_closed rfl

theorem grows_markClosed (c : Connection) : Grows c c.markClosed :=
  ⟨List.suffix_refl _, by simp [Connection.markClosed]⟩

def sweepLog (es : List (String × Entry)) (log : List Event) : List Event :=
  es.foldl (fun log e => if e.2.detach then .detached e.1 :: log else log) log

theorem sweepLog_suffix (es : List (String × Entry)) (log : List Event) :
    log <:+ sweepLog es log := by
  induction es generalizing log with
  | nil => exact List.suffix_refl _
  | cons e es ih =>
    simp only [sweepLog, List.foldl_cons]
    refine List.IsSuffix.trans ?_ (ih _)
    split
    · exact List.suffix_cons _ _
    · exact List.suffix_refl _

theorem mem_sweepLog {es : List (String × Entry)} {log : List Event} {x : Event} :
    x ∈ sweepLog es log ↔ x ∈ log ∨ ∃ e ∈ es, e.2.detach = true ∧ x = .detached e.1 := by
  induction es generalizing log with
  | nil => simp [sweepLog]
  | cons e es ih =>
    have hstep : sweepLog (e :: es) log =
        sweepLog es (if e.2.detach then .detached e.1 :: log else log) := rfl
    rw [hstep, ih]
    cases hd : e.2.detach <;> simp [hd, or_assoc, or_left_comm]

theorem wellFormed_sweepLog {es : List (String × Entry)} {log : List Event}
    (hnodup : (es.map Prod.fst).Nodup)
    (hno : ∀ e ∈ es, e.2.detach = true → .detached e.1 ∉ log) (h : WellFormed wires log) :
    WellFormed wires (sweepLog es log) := by
  induction es generalizing log with
  | nil => exact h
  | cons e es ih =>
    have hstep : sweepLog (e :: es) log =
        sweepLog es (if e.2.detach then .detached e.1 :: log else log) := rfl
    rw [List.map_cons, List.nodup_cons] at hnodup
    rw [hstep]
    split
    · next hd =>
      refine ih hnodup.2 (fun x hx hxd => ?_) ⟨hno e List.mem_cons_self hd, h⟩
      have hne : x.1 ≠ e.1 := fun heq => hnodup.1 (heq ▸ List.mem_map_of_mem hx)
      simpa [hne] using hno x (List.mem_cons_of_mem _ hx) hxd
    · exact ih hnodup.2 (fun x hx hxd => hno x (List.mem_cons_of_mem _ hx) hxd) h

theorem sweep_log (c : Connection) : c.sweep.log = sweepLog c.wireStates.entries c.log := rfl

theorem Inv.sweep (h : Inv wires none none c) (hc : c.isOpen = false) :
    Inv wires none none c.sweep := by
  have hmem : ∀ e ∈ c.wireStates.entries, c.wireStates.get? e.1 = some e.2 := fun e he =>
    JsMap.mem_entries_iff.1 he
  have hclosed : c.sweep.isOpen = false := hc
  refine ⟨?_, fun x => ?_, by simp [hclosed], by simp [hclosed]⟩
  · exact wellFormed_sweepLog c.wireStates.nodup
      (fun e he hd => (h.entries e.1).undetached (hmem e he) hd) h.log
  · simp only [EntryOk, sweep_log]
    intro b hb hon
    have hb' : .attached x b ∈ c.log := by simpa [mem_sweepLog] using hb
    rw [mem_sweepLog]
    by_cases hno : ∀ e, c.wireStates.get? x = some e → e.detach = false
    · exact .inl ((h.entries x).nothing_left hno b hb' hon)
    · obtain ⟨e, hno⟩ := not_forall.1 hno
      obtain ⟨he, hd⟩ := Classical.not_imp.1 hno
      exact .inr ⟨(x, e), JsMap.mem_entries_iff.2 he, by simpa using hd, rfl⟩

theorem grows_sweep (c : Connection) : Grows c c.sweep :=
  ⟨by rw [sweep_log]; exact sweepLog_suffix _ _, id⟩

/-! ## runs -/

/-- The top frame is not a call at a question. -/
def Free : List Frame → Prop
  | .waiting .. :: _ => False
  | _ => True

/-- Once its question is answered, a call at it keeps the invariant. -/
def Resumes (wires : String → Wire) (start at₀ : Connection) (op : Op)
    (k : op.Ans → Connection → Outcome Connection Op Op.Ans Unit) : Prop :=
  Grows start at₀ ∧ ∀ ans c', (contract wires start).post op at₀ ans c' →
    (k ans c').Meets (contract wires start) fun _ c'' => Carries wires start none c''

/-- What is left to do keeps the invariant; below a close handler the connection
is closed, and a call there asked the socket. -/
def Owes (wires : String → Wire) : Connection → List Frame → Prop
  | _, [] => True
  | c, .closing :: below => c.isOpen = false ∧ Owes wires c below
  | c, .waiting op k :: below => ∃ start at₀, op.interruptible = true ∧ Grows at₀ c ∧
      Resumes wires start at₀ op k ∧ Owes wires start below ∧ Free below

theorem Grows.closed {c c' : Connection} (h : Grows c c') (hc : c.isOpen = false) :
    c'.isOpen = false := by
  cases ho : c'.isOpen with
  | false => rfl
  | true =>
    rw [h.isOpen ho] at hc
    cases hc

theorem Owes.grow {c c' : Connection} {stack : List Frame} (h : Owes wires c stack)
    (hg : Grows c c') : Owes wires c' stack := by
  induction stack with
  | nil => trivial
  | cons f below ih =>
    cases f with
    | closing => exact ⟨hg.closed h.1, ih h.2⟩
    | waiting op k =>
      obtain ⟨start, at₀, hop, hat, hrest⟩ := h
      exact ⟨start, at₀, hop, hat.trans hg, hrest⟩

def Good (wires : String → Wire) (s : State) : Prop :=
  match s.stack with
  | .waiting op k :: below => (∃ ahead owed, Inv wires ahead owed s.conn) ∧ ∃ start at₀,
      Passes wires op at₀ s.conn ∧ Resumes wires start at₀ op k ∧ Owes wires start below ∧ Free below
  | stack => Inv wires none none s.conn ∧ Owes wires s.conn stack

theorem good_free {conn : Connection} {stack : List Frame} (hfree : Free stack) :
    Good wires { conn, stack } ↔ Inv wires none none conn ∧ Owes wires conn stack := by
  cases stack with
  | nil => rfl
  | cons f below =>
    cases f with
    | closing => rfl
    | waiting op k => exact hfree.elim

variable {s : State}

theorem Good.inv (h : Good wires s) : ∃ ahead owed, Inv wires ahead owed s.conn := by
  unfold Good at h
  split at h
  · exact h.1
  · exact ⟨none, none, h.1⟩

theorem good_settle {stack : List Frame} {o : Outcome Connection Op Op.Ans Unit}
    (ho : o.Meets (contract wires start) fun _ c => Carries wires start none c)
    (howes : Owes wires start stack) (hfree : Free stack) : Good wires (settle stack o) := by
  cases o with
  | done a conn | fail conn => exact (good_free hfree).2 ⟨ho.2, howes.grow ho.1⟩
  | ask op conn k => exact ⟨ho.1.2, start, conn, .inl rfl, ⟨ho.1.1, ho.2⟩, howes, hfree⟩

theorem free_of (h : s.free = true) : Free s.stack := by
  unfold State.free at h
  split at h
  · next hs => rw [hs]; trivial
  · next hs => rw [hs]; trivial
  · cases h

theorem good_touch {conn : Connection} (hfree : Free s.stack) (h : Good wires s)
    (hinv : Inv wires none none s.conn → Inv wires none none conn) (hg : Grows s.conn conn) :
    Good wires { s with conn } := by
  have hs : Good wires { conn := s.conn, stack := s.stack } := h
  rw [good_free hfree] at hs
  exact (good_free hfree).2 ⟨hinv hs.1, hs.2.grow hg⟩

theorem good_init (ws : Socket) : Good wires { conn := .fresh ws, stack := [] } := by
  refine ⟨⟨trivial, fun x => ?_, ?_, ?_⟩, trivial⟩
  · simp [EntryOk, Connection.fresh]
  · simp [Connection.fresh]
  · simp [Connection.fresh]

theorem good_answer {s' : State} {op : Op} {ans : op.Ans} (h : Good wires s)
    (hn : next wires text s (.answer op ans) = some s') : Good wires s' := by
  obtain ⟨conn, stack⟩ := s
  cases stack with
  | nil => cases hn
  | cons f below =>
    cases f with
    | closing => cases hn
    | waiting op' k =>
      simp only [next] at hn
      by_cases heq : op = op'
      · subst heq
        by_cases hposs : op.possible conn ans = true
        · obtain ⟨-, start, at₀, hpass, hres, howes, hfree⟩ := h
          simp only [dite_true, hposs, if_true, Option.some.injEq] at hn
          subst hn
          exact good_settle (hres.2 ans conn ⟨hpass, hposs⟩) howes hfree
        · simp [hposs] at hn
      · simp [heq] at hn

theorem good_shut (h : Good wires s) (hc : s.closable = true) :
    Good wires { s with conn := { s.conn with isOpen := false } } := by
  have hg : Grows s.conn { s.conn with isOpen := false } := ⟨List.suffix_refl _, by simp⟩
  have hinv : ∀ {ahead owed}, Inv wires ahead owed s.conn →
      Inv wires none none { s.conn with isOpen := false } := fun h =>
    ⟨h.log, h.entries, by simp, by simp⟩
  obtain ⟨conn, stack⟩ := s
  cases stack with
  | nil => exact good_touch trivial h hinv hg
  | cons f below =>
    cases f with
    | closing => exact good_touch trivial h hinv hg
    | waiting op k =>
      obtain ⟨⟨ahead, owed, hconn⟩, start, at₀, hpass, hrest⟩ := h
      have hclosed := hinv hconn
      exact ⟨⟨none, none, hclosed⟩, start, at₀,
        .inr ⟨hc, rfl, hpass.grows.trans hg, hclosed⟩, hrest⟩

theorem good_close (h : Good wires s) (hc : s.closable = true) :
    Good wires { conn := s.conn.markClosed, stack := .closing :: s.stack } := by
  obtain ⟨ahead, owed, hinv⟩ := h.inv
  refine ⟨hinv.markClosed, rfl, ?_⟩
  obtain ⟨conn, stack⟩ := s
  cases stack with
  | nil => trivial
  | cons f below =>
    cases f with
    | closing => exact Owes.grow h.2 (grows_markClosed conn)
    | waiting op k =>
      obtain ⟨-, start, at₀, hpass, hres, howes, hfree⟩ := h
      exact ⟨start, at₀, hc, hpass.grows.trans (grows_markClosed conn), hres, howes, hfree⟩

theorem good_swept {conn : Connection} {below : List Frame}
    (h : Good wires { conn, stack := .closing :: below }) :
    Good wires { conn := conn.sweep, stack := below } := by
  obtain ⟨hinv, hclosed, howes⟩ := h
  have hinv' : Inv wires none none conn.sweep := Inv.sweep hinv hclosed
  have howes' := howes.grow (grows_sweep conn)
  cases below with
  | nil => exact ⟨hinv', howes'⟩
  | cons f below =>
    cases f with
    | closing => exact ⟨hinv', howes'⟩
    | waiting op k =>
      obtain ⟨start, at₀, hop, hg, hrest⟩ := howes'
      exact ⟨⟨none, none, hinv'⟩, start, at₀, .inr ⟨hop, hclosed, hg, hinv'⟩, hrest⟩

theorem good_next {s' : State} {a : Action} (h : Good wires s)
    (hn : next wires text s a = some s') : Good wires s' := by
  cases a with
  | answer op ans => exact good_answer h hn
  | call x =>
    obtain ⟨hx, rfl⟩ := by simpa [next] using hn
    have hfree := free_of hx.1
    have hs : Good wires { conn := s.conn, stack := s.stack } := h
    rw [good_free hfree] at hs
    exact good_settle (meets_run hx.2 ⟨.refl _, hs.1⟩) hs.2 hfree
  | hello caps | subscribe topic | unsubscribe topic =>
    obtain ⟨hf, rfl⟩ := by simpa [next] using hn
    exact good_touch (free_of hf) h (fun h => ⟨h.log, h.entries, h.level, h.known⟩)
      ⟨List.suffix_refl _, id⟩
  | shut =>
    obtain ⟨hc, rfl⟩ := by simpa [next] using hn
    exact good_shut h hc
  | close =>
    obtain ⟨hc, rfl⟩ := by simpa [next] using hn
    exact good_close h hc.1
  | swept =>
    obtain ⟨conn, stack⟩ := s
    cases stack with
    | nil => cases hn
    | cons f below =>
      cases f with
      | waiting op k => cases hn
      | closing =>
        cases hn
        exact good_swept h

theorem good_of_run {ws : Socket} {as : List Action}
    (hrun : (machine wires text ws).Runs Machine.Any as s) : Good wires s :=
  Machine.Runs.invariant (good_init ws)
    (fun _ _ _ h _ hn => good_next h hn) hrun

/-- **Lockstep under loss.** Where the codec gave a state, what the transport
accepted is what was encoded, up to the first payload it did not accept, and a
frame is handed to it only with everything before it accepted.  An accepted frame
has an announced id.  The codec is attached once, and detached once: by the time
its capability is poisoned or the connection is torn down. -/
theorem lockstep {ws : Socket} {as : List Action} {s : State}
    (hrun : (machine wires text ws).Runs Machine.Any as s) {capability : String}
    (hs : (wires capability).stateful = true) :
    (.attached capability true ∈ s.conn.log →
      acceptedOf capability s.conn.log <+: encodedOf capability s.conn.log ∧
        ∀ later earlier f, s.conn.log = later ++ .handed (.frame f) :: earlier →
          f.capability = capability → InStep capability f.payload earlier) ∧
    (∀ later earlier f, s.conn.log = later ++ .accepted (.frame f) :: earlier →
      .announced f.topic f.topicId ∈ earlier) ∧
    (∀ later earlier b, s.conn.log = later ++ .attached capability b :: earlier →
      ∀ b', .attached capability b' ∉ earlier) ∧
    s.conn.log.count (.detached capability) ≤ 1 ∧
    ∀ b, .attached capability b ∈ s.conn.log → (wires capability).onDetach →
      s.conn.wireStatePoisoned capability = true ∨ s.conn.detached = true →
      s.conn.log.count (.detached capability) = 1 := by
  obtain ⟨ahead, owed, hinv⟩ := (good_of_run hrun).inv
  refine ⟨fun hat => ⟨hinv.log.accepted_isPrefix hs hat, ?_⟩, ?_, ?_, hinv.log.detached_once _, ?_⟩
  · rintro later earlier f hlog rfl
    have hwf := hinv.log
    rw [hlog] at hwf hat
    obtain ⟨b, hb, hstep⟩ := hwf.split.1 hs
    have hb' : .attached f.capability b ∈ later ++ .handed (.frame f) :: earlier := by simp [hb]
    exact hstep (hwf.attached_unique hb' hat)
  · intro later earlier f hlog
    have hwf := hinv.log
    rw [hlog] at hwf
    exact hwf.split.1.2
  · intro later earlier b hlog
    have hwf := hinv.log
    rw [hlog] at hwf
    exact hwf.split.1
  · intro b hb hon hgone
    have hmem : .detached capability ∈ s.conn.log :=
      (hinv.entries capability).gone hgone b hb hon
    have := List.count_pos_iff.2 hmem
    have := hinv.log.detached_once capability
    omega

/-! ## runs on fixed calls -/

def codec (capability : String) : Wire where
  capability
  schemaVersion := 1
  stateful := true
  onDetach := true

/-- An event of topic `t`. -/
def event : Recorded where
  topic := "t"
  seq := none
  envelope := "\x7b\x7d"
  compress := false
  excludeWs := none
  marked := false
  authoritative := false

def publishes : Action := .call (.publishWire (codec "c") "e" (some "1") event)

def encodes (state : Option CodecState) (p : Payload) : Action :=
  .answer (.encode "c" state (.single "e" (some "1"))) (some p)

/-- The transport answers its frame. -/
def transports (p : Payload) (r : SendResult) : Action :=
  .answer (.send (frameOf (codec "c") 1 "t" 1 none p) false) r

/-- Two publishes; the first finds a codec that gives this state. -/
def twoPublishes (state : Option CodecState) (r r' : SendResult) : List Action :=
  [.subscribe "t", .hello ["c"], publishes, .answer (.onAttach "c") state, encodes state [1],
    .answer (.announce "t" 1) Control.delivered, transports [1] r, publishes, encodes state [2],
    transports [2] r']

/-- Two frames, the second dropped, and the end of the connection. -/
theorem lockstep_dropped : ∃ as s, (machine codec integerText 0).Runs Machine.Any as s ∧
    acceptedOf "c" s.conn.log = [[1]] ∧ encodedOf "c" s.conn.log = [[1], [2]] ∧
    acceptedOf "c" s.conn.log <+: encodedOf "c" s.conn.log ∧
    s.conn.log.count (.detached "c") = 1 := by
  obtain ⟨s, hs⟩ : ∃ s, (machine codec integerText 0).exec (machine codec integerText 0).init
      (twoPublishes (some { schemaVersion := none }) .success .dropped ++ [.close, .swept]) = some s :=
    ⟨_, rfl⟩
  have hrun := Machine.runs_of_exec hs
  have h := lockstep hrun (show (codec "c").stateful = true from rfl)
  cases hs
  exact ⟨_, _, hrun, by decide +kernel, by decide +kernel, (h.1 (by decide +kernel)).1,
    h.2.2.2.2 true (by decide +kernel) rfl (.inr rfl)⟩

/-- Where the codec gave no state, a dropped frame is followed by others. -/
theorem baseline_gap : ∃ as s, (machine codec integerText 0).Runs Machine.Any as s ∧
    (codec "c").stateful = true ∧
    ¬ acceptedOf "c" s.conn.log <+: encodedOf "c" s.conn.log ∧
    ∃ later earlier f, s.conn.log = later ++ .handed (.frame f) :: earlier ∧ f.capability = "c" ∧
      ¬ InStep "c" f.payload earlier := by
  obtain ⟨s, hs⟩ : ∃ s, (machine codec integerText 0).exec (machine codec integerText 0).init
      (twoPublishes none .dropped .success) = some s := ⟨_, rfl⟩
  have hrun := Machine.runs_of_exec hs
  cases hs
  refine ⟨_, _, hrun, rfl, by decide +kernel, ?_⟩
  exact ⟨[.accepted (frameOf (codec "c") 1 "t" 1 none [2])], _,
    { capability := "c", topic := "t", schemaVersion := 1, topicId := 1, seq := .ofNat 0
      payload := [2] }, rfl, rfl, by decide +kernel⟩

end BunServe.WireState
