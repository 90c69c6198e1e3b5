import BunServe.Lib.Machine
import BunServe.Resume

/-!
# BunServe.Resume.Gap

No silent gap on resume, over all runs of publishes, marks, and capture
handles, for any connection.

* `flushBuffer_report` — what a flush that leaves the connection up has sent;
* `windows_run` — a buffer holds what was published while it was open, up to
  its bound, and says when there was more;
* `no_silent_gap` — the two together.
-/

namespace BunServe.Resume

open Machine
open JsMap (get?_set get?_set_ne get?_set_self of_get?_set)

/-! ## what a flush exchanged -/

/-- The exchange shows that the connection was ended or already gone. -/
def Exchange.over : Exchange → Bool
  | .signalled already => already
  | .control _ result => result.isNone
  | .sent _ _ result => result.isNone
  | .ended _ _ _ => true
  | .charged _ _ => false

/-- The transport took the marker of an incomplete gap-fill. -/
def MarkerTaken (topic : String) (log : List Exchange) : Prop :=
  ∃ r, r ≠ .dropped ∧ .control (truncatedMarker topic) (some r) ∈ log

/-- The transport took a held frame. -/
def Accepted (ws_compression_on : Bool) (f : Frame) (x : Exchange) : Prop :=
  ∃ r, r ≠ .dropped ∧ x = .sent f.envelope (ws_compression_on && f.compress) (some r)

theorem over_refuseControlFlood (t : Transport) (log : List Exchange) :
    ∃ x ∈ refuseControlFlood t log, x.over = true := by
  simp only [refuseControlFlood]
  by_cases h : t.signalled log = true
  · exact ⟨.signalled true, by simp [h], rfl⟩
  · rw [if_neg h]
    exact ⟨.ended _ _ _, List.mem_append_right _ (List.mem_singleton_self _), rfl⟩

theorem sendTruncated_answers (t : Transport) (log : List Exchange) (topic : String) :
    ((sendTruncated t log topic).1 = .delivered → MarkerTaken topic (sendTruncated t log topic).2) ∧
    ((sendTruncated t log topic).1 = .gone →
      ∃ x ∈ (sendTruncated t log topic).2, x.over = true) := by
  simp only [sendTruncated, sendControl]
  by_cases hw : t.charge log (truncatedMarker topic).utf8ByteSize = true
  · simp only [hw, Bool.not_true, Bool.false_eq_true, if_false]
    split
    · next hr =>
      refine ⟨fun h => by contradiction, fun _ => ?_⟩
      exact ⟨.control (truncatedMarker topic) none, List.mem_append_right _ (by simp [hr]), rfl⟩
    · exact ⟨fun h => by contradiction, fun h => by contradiction⟩
    · next r hne hr =>
      refine ⟨fun _ => ?_, fun h => by contradiction⟩
      have hr' : r ≠ .dropped := hne
      exact ⟨r, hr', List.mem_append_right _ (by simp [hr])⟩
  · simp only [hw]
    exact ⟨fun h => by contradiction, fun _ => over_refuseControlFlood t _⟩

theorem signalTruncation_answers (t : Transport) (topic : String) (log : List Exchange) :
    ((signalTruncation t topic log).1 = false → MarkerTaken topic (signalTruncation t topic log).2) ∧
    ((signalTruncation t topic log).1 = true →
      ∃ x ∈ (signalTruncation t topic log).2, x.over = true) := by
  have hanswers := sendTruncated_answers t log topic
  unfold signalTruncation
  split
  · next log' heq =>
    rw [heq] at hanswers
    exact ⟨fun _ => hanswers.1 rfl, fun h => by contradiction⟩
  · next log' heq =>
    rw [heq] at hanswers
    exact ⟨fun h => by contradiction, fun _ => hanswers.2 rfl⟩
  · exact ⟨fun h => by contradiction,
      fun _ => ⟨.ended _ _ _, List.mem_append_right _ (List.mem_singleton_self _), rfl⟩⟩

theorem pushFrames_report (t : Transport) (on : Bool) (floor : JsNumber) (fs : List Frame)
    (log : List Exchange) :
    ∃ xs, (pushFrames t on floor fs log).2 = log ++ xs ∧
      ((pushFrames t on floor fs log).1 = .whole →
        List.Forall₂ (Accepted on) (fs.filter fun f => !deduplicated floor f) xs) ∧
      ((pushFrames t on floor fs log).1 = .gone → ∃ x ∈ xs, x.over = true) := by
  induction fs generalizing log with
  | nil => exact ⟨[], by simp [pushFrames], by simp, by simp [pushFrames]⟩
  | cons f fs ih =>
    simp only [pushFrames]
    by_cases hd : deduplicated floor f = true
    · rw [if_pos hd, List.filter_cons_of_neg (by simp [hd])]
      exact ih log
    rw [if_neg hd, List.filter_cons_of_pos (by simp [hd])]
    split
    · next hr =>
      exact ⟨[.sent f.envelope (on && f.compress) none], by rw [hr], fun h => by contradiction,
        fun _ => ⟨_, List.mem_singleton_self _, rfl⟩⟩
    · exact ⟨_, rfl, fun h => by contradiction, fun h => by contradiction⟩
    · next r hne hr =>
      have hr' : r ≠ .dropped := hne
      obtain ⟨xs, hlog, hwhole, hgone⟩ :=
        ih (log ++ [.sent f.envelope (on && f.compress) (some r)])
      rw [hr]
      refine ⟨.sent f.envelope (on && f.compress) (some r) :: xs, ?_, ?_, ?_⟩
      · rw [hlog, List.append_assoc]
        rfl
      · intro h
        exact .cons ⟨r, hr', rfl⟩ (hwhole h)
      · intro h
        obtain ⟨x, hx, hover⟩ := hgone h
        exact ⟨x, List.mem_cons_of_mem _ hx, hover⟩

/-- What a flush did: a connection that is over was ended or gone; one that
survives took the marker, or took every frame of a complete window. -/
theorem flushBuffer_report (t : Transport) (on : Bool) (topic : String) (floor : JsNumber)
    (b : Buffer) :
    ((flushBuffer t on topic floor b).1 = true →
      ∃ x ∈ (flushBuffer t on topic floor b).2, x.over = true) ∧
    ((flushBuffer t on topic floor b).1 = false →
      MarkerTaken topic (flushBuffer t on topic floor b).2 ∨
      b.overflow = false ∧ b.truncated = false ∧
        List.Forall₂ (Accepted on) (b.frames.filter fun f => !deduplicated floor f)
          (flushBuffer t on topic floor b).2) := by
  obtain ⟨needs, hneeds⟩ : ∃ needs, needs = (b.overflow || b.truncated) := ⟨_, rfl⟩
  simp only [flushBuffer, ← hneeds]
  cases needs with
  | false =>
    obtain ⟨ho, ht⟩ := Bool.or_eq_false_iff.mp hneeds.symm
    obtain ⟨xs, hlog, hwhole, hgone⟩ := pushFrames_report t on floor b.frames []
    simp only [Bool.false_and, Bool.false_eq_true, if_false]
    split
    · next log heq =>
      rw [heq] at hlog hgone
      obtain rfl : log = xs := hlog
      exact ⟨fun _ => hgone rfl, fun h => by contradiction⟩
    · next log heq =>
      have hanswers := signalTruncation_answers t topic log
      exact ⟨hanswers.2, fun h => .inl (hanswers.1 h)⟩
    · next log heq =>
      rw [heq] at hlog hwhole
      obtain rfl : log = xs := hlog
      exact ⟨fun h => by contradiction, fun _ => .inr ⟨ho, ht, hwhole rfl⟩⟩
  | true =>
    have hfirst := sendTruncated_answers t [] topic
    obtain ⟨xs, hlog, -, hgone⟩ := pushFrames_report t on floor b.frames (sendTruncated t [] topic).2
    simp only [Bool.true_and, if_true, decide_eq_true_eq]
    by_cases hg : (sendTruncated t [] topic).1 = .gone
    · rw [if_pos hg]
      exact ⟨fun _ => hfirst.2 hg, fun h => by contradiction⟩
    rw [if_neg hg]
    -- a marker taken first stays taken
    have hkept : (sendTruncated t [] topic).1 = .delivered →
        MarkerTaken topic (pushFrames t on floor b.frames (sendTruncated t [] topic).2).2 := by
      intro hd
      obtain ⟨r, hr, hmem⟩ := hfirst.1 hd
      rw [hlog]
      exact ⟨r, hr, List.mem_append_left _ hmem⟩
    split
    · next log heq =>
      rw [heq] at hlog hgone
      refine ⟨fun _ => ?_, fun h => by contradiction⟩
      obtain ⟨x, hx, hover⟩ := hgone rfl
      rw [show log = _ from hlog]
      exact ⟨x, List.mem_append_right _ hx, hover⟩
    · next log heq =>
      rw [heq] at hkept
      by_cases hd : (sendTruncated t [] topic).1 = .delivered
      · rw [if_pos hd]
        exact ⟨fun h => by contradiction, fun _ => .inl (hkept hd)⟩
      · rw [if_neg hd]
        have hanswers := signalTruncation_answers t topic log
        exact ⟨hanswers.2, fun h => .inl (hanswers.1 h)⟩
    · next log heq =>
      rw [heq] at hkept
      by_cases hd : (sendTruncated t [] topic).1 = .delivered
      · simp only [hd]
        exact ⟨fun h => by contradiction, fun _ => .inl (hkept hd)⟩
      · simp only [hd]
        have hanswers := signalTruncation_answers t topic log
        exact ⟨hanswers.2, fun h => .inl (hanswers.1 h)⟩

/-! ## the dedup floor -/

def Marks.Ordered (m : Marks) : Prop := ∀ topic mark, m.map.get? topic = some mark → mark ≠ .nan

theorem le_of_not_lt {a b : JsNumber} (ha : a ≠ .nan) (hb : b ≠ .nan) (h : ¬ JsNumber.lt a b) :
    JsNumber.le b a := by
  by_contra hle
  exact h (JsNumber.lt_of_not_le hb ha hle)

variable {m : Marks}

theorem ceiling_cases (hm : m.Ordered) {entry : Entry} (hbefore : entry.before ≠ .nan) :
    (ceiling m entry = m.at entry.topic ∨ ceiling m entry = entry.before) ∧
      ceiling m entry ≠ .nan := by
  unfold ceiling
  split
  · next seen hseen =>
    split
    · rw [Marks.at, hseen]
      exact ⟨.inl rfl, hm _ _ hseen⟩
    · exact ⟨.inr rfl, hbefore⟩
  · exact ⟨.inr rfl, hbefore⟩

theorem dedupFloor_le (hm : m.Ordered) {entry : Entry} (hbefore : entry.before ≠ .nan)
    (coveredSeq : Option JsNumber) :
    dedupFloor m entry coveredSeq = .nan ∨
      JsNumber.le (dedupFloor m entry coveredSeq) (m.at entry.topic) ∨
      JsNumber.le (dedupFloor m entry coveredSeq) entry.before := by
  have hcases := ceiling_cases hm hbefore
  cases coveredSeq with
  | none => exact .inr (.inr (JsNumber.le_refl hbefore))
  | some covered =>
    simp only [dedupFloor]
    split
    · exact .inr (.inr (JsNumber.le_refl hbefore))
    · next hle =>
      by_cases hnan : covered = .nan
      · exact .inl hnan
      · have hcov := le_of_not_lt hcases.2 hnan hle
        cases hcases.1 with
        | inl heq => exact .inr (.inl (by rwa [← heq]))
        | inr heq => exact .inr (.inr (by rwa [← heq]))

theorem get?_requeue (map : JsMap String JsNumber) (key k : String) :
    (requeue map key).get? k = map.get? k := by
  unfold requeue
  split
  · rfl
  · next value hv =>
    rw [get?_set, JsMap.get?_delete]
    by_cases hk : k = key
    · rw [if_pos hk, hk, hv]
    · rw [if_neg hk, if_neg hk]

theorem get?_requeueAll (keys : List String) (map : JsMap String JsNumber) (k : String) :
    (keys.foldl requeue map).get? k = map.get? k := by
  induction keys generalizing map with
  | nil => rfl
  | cons key keys ih => rw [List.foldl_cons, ih, get?_requeue]

theorem ordered_delete (h : m.Ordered) (keys : List String) (victim : String)
    (recent : Finset String) :
    Marks.Ordered { map := keys.foldl requeue (m.map.delete victim), recent } := by
  intro topic mark hmark
  rw [get?_requeueAll] at hmark
  exact h topic mark (JsMap.of_get?_delete hmark).2

theorem ordered_evictOne (h : m.Ordered) : (evictOne m).Ordered := by
  unfold evictOne
  split
  split
  · exact ordered_delete h _ _ _
  · exact ordered_delete h _ _ _
  · exact h

theorem ordered_set (h : m.Ordered) (topic : String) {seq : JsNumber}
    (hseq : seq ≠ .nan) : Marks.Ordered { m with map := m.map.set topic seq } := by
  intro k mark hmark
  rw [get?_set] at hmark
  split at hmark
  · rwa [← Option.some.inj hmark]
  · exact h k mark hmark

theorem ordered_notePublishedSeq (h : m.Ordered) (topic : String) (seq : JsNumber)
    (authoritative : Bool) : (notePublishedSeq m topic seq authoritative).Ordered := by
  unfold notePublishedSeq
  split
  · exact h
  rename_i hseq
  split
  · have hrecent : Marks.Ordered (if m.map.size ≥ MAX_SEQ_TOPICS then
        { m with recent := noteRecentlyUsed m.recent topic } else m) := by
      split
      · exact h
      · exact h
    simp only
    split
    · exact ordered_set hrecent topic hseq
    · exact hrecent
  · split
    · apply ordered_set _ topic hseq
      split
      · exact ordered_evictOne h
      · exact h
    · exact h

/-! ## sessions -/

/-- A frame handed to the capture, with the connection it excludes. -/
structure Publication where
  topic : String
  frame : Frame
  excludeWs : Option Socket

/-- What a buffer was opened for: the topic, the connection, the handle, and
how much had been published by then. -/
structure Window where
  topic : String
  ws : Socket
  handle : Nat
  since : Nat

/-- The server's state and the open handles.  No function reads `published` and
`windows`: they are what the results are about. -/
structure Session where
  s : State
  handles : JsMap Nat Handle
  nextHandle : Nat
  published : List Publication
  windows : JsMap Nat Window

/-- What can happen next; a handle is known by its number. -/
inductive Action where
  | note (topic : String) (seq : JsNumber) (authoritative : Bool)
  | resetSeqState
  | begin (topics : List String) (ws : Socket)
  | publish (p : Publication)
  | truncate (i : Nat) (topic : String)
  | discard (i : Nat)
  | flush (t : Transport) (ws_compression_on : Bool) (i : Nat) (topic : String) (covered : Covered)

/-- Note what the buffers of a handle are for. -/
def noteWindows (ws : Socket) (i since : Nat) (entries : List Entry) (windows : JsMap Nat Window) :
    JsMap Nat Window :=
  entries.foldl (fun windows e => windows.set e.buffer { topic := e.topic, ws, handle := i, since })
    windows

def step (x : Session) : Action → Session
  | .note topic seq authoritative =>
    { x with s := { x.s with marks := notePublishedSeq x.s.marks topic seq authoritative } }
  | .resetSeqState => { x with s := { x.s with marks := resetSeqState } }
  | .begin topics ws =>
    let r := beginResumeCapture x.s topics ws
    { x with
      s := r.2
      handles := x.handles.set x.nextHandle r.1
      nextHandle := x.nextHandle + 1
      windows := noteWindows ws x.nextHandle x.published.length r.1.entries x.windows }
  | .publish p =>
    { x with s := captureResumeFrame x.s p.topic p.frame p.excludeWs
             published := x.published ++ [p] }
  | .truncate i topic =>
    match x.handles.get? i with
    | none => x
    | some h => { x with s := markResumeTruncated x.s h topic }
  | .discard i =>
    match x.handles.get? i with
    | none => x
    | some h =>
      let r := discardResumeCapture x.s h
      { x with s := r.2, handles := x.handles.set i r.1 }
  | .flush t on i topic covered =>
    match x.handles.get? i with
    | none => x
    | some h =>
      let r := flushResumeTopic t on x.s h topic (coveredSeqFor covered topic)
      { x with s := r.2.2.2, handles := x.handles.set i r.2.2.1 }

/-- All runs of the server. -/
def session : Machine Session Action where
  init := {
    s := { marks := resetSeqState, resumeBuffers := .empty, buffers := .empty, nextBuffer := 0 }
    handles := .empty, nextHandle := 0, published := [], windows := .empty }
  next x a := some (step x a)

/-- What has been published for a window since it was opened. -/
def heard (published : List Publication) (w : Window) : List Frame :=
  ((published.drop w.since).filter fun p =>
    decide (p.topic = w.topic) && decide (p.excludeWs ≠ some w.ws)).map (·.frame)

/-- A buffer holds what its window has heard, up to the bound. -/
structure Holds (published : List Publication) (w : Window) (b : Buffer) : Prop where
  ws : b.ws = w.ws
  frames : b.frames = (heard published w).take MAX_RESUME_BUFFERED_FRAMES
  overflow : b.overflow = decide (MAX_RESUME_BUFFERED_FRAMES < (heard published w).length)

/-- An entry of the handle `i` is registered, and its buffer holds its window. -/
structure Open (x : Session) (i : Nat) (ws : Socket) (e : Entry) : Prop where
  before : e.before ≠ .nan
  registered : ∃ set, x.s.resumeBuffers.get? e.topic = some set ∧ e.buffer ∈ set
  holds : ∃ w b, x.windows.get? e.buffer = some w ∧ w.topic = e.topic ∧ w.ws = ws ∧ w.handle = i ∧
    w.since ≤ x.published.length ∧ x.s.buffers.get? e.buffer = some b ∧ Holds x.published w b

/-- A registered buffer is known, and registered under its own topic. -/
structure Registered (x : Session) (topic : String) (set : List Nat) : Prop where
  nodup : set.Nodup
  known : ∀ id ∈ set, id < x.s.nextBuffer ∧ ∃ w, x.windows.get? id = some w ∧ w.topic = topic

/-- The invariant of all runs. -/
structure Inv (x : Session) : Prop where
  ordered : x.s.marks.Ordered
  sets : ∀ topic set, x.s.resumeBuffers.get? topic = some set → Registered x topic set
  handleIds : ∀ i h, x.handles.get? i = some h → i < x.nextHandle
  distinct : ∀ i h, x.handles.get? i = some h → (h.entries.map (·.buffer)).Nodup
  entries : ∀ i h, x.handles.get? i = some h → ∀ e ∈ h.entries, Open x i h.ws e

/-! ## what a window hears -/

theorem heard_append {published : List Publication} {w : Window} (hw : w.since ≤ published.length)
    (p : Publication) :
    heard (published ++ [p]) w = heard published w ++
      (if p.topic = w.topic ∧ p.excludeWs ≠ some w.ws then [p.frame] else []) := by
  simp only [heard]
  rw [List.drop_append_of_le_length hw, List.filter_append, List.map_append]
  by_cases h : p.topic = w.topic ∧ p.excludeWs ≠ some w.ws
  · simp [h.1, h.2]
  · rw [if_neg h]
    have hno : (decide (p.topic = w.topic) && decide (p.excludeWs ≠ some w.ws)) = false := by
      simpa using h
    rw [List.filter_cons, hno]
    rfl

theorem Holds.other {published : List Publication} {w : Window} {b : Buffer}
    (h : Holds published w b) (hw : w.since ≤ published.length) {p : Publication}
    (hp : p.topic ≠ w.topic) : Holds (published ++ [p]) w b := by
  have hsame : heard (published ++ [p]) w = heard published w := by
    rw [heard_append hw, if_neg fun hc => hp hc.1, List.append_nil]
  exact { ws := h.ws, frames := by rw [hsame, h.frames], overflow := by rw [hsame, h.overflow] }

theorem Holds.capture {published : List Publication} {w : Window} {b : Buffer}
    (h : Holds published w b) (hw : w.since ≤ published.length) {p : Publication}
    (hp : p.topic = w.topic) : Holds (published ++ [p]) w (b.capture p.frame p.excludeWs) := by
  have hadd := heard_append hw p
  unfold Buffer.capture
  by_cases hex : p.excludeWs = some b.ws
  · rw [if_pos hex]
    rw [if_neg fun hc => hc.2 (by rw [hex, h.ws]), List.append_nil] at hadd
    exact { ws := h.ws, frames := by rw [hadd, h.frames], overflow := by rw [hadd, h.overflow] }
  · rw [if_neg hex]
    rw [if_pos ⟨hp, fun hc => hex (by rw [hc, h.ws])⟩] at hadd
    have hlen : (heard (published ++ [p]) w).length = (heard published w).length + 1 := by
      rw [hadd]
      simp
    have hframes := congrArg List.length h.frames
    rw [List.length_take] at hframes
    split
    · next hfull =>
      -- the bound is reached, so the window has heard more than the buffer holds
      have hmore : MAX_RESUME_BUFFERED_FRAMES ≤ (heard published w).length := by omega
      exact {
        ws := h.ws
        frames := by rw [hadd, List.take_append_of_le_length hmore, h.frames]
        overflow := by
          rw [eq_comm, decide_eq_true_eq]
          omega }
    · next hroom =>
      exact {
        ws := h.ws
        frames := by
          rw [List.take_of_length_le (by omega), hadd]
          rw [h.frames, List.take_of_length_le (by omega)]
        overflow := by
          rw [h.overflow, decide_eq_false (by omega), decide_eq_false (by omega)] }

theorem get?_captureAll (f : Frame) (excludeWs : Option Socket) {set : List Nat} (hnodup : set.Nodup)
    (buffers : JsMap Nat Buffer) (id : Nat) :
    (set.foldl (captureInto f excludeWs) buffers).get? id =
      if id ∈ set then (buffers.get? id).map (Buffer.capture f excludeWs) else buffers.get? id := by
  induction set generalizing buffers with
  | nil => rfl
  | cons k set ih =>
    have hcons := List.nodup_cons.mp hnodup
    have hone : ∀ j, (captureInto f excludeWs buffers k).get? j =
        if j = k then (buffers.get? k).map (Buffer.capture f excludeWs) else buffers.get? j := by
      intro j
      unfold captureInto
      split
      · next hnone =>
        by_cases hj : j = k
        · rw [if_pos hj, hj, hnone]
          rfl
        · rw [if_neg hj]
      · next b hb =>
        rw [get?_set, hb]
        rfl
    rw [List.foldl_cons, ih hcons.2, hone]
    by_cases hid : id = k
    · rw [if_pos hid, if_neg (by rw [hid]; exact hcons.1), hid, if_pos List.mem_cons_self]
    · simp [hid]

/-! ## steps -/

variable {x : Session}

theorem inv_handles (h : Inv x) {handles : JsMap Nat Handle}
    (hsame : ∀ k, handles.get? k = x.handles.get? k) : Inv { x with handles } where
  ordered := h.ordered
  sets := fun topic set hset => { h.sets topic set hset with }
  handleIds := fun i hd hi => h.handleIds i hd (by rw [← hsame]; exact hi)
  distinct := fun i hd hi => h.distinct i hd (by rw [← hsame]; exact hi)
  entries := fun i hd hi e he => { h.entries i hd (by rw [← hsame]; exact hi) e he with }

theorem inv_marks (h : Inv x) {marks : Marks} (hm : marks.Ordered) :
    Inv { x with s := { x.s with marks } } where
  ordered := hm
  sets := fun topic set hset => { h.sets topic set hset with }
  handleIds := h.handleIds
  distinct := h.distinct
  entries := fun i hd hi e he => { h.entries i hd hi e he with }

variable {i : Nat} {e : Entry}

theorem Open.lt (hx : Inv x) {ws : Socket} (h : Open x i ws e) : e.buffer < x.s.nextBuffer := by
  obtain ⟨set, hset, hmem⟩ := h.registered
  exact ((hx.sets _ set hset).known _ hmem).1

theorem Marks.at_ne_nan (h : m.Ordered) (topic : String) : m.at topic ≠ .nan := by
  unfold Marks.at
  cases hm : m.map.get? topic with
  | none => simp [NO_MARK]
  | some mark => exact h topic mark hm

theorem inv_publish (h : Inv x) (p : Publication) : Inv (step x (.publish p)) := by
  simp only [step]
  unfold captureResumeFrame
  split
  · next hnone =>
    exact {
      ordered := h.ordered
      sets := fun topic set hset => { h.sets topic set hset with }
      handleIds := h.handleIds
      distinct := h.distinct
      entries := by
        intro i hd hi e he
        have hopen := h.entries i hd hi e he
        obtain ⟨set, hset, hmem⟩ := hopen.registered
        obtain ⟨w, b, hw, htopic, hws, hhandle, hsince, hb, hholds⟩ := hopen.holds
        have hne : p.topic ≠ w.topic := by
          intro heq
          rw [heq, htopic, hset] at hnone
          contradiction
        exact {
          before := hopen.before
          registered := ⟨set, hset, hmem⟩
          holds := ⟨w, b, hw, htopic, hws, hhandle, by simp only [List.length_append]; omega, hb,
            hholds.other hsince hne⟩ } }
  · next pset hpset =>
    have hreg := h.sets _ _ hpset
    have hget := get?_captureAll p.frame p.excludeWs hreg.nodup x.s.buffers
    exact {
      ordered := h.ordered
      sets := fun topic set hset => { h.sets topic set hset with }
      handleIds := h.handleIds
      distinct := h.distinct
      entries := by
        intro i hd hi e he
        have hopen := h.entries i hd hi e he
        obtain ⟨set, hset, hmem⟩ := hopen.registered
        obtain ⟨w, b, hw, htopic, hws, hhandle, hsince, hb, hholds⟩ := hopen.holds
        have hsince' : w.since ≤ (x.published ++ [p]).length := by
          simp only [List.length_append]
          omega
        refine ⟨hopen.before, ⟨set, hset, hmem⟩, ?_⟩
        by_cases heq : p.topic = w.topic
        · rw [heq, htopic, hset] at hpset
          obtain rfl := Option.some.inj hpset
          refine ⟨w, b.capture p.frame p.excludeWs, hw, htopic, hws, hhandle, hsince', ?_,
            hholds.capture hsince heq⟩
          rw [hget, if_pos hmem, hb]
          rfl
        · have hout : e.buffer ∉ pset := by
            intro hin
            obtain ⟨w', hw', htopic'⟩ := (hreg.known _ hin).2
            obtain rfl := Option.some.inj (hw.symm.trans hw')
            exact heq htopic'.symm
          refine ⟨w, b, hw, htopic, hws, hhandle, hsince', ?_, hholds.other hsince heq⟩
          rw [hget, if_neg hout, hb] }

theorem inv_truncate (h : Inv x) (i : Nat) (topic : String) : Inv (step x (.truncate i topic)) := by
  simp only [step]
  split
  · exact h
  unfold markResumeTruncated
  split
  · exact h
  rename_i entry hentry
  split
  · exact h
  rename_i c hc
  exact {
    ordered := h.ordered
    sets := fun topic set hset => { h.sets topic set hset with }
    handleIds := h.handleIds
    distinct := h.distinct
    entries := by
      intro j hd' hj e he
      have hopen := h.entries j hd' hj e he
      obtain ⟨w, b, hw, htopic, hws, hhandle, hsince, hb, hholds⟩ := hopen.holds
      refine ⟨hopen.before, hopen.registered, ?_⟩
      by_cases heq : e.buffer = entry.buffer
      · rw [heq, hc] at hb
        cases hb
        refine ⟨w, { c with truncated := true }, hw, htopic, hws, hhandle, hsince, ?_,
          { hholds with }⟩
        rw [heq, get?_set_self]
      · refine ⟨w, b, hw, htopic, hws, hhandle, hsince, ?_, hholds⟩
        rw [get?_set_ne _ _ heq, hb] }

/-- What `unregister` leaves registered. -/
theorem get?_unregister (s : State) (e : Entry) (topic : String) :
    ((unregister s e).resumeBuffers.get? topic = s.resumeBuffers.get? topic ∧ topic ≠ e.topic) ∨
    (topic = e.topic ∧ ∀ set, s.resumeBuffers.get? topic = some set →
      (unregister s e).resumeBuffers.get? topic =
        if (set.erase e.buffer).length = 0 then none else some (set.erase e.buffer)) ∨
    s.resumeBuffers.get? e.topic = none ∧ unregister s e = s := by
  unfold unregister
  cases hset : s.resumeBuffers.get? e.topic with
  | none => exact .inr (.inr ⟨rfl, rfl⟩)
  | some set =>
    simp only
    by_cases ht : topic = e.topic
    · refine .inr (.inl ⟨ht, fun set' hset' => ?_⟩)
      rw [ht, hset] at hset'
      cases hset'
      by_cases hlen : (set.erase e.buffer).length = 0
      · rw [if_pos hlen, if_pos hlen, ht]
        exact JsMap.get?_delete_self _ _
      · rw [if_neg hlen, if_neg hlen, ht]
        exact get?_set_self _ _ _
    · refine .inl ⟨?_, ht⟩
      split
      · exact JsMap.get?_delete_ne _ ht
      · exact get?_set_ne _ _ ht

theorem unregister_frame (s : State) (e : Entry) :
    (unregister s e).marks = s.marks ∧ (unregister s e).buffers = s.buffers ∧
      (unregister s e).nextBuffer = s.nextBuffer := by
  unfold unregister
  split
  · exact ⟨rfl, rfl, rfl⟩
  · simp only
    split <;> exact ⟨rfl, rfl, rfl⟩

theorem buffer_ne (h : Inv x) {j : Nat} {hd hd' : Handle}
    (hi : x.handles.get? i = some hd) (hj : x.handles.get? j = some hd') {e' : Entry}
    (he : e ∈ hd.entries) (he' : e' ∈ hd'.entries) (hne : j ≠ i ∨ e' ≠ e) :
    e'.buffer ≠ e.buffer := by
  intro heq
  obtain ⟨w, b, hw, -, -, hhandle, -⟩ := (h.entries i hd hi e he).holds
  obtain ⟨w', b', hw', -, -, hhandle', -⟩ := (h.entries j hd' hj e' he').holds
  rw [heq, hw] at hw'
  cases hw'
  have hij : j = i := hhandle'.symm.trans hhandle
  subst hij
  obtain rfl := Option.some.inj (hi.symm.trans hj)
  have hsame := List.inj_on_of_nodup_map (h.distinct _ _ hi) he' he heq
  cases hne with
  | inl hne => exact hne rfl
  | inr hne => exact hne hsame

theorem inv_unregister (h : Inv x) {hd : Handle}
    (hi : x.handles.get? i = some hd) (he : e ∈ hd.entries) :
    Inv { x with s := unregister x.s e
                 handles := x.handles.set i { hd with entries := hd.entries.erase e } } := by
  obtain ⟨hmarks, hbuffers, hnext⟩ := unregister_frame x.s e
  have hopen : ∀ {j hd' e'}, x.handles.get? j = some hd' → e' ∈ hd'.entries → (j ≠ i ∨ e' ≠ e) →
      Open { x with s := unregister x.s e
                    handles := x.handles.set i { hd with entries := hd.entries.erase e } }
        j hd'.ws e' := by
    intro j hd' e' hj he' hne
    have hold := h.entries j hd' hj e' he'
    have hbuf := buffer_ne h hi hj he he' hne
    obtain ⟨set, hset, hmem⟩ := hold.registered
    refine ⟨hold.before, ?_, ?_⟩
    · cases get?_unregister x.s e e'.topic with
      | inl hsame => exact ⟨set, hsame.1.trans hset, hmem⟩
      | inr hrest =>
        cases hrest with
        | inl herase =>
          have hmem' : e'.buffer ∈ set.erase e.buffer := (List.mem_erase_of_ne hbuf).mpr hmem
          have hlen : (set.erase e.buffer).length ≠ 0 := by
            have hpos := List.length_pos_of_mem hmem'
            omega
          refine ⟨set.erase e.buffer, ?_, hmem'⟩
          rw [herase.2 set hset, if_neg hlen]
        | inr hnone =>
          refine ⟨set, ?_, hmem⟩
          rw [hnone.2, hset]
    · obtain ⟨w, b, hw, htopic, hws, hhandle, hsince, hb, hholds⟩ := hold.holds
      refine ⟨w, b, hw, htopic, hws, hhandle, hsince, ?_, hholds⟩
      rw [hbuffers, hb]
  have hnodup : hd.entries.Nodup := List.Nodup.of_map _ (h.distinct i hd hi)
  exact {
    ordered := by rw [hmarks]; exact h.ordered
    sets := by
      intro topic set hset
      have hkeep : ∀ {set0}, x.s.resumeBuffers.get? topic = some set0 → set.Sublist set0 →
          Registered { x with s := unregister x.s e
                              handles := x.handles.set i { hd with entries := hd.entries.erase e } }
            topic set := by
        intro set0 hset0 hsub
        have hreg := h.sets topic set0 hset0
        exact {
          nodup := hreg.nodup.sublist hsub
          known := fun id hid => by
            rw [hnext]
            exact hreg.known id (hsub.subset hid) }
      cases get?_unregister x.s e topic with
      | inl hsame => exact hkeep (hsame.1.symm.trans hset) (List.Sublist.refl _)
      | inr hrest =>
        cases hrest with
        | inl herase =>
          cases hset0 : x.s.resumeBuffers.get? topic with
          | none =>
            have hnone : unregister x.s e = x.s := by
              unfold unregister
              rw [← herase.1, hset0]
            rw [hnone, hset0] at hset
            contradiction
          | some set0 =>
            have hset' := (herase.2 set0 hset0).symm.trans hset
            obtain ⟨-, ⟨⟩⟩ := Option.ite_none_left_eq_some.mp hset'
            exact hkeep hset0 List.erase_sublist
        | inr hnone =>
          rw [hnone.2] at hset
          exact hkeep hset (List.Sublist.refl _)
    handleIds := by
      intro j hd' hj
      rw [get?_set] at hj
      split at hj
      · next hji => exact hji ▸ h.handleIds i hd hi
      · exact h.handleIds j hd' hj
    distinct := by
      intro j hd' hj
      obtain ⟨-, rfl⟩ | ⟨-, hj⟩ := of_get?_set hj
      · exact (h.distinct i hd hi).sublist (List.erase_sublist.map _)
      · exact h.distinct j hd' hj
    entries := by
      intro j hd' hj e' he'
      obtain ⟨hji, rfl⟩ | ⟨hji, hj⟩ := of_get?_set hj
      · subst hji
        have hmem := (hnodup.mem_erase_iff).mp he'
        exact @hopen j hd e' hi hmem.2 (.inr hmem.1)
      · exact hopen hj he' (.inl hji) }

theorem get?_set_set {K V : Type} [DecidableEq K] (m : JsMap K V) (k : K) (v v' : V) (k' : K) :
    ((m.set k v).set k v').get? k' = (m.set k v').get? k' := by
  simp only [get?_set]
  split <;> rfl

theorem get?_set_same {K V : Type} [DecidableEq K] {m : JsMap K V} {k : K} {v : V}
    (h : m.get? k = some v) (k' : K) : (m.set k v).get? k' = m.get? k' := by
  rw [get?_set]
  split
  · next hk => rw [hk, h]
  · rfl

theorem inv_discard (h : Inv x) (i : Nat) : Inv (step x (.discard i)) := by
  simp only [step]
  split
  · exact h
  rename_i hd hi
  obtain ⟨ws, es⟩ := hd
  induction es generalizing x with
  | nil => exact inv_handles h (get?_set_same hi)
  | cons e es ih =>
    have hone := inv_unregister h hi List.mem_cons_self
    simp only [List.erase_cons_head] at hone
    have hrest := ih hone (get?_set_self _ _ _)
    exact inv_handles hrest fun k => (get?_set_set _ _ _ _ k).symm

theorem Handle.entry?_mem {h : Handle} {topic : String} (he : h.entry? topic = some e) :
    e ∈ h.entries ∧ e.topic = topic := by
  refine ⟨List.mem_of_find?_eq_some he, ?_⟩
  simpa using List.find?_some he

theorem inv_flush (h : Inv x) (t : Transport) (on : Bool) (i : Nat) (topic : String)
    (covered : Covered) : Inv (step x (.flush t on i topic covered)) := by
  simp only [step]
  split
  · exact h
  rename_i hd hi
  unfold flushResumeTopic
  split
  · exact inv_handles h (get?_set_same hi)
  · next entry hentry =>
    split
    · exact inv_handles h (get?_set_same hi)
    · exact inv_unregister h hi (Handle.entry?_mem hentry).1

theorem inv_openBuffer (h : Inv x) {ws : Socket} {es : List Entry}
    (hi : x.handles.get? i = some { ws, entries := es }) (topic : String) :
    let r := openBuffer x.s ws topic
    Inv { x with
      s := r.2
      handles := x.handles.set i { ws, entries := es ++ [r.1] }
      windows := x.windows.set r.1.buffer
        { topic := r.1.topic, ws, handle := i, since := x.published.length } } := by
  intro r
  have hget : ∀ k, r.2.resumeBuffers.get? k = if k = topic then
      some ((x.s.resumeBuffers.get? topic).getD [] ++ [x.s.nextBuffer])
      else x.s.resumeBuffers.get? k := fun k => get?_set _ _ _ _
  -- what was open stays open
  have hopen : ∀ {j hd e}, x.handles.get? j = some hd → e ∈ hd.entries →
      Open { x with
        s := r.2
        handles := x.handles.set i { ws, entries := es ++ [r.1] }
        windows := x.windows.set r.1.buffer
          { topic := r.1.topic, ws, handle := i, since := x.published.length } } j hd.ws e := by
    intro j hd e hj he
    have hold := h.entries j hd hj e he
    have hne : e.buffer ≠ x.s.nextBuffer := Nat.ne_of_lt (hold.lt h)
    obtain ⟨set, hset, hmem⟩ := hold.registered
    obtain ⟨w, b, hw, htopic, hws, hhandle, hsince, hb, hholds⟩ := hold.holds
    refine ⟨hold.before, ?_, w, b, ?_, htopic, hws, hhandle, hsince, ?_, hholds⟩
    · by_cases ht : e.topic = topic
      · refine ⟨set ++ [x.s.nextBuffer], ?_, List.mem_append_left _ hmem⟩
        rw [hget, if_pos ht, ← ht, hset]
        rfl
      · exact ⟨set, by rw [hget, if_neg ht, hset], hmem⟩
    · show (x.windows.set x.s.nextBuffer _).get? e.buffer = _
      rw [get?_set_ne _ _ hne, hw]
    · show (x.s.buffers.set x.s.nextBuffer _).get? e.buffer = _
      rw [get?_set_ne _ _ hne, hb]
  exact {
    ordered := h.ordered
    sets := by
      intro k set hset
      rw [hget] at hset
      -- a set of old buffers is known by its old windows
      have hknown : ∀ set0, x.s.resumeBuffers.get? k = some set0 → ∀ id ∈ set0,
          id ≠ x.s.nextBuffer ∧ id < x.s.nextBuffer + 1 ∧
            ∃ w, (x.windows.set x.s.nextBuffer
              { topic, ws, handle := i, since := x.published.length }).get? id = some w ∧
              w.topic = k := by
        intro set0 hset0 id hid
        obtain ⟨hlt, w, hw, hwk⟩ := (h.sets k set0 hset0).known id hid
        have hne := Nat.ne_of_lt hlt
        exact ⟨hne, by omega, w, by rw [get?_set_ne _ _ hne, hw], hwk⟩
      by_cases hk : k = topic
      · rw [if_pos hk, ← hk] at hset
        cases hset
        have hold : ∀ id ∈ (x.s.resumeBuffers.get? k).getD [],
            ∃ set0, x.s.resumeBuffers.get? k = some set0 ∧ id ∈ set0 := by
          intro id hid
          cases hset0 : x.s.resumeBuffers.get? k with
          | none => simp [hset0] at hid
          | some set0 => exact ⟨set0, rfl, by simpa [hset0] using hid⟩
        have hnodup : ((x.s.resumeBuffers.get? k).getD []).Nodup := by
          cases hset0 : x.s.resumeBuffers.get? k with
          | none => simp
          | some set0 => exact (h.sets k set0 hset0).nodup
        exact {
          nodup := by
            rw [List.nodup_append]
            refine ⟨hnodup, List.nodup_singleton _, ?_⟩
            intro id hid id' hid'
            obtain ⟨set0, hset0, hmem⟩ := hold id hid
            rw [List.mem_singleton.mp hid']
            exact (hknown set0 hset0 id hmem).1
          known := by
            intro id hid
            cases List.mem_append.mp hid with
            | inl hid =>
              obtain ⟨set0, hset0, hmem⟩ := hold id hid
              exact (hknown set0 hset0 id hmem).2
            | inr hid =>
              rw [List.mem_singleton.mp hid]
              exact ⟨Nat.lt_succ_self _, _, get?_set_self _ _ _, hk.symm⟩ }
      · rw [if_neg hk] at hset
        exact {
          nodup := (h.sets k set hset).nodup
          known := fun id hid => (hknown set hset id hid).2 }
    handleIds := by
      intro j hd hj
      rw [get?_set] at hj
      split at hj
      · next hji => exact hji ▸ h.handleIds i _ hi
      · exact h.handleIds j hd hj
    distinct := by
      intro j hd hj
      obtain ⟨-, rfl⟩ | ⟨-, hj⟩ := of_get?_set hj
      · simp only [List.map_append]
        rw [List.nodup_append]
        refine ⟨h.distinct i _ hi, List.nodup_singleton _, ?_⟩
        intro id hid id' hid'
        obtain ⟨e, he, rfl⟩ := List.mem_map.mp hid
        rw [List.mem_singleton.mp hid']
        exact Nat.ne_of_lt ((h.entries i _ hi e he).lt h)
      · exact h.distinct j hd hj
    entries := by
      intro j hd hj e he
      obtain ⟨hji, rfl⟩ | ⟨-, hj⟩ := of_get?_set hj
      · subst hji
        cases List.mem_append.mp he with
        | inl he => exact @hopen j { ws, entries := es } e hi he
        | inr he =>
          obtain rfl := List.mem_singleton.mp he
          refine ⟨Marks.at_ne_nan h.ordered topic, ⟨_, (hget topic).trans (if_pos rfl), by simp [r, openBuffer]⟩,
            _, _, get?_set_self _ _ _, rfl, rfl, rfl, le_rfl, get?_set_self _ _ _, ?_⟩
          have hnil : heard x.published
              { topic, ws, handle := j, since := x.published.length } = [] := by
            simp [heard]
          exact {
            ws := rfl
            frames := by
              show [] = List.take _ (heard x.published
                { topic, ws, handle := j, since := x.published.length })
              rw [hnil, List.take_nil]
            overflow := by
              show false = decide (_ < (heard x.published
                { topic, ws, handle := j, since := x.published.length }).length)
              rw [hnil]
              rfl }
      · exact hopen hj he }

theorem inv_openBuffers (h : Inv x) {ws : Socket} {es : List Entry}
    (hi : x.handles.get? i = some { ws, entries := es }) (topics : List String) :
    let r := openBuffers ws topics x.s
    Inv { x with
      s := r.2
      handles := x.handles.set i { ws, entries := es ++ r.1 }
      windows := noteWindows ws i x.published.length r.1 x.windows } := by
  induction topics generalizing x es with
  | nil =>
    simp only [openBuffers, List.append_nil]
    exact inv_handles h (get?_set_same hi)
  | cons topic topics ih =>
    have hone := inv_openBuffer h hi topic
    have hrest := ih hone (get?_set_self _ _ _)
    have hsame := inv_handles hrest fun k => (get?_set_set _ _ _ _ k).symm
    simpa only [openBuffers, noteWindows, List.foldl_cons, List.append_assoc,
      List.singleton_append] using hsame

theorem inv_begin (h : Inv x) (topics : List String) (ws : Socket) :
    Inv (step x (.begin topics ws)) := by
  -- the handle is fresh, and opens its topics one by one
  have hfresh : ∀ j hd, (x.handles.set x.nextHandle { ws, entries := [] }).get? j = some hd →
      j < x.nextHandle + 1 ∧ (j = x.nextHandle ∧ hd = { ws, entries := [] } ∨
        x.handles.get? j = some hd) := by
    intro j hd hj
    obtain ⟨hji, rfl⟩ | ⟨-, hj⟩ := of_get?_set hj
    · exact ⟨by omega, .inl ⟨hji, rfl⟩⟩
    · have hlt := h.handleIds j hd hj
      exact ⟨by omega, .inr hj⟩
  have hstart : Inv { x with
      handles := x.handles.set x.nextHandle { ws, entries := [] }
      nextHandle := x.nextHandle + 1 } := {
    ordered := h.ordered
    sets := fun topic set hset => { h.sets topic set hset with }
    handleIds := fun j hd hj => (hfresh j hd hj).1
    distinct := by
      intro j hd hj
      cases (hfresh j hd hj).2 with
      | inl hnew =>
        rw [hnew.2]
        exact List.nodup_nil
      | inr hold => exact h.distinct j hd hold
    entries := by
      intro j hd hj e he
      cases (hfresh j hd hj).2 with
      | inl hnew =>
        rw [hnew.2] at he
        contradiction
      | inr hold => exact { h.entries j hd hold e he with } }
  have hall := inv_openBuffers hstart (get?_set_self _ _ _) topics
  exact inv_handles hall fun k => (get?_set_set _ _ _ _ k).symm

theorem inv_step (h : Inv x) (a : Action) : Inv (step x a) := by
  cases a with
  | note topic seq authoritative =>
    exact inv_marks h (ordered_notePublishedSeq h.ordered topic seq authoritative)
  | resetSeqState => exact inv_marks h fun topic mark hmark => by simp [resetSeqState] at hmark
  | begin topics ws => exact inv_begin h topics ws
  | publish p => exact inv_publish h p
  | truncate i topic => exact inv_truncate h i topic
  | discard i => exact inv_discard h i
  | flush t on i topic covered => exact inv_flush h t on i topic covered

theorem windows_run {as : List Action} (h : session.Runs Any as x) : Inv x := by
  apply h.invariant
  · exact {
      ordered := fun topic mark hmark => by simp [session, resetSeqState] at hmark
      sets := fun topic set hset => by simp [session] at hset
      handleIds := fun i hd hi => by simp [session] at hi
      distinct := fun i hd hi => by simp [session] at hi
      entries := fun i hd hi => by simp [session] at hi }
  · intro s a s' hs _ hnext
    obtain rfl : step s a = s' := Option.some.inj hnext
    exact inv_step hs a

/-- **No silent gap on resume**: in every state of every run, whatever a flush
is told was covered and whatever the connection answers, a connection that
survives the flush took the marker, or the window was captured whole and every
frame of it that is not deduplicated was taken, in order and once.  The floor
is never above both the topic's mark now and its mark at window open.  A
connection that does not survive was ended or already gone. -/
theorem no_silent_gap {as : List Action} {x : Session} (h : session.Runs Any as x) {i : Nat}
    {hd : Handle} (hi : x.handles.get? i = some hd) {topic : String} {e : Entry}
    (he : hd.entry? topic = some e) (t : Transport) (on : Bool) (covered : Covered) :
    let r := flushResumeTopic t on x.s hd topic (coveredSeqFor covered topic)
    let floor := dedupFloor x.s.marks e (coveredSeqFor covered topic)
    (r.1 = false → MarkerTaken topic r.2.1 ∨
      ∃ w b, x.windows.get? e.buffer = some w ∧ w.topic = topic ∧ w.ws = hd.ws ∧
        x.s.buffers.get? e.buffer = some b ∧ b.frames = heard x.published w ∧
        List.Forall₂ (Accepted on) (b.frames.filter fun f => !deduplicated floor f) r.2.1) ∧
    (floor = .nan ∨ JsNumber.le floor (x.s.marks.at topic) ∨ JsNumber.le floor e.before) ∧
    (r.1 = true → ∃ y ∈ r.2.1, y.over = true) := by
  intro r floor
  have hinv := windows_run h
  obtain ⟨hmem, htopic⟩ := Handle.entry?_mem he
  have hopen := hinv.entries i hd hi e hmem
  obtain ⟨w, b, hw, hwt, hws, -, -, hb, hholds⟩ := hopen.holds
  have hfloor := dedupFloor_le hinv.ordered hopen.before (coveredSeqFor covered topic)
  rw [htopic] at hfloor
  have hreport := flushBuffer_report t on topic floor b
  have hr : (r.1, r.2.1) = flushBuffer t on topic floor b := by
    simp only [r, flushResumeTopic, he, hb]
    rfl
  have hr1 : r.1 = (flushBuffer t on topic floor b).1 := congrArg Prod.fst hr
  have hr2 : r.2.1 = (flushBuffer t on topic floor b).2 := congrArg Prod.snd hr
  rw [hr1, hr2]
  refine ⟨fun hsurvives => ?_, hfloor, hreport.1⟩
  cases hreport.2 hsurvives with
  | inl hmarker => exact .inl hmarker
  | inr hwhole =>
    have hroom : ¬ MAX_RESUME_BUFFERED_FRAMES < (heard x.published w).length := by
      have hover := hholds.overflow
      rw [hwhole.1, eq_comm, decide_eq_false_iff_not] at hover
      exact hover
    have hframes : b.frames = heard x.published w := by
      rw [hholds.frames, List.take_of_length_le (by omega)]
    exact .inr ⟨w, b, hw, hwt.trans htopic, hws, hb, hframes, hwhole.2.2⟩

/-- A connection that takes everything. -/
def taking : Transport :=
  { charge := fun _ _ => true, signalled := fun _ => false, control := fun _ _ => some .success,
    send := fun _ _ _ => some .backpressure, endThrows := fun _ _ => false }

def stamped (n : Nat) : Frame :=
  { seq := some (.ofNat n), envelope := toString n, compress := true, authoritative := true }

theorem no_silent_gap_example :
    let as : List Action := [.note "room" (.ofNat 5) true, .begin ["room"] 7,
      .publish ⟨"room", stamped 6, none⟩, .publish ⟨"room", stamped 7, none⟩,
      .note "room" (.ofNat 7) true]
    let x := as.foldl step session.init
    let hd : Handle := { ws := 7, entries := [{ topic := "room", buffer := 0, before := .ofNat 5 }] }
    let r := flushResumeTopic taking false x.s hd "room" (coveredSeqFor (.number (.ofNat 6)) "room")
    r.1 = false ∧ r.2.1 = [.sent "7" false (some .backpressure)] ∧
      (MarkerTaken "room" r.2.1 ∨ ∃ w b, x.windows.get? 0 = some w ∧ w.topic = "room" ∧ w.ws = 7 ∧
        x.s.buffers.get? 0 = some b ∧ b.frames = heard x.published w ∧
        List.Forall₂ (Accepted false) (b.frames.filter fun f => !deduplicated (.ofNat 6) f) r.2.1) := by
  intro as x hd r
  have hrun : session.Runs Any as x := runs_foldl (fun _ _ => rfl) fun _ _ _ => trivial
  have hr : r.1 = false ∧ r.2.1 = [.sent "7" false (some .backpressure)] := by decide +kernel
  have hmain := @no_silent_gap as x hrun 0 hd rfl "room" ⟨"room", 0, .ofNat 5⟩ rfl taking false
    (.number (.ofNat 6))
  exact ⟨hr.1, hr.2, hmain.1 hr.1⟩

end BunServe.Resume
