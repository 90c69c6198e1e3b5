import BunServe.Lib.JsMap
import BunServe.Lib.JsString
import BunServe.Lib.Machine
import Mathlib.Data.List.Chain
import Mathlib.Algebra.Order.Ring.Rat
import Mathlib.Tactic.Linarith

/-!
# BunServe.Throttle

The throttled and the debounced publisher (`plugins/throttle/server.js`).

A topic's entry holds the handle of its timer and the value that waits.  A
handle stays where it is when its timer has fired or been cleared, and is taken
for a timer all the same.  Time is exact; a timer fires once it is due, and the
clock does not pass an armed timer.

`fails` is where `platform.publish` throws during a call.  The log records what
was published, when, and which topics were taken out of the limiter.
-/

namespace BunServe.Throttle

open JsMap (get?_delete get?_set)

/-- The checked arguments of `throttle` and `debounce`. -/
structure Config where
  interval : ℚ
  maxTopics : Nat
  maxTopicLength : Nat
  interval_nonneg : 0 ≤ interval
  maxTopics_pos : 0 < maxTopics

/-- The two limiters. -/
inductive Kind where
  | throttle
  | debounce
  deriving DecidableEq

/-- What `state.timer` is: nothing, the handle of an armed timer, or the handle
of one that has fired or been cleared. -/
inductive Timer where
  | null
  | armed (due : ℚ)
  | spent
  deriving DecidableEq

/-- `clearTimer(state.timer)`, where there is one. -/
def Timer.clear : Timer → Timer
  | null => null
  | _ => spent

/-- The timer does not fire before `time`. -/
def Timer.notBefore (time : ℚ) : Timer → Bool
  | armed due => time ≤ due
  | _ => true

/-- A value that waits, and when it was accepted. -/
structure Pending (V : Type) where
  value : V
  accepted : ℚ
  deriving DecidableEq

/-- The entry of a topic. -/
structure Entry (V : Type) where
  timer : Timer
  pending : Option (Pending V)
  deriving DecidableEq

/-- What happened to a topic: a value went out on an edge, a flush or an eviction
took the topic out and sent what waited, or a cancel dropped it. -/
inductive Event (V : Type) where
  | published (topic : JsString) (value : V) (time : ℚ)
  | released (topic : JsString) (value : Option V)
  | discarded (topic : JsString) (value : Option V)
  deriving DecidableEq

/-- The limiter and the clock; `latest` is the last value accepted for a topic,
unless a cancel has dropped it. -/
structure State (V : Type) where
  topics : JsMap JsString (Entry V) := .empty
  now : ℚ := 0
  log : List (Event V) := []
  latest : JsMap JsString V := .empty

section Limiter

variable {V : Type} (config : Config)

/-- `validateTopic` lets the topic through. -/
def validTopic (topic : JsString) : Bool :=
  topic.length ≠ 0 && topic.length ≤ config.maxTopicLength

/-- The entry, with its timer cleared, is not taken out because the publish of
what waits throws. -/
def stuck (s : State V) (topic : JsString) (entry : Entry V) : State V :=
  { s with topics := s.topics.set topic { entry with timer := entry.timer.clear } }

/-- What waits goes out and the topic is taken out. -/
def release (s : State V) (topic : JsString) (entry : Entry V) : State V :=
  { s with
    topics := s.topics.delete topic
    log := s.log ++ [.released topic (entry.pending.map Pending.value)] }

/-- `evictOldestIfAtCap`: a publish that throws is caught, and the value is gone. -/
def evictOldestIfAtCap (fails : List JsString) (s : State V) : State V :=
  if s.topics.size < config.maxTopics then s
  else
    match s.topics.entries.head? with
    | none => s
    | some (oldestKey, entry) =>
      if oldestKey ∈ fails then release s oldestKey { entry with pending := none }
      else release s oldestKey entry

/-- `topics.get(topic)`, or a new entry. -/
def enter (fails : List JsString) (s : State V) (topic : JsString) : Entry V × State V :=
  match s.topics.get? topic with
  | some entry => (entry, s)
  | none =>
    let s := evictOldestIfAtCap config fails s
    let entry : Entry V := ⟨.null, none⟩
    (entry, { s with topics := s.topics.set topic entry })

def accept (s : State V) (topic : JsString) (value : V) (entry : Entry V) : State V :=
  { s with topics := s.topics.set topic entry, latest := s.latest.set topic value }

/-- `publish` of `throttle`: the leading edge, or the value waits. -/
def throttlePublish (fails : List JsString) (s : State V) (topic : JsString) (value : V) :
    State V :=
  let (entry, s) := enter config fails s topic
  if entry.timer = .null then
    if topic ∈ fails then s
    else
      accept { s with log := s.log ++ [.published topic value s.now] } topic value
        ⟨.armed (s.now + config.interval), none⟩
  else accept s topic value { entry with pending := some ⟨value, s.now⟩ }

/-- The timer of `throttle`. -/
def tick (fails : List JsString) (s : State V) (topic : JsString) (entry : Entry V) : State V :=
  match entry.pending with
  | some p =>
    if topic ∈ fails then { s with topics := s.topics.set topic ⟨.spent, none⟩ }
    else
      { s with
        topics := s.topics.set topic ⟨.armed (s.now + config.interval), none⟩
        log := s.log ++ [.published topic p.value s.now] }
  | none => { s with topics := s.topics.delete topic }

/-- `publish` of `debounce`: the value waits for a new timer. -/
def debouncePublish (fails : List JsString) (s : State V) (topic : JsString) (value : V) :
    State V :=
  let (_, s) := enter config fails s topic
  accept s topic value ⟨.armed (s.now + config.interval), some ⟨value, s.now⟩⟩

/-- The timer of `debounce`. -/
def settle (fails : List JsString) (s : State V) (topic : JsString) (entry : Entry V) : State V :=
  match entry.pending with
  | some p =>
    if topic ∈ fails then { s with topics := s.topics.set topic { entry with timer := .spent } }
    else
      { s with
        topics := s.topics.delete topic
        log := s.log ++ [.published topic p.value s.now] }
  | none => { s with topics := s.topics.delete topic }

/-- `flushOne`. -/
def flushOne (fails : List JsString) (s : State V) (topic : JsString) : State V :=
  match s.topics.get? topic with
  | none => s
  | some entry =>
    if entry.pending.isSome && topic ∈ fails then stuck s topic entry
    else release s topic entry

/-- The loop of `flushAll`: the entries stay until it is through. -/
def flushAllFrom (fails : List JsString) (s : State V) : List (JsString × Entry V) → State V
  | [] => { s with topics := .empty }
  | (topic, entry) :: entries =>
    if entry.pending.isSome && topic ∈ fails then stuck s topic entry
    else
      let s := stuck s topic entry
      flushAllFrom fails
        { s with log := s.log ++ [.released topic (entry.pending.map Pending.value)] } entries

/-- `flushAll`. -/
def flushAll (fails : List JsString) (s : State V) : State V :=
  flushAllFrom fails s s.topics.entries

/-- A cancel takes a topic out; the value that waited was the last accepted. -/
def discard (s : State V) (topic : JsString) (entry : Entry V) : State V :=
  { s with
    topics := s.topics.delete topic
    log := s.log ++ [.discarded topic (entry.pending.map Pending.value)]
    latest := if entry.pending.isSome then s.latest.delete topic else s.latest }

/-- `cancelOne`. -/
def cancelOne (s : State V) (topic : JsString) : State V :=
  match s.topics.get? topic with
  | none => s
  | some entry => discard s topic entry

/-- `cancelAll`. -/
def cancelAll (s : State V) : State V :=
  s.topics.entries.foldl (fun s e => discard s e.1 e.2) s

/-- What happens next. -/
inductive Action (V : Type) where
  | publish (topic : JsString) (value : V) (fails : List JsString)
  | fire (topic : JsString) (fails : List JsString)
  | flush (topic : Option JsString) (fails : List JsString)
  | cancel (topic : Option JsString)
  | advance (time : ℚ)

/-- One step of a limiter. -/
def next (kind : Kind) (s : State V) : Action V → Option (State V)
  | .publish topic value fails =>
    if validTopic config topic then
      match kind with
      | .throttle => some (throttlePublish config fails s topic value)
      | .debounce => some (debouncePublish config fails s topic value)
    else some s
  | .fire topic fails =>
    match s.topics.get? topic with
    | some entry =>
      match entry.timer with
      | .armed due =>
        if due ≤ s.now then
          match kind with
          | .throttle => some (tick config fails s topic entry)
          | .debounce => some (settle fails s topic entry)
        else none
      | _ => none
    | none => none
  | .flush (some topic) fails => some (flushOne fails s topic)
  | .flush none fails => some (flushAll fails s)
  | .cancel (some topic) => some (cancelOne s topic)
  | .cancel none => some (cancelAll s)
  | .advance time =>
    if s.now ≤ time ∧ s.topics.values.all fun e => e.timer.notBefore time then
      some { s with now := time }
    else none

/-- A limiter, from its creation. -/
def machine (kind : Kind) : Machine (State V) (Action V) := ⟨{}, next config kind⟩

/-- `platform.publish` does not throw. -/
def Quiet (_ : State V) : Action V → Prop
  | .publish _ _ fails => fails = []
  | .fire _ fails => fails = []
  | .flush _ fails => fails = []
  | _ => True

/-! ## one topic -/

def Event.topic : Event V → JsString
  | published topic _ _ => topic
  | released topic _ => topic
  | discarded topic _ => topic

def Event.sent : Event V → Option V
  | published _ value _ => some value
  | released _ value => value
  | discarded _ _ => none

def State.history (s : State V) (topic : JsString) : List (Event V) :=
  s.log.filter fun e => e.topic = topic

/-- The last value published on a topic. -/
def lastSent (history : List (Event V)) : Option V := (history.filterMap Event.sent).getLast?

/-- Two publishes on an edge, one right after the other, are the interval apart. -/
def Apart (interval : ℚ) : Event V → Event V → Prop
  | .published _ _ t, .published _ _ t' => t + interval ≤ t'
  | _, _ => True

/-- What a limiter has on a topic. -/
structure View (V : Type) where
  entry : Option (Entry V)
  latest : Option V
  history : List (Event V)

/-- What the limiter has on `topic`. -/
def State.view (s : State V) (topic : JsString) : View V :=
  ⟨s.topics.get? topic, s.latest.get? topic, s.history topic⟩

def View.waiting (w : View V) : Option V := (w.entry.bind Entry.pending).map Pending.value

/-- What the limiter promises of a topic. -/
structure Fine (kind : Kind) (now : ℚ) (w : View V) : Prop where
  /-- An entry has an armed timer, due within the interval, and what waits goes
  out or is superseded within the interval of its acceptance. -/
  armed : ∀ e, w.entry = some e → ∃ due, e.timer = .armed due ∧ now ≤ due ∧
    due ≤ now + config.interval ∧
    ∀ p, e.pending = some p → p.accepted ≤ now ∧ due ≤ p.accepted + config.interval
  /-- What was accepted last waits, or else was published last. -/
  latest : ∀ v, w.latest = some v → w.waiting.or (lastSent w.history) = some v
  /-- Throttled publishes with nothing else in between are the interval apart. -/
  spaced : kind = .throttle → w.history.IsChain (Apart config.interval)

/-! ## what every step keeps -/

/-- The next publish of a topic is not early. -/
def Cool (now : ℚ) (w : View V) : Prop :=
  ∀ topic v t, w.history.getLast? = some (.published topic v t) →
    t + config.interval ≤ now ∨
      ∃ e due, w.entry = some e ∧ e.timer = .armed due ∧ t + config.interval ≤ due

/-- What every step keeps of a topic. -/
def Kept (kind : Kind) (now : ℚ) (w : View V) : Prop :=
  Fine config kind now w ∧ (kind = .throttle → Cool config now w)

variable {config} {kind : Kind} {s s' : State V} {now : ℚ} {w : View V}

theorem lastSent_append (h : List (Event V)) (e : Event V) :
    lastSent (h ++ [e]) = e.sent.or (lastSent h) := by
  cases he : e.sent with
  | none | some v => simp [lastSent, he]

theorem isChain_append {h : List (Event V)} {e : Event V} (hc : h.IsChain (Apart config.interval))
    (he : ∀ e' ∈ h.getLast?, Apart config.interval e' e) :
    (h ++ [e]).IsChain (Apart config.interval) :=
  List.isChain_append.mpr ⟨hc, List.isChain_singleton _, by simpa using he⟩

variable {entry : Entry V}

theorem Kept.release (h : Kept config kind now w) (hw : w.entry = some entry) (topic : JsString) :
    Kept config kind now ⟨none, w.latest,
      w.history ++ [.released topic (entry.pending.map Pending.value)]⟩ := by
  refine ⟨{ armed := nofun, latest := fun v hv => ?_, spaced := fun hk => ?_ }, fun _ => ?_⟩
  · have hlast := h.1.latest v hv
    simp only [View.waiting, hw] at hlast
    simp only [lastSent_append]
    exact hlast
  · refine isChain_append (h.1.spaced hk) fun e' _ => ?_
    cases e' <;> trivial
  · intro topic v t hl
    simp at hl

theorem Kept.discard (h : Kept config kind now w) (hw : w.entry = some entry) (topic : JsString) :
    Kept config kind now ⟨none, if entry.pending.isSome then none else w.latest,
      w.history ++ [.discarded topic (entry.pending.map Pending.value)]⟩ := by
  refine ⟨{ armed := nofun, latest := fun v hv => ?_, spaced := fun hk => ?_ }, fun _ => ?_⟩
  · cases hp : entry.pending with
    | some p => simp [hp] at hv
    | none =>
      simp only [hp] at hv
      have hlast := h.1.latest v hv
      simp only [View.waiting, hw, Option.bind_some, hp] at hlast
      simp only [lastSent_append, Event.sent]
      exact hlast
  · refine isChain_append (h.1.spaced hk) fun e' _ => ?_
    cases e' <;> trivial
  · intro topic v t hl
    simp at hl

variable {due : ℚ}

theorem Kept.idle (h : Kept config kind now w) (hw : w.entry = some entry)
    (hp : entry.pending = none) (ht : entry.timer = .armed due) (hdue : due ≤ now) :
    Kept config kind now ⟨none, w.latest, w.history⟩ := by
  refine ⟨{ armed := nofun, latest := fun v hv => ?_, spaced := h.1.spaced }, fun hk => ?_⟩
  · have hlast := h.1.latest v hv
    simpa [View.waiting, hw, hp] using hlast
  intro topic v t hl
  refine .inl ?_
  cases h.2 hk topic v t hl with
  | inl h => exact h
  | inr h =>
    obtain ⟨e, due', he, ht', hle⟩ := h
    obtain rfl := Option.some.inj (hw.symm.trans he)
    obtain rfl := Timer.armed.inj (ht.symm.trans ht')
    exact hle.trans hdue

theorem Kept.edge (h : Kept config kind now w) (topic : JsString) {value : V} {latest : Option V}
    (hlatest : ∀ v, latest = some v → v = value)
    (hcool : ∀ topic v t, w.history.getLast? = some (.published topic v t) →
      t + config.interval ≤ now) :
    Kept config kind now ⟨some ⟨.armed (now + config.interval), none⟩, latest,
      w.history ++ [.published topic value now]⟩ := by
  have hpos := config.interval_nonneg
  refine ⟨{ armed := fun e he => ?_, latest := fun v hv => ?_, spaced := fun hk => ?_ },
    fun _ => ?_⟩
  · cases he
    exact ⟨_, rfl, by linarith, le_refl _, nofun⟩
  · simp [View.waiting, lastSent_append, Event.sent, hlatest v hv]
  · refine isChain_append (h.1.spaced hk) fun e' he' => ?_
    cases e' with
    | published topic v t => exact hcool topic v t he'
    | _ => trivial
  · intro topic v t hl
    simp only [List.getLast?_append, Option.some_or, Event.published.injEq] at hl
    obtain ⟨-, -, rfl⟩ := hl
    exact .inr ⟨_, _, rfl, rfl, le_refl _⟩

theorem Kept.wait (h : Kept config kind now w) (hw : w.entry = some entry)
    (value : V) :
    Kept config kind now ⟨some { entry with pending := some ⟨value, now⟩ }, some value,
      w.history⟩ := by
  obtain ⟨due, ht, hnow, hdue, -⟩ := h.1.armed entry hw
  refine ⟨{ armed := fun e he => ?_, latest := fun v hv => ?_, spaced := h.1.spaced }, fun hk => ?_⟩
  · cases he
    refine ⟨due, ht, hnow, hdue, fun p hp => ?_⟩
    cases hp
    exact ⟨le_refl _, hdue⟩
  · exact hv
  · intro topic v t hl
    cases h.2 hk topic v t hl with
    | inl hle => exact .inl hle
    | inr hle =>
      obtain ⟨e, due', he, ht', hle⟩ := hle
      obtain rfl := Option.some.inj (hw.symm.trans he)
      exact .inr ⟨_, due', rfl, ht', hle⟩

theorem kept_renew (w : View V) (value : V) :
    Kept config .debounce now ⟨some ⟨.armed (now + config.interval), some ⟨value, now⟩⟩,
      some value, w.history⟩ := by
  have hpos := config.interval_nonneg
  refine ⟨{ armed := fun e he => ?_, latest := fun v hv => ?_, spaced := nofun }, nofun⟩
  · cases he
    refine ⟨_, rfl, by linarith, le_refl _, fun p hp => ?_⟩
    cases hp
    exact ⟨le_refl _, le_refl _⟩
  · exact hv

theorem Kept.settle {p : Pending V} (h : Kept config .debounce now w)
    (hw : w.entry = some entry) (hp : entry.pending = some p) (topic : JsString) :
    Kept config .debounce now ⟨none, w.latest, w.history ++ [.published topic p.value now]⟩ := by
  refine ⟨{ armed := nofun, latest := fun v hv => ?_, spaced := nofun }, nofun⟩
  have hlast := h.1.latest v hv
  simpa [View.waiting, hw, hp, lastSent_append, Event.sent] using hlast

/-! ## what an operation does to every topic -/

/-- What is kept of every topic. -/
def Sound (config : Config) (kind : Kind) (s : State V) : Prop :=
  ∀ topic, Kept config kind s.now (s.view topic)

theorem history_append {e : Event V} (hlog : s'.log = s.log ++ [e]) (k : JsString) :
    s'.history k = if k = e.topic then s.history k ++ [e] else s.history k := by
  by_cases hk : k = e.topic
  · simp [State.history, hlog, hk]
  · simp [State.history, hlog, hk, Ne.symm hk]

theorem view_append {e : Event V} {entry : Option (Entry V)} {latest : Option V}
    (hlog : s'.log = s.log ++ [e])
    (hentry : ∀ k, s'.topics.get? k = if k = e.topic then entry else s.topics.get? k)
    (hlatest : ∀ k, s'.latest.get? k = if k = e.topic then latest else s.latest.get? k)
    (k : JsString) : s'.view k = if k = e.topic then
      ⟨entry, latest, s.history e.topic ++ [e]⟩ else s.view k := by
  unfold State.view
  rw [hentry, hlatest, history_append hlog]
  by_cases hk : k = e.topic
  · simp only [hk, if_true]
  · simp only [hk, if_false]

variable {topic : JsString}

theorem view_set {entry : Option (Entry V)} {latest : Option V} (hlog : s'.log = s.log)
    (hentry : ∀ k, s'.topics.get? k = if k = topic then entry else s.topics.get? k)
    (hlatest : ∀ k, s'.latest.get? k = if k = topic then latest else s.latest.get? k)
    (k : JsString) : s'.view k = if k = topic then
      ⟨entry, latest, s.history topic⟩ else s.view k := by
  unfold State.view State.history
  rw [hentry, hlatest, hlog]
  by_cases hk : k = topic
  · simp only [hk, if_true]
  · simp only [hk, if_false]

theorem get?_same {K W : Type} [DecidableEq K] (m : JsMap K W) (topic k : K) :
    m.get? k = if k = topic then m.get? topic else m.get? k := by
  by_cases hk : k = topic
  · rw [if_pos hk, hk]
  · rw [if_neg hk]

theorem Sound.of_view (h : Sound config kind s) {w : View V}
    (hnow : s'.now = s.now) (hview : ∀ k, s'.view k = if k = topic then w else s.view k)
    (hw : Kept config kind s.now w) : Sound config kind s' := by
  intro k
  rw [hnow, hview]
  by_cases hk : k = topic
  · rw [if_pos hk]
    exact hw
  · rw [if_neg hk]
    exact h k

theorem Sound.release (h : Sound config kind s)
    (he : s.topics.get? topic = some entry) : Sound config kind (release s topic entry) :=
  h.of_view rfl (view_append rfl (get?_delete _ _) (get?_same _ _))
    ((h topic).release he topic)

theorem Sound.discard (h : Sound config kind s)
    (he : s.topics.get? topic = some entry) : Sound config kind (discard s topic entry) := by
  refine h.of_view rfl (view_append rfl (get?_delete _ _) fun k => ?_)
    ((h topic).discard he topic)
  show (if entry.pending.isSome then s.latest.delete topic else s.latest).get? k = _
  split
  · exact get?_delete _ _ _
  · exact get?_same _ _ _

theorem Sound.idle (h : Sound config kind s)
    (he : s.topics.get? topic = some entry) (hp : entry.pending = none)
    (ht : entry.timer = .armed due) (hdue : due ≤ s.now) :
    Sound config kind { s with topics := s.topics.delete topic } :=
  h.of_view rfl (view_set rfl (get?_delete _ _) (get?_same _ _))
    ((h topic).idle he hp ht hdue)

theorem Sound.lead (h : Sound config kind s)
    (he : s.topics.get? topic = none) (value : V) (hk : kind = .throttle) :
    Sound config kind (accept
      { s with log := s.log ++ [.published topic value s.now] } topic value
        ⟨.armed (s.now + config.interval), none⟩) := by
  refine h.of_view rfl (view_append rfl (get?_set _ _ · _) (get?_set _ _ · _))
    ((h topic).edge topic (fun v hv => (Option.some.inj hv).symm) fun topic' v t hl => ?_)
  cases (h topic).2 hk topic' v t hl with
  | inl hle => exact hle
  | inr hle =>
    obtain ⟨e, due, he', -⟩ := hle
    rw [State.view, he] at he'
    contradiction

theorem Sound.wait (h : Sound config kind s) (he : s.topics.get? topic = some entry) (value : V) :
    Sound config kind (accept s topic value { entry with pending := some ⟨value, s.now⟩ }) :=
  h.of_view rfl (view_set rfl (get?_set _ _ · _) (get?_set _ _ · _))
    ((h topic).wait he value)

theorem Sound.renew (h : Sound config .debounce s) (topic : JsString) (value : V) :
    Sound config .debounce (accept s topic value
      ⟨.armed (s.now + config.interval), some ⟨value, s.now⟩⟩) :=
  h.of_view rfl (view_set rfl (get?_set _ _ · _) (get?_set _ _ · _))
    (kept_renew (s.view topic) value)

/-! ## the operations -/

theorem head_entries
    (h : s.topics.entries.head? = some (topic, entry)) : s.topics.get? topic = some entry :=
  JsMap.mem_entries_iff.mp (List.mem_of_mem_head? h)

theorem Sound.evict (h : Sound config kind s) :
    Sound config kind (evictOldestIfAtCap config [] s) := by
  unfold evictOldestIfAtCap
  split
  · exact h
  · split
    · exact h
    · next oldestKey entry he =>
      exact h.release (head_entries he)

theorem get?_evict (fails : List JsString) (he : s.topics.get? topic = none) :
    (evictOldestIfAtCap config fails s).topics.get? topic = none := by
  have hdelete (k : JsString) : (s.topics.delete k).get? topic = none := by
    rw [get?_delete, he, ite_self]
  unfold evictOldestIfAtCap
  split
  · exact he
  · split
    · exact he
    · split
      · exact hdelete _
      · exact hdelete _

theorem accept_set (s : State V) (topic : JsString) (value : V) (entry entry' : Entry V) :
    accept { s with topics := s.topics.set topic entry } topic value entry' =
      accept s topic value entry' := by
  unfold accept
  simp only [JsMap.set_set_self]

theorem Sound.throttlePublish (h : Sound config .throttle s) (topic : JsString) (value : V) :
    Sound config .throttle (throttlePublish config [] s topic value) := by
  unfold Throttle.throttlePublish enter
  cases he : s.topics.get? topic with
  | some entry =>
    obtain ⟨due, ht, -⟩ := (h topic).1.armed entry he
    dsimp only
    rw [if_neg (by simp [ht])]
    exact h.wait he value
  | none =>
    dsimp only
    have hlead := h.evict.lead (get?_evict [] he) value rfl
    rw [← accept_set _ _ _ ⟨.null, none⟩] at hlead
    exact hlead

theorem Sound.debouncePublish (h : Sound config .debounce s) (topic : JsString) (value : V) :
    Sound config .debounce (debouncePublish config [] s topic value) := by
  unfold Throttle.debouncePublish enter
  cases s.topics.get? topic with
  | some entry => exact h.renew topic value
  | none =>
    have hrenew := h.evict.renew topic value
    rw [← accept_set _ _ _ ⟨.null, none⟩] at hrenew
    exact hrenew

theorem Sound.tick (h : Sound config .throttle s)
    (he : s.topics.get? topic = some entry) (ht : entry.timer = .armed due)
    (hdue : due ≤ s.now) : Sound config .throttle (tick config [] s topic entry) := by
  unfold Throttle.tick
  split
  · next p hp =>
    refine h.of_view rfl (view_append rfl (get?_set _ _ · _) (get?_same _ _))
      ((h topic).edge topic (fun v hv => ?_) fun topic' v t hl => ?_)
    · have hlast := (h topic).1.latest v hv
      simp only [View.waiting, State.view, he, Option.bind_some, hp, Option.map_some,
        Option.some_or, Option.some.injEq] at hlast
      exact hlast.symm
    · cases (h topic).2 rfl topic' v t hl with
      | inl hle => exact hle
      | inr hle =>
        obtain ⟨e, due', he', ht', hle⟩ := hle
        obtain rfl := Option.some.inj (he.symm.trans he')
        obtain rfl := Timer.armed.inj (ht.symm.trans ht')
        exact hle.trans hdue
  · next hp => exact h.idle he hp ht hdue

theorem Sound.settle (h : Sound config .debounce s)
    (he : s.topics.get? topic = some entry) (ht : entry.timer = .armed due)
    (hdue : due ≤ s.now) : Sound config .debounce (settle [] s topic entry) := by
  unfold Throttle.settle
  split
  · next p hp =>
    exact h.of_view rfl (view_append rfl (get?_delete _ _) (get?_same _ _))
      ((h topic).settle he hp topic)
  · next hp => exact h.idle he hp ht hdue

theorem Sound.flushOne (h : Sound config kind s) (topic : JsString) :
    Sound config kind (flushOne [] s topic) := by
  unfold Throttle.flushOne
  split
  · exact h
  · next entry he =>
    rw [if_neg (by simp)]
    exact h.release he

theorem Sound.cancelOne (h : Sound config kind s) (topic : JsString) :
    Sound config kind (cancelOne s topic) := by
  unfold Throttle.cancelOne
  split
  · exact h
  · next entry he => exact h.discard he

/-! ### every topic at once -/

theorem Sound.foldl {f : State V → JsString → Entry V → State V}
    (hf : ∀ s topic entry, (f s topic entry).topics = s.topics.delete topic)
    (hsound : ∀ {s : State V} {topic entry}, Sound config kind s →
      s.topics.get? topic = some entry → Sound config kind (f s topic entry))
    {es : List (JsString × Entry V)} (h : Sound config kind s)
    (hnodup : (es.map Prod.fst).Nodup) (hes : ∀ e ∈ es, s.topics.get? e.1 = some e.2) :
    Sound config kind (es.foldl (fun s e => f s e.1 e.2) s) := by
  induction es generalizing s with
  | nil => exact h
  | cons e es ih =>
    obtain ⟨hnot, hnodup⟩ := List.nodup_cons.mp hnodup
    refine ih (hsound h (hes e (by simp))) hnodup fun e' he' => ?_
    have hne : e'.1 ≠ e.1 := fun heq => hnot (heq ▸ List.mem_map_of_mem he')
    rw [hf, JsMap.get?_delete_ne _ hne]
    exact hes e' (by simp [he'])

theorem Sound.all {f : State V → JsString → Entry V → State V}
    (hf : ∀ s topic entry, (f s topic entry).topics = s.topics.delete topic)
    (hsound : ∀ {s : State V} {topic entry}, Sound config kind s →
      s.topics.get? topic = some entry → Sound config kind (f s topic entry))
    (h : Sound config kind s) :
    Sound config kind (s.topics.entries.foldl (fun s e => f s e.1 e.2) s) :=
  h.foldl hf hsound s.topics.nodup fun _ he => JsMap.mem_entries_iff.mp he

theorem Sound.cancelAll (h : Sound config kind s) : Sound config kind (cancelAll s) :=
  h.all (fun _ _ _ => rfl) fun h he => h.discard he

/-- What `flushAll` records. -/
def releases (es : List (JsString × Entry V)) : List (Event V) :=
  es.map fun e => .released e.1 (e.2.pending.map Pending.value)

theorem flushAllFrom_eq (s : State V) (es : List (JsString × Entry V)) :
    flushAllFrom [] s es = { s with topics := .empty, log := s.log ++ releases es } := by
  induction es generalizing s with
  | nil => simp [flushAllFrom, releases]
  | cons e es ih =>
    rw [flushAllFrom, ih]
    simp [stuck, releases]

theorem foldl_release (s : State V) (es : List (JsString × Entry V)) :
    es.foldl (fun s e => release s e.1 e.2) s =
      { s with
        topics := (es.map Prod.fst).foldl JsMap.delete s.topics
        log := s.log ++ releases es } := by
  induction es generalizing s with
  | nil => simp [releases]
  | cons e es ih =>
    rw [List.foldl_cons, ih]
    simp [release, releases]

/-- Without a throw, `flushAll` releases one topic after the other. -/
theorem Sound.flushAll (h : Sound config kind s) : Sound config kind (flushAll [] s) := by
  have hall := h.all (fun _ _ _ => rfl) fun h he => h.release he
  rw [foldl_release] at hall
  rw [Throttle.flushAll, flushAllFrom_eq]
  intro topic
  have hempty :
      ((s.topics.entries.map Prod.fst).foldl JsMap.delete s.topics).get? topic = none := by
    rw [JsMap.get?_foldl_delete]
    split
    · rfl
    · next hmem => exact JsMap.get?_eq_none_iff.mpr hmem
  have hview := hall topic
  simp only [State.view, hempty] at hview
  exact hview

theorem Sound.advance (h : Sound config kind s) {time : ℚ} (hle : s.now ≤ time)
    (hall : s.topics.values.all (fun e => e.timer.notBefore time) = true) :
    Sound config kind { s with now := time } := by
  intro topic
  obtain ⟨hfine, hcool⟩ := h topic
  refine ⟨{ armed := fun e he => ?_, latest := hfine.latest, spaced := hfine.spaced }, fun hk => ?_⟩
  · obtain ⟨due, ht, -, hdue, hp⟩ := hfine.armed e he
    have hbefore := List.all_eq_true.mp hall e (JsMap.mem_values_iff.mpr ⟨topic, he⟩)
    rw [ht] at hbefore
    refine ⟨due, ht, of_decide_eq_true hbefore, by linarith, fun p hpp => ?_⟩
    obtain ⟨hacc, hdue'⟩ := hp p hpp
    exact ⟨hacc.trans hle, hdue'⟩
  · intro topic' v t hl
    cases hcool hk topic' v t hl with
    | inl ht => exact .inl (ht.trans hle)
    | inr ht => exact .inr ht

/-! ## runs -/

theorem Sound.next {a : Action V} (h : Sound config kind s) (hq : Quiet s a)
    (hn : Throttle.next config kind s a = some s') : Sound config kind s' := by
  cases a with
  | publish topic value fails =>
    obtain rfl : fails = [] := hq
    simp only [Throttle.next] at hn
    split at hn
    · cases kind with
      | throttle =>
        rw [← Option.some.inj hn]
        exact h.throttlePublish topic value
      | debounce =>
        rw [← Option.some.inj hn]
        exact h.debouncePublish topic value
    · rw [← Option.some.inj hn]
      exact h
  | fire topic fails =>
    obtain rfl : fails = [] := hq
    simp only [Throttle.next] at hn
    split at hn
    · next entry he =>
      split at hn
      · next due ht =>
        obtain ⟨hdue, hn⟩ := Option.ite_none_right_eq_some.mp hn
        cases kind with
        | throttle =>
          rw [← Option.some.inj hn]
          exact h.tick he ht hdue
        | debounce =>
          rw [← Option.some.inj hn]
          exact h.settle he ht hdue
      · contradiction
    · contradiction
  | flush topic fails =>
    obtain rfl : fails = [] := hq
    cases topic with
    | some topic =>
      rw [← Option.some.inj hn]
      exact h.flushOne topic
    | none =>
      rw [← Option.some.inj hn]
      exact h.flushAll
  | cancel topic =>
    cases topic with
    | some topic =>
      rw [← Option.some.inj hn]
      exact h.cancelOne topic
    | none =>
      rw [← Option.some.inj hn]
      exact h.cancelAll
  | advance time =>
    simp only [Throttle.next] at hn
    obtain ⟨hok, hn⟩ := Option.ite_none_right_eq_some.mp hn
    rw [← Option.some.inj hn]
    exact h.advance hok.1 hok.2

end Limiter

/-- Two values, a tick, and a topic that evicts the first. -/
def busy : List (Action Nat) :=
  [.publish [1] 1 [], .publish [1] 2 [], .advance 10, .fire [1] [], .publish [1] 3 [],
    .publish [2] 4 [], .cancel none]

end BunServe.Throttle
