import BunServe.Cursor

/-!
# BunServe.Cursor.Invariant

What holds of a tracker after every call.

* `Standing` — a key was shown on a topic, and what ended that came before;
* `Evicted`, `Gone` — a key's connection made room, or was removed, since the last clear;
* `Inv` — timers, dirty marks and standing keys are those of stored cursors, and a stored
  cursor is that of a connection that is held or made room.
-/

namespace BunServe.Cursor

open State (entry)

variable {N U D R B C : Type}

/-! ## the log -/

def Event.Shows (key : Key) : Event U D → Prop
  | .join k _ | .update k _ => k = key
  | .bulk entries => key ∈ entries.map Prod.fst
  | .catalog entries => key ∈ entries.map Prod.fst
  | _ => False

def Event.Carries (key : Key) : Event U D → Prop
  | .you k | .remove k => k = key
  | event => event.Shows key

def Item.Shows (topic : String) (key : Key) : Item U D → Prop
  | .published t event | .sent _ t event => t = topic ∧ event.Shows key
  | _ => False

def Item.Carries (key : Key) : Item U D → Prop
  | .published _ event | .sent _ _ event => event.Carries key
  | _ => False

/-- What ends that a key is shown: a remove, and that its topic or everything goes. -/
def Item.Ends (topic : String) (key : Key) : Item U D → Prop
  | .published t (.remove k) => t = topic ∧ k = key
  | .evictedTopic t => t = topic
  | .cleared => True
  | _ => False

/-- A key was shown on a topic, and nothing ended that since. -/
def Standing (topic : String) (key : Key) : List (Item U D) → Prop
  | [] => False
  | item :: log => item.Shows topic key ∨ ¬ item.Ends topic key ∧ Standing topic key log

def SinceClear (item : Item U D) : List (Item U D) → Prop
  | [] => False
  | i :: log => i = item ∨ i ≠ .cleared ∧ SinceClear item log

/-- The connection of a key made room since the last clear. -/
def Evicted (key : Key) (log : List (Item U D)) : Prop := SinceClear (.evictedConn key) log

/-- The connection of a key was removed since the last clear. -/
def Gone (key : Key) (log : List (Item U D)) : Prop := SinceClear (.removed key) log

def Item.Frame : Item U D → Prop
  | .published .. | .sent .. => True
  | _ => False

/-- Nothing names a key whose connection was removed, up to a clear. -/
def Silent (log : List (Item U D)) : Prop :=
  ∀ later key earlier, log = later ++ .removed key :: earlier → .cleared ∉ later →
    ∀ item ∈ later, ¬ item.Carries key

def Entry.handle (e : Entry N U D) : TimerKind → Option Nat
  | .trailing => e.timer
  | .settle => e.settleTimer

/-! ## the invariant -/

/-- A connection that is held has a key, and is on a topic. -/
def Holds (s : State N U D R) (topic : String) (key : Key) : Prop :=
  ∃ ws state, s.wsState.get? ws = some state ∧ state.key = key ∧ state.topics.has topic = true

/-- What holds after every call, but for the cursors that are owed. -/
structure Inv (owed : String → Key → Prop) (s : State N U D R) : Prop where
  timers : ∀ id τ, s.timers.get? id = some τ → s.topics.get? τ.topic = some τ.map ∧
    ∃ e, (s.maps (τ.topic, τ.map)).get? τ.key = some e ∧ e.handle τ.kind = some id
  dirty : ∀ topic flush key, s.topicFlush.get? topic = some flush → (flush.dirty.get? key).isSome →
    (s.entry topic key).isSome
  owned : ∀ topic key, (s.entry topic key).isSome → Holds s topic key ∨ Evicted key s.log
  held : ∀ ws state, s.wsState.get? ws = some state →
    state.key ≤ s.connCounter ∧ ¬ Evicted state.key s.log ∧ ¬ Gone state.key s.log
  keys : ∀ ws ws' state state', s.wsState.get? ws = some state → s.wsState.get? ws' = some state' →
    state.key = state'.key → ws = ws'
  evicted : ∀ key, Evicted key s.log → key ≤ s.connCounter
  gone : ∀ key, Gone key s.log → key ≤ s.connCounter ∧ ∀ topic, s.entry topic key = none
  shown : ∀ topic key, Standing topic key s.log → (s.entry topic key).isSome ∨ owed topic key
  silent : Silent s.log

abbrev nothing (_ : String) (_ : Key) : Prop := False

section

variable {o : Options N D R B C} {owed : String → Key → Prop} {s s' : State N U D R} {ws : Conn}
  {topic t : String} {key k : Key} {map : Nat}

theorem Inv.of_eq (h : Inv owed s) (hcounter : s'.connCounter = s.connCounter)
    (hwsState : s'.wsState = s.wsState) (hmaps : s'.maps = s.maps) (htopics : s'.topics = s.topics)
    (hflush : s'.topicFlush = s.topicFlush) (htimers : s'.timers = s.timers) (hlog : s'.log = s.log) :
    Inv owed s' := by
  obtain ⟨timers, dirty, owned, held, keys, evicted, gone, shown, silent⟩ := h
  constructor <;> simp only [entry, Holds, hcounter, hwsState, hmaps, htopics, hflush, htimers, hlog]
  · exact timers
  · exact dirty
  · exact owned
  · exact held
  · exact keys
  · exact evicted
  · exact gone
  · exact shown
  · exact silent

/-- The newest `removed` of a key. -/
theorem gone_of_mem {later earlier : List (Item U D)} (h : .cleared ∉ later) :
    Gone key (later ++ .removed key :: earlier) := by
  induction later with
  | nil => exact .inl rfl
  | cons i later ih =>
    rw [List.mem_cons, not_or] at h
    exact .inr ⟨fun heq => h.1 heq.symm, ih h.2⟩

theorem Silent.cons {item : Item U D} {log : List (Item U D)} (h : Silent log)
    (hcarries : ∀ key, item.Carries key → ¬ Gone key log) : Silent (item :: log) := by
  intro later key earlier heq hclear i hi
  cases later with
  | nil => cases hi
  | cons j later =>
    obtain ⟨rfl, hlog⟩ := List.cons.inj heq
    rw [List.mem_cons, not_or] at hclear
    rcases List.mem_cons.1 hi with rfl | hi
    · intro hc
      refine hcarries key hc ?_
      rw [hlog]
      exact gone_of_mem hclear.2
    · exact h later key earlier hlog hclear.2 i hi

theorem sinceClear_cons {item i : Item U D} {log : List (Item U D)} (hne : i ≠ item)
    (hclear : i ≠ .cleared) : SinceClear item (i :: log) ↔ SinceClear item log := by
  simp [SinceClear, hne, hclear]

theorem Inv.frame (h : Inv owed s) (item : Item U D) (hframe : item.Frame)
    (hshows : ∀ t k, item.Shows t k → (s.entry t k).isSome ∨ owed t k)
    (hcarries : ∀ k, item.Carries k → ¬ Gone k s.log) : Inv owed { s with log := item :: s.log } := by
  have hclear : item ≠ .cleared := fun heq => by
    rw [heq] at hframe
    exact hframe
  have hev : ∀ k, Evicted k (item :: s.log) ↔ Evicted k s.log := fun k =>
    sinceClear_cons (fun heq => by rw [heq] at hframe; exact hframe) hclear
  have hgone : ∀ k, Gone k (item :: s.log) ↔ Gone k s.log := fun k =>
    sinceClear_cons (fun heq => by rw [heq] at hframe; exact hframe) hclear
  refine ⟨h.timers, h.dirty, ?_, ?_, h.keys, ?_, ?_, ?_, h.silent.cons hcarries⟩
  · intro topic key hsome
    rw [hev]
    exact h.owned topic key hsome
  · intro ws state hget
    rw [hev, hgone]
    exact h.held ws state hget
  · intro key hkey
    exact h.evicted key ((hev key).1 hkey)
  · intro key hkey
    exact h.gone key ((hgone key).1 hkey)
  · rintro topic key (hshow | ⟨-, hrest⟩)
    · exact hshows topic key hshow
    · exact h.shown topic key hrest

theorem Inv.frames (h : Inv owed s) (items : List (Item U D)) (hframes : ∀ i ∈ items, i.Frame)
    (hshows : ∀ i ∈ items, ∀ t k, i.Shows t k → (s.entry t k).isSome ∨ owed t k)
    (hcarries : ∀ i ∈ items, ∀ k, i.Carries k → ∃ t, (s.entry t k).isSome) :
    Inv owed { s with log := items ++ s.log } := by
  induction items with
  | nil => exact h
  | cons i items ih =>
    have hrest := ih (fun i hi => hframes i (List.mem_cons_of_mem _ hi))
      (fun i hi => hshows i (List.mem_cons_of_mem _ hi))
      (fun i hi => hcarries i (List.mem_cons_of_mem _ hi))
    refine hrest.frame i (hframes i List.mem_cons_self) (hshows i List.mem_cons_self)
      fun k hc hgone => ?_
    obtain ⟨t, hsome⟩ := hcarries i List.mem_cons_self k hc
    have hnone : s.entry t k = none := (hrest.gone k hgone).2 t
    rw [hnone] at hsome
    cases hsome

/-! ## connections -/

theorem dropViewports_eq (s : State N U D R) (key : Key) : ∃ topicReporters subViewport,
    dropViewports s key = { s with
      topicReporters
      subViewport } := by
  unfold dropViewports
  split
  · exact ⟨_, _, rfl⟩
  · exact ⟨_, _, rfl⟩

theorem Inv.dropViewports (h : Inv owed s) (key : Key) : Inv owed (dropViewports s key) := by
  obtain ⟨topicReporters, subViewport, heq⟩ := dropViewports_eq s key
  rw [heq]
  exact h.of_eq rfl rfl rfl rfl rfl rfl rfl

theorem Inv.leave {state : WsState U} {item : Item U D} (h : Inv owed s)
    (hget : s.wsState.get? ws = some state)
    (hitem : item = .evictedConn state.key ∨
      item = .removed state.key ∧ ∀ t, s.entry t state.key = none) :
    Inv owed { s with wsState := s.wsState.delete ws, log := item :: s.log } := by
  have hkey : ∀ k, item = .evictedConn k ∨ item = .removed k → k = state.key := by
    rcases hitem with rfl | ⟨rfl, -⟩ <;> simp [eq_comm]
  have hclear : item ≠ .cleared ∧ ∀ k, ¬ item.Carries k := by
    rcases hitem with rfl | ⟨rfl, -⟩ <;> exact ⟨nofun, fun _ => id⟩
  have hsince : ∀ {i}, SinceClear i (item :: s.log) → item = i ∨ SinceClear i s.log :=
    Or.imp_right And.right
  refine ⟨h.timers, h.dirty, fun topic key hsome => ?_, fun ws' state' heq => ?_,
    fun ws₁ ws₂ st₁ st₂ h₁ h₂ => h.keys ws₁ ws₂ st₁ st₂ (JsMap.of_get?_delete h₁).2
      (JsMap.of_get?_delete h₂).2,
    fun key hev => ?_, fun key hgone => ?_, ?_, h.silent.cons fun k hc => (hclear.2 k hc).elim⟩
  · rcases h.owned topic key hsome with ⟨ws', state', heq, rfl, hmem⟩ | hev
    · by_cases hws : ws' = ws
      · subst hws
        cases hget.symm.trans heq
        rcases hitem with rfl | ⟨-, hnone⟩
        · exact .inr (.inl rfl)
        · have hold : (s.entry topic state.key).isSome := hsome
          simp [hnone] at hold
      · exact .inl ⟨ws', state', (JsMap.get?_delete_ne _ hws).trans heq, rfl, hmem⟩
    · exact .inr (.inr ⟨hclear.1, hev⟩)
  · obtain ⟨hne, hold⟩ := JsMap.of_get?_delete heq
    obtain ⟨hle, hnev, hngone⟩ := h.held ws' state' hold
    have hother : state'.key ≠ state.key := fun heq => hne (h.keys ws' ws state' state hold hget heq)
    exact ⟨hle, fun hev => (hsince hev).elim (fun hi => hother (hkey _ (.inl hi))) hnev,
      fun hgone => (hsince hgone).elim (fun hi => hother (hkey _ (.inr hi))) hngone⟩
  · rcases hsince hev with hi | hev
    · exact hkey key (.inl hi) ▸ (h.held ws state hget).1
    · exact h.evicted key hev
  · rcases hsince hgone with rfl | hgone
    · rcases hitem with hi | ⟨hi, hnone⟩
      · cases hi
      · cases hi
        exact ⟨(h.held ws state hget).1, hnone⟩
    · exact h.gone key hgone
  · rintro topic key (hshow | ⟨-, hrest⟩)
    · rcases hitem with rfl | ⟨rfl, -⟩ <;> exact hshow.elim
    · exact h.shown topic key hrest

theorem Inv.evictConn (h : Inv owed s) : Inv owed (evictConn s) := by
  unfold Cursor.evictConn
  split
  · exact h
  split
  · exact h
  · next evicted hget =>
    obtain ⟨topicReporters, subViewport, heq⟩ := dropViewports_eq s evicted.key
    have hdrop := h.dropViewports evicted.key
    rw [heq] at hdrop ⊢
    exact hdrop.leave hget (.inl rfl)

theorem wsState_evictConn (h : s.wsState.get? ws = none) : (Cursor.evictConn s).wsState.get? ws = none := by
  unfold Cursor.evictConn
  split
  · exact h
  · split
    · exact h
    · next evicted _ =>
      obtain ⟨topicReporters, subViewport, heq⟩ := dropViewports_eq s evicted.key
      rw [heq]
      simp only [JsMap.get?_delete, h, ite_self]

theorem Inv.newConn {user : U} (h : Inv owed s) (hnone : s.wsState.get? ws = none) :
    Inv owed { s with
      connCounter := s.connCounter + 1
      wsState := s.wsState.set ws { key := s.connCounter + 1, user, topics := .empty } } := by
  have hget : ∀ ws' state', (s.wsState.set ws { key := s.connCounter + 1, user, topics := .empty }).get? ws' =
      some state' → ws' = ws ∧ state'.key = s.connCounter + 1 ∨ s.wsState.get? ws' = some state' := by
    intro ws' state' heq
    obtain ⟨hsame, rfl⟩ | ⟨-, heq⟩ := JsMap.of_get?_set heq
    · exact .inl ⟨hsame, rfl⟩
    · exact .inr heq
  refine ⟨h.timers, h.dirty, fun topic key hsome => ?_, fun ws' state' heq => ?_,
    fun ws₁ ws₂ st₁ st₂ h₁ h₂ heq => ?_, fun key hev => Nat.le_succ_of_le (h.evicted key hev),
    fun key hkey => ⟨Nat.le_succ_of_le (h.gone key hkey).1, (h.gone key hkey).2⟩, h.shown, h.silent⟩
  · refine (h.owned topic key hsome).imp_left ?_
    rintro ⟨ws', state', hold, hkey, hmem⟩
    refine ⟨ws', state', (JsMap.get?_set_ne _ _ ?_).trans hold, hkey, hmem⟩
    rintro rfl
    cases hnone.symm.trans hold
  · rcases hget _ _ heq with ⟨-, hkey⟩ | hold
    · rw [hkey]
      refine ⟨le_rfl, fun hev => ?_, fun hgone => ?_⟩
      · exact Nat.not_succ_le_self _ (h.evicted _ hev)
      · exact Nat.not_succ_le_self _ (h.gone _ hgone).1
    · obtain ⟨hle, hnot⟩ := h.held ws' state' hold
      exact ⟨Nat.le_succ_of_le hle, hnot⟩
  · rcases hget _ _ h₁ with ⟨hws₁, hkey₁⟩ | hold₁
    · rcases hget _ _ h₂ with ⟨hws₂, -⟩ | hold₂
      · exact hws₁.trans hws₂.symm
      · have hle := (h.held ws₂ st₂ hold₂).1
        rw [← heq, hkey₁] at hle
        exact absurd hle (Nat.not_succ_le_self _)
    · rcases hget _ _ h₂ with ⟨-, hkey₂⟩ | hold₂
      · have hle := (h.held ws₁ st₁ hold₁).1
        rw [heq, hkey₂] at hle
        exact absurd hle (Nat.not_succ_le_self _)
      · exact h.keys ws₁ ws₂ st₁ st₂ hold₁ hold₂ heq

theorem Inv.getWsState (user : U) (h : Inv owed s) (ws : Conn) :
    Inv owed (getWsState o s ws user).2 := by
  unfold Cursor.getWsState
  split
  · exact h
  rename_i hnone
  have hroom : Inv owed (if s.wsState.size ≥ o.maxConnections then Cursor.evictConn s else s) := by
    split
    · exact h.evictConn
    · exact h
  have hnone' : (if s.wsState.size ≥ o.maxConnections then Cursor.evictConn s else s).wsState.get? ws =
      none := by
    split
    · exact wsState_evictConn hnone
    · exact hnone
  exact hroom.newConn hnone'

theorem wsState_getWsState (ws : Conn) (user : U) :
    (Cursor.getWsState o s ws user).2.wsState.get? ws = some (Cursor.getWsState o s ws user).1 := by
  unfold Cursor.getWsState
  split
  · next heq => exact heq
  · exact JsMap.get?_set_self _ _ _

theorem Inv.addTopic {state : WsState U} (h : Inv owed s) (hget : s.wsState.get? ws = some state)
    (topic : String) : Inv owed { s with
      wsState := s.wsState.set ws { state with topics := state.topics.set topic () } } := by
  have hget' : ∀ ws' state',
      (s.wsState.set ws { state with topics := state.topics.set topic () }).get? ws' = some state' →
        ∃ old, s.wsState.get? ws' = some old ∧ old.key = state'.key := by
    intro ws' state' heq
    rw [JsMap.get?_set] at heq
    split at heq
    · next hsame =>
      subst hsame
      cases heq
      exact ⟨state, hget, rfl⟩
    · exact ⟨state', heq, rfl⟩
  refine ⟨h.timers, h.dirty, fun t key hsome => ?_, fun ws' state' heq => ?_,
    fun ws₁ ws₂ st₁ st₂ h₁ h₂ heq => ?_, h.evicted, h.gone, h.shown, h.silent⟩
  · refine (h.owned t key hsome).imp_left ?_
    rintro ⟨ws', state', hold, hkey, hmem⟩
    by_cases hws : ws' = ws
    · subst hws
      cases hget.symm.trans hold
      refine ⟨ws', _, JsMap.get?_set_self _ _ _, hkey, ?_⟩
      simp only [JsMap.has, JsMap.get?_set] at hmem ⊢
      split
      · rfl
      · exact hmem
    · exact ⟨ws', state', (JsMap.get?_set_ne _ _ hws).trans hold, hkey, hmem⟩
  · obtain ⟨old, hold, hkey⟩ := hget' _ _ heq
    rw [← hkey]
    exact h.held ws' old hold
  · obtain ⟨old₁, hold₁, hkey₁⟩ := hget' _ _ h₁
    obtain ⟨old₂, hold₂, hkey₂⟩ := hget' _ _ h₂
    exact h.keys ws₁ ws₂ old₁ old₂ hold₁ hold₂ (by rw [hkey₁, hkey₂, heq])

/-! ## topics -/

theorem get?_clearTimers (timers : JsMap Nat Timer) (entries : List (Entry N U D)) (id : Nat) :
    (clearTimers timers entries).get? id =
      if id ∈ entries.flatMap Entry.handles then none else timers.get? id :=
  JsMap.get?_foldl_delete ..

theorem mem_handles {e : Entry N U D} {kind : TimerKind} {id : Nat} (h : e.handle kind = some id) :
    id ∈ e.handles := by
  unfold Entry.handles
  cases kind with
  | trailing => simp [show e.timer = some id from h]
  | settle => simp [show e.settleTimer = some id from h]

theorem Inv.timer_entry {id : Nat} {τ : Timer} (h : Inv owed s) (hget : s.timers.get? id = some τ) :
    ∃ e, s.entry τ.topic τ.key = some e ∧ e.handle τ.kind = some id := by
  obtain ⟨hmap, e, he, hid⟩ := h.timers id τ hget
  exact ⟨e, by rw [entry, hmap]; exact he, hid⟩

theorem entry_eq (h : s.topics.get? topic = some map) :
    s.entry topic key = (s.maps (topic, map)).get? key := by
  rw [entry, h, Option.bind_some]

theorem Inv.closeTopic (h : Inv owed s) (htopic : s.topics.get? topic = some map) :
    Inv owed (clearTopicFlush
      { s with
        timers := clearTimers s.timers (s.maps (topic, map)).values
        topics := s.topics.delete topic
        log := .evictedTopic topic :: s.log } topic) := by
  have hentry : ∀ t k, (clearTopicFlush
      { s with
        timers := clearTimers s.timers (s.maps (topic, map)).values
        topics := s.topics.delete topic
        log := .evictedTopic topic :: s.log } topic).entry t k =
      if t = topic then none else s.entry t k := by
    intro t k
    unfold entry clearTopicFlush
    simp only [JsMap.get?_delete]
    split <;> rfl
  have hev : ∀ k, Evicted k (.evictedTopic topic :: s.log) ↔ Evicted k s.log :=
    fun k => sinceClear_cons (by simp) (by simp)
  have hgone : ∀ k, Gone k (.evictedTopic topic :: s.log) ↔ Gone k s.log :=
    fun k => sinceClear_cons (by simp) (by simp)
  refine ⟨fun id τ hget => ?_, fun t flush key hget hsome => ?_, fun t key hsome => ?_,
    fun ws state hget => ?_, h.keys, fun key hkey => h.evicted key ((hev key).1 hkey), fun key hkey => ?_,
    fun t key hstanding => ?_, h.silent.cons fun _ => False.elim⟩
  · replace hget : (clearTimers s.timers (s.maps (topic, map)).values).get? id = some τ := hget
    rw [get?_clearTimers] at hget
    split at hget
    · cases hget
    rename_i hnot
    obtain ⟨hmap, e, he, hid⟩ := h.timers id τ hget
    have hne : τ.topic ≠ topic := by
      intro heq
      rw [heq] at hmap he
      cases htopic.symm.trans hmap
      exact hnot (List.mem_flatMap.2 ⟨e, JsMap.mem_values_iff.2 ⟨_, he⟩, mem_handles hid⟩)
    exact ⟨(JsMap.get?_delete_ne _ hne).trans hmap, e, he, hid⟩
  · obtain ⟨hne, hget⟩ := JsMap.of_get?_delete hget
    rw [hentry, if_neg hne]
    exact h.dirty t flush key hget hsome
  · rw [hentry] at hsome
    split at hsome
    · cases hsome
    · exact (h.owned t key hsome).imp_right (hev key).2
  · obtain ⟨hle, hnev, hngone⟩ := h.held ws state hget
    exact ⟨hle, fun hx => hnev ((hev _).1 hx), fun hx => hngone ((hgone _).1 hx)⟩
  · obtain ⟨hle, hnone⟩ := h.gone key ((hgone key).1 hkey)
    refine ⟨hle, fun t => ?_⟩
    rw [hentry, hnone, ite_self]
  · rcases hstanding with hshow | ⟨hends, hrest⟩
    · exact hshow.elim
    · rw [hentry, if_neg fun heq => hends heq.symm]
      exact h.shown t key hrest

theorem Inv.evictTopic (h : Inv owed s) : Inv owed (evictTopic s) := by
  unfold Cursor.evictTopic
  split
  · exact h
  · split
    · exact h
    · next htopic => exact h.closeTopic htopic

theorem evictTopic_eq (s : State N U D R) : ∃ timers topicFlush dirtyTopics log topics,
    Cursor.evictTopic s = { s with
      timers
      topicFlush
      dirtyTopics
      log
      topics } ∧ ∀ topic, s.topics.get? topic = none → topics.get? topic = none := by
  unfold Cursor.evictTopic
  split
  · exact ⟨_, _, _, _, _, rfl, fun _ => id⟩
  · split
    · exact ⟨_, _, _, _, _, rfl, fun _ => id⟩
    · exact ⟨_, _, _, _, _, rfl, fun topic hnone => by rw [JsMap.get?_delete, hnone, ite_self]⟩

theorem Inv.newTopic (h : Inv owed s) (hnone : s.topics.get? topic = none) :
    Inv owed { s with
      topics := s.topics.set topic s.mapCounter
      maps := Function.update s.maps (topic, s.mapCounter) .empty
      mapCounter := s.mapCounter + 1 } := by
  have hmaps : ∀ t map, t ≠ topic →
      Function.update s.maps (topic, s.mapCounter) .empty (t, map) = s.maps (t, map) :=
    fun t map hne => Function.update_of_ne (fun heq => hne (Prod.ext_iff.1 heq).1) _ _
  have hentry : ∀ t k, entry { s with
      topics := s.topics.set topic s.mapCounter
      maps := Function.update s.maps (topic, s.mapCounter) .empty
      mapCounter := s.mapCounter + 1 } t k = s.entry t k := by
    intro t k
    unfold entry
    simp only [JsMap.get?_set]
    by_cases ht : t = topic
    · subst ht
      simp [hnone]
    · simp only [ht, if_false, hmaps _ _ ht]
  refine ⟨fun id τ hget => ?_, fun t flush key hget hsome => ?_, fun t key hsome => ?_, h.held, h.keys,
    h.evicted, fun key hkey => ?_, fun t key hstanding => ?_, h.silent⟩
  · obtain ⟨hmap, e, he, hid⟩ := h.timers id τ hget
    have hne : τ.topic ≠ topic := by
      intro heq
      rw [heq] at hmap
      cases hnone.symm.trans hmap
    exact ⟨(JsMap.get?_set_ne _ _ hne).trans hmap, e,
      (congrArg (fun m => m.get? τ.key) (hmaps _ _ hne)).trans he, hid⟩
  · rw [hentry]
    exact h.dirty t flush key hget hsome
  · rw [hentry] at hsome
    exact h.owned t key hsome
  · exact ⟨(h.gone key hkey).1, fun t => (hentry t key).trans ((h.gone key hkey).2 t)⟩
  · rw [hentry]
    exact h.shown t key hstanding

theorem Inv.openTopic (h : Inv owed s) (topic : String) : Inv owed (openTopic o s topic) := by
  unfold Cursor.openTopic
  split
  · exact h
  rename_i hhas
  have hnone : s.topics.get? topic = none := by simpa [JsMap.has] using hhas
  split
  · obtain ⟨timers, topicFlush, dirtyTopics, log, topics, heq, hkeep⟩ := evictTopic_eq s
    have hevict := h.evictTopic
    rw [heq] at hevict ⊢
    exact hevict.newTopic (hkeep topic hnone)
  · exact h.newTopic hnone

theorem topics_openTopic : ∃ map, (Cursor.openTopic o s topic).topics.get? topic = some map := by
  unfold Cursor.openTopic
  split
  · next hhas => exact Option.isSome_iff_exists.1 hhas
  · exact ⟨_, JsMap.get?_set_self _ _ _⟩

theorem wsState_openTopic : (Cursor.openTopic o s topic).wsState = s.wsState := by
  unfold Cursor.openTopic
  split
  · rfl
  · split
    · obtain ⟨timers, topicFlush, dirtyTopics, log, topics, heq, -⟩ := evictTopic_eq s
      rw [heq]
    · rfl

end

end BunServe.Cursor
