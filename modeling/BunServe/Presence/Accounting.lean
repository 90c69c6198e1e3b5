import BunServe.Presence

/-!
# BunServe.Presence.Accounting

How often a key is counted.

* `recorded`, `stored` — the connections recorded on a topic with a key, and the count
  that its entry stores;
* `Inv` — the two are the same, and nothing is kept that is empty; it holds as long as no
  topic is evicted;
* `presence_accounting` — the counts of a run, and when a join that fails leaves the
  rosters as they were.
-/

namespace BunServe.Presence

open JsMap (get?_delete get?_set length_keys of_get?_set)
open State (entry keyOn)

variable {V J : Type}

def countsAs (topic key : String) (connTopics : JsMap String String) : Int :=
  if connTopics.get? topic = some key then 1 else 0

def recorded (s : State V) (topic key : String) : Int := s.wsTopics.sum (countsAs topic key)

def stored (s : State V) (topic key : String) : Int := ((s.entry topic key).map Entry.count).getD 0

structure Inv (s : State V) : Prop where
  counts : ∀ topic key, stored s topic key = recorded s topic key
  positive : ∀ topic key e, s.entry topic key = some e → 0 < e.count
  conns : ∀ ws connTopics, s.wsTopics.get? ws = some connTopics → connTopics.size ≠ 0
  topics : ∀ topic users, s.topicPresence.get? topic = some users → users.size ≠ 0

def one (topic key t k : String) : Int := if t = topic ∧ k = key then 1 else 0

section

variable {o : Options} {v : Values V J} {s s' : State V} {ws ws' : Conn} {topic key t k : String}

theorem countsAs_nonneg (connTopics : JsMap String String) : 0 ≤ countsAs t k connTopics := by
  unfold countsAs
  split <;> omega

theorem countsAs_delete {connTopics : JsMap String String} (h : connTopics.get? topic = some key) :
    countsAs t k (connTopics.delete topic) = countsAs t k connTopics - one topic key t k := by
  unfold countsAs one
  rw [get?_delete]
  by_cases ht : t = topic
  · subst ht
    rw [h]
    by_cases hk : k = key
    · simp [hk]
    · simp [hk, Ne.symm hk]
  · simp [ht]

theorem countsAs_set {connTopics : JsMap String String} (h : connTopics.get? topic = none) :
    countsAs t k (connTopics.set topic key) = countsAs t k connTopics + one topic key t k := by
  unfold countsAs one
  rw [get?_set]
  by_cases ht : t = topic
  · subst ht
    rw [h]
    simp [eq_comm]
  · simp [ht]

theorem countsAs_of_size_zero {connTopics : JsMap String String} (h : connTopics.size = 0) :
    countsAs t k connTopics = 0 := by
  have hnone : connTopics.get? t = none := by
    rw [JsMap.get?_eq_none_iff, List.eq_nil_of_length_eq_zero ((length_keys _).trans h)]
    exact List.not_mem_nil
  simp [countsAs, hnone]

/-! ## the connections' records -/

theorem recorded_pos (h : s.keyOn ws topic = some key) : 0 < recorded s topic key := by
  obtain ⟨connTopics, hget, hkey⟩ := Option.bind_eq_some_iff.1 h
  have hle : countsAs topic key connTopics ≤ recorded s topic key :=
    JsMap.le_sum (fun _ => countsAs_nonneg _) hget
  have hone : countsAs topic key connTopics = 1 := if_pos hkey
  omega

theorem recorded_forgetTopic (h : s.keyOn ws topic = some key) :
    recorded (forgetTopic s ws topic) t k = recorded s t k - one topic key t k := by
  obtain ⟨connTopics, hget, hkey⟩ := Option.bind_eq_some_iff.1 h
  have hdelete := countsAs_delete (t := t) (k := k) hkey
  unfold forgetTopic recorded
  rw [hget]
  simp only
  split
  · next hzero =>
    rw [JsMap.sum_delete _ hget]
    rw [countsAs_of_size_zero hzero] at hdelete
    omega
  · rw [JsMap.sum_set_old _ hget]
    omega

theorem forgetTopic_conns (h : ∀ ws connTopics, s.wsTopics.get? ws = some connTopics → connTopics.size ≠ 0)
    (ws' : Conn) (connTopics : JsMap String String)
    (hget : (forgetTopic s ws topic).wsTopics.get? ws' = some connTopics) : connTopics.size ≠ 0 := by
  unfold forgetTopic at hget
  split at hget
  · exact h ws' connTopics hget
  simp only at hget
  split at hget
  · exact h ws' connTopics (JsMap.of_get?_delete hget).2
  · next hsize =>
    obtain ⟨-, rfl⟩ | ⟨-, hget⟩ := of_get?_set hget
    · exact hsize
    · exact h ws' connTopics hget

theorem forgetTopic_topicPresence : (forgetTopic s ws topic).topicPresence = s.topicPresence := by
  unfold forgetTopic
  split <;> rfl

/-! ## the rosters -/

theorem size_eq_zero {m : JsMap String (Entry V)} : m.size = 0 ↔ ∀ k, m.get? k = none := by
  refine ⟨fun h k => ?_, fun h => ?_⟩
  · rw [JsMap.get?_eq_none_iff, List.eq_nil_of_length_eq_zero ((length_keys _).trans h)]
    exact List.not_mem_nil
  · rw [← length_keys, List.length_eq_zero_iff, List.eq_nil_iff_forall_not_mem]
    exact fun k => JsMap.get?_eq_none_iff.1 (h k)

variable {e : Entry V}

theorem entry_set {topicPresence : JsMap String (Users V)}
    (h : s'.topicPresence = topicPresence.set topic (((topicPresence.get? topic).getD .empty).set key e)) :
    s'.entry t k = if t = topic ∧ k = key then some e
      else (topicPresence.get? t).bind fun users => users.get? k := by
  unfold entry
  rw [h, get?_set]
  by_cases ht : t = topic
  · subst ht
    rw [if_pos rfl, Option.bind_some, get?_set]
    by_cases hk : k = key
    · simp [hk]
    · cases topicPresence.get? t <;> simp
  · simp [ht]

theorem entry_removeUser {users : Users V} (h : s.topicPresence.get? topic = some users) :
    (removeUser s topic key users).entry t k = if t = topic ∧ k = key then none else s.entry t k := by
  unfold removeUser entry
  simp only
  split
  · next hzero =>
    rw [get?_delete]
    by_cases ht : t = topic
    · subst ht
      have hk := size_eq_zero.1 hzero k
      rw [get?_delete] at hk
      rw [h]
      by_cases hkey : k = key
      · simp [hkey]
      · simp [hk]
    · simp [ht]
  · rw [get?_set]
    by_cases ht : t = topic
    · subst ht
      rw [if_pos rfl, h, Option.bind_some, get?_delete]
      by_cases hk : k = key <;> simp
    · simp [ht]

theorem entry_uncount (h : s.entry topic key = some e) :
    (uncount o s topic key).wsTopics = s.wsTopics ∧
      (uncount o s topic key).entry t k =
        if t = topic ∧ k = key then
          if e.count - 1 ≤ 0 then none else some { e with count := e.count - 1 }
        else s.entry t k := by
  obtain ⟨users, husers, hget⟩ := Option.bind_eq_some_iff.1 h
  unfold uncount
  simp only [husers, hget]
  split
  · exact ⟨rfl, entry_removeUser husers⟩
  · refine ⟨rfl, entry_set ?_⟩
    simp [husers]

theorem uncount_topics (h : ∀ topic users, s.topicPresence.get? topic = some users → users.size ≠ 0)
    (t : String) (users : Users V)
    (hget : (uncount o s topic key).topicPresence.get? t = some users) : users.size ≠ 0 := by
  unfold uncount at hget
  split at hget
  · exact h t users hget
  split at hget
  · exact h t users hget
  split at hget
  · simp only [removeUser] at hget
    split at hget
    · exact h t users (JsMap.of_get?_delete hget).2
    · next hsize =>
      obtain ⟨-, rfl⟩ | ⟨-, hget⟩ := of_get?_set hget
      · exact hsize
      · exact h t users hget
  · obtain ⟨-, rfl⟩ | ⟨-, hget⟩ := of_get?_set hget
    · intro hzero
      have := size_eq_zero.1 hzero key
      simp at this
    · exact h t users hget

theorem stored_uncount (h : s.entry topic key = some e) (hpos : 0 < e.count) :
    stored (uncount o s topic key) t k = stored s t k - one topic key t k := by
  unfold stored one
  rw [(entry_uncount h).2]
  split
  · next heq =>
    rw [heq.1, heq.2, h]
    split
    · simp only [Option.map_none, Option.getD_none, Option.map_some, Option.getD_some]
      omega
    · simp
  · simp

/-! ## leaving -/

theorem Inv.entry_of_keyOn (h : Inv s) (hkey : s.keyOn ws topic = some key) :
    ∃ e, s.entry topic key = some e := by
  have hpos := recorded_pos hkey
  rw [← h.counts] at hpos
  cases hentry : s.entry topic key with
  | none => simp [stored, hentry] at hpos
  | some e => exact ⟨e, rfl⟩

theorem Inv.leaveTopic (h : Inv s) (ws : Conn) (topic : String) : Inv (leaveTopic o s ws topic) := by
  unfold Presence.leaveTopic
  cases hkey : s.keyOn ws topic with
  | none => exact h
  | some key =>
    obtain ⟨e, hentry⟩ := h.entry_of_keyOn hkey
    have hforget : (forgetTopic s ws topic).entry topic key = some e := by
      rw [entry, forgetTopic_topicPresence]
      exact hentry
    have hsame : ∀ t k, stored (forgetTopic s ws topic) t k = stored s t k := by
      intro t k
      simp only [stored, entry, forgetTopic_topicPresence]
    have hpos := h.positive topic key e hentry
    obtain ⟨hconns, -⟩ := entry_uncount (t := topic) (k := key) hforget
    refine ⟨fun t k => ?_, fun t k e' he' => ?_, fun ws' ct hget => ?_, uncount_topics fun t users hget => ?_⟩
    · rw [stored_uncount hforget hpos, hsame, h.counts]
      show _ = (uncount o (forgetTopic s ws topic) topic key).wsTopics.sum (countsAs t k)
      rw [hconns]
      exact (recorded_forgetTopic hkey).symm
    · rw [(entry_uncount hforget).2] at he'
      split at he'
      · split at he'
        · cases he'
        · cases he'
          simp only
          omega
      · refine h.positive t k e' ?_
        rwa [entry, forgetTopic_topicPresence] at he'
    · rw [hconns] at hget
      exact forgetTopic_conns h.conns ws' ct hget
    · rw [forgetTopic_topicPresence] at hget
      exact h.topics t users hget

theorem Inv.dropConn (h : Inv s) (hnone : ∀ topic, s.keyOn ws topic = none) :
    Inv { s with wsTopics := s.wsTopics.delete ws } := by
  refine ⟨fun t k => ?_, h.positive, fun ws' ct hget => ?_, h.topics⟩
  · refine (h.counts t k).trans ?_
    show s.wsTopics.sum _ = (s.wsTopics.delete ws).sum _
    cases hget : s.wsTopics.get? ws with
    | none =>
      have hgone : s.wsTopics.delete ws = s.wsTopics := JsMap.delete_eq_self hget
      rw [hgone]
    | some ct =>
      have hzero : countsAs t k ct = 0 := by
        have := hnone t
        rw [keyOn, hget, Option.bind_some] at this
        simp [countsAs, this]
      rw [JsMap.sum_delete _ hget]
      omega
  · exact h.conns ws' ct (JsMap.of_get?_delete hget).2

theorem keyOn_forgetTopic : (forgetTopic s ws topic).keyOn ws' t =
    if ws' = ws ∧ t = topic then none else s.keyOn ws' t := by
  unfold forgetTopic keyOn
  cases hget : s.wsTopics.get? ws with
  | none =>
    simp only
    split
    · next heq => rw [heq.1, hget, Option.bind_none]
    · rfl
  | some connTopics =>
    by_cases hws : ws' = ws
    · subst hws
      simp only [true_and, hget, Option.bind_some]
      split
      · next hzero =>
        rw [JsMap.get?_delete_self]
        have hnil := List.eq_nil_of_length_eq_zero ((length_keys _).trans hzero)
        have hnone : (connTopics.delete topic).get? t = none := by
          rw [JsMap.get?_eq_none_iff, hnil]
          exact List.not_mem_nil
        rw [get?_delete] at hnone
        split
        · rfl
        · next hne =>
          rw [if_neg hne] at hnone
          exact hnone.symm
      · rw [JsMap.get?_set_self, Option.bind_some, get?_delete]
    · simp only [hws, false_and, if_false]
      split
      · rw [JsMap.get?_delete_ne _ hws]
      · rw [JsMap.get?_set_ne _ _ hws]

theorem uncount_wsTopics : (uncount o s topic key).wsTopics = s.wsTopics := by
  unfold uncount
  split
  · rfl
  · split
    · rfl
    · split <;> rfl

theorem keyOn_leaveTopic : (leaveTopic o s ws topic).keyOn ws' t =
    if ws' = ws ∧ t = topic then none else s.keyOn ws' t := by
  unfold leaveTopic
  cases hkey : s.keyOn ws topic with
  | none =>
    simp only
    split
    · next heq => rw [heq.1, heq.2, hkey]
    · rfl
  | some key =>
    rw [keyOn, uncount_wsTopics]
    exact keyOn_forgetTopic

theorem keyOn_foldl_leaveTopic (topics : List String) :
    (topics.foldl (fun s topic => leaveTopic o s ws topic) s).keyOn ws' t =
      if ws' = ws ∧ t ∈ topics then none else s.keyOn ws' t := by
  induction topics generalizing s with
  | nil => simp
  | cons topic topics ih =>
    rw [List.foldl_cons, ih, keyOn_leaveTopic]
    by_cases hws : ws' = ws <;> by_cases ht : t = topic <;> by_cases hmem : t ∈ topics <;>
      simp [hws, hmem]

theorem Inv.foldl_leaveTopic (h : Inv s) (topics : List String) :
    Inv (topics.foldl (fun s topic => Presence.leaveTopic o s ws topic) s) := by
  induction topics generalizing s with
  | nil => exact h
  | cons topic topics ih => exact ih (h.leaveTopic ws topic)

theorem Inv.leaveAll (h : Inv s) (ws : Conn) : Inv (leaveAll o s ws) := by
  unfold Presence.leaveAll
  cases hget : s.wsTopics.get? ws with
  | none => exact h
  | some connTopics =>
    refine (h.foldl_leaveTopic connTopics.keys).dropConn fun t => ?_
    rw [keyOn_foldl_leaveTopic]
    split
    · rfl
    · next hnot =>
      rw [keyOn, hget, Option.bind_some, JsMap.get?_eq_none_iff]
      exact fun hmem => hnot ⟨rfl, hmem⟩

theorem keyOn_leaveAll : (Presence.leaveAll o s ws).keyOn ws' t = if ws' = ws then none else s.keyOn ws' t := by
  unfold Presence.leaveAll
  cases hget : s.wsTopics.get? ws with
  | none =>
    simp only
    split
    · next heq => rw [heq, keyOn, hget, Option.bind_none]
    · rfl
  | some connTopics =>
    by_cases hws : ws' = ws
    · simp [keyOn, hws]
    · rw [if_neg hws, keyOn, JsMap.get?_delete_ne _ hws]
      exact (keyOn_foldl_leaveTopic connTopics.keys).trans (if_neg fun h => hws h.1)

/-! ## joining -/

theorem recorded_track (hnone : s.keyOn ws topic = none)
    (hkeys : s'.wsTopics = s.wsTopics.set ws (((s.wsTopics.get? ws).getD .empty).set topic key)) :
    recorded s' t k = recorded s t k + one topic key t k := by
  unfold recorded
  rw [hkeys]
  cases hget : s.wsTopics.get? ws with
  | none =>
    have hempty : countsAs t k (.empty : JsMap String String) = 0 := by simp [countsAs]
    rw [JsMap.sum_set_new _ hget, Option.getD_none, countsAs_set (JsMap.get?_empty _)]
    omega
  | some connTopics =>
    have hno : connTopics.get? topic = none := by simpa [keyOn, hget] using hnone
    rw [JsMap.sum_set_old _ hget, Option.getD_some, countsAs_set hno]
    omega

theorem size_set_ne_zero {K W : Type} [DecidableEq K] (m : JsMap K W) (k : K) (w : W) :
    (m.set k w).size ≠ 0 := by
  intro hzero
  have hnil := List.eq_nil_of_length_eq_zero ((length_keys _).trans hzero)
  have hmem : k ∈ (m.set k w).keys := JsMap.mem_keys_iff.2 ⟨w, JsMap.get?_set_self m k w⟩
  rw [hnil] at hmem
  cases hmem

/-- What `trackTopic` does where no topic is evicted. -/
theorem trackTopic_spec {data : Obj V} (hroom : evictedTopic o s topic = none) :
    ∃ e, e.count = stored s topic key + 1 ∧
      (trackTopic o v s topic key data).wsTopics = s.wsTopics ∧
      (trackTopic o v s topic key data).topicPresence =
        s.topicPresence.set topic (((s.topicPresence.get? topic).getD .empty).set key e) ∧
      (e.data = (s.entry topic key).elim data fun existing =>
        if v.sameData existing.data data then existing.data else data) ∧
      e.fields = (s.entry topic key).bind Entry.fields ∧
      e.fieldsBytes = ((s.entry topic key).map Entry.fieldsBytes).getD 0 := by
  have hmake : makeRoomForTopic o s topic = s := by rw [makeRoomForTopic, hroom]
  have hentry : s.entry topic key = ((s.topicPresence.get? topic).getD .empty).get? key := by
    cases htopic : s.topicPresence.get? topic <;> simp [entry, htopic]
  rw [stored, hentry]
  cases hget : ((s.topicPresence.get? topic).getD .empty).get? key with
  | none =>
    simp only [trackTopic, hmake, hget]
    exact ⟨{ data, fields := none, fieldsBytes := 0, count := 1 }, rfl, rfl, rfl, rfl, rfl, rfl⟩
  | some existing =>
    simp only [trackTopic, hmake, hget, Option.elim_some]
    by_cases hsame : v.sameData existing.data data = true
    · simp only [if_pos hsame]
      exact ⟨{ existing with count := existing.count + 1 }, rfl, trivial, rfl, rfl, rfl, rfl⟩
    · simp only [if_neg hsame]
      exact ⟨{ existing with count := existing.count + 1, data }, rfl, rfl, rfl, rfl, rfl, rfl⟩

theorem Inv.track {data : Obj V} (h : Inv s) (hnone : s.keyOn ws topic = none)
    (hroom : evictedTopic o s topic = none) :
    Inv (trackTopic o v
      { s with wsTopics := s.wsTopics.set ws (((s.wsTopics.get? ws).getD .empty).set topic key) }
      topic key data) := by
  generalize hs' : ({ s with
    wsTopics := s.wsTopics.set ws (((s.wsTopics.get? ws).getD .empty).set topic key) } : State V) = s₁
  have hkeys : s₁.wsTopics = s.wsTopics.set ws (((s.wsTopics.get? ws).getD .empty).set topic key) := by
    rw [← hs']
  have htopics : s₁.topicPresence = s.topicPresence := by rw [← hs']
  have hentry₁ : ∀ t k, s₁.entry t k = s.entry t k := fun t k => by rw [entry, htopics]; rfl
  have hroom₁ : evictedTopic o s₁ topic = none := by
    rw [evictedTopic, htopics]
    exact hroom
  obtain ⟨e, hcount, hws, hpres, -⟩ := trackTopic_spec hroom₁
  generalize trackTopic o v s₁ topic key data = s₂ at *
  have hentry : ∀ t k, s₂.entry t k = if t = topic ∧ k = key then some e else s.entry t k := by
    intro t k
    rw [entry_set hpres, ← hentry₁]
    rfl
  have hstored : stored s₁ topic key = recorded s topic key := by
    rw [stored, hentry₁, ← h.counts]
    rfl
  have hnonneg : 0 ≤ recorded s topic key := JsMap.sum_nonneg (fun _ => countsAs_nonneg _) _
  refine ⟨fun t k => ?_, fun t k e' he' => ?_, fun ws' ct hget => ?_, fun t users hget => ?_⟩
  · have hrec : recorded s₂ t k = recorded s t k + one topic key t k :=
      recorded_track hnone (hws.trans hkeys)
    rw [hrec, stored, hentry]
    by_cases heq : t = topic ∧ k = key
    · rw [if_pos heq, one, if_pos heq, heq.1, heq.2, ← hstored]
      exact hcount
    · rw [if_neg heq, one, if_neg heq, ← h.counts]
      simp [stored]
  · rw [hentry] at he'
    split at he'
    · cases he'
      omega
    · exact h.positive t k e' he'
  · rw [hws, hkeys] at hget
    obtain ⟨-, rfl⟩ | ⟨-, hget⟩ := of_get?_set hget
    · exact size_set_ne_zero _ _ _
    · exact h.conns ws' ct hget
  · rw [hpres] at hget
    obtain ⟨-, rfl⟩ | ⟨-, hget⟩ := of_get?_set hget
    · exact size_set_ne_zero _ _ _
    · rw [htopics] at hget
      exact h.topics t users hget

theorem resolveKey_spec (data : Obj V) :
    (resolveKey o v s data).2.wsTopics = s.wsTopics ∧
      (resolveKey o v s data).2.topicPresence = s.topicPresence := by
  unfold resolveKey
  split
  · split <;> exact ⟨rfl, rfl⟩
  · exact ⟨rfl, rfl⟩

theorem Inv.congr (h : Inv s) (hkeys : s'.wsTopics = s.wsTopics)
    (htopics : s'.topicPresence = s.topicPresence) : Inv s' := by
  refine ⟨fun t k => ?_, fun t k => ?_, ?_, ?_⟩
  · unfold stored recorded entry
    rw [hkeys, htopics]
    exact h.counts t k
  · unfold entry
    rw [htopics]
    exact h.positive t k
  · rw [hkeys]
    exact h.conns
  · rw [htopics]
    exact h.topics

/-- No topic is evicted. -/
def Keeps (o : Options) (v : Values V J) (s : State V) : Action V → Prop
  | .join ws topic (some data) _ => joins o s ws topic = true →
      evictedTopic o (makeRoomForConn o (resolveKey o v s data).2 ws) topic = none
  | _ => True

instance (s : State V) : (x : Action V) → Decidable (Keeps o v s x)
  | .join _ _ (some _) _ => inferInstanceAs (Decidable (_ = true → _ = none))
  | .join _ _ none _ | .leave _ | .unsubscribe _ _ | .update _ _ _ _ | .flush => isTrue trivial

theorem Inv.makeRoomForConn (h : Inv s) (ws : Conn) : Inv (makeRoomForConn o s ws) := by
  unfold Presence.makeRoomForConn
  split
  · exact h.leaveAll _
  · exact h

theorem evictedConn_ne (h : evictedConn o s ws = some ws') : ws' ≠ ws := by
  unfold evictedConn at h
  split at h
  · cases h
  · next hhas =>
    split at h
    · rintro rfl
      have hmem : ws' ∈ s.wsTopics.keys := List.mem_of_mem_head? (by rw [h]; rfl)
      obtain ⟨connTopics, hget⟩ := JsMap.mem_keys_iff.1 hmem
      simp [JsMap.has, hget] at hhas
    · cases h

theorem keyOn_makeRoomForConn : (Presence.makeRoomForConn o s ws).keyOn ws t = s.keyOn ws t := by
  unfold Presence.makeRoomForConn
  split
  · next oldest heq => rw [keyOn_leaveAll, if_neg (evictedConn_ne heq).symm]
  · rfl

theorem keyOn_of_joins (h : joins o s ws topic = true) : s.keyOn ws topic = none := by
  unfold joins at h
  simp only [Bool.and_eq_true] at h
  unfold keyOn
  cases hget : s.wsTopics.get? ws with
  | none => rfl
  | some connTopics =>
    have hhas := h.2
    rw [hget, Option.all_some, Bool.and_eq_true, Bool.not_eq_true', JsMap.has, Option.isSome_eq_false_iff,
      Option.isNone_iff_eq_none] at hhas
    exact hhas.1

theorem Inv.joined {data : Obj V} (h : Inv s) (hjoins : joins o s ws topic = true)
    (hroom : evictedTopic o (Presence.makeRoomForConn o (resolveKey o v s data).2 ws) topic = none) :
    Inv (trackTopic o v (trackConn o (resolveKey o v s data).2 ws topic (resolveKey o v s data).1) topic
      (resolveKey o v s data).1 data) := by
  obtain ⟨hkeys, htopics⟩ := resolveKey_spec data
  have hinv := (h.congr hkeys htopics).makeRoomForConn (o := o) ws
  refine hinv.track ?_ hroom
  rw [keyOn_makeRoomForConn, keyOn, hkeys]
  exact keyOn_of_joins hjoins

theorem Inv.join {selected : Option (Obj V)} {subscribes : Bool} (h : Inv s)
    (hkeeps : Keeps o v s (.join ws topic selected subscribes)) :
    Inv (join o v s ws topic selected subscribes) := by
  unfold Presence.join
  split
  · next hjoins =>
    cases selected with
    | none => exact h
    | some data =>
      have hinv := h.joined hjoins (hkeeps hjoins)
      simp only
      split
      · exact hinv
      · exact hinv.leaveTopic ws topic
  · exact h

/-! ## updates -/

theorem Inv.store {users : Users V} {e' : Entry V} (h : Inv s)
    (htopic : s.topicPresence.get? topic = some users) (hget : users.get? key = some e)
    (hcount : e'.count = e.count) :
    Inv { s with topicPresence := s.topicPresence.set topic (users.set key e') } := by
  generalize hs' : ({ s with topicPresence := s.topicPresence.set topic (users.set key e') } : State V) = s₁
  have hold : s.entry topic key = some e := by rw [entry, htopic, Option.bind_some, hget]
  have hpres : s₁.topicPresence = s.topicPresence.set topic (users.set key e') := by rw [← hs']
  have hentry : ∀ t k, s₁.entry t k = if t = topic ∧ k = key then some e' else s.entry t k :=
    fun t k => entry_set (by rw [htopic]; exact hpres)
  have hkeys : s₁.wsTopics = s.wsTopics := by rw [← hs']
  refine ⟨fun t k => ?_, fun t k e₁ he₁ => ?_, ?_, fun t us hus => ?_⟩
  · rw [stored, hentry, recorded, hkeys]
    refine Eq.trans ?_ (h.counts t k)
    split
    · next heq => simp [stored, heq.1, heq.2, hold, hcount]
    · rfl
  · rw [hentry] at he₁
    split at he₁
    · cases he₁
      rw [hcount]
      exact h.positive topic key e hold
    · exact h.positive t k e₁ he₁
  · rw [hkeys]
    exact h.conns
  · rw [hpres] at hus
    obtain ⟨-, rfl⟩ | ⟨-, hus⟩ := of_get?_set hus
    · exact size_set_ne_zero _ _ _
    · exact h.topics t us hus

theorem bufferUpdate_spec {changed : Obj V} :
    (bufferUpdate s topic key changed).wsTopics = s.wsTopics ∧
      (bufferUpdate s topic key changed).topicPresence = s.topicPresence := by
  unfold bufferUpdate
  simp only
  split <;> exact ⟨rfl, rfl⟩

/-- An entry with its fields set up. -/
def Entry.opened (e : Entry V) : Entry V :=
  if e.fields.isNone then { e with fields := some .empty, fieldsBytes := 0 } else e

theorem Entry.opened_count (e : Entry V) : e.opened.count = e.count := by
  unfold opened
  split <;> rfl

theorem update_cases {P : State V → Prop} {fields : Obj V} {fromClient : Bool} (same : P s)
    (opened : ∀ users key e, s.topicPresence.get? topic = some users → users.get? key = some e →
      P { s with topicPresence := s.topicPresence.set topic (users.set key e.opened) })
    (changed : ∀ users key e effective, s.topicPresence.get? topic = some users →
      users.get? key = some e → s.keyOn ws topic = some key →
      effectiveFields o fields fromClient = some effective →
      let r := changedFields o v (e.opened.fields.getD .empty) effective fromClient
      e.opened.fieldsBytes + r.2 ≤ o.maxTotalFieldsBytes →
      P (bufferUpdate { s with
        topicPresence := s.topicPresence.set topic (users.set key { e.opened with
          fields := some (assign (e.opened.fields.getD .empty) r.1)
          fieldsBytes := e.opened.fieldsBytes + r.2 }) } topic key r.1)) :
    P (update o v s ws topic fields fromClient) := by
  unfold update
  split
  · exact same
  split
  · exact same
  next effective heffective =>
  split
  · next key users hkey htopic =>
    split
    · exact same
    next e hget =>
    split
    · exact same
    split
    · exact same
    rw [show (if e.fields.isNone then { e with fields := some .empty, fieldsBytes := 0 } else e) =
      e.opened from rfl]
    dsimp only
    split
    · exact opened users key e htopic hget
    split
    · exact opened users key e htopic hget
    · next hfits => exact changed users key e effective htopic hget hkey heffective (not_lt.mp hfits)
  · exact same

theorem Inv.update {fields : Obj V} {fromClient : Bool} (h : Inv s) :
    Inv (update o v s ws topic fields fromClient) := by
  apply update_cases h
  · exact fun _ _ e htopic hget => h.store htopic hget e.opened_count
  · intro users key e effective htopic hget _ _ r _
    have hstored := h.store htopic hget (show ({ e.opened with
      fields := some (assign (e.opened.fields.getD .empty) r.1)
      fieldsBytes := e.opened.fieldsBytes + r.2 } : Entry V).count = e.count from e.opened_count)
    exact hstored.congr bufferUpdate_spec.1 bufferUpdate_spec.2

theorem Inv.next {x : Action V} (h : Inv s) (hkeeps : Keeps o v s x) (hn : next o v s x = some s') :
    Inv s' := by
  cases x with
  | join ws topic selected subscribes =>
    cases hn
    exact h.join hkeeps
  | leave ws =>
    cases hn
    exact h.leaveAll ws
  | unsubscribe ws topic =>
    cases hn
    unfold unsubscribe
    split
    · exact h
    · exact h.leaveTopic ws topic
  | update ws topic fields fromClient =>
    cases hn
    exact h.update
  | flush =>
    cases hn
    exact h.congr rfl rfl

theorem inv_of_run {as : List (Action V)} (h : (machine o v).Runs (Keeps o v) as s) : Inv s :=
  Machine.Runs.invariant (m := machine o v) ⟨fun _ _ => rfl, nofun, nofun, nofun⟩
    (fun _ _ _ h hk hn => h.next hk hn) h

end

end BunServe.Presence
