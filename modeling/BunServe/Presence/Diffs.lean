import BunServe.Presence.FailedJoin

/-!
# BunServe.Presence.Diffs

What the diffs of a topic make of a roster.

* `Roster`, `applyDiff` — a roster as JSON carries it, and what a diff makes of it: joins
  set an entry, leaves delete it, and updates merge their durable fields into it;
* `Pending` — what the buffered operation of a key says of its entry at the last flush
  and now;
* `diffs_replay` — the diffs since a flush make its rosters those of the last flush, as
  long as no update that is flushed takes a field away.
-/

namespace BunServe.Presence

variable {V J : Type}

/-! ## rosters -/

/-- A roster as JSON carries it. -/
abbrev Roster (J : Type) := String → Option (String → Option J)

section

variable (o : Options) (v : Values V J)

def carried (props : String → Option V) (k : String) : Option J := (props k).bind v.json

/-- The properties that are public of each user of a topic. -/
def visible (users : Option (Users V)) (key : String) : Option (String → Option V) :=
  ((snapshotState o users).get? key).map JsMap.get?

def roster (users : Option (Users V)) : Roster J := fun key => (visible o users key).map (carried v)

/-- Merge the durable fields of an update. -/
def merge (changed : Obj V) (props : String → Option J) (k : String) : Option J :=
  if k ∈ o.transientFields then props k else ((changed.get? k).bind v.json).or (props k)

def applyDiff (d : Diff V) (r : Roster J) : Roster J := fun key =>
  let left := if d.leaves.has key then none else r key
  let joined := match d.joins.get? key with
    | some data => some (carried v data.get?)
    | none => left
  match d.updates.get? key with
  | some changed => joined.map (merge o v changed)
  | none => joined

def Flush.replay (f : Flush V) (topic : String) (r : Roster J) : Roster J :=
  match f.diffs.get? topic with
  | some d => applyDiff o v d r
  | none => r

def Flush.roster (f : Flush V) (topic : String) : Roster J :=
  Presence.roster o v (f.topicPresence.get? topic)

end

def lastUsers (s : State V) (topic : String) : Option (Users V) :=
  s.flushes.head?.bind fun f => f.topicPresence.get? topic

/-- The buffered operation of a key. -/
def pendingOp (s : State V) (topic key : String) : Option (Op V) :=
  (s.pendingDiffs.get? topic).bind fun entries => entries.get? key

/-- The durable fields of an update over what was there. -/
def overlay (o : Options) (changed : Obj V) (props : String → Option V) (k : String) : Option V :=
  if k ∈ o.transientFields then props k else (changed.get? k).or (props k)

/-- What a buffered operation says of an entry at the last flush and now. -/
def Pending (o : Options) (last now : Option (String → Option V)) : Option (Op V) → Prop
  | none => now = last
  | some .join => now.isSome
  | some (.leave _) => now = none
  | some (.update changed) => ∃ props, last = some props ∧ now = some (overlay o changed props)

/-- The buffers of a topic tell what changed since the last flush. -/
def Buffered (o : Options) (topic : String) (s : State V) : Prop :=
  ∀ key, Pending o (visible o (lastUsers s topic) key) (visible o (s.topicPresence.get? topic) key)
    (pendingOp s topic key)

section

variable {o : Options} {v : Values V J} {s s' : State V} {ws : Conn} {topic t key k : String}

theorem get?_publicData (e : Entry V) (k : String) : (publicData o e).get? k =
    if k ∈ o.transientFields then e.data.get? k
    else ((e.fields.getD .empty).get? k).or (e.data.get? k) := by
  unfold publicData
  cases e.fields with
  | none => simp
  | some fields =>
    rw [JsMap.get?_collect, Option.getD_some]
    split
    · cases fields.get? k <;> simp
    · cases fields.get? k <;> simp

theorem visible_eq (users : Option (Users V)) (key : String) :
    visible o users key = ((users.getD .empty).get? key).map fun e => (publicData o e).get? := by
  unfold visible snapshotState
  rw [JsMap.get?_collect]
  cases (users.getD .empty).get? key <;> rfl

theorem visible_entry (s : State V) (topic key : String) :
    visible o (s.topicPresence.get? topic) key =
      (s.entry topic key).map fun e => (publicData o e).get? := by
  rw [visible_eq]
  cases htopic : s.topicPresence.get? topic <;> simp [State.entry, htopic]

theorem visible_set {e : Entry V} (h : s'.topicPresence =
      s.topicPresence.set topic (((s.topicPresence.get? topic).getD .empty).set key e)) :
    visible o (s'.topicPresence.get? t) k = if t = topic ∧ k = key then some (publicData o e).get?
      else visible o (s.topicPresence.get? t) k := by
  rw [visible_entry, visible_entry, entry_set h]
  by_cases hk : t = topic ∧ k = key
  · rw [if_pos hk, if_pos hk]
    rfl
  · rw [if_neg hk, if_neg hk]
    rfl

theorem pendingOp_bufferDiff {op : Op V} : pendingOp (bufferDiff s topic key op) t k =
    if t = topic ∧ k = key then some op else pendingOp s t k := by
  unfold pendingOp bufferDiff
  simp only [JsMap.get?_set]
  by_cases ht : t = topic
  · subst ht
    rw [if_pos rfl, Option.bind_some, JsMap.get?_set]
    by_cases hk : k = key
    · simp [hk]
    · cases s.pendingDiffs.get? t <;> simp
  · simp [ht]

theorem overlay_assign (pending changed : Obj V) (props : String → Option V) :
    overlay o (assign pending changed) props = overlay o changed (overlay o pending props) := by
  funext k
  unfold overlay assign
  rw [JsMap.get?_collect]
  by_cases hk : k ∈ o.transientFields
  · simp [hk]
  · cases changed.get? k <;> simp [hk]

/-! ## what each step buffers -/

/-- What one step does to the entry of a key: nothing, or what its operation says. -/
def Moved (o : Options) (topic : String) (s s' : State V) : Prop :=
  s'.flushes = s.flushes ∧ ∀ key,
    visible o (s'.topicPresence.get? topic) key = visible o (s.topicPresence.get? topic) key ∧
        pendingOp s' topic key = pendingOp s topic key ∨
      (visible o (s'.topicPresence.get? topic) key).isSome ∧ pendingOp s' topic key = some .join ∨
      visible o (s'.topicPresence.get? topic) key = none ∧
        ∃ data, pendingOp s' topic key = some (.leave data)

theorem Moved.refl (s : State V) : Moved o topic s s := ⟨rfl, fun _ => .inl ⟨rfl, rfl⟩⟩

theorem Moved.trans {s'' : State V} (h : Moved o topic s s') (h' : Moved o topic s' s'') :
    Moved o topic s s'' := by
  refine ⟨h'.1.trans h.1, fun key => ?_⟩
  rcases h'.2 key with ⟨hvis, hop⟩ | hother
  · rw [hvis, hop]
    exact h.2 key
  · exact .inr hother

theorem Buffered.moved (h : Buffered o topic s) (hm : Moved o topic s s') : Buffered o topic s' := by
  intro key
  rw [lastUsers, hm.1]
  rcases hm.2 key with ⟨hvis, hop⟩ | ⟨hsome, hop⟩ | ⟨hnone, data, hop⟩
  · rw [hvis, hop]
    exact h key
  · rw [hop]
    exact hsome
  · rw [hop]
    exact hnone

theorem Moved.of_eq (htopics : s'.topicPresence = s.topicPresence)
    (hpending : s'.pendingDiffs = s.pendingDiffs) (hflushes : s'.flushes = s.flushes) :
    Moved o topic s s' := by
  unfold Moved pendingOp
  rw [htopics, hpending, hflushes]
  exact ⟨rfl, fun _ => .inl ⟨rfl, rfl⟩⟩

theorem moved_forgetTopic : Moved o t s (forgetTopic s ws topic) := by
  unfold forgetTopic
  split
  · exact .refl s
  · exact .of_eq rfl rfl rfl

theorem moved_uncount : Moved o t s (uncount o s topic key) := by
  cases hentry : s.entry topic key with
  | none =>
    have hsame : uncount o s topic key = s := by
      unfold uncount
      cases htopic : s.topicPresence.get? topic with
      | none => rfl
      | some users =>
        rw [State.entry, htopic, Option.bind_some] at hentry
        simp only [hentry]
    rw [hsame]
    exact .refl s
  | some e =>
    obtain ⟨users, htopic, hget⟩ := Option.bind_eq_some_iff.1 hentry
    have hgone := fun k => (entry_uncount (o := o) (t := t) (k := k) hentry).2
    by_cases hlast : e.count - 1 ≤ 0
    · have heq : uncount o s topic key =
          bufferDiff (removeUser s topic key users) topic key (.leave (publicData o e)) := by
        simp only [uncount, htopic, hget, if_pos hlast]
      refine ⟨by rw [heq]; rfl, fun k => ?_⟩
      rw [visible_entry, visible_entry, hgone, heq, pendingOp_bufferDiff]
      by_cases hk : t = topic ∧ k = key
      · rw [if_pos hk, if_pos hk, if_pos hlast]
        exact .inr (.inr ⟨rfl, _, rfl⟩)
      · rw [if_neg hk, if_neg hk]
        exact .inl ⟨rfl, rfl⟩
    · have heq : uncount o s topic key = { s with
          topicPresence := s.topicPresence.set topic (users.set key { e with count := e.count - 1 }) } := by
        simp only [uncount, htopic, hget, if_neg hlast]
      refine ⟨by rw [heq], fun k => .inl ⟨?_, by rw [heq]; rfl⟩⟩
      rw [visible_entry, visible_entry, hgone]
      by_cases hk : t = topic ∧ k = key
      · rw [if_pos hk, if_neg hlast, hk.1, hk.2, hentry]
        rfl
      · rw [if_neg hk]

theorem moved_leaveTopic : Moved o t s (leaveTopic o s ws topic) := by
  unfold leaveTopic
  split
  · exact .refl s
  · exact moved_forgetTopic.trans moved_uncount

theorem moved_leaveAll : Moved o t s (leaveAll o s ws) := by
  have hfold : ∀ topics : List String, ∀ s : State V,
      Moved o t s (topics.foldl (fun s topic => leaveTopic o s ws topic) s) := by
    intro topics
    induction topics with
    | nil => exact .refl
    | cons topic topics ih => exact fun s => moved_leaveTopic.trans (ih _)
  unfold leaveAll
  split
  · exact .refl s
  · exact (hfold _ s).trans (.of_eq rfl rfl rfl)

theorem moved_makeRoomForConn : Moved o t s (makeRoomForConn o s ws) := by
  unfold makeRoomForConn
  split
  · exact moved_leaveAll
  · exact .refl s

theorem moved_makeRoomForTopic (h : evictedTopic o s topic ≠ some t) :
    Moved o t s (makeRoomForTopic o s topic) := by
  unfold makeRoomForTopic
  split
  · next oldest heq =>
    refine ⟨rfl, fun key => .inl ⟨?_, rfl⟩⟩
    have hne : t ≠ oldest := fun hto => h (by rw [heq, hto])
    simp only [JsMap.get?_delete_ne _ hne]
  · exact .refl s

theorem moved_trackTopic (key : String) (data : Obj V) (h : evictedTopic o s topic ≠ some t) :
    Moved o t s (trackTopic o v s topic key data) := by
  refine (moved_makeRoomForTopic h).trans ?_
  unfold trackTopic
  generalize makeRoomForTopic o s topic = s₁
  have hold : s₁.entry topic key = ((s₁.topicPresence.get? topic).getD .empty).get? key := by
    cases htopic : s₁.topicPresence.get? topic <;> simp [State.entry, htopic]
  -- the entry of a user who joins
  have hjoin : ∀ (e : Entry V) (s₂ : State V), s₂.flushes = s₁.flushes →
      s₂.topicPresence =
        s₁.topicPresence.set topic (((s₁.topicPresence.get? topic).getD .empty).set key e) →
      s₂.pendingDiffs = s₁.pendingDiffs → Moved o t s₁ (bufferDiff s₂ topic key .join) := by
    intro e s₂ hlast hpres hpending
    refine ⟨hlast, fun k => ?_⟩
    rw [pendingOp_bufferDiff, show (bufferDiff s₂ topic key .join).topicPresence = s₂.topicPresence from rfl,
      visible_set hpres]
    by_cases hk : t = topic ∧ k = key
    · rw [if_pos hk, if_pos hk]
      exact .inr (.inl ⟨rfl, rfl⟩)
    · rw [if_neg hk, if_neg hk]
      refine .inl ⟨rfl, ?_⟩
      rw [pendingOp, hpending]
      rfl
  -- that of a user who is there already
  have hcount : ∀ (existing : Entry V) (count : Int) (s₂ : State V),
      ((s₁.topicPresence.get? topic).getD .empty).get? key = some existing →
      s₂.flushes = s₁.flushes →
      s₂.topicPresence = s₁.topicPresence.set topic
        (((s₁.topicPresence.get? topic).getD .empty).set key { existing with count }) →
      s₂.pendingDiffs = s₁.pendingDiffs → Moved o t s₁ s₂ := by
    intro existing count s₂ hget hlast hpres hpending
    refine ⟨hlast, fun k => .inl ⟨?_, by rw [pendingOp, hpending]; rfl⟩⟩
    rw [visible_set hpres]
    by_cases hk : t = topic ∧ k = key
    · rw [if_pos hk, visible_entry, hk.1, hk.2, hold, hget]
      rfl
    · rw [if_neg hk]
  cases hget : ((s₁.topicPresence.get? topic).getD .empty).get? key with
  | none =>
    simp only [hget]
    exact hjoin _ _ rfl rfl rfl
  | some existing =>
    simp only [hget]
    by_cases hsame : v.sameData existing.data data = true
    · rw [if_pos hsame]
      exact hcount existing (existing.count + 1) _ hget rfl rfl rfl
    · rw [if_neg hsame]
      exact hjoin _ _ rfl rfl rfl

theorem moved_join {selected : Option (Obj V)} {subscribes : Bool}
    (h : ∀ data, selected = some data → joins o s ws topic = true →
      evictedTopic o (makeRoomForConn o (resolveKey o v s data).2 ws) topic ≠ some t) :
    Moved o t s (join o v s ws topic selected subscribes) := by
  unfold join
  split
  · next hjoins =>
    cases selected with
    | none => exact .refl s
    | some data =>
      have hkey : Moved o t s (resolveKey o v s data).2 := by
        unfold resolveKey
        split
        · split <;> exact .of_eq rfl rfl rfl
        · exact .of_eq rfl rfl rfl
      have hconn : Moved o t (resolveKey o v s data).2
          (trackConn o (resolveKey o v s data).2 ws topic (resolveKey o v s data).1) :=
        moved_makeRoomForConn.trans (.of_eq rfl rfl rfl)
      have htopic := moved_trackTopic (v := v)
        (s := trackConn o (resolveKey o v s data).2 ws topic (resolveKey o v s data).1)
        (resolveKey o v s data).1 data (h data rfl hjoins)
      have htracked := hkey.trans (hconn.trans htopic)
      simp only
      split
      · exact htracked
      · exact htracked.trans moved_leaveTopic
  · exact .refl s

/-! ## updates -/

theorem publicData_assign (e : Entry V) (changed : Obj V) (bytes : Int) :
    (publicData o { e with
      fields := some (assign (e.fields.getD .empty) changed), fieldsBytes := bytes }).get? =
      overlay o changed (publicData o e).get? := by
  funext k
  unfold overlay
  rw [get?_publicData, get?_publicData]
  by_cases hk : k ∈ o.transientFields
  · simp [hk]
  · simp only [hk, Option.getD_some, assign, JsMap.get?_collect]
    cases changed.get? k <;> simp

/-- What an update makes of the buffered operation. -/
def updated (changed : Obj V) : Option (Op V) → Op V
  | some (.update pending) => .update (assign pending changed)
  | some op => op
  | none => .update changed

theorem bufferUpdate_eq (changed : Obj V) :
    bufferUpdate s topic key changed = bufferDiff s topic key (updated changed (pendingOp s topic key)) := by
  have hold : pendingOp s topic key = ((s.pendingDiffs.get? topic).getD .empty).get? key := by
    unfold pendingOp
    cases s.pendingDiffs.get? topic <;> simp
  unfold bufferUpdate bufferDiff
  rw [hold]
  simp only
  cases hget : ((s.pendingDiffs.get? topic).getD .empty).get? key with
  | none => rfl
  | some op =>
    cases op with
    | join | leave data => simp only [updated, JsMap.set_eq_self hget]
    | update pending => rfl

theorem Buffered.update {e : Entry V} {changed : Obj V} (h : Buffered o t s)
    (hentry : s.entry topic key = some e) (hlast : lastUsers s' t = lastUsers s t)
    (hpending : s'.pendingDiffs = s.pendingDiffs) {e' : Entry V} (hpres : s'.topicPresence =
      s.topicPresence.set topic (((s.topicPresence.get? topic).getD .empty).set key e'))
    (hdata : (publicData o e').get? = overlay o changed (publicData o e).get?) :
    Buffered o t (bufferUpdate s' topic key changed) := by
  intro k
  have hop : pendingOp s' topic key = pendingOp s topic key := by rw [pendingOp, hpending]; rfl
  have hops : pendingOp s' t k = pendingOp s t k := by rw [pendingOp, hpending]; rfl
  rw [bufferUpdate_eq, pendingOp_bufferDiff, hop, hops,
    show lastUsers (bufferDiff s' topic key (updated changed (pendingOp s topic key))) t = lastUsers s' t
      from rfl, hlast, show (bufferDiff s' topic key (updated changed (pendingOp s topic key))).topicPresence =
      s'.topicPresence from rfl, visible_set hpres]
  by_cases hk : t = topic ∧ k = key
  · rw [if_pos hk, if_pos hk, hdata]
    have hthis := h k
    rw [visible_entry, hk.1, hk.2, hentry] at hthis
    rw [hk.1, hk.2]
    cases hpend : pendingOp s topic key with
    | none =>
      rw [hpend] at hthis
      exact ⟨_, hthis.symm, rfl⟩
    | some op =>
      rw [hpend] at hthis
      cases op with
      | join => rfl
      | leave data => cases hthis
      | update pending =>
        obtain ⟨props, hprops, hnow⟩ := hthis
        refine ⟨props, hprops, ?_⟩
        rw [overlay_assign]
        exact congrArg (fun props => some (overlay o changed props)) (Option.some.inj hnow)
  · rw [if_neg hk, if_neg hk]
    exact h k

theorem moved_store {users : Users V} {e e' : Entry V} (htopic : s.topicPresence.get? topic = some users)
    (hget : users.get? key = some e) (hdata : (publicData o e').get? = (publicData o e).get?) :
    Moved o t s { s with topicPresence := s.topicPresence.set topic (users.set key e') } := by
  have hentry : s.entry topic key = some e := by rw [State.entry, htopic, Option.bind_some, hget]
  have hpres : ({ s with topicPresence := s.topicPresence.set topic (users.set key e') } :
      State V).topicPresence =
        s.topicPresence.set topic (((s.topicPresence.get? topic).getD .empty).set key e') := by
    rw [htopic, Option.getD_some]
  refine ⟨rfl, fun k => .inl ⟨?_, rfl⟩⟩
  rw [visible_set hpres]
  by_cases hk : t = topic ∧ k = key
  · rw [if_pos hk, visible_entry, hk.1, hk.2, hentry, hdata]
    rfl
  · rw [if_neg hk]

theorem flushes_update {fields : Obj V} {fromClient : Bool} :
    (update o v s ws topic fields fromClient).flushes = s.flushes := by
  apply update_cases (P := fun s' => s'.flushes = s.flushes) rfl
  · exact fun _ _ _ _ _ => rfl
  · intro users key e effective _ _ _ _ r _
    rw [bufferUpdate_eq]
    rfl

theorem Buffered.call_update {fields : Obj V} {fromClient : Bool} (h : Buffered o t s) :
    Buffered o t (Presence.update o v s ws topic fields fromClient) := by
  have hdata : ∀ e : Entry V, (publicData o e.opened).get? = (publicData o e).get? := by
    intro e
    funext k
    unfold Entry.opened
    split
    · next hnone => simp [get?_publicData, Option.isNone_iff_eq_none.1 hnone]
    · rfl
  apply update_cases h
  · exact fun _ _ e htopic hget => h.moved (moved_store htopic hget (hdata e))
  · intro users key e effective htopic hget _ _ r _
    refine h.update (e := e) ?_ rfl rfl (by rw [htopic, Option.getD_some]) ?_
    · rw [State.entry, htopic, Option.bind_some, hget]
    · rw [publicData_assign, hdata]

/-! ## flushes -/

/-- What a buffered operation tells of a user. -/
def told (o : Options) (v : Values V J) (now : Option (String → Option V)) (op : Option (Op V))
    (r : Option (String → Option J)) : Option (String → Option J) :=
  match op with
  | none => r
  | some .join => (now.map (carried v)).or r
  | some (.leave _) => none
  | some (.update changed) => r.map (merge o v changed)

theorem applyDiff_diffOf (users : Option (Users V)) (entries : JsMap String (Op V)) (r : Roster J) :
    applyDiff o v (diffOf o users entries) r key =
      told o v (visible o users key) (entries.get? key) (r key) := by
  unfold applyDiff diffOf
  rw [visible_eq]
  simp only [JsMap.has, JsMap.get?_collect]
  cases entries.get? key with
  | none => simp [told]
  | some op =>
    cases op with
    | join => cases (users.getD .empty).get? key <;> simp [told]
    | leave data | update changed => simp [told]

def newFlush (o : Options) (s : State V) : Flush V where
  diffs := s.pendingDiffs.collect
    (fun topic entries => some (diffOf o (s.topicPresence.get? topic) entries)) .empty
  topicPresence := s.topicPresence

theorem replay_newFlush (r : Roster J) : (newFlush o s).replay o v topic r key =
    told o v (visible o (s.topicPresence.get? topic) key) (pendingOp s topic key) (r key) := by
  unfold Flush.replay pendingOp newFlush
  rw [JsMap.get?_collect]
  cases s.pendingDiffs.get? topic with
  | none => rfl
  | some entries => exact applyDiff_diffOf _ _ _

/-- An update takes a durable field away: JSON carries what was there, and not the value
that is written. -/
def Erases (o : Options) (v : Values V J) (changed : Obj V) (props : String → Option V) (k : String) :
    Prop :=
  k ∉ o.transientFields ∧ (∃ x, changed.get? k = some x ∧ v.json x = none) ∧ carried v props k ≠ none

theorem merge_carried_iff {changed : Obj V} {props : String → Option V} :
    merge o v changed (carried v props) = carried v (overlay o changed props) ↔
      ∀ k, ¬ Erases o v changed props k := by
  rw [funext_iff]
  refine forall_congr' fun k => ?_
  unfold merge overlay Erases carried
  by_cases hk : k ∈ o.transientFields
  · simp [hk]
  · cases hget : changed.get? k with
    | none => simp [hget]
    | some x => cases hx : v.json x <;> simp [hk, hget, hx]

theorem told_eq_iff {last now : Option (String → Option V)} {op : Option (Op V)}
    (h : Pending o last now op) : told o v now op (last.map (carried v)) = now.map (carried v) ↔
      ∀ changed props, op = some (.update changed) → last = some props →
        ∀ k, ¬ Erases o v changed props k := by
  cases op with
  | none =>
    cases h
    exact iff_of_true rfl nofun
  | some op =>
    cases op with
    | join =>
      obtain ⟨props, rfl⟩ := Option.isSome_iff_exists.1 h
      exact iff_of_true rfl nofun
    | leave data =>
      cases h
      exact iff_of_true rfl nofun
    | update changed =>
      obtain ⟨props, rfl, rfl⟩ := h
      simp only [told, Option.map_some, Option.some.injEq, merge_carried_iff]
      refine ⟨fun hno changed props hchanged hprops => ?_, fun hno => hno _ _ rfl rfl⟩
      cases hchanged
      cases hprops
      exact hno

/-! ## runs -/

/-- The calls in question: a join that evicts the topic is not one, nor a flush of an
update that takes away a field that the last flush showed. -/
def Carries (o : Options) (v : Values V J) (topic : String) (s : State V) : Action V → Prop
  | .join ws t selected _ => ∀ data, selected = some data → joins o s ws t = true →
      evictedTopic o (makeRoomForConn o (resolveKey o v s data).2 ws) t ≠ some topic
  | .flush => ∀ key changed props, pendingOp s topic key = some (.update changed) →
      visible o (lastUsers s topic) key = some props → ∀ k, ¬ Erases o v changed props k
  | _ => True

theorem Buffered.replay_iff (h : Buffered o topic s) :
    (newFlush o s).replay o v topic (roster o v (lastUsers s topic)) =
      roster o v (s.topicPresence.get? topic) ↔ Carries o v topic s .flush := by
  rw [funext_iff]
  refine forall_congr' fun key => ?_
  rw [replay_newFlush]
  exact told_eq_iff (h key)

theorem buffered_flushDiffs : Buffered o topic (flushDiffs o s) := fun _ => rfl

theorem Buffered.next {x : Action V} (h : Buffered o topic s) (hok : Carries o v topic s x)
    (hn : next o v s x = some s') : Buffered o topic s' := by
  cases x with
  | join ws t selected subscribes =>
    cases hn
    exact h.moved (moved_join hok)
  | leave ws =>
    cases hn
    exact h.moved moved_leaveAll
  | unsubscribe ws t =>
    cases hn
    unfold unsubscribe
    split
    · exact h
    · exact h.moved moved_leaveTopic
  | update ws t fields fromClient =>
    cases hn
    exact h.call_update
  | flush =>
    cases hn
    exact buffered_flushDiffs

/-- The diffs since any flush make its roster that of the last flush. -/
def Replays (o : Options) (v : Values V J) (topic : String) (s : State V) : Prop :=
  ∀ later f earlier, s.flushes = later ++ f :: earlier →
    later.foldr (fun f r => f.replay o v topic r) (f.roster o v topic) = roster o v (lastUsers s topic)

theorem Replays.next {x : Action V} (h : Replays o v topic s) (hbuf : Buffered o topic s)
    (hok : Carries o v topic s x) (hn : next o v s x = some s') : Replays o v topic s' := by
  -- a call publishes nothing
  have hcall : ∀ s₁ : State V, s₁.flushes = s.flushes → Replays o v topic s₁ := by
    intro s₁ heq
    unfold Replays lastUsers
    rw [heq]
    exact h
  cases x with
  | join ws t selected subscribes =>
    cases hn
    exact hcall _ (moved_join hok).1
  | leave ws =>
    cases hn
    exact hcall _ (moved_leaveAll (t := topic)).1
  | unsubscribe ws t =>
    cases hn
    unfold unsubscribe
    split
    · exact h
    · exact hcall _ (moved_leaveTopic (t := topic)).1
  | update ws t fields fromClient =>
    cases hn
    exact hcall _ flushes_update
  | flush =>
    cases hn
    intro later f earlier heq
    cases later with
    | nil =>
      cases heq
      rfl
    | cons g later =>
      obtain ⟨rfl, hrest⟩ := List.cons.inj heq
      rw [List.foldr_cons, h later f earlier hrest]
      exact hbuf.replay_iff.2 hok

/-- In a run that neither evicts the topic nor flushes an update that takes a field away,
the diffs since any flush make its roster that of the last flush; and wherever such a run
is, the next diff is right just where no update that it carries takes a field away. -/
theorem diffs_replay {as : List (Action V)} (h : (machine o v).Runs (Carries o v topic) as s) :
    (∀ later f earlier g, s.flushes = later ++ f :: earlier → s.flushes.head? = some g →
      later.foldr (fun f r => f.replay o v topic r) (f.roster o v topic) = g.roster o v topic) ∧
    ∀ g, (flushDiffs o s).flushes = g :: s.flushes →
      (g.replay o v topic (roster o v (lastUsers s topic)) = g.roster o v topic ↔
        Carries o v topic s .flush) := by
  have hinv : Buffered o topic s ∧ Replays o v topic s := by
    refine Machine.Runs.invariant (m := machine o v)
      (I := fun s => Buffered o topic s ∧ Replays o v topic s) ⟨fun _ => rfl, fun later _ _ heq => ?_⟩
      (fun _ _ _ hi hok hn => ⟨hi.1.next hok hn, hi.2.next hi.1 hok hn⟩) h
    cases later <;> cases heq
  refine ⟨fun later f earlier g heq hhead => ?_, fun g heq => ?_⟩
  · rw [hinv.2 later f earlier heq, lastUsers, hhead]
    rfl
  · cases List.cons.inj heq |>.1
    exact hinv.1.replay_iff

end

/-- Whole numbers of which JSON leaves out 0. -/
def undefinedIsZero : Values Nat Nat where
  undefined := 0
  json n := if n = 0 then none else some n
  deepEqual a b := decide (a = b)
  sameData a b := decide (a.entries = b.entries)
  text n := some (Nat.repr n)
  byteLength _ := some 1
  frameLength _ := some 1
  nameLength _ := 1
  exceedsDepth _ := false

/-- A call evicts no topic and, at a flush, no buffered update writes 0. -/
def checked (s : State Nat) : Action Nat → Bool
  | .join ws t selected _ => selected.all fun data => (evictedTopic oneTopic
      (makeRoomForConn oneTopic (resolveKey oneTopic undefinedIsZero s data).2 ws) t).isNone
  | .flush => s.pendingDiffs.values.all fun entries => entries.values.all fun op => match op with
      | .update changed => changed.values.all fun x => x != 0
      | _ => true
  | _ => true

theorem carries_of_checked {s : State Nat} {x : Action Nat} (topic : String) (h : checked s x = true) :
    Carries oneTopic undefinedIsZero topic s x := by
  cases x with
  | join ws t selected subscribes =>
    rintro data rfl - heq
    have hroom : (evictedTopic oneTopic
      (makeRoomForConn oneTopic (resolveKey oneTopic undefinedIsZero s data).2 ws) t).isNone = true := h
    rw [heq] at hroom
    cases hroom
  | leave ws | unsubscribe ws t | update ws t fields fromClient => trivial
  | flush =>
    rintro key changed props hop - k ⟨-, ⟨x, hx, hjson⟩, -⟩
    obtain ⟨entries, hentries, hget⟩ := Option.bind_eq_some_iff.1 hop
    have hall := List.all_eq_true.1 h entries (JsMap.mem_values_iff.2 ⟨topic, hentries⟩)
    have hupdate := List.all_eq_true.1 hall (.update changed) (JsMap.mem_values_iff.2 ⟨key, hget⟩)
    have hne := List.all_eq_true.1 hupdate x (JsMap.mem_values_iff.2 ⟨k, hx⟩)
    simp [undefinedIsZero] at hjson hne
    exact hne hjson

/-- User 7 joins, leaves and is back between two flushes, and then has a field. -/
theorem rejoin_replays : ∃ s : State Nat,
    (machine oneTopic undefinedIsZero).Runs (Carries oneTopic undefinedIsZero "room")
      [.join 1 "room" (some user7) true, .flush, .leave 1, .join 2 "room" (some user7) true,
        .update 2 "room" (JsMap.empty.set "mood" 3) false, .flush] s ∧
    ∃ f g, s.flushes = [g, f] ∧ g.replay oneTopic undefinedIsZero "room"
      (f.roster oneTopic undefinedIsZero "room") = g.roster oneTopic undefinedIsZero "room" := by
  obtain ⟨s, hs⟩ : ∃ s : State Nat, (machine oneTopic undefinedIsZero).execIf checked
      (machine oneTopic undefinedIsZero).init
      [.join 1 "room" (some user7) true, .flush, .leave 1, .join 2 "room" (some user7) true,
        .update 2 "room" (JsMap.empty.set "mood" 3) false, .flush] = some s := ⟨_, rfl⟩
  have hrun := Machine.runs_of_execIf (fun _ _ => carries_of_checked "room") hs
  have hlength : s.flushes.length = 2 := by
    cases hs
    decide +kernel
  obtain ⟨g, f, hflushes⟩ := List.length_eq_two.1 hlength
  exact ⟨s, hrun, f, g, hflushes,
    (diffs_replay hrun).1 [g] f [] g hflushes (by rw [hflushes]; rfl)⟩

/-- What the last of two flushes makes of the roster of the one before it. -/
def lastReplay (s : State Nat) (key : String) : Option (String → Option Nat) :=
  match s.flushes with
  | [g, f] => g.replay oneTopic undefinedIsZero "room" (f.roster oneTopic undefinedIsZero "room") key
  | _ => none

/-- A field is set to what JSON leaves out: the diff does not take it away, and the
snapshot does not have it. -/
theorem undefined_stays : ∃ s : State Nat, (machine oneTopic undefinedIsZero).Runs Machine.Any
      [.join 1 "room" (some user7) true, .update 1 "room" (JsMap.empty.set "mood" 3) false, .flush,
        .update 1 "room" (JsMap.empty.set "mood" 0) false, .flush] s ∧
    ∃ f g, s.flushes = [g, f] ∧
      g.replay oneTopic undefinedIsZero "room" (f.roster oneTopic undefinedIsZero "room") ≠
        g.roster oneTopic undefinedIsZero "room" := by
  obtain ⟨s, hs⟩ : ∃ s : State Nat, (machine oneTopic undefinedIsZero).exec
      (machine oneTopic undefinedIsZero).init
      [.join 1 "room" (some user7) true, .update 1 "room" (JsMap.empty.set "mood" 3) false, .flush,
        .update 1 "room" (JsMap.empty.set "mood" 0) false, .flush] = some s := ⟨_, rfl⟩
  have hrun := Machine.runs_of_exec hs
  have hreplay : ((lastReplay s "7").bind fun props => props "mood") = some 3 := by
    cases hs
    decide +kernel
  have hroster : ((roster oneTopic undefinedIsZero (s.topicPresence.get? "room") "7").bind
      fun props => props "mood") = none := by
    cases hs
    decide +kernel
  have hlast : s.flushes.length = 2 ∧ ∀ g, s.flushes.head? = some g → g.topicPresence = s.topicPresence := by
    cases hs
    refine ⟨by decide +kernel, fun g heq => ?_⟩
    cases heq
    rfl
  obtain ⟨g, f, hflushes⟩ := List.length_eq_two.1 hlast.1
  refine ⟨s, hrun, f, g, hflushes, fun heq => ?_⟩
  rw [lastReplay, hflushes] at hreplay
  rw [← hlast.2 g (by rw [hflushes]; rfl)] at hroster
  have := hreplay.symm.trans ((congrArg (fun r => (r "7").bind fun props => props "mood") heq).trans hroster)
  cases this

end BunServe.Presence
