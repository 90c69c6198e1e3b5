import BunServe.Presence.Accounting

/-!
# BunServe.Presence.FailedJoin

A join whose subscription fails.  It is rolled back by leaving, which undoes the count
but neither an eviction nor the data that the join wrote over.
-/

namespace BunServe.Presence

open State (entry keyOn)

variable {V J : Type}

section

variable {o : Options} {v : Values V J} {s s' : State V} {ws ws' : Conn} {topic key t k : String}

/-! ## what is recorded -/

theorem forgetTopic_delete : (forgetTopic s ws topic).wsTopics.delete ws = s.wsTopics.delete ws := by
  unfold forgetTopic
  split
  · rfl
  · simp only
    split
    · exact JsMap.delete_delete _ _
    · exact JsMap.delete_set _ _ _

theorem leaveTopic_delete : (leaveTopic o s ws topic).wsTopics.delete ws = s.wsTopics.delete ws := by
  unfold leaveTopic
  split
  · rfl
  · rw [uncount_wsTopics]
    exact forgetTopic_delete

theorem wsTopics_leaveAll : (leaveAll o s ws).wsTopics = s.wsTopics.delete ws := by
  have hfold : ∀ topics : List String, ∀ s : State V,
      (topics.foldl (fun s topic => leaveTopic o s ws topic) s).wsTopics.delete ws =
        s.wsTopics.delete ws := by
    intro topics
    induction topics with
    | nil => exact fun _ => rfl
    | cons topic topics ih => exact fun s => (ih _).trans leaveTopic_delete
  unfold leaveAll
  cases hget : s.wsTopics.get? ws with
  | none => exact (JsMap.delete_eq_self hget).symm
  | some connTopics => exact hfold _ s

theorem keyOn_trackConn : (trackConn o s ws topic key).keyOn ws topic = some key := by
  simp [trackConn, keyOn]

theorem recorded_rolledBack (key : String) (data : Obj V) (hnone : s.keyOn ws topic = none)
    (hroom : evictedTopic o (makeRoomForConn o s ws) topic = none) :
    recorded (leaveTopic o (trackTopic o v (trackConn o s ws topic key) topic key data) ws topic) t k =
      recorded (makeRoomForConn o s ws) t k := by
  have htrack : recorded (trackConn o s ws topic key) t k =
      recorded (makeRoomForConn o s ws) t k + one topic key t k :=
    recorded_track (by rw [keyOn_makeRoomForConn]; exact hnone) rfl
  obtain ⟨_, -, hws, -⟩ := trackTopic_spec (s := trackConn o s ws topic key)
    hroom
  have hkey : (trackTopic o v (trackConn o s ws topic key) topic key data).keyOn ws topic = some key := by
    rw [keyOn, hws]
    exact keyOn_trackConn
  generalize trackTopic o v (trackConn o s ws topic key) topic key data = s₁ at *
  have hforget := recorded_forgetTopic (t := t) (k := k) hkey
  have hsame : recorded s₁ t k = recorded (trackConn o s ws topic key) t k := by
    rw [recorded, hws]
    rfl
  unfold leaveTopic
  rw [hkey]
  simp only [recorded, uncount_wsTopics]
  simp only [recorded] at hforget hsame htrack
  omega

/-! ## what is stored -/

theorem uncount_tracked {tp : JsMap String (Users V)} {e : Entry V}
    (htopics : ∀ topic users, tp.get? topic = some users → users.size ≠ 0)
    (hpres : s.topicPresence = tp.set topic (((tp.get? topic).getD .empty).set key e)) :
    (((tp.get? topic).getD .empty).get? key = none → e.count = 1 →
        (uncount o s topic key).topicPresence = tp) ∧
      (0 < e.count - 1 → (uncount o s topic key).topicPresence =
        tp.set topic (((tp.get? topic).getD .empty).set key { e with count := e.count - 1 })) := by
  have hget : s.topicPresence.get? topic = some (((tp.get? topic).getD .empty).set key e) := by
    rw [hpres, JsMap.get?_set_self]
  refine ⟨fun hnone hone => ?_, fun hpos => ?_⟩
  · simp only [uncount, hget, JsMap.get?_set_self]
    rw [if_pos (by omega)]
    simp only [removeUser, JsMap.delete_set_self hnone, hpres]
    cases htopic : tp.get? topic with
    | none =>
      exact JsMap.delete_set_self htopic _
    | some users =>
      rw [Option.getD_some, if_neg (htopics topic users htopic), JsMap.set_set_self]
      exact JsMap.set_eq_self htopic
  · simp only [uncount, hget, JsMap.get?_set_self]
    rw [if_neg (by omega)]
    simp only [hpres, JsMap.set_set_self]

theorem rolledBack_iff {data : Obj V} (h : Inv s) (hjoins : joins o s ws topic = true)
    (hroom : evictedTopic o (makeRoomForConn o (resolveKey o v s data).2 ws) topic = none) :
    (join o v s ws topic (some data) false).topicPresence = s.topicPresence ↔
      evictedConn o s ws = none ∧ ∀ existing, s.entry topic (resolveKey o v s data).1 = some existing →
        v.sameData existing.data data = true ∨ existing.data = data := by
  obtain ⟨hkeys, htopics⟩ := resolveKey_spec data
  have hinv := h.congr hkeys htopics
  have hafter : Inv (join o v s ws topic (some data) false) := h.join fun _ => hroom
  have hjoin : join o v s ws topic (some data) false = leaveTopic o (trackTopic o v
      (trackConn o (resolveKey o v s data).2 ws topic (resolveKey o v s data).1) topic
      (resolveKey o v s data).1 data) ws topic := by
    rw [join, if_pos hjoins]
    rfl
  have hnone : (resolveKey o v s data).2.keyOn ws topic = none := by
    rw [keyOn, hkeys]
    exact keyOn_of_joins hjoins
  have hevicted : evictedConn o s ws = evictedConn o (resolveKey o v s data).2 ws := by
    rw [evictedConn, evictedConn, hkeys]
  have hentry : ∀ t k, s.entry t k = (resolveKey o v s data).2.entry t k := by
    intro t k
    rw [entry, entry, htopics]
  rw [hevicted, ← htopics]
  simp only [hentry]
  rw [hjoin] at hafter ⊢
  have hrec := fun t k => recorded_rolledBack (v := v) (t := t) (k := k)
    (resolveKey o v s data).1 data hnone hroom
  generalize (resolveKey o v s data).1 = key at *
  generalize (resolveKey o v s data).2 = s₀ at *
  cases hconn : evictedConn o s₀ ws with
  | some oldest =>
    -- the evicted connection is counted no more
    refine iff_of_false (fun heq => ?_) fun hand => by cases hand.1
    have hmake : makeRoomForConn o s₀ ws = leaveAll o s₀ oldest := by rw [makeRoomForConn, hconn]
    have hget : ∃ connTopics, s₀.wsTopics.get? oldest = some connTopics := by
      unfold evictedConn at hconn
      split at hconn
      · cases hconn
      · split at hconn
        · exact JsMap.mem_keys_iff.1 (List.mem_of_mem_head? (by rw [hconn]; rfl))
        · cases hconn
    obtain ⟨connTopics, hget⟩ := hget
    have hsize := hinv.conns oldest connTopics hget
    rw [← JsMap.length_keys] at hsize
    obtain ⟨t, ht⟩ := List.exists_mem_of_length_pos (Nat.pos_of_ne_zero hsize)
    obtain ⟨k, hk⟩ := JsMap.mem_keys_iff.1 ht
    have hone : countsAs t k connTopics = 1 := if_pos hk
    have hless : recorded (leaveAll o s₀ oldest) t k = recorded s₀ t k - 1 := by
      rw [recorded, wsTopics_leaveAll, JsMap.sum_delete _ hget, hone]
      rfl
    have hsame := hafter.counts t k
    rw [hrec, hmake, hless, ← hinv.counts] at hsame
    simp only [stored, entry, heq] at hsame
    omega
  | none =>
    have hmake : makeRoomForConn o s₀ ws = s₀ := by rw [makeRoomForConn, hconn]
    have htrack : (trackConn o s₀ ws topic key).topicPresence = s₀.topicPresence := by
      simp [trackConn, hmake]
    have hsame : ∀ t k, (trackConn o s₀ ws topic key).entry t k = s₀.entry t k := by
      intro t k
      rw [entry, htrack]
      rfl
    obtain ⟨e, hcount, hws, hpres, hdata, hfields, hbytes⟩ := trackTopic_spec
      (s := trackConn o s₀ ws topic key) hroom
    rw [htrack] at hpres
    rw [hsame] at hfields hbytes
    have hstored : stored (trackConn o s₀ ws topic key) topic key = stored s₀ topic key := by
      rw [stored, hsame]
      rfl
    rw [hstored] at hcount
    have hkey : (trackTopic o v (trackConn o s₀ ws topic key) topic key data).keyOn ws topic = some key := by
      rw [keyOn, hws]
      exact keyOn_trackConn
    generalize trackTopic o v (trackConn o s₀ ws topic key) topic key data = s₁ at *
    have hforget : (forgetTopic s₁ ws topic).topicPresence =
        s₀.topicPresence.set topic (((s₀.topicPresence.get? topic).getD .empty).set key e) := by
      rw [forgetTopic_topicPresence, hpres]
    obtain ⟨hnew, hold⟩ := uncount_tracked hinv.topics hforget
    have hleave : leaveTopic o s₁ ws topic = uncount o (forgetTopic s₁ ws topic) topic key := by
      rw [leaveTopic, hkey]
    have husers : s₀.entry topic key = ((s₀.topicPresence.get? topic).getD .empty).get? key := by
      cases htopic : s₀.topicPresence.get? topic <;> simp [entry, htopic]
    rw [hleave]
    simp only [true_and]
    cases hexisting : s₀.entry topic key with
    | none =>
      rw [husers] at hexisting
      have hzero : stored s₀ topic key = 0 := by rw [stored, husers, hexisting]; rfl
      exact iff_of_true (hnew hexisting (by omega)) (by simp)
    | some existing =>
      have hpos := hinv.positive topic key existing hexisting
      have hcount' : e.count = existing.count + 1 := by
        rw [hcount, stored, hexisting]
        rfl
      rw [hold (by omega)]
      have hentry' : ({ e with count := e.count - 1 } : Entry V) = existing ↔ e.data = existing.data := by
        obtain ⟨data₂, fields₂, bytes₂, count₂⟩ := existing
        rw [hexisting] at hfields hbytes
        simp only [Option.getD_some] at hfields hbytes hcount'
        simp only [Entry.mk.injEq]
        exact ⟨fun hand => hand.1, fun heq => ⟨heq, hfields, hbytes, by omega⟩⟩
      have hget : ((s₀.topicPresence.get? topic).getD .empty).get? key = some existing :=
        husers.symm.trans hexisting
      have hmap : s₀.topicPresence.set topic (((s₀.topicPresence.get? topic).getD .empty).set key
            { e with count := e.count - 1 }) = s₀.topicPresence ↔
          ({ e with count := e.count - 1 } : Entry V) = existing := by
        refine ⟨fun heq => ?_, fun heq => ?_⟩
        · have hlookup := congrArg (fun tp => (tp.get? topic).bind fun users => users.get? key) heq
          simp only [JsMap.get?_set_self, Option.bind_some] at hlookup
          exact Option.some.inj (hlookup.trans hexisting)
        · rw [heq, JsMap.set_eq_self hget]
          cases htopic : s₀.topicPresence.get? topic with
          | none => simp [entry, htopic] at hexisting
          | some users => exact JsMap.set_eq_self htopic
      rw [hmap, hentry']
      simp only [Option.some.injEq, forall_eq']
      rw [hsame, hexisting, Option.elim_some] at hdata
      rw [hdata]
      split
      · next hsame => exact iff_of_true rfl (.inl hsame)
      · next hsame =>
        exact ⟨fun heq => .inr heq.symm, fun hor => (hor.resolve_left hsame).symm⟩

/-! ## runs -/

/-- In a run that evicts no topic, what is stored is what is recorded; and a join that
fails leaves the rosters as they were just where it evicted no connection and wrote over
no data. -/
theorem presence_accounting {as : List (Action V)} (h : (machine o v).Runs (Keeps o v) as s) :
    (∀ topic key, stored s topic key = recorded s topic key) ∧
    (∀ topic key, (s.entry topic key).isSome ↔ 0 < recorded s topic key) ∧
    (∀ ws topic key, s.keyOn ws topic = some key → (s.entry topic key).isSome) ∧
    (∀ ws topic selected subscribes, joins o s ws topic = false ∨ selected = none →
      join o v s ws topic selected subscribes = s) ∧
    ∀ ws topic data, joins o s ws topic = true → Keeps o v s (.join ws topic (some data) false) →
      ((join o v s ws topic (some data) false).topicPresence = s.topicPresence ↔
        evictedConn o s ws = none ∧ ∀ existing, s.entry topic (resolveKey o v s data).1 = some existing →
          v.sameData existing.data data = true ∨ existing.data = data) := by
  have hinv := inv_of_run h
  refine ⟨hinv.counts, fun topic key => ?_, fun ws topic key hkey => ?_, ?_,
    fun ws topic data hjoins hkeeps => rolledBack_iff hinv hjoins (hkeeps hjoins)⟩
  · rw [← hinv.counts]
    cases hentry : s.entry topic key with
    | none => simp [stored, hentry]
    | some e =>
      have := hinv.positive topic key e hentry
      simpa [stored, hentry] using this
  · obtain ⟨e, he⟩ := hinv.entry_of_keyOn hkey
    rw [he]
    rfl
  · rintro ws topic selected subscribes (hjoins | rfl)
    · unfold join
      rw [hjoins, if_neg Bool.false_ne_true]
    · unfold join
      split <;> rfl

end

def numbers : Values Nat Nat where
  undefined := 0
  json := some
  deepEqual a b := decide (a = b)
  sameData a b := decide (a.entries = b.entries)
  text n := some (Nat.repr n)
  byteLength _ := some 1
  frameLength _ := some 1
  nameLength _ := 1
  exceedsDepth _ := false

def oneTopic : Options where
  keyField := "id"
  transientFields := []
  clientUpdateFields := none
  isReservedField _ := false
  maxConnections := 10
  maxTopics := 1
  maxTopicsPerConnection := 10
  maxFieldsBytes := 100
  maxTotalFieldsBytes := 100

def user7 : Obj Nat := JsMap.empty.set "id" 7

/-- A second tab, and a third whose socket is closed. -/
theorem tabs_counted : ∃ s : State Nat, (machine oneTopic numbers).Runs (Keeps oneTopic numbers)
      [.join 1 "room" (some user7) true, .join 2 "room" (some user7) true] s ∧
    stored s "room" "7" = 2 ∧ recorded s "room" "7" = 2 ∧
    (join oneTopic numbers s 3 "room" (some user7) false).topicPresence = s.topicPresence := by
  obtain ⟨s, hs⟩ : ∃ s : State Nat, (machine oneTopic numbers).execIf
      (fun s x => decide (Keeps oneTopic numbers s x)) (machine oneTopic numbers).init
      [.join 1 "room" (some user7) true, .join 2 "room" (some user7) true] = some s := ⟨_, rfl⟩
  have hrun := Machine.runs_of_execIf (fun _ _ hok => of_decide_eq_true hok) hs
  obtain ⟨hcounts, -, -, -, hfailed⟩ := presence_accounting hrun
  have hstored : stored s "room" "7" = 2 := by
    cases hs
    decide +kernel
  refine ⟨s, hrun, hstored, (hcounts "room" "7").symm.trans hstored, ?_⟩
  refine (hfailed 3 "room" user7 ?_ ?_).2 ⟨?_, ?_⟩
  · cases hs
    decide +kernel
  · cases hs
    decide +kernel
  · cases hs
    decide +kernel
  · cases hs
    rintro existing heq
    cases heq
    exact .inl (by decide)

/-- A topic is evicted, and its connection is on a topic without a roster. -/
theorem evicted_topic_unaccounted : ∃ s : State Nat, (machine oneTopic numbers).Runs Machine.Any
      [.join 1 "a" (some user7) true, .join 2 "b" (some user7) true] s ∧
    stored s "a" "7" = 0 ∧ recorded s "a" "7" = 1 := by
  obtain ⟨s, hs⟩ : ∃ s : State Nat, (machine oneTopic numbers).exec (machine oneTopic numbers).init
      [.join 1 "a" (some user7) true, .join 2 "b" (some user7) true] = some s := ⟨_, rfl⟩
  refine ⟨s, Machine.runs_of_exec hs, ?_⟩
  cases hs
  decide +kernel

end BunServe.Presence
