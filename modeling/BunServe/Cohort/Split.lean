import BunServe.Cohort

/-!
# BunServe.Cohort.Split

The shared cohorts are a split, over all runs of joins, leaves and closes.

* `Table.Sound` — ids are assigned once, and an entry has a reference;
* `Connection.Placed` — an open connection is in the cohort it is recorded in;
* `Inv` — the references of a topic are the connections recorded and the announces
  under way, and each of both has the id of the table;
* `cohorts_split` — every run.
-/

namespace BunServe.Cohort

open Machine
open JsMap (get?_set of_get?_set sum_set_old)

/-! ## names -/

theorem bin_inj {t t' : String} : bin t = bin t' ↔ t = t' := by
  refine ⟨fun h => ?_, fun h => by rw [h]⟩
  have hlist := congrArg String.toList h
  simp only [bin, String.toList_append] at hlist
  exact String.toList_inj.mp (List.append_cancel_right hlist)

theorem json_inj {t t' : String} : json t = json t' ↔ t = t' := by
  refine ⟨fun h => ?_, fun h => by rw [h]⟩
  have hlist := congrArg String.toList h
  simp only [json, String.toList_append] at hlist
  exact String.toList_inj.mp (List.append_cancel_right hlist)

theorem bin_ne_json (t t' : String) : bin t ≠ json t' := by
  intro h
  have hlist := congrArg (fun s => s.toList.reverse.take 2) h
  simp [bin, json] at hlist

/-! ## the table -/

namespace Table

structure Sound (t : Table) : Prop where
  positive : ∀ topic e, t.byTopic.get? topic = some e → 0 < e.refs
  current : ∀ topic e, t.byTopic.get? topic = some e → (e.id, topic) ∈ t.assigned
  below : ∀ x ∈ t.assigned, x.1 < t.nextId
  distinct : (t.assigned.map Prod.fst).Nodup

theorem sound_create : createSharedWireIdTable.Sound := by
  constructor
  all_goals simp [createSharedWireIdTable]

theorem refs_acquire (t : Table) (topic topic' : String) :
    (t.acquire topic).2.refs topic' = t.refs topic' + if topic' = topic then 1 else 0 := by
  unfold acquire refs
  split
  · next e he =>
    simp only [get?_set]
    by_cases h : topic' = topic
    · simp [h, he]
    · simp [h]
  · next hnone =>
    simp only [get?_set]
    by_cases h : topic' = topic
    · simp [h, hnone]
    · simp [h]

theorem get_acquire_self (t : Table) (topic : String) :
    (t.acquire topic).2.get topic = some (t.acquire topic).1 := by
  unfold acquire get
  split
  · simp
  · simp

theorem get_acquire {t : Table} {topic' : String} {id : Nat} (h : t.get topic' = some id)
    (topic : String) : (t.acquire topic).2.get topic' = some id := by
  unfold acquire get at *
  split
  · next e he =>
    simp only [get?_set]
    by_cases heq : topic' = topic
    · simpa [heq, he] using h
    · simpa [heq] using h
  · next hnone =>
    simp only [get?_set]
    by_cases heq : topic' = topic
    · simp [heq, hnone] at h
    · simpa [heq] using h

theorem Sound.acquire {t : Table} (h : t.Sound) (topic : String) : (t.acquire topic).2.Sound := by
  unfold Table.acquire
  split
  · next e he =>
    refine ⟨?_, ?_, h.below, h.distinct⟩
    · intro topic' e' he'
      obtain ⟨-, rfl⟩ | ⟨-, he'⟩ := of_get?_set he'
      · have := h.positive topic e he
        show 0 < e.refs + 1
        omega
      · exact h.positive topic' e' he'
    · intro topic' e' he'
      obtain ⟨heq, rfl⟩ | ⟨-, he'⟩ := of_get?_set he'
      · rw [heq]
        exact h.current topic e he
      · exact h.current topic' e' he'
  · next hnone =>
    refine ⟨?_, ?_, ?_, ?_⟩
    · intro topic' e' he'
      obtain ⟨-, rfl⟩ | ⟨-, he'⟩ := of_get?_set he'
      · exact Int.one_pos
      · exact h.positive topic' e' he'
    · intro topic' e' he'
      obtain ⟨heq, rfl⟩ | ⟨-, he'⟩ := of_get?_set he'
      · rw [heq]
        exact List.mem_cons_self ..
      · exact List.mem_cons_of_mem _ (h.current topic' e' he')
    · intro x hx
      cases List.mem_cons.mp hx with
      | inl heq =>
        rw [heq]
        exact Nat.lt_succ_self _
      | inr hmem => exact Nat.lt_succ_of_lt (h.below x hmem)
    · rw [List.map_cons, List.nodup_cons]
      refine ⟨fun hmem => ?_, h.distinct⟩
      obtain ⟨x, hx, heq⟩ := List.mem_map.mp hmem
      have := h.below x hx
      omega

theorem refs_release {t : Table} (h : t.Sound) {topic : String} (hpos : 0 < t.refs topic)
    (topic' : String) :
    (t.release topic).refs topic' = t.refs topic' - if topic' = topic then 1 else 0 := by
  unfold release
  cases he : t.byTopic.get? topic with
  | none => simp [refs, he] at hpos
  | some e =>
    have hpose := h.positive topic e he
    simp only
    split
    · next hle =>
      have hone : e.refs = 1 := by omega
      simp only [refs, JsMap.get?_delete]
      by_cases heq : topic' = topic
      · simp [heq, he, hone]
      · simp [heq]
    · simp only [refs, get?_set]
      by_cases heq : topic' = topic
      · simp [heq, he]
      · simp [heq]

theorem get_release {t : Table} {topic' : String} {id : Nat} (h : t.get topic' = some id)
    (topic : String) (hpos : 0 < (t.release topic).refs topic') :
    (t.release topic).get topic' = some id := by
  unfold release at *
  split
  · exact h
  rename_i e he
  rw [he] at hpos
  simp only at hpos
  split
  · next hle =>
    rw [if_pos hle] at hpos
    by_cases heq : topic' = topic
    · simp [refs, heq] at hpos
    · simpa [get, JsMap.get?_delete, heq] using h
  · by_cases heq : topic' = topic
    · simpa [get, heq, he] using h
    · simpa [get, get?_set, heq] using h

theorem Sound.release {t : Table} (h : t.Sound) (topic : String) : (t.release topic).Sound := by
  unfold Table.release
  split
  · exact h
  rename_i e he
  split
  · refine ⟨?_, ?_, h.below, h.distinct⟩
    · intro topic' e' he'
      exact h.positive topic' e' (JsMap.of_get?_delete he').2
    · intro topic' e' he'
      exact h.current topic' e' (JsMap.of_get?_delete he').2
  · next hgt =>
    refine ⟨?_, ?_, h.below, h.distinct⟩
    · intro topic' e' he'
      obtain ⟨-, rfl⟩ | ⟨-, he'⟩ := of_get?_set he'
      · show 0 < e.refs - 1
        omega
      · exact h.positive topic' e' he'
    · intro topic' e' he'
      obtain ⟨heq, rfl⟩ | ⟨-, he'⟩ := of_get?_set he'
      · rw [heq]
        exact h.current topic e he
      · exact h.current topic' e' he'

theorem release_all {t : Table} (h : t.Sound) {topics : List String} (hnodup : topics.Nodup)
    (hpos : ∀ topic ∈ topics, 0 < t.refs topic) :
    (topics.foldl Table.release t).Sound ∧
      (∀ topic', (topics.foldl Table.release t).refs topic' =
        t.refs topic' - if topic' ∈ topics then 1 else 0) ∧
      ∀ topic' id, t.get topic' = some id → 0 < (topics.foldl Table.release t).refs topic' →
        (topics.foldl Table.release t).get topic' = some id := by
  induction topics generalizing t with
  | nil => exact ⟨h, by simp, fun _ _ hget _ => hget⟩
  | cons topic topics ih =>
    obtain ⟨hnot, hnodup⟩ := List.nodup_cons.mp hnodup
    have hrefs := refs_release h (hpos topic (List.mem_cons_self ..))
    have hrest : ∀ topic' ∈ topics, 0 < (t.release topic).refs topic' := by
      intro topic' hmem
      have hne : topic' ≠ topic := fun heq => hnot (heq ▸ hmem)
      rw [hrefs, if_neg hne]
      have := hpos topic' (List.mem_cons_of_mem _ hmem)
      omega
    obtain ⟨hsound, hall, hget⟩ := ih (h.release topic) hnodup hrest
    refine ⟨hsound, fun topic' => ?_, fun topic' id hid hpos' => ?_⟩
    · rw [List.foldl_cons, hall, hrefs]
      by_cases heq : topic' = topic
      · simp [heq, hnot]
      · simp [heq]
    · refine hget topic' id (get_release hid topic ?_) hpos'
      have := hall topic'
      rw [List.foldl_cons] at hpos'
      omega

end Table

/-! ## the counts -/

def member (topic : String) (c : Connection) : Int := if topic ∈ c.cohorts then 1 else 0

/-- How many connections are recorded in the binary cohort. -/
def State.recorded (s : State) (topic : String) : Int := s.conns.sum (member topic)

def Frame.announces (topic : String) : Frame → Bool
  | .announcing _ topic' _ => topic' = topic
  | .closing _ => false

/-- How many announces of the topic are under way. -/
def State.pending (s : State) (topic : String) : Int := s.stack.countP (Frame.announces topic)

theorem member_nonneg (topic : String) (c : Connection) : 0 ≤ member topic c := by
  unfold member
  split <;> decide

theorem member_congr {c c' : Connection} {topic : String}
    (h : topic ∈ c'.cohorts ↔ topic ∈ c.cohorts) : member topic c' = member topic c := by
  simp only [member, h]

theorem recorded_nonneg (s : State) (topic : String) : 0 ≤ s.recorded topic :=
  JsMap.sum_nonneg (member_nonneg topic) _

theorem recorded_pos {s : State} {ws : Nat} {c : Connection} (h : s.conns.get? ws = some c)
    {topic : String} (hmem : topic ∈ c.cohorts) : 0 < s.recorded topic := by
  have hle := JsMap.le_sum (member_nonneg topic) h
  have hone : member topic c = 1 := by simp [member, hmem]
  unfold State.recorded
  omega

theorem pending_nonneg (s : State) (topic : String) : 0 ≤ s.pending topic := by
  unfold State.pending
  omega

theorem pending_pos {s : State} {ws : Nat} {topic : String} {id : Nat}
    (h : .announcing ws topic id ∈ s.stack) : 0 < s.pending topic := by
  have := List.countP_pos_iff.mpr ⟨_, h, (by simp [Frame.announces] : Frame.announces topic
    (.announcing ws topic id) = true)⟩
  unfold State.pending
  omega

/-! ## the invariant -/

namespace Connection

/-- An open connection is on the native topic of the binary cohort when it is
recorded there, and else, having joined, on that of the JSON cohort; never on both. -/
structure Placed (c : Connection) : Prop where
  binary : ∀ topic, bin topic ∈ c.subscriptions ↔ topic ∈ c.cohorts
  joined : ∀ topic ∈ c.joined, topic ∈ c.cohorts ∨ json topic ∈ c.subscriptions
  single : ∀ topic ∈ c.cohorts, json topic ∉ c.subscriptions

structure Ok (table : Table) (c : Connection) : Prop where
  nodup : c.cohorts.Nodup
  told : ∀ topic ∈ c.cohorts,
    ∃ id, table.get topic = some id ∧ c.announced.get? topic = some id
  placed : c.isOpen = true → c.Placed

end Connection

structure Inv (s : State) : Prop where
  table : s.table.Sound
  refs : ∀ topic, s.table.refs topic = s.recorded topic + s.pending topic
  conns : ∀ ws c, s.conns.get? ws = some c → c.Ok s.table
  held : ∀ ws topic id, .announcing ws topic id ∈ s.stack → s.table.get topic = some id

def Frame.ws : Frame → Nat
  | .announcing ws _ _ => ws
  | .closing ws => ws

def State.Gone (s : State) (ws : Nat) : Prop :=
  ∃ c, s.conns.get? ws = some c ∧ c.isOpen = false

/-- What waits is about connections that are closed. -/
def State.Quiet (s : State) : Prop := ∀ f ∈ s.stack, s.Gone f.ws

/-- So is all but an announce that has no answer yet. -/
def State.Settled (s : State) : Prop :=
  match s.stack with
  | .announcing ws topic _ :: stack =>
    (∀ f ∈ stack, s.Gone f.ws) ∧
      ∃ c, s.conns.get? ws = some c ∧ (c.isOpen = true → topic ∉ c.cohorts)
  | _ => s.Quiet

theorem State.Quiet.settled {s : State} (h : s.Quiet) : s.Settled := by
  unfold State.Settled
  split
  · next ws topic id stack heq =>
    have hall : ∀ f ∈ Frame.announcing ws topic id :: stack, s.Gone f.ws := heq ▸ h
    obtain ⟨c, hc, hclosed⟩ := hall _ (List.mem_cons_self ..)
    refine ⟨fun f hf => hall f (List.mem_cons_of_mem _ hf), c, hc, ?_⟩
    simp [hclosed]
  · exact h

theorem State.Settled.quiet {s : State} (h : s.Settled) (hfree : s.free = true) : s.Quiet := by
  unfold State.Settled at h
  unfold State.free at hfree
  split at hfree
  · next heq => simpa [heq] using h
  · next heq => simpa [heq] using h
  · contradiction

theorem Gone_set {s : State} {ws ws' : Nat} {c c' : Connection} (hc : s.conns.get? ws = some c)
    (hopen : c'.isOpen = true → c.isOpen = true) (h : s.Gone ws') :
    ∃ d, (s.conns.set ws c').get? ws' = some d ∧ d.isOpen = false := by
  obtain ⟨d, hd, hclosed⟩ := h
  by_cases heq : ws' = ws
  · subst heq
    obtain rfl : c = d := by simpa [hc] using hd
    refine ⟨c', by simp, ?_⟩
    cases hc' : c'.isOpen with
    | false => rfl
    | true => simp [hopen hc'] at hclosed
  · exact ⟨d, by rw [JsMap.get?_set_ne _ _ heq, hd], hclosed⟩

/-! ## what is done to a connection -/

theorem filter_ne_self {topics : List String} {topic : String} (h : topic ∉ topics) :
    topics.filter (· ≠ topic) = topics := by
  apply List.filter_eq_self.mpr
  intro t ht
  have hne : t ≠ topic := fun heq => h (heq ▸ ht)
  simpa using hne

namespace Connection

variable (c : Connection) (name topic : String)

@[simp] theorem subscribe_isOpen : (c.subscribe name).isOpen = c.isOpen := by
  unfold subscribe
  split <;> rfl

@[simp] theorem subscribe_cohorts : (c.subscribe name).cohorts = c.cohorts := by
  unfold subscribe
  split <;> rfl

@[simp] theorem subscribe_announced : (c.subscribe name).announced = c.announced := by
  unfold subscribe
  split <;> rfl

@[simp] theorem subscribe_joined : (c.subscribe name).joined = c.joined := by
  unfold subscribe
  split <;> rfl

@[simp] theorem unsubscribe_isOpen : (c.unsubscribe name).isOpen = c.isOpen := by
  unfold unsubscribe
  split <;> rfl

@[simp] theorem unsubscribe_cohorts : (c.unsubscribe name).cohorts = c.cohorts := by
  unfold unsubscribe
  split <;> rfl

@[simp] theorem unsubscribe_announced : (c.unsubscribe name).announced = c.announced := by
  unfold unsubscribe
  split <;> rfl

@[simp] theorem unsubscribe_joined : (c.unsubscribe name).joined = c.joined := by
  unfold unsubscribe
  split <;> rfl

variable {c}

theorem mem_subscribe (h : c.isOpen = true) (x : String) :
    x ∈ (c.subscribe name).subscriptions ↔ x = name ∨ x ∈ c.subscriptions := by
  by_cases hx : x = name
  · simp [subscribe, h, hx]
  · simp [subscribe, h, hx]

theorem mem_unsubscribe (h : c.isOpen = true) (x : String) :
    x ∈ (c.unsubscribe name).subscriptions ↔ x ∈ c.subscriptions ∧ x ≠ name := by
  simp [unsubscribe, h]

theorem Ok.of {table : Table} {c' : Connection} (h : c.Ok table) (hnodup : c'.cohorts.Nodup)
    (hsub : ∀ topic ∈ c'.cohorts, topic ∈ c.cohorts) (hann : c'.announced = c.announced)
    (hplaced : c'.isOpen = true → c'.Placed) : c'.Ok table := by
  refine ⟨hnodup, fun topic hmem => ?_, hplaced⟩
  rw [hann]
  exact h.told topic (hsub topic hmem)

theorem Placed.toJson (h : c.Placed) (topic : String) {c' : Connection}
    (hopen' : c'.isOpen = true) (hcohorts : c'.cohorts = c.cohorts.filter (· ≠ topic))
    (hjoined : c'.joined = c.joined)
    (hsubs : ∀ x, x ∈ c'.subscriptions ↔ x ∈ c.subscriptions ∧ (topic ∈ c.cohorts → x ≠ bin topic)) :
    ((c'.subscribe (json topic)).join topic).Placed := by
  constructor
  · intro t
    have hsub : bin t ∈ ((c'.subscribe (json topic)).join topic).subscriptions ↔
        bin t = json topic ∨ bin t ∈ c'.subscriptions := mem_subscribe _ hopen' _
    have hco : ((c'.subscribe (json topic)).join topic).cohorts = c'.cohorts := by simp [join]
    have hbin := h.binary t
    rw [hsub, hsubs, hco, hcohorts, List.mem_filter, hbin]
    simp only [bin_ne_json, false_or, ne_eq, bin_inj, decide_not, Bool.not_eq_eq_eq_not,
      Bool.not_true, decide_eq_false_iff_not]
    constructor
    · intro ⟨hmem, hne⟩
      exact ⟨hmem, fun heq => hne (heq ▸ hmem) heq⟩
    · intro ⟨hmem, hne⟩
      exact ⟨hmem, fun _ => hne⟩
  · intro t ht
    have hsub : json t ∈ ((c'.subscribe (json topic)).join topic).subscriptions ↔
        json t = json topic ∨ json t ∈ c'.subscriptions := mem_subscribe _ hopen' _
    have hco : ((c'.subscribe (json topic)).join topic).cohorts = c'.cohorts := by simp [join]
    rw [hsub, hsubs, hco, hcohorts]
    by_cases heq : t = topic
    · simp [heq]
    · have hmem : t ∈ c.joined := by simpa [join, hjoined, heq] using ht
      cases h.joined t hmem with
      | inl hin => simp [hin, heq]
      | inr hin => simp [hin, Ne.symm (bin_ne_json _ _)]
  · intro t ht
    have hsub : json t ∈ ((c'.subscribe (json topic)).join topic).subscriptions ↔
        json t = json topic ∨ json t ∈ c'.subscriptions := mem_subscribe _ hopen' _
    have ht' : t ∈ c.cohorts ∧ t ≠ topic := by simpa [join, hcohorts] using ht
    have hnot := h.single t ht'.1
    rw [hsub, hsubs]
    simp [json_inj, ht'.2, hnot]

theorem Placed.toBin (h : c.Placed) (topic : String) {c' : Connection}
    (hopen' : c'.isOpen = true) (hcohorts : c'.cohorts = topic :: c.cohorts.filter (· ≠ topic))
    (hjoined : c'.joined = c.joined) (hsubs : c'.subscriptions = c.subscriptions) :
    (((c'.unsubscribe (json topic)).subscribe (bin topic)).join topic).Placed := by
  have hmem : ∀ x, x ∈ (((c'.unsubscribe (json topic)).subscribe (bin topic)).join
      topic).subscriptions ↔ x = bin topic ∨ (x ∈ c.subscriptions ∧ x ≠ json topic) := by
    intro x
    have hsub := mem_subscribe (c := c'.unsubscribe (json topic)) (bin topic) (by simpa) x
    rw [mem_unsubscribe _ hopen', hsubs] at hsub
    exact hsub
  have hco : ∀ t, t ∈ (((c'.unsubscribe (json topic)).subscribe (bin topic)).join topic).cohorts ↔
      t = topic ∨ (t ∈ c.cohorts ∧ t ≠ topic) := by
    intro t
    simp [join, hcohorts]
  constructor
  · intro t
    rw [hmem, hco, h.binary, bin_inj]
    have := bin_ne_json t topic
    by_cases heq : t = topic
    · simp [heq]
    · simp [heq, this]
  · intro t ht
    rw [hmem, hco]
    by_cases heq : t = topic
    · simp [heq]
    · have hin : t ∈ c.joined := by simpa [join, hjoined, heq] using ht
      have hne : json t ≠ json topic := fun h => heq (json_inj.mp h)
      cases h.joined t hin with
      | inl hin => simp [hin, heq]
      | inr hin => simp [hin, hne]
  · intro t ht
    rw [hco] at ht
    rw [hmem]
    have hne := (bin_ne_json topic t).symm
    cases ht with
    | inl heq => simp [heq, (bin_ne_json topic topic).symm]
    | inr ht => simp [hne, h.single t ht.1]

theorem Placed.left (h : c.Placed) (hopen : c.isOpen = true) (topic : String) {c' : Connection}
    (hcohorts : c'.cohorts = c.cohorts.filter (· ≠ topic))
    (hjoined : c'.joined = c.joined.filter (· ≠ topic))
    (hsubs : c'.subscriptions = ((c.unsubscribe (bin topic)).unsubscribe (json topic)).subscriptions) :
    c'.Placed := by
  have hmem : ∀ x, x ∈ c'.subscriptions ↔ (x ∈ c.subscriptions ∧ x ≠ bin topic) ∧ x ≠ json topic := by
    intro x
    rw [hsubs, mem_unsubscribe _ (by simpa), mem_unsubscribe _ hopen]
  constructor
  · intro t
    rw [hmem, hcohorts, h.binary]
    simp [bin_inj, bin_ne_json]
  · intro t ht
    have ht' : t ∈ c.joined ∧ t ≠ topic := by simpa [hjoined] using ht
    rw [hmem, hcohorts]
    cases h.joined t ht'.1 with
    | inl hin => simp [hin, ht'.2]
    | inr hin => simp [hin, json_inj, ht'.2, (bin_ne_json _ _).symm]
  · intro t ht
    have ht' : t ∈ c.cohorts ∧ t ≠ topic := by simpa [hcohorts] using ht
    rw [hmem]
    simp [h.single t ht'.1]

end Connection

/-! ## one step -/

theorem Inv.of {s s' : State} (h : Inv s) (hsound : s'.table.Sound)
    (hget : ∀ topic id, s.table.get topic = some id → 0 < s'.table.refs topic →
      s'.table.get topic = some id)
    (hrefs : ∀ topic, s'.table.refs topic = s'.recorded topic + s'.pending topic)
    (hconns : ∀ ws c, s'.conns.get? ws = some c → c.Ok s.table)
    (hstack : ∀ ws topic id, .announcing ws topic id ∈ s'.stack →
      .announcing ws topic id ∈ s.stack) : Inv s' := by
  refine ⟨hsound, hrefs, fun ws c hc => ?_, fun ws topic id hmem => ?_⟩
  · have hok := hconns ws c hc
    refine ⟨hok.nodup, fun topic hmem => ?_, hok.placed⟩
    obtain ⟨id, hid, hann⟩ := hok.told topic hmem
    have hpos : 0 < s'.table.refs topic := by
      have := recorded_pos hc hmem
      have := pending_nonneg s' topic
      rw [hrefs]
      omega
    exact ⟨id, hget topic id hid hpos, hann⟩
  · refine hget topic id (h.held ws topic id (hstack _ _ _ hmem)) ?_
    have := pending_pos hmem
    have := recorded_nonneg s' topic
    rw [hrefs]
    omega

theorem Inv.conns_set {s : State} (h : Inv s) {ws : Nat} {c' : Connection} (hok : c'.Ok s.table)
    (ws' : Nat) (d : Connection) (hd : (s.conns.set ws c').get? ws' = some d) : d.Ok s.table := by
  obtain ⟨-, rfl⟩ | ⟨-, hd⟩ := of_get?_set hd
  · exact hok
  · exact h.conns ws' d hd

theorem Quiet_set {s s' : State} (h : s.Quiet) {ws : Nat} {c c' : Connection}
    (hc : s.conns.get? ws = some c) (hopen : c'.isOpen = true → c.isOpen = true)
    (hconns : s'.conns = s.conns.set ws c') (hstack : ∀ f ∈ s'.stack, f ∈ s.stack) : s'.Quiet := by
  intro f hf
  obtain ⟨d, hd, hclosed⟩ := Gone_set hc hopen (h f (hstack f hf))
  exact ⟨d, by rw [hconns, hd], hclosed⟩

theorem inv_set {s : State} (h : Inv s) {ws : Nat} {c c' : Connection}
    (hc : s.conns.get? ws = some c) (hcohorts : c'.cohorts = c.cohorts)
    (hann : c'.announced = c.announced) (hplaced : c'.isOpen = true → c'.Placed) :
    Inv { s with conns := s.conns.set ws c' } := by
  have hok : c'.Ok s.table := by
    refine (h.conns ws c hc).of ?_ ?_ hann hplaced
    · rw [hcohorts]
      exact (h.conns ws c hc).nodup
    · simp [hcohorts]
  refine h.of h.table (fun _ _ hid _ => hid) (fun topic => ?_) (h.conns_set hok)
    (fun _ _ _ hmem => hmem)
  have hrefs := h.refs topic
  have hmember : member topic c' = member topic c := member_congr (by rw [hcohorts])
  have hsum := sum_set_old (member topic) hc c'
  show s.table.refs topic = (s.conns.set ws c').sum (member topic) + s.pending topic
  unfold State.recorded at hrefs
  omega

theorem inv_drop {s : State} (h : Inv s) {ws : Nat} {c c' : Connection}
    (hc : s.conns.get? ws = some c) {topic : String} (hmem : topic ∈ c.cohorts)
    (hcohorts : c'.cohorts = c.cohorts.filter (· ≠ topic)) (hann : c'.announced = c.announced)
    (hplaced : c'.isOpen = true → c'.Placed) :
    Inv { s with table := s.table.release topic, conns := s.conns.set ws c' } := by
  have hok : c'.Ok s.table := by
    refine (h.conns ws c hc).of ?_ ?_ hann hplaced
    · rw [hcohorts]
      exact (h.conns ws c hc).nodup.filter _
    · simp only [hcohorts, List.mem_filter]
      exact fun t ht => ht.1
  have hpos : 0 < s.table.refs topic := by
    have := recorded_pos hc hmem
    have := pending_nonneg s topic
    rw [h.refs]
    omega
  refine h.of (h.table.release topic) (fun _ _ hid => Table.get_release hid topic) (fun t => ?_)
    (h.conns_set hok) (fun _ _ _ hmem => hmem)
  have hrefs := h.refs t
  have hsum := sum_set_old (member t) hc c'
  have hmember : member t c' = member t c - if t = topic then 1 else 0 := by
    unfold member
    by_cases heq : t = topic
    · simp [hcohorts, heq, hmem]
    · simp [hcohorts, heq]
  show (s.table.release topic).refs t = (s.conns.set ws c').sum (member t) + s.pending t
  rw [Table.refs_release h.table hpos]
  unfold State.recorded at hrefs
  omega

/-- Both halves of what a step keeps. -/
def Good (s : State) : Prop := Inv s ∧ s.Settled

theorem good_connect {s : State} (h : Inv s) (hq : s.Quiet) {ws : Nat}
    (hnone : s.conns.get? ws = none) : Good { s with conns := s.conns.set ws .fresh } := by
  have hok : Connection.fresh.Ok s.table := by
    refine ⟨List.nodup_nil, by simp [Connection.fresh], fun _ => ⟨?_, ?_, ?_⟩⟩
    all_goals simp [Connection.fresh]
  constructor
  · refine h.of h.table (fun _ _ hid _ => hid) (fun topic => ?_) (h.conns_set hok)
      (fun _ _ _ hmem => hmem)
    have hrefs := h.refs topic
    have hsum := JsMap.sum_set_new (member topic) hnone .fresh
    have hmember : member topic .fresh = 0 := by simp [member, Connection.fresh]
    show s.table.refs topic = (s.conns.set ws .fresh).sum (member topic) + s.pending topic
    unfold State.recorded at hrefs
    omega
  · apply State.Quiet.settled
    intro f hf
    obtain ⟨d, hd, hclosed⟩ := hq f hf
    have hne : f.ws ≠ ws := by
      intro heq
      simp [heq, hnone] at hd
    exact ⟨d, by rw [JsMap.get?_set_ne _ _ hne, hd], hclosed⟩

theorem good_acquire {s : State} (h : Inv s) (hq : s.Quiet) {ws : Nat} {c : Connection}
    (hc : s.conns.get? ws = some c) {topic : String} (hmem : topic ∉ c.cohorts) :
    Good { s with
      table := (s.table.acquire topic).2
      stack := .announcing ws topic (s.table.acquire topic).1 :: s.stack } := by
  refine ⟨⟨h.table.acquire topic, fun t => ?_, fun ws' d hd => ?_, fun ws' t id hin => ?_⟩, hq, c, hc,
    fun _ => hmem⟩
  · have hrefs := h.refs t
    show (s.table.acquire topic).2.refs t = s.recorded t +
      ((.announcing ws topic (s.table.acquire topic).1 :: s.stack).countP (Frame.announces t) : Nat)
    rw [Table.refs_acquire, List.countP_cons]
    have hone : (if Frame.announces t (.announcing ws topic (s.table.acquire topic).1) = true
        then 1 else 0) = if t = topic then 1 else 0 := by
      simp [Frame.announces, eq_comm]
    rw [hone]
    unfold State.pending at hrefs
    split
    all_goals simp; omega
  · have hok := h.conns ws' d hd
    refine ⟨hok.nodup, fun t ht => ?_, hok.placed⟩
    obtain ⟨id, hid, hann⟩ := hok.told t ht
    exact ⟨id, Table.get_acquire hid topic, hann⟩
  · cases List.mem_cons.mp hin with
    | inl heq =>
      cases heq
      exact Table.get_acquire_self s.table topic
    | inr hin => exact Table.get_acquire (h.held ws' t id hin) topic

theorem good_join {s : State} (h : Inv s) (hq : s.Quiet) {ws : Nat} {c : Connection}
    (hc : s.conns.get? ws = some c) (topic capability : String) :
    Good (joinSharedCohort s ws c topic capability) := by
  unfold joinSharedCohort
  split
  · split
    · exact ⟨h, hq.settled⟩
    · next hmem => exact good_acquire h hq hc hmem
  · by_cases hmem : topic ∈ c.cohorts
    · simp only [hmem]
      refine ⟨inv_drop h hc hmem (by simp [Connection.join]) (by simp [Connection.join]) fun hopen => ?_,
        State.Quiet.settled (Quiet_set hq hc (by simp [Connection.join]) rfl fun _ hf => hf)⟩
      have hopen' : c.isOpen = true := by simpa [Connection.join] using hopen
      refine ((h.conns ws c hc).placed hopen').toJson topic (by simpa) (by simp) (by simp) fun x => ?_
      have hsub := Connection.mem_unsubscribe
        (c := { c with cohorts := c.cohorts.filter (· ≠ topic) }) (bin topic) hopen' x
      simpa [hmem] using hsub
    · simp only [hmem]
      refine ⟨inv_set h hc (by simp [Connection.join]) (by simp [Connection.join]) fun hopen => ?_,
        State.Quiet.settled (Quiet_set hq hc (by simp [Connection.join]) rfl fun _ hf => hf)⟩
      have hopen' : c.isOpen = true := by simpa [Connection.join] using hopen
      exact ((h.conns ws c hc).placed hopen').toJson topic hopen' (filter_ne_self hmem).symm rfl
        (by simp [hmem])

theorem good_leave {s : State} (h : Inv s) (hq : s.Quiet) {ws : Nat} {c : Connection}
    (hc : s.conns.get? ws = some c) (topic : String) : Good (leaveSharedCohort s ws c topic) := by
  unfold leaveSharedCohort
  by_cases hmem : topic ∈ c.cohorts
  · simp only [hmem]
    refine ⟨inv_drop h hc hmem (by simp [Connection.leave]) (by simp [Connection.leave]) fun hopen => ?_,
      State.Quiet.settled (Quiet_set hq hc (by simp [Connection.leave]) rfl fun _ hf => hf)⟩
    have hopen' : c.isOpen = true := by simpa [Connection.leave] using hopen
    refine ((h.conns ws c hc).placed hopen').left hopen' topic ?_ ?_ rfl
    all_goals simp [Connection.leave]
  · simp only [hmem]
    refine ⟨inv_set h hc (by simp [Connection.leave]) (by simp [Connection.leave]) fun hopen => ?_,
      State.Quiet.settled (Quiet_set hq hc (by simp [Connection.leave]) rfl fun _ hf => hf)⟩
    have hopen' : c.isOpen = true := by simpa [Connection.leave] using hopen
    refine ((h.conns ws c hc).placed hopen').left hopen' topic ?_ ?_ rfl
    · simpa [Connection.leave] using (filter_ne_self hmem).symm
    · simp [Connection.leave]

theorem good_close {s : State} (h : Inv s) {ws : Nat} {c : Connection}
    (hc : s.conns.get? ws = some c) (hopen : ∀ f ∈ s.stack, s.Gone f.ws ∨ f.ws = ws) :
    Good (closeConnection s ws c) := by
  let c' : Connection := { c with isOpen := false, subscriptions := [] }
  have hinv : Inv { s with conns := s.conns.set ws c' } :=
    inv_set h hc rfl rfl fun hopen => by simp at hopen
  have hself : (s.conns.set ws c').get? ws = some c' := JsMap.get?_set_self ..
  constructor
  · refine ⟨hinv.table, fun topic => ?_, hinv.conns, fun ws' topic id hmem => ?_⟩
    · have hrefs := hinv.refs topic
      exact hrefs
    · cases List.mem_cons.mp hmem with
      | inl heq => cases heq
      | inr hin => exact h.held ws' topic id hin
  · intro f hf
    cases List.mem_cons.mp hf with
    | inl heq =>
      rw [heq]
      exact ⟨c', hself, rfl⟩
    | inr hin =>
      cases hopen f hin with
      | inl hgone => exact Gone_set hc (by simp) hgone
      | inr heq =>
        rw [heq]
        exact ⟨c', hself, rfl⟩

theorem good_sweep {s : State} (h : Inv s) (hq : s.Quiet) {ws : Nat} {c : Connection}
    (hc : s.conns.get? ws = some c) (hclosed : c.isOpen = false) : Good (sweep s ws c) := by
  let c' : Connection := { c with caps := [], poisoned := [], cohorts := [] }
  have hok : c'.Ok s.table :=
    (h.conns ws c hc).of List.nodup_nil (by simp [c']) rfl fun hopen => by simp [c', hclosed] at hopen
  have hpos : ∀ topic ∈ c.cohorts, 0 < s.table.refs topic := by
    intro topic hmem
    have := recorded_pos hc hmem
    have := pending_nonneg s topic
    rw [h.refs]
    omega
  obtain ⟨hsound, hrefs', hget⟩ := Table.release_all h.table (h.conns ws c hc).nodup hpos
  constructor
  · refine h.of hsound hget (fun topic => ?_) (h.conns_set hok) (fun _ _ _ hmem => hmem)
    have hrefs := h.refs topic
    have hsum := sum_set_old (member topic) hc c'
    have hmember : member topic c' = 0 := by simp [member, c']
    show (c.cohorts.foldl Table.release s.table).refs topic =
      (s.conns.set ws c').sum (member topic) + s.pending topic
    rw [hrefs', hsum, hmember, hrefs]
    unfold State.recorded member
    all_goals omega
  · exact State.Quiet.settled (Quiet_set hq hc (by simp) rfl fun _ hf => hf)

theorem inv_returned {s : State} (h : Inv s) {ws : Nat} {stack : List Frame}
    (hstack : s.stack = .closing ws :: stack) : Inv { s with stack } := by
  refine ⟨h.table, fun topic => ?_, h.conns, fun ws' topic id hmem => ?_⟩
  · have hpop : s.pending topic = ({ s with stack } : State).pending topic := by
      simp [State.pending, hstack, Frame.announces]
    have hrefs := h.refs topic
    rw [hpop] at hrefs
    exact hrefs
  · exact h.held ws' topic id (by simp [hstack, hmem])

/-! ## the answer to an announce -/

section Answer

variable {s : State} {ws : Nat} {topic : String} {id : Nat} {stack : List Frame}

theorem pending_pop (hstack : s.stack = .announcing ws topic id :: stack) (t : String) :
    s.pending t = ({ s with stack } : State).pending t + if t = topic then 1 else 0 := by
  have hone : (if Frame.announces t (.announcing ws topic id) = true then 1 else 0) =
      if t = topic then 1 else 0 := by
    simp [Frame.announces, eq_comm]
  unfold State.pending
  rw [hstack, List.countP_cons, hone]
  split
  all_goals simp

theorem quiet_pop (hs : s.Settled) (hstack : s.stack = .announcing ws topic id :: stack) :
    ({ s with stack } : State).Quiet := by
  unfold State.Settled at hs
  rw [hstack] at hs
  exact hs.1

theorem not_mem_of_settled (hs : s.Settled) (hstack : s.stack = .announcing ws topic id :: stack)
    {c : Connection} (hc : s.conns.get? ws = some c) (hopen : c.isOpen = true) :
    topic ∉ c.cohorts := by
  unfold State.Settled at hs
  rw [hstack] at hs
  obtain ⟨-, c', hc', hnot⟩ := hs
  obtain rfl : c = c' := by simpa [hc] using hc'
  exact hnot hopen

theorem held_pop (hstack : s.stack = .announcing ws topic id :: stack) (ws' : Nat) (t : String)
    (id' : Nat) (h : .announcing ws' t id' ∈ stack) : .announcing ws' t id' ∈ s.stack := by
  rw [hstack]
  exact List.mem_cons_of_mem _ h

theorem refs_pos (h : Inv s) (hstack : s.stack = .announcing ws topic id :: stack) :
    0 < s.table.refs topic := by
  have hmem : .announcing ws topic id ∈ s.stack := by simp [hstack]
  have := pending_pos hmem
  have := recorded_nonneg s topic
  rw [h.refs]
  omega

theorem good_delivered (h : Inv s) (hs : s.Settled)
    (hstack : s.stack = .announcing ws topic id :: stack) {c : Connection}
    (hc : s.conns.get? ws = some c) (hopen : c.isOpen = true) :
    Good (announceDelivered { s with stack } ws c topic id) := by
  have hnot := not_mem_of_settled hs hstack hc hopen
  have hold := h.conns ws c hc
  have hid : s.table.get topic = some id := h.held ws topic id (by simp [hstack])
  let d : Connection := { c with
    cohorts := topic :: c.cohorts.filter (· ≠ topic), announced := c.announced.set topic id }
  let c' := ((d.unsubscribe (json topic)).subscribe (bin topic)).join topic
  have hcohorts : c'.cohorts = topic :: c.cohorts.filter (· ≠ topic) := by
    simp [c', d, Connection.join]
  have hann : c'.announced = c.announced.set topic id := by simp [c', d, Connection.join]
  have hok : c'.Ok s.table := by
    refine ⟨?_, fun t ht => ?_, fun _ => (hold.placed hopen).toBin topic hopen rfl rfl rfl⟩
    · rw [hcohorts, List.nodup_cons]
      exact ⟨by simp, hold.nodup.filter _⟩
    · rw [hann]
      by_cases heq : t = topic
      · exact ⟨id, by rw [heq, hid], by simp [heq]⟩
      · have hin : t ∈ c.cohorts := by simpa [hcohorts, heq] using ht
        obtain ⟨id', hid', hann'⟩ := hold.told t hin
        exact ⟨id', hid', by rw [JsMap.get?_set_ne _ _ heq, hann']⟩
  constructor
  · refine h.of h.table (fun _ _ hid _ => hid) (fun t => ?_) (h.conns_set hok) (held_pop hstack)
    have hrefs := h.refs t
    have hpop := pending_pop hstack t
    have hsum := sum_set_old (member t) hc c'
    have hmember : member t c' = member t c + if t = topic then 1 else 0 := by
      unfold member
      by_cases heq : t = topic
      · simp [hcohorts, heq, hnot]
      · simp [hcohorts, heq]
    show s.table.refs t = (s.conns.set ws c').sum (member t) + ({ s with stack } : State).pending t
    unfold State.recorded at hrefs
    omega
  · exact State.Quiet.settled (Quiet_set (quiet_pop hs hstack) hc (by simp [hopen]) rfl fun _ hf => hf)

theorem good_gone (h : Inv s) (hs : s.Settled)
    (hstack : s.stack = .announcing ws topic id :: stack) :
    Good (announceGone { s with stack } topic) := by
  have hpopped := quiet_pop hs hstack
  have hq : (announceGone { s with stack } topic).Quiet := hpopped
  refine ⟨?_, hq.settled⟩
  refine h.of (h.table.release topic) (fun _ _ hid => Table.get_release hid topic) (fun t => ?_)
    h.conns (held_pop hstack)
  have hrefs := h.refs t
  have hpop := pending_pop hstack t
  show (s.table.release topic).refs t = s.recorded t + ({ s with stack } : State).pending t
  rw [Table.refs_release h.table (refs_pos h hstack)]
  omega

theorem good_refused (h : Inv s) (hs : s.Settled)
    (hstack : s.stack = .announcing ws topic id :: stack) {c : Connection}
    (hc : s.conns.get? ws = some c) : Good (announceRefused { s with stack } ws c topic) := by
  obtain ⟨hinv, -⟩ := good_gone h hs hstack
  have hq := quiet_pop hs hstack
  constructor
  · refine inv_set hinv hc (by simp [Connection.join])
      (by simp [Connection.join]) fun hopen => ?_
    have hopen' : c.isOpen = true := by simpa [Connection.join] using hopen
    have hnot := not_mem_of_settled hs hstack hc hopen'
    exact ((h.conns ws c hc).placed hopen').toJson topic hopen' (filter_ne_self hnot).symm rfl
      (by simp [hnot])
  · exact State.Quiet.settled (Quiet_set hq hc (by simp [Connection.join]) rfl fun _ hf => hf)

end Answer

/-! ## every run -/

theorem good_call {s s' : State} (h : Inv s) (hq : s.Quiet) {a : Action}
    (hcall : call s a = some s') : Good s' := by
  unfold call at hcall
  split at hcall
  · next ws =>
    split at hcall
    · contradiction
    · next hnone =>
      cases hcall
      exact good_connect h hq hnone
  · next ws caps =>
    obtain ⟨c, hc, rfl⟩ := Option.map_eq_some_iff.mp hcall
    exact ⟨inv_set h hc rfl rfl fun hopen => (by
      have hp := (h.conns ws c hc).placed hopen
      exact ⟨hp.binary, hp.joined, hp.single⟩),
      State.Quiet.settled (Quiet_set hq hc (by simp) rfl fun _ hf => hf)⟩
  · next ws capability =>
    obtain ⟨c, hc, rfl⟩ := Option.map_eq_some_iff.mp hcall
    exact ⟨inv_set h hc rfl rfl fun hopen => (by
      have hp := (h.conns ws c hc).placed hopen
      exact ⟨hp.binary, hp.joined, hp.single⟩),
      State.Quiet.settled (Quiet_set hq hc (by simp) rfl fun _ hf => hf)⟩
  · next ws topic capability =>
    obtain ⟨c, hc, rfl⟩ := Option.map_eq_some_iff.mp hcall
    exact good_join h hq hc topic capability
  · next ws topic =>
    obtain ⟨c, hc, rfl⟩ := Option.map_eq_some_iff.mp hcall
    exact good_leave h hq hc topic
  · next ws =>
    split at hcall
    · contradiction
    · next c hc =>
      obtain ⟨-, ⟨⟩⟩ := Option.ite_none_right_eq_some.mp hcall
      exact good_close h hc fun f hf => .inl (hq f hf)
  · contradiction

theorem good_next {s s' : State} (h : Good s) {a : Action} (hnext : next s a = some s') :
    Good s' := by
  obtain ⟨h, hs⟩ := h
  unfold next at hnext
  split at hnext
  · next ws topic id stack hstack =>
    split at hnext
    · contradiction
    · next c hc =>
      obtain ⟨hopen, ⟨⟩⟩ := Option.ite_none_right_eq_some.mp hnext
      exact good_delivered h hs hstack hc hopen
  · next ws topic id stack hstack =>
    obtain ⟨c, hc, rfl⟩ := Option.map_eq_some_iff.mp hnext
    exact good_refused h hs hstack hc
  · next ws topic id stack hstack =>
    split at hnext
    · contradiction
    · split at hnext
      · contradiction
      · cases hnext
        exact good_gone h hs hstack
  · next ws topic id stack hstack =>
    split at hnext
    · contradiction
    rename_i c hc
    obtain ⟨-, ⟨⟩⟩ := Option.ite_none_right_eq_some.mp hnext
    refine good_close h hc fun f hf => ?_
    rw [hstack] at hf
    cases List.mem_cons.mp hf with
    | inl heq => exact .inr (by rw [heq]; rfl)
    | inr hin => exact .inl (quiet_pop hs hstack f hin)
  · next ws stack hstack =>
    obtain ⟨c, hc, rfl⟩ := Option.map_eq_some_iff.mp hnext
    have hq : s.Quiet := hs.quiet (by simp [State.free, hstack])
    have hclosed : c.isOpen = false := by
      obtain ⟨d, hd, hclosed⟩ := hq (.closing ws) (by simp [hstack])
      obtain rfl : c = d := by simpa [hc, Frame.ws] using hd
      exact hclosed
    exact good_sweep (inv_returned h hstack)
      (fun f hf => hq f (by simp [hstack, hf])) hc hclosed
  · split at hnext
    · next hfree => exact good_call h (hs.quiet hfree) hnext
    · contradiction

theorem good_init : Good .init := by
  refine ⟨⟨Table.sound_create, fun topic => ?_, ?_, ?_⟩, ?_⟩
  · rfl
  · simp [State.init]
  · simp [State.init]
  · simp [State.init, State.Settled, State.Quiet]

theorem good_runs {as : List Action} {s : State} (h : machine.Runs Any as s) : Good s :=
  Runs.invariant good_init (fun _ _ _ hgood _ hnext => good_next hgood hnext) h

def State.Split (s : State) : Prop :=
  ∀ ws c, s.conns.get? ws = some c →
    (c.isOpen = true → ∀ topic ∈ c.joined,
      (bin topic ∈ c.subscriptions ∧ json topic ∉ c.subscriptions) ∨
        (bin topic ∉ c.subscriptions ∧ json topic ∈ c.subscriptions)) ∧
    (c.isOpen = true → ∀ topic, bin topic ∈ c.subscriptions ↔ topic ∈ c.cohorts) ∧
    ∀ topic ∈ c.cohorts, ∃ id, s.table.get topic = some id ∧ c.announced.get? topic = some id

def State.Counted (s : State) : Prop :=
  ∀ topic, s.table.refs topic = s.recorded topic + s.pending topic

/-- The ids that were ever assigned. -/
def State.Unique (s : State) : Prop :=
  (∀ id topic topic', (id, topic) ∈ s.table.assigned → (id, topic') ∈ s.table.assigned →
    topic = topic') ∧
  ∀ topic id, s.table.get topic = some id → (id, topic) ∈ s.table.assigned

/-- **The cohorts are a split**, in every run: an open connection that joined a
topic is in exactly one of its cohorts, the references of the topic's id are the
connections recorded in the binary cohort and the announces under way, a recorded
connection was announced the id of the table, and no id is ever of two topics. -/
theorem cohorts_split {as : List Action} {s : State} (h : machine.Runs Any as s) :
    s.Split ∧ s.Counted ∧ (s.stack = [] → ∀ topic, s.table.refs topic = s.recorded topic) ∧
      s.Unique := by
  obtain ⟨hinv, -⟩ := good_runs h
  refine ⟨fun ws c hc => ?_, hinv.refs, fun hstack topic => ?_, fun id topic topic' hin hin' => ?_,
    fun topic id hget => ?_⟩
  · have hok := hinv.conns ws c hc
    refine ⟨fun hopen topic hjoined => ?_, fun hopen => (hok.placed hopen).binary, hok.told⟩
    have hp := hok.placed hopen
    by_cases hmem : topic ∈ c.cohorts
    · exact .inl ⟨(hp.binary topic).mpr hmem, hp.single topic hmem⟩
    · exact .inr ⟨fun hbin => hmem ((hp.binary topic).mp hbin),
        (hp.joined topic hjoined).resolve_left hmem⟩
  · have hrefs := hinv.refs topic
    simpa [State.pending, hstack] using hrefs
  · have := List.inj_on_of_nodup_map hinv.table.distinct hin hin' rfl
    simpa using this
  · obtain ⟨e, he, rfl⟩ := Option.map_eq_some_iff.mp hget
    exact hinv.table.current topic e he

/-- **The table forgets.**  A topic has an id exactly while a connection is recorded in its
binary cohort or an announce of it is under way. -/
theorem id_iff_used {as : List Action} {s : State} (h : machine.Runs Any as s) (topic : String) :
    s.table.get topic ≠ none ↔
      (∃ ws c, s.conns.get? ws = some c ∧ topic ∈ c.cohorts) ∨
        ∃ ws id, Frame.announcing ws topic id ∈ s.stack := by
  obtain ⟨hinv, -⟩ := good_runs h
  constructor
  · intro hne
    obtain ⟨id, hid⟩ := Option.ne_none_iff_exists'.mp hne
    obtain ⟨e, he, -⟩ := Option.map_eq_some_iff.mp hid
    have hrefs := hinv.refs topic
    have hpos : 0 < s.table.refs topic := by
      simpa [Table.refs, he] using hinv.table.positive topic e he
    by_cases hpending : 0 < s.pending topic
    · obtain ⟨f, hf, hannounces⟩ := List.countP_pos_iff.mp (Int.natCast_pos.mp hpending)
      cases f with
      | closing ws => cases hannounces
      | announcing ws t id =>
        obtain rfl : t = topic := by simpa [Frame.announces] using hannounces
        exact .inr ⟨ws, id, hf⟩
    · refine .inl ?_
      by_contra hnone
      have hzero : s.recorded topic = 0 :=
        JsMap.sum_eq_zero fun ws c hc => if_neg fun hmem => hnone ⟨ws, c, hc, hmem⟩
      omega
  · rintro (⟨ws, c, hc, hmem⟩ | ⟨ws, id, hmem⟩)
    · obtain ⟨id, hid, -⟩ := (hinv.conns ws c hc).told topic hmem
      simp [hid]
    · simp [hinv.held ws topic id hmem]

/-- The announce that gives a topic its id is still under way. -/
theorem id_iff_used_announcing : ∃ as s, machine.Runs Any as s ∧ (s.table.get "t" ≠ none ↔
    (∃ ws c, s.conns.get? ws = some c ∧ "t" ∈ c.cohorts) ∨
      ∃ ws id, Frame.announcing ws "t" id ∈ s.stack) := by
  obtain ⟨s, hs⟩ : ∃ s, machine.exec machine.init
      [.connect 1, .hello 1 ["c"], .join 1 "t" "c"] = some s := ⟨_, rfl⟩
  have hrun := runs_of_exec hs
  exact ⟨_, s, hrun, id_iff_used hrun "t"⟩

/-- Two connections join a topic; one is cut by the announce, and its close hook makes a
third join; the first then loses the capability. -/
theorem cohorts_split_cut : ∃ as s, machine.Runs Any as s ∧ s.Split ∧
    s.table.get "t" = some SHARED_WIRE_ID_BASE ∧ s.table.refs "t" = 1 ∧ s.recorded "t" = 1 := by
  obtain ⟨s, hs⟩ : ∃ s, machine.exec machine.init
      [.connect 1, .connect 2, .connect 3, .hello 1 ["c"], .hello 2 ["c"], .hello 3 ["c"],
        .join 1 "t" "c", .delivered, .join 2 "t" "c", .cut, .join 3 "t" "c", .delivered,
        .join 2 "t" "c", .gone, .swept, .gone, .hello 1 [], .join 1 "t" "c"] = some s := ⟨_, rfl⟩
  have hrun := runs_of_exec hs
  have hsplit := cohorts_split hrun
  refine ⟨_, s, hrun, hsplit.1, ?_⟩
  cases hs
  decide +kernel

end BunServe.Cohort
