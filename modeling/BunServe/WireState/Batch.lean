import BunServe.WireState.Lanes
import BunServe.WireState.Lockstep
import BunServe.Resume.Gap

/-!
# BunServe.WireState.Batch

`publishWireBatch` against the calls of `publishWire` for its entries.

* `stamp_entry` — an entry is stamped alike by both, except that the batch takes a
  bigint for the authority a number is (`promote`);
* `calls_plan`, `batch_plan` — both record the same plan;
* `mark_iff`, `held_eq_iff` — when the mark and the held frames agree;
* `told_publishWires`, `told_batch` — both tell a connection the entries that do not
  exclude it;
* `wire_batch_iff` — whatever the entries, the connections and their codecs, both do
  the same if and only if no bigint seq makes a difference; and a batch the stateful
  lane refuses leaves everything but the counter.
-/

namespace BunServe.WireState

open Resume Publish
open List (forall₂_map_right_iff map_cons zipWith zipWith_cons_cons)

/-! ## the seq of an entry -/

def isBigint : SeqOption → Bool
  | .bigint _ => true
  | _ => false

/-- The seq `publishWire` is called with for an entry. -/
def callSeq (options : WireOptions) (e : WireEntry) : SeqOption :=
  if e.seq = .undefined then options.seq else e.seq

def callExclude (options : WireOptions) (e : WireEntry) : Option Socket :=
  if e.excludeWs.isSome then e.excludeWs else options.excludeWs

variable {e : WireEntry}

theorem stamp_entry {options : WireOptions} (haccepted : batchSeqAccepted options.seq = true)
    {seq : SeqOption} (hseq : resolveEntrySeq e.seq = some seq) (topicSeqs : Marks)
    (topic : String) :
    stampRecord options topicSeqs topic seq = stampSeqValue topicSeqs (callSeq options e) topic ∧
      seq.isNumber = ((callSeq options e).isNumber || isBigint e.seq) := by
  have hexplicit : options.seq.isNumber = false := by
    simp only [batchSeqAccepted] at haccepted
    cases ho : options.seq <;> simp_all [SeqOption.isExplicit, SeqOption.isNumber]
  unfold callSeq
  cases he : e.seq with
  | undefined =>
    rw [he] at hseq
    cases hseq
    simpa [stampRecord, SeqOption.isNumber, isBigint] using hexplicit
  | null =>
    rw [he] at hseq
    cases hseq
    simp [stampRecord, stampSeqValue, SeqOption.isNumber, isBigint]
  | bool b =>
    rw [he] at hseq
    cases b <;> cases hseq <;> simp [stampRecord, isBigint]
  | other =>
    rw [he] at hseq
    cases hseq
  | number n =>
    rw [he] at hseq
    obtain ⟨v, hv, rfl⟩ := Option.map_eq_some_iff.1 hseq
    simp [stampRecord, stampSeqValue, hv, SeqOption.isNumber]
  | bigint z =>
    rw [he] at hseq
    obtain ⟨v, hv, rfl⟩ := Option.map_eq_some_iff.1 hseq
    simp [stampRecord, stampSeqValue, hv, SeqOption.isNumber, isBigint]

/-! ## the plan -/

variable {records : List WireRecord} {rs : List Recorded} {s : Server}

section

variable (text : JsNumber → String) (ws_compression_on : Bool) (topic event : String)
  (options : WireOptions)

/-- What `publishWire` records of the entries, one after another. -/
def planEntries : Marks → List WireEntry → Option (List Recorded × Marks)
  | topicSeqs, [] => some ([], topicSeqs)
  | topicSeqs, e :: rest =>
    match stampSeqValue topicSeqs (callSeq options e) topic, envelopeBody topic event e.data with
    | some (seq, topicSeqs), some body =>
      (planEntries topicSeqs rest).map fun x =>
        ({ topic
           seq
           envelope := completeSerializedEnvelope text body seq none
           compress := ws_compression_on && options.compress
           excludeWs := callExclude options e
           marked := (callSeq options e).isNumber
           authoritative := (callSeq options e).isNumber } :: x.1, x.2)
    | _, _ => none

/-- What the batch, or else a call of `publishWire`, makes of a record of the plan. -/
def promote (batch : Bool) (e : WireEntry) (r : Recorded) : Recorded :=
  { r with
    marked := r.marked || (batch && isBigint e.seq)
    authoritative := r.authoritative || (batch && isBigint e.seq) }

variable {text ws_compression_on topic event options}

variable {entries : List WireEntry}

theorem stampLoop_plan (haccepted : batchSeqAccepted options.seq = true)
    (hrecords : captureEntries options entries = some records) {topicSeqs seqs : Marks}
    (h : stampLoop text ws_compression_on topic event options topicSeqs records = (seqs, some rs)) :
    ∃ rs₀, planEntries text ws_compression_on topic event options topicSeqs entries =
        some (rs₀, seqs) ∧ rs = zipWith (promote true) entries rs₀ := by
  induction entries generalizing records topicSeqs rs with
  | nil =>
    cases hrecords
    cases h
    exact ⟨[], rfl, rfl⟩
  | cons e entries ih =>
    simp only [captureEntries] at hrecords
    split at hrecords
    · next seq records' hseq hrecords' =>
      cases hrecords
      obtain ⟨hstamp, hflag⟩ := stamp_entry haccepted hseq topicSeqs topic
      simp only [stampLoop, hstamp] at h
      cases hs : stampSeqValue topicSeqs (callSeq options e) topic with
      | none => simp [hs] at h
      | some x =>
        cases hb : envelopeBody topic event e.data with
        | none => simp [hs, hb] at h
        | some body =>
          simp only [hs, hb, Prod.mk.injEq, Option.map_eq_some_iff] at h
          obtain ⟨hseqs, rs', hrs', rfl⟩ := h
          obtain ⟨rs₀, hplan, rfl⟩ := ih hrecords' (Prod.ext hseqs hrs')
          simp only [planEntries, hs, hb, hplan]
          exact ⟨_, rfl, by simp [promote, hflag, callExclude]⟩
    · cases hrecords

theorem stampBatch_some {s₁ : Server}
    (h : stampBatch text ws_compression_on topic event s entries options = (s₁, some (records, rs))) :
    batchSeqAccepted options.seq = true ∧ captureEntries options entries = some records ∧
      stampLoop text ws_compression_on topic event options s.lanes.topicSeqs records =
        (s₁.lanes.topicSeqs, some rs) ∧
      s₁.lanes.resume = commits rs s.lanes.resume ∧
      s₁.publishCount = s.publishCount + records.length ∧ s₁.conns = s.conns := by
  unfold stampBatch at h
  split at h
  · cases h
  rename_i hacc
  split at h
  · cases h
  rename_i records' hrecords
  simp only at h
  split at h
  · cases h
  · next rs' hrs =>
    simp only [Prod.mk.injEq] at h
    obtain ⟨hs₁, rfl, rfl⟩ := h
    rw [← hs₁]
    exact ⟨by simpa using hacc, hrecords, Prod.ext rfl hrs,
      by rw [commits_eq, captures_marks], rfl, rfl⟩

/-- A call of `publishWire` for an entry, by the batch or not. -/
structure CallOf (topic : String) (options : WireOptions) (batch : Bool) (e : WireEntry)
    (call : Option String × WireOptions) : Prop where
  data : call.1 = e.data
  stamp : ∀ seqs, stampSeqValue seqs call.2.seq topic = stampSeqValue seqs (callSeq options e) topic
  flag : call.2.seq.isNumber = ((callSeq options e).isNumber || (batch && isBigint e.seq))
  compress : call.2.compress = options.compress
  excludeWs : call.2.excludeWs = callExclude options e

theorem callOf_entryCalls (entries : List WireEntry) :
    List.Forall₂ (CallOf topic options false) entries (entryCalls options entries) := by
  induction entries with
  | nil => exact .nil
  | cons e entries ih => exact .cons ⟨rfl, fun _ => rfl, by simp [callSeq], rfl, rfl⟩ ih

theorem callOf_reroute (haccepted : batchSeqAccepted options.seq = true)
    {x : WireRecord} (h : Normalised options e x) :
    CallOf topic options true e (x.data, x.options options) := by
  obtain ⟨hdata, hseq, hown, hexclude⟩ := h
  have hstamp := fun seqs => (stamp_entry haccepted hseq seqs topic).1
  have hflag := (stamp_entry haccepted hseq resetSeqState topic).2
  have hexclude' : (if x.excludeWs.isSome then x.excludeWs else options.excludeWs) =
      callExclude options e := by
    rw [hexclude, callExclude]
    cases he : e.excludeWs <;> simp
  have hoptions : (x.options options).seq = (if x.seq ≠ .undefined then x.seq else options.seq) ∧
      (x.options options).compress = options.compress ∧
      (x.options options).excludeWs = callExclude options e := by
    unfold WireRecord.options
    split
    · exact ⟨rfl, rfl, hexclude'⟩
    · next hno =>
      simp only [Bool.or_eq_true, decide_eq_true_eq, not_or] at hno
      rw [hown] at hno
      refine ⟨by simp [hno.2], rfl, ?_⟩
      simp [callExclude, hno.1]
  obtain ⟨hs, hc, hx⟩ := hoptions
  -- the normalised seq is the one of the options only where the entry has none
  have hnumber : ∀ n, x.seq = .number n → explicitSeqValue (.number n) = some n := by
    intro n hn
    rw [hn] at hseq
    cases he : e.seq with
    | number m | bigint z =>
      rw [he] at hseq
      obtain ⟨v, hv, heq⟩ := Option.map_eq_some_iff.1 hseq
      cases heq
      exact explicit_number hv
    | bool b =>
      rw [he] at hseq
      cases b <;> cases hseq
    | undefined | null | other =>
      rw [he] at hseq
      cases hseq
  refine ⟨hdata, fun seqs => ?_, ?_, hc, hx⟩
  · rw [hs, ← hstamp seqs]
    cases hxs : x.seq <;> simp [stampRecord]
    next n => simp [stampSeqValue, hnumber n hxs]
  · rw [hs, Bool.true_and, ← hflag]
    split
    · rfl
    · next hundef =>
      simp only [batchSeqAccepted] at haccepted
      cases ho : options.seq <;> simp_all [SeqOption.isExplicit, SeqOption.isNumber]

/-- Calls of `publishWire` for the entries record the plan. -/
theorem calls_plan {E : Type} {k : Client E} {wires : String → Wire} {wire : Wire} {batch : Bool}
    {calls : List (Option String × WireOptions)}
    (hcalls : List.Forall₂ (CallOf topic options batch) entries calls) {s' : Server}
    (h : PublishWires k wires text ws_compression_on wire topic event s calls rs s') :
    ∃ rs₀, planEntries text ws_compression_on topic event options s.lanes.topicSeqs entries =
        some (rs₀, s'.lanes.topicSeqs) ∧
      rs = zipWith (promote batch) entries rs₀ ∧
      s'.lanes.resume = commits rs s.lanes.resume ∧
      s'.publishCount = s.publishCount + entries.length := by
  induction hcalls generalizing s rs with
  | nil =>
    cases h
    exact ⟨[], rfl, rfl, rfl, rfl⟩
  | @cons e call entries calls hcall hcalls ih =>
    obtain ⟨data, o⟩ := call
    cases h with
    | cons hfirst hrest =>
      obtain ⟨rs₀, hplan, hrs, hresume, hcount⟩ := ih hrest
      have hrec := hfirst.recorded
      have hdata : data = e.data := hcall.data
      simp only [recordWire, stampWire, hcall.stamp, hdata] at hrec
      cases hs : stampSeqValue s.lanes.topicSeqs (callSeq options e) topic with
      | none => simp [hs] at hrec
      | some x =>
        cases hb : envelopeBody topic event e.data with
        | none => simp [hs, hb] at hrec
        | some body =>
          simp only [hs, hb, Option.some.injEq, Prod.mk.injEq] at hrec
          obtain ⟨hr, hlanes⟩ := hrec
          rw [← hlanes] at hplan hresume
          simp only [planEntries, hs, hb, hplan]
          refine ⟨_, rfl, ?_, ?_, ?_⟩
          · have hflag : o.seq.isNumber = _ := hcall.flag
            have hcompress : o.compress = _ := hcall.compress
            have hexclude : o.excludeWs = _ := hcall.excludeWs
            rw [← hr, hrs]
            simp [promote, hflag, hcompress, hexclude]
          · rw [hresume, ← hr]
            rfl
          · rw [hcount, hfirst.counted, List.length_cons]
            omega

theorem batch_plan {E : Type} {k : Client E} {wires : String → Wire} {wire : Wire} {s' : Server}
    (h : PublishWireBatch k wires text ws_compression_on wire topic event s entries options rs s') :
    batchSeqAccepted options.seq = true ∧
      ∃ rs₀, planEntries text ws_compression_on topic event options s.lanes.topicSeqs entries =
          some (rs₀, s'.lanes.topicSeqs) ∧
        rs = zipWith (promote true) entries rs₀ ∧
        s'.lanes.resume = commits rs s.lanes.resume ∧
        s'.publishCount = s.publishCount + entries.length := by
  cases h with
  | stateful _ _ hstamp _ =>
    obtain ⟨haccepted, hrecords, hloop, hresume, hcount, -⟩ := stampBatch_some hstamp
    obtain ⟨rs₀, hplan, hpromote⟩ := stampLoop_plan haccepted hrecords hloop
    refine ⟨haccepted, rs₀, hplan, hpromote, hresume, ?_⟩
    rw [hcount, (captureEntries_forall₂ hrecords).length_eq]
  | stateless _ _ hcalls hwires =>
    unfold reroute at hcalls
    split at hcalls
    · cases hcalls
    rename_i hacc
    have haccepted : batchSeqAccepted options.seq = true := by simpa using hacc
    obtain ⟨records, hrecords, rfl⟩ := Option.map_eq_some_iff.1 hcalls
    have hcallOf : List.Forall₂ (CallOf topic options true) entries
        (records.map fun x => (x.data, x.options options)) := by
      rw [forall₂_map_right_iff]
      exact (captureEntries_forall₂ hrecords).imp fun _ _ h => callOf_reroute haccepted h
    exact ⟨haccepted, calls_plan hcallOf hwires⟩

structure PlanOf (topic : String) (options : WireOptions) (e : WireEntry) (r : Recorded) : Prop where
  topic : r.topic = topic
  excludeWs : r.excludeWs = callExclude options e
  marked : r.marked = e.seq.isNumber
  authoritative : r.authoritative = e.seq.isNumber
  number : ∀ n, e.seq = .number n → r.seq = some n ∧ n ≠ .nan
  bigint : ∀ z, e.seq = .bigint z → r.seq = some (.ofInt z)

theorem planOf_entries (haccepted : batchSeqAccepted options.seq = true) {topicSeqs seqs : Marks}
    (h : planEntries text ws_compression_on topic event options topicSeqs entries = some (rs, seqs)) :
    List.Forall₂ (PlanOf topic options) entries rs := by
  induction entries generalizing topicSeqs rs with
  | nil =>
    cases h
    exact .nil
  | cons e entries ih =>
    simp only [planEntries] at h
    split at h
    · next v seqs' body hs hb =>
      obtain ⟨x, hx, heq⟩ := Option.map_eq_some_iff.1 h
      cases heq
      have hflag : (callSeq options e).isNumber = e.seq.isNumber := by
        unfold callSeq
        split
        · next hu =>
          simp only [batchSeqAccepted] at haccepted
          cases ho : options.seq <;> simp_all [SeqOption.isExplicit, SeqOption.isNumber]
        · rfl
      refine .cons ⟨rfl, rfl, hflag, hflag, ?_, ?_⟩ (ih hx)
      · intro n hn
        simp only [callSeq, hn, reduceCtorEq, if_false] at hs
        obtain ⟨w, hw, heq⟩ := Option.map_eq_some_iff.1 hs
        cases heq
        have hne := explicit_ne_nan hw
        obtain ⟨-, rfl⟩ := by simpa [explicitSeqValue] using hw
        exact ⟨rfl, hne⟩
      · intro z hz
        simp only [callSeq, hz, reduceCtorEq, if_false] at hs
        obtain ⟨w, hw, heq⟩ := Option.map_eq_some_iff.1 hs
        cases heq
        obtain ⟨-, rfl⟩ := by simpa [explicitSeqValue] using hw
        rfl
    · cases h

end

/-! ## the mark -/

variable {a : JsNumber}

theorem lt_max_iff {v w : JsNumber} (hv : v ≠ .nan) :
    JsNumber.lt (a.max v) w ↔ JsNumber.lt a w ∧ JsNumber.lt v w := by
  cases a with
  | nan => simp [JsNumber.max]
  | real x =>
    cases v with
    | nan => contradiction
    | real y =>
      cases w with
      | nan => simp
      | real z =>
        show (if x ≤ y then y else x) < z ↔ x < z ∧ y < z
        split
        · next h => exact ⟨fun hz => ⟨h.trans_lt hz, hz⟩, fun hz => hz.2⟩
        · next h => exact ⟨fun hz => ⟨hz, (lt_of_not_ge h).trans hz⟩, fun hz => hz.1⟩

theorem max_eq_nan_iff {v : JsNumber} (hv : v ≠ .nan) : a.max v = .nan ↔ a = .nan := by
  cases a <;> cases v <;> simp_all [JsNumber.max]

theorem eq_of_lt_iff {b : JsNumber} (hnan : a = .nan ↔ b = .nan)
    (h : ∀ w, JsNumber.lt a w ↔ JsNumber.lt b w) : a = b := by
  cases a with
  | nan => exact (hnan.1 rfl).symm
  | real x =>
    cases b with
    | nan => exact hnan.2 rfl
    | real y =>
      have hxy : ¬ x < y := fun hlt => lt_irrefl y ((h (.real y)).1 hlt)
      have hyx : ¬ y < x := fun hlt => lt_irrefl x ((h (.real x)).2 hlt)
      rw [le_antisymm (not_lt.1 hyx) (not_lt.1 hxy)]

/-- Events of a topic whose explicit seqs are numbers. -/
def OfTopic (topic : String) (rs : List Recorded) : Prop :=
  ∀ r ∈ rs, r.topic = topic ∧ ∀ v, r.marked = true → r.seq = some v → v ≠ .nan

theorem lt_notes {topic : String} (h : OfTopic topic rs) (m : Marks) (w : JsNumber) :
    (JsNumber.lt ((notes rs m).at topic) w ↔
      JsNumber.lt (m.at topic) w ∧
        ∀ r ∈ rs, r.marked = true → ∀ v, r.seq = some v → JsNumber.lt v w) ∧
      ((notes rs m).at topic = .nan ↔ m.at topic = .nan) := by
  induction rs generalizing m with
  | nil => simp [notes]
  | cons r rs ih =>
    obtain ⟨hr, hv⟩ := h r List.mem_cons_self
    have hstep : notes (r :: rs) m = notes rs (r.note m) := rfl
    obtain ⟨hlt, hnan⟩ := ih (fun x hx => h x (List.mem_cons_of_mem _ hx)) (r.note m)
    rw [hstep, hlt, hnan]
    have hnote : (JsNumber.lt ((r.note m).at topic) w ↔ JsNumber.lt (m.at topic) w ∧
        (r.marked = true → ∀ v, r.seq = some v → JsNumber.lt v w)) ∧
        ((r.note m).at topic = .nan ↔ m.at topic = .nan) := by
      unfold Recorded.note
      cases hseq : r.seq with
      | none => simp
      | some v =>
        cases hm : r.marked with
        | false => simp [at_note_counter]
        | true =>
          have hne := hv v hm hseq
          simp [hr, at_note hne, lt_max_iff hne, max_eq_nan_iff hne]
    rw [hnote.1, hnote.2]
    simp [and_assoc]

/-- No bigint seq is above the mark that the others leave. -/
def Covered (m : Marks) (topic : String) (entries : List WireEntry) : Prop :=
  ∀ z, .bigint z ∈ entries.map WireEntry.seq → JsNumber.lt (m.at topic) (.ofInt z) →
    ∃ n, .number n ∈ entries.map WireEntry.seq ∧ ¬ JsNumber.lt n (.ofInt z)

section

variable {topic : String} {options : WireOptions} {entries : List WireEntry} {rs : List Recorded}

theorem explicit_below (h : List.Forall₂ (PlanOf topic options) entries rs) (batch : Bool)
    (w : JsNumber) :
    (∀ r ∈ zipWith (promote batch) entries rs, r.marked = true →
        ∀ v, r.seq = some v → JsNumber.lt v w) ↔
      (∀ n, .number n ∈ entries.map WireEntry.seq → JsNumber.lt n w) ∧
        (batch = true → ∀ z, .bigint z ∈ entries.map WireEntry.seq → JsNumber.lt (.ofInt z) w) := by
  induction h with
  | nil => simp
  | @cons e r entries rs he _ ih =>
    have hhead : ((promote batch e r).marked = true →
        ∀ v, (promote batch e r).seq = some v → JsNumber.lt v w) ↔
        (∀ n, e.seq = .number n → JsNumber.lt n w) ∧
          (batch = true → ∀ z, e.seq = .bigint z → JsNumber.lt (.ofInt z) w) := by
      simp only [promote, he.marked]
      cases hs : e.seq with
      | number n => simp [SeqOption.isNumber, (he.number n hs).1]
      | bigint z => simp [SeqOption.isNumber, isBigint, he.bigint z hs]
      | _ => simp [SeqOption.isNumber, isBigint]
    rw [zipWith_cons_cons, List.forall_mem_cons, ih, hhead]
    simp only [map_cons, List.mem_cons]
    constructor
    · rintro ⟨⟨hn, hz⟩, hns, hzs⟩
      refine ⟨fun n hn' => ?_, fun hb z hz' => ?_⟩
      · exact hn'.elim (fun heq => hn n heq.symm) (hns n)
      · exact hz'.elim (fun heq => hz hb z heq.symm) (hzs hb z)
    · rintro ⟨hn, hz⟩
      exact ⟨⟨fun n heq => hn n (.inl heq.symm), fun hb z heq => hz hb z (.inl heq.symm)⟩,
        fun n hn' => hn n (.inr hn'), fun hb z hz' => hz hb z (.inr hz')⟩

theorem ofTopic_promote (h : List.Forall₂ (PlanOf topic options) entries rs) (batch : Bool) :
    OfTopic topic (zipWith (promote batch) entries rs) := by
  induction h with
  | nil => simp [OfTopic]
  | @cons e r entries rs he _ ih =>
    refine List.forall_mem_cons.2 ⟨⟨he.topic, fun v hm hv => ?_⟩, ih⟩
    simp only [promote, he.marked] at hm hv
    cases hs : e.seq with
    | number n =>
      obtain ⟨hseq, hne⟩ := he.number n hs
      rw [hseq] at hv
      cases hv
      exact hne
    | bigint z =>
      rw [he.bigint z hs] at hv
      cases hv
      exact JsNumber.ofInt_ne_nan z
    | _ => simp [hs, SeqOption.isNumber, isBigint] at hm

theorem promote_false (h : List.Forall₂ (PlanOf topic options) entries rs) :
    zipWith (promote false) entries rs = rs := by
  induction h with
  | nil => rfl
  | cons _ _ ih => rw [zipWith_cons_cons, ih]; simp [promote]

/-- What is not below `a` is below what is above `a`. -/
theorem lt_of_not_lt {z w : JsNumber} (ha : a ≠ .nan) (hz : ¬ JsNumber.lt a z)
    (hw : JsNumber.lt a w) (hne : z ≠ .nan) : JsNumber.lt z w := by
  cases a with
  | nan => contradiction
  | real x =>
    cases z with
    | nan => contradiction
    | real y =>
      cases w with
      | nan => simp at hw
      | real v => exact (not_lt.1 hz).trans_lt hw

theorem mark_iff (h : List.Forall₂ (PlanOf topic options) entries rs) (m : Marks) :
    (notes (zipWith (promote true) entries rs) m).at topic = (notes rs m).at topic ↔
      Covered m topic entries := by
  have hbatch : ∀ w, JsNumber.lt ((notes (zipWith (promote true) entries rs) m).at topic) w ↔
      JsNumber.lt (m.at topic) w ∧
        (∀ n, .number n ∈ entries.map WireEntry.seq → JsNumber.lt n w) ∧
          ∀ z, .bigint z ∈ entries.map WireEntry.seq → JsNumber.lt (.ofInt z) w := by
    intro w
    rw [(lt_notes (ofTopic_promote h true) m w).1, explicit_below h true w]
    simp
  have hcalls : ∀ w, JsNumber.lt ((notes rs m).at topic) w ↔
      JsNumber.lt (m.at topic) w ∧
        ∀ n, .number n ∈ entries.map WireEntry.seq → JsNumber.lt n w := by
    intro w
    have hnotes := (lt_notes (ofTopic_promote h false) m w).1
    rw [explicit_below h false w, promote_false h] at hnotes
    simpa using hnotes
  have hnan : (notes (zipWith (promote true) entries rs) m).at topic = .nan ↔
      (notes rs m).at topic = .nan := by
    have hnan := (lt_notes (ofTopic_promote h false) m .nan).2
    rw [promote_false h] at hnan
    rw [(lt_notes (ofTopic_promote h true) m .nan).2, hnan]
  constructor
  · intro heq z hz hlt
    by_contra hno
    have hlt' : JsNumber.lt ((notes rs m).at topic) (.ofInt z) := by
      refine (hcalls _).2 ⟨hlt, fun n hn => ?_⟩
      by_contra hn'
      exact hno ⟨n, hn, hn'⟩
    rw [← heq, hbatch] at hlt'
    have := hlt'.2.2 z hz
    simp at this
  · intro hcov
    refine eq_of_lt_iff hnan fun w => ?_
    rw [hbatch w, hcalls w]
    refine ⟨fun hw => ⟨hw.1, hw.2.1⟩, fun hw => ⟨hw.1, hw.2, fun z hz => ?_⟩⟩
    have hz' := JsNumber.ofInt_ne_nan z
    by_cases hlt : JsNumber.lt (m.at topic) (.ofInt z)
    · -- a number of the batch is no smaller, and it is below `w`
      obtain ⟨n, hn, hnz⟩ := hcov z hz hlt
      have hnw := hw.2 n hn
      exact lt_of_not_lt (by rintro rfl; simp at hnw) hnz hnw hz'
    · exact lt_of_not_lt (by intro h; rw [h] at hw; simp at hw) hlt hw.1 hz'

end

/-! ## the frames held -/

section

variable {topic : String} {options : WireOptions} {entries : List WireEntry} {rs : List Recorded}

/-- The entries that do not exclude a connection. -/
def heardEntries (options : WireOptions) (ws : Socket) (entries : List WireEntry) : List WireEntry :=
  entries.filter fun e => decide (callExclude options e ≠ some ws)

def heardRecords (ws : Socket) (rs : List Recorded) : List Recorded :=
  rs.filter fun r => decide (r.excludeWs ≠ some ws)

theorem foldl_capture (rs : List Recorded) (b : Buffer) :
    rs.foldl (fun b r => b.capture r.frame r.excludeWs) b =
      { b with
        frames := b.frames ++ ((heardRecords b.ws rs).map Recorded.frame).take
          (MAX_RESUME_BUFFERED_FRAMES - b.frames.length)
        overflow := b.overflow ||
          decide (MAX_RESUME_BUFFERED_FRAMES - b.frames.length < (heardRecords b.ws rs).length) } := by
  induction rs generalizing b with
  | nil => simp [heardRecords]
  | cons r rs ih =>
    rw [List.foldl_cons, ih]
    unfold Buffer.capture
    by_cases hws : r.excludeWs = some b.ws
    · simp [hws, heardRecords]
    have hheard : heardRecords b.ws (r :: rs) = r :: heardRecords b.ws rs := by
      simp [heardRecords, hws]
    rw [if_neg hws, hheard]
    split
    · next hfull =>
      have hroom : MAX_RESUME_BUFFERED_FRAMES - b.frames.length = 0 := by omega
      simp [hroom]
    · next hroom =>
      obtain ⟨n, hn⟩ : ∃ n, MAX_RESUME_BUFFERED_FRAMES - b.frames.length = n + 1 :=
        ⟨MAX_RESUME_BUFFERED_FRAMES - b.frames.length - 1, by omega⟩
      have hn' : MAX_RESUME_BUFFERED_FRAMES - (b.frames.length + 1) = n := by omega
      simp [hn, hn']

theorem captures_buffers {s : Resume.State} (htopic : ∀ r ∈ rs, r.topic = topic)
    (hnodup : ∀ set, s.resumeBuffers.get? topic = some set → set.Nodup) (id : Nat) :
    (captures rs s).resumeBuffers = s.resumeBuffers ∧
      (captures rs s).buffers.get? id =
        if id ∈ (s.resumeBuffers.get? topic).getD [] then
          (s.buffers.get? id).map fun b => rs.foldl (fun b r => b.capture r.frame r.excludeWs) b
        else s.buffers.get? id := by
  induction rs generalizing s with
  | nil => simp [captures]
  | cons r rs ih =>
    have hr : r.topic = topic := htopic r List.mem_cons_self
    have hstep : (r.capture s).resumeBuffers = s.resumeBuffers ∧
        (r.capture s).buffers.get? id =
          if id ∈ (s.resumeBuffers.get? topic).getD [] then
            (s.buffers.get? id).map fun b => b.capture r.frame r.excludeWs
          else s.buffers.get? id := by
      unfold Recorded.capture captureResumeFrame
      rw [hr]
      cases hset : s.resumeBuffers.get? topic with
      | none => simp
      | some set => exact ⟨rfl, get?_captureAll r.frame r.excludeWs (hnodup set hset) s.buffers id⟩
    obtain ⟨hsets, hbuffers⟩ := ih
      (fun x hx => htopic x (List.mem_cons_of_mem _ hx)) (by rw [hstep.1]; exact hnodup)
    refine ⟨hsets.trans hstep.1, ?_⟩
    show (captures rs (r.capture s)).buffers.get? id = _
    rw [hbuffers, hstep.1, hstep.2]
    split
    · simp [Function.comp_def]
    · rfl

theorem heardRecords_promote (h : List.Forall₂ (PlanOf topic options) entries rs) (batch : Bool)
    (ws : Socket) :
    heardRecords ws (zipWith (promote batch) entries rs) =
        zipWith (promote batch) (heardEntries options ws entries) (heardRecords ws rs) ∧
      List.Forall₂ (PlanOf topic options) (heardEntries options ws entries) (heardRecords ws rs) := by
  induction h with
  | nil => exact ⟨rfl, .nil⟩
  | @cons e r entries rs he _ ih =>
    obtain ⟨hzip, hplan⟩ := ih
    have hexclude : (promote batch e r).excludeWs = r.excludeWs := rfl
    simp only [heardRecords, heardEntries, zipWith_cons_cons, List.filter_cons, hexclude,
      he.excludeWs] at hzip hplan ⊢
    split
    · exact ⟨by rw [hzip, zipWith_cons_cons], .cons he hplan⟩
    · exact ⟨hzip, hplan⟩

theorem frames_promote_iff (h : List.Forall₂ (PlanOf topic options) entries rs) (n : Nat) :
    ((zipWith (promote true) entries rs).map Recorded.frame).take n =
        (rs.map Recorded.frame).take n ↔ ∀ e ∈ entries.take n, isBigint e.seq = false := by
  induction h generalizing n with
  | nil => simp
  | @cons e r entries rs he _ ih =>
    cases n with
    | zero => simp
    | succ n =>
      have hframe : (promote true e r).frame = r.frame ↔ isBigint e.seq = false := by
        simp only [promote, Recorded.frame, he.authoritative]
        cases e.seq <;> simp [SeqOption.isNumber, isBigint]
      rw [zipWith_cons_cons, map_cons, map_cons, List.take_succ_cons,
        List.take_succ_cons, List.take_succ_cons, List.cons.injEq, List.forall_mem_cons, hframe, ih]

/-- No bigint seq is held for a resume: a buffer of the topic has no room left for
the entries that carry one, or they exclude its connection. -/
def Unheld (s : Resume.State) (topic : String) (options : WireOptions) (entries : List WireEntry) :
    Prop :=
  ∀ id ∈ (s.resumeBuffers.get? topic).getD [], ∀ b, s.buffers.get? id = some b →
    ∀ e ∈ (heardEntries options b.ws entries).take (MAX_RESUME_BUFFERED_FRAMES - b.frames.length),
      isBigint e.seq = false

theorem held_eq_iff (h : List.Forall₂ (PlanOf topic options) entries rs) {s : Resume.State}
    (hnodup : ∀ set, s.resumeBuffers.get? topic = some set → set.Nodup) :
    (∀ id, (captures (zipWith (promote true) entries rs) s).buffers.get? id =
        (captures rs s).buffers.get? id) ↔ Unheld s topic options entries := by
  have htopic : ∀ batch, ∀ r ∈ zipWith (promote batch) entries rs, r.topic = topic :=
    fun batch r hr => (ofTopic_promote h batch r hr).1
  have htopic' := htopic false
  rw [promote_false h] at htopic'
  refine forall_congr' fun id => ?_
  rw [(captures_buffers (htopic true) hnodup id).2, (captures_buffers htopic' hnodup id).2]
  split
  · next hid =>
    cases hb : s.buffers.get? id with
    | none => simp
    | some b =>
      obtain ⟨hzip, hplan⟩ := heardRecords_promote h true b.ws
      have hlen := hplan.length_eq
      simp only [Option.map_some, Option.some.injEq, foldl_capture, Buffer.mk.injEq, hzip, List.append_cancel_left_eq, frames_promote_iff hplan, List.length_zipWith,
        hlen]
      simp [hid]
  · next hid => simp [hid]

end

/-! ## what the connections are told -/

theorem forall₂_comp {α β γ : Type} {R : α → β → Prop} {S : β → γ → Prop} {T : α → γ → Prop}
    (hT : ∀ a b c, R a b → S b c → T a c) {as : List α} {bs : List β} {cs : List γ}
    (h : List.Forall₂ R as bs) (h' : List.Forall₂ S bs cs) : List.Forall₂ T as cs := by
  induction h generalizing cs with
  | nil =>
    cases h'
    exact .nil
  | cons hab _ ih =>
    cases h' with
    | cons hbc h' => exact .cons (hT _ _ _ hab hbc) (ih h')

theorem forall₂_mem_right {α β : Type} {R : α → β → Prop} {as : List α} {bs : List β}
    (h : List.Forall₂ R as bs) {b : β} (hb : b ∈ bs) : ∃ a ∈ as, R a b := by
  induction h with
  | nil => cases hb
  | cons hab _ ih =>
    rcases List.mem_cons.1 hb with rfl | hb
    · exact ⟨_, List.mem_cons_self, hab⟩
    · obtain ⟨a, ha, hR⟩ := ih hb
      exact ⟨a, List.mem_cons_of_mem _ ha, hR⟩

section

variable {E : Type} {k : Client E} {wires : String → Wire} {text : JsNumber → String}
  {ws_compression_on : Bool} {wire : Wire} {topic event : String} {options : WireOptions}
  {entries : List WireEntry} {rs : List Recorded} {s s' : Server}

/-- The events of the entries that do not exclude a connection, for a subscriber. -/
def toldOf (k : Client E) (topic event : String) (options : WireOptions) (entries : List WireEntry)
    (c : Connection) : List E :=
  if c.skips topic then []
  else (heardEntries options c.ws entries).map fun e => k.view event e.data

/-- A connection between two walks. -/
def Live (wires : String → Wire) (c : Connection) : Prop := ∃ start, Carries wires start none c

/-- A connection between two calls, after whatever happened on it. -/
def Idle (wires : String → Wire) (text : JsNumber → String) (c : Connection) : Prop :=
  ∃ as st, (machine wires text c.ws).Runs Machine.Any as st ∧ st.conn = c ∧ st.stack = []

theorem Idle.live {c : Connection} (h : Idle wires text c) : Live wires c := by
  obtain ⟨as, ⟨conn, stack⟩, hrun, rfl, rfl⟩ := h
  exact ⟨conn, .refl conn, ((good_free (show Free [] from trivial)).1
    (good_of_run hrun)).1⟩

theorem walks_told {walk : Session Bool} {told : Connection → List E} {conns conns' : List Connection}
    (hwalk : ∀ start c, Carries wires start none c → (walk c).Meets (k.quiet wires) fun _ c' =>
      Carries wires start none c' ∧ Told k c (told c) c')
    (hlive : ∀ c ∈ conns, Live wires c) (h : Walks k wires walk conns conns') :
    List.Forall₂ (fun c c' => Live wires c' ∧ Told k c (told c) c') conns conns' := by
  induction h with
  | nil => exact .nil
  | @cons c c' conns conns' hc _ ih =>
    obtain ⟨hc₀, hconns⟩ := List.forall_mem_cons.1 hlive
    obtain ⟨start, hstart⟩ := hc₀
    obtain ⟨delivered, hexec⟩ := hc
    refine .cons ?_ (ih hconns)
    rcases (hwalk start c hstart).exec hexec with ⟨_, -, hcarries, htold⟩ | ⟨hnone, -⟩
    · exact ⟨⟨start, hcarries⟩, htold⟩
    · cases hnone

theorem recordWire_keeps {text : JsNumber → String} {ws_compression_on : Bool} {l l' : Publish.State}
    {data : Option String} {o : WireOptions} {r : Recorded}
    (h : recordWire text ws_compression_on l topic event data o = some (r, l')) :
    r.topic = topic ∧ r.excludeWs = o.excludeWs := by
  simp only [recordWire, stampWire] at h
  cases hstamp : stampSeqValue l.topicSeqs o.seq topic with
  | none => simp [hstamp] at h
  | some x =>
    cases hbody : envelopeBody topic event data with
    | none => simp [hstamp, hbody] at h
    | some body =>
      simp only [hstamp, hbody, Option.some.injEq, Prod.mk.injEq] at h
      rw [← h.1]
      exact ⟨rfl, rfl⟩

/-- Calls of `publishWire` tell a connection the entries that do not exclude it. -/
theorem told_publishWires (hreg : wires wire.capability = wire) {batch : Bool}
    {calls : List (Option String × WireOptions)}
    (hcalls : List.Forall₂ (CallOf topic options batch) entries calls)
    (hparse : List.Forall₂ (fun e r => k.parse r.envelope = [k.view event e.data]) entries rs)
    (hlive : ∀ c ∈ s.conns, Live wires c)
    (h : PublishWires k wires text ws_compression_on wire topic event s calls rs s') :
    List.Forall₂ (fun c c' => Live wires c' ∧ Told k c (toldOf k topic event options entries c) c')
      s.conns s'.conns := by
  induction hcalls generalizing s rs with
  | nil =>
    cases h
    refine List.forall₂_same.2 fun c hc => ⟨hlive c hc, ?_⟩
    simpa [toldOf, heardEntries] using Told.refl c
  | @cons e call entries calls hcall hcalls ih =>
    cases h with
    | @cons _ s₁ _ data o r _ rs hfirst hrest =>
      obtain ⟨hr, hrs⟩ := List.forall₂_cons.1 hparse
      have hdata : data = e.data := hcall.data
      obtain ⟨htopic, hexclude⟩ := recordWire_keeps hfirst.recorded
      rw [show o.excludeWs = _ from hcall.excludeWs] at hexclude
      rw [← hdata] at hr
      have htold := walks_told (fun start c hc => told_publishWire hreg hc hr) hlive hfirst.walked
      refine forall₂_comp ?_ htold (ih hrs ?_ hrest)
      · rintro c c₁ c₂ ⟨-, hone⟩ ⟨hlive₂, hmore⟩
        refine ⟨hlive₂, ?_⟩
        have hboth := hone.trans hmore
        have hcons : toldOf k topic event options (e :: entries) c =
            (if r.excludeWs = some c.ws ∨ c.skips r.topic then [] else [k.view event data]) ++
              toldOf k topic event options entries c₁ := by
          unfold toldOf
          rw [hone.toStays.skips topic, hone.ws, htopic, hexclude, hdata]
          by_cases hskip : c.skips topic = true
          · simp [hskip]
          · by_cases hx : callExclude options e = some c.ws
            · simp [hx, heardEntries]
            · simp [hskip, hx, heardEntries]
        rw [hcons]
        exact hboth
      · intro c₁ hc₁
        obtain ⟨c, -, hc⟩ := forall₂_mem_right htold hc₁
        exact hc.1

theorem views_entriesFor (ws : Socket) (h : List.Forall₂ (Normalised options) entries records) :
    views k event (entriesFor ws records) =
      (heardEntries options ws entries).map fun e => k.view event e.data := by
  induction h with
  | nil => rfl
  | @cons e x entries records hx _ ih =>
    obtain ⟨hdata, -, -, hexclude⟩ := hx
    have hx : x.excludeWs = callExclude options e := hexclude
    simp only [views, entriesFor, heardEntries, List.filter_cons, hx] at ih ⊢
    split
    · rw [map_cons, map_cons, ih, hdata]
    · exact ih

theorem told_batch (hreg : wires wire.capability = wire)
    (hparse : List.Forall₂ (fun e r => k.parse r.envelope = [k.view event e.data]) entries rs)
    (hlive : ∀ c ∈ s.conns, Live wires c)
    (h : PublishWireBatch k wires text ws_compression_on wire topic event s entries options rs s') :
    List.Forall₂ (fun c c' => Live wires c' ∧ Told k c (toldOf k topic event options entries c) c')
      s.conns s'.conns := by
  cases h with
  | @stateful records _ s₁ conns hst _ hstamp hwalks =>
    obtain ⟨-, hrecords, -, -, -, hconns⟩ := stampBatch_some hstamp
    have hforall := captureEntries_forall₂ hrecords
    have henv : Envelopes k event records (rs.map Recorded.envelope) := by
      unfold Envelopes
      rw [forall₂_map_right_iff]
      refine forall₂_comp ?_ hforall.flip hparse
      rintro x e r hx hr
      rw [hx.1]
      exact hr
    have hlen : (rs.map Recorded.seq).length = records.length := by
      simpa using henv.length_eq.symm
    rw [hconns] at hwalks
    refine walks_told (fun start c hc => ?_) hlive hwalks
    have htold := told_publishWireBatch hreg hst hc topic
      (ws_compression_on && options.compress) henv hlen
    rw [views_entriesFor c.ws hforall] at htold
    exact htold
  | @stateless calls _ _ _ _ hcalls hwires =>
    unfold reroute at hcalls
    obtain ⟨hacc, hcalls⟩ := Option.ite_none_left_eq_some.mp hcalls
    obtain ⟨records, hrecords, rfl⟩ := Option.map_eq_some_iff.1 hcalls
    have hcallOf : List.Forall₂ (CallOf topic options true) entries
        (records.map fun x => (x.data, x.options options)) := by
      rw [forall₂_map_right_iff]
      exact (captureEntries_forall₂ hrecords).imp fun _ _ h => callOf_reroute (by simpa using hacc) h
    exact told_publishWires hreg hcallOf hparse hlive hwires

/-! ## a refused batch -/

/-- An entry the batch cannot publish. -/
def Bad (topic event : String) (e : WireEntry) : Prop :=
  resolveEntrySeq e.seq = none ∨ envelopeBody topic event e.data = none

theorem captureEntries_bad (he : e ∈ entries) (hbad : resolveEntrySeq e.seq = none) :
    captureEntries options entries = none := by
  induction entries with
  | nil => cases he
  | cons e' entries ih =>
    simp only [captureEntries]
    rcases List.mem_cons.1 he with rfl | he
    · rw [hbad]
    · rw [ih he]
      cases resolveEntrySeq e'.seq <;> rfl

variable (text ws_compression_on options) in
theorem stampLoop_bad (topicSeqs : Marks) {x : WireRecord}
    (hx : x ∈ records) (hbad : envelopeBody topic event x.data = none) :
    (stampLoop text ws_compression_on topic event options topicSeqs records).2 = none := by
  induction records generalizing topicSeqs with
  | nil => cases hx
  | cons y records ih =>
    simp only [stampLoop]
    cases stampRecord options topicSeqs topic y.seq with
    | none => rfl
    | some stamped =>
      rcases List.mem_cons.1 hx with rfl | hx
      · rw [hbad]
      · cases envelopeBody topic event y.data with
        | none => rfl
        | some body => simp [ih _ hx]

variable (text ws_compression_on options s) in
theorem stampBatch_bad (he : e ∈ entries) (hbad : Bad topic event e) :
    (stampBatch text ws_compression_on topic event s entries options).2 = none := by
  unfold stampBatch
  split
  · rfl
  split
  · rfl
  rename_i records hrecords
  rcases hbad with hseq | hbody
  · rw [captureEntries_bad he hseq] at hrecords
    cases hrecords
  · obtain ⟨x, hx, hnormal⟩ := forall₂_mem_right
      (captureEntries_forall₂ hrecords).flip he
    have hloop := stampLoop_bad text ws_compression_on options s.lanes.topicSeqs hx (hnormal.1 ▸ hbody)
    simp only [hloop]

theorem stampBatch_none
    (h : (stampBatch text ws_compression_on topic event s entries options).2 = none) :
    (stampBatch text ws_compression_on topic event s entries options).1 =
      { s with lanes := { s.lanes with topicSeqs :=
        (stampBatch text ws_compression_on topic event s entries options).1.lanes.topicSeqs } } := by
  unfold stampBatch at h ⊢
  split
  · rfl
  · split
    · rfl
    · simp only
      split
      · rfl
      · next hacc _ records hrecords _ rs hrs => simp [hacc, hrecords, hrs] at h

/-! ## a batch against its calls -/

/-- The batch and the calls leave the same: the seq and the envelope of each entry,
the counters, the mark of the topic, what the resume buffers hold, the publish count,
and what each connection was told. -/
structure Alike (k : Client E) (topic : String) (rs₁ : List Recorded) (s₁ : Server)
    (rs₂ : List Recorded) (s₂ : Server) : Prop where
  seqs : rs₁.map Recorded.seq = rs₂.map Recorded.seq
  envelopes : rs₁.map Recorded.envelope = rs₂.map Recorded.envelope
  counters : s₁.lanes.topicSeqs = s₂.lanes.topicSeqs
  mark : s₁.lanes.resume.marks.at topic = s₂.lanes.resume.marks.at topic
  held : ∀ id, s₁.lanes.resume.buffers.get? id = s₂.lanes.resume.buffers.get? id
  counted : s₁.publishCount = s₂.publishCount
  told : List.Forall₂ (fun c₁ c₂ => k.events c₁.log = k.events c₂.log) s₁.conns s₂.conns

/-- An open subscriber is told the entries that do not exclude it, in their order,
and nothing else is told; and what a resume buffer newly holds reads as an entry that
does not exclude its connection. -/
structure Exact (k : Client E) (topic event : String) (options : WireOptions)
    (entries : List WireEntry) (s s' : Server) : Prop where
  told : List.Forall₂ (fun c c' => k.events c'.log =
    k.events c.log ++ if c.isOpen then toldOf k topic event options entries c else [])
    s.conns s'.conns
  held : ∀ id b b', s.lanes.resume.buffers.get? id = some b →
    s'.lanes.resume.buffers.get? id = some b' → ∀ f ∈ b'.frames.drop b.frames.length,
      ∃ e ∈ entries, callExclude options e ≠ some b.ws ∧ k.parse f.envelope = [k.view event e.data]

theorem map_promote {β : Type} {f : Recorded → β} (hf : ∀ batch e r, f (promote batch e r) = f r)
    (h : List.Forall₂ (PlanOf topic options) entries rs) (batch : Bool) :
    (zipWith (promote batch) entries rs).map f = rs.map f := by
  induction h with
  | nil => rfl
  | cons _ _ ih => rw [zipWith_cons_cons, map_cons, map_cons, ih, hf]

theorem held_for {s s' : Resume.State} (htopic : ∀ r ∈ rs, r.topic = topic)
    (hrs : List.Forall₂ (fun e r => r.excludeWs = callExclude options e ∧
      k.parse r.envelope = [k.view event e.data]) entries rs)
    (hnodup : ∀ set, s.resumeBuffers.get? topic = some set → set.Nodup)
    (hs' : s' = commits rs s) {id : Nat} {b b' : Buffer} (hb : s.buffers.get? id = some b)
    (hb' : s'.buffers.get? id = some b') {f : Resume.Frame} (hf : f ∈ b'.frames.drop b.frames.length) :
    ∃ e ∈ entries, callExclude options e ≠ some b.ws ∧ k.parse f.envelope = [k.view event e.data] := by
  rw [hs', commits_eq] at hb'
  simp only [(captures_buffers htopic hnodup id).2, hb] at hb'
  split at hb'
  · simp only [Option.map_some, Option.some.injEq, foldl_capture] at hb'
    rw [← hb'] at hf
    simp only [List.drop_left] at hf
    obtain ⟨r, hr, rfl⟩ := List.mem_map.1 (List.mem_of_mem_take hf)
    simp only [heardRecords, List.mem_filter, decide_eq_true_eq] at hr
    obtain ⟨e, he, hexclude, hparse⟩ := forall₂_mem_right hrs hr.1
    exact ⟨e, he, hexclude ▸ hr.2, hparse⟩
  · cases hb'
    simp at hf

/-- **A batch equals its calls exactly if no bigint seq makes a difference.**  Over
idle connections, whatever their codecs and sockets do: the batch and the calls of
`publishWire` for its entries each tell every connection, and hold for it, the entries
that do not exclude it; and they leave the same if and only if no bigint seq of the
batch is above the mark that its number seqs leave, and none is held for a resume.  A
batch with a bad entry is refused by the stateful lane, which leaves the marks, the
captures, the publish count and the connections as they were. -/
theorem wire_batch_iff (hreg : wires wire.capability = wire) {rs₁ rs₂ : List Recorded}
    {s s₁ s₂ : Server} (hidle : ∀ c ∈ s.conns, Idle wires text c)
    (hnodup : ∀ set, s.lanes.resume.resumeBuffers.get? topic = some set → set.Nodup)
    (hbatch : PublishWireBatch k wires text ws_compression_on wire topic event s entries options
      rs₁ s₁)
    (hcalls : PublishWires k wires text ws_compression_on wire topic event s
      (entryCalls options entries) rs₂ s₂)
    (hparse : List.Forall₂ (fun e r => k.parse r.envelope = [k.view event e.data]) entries rs₁) :
    Exact k topic event options entries s s₁ ∧ Exact k topic event options entries s s₂ ∧
      (Alike k topic rs₁ s₁ rs₂ s₂ ↔
        Covered s.lanes.resume.marks topic entries ∧ Unheld s.lanes.resume topic options entries) ∧
      ∀ others, (∃ e ∈ others, Bad topic event e) →
        ∃ seqs, stampBatch text ws_compression_on topic event s others options =
          ({ s with lanes := { s.lanes with topicSeqs := seqs } }, none) := by
  have hlive : ∀ c ∈ s.conns, Live wires c := fun c hc => (hidle c hc).live
  obtain ⟨haccepted, rs, hplan₁, hrs₁, hresume₁, hcount₁⟩ := batch_plan hbatch
  obtain ⟨rs', hplan₂, hrs₂, hresume₂, hcount₂⟩ := calls_plan (callOf_entryCalls entries) hcalls
  -- both record one plan
  rw [hplan₁] at hplan₂
  simp only [Option.some.injEq, Prod.mk.injEq] at hplan₂
  obtain ⟨rfl, hcounters⟩ := hplan₂
  have hplan := planOf_entries haccepted hplan₁
  rw [promote_false hplan] at hrs₂
  subst hrs₁ hrs₂
  -- the flags apart, the records agree
  have hfields := map_promote (f := fun r => (r.excludeWs, r.envelope)) (fun _ _ _ => rfl) hplan true
  have hseqs := map_promote (f := Recorded.seq) (fun _ _ _ => rfl) hplan true
  have henvelopes := map_promote (f := Recorded.envelope) (fun _ _ _ => rfl) hplan true
  have hparse₂ : List.Forall₂ (fun e r => k.parse r.envelope = [k.view event e.data]) entries rs₂ := by
    have hmap : List.Forall₂ (fun e env => k.parse env = [k.view event e.data]) entries
        (rs₂.map Recorded.envelope) := by
      rw [← henvelopes, forall₂_map_right_iff]
      exact hparse
    rwa [forall₂_map_right_iff] at hmap
  have hboth₂ : List.Forall₂ (fun e r => r.excludeWs = callExclude options e ∧
      k.parse r.envelope = [k.view event e.data]) entries rs₂ :=
    List.forall₂_iff_zip.2 ⟨hplan.length_eq, fun h => ⟨((List.forall₂_iff_zip.1 hplan).2 h).excludeWs,
      (List.forall₂_iff_zip.1 hparse₂).2 h⟩⟩
  have hboth₁ : List.Forall₂ (fun e r => r.excludeWs = callExclude options e ∧
      k.parse r.envelope = [k.view event e.data]) entries
      (zipWith (promote true) entries rs₂) := by
    have hmap : List.Forall₂ (fun e (x : Option Socket × String) => x.1 = callExclude options e ∧
        k.parse x.2 = [k.view event e.data]) entries
        ((zipWith (promote true) entries rs₂).map fun r => (r.excludeWs, r.envelope)) := by
      rw [hfields, forall₂_map_right_iff]
      exact hboth₂
    rwa [forall₂_map_right_iff] at hmap
  have htopic₁ : ∀ r ∈ zipWith (promote true) entries rs₂, r.topic = topic :=
    fun r hr => (ofTopic_promote hplan true r hr).1
  have htopic₂ : ∀ r ∈ rs₂, r.topic = topic := by
    intro r hr
    obtain ⟨e, -, he⟩ := forall₂_mem_right hplan hr
    exact he.topic
  have htold₁ := told_batch hreg hparse hlive hbatch
  have htold₂ := told_publishWires hreg (callOf_entryCalls entries) hparse₂ hlive hcalls
  refine ⟨⟨htold₁.imp fun _ _ h => h.2.events, ?_⟩, ⟨htold₂.imp fun _ _ h => h.2.events, ?_⟩, ?_, ?_⟩
  · exact fun id b b' hb hb' f hf => held_for htopic₁ hboth₁ hnodup hresume₁ hb hb' hf
  · exact fun id b b' hb hb' f hf => held_for htopic₂ hboth₂ hnodup hresume₂ hb hb' hf
  · have hmark := mark_iff hplan s.lanes.resume.marks
    have hheld := held_eq_iff hplan hnodup
    rw [← hmark, ← hheld]
    constructor
    · intro h
      have hmarks := h.mark
      have hholds := h.held
      rw [hresume₁, hresume₂, commits_eq, commits_eq] at hmarks hholds
      exact ⟨hmarks, hholds⟩
    · rintro ⟨hmarks, hholds⟩
      refine ⟨hseqs, henvelopes, hcounters, ?_, ?_, hcount₁.trans hcount₂.symm, ?_⟩
      · rw [hresume₁, hresume₂, commits_eq, commits_eq]
        exact hmarks
      · rw [hresume₁, hresume₂, commits_eq, commits_eq]
        exact hholds
      · refine forall₂_comp ?_ htold₁.flip htold₂
        rintro c₁ c c₂ ⟨-, h₁⟩ ⟨-, h₂⟩
        rw [h₁.events, h₂.events]
  · intro others hbad
    obtain ⟨e, he, hbad⟩ := hbad
    have hnone := stampBatch_bad text ws_compression_on options s he hbad
    exact ⟨_, Prod.ext (stampBatch_none hnone) hnone⟩

end

/-! ## runs on fixed calls -/

section

variable {E : Type} {k : Client E} {wires : String → Wire}

theorem walks_play {answer : (op : Op) → Connection → op.Ans}
    (h : ∀ op c, k.environment wires op c (answer op c) c) (walk : Session Bool)
    (conns : List Connection) (hdone : ∀ c ∈ conns, ((walk c).play answer).1.isSome = true) :
    Walks k wires walk conns (conns.map fun c => ((walk c).play answer).2) := by
  unfold Walks
  rw [forall₂_map_right_iff]
  refine List.forall₂_same.2 fun c hc => ?_
  obtain ⟨delivered, hdelivered⟩ := Option.isSome_iff_exists.1 (hdone c hc)
  have hexec := Outcome.exec_play h (walk c)
  rw [hdelivered] at hexec
  exact ⟨delivered, hexec⟩

theorem publishWire_play {text : JsNumber → String} {ws_compression_on : Bool} {wire : Wire}
    {topic event : String} {answer : (op : Op) → Connection → op.Ans}
    (h : ∀ op c, k.environment wires op c (answer op c) c) {data : Option String}
    {o : WireOptions} {r : Recorded} {l : Publish.State}
    (hrecorded : recordWire text ws_compression_on s.lanes topic event data o = some (r, l))
    (hdone : ∀ c ∈ s.conns, ((publishWire wire event data r c).play answer).1.isSome = true) :
    PublishWire k wires text ws_compression_on wire topic event s data o r
      { lanes := l
        publishCount := s.publishCount + 1
        conns := s.conns.map fun c => ((publishWire wire event data r c).play answer).2 } where
  recorded := hrecorded
  counted := rfl
  walked := walks_play h _ _ hdone

end

/-- A client of events `e` with the data 1 and 2, as envelopes and as bytes. -/
def reader : Client (String × Option String) where
  view event data := (event, data)
  parse env :=
    if env = "\x7b\"topic\":\"t\",\"event\":\"e\",\"data\":1,\"seq\":5\x7d" then [("e", some "1")]
    else if env = "\x7b\"topic\":\"t\",\"event\":\"e\",\"data\":2,\"seq\":3\x7d" then
      [("e", some "2")]
    else []
  decode _ _ p := if p = [1] then [("e", some "1")] else if p = [2] then [("e", some "2")] else []

/-- A codec that encodes these one by one, and an open socket. -/
def answers : (op : Op) → Connection → op.Ans
  | .onAttach _, _ => some { schemaVersion := none }
  | .encode _ _ request, _ =>
    if request = .single "e" (some "1") then some [1]
    else if request = .single "e" (some "2") then some [2]
    else none
  | .announce .., c => if c.isOpen then Control.delivered else Control.gone
  | .send .., c => if c.isOpen then SendResult.success else SendResult.dropped

theorem answers_reader (op : Op) (c : Connection) :
    reader.environment codec op c (answers op c) c := by
  refine ⟨rfl, ?_, ?_⟩
  · cases op <;> cases hc : c.isOpen <;> simp [Op.possible, answers]
  cases op with
  | encode capability state request =>
    have hread : ∀ p, answers (.encode capability state request) c = some p → ∀ past sv,
        reader.Stands request (reader.decode past sv p) := by
      intro p hp past sv
      simp only [answers] at hp
      split at hp
      · next hone =>
        cases hp
        rw [hone]
        rfl
      · split at hp
        · next htwo =>
          cases hp
          rw [htwo]
          rfl
        · cases hp
    cases state with
    | none => exact fun p hp past => hread p hp past _
    | some state => exact fun p hp => hread p hp _ _
  | _ => trivial

def subscriber (ws : Socket) : Connection :=
  { Connection.fresh ws with
    subscriptions := ["t"]
    caps := some ["c"] }

theorem subscriber_idle (ws : Socket) : Idle codec integerText (subscriber ws) := by
  obtain ⟨s, hs⟩ : ∃ s, (machine codec integerText ws).exec (machine codec integerText ws).init
      [.subscribe "t", .hello ["c"]] = some s := ⟨_, rfl⟩
  have hrun := Machine.runs_of_exec hs
  cases hs
  exact ⟨_, _, hrun, rfl, rfl⟩

/-- A server with two of them. -/
def server : Server where
  lanes := .init
  publishCount := 0
  conns := [subscriber 0, subscriber 7]

def batchOptions : WireOptions where
  seq := .undefined
  compress := false
  excludeWs := none

/-- A batch with a bigint seq below a number, of which one entry excludes a subscriber. -/
def coveredEntries : List WireEntry :=
  [⟨some "1", none, .number (.ofNat 5)⟩, ⟨some "2", some 7, .bigint 3⟩]

/-- Such a batch equals its calls. -/
theorem wire_batch_covered : ∃ rs₁ s₁ rs₂ s₂,
    PublishWireBatch reader codec integerText false (codec "c") "t" "e" server coveredEntries
      batchOptions rs₁ s₁ ∧
    PublishWires reader codec integerText false (codec "c") "t" "e" server
      (entryCalls batchOptions coveredEntries) rs₂ s₂ ∧
    Exact reader "t" "e" batchOptions coveredEntries server s₁ ∧
    Alike reader "t" rs₁ s₁ rs₂ s₂ := by
  obtain ⟨s, records, rs₁, hstamp⟩ : ∃ s records rs₁, stampBatch integerText false "t" "e" server
      coveredEntries batchOptions = (s, some (records, rs₁)) := ⟨_, _, _, rfl⟩
  have hparse : List.Forall₂ (fun e (r : Recorded) => reader.parse r.envelope =
      [reader.view "e" e.data]) coveredEntries rs₁ := by
    cases hstamp
    exact .cons (by decide +kernel) (.cons (by decide +kernel) .nil)
  have hwalks := walks_play answers_reader
    (publishWireBatch (codec "c") "t" "e" false records (rs₁.map Recorded.envelope)
      (rs₁.map Recorded.seq)) s.conns (by
        cases hstamp
        decide +kernel)
  have hbatch := PublishWireBatch.stateful rfl
    (by simp [coveredEntries]) hstamp hwalks
  obtain ⟨rs₂, s₂, hcalls⟩ : ∃ rs₂ s₂, PublishWires reader codec integerText false (codec "c") "t" "e"
      server (entryCalls batchOptions coveredEntries) rs₂ s₂ := by
    refine ⟨_, _, .cons (publishWire_play answers_reader rfl ?_)
      (.cons (publishWire_play answers_reader rfl ?_) (.nil _))⟩
    · decide +kernel
    · decide +kernel
  have h := wire_batch_iff rfl (fun c hc => ?_) (fun set hset => ?_) hbatch hcalls hparse
  · refine ⟨_, _, _, _, hbatch, hcalls, h.1, h.2.2.1.2 ⟨?_, ?_⟩⟩
    · intro z hz _
      refine ⟨.ofNat 5, by simp [coveredEntries], ?_⟩
      have hz' : z = 3 := by simpa [coveredEntries] using hz
      rw [hz']
      decide +kernel
    · intro id hid
      cases hid
  · simp only [server, List.mem_cons, List.not_mem_nil, or_false] at hc
    rcases hc with rfl | rfl
    · exact subscriber_idle 0
    · exact subscriber_idle 7
  · cases hset

/-- A batch with a bigint seq of its own marks the topic; `publishWire` does not. -/
theorem bigint_marks : ∃ entries, entries ≠ [] ∧
    (∃ rs₁ s₁, PublishWireBatch reader codec integerText false (codec "c") "t" "e" server entries
      batchOptions rs₁ s₁) ∧
    (∃ rs₂ s₂, PublishWires reader codec integerText false (codec "c") "t" "e" server
      (entryCalls batchOptions entries) rs₂ s₂) ∧
    ∀ rs₁ s₁ rs₂ s₂, PublishWireBatch reader codec integerText false (codec "c") "t" "e" server
        entries batchOptions rs₁ s₁ →
      PublishWires reader codec integerText false (codec "c") "t" "e" server
        (entryCalls batchOptions entries) rs₂ s₂ →
      s₁.lanes.resume.marks.at "t" = .ofInt 5 ∧ s₂.lanes.resume.marks.at "t" = NO_MARK := by
  refine ⟨[⟨some "1", none, .bigint 5⟩], by simp, ?_, ?_, ?_⟩
  · obtain ⟨s, records, rs₁, hstamp⟩ : ∃ s records rs₁, stampBatch integerText false "t" "e" server
        [⟨some "1", none, .bigint 5⟩] batchOptions = (s, some (records, rs₁)) := ⟨_, _, _, rfl⟩
    have hwalks := walks_play answers_reader
      (publishWireBatch (codec "c") "t" "e" false records (rs₁.map Recorded.envelope)
        (rs₁.map Recorded.seq)) s.conns (by
          cases hstamp
          decide +kernel)
    exact ⟨_, _, .stateful rfl (by simp) hstamp hwalks⟩
  · refine ⟨_, _, .cons (publishWire_play answers_reader rfl ?_) (.nil _)⟩
    decide +kernel
  · intro rs₁ s₁ rs₂ s₂ hbatch hcalls
    constructor
    · cases hbatch with
      | stateful _ _ hstamp _ =>
        have hmarks : ∀ x, stampBatch integerText false "t" "e" server
            [⟨some "1", none, .bigint 5⟩] batchOptions = x →
            x.1.lanes.resume.marks.at "t" = .ofInt 5 := by
          rintro x rfl
          decide +kernel
        exact hmarks _ hstamp
      | stateless hst => cases hst
    · cases hcalls with
      | cons hfirst hrest =>
        cases hrest
        have hrecorded := hfirst.recorded
        have hmarks : ∀ x : Recorded × Publish.State, recordWire integerText false server.lanes "t" "e"
            (some "1") ⟨.bigint 5, false, none⟩ = some x → x.2.resume.marks.at "t" = NO_MARK := by
          intro x hx
          cases hx
          decide +kernel
        exact hmarks _ hrecorded

end BunServe.WireState
