import BunServe.Lib.JsMap
import BunServe.Lib.JsonText
import Mathlib.Algebra.Order.BigOperators.Group.List
import Mathlib.Data.List.Induction
import Mathlib.Data.Nat.Digits.Defs

/-!
# BunServe.Topics.Chunks

The frames in which the client subscribes to many topics (`chunkTopicsForBatch`,
`chunkResubscribe` of `client.js`): where `BunServe.Topics` has the sizes of topics as a
parameter, the texts themselves, and the object that a chunk recovers from.

Numbers are a parameter, with the text that JSON writes for one.  JSON writes the
properties of an object in an order of its own; how many bytes they take does not depend
on it.

* `Chunk.Sound` — what holds of every chunk: its size, its recovery map, its bytes;
* `chunks_of_topics` — the chunks are the topics in order, each sound, and each in a frame that
  the server reads.
-/

namespace BunServe.Topics.Chunks

open JsonText

/-! ## chunks -/

/-- `SUBSCRIBE_BATCH_ENVELOPE_BYTES`. -/
def envelopeBytes : Nat := 50

/-- `SUBSCRIBE_BATCH_MAX_BYTES`. -/
def batchMaxBytes : Nat := 8000

/-- `SUBSCRIBE_BATCH_MAX_TOPICS`. -/
def batchMaxTopics : Nat := 200

/-- Where a topic is to be recovered from. -/
structure Recovery (N : Type) where
  offset : N
  epoch : Option N
  deriving DecidableEq

variable {N : Type}

/-- `JSON.stringify(entry)`. -/
def Recovery.text (number : N → JsString) (e : Recovery N) : JsString :=
  objectText ((js "offset", number e.offset) :: e.epoch.toList.map fun epoch => (js "epoch", number epoch))

/-- What the client holds of its topics. -/
structure Tables (N : Type) where
  managedTopics : JsString → Bool
  lastSeenSeqs : JsString → Option N
  lastSeenEpochs : JsString → Option N
  /-- `JSON.stringify` of a number. -/
  number : N → JsString

def Tables.entry (w : Tables N) (t : JsString) : Option (Recovery N) :=
  (w.lastSeenSeqs t).map fun offset => { offset, epoch := w.lastSeenEpochs t }

/-- `{ topics, recover }`. -/
structure Chunk (N : Type) where
  topics : List JsString
  recover : Option (JsMap JsString (Recovery N))

/-- What a recovery adds to the frame. -/
def recoveryBytes (number : N → JsString) (t : JsString) (e : Recovery N) : Nat :=
  byteLength (propertyText (t, e.text number)) + 1

/-- `entryBytes`. -/
def entryBytes (w : Tables N) (t : JsString) : Nat :=
  byteLength (JsonString.stringify t) + 1 + (w.entry t).elim 0 (recoveryBytes w.number t)

/-- `recover[t] = entry`, of a plain object: its prototype is no property of its own. -/
def assign (recover : JsMap JsString (Recovery N)) (t : JsString) (e : Recovery N) :
    JsMap JsString (Recovery N) :=
  if t = js "__proto__" then recover else recover.set t e

/-- The chunks so far, and the one that is being filled. -/
structure Chunking (N : Type) where
  out : List (Chunk N)
  chunk : Chunk N
  chunkBytes : Nat

def Chunking.init : Chunking N := ⟨[], ⟨[], none⟩, envelopeBytes⟩

def Chunking.full (c : Chunking N) (bytes : Nat) : Bool :=
  decide (c.chunk.topics.length > 0 ∧
    (c.chunk.topics.length ≥ batchMaxTopics ∨ c.chunkBytes + bytes > batchMaxBytes))

def chunkTopic (w : Tables N) (c : Chunking N) (t : JsString) : Chunking N :=
  if w.managedTopics t then c
  else
    let c := if c.full (entryBytes w t) then { Chunking.init with out := c.out ++ [c.chunk] } else c
    { c with
      chunk :=
        { topics := c.chunk.topics ++ [t]
          recover := match w.entry t with
            | none => c.chunk.recover
            | some e => some (assign (c.chunk.recover.getD .empty) t e) }
      chunkBytes := c.chunkBytes + entryBytes w t }

/-- `chunkResubscribe(topics)`. -/
def chunkResubscribe (w : Tables N) (topics : List JsString) : List (Chunk N) :=
  let c := topics.foldl (chunkTopic w) .init
  if c.chunk.topics.length > 0 then c.out ++ [c.chunk] else c.out

/-- Nothing is managed, and nothing recovered. -/
def Tables.plain : Tables Nat := ⟨fun _ => false, fun _ => none, fun _ => none, fun _ => []⟩

/-- `chunkTopicsForBatch(topics)`. -/
def chunkTopicsForBatch (topics : List JsString) : List (List JsString) :=
  (chunkResubscribe .plain topics).map Chunk.topics

def frame (number : N → JsString) (topics : List JsString) (ref : Nat)
    (recover : Option (JsMap JsString (Recovery N))) : JsString :=
  objectText ([(js "type", JsonString.stringify (js "subscribe-batch")),
    (js "topics", arrayText (topics.map JsonString.stringify)), (js "ref", js (Nat.repr ref))] ++
    recover.toList.map fun m => (js "recover", objectText (m.entries.map fun e => (e.1, e.2.text number))))

/-! ## what holds of a chunk -/

variable {w : Tables N} {c : Chunking N} {t : JsString} {ch : Chunk N}

/-- The bytes of the topics, and of what is to be recovered. -/
def bytesOf (w : Tables N) (topics : List JsString) : Nat := (topics.map (entryBytes w)).sum

/-- What holds of a chunk, its last topic apart from how it is filled. -/
structure Chunk.Sound (w : Tables N) (ch : Chunk N) : Prop where
  count : ch.topics.length ≤ batchMaxTopics
  recovered : ch.recover.isSome ↔ ∃ t ∈ ch.topics, (w.entry t).isSome
  recover : ∀ t, (ch.recover.bind fun m => m.get? t) =
    if t ∈ ch.topics ∧ t ≠ js "__proto__" then w.entry t else none
  /-- More than one topic is in the budget. -/
  bytes : ch.topics.length ≤ 1 ∨ envelopeBytes + bytesOf w ch.topics ≤ batchMaxBytes
  /-- What is recovered is counted with its topic. -/
  counted : (ch.recover.elim 0 fun m => m.sumEntries fun t e => recoveryBytes w.number t e) ≤
    ((ch.topics.map fun t => (w.entry t).elim 0 (recoveryBytes w.number t)).sum : Nat)

theorem sound_empty : Chunk.Sound w ⟨[], none⟩ := by
  constructor <;> simp

theorem Chunk.Sound.push (h : ch.Sound w) (hcount : ch.topics.length < batchMaxTopics)
    (hbytes : ch.topics.length = 0 ∨ envelopeBytes + bytesOf w ch.topics + entryBytes w t ≤ batchMaxBytes) :
    Chunk.Sound w ⟨ch.topics ++ [t], match w.entry t with
      | none => ch.recover
      | some e => some (assign (ch.recover.getD .empty) t e)⟩ := by
  have hget : ∀ t', (ch.recover.getD .empty).get? t' = ch.recover.bind fun m => m.get? t' := by
    intro t'
    cases ch.recover <;> simp
  constructor
  · simpa [Nat.succ_le_iff] using hcount
  · have hrec := h.recovered
    cases hentry : w.entry t <;> simp_all
  · intro t'
    have hrec := h.recover t'
    cases hentry : w.entry t with
    | none => grind
    | some e => grind [assign, JsMap.get?_set]
  · cases hbytes with
    | inl hzero => simp [hzero]
    | inr hle => simpa [bytesOf, Nat.add_assoc] using Or.inr hle
  · have hsum := h.counted
    simp only [List.map_append, List.map_cons, List.sum_append, List.sum_cons]
    cases hentry : w.entry t with
    | none => simpa using hsum
    | some e =>
      have hset := JsMap.sumEntries_set (fun t e => recoveryBytes w.number t e)
        (ch.recover.getD .empty) t e
      have hpos : 0 ≤ (((ch.recover.getD .empty).get? t).map fun e =>
          (recoveryBytes w.number t e : Int)).getD 0 := by
        cases (ch.recover.getD .empty).get? t <;> simp
      have hempty : ch.recover.elim 0 (fun m => m.sumEntries fun t e =>
          (recoveryBytes w.number t e : Int)) =
            (ch.recover.getD .empty).sumEntries fun t e => recoveryBytes w.number t e := by
        cases ch.recover <;> rfl
      simp only [Option.elim_some, assign]
      split <;> omega

/-- The chunks so far are sound, and are the topics so far. -/
structure Chunking.Sound (w : Tables N) (topics : List JsString) (c : Chunking N) : Prop where
  out : ∀ ch ∈ c.out, ch.Sound w ∧ ch.topics ≠ []
  chunk : c.chunk.Sound w
  chunkBytes : c.chunkBytes = envelopeBytes + bytesOf w c.chunk.topics
  topics : c.out.flatMap Chunk.topics ++ c.chunk.topics = topics.filter fun t => !w.managedTopics t

theorem Chunking.Sound.chunkTopic {topics : List JsString} (h : c.Sound w topics) (t : JsString) :
    (chunkTopic w c t).Sound w (topics ++ [t]) := by
  unfold Chunks.chunkTopic
  have htopics := h.topics
  split
  · next hmanaged => exact ⟨h.out, h.chunk, h.chunkBytes, by simp [hmanaged, htopics]⟩
  · next hmanaged =>
    split
    · next hfull =>
      have hne : c.chunk.topics ≠ [] := by
        have := of_decide_eq_true hfull
        exact List.ne_nil_of_length_pos this.1
      refine ⟨fun ch hch => ?_, sound_empty.push (by simp [batchMaxTopics]) (.inl rfl),
        by simp [init, bytesOf], ?_⟩
      · cases List.mem_append.mp hch with
        | inl hout => exact h.out ch hout
        | inr hlast => exact List.mem_singleton.mp hlast ▸ ⟨h.chunk, hne⟩
      · simp [init, hmanaged, ← htopics]
    · next hfull =>
      have hfull := of_decide_eq_false (Bool.eq_false_iff.mpr hfull)
      have hbytes := h.chunkBytes
      refine ⟨h.out, h.chunk.push ?_ ?_, ?_, ?_⟩
      · by_contra hmany
        exact hfull ⟨by unfold batchMaxTopics at hmany; omega, .inl (not_lt.mp hmany)⟩
      · by_contra hlarge
        exact hfull ⟨by omega, .inr (by omega)⟩
      · simp [bytesOf, hbytes, Nat.add_assoc]
      · simp [hmanaged, ← htopics]

theorem sound_chunkResubscribe (w : Tables N) (topics : List JsString) :
    (∀ ch ∈ chunkResubscribe w topics, ch.Sound w ∧ ch.topics ≠ []) ∧
    (chunkResubscribe w topics).flatMap Chunk.topics = topics.filter fun t => !w.managedTopics t := by
  have hsound : (topics.foldl (chunkTopic w) .init).Sound w topics := by
    induction topics using List.reverseRecOn with
    | nil => exact ⟨by simp [Chunking.init], sound_empty, rfl, rfl⟩
    | append_singleton topics t ih =>
      rw [List.foldl_append]
      exact ih.chunkTopic t
  unfold chunkResubscribe
  have htopics := hsound.topics
  simp only
  split
  · next hpos =>
    refine ⟨fun ch hch => ?_, by simp [← htopics]⟩
    cases List.mem_append.mp hch with
    | inl hout => exact hsound.out ch hout
    | inr hlast => exact List.mem_singleton.mp hlast ▸ ⟨hsound.chunk, List.ne_nil_of_length_pos hpos⟩
  · next hpos =>
    have hnil : (topics.foldl (chunkTopic w) .init).chunk.topics = [] :=
      List.eq_nil_of_length_eq_zero (by omega)
    exact ⟨hsound.out, by rw [← htopics, hnil, List.append_nil]⟩

/-! ## frames -/

theorem byteLength_js {cs : List Char} (h : ∀ c ∈ cs, c.isDigit) :
    byteLength (cs.flatMap units) = cs.length := by
  induction cs with
  | nil => rfl
  | cons c cs ih =>
    have hdigit : c.val.toNat < 0x80 := by
      have := h c (by simp)
      simp only [Char.isDigit, Bool.and_eq_true, decide_eq_true_eq] at this
      exact this.2.trans_lt (by decide)
    have hunit : units c = [c.val.toUInt16] := if_pos (by rw [UInt32.lt_iff_toNat_lt]; grind)
    have hascii : Ascii c.val.toUInt16 := by
      rw [Ascii, UInt32.toNat_toUInt16]
      omega
    rw [List.flatMap_cons, hunit, List.singleton_append, byteLength_cons hascii,
      ih fun c hc => h c (by simp [hc]), List.length_cons]

theorem byteLength_ref {ref : Nat} (h : ref ≤ 2 ^ 53) : byteLength (js (Nat.repr ref)) ≤ 16 := by
  have hdigits : ∀ c ∈ (Nat.repr ref).toList, c.isDigit := by
    intro c hc
    rw [Nat.toList_repr] at hc
    exact Nat.isDigit_of_mem_toDigits (by decide) (by decide) hc
  rw [js, byteLength_js hdigits]
  exact Nat.repr_length ref 16 (by decide) (by omega)

theorem recoveryBytes_eq (number : N → JsString) (t : JsString) (e : Recovery N) :
    recoveryBytes number t e = byteLength (JsonString.stringify t) + byteLength (e.text number) + 2 := by
  rw [recoveryBytes, byteLength_propertyText]

theorem byteLength_frame (number : N → JsString) (topics : List JsString) {ref : Nat} (href : ref ≤ 2 ^ 53)
    (recover : Option (JsMap JsString (Recovery N))) : byteLength (frame number topics ref recover) ≤
      74 + (topics.map fun t => byteLength (JsonString.stringify t) + 1).sum +
        recover.elim 0 fun m => (m.entries.map fun e => recoveryBytes number e.1 e.2).sum := by
  have hscaffold : byteLength (JsonString.stringify (js "type")) = 6 ∧
      byteLength (JsonString.stringify (js "subscribe-batch")) = 17 ∧
      byteLength (JsonString.stringify (js "topics")) = 8 ∧
      byteLength (JsonString.stringify (js "ref")) = 5 ∧
      byteLength (JsonString.stringify (js "recover")) = 9 := by decide +kernel
  obtain ⟨htype, hbatch, htopics, hrefName, hrecover⟩ := hscaffold
  have hdigits := byteLength_ref href
  rw [frame, byteLength_objectText]
  cases recover with
  | none =>
    simp [byteLength_arrayText, Function.comp_def]
    omega
  | some m =>
    simp only [Option.elim_some, recoveryBytes_eq, Option.toList_some, List.map_cons,
      List.map_nil, List.cons_append, List.nil_append, List.sum_cons, List.sum_nil, byteLength_arrayText, byteLength_objectText, List.map_map, Function.comp_def]
    omega

theorem Chunk.Sound.budget (h : ch.Sound w) (hne : ch.topics ≠ [])
    (hfits : ∀ t ∈ ch.topics, entryBytes w t ≤ 8000) : bytesOf w ch.topics ≤ 8000 := by
  cases h.bytes with
  | inl hone =>
    obtain ⟨t, ht⟩ := List.length_eq_one_iff.mp (le_antisymm hone (List.length_pos_iff.mpr hne))
    simpa [ht, bytesOf] using hfits t (by simp [ht])
  | inr hle => exact (Nat.le_add_left _ _).trans hle

theorem Chunk.Sound.byteLength_frame (h : ch.Sound w) (hne : ch.topics ≠ []) {ref : Nat}
    (href : ref ≤ 2 ^ 53) (hfits : ∀ t ∈ ch.topics, entryBytes w t ≤ 8000) :
    byteLength (frame w.number ch.topics ref ch.recover) ≤ 8192 := by
  have hframe := Chunks.byteLength_frame w.number ch.topics href ch.recover
  have hbudget := h.budget hne hfits
  have hsplit : bytesOf w ch.topics = (ch.topics.map fun t => byteLength (JsonString.stringify t) + 1).sum +
      (ch.topics.map fun t => (w.entry t).elim 0 (recoveryBytes w.number t)).sum := by
    rw [← List.sum_map_add]
    rfl
  have hcounted := h.counted
  cases hrec : ch.recover with
  | none =>
    simp only [hrec, Option.elim_none] at hframe
    omega
  | some m =>
    simp only [hrec, Option.elim_some, JsMap.sumEntries_natCast] at hframe hcounted
    omega

/-- The chunks are the topics that are not managed, in order; each names 200 at most, holds
just what is tracked of them, but for the topic that is no property of a plain object, and
makes a frame that the server reads.  The plain chunks are the topics, and so is each frame
of what is left of one. -/
theorem chunks_of_topics (w : Tables N) (topics : List JsString) :
    (chunkResubscribe w topics).flatMap Chunk.topics = (topics.filter fun t => !w.managedTopics t) ∧
    (∀ ch ∈ chunkResubscribe w topics, ch.topics.length ≤ 200 ∧
      (ch.recover.isSome ↔ ∃ t ∈ ch.topics, (w.entry t).isSome) ∧
      (∀ t, (ch.recover.bind fun m => m.get? t) =
        if t ∈ ch.topics ∧ t ≠ js "__proto__" then w.entry t else none) ∧
      ∀ ref ≤ 2 ^ 53, (∀ t ∈ ch.topics, entryBytes w t ≤ 8000) →
        byteLength (frame w.number ch.topics ref ch.recover) ≤ 8192) ∧
    (chunkTopicsForBatch topics).flatten = topics ∧
    ∀ chunk ∈ chunkTopicsForBatch topics, chunk.length ≤ 200 ∧
      ∀ left, List.Sublist left chunk → ∀ ref ≤ 2 ^ 53,
        (∀ t ∈ chunk, byteLength (JsonString.stringify t) + 1 ≤ 8000) →
        byteLength (frame w.number left ref none) ≤ 8192 := by
  obtain ⟨hsound, htopics⟩ := sound_chunkResubscribe w topics
  obtain ⟨hplain, hall⟩ := sound_chunkResubscribe .plain topics
  refine ⟨htopics, fun ch hch => ?_, ?_, fun chunk hchunk => ?_⟩
  · obtain ⟨h, hne⟩ := hsound ch hch
    exact ⟨h.count, h.recovered, h.recover, fun ref href hfits => h.byteLength_frame hne href hfits⟩
  · simpa [chunkTopicsForBatch, List.flatMap, Tables.plain] using hall
  · obtain ⟨ch, hch, rfl⟩ := List.mem_map.mp hchunk
    obtain ⟨h, hne⟩ := hplain ch hch
    refine ⟨h.count, fun left hleft ref href hfits => ?_⟩
    have hwhole : (ch.topics.map fun t => byteLength (JsonString.stringify t) + 1).sum ≤ 8000 :=
      h.budget hne hfits
    have hpart : (left.map fun t => byteLength (JsonString.stringify t) + 1).sum ≤
        (ch.topics.map fun t => byteLength (JsonString.stringify t) + 1).sum :=
      (hleft.map _).sum_le_sum (by simp)
    have hframe := byteLength_frame w.number left href none
    simp only [Option.elim_none] at hframe
    omega

/-- A topic named as the prototype is tracked, and its chunk does not hold it. -/
theorem prototype_not_recovered : ∃ w : Tables Nat, ∃ ch ∈ chunkResubscribe w [js "__proto__"],
    js "__proto__" ∈ ch.topics ∧ (w.entry (js "__proto__")).isSome ∧
      (ch.recover.bind fun m => m.get? (js "__proto__")) = none := by
  refine ⟨⟨fun _ => false, fun _ => some 5, fun _ => none, fun n => js (Nat.repr n)⟩,
    ⟨[js "__proto__"], some .empty⟩, List.mem_singleton.mpr rfl, ?_⟩
  decide +kernel

end BunServe.Topics.Chunks
