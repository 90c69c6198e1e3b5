import BunServe.Lib.JsMap
import BunServe.Lib.Machine
import BunServe.Wire

/-!
# BunServe.KeyDict

The per-connection key dictionaries of `runtime/keydict.js` and the session of
one encoder with one decoder.

The first time a key appears it is announced inline with an id; afterwards a
frame carries the id.  At `maxEntries` ids a new key takes the id of the least
recently used entry that the current frame has not touched, and when there is
none the key travels inline without an id.

* `writeKey_reads` — one reference: the decoder reads it, stops behind it and
  stays linked to the encoder;
* `keys_lockstep_iff` — over all sequences of frames, every reference resolves to
  the encoder's key exactly when every key is one that UTF-8 carries.
-/

namespace BunServe.KeyDict

open Wire Machine
open Reader (Reads)

/-! ## KeyEncodeDict -/

/-- `{ id, lastUsed }`. -/
structure Entry where
  id : Nat
  lastUsed : Nat

structure KeyEncodeDict where
  maxEntries : Nat
  byKey : JsMap JsString Entry
  nextId : Nat
  clock : Nat

/-- `new KeyEncodeDict(maxEntries)`. -/
def KeyEncodeDict.new (maxEntries : Nat) : KeyEncodeDict :=
  { maxEntries, byKey := .empty, nextId := 0, clock := 0 }

/-- `beginFrame()`. -/
def beginFrame (d : KeyEncodeDict) : KeyEncodeDict := { d with clock := d.clock + 1 }

/-- The scan of `_alloc`: the first entry with the least `lastUsed` among those
whose last use predates the current frame. -/
def scan (clock : Nat) : Option (JsString × Entry) → List (JsString × Entry) →
    Option (JsString × Entry)
  | victim, [] => victim
  | victim, (k, e) :: es =>
    if e.lastUsed < clock ∧ (victim.all fun v => e.lastUsed < v.2.lastUsed) then
      scan clock (some (k, e)) es
    else scan clock victim es

/-- `_alloc()`: a usable id, or none when no id can be freed in this frame. -/
def alloc (d : KeyEncodeDict) : Option Nat × KeyEncodeDict :=
  if d.nextId < d.maxEntries then (some d.nextId, { d with nextId := d.nextId + 1 })
  else
    match scan d.clock none d.byKey.entries with
    | none => (none, d)
    | some (k, e) => (some e.id, { d with byKey := d.byKey.delete k })

/-- `writeKey(w, key)`: the bytes written and the dictionary afterwards. -/
def writeKey (d : KeyEncodeDict) (key : JsString) : Bytes × KeyEncodeDict :=
  match d.byKey.get? key with
  | some entry =>
    (writeVarint (entry.id + 2),
      { d with byKey := d.byKey.set key { entry with lastUsed := d.clock } })
  | none =>
    match alloc d with
    | (none, d) => (writeVarint 1 ++ writeStr key, d)
    | (some id, d) =>
      (writeVarint 0 ++ (writeVarint id ++ writeStr key),
        { d with byKey := d.byKey.set key { id, lastUsed := d.clock } })

/-! ## KeyDecodeDict -/

structure KeyDecodeDict where
  byId : JsMap Nat JsString

/-- `readKey(r)`: the key, or none for a reference that cannot be resolved, and
the dictionary afterwards. -/
def readKey (d : KeyDecodeDict) : ByteReader (Option JsString × KeyDecodeDict) := do
  let v ← readVarint
  if v = 0 then
    let id ← readVarint
    let key ← readStr
    pure (some key, { d with byId := d.byId.set id key })
  else if v = 1 then
    let key ← readStr
    pure (some key, d)
  else pure (d.byId.get? (v - 2), d)

/-! ## what one allocation can do -/

variable {e : Entry}

theorem scan_eq_some {clock : Nat} {victim : Option (JsString × Entry)}
    {es : List (JsString × Entry)} {k : JsString} (h : scan clock victim es = some (k, e)) :
    victim = some (k, e) ∨ (k, e) ∈ es ∧ e.lastUsed < clock := by
  induction es generalizing victim with
  | nil => exact .inl h
  | cons a es ih =>
    obtain ⟨k', e'⟩ := a
    rw [scan] at h
    split at h
    · next hc =>
      cases ih h with
      | inl heq =>
        obtain ⟨rfl, rfl⟩ : k' = k ∧ e' = e := by simpa using heq
        exact .inr ⟨by simp, hc.1⟩
      | inr hmem => exact .inr ⟨List.mem_cons_of_mem _ hmem.1, hmem.2⟩
    · cases ih h with
      | inl heq => exact .inl heq
      | inr hmem => exact .inr ⟨List.mem_cons_of_mem _ hmem.1, hmem.2⟩

theorem alloc_cases (d : KeyEncodeDict) :
    (d.nextId < d.maxEntries ∧ alloc d = (some d.nextId, { d with nextId := d.nextId + 1 })) ∨
    (∃ k e, d.byKey.get? k = some e ∧ e.lastUsed < d.clock ∧
      alloc d = (some e.id, { d with byKey := d.byKey.delete k })) ∨
    alloc d = (none, d) := by
  by_cases hlt : d.nextId < d.maxEntries
  · exact .inl ⟨hlt, by rw [alloc, if_pos hlt]⟩
  cases hs : scan d.clock none d.byKey.entries with
  | none => exact .inr (.inr (by rw [alloc, if_neg hlt, hs]))
  | some v =>
    obtain ⟨k, e⟩ := v
    cases scan_eq_some hs with
    | inl h => contradiction
    | inr h =>
      have hget : d.byKey.get? k = some e := JsMap.mem_entries_iff.mp h.1
      exact .inr (.inl ⟨k, e, hget, h.2, by rw [alloc, if_neg hlt, hs]⟩)

/-! ## the link between the two dictionaries -/

/-- What a key becomes on the wire. -/
def carry (key : JsString) : JsString := Utf8.decode (Utf8.encode key)

/-- The encoder's ids are distinct and in range, and the decoder knows the key
of each of them. -/
structure Linked (enc : KeyEncodeDict) (dec : KeyDecodeDict) : Prop where
  next : enc.nextId ≤ enc.maxEntries
  below : ∀ k e, enc.byKey.get? k = some e → e.id < enc.nextId
  injective : ∀ k k' e e', enc.byKey.get? k = some e → enc.byKey.get? k' = some e' →
    e.id = e'.id → k = k'
  known : ∀ k e, enc.byKey.get? k = some e → dec.byId.get? e.id = some (carry k)

theorem linked_new (maxEntries : Nat) : Linked (.new maxEntries) ⟨.empty⟩ where
  next := by simp [KeyEncodeDict.new]
  below k e h := by simp [KeyEncodeDict.new] at h
  injective k k' e e' h := by simp [KeyEncodeDict.new] at h
  known k e h := by simp [KeyEncodeDict.new] at h

variable {enc : KeyEncodeDict} {dec : KeyDecodeDict}

theorem linked_beginFrame (h : Linked enc dec) : Linked (beginFrame enc) dec :=
  ⟨h.next, h.below, h.injective, h.known⟩

variable {key : JsString}

theorem linked_touch (h : Linked enc dec) (he : enc.byKey.get? key = some e) (t : Nat) :
    Linked { enc with byKey := enc.byKey.set key { e with lastUsed := t } } dec := by
  have hid : ∀ k e', (enc.byKey.set key { e with lastUsed := t }).get? k = some e' →
      ∃ e'', enc.byKey.get? k = some e'' ∧ e''.id = e'.id := by
    intro k e' hk
    rw [JsMap.get?_set] at hk
    by_cases hkey : k = key
    · rw [if_pos hkey] at hk
      exact ⟨e, hkey ▸ he, by rw [← Option.some.inj hk]⟩
    · rw [if_neg hkey] at hk
      exact ⟨e', hk, rfl⟩
  constructor
  · exact h.next
  · intro k e' hk
    obtain ⟨e'', hk'', heq⟩ := hid k e' hk
    have := h.below k e'' hk''
    simp only
    omega
  · intro k k' a b hk hk' hab
    obtain ⟨a', ha', haeq⟩ := hid k a hk
    obtain ⟨b', hb', hbeq⟩ := hid k' b hk'
    exact h.injective k k' a' b' ha' hb' (by omega)
  · intro k e' hk
    obtain ⟨e'', hk'', heq⟩ := hid k e' hk
    rw [← heq]
    exact h.known k e'' hk''

theorem linked_assign (h : Linked enc dec)
    {id t : Nat} (hid : id < enc.nextId)
    (hfree : ∀ k e, enc.byKey.get? k = some e → e.id ≠ id) :
    Linked { enc with byKey := enc.byKey.set key { id, lastUsed := t } }
      { dec with byId := dec.byId.set id (carry key) } := by
  constructor
  · exact h.next
  · intro k e hk
    rw [JsMap.get?_set] at hk
    by_cases hkey : k = key
    · rw [if_pos hkey] at hk
      rw [← Option.some.inj hk]
      exact hid
    · rw [if_neg hkey] at hk
      exact h.below k e hk
  · intro k k' a b hk hk' hab
    rw [JsMap.get?_set] at hk hk'
    by_cases hkey : k = key
    · by_cases hkey' : k' = key
      · rw [hkey, hkey']
      · rw [if_pos hkey] at hk
        rw [if_neg hkey'] at hk'
        have ha : a.id = id := by rw [← Option.some.inj hk]
        exact absurd (hab ▸ ha) (hfree k' b hk')
    · by_cases hkey' : k' = key
      · rw [if_neg hkey] at hk
        rw [if_pos hkey'] at hk'
        have hb : b.id = id := by rw [← Option.some.inj hk']
        exact absurd (hab.trans hb) (hfree k a hk)
      · rw [if_neg hkey] at hk
        rw [if_neg hkey'] at hk'
        exact h.injective k k' a b hk hk' hab
  · intro k e hk
    rw [JsMap.get?_set] at hk ⊢
    by_cases hkey : k = key
    · rw [if_pos hkey] at hk
      rw [← Option.some.inj hk, if_pos rfl, hkey]
    · rw [if_neg hkey] at hk
      rw [if_neg (hfree k e hk)]
      exact h.known k e hk

theorem linked_fresh (h : Linked enc dec)
    (hlt : enc.nextId < enc.maxEntries) : Linked { enc with nextId := enc.nextId + 1 } dec where
  next := hlt
  below k e hk := Nat.lt_succ_of_lt (h.below k e hk)
  injective := h.injective
  known := h.known

theorem linked_evict (h : Linked enc dec)
    {victim : JsString} {v : Entry} (hv : enc.byKey.get? victim = some v) :
    Linked { enc with byKey := enc.byKey.delete victim } dec ∧
      ∀ k e, (enc.byKey.delete victim).get? k = some e → e.id ≠ v.id := by
  have hold : ∀ k e, (enc.byKey.delete victim).get? k = some e →
      k ≠ victim ∧ enc.byKey.get? k = some e := by
    intro k e hk
    rw [JsMap.get?_delete] at hk
    by_cases hkey : k = victim
    · simp [hkey] at hk
    · exact ⟨hkey, by simpa [hkey] using hk⟩
  constructor
  · exact {
      next := h.next
      below := fun k e hk => h.below k e (hold k e hk).2
      injective := fun k k' a b hk hk' => h.injective k k' a b (hold k a hk).2 (hold k' b hk').2
      known := fun k e hk => h.known k e (hold k e hk).2 }
  · intro k e hk heq
    exact (hold k e hk).1 (h.injective k victim e v (hold k e hk).2 hv heq)

/-! ## one reference -/

theorem reads_ref {id : Nat} (h : dec.byId.get? id = some key) :
    Reads (readKey dec) (writeVarint (id + 2)) (some key, dec) := by
  rw [← List.append_nil (writeVarint (id + 2))]
  apply (reads_varint (id + 2)).bind
  rw [Nat.add_sub_cancel, h]
  exact Reader.reads_pure _

theorem reads_inline (dec : KeyDecodeDict) (key : JsString) :
    Reads (readKey dec) (writeVarint 1 ++ writeStr key) (some (carry key), dec) :=
  (reads_varint 1).bind (reads_str key).map

theorem reads_assign (dec : KeyDecodeDict) (id : Nat) (key : JsString) :
    Reads (readKey dec) (writeVarint 0 ++ (writeVarint id ++ writeStr key))
      (some (carry key), { dec with byId := dec.byId.set id (carry key) }) :=
  (reads_varint 0).bind ((reads_varint id).bind (reads_str key).map)

theorem writeKey_cases (d : KeyEncodeDict) (key : JsString) :
    (∃ e, d.byKey.get? key = some e ∧
      writeKey d key = (writeVarint (e.id + 2),
        { d with byKey := d.byKey.set key { e with lastUsed := d.clock } })) ∨
    (d.byKey.get? key = none ∧ writeKey d key = (writeVarint 1 ++ writeStr key, (alloc d).2) ∧
      (alloc d).1 = none) ∨
    (∃ id, d.byKey.get? key = none ∧ (alloc d).1 = some id ∧
      writeKey d key = (writeVarint 0 ++ (writeVarint id ++ writeStr key),
        { (alloc d).2 with
          byKey := (alloc d).2.byKey.set key { id, lastUsed := (alloc d).2.clock } })) := by
  cases hk : d.byKey.get? key with
  | some e => exact .inl ⟨e, rfl, by rw [writeKey, hk]⟩
  | none =>
    cases ha : alloc d with
    | mk id d' =>
      cases id with
      | none => exact .inr (.inl ⟨rfl, by rw [writeKey, hk]; simp [ha], rfl⟩)
      | some id => exact .inr (.inr ⟨id, rfl, rfl, by rw [writeKey, hk]; simp [ha]⟩)

/-- **One reference**: the decoder reads what UTF-8 makes of the key, stops
behind the reference and stays linked to the encoder. -/
theorem writeKey_reads (h : Linked enc dec) (key : JsString) :
    ∃ dec', Reads (readKey dec) (writeKey enc key).1 (some (carry key), dec') ∧
      Linked (writeKey enc key).2 dec' := by
  obtain ⟨e, he, hw⟩ | ⟨hk, hw, hnone⟩ | ⟨id, hk, hsome, hw⟩ := writeKey_cases enc key
  · rw [hw]
    exact ⟨dec, reads_ref (h.known key e he), linked_touch h he _⟩
  · rw [hw]
    obtain ⟨-, ha⟩ | ⟨k, e, -, -, ha⟩ | ha := alloc_cases enc
    · rw [ha] at hnone
      contradiction
    · rw [ha] at hnone
      contradiction
    · rw [ha]
      exact ⟨dec, reads_inline dec key, h⟩
  · rw [hw]
    refine ⟨_, reads_assign dec id key, ?_⟩
    obtain ⟨hlt, ha⟩ | ⟨k, e, he, -, ha⟩ | ha := alloc_cases enc
    · rw [ha] at hsome ⊢
      obtain rfl : enc.nextId = id := Option.some.inj hsome
      have hfree : ∀ k e, enc.byKey.get? k = some e → e.id ≠ enc.nextId := fun k e hk =>
        Nat.ne_of_lt (h.below k e hk)
      exact linked_assign (linked_fresh h hlt) (Nat.lt_succ_self _) hfree
    · rw [ha] at hsome ⊢
      obtain rfl : e.id = id := Option.some.inj hsome
      have hev := linked_evict h he
      exact linked_assign hev.1 (h.below k e he) hev.2
    · rw [ha] at hsome
      contradiction

@[simp] theorem alloc_clock (d : KeyEncodeDict) : (alloc d).2.clock = d.clock := by
  obtain ⟨-, ha⟩ | ⟨k, e, -, -, ha⟩ | ha := alloc_cases d <;> rw [ha]

@[simp] theorem alloc_maxEntries (d : KeyEncodeDict) : (alloc d).2.maxEntries = d.maxEntries := by
  obtain ⟨-, ha⟩ | ⟨k, e, -, -, ha⟩ | ha := alloc_cases d <;> rw [ha]

@[simp] theorem writeKey_clock (d : KeyEncodeDict) (key : JsString) :
    (writeKey d key).2.clock = d.clock := by
  obtain ⟨e, -, hw⟩ | ⟨-, hw, -⟩ | ⟨id, -, -, hw⟩ := writeKey_cases d key <;> simp [hw]

@[simp] theorem writeKey_maxEntries (d : KeyEncodeDict) (key : JsString) :
    (writeKey d key).2.maxEntries = d.maxEntries := by
  obtain ⟨e, -, hw⟩ | ⟨-, hw, -⟩ | ⟨id, -, -, hw⟩ := writeKey_cases d key <;> simp [hw]

theorem alloc_keeps {d : KeyEncodeDict} {k : JsString}
    (hk : d.byKey.get? k = some e) (hu : e.lastUsed = d.clock) :
    (alloc d).2.byKey.get? k = some e := by
  obtain ⟨-, ha⟩ | ⟨k', e', hk', hu', ha⟩ | ha := alloc_cases d
  · rw [ha]
    exact hk
  · rw [ha]
    have hne : k ≠ k' := by
      intro heq
      rw [heq, hk'] at hk
      have : e' = e := Option.some.inj hk
      subst this
      omega
    rw [JsMap.get?_delete_ne _ hne]
    exact hk
  · rw [ha]
    exact hk

theorem writeKey_keeps {d : KeyEncodeDict} {k : JsString}
    (hk : d.byKey.get? k = some e) (hu : e.lastUsed = d.clock) :
    (writeKey d key).2.byKey.get? k = some e := by
  obtain ⟨e', he', hw⟩ | ⟨-, hw, -⟩ | ⟨id, hnone, -, hw⟩ := writeKey_cases d key
  · rw [hw]
    by_cases hkey : k = key
    · have : e' = e := by
        rw [hkey, he'] at hk
        exact Option.some.inj hk
      subst this
      rw [hkey, ← hu]
      exact JsMap.get?_set_self _ _ _
    · exact (JsMap.get?_set_ne _ _ hkey).trans hk
  · rw [hw]
    exact alloc_keeps hk hu
  · rw [hw]
    have hkey : k ≠ key := by
      intro heq
      rw [heq, hnone] at hk
      contradiction
    exact (JsMap.get?_set_ne _ _ hkey).trans (alloc_keeps hk hu)

theorem writeKey_used {d : KeyEncodeDict}
    (h : (writeKey d key).2.byKey.get? key = some e) : e.lastUsed = d.clock := by
  obtain ⟨e', he', hw⟩ | ⟨hnone, hw, ha⟩ | ⟨id, hnone, -, hw⟩ := writeKey_cases d key
  · rw [hw] at h
    have := JsMap.get?_set_self d.byKey key { e' with lastUsed := d.clock }
    rw [h] at this
    rw [Option.some.inj this]
  · rw [hw] at h
    obtain ⟨-, ha'⟩ | ⟨k', e', -, -, ha'⟩ | ha' := alloc_cases d
    · rw [ha'] at ha
      contradiction
    · rw [ha'] at ha
      contradiction
    · rw [ha', hnone] at h
      contradiction
  · rw [hw] at h
    have := JsMap.get?_set_self (alloc d).2.byKey key { id, lastUsed := (alloc d).2.clock }
    rw [h] at this
    rw [Option.some.inj this]
    exact alloc_clock d

/-! ## the session of an encoder and a decoder -/

/-- One reference as it went over the wire: the encoder's key, what follows it
in the frame, what the decoder resolved and what it left. -/
structure Ref where
  key : JsString
  following : Bytes
  resolved : Option JsString
  left : Bytes

/-- An encoder and its decoder, the keys the current frame has assigned or used
with their ids, and the references so far, newest first. -/
structure Session where
  enc : KeyEncodeDict
  dec : KeyDecodeDict
  frame : List (JsString × Nat)
  refs : List Ref

inductive Action where
  /-- the next frame begins -/
  | beginFrame
  /-- the frame refers to a key; other bytes of the frame follow -/
  | writeKey (key : JsString) (following : Bytes)

/-- The entry of the key just written belongs to the frame. -/
def noteUse (enc : KeyEncodeDict) (key : JsString) (frame : List (JsString × Nat)) :
    List (JsString × Nat) :=
  match enc.byKey.get? key with
  | some e => (key, e.id) :: frame
  | none => frame

/-- One step of the session.  A decoder that throws learns nothing. -/
def step (s : Session) : Action → Session
  | .beginFrame => { s with enc := beginFrame s.enc, frame := [] }
  | .writeKey key following =>
    let (bytes, enc) := writeKey s.enc key
    match readKey s.dec (bytes ++ following) with
    | some ((resolved, dec), left) =>
      { enc, dec, frame := noteUse enc key s.frame,
        refs := { key, following, resolved, left } :: s.refs }
    | none =>
      { s with
        enc
        frame := noteUse enc key s.frame
        refs := { key, following, resolved := none, left := [] } :: s.refs }

/-- All sequences of frames. -/
def session (maxEntries : Nat) : Machine Session Action where
  init := { enc := .new maxEntries, dec := ⟨.empty⟩, frame := [], refs := [] }
  next s a := some (step s a)

/-- The keys a run refers to. -/
def keysOf (as : List Action) : List JsString :=
  as.filterMap fun a =>
    match a with
    | .beginFrame => none
    | .writeKey key _ => some key

/-- What holds in every state of a session, whatever the keys. -/
structure Inv (maxEntries : Nat) (s : Session) : Prop where
  cap : s.enc.maxEntries = maxEntries
  linked : Linked s.enc s.dec
  frame : ∀ u ∈ s.frame, s.enc.byKey.get? u.1 = some ⟨u.2, s.enc.clock⟩
  refs : ∀ r ∈ s.refs, r.resolved = some (carry r.key) ∧ r.left = r.following

theorem inv_init (maxEntries : Nat) : Inv maxEntries (session maxEntries).init where
  cap := rfl
  linked := linked_new maxEntries
  frame u hu := by simp [session] at hu
  refs r hr := by simp [session] at hr

variable {s : Session}

theorem step_writeKey (h : Linked s.enc s.dec) (key : JsString) (following : Bytes) :
    ∃ dec, Linked (writeKey s.enc key).2 dec ∧
      step s (.writeKey key following) =
        { enc := (writeKey s.enc key).2, dec,
          frame := noteUse (writeKey s.enc key).2 key s.frame,
          refs := { key, following, resolved := some (carry key), left := following } :: s.refs } := by
  obtain ⟨dec, hreads, hlinked⟩ := writeKey_reads h key
  refine ⟨dec, hlinked, ?_⟩
  simp only [step, hreads following]

variable {maxEntries : Nat}

theorem inv_step (h : Inv maxEntries s) (a : Action) : Inv maxEntries (step s a) := by
  cases a with
  | beginFrame =>
    exact {
      cap := h.cap
      linked := linked_beginFrame h.linked
      frame := fun u hu => by simp [step] at hu
      refs := h.refs }
  | writeKey key following =>
    obtain ⟨dec, hlinked, heq⟩ := step_writeKey h.linked key following
    rw [heq]
    constructor
    · exact (writeKey_maxEntries _ _).trans h.cap
    · exact hlinked
    · intro u hu
      have hold : u ∈ s.frame →
          (writeKey s.enc key).2.byKey.get? u.1 = some ⟨u.2, (writeKey s.enc key).2.clock⟩ := by
        intro hu
        rw [writeKey_clock]
        exact writeKey_keeps (h.frame u hu) rfl
      simp only [noteUse] at hu
      cases hk : (writeKey s.enc key).2.byKey.get? key with
      | none =>
        rw [hk] at hu
        exact hold hu
      | some e =>
        rw [hk] at hu
        cases List.mem_cons.mp hu with
        | inr hu => exact hold hu
        | inl hu =>
          subst hu
          rw [writeKey_clock, ← writeKey_used hk]
          exact hk
    · intro r hr
      cases List.mem_cons.mp hr with
      | inl hr =>
        subst hr
        exact ⟨rfl, rfl⟩
      | inr hr => exact h.refs r hr

variable {as : List Action}

theorem inv_run (h : (session maxEntries).Runs Any as s) : Inv maxEntries s :=
  h.invariant (inv_init maxEntries) fun s a s' hs _ hn => by
    obtain rfl : step s a = s' := Option.some.inj hn
    exact inv_step hs a

theorem refs_run
    (h : (session maxEntries).Runs Any as s) : s.refs.map Ref.key = (keysOf as).reverse := by
  induction h with
  | nil => rfl
  | @snoc as s a s' hr _ hn ih =>
    obtain rfl : step s a = s' := Option.some.inj hn
    cases a with
    | beginFrame => simpa [step, keysOf] using ih
    | writeKey key following =>
      obtain ⟨dec, -, heq⟩ := step_writeKey (inv_run hr).linked key following
      simp [heq, keysOf, ih]

/-! ## lockstep -/

/-- Lockstep: every reference resolved to exactly the encoder's key and was
consumed exactly, the live ids are distinct and below the cap, and what the
current frame assigned or used is still bound to the same id. -/
structure Lockstep (maxEntries : Nat) (s : Session) : Prop where
  resolves : ∀ r ∈ s.refs, r.resolved = some r.key ∧ r.left = r.following
  injective : ∀ k k' e e', s.enc.byKey.get? k = some e → s.enc.byKey.get? k' = some e' →
    e.id = e'.id → k = k'
  below : ∀ k e, s.enc.byKey.get? k = some e → e.id < maxEntries
  held : ∀ u ∈ s.frame, ∃ e, s.enc.byKey.get? u.1 = some e ∧ e.id = u.2

theorem mem_keysOf_iff (h : (session maxEntries).Runs Any as s) (key : JsString) :
    key ∈ keysOf as ↔ ∃ r ∈ s.refs, r.key = key := by
  rw [← List.mem_reverse, ← refs_run h, List.mem_map]

theorem carried_of_lockstep
    (h : (session maxEntries).Runs Any as s) (hlock : Lockstep maxEntries s) :
    ∀ key ∈ keysOf as, Utf8.Carried key := by
  intro key hkey
  obtain ⟨r, hr, rfl⟩ := (mem_keysOf_iff h key).mp hkey
  have hres := (hlock.resolves r hr).1
  rw [((inv_run h).refs r hr).1] at hres
  exact (Utf8.decode_encode_eq_iff _).mp (Option.some.inj hres)

theorem lockstep_of_carried
    (h : (session maxEntries).Runs Any as s) (hcar : ∀ key ∈ keysOf as, Utf8.Carried key) :
    Lockstep maxEntries s := by
  have hinv := inv_run h
  constructor
  · intro r hr
    have hk : carry r.key = r.key :=
      Utf8.decode_encode_of_carried (hcar r.key ((mem_keysOf_iff h r.key).mpr ⟨r, hr, rfl⟩))
    have hread := hinv.refs r hr
    rw [hk] at hread
    exact hread
  · exact hinv.linked.injective
  · intro k e hk
    have := hinv.linked.below k e hk
    have := hinv.linked.next
    have := hinv.cap
    omega
  · intro u hu
    exact ⟨_, hinv.frame u hu, rfl⟩

/-- **Lockstep** of the dictionaries over all sequences of frames: exactly when
UTF-8 carries every key. -/
theorem keys_lockstep_iff {maxEntries : Nat} {as : List Action} {s : Session}
    (h : (session maxEntries).Runs Any as s) :
    Lockstep maxEntries s ↔ ∀ key ∈ keysOf as, Utf8.Carried key :=
  ⟨carried_of_lockstep h, lockstep_of_carried h⟩

/-- Two frames over an id space of one: `b` travels inline behind `a` and takes
its id in the next frame. -/
theorem keys_lockstep_iff_example :
    let as := [Action.beginFrame, .writeKey (js "a") [], .writeKey (js "b") [7],
      .beginFrame, .writeKey (js "b") [], .writeKey (js "a") []]
    Lockstep 1 (as.foldl step (session 1).init) := by
  intro as
  have hrun : (session 1).Runs Any as (as.foldl step (session 1).init) := runs_of_exec rfl
  exact (keys_lockstep_iff hrun).mpr (by decide)

/-- A key that starts with U+FEFF resolves to the key without it. -/
theorem marked_key_loses_mark :
    let as := [Action.beginFrame, .writeKey [0xfeff, 0x6b] []]
    let s := as.foldl step (session 65536).init
    (session 65536).Runs Any as s ∧
      (∃ r ∈ s.refs, r.key = [0xfeff, 0x6b] ∧ r.resolved = some [0x6b]) ∧ ¬ Lockstep 65536 s := by
  intro as s
  have hrun : (session 65536).Runs Any as s := runs_of_exec rfl
  have hkey : ([0xfeff, 0x6b] : JsString) ∈ keysOf as := by decide
  constructor
  · exact hrun
  constructor
  · obtain ⟨r, hr, hk⟩ := (mem_keysOf_iff hrun _).mp hkey
    have hcarry : carry [0xfeff, 0x6b] = [0x6b] := by decide
    have hres := ((inv_run hrun).refs r hr).1
    rw [hk, hcarry] at hres
    exact ⟨r, hr, hk, hres⟩
  · intro hlock
    exact absurd (carried_of_lockstep hrun hlock _ hkey) (by decide)

end BunServe.KeyDict
