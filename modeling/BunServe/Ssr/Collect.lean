import BunServe.Lib.Utf8

/-!
# BunServe.Ssr.Collect

The collected body of `runtime/handler/response-collect.js`, with the reads of
`response-read.js`, where nobody cancels.

A source is a list of chunks and an ending; a read has a number, and none is `Infinity`.
What the loop and the stream consume is told by the numbers of the reads.

* `pulls_spec` — a stream carries what it replays, then what is left to read;
* `body_preserved` — the collected body carries what its source does, and each read is
  consumed once.
-/

namespace BunServe.Ssr.Collect

/-! ## sources -/

/-- What an application's stream hands over. -/
inductive Chunk where
  | uint8Array (bytes : List UInt8)
  | string (s : JsString)
  | arrayBuffer (bytes : List UInt8)
  | view (buffer : List UInt8) (byteOffset byteLength : Nat)
  | other

/-- `responseChunkBytes(value)`, none where it throws. -/
def responseChunkBytes : Chunk → Option (List UInt8)
  | .uint8Array bytes | .arrayBuffer bytes => some bytes
  | .string s => some (Utf8.encode s)
  | .view buffer byteOffset byteLength => some ((buffer.drop byteOffset).take byteLength)
  | .other => none

inductive Ending where
  | close
  | error

inductive ReadResult where
  | value (chunk : Chunk)
  | done
  | failed

/-- A promise of `reader.read()`. -/
structure Read where
  id : Nat
  result : ReadResult

/-- A reader: the chunks it has not asked for, and the reads it was asked. -/
structure Reader where
  rest : List Chunk
  ending : Ending
  reads : Nat

/-- `reader.read()`. -/
def Reader.read (r : Reader) : Read × Reader :=
  let result := match r.rest, r.ending with
    | c :: _, _ => .value c
    | [], .close => .done
    | [], .error => .failed
  (⟨r.reads, result⟩, { r with rest := r.rest.tail, reads := r.reads + 1 })

/-- When a read settles: within a microtask, within the turn, or later. -/
inductive Ready where
  | microtask
  | turn
  | later

/-! ## collecting -/

/-- `readReady(reader, allowance)`: what it answers, none where the read is pending, and
whether the allowance is spent. -/
def readReady (ready : Nat → Ready) (p : Read) (spent : Bool) : Option ReadResult × Bool :=
  match ready p.id with
  | .microtask => (some p.result, spent)
  | .turn => if spent then (none, true) else (some p.result, true)
  | .later => (none, true)

/-- The stream that `collectImmediate` returns. -/
structure Replay where
  chunks : List (List UInt8)
  pending : Option Read
  reader : Reader

inductive Outcome where
  | complete (bytes : List UInt8) (consumed : List Nat)
  | stream (stream : Replay) (consumed : List Nat)
  | threw (consumed : List Nat)

/-- What the loop of `collectImmediate` has got. -/
structure Collecting where
  chunks : List (List UInt8)
  total : Nat
  spent : Bool
  reader : Reader
  consumed : List Nat

variable (ready : Nat → Ready) (cap maxChunks : Option Nat)

/-- What the loop awaits: the first read however long it takes, another only while it is ready. -/
def next (s : Collecting) : Option ReadResult × Bool :=
  if s.chunks = [] then (some s.reader.read.1.result, s.spent)
  else readReady ready s.reader.read.1 s.spent

/-- The loop of `collectImmediate`. -/
def collectFrom : Nat → Collecting → Option Outcome
  | 0, _ => none
  | fuel + 1, s =>
    let (p, reader) := s.reader.read
    let consumed := s.consumed ++ [p.id]
    match next ready s with
    | (none, _) => some (.stream { chunks := s.chunks, pending := some p, reader } s.consumed)
    | (some .done, _) => some (.complete s.chunks.flatten consumed)
    | (some .failed, _) => some (.threw consumed)
    | (some (.value c), spent) =>
      match responseChunkBytes c with
      | none => some (.threw consumed)
      | some bytes =>
        let chunks := s.chunks ++ [bytes]
        let total := s.total + bytes.length
        if cap.any (· < total) || maxChunks.any (· ≤ chunks.length) then
          some (.stream { chunks, pending := none, reader } consumed)
        else collectFrom fuel { chunks, total, spent, reader, consumed }

/-- `collectImmediate(body, lifetime, cap, maxChunks)`. -/
def collectImmediate (body : List Chunk) (ending : Ending) (fuel : Nat) : Option Outcome :=
  collectFrom ready cap maxChunks fuel
    { chunks := [], total := 0, spent := false, reader := ⟨body, ending, 0⟩, consumed := [] }

/-! ## the stream -/

inductive Pulled where
  | enqueue (bytes : List UInt8)
  | close
  | error

/-- `pull(controller)`, with the reads it consumes. -/
def pull (s : Replay) : Pulled × Replay × List Nat :=
  match s.chunks with
  | c :: cs => (.enqueue c, { s with chunks := cs }, [])
  | [] =>
    let (p, reader) := match s.pending with
      | some p => (p, s.reader)
      | none => s.reader.read
    let out := match p.result with
      | .done => .close
      | .failed => .error
      | .value c => (responseChunkBytes c).elim .error .enqueue
    (out, { chunks := [], pending := none, reader }, [p.id])

/-- What a stream carries. -/
structure Carried where
  bytes : List UInt8
  ending : Ending
  reads : List Nat

/-- All that a stream carries to a consumer that pulls to its end. -/
def pulls : Nat → Replay → Option Carried
  | 0, _ => none
  | fuel + 1, s =>
    match pull s with
    | (.enqueue bytes, s', reads) => (pulls fuel s').map fun c => ⟨bytes ++ c.bytes, c.ending, reads ++ c.reads⟩
    | (.close, _, reads) => some ⟨[], .close, reads⟩
    | (.error, _, reads) => some ⟨[], .error, reads⟩

/-- What a source carries: its chunks up to the first that is no bytes, which is an error. -/
def carried : List Chunk → Ending → List UInt8 × Ending
  | [], ending => ([], ending)
  | c :: cs, ending =>
    match responseChunkBytes c with
    | none => ([], .error)
    | some bytes => (bytes ++ (carried cs ending).1, (carried cs ending).2)

/-- The reads it takes to see all of it. -/
def readsOf : List Chunk → Nat
  | [] => 1
  | c :: cs => if (responseChunkBytes c).isSome then readsOf cs + 1 else 1

variable {ready cap maxChunks}

theorem pulls_pending (chunks : List (List UInt8)) (r : Reader) (fuel : Nat) :
    pulls fuel ⟨chunks, some r.read.1, r.read.2⟩ = pulls fuel ⟨chunks, none, r⟩ := by
  induction chunks generalizing fuel with
  | nil => cases fuel <;> rfl
  | cons c cs ih =>
    cases fuel with
    | zero => rfl
    | succ fuel => simp only [pulls, pull, ih]

theorem pulls_rest (r : Reader) (fuel : Nat) (hfuel : r.rest.length < fuel) :
    pulls fuel ⟨[], none, r⟩ = some ⟨(carried r.rest r.ending).1, (carried r.rest r.ending).2,
      List.range' r.reads (readsOf r.rest)⟩ := by
  obtain ⟨rest, ending, reads⟩ := r
  induction rest generalizing fuel reads with
  | nil =>
    obtain ⟨n, rfl⟩ := Nat.exists_eq_add_of_lt hfuel
    cases ending <;> rfl
  | cons c cs ih =>
    obtain ⟨n, rfl⟩ := Nat.exists_eq_add_of_lt hfuel
    cases hc : responseChunkBytes c with
    | none => simp [pulls, pull, Reader.read, carried, readsOf, hc]
    | some bytes =>
      have hrest := ih (cs.length + 1 + n) (reads + 1) (by simp; omega)
      simp only [List.length_cons, pulls, pull, Reader.read, carried, readsOf, hc, Option.elim_some,
        List.tail_cons, hrest]
      simp [List.range'_succ]

theorem pulls_spec (chunks : List (List UInt8)) (r : Reader) (fuel : Nat)
    (hfuel : chunks.length + r.rest.length < fuel) :
    pulls fuel ⟨chunks, none, r⟩ = some ⟨chunks.flatten ++ (carried r.rest r.ending).1,
      (carried r.rest r.ending).2, List.range' r.reads (readsOf r.rest)⟩ := by
  induction chunks generalizing fuel with
  | nil => exact pulls_rest r fuel (by simpa using hfuel)
  | cons c cs ih =>
    obtain ⟨n, rfl⟩ := Nat.exists_eq_add_of_lt hfuel
    have hrest := ih (cs.length + r.rest.length + 1 + n) (by omega)
    rw [List.length_cons, show cs.length + 1 + r.rest.length + n + 1 =
      cs.length + r.rest.length + 1 + n + 1 by omega]
    simp [pulls, pull, hrest]

/-! ## what is collected -/

/-- An outcome carries these bytes to this ending, and consumes these reads, each once. -/
def Outcome.Carries (cap : Option Nat) (bytes : List UInt8) (ending : Ending) (reads : List Nat) :
    Outcome → Prop
  | .complete out consumed => out = bytes ∧ ending = .close ∧ consumed = reads ∧
    ∀ n, cap = some n → out.length ≤ n
  | .stream s consumed => ∃ more, (∃ N, ∀ fuel ≥ N, pulls fuel s = some ⟨bytes, ending, more⟩) ∧
    consumed ++ more = reads
  | .threw consumed => ending = .error ∧ consumed = reads

variable (cap) in
theorem carries_stream (chunks : List (List UInt8)) (r : Reader) (consumed : List Nat) :
    (Outcome.stream ⟨chunks, none, r⟩ consumed).Carries cap
      (chunks.flatten ++ (carried r.rest r.ending).1) (carried r.rest r.ending).2
      (consumed ++ List.range' r.reads (readsOf r.rest)) :=
  ⟨_, ⟨_, fun fuel hfuel => pulls_spec chunks r fuel (Nat.lt_of_succ_le hfuel)⟩, rfl⟩

/-- The outcome of the loop, from what it has got. -/
def Comes (ready : Nat → Ready) (cap maxChunks : Option Nat) (s : Collecting) : Prop :=
  ∃ outcome, (∀ fuel > s.reader.rest.length, collectFrom ready cap maxChunks fuel s = some outcome) ∧
    outcome.Carries cap (s.chunks.flatten ++ (carried s.reader.rest s.reader.ending).1)
      (carried s.reader.rest s.reader.ending).2
      (s.consumed ++ List.range' s.reader.reads (readsOf s.reader.rest))

theorem comes_pending {s : Collecting} {spent : Bool} (h : next ready s = (none, spent)) :
    Comes ready cap maxChunks s := by
  refine ⟨.stream ⟨s.chunks, some s.reader.read.1, s.reader.read.2⟩ s.consumed, fun fuel hfuel => ?_, ?_⟩
  · obtain ⟨n, rfl⟩ := Nat.exists_eq_add_of_lt hfuel
    simp [collectFrom, h]
  · obtain ⟨more, ⟨N, hpulls⟩, heq⟩ := carries_stream cap s.chunks s.reader s.consumed
    exact ⟨more, ⟨N, fun fuel hfuel => (pulls_pending ..).trans (hpulls fuel hfuel)⟩, heq⟩

theorem comes_or_next (s : Collecting) : Comes ready cap maxChunks s ∨
    ∃ spent, next ready s = (some s.reader.read.1.result, spent) := by
  cases hnext : next ready s with
  | mk answer spent =>
    have hanswer : answer = none ∨ answer = some s.reader.read.1.result := by
      unfold next readReady at hnext
      grind
    rcases hanswer with rfl | rfl
    · exact .inl (comes_pending hnext)
    · exact .inr ⟨spent, rfl⟩

theorem comes (chunks : List (List UInt8)) (total : Nat) (spent : Bool) (rest : List Chunk)
    (ending : Ending) (reads : Nat) (consumed : List Nat) (htotal : total = chunks.flatten.length)
    (hcap : ∀ n, cap = some n → total ≤ n) :
    Comes ready cap maxChunks ⟨chunks, total, spent, ⟨rest, ending, reads⟩, consumed⟩ := by
  induction rest generalizing chunks total spent reads consumed with
  | nil =>
    rcases comes_or_next ⟨chunks, total, spent, ⟨[], ending, reads⟩, consumed⟩ with hcomes | ⟨spent', hnext⟩
    · exact hcomes
    · cases ending with
      | close =>
        refine ⟨.complete chunks.flatten (consumed ++ [reads]), fun fuel hfuel => ?_,
          by simp [carried], rfl, rfl, htotal ▸ hcap⟩
        obtain ⟨n, rfl⟩ := Nat.exists_eq_add_of_lt hfuel
        simp [collectFrom, hnext, Reader.read]
      | error =>
        refine ⟨.threw (consumed ++ [reads]), fun fuel hfuel => ?_, rfl, rfl⟩
        obtain ⟨n, rfl⟩ := Nat.exists_eq_add_of_lt hfuel
        simp [collectFrom, hnext, Reader.read]
  | cons c cs ih =>
    rcases comes_or_next ⟨chunks, total, spent, ⟨c :: cs, ending, reads⟩, consumed⟩ with hcomes | ⟨spent', hnext⟩
    · exact hcomes
    · cases hc : responseChunkBytes c with
      | none =>
        refine ⟨.threw (consumed ++ [reads]), fun fuel hfuel => ?_, by simp [carried, hc],
          by simp [readsOf, hc]⟩
        obtain ⟨n, rfl⟩ := Nat.exists_eq_add_of_lt hfuel
        simp [collectFrom, hnext, Reader.read, hc]
      | some bytes =>
        have htotal' : total + bytes.length = (chunks ++ [bytes]).flatten.length := by simp [htotal]
        -- what is left to carry and to read, from the next chunk on
        have hcarried : ((chunks ++ [bytes]).flatten ++ (carried cs ending).1, (carried cs ending).2) =
            (chunks.flatten ++ (carried (c :: cs) ending).1, (carried (c :: cs) ending).2) := by
          simp [carried, hc]
        have hreads : consumed ++ [reads] ++ List.range' (reads + 1) (readsOf cs) =
            consumed ++ List.range' reads (readsOf (c :: cs)) := by
          simp [readsOf, hc, List.range'_succ]
        by_cases hstop : (cap.any (· < total + bytes.length) ||
            maxChunks.any (· ≤ (chunks ++ [bytes]).length)) = true
        · refine ⟨.stream ⟨chunks ++ [bytes], none, ⟨cs, ending, reads + 1⟩⟩ (consumed ++ [reads]),
            fun fuel hfuel => ?_, ?_⟩
          · obtain ⟨n, rfl⟩ := Nat.exists_eq_add_of_lt hfuel
            simp only [collectFrom, hnext, Reader.read, hc, hstop, if_true, List.tail_cons]
          · have hcarries := carries_stream cap (chunks ++ [bytes]) ⟨cs, ending, reads + 1⟩
              (consumed ++ [reads])
            simp only [Prod.mk.injEq] at hcarried
            rwa [hcarried.1, hcarried.2, hreads] at hcarries
        · have hfit : ∀ n, cap = some n → total + bytes.length ≤ n := by
            rintro n rfl
            simp at hstop
            omega
          obtain ⟨outcome, hfrom, hcarries⟩ := ih (chunks ++ [bytes]) _ spent' (reads + 1)
            (consumed ++ [reads]) htotal' hfit
          refine ⟨outcome, fun fuel hfuel => ?_, ?_⟩
          · obtain ⟨n, rfl⟩ := Nat.exists_eq_add_of_lt hfuel
            rw [← hfrom (cs.length + 1 + n) (by show cs.length < _; omega)]
            simp only [collectFrom, hnext, Reader.read, hc, hstop]
            rfl
          · simp only [Prod.mk.injEq] at hcarried
            rwa [hcarried.1, hcarried.2, hreads] at hcarries

/-- **The collected body**: whenever the reads settle, what is returned carries the bytes of
the source, in order, to its ending, and each read is consumed once; it is complete only where
the source has closed within the cap. -/
theorem body_preserved (body : List Chunk) (ending : Ending) (ready : Nat → Ready)
    (cap maxChunks : Option Nat) : ∃ outcome,
    (∃ N, ∀ fuel ≥ N, collectImmediate ready cap maxChunks body ending fuel = some outcome) ∧
    outcome.Carries cap (carried body ending).1 (carried body ending).2 (List.range (readsOf body)) := by
  obtain ⟨outcome, hfrom, hcarries⟩ := comes
    [] 0 false body ending 0 [] rfl fun _ _ => Nat.zero_le _
  refine ⟨outcome, ⟨body.length + 1, hfrom⟩, ?_⟩
  rw [List.range_eq_range']
  exact hcarries

end BunServe.Ssr.Collect
