import Mathlib.Data.Rat.Floor
import BunServe.Lib.JsMap.Retain
import BunServe.Lib.JsNumber
import BunServe.Lib.Machine
import BunServe.Lib.Rotation
import BunServe.RateKey

/-!
# BunServe.RateKey.Window

`createSlidingWindowLimiter` of `runtime/utils/rate-limiter.js`: the entries of
the keys, the eviction at the cap, `exceeded` and `sweep`.

Numbers are exact, and the clock does not go back.  A run keeps the admissions,
newest first, and the keys that were evicted.  A window starts at the request
that finds the last one over, so windows do not overlap (`Held`): that bounds
what a key is admitted (`Held.bound`).
-/

namespace BunServe.RateKey.Window

structure Options where
  maxPerWindow : Nat
  windowMs : ℚ
  maxEntries : Nat
  evictionSample : JsNumber
  maxKeyLen : Nat

structure Entry where
  prev : Nat
  curr : Nat
  windowStart : ℚ

/-- The map with the cursor over it. -/
abbrev Limiter := Rotation JsString Entry

/-- `sampleTarget`: at least one. -/
def sampleTarget (o : Options) : Nat :=
  ((o.evictionSample.finite?.filter fun q => 1 ≤ q).map fun q => q.floor.toNat).getD 1

/-- The body of the loop of `evictOne`.  The state is `victim` with `victimScore`,
which is infinite while there is none. -/
def sampling : Policy (Option (JsString × Nat)) JsString Entry where
  opened s := s
  closed s := s
  visit s k e :=
    let score := e.prev + e.curr
    { state := if s.all fun victim => score < victim.2 then some (k, score) else s
      drop := false, stop := false }

/-- `evictOne()`, with the key it dropped. -/
def evictOne (o : Options) (l : Limiter) : Limiter × Option JsString :=
  let w := l.walk sampling (sampleTarget o) none
  match w.state with
  | some (victim, _) => (w.rot.delete victim, some victim)
  | none => (w.rot, none)

/-- The window of an entry, moved on where it is over. -/
def Entry.rotate (o : Options) (e : Entry) (nowMs : ℚ) : Entry :=
  let elapsed := nowMs - e.windowStart
  if 2 * o.windowMs ≤ elapsed then ⟨0, 0, nowMs⟩
  else if o.windowMs ≤ elapsed then ⟨e.curr, 0, nowMs⟩
  else e

def Entry.estimate (o : Options) (e : Entry) (nowMs : ℚ) : ℚ :=
  e.prev * (1 - (nowMs - e.windowStart) / o.windowMs) + e.curr

/-- The entry of a request, after an eviction where a new one has no room. -/
def entryFor (o : Options) (l : Limiter) (key : JsString) (nowMs : ℚ) :
    Limiter × Entry × Option JsString :=
  match l.map.get? key with
  | none =>
    let (l, evicted) := if l.map.size ≥ o.maxEntries then evictOne o l else (l, none)
    (l, ⟨0, 0, nowMs⟩, evicted)
  | some e => (l, e.rotate o nowMs, none)

/-- What a request did. -/
structure Answer where
  limiter : Limiter
  refused : Bool
  evicted : Option JsString

/-- `exceeded`, for a key. -/
def exceededKey (o : Options) (l : Limiter) (key : JsString) (nowMs : ℚ) : Answer :=
  let (l, entry, evicted) := entryFor o l key nowMs
  if o.maxPerWindow ≤ entry.estimate o nowMs then
    { limiter := l.set key entry, refused := true, evicted }
  else
    { limiter := l.set key { entry with curr := entry.curr + 1 }, refused := false, evicted }

/-- `exceeded(clientIp, nowMs)` -/
def exceeded (o : Options) (lc : LowerCase) (l : Limiter) (clientIp : JsString) (nowMs : ℚ) :
    Answer :=
  if o.maxPerWindow ≤ 0 then { limiter := l, refused := false, evicted := none }
  else exceededKey o l (rateLimitKey lc clientIp o.maxKeyLen) nowMs

/-- `sweep(nowMs)`, which gives the cursor up. -/
def sweep (o : Options) (l : Limiter) (nowMs : ℚ) : Limiter where
  map := l.map.retain fun e => ¬ 2 * o.windowMs ≤ nowMs - e.windowStart
  cursor := none
  inside := fun _ h => by cases h

/-! ## runs -/

inductive Action where
  | exceeded (clientIp : JsString) (nowMs : ℚ)
  | sweep (nowMs : ℚ)

/-- A limiter in a run: the clock, the admissions and the evictions. -/
structure State where
  limiter : Limiter
  clock : ℚ
  admitted : List (JsString × ℚ)
  evicted : List JsString

def next (o : Options) (lc : LowerCase) (s : State) : Action → Option State
  | .exceeded clientIp nowMs =>
    if s.clock ≤ nowMs then
      let r := exceeded o lc s.limiter clientIp nowMs
      some {
        limiter := r.limiter
        clock := nowMs
        admitted :=
          if r.refused then s.admitted
          else (rateLimitKey lc clientIp o.maxKeyLen, nowMs) :: s.admitted
        evicted := r.evicted.toList ++ s.evicted }
    else none
  | .sweep nowMs =>
    if s.clock ≤ nowMs then some { s with limiter := sweep o s.limiter nowMs, clock := nowMs }
    else none

/-- All sequences of calls, with a clock that starts at `t₀`. -/
def machine (o : Options) (lc : LowerCase) (t₀ : ℚ) : Machine State Action where
  init := { limiter := .empty, clock := t₀, admitted := [], evicted := [] }
  next := next o lc

/-- The times at which a key was admitted. -/
def timesOf (admitted : List (JsString × ℚ)) (k : JsString) : List ℚ :=
  (admitted.filter fun x => x.1 = k).map Prod.snd

def State.times (s : State) (k : JsString) : List ℚ := timesOf s.admitted k

/-- How many times lie in an interval. -/
def within (a T : ℚ) (times : List ℚ) : Nat := times.countP fun t => a ≤ t ∧ t ≤ a + T

/-! ## windows do not overlap -/

/-- A window that started at `w` has taken `c`: every other one ended before. -/
structure Held (o : Options) (times : List ℚ) (w : ℚ) (c : Nat) : Prop where
  before : ∀ t ∈ times, t < w + o.windowMs
  count : ∀ a T, 0 ≤ T → ∃ m : Nat, within a T times ≤ o.maxPerWindow * m + c ∧
    ∀ n < m, n * o.windowMs < w - a
  bound : ∀ a T, 0 ≤ T → within a T times ≤ o.maxPerWindow * (⌊T / o.windowMs⌋₊ + 2)

variable {o : Options} {times : List ℚ} {w now : ℚ} {c : Nat}

theorem Held.mono (h : Held o times w c) {c' : Nat} (hc : c ≤ c') : Held o times w c' where
  before := h.before
  count := fun a T hT => by
    obtain ⟨m, hm, hn⟩ := h.count a T hT
    exact ⟨m, by omega, hn⟩
  bound := h.bound

theorem Held.rotate (h : Held o times w c) (hW : 0 < o.windowMs) (hc : c ≤ o.maxPerWindow)
    (hnow : w + o.windowMs ≤ now) : Held o times now 0 where
  before := fun t ht => by linarith [h.before t ht]
  count := fun a T hT => by
    by_cases ha : w + o.windowMs ≤ a
    · -- the interval begins after the window that is over
      have hnone : within a T times = 0 := by
        refine List.countP_eq_zero.mpr fun t ht => ?_
        have := h.before t ht
        simp only [decide_eq_true_eq, not_and]
        intro hat
        linarith
      exact ⟨0, by omega, by simp⟩
    · obtain ⟨m, hm, hn⟩ := h.count a T hT
      refine ⟨m + 1, by rw [Nat.mul_succ]; omega, fun n hlt => ?_⟩
      cases n with
      | zero =>
        push Not at ha
        simp only [Nat.cast_zero, zero_mul]
        linarith
      | succ n =>
        have := hn n (by omega)
        push_cast
        linarith
  bound := h.bound

theorem Held.admitted (h : Held o times w c) (hW : 0 < o.windowMs) (hc : c < o.maxPerWindow)
    (hw : w ≤ now) (hnow : now < w + o.windowMs) : Held o (now :: times) w (c + 1) where
  before := fun t ht => by
    rcases List.mem_cons.mp ht with rfl | ht
    · exact hnow
    · exact h.before t ht
  count := fun a T hT => by
    obtain ⟨m, hm, hn⟩ := h.count a T hT
    refine ⟨m, ?_, hn⟩
    simp only [within, List.countP_cons] at hm ⊢
    split <;> omega
  bound := fun a T hT => by
    by_cases hin : a ≤ now ∧ now ≤ a + T
    · obtain ⟨m, hm, hn⟩ := h.count a T hT
      have hm2 : m ≤ ⌊T / o.windowMs⌋₊ + 1 := by
        cases m with
        | zero => omega
        | succ n =>
          have hlt := hn n (by omega)
          have hle : (n : ℚ) ≤ T / o.windowMs := by
            rw [le_div_iff₀ hW]
            linarith
          have := Nat.le_floor hle
          omega
      have hone : within a T (now :: times) = within a T times + 1 := by simp [within, hin]
      have hmul := Nat.mul_le_mul_left o.maxPerWindow hm2
      rw [hone, Nat.mul_succ]
      omega
    · have hsame : within a T (now :: times) = within a T times := by simp [within, hin]
      rw [hsame]
      exact h.bound a T hT

/-! ## the eviction -/

variable {l : Limiter} {k : JsString}

theorem map_walk (l : Limiter) (n : Nat) : (l.walk sampling n none).rot.map = l.map :=
  Rotation.walk_map (fun _ _ _ => rfl) l none

theorem sampleTarget_pos (o : Options) : 0 < sampleTarget o := by
  unfold sampleTarget
  cases h : o.evictionSample.finite?.filter fun q => 1 ≤ q with
  | none => simp
  | some q =>
    have hq : 1 ≤ q := by simpa using (Option.filter_eq_some_iff.mp h).2
    have hfloor : 1 ≤ q.floor := Rat.le_floor_iff.mpr (by simpa using hq)
    simp only [Option.map_some, Option.getD_some]
    omega

theorem walk_victim (l : Limiter) (n : Nat) :
    let w := l.walk sampling n none
    w.stopped = false ∧ (w.seen ≠ [] → w.state ≠ none) ∧
      ∀ victim ∈ w.state, ∃ e ∈ w.seen, e.1 = victim.1 := by
  refine Rotation.walk_folds (I := fun seen (state : Option (JsString × Nat)) stopped => stopped = false ∧
    (seen ≠ [] → state ≠ none) ∧ ∀ victim ∈ state, ∃ e ∈ seen, e.1 = victim.1)
    (fun _ _ _ h => h) (fun _ _ _ h => h) (fun seen state k e h => ⟨rfl, ?_, ?_⟩) (by simp)
  · intro _
    simp only [sampling]
    split
    · simp
    · next hkept =>
      rintro rfl
      simp at hkept
  · intro victim hv
    simp only [sampling] at hv
    split at hv
    · obtain rfl := Option.some.inj hv
      exact ⟨(k, e), by simp, rfl⟩
    · obtain ⟨x, hx, heq⟩ := h.2.2 victim hv
      exact ⟨x, List.mem_append_left _ hx, heq⟩

theorem evictOne_some (o : Options) (hl : 0 < l.map.size) : ∃ victim ∈ l.map.keys,
    (evictOne o l).2 = some victim ∧ (evictOne o l).1.map = l.map.delete victim := by
  have hstops : sampling.Stops := fun _ _ _ h => by cases h
  obtain ⟨hgoing, hsome, hin⟩ := walk_victim l (sampleTarget o)
  have hlen := Rotation.le_seen hstops l none hgoing
  have hpos := sampleTarget_pos o
  cases hs : (l.walk sampling (sampleTarget o) none).state with
  | none =>
    refine absurd hs (hsome fun hnil => ?_)
    rw [hnil, List.length_nil] at hlen
    omega
  | some v =>
    obtain ⟨e, he, hev⟩ := hin v hs
    have hmem : e ∈ l.map.entries := (Rotation.sees_walk hstops l none).seen e he
    refine ⟨v.1, hev ▸ JsMap.fst_mem_of_mem hmem, ?_⟩
    simp only [evictOne, hs, Rotation.map_delete, map_walk, true_and]

/-! ## the invariant -/

/-- An entry at a time of the clock, by when its key was admitted. -/
structure Fits (o : Options) (times : List ℚ) (now : ℚ) (e : Entry) : Prop where
  started : e.windowStart ≤ now
  prev_le : e.prev ≤ o.maxPerWindow
  curr_le : e.curr ≤ o.maxPerWindow
  recent : 0 < e.curr → ∃ t ∈ times, e.windowStart ≤ t
  before : 0 < e.prev → ∃ t ∈ times, e.windowStart - 2 * o.windowMs < t

variable {s : State} {e : Entry} {clock : ℚ}

theorem Fits.mono (h : Fits o times clock e) (hclock : clock ≤ now) : Fits o times now e :=
  { h with started := h.started.trans hclock }

theorem fits_new (o : Options) (times : List ℚ) (now : ℚ) : Fits o times now ⟨0, 0, now⟩ :=
  ⟨le_rfl, Nat.zero_le _, Nat.zero_le _, by simp, by simp⟩

theorem Fits.rotate (h : Fits o times clock e) (hclock : clock ≤ now) (hW : 0 < o.windowMs) :
    Fits o times now (e.rotate o now) ∧ now < (e.rotate o now).windowStart + o.windowMs := by
  simp only [Entry.rotate]
  split
  · exact ⟨fits_new o times now, by simpa using hW⟩
  split
  · refine ⟨⟨le_rfl, h.curr_le, Nat.zero_le _, by simp, fun hpos => ?_⟩, by simpa using hW⟩
    obtain ⟨t, ht, hle⟩ := h.recent hpos
    exact ⟨t, ht, by linarith⟩
  · exact ⟨h.mono hclock, by linarith⟩

theorem Held.rotated (h : Held o times e.windowStart e.curr) (hc : e.curr ≤ o.maxPerWindow)
    (hW : 0 < o.windowMs) :
    Held o times (e.rotate o now).windowStart (e.rotate o now).curr := by
  simp only [Entry.rotate]
  split
  · exact h.rotate hW hc (by linarith)
  split
  · exact h.rotate hW hc (by linarith)
  · exact h

theorem room_of_estimate (hnow : now < e.windowStart + o.windowMs)
    (hW : 0 < o.windowMs) (hlt : e.estimate o now < o.maxPerWindow) : e.curr < o.maxPerWindow := by
  have hpart : (now - e.windowStart) / o.windowMs ≤ 1 := by
    rw [div_le_one hW]
    linarith
  have hprev : 0 ≤ e.prev * (1 - (now - e.windowStart) / o.windowMs) :=
    mul_nonneg (Nat.cast_nonneg _) (by linarith)
  have : (e.curr : ℚ) < o.maxPerWindow := by
    unfold Entry.estimate at hlt
    linarith
  exact_mod_cast this

theorem Fits.refused (h : Fits o times now e) (hnow : now < e.windowStart + o.windowMs)
    (hW : 0 < o.windowMs) (hN : 1 ≤ o.maxPerWindow) (hge : o.maxPerWindow ≤ e.estimate o now) :
    ∃ t ∈ times, now - 2 * o.windowMs < t := by
  by_cases hcurr : 0 < e.curr
  · obtain ⟨t, ht, hle⟩ := h.recent hcurr
    exact ⟨t, ht, by linarith⟩
  -- only the last window counts, and it does so in full at the start of this one
  have hzero : e.curr = 0 := by omega
  have hprev : (e.prev : ℚ) ≤ o.maxPerWindow := by exact_mod_cast h.prev_le
  have hlimit : (1 : ℚ) ≤ o.maxPerWindow := by exact_mod_cast hN
  have hpart : 0 ≤ (now - e.windowStart) / o.windowMs :=
    div_nonneg (by linarith [h.started]) hW.le
  simp only [Entry.estimate, hzero, Nat.cast_zero, add_zero, mul_sub, mul_one] at hge
  have hpos : (0 : ℚ) < e.prev := by
    by_contra hnot
    have : (e.prev : ℚ) = 0 := le_antisymm (not_lt.mp hnot) (Nat.cast_nonneg _)
    rw [this] at hge
    linarith
  have hstart : now = e.windowStart := by
    by_contra hne
    have hlt : 0 < now - e.windowStart := by
      have := lt_of_le_of_ne h.started (Ne.symm hne)
      linarith
    have := mul_pos hpos (div_pos hlt hW)
    linarith
  obtain ⟨t, ht, hlt⟩ := h.before (by exact_mod_cast hpos)
  exact ⟨t, ht, by linarith⟩

theorem Fits.admitted (h : Fits o times now e) (hroom : e.curr < o.maxPerWindow) :
    Fits o (now :: times) now { e with curr := e.curr + 1 } where
  started := h.started
  prev_le := h.prev_le
  curr_le := hroom
  recent := fun _ => ⟨now, List.mem_cons_self, h.started⟩
  before := fun hpos => by
    obtain ⟨t, ht, hlt⟩ := h.before hpos
    exact ⟨t, List.mem_cons_of_mem _ ht, hlt⟩

/-- The last window of a key, which may have lost its entry to a sweep. -/
def LastWindow (o : Options) (times : List ℚ) (clock : ℚ) : Option Entry → Prop
  | some e => Held o times e.windowStart e.curr
  | none => ∃ w, w + o.windowMs ≤ clock ∧ Held o times w o.maxPerWindow

theorem LastWindow.mono {e : Option Entry} (h : LastWindow o times clock e) (hclock : clock ≤ now) :
    LastWindow o times now e := by
  cases e with
  | some e => exact h
  | none =>
    obtain ⟨w, hw, hheld⟩ := h
    exact ⟨w, hw.trans hclock, hheld⟩

structure Inv (o : Options) (s : State) : Prop where
  size : s.limiter.map.size ≤ o.maxEntries
  past : ∀ k, ∀ t ∈ s.times k, t ≤ s.clock
  fits : ∀ k e, s.limiter.map.get? k = some e → Fits o (s.times k) s.clock e
  window : ∀ k ∉ s.evicted, LastWindow o (s.times k) s.clock (s.limiter.map.get? k)

theorem Inv.entryFor (h : Inv o s) (hclock : s.clock ≤ now) (hW : 0 < o.windowMs) (k : JsString) :
    let e := (entryFor o s.limiter k now).2.1
    Fits o (s.times k) now e ∧ now < e.windowStart + o.windowMs ∧
      (k ∉ s.evicted → Held o (s.times k) e.windowStart e.curr) := by
  unfold Window.entryFor
  cases he : s.limiter.map.get? k with
  | none =>
    refine ⟨fits_new o _ now, by simpa using hW, fun hk => ?_⟩
    have hlast := h.window k hk
    rw [he] at hlast
    obtain ⟨w, hw, hheld⟩ := hlast
    exact hheld.rotate hW le_rfl (hw.trans hclock)
  | some e =>
    have hfits := h.fits k e he
    refine ⟨(hfits.rotate hclock hW).1, (hfits.rotate hclock hW).2, fun hk => ?_⟩
    have hlast := h.window k hk
    rw [he] at hlast
    exact Held.rotated hlast hfits.curr_le hW

theorem map_entryFor (hl : l.map.size ≤ o.maxEntries) (hE : 1 ≤ o.maxEntries) (k : JsString)
    (now : ℚ) :
    let r := entryFor o l k now
    (∀ e, (r.1.map.set k e).size ≤ o.maxEntries) ∧ ∀ k' ≠ k,
      (k' ∉ r.2.2.toList → r.1.map.get? k' = l.map.get? k') ∧
      ∀ e, r.1.map.get? k' = some e → l.map.get? k' = some e := by
  unfold entryFor
  cases he : l.map.get? k with
  | some e =>
    refine ⟨fun e' => ?_, fun k' _ => by simp⟩
    rw [JsMap.size_set, if_pos (JsMap.mem_keys_iff.mpr ⟨e, he⟩)]
    exact hl
  | none =>
    have hnew : k ∉ l.map.keys := JsMap.get?_eq_none_iff.mp he
    by_cases hfull : o.maxEntries ≤ l.map.size
    · obtain ⟨victim, hv, hevicted, hmap⟩ := evictOne_some o (l := l) (by omega)
      simp only [ge_iff_le, hfull, if_true, hmap, hevicted, Option.toList_some, List.mem_singleton]
      refine ⟨fun e' => ?_, fun k' _ => ⟨fun hne => JsMap.get?_delete_ne _ hne, fun e' he' =>
        (JsMap.of_get?_delete he').2⟩⟩
      have hsize := JsMap.size_delete hv
      rw [JsMap.size_set]
      split <;> omega
    · simp only [ge_iff_le, hfull, if_false]
      refine ⟨fun e' => ?_, fun k' _ => by simp⟩
      rw [JsMap.size_set, if_neg hnew]
      omega

theorem timesOf_cons (admitted : List (JsString × ℚ)) (k k' : JsString) (t : ℚ) :
    timesOf ((k, t) :: admitted) k' =
      if k = k' then t :: timesOf admitted k' else timesOf admitted k' := by
  unfold timesOf
  rw [List.filter_cons]
  by_cases hk : k = k' <;> simp [hk]

/-- A request has been answered: `admitted` differs for its own key only. -/
theorem Inv.store (h : Inv o s) (hclock : s.clock ≤ now) {evicted : Option JsString}
    (hsize : ∀ e, (l.map.set k e).size ≤ o.maxEntries)
    (hothers : ∀ k' ≠ k, (k' ∉ evicted.toList → l.map.get? k' = s.limiter.map.get? k') ∧
      ∀ e, l.map.get? k' = some e → s.limiter.map.get? k' = some e)
    {admitted : List (JsString × ℚ)} (hadmitted : ∀ k' ≠ k, timesOf admitted k' = s.times k')
    (hpast : ∀ t ∈ timesOf admitted k, t ≤ now) (hfits : Fits o (timesOf admitted k) now e)
    (hheld : k ∉ s.evicted → Held o (timesOf admitted k) e.windowStart e.curr) :
    Inv o ⟨l.set k e, now, admitted, evicted.toList ++ s.evicted⟩ where
  size := hsize e
  past := fun k' t ht => by
    by_cases hk : k' = k
    · exact hpast t (hk ▸ ht)
    · exact (h.past k' t (hadmitted k' hk ▸ ht)).trans hclock
  fits := fun k' e' he' => by
    by_cases hk : k' = k
    · subst hk
      rw [Rotation.map_set, JsMap.get?_set_self] at he'
      obtain rfl := Option.some.inj he'
      exact hfits
    · rw [Rotation.map_set, JsMap.get?_set_ne _ _ hk] at he'
      have := (h.fits k' e' ((hothers k' hk).2 e' he')).mono hclock
      rwa [← hadmitted k' hk] at this
  window := fun k' hk' => by
    obtain ⟨hdropped, hkept⟩ := not_or.mp (List.mem_append.not.mp hk')
    by_cases hk : k' = k
    · subst hk
      rw [Rotation.map_set, JsMap.get?_set_self]
      exact hheld hkept
    · rw [Rotation.map_set, JsMap.get?_set_ne _ _ hk, (hothers k' hk).1 hdropped]
      have := (h.window k' hkept).mono hclock
      rwa [← hadmitted k' hk] at this

theorem Inv.exceededKey (h : Inv o s) (hclock : s.clock ≤ now) (hW : 0 < o.windowMs)
    (hE : 1 ≤ o.maxEntries) (k : JsString) :
    let r := exceededKey o s.limiter k now
    Inv o ⟨r.limiter, now, if r.refused then s.admitted else (k, now) :: s.admitted,
      r.evicted.toList ++ s.evicted⟩ := by
  obtain ⟨hfits, hnow, hheld⟩ := h.entryFor hclock hW k
  obtain ⟨hsize, hothers⟩ := map_entryFor h.size hE k now
  have hpast : ∀ t ∈ s.times k, t ≤ now := fun t ht => (h.past k t ht).trans hclock
  simp only [Window.exceededKey]
  split
  case isTrue => exact h.store hclock hsize hothers (fun _ _ => rfl) hpast hfits hheld
  case isFalse hlt =>
    have hroom := room_of_estimate hnow hW (not_le.mp hlt)
    have htimes : timesOf ((k, now) :: s.admitted) k = now :: s.times k := by
      simp [timesOf_cons, State.times]
    simp only [Bool.false_eq_true, if_false]
    refine h.store hclock hsize hothers (fun k' hk => ?_) ?_ ?_ ?_
    · rw [timesOf_cons, if_neg (Ne.symm hk)]
      rfl
    · rw [htimes]
      exact List.forall_mem_cons.mpr ⟨le_rfl, hpast⟩
    · rw [htimes]
      exact hfits.admitted hroom
    · rw [htimes]
      exact fun hk => (hheld hk).admitted hW hroom hfits.started hnow

theorem Inv.sweep (h : Inv o s) (hclock : s.clock ≤ now) (hW : 0 < o.windowMs) :
    Inv o { s with limiter := sweep o s.limiter now, clock := now } where
  size := by
    refine le_trans ?_ h.size
    exact List.length_filter_le ..
  past := fun k t ht => (h.past k t ht).trans hclock
  fits := fun k e he => (h.fits k e (JsMap.get?_retain.mp he).1).mono hclock
  window := fun k hk => by
    have hlast := h.window k hk
    cases he' : (Window.sweep o s.limiter now).map.get? k with
    | some e =>
      rw [(JsMap.get?_retain.mp he').1] at hlast
      exact hlast
    | none =>
      cases he : s.limiter.map.get? k with
      | none =>
        rw [he] at hlast
        exact hlast.mono hclock
      | some e =>
        have hidle : 2 * o.windowMs ≤ now - e.windowStart := by
          by_contra hlive
          have hkept : (Window.sweep o s.limiter now).map.get? k = some e :=
            JsMap.get?_retain.mpr ⟨he, by simpa using hlive⟩
          rw [he'] at hkept
          cases hkept
        rw [he] at hlast
        exact ⟨e.windowStart, by linarith, Held.mono hlast (h.fits k e he).curr_le⟩

variable {lc : LowerCase} {t₀ : ℚ} {as : List Action}

theorem inv_run (hN : 1 ≤ o.maxPerWindow) (hE : 1 ≤ o.maxEntries) (hW : 0 < o.windowMs)
    (h : (machine o lc t₀).Runs Machine.Any as s) : Inv o s := by
  refine Machine.Runs.invariant ?_ ?_ h
  · refine ⟨Nat.zero_le _, fun k t ht => (by cases ht), fun k e he => (by cases he), fun k _ => ?_⟩
    refine ⟨t₀ - o.windowMs, by simp [machine], ⟨fun t ht => (by cases ht), fun a T _ => ?_,
      fun a T _ => Nat.zero_le _⟩⟩
    exact ⟨0, Nat.zero_le _, by simp⟩
  · intro s a s' hs _ hnext
    cases a with
    | exceeded clientIp nowMs =>
      simp only [machine, next, Window.exceeded, Nat.not_le.mpr hN, if_false] at hnext
      split at hnext
      · next hclock =>
        obtain rfl := Option.some.inj hnext
        exact hs.exceededKey hclock hW hE _
      · cases hnext
    | sweep nowMs =>
      simp only [machine, next] at hnext
      split at hnext
      · next hclock =>
        obtain rfl := Option.some.inj hnext
        exact hs.sweep hclock hW
      · cases hnext

/-- The size of the map, the admissions of a key in an interval, and what a
refusal needs. -/
theorem window_bounds (hN : 1 ≤ o.maxPerWindow) (hE : 1 ≤ o.maxEntries) (hW : 0 < o.windowMs)
    (h : (machine o lc t₀).Runs Machine.Any as s) :
    s.limiter.map.size ≤ o.maxEntries ∧
    (∀ k ∉ s.evicted, ∀ a T, 0 ≤ T →
      within a T (s.times k) ≤ o.maxPerWindow * (⌊T / o.windowMs⌋₊ + 2)) ∧
    ∀ clientIp nowMs, s.clock ≤ nowMs → (exceeded o lc s.limiter clientIp nowMs).refused = true →
      ∃ t ∈ s.times (rateLimitKey lc clientIp o.maxKeyLen),
        nowMs - 2 * o.windowMs < t ∧ t ≤ nowMs := by
  have hinv := inv_run hN hE hW h
  refine ⟨hinv.size, fun k hk a T hT => ?_, fun clientIp nowMs hclock hrefused => ?_⟩
  · have hlast := hinv.window k hk
    cases he : s.limiter.map.get? k with
    | some e =>
      rw [he] at hlast
      exact Held.bound hlast a T hT
    | none =>
      rw [he] at hlast
      obtain ⟨w, -, hheld⟩ := hlast
      exact hheld.bound a T hT
  · obtain ⟨hfits, hnow, -⟩ :=
      hinv.entryFor hclock hW (rateLimitKey lc clientIp o.maxKeyLen)
    simp only [exceeded, exceededKey, Nat.not_le.mpr hN, if_false] at hrefused
    split at hrefused
    · next hge =>
      obtain ⟨t, ht, hlt⟩ := hfits.refused hnow hW hN hge
      exact ⟨t, ht, hlt, (hinv.past _ t ht).trans hclock⟩
    · cases hrefused

/-- One request for each ten units of time. -/
def single : Options where
  maxPerWindow := 1
  windowMs := 10
  maxEntries := 1
  evictionSample := JsNumber.ofNat 1
  maxKeyLen := 8

theorem exec_single : ∃ s, (machine single .minimal 0).exec (machine single .minimal 0).init
      [.exceeded (js "a") 0] = some s ∧ s.clock ≤ 15 ∧
    (exceeded single .minimal s.limiter (js "a") 15).refused = true ∧
    ∀ t ∈ s.times (rateLimitKey .minimal (js "a") 8), t < 5 := by
  have hany : ((machine single .minimal 0).exec (machine single .minimal 0).init
      [.exceeded (js "a") 0]).any (fun s => s.clock ≤ 15 ∧
    (exceeded single .minimal s.limiter (js "a") 15).refused = true ∧
    ∀ t ∈ s.times (rateLimitKey .minimal (js "a") 8), t < 5) = true := by decide +kernel
  simpa [Option.any_eq_true] using hany

theorem window_bounds_single : ∃ s : State, s.limiter.map.size ≤ 1 ∧
    ∃ t ∈ s.times (rateLimitKey .minimal (js "a") 8), 15 - 2 * 10 < t ∧ t ≤ 15 := by
  obtain ⟨s, hs, hclock, hrefused, -⟩ := exec_single
  have h := window_bounds (o := single) (by decide) (by decide) (by decide +kernel) (Machine.runs_of_exec hs)
  exact ⟨s, h.1, h.2.2 _ _ hclock hrefused⟩

/-- A client that was silent for a whole window is refused: at the start of a window, what
it was admitted before counts in full. -/
theorem refused_after_silence :
    ¬ ∀ (as : List Action) (s : State), (machine single .minimal 0).Runs Machine.Any as s →
      ∀ clientIp nowMs, s.clock ≤ nowMs →
        (exceeded single .minimal s.limiter clientIp nowMs).refused = true →
        ∃ t ∈ s.times (rateLimitKey .minimal clientIp 8), nowMs - single.windowMs ≤ t := by
  intro h
  obtain ⟨s, hs, hclock, hrefused, hold⟩ := exec_single
  obtain ⟨t, ht, hle⟩ := h _ s (Machine.runs_of_exec hs) _ _ hclock hrefused
  have := hold t ht
  simp only [single] at hle
  linarith

end BunServe.RateKey.Window
