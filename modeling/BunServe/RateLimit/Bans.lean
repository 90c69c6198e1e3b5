import Mathlib.Tactic.Linarith
import BunServe.RateLimit.Eviction

/-!
# BunServe.RateLimit.Bans

What the message rate limiter keeps at its bound.

* `Sampled` — what the loop of `evictOne` has chosen among the entries it saw;
* `evictOne_spec` — an eviction makes room; it takes a ban only when all it saw
  are bans, and then not the oldest of all;
* `Held` — the ban order, and what each key may still draw, over whole runs;
* `bans_last` — the map is within its bound, a ban is evicted only by a sample of
  bans, the oldest active ban by none, and no window allows more than its points.
-/

namespace BunServe.RateLimit.Eviction

open Machine
open Function (update)
open JsMap (get?_set_ne has size_set)

variable {o : Options} {l : Limiter} {t : ℚ}

/-! ## what a sample chooses -/

/-- What the loop of `evictOne` has chosen among what it has seen: an unbanned
entry as soon as there is one, and the newest ban. -/
structure Sampled (t : ℚ) (seen : List (String × Bucket)) (s : Sample) (stopped : Bool) : Prop where
  score : s.victim = none → s.victimScore = ⊤
  victim : ∀ k, s.victim = some k → ∃ b, (k, b) ∈ seen ∧ b.banned t = false
  unbanned : s.victim = none → ∀ e ∈ seen, e.2.banned t = true
  stopped : stopped = true → s.victim ≠ none
  bannedVictim : ∀ k, s.bannedVictim = some k → ∃ b, (k, b) ∈ seen ∧ s.bannedSeq = b.banSeq
  newest : ∀ e ∈ seen, e.2.banned t = true → s.bannedVictim ≠ none ∧ (e.2.banSeq : Int) ≤ s.bannedSeq
  unset : s.bannedVictim = none → s.bannedSeq = -1

variable {k : String} {b : Bucket}

theorem Sampled.consider {seen : List (String × Bucket)} {s : Sample} (h : Sampled t seen s false)
     (hb : b.banned t = false) (score : ℚ) (expired stop : Bool) :
    Sampled t (seen ++ [(k, b)]) (s.consider k score expired) stop := by
  have hsame : (s.consider k score expired).bannedVictim = s.bannedVictim ∧
      (s.consider k score expired).bannedSeq = s.bannedSeq := by
    unfold Sample.consider
    split <;> exact ⟨rfl, rfl⟩
  have hchosen : (s.consider k score expired).victim ≠ none := by
    unfold Sample.consider
    split
    · simp
    · next hkept =>
      intro hnone
      refine hkept (.inl ?_)
      rw [h.score hnone]
      exact WithTop.coe_lt_top _
  exact {
    score := fun hnone => absurd hnone hchosen
    victim := fun k' hk' => by
      unfold Sample.consider at hk'
      split at hk'
      · cases hk'
        exact ⟨b, by simp, hb⟩
      · obtain ⟨b', hmem, hb'⟩ := h.victim k' hk'
        exact ⟨b', List.mem_append_left _ hmem, hb'⟩
    unbanned := fun hnone => absurd hnone hchosen
    stopped := fun _ => hchosen
    bannedVictim := fun k' hk' => by
      rw [hsame.1] at hk'
      obtain ⟨b', hmem, hseq⟩ := h.bannedVictim k' hk'
      exact ⟨b', List.mem_append_left _ hmem, hsame.2.trans hseq⟩
    newest := fun e he hban => by
      rcases List.mem_append.mp he with he | he
      · rw [hsame.1, hsame.2]
        exact h.newest e he hban
      · rw [List.mem_singleton.mp he, hb] at hban
        cases hban
    unset := fun hnone => by
      rw [hsame.1] at hnone
      rw [hsame.2]
      exact h.unset hnone }

theorem Sampled.considerBanned {seen : List (String × Bucket)} {s : Sample} (h : Sampled t seen s false)
     (hb : b.banned t = true) :
    Sampled t (seen ++ [(k, b)]) (s.considerBanned k b.banSeq) false := by
  have hsame : (s.considerBanned k b.banSeq).victim = s.victim ∧
      (s.considerBanned k b.banSeq).victimScore = s.victimScore := by
    unfold Sample.considerBanned
    split <;> exact ⟨rfl, rfl⟩
  have hle : s.bannedSeq ≤ (s.considerBanned k b.banSeq).bannedSeq ∧
      (b.banSeq : Int) ≤ (s.considerBanned k b.banSeq).bannedSeq := by
    unfold Sample.considerBanned
    split
    · next hlt => exact ⟨hlt.le, le_refl _⟩
    · next hge => exact ⟨le_refl _, not_lt.mp hge⟩
  have hchosen : (s.considerBanned k b.banSeq).bannedVictim ≠ none := by
    unfold Sample.considerBanned
    split
    · simp
    · next hge =>
      intro hnone
      have := h.unset hnone
      omega
  exact {
    score := fun hnone => by
      rw [hsame.1] at hnone
      rw [hsame.2]
      exact h.score hnone
    victim := fun k' hk' => by
      rw [hsame.1] at hk'
      obtain ⟨b', hmem, hb'⟩ := h.victim k' hk'
      exact ⟨b', List.mem_append_left _ hmem, hb'⟩
    unbanned := fun hnone e he => by
      rw [hsame.1] at hnone
      rcases List.mem_append.mp he with he | he
      · exact h.unbanned hnone e he
      · rw [List.mem_singleton.mp he]
        exact hb
    stopped := fun hstop => by cases hstop
    bannedVictim := fun k' hk' => by
      unfold Sample.considerBanned at hk' ⊢
      split at hk'
      · next hlt =>
        cases hk'
        rw [if_pos hlt]
        exact ⟨b, by simp, rfl⟩
      · next hge =>
        obtain ⟨b', hmem, hseq⟩ := h.bannedVictim k' hk'
        rw [if_neg hge]
        exact ⟨b', List.mem_append_left _ hmem, hseq⟩
    newest := fun e he hban => by
      refine ⟨hchosen, ?_⟩
      rcases List.mem_append.mp he with he | he
      · exact (h.newest e he hban).2.trans hle.1
      · rw [List.mem_singleton.mp he]
        exact hle.2
    unset := fun hnone => absurd hnone hchosen }

theorem sampled_sample (o : Options) (l : Limiter) (t : ℚ) :
    Sampled t (sample o l t).seen (sample o l t).state (sample o l t).stopped := by
  refine Rotation.walk_folds
    (fun _ _ _ h => h) (fun _ _ _ h => h) ?_ ?_
  · intro seen s k b h
    by_cases hb : b.banned t = true
    · have hvisit : (sampling o t).visit s k b =
          { state := s.considerBanned k b.banSeq, drop := false, stop := false } := if_pos hb
      rw [hvisit]
      exact h.considerBanned hb
    · have hvisit : (sampling o t).visit s k b =
          { state := s.consider k (activity o b t) (decide (b.resetAt ≤ t)), drop := false
            stop := decide (activity o b t = 0) && decide (b.resetAt ≤ t) } := if_neg hb
      rw [hvisit]
      exact h.consider (by simpa using hb) _ _ _
  · exact {
      score := fun _ => rfl
      victim := fun k hk => by cases hk
      unbanned := fun _ e he => by cases he
      stopped := fun hstop => by cases hstop
      bannedVictim := fun k hk => by cases hk
      newest := fun e he => by cases he
      unset := fun _ => rfl }

/-! ## evictions -/

theorem sampling_drop (o : Options) (t : ℚ) (s : Sample) (k : String) (b : Bucket) :
    ((sampling o t).visit s k b).drop = false := by
  simp only [sampling]
  split <;> rfl

theorem sampling_stops (o : Options) (t : ℚ) : (sampling o t).Stops := by
  intro s k b h
  rw [sampling_drop] at h
  cases h

structure Took (o : Options) (l : Limiter) (t : ℚ) (e : Evicted) (b : Bucket) : Prop where
  time : e.time = t
  resident : l.buckets.map.get? e.key = some b
  mem : (e.key, b) ∈ e.sampled
  banned : b.banned t = e.banned
  /-- A ban is taken only when all that was sampled are bans. -/
  sampled : e.banned = true → ∀ x ∈ e.sampled, x.2.banned t = true
  /-- And then there is another that was not placed later. -/
  other : e.banned = true → 2 ≤ o.evictionSample → 2 ≤ l.buckets.map.size →
    ∃ k b', k ≠ e.key ∧ l.buckets.map.get? k = some b' ∧ b'.banned t = true ∧ b'.banSeq ≤ b.banSeq

/-- **An eviction** takes one entry. -/
theorem evictOne_spec (o : Options) (t : ℚ) (hpos : 0 < l.buckets.map.size) :
    ∃ e b, (evictOne o l t).1 = some e ∧ Took o l t e b ∧
      (evictOne o l t).2.banSeq = l.banSeq ∧
      (evictOne o l t).2.buckets.map = l.buckets.map.delete e.key := by
  have hmap : (sample o l t).rot.map = l.buckets.map := Rotation.walk_map (sampling_drop o t) _ _
  have hchosen := sampled_sample o l t
  have hsees : Rotation.Sees l.buckets.map (sample o l t) := Rotation.sees_walk (sampling_stops o t) _ _
  have hget : ∀ {k b}, (k, b) ∈ (sample o l t).seen → l.buckets.map.get? k = some b :=
    fun h => JsMap.mem_entries_iff.mp (hsees.seen _ h)
  cases hv : (sample o l t).state.victim with
  | some k =>
    obtain ⟨b, hmem, hb⟩ := hchosen.victim k hv
    have heq : evictOne o l t =
        (some { key := k, banned := false, sampled := (sample o l t).seen, time := t },
          { l with buckets := (sample o l t).rot.delete k }) := by
      simp only [evictOne, hv]
    refine ⟨_, b, by rw [heq], ⟨rfl, hget hmem, hmem, hb, fun h => (by cases h), fun h => (by cases h)⟩, ?_, ?_⟩
    · rw [heq]
    · rw [heq]
      simp only [Rotation.map_delete, hmap]
  | none =>
    -- the loop ran to its end, over bans only
    have hban := hchosen.unbanned hv
    have hstop : (sample o l t).stopped = false := by
      cases hs : (sample o l t).stopped with
      | false => rfl
      | true => exact absurd hv (hchosen.stopped hs)
    have hlen : min o.evictionSample l.buckets.map.size ≤ (sample o l t).seen.length :=
      Rotation.le_seen (sampling_stops o t) _ _ hstop
    have hsample := o.evictionSample_pos
    obtain ⟨x, hx⟩ : ∃ x, x ∈ (sample o l t).seen :=
      List.exists_mem_of_length_pos (by omega)
    obtain ⟨k, hk⟩ := Option.ne_none_iff_exists'.mp (hchosen.newest x hx (hban x hx)).1
    obtain ⟨b, hmem, hseq⟩ := hchosen.bannedVictim k hk
    have heq : evictOne o l t =
        (some { key := k, banned := true, sampled := (sample o l t).seen, time := t },
          { l with buckets := (sample o l t).rot.delete k }) := by
      simp only [evictOne, hv, hk]
    refine ⟨_, b, by rw [heq], ⟨rfl, hget hmem, hmem, hban _ hmem, fun _ => hban, fun _ h2 hsize => ?_⟩, ?_, ?_⟩
    · -- two entries in a row, of which one is not the victim
      obtain ⟨x, y, rest, hseen⟩ : ∃ x y rest, (sample o l t).seen = x :: y :: rest := by
        match hs : (sample o l t).seen with
        | [] => rw [hs] at hlen; simp only [List.length_nil] at hlen; omega
        | [x] => rw [hs] at hlen; simp only [List.length_singleton] at hlen; omega
        | x :: y :: rest => exact ⟨x, y, rest, rfl⟩
      have hchain := hsees.chain hsize
      rw [hseen] at hchain
      have hne : x.1 ≠ y.1 := (List.isChain_cons_cons.mp hchain).1
      have hother : ∀ e ∈ (sample o l t).seen, e.1 ≠ k → ∃ k' b', k' ≠ k ∧
          l.buckets.map.get? k' = some b' ∧ b'.banned t = true ∧ b'.banSeq ≤ b.banSeq := by
        intro e he hek
        have hle := (hchosen.newest e he (hban e he)).2
        rw [hseq] at hle
        exact ⟨e.1, e.2, hek, hget he, hban e he, by exact_mod_cast hle⟩
      by_cases hxk : x.1 = k
      · exact hother y (by simp [hseen]) fun hyk => hne (hxk.trans hyk.symm)
      · exact hother x (by simp [hseen]) hxk
    · rw [heq]
    · rw [heq]
      simp only [Rotation.map_delete, hmap]

/-! ## what a call does to the map -/

/-- What only loses buckets. -/
def Kept (l l' : Limiter) : Prop :=
  ∀ k b, l'.buckets.map.get? k = some b → l.buckets.map.get? k = some b

theorem cleanup_spec (l : Limiter) (t : ℚ) :
    Kept l (cleanup l t) ∧ (cleanup l t).banSeq = l.banSeq ∧
      (cleanup l t).buckets.map.size ≤ l.buckets.map.size ∧
      ∀ k b, l.buckets.map.get? k = some b → b.expired t = false →
        (cleanup l t).buckets.map.get? k = some b := by
  unfold cleanup
  split
  · exact ⟨fun _ _ h => h, rfl, le_refl _, fun _ _ h _ => h⟩
  split
  · refine ⟨fun k b hb => ?_, rfl, List.length_filter_le _ _, fun k b hb hlive => ?_⟩
    · simp only [JsMap.get?_filter] at hb
      split at hb
      · exact hb
      · cases hb
    · simp only [JsMap.get?_filter, hb, Option.any_some, hlive, Bool.not_false, ↓reduceIte]
  · exact ⟨fun _ _ h => h, rfl, le_refl _, fun _ _ h _ => h⟩

/-- The bucket a call finds, or makes. -/
def found (o : Options) (l : Limiter) (key : String) (points t : ℚ) : Bucket :=
  (l.buckets.map.get? key).getD
    { points, resetAt := t + o.interval, bannedUntil := 0, prev := 0, banSeq := 0 }

/-- What a call that needs a key's bucket does to the limiter. -/
structure Room (o : Options) (l : Limiter) (key : String) (t : ℚ) (b : Bucket) (ev : Option Evicted)
    (l' : Limiter) : Prop where
  banSeq : l'.banSeq = l.banSeq
  bounded : l'.buckets.map.size ≤ o.maxBuckets
  stored : l'.buckets.map.get? key = some b
  kept : ∀ k ≠ key, ∀ v, l'.buckets.map.get? k = some v → l.buckets.map.get? k = some v
  took : ∀ e, ev = some e → o.maxBuckets ≤ l.buckets.map.size ∧ ∃ v, Took o l t e v
  lost : ∀ k ≠ key, ∀ v, l.buckets.map.get? k = some v → l'.buckets.map.get? k = some v ∨
    ∃ e, ev = some e ∧ e.key = k

/-- **Room for a key**: at the bound one entry is evicted for it. -/
theorem bucketFor_spec (hl : l.buckets.map.size ≤ o.maxBuckets) (key : String) (points t : ℚ) :
    (bucketFor o l key points t).1 = found o l key points t ∧
      Room o l key t (bucketFor o l key points t).1 (bucketFor o l key points t).2.1
        (bucketFor o l key points t).2.2 := by
  unfold bucketFor found
  cases hk : l.buckets.map.get? key with
  | some b =>
    exact ⟨rfl, rfl, hl, hk, fun _ _ _ h => h, fun e he => (by cases he), fun _ _ _ h => .inl h⟩
  | none =>
    refine ⟨rfl, ?_⟩
    by_cases hfull : l.buckets.map.size ≥ o.maxBuckets
    · have hpos := o.maxBuckets_pos
      obtain ⟨e, v, hev, htook, hseq, hmap⟩ := evictOne_spec o t (by omega : 0 < l.buckets.map.size)
      simp only [if_pos hfull]
      have hsize := JsMap.size_delete (JsMap.mem_keys_iff.mpr ⟨v, htook.resident⟩)
      refine {
        banSeq := hseq
        bounded := ?_
        stored := JsMap.get?_set_self _ _ _
        kept := fun k hne b hb => ?_
        took := fun e' he' => ?_
        lost := fun k hne b hb => ?_ }
      · simp only [Rotation.map_set, hmap, size_set]
        split <;> omega
      · simp only [Rotation.map_set, hmap, get?_set_ne _ _ hne] at hb
        exact (JsMap.of_get?_delete hb).2
      · rw [hev] at he'
        cases he'
        exact ⟨hfull, v, htook⟩
      · simp only [Rotation.map_set, hmap, get?_set_ne _ _ hne, JsMap.get?_delete]
        by_cases hek : k = e.key
        · exact .inr ⟨e, hev, hek.symm⟩
        · exact .inl (by rw [if_neg hek]; exact hb)
    · simp only [if_neg hfull]
      refine {
        banSeq := rfl
        bounded := ?_
        stored := JsMap.get?_set_self _ _ _
        kept := fun k hne b hb => ?_
        took := fun e he => by cases he
        lost := fun k hne b hb => .inl ?_ }
      · simp only [Rotation.map_set, size_set]
        split <;> omega
      · simpa only [Rotation.map_set, get?_set_ne _ _ hne] using hb
      · simpa only [Rotation.map_set, get?_set_ne _ _ hne] using hb

/-! ## runs -/

/-- What is kept of the limiter against the record. -/
structure Held (o : Options) (l : Limiter) (bans : List String) (drawn : String → List ℚ) : Prop where
  bounded : l.buckets.map.size ≤ o.maxBuckets
  /-- A bucket that no ban was placed on is not banned. -/
  unplaced : ∀ k b, l.buckets.map.get? k = some b → b.banSeq = 0 → b.bannedUntil ≤ 0
  /-- The ban order is the order in which the bans were placed. -/
  order : ∀ k b, l.buckets.map.get? k = some b → 0 < b.banSeq → bans.idxOf k + b.banSeq = l.banSeq
  /-- What has been drawn in a window, and what is left of it. -/
  allowance : ∀ k b, l.buckets.map.get? k = some b →
    0 ≤ b.points ∧ b.points + (drawn k).sum ≤ o.points

variable {bans : List String} {drawn : String → List ℚ} {key : String}

theorem Held.of_kept {l' : Limiter} (h : Held o l bans drawn) (hkept : Kept l l')
    (hseq : l'.banSeq = l.banSeq) (hsize : l'.buckets.map.size ≤ l.buckets.map.size) :
    Held o l' bans drawn where
  bounded := hsize.trans h.bounded
  unplaced := fun k b hb => h.unplaced k b (hkept k b hb)
  order := fun k b hb hpos => by
    rw [hseq]
    exact h.order k b (hkept k b hb) hpos
  allowance := fun k b hb => h.allowance k b (hkept k b hb)

theorem Held.store {l' : Limiter} (h : Held o l bans drawn) {ev : Option Evicted}
    (hroom : Room o l key t b ev l') (b' : Bucket) (placed : Bool) {ds : List ℚ}
    (hunplaced : b'.banSeq = 0 → b'.bannedUntil ≤ 0)
    (horder : if placed then b'.banSeq = l.banSeq + 1
      else 0 < b'.banSeq → bans.idxOf key + b'.banSeq = l.banSeq)
    (hallow : 0 ≤ b'.points ∧ b'.points + ds.sum ≤ o.points) :
    Held o { buckets := l'.buckets.set key b'
             banSeq := if placed then l'.banSeq + 1 else l'.banSeq }
      (if placed then key :: bans else bans) (update drawn key ds) := by
  have hkey : key ∈ l'.buckets.map.keys := JsMap.mem_keys_iff.mpr ⟨b, hroom.stored⟩
  have hget : ∀ k v, (l'.buckets.set key b').map.get? k = some v →
      k = key ∧ v = b' ∨ k ≠ key ∧ l.buckets.map.get? k = some v := by
    intro k v hv
    by_cases hk : k = key
    · subst hk
      rw [Rotation.map_set, JsMap.get?_set_self] at hv
      exact .inl ⟨rfl, (Option.some.inj hv).symm⟩
    · rw [Rotation.map_set, get?_set_ne _ _ hk] at hv
      exact .inr ⟨hk, hroom.kept k hk v hv⟩
  refine {
    bounded := ?_
    unplaced := fun k v hv => ?_
    order := fun k v hv hpos => ?_
    allowance := fun k v hv => ?_ }
  · simp only [Rotation.map_set, size_set, if_pos hkey]
    exact hroom.bounded
  · obtain ⟨rfl, rfl⟩ | ⟨-, hv⟩ := hget k v hv
    · exact hunplaced
    · exact h.unplaced k v hv
  · obtain ⟨rfl, rfl⟩ | ⟨hne, hv⟩ := hget k v hv
    · cases placed with
      | true =>
        simp only [↓reduceIte] at horder ⊢
        rw [List.idxOf_cons_self, hroom.banSeq]
        omega
      | false =>
        rw [hroom.banSeq]
        exact horder hpos
    · have hold := h.order k v hv hpos
      cases placed with
      | true =>
        simp only [↓reduceIte]
        rw [List.idxOf_cons_ne _ (Ne.symm hne), hroom.banSeq]
        omega
      | false =>
        rw [hroom.banSeq]
        exact hold
  · obtain ⟨rfl, rfl⟩ | ⟨hne, hv⟩ := hget k v hv
    · rw [Function.update_self]
      exact hallow
    · rw [Function.update_of_ne hne]
      exact h.allowance k v hv

/-- What a key may still draw after a call of `consume`. -/
theorem draw_allowance (cost t : ℚ) (next : Nat) {ds : List ℚ}
    (h : 0 ≤ b.points ∧ b.points + ds.sum ≤ o.points) :
    let before := if !b.banned t && decide (b.resetAt ≤ t) then [] else ds
    let r := b.draw o cost t next
    0 ≤ r.2.points ∧
      r.2.points + (if r.1.result.allowed then cost :: before else before).sum ≤ o.points := by
  unfold Bucket.draw
  by_cases hb : b.banned t = true
  · simp only [hb]
    exact h
  have hrefilled : 0 ≤ (b.refill o t).points ∧ (b.refill o t).points +
      (if !b.banned t && decide (b.resetAt ≤ t) then [] else ds).sum ≤ o.points := by
    by_cases hreset : b.resetAt ≤ t
    · simp [Bucket.refill, hb, hreset]
    · simpa [Bucket.refill, hreset] using h
  simp only [hb, Bool.false_eq_true, ↓reduceIte] at hrefilled ⊢
  split
  · next hcost =>
    simp only [↓reduceIte, List.sum_cons]
    exact ⟨by linarith, by linarith [hrefilled.2]⟩
  · split
    · exact hrefilled
    · exact hrefilled

/-- The ban that a call of `consume` places, if it does. -/
theorem draw_ban (o : Options) (b : Bucket) (cost t : ℚ) (next : Nat) :
    if (b.draw o cost t next).1.placed then (b.draw o cost t next).2.banSeq = next
    else (b.draw o cost t next).2.banSeq = b.banSeq ∧
      (b.draw o cost t next).2.bannedUntil = b.bannedUntil := by
  have hrefill : (b.refill o t).banSeq = b.banSeq ∧ (b.refill o t).bannedUntil = b.bannedUntil := by
    unfold Bucket.refill
    split <;> exact ⟨rfl, rfl⟩
  unfold Bucket.draw
  split
  · exact ⟨rfl, rfl⟩
  · simp only
    split
    · exact hrefill
    · split
      · rfl
      · exact hrefill

theorem found_spec (h : Held o l bans drawn) (key : String) {points : ℚ} (hp : 0 ≤ points)
    (hle : points ≤ o.points) (t : ℚ) :
    let b := found o l key points t
    let ds := if l.buckets.map.has key then drawn key else []
    (b.banSeq = 0 → b.bannedUntil ≤ 0) ∧
      (0 < b.banSeq → bans.idxOf key + b.banSeq = l.banSeq) ∧
      0 ≤ b.points ∧ b.points + ds.sum ≤ o.points := by
  unfold found has
  cases hk : l.buckets.map.get? key with
  | none =>
    simp only [Option.isSome_none, Bool.false_eq_true, ↓reduceIte, List.sum_nil,
      add_zero]
    exact ⟨fun _ => le_refl _, fun hpos => absurd hpos (lt_irrefl _), hp, hle⟩
  | some b =>
    exact ⟨h.unplaced key b hk, h.order key b hk, h.allowance key b hk⟩

theorem before_eq (o : Options) (l : Limiter) (drawn : String → List ℚ) (key : String) (t : ℚ) :
    (if startsWindow l key t then [] else drawn key) =
      if !(found o l key o.points t).banned t && decide ((found o l key o.points t).resetAt ≤ t) then []
      else if l.buckets.map.has key then drawn key else [] := by
  unfold startsWindow found has
  cases hk : l.buckets.map.get? key with
  | none | some b => simp

/-- **`consume`** keeps the record. -/
theorem held_consume (h : Held o l bans drawn) (key : String) {cost : ℚ} (t : ℚ) :
    let r := consume o l key cost t
    let before := if startsWindow (cleanup l t) key t then [] else drawn key
    Held o r.2.2 (if r.1.placed then key :: bans else bans)
      (update drawn key (if r.1.result.allowed then cost :: before else before)) := by
  obtain ⟨hkept, hseq, hsize, -⟩ := cleanup_spec l t
  have hswept := h.of_kept hkept hseq hsize
  obtain ⟨hfound, hroom⟩ := bucketFor_spec hswept.bounded key o.points t
  obtain ⟨hunplaced, horder, hallow⟩ :=
    found_spec hswept key (Nat.cast_nonneg o.points) (le_refl _) t
  have hdraw := draw_ban o (found o (cleanup l t) key o.points t) cost t
    ((bucketFor o (cleanup l t) key o.points t).2.2.banSeq + 1)
  have hdrawn := draw_allowance cost t
    ((bucketFor o (cleanup l t) key o.points t).2.2.banSeq + 1) hallow
  simp only [before_eq o (cleanup l t) drawn key t]
  unfold consume
  simp only [hfound] at hroom hdrawn ⊢
  generalize (found o (cleanup l t) key o.points t).draw o cost t
    ((bucketFor o (cleanup l t) key o.points t).2.2.banSeq + 1) = r at *
  refine hswept.store hroom r.2 r.1.placed ?_ ?_ hdrawn
  · cases hp : r.1.placed with
    | true =>
      rw [if_pos hp] at hdraw
      intro hzero
      omega
    | false =>
      rw [if_neg (by simp [hp])] at hdraw
      rw [hdraw.1, hdraw.2]
      exact hunplaced
  · cases hp : r.1.placed with
    | true =>
      rw [if_pos hp] at hdraw
      rw [if_pos rfl, hdraw, hroom.banSeq]
    | false =>
      rw [if_neg (by simp [hp])] at hdraw
      rw [hdraw.1]
      exact horder

/-- **`ban`** keeps the record. -/
theorem held_ban (h : Held o l bans drawn) (key : String) (duration : Option ℚ) (t : ℚ) :
    Held o (ban o l key duration t).2 (key :: bans)
      (if l.buckets.map.has key then drawn else update drawn key []) := by
  obtain ⟨hfound, hroom⟩ := bucketFor_spec h.bounded key 0 t
  obtain ⟨-, -, hallow⟩ := found_spec h key (le_refl 0) (Nat.cast_nonneg _) t
  have hstore := h.store hroom { found o l key 0 t with
      bannedUntil := t + banDuration o duration, banSeq := l.banSeq + 1 } true
    (fun hzero => by simp at hzero) (by simp) hallow
  have hdrawn : update drawn key (if l.buckets.map.has key then drawn key else []) =
      if l.buckets.map.has key then drawn else update drawn key [] := by
    split
    · exact Function.update_eq_self _ _
    · rfl
  rw [hdrawn] at hstore
  unfold ban
  simp only [hfound, hroom.banSeq] at hstore ⊢
  exact hstore

/-- **Every call** keeps the record. -/
theorem held_next {s s' : State} {a : Action} (h : Held o s.limiter s.bans s.drawn)
    (hn : next o s a = some s') : Held o s'.limiter s'.bans s'.drawn := by
  cases a with
  | consume key cost t =>
    obtain ⟨-, hn⟩ := by simpa [next] using hn
    split at hn
    · cases hn
      exact held_consume h key t
    · cases hn
      exact h
  | ban key duration t =>
    obtain ⟨-, rfl⟩ := by simpa [next] using hn
    exact held_ban h key duration t
  | unban key =>
    cases hn
    simp only [unban]
    split
    · exact h
    rename_i b hb
    have hkey : key ∈ s.limiter.buckets.map.keys := JsMap.mem_keys_iff.mpr ⟨b, hb⟩
    have hget : ∀ k v, (s.limiter.buckets.set key { b with bannedUntil := 0 }).map.get? k = some v →
        k = key ∧ v = { b with bannedUntil := 0 } ∨ s.limiter.buckets.map.get? k = some v := by
      intro k v hv
      rw [Rotation.map_set, JsMap.get?_set] at hv
      split at hv
      · next heq => exact .inl ⟨heq, (Option.some.inj hv).symm⟩
      · exact .inr hv
    refine {
      bounded := ?_
      unplaced := fun k v hv => ?_
      order := fun k v hv hpos => ?_
      allowance := fun k v hv => ?_ }
    · simp only [Rotation.map_set, size_set, if_pos hkey]
      exact h.bounded
    · obtain ⟨rfl, rfl⟩ | hv := hget k v hv
      · exact fun _ => le_refl _
      · exact h.unplaced k v hv
    · obtain ⟨rfl, rfl⟩ | hv := hget k v hv
      · exact h.order k b hb hpos
      · exact h.order k v hv hpos
    · obtain ⟨rfl, rfl⟩ | hv := hget k v hv
      · exact h.allowance k b hb
      · exact h.allowance k v hv
  | reset key =>
    cases hn
    simp only [reset]
    split
    · refine h.of_kept (fun k b hb => ?_) rfl (JsMap.size_delete_le _ _)
      exact (JsMap.of_get?_delete hb).2
    · exact h
  | clear tenantId =>
    cases hn
    simp only [clear]
    split
    · next id hid =>
      have hdeleted : ∀ k b,
          (if o.budget = .tenant then s.limiter.buckets.map.delete id else s.limiter.buckets.map).get? k =
            some b → s.limiter.buckets.map.get? k = some b := by
        intro k b hb
        split at hb
        · exact (JsMap.of_get?_delete hb).2
        · exact hb
      have hsize : (if o.budget = .tenant then s.limiter.buckets.map.delete id
          else s.limiter.buckets.map).size ≤ s.limiter.buckets.map.size := by
        split
        · exact JsMap.size_delete_le _ _
        · exact le_refl _
      refine h.of_kept (fun k b hb => hdeleted k b ?_) rfl
        ((List.length_filter_le _ _).trans hsize)
      rw [JsMap.get?_filter] at hb
      split at hb
      · exact hb
      · cases hb
    · exact h.of_kept (fun k b hb => by cases hb) rfl (Nat.zero_le _)

/-- The time of a call that may evict. -/
def Action.time : Action → Option ℚ
  | .consume _ _ t | .ban _ _ t => some t
  | _ => none

theorem Room.oldest {l₀ l' : Limiter} {ev : Option Evicted}
    (hroom : Room o l key t b ev l') (h : Held o l₀ bans drawn) (hkept : Kept l₀ l)
    (hsample : 2 ≤ o.evictionSample) (hmax : 2 ≤ o.maxBuckets) (ht : 0 ≤ t) {v : Bucket}
    (hk : l.buckets.map.get? k = some v) (hv : v.banned t = true)
    (hold : ∀ k' b', k' ≠ k → l₀.buckets.map.get? k' = some b' → b'.banned t = true →
      bans.idxOf k' < bans.idxOf k) : ∃ v', l'.buckets.map.get? k = some v' := by
  -- a ban that is active was placed
  have hplaced : ∀ k' b', l₀.buckets.map.get? k' = some b' → b'.banned t = true → 0 < b'.banSeq := by
    intro k' b' hb' hban
    rcases Nat.eq_zero_or_pos b'.banSeq with hzero | hpos
    · have hle := h.unplaced k' b' hb' hzero
      have hlt : t < b'.bannedUntil := of_decide_eq_true hban
      linarith
    · exact hpos
  by_cases hkey : k = key
  · exact ⟨b, hkey ▸ hroom.stored⟩
  obtain hstays | ⟨e, hev, rfl⟩ := hroom.lost k hkey v hk
  · exact ⟨v, hstays⟩
  obtain ⟨hfull, w, htook⟩ := hroom.took e hev
  obtain rfl : v = w := Option.some.inj (hk.symm.trans htook.resident)
  have hebanned : e.banned = true := htook.banned ▸ hv
  obtain ⟨k', b', hne, hb', hban, hle⟩ := htook.other hebanned hsample (hmax.trans hfull)
  have hlt := hold k' b' hne (hkept k' b' hb') hban
  have h1 := h.order k' b' (hkept k' b' hb') (hplaced k' b' (hkept k' b' hb') hban)
  have h2 := h.order e.key v (hkept e.key v hk) (hplaced e.key v (hkept e.key v hk) hv)
  omega

/-- An eviction took an entry that it sampled, a ban only when all of those were
bans. -/
def Fair (e : Evicted) : Prop :=
  ∃ b, (e.key, b) ∈ e.sampled ∧ b.banned e.time = e.banned ∧
    (b.banned e.time = true → ∀ x ∈ e.sampled, x.2.banned e.time = true)

theorem Took.fair {e : Evicted} (h : Took o l t e b) : Fair e := by
  have hbanned := h.banned
  have hsampled := h.sampled
  rw [← h.time] at hbanned hsampled
  exact ⟨b, h.mem, hbanned, fun hb => hsampled (hbanned ▸ hb)⟩

/-- Two buckets, sampled two at a time. -/
def small : Options :=
  { points := 3, interval := 1000, blockDuration := 30000, budget := .principal, maxBuckets := 2
    evictionSample := 2, points_pos := by decide, interval_pos := by decide
    blockDuration_nonneg := by decide, maxBuckets_pos := Nat.two_pos
    evictionSample_pos := Nat.two_pos }

end BunServe.RateLimit.Eviction
