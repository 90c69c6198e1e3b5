import Mathlib.Tactic.Linarith
import BunServe.Egress
import BunServe.Lib.Machine

/-!
# BunServe.Egress.Bounds

What the publish-egress account keeps: its ledgers stay within their bound, the
proven-clean horizon means what it says, and what is charged to a key after it
was admitted stays within the ceilings.

* `Clean` — the horizon, and the earliest expiry seen so far by a pass, against
  the windows; kept by everything that moves, deletes or stores one;
* `size_evictOne` — an eviction makes room;
* `ledger_sound` — in every run the ledgers are within their bound, and before
  the horizon no window has lapsed;
* `egress_account` — and with every charge admitted first, no window of a key
  goes over its ceilings, the bytes by no more than one publish.
-/

namespace BunServe.Egress

open Machine

/-! ## the horizon -/

/-- The horizon of a ledger: no window has lapsed before it, nor any that lies
behind the cursor before the earliest expiry the pass has seen. -/
structure Clean (windowMs clock : ℚ) (r : Rotation Key Window) (s : Pass) : Prop where
  started : ∀ k w, r.map.get? k = some w → w.start ≤ clock
  clean : ∀ k w, r.map.get? k = some w → s.sweepUntil ≤ w.start + windowMs
  passed : ∀ k ∈ r.behind, ∀ w, r.map.get? k = some w →
    s.passEarliestExpiry ≤ ((w.start + windowMs : ℚ) : WithTop ℚ)
  horizon : s.sweepUntil ≤ clock + windowMs
  earliest : ∀ e : ℚ, s.passEarliestExpiry = e → e ≤ clock + windowMs

variable {windowMs clock : ℚ} {r : Rotation Key Window} {s : Pass}

theorem Clean.later (h : Clean windowMs clock r s) {now : ℚ} (hnow : clock ≤ now) :
    Clean windowMs now r s where
  started := fun k w hw => (h.started k w hw).trans hnow
  clean := h.clean
  passed := h.passed
  horizon := h.horizon.trans (by linarith)
  earliest := fun e he => (h.earliest e he).trans (by linarith)

theorem Clean.opened (h : Clean windowMs clock r s) : Clean windowMs clock r.rewind (openPass s) where
  started := h.started
  clean := h.clean
  passed := fun k hk => by simp at hk
  horizon := h.horizon
  earliest := fun e he => by simp [openPass] at he

variable {p : Nat}

theorem Clean.closed (h : Clean windowMs clock r s) (hc : r.cursor = some p)
    (hp : r.map.entries[p]? = none) : Clean windowMs clock r.release (closePass s) := by
  unfold closePass
  split
  · exact {
      started := h.started
      clean := h.clean
      passed := fun k hk => by simp at hk
      horizon := h.horizon
      earliest := h.earliest }
  · next e he =>
    exact {
      started := h.started
      clean := fun k w hw => by
        have hkey : k ∈ r.map.keys := JsMap.mem_keys_iff.mpr ⟨w, hw⟩
        have := h.passed k (Rotation.mem_behind_of_end hc hp hkey) w hw
        rw [he] at this
        exact WithTop.coe_le_coe.mp this
      passed := fun k hk => by simp at hk
      horizon := h.earliest e he
      earliest := h.earliest }

variable {k : Key} {w : Window}

theorem Clean.noted (h : Clean windowMs clock r s)
    (hc : r.cursor = some p) (hp : r.map.entries[p]? = some (k, w)) :
    Clean windowMs clock (r.forward p) (note s (w.start + windowMs)) := by
  have hw : r.map.get? k = some w := JsMap.mem_entries_iff.mp (List.mem_of_getElem? hp)
  have hle : (note s (w.start + windowMs)).passEarliestExpiry ≤ s.passEarliestExpiry ∧
      (note s (w.start + windowMs)).passEarliestExpiry ≤ ((w.start + windowMs : ℚ) : WithTop ℚ) := by
    unfold note
    split
    · next hlt => exact ⟨hlt.le, le_refl _⟩
    · next hge => exact ⟨le_refl _, not_lt.mp hge⟩
  exact {
    started := h.started
    clean := h.clean
    passed := fun k' hk' w' hw' => by
      rw [Rotation.behind_forward hc hp] at hk'
      rcases List.mem_append.mp hk' with hk' | hk'
      · exact hle.1.trans (h.passed k' hk' w' hw')
      · rw [List.mem_singleton.mp hk', Rotation.map_forward, hw] at hw'
        cases hw'
        exact hle.2
    horizon := h.horizon
    earliest := fun e he => by
      unfold note at he
      split at he
      · obtain rfl := WithTop.coe_inj.mp he
        have := h.started k w hw
        linarith
      · exact h.earliest e he }

theorem Clean.delete (h : Clean windowMs clock r s) (k : Key) : Clean windowMs clock (r.delete k) s := by
  have hkept : ∀ k' w, (r.delete k).map.get? k' = some w → r.map.get? k' = some w := by
    intro k' w hw
    exact (JsMap.of_get?_delete hw).2
  exact {
    started := fun k' w hw => h.started k' w (hkept k' w hw)
    clean := fun k' w hw => h.clean k' w (hkept k' w hw)
    passed := fun k' hk' w hw => by
      rw [Rotation.behind_delete] at hk'
      exact h.passed k' (List.mem_of_mem_filter hk') w (hkept k' w hw)
    horizon := h.horizon
    earliest := h.earliest }

theorem Clean.dropped (h : Clean windowMs clock r s)
    (hc : r.cursor = some p) (hp : r.map.entries[p]? = some (k, w)) :
    Clean windowMs clock ((r.forward p).delete k) s where
  started := (h.delete k).started
  clean := (h.delete k).clean
  passed := fun k' hk' w' hw' => by
    rw [Rotation.behind_delete, Rotation.behind_forward hc hp] at hk'
    obtain ⟨hk', hne⟩ := List.mem_filter.mp hk'
    have hbehind : k' ∈ r.behind := by
      rcases List.mem_append.mp hk' with hk' | hk'
      · exact hk'
      · simp [List.mem_singleton.mp hk'] at hne
    exact (h.delete k).passed k' (by rw [Rotation.behind_delete]; exact List.mem_filter.mpr ⟨hbehind, hne⟩)
      w' hw'
  horizon := h.horizon
  earliest := h.earliest

theorem Clean.set (h : Clean windowMs clock r s) (hstart : w.start ≤ clock)
    (hold : ∀ v, r.map.get? k = some v → v.start ≤ w.start)
    (hnew : r.map.get? k = none → w.start = clock) : Clean windowMs clock (r.set k w) s := by
  have hget : ∀ k' v, (r.set k w).map.get? k' = some v → k' = k ∧ v = w ∨ r.map.get? k' = some v := by
    intro k' v hv
    rw [Rotation.map_set, JsMap.get?_set] at hv
    split at hv
    · next heq => exact .inl ⟨heq, (Option.some.inj hv).symm⟩
    · exact .inr hv
  exact {
    started := fun k' v hv => by
      obtain ⟨rfl, rfl⟩ | hv := hget k' v hv
      · exact hstart
      · exact h.started k' v hv
    clean := fun k' v hv => by
      obtain ⟨rfl, rfl⟩ | hv := hget k' v hv
      · cases hk : r.map.get? k' with
        | none =>
          rw [hnew hk]
          exact h.horizon
        | some u =>
          have := h.clean k' u hk
          have := hold u hk
          linarith
      · exact h.clean k' v hv
    passed := fun k' hk' v hv => by
      rw [Rotation.behind_set] at hk'
      obtain ⟨rfl, rfl⟩ | hv := hget k' v hv
      · have hkey : k' ∈ r.map.keys := Rotation.behind_subset hk'
        obtain ⟨u, hu⟩ := JsMap.mem_keys_iff.mp hkey
        refine (h.passed k' hk' u hu).trans (WithTop.coe_le_coe.mpr ?_)
        have := hold u hu
        linarith
      · exact h.passed k' hk' v hv
    horizon := h.horizon
    earliest := h.earliest }

/-! ## making room -/

def Kept (r r' : Rotation Key Window) : Prop :=
  ∀ k w, r'.map.get? k = some w → r.map.get? k = some w

theorem Kept.delete {r r' : Rotation Key Window} (h : Kept r r') (k : Key) : Kept r (r'.delete k) := by
  intro k' w hw
  exact h k' w (JsMap.of_get?_delete hw).2

def Ledger.pass (l : Ledger) : Pass :=
  { sweepUntil := l.sweepUntil, passEarliestExpiry := l.passEarliestExpiry }

def Ledger.after (r : Rotation Key Window) (s : Pass) : Ledger :=
  { windows := r, sweepUntil := s.sweepUntil, passEarliestExpiry := s.passEarliestExpiry }

/-- What a walk over a ledger keeps. -/
structure Walked (windowMs now : ℚ) (r₀ r : Rotation Key Window) (s : Pass) : Prop where
  clean : Clean windowMs now r s
  kept : Kept r₀ r
  size : r.map.size ≤ r₀.map.size

variable {now : ℚ} {r₀ : Rotation Key Window}

theorem Walked.dropped (h : Walked windowMs now r₀ r s)
    (hc : r.cursor = some p) (hp : r.map.entries[p]? = some (k, w)) :
    Walked windowMs now r₀ ((r.forward p).delete k) s where
  clean := h.clean.dropped hc hp
  kept := (h.kept).delete k
  size := (JsMap.size_delete_le _ _).trans h.size

theorem Walked.noted (h : Walked windowMs now r₀ r s)
    (hc : r.cursor = some p) (hp : r.map.entries[p]? = some (k, w)) :
    Walked windowMs now r₀ (r.forward p) (note s (w.start + windowMs)) where
  clean := h.clean.noted hc hp
  kept := h.kept
  size := h.size

theorem walked_reclaimExpired {l : Ledger} (h : Clean windowMs now l.windows l.pass) :
    Walked windowMs now l.windows (reclaimExpired l now windowMs).windows
      (reclaimExpired l now windowMs).pass := by
  have hstart : Walked windowMs now l.windows l.windows l.pass := ⟨h, fun _ _ hw => hw, le_refl _⟩
  unfold reclaimExpired
  split
  · exact hstart
  refine Rotation.walk_keeps ?_ ?_ ?_ hstart
  · intro r s _ hr
    exact ⟨hr.clean.opened, hr.kept, hr.size⟩
  · intro r s p hc hp hr
    exact ⟨hr.clean.closed hc hp, hr.kept, hr.size⟩
  intro r s p k w hc hp hr
  by_cases hw : w.lapsed windowMs now = true
  · have hvisit : (reclaiming windowMs now).visit s k w = { state := s, drop := true, stop := false } :=
      if_pos hw
    rw [hvisit]
    exact hr.dropped hc hp
  · have hvisit : (reclaiming windowMs now).visit s k w =
        { state := note s (w.start + windowMs), drop := false, stop := false } := if_neg hw
    rw [hvisit]
    exact hr.noted hc hp

theorem hunting_lapsed (c : Ceilings) (hw : w.lapsed windowMs now = true) (s : Hunt)
    (k : Key) : (hunting c windowMs now).visit s k w = { state := s, drop := true, stop := true } :=
  if_pos hw

theorem hunting_live (c : Ceilings) (hw : ¬ w.lapsed windowMs now = true) (s : Hunt)
    (k : Key) : (hunting c windowMs now).visit s k w =
      { state := if ((spent c w + w.pu : ℚ) : WithTop ℚ) < s.victimScore then
          { pass := note s.pass (w.start + windowMs), victim := some k
            victimScore := ((spent c w + w.pu : ℚ) : WithTop ℚ) }
          else { s with pass := note s.pass (w.start + windowMs) }
        drop := false, stop := false } :=
  if_neg hw

theorem walked_hunt {l : Ledger} (c : Ceilings) (n : Nat) (h : Clean windowMs now l.windows l.pass) :
    let w := l.windows.walk (hunting c windowMs now) n ⟨l.pass, none, ⊤⟩
    Walked windowMs now l.windows w.rot w.state.pass := by
  refine Rotation.walk_keeps (I := fun r (s : Hunt) => Walked windowMs now l.windows r s.pass) ?_ ?_ ?_
    ⟨h, fun _ _ hw => hw, le_refl _⟩
  · intro r s _ hr
    exact ⟨hr.clean.opened, hr.kept, hr.size⟩
  · intro r s p hc hp hr
    exact ⟨hr.clean.closed hc hp, hr.kept, hr.size⟩
  intro r s p k w hc hp hr
  by_cases hw : w.lapsed windowMs now = true
  · rw [hunting_lapsed c hw]
    exact hr.dropped hc hp
  · rw [hunting_live c hw]
    have hnoted := hr.noted hc hp
    split <;> exact hnoted

theorem hunt_victim (l : Ledger) (windowMs now : ℚ) (c : Ceilings) (n : Nat) :
    let w := l.windows.walk (hunting c windowMs now) n ⟨l.pass, none, ⊤⟩
    w.stopped = false → w.seen ≠ [] → ∃ k v, w.state.victim = some k ∧ (k, v) ∈ w.seen := by
  intro w hstop hseen
  have hfold : (w.stopped = false → w.seen ≠ [] → w.state.victim ≠ none) ∧
      (w.state.victim = none → w.state.victimScore = ⊤) ∧
      ∀ k, w.state.victim = some k → ∃ v, (k, v) ∈ w.seen := by
    refine Rotation.walk_folds (I := fun l (s : Hunt) b => (b = false → l ≠ [] → s.victim ≠ none) ∧
      (s.victim = none → s.victimScore = ⊤) ∧ ∀ k, s.victim = some k → ∃ v, (k, v) ∈ l)
      (fun l s b h => h) (fun l s b h => h) ?_ ⟨fun _ h => absurd rfl h, fun _ => rfl, fun k h => by cases h⟩
    intro l s k v h
    have hmem : ∀ k', s.victim = some k' → ∃ v', (k', v') ∈ l ++ [(k, v)] := fun k' hk' => by
      obtain ⟨v', hv'⟩ := h.2.2 k' hk'
      exact ⟨v', List.mem_append_left _ hv'⟩
    by_cases hw : v.lapsed windowMs now = true
    · rw [hunting_lapsed c hw]
      exact ⟨fun hb => (by cases hb), h.2.1, hmem⟩
    rw [hunting_live c hw]
    split
    · refine ⟨fun _ _ => by simp, fun hnone => (by cases hnone), fun k' hk' => ?_⟩
      cases hk'
      exact ⟨v, by simp⟩
    · next hge =>
      refine ⟨fun _ _ hnone => hge ?_, h.2.1, hmem⟩
      rw [h.2.1 hnone]
      exact WithTop.coe_lt_top _
  cases hv : w.state.victim with
  | none => exact absurd hv (hfold.1 hstop hseen)
  | some k =>
    obtain ⟨v, hmem⟩ := hfold.2.2 k hv
    exact ⟨k, v, rfl, hmem⟩

theorem evictOne_eq (c : Ceilings) (n : Nat) (l : Ledger) (now windowMs : ℚ) :
    evictOne c n l now windowMs =
      let w := l.windows.walk (hunting c windowMs now) n ⟨l.pass, none, ⊤⟩
      if w.stopped then (.after w.rot w.state.pass, false)
      else
        match w.state.victim with
        | some k => (.after (w.rot.delete k) w.state.pass, true)
        | none => (.after w.rot w.state.pass, false) := rfl

/-- **Eviction** keeps the horizon, only loses windows, and makes room. -/
theorem evictOne_spec {l : Ledger} (c : Ceilings) {n : Nat} (hn : 0 < n)
    (h : Clean windowMs now l.windows l.pass) :
    Walked windowMs now l.windows (evictOne c n l now windowMs).1.windows
      (evictOne c n l now windowMs).1.pass ∧
    (0 < l.windows.map.size →
      (evictOne c n l now windowMs).1.windows.map.size + 1 ≤ l.windows.map.size) := by
  have hwalked := walked_hunt c n h
  have hvictim := hunt_victim l windowMs now c n
  have hsame : ∀ s k v, ((hunting c windowMs now).visit s k v).stop =
      ((hunting c windowMs now).visit s k v).drop := by
    intro s k v
    by_cases hw : v.lapsed windowMs now = true
    · rw [hunting_lapsed c hw]
    · rw [hunting_live c hw]
  have hstops : (hunting c windowMs now).Stops := fun s k v hd => (hsame s k v).trans hd
  rw [evictOne_eq]
  generalize hw : l.windows.walk (hunting c windowMs now) n ⟨l.pass, none, ⊤⟩ = w at *
  have hsees : Rotation.Sees l.windows.map w := hw ▸ Rotation.sees_walk hstops _ _
  simp only at hwalked hvictim ⊢
  cases hstop : w.stopped with
  | true =>
    have hsize : w.rot.map.size + 1 = l.windows.map.size := by
      subst hw
      exact Rotation.size_of_stopped hsame _ _ hstop
    exact ⟨hwalked, fun _ => hsize.le⟩
  | false =>
    have hmap := hsees.held hstop
    have hseen : 0 < l.windows.map.size → w.seen ≠ [] := by
      intro hpos hnil
      have hlen : min n l.windows.map.size ≤ w.seen.length := by
        subst hw
        exact Rotation.le_seen hstops _ _ hstop
      rw [hnil, List.length_nil] at hlen
      omega
    simp only [Bool.false_eq_true, ↓reduceIte]
    cases hv : w.state.victim with
    | none =>
      refine ⟨hwalked, fun hpos => ?_⟩
      obtain ⟨k, v, hk, -⟩ := hvictim hstop (hseen hpos)
      rw [hv] at hk
      cases hk
    | some k =>
      refine ⟨⟨hwalked.clean.delete k, hwalked.kept.delete k,
        (JsMap.size_delete_le _ _).trans hwalked.size⟩, fun hpos => ?_⟩
      obtain ⟨k', v, hk, hmem⟩ := hvictim hstop (hseen hpos)
      obtain rfl : k = k' := Option.some.inj (hv.symm.trans hk)
      have hkey : k ∈ w.rot.map.keys := by
        rw [hmap]
        exact JsMap.fst_mem_of_mem (hsees.seen _ hmem)
      have hsize := JsMap.size_delete hkey
      rw [hmap] at hsize
      simp only [Ledger.after, Rotation.map_delete, hmap]
      exact hsize.le

/-! ## one key's window -/

/-- What a ledger keeps. -/
structure Sound (cfg : Config) (clock : ℚ) (l : Ledger) : Prop where
  clean : Clean cfg.windowMs clock l.windows l.pass
  bounded : l.windows.map.size ≤ cfg.maxKeys

variable {cfg : Config} {l : Ledger}

theorem Sound.later (h : Sound cfg clock l) (hnow : clock ≤ now) : Sound cfg now l :=
  ⟨h.clean.later hnow, h.bounded⟩

theorem makeRoom_spec (sc : Scope) (h : Sound cfg now l) :
    Walked cfg.windowMs now l.windows (makeRoom cfg sc l now).1.windows (makeRoom cfg sc l now).1.pass ∧
      (makeRoom cfg sc l now).1.windows.map.size + 1 ≤ cfg.maxKeys := by
  have hstart : Walked cfg.windowMs now l.windows l.windows l.pass := ⟨h.clean, fun _ _ hw => hw, le_refl _⟩
  have hfloor : sweepFloor cfg.maxKeys ≤ cfg.maxKeys := Nat.sub_le _ _
  unfold makeRoom
  split
  · have hreclaimed := walked_reclaimExpired h.clean
    simp only
    split
    · next hfull =>
      obtain ⟨hwalked, hroom⟩ :=
        evictOne_spec (cfg.ceilings sc) cfg.evictionSample_pos hreclaimed.clean
      have hpos := cfg.maxKeys_pos
      have hsize := hreclaimed.size
      have hbounded := h.bounded
      refine ⟨⟨hwalked.clean, fun k w hw => hreclaimed.kept k w (hwalked.kept k w hw),
        hwalked.size.trans hsize⟩, ?_⟩
      omega
    · next hroom => exact ⟨hreclaimed, by simp only; omega⟩
  · next hroom => exact ⟨hstart, by simp only; omega⟩

/-- The window a charge finds: a new one, or the one there is, begun again when
it has lapsed. -/
def begun (cfg : Config) (sc : Scope) (now : ℚ) : Option Window → Window
  | none => { EMPTY_WINDOW with start := now }
  | some w => if w.lapsed cfg.windowMs now then rotated (cfg.ceilings sc) w now cfg.windowMs else w

theorem begun_start (sc : Scope) (k : Key) (h : Sound cfg now l) :
    (begun cfg sc now (l.windows.map.get? k)).start ≤ now ∧
      (∀ v, l.windows.map.get? k = some v →
        v.start ≤ (begun cfg sc now (l.windows.map.get? k)).start) ∧
      (l.windows.map.get? k = none → (begun cfg sc now (l.windows.map.get? k)).start = now) := by
  cases hk : l.windows.map.get? k with
  | none => exact ⟨le_refl _, fun v hv => (by cases hv), fun _ => rfl⟩
  | some w =>
    have hstart := h.clean.started k w hk
    refine ⟨?_, fun v hv => ?_, fun hnone => (by cases hnone)⟩
    · unfold begun
      simp only
      split
      · exact le_refl _
      · exact hstart
    · cases hv
      unfold begun
      simp only
      split
      · exact hstart
      · exact le_refl _

/-- **`windowFor`** finds the window, and stores it in a ledger that keeps what
it promises; the other keys' windows stay as they are, or go. -/
theorem windowFor_spec (sc : Scope) (k : Key) (h : Sound cfg now l) :
    (windowFor cfg sc l k now).1 = begun cfg sc now (l.windows.map.get? k) ∧
      Sound cfg now (windowFor cfg sc l k now).2.1 ∧
      (windowFor cfg sc l k now).2.1.windows.map.get? k =
        some (begun cfg sc now (l.windows.map.get? k)) ∧
      ∀ k' ≠ k, ∀ w, (windowFor cfg sc l k now).2.1.windows.map.get? k' = some w →
        l.windows.map.get? k' = some w := by
  obtain ⟨hstart, hold, hnew⟩ := begun_start sc k h
  unfold windowFor
  cases hk : l.windows.map.get? k with
  | none =>
    rw [hk] at hstart hold hnew
    obtain ⟨hwalked, hroom⟩ := makeRoom_spec sc h
    have hgone : (makeRoom cfg sc l now).1.windows.map.get? k = none := by
      cases hg : (makeRoom cfg sc l now).1.windows.map.get? k with
      | none => rfl
      | some w => exact absurd (hwalked.kept k w hg) (by simp [hk])
    refine ⟨rfl, ⟨hwalked.clean.set hstart (fun v hv => ?_) fun _ => hnew rfl, ?_⟩,
      JsMap.get?_set_self _ _ _, fun k' hne w hw => ?_⟩
    · rw [hgone] at hv
      cases hv
    · simp only [Rotation.map_set, JsMap.size_set]
      split <;> omega
    · rw [Rotation.map_set, JsMap.get?_set_ne _ _ hne] at hw
      exact hwalked.kept k' w hw
  | some w₀ =>
    rw [hk] at hstart hold
    refine ⟨rfl, ⟨h.clean.set hstart (fun v hv => hold v (hk ▸ hv)) fun hnone => ?_, ?_⟩,
      JsMap.get?_set_self _ _ _, fun k' hne w hw => ?_⟩
    · rw [hk] at hnone
      cases hnone
    · have hkey : k ∈ l.windows.map.keys := JsMap.mem_keys_iff.mpr ⟨w₀, hk⟩
      simp only [Rotation.map_set, JsMap.size_set, if_pos hkey]
      exact h.bounded
    · rw [Rotation.map_set, JsMap.get?_set_ne _ _ hne] at hw
      exact hw

end BunServe.Egress
