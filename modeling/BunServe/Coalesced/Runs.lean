import BunServe.Coalesced

/-!
# BunServe.Coalesced.Runs

What holds of coalesced sends however the calls, the answers of serialisers and
sockets, the drains and the timers interleave.

* `Rest.next` — the running drains are of different maps and are the ones the
  module variables name; a drain leaves behind it only keys whose values came too
  fast, and where no drain is running a pending value has something that wakes it.
* `Kept.next` — no value is lost, and none is handed to the socket after a newer
  one of its key.
* `coalesced_sends` — both for every run.
-/

namespace BunServe.Coalesced

variable {K V : Type} [DecidableEq K] {envelopePrefix : String → String → Option String}

/-! ## connections -/

variable {w ws : Socket}

section
omit [DecidableEq K]

@[simp] theorem setConn_self (s : State K V) (ws : Socket) (conn : Conn K V) :
    (s.setConn ws conn).conns ws = conn := by
  simp [State.setConn]

theorem setConn_ne (s : State K V) (conn : Conn K V) (h : w ≠ ws) :
    (s.setConn ws conn).conns w = s.conns w := by
  simp [State.setConn, h]

@[simp] theorem setPending_self (s : State K V) (ws : Socket) (p : Rotation K (Entry V)) :
    (s.setPending ws p).conns ws = { s.conns ws with pending := p } := setConn_self _ _ _

theorem setPending_ne (s : State K V) (p : Rotation K (Entry V)) (h : w ≠ ws) :
    (s.setPending ws p).conns w = s.conns w := setConn_ne _ _ h

end

/-! ## the running drains -/

abbrev State.drains (s : State K V) : List Drain := s.frames.map Frame.drain

/-- Every drain was begun inside the next one. -/
def Links : List Drain → Prop
  | [] => True
  | d :: ds => d.previous = (ds.map Drain.ws).head? ∧ Links ds

/-- Behind the iterator there is only the key being sent, once the drain yielded
also what was given up. -/
def Passed (s : State K V) (f : Frame K V) : Prop :=
  ∀ k ∈ (s.conns f.drain.ws).pending.behind, k = f.key ∨ f.drain.yielded = true

/-- These drains are running, of maps of their own, and the module variables and
the iterators say so. -/
structure Sound (s : State K V) (ds : List Drain) : Prop where
  nodup : (ds.map Drain.ws).Nodup
  draining : s.drainingCoalesced = (ds.map Drain.ws).head?
  parents_nodup : s.parentDrains.Nodup
  parents : ∀ w, w ∈ s.parentDrains ↔ w ∈ (ds.map Drain.ws).tail
  links : Links ds
  cursor : ∀ w, (s.conns w).pending.cursor.isSome = true ↔ w ∈ ds.map Drain.ws
  bound : ∀ d ∈ ds, d.sends + d.remaining ≤ 2 * d.initial
  passed : ∀ f ∈ s.frames, Passed s f
  gone : ∀ w, (s.conns w).detached = true → (s.conns w).closed = true

/-- What is pending is being drained, or something will wake it, or it can never go
out. -/
def Awake (s : State K V) (ds : List Drain) (w : Socket) : Prop :=
  w ∈ ds.map Drain.ws ∨ (s.conns w).pending.map.entries = [] ∨ (s.conns w).pressured = true ∨
    (s.conns w).continuation = true ∨ (s.conns w).closed = true

/-- Between two actions. -/
structure Rest (s : State K V) : Prop where
  sound : Sound s s.drains
  awake : ∀ w, Awake s s.drains w

variable {s : State K V} {ds : List Drain} {d : Drain} {f : Frame K V}

section
omit [DecidableEq K]

/-- A connection may change in what the drains do not look at, and its map as long
as the iterator stays and nothing comes to lie behind it. -/
theorem Sound.setConn (h : Sound s ds) {conn : Conn K V}
    (hcursor : conn.pending.cursor.isSome = (s.conns ws).pending.cursor.isSome)
    (hpassed : ∀ f ∈ s.frames, f.drain.ws = ws →
      ∀ k ∈ conn.pending.behind, k = f.key ∨ f.drain.yielded = true)
    (hgone : conn.detached = true → conn.closed = true) : Sound (s.setConn ws conn) ds := by
  refine { nodup := h.nodup, draining := h.draining, parents_nodup := h.parents_nodup,
           parents := h.parents, links := h.links, bound := h.bound, cursor := fun w => ?_,
           passed := fun f hf => ?_, gone := fun w => ?_ }
  · by_cases hw : w = ws
    · subst hw
      rw [setConn_self, hcursor]
      exact h.cursor w
    · rw [setConn_ne _ _ hw]
      exact h.cursor w
  · unfold Passed
    by_cases hw : f.drain.ws = ws
    · rw [hw, setConn_self]
      exact hpassed f hf hw
    · rw [setConn_ne _ _ hw]
      exact h.passed f hf
  · by_cases hw : w = ws
    · subst hw
      rw [setConn_self]
      exact hgone
    · rw [setConn_ne _ _ hw]
      exact h.gone w

theorem Sound.setFlags (h : Sound s ds) (ws : Socket)
    (conn : Conn K V) (hpending : conn.pending = (s.conns ws).pending)
    (hgone : conn.detached = true → conn.closed = true) : Sound (s.setConn ws conn) ds := by
  refine h.setConn (by rw [hpending]) (fun f hf hw => ?_) hgone
  have hpassed := h.passed f hf
  unfold Passed at hpassed
  rw [hpending]
  rw [hw] at hpassed
  exact hpassed

theorem Sound.top_ne (h : Sound s (d :: s.drains)) (hf : f ∈ s.frames) : f.drain.ws ≠ d.ws := by
  intro heq
  have hnodup := h.nodup
  rw [List.map_cons, List.nodup_cons] at hnodup
  exact hnodup.1 (List.mem_map.mpr ⟨f.drain, List.mem_map_of_mem hf, heq⟩)

theorem Sound.setPending (h : Sound s (d :: s.drains))
    {p : Rotation K (Entry V)} (hcursor : p.cursor.isSome = true) :
    Sound (s.setPending d.ws p) (d :: s.drains) := by
  refine h.setConn ?_ (fun f hf hw => absurd hw (h.top_ne hf)) (h.gone d.ws)
  rw [hcursor]
  exact ((h.cursor d.ws).mpr (by simp)).symm

theorem Sound.top {d' : Drain} (h : Sound s (d :: ds))
    (hws : d'.ws = d.ws) (hprevious : d'.previous = d.previous)
    (hbound : d'.sends + d'.remaining ≤ 2 * d'.initial) : Sound s (d' :: ds) := by
  have hmap : (d' :: ds).map Drain.ws = (d :: ds).map Drain.ws := by simp [hws]
  refine { nodup := by rw [hmap]; exact h.nodup, draining := by rw [hmap]; exact h.draining,
           parents_nodup := h.parents_nodup, parents := by rw [hmap]; exact h.parents,
           links := ⟨by rw [hprevious]; exact h.links.1, h.links.2⟩,
           cursor := by rw [hmap]; exact h.cursor, bound := ?_, passed := h.passed,
           gone := h.gone }
  intro x hx
  rcases List.mem_cons.mp hx with rfl | hx
  · exact hbound
  · exact h.bound x (List.mem_cons_of_mem _ hx)

theorem Awake.setConn_ne {conn : Conn K V}
    (h : Awake s ds w) (hw : w ≠ ws) : Awake (s.setConn ws conn) ds w := by
  unfold Awake
  rw [Coalesced.setConn_ne _ _ hw]
  exact h

theorem Awake.cons (h : Awake s ds w) (d : Drain) :
    Awake s (d :: ds) w := h.imp (fun hm => by simp [hm]) id

end

/-! ## the end of a drain -/

variable {aborted : Bool}

section
omit [DecidableEq K]

theorem finish_self (s : State K V) (d : Drain) (answer aborted : Bool) :
    (finish s d answer aborted).conns d.ws =
      { s.conns d.ws with
        pending := if aborted then .empty else (s.conns d.ws).pending.release
        continuation := (s.conns d.ws).continuation || (!aborted && answer) } := by
  simp [finish]

theorem finish_ne (s : State K V) (answer aborted : Bool) (h : w ≠ d.ws) :
    (finish s d answer aborted).conns w = s.conns w := by
  simp [finish, State.setConn, h]

theorem Sound.finish (h : Sound s (d :: s.drains))
    (answer aborted : Bool) : Sound (finish s d answer aborted) s.drains := by
  have hnodup := h.nodup
  rw [List.map_cons, List.nodup_cons] at hnodup
  obtain ⟨hnew, hnodup⟩ := hnodup
  obtain ⟨hprevious, hlinks⟩ := h.links
  have hparents : ∀ w, w ∈ s.parentDrains ↔ w ∈ s.drains.map Drain.ws := h.parents
  refine { nodup := hnodup, draining := hprevious, parents_nodup := ?_, parents := fun w => ?_,
           links := hlinks, cursor := fun w => ?_,
           bound := fun x hx => h.bound x (List.mem_cons_of_mem _ hx),
           passed := fun f hf => ?_, gone := fun w => ?_ }
  · simp only [Coalesced.finish]
    split
    · exact h.parents_nodup
    · exact h.parents_nodup.erase _
  · simp only [Coalesced.finish]
    cases hws : s.drains.map Drain.ws with
    | nil =>
      rw [hws] at hprevious hparents
      rw [hprevious]
      exact hparents w
    | cons x xs =>
      rw [hws] at hprevious hparents hnodup
      rw [hprevious]
      show w ∈ s.parentDrains.erase x ↔ w ∈ xs
      rw [h.parents_nodup.mem_erase_iff, hparents, List.mem_cons]
      have hx := (List.nodup_cons.mp hnodup).1
      constructor
      · rintro ⟨hne, heq | hm⟩
        · exact absurd heq hne
        · exact hm
      · exact fun hm => ⟨fun heq => hx (heq ▸ hm), .inr hm⟩
  · by_cases hw : w = d.ws
    · subst hw
      rw [finish_self]
      refine ⟨fun hsome => ?_, fun hm => absurd hm hnew⟩
      cases aborted <;> simp [Rotation.release, Rotation.empty] at hsome
    · rw [finish_ne _ _ _ hw, h.cursor w, List.map_cons, List.mem_cons]
      exact ⟨fun hm => hm.resolve_left hw, .inr⟩
  · unfold Passed
    rw [finish_ne _ _ _ (h.top_ne hf)]
    exact h.passed f hf
  · by_cases hw : w = d.ws
    · subst hw
      rw [finish_self]
      exact h.gone d.ws
    · rw [finish_ne _ _ _ hw]
      exact h.gone w

theorem Rest.finish (h : Sound s (d :: s.drains))
    (ha : ∀ w, w ≠ d.ws → Awake s s.drains w) {answer : Bool}
    (hend : aborted = true ∨ answer = true ∨ (s.conns d.ws).pending.map.entries = [] ∨
      (s.conns d.ws).pressured = true) : Rest (finish s d answer aborted) := by
  refine { sound := h.finish answer aborted, awake := fun w => ?_ }
  by_cases hw : w = d.ws
  · subst hw
    refine .inr ?_
    rw [finish_self]
    cases aborted with
    | true => exact .inl rfl
    | false =>
      obtain hend | hend | hend | hend := hend
      · cases hend
      · simp [hend]
      · exact .inl hend
      · exact .inr (.inl hend)
  · unfold Awake
    rw [finish_ne _ _ _ hw]
    exact ha w hw

end

/-! ## the loops -/

section
omit [DecidableEq K]

theorem Rest.visit (h : Sound s (d :: s.drains))
    (ha : ∀ w, w ≠ d.ws → Awake s s.drains w) {key : K} {value : Entry V} {retried : Bool}
    (hpassed : ∀ k ∈ (s.conns d.ws).pending.behind, k = key ∨ d.yielded = true) :
    Rest (visit s d key value retried) := by
  unfold Coalesced.visit
  split
  · exact Rest.finish h ha (.inr (.inl rfl))
  have hbound := h.bound d (by simp)
  have htop : Sound s ({ d with remaining := d.remaining - 1, sends := d.sends + 1 } :: s.drains) :=
    h.top rfl rfl (by simp; omega)
  refine { sound := { htop with passed := fun f hf => ?_ }, awake := fun w => ?_ }
  · rcases List.mem_cons.mp hf with rfl | hf
    · exact hpassed
    · exact htop.passed f hf
  · by_cases hw : w = d.ws
    · exact .inl (by simp [hw])
    · exact (ha w hw).cons _

theorem Rest.advance (h : Sound s (d :: s.drains)) (ha : ∀ w, w ≠ d.ws → Awake s s.drains w)
    (hpassed : ∀ k ∈ (s.conns d.ws).pending.behind, d.yielded = true) : Rest (advance s d) := by
  obtain ⟨p, hp⟩ := Option.isSome_iff_exists.mp ((h.cursor d.ws).mpr (by simp))
  unfold Coalesced.advance
  simp only [hp]
  cases hentry : (s.conns d.ws).pending.map.entries[p]? with
  | none =>
    refine Rest.finish h ha ?_
    cases hyielded : d.yielded with
    | true => exact .inr (.inl rfl)
    | false =>
      refine .inr (.inr (.inl ?_))
      have hnone : ∀ k, k ∉ (s.conns d.ws).pending.map.keys := fun k hk => by
        have := hpassed k (Rotation.mem_behind_of_end hp hentry hk)
        rw [hyielded] at this
        cases this
      have hkeys : (s.conns d.ws).pending.map.keys = [] := List.eq_nil_iff_forall_not_mem.mpr hnone
      simpa [JsMap.keys] using hkeys
  | some kv =>
    have hmoved := h.setPending (p := (s.conns d.ws).pending.forward p) rfl
    refine Rest.visit hmoved (fun w hw => (ha w hw).setConn_ne hw) fun k hk => ?_
    rw [setPending_self] at hk
    rw [Rotation.behind_forward hp hentry] at hk
    rcases List.mem_append.mp hk with hk | hk
    · exact .inr (hpassed k hk)
    · exact .inl (List.mem_singleton.mp hk)

end

theorem Rest.returned (h : Sound s (f.drain :: s.drains))
    (ha : ∀ w, w ≠ f.drain.ws → Awake s s.drains w) (hp : Passed s f) {result : Status}
    (hr : result ≠ .success → aborted = true ∨
      (s.conns f.drain.ws).pressured = true) : Rest (returned s f result aborted) := by
  have hend : result ≠ .success → aborted = true ∨ false = true ∨
      (s.conns f.drain.ws).pending.map.entries = [] ∨ (s.conns f.drain.ws).pressured = true :=
    fun hne => (hr hne).imp id fun hpressured => .inr (.inr hpressured)
  unfold Coalesced.returned
  by_cases hdropped : result = .dropped
  · rw [if_pos hdropped]
    exact Rest.finish h ha (hend (by simp [hdropped]))
  rw [if_neg hdropped]
  by_cases hcurrent : current s f.drain.ws f.key f.value = true
  · rw [if_pos hcurrent]
    -- the value went out, or has no JSON form, and is deleted
    have hdeleted := h.setPending (p := (s.conns f.drain.ws).pending.delete f.key) (by
      have := (h.cursor f.drain.ws).mpr (by simp)
      simpa [Rotation.delete] using this)
    have hawake : ∀ w, w ≠ f.drain.ws → Awake (s.setPending f.drain.ws
        ((s.conns f.drain.ws).pending.delete f.key)) s.drains w :=
      fun w hw => (ha w hw).setConn_ne hw
    split
    · next hback =>
      refine Rest.finish hdeleted hawake ?_
      rw [setPending_self]
      exact (hr (by simp [hback])).imp id fun hpressured => .inr (.inr hpressured)
    · refine Rest.advance hdeleted hawake fun k hk => ?_
      rw [setPending_self] at hk
      rw [Rotation.behind_delete, List.mem_filter] at hk
      exact (hp k hk.1).resolve_left (by simpa using hk.2)
  · rw [if_neg hcurrent]
    split
    · next hback => exact Rest.finish h ha (hend (by simp [hback]))
    split
    · next hnone =>
      refine Rest.advance h ha fun k hk => (hp k hk).resolve_left ?_
      rintro rfl
      exact JsMap.get?_eq_none_iff.mp hnone (Rotation.behind_subset hk)
    · split
      · have hyielded : Sound s ({ f.drain with yielded := true } :: s.drains) :=
          h.top rfl rfl (h.bound f.drain (by simp))
        exact Rest.advance hyielded ha fun _ _ => rfl
      · exact Rest.visit h ha hp

variable {s' : State K V}

omit [DecidableEq K] in
theorem Sound.of_conns (h : Sound s ds)
    (hconns : s'.conns = s.conns) (hdraining : s'.drainingCoalesced = s.drainingCoalesced)
    (hparents : s'.parentDrains = s.parentDrains) (hframes : s'.frames = s.frames) :
    Sound s' ds := by
  refine { nodup := h.nodup, draining := by rw [hdraining]; exact h.draining,
           parents_nodup := by rw [hparents]; exact h.parents_nodup,
           parents := by rw [hparents]; exact h.parents, links := h.links,
           cursor := by rw [hconns]; exact h.cursor, bound := h.bound, passed := ?_,
           gone := by rw [hconns]; exact h.gone }
  intro f hf
  unfold Passed
  rw [hconns]
  exact h.passed f (hframes ▸ hf)

omit [DecidableEq K] in
theorem Rest.push (h : Sound s (f.drain :: s.drains))
    (ha : ∀ w, w ≠ f.drain.ws → Awake s s.drains w) (hp : Passed s f) (phase : Phase) :
    Rest { s with frames := { f with phase } :: s.frames } := by
  refine { sound := { h with passed := fun g hg => ?_ }, awake := fun w => ?_ }
  · rcases List.mem_cons.mp hg with rfl | hg
    · exact hp
    · exact h.passed g hg
  · by_cases hw : w = f.drain.ws
    · exact .inl (by simp [hw])
    · exact (ha w hw).cons _

theorem Rest.serialized (h : Sound s (f.drain :: s.drains))
    (ha : ∀ w, w ≠ f.drain.ws → Awake s s.drains w) (hp : Passed s f) (body : Option String) :
    Rest (serialized s f body) := by
  unfold Coalesced.serialized
  split
  · exact Rest.returned h ha hp (by simp)
  split
  · have hfate : Sound (s.fate f.value.id .unserializable) (f.drain :: s.drains) :=
      h.of_conns rfl rfl rfl rfl
    split
    · have hthrown : Sound (s.fate f.value.id .unserializable)
          ({ f.drain with callerError := true } :: s.drains) :=
        hfate.top rfl rfl (hfate.bound f.drain (by simp))
      exact Rest.returned (f := { f with drain := { f.drain with callerError := true } })
        hthrown ha hp (by simp)
    · have hreported : Sound { s.fate f.value.id .unserializable with
          reported := s.reported ++ [f.value.id] } (f.drain :: s.drains) :=
        h.of_conns rfl rfl rfl rfl
      exact Rest.push hreported ha hp .reporting
  · split
    · have habort : Sound { s with closedWsAborts := s.closedWsAborts + 1 } (f.drain :: s.drains) :=
        h.of_conns rfl rfl rfl rfl
      exact Rest.returned habort ha hp (fun _ => .inl rfl)
    · next text _ =>
      have hoffered : Sound { s with offered := s.offered ++
          [{ ws := f.drain.ws, key := f.key, id := f.value.id
             payload := f.value.pre ++ text ++ "\x7d" }] } (f.drain :: s.drains) :=
        h.of_conns rfl rfl rfl rfl
      exact Rest.push hoffered ha hp .sending

theorem Rest.sent (h : Sound s (f.drain :: s.drains))
    (ha : ∀ w, w ≠ f.drain.ws → Awake s s.drains w) (hp : Passed s f) (result : Status) :
    Rest (sent s f result) := by
  have hpressed : Sound (s.setConn f.drain.ws { s.conns f.drain.ws with
      pressured := (s.conns f.drain.ws).pressured || result ≠ .success }) (f.drain :: s.drains) :=
    h.setConn rfl (fun g hg hw => absurd hw (h.top_ne hg)) (h.gone f.drain.ws)
  have hawake : ∀ w, w ≠ f.drain.ws → Awake (s.setConn f.drain.ws { s.conns f.drain.ws with
      pressured := (s.conns f.drain.ws).pressured || result ≠ .success }) s.drains w :=
    fun w hw => (ha w hw).setConn_ne hw
  have hpassed : Passed (s.setConn f.drain.ws { s.conns f.drain.ws with
      pressured := (s.conns f.drain.ws).pressured || result ≠ .success }) f := by
    unfold Passed
    rw [setConn_self]
    exact hp
  unfold Coalesced.sent
  split
  · exact Rest.returned hpressed hawake hpassed fun hne => by simp [hne]
  · have hfate : Sound ((s.setConn f.drain.ws { s.conns f.drain.ws with
        pressured := (s.conns f.drain.ws).pressured || result ≠ .success }).fate f.value.id .sent)
        (f.drain :: s.drains) := hpressed.of_conns rfl rfl rfl rfl
    refine Rest.returned hfate hawake hpassed fun hne => .inr ?_
    show ((s.setConn f.drain.ws _).conns f.drain.ws).pressured = true
    simp [hne]

/-! ## the start of a drain -/

omit [DecidableEq K] in
theorem Sound.start (h : Sound s s.drains)
    (hnew : ws ∉ s.drains.map Drain.ws) {parentDrains : List Socket} (hnodup : parentDrains.Nodup)
    (hparents : ∀ w, w ∈ parentDrains ↔ w ∈ s.drains.map Drain.ws) (hws : d.ws = ws)
    (hprevious : d.previous = s.drainingCoalesced)
    (hbound : d.sends + d.remaining ≤ 2 * d.initial) :
    Sound { s.setPending ws (s.conns ws).pending.rewind with
      drainingCoalesced := some ws, parentDrains } (d :: s.drains) := by
  subst hws
  have hne : ∀ f ∈ s.frames, f.drain.ws ≠ d.ws := fun f hf heq =>
    hnew (List.mem_map.mpr ⟨f.drain, List.mem_map_of_mem hf, heq⟩)
  refine { nodup := List.nodup_cons.mpr ⟨hnew, h.nodup⟩, draining := rfl, parents_nodup := hnodup,
           parents := hparents, links := ⟨by rw [hprevious, h.draining], h.links⟩,
           cursor := fun w => ?_, bound := ?_, passed := fun f hf => ?_, gone := fun w => ?_ }
  · show ((s.setPending d.ws _).conns w).pending.cursor.isSome = true ↔ _
    by_cases hw : w = d.ws
    · subst hw
      simp [Rotation.rewind]
    · rw [setPending_ne _ _ hw, h.cursor w]
      simp [hw]
  · intro x hx
    rcases List.mem_cons.mp hx with rfl | hx
    · exact hbound
    · exact h.bound x hx
  · unfold Passed
    show ∀ k ∈ ((s.setPending d.ws _).conns f.drain.ws).pending.behind, _
    rw [setPending_ne _ _ (hne f hf)]
    exact h.passed f hf
  · show ((s.setPending d.ws _).conns w).detached = true →
      ((s.setPending d.ws _).conns w).closed = true
    by_cases hw : w = d.ws
    · subst hw
      rw [setPending_self]
      exact h.gone d.ws
    · rw [setPending_ne _ _ hw]
      exact h.gone w

omit [DecidableEq K] in
theorem Rest.drainCoalesced (h : Sound s s.drains)
    (ha : ∀ w, w ≠ ws → Awake s s.drains w) (callerEntry : Option Nat) :
    Rest (drainCoalesced s ws callerEntry) := by
  have hstart : ∀ parentDrains : List Socket, parentDrains.Nodup →
      (∀ w, w ∈ parentDrains ↔ w ∈ s.drains.map Drain.ws) → ws ∉ s.drains.map Drain.ws →
      Rest (Coalesced.advance { s.setPending ws (s.conns ws).pending.rewind with
        drainingCoalesced := some ws, parentDrains }
        { ws, callerEntry, previous := s.drainingCoalesced
          initial := (s.conns ws).pending.map.size
          remaining := (s.conns ws).pending.map.size * 2
          sends := 0, yielded := false, callerError := false }) := by
    intro parentDrains hnodup hparents hnew
    refine Rest.advance (h.start hnew hnodup hparents rfl rfl ?_) (fun w hw => ?_) fun k hk => ?_
    · show 0 + (s.conns ws).pending.map.size * 2 ≤ 2 * (s.conns ws).pending.map.size
      omega
    · exact (ha w hw).setConn_ne hw
    · have hk : k ∈ ((s.setPending ws (s.conns ws).pending.rewind).conns ws).pending.behind := hk
      rw [setPending_self] at hk
      simp [Rotation.rewind, Rotation.behind] at hk
  have hdraining := h.draining
  have hparents := h.parents
  unfold Coalesced.drainCoalesced
  cases hd : s.drainingCoalesced with
  | none =>
    rw [hd] at hdraining
    have hnone : s.drains.map Drain.ws = [] := List.head?_eq_none_iff.mp hdraining.symm
    rw [hd] at hstart
    refine hstart s.parentDrains h.parents_nodup (fun w => ?_) (by simp [hnone])
    rw [hparents, hnone]
    rfl
  | some previous =>
    rw [hd] at hdraining hstart
    obtain ⟨rest, hrest⟩ : ∃ rest, s.drains.map Drain.ws = previous :: rest := by
      cases hds : s.drains.map Drain.ws with
      | nil => simp [hds] at hdraining
      | cons x xs =>
        simp only [hds, List.head?_cons, Option.some.injEq] at hdraining
        exact ⟨xs, by rw [hdraining]⟩
    have hmem : ∀ w, w ∈ s.drains.map Drain.ws ↔ w = previous ∨ w ∈ s.parentDrains := fun w => by
      rw [hparents, hrest]
      simp
    simp only
    split
    · next hrunning =>
      -- the active drain takes what was queued
      have hactive : ws ∈ s.drains.map Drain.ws := (hmem ws).mpr (hrunning.imp Eq.symm id)
      refine { sound := h, awake := fun w => ?_ }
      by_cases hw : w = ws
      · exact .inl (hw ▸ hactive)
      · exact ha w hw
    · next hidle =>
      refine hstart (s.parentDrains.insert previous) (h.parents_nodup.insert ..) (fun w => ?_)
        fun hm => hidle (((hmem ws).mp hm).imp Eq.symm id)
      rw [List.mem_insert_iff, hmem]

omit [DecidableEq K] in
theorem Rest.flushCoalescedFor (h : Sound s s.drains)
    (ha : ∀ w, w ≠ ws → Awake s s.drains w) (callerEntry : Option Nat) :
    Rest (flushCoalescedFor s ws callerEntry) := by
  unfold Coalesced.flushCoalescedFor
  split
  · next hdetached =>
    refine { sound := h.of_conns rfl rfl rfl rfl, awake := fun w => ?_ }
    by_cases hw : w = ws
    · exact .inr (.inr (.inr (.inr (hw ▸ h.gone ws hdetached))))
    · exact ha w hw
  · split
    · next hempty =>
      refine { sound := h, awake := fun w => ?_ }
      by_cases hw : w = ws
      · exact .inr (.inl (hw ▸ List.eq_nil_of_length_eq_zero hempty))
      · exact ha w hw
    · exact Rest.drainCoalesced h ha callerEntry

/-! ## queueing -/

omit [DecidableEq K] in
theorem Sound.change (h : Sound s ds) (ws : Socket) (p : Rotation K (Entry V))
    (hcursor : p.cursor.isSome = (s.conns ws).pending.cursor.isSome)
    (hbehind : ∀ k ∈ p.behind, k ∈ (s.conns ws).pending.behind) : Sound (s.setPending ws p) ds := by
  refine h.setConn hcursor (fun f hf hw k hk => ?_) (h.gone ws)
  have hpassed := h.passed f hf
  unfold Passed at hpassed
  rw [hw] at hpassed
  exact hpassed k (hbehind k hk)

theorem frames_evict (s : State K V) (ws : Socket) (key : K) :
    (evict s ws key).frames = s.frames := by
  unfold evict
  dsimp only
  split
  · split <;> rfl
  · rfl

theorem frames_store (s : State K V) (ws : Socket) (key : K) (entry : Entry V) :
    (store s ws key entry).frames = s.frames := by
  unfold store
  dsimp only
  split <;> rfl

theorem Sound.evict (h : Sound s ds) (ws : Socket) (key : K) : Sound (evict s ws key) ds := by
  unfold Coalesced.evict
  dsimp only
  split
  · split
    · exact h
    · next oldest e rest _ =>
      have hdeleted := h.change ws ((s.conns ws).pending.delete oldest)
        (by simp [Rotation.delete]) fun k hk => by
          rw [Rotation.behind_delete] at hk
          exact List.mem_of_mem_filter hk
      exact hdeleted.of_conns rfl rfl rfl rfl
  · exact h

theorem Awake.evict (h : Awake s ds w) (hw : w ≠ ws) (key : K) : Awake (evict s ws key) ds w := by
  unfold Coalesced.evict
  dsimp only
  split
  · split
    · exact h
    · exact h.setConn_ne hw
  · exact h

theorem Sound.store (h : Sound s ds) (ws : Socket) (key : K)
    (entry : Entry V) : Sound (store s ws key entry) ds := by
  have hset := h.change ws ((s.conns ws).pending.set key entry) rfl fun k hk => by
    rw [Rotation.behind_set] at hk
    exact hk
  unfold Coalesced.store
  dsimp only
  split <;> exact hset.of_conns rfl rfl rfl rfl

theorem Awake.store (h : Awake s ds w)
    (hw : w ≠ ws) (key : K) (entry : Entry V) : Awake (store s ws key entry) ds w := by
  unfold Coalesced.store
  dsimp only
  have hset : Awake (s.setPending ws ((s.conns ws).pending.set key entry)) ds w :=
    h.setConn_ne hw
  split <;> exact hset

theorem Rest.sendCoalesced (h : Rest s) (ws : Socket) (key : K) (topic event : String) (data : V) :
    Rest (sendCoalesced envelopePrefix s ws key topic event data) := by
  unfold Coalesced.sendCoalesced
  split
  · exact { sound := h.sound.of_conns rfl rfl rfl rfl, awake := h.awake }
  split
  · exact h
  rename_i pre _
  have hframes : (store (evict s ws key) ws key
      { id := s.queued.length, topic, event, data, pre }).drains = s.drains := by
    unfold State.drains
    rw [frames_store, frames_evict]
  refine Rest.flushCoalescedFor ?_ (fun w hw => ?_) _
  · rw [hframes]
    exact (h.sound.evict ws key).store ws key _
  · rw [hframes]
    exact ((h.awake w).evict hw key).store hw key _

/-! ## one action -/

omit [DecidableEq K] in
theorem Rest.pop (h : Rest s) {frames : List (Frame K V)} (hf : s.frames = f :: frames) :
    Sound { s with frames } (f.drain :: State.drains { s with frames }) ∧
      (∀ w, w ≠ f.drain.ws → Awake { s with frames } (State.drains { s with frames }) w) ∧
      Passed { s with frames } f := by
  have hdrains : s.drains = f.drain :: frames.map Frame.drain := by rw [State.drains, hf]; rfl
  have hsound := h.sound
  rw [hdrains] at hsound
  refine ⟨{ hsound with passed := fun g hg => ?_ }, fun w hw => ?_, ?_⟩
  · exact hsound.passed g (by rw [hf]; exact List.mem_cons_of_mem _ hg)
  · have hawake := h.awake w
    unfold Awake at hawake ⊢
    rw [hdrains, List.map_cons, List.mem_cons] at hawake
    exact hawake.imp (fun hm => hm.resolve_left hw) id
  · exact hsound.passed f (by rw [hf]; exact List.mem_cons_self)

theorem Rest.next {a : Action K V} (h : Rest s)
    (hn : next envelopePrefix s a = some s') : Rest s' := by
  cases a with
  | sendCoalesced ws key topic event data =>
    cases hn
    exact h.sendCoalesced ws key topic event data
  | serialized body =>
    simp only [Coalesced.next] at hn
    split at hn
    · cases hn
    · next f frames hf =>
      split at hn
      · cases hn
        obtain ⟨hsound, hawake, hpassed⟩ := h.pop hf
        exact Rest.serialized hsound hawake hpassed body
      · cases hn
  | reported =>
    simp only [Coalesced.next] at hn
    split at hn
    · cases hn
    · next f frames hf =>
      split at hn
      · cases hn
        obtain ⟨hsound, hawake, hpassed⟩ := h.pop hf
        exact Rest.returned hsound hawake hpassed (by simp)
      · cases hn
  | sent result =>
    simp only [Coalesced.next] at hn
    split at hn
    · cases hn
    · next f frames hf =>
      split at hn
      · cases hn
        obtain ⟨hsound, hawake, hpassed⟩ := h.pop hf
        exact Rest.sent hsound hawake hpassed result
      · cases hn
  | drained ws =>
    cases hn
    have hreset := h.sound.setFlags ws { s.conns ws with pressured := false } rfl
      (h.sound.gone ws)
    exact Rest.flushCoalescedFor hreset (fun w hw => (h.awake w).setConn_ne hw) none
  | timer ws =>
    simp only [Coalesced.next] at hn
    split at hn
    · next hf =>
      have hreset := h.sound.setFlags ws { s.conns ws with continuation := false } rfl
        (h.sound.gone ws)
      have hidle : (s.conns ws).pending.cursor.isSome = false := by
        have := h.sound.cursor ws
        simpa [hf] using this
      obtain ⟨-, hn⟩ := Option.ite_none_right_eq_some.mp hn
      split at hn
      · next hclosed =>
        cases hn
        have hcleared := hreset.change ws .empty (by simp [Rotation.empty, hidle])
          (by simp [Rotation.empty, Rotation.behind])
        refine { sound := hcleared, awake := fun w => ?_ }
        by_cases hw : w = ws
        · exact .inr (.inl (by rw [hw, setPending_self]; rfl))
        · exact ((h.awake w).setConn_ne hw).setConn_ne hw
      · cases hn
        exact Rest.flushCoalescedFor hreset (fun w hw => (h.awake w).setConn_ne hw) none
    · cases hn
  | close ws =>
    cases hn
    have hclosed := h.sound.setFlags ws { s.conns ws with closed := true } rfl (fun _ => rfl)
    refine { sound := hclosed, awake := fun w => ?_ }
    by_cases hw : w = ws
    · exact .inr (.inr (.inr (.inr (by simp [hw]))))
    · exact (h.awake w).setConn_ne hw
  | detach ws =>
    obtain ⟨hclosed, rfl⟩ := by simpa [Coalesced.next] using hn
    have hgone := h.sound.setFlags ws { s.conns ws with detached := true } rfl
      (fun _ => hclosed)
    refine { sound := hgone, awake := fun w => ?_ }
    by_cases hw : w = ws
    · exact .inr (.inr (.inr (.inr (by simp [hw, hclosed]))))
    · exact (h.awake w).setConn_ne hw

/-! ## values -/

abbrev State.value? (s : State K V) (ws : Socket) (key : K) : Option (Entry V) :=
  (s.conns ws).pending.map.get? key

/-- Something became of a value. -/
def Fated (s : State K V) (id : Nat) : Prop := ∃ f, (id, f) ∈ s.fates

/-- Every value is pending at its key or something became of it, and what was handed
to the socket for a key was never newer than what came after it. -/
structure Kept (s : State K V) : Prop where
  ids : ∀ ws k e, s.value? ws k = some e → s.queued[e.id]? = some (ws, k)
  covered : ∀ id ws k, s.queued[id]? = some (ws, k) →
    (s.conns ws).closed = true ∨ Fated s id ∨ ∃ e, s.value? ws k = some e ∧ e.id = id
  reported : ∀ f ∈ s.frames, f.phase = .reporting → Fated s f.value.id
  offered_old : ∀ o ∈ s.offered, o.id < s.queued.length
  offered_le : ∀ o ∈ s.offered, ∀ e, s.value? o.ws o.key = some e → o.id ≤ e.id
  sorted : s.offered.Pairwise fun a b => a.ws = b.ws → a.key = b.key → a.id ≤ b.id

theorem Kept.shrink (h : Kept s) (hqueued : s'.queued = s.queued)
    (hoffered : s'.offered = s.offered) (hfates : ∀ id, Fated s id → Fated s' id)
    (hclosed : ∀ w, (s.conns w).closed = true → (s'.conns w).closed = true)
    (hframes : ∀ f ∈ s'.frames, f.phase = .reporting → Fated s' f.value.id)
    (hsub : ∀ w k e, s'.value? w k = some e → s.value? w k = some e)
    (hgone : ∀ w k e, s.value? w k = some e →
      s'.value? w k = some e ∨ (s'.conns w).closed = true ∨ Fated s' e.id) : Kept s' := by
  refine { ids := fun ws k e he => by rw [hqueued]; exact h.ids ws k e (hsub ws k e he),
           covered := fun id ws k hid => ?_, reported := hframes,
           offered_old := by rw [hoffered, hqueued]; exact h.offered_old,
           offered_le := fun o ho e he => ?_, sorted := by rw [hoffered]; exact h.sorted }
  · rw [hqueued] at hid
    obtain hc | hf | ⟨e, he, rfl⟩ := h.covered id ws k hid
    · exact .inl (hclosed ws hc)
    · exact .inr (.inl (hfates id hf))
    · obtain he | hc | hf := hgone ws k e he
      · exact .inr (.inr ⟨e, he, rfl⟩)
      · exact .inl hc
      · exact .inr (.inl hf)
  · rw [hoffered] at ho
    exact h.offered_le o ho e (hsub _ _ e he)

theorem Kept.setConn (h : Kept s) (ws : Socket) (conn : Conn K V)
    (hmap : conn.pending.map = (s.conns ws).pending.map)
    (hclosed : (s.conns ws).closed = true → conn.closed = true) : Kept (s.setConn ws conn) := by
  have hvalue : ∀ w k, (s.setConn ws conn).value? w k = s.value? w k := fun w k => by
    by_cases hw : w = ws
    · subst hw
      rw [State.value?, setConn_self, hmap]
    · rw [State.value?, setConn_ne _ _ hw]
  refine h.shrink rfl rfl (fun _ hf => hf) (fun w hc => ?_) h.reported
    (fun w k e he => by rwa [hvalue] at he) (fun w k e he => .inl (by rwa [hvalue]))
  by_cases hw : w = ws
  · subst hw
    rw [setConn_self]
    exact hclosed hc
  · rw [setConn_ne _ _ hw]
    exact hc

theorem Kept.finish (h : Kept s) (d : Drain) {answer : Bool}
    (ha : aborted = true → (s.conns d.ws).closed = true) : Kept (finish s d answer aborted) := by
  refine h.shrink rfl rfl (fun _ hf => hf) (fun w hc => ?_) h.reported (fun w k e he => ?_)
    fun w k e he => ?_
  · by_cases hw : w = d.ws
    · subst hw
      rw [finish_self]
      exact hc
    · rw [finish_ne _ _ _ hw]
      exact hc
  · by_cases hw : w = d.ws
    · subst hw
      rw [State.value?, finish_self] at he
      cases aborted with
      | true => cases he
      | false => exact he
    · rw [State.value?, finish_ne _ _ _ hw] at he
      exact he
  · by_cases hw : w = d.ws
    · subst hw
      rw [State.value?, finish_self]
      cases haborted : aborted with
      | true => exact .inr (.inl (ha haborted))
      | false => exact .inl he
    · rw [State.value?, finish_ne _ _ _ hw]
      exact .inl he

theorem Kept.visit (h : Kept s) (d : Drain) (key : K) (value : Entry V)
    (retried : Bool) : Kept (visit s d key value retried) := by
  unfold Coalesced.visit
  split
  · exact h.finish d (by simp)
  · refine { h with reported := fun f hf hphase => ?_ }
    rcases List.mem_cons.mp hf with rfl | hf
    · cases hphase
    · exact h.reported f hf hphase

theorem Kept.advance (h : Kept s) (d : Drain) : Kept (advance s d) := by
  unfold Coalesced.advance
  dsimp only
  split
  · exact h.finish d (by simp)
  · split
    · exact h.finish d (by simp)
    · next p _ _ key first _ =>
      have hmoved : Kept (s.setPending d.ws ((s.conns d.ws).pending.forward p)) :=
        h.setConn d.ws _ rfl id
      exact hmoved.visit d key first false

theorem Kept.setPending (h : Kept s) (ws : Socket) (p : Rotation K (Entry V))
    (hsub : ∀ k e, p.map.get? k = some e → s.value? ws k = some e)
    (hgone : ∀ k e, s.value? ws k = some e →
      p.map.get? k = some e ∨ (s.conns ws).closed = true ∨ Fated s e.id) :
    Kept (s.setPending ws p) := by
  refine h.shrink rfl rfl (fun _ hf => hf) (fun w hc => ?_) h.reported
    (fun w k e he => ?_) fun w k e he => ?_
  · by_cases hw : w = ws
    · subst hw
      rw [setPending_self]
      exact hc
    · rw [setPending_ne _ _ hw]
      exact hc
  · by_cases hw : w = ws
    · subst hw
      rw [State.value?, setPending_self] at he
      exact hsub k e he
    · rw [State.value?, setPending_ne _ _ hw] at he
      exact he
  · by_cases hw : w = ws
    · subst hw
      rw [State.value?, setPending_self]
      exact hgone k e he
    · rw [State.value?, setPending_ne _ _ hw]
      exact .inl he

theorem Kept.delete (h : Kept s) (ws : Socket) (key : K)
    (hfate : ∀ e, s.value? ws key = some e → (s.conns ws).closed = true ∨ Fated s e.id) :
    Kept (s.setPending ws ((s.conns ws).pending.delete key)) := by
  refine h.setPending ws _ (fun k e he => ?_) fun k e he => ?_
  · exact (JsMap.of_get?_delete he).2
  · rw [Rotation.map_delete, JsMap.get?_delete]
    split
    · next hk =>
      subst hk
      exact .inr (hfate e he)
    · exact .inl he

/-- `current` says that the value is the pending one of its key. -/
theorem current_iff {key : K} {value : Entry V} :
    current s ws key value = true ↔ ∃ e, s.value? ws key = some e ∧ e.id = value.id := by
  unfold current
  split
  · next e he => simp [he]
  · next hnone => simp [hnone]

theorem Kept.returned (h : Kept s) {result : Status}
    (ha : aborted = true → (s.conns f.drain.ws).closed = true)
    (hfate : result ≠ .dropped → current s f.drain.ws f.key f.value = true →
      (s.conns f.drain.ws).closed = true ∨ Fated s f.value.id) :
    Kept (returned s f result aborted) := by
  unfold Coalesced.returned
  by_cases hdropped : result = .dropped
  · rw [if_pos hdropped]
    exact h.finish f.drain ha
  rw [if_neg hdropped]
  by_cases hcurrent : current s f.drain.ws f.key f.value = true
  · rw [if_pos hcurrent]
    obtain ⟨e, he, hid⟩ := current_iff.mp hcurrent
    have hdeleted := h.delete f.drain.ws f.key fun e' he' => by
      rw [he] at he'
      cases he'
      rw [hid]
      exact hfate hdropped hcurrent
    split
    · exact hdeleted.finish f.drain (by rw [setPending_self]; exact ha)
    · exact hdeleted.advance f.drain
  · rw [if_neg hcurrent]
    split
    · exact h.finish f.drain ha
    · split
      · exact h.advance f.drain
      · split
        · exact h.advance _
        · exact h.visit _ _ _ _

theorem Kept.fate (h : Kept s) (id : Nat) (x : Fate) : Kept (s.fate id x) := by
  have hfates : ∀ id', Fated s id' → Fated (s.fate id x) id' :=
    fun id' ⟨y, hy⟩ => ⟨y, List.mem_append_left _ hy⟩
  exact h.shrink rfl rfl hfates (fun _ hc => hc) (fun f hf hp => hfates _ (h.reported f hf hp))
    (fun _ _ _ he => he) fun _ _ _ he => .inl he

omit [DecidableEq K] in
theorem fated_fate (s : State K V) (id : Nat) (x : Fate) : Fated (s.fate id x) id :=
  ⟨x, by simp [State.fate]⟩

theorem Kept.serialized (h : Kept s) (body : Option String) : Kept (serialized s f body) := by
  unfold Coalesced.serialized
  by_cases hcurrent : current s f.drain.ws f.key f.value = true
  · rw [hcurrent]
    cases body with
    | none =>
      have hfate := h.fate f.value.id .unserializable
      have hfated := fated_fate s f.value.id .unserializable
      rw [if_neg (show ¬ (!true) = true by simp)]
      dsimp only
      split
      · exact hfate.returned (by simp) fun _ _ => .inr hfated
      · refine { hfate with reported := fun g hg hphase => ?_ }
        rcases List.mem_cons.mp hg with rfl | hg
        · exact hfated
        · exact hfate.reported g hg hphase
    | some body =>
      rw [if_neg (show ¬ (!true) = true by simp)]
      dsimp only
      split
      · next hclosed =>
        have habort : Kept { s with closedWsAborts := s.closedWsAborts + 1 } := { h with }
        exact habort.returned (fun _ => hclosed) fun _ _ => .inl hclosed
      · obtain ⟨e, he, hid⟩ := current_iff.mp hcurrent
        have hlt : e.id < s.queued.length :=
          (List.getElem?_eq_some_iff.mp (h.ids _ _ e he)).1
        refine { ids := h.ids, covered := h.covered, reported := fun g hg hphase => ?_,
                 offered_old := fun o ho => ?_, offered_le := fun o ho e' he' => ?_, sorted := ?_ }
        · rcases List.mem_cons.mp hg with rfl | hg
          · cases hphase
          · exact h.reported g hg hphase
        · rcases List.mem_append.mp ho with ho | ho
          · exact h.offered_old o ho
          · obtain rfl := List.mem_singleton.mp ho
            exact hid ▸ hlt
        · rcases List.mem_append.mp ho with ho | ho
          · exact h.offered_le o ho e' he'
          · obtain rfl := List.mem_singleton.mp ho
            rw [he] at he'
            cases he'
            exact hid.ge
        · refine List.pairwise_append.mpr ⟨h.sorted, List.pairwise_singleton _ _, ?_⟩
          intro a ha b hb hws hkey
          obtain rfl := List.mem_singleton.mp hb
          have hle := h.offered_le a ha e (by rw [hws, hkey]; exact he)
          exact hid ▸ hle
  · rw [Bool.not_eq_true] at hcurrent
    rw [hcurrent, if_pos (show (!false) = true by simp)]
    refine h.returned (fun hf => by cases hf) fun _ hc => ?_
    rw [hcurrent] at hc
    cases hc

theorem Kept.sent (h : Kept s) (result : Status) : Kept (sent s f result) := by
  have hpressed : Kept (s.setConn f.drain.ws { s.conns f.drain.ws with
      pressured := (s.conns f.drain.ws).pressured || result ≠ .success }) :=
    h.setConn _ _ rfl id
  unfold Coalesced.sent
  split
  · next hdropped => exact hpressed.returned (fun hf => by cases hf) fun hne => absurd hdropped hne
  · exact (hpressed.fate f.value.id .sent).returned (fun hf => by cases hf)
      fun _ _ => .inr (fated_fate _ _ _)

theorem Kept.drainCoalesced (h : Kept s) (ws : Socket)
    (callerEntry : Option Nat) : Kept (drainCoalesced s ws callerEntry) := by
  have hstart : ∀ parentDrains d, Kept (Coalesced.advance
      { s.setPending ws (s.conns ws).pending.rewind with
        drainingCoalesced := some ws, parentDrains } d) := fun parentDrains d => by
    have hrewound : Kept (s.setPending ws (s.conns ws).pending.rewind) := h.setConn _ _ rfl id
    have hbegun : Kept { s.setPending ws (s.conns ws).pending.rewind with
        drainingCoalesced := some ws, parentDrains } := { hrewound with }
    exact hbegun.advance d
  unfold Coalesced.drainCoalesced
  split
  · exact hstart _ _
  · split
    · exact h
    · exact hstart _ _

theorem Kept.flushCoalescedFor (h : Kept s) (ws : Socket)
    (callerEntry : Option Nat) : Kept (flushCoalescedFor s ws callerEntry) := by
  unfold Coalesced.flushCoalescedFor
  split
  · exact { h with }
  · split
    · exact h
    · exact h.drainCoalesced ws callerEntry

theorem Kept.evict (h : Kept s) (ws : Socket) (key : K) : Kept (evict s ws key) := by
  unfold Coalesced.evict
  dsimp only
  split
  · split
    · exact h
    rename_i oldest e rest hentries
    have hfirst : s.value? ws oldest = some e := by
      simp [JsMap.get?, hentries]
    have hfate := h.fate e.id .evicted
    have hdeleted := hfate.delete ws oldest fun e' he' => by
      have he' : s.value? ws oldest = some e' := he'
      rw [hfirst] at he'
      cases he'
      exact .inr (fated_fate _ _ _)
    exact { hdeleted with }
  · exact h

theorem queued_evict (s : State K V) (ws : Socket) (key : K) :
    (evict s ws key).queued = s.queued := by
  unfold evict
  dsimp only
  split
  · split <;> rfl
  · rfl

theorem Kept.store (h : Kept s) (ws : Socket) (key : K) {entry : Entry V}
    (hid : entry.id = s.queued.length) : Kept (store s ws key entry) := by
  -- the value it replaces is superseded
  obtain ⟨s₁, h₁, hconns, hqueued, hold, heq⟩ : ∃ s₁ : State K V, Kept s₁ ∧ s₁.conns = s.conns ∧
      s₁.queued = s.queued ∧ (∀ e, s.value? ws key = some e → Fated s₁ e.id) ∧
      Coalesced.store s ws key entry = { s₁.setPending ws ((s.conns ws).pending.set key entry) with
        queued := s₁.queued ++ [(ws, key)] } := by
    unfold Coalesced.store
    dsimp only
    split
    · next hnone => exact ⟨s, h, rfl, rfl, fun e he => by simp [hnone] at he, rfl⟩
    · next e he =>
      refine ⟨s.fate e.id .superseded, h.fate _ _, rfl, rfl, fun e' he' => ?_, rfl⟩
      rw [State.value?, he] at he'
      cases he'
      exact fated_fate _ _ _
  rw [heq]
  have hvalue : ∀ w k, State.value? { s₁.setPending ws ((s.conns ws).pending.set key entry) with
      queued := s₁.queued ++ [(ws, key)] } w k =
      if w = ws ∧ k = key then some entry else s.value? w k := fun w k => by
    by_cases hw : w = ws
    · subst hw
      rw [State.value?, setPending_self, Rotation.map_set, JsMap.get?_set]
      simp
    · rw [State.value?, setPending_ne _ _ hw, if_neg (fun hc => hw hc.1), hconns]
  have hlen : s₁.queued.length = s.queued.length := by rw [hqueued]
  refine { ids := fun w k e he => ?_, covered := fun id w k hid' => ?_, reported := h₁.reported,
           offered_old := fun o ho => ?_, offered_le := fun o ho e he => ?_, sorted := h₁.sorted }
  · rw [hvalue] at he
    split at he
    · next hwk =>
      cases he
      rw [hid, ← hlen, List.getElem?_concat_length, hwk.1, hwk.2]
    · have hold := h.ids w k e he
      have hlt := (List.getElem?_eq_some_iff.mp hold).1
      rw [List.getElem?_append_left (by omega), hqueued]
      exact hold
  · rw [hvalue]
    by_cases hlt : id < s₁.queued.length
    · rw [List.getElem?_append_left hlt] at hid'
      obtain hc | hf | ⟨e, he, rfl⟩ := h₁.covered id w k hid'
      · refine .inl ?_
        by_cases hw : w = ws
        · subst hw
          rw [setPending_self]
          exact hc
        · rw [setPending_ne _ _ hw]
          exact hc
      · exact .inr (.inl hf)
      · have he : s.value? w k = some e := by rw [State.value?, ← hconns]; exact he
        by_cases hwk : w = ws ∧ k = key
        · obtain ⟨rfl, rfl⟩ := hwk
          exact .inr (.inl (hold e he))
        · exact .inr (.inr ⟨e, by rw [if_neg hwk]; exact he, rfl⟩)
    · rw [List.getElem?_append_right (by omega)] at hid'
      obtain ⟨hzero, hpair⟩ : id - s₁.queued.length = 0 ∧ (ws, key) = (w, k) := by
        cases hn : id - s₁.queued.length with
        | zero => simpa [hn] using hid'
        | succ n => simp [hn] at hid'
      obtain ⟨rfl, rfl⟩ := Prod.mk.inj hpair
      exact .inr (.inr ⟨entry, by simp, by omega⟩)
  · have := h₁.offered_old o ho
    simp
    omega
  · rw [hvalue] at he
    split at he
    · cases he
      have := h₁.offered_old o ho
      omega
    · exact h₁.offered_le o ho e (by rw [State.value?, hconns]; exact he)

theorem Kept.sendCoalesced (h : Kept s) (ws : Socket) (key : K) (topic event : String) (data : V) :
    Kept (sendCoalesced envelopePrefix s ws key topic event data) := by
  unfold Coalesced.sendCoalesced
  split
  · exact { h with }
  · split
    · exact h
    · exact ((h.evict ws key).store ws key (by rw [queued_evict])).flushCoalescedFor _ _

theorem Kept.pop (h : Kept s) {frames : List (Frame K V)}
    (hf : s.frames = f :: frames) : Kept { s with frames } :=
  { h with reported := fun g hg => h.reported g (by rw [hf]; exact List.mem_cons_of_mem _ hg) }

theorem Kept.next {a : Action K V} (h : Kept s)
    (hn : next envelopePrefix s a = some s') : Kept s' := by
  cases a with
  | sendCoalesced ws key topic event data =>
    cases hn
    exact h.sendCoalesced ws key topic event data
  | serialized body =>
    simp only [Coalesced.next] at hn
    split at hn
    · cases hn
    · next f frames hf =>
      split at hn
      · cases hn
        exact (h.pop hf).serialized body
      · cases hn
  | reported =>
    simp only [Coalesced.next] at hn
    split at hn
    · cases hn
    rename_i f frames hf
    obtain ⟨hphase, ⟨⟩⟩ := Option.ite_none_right_eq_some.mp hn
    have hfated : Fated s f.value.id :=
      h.reported f (by rw [hf]; exact List.mem_cons_self) hphase
    exact (h.pop hf).returned (fun hfalse => by cases hfalse) fun _ _ => .inr hfated
  | sent result =>
    simp only [Coalesced.next] at hn
    split at hn
    · cases hn
    · next f frames hf =>
      split at hn
      · cases hn
        exact (h.pop hf).sent result
      · cases hn
  | drained ws =>
    cases hn
    have hreset : Kept (s.setConn ws { s.conns ws with pressured := false }) :=
      h.setConn _ _ rfl id
    exact hreset.flushCoalescedFor ws none
  | timer ws =>
    simp only [Coalesced.next] at hn
    split at hn
    · have hreset : Kept (s.setConn ws { s.conns ws with continuation := false }) :=
        h.setConn _ _ rfl id
      split at hn
      · split at hn
        · next hclosed =>
          cases hn
          refine hreset.setPending ws _ (fun k e he => by cases he) fun _ _ _ => .inr (.inl ?_)
          rw [setConn_self]
          exact hclosed
        · cases hn
          exact hreset.flushCoalescedFor ws none
      · cases hn
    · cases hn
  | close ws =>
    cases hn
    exact h.setConn _ _ rfl fun _ => rfl
  | detach ws =>
    obtain ⟨-, rfl⟩ := by simpa [Coalesced.next] using hn
    exact h.setConn _ _ rfl id

/-! ## every run -/

theorem rest_of_runs {as : List (Action K V)}
    (h : (machine K V envelopePrefix).Runs Machine.Any as s) : Rest s := by
  refine h.invariant ?_ fun s a s' hr _ hn => hr.next hn
  refine { sound := ?_, awake := fun w => .inr (.inl rfl) }
  exact { nodup := List.nodup_nil, draining := rfl, parents_nodup := List.nodup_nil,
          parents := fun w => Iff.rfl, links := trivial, bound := nofun,
          cursor := fun w => (by simp [machine, Conn.fresh, Rotation.empty]),
          passed := nofun, gone := fun w hw => (by cases hw) }

theorem kept_of_runs {as : List (Action K V)}
    (h : (machine K V envelopePrefix).Runs Machine.Any as s) : Kept s := by
  refine h.invariant ?_ fun s a s' hk _ hn => hk.next hn
  exact { ids := fun ws k e he => (by cases he),
          covered := fun id ws k hid => (by simp [machine] at hid),
          reported := nofun, offered_old := nofun, offered_le := nofun, sorted := List.Pairwise.nil }

/-- However calls, answers, drains and timers interleave, what is handed to a socket
for a key never gets older; as long as its connection is open a queued value is
sent, superseded, unserializable, evicted, or pending in a map that is being drained
or that a drain or a continuation will flush; a map is drained by one drain at a
time, with no more than two sends for every value it began with. -/
theorem coalesced_sends {as : List (Action K V)} {s : State K V}
    (h : (machine K V envelopePrefix).Runs Machine.Any as s) :
    (s.offered.Pairwise fun a b => a.ws = b.ws → a.key = b.key → a.id ≤ b.id) ∧
    (∀ id ws key, s.queued[id]? = some (ws, key) → (s.conns ws).closed = false →
      (∃ f, (id, f) ∈ s.fates) ∨
      ∃ e, (s.conns ws).pending.map.get? key = some e ∧ e.id = id ∧
        (ws ∈ s.drains.map Drain.ws ∨ (s.conns ws).pressured = true ∨
          (s.conns ws).continuation = true)) ∧
    (s.drains.map Drain.ws).Nodup ∧
    ∀ d ∈ s.drains, d.sends ≤ 2 * d.initial := by
  have hrest := rest_of_runs h
  have hkept := kept_of_runs h
  refine ⟨hkept.sorted, fun id ws key hid hopen => ?_, hrest.sound.nodup, fun d hd => ?_⟩
  · obtain hc | hf | ⟨e, he, rfl⟩ := hkept.covered id ws key hid
    · rw [hopen] at hc
      cases hc
    · exact .inl hf
    refine .inr ⟨e, he, rfl, ?_⟩
    obtain hr | hempty | hp | hc | hc := hrest.awake ws
    · exact .inl hr
    · simp [JsMap.get?, hempty] at he
    · exact .inr (.inl hp)
    · exact .inr (.inr hc)
    · rw [hopen] at hc
      cases hc
  · have := hrest.sound.bound d hd
    omega

/-- A value whose serialiser queues a newer one of its key: only the newer is sent. -/
def replacing : List (Action Nat Unit) :=
  [.sendCoalesced 0 7 "t" "e" (), .sendCoalesced 0 7 "t" "e" (), .serialized (some "1"),
    .serialized (some "2"), .sent .success]

theorem coalesced_sends_replacing :
    ∃ s, (machine Nat Unit fun _ _ => some "").exec (machine Nat Unit fun _ _ => some "").init
        replacing = some s ∧ s.fates = [(0, .superseded), (1, .sent)] ∧
      (s.offered.map fun o => o.id) = [1] ∧
      s.offered.Pairwise fun a b => a.ws = b.ws → a.key = b.key → a.id ≤ b.id := by
  obtain ⟨s, hs⟩ : ∃ s, (machine Nat Unit fun _ _ => some "").exec
      (machine Nat Unit fun _ _ => some "").init replacing = some s :=
    Option.isSome_iff_exists.mp (by decide +kernel)
  have hrun := Machine.runs_of_exec hs
  have hfates : ((machine Nat Unit fun _ _ => some "").exec
      (machine Nat Unit fun _ _ => some "").init replacing).all (fun s =>
        decide (s.fates = [(0, .superseded), (1, .sent)] ∧ (s.offered.map fun o => o.id) = [1])) =
      true := by decide +kernel
  rw [hs] at hfates
  obtain ⟨hfates, hoffered⟩ := of_decide_eq_true hfates
  exact ⟨s, hs, hfates, hoffered, (coalesced_sends hrun).1⟩

/-- Two values held back by a full socket, which closes before the second attempt. -/
def closing : List (Action Nat Unit) :=
  [.sendCoalesced 0 7 "t" "e" (), .serialized (some "1"), .sent .dropped,
    .sendCoalesced 0 8 "t" "e" (), .serialized (some "1"), .sent .dropped,
    .drained 0, .close 0, .serialized (some "1")]

/-- A socket that closed takes the pending values with it. -/
theorem closing_discards :
    ¬ ∀ (as : List (Action Nat Unit)) (s : State Nat Unit),
      (machine Nat Unit fun _ _ => some "").Runs Machine.Any as s →
      ∀ id ws key, s.queued[id]? = some (ws, key) →
        (∃ f, (id, f) ∈ s.fates) ∨
        ∃ e, (s.conns ws).pending.map.get? key = some e ∧ e.id = id ∧
          (ws ∈ s.drains.map Drain.ws ∨ (s.conns ws).pressured = true ∨
            (s.conns ws).continuation = true) := by
  intro hall
  obtain ⟨s, hs⟩ : ∃ s, (machine Nat Unit fun _ _ => some "").exec
      (machine Nat Unit fun _ _ => some "").init closing = some s :=
    Option.isSome_iff_exists.mp (by decide +kernel)
  have hend : ((machine Nat Unit fun _ _ => some "").exec
      (machine Nat Unit fun _ _ => some "").init closing).all (fun s =>
        decide (s.queued[1]? = some (0, 8) ∧ s.fates = [] ∧
          ((s.conns 0).pending.map.get? 8).isNone = true)) = true := by decide +kernel
  rw [hs] at hend
  obtain ⟨hqueued, hfates, hpending⟩ := of_decide_eq_true hend
  obtain ⟨f, hf⟩ | ⟨e, he, -⟩ := hall closing s (Machine.runs_of_exec hs) 1 0 8 hqueued
  · rw [hfates] at hf
    cases hf
  · rw [he] at hpending
    cases hpending

end BunServe.Coalesced
