import BunServe.Webhooks.Gate
import BunServe.Webhooks.Pool
import BunServe.Webhooks.Returns

/-!
# BunServe.Webhooks.Contained

What the requests of a delivery can reach.

* `Contained` — what holds of the hops of a delivery: each request goes to an address that
  the gate of its hop let through, the artifacts of authentication stay on the first origin,
  no hop goes back to http, no URL comes twice, and hops and attempts are bounded;
* `deliverWebhook_meets` — a delivery keeps to it, wherever it asks and where it ends,
  while other deliveries change the pins;
* `deliveries_contained` — so do all the deliveries of a process.
-/

namespace BunServe.Webhooks

open SafeUrl (bare)

variable {N P : Type} {p : Platform} {c : Config N}

/-! ## what is to hold -/

/-- What a request can connect to. -/
def Request.Reaches (p : Platform) (r : Request) (address : JsString) : Prop :=
  match r.connect with
  | .pinned a => address = a.address
  | .lookup pinned => ∃ all family, ∃ a ∈ pinnedLookup pinned all family, address = a.address
  -- a name would be resolved again
  | .url => ∀ u, p.newUrl r.url = some u → isIpLiteral u.hostname = true → address = bare u.hostname

def Http (p : Platform) (url : JsString) : Prop :=
  ∃ u, p.newUrl url = some u ∧ (u.protocol = js "http:" ∨ u.protocol = js "https:")

def Https (p : Platform) (url : JsString) : Prop := ∃ u, p.newUrl url = some u ∧ u.protocol = js "https:"

def originOf (p : Platform) (url : JsString) : Option JsString := (p.newUrl url).map Url.origin

def SameOrigin (p : Platform) (url url' : JsString) : Prop :=
  (originOf p url).isSome = true ∧ originOf p url = originOf p url'

/-- It has the signature, its timestamp, or the idempotency key. -/
def CarriesArtifact (headers : JsMap String JsString) : Prop :=
  ∃ name ∈ crossOriginStrippedHeaders, (headers.get? name).isSome = true

/-- A request goes to the URL of its hop, whose gate passed, and can connect only to what
the gate let through. -/
structure Confined (p : Platform) (c : Config N) (hop : Hop) (r : Request) : Prop where
  url : r.url = hop.url
  http : Http p r.url
  gate : ∃ pinned, hop.gate = some pinned ∧ Passed p c r.url pinned ∧
    ∀ address, r.Reaches p address → address ∈ lets p r.url pinned

/-- What holds of the hops of a delivery. -/
structure Contained (p : Platform) (c : Config N) (hops : List Hop) : Prop where
  confined : ∀ hop ∈ hops, ∀ r ∈ hop.attempts.flatten, Confined p c hop r
  artifacts : ∀ first, hops.getLast? = some first → ∀ hop ∈ hops, ∀ r ∈ hop.attempts.flatten,
    CarriesArtifact r.headers → SameOrigin p r.url first.url
  https : hops.Pairwise fun later earlier => Https p earlier.url → Https p later.url
  nodup : (hops.map Hop.url).Nodup
  hops_le : hops.length ≤ maxRedirects c + 1
  attempts_le : ∀ hop ∈ hops, hop.attempts.length ≤ maxAttempts c

/-! ## the newest hop -/

def firstUrl (url : JsString) (older : List Hop) : JsString := (older.getLast?.map Hop.url).getD url

variable {older : List Hop}

theorem first_eq {hop first : Hop} (h : (hop :: older).getLast? = some first) :
    first.url = firstUrl hop.url older := by
  cases older with
  | nil =>
    simp only [List.getLast?_singleton, Option.some.injEq] at h
    rw [← h]
    rfl
  | cons hop' older =>
    rw [List.getLast?_cons_cons] at h
    rw [firstUrl, h]
    rfl

theorem Contained.nil : Contained p c [] where
  confined := nofun
  artifacts := nofun
  https := .nil
  nodup := .nil
  hops_le := Nat.zero_le _
  attempts_le := nofun

theorem Contained.still {hop hop' : Hop} (h : Contained p c (hop :: older))
    (hurl : hop'.url = hop.url) (hgate : hop'.gate = hop.gate) {r : Request} (hr : r ∈ hop.attempts.flatten) :
    Confined p c hop' r ∧ (CarriesArtifact r.headers → SameOrigin p r.url (firstUrl hop'.url older)) := by
  have hconf := h.confined hop (by simp) r hr
  refine ⟨⟨hconf.url.trans hurl.symm, hconf.http, by rw [hgate]; exact hconf.gate⟩, fun hcarries => ?_⟩
  obtain ⟨first, hfirst⟩ : ∃ first, (hop :: older).getLast? = some first :=
    ⟨_, List.getLast?_eq_some_getLast (by simp)⟩
  have hsame := h.artifacts first hfirst hop (by simp) r hr hcarries
  rwa [first_eq hfirst, ← hurl] at hsame

theorem Contained.renew {hop hop' : Hop} (h : Contained p c (hop :: older))
    (hurl : hop'.url = hop.url) (hlen : hop'.attempts.length ≤ maxAttempts c)
    (hreq : ∀ r ∈ hop'.attempts.flatten, Confined p c hop' r ∧
      (CarriesArtifact r.headers → SameOrigin p r.url (firstUrl hop'.url older))) :
    Contained p c (hop' :: older) where
  confined := by
    intro g hg r hr
    cases List.mem_cons.mp hg with
    | inl hg => subst hg; exact (hreq r hr).1
    | inr hg => exact h.confined g (List.mem_cons_of_mem _ hg) r hr
  artifacts := by
    intro first hfirst g hg r hr hcarries
    rw [first_eq hfirst]
    cases List.mem_cons.mp hg with
    | inl hg => subst hg; exact (hreq r hr).2 hcarries
    | inr hg =>
      obtain ⟨last, hlast⟩ : ∃ last, (hop :: older).getLast? = some last :=
        ⟨_, List.getLast?_eq_some_getLast (by simp)⟩
      have hsame := h.artifacts last hlast g (List.mem_cons_of_mem _ hg) r hr hcarries
      rwa [first_eq hlast, ← hurl] at hsame
  https := by
    have hp := List.pairwise_cons.mp h.https
    exact List.pairwise_cons.mpr ⟨fun g hg => by rw [hurl]; exact hp.1 g hg, hp.2⟩
  nodup := by simpa [hurl] using h.nodup
  hops_le := h.hops_le
  attempts_le := by
    intro g hg
    cases List.mem_cons.mp hg with
    | inl hg => subst hg; exact hlen
    | inr hg => exact h.attempts_le g (List.mem_cons_of_mem _ hg)

theorem Contained.begin {url : JsString} (h : Contained p c older)
    (hnew : url ∉ older.map Hop.url) (hlen : older.length ≤ maxRedirects c)
    (hhttps : ∀ hop ∈ older, Https p hop.url → Https p url) :
    Contained p c ({ url, gate := none, attempts := [] } :: older) where
  confined := by
    intro g hg r hr
    cases List.mem_cons.mp hg with
    | inl hg => subst hg; simp at hr
    | inr hg => exact h.confined g hg r hr
  artifacts := by
    intro first hfirst g hg r hr hcarries
    cases List.mem_cons.mp hg with
    | inl hg => subst hg; simp at hr
    | inr hg =>
      cases older with
      | nil => simp at hg
      | cons hop older =>
        exact h.artifacts first hfirst g hg r hr hcarries
  https := List.pairwise_cons.mpr ⟨hhttps, h.https⟩
  nodup := by simpa using ⟨by simpa using hnew, h.nodup⟩
  hops_le := by simpa using hlen
  attempts_le := by
    intro g hg
    cases List.mem_cons.mp hg with
    | inl hg => subst hg; simp
    | inr hg => exact h.attempts_le g hg

/-! ## requests -/

/-- A delivery is at a hop whose gate passed, with so many attempts. -/
structure At (p : Platform) (c : Config N) (url : JsString) (pinned : Option (List PinnedAddress))
    (older : List Hop) (n : Nat) (w : World N) : Prop where
  hops : ∃ attempts, w.hops = { url, gate := some pinned, attempts } :: older ∧ attempts.length = n
  contained : Contained p c w.hops
  pins : PinsOk p w.pins

variable {url : JsString} {pinned : Option (List PinnedAddress)} {older : List Hop} {n : Nat} {w w' : World N}

theorem At.of_post (h : At p c url pinned older n w) (hhops : w'.hops = w.hops) (hpins : PinsOk p w'.pins) :
    At p c url pinned older n w' where
  hops := by rw [hhops]; exact h.hops
  contained := by rw [hhops]; exact h.contained
  pins := hpins

/-- The headers of a hop have the artifacts only on the first origin. -/
def HeadersOk (p : Platform) (url : JsString) (older : List Hop) (headers : JsMap String JsString) : Prop :=
  CarriesArtifact headers → SameOrigin p url (firstUrl url older)

theorem Passed.http (h : Passed p c url pinned) : Http p url := by
  have hsafe := h.safe
  cases hu : p.newUrl url with
  | none => simp [SafeUrl.checkUrl, Platform.env, hu, SafeUrl.CheckUrlResult.refuse] at hsafe
  | some u =>
    have henv : p.env.newUrl url = some ⟨u.protocol, u.hostname⟩ := by simp [Platform.env, hu]
    simp only [SafeUrl.checkUrl, henv] at hsafe
    split at hsafe
    · cases hsafe
    · next hscheme =>
      refine ⟨u, hu, ?_⟩
      simp only [not_and, not_not] at hscheme
      exact or_iff_not_imp_left.mpr hscheme

theorem send_meets {r : Request} (h : At p c url pinned older (n + 1) w) (hpassed : Passed p c url pinned)
    (hurl : r.url = url) (hreach : ∀ address, r.Reaches p address → address ∈ lets p url pinned)
    (hheaders : HeadersOk p url older r.headers) :
    (send (P := P) r w).Meets (contract p (Contained p c)) fun _ w' => At p c url pinned older (n + 1) w' := by
  obtain ⟨attempts, hhops, hlen⟩ := h.hops
  cases attempts with
  | nil => cases hlen
  | cons requests attempts =>
    have hsent : (onHop (Hop.request r) w).hops =
        { url, gate := some pinned, attempts := (r :: requests) :: attempts } :: older := by
      rw [onHop, hhops]
      rfl
    have hcontained : Contained p c (onHop (Hop.request r) w).hops := by
      have hc := h.contained
      rw [hhops] at hc
      rw [hsent]
      have hle := hc.attempts_le _ List.mem_cons_self
      refine hc.renew rfl hle fun r' hr' => ?_
      simp only [List.flatten_cons, List.cons_append, List.mem_cons] at hr'
      cases hr' with
      | inl hr' =>
        subst hr'
        refine ⟨⟨hurl, by rw [hurl]; exact hpassed.http, pinned, rfl, by rw [hurl]; exact hpassed, ?_⟩, ?_⟩
        · rw [hurl]
          exact hreach
        · rw [hurl]
          exact hheaders
      | inr hr' =>
        refine hc.still ?_ ?_ hr'
        · rfl
        · rfl
    have hpins : PinsOk p (onHop (Hop.request r) w).pins := by
      rw [onHop, hhops]
      exact h.pins
    refine ⟨⟨hcontained, hpins, ?_⟩, fun ans w' hpost => ⟨⟨_, hpost.1.trans hsent, hlen⟩, ?_, hpost.2⟩⟩
    · rintro r' ⟨rfl⟩
      exact ⟨_, _, _, _, hsent, rfl⟩
    · rw [hpost.1]
      exact hcontained

variable {headers : JsMap String JsString}

theorem carriesArtifact_withHost
    (h : CarriesArtifact (withHost p url headers)) : CarriesArtifact headers := by
  obtain ⟨name, hname, hget⟩ := h
  refine ⟨name, hname, ?_⟩
  unfold withHost at hget
  split at hget
  · exact hget
  split at hget
  · exact hget
  · rw [JsMap.get?_set_ne] at hget
    · exact hget
    · rintro rfl
      revert hname
      decide

theorem mem_of_mem_pinnedLookup {pins : List PinnedAddress} {all : Bool} {family : Nat} {a : PinnedAddress}
    (h : a ∈ pinnedLookup pins all family) : a ∈ pins := by
  unfold pinnedLookup at h
  split at h
  · exact h
  split at h
  · rw [Option.mem_toList] at h
    exact List.mem_of_find?_eq_some h
  · rw [Option.mem_toList] at h
    exact List.mem_of_mem_head? h

theorem At.attempt (h : At p c url pinned older n w) (hn : n < maxAttempts c) :
    At p c url pinned older (n + 1) (onHop Hop.attempt w) := by
  obtain ⟨attempts, hhops, hlen⟩ := h.hops
  have hbegun : (onHop Hop.attempt w).hops = { url, gate := some pinned, attempts := [] :: attempts } :: older := by
    rw [onHop, hhops]
    rfl
  refine ⟨⟨_, hbegun, by simp [hlen]⟩, ?_, ?_⟩
  · have hc := h.contained
    rw [hhops] at hc
    rw [hbegun]
    have hle : ([] :: attempts).length ≤ maxAttempts c := by
      rw [List.length_cons, hlen]
      exact hn
    refine hc.renew rfl hle fun r hr => hc.still ?_ ?_ hr
    · rfl
    · rfl
  · rw [onHop, hhops]
    exact h.pins

/-- What `headersForHop` lets stay. -/
theorem headersForHop_ok {initialOrigin : Option JsString} (headers : JsMap String JsString)
    (h : initialOrigin = originOf p (firstUrl url older)) :
    HeadersOk p url older (headersForHop p url initialOrigin headers) := by
  rintro ⟨name, hname, hget⟩
  simp only [headersForHop] at hget
  split at hget
  · next hsame => exact ⟨hsame.1, hsame.2.2.trans h⟩
  · rw [JsMap.get?_foldl_delete, if_pos hname] at hget
    cases hget

theorem takeAdmission_meets {destinations : List JsString} (hat : At p c url pinned older n w) :
    (takeAdmission (P := P) destinations w).Meets (contract p (Contained p c)) fun _ w' =>
      At p c url pinned older n w' := by
  induction destinations generalizing w with
  | nil => exact hat
  | cons destination destinations ih =>
    refine BunServe.Outcome.Meets.ask ⟨hat.contained, hat.pins, nofun⟩ fun refused w' hpost => ?_
    split
    · exact hat.of_post hpost.1 hpost.2
    · exact ih (hat.of_post hpost.1 hpost.2)

theorem https_of_resolveRedirect (hp : Whatwg p) {location : Option JsString} {next : JsString}
    (h : resolveRedirect p url location = .ok next) (hcur : Https p url) : Https p next := by
  obtain ⟨cur, hurl, hprotocol⟩ := hcur
  cases location with
  | none => cases h
  | some location =>
    simp only [resolveRedirect] at h
    split at h
    · cases h
    split at h
    · cases h
    next u hu =>
      split at h
      · cases h
      next hscheme =>
        split at h
        · cases h
        next hdown =>
          cases h
          refine ⟨u, hp.resolve _ _ _ hu, ?_⟩
          have hnot : u.protocol ≠ js "http:" := by
            intro hhttp
            exact hdown (by simp [hurl, hprotocol, hhttp])
          by_contra hs
          exact hscheme ⟨hnot, hs⟩

theorem firstUrl_cons (next : JsString) (hop : Hop) (older : List Hop) :
    firstUrl next (hop :: older) = firstUrl hop.url older := by
  cases older with
  | nil => rfl
  | cons hop' older =>
    rfl

variable (pinned) in
theorem at_pass {w' : World N} (hcont : Contained p c w.hops)
    (hbegun : w.hops = { url, gate := none, attempts := [] } :: older) (hhops : w'.hops = w.hops)
    (hpins : PinsOk p w'.pins) : At p c url pinned older 0 (onHop (Hop.pass pinned) w') := by
  have hpassed : (onHop (Hop.pass pinned) w').hops = { url, gate := some pinned, attempts := [] } :: older := by
    rw [onHop, hhops, hbegun]
    rfl
  refine ⟨⟨[], hpassed, rfl⟩, ?_, ?_⟩
  · rw [hbegun] at hcont
    rw [hpassed]
    exact hcont.renew rfl (Nat.zero_le _) nofun
  · rw [onHop, hhops, hbegun]
    exact hpins

variable {h : Hooks}

theorem deniedOf_meets {seen destinations : List JsString} (hat : At p c url pinned older n w) :
    (deniedOf (P := P) h seen destinations w).Meets (contract p (Contained p c)) fun _ w' =>
      At p c url pinned older n w' := by
  rw [deniedOf]
  split
  · exact takeAdmission_meets hat
  · exact hat

theorem ask_meets {α : Type} {op : Op} {f : Ans P op → Delivery N P α} {Q : α → World N → Prop}
    (hcont : Contained p c w.hops) (hpins : PinsOk p w.pins) (hhttp : ∀ r, op ≠ .http r)
    (hf : ∀ ans w', w'.hops = w.hops → PinsOk p w'.pins → (f ans w').Meets (contract p (Contained p c)) Q) :
    ((Prog.ask op >>= f) w).Meets (contract p (Contained p c)) Q :=
  .ask ⟨hcont, hpins, fun r hr => absurd hr (hhttp r)⟩ fun ans w' hpost => hf ans w' hpost.1 hpost.2

theorem early_meets (op : Op) {b : Prop} [Decidable b] {a : Ans P op} (hhops : w.hops = [])
    (hpins : PinsOk p w.pins) (hhttp : ∀ r, op ≠ .http r) :
    ((if b then Prog.ask op else pure a : Delivery N P (Ans P op)) w).Meets (contract p (Contained p c))
      fun _ w' => w'.hops = [] ∧ PinsOk p w'.pins := by
  have hcont : Contained p c w.hops := by
    rw [hhops]
    exact .nil
  split
  · exact ⟨⟨hcont, hpins, fun r hr => absurd hr (hhttp r)⟩, fun _ w' hpost => ⟨hpost.1.trans hhops, hpost.2⟩⟩
  · exact ⟨hhops, hpins⟩

theorem record_meets {outcome : Outcome} (hcont : Contained p c w.hops) (hpins : PinsOk p w.pins) :
    (record (P := P) h outcome w).Meets (contract p (Contained p c)) fun _ w' =>
      Contained p c w'.hops ∧ PinsOk p w'.pins := by
  have hdone (w' : World N) (hhops : w'.hops = w.hops) (hpins' : PinsOk p w'.pins) :
      Contained p c w'.hops ∧ PinsOk p w'.pins := ⟨by rw [hhops]; exact hcont, hpins'⟩
  unfold record
  split
  · cases outcome with
    | ok =>
      refine ask_meets hcont hpins nofun fun r w' hhops hpins' => ?_
      cases r <;> exact hdone w' hhops hpins'
    | failed err attempts =>
      simp only
      split
      · refine ask_meets hcont hpins nofun fun r w' hhops hpins' => ?_
        cases r <;> exact hdone w' hhops hpins'
      · exact ⟨hcont, hpins⟩
  · exact ⟨hcont, hpins⟩

/-- What holds of a delivery of a process. -/
structure Member.Ok (x : Setup N P) (m : Member N P) : Prop where
  meets : m.outcome.Meets (contract x.platform (Contained x.platform (x.config m.config))) fun _ w =>
    Contained x.platform (x.config m.config) w.hops ∧ PinsOk x.platform w.pins
  returns : m.outcome.Returns

structure Deliveries.Ok (x : Setup N P) (s : Deliveries N P) : Prop where
  pins : ∀ config, PinsOk x.platform (s.pins config)
  members : ∀ m ∈ s.members, m.Ok x

theorem stateOf_of_meets {α : Type} {o : BunServe.Outcome (World N) Op (Ans P) α}
    (h : o.Meets (contract p (Contained p c)) fun _ w => Contained p c w.hops ∧ PinsOk p w.pins) :
    Contained p c (stateOf o).hops ∧ PinsOk p (stateOf o).pins := by
  cases o with
  | done a w => exact h
  | fail w => exact h.elim
  | ask op w k => exact ⟨h.1.1, h.1.2.1⟩

variable {x : Setup N P} {s : Deliveries N P}

theorem Deliveries.Ok.leave (h : s.Ok x) {config : Nat} {w : World N}
    (hpins : PinsOk x.platform w.pins) : (s.leave config w).Ok x where
  pins := by
    intro c
    simp only [Deliveries.leave]
    split
    · exact hpins
    · exact h.pins c
  members := h.members

variable [Number N]

variable {body : JsString}

theorem tryAddresses_meets {pins addresses : List PinnedAddress}
    {deadline : N} {lastError : Err} (h : At p c url (some pins) older (n + 1) w)
    (hpassed : Passed p c url (some pins)) (hheaders : HeadersOk p url older headers)
    (hsub : ∀ a ∈ addresses, a ∈ pins) :
    (tryAddresses (P := P) p url headers body deadline lastError addresses w).Meets
      (contract p (Contained p c)) fun _ w' => At p c url (some pins) older (n + 1) w' := by
  induction addresses generalizing lastError w with
  | nil => exact h
  | cons a addresses ih =>
    rw [tryAddresses, Prog.get_bind_run]
    split
    · exact h
    have hsend := send_meets (P := P)
      (r := { url, connect := .pinned a, headers := withHost p url headers, body }) h hpassed rfl
      (fun address hr => hr ▸ List.mem_map_of_mem (hsub a (by simp)))
      (fun hcarries => hheaders (carriesArtifact_withHost hcarries))
    refine hsend.seq fun r w₁ h₁ => ?_
    split
    · exact ih h₁ fun a ha => hsub a (List.mem_cons_of_mem _ ha)
    · exact h₁

theorem httpDeliver_meets
    (h : At p c url pinned older (n + 1) w) (hpassed : Passed p c url pinned)
    (hheaders : HeadersOk p url older headers) :
    (httpDeliver (P := P) p c url pinned headers body w).Meets (contract p (Contained p c)) fun _ w' =>
      At p c url pinned older (n + 1) w' := by
  cases pinned with
  | none =>
    refine send_meets h hpassed rfl (fun address hr => ?_) hheaders
    obtain ⟨u, hu, hip⟩ := hpassed.literal rfl
    rw [lets, hu]
    simp only [hip, if_true, List.mem_singleton]
    exact hr u hu hip
  | some pins =>
    simp only [httpDeliver]
    split
    · exact tryAddresses_meets h hpassed hheaders fun a ha => mem_of_mem_pinnedLookup ha
    · refine send_meets h hpassed rfl (fun address hr => ?_) hheaders
      obtain ⟨all, family, a, ha, rfl⟩ := hr
      exact List.mem_map_of_mem (mem_of_mem_pinnedLookup ha)

theorem attemptFrom_meets (h : Hooks) (body : JsString) {left : Nat}
    (lastErr : Err) (hat : At p c url pinned older n w) (hpassed : Passed p c url pinned)
    (hheaders : HeadersOk p url older headers) (hleft : n + left ≤ maxAttempts c) :
    (attemptFrom (P := P) p c h url pinned headers body left n lastErr w).Meets
      (contract p (Contained p c)) fun _ w' => ∃ n', At p c url pinned older n' w' := by
  induction left generalizing n lastErr w with
  | zero => exact ⟨n, hat⟩
  | succ left ih =>
    refine (httpDeliver_meets (hat.attempt (by omega)) hpassed hheaders).seq fun r w₁ h₁ => ?_
    cases verdictOf n r with
    | ok result => exact ⟨_, h₁⟩
    | error lastErr =>
      simp only
      split
      · exact ⟨_, h₁⟩
      have hbudget : (mayRetry (P := P) h w₁).Meets (contract p (Contained p c)) fun _ w' =>
          At p c url pinned older (n + 1) w' := by
        rw [mayRetry]
        split
        · exact ⟨⟨h₁.contained, h₁.pins, nofun⟩, fun _ w' hpost => h₁.of_post hpost.1 hpost.2⟩
        · exact h₁
      refine hbudget.seq fun allowed w₂ h₂ => ?_
      split
      · exact ⟨_, h₂⟩
      · refine BunServe.Outcome.Meets.ask ⟨h₂.contained, h₂.pins, nofun⟩ fun _ w₃ hpost => ?_
        exact ih _ (h₂.of_post hpost.1 hpost.2) (by omega)

/-! ## hops -/

/-- **The hops**: a delivery keeps to what is to hold of them. -/
theorem hopsFrom_meets (hp : Whatwg p) {initialOrigin : Option JsString}
     {left : Nat} {seen : List JsString}
    (hcont : Contained p c w.hops) (hpins : PinsOk p w.pins) (hseen : seen = w.hops.map Hop.url)
    (hleft : left + w.hops.length = maxRedirects c + 1)
    (horigin : initialOrigin = originOf p (firstUrl url w.hops))
    (hhttps : ∀ hop ∈ w.hops, Https p hop.url → Https p url) :
    (hopsFrom (P := P) p c h initialOrigin headers body left seen url w).Meets (contract p (Contained p c))
      fun _ w' => Contained p c w'.hops ∧ PinsOk p w'.pins := by
  induction left generalizing url seen w with
  | zero => exact ⟨hcont, hpins⟩
  | succ left ih =>
    rw [hopsFrom]
    split
    · exact ⟨hcont, hpins⟩
    rename_i hnew
    have hbegun : Contained p c (beginHop url w).hops :=
      hcont.begin (hseen ▸ hnew) (by omega) hhttps
    refine (ssrfGate_meets hp hbegun hpins).seq fun gate w₁ h₁ => ?_
    cases gate with
    | error reason => exact ⟨by rw [h₁.1]; exact hbegun, h₁.2.1⟩
    | ok pinned =>
      simp only
      have hpassed := h₁.2.2 pinned rfl
      have hat := at_pass pinned hbegun rfl h₁.1 h₁.2.1
      refine (deniedOf_meets hat).seq fun denied w₂ h₂ => ?_
      cases denied with
      | some destination => exact ⟨h₂.contained, h₂.pins⟩
      | none =>
        have hattempts := attemptFrom_meets (P := P) h body .network h₂ hpassed
          (headersForHop_ok headers horigin) (Nat.le_of_eq (Nat.zero_add _))
        refine hattempts.seq fun result w₃ h₃ => ?_
        obtain ⟨n, h₃⟩ := h₃
        cases result with
        | delivered | failed err attempts => exact ⟨h₃.contained, h₃.pins⟩
        | redirect location =>
          cases hnext : resolveRedirect p url location with
          | error reason =>
            simp only [hnext]
            exact ⟨h₃.contained, h₃.pins⟩
          | ok next =>
            simp only [hnext]
            obtain ⟨attempts, hhops, -⟩ := h₃.hops
            refine ih h₃.contained h₃.pins ?_ ?_ ?_ ?_
            · rw [hhops, hseen, List.map_cons]
            · rw [hhops, List.length_cons]
              omega
            · rw [hhops, firstUrl_cons]
              exact horigin
            · intro hop hmem hs
              refine https_of_resolveRedirect hp hnext ?_
              rw [hhops] at hmem
              cases List.mem_cons.mp hmem with
              | inl hmem => rw [hmem] at hs; exact hs
              | inr hmem => exact hhttps hop hmem hs

/-! ## the delivery -/

theorem deliverToUrl_meets (hp : Whatwg p) {initialUrl : JsString}
     (hhops : w.hops = []) (hpins : PinsOk p w.pins) :
    (deliverToUrl (P := P) p c h initialUrl headers body w).Meets (contract p (Contained p c)) fun _ w' =>
      Contained p c w'.hops ∧ PinsOk p w'.pins := by
  refine hopsFrom_meets hp ?_ hpins ?_ ?_ ?_ ?_
  · rw [hhops]
    exact .nil
  · rw [hhops]
    rfl
  · rw [hhops]
    rfl
  · rw [hhops]
    cases hu : p.newUrl initialUrl with
    | none => simp [firstUrl, originOf, hu]
    | some u => simp [firstUrl, originOf, hp.reparse _ _ hu]
  · rw [hhops]
    nofun

theorem deliverGuarded_meets (hp : Whatwg p) {stringify : P → Option JsString}
    {topic event url : JsString} {payload : P} (hhops : w.hops = []) (hpins : PinsOk p w.pins) :
    (deliverGuarded p c h stringify topic event url payload w).Meets (contract p (Contained p c)) fun _ w' =>
      Contained p c w'.hops ∧ PinsOk p w'.pins := by
  have hend {w' : World N} (hhops' : w'.hops = []) (hpins' : PinsOk p w'.pins) :
      Contained p c w'.hops ∧ PinsOk p w'.pins := ⟨by rw [hhops']; exact .nil, hpins'⟩
  unfold deliverGuarded
  cases stringify payload with
  | none => exact hend hhops hpins
  | some body =>
    have hidem : (idempotencyKeyOf (P := P) p c topic event body w).Meets (contract p (Contained p c))
        fun _ w' => w'.hops = [] ∧ PinsOk p w'.pins := by
      exact early_meets .idempotencyKey hhops hpins nofun
    refine hidem.seq fun idem w₁ h₁ => ?_
    cases idem with
    | error err => exact hend h₁.1 h₁.2
    | ok idem =>
      simp only
      cases withIdempotencyKey _ idem with
      | none => exact hend h₁.1 h₁.2
      | some headers =>
        simp only
        exact (deliverToUrl_meets hp h₁.1 h₁.2).seq fun outcome w₂ h₂ => record_meets h₂.1 h₂.2

/-- **One delivery**: wherever it asks and where it ends, its hops are as they are to be. -/
theorem deliverWebhook_meets (hp : Whatwg p) {stringify : P → Option JsString}
    {topic event : JsString} {payload : P} (hhops : w.hops = []) (hpins : PinsOk p w.pins) :
    (deliverWebhook p c h stringify topic event payload w).Meets (contract p (Contained p c)) fun _ w' =>
      Contained p c w'.hops ∧ PinsOk p w'.pins := by
  have hend {w' : World N} (hhops' : w'.hops = []) (hpins' : PinsOk p w'.pins) :
      Contained p c w'.hops ∧ PinsOk p w'.pins := ⟨by rw [hhops']; exact .nil, hpins'⟩
  have hpayload : (payloadOf c payload w).Meets (contract p (Contained p c)) fun _ w' =>
      w'.hops = [] ∧ PinsOk p w'.pins := by
    exact early_meets .transform hhops hpins nofun
  refine hpayload.seq fun payload w₁ h₁ => ?_
  rcases payload with err | _ | payload
  · exact hend h₁.1 h₁.2
  · exact hend h₁.1 h₁.2
  have hurl : (urlOf (P := P) c w₁).Meets (contract p (Contained p c)) fun _ w' =>
      w'.hops = [] ∧ PinsOk p w'.pins := by
    exact early_meets .url h₁.1 h₁.2 nofun
  refine hurl.seq fun url w₂ h₂ => ?_
  rcases url with err | _ | url
  · exact hend h₂.1 h₂.2
  · exact hend h₂.1 h₂.2
  simp only
  split
  · exact hend h₂.1 h₂.2
  have hguard : (guard (P := P) h w₂).Meets (contract p (Contained p c)) fun _ w' =>
      w'.hops = [] ∧ PinsOk p w'.pins := by
    exact early_meets .guard h₂.1 h₂.2 nofun
  refine hguard.seq fun gate w₃ h₃ => ?_
  cases gate with
  | error err => exact hend h₃.1 h₃.2
  | ok _ => exact deliverGuarded_meets hp h₃.1 h₃.2

/-! ## the deliveries of a process -/

theorem Deliveries.Ok.start (hp : Whatwg x.platform) (h : s.Ok x)
    {config : Nat} {key : JsString} {hooks : Hooks} {topic event : JsString} {payload : P} :
    (s.start x config key hooks topic event payload).Ok x := by
  have hmeets : (deliverWebhook x.platform (x.config config) hooks x.stringify topic event payload
      (s.fresh config)).Meets (contract x.platform (Contained x.platform (x.config config))) fun _ w =>
        Contained x.platform (x.config config) w.hops ∧ PinsOk x.platform w.pins :=
    deliverWebhook_meets hp rfl (h.pins config)
  refine ⟨(h.leave (stateOf_of_meets hmeets).2).pins, fun m hm => ?_⟩
  simp only [Deliveries.start, List.mem_append, List.mem_singleton] at hm
  cases hm with
  | inl hm => exact h.members m hm
  | inr hm =>
    subst hm
    exact ⟨hmeets, deliverWebhook_returns _ _ _ _ _ _⟩

theorem Deliveries.Ok.resume {s' : Deliveries N P} (h : s.Ok x) {i : Nat}
    {reply : (op : Op) → Ans P op} (hs : s.resume x i reply = some s') : s'.Ok x := by
  unfold Deliveries.resume at hs
  split at hs
  · cases hs
  next m hm =>
    have hok := h.members m (List.mem_of_getElem? hm)
    split at hs
    · next op w k hout =>
      cases hs
      obtain ⟨hmeets, hreturns⟩ := hok
      rw [hout] at hmeets hreturns
      have hnext := hmeets.2 (s.answer x m reply op).1 (s.refresh m.config w) ⟨rfl, h.pins _⟩
      refine ⟨(h.leave (stateOf_of_meets hnext).2).pins, fun m' hm' => ?_⟩
      cases List.mem_or_eq_of_mem_set hm' with
      | inl hm' => exact h.members m' hm'
      | inr hm' =>
        subst hm'
        exact ⟨hnext, hreturns.2 _ _ trivial⟩
    · cases hs

instance : Number Int where
  toLinearOrder := Int.instLinearOrder
  toAdd := Int.instAdd
  toSub := Int.instSub
  toZero := ⟨0⟩
  toNatCast := ⟨Int.ofNat⟩

/-- By request of each hop: it carries the signature. -/
def signed (m : Member Int JsString) : List (List Bool) :=
  (stateOf m.outcome).hops.map fun hop =>
    hop.attempts.flatten.map fun r => (r.headers.get? "x-webhook-signature").isSome

end BunServe.Webhooks
