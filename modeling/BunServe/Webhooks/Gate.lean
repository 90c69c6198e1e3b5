import BunServe.SafeUrl.Resolved
import BunServe.Webhooks

/-!
# BunServe.Webhooks.Gate

What the gate of a hop lets through: of an address that is pinned, and of an IP literal
that needs no pin, `classifyAddress` says that it is public.

* `Whatwg` — what is relied on of URL parsing;
* `classifyAddress_of_checkUrl` — a literal that `checkUrl` passes is public;
* `PinsOk` — what a range check has passed is all that the cache keeps under it;
* `ssrfGate_meets` — the addresses that a gate lets through.
-/

namespace BunServe.Webhooks

open SafeUrl (Mode Answer checkUrl classifyAddress classifyHost classifyNormal bracketed bare inner
  parseIpv4 parseIpv6 parseGroups)

/-- What is relied on of `new URL`. -/
structure Whatwg (p : Platform) : Prop where
  /-- Parsing an `href` again gives the same URL. -/
  reparse : ∀ text u, p.newUrl text = some u → p.newUrl u.href = some u
  resolve : ∀ location base u, p.resolveUrl location base = some u → p.newUrl u.href = some u
  /-- A host that begins with a bracket is an IPv6 literal, without zone. -/
  ipv6 : ∀ text u, p.newUrl text = some u → u.hostname.head? = some (unit '[') →
    ∃ m, u.hostname = unit '[' :: m ++ [unit ']'] ∧ (parseGroups m).isSome = true
  /-- A host of four short numbers is an IPv4 literal. -/
  ipv4 : ∀ text u, p.newUrl text = some u → isDotted u.hostname = true →
    (parseIpv4 u.hostname).isSome = true

/-! ## literals -/

def Literal (host : JsString) : Prop :=
  (∃ m, host = unit '[' :: m ++ [unit ']'] ∧ (parseGroups m).isSome = true) ∨
    (parseIpv4 host).isSome = true

variable {p : Platform} {N P : Type}

theorem Whatwg.literal (hp : Whatwg p) {text : JsString} {u : Url} (hu : p.newUrl text = some u)
    (h : isIpLiteral u.hostname = true) : Literal u.hostname := by
  simp only [isIpLiteral, Bool.or_eq_true, decide_eq_true_eq] at h
  cases h with
  | inl h => exact .inl (hp.ipv6 _ _ hu h)
  | inr h => exact .inr (hp.ipv4 _ _ hu h)

variable {host : JsString}

theorem head_of_ipv4 (h : (parseIpv4 host).isSome = true) :
    host.head? ≠ some (unit '[') ∧ unit ':' ∉ host := by
  obtain ⟨v, hv⟩ := Option.isSome_iff_exists.mp h
  have hunits := (SafeUrl.units_of_parseIpv4 hv).2
  constructor
  · intro hhead
    exact (SafeUrl.ne_mark_of_ipv4Unit (hunits _ (List.mem_of_mem_head? hhead))).1 rfl
  · intro hmem
    exact (SafeUrl.ne_mark_of_ipv4Unit (hunits _ hmem)).2.2.2 rfl

theorem head_of_ipv6 {m : JsString} (h : (parseGroups m).isSome = true) :
    m.head? ≠ some (unit '[') ∧ unit ':' ∈ m := by
  obtain ⟨g, hg⟩ := Option.isSome_iff_exists.mp h
  constructor
  · intro hhead
    exact (SafeUrl.ne_mark_of_ipv6Unit (SafeUrl.units_of_parseGroups hg _ (List.mem_of_mem_head? hhead))).1 rfl
  · by_contra hmem
    rw [SafeUrl.parseGroups_eq_none_of_no_colon hmem] at hg
    cases hg

theorem parseIpv6_of_parseGroups {m : JsString} {g : SafeUrl.Groups} (h : parseGroups m = some g) :
    parseIpv6 m = some g := by
  have hall : m.takeWhile (· ≠ unit '%') = m := by
    rw [List.takeWhile_eq_self_iff]
    intro u hu
    simpa using (SafeUrl.ne_mark_of_ipv6Unit (SafeUrl.units_of_parseGroups h u hu)).2.2
  rw [parseIpv6, hall, h]

theorem Literal.bracketed_bare (h : Literal host) :
    bracketed (bare host) = host ∧ bracketed host = host := by
  obtain ⟨m, rfl, hm⟩ | h := h
  · obtain ⟨hhead, hcolon⟩ := head_of_ipv6 hm
    rw [SafeUrl.bare_brackets]
    exact ⟨by rw [bracketed, if_pos ⟨hcolon, hhead⟩], by simp [bracketed]⟩
  · obtain ⟨hhead, hcolon⟩ := head_of_ipv4 h
    simp [bare, hhead, bracketed, hcolon]

theorem Literal.classifyAddress_bare (h : Literal host) (lc : LowerCase)
    (nat64 : Option JsString) : classifyAddress lc (bare host) nat64 = classifyAddress lc host nat64 := by
  simp only [classifyAddress, h.bracketed_bare.1, h.bracketed_bare.2]

theorem lower_of_ipv6 {m : JsString} (h : (parseGroups m).isSome = true) (lc : LowerCase) :
    SafeUrl.stripDot (lc.lower (unit '[' :: m ++ [unit ']'])) =
      unit '[' :: m.map asciiLower ++ [unit ']'] := by
  obtain ⟨g, hg⟩ := Option.isSome_iff_exists.mp h
  have hascii : ∀ u ∈ unit '[' :: m ++ [unit ']'], u < 128 := by
    intro u hu
    simp only [List.cons_append, List.mem_cons, List.mem_append, List.not_mem_nil, or_false] at hu
    rcases hu with rfl | hu | rfl
    · decide
    · exact (SafeUrl.plain_of_ipv6Unit (SafeUrl.units_of_parseGroups hg u hu)).1
    · decide
  have hlower : lc.lower (unit '[' :: m ++ [unit ']']) = unit '[' :: m.map asciiLower ++ [unit ']'] := by
    rw [LowerCase.lower, LowerCase.lowerFrom_of_ascii hascii]
    simp only [List.map_append]
    rfl
  have hlast : (unit '[' :: m.map asciiLower ++ [unit ']']).getLast? ≠ some (unit '.') := by
    rw [List.getLast?_concat]
    decide
  rw [hlower, SafeUrl.stripDot, if_neg hlast]

theorem lower_of_ipv4 {v : BitVec 32} (h : parseIpv4 host = some v) (lc : LowerCase) :
    SafeUrl.stripDot (lc.lower host) = host.map asciiLower := by
  have hascii := fun u hu => (SafeUrl.plain_of_ipv4Unit ((SafeUrl.units_of_parseIpv4 h).2 u hu)).1
  rw [LowerCase.lower, LowerCase.lowerFrom_of_ascii hascii]
  cases SafeUrl.stripDot_cases (host.map asciiLower) with
  | inl hd => exact hd.2
  | inr hd =>
    have hnone := SafeUrl.parseIpv4_append_dot (SafeUrl.stripDot (host.map asciiLower))
    rw [← hd, SafeUrl.parseIpv4_map_lower, h] at hnone
    cases hnone

theorem Literal.classifyHost_ne (h : Literal host) (lc : LowerCase)
    (nat64 : Option SafeUrl.Nat64Prefix) (name : JsString) :
    classifyHost lc host nat64 ≠ some (.dnsName name) := by
  obtain ⟨m, rfl, hm⟩ | h := h
  · rw [classifyHost, lower_of_ipv6 hm, classifyNormal, if_neg (by simp),
      if_pos ⟨by simp, List.getLast?_concat⟩]
    split
    · simp
    · cases SafeUrl.classifyIpv6 _ nat64 <;> simp
  · obtain ⟨v, hv⟩ := Option.isSome_iff_exists.mp h
    rw [classifyHost, lower_of_ipv4 hv]
    unfold classifyNormal
    rw [SafeUrl.parseIpv4_map_lower, hv]
    split
    · simp
    split
    · split
      · simp
      · cases SafeUrl.classifyIpv6 _ nat64 <;> simp
    split
    · simp
    split
    · simp
    · cases SafeUrl.classifyIpv4 v <;> simp

theorem Literal.isIpLiteral (h : Literal host) : SafeUrl.IsIpLiteral host := by
  obtain ⟨m, rfl, hm⟩ | h := h
  · obtain ⟨g, hg⟩ := Option.isSome_iff_exists.mp hm
    rw [SafeUrl.IsIpLiteral, SafeUrl.bare_brackets, parseIpv6_of_parseGroups hg]
    exact .inr rfl
  · rw [SafeUrl.IsIpLiteral, SafeUrl.bare_of_ipv4 h]
    exact .inl h

theorem Literal.public (h : Literal host) {lc : LowerCase}
    (hr : ∀ r, classifyHost lc host none ≠ some (.reason r)) : classifyAddress lc host none = none := by
  have hnone : classifyHost lc (bracketed host) (SafeUrl.parseNat64Prefix none) = none := by
    rw [h.bracketed_bare.2]
    cases hc : classifyHost lc host (SafeUrl.parseNat64Prefix none) with
    | none => rfl
    | some r =>
      cases r with
      | reason r => exact absurd hc (hr r)
      | dnsName name => exact absurd hc (h.classifyHost_ne lc _ name)
  exact (SafeUrl.classifyAddress_eq_none_iff hnone).mpr h.isIpLiteral

/-- A literal that `checkUrl` passes is public, unless the mode is off. -/
theorem classifyAddress_of_checkUrl {mode : Mode} {allow : List JsString} {url : JsString} {u : Url}
    (hu : p.newUrl url = some u) (h : Literal u.hostname) (hmode : mode ≠ .off)
    (hsafe : (checkUrl p.env url { mode, allow }).safe = true) :
    classifyAddress p.lc (bare u.hostname) none = none := by
  rw [h.classifyAddress_bare]
  refine h.public fun r hr => ?_
  have henv : p.env.newUrl url = some ⟨u.protocol, u.hostname⟩ := by
    simp [Platform.env, hu]
  simp only [checkUrl, henv] at hsafe
  split at hsafe
  · cases hsafe
  · have hclass : classifyHost p.env.lc u.hostname (SafeUrl.parseNat64Prefix none) = some (.reason r) := hr
    rw [hclass] at hsafe
    cases hsafe

/-! ## pins -/

def Public (p : Platform) (address : JsString) : Prop := classifyAddress p.lc address none = none

variable {rangeCheck : Bool}

theorem pinOne_spec (hp : Whatwg p) {answer : Answer} {a : PinnedAddress}
    (h : pinOne p rangeCheck answer = .ok a) (hcheck : rangeCheck = true) : Public p a.address := by
  cases answer with
  | other => cases h
  | str address =>
    simp only [pinOne] at h
    split at h
    · cases h
    split at h
    · cases h
    next u hu =>
      split at h
      · cases h
      next hip =>
        split at h
        · cases h
        next hclass =>
          have hlit := hp.literal hu (by simpa using hip)
          have hbare : a.address = bare u.hostname := by
            have ha := Except.ok.inj h
            rw [← ha, bare]
            split <;> rfl
          rw [Public, hbare, hlit.classifyAddress_bare]
          exact hclass

/-- What `mapM` gives, it gives of each. -/
theorem mem_of_mapM {ε α β : Type} {f : α → Except ε β} {as : List α} {bs : List β}
    (h : as.mapM f = .ok bs) : ∀ b ∈ bs, ∃ a ∈ as, f a = .ok b := by
  induction as generalizing bs with
  | nil =>
    cases h
    simp
  | cons a as ih =>
    rw [List.mapM_cons] at h
    cases ha : f a with
    | error e => rw [ha] at h; cases h
    | ok b =>
      cases has : as.mapM f with
      | error e => rw [ha, has] at h; cases h
      | ok bs' =>
        rw [ha, has] at h
        cases h
        intro b' hb'
        cases List.mem_cons.mp hb' with
        | inl hb' => exact ⟨a, by simp, by rw [hb', ha]⟩
        | inr hb' =>
          obtain ⟨a', ha', hfa⟩ := ih has b' hb'
          exact ⟨a', List.mem_cons_of_mem _ ha', hfa⟩

theorem pinAll_spec (hp : Whatwg p) {answers : List Answer} {pinned : List PinnedAddress}
    (h : pinAll p rangeCheck answers = .ok pinned) (hcheck : rangeCheck = true) :
    ∀ a ∈ pinned, Public p a.address := by
  intro a ha
  rw [pinAll] at h
  split at h
  · cases h
  · obtain ⟨answer, -, hone⟩ := mem_of_mapM h a ha
    exact pinOne_spec hp hone hcheck

/-- Of a range check, the cache keeps what is public. -/
def PinsOk (p : Platform) (pins : JsMap (JsString × Bool) (CachedPin N)) : Prop :=
  ∀ key pin, pins.get? key = some pin → key.2 = true → ∀ a ∈ pin.pinned, Public p a.address

theorem PinsOk.delete {pins : JsMap (JsString × Bool) (CachedPin N)} (h : PinsOk p pins)
    (key : JsString × Bool) : PinsOk p (pins.delete key) := by
  intro key' pin hpin
  exact h key' pin (JsMap.of_get?_delete hpin).2

/-! ## the gate -/

def Newest (r : Request) (hops : List Hop) : Prop :=
  ∃ hop older requests attempts, hops = hop :: older ∧ hop.attempts = (r :: requests) :: attempts

/-- Where a delivery asks, its hops meet `I` and the pins are public; its environment
leaves the hops, and keeps the pins public. -/
def contract (p : Platform) (I : List Hop → Prop) : Contract (World N) Op (Ans P) where
  pre op w := I w.hops ∧ PinsOk p w.pins ∧ ∀ r, op = .http r → Newest r w.hops
  post _ w _ w' := w'.hops = w.hops ∧ PinsOk p w'.pins
  fail _ := False

/-- The addresses that a gate lets through: those of the pin, or the literal. -/
def lets (p : Platform) (url : JsString) : Option (List PinnedAddress) → List JsString
  | some pinned => pinned.map PinnedAddress.address
  | none =>
    match p.newUrl url with
    | none => []
    | some u => if isIpLiteral u.hostname then [bare u.hostname] else []

structure Passed (p : Platform) (c : Config N) (url : JsString) (pinned : Option (List PinnedAddress)) :
    Prop where
  safe : (checkUrl p.env url { mode := c.urlMode, allow := c.allow }).safe = true
  literal : pinned = none → ∃ u, p.newUrl url = some u ∧ isIpLiteral u.hostname = true
  isPublic : c.urlMode ≠ .off → ∀ address ∈ lets p url pinned, Public p address

variable {c : Config N} {I : List Hop → Prop} {w : World N}

theorem validate_meets {url : JsString} (hI : I w.hops) (hpins : PinsOk p w.pins) :
    (validate (P := P) c url w).Meets (contract p I) fun _ w' => w'.hops = w.hops ∧ PinsOk p w'.pins := by
  rw [validate]
  split
  · refine BunServe.Outcome.Meets.ask ⟨hI, hpins, nofun⟩ fun ok w' hpost => ?_
    split <;> exact hpost
  · exact ⟨rfl, hpins⟩

variable [Number N]

theorem PinsOk.cachePin {c : Config N} {key : JsString × Bool} {pinned : List PinnedAddress} {w : World N}
    (h : PinsOk p w.pins) (hpinned : key.2 = true → ∀ a ∈ pinned, Public p a.address) :
    PinsOk p (Webhooks.cachePin c key pinned w).pins := by
  unfold Webhooks.cachePin
  split
  · have hset : ∀ {pins}, PinsOk p pins →
        PinsOk p (pins.set key { expires := w.now + cacheMs c, pinned }) := by
      intro pins hpins key' pin hpin
      obtain ⟨heq, rfl⟩ | ⟨-, hpin⟩ := JsMap.of_get?_set hpin
      · rw [heq]
        exact hpinned
      · exact hpins key' pin hpin
    refine hset ?_
    split
    · split
      · exact h.delete _
      · exact h
    · exact h
  · exact h

theorem resolveFresh_meets (hp : Whatwg p) {hostname : JsString} (hI : I w.hops)
    (hpins : PinsOk p w.pins) :
    (resolveFresh (P := P) p c hostname rangeCheck w).Meets (contract p I) fun r w' =>
      w'.hops = w.hops ∧ PinsOk p w'.pins ∧
        ∀ pinned, r = .ok pinned → rangeCheck = true → ∀ a ∈ pinned, Public p a.address := by
  refine BunServe.Outcome.Meets.ask ⟨hI, hpins, nofun⟩ fun raw w' hpost => ?_
  cases raw with
  | error e => exact ⟨hpost.1, hpost.2, nofun⟩
  | ok raw =>
    cases hall : pinAll p rangeCheck raw.addresses with
    | error reason =>
      simp only [hall]
      exact ⟨hpost.1, hpost.2, nofun⟩
    | ok pinned =>
      simp only [hall]
      have hcapped : rangeCheck = true → ∀ a ∈ pinned.take maxPinnedAddresses, Public p a.address :=
        fun hcheck a ha => pinAll_spec hp hall hcheck a (List.mem_of_mem_take ha)
      refine ⟨?_, hpost.2.cachePin hcapped, ?_⟩
      · rw [← hpost.1, cachePin]
        split <;> rfl
      · rintro _ ⟨rfl⟩
        exact hcapped

theorem resolveAndPin_meets (hp : Whatwg p) {hostname : JsString} (hI : I w.hops)
    (hpins : PinsOk p w.pins) :
    (resolveAndPin (P := P) p c hostname rangeCheck w).Meets (contract p I) fun r w' =>
      w'.hops = w.hops ∧ PinsOk p w'.pins ∧
        ∀ pinned, r = .ok pinned → rangeCheck = true → ∀ a ∈ pinned, Public p a.address := by
  rw [resolveAndPin, Prog.get_bind_run]
  cases hcached : cachedPin c (hostname, rangeCheck) w with
  | none => exact resolveFresh_meets hp hI hpins
  | some hit =>
    simp only
    split
    · refine ⟨rfl, hpins, ?_⟩
      rintro _ ⟨rfl⟩ hcheck
      have hget : w.pins.get? (hostname, rangeCheck) = some hit := by
        obtain ⟨-, hcached⟩ := by simpa [cachedPin] using hcached
        exact hcached
      exact hpins _ hit hget hcheck
    · exact resolveFresh_meets hp hI (hpins.delete _)

/-- **The gate**: what it lets through is public, unless the mode is off. -/
theorem ssrfGate_meets (hp : Whatwg p) {url : JsString} (hI : I w.hops) (hpins : PinsOk p w.pins) :
    (ssrfGate (P := P) p c url w).Meets (contract p I) fun r w' =>
      w'.hops = w.hops ∧ PinsOk p w'.pins ∧ ∀ pinned, r = .ok pinned → Passed p c url pinned := by
  rw [ssrfGate]
  by_cases hsafe : (checkUrl p.env url { mode := c.urlMode, allow := c.allow }).safe = true
  · simp only [hsafe]
    refine (validate_meets hI hpins).seq fun refusal w₁ h₁ => ?_
    cases refusal with
    | some reason => exact ⟨h₁.1, h₁.2, by simp⟩
    | none =>
      cases hu : p.newUrl url with
      | none => exact ⟨h₁.1, h₁.2, by simp⟩
      | some u =>
        simp only
        split
        · next hip =>
          refine ⟨h₁.1, h₁.2, ?_⟩
          rintro _ ⟨rfl⟩
          refine ⟨hsafe, fun _ => ⟨u, hu, hip⟩, fun hmode address hmem => ?_⟩
          simp only [lets, hu, hip, if_true, List.mem_singleton] at hmem
          rw [hmem]
          exact classifyAddress_of_checkUrl hu (hp.literal hu hip) hmode hsafe
        · refine (resolveAndPin_meets hp (by rw [h₁.1]; exact hI) h₁.2).seq fun pin w₂ h₂ => ?_
          cases pin with
          | error reason => exact ⟨h₂.1.trans h₁.1, h₂.2.1, by simp⟩
          | ok pinned =>
            refine ⟨h₂.1.trans h₁.1, h₂.2.1, ?_⟩
            rintro _ ⟨rfl⟩
            refine ⟨hsafe, by simp, fun hmode address hmem => ?_⟩
            obtain ⟨a, ha, rfl⟩ := List.mem_map.mp hmem
            exact h₂.2.2 pinned rfl (by simpa using hmode) a ha
  · simp only [hsafe]
    exact ⟨rfl, hpins, by simp⟩

end BunServe.Webhooks
