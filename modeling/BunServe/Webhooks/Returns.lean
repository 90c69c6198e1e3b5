import BunServe.Webhooks

/-!
# BunServe.Webhooks.Returns

A delivery returns: no exception leaves it, and it ends after finitely many answers,
whatever they are.
-/

namespace BunServe.Webhooks

variable {N P : Type} {p : Platform} {c : Config N}

theorem send_returns (r : Request) (w : World N) : (send (P := P) r w).Returns :=
  ⟨trivial, fun _ _ _ => trivial⟩

theorem ask_if_returns (op : Op) {b : Prop} [Decidable b] {a : Ans P op} (w : World N) :
    ((if b then Prog.ask op else pure a : Delivery N P (Ans P op)) w).Returns := by
  split
  · exact ⟨trivial, fun _ _ _ => trivial⟩
  · trivial

theorem record_returns (h : Hooks) (outcome : Outcome) (w : World N) :
    (record (P := P) h outcome w).Returns := by
  unfold record
  split
  · cases outcome with
    | ok =>
      refine .ask fun r w => ?_
      cases r <;> trivial
    | failed err attempts =>
      simp only
      split
      · refine .ask fun r w => ?_
        cases r <;> trivial
      · trivial
  · trivial

variable [Number N]

theorem resolveAndPin_returns (hostname : JsString) (rangeCheck : Bool) (w : World N) :
    (resolveAndPin (P := P) p c hostname rangeCheck w).Returns := by
  have hfresh (w : World N) : (resolveFresh (P := P) p c hostname rangeCheck w).Returns := by
    refine .ask fun raw w => ?_
    cases raw with
    | error e => trivial
    | ok raw =>
      simp only
      cases pinAll p rangeCheck raw.addresses <;> trivial
  rw [resolveAndPin, Prog.get_bind_run]
  cases cachedPin c (hostname, rangeCheck) w with
  | none => exact hfresh w
  | some hit =>
    simp only
    split
    · trivial
    · exact hfresh _

theorem ssrfGate_returns (url : JsString) (w : World N) : (ssrfGate (P := P) p c url w).Returns := by
  simp only [ssrfGate]
  split
  · trivial
  have hvalidate : (validate (P := P) c url w).Returns := by
    rw [validate]
    split
    · refine .ask fun ok w => ?_
      split <;> trivial
    · trivial
  refine hvalidate.seq fun refusal w => ?_
  cases refusal with
  | some reason => trivial
  | none =>
    cases p.newUrl url with
    | none => trivial
    | some u =>
      simp only
      split
      · trivial
      · refine (resolveAndPin_returns _ _ w).seq fun pin w => ?_
        cases pin <;> trivial

theorem httpDeliver_returns (url : JsString) (pinned : Option (List PinnedAddress))
    (headers : JsMap String JsString) (body : JsString) (w : World N) :
    (httpDeliver (P := P) p c url pinned headers body w).Returns := by
  have htry (deadline : N) (lastError : Err) (addresses : List PinnedAddress) (w : World N) :
      (tryAddresses (P := P) p url headers body deadline lastError addresses w).Returns := by
    induction addresses generalizing lastError w with
    | nil => trivial
    | cons a addresses ih =>
      rw [tryAddresses, Prog.get_bind_run]
      split
      · trivial
      · refine (send_returns _ w).seq fun r w => ?_
        split
        · exact ih _ w
        · trivial
  cases pinned with
  | none => exact send_returns _ w
  | some pins =>
    simp only [httpDeliver]
    split
    · exact htry _ _ _ w
    · exact send_returns _ w

theorem attemptFrom_returns (h : Hooks) (url : JsString) (pinned : Option (List PinnedAddress))
    (headers : JsMap String JsString) (body : JsString) (left attempt : Nat) (lastErr : Err) (w : World N) :
    (attemptFrom (P := P) p c h url pinned headers body left attempt lastErr w).Returns := by
  induction left generalizing attempt lastErr w with
  | zero => trivial
  | succ left ih =>
    refine (httpDeliver_returns _ _ _ _ _).seq fun r w => ?_
    cases verdictOf attempt r with
    | ok result => trivial
    | error lastErr =>
      simp only
      split
      · trivial
      · refine (ask_if_returns .budget w).seq fun allowed w => ?_
        split
        · trivial
        · exact .ask fun _ w => ih _ _ w

theorem hopsFrom_returns (h : Hooks) (initialOrigin : Option JsString) (headers : JsMap String JsString)
    (body : JsString) (left : Nat) (seen : List JsString) (url : JsString) (w : World N) :
    (hopsFrom (P := P) p c h initialOrigin headers body left seen url w).Returns := by
  have hadmission (destinations : List JsString) (w : World N) :
      (takeAdmission (P := P) destinations w).Returns := by
    induction destinations generalizing w with
    | nil => trivial
    | cons destination destinations ih =>
      refine .ask fun refused w => ?_
      split
      · trivial
      · exact ih w
  induction left generalizing seen url w with
  | zero => trivial
  | succ left ih =>
    rw [hopsFrom]
    split
    · trivial
    refine (ssrfGate_returns _ _).seq fun gate w => ?_
    cases gate with
    | error reason => trivial
    | ok pinned =>
      simp only
      have hdenied (w : World N) :
          (deniedOf (P := P) h seen (destinationsOf p url pinned) w).Returns := by
        rw [deniedOf]
        split
        · exact hadmission _ w
        · trivial
      refine (hdenied _).seq fun denied w => ?_
      cases denied with
      | some destination => trivial
      | none =>
        refine (attemptFrom_returns h _ _ _ _ _ _ _ w).seq fun result w => ?_
        cases result with
        | delivered | failed err attempts => trivial
        | redirect location =>
          simp only
          cases resolveRedirect p url location with
          | error reason => trivial
          | ok next => exact ih _ _ w

theorem deliverWebhook_returns (h : Hooks) (stringify : P → Option JsString) (topic event : JsString)
    (payload : P) (w : World N) : (deliverWebhook p c h stringify topic event payload w).Returns := by
  have hguarded (url : JsString) (payload : P) (w : World N) :
      (deliverGuarded p c h stringify topic event url payload w).Returns := by
    unfold deliverGuarded
    cases stringify payload with
    | none => trivial
    | some body =>
      have hidem : (idempotencyKeyOf (P := P) p c topic event body w).Returns := by
        exact ask_if_returns .idempotencyKey w
      refine hidem.seq fun idem w => ?_
      cases idem with
      | error err => trivial
      | ok idem =>
        simp only
        cases withIdempotencyKey _ idem with
        | none => trivial
        | some headers =>
          simp only
          exact (hopsFrom_returns _ _ _ _ _ _ _ _).seq fun outcome w => record_returns h outcome w
  have hpayload : (payloadOf c payload w).Returns := by
    exact ask_if_returns .transform w
  refine hpayload.seq fun payload w => ?_
  rcases payload with err | _ | payload
  · trivial
  · trivial
  have hurl : (urlOf (P := P) c w).Returns := by
    exact ask_if_returns .url w
  refine hurl.seq fun url w => ?_
  rcases url with err | _ | url
  · trivial
  · trivial
  simp only
  split
  · trivial
  have hguard : (guard (P := P) h w).Returns := by
    exact ask_if_returns .guard w
  refine hguard.seq fun gate w => ?_
  cases gate with
  | error err => trivial
  | ok _ => exact hguarded url payload w

end BunServe.Webhooks
