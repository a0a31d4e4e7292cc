import AcmeServer.Safety.Routes

/-!
# Dispatch and issuance

What every run keeps true of the calls to the issuer. The store commits a dispatch before the first
of them, and from then on the certificate request and the issuance state of the order stand.
-/

namespace AcmeServer.Guarantee

open Memstore Protocol Safety

variable {s : Server} {w : World}

/-! ## Before the dispatch -/

/-- An order that the issuer was asked about has its issuance state. -/
theorem issued_order (hinv : Invariant s w) {e : Event} {req : IssueRequest} (he : e ∈ w.history)
    (hreq : e.issues = some req) :
    ∃ o, w.store.orders.lookup req.orderID = some o ∧ o.issuance ≠ none := by
  obtain ⟨_, o, state, ho, hstate, _⟩ := hinv.issued he hreq
  exact ⟨o, ho, by simp [hstate]⟩

/-- The issuer is asked about an order only after a dispatch of it was committed, and at that moment
the account of the order was valid, the order was processing without an issuance state, and all of
its authorizations were valid beyond the time of the decision. So a deactivation that is committed
before the dispatch keeps the issuer from ever being asked. -/
theorem issuer_asked_after_dispatch (s : Server) (schedule rest : Server.Schedule) :
    let w := s.run schedule
    let later := s.run (schedule ++ rest)
    (∀ e earlier req, e :: earlier <:+ w.history → e.issues = some req →
      ∃ d ∈ earlier, ∃ dispatch o state, d.dispatches = some dispatch ∧
        dispatch.order.id = req.orderID ∧ dispatch.order.issuance = some state ∧
        d.before.orders.lookup req.orderID = some o ∧ o.status = .processing ∧
        o.issuance = none ∧
        (∃ account, d.before.accounts.lookup o.accountID = some account ∧
          account.status = .valid) ∧
        ∀ aid ∈ o.authorizationIDs, ∃ a, d.before.authzs.lookup aid = some a ∧
          a.status = .valid ∧ state.authorizedAt < a.expires) ∧
    (∀ id o, w.store.orders.lookup id = some o → o.issuance = none →
      ((∃ account, w.store.accounts.lookup o.accountID = some account ∧ account.status ≠ .valid) ∨
        ∃ aid ∈ o.authorizationIDs, ∃ a, w.store.authzs.lookup aid = some a ∧
          a.status = .deactivated) →
      ∀ e ∈ later.history, ∀ req, e.issues = some req → req.orderID ≠ id) := by
  intro w later
  refine ⟨fun e earlier req hsuffix hreq => ?_, fun id o ho hnone hlost e he req hreq hid => ?_⟩
  · obtain ⟨d, hd, state, dispatch, o, hdispatch, hid, hstate, ho, hable⟩ :=
      (run_invariant s schedule).issuedAfter hsuffix hreq
    exact ⟨d, hd, dispatch, o, state, hdispatch, hid, hstate, ho, hable.processing,
      hable.undispatched, hable.account, hable.authorizations⟩
  · -- The issuance state was set in between, which needs the account and the authorizations.
    subst hid
    obtain ⟨o', ho', hset⟩ := issued_order (run_invariant s (schedule ++ rest)) he hreq
    have happroved := (later_progress (run_progress s schedule rest)).approves _ o o' ho hnone ho'
      hset
    rcases hlost with ⟨account, haccount, hinvalid⟩ | ⟨aid, haid, a, ha, hdeactivated⟩
    · exact hinvalid (happroved.account account haccount)
    · have hlive := happroved.authorizations aid haid a ha
      rw [hdeactivated] at hlive
      cases hlive

/-! ## The deadline -/

/-- The times at which an order stops being authorized, as stored: its own expiry, the expiries of
its authorizations, and those of the grants of its authorizations. -/
def expiryTimes (st : Store) (o : Order) : Set Time :=
  {t | t = o.expires ∨ ∃ aid ∈ o.authorizationIDs, ∃ a, st.authzs.lookup aid = some a ∧
    (t = a.expires ∨ (a.grantExpires ≠ 0 ∧ t = a.grantExpires))}

/-- What a committed dispatch found in the store. -/
structure CommittedDispatch (e : Event) (d : Dispatch) (o : Order) (state : IssuanceState) :
    Prop where
  stored : e.before.orders.lookup d.order.id = some o
  order : d.order = { o with issuance := some state }
  decision : IssuanceDecision e.before o d.authzs state
  listed : d.authzs.map Authorization.id = o.authorizationIDs
  current : ∀ a ∈ d.authzs, e.before.authzs.lookup a.id = some a

/-- The call that commits a dispatch. -/
theorem dispatch_call {e : Event} {d : Dispatch} (h : e.dispatches = some d) :
    ∃ thread before args, e = ⟨thread, before, .store (.beginIssuance d), ⟨.ok (), args⟩⟩ := by
  unfold Event.dispatches at h
  split at h
  · cases h
    exact ⟨_, _, _, rfl⟩
  · cases h

theorem committed_dispatch {e : Event} {earlier : List Event} {d : Dispatch}
    (hmoment : Moment s e earlier w) (h : e.dispatches = some d) :
    ∃ o state, CommittedDispatch e d o state := by
  obtain ⟨thread, before, args, rfl⟩ := dispatch_call h
  obtain ⟨_, after, hexecute, _⟩ := hmoment.executed
  obtain ⟨⟨horder, hauthzs⟩, _⟩ := hmoment.permitted
  cases executed_of_execute hexecute with
  | failed _ _ _ herror => cases herror
  | committed _ _ _ _ _ hcommit =>
      cases hcommit with
      | read _ hread => cases hread
      | beginIssuance d task stored account state _ _ hstored hrevision _ _ _ hstate _ _ hids
          hcurrent =>
          obtain ⟨_, state, hfields, hdecision⟩ := horder stored hstored hrevision
          refine ⟨stored, state, hstored, hfields, hdecision, ?_, fun a ha => ?_⟩
          · rw [hids, hfields]
          · obtain ⟨_, _, current, hlookup, hsame⟩ := hcurrent a ha
            rw [hlookup, hauthzs a ha current hlookup hsame]

/-- The dispatch has seen all the times at which the order stops being authorized. -/
theorem CommittedDispatch.expiries_eq {e : Event} {d : Dispatch} {o : Order} {state : IssuanceState}
    (h : CommittedDispatch e d o state) : expiries o d.authzs = expiryTimes e.before o := by
  ext t
  refine or_congr_right ⟨?_, ?_⟩
  · rintro ⟨a, ha, htime⟩
    refine ⟨a.id, ?_, a, h.current a ha, htime⟩
    rw [← h.listed]
    exact List.mem_map_of_mem ha
  · rintro ⟨aid, haid, a, hlookup, htime⟩
    rw [← h.listed] at haid
    obtain ⟨b, hb, rfl⟩ := List.mem_map.mp haid
    cases Option.some.inj (hlookup.symm.trans (h.current b hb))
    exact ⟨_, hb, htime⟩

theorem CommittedDispatch.deadline {e : Event} {d : Dispatch} {o : Order} {state : IssuanceState}
    (h : CommittedDispatch e d o state) : IsLeast (expiryTimes e.before o) state.deadline := by
  rw [← h.expiries_eq]
  exact h.decision.deadline

/-- An order with an issuance state got it by a committed dispatch. -/
theorem dispatch_of_issuance (hlater : s.contract.Later World.initial w) (hinv : Invariant s w)
    {id : String} {stored : Order} {state : IssuanceState}
    (hstored : w.store.orders.lookup id = some stored) (hstate : stored.issuance = some state) :
    ∃ c ∈ w.history, ∃ d o, c.dispatches = some d ∧ d.order.id = id ∧
      CommittedDispatch c d o state := by
  obtain ⟨c, hc, d, _, hd, hid, hissuance, _, _⟩ := hinv.dispatched hstored hstate
  obtain ⟨_, _, hmoment⟩ := moment_of_mem hlater hc
  obtain ⟨o, state', hdispatch⟩ := committed_dispatch hmoment hd
  rw [hdispatch.order] at hissuance
  cases hissuance
  exact ⟨c, hc, d, o, hd, hid, hdispatch⟩

/-- The call that asks the issuer. -/
theorem issue_call {e : Event} {req : IssueRequest} (h : e.issues = some req) :
    ∃ thread before answer, e = ⟨thread, before, .host (.issue req), answer⟩ := by
  unfold Event.issues at h
  split at h
  · cases h
    exact ⟨_, _, _, rfl⟩
  · cases h

/-- A request that is not for recovery only is built before the deadline. -/
theorem before_deadline {o : Order} {state : IssuanceState} {now : Time} {req : IssueRequest}
    (hreq : req = s.issueRequestAt o state now) (hissues : req.recoveryOnly = false) :
    now < state.deadline := by
  rw [hreq] at hissues
  simpa [Server.issueRequestAt] using hissues

/-- The deadline of a committed dispatch is the least of the times at which the order stops being
authorized, and it is later than the time of the decision. A call to the issuer is built from a time
that its thread has read after the dispatch, and unless it is for recovery only, any time it can
have been built from is before all of these expiries. -/
theorem deadline_is_least_expiry (s : Server) (schedule : Server.Schedule) :
    let w := s.run schedule
    (∀ e ∈ w.history, ∀ d, e.dispatches = some d → ∃ o state,
      e.before.orders.lookup d.order.id = some o ∧ d.order = { o with issuance := some state } ∧
        IsLeast (expiryTimes e.before o) state.deadline ∧
        state.authorizedAt < state.deadline) ∧
    (∀ e earlier req, e :: earlier <:+ w.history → e.issues = some req →
      ∃ stored state, e.before.orders.lookup req.orderID = some stored ∧
        stored.issuance = some state ∧
        ∃ r between now, r :: between <:+ earlier ∧ r.thread = e.thread ∧ r.clock = some now ∧
          req = s.issueRequestAt stored state now ∧
        ∃ c ∈ between, ∃ d o, c.dispatches = some d ∧ d.order.id = req.orderID ∧
          d.order.issuance = some state ∧ c.before.orders.lookup req.orderID = some o ∧
          ∀ t, req = s.issueRequestAt stored state t → req.recoveryOnly = false →
            ∀ expiry ∈ expiryTimes c.before o, t < expiry) := by
  intro w
  have hlater : s.contract.Later World.initial w := run_progress s [] schedule
  refine ⟨fun e he d hd => ?_, fun e earlier req he hreq => ?_⟩
  · obtain ⟨_, _, hmoment⟩ := moment_of_mem hlater he
    obtain ⟨o, state, hdispatch⟩ := committed_dispatch hmoment hd
    refine ⟨o, state, hdispatch.stored, hdispatch.order, hdispatch.deadline, ?_⟩
    exact hdispatch.decision.ahead
  · have hcall := moment_of_event hlater he
    obtain ⟨thread, before, answer, rfl⟩ := issue_call hreq
    obtain ⟨now, ⟨stored, state, hstored, hstate, hbuilt⟩, r, hr, hthread, hclock, o', ho', hset⟩ :=
      hcall.permitted
    obtain ⟨between, hbetween, hreading⟩ := moment_of_mem hcall.reached hr
    -- The order was dispatched with the same issuance state when the time was read.
    obtain ⟨state', hstate'⟩ := Option.ne_none_iff_exists'.mp hset
    have hsteps := (later_progress hreading.later).orders.steps ho' hstored
    have hsame := (order_issuance_eq hsteps hset).symm.trans hstate
    rw [hstate'] at hsame
    cases hsame
    obtain ⟨c, hc, d, o, hd, hid, hdispatch⟩ :=
      dispatch_of_issuance hreading.reached hreading.inv ho' hstate'
    refine ⟨stored, state, hstored, hstate, r, between, now, hbetween, hthread, hclock, hbuilt, c,
      hc, d, o, hd, hid, ?_, hid ▸ hdispatch.stored, ?_⟩
    · rw [hdispatch.order]
    · intro t ht hissues expiry hexpiry
      exact lt_of_lt_of_le (before_deadline ht hissues) (hdispatch.deadline.2 hexpiry)

/-! ## After the dispatch -/

/-- The requests for one order with one issuance state differ in `recoveryOnly` at most. -/
theorem issue_request_at_eq (o : Order) (state : IssuanceState) (now now' : Time) :
    s.issueRequestAt o state now' =
      { s.issueRequestAt o state now with
        recoveryOnly := (s.issueRequestAt o state now').recoveryOnly } := rfl

/-- All requests to the issuer for one order agree. -/
theorem issued_requests_agree (hinv : Invariant s w) {e e' : Event} {req req' : IssueRequest}
    (he : e ∈ w.history) (he' : e' ∈ w.history) (hreq : e.issues = some req)
    (hreq' : e'.issues = some req') (horder : req.orderID = req'.orderID) :
    req' = { req with recoveryOnly := req'.recoveryOnly } := by
  obtain ⟨now, o, state, ho, hstate, hbuilt⟩ := hinv.issued he hreq
  obtain ⟨now', o', state', ho', hstate', hbuilt'⟩ := hinv.issued he' hreq'
  rw [horder, ho'] at ho
  cases ho
  rw [hstate] at hstate'
  cases hstate'
  rw [hbuilt, hbuilt']
  exact issue_request_at_eq o state now now'

/-- The certificate request and the issuance state of an order are set once. Every finalization that
was granted carried the stored certificate request, and all requests to the issuer for one order are
the same except for `recoveryOnly`. -/
theorem finalization_is_final (s : Server) (schedule rest : Server.Schedule) :
    let st := (s.run schedule).store
    let later := s.run (schedule ++ rest)
    (∀ id o, st.orders.lookup id = some o → o.csr ≠ [] →
      ∃ o', later.store.orders.lookup id = some o' ∧ o'.csr = o.csr) ∧
    (∀ id o state, st.orders.lookup id = some o → o.issuance = some state →
      ∃ o', later.store.orders.lookup id = some o' ∧ o'.issuance = some state) ∧
    (∀ e ∈ later.history, ∀ r response id, e.answers = some (r, response) →
      s.route r = .finalize id → response.success = true →
      ∃ der o, s.carriedCSR r = some der ∧ later.store.orders.lookup id = some o ∧
        o.csr = der) ∧
    (∀ e ∈ later.history, ∀ e' ∈ later.history, ∀ req req', e.issues = some req →
      e'.issues = some req' → req.orderID = req'.orderID →
      req' = { req with recoveryOnly := req'.recoveryOnly }) := by
  intro st later
  have hprogress := later_progress (run_progress s schedule rest)
  have hinv := run_invariant s (schedule ++ rest)
  refine ⟨fun id o ho hcsr => ?_, fun id o state ho hstate => ?_, ?_, ?_⟩
  · obtain ⟨o', ho', hsteps⟩ := hprogress.orders id o ho
    exact ⟨o', ho', order_csr_eq hsteps hcsr⟩
  · obtain ⟨o', ho', hsteps⟩ := hprogress.orders id o ho
    exact ⟨o', ho', (order_issuance_eq hsteps (by simp [hstate])).trans hstate⟩
  · intro e he r response id hanswers hroute hsuccess
    have hgranted := hinv.answered he hanswers hsuccess
    unfold Granted at hgranted
    rw [hroute] at hgranted
    obtain ⟨der, o, hder, _, ho, hcsr⟩ := hgranted
    exact ⟨der, o, hder, ho, hcsr⟩
  · exact fun e he e' he' req req' => issued_requests_agree hinv he he'

/-- A finalized order is finalized again with another certificate request and a nonce that is not
known. The limiter refuses a fresh nonce with a problem of status 200. -/
def refusedNonce : Server.Schedule :=
  Sample.finalize ++ Sample.post "/order/first/finalize" [2, 1] ++ Sample.steps 3 3 {
    tasks := [Sample.issueTask]
    nonceKnown := false
    limit := some (.problem ((newProblem .rateLimited "try again").withStatus 200)) }

/-- A status 200 alone does not say that a certificate request was accepted: the problem of a
limiter reaches the client with the status that the limiter gave it. -/
theorem refused_finalization_answered :
    let w := Sample.server.run refusedNonce
    ¬ ∀ e ∈ w.history, ∀ r response id, e.answers = some (r, response) →
      Sample.server.route r = .finalize id → response.status = 200 →
      ∃ der o, Sample.server.carriedCSR r = some der ∧ w.store.orders.lookup id = some o ∧
        o.csr = der := by
  intro w hall
  have hlast : (w.history.head?.bind Event.answers).map (fun (r, response) =>
      (Sample.server.route r, response.status, Sample.server.carriedCSR r)) =
        some (.finalize "first", 200, some [8]) := by decide +kernel
  have hstored : (w.store.orders.lookup "first").map Order.csr = some [7] := by decide +kernel
  obtain ⟨⟨r, response⟩, hanswer, hfacts⟩ := Option.map_eq_some_iff.mp hlast
  obtain ⟨e, he, hanswers⟩ := Option.bind_eq_some_iff.mp hanswer
  obtain ⟨hroute, hrest⟩ := Prod.mk.inj hfacts
  obtain ⟨hstatus, hcarried⟩ := Prod.mk.inj hrest
  obtain ⟨der, o, hder, ho, hcsr⟩ :=
    hall e (List.mem_of_mem_head? he) r response "first" hanswers hroute hstatus
  rw [ho, Option.map_some, hcsr] at hstored
  rw [hcarried] at hder
  cases hder
  cases hstored

end AcmeServer.Guarantee
