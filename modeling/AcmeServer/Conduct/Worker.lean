import AcmeServer.Conduct.Handlers

/-!
# Workers keep to the rule

Validating a challenge makes only free calls. An issuance asks the issuer at most once, and it
settles the order only as `Settles` allows after what the issuer answered.
-/

namespace AcmeServer

open Interaction Memstore

/-! ## Validation -/

section Validation

variable (s : Server)

theorem store_reschedule_avoids (task : Task) : (Server.storeReschedule task).Avoids Notable :=
  .bind (call_store_avoids fun h => h) fun _ => trivial

theorem reschedule_avoids (task : Task) : (s.reschedule task).Avoids Notable :=
  .bind (ask_avoids fun h => h) fun _ => store_reschedule_avoids _

theorem finish_task_avoids (task : Task) : (Server.finishTask task).Avoids Notable :=
  .bind (call_store_avoids fun h => h) fun _ => trivial

theorem drop_on_not_found_avoids (task : Task) (err : StoreError) :
    (s.dropOnNotFound task err).Avoids Notable := by
  unfold Server.dropOnNotFound
  split
  · exact finish_task_avoids task
  · exact reschedule_avoids s task

/-- A task whose target cannot be loaded is left. -/
theorem drop_avoids {α : Type} (task : Task) (err : StoreError) :
    (s.dropOnNotFound task err >>= fun _ => pure (none : Option α)).Avoids Notable :=
  .bind (drop_on_not_found_avoids s task err) fun _ => trivial

theorem validate_avoids (kind : ValidatorKind) (type : ChallengeType) (req : ValidationRequest) :
    (s.validate kind type req).Avoids Notable := by
  refine .bind (ask_avoids fun h => h) fun result => ?_
  cases kind <;> trivial

theorem validation_targets_avoids (task : Task) : (s.validationTargets task).Avoids Notable := by
  refine .bind (fetch_avoids fun h => h) fun found => ?_
  cases found with
  | error err => exact drop_avoids s task err
  | ok ch =>
      dsimp only
      split
      · exact .bind (finish_task_avoids task) fun _ => trivial
      · refine .bind (fetch_avoids fun h => h) fun found => ?_
        cases found with
        | error err => exact drop_avoids s task err
        | ok authz =>
            refine .bind (fetch_avoids fun h => h) fun found => ?_
            cases found with
            | error err => exact drop_avoids s task err
            | ok account => trivial

theorem complete_validation_avoids (task : Task) (rounds : Nat) (ch : Challenge)
    (authz : Authorization) : (s.completeValidation task rounds ch authz).Avoids Notable := by
  induction rounds generalizing ch authz with
  | zero => exact reschedule_avoids s task
  | succ rounds ih =>
      unfold Server.completeValidation
      refine .bind (fetch_avoids fun h => h) fun found => ?_
      cases found with
      | error err => exact drop_on_not_found_avoids s task err
      | ok order =>
          refine .bind (derive_order_status_avoids _ _) fun status => ?_
          cases status with
          | error err => exact reschedule_avoids s task
          | ok status =>
              refine .bind (call_store_avoids fun h => h) fun reply => ?_
              split
              · trivial
              · refine .bind (fetch_avoids fun h => h) fun found => ?_
                cases found with
                | error err => exact drop_on_not_found_avoids s task err
                | ok current =>
                    refine .bind (ask_avoids fun h => h) fun now => ?_
                    dsimp only
                    split
                    · exact ih _ _
                    · exact ih _ _
              · exact reschedule_avoids s task

theorem retry_validation_avoids (task : Task) (ch : Challenge) (now : Time) :
    (s.retryValidation task ch now).Avoids Notable := by
  unfold Server.retryValidation
  refine .bind (call_store_avoids fun h => h) fun reply => ?_
  split
  · exact store_reschedule_avoids _
  · trivial

theorem settle_validation_avoids (task : Task) (ch : Challenge) (authz : Authorization)
    (now : Time) (result : Except HostError ValidationGrant) :
    (s.settleValidation task ch authz now result).Avoids Notable := by
  unfold Server.settleValidation
  cases result with
  | ok grant => exact complete_validation_avoids s _ _ _ _
  | error err =>
      dsimp only
      split
      · exact complete_validation_avoids s _ _ _ _
      · split
        · exact retry_validation_avoids s _ _ _
        · exact complete_validation_avoids s _ _ _ _

theorem run_validation_avoids (task : Task) : (s.runValidation task).Avoids Notable := by
  refine .bind (validation_targets_avoids s task) fun targets => ?_
  cases targets with
  | none => trivial
  | some targets =>
      refine .bind (ask_avoids fun h => h) fun now => ?_
      dsimp only
      split
      · exact complete_validation_avoids s _ _ _ _
      · split
        · exact complete_validation_avoids s _ _ _ _
        · split
          · exact complete_validation_avoids s _ _ _ _
          · refine .bind (validate_avoids s _ _ _) fun result => ?_
            exact .bind (ask_avoids fun h => h) fun now => settle_validation_avoids s _ _ _ _ _

end Validation

/-! ## Dispatch -/

section Dispatch

variable (s : Server)

theorem successful_challenge_avoids (v : Validation) (ids : List String) :
    (Server.successfulChallenge v ids).Avoids Notable := by
  induction ids with
  | nil => trivial
  | cons id rest ih =>
      refine .bind (fetch_avoids fun h => h) fun found => ?_
      cases found with
      | error err => trivial
      | ok ch =>
          dsimp only
          split
          · trivial
          · exact ih

theorem validation_evidence_avoids (a : Authorization) :
    (s.validationEvidence a).Avoids Notable := by
  unfold Server.validationEvidence
  dsimp only
  split
  · trivial
  · exact successful_challenge_avoids _ _

theorem issuance_loop_avoids (now : Time) (ids : List String) (authzs : List Authorization)
    (state : IssuanceState) : (s.issuanceLoop now ids authzs state).Avoids Notable := by
  induction ids generalizing authzs state with
  | nil => trivial
  | cons id rest ih =>
      unfold Server.issuanceLoop
      refine .bind (fetch_avoids fun h => h) fun found => ?_
      cases found with
      | error err => trivial
      | ok a =>
          dsimp only
          split
          · trivial
          · split
            · trivial
            · refine .bind (validation_evidence_avoids s a) fun evidence => ?_
              cases evidence with
              | error err => trivial
              | ok v => exact ih _ _

/-- The request is for the order, and no other call is made than reading the clock. -/
theorem issue_request_avoids (order : Order) : (s.issueRequest order).Avoids Notable := by
  unfold Server.issueRequest
  split
  · trivial
  · trivial
  · exact .bind (ask_avoids fun h => h) fun _ => trivial

theorem issue_request_returns (order : Order) :
    (s.issueRequest order).Returns fun result => ∀ req, result = .ok req →
      ∃ state now, order.issuance = some state ∧ req = s.issueRequestAt order state now := by
  unfold Server.issueRequest
  split
  · exact nofun
  · exact nofun
  · next state _ hstate =>
      refine Program.returns_bind fun now req hreq => ?_
      cases hreq
      exact ⟨state, now, hstate, rfl⟩

theorem review_issuance_avoids (order : Order) : (s.reviewIssuance order).Avoids Notable := by
  refine .bind (issue_request_avoids s order) fun req => ?_
  cases req with
  | error err => trivial
  | ok req =>
      dsimp only
      split
      · exact ask_avoids fun h => h
      · trivial

theorem store_dispatch_avoids (task : Task) (order : Order) (account : Account)
    (authzs : List Authorization) : (s.storeDispatch task order account authzs).Avoids Notable := by
  refine .bind (call_store_avoids fun h => h) fun reply => ?_
  split
  · trivial
  · exact .bind (reschedule_avoids s task) fun _ => trivial

theorem issuance_order_avoids (task : Task) : (s.issuanceOrder task).Avoids Notable := by
  refine .bind (fetch_avoids fun h => h) fun found => ?_
  cases found with
  | error err => exact drop_avoids s task err
  | ok order =>
      dsimp only
      split
      · exact .bind (finish_task_avoids task) fun _ => trivial
      · trivial

end Dispatch

/-! ## Settling orders -/

variable {s : Server} {client : String} {log : CallLog} {α β : Type}

/-- The issuer was not asked. -/
def Unasked (log : CallLog) : Prop := log.filter asksIssuer = []

theorem unasked_kept (log : CallLog) (e : Exchange Call Call.Answer) (he : ¬Notable e.call)
    (h : Unasked log) : Unasked (log ++ [e]) :=
  (filter_asks_issuer_append (asks_issuer_of_not_notable he)).trans h

/-- A part of an issuance that makes only free calls. -/
theorem avoids_unasked {program : Prog α} (h : program.Avoids Notable) (hlog : Unasked log) :
    program.Follows (Conduct s client) (fun _ => Unasked) log :=
  h.follows conduct_of_not_notable unasked_kept hlog

theorem unasked_after {program : Prog α} {next : α → Prog β} {post : β → CallLog → Prop}
    (h : program.Avoids Notable) (hlog : Unasked log)
    (hnext : ∀ value log', Unasked log' → (next value).Follows (Conduct s client) post log') :
    (program >>= next).Follows (Conduct s client) post log :=
  Program.follows_bind ((avoids_unasked h hlog).weaken hnext)

/-- Failing an order as the rule allows leaves what was asked of the issuer. -/
theorem fail_order_follows {task : Task} {order : Order} {p : Problem}
    (h : Settles s log ⟨task, { order with status := .invalid, error := some p }, none⟩) :
    (s.failOrder task order p).Follows (Conduct s client)
      (fun _ log' => log'.filter asksIssuer = log.filter asksIssuer) log := by
  refine Program.follows_bind (Program.follows_perform h fun reply => ?_)
  have hlog : (log ++ [(⟨.store (.completeIssuance ⟨task, { order with
      status := .invalid, error := some p }, none⟩), reply⟩ : Exchange Call Call.Answer)]).filter
        asksIssuer = log.filter asksIssuer := filter_asks_issuer_append rfl
  split
  · exact hlog
  · exact (reschedule_avoids s task).follows (P := fun log' =>
      log'.filter asksIssuer = log.filter asksIssuer) conduct_of_not_notable
      (fun log' e he h =>
        (filter_asks_issuer_append (asks_issuer_of_not_notable he)).trans h) hlog

/-- An order may fail at any time before the issuer is asked. -/
theorem fail_undispatched_follows (task : Task) (order : Order) (p : Problem) (h : Unasked log) :
    (s.failOrder task order p).Follows (Conduct s client) (fun _ => Unasked) log :=
  (fail_order_follows (.undispatched h rfl rfl)).weaken fun _ _ hlog => hlog.trans h

/-- An order whose returned chain is not published keeps the result. -/
theorem fail_retained_follows {task : Task} {order : Order} {result : IssueResult}
    {err : Option HostError} (p : Problem) (h : Asked s log order result err)
    (hchain : result.chain ≠ []) (hresult : order.unpublishedResult = some result) :
    (s.failOrder task order p).Follows (Conduct s client) (fun _ _ => True) log := by
  obtain ⟨state, now, hstate, hlog⟩ := h
  exact (fail_order_follows (.retained ⟨state, now, hstate, hlog⟩ hchain rfl rfl hresult)).weaken
    fun _ _ _ => trivial

theorem publish_certificate_follows {task : Task} {order : Order} {result : IssueResult}
    {leaf : Leaf} {now : Time} (h : Asked s log order result none) (hchain : result.chain ≠ [])
    (hpending : result.pending = false) (hrejected : result.rejected = none)
    (hcheck : s.checkChain result.chain order.csr order now = .ok leaf) :
    (s.publishCertificate task order result
      (s.issuedCertificateRecord order result leaf now)).Follows (Conduct s client)
      (fun _ _ => True) log := by
  unfold Server.publishCertificate
  refine Program.follows_bind (Program.follows_perform
    (.published h hchain hpending hrejected hcheck rfl rfl) fun reply => ?_)
  split
  · trivial
  · -- Another order published the certificate.
    obtain ⟨state, asked, hstate, hlog⟩ := h.append (e := ⟨_, reply⟩) rfl
    refine fail_retained_follows _ (?_ : Asked s _ _ result none) hchain rfl
    exact ⟨state, asked, hstate, hlog⟩
  · exact avoids_follows (reschedule_avoids s task) _

theorem record_issued_result_follows {task : Task} {order : Order} {result : IssueResult}
    {err : Option HostError} (now : Time) (h : Asked s log order result err)
    (hchain : result.chain ≠ []) :
    (s.recordIssuedResult task order order.csr result now err).Follows (Conduct s client)
      (fun _ _ => True) log := by
  have hretained (p : Problem) : (s.failOrder task { order with unpublishedResult := some result }
      p).Follows (Conduct s client) (fun _ _ => True) log := by
    obtain ⟨state, asked, hstate, hlog⟩ := h
    exact fail_retained_follows p ⟨state, asked, hstate, hlog⟩ hchain rfl
  unfold Server.recordIssuedResult
  split
  · next leaf hcheck =>
      split
      · exact hretained _
      · next hclear =>
          simp only [not_or, Option.isSome_iff_ne_none, not_not, Bool.not_eq_true] at hclear
          obtain ⟨rfl, hpending, hrejected⟩ := hclear
          exact publish_certificate_follows h hchain hpending hrejected hcheck
  · exact hretained _

/-! ## Issuance -/

theorem dispatch_snapshot_follows (task : Task) (order : Order) (h : Unasked log) :
    (s.dispatchSnapshot task order).Follows (Conduct s client) (fun _ => Unasked) log := by
  have hfail {log : CallLog} (h : Unasked log) (p : Problem) :
      (s.failOrder task order p >>= fun _ => pure
        (none : Option (List Authorization × Account × Order))).Follows (Conduct s client)
        (fun _ => Unasked) log :=
    Program.follows_bind (fail_undispatched_follows task order p h)
  refine unasked_after (ask_avoids fun h => h) h fun now log h => ?_
  split
  · exact hfail h _
  · refine unasked_after (fetch_avoids fun h => h) h fun found log h => ?_
    cases found with
    | error err => exact avoids_unasked (drop_avoids s task err) h
    | ok account =>
        dsimp only
        split
        · exact hfail h _
        · refine unasked_after (issuance_loop_avoids s _ _ _ _) h fun evidence log h => ?_
          rcases evidence with err | p | evidence
          · exact avoids_unasked (drop_avoids s task err) h
          · exact hfail h p
          · exact h

theorem check_issuance_policy_follows (task : Task) (order : Order) (h : Unasked log) :
    (s.checkIssuancePolicy task order).Follows (Conduct s client) (fun _ => Unasked) log := by
  refine unasked_after (review_issuance_avoids s order) h fun refusal log h => ?_
  cases refusal with
  | none => exact h
  | some err =>
      dsimp only
      split
      · exact Program.follows_bind (fail_undispatched_follows task _ _ h)
      · split
        · exact Program.follows_bind (avoids_unasked (reschedule_avoids s task) h)
        · exact Program.follows_bind (fail_undispatched_follows task _ _ h)

theorem begin_issuance_follows (task : Task) (order : Order) (h : Unasked log) :
    (s.beginIssuance task order).Follows (Conduct s client) (fun _ => Unasked) log := by
  refine Program.follows_bind ((dispatch_snapshot_follows task order h).weaken ?_)
  intro snapshot log h
  cases snapshot with
  | none => exact h
  | some snapshot =>
      refine Program.follows_bind ((check_issuance_policy_follows task _ h).weaken ?_)
      intro allowed log h
      split
      · exact h
      · refine unasked_after (ask_avoids fun h => h) h fun now log h => ?_
        split
        · exact Program.follows_bind (fail_undispatched_follows task _ _ h)
        · exact avoids_unasked (store_dispatch_avoids s _ _ _ _) h

/-- The issuer is asked once, and the order is settled by its answer or not at all. -/
theorem issue_order_follows (task : Task) (order : Order) (h : Unasked log) :
    (s.issueOrder task order).Follows (Conduct s client) (fun _ _ => True) log := by
  refine Program.follows_bind (((avoids_unasked (issue_request_avoids s order) h).returns
    (issue_request_returns s order)).weaken ?_)
  rintro found log ⟨h, hfound⟩
  cases found with
  | error err => exact avoids_follows (reschedule_avoids s task) log
  | ok req =>
      obtain ⟨state, asked, hstate, rfl⟩ := hfound req rfl
      refine Program.follows_bind (Program.follows_perform trivial fun answer => ?_)
      obtain ⟨result, err⟩ := answer
      refine Program.follows_bind (Program.follows_perform trivial fun now => ?_)
      have hanswered : Asked s ((log ++ [⟨.host (.issue (s.issueRequestAt order state asked)),
          (result, err)⟩]) ++ [⟨.host .now, now⟩]) order result err := by
        refine ⟨state, asked, hstate, ?_⟩
        rw [filter_asks_issuer_append rfl, List.filter_append, h]
        rfl
      split
      · next hlength =>
          exact record_issued_result_follows now hanswered (List.ne_nil_of_length_pos hlength)
      · next hlength =>
          have hchain : result.chain = [] :=
            List.eq_nil_of_length_eq_zero (Nat.eq_zero_of_not_pos hlength)
          split
          · exact avoids_follows (store_reschedule_avoids _) _
          · next herr =>
              cases Option.not_isSome_iff_eq_none.1 herr
              split
              · next p hrejected hpending =>
                  obtain ⟨state, asked, hstate, hlog⟩ := hanswered
                  exact (fail_order_follows (.rejected ⟨state, asked, hstate, hlog⟩ hchain hpending
                    hrejected rfl rfl rfl)).weaken fun _ _ _ => trivial
              · exact avoids_follows (store_reschedule_avoids _) _
              · exact avoids_follows (store_reschedule_avoids _) _

theorem run_issuance_follows (task : Task) (h : Unasked log) :
    (s.runIssuance task).Follows (Conduct s client) (fun _ _ => True) log := by
  refine unasked_after (issuance_order_avoids s task) h fun found log h => ?_
  cases found with
  | none => trivial
  | some order =>
      dsimp only
      split
      · exact issue_order_follows task order h
      · refine Program.follows_bind ((begin_issuance_follows task order h).weaken ?_)
        intro dispatched log h
        cases dispatched with
        | none => trivial
        | some order => exact issue_order_follows task order h

theorem worker_turn_follows (s : Server) (client : String) :
    s.workerTurn.Follows (Conduct s client) (fun _ _ => True) [] := by
  refine unasked_after (ask_avoids fun h => h) rfl fun now log h => ?_
  refine unasked_after (fetch_avoids fun h => h) h fun claimed log h => ?_
  cases claimed with
  | error err => trivial
  | ok task =>
      unfold Server.process
      dsimp only
      split
      · exact avoids_follows (run_validation_avoids s task) log
      · exact run_issuance_follows task h
      · exact avoids_follows (finish_task_avoids task) log

end AcmeServer
