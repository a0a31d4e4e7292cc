import AcmeServer.Conduct.Runs

/-!
# Who creates orders

Only the newOrder handler creates orders, and each under an ID that it drew for it. Every other
program makes no such call, which the lemmas below say function by function where the parts that
make only free calls do not cover it. `run_named` is the result for runs.
-/

namespace AcmeServer

open Interaction Memstore Attempt

variable (s : Server) {α β : Type}

/-- The call creates an order. -/
def CreatesOrder : Call → Prop
  | .store (.createOrder _) => True
  | _ => False

/-- The exchanges drew the ID. -/
def Drew (id : String) (log : CallLog) : Prop := ⟨.host .newID, some id⟩ ∈ log

/-- An order is created under an ID that was drawn. -/
def Named (log : CallLog) : Call → Prop
  | .store (.createOrder n) => Drew n.order.id log
  | _ => True

theorem named_of_not_creates (log : CallLog) (call : Call) (h : ¬CreatesOrder call) :
    Named log call := by
  unfold CreatesOrder at h
  unfold Named
  split
  · exact absurd trivial h
  · trivial

theorem notable_of_creates (call : Call) (h : CreatesOrder call) : Notable call := by
  unfold CreatesOrder at h
  split at h
  · trivial
  · cases h

/-- A part of a handler that makes only free calls creates no order. -/
theorem free_handler {m : Handler α} (h : m.Avoids Notable) : m.Avoids CreatesOrder :=
  h.mono notable_of_creates

theorem free_program {program : Prog α} (h : program.Avoids Notable) :
    program.Avoids CreatesOrder :=
  h.mono notable_of_creates

theorem ask_creates_none (c : HostCall) : (ask c).Avoids CreatesOrder :=
  ⟨fun h => h, fun _ => trivial⟩

/-! ## Writers -/

theorem add_nonce_creates_none (header : Header) :
    (Server.addNonce header).Avoids CreatesOrder := by
  refine .bind (ask_creates_none _) fun answer => ?_
  cases answer <;> trivial

theorem write_problem_creates_none (r : Request) (st : RequestState) (p : Problem) :
    (s.writeProblem r st p).Avoids CreatesOrder := by
  unfold Server.writeProblem
  extract_lets respond
  have hrespond (refusal : Option Problem) : (respond refusal).Avoids CreatesOrder := by
    cases refusal with
    | some refusal => exact ask_creates_none _
    | none => exact .bind (add_nonce_creates_none _) fun _ => ask_creates_none _
  split
  · exact hrespond none
  · exact .bind (free_program (check_limit_avoids s _)) hrespond

theorem write_creates_none (r : Request) (status : Int) (contentType : Option String)
    (body : Body) : (s.write r status contentType body).Avoids CreatesOrder := by
  refine .bind .get fun st => .bind (.lift (add_nonce_creates_none _)) fun header => ?_
  exact .lift (ask_creates_none _)

theorem write_order_creates_none (r : Request) (status : Int) (order : Order) (now : Time) :
    (s.writeOrder r status order now).Avoids CreatesOrder := by
  unfold Server.writeOrder
  refine .bind (.modify _) fun _ => ?_
  dsimp only
  split
  · exact .bind (.modify _) fun _ => write_creates_none s r _ _ _
  · exact write_creates_none s r _ _ _

theorem write_challenge_creates_none (r : Request) (ch : Challenge) :
    (s.writeChallenge r ch).Avoids CreatesOrder := by
  unfold Server.writeChallenge
  dsimp only
  split
  · exact .bind (.modify _) fun _ => write_creates_none s r _ _ _
  · exact write_creates_none s r _ _ _

/-! ## Signed requests -/

theorem read_signed_request_avoids (r : Request) (rel : String) (mode : KeyMode) :
    (s.readSignedRequest r rel mode).Avoids Notable := by
  unfold Server.readSignedRequest
  refine .bind (.fail_if _ _) fun _ => .bind (.expect _) fun body => .bind (.expect _) fun msg => ?_
  refine .bind (.lift (ask_avoids fun h => h)) fun known => .bind (.expect _) fun valid => ?_
  refine .bind (.fail_if _ _) fun _ => .bind (.modify _) fun _ => .bind (.fail_if _ _) fun _ => ?_
  exact .bind (read_signer_avoids s msg mode) fun signer => .bind (.check _) fun _ => .pure _

theorem read_owned_account_avoids (r : Request) (id rel : String) :
    (s.readOwnedAccount r id rel).Avoids Notable :=
  .bind (read_signed_request_avoids s r rel .account) fun _ => .bind (.fail_if _ _) fun _ => .pure _

theorem read_owned_order_avoids (r : Request) (id rel : String) :
    (s.readOwnedOrder r id rel).Avoids Notable := by
  refine .bind (read_signed_request_avoids s r rel .account) fun req => ?_
  refine .bind (.lift (fetch_avoids fun h => h)) fun found => .bind (.expect _) fun order => ?_
  refine .bind (.fail_if _ _) fun _ => ?_
  split
  · refine .bind (.lift (derive_order_status_avoids _ _)) fun status => ?_
    exact .bind (.expect _) fun _ => .pure _
  · exact .pure _

/-! ## Resources -/

/-- After a part that makes only free calls. -/
theorem after_free {m : Handler α} {f : α → Handler β} (hm : m.Avoids Notable)
    (hf : ∀ value, (f value).Avoids CreatesOrder) : (m >>= f).Avoids CreatesOrder :=
  .bind (free_handler hm) hf

theorem write_existing_account_creates_none (r : Request) (account : Account) :
    (s.writeExistingAccount r account).Avoids CreatesOrder :=
  .bind (.fail_if _ _) fun _ => .bind (.modify _) fun _ => write_creates_none s r _ _ _

theorem store_new_account_creates_none (r : Request) (thumbprint : String) (account : Account) :
    (s.storeNewAccount r thumbprint account).Avoids CreatesOrder := by
  unfold Server.storeNewAccount
  refine after_free (.lift (call_store_avoids fun h => h)) fun reply => ?_
  split
  · exact .bind (.modify _) fun _ => write_creates_none s r _ _ _
  · refine after_free (.lift (fetch_avoids fun h => h)) fun existing => ?_
    cases existing with
    | ok existing => exact write_existing_account_creates_none s r existing
    | error err =>
        dsimp only
        split
        · exact .throw _
        · exact .throw _
  · exact .throw _

theorem serve_new_account_creates_none (r : Request) :
    (s.serveNewAccount r).Avoids CreatesOrder := by
  unfold Server.serveNewAccount
  extract_lets rest
  have hrest (u : PUnit) : (rest u).Avoids CreatesOrder := by
    refine after_free (read_signed_request_avoids s r _ _) fun req => ?_
    refine .bind (.expect _) fun payload => .bind (.expect _) fun thumbprint => ?_
    refine after_free (.lift (fetch_avoids fun h => h)) fun existing => ?_
    cases existing with
    | ok existing => exact write_existing_account_creates_none s r existing
    | error err =>
        refine .bind (.fail_if _ _) fun _ => .bind (.fail_if _ _) fun _ => ?_
        refine after_free (build_account_avoids s _ _ _ _) fun account => ?_
        exact store_new_account_creates_none s r _ _
  split
  · exact .bind (.modify _) hrest
  · exact hrest ()

theorem serve_account_creates_none (r : Request) (id : String) :
    (s.serveAccount r id).Avoids CreatesOrder := by
  refine after_free (read_owned_account_avoids s r id _) fun req => ?_
  split
  · exact write_creates_none s r _ _ _
  · refine .bind (.expect _) fun payload => .bind (.fail_if _ _) fun _ => ?_
    refine .bind (.check _) fun _ => ?_
    refine after_free (.lift (update_account_avoids _)) fun updated => ?_
    exact .bind (.expect _) fun account => write_creates_none s r _ _ _

theorem serve_account_orders_creates_none (r : Request) (id : String) :
    (s.serveAccountOrders r id).Avoids CreatesOrder := by
  refine after_free (read_owned_account_avoids s r id _) fun req => ?_
  refine .bind (.check _) fun _ => .bind (.fail_if _ _) fun _ => ?_
  refine after_free (.lift (fetch_avoids fun h => h)) fun found => .bind (.expect _) fun ids => ?_
  refine .bind (.lift (ask_creates_none _)) fun now => after_free (order_urls_avoids s _ _) ?_
  intro urls
  dsimp only
  split
  · exact .bind (.modify _) fun _ => write_creates_none s r _ _ _
  · exact write_creates_none s r _ _ _

theorem serve_key_change_creates_none (r : Request) :
    (s.serveKeyChange r).Avoids CreatesOrder := by
  refine after_free (read_signed_request_avoids s r _ _) fun req => .bind (.expect _) ?_
  intro account
  refine after_free (.lift (update_account_avoids _)) fun updated => ?_
  cases updated with
  | ok account => exact write_creates_none s r _ _ _
  | error p =>
      dsimp only
      split
      · refine after_free (.lift (fetch_avoids fun h => h)) fun other => ?_
        cases other with
        | ok other => exact .bind (.modify _) fun _ => .throw _
        | error err => exact .throw _
      · exact .throw _

theorem serve_order_creates_none (r : Request) (id : String) :
    (s.serveOrder r id).Avoids CreatesOrder := by
  refine after_free (read_owned_order_avoids s r id _) fun found => .bind (.check _) fun _ => ?_
  exact .bind (.lift (ask_creates_none _)) fun now => write_order_creates_none s r _ _ _

theorem serve_authorization_creates_none (r : Request) (id : String) :
    (s.serveAuthorization r id).Avoids CreatesOrder := by
  refine after_free (read_signed_request_avoids s r _ _) fun req => ?_
  refine after_free (.lift (fetch_avoids fun h => h)) fun found => .bind (.expect _) fun authz => ?_
  refine .bind (.fail_if _ _) fun _ => .bind (.lift (ask_creates_none _)) fun now => ?_
  extract_lets rest
  have hrest (authz : Authorization) : (rest authz).Avoids CreatesOrder :=
    after_free (load_challenges_avoids _) fun _ => write_creates_none s r _ _ _
  split
  · refine .bind (.expect _) fun payload => .bind (.fail_if _ _) fun _ => ?_
    exact after_free (deactivate_authorization_avoids _ _) hrest
  · exact .bind (.pure _) hrest

theorem serve_challenge_creates_none (r : Request) (id : String) :
    (s.serveChallenge r id).Avoids CreatesOrder := by
  refine after_free (read_signed_request_avoids s r _ _) fun req => ?_
  refine after_free (.lift (fetch_avoids fun h => h)) fun found => .bind (.expect _) fun ch => ?_
  refine .bind (.fail_if _ _) fun _ => .bind (.modify _) fun _ => ?_
  dsimp only
  split
  · refine .bind (.expect _) fun payload => after_free (accept_challenge_avoids s _ _ _ _) ?_
    exact fun ch => write_challenge_creates_none s r ch
  · exact .bind (.pure _) fun ch => write_challenge_creates_none s r ch

theorem serve_finalize_creates_none (r : Request) (id : String) :
    (s.serveFinalize r id).Avoids CreatesOrder := by
  refine after_free (read_owned_order_avoids s r id _) fun found => ?_
  refine after_free (refusing_avoids s _ (.expect _)) fun der => ?_
  refine .bind (.lift (ask_creates_none _)) fun now => ?_
  split
  · exact after_free (finalize_ready_avoids s _ _ _ _ _) fun order =>
      write_order_creates_none s r _ _ _
  · exact after_free (refusing_avoids s _ (.fail_if _ _)) fun _ =>
      write_order_creates_none s r _ _ _
  · exact after_free (refusing_avoids s _ (.fail_if _ _)) fun _ =>
      write_order_creates_none s r _ _ _
  · exact free_handler (refusing_avoids s _ (.throw _))

theorem serve_certificate_creates_none (r : Request) (id : String) :
    (s.serveCertificate r id).Avoids CreatesOrder := by
  refine after_free (read_signed_request_avoids s r _ _) fun req => ?_
  refine after_free (.lift (fetch_avoids fun h => h)) fun found => .bind (.expect _) fun cert => ?_
  exact .bind (.fail_if _ _) fun _ => .bind (.check _) fun _ => write_creates_none s r _ _ _

theorem serve_revoke_cert_creates_none (r : Request) :
    (s.serveRevokeCert r).Avoids CreatesOrder := by
  refine after_free (read_signed_request_avoids s r _ _) fun req => ?_
  refine after_free (refusing_avoids s _ (.expect _)) fun payload => ?_
  refine after_free (refusing_avoids s _ (.expect _)) fun der => ?_
  refine after_free (refusing_avoids s _ (open_revocation_avoids s _ _ _)) fun cert => ?_
  refine .bind (.lift (ask_creates_none _)) fun err => ?_
  cases err with
  | some err =>
      dsimp only
      split
      · refine after_free (.lift (abandon_revocation_avoids _)) fun _ => ?_
        exact free_handler (refusing_avoids s _ (.throw _))
      · exact .throw _
  | none =>
      refine after_free (.lift (record_revocation_avoids _ _ _)) fun refusal => ?_
      exact .bind (.check _) fun _ => write_creates_none s r _ _ _

/-! ## Resources without signatures -/

theorem serve_new_nonce_creates_none (r : Request) :
    (s.serveNewNonce r).Avoids CreatesOrder := by
  refine .bind (free_program (check_limit_avoids s _)) fun refusal => ?_
  cases refusal with
  | some p => exact ask_creates_none _
  | none =>
      refine .bind (ask_creates_none _) fun answer => ?_
      cases answer <;> exact ask_creates_none _

theorem serve_renewal_info_creates_none (r : Request) (id : String) :
    (s.serveRenewalInfo r id).Avoids CreatesOrder := by
  unfold Server.serveRenewalInfo
  split
  · exact write_problem_creates_none s r _ _
  · refine .bind (free_program (check_limit_avoids s _)) fun refusal => ?_
    cases refusal with
    | some p => exact ask_creates_none _
    | none =>
        refine .bind (free_program (fetch_avoids fun h => h)) fun found => ?_
        cases found with
        | error err => exact write_problem_creates_none s r _ _
        | ok cert =>
            refine .bind (ask_creates_none _) fun advice => ?_
            cases advice with
            | error err => exact write_problem_creates_none s r _ _
            | ok info =>
                dsimp only
                split
                · exact write_problem_creates_none s r _ _
                · exact ask_creates_none _

theorem serve_profile_creates_none (r : Request) (name : String) :
    (s.serveProfile r name).Avoids CreatesOrder := by
  unfold Server.serveProfile
  split
  · exact write_problem_creates_none s r _ _
  · exact ask_creates_none _

/-! ## Workers -/

theorem fail_order_creates_none (task : Task) (order : Order) (p : Problem) :
    (s.failOrder task order p).Avoids CreatesOrder := by
  refine .bind ⟨fun h => h, fun _ => trivial⟩ fun reply => ?_
  split
  · trivial
  · exact free_program (reschedule_avoids s task)

theorem publish_certificate_creates_none (task : Task) (order : Order) (result : IssueResult)
    (cert : Certificate) : (s.publishCertificate task order result cert).Avoids CreatesOrder := by
  unfold Server.publishCertificate
  refine .bind ⟨fun h => h, fun _ => trivial⟩ fun reply => ?_
  split
  · trivial
  · exact fail_order_creates_none s _ _ _
  · exact free_program (reschedule_avoids s task)

theorem record_issued_result_creates_none (task : Task) (order : Order) (csr : Bytes)
    (result : IssueResult) (now : Time) (err : Option HostError) :
    (s.recordIssuedResult task order csr result now err).Avoids CreatesOrder := by
  unfold Server.recordIssuedResult
  split
  · split
    · exact fail_order_creates_none s _ _ _
    · exact publish_certificate_creates_none s _ _ _ _
  · exact fail_order_creates_none s _ _ _

theorem dispatch_snapshot_creates_none (task : Task) (order : Order) :
    (s.dispatchSnapshot task order).Avoids CreatesOrder := by
  have hfail (p : Problem) : (s.failOrder task order p >>= fun _ => pure
      (none : Option (List Authorization × Account × Order))).Avoids CreatesOrder :=
    .bind (fail_order_creates_none s task order p) fun _ => trivial
  refine .bind (ask_creates_none _) fun now => ?_
  split
  · exact hfail _
  · refine .bind (free_program (fetch_avoids fun h => h)) fun found => ?_
    cases found with
    | error err => exact free_program (drop_avoids s task err)
    | ok account =>
        dsimp only
        split
        · exact hfail _
        · refine .bind (free_program (issuance_loop_avoids s _ _ _ _)) fun evidence => ?_
          rcases evidence with err | p | evidence
          · exact free_program (drop_avoids s task err)
          · exact hfail p
          · trivial

theorem check_issuance_policy_creates_none (task : Task) (order : Order) :
    (s.checkIssuancePolicy task order).Avoids CreatesOrder := by
  refine .bind (free_program (review_issuance_avoids s order)) fun refusal => ?_
  cases refusal with
  | none => trivial
  | some err =>
      dsimp only
      split
      · exact .bind (fail_order_creates_none s _ _ _) fun _ => trivial
      · split
        · exact .bind (free_program (reschedule_avoids s task)) fun _ => trivial
        · exact .bind (fail_order_creates_none s _ _ _) fun _ => trivial

theorem begin_issuance_creates_none (task : Task) (order : Order) :
    (s.beginIssuance task order).Avoids CreatesOrder := by
  refine .bind (dispatch_snapshot_creates_none s task order) fun snapshot => ?_
  cases snapshot with
  | none => trivial
  | some snapshot =>
      refine .bind (check_issuance_policy_creates_none s task _) fun allowed => ?_
      split
      · trivial
      · refine .bind (ask_creates_none _) fun now => ?_
        split
        · exact .bind (fail_order_creates_none s _ _ _) fun _ => trivial
        · exact free_program (store_dispatch_avoids s _ _ _ _)

theorem issue_order_creates_none (task : Task) (order : Order) :
    (s.issueOrder task order).Avoids CreatesOrder := by
  refine .bind (free_program (issue_request_avoids s order)) fun found => ?_
  cases found with
  | error err => exact free_program (reschedule_avoids s task)
  | ok req =>
      refine .bind (ask_creates_none _) fun answer => .bind (ask_creates_none _) fun now => ?_
      split
      · exact record_issued_result_creates_none s _ _ _ _ _ _
      · split
        · exact free_program (store_reschedule_avoids _)
        · split
          · exact fail_order_creates_none s _ _ _
          · exact free_program (store_reschedule_avoids _)
          · exact free_program (store_reschedule_avoids _)

theorem run_issuance_creates_none (task : Task) :
    (s.runIssuance task).Avoids CreatesOrder := by
  refine .bind (free_program (issuance_order_avoids s task)) fun found => ?_
  cases found with
  | none => trivial
  | some order =>
      dsimp only
      split
      · exact issue_order_creates_none s task order
      · refine .bind (begin_issuance_creates_none s task order) fun dispatched => ?_
        cases dispatched with
        | none => trivial
        | some order => exact issue_order_creates_none s task order

theorem worker_turn_creates_none : s.workerTurn.Avoids CreatesOrder := by
  refine .bind (ask_creates_none _) fun now => ?_
  refine .bind (free_program (fetch_avoids fun h => h)) fun claimed => ?_
  cases claimed with
  | error err => trivial
  | ok task =>
      unfold Server.process
      dsimp only
      split
      · exact free_program (run_validation_avoids s task)
      · exact run_issuance_creates_none s task
      · exact free_program (finish_task_avoids task)

/-! ## New orders -/

section NewOrders

variable {s} {st : RequestState} {log : CallLog} {id : String}

theorem drew_kept (log : CallLog) (e : Exchange Call Call.Answer) (_ : ¬CreatesOrder e.call)
    (h : Drew id log) : Drew id (log ++ [e]) :=
  List.mem_append_left _ h

/-- After a part that creates no order, whatever it returns. -/
theorem named_after {m : Handler α} {f : α → Handler β}
    {post : β → RequestState → CallLog → Prop} (hm : m.Avoids CreatesOrder)
    (hf : ∀ value st' log', Follows Named (f value) st' post (fun _ _ _ => True) log') :
    Follows Named (m >>= f) st post (fun _ _ _ => True) log :=
  follows_bind ((hm.follows (P := fun _ => True) named_of_not_creates (fun _ _ _ => id)
    trivial).weaken (fun value st' log' _ => hf value st' log') fun _ _ _ => id)

/-- The ID stays drawn during a part that creates no order. -/
theorem drew_after {m : Handler α} {f : α → Handler β}
    {post : β → RequestState → CallLog → Prop} (hm : m.Avoids CreatesOrder) (hid : Drew id log)
    (hf : ∀ value st' log', Drew id log' →
      Follows Named (f value) st' post (fun _ _ _ => True) log') :
    Follows Named (m >>= f) st post (fun _ _ _ => True) log :=
  follows_bind ((hm.follows named_of_not_creates drew_kept hid).weaken hf fun _ _ _ _ => trivial)

/-- A part that keeps the ID of an order that was drawn. -/
theorem drew_returned {m : Handler α} {orderID : α → String} (hm : m.Avoids CreatesOrder)
    (hreturns : m.Returns fun value => orderID value = id) (hid : Drew id log) :
    Follows Named m st (fun value _ => Drew (orderID value)) (fun _ _ _ => True) log := by
  refine ((hm.follows named_of_not_creates drew_kept hid).returns hreturns).weaken ?_ fun _ _ _ _ =>
    trivial
  rintro value st' log' ⟨hdrew, rfl⟩
  exact hdrew

theorem review_order_keeps_id (account : Account) (order : Order) :
    (Server.reviewOrder account order).Returns fun reviewed => reviewed.id = order.id := by
  refine returns_seq fun review => ?_
  exact returns_seq fun _ => returns_seq fun _ => returns_seq fun _ => returns_pure rfl

theorem build_order_draws (account : Account) (payload : NewOrderJSON) (now : Time)
    (client : String) :
    Follows Named (s.buildOrder account payload now client) st
      (fun order _ => Drew order.id) (fun _ _ _ => True) log := by
  unfold Server.buildOrder
  refine named_after (.expect _) fun identifiers st log => ?_
  refine named_after (.expect _) fun validity st log => ?_
  refine named_after (free_handler (select_profile_avoids s _ _)) fun profile st log => ?_
  refine named_after (free_handler (check_replaces_avoids s _ _ _)) fun replaces st log => ?_
  refine follows_bind (follows_lift (Program.follows_perform trivial fun drawn => ?_))
  cases drawn with
  | none => trivial
  | some id =>
      have hid : Drew id (log ++ [⟨.host .newID, some id⟩]) :=
        List.mem_append_right _ (List.mem_singleton_self _)
      refine drew_after (.lift (free_program (check_limit_avoids s _))) hid ?_
      intro refusal st log hid
      refine drew_after (.check _) hid fun _ st log hid => ?_
      exact drew_returned (free_handler (review_order_avoids _ _)) (review_order_keeps_id _ _) hid

theorem build_authorizations_keeps_id (order : Order) (preApproved : Finset Identifier) :
    (s.buildAuthorizations order preApproved).Returns fun new => new.order.id = order.id :=
  returns_seq fun _ => returns_pure rfl

theorem serve_new_order_named (r : Request) :
    Follows Named (s.serveNewOrder r) st (fun _ _ _ => True) (fun _ _ _ => True) log := by
  unfold Server.serveNewOrder
  refine named_after (free_handler (read_signed_request_avoids s r _ _)) fun req st log => ?_
  refine named_after (.expect _) fun payload st log => ?_
  refine named_after (.lift (ask_creates_none _)) fun now st log => ?_
  refine follows_bind ((build_order_draws _ _ _ _).weaken ?_ fun _ _ _ => id)
  intro order st log hid
  refine drew_after (free_handler (pre_approve_avoids s _ _)) hid fun preApproved st log hid => ?_
  refine follows_bind ((drew_returned (free_handler (build_authorizations_avoids s _ _))
    (build_authorizations_keeps_id order preApproved) hid).weaken ?_ fun _ _ _ => id)
  intro new st log hid
  refine follows_bind (follows_lift (Program.follows_perform hid fun reply => ?_))
  split
  · exact (write_order_creates_none s r _ _ _).follows named_of_not_creates (fun _ _ _ => id)
      trivial
  · split
    · trivial
    · trivial

end NewOrders

/-! ## Runs -/

theorem creates_none_named {program : Prog α} (h : program.Avoids CreatesOrder) (log : CallLog) :
    program.Follows Named (fun _ _ => True) log :=
  h.follows named_of_not_creates (fun _ _ _ => id) trivial

theorem serve_post_named (r : Request) {handler : Handler Unit}
    (h : Follows Named handler {} (fun _ _ _ => True) (fun _ _ _ => True) []) :
    (s.servePOST r handler).Follows Named (fun _ _ => True) [] := by
  unfold Server.servePOST
  split
  · refine Program.follows_bind (Program.Follows.weaken h fun outcome log' _ => ?_)
    rcases outcome with ⟨p | ⟨⟩, st⟩
    · exact creates_none_named (write_problem_creates_none s r st p) log'
    · trivial
  · exact creates_none_named (write_problem_creates_none s r _ _) []

theorem serve_post_creates_none (r : Request) {handler : Handler Unit}
    (h : handler.Avoids CreatesOrder) :
    (s.servePOST r handler).Follows Named (fun _ _ => True) [] :=
  serve_post_named s r (h.follows named_of_not_creates (fun _ _ _ => id) trivial)

theorem serve_read_creates_none (r : Request) {program : Prog Unit}
    (h : program.Avoids CreatesOrder) :
    (s.serveRead r program).Follows Named (fun _ _ => True) [] := by
  unfold Server.serveRead
  split
  · exact creates_none_named h []
  · exact creates_none_named (write_problem_creates_none s r _ _) []

/-- Every program of the server creates orders only under IDs that it drew. -/
theorem program_named (start : Server.Start) :
    (s.program start).Follows Named (fun _ _ => True) [] := by
  cases start with
  | worker => exact creates_none_named (worker_turn_creates_none s) []
  | request r =>
      unfold Server.program Server.serveHTTP
      dsimp only
      cases s.route r with
      | directory => exact serve_read_creates_none s r (ask_creates_none _)
      | newNonce => exact serve_read_creates_none s r (serve_new_nonce_creates_none s r)
      | renewalInfo id => exact serve_read_creates_none s r (serve_renewal_info_creates_none s r id)
      | profile name => exact serve_read_creates_none s r (serve_profile_creates_none s r name)
      | newAccount => exact serve_post_creates_none s r (serve_new_account_creates_none s r)
      | newOrder => exact serve_post_named s r (serve_new_order_named r)
      | revokeCert => exact serve_post_creates_none s r (serve_revoke_cert_creates_none s r)
      | keyChange => exact serve_post_creates_none s r (serve_key_change_creates_none s r)
      | account id => exact serve_post_creates_none s r (serve_account_creates_none s r id)
      | accountOrders id =>
          exact serve_post_creates_none s r (serve_account_orders_creates_none s r id)
      | order id => exact serve_post_creates_none s r (serve_order_creates_none s r id)
      | finalize id => exact serve_post_creates_none s r (serve_finalize_creates_none s r id)
      | authorization id =>
          exact serve_post_creates_none s r (serve_authorization_creates_none s r id)
      | challenge id => exact serve_post_creates_none s r (serve_challenge_creates_none s r id)
      | certificate id => exact serve_post_creates_none s r (serve_certificate_creates_none s r id)
      | unknown => exact creates_none_named (write_problem_creates_none s r _ _) []

/-- Whoever creates an order in a run has drawn its ID before. -/
theorem run_named (schedule : Server.Schedule) {e : Event} {earlier : List Event}
    (hsuffix : e :: earlier <:+ (s.run schedule).history) {n : NewOrder}
    (hcall : e.call = .store (.createOrder n)) :
    ∃ d ∈ earlier, d.draws = some n.order.id := by
  have hfollowed : Followed Named World.entries (s.config schedule) :=
    run_follows execute_records rfl (program_named s) schedule
  have hnamed : Named (threadLog e.thread (earlier.map Event.entry)) e.call :=
    hfollowed.allowed (hsuffix.map Event.entry)
  rw [hcall] at hnamed
  obtain ⟨d, hd, hentry⟩ := List.mem_map.1 (mem_thread_log.1 hnamed)
  obtain ⟨thread, before, call, answer⟩ := d
  cases hentry
  exact ⟨_, hd, rfl⟩

end AcmeServer
