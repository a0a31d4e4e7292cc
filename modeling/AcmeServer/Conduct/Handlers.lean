import AcmeServer.Conduct.Requests
import AcmeServer.Safety.NewOrder

/-!
# Request handlers keep to the rule

A response carries at most one nonce, and only one that was earned. Reading a signed request spends
a nonce, so from then on one is owed (`Owed`), and every handler ends by writing one response or by
refusing the request, with the nonce still owed (`Finishes`). A request refused before its nonce was
spent gets one only if the limiter does not mind (`write_problem_follows`).
-/

namespace AcmeServer

open Interaction Memstore Attempt

variable {s : Server} {client : String} {log : CallLog} {α β : Type}

/-- The client spent a nonce and was not given one yet. -/
def Owed (log : CallLog) : Prop := Unissued log ∧ Spent log

/-- The client was given no nonce, and what the request noted about its own is true. -/
def Stopped (st : RequestState) (log : CallLog) : Prop :=
  Unissued log ∧ (st.nonceSpent = true → Spent log)

theorem Owed.stopped (h : Owed log) (st : RequestState) : Stopped st log := ⟨h.1, fun _ => h.2⟩

theorem unissued_kept (log : CallLog) (e : Exchange Call Call.Answer) (he : ¬Notable e.call)
    (h : Unissued log) : Unissued (log ++ [e]) :=
  h.append (asks_nonce_of_not_notable he)

theorem owed_kept (log : CallLog) (e : Exchange Call Call.Answer) (he : ¬Notable e.call)
    (h : Owed log) : Owed (log ++ [e]) :=
  ⟨unissued_kept log e he h.1, h.2.append⟩

/-! ## Writers -/

theorem add_nonce_follows (header : Header) (h : Unissued log) (hearned : Earned s client log) :
    (Server.addNonce header).Follows (Conduct s client) (fun _ _ => True) log := by
  refine Program.follows_bind (Program.follows_perform ⟨h, hearned⟩ fun answer => ?_)
  cases answer <;> trivial

/-- A newNonce that was not refused is earned. -/
theorem check_limit_follows (h : Unissued log) :
    (s.checkLimit { kind := .newNonce, client := client }).Follows (Conduct s client)
      (fun refusal log' => Unissued log' ∧ (refusal = none → Earned s client log')) log := by
  unfold Server.checkLimit
  split
  · refine Program.follows_bind (Program.follows_perform trivial fun answer => ?_)
    refine ⟨unissued_kept _ _ (fun h => h) h, fun hnone => ?_⟩
    cases Option.map_eq_none_iff.1 hnone
    exact .inr (.inr ⟨_, List.mem_append_right _ (List.mem_singleton_self _), by
      simp [allowsNonceFor]⟩)
  · next hlimits => exact ⟨h, fun _ => .inr (.inl (by simpa using hlimits))⟩

theorem respond_avoids (r : Request) (response : Response) :
    (ask (.respond r response)).Avoids Notable :=
  ask_avoids id

theorem write_problem_without_nonce_avoids (r : Request) (header : Header) (p : Problem) :
    (s.writeProblemWithoutNonce r header p).Avoids Notable :=
  respond_avoids _ _

theorem write_problem_follows (r : Request) {st : RequestState} (p : Problem)
    (h : Stopped st log) :
    (s.writeProblem r st p).Follows (Conduct s r.client) (fun _ _ => True) log := by
  unfold Server.writeProblem
  extract_lets respond
  have hrespond (refusal : Option Problem) (log' : CallLog)
      (hlog : Unissued log' ∧ (refusal = none → Earned s r.client log')) :
      (respond refusal).Follows (Conduct s r.client) (fun _ _ => True) log' := by
    cases refusal with
    | some refusal => exact avoids_follows (write_problem_without_nonce_avoids r _ _) log'
    | none =>
        refine Program.follows_bind ((add_nonce_follows _ hlog.1 (hlog.2 rfl)).weaken ?_)
        exact fun header log'' _ => avoids_follows (write_problem_without_nonce_avoids r _ _) log''
  split
  · next hspent => exact hrespond none log ⟨h.1, fun _ => .inl (h.2 hspent)⟩
  · exact Program.follows_bind ((check_limit_follows h.1).weaken hrespond)

/-! ## Handlers -/

/-- With a nonce owed, the handler writes at most one response, or refuses and leaves the nonce
owed. -/
def Finishes (s : Server) (client : String) (m : Handler α) : Prop :=
  ∀ st log, Owed log →
    m.Follows (Conduct s client) st (fun _ _ _ => True) (fun _ _ => Owed) log

/-- A part that makes only free calls leaves the nonce owed. -/
theorem avoids_owed {m : Handler α} (h : m.Avoids Notable) (st : RequestState) (hlog : Owed log) :
    m.Follows (Conduct s client) st (fun _ _ => Owed) (fun _ _ => Owed) log :=
  h.follows conduct_of_not_notable owed_kept hlog

theorem Finishes.of_avoids {m : Handler α} (h : m.Avoids Notable) : Finishes s client m :=
  fun st _ hlog => (avoids_owed h st hlog).weaken (fun _ _ _ _ => trivial) fun _ _ _ => id

theorem Finishes.throw (p : Problem) : Finishes s client (throw p : Handler α) :=
  .of_avoids (.throw p)

theorem Finishes.after {m : Handler α} {f : α → Handler β} (hm : m.Avoids Notable)
    (hf : ∀ value, Finishes s client (f value)) : Finishes s client (m >>= f) := fun st _ hlog =>
  follows_bind ((avoids_owed hm st hlog).weaken (fun value st' log' => hf value st' log')
    fun _ _ _ => id)

/-- A part whose value matters to what follows. -/
theorem Finishes.returning {m : Handler α} {f : α → Handler β} {P : α → Prop}
    (hm : m.Avoids Notable) (hP : m.Returns P)
    (hf : ∀ value, P value → Finishes s client (f value)) :
    Finishes s client (m >>= f) := fun st _ hlog =>
  follows_bind (((avoids_owed hm st hlog).returns hP).weaken
    (fun value st' log' h => hf value h.2 st' log' h.1) fun _ _ _ => id)

theorem write_finishes (r : Request) (status : Int) (contentType : Option String) (body : Body) :
    Finishes s client (s.write r status contentType body) := by
  refine .after .get fun st => ?_
  intro st' log hlog
  refine follows_bind (follows_lift ((add_nonce_follows _ hlog.1 (.inl hlog.2)).weaken ?_))
  exact fun header log' _ => follows_lift (avoids_follows (respond_avoids _ _) log')

theorem write_json_finishes (r : Request) (status : Int) (body : Body) :
    Finishes s client (s.writeJSON r status body) :=
  write_finishes r status _ body

theorem write_order_finishes (r : Request) (status : Int) (order : Order) (now : Time) :
    Finishes s client (s.writeOrder r status order now) := by
  unfold Server.writeOrder
  refine .after (set_header_avoids _ _) fun _ => ?_
  dsimp only
  split
  · exact .after (set_header_avoids _ _) fun _ => write_json_finishes r _ _
  · exact write_json_finishes r _ _

theorem write_challenge_finishes (r : Request) (ch : Challenge) :
    Finishes s client (s.writeChallenge r ch) := by
  unfold Server.writeChallenge
  dsimp only
  split
  · exact .after (set_header_avoids _ _) fun _ => write_json_finishes r _ _
  · exact write_json_finishes r _ _

/-! ## Signed requests -/

/-- The handler spends a nonce first. -/
def Opens (s : Server) (client : String) (m : Handler α) : Prop :=
  ∀ st, st.nonceSpent = false →
    m.Follows (Conduct s client) st (fun _ _ => Owed) (fun _ => Stopped) []

/-- The handler may answer a request from its beginning on. -/
def Serves (s : Server) (client : String) (m : Handler Unit) : Prop :=
  ∀ st, st.nonceSpent = false →
    m.Follows (Conduct s client) st (fun _ _ _ => True) (fun _ => Stopped) []

theorem Opens.bind {m : Handler α} {f : α → Handler β} (hm : Opens s client m)
    (hf : ∀ value, (f value).Avoids Notable) : Opens s client (m >>= f) := fun st hst =>
  follows_bind ((hm st hst).weaken (fun value st' _ hlog => (avoids_owed (hf value) st' hlog).weaken
    (fun _ _ _ => id) fun _ st' _ h => h.stopped st') fun _ _ _ => id)

theorem Opens.serves {m : Handler α} {f : α → Handler Unit} (hm : Opens s client m)
    (hf : ∀ value, Finishes s client (f value)) : Serves s client (m >>= f) := fun st hst =>
  follows_bind ((hm st hst).weaken (fun value st' log' hlog => (hf value st' log' hlog).weaken
    (fun _ _ _ => id) fun _ st' _ h => h.stopped st') fun _ _ _ => id)

theorem read_signed_request_opens (r : Request) (rel : String) (mode : KeyMode) :
    Opens s client (s.readSignedRequest r rel mode) := by
  intro st hst
  have hstopped {log : CallLog} (h : Unissued log) : Stopped st log :=
    ⟨h, fun hspent => absurd (hst.symm.trans hspent) Bool.false_ne_true⟩
  have hnil : Unissued [] := fun _ he => absurd he List.not_mem_nil
  unfold Server.readSignedRequest
  refine follows_bind (follows_fail_if (fun _ => hstopped hnil) fun _ => ?_)
  refine follows_bind (follows_expect (fun _ _ => hstopped hnil) fun body _ => ?_)
  refine follows_bind (follows_expect (fun _ _ => hstopped hnil) fun msg _ => ?_)
  refine follows_bind (follows_lift (Program.follows_perform trivial fun answer => ?_))
  have hunissued := unissued_kept [] ⟨.host (.consumeNonce msg.nonce), answer⟩ (fun h => h) hnil
  refine follows_bind (follows_expect (fun _ _ => hstopped hunissued) fun valid hvalid => ?_)
  refine follows_bind (follows_fail_if (fun _ => hstopped hunissued) fun hne => ?_)
  -- The nonce manager confirmed the nonce; from here on one is owed.
  have howed : Owed ([] ++ [⟨.host (.consumeNonce msg.nonce), answer⟩]) := by
    refine ⟨hunissued, _, List.mem_singleton_self _, ?_⟩
    rw [Fallible.map_error_eq_ok.1 hvalid, Bool.eq_true_of_not_eq_false hne]
    rfl
  refine Follows.weaken (avoids_owed (.bind (.modify _) fun _ => .bind (.fail_if _ _) fun _ =>
    .bind (read_signer_avoids s msg mode) fun signer => .bind (.check _) fun _ => .pure _) st howed)
    (fun _ _ _ => id) fun _ st' _ h => h.stopped st'

theorem read_owned_account_opens (r : Request) (id rel : String) :
    Opens s client (s.readOwnedAccount r id rel) :=
  (read_signed_request_opens r rel .account).bind fun _ => .bind (.fail_if _ _) fun _ => .pure _

theorem read_owned_order_opens (r : Request) (id rel : String) :
    Opens s client (s.readOwnedOrder r id rel) := by
  refine (read_signed_request_opens r rel .account).bind fun req => ?_
  refine .bind (.lift (fetch_avoids fun h => h)) fun found => .bind (.expect _) fun order => ?_
  refine .bind (.fail_if _ _) fun _ => ?_
  split
  · refine .bind (.lift (derive_order_status_avoids _ _)) fun status => ?_
    exact .bind (.expect _) fun _ => .pure _
  · exact .pure _

/-! ## Resources -/

theorem write_existing_account_finishes (r : Request) (account : Account) :
    Finishes s client (s.writeExistingAccount r account) := by
  refine .after (.fail_if _ _) fun _ => ?_
  exact .after (set_header_avoids _ _) fun _ => write_json_finishes r _ _

theorem store_new_account_finishes (r : Request) (thumbprint : String) (account : Account) :
    Finishes s client (s.storeNewAccount r thumbprint account) := by
  unfold Server.storeNewAccount
  refine .after (.lift (call_store_avoids fun h => h)) fun reply => ?_
  split
  · exact .after (set_header_avoids _ _) fun _ => write_json_finishes r _ _
  · refine .after (.lift (fetch_avoids fun h => h)) fun existing => ?_
    cases existing with
    | ok existing => exact write_existing_account_finishes r existing
    | error err =>
        dsimp only
        split
        · exact .throw _
        · exact .throw _
  · exact .throw _

theorem serve_new_account_serves (r : Request) : Serves s client (s.serveNewAccount r) := by
  unfold Server.serveNewAccount
  extract_lets rest
  have hrest (u : PUnit) : Serves s client (rest u) := by
    refine (read_signed_request_opens r _ _).serves fun req => ?_
    refine .after (.expect _) fun payload => .after (.expect _) fun thumbprint => ?_
    refine .after (.lift (fetch_avoids fun h => h)) fun existing => ?_
    cases existing with
    | ok existing => exact write_existing_account_finishes r existing
    | error err =>
        refine .after (.fail_if _ _) fun _ => .after (.fail_if _ _) fun _ => ?_
        refine .after (build_account_avoids s _ _ _ _) fun account => ?_
        exact store_new_account_finishes r _ _
  split
  · -- The terms of service are linked before the request is read.
    exact fun st hst => hrest () _ hst
  · exact hrest ()

theorem serve_account_serves (r : Request) (id : String) :
    Serves s client (s.serveAccount r id) := by
  refine (read_owned_account_opens r id _).serves fun req => ?_
  split
  · exact write_json_finishes r _ _
  · refine .after (.expect _) fun payload => .after (.fail_if _ _) fun _ => ?_
    refine .after (.check _) fun _ => .after (.lift (update_account_avoids _)) fun updated => ?_
    exact .after (.expect _) fun account => write_json_finishes r _ _

theorem serve_account_orders_serves (r : Request) (id : String) :
    Serves s client (s.serveAccountOrders r id) := by
  refine (read_owned_account_opens r id _).serves fun req => ?_
  refine .after (.check _) fun _ => .after (.fail_if _ _) fun _ => ?_
  refine .after (.lift (fetch_avoids fun h => h)) fun found => .after (.expect _) fun ids => ?_
  refine .after (.lift (ask_avoids fun h => h)) fun now => ?_
  refine .after (order_urls_avoids s _ _) fun urls => ?_
  dsimp only
  split
  · exact .after (add_header_avoids _ _) fun _ => write_json_finishes r _ _
  · exact write_json_finishes r _ _

theorem serve_key_change_serves (r : Request) : Serves s client (s.serveKeyChange r) := by
  refine (read_signed_request_opens r _ _).serves fun req => ?_
  refine .after (.expect _) fun account => ?_
  refine .after (.lift (update_account_avoids _)) fun updated => ?_
  cases updated with
  | ok account => exact write_json_finishes r _ _
  | error p =>
      dsimp only
      split
      · refine .after (.lift (fetch_avoids fun h => h)) fun other => ?_
        cases other with
        | ok other => exact .after (set_header_avoids _ _) fun _ => .throw _
        | error err => exact .throw _
      · exact .throw _

theorem serve_order_serves (r : Request) (id : String) : Serves s client (s.serveOrder r id) := by
  refine (read_owned_order_opens r id _).serves fun found => ?_
  refine .after (.check _) fun _ => .after (.lift (ask_avoids fun h => h)) fun now => ?_
  exact write_order_finishes r _ _ _

theorem serve_authorization_serves (r : Request) (id : String) :
    Serves s client (s.serveAuthorization r id) := by
  refine (read_signed_request_opens r _ _).serves fun req => ?_
  refine .after (.lift (fetch_avoids fun h => h)) fun found => .after (.expect _) fun authz => ?_
  refine .after (.fail_if _ _) fun _ => .after (.lift (ask_avoids fun h => h)) fun now => ?_
  extract_lets rest
  have hrest (authz : Authorization) : Finishes s client (rest authz) :=
    .after (load_challenges_avoids _) fun _ => write_json_finishes r _ _
  split
  · refine .after (.expect _) fun payload => .after (.fail_if _ _) fun _ => ?_
    exact .after (deactivate_authorization_avoids _ _) hrest
  · exact .after (.pure _) hrest

theorem serve_challenge_serves (r : Request) (id : String) :
    Serves s client (s.serveChallenge r id) := by
  refine (read_signed_request_opens r _ _).serves fun req => ?_
  refine .after (.lift (fetch_avoids fun h => h)) fun found => .after (.expect _) fun ch => ?_
  refine .after (.fail_if _ _) fun _ => .after (add_header_avoids _ _) fun _ => ?_
  dsimp only
  split
  · refine .after (.expect _) fun payload => ?_
    exact .after (accept_challenge_avoids s _ _ _ _) fun ch => write_challenge_finishes r ch
  · exact .after (.pure _) fun ch => write_challenge_finishes r ch

theorem serve_finalize_serves (r : Request) (id : String) :
    Serves s client (s.serveFinalize r id) := by
  refine (read_owned_order_opens r id _).serves fun found => ?_
  refine .after (refusing_avoids s _ (.expect _)) fun der => ?_
  refine .after (.lift (ask_avoids fun h => h)) fun now => ?_
  split
  · refine .after (finalize_ready_avoids s _ _ _ _ _) fun order => ?_
    exact write_order_finishes r _ _ _
  · refine .after (refusing_avoids s _ (.fail_if _ _)) fun _ => ?_
    exact write_order_finishes r _ _ _
  · refine .after (refusing_avoids s _ (.fail_if _ _)) fun _ => ?_
    exact write_order_finishes r _ _ _
  · exact .of_avoids (refusing_avoids s _ (.throw _))

theorem serve_certificate_serves (r : Request) (id : String) :
    Serves s client (s.serveCertificate r id) := by
  refine (read_signed_request_opens r _ _).serves fun req => ?_
  refine .after (.lift (fetch_avoids fun h => h)) fun found => .after (.expect _) fun cert => ?_
  refine .after (.fail_if _ _) fun _ => .after (.check _) fun _ => ?_
  exact write_finishes r _ _ _

theorem serve_revoke_cert_serves (r : Request) : Serves s client (s.serveRevokeCert r) := by
  refine (read_signed_request_opens r _ _).serves fun req => ?_
  refine .after (refusing_avoids s _ (.expect _)) fun payload => ?_
  refine .after (refusing_avoids s _ (.expect _)) fun der => ?_
  refine .after (refusing_avoids s _ (open_revocation_avoids s _ _ _)) fun cert => ?_
  refine .after (.lift (ask_avoids fun h => h)) fun err => ?_
  cases err with
  | some err =>
      dsimp only
      split
      · refine .after (.lift (abandon_revocation_avoids _)) fun _ => ?_
        exact .of_avoids (refusing_avoids s _ (.throw _))
      · exact .throw _
  | none =>
      refine .after (.lift (record_revocation_avoids _ _ _)) fun refusal => ?_
      exact .after (.check _) fun _ => write_finishes r _ _ _

/-! ## New orders -/

theorem order_identifiers_orderable {payload : NewOrderJSON} {ids : List Identifier}
    (h : s.orderIdentifiers payload = .ok ids) : ∀ id ∈ ids, Orderable s id := by
  obtain ⟨hsupported, hresults, -⟩ := Safety.order_identifiers_ok h
  intro id hid
  obtain ⟨ordered, hordered, hnormal⟩ := hresults.mem_iff.1 hid
  refine ⟨ordered, fun huri => ?_, hnormal⟩
  have hnone := hsupported ordered hordered
  simp [Server.unsupportedIdentifier, huri] at hnone

theorem review_order_returns (account : Account) (order : Order) :
    (Server.reviewOrder account order).Returns fun reviewed =>
      reviewed.identifiers = order.identifiers := by
  refine returns_seq fun review => ?_
  exact returns_seq fun _ => returns_seq fun _ => returns_seq fun _ => returns_pure rfl

theorem build_order_returns (account : Account) (payload : NewOrderJSON) (now : Time)
    (client : String) : (s.buildOrder account payload now client).Returns fun order =>
      ∀ id ∈ order.identifiers, Orderable s id := by
  refine returns_bind (returns_expect fun identifiers hidentifiers => ?_)
  have horderable := order_identifiers_orderable hidentifiers
  refine returns_seq fun validity => returns_seq fun profile => returns_seq fun replaces => ?_
  refine returns_seq fun id => ?_
  cases id with
  | none => exact returns_throw
  | some id =>
      refine returns_seq fun refusal => returns_seq fun _ => ?_
      refine Returns.weaken (review_order_returns _ _) fun reviewed hreviewed => ?_
      rw [hreviewed]
      exact horderable

theorem build_authorization_returns {order : Order} (preApproved : Finset Identifier)
    {id : Identifier} (hid : Orderable s id) :
    (s.buildAuthorization order preApproved id).Returns fun built => Scoped s built.1 := by
  refine returns_seq fun authzID => ?_
  cases authzID with
  | none => exact returns_throw
  | some authzID =>
      dsimp only
      split
      · exact returns_pure ⟨id, hid, rfl, rfl⟩
      · exact returns_seq fun challenges => returns_pure ⟨id, hid, rfl, rfl⟩

theorem build_authorization_list_returns {order : Order} (preApproved : Finset Identifier)
    {ids : List Identifier} (hids : ∀ id ∈ ids, Orderable s id) :
    (s.buildAuthorizationList order preApproved ids).Returns fun built =>
      ∀ a ∈ built.1, Scoped s a := by
  induction ids with
  | nil => exact returns_pure fun _ ha => absurd ha List.not_mem_nil
  | cons id rest ih =>
      rw [List.forall_mem_cons] at hids
      refine returns_bind (Returns.weaken (build_authorization_returns preApproved hids.1) ?_)
      intro built hbuilt
      refine returns_bind (Returns.weaken (ih hids.2) fun others hothers => ?_)
      exact returns_pure (List.forall_mem_cons.2 ⟨hbuilt, hothers⟩)

theorem build_authorizations_returns {order : Order} (preApproved : Finset Identifier)
    (horder : ∀ id ∈ order.identifiers, Orderable s id) :
    (s.buildAuthorizations order preApproved).Returns fun new => ∀ a ∈ new.authzs, Scoped s a :=
  returns_bind (Returns.weaken (build_authorization_list_returns preApproved horder)
    fun _ hbuilt => returns_pure hbuilt)

/-- Creating an order with authorizations in scope. -/
theorem create_order_finishes {new : NewOrder} {f : Reply (.createOrder new) → Handler Unit}
    (hnew : ∀ a ∈ new.authzs, Scoped s a) (hf : ∀ reply, Finishes s client (f reply)) :
    Finishes s client (liftM (callStore (.createOrder new)) >>= f) := fun st _ hlog =>
  follows_bind (follows_lift (Program.follows_perform hnew fun reply =>
    hf reply st _ ⟨hlog.1.append rfl, hlog.2.append⟩))

theorem serve_new_order_serves (r : Request) : Serves s client (s.serveNewOrder r) := by
  refine (read_signed_request_opens r _ _).serves fun req => ?_
  refine .after (.expect _) fun payload => .after (.lift (ask_avoids fun h => h)) fun now => ?_
  refine .returning (build_order_avoids s _ _ _ _) (build_order_returns _ _ _ _)
    fun order horder => ?_
  refine .after (pre_approve_avoids s _ _) fun preApproved => ?_
  refine .returning (build_authorizations_avoids s _ _)
    (build_authorizations_returns preApproved horder) fun new hnew => ?_
  refine create_order_finishes hnew fun reply => ?_
  split
  · exact write_order_finishes r _ _ _
  · split
    · exact .throw _
    · exact .throw _

/-! ## Routes -/

theorem unissued_nil : Unissued [] := fun _ he => absurd he List.not_mem_nil

/-- A part of a request that makes only free calls. -/
theorem unissued_after {program : Prog α} {next : α → Prog β} (h : program.Avoids Notable)
    (hlog : Unissued log) (hnext : ∀ value log', Unissued log' →
      (next value).Follows (Conduct s client) (fun _ _ => True) log') :
    (program >>= next).Follows (Conduct s client) (fun _ _ => True) log :=
  Program.follows_bind ((h.follows conduct_of_not_notable unissued_kept hlog).weaken hnext)

/-- A request that is refused unread. -/
theorem refuse_follows (r : Request) (header : Header) (p : Problem) (h : Unissued log) :
    (s.writeProblem r { header := header } p).Follows (Conduct s r.client) (fun _ _ => True) log :=
  write_problem_follows r p ⟨h, nofun⟩

theorem serve_post_follows (r : Request) {handler : Handler Unit}
    (h : Serves s r.client handler) :
    (s.servePOST r handler).Follows (Conduct s r.client) (fun _ _ => True) [] := by
  unfold Server.servePOST
  split
  · refine Program.follows_bind (Program.Follows.weaken (h {} rfl) fun outcome log' hlog => ?_)
    rcases outcome with ⟨p | ⟨⟩, st⟩
    · exact write_problem_follows r p hlog
    · trivial
  · exact refuse_follows r _ _ unissued_nil

theorem serve_read_follows (r : Request) {program : Prog Unit}
    (h : program.Follows (Conduct s r.client) (fun _ _ => True) []) :
    (s.serveRead r program).Follows (Conduct s r.client) (fun _ _ => True) [] := by
  unfold Server.serveRead
  split
  · exact h
  · exact refuse_follows r _ _ unissued_nil

theorem serve_new_nonce_follows (r : Request) :
    (s.serveNewNonce r).Follows (Conduct s r.client) (fun _ _ => True) [] := by
  refine Program.follows_bind ((check_limit_follows unissued_nil).weaken
    fun refusal log' hlog => ?_)
  cases refusal with
  | some p => exact avoids_follows (write_problem_without_nonce_avoids r _ _) log'
  | none =>
      refine Program.follows_bind (Program.follows_perform ⟨hlog.1, hlog.2 rfl⟩ fun answer => ?_)
      cases answer with
      | error err => exact avoids_follows (write_problem_without_nonce_avoids r _ _) _
      | ok nonce => exact avoids_follows (respond_avoids _ _) _

theorem serve_renewal_info_follows (r : Request) (id : String) :
    (s.serveRenewalInfo r id).Follows (Conduct s r.client) (fun _ _ => True) [] := by
  unfold Server.serveRenewalInfo
  split
  · exact refuse_follows r _ _ unissued_nil
  · refine unissued_after (check_limit_avoids s _) unissued_nil fun refusal log hlog => ?_
    cases refusal with
    | some p => exact avoids_follows (write_problem_without_nonce_avoids r _ _) log
    | none =>
        refine unissued_after (fetch_avoids fun h => h) hlog fun found log hlog => ?_
        cases found with
        | error err => exact refuse_follows r _ _ hlog
        | ok cert =>
            refine unissued_after (ask_avoids fun h => h) hlog fun advice log hlog => ?_
            cases advice with
            | error err => exact refuse_follows r _ _ hlog
            | ok info =>
                dsimp only
                split
                · exact refuse_follows r _ _ hlog
                · exact avoids_follows (respond_avoids _ _) log

theorem serve_profile_follows (r : Request) (name : String) :
    (s.serveProfile r name).Follows (Conduct s r.client) (fun _ _ => True) [] := by
  unfold Server.serveProfile
  split
  · exact refuse_follows r _ _ unissued_nil
  · exact avoids_follows (respond_avoids _ _) []

/-- Every request is handled within the rule. -/
theorem serve_http_follows (s : Server) (r : Request) :
    (s.serveHTTP r).Follows (Conduct s r.client) (fun _ _ => True) [] := by
  unfold Server.serveHTTP
  cases s.route r with
  | directory => exact serve_read_follows r (avoids_follows (respond_avoids _ _) [])
  | newNonce => exact serve_read_follows r (serve_new_nonce_follows r)
  | renewalInfo id => exact serve_read_follows r (serve_renewal_info_follows r id)
  | profile name => exact serve_read_follows r (serve_profile_follows r name)
  | newAccount => exact serve_post_follows r (serve_new_account_serves r)
  | newOrder => exact serve_post_follows r (serve_new_order_serves r)
  | revokeCert => exact serve_post_follows r (serve_revoke_cert_serves r)
  | keyChange => exact serve_post_follows r (serve_key_change_serves r)
  | account id => exact serve_post_follows r (serve_account_serves r id)
  | accountOrders id => exact serve_post_follows r (serve_account_orders_serves r id)
  | order id => exact serve_post_follows r (serve_order_serves r id)
  | finalize id => exact serve_post_follows r (serve_finalize_serves r id)
  | authorization id => exact serve_post_follows r (serve_authorization_serves r id)
  | challenge id => exact serve_post_follows r (serve_challenge_serves r id)
  | certificate id => exact serve_post_follows r (serve_certificate_serves r id)
  | unknown => exact refuse_follows r _ _ unissued_nil

end AcmeServer
