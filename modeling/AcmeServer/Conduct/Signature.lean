import AcmeServer.Conduct.Runs

/-!
# Requests act only when they are signed

A program `Acts` when it calls a store method that changes the store, asks for a revocation or shows
a client an account, an order, an authorization, a challenge or a certificate. `Authority` is the
rule for the program of a request: it acts only behind a message that the request carries for its
own URL, whose nonce was spent and whose signature was verified, with the key of an account that was
found valid or with a key that the message embeds.

Once a request is `Authenticated` it stays so, so a handler keeps to the rule from where it has read
a signed request. What comes before, and the resources that need no signature, never act.
-/

namespace AcmeServer

open Interaction Memstore Attempt

/-! ## The rule -/

/-- Whether the body of a response shows something that belongs to an account. -/
def Body.isPrivate : Body → Bool
  | .account _ | .orders _ | .order _ | .authorization _ | .challenge _ | .certificate _ => true
  | _ => false

/-- Whether a call changes the store, asks for a revocation or shows what belongs to an account. -/
def Call.acts : Call → Bool
  | .store c => c.mutates
  | .host (.revoke _) => true
  | .host (.respond _ response) => response.body.isPrivate
  | .host _ => false

/-- The calls for which a request needs a signature. -/
def Acts (call : Call) : Prop := call.acts = true

instance : DecidablePred Acts := fun call => inferInstanceAs (Decidable (call.acts = true))

/-- The message that a request carries. -/
def Server.messageOf (s : Server) (r : Request) : Option Message :=
  (s.readBody r).toOption.bind fun body => (s.parseJWS body).toOption

/-- The request carries the message, which is for the URL of the request and whose nonce was
spent. -/
structure Presented (s : Server) (r : Request) (rel : String) (msg : Message) (log : CallLog) :
    Prop where
  carried : s.messageOf r = some msg
  url_eq : msg.url = s.expectedURL r rel
  path_eq : r.escapedPath = s.basePath ++ rel
  spent : (⟨.host (.consumeNonce msg.nonce), .ok true⟩ : Exchange Call Call.Answer) ∈ log

/-- The message names an account of the server, which was found valid, and its key verifies the
signature. -/
def AccountSigned (s : Server) (msg : Message) (log : CallLog) : Prop :=
  msg.key = none ∧ ∃ id reply account, s.accountIDFromURL msg.keyID = some id ∧
    (⟨.store (.account id), reply⟩ : Exchange Call Call.Answer) ∈ log ∧
    reply.result = .ok account ∧ account.status = .valid ∧ s.verify msg account.key = none

/-- The message is signed with the key that it embeds, as only two resources allow. -/
def KeySigned (s : Server) (rel : String) (msg : Message) : Prop :=
  (rel = "new-account" ∨ rel = "revoke-cert") ∧ ∃ key, msg.key = some key ∧ s.verify msg key = none

/-- The request was presented with a signed message. -/
def Authenticated (s : Server) (r : Request) (log : CallLog) : Prop :=
  ∃ rel msg, Presented s r rel msg log ∧ (AccountSigned s msg log ∨ KeySigned s rel msg)

/-- When the program of a request may make a call. -/
def Authority (s : Server) (r : Request) (log : CallLog) (call : Call) : Prop :=
  Acts call → Authenticated s r log

section Requests

variable {s : Server} {r : Request} {α : Type}

theorem Authenticated.append {log : CallLog} (h : Authenticated s r log)
    (e : Exchange Call Call.Answer) : Authenticated s r (log ++ [e]) := by
  obtain ⟨rel, msg, hpresented, hsigned⟩ := h
  refine ⟨rel, msg, { hpresented with spent := List.mem_append_left _ hpresented.spent }, ?_⟩
  refine hsigned.imp_left fun ⟨hkey, id, reply, account, hid, hread, hrest⟩ => ?_
  exact ⟨hkey, id, reply, account, hid, List.mem_append_left _ hread, hrest⟩

/-- Whatever an authenticated request does is allowed. -/
theorem Authenticated.follows {log : CallLog} (h : Authenticated s r log) (program : Prog α)
    {post : α → CallLog → Prop} (hpost : ∀ value log', post value log') :
    program.Follows (Authority s r) post log := by
  induction program generalizing log with
  | done value => exact hpost value log
  | call call next ih => exact ⟨fun _ => h, fun answer => ih answer (h.append _)⟩

theorem consults_follow {program : Prog α} (h : program.Avoids Acts) (log : CallLog) :
    program.Follows (Authority s r) (fun _ _ => True) log :=
  h.follows (fun _ _ hfree hacts => absurd hacts hfree) (fun _ _ _ => id) trivial

/-! ## Signed requests -/

/-- An account that is looked up for a message authenticates the request if its key verifies the
message. -/
theorem lookup_account_authenticates {rel : String} {msg : Message} {log : CallLog}
    (h : Presented s r rel msg log) (hkey : msg.key = none) (st : RequestState) :
    Follows (Authority s r) (s.lookupAccount msg.keyID) st (fun account _ log' =>
      s.verify msg account.key = none → Authenticated s r log') (fun _ _ _ => True) log := by
  unfold Server.lookupAccount
  refine follows_bind (follows_expect (fun _ _ => trivial) fun id hid => ?_)
  refine follows_bind (follows_lift ⟨fun hacts => absurd hacts Bool.false_ne_true, fun reply => ?_⟩)
  refine follows_bind (follows_expect (fun _ _ => trivial) fun account haccount => ?_)
  refine follows_bind (follows_fail_if (fun _ => trivial) fun hvalid hverify => ?_)
  have hnamed : s.accountIDFromURL msg.keyID = some id := by
    cases hfound : s.accountIDFromURL msg.keyID with
    | none =>
        rw [hfound] at hid
        cases hid
    | some found =>
        rw [hfound] at hid
        exact congrArg some (Except.ok.inj hid)
  refine ⟨rel, msg, { h with spent := List.mem_append_left _ h.spent }, .inl ⟨hkey, id, reply,
    account, hnamed, ?_, Fallible.map_error_eq_ok.1 haccount, not_not.1 hvalid, hverify⟩⟩
  exact List.mem_append_right _ (List.mem_singleton_self _)

theorem read_signer_authenticates {rel : String} {msg : Message} {log : CallLog}
    (h : Presented s r rel msg log) {mode : KeyMode}
    (hmode : mode = .account ∨ rel = "new-account" ∨ rel = "revoke-cert") (st : RequestState) :
    Follows (Authority s r) (s.readSigner msg mode) st (fun signer _ log' =>
      s.verify msg (mode.key signer) = none → Authenticated s r log') (fun _ _ _ => True) log := by
  have hembedded (hne : mode ≠ .account) {key : PublicKey} (hkey : msg.key = some key)
      (hverify : s.verify msg key = none) : Authenticated s r log :=
    ⟨rel, msg, h, .inr ⟨hmode.resolve_left hne, key, hkey, hverify⟩⟩
  cases mode with
  | account =>
      unfold Server.readSigner
      split
      · trivial
      · next hkey => exact lookup_account_authenticates h hkey st
  | embedded =>
      unfold Server.readSigner
      split
      · next key hkey => exact hembedded (by decide) hkey
      · trivial
  | either =>
      unfold Server.readSigner
      split
      · next key hkey => exact hembedded (by decide) hkey
      · next hkey =>
          refine follows_bind ((lookup_account_authenticates h hkey st).weaken ?_ fun _ _ _ => id)
          exact fun account st' log' haccount => haccount

/-- Behind a verified request the request is authenticated. -/
theorem read_signed_request_authenticates {rel : String} {mode : KeyMode}
    (hmode : mode = .account ∨ rel = "new-account" ∨ rel = "revoke-cert") (st : RequestState)
    (log : CallLog) :
    Follows (Authority s r) (s.readSignedRequest r rel mode) st
      (fun _ _ log' => Authenticated s r log') (fun _ _ _ => True) log := by
  unfold Server.readSignedRequest
  refine follows_bind (follows_fail_if (fun _ => trivial) fun _ => ?_)
  refine follows_bind (follows_expect (fun _ _ => trivial) fun body hbody => ?_)
  refine follows_bind (follows_expect (fun _ _ => trivial) fun msg hmsg => ?_)
  refine follows_bind (follows_lift ⟨fun hacts => absurd hacts Bool.false_ne_true, ?_⟩)
  intro answer
  refine follows_bind (follows_expect (fun _ _ => trivial) fun valid hanswer => ?_)
  refine follows_bind (follows_fail_if (fun _ => trivial) fun hvalid => ?_)
  refine follows_bind (follows_bind (follows_fail_if (fun _ => trivial) fun hurl => ?_))
  rw [not_or, not_not, not_not] at hurl
  obtain rfl : answer = .ok true := by
    rw [Fallible.map_error_eq_ok.1 hanswer, Bool.eq_true_of_not_eq_false hvalid]
  have hcarried : s.messageOf r = some msg := by
    unfold Server.messageOf
    rw [hbody]
    exact congrArg Except.toOption (Fallible.map_error_eq_ok.1 hmsg)
  have hpresented : Presented s r rel msg (log ++ [⟨.host (.consumeNonce msg.nonce), .ok true⟩]) :=
    ⟨hcarried, hurl.1, hurl.2, List.mem_append_right _ (List.mem_singleton_self _)⟩
  refine follows_bind ((read_signer_authenticates hpresented hmode _).weaken ?_ fun _ _ _ => id)
  intro signer st' log' hsigned
  refine follows_bind (follows_check (fun _ _ => trivial) fun hverify => ?_)
  exact hsigned (Option.map_eq_none_iff.1 hverify)

/-- A handler that begins with a signed request keeps to the rule. -/
theorem signed_authorized {rel : String} {mode : KeyMode}
    (hmode : mode = .account ∨ rel = "new-account" ∨ rel = "revoke-cert")
    (f : SignedRequest mode → Handler α) (st : RequestState) (log : CallLog) :
    Follows (Authority s r) (s.readSignedRequest r rel mode >>= f) st (fun _ _ _ => True)
      (fun _ _ _ => True) log := by
  refine follows_bind ((read_signed_request_authenticates hmode st log).weaken ?_ fun _ _ _ => id)
  exact fun req st' log' h => h.follows ((f req).start st') fun outcome _ => by split <;> trivial

/-! ## Resources without signatures -/

theorem ask_consults {c : HostCall} (h : ¬Acts (.host c)) : (ask c).Avoids Acts :=
  ⟨h, fun _ => trivial⟩

theorem check_limit_consults (req : LimitRequest) : (s.checkLimit req).Avoids Acts := by
  unfold Server.checkLimit
  split
  · exact .bind (ask_consults Bool.false_ne_true) fun _ => trivial
  · trivial

theorem write_problem_without_nonce_consults (header : Header) (p : Problem) :
    (s.writeProblemWithoutNonce r header p).Avoids Acts :=
  ask_consults Bool.false_ne_true

theorem write_problem_consults (st : RequestState) (p : Problem) :
    (s.writeProblem r st p).Avoids Acts := by
  unfold Server.writeProblem
  extract_lets respond
  have hrespond (refusal : Option Problem) : (respond refusal).Avoids Acts := by
    cases refusal with
    | some refusal => exact write_problem_without_nonce_consults _ _
    | none =>
        refine .bind (.bind (ask_consults Bool.false_ne_true) fun answer => ?_) fun _ =>
          write_problem_without_nonce_consults _ _
        cases answer <;> trivial
  split
  · exact hrespond none
  · exact .bind (check_limit_consults _) hrespond

theorem serve_new_nonce_consults : (s.serveNewNonce r).Avoids Acts := by
  refine .bind (check_limit_consults _) fun refusal => ?_
  cases refusal with
  | some p => exact write_problem_without_nonce_consults _ _
  | none =>
      refine .bind (ask_consults Bool.false_ne_true) fun answer => ?_
      cases answer with
      | error err => exact write_problem_without_nonce_consults _ _
      | ok nonce => exact ask_consults Bool.false_ne_true

theorem serve_profile_consults (name : String) : (s.serveProfile r name).Avoids Acts := by
  unfold Server.serveProfile
  split
  · exact write_problem_consults _ _
  · refine ask_consults fun hacts => ?_
    by_cases hget : r.method = .get <;> simp [Acts, Call.acts, hget, Body.isPrivate] at hacts

theorem serve_renewal_info_consults (id : String) : (s.serveRenewalInfo r id).Avoids Acts := by
  unfold Server.serveRenewalInfo
  split
  · exact write_problem_consults _ _
  · refine .bind (check_limit_consults _) fun refusal => ?_
    cases refusal with
    | some p => exact write_problem_without_nonce_consults _ _
    | none =>
        refine .bind ⟨Bool.false_ne_true, fun _ => trivial⟩ fun found => ?_
        cases found with
        | error err => exact write_problem_consults _ _
        | ok cert =>
            refine .bind (ask_consults Bool.false_ne_true) fun advice => ?_
            cases advice with
            | error err => exact write_problem_consults _ _
            | ok info =>
                dsimp only
                split
                · exact write_problem_consults _ _
                · exact ask_consults Bool.false_ne_true

/-! ## Routing -/

theorem serve_read_authorized {program : Prog Unit} (h : program.Avoids Acts) :
    (s.serveRead r program).Follows (Authority s r) (fun _ _ => True) [] := by
  unfold Server.serveRead
  split
  · exact consults_follow h []
  · exact consults_follow (write_problem_consults _ _) []

theorem serve_post_authorized {handler : Handler Unit} (h : ∀ st,
    Follows (Authority s r) handler st (fun _ _ _ => True) (fun _ _ _ => True) []) :
    (s.servePOST r handler).Follows (Authority s r) (fun _ _ => True) [] := by
  unfold Server.servePOST
  split
  · refine Program.follows_bind (Program.Follows.weaken (h {}) fun outcome log _ => ?_)
    rcases outcome with ⟨p | ⟨⟩, st⟩
    · exact consults_follow (write_problem_consults st p) log
    · trivial
  · exact consults_follow (write_problem_consults _ _) []

theorem serve_new_account_authorized (st : RequestState) :
    Follows (Authority s r) (s.serveNewAccount r) st (fun _ _ _ => True) (fun _ _ _ => True)
      [] := by
  unfold Server.serveNewAccount
  split
  · exact follows_bind (signed_authorized (.inr (.inl rfl)) _ _ [])
  · exact signed_authorized (.inr (.inl rfl)) _ _ []

/-- Every request keeps to the rule. -/
theorem serve_http_authorized (r : Request) :
    (s.serveHTTP r).Follows (Authority s r) (fun _ _ => True) [] := by
  have haccount {rel : String} (f : SignedRequest .account → Handler Unit) (st : RequestState) :
      Follows (Authority s r) (s.readSignedRequest r rel .account >>= f) st (fun _ _ _ => True)
        (fun _ _ _ => True) [] := signed_authorized (.inl rfl) f st []
  have howned {rel : String} {β : Type} (g : SignedRequest .account → Handler β)
      (f : β → Handler Unit) (st : RequestState) :
      Follows (Authority s r) (s.readSignedRequest r rel .account >>= g >>= f) st
        (fun _ _ _ => True) (fun _ _ _ => True) [] := by
    rw [bind_assoc]
    exact haccount _ st
  unfold Server.serveHTTP
  cases s.route r with
  | directory => exact serve_read_authorized (ask_consults Bool.false_ne_true)
  | newNonce => exact serve_read_authorized serve_new_nonce_consults
  | renewalInfo id => exact serve_read_authorized (serve_renewal_info_consults id)
  | profile name => exact serve_read_authorized (serve_profile_consults name)
  | newAccount => exact serve_post_authorized serve_new_account_authorized
  | newOrder => exact serve_post_authorized (haccount _)
  | revokeCert =>
      exact serve_post_authorized fun st => signed_authorized (.inr (.inr rfl)) _ st []
  | keyChange => exact serve_post_authorized (haccount _)
  | account id => exact serve_post_authorized (howned _ _)
  | accountOrders id => exact serve_post_authorized (howned _ _)
  | order id => exact serve_post_authorized (howned _ _)
  | finalize id => exact serve_post_authorized (howned _ _)
  | authorization id => exact serve_post_authorized (haccount _)
  | challenge id => exact serve_post_authorized (haccount _)
  | certificate id => exact serve_post_authorized (haccount _)
  | unknown => exact consults_follow (write_problem_consults _ _) []

end Requests

end AcmeServer
