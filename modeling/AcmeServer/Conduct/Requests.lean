import AcmeServer.Conduct.Rule

/-!
# The calls of requests

The parts of the request handlers that make only free calls, one lemma per function. What is left
after them are the writers, which attach a nonce, and the creation of an order.
-/

namespace AcmeServer

open Interaction Memstore Attempt

variable (s : Server)

/-! ## Host checks and problems -/

theorem check_limit_avoids (req : LimitRequest) : (s.checkLimit req).Avoids Notable := by
  unfold Server.checkLimit
  split
  · exact .bind (ask_avoids id) fun _ => trivial
  · trivial

theorem record_refusal_avoids (refusal : Refusal) (p : Problem) :
    (s.recordRefusal refusal p).Avoids Notable := by
  unfold Server.recordRefusal
  split
  · trivial
  · exact .bind (ask_avoids id) fun _ => trivial

theorem refusing_avoids {α : Type} (refusal : Refusal) {m : Handler α} (h : m.Avoids Notable) :
    (s.refusing refusal m).Avoids Notable :=
  .on_error h (record_refusal_avoids s refusal)

theorem set_header_avoids (name value : String) : (setHeader name value).Avoids Notable :=
  .modify _

theorem add_header_avoids (name value : String) : (addHeader name value).Avoids Notable :=
  .modify _

/-! ## Signers and accounts -/

theorem lookup_account_avoids (kid : String) : (s.lookupAccount kid).Avoids Notable := by
  unfold Server.lookupAccount
  refine .bind (.expect _) fun id => ?_
  refine .bind (.lift (fetch_avoids fun h => h)) fun result => ?_
  refine .bind (.expect _) fun account => ?_
  exact .bind (.fail_if _ _) fun _ => .pure account

theorem read_signer_avoids (msg : Message) (mode : KeyMode) :
    (s.readSigner msg mode).Avoids Notable := by
  unfold Server.readSigner
  cases mode with
  | account =>
      dsimp only
      split
      · exact .throw _
      · exact lookup_account_avoids s _
  | embedded =>
      dsimp only
      split
      · exact .pure _
      · exact .throw _
  | either =>
      dsimp only
      split
      · exact .pure _
      · exact .bind (lookup_account_avoids s _) fun _ => .pure _

theorem verify_external_account_binding_avoids (thumbprint : String) (raw : Bytes) :
    (s.verifyExternalAccountBinding thumbprint raw).Avoids Notable := by
  unfold Server.verifyExternalAccountBinding
  refine .bind (.fail_if _ _) fun _ => .bind (.expect _) fun msg => ?_
  refine .bind (.fail_if _ _) fun _ => .bind (.fail_if _ _) fun _ => ?_
  refine .bind (.lift (ask_avoids fun h => h)) fun found => .bind (.expect _) fun key => ?_
  refine .bind (.check _) fun _ => .bind (.expect _) fun boundKey => ?_
  exact .bind (.fail_if _ _) fun _ => .pure _

theorem build_account_avoids (client : String) (key : PublicKey) (thumbprint : String)
    (payload : NewAccountJSON) : (s.buildAccount client key thumbprint payload).Avoids Notable := by
  unfold Server.buildAccount
  refine .bind (.check _) fun _ => .bind (.fail_if _ _) fun _ => .bind (.fail_if _ _) fun _ => ?_
  extract_lets rest
  have hrest (externalID : String) : (rest externalID).Avoids Notable := by
    refine .bind (.lift (ask_avoids fun h => h)) fun id => ?_
    cases id with
    | none => exact .throw _
    | some id =>
        refine .bind (.lift (ask_avoids fun h => h)) fun now => ?_
        refine .bind (.lift (check_limit_avoids s _)) fun refusal => .bind (.check _) fun _ => ?_
        refine .bind (.lift (ask_avoids fun h => h)) fun review => ?_
        exact .bind (.check _) fun _ => .pure _
  split
  · exact .bind (.pure _) hrest
  · exact .bind (verify_external_account_binding_avoids s _ _) hrest

theorem update_account_avoids (account : Account) :
    (Server.updateAccount account).Avoids Notable := by
  unfold Server.updateAccount
  refine .bind (call_store_avoids fun h => h) fun reply => ?_
  split
  · trivial
  · trivial

theorem order_urls_avoids (now : Time) (ids : List String) :
    (s.orderURLs now ids).Avoids Notable := by
  induction ids with
  | nil => exact .pure []
  | cons id rest ih =>
      refine .bind (.lift (fetch_avoids fun h => h)) fun result => .bind (.expect _) fun order => ?_
      refine .bind ih fun urls => ?_
      split
      · exact .pure _
      · exact .pure _

/-! ## Orders -/

theorem select_profile_avoids (account : Account) (requested : String) :
    (s.selectProfile account requested).Avoids Notable := by
  unfold Server.selectProfile
  split
  · exact .bind (.fail_if _ _) fun _ => .pure _
  · split
    · refine .bind (.lift (ask_avoids fun h => h)) fun answer => .bind (.expect _) fun chosen => ?_
      exact .bind (.fail_if _ _) fun _ => .pure _
    · exact .pure _

theorem check_replaces_avoids (account : Account) (identifiers : List Identifier)
    (replaces : String) : (s.checkReplaces account identifiers replaces).Avoids Notable := by
  unfold Server.checkReplaces
  split
  · exact .pure _
  · refine .bind (.fail_if _ _) fun _ => .bind (.lift (fetch_avoids fun h => h)) fun found => ?_
    refine .bind (.expect _) fun cert => .bind (.fail_if _ _) fun _ => ?_
    exact .bind (.fail_if _ _) fun _ => .pure _

theorem review_order_avoids (account : Account) (order : Order) :
    (Server.reviewOrder account order).Avoids Notable := by
  unfold Server.reviewOrder
  refine .bind (.lift (ask_avoids fun h => h)) fun review => .bind (.check _) fun _ => ?_
  exact .bind (.fail_if _ _) fun _ => .bind (.fail_if _ _) fun _ => .pure _

theorem build_order_avoids (account : Account) (payload : NewOrderJSON) (now : Time)
    (client : String) : (s.buildOrder account payload now client).Avoids Notable := by
  unfold Server.buildOrder
  refine .bind (.expect _) fun identifiers => .bind (.expect _) fun validity => ?_
  refine .bind (select_profile_avoids s _ _) fun profile => ?_
  refine .bind (check_replaces_avoids s _ _ _) fun replaces => ?_
  refine .bind (.lift (ask_avoids fun h => h)) fun id => ?_
  cases id with
  | none => exact .throw _
  | some id =>
      refine .bind (.lift (check_limit_avoids s _)) fun refusal => .bind (.check _) fun _ => ?_
      exact review_order_avoids _ _

theorem pre_approve_avoids (account : Account) (order : Order) :
    (s.preApprove account order).Avoids Notable := by
  unfold Server.preApprove
  split
  · refine .bind (.lift (ask_avoids fun h => h)) fun answer => .bind (.expect _) fun ids => ?_
    refine .bind (.fail_if _ _) fun _ => ?_
    split
    · exact .pure _
    · exact .throw _
  · exact .pure _

theorem build_challenges_avoids (order : Order) (authzID : String) (types : List ChallengeType) :
    (Server.buildChallenges order authzID types).Avoids Notable := by
  induction types with
  | nil => exact .pure []
  | cons type rest ih =>
      refine .bind (.lift (ask_avoids fun h => h)) fun id => ?_
      cases id with
      | none => exact .throw _
      | some id =>
          refine .bind (.lift (ask_avoids fun h => h)) fun token => ?_
          cases token with
          | none => exact .throw _
          | some token => exact .bind ih fun _ => .pure _

theorem build_authorization_avoids (order : Order) (preApproved : Finset Identifier)
    (id : Identifier) : (s.buildAuthorization order preApproved id).Avoids Notable := by
  unfold Server.buildAuthorization
  refine .bind (.lift (ask_avoids fun h => h)) fun authzID => ?_
  cases authzID with
  | none => exact .throw _
  | some authzID =>
      dsimp only
      split
      · exact .pure _
      · exact .bind (build_challenges_avoids _ _ _) fun _ => .pure _

theorem build_authorization_list_avoids (order : Order) (preApproved : Finset Identifier)
    (ids : List Identifier) : (s.buildAuthorizationList order preApproved ids).Avoids Notable := by
  induction ids with
  | nil => exact .pure _
  | cons id rest ih =>
      exact .bind (build_authorization_avoids s _ _ _) fun _ => .bind ih fun _ => .pure _

theorem build_authorizations_avoids (order : Order) (preApproved : Finset Identifier) :
    (s.buildAuthorizations order preApproved).Avoids Notable :=
  .bind (build_authorization_list_avoids s _ _ _) fun _ => .pure _

theorem authorization_status_avoids (updated : Option Authorization) (now : Time) (id : String) :
    (Server.authorizationStatus updated now id).Avoids Notable := by
  unfold Server.authorizationStatus
  split
  · trivial
  · exact .bind (fetch_avoids fun h => h) fun _ => trivial

theorem derive_loop_avoids (updated : Option Authorization) (now : Time) (allValid : Bool)
    (ids : List String) : (Server.deriveLoop updated now allValid ids).Avoids Notable := by
  induction ids generalizing allValid with
  | nil => trivial
  | cons id rest ih =>
      refine .bind (authorization_status_avoids _ _ _) fun status => ?_
      cases status with
      | error err => trivial
      | ok status =>
          dsimp only
          split
          · trivial
          · exact ih _

theorem derive_order_status_avoids (order : Order) (updated : Option Authorization) :
    (Server.deriveOrderStatus order updated).Avoids Notable := by
  unfold Server.deriveOrderStatus
  refine .bind (ask_avoids fun h => h) fun now => ?_
  split
  · trivial
  · exact derive_loop_avoids _ _ _ _

theorem deactivate_authorization_avoids (authz : Authorization) (now : Time) :
    (Server.deactivateAuthorization authz now).Avoids Notable := by
  unfold Server.deactivateAuthorization
  dsimp only
  split
  · exact .pure _
  · refine .bind (.fail_if _ _) fun _ => ?_
    refine .bind (.lift (call_store_avoids fun h => h)) fun reply => ?_
    split
    · exact .pure _
    · exact .throw _
    · exact .throw _

theorem load_challenges_avoids (ids : List String) :
    (Server.loadChallenges ids).Avoids Notable := by
  induction ids with
  | nil => exact .pure []
  | cons id rest ih =>
      refine .bind (.lift (fetch_avoids fun h => h)) fun result => .bind (.expect _) fun ch => ?_
      exact .bind ih fun _ => .pure _

theorem enqueue_validation_avoids (ch : Challenge) (task : Task) :
    (Server.enqueueValidation ch task).Avoids Notable := by
  unfold Server.enqueueValidation
  refine .bind (.lift (call_store_avoids fun h => h)) fun reply => ?_
  split
  · exact .pure _
  · refine .bind (.lift (fetch_avoids fun h => h)) fun current => ?_
    cases current with
    | ok current => exact .bind (.fail_if _ _) fun _ => .pure _
    | error err => exact .throw _
  · exact .throw _

theorem accept_challenge_avoids (ch : Challenge) (account : Account) (client : String)
    (payload : ChallengeResponseJSON) :
    (s.acceptChallenge ch account client payload).Avoids Notable := by
  unfold Server.acceptChallenge
  split
  · exact .pure _
  · refine .bind (.check _) fun _ => .bind (.lift (fetch_avoids fun h => h)) fun found => ?_
    refine .bind (.expect _) fun authz => .bind (.lift (ask_avoids fun h => h)) fun now => ?_
    refine .bind (.fail_if _ _) fun _ => .bind (.lift (fetch_avoids fun h => h)) fun count => ?_
    refine .bind (.expect _) fun pending => .bind (.fail_if _ _) fun _ => ?_
    refine .bind (.lift (check_limit_avoids s _)) fun refusal => .bind (.check _) fun _ => ?_
    refine .bind (.lift (ask_avoids fun h => h)) fun id => ?_
    cases id with
    | none => exact .throw _
    | some id => exact enqueue_validation_avoids _ _

/-! ## Finalization -/

theorem order_authorizations_avoids (ids : List String) :
    (Server.orderAuthorizations ids).Avoids Notable := by
  induction ids with
  | nil => exact .pure []
  | cons id rest ih =>
      refine .bind (.lift (fetch_avoids fun h => h)) fun result => .bind (.expect _) fun authz => ?_
      exact .bind ih fun _ => .pure _

theorem check_finalize_avoids (order : Order) (account : Account) (der : Bytes) :
    (s.checkFinalize order account der).Avoids Notable := by
  unfold Server.checkFinalize
  refine .bind (.fail_if _ _) fun _ => .bind (order_authorizations_avoids _) fun authzs => ?_
  exact .bind (.check _) fun _ => .check _

theorem enqueue_issuance_avoids (order : Order) (task : Task) :
    (Server.enqueueIssuance order task).Avoids Notable := by
  unfold Server.enqueueIssuance
  refine .bind (.lift (call_store_avoids fun h => h)) fun reply => ?_
  split
  · exact .pure _
  · refine .bind (.lift (fetch_avoids fun h => h)) fun current => ?_
    cases current with
    | ok current => exact .bind (.fail_if _ _) fun _ => .pure _
    | error err => exact .throw _
  · exact .throw _

theorem finalize_ready_avoids (refusal : Refusal) (order : Order) (account : Account) (der : Bytes)
    (now : Time) : (s.finalizeReady refusal order account der now).Avoids Notable := by
  unfold Server.finalizeReady
  refine .bind (refusing_avoids s _ (check_finalize_avoids s _ _ _)) fun _ => ?_
  refine .bind (.lift (ask_avoids fun h => h)) fun id => ?_
  cases id with
  | none => exact .throw _
  | some id => exact enqueue_issuance_avoids _ _

/-! ## Revocation -/

theorem issued_certificate_avoids (der : Bytes) : (s.issuedCertificate der).Avoids Notable := by
  unfold Server.issuedCertificate
  refine .bind (.lift (fetch_avoids fun h => h)) fun found => .bind (.expect _) fun cert => ?_
  exact .bind (.fail_if _ _) fun _ => .pure _

theorem authorize_revocation_avoids (signer : Account ⊕ PublicKey) (cert : Certificate)
    (leaf : Leaf) (der : Bytes) : (s.authorizeRevocation signer cert leaf der).Avoids Notable := by
  unfold Server.authorizeRevocation
  cases signer with
  | inl account =>
      dsimp only
      split
      · exact .pure _
      · refine .bind (.expect _) fun ids => .bind (.fail_if _ _) fun _ => ?_
        refine .bind (.lift (ask_avoids fun h => h)) fun now => ?_
        refine .bind (.lift (fetch_avoids fun h => h)) fun allowed => ?_
        exact .bind (.expect _) fun _ => .fail_if _ _
  | inr key => exact .bind (.expect _) fun _ => .fail_if _ _

theorem begin_revocation_avoids (reason : Int) (rounds : Nat) (cert : Certificate) :
    (Server.beginRevocation reason rounds cert).Avoids Notable := by
  induction rounds generalizing cert with
  | zero => exact .throw _
  | succ rounds ih =>
      unfold Server.beginRevocation
      split
      · exact .throw _
      · split
        · exact .pure _
        · refine .bind (.lift (ask_avoids fun h => h)) fun id => ?_
          cases id with
          | none => exact .throw _
          | some id =>
              refine .bind (.lift (ask_avoids fun h => h)) fun now => ?_
              refine .bind (.lift (call_store_avoids fun h => h)) fun reply => ?_
              split
              · exact .pure _
              · refine .bind (.lift (fetch_avoids fun h => h)) fun found => ?_
                exact .bind (.expect _) fun current => ih current
              · exact .throw _

theorem record_revocation_avoids (accepted : Certificate) (rounds : Nat) (cert : Certificate) :
    (Server.recordRevocation accepted rounds cert).Avoids Notable := by
  induction rounds generalizing cert with
  | zero => trivial
  | succ rounds ih =>
      unfold Server.recordRevocation
      refine .bind (ask_avoids fun h => h) fun now => ?_
      refine .bind (call_store_avoids fun h => h) fun reply => ?_
      split
      · trivial
      · refine .bind (fetch_avoids fun h => h) fun current => ?_
        cases current with
        | error err => trivial
        | ok current =>
            dsimp only
            split
            · trivial
            · exact ih current
      · trivial

theorem abandon_revocation_avoids (cert : Certificate) :
    (Server.abandonRevocation cert).Avoids Notable :=
  .bind (call_store_avoids fun h => h) fun _ => trivial

theorem open_revocation_avoids (signer : Account ⊕ PublicKey) (der : Bytes) (reason : Int) :
    (s.openRevocation signer der reason).Avoids Notable := by
  unfold Server.openRevocation
  split
  · refine .bind (.fail_if _ _) fun _ => .bind (issued_certificate_avoids s _) fun cert => ?_
    refine .bind (authorize_revocation_avoids s _ _ _ _) fun _ => ?_
    exact begin_revocation_avoids _ _ _
  · exact .throw _

end AcmeServer
