import AcmeServer.Server.Worker

/-!
# The background worker: issuance

`issuance.go` and the dispatch of a claimed task in `worker.go`.
-/

namespace AcmeServer

open Interaction Memstore

/-! ## The issuance state -/

/-- The earliest grant expiry among the validations, or zero when none is bounded. -/
def grantExpiry (validations : List Validation) : Time :=
  validations.foldl (fun bound v =>
    if v.grantExpires ≠ 0 ∧ (bound = 0 ∨ v.grantExpires < bound) then v.grantExpires else bound) 0

/-- The end of validity an issuance asks the CA for: the order's, narrowed by a grant expiry. -/
def issuedNotAfter (order : Order) : Time :=
  let bound := match order.issuance with
    | some state => grantExpiry state.validations
    | none => 0
  if bound ≠ 0 ∧ (order.notAfter = 0 ∨ bound < order.notAfter) then bound else order.notAfter

/-- The issuance state after one more authorization was checked. -/
def IssuanceState.including (state : IssuanceState) (a : Authorization) (v : Validation) :
    IssuanceState :=
  let deadline := if a.expires < state.deadline then a.expires else state.deadline
  { state with
    validations := state.validations ++ [v]
    deadline := if a.grantExpires ≠ 0 ∧ a.grantExpires < deadline then a.grantExpires
      else deadline }

namespace Server

variable (s : Server)

/-- Looks for the successful challenge of an authorization. -/
def successfulChallenge (v : Validation) : List String → Prog (Except StoreError Validation)
  | [] => pure (.error (.text "valid authorization has no successful challenge"))
  | id :: rest => do
      match ← fetch (.challenge id) with
      | .error err => pure (.error err)
      | .ok ch =>
          if ch.status = .valid then
            pure (.ok { v with type := some ch.type, validated := ch.validated })
          else successfulChallenge v rest

/-- The evidence that authorized an identifier. -/
def validationEvidence (a : Authorization) : Prog (Except StoreError Validation) :=
  let v : Validation := {
    identifier := a.orderIdentifier
    caCertificate := a.caCertificate
    grantExpires :=
      if s.tnAuthListOutlive ∧ a.identifier.type = .tnAuthList then 0 else a.grantExpires
    names := a.grantNames
    nfType := a.grantNFType }
  if a.preApproved then pure (.ok { v with preApproved := true, validated := a.createdAt })
  else successfulChallenge v a.challengeIDs

/-- The loop of `issuanceAuthorization` with the authorizations and the state collected so far. -/
def issuanceLoop (now : Time) :
    List String → List Authorization → IssuanceState →
      Prog (Except StoreError (Except Problem (List Authorization × IssuanceState)))
  | [], authzs, state => pure (.ok (.ok (authzs, state)))
  | id :: rest, authzs, state => do
      match ← fetch (.authorization id) with
      | .error err => pure (.error err)
      | .ok a =>
          if effectiveAuthzStatus a now ≠ .valid then
            pure (.ok (.error invalidAuthorizationProblem))
          else if a.grantExpires ≠ 0 ∧ ¬ now < a.grantExpires then
            pure (.ok (.error (newProblem .unauthorized
              "authority token expired before issuance dispatch")))
          else
            match ← s.validationEvidence a with
            | .error err => pure (.error err)
            | .ok v => issuanceLoop now rest (authzs ++ [a]) (state.including a v)

/-- Collects the authorization revisions, evidence and earliest deadline for one dispatch. -/
def issuanceAuthorization (operationID : String) (order : Order) (now : Time) :
    Prog (Except StoreError (Except Problem (List Authorization × IssuanceState))) :=
  s.issuanceLoop now order.authorizationIDs []
    { operationID := operationID, authorizedAt := now, deadline := order.expires }

/-- The request for an order whose issuance is in the given state. -/
def issueRequestAt (order : Order) (state : IssuanceState) (now : Time) : IssueRequest where
  operationID := state.operationID
  accountID := order.accountID
  accountURL := s.accountURL order.accountID
  orderID := order.id
  csrDER := order.csr
  identifiers := order.identifiers
  notBefore := order.notBefore
  notAfter := issuedNotAfter order
  validations := state.validations
  deadline := state.deadline
  recoveryOnly := ¬ now < state.deadline
  profile := order.profile

/-- Builds the request from the accepted CSR and the authorization decision. -/
def issueRequest (order : Order) : Prog (Except HostError IssueRequest) := do
  match s.parseCertificateRequest order.csr, order.issuance with
  | .error text, _ => pure (.error (.text text))
  -- Both callers have set the issuance state.
  | .ok (), none => pure (.error (.text "nil pointer"))
  | .ok (), some state => do
      let now ← ask .now
      pure (.ok (s.issueRequestAt order state now))

/-! ## Settling orders -/

/-- Records a definitive refusal without discarding any retained CA result. -/
def failOrder (task : Task) (order : Order) (p : Problem) : Prog Unit := do
  let reply ← callStore (.completeIssuance
    ⟨task, { order with status := .invalid, error := some p }, none⟩)
  match reply.result with
  | .ok () => pure ()
  | .error _ => s.reschedule task

/-- The certificate of an acceptable result. -/
def issuedCertificateRecord (order : Order) (result : IssueResult) (leaf : Leaf) (now : Time) :
    Certificate where
  id := s.certificateID (result.chain.headD [])
  accountID := order.accountID
  orderID := order.id
  caReference := result.caReference
  chain := result.chain
  notBefore := leaf.notBefore
  notAfter := leaf.notAfter
  renewalID := s.renewalID (result.chain.headD [])
  validations := match order.issuance with
    | some state => state.validations
    | none => []
  createdAt := now

/-- Publishes an acceptable certificate. One that another order already published fails the
order. -/
def publishCertificate (task : Task) (order : Order) (result : IssueResult) (cert : Certificate) :
    Prog Unit := do
  let published := { order with status := .valid, certificateID := cert.id, error := none }
  let reply ← callStore (.completeIssuance ⟨task, published, some cert⟩)
  match reply.result with
  | .ok () => pure ()
  | .error .conflict =>
      s.failOrder task
        { published with unpublishedResult := some result, certificateID := "" }
        (newProblem .serverInternal "issuer returned a duplicate certificate")
  | .error _ => s.reschedule task

/-- Retains every returned chain and publishes only an unambiguous acceptable result. -/
def recordIssuedResult (task : Task) (order : Order) (csr : Bytes) (result : IssueResult)
    (now : Time) (err : Option HostError) : Prog Unit :=
  match s.checkChain result.chain csr order now with
  | .ok leaf =>
      if err.isSome ∨ result.pending ∨ result.rejected.isSome then
        s.failOrder task { order with unpublishedResult := some result }
          (newProblem .serverInternal "issuer returned an unacceptable certificate")
      else
        s.publishCertificate task order result
          (s.issuedCertificateRecord order result leaf now)
  | .error _ =>
      s.failOrder task { order with unpublishedResult := some result }
        (newProblem .serverInternal "issuer returned an unacceptable certificate")

/-! ## Dispatch -/

/-- Reads the account and authorizations one dispatch rests on and sets the issuance state it
proposes. -/
def dispatchSnapshot (task : Task) (order : Order) :
    Prog (Option (List Authorization × Account × Order)) := do
  let now ← ask .now
  if ¬ now < order.expires then do
    s.failOrder task order (newProblem .unauthorized "order expired before issuance dispatch")
    pure none
  else
    match ← fetch (.account order.accountID) with
    | .error err => do
        s.dropOnNotFound task err
        pure none
    | .ok account =>
        if account.status ≠ .valid then do
          s.failOrder task order (newProblem .unauthorized "account is no longer valid")
          pure none
        else
          match ← s.issuanceAuthorization task.id order now with
          | .error err => do
              s.dropOnNotFound task err
              pure none
          | .ok (.error p) => do
              s.failOrder task order p
              pure none
          | .ok (.ok (authzs, state)) =>
              pure (some (authzs, account, { order with issuance := some state }))

/-- The outcome of the host's current issuance policy. -/
def reviewIssuance (order : Order) : Prog (Option HostError) := do
  match ← s.issueRequest order with
  | .error err => pure (some err)
  | .ok req => if s.issuancePolicy then ask (.authorizeIssuance req) else pure none

/-- Applies current host policy before persisting a dispatch decision. -/
def checkIssuancePolicy (task : Task) (order : Order) : Prog Bool := do
  match ← s.reviewIssuance order with
  | none => pure true
  | some err => do
      match err.asProblem with
      | some p => s.failOrder task { order with issuance := none } p
      | none =>
          if task.attempts < s.workers.maxAttempts then s.reschedule task
          else
            s.failOrder task { order with issuance := none }
              (newProblem .serverInternal "issuance policy could not be evaluated")
      pure false

/-- Records the dispatch decision and releases the task when the checked snapshot no longer
holds. -/
def storeDispatch (task : Task) (order : Order) (account : Account) (authzs : List Authorization) :
    Prog (Option Order) := do
  let reply ← callStore (.beginIssuance ⟨task, order, account, authzs⟩)
  match reply.result with
  | .ok () => pure (some reply.args.order)
  | .error _ => do
      s.reschedule task
      pure none

/-- Whether the deadline of a dispatch has passed. -/
def pastDeadline (order : Order) (now : Time) : Prop :=
  ∃ state ∈ order.issuance, ¬ now < state.deadline

instance (order : Order) (now : Time) : Decidable (pastDeadline order now) :=
  inferInstanceAs (Decidable (∃ state ∈ order.issuance, ¬ now < state.deadline))

/-- Commits the first authorization decision before any external CA operation. -/
def beginIssuance (task : Task) (order : Order) : Prog (Option Order) := do
  let some (authzs, account, order) ← s.dispatchSnapshot task order | pure none
  let allowed ← s.checkIssuancePolicy task order
  if allowed = false then pure none
  else do
    let now ← ask .now
    if pastDeadline order now then do
      s.failOrder task { order with issuance := none }
        (newProblem .unauthorized "authorization expired before issuance dispatch")
      pure none
    else s.storeDispatch task order account authzs

/-! ## Issuance -/

/-- Loads the order of an issuance task if it still needs the CA. -/
def issuanceOrder (task : Task) : Prog (Option Order) := do
  match ← fetch (.order task.targetID) with
  | .error err => do
      s.dropOnNotFound task err
      pure none
  | .ok order =>
      if order.status ≠ .processing then do
        finishTask task
        pure none
      else pure (some order)

/-- Asks the issuer about a dispatched order and records the outcome. -/
def issueOrder (task : Task) (order : Order) : Prog Unit := do
  match ← s.issueRequest order with
  | .error _ => s.reschedule task
  | .ok req => do
      let (result, err) ← ask (.issue req)
      let now ← ask .now
      if 0 < result.chain.length then
        s.recordIssuedResult task order req.csrDER result now err
      else if err.isSome then
        storeReschedule { task with runAt := now + s.retryDelay task }
      else
        match result.rejected, result.pending with
        | some p, false => s.failOrder task order p
        | none, true =>
            storeReschedule
              { task with runAt := now + max result.retryAfter s.workers.pollInterval }
        | _, _ => storeReschedule { task with runAt := now + s.retryDelay task }

/-- Dispatches an authorized order or recovers its existing CA operation. -/
def runIssuance (task : Task) : Prog Unit := do
  let some order ← s.issuanceOrder task | pure ()
  if order.issuance.isSome then s.issueOrder task order
  else do
    let some order ← s.beginIssuance task order | pure ()
    s.issueOrder task order

/-- Runs one claimed task. -/
def process (task : Task) : Prog Unit :=
  match task.kind with
  | .validate => s.runValidation task
  | .issue => s.runIssuance task
  | .other _ => finishTask task

/-- One round of `Run`: claim a task and run it. -/
def workerTurn : Prog Unit := do
  let now ← ask .now
  match ← fetch (.claimTask now (now + s.workers.lease)) with
  | .ok task => s.process task
  | .error _ => pure ()

end Server

end AcmeServer
