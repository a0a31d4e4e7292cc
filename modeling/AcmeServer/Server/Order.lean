import AcmeServer.Server.Request
import Mathlib.Data.Finset.Insert

/-!
# Orders, authorizations and challenges

The handlers of `order.go`, with `checkReplaces` of `renewal.go`, `NormalizeIdentifiers` of
`identifier.go` and `deriveOrderStatus` of `worker.go`. A loop of the source is a recursion over
the list it ranges over, so it makes the same calls in the same order.
-/

namespace AcmeServer

open Interaction Memstore Attempt

/-! ## Identifiers -/

/-- The name of an identifier type on the wire. -/
def IdentifierType.text : IdentifierType → String
  | .dns => "dns"
  | .ip => "ip"
  | .tnAuthList => "TNAuthList"
  | .nfInstanceID => "NfInstanceId"
  | .uri => "uri"
  | .other name => name

/-- The type and value joined by a colon. -/
def Identifier.text (id : Identifier) : String := id.type.text ++ ":" ++ id.value

/-- Counts the identifiers of one type. -/
def countIdentifiers (ids : List Identifier) (type : IdentifierType) : Nat :=
  ids.countP fun id => id.type = type

/-- Whether a list of identifiers has one that was validated for the certificate. -/
def sharesIdentifier (validations : List Validation) (identifiers : List Identifier) : Bool :=
  validations.any fun v => v.identifier ∈ identifiers

/-- The problem of a refused replacement. -/
def replacementProblem : StoreError → Option Problem
  | .alreadyReplaced => some (newProblem .alreadyReplaced
      "the certificate is already being replaced by another order")
  | .notFound => some (newProblem .malformed "replaces names an unknown certificate")
  | _ => none

/-- The longest authority token a client may present. -/
def maxAuthorityTokenLength : Nat := 16384

/-- Checks a challenge response payload against what the challenge type expects. -/
def checkChallengeResponse (type : ChallengeType) (payload : ChallengeResponseJSON) :
    Option Problem :=
  if type ≠ .tkAuth01 then
    if payload.authorityToken ≠ "" then
      some (newProblem .malformed
        ("a " ++ type.text ++ " response does not carry an authority token"))
    else none
  else if payload.authorityToken = "" then
    some (newProblem .malformed "a tkauth-01 response needs the authority token in tkauth or atc")
  else if payload.tkAuth ≠ "" ∧ payload.atc ≠ "" ∧ payload.tkAuth ≠ payload.atc then
    some (newProblem .malformed "the tkauth and atc fields carry different authority tokens")
  else if maxAuthorityTokenLength < payload.authorityToken.utf8ByteSize then
    some (newProblem .malformed
      ("the authority token exceeds " ++ toString maxAuthorityTokenLength ++ " characters"))
  else none

namespace Server

variable (s : Server)

/-- Normalizes every identifier and rejects duplicates in the normalized set. -/
def normalizeIdentifiers (ids : List Identifier) : Except Problem (List Identifier) :=
  ids.foldlM (fun out id => do
    let normalized ← s.normalize id
    if normalized ∈ out then
      throw ((newProblem .malformed
        ("identifier " ++ normalized.text ++ " is listed more than once")).withIdentifier
          normalized)
    pure (out ++ [normalized])) []

/-- The problem of an identifier whose type the server does not accept. -/
def unsupportedIdentifier (id : Identifier) : Option Problem :=
  let refuse := fun detail => some ((newProblem .unsupportedIdentifier detail).withIdentifier id)
  if id.type = .ip ∧ s.ipIdentifiers = false then refuse "IP identifiers are not supported"
  else if id.type = .tnAuthList ∧ s.tnAuthList = false then
    refuse "TNAuthList identifiers are not supported"
  else if id.type = .nfInstanceID ∧ s.nfInstanceIDs = false then
    refuse "NfInstanceId identifiers are not supported"
  else if id.type = .uri then refuse "uri names come only from authority tokens"
  else none

/-- The configured challenge types that may validate the identifier. -/
def challengeTypesFor (id : Identifier) : List ChallengeType :=
  let token := decide (id.type = .tnAuthList ∨ id.type = .nfInstanceID)
  [.http01, .dns01, .tlsALPN01, .tkAuth01].filter fun type =>
    (s.validators type).isSome && decide ((type = .tkAuth01) = (token = true)) &&
      !(id.isWildcard && type != .dns01) && !(id.type == .ip && type == .dns01)

/-- Parses an optional timestamp from an order payload. -/
def parseTime (value field : String) : Except Problem Time :=
  if value = "" then .ok 0
  else match s.parseRFC3339 value with
    | some t => .ok t
    | none => .error (newProblem .malformed (field ++ " is not an RFC 3339 timestamp"))

/-- Checks the identifiers of a new order and returns them normalized. -/
def orderIdentifiers (payload : NewOrderJSON) : Except Problem (List Identifier) := do
  if payload.identifiers.length = 0 then
    throw (newProblem .malformed "an order needs at least one identifier")
  if s.maxIdentifiers < payload.identifiers.length then
    throw (newProblem .malformed
      ("an order may have at most " ++ toString s.maxIdentifiers ++ " identifiers"))
  if let some p := payload.identifiers.findSome? s.unsupportedIdentifier then throw p
  let identifiers ← s.normalizeIdentifiers payload.identifiers
  if 1 < countIdentifiers identifiers .tnAuthList then
    throw (newProblem .malformed "an order may have at most one TNAuthList identifier")
  let nfInstances := countIdentifiers identifiers .nfInstanceID
  if 1 < nfInstances then
    throw (newProblem .malformed "an order may have at most one NfInstanceId identifier")
  if 0 < nfInstances ∧ 0 < countIdentifiers identifiers .tnAuthList then
    throw (newProblem .malformed
      "an order may not combine NfInstanceId and TNAuthList identifiers")
  if let some id := identifiers.find? fun id => (s.challengeTypesFor id).length == 0 then
    throw ((newProblem .rejectedIdentifier
      "no supported validation method for this identifier").withIdentifier id)
  pure identifiers

/-- The validity a new order asks for. -/
def orderValidity (payload : NewOrderJSON) : Except Problem (Time × Time) := do
  let notBefore ← s.parseTime payload.notBefore "notBefore"
  let notAfter ← s.parseTime payload.notAfter "notAfter"
  if notBefore ≠ 0 ∧ notAfter ≠ 0 ∧ ¬ notBefore < notAfter then
    throw (newProblem .malformed "notAfter must be later than notBefore")
  pure (notBefore, notAfter)

/-! ## New orders -/

/-- The profile a new order is issued under. -/
def selectProfile (account : Account) (requested : String) : Handler String :=
  if requested ≠ "" then do
    failIf (s.profile requested).isNone
      (newProblem .invalidProfile "the server does not offer the requested profile")
    pure requested
  else if s.policyChoosesProfile then do
    let chosen ← expect ((← ask (.chooseProfile account)).mapError fun err =>
      err.asProblem.getD (newProblem .serverInternal "profile choice failed"))
    failIf (chosen ≠ "" ∧ (s.profile chosen).isNone)
      (newProblem .serverInternal "profile choice failed")
    pure (if chosen = "" then s.defaultProfile else chosen)
  else pure s.defaultProfile

/-- Checks the certificate a new order says it replaces. -/
def checkReplaces (account : Account) (identifiers : List Identifier) (replaces : String) :
    Handler String :=
  if replaces = "" ∨ s.renewal = false then pure ""
  else do
    failIf (validRenewalID replaces = false)
      (newProblem .malformed "replaces is not a certificate identifier")
    let cert ← expect ((← fetch (.certificateByRenewalID replaces)).mapError fun err =>
      if err = .notFound then newProblem .malformed "replaces names an unknown certificate"
      else storeProblem err "certificate")
    failIf (cert.accountID ≠ account.id)
      (newProblem .unauthorized "replaces names a certificate of another account")
    failIf (sharesIdentifier cert.validations identifiers = false)
      (newProblem .malformed "the order shares no identifier with the certificate it replaces")
    pure replaces

/-- Asks the policy about a new order and keeps only its changes to the validity. -/
def reviewOrder (account : Account) (order : Order) : Handler Order := do
  let (err, reviewed) ← ask (.reviewOrder account order)
  check (hostProblem err "order policy")
  failIf ({ reviewed with notBefore := order.notBefore, notAfter := order.notAfter } ≠ order)
    (newProblem .serverInternal "order policy failed")
  failIf (reviewed.notBefore ≠ 0 ∧ reviewed.notAfter ≠ 0 ∧ ¬ reviewed.notBefore < reviewed.notAfter)
    (newProblem .serverInternal "order policy failed")
  pure { order with notBefore := reviewed.notBefore, notAfter := reviewed.notAfter }

/-- Validates a newOrder payload and returns the order to store, without authorizations. -/
def buildOrder (account : Account) (payload : NewOrderJSON) (now : Time) (client : String) :
    Handler Order := do
  let identifiers ← expect (s.orderIdentifiers payload)
  let (notBefore, notAfter) ← expect (s.orderValidity payload)
  let profile ← s.selectProfile account payload.profile
  let replaces ← s.checkReplaces account identifiers payload.replaces
  let some id ← ask .newID
    | throw (newProblem .serverInternal "order creation failed")
  let order : Order := {
    id := id
    accountID := account.id
    status := .pending
    expires := now + s.orderLifetime
    identifiers := identifiers
    notBefore := notBefore
    notAfter := notAfter
    replaces := replaces
    profile := profile
    createdAt := now }
  check (← s.checkLimit {
    kind := .newOrder
    client := client
    account := some account
    identifiers := identifiers
    replaces := replaces })
  reviewOrder account order

/-- The identifiers a pre-approval names, or nothing if one of them is not in the order. -/
def grantedIdentifiers (order : Order) (ids : List Identifier) : Option (Finset Identifier) :=
  ids.foldlM (fun granted id =>
    match s.normalize id with
    | .ok normalized =>
        if normalized ∈ order.identifiers then some (insert normalized granted) else none
    | .error _ => none) ∅

/-- Asks a pre-approving policy which identifiers of a new order need no challenge. -/
def preApprove (account : Account) (order : Order) : Handler (Finset Identifier) :=
  if s.policyPreApproves then do
    let (result, reviewed) ← ask (.preApprove account order)
    let ids ← expect (result.mapError fun err =>
      err.asProblem.getD (newProblem .serverInternal "pre-approval policy failed"))
    failIf (reviewed ≠ order) (newProblem .serverInternal "pre-approval policy failed")
    let some granted := s.grantedIdentifiers order ids
      | throw (newProblem .serverInternal "pre-approval policy failed")
    pure granted
  else pure ∅

/-- Creates one pending challenge per type. -/
def buildChallenges (order : Order) (authzID : String) :
    List ChallengeType → Handler (List Challenge)
  | [] => pure []
  | type :: rest => do
      let some id ← ask .newID
        | throw (newProblem .serverInternal "order creation failed")
      let some token ← ask .newToken
        | throw (newProblem .serverInternal "order creation failed")
      let challenge : Challenge := {
        id := id
        authorizationID := authzID
        accountID := order.accountID
        type := type
        status := .pending
        token := token }
      let others ← buildChallenges order authzID rest
      pure (challenge :: others)

/-- Creates the authorization of one identifier. A pre-approved one is valid and has no
challenges. -/
def buildAuthorization (order : Order) (preApproved : Finset Identifier) (id : Identifier) :
    Handler (Authorization × List Challenge) := do
  let some authzID ← ask .newID
    | throw (newProblem .serverInternal "order creation failed")
  let authz : Authorization := {
    id := authzID
    accountID := order.accountID
    orderID := order.id
    identifier := if id.isWildcard then { id with value := (cutPrefix id.value "*.").getD id.value }
      else id
    status := .pending
    expires := order.expires
    wildcard := id.isWildcard
    createdAt := order.createdAt }
  if id ∈ preApproved then
    pure ({ authz with status := .valid, preApproved := true }, [])
  else do
    let challenges ← buildChallenges order authzID (s.challengeTypesFor id)
    pure ({ authz with challengeIDs := challenges.map Challenge.id }, challenges)

/-- Creates one authorization per identifier. -/
def buildAuthorizationList (order : Order) (preApproved : Finset Identifier) :
    List Identifier → Handler (List Authorization × List Challenge)
  | [] => pure ([], [])
  | id :: rest => do
      let (authz, challenges) ← s.buildAuthorization order preApproved id
      let (authzs, others) ← buildAuthorizationList order preApproved rest
      pure (authz :: authzs, challenges ++ others)

/-- Creates the authorizations and challenges of an order. An order whose identifiers are all
pre-approved starts ready. -/
def buildAuthorizations (order : Order) (preApproved : Finset Identifier) : Handler NewOrder := do
  let (authzs, challenges) ← s.buildAuthorizationList order preApproved order.identifiers
  let order := { order with
    authorizationIDs := authzs.map Authorization.id
    status := if preApproved.card = order.identifiers.length then .ready else order.status }
  pure ⟨order, authzs, challenges⟩

/-- Creates an order with its authorizations and challenges. -/
def serveNewOrder (r : Request) : Handler Unit := do
  let req ← s.readSignedRequest r "new-order" .account
  let payload ← expect (decodePayload (s.decodeNewOrder req.payload))
  let now ← ask .now
  let order ← s.buildOrder req.signer payload now r.client
  let preApproved ← s.preApprove req.signer order
  let new ← s.buildAuthorizations order preApproved
  let reply ← callStore (.createOrder new)
  match reply.result with
  | .ok () => s.writeOrder r 201 reply.args.order now
  | .error err =>
      match replacementProblem err with
      | some p =>
          throw (if order.replaces ≠ "" then p
            else newProblem .serverInternal "order creation failed")
      | none => throw (newProblem .serverInternal "order creation failed")

/-! ## Reading orders -/

/-- The status of one authorization of an order, with `updated` standing in for its stored copy. -/
def authorizationStatus (updated : Option Authorization) (now : Time) (id : String) :
    Prog (Except StoreError AuthorizationStatus) :=
  match updated.filter fun a => a.id == id with
  | some a => pure (.ok (effectiveAuthzStatus a now))
  | none => do
      let result ← fetch (.authorization id)
      pure (result.map fun a => effectiveAuthzStatus a now)

/-- The loop of `deriveOrderStatus`. -/
def deriveLoop (updated : Option Authorization) (now : Time) (allValid : Bool) :
    List String → Prog (Except StoreError OrderStatus)
  | [] => pure (.ok (if allValid then .ready else .pending))
  | id :: rest => do
      match ← authorizationStatus updated now id with
      | .error err => pure (.error err)
      | .ok status =>
          if status = .invalid ∨ status = .expired ∨ status = .deactivated ∨ status = .revoked then
            pure (.ok .invalid)
          else deriveLoop updated now (allValid && status == .valid) rest

/-- The order status implied by its authorizations, with `updated` standing in for its stored
copy. -/
def deriveOrderStatus (order : Order) (updated : Option Authorization) :
    Prog (Except StoreError OrderStatus) := do
  let now ← ask .now
  if ¬ now < order.expires then pure (.ok .invalid)
  else deriveLoop updated now true order.authorizationIDs

/-- Reads a signed request for an order resource and loads the order the account owns. -/
def readOwnedOrder (r : Request) (id rel : String) :
    Handler (SignedRequest .account × Order) := do
  let req ← s.readSignedRequest r rel .account
  let order ← expect ((← fetch (.order id)).mapError (storeProblem · "order"))
  failIf (order.accountID ≠ req.signer.id)
    (newProblem .unauthorized "the signing account does not own this order")
  if order.status = .pending ∨ order.status = .ready then do
    let status ← expect ((← deriveOrderStatus order none).mapError (storeProblem · "authorization"))
    pure (req, { order with status := status })
  else pure (req, order)

/-- Returns an order. -/
def serveOrder (r : Request) (id : String) : Handler Unit := do
  let (req, order) ← s.readOwnedOrder r id ("order/" ++ id)
  check (requireEmptyPayload req)
  s.writeOrder r 200 order (← ask .now)

/-! ## Authorizations -/

/-- Moves a pending or valid authorization to deactivated. -/
def deactivateAuthorization (authz : Authorization) (now : Time) : Handler Authorization := do
  let status := effectiveAuthzStatus authz now
  if status = .deactivated then pure authz
  else do
    failIf (status.canTransition .deactivated = false) (newProblem .malformed
      ("authorization is " ++ status.text ++ " and cannot be deactivated"))
    let reply ← callStore (.updateAuthorization { authz with status := .deactivated })
    match reply.result with
    | .ok () => pure reply.args
    | .error .revisionMismatch => throw ((newProblem .malformed
        "the authorization changed concurrently, retry the request").withStatus 409)
    | .error _ => throw (newProblem .serverInternal "authorization update failed")

/-- Loads the challenges of an authorization in their stored order. -/
def loadChallenges : List String → Handler (List Challenge)
  | [] => pure []
  | id :: rest => do
      let ch ← expect ((← fetch (.challenge id)).mapError fun _ =>
        newProblem .serverInternal "challenge lookup failed")
      let challenges ← loadChallenges rest
      pure (ch :: challenges)

/-- Returns or deactivates an authorization. -/
def serveAuthorization (r : Request) (id : String) : Handler Unit := do
  let req ← s.readSignedRequest r ("authz/" ++ id) .account
  let authz ← expect ((← fetch (.authorization id)).mapError (storeProblem · "authorization"))
  failIf (authz.accountID ≠ req.signer.id)
    (newProblem .unauthorized "the signing account does not own this authorization")
  let now ← ask .now
  let authz ←
    if req.payload.length ≠ 0 then do
      let payload ← expect (decodePayload (s.decodeAuthorizationUpdate req.payload))
      failIf (payload.status ≠ AuthorizationStatus.deactivated.text)
        (newProblem .malformed "status can only be changed to deactivated")
      deactivateAuthorization authz now
    else pure authz
  let challenges ← loadChallenges authz.challengeIDs
  s.writeJSON r 200 (.authorization (s.authorizationView authz challenges now))

/-! ## Challenges -/

/-- Stores an accepted challenge with its validation task. A concurrent response that moved the
challenge on is as good as this one. -/
def enqueueValidation (ch : Challenge) (task : Task) : Handler Challenge := do
  let reply ← callStore (.acceptChallenge ⟨ch, task⟩)
  match reply.result with
  | .ok () => pure reply.args.challenge
  | .error .revisionMismatch => do
      match ← fetch (.challenge ch.id) with
      | .ok current => do
          failIf (current.status = .pending)
            (newProblem .serverInternal "challenge update failed")
          pure current
      | .error _ => throw (newProblem .serverInternal "challenge update failed")
  | .error _ => throw (newProblem .serverInternal "challenge update failed")

/-- Moves a pending challenge to processing and enqueues its validation. -/
def acceptChallenge (ch : Challenge) (account : Account) (client : String)
    (payload : ChallengeResponseJSON) : Handler Challenge :=
  if ch.status ≠ .pending then pure ch
  else do
    check (checkChallengeResponse ch.type payload)
    let authz ← expect ((← fetch (.authorization ch.authorizationID)).mapError fun _ =>
      newProblem .serverInternal "authorization lookup failed")
    let now ← ask .now
    let status := effectiveAuthzStatus authz now
    failIf (status ≠ .pending) (newProblem .malformed ("authorization is " ++ status.text))
    let pending ← expect ((← fetch (.accountValidations account.id)).mapError fun _ =>
      newProblem .serverInternal "validation count failed")
    failIf (s.maxValidations ≤ pending) ((newProblem .rateLimited
      ("the account has " ++ toString pending ++ " validations waiting or running, the limit is " ++
        toString s.maxValidations)).withRetryAfter s.workers.taskTimeout)
    check (← s.checkLimit {
      kind := .challengeResponse
      client := client
      account := some account
      identifiers := [authz.orderIdentifier]
      pendingValidations := pending })
    let some taskID ← ask .newID
      | throw (newProblem .serverInternal "challenge update failed")
    enqueueValidation
      { ch with
        status := .processing
        keyThumbprint := account.keyThumbprint
        authorityToken := payload.authorityToken }
      { id := taskID
        kind := .validate
        targetID := ch.id
        accountID := account.id
        runAt := now
        createdAt := now }

/-- Returns a challenge or accepts the client's response to it. -/
def serveChallenge (r : Request) (id : String) : Handler Unit := do
  let req ← s.readSignedRequest r ("chall/" ++ id) .account
  let ch ← expect ((← fetch (.challenge id)).mapError (storeProblem · "challenge"))
  failIf (ch.accountID ≠ req.signer.id)
    (newProblem .unauthorized "the signing account does not own this challenge")
  addHeader "Link" ("<" ++ s.resourceURL ("authz/" ++ ch.authorizationID) ++ ">;rel=\"up\"")
  let ch ←
    if req.payload.length ≠ 0 then do
      let payload ← expect (decodePayload (s.decodeChallengeResponse req.payload))
      s.acceptChallenge ch req.signer r.client payload
    else pure ch
  s.writeChallenge r ch

end Server

end AcmeServer
