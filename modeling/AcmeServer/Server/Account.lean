import AcmeServer.Server.Request

/-!
# Account requests

The handlers of `account.go` and the external account binding of `eab.go`.
-/

namespace AcmeServer

open Interaction Memstore Attempt

/-- The longest external account key identifier a client may present. -/
def maxExternalAccountKeyID : Nat := 256

/-- The number of orders on a page. -/
def ordersPageSize : Nat := 100

/-- Maps an inner JWS failure to malformed. -/
def innerProblem (err : JWSError) : Problem :=
  let p := problemFromJWS err
  if p.type = .badSignatureAlgorithm ∨ p.type = .badPublicKey then p
  else newProblem .malformed ("inner JWS: " ++ p.detail)

/-- Maps a failure to parse an external account binding. -/
def bindingProblem (err : JWSError) : Problem :=
  let p := problemFromJWS err
  if p.type = .badSignatureAlgorithm then { p with algorithms := macAlgorithms }
  else newProblem .malformed ("externalAccountBinding: " ++ p.detail)

namespace Server

variable (s : Server)

/-- Refuses a binding whose algorithm needs a longer MAC key than the host holds. -/
def shortMACKeyProblem (key : Bytes) (cause : JWSError) : Problem :=
  let usable := s.macAlgorithmsFor key.length
  if usable.length = 0 then
    newProblem .unauthorized ("external account key is too short for any HMAC algorithm. " ++
      "Ask the server operator for a new key")
  else
    { newProblem .badSignatureAlgorithm ("externalAccountBinding: " ++ cause.detail) with
      algorithms := usable }

/-- Verifies an external account binding and returns its key identifier. -/
def verifyExternalAccountBinding (accountThumbprint : String) (raw : Bytes) : Handler String := do
  failIf (s.eabKeys = false)
    (newProblem .malformed "external account bindings are not accepted")
  let msg ← expect ((s.parseMAC raw).mapError bindingProblem)
  failIf (msg.url ≠ s.resourceURL "new-account")
    (newProblem .malformed "externalAccountBinding url does not match the request URL")
  failIf (maxExternalAccountKeyID < msg.keyID.utf8ByteSize)
    (newProblem .malformed ("externalAccountBinding kid exceeds " ++
      toString maxExternalAccountKeyID ++ " bytes"))
  let key ← expect ((← ask (.macKey msg.keyID)).mapError fun
    | .notFound => newProblem .unauthorized "external account key is unknown"
    | .other err => err.asProblem.getD
        (newProblem .serverInternal "external account key lookup failed"))
  check ((s.verifyMAC msg key).map fun err =>
    if err.code = some .badSignatureAlgorithm then s.shortMACKeyProblem key err
    else newProblem .unauthorized "externalAccountBinding signature verification failed")
  let boundKey ← expect ((s.parseJWK msg.payload).mapError fun text =>
    newProblem .malformed ("externalAccountBinding payload: " ++ text))
  failIf ((s.thumbprint boundKey).toOption ≠ some accountThumbprint)
    (newProblem .malformed "externalAccountBinding payload is not the account key")
  pure msg.keyID

/-- Validates a newAccount payload and returns the account to store. -/
def buildAccount (client : String) (key : PublicKey) (thumbprint : String)
    (payload : NewAccountJSON) : Handler Account := do
  check (s.validateContacts payload.contact)
  failIf (s.requireTOS = true ∧ payload.termsOfServiceAgreed = false)
    (newProblem .userActionRequired "the terms of service must be agreed to")
  failIf (payload.externalAccountBinding.length = 0 ∧
      s.directoryMeta.externalAccountRequired = true)
    (newProblem .externalAccountRequired "an external account binding is required")
  let externalID ←
    if payload.externalAccountBinding.length = 0 then pure ""
    else s.verifyExternalAccountBinding thumbprint payload.externalAccountBinding
  let some id ← ask .newID
    | throw (newProblem .serverInternal "account creation failed")
  let now ← ask .now
  let account : Account := {
    id := id
    status := .valid
    key := key
    keyThumbprint := thumbprint
    contact := payload.contact
    termsOfServiceAgreed := payload.termsOfServiceAgreed
    externalAccountID := externalID
    externalAccountClaim := if s.singleUseEAB then externalID else ""
    createdAt := now }
  check (← s.checkLimit { kind := .newAccount, client := client, account := some account })
  let (err, account) ← ask (.reviewAccount account)
  check (hostProblem err "account policy")
  pure account

/-- Answers a newAccount request whose key already owns an account. -/
def writeExistingAccount (r : Request) (account : Account) : Handler Unit := do
  failIf (account.status ≠ .valid)
    (newProblem .unauthorized ("the account owning this key is " ++ account.status.text))
  setHeader "Location" (s.accountURL account.id)
  s.writeJSON r 200 (.account (s.accountView account))

/-- Stores a new account and answers the request. -/
def storeNewAccount (r : Request) (thumbprint : String) (account : Account) : Handler Unit := do
  let reply ← callStore (.createAccount account)
  match reply.result with
  | .ok () => do
      setHeader "Location" (s.accountURL account.id)
      s.writeJSON r 201 (.account (s.accountView reply.args))
  | .error .conflict => do
      match ← fetch (.accountByKey thumbprint) with
      | .ok existing => s.writeExistingAccount r existing
      | .error err =>
          if err = .notFound ∧ account.externalAccountClaim ≠ "" then
            throw (newProblem .unauthorized
              "the external account key is already bound to another account")
          else throw (newProblem .serverInternal "account creation failed")
  | .error _ => throw (newProblem .serverInternal "account creation failed")

/-- Creates an account or returns the one owning the signing key. -/
def serveNewAccount (r : Request) : Handler Unit := do
  if s.directoryMeta.termsOfService ≠ "" then
    addHeader "Link" ("<" ++ s.directoryMeta.termsOfService ++ ">;rel=\"terms-of-service\"")
  let req ← s.readSignedRequest r "new-account" .embedded
  let payload ← expect (decodePayload (s.decodeNewAccount req.payload))
  let thumbprint ← expect ((s.thumbprint req.signer).mapError fun _ =>
    newProblem .badPublicKey "account key cannot be thumbprinted")
  match ← fetch (.accountByKey thumbprint) with
  | .ok existing => s.writeExistingAccount r existing
  | .error err => do
      failIf (err ≠ .notFound) (newProblem .serverInternal "account lookup failed")
      failIf (payload.onlyReturnExisting = true)
        (newProblem .accountDoesNotExist "no account owns this key")
      let account ← s.buildAccount r.client req.signer thumbprint payload
      s.storeNewAccount r thumbprint account

/-- Reads a signed request for an account resource and checks that the account owns it. -/
def readOwnedAccount (r : Request) (id rel : String) : Handler (SignedRequest .account) := do
  let req ← s.readSignedRequest r rel .account
  failIf (req.signer.id ≠ id)
    (newProblem .unauthorized "the signing account does not own this resource")
  pure req

/-- The problem a client receives for a failed account update. -/
def updateProblem : StoreError → Problem
  | .conflict => (newProblem .malformed "another account already uses this key").withStatus 409
  | .revisionMismatch =>
      (newProblem .malformed "the account changed concurrently, retry the request").withStatus 409
  | .notFound => newProblem .accountDoesNotExist "account does not exist"
  | _ => newProblem .serverInternal "account update failed"

/-- Stores an account update and maps store errors to problems. -/
def updateAccount (account : Account) : Prog (Except Problem Account) := do
  let reply ← callStore (.updateAccount account)
  match reply.result with
  | .ok () => pure (.ok reply.args)
  | .error err => pure (.error (updateProblem err))

/-- The account with the changes of an update payload. -/
def changedAccount (account : Account) (payload : AccountUpdateJSON) : Account :=
  { account with
    contact := payload.contact.getD account.contact
    status := if payload.status.isSome then .deactivated else account.status }

/-- Returns the account, updates it or deactivates it. -/
def serveAccount (r : Request) (id : String) : Handler Unit := do
  let req ← s.readOwnedAccount r id ("acct/" ++ id)
  if req.payload.length = 0 then
    s.writeJSON r 200 (.account (s.accountView req.signer))
  else do
    let payload ← expect (decodePayload (s.decodeAccountUpdate req.payload))
    failIf (∃ status ∈ payload.status, status ≠ AccountStatus.deactivated.text)
      (newProblem .malformed "status can only be changed to deactivated")
    check (payload.contact.bind s.validateContacts)
    let account ← expect (← updateAccount (changedAccount req.signer payload))
    s.writeJSON r 200 (.account (s.accountView account))

/-- Collects the URLs of the listed orders that are not invalid. -/
def orderURLs (now : Time) : List String → Handler (List String)
  | [] => pure []
  | id :: rest => do
      let order ← expect ((← fetch (.order id)).mapError fun _ =>
        newProblem .serverInternal "order listing failed")
      let urls ← orderURLs now rest
      if order.statusAt now ≠ .invalid then pure (s.resourceURL ("order/" ++ id) :: urls)
      else pure urls

/-- Lists the orders of an account. -/
def serveAccountOrders (r : Request) (id : String) : Handler Unit := do
  let req ← s.readOwnedAccount r id ("acct/" ++ id ++ "/orders")
  check (requireEmptyPayload req)
  let cursor := s.cursor r.rawQuery
  failIf (cursor ≠ "" ∧ validID cursor = false) (newProblem .malformed "unknown cursor")
  let ids ← expect ((← fetch (.orderIDs id cursor (ordersPageSize + 1))).mapError fun err =>
    if err = .notFound then newProblem .malformed "unknown cursor"
    else newProblem .serverInternal "order listing failed")
  let page := ids.take ordersPageSize
  let now ← ask .now
  let urls ← s.orderURLs now page
  if ordersPageSize < ids.length then
    addHeader "Link" ("<" ++ s.resourceURL ("acct/" ++ id ++ "/orders") ++ "?cursor=" ++
      s.queryEscape (page.getLastD "") ++ ">;rel=\"next\"")
  s.writeJSON r 200 (.orders urls)

/-- Checks the inner JWS of a key change and returns the account with its new key. -/
def newKey (req : SignedRequest .account) : Except Problem Account := do
  let inner ← (s.parseInner req.payload).mapError innerProblem
  if inner.url ≠ s.resourceURL "key-change" then
    throw (newProblem .malformed "inner JWS url does not match the outer JWS url")
  -- The inner profile requires an embedded key, so the parser never returns a message without one.
  let some key := inner.key | throw (newProblem .malformed "invalid JWS")
  if let some err := s.verify inner key then throw (innerProblem err)
  let payload ← decodePayload (s.decodeKeyChange inner.payload)
  if payload.account ≠ s.accountURL req.signer.id then
    throw (newProblem .malformed "inner JWS account does not match the signing account")
  let oldKey ← (s.parseJWK payload.oldKey).mapError fun text =>
    newProblem .malformed ("inner JWS oldKey: " ++ text)
  if (s.thumbprint oldKey).toOption ≠ some req.signer.keyThumbprint then
    throw (newProblem .malformed "inner JWS oldKey is not the current account key")
  let thumbprint ← (s.thumbprint key).mapError fun _ =>
    newProblem .badPublicKey "new key cannot be thumbprinted"
  if thumbprint = req.signer.keyThumbprint then
    throw (newProblem .malformed "new key is the current account key")
  pure { req.signer with key := key, keyThumbprint := thumbprint }

/-- Replaces the account key. -/
def serveKeyChange (r : Request) : Handler Unit := do
  let req ← s.readSignedRequest r "key-change" .account
  let account ← expect (s.newKey req)
  match ← updateAccount account with
  | .ok account => s.writeJSON r 200 (.account (s.accountView account))
  | .error p => do
      if p.type = .malformed ∧ p.status = 409 then
        match ← fetch (.accountByKey account.keyThumbprint) with
        | .ok other => setHeader "Location" (s.accountURL other.id)
        | .error _ => pure ()
      throw p

end Server

end AcmeServer
