import AcmeServer.Server.Order

/-!
# Finalization

`serveFinalize` of `finalize.go`. Every refusal after the order is found goes to the refusal
recorder, except a concurrent change that a retry resolves.
-/

namespace AcmeServer

open Interaction Memstore Attempt

namespace Server

variable (s : Server)

/-- Reports a refusal to the recorder on its way to the client. -/
def refusing {α : Type} (refusal : Refusal) (m : Handler α) : Handler α :=
  m.onError (s.recordRefusal refusal)

/-- The DER certificate request of a finalize payload. -/
def readCSR (payload : Bytes) : Except Problem Bytes := do
  let payload ← decodePayload (s.decodeFinalize payload)
  match s.decodeBase64 payload.csr with
  | some der =>
      if der.length = 0 then throw (newProblem .malformed "csr is not valid base64url")
      else pure der
  | none => throw (newProblem .malformed "csr is not valid base64url")

/-- The certificate request that a finalize request carries. -/
def carriedCSR (r : Request) : Option Bytes :=
  (s.payloadOf r).bind fun payload => (s.readCSR payload).toOption

/-- Loads the authorizations of an order. -/
def orderAuthorizations : List String → Handler (List Authorization)
  | [] => pure []
  | id :: rest => do
      let authz ← expect ((← fetch (.authorization id)).mapError (storeProblem · "authorization"))
      let authzs ← orderAuthorizations rest
      pure (authz :: authzs)

/-- Requires every authorization of the order to have granted exactly what the request asks for. -/
def checkCAGrants (authzs : List Authorization) (der : Bytes) : Option Problem :=
  match s.csrCACertificate der with
  | .error _ => some (newProblem .badCSR "CSR basic constraints could not be read")
  | .ok requested =>
      if authzs.any fun authz => authz.caCertificate != requested then
        some (newProblem .badCSR
          "CSR CA basic constraint does not match the granted authorization")
      else none

/-- Checks whether a certificate request may finalize a ready order. -/
def checkFinalize (order : Order) (account : Account) (der : Bytes) : Handler Unit := do
  failIf (order.profile ≠ "" ∧ (s.profile order.profile).isNone) (newProblem .invalidProfile
    "the server no longer offers the profile of this order")
  let authzs ← orderAuthorizations order.authorizationIDs
  check (s.checkCSR der order account (authzs.flatMap Authorization.grantNames))
  check (s.checkCAGrants authzs der)

/-- Stores a finalized order with its issuance task. A concurrent finalization with the same
certificate request is as good as this one. -/
def enqueueIssuance (order : Order) (task : Task) : Handler Order := do
  let reply ← callStore (.finalizeOrder ⟨order, task⟩)
  match reply.result with
  | .ok () => pure reply.args.order
  | .error .revisionMismatch => do
      match ← fetch (.order order.id) with
      | .ok current => do
          failIf (current.csr ≠ order.csr)
            (newProblem .orderNotReady "order changed concurrently, retry the request")
          pure current
      | .error _ =>
          throw (newProblem .orderNotReady "order changed concurrently, retry the request")
  | .error _ => throw (newProblem .serverInternal "finalization failed")

/-- Accepts a certificate request for a ready order and enqueues issuance. -/
def finalizeReady (refusal : Refusal) (order : Order) (account : Account) (der : Bytes)
    (now : Time) : Handler Order := do
  s.refusing refusal (s.checkFinalize order account der)
  let some taskID ← ask .newID
    | throw (newProblem .serverInternal "finalization failed")
  enqueueIssuance { order with status := .processing, csr := der }
    { id := taskID
      kind := .issue
      targetID := order.id
      accountID := order.accountID
      runAt := now
      createdAt := now }

/-- Accepts a certificate request for an order, see RFC 8555 section 7.4. -/
def serveFinalize (r : Request) (id : String) : Handler Unit := do
  let (req, order) ← s.readOwnedOrder r id ("order/" ++ id ++ "/finalize")
  let refusal : Refusal := {
    kind := .finalize
    accountID := order.accountID
    orderID := order.id
    identifiers := order.identifiers }
  let der ← s.refusing refusal (expect (s.readCSR req.payload))
  let refusal := { refusal with csr := der }
  let now ← ask .now
  match order.statusAt now with
  | .ready => do
      let order ← s.finalizeReady refusal order req.signer der now
      s.writeOrder r 200 order now
  | .processing | .valid => do
      s.refusing refusal (failIf (order.csr ≠ der) (newProblem .orderNotReady
        "order was already finalized with a different CSR"))
      s.writeOrder r 200 order now
  | status =>
      s.refusing refusal (throw (newProblem .orderNotReady ("order is " ++ status.text)))

end Server

end AcmeServer
