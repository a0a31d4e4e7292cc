import AcmeServer.Server.Finalize

/-!
# Certificates

The handlers of `revoke.go`, `certificate.go` and `renewal.go`. A loop of the source with a fixed
number of rounds is a recursion on the rounds that are left.
-/

namespace AcmeServer

open Interaction Memstore Attempt

/-- The problem of a revocation that could not be stored. -/
def revocationNotRecorded : Problem :=
  newProblem .serverInternal "revocation could not be recorded"

/-- How long clients wait before asking for renewal information again, unless the advisor says
otherwise. -/
def defaultRenewalRetryAfter : Duration := 6 * 3600 * 1000000000

namespace Server

variable (s : Server)

/-- Returns the certificate chain as PEM. -/
def serveCertificate (r : Request) (id : String) : Handler Unit := do
  let req ← s.readSignedRequest r ("cert/" ++ id) .account
  let cert ← expect ((← fetch (.certificate id)).mapError (storeProblem · "certificate"))
  failIf (cert.accountID ≠ req.signer.id)
    (newProblem .unauthorized "the signing account does not own this certificate")
  check (requireEmptyPayload req)
  s.write r 200 (some "application/pem-certificate-chain") (.certificate (s.pemChain cert.chain))

/-! ## Revocation -/

/-- The DER certificate of a revokeCert payload. -/
def readCertificate (payload : RevokeJSON) : Except Problem Bytes :=
  match s.decodeBase64 payload.certificate with
  | some der =>
      if der.length = 0 then throw (newProblem .malformed "certificate is not valid base64url")
      else pure der
  | none => throw (newProblem .malformed "certificate is not valid base64url")

/-- The certificate that a revokeCert request carries. -/
def carriedCertificate (r : Request) : Option Bytes :=
  (s.payloadOf r).bind fun payload =>
    (decodePayload (s.decodeRevoke payload) >>= s.readCertificate).toOption

/-- Loads the stored certificate with the given encoding. -/
def issuedCertificate (der : Bytes) : Handler Certificate := do
  let unknown := (newProblem .malformed "certificate was not issued by this server").withStatus 404
  let cert ← expect ((← fetch (.certificate (s.certificateID der))).mapError fun err =>
    if err = .notFound then unknown else storeProblem err "certificate")
  failIf (cert.chain.head? ≠ some der) unknown
  pure cert

/-- Accepts the issuing account, an account authorized for every identifier or the certificate
key. -/
def authorizeRevocation (signer : Account ⊕ PublicKey) (cert : Certificate) (leaf : Leaf)
    (der : Bytes) : Handler Unit :=
  match signer with
  | .inl account =>
      if account.id = cert.accountID then pure ()
      else do
        let ids ← expect ((s.revocationIdentifiers der).mapError fun _ =>
          newProblem .unauthorized "certificate identifiers cannot be authorized")
        failIf (∃ id ∈ ids, id.type = .nfInstanceID) (newProblem .unauthorized
          ("a network function certificate is revoked by the enrolling account " ++
            "or with the certificate key"))
        let now ← ask .now
        let allowed ← expect ((← fetch (.authorizedFor account.id ids now)).mapError
          (storeProblem · "authorization"))
        failIf (allowed = false) (newProblem .unauthorized
          "the signing account is not authorized for every certificate identifier")
  | .inr key => do
      let signer ← expect ((s.thumbprint key).mapError fun _ =>
        newProblem .badPublicKey "signing key cannot be thumbprinted")
      failIf (leaf.publicKey.bind (fun key => (s.thumbprint key).toOption) ≠ some signer)
        (newProblem .unauthorized "the signing key is not the certificate key")

/-- Commits the operation ID and reason before the CA call. A recorded operation is continued. -/
def beginRevocation (reason : Int) : Nat → Certificate → Handler Certificate
  | 0, _ => throw revocationNotRecorded
  | rounds + 1, cert =>
      if cert.revoked then throw (newProblem .alreadyRevoked "certificate is already revoked")
      else if cert.revocationOperationID ≠ "" then pure cert
      else do
        let some id ← ask .newID | throw revocationNotRecorded
        let now ← ask .now
        let reply ← callStore (.updateCertificate { cert with
          revocationOperationID := id
          revocationReason := reason
          revocationRequestedAt := now })
        match reply.result with
        | .ok () => pure reply.args
        | .error .revisionMismatch => do
            let current ← expect ((← fetch (.certificate cert.id)).mapError
              (storeProblem · "certificate"))
            beginRevocation reason rounds current
        | .error _ => throw revocationNotRecorded

/-- Stores the revocation that `accepted` records over the current version of the certificate. A
concurrent revocation is as good as this one. -/
def recordRevocation (accepted : Certificate) : Nat → Certificate → Prog (Option Problem)
  | 0, _ => pure (some revocationNotRecorded)
  | rounds + 1, cert => do
      let now ← ask .now
      let reply ← callStore (.updateCertificate { cert with
        revoked := true
        revokedAt := now
        revocationOperationID := accepted.revocationOperationID
        revocationReason := accepted.revocationReason
        revocationRequestedAt := accepted.revocationRequestedAt })
      match reply.result with
      | .ok () => pure none
      | .error .revisionMismatch => do
          match ← fetch (.certificate cert.id) with
          | .ok current =>
              if current.revoked then pure none else recordRevocation accepted rounds current
          | .error _ => pure (some revocationNotRecorded)
      | .error _ => pure (some revocationNotRecorded)

/-- Clears the recorded operation after the CA refused it. -/
def abandonRevocation (cert : Certificate) : Prog Unit := do
  let _ ← callStore (.updateCertificate { cert with
    revocationOperationID := ""
    revocationReason := 0
    revocationRequestedAt := 0 })
  pure ()

/-- Checks a revocation request and commits its operation. -/
def openRevocation (signer : Account ⊕ PublicKey) (der : Bytes) (reason : Int) :
    Handler Certificate := do
  let some leaf := s.parseCertificate der
    | throw (newProblem .malformed "certificate could not be parsed")
  failIf (reason ∉ s.revocationReasons) (newProblem .badRevocationReason
    ("revocation reason " ++ toString reason ++ " is not allowed. " ++ s.reasonsText))
  let cert ← s.issuedCertificate der
  s.authorizeRevocation signer cert leaf der
  beginRevocation reason 2 cert

/-- The ID of the account that signed, if an account did. -/
def signerID : Account ⊕ PublicKey → String
  | .inl account => account.id
  | .inr _ => ""

/-- Revokes a certificate on proof from its account or its key. -/
def serveRevokeCert (r : Request) : Handler Unit := do
  let req ← s.readSignedRequest r "revoke-cert" .either
  let refusal : Refusal := { kind := .revocation, accountID := signerID req.signer }
  let payload ← s.refusing refusal (expect (decodePayload (s.decodeRevoke req.payload)))
  let refusal := { refusal with reason := payload.reason.getD 0 }
  let der ← s.refusing refusal (expect (s.readCertificate payload))
  let refusal := { refusal with certificate := der }
  let cert ← s.refusing refusal (s.openRevocation req.signer der refusal.reason)
  let err ← ask (.revoke {
    operationID := cert.revocationOperationID
    der := der
    reason := cert.revocationReason
    accountID := signerID req.signer })
  match err with
  | some err =>
      match err.asProblem with
      | some p => do
          abandonRevocation cert
          s.refusing refusal (throw p)
      | none => throw (newProblem .serverInternal "revocation failed")
  | none => do
      check (← recordRevocation cert 2 cert)
      s.write r 200 none .empty

/-! ## Renewal information -/

/-- Answers a renewalInfo request. A client the limiter refuses gets no nonce either. -/
def serveRenewalInfo (r : Request) (id : String) : Prog Unit := do
  if s.renewal = false ∨ validRenewalID id = false then
    s.writeProblem r {} notFound
  else
    match ← s.checkLimit { kind := .renewalInfo, client := r.client } with
    | some p => s.writeProblemWithoutNonce r [] p
    | none =>
        match ← fetch (.certificateByRenewalID id) with
        | .error err => s.writeProblem r {} (storeProblem err "certificate")
        | .ok cert =>
            match ← ask (.adviseRenewal cert) with
            | .error err => s.writeProblem r {} (err.asProblem.getD
                (newProblem .serverInternal "renewal information unavailable"))
            | .ok info =>
                if info.windowEnd ≤ info.windowStart then
                  s.writeProblem r {}
                    (newProblem .serverInternal "renewal information unavailable")
                else
                  let wait :=
                    if info.retryAfter ≤ 0 then defaultRenewalRetryAfter else info.retryAfter
                  let seconds := (wait + 500000000) / 1000000000
                  ask (.respond r
                    ⟨200, ((s.commonHeaders []).put "Retry-After" (toString seconds)).put
                      "Content-Type" "application/json",
                    .renewalInfo (s.formatTime info.windowStart) (s.formatTime info.windowEnd)
                      info.explanationURL⟩)

end Server

end AcmeServer
