import AcmeServer.Server.Respond

/-!
# Signed requests

`readSignedRequest` of `request.go`: the media type, the body, the JWS, the nonce, the request URL,
the signing account or key, and the signature, in this order. What the request is signed with
depends on the key mode of the resource, so it is part of the type of the result: a resource that
requires an account gets an account.
-/

namespace AcmeServer

open Interaction Memstore Attempt

/-- How a resource identifies the signing key. -/
inductive KeyMode where
  | account
  | embedded
  | either
deriving DecidableEq, Repr

/-- Who signed a request. -/
abbrev KeyMode.Signer : KeyMode → Type
  | .account => Account
  | .embedded => PublicKey
  | .either => Account ⊕ PublicKey

/-- The key that produced the signature. -/
def KeyMode.key : (mode : KeyMode) → mode.Signer → PublicKey
  | .account, a => a.key
  | .embedded, k => k
  | .either, .inl a => a.key
  | .either, .inr k => k

/-- A verified request with its nonce consumed and its signature checked. -/
structure SignedRequest (mode : KeyMode) where
  signer : mode.Signer
  payload : Bytes

/-- The signature algorithms the server accepts. -/
def jwsAlgorithms : List String := ["ES256", "ES384", "ES512", "RS256", "EdDSA"]

/-- The HMAC algorithms accepted for external account bindings. -/
def macAlgorithms : List String := ["HS256", "HS384", "HS512"]

/-- The problem a client receives for a JWS rejection. -/
def problemFromJWS (err : JWSError) : Problem :=
  match err.code with
  | none => newProblem .malformed "invalid JWS"
  | some .badNonce => newProblem .badNonce err.detail
  | some .badSignatureAlgorithm =>
      { newProblem .badSignatureAlgorithm err.detail with algorithms := jwsAlgorithms }
  | some .badPublicKey => newProblem .badPublicKey err.detail
  | some .badSignature => newProblem .unauthorized err.detail
  | some .malformed => newProblem .malformed err.detail

/-- Rejects a payload where POST-as-GET is required. -/
def requireEmptyPayload {mode : KeyMode} (req : SignedRequest mode) : Option Problem :=
  if req.payload.length ≠ 0 then
    some (newProblem .malformed "this resource only accepts POST-as-GET requests")
  else none

namespace Server

variable (s : Server)

/-- Reads at most `maxBody` bytes and rejects longer bodies. -/
def readBody (r : Request) : Except Problem Bytes :=
  match r.body with
  | .missing => .error (newProblem .malformed "request has no body")
  | .unreadable => .error (newProblem .malformed "request body could not be read")
  | .bytes content =>
      if s.maxBody < content.length then
        .error ((newProblem .malformed
          ("request body exceeds " ++ toString s.maxBody ++ " bytes")).withStatus 413)
      else .ok content

/-- The account ID of an account URL of this server. -/
def accountIDFromURL (url : String) : Option String :=
  (cutPrefix url (s.resourceURL "acct/")).filter validID

/-- Resolves a kid to a valid account of this server. -/
def lookupAccount (kid : String) : Handler Account := do
  let id ← expect (match s.accountIDFromURL kid with
    | some id => .ok id
    | none => .error (newProblem .malformed "JWS kid is not an account URL of this server"))
  let account ← expect ((← fetch (.account id)).mapError fun err =>
    if err = .notFound then newProblem .accountDoesNotExist "account does not exist"
    else newProblem .serverInternal "account lookup failed")
  failIf (account.status ≠ .valid)
    (newProblem .unauthorized ("account is " ++ account.status.text))
  pure account

/-- Finds who signed a message, as the key mode of the resource requires. -/
def readSigner (msg : Message) : (mode : KeyMode) → Handler mode.Signer
  | .account =>
      match msg.key with
      | some _ => throw (newProblem .malformed "this resource requires kid, not an embedded jwk")
      | none => s.lookupAccount msg.keyID
  | .embedded =>
      match msg.key with
      | some key => pure key
      | none => throw (newProblem .malformed "this resource requires an embedded jwk, not kid")
  | .either =>
      match msg.key with
      | some key => pure (.inr key)
      | none => do
          let account ← s.lookupAccount msg.keyID
          pure (.inl account)

/-- The URL a request to the resource must be signed for. -/
def expectedURL (r : Request) (rel : String) : String :=
  if r.rawQuery ≠ "" ∨ r.forceQuery then s.resourceURL rel ++ "?" ++ r.rawQuery
  else s.resourceURL rel

/-- Validates the body of a POST request. `rel` is the path below the base URL. -/
def readSignedRequest (r : Request) (rel : String) (mode : KeyMode) :
    Handler (SignedRequest mode) := do
  failIf (s.parseMediaType r.contentType ≠ some "application/jose+json")
    ((newProblem .malformed "Content-Type must be application/jose+json").withStatus 415)
  let body ← expect (s.readBody r)
  let msg ← expect ((s.parseJWS body).mapError problemFromJWS)
  let valid ← expect ((← ask (.consumeNonce msg.nonce)).mapError fun _ =>
    newProblem .serverInternal "nonce lookup failed")
  failIf (valid = false) (newProblem .badNonce
    "JWS has an invalid anti-replay nonce: it is unknown, expired or was already used")
  modify fun st => { st with nonceSpent := true }
  failIf (msg.url ≠ s.expectedURL r rel ∨ r.escapedPath ≠ s.basePath ++ rel)
    (newProblem .unauthorized "JWS url does not match the request URL")
  let signer ← s.readSigner msg mode
  check ((s.verify msg (mode.key signer)).map problemFromJWS)
  pure ⟨signer, msg.payload⟩

/-- The payload a request carries, signed or not. -/
def payloadOf (r : Request) : Option Bytes :=
  match r.body with
  | .bytes content => ((s.parseJWS content).toOption).map Message.payload
  | _ => none

end Server

end AcmeServer
