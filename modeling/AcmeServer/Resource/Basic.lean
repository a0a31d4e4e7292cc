import AcmeServer.Resource.Problem
import AcmeServer.Resource.Status

/-!
# Stored resources

The records of `resource.go`, `work.go` and `issuer.go` with the fields the modelled code reads or
writes. A nil pointer is `none` and the zero time is `0`. Revisions and fences are unbounded
counters; the source keeps them in 64 bits, which no run exhausts.
-/

namespace AcmeServer

/-- A challenge mechanism. -/
inductive ChallengeType where
  | http01
  | dns01
  | tlsALPN01
  | tkAuth01
deriving DecidableEq, Repr

/-- The text of the challenge type on the wire. -/
def ChallengeType.text : ChallengeType → String
  | .http01 => "http-01"
  | .dns01 => "dns-01"
  | .tlsALPN01 => "tls-alpn-01"
  | .tkAuth01 => "tkauth-01"

/-- The curves of accepted EC keys. -/
inductive Curve where
  | p256
  | p384
  | p521
deriving DecidableEq, Repr

/-- The account keys the JWS layer returns. -/
inductive PublicKey where
  | ecdsa (curve : Curve) (x y : Bytes)
  | rsa (modulus exponent : Nat)
  | ed25519 (key : Bytes)
deriving DecidableEq, Repr

/-- A stored ACME account. -/
structure Account where
  id : String
  status : AccountStatus
  key : PublicKey
  keyThumbprint : String
  contact : List String := []
  termsOfServiceAgreed : Bool := false
  externalAccountID : String := ""
  externalAccountClaim : String := ""
  createdAt : Time
  revision : Nat := 0
deriving DecidableEq

/-- How one identifier of an order was validated. -/
structure Validation where
  identifier : Identifier
  type : Option ChallengeType := none
  validated : Time := 0
  caCertificate : Bool := false
  grantExpires : Time := 0
  names : List Identifier := []
  nfType : String := ""
  preApproved : Bool := false
deriving DecidableEq

/-- The authorization decision that is made durable before the first CA call. -/
structure IssuanceState where
  operationID : String
  authorizedAt : Time
  deadline : Time
  validations : List Validation := []
deriving DecidableEq

/-- The outcome of an issuance attempt as the issuer returns it. -/
structure IssueResult where
  chain : List Bytes := []
  caReference : String := ""
  pending : Bool := false
  retryAfter : Duration := 0
  rejected : Option Problem := none
deriving DecidableEq

/-- A stored order resource. -/
structure Order where
  id : String
  accountID : String
  status : OrderStatus
  expires : Time
  identifiers : List Identifier
  notBefore : Time := 0
  notAfter : Time := 0
  authorizationIDs : List String := []
  error : Option Problem := none
  csr : Bytes := []
  certificateID : String := ""
  issuance : Option IssuanceState := none
  unpublishedResult : Option IssueResult := none
  replaces : String := ""
  profile : String := ""
  createdAt : Time
  revision : Nat := 0
deriving DecidableEq

/-- The status clients see: an expired pending or ready order counts as invalid. -/
def Order.statusAt (o : Order) (now : Time) : OrderStatus :=
  if (o.status = .pending ∨ o.status = .ready) ∧ ¬ now < o.expires then .invalid else o.status

/-- A stored authorization resource. A wildcard authorization holds the base name. -/
structure Authorization where
  id : String
  accountID : String
  orderID : String
  identifier : Identifier
  status : AuthorizationStatus
  expires : Time
  wildcard : Bool := false
  challengeIDs : List String := []
  caCertificate : Bool := false
  grantExpires : Time := 0
  grantNames : List Identifier := []
  grantNFType : String := ""
  preApproved : Bool := false
  createdAt : Time
  revision : Nat := 0
deriving DecidableEq

/-- The identifier as the order named it, with the wildcard prefix restored. -/
def Authorization.orderIdentifier (a : Authorization) : Identifier :=
  if a.wildcard then { a.identifier with value := "*." ++ a.identifier.value } else a.identifier

/-- The status clients see: an expired pending or valid authorization counts as expired. -/
def effectiveAuthzStatus (a : Authorization) (now : Time) : AuthorizationStatus :=
  if (a.status = .pending ∨ a.status = .valid) ∧ ¬ now < a.expires then .expired else a.status

/-- A stored challenge resource. -/
structure Challenge where
  id : String
  authorizationID : String
  accountID : String
  type : ChallengeType
  status : ChallengeStatus
  token : String
  authorityToken : String := ""
  keyThumbprint : String := ""
  validated : Time := 0
  error : Option Problem := none
  revision : Nat := 0
deriving DecidableEq

/-- A stored certificate with its chain and its revocation record. -/
structure Certificate where
  id : String
  accountID : String
  orderID : String
  caReference : String := ""
  chain : List Bytes
  notBefore : Time
  notAfter : Time
  revoked : Bool := false
  revokedAt : Time := 0
  revocationReason : Int := 0
  revocationOperationID : String := ""
  revocationRequestedAt : Time := 0
  renewalID : String := ""
  replacedByOrderID : String := ""
  validations : List Validation := []
  createdAt : Time
  revision : Nat := 0
deriving DecidableEq

/-- What a background task does. A store may hold tasks of kinds this server does not know. -/
inductive TaskKind where
  | validate
  | issue
  | other (name : String)
deriving DecidableEq, Repr

/-- A unit of persisted background work with its lease and fence. -/
structure Task where
  id : String
  kind : TaskKind
  targetID : String
  accountID : String
  runAt : Time
  attempts : Nat := 0
  leaseUntil : Time := 0
  fence : Nat := 0
  createdAt : Time
deriving DecidableEq

/-- The effective status of an authorization is pending only if the stored one is. -/
theorem effective_authz_pending {a : Authorization} {now : Time}
    (h : effectiveAuthzStatus a now = .pending) : a.status = .pending := by
  unfold effectiveAuthzStatus at h
  split at h
  · cases h
  · exact h

/-- The effective status of an authorization is valid only if the stored one is and it has not
expired. -/
theorem effective_authz_valid {a : Authorization} {now : Time}
    (h : effectiveAuthzStatus a now = .valid) : a.status = .valid ∧ now < a.expires := by
  unfold effectiveAuthzStatus at h
  split at h
  · cases h
  · rename_i hlive
    refine ⟨h, ?_⟩
    by_contra hexpired
    exact hlive ⟨.inr h, hexpired⟩

end AcmeServer
