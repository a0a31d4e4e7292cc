import AcmeServer.Server.Config

/-!
# Host interfaces and HTTP messages

`HostCall` lists everything the server asks of its surroundings other than the store: the clock,
the random source, the nonce manager, the host's policies, validators, issuer and revoker, and
the HTTP response writer. `HostCall.Answer` is what comes back. A host may answer anything of that
type at any time.
-/

namespace AcmeServer

/-! ## Requests to the host -/

/-- The requests a limiter is asked about. -/
inductive LimitKind where
  | newNonce
  | newAccount
  | newOrder
  | challengeResponse
  | renewalInfo
deriving DecidableEq, Repr

/-- A request a limiter may refuse. -/
structure LimitRequest where
  kind : LimitKind
  client : String
  account : Option Account := none
  identifiers : List Identifier := []
  replaces : String := ""
  pendingValidations : Nat := 0

/-- What a validator is asked to prove. -/
structure ValidationRequest where
  challenge : Challenge
  identifier : Identifier
  wildcard : Bool
  keyAuthorization : String
  accountKeyThumbprint : String
  authorityToken : String

/-- What a successful response authorizes beyond its identifier. -/
structure ValidationGrant where
  caCertificate : Bool := false
  expires : Time := 0
  names : List Identifier := []
  nfType : String := ""

/-- A certificate request to the issuer. The parsed request is a function of `csrDER`. -/
structure IssueRequest where
  operationID : String
  accountID : String
  accountURL : String
  orderID : String
  csrDER : Bytes
  identifiers : List Identifier
  notBefore : Time
  notAfter : Time
  validations : List Validation
  deadline : Time
  recoveryOnly : Bool
  profile : String
deriving DecidableEq

/-- A revocation request to the CA. The parsed certificate is a function of `der`. -/
structure RevokeRequest where
  operationID : String
  der : Bytes
  reason : Int
  accountID : String
deriving DecidableEq

/-- The requests whose refusals are recorded. -/
inductive RefusalKind where
  | finalize
  | revocation
deriving DecidableEq, Repr

/-- An authenticated request that was answered with a problem. -/
structure Refusal where
  kind : RefusalKind
  accountID : String := ""
  orderID : String := ""
  identifiers : List Identifier := []
  csr : Bytes := []
  certificate : Bytes := []
  reason : Int := 0
  problem : Option Problem := none

/-- The window in which a client should renew. -/
structure RenewalInfo where
  windowStart : Time
  windowEnd : Time
  explanationURL : String
  retryAfter : Duration

/-! ## HTTP messages -/

/-- The methods the server distinguishes. -/
inductive Method where
  | get
  | head
  | post
  | other
deriving DecidableEq, Repr

/-- The body of a request. -/
inductive RequestBody where
  | missing
  | unreadable
  | bytes (content : Bytes)

/-- An HTTP request. `client` is the address of the connection. -/
structure Request where
  method : Method
  path : String
  escapedPath : String
  rawQuery : String
  forceQuery : Bool
  contentType : String
  body : RequestBody
  client : String

/-- Response headers in the order they were set. -/
abbrev Header := List (String × String)

/-- Replaces every value of a header. -/
def Header.put (h : Header) (name value : String) : Header :=
  h.filter (fun entry => entry.1 != name) ++ [(name, value)]

/-- Adds a value to a header. -/
def Header.add (h : Header) (name value : String) : Header := h ++ [(name, value)]

/-- The wire form of an account. -/
structure AccountView where
  status : AccountStatus
  contact : List String
  termsOfServiceAgreed : Bool
  orders : String

/-- The wire form of an order. -/
structure OrderView where
  status : OrderStatus
  expires : String
  identifiers : List Identifier
  notBefore : String
  notAfter : String
  error : Option Problem
  authorizations : List String
  finalize : String
  certificate : String
  replaces : String
  profile : String

/-- The wire form of a challenge. -/
structure ChallengeView where
  type : ChallengeType
  url : String
  status : ChallengeStatus
  token : String
  tkAuthType : String
  tokenAuthority : String
  validated : String
  error : Option Problem

/-- The wire form of an authorization. -/
structure AuthorizationView where
  identifier : Identifier
  status : AuthorizationStatus
  expires : String
  challenges : List ChallengeView
  wildcard : Bool

/-- The directory's meta member, with the description URL of every profile. -/
structure MetaView where
  termsOfService : String
  website : String
  caaIdentities : List String
  externalAccountRequired : Bool
  profiles : List (String × String)

/-- The body of a response. -/
inductive Body where
  | empty
  | problem (p : Problem)
  | directory (entries : List (String × String)) (info : Option MetaView)
  | text (content : String)
  | account (view : AccountView)
  | orders (urls : List String)
  | order (view : OrderView)
  | authorization (view : AuthorizationView)
  | challenge (view : ChallengeView)
  | certificate (pem : Bytes)
  | renewalInfo (windowStart windowEnd explanationURL : String)

/-- An HTTP response. -/
structure Response where
  status : Int
  header : Header
  body : Body

/-- Whether the response grants what was asked for: status 200 with anything but a problem
document. A host may put status 200 on a problem, which is a refusal all the same. -/
def Response.success (r : Response) : Bool :=
  r.status == 200 && match r.body with
    | .problem _ => false
    | _ => true

/-! ## Calls -/

/-- A call of a host interface. -/
inductive HostCall where
  | now
  | newID
  | newToken
  | consumeNonce (nonce : String)
  | issueNonce
  | allow (request : LimitRequest)
  | macKey (keyID : String)
  | reviewAccount (account : Account)
  | reviewOrder (account : Account) (order : Order)
  | preApprove (account : Account) (order : Order)
  | chooseProfile (account : Account)
  | validate (type : ChallengeType) (request : ValidationRequest)
  | authorizeIssuance (request : IssueRequest)
  | issue (request : IssueRequest)
  | revoke (request : RevokeRequest)
  | recordRefusal (refusal : Refusal)
  | adviseRenewal (cert : Certificate)
  | respond (request : Request) (response : Response)

/-- The error of looking up an external account key. -/
inductive MACKeyError where
  | notFound
  | other (error : HostError)

/-- What a host call returns. A policy is handed a pointer to the record it reviews, so its answer
has the record as the policy leaves it. An issuer may return a result together with an error. -/
abbrev HostCall.Answer : HostCall → Type
  | .now => Time
  | .newID => Option String
  | .newToken => Option String
  | .consumeNonce _ => Except HostError Bool
  | .issueNonce => Except HostError String
  | .allow _ => Option HostError
  | .macKey _ => Except MACKeyError Bytes
  | .reviewAccount _ => Option HostError × Account
  | .reviewOrder .. => Option HostError × Order
  | .preApprove .. => Except HostError (List Identifier) × Order
  | .chooseProfile _ => Except HostError String
  | .validate .. => Except HostError ValidationGrant
  | .authorizeIssuance _ => Option HostError
  | .issue _ => IssueResult × Option HostError
  | .revoke _ => Option HostError
  | .recordRefusal _ => Option HostError
  | .adviseRenewal _ => Except HostError RenewalInfo
  | .respond .. => Unit

end AcmeServer
