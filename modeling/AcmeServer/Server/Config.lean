import AcmeServer.Resource.Basic

/-!
# The configured server

`Server` has the settings of the source's `Server` struct that the modelled code reads. An
optional host interface (policy extension, limiter, recorder) appears as a flag that says whether
it is configured; what it answers is decided anew at every call.

`Library` collects the pure functions the handlers and the worker call without looking inside:
the JWS and JSON layer, the standard library's codecs and parsers, and the certificate checks of
`csr.go` and `chain.go`. Every statement about the server holds for all of them. Certificates and
certificate requests are given by their DER encoding, of which the parsed forms are functions.
-/

namespace AcmeServer

/-! ## JWS messages -/

/-- The rejection codes of the JWS layer. -/
inductive JWSCode where
  | malformed
  | badNonce
  | badSignatureAlgorithm
  | badPublicKey
  | badSignature
deriving DecidableEq, Repr

/-- Why a JWS was rejected. An error without a code is not one of the JWS layer's own. -/
structure JWSError where
  code : Option JWSCode
  detail : String

/-- A parsed JWS with the protected header parameters that ACME requires. -/
structure Message where
  nonce : String
  url : String
  keyID : String
  key : Option PublicKey
  payload : Bytes
  signingInput : Bytes
  signature : Bytes

/-! ## Request payloads -/

/-- The newAccount payload. -/
structure NewAccountJSON where
  contact : List String
  termsOfServiceAgreed : Bool
  onlyReturnExisting : Bool
  externalAccountBinding : Bytes

/-- The account update payload. -/
structure AccountUpdateJSON where
  contact : Option (List String)
  status : Option String

/-- The payload of the inner JWS of a key change. -/
structure KeyChangeJSON where
  account : String
  oldKey : Bytes

/-- The newOrder payload. -/
structure NewOrderJSON where
  identifiers : List Identifier
  notBefore : String
  notAfter : String
  replaces : String
  profile : String

/-- The authorization update payload. -/
structure AuthorizationUpdateJSON where
  status : String

/-- The challenge response payload. -/
structure ChallengeResponseJSON where
  tkAuth : String
  atc : String

/-- The authority token of a response, from whichever field carries it. -/
def ChallengeResponseJSON.authorityToken (p : ChallengeResponseJSON) : String :=
  if p.tkAuth ≠ "" then p.tkAuth else p.atc

/-- The finalize payload. -/
structure FinalizeJSON where
  csr : String

/-- The revokeCert payload. -/
structure RevokeJSON where
  certificate : String
  reason : Option Int

/-! ## The functions the server is built on -/

/-- The part of a parsed leaf certificate the server reads itself. The key is missing when it is of
a type no JWS can be signed with. -/
structure Leaf where
  notBefore : Time
  notAfter : Time
  publicKey : Option PublicKey

/-- The pure functions the modelled code calls. A decoder of a payload returns the text of its
error. -/
structure Library where
  parseMediaType : String → Option String
  parseJWS : Bytes → Except JWSError Message
  parseInner : Bytes → Except JWSError Message
  parseMAC : Bytes → Except JWSError Message
  verify : Message → PublicKey → Option JWSError
  verifyMAC : Message → Bytes → Option JWSError
  thumbprint : PublicKey → Except String String
  parseJWK : Bytes → Except String PublicKey
  macAlgorithmsFor : Nat → List String
  decodeNewAccount : Bytes → Except String NewAccountJSON
  decodeAccountUpdate : Bytes → Except String AccountUpdateJSON
  decodeKeyChange : Bytes → Except String KeyChangeJSON
  decodeNewOrder : Bytes → Except String NewOrderJSON
  decodeAuthorizationUpdate : Bytes → Except String AuthorizationUpdateJSON
  decodeChallengeResponse : Bytes → Except String ChallengeResponseJSON
  decodeFinalize : Bytes → Except String FinalizeJSON
  decodeRevoke : Bytes → Except String RevokeJSON
  decodeBase64 : String → Option Bytes
  parseRFC3339 : String → Option Time
  formatRFC3339 : Time → String
  cursor : String → String
  queryEscape : String → String
  pemChain : List Bytes → Bytes
  validateContacts : List String → Option Problem
  normalize : Identifier → Except Problem Identifier
  validNFType : String → Bool
  parseCertificate : Bytes → Option Leaf
  parseCertificateRequest : Bytes → Except String Unit
  checkCSR : Bytes → Order → Account → List Identifier → Option Problem
  csrCACertificate : Bytes → Except String Bool
  checkChain : List Bytes → Bytes → Order → Time → Except String Leaf
  certificateID : Bytes → String
  renewalID : Bytes → String
  revocationIdentifiers : Bytes → Except String (List Identifier)

/-! ## Settings -/

/-- The settings of the background worker, with defaults applied. -/
structure WorkerConfig where
  pollInterval : Duration
  lease : Duration
  taskTimeout : Duration
  maxAttempts : Nat
  retryDelay : Duration

/-- Whether a validator reports what a response authorizes. -/
inductive ValidatorKind where
  | plain
  | granting
deriving DecidableEq, Repr

/-- A certificate profile offered to clients. -/
structure Profile where
  name : String
  description : String
  url : String

/-- The directory metadata. -/
structure DirectoryMeta where
  termsOfService : String
  website : String
  caaIdentities : List String
  externalAccountRequired : Bool

/-- The configured server. -/
structure Server extends Library where
  baseURL : String
  basePath : String
  directoryMeta : DirectoryMeta
  maxBody : Nat
  validators : ChallengeType → Option ValidatorKind
  eabKeys : Bool
  singleUseEAB : Bool
  policyChoosesProfile : Bool
  policyPreApproves : Bool
  issuancePolicy : Bool
  requireTOS : Bool
  ipIdentifiers : Bool
  tnAuthList : Bool
  tnAuthListOutlive : Bool
  nfInstanceIDs : Bool
  tokenAuthority : String
  renewal : Bool
  profiles : List Profile
  defaultProfile : String
  orderLifetime : Duration
  authzLifetime : Duration
  maxIdentifiers : Nat
  maxValidations : Nat
  workers : WorkerConfig
  revocationReasons : List Int
  reasonsText : String
  refusals : Bool
  limits : Bool

namespace Server

/-- The profile of the given name. A later entry of the configuration wins. -/
def profile (s : Server) (name : String) : Option Profile :=
  s.profiles.reverse.find? (·.name == name)

/-- The absolute URL of a resource below the base URL. -/
def resourceURL (s : Server) (resource : String) : String := s.baseURL ++ resource

/-- The URL of an account resource. -/
def accountURL (s : Server) (id : String) : String := s.resourceURL ("acct/" ++ id)

end Server

/-! ## Request paths -/

/-- The string after a leading part, if it starts with it. -/
def cutPrefix (text lead : String) : Option String :=
  if lead.toList.isPrefixOf text.toList then some (String.ofList (text.toList.drop lead.length))
  else none

theorem cut_prefix_restored {text lead : String} (h : lead.toList.isPrefixOf text.toList = true) :
    lead ++ (cutPrefix text lead).getD text = text := by
  obtain ⟨rest, hrest⟩ := List.isPrefixOf_iff_prefix.mp h
  unfold cutPrefix
  rw [if_pos h, Option.getD_some, ← String.length_toList, ← hrest, List.drop_left,
    String.ext_iff, String.toList_append, String.toList_ofList, hrest]

/-- The parts of a string before and after the first separator, and whether there is one. -/
def cut (text : String) (separator : Char) : String × String × Bool :=
  let before := text.toList.takeWhile (· != separator)
  match text.toList.drop before.length with
  | [] => (text, "", false)
  | _ :: after => (String.ofList before, String.ofList after, true)

/-- The longest opaque resource ID that appears in a URL. -/
def maxIDLength : Nat := 64

/-- Whether the text is a well formed opaque resource ID. -/
def validID (text : String) : Bool :=
  text ≠ "" && text.utf8ByteSize ≤ maxIDLength &&
    text.toList.all fun c => c.isAlphanum || c == '-' || c == '_'

/-- Whether the text has the shape of a renewal identifier. -/
def validRenewalID (text : String) : Bool :=
  text.utf8ByteSize ≤ 2 * maxIDLength + 1 &&
    match cut text '.' with
    | (aki, serial, found) => found && validID aki && validID serial

end AcmeServer
