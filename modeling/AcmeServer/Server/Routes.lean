import AcmeServer.Server.Account
import AcmeServer.Server.Certificate
import AcmeServer.Server.Issuance

/-!
# Routing and the running server

`ServeHTTP` of `server.go` with the resources that need no signature, and the programs that may be
started: one per HTTP request and one per round of the worker loop. `Server.run` executes any
interleaving of any number of them over an empty store.
-/

namespace AcmeServer

open Interaction Memstore

/-- The resource a request path names. -/
inductive Route where
  | directory
  | newNonce
  | newAccount
  | newOrder
  | revokeCert
  | keyChange
  | renewalInfo (id : String)
  | profile (name : String)
  | account (id : String)
  | accountOrders (id : String)
  | order (id : String)
  | finalize (id : String)
  | authorization (id : String)
  | challenge (id : String)
  | certificate (id : String)
  | unknown
deriving DecidableEq, Repr

/-- The resource that carries an ID in its path. -/
def resourceRoute (rel : String) : Route :=
  match cut rel '/' with
  | (_, _, false) => .unknown
  | (kind, rest, true) =>
      if kind = "renewal-info" then .renewalInfo rest
      else if kind = "profiles" then .profile rest
      else
        let (id, suffix, _) := cut rest '/'
        if validID id = false then .unknown
        else if kind = "acct" ∧ suffix = "" then .account id
        else if kind = "acct" ∧ suffix = "orders" then .accountOrders id
        else if kind = "order" ∧ suffix = "" then .order id
        else if kind = "order" ∧ suffix = "finalize" then .finalize id
        else if kind = "authz" ∧ suffix = "" then .authorization id
        else if kind = "chall" ∧ suffix = "" then .challenge id
        else if kind = "cert" ∧ suffix = "" then .certificate id
        else .unknown

namespace Server

variable (s : Server)

/-- The resource named by the path of a request. -/
def route (r : Request) : Route :=
  match cutPrefix r.path s.basePath with
  | none => .unknown
  | some rel =>
      if rel = "directory" then .directory
      else if rel = "new-nonce" then .newNonce
      else if rel = "new-account" then .newAccount
      else if rel = "new-order" then .newOrder
      else if rel = "revoke-cert" then .revokeCert
      else if rel = "key-change" then .keyChange
      else resourceRoute rel

/-! ## Resources without signatures -/

/-- Rejects a request whose method the resource does not support. -/
def writeMethodNotAllowed (r : Request) (allowed : String) : Prog Unit :=
  s.writeProblem r { header := Header.put [] "Allow" allowed }
    ((newProblem .malformed "method not allowed").withStatus 405)

/-- The description URL a profile is advertised with. -/
def profileURL (p : Profile) : String :=
  if p.url ≠ "" then p.url else s.resourceURL ("profiles/" ++ p.name)

/-- The directory's meta member, if there is anything to say. -/
def metaObject : Option MetaView :=
  let m := s.directoryMeta
  if m.termsOfService ≠ "" ∨ m.website ≠ "" ∨ 0 < m.caaIdentities.length ∨
      m.externalAccountRequired = true ∨ 0 < s.profiles.length then
    some {
      termsOfService := m.termsOfService
      website := m.website
      caaIdentities := m.caaIdentities
      externalAccountRequired := m.externalAccountRequired
      profiles := s.profiles.map fun p => (p.name, s.profileURL p) }
  else none

/-- The directory object. -/
def directory : Body :=
  .directory
    ([("newNonce", s.resourceURL "new-nonce"), ("newAccount", s.resourceURL "new-account"),
      ("newOrder", s.resourceURL "new-order"), ("revokeCert", s.resourceURL "revoke-cert"),
      ("keyChange", s.resourceURL "key-change")] ++
      if s.renewal then [("renewalInfo", s.resourceURL "renewal-info")] else [])
    s.metaObject

/-- Runs the program for GET and HEAD requests and rejects every other method. -/
def serveRead (r : Request) (program : Prog Unit) : Prog Unit :=
  if r.method = .get ∨ r.method = .head then program else s.writeMethodNotAllowed r "GET, HEAD"

/-- Writes the plain-text description of a profile. -/
def serveProfile (r : Request) (name : String) : Prog Unit :=
  match (s.profile name).filter fun p => p.description ≠ "" with
  | none => s.writeProblem r {} notFound
  | some p =>
      ask (.respond r
        ⟨200, [("Content-Type", "text/plain; charset=utf-8"),
          ("Content-Length", toString p.description.utf8ByteSize)],
        if r.method = .get then .text p.description else .empty⟩)

/-- Answers a newNonce request. A refused one gets no nonce, because the nonce is what the client
came for. -/
def serveNewNonce (r : Request) : Prog Unit := do
  match ← s.checkLimit { kind := .newNonce, client := r.client } with
  | some p => s.writeProblemWithoutNonce r [] p
  | none =>
      match ← ask .issueNonce with
      | .error _ =>
          s.writeProblemWithoutNonce r [] (newProblem .serverInternal "nonce issuance failed")
      | .ok nonce =>
          ask (.respond r ⟨if r.method = .head then 200 else 204,
            (s.commonHeaders []).put "Replay-Nonce" nonce, .empty⟩)

/-! ## Requests -/

/-- Runs the handler for POST requests and rejects every other method. -/
def servePOST (r : Request) (handler : Handler Unit) : Prog Unit :=
  if r.method = .post then s.answer r handler else s.writeMethodNotAllowed r "POST"

/-- Routes a request to the resource named by its path. -/
def serveHTTP (r : Request) : Prog Unit :=
  match s.route r with
  | .directory => s.serveRead r
      (ask (.respond r ⟨200, [("Content-Type", "application/json")], s.directory⟩))
  | .newNonce => s.serveRead r (s.serveNewNonce r)
  | .renewalInfo id => s.serveRead r (s.serveRenewalInfo r id)
  | .profile name => s.serveRead r (s.serveProfile r name)
  | .newAccount => s.servePOST r (s.serveNewAccount r)
  | .newOrder => s.servePOST r (s.serveNewOrder r)
  | .revokeCert => s.servePOST r (s.serveRevokeCert r)
  | .keyChange => s.servePOST r (s.serveKeyChange r)
  | .account id => s.servePOST r (s.serveAccount r id)
  | .accountOrders id => s.servePOST r (s.serveAccountOrders r id)
  | .order id => s.servePOST r (s.serveOrder r id)
  | .finalize id => s.servePOST r (s.serveFinalize r id)
  | .authorization id => s.servePOST r (s.serveAuthorization r id)
  | .challenge id => s.servePOST r (s.serveChallenge r id)
  | .certificate id => s.servePOST r (s.serveCertificate r id)
  | .unknown => s.writeProblem r {} notFound

/-! ## Runs -/

/-- What can be started: the handling of a request, or a round of a worker. -/
inductive Start where
  | request (r : Request)
  | worker

/-- The program behind a start. -/
def program : Start → Prog Unit
  | .request r => s.serveHTTP r
  | .worker => s.workerTurn

/-- A schedule of the server: programs are started and make their calls in any order. -/
abbrev Schedule := List (Choice Env Start)

/-- The world after a schedule, starting with an empty store and nothing running. -/
def run (schedule : Schedule) : World :=
  (Interaction.run execute s.program ⟨World.initial, []⟩ schedule).world

/-- The world after a schedule together with the programs that are running in it. -/
def config (schedule : Schedule) : Config World Call Call.Answer :=
  Interaction.run execute s.program ⟨World.initial, []⟩ schedule

end Server

/-! ## A sample server

A server with one client, small enough to be run. The client registers, orders certificates for two
names, finalizes its first order and responds to challenges; a worker issues the certificate. -/

namespace Sample

/-- The key of the client. -/
def key : PublicKey := .ed25519 [1]

/-- A message that the client has signed for the URL. -/
def message (url : String) (key : Option PublicKey) (payload : Bytes) : Message where
  nonce := "nonce"
  url := url
  keyID := "acct/alice"
  key := key
  payload := payload
  signingInput := []
  signature := []

/-- The first byte of a body says which resource it was signed for. -/
def parseJWS : Bytes → Except JWSError Message
  | 0 :: payload => .ok (message "new-account" (some key) payload)
  | 1 :: payload => .ok (message "new-order" none payload)
  | 2 :: payload => .ok (message "order/first/finalize" none payload)
  | 3 :: payload => .ok (message "revoke-cert" none payload)
  | 4 :: payload => .ok (message "chall/web" none payload)
  | 5 :: payload => .ok (message "chall/mail" none payload)
  | _ => .error ⟨none, "unknown resource"⟩

/-- Every check accepts what it is given. The payload of a new order says whether it replaces the
issued certificate, and that of a finalization which of two certificate requests it carries. -/
def library : Library where
  parseMediaType := some
  parseJWS := parseJWS
  parseInner := parseJWS
  parseMAC := parseJWS
  verify _ _ := none
  verifyMAC _ _ := none
  thumbprint _ := .ok "thumbprint"
  parseJWK _ := .ok key
  macAlgorithmsFor _ := []
  decodeNewAccount _ := .ok ⟨[], true, false, []⟩
  decodeAccountUpdate _ := .ok ⟨none, none⟩
  decodeKeyChange _ := .ok ⟨"", []⟩
  decodeNewOrder payload := .ok {
    identifiers := [⟨.dns, "web"⟩, ⟨.dns, "mail"⟩]
    notBefore := ""
    notAfter := ""
    replaces := if payload = [] then "" else "key.serial"
    profile := "" }
  decodeAuthorizationUpdate _ := .ok ⟨""⟩
  decodeChallengeResponse _ := .ok ⟨"", ""⟩
  decodeFinalize payload := .ok ⟨if payload = [] then "" else "other"⟩
  decodeRevoke _ := .ok ⟨"", none⟩
  decodeBase64 text := some (if text = "" then [7] else [8])
  parseRFC3339 _ := none
  formatRFC3339 _ := ""
  cursor := id
  queryEscape := id
  pemChain _ := []
  validateContacts _ := none
  normalize := .ok
  validNFType _ := true
  parseCertificate _ := some ⟨0, 0, some key⟩
  parseCertificateRequest _ := .ok ()
  checkCSR _ _ _ _ := none
  csrCACertificate _ := .ok false
  checkChain _ _ _ _ := .ok ⟨0, 0, some key⟩
  certificateID _ := "certificate"
  renewalID _ := "key.serial"
  revocationIdentifiers _ := .ok []

/-- A server with a limiter and a policy that approves identifiers. It allows an account one
unfinished validation. -/
def server : Server where
  toLibrary := library
  baseURL := ""
  basePath := "/"
  directoryMeta := ⟨"", "", [], false⟩
  maxBody := 10
  validators type := if type = .http01 then some .plain else none
  eabKeys := false
  singleUseEAB := false
  policyChoosesProfile := false
  policyPreApproves := true
  issuancePolicy := false
  requireTOS := false
  ipIdentifiers := false
  tnAuthList := false
  tnAuthListOutlive := false
  nfInstanceIDs := false
  tokenAuthority := ""
  renewal := true
  profiles := []
  defaultProfile := ""
  orderLifetime := 10
  authzLifetime := 10
  maxIdentifiers := 10
  maxValidations := 1
  workers := ⟨1, 10, 5, 3, 1⟩
  revocationReasons := [0]
  reasonsText := ""
  refusals := false
  limits := true

/-- What the surroundings decide while a program makes some calls. -/
structure Surroundings where
  now : Time := 1
  id : String := ""
  tasks : List Task := []
  nonceKnown : Bool := true
  limit : Option HostError := none
  preApproves : Bool := true
  revocation : Option HostError := none

/-- The answers of the surroundings to each call. -/
def Surroundings.env (x : Surroundings) : Env where
  visit := x.tasks
  host
    | .now => x.now
    | .newID => some x.id
    | .newToken => some "token"
    | .consumeNonce _ => .ok x.nonceKnown
    | .issueNonce => .ok "nonce"
    | .allow _ => x.limit
    | .macKey _ => .error .notFound
    | .reviewAccount account => (none, account)
    | .reviewOrder _ order => (none, order)
    | .preApprove _ order => (.ok (if x.preApproves then order.identifiers else []), order)
    | .chooseProfile _ => .ok ""
    | .validate .. => .ok {}
    | .authorizeIssuance _ => none
    | .issue _ => ({ chain := [[7]] }, none)
    | .revoke _ => x.revocation
    | .recordRefusal _ => none
    | .adviseRenewal _ => .error (.text "no advice")
    | .respond .. => ()

/-- Some calls of one program in the same surroundings. -/
def steps (thread n : Nat) (x : Surroundings) : Server.Schedule :=
  List.replicate n (.step thread x.env)

/-- A POST request of the client. -/
def request (path : String) (body : Bytes) : Request where
  method := .post
  path := path
  escapedPath := path
  rawQuery := ""
  forceQuery := false
  contentType := "application/jose+json"
  body := .bytes body
  client := ""

/-- The start of a program that handles a POST request of the client. -/
def post (path : String) (body : Bytes) : Server.Schedule := [.start (.request (request path body))]

/-- The client registers. -/
def register : Server.Schedule := post "/new-account" [0] ++ steps 0 9 { id := "alice" }

/-- The client orders a certificate for its two names, which the policy approves. -/
def order (thread : Nat) (payload : Bytes) (id web mail : String) (now : Time) : Server.Schedule :=
  post "/new-order" (1 :: payload) ++ steps thread (4 + payload.length) { now := now, id := id } ++
    steps thread 4 { now := now, id := web } ++ steps thread 4 { now := now, id := mail }

/-- The task that issues the first certificate. -/
def issueTask : Task where
  id := "issue"
  kind := .issue
  targetID := "first"
  accountID := "alice"
  runAt := 1
  createdAt := 1

/-- The client orders its first certificate and finalizes the order. -/
def finalize : Server.Schedule :=
  register ++ order 1 [] "first" "first-web" "first-mail" 1 ++
    post "/order/first/finalize" [2] ++ steps 2 11 { id := "issue" } ++
    steps 2 2 { tasks := [issueTask] }

/-- A worker claims the task of the finalized order. -/
def claim : Server.Schedule := finalize ++ [.start .worker] ++ steps 3 2 { tasks := [issueTask] }

/-- The task as the worker claims it. -/
def claimedTask : Task := issueTask.claimed 11

/-- The worker issues the certificate of the claimed task. -/
def issue : Server.Schedule := steps 3 12 { tasks := [claimedTask] }

/-- The client asks for the revocation of its certificate, and the revoker answers. -/
def revoke (thread n : Nat) (id : String) (revocation : Option HostError) : Server.Schedule :=
  post "/revoke-cert" [3] ++ steps thread n { id := id, revocation := revocation }

end Sample

end AcmeServer
