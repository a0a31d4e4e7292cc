import AcmeServer.Server.System

/-!
# Answers to clients

The wire forms of the resources (`wire.go`), the response writers and the problem helpers
(`server.go`, `wire.go`, `account.go`), and the rate limit check (`limit.go`). Log output is left
out throughout: nothing reads it.
-/

namespace AcmeServer

open Interaction Memstore

/-! ## Problems -/

/-- The problem for an unknown resource path. -/
def notFound : Problem := (newProblem .malformed "unknown resource").withStatus 404

/-- The problem for a store failure. -/
def storeProblem (err : StoreError) (resource : String) : Problem :=
  if err = .notFound then notFound else newProblem .serverInternal (resource ++ " lookup failed")

/-- Maps an error from a host interface to a problem. A problem passes through. -/
def hostProblem (err : Option HostError) (what : String) : Option Problem :=
  err.map fun e => e.asProblem.getD (newProblem .serverInternal (what ++ " failed"))

/-- The result of decoding a request payload. -/
def decodePayload {α : Type} (result : Except String α) : Except Problem α :=
  result.mapError fun text => newProblem .malformed ("request payload: " ++ text)

namespace Server

variable (s : Server)

/-! ## Wire forms -/

/-- The RFC 3339 form of a time, or an empty string for the zero time. -/
def formatTime (t : Time) : String := if t = 0 then "" else s.formatRFC3339 t

/-- The wire form of an account. -/
def accountView (account : Account) : AccountView where
  status := account.status
  contact := account.contact
  termsOfServiceAgreed := account.termsOfServiceAgreed
  orders := s.accountURL account.id ++ "/orders"

/-- The wire form of an order at the given time. -/
def orderView (order : Order) (now : Time) : OrderView where
  status := order.statusAt now
  expires := s.formatTime order.expires
  identifiers := order.identifiers
  notBefore := s.formatTime order.notBefore
  notAfter := s.formatTime order.notAfter
  error := order.error
  authorizations := order.authorizationIDs.map fun id => s.resourceURL ("authz/" ++ id)
  finalize := s.resourceURL ("order/" ++ order.id ++ "/finalize")
  certificate :=
    if order.certificateID ≠ "" ∧ order.statusAt now = .valid then
      s.resourceURL ("cert/" ++ order.certificateID)
    else ""
  replaces := order.replaces
  profile := order.profile

/-- The wire form of a challenge. -/
def challengeView (ch : Challenge) : ChallengeView where
  type := ch.type
  url := s.resourceURL ("chall/" ++ ch.id)
  status := ch.status
  token := ch.token
  tkAuthType := if ch.type = .tkAuth01 then "atc" else ""
  tokenAuthority := if ch.type = .tkAuth01 then s.tokenAuthority else ""
  validated := s.formatTime ch.validated
  error := ch.error

/-- The wire form of an authorization. A valid one lists only the challenge that validated it. -/
def authorizationView (authz : Authorization) (challenges : List Challenge) (now : Time) :
    AuthorizationView where
  identifier := authz.identifier
  status := effectiveAuthzStatus authz now
  expires := s.formatTime authz.expires
  challenges := (challenges.filter fun ch =>
    ¬ (effectiveAuthzStatus authz now = .valid ∧ ch.status ≠ .valid)).map s.challengeView
  wildcard := authz.wildcard

/-! ## Host checks -/

/-- Asks the limiter about a request. -/
def checkLimit (req : LimitRequest) : Prog (Option Problem) :=
  if s.limits then do
    let err ← ask (.allow req)
    pure (hostProblem err "rate limit check")
  else pure none

/-- Tells the recorder about a refused request. A serverInternal problem is left to the log. -/
def recordRefusal (refusal : Refusal) (p : Problem) : Prog Unit :=
  if s.refusals = false ∨ p.type = .serverInternal then pure ()
  else do
    let _ ← ask (.recordRefusal { refusal with problem := some p })
    pure ()

/-! ## Writing responses -/

/-- The headers every non-directory response carries. -/
def commonHeaders (header : Header) : Header :=
  (header.put "Cache-Control" "no-store").add "Link"
    ("<" ++ s.resourceURL "directory" ++ ">;rel=\"index\"")

/-- Attaches a fresh nonce. A failure leaves the response unchanged. -/
def addNonce (header : Header) : Prog Header := do
  match ← ask .issueNonce with
  | .ok nonce => pure (header.put "Replay-Nonce" nonce)
  | .error _ => pure header

/-- A waiting time in whole seconds, rounded up. -/
def retryAfterSeconds (d : Duration) : String := toString ((d + 999999999) / 1000000000)

/-- Writes a problem document with the index link and no nonce. -/
def writeProblemWithoutNonce (r : Request) (header : Header) (p : Problem) : Prog Unit :=
  let header := s.commonHeaders header
  let header :=
    if 0 < p.retryAfter then header.put "Retry-After" (retryAfterSeconds p.retryAfter) else header
  ask (.respond r
    ⟨p.httpStatus, header.put "Content-Type" "application/problem+json", .problem p⟩)

/-- Writes a problem document with the index link and a fresh nonce. A request that spent no nonce
gets one only when the limiter allows it. -/
def writeProblem (r : Request) (st : RequestState) (p : Problem) : Prog Unit := do
  let refusal ←
    if st.nonceSpent then pure none
    else s.checkLimit { kind := .newNonce, client := r.client }
  match refusal with
  | some refusal =>
      s.writeProblemWithoutNonce r st.header (if p.type = .badNonce then refusal else p)
  | none => do
      let header ← addNonce st.header
      s.writeProblemWithoutNonce r header p

/-- Writes a response with the common headers and a fresh nonce. -/
def write (r : Request) (status : Int) (contentType : Option String) (body : Body) :
    Handler Unit := do
  let st ← get
  let header ← addNonce (s.commonHeaders st.header)
  let header := match contentType with
    | some type => header.put "Content-Type" type
    | none => header
  ask (.respond r ⟨status, header, body⟩)

/-- Writes a JSON resource with the common headers and a fresh nonce. -/
def writeJSON (r : Request) (status : Int) (body : Body) : Handler Unit :=
  s.write r status (some "application/json") body

/-- The seconds clients should wait before polling a processing resource again. -/
def processingRetryAfter : String := "3"

/-- Writes an order with its URL and asks processing clients to poll later. -/
def writeOrder (r : Request) (status : Int) (order : Order) (now : Time) : Handler Unit := do
  setHeader "Location" (s.resourceURL ("order/" ++ order.id))
  let view := s.orderView order now
  if view.status = .processing then setHeader "Retry-After" processingRetryAfter
  s.writeJSON r status (.order view)

/-- Writes a challenge and asks clients to poll a processing one later. -/
def writeChallenge (r : Request) (ch : Challenge) : Handler Unit := do
  if ch.status = .processing then setHeader "Retry-After" processingRetryAfter
  s.writeJSON r 200 (.challenge (s.challengeView ch))

/-- Runs a handler and answers with the problem if it refused the request. -/
def answer (r : Request) (handler : Handler Unit) : Prog Unit := do
  let (outcome, st) ← handler.start {}
  match outcome with
  | .ok () => pure ()
  | .error p => s.writeProblem r st p

end Server

end AcmeServer
