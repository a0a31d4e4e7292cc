import AcmeServer.Server.Order

/-!
# The background worker: validation

`worker.go`. A failed store call leaves the caller's records as they are, so the programs below go
on with the records they passed in. The phases of a task run differ only in their deadlines, and
any store call of a run may find its context ended; that is up to the environment of the call.
-/

namespace AcmeServer

open Interaction Memstore

/-- The value of a 64-bit signed integer operation. -/
def int64 (x : Int) : Int := x.bmod (2 ^ 64)

/-- The problem of a challenge whose authorization was settled before it could be validated. -/
def settledBefore (status : AuthorizationStatus) : Problem :=
  newProblem .malformed ("authorization was " ++ status.text ++ " before validation")

/-- What a validator is asked about a challenge. -/
def validationRequest (ch : Challenge) (authz : Authorization) : ValidationRequest where
  challenge := ch
  identifier := authz.identifier
  wildcard := authz.wildcard
  keyAuthorization := ch.token ++ "." ++ ch.keyThumbprint
  accountKeyThumbprint := ch.keyThumbprint
  authorityToken := ch.authorityToken

namespace Server

variable (s : Server)

/-! ## Releasing and dropping tasks -/

/-- The rounds of the backoff loop that are left, and the delay so far. -/
def backoff (bound : Duration) : Nat → Duration → Duration
  | 0, delay => delay
  | rounds + 1, delay =>
      if delay < bound then backoff bound rounds (int64 (delay * 2)) else delay

/-- The exponential backoff before the next attempt of a task. -/
def retryDelay (task : Task) : Duration :=
  backoff (int64 (32 * s.workers.retryDelay)) (task.attempts - 1) s.workers.retryDelay

/-- Stores a rescheduled task. -/
def storeReschedule (task : Task) : Prog Unit := do
  let _ ← callStore (.rescheduleTask task)
  pure ()

/-- Releases the task for a later attempt with exponential backoff. -/
def reschedule (task : Task) : Prog Unit := do
  let now ← ask .now
  storeReschedule { task with runAt := now + s.retryDelay task }

/-- Removes a task that has nothing left to do. -/
def finishTask (task : Task) : Prog Unit := do
  let _ ← callStore (.finishTask task)
  pure ()

/-- Drops a task whose target vanished and releases one whose lookup failed for another reason. -/
def dropOnNotFound (task : Task) (err : StoreError) : Prog Unit :=
  if err = .notFound then finishTask task else s.reschedule task

/-! ## Validation -/

/-- Normalizes the names a validator granted and refuses any that a certificate request cannot add
to an order. -/
def checkGrant (grant : ValidationGrant) : Except HostError ValidationGrant := do
  if grant.nfType ≠ "" ∧ s.validNFType grant.nfType = false then
    throw (.problem (newProblem .serverInternal "the validator granted an invalid NF type"))
  let names ← grant.names.foldlM (fun names name =>
    match s.normalize name with
    | .ok id =>
        if id.type = .dns ∨ id.type = .ip ∨ id.type = .uri then
          .ok (if id ∈ names then names else names ++ [id])
        else .error (HostError.problem
          (newProblem .serverInternal "the validator granted an unusable name"))
    | .error _ => .error (HostError.problem
        (newProblem .serverInternal "the validator granted an unusable name"))) []
  pure { grant with names := names }

/-- Runs a validator and reports what the response authorizes. -/
def validate (kind : ValidatorKind) (type : ChallengeType) (req : ValidationRequest) :
    Prog (Except HostError ValidationGrant) := do
  let result ← ask (.validate type req)
  match kind with
  | .plain => pure (result.map fun _ => {})
  | .granting => pure (result >>= s.checkGrant)

/-- Loads the challenge, authorization and account of a validation task if a proof is still
needed. -/
def validationTargets (task : Task) : Prog (Option (Challenge × Authorization × Account)) := do
  match ← fetch (.challenge task.targetID) with
  | .error err => do
      s.dropOnNotFound task err
      pure none
  | .ok ch =>
      if ch.status ≠ .processing then do
        finishTask task
        pure none
      else
        match ← fetch (.authorization ch.authorizationID) with
        | .error err => do
            s.dropOnNotFound task err
            pure none
        | .ok authz =>
            match ← fetch (.account ch.accountID) with
            | .error err => do
                s.dropOnNotFound task err
                pure none
            | .ok account => pure (some (ch, authz, account))

/-- Commits a validation result, deriving the order status from every authorization. A concurrent
change to the order or authorization is reloaded and retried in the rounds that are left. -/
def completeValidation (task : Task) : Nat → Challenge → Authorization → Prog Unit
  | 0, _, _ => s.reschedule task
  | rounds + 1, ch, authz => do
      match ← fetch (.order authz.orderID) with
      | .error err => s.dropOnNotFound task err
      | .ok order =>
          match ← deriveOrderStatus order (some authz) with
          | .error _ => s.reschedule task
          | .ok status => do
              let reply ← callStore (.completeValidation {
                task := task
                challenge := ch
                authz := authz
                order := if order.status = .pending ∧ status ≠ .pending then
                    { order with status := status }
                  else order })
              match reply.result with
              | .ok () => pure ()
              | .error .revisionMismatch =>
                  match ← fetch (.authorization authz.id) with
                  | .error err => s.dropOnNotFound task err
                  | .ok current => do
                      let now ← ask .now
                      let status := effectiveAuthzStatus current now
                      if status ≠ .pending then
                        completeValidation task rounds
                          { ch with
                            status := .invalid
                            validated := 0
                            error := some (settledBefore status) } current
                      else
                        completeValidation task rounds ch
                          { authz with revision := current.revision }
              | .error _ => s.reschedule task

/-- Stores the error of a failed attempt on the processing challenge and releases the task. A
challenge that changed meanwhile is left alone. -/
def retryValidation (task : Task) (ch : Challenge) (now : Time) : Prog Unit := do
  let task := { task with runAt := now + s.retryDelay task }
  let reply ← callStore (.retryValidation ⟨task, ch⟩)
  match reply.result with
  | .error .revisionMismatch => storeReschedule task
  | _ => pure ()

/-- Settles a challenge as invalid together with its authorization. -/
def refuseValidation (task : Task) (ch : Challenge) (authz : Authorization) (p : Problem) :
    Prog Unit :=
  s.completeValidation task 3 { ch with status := .invalid, error := some p }
    { authz with status := .invalid }

/-- Records the outcome of a validator call that ended at the given time. -/
def settleValidation (task : Task) (ch : Challenge) (authz : Authorization) (now : Time) :
    Except HostError ValidationGrant → Prog Unit
  | .ok grant =>
      s.completeValidation task 3
        { ch with status := .valid, validated := now, error := none }
        { authz with
          status := .valid
          expires := now + s.authzLifetime
          caCertificate := grant.caCertificate
          grantExpires := grant.expires
          grantNames := grant.names
          grantNFType := grant.nfType }
  | .error err =>
      match err.asProblem with
      | some p => s.refuseValidation task ch authz p
      | none =>
          if task.attempts < s.workers.maxAttempts ∧ now < authz.expires then
            s.retryValidation task
              { ch with
                error := some (retryProblem err
                  "validation attempt failed and will be retried") } now
          else
            s.refuseValidation task ch authz
              (retryProblem err "validation could not be completed")

/-- Validates a challenge and records the result on the challenge, its authorization and its
order. -/
def runValidation (task : Task) : Prog Unit := do
  let some (ch, authz, account) ← s.validationTargets task | pure ()
  let now ← ask .now
  let status := effectiveAuthzStatus authz now
  if status ≠ .pending then
    s.completeValidation task 3
      { ch with status := .invalid, error := some (settledBefore status) } authz
  else if account.status ≠ .valid then
    s.refuseValidation task ch authz (newProblem .unauthorized "account is no longer valid")
  else
    match s.validators ch.type with
    | none =>
        s.refuseValidation task ch authz
          (newProblem .serverInternal "no validator is configured for this challenge type")
    | some kind => do
        let result ← s.validate kind ch.type (validationRequest ch authz)
        let now ← ask .now
        -- A validator that ran past the authorization proves nothing, whatever it returned.
        s.settleValidation task ch authz now
          (if now < authz.expires then result
            else .error (.problem
              (newProblem .unauthorized "authorization expired during validation")))

end Server

end AcmeServer
