import AcmeServer.Memstore.State

/-!
# The operations of the in-memory store

Each definition is the method of `memstore.Store` with the same name, statement by statement. The
records a caller passes by pointer are the `args` of the frame. The source holds the store's lock
around the body of every method, so an operation is one step of the system.

`ctx` is the error of the call's context, if it has ended. `visit` is the order in which `ClaimTask`
and the counting methods range over the task map.
-/

namespace AcmeServer

/-! ## What the operations do to a single record -/

/-- The account as a revision-checked write stores it. -/
@[simps] def Account.revised (a : Account) : Account := { a with revision := a.revision + 1 }

/-- The order as a revision-checked write stores it. -/
@[simps] def Order.revised (o : Order) : Order := { o with revision := o.revision + 1 }

/-- The authorization as a revision-checked write stores it. -/
@[simps] def Authorization.revised (a : Authorization) : Authorization :=
  { a with revision := a.revision + 1 }

/-- The challenge as a revision-checked write stores it. -/
@[simps] def Challenge.revised (c : Challenge) : Challenge := { c with revision := c.revision + 1 }

/-- The certificate as a revision-checked write stores it. -/
@[simps] def Certificate.revised (c : Certificate) : Certificate :=
  { c with revision := c.revision + 1 }

/-- The task as `insertTask` stores it. -/
@[simps] def Task.enqueued (task : Task) : Task :=
  { task with fence := 0, attempts := 0, leaseUntil := 0 }

/-- The task after a claim. -/
@[simps] def Task.claimed (task : Task) (leaseUntil : Time) : Task :=
  { task with leaseUntil := leaseUntil, fence := task.fence + 1, attempts := task.attempts + 1 }

/-- The task after its lease was given up. -/
@[simps] def Task.released (task : Task) (runAt : Time) : Task :=
  { task with runAt := runAt, leaseUntil := 0 }

/-- Whether the task may be claimed at the given time. -/
def Task.claimable (task : Task) (now : Time) : Prop :=
  ¬ (now < task.runAt ∨ (task.leaseUntil ≠ 0 ∧ now < task.leaseUntil))

instance (task : Task) (now : Time) : Decidable (task.claimable now) :=
  inferInstanceAs (Decidable (¬ _))

/-- The order after one of its authorizations has become terminal: invalid, unless issuance was
dispatched or the order is already settled. -/
def Order.invalidated (o : Order) : Order :=
  if o.status = .pending ∨ o.status = .ready ∨ (o.status = .processing ∧ o.issuance = none) then
    { o.revised with status := .invalid, error := some invalidAuthorizationProblem }
  else o

namespace Memstore

open Transaction

variable {A V : Type}

/-! ## Checks and shared updates -/

/-- The shared form of `checkOrder`, `checkAuthorization` and `checkChallenge`: the resource
exists at the given revision. -/
def checkRevision (stored : Option V) (revisionOf : V → Nat) (revision : Nat) : Op A Unit := do
  let current ← getOr stored .notFound
  failIf (revisionOf current ≠ revision) .revisionMismatch

/-- Checks that the order exists at the given revision. -/
def checkOrder (order : Order) : Op A Unit := do
  let s ← getStore
  checkRevision (s.orders.lookup order.id) Order.revision order.revision

/-- Checks that the authorization exists at the given revision. -/
def checkAuthorization (authz : Authorization) : Op A Unit := do
  let s ← getStore
  checkRevision (s.authzs.lookup authz.id) Authorization.revision authz.revision

/-- Checks that the challenge exists at the given revision. -/
def checkChallenge (challenge : Challenge) : Op A Unit := do
  let s ← getStore
  checkRevision (s.challenges.lookup challenge.id) Challenge.revision challenge.revision

/-- Checks that a task can be enqueued. -/
def checkNewTask (task : Task) : Op A Unit := do
  failIf (task.id = "") (.text "memstore: task needs an ID")
  let s ← getStore
  failIf (s.tasks.lookup task.id ≠ none) .conflict

/-- Returns the stored task when the fence matches. -/
def checkTask (task : Task) : Op A Task := do
  let s ← getStore
  let stored ← getOr (s.tasks.lookup task.id) .notFound
  failIf (stored.fence ≠ task.fence) .revisionMismatch
  pure stored

/-- Stores an account under its ID. -/
@[simps] def Store.putAccount (s : Store) (a : Account) : Store :=
  { s with accounts := s.accounts.insert a.id a }

/-- Stores an order under its ID. -/
@[simps] def Store.putOrder (s : Store) (o : Order) : Store :=
  { s with orders := s.orders.insert o.id o }

/-- Stores an authorization under its ID. -/
@[simps] def Store.putAuthorization (s : Store) (a : Authorization) : Store :=
  { s with authzs := s.authzs.insert a.id a }

/-- Stores a challenge under its ID. -/
@[simps] def Store.putChallenge (s : Store) (c : Challenge) : Store :=
  { s with challenges := s.challenges.insert c.id c }

/-- Stores a certificate under its ID. -/
@[simps] def Store.putCertificate (s : Store) (c : Certificate) : Store :=
  { s with certificates := s.certificates.insert c.id c }

/-- Stores a new task in insertion order. -/
@[simps] def Store.insertTask (s : Store) (task : Task) : Store :=
  { s with
    taskSequence := s.taskSequence + 1
    taskInsertion := s.taskInsertion.insert task.id (s.taskSequence + 1)
    tasks := s.tasks.insert task.id task }

/-- Deletes a task and its ordering record. -/
@[simps] def Store.removeTask (s : Store) (id : String) : Store :=
  { s with tasks := s.tasks.erase id, taskInsertion := s.taskInsertion.erase id }

/-- Replaces the task stored under the ID. -/
@[simps] def Store.putTask (s : Store) (id : String) (task : Task) : Store :=
  { s with tasks := s.tasks.insert id task }

/-- Returns the index key for the complete scope of an authorization. -/
def authorizationIndexKey (a : Authorization) : AuthorizationKey :=
  { accountID := a.accountID
    identifier :=
      if a.wildcard then { a.identifier with value := "*." ++ a.identifier.value }
      else a.identifier }

/-! ## Accounts -/

/-- Stores a copy of the account with revision 1. -/
def createAccount (ctx : Option ContextError) : Op Account Unit := do
  checkContext ctx
  let account ← getArgs
  failIf (account.id = "" ∨ account.keyThumbprint = "")
    (.text "memstore: account needs an ID and a key thumbprint")
  let s ← getStore
  failIf (s.accounts.lookup account.id ≠ none) .conflict
  failIf (s.accountByKey.lookup account.keyThumbprint ≠ none) .conflict
  failIf (s.accountByClaim.lookup account.externalAccountClaim ≠ none ∧
    account.externalAccountClaim ≠ "") .conflict
  modifyArgs fun account => { account with revision := 1 }
  let account ← getArgs
  modifyStore fun s => { s.putAccount account with
    accountByKey := s.accountByKey.insert account.keyThumbprint account.id
    accountByClaim :=
      if account.externalAccountClaim ≠ "" then
        s.accountByClaim.insert account.externalAccountClaim account.id
      else s.accountByClaim }

/-- Returns a copy of the account with the given ID. -/
def account (ctx : Option ContextError) (id : String) : Op Unit Account := do
  checkContext ctx
  let s ← getStore
  getOr (s.accounts.lookup id) .notFound

/-- Returns a copy of the account whose key has the given thumbprint. -/
def accountByKey (ctx : Option ContextError) (thumbprint : String) : Op Unit Account := do
  checkContext ctx
  let s ← getStore
  let id ← getOr (s.accountByKey.lookup thumbprint) .notFound
  getOr (s.accounts.lookup id) .nilPointer

/-- Replaces the stored account when the revision matches. -/
def updateAccount (ctx : Option ContextError) : Op Account Unit := do
  checkContext ctx
  let account ← getArgs
  failIf (account.keyThumbprint = "") (.text "memstore: account needs a key thumbprint")
  let s ← getStore
  let stored ← getOr (s.accounts.lookup account.id) .notFound
  failIf (stored.revision ≠ account.revision) .revisionMismatch
  failIf (account.keyThumbprint ≠ stored.keyThumbprint ∧
    ∃ owner ∈ s.accountByKey.lookup account.keyThumbprint, owner ≠ account.id) .conflict
  failIf ((account.externalAccountClaim ≠ stored.externalAccountClaim ∧
      account.externalAccountClaim ≠ "") ∧
    ∃ owner ∈ s.accountByClaim.lookup account.externalAccountClaim, owner ≠ account.id) .conflict
  modifyStore fun s => { s with
    accountByKey := (s.accountByKey.erase stored.keyThumbprint).insert account.keyThumbprint
      account.id
    accountByClaim :=
      if account.externalAccountClaim ≠ "" then
        (s.accountByClaim.erase stored.externalAccountClaim).insert account.externalAccountClaim
          account.id
      else s.accountByClaim.erase stored.externalAccountClaim }
  modifyArgs Account.revised
  let account ← getArgs
  modifyStore fun s => s.putAccount account

/-! ## Orders -/

/-- The records of a `CreateOrder` call. -/
structure NewOrder where
  order : Order
  authzs : List Authorization
  challenges : List Challenge

/-- Every record at revision 1. -/
def NewOrder.initial (n : NewOrder) : NewOrder where
  order := { n.order with revision := 1 }
  authzs := n.authzs.map fun a => { a with revision := 1 }
  challenges := n.challenges.map fun c => { c with revision := 1 }

/-- Adds an authorization and its index entry. -/
@[simps!] def Store.addAuthorization (s : Store) (a : Authorization) : Store :=
  { s.putAuthorization a with
    authzIndex := s.authzIndex.insert (authorizationIndexKey a)
      ((s.authzIndex.lookup (authorizationIndexKey a)).getD [] ++ [a.id]) }

/-- Adds an order and lists it under its account. -/
@[simps!] def Store.addOrder (s : Store) (o : Order) : Store :=
  { s.putOrder o with
    orderIDs := s.orderIDs.insert o.accountID ((s.orderIDs.lookup o.accountID).getD [] ++ [o.id]) }

/-- Marks the certificate the order replaces unless a live order already replaced it. -/
def claimReplacement (order : Order) : Op A Unit := do
  let s ← getStore
  let id ← getOr (s.certByRenewal.lookup order.replaces) .notFound
  let cert ← getOr (s.certificates.lookup id) .nilPointer
  failIf (∃ previous ∈ s.orders.lookup cert.replacedByOrderID,
    previous.statusAt order.createdAt ≠ .invalid) .alreadyReplaced
  -- Again a write through the pointer found in the map.
  modifyStore fun s => { s with
    certificates := s.certificates.insert id { cert.revised with replacedByOrderID := order.id } }

/-- Claims the replacement an order asks for, if it asks for one. -/
def claimReplaced (order : Order) : Op A Unit :=
  if order.replaces ≠ "" then claimReplacement order else pure ()

/-- Stores the order, its authorizations and its challenges at revision 1. -/
def createOrder (ctx : Option ContextError) : Op NewOrder Unit := do
  checkContext ctx
  let new ← getArgs
  failIf (new.order.id = "" ∨ new.order.accountID = "")
    (.text "memstore: order needs an ID and an account ID")
  let s ← getStore
  failIf (s.orders.lookup new.order.id ≠ none) .conflict
  forEach (fun a => failIf (s.authzs.lookup a.id ≠ none ∨ a.id = "") .conflict) new.authzs
  forEach (fun c => failIf (s.challenges.lookup c.id ≠ none ∨ c.id = "") .conflict)
    new.challenges
  claimReplaced new.order
  modifyArgs NewOrder.initial
  let new ← getArgs
  modifyStore fun s => s.addOrder new.order
  modifyStore fun s => new.authzs.foldl Store.addAuthorization s
  modifyStore fun s => new.challenges.foldl Store.putChallenge s

/-- Returns a copy of the order with the given ID. -/
def order (ctx : Option ContextError) (id : String) : Op Unit Order := do
  checkContext ctx
  let s ← getStore
  getOr (s.orders.lookup id) .notFound

/-- Returns up to limit order IDs of the account after the given ID. -/
def orderIDs (ctx : Option ContextError) (accountID after : String) (limit : Int) :
    Op Unit (List String) := do
  checkContext ctx
  failIf (limit ≤ 0) (.text "memstore: limit must be positive")
  let s ← getStore
  let ids := (s.orderIDs.lookup accountID).getD []
  if after ≠ "" then
    let pos ← getOr (ids.findIdx? (· == after)) .notFound
    pure ((ids.drop (pos + 1)).take limit.toNat)
  else
    pure (ids.take limit.toNat)

/-! ## Authorizations, challenges and certificates -/

/-- Returns a copy of the authorization with the given ID. -/
def authorization (ctx : Option ContextError) (id : String) : Op Unit Authorization := do
  checkContext ctx
  let s ← getStore
  getOr (s.authzs.lookup id) .notFound

/-- Invalidates the order of an authorization that has become terminal. -/
def Store.invalidateOrder (s : Store) (authz : Authorization) : Store :=
  if authz.status.terminal then
    match s.orders.lookup authz.orderID with
    | some order => { s with orders := s.orders.insert authz.orderID order.invalidated }
    | none => s
  else s

/-- Replaces the stored authorization when the revision matches and invalidates an order that has
not dispatched issuance. -/
def updateAuthorization (ctx : Option ContextError) : Op Authorization Unit := do
  checkContext ctx
  let authz ← getArgs
  checkAuthorization authz
  modifyArgs Authorization.revised
  let authz ← getArgs
  modifyStore fun s => s.putAuthorization authz
  modifyStore fun s => s.invalidateOrder authz

/-- Looks for a valid, not pre-approved and unexpired authorization among the indexed ones. -/
def anyAuthorized (s : Store) (now : Time) : List String → Op A Bool
  | [] => pure false
  | id :: rest => do
      let a ← getOr (s.authzs.lookup id) .nilPointer
      if a.status = .valid ∧ a.preApproved = false ∧ now < a.expires then pure true
      else anyAuthorized s now rest

/-- Runs through the identifiers and stops at the first one without an authorization. -/
def allAuthorized (s : Store) (accountID : String) (now : Time) : List Identifier → Op A Bool
  | [] => pure true
  | identifier :: rest => do
      let valid ← anyAuthorized s now ((s.authzIndex.lookup ⟨accountID, identifier⟩).getD [])
      if valid then allAuthorized s accountID now rest else pure false

/-- Checks every identifier against one consistent snapshot of current authorization state. -/
def authorizedFor (ctx : Option ContextError) (accountID : String) (identifiers : List Identifier)
    (now : Time) : Op Unit Bool := do
  checkContext ctx
  let s ← getStore
  match s.accounts.lookup accountID with
  | some account =>
      if account.status ≠ .valid ∨ identifiers.length = 0 then pure false
      else allAuthorized s accountID now identifiers
  | none => pure false

/-- Returns a copy of the challenge with the given ID. -/
def challenge (ctx : Option ContextError) (id : String) : Op Unit Challenge := do
  checkContext ctx
  let s ← getStore
  getOr (s.challenges.lookup id) .notFound

/-- Returns a copy of the certificate with the given ID. -/
def certificate (ctx : Option ContextError) (id : String) : Op Unit Certificate := do
  checkContext ctx
  let s ← getStore
  getOr (s.certificates.lookup id) .notFound

/-- Returns a copy of the certificate with the given renewal identifier. -/
def certificateByRenewalID (ctx : Option ContextError) (renewalID : String) :
    Op Unit Certificate := do
  checkContext ctx
  let s ← getStore
  let id ← getOr (s.certByRenewal.lookup renewalID) .notFound
  failIf (renewalID = "") .notFound
  getOr (s.certificates.lookup id) .nilPointer

/-- Replaces the stored certificate when the revision matches. -/
def updateCertificate (ctx : Option ContextError) : Op Certificate Unit := do
  checkContext ctx
  let cert ← getArgs
  let s ← getStore
  checkRevision (s.certificates.lookup cert.id) Certificate.revision cert.revision
  modifyArgs Certificate.revised
  let cert ← getArgs
  modifyStore fun s => s.putCertificate cert

/-! ## Accepting work -/

/-- The records of an `AcceptChallenge` call. -/
structure Response where
  challenge : Challenge
  task : Task

/-- Stores the challenge and enqueues the task together. -/
def acceptChallenge (ctx : Option ContextError) : Op Response Unit := do
  checkContext ctx
  let r ← getArgs
  checkChallenge r.challenge
  checkNewTask r.task
  modifyArgs fun r => { challenge := r.challenge.revised, task := r.task.enqueued }
  let r ← getArgs
  modifyStore fun s => (s.putChallenge r.challenge).insertTask r.task

/-- The records of a `FinalizeOrder` call. -/
structure Finalization where
  order : Order
  task : Task

/-- Stores the order and enqueues the task together. -/
def finalizeOrder (ctx : Option ContextError) : Op Finalization Unit := do
  checkContext ctx
  let f ← getArgs
  checkOrder f.order
  checkNewTask f.task
  modifyArgs fun f => { order := f.order.revised, task := f.task.enqueued }
  let f ← getArgs
  modifyStore fun s => (s.putOrder f.order).insertTask f.task

/-! ## Claiming and completing work -/

/-- One round of the loop of `ClaimTask`: the better of the best task so far and the next one. -/
def claimRound (s : Store) (now : Time) (best : Option Task) (t : Task) : Option Task :=
  if t.claimable now then
    match best with
    | none => some t
    | some b =>
        if t.runAt < b.runAt ∨ (t.runAt = b.runAt ∧
            (s.taskInsertion.lookup t.id).getD 0 < (s.taskInsertion.lookup b.id).getD 0) then some t
        else some b
  else best

/-- Leases the runnable task with the earliest RunAt. -/
def claimTask (ctx : Option ContextError) (visit : List Task) (now leaseUntil : Time) :
    Op Unit Task := do
  checkContext ctx
  let s ← getStore
  let best ← getOr (visit.foldl (claimRound s now) none) .notFound
  -- The source writes through the pointer it found in the map; a task is stored under its ID.
  modifyStore fun s => s.putTask best.id (best.claimed leaseUntil)
  pure (best.claimed leaseUntil)

/-- Releases the lease and stores the next run time. -/
def rescheduleTask (ctx : Option ContextError) : Op Task Unit := do
  checkContext ctx
  let task ← getArgs
  let stored ← checkTask task
  modifyStore fun s => s.putTask task.id (stored.released task.runAt)
  modifyArgs fun task => { task with leaseUntil := 0 }

/-- The records of a `RetryValidation` call. -/
structure Retry where
  task : Task
  challenge : Challenge

/-- Stores the challenge of a validation attempt that will be retried and releases the lease
together. -/
def retryValidation (ctx : Option ContextError) : Op Retry Unit := do
  checkContext ctx
  let r ← getArgs
  let stored ← checkTask r.task
  checkChallenge r.challenge
  modifyArgs fun r => { r with challenge := r.challenge.revised }
  let r ← getArgs
  modifyStore fun s =>
    (s.putChallenge r.challenge).putTask r.task.id (stored.released r.task.runAt)
  modifyArgs fun r => { r with task := { r.task with leaseUntil := 0 } }

/-- Removes the task. -/
def finishTask (ctx : Option ContextError) : Op Task Unit := do
  checkContext ctx
  let task ← getArgs
  let _ ← checkTask task
  modifyStore fun s => s.removeTask task.id

/-- The records of a `CompleteValidation` call. -/
structure ValidationOutcome where
  task : Task
  challenge : Challenge
  authz : Authorization
  order : Order

/-- Stores the validation outcome and removes the task together. -/
def completeValidation (ctx : Option ContextError) : Op ValidationOutcome Unit := do
  checkContext ctx
  let v ← getArgs
  let _ ← checkTask v.task
  checkChallenge v.challenge
  checkAuthorization v.authz
  checkOrder v.order
  modifyArgs fun v => { v with
    challenge := v.challenge.revised
    authz := v.authz.revised
    order := v.order.revised }
  let v ← getArgs
  modifyStore fun s =>
    (((s.putChallenge v.challenge).putAuthorization v.authz).putOrder v.order).removeTask v.task.id

/-- The records of a `BeginIssuance` call. -/
structure Dispatch where
  task : Task
  order : Order
  account : Account
  authzs : List Authorization

/-- Records a fenced dispatch only while the account, order and authorizations match the checked
snapshot. -/
def beginIssuance (ctx : Option ContextError) : Op Dispatch Unit := do
  checkContext ctx
  let d ← getArgs
  let _ ← checkTask d.task
  checkOrder d.order
  let s ← getStore
  let account ← getOr (s.accounts.lookup d.account.id) .revisionMismatch
  failIf (account.revision ≠ d.account.revision ∨ account.status ≠ .valid) .revisionMismatch
  let state ← getOr d.order.issuance .revisionMismatch
  let stored ← getOr (s.orders.lookup d.order.id) .nilPointer
  failIf (stored.status ≠ .processing ∨ stored.issuance ≠ none ∨
    d.authzs.length ≠ d.order.authorizationIDs.length) .revisionMismatch
  forEach (fun p => do
      checkAuthorization p.1
      failIf (p.1.id ≠ p.2 ∨ p.1.status ≠ .valid ∨ ¬ state.authorizedAt < p.1.expires)
        .revisionMismatch)
    (d.authzs.zip d.order.authorizationIDs)
  modifyArgs fun d => { d with order := d.order.revised }
  let d ← getArgs
  modifyStore fun s => s.putOrder d.order

/-- The records of a `CompleteIssuance` call. -/
structure IssuanceOutcome where
  task : Task
  order : Order
  cert : Option Certificate

/-- Adds a certificate and its renewal identifier. -/
@[simps!] def Store.addCertificate (s : Store) (cert : Certificate) : Store :=
  { s.putCertificate cert with
    certByRenewal :=
      if cert.renewalID ≠ "" then s.certByRenewal.insert cert.renewalID cert.id
      else s.certByRenewal }

/-- Checks and stores the certificate of a successful issuance. -/
def publish : Option Certificate → Op IssuanceOutcome Unit
  | some cert => do
      failIf (cert.id = "") (.text "memstore: certificate needs an ID")
      let s ← getStore
      failIf (s.certificates.lookup cert.id ≠ none) .conflict
      failIf (s.certByRenewal.lookup cert.renewalID ≠ none ∧ cert.renewalID ≠ "") .conflict
      modifyArgs fun i => { i with cert := some { cert with revision := 1 } }
      modifyStore fun s => s.addCertificate { cert with revision := 1 }
  | none => pure ()

/-- Stores the issuance outcome and removes the task together. -/
def completeIssuance (ctx : Option ContextError) : Op IssuanceOutcome Unit := do
  checkContext ctx
  let i ← getArgs
  let _ ← checkTask i.task
  checkOrder i.order
  publish i.cert
  modifyArgs fun i => { i with order := i.order.revised }
  let i ← getArgs
  modifyStore fun s => (s.putOrder i.order).removeTask i.task.id

/-! ## Counting work -/

/-- Counts runnable tasks without an active lease. -/
def pendingTasks (ctx : Option ContextError) (visit : List Task) (before : Time) : Op Unit Nat := do
  checkContext ctx
  pure (visit.countP fun t =>
    ¬ before < t.runAt ∧ (t.leaseUntil = 0 ∨ ¬ before < t.leaseUntil))

/-- Counts tasks under a lease that ends after the given time. -/
def leasedTasks (ctx : Option ContextError) (visit : List Task) (now : Time) : Op Unit Nat := do
  checkContext ctx
  pure (visit.countP fun t => now < t.leaseUntil)

/-- Counts the unfinished validation tasks of an account. -/
def accountValidations (ctx : Option ContextError) (visit : List Task) (accountID : String) :
    Op Unit Nat := do
  checkContext ctx
  pure (visit.countP fun t => t.kind = .validate ∧ t.accountID = accountID)

end Memstore

end AcmeServer
