import AcmeServer.Lifecycle.Machine
import AcmeServer.Protocol.Record
import AcmeServer.Server.Routes

/-!
# What the programs of the server promise each other

The store checks revisions and fences and nothing else. That its contents make sense is up to the
programs that call it: `Permitted` says, call by call, what they may write. Most conditions are
conditional on the presented revision or fence being the stored one, because the store refuses the
call otherwise (`IfCurrent`).

`Invariant` is what holds between any two calls as a result. It speaks about the store and about
the history of calls, so that a statement such as "the issuer was only asked after a dispatch" is
part of it.
-/

namespace AcmeServer.Protocol

open Memstore Lifecycle

/-! ## The life cycle behind a store -/

/-- The life cycle's view of an order. -/
@[simps] def orderRow (o : Order) : OrderRow where
  status := o.status
  account := o.accountID
  authorizations := o.authorizationIDs
  csr := o.csr
  issuance := o.issuance
  certificate := o.certificateID

/-- The life cycle's view of an authorization. -/
@[simps] def authorizationRow (a : Authorization) : AuthorizationRow where
  status := a.status
  order := a.orderID
  challenges := a.challengeIDs

/-- The life cycle's view of a challenge. -/
@[simps] def challengeRow (c : Challenge) : ChallengeRow where
  status := c.status
  authorization := c.authorizationID
  account := c.accountID

/-- The life cycle's view of a task. -/
@[simps] def taskRow (t : Task) : TaskRow where
  kind := t.kind
  target := t.targetID

/-- A table as the life cycle sees it. -/
def rows {V R : Type} (row : V → R) (t : Table V) (id : String) : Option R :=
  (t.lookup id).map row

/-- The life cycle's view of a store. -/
@[simps] def lifecycle (st : Store) : State where
  accounts := fun id => ∃ a, st.accounts.lookup id = some a
  orders := rows orderRow st.orders
  authorizations := rows authorizationRow st.authzs
  challenges := rows challengeRow st.challenges
  tasks := rows taskRow st.tasks
  certificates := rows Certificate.orderID st.certificates

/-! ## Permitted calls -/

/-- The condition holds of the stored entry if it has the version that the caller presents. -/
def IfCurrent {V : Type} (t : Table V) (id : String) (version : V → Nat) (presented : Nat)
    (P : V → Prop) : Prop :=
  ∀ v, t.lookup id = some v → version v = presented → P v

/-- The stored contents had the property at some moment, or have it now. -/
def Seen (P : Store → Prop) (w : World) : Prop :=
  P w.store ∨ ∃ e ∈ w.history, P e.before

/-- The thread has read the time at a moment at which the stored contents had the property. -/
def ReadClock (w : World) (thread : Nat) (now : Time) (P : Store → Prop) : Prop :=
  ∃ e ∈ w.history, e.thread = thread ∧ e.clock = some now ∧ P e.before

/-- The thread drew the ID and no call has tried to enqueue a task under it. -/
structure Owns (w : World) (thread : Nat) (id : String) : Prop where
  drawn : ∃ e ∈ w.history, e.thread = thread ∧ e.draws = some id
  unused : ∀ e ∈ w.history, ∀ task, e.call.enqueues = some task → task.id ≠ id

/-- A valid account is updated or deactivated. -/
def AccountUpdate (st : Store) (a : Account) : Prop :=
  IfCurrent st.accounts a.id Account.revision a.revision fun stored =>
    stored.status = .valid ∧ (a.status = .valid ∨ a.status = .deactivated)

/-- A new order comes with one authorization for each of its identifiers and with their challenges,
and is ready only if all of its authorizations are valid. -/
structure OrderCreation (st : Store) (n : NewOrder) : Prop where
  account : ∃ a, st.accounts.lookup n.order.accountID = some a
  csr : n.order.csr = []
  issuance : n.order.issuance = none
  certificate : n.order.certificateID = ""
  listed : n.order.authorizationIDs = n.authzs.map Authorization.id
  distinct : (n.authzs.map Authorization.id).Nodup
  identifiers : n.order.identifiers = n.authzs.map Authorization.orderIdentifier
  authorizations : ∀ a ∈ n.authzs, a.orderID = n.order.id ∧
    (a.status = .pending ∨ a.status = .valid) ∧
    ∀ cid ∈ a.challengeIDs, ∃ c ∈ n.challenges, c.id = cid
  challenges : ∀ c ∈ n.challenges, c.status = .pending ∧ c.accountID = n.order.accountID ∧
    c.authorizationID ∈ n.order.authorizationIDs
  owned : ∀ a ∈ n.authzs, ∀ c ∈ n.challenges, c.id ∈ a.challengeIDs ↔ c.authorizationID = a.id
  preApproved : ∀ a ∈ n.authzs, a.status = .valid → a.preApproved = true
  status : (n.order.status = .pending ∧ ∃ a ∈ n.authzs, a.status = .pending) ∨
    (n.order.status = .ready ∧ ∀ a ∈ n.authzs, a.status = .valid)

/-- A pending or valid authorization is deactivated. -/
def Deactivation (st : Store) (a : Authorization) : Prop :=
  IfCurrent st.authzs a.id Authorization.revision a.revision fun stored =>
    a = { stored with status := .deactivated } ∧
      (stored.status = .pending ∨ stored.status = .valid)

/-- The times at which an order with the authorizations stops being authorized. -/
def expiries (o : Order) (authzs : List Authorization) : Set Time :=
  {t | t = o.expires ∨ ∃ a ∈ authzs, t = a.expires ∨ (a.grantExpires ≠ 0 ∧ t = a.grantExpires)}

/-- The validation names the identifier of the authorization and how it was authorized: by a
pre-approval or by a challenge that is stored valid. -/
structure Evidence (st : Store) (a : Authorization) (v : Validation) : Prop where
  identifier : v.identifier = a.orderIdentifier
  authorized :
    (a.preApproved = true ∧ v.preApproved = true ∧ v.type = none ∧ v.validated = a.createdAt) ∨
    (a.preApproved = false ∧ v.preApproved = false ∧ ∃ cid ∈ a.challengeIDs, ∃ c,
      st.challenges.lookup cid = some c ∧ c.status = .valid ∧ v.type = some c.type ∧
        v.validated = c.validated)

/-- The issuance state is the decision on an order with its authorizations. -/
structure IssuanceDecision (st : Store) (o : Order) (authzs : List Authorization)
    (state : IssuanceState) : Prop where
  deadline : IsLeast (expiries o authzs) state.deadline
  ahead : state.authorizedAt < state.deadline
  evidence : List.Forall₂ (Evidence st) authzs state.validations

/-- A dispatch adds the issuance state to the stored order and rests on its account and on unchanged
copies of its authorizations. -/
def DispatchDecision (st : Store) (d : Dispatch) : Prop :=
  (IfCurrent st.orders d.order.id Order.revision d.order.revision fun stored =>
    d.account.id = stored.accountID ∧ ∃ state, d.order = { stored with issuance := some state } ∧
      IssuanceDecision st stored d.authzs state) ∧
  ∀ a ∈ d.authzs, IfCurrent st.authzs a.id Authorization.revision a.revision fun stored =>
    stored = a

/-- The time of a dispatch was read after the order was finalized. -/
def DispatchTimed (w : World) (thread : Nat) (d : Dispatch) : Prop :=
  ∀ state, d.order.issuance = some state → ReadClock w thread state.authorizedAt fun st =>
    ∃ o, st.orders.lookup d.order.id = some o ∧ (o.status = .processing ∨ o.status.terminal = true)

/-- The revoker has accepted the operation and reason that the certificate records. -/
def Accepted (s : Server) (history : List Event) (c : Certificate) : Prop :=
  ∃ e ∈ history, ∃ req, e.revokes = some req ∧ s.certificateID req.der = c.id ∧
    req.operationID = c.revocationOperationID ∧ req.reason = c.revocationReason

/-- The revoker has refused to revoke the certificate. -/
def Refused (s : Server) (history : List Event) (id : String) : Prop :=
  ∃ e ∈ history, ∃ req, e.refusesRevocation = some req ∧ s.certificateID req.der = id

/-- The certificate is stored with the operation and reason of a revocation. -/
def Recorded (id operationID : String) (reason : Int) (st : Store) : Prop :=
  ∃ c, st.certificates.lookup id = some c ∧ c.revocationOperationID = operationID ∧
    c.revocationReason = reason

/-- A certificate that is not revoked gets a new revocation record, and is marked revoked only
after the revoker has accepted what is recorded. A recorded operation is given up only after the
revoker has refused one. -/
def RevocationUpdate (s : Server) (w : World) (c : Certificate) : Prop :=
  IfCurrent w.store.certificates c.id Certificate.revision c.revision fun stored =>
    stored.revoked = false ∧ certificateTerms c = certificateTerms stored ∧
      c.replacedByOrderID = stored.replacedByOrderID ∧
      (c.revoked = true → Accepted s w.history c) ∧
      (c.revoked = false →
        (stored.revocationOperationID = "" ∧ c.revocationOperationID ≠ "") ∨
          Refused s w.history c.id)

/-- The revoker is asked for what was recorded at some moment. -/
def RevocationRequest (s : Server) (w : World) (req : RevokeRequest) : Prop :=
  req.operationID ≠ "" ∧
    Seen (Recorded (s.certificateID req.der) req.operationID req.reason) w

/-- The thread has counted fewer validations of the account than the limit. -/
def BelowLimit (s : Server) (w : World) (thread : Nat) (accountID : String) : Prop :=
  ∃ e ∈ w.history, e.thread = thread ∧ ∃ n, e.counts = some (accountID, n) ∧ n < s.maxValidations

/-- A pending challenge moves on with a validation task of its own, as far as the limit allows. -/
structure ChallengeResponse (s : Server) (w : World) (thread : Nat) (r : Memstore.Response) :
    Prop where
  owns : Owns w thread r.task.id
  counted : BelowLimit s w thread r.task.accountID
  kind : r.task.kind = .validate
  target : r.task.targetID = r.challenge.id
  stored : IfCurrent w.store.challenges r.challenge.id Challenge.revision r.challenge.revision
    fun stored => stored.status = .pending ∧ r.challenge.status = .processing ∧
      challengeTerms r.challenge = challengeTerms stored

/-- A ready order gets its certificate request with an issuance task of its own. -/
structure FinalizationStep (w : World) (thread : Nat) (f : Finalization) : Prop where
  owns : Owns w thread f.task.id
  kind : f.task.kind = .issue
  target : f.task.targetID = f.order.id
  stored : IfCurrent w.store.orders f.order.id Order.revision f.order.revision fun stored =>
    stored.status = .ready ∧
      ∃ der, der ≠ [] ∧ f.order = { stored with status := .processing, csr := der }

/-- A retried validation only notes an error on the challenge. -/
def ValidationRetry (st : Store) (r : Retry) : Prop :=
  IfCurrent st.challenges r.challenge.id Challenge.revision r.challenge.revision fun stored =>
    ∃ error, r.challenge = { stored with error := error }

/-- The only task that is dropped without an outcome is the issuance of an invalid order. -/
def TaskRemoval (st : Store) (t : Task) : Prop :=
  IfCurrent st.tasks t.id Task.fence t.fence fun stored =>
    stored.kind = .issue ∧ ∃ o, st.orders.lookup stored.targetID = some o ∧ o.status = .invalid

/-- What a validation may do to an authorization, next to the status of its challenge. -/
inductive Decision (a : Authorization) : Authorization → ChallengeStatus → Prop where
  | kept : Decision a a .invalid
  | validated (a' : Authorization) (hpending : a.status = .pending) (hvalid : a'.status = .valid)
      (hterms : authorizationTerms a' = authorizationTerms a)
      (hrevision : a'.revision = a.revision) : Decision a a' .valid
  | refused (hpending : a.status = .pending) :
      Decision a { a with status := .invalid } .invalid

/-- A validation outcome settles the challenge of its task, decides on its authorization and derives
the status of a pending order. -/
structure Settlement (st : Store) (v : ValidationOutcome) (task : Task) (c : Challenge)
    (a : Authorization) (o : Order) : Prop where
  kind : task.kind = .validate
  target : task.targetID = v.challenge.id
  processing : c.status = .processing
  challenge : challengeTerms v.challenge = challengeTerms c
  authorization : v.authz.id = c.authorizationID
  decision : Decision a v.authz v.challenge.status
  order : v.order.id = a.orderID
  fields : v.order = { o with status := v.order.status }
  derived : if o.status = .pending then
      Implies (rows authorizationRow (st.authzs.insert v.authz.id v.authz)) (orderRow o)
        v.order.status
    else v.order.status = o.status

/-- A validation outcome is a settlement of what is stored. -/
def ValidationCommit (st : Store) (v : ValidationOutcome) : Prop :=
  IfCurrent st.tasks v.task.id Task.fence v.task.fence fun task =>
    IfCurrent st.challenges v.challenge.id Challenge.revision v.challenge.revision fun c =>
      IfCurrent st.authzs v.authz.id Authorization.revision v.authz.revision fun a =>
        IfCurrent st.orders v.order.id Order.revision v.order.revision fun o =>
          Settlement st v task c a o

/-- What an issuance outcome may make of a processing order. -/
def Concludes (o o' : Order) : Option Certificate → Prop
  | none => ∃ error result,
      o' = { o with status := .invalid, error := error, unpublishedResult := result }
  | some cert => o.issuance ≠ none ∧ cert.orderID = o.id ∧ cert.revoked = false ∧
      cert.revocationOperationID = "" ∧
      o' = { o with status := .valid, certificateID := cert.id, error := none }

/-- An issuance outcome concludes the processing order of its task. -/
def IssuanceCommit (st : Store) (i : IssuanceOutcome) : Prop :=
  IfCurrent st.tasks i.task.id Task.fence i.task.fence fun task =>
    IfCurrent st.orders i.order.id Order.revision i.order.revision fun o =>
      task.kind = .issue ∧ task.targetID = i.order.id ∧ o.status = .processing ∧
        Concludes o i.order i.cert

/-- The request is the one for the stored order and its stored issuance state at the given time. -/
def RequestedAt (s : Server) (st : Store) (req : IssueRequest) (now : Time) : Prop :=
  ∃ o state, st.orders.lookup req.orderID = some o ∧ o.issuance = some state ∧
    req = s.issueRequestAt o state now

/-- The request is the one for the stored order and its stored issuance state. -/
def Requested (s : Server) (st : Store) (req : IssueRequest) : Prop :=
  ∃ now, RequestedAt s st req now

/-- The issuer is asked about a dispatched order with a time that was read after the dispatch. -/
def IssuerCall (s : Server) (w : World) (thread : Nat) (req : IssueRequest) : Prop :=
  ∃ now, RequestedAt s w.store req now ∧ ReadClock w thread now fun st =>
    ∃ o, st.orders.lookup req.orderID = some o ∧ o.issuance ≠ none

/-- What a granted request has brought about in the store. -/
def Granted (s : Server) (st : Store) (r : Request) : Prop :=
  match s.route r with
  | .finalize id => ∃ der o, s.carriedCSR r = some der ∧ der ≠ [] ∧
      st.orders.lookup id = some o ∧ o.csr = der
  | .revokeCert => ∃ der c, s.carriedCertificate r = some der ∧
      st.certificates.lookup (s.certificateID der) = some c ∧ c.revoked = true
  | _ => True

/-- The calls a thread may make. Reads, claims and most host calls need no permission. -/
def Permitted (s : Server) (w : World) (thread : Nat) : Call → Prop
  | .store (.updateAccount a) => AccountUpdate w.store a
  | .store (.createOrder n) =>
      OrderCreation w.store n ∧ ReadClock w thread n.order.createdAt fun _ => True
  | .store (.updateAuthorization a) => Deactivation w.store a
  | .store (.beginIssuance d) => DispatchDecision w.store d ∧ DispatchTimed w thread d
  | .store (.updateCertificate c) => RevocationUpdate s w c
  | .store (.acceptChallenge r) => ChallengeResponse s w thread r
  | .store (.finalizeOrder f) => FinalizationStep w thread f
  | .store (.retryValidation r) => ValidationRetry w.store r
  | .store (.finishTask t) => TaskRemoval w.store t
  | .store (.completeValidation v) => ValidationCommit w.store v
  | .store (.completeIssuance i) => IssuanceCommit w.store i
  | .host (.issue req) => IssuerCall s w thread req
  | .host (.revoke req) => RevocationRequest s w req
  | .host (.respond r response) => response.success = true → Granted s w.store r
  | _ => True

/-! ## The invariant -/

/-- Every record is stored under its ID. -/
structure Keyed (st : Store) : Prop where
  accounts : Table.Keyed Account.id st.accounts
  orders : Table.Keyed Order.id st.orders
  authzs : Table.Keyed Authorization.id st.authzs
  challenges : Table.Keyed Challenge.id st.challenges
  certificates : Table.Keyed Certificate.id st.certificates
  tasks : Table.Keyed Task.id st.tasks

/-- An ID is drawn by one thread only, which alone enqueues tasks under it, and only one task. -/
structure IDsOwned (history : List Event) : Prop where
  drawn : ∀ {e e' : Event} {id : String}, e ∈ history → e' ∈ history → e.draws = some id →
    e'.draws = some id → e.thread = e'.thread
  enqueued : ∀ {e : Event} {task : Task}, e ∈ history → e.call.enqueues = some task →
    ∃ d ∈ history, d.draws = some task.id ∧ d.thread = e.thread
  unique : ∀ {e e' : Event} {task task' : Task}, e ∈ history → e' ∈ history →
    e.call.enqueues = some task → e'.call.enqueues = some task' → task.id = task'.id → task = task'

/-- The issuance of the order may be dispatched with the issuance state: its account is valid, it is
processing without an issuance state, and each of its authorizations is valid beyond the time of the
decision. -/
structure Dispatchable (st : Store) (o : Order) (state : IssuanceState) : Prop where
  account : ∃ account, st.accounts.lookup o.accountID = some account ∧ account.status = .valid
  processing : o.status = .processing
  undispatched : o.issuance = none
  authorizations : ∀ aid ∈ o.authorizationIDs, ∃ a, st.authzs.lookup aid = some a ∧
    a.status = .valid ∧ state.authorizedAt < a.expires

/-- The event committed the dispatch of the order with the issuance state, and at that moment the
order was dispatchable. -/
def DispatchedBy (e : Event) (id : String) (state : IssuanceState) : Prop :=
  ∃ d o, e.dispatches = some d ∧ d.order.id = id ∧ d.order.issuance = some state ∧
    e.before.orders.lookup id = some o ∧ Dispatchable e.before o state

/-- What holds between any two calls. -/
structure Invariant (s : Server) (w : World) : Prop where
  keyed : Keyed w.store
  coherent : Coherent (lifecycle w.store)
  ids : IDsOwned w.history
  tasks : ∀ {id t}, w.store.tasks.lookup id = some t → ∃ e ∈ w.history, ∃ task,
    e.call.enqueues = some task ∧ task.id = id ∧ task.kind = t.kind ∧ task.targetID = t.targetID
  dispatched : ∀ {id o state}, w.store.orders.lookup id = some o → o.issuance = some state →
    ∃ e ∈ w.history, DispatchedBy e id state
  issuedAfter : ∀ {e earlier req}, e :: earlier <:+ w.history → e.issues = some req →
    ∃ d ∈ earlier, ∃ state, DispatchedBy d req.orderID state
  issued : ∀ {e req}, e ∈ w.history → e.issues = some req → Requested s w.store req
  revoked : ∀ {id c}, w.store.certificates.lookup id = some c → c.revoked = true →
    Accepted s w.history c
  answered : ∀ {e r response}, e ∈ w.history → e.answers = some (r, response) →
    response.success = true → Granted s w.store r

end AcmeServer.Protocol
