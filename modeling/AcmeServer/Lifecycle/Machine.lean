import AcmeServer.Queue.Serves
import AcmeServer.Resource.Basic
import Mathlib.Data.List.Nodup

/-!
# The order life cycle

What the server and its workers do to orders, authorizations, challenges, tasks and certificates,
seen without revisions, contents and error handling: a state of rows and one transition per kind of
commit. The store's operations refine these transitions as long as their callers keep to the
contract, so an invariant of this machine holds of the store.
-/

namespace AcmeServer.Lifecycle

/-- What the life cycle depends on in an order. -/
structure OrderRow where
  status : OrderStatus
  account : String
  authorizations : List String
  csr : Bytes
  issuance : Option IssuanceState
  certificate : String

/-- The order has not dispatched issuance and is not settled. -/
def OrderRow.Open (o : OrderRow) : Prop :=
  o.status = .pending ∨ o.status = .ready ∨ (o.status = .processing ∧ o.issuance = none)

/-- What the life cycle depends on in an authorization. -/
structure AuthorizationRow where
  status : AuthorizationStatus
  order : String
  challenges : List String

/-- What the life cycle depends on in a challenge. -/
structure ChallengeRow where
  status : ChallengeStatus
  authorization : String
  account : String

/-- What the life cycle depends on in a task. -/
structure TaskRow where
  kind : TaskKind
  target : String

/-- The rows of all resources. A certificate is known by the order that published it. -/
@[ext] structure State where
  accounts : String → Prop
  orders : String → Option OrderRow
  authorizations : String → Option AuthorizationRow
  challenges : String → Option ChallengeRow
  tasks : String → Option TaskRow
  certificates : String → Option String

/-- The status of an order is one that its authorizations imply: an order waits only while none of
them is lost and one is undecided, and it is ready only if all of them are valid. -/
def Implies (authorizations : String → Option AuthorizationRow) (o : OrderRow) :
    OrderStatus → Prop
  | .pending =>
      (∀ aid ∈ o.authorizations, ∀ a, authorizations aid = some a → a.status.terminal = false) ∧
        ∃ aid ∈ o.authorizations, ∃ a, authorizations aid = some a ∧ a.status = .pending
  | .ready => ∀ aid ∈ o.authorizations, ∀ a, authorizations aid = some a → a.status = .valid
  | .invalid => True
  | _ => False

/-- What a validation does to the authorization: nothing, if it was settled before, or the outcome
of the challenge. -/
inductive Verdict (a : AuthorizationRow) : AuthorizationRow → ChallengeStatus → Prop where
  | kept : Verdict a a .invalid
  | validated (h : a.status = .pending) : Verdict a { a with status := .valid } .valid
  | refused (h : a.status = .pending) : Verdict a { a with status := .invalid } .invalid

/-- What a validation does to the order: a waiting order gets a status its authorizations imply,
any other order keeps its own. -/
def Rederived (authorizations : String → Option AuthorizationRow) (o o' : OrderRow) : Prop :=
  if o.status = .pending then
    ∃ status, o' = { o with status := status } ∧ Implies authorizations o status
  else o' = o

/-- The transitions. -/
inductive Step (σ : State) : State → Prop where
  /-- A new account. -/
  | register (id : String) : Step σ { σ with accounts := fun i => i = id ∨ σ.accounts i }
  /-- A new order with its authorizations and challenges. -/
  | createOrder (id : String) (o : OrderRow) (σ' : State)
      (horder : σ.orders id = none) (haccount : σ.accounts o.account)
      (hcsr : o.csr = []) (hissuance : o.issuance = none) (hcertificate : o.certificate = "")
      (horders : σ'.orders = Function.update σ.orders id (some o))
      (hold : ∀ aid a, σ.authorizations aid = some a → σ'.authorizations aid = some a)
      (hnew : ∀ aid a, σ'.authorizations aid = some a →
        σ.authorizations aid = some a ∨ (aid ∈ o.authorizations ∧ a.order = id ∧
          ∀ cid ∈ a.challenges, ∃ c, σ'.challenges cid = some c))
      (hlisted : ∀ aid ∈ o.authorizations, ∃ a, σ'.authorizations aid = some a ∧ a.order = id)
      (himplied : Implies σ'.authorizations o o.status) (hstatus : o.status ≠ .invalid)
      (holdChallenges : ∀ cid c, σ.challenges cid = some c → σ'.challenges cid = some c)
      (hnewChallenges : ∀ cid c, σ'.challenges cid = some c → σ.challenges cid = some c ∨
        (c.status = .pending ∧ c.authorization ∈ o.authorizations ∧ c.account = o.account))
      (haccounts : σ'.accounts = σ.accounts) (htasks : σ'.tasks = σ.tasks)
      (hcertificates : σ'.certificates = σ.certificates) : Step σ σ'
  /-- A client response moves a challenge on and enqueues its validation. -/
  | accept (cid tid : String) (c : ChallengeRow) (hchallenge : σ.challenges cid = some c)
      (hpending : c.status = .pending) (htask : σ.tasks tid = none) :
      Step σ { σ with
        challenges := Function.update σ.challenges cid (some { c with status := .processing })
        tasks := Function.update σ.tasks tid (some ⟨.validate, cid⟩) }
  /-- A validation settles a challenge, its authorization and its order. -/
  | settle (tid cid : String) (c : ChallengeRow) (a a' : AuthorizationRow) (o o' : OrderRow)
      (status : ChallengeStatus)
      (htask : σ.tasks tid = some ⟨.validate, cid⟩) (hchallenge : σ.challenges cid = some c)
      (hauthorization : σ.authorizations c.authorization = some a)
      (horder : σ.orders a.order = some o) (hverdict : Verdict a a' status)
      (hderived : Rederived (Function.update σ.authorizations c.authorization (some a')) o o') :
      Step σ { σ with
        challenges := Function.update σ.challenges cid (some { c with status := status })
        authorizations := Function.update σ.authorizations c.authorization (some a')
        orders := Function.update σ.orders a.order (some o')
        tasks := Function.update σ.tasks tid none }
  /-- A client gives up an authorization, and with it an order that has not been dispatched. -/
  | deactivate (aid : String) (a : AuthorizationRow) (o o' : OrderRow)
      (hauthorization : σ.authorizations aid = some a) (horder : σ.orders a.order = some o)
      (hopen : o.Open → o' = { o with status := .invalid }) (hclosed : ¬ o.Open → o' = o) :
      Step σ { σ with
        authorizations := Function.update σ.authorizations aid
          (some { a with status := .deactivated })
        orders := Function.update σ.orders a.order (some o') }
  /-- A certificate request finalizes a ready order and enqueues its issuance. -/
  | finalize (oid tid : String) (o : OrderRow) (der : Bytes) (horder : σ.orders oid = some o)
      (hready : o.status = .ready) (hder : der ≠ []) (htask : σ.tasks tid = none) :
      Step σ { σ with
        orders := Function.update σ.orders oid (some { o with status := .processing, csr := der })
        tasks := Function.update σ.tasks tid (some ⟨.issue, oid⟩) }
  /-- The decision to ask the CA becomes durable. -/
  | dispatch (oid : String) (o : OrderRow) (state : IssuanceState)
      (horder : σ.orders oid = some o) (hprocessing : o.status = .processing)
      (hundispatched : o.issuance = none) :
      Step σ { σ with
        orders := Function.update σ.orders oid (some { o with issuance := some state }) }
  /-- Issuance is refused. -/
  | fail (oid tid : String) (o : OrderRow) (horder : σ.orders oid = some o)
      (hprocessing : o.status = .processing) (htask : σ.tasks tid = some ⟨.issue, oid⟩) :
      Step σ { σ with
        orders := Function.update σ.orders oid (some { o with status := .invalid })
        tasks := Function.update σ.tasks tid none }
  /-- A certificate is published. -/
  | publish (oid tid cid : String) (o : OrderRow) (horder : σ.orders oid = some o)
      (hprocessing : o.status = .processing) (hdispatched : o.issuance ≠ none)
      (htask : σ.tasks tid = some ⟨.issue, oid⟩) (hid : cid ≠ "")
      (hcertificate : σ.certificates cid = none) :
      Step σ { σ with
        orders := Function.update σ.orders oid
          (some { o with status := .valid, certificate := cid })
        certificates := Function.update σ.certificates cid (some oid)
        tasks := Function.update σ.tasks tid none }
  /-- The issuance task of an order that became invalid before it was dispatched is dropped. -/
  | drop (oid tid : String) (o : OrderRow) (horder : σ.orders oid = some o)
      (hinvalid : o.status = .invalid) (htask : σ.tasks tid = some ⟨.issue, oid⟩) :
      Step σ { σ with tasks := Function.update σ.tasks tid none }

/-- A transition to a state that is written differently. -/
theorem Step.of_eq {σ σ' τ : State} (h : Step σ τ) (heq : σ' = τ) : Step σ σ' := heq ▸ h

/-! ## The invariant -/

/-- References lead to existing rows and back. -/
structure Linked (σ : State) : Prop where
  order_account : ∀ {id o}, σ.orders id = some o → σ.accounts o.account
  order_authorization : ∀ {id o aid}, σ.orders id = some o → aid ∈ o.authorizations →
    ∃ a, σ.authorizations aid = some a ∧ a.order = id
  authorization_order : ∀ {aid a}, σ.authorizations aid = some a →
    ∃ o, σ.orders a.order = some o ∧ aid ∈ o.authorizations
  authorization_challenge : ∀ {aid a cid}, σ.authorizations aid = some a → cid ∈ a.challenges →
    ∃ c, σ.challenges cid = some c
  challenge_authorization : ∀ {cid c}, σ.challenges cid = some c →
    ∃ a, σ.authorizations c.authorization = some a
  challenge_account : ∀ {cid c}, σ.challenges cid = some c → σ.accounts c.account

/-- The fields of an order fit its status. -/
structure Shaped (o : OrderRow) : Prop where
  unfinalized : o.status = .pending ∨ o.status = .ready → o.csr = [] ∧ o.issuance = none
  finalized : o.status = .processing ∨ o.status = .valid → o.csr ≠ []
  requested : o.issuance ≠ none → o.csr ≠ []
  dispatched : o.status = .valid → o.issuance ≠ none
  published : o.status = .valid ↔ o.certificate ≠ ""

/-- The authorizations of an order bear out its status until it is dispatched. -/
structure Agrees (authorizations : String → Option AuthorizationRow) (o : OrderRow) : Prop where
  pending : o.status = .pending → Implies authorizations o .pending
  ready : o.status = .ready ∨ (o.status = .processing ∧ o.issuance = none) →
    Implies authorizations o .ready

/-- The certificate an order has published. -/
def State.published (σ : State) (id : String) : Option String :=
  (σ.orders id).bind fun o => if o.status = .valid then some o.certificate else none

/-- The work that is due: a validation for every processing challenge, an issuance for every
processing order. -/
def State.due (σ : State) : Set TaskRow := fun t =>
  (t.kind = .validate ∧ ∃ c, σ.challenges t.target = some c ∧ c.status = .processing) ∨
  (t.kind = .issue ∧ ∃ o, σ.orders t.target = some o ∧ o.status = .processing)

/-- The work that may be queued: besides what is due, the issuance of an order that has become
invalid. -/
def State.allowed (σ : State) : Set TaskRow := fun t =>
  (t.kind = .validate ∧ ∃ c, σ.challenges t.target = some c ∧ c.status = .processing) ∨
  (t.kind = .issue ∧ ∃ o, σ.orders t.target = some o ∧
    (o.status = .processing ∨ o.status = .invalid))

/-- The invariant of the life cycle. -/
structure Coherent (σ : State) : Prop where
  linked : Linked σ
  shaped : ∀ {id o}, σ.orders id = some o → Shaped o
  agrees : ∀ {id o}, σ.orders id = some o → Agrees σ.authorizations o
  served : Queue.Serves σ.tasks σ.due σ.allowed
  certified : ∀ id cid, σ.published id = some cid ↔ σ.certificates cid = some id

end AcmeServer.Lifecycle
