import AcmeServer.Memstore.Operations

/-!
# Calls on the store

`StoreCall` is a call of one of the store's methods with the records the caller hands in, and
`Store.apply` executes it. The answer has the result and the caller's records afterwards, since a
method may change them through the pointers it was given.

A `CallEnv` holds what a call does not decide itself: whether its context has ended, and the order
in which the run-time system ranges over the task map. `CallEnv.Fits` says that this order visits
every task once.
-/

namespace AcmeServer.Memstore

open Transaction

/-- A call of a store method with its arguments. -/
inductive StoreCall where
  | createAccount (account : Account)
  | account (id : String)
  | accountByKey (thumbprint : String)
  | updateAccount (account : Account)
  | createOrder (new : NewOrder)
  | order (id : String)
  | orderIDs (accountID after : String) (limit : Int)
  | authorization (id : String)
  | updateAuthorization (authz : Authorization)
  | beginIssuance (dispatch : Dispatch)
  | authorizedFor (accountID : String) (identifiers : List Identifier) (now : Time)
  | challenge (id : String)
  | certificate (id : String)
  | certificateByRenewalID (renewalID : String)
  | updateCertificate (cert : Certificate)
  | acceptChallenge (response : Response)
  | finalizeOrder (finalization : Finalization)
  | claimTask (now leaseUntil : Time)
  | rescheduleTask (task : Task)
  | retryValidation (retry : Retry)
  | finishTask (task : Task)
  | completeValidation (outcome : ValidationOutcome)
  | completeIssuance (outcome : IssuanceOutcome)
  | pendingTasks (before : Time)
  | leasedTasks (now : Time)
  | accountValidations (accountID : String)

namespace StoreCall

/-- The records a method receives by pointer. -/
abbrev Args : StoreCall → Type
  | .createAccount _ => Account
  | .updateAccount _ => Account
  | .createOrder _ => NewOrder
  | .updateAuthorization _ => Authorization
  | .beginIssuance _ => Dispatch
  | .updateCertificate _ => Certificate
  | .acceptChallenge _ => Response
  | .finalizeOrder _ => Finalization
  | .rescheduleTask _ => Task
  | .retryValidation _ => Retry
  | .finishTask _ => Task
  | .completeValidation _ => ValidationOutcome
  | .completeIssuance _ => IssuanceOutcome
  | _ => Unit

/-- Whether the method can change the store. -/
def mutates : StoreCall → Bool
  | .createAccount _ => true
  | .updateAccount _ => true
  | .createOrder _ => true
  | .updateAuthorization _ => true
  | .beginIssuance _ => true
  | .updateCertificate _ => true
  | .acceptChallenge _ => true
  | .finalizeOrder _ => true
  | .claimTask .. => true
  | .rescheduleTask _ => true
  | .retryValidation _ => true
  | .finishTask _ => true
  | .completeValidation _ => true
  | .completeIssuance _ => true
  | _ => false

/-- What a method returns besides its error. -/
abbrev Value : StoreCall → Type
  | .account _ => Account
  | .accountByKey _ => Account
  | .order _ => Order
  | .orderIDs .. => List String
  | .authorization _ => Authorization
  | .authorizedFor .. => Bool
  | .challenge _ => Challenge
  | .certificate _ => Certificate
  | .certificateByRenewalID _ => Certificate
  | .claimTask .. => Task
  | .pendingTasks _ => Nat
  | .leasedTasks _ => Nat
  | .accountValidations _ => Nat
  | _ => Unit

end StoreCall

/-- The records of a call as the caller hands them in. -/
def StoreCall.args : (c : StoreCall) → c.Args
  | .createAccount a => a
  | .updateAccount a => a
  | .createOrder n => n
  | .updateAuthorization a => a
  | .beginIssuance d => d
  | .updateCertificate c => c
  | .acceptChallenge r => r
  | .finalizeOrder f => f
  | .rescheduleTask t => t
  | .retryValidation r => r
  | .finishTask t => t
  | .completeValidation o => o
  | .completeIssuance o => o
  | .account _ => ()
  | .accountByKey _ => ()
  | .order _ => ()
  | .orderIDs .. => ()
  | .authorization _ => ()
  | .authorizedFor .. => ()
  | .challenge _ => ()
  | .certificate _ => ()
  | .certificateByRenewalID _ => ()
  | .claimTask .. => ()
  | .pendingTasks _ => ()
  | .leasedTasks _ => ()
  | .accountValidations _ => ()

/-- What the surroundings decide about one call. -/
structure CallEnv where
  ctx : Option ContextError := none
  visit : List Task := []

/-- The iteration order covers the task map. -/
def CallEnv.Fits (env : CallEnv) (s : Store) : Prop := (env.visit : Multiset Task) = s.taskValues

instance (env : CallEnv) (s : Store) : Decidable (env.Fits s) :=
  inferInstanceAs (Decidable (_ = _))

/-- The method that a call runs. -/
def StoreCall.op (env : CallEnv) : (c : StoreCall) → Op c.Args c.Value
  | .createAccount _ => Memstore.createAccount env.ctx
  | .account id => Memstore.account env.ctx id
  | .accountByKey thumbprint => Memstore.accountByKey env.ctx thumbprint
  | .updateAccount _ => Memstore.updateAccount env.ctx
  | .createOrder _ => Memstore.createOrder env.ctx
  | .order id => Memstore.order env.ctx id
  | .orderIDs accountID after limit => Memstore.orderIDs env.ctx accountID after limit
  | .authorization id => Memstore.authorization env.ctx id
  | .updateAuthorization _ => Memstore.updateAuthorization env.ctx
  | .beginIssuance _ => Memstore.beginIssuance env.ctx
  | .authorizedFor accountID identifiers now =>
      Memstore.authorizedFor env.ctx accountID identifiers now
  | .challenge id => Memstore.challenge env.ctx id
  | .certificate id => Memstore.certificate env.ctx id
  | .certificateByRenewalID renewalID => Memstore.certificateByRenewalID env.ctx renewalID
  | .updateCertificate _ => Memstore.updateCertificate env.ctx
  | .acceptChallenge _ => Memstore.acceptChallenge env.ctx
  | .finalizeOrder _ => Memstore.finalizeOrder env.ctx
  | .claimTask now leaseUntil => Memstore.claimTask env.ctx env.visit now leaseUntil
  | .rescheduleTask _ => Memstore.rescheduleTask env.ctx
  | .retryValidation _ => Memstore.retryValidation env.ctx
  | .finishTask _ => Memstore.finishTask env.ctx
  | .completeValidation _ => Memstore.completeValidation env.ctx
  | .completeIssuance _ => Memstore.completeIssuance env.ctx
  | .pendingTasks before => Memstore.pendingTasks env.ctx env.visit before
  | .leasedTasks now => Memstore.leasedTasks env.ctx env.visit now
  | .accountValidations accountID => Memstore.accountValidations env.ctx env.visit accountID

/-- The answer to a call: its result and the caller's records afterwards. -/
structure Reply (c : StoreCall) where
  result : Except StoreError c.Value
  args : c.Args

/-- Execute a call. -/
def Store.apply (s : Store) (env : CallEnv) (c : StoreCall) : Reply c × Store :=
  let (result, frame) := exec (c.op env) ⟨s, c.args⟩
  (⟨result, frame.args⟩, frame.store)

/-- The store after a call. -/
def Store.after (s : Store) (env : CallEnv) (c : StoreCall) : Store := (s.apply env c).2

/-- Execute the next call of a run. An iteration order that does not cover the task map cannot
occur, so such an entry is skipped. -/
def Store.step (s : Store) (call : CallEnv × StoreCall) : Store :=
  if call.1.Fits s then s.after call.1 call.2 else s

/-- The store after a sequence of calls. -/
def Store.run (s : Store) (calls : List (CallEnv × StoreCall)) : Store := calls.foldl Store.step s

/-- The result of a call is the result of its method. -/
theorem Store.exec_op (s : Store) (env : CallEnv) (c : StoreCall) :
    exec (c.op env) ⟨s, c.args⟩ =
      ((s.apply env c).1.result, ⟨s.after env c, (s.apply env c).1.args⟩) := rfl

end AcmeServer.Memstore
