import AcmeServer.Resource.Basic
import AcmeServer.Transaction.Basic
import Mathlib.Data.Finmap

/-!
# The state of the in-memory store

`Store` has the maps, indexes and counters of `memstore.Store`. A Go map is a `Finmap`, so two
maps are equal as soon as they have the same entries and no iteration order is fixed. An operation
of the store is a `Transaction` over a `Frame`: the store together with the records the caller
handed in by pointer, which the operation may change as well.
-/

namespace AcmeServer.Memstore

/-- A map from resource IDs. -/
abbrev Table (V : Type) := Finmap fun _ : String => V

/-- Indexes authorizations by account and complete identifier, including wildcard scope. -/
structure AuthorizationKey where
  accountID : String
  identifier : Identifier
deriving DecidableEq

/-- The maps of the in-memory store. -/
structure Store where
  accounts : Table Account
  accountByKey : Table String
  accountByClaim : Table String
  orders : Table Order
  orderIDs : Table (List String)
  authzs : Table Authorization
  authzIndex : Finmap fun _ : AuthorizationKey => List String
  challenges : Table Challenge
  certificates : Table Certificate
  certByRenewal : Table String
  tasks : Table Task
  taskSequence : Nat
  taskInsertion : Table Nat

/-- The empty store. -/
def Store.new : Store where
  accounts := ∅
  accountByKey := ∅
  accountByClaim := ∅
  orders := ∅
  orderIDs := ∅
  authzs := ∅
  authzIndex := ∅
  challenges := ∅
  certificates := ∅
  certByRenewal := ∅
  tasks := ∅
  taskSequence := 0
  taskInsertion := ∅

/-- The stored tasks, in no particular order. -/
def Store.taskValues (s : Store) : Multiset Task := s.tasks.entries.map Sigma.snd

/-- Why a context ended. -/
inductive ContextError where
  | canceled
  | deadlineExceeded
deriving DecidableEq, Repr

/-- The errors of a store call. `nilPointer` is the run-time error of following a map entry that
does not exist. -/
inductive StoreError where
  | notFound
  | conflict
  | revisionMismatch
  | alreadyReplaced
  | context (cause : ContextError)
  | text (message : String)
  | nilPointer
deriving DecidableEq, Repr

/-- The store and the caller's records during one call. -/
structure Frame (A : Type) where
  store : Store
  args : A

/-- A store operation on caller records of type `A`. -/
abbrev Op (A α : Type) := Transaction StoreError (Frame A) α

open Transaction

variable {A α : Type}

/-- The current store. -/
def getStore : Op A Store := do
  let frame ← get
  pure frame.store

/-- The caller's records as they are now. -/
def getArgs : Op A A := do
  let frame ← get
  pure frame.args

/-- Change the store. -/
def modifyStore (f : Store → Store) : Op A Unit :=
  modify fun frame => { frame with store := f frame.store }

/-- Change the caller's records. -/
def modifyArgs (f : A → A) : Op A Unit :=
  modify fun frame => { frame with args := f frame.args }

/-- Stop with the error of a context that has ended. -/
def checkContext : Option ContextError → Op A Unit
  | some cause => throw (.context cause)
  | none => pure ()

@[simp] theorem get_store_ok {frame frame' : Frame A} {s : Store} :
    exec (getStore : Op A Store) frame = (.ok s, frame') ↔ frame.store = s ∧ frame' = frame := by
  show (Except.ok frame.store, frame) = (.ok s, frame') ↔ _
  simp [eq_comm]

@[simp] theorem get_args_ok {frame frame' : Frame A} {a : A} :
    exec (getArgs : Op A A) frame = (.ok a, frame') ↔ frame.args = a ∧ frame' = frame := by
  show (Except.ok frame.args, frame) = (.ok a, frame') ↔ _
  simp [eq_comm]

@[simp] theorem modify_store_ok {f : Store → Store} {frame frame' : Frame A} {u : Unit} :
    exec (modifyStore f : Op A Unit) frame = (.ok u, frame') ↔
      frame' = ⟨f frame.store, frame.args⟩ := by
  simp [modifyStore, eq_comm]

@[simp] theorem modify_args_ok {f : A → A} {frame frame' : Frame A} {u : Unit} :
    exec (modifyArgs f : Op A Unit) frame = (.ok u, frame') ↔
      frame' = ⟨frame.store, f frame.args⟩ := by
  simp [modifyArgs, eq_comm]

@[simp] theorem check_context_ok {ctx : Option ContextError} {frame frame' : Frame A} {u : Unit} :
    exec (checkContext ctx : Op A Unit) frame = (.ok u, frame') ↔ ctx = none ∧ frame' = frame := by
  cases ctx <;> simp [checkContext, eq_comm]

theorem read_only_get_store : ReadOnly (getStore : Op A Store) := fun _ => rfl

theorem read_only_get_args : ReadOnly (getArgs : Op A A) := fun _ => rfl

theorem read_only_check_context (ctx : Option ContextError) :
    ReadOnly (checkContext ctx : Op A Unit) := by
  intro frame
  cases ctx <;> rfl

theorem never_fails_get_args : NeverFails (getArgs : Op A A) := fun frame => ⟨frame.args, rfl⟩

theorem never_fails_modify_store (f : Store → Store) :
    NeverFails (modifyStore f : Op A Unit) := fun _ => ⟨(), rfl⟩

theorem never_fails_modify_args (f : A → A) : NeverFails (modifyArgs f : Op A Unit) :=
  fun _ => ⟨(), rfl⟩

end AcmeServer.Memstore
