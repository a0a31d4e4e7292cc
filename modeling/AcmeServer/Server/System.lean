import AcmeServer.Interaction.Attempt
import AcmeServer.Memstore.Call
import AcmeServer.Server.Host

/-!
# The system: server programs over one store

A request handler or a worker is a `Program` whose calls are store methods and host calls; each
call is one step, and between two calls of one program any other program may run. The `World` is
the store together with the `history` of all calls made so far, newest first. The history is not
part of the source; it is what statements about the past (which calls the issuer has received,
which IDs were drawn) refer to.

`execute` makes one call. It leaves to the environment what neither the server nor the store
decides: whether a context has ended, the iteration order of the task map, and every host answer.
The one thing it refuses is an ID from the random source that was drawn before, since 128 random
bits do not repeat.
-/

namespace AcmeServer

open Interaction Memstore

/-- A call a program makes. -/
inductive Call where
  | store (call : StoreCall)
  | host (call : HostCall)

/-- What a call returns. -/
abbrev Call.Answer : Call → Type
  | .store c => Reply c
  | .host c => c.Answer

/-- The task that a call tries to enqueue, if it does. -/
def Call.enqueues : Call → Option Task
  | .store (.acceptChallenge r) => some r.task
  | .store (.finalizeOrder f) => some f.task
  | _ => none

/-- One call of the past: the program that made it, the store it found, and the answer. -/
structure Event where
  thread : Nat
  before : Store
  call : Call
  answer : call.Answer

/-- The ID that an event drew from the random source, if it did. -/
def Event.draws : Event → Option String
  | ⟨_, _, .host .newID, id⟩ => id
  | _ => none

/-- The certificate request that an event sent to the issuer, if it did. -/
def Event.issues : Event → Option IssueRequest
  | ⟨_, _, .host (.issue request), _⟩ => some request
  | _ => none

/-- The time that an event read from the clock, if it did. -/
def Event.clock : Event → Option Time
  | ⟨_, _, .host .now, now⟩ => some now
  | _ => none

/-- The task that an event claimed, if it did. -/
def Event.claims : Event → Option Task
  | ⟨_, _, .store (.claimTask _ _), ⟨.ok task, _⟩⟩ => some task
  | _ => none

/-- Whether an event is a store call that failed because its context had ended. -/
def Event.interrupted : Event → Bool
  | ⟨_, _, .store _, ⟨.error (.context _), _⟩⟩ => true
  | _ => false

/-- The account whose validations an event counted, with their number, if it did. -/
def Event.counts : Event → Option (String × Nat)
  | ⟨_, _, .store (.accountValidations accountID), ⟨.ok n, _⟩⟩ => some (accountID, n)
  | _ => none

/-- The account for which an event tried to accept a response to a challenge, if it did. -/
def Event.accepts : Event → Option String
  | ⟨_, _, .store (.acceptChallenge response), _⟩ => some response.task.accountID
  | _ => none

/-- The revocation that an event asked the revoker for, if it did. -/
def Event.asksRevocation : Event → Option RevokeRequest
  | ⟨_, _, .host (.revoke request), _⟩ => some request
  | _ => none

/-- The revocation that the revoker refused with a problem in an event, if it did. -/
def Event.refusesRevocation : Event → Option RevokeRequest
  | ⟨_, _, .host (.revoke request), some err⟩ =>
      if err.asProblem.isSome then some request else none
  | _ => none

/-- The certificate whose revocation an event committed to begin, if it did. -/
def Event.beginsRevocation : Event → Option Certificate
  | ⟨_, _, .store (.updateCertificate cert), ⟨.ok (), _⟩⟩ =>
      if cert.revoked = false ∧ cert.revocationOperationID ≠ "" then some cert else none
  | _ => none

/-- The revocation that the revoker accepted in an event, if it did. -/
def Event.revokes : Event → Option RevokeRequest
  | ⟨_, _, .host (.revoke request), none⟩ => some request
  | _ => none

/-- The request that an event answered, with the response, if it did. -/
def Event.answers : Event → Option (Request × Response)
  | ⟨_, _, .host (.respond request response), _⟩ => some (request, response)
  | _ => none

/-- The dispatch that an event committed, if it did. -/
def Event.dispatches : Event → Option Dispatch
  | ⟨_, _, .store (.beginIssuance dispatch), ⟨.ok (), _⟩⟩ => some dispatch
  | _ => none

/-- The store and everything that happened. -/
structure World where
  store : Store
  history : List Event

/-- The empty store before the first call. -/
def World.initial : World := ⟨Store.new, []⟩

/-- What the surroundings decide about one call. -/
structure Env extends CallEnv where
  host : (c : HostCall) → c.Answer

/-- Whether the host can give this answer: a fresh ID is not empty and was never drawn before. -/
def World.admits (w : World) : (c : HostCall) → c.Answer → Prop
  | .newID, some id => id ≠ "" ∧ ∀ e ∈ w.history, e.draws ≠ some id
  | _, _ => True

instance (w : World) : (c : HostCall) → (answer : c.Answer) → Decidable (w.admits c answer)
  | .newID, some id => inferInstanceAs (Decidable (id ≠ "" ∧ ∀ e ∈ w.history, e.draws ≠ some id))
  | .newID, none => .isTrue trivial
  | .now, _ => .isTrue trivial
  | .newToken, _ => .isTrue trivial
  | .consumeNonce _, _ => .isTrue trivial
  | .issueNonce, _ => .isTrue trivial
  | .allow _, _ => .isTrue trivial
  | .macKey _, _ => .isTrue trivial
  | .reviewAccount _, _ => .isTrue trivial
  | .reviewOrder .., _ => .isTrue trivial
  | .preApprove .., _ => .isTrue trivial
  | .chooseProfile _, _ => .isTrue trivial
  | .validate .., _ => .isTrue trivial
  | .authorizeIssuance _, _ => .isTrue trivial
  | .issue _, _ => .isTrue trivial
  | .revoke _, _ => .isTrue trivial
  | .recordRefusal _, _ => .isTrue trivial
  | .adviseRenewal _, _ => .isTrue trivial
  | .respond .., _ => .isTrue trivial

/-- Make one call. A store method runs as a whole, since the store holds its lock around it. -/
def execute (env : Env) (thread : Nat) (call : Call) (w : World) : Option (call.Answer × World) :=
  match call with
  | .store c =>
      if env.toCallEnv.Fits w.store then
        let (reply, store) := w.store.apply env.toCallEnv c
        some (reply, ⟨store, ⟨thread, w.store, .store c, reply⟩ :: w.history⟩)
      else none
  | .host c =>
      if w.admits c (env.host c) then
        some (env.host c, ⟨w.store, ⟨thread, w.store, .host c, env.host c⟩ :: w.history⟩)
      else none

/-! ## Programs of the server -/

/-- A program of the server. -/
abbrev Prog (α : Type) := Program Call Call.Answer α

/-- What a handler notes about its request: the headers set so far, and whether the request spent
a valid nonce. -/
structure RequestState where
  header : Header := []
  nonceSpent : Bool := false

/-- A program of the server that may refuse its request with a problem. -/
abbrev Handler (α : Type) := Attempt Call Call.Answer Problem RequestState α

/-- Ask the host. -/
def ask (c : HostCall) : Prog c.Answer := Program.perform (Call.host c)

/-- Call a store method. -/
def callStore (c : StoreCall) : Prog (Reply c) := Program.perform (Call.store c)

/-- Call a store method for its result only. -/
def fetch (c : StoreCall) : Prog (Except StoreError c.Value) := do
  let reply ← callStore c
  pure reply.result

/-- Sets a response header. -/
def setHeader (name value : String) : Handler Unit :=
  modify fun st => { st with header := st.header.put name value }

/-- Adds a response header. -/
def addHeader (name value : String) : Handler Unit :=
  modify fun st => { st with header := st.header.add name value }

end AcmeServer
