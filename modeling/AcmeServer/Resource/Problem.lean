import Mathlib.Data.Int.Basic

/-!
# Identifiers, problem documents and host errors

`Problem` is the problem document of `problem.go`. `HostError` is what a host interface (policy,
validator, issuer, revoker, limiter) may return: a chain of wrapped errors that can contain a
problem or a retryable failure. `asProblem` looks for a problem in the chain as `AsProblem` does.
-/

namespace AcmeServer

/-- A point in time in nanoseconds since Go's zero time, which may lie before it. -/
abbrev Time := Int

/-- A time span in nanoseconds. -/
abbrev Duration := Int

abbrev Bytes := List UInt8

/-- The kind of subject an identifier names. A client may send any other type name. -/
inductive IdentifierType where
  | dns
  | ip
  | tnAuthList
  | nfInstanceID
  | uri
  | other (name : String)
deriving DecidableEq, Repr

/-- An ACME identifier object. -/
structure Identifier where
  type : IdentifierType
  value : String
deriving DecidableEq, Repr

namespace Identifier

/-- Whether the identifier is a DNS name whose leftmost label is a wildcard. -/
def isWildcard (id : Identifier) : Bool :=
  id.type == .dns && "*.".toList.isPrefixOf id.value.toList

end Identifier

/-- ACME error types without the URN namespace. A host may use names of its own. -/
inductive ErrorType where
  | accountDoesNotExist
  | alreadyReplaced
  | alreadyRevoked
  | badCSR
  | badNonce
  | badPublicKey
  | badRevocationReason
  | badSignatureAlgorithm
  | caa
  | compound
  | connection
  | dns
  | dnssec
  | externalAccountRequired
  | incorrectResponse
  | invalidContact
  | invalidProfile
  | malformed
  | orderNotReady
  | rateLimited
  | rejectedIdentifier
  | serverInternal
  | tls
  | unauthorized
  | unsupportedContact
  | unsupportedIdentifier
  | userActionRequired
  | other (name : String)
deriving DecidableEq, Repr

/-- An ACME problem document. A zero status leaves the choice to the type. -/
structure Problem where
  type : ErrorType
  detail : String
  status : Int := 0
  identifier : Option Identifier := none
  subproblems : List (Option Problem) := []
  algorithms : List String := []
  retryAfter : Duration := 0

/-- The HTTP status a problem of each type uses unless it sets its own. -/
def defaultStatus : ErrorType → Option Int
  | .accountDoesNotExist => some 400
  | .alreadyReplaced => some 409
  | .alreadyRevoked => some 400
  | .badCSR => some 400
  | .badNonce => some 400
  | .badPublicKey => some 400
  | .badRevocationReason => some 400
  | .badSignatureAlgorithm => some 400
  | .caa => some 403
  | .compound => some 400
  | .connection => some 400
  | .dns => some 400
  | .dnssec => some 400
  | .externalAccountRequired => some 403
  | .incorrectResponse => some 400
  | .invalidContact => some 400
  | .invalidProfile => some 400
  | .malformed => some 400
  | .orderNotReady => some 403
  | .rateLimited => some 429
  | .rejectedIdentifier => some 400
  | .serverInternal => some 500
  | .tls => some 400
  | .unauthorized => some 403
  | .unsupportedContact => some 400
  | .unsupportedIdentifier => some 400
  | .userActionRequired => some 403
  | .other _ => none

namespace Problem

/-- The status the problem is written with. -/
def httpStatus (p : Problem) : Int :=
  if p.status ≠ 0 then p.status else (defaultStatus p.type).getD 500

mutual

/-- Problems can be compared field by field. -/
def decEq : (p q : Problem) → Decidable (p = q)
  | ⟨t, d, s, i, l, a, r⟩, ⟨t', d', s', i', l', a', r'⟩ =>
      if h : t = t' ∧ d = d' ∧ s = s' ∧ i = i' ∧ a = a' ∧ r = r' then
        match decEqList l l' with
        | .isTrue hl => .isTrue (by obtain ⟨rfl, rfl, rfl, rfl, rfl, rfl⟩ := h; rw [hl])
        | .isFalse hl => .isFalse fun heq => hl (Problem.mk.inj heq).2.2.2.2.1
      else .isFalse fun heq => h (by cases heq; exact ⟨rfl, rfl, rfl, rfl, rfl, rfl⟩)

/-- Subproblem lists can be compared entry by entry. -/
def decEqList : (l m : List (Option Problem)) → Decidable (l = m)
  | [], [] => .isTrue rfl
  | [], _ :: _ => .isFalse (by simp)
  | _ :: _, [] => .isFalse (by simp)
  | none :: l, none :: m =>
      match decEqList l m with
      | .isTrue h => .isTrue (by rw [h])
      | .isFalse h => .isFalse fun heq => h (List.cons.inj heq).2
  | none :: _, some _ :: _ => .isFalse (by simp)
  | some _ :: _, none :: _ => .isFalse (by simp)
  | some p :: l, some q :: m =>
      match decEq p q, decEqList l m with
      | .isTrue h, .isTrue h' => .isTrue (by rw [h, h'])
      | .isFalse h, _ => .isFalse fun heq => h (Option.some.inj (List.cons.inj heq).1)
      | _, .isFalse h => .isFalse fun heq => h (List.cons.inj heq).2

end

instance : DecidableEq Problem := decEq

/-- The problem with the HTTP status overridden. -/
def withStatus (p : Problem) (status : Int) : Problem := { p with status := status }

/-- The problem naming the affected identifier. -/
def withIdentifier (p : Problem) (id : Identifier) : Problem := { p with identifier := some id }

/-- The problem asking the client to wait before retrying. -/
def withRetryAfter (p : Problem) (d : Duration) : Problem := { p with retryAfter := d }

end Problem

/-- A problem of the given type with the default HTTP status of that type. -/
def newProblem (type : ErrorType) (detail : String) : Problem := { type := type, detail := detail }

/-- The order error for an authorization that stopped being valid before issuance was
dispatched. -/
def invalidAuthorizationProblem : Problem :=
  newProblem .unauthorized "an order authorization is no longer valid"

/-- An error returned by a host interface: `errors.New`, a problem, a retryable failure with its
optional problem, or one error wrapped in another. -/
inductive HostError where
  | text (message : String)
  | problem (p : Problem)
  | retryable (p : Option Problem) (cause : HostError)
  | wrapped (message : String) (cause : HostError)

namespace HostError

/-- The problem in the error chain, if there is one. A retryable failure unwraps to its cause,
never to the problem it reports. -/
def asProblem : HostError → Option Problem
  | .text _ => none
  | .problem p => some p
  | .retryable _ cause => cause.asProblem
  | .wrapped _ cause => cause.asProblem

/-- The problem of the outermost retryable failure in the chain. -/
def retryableProblem : HostError → Option Problem
  | .text _ => none
  | .problem _ => none
  | .retryable p _ => p
  | .wrapped _ cause => cause.retryableProblem

end HostError

/-- The problem a client sees for a validation failure that may clear on a later attempt. -/
def retryProblem (err : HostError) (fallback : String) : Problem :=
  err.retryableProblem.getD (newProblem .serverInternal fallback)

end AcmeServer
