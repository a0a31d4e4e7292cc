import Mathlib.Tactic.TypeStar

/-!
# Status values and the transitions between them

The four status types of `status.go` with `Terminal` and `CanTransition`, the transition diagrams
of RFC 8555 section 7.1.6. The store never consults them; that the server nevertheless obeys
them in every run is proved later.
-/

namespace AcmeServer

/-- The status of an account resource. -/
inductive AccountStatus where
  | valid
  | deactivated
  | revoked
deriving DecidableEq, Repr

/-- The status of an order resource. -/
inductive OrderStatus where
  | pending
  | ready
  | processing
  | valid
  | invalid
deriving DecidableEq, Repr

/-- The status of an authorization resource. -/
inductive AuthorizationStatus where
  | pending
  | valid
  | invalid
  | deactivated
  | expired
  | revoked
deriving DecidableEq, Repr

/-- The status of a challenge resource. -/
inductive ChallengeStatus where
  | pending
  | processing
  | valid
  | invalid
deriving DecidableEq, Repr

namespace AccountStatus

/-- Whether the status may move to `next`. -/
def canTransition (s next : AccountStatus) : Bool :=
  s == .valid && (next == .deactivated || next == .revoked)

/-- The text of the status on the wire. -/
def text : AccountStatus → String
  | .valid => "valid"
  | .deactivated => "deactivated"
  | .revoked => "revoked"

end AccountStatus

namespace OrderStatus

/-- Whether no further transition is possible. -/
def terminal (s : OrderStatus) : Bool := s == .valid || s == .invalid

/-- Whether the status may move to `next`. -/
def canTransition : OrderStatus → OrderStatus → Bool
  | .pending, next => next == .ready || next == .invalid
  | .ready, next => next == .processing || next == .invalid
  | .processing, next => next == .valid || next == .invalid
  | .valid, _ => false
  | .invalid, _ => false

/-- The text of the status on the wire. -/
def text : OrderStatus → String
  | .pending => "pending"
  | .ready => "ready"
  | .processing => "processing"
  | .valid => "valid"
  | .invalid => "invalid"

/-- A terminal order status admits no transition. -/
theorem not_can_transition_of_terminal {s : OrderStatus} (h : s.terminal = true)
    (next : OrderStatus) : s.canTransition next = false := by
  cases s <;> first | rfl | cases h

end OrderStatus

namespace AuthorizationStatus

/-- Whether no further transition is possible. -/
def terminal (s : AuthorizationStatus) : Bool := s != .pending && s != .valid

/-- Whether the status may move to `next`. -/
def canTransition : AuthorizationStatus → AuthorizationStatus → Bool
  | .pending, next =>
      next == .valid || next == .invalid || next == .deactivated || next == .expired
  | .valid, next => next == .deactivated || next == .expired || next == .revoked
  | .invalid, _ => false
  | .deactivated, _ => false
  | .expired, _ => false
  | .revoked, _ => false

/-- The text of the status on the wire. -/
def text : AuthorizationStatus → String
  | .pending => "pending"
  | .valid => "valid"
  | .invalid => "invalid"
  | .deactivated => "deactivated"
  | .expired => "expired"
  | .revoked => "revoked"

/-- A terminal authorization status admits no transition. -/
theorem not_can_transition_of_terminal {s : AuthorizationStatus} (h : s.terminal = true)
    (next : AuthorizationStatus) : s.canTransition next = false := by
  cases s <;> first | rfl | cases h

end AuthorizationStatus

namespace ChallengeStatus

/-- Whether no further transition is possible. -/
def terminal (s : ChallengeStatus) : Bool := s == .valid || s == .invalid

/-- Whether the status may move to `next`, including pending to invalid per erratum 5732. -/
def canTransition : ChallengeStatus → ChallengeStatus → Bool
  | .pending, next => next == .processing || next == .valid || next == .invalid
  | .processing, next => next == .valid || next == .invalid
  | .valid, _ => false
  | .invalid, _ => false

/-- A terminal challenge status admits no transition. -/
theorem not_can_transition_of_terminal {s : ChallengeStatus} (h : s.terminal = true)
    (next : ChallengeStatus) : s.canTransition next = false := by
  cases s <;> first | rfl | cases h

end ChallengeStatus

end AcmeServer
