import AcmeServer.Resource.Basic
import AcmeServer.Table.Evolves

/-!
# How stored records change

For each kind of resource the changes that the programs of the server ever make to a stored record,
and what follows for a record and the same record after any number of changes. The `terms` of a
record are the part that no change touches.
-/

namespace AcmeServer.Protocol

open Relation

/-! ## Steps of single records -/

/-- An account keeps its identity and follows the transitions of its status. -/
structure AccountStep (a a' : Account) : Prop where
  revision : a'.revision = a.revision + 1
  id : a'.id = a.id
  status : a'.status = a.status ∨ a.status.canTransition a'.status = true

/-- What never changes in an order. -/
def orderTerms (o : Order) : Order :=
  { o with
    status := .pending
    error := none
    csr := []
    certificateID := ""
    issuance := none
    unpublishedResult := none
    revision := 0 }

/-- The unchanging fields that others look at. -/
theorem order_fields_eq {o o' : Order} (h : orderTerms o' = orderTerms o) :
    o'.id = o.id ∧ o'.accountID = o.accountID ∧ o'.authorizationIDs = o.authorizationIDs ∧
      o'.identifiers = o.identifiers ∧ o'.notBefore = o.notBefore ∧ o'.notAfter = o.notAfter ∧
      o'.profile = o.profile := by
  have hid := congrArg Order.id h
  have haccount := congrArg Order.accountID h
  have hlist := congrArg Order.authorizationIDs h
  have hidentifiers := congrArg Order.identifiers h
  have hnotBefore := congrArg Order.notBefore h
  have hnotAfter := congrArg Order.notAfter h
  have hprofile := congrArg Order.profile h
  exact ⟨hid, haccount, hlist, hidentifiers, hnotBefore, hnotAfter, hprofile⟩

/-- An order follows the transitions of its status and sets its certificate request and its
issuance state once. -/
structure OrderStep (o o' : Order) : Prop where
  revision : o'.revision = o.revision + 1
  terms : orderTerms o' = orderTerms o
  status : o'.status = o.status ∨ o.status.canTransition o'.status = true
  csr : o.csr ≠ [] → o'.csr = o.csr
  issuance : o.issuance ≠ none → o'.issuance = o.issuance

/-- What never changes in an authorization. -/
def authorizationTerms (a : Authorization) : Authorization :=
  { a with
    status := .pending
    expires := 0
    caCertificate := false
    grantExpires := 0
    grantNames := []
    grantNFType := ""
    revision := 0 }

/-- An authorization follows the transitions of its status and changes in nothing else until it is
decided. -/
structure AuthorizationStep (a a' : Authorization) : Prop where
  revision : a'.revision = a.revision + 1
  terms : authorizationTerms a' = authorizationTerms a
  status : a'.status = a.status ∨ a.status.canTransition a'.status = true
  undecided : a'.status = .pending → a' = { a with revision := a'.revision }

/-- What never changes in a challenge. -/
def challengeTerms (c : Challenge) : Challenge :=
  { c with
    status := .pending
    authorityToken := ""
    keyThumbprint := ""
    validated := 0
    error := none
    revision := 0 }

/-- A challenge follows the transitions of its status and keeps the time of its validation once it
is settled. -/
structure ChallengeStep (c c' : Challenge) : Prop where
  revision : c'.revision = c.revision + 1
  terms : challengeTerms c' = challengeTerms c
  status : c'.status = c.status ∨ c.status.canTransition c'.status = true
  validated : c.status.terminal = true → c'.validated = c.validated

/-- What never changes in a certificate. -/
def certificateTerms (c : Certificate) : Certificate :=
  { c with
    revoked := false
    revokedAt := 0
    revocationReason := 0
    revocationOperationID := ""
    revocationRequestedAt := 0
    replacedByOrderID := ""
    revision := 0 }

/-- The recorded revocation of a certificate: operation ID, reason and time. -/
def revocation (c : Certificate) : Option (String × Int × Time) :=
  if c.revoked then some (c.revocationOperationID, c.revocationReason, c.revokedAt) else none

/-- A certificate keeps its recorded revocation. -/
structure CertificateStep (c c' : Certificate) : Prop where
  revision : c'.revision = c.revision + 1
  terms : certificateTerms c' = certificateTerms c
  revoked : ∀ r, revocation c = some r → revocation c' = some r

/-! ## Any number of steps -/

section Account

variable {a a' : Account}

theorem AccountStep.lt (a a' : Account) (h : AccountStep a a') : a.revision < a'.revision := by
  have := h.revision
  omega

/-- An account that is valid was valid before. -/
theorem account_valid_before (h : ReflTransGen AccountStep a a') (hvalid : a'.status = .valid) :
    a.status = .valid := by
  induction h with
  | refl => exact hvalid
  | tail _ hstep ih =>
      apply ih
      rcases hstep.status with hsame | hmoved
      · rw [← hsame, hvalid]
      · rw [hvalid] at hmoved
        simp [AccountStatus.canTransition] at hmoved

end Account

section Order

variable {o o' : Order}

theorem OrderStep.lt (o o' : Order) (h : OrderStep o o') : o.revision < o'.revision := by
  have := h.revision
  omega

theorem order_terms_eq (h : ReflTransGen OrderStep o o') : orderTerms o' = orderTerms o :=
  Table.steps_keep (Q := fun x => orderTerms x = orderTerms o)
    (fun _ _ hstep ih => hstep.terms.trans ih) h rfl

/-- The certificate request of an order is set once. -/
theorem order_csr_eq (h : ReflTransGen OrderStep o o') (hcsr : o.csr ≠ []) : o'.csr = o.csr :=
  Table.steps_keep (Q := fun x => x.csr = o.csr)
    (fun _ _ hstep ih => (hstep.csr (by rwa [ih])).trans ih) h rfl

/-- The issuance state of an order is set once. -/
theorem order_issuance_eq (h : ReflTransGen OrderStep o o') (hissuance : o.issuance ≠ none) :
    o'.issuance = o.issuance :=
  Table.steps_keep (Q := fun x => x.issuance = o.issuance)
    (fun _ _ hstep ih => (hstep.issuance (by rwa [ih])).trans ih) h rfl

/-- A settled order keeps its status. -/
theorem order_terminal_eq (h : ReflTransGen OrderStep o o') (hterminal : o.status.terminal = true) :
    o'.status = o.status := by
  induction h with
  | refl => rfl
  | tail _ hstep ih =>
      rcases hstep.status with hsame | hmoved
      · exact hsame.trans ih
      · rw [ih, OrderStatus.not_can_transition_of_terminal hterminal] at hmoved
        cases hmoved

/-- An order that has left the stages before issuance does not return to them. -/
theorem order_finalized (h : ReflTransGen OrderStep o o')
    (hstatus : o.status = .processing ∨ o.status.terminal = true) :
    o'.status = .processing ∨ o'.status.terminal = true := by
  induction h with
  | refl => exact hstatus
  | tail _ hstep ih =>
      rcases hstep.status with hsame | hmoved
      · rwa [hsame]
      · rcases ih with hprocessing | hterminal
        · rw [hprocessing] at hmoved
          right
          simpa [OrderStatus.canTransition, OrderStatus.terminal] using hmoved
        · rw [OrderStatus.not_can_transition_of_terminal hterminal] at hmoved
          cases hmoved

end Order

section Authorization

variable {a a' : Authorization}

theorem AuthorizationStep.lt (a a' : Authorization) (h : AuthorizationStep a a') :
    a.revision < a'.revision := by
  have := h.revision
  omega

theorem authorization_terms_eq (h : ReflTransGen AuthorizationStep a a') :
    authorizationTerms a' = authorizationTerms a :=
  Table.steps_keep (Q := fun x => authorizationTerms x = authorizationTerms a)
    (fun _ _ hstep ih => hstep.terms.trans ih) h rfl

/-- A terminal authorization keeps its status. -/
theorem authorization_terminal_eq (h : ReflTransGen AuthorizationStep a a')
    (hterminal : a.status.terminal = true) : a'.status = a.status := by
  induction h with
  | refl => rfl
  | tail _ hstep ih =>
      rcases hstep.status with hsame | hmoved
      · exact hsame.trans ih
      · rw [ih, AuthorizationStatus.not_can_transition_of_terminal hterminal] at hmoved
        cases hmoved

/-- An authorization that is still undecided has only moved to another revision. -/
theorem authorization_undecided (h : ReflTransGen AuthorizationStep a a')
    (hpending : a'.status = .pending) : a' = { a with revision := a'.revision } := by
  induction h with
  | refl => rfl
  | @tail b c _ hstep ih =>
      have hc := hstep.undecided hpending
      have hb : b.status = .pending := by
        rw [hc] at hpending
        exact hpending
      rw [ih hb] at hc
      exact hc

end Authorization

section Challenge

variable {c c' : Challenge}

theorem ChallengeStep.lt (c c' : Challenge) (h : ChallengeStep c c') :
    c.revision < c'.revision := by
  have := h.revision
  omega

theorem challenge_terms_eq (h : ReflTransGen ChallengeStep c c') :
    challengeTerms c' = challengeTerms c :=
  Table.steps_keep (Q := fun x => challengeTerms x = challengeTerms c)
    (fun _ _ hstep ih => hstep.terms.trans ih) h rfl

/-- A settled challenge keeps its status. -/
theorem challenge_terminal_eq (h : ReflTransGen ChallengeStep c c')
    (hterminal : c.status.terminal = true) : c'.status = c.status := by
  induction h with
  | refl => rfl
  | tail _ hstep ih =>
      rcases hstep.status with hsame | hmoved
      · exact hsame.trans ih
      · rw [ih, ChallengeStatus.not_can_transition_of_terminal hterminal] at hmoved
        cases hmoved

/-- A settled challenge keeps the time of its validation. -/
theorem challenge_validated_eq (h : ReflTransGen ChallengeStep c c')
    (hterminal : c.status.terminal = true) : c'.validated = c.validated := by
  induction h with
  | refl => rfl
  | tail hsteps hstep ih =>
      have hstatus := challenge_terminal_eq hsteps hterminal
      exact (hstep.validated (by rwa [hstatus])).trans ih

/-- A challenge that was processing is processing or settled. -/
theorem challenge_accepted (h : ReflTransGen ChallengeStep c c')
    (hprocessing : c.status = .processing) :
    c'.status = .processing ∨ c'.status.terminal = true := by
  induction h with
  | refl => exact .inl hprocessing
  | tail _ hstep ih =>
      rcases hstep.status with hsame | hmoved
      · rwa [hsame]
      · rcases ih with hprocessing | hterminal
        · rw [hprocessing] at hmoved
          right
          simpa [ChallengeStatus.canTransition, ChallengeStatus.terminal] using hmoved
        · rw [ChallengeStatus.not_can_transition_of_terminal hterminal] at hmoved
          cases hmoved

end Challenge

section Certificate

variable {c c' : Certificate}

theorem CertificateStep.lt (c c' : Certificate) (h : CertificateStep c c') :
    c.revision < c'.revision := by
  have := h.revision
  omega

/-- A recorded revocation stays as it is. -/
theorem revocation_eq (h : ReflTransGen CertificateStep c c') {r : String × Int × Time}
    (hrevoked : revocation c = some r) : revocation c' = some r :=
  Table.steps_keep (Q := fun x => revocation x = some r) (fun _ _ hstep => hstep.revoked r) h
    hrevoked

/-- Keeping the recorded revocation, spelled out. -/
theorem revocation_kept (h : ∀ r, revocation c = some r → revocation c' = some r)
    (hrevoked : c.revoked = true) :
    c'.revoked = true ∧ c'.revocationOperationID = c.revocationOperationID ∧
      c'.revocationReason = c.revocationReason ∧ c'.revokedAt = c.revokedAt := by
  have hkept := h (c.revocationOperationID, c.revocationReason, c.revokedAt)
    (by rw [revocation, if_pos hrevoked])
  simpa [revocation] using hkept

end Certificate

end AcmeServer.Protocol
