import AcmeServer.Server.Issuance
import AcmeServer.X509.Names

/-!
# Checks of requests and of issued chains

`checkCSR` of `csr.go` and `checkChain` of `chain.go`, and the server whose certificate functions
are these. A certificate must end in time: `issued_not_after_earliest` says that the bound the
issuer is told is the earliest of the order's end and all grant expiries, and `check_validity_ok`
that the check of the issued certificate enforces this bound, up to the second.
-/

namespace AcmeServer.X509

open Name

/-- `Time.Truncate(time.Second)`. -/
def truncate (time : Time) : Time := time - time % 1000000000

/-! ## Identifiers and constraints -/

/-- Reports whether the names requested or issued include every order identifier and add only names
an authority token granted. -/
def coversIdentifiers (names order granted : List Identifier) : Bool :=
  (order.all fun id => id ∈ names) && names.all fun id => id ∈ order || id ∈ granted

/-- Returns every name the validations granted beyond their own identifiers. -/
def grantedNames (validations : List Validation) : List Identifier :=
  validations.flatMap Validation.names

/-- The basic constraints extension. -/
def basicConstraintsOID : List Nat := [2, 5, 29, 19]

/-- The sizes of accepted RSA keys. -/
def minRSABits : Nat := 2048
def maxRSABits : Nat := 4096

/-- Rejects keys the server does not issue for. -/
def checkCSRKey : RequestKeyType → Option Problem
  | .rsa bits =>
      if bits < minRSABits ∨ maxRSABits < bits then
        some (newProblem .badCSR ("CSR RSA key must have " ++ toString minRSABits ++ " to " ++
          toString maxRSABits ++ " bits"))
      else none
  | .ecdsa none => some (newProblem .badCSR "CSR EC key uses an unsupported curve")
  | .ecdsa (some _) | .ed25519 | .mldsa | .compositeMLDSA | .slhdsa => none
  | .other => some (newProblem .badCSR "CSR key type is not supported")

namespace Toolkit

variable (t : Toolkit)

/-- The loop of `csrCACertificate` with the value read so far. -/
def basicConstraint : List Extension → Option Bool → Except String Bool
  | [], found => .ok (found.getD false)
  | extension :: rest, found =>
      if extension.id ≠ basicConstraintsOID then basicConstraint rest found
      else if found.isSome then .error "duplicate basic constraints extension"
      else match t.basicConstraints extension.value with
        | none => .error "invalid basic constraints extension"
        | some isCA => basicConstraint rest (some isCA)

/-- Returns whether a certificate request asks for a CA certificate. -/
def csrCACertificate (extensions : List Extension) : Except String Bool :=
  t.basicConstraint extensions none

/-- Rejects a request for the account's own key. An account key signs JWS, which SLH-DSA cannot, so
only other key types can be reused. -/
def checkKeyReuse (key : RequestKey) (account : Account) : Option Problem :=
  if key.type = .slhdsa then none
  else match t.marshalPKIXPublicKey account.key, key.pkix with
    | none, _ => some (newProblem .serverInternal "account key could not be read")
    | some _, none => some (newProblem .badCSR "CSR key could not be read")
    | some accountKey, some csrKey =>
        if csrKey = accountKey then
          some (newProblem .badCSR "CSR key must not be the account key")
        else none

/-- Checks that the identifiers of a request are those of the order, and names that an authority
token granted. -/
def checkCSRIdentifiers (csr : CertificateRequest) (order : Order) (granted : List Identifier) :
    Option Problem :=
  match t.checkSANExtensions csr.extensions with
  | .error _ =>
      some (newProblem .badCSR "CSR requests unsupported subject alternative name types")
  | .ok () =>
      match t.csrIdentifiers csr with
      | .error p => some p
      | .ok requested =>
          if coversIdentifiers requested order.identifiers granted then none
          else some (newProblem .badCSR "CSR identifiers do not match the order")

/-- Parses a CSR and checks that it may finalize the order: a valid self signature, an accepted key
that is not the account key and the order's identifiers. -/
def checkCSR (der : Bytes) (order : Order) (account : Account) (granted : List Identifier) :
    Option Problem :=
  match t.parseCertificateRequest der with
  | .error _ => some (newProblem .badCSR "CSR could not be parsed")
  | .ok csr =>
      if (t.checkCSRSignature csr).isSome then
        some (newProblem .badCSR "CSR signature is invalid")
      else match t.parseCSRKey csr.rawSubjectPublicKeyInfo with
        | none => some (newProblem .badCSR "CSR key could not be read")
        | some key =>
            (checkCSRKey key.type).or
              ((t.checkKeyReuse key account).or (t.checkCSRIdentifiers csr order granted))

/-! ## Issued chains -/

/-- Checks the leaf CA basic constraint, which must match the accepted request on an authority list
order and must be absent on every other order. -/
def checkLeafCACertificate (leaf : Certificate) (csr : CertificateRequest) (order : Order) :
    Except String Unit :=
  if ¬order.identifiers.any fun id => id.type = .tnAuthList then
    if leaf.isCA then .error "leaf is a CA certificate but the order did not authorize one"
    else .ok ()
  else do
    let requested ← t.csrCACertificate csr.extensions
    if leaf.isCA ≠ requested then
      .error "leaf CA basic constraint does not match the certificate request"
    else .ok ()

/-- Checks that the certificate is valid, and only within what the order asked for and the authority
tokens granted. -/
def checkValidity (leaf : Certificate) (order : Order) (now : Time) : Except String Unit :=
  let start := truncate order.notBefore
  if ¬now < leaf.notAfter ∨ ¬leaf.notBefore < leaf.notAfter then
    .error "leaf certificate validity is invalid or expired"
  else if leaf.notBefore < start then
    .error "leaf notBefore is earlier than the accepted order"
  else if now < leaf.notBefore ∧ start < leaf.notBefore then
    .error "leaf certificate is not valid yet"
  else if ∃ state ∈ order.issuance,
      grantExpiry state.validations ≠ 0 ∧ grantExpiry state.validations < leaf.notAfter then
    .error "leaf certificate outlives the authority token"
  else if issuedNotAfter order ≠ 0 ∧ truncate (issuedNotAfter order) < leaf.notAfter then
    .error "leaf notAfter is later than the requested validity"
  else .ok ()

/-- Checks that the identifiers of the leaf are those of the order, and names that an authority
token granted. -/
def checkLeafIdentifiers (leaf : Certificate) (order : Order) : Except String Unit :=
  let granted := match order.issuance with
    | some state => grantedNames state.validations
    | none => []
  match t.certificateIdentifiers leaf with
  | .error _ => .error "leaf identifiers do not match the order"
  | .ok ids =>
      if ¬coversIdentifiers ids order.identifiers granted then
        .error "leaf identifiers do not match the order"
      else .ok ()

/-- Parses the elements of a chain from the given position on. -/
def parseChain : Nat → List Bytes → Except String (List Certificate)
  | _, [] => .ok []
  | i, der :: rest => do
      let cert ← (t.parseCertificate der).mapError fun text =>
        "chain element " ++ toString i ++ ": " ++ text
      let certs ← parseChain (i + 1) rest
      pure (cert :: certs)

/-- Checks that each element is signed by the next. -/
def checkSignatures : Nat → List Certificate → Except String Unit
  | i, cert :: parent :: rest =>
      match t.checkSignatureFrom cert parent with
      | some text =>
          .error ("chain element " ++ toString i ++ " is not signed by element " ++
            toString (i + 1) ++ ": " ++ text)
      | none => checkSignatures (i + 1) (parent :: rest)
  | _, _ => .ok ()

/-- Checks the issued key, identifiers, accepted validity and chain signatures before
publication. -/
def checkChain (chain : List Bytes) (csr : CertificateRequest) (order : Order) (now : Time) :
    Except String Certificate := do
  match ← t.parseChain 0 chain with
  | [] => .error "empty chain"
  | leaf :: rest =>
      if leaf.rawSubjectPublicKeyInfo ≠ csr.rawSubjectPublicKeyInfo then
        .error "leaf public key does not match the CSR"
      else do
        checkValidity leaf order now
        t.checkLeafIdentifiers leaf order
        t.checkLeafCACertificate leaf csr order
        t.checkSignatures 0 (leaf :: rest)
        pure leaf

/-! ## The server with these functions -/

/-- The part of a certificate that the server reads itself. -/
def leafOf (cert : Certificate) : Leaf := ⟨cert.notBefore, cert.notAfter, cert.publicKey⟩

/-- The server whose certificate functions are those of the toolkit. -/
def install (s : Server) : Server :=
  { s with
    normalize := t.normalize
    parseCertificate := fun der => (t.parseCertificate der).toOption.map leafOf
    parseCertificateRequest := fun der => (t.parseCertificateRequest der).map fun _ => ()
    checkCSR := t.checkCSR
    csrCACertificate := fun der => do
      let csr ← t.parseCertificateRequest der
      t.csrCACertificate csr.extensions
    checkChain := fun chain der order now => do
      let csr ← t.parseCertificateRequest der
      (t.checkChain chain csr order now).map leafOf
    revocationIdentifiers := fun der => do
      let leaf ← t.parseCertificate der
      t.revocationIdentifiers leaf }

end Toolkit

/-! ## The end of validity -/

/-- The time is the earliest of the set, or zero if the set is empty. -/
def Earliest (times : Set Time) (time : Time) : Prop :=
  (times = ∅ ∧ time = 0) ∨ IsLeast times time

/-- A time that may be unset. -/
def given (time : Time) : Set Time := {t | t ≠ 0 ∧ t = time}

theorem earliest_given (time : Time) : Earliest (given time) time := by
  by_cases h : time = 0
  · refine .inl ⟨Set.eq_empty_of_forall_notMem ?_, h⟩
    rintro t ⟨hne, rfl⟩
    exact hne h
  · refine .inr ⟨⟨h, rfl⟩, ?_⟩
    rintro t ⟨-, rfl⟩
    exact le_refl t

/-- The earlier of two times that may be unset. -/
theorem Earliest.union {S T : Set Time} {a b : Time} (ha : Earliest S a) (hb : Earliest T b)
    (hT : 0 ∉ T) (hS : 0 ∉ S) :
    Earliest (S ∪ T) (if b ≠ 0 ∧ (a = 0 ∨ b < a) then b else a) := by
  rcases hb with ⟨rfl, rfl⟩ | hb
  · rw [Set.union_empty, if_neg fun h => h.1 rfl]
    exact ha
  · have hb0 : b ≠ 0 := fun h => hT (h ▸ hb.1)
    rcases ha with ⟨rfl, rfl⟩ | ha
    · rw [Set.empty_union, if_pos ⟨hb0, .inl rfl⟩]
      exact .inr hb
    · have ha0 : a ≠ 0 := fun h => hS (h ▸ ha.1)
      have hleast := ha.union hb
      by_cases hlt : b < a
      · rw [if_pos ⟨hb0, .inr hlt⟩]
        rw [min_eq_right hlt.le] at hleast
        exact .inr hleast
      · rw [if_neg fun h => h.2.elim ha0 hlt]
        rw [min_eq_left (not_lt.1 hlt)] at hleast
        exact .inr hleast

/-- The expiries that validations have. -/
def grantTimes (validations : List Validation) : Set Time :=
  {t | t ≠ 0 ∧ ∃ v ∈ validations, t = v.grantExpires}

theorem grant_expiry_earliest (validations : List Validation) :
    Earliest (grantTimes validations) (grantExpiry validations) := by
  -- The fold keeps the earliest of the expiries it has seen.
  have hfold (bound : Time) (S : Set Time) (hbound : Earliest S bound) (hS : 0 ∉ S) :
      Earliest (S ∪ grantTimes validations) (validations.foldl (fun bound v =>
        if v.grantExpires ≠ 0 ∧ (bound = 0 ∨ v.grantExpires < bound) then v.grantExpires
        else bound) bound) := by
    induction validations generalizing bound S with
    | nil =>
        have hnil : S ∪ grantTimes [] = S := by simp [grantTimes]
        rw [hnil]
        exact hbound
    | cons v rest ih =>
        have hcons : S ∪ grantTimes (v :: rest) = (S ∪ given v.grantExpires) ∪ grantTimes rest := by
          rw [Set.union_assoc]
          congr 1
          ext t
          simp only [grantTimes, given, List.exists_mem_cons_iff, Set.mem_ofPred_eq, Set.mem_union]
          tauto
        rw [hcons, List.foldl_cons]
        refine ih _ _ (hbound.union (earliest_given _) (fun h => h.1 rfl) hS) ?_
        rintro (h | h)
        · exact hS h
        · exact h.1 rfl
  have h := hfold 0 ∅ (.inl ⟨rfl, rfl⟩) (Set.notMem_empty 0)
  rwa [Set.empty_union] at h

/-- The validations of a dispatched order. -/
def orderValidations (order : Order) : List Validation :=
  match order.issuance with
  | some state => state.validations
  | none => []

/-- The times by which a certificate for the order must have ended. -/
def endTimes (order : Order) : Set Time :=
  given order.notAfter ∪ grantTimes (orderValidations order)

theorem zero_not_mem_end_times (order : Order) : 0 ∉ endTimes order := by
  rintro (h | h)
  · exact h.1 rfl
  · exact h.1 rfl

/-- The issuer is asked for the earliest end. -/
theorem issued_not_after_earliest (order : Order) :
    Earliest (endTimes order) (issuedNotAfter order) := by
  have hgrant : Earliest (grantTimes (orderValidations order))
      (match order.issuance with
        | some state => grantExpiry state.validations
        | none => 0) := by
    unfold orderValidations
    cases order.issuance with
    | some state => exact grant_expiry_earliest _
    | none => exact grant_expiry_earliest []
  exact (earliest_given order.notAfter).union hgrant (fun h => h.1 rfl) fun h => h.1 rfl

theorem truncate_le (time : Time) : truncate time ≤ time :=
  Int.sub_le_self time (Int.emod_nonneg time (by decide))

/-- The grants that a certificate within the bound does not outlive. -/
theorem not_after_le_grant {order : Order} {notAfter : Time}
    (h : ∀ b, IsLeast (endTimes order) b → notAfter ≤ truncate b) {v : Validation}
    (hv : v ∈ orderValidations order) (hgrant : v.grantExpires ≠ 0) :
    notAfter ≤ v.grantExpires := by
  have hmem : v.grantExpires ∈ endTimes order := .inr ⟨hgrant, v, hv, rfl⟩
  rcases issued_not_after_earliest order with ⟨hempty, -⟩ | hleast
  · rw [hempty] at hmem
    exact absurd hmem (Set.notMem_empty _)
  · exact (h _ hleast).trans ((truncate_le _).trans (hleast.2 hmem))

/-- The check of the validity enforces the earliest end, up to the second. -/
theorem check_validity_ok {leaf : Certificate} {order : Order} {now : Time} :
    Toolkit.checkValidity leaf order now = .ok () ↔
      now < leaf.notAfter ∧ leaf.notBefore < leaf.notAfter ∧
        truncate order.notBefore ≤ leaf.notBefore ∧
        leaf.notBefore ≤ max now (truncate order.notBefore) ∧
        ∀ b, IsLeast (endTimes order) b → leaf.notAfter ≤ truncate b := by
  unfold Toolkit.checkValidity
  simp only [Fallible.guard_eq_ok, and_true]
  constructor
  · rintro ⟨hends, hstart, hlate, -, hbound⟩
    rw [not_or, not_not, not_not] at hends
    refine ⟨hends.1, hends.2, not_lt.1 hstart, ?_, fun b hb => ?_⟩
    · by_contra hmax
      rw [le_max_iff, not_or, not_le, not_le] at hmax
      exact hlate hmax
    · rcases issued_not_after_earliest order with ⟨hempty, -⟩ | hleast
      · rw [hempty] at hb
        exact absurd hb.1 (Set.notMem_empty b)
      · cases hb.unique hleast
        have hne : issuedNotAfter order ≠ 0 := fun h => zero_not_mem_end_times order (h ▸ hb.1)
        exact not_lt.1 fun hlt => hbound ⟨hne, hlt⟩
  · rintro ⟨hnow, hends, hstart, hlate, hbound⟩
    refine ⟨?_, not_lt.2 hstart, ?_, ?_, ?_⟩
    · rw [not_or, not_not, not_not]
      exact ⟨hnow, hends⟩
    · rintro ⟨hafter, hafter'⟩
      rcases le_max_iff.1 hlate with h | h
      · exact not_lt.2 h hafter
      · exact not_lt.2 h hafter'
    · -- The bound of the grants alone is not below the bound of everything.
      rintro ⟨state, hstate, hne, hlt⟩
      rcases grant_expiry_earliest state.validations with ⟨-, hzero⟩ | ⟨⟨-, v, hv, heq⟩, -⟩
      · exact hne hzero
      · have hvalidations : orderValidations order = state.validations := by
          rw [orderValidations, Option.mem_def.1 hstate]
        rw [heq] at hne hlt
        exact not_lt.2 (not_after_le_grant hbound (hvalidations ▸ hv) hne) hlt
    · rintro ⟨hne, hlt⟩
      rcases issued_not_after_earliest order with ⟨-, hzero⟩ | hleast
      · exact hne hzero
      · exact not_lt.2 (hbound _ hleast) hlt

/-- A certificate within the earliest end is not refused for ending too late. -/
theorem check_validity_not_late {leaf : Certificate} {order : Order} {now : Time}
    (h : ∀ b, IsLeast (endTimes order) b → leaf.notAfter ≤ truncate b) :
    Toolkit.checkValidity leaf order now ≠
        .error "leaf certificate outlives the authority token" ∧
      Toolkit.checkValidity leaf order now ≠
        .error "leaf notAfter is later than the requested validity" := by
  by_cases hok : Toolkit.checkValidity leaf order now = .ok ()
  · rw [hok]
    exact ⟨nofun, nofun⟩
  · -- If the other checks pass as well, the whole check does.
    rw [check_validity_ok] at hok
    unfold Toolkit.checkValidity
    dsimp only
    split
    · simp
    · next hends =>
        rw [not_or, not_not, not_not] at hends
        split
        · simp
        · next hstart =>
            split
            · simp
            · next hlate =>
                refine absurd ⟨hends.1, hends.2, not_lt.1 hstart, ?_, h⟩ hok
                by_contra hmax
                rw [le_max_iff, not_or, not_le, not_le] at hmax
                exact hlate hmax

/-! ## Accepted chains -/

namespace Toolkit

variable {t : Toolkit} {leaf : Certificate} {csr : CertificateRequest} {order : Order}

/-- The leaf names every identifier of the order and nothing that was not ordered or granted. -/
theorem check_leaf_identifiers_ok :
    t.checkLeafIdentifiers leaf order = .ok () ↔
      ∃ ids, t.certificateIdentifiers leaf = .ok ids ∧ (∀ id ∈ order.identifiers, id ∈ ids) ∧
        ∀ id ∈ ids, id ∈ order.identifiers ∨ ∃ v ∈ orderValidations order, id ∈ v.names := by
  have hgranted : (match order.issuance with
      | some state => grantedNames state.validations
      | none => []) = grantedNames (orderValidations order) := by
    unfold orderValidations
    cases order.issuance <;> rfl
  unfold checkLeafIdentifiers
  rw [hgranted]
  cases t.certificateIdentifiers leaf with
  | error text => exact ⟨nofun, fun ⟨_, h, _⟩ => nomatch h⟩
  | ok ids =>
      rw [Fallible.guard_eq_ok]
      simp [coversIdentifiers, grantedNames, or_iff_not_imp_left]

/-- A CA certificate is accepted only for an authority list and a request for one. -/
theorem check_leaf_ca_certificate_ok (h : t.checkLeafCACertificate leaf csr order = .ok ())
    (hca : leaf.isCA) :
    (∃ id ∈ order.identifiers, id.type = .tnAuthList) ∧
      t.csrCACertificate csr.extensions = .ok true := by
  unfold checkLeafCACertificate at h
  rw [if_pos hca] at h
  split at h
  · cases h
  · next hlist =>
      obtain ⟨requested, hrequested, hsame⟩ := Fallible.bind_eq_ok.1 h
      obtain ⟨hsame, -⟩ := Fallible.guard_eq_ok.1 hsame
      rw [not_not, hca] at hsame
      refine ⟨by simpa using hlist, ?_⟩
      rw [hrequested, ← hsame]

/-- The elements of a chain are parsed one by one. -/
theorem parse_chain_cons {i : Nat} {chain : List Bytes} {rest : List Certificate}
    (h : t.parseChain i chain = .ok (leaf :: rest)) :
    ∃ der, chain.head? = some der ∧ t.parseCertificate der = .ok leaf := by
  cases chain with
  | nil => cases h
  | cons der chain =>
      obtain ⟨cert, hcert, hmore⟩ := Fallible.bind_eq_ok.1 h
      obtain ⟨certs, -, hcons⟩ := Fallible.bind_eq_ok.1 hmore
      cases hcons
      exact ⟨der, rfl, Fallible.map_error_eq_ok.1 hcert⟩

/-- What is true of the leaf of an accepted chain. -/
structure Acceptable (t : Toolkit) (chain : List Bytes) (csr : CertificateRequest) (order : Order)
    (now : Time) (leaf : Certificate) : Prop where
  parsed : ∃ der, chain.head? = some der ∧ t.parseCertificate der = .ok leaf
  key : leaf.rawSubjectPublicKeyInfo = csr.rawSubjectPublicKeyInfo
  validity : checkValidity leaf order now = .ok ()
  identifiers : t.checkLeafIdentifiers leaf order = .ok ()
  constraint : t.checkLeafCACertificate leaf csr order = .ok ()
  signed : ∃ rest, t.parseChain 0 chain = .ok (leaf :: rest) ∧
    t.checkSignatures 0 (leaf :: rest) = .ok ()

theorem check_chain_ok {chain : List Bytes} {now : Time} :
    t.checkChain chain csr order now = .ok leaf ↔ t.Acceptable chain csr order now leaf := by
  unfold checkChain
  rw [Fallible.bind_eq_ok]
  constructor
  · rintro ⟨certs, hcerts, h⟩
    cases certs with
    | nil => cases h
    | cons found rest =>
        obtain ⟨hkey, h⟩ := Fallible.guard_eq_ok.1 h
        obtain ⟨⟨⟩, hvalidity, h⟩ := Fallible.bind_eq_ok.1 h
        obtain ⟨⟨⟩, hidentifiers, h⟩ := Fallible.bind_eq_ok.1 h
        obtain ⟨⟨⟩, hconstraint, h⟩ := Fallible.bind_eq_ok.1 h
        obtain ⟨⟨⟩, hsigned, h⟩ := Fallible.bind_eq_ok.1 h
        cases h
        exact ⟨parse_chain_cons hcerts, not_not.1 hkey, hvalidity, hidentifiers, hconstraint, rest,
          hcerts, hsigned⟩
  · rintro ⟨-, hkey, hvalidity, hidentifiers, hconstraint, rest, hcerts, hsigned⟩
    refine ⟨leaf :: rest, hcerts, Fallible.guard_eq_ok.2 ⟨not_not.2 hkey, ?_⟩⟩
    rw [hvalidity, hidentifiers, hconstraint, hsigned]
    rfl

/-- The server checks a chain against the request it has parsed. -/
theorem install_check_chain_ok {s : Server} {chain : List Bytes} {der : Bytes} {now : Time}
    {found : Leaf} (h : (t.install s).checkChain chain der order now = .ok found) :
    ∃ csr leaf, t.parseCertificateRequest der = .ok csr ∧
      t.checkChain chain csr order now = .ok leaf ∧ found = leafOf leaf := by
  obtain ⟨csr, hcsr, hcheck⟩ := Fallible.bind_eq_ok.1 h
  cases hleaf : t.checkChain chain csr order now with
  | error text =>
      rw [hleaf] at hcheck
      cases hcheck
  | ok leaf =>
      rw [hleaf] at hcheck
      cases hcheck
      exact ⟨csr, leaf, hcsr, hleaf, rfl⟩

end Toolkit

/-! ## A sample certificate

A certificate request and a certificate for one name, in the encodings that were made for them. -/

namespace Sample

/-- The key of the request. -/
def keyInfo : Bytes :=
  [0x30, 0x2A, 0x30, 0x05, 0x06, 0x03, 0x2B, 0x65, 0x70, 0x03, 0x21, 0x00, 0x34, 0xC1, 0x2A,
   0x23, 0x05, 0x18, 0xA7, 0x5D, 0xE5, 0xBA, 0xAA, 0xBC, 0x6C, 0xDB, 0x29, 0x1B, 0xC4, 0x8C,
   0x49, 0xBF, 0x00, 0x9B, 0x9D, 0x71, 0x17, 0xE6, 0x23, 0x2A, 0xBC, 0x87, 0xEF, 0x03]

/-- A certificate request for the name. -/
def requestDER : Bytes :=
  [0x30, 0x81, 0xA9, 0x30, 0x5D, 0x02, 0x01, 0x00, 0x30, 0x00, 0x30, 0x2A, 0x30, 0x05, 0x06,
   0x03, 0x2B, 0x65, 0x70, 0x03, 0x21, 0x00, 0x34, 0xC1, 0x2A, 0x23, 0x05, 0x18, 0xA7, 0x5D,
   0xE5, 0xBA, 0xAA, 0xBC, 0x6C, 0xDB, 0x29, 0x1B, 0xC4, 0x8C, 0x49, 0xBF, 0x00, 0x9B, 0x9D,
   0x71, 0x17, 0xE6, 0x23, 0x2A, 0xBC, 0x87, 0xEF, 0x03, 0xA0, 0x2A, 0x30, 0x28, 0x06, 0x09,
   0x2A, 0x86, 0x48, 0x86, 0xF7, 0x0D, 0x01, 0x09, 0x0E, 0x31, 0x1B, 0x30, 0x19, 0x30, 0x17,
   0x06, 0x03, 0x55, 0x1D, 0x11, 0x01, 0x01, 0xFF, 0x04, 0x0D, 0x30, 0x0B, 0x82, 0x09, 0x61,
   0x2E, 0x65, 0x78, 0x61, 0x6D, 0x70, 0x6C, 0x65, 0x30, 0x05, 0x06, 0x03, 0x2B, 0x65, 0x70,
   0x03, 0x41, 0x00, 0x50, 0x07, 0x32, 0x48, 0x07, 0xAA, 0xC7, 0xEF, 0xA3, 0xD4, 0x63, 0xEB,
   0x84, 0xCD, 0xA3, 0x10, 0xEF, 0x6E, 0xB0, 0x2E, 0x0F, 0x4E, 0x0C, 0xD7, 0x3E, 0x30, 0x6D,
   0xED, 0x01, 0x85, 0xB1, 0x2D, 0x48, 0x05, 0x86, 0x1F, 0x66, 0xBB, 0xBA, 0x3B, 0xF2, 0x66,
   0xEE, 0xB1, 0x82, 0x4C, 0xA8, 0x61, 0x25, 0xAF, 0xAF, 0x09, 0x39, 0x48, 0x99, 0x93, 0x3B,
   0x5A, 0x9F, 0xE3, 0x21, 0x66, 0x01, 0x0D]

/-- A certificate for the name, which is valid for ninety days. -/
def leafDER : Bytes :=
  [0x30, 0x81, 0xC8, 0x30, 0x7C, 0xA0, 0x03, 0x02, 0x01, 0x02, 0x02, 0x01, 0x01, 0x30, 0x05,
   0x06, 0x03, 0x2B, 0x65, 0x70, 0x30, 0x00, 0x30, 0x1E, 0x17, 0x0D, 0x32, 0x36, 0x31, 0x31,
   0x31, 0x35, 0x30, 0x38, 0x33, 0x38, 0x30, 0x34, 0x5A, 0x17, 0x0D, 0x32, 0x37, 0x30, 0x32,
   0x31, 0x33, 0x30, 0x38, 0x33, 0x38, 0x30, 0x34, 0x5A, 0x30, 0x00, 0x30, 0x2A, 0x30, 0x05,
   0x06, 0x03, 0x2B, 0x65, 0x70, 0x03, 0x21, 0x00, 0x34, 0xC1, 0x2A, 0x23, 0x05, 0x18, 0xA7,
   0x5D, 0xE5, 0xBA, 0xAA, 0xBC, 0x6C, 0xDB, 0x29, 0x1B, 0xC4, 0x8C, 0x49, 0xBF, 0x00, 0x9B,
   0x9D, 0x71, 0x17, 0xE6, 0x23, 0x2A, 0xBC, 0x87, 0xEF, 0x03, 0xA3, 0x1B, 0x30, 0x19, 0x30,
   0x17, 0x06, 0x03, 0x55, 0x1D, 0x11, 0x01, 0x01, 0xFF, 0x04, 0x0D, 0x30, 0x0B, 0x82, 0x09,
   0x61, 0x2E, 0x65, 0x78, 0x61, 0x6D, 0x70, 0x6C, 0x65, 0x30, 0x05, 0x06, 0x03, 0x2B, 0x65,
   0x70, 0x03, 0x41, 0x00, 0xC6, 0x52, 0xB5, 0x5C, 0x61, 0xB2, 0x38, 0x77, 0x3E, 0xF1, 0x5D,
   0xFE, 0xA0, 0x43, 0xB2, 0x7C, 0xB3, 0x8A, 0x7E, 0xFF, 0xFA, 0xBB, 0xE5, 0xB7, 0x2A, 0x14,
   0xED, 0xE7, 0xD0, 0xC8, 0x2B, 0xFE, 0x2F, 0x26, 0x82, 0x74, 0xED, 0x2B, 0x8B, 0xF4, 0x2B,
   0xDC, 0x37, 0xE7, 0xD6, 0x01, 0x87, 0x92, 0xBF, 0xF0, 0xDF, 0x5D, 0x6D, 0x57, 0x55, 0x1E,
   0xD9, 0xDA, 0x03, 0xF6, 0x6D, 0x53, 0x45, 0x0F]

/-- The parsed request. -/
def parsedRequest : CertificateRequest :=
  { subject "" ["a.example"] with rawSubjectPublicKeyInfo := keyInfo }

/-- The parsed certificate. -/
def parsedLeaf : Certificate :=
  { subject "" ["a.example"] with
    rawSubjectPublicKeyInfo := keyInfo
    publicKey := some (.ed25519 (keyInfo.drop 12))
    notBefore := 63930328684000000000
    notAfter := 63938104684000000000
    isCA := false }

/-- The sample toolkit that reads the two encodings. -/
def reader : Toolkit :=
  { toolkit with
    parseCertificate := fun der =>
      if der = leafDER then .ok parsedLeaf else .error "x509: malformed certificate"
    parseCertificateRequest := fun der =>
      if der = requestDER then .ok parsedRequest else .error "asn1: structure error" }

end Sample

end AcmeServer.X509
