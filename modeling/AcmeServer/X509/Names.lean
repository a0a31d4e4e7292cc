import AcmeServer.Fallible.Collect
import AcmeServer.Name.Identifier
import AcmeServer.Server.Order

/-!
# The names of certificates and certificate requests

How `chain.go` reads the identifiers of a certificate and `csr.go` those of a certificate request.
The two are written separately: a request may name an identifier several times, a certificate may
not, and they print IP addresses with different packages. `certificate_identifiers_agree_iff` says
when a certificate with the names of an accepted request has the same identifiers.

Certificates and requests are in the form in which `crypto/x509` returns them. `Toolkit` collects
what the code uses of the packages around it.
-/

namespace AcmeServer.X509

open Name

/-! ## Certificates and requests -/

/-- The subject of a certificate or request. A URI is in the form in which it prints. -/
structure Subject where
  commonName : String
  dnsNames : List String
  ipAddresses : List Bytes
  uris : List String
  extensions : List Extension
deriving DecidableEq, Repr

/-- The fields of an `x509.Certificate` that the server reads. The key is missing when no JWS can be
signed with it. -/
structure Certificate extends Subject where
  rawSubjectPublicKeyInfo : Bytes
  publicKey : Option PublicKey
  notBefore : Time
  notAfter : Time
  isCA : Bool

/-- The fields of an `x509.CertificateRequest` that the server reads. -/
structure CertificateRequest extends Subject where
  rawSubjectPublicKeyInfo : Bytes

/-- The header of an ASN.1 value of any type. -/
structure RawValue where
  classNumber : Nat
  isCompound : Bool
  tag : Nat
deriving DecidableEq, Repr

/-- The keys of certificate requests, as far as the server tells them apart. -/
inductive RequestKeyType where
  | rsa (bits : Nat)
  | ecdsa (curve : Option Curve)
  | ed25519
  | mldsa
  | compositeMLDSA
  | slhdsa
  | other
deriving DecidableEq, Repr

/-- The key of a certificate request with its PKIX form, if it has one. -/
structure RequestKey where
  type : RequestKeyType
  pkix : Option Bytes

/-- What the certificate code uses of other packages. `generalNames` and `basicConstraints` are
`asn1.Unmarshal` for the contents of the two extensions, without trailing data. The text of an IP
address starts with a hexadecimal digit or a colon. -/
structure Toolkit extends Platform where
  parse_start : ∀ {text : String} {a : Addr}, parseAddr text = some a →
    ∃ c rest, text.toList = c :: rest ∧ (c ∈ "0123456789abcdefABCDEF:".toList)
  generalNames : Bytes → Option (List RawValue)
  basicConstraints : Bytes → Option Bool
  parseCertificate : Bytes → Except String Certificate
  parseCertificateRequest : Bytes → Except String CertificateRequest
  parseCSRKey : Bytes → Option RequestKey
  marshalPKIXPublicKey : PublicKey → Option Bytes
  checkCSRSignature : CertificateRequest → Option String
  checkSignatureFrom : Certificate → Certificate → Option String

/-! ## Common names -/

/-- Reports whether the common name is outside the identifier model. -/
def commonNameExempt (ids : List Identifier) : Bool :=
  (ids.length == 1 && ids.head?.any fun id => id.type = .tnAuthList) ||
    ids.any fun id => id.type = .nfInstanceID

/-- Text in hexadecimal digits. -/
def hexString (bytes : Bytes) : String :=
  String.ofList (bytes.flatMap fun b =>
    [Nat.digitChar (b.toNat / 16), Nat.digitChar (b.toNat % 16)])

/-- `net.IP.To4`. -/
def to4 (ip : Bytes) : Option { b : Bytes // b.length = 4 } :=
  if h : ip.length = 4 then some ⟨ip, h⟩
  else if h : ip.length = 16 ∧ ip.take 12 = Addr.v4InV6Prefix then
    some ⟨ip.drop 12, by rw [List.length_drop, h.1]⟩
  else none

namespace Toolkit

variable (t : Toolkit)

/-- `net.IP.String`. -/
def ipString (ip : Bytes) : String :=
  if ip.length = 0 then "<nil>"
  else match to4 ip with
    | some bytes => t.addrText (.v4 bytes)
    | none =>
        if h : ip.length = 16 then t.addrText (.v6 ⟨ip, h⟩ "")
        else "?" ++ hexString ip

/-- Interprets an IP common name as an IP identifier and every other value as DNS. -/
def commonNameIdentifier (name : String) : Identifier :=
  if (t.parseAddr name).isSome then ⟨.ip, name⟩ else ⟨.dns, name⟩

/-! ## Certificates -/

/-- The subject alternative name extension. -/
def sanOID : List Nat := [2, 5, 29, 17]

/-- Whether the name is a DNS name, a URI or an IP address. -/
def supportedName (name : RawValue) : Bool :=
  name.classNumber == 2 && !name.isCompound && (name.tag == 2 || name.tag == 6 || name.tag == 7)

/-- Rejects SAN forms that no identifier covers: anything but DNS names, URIs and IP addresses. -/
def checkSANExtensions : List Extension → Except String Unit
  | [] => .ok ()
  | extension :: rest =>
      if extension.id ≠ sanOID then checkSANExtensions rest
      else match t.generalNames extension.value with
        | none => .error "invalid subject alternative name extension"
        | some names =>
            if ∃ name ∈ names, ¬supportedName name then
              .error "unsupported subject alternative name type"
            else checkSANExtensions rest

/-- Normalizes every identifier and rejects duplicates in the normalized set. -/
def normalizeIdentifiers (ids : List Identifier) : Except Problem (List Identifier) :=
  Fallible.distinct t.normalize (fun normalized =>
    (newProblem .malformed
      ("identifier " ++ normalized.text ++ " is listed more than once")).withIdentifier
        normalized) ids

/-- The address of an IP SAN. -/
def ipNameIdentifier (ip : Bytes) : Except String Identifier :=
  match Addr.fromSlice ip with
  | none => .error "invalid IP SAN"
  | some addr => .ok ⟨.ip, t.addrText addr.unmap⟩

/-- The identifiers of a certificate before they are normalized. -/
def sanNames (leaf : Certificate) : Except String (List Identifier) := do
  t.checkSANExtensions leaf.extensions
  let tnAuthList ← tnAuthListExtension leaf.extensions
  let uris ← leaf.uris.mapM fun uri =>
    (t.uriNameIdentifier uri).mapError fun _ => "unsupported URI SAN"
  let ips ← leaf.ipAddresses.mapM t.ipNameIdentifier
  pure (tnAuthList.toList ++ (uris ++ (leaf.dnsNames.map (⟨.dns, ·⟩) ++ ips)))

/-- Returns the complete supported SAN set of a certificate. -/
def certificateSANs (leaf : Certificate) : Except String (List Identifier) := do
  let names ← t.sanNames leaf
  let ids ← (t.normalizeIdentifiers names).mapError fun _ => "invalid certificate identifiers"
  if ids.length = 0 then .error "invalid certificate identifiers" else pure ids

/-- Returns the identifier the common name of a certificate asserts, if it asserts one. -/
def certificateCommonName (leaf : Certificate) (ids : List Identifier) :
    Except Problem (Option Identifier) :=
  if leaf.commonName = "" ∨ commonNameExempt ids then .ok none
  else (t.normalize (t.commonNameIdentifier leaf.commonName)).map some

/-- Returns the complete supported SAN set and checks the common name against it, unless the common
name is exempt. -/
def certificateIdentifiers (leaf : Certificate) : Except String (List Identifier) := do
  let ids ← t.certificateSANs leaf
  match t.certificateCommonName leaf ids with
  | .error _ => .error "common name is outside the SAN set"
  | .ok none => pure ids
  | .ok (some cn) =>
      if cn.value ≠ "" ∧ cn ∉ ids then .error "common name is outside the SAN set" else pure ids

/-- Returns every identity a certificate asserts, adding a common name that its SAN set does not
cover, so a revoking account has to prove control of that name too. The caller drops the error, of
which only the detail is kept. -/
def revocationIdentifiers (leaf : Certificate) : Except String (List Identifier) := do
  let ids ← t.certificateSANs leaf
  match t.certificateCommonName leaf ids with
  | .error p => .error p.detail
  | .ok none => pure ids
  | .ok (some cn) => pure (if cn.value ≠ "" ∧ cn ∉ ids then ids ++ [cn] else ids)

/-! ## Certificate requests -/

/-- The identifiers that a request names in its extensions, before they are normalized. -/
def csrNames (csr : CertificateRequest) : Except Problem (List Identifier) := do
  let tnAuthList ← (tnAuthListExtension csr.extensions).mapError fun _ =>
    newProblem .badCSR "CSR TN authorization list is not acceptable"
  let uris ← csr.uris.mapM fun uri =>
    (t.uriNameIdentifier uri).mapError fun _ =>
      newProblem .badCSR ("CSR URI name " ++ uri ++ " is not acceptable")
  pure (tnAuthList.toList ++
    (csr.dnsNames.map (⟨.dns, ·⟩) ++ (csr.ipAddresses.map (⟨.ip, t.ipString ·⟩) ++ uris)))

/-- Adds the common name of a request to its other names, unless it is exempt. -/
def withCommonName (csr : CertificateRequest) (names : List Identifier) : List Identifier :=
  if csr.commonName ≠ "" ∧ ¬commonNameExempt names then
    names ++ [t.commonNameIdentifier csr.commonName]
  else names

/-- Returns the normalized identifiers a CSR requests through its SANs and, unless it names an
authority list alone or a network function instance, its common name. -/
def csrIdentifiers (csr : CertificateRequest) : Except Problem (List Identifier) := do
  let names ← t.csrNames csr
  let raw := t.withCommonName csr names
  if raw.length = 0 then
    .error (newProblem .badCSR "CSR requests no identifiers")
  else
    Fallible.once (fun id => (t.normalize id).mapError fun _ =>
      newProblem .badCSR ("CSR identifier " ++ id.text ++ " is not acceptable")) raw

end Toolkit

/-! ## The names of a subject -/

/-- What the exemption of a common name depends on. -/
theorem common_name_exempt_of_types {ids ids' : List Identifier}
    (h : ids.map Identifier.type = ids'.map Identifier.type) :
    commonNameExempt ids = commonNameExempt ids' := by
  have htypes (l : List Identifier) : commonNameExempt l =
      ((l.map Identifier.type).length == 1 &&
        (l.map Identifier.type).head?.any (fun type => type = .tnAuthList) ||
      (l.map Identifier.type).any fun type => type = .nfInstanceID) := by
    rw [commonNameExempt, List.length_map, List.head?_map, List.any_map, Option.any_map]
    rfl
  rw [htypes, htypes, h]

/-- The common name is exempt next to an authority list alone or an instance ID. -/
theorem common_name_exempt_iff {tnAuthList : Option Identifier} {rest : List Identifier}
    (hlist : ∀ id ∈ tnAuthList, id.type = .tnAuthList)
    (hrest : ∀ id ∈ rest, id.type ≠ .tnAuthList) :
    commonNameExempt (tnAuthList.toList ++ rest) ↔
      (tnAuthList ≠ none ∧ rest = []) ∨ ∃ id ∈ rest, id.type = .nfInstanceID := by
  cases tnAuthList with
  | none =>
      have hhead : ¬(rest.head?.any fun id => id.type = .tnAuthList) = true := by
        cases rest with
        | nil => simp
        | cons id rest => simpa using hrest id List.mem_cons_self
      simp [commonNameExempt, hhead]
  | some id =>
      have htype : id.type = .tnAuthList := hlist id rfl
      simp [commonNameExempt, htype]

/-- The order of the identifiers does not matter for the exemption. -/
theorem common_name_exempt_perm {ids ids' : List Identifier} (h : ids.Perm ids') :
    commonNameExempt ids = commonNameExempt ids' := by
  by_cases hone : ids.length = 1
  · obtain ⟨id, rfl⟩ := List.length_eq_one_iff.1 hone
    rw [List.singleton_perm.1 h]
  · have hone' : ids'.length ≠ 1 := h.length_eq ▸ hone
    rw [Bool.eq_iff_iff]
    simp [commonNameExempt, hone, hone', h.mem_iff]

/-- An authority list extension names an authority list. -/
theorem tn_auth_list_extension_type {extensions : List Extension} {id : Identifier}
    (h : tnAuthListExtension extensions = .ok (some id)) : id.type = .tnAuthList := by
  unfold tnAuthListExtension at h
  split at h
  · cases h
  · split at h
    · cases h
    · cases h
      rfl
  · cases h

/-- The subjects have the same names, in any order and number, and the same authority list. -/
structure SameNames (a b : Subject) : Prop where
  commonName : a.commonName = b.commonName
  dnsNames : ∀ name, name ∈ a.dnsNames ↔ name ∈ b.dnsNames
  ipAddresses : ∀ ip, ip ∈ a.ipAddresses ↔ ip ∈ b.ipAddresses
  uris : ∀ uri, uri ∈ a.uris ↔ uri ∈ b.uris
  tnAuthList : (a.extensions.filter fun e => e.id = tnAuthListOID) =
    b.extensions.filter fun e => e.id = tnAuthListOID

theorem SameNames.extension_eq {a b : Subject} (h : SameNames a b) :
    tnAuthListExtension a.extensions = tnAuthListExtension b.extensions := by
  rw [tnAuthListExtension, h.tnAuthList, ← tnAuthListExtension]

namespace Toolkit

/-- All SANs are DNS names, URIs and IP addresses. -/
def SupportedSANs (t : Toolkit) (extensions : List Extension) : Prop :=
  ∀ e ∈ extensions, e.id = sanOID →
    ∃ names, t.generalNames e.value = some names ∧ ∀ name ∈ names, supportedName name

/-- The identities of a subject from its URIs, DNS names and IP addresses, before they are
normalized. -/
def otherNames (t : Toolkit) (s : Subject) : List Identifier :=
  s.uris.filterMap (fun uri => (t.uriNameIdentifier uri).toOption) ++
    (s.dnsNames.map (⟨.dns, ·⟩) ++ s.ipAddresses.map (⟨.ip, t.ipString ·⟩))

/-- The identities a subject has next to its common name, before they are normalized. -/
def identities (t : Toolkit) (s : Subject) : List Identifier :=
  (tnAuthListExtension s.extensions).toOption.join.toList ++ t.otherNames s

variable {t : Toolkit}

theorem check_san_extensions_ok {extensions : List Extension} :
    t.checkSANExtensions extensions = .ok () ↔ t.SupportedSANs extensions := by
  induction extensions with
  | nil => simp [checkSANExtensions, SupportedSANs]
  | cons e rest ih =>
      have hcons : t.SupportedSANs (e :: rest) ↔ (e.id = sanOID → ∃ names,
          t.generalNames e.value = some names ∧ ∀ name ∈ names, supportedName name) ∧
          t.SupportedSANs rest := List.forall_mem_cons
      rw [hcons, ← ih, checkSANExtensions]
      split
      · next hother => simp [hother]
      · next hsan =>
          rw [not_not] at hsan
          split
          · next hnone => simp [hsan, hnone]
          · next names hnames =>
              rw [Fallible.guard_eq_ok]
              simp [hsan, hnames]

/-! ## IP addresses -/

/-- The two packages print an IP address in the same way. -/
theorem ip_name_identifier_ok {ip : Bytes} {id : Identifier} :
    t.ipNameIdentifier ip = .ok id ↔
      (ip.length = 4 ∨ ip.length = 16) ∧ id = ⟨.ip, t.ipString ip⟩ := by
  rw [eq_comm (a := id)]
  by_cases h4 : ip.length = 4
  · simp [ipNameIdentifier, Addr.fromSlice, Addr.unmap, ipString, to4, h4]
  · by_cases h16 : ip.length = 16
    · by_cases hmapped : ip.take 12 = Addr.v4InV6Prefix
      · simp [ipNameIdentifier, Addr.fromSlice, Addr.unmap, ipString, to4, h16, hmapped]
      · simp [ipNameIdentifier, Addr.fromSlice, Addr.unmap, ipString, to4, h16, hmapped]
    · simp [ipNameIdentifier, Addr.fromSlice, h4, h16]

theorem results_ip_names {ips : List Bytes} {ids : List Identifier}
    (h : Fallible.Results t.ipNameIdentifier ips ids) :
    ips.map (⟨.ip, t.ipString ·⟩) = ids := by
  induction h with
  | nil => rfl
  | cons hip _ ih => rw [List.map_cons, ih, (ip_name_identifier_ok.1 hip).2]

/-- Bytes that are no IP address print as text that is none. -/
theorem length_of_parse_ip {ip : Bytes} {a : Addr} (h : t.parseAddr (t.ipString ip) = some a) :
    ip.length = 4 ∨ ip.length = 16 := by
  by_contra hlength
  rw [not_or] at hlength
  obtain ⟨c, rest, htext, hdigit⟩ := t.parse_start h
  by_cases hnil : ip.length = 0
  · rw [ipString, if_pos hnil] at htext
    cases htext
    exact absurd hdigit (by decide)
  · rw [ipString, if_neg hnil, to4, dif_neg hlength.1, dif_neg fun h => hlength.2 h.1,
      dif_neg hlength.2, String.toList_append] at htext
    cases htext
    exact absurd hdigit (by decide)

/-- An IP address with a normal form is one of a certificate. -/
theorem ip_name_identifier_of_normalize {ip : Bytes} {n : Identifier}
    (h : t.normalize ⟨.ip, t.ipString ip⟩ = .ok n) :
    t.ipNameIdentifier ip = .ok ⟨.ip, t.ipString ip⟩ := by
  have hip : t.normalizeIP (t.ipString ip) = .ok n := h
  obtain ⟨-, a, hparse, -⟩ := Platform.normalize_ip_ok.1 hip
  exact ip_name_identifier_ok.2 ⟨length_of_parse_ip hparse, rfl⟩

/-! ## What is read from certificates and requests -/

theorem san_names_ok {leaf : Certificate} {names : List Identifier} :
    t.sanNames leaf = .ok names ↔
      t.SupportedSANs leaf.extensions ∧
        (∃ found, tnAuthListExtension leaf.extensions = .ok found) ∧
        (∀ uri ∈ leaf.uris, ∃ id, t.uriNameIdentifier uri = .ok id) ∧
        (∀ ip ∈ leaf.ipAddresses, ∃ id, t.ipNameIdentifier ip = .ok id) ∧
        names = t.identities leaf.toSubject := by
  unfold sanNames
  simp only [Fallible.bind_eq_ok, Fallible.map_m_eq_ok, Fallible.results_map_error,
    ← Fallible.exists_results]
  constructor
  · rintro ⟨⟨⟩, hsupported, found, hfound, uris, huris, ips, hips, hnames⟩
    cases hnames
    refine ⟨check_san_extensions_ok.1 hsupported, ⟨found, hfound⟩, ⟨uris, huris⟩, ⟨ips, hips⟩, ?_⟩
    rw [identities, otherNames, hfound, Fallible.Results.filter_map huris, results_ip_names hips]
    rfl
  · rintro ⟨hsupported, ⟨found, hfound⟩, ⟨uris, huris⟩, ⟨ips, hips⟩, rfl⟩
    refine ⟨(), check_san_extensions_ok.2 hsupported, found, hfound, uris, huris, ips, hips, ?_⟩
    rw [identities, otherNames, hfound, Fallible.Results.filter_map huris, results_ip_names hips]
    rfl

/-- The SAN set of a certificate is that of its identities, which must have different normal
forms. -/
theorem certificate_sans_ok {leaf : Certificate} {ids : List Identifier} :
    t.certificateSANs leaf = .ok ids ↔
      ∃ names, t.sanNames leaf = .ok names ∧ Fallible.Results t.normalize names ids ∧ ids.Nodup ∧
        ids ≠ [] := by
  unfold certificateSANs
  simp only [Fallible.bind_eq_ok, Fallible.map_error_eq_ok, Fallible.guard_eq_ok,
    normalizeIdentifiers, Fallible.distinct_eq_ok, List.length_eq_zero_iff]
  constructor
  · rintro ⟨names, hnames, found, ⟨hresults, hnodup⟩, hne, hids⟩
    cases hids
    exact ⟨names, hnames, hresults, hnodup, hne⟩
  · rintro ⟨names, hnames, hresults, hnodup, hne⟩
    exact ⟨names, hnames, ids, ⟨hresults, hnodup⟩, hne, rfl⟩

/-- The names of a request are the identities of its subject, in another order. -/
theorem csr_names_ok {csr : CertificateRequest} {names : List Identifier}
    (h : t.csrNames csr = .ok names) :
    (∃ found, tnAuthListExtension csr.extensions = .ok found) ∧
      (∀ uri ∈ csr.uris, ∃ id, t.uriNameIdentifier uri = .ok id) ∧
      names.Perm (t.identities csr.toSubject) := by
  unfold csrNames at h
  simp only [Fallible.bind_eq_ok, Fallible.map_m_eq_ok, Fallible.results_map_error,
    Fallible.map_error_eq_ok] at h
  obtain ⟨found, hfound, uris, huris, hnames⟩ := h
  cases hnames
  refine ⟨⟨found, hfound⟩, Fallible.exists_results.1 ⟨uris, huris⟩, ?_⟩
  rw [identities, otherNames, hfound, Fallible.Results.filter_map huris,
    ← List.append_assoc _ _ uris]
  exact List.perm_append_comm.append_left _

/-- The identifiers of an accepted request. -/
theorem csr_identifiers_ok {csr : CertificateRequest} {ids : List Identifier}
    (h : t.csrIdentifiers csr = .ok ids) :
    ∃ names, t.csrNames csr = .ok names ∧ t.withCommonName csr names ≠ [] ∧
      (∀ id ∈ t.withCommonName csr names, ∃ n, t.normalize id = .ok n) ∧
      ∀ n, n ∈ ids ↔ ∃ id ∈ t.withCommonName csr names, t.normalize id = .ok n := by
  unfold csrIdentifiers at h
  simp only [Fallible.bind_eq_ok, Fallible.guard_eq_ok, List.length_eq_zero_iff] at h
  obtain ⟨names, hnames, hne, honce⟩ := h
  obtain ⟨hall, hmem⟩ := Fallible.once_eq_ok honce
  simp only [Fallible.map_error_eq_ok] at hall hmem
  exact ⟨names, hnames, hne, hall, hmem⟩

theorem certificate_common_name_ok {leaf : Certificate} {ids : List Identifier}
    {cn : Option Identifier} :
    t.certificateCommonName leaf ids = .ok cn ↔
      if leaf.commonName = "" ∨ commonNameExempt ids then cn = none
      else ∃ n, cn = some n ∧ t.normalize (t.commonNameIdentifier leaf.commonName) = .ok n := by
  unfold certificateCommonName
  split
  · rw [Except.ok.injEq, eq_comm]
  · cases t.normalize (t.commonNameIdentifier leaf.commonName) with
    | error p => exact ⟨nofun, fun ⟨_, _, h⟩ => nomatch h⟩
    | ok n =>
        constructor
        · intro h
          cases h
          exact ⟨n, rfl, rfl⟩
        · rintro ⟨n, rfl, h⟩
          cases h
          rfl

/-- The identifiers of a certificate are its SAN set, which must have the common name. -/
theorem certificate_identifiers_ok {leaf : Certificate} {ids : List Identifier} :
    t.certificateIdentifiers leaf = .ok ids ↔
      t.certificateSANs leaf = .ok ids ∧ ∃ cn, t.certificateCommonName leaf ids = .ok cn ∧
        ∀ n ∈ cn, n.value ≠ "" → n ∈ ids := by
  unfold certificateIdentifiers
  rw [Fallible.bind_eq_ok]
  constructor
  · rintro ⟨found, hfound, h⟩
    split at h
    · cases h
    · next hnone =>
        cases h
        exact ⟨hfound, none, hnone, nofun⟩
    · next cn hsome =>
        obtain ⟨hcovered, hids⟩ := Fallible.guard_eq_ok.1 h
        cases hids
        refine ⟨hfound, some cn, hsome, fun n hn hvalue => ?_⟩
        cases hn
        exact not_not.1 fun hnot => hcovered ⟨hvalue, hnot⟩
  · rintro ⟨hfound, cn, hcn, hcovered⟩
    refine ⟨ids, hfound, ?_⟩
    rw [hcn]
    cases cn with
    | none => rfl
    | some n =>
        exact Fallible.guard_eq_ok.2 ⟨fun ⟨hvalue, hnot⟩ => hnot (hcovered n rfl hvalue), rfl⟩

/-- A normalized common name has a value. -/
theorem common_name_value_ne {name : String} {n : Identifier}
    (h : t.normalize (t.commonNameIdentifier name) = .ok n) : n.value ≠ "" := by
  unfold commonNameIdentifier at h
  split at h
  · exact (Platform.normalize_ip_ok.1 (Platform.normalize_ip_normalized h).2).1
  · exact (Platform.normalize_dns_checks.1 (Platform.normalize_dns_normalized h).2).1

theorem results_types {names ids : List Identifier} (h : Fallible.Results t.normalize names ids) :
    ids.map Identifier.type = names.map Identifier.type := by
  induction h with
  | nil => rfl
  | cons hn _ ih => rw [List.map_cons, List.map_cons, ih, Platform.normalize_type hn]

/-- The identities of a certificate are the normal forms of all its names and of a common name that
is not exempt. -/
theorem revocation_identifiers_ok {leaf : Certificate} {ids : List Identifier}
    (h : t.revocationIdentifiers leaf = .ok ids) :
    t.sanNames leaf = .ok (t.identities leaf.toSubject) ∧
      (∀ name ∈ t.identities leaf.toSubject, ∃ n ∈ ids, t.normalize name = .ok n) ∧
      (leaf.commonName ≠ "" → ¬commonNameExempt (t.identities leaf.toSubject) →
        ∃ n ∈ ids, t.normalize (t.commonNameIdentifier leaf.commonName) = .ok n) := by
  unfold revocationIdentifiers at h
  obtain ⟨sans, hsans, h⟩ := Fallible.bind_eq_ok.1 h
  obtain ⟨names, hread, hresults, -, -⟩ := certificate_sans_ok.1 hsans
  obtain rfl := (san_names_ok.1 hread).2.2.2.2
  obtain ⟨cn, hcn, hsubset, hmem⟩ : ∃ cn, t.certificateCommonName leaf sans = .ok cn ∧ sans ⊆ ids ∧
      ∀ n ∈ cn, n.value ≠ "" → n ∈ ids := by
    split at h
    · cases h
    · next hnone =>
        cases h
        exact ⟨none, hnone, fun _ hid => hid, nofun⟩
    · next n hsome =>
        cases h
        refine ⟨some n, hsome, fun id hid => ?_, fun n' hn' hvalue => ?_⟩
        · split
          · exact List.mem_append_left _ hid
          · exact hid
        · cases hn'
          split
          · exact List.mem_append_right _ (List.mem_singleton_self n)
          · next hcovered => exact not_not.1 fun hnot => hcovered ⟨hvalue, hnot⟩
  refine ⟨hread, fun name hname => ?_, fun hcommon hexempt => ?_⟩
  · obtain ⟨n, hn⟩ := Fallible.exists_results.1 ⟨sans, hresults⟩ name hname
    exact ⟨n, hsubset (hresults.mem_iff.2 ⟨name, hname, hn⟩), hn⟩
  · rw [← common_name_exempt_of_types (results_types hresults)] at hexempt
    rw [certificate_common_name_ok, if_neg (not_or.2 ⟨hcommon, hexempt⟩)] at hcn
    obtain ⟨n, rfl, hn⟩ := hcn
    exact ⟨n, hmem n rfl (common_name_value_ne hn), hn⟩

/-! ## Certificates with the names of a request -/

theorem other_names_type {s : Subject} {id : Identifier} (h : id ∈ t.otherNames s) :
    id.type ≠ .tnAuthList := by
  rw [otherNames, List.mem_append, List.mem_append, List.mem_filterMap, List.mem_map,
    List.mem_map] at h
  rcases h with ⟨uri, -, huri⟩ | ⟨_, -, rfl⟩ | ⟨_, -, rfl⟩
  · cases hid : t.uriNameIdentifier uri with
    | error p =>
        rw [hid] at huri
        cases huri
    | ok found =>
        rw [hid] at huri
        cases huri
        rcases Platform.uri_name_type hid with htype | htype <;> rw [htype] <;> nofun
  · nofun
  · nofun

theorem identities_exempt_iff {s : Subject} :
    commonNameExempt (t.identities s) ↔
      ((tnAuthListExtension s.extensions).toOption.join ≠ none ∧ t.otherNames s = []) ∨
        ∃ id ∈ t.otherNames s, id.type = .nfInstanceID := by
  refine common_name_exempt_iff (fun id hid => ?_) fun id hid => other_names_type hid
  cases hfound : tnAuthListExtension s.extensions with
  | error text =>
      rw [hfound] at hid
      cases hid
  | ok found =>
      rw [hfound] at hid
      cases hid
      exact tn_auth_list_extension_type hfound

section SameNames

variable {a b : Subject}

theorem other_names_mem (h : SameNames a b) {id : Identifier} :
    id ∈ t.otherNames a ↔ id ∈ t.otherNames b := by
  simp only [otherNames, List.mem_append, List.mem_filterMap, List.mem_map, h.uris, h.dnsNames,
    h.ipAddresses]

theorem identities_mem (h : SameNames a b) {id : Identifier} :
    id ∈ t.identities a ↔ id ∈ t.identities b := by
  rw [identities, identities, List.mem_append, List.mem_append, other_names_mem h, h.extension_eq]

theorem identities_exempt (h : SameNames a b) :
    commonNameExempt (t.identities a) = commonNameExempt (t.identities b) := by
  rw [Bool.eq_iff_iff, identities_exempt_iff, identities_exempt_iff, h.extension_eq,
    List.eq_nil_iff_forall_not_mem, List.eq_nil_iff_forall_not_mem]
  simp only [other_names_mem h]

end SameNames

/-- The common name of the subject is empty, exempt, or another way to write one of its other
names. -/
def CommonNameCovered (t : Toolkit) (s : Subject) : Prop :=
  s.commonName = "" ∨ commonNameExempt (t.identities s) ∨
    ∃ cn, t.normalize (t.commonNameIdentifier s.commonName) = .ok cn ∧
      ∃ name ∈ t.identities s, t.normalize name = .ok cn

/-- An accepted request whose common name is covered asks for its identities, all of which have
normal forms. -/
theorem csr_identifiers_covered {csr : CertificateRequest} {ids : List Identifier}
    (haccepted : t.csrIdentifiers csr = .ok ids) (hcommon : t.CommonNameCovered csr.toSubject) :
    (∀ id ∈ t.identities csr.toSubject, ∃ n, t.normalize id = .ok n) ∧
      t.identities csr.toSubject ≠ [] ∧
      ∀ n, n ∈ ids ↔ ∃ id ∈ t.identities csr.toSubject, t.normalize id = .ok n := by
  obtain ⟨names, hnames, hne, hall, hmem⟩ := csr_identifiers_ok haccepted
  obtain ⟨-, -, hperm⟩ := csr_names_ok hnames
  unfold withCommonName at hne hall hmem
  split at hne
  · next hasserted =>
      rw [if_pos hasserted] at hall hmem
      have hexempt := common_name_exempt_perm hperm
      obtain ⟨cn, hcn, name, hname, hsame⟩ :=
        (hcommon.resolve_left hasserted.1).resolve_left (hexempt ▸ hasserted.2)
      refine ⟨fun id hid => hall id (List.mem_append_left _ (hperm.mem_iff.2 hid)),
        List.ne_nil_of_mem hname, fun n => (hmem n).trans ?_⟩
      constructor
      · rintro ⟨id, hid, hn⟩
        rcases List.mem_append.1 hid with hid | hid
        · exact ⟨id, hperm.mem_iff.1 hid, hn⟩
        · rw [List.mem_singleton.1 hid, hcn] at hn
          cases hn
          exact ⟨name, hname, hsame⟩
      · rintro ⟨id, hid, hn⟩
        exact ⟨id, List.mem_append_left _ (hperm.mem_iff.2 hid), hn⟩
  · next hexempt =>
      rw [if_neg hexempt] at hall hmem
      refine ⟨fun id hid => hall id (hperm.mem_iff.2 hid), fun hnil => hne ?_, ?_⟩
      · rw [hnil] at hperm
        exact hperm.eq_nil
      · simpa only [hperm.mem_iff] using hmem

/-- The names of an accepted request can be read from a certificate. -/
theorem san_names_of_request {csr : CertificateRequest} {ids : List Identifier} {leaf : Certificate}
    (haccepted : t.csrIdentifiers csr = .ok ids) (hcommon : t.CommonNameCovered csr.toSubject)
    (hsame : SameNames leaf.toSubject csr.toSubject) (hsans : t.SupportedSANs leaf.extensions) :
    t.sanNames leaf = .ok (t.identities leaf.toSubject) := by
  obtain ⟨names, hnames, -⟩ := csr_identifiers_ok haccepted
  obtain ⟨hfound, huris, -⟩ := csr_names_ok hnames
  obtain ⟨hall, -⟩ := csr_identifiers_covered haccepted hcommon
  refine san_names_ok.2 ⟨hsans, ?_, ?_, ?_, rfl⟩
  · rw [hsame.extension_eq]
    exact hfound
  · exact fun uri huri => huris uri ((hsame.uris uri).1 huri)
  · intro ip hip
    have hname : (⟨.ip, t.ipString ip⟩ : Identifier) ∈ t.identities csr.toSubject := by
      simp only [identities, otherNames, List.mem_append, List.mem_map]
      exact .inr (.inr (.inr ⟨ip, (hsame.ipAddresses ip).1 hip, rfl⟩))
    obtain ⟨n, hn⟩ := hall _ hname
    exact ⟨_, ip_name_identifier_of_normalize hn⟩

/-- A certificate with the names of an accepted request has the identifiers of the request exactly
when no two of its names have the same normal form. -/
theorem certificate_identifiers_agree_iff {csr : CertificateRequest} {ids : List Identifier}
    {leaf : Certificate} (haccepted : t.csrIdentifiers csr = .ok ids)
    (hcommon : t.CommonNameCovered csr.toSubject)
    (hsame : SameNames leaf.toSubject csr.toSubject) (hsans : t.SupportedSANs leaf.extensions) :
    (∃ found, t.certificateIdentifiers leaf = .ok found ∧ ∀ id, id ∈ found ↔ id ∈ ids) ↔
      Fallible.Apart t.normalize (t.identities leaf.toSubject) := by
  have hread := san_names_of_request haccepted hcommon hsame hsans
  obtain ⟨hall, hne, hmem⟩ := csr_identifiers_covered haccepted hcommon
  simp only [← identities_mem hsame] at hall hmem
  constructor
  · rintro ⟨found, hfound, -⟩
    obtain ⟨names, hnames, hresults, hnodup, -⟩ :=
      certificate_sans_ok.1 (certificate_identifiers_ok.1 hfound).1
    rw [hread] at hnames
    cases hnames
    exact hresults.nodup_iff.1 hnodup
  · intro hapart
    obtain ⟨found, hresults⟩ := Fallible.exists_results.2 hall
    have hmem' (n : Identifier) : n ∈ found ↔ n ∈ ids := hresults.mem_iff.trans (hmem n).symm
    have hfound : t.certificateSANs leaf = .ok found := by
      refine certificate_sans_ok.2 ⟨_, hread, hresults, hresults.nodup_iff.2 hapart, ?_⟩
      obtain ⟨id, hid⟩ := List.exists_mem_of_ne_nil _ hne
      rw [← identities_mem hsame] at hid
      obtain ⟨n, hn⟩ := hall id hid
      exact List.ne_nil_of_mem (hresults.mem_iff.2 ⟨id, hid, hn⟩)
    refine ⟨found, certificate_identifiers_ok.2 ⟨hfound, ?_⟩, hmem'⟩
    by_cases hout : leaf.commonName = "" ∨ commonNameExempt found
    · exact ⟨none, certificate_common_name_ok.2 (by rw [if_pos hout]), nofun⟩
    · have hexempt : commonNameExempt found = commonNameExempt (t.identities csr.toSubject) :=
        (common_name_exempt_of_types (results_types hresults)).trans (identities_exempt hsame)
      rw [not_or, hsame.commonName, hexempt] at hout
      obtain ⟨cn, hcn, name, hname, hnormal⟩ :=
        (hcommon.resolve_left hout.1).resolve_left hout.2
      refine ⟨some cn, certificate_common_name_ok.2 ?_, fun n hn _ => ?_⟩
      · rw [hsame.commonName, hexempt, if_neg (not_or.2 hout)]
        exact ⟨cn, rfl, hcn⟩
      · cases hn
        exact hresults.mem_iff.2 ⟨name, (identities_mem hsame).2 hname, hnormal⟩

end Toolkit

/-! ## A request and its certificate -/

namespace Sample

/-- The headers of values in short form. Every value takes one of the rounds. -/
def headers : Nat → Bytes → Option (List RawValue)
  | _, [] => some []
  | rounds + 1, tag :: length :: rest =>
      if rest.length < length.toNat then none
      else
        (headers rounds (rest.drop length.toNat)).map
          (⟨tag.toNat / 64, tag.toNat / 32 % 2 == 1, tag.toNat % 32⟩ :: ·)
  | _, _ => none

/-- The headers in a sequence in short form. -/
def generalNames : Bytes → Option (List RawValue)
  | 0x30 :: length :: rest =>
      if rest.length = length.toNat then headers rest.length rest else none
  | _ => none

/-- A subject alternative name extension with DNS names. -/
def dnsExtension (names : List String) : Extension :=
  let content := names.flatMap fun name =>
    0x82 :: UInt8.ofNat name.length :: name.toList.map Name.Sample.byte
  ⟨Toolkit.sanOID, 0x30 :: UInt8.ofNat content.length :: content⟩

/-- A subject with DNS names. -/
def subject (commonName : String) (names : List String) : Subject :=
  ⟨commonName, names, [], [], [dnsExtension names]⟩

/-- A request with DNS names. -/
def request (commonName : String) (names : List String) : CertificateRequest :=
  { subject commonName names with rawSubjectPublicKeyInfo := [1] }

/-- A certificate that copies the request. -/
def certificate (commonName : String) (names : List String) : Certificate :=
  { subject commonName names with
    rawSubjectPublicKeyInfo := [1]
    publicKey := none
    notBefore := 0
    notAfter := 1000000000
    isCA := false }

/-- The sample platform with the ASN.1 of short names. Nothing is parsed or signed. -/
def toolkit : Toolkit where
  toPlatform := Name.Sample.platform
  parse_start {text a} h := by
    have hparse : Name.Sample.parseAddr text = some a := h
    unfold Name.Sample.parseAddr at hparse
    split at hparse
    · next rest htext => exact ⟨'4', _, htext, by decide⟩
    · next rest htext => exact ⟨'6', _, htext, by decide⟩
    · cases hparse
  generalNames := generalNames
  basicConstraints _ := none
  parseCertificate _ := .error "not parsed"
  parseCertificateRequest _ := .error "not parsed"
  parseCSRKey _ := none
  marshalPKIXPublicKey _ := none
  checkCSRSignature _ := none
  checkSignatureFrom _ _ := none

end Sample

namespace Toolkit

open X509.Sample

theorem supported_dns_extension (names : List String) (headers : List RawValue)
    (h : toolkit.generalNames (dnsExtension names).value = some headers)
    (hall : ∀ name ∈ headers, supportedName name) : toolkit.SupportedSANs [dnsExtension names] := by
  intro e he _
  rw [List.mem_singleton.1 he]
  exact ⟨headers, h, hall⟩

theorem same_names_refl (s : Subject) : SameNames s s :=
  ⟨rfl, fun _ => Iff.rfl, fun _ => Iff.rfl, fun _ => Iff.rfl, rfl⟩

/-- A request with one name, and its common name in another case, is copied into a certificate with
the same identifier. -/
theorem certificate_identifiers_agree_single :
    toolkit.csrIdentifiers (request "A.example" ["a.example"]) = .ok [⟨.dns, "a.example"⟩] ∧
      ∃ found, toolkit.certificateIdentifiers (certificate "A.example" ["a.example"]) = .ok found ∧
        ∀ id, id ∈ found ↔ id ∈ [(⟨.dns, "a.example"⟩ : Identifier)] := by
  have haccepted : toolkit.csrIdentifiers (request "A.example" ["a.example"]) =
      .ok [⟨.dns, "a.example"⟩] := by decide +kernel
  have hnames : toolkit.identities (subject "A.example" ["a.example"]) = [⟨.dns, "a.example"⟩] := by
    decide +kernel
  have hcommon : toolkit.CommonNameCovered (subject "A.example" ["a.example"]) := by
    refine .inr (.inr ⟨⟨.dns, "a.example"⟩, by decide +kernel, ⟨.dns, "a.example"⟩, ?_,
      by decide +kernel⟩)
    rw [hnames]
    exact List.mem_singleton_self _
  have hsans := supported_dns_extension ["a.example"] [⟨2, false, 2⟩] (by decide +kernel)
    (by decide)
  refine ⟨haccepted, (certificate_identifiers_agree_iff haccepted hcommon (same_names_refl _)
    hsans).2 ?_⟩
  show Fallible.Apart _ (toolkit.identities (subject "A.example" ["a.example"]))
  rw [hnames]
  exact List.pairwise_singleton _ _

/-- A request with one name in two ways to write it is accepted, and a certificate that copies it is
not. -/
theorem certificate_identifiers_refuse_copy :
    toolkit.csrIdentifiers (request "" ["a.example", "A.example"]) = .ok [⟨.dns, "a.example"⟩] ∧
      (certificate "" ["a.example", "A.example"]).toSubject =
        (request "" ["a.example", "A.example"]).toSubject ∧
      toolkit.SupportedSANs (certificate "" ["a.example", "A.example"]).extensions ∧
      toolkit.certificateIdentifiers (certificate "" ["a.example", "A.example"]) =
        .error "invalid certificate identifiers" :=
  ⟨by decide +kernel, rfl,
    supported_dns_extension _ [⟨2, false, 2⟩, ⟨2, false, 2⟩] (by decide +kernel) (by decide),
    by decide +kernel⟩

end Toolkit

end AcmeServer.X509
