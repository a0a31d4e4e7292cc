import AcmeServer.Guarantee.Authority

/-!
# The CA flag of requests and certificates

A certificate request is accepted with exactly the CA flag that every authorization of its order was
granted, and a certificate is published with a CA flag only for an authority list. A validator of
the host may grant the flag for any identifier, so the two checks agree on a request exactly if the
order names an authority list or the request does not ask for a CA certificate
(`ca_requests_publishable_iff`).
-/

namespace AcmeServer

open Interaction Memstore Protocol

/-- An accepted request asks for what was granted. -/
theorem check_ca_grants_ok {s : Server} {authzs : List Authorization} {der : Bytes} :
    s.checkCAGrants authzs der = none ↔
      ∃ requested, s.csrCACertificate der = .ok requested ∧
        ∀ a ∈ authzs, a.caCertificate = requested := by
  unfold Server.checkCAGrants
  cases s.csrCACertificate der with
  | error text => simp
  | ok requested => simp

/-- A certificate as requested is accepted for an authority list, and otherwise if it is not one of
a CA. -/
theorem check_leaf_ca_requested {t : X509.Toolkit} {leaf : X509.Certificate}
    {csr : X509.CertificateRequest} {order : Order}
    (h : t.csrCACertificate csr.extensions = .ok leaf.isCA) :
    t.checkLeafCACertificate leaf csr order = .ok () ↔
      (∃ id ∈ order.identifiers, id.type = .tnAuthList) ∨ leaf.isCA = false := by
  unfold X509.Toolkit.checkLeafCACertificate
  by_cases hlist : ∃ id ∈ order.identifiers, id.type = .tnAuthList
  · have hany : (order.identifiers.any fun id => id.type = .tnAuthList) = true := by
      simpa using hlist
    rw [if_neg (not_not.2 hany), h]
    exact iff_of_true (if_neg (not_not.2 rfl)) (.inl hlist)
  · have hany : ¬(order.identifiers.any fun id => id.type = .tnAuthList) = true := by
      simpa using hlist
    rw [if_pos hany]
    cases leaf.isCA <;> simp [hlist]

/-- Of the requests that finalization accepts, those can be published as requested that are for an
authority list or do not ask for a CA certificate. They ask for what every authorization of the
order was granted. -/
theorem ca_requests_publishable_iff (t : X509.Toolkit) (s : Server) (order : Order)
    (authzs : List Authorization) {der : Bytes} {csr : X509.CertificateRequest}
    (hcsr : t.parseCertificateRequest der = .ok csr)
    (haccepted : (t.install s).checkCAGrants authzs der = none) :
    ((∀ leaf : X509.Certificate, t.csrCACertificate csr.extensions = .ok leaf.isCA →
        t.checkLeafCACertificate leaf csr order = .ok ()) ↔
      (∃ id ∈ order.identifiers, id.type = .tnAuthList) ∨
        t.csrCACertificate csr.extensions = .ok false) ∧
    ∀ a ∈ authzs, t.csrCACertificate csr.extensions = .ok a.caCertificate := by
  obtain ⟨requested, hrequested, hgranted⟩ := check_ca_grants_ok.1 haccepted
  have hasks : t.csrCACertificate csr.extensions = .ok requested := by
    change (do let csr ← t.parseCertificateRequest der; t.csrCACertificate csr.extensions) = _
      at hrequested
    rwa [hcsr] at hrequested
  refine ⟨⟨fun h => ?_, fun h leaf hleaf => ?_⟩, fun a ha => by rw [hasks, hgranted a ha]⟩
  · -- A certificate as requested shows what the request asks for.
    let leaf : X509.Certificate := ⟨csr.toSubject, [], none, 0, 0, requested⟩
    have hchecked : t.checkLeafCACertificate leaf csr order = .ok () := h leaf hasks
    rcases (check_leaf_ca_requested hasks).1 hchecked with hlist | hplain
    · exact .inl hlist
    · exact .inr (hasks.trans (congrArg Except.ok hplain))
  · refine (check_leaf_ca_requested hleaf).2 (h.imp_right fun hplain => ?_)
    exact Except.ok.inj (hleaf.symm.trans hplain)

namespace Sample

/-- A certificate request for the name that asks for a CA certificate. -/
def caRequestDER : Bytes :=
  [0x30, 0x81, 0xBA, 0x30, 0x6E, 0x02, 0x01, 0x00, 0x30, 0x00, 0x30, 0x2A, 0x30, 0x05, 0x06,
   0x03, 0x2B, 0x65, 0x70, 0x03, 0x21, 0x00, 0x34, 0xC1, 0x2A, 0x23, 0x05, 0x18, 0xA7, 0x5D,
   0xE5, 0xBA, 0xAA, 0xBC, 0x6C, 0xDB, 0x29, 0x1B, 0xC4, 0x8C, 0x49, 0xBF, 0x00, 0x9B, 0x9D,
   0x71, 0x17, 0xE6, 0x23, 0x2A, 0xBC, 0x87, 0xEF, 0x03, 0xA0, 0x3B, 0x30, 0x39, 0x06, 0x09,
   0x2A, 0x86, 0x48, 0x86, 0xF7, 0x0D, 0x01, 0x09, 0x0E, 0x31, 0x2C, 0x30, 0x2A, 0x30, 0x0F,
   0x06, 0x03, 0x55, 0x1D, 0x13, 0x01, 0x01, 0xFF, 0x04, 0x05, 0x30, 0x03, 0x01, 0x01, 0xFF,
   0x30, 0x17, 0x06, 0x03, 0x55, 0x1D, 0x11, 0x01, 0x01, 0xFF, 0x04, 0x0D, 0x30, 0x0B, 0x82,
   0x09, 0x61, 0x2E, 0x65, 0x78, 0x61, 0x6D, 0x70, 0x6C, 0x65, 0x30, 0x05, 0x06, 0x03, 0x2B,
   0x65, 0x70, 0x03, 0x41, 0x00, 0x83, 0x78, 0x50, 0x65, 0x08, 0x72, 0x49, 0x84, 0xBA, 0xC7,
   0xB9, 0xE1, 0xEB, 0x3C, 0x1F, 0xD2, 0x3A, 0xA0, 0x82, 0x50, 0xD6, 0x9F, 0x55, 0xDC, 0xD3,
   0x20, 0x5B, 0xAD, 0x76, 0xC0, 0x81, 0x7C, 0x68, 0x5B, 0x8F, 0xA5, 0x06, 0x81, 0xA7, 0xEB,
   0x6B, 0x48, 0xD2, 0x96, 0x3B, 0xC0, 0x03, 0x57, 0x9E, 0x95, 0x13, 0x4C, 0x2F, 0x3E, 0x74,
   0x8E, 0x7A, 0x8D, 0x71, 0x63, 0x60, 0x62, 0x92, 0x08]

/-- The parsed request. -/
def caRequest : X509.CertificateRequest where
  commonName := ""
  dnsNames := ["a.example"]
  ipAddresses := []
  uris := []
  extensions := [⟨X509.basicConstraintsOID, [0x30, 0x03, 0x01, 0x01, 0xFF]⟩,
    X509.Sample.dnsExtension ["a.example"]]
  rawSubjectPublicKeyInfo := X509.Sample.keyInfo

/-- The sample toolkit that reads the request and its basic constraints. -/
def caReader : X509.Toolkit :=
  { X509.Sample.reader with
    basicConstraints := fun value =>
      if value = [0x30, 0x03, 0x01, 0x01, 0xFF] then some true else none
    parseCertificateRequest := fun der =>
      if der = caRequestDER then .ok caRequest else .error "asn1: structure error" }

/-- The certificate that was asked for. -/
def caLeaf : X509.Certificate := { X509.Sample.parsedLeaf with isCA := true }

/-- A server whose validator reports what a response authorizes. -/
def grantingServer : Server :=
  { nameServer with validators := fun type => if type = .http01 then some .granting else none }

/-- Surroundings in which the validator grants a CA certificate. -/
def granting (task : Task) : Env :=
  { ({ tasks := [task] } : Surroundings).env with
    host := fun
      | .validate .. => .ok { caCertificate := true }
      | c => ({} : Surroundings).env.host c }

/-- The client orders the name and responds to its challenge, for which the validator grants a CA
certificate. -/
def grantName : Server.Schedule :=
  let x : Surroundings := { preApproves := false }
  register ++ post "/new-order" [1] ++ steps 1 4 { x with id := "order" } ++
    steps 1 4 { x with id := "authorization" } ++ steps 1 5 { x with id := "web" } ++
    post "/chall/web" [4, 0] ++ steps 2 9 { id := "task" } ++ [.start .worker] ++
    steps 3 2 { tasks := [nameTask] } ++
    List.replicate 9 (.step 3 (granting (nameTask.claimed 11)))

/-- An order for the name. -/
def nameOrder : Order where
  id := "order"
  accountID := "alice"
  status := .ready
  expires := 11
  identifiers := [⟨.dns, "a.example"⟩]
  authorizationIDs := ["authorization"]
  createdAt := 1

/-- An authorization for the name without a grant. -/
def nameAuthorization : Authorization where
  id := "authorization"
  accountID := "alice"
  orderID := "order"
  identifier := ⟨.dns, "a.example"⟩
  status := .valid
  expires := 11
  challengeIDs := ["web"]
  createdAt := 1

end Sample

/-- The certificate of the sample request has the CA flag that its order allows. -/
theorem sample_request_publishable :
    X509.Sample.reader.checkLeafCACertificate X509.Sample.parsedLeaf X509.Sample.parsedRequest
      Sample.nameOrder = .ok () := by
  have hcsr : X509.Sample.reader.parseCertificateRequest X509.Sample.requestDER =
      .ok X509.Sample.parsedRequest := by
    dsimp only [X509.Sample.reader]
    rw [if_pos rfl]
  have haccepted : (X509.Sample.reader.install Sample.server).checkCAGrants
      [Sample.nameAuthorization] X509.Sample.requestDER = none := by decide +kernel
  have hplain : X509.Sample.reader.csrCACertificate X509.Sample.parsedRequest.extensions =
      .ok false := by decide +kernel
  exact (ca_requests_publishable_iff X509.Sample.reader Sample.server Sample.nameOrder
    [Sample.nameAuthorization] hcsr haccepted).1.2 (.inr hplain) X509.Sample.parsedLeaf hplain

/-- The sample server accepts a request for a CA certificate that it will not publish. -/
theorem granted_ca_request_unpublishable :
    let s := Sample.caReader.install Sample.grantingServer
    ∃ o a, (s.run Sample.grantName).store.orders.lookup "order" = some o ∧ o.status = .ready ∧
      o.authorizationIDs = ["authorization"] ∧
      (s.run Sample.grantName).store.authzs.lookup "authorization" = some a ∧
      s.checkCAGrants [a] Sample.caRequestDER = none ∧
      Sample.caReader.csrCACertificate Sample.caRequest.extensions = .ok Sample.caLeaf.isCA ∧
      Sample.caReader.checkLeafCACertificate Sample.caLeaf Sample.caRequest o =
        .error "leaf is a CA certificate but the order did not authorize one" := by
  intro s
  have horder : ((s.run Sample.grantName).store.orders.lookup "order").map
      (fun o => (o.status, o.authorizationIDs, o.identifiers)) =
        some (.ready, ["authorization"], [⟨.dns, "a.example"⟩]) := by decide +kernel
  have hauthz : ((s.run Sample.grantName).store.authzs.lookup "authorization").map
      Authorization.caCertificate = some true := by decide +kernel
  obtain ⟨o, ho, hfields⟩ := Option.map_eq_some_iff.1 horder
  obtain ⟨a, ha, hca⟩ := Option.map_eq_some_iff.1 hauthz
  obtain ⟨hstatus, hids, hidentifiers⟩ : o.status = .ready ∧
      o.authorizationIDs = ["authorization"] ∧ o.identifiers = [⟨.dns, "a.example"⟩] := by
    simpa using hfields
  refine ⟨o, a, ho, hstatus, hids, ha, ?_, by decide +kernel, ?_⟩
  · exact check_ca_grants_ok.2 ⟨true, by decide +kernel, by simpa using hca⟩
  · unfold X509.Toolkit.checkLeafCACertificate
    rw [hidentifiers]
    rfl

end AcmeServer
