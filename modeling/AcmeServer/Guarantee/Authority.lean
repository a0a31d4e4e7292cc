import AcmeServer.Conduct.Runs
import AcmeServer.Memstore.Index
import AcmeServer.X509.Chain

/-!
# Revocation by another account

An account that did not order a certificate may revoke it only if it is authorized for every
identity that the certificate asserts. `revocation_needs_every_identity` puts together what the
server reads from the certificate, what the index of the store answers, and which authorizations a
run of the server can have stored: none for a URI, and for a wildcard name none that is not a
wildcard itself.
-/

namespace AcmeServer

open Interaction Memstore Protocol Attempt

/-! ## The stored authorizations -/

theorem same_scope_of_terms {a a' : Authorization}
    (h : authorizationTerms a' = authorizationTerms a) : SameScope a a' := by
  have haccount := congrArg Authorization.accountID h
  have hidentifier := congrArg Authorization.identifier h
  have hwildcard := congrArg Authorization.wildcard h
  exact ⟨haccount, hidentifier, hwildcard⟩

/-- A permitted call updates authorizations within their scope. -/
theorem commit_keeps_scope {s : Server} {w : World} {thread : Nat} {c : StoreCall} {st' : Store}
    (hpermitted : Permitted s w thread (.store c)) (hcommit : Commit w.store c st') :
    KeepsScope w.store c := by
  cases hcommit with
  | createOrder => exact hpermitted.1.distinct
  | updateAuthorization a =>
      intro stored hstored hrevision
      rw [(hpermitted stored hstored hrevision).1]
      exact ⟨rfl, rfl, rfl⟩
  | completeValidation v task challenge authz order htask hfence hchallenge hchallengeRevision
      hauthz hrevision horder horderRevision =>
      intro stored hstored _
      cases hauthz.symm.trans hstored
      have hdecision := (hpermitted task htask hfence challenge hchallenge hchallengeRevision authz
        hauthz hrevision order horder horderRevision).decision
      generalize v.authz = decided at hdecision
      generalize v.challenge.status = status at hdecision
      cases hdecision with
      | kept => exact ⟨rfl, rfl, rfl⟩
      | validated _ _ _ hterms => exact same_scope_of_terms hterms
      | refused => exact ⟨rfl, rfl, rfl⟩
  | read c hread =>
      cases c with
      | createOrder | updateAuthorization | completeValidation => cases hread
      | _ => trivial
  | _ => trivial

theorem Scoped.of_terms {s : Server} {a a' : Authorization} (h : Scoped s a)
    (hterms : authorizationTerms a' = authorizationTerms a) : Scoped s a' := by
  have hscope := same_scope_of_terms hterms
  obtain ⟨id, hid, hwildcard, hidentifier⟩ := h
  exact ⟨id, hid, hscope.wildcard.trans hwildcard, hscope.identifier.trans hidentifier⟩

/-- In every run the index agrees with the authorizations, and these are for identifiers that
clients may order. -/
theorem run_authorizations (s : Server) (schedule : Server.Schedule) :
    AuthorizationsIndexed (s.run schedule).store ∧
      ∀ {id : String} {a : Authorization},
        (s.run schedule).store.authzs.lookup id = some a → Scoped s a := by
  refine run_keeps (s := s) (P := fun st => AuthorizationsIndexed st ∧
    ∀ {id : String} {a : Authorization}, st.authzs.lookup id = some a → Scoped s a) ?_ ?_ schedule
  · refine ⟨Table.lists_empty, fun ha => ?_⟩
    cases ha
  · rintro w w' thread log call answer hinv hpermitted hconducted hexecuted ⟨hindexed, hscoped⟩
    rcases hexecuted.store_cases with hsame | ⟨c, rfl, hcommit⟩
    · rw [hsame]
      exact ⟨hindexed, hscoped⟩
    · have hkeeps : KeepsScope w.store c := commit_keeps_scope hpermitted hcommit
      refine ⟨commit_authorizations_indexed hcommit hkeeps hindexed, fun {id a'} ha' => ?_⟩
      cases hbefore : w.store.authzs.lookup id with
      | some a =>
          obtain ⟨found, hfound, hstep⟩ :=
            (hexecuted.evolution hinv hpermitted).authzs id a hbefore
          cases ha'.symm.trans hfound
          rcases hstep with rfl | hstep
          · exact hscoped hbefore
          · exact (hscoped hbefore).of_terms hstep.terms
      | none =>
          obtain ⟨n, rfl, -, a, ha, -, rfl⟩ := commit_new_authorization hcommit hbefore ha'
          obtain ⟨client, hrule⟩ := hconducted
          exact (hrule a ha).of_terms rfl

/-- An authorization that a run has stored is not for a URI, and it is a wildcard authorization
exactly if its identifier is a wildcard name. -/
theorem Scoped.identifier {t : X509.Toolkit} {s : Server} {a : Authorization}
    (h : Scoped (t.install s) a) :
    a.orderIdentifier.type ≠ .uri ∧ a.wildcard = a.orderIdentifier.isWildcard := by
  obtain ⟨id, ⟨ordered, htype, hnormal⟩, hwildcard, hidentifier⟩ := h
  rw [Safety.order_identifier_eq hidentifier hwildcard]
  have hsame : id.type = ordered.type := Name.Platform.normalize_type hnormal
  exact ⟨hsame ▸ htype, hwildcard⟩

/-! ## What an accepted revocation asked -/

/-- The answers of store calls are those that the store gives. -/
def AnsweredBy (store : Store) (log : CallLog) : Prop :=
  ∀ (c : StoreCall) (reply : Reply c), (⟨.store c, reply⟩ : Exchange Call Call.Answer) ∈ log →
    ∃ env : CallEnv, env.Fits store ∧ (store.apply env c).1 = reply

/-- The exchanges of a revocation that is accepted from another account. -/
structure Inquiry (s : Server) (account : Account) (der : Bytes) (ids : List Identifier)
    (now : Time) (log : CallLog) : Prop where
  identities : s.revocationIdentifiers der = .ok ids
  noInstance : ∀ id ∈ ids, id.type ≠ .nfInstanceID
  clock : ⟨.host .now, now⟩ ∈ log
  allowed : ∃ reply : Reply (.authorizedFor account.id ids now), reply.result = .ok true ∧
    ⟨.store (.authorizedFor account.id ids now), reply⟩ ∈ log

theorem authorize_revocation_inquires {s : Server} {account : Account} {cert : Certificate}
    (hother : account.id ≠ cert.accountID) (leaf : Leaf) (der : Bytes) (st : RequestState) :
    (s.authorizeRevocation (.inl account) cert leaf der).Follows (fun _ _ => True) st
      (fun _ _ log => ∃ ids now, Inquiry s account der ids now log) (fun _ _ _ => True) [] := by
  unfold Server.authorizeRevocation
  dsimp only
  rw [if_neg hother]
  refine follows_bind (follows_expect (fun _ _ => trivial) fun ids hids => ?_)
  refine follows_bind (follows_fail_if (fun _ => trivial) fun hinstance => ?_)
  refine follows_bind (follows_lift (Program.follows_perform trivial fun now => ?_))
  refine follows_bind (follows_lift (Program.follows_bind
    (Program.follows_perform trivial fun reply => ?_)))
  refine follows_bind (follows_expect (fun _ _ => trivial) fun allowed hallowed => ?_)
  refine follows_fail_if (fun _ => trivial) fun hne => ⟨ids, now, ?_⟩
  refine ⟨Fallible.map_error_eq_ok.1 hids, fun id hid htype => hinstance ⟨id, hid, htype⟩, ?_,
    reply, ?_, ?_⟩
  · exact List.mem_append_left _ (List.mem_singleton_self _)
  · rw [Fallible.map_error_eq_ok.1 hallowed, Bool.eq_true_of_not_eq_false hne]
  · exact List.mem_append_right _ (List.mem_singleton_self _)

/-- A revocation is accepted from another account if the store says that the account is authorized
for the identifiers of the certificate and none of them is a network function instance. -/
theorem authorize_revocation_accepts {s : Server} {account : Account} {cert : Certificate}
    (hother : account.id ≠ cert.accountID) (leaf : Leaf) {der : Bytes} (st : RequestState)
    {ids : List Identifier} (hids : s.revocationIdentifiers der = .ok ids)
    (hinstance : ∀ id ∈ ids, id.type ≠ .nfInstanceID) (now : Time)
    {reply : Reply (.authorizedFor account.id ids now)} (hreply : reply.result = .ok true) :
    Leads ((s.authorizeRevocation (.inl account) cert leaf der).start st)
      [⟨.host .now, now⟩, ⟨.store (.authorizedFor account.id ids now), reply⟩]
      (.done (.ok (), st)) := by
  have hnone : ¬∃ id ∈ ids, id.type = .nfInstanceID :=
    fun ⟨id, hid, htype⟩ => hinstance id hid htype
  obtain ⟨result, args⟩ := reply
  cases hreply
  unfold Server.authorizeRevocation
  dsimp only
  rw [if_neg hother, hids, Except.mapError, start_expect_ok, start_fail_if_neg hnone]
  -- What is left are the call for the time and the call of the store.
  constructor
  constructor
  exact .refl _

/-! ## Every identity is needed -/

/-- An authority list is the only identity that the subject has next to its common name. -/
def OnlyAuthorityList (t : X509.Toolkit) (subject : X509.Subject) : Prop :=
  ∃ id, t.identities subject = [id] ∧ id.type = .tnAuthList

/-- The identities that a certificate asserts, before they are normalized. -/
def Asserts (t : X509.Toolkit) (subject : X509.Subject) (name : Identifier) : Prop :=
  name ∈ t.identities subject ∨
    (subject.commonName ≠ "" ∧ ¬OnlyAuthorityList t subject ∧
      name = t.commonNameIdentifier subject.commonName)

/-- Without a network function instance, only an authority list exempts the common name. -/
theorem only_authority_list_of_exempt {t : X509.Toolkit} {subject : X509.Subject}
    (h : X509.commonNameExempt (t.identities subject) = true)
    (hnone : ∀ name ∈ t.identities subject, name.type ≠ .nfInstanceID) :
    OnlyAuthorityList t subject := by
  unfold X509.commonNameExempt at h
  rw [Bool.or_eq_true, Bool.and_eq_true, beq_iff_eq, List.any_eq_true] at h
  rcases h with ⟨hone, hlist⟩ | ⟨name, hname, htype⟩
  · obtain ⟨id, hid⟩ := List.length_eq_one_iff.1 hone
    rw [hid] at hlist
    exact ⟨id, hid, by simpa using hlist⟩
  · exact absurd (by simpa using htype) (hnone name hname)

/-- Every asserted identity has its normal form among the identifiers of the certificate. -/
theorem asserted_identifier {t : X509.Toolkit} {certificate : X509.Certificate}
    {ids : List Identifier} (h : t.revocationIdentifiers certificate = .ok ids)
    (hnone : ∀ id ∈ ids, id.type ≠ .nfInstanceID) {name : Identifier}
    (hname : Asserts t certificate.toSubject name) : ∃ id ∈ ids, t.normalize name = .ok id := by
  obtain ⟨-, hnames, hcommon⟩ := X509.Toolkit.revocation_identifiers_ok h
  rcases hname with hname | ⟨hne, honly, rfl⟩
  · exact hnames name hname
  · refine hcommon hne fun hexempt => honly (only_authority_list_of_exempt hexempt ?_)
    intro name hname htype
    obtain ⟨id, hid, hnormal⟩ := hnames name hname
    exact hnone id hid ((Name.Platform.normalize_type hnormal).trans htype)

/-- If a revocation is accepted from an account that did not order the certificate, while the store
of some run answers it, then all names of the certificate are of a supported kind and none is a URI
or a network function instance, the account is valid, and for every identity that the certificate
asserts the account holds an authorization of exactly this scope that is valid at the time and was
not granted in advance. -/
theorem revocation_needs_every_identity (t : X509.Toolkit) (s : Server)
    (schedule : Server.Schedule) {account : Account} {cert : Certificate} {leaf : Leaf}
    {der : Bytes} {st st' : RequestState} {log : CallLog} (hother : account.id ≠ cert.accountID)
    (haccepted : Leads (((t.install s).authorizeRevocation (.inl account) cert leaf der).start st)
      log (.done (.ok (), st')))
    (hstore : AnsweredBy ((t.install s).run schedule).store log) :
    let store := ((t.install s).run schedule).store
    ∃ certificate now, t.parseCertificate der = .ok certificate ∧ ⟨.host .now, now⟩ ∈ log ∧
      t.SupportedSANs certificate.extensions ∧ certificate.uris = [] ∧
      (∃ found, Name.tnAuthListExtension certificate.extensions = .ok found) ∧
      (∃ stored, store.accounts.lookup account.id = some stored ∧ stored.status = .valid) ∧
      ∀ name, Asserts t certificate.toSubject name →
        ∃ id, t.normalize name = .ok id ∧ id.type ≠ .nfInstanceID ∧ id.type ≠ .uri ∧
          ∃ key a, store.authzs.lookup key = some a ∧ a.accountID = account.id ∧
            a.status = .valid ∧ now < a.expires ∧ a.preApproved = false ∧
            a.orderIdentifier = id ∧ a.wildcard = id.isWildcard := by
  intro store
  obtain ⟨ids, now, hinquiry⟩ := (authorize_revocation_inquires hother leaf der st).leads haccepted
  obtain ⟨hindexed, hscoped⟩ := run_authorizations (t.install s) schedule
  obtain ⟨certificate, hparsed, hids⟩ := Fallible.bind_eq_ok.1 hinquiry.identities
  obtain ⟨reply, hreply, hmem⟩ := hinquiry.allowed
  obtain ⟨env, -, hanswer⟩ := hstore _ _ hmem
  rw [← hanswer] at hreply
  obtain ⟨-, -, haccount, hauthorized⟩ :=
    (authorized_for_answers hindexed env account.id ids now).2.1 hreply
  obtain ⟨hread, hnames, -⟩ := X509.Toolkit.revocation_identifiers_ok hids
  obtain ⟨hsans, hfound, huris, -⟩ := X509.Toolkit.san_names_ok.1 hread
  -- No identifier of the certificate is a URI, because no authorization is for one.
  have hholds (id : Identifier) (hid : id ∈ ids) : id.type ≠ .uri ∧
      ∃ key a, store.authzs.lookup key = some a ∧ a.accountID = account.id ∧
        a.status = .valid ∧ now < a.expires ∧ a.preApproved = false ∧
        a.orderIdentifier = id ∧ a.wildcard = id.isWildcard := by
    obtain ⟨key, a, ha, howner, rfl, hvalid, hasked, hlive⟩ := hauthorized id hid
    obtain ⟨htype, hwildcard⟩ := (hscoped ha).identifier
    exact ⟨htype, key, a, ha, howner, hvalid, hlive, hasked, rfl, hwildcard⟩
  refine ⟨certificate, now, hparsed, hinquiry.clock, hsans, ?_, hfound, haccount,
    fun name hname => ?_⟩
  · refine List.eq_nil_iff_forall_not_mem.2 fun uri huri => ?_
    obtain ⟨name, hname⟩ := huris uri huri
    obtain ⟨id, hid, hnormal⟩ := hnames name (by
      simp only [X509.Toolkit.identities, X509.Toolkit.otherNames, List.mem_append,
        List.mem_filterMap]
      exact .inr (.inl ⟨uri, huri, by rw [hname]; rfl⟩))
    have hsame : id.type = name.type := Name.Platform.normalize_type hnormal
    rcases Name.Platform.uri_name_type hname with htype | htype
    · exact hinquiry.noInstance id hid (hsame.trans htype)
    · exact (hholds id hid).1 (hsame.trans htype)
  · obtain ⟨id, hid, hnormal⟩ := asserted_identifier hids hinquiry.noInstance hname
    obtain ⟨htype, hheld⟩ := hholds id hid
    exact ⟨id, hnormal, hinquiry.noInstance id hid, htype, hheld⟩

namespace Sample

/-- A server whose clients order the name of the sample certificate. -/
def nameServer : Server :=
  { server with decodeNewOrder := fun _ => .ok ⟨[⟨.dns, "a.example"⟩], "", "", "", ""⟩ }

/-- The task that validates the name. -/
def nameTask : Task where
  id := "task"
  kind := .validate
  targetID := "web"
  accountID := "alice"
  runAt := 1
  createdAt := 1

/-- The client orders the name and responds to its challenge, which a worker validates. -/
def validateName : Server.Schedule :=
  let x : Surroundings := { preApproves := false }
  register ++ post "/new-order" [1] ++ steps 1 4 { x with id := "order" } ++
    steps 1 4 { x with id := "authorization" } ++ steps 1 5 { x with id := "web" } ++
    post "/chall/web" [4, 0] ++ steps 2 9 { id := "task" } ++ [.start .worker] ++
    steps 3 2 { tasks := [nameTask] } ++ steps 3 9 { tasks := [nameTask.claimed 11] }

/-- The store after the validation. -/
def validatedStore : Store := ((X509.Sample.reader.install nameServer).run validateName).store

/-- The account of the client. -/
def alice : Account where
  id := "alice"
  status := .valid
  key := key
  keyThumbprint := "thumbprint"
  createdAt := 1

/-- The sample certificate, ordered by another account. -/
def foreignCertificate : Certificate where
  id := "certificate"
  accountID := "bob"
  orderID := "other"
  chain := [X509.Sample.leafDER]
  notBefore := X509.Sample.parsedLeaf.notBefore
  notAfter := X509.Sample.parsedLeaf.notAfter
  createdAt := 1

/-- The question to the store and its answer. -/
def inquiry : CallLog :=
  [⟨.host .now, (2 : Time)⟩, ⟨.store (.authorizedFor "alice" [⟨.dns, "a.example"⟩] 2),
    (validatedStore.apply {} (.authorizedFor "alice" [⟨.dns, "a.example"⟩] 2)).1⟩]

end Sample

/-- The client of the sample server may revoke a certificate of another account for its name. -/
theorem sample_revocation_needs_every_identity :
    Leads (((X509.Sample.reader.install Sample.nameServer).authorizeRevocation (.inl Sample.alice)
      Sample.foreignCertificate (X509.Toolkit.leafOf X509.Sample.parsedLeaf)
      X509.Sample.leafDER).start {}) Sample.inquiry (.done (.ok (), {})) ∧
    ∃ key a, Sample.validatedStore.authzs.lookup key = some a ∧ a.accountID = "alice" ∧
      a.status = .valid ∧ a.preApproved = false ∧ a.orderIdentifier = ⟨.dns, "a.example"⟩ := by
  have hother : Sample.alice.id ≠ Sample.foreignCertificate.accountID := by decide
  have hids : (X509.Sample.reader.install Sample.nameServer).revocationIdentifiers
      X509.Sample.leafDER = .ok [⟨.dns, "a.example"⟩] := by decide +kernel
  have hreply : (Sample.validatedStore.apply {}
      (.authorizedFor "alice" [⟨.dns, "a.example"⟩] 2)).1.result = .ok true := by decide +kernel
  have haccepted := authorize_revocation_accepts hother
    (X509.Toolkit.leafOf X509.Sample.parsedLeaf) {} hids (by decide) 2 hreply
  have hstore : AnsweredBy Sample.validatedStore Sample.inquiry := by
    intro c reply hmem
    rcases List.mem_cons.1 hmem with hmem | hmem
    · cases hmem
    · cases List.mem_singleton.1 hmem
      exact ⟨{}, by decide +kernel, rfl⟩
  refine ⟨haccepted, ?_⟩
  unfold Sample.validatedStore
  obtain ⟨certificate, now, hparsed, -, -, -, -, -, hneeded⟩ := revocation_needs_every_identity
    X509.Sample.reader Sample.nameServer Sample.validateName hother haccepted hstore
  have hname : Asserts X509.Sample.reader X509.Sample.parsedLeaf.toSubject ⟨.dns, "a.example"⟩ :=
    .inl (by decide +kernel)
  have hnormal : X509.Sample.reader.normalize ⟨.dns, "a.example"⟩ = .ok ⟨.dns, "a.example"⟩ := by
    decide +kernel
  have hleaf : X509.Sample.reader.parseCertificate X509.Sample.leafDER =
      .ok X509.Sample.parsedLeaf := by
    dsimp only [X509.Sample.reader]
    rw [if_pos rfl]
  cases hleaf.symm.trans hparsed
  obtain ⟨id, hid, -, -, key, a, ha, howner, hvalid, -, hasked, hscope, -⟩ := hneeded _ hname
  cases hnormal.symm.trans hid
  exact ⟨key, a, ha, howner, hvalid, hasked, hscope⟩

end AcmeServer
