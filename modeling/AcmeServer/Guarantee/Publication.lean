import AcmeServer.Conduct.Runs
import AcmeServer.X509.Chain

/-!
# What is published

A worker settles a dispatched order by what the issuer answered it. `issuance_commits_the_answer`
follows a settled order back to this answer: a valid order has a certificate that passed every
check, an invalid one keeps whatever chain was returned, and without a chain only a clear rejection
makes an order invalid.
-/

namespace AcmeServer

open Interaction Memstore Protocol

/-- The world after a schedule that starts with the given store, with the running programs. -/
def Server.configFrom (s : Server) (store : Store) (schedule : Server.Schedule) :
    Config World Call Call.Answer :=
  Interaction.run execute s.program ⟨⟨store, []⟩, []⟩ schedule

/-- What a program asked of the issuer, with the answers. -/
def World.issuerExchanges (w : World) (thread : Nat) : CallLog :=
  (threadLog thread w.entries).filter asksIssuer

/-- An order is settled only as the rule allows. -/
theorem settle_allowed {s : Server} {store : Store} {schedule : Server.Schedule} {thread : Nat}
    {i : IssuanceOutcome} {next : Reply (.completeIssuance i) → Prog Unit}
    (h : (s.configFrom store schedule).threads[thread]? =
      some (.call (.store (.completeIssuance i)) next)) :
    Settles s (threadLog thread (s.configFrom store schedule).world.entries) i := by
  have hfollowed : Followed (Conducted s) World.entries (s.configFrom store schedule) :=
    run_follows execute_records rfl (program_follows s) schedule
  obtain ⟨⟨client, hsettles⟩, -⟩ := hfollowed.running h
  exact hsettles

/-- What a successful call to settle an order stores. -/
theorem settled_order {w w' : World} {thread : Nat} {i : IssuanceOutcome} {env : Env}
    {args : IssuanceOutcome} (h : execute env thread (.store (.completeIssuance i)) w =
      some (⟨.ok (), args⟩, w')) :
    w'.store.orders.lookup i.order.id = some i.order.revised ∧
      ∀ cert ∈ i.cert, w.store.certificates.lookup cert.id = none ∧
        (cert.renewalID ≠ "" → w.store.certByRenewal.lookup cert.renewalID = none) ∧
        w'.store.certificates.lookup cert.id = some { cert with revision := 1 } := by
  cases executed_of_execute h with
  | failed c reply e herror => cases herror
  | committed c reply v st' hok hcommit =>
      cases hcommit with
      | read c hread => cases hread
      | completeIssuance i stored order hstored hfence horder hrevision base hbase =>
          refine ⟨Finmap.lookup_insert _, fun cert hcert => ?_⟩
          generalize i.cert = found at hbase hcert
          cases hbase with
          | nothing => cases hcert
          | added cert' hid hnew hrenewal =>
              cases hcert
              exact ⟨hnew, hrenewal, Finmap.lookup_insert _⟩

/-- A worker commits an order as valid only with a certificate that the issuer returned without any
reservation and that passed the check of the chain, under IDs that were not used. The leaf has the
key of the request and names what was ordered and nothing that was not ordered or granted. If the
worker commits the order as invalid, it keeps every chain that was returned, and without one the
issuer has rejected the request. -/
theorem issuance_commits_the_answer (t : X509.Toolkit) (s : Server) (store : Store)
    (schedule : Server.Schedule) {thread : Nat} {i args : IssuanceOutcome} {env : Env} {w' : World}
    {next : Reply (.completeIssuance i) → Prog Unit}
    (hcalls : ((t.install s).configFrom store schedule).threads[thread]? =
      some (.call (.store (.completeIssuance i)) next))
    (hcommits : execute env thread (.store (.completeIssuance i))
      ((t.install s).configFrom store schedule).world = some (⟨.ok (), args⟩, w')) :
    let w := ((t.install s).configFrom store schedule).world
    ∃ o, w'.store.orders.lookup i.order.id = some o ∧
      ((o.status = .valid ∧ ∃ req result csr leaf now cert,
          w.issuerExchanges thread = [⟨.host (.issue req), (result, none)⟩] ∧
          req.orderID = o.id ∧ req.csrDER = o.csr ∧
          result.chain ≠ [] ∧ result.pending = false ∧ result.rejected = none ∧
          t.parseCertificateRequest o.csr = .ok csr ∧
          t.checkChain result.chain csr o now = .ok leaf ∧
          o.certificateID = s.certificateID (result.chain.headD []) ∧
          w'.store.certificates.lookup o.certificateID = some cert ∧ cert.chain = result.chain ∧
          cert.renewalID = s.renewalID (result.chain.headD []) ∧
          w.store.certificates.lookup o.certificateID = none ∧
          (cert.renewalID ≠ "" → w.store.certByRenewal.lookup cert.renewalID = none) ∧
          leaf.rawSubjectPublicKeyInfo = csr.rawSubjectPublicKeyInfo ∧
          (∃ ids, t.certificateIdentifiers leaf = .ok ids ∧ (∀ id ∈ o.identifiers, id ∈ ids) ∧
            ∀ id ∈ ids, id ∈ o.identifiers ∨ ∃ v ∈ X509.orderValidations o, id ∈ v.names) ∧
          (leaf.isCA → (∃ id ∈ o.identifiers, id.type = .tnAuthList) ∧
            t.csrCACertificate csr.extensions = .ok true)) ∨
        (o.status = .invalid ∧ ∀ req result err,
          ⟨.host (.issue req), (result, err)⟩ ∈ w.issuerExchanges thread →
            req.orderID = o.id ∧
            (result.chain ≠ [] → o.unpublishedResult = some result) ∧
            (result.chain = [] → err = none ∧ result.pending = false ∧
              ∃ p, result.rejected = some p ∧ o.error = some p))) := by
  intro w
  obtain ⟨hstored, hcert⟩ := settled_order hcommits
  refine ⟨_, hstored, ?_⟩
  have hone {e e' : Exchange Call Call.Answer} (h : w.issuerExchanges thread = [e])
      (he' : e' ∈ w.issuerExchanges thread) : e' = e := by
    rw [h] at he'
    exact List.mem_singleton.1 he'
  cases settle_allowed hcalls with
  | @published order result leaf now hasked hchain hpending hrejected hcheck hrecord horder =>
      obtain ⟨state, asked, -, hlog⟩ := hasked
      obtain ⟨csr, found, hcsr, hpassed, rfl⟩ := X509.Toolkit.install_check_chain_ok hcheck
      have haccepted := X509.Toolkit.check_chain_ok.1 hpassed
      obtain ⟨hnew, hrenewal, hpublished⟩ := hcert _ hrecord
      rw [horder]
      refine .inl ⟨rfl, _, result, csr, found, now, _, hlog, rfl, rfl, hchain, hpending, hrejected,
        hcsr, hpassed, rfl, hpublished, rfl, rfl, hnew, hrenewal, haccepted.key, ?_, ?_⟩
      · exact X509.Toolkit.check_leaf_identifiers_ok.1 haccepted.identifiers
      · exact X509.Toolkit.check_leaf_ca_certificate_ok haccepted.constraint
  | @retained result err hasked hchain hnone hstatus hresult =>
      obtain ⟨state, asked, -, hlog⟩ := hasked
      refine .inr ⟨hstatus, fun req result' err' hmem => ?_⟩
      cases hone hlog hmem
      exact ⟨rfl, fun _ => hresult, fun hnil => absurd hnil hchain⟩
  | @rejected result p hasked hchain hpending hrejected hnone hstatus herror =>
      obtain ⟨state, asked, -, hlog⟩ := hasked
      refine .inr ⟨hstatus, fun req result' err' hmem => ?_⟩
      cases hone hlog hmem
      exact ⟨rfl, fun hne => absurd hchain hne, fun _ => ⟨rfl, hpending, p, hrejected, herror⟩⟩
  | undispatched hasked hnone hstatus =>
      refine .inr ⟨hstatus, fun req result err hmem => ?_⟩
      rw [World.issuerExchanges, hasked] at hmem
      cases hmem

namespace Sample

/-- The time at which the sample certificate is issued. -/
def issuedAt : Time := 63930328684000000000

/-- A server with the IDs of the sample certificate, which has no renewal identifier. -/
def issuingServer : Server :=
  X509.Sample.reader.install { server with
    certificateID := fun _ => "ymzjC8vpiH5Adbc3uwkP9ZV2c7woN4UnGbD_sVRWsJk"
    renewalID := fun _ => "" }

/-- An order that was dispatched. -/
def dispatchedOrder : Order where
  id := "order"
  accountID := "alice"
  status := .processing
  expires := issuedAt + 10
  identifiers := [⟨.dns, "a.example"⟩]
  authorizationIDs := ["authorization"]
  csr := X509.Sample.requestDER
  issuance := some {
    operationID := "task"
    authorizedAt := issuedAt
    deadline := issuedAt + 10
    validations := [{ identifier := ⟨.dns, "a.example"⟩, type := some .http01 }] }
  createdAt := issuedAt

/-- The task of the order. -/
def dispatchedTask : Task where
  id := "task"
  kind := .issue
  targetID := "order"
  accountID := "alice"
  runAt := issuedAt
  createdAt := issuedAt

/-- Surroundings in which the issuer returns the sample certificate. -/
def issuing (task : Task) : Env :=
  { ({ now := issuedAt, tasks := [task] } : Surroundings).env with
    host := fun
      | .issue _ => ({ chain := [X509.Sample.leafDER] }, none)
      | c => ({ now := issuedAt } : Surroundings).env.host c }

/-- The store in which the order was dispatched. -/
def dispatchedStore : Store := (Store.new.putOrder dispatchedOrder).insertTask dispatchedTask

/-- The task as the worker claims it. -/
def issuingTask : Task := dispatchedTask.claimed (issuedAt + 10)

/-- A worker claims the task and asks the issuer. -/
def askIssuer : Config World Call Call.Answer :=
  issuingServer.configFrom dispatchedStore (.start .worker ::
    List.replicate 2 (.step 0 (issuing dispatchedTask)) ++
      List.replicate 4 (.step 0 (issuing issuingTask)))

/-- What the worker then commits. -/
def publishedOutcome : IssuanceOutcome where
  task := issuingTask
  order := { dispatchedOrder with
    status := .valid
    certificateID := "ymzjC8vpiH5Adbc3uwkP9ZV2c7woN4UnGbD_sVRWsJk" }
  cert := some (issuingServer.issuedCertificateRecord dispatchedOrder
    { chain := [X509.Sample.leafDER] } (X509.Toolkit.leafOf X509.Sample.parsedLeaf) issuedAt)

/-- The outcome that a program is about to commit. -/
def settling : Option (Prog Unit) → Option (Task × Order × Option Certificate)
  | some (.call (.store (.completeIssuance i)) _) => some (i.task, i.order, i.cert)
  | _ => none

theorem calls_of_settling (program : Option (Prog Unit)) (i : IssuanceOutcome)
    (h : settling program = some (i.task, i.order, i.cert)) :
    ∃ next, program = some (.call (.store (.completeIssuance i)) next) := by
  obtain ⟨task, order, cert⟩ := i
  unfold settling at h
  split at h
  · next found next =>
      obtain ⟨task', order', cert'⟩ := found
      cases h
      exact ⟨next, rfl⟩
  · cases h

theorem commits_of_ok {i : IssuanceOutcome}
    (executed : Option (Reply (.completeIssuance i) × World))
    (h : executed.any (fun outcome => outcome.1.result.isOk) = true) :
    ∃ args w', executed = some (⟨.ok (), args⟩, w') := by
  rcases executed with - | ⟨⟨e | ⟨⟩, args⟩, w'⟩
  · cases h
  · cases h
  · exact ⟨args, w', rfl⟩

end Sample

/-- The worker of the sample server publishes the certificate that the issuer returned. -/
theorem sample_issuance_commits_the_answer :
    ∃ next args w' o req result,
      Sample.askIssuer.threads[0]? =
        some (.call (.store (.completeIssuance Sample.publishedOutcome)) next) ∧
      execute (Sample.issuing Sample.issuingTask) 0
        (.store (.completeIssuance Sample.publishedOutcome)) Sample.askIssuer.world =
          some (⟨.ok (), args⟩, w') ∧
      w'.store.orders.lookup "order" = some o ∧ o.status = .valid ∧
      Sample.askIssuer.world.issuerExchanges 0 = [⟨.host (.issue req), (result, none)⟩] ∧
      result.chain ≠ [] := by
  obtain ⟨next, hcalls⟩ := Sample.calls_of_settling Sample.askIssuer.threads[0]?
    Sample.publishedOutcome (by decide +kernel)
  obtain ⟨args, w', hcommits⟩ := Sample.commits_of_ok (execute (Sample.issuing Sample.issuingTask) 0
    (.store (.completeIssuance Sample.publishedOutcome)) Sample.askIssuer.world) (by decide +kernel)
  obtain ⟨o, ho, ⟨hstatus, req, result, _, _, _, _, hexchanges, _, _, hchain, _⟩ | ⟨hinvalid, _⟩⟩ :=
    issuance_commits_the_answer X509.Sample.reader _ Sample.dispatchedStore _ hcalls hcommits
  · exact ⟨next, args, w', o, req, result, hcalls, hcommits, ho, hstatus, hexchanges, hchain⟩
  · cases ho.symm.trans (settled_order hcommits).1
    cases hinvalid

/-! ## The end of validity -/

/-- A certificate that was not stored before was just published. -/
theorem commit_new_certificate {st st' : Store} {c : StoreCall} (h : Commit st c st') {id : String}
    {cert' : Certificate} (hnew : st.certificates.lookup id = none)
    (hcert' : st'.certificates.lookup id = some cert') :
    ∃ i cert, c = .completeIssuance i ∧ i.cert = some cert ∧
      cert' = { cert with revision := 1 } := by
  have hkept {key : String} {stored cert : Certificate}
      (hstored : st.certificates.lookup key = some stored)
      (hinsert : (st.certificates.insert key cert).lookup id = some cert') : False := by
    rcases Table.lookup_insert_cases hinsert with ⟨rfl, -⟩ | ⟨-, hold⟩
    · cases hnew.symm.trans hstored
    · cases hnew.symm.trans hold
  have hsame (hold : st.certificates.lookup id = some cert') : False := by
    cases hnew.symm.trans hold
  cases h with
  | createAccount _ _ _ _ _ _ hst | updateAccount _ _ _ _ _ _ _ hst =>
      subst hst
      exact (hsame hcert').elim
  | createOrder n _ _ _ _ base hbase =>
      obtain ⟨_, _, heq⟩ := add_resources_eq base n.initial
      rw [heq] at hcert'
      cases hbase with
      | nothing => exact (hsame hcert').elim
      | claimed key cert _ _ hcert => exact (hkept hcert hcert').elim
  | updateAuthorization a =>
      obtain ⟨_, heq, _⟩ := invalidate_order_eq (st.putAuthorization a.revised) a.revised
      rw [heq] at hcert'
      exact (hsame hcert').elim
  | updateCertificate cert stored hstored => exact (hkept hstored hcert').elim
  | completeIssuance i _ _ _ _ _ _ base hbase =>
      generalize hi : i.cert = found at hbase
      cases hbase with
      | nothing => exact (hsame hcert').elim
      | added cert =>
          rcases Table.lookup_insert_cases hcert' with ⟨-, rfl⟩ | ⟨-, hold⟩
          · exact ⟨i, cert, rfl, hi, rfl⟩
          · exact (hsame hold).elim
  | beginIssuance | acceptChallenge | finalizeOrder | claimTask | rescheduleTask | retryValidation
  | finishTask | completeValidation | read => exact (hsame hcert').elim

/-- The leaf of the certificate ends before every grant that was recorded for it. -/
def WithinGrants (t : X509.Toolkit) (c : Certificate) : Prop :=
  ∃ der leaf, c.chain.head? = some der ∧ t.parseCertificate der = .ok leaf ∧
    ∀ v ∈ c.validations, v.grantExpires ≠ 0 → leaf.notAfter ≤ v.grantExpires

theorem WithinGrants.of_terms {t : X509.Toolkit} {c c' : Certificate} (h : WithinGrants t c)
    (hterms : certificateTerms c' = certificateTerms c) : WithinGrants t c' := by
  have hchain := congrArg Certificate.chain hterms
  have hvalidations := congrArg Certificate.validations hterms
  obtain ⟨der, leaf, hder, hleaf, hgrants⟩ := h
  exact ⟨der, leaf, (congrArg List.head? hchain).trans hder, hleaf, hvalidations ▸ hgrants⟩

theorem published_within_grants {t : X509.Toolkit} {s : Server} {log : CallLog}
    {i : IssuanceOutcome} {cert : Certificate} (h : Settles (t.install s) log i)
    (hcert : i.cert = some cert) : WithinGrants t cert := by
  cases h with
  | @published order result found now _ _ _ _ hcheck hrecord =>
      cases hcert.symm.trans hrecord
      obtain ⟨csr, leaf, -, hpassed, rfl⟩ := X509.Toolkit.install_check_chain_ok hcheck
      have haccepted := X509.Toolkit.check_chain_ok.1 hpassed
      obtain ⟨der, hder, hleaf⟩ := haccepted.parsed
      obtain ⟨-, -, -, -, hbound⟩ := X509.check_validity_ok.1 haccepted.validity
      exact ⟨der, leaf, hder, hleaf, fun v hv => X509.not_after_le_grant hbound hv⟩
  | retained _ _ hnone | rejected _ _ _ _ hnone | undispatched _ hnone =>
      cases hcert.symm.trans hnone

/-- No stored certificate outlives a grant. -/
theorem run_within_grants (t : X509.Toolkit) (s : Server) (schedule : Server.Schedule) :
    ∀ {id : String} {c : Certificate},
      ((t.install s).run schedule).store.certificates.lookup id = some c → WithinGrants t c := by
  refine run_keeps (s := t.install s) (P := fun st => ∀ {id : String} {c : Certificate},
    st.certificates.lookup id = some c → WithinGrants t c) ?_ ?_ schedule
  · intro id c hc
    cases hc
  · intro w w' thread log call answer hinv hpermitted hconducted hexecuted hold id c' hc'
    cases hbefore : w.store.certificates.lookup id with
    | some c =>
        -- What was published does not change.
        obtain ⟨found, hfound, hstep⟩ :=
          (hexecuted.evolution hinv hpermitted).certificates id c hbefore
        cases hc'.symm.trans hfound
        rcases hstep with rfl | hstep
        · exact hold hbefore
        · exact (hold hbefore).of_terms hstep.terms
    | none =>
        rcases hexecuted.store_cases with hsame | ⟨sc, rfl, hcommit⟩
        · rw [hsame, hbefore] at hc'
          cases hc'
        · obtain ⟨i, cert, rfl, hcert, rfl⟩ := commit_new_certificate hcommit hbefore hc'
          obtain ⟨client, hsettles⟩ := hconducted
          exact (published_within_grants hsettles hcert).of_terms rfl

/-- The check of the validity accepts a certificate that has not expired, that begins as ordered,
now or before, and that ends by the earliest of the order's end and all grants, to the second. The
issuer is asked for this earliest end, so a certificate that ends there is not refused for ending
too late, and no certificate that was published outlives a grant. -/
theorem validity_ends_with_the_grants (t : X509.Toolkit) (s : Server) :
    (∀ (leaf : X509.Certificate) (order : Order) (now : Time),
      X509.Toolkit.checkValidity leaf order now = .ok () ↔
        now < leaf.notAfter ∧ leaf.notBefore < leaf.notAfter ∧
          X509.truncate order.notBefore ≤ leaf.notBefore ∧
          leaf.notBefore ≤ max now (X509.truncate order.notBefore) ∧
          ∀ b, IsLeast (X509.endTimes order) b → leaf.notAfter ≤ X509.truncate b) ∧
    (∀ (order : Order) (log : CallLog) (req : IssueRequest),
      Leads ((t.install s).issueRequest order) log (.done (.ok req)) →
        (X509.endTimes order = ∅ ∧ req.notAfter = 0 ∨ IsLeast (X509.endTimes order) req.notAfter) ∧
        ∀ (leaf : X509.Certificate) (now : Time), leaf.notAfter = X509.truncate req.notAfter →
          X509.Toolkit.checkValidity leaf order now ≠
              .error "leaf certificate outlives the authority token" ∧
            X509.Toolkit.checkValidity leaf order now ≠
              .error "leaf notAfter is later than the requested validity") ∧
    (∀ (schedule : Server.Schedule) (id : String) (c : Certificate),
      ((t.install s).run schedule).store.certificates.lookup id = some c →
        ∃ der leaf, c.chain.head? = some der ∧ t.parseCertificate der = .ok leaf ∧
          ∀ v ∈ c.validations, v.grantExpires ≠ 0 → leaf.notAfter ≤ v.grantExpires) := by
  refine ⟨fun leaf order now => X509.check_validity_ok, fun order log req hleads => ?_,
    fun schedule id c hc => run_within_grants t s schedule hc⟩
  obtain ⟨state, asked, -, rfl⟩ := (issue_request_returns _ order).leads hleads req rfl
  have hearliest := X509.issued_not_after_earliest order
  refine ⟨hearliest, fun leaf now hends => X509.check_validity_not_late fun b hb => ?_⟩
  rcases hearliest with ⟨hempty, -⟩ | hleast
  · rw [hempty] at hb
    exact absurd hb.1 (Set.notMem_empty b)
  · rw [hends, hb.unique hleast]
    exact le_refl _

end AcmeServer
