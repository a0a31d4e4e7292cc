import AcmeServer.Safety.Finalize

/-!
# Safety of certificate requests

A revocation is recorded in three steps: the operation and reason are stored, the revoker is asked,
and the certificate is marked revoked with what the revoker accepted. Each update presents a
certificate that was read unrevoked (`CertificateRead`), so it never overwrites a revocation.
-/

namespace AcmeServer.Safety

open Interaction Interaction.Contract Memstore Protocol

variable {s : Server} {thread : Nat} {u w : World} {st : RequestState} {r : Request}

theorem serve_certificate_achieves (h : Unconditional s r) (id : String) :
    s.contract.Achieves thread (s.serveCertificate r id) st (fun _ _ _ => True) w := by
  unfold Server.serveCertificate
  refine achieves_bind ((read_signed_request_achieves r _ .account).weaken ?_)
  rintro req st₁ w₁ _ _
  refine achieves_any ?_
  refine (HarmlessAttempt.lift (harmless_fetch rfl)).bind fun result => ?_
  refine (HarmlessAttempt.expect _).bind fun cert => ?_
  refine (HarmlessAttempt.fail_if _ _).bind fun _ => ?_
  exact (HarmlessAttempt.check _).bind fun _ => harmless_write h _ _ _

/-! ## Updates of a certificate -/

/-- The certificate was stored at some moment. -/
def CertificateRead (s : Server) (c : Certificate) (w : World) : Prop :=
  s.contract.Once (fun u => u.store.certificates.lookup c.id = some c) w

theorem accepted_later {c : Certificate} (h : Accepted s u.history c)
    (hlater : s.contract.Later u w) : Accepted s w.history c :=
  h.mono fun _ he => (later_progress hlater).history.mem he

theorem refused_later {id : String} (h : Refused s u.history id)
    (hlater : s.contract.Later u w) : Refused s w.history id :=
  h.mono fun _ he => (later_progress hlater).history.mem he

/-- An update of a certificate that was read unrevoked is permitted if it changes only the
revocation, records one only if the revoker has accepted it, and otherwise begins an operation or
gives up a refused one. -/
theorem revocation_update {c c' : Certificate} (hread : CertificateRead s c w)
    (hopen : c.revoked = false) (hrevision : c'.revision = c.revision)
    (hterms : certificateTerms c' = certificateTerms c)
    (hreplaced : c'.replacedByOrderID = c.replacedByOrderID)
    (haccepted : c'.revoked = true → Accepted s w.history c')
    (hopened : c'.revoked = false →
      (c.revocationOperationID = "" ∧ c'.revocationOperationID ≠ "") ∨
        Refused s w.history c'.id) : RevocationUpdate s w c' := by
  intro stored hstored hsame
  obtain ⟨u, _, hu, hlookup⟩ := hread
  have hid := congrArg Certificate.id hterms
  change c'.id = c.id at hid
  rw [hid] at hstored
  cases certificate_unchanged hu hlookup hstored (hsame.trans hrevision)
  exact ⟨hopen, hterms, hreplaced, haccepted, hopened⟩

/-! ## Revocation -/

theorem issued_certificate_achieves (der : Bytes) :
    s.contract.Achieves thread (s.issuedCertificate der) st
      (fun c _ after => c.id = s.certificateID der ∧ CertificateRead s c after) w := by
  unfold Server.issuedCertificate
  refine achieves_lookup (reads_certificate _) fun c u _ hinv hc => ?_
  have hid := hinv.keyed.certificates _ c hc
  refine achieves_bind (achieves_fail_if fun w₁ h₁ _ _ => ?_)
  exact achieves_pure fun w₂ h₂ _ => ⟨hid, u, hinv, (h₁.trans h₂).later, by rwa [hid]⟩

theorem harmless_authorize_revocation (signer : Account ⊕ PublicKey) (cert : Certificate)
    (leaf : Leaf) (der : Bytes) :
    s.contract.HarmlessAttempt (s.authorizeRevocation signer cert leaf der) := by
  unfold Server.authorizeRevocation
  split
  · split
    · exact .pure _
    · refine (HarmlessAttempt.expect _).bind fun ids => ?_
      refine (HarmlessAttempt.fail_if _ _).bind fun _ => ?_
      refine (HarmlessAttempt.lift (harmless_ask (by intros; trivial))).bind fun now => ?_
      refine (HarmlessAttempt.lift (harmless_fetch rfl)).bind fun result => ?_
      exact (HarmlessAttempt.expect _).bind fun allowed => .fail_if _ _
  · exact (HarmlessAttempt.expect _).bind fun signer => .fail_if _ _

/-- A revocation continues with a certificate that was stored unrevoked with an operation. -/
theorem begin_revocation_achieves (reason : Int) (rounds : Nat) {cert : Certificate}
    (hread : CertificateRead s cert w) :
    s.contract.Achieves thread (Server.beginRevocation reason rounds cert) st
      (fun c _ after => c.id = cert.id ∧ c.revoked = false ∧ c.revocationOperationID ≠ "" ∧
        CertificateRead s c after) w := by
  induction rounds generalizing cert st w with
  | zero => exact achieves_throw
  | succ rounds ih =>
      unfold Server.beginRevocation
      split
      · exact achieves_throw
      · rename_i hopen
        rw [Bool.not_eq_true] at hopen
        split
        · rename_i hoperation
          exact achieves_pure fun w₁ h₁ _ => ⟨rfl, hopen, hoperation, hread.later h₁.later⟩
        · rename_i hunrecorded
          rw [not_not] at hunrecorded
          refine achieves_new_id rfl fun id w₁ w₂ h₁ _ h₂ _ hid _ _ => ?_
          refine achieves_ask (by intros; trivial) fun now w₃ h₃ _ => ?_
          have hread₃ := Once.later hread ((h₁.trans h₂).trans h₃).later
          refine achieves_store (fun w₄ h₄ _ => ?_) fun env w₄ w₅ _ _ hinv _ hfits hstore => ?_
          · refine revocation_update (Once.later hread₃ h₄.later) hopen rfl rfl rfl
              (fun hset => ?_) fun _ => .inl ⟨hunrecorded, hid⟩
            rw [show cert.revoked = true from hset] at hopen
            cases hopen
          · split
            · rename_i hok
              have hstored := update_certificate_stored (commit_of_ok hfits hok)
              rw [← hstore] at hstored
              rw [update_certificate_reply hok]
              exact achieves_pure fun w₆ h₆ _ => ⟨rfl, hopen, hid, w₅, hinv, h₆.later, hstored⟩
            · refine achieves_lookup (reads_certificate _) fun current w₆ h₆ hinv hcurrent => ?_
              have hkey := hinv.keyed.certificates _ current hcurrent
              have hnext : CertificateRead s current w₆ := .now hinv (by rwa [hkey])
              refine (ih hnext).weaken fun c _ w₇ _ hc => ?_
              exact ⟨hc.1.trans hkey, hc.2⟩
            · exact achieves_throw

/-- The certificate is stored and revoked. -/
def Revoked (id : String) (w : World) : Prop :=
  ∃ c, w.store.certificates.lookup id = some c ∧ c.revoked = true

theorem Revoked.later {id : String} (h : Revoked id u) (hlater : s.contract.Later u w) :
    Revoked id w := by
  obtain ⟨c, hc, hrevoked⟩ := h
  obtain ⟨c', hc', hsteps⟩ := (later_progress hlater).certificates id c hc
  exact ⟨c', hc', (revocation_kept (fun _ => revocation_eq hsteps) hrevoked).1⟩

/-- Recording a revocation marks the certificate, or finds that another request has. -/
theorem record_revocation_safe (rounds : Nat) {accepted cert : Certificate}
    (hread : CertificateRead s cert w) (hopen : cert.revoked = false)
    (haccepted : Accepted s w.history { accepted with id := cert.id }) :
    s.contract.Safe thread (Server.recordRevocation accepted rounds cert)
      (fun result after => result = none → Revoked cert.id after) w := by
  induction rounds generalizing cert w with
  | zero => exact safe_done fun _ _ _ hnone => by cases hnone
  | succ rounds ih =>
      unfold Server.recordRevocation
      refine safe_ask (by intros; trivial) fun now w₁ h₁ _ => ?_
      refine safe_store (fun w₂ h₂ _ => ?_) fun env w₂ w₃ h₂ _ _ h₃ hfits hstore => ?_
      · have hlater := (h₁.trans h₂).later
        exact revocation_update (hread.later hlater) hopen rfl rfl rfl
          (fun _ => accepted_later haccepted hlater) fun hnot => by cases hnot
      · split
        · rename_i hok
          have hstored := update_certificate_stored (commit_of_ok hfits hok)
          rw [← hstore] at hstored
          exact safe_done fun w₄ h₄ _ _ => Revoked.later ⟨_, hstored, rfl⟩ h₄.later
        · refine safe_lookup (reads_certificate _) fun result w₄ h₄ hinv hok _ => ?_
          cases result with
          | error e => exact safe_done fun _ _ _ hnone => by cases hnone
          | ok current =>
              have hcurrent := hok current rfl
              have hid : current.id = cert.id := hinv.keyed.certificates _ current hcurrent
              dsimp only
              split
              · rename_i hrevoked
                exact safe_done fun w₅ h₅ _ _ =>
                  Revoked.later ⟨current, hcurrent, hrevoked⟩ h₅.later
              · rename_i hnot
                have hlater := ((h₁.trans h₂).later.trans h₃).trans h₄.later
                rw [← hid]
                refine ih (.now hinv (by rw [hid]; exact hcurrent)) (by simpa using hnot) ?_
                rw [hid]
                exact accepted_later haccepted hlater
        · exact safe_done fun _ _ _ hnone => by cases hnone

/-- A recorded operation is given up once the revoker has refused. -/
theorem abandon_revocation_safe {cert : Certificate} (hread : CertificateRead s cert w)
    (hopen : cert.revoked = false) (hrefused : Refused s w.history cert.id) :
    s.contract.Safe thread (Server.abandonRevocation cert) (fun _ _ => True) w := by
  unfold Server.abandonRevocation
  refine safe_store (fun w₁ h₁ _ => ?_) fun _ _ _ _ _ _ _ _ _ => safe_done fun _ _ _ => trivial
  refine revocation_update (hread.later h₁.later) hopen rfl rfl rfl (fun hset => ?_) fun _ =>
    .inr (refused_later hrefused h₁.later)
  rw [show cert.revoked = true from hset] at hopen
  cases hopen

theorem open_revocation_achieves (signer : Account ⊕ PublicKey) (der : Bytes) (reason : Int) :
    s.contract.Achieves thread (s.openRevocation signer der reason) st
      (fun c _ after => c.id = s.certificateID der ∧ c.revoked = false ∧
        c.revocationOperationID ≠ "" ∧ CertificateRead s c after) w := by
  unfold Server.openRevocation
  split
  · refine achieves_bind (achieves_fail_if fun w₁ _ _ _ => ?_)
    refine achieves_bind ((issued_certificate_achieves der).weaken ?_)
    rintro cert st₂ w₂ _ ⟨hid, hread⟩
    refine achieves_bind ((harmless_authorize_revocation _ _ _ _).achieves fun _ st₃ w₃ h₃ _ => ?_)
    refine (begin_revocation_achieves reason 2 (hread.later h₃.later)).weaken ?_
    exact fun c _ _ _ hc => ⟨hc.1.trans hid, hc.2⟩
  · exact achieves_throw

/-- The stored certificate of a granted revocation request. -/
theorem granted_revocation {der : Bytes} (hroute : s.route r = .revokeCert)
    (hcarried : s.carriedCertificate r = some der) (h : Revoked (s.certificateID der) w) :
    Granted s w.store r := by
  obtain ⟨c, hc, hrevoked⟩ := h
  unfold Granted
  rw [hroute]
  exact ⟨der, c, hcarried, hc, hrevoked⟩

theorem carried_certificate_of_read {content der : Bytes} {payload : RevokeJSON}
    (hcontent : s.payloadOf r = some content)
    (hpayload : decodePayload (s.decodeRevoke content) = .ok payload)
    (hder : s.readCertificate payload = .ok der) : s.carriedCertificate r = some der := by
  unfold Server.carriedCertificate
  rw [hcontent, Option.bind_some, hpayload]
  simp only [bind, Except.bind, hder]
  rfl

theorem serve_revoke_cert_achieves (hroute : s.route r = .revokeCert) :
    s.contract.Achieves thread (s.serveRevokeCert r) st (fun _ _ _ => True) w := by
  unfold Server.serveRevokeCert
  refine achieves_bind ((read_signed_request_achieves r _ .either).weaken ?_)
  rintro req st₁ w₁ _ ⟨hcontent, _⟩
  refine achieves_bind (refusing_achieves (achieves_expect fun payload w₂ _ _ hpayload => ?_))
  refine achieves_bind (refusing_achieves (achieves_expect fun der w₃ _ _ hder => ?_))
  have hcarried := carried_certificate_of_read hcontent hpayload hder
  refine achieves_bind (refusing_achieves ((open_revocation_achieves _ _ _).weaken ?_))
  rintro cert st₄ w₄ _ ⟨hid, hopen, hoperation, hread⟩
  refine achieves_ask_noted (fun seen hseen _ => ?_) ?_
  · refine ⟨hoperation, seen_of_once ((hread.later hseen.later).mono fun u _ hu => ?_)⟩
    exact ⟨cert, hid ▸ hu, rfl, rfl⟩
  intro answer seen w₅ hseen _ hafter _ hnoted
  have h₅ := hseen.trans hafter
  cases answer with
  | some err =>
      dsimp only
      split
      · rename_i p hproblem
        have hrefused : Refused s w₅.history cert.id := by
          refine ⟨_, hnoted, _, if_pos ?_, hid.symm⟩
          rw [hproblem]
          rfl
        refine achieves_bind (achieves_lift ((abandon_revocation_safe (hread.later h₅.later) hopen
          hrefused).weaken fun _ _ _ _ => ?_))
        exact refusing_achieves achieves_throw
      · exact achieves_throw
  | none =>
      have haccepted : Accepted s w₅.history { cert with id := cert.id } :=
        ⟨_, hnoted, _, rfl, hid.symm, rfl, rfl⟩
      refine achieves_bind (achieves_lift ((Safe.stable
        (record_revocation_safe 2 (hread.later h₅.later) hopen haccepted)).weaken ?_))
      intro result w₆ _ hresult
      refine achieves_bind (achieves_check fun w₇ h₇ hinv hnone => ?_)
      have hrevoked := hresult w₇ h₇ hinv hnone
      rw [hid] at hrevoked
      exact write_achieves (granted_revocation hroute hcarried hrevoked) fun _ _ _ => trivial

/-! ## Renewal information -/

theorem harmless_serve_renewal_info (h : Unconditional s r) (id : String) :
    s.contract.Harmless (s.serveRenewalInfo r id) := by
  unfold Server.serveRenewalInfo
  split
  · exact harmless_write_problem _ _ _
  · refine (harmless_check_limit _).bind fun refusal => ?_
    cases refusal with
    | some p => exact harmless_write_problem_without_nonce _ _ _
    | none =>
        refine (harmless_fetch rfl).bind fun result => ?_
        cases result with
        | error err => exact harmless_write_problem _ _ _
        | ok cert =>
            refine Harmless.bind (harmless_ask (by intros; trivial)) fun answer => ?_
            cases answer with
            | error err => exact harmless_write_problem _ _ _
            | ok info =>
                dsimp only
                split
                · exact harmless_write_problem _ _ _
                · exact harmless_respond h _

end AcmeServer.Safety
