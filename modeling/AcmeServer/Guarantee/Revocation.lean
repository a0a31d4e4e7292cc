import AcmeServer.Safety.Routes

/-!
# Revocation

What every run keeps true of the revocation of a certificate, whatever requests to revoke it and
orders that replace it are interleaved.
-/

namespace AcmeServer.Guarantee

open Memstore Protocol Safety

variable {s : Server} {w : World}

/-! ## Recorded revocations -/

/-- A permitted revocation write keeps the replacement claim of every certificate. -/
theorem replacement_claim_kept {st st' : Store} {c old : Certificate} {id : String}
    (hpermitted : IfCurrent st.certificates c.id Certificate.revision c.revision fun stored =>
      c.replacedByOrderID = stored.replacedByOrderID)
    (hcommit : Commit st (.updateCertificate c) st') (hold : st.certificates.lookup id = some old) :
    ∃ new, st'.certificates.lookup id = some new ∧
      new.replacedByOrderID = old.replacedByOrderID := by
  cases hcommit with
  | updateCertificate _ stored hstored hrevision =>
      by_cases hid : id = c.id
      · subst hid
        have hsame : stored = old := Option.some.inj (hstored.symm.trans hold)
        rw [hsame] at hrevision
        exact ⟨c.revised, Finmap.lookup_insert _, hpermitted old hold hrevision⟩
      · exact ⟨old, (Finmap.lookup_insert_of_ne _ hid).trans hold, rfl⟩
  | read _ hread => cases hread

/-- The next choice of a schedule keeps the replacement claims if it writes a revocation. -/
theorem revocation_write_keeps_claims {schedule : Server.Schedule}
    {choice : Interaction.Choice Env Server.Start} {thread : Nat} {before : Store} {c : Certificate}
    {reply : Reply (.updateCertificate c)}
    (hwrite : (s.run (schedule ++ [choice])).history =
      ⟨thread, before, .store (.updateCertificate c), reply⟩ :: (s.run schedule).history)
    {id : String} {old : Certificate}
    (hold : (s.run schedule).store.certificates.lookup id = some old) :
    ∃ new, (s.run (schedule ++ [choice])).store.certificates.lookup id = some new ∧
      new.replacedByOrderID = old.replacedByOrderID := by
  rcases run_step s schedule choice with hsame | ⟨actor, call, _, hpermitted, _, _, hexecute⟩
  · rw [hsame]
    exact ⟨old, hold, rfl⟩
  · have hexecuted := executed_of_execute hexecute
    have hevent := hexecuted.history_eq
    rw [hwrite] at hevent
    cases hevent
    rcases hexecuted.store_cases with hsame | ⟨_, hcall, hcommit⟩
    · rw [hsame]
      exact ⟨old, hold, rfl⟩
    · cases hcall
      refine replacement_claim_kept (fun stored hstored hrevision => ?_) hcommit hold
      exact (hpermitted stored hstored hrevision).2.2.1

/-- A certificate that is revoked stays revoked with the operation, reason and time that are
recorded, and the revoker has accepted that operation with that reason. Every revocation request
that was granted has left its certificate revoked. No revocation write loses the claim of an order
that replaces a certificate. -/
theorem revocations_are_final (s : Server) (schedule rest : Server.Schedule)
    (choice : Interaction.Choice Env Server.Start) :
    let w := s.run schedule
    let later := s.run (schedule ++ rest)
    let next := s.run (schedule ++ [choice])
    (∀ id c, w.store.certificates.lookup id = some c → c.revoked = true →
      ∃ c', later.store.certificates.lookup id = some c' ∧ c'.revoked = true ∧
        c'.revocationOperationID = c.revocationOperationID ∧
        c'.revocationReason = c.revocationReason ∧ c'.revokedAt = c.revokedAt) ∧
    (∀ id c, w.store.certificates.lookup id = some c → c.revoked = true →
      ∃ e ∈ w.history, ∃ req, e.revokes = some req ∧ s.certificateID req.der = id ∧
        req.operationID = c.revocationOperationID ∧ req.reason = c.revocationReason) ∧
    (∀ e ∈ w.history, ∀ r response, e.answers = some (r, response) → s.route r = .revokeCert →
      response.success = true → ∃ der c, s.carriedCertificate r = some der ∧
        w.store.certificates.lookup (s.certificateID der) = some c ∧ c.revoked = true) ∧
    (∀ thread before c reply,
      next.history = ⟨thread, before, .store (.updateCertificate c), reply⟩ :: w.history →
      ∀ id old, w.store.certificates.lookup id = some old →
        ∃ new, next.store.certificates.lookup id = some new ∧
          new.replacedByOrderID = old.replacedByOrderID) := by
  intro w later next
  have hinv := run_invariant s schedule
  have hprogress := later_progress (run_progress s schedule rest)
  refine ⟨fun id c hc hrevoked => ?_, fun id c hc hrevoked => ?_, ?_, ?_⟩
  · obtain ⟨c', hc', hsteps⟩ := hprogress.certificates id c hc
    exact ⟨c', hc', revocation_kept (fun r => revocation_eq hsteps) hrevoked⟩
  · obtain ⟨e, he, req, hreq, hid, hoperation, hreason⟩ := hinv.revoked hc hrevoked
    exact ⟨e, he, req, hreq, hid.trans (hinv.keyed.certificates id c hc), hoperation, hreason⟩
  · intro e he r response hanswers hroute hsuccess
    have hgranted := hinv.answered he hanswers hsuccess
    unfold Granted at hgranted
    rw [hroute] at hgranted
    exact hgranted
  · exact fun _ _ _ _ hwrite _ _ => revocation_write_keeps_claims hwrite

/-- The revoker refuses the revocation of the issued certificate with a problem of status 200. -/
def refusedRevocation : Server.Schedule :=
  Sample.claim ++ Sample.issue ++ Sample.revoke 4 10 "operation"
    (some (.problem ((newProblem .unauthorized "refused").withStatus 200)))

/-- A status 200 alone does not say that a certificate is revoked: the problem of a revoker reaches
the client with the status that the revoker gave it. -/
theorem refused_revocation_answered :
    let w := Sample.server.run refusedRevocation
    ¬ ∀ e ∈ w.history, ∀ r response, e.answers = some (r, response) →
      Sample.server.route r = .revokeCert → response.status = 200 →
      ∃ der c, Sample.server.carriedCertificate r = some der ∧
        w.store.certificates.lookup (Sample.server.certificateID der) = some c ∧
        c.revoked = true := by
  intro w hall
  have hlast : (w.history.head?.bind Event.answers).map (fun (r, response) =>
      (Sample.server.route r, response.status)) = some (.revokeCert, 200) := by decide +kernel
  have hstored : (w.store.certificates.lookup "certificate").map Certificate.revoked =
      some false := by decide +kernel
  obtain ⟨⟨r, response⟩, hanswer, hfacts⟩ := Option.map_eq_some_iff.mp hlast
  obtain ⟨e, he, hanswers⟩ := Option.bind_eq_some_iff.mp hanswer
  obtain ⟨hroute, hstatus⟩ := Prod.mk.inj hfacts
  obtain ⟨_, c, _, hc, hrevoked⟩ :=
    hall e (List.mem_of_mem_head? he) r response hanswers hroute hstatus
  change w.store.certificates.lookup "certificate" = some c at hc
  rw [hc, Option.map_some, hrevoked] at hstored
  cases hstored

/-! ## One operation for one certificate -/

/-- The oldest commit of the history that begins a revocation of the certificate records the
operation and the reason. -/
def FirstBegun (history : List Event) (id operationID : String) (reason : Int) : Prop :=
  ∃ e earlier c, e :: earlier <:+ history ∧ e.beginsRevocation = some c ∧ c.id = id ∧
    (∀ e' ∈ earlier, ∀ c', e'.beginsRevocation = some c' → c'.id ≠ id) ∧
    c.revocationOperationID = operationID ∧ c.revocationReason = reason

theorem FirstBegun.mono {history history' : List Event} {id operationID : String} {reason : Int}
    (h : FirstBegun history id operationID reason) (hsuffix : history <:+ history') :
    FirstBegun history' id operationID reason := by
  obtain ⟨e, earlier, c, he, hrest⟩ := h
  exact ⟨e, earlier, c, he.trans hsuffix, hrest⟩

/-- There is only one oldest commit. -/
theorem FirstBegun.unique {history : List Event} {id operationID operationID' : String}
    {reason reason' : Int} (h : FirstBegun history id operationID reason)
    (h' : FirstBegun history id operationID' reason') :
    operationID = operationID' ∧ reason = reason' := by
  obtain ⟨e, earlier, c, he, hbegins, hid, hfirst, rfl, rfl⟩ := h
  obtain ⟨e', earlier', c', he', hbegins', hid', hfirst', rfl, rfl⟩ := h'
  have hsame : e :: earlier = e' :: earlier' := by
    rcases List.suffix_or_suffix_of_suffix he he' with hsuffix | hsuffix
    · refine (List.suffix_cons_iff.mp hsuffix).resolve_right fun hin => ?_
      exact hfirst' e (hin.mem List.mem_cons_self) c hbegins hid
    · refine ((List.suffix_cons_iff.mp hsuffix).resolve_right fun hin => ?_).symm
      exact hfirst e' (hin.mem List.mem_cons_self) c' hbegins' hid'
  cases hsame
  cases Option.some.inj (hbegins.symm.trans hbegins')
  exact ⟨rfl, rfl⟩

/-- What holds of a certificate as long as the revoker refuses to revoke it in no call. -/
structure OneOperation (s : Server) (id : String) (w : World) : Prop where
  seen : ∀ operationID reason, operationID ≠ "" → Seen (Recorded id operationID reason) w →
    FirstBegun w.history id operationID reason
  begun : ∀ e ∈ w.history, ∀ c, e.beginsRevocation = some c → c.id = id →
    Recorded id c.revocationOperationID c.revocationReason w.store
  asked : ∀ {e earlier req}, e :: earlier <:+ w.history → e.asksRevocation = some req →
    s.certificateID req.der = id → FirstBegun earlier id req.operationID req.reason

theorem one_operation_initial (s : Server) (id : String) : OneOperation s id World.initial where
  seen operationID reason _ h := by
    rcases h with ⟨c, hc, _⟩ | ⟨e, he, _⟩
    · simp [World.initial, Store.new, Finmap.lookup_empty] at hc
    · simp [World.initial] at he
  begun e he := by simp [World.initial] at he
  asked h := by simp [World.initial] at h

/-- The commit that begins a revocation. -/
theorem begins_call {e : Event} {c : Certificate} (h : e.beginsRevocation = some c) :
    c.revocationOperationID ≠ "" ∧ ∃ thread before args,
      e = ⟨thread, before, .store (.updateCertificate c), ⟨.ok (), args⟩⟩ := by
  unfold Event.beginsRevocation at h
  split at h
  · rename_i thread before cert args
    split at h
    · rename_i hbegins
      cases h
      exact ⟨hbegins.2, thread, before, args, rfl⟩
    · cases h
  · cases h

/-- The call that asks for a revocation. -/
theorem asks_call {e : Event} {req : RevokeRequest} (h : e.asksRevocation = some req) :
    ∃ thread before answer, e = ⟨thread, before, .host (.revoke req), answer⟩ := by
  unfold Event.asksRevocation at h
  split at h
  · rename_i thread before request answer
    cases h
    exact ⟨thread, before, answer, rfl⟩
  · cases h

/-- The operation that was begun first is the recorded one. -/
theorem OneOperation.recorded {id operationID : String} {reason : Int} (h : OneOperation s id w)
    (hfirst : FirstBegun w.history id operationID reason) :
    Recorded id operationID reason w.store := by
  obtain ⟨e, earlier, c, he, hbegins, hid, _, rfl, rfl⟩ := hfirst
  exact h.begun e (he.mem List.mem_cons_self) c hbegins hid

/-- What the revoker accepts is recorded. -/
theorem OneOperation.accepted {c : Certificate} (h : OneOperation s c.id w)
    (haccepted : Accepted s w.history c) :
    Recorded c.id c.revocationOperationID c.revocationReason w.store := by
  obtain ⟨e, he, req, hreq, hid, hoperation, hreason⟩ := haccepted
  obtain ⟨later, earlier, hhistory⟩ := List.append_of_mem he
  have hasks : e.asksRevocation = some req := by
    unfold Event.revokes at hreq
    split at hreq
    · exact hreq
    · cases hreq
  have hsuffix : e :: earlier <:+ w.history := ⟨later, hhistory.symm⟩
  have hfirst := h.asked hsuffix hasks hid
  rw [hoperation, hreason] at hfirst
  exact h.recorded (hfirst.mono ((List.suffix_cons e earlier).trans hsuffix))

section Step

variable {w' : World} {thread : Nat} {call : Call} {answer : call.Answer} {id : String}

/-- A certificate that is stored after a call carries the operation it had before, is new, or has
just got its first operation. -/
theorem operation_origin (h : OneOperation s id w) (hopen : ¬ Refused s w.history id)
    (hexecuted : Executed w thread call answer w') (hpermitted : Permitted s w thread call)
    {cert' : Certificate} (hcert' : w'.store.certificates.lookup id = some cert') :
    Recorded id cert'.revocationOperationID cert'.revocationReason w.store ∨
      (w.store.certificates.lookup id = none ∧ cert'.revocationOperationID = "") ∨
      ∃ c reason, Event.beginsRevocation ⟨thread, w.store, call, answer⟩ = some c ∧ c.id = id ∧
        c.revocationOperationID = cert'.revocationOperationID ∧
        c.revocationReason = cert'.revocationReason ∧ Recorded id "" reason w.store := by
  cases hexecuted with
  | host => exact .inl ⟨cert', hcert', rfl, rfl⟩
  | failed => exact .inl ⟨cert', hcert', rfl, rfl⟩
  | committed call reply v st' hok hcommit =>
      cases commit_certificate hpermitted hcommit hcert' with
      | kept hcert => exact .inl ⟨cert', hcert, rfl, rfl⟩
      | claimed _ _ hcert _ => exact .inl ⟨_, hcert, rfl, rfl⟩
      | published hnew _ hunrecorded => exact .inr (.inl ⟨hnew, hunrecorded⟩)
      | @updated c stored hstored hrevision =>
          obtain ⟨_, _, _, haccepted, hopened⟩ := hpermitted stored hstored hrevision
          cases hrevoked : c.revoked with
          | true => exact .inl (h.accepted (haccepted hrevoked))
          | false =>
              obtain ⟨hunrecorded, hoperation⟩ := (hopened hrevoked).resolve_right hopen
              refine .inr (.inr ⟨c, stored.revocationReason, ?_, rfl, rfl, rfl, stored, hstored,
                hunrecorded, rfl⟩)
              obtain ⟨result, args⟩ := reply
              cases show result = .ok () from hok
              exact if_pos ⟨hrevoked, hoperation⟩

/-- A recorded operation stays recorded. -/
theorem recorded_kept (h : OneOperation s id w) (hopen : ¬ Refused s w.history id)
    (hexecuted : Executed w thread call answer w') (hinv : Invariant s w)
    (hpermitted : Permitted s w thread call) {operationID : String} {reason : Int}
    (hoperation : operationID ≠ "") (hrecorded : Recorded id operationID reason w.store) :
    Recorded id operationID reason w'.store := by
  obtain ⟨cert, hcert, rfl, rfl⟩ := hrecorded
  obtain ⟨cert', hcert', _⟩ := (hexecuted.evolution hinv hpermitted).certificates id cert hcert
  rcases operation_origin h hopen hexecuted hpermitted hcert' with
    ⟨found, hfound, hsame, hreason⟩ | ⟨hnew, _⟩ | ⟨_, _, _, _, _, _, found, hfound, hempty, _⟩
  · cases Option.some.inj (hcert.symm.trans hfound)
    exact ⟨cert', hcert', hsame.symm, hreason.symm⟩
  · rw [hcert] at hnew
    cases hnew
  · cases Option.some.inj (hcert.symm.trans hfound)
    exact absurd hempty hoperation

/-- What was ever recorded was recorded before the call, or the call begins the revocation. -/
theorem seen_origin (h : OneOperation s id w) (hopen : ¬ Refused s w.history id)
    (hexecuted : Executed w thread call answer w') (hpermitted : Permitted s w thread call)
    {operationID : String} {reason : Int} (hoperation : operationID ≠ "")
    (hseen : Seen (Recorded id operationID reason) w') :
    Seen (Recorded id operationID reason) w ∨
      ∃ c reason', Event.beginsRevocation ⟨thread, w.store, call, answer⟩ = some c ∧ c.id = id ∧
        c.revocationOperationID = operationID ∧ c.revocationReason = reason ∧
        Recorded id "" reason' w.store := by
  rcases hseen with ⟨cert', hcert', rfl, rfl⟩ | ⟨e, he, hP⟩
  · rcases operation_origin h hopen hexecuted hpermitted hcert' with hold | ⟨_, hempty⟩ | hbegins
    · exact .inl (.inl hold)
    · exact absurd hempty hoperation
    · exact .inr hbegins
  · rw [hexecuted.history_eq] at he
    rcases List.mem_cons.mp he with rfl | hold
    · exact .inl (.inl hP)
    · exact .inl (.inr ⟨e, hold, hP⟩)

/-- A revocation that was just begun is recorded. -/
theorem begun_recorded (hexecuted : Executed w thread call answer w') {c : Certificate}
    (hbegins : Event.beginsRevocation ⟨thread, w.store, call, answer⟩ = some c) :
    Recorded c.id c.revocationOperationID c.revocationReason w'.store := by
  obtain ⟨_, _, _, _, hcall⟩ := begins_call hbegins
  cases hcall
  cases hexecuted with
  | failed _ _ _ herror => cases herror
  | committed _ _ _ _ _ hcommit => exact ⟨c.revised, update_certificate_stored hcommit, rfl, rfl⟩

theorem one_operation_step (h : OneOperation s id w) (hopen : ¬ Refused s w.history id)
    (hexecuted : Executed w thread call answer w') (hinv : Invariant s w)
    (hpermitted : Permitted s w thread call) : OneOperation s id w' := by
  have hsuffix : w.history <:+ w'.history := by
    rw [hexecuted.history_eq]
    exact List.suffix_cons _ _
  have hkept : ∀ c : Certificate, c.revocationOperationID ≠ "" →
      Recorded id c.revocationOperationID c.revocationReason w.store →
      Recorded id c.revocationOperationID c.revocationReason w'.store :=
    fun c hoperation => recorded_kept h hopen hexecuted hinv hpermitted hoperation
  refine ⟨fun operationID reason hoperation hseen => ?_, fun e he c hbegins hid => ?_, ?_⟩
  · rcases seen_origin h hopen hexecuted hpermitted hoperation hseen with hold |
      ⟨c, reason', hbegins, hid, hsame, hreason, stored, hstored, hempty, _⟩
    · exact (h.seen operationID reason hoperation hold).mono hsuffix
    · refine ⟨_, w.history, c, ?_, hbegins, hid, fun e he c' hbegins' hid' => ?_, hsame, hreason⟩
      · rw [hexecuted.history_eq]
      · -- An earlier commit would have left its operation in the store.
        obtain ⟨found, hfound, hoperation', _⟩ := h.begun e he c' hbegins' hid'
        cases Option.some.inj (hstored.symm.trans hfound)
        exact (begins_call hbegins').1 (hoperation'.symm.trans hempty)
  · rw [hexecuted.history_eq] at he
    rcases List.mem_cons.mp he with rfl | hold
    · exact hid ▸ begun_recorded hexecuted hbegins
    · exact hkept c (begins_call hbegins).1 (h.begun e hold c hbegins hid)
  · intro e earlier req he hasks hid
    rw [hexecuted.history_eq] at he
    rcases List.suffix_cons_iff.mp he with heq | hold
    · cases heq
      obtain ⟨_, _, _, hcall⟩ := asks_call hasks
      cases hcall
      obtain ⟨hoperation, hseen⟩ := hpermitted
      rw [hid] at hseen
      exact h.seen _ _ hoperation hseen
    · exact h.asked hold hasks hid

end Step

/-- Every world of a run in which the revoker never refuses the certificate. -/
theorem one_operation_later {id : String} (hlater : s.contract.Later World.initial w)
    (hopen : ¬ Refused s w.history id) : OneOperation s id w := by
  induction hlater with
  | refl => exact one_operation_initial s id
  | @tail u v _ hstep ih =>
      obtain ⟨_, _, hinv, hpermitted, _, _, hexecute⟩ := hstep
      have hexecuted := executed_of_execute hexecute
      have hearlier : ¬ Refused s u.history id := by
        intro hrefused
        apply hopen
        rw [hexecuted.history_eq]
        exact hrefused.mono fun e he => List.mem_cons_of_mem _ he
      exact one_operation_step (ih hearlier) hearlier hexecuted hinv hpermitted

/-- As long as the revoker answers no call for a certificate with a problem, every call for it
carries the operation and the reason of the first revocation that was begun, which was committed
before the call. So any two of these calls agree. -/
theorem revocation_calls_agree (s : Server) (schedule : Server.Schedule) (id : String)
    (hnever : ∀ e ∈ (s.run schedule).history, ∀ req, e.refusesRevocation = some req →
      s.certificateID req.der ≠ id) :
    (∀ e earlier req, e :: earlier <:+ (s.run schedule).history → e.asksRevocation = some req →
      s.certificateID req.der = id → FirstBegun earlier id req.operationID req.reason) ∧
    (∀ e ∈ (s.run schedule).history, ∀ e' ∈ (s.run schedule).history, ∀ req req',
      e.asksRevocation = some req → e'.asksRevocation = some req' →
      s.certificateID req.der = id → s.certificateID req'.der = id →
      req.operationID = req'.operationID ∧ req.reason = req'.reason) := by
  have hlater : s.contract.Later World.initial (s.run schedule) := run_progress s [] schedule
  have hone : OneOperation s id (s.run schedule) :=
    one_operation_later hlater fun ⟨e, he, req, hrefuses, hid⟩ => hnever e he req hrefuses hid
  have hfirst : ∀ e ∈ (s.run schedule).history, ∀ req, e.asksRevocation = some req →
      s.certificateID req.der = id →
      FirstBegun (s.run schedule).history id req.operationID req.reason := by
    intro e he req hasks hid
    obtain ⟨later, earlier, hhistory⟩ := List.append_of_mem he
    have hsuffix : e :: earlier <:+ (s.run schedule).history := ⟨later, hhistory.symm⟩
    exact (hone.asked hsuffix hasks hid).mono ((List.suffix_cons e earlier).trans hsuffix)
  refine ⟨fun e earlier req he hasks hid => hone.asked he hasks hid, ?_⟩
  intro e he e' he' req req' hasks hasks' hid hid'
  exact (hfirst e he req hasks hid).unique (hfirst e' he' req' hasks' hid')

/-- The revoker fails at first, and the client asks again. -/
def retriedRevocation : Server.Schedule :=
  Sample.claim ++ Sample.issue ++ Sample.revoke 4 9 "operation" (some (.text "unavailable")) ++
    Sample.revoke 5 8 "unused" none

/-- Both calls of the revoker carry the operation that the first request has begun. -/
theorem retried_revocation_agrees :
    let w := Sample.server.run retriedRevocation
    (w.history.filterMap Event.asksRevocation).length = 2 ∧
    ∀ e ∈ w.history, ∀ e' ∈ w.history, ∀ req req', e.asksRevocation = some req →
      e'.asksRevocation = some req' → Sample.server.certificateID req.der = "certificate" →
      Sample.server.certificateID req'.der = "certificate" →
      req.operationID = req'.operationID ∧ req.reason = req'.reason := by
  have hnever : ∀ e ∈ (Sample.server.run retriedRevocation).history,
      e.refusesRevocation = none := by decide +kernel
  refine ⟨by decide +kernel, (revocation_calls_agree Sample.server retriedRevocation "certificate"
    fun e he req hrefuses => ?_).2⟩
  rw [hnever e he] at hrefuses
  cases hrefuses

end AcmeServer.Guarantee
