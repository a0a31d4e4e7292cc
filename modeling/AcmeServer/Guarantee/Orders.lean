import AcmeServer.Safety.Routes

/-!
# What every run keeps true of the stored resources

The results about orders, authorizations, challenges, certificates and tasks in the store of a
running server, whatever requests and workers are interleaved in it. Each is the invariant of the
protocol, or a step of it, read at the level of the store.
-/

namespace AcmeServer.Guarantee

open Memstore Protocol Lifecycle Safety

variable {s : Server} {w : World}

/-! ## Orders and their authorizations -/

/-- A status that the life cycle demands of an authorization is the stored one. -/
theorem stored_authorization (hinv : Invariant s w) {id aid : String} {o : Order}
    {P : AuthorizationStatus → Prop} (ho : w.store.orders.lookup id = some o)
    (haid : aid ∈ o.authorizationIDs)
    (h : ∀ row, rows authorizationRow w.store.authzs aid = some row → P row.status) :
    ∃ a, w.store.authzs.lookup aid = some a ∧ P a.status := by
  obtain ⟨a, ha⟩ := order_authorization_stored hinv ho haid
  exact ⟨a, ha, h _ (rows_of_lookup ha)⟩

/-- An order with a terminal authorization is invalid or was dispatched before. -/
theorem terminal_authorization (hinv : Invariant s w) {id aid : String} {o : Order}
    {a : Authorization} (ho : w.store.orders.lookup id = some o) (haid : aid ∈ o.authorizationIDs)
    (ha : w.store.authzs.lookup aid = some a) (hterminal : a.status.terminal = true) :
    o.status = .invalid ∨ o.issuance ≠ none := by
  have hagrees := hinv.coherent.agrees (rows_of_lookup ho)
  have hrow : rows authorizationRow w.store.authzs aid = some (authorizationRow a) :=
    rows_of_lookup ha
  have hvalid : a.status ≠ .valid := by
    intro heq
    rw [heq] at hterminal
    cases hterminal
  by_contra hnot
  push Not at hnot
  obtain ⟨hinvalid, hundispatched⟩ := hnot
  cases hstatus : o.status with
  | pending =>
      have hlive := (hagrees.pending hstatus).1 aid haid _ hrow
      rw [show a.status.terminal = false from hlive] at hterminal
      cases hterminal
  | ready => exact hvalid (hagrees.ready (.inl hstatus) aid haid _ hrow)
  | processing => exact hvalid (hagrees.ready (.inr ⟨hstatus, hundispatched⟩) aid haid _ hrow)
  | valid =>
      exact (hinv.coherent.shaped (rows_of_lookup ho)).dispatched hstatus hundispatched
  | invalid => exact hinvalid hstatus

/-- A stored order and its authorizations always agree. A pending order has no terminal
authorization and waits for a pending one. A ready order, and a processing one that has not been
dispatched, has only valid authorizations. A terminal authorization has made its order invalid,
unless the order was dispatched before. -/
theorem order_agrees_with_authorizations (s : Server) (schedule : Server.Schedule) :
    let st := (s.run schedule).store
    (∀ id o, st.orders.lookup id = some o → o.status = .pending →
      (∀ aid ∈ o.authorizationIDs, ∃ a, st.authzs.lookup aid = some a ∧
        a.status.terminal = false) ∧
      ∃ aid ∈ o.authorizationIDs, ∃ a, st.authzs.lookup aid = some a ∧ a.status = .pending) ∧
    (∀ id o, st.orders.lookup id = some o →
      o.status = .ready ∨ (o.status = .processing ∧ o.issuance = none) →
      ∀ aid ∈ o.authorizationIDs, ∃ a, st.authzs.lookup aid = some a ∧ a.status = .valid) ∧
    (∀ id o, st.orders.lookup id = some o → ∀ aid ∈ o.authorizationIDs, ∀ a,
      st.authzs.lookup aid = some a → a.status.terminal = true →
      o.status = .invalid ∨ o.issuance ≠ none) := by
  intro st
  have hinv := run_invariant s schedule
  refine ⟨fun id o ho hpending => ?_, fun id o ho hready aid haid => ?_, ?_⟩
  · have hagrees := hinv.coherent.agrees (rows_of_lookup ho)
    obtain ⟨hlive, aid, haid, row, hrow, hundecided⟩ := hagrees.pending hpending
    obtain ⟨a, ha, rfl⟩ := rows_eq_some.mp hrow
    refine ⟨fun aid haid => ?_, aid, haid, a, ha, hundecided⟩
    exact stored_authorization (P := fun status => status.terminal = false) hinv ho haid
      (hlive aid haid)
  · have hagrees := hinv.coherent.agrees (rows_of_lookup ho)
    exact stored_authorization (P := fun status => status = .valid) hinv ho haid
      (hagrees.ready hready aid haid)
  · intro id o ho aid haid a ha hterminal
    exact terminal_authorization hinv ho haid ha hterminal

/-! ## Status transitions -/

/-- What one choice of a schedule does to the store. -/
theorem run_evolution (s : Server) (schedule : Server.Schedule)
    (choice : Interaction.Choice Env Server.Start) :
    Evolution (s.run schedule).store (s.run (schedule ++ [choice])).store := by
  rcases run_step s schedule choice with hsame | ⟨thread, call, hinv, hpermitted, _, _, hexecute⟩
  · rw [hsame]
    exact Evolution.refl _
  · exact (executed_of_execute hexecute).evolution hinv hpermitted

/-- A record that evolves keeps its status or changes it as its steps do. -/
theorem status_change {V S : Type} (canTransition : S → S → Bool) {P : V → V → Prop}
    {status : V → S} {t t' : Table V} (h : Table.Evolves P t t')
    (hstep : ∀ v v', P v v' →
      status v' = status v ∨ canTransition (status v) (status v') = true) {id : String}
    {v v' : V} (hv : t.lookup id = some v) (hv' : t'.lookup id = some v')
    (hchange : status v' ≠ status v) : canTransition (status v) (status v') = true := by
  obtain ⟨found, hfound, hsame | hmoved⟩ := h id v hv
  · rw [hv'] at hfound
    cases hfound
    exact absurd (congrArg status hsame) hchange
  · rw [hv'] at hfound
    cases hfound
    exact (hstep v v' hmoved).resolve_left hchange

/-- Every change of a stored status is a transition of its type, and a terminal status of an order,
an authorization or a challenge is kept for good. -/
theorem statuses_follow_transitions (s : Server) (schedule rest : Server.Schedule)
    (choice : Interaction.Choice Env Server.Start) :
    let st := (s.run schedule).store
    let next := (s.run (schedule ++ [choice])).store
    let later := (s.run (schedule ++ rest)).store
    (∀ id a a', st.accounts.lookup id = some a → next.accounts.lookup id = some a' →
      a'.status ≠ a.status → a.status.canTransition a'.status = true) ∧
    (∀ id o o', st.orders.lookup id = some o → next.orders.lookup id = some o' →
      o'.status ≠ o.status → o.status.canTransition o'.status = true) ∧
    (∀ id a a', st.authzs.lookup id = some a → next.authzs.lookup id = some a' →
      a'.status ≠ a.status → a.status.canTransition a'.status = true) ∧
    (∀ id c c', st.challenges.lookup id = some c → next.challenges.lookup id = some c' →
      c'.status ≠ c.status → c.status.canTransition c'.status = true) ∧
    (∀ id o, st.orders.lookup id = some o → o.status.terminal = true →
      ∃ o', later.orders.lookup id = some o' ∧ o'.status = o.status) ∧
    (∀ id a, st.authzs.lookup id = some a → a.status.terminal = true →
      ∃ a', later.authzs.lookup id = some a' ∧ a'.status = a.status) ∧
    (∀ id c, st.challenges.lookup id = some c → c.status.terminal = true →
      ∃ c', later.challenges.lookup id = some c' ∧ c'.status = c.status) := by
  intro st next later
  have hnext := run_evolution s schedule choice
  have hlater := later_progress (run_progress s schedule rest)
  refine ⟨?_, ?_, ?_, ?_, ?_, ?_, ?_⟩
  · exact fun _ _ _ => status_change AccountStatus.canTransition hnext.accounts fun _ _ hstep =>
      hstep.status
  · exact fun _ _ _ => status_change OrderStatus.canTransition hnext.orders fun _ _ hstep =>
      hstep.status
  · exact fun _ _ _ => status_change AuthorizationStatus.canTransition hnext.authzs fun _ _ hstep =>
      hstep.status
  · exact fun _ _ _ => status_change ChallengeStatus.canTransition hnext.challenges fun _ _ hstep =>
      hstep.status
  · intro id o ho hterminal
    obtain ⟨o', ho', hsteps⟩ := hlater.orders id o ho
    exact ⟨o', ho', order_terminal_eq hsteps hterminal⟩
  · intro id a ha hterminal
    obtain ⟨a', ha', hsteps⟩ := hlater.authzs id a ha
    exact ⟨a', ha', authorization_terminal_eq hsteps hterminal⟩
  · intro id c hc hterminal
    obtain ⟨c', hc', hsteps⟩ := hlater.challenges id c hc
    exact ⟨c', hc', challenge_terminal_eq hsteps hterminal⟩

/-! ## Tasks -/

/-- The task does the work on the target. -/
def Works (st : Store) (kind : TaskKind) (target tid : String) : Prop :=
  ∃ t, st.tasks.lookup tid = some t ∧ t.kind = kind ∧ t.targetID = target

theorem works_iff_row {st : Store} {kind : TaskKind} {target tid : String} :
    Works st kind target tid ↔ rows taskRow st.tasks tid = some ⟨kind, target⟩ := by
  constructor
  · rintro ⟨t, ht, rfl, rfl⟩
    exact rows_of_lookup ht
  · intro h
    obtain ⟨t, ht, hrow⟩ := rows_eq_some.mp h
    cases hrow
    exact ⟨t, ht, rfl, rfl⟩

/-- Work that is due has exactly one task. -/
theorem unique_task (hinv : Invariant s w) {kind : TaskKind} {target : String}
    (hdue : (⟨kind, target⟩ : TaskRow) ∈ (lifecycle w.store).due) :
    ∃! tid, Works w.store kind target tid := by
  obtain ⟨tid, htid⟩ := hinv.coherent.served.complete hdue
  refine ⟨tid, works_iff_row.mpr htid, fun other hother => ?_⟩
  exact hinv.coherent.served.unique (works_iff_row.mp hother) htid

/-- Accepted work is neither lost nor enqueued twice. A challenge is processing exactly if it has
one validation task, and there is no validation task for any other challenge. A processing order has
exactly one issuance task, and such a task is never for a pending, ready or valid order. -/
theorem work_is_served_once (s : Server) (schedule : Server.Schedule) :
    let st := (s.run schedule).store
    (∀ cid c, st.challenges.lookup cid = some c →
      (c.status = .processing ↔ ∃! tid, Works st .validate cid tid)) ∧
    (∀ tid t, st.tasks.lookup tid = some t → t.kind = .validate →
      ∃ c, st.challenges.lookup t.targetID = some c ∧ c.status = .processing) ∧
    (∀ id o, st.orders.lookup id = some o → o.status = .processing →
      ∃! tid, Works st .issue id tid) ∧
    (∀ tid t, st.tasks.lookup tid = some t → t.kind = .issue →
      ∃ o, st.orders.lookup t.targetID = some o ∧ o.status ≠ .pending ∧ o.status ≠ .ready ∧
        o.status ≠ .valid) := by
  intro st
  have hinv := run_invariant s schedule
  refine ⟨fun cid c hc => ⟨fun hprocessing => ?_, ?_⟩, ?_, ?_, ?_⟩
  · exact unique_task hinv (.inl ⟨rfl, _, rows_of_lookup hc, hprocessing⟩)
  · rintro ⟨tid, ⟨t, ht, hkind, htarget⟩, _⟩
    obtain ⟨c', hc', hprocessing⟩ := validation_target hinv ht hkind
    rw [htarget, show (s.run schedule).store.challenges.lookup cid = some c from hc] at hc'
    cases hc'
    exact hprocessing
  · exact fun tid t ht hkind => validation_target hinv ht hkind
  · exact fun id o ho hprocessing =>
      unique_task hinv (.inr ⟨rfl, _, rows_of_lookup ho, hprocessing⟩)
  · intro tid t ht hkind
    obtain ⟨o, ho, hstatus | hstatus⟩ := issuance_target hinv ht hkind
    · exact ⟨o, ho, by simp [hstatus], by simp [hstatus], by simp [hstatus]⟩
    · exact ⟨o, ho, by simp [hstatus], by simp [hstatus], by simp [hstatus]⟩

/-! ## Certificates -/

/-- The certificate of a valid order is stored for it. -/
theorem published_certificate (hinv : Invariant s w) {id : String} {o : Order}
    (ho : w.store.orders.lookup id = some o) (hvalid : o.status = .valid) :
    ∃ c, w.store.certificates.lookup o.certificateID = some c ∧ c.orderID = id := by
  have hpublished : (lifecycle w.store).published id = some o.certificateID := by
    unfold State.published
    rw [lifecycle_orders, rows_of_lookup ho, Option.bind_some]
    exact if_pos hvalid
  obtain ⟨c, hc, horder⟩ := rows_eq_some.mp ((hinv.coherent.certified _ _).mp hpublished)
  exact ⟨c, hc, horder⟩

/-- The order of a stored certificate is valid and names it. -/
theorem certified_order (hinv : Invariant s w) {cid : String} {c : Certificate}
    (hc : w.store.certificates.lookup cid = some c) :
    ∃ o, w.store.orders.lookup c.orderID = some o ∧ o.status = .valid ∧ o.certificateID = cid := by
  have hpublished := (hinv.coherent.certified c.orderID cid).mpr (rows_of_lookup hc)
  obtain ⟨row, hrow, hcertificate⟩ := Option.bind_eq_some_iff.mp hpublished
  obtain ⟨o, ho, rfl⟩ := rows_eq_some.mp hrow
  split at hcertificate
  · rename_i hvalid
    exact ⟨o, ho, hvalid, Option.some.inj hcertificate⟩
  · cases hcertificate

/-- Orders and certificates name each other. An order is valid exactly if it has a certificate ID,
the certificate is then stored with the ID of the order, and the order that a stored certificate
names is valid and names it. So an order has one certificate and a certificate one order. -/
theorem certificates_match_orders (s : Server) (schedule : Server.Schedule) :
    let st := (s.run schedule).store
    (∀ id o, st.orders.lookup id = some o → (o.status = .valid ↔ o.certificateID ≠ "")) ∧
    (∀ id o, st.orders.lookup id = some o → o.status = .valid →
      ∃ c, st.certificates.lookup o.certificateID = some c ∧ c.id = o.certificateID ∧
        c.orderID = o.id) ∧
    (∀ cid c, st.certificates.lookup cid = some c →
      ∃ o, st.orders.lookup c.orderID = some o ∧ o.status = .valid ∧ o.certificateID = c.id) ∧
    (∀ cid cid' c c', st.certificates.lookup cid = some c → st.certificates.lookup cid' = some c' →
      c.orderID = c'.orderID → cid = cid') ∧
    (∀ id id' o o', st.orders.lookup id = some o → st.orders.lookup id' = some o' →
      o.status = .valid → o'.status = .valid → o.certificateID = o'.certificateID → id = id') := by
  intro st
  have hinv := run_invariant s schedule
  refine ⟨fun id o ho => ?_, fun id o ho hvalid => ?_, fun cid c hc => ?_, ?_, ?_⟩
  · exact (hinv.coherent.shaped (rows_of_lookup ho)).published
  · obtain ⟨c, hc, horder⟩ := published_certificate hinv ho hvalid
    have hid : o.id = id := hinv.keyed.orders id o ho
    exact ⟨c, hc, hinv.keyed.certificates _ c hc, horder.trans hid.symm⟩
  · obtain ⟨o, ho, hvalid, hcertificate⟩ := certified_order hinv hc
    exact ⟨o, ho, hvalid, hcertificate.trans (hinv.keyed.certificates cid c hc).symm⟩
  · intro cid cid' c c' hc hc' horder
    obtain ⟨o, ho, _, rfl⟩ := certified_order hinv hc
    obtain ⟨o', ho', _, rfl⟩ := certified_order hinv hc'
    rw [horder, ho'] at ho
    cases ho
    rfl
  · intro id id' o o' ho ho' hvalid hvalid' hsame
    obtain ⟨c, hc, rfl⟩ := published_certificate hinv ho hvalid
    obtain ⟨c', hc', rfl⟩ := published_certificate hinv ho' hvalid'
    rw [hsame, hc'] at hc
    cases hc
    rfl

end AcmeServer.Guarantee
