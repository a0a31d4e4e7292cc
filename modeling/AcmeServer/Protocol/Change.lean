import AcmeServer.Protocol.Refinement

/-!
# What a permitted call changes

`commit_advances`: a permitted call that commits changes stored records only by the steps of
`Protocol.Record`. Two further facts compare the stores before and after a call. The authorizations
of an order cannot change without the order's revision as long as it has not been dispatched
(`frozen`), and an order gets its issuance state only by the dispatch of a dispatchable order
(`OrderChange`).
-/

namespace AcmeServer.Protocol

open Memstore Lifecycle

variable {st st' : Store} {c : StoreCall}

/-- The call dispatches the order with the issuance state. -/
def Dispatches (st : Store) (c : StoreCall) (o : Order) (state : IssuanceState) : Prop :=
  ∃ d, c = .beginIssuance d ∧ d.order.id = o.id ∧ d.order.issuance = some state ∧
    Dispatchable st o state

/-- A step of an order by the call. -/
structure OrderChange (st : Store) (c : StoreCall) (o o' : Order) : Prop extends
    OrderStep o o' where
  dispatch : ∀ state, o'.issuance = some state → o.issuance = some state ∨ Dispatches st c o state

/-- The authorizations of an order that is neither dispatched nor settled stay as they are as long
as the revision of the order does. -/
def Frozen (st st' : Store) : Prop :=
  ∀ id o o', st.orders.lookup id = some o → (orderRow o).Open → st'.orders.lookup id = some o' →
    o'.revision = o.revision →
    ∀ aid ∈ o.authorizationIDs, st'.authzs.lookup aid = st.authzs.lookup aid

/-- What the call changes from the first store to the second. -/
structure Advances (st : Store) (c : StoreCall) (st' : Store) : Prop where
  accounts : Table.Evolves AccountStep st.accounts st'.accounts
  orders : Table.Evolves (OrderChange st c) st.orders st'.orders
  authzs : Table.Evolves AuthorizationStep st.authzs st'.authzs
  challenges : Table.Evolves ChallengeStep st.challenges st'.challenges
  certificates : Table.Evolves CertificateStep st.certificates st'.certificates
  frozen : Frozen st st'

theorem Advances.refl (st : Store) (c : StoreCall) : Advances st c st :=
  ⟨.refl _, .refl _, .refl _, .refl _, .refl _, fun _ _ _ _ _ _ _ _ _ => rfl⟩

/-! ## Single records -/

/-- A step that keeps the issuance state. -/
theorem OrderStep.change {o o' : Order} (h : OrderStep o o')
    (hissuance : o'.issuance = o.issuance) : OrderChange st c o o' :=
  { h with dispatch := fun _ hstate => .inl (hissuance ▸ hstate) }

/-- A step that changes at most the status, the error and a retained result. -/
theorem order_status_step {o o' : Order} {status : OrderStatus} (error : Option Problem)
    (result : Option IssueResult)
    (hstatus : status = o.status ∨ o.status.canTransition status = true)
    (hfields : o' = { o with status := status, error := error, unpublishedResult := result }) :
    OrderStep o o'.revised := by
  subst hfields
  exact ⟨rfl, rfl, hstatus, fun _ => rfl, fun _ => rfl⟩

theorem order_invalidated_change (o : Order) :
    o.invalidated = o ∨ OrderChange st c o o.invalidated := by
  unfold Order.invalidated
  split
  · rename_i hopen
    refine .inr (OrderStep.change ⟨rfl, rfl, .inr ?_, fun _ => rfl, fun _ => rfl⟩ rfl)
    rcases hopen with hstatus | hstatus | ⟨hstatus, _⟩ <;> rw [hstatus] <;> rfl
  · exact .inl rfl

theorem begin_issuance_change {d : Dispatch} {stored : Order} {account : Account}
    {state : IssuanceState} (hkeyed : Keyed st) (hd : DispatchDecision st d)
    (hstored : st.orders.lookup d.order.id = some stored)
    (hrevision : stored.revision = d.order.revision)
    (haccount : st.accounts.lookup d.account.id = some account) (hvalid : account.status = .valid)
    (hstate : d.order.issuance = some state) (hprocessing : stored.status = .processing)
    (hundispatched : stored.issuance = none)
    (hids : d.authzs.map Authorization.id = d.order.authorizationIDs)
    (hauthzs : ∀ a ∈ d.authzs, a.status = .valid ∧ state.authorizedAt < a.expires ∧
      ∃ current, st.authzs.lookup a.id = some current ∧ current.revision = a.revision) :
    OrderChange st (.beginIssuance d) stored d.order.revised := by
  obtain ⟨hsigner, proposed, hfields, _⟩ := hd.1 stored hstored hrevision
  have hlist : d.order.authorizationIDs = stored.authorizationIDs := by rw [hfields]
  refine ⟨⟨by simp [hrevision], by rw [hfields]; rfl, .inl (by rw [hfields]; rfl),
    fun _ => by rw [hfields]; rfl, fun hset => absurd hundispatched hset⟩, fun state' hstate' => ?_⟩
  have hsame : state' = state := by
    have hset : d.order.issuance = some state' := hstate'
    rw [hstate] at hset
    exact (Option.some.inj hset).symm
  subst hsame
  refine .inr ⟨d, rfl, (hkeyed.orders _ _ hstored).symm, hstate, ?_, hprocessing, hundispatched, ?_⟩
  · rw [← hsigner]
    exact ⟨account, haccount, hvalid⟩
  · -- The store has checked copies whose revisions it found; they are the stored authorizations.
    intro aid haid
    rw [← hlist, ← hids] at haid
    obtain ⟨a, ha, rfl⟩ := List.mem_map.mp haid
    obtain ⟨hstatus, hexpires, current, hcurrent, hcurrentRevision⟩ := hauthzs a ha
    cases hd.2 a ha current hcurrent hcurrentRevision
    exact ⟨a, hcurrent, hstatus, hexpires⟩

theorem finalize_order_step {stored f : Order} {der : Bytes} (hshaped : Shaped (orderRow stored))
    (hready : stored.status = .ready)
    (hfields : f = { stored with status := .processing, csr := der }) :
    OrderStep stored f.revised := by
  subst hfields
  have hcsr : stored.csr = [] := (hshaped.unfinalized (.inr hready)).1
  exact ⟨rfl, rfl, .inr (by rw [hready]; rfl), fun hset => absurd hcsr hset, fun _ => rfl⟩

theorem settlement_order_step {v : ValidationOutcome} {task : Task} {ch : Challenge}
    {a : Authorization} {o : Order} (h : Settlement st v task ch a o) :
    OrderStep o v.order.revised := by
  refine order_status_step o.error o.unpublishedResult ?_ h.fields
  have hderived := h.derived
  split at hderived
  · rename_i hpending
    rcases hderived.status_cases with hs | hs | hs <;>
      simp [hs, hpending, OrderStatus.canTransition]
  · exact .inl hderived

theorem concludes_order_step {o o' : Order} {cert : Option Certificate}
    (hprocessing : o.status = .processing) (h : Concludes o o' cert) : OrderStep o o'.revised := by
  cases cert with
  | none =>
      obtain ⟨error, result, hfields⟩ := h
      exact order_status_step error result (.inr (by rw [hprocessing]; rfl)) hfields
  | some cert =>
      obtain ⟨_, _, _, _, hfields⟩ := h
      subst hfields
      exact ⟨rfl, rfl, .inr (by rw [hprocessing]; rfl), fun _ => rfl, fun _ => rfl⟩

theorem concludes_issuance {o o' : Order} {cert : Option Certificate} (h : Concludes o o' cert) :
    o'.revised.issuance = o.issuance := by
  cases cert with
  | none =>
      obtain ⟨_, _, hfields⟩ := h
      rw [hfields]
      rfl
  | some cert =>
      obtain ⟨_, _, _, _, hfields⟩ := h
      rw [hfields]
      rfl

theorem deactivation_step {a stored : Authorization}
    (hfields : a = { stored with status := .deactivated })
    (hstatus : stored.status = .pending ∨ stored.status = .valid) :
    AuthorizationStep stored a.revised := by
  subst hfields
  refine ⟨rfl, rfl, .inr ?_, by simp⟩
  rcases hstatus with hstatus | hstatus <;> rw [hstatus] <;> rfl

theorem decision_step {a a' : Authorization} {status : ChallengeStatus}
    (h : Decision a a' status) : AuthorizationStep a a'.revised := by
  cases h with
  | kept => exact ⟨rfl, rfl, .inl rfl, fun _ => rfl⟩
  | validated _ hpending hvalid hterms hrevision =>
      exact ⟨by simp [hrevision], hterms, .inr (by simp [hpending, hvalid]; rfl), by simp [hvalid]⟩
  | refused hpending => exact ⟨rfl, rfl, .inr (by simp [hpending]; rfl), by simp⟩

theorem decision_settles {a a' : Authorization} {status : ChallengeStatus}
    (h : Decision a a' status) : ChallengeStatus.canTransition .processing status = true := by
  cases h <;> rfl

/-! ## Whole calls -/

/-- A call that stores no authorization cannot change those of an order. -/
theorem frozen_of_authzs_eq (hsame : st'.authzs = st.authzs) : Frozen st st' := by
  intro id o o' _ _ _ _ aid _
  rw [hsame]

/-- A call that stores an authorization of an order and moves the revision of the order unless it
was dispatched or settled. -/
theorem frozen_of_order_moved (hlinked : Linked (lifecycle st)) {a b : Authorization}
    (ha : st.authzs.lookup b.id = some a) (hauthzs : st'.authzs = st.authzs.insert b.id b)
    (hmoved : ∀ o o', st.orders.lookup a.orderID = some o → (orderRow o).Open →
      st'.orders.lookup a.orderID = some o' → o'.revision ≠ o.revision) : Frozen st st' := by
  intro id o o' ho hopen ho' hrevision aid hmem
  rw [hauthzs]
  by_cases haid : aid = b.id
  · -- The stored authorization is one of this order, so the order has moved.
    obtain ⟨row, hrow, horder⟩ := hlinked.order_authorization (rows_of_lookup ho) hmem
    rw [haid, lifecycle_authorizations, rows_of_lookup ha] at hrow
    cases hrow
    cases show a.orderID = id from horder
    exact absurd hrevision (hmoved o o' ho hopen ho')
  · exact Finmap.lookup_insert_of_ne _ haid

theorem invalidated_moved {o : Order} (hopen : (orderRow o).Open) :
    o.invalidated.revision = o.revision + 1 := by
  unfold Order.invalidated
  split
  · rfl
  · exact absurd hopen ‹_›

theorem update_authorization_advances {a stored : Authorization} (hlinked : Linked (lifecycle st))
    (ha : Deactivation st a) (hstored : st.authzs.lookup a.id = some stored)
    (hrevision : stored.revision = a.revision) :
    Advances st c ((st.putAuthorization a.revised).invalidateOrder a.revised) := by
  obtain ⟨hfields, hstatus⟩ := ha stored hstored hrevision
  obtain ⟨o, ho, _⟩ := authorization_order_stored hlinked hstored
  have hterminal : a.revised.status.terminal = true := by
    rw [hfields]
    rfl
  have horder : stored.orderID = a.orderID := by rw [hfields]
  rw [horder] at ho
  have hput : (st.putAuthorization a.revised).orders.lookup a.revised.orderID = some o := ho
  rw [invalidate_order_of_terminal hterminal hput]
  refine ⟨.refl _, Table.evolves_insert ho (order_invalidated_change o),
    Table.evolves_insert hstored (.inr (deactivation_step hfields hstatus)), .refl _, .refl _,
    frozen_of_order_moved (b := a.revised) hlinked hstored rfl ?_⟩
  intro o₁ o₂ ho₁ hopen ho₂
  rw [horder] at ho₁ ho₂
  rw [ho] at ho₁
  cases ho₁
  rw [Table.eq_of_lookup_insert (t := st.orders) ho₂, invalidated_moved hopen]
  omega

theorem complete_validation_advances {v : ValidationOutcome} {task : Task} {ch : Challenge}
    {a : Authorization} {o : Order} (hlinked : Linked (lifecycle st))
    (h : Settlement st v task ch a o)
    (hchallenge : st.challenges.lookup v.challenge.id = some ch)
    (hrevision : ch.revision = v.challenge.revision)
    (hauthz : st.authzs.lookup v.authz.id = some a)
    (horder : st.orders.lookup v.order.id = some o) :
    Advances st c ((((st.putChallenge v.challenge.revised).putAuthorization
      v.authz.revised).putOrder v.order.revised).removeTask v.task.id) := by
  have hissuance : v.order.revised.issuance = o.issuance := by
    rw [h.fields]
    rfl
  have hchallengeStep : ChallengeStep ch v.challenge.revised :=
    ⟨by simp [hrevision], h.challenge, .inr (h.processing ▸ decision_settles h.decision),
      fun hterminal => by simp [h.processing, ChallengeStatus.terminal] at hterminal⟩
  refine ⟨.refl _, Table.evolves_insert horder (.inr ((settlement_order_step h).change hissuance)),
    Table.evolves_insert hauthz (.inr (decision_step h.decision)),
    Table.evolves_insert hchallenge (.inr hchallengeStep), .refl _,
    frozen_of_order_moved (b := v.authz.revised) hlinked hauthz rfl ?_⟩
  intro o₁ o₂ ho₁ _ ho₂
  rw [← h.order] at ho₁ ho₂
  rw [horder] at ho₁
  cases ho₁
  rw [Table.eq_of_lookup_insert (t := st.orders) ho₂, (settlement_order_step h).revision]
  omega

theorem create_order_advances {n : NewOrder} {base : Store} (hlinked : Linked (lifecycle st))
    (horder : st.orders.lookup n.order.id = none)
    (hauthzs : ∀ a ∈ n.authzs, st.authzs.lookup a.id = none ∧ a.id ≠ "")
    (hchallenges : ∀ c ∈ n.challenges, st.challenges.lookup c.id = none ∧ c.id ≠ "")
    (hbase : Replaced st n.order base) : Advances st c (base.addResources n.initial) := by
  have hcertificates : Table.Evolves CertificateStep st.certificates base.certificates := by
    cases hbase with
    | nothing => exact .refl _
    | claimed id cert _ _ hcert _ =>
        exact Table.evolves_insert hcert (.inr ⟨rfl, rfl, fun _ hr => hr⟩)
  obtain ⟨certificates, rfl⟩ := hbase.frame
  obtain ⟨_, _, heq⟩ := add_resources_eq { st with certificates := certificates } n.initial
  have hnewAuthzs : ∀ a ∈ n.initial.authzs, st.authzs.lookup a.id = none := by
    intro a ha
    obtain ⟨given, hgiven, rfl⟩ := List.mem_map.mp ha
    exact (hauthzs given hgiven).1
  have hnewChallenges : ∀ c ∈ n.initial.challenges, st.challenges.lookup c.id = none := by
    intro c hc
    obtain ⟨given, hgiven, rfl⟩ := List.mem_map.mp hc
    exact (hchallenges given hgiven).1
  rw [heq]
  refine ⟨.refl _, Table.evolves_insert_new horder _, Table.evolves_insert_all_new hnewAuthzs,
    Table.evolves_insert_all_new hnewChallenges, hcertificates, ?_⟩
  intro id o o' ho _ _ _ aid hmem
  obtain ⟨row, hrow, _⟩ := hlinked.order_authorization (rows_of_lookup ho) hmem
  obtain ⟨a, ha, _⟩ := rows_eq_some.mp hrow
  refine Table.lookup_insert_all_of_not_mem fun hnew => ?_
  obtain ⟨b, hb, rfl⟩ := List.mem_map.mp hnew
  rw [hnewAuthzs b hb] at ha
  cases ha

/-- A permitted call that commits changes records by their steps only. -/
theorem commit_advances {s : Server} {w : World} {thread : Nat} (hkeyed : Keyed w.store)
    (hcoherent : Coherent (lifecycle w.store)) (hpermitted : Permitted s w thread (.store c))
    (h : Commit w.store c st') : Advances w.store c st' := by
  cases h with
  | createAccount a _ hnew _ _ _ hst =>
      subst hst
      exact ⟨Table.evolves_insert_new hnew _, .refl _, .refl _, .refl _, .refl _,
        frozen_of_authzs_eq rfl⟩
  | updateAccount a stored hstored hrevision _ _ _ hst =>
      subst hst
      obtain ⟨hvalid, hstatus⟩ := hpermitted stored hstored hrevision
      have hstep : AccountStep stored a.revised := by
        refine ⟨by simp [hrevision], (hkeyed.accounts _ _ hstored).symm, ?_⟩
        rcases hstatus with hstatus | hstatus <;>
          simp [hvalid, hstatus, AccountStatus.canTransition]
      exact ⟨Table.evolves_insert hstored (.inr hstep), .refl _, .refl _, .refl _, .refl _,
        frozen_of_authzs_eq rfl⟩
  | createOrder n _ horder hauthzs hchallenges base hbase =>
      exact create_order_advances hcoherent.linked horder hauthzs hchallenges hbase
  | updateAuthorization a stored hstored hrevision =>
      exact update_authorization_advances hcoherent.linked hpermitted hstored hrevision
  | beginIssuance d task stored account state _ _ hstored hrevision haccount _ hvalid hstate
      hprocessing hundispatched hids hauthzs =>
      have hchange := begin_issuance_change hkeyed hpermitted.1 hstored hrevision haccount hvalid
        hstate hprocessing hundispatched hids hauthzs
      exact ⟨.refl _, Table.evolves_insert hstored (.inr hchange), .refl _, .refl _, .refl _,
        frozen_of_authzs_eq rfl⟩
  | updateCertificate cert stored hstored hrevision =>
      obtain ⟨hlive, hterms, _⟩ := hpermitted stored hstored hrevision
      have hstep : CertificateStep stored cert.revised :=
        ⟨by simp [hrevision], hterms, fun r hr => by simp [revocation, hlive] at hr⟩
      exact ⟨.refl _, .refl _, .refl _, .refl _, Table.evolves_insert hstored (.inr hstep),
        frozen_of_authzs_eq rfl⟩
  | acceptChallenge r stored hstored hrevision _ _ =>
      obtain ⟨hpending, hprocessing, hterms⟩ := hpermitted.stored stored hstored hrevision
      have hstep : ChallengeStep stored r.challenge.revised :=
        ⟨by simp [hrevision], hterms, .inr (by simp [hpending, hprocessing]; rfl),
          fun hterminal => by simp [hpending, ChallengeStatus.terminal] at hterminal⟩
      exact ⟨.refl _, .refl _, .refl _, Table.evolves_insert hstored (.inr hstep), .refl _,
        frozen_of_authzs_eq rfl⟩
  | finalizeOrder f stored hstored hrevision _ _ =>
      obtain ⟨hready, der, _, hfields⟩ := hpermitted.stored stored hstored hrevision
      have hstep := finalize_order_step (hcoherent.shaped (rows_of_lookup hstored)) hready hfields
      have hissuance : f.order.revised.issuance = stored.issuance := by
        rw [hfields]
        rfl
      exact ⟨.refl _, Table.evolves_insert hstored (.inr (hstep.change hissuance)), .refl _,
        .refl _, .refl _, frozen_of_authzs_eq rfl⟩
  | claimTask | rescheduleTask | finishTask | read =>
      exact ⟨.refl _, .refl _, .refl _, .refl _, .refl _, frozen_of_authzs_eq rfl⟩
  | retryValidation r stored challenge _ _ hchallenge hrevision =>
      obtain ⟨error, hfields⟩ := hpermitted challenge hchallenge hrevision
      have hstep : ChallengeStep challenge r.challenge.revised := by
        rw [hfields]
        exact ⟨rfl, rfl, .inl rfl, fun _ => rfl⟩
      exact ⟨.refl _, .refl _, .refl _, Table.evolves_insert hchallenge (.inr hstep), .refl _,
        frozen_of_authzs_eq rfl⟩
  | completeValidation v stored challenge authz order hstored hfence hchallenge hc hauthz ha horder
      ho =>
      have hsettlement := hpermitted stored hstored hfence challenge hchallenge hc authz hauthz ha
        order horder ho
      exact complete_validation_advances hcoherent.linked hsettlement hchallenge hc hauthz horder
  | completeIssuance i stored order hstored hfence horder hrevision base hbase =>
      obtain ⟨_, _, hprocessing, hconcludes⟩ :=
        hpermitted stored hstored hfence order horder hrevision
      have hchange : OrderChange w.store (.completeIssuance i) order i.order.revised :=
        (concludes_order_step hprocessing hconcludes).change (concludes_issuance hconcludes)
      have hcertificates : Table.Evolves CertificateStep w.store.certificates
          base.certificates := by
        generalize i.cert = cert at hbase
        cases hbase with
        | nothing => exact .refl _
        | added cert _ hnew _ => exact Table.evolves_insert_new hnew _
      obtain ⟨certificates, certByRenewal, rfl⟩ := hbase.frame
      exact ⟨.refl _, Table.evolves_insert horder (.inr hchange), .refl _, .refl _, hcertificates,
        frozen_of_authzs_eq rfl⟩

/-! ## Two stores -/

/-- The account of the order is valid and none of its authorizations is lost. -/
structure Approved (st : Store) (o : Order) : Prop where
  account : ∀ account, st.accounts.lookup o.accountID = some account → account.status = .valid
  authorizations : ∀ aid ∈ o.authorizationIDs, ∀ a, st.authzs.lookup aid = some a →
    a.status.terminal = false

/-- An order that gets its issuance state was approved before. -/
def Approves (st st' : Store) : Prop :=
  ∀ id o o', st.orders.lookup id = some o → o.issuance = none → st'.orders.lookup id = some o' →
    o'.issuance ≠ none → Approved st o

/-- How a store and the store after one call are related, whatever the call was. -/
structure Evolution (st st' : Store) : Prop where
  accounts : Table.Evolves AccountStep st.accounts st'.accounts
  orders : Table.Evolves OrderStep st.orders st'.orders
  authzs : Table.Evolves AuthorizationStep st.authzs st'.authzs
  challenges : Table.Evolves ChallengeStep st.challenges st'.challenges
  certificates : Table.Evolves CertificateStep st.certificates st'.certificates
  frozen : Frozen st st'
  approves : Approves st st'

theorem Dispatchable.approved {o : Order} {state : IssuanceState} (h : Dispatchable st o state) :
    Approved st o where
  account account haccount := by
    obtain ⟨found, hfound, hvalid⟩ := h.account
    rw [haccount] at hfound
    cases hfound
    exact hvalid
  authorizations aid haid a ha := by
    obtain ⟨found, hfound, hvalid, _⟩ := h.authorizations aid haid
    rw [ha] at hfound
    cases hfound
    rw [hvalid]
    rfl

theorem Advances.evolution (h : Advances st c st') : Evolution st st' where
  accounts := h.accounts
  orders := h.orders.mono fun _ _ hchange => hchange.toOrderStep
  authzs := h.authzs
  challenges := h.challenges
  certificates := h.certificates
  frozen := h.frozen
  approves := by
    intro id o o' ho hnone ho' hsome
    obtain ⟨found, hfound, hchange⟩ := h.orders id o ho
    rw [ho'] at hfound
    cases hfound
    obtain ⟨state, hstate⟩ := Option.ne_none_iff_exists'.mp hsome
    rcases hchange with rfl | hchange
    · exact absurd hnone hsome
    · rcases hchange.dispatch state hstate with hold | ⟨_, _, _, _, hdispatchable⟩
      · rw [hnone] at hold
        cases hold
      · exact hdispatchable.approved

theorem Evolution.refl (st : Store) : Evolution st st :=
  (Advances.refl st (.account "")).evolution

end AcmeServer.Protocol
