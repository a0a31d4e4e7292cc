import AcmeServer.Lifecycle.Coherence
import AcmeServer.Memstore.Outcome
import AcmeServer.Protocol.Contract

/-!
# The store refines the life cycle

A permitted call that commits is a transition of the life cycle or does not show there
(`commit_refines`). So the store keeps the invariant of the life cycle (`commit_coherent`).
-/

namespace AcmeServer.Protocol

open Memstore Lifecycle

variable {st st' : Store} {c : StoreCall}

/-! ## Tables and rows -/

section Rows

variable {V R : Type} {row : V → R} {t : Table V} {id : String} {v : V}

theorem rows_eq_some {r : R} : rows row t id = some r ↔ ∃ v, t.lookup id = some v ∧ row v = r :=
  Option.map_eq_some_iff

theorem rows_of_lookup (h : t.lookup id = some v) : rows row t id = some (row v) := by
  rw [rows, h, Option.map_some]

theorem rows_of_none (h : t.lookup id = none) : rows row t id = none := by
  rw [rows, h, Option.map_none]

/-- Storing an entry updates its row. -/
theorem rows_insert {r : R} (hrow : row v = r) :
    rows row (t.insert id v) = Function.update (rows row t) id (some r) := by
  funext k
  by_cases hk : k = id
  · subst hk
    rw [Function.update_self, rows_of_lookup (Finmap.lookup_insert t), hrow]
  · rw [Function.update_of_ne hk, rows, rows, Finmap.lookup_insert_of_ne t hk]

/-- Storing an entry with the row that is there already changes no row. -/
theorem rows_insert_same {v' : V} (h : t.lookup id = some v) (hrow : row v' = row v) :
    rows row (t.insert id v') = rows row t := by
  rw [rows_insert hrow, ← rows_of_lookup h, Function.update_eq_self]

/-- Removing an entry removes its row. -/
theorem rows_erase :
    rows row (t.erase id) = Function.update (rows row t) id none := by
  funext k
  by_cases hk : k = id
  · subst hk
    rw [Function.update_self, rows_of_none (Finmap.lookup_erase k t)]
  · rw [Function.update_of_ne hk, rows, rows, Finmap.lookup_erase_ne hk]

end Rows

/-- An account that exists goes on existing when it is replaced. -/
theorem accounts_insert_same {t : Table Account} {id : String} {a : Account}
    (h : t.lookup id = some a) (a' : Account) :
    (fun i => ∃ b, (t.insert id a').lookup i = some b) = fun i => ∃ b, t.lookup i = some b := by
  funext i
  by_cases hi : i = id
  · subst hi
    simp [Finmap.lookup_insert, h]
  · rw [Finmap.lookup_insert_of_ne t hi]

/-- A new account exists besides the others. -/
theorem accounts_insert (t : Table Account) (id : String) (a : Account) :
    (fun i => ∃ b, (t.insert id a).lookup i = some b) =
      fun i => i = id ∨ ∃ b, t.lookup i = some b := by
  funext i
  by_cases hi : i = id
  · subst hi
    simp [Finmap.lookup_insert]
  · simp [Finmap.lookup_insert_of_ne t hi, hi]

/-! ## IDs -/

/-- A task among the values of the task map is found under its ID. -/
theorem lookup_of_mem_values (hkeyed : Table.Keyed Task.id st.tasks) {t : Task}
    (h : t ∈ st.taskValues) : st.tasks.lookup t.id = some t := by
  obtain ⟨⟨id, t'⟩, hmem, rfl⟩ := Multiset.mem_map.mp h
  have hlookup : st.tasks.lookup id = some t' := Finmap.mem_lookup_iff.mpr hmem
  rwa [show t'.id = id from hkeyed id t' hlookup]

/-- Every commit stores records under their IDs. -/
theorem commit_keyed (h : Commit st c st') (hkeyed : Keyed st) : Keyed st' := by
  obtain ⟨haccounts, horders, hauthzs, hchallenges, hcertificates, htasks⟩ := hkeyed
  cases h with
  | createAccount a _ _ _ _ _ hst =>
      subst hst
      exact ⟨haccounts.insert rfl, horders, hauthzs, hchallenges, hcertificates, htasks⟩
  | updateAccount a stored _ _ _ _ _ hst =>
      subst hst
      exact ⟨haccounts.insert rfl, horders, hauthzs, hchallenges, hcertificates, htasks⟩
  | createOrder n _ _ _ _ base hbase =>
      obtain ⟨_, _, heq⟩ := add_resources_eq base n.initial
      rw [heq]
      cases hbase with
      | nothing =>
          exact ⟨haccounts, horders.insert rfl, hauthzs.insert_all _, hchallenges.insert_all _,
            hcertificates, htasks⟩
      | claimed id cert _ _ hcert _ =>
          exact ⟨haccounts, horders.insert rfl, hauthzs.insert_all _, hchallenges.insert_all _,
            hcertificates.insert (by exact hcertificates id cert hcert), htasks⟩
  | updateAuthorization a stored hstored hrevision =>
      unfold Store.invalidateOrder
      split
      · split
        · rename_i order horder
          have hid : order.invalidated.id = a.revised.orderID := by
            have hid : order.id = a.revised.orderID := horders _ _ horder
            unfold Order.invalidated
            split <;> exact hid
          exact ⟨haccounts, horders.insert hid, hauthzs.insert rfl, hchallenges, hcertificates,
            htasks⟩
        · exact ⟨haccounts, horders, hauthzs.insert rfl, hchallenges, hcertificates, htasks⟩
      · exact ⟨haccounts, horders, hauthzs.insert rfl, hchallenges, hcertificates, htasks⟩
  | beginIssuance d =>
      exact ⟨haccounts, horders.insert rfl, hauthzs, hchallenges, hcertificates, htasks⟩
  | updateCertificate =>
      exact ⟨haccounts, horders, hauthzs, hchallenges, hcertificates.insert rfl, htasks⟩
  | acceptChallenge =>
      exact ⟨haccounts, horders, hauthzs, hchallenges.insert rfl, hcertificates,
        htasks.insert rfl⟩
  | finalizeOrder =>
      exact ⟨haccounts, horders.insert rfl, hauthzs, hchallenges, hcertificates,
        htasks.insert rfl⟩
  | claimTask =>
      exact ⟨haccounts, horders, hauthzs, hchallenges, hcertificates, htasks.insert (by rfl)⟩
  | rescheduleTask t stored hstored =>
      exact ⟨haccounts, horders, hauthzs, hchallenges, hcertificates,
        htasks.insert (by exact htasks _ stored hstored)⟩
  | retryValidation r stored challenge hstored =>
      exact ⟨haccounts, horders, hauthzs, hchallenges.insert rfl, hcertificates,
        htasks.insert (by exact htasks _ stored hstored)⟩
  | finishTask t =>
      exact ⟨haccounts, horders, hauthzs, hchallenges, hcertificates, htasks.erase t.id⟩
  | completeValidation v =>
      exact ⟨haccounts, horders.insert rfl, hauthzs.insert rfl, hchallenges.insert rfl,
        hcertificates, htasks.erase v.task.id⟩
  | completeIssuance i stored order _ _ _ _ base hbase =>
      generalize i.cert = cert at hbase
      cases hbase with
      | nothing =>
          exact ⟨haccounts, horders.insert rfl, hauthzs, hchallenges, hcertificates,
            htasks.erase i.task.id⟩
      | added =>
          exact ⟨haccounts, horders.insert rfl, hauthzs, hchallenges, hcertificates.insert rfl,
            htasks.erase i.task.id⟩
  | read => exact ⟨haccounts, horders, hauthzs, hchallenges, hcertificates, htasks⟩

/-! ## Calls as transitions -/

/-- A table in which new entries were added over unused IDs, row by row. -/
theorem rows_insert_all {V R : Type} {row : V → R} {t : Table V} {key : V → String}
    {values : List V} {id : String} {r : R}
    (h : rows row (Table.insertAll key t values) id = some r) :
    rows row t id = some r ∨ ∃ v ∈ values, key v = id ∧ row v = r := by
  obtain ⟨v, hv, rfl⟩ := rows_eq_some.mp h
  rcases Table.lookup_insert_all hv with ⟨hmem, hkey⟩ | ⟨_, hold⟩
  · exact .inr ⟨v, hmem, hkey, rfl⟩
  · exact .inl (rows_of_lookup hold)

/-- Rows under IDs other than those of the new entries stay. -/
theorem rows_insert_all_old {V R : Type} {row : V → R} {t : Table V} {key : V → String}
    {values : List V} (hnew : ∀ v ∈ values, t.lookup (key v) = none) {id : String} {r : R}
    (h : rows row t id = some r) : rows row (Table.insertAll key t values) id = some r := by
  obtain ⟨v, hv, rfl⟩ := rows_eq_some.mp h
  refine rows_of_lookup ?_
  rw [Table.lookup_insert_all_of_not_mem, hv]
  intro hmem
  obtain ⟨u, hu, rfl⟩ := List.mem_map.mp hmem
  rw [hnew u hu] at hv
  cases hv

/-- The status of a new order is implied by its authorizations. -/
theorem creation_implied {n : NewOrder} (hn : OrderCreation st n) {t : Table Authorization} :
    Implies (rows authorizationRow (Table.insertAll Authorization.id t n.initial.authzs))
      (orderRow n.initial.order) n.order.status := by
  have hmem : ∀ aid ∈ n.order.authorizationIDs, ∀ row,
      rows authorizationRow (Table.insertAll Authorization.id t n.initial.authzs) aid = some row →
      ∃ a ∈ n.authzs, row.status = a.status := by
    intro aid haid row hrow
    obtain ⟨v, hv, rfl⟩ := rows_eq_some.mp hrow
    rcases Table.lookup_insert_all hv with ⟨hv, _⟩ | ⟨hother, _⟩
    · obtain ⟨a, ha, rfl⟩ := List.mem_map.mp hv
      exact ⟨a, ha, rfl⟩
    · rw [hn.listed] at haid
      exact absurd (by simpa [NewOrder.initial, Function.comp_def] using haid) hother
  rcases hn.status with ⟨hstatus, a, ha, hpending⟩ | ⟨hstatus, hvalid⟩
  · rw [hstatus]
    refine ⟨fun aid haid row hrow => ?_, a.id, ?_, authorizationRow { a with revision := 1 }, ?_,
      hpending⟩
    · obtain ⟨b, hb, hrowstatus⟩ := hmem aid haid row hrow
      rw [hrowstatus]
      rcases (hn.authorizations b hb).2.1 with hb | hb <;> rw [hb] <;> rfl
    · show a.id ∈ n.order.authorizationIDs
      rw [hn.listed]
      exact List.mem_map_of_mem ha
    · -- The IDs are distinct, so the pending authorization is found under its own.
      refine rows_of_lookup (Table.lookup_insert_all_of_mem
        (v := { a with revision := 1 }) ?_ (List.mem_map.mpr ⟨a, ha, rfl⟩))
      simpa [NewOrder.initial, Function.comp_def] using hn.distinct
  · rw [hstatus]
    intro aid haid row hrow
    obtain ⟨b, hb, hrowstatus⟩ := hmem aid haid row hrow
    rw [hrowstatus]
    exact hvalid b hb

/-- A replacement claim does not show in the life cycle. -/
theorem replaced_lifecycle {o : Order} (h : Replaced st o st') : lifecycle st' = lifecycle st := by
  cases h with
  | nothing => rfl
  | claimed id cert _ _ hcert _ =>
      exact State.ext rfl rfl rfl rfl rfl (rows_insert_same hcert rfl)

theorem create_order_refines {n : NewOrder} {base : Store} (hn : OrderCreation st n)
    (horder : st.orders.lookup n.order.id = none)
    (hauthzs : ∀ a ∈ n.authzs, st.authzs.lookup a.id = none ∧ a.id ≠ "")
    (hchallenges : ∀ c ∈ n.challenges, st.challenges.lookup c.id = none ∧ c.id ≠ "")
    (hbase : Replaced st n.order base) :
    Step (lifecycle st) (lifecycle (base.addResources n.initial)) := by
  have hlife := congrArg State.certificates (replaced_lifecycle hbase)
  obtain ⟨certificates, rfl⟩ := hbase.frame
  obtain ⟨_, _, heq⟩ := add_resources_eq { st with certificates := certificates } n.initial
  rw [heq]
  refine Step.createOrder n.order.id (orderRow n.initial.order) _ (rows_of_none horder) hn.account
    hn.csr hn.issuance hn.certificate (rows_insert rfl) ?_ ?_ ?_ (creation_implied hn) ?_ ?_ ?_
    rfl rfl hlife
  · intro aid row hrow
    refine rows_insert_all_old (fun a ha => ?_) hrow
    obtain ⟨given, hgiven, rfl⟩ := List.mem_map.mp ha
    exact (hauthzs given hgiven).1
  · intro aid row hrow
    rcases rows_insert_all hrow with hold | ⟨a, ha, rfl, rfl⟩
    · exact .inl hold
    · obtain ⟨given, hgiven, rfl⟩ := List.mem_map.mp ha
      obtain ⟨hid, _, hlisted⟩ := hn.authorizations given hgiven
      refine .inr ⟨?_, hid, fun cid hcid => ?_⟩
      · show given.id ∈ n.order.authorizationIDs
        rw [hn.listed]
        exact List.mem_map_of_mem hgiven
      · obtain ⟨ch, hch, rfl⟩ := hlisted cid hcid
        have hmem : ch.id ∈ n.initial.challenges.map Challenge.id :=
          List.mem_map.mpr ⟨_, List.mem_map.mpr ⟨ch, hch, rfl⟩, rfl⟩
        obtain ⟨_, _, hlookup⟩ := Table.lookup_insert_all_of_mem_map (t := st.challenges) hmem
        exact ⟨_, rows_of_lookup hlookup⟩
  · intro aid haid
    have hmem : aid ∈ n.initial.authzs.map Authorization.id := by
      have haid : aid ∈ n.order.authorizationIDs := haid
      rw [hn.listed] at haid
      simpa [NewOrder.initial, Function.comp_def] using haid
    obtain ⟨a, ha, hlookup⟩ := Table.lookup_insert_all_of_mem_map (t := st.authzs) hmem
    refine ⟨_, rows_of_lookup hlookup, ?_⟩
    obtain ⟨given, hgiven, rfl⟩ := List.mem_map.mp ha
    exact (hn.authorizations given hgiven).1
  · show n.order.status ≠ .invalid
    rcases hn.status with ⟨hstatus, _⟩ | ⟨hstatus, _⟩ <;> simp [hstatus]
  · intro cid row hrow
    refine rows_insert_all_old (fun ch hch => ?_) hrow
    obtain ⟨given, hgiven, rfl⟩ := List.mem_map.mp hch
    exact (hchallenges given hgiven).1
  · intro cid row hrow
    rcases rows_insert_all hrow with hold | ⟨ch, hch, _, rfl⟩
    · exact .inl hold
    · obtain ⟨given, hgiven, rfl⟩ := List.mem_map.mp hch
      obtain ⟨hpending, haccount, hauthorization⟩ := hn.challenges given hgiven
      exact .inr ⟨hpending, hauthorization, haccount⟩

/-- An order that has not been dispatched becomes invalid with its authorization. -/
theorem invalidated_row_open {o : Order} (h : (orderRow o).Open) :
    orderRow o.invalidated = { orderRow o with status := .invalid } := by
  unfold Order.invalidated
  split
  · rfl
  · exact absurd h ‹_›

/-- Any other order is left alone. -/
theorem invalidated_row_closed {o : Order} (h : ¬ (orderRow o).Open) : o.invalidated = o := by
  unfold Order.invalidated
  split
  · exact absurd ‹_› h
  · rfl

/-- The order of a stored authorization is stored. -/
theorem authorization_order_stored (hlinked : Linked (lifecycle st)) {id : String}
    {a : Authorization} (h : st.authzs.lookup id = some a) :
    ∃ o, st.orders.lookup a.orderID = some o ∧ id ∈ o.authorizationIDs := by
  obtain ⟨_, horder, hmem⟩ := hlinked.authorization_order (rows_of_lookup h)
  obtain ⟨o, ho, rfl⟩ := rows_eq_some.mp horder
  exact ⟨o, ho, hmem⟩

/-- A terminal authorization takes its order along. -/
theorem invalidate_order_of_terminal {a : Authorization} {o : Order}
    (hterminal : a.status.terminal = true) (ho : st.orders.lookup a.orderID = some o) :
    st.invalidateOrder a = { st with orders := st.orders.insert a.orderID o.invalidated } := by
  unfold Store.invalidateOrder
  rw [if_pos hterminal, ho]

theorem update_authorization_refines {a stored : Authorization} (hlinked : Linked (lifecycle st))
    (ha : Deactivation st a) (hstored : st.authzs.lookup a.id = some stored)
    (hrevision : stored.revision = a.revision) :
    Step (lifecycle st)
      (lifecycle ((st.putAuthorization a.revised).invalidateOrder a.revised)) := by
  obtain ⟨hfields, _⟩ := ha stored hstored hrevision
  obtain ⟨o, ho, _⟩ := authorization_order_stored hlinked hstored
  have hterminal : a.revised.status.terminal = true := by
    rw [hfields]
    rfl
  have horder : a.orderID = stored.orderID := by rw [hfields]
  have hrow : authorizationRow a.revised =
      { authorizationRow stored with status := .deactivated } := by
    rw [hfields]
    rfl
  rw [← horder] at ho
  have hput : (st.putAuthorization a.revised).orders.lookup a.revised.orderID = some o := ho
  rw [invalidate_order_of_terminal hterminal hput]
  rw [horder] at ho
  refine (Step.deactivate a.id (authorizationRow stored) (orderRow o) (orderRow o.invalidated)
    (rows_of_lookup hstored) (rows_of_lookup ho) invalidated_row_open ?_).of_eq
    (State.ext rfl ((rows_insert rfl).trans (by rw [Authorization.revised_orderID, horder]; rfl))
      (rows_insert hrow) rfl rfl rfl)
  intro hclosed
  rw [invalidated_row_closed hclosed]

theorem begin_issuance_refines {d : Dispatch} {stored : Order} (hd : DispatchDecision st d)
    (hstored : st.orders.lookup d.order.id = some stored)
    (hrevision : stored.revision = d.order.revision) (hprocessing : stored.status = .processing)
    (hundispatched : stored.issuance = none) :
    Step (lifecycle st) (lifecycle (st.putOrder d.order.revised)) := by
  obtain ⟨_, state, hfields, _⟩ := hd.1 stored hstored hrevision
  have hrow : orderRow d.order.revised = { orderRow stored with issuance := some state } := by
    rw [hfields]
    rfl
  exact (Step.dispatch d.order.id (orderRow stored) state (rows_of_lookup hstored) hprocessing
    hundispatched).of_eq (State.ext rfl (rows_insert hrow) rfl rfl rfl rfl)

theorem accept_challenge_refines {s : Server} {w : World} {thread : Nat} {r : Memstore.Response}
    {stored : Challenge} (hr : ChallengeResponse s w thread r)
    (hstored : w.store.challenges.lookup r.challenge.id = some stored)
    (hrevision : stored.revision = r.challenge.revision)
    (hnew : w.store.tasks.lookup r.task.id = none) :
    Step (lifecycle w.store)
      (lifecycle ((w.store.putChallenge r.challenge.revised).insertTask r.task.enqueued)) := by
  obtain ⟨hpending, hprocessing, hterms⟩ := hr.stored stored hstored hrevision
  have hrow : challengeRow r.challenge.revised =
      { challengeRow stored with status := .processing } := by
    have hauthorization := congrArg Challenge.authorizationID hterms
    have haccount := congrArg Challenge.accountID hterms
    simp_all [challengeRow, challengeTerms]
  have htask : taskRow r.task.enqueued = ⟨.validate, r.challenge.id⟩ := by
    simp [taskRow, hr.kind, hr.target]
  exact (Step.accept r.challenge.id r.task.id (challengeRow stored) (rows_of_lookup hstored)
    hpending (rows_of_none hnew)).of_eq
    (State.ext rfl rfl rfl (rows_insert hrow) (rows_insert htask) rfl)

theorem finalize_order_refines {w : World} {thread : Nat} {f : Finalization} {stored : Order}
    (hf : FinalizationStep w thread f) (hstored : w.store.orders.lookup f.order.id = some stored)
    (hrevision : stored.revision = f.order.revision)
    (hnew : w.store.tasks.lookup f.task.id = none) :
    Step (lifecycle w.store)
      (lifecycle ((w.store.putOrder f.order.revised).insertTask f.task.enqueued)) := by
  obtain ⟨hready, der, hder, hfields⟩ := hf.stored stored hstored hrevision
  have hrow : orderRow f.order.revised =
      { orderRow stored with status := .processing, csr := der } := by
    rw [hfields]
    rfl
  have htask : taskRow f.task.enqueued = ⟨.issue, f.order.id⟩ := by
    simp [taskRow, hf.kind, hf.target]
  exact (Step.finalize f.order.id f.task.id (orderRow stored) der (rows_of_lookup hstored) hready
    hder (rows_of_none hnew)).of_eq
    (State.ext rfl (rows_insert hrow) rfl rfl (rows_insert htask) rfl)

theorem finish_task_refines {t stored : Task} (ht : TaskRemoval st t)
    (hstored : st.tasks.lookup t.id = some stored) (hfence : stored.fence = t.fence) :
    Step (lifecycle st) (lifecycle (st.removeTask t.id)) := by
  obtain ⟨hkind, o, ho, hinvalid⟩ := ht stored hstored hfence
  have htask : rows taskRow st.tasks t.id = some ⟨.issue, stored.targetID⟩ := by
    rw [rows_of_lookup hstored, taskRow, hkind]
  exact (Step.drop stored.targetID t.id (orderRow o) (rows_of_lookup ho) hinvalid htask).of_eq
    (State.ext rfl rfl rfl rfl rows_erase rfl)

/-- A decision on a record is a verdict on its row. -/
theorem decision_verdict {a a' : Authorization} {status : ChallengeStatus}
    (h : Decision a a' status) : Verdict (authorizationRow a) (authorizationRow a') status := by
  cases h with
  | kept => exact .kept
  | validated _ hpending hvalid hterms =>
      have hrow : authorizationRow a' = { authorizationRow a with status := .valid } := by
        have horder := congrArg Authorization.orderID hterms
        have hchallenges := congrArg Authorization.challengeIDs hterms
        simp_all [authorizationRow, authorizationTerms]
      rw [hrow]
      exact .validated hpending
  | refused hpending => exact .refused hpending

theorem complete_validation_refines {v : ValidationOutcome} {task : Task} {c : Challenge}
    {a : Authorization} {o : Order} (h : Settlement st v task c a o)
    (htask : st.tasks.lookup v.task.id = some task)
    (hchallenge : st.challenges.lookup v.challenge.id = some c)
    (hauthz : st.authzs.lookup v.authz.id = some a)
    (horder : st.orders.lookup v.order.id = some o) :
    Step (lifecycle st) (lifecycle ((((st.putChallenge v.challenge.revised).putAuthorization
      v.authz.revised).putOrder v.order.revised).removeTask v.task.id)) := by
  have hchallengeRow : challengeRow v.challenge.revised =
      { challengeRow c with status := v.challenge.status } := by
    have hauthorization := congrArg Challenge.authorizationID h.challenge
    have haccount := congrArg Challenge.accountID h.challenge
    simp_all [challengeRow, challengeTerms]
  have htaskRow : rows taskRow st.tasks v.task.id = some ⟨.validate, v.challenge.id⟩ := by
    rw [rows_of_lookup htask, taskRow, h.kind, h.target]
  have hrederived : Rederived (Function.update (rows authorizationRow st.authzs)
      c.authorizationID (some (authorizationRow v.authz))) (orderRow o) (orderRow v.order) := by
    have hderived := h.derived
    rw [rows_insert rfl, h.authorization] at hderived
    have hrow : orderRow v.order = { orderRow o with status := v.order.status } := by
      rw [h.fields]
      rfl
    unfold Rederived
    rw [orderRow_status]
    split at hderived
    · rename_i hpending
      rw [if_pos hpending]
      exact ⟨v.order.status, hrow, hderived⟩
    · rename_i hpending
      rw [if_neg hpending, hrow, hderived]
      rfl
  have hauthorization := h.authorization
  have horderID := h.order
  rw [hauthorization] at hauthz
  rw [horderID] at horder
  refine (Step.settle v.task.id v.challenge.id (challengeRow c) (authorizationRow a)
    (authorizationRow v.authz) (orderRow o) (orderRow v.order) v.challenge.status htaskRow
    (rows_of_lookup hchallenge) (rows_of_lookup hauthz) (rows_of_lookup horder)
    (decision_verdict h.decision) hrederived).of_eq
    (State.ext rfl ?_ ?_ (rows_insert hchallengeRow) rows_erase rfl)
  · exact (rows_insert rfl).trans (by rw [Order.revised_id, horderID]; rfl)
  · exact (rows_insert rfl).trans (by rw [Authorization.revised_id, hauthorization]; rfl)

theorem complete_issuance_refines {i : IssuanceOutcome} {task : Task} {o : Order} {base : Store}
    (hkind : task.kind = .issue) (htarget : task.targetID = i.order.id)
    (hprocessing : o.status = .processing) (hconcludes : Concludes o i.order i.cert)
    (hkeyed : o.id = i.order.id)
    (htask : st.tasks.lookup i.task.id = some task)
    (horder : st.orders.lookup i.order.id = some o) (hbase : Published st i.cert base) :
    Step (lifecycle st) (lifecycle ((base.putOrder i.order.revised).removeTask i.task.id)) := by
  have htaskRow : rows taskRow st.tasks i.task.id = some ⟨.issue, i.order.id⟩ := by
    rw [rows_of_lookup htask, taskRow, hkind, htarget]
  generalize i.cert = cert at hconcludes hbase
  cases hbase with
  | nothing =>
      obtain ⟨error, result, hfields⟩ := hconcludes
      have hrow : orderRow i.order.revised = { orderRow o with status := .invalid } := by
        rw [hfields]
        rfl
      exact (Step.fail i.order.id i.task.id (orderRow o) (rows_of_lookup horder) hprocessing
        htaskRow).of_eq (State.ext rfl (rows_insert hrow) rfl rfl rows_erase rfl)
  | added cert hid hnew hrenewal =>
      obtain ⟨hdispatched, hcert, _, _, hfields⟩ := hconcludes
      have hrow : orderRow i.order.revised =
          { orderRow o with status := .valid, certificate := cert.id } := by
        rw [hfields]
        rfl
      exact (Step.publish i.order.id i.task.id cert.id (orderRow o) (rows_of_lookup horder)
        hprocessing hdispatched htaskRow hid (rows_of_none hnew)).of_eq
        (State.ext rfl (rows_insert hrow) rfl rfl rows_erase (rows_insert (hcert.trans hkeyed)))

/-- A permitted call that commits is a transition of the life cycle or does not show there. -/
theorem commit_refines {s : Server} {w : World} {thread : Nat} (hkeyed : Keyed w.store)
    (hlinked : Linked (lifecycle w.store)) (hpermitted : Permitted s w thread (.store c))
    (h : Commit w.store c st') :
    lifecycle st' = lifecycle w.store ∨ Step (lifecycle w.store) (lifecycle st') := by
  cases h with
  | createAccount a _ _ _ _ _ hst =>
      subst hst
      exact .inr ((Step.register a.id).of_eq
        (State.ext (accounts_insert _ _ _) rfl rfl rfl rfl rfl))
  | updateAccount a stored hstored _ _ _ _ hst =>
      subst hst
      exact .inl (State.ext (accounts_insert_same hstored _) rfl rfl rfl rfl rfl)
  | createOrder n _ horder hauthzs hchallenges base hbase =>
      exact .inr (create_order_refines hpermitted.1 horder hauthzs hchallenges hbase)
  | updateAuthorization a stored hstored hrevision =>
      exact .inr (update_authorization_refines hlinked hpermitted hstored hrevision)
  | beginIssuance d task stored account state _ _ hstored hrevision _ _ _ _ hprocessing
      hundispatched =>
      exact .inr (begin_issuance_refines hpermitted.1 hstored hrevision hprocessing hundispatched)
  | updateCertificate c stored hstored hrevision =>
      obtain ⟨_, hterms, _⟩ := hpermitted stored hstored hrevision
      have horder := congrArg Certificate.orderID hterms
      exact .inl (State.ext rfl rfl rfl rfl rfl (rows_insert_same hstored horder))
  | acceptChallenge r stored hstored hrevision _ hnew =>
      exact .inr (accept_challenge_refines hpermitted hstored hrevision hnew)
  | finalizeOrder f stored hstored hrevision _ hnew =>
      exact .inr (finalize_order_refines hpermitted hstored hrevision hnew)
  | claimTask now leaseUntil t hstored _ =>
      exact .inl (State.ext rfl rfl rfl rfl
        (rows_insert_same (lookup_of_mem_values hkeyed.tasks hstored) rfl) rfl)
  | rescheduleTask t stored hstored _ =>
      exact .inl (State.ext rfl rfl rfl rfl (rows_insert_same hstored rfl) rfl)
  | retryValidation r stored challenge hstored _ hchallenge hrevision =>
      obtain ⟨error, hfields⟩ := hpermitted challenge hchallenge hrevision
      have hrow : challengeRow r.challenge.revised = challengeRow challenge := by
        rw [hfields]
        rfl
      exact .inl (State.ext rfl rfl rfl (rows_insert_same hchallenge hrow)
        (rows_insert_same hstored rfl) rfl)
  | finishTask t stored hstored hfence =>
      exact .inr (finish_task_refines hpermitted hstored hfence)
  | completeValidation v stored challenge authz order hstored hfence hchallenge hc hauthz ha horder
      ho =>
      have hsettlement := hpermitted stored hstored hfence challenge hchallenge hc authz hauthz ha
        order horder ho
      exact .inr (complete_validation_refines hsettlement hstored hchallenge hauthz horder)
  | completeIssuance i stored order hstored hfence horder hrevision base hbase =>
      obtain ⟨hkind, htarget, hprocessing, hconcludes⟩ :=
        hpermitted stored hstored hfence order horder hrevision
      exact .inr (complete_issuance_refines hkind htarget hprocessing hconcludes
        (hkeyed.orders _ _ horder) hstored horder hbase)
  | read => exact .inl rfl

/-- Permitted calls keep the invariant of the life cycle. -/
theorem commit_coherent {s : Server} {w : World} {thread : Nat} (hkeyed : Keyed w.store)
    (hcoherent : Coherent (lifecycle w.store)) (hpermitted : Permitted s w thread (.store c))
    (h : Commit w.store c st') : Coherent (lifecycle st') := by
  rcases commit_refines hkeyed hcoherent.linked hpermitted h with hsame | hstep
  · rw [hsame]
    exact hcoherent
  · exact hstep.coherent hcoherent

end AcmeServer.Protocol
