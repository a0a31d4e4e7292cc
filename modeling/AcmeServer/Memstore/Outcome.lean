import AcmeServer.Memstore.Atomicity
import AcmeServer.Table.Evolves

/-!
# What a successful call does

`Commit s c s'` lists, one constructor per method, the conditions under which a call succeeds and
the store it leaves. `commit_of_ok` derives it from the operations; no later proof unfolds them
again. The lemmas about reads and about the caller's records after a successful call are here as
well.
-/

namespace AcmeServer.Memstore

open Transaction

variable {A V : Type} {ctx : Option ContextError} {s : Store}

/-! ## The checks -/

@[simp] theorem check_revision_ok {stored : Option V} {revisionOf : V → Nat} {revision : Nat}
    {frame frame' : Frame A} {u : Unit} :
    exec (checkRevision stored revisionOf revision : Op A Unit) frame = (.ok u, frame') ↔
      (∃ current, stored = some current ∧ revisionOf current = revision) ∧ frame' = frame := by
  simp only [checkRevision, bind_ok, get_or_ok, fail_if_ok, not_not]
  constructor
  · rintro ⟨current, _, ⟨hstored, rfl⟩, hrevision, rfl⟩
    exact ⟨⟨current, hstored, hrevision⟩, rfl⟩
  · rintro ⟨⟨current, hstored, hrevision⟩, rfl⟩
    exact ⟨current, _, ⟨hstored, rfl⟩, hrevision, rfl⟩

@[simp] theorem check_order_ok {order : Order} {frame frame' : Frame A} {u : Unit} :
    exec (checkOrder order : Op A Unit) frame = (.ok u, frame') ↔
      (∃ stored, frame.store.orders.lookup order.id = some stored ∧
        stored.revision = order.revision) ∧ frame' = frame := by
  simp [checkOrder, bind_ok, and_comm]

@[simp] theorem check_authorization_ok {authz : Authorization} {frame frame' : Frame A} {u : Unit} :
    exec (checkAuthorization authz : Op A Unit) frame = (.ok u, frame') ↔
      (∃ stored, frame.store.authzs.lookup authz.id = some stored ∧
        stored.revision = authz.revision) ∧ frame' = frame := by
  simp [checkAuthorization, bind_ok, and_comm]

@[simp] theorem check_challenge_ok {challenge : Challenge} {frame frame' : Frame A} {u : Unit} :
    exec (checkChallenge challenge : Op A Unit) frame = (.ok u, frame') ↔
      (∃ stored, frame.store.challenges.lookup challenge.id = some stored ∧
        stored.revision = challenge.revision) ∧ frame' = frame := by
  simp [checkChallenge, bind_ok, and_comm]

@[simp] theorem check_task_ok {task stored : Task} {frame frame' : Frame A} :
    exec (checkTask task : Op A Task) frame = (.ok stored, frame') ↔
      (frame.store.tasks.lookup task.id = some stored ∧ stored.fence = task.fence) ∧
        frame' = frame := by
  simp only [checkTask, bind_ok, get_store_ok, get_or_ok, fail_if_ok, not_not, exec_pure]
  constructor
  · rintro ⟨_, _, ⟨rfl, rfl⟩, _, _, ⟨hstored, rfl⟩, _, _, ⟨hfence, rfl⟩, hpure⟩
    cases hpure
    exact ⟨⟨hstored, hfence⟩, rfl⟩
  · rintro ⟨⟨hstored, hfence⟩, rfl⟩
    exact ⟨_, _, ⟨rfl, rfl⟩, _, _, ⟨hstored, rfl⟩, (), _, ⟨hfence, rfl⟩, rfl⟩

@[simp] theorem check_new_task_ok {task : Task} {frame frame' : Frame A} {u : Unit} :
    exec (checkNewTask task : Op A Unit) frame = (.ok u, frame') ↔
      (task.id ≠ "" ∧ frame.store.tasks.lookup task.id = none) ∧ frame' = frame := by
  simp [checkNewTask, bind_ok, and_assoc]

/-! ## Commits -/

/-- The store with a new order, its authorizations and its challenges. -/
def Store.addResources (s : Store) (n : NewOrder) : Store :=
  n.challenges.foldl Store.putChallenge (n.authzs.foldl Store.addAuthorization (s.addOrder n.order))

section AddResources

variable (s : Store) (n : NewOrder)

/-- Adding authorizations changes the authorizations and their index. -/
theorem fold_add_authorization (authzs : List Authorization) :
    ∃ index, authzs.foldl Store.addAuthorization s =
      { s with
        authzs := Table.insertAll Authorization.id s.authzs authzs
        authzIndex := index } := by
  induction authzs generalizing s with
  | nil => exact ⟨s.authzIndex, rfl⟩
  | cons a rest ih => exact ih (s.addAuthorization a)

/-- Adding challenges changes the challenges. -/
theorem fold_put_challenge (challenges : List Challenge) :
    challenges.foldl Store.putChallenge s =
      { s with challenges := Table.insertAll Challenge.id s.challenges challenges } := by
  induction challenges generalizing s with
  | nil => rfl
  | cons c rest ih => exact ih (s.putChallenge c)

/-- All a new order changes in the store. -/
theorem add_resources_eq :
    ∃ ids index, s.addResources n = { s with
      orders := s.orders.insert n.order.id n.order
      authzs := Table.insertAll Authorization.id s.authzs n.authzs
      challenges := Table.insertAll Challenge.id s.challenges n.challenges
      orderIDs := ids
      authzIndex := index } := by
  obtain ⟨index, hauthzs⟩ := fold_add_authorization (s.addOrder n.order) n.authzs
  refine ⟨(s.addOrder n.order).orderIDs, index, ?_⟩
  unfold Store.addResources
  rw [hauthzs, fold_put_challenge]
  rfl

end AddResources

/-- The store after the replacement claim of a new order. -/
inductive Replaced (s : Store) (o : Order) : Store → Prop where
  | nothing (hreplaces : o.replaces = "") : Replaced s o s
  | claimed (id : String) (cert : Certificate) (hreplaces : o.replaces ≠ "")
      (hindex : s.certByRenewal.lookup o.replaces = some id)
      (hcert : s.certificates.lookup id = some cert)
      (hprevious : ∀ previous, s.orders.lookup cert.replacedByOrderID = some previous →
        previous.statusAt o.createdAt = .invalid) :
      Replaced s o { s with
        certificates := s.certificates.insert id { cert.revised with replacedByOrderID := o.id } }

/-- The store after the certificate of an issuance outcome was added. -/
inductive Published (s : Store) : Option Certificate → Store → Prop where
  | nothing : Published s none s
  | added (cert : Certificate) (hid : cert.id ≠ "") (hnew : s.certificates.lookup cert.id = none)
      (hrenewal : cert.renewalID ≠ "" → s.certByRenewal.lookup cert.renewalID = none) :
      Published s (some cert) (s.addCertificate { cert with revision := 1 })

/-- A replacement claim only touches certificates. -/
theorem Replaced.frame {o : Order} {s' : Store} (h : Replaced s o s') :
    ∃ certificates, s' = { s with certificates := certificates } := by
  cases h with
  | nothing => exact ⟨s.certificates, rfl⟩
  | claimed => exact ⟨_, rfl⟩

/-- Publishing only touches certificates and their renewal identifiers. -/
theorem Published.frame {cert : Option Certificate} {s' : Store} (h : Published s cert s') :
    ∃ certificates certByRenewal,
      s' = { s with certificates := certificates, certByRenewal := certByRenewal } := by
  cases h with
  | nothing => exact ⟨s.certificates, s.certByRenewal, rfl⟩
  | added => exact ⟨_, _, rfl⟩

/-- The call succeeds on the first store and leaves the second one. -/
inductive Commit (s : Store) : StoreCall → Store → Prop where
  | createAccount (a : Account) (hid : a.id ≠ "") (hnew : s.accounts.lookup a.id = none)
      (hkey : s.accountByKey.lookup a.keyThumbprint = none)
      (hclaim : a.externalAccountClaim ≠ "" →
        s.accountByClaim.lookup a.externalAccountClaim = none) (s' : Store)
      (hs' : s' = { s.putAccount { a with revision := 1 } with
        accountByKey := s.accountByKey.insert a.keyThumbprint a.id
        accountByClaim :=
          if a.externalAccountClaim ≠ "" then s.accountByClaim.insert a.externalAccountClaim a.id
          else s.accountByClaim }) :
      Commit s (.createAccount a) s'
  | updateAccount (a stored : Account) (hstored : s.accounts.lookup a.id = some stored)
      (hrevision : stored.revision = a.revision)
      (hkey : a.keyThumbprint ≠ stored.keyThumbprint → ∀ owner,
        s.accountByKey.lookup a.keyThumbprint = some owner → owner = a.id)
      (hclaim : a.externalAccountClaim ≠ stored.externalAccountClaim →
        a.externalAccountClaim ≠ "" → ∀ owner,
        s.accountByClaim.lookup a.externalAccountClaim = some owner → owner = a.id) (s' : Store)
      (hs' : s' = { s.putAccount a.revised with
        accountByKey := (s.accountByKey.erase stored.keyThumbprint).insert a.keyThumbprint a.id
        accountByClaim :=
          if a.externalAccountClaim ≠ "" then
            (s.accountByClaim.erase stored.externalAccountClaim).insert a.externalAccountClaim a.id
          else s.accountByClaim.erase stored.externalAccountClaim }) :
      Commit s (.updateAccount a) s'
  | createOrder (n : NewOrder) (hid : n.order.id ≠ "")
      (horder : s.orders.lookup n.order.id = none)
      (hauthzs : ∀ a ∈ n.authzs, s.authzs.lookup a.id = none ∧ a.id ≠ "")
      (hchallenges : ∀ c ∈ n.challenges, s.challenges.lookup c.id = none ∧ c.id ≠ "")
      (base : Store) (hbase : Replaced s n.order base) :
      Commit s (.createOrder n) (base.addResources n.initial)
  | updateAuthorization (a stored : Authorization) (hstored : s.authzs.lookup a.id = some stored)
      (hrevision : stored.revision = a.revision) :
      Commit s (.updateAuthorization a) ((s.putAuthorization a.revised).invalidateOrder a.revised)
  | beginIssuance (d : Dispatch) (task : Task) (stored : Order) (account : Account)
      (state : IssuanceState)
      (htask : s.tasks.lookup d.task.id = some task) (hfence : task.fence = d.task.fence)
      (hstored : s.orders.lookup d.order.id = some stored)
      (hrevision : stored.revision = d.order.revision)
      (haccount : s.accounts.lookup d.account.id = some account)
      (haccountRevision : account.revision = d.account.revision) (hvalid : account.status = .valid)
      (hstate : d.order.issuance = some state) (hprocessing : stored.status = .processing)
      (hundispatched : stored.issuance = none)
      (hids : d.authzs.map Authorization.id = d.order.authorizationIDs)
      (hauthzs : ∀ a ∈ d.authzs, a.status = .valid ∧ state.authorizedAt < a.expires ∧
        ∃ current, s.authzs.lookup a.id = some current ∧ current.revision = a.revision) :
      Commit s (.beginIssuance d) (s.putOrder d.order.revised)
  | updateCertificate (c stored : Certificate) (hstored : s.certificates.lookup c.id = some stored)
      (hrevision : stored.revision = c.revision) :
      Commit s (.updateCertificate c) (s.putCertificate c.revised)
  | acceptChallenge (r : Response) (stored : Challenge)
      (hstored : s.challenges.lookup r.challenge.id = some stored)
      (hrevision : stored.revision = r.challenge.revision)
      (hid : r.task.id ≠ "") (hnew : s.tasks.lookup r.task.id = none) :
      Commit s (.acceptChallenge r)
        ((s.putChallenge r.challenge.revised).insertTask r.task.enqueued)
  | finalizeOrder (f : Finalization) (stored : Order)
      (hstored : s.orders.lookup f.order.id = some stored)
      (hrevision : stored.revision = f.order.revision)
      (hid : f.task.id ≠ "") (hnew : s.tasks.lookup f.task.id = none) :
      Commit s (.finalizeOrder f) ((s.putOrder f.order.revised).insertTask f.task.enqueued)
  | claimTask (now leaseUntil : Time) (t : Task) (hstored : t ∈ s.taskValues)
      (hclaimable : t.claimable now) :
      Commit s (.claimTask now leaseUntil) (s.putTask t.id (t.claimed leaseUntil))
  | rescheduleTask (t stored : Task) (hstored : s.tasks.lookup t.id = some stored)
      (hfence : stored.fence = t.fence) :
      Commit s (.rescheduleTask t) (s.putTask t.id (stored.released t.runAt))
  | retryValidation (r : Retry) (stored : Task) (challenge : Challenge)
      (hstored : s.tasks.lookup r.task.id = some stored) (hfence : stored.fence = r.task.fence)
      (hchallenge : s.challenges.lookup r.challenge.id = some challenge)
      (hrevision : challenge.revision = r.challenge.revision) :
      Commit s (.retryValidation r)
        ((s.putChallenge r.challenge.revised).putTask r.task.id (stored.released r.task.runAt))
  | finishTask (t stored : Task) (hstored : s.tasks.lookup t.id = some stored)
      (hfence : stored.fence = t.fence) :
      Commit s (.finishTask t) (s.removeTask t.id)
  | completeValidation (v : ValidationOutcome) (stored : Task) (challenge : Challenge)
      (authz : Authorization) (order : Order)
      (hstored : s.tasks.lookup v.task.id = some stored) (hfence : stored.fence = v.task.fence)
      (hchallenge : s.challenges.lookup v.challenge.id = some challenge)
      (hchallengeRevision : challenge.revision = v.challenge.revision)
      (hauthz : s.authzs.lookup v.authz.id = some authz)
      (hauthzRevision : authz.revision = v.authz.revision)
      (horder : s.orders.lookup v.order.id = some order)
      (horderRevision : order.revision = v.order.revision) :
      Commit s (.completeValidation v)
        ((((s.putChallenge v.challenge.revised).putAuthorization v.authz.revised).putOrder
          v.order.revised).removeTask v.task.id)
  | completeIssuance (i : IssuanceOutcome) (stored : Task) (order : Order)
      (hstored : s.tasks.lookup i.task.id = some stored) (hfence : stored.fence = i.task.fence)
      (horder : s.orders.lookup i.order.id = some order)
      (hrevision : order.revision = i.order.revision)
      (base : Store) (hbase : Published s i.cert base) :
      Commit s (.completeIssuance i) ((base.putOrder i.order.revised).removeTask i.task.id)
  | read (c : StoreCall) (hread : c.mutates = false) : Commit s c s

/-! ## Every successful call is a commit

Each lemma takes the run of one method apart with `bind_ok` and the lemmas of its steps. -/

theorem create_account_commit {a : Account} {frame : Frame Account}
    (h : exec (createAccount ctx) ⟨s, a⟩ = (.ok (), frame)) :
    Commit s (.createAccount a) frame.store ∧ frame.args = { a with revision := 1 } := by
  simp only [createAccount, bind_ok, check_context_ok, get_args_ok, get_store_ok, fail_if_ok,
    modify_args_ok, modify_store_ok, and_assoc, exists_and_left, exists_eq_left, exists_eq_left',
    exists_const] at h
  obtain ⟨-, hid, hnew, hkey, hclaim, rfl⟩ := h
  rw [not_or] at hid
  refine ⟨.createAccount a hid.1 (not_not.mp hnew) (not_not.mp hkey) ?_ _ rfl, rfl⟩
  intro hne
  by_contra hused
  exact hclaim ⟨hused, hne⟩

theorem update_account_commit {a : Account} {frame : Frame Account}
    (h : exec (updateAccount ctx) ⟨s, a⟩ = (.ok (), frame)) :
    Commit s (.updateAccount a) frame.store ∧ frame.args = a.revised := by
  simp only [updateAccount, bind_ok, check_context_ok, get_args_ok, get_store_ok, fail_if_ok,
    get_or_ok, modify_args_ok, modify_store_ok, and_assoc, exists_and_left, exists_eq_left,
    exists_eq_left', exists_const] at h
  obtain ⟨-, -, stored, hstored, hrevision, hkey, hclaim, rfl⟩ := h
  refine ⟨.updateAccount a stored hstored (not_not.mp hrevision) ?_ ?_ _ rfl, rfl⟩
  · intro hne owner howner
    by_contra hother
    exact hkey ⟨hne, owner, howner, hother⟩
  · intro hne hset owner howner
    by_contra hother
    exact hclaim ⟨hne, hset, owner, howner, hother⟩

theorem claim_replaced_ok {o : Order} {frame frame' : Frame A} {u : Unit}
    (h : exec (claimReplaced o : Op A Unit) frame = (.ok u, frame')) :
    Replaced frame.store o frame'.store ∧ frame'.args = frame.args := by
  unfold claimReplaced at h
  split at h
  · rename_i hreplaces
    simp only [claimReplacement, bind_ok, get_store_ok, get_or_ok, fail_if_ok, modify_store_ok,
      and_assoc, exists_and_left, exists_eq_left, exists_eq_left', exists_const] at h
    obtain ⟨id, hindex, cert, hcert, hprevious, rfl⟩ := h
    refine ⟨.claimed id cert hreplaces hindex hcert ?_, rfl⟩
    intro previous hlookup
    by_contra hlive
    exact hprevious ⟨previous, hlookup, hlive⟩
  · rename_i hreplaces
    cases h
    exact ⟨.nothing (not_not.mp hreplaces), rfl⟩

theorem create_order_commit {n : NewOrder} {frame : Frame NewOrder}
    (h : exec (createOrder ctx) ⟨s, n⟩ = (.ok (), frame)) :
    Commit s (.createOrder n) frame.store ∧ frame.args = n.initial := by
  simp only [createOrder, bind_ok, check_context_ok, get_args_ok, get_store_ok, fail_if_ok,
    for_each_fail_if_ok, modify_args_ok, modify_store_ok, and_assoc, exists_and_left,
    exists_eq_left, exists_eq_left', exists_const] at h
  obtain ⟨-, hid, hnew, hauthzs, hchallenges, _, claimed, hclaim, rfl⟩ := h
  obtain ⟨hbase, hargs⟩ := claim_replaced_ok hclaim
  rw [not_or] at hid
  simp only [not_or, not_not] at hauthzs hchallenges
  rw [hargs]
  exact ⟨.createOrder n hid.1 (not_not.mp hnew) hauthzs hchallenges _ hbase, rfl⟩

theorem update_authorization_commit {a : Authorization} {frame : Frame Authorization}
    (h : exec (updateAuthorization ctx) ⟨s, a⟩ = (.ok (), frame)) :
    Commit s (.updateAuthorization a) frame.store ∧ frame.args = a.revised := by
  simp only [updateAuthorization, bind_ok, check_context_ok, get_args_ok, check_authorization_ok,
    modify_args_ok, modify_store_ok, and_assoc, exists_and_left, exists_eq_left, exists_eq_left',
    exists_const] at h
  obtain ⟨-, ⟨stored, hstored, hrevision⟩, rfl⟩ := h
  exact ⟨.updateAuthorization a stored hstored hrevision, rfl⟩

theorem update_certificate_commit {c : Certificate} {frame : Frame Certificate}
    (h : exec (updateCertificate ctx) ⟨s, c⟩ = (.ok (), frame)) :
    Commit s (.updateCertificate c) frame.store ∧ frame.args = c.revised := by
  simp only [updateCertificate, bind_ok, check_context_ok, get_args_ok, get_store_ok,
    check_revision_ok, modify_args_ok, modify_store_ok, and_assoc, exists_and_left,
    exists_eq_left, exists_eq_left', exists_const] at h
  obtain ⟨-, ⟨stored, hstored, hrevision⟩, rfl⟩ := h
  exact ⟨.updateCertificate c stored hstored hrevision, rfl⟩

theorem accept_challenge_commit {r : Response} {frame : Frame Response}
    (h : exec (acceptChallenge ctx) ⟨s, r⟩ = (.ok (), frame)) :
    Commit s (.acceptChallenge r) frame.store ∧
      frame.args = ⟨r.challenge.revised, r.task.enqueued⟩ := by
  simp only [acceptChallenge, bind_ok, check_context_ok, get_args_ok, check_challenge_ok,
    check_new_task_ok, modify_args_ok, modify_store_ok, and_assoc, exists_and_left, exists_eq_left,
    exists_eq_left', exists_const] at h
  obtain ⟨-, ⟨stored, hstored, hrevision⟩, hid, hnew, rfl⟩ := h
  exact ⟨.acceptChallenge r stored hstored hrevision hid hnew, rfl⟩

theorem finalize_order_commit {f : Finalization} {frame : Frame Finalization}
    (h : exec (finalizeOrder ctx) ⟨s, f⟩ = (.ok (), frame)) :
    Commit s (.finalizeOrder f) frame.store ∧
      frame.args = ⟨f.order.revised, f.task.enqueued⟩ := by
  simp only [finalizeOrder, bind_ok, check_context_ok, get_args_ok, check_order_ok,
    check_new_task_ok, modify_args_ok, modify_store_ok, and_assoc, exists_and_left, exists_eq_left,
    exists_eq_left', exists_const] at h
  obtain ⟨-, ⟨stored, hstored, hrevision⟩, hid, hnew, rfl⟩ := h
  exact ⟨.finalizeOrder f stored hstored hrevision hid hnew, rfl⟩

/-- The result of the claim loop is the best task so far or one of the visited claimable ones. -/
theorem claim_round_mem {now : Time} {visit : List Task} {best : Option Task} {t : Task}
    (h : visit.foldl (claimRound s now) best = some t) :
    best = some t ∨ (t ∈ visit ∧ t.claimable now) := by
  induction visit generalizing best with
  | nil => exact .inl h
  | cons u rest ih =>
      rcases ih h with hround | ⟨ht, hclaimable⟩
      · unfold claimRound at hround
        split at hround
        · rename_i hu
          split at hround
          · cases hround
            exact .inr ⟨List.mem_cons_self, hu⟩
          · split at hround
            · cases hround
              exact .inr ⟨List.mem_cons_self, hu⟩
            · exact .inl hround
        · exact .inl hround
      · exact .inr ⟨List.mem_cons_of_mem _ ht, hclaimable⟩

theorem claim_task_commit {env : CallEnv} {now leaseUntil : Time} {t : Task} {frame : Frame Unit}
    (hfits : env.Fits s)
    (h : exec (claimTask ctx env.visit now leaseUntil) ⟨s, ()⟩ = (.ok t, frame)) :
    Commit s (.claimTask now leaseUntil) frame.store ∧
      ∃ best ∈ s.taskValues, best.claimable now ∧ t = best.claimed leaseUntil ∧
        frame.store = s.putTask best.id t := by
  simp only [claimTask, bind_ok, check_context_ok, get_store_ok, get_or_ok, modify_store_ok,
    exec_pure, and_assoc, exists_and_left, exists_eq_left, exists_eq_left', exists_const] at h
  obtain ⟨-, best, hbest, hpure⟩ := h
  cases hpure
  rcases claim_round_mem hbest with hnone | ⟨hvisit, hclaimable⟩
  · cases hnone
  · have hstored : best ∈ s.taskValues := by
      rw [← hfits]
      exact hvisit
    exact ⟨.claimTask now leaseUntil best hstored hclaimable, best, hstored, hclaimable, rfl, rfl⟩

theorem reschedule_task_commit {t : Task} {frame : Frame Task}
    (h : exec (rescheduleTask ctx) ⟨s, t⟩ = (.ok (), frame)) :
    Commit s (.rescheduleTask t) frame.store ∧ frame.args = { t with leaseUntil := 0 } := by
  simp only [rescheduleTask, bind_ok, check_context_ok, get_args_ok, check_task_ok, modify_args_ok,
    modify_store_ok, and_assoc, exists_and_left, exists_eq_left, exists_eq_left',
    exists_const] at h
  obtain ⟨-, stored, hstored, hfence, rfl⟩ := h
  exact ⟨.rescheduleTask t stored hstored hfence, rfl⟩

theorem retry_validation_commit {r : Retry} {frame : Frame Retry}
    (h : exec (retryValidation ctx) ⟨s, r⟩ = (.ok (), frame)) :
    Commit s (.retryValidation r) frame.store ∧
      frame.args = ⟨{ r.task with leaseUntil := 0 }, r.challenge.revised⟩ := by
  simp only [retryValidation, bind_ok, check_context_ok, get_args_ok, check_task_ok,
    check_challenge_ok, modify_args_ok, modify_store_ok, and_assoc, exists_and_left,
    exists_eq_left, exists_eq_left', exists_const] at h
  obtain ⟨-, stored, hstored, hfence, ⟨challenge, hchallenge, hrevision⟩, rfl⟩ := h
  exact ⟨.retryValidation r stored challenge hstored hfence hchallenge hrevision, rfl⟩

theorem finish_task_commit {t : Task} {frame : Frame Task}
    (h : exec (finishTask ctx) ⟨s, t⟩ = (.ok (), frame)) :
    Commit s (.finishTask t) frame.store ∧ frame.args = t := by
  simp only [finishTask, bind_ok, check_context_ok, get_args_ok, check_task_ok, modify_store_ok,
    and_assoc, exists_and_left, exists_eq_left, exists_eq_left', exists_const] at h
  obtain ⟨-, stored, hstored, hfence, rfl⟩ := h
  exact ⟨.finishTask t stored hstored hfence, rfl⟩

theorem complete_validation_commit {v : ValidationOutcome} {frame : Frame ValidationOutcome}
    (h : exec (completeValidation ctx) ⟨s, v⟩ = (.ok (), frame)) :
    Commit s (.completeValidation v) frame.store ∧
      frame.args = ⟨v.task, v.challenge.revised, v.authz.revised, v.order.revised⟩ := by
  simp only [completeValidation, bind_ok, check_context_ok, get_args_ok, check_task_ok,
    check_challenge_ok, check_authorization_ok, check_order_ok, modify_args_ok, modify_store_ok,
    and_assoc, exists_and_left, exists_eq_left, exists_eq_left', exists_const] at h
  obtain ⟨-, stored, hstored, hfence, ⟨challenge, hchallenge, hchallengeRevision⟩,
    ⟨authz, hauthz, hauthzRevision⟩, ⟨order, horder, horderRevision⟩, rfl⟩ := h
  exact ⟨.completeValidation v stored challenge authz order hstored hfence hchallenge
    hchallengeRevision hauthz hauthzRevision horder horderRevision, rfl⟩

/-- Two lists of the same length that were compared position by position. -/
theorem zip_checked {α β : Type} {f : α → β} {P : α → Prop} {l : List α} {m : List β}
    (hlength : l.length = m.length) (h : ∀ p ∈ l.zip m, f p.1 = p.2 ∧ P p.1) :
    l.map f = m ∧ ∀ a ∈ l, P a := by
  induction l generalizing m with
  | nil => simpa [eq_comm] using hlength
  | cons a l ih =>
      cases m with
      | nil => simp at hlength
      | cons b m =>
          simp only [List.zip_cons_cons, List.mem_cons, forall_eq_or_imp] at h
          obtain ⟨htail, hall⟩ := ih (by simpa using hlength) h.2
          refine ⟨by rw [List.map_cons, h.1.1, htail], ?_⟩
          simpa using ⟨h.1.2, hall⟩

theorem begin_issuance_commit {d : Dispatch} {frame : Frame Dispatch}
    (h : exec (beginIssuance ctx) ⟨s, d⟩ = (.ok (), frame)) :
    Commit s (.beginIssuance d) frame.store ∧
      frame.args = ⟨d.task, d.order.revised, d.account, d.authzs⟩ := by
  simp only [beginIssuance, bind_ok, check_context_ok, get_args_ok, check_task_ok, check_order_ok,
    get_store_ok, get_or_ok, fail_if_ok, modify_args_ok, modify_store_ok, and_assoc,
    exists_and_left, exists_eq_left, exists_eq_left', exists_const] at h
  obtain ⟨-, task, htask, hfence, ⟨stored, hstored, hrevision⟩, account, haccount, hvalid, state,
    hstate, current, hcurrent, hopen, _, checked, hloop, rfl⟩ := h
  rw [hstored] at hcurrent
  cases hcurrent
  rw [for_each_ok (P := fun p frame =>
    (∃ current, frame.store.authzs.lookup p.1.id = some current ∧
      current.revision = p.1.revision) ∧
    ¬ (p.1.id ≠ p.2 ∨ p.1.status ≠ .valid ∨ ¬ state.authorizedAt < p.1.expires))
    (by simp [bind_ok, and_assoc])] at hloop
  obtain ⟨hchecked, rfl⟩ := hloop
  simp only [not_or, not_not] at hvalid hopen hchecked
  obtain ⟨hprocessing, hundispatched, hlength⟩ := hopen
  obtain ⟨hids, hauthzs⟩ := zip_checked (f := Authorization.id)
    (P := fun a => a.status = .valid ∧ state.authorizedAt < a.expires ∧
      ∃ current, s.authzs.lookup a.id = some current ∧ current.revision = a.revision)
    hlength fun p hp => ⟨(hchecked p hp).2.1, (hchecked p hp).2.2.1, (hchecked p hp).2.2.2,
      (hchecked p hp).1⟩
  exact ⟨.beginIssuance d task stored account state htask hfence hstored hrevision haccount
    hvalid.1 hvalid.2 hstate hprocessing hundispatched hids hauthzs, rfl⟩

theorem publish_ok {cert : Option Certificate} {frame frame' : Frame IssuanceOutcome} {u : Unit}
    (h : exec (publish cert) frame = (.ok u, frame')) :
    Published frame.store cert frame'.store ∧ frame'.args.task = frame.args.task ∧
      frame'.args.order = frame.args.order := by
  cases cert with
  | none =>
      cases h
      exact ⟨.nothing, rfl, rfl⟩
  | some cert =>
      simp only [publish, bind_ok, get_store_ok, fail_if_ok, modify_args_ok, modify_store_ok,
        and_assoc, exists_and_left, exists_eq_left, exists_eq_left', exists_const] at h
      obtain ⟨hid, hnew, hrenewal, rfl⟩ := h
      refine ⟨.added cert hid (not_not.mp hnew) ?_, rfl, rfl⟩
      intro hne
      by_contra hused
      exact hrenewal ⟨hused, hne⟩

theorem complete_issuance_commit {i : IssuanceOutcome} {frame : Frame IssuanceOutcome}
    (h : exec (completeIssuance ctx) ⟨s, i⟩ = (.ok (), frame)) :
    Commit s (.completeIssuance i) frame.store ∧ frame.args.task = i.task ∧
      frame.args.order = i.order.revised := by
  simp only [completeIssuance, bind_ok, check_context_ok, get_args_ok, check_task_ok,
    check_order_ok, modify_args_ok, modify_store_ok, and_assoc, exists_and_left, exists_eq_left,
    exists_eq_left', exists_const] at h
  obtain ⟨-, stored, hstored, hfence, ⟨order, horder, hrevision⟩, _, published, hpublish, rfl⟩ := h
  obtain ⟨hbase, htask, hsame⟩ := publish_ok hpublish
  simp only [htask, hsame]
  exact ⟨.completeIssuance i stored order hstored hfence horder hrevision _ hbase, trivial, trivial⟩

section Apply

variable {env : CallEnv} {c : StoreCall}

/-- The run behind a successful call. -/
theorem exec_of_ok {v : c.Value} (h : (s.apply env c).1.result = .ok v) :
    exec (c.op env) ⟨s, c.args⟩ = (.ok v, ⟨s.after env c, (s.apply env c).1.args⟩) := by
  rw [s.exec_op env c, h]

/-- A successful call is a commit. -/
theorem commit_of_ok {v : c.Value} (hfits : env.Fits s) (h : (s.apply env c).1.result = .ok v) :
    Commit s c (s.after env c) := by
  have hrun := exec_of_ok h
  cases hmutates : c.mutates with
  | false =>
      have hread : s.after env c = s := congrArg Frame.store (read_only_of_not_mutates hmutates _)
      rw [hread]
      exact .read c hmutates
  | true =>
      cases c with
      | createAccount _ => exact (create_account_commit hrun).1
      | updateAccount _ => exact (update_account_commit hrun).1
      | createOrder _ => exact (create_order_commit hrun).1
      | updateAuthorization _ => exact (update_authorization_commit hrun).1
      | beginIssuance _ => exact (begin_issuance_commit hrun).1
      | updateCertificate _ => exact (update_certificate_commit hrun).1
      | acceptChallenge _ => exact (accept_challenge_commit hrun).1
      | finalizeOrder _ => exact (finalize_order_commit hrun).1
      | claimTask _ _ => exact (claim_task_commit hfits hrun).1
      | rescheduleTask _ => exact (reschedule_task_commit hrun).1
      | retryValidation _ => exact (retry_validation_commit hrun).1
      | finishTask _ => exact (finish_task_commit hrun).1
      | completeValidation _ => exact (complete_validation_commit hrun).1
      | completeIssuance _ => exact (complete_issuance_commit hrun).1
      | _ => cases hmutates

/-- A call leaves the store as it is or commits. -/
theorem after_eq_or_commit (hfits : env.Fits s) :
    s.after env c = s ∨ Commit s c (s.after env c) := by
  cases h : (s.apply env c).1.result with
  | error e => exact .inl (apply_error h).1
  | ok v => exact .inr (commit_of_ok hfits h)

/-! ## Reads -/

/-- The result of looking up a resource by its ID. -/
def readResult (ctx : Option ContextError) (entry : Option V) : Except StoreError V :=
  match ctx, entry with
  | some cause, _ => .error (.context cause)
  | none, some v => .ok v
  | none, none => .error .notFound

@[simp] theorem read_result_ok {entry : Option V} {v : V} :
    readResult ctx entry = .ok v ↔ ctx = none ∧ entry = some v := by
  cases ctx <;> cases entry <;> simp [readResult]

theorem read_result_error {entry : Option V} {e : StoreError}
    (h : readResult ctx entry = .error e) :
    (e = .notFound ∧ entry = none) ∨ ∃ cause, e = .context cause := by
  cases ctx with
  | some cause => exact .inr ⟨cause, (Except.error.inj h).symm⟩
  | none =>
      cases entry with
      | some v => cases h
      | none => exact .inl ⟨(Except.error.inj h).symm, rfl⟩

/-- Both forms of a read-only method that ends in a lookup. -/
theorem exec_read {lookup : Store → Option V} :
    (exec (do checkContext ctx; let s ← getStore; getOr (lookup s) .notFound : Op Unit V)
      ⟨s, ()⟩).1 = readResult ctx (lookup s) := by
  cases ctx with
  | some cause => rfl
  | none =>
      show (exec (getOr (lookup s) .notFound : Op Unit V) ⟨s, ()⟩).1 = _
      cases lookup s <;> rfl

theorem apply_account (id : String) :
    (s.apply env (.account id)).1.result = readResult env.ctx (s.accounts.lookup id) :=
  exec_read

theorem apply_order (id : String) :
    (s.apply env (.order id)).1.result = readResult env.ctx (s.orders.lookup id) :=
  exec_read

theorem apply_authorization (id : String) :
    (s.apply env (.authorization id)).1.result = readResult env.ctx (s.authzs.lookup id) :=
  exec_read

theorem apply_challenge (id : String) :
    (s.apply env (.challenge id)).1.result = readResult env.ctx (s.challenges.lookup id) :=
  exec_read

theorem apply_certificate (id : String) :
    (s.apply env (.certificate id)).1.result = readResult env.ctx (s.certificates.lookup id) :=
  exec_read

/-- The number of validations is counted over the whole task map. -/
theorem apply_account_validations {accountID : String} {n : Nat} (hfits : env.Fits s)
    (h : (s.apply env (.accountValidations accountID)).1.result = .ok n) :
    n = s.taskValues.countP fun t => t.kind = .validate ∧ t.accountID = accountID := by
  have hrun := exec_of_ok h
  simp only [StoreCall.op, accountValidations, bind_ok, check_context_ok] at hrun
  obtain ⟨_, _, _, hvalue⟩ := hrun
  cases hvalue
  rw [← hfits, Multiset.coe_countP]

end Apply

end AcmeServer.Memstore
