import AcmeServer.Memstore.Call

/-!
# Failed calls change nothing

Every method of the store checks first and writes afterwards. The rules for `ReadOnly`, `NeverFails`
and `Atomic` transactions turn that shape into a proof, method by method; the main result is
`failed_call_changes_nothing`. The two methods that write in a helper which can itself fail,
`CreateOrder` and `CompleteIssuance`, call it when nothing else has been written.
-/

namespace AcmeServer.Memstore

open Transaction

variable {A V : Type} (ctx : Option ContextError)

/-! ## The checks only read -/

theorem read_only_check_revision (stored : Option V) (revisionOf : V → Nat) (revision : Nat) :
    ReadOnly (checkRevision stored revisionOf revision : Op A Unit) :=
  (ReadOnly.get_or _ _).bind fun _ => .fail_if _ _

theorem read_only_check_order (order : Order) : ReadOnly (checkOrder order : Op A Unit) :=
  read_only_get_store.bind fun _ => read_only_check_revision _ _ _

theorem read_only_check_authorization (authz : Authorization) :
    ReadOnly (checkAuthorization authz : Op A Unit) :=
  read_only_get_store.bind fun _ => read_only_check_revision _ _ _

theorem read_only_check_challenge (challenge : Challenge) :
    ReadOnly (checkChallenge challenge : Op A Unit) :=
  read_only_get_store.bind fun _ => read_only_check_revision _ _ _

theorem read_only_check_new_task (task : Task) : ReadOnly (checkNewTask task : Op A Unit) :=
  (ReadOnly.fail_if _ _).bind fun _ => read_only_get_store.bind fun _ => .fail_if _ _

theorem read_only_check_task (task : Task) : ReadOnly (checkTask task : Op A Task) :=
  read_only_get_store.bind fun _ => (ReadOnly.get_or _ _).bind fun _ =>
    (ReadOnly.fail_if _ _).bind fun _ => .pure _

/-! ## Methods that only read -/

theorem read_only_any_authorized (s : Store) (now : Time) (ids : List String) :
    ReadOnly (anyAuthorized s now ids : Op A Bool) := by
  induction ids with
  | nil => exact .pure _
  | cons id rest ih =>
      refine (ReadOnly.get_or _ _).bind fun a => ?_
      split
      · exact .pure _
      · exact ih

theorem read_only_all_authorized (s : Store) (accountID : String) (now : Time)
    (identifiers : List Identifier) :
    ReadOnly (allAuthorized s accountID now identifiers : Op A Bool) := by
  induction identifiers with
  | nil => exact .pure _
  | cons identifier rest ih =>
      refine (read_only_any_authorized s now _).bind fun valid => ?_
      split
      · exact ih
      · exact .pure _

theorem read_only_authorized_for (accountID : String) (identifiers : List Identifier)
    (now : Time) : ReadOnly (authorizedFor ctx accountID identifiers now) := by
  refine (read_only_check_context ctx).bind fun _ => read_only_get_store.bind fun s => ?_
  split
  · split
    · exact .pure _
    · exact read_only_all_authorized s accountID now identifiers
  · exact .pure _

theorem read_only_order_ids (accountID after : String) (limit : Int) :
    ReadOnly (orderIDs ctx accountID after limit) := by
  refine (read_only_check_context ctx).bind fun _ => (ReadOnly.fail_if _ _).bind fun _ =>
    read_only_get_store.bind fun s => ?_
  split
  · exact (ReadOnly.get_or _ _).bind fun _ => .pure _
  · exact .pure _

/-- The methods that are not in the list of mutating ones only read. -/
theorem read_only_of_not_mutates {env : CallEnv} {c : StoreCall} (h : c.mutates = false) :
    ReadOnly (c.op env) := by
  have hctx {B : Type} : ReadOnly (checkContext env.ctx : Op B Unit) :=
    read_only_check_context env.ctx
  cases c with
  | account _ | order _ | authorization _ | challenge _ | certificate _ =>
      exact hctx.bind fun _ => read_only_get_store.bind fun _ => .get_or _ _
  | accountByKey _ =>
      exact hctx.bind fun _ => read_only_get_store.bind fun _ =>
        (ReadOnly.get_or _ _).bind fun _ => .get_or _ _
  | certificateByRenewalID _ =>
      exact hctx.bind fun _ => read_only_get_store.bind fun _ =>
        (ReadOnly.get_or _ _).bind fun _ => (ReadOnly.fail_if _ _).bind fun _ => .get_or _ _
  | orderIDs accountID after limit => exact read_only_order_ids _ accountID after limit
  | authorizedFor accountID identifiers now =>
      exact read_only_authorized_for _ accountID identifiers now
  | pendingTasks _ | leasedTasks _ | accountValidations _ => exact hctx.bind fun _ => .pure _
  | _ => cases h

/-! ## Methods that write -/

/-- A last step that stores the caller's records as they are now. -/
theorem never_fails_store_args (f : A → Store → Store) :
    NeverFails (do let a ← getArgs; modifyStore (f a) : Op A Unit) :=
  never_fails_get_args.bind fun _ => never_fails_modify_store _

/-- The usual end of a method: change the caller's records and store them. -/
theorem atomic_write (g : A → A) (f : A → Store → Store) :
    Atomic (do modifyArgs g; let a ← getArgs; modifyStore (f a) : Op A Unit) :=
  ((never_fails_modify_args g).bind fun _ => never_fails_store_args f).atomic

theorem atomic_create_account : Atomic (createAccount ctx) :=
  .bind (read_only_check_context ctx) fun _ => .bind read_only_get_args fun _ =>
    .bind (.fail_if _ _) fun _ => .bind read_only_get_store fun _ => .bind (.fail_if _ _) fun _ =>
    .bind (.fail_if _ _) fun _ => .bind (.fail_if _ _) fun _ => atomic_write _ _

theorem atomic_update_account : Atomic (updateAccount ctx) :=
  .bind (read_only_check_context ctx) fun _ => .bind read_only_get_args fun _ =>
    .bind (.fail_if _ _) fun _ => .bind read_only_get_store fun _ => .bind (.get_or _ _) fun _ =>
    .bind (.fail_if _ _) fun _ => .bind (.fail_if _ _) fun _ => .bind (.fail_if _ _) fun _ =>
    ((never_fails_modify_store _).bind fun _ => (never_fails_modify_args _).bind fun _ =>
      never_fails_store_args _).atomic

theorem atomic_claim_replaced (order : Order) : Atomic (claimReplaced order : Op A Unit) := by
  unfold claimReplaced
  split
  · exact .bind read_only_get_store fun _ => .bind (.get_or _ _) fun _ =>
      .bind (.get_or _ _) fun _ => .bind (.fail_if _ _) fun _ => (never_fails_modify_store _).atomic
  · exact (ReadOnly.pure ()).atomic

theorem atomic_create_order : Atomic (createOrder ctx) :=
  .bind (read_only_check_context ctx) fun _ => .bind read_only_get_args fun new =>
    .bind (.fail_if _ _) fun _ => .bind read_only_get_store fun _ => .bind (.fail_if _ _) fun _ =>
    .bind (.for_each (fun _ => .fail_if _ _) _) fun _ =>
    .bind (.for_each (fun _ => .fail_if _ _) _) fun _ =>
    (atomic_claim_replaced new.order).then_never_fails fun _ =>
      (never_fails_modify_args _).bind fun _ => never_fails_get_args.bind fun _ =>
      (never_fails_modify_store _).bind fun _ => (never_fails_modify_store _).bind fun _ =>
      never_fails_modify_store _

theorem atomic_update_authorization : Atomic (updateAuthorization ctx) :=
  .bind (read_only_check_context ctx) fun _ => .bind read_only_get_args fun authz =>
    .bind (read_only_check_authorization authz) fun _ =>
    ((never_fails_modify_args _).bind fun _ => never_fails_get_args.bind fun _ =>
      (never_fails_modify_store _).bind fun _ => never_fails_modify_store _).atomic

theorem atomic_update_certificate : Atomic (updateCertificate ctx) :=
  .bind (read_only_check_context ctx) fun _ => .bind read_only_get_args fun _ =>
    .bind read_only_get_store fun _ => .bind (read_only_check_revision _ _ _) fun _ =>
    atomic_write _ _

theorem atomic_accept_challenge : Atomic (acceptChallenge ctx) :=
  .bind (read_only_check_context ctx) fun _ => .bind read_only_get_args fun _ =>
    .bind (read_only_check_challenge _) fun _ => .bind (read_only_check_new_task _) fun _ =>
    atomic_write _ _

theorem atomic_finalize_order : Atomic (finalizeOrder ctx) :=
  .bind (read_only_check_context ctx) fun _ => .bind read_only_get_args fun _ =>
    .bind (read_only_check_order _) fun _ => .bind (read_only_check_new_task _) fun _ =>
    atomic_write _ _

theorem atomic_begin_issuance : Atomic (beginIssuance ctx) :=
  .bind (read_only_check_context ctx) fun _ => .bind read_only_get_args fun _ =>
    .bind (read_only_check_task _) fun _ => .bind (read_only_check_order _) fun _ =>
    .bind read_only_get_store fun _ => .bind (.get_or _ _) fun _ => .bind (.fail_if _ _) fun _ =>
    .bind (.get_or _ _) fun _ => .bind (.get_or _ _) fun _ => .bind (.fail_if _ _) fun _ =>
    .bind (.for_each (fun _ => (read_only_check_authorization _).bind fun _ => .fail_if _ _) _)
      fun _ => atomic_write _ _

theorem atomic_claim_task (visit : List Task) (now leaseUntil : Time) :
    Atomic (claimTask ctx visit now leaseUntil) :=
  .bind (read_only_check_context ctx) fun _ => .bind read_only_get_store fun _ =>
    .bind (.get_or _ _) fun _ => ((never_fails_modify_store _).bind fun _ => .pure _).atomic

theorem atomic_reschedule_task : Atomic (rescheduleTask ctx) :=
  .bind (read_only_check_context ctx) fun _ => .bind read_only_get_args fun _ =>
    .bind (read_only_check_task _) fun _ =>
    ((never_fails_modify_store _).bind fun _ => never_fails_modify_args _).atomic

theorem atomic_retry_validation : Atomic (retryValidation ctx) :=
  .bind (read_only_check_context ctx) fun _ => .bind read_only_get_args fun _ =>
    .bind (read_only_check_task _) fun _ => .bind (read_only_check_challenge _) fun _ =>
    ((never_fails_modify_args _).bind fun _ => never_fails_get_args.bind fun _ =>
      (never_fails_modify_store _).bind fun _ => never_fails_modify_args _).atomic

theorem atomic_finish_task : Atomic (finishTask ctx) :=
  .bind (read_only_check_context ctx) fun _ => .bind read_only_get_args fun _ =>
    .bind (read_only_check_task _) fun _ => (never_fails_modify_store _).atomic

theorem atomic_complete_validation : Atomic (completeValidation ctx) :=
  .bind (read_only_check_context ctx) fun _ => .bind read_only_get_args fun _ =>
    .bind (read_only_check_task _) fun _ => .bind (read_only_check_challenge _) fun _ =>
    .bind (read_only_check_authorization _) fun _ => .bind (read_only_check_order _) fun _ =>
    atomic_write _ _

theorem atomic_publish (cert : Option Certificate) : Atomic (publish cert) := by
  cases cert with
  | none => exact (ReadOnly.pure ()).atomic
  | some cert =>
      exact .bind (.fail_if _ _) fun _ => .bind read_only_get_store fun _ =>
        .bind (.fail_if _ _) fun _ => .bind (.fail_if _ _) fun _ =>
        ((never_fails_modify_args _).bind fun _ => never_fails_modify_store _).atomic

theorem atomic_complete_issuance : Atomic (completeIssuance ctx) :=
  .bind (read_only_check_context ctx) fun _ => .bind read_only_get_args fun i =>
    .bind (read_only_check_task _) fun _ => .bind (read_only_check_order _) fun _ =>
    (atomic_publish i.cert).then_never_fails fun _ =>
      (never_fails_modify_args _).bind fun _ => never_fails_store_args _

/-- Every method of the store is all or nothing. -/
theorem atomic_op (env : CallEnv) (c : StoreCall) : Atomic (c.op env) := by
  cases hmutates : c.mutates with
  | false => exact (read_only_of_not_mutates hmutates).atomic
  | true =>
      cases c with
      | createAccount _ => exact atomic_create_account env.ctx
      | updateAccount _ => exact atomic_update_account env.ctx
      | createOrder _ => exact atomic_create_order env.ctx
      | updateAuthorization _ => exact atomic_update_authorization env.ctx
      | beginIssuance _ => exact atomic_begin_issuance env.ctx
      | updateCertificate _ => exact atomic_update_certificate env.ctx
      | acceptChallenge _ => exact atomic_accept_challenge env.ctx
      | finalizeOrder _ => exact atomic_finalize_order env.ctx
      | claimTask now leaseUntil => exact atomic_claim_task env.ctx env.visit now leaseUntil
      | rescheduleTask _ => exact atomic_reschedule_task env.ctx
      | retryValidation _ => exact atomic_retry_validation env.ctx
      | finishTask _ => exact atomic_finish_task env.ctx
      | completeValidation _ => exact atomic_complete_validation env.ctx
      | completeIssuance _ => exact atomic_complete_issuance env.ctx
      | _ => cases hmutates

/-- What a call leaves behind when it returns an error. -/
theorem apply_error {s : Store} {env : CallEnv} {c : StoreCall} {e : StoreError}
    (h : (s.apply env c).1.result = .error e) :
    s.after env c = s ∧ (s.apply env c).1.args = c.args := by
  have hrun := (atomic_op env c).exec_eq (s := ⟨s, c.args⟩) h
  have hframe := congrArg Prod.snd hrun
  exact ⟨congrArg Frame.store hframe, congrArg Frame.args hframe⟩

/-- A call that returns an error leaves every map, index and counter of the store as it was, and
the caller's records with their revisions and leases as well. -/
theorem failed_call_changes_nothing (s : Store) (env : CallEnv) (c : StoreCall) (e : StoreError)
    (h : (s.apply env c).1.result = .error e) :
    (s.apply env c).2 = s ∧ (s.apply env c).1.args = c.args :=
  apply_error h

/-- A task that nobody enqueued cannot be rescheduled, and keeps its lease in the caller's copy. -/
theorem failed_reschedule_changes_nothing :
    let t : Task :=
      { id := "t", kind := .issue, targetID := "o", accountID := "a", runAt := 3, leaseUntil := 9,
        fence := 1, createdAt := 2 }
    (Store.new.apply {} (.rescheduleTask t)).2 = Store.new ∧
      (Store.new.apply {} (.rescheduleTask t)).1.args = t :=
  failed_call_changes_nothing Store.new {} _ .notFound rfl

end AcmeServer.Memstore
