import AcmeServer.Memstore.Outcome

/-!
# Leases and fences

A claim raises the fence of a task, and every method that completes or releases a claim checks it.
`TaskChange` says once what a call can do to a single task; everything else follows from it.
`claims_are_fenced` is the result for whole runs: consecutive claims of a task get consecutive
fences, a task under an unexpired lease is only claimed again after its holder released it, and a
superseded claim can no longer commit anything. The zero lease is the exception the store makes on
purpose, since it is how a released task is stored: `zero_lease_does_not_protect`.
-/

namespace AcmeServer.Memstore

open Transaction

/-! ## The task a call is about -/

namespace StoreCall

/-- The task a call enqueues. -/
def enqueues : StoreCall → Option Task
  | .acceptChallenge r => some r.task
  | .finalizeOrder f => some f.task
  | _ => none

/-- The claimed task a call releases. -/
def releases : StoreCall → Option Task
  | .rescheduleTask t => some t
  | .retryValidation r => some r.task
  | _ => none

/-- The claimed task a call removes. -/
def removes : StoreCall → Option Task
  | .finishTask t => some t
  | .completeValidation v => some v.task
  | .completeIssuance i => some i.task
  | _ => none

/-- The claimed task whose fence a call presents. -/
def presentsTask : StoreCall → Option Task
  | .rescheduleTask t => some t
  | .retryValidation r => some r.task
  | .finishTask t => some t
  | .completeValidation v => some v.task
  | .completeIssuance i => some i.task
  | .beginIssuance d => some d.task
  | _ => none

end StoreCall

variable {s s' : Store} {c : StoreCall} {id : String}

/-- Every task is stored under its ID. -/
def TaskKeys (s : Store) : Prop := ∀ key t, s.tasks.lookup key = some t → t.id = key

/-- What a call can do to the task with the given ID. -/
inductive TaskChange (id : String) (c : StoreCall) : Option Task → Option Task → Prop where
  | same (o : Option Task) : TaskChange id c o o
  | enqueued (t : Task) (hc : c.enqueues = some t) (hid : t.id = id) :
      TaskChange id c none (some t.enqueued)
  | claimed (t : Task) (now leaseUntil : Time) (hc : c = .claimTask now leaseUntil)
      (hid : t.id = id) (hclaimable : t.claimable now) :
      TaskChange id c (some t) (some (t.claimed leaseUntil))
  | released (t p : Task) (hc : c.releases = some p) (hid : p.id = id)
      (hfence : t.fence = p.fence) : TaskChange id c (some t) (some (t.released p.runAt))
  | removed (t p : Task) (hc : c.removes = some p) (hid : p.id = id) (hfence : t.fence = p.fence) :
      TaskChange id c (some t) none

/-- The tasks a commit may put, seen from one ID. -/
theorem task_change_insert {t : Task} {key : String} {tasks : Table Task}
    (h : key = id → TaskChange id c (tasks.lookup id) (some t)) :
    TaskChange id c (tasks.lookup id) ((tasks.insert key t).lookup id) := by
  by_cases hid : id = key
  · subst hid
    rw [Finmap.lookup_insert]
    exact h rfl
  · rw [Finmap.lookup_insert_of_ne tasks hid]
    exact .same _

/-- The tasks a commit may remove, seen from one ID. -/
theorem task_change_erase {key : String} {tasks : Table Task}
    (h : key = id → TaskChange id c (tasks.lookup id) none) :
    TaskChange id c (tasks.lookup id) ((tasks.erase key).lookup id) := by
  by_cases hid : id = key
  · subst hid
    rw [Finmap.lookup_erase]
    exact h rfl
  · rw [Finmap.lookup_erase_ne hid]
    exact .same _

theorem mem_task_values {t : Task} (hkeys : TaskKeys s) (h : t ∈ s.taskValues) :
    s.tasks.lookup t.id = some t := by
  obtain ⟨⟨key, u⟩, hentry, rfl⟩ := Multiset.mem_map.mp h
  have hlookup : s.tasks.lookup key = some u := Finmap.lookup_eq_some_iff.mpr hentry
  rw [hkeys key u hlookup]
  exact hlookup

/-- What a commit does to one task. -/
theorem commit_task_change (hkeys : TaskKeys s) (h : Commit s c s') :
    TaskChange id c (s.tasks.lookup id) (s'.tasks.lookup id) := by
  cases h with
  | createAccount a _ _ _ _ _ hs' =>
      subst hs'
      exact .same _
  | updateAccount a _ _ _ _ _ _ hs' =>
      subst hs'
      exact .same _
  | createOrder n _ _ _ _ base hbase =>
      obtain ⟨_, _, heq⟩ := add_resources_eq base n.initial
      obtain ⟨_, rfl⟩ := hbase.frame
      rw [heq]
      exact .same _
  | updateAuthorization a =>
      unfold Store.invalidateOrder
      split
      · split <;> exact .same _
      · exact .same _
  | acceptChallenge r _ _ _ _ hnew =>
      refine task_change_insert fun hid => ?_
      subst hid
      rw [show s.tasks.lookup r.task.enqueued.id = none from hnew]
      exact .enqueued r.task rfl rfl
  | finalizeOrder f _ _ _ _ hnew =>
      refine task_change_insert fun hid => ?_
      subst hid
      rw [show s.tasks.lookup f.task.enqueued.id = none from hnew]
      exact .enqueued f.task rfl rfl
  | claimTask now leaseUntil t hstored hclaimable =>
      refine task_change_insert fun hid => ?_
      subst hid
      rw [mem_task_values hkeys hstored]
      exact .claimed t now leaseUntil rfl rfl hclaimable
  | rescheduleTask t stored hstored hfence =>
      refine task_change_insert fun hid => ?_
      subst hid
      rw [hstored]
      exact .released stored t rfl rfl hfence
  | retryValidation r stored _ hstored hfence =>
      refine task_change_insert fun hid => ?_
      subst hid
      rw [hstored]
      exact .released stored r.task rfl rfl hfence
  | finishTask t stored hstored hfence =>
      refine task_change_erase fun hid => ?_
      subst hid
      rw [hstored]
      exact .removed stored t rfl rfl hfence
  | completeValidation v stored _ _ _ hstored hfence =>
      refine task_change_erase fun hid => ?_
      subst hid
      rw [hstored]
      exact .removed stored v.task rfl rfl hfence
  | completeIssuance i stored _ hstored hfence _ _ base hbase =>
      obtain ⟨_, _, rfl⟩ := hbase.frame
      refine task_change_erase fun hid => ?_
      subst hid
      rw [hstored]
      exact .removed stored i.task rfl rfl hfence
  | beginIssuance | updateCertificate | read => exact .same _

theorem task_change_id {before after : Option Task} (h : TaskChange id c before after)
    (hbefore : ∀ t, before = some t → t.id = id) : ∀ t, after = some t → t.id = id := by
  cases h with
  | same => exact hbefore
  | enqueued t _ hid =>
      rintro _ ⟨⟩
      exact hid
  | claimed t _ _ _ hid =>
      rintro _ ⟨⟩
      exact hid
  | released t =>
      rintro _ ⟨⟩
      exact hbefore t rfl
  | removed => rintro _ ⟨⟩

theorem commit_task_keys (hkeys : TaskKeys s) (h : Commit s c s') : TaskKeys s' :=
  fun key => task_change_id (commit_task_change hkeys h) (hkeys key)

/-- A method that only reads presents no task. -/
theorem presents_task_of_read (h : c.mutates = false) : c.presentsTask = none := by
  cases c <;> first | rfl | cases h

/-- A commit finds the task it presents at the presented fence. -/
theorem commit_presents_task {p : Task} (h : Commit s c s') (hp : c.presentsTask = some p) :
    ∃ stored, s.tasks.lookup p.id = some stored ∧ stored.fence = p.fence := by
  cases h with
  | rescheduleTask t stored hstored hfence | finishTask t stored hstored hfence =>
      cases hp
      exact ⟨stored, hstored, hfence⟩
  | retryValidation r stored _ hstored hfence =>
      cases hp
      exact ⟨stored, hstored, hfence⟩
  | completeValidation v stored _ _ _ hstored hfence =>
      cases hp
      exact ⟨stored, hstored, hfence⟩
  | completeIssuance i stored _ hstored hfence =>
      cases hp
      exact ⟨stored, hstored, hfence⟩
  | beginIssuance d stored _ _ _ hstored hfence =>
      cases hp
      exact ⟨stored, hstored, hfence⟩
  | read c hread =>
      rw [presents_task_of_read hread] at hp
      cases hp
  | _ => cases hp

/-- A method that only reads neither releases nor removes a task. -/
theorem settles_of_read (h : c.mutates = false) : c.releases = none ∧ c.removes = none := by
  cases c <;> first | exact ⟨rfl, rfl⟩ | cases h

/-- A commit that removes a task leaves none under its ID. -/
theorem commit_removes {p : Task} (h : Commit s c s') (hp : c.removes = some p) :
    s'.tasks.lookup p.id = none := by
  cases h with
  | finishTask =>
      cases hp
      exact Finmap.lookup_erase _ _
  | completeValidation =>
      cases hp
      exact Finmap.lookup_erase _ _
  | completeIssuance i _ _ _ _ _ _ base hbase =>
      cases hp
      obtain ⟨_, _, rfl⟩ := hbase.frame
      exact Finmap.lookup_erase _ _
  | read c hread =>
      rw [(settles_of_read hread).2] at hp
      cases hp
  | _ => cases hp

/-- A commit that releases a task leaves it without a lease. -/
theorem commit_releases {p : Task} (h : Commit s c s') (hp : c.releases = some p) :
    ∃ t, s'.tasks.lookup p.id = some t ∧ t.leaseUntil = 0 := by
  cases h with
  | rescheduleTask t stored =>
      cases hp
      exact ⟨_, Finmap.lookup_insert _, rfl⟩
  | retryValidation r stored =>
      cases hp
      exact ⟨_, Finmap.lookup_insert _, rfl⟩
  | read c hread =>
      rw [(settles_of_read hread).1] at hp
      cases hp
  | _ => cases hp

/-! ## Refused calls -/

/-- The claim of the task is lost: the task is gone or another claim has raised its fence. -/
def Lost (s : Store) (t : Task) : Prop :=
  ∀ stored, s.tasks.lookup t.id = some stored → stored.fence ≠ t.fence

section Refused

variable {A : Type} {ctx : Option ContextError} {frame frame' : Frame A} {e : StoreError}

theorem check_context_error (h : exec (checkContext ctx : Op A Unit) frame = (.error e, frame')) :
    ∃ cause, e = .context cause := by
  cases ctx with
  | none => cases h
  | some cause =>
      cases h
      exact ⟨cause, rfl⟩

theorem check_task_error {t : Task}
    (h : exec (checkTask t : Op A Task) frame = (.error e, frame')) : Lost frame.store t := by
  intro stored hstored hfence
  have hok : exec (checkTask t : Op A Task) frame = (.ok stored, frame) :=
    check_task_ok.mpr ⟨⟨hstored, hfence⟩, rfl⟩
  rw [hok] at h
  cases h

/-- Why a method that presents a claimed task fails: its context has ended, the claim is lost, or
the rest of the method fails. -/
theorem fenced_error {task : A → Task} {next : A → Task → Op A Unit}
    (h : exec (do
      checkContext ctx
      let args ← getArgs
      let stored ← checkTask (task args)
      next args stored) frame = (.error e, frame')) :
    (∃ cause, e = .context cause) ∨ Lost frame.store (task frame.args) ∨
      ∃ stored, exec (next frame.args stored) frame = (.error e, frame') := by
  rcases bind_error.mp h with hctx | ⟨_, _, hctx, hread⟩
  · exact .inl (check_context_error hctx)
  · obtain ⟨_, rfl⟩ := check_context_ok.mp hctx
    rcases bind_error.mp hread with hargs | ⟨_, _, hargs, hfenced⟩
    · cases hargs
    · obtain ⟨rfl, rfl⟩ := get_args_ok.mp hargs
      rcases bind_error.mp hfenced with htask | ⟨stored, _, htask, hrest⟩
      · exact .inr (.inl (check_task_error htask))
      · obtain ⟨_, rfl⟩ := check_task_ok.mp htask
        exact .inr (.inr ⟨stored, hrest⟩)

/-- A record that is stored is refused for its revision only. -/
theorem check_revision_error {V : Type} {stored : Option V} {revisionOf : V → Nat} {revision : Nat}
    (h : exec (checkRevision stored revisionOf revision : Op A Unit) frame = (.error e, frame'))
    (hcurrent : e ≠ .revisionMismatch) : stored = none := by
  rcases bind_error.mp h with hstored | ⟨_, _, _, hrevision⟩
  · exact (get_or_error.mp hstored).1
  · exact absurd (fail_if_error.mp hrevision).2.1 hcurrent

end Refused

section Apply

variable {env : CallEnv} {e : StoreError}

theorem reschedule_task_error {t : Task}
    (h : (s.apply env (.rescheduleTask t)).1.result = .error e) :
    (∃ cause, e = .context cause) ∨ Lost s t := by
  have hrun := (atomic_op env (.rescheduleTask t)).exec_eq h
  rcases fenced_error hrun with hctx | hlost | ⟨_, hrest⟩
  · exact .inl hctx
  · exact .inr hlost
  · cases hrest

theorem finish_task_error {t : Task} (h : (s.apply env (.finishTask t)).1.result = .error e) :
    (∃ cause, e = .context cause) ∨ Lost s t := by
  have hrun := (atomic_op env (.finishTask t)).exec_eq h
  rcases fenced_error hrun with hctx | hlost | ⟨_, hrest⟩
  · exact .inl hctx
  · exact .inr hlost
  · cases hrest

theorem retry_validation_error {r : Retry}
    (h : (s.apply env (.retryValidation r)).1.result = .error e)
    (hcurrent : e ≠ .revisionMismatch) :
    (∃ cause, e = .context cause) ∨ Lost s r.task ∨ s.challenges.lookup r.challenge.id = none := by
  have hrun := (atomic_op env (.retryValidation r)).exec_eq h
  rcases fenced_error hrun with hctx | hlost | ⟨_, hrest⟩
  · exact .inl hctx
  · exact .inr (.inl hlost)
  · refine .inr (.inr ?_)
    rcases bind_error.mp hrest with hchallenge | ⟨_, _, hchallenge, hrest⟩
    · exact check_revision_error hchallenge hcurrent
    · obtain ⟨_, rfl⟩ := check_challenge_ok.mp hchallenge
      cases hrest

end Apply
/-! ## Traces -/

/-- A call of a run with the store on which it is executed. -/
structure Entry where
  before : Store
  env : CallEnv
  call : StoreCall

namespace Entry

/-- The call returns without an error. -/
def Succeeds (e : Entry) : Prop :=
  e.env.Fits e.before ∧ ∃ v, (e.before.apply e.env e.call).1.result = .ok v

/-- The store after the call. -/
def after (e : Entry) : Store := e.before.step (e.env, e.call)

/-- A claim at the given time that returns the task. -/
def Claims (e : Entry) (now : Time) (t : Task) : Prop :=
  e.env.Fits e.before ∧ ∃ leaseUntil, e.call = .claimTask now leaseUntil ∧
    (e.before.apply e.env (.claimTask now leaseUntil)).1.result = .ok t

/-- The call releases the task, presenting the fence. -/
def Releases (e : Entry) (id : String) (fence : Nat) : Prop :=
  e.Succeeds ∧ ∃ t, e.call.releases = some t ∧ t.id = id ∧ t.fence = fence

/-- The call removes the task. -/
def Removes (e : Entry) (id : String) : Prop :=
  e.before.tasks.lookup id ≠ none ∧ e.after.tasks.lookup id = none

/-- The call enqueues a task with the ID. -/
def Enqueues (e : Entry) (id : String) : Prop := ∃ t, e.call.enqueues = some t ∧ t.id = id

end Entry

/-- The calls of a run, each with the store on which it is executed. -/
def Store.trace (s : Store) : List (CallEnv × StoreCall) → List Entry
  | [] => []
  | (env, c) :: rest => ⟨s, env, c⟩ :: (s.step (env, c)).trace rest

/-- The ID of a removed task is never enqueued again. -/
def NeverReused (trace : List Entry) : Prop :=
  trace.Pairwise fun e later => ∀ id, e.Removes id → ¬ later.Enqueues id

/-- A run in two parts: the second part starts where the first one ends. -/
theorem trace_split {calls : List (CallEnv × StoreCall)} {first second : List Entry}
    (h : s.trace calls = first ++ second) :
    ∃ calls₁ calls₂, s.trace calls₁ = first ∧ (s.run calls₁).trace calls₂ = second := by
  induction first generalizing s calls with
  | nil => exact ⟨[], calls, rfl, h⟩
  | cons e rest ih =>
      cases calls with
      | nil => cases h
      | cons call calls =>
          obtain ⟨env, c⟩ := call
          simp only [Store.trace, List.cons_append, List.cons.injEq] at h
          obtain ⟨calls₁, calls₂, hfirst, hsecond⟩ := ih h.2
          exact ⟨(env, c) :: calls₁, calls₂, by simp [Store.trace, hfirst, h.1], hsecond⟩

/-- The first entry of a run is executed on its first store. -/
theorem trace_head {calls : List (CallEnv × StoreCall)} {e : Entry} {rest : List Entry}
    (h : s.trace calls = e :: rest) :
    e.before = s ∧ ∃ calls', e.after.trace calls' = rest := by
  cases calls with
  | nil => cases h
  | cons call calls =>
      obtain ⟨env, c⟩ := call
      cases h
      exact ⟨rfl, calls, rfl⟩

theorem step_task_keys (hkeys : TaskKeys s) (call : CallEnv × StoreCall) :
    TaskKeys (s.step call) := by
  unfold Store.step
  split
  · rename_i hfits
    rcases after_eq_or_commit (c := call.2) hfits with hsame | hcommit
    · rwa [hsame]
    · exact commit_task_keys hkeys hcommit
  · exact hkeys

theorem run_task_keys (hkeys : TaskKeys s) (calls : List (CallEnv × StoreCall)) :
    TaskKeys (s.run calls) := by
  induction calls generalizing s with
  | nil => exact hkeys
  | cons call rest ih => exact ih (step_task_keys hkeys call)

theorem new_task_keys : TaskKeys Store.new := by
  intro key t h
  simp [Store.new] at h

/-- An entry leaves a task alone, or its call succeeds and changes the task. -/
theorem entry_task_change {e : Entry} (hkeys : TaskKeys e.before) (id : String) :
    e.after.tasks.lookup id = e.before.tasks.lookup id ∨
      (e.Succeeds ∧ TaskChange id e.call (e.before.tasks.lookup id) (e.after.tasks.lookup id)) := by
  unfold Entry.after Store.step
  split
  · rename_i hfits
    cases hresult : (e.before.apply e.env e.call).1.result with
    | error err =>
        rw [show e.before.after e.env e.call = e.before from (apply_error hresult).1]
        exact .inl rfl
    | ok v => exact .inr ⟨⟨hfits, v, hresult⟩,
        commit_task_change hkeys (commit_of_ok hfits hresult)⟩
  · exact .inl rfl

/-! ## One task along a run -/

/-- A claim takes a claimable task and stores what it returns. -/
theorem claim_entry {e : Entry} {now : Time} {t : Task} (hkeys : TaskKeys e.before)
    (h : e.Claims now t) :
    ∃ best leaseUntil, e.before.tasks.lookup t.id = some best ∧ best.claimable now ∧
      t = best.claimed leaseUntil ∧ e.after = e.before.putTask t.id t := by
  obtain ⟨hfits, leaseUntil, hcall, hresult⟩ := h
  obtain ⟨-, best, hstored, hclaimable, rfl, hafter⟩ := claim_task_commit hfits (exec_of_ok hresult)
  refine ⟨best, leaseUntil, mem_task_values hkeys hstored, hclaimable, rfl, ?_⟩
  unfold Entry.after Store.step
  rw [if_pos hfits, hcall]
  exact hafter

/-- A call that raises the fence of a task is a claim of it. -/
theorem claims_of_change {e : Entry} {now leaseUntil : Time} {t : Task} (hkeys : TaskKeys e.before)
    (hsucceeds : e.Succeeds) (hcall : e.call = .claimTask now leaseUntil)
    (hbefore : e.before.tasks.lookup id = some t)
    (hafter : e.after.tasks.lookup id = some (t.claimed leaseUntil)) :
    ∃ u, e.Claims now u ∧ u.id = id := by
  obtain ⟨before, env, c⟩ := e
  cases hcall
  obtain ⟨hfits, u, hresult⟩ := hsucceeds
  have hclaims : Entry.Claims ⟨before, env, .claimTask now leaseUntil⟩ now u :=
    ⟨hfits, leaseUntil, rfl, hresult⟩
  refine ⟨u, hclaims, ?_⟩
  obtain ⟨_, _, _, _, _, hstore⟩ := claim_entry hkeys hclaims
  by_contra hother
  rw [hstore, Store.putTask_tasks, Finmap.lookup_insert_of_ne _ (Ne.symm hother), hbefore] at hafter
  have hfence := congrArg Task.fence (Option.some.inj hafter)
  simp at hfence

/-- A task that is gone stays away unless its ID is enqueued again. -/
theorem gone_run {calls : List (CallEnv × StoreCall)} (hkeys : TaskKeys s)
    (hgone : s.tasks.lookup id = none) (hfresh : ∀ e ∈ s.trace calls, ¬ e.Enqueues id) :
    (∀ e ∈ s.trace calls, e.before.tasks.lookup id = none) ∧
      (s.run calls).tasks.lookup id = none := by
  induction calls generalizing s with
  | nil => exact ⟨by simp [Store.trace], hgone⟩
  | cons call rest ih =>
      obtain ⟨env, c⟩ := call
      simp only [Store.trace, List.forall_mem_cons] at hfresh ⊢
      have hafter : (s.step (env, c)).tasks.lookup id = none := by
        rcases entry_task_change (e := ⟨s, env, c⟩) hkeys id with hsame | ⟨_, hchange⟩
        · exact hsame.trans hgone
        · simp only [hgone] at hchange
          generalize hlookup : (Entry.after ⟨s, env, c⟩).tasks.lookup id = after at hchange
          cases hchange with
          | same => exact hlookup
          | enqueued t hc hid => exact absurd ⟨t, hc, hid⟩ hfresh.1
      obtain ⟨hrest, hend⟩ := ih (step_task_keys hkeys (env, c)) hafter hfresh.2
      exact ⟨⟨hgone, hrest⟩, hend⟩

/-- The fence of a task never goes back. -/
theorem fence_run {calls : List (CallEnv × StoreCall)} {t : Task} (hkeys : TaskKeys s)
    (hheld : s.tasks.lookup id = some t) (hfresh : NeverReused (s.trace calls)) :
    ∀ e ∈ s.trace calls, ∀ t', e.before.tasks.lookup id = some t' → t.fence ≤ t'.fence := by
  induction calls generalizing s t with
  | nil => simp [Store.trace]
  | cons call rest ih =>
      obtain ⟨env, c⟩ := call
      have hkeys' := step_task_keys hkeys (env, c)
      simp only [NeverReused, Store.trace, List.pairwise_cons] at hfresh
      simp only [Store.trace, List.forall_mem_cons]
      refine ⟨fun t' ht' => by rw [hheld] at ht'; cases ht'; exact Nat.le_refl _, ?_⟩
      rcases entry_task_change (e := ⟨s, env, c⟩) hkeys id with hsame | ⟨_, hchange⟩
      · exact ih hkeys' (hsame.trans hheld) hfresh.2
      · simp only [hheld] at hchange
        generalize hlookup : (Entry.after ⟨s, env, c⟩).tasks.lookup id = after at hchange
        cases hchange with
        | same => exact ih hkeys' hlookup hfresh.2
        | claimed _ _ leaseUntil =>
            intro e he t' ht'
            have hle := ih hkeys' hlookup hfresh.2 e he t' ht'
            simp only [Task.claimed_fence] at hle
            omega
        | released t p =>
            have hle := ih hkeys' hlookup hfresh.2
            exact hle
        | removed =>
            have hremoves : Entry.Removes ⟨s, env, c⟩ id := ⟨by simp [hheld], hlookup⟩
            have hnone := (gone_run hkeys' hlookup fun e he => hfresh.1 e he id hremoves).1
            intro e he t' ht'
            rw [hnone e he] at ht'
            cases ht'

/-- Between two claims a task keeps its fence, and its lease unless it is released. -/
theorem unclaimed_run {calls : List (CallEnv × StoreCall)} {t : Task} (hkeys : TaskKeys s)
    (hheld : s.tasks.lookup id = some t) (hfresh : NeverReused (s.trace calls))
    (hunclaimed : ∀ e ∈ s.trace calls, ∀ now u, e.Claims now u → u.id ≠ id) :
    (s.run calls).tasks.lookup id = none ∨
      ∃ t', (s.run calls).tasks.lookup id = some t' ∧ t'.fence = t.fence ∧
        (t'.leaseUntil = t.leaseUntil ∨ ∃ e ∈ s.trace calls, e.Releases id t.fence) := by
  induction calls generalizing s t with
  | nil => exact .inr ⟨t, hheld, rfl, .inl rfl⟩
  | cons call rest ih =>
      obtain ⟨env, c⟩ := call
      have hkeys' := step_task_keys hkeys (env, c)
      simp only [NeverReused, Store.trace, List.pairwise_cons] at hfresh
      simp only [Store.trace, List.forall_mem_cons] at hunclaimed ⊢
      -- What the rest of the run does if this call leaves the task with the same fence.
      have hrest {t₁ : Task} (hlookup : (s.step (env, c)).tasks.lookup id = some t₁)
          (hfence : t₁.fence = t.fence)
          (hlease : t₁.leaseUntil = t.leaseUntil ∨ Entry.Releases ⟨s, env, c⟩ id t.fence) :
          (s.run ((env, c) :: rest)).tasks.lookup id = none ∨
            ∃ t', (s.run ((env, c) :: rest)).tasks.lookup id = some t' ∧ t'.fence = t.fence ∧
              (t'.leaseUntil = t.leaseUntil ∨
                ∃ e ∈ ⟨s, env, c⟩ :: (s.step (env, c)).trace rest, e.Releases id t.fence) := by
        rcases ih hkeys' hlookup hfresh.2 hunclaimed.2 with hgone | ⟨t', ht', hf, hl⟩
        · exact .inl hgone
        · refine .inr ⟨t', ht', hf.trans hfence, ?_⟩
          rw [hfence] at hl
          rcases hl with hl | ⟨e, he, hl⟩
          · exact hlease.imp (hl.trans ·) fun h => ⟨_, List.mem_cons_self, h⟩
          · exact .inr ⟨e, List.mem_cons_of_mem _ he, hl⟩
      rcases entry_task_change (e := ⟨s, env, c⟩) hkeys id with hsame | ⟨hsucceeds, hchange⟩
      · exact hrest (hsame.trans hheld) rfl (.inl rfl)
      · simp only [hheld] at hchange
        generalize hlookup : (Entry.after ⟨s, env, c⟩).tasks.lookup id = after at hchange
        cases hchange with
        | same => exact hrest hlookup rfl (.inl rfl)
        | claimed t now leaseUntil hcall =>
            obtain ⟨u, hclaims, hid⟩ := claims_of_change hkeys hsucceeds hcall hheld hlookup
            exact absurd hid (hunclaimed.1 now u hclaims)
        | released t p hc hid hfence =>
            exact hrest hlookup rfl (.inr ⟨hsucceeds, p, hc, hid, hfence.symm⟩)
        | removed =>
            have hremoves : Entry.Removes ⟨s, env, c⟩ id := ⟨by simp [hheld], hlookup⟩
            exact .inl (gone_run hkeys' hlookup fun e he => hfresh.1 e he id hremoves).2

/-! ## Claims of a whole run -/

section Claims

variable {calls : List (CallEnv × StoreCall)} {first between last : List Entry} {e e' : Entry}

/-- The run after one of its calls. -/
theorem trace_after (h : Store.new.trace calls = first ++ e :: last) :
    TaskKeys e.before ∧ ∃ calls', e.after.trace calls' = last := by
  obtain ⟨calls₁, _, _, hsecond⟩ := trace_split h
  obtain ⟨hbefore, calls', hafter⟩ := trace_head hsecond
  exact ⟨hbefore ▸ run_task_keys new_task_keys calls₁, calls', hafter⟩

/-- The run between two of its calls. -/
theorem trace_between (h : Store.new.trace calls = first ++ e :: (between ++ e' :: last)) :
    ∃ calls', e.after.trace calls' = between ∧ e.after.run calls' = e'.before := by
  obtain ⟨_, calls₁, hafter⟩ := trace_after h
  obtain ⟨calls', _, hbetween, hlast⟩ := trace_split hafter
  exact ⟨calls', hbetween, (trace_head hlast).1.symm⟩

theorem never_reused_after (h : NeverReused (first ++ e :: last)) : NeverReused last :=
  (List.pairwise_cons.mp (List.pairwise_append.mp h).2.1).2

/-- The next claim of a task gets the next fence. It comes after the end of the lease, or the lease
was the zero time, or the holder has released the task. -/
theorem next_claim {now now' : Time} {t t' : Task}
    (htrace : Store.new.trace calls = first ++ e :: (between ++ e' :: last))
    (hfresh : NeverReused (Store.new.trace calls)) (hclaim : e.Claims now t)
    (hclaim' : e'.Claims now' t') (hid : t'.id = t.id)
    (hnext : ∀ x ∈ between, ∀ now u, x.Claims now u → u.id ≠ t.id) :
    t'.fence = t.fence + 1 ∧ (t.leaseUntil ≤ now' ∨ t.leaseUntil = 0 ∨
      ∃ x ∈ between, x.Releases t.id t.fence) := by
  obtain ⟨hkeys, _⟩ := trace_after htrace
  obtain ⟨calls', hbetween, hend⟩ := trace_between htrace
  obtain ⟨_, _, _, _, _, hafter⟩ := claim_entry hkeys hclaim
  have hkeys' : TaskKeys e.after := step_task_keys hkeys (e.env, e.call)
  have hheld : e.after.tasks.lookup t.id = some t := by
    rw [hafter, Store.putTask_tasks, Finmap.lookup_insert]
  rw [htrace] at hfresh
  have hfresh' : NeverReused between := (List.pairwise_append.mp (never_reused_after hfresh)).1
  obtain ⟨best, leaseUntil, hbest, hclaimable, rfl, _⟩ :=
    claim_entry (hend ▸ run_task_keys hkeys' calls') hclaim'
  rcases unclaimed_run hkeys' hheld (hbetween ▸ hfresh') (hbetween ▸ hnext) with
    hgone | ⟨u, hu, hfence, hlease⟩
  · rw [hend, ← hid, hbest] at hgone
    cases hgone
  · rw [hend, ← hid, hbest] at hu
    cases hu
    refine ⟨by simp [hfence], ?_⟩
    rw [hbetween] at hlease
    rcases hlease with hlease | hreleased
    · have hopen := not_or.mp hclaimable
      rw [hlease] at hopen
      rcases lt_or_ge now' t.leaseUntil with hbefore | hended
      · refine .inr (.inl ?_)
        by_contra hlease
        exact hopen.2 ⟨hlease, hbefore⟩
      · exact .inl hended
    · exact .inr (.inr hreleased)

/-- A call that presents an older fence than a claim made before fails. -/
theorem superseded_fails {now : Time} {t p : Task}
    (htrace : Store.new.trace calls = first ++ e :: (between ++ e' :: last))
    (hfresh : NeverReused (Store.new.trace calls)) (hclaim : e.Claims now t)
    (hp : e'.call.presentsTask = some p) (hid : p.id = t.id) (hfence : p.fence < t.fence)
    (hfits : e'.env.Fits e'.before) :
    ∃ err, (e'.before.apply e'.env e'.call).1.result = .error err := by
  cases hresult : (e'.before.apply e'.env e'.call).1.result with
  | error err => exact ⟨err, rfl⟩
  | ok v =>
      obtain ⟨hkeys, calls', hrest⟩ := trace_after htrace
      obtain ⟨_, _, _, _, _, hafter⟩ := claim_entry hkeys hclaim
      have hkeys' : TaskKeys e.after := step_task_keys hkeys (e.env, e.call)
      have hheld : e.after.tasks.lookup t.id = some t := by
        rw [hafter, Store.putTask_tasks, Finmap.lookup_insert]
      obtain ⟨stored, hstored, hpresented⟩ :=
        commit_presents_task (commit_of_ok hfits hresult) hp
      -- The superseded call would have to find the task at a fence it has left behind.
      rw [htrace] at hfresh
      have hmem : e' ∈ e.after.trace calls' := by
        rw [hrest]
        simp
      have hle : t.fence ≤ stored.fence :=
        fence_run hkeys' hheld (hrest ▸ never_reused_after hfresh) e' hmem stored (hid ▸ hstored)
      omega

/-- In every run in which the ID of a removed task is never enqueued again: two claims of a task
with no claim of it in between get consecutive fences, and the second one is made when the first
lease has ended, or that lease is the zero time, or the task was released in between by a call that
presents the fence of the first claim; and after a claim every call that presents an older fence
of the task fails and changes nothing. -/
theorem claims_are_fenced (calls : List (CallEnv × StoreCall))
    (hfresh : NeverReused (Store.new.trace calls)) :
    (∀ (first between last : List Entry) (e e' : Entry) (now now' : Time) (t t' : Task),
      Store.new.trace calls = first ++ e :: (between ++ e' :: last) →
      e.Claims now t → e'.Claims now' t' → t'.id = t.id →
      (∀ x ∈ between, ∀ now u, x.Claims now u → u.id ≠ t.id) →
      t'.fence = t.fence + 1 ∧ (t.leaseUntil ≤ now' ∨ t.leaseUntil = 0 ∨
        ∃ x ∈ between, x.Releases t.id t.fence)) ∧
    (∀ (first between last : List Entry) (e e' : Entry) (now : Time) (t p : Task),
      Store.new.trace calls = first ++ e :: (between ++ e' :: last) →
      e.Claims now t → e'.env.Fits e'.before →
      e'.call.presentsTask = some p → p.id = t.id → p.fence < t.fence →
      (∃ err, (e'.before.apply e'.env e'.call).1.result = .error err) ∧
        (e'.before.apply e'.env e'.call).2 = e'.before) := by
  constructor
  · intro first between last e e' now now' t t' htrace hclaim hclaim' hid hnext
    exact next_claim htrace hfresh hclaim hclaim' hid hnext
  · intro first between last e e' now t p htrace hclaim hfits hp hid hfence
    obtain ⟨err, herr⟩ := superseded_fails htrace hfresh hclaim hp hid hfence hfits
    exact ⟨⟨err, herr⟩, (apply_error herr).1⟩

end Claims

/-! ## The zero lease -/

section ZeroLease

/-- A ready order without authorizations. -/
def readyOrder : Order :=
  { id := "order", accountID := "account", status := .ready, expires := 100, identifiers := []
    createdAt := -20 }

/-- The task of its finalization. -/
def issueTask : Task :=
  { id := "task", kind := .issue, targetID := "order", accountID := "account", runAt := -10
    createdAt := -10 }

/-- The order is finalized and its task claimed twice, the first time with the given lease. -/
def claimTwice (leaseUntil now : Time) : List (CallEnv × StoreCall) :=
  [({}, .createOrder ⟨readyOrder, [], []⟩),
    ({}, .finalizeOrder ⟨readyOrder.revised, issueTask⟩),
    (⟨none, [issueTask]⟩, .claimTask (-5) leaseUntil),
    (⟨none, [issueTask.claimed leaseUntil]⟩, .claimTask now 50)]

theorem claim_twice_never_reused (leaseUntil now : Time) :
    NeverReused (Store.new.trace (claimTwice leaseUntil now)) := by
  simp [NeverReused, Store.trace, claimTwice, Entry.Enqueues, StoreCall.enqueues, Entry.Removes,
    Store.new]

/-- The store when the task has been enqueued. -/
def enqueuedStore : Store := Store.new.run ((claimTwice 0 0).take 2)

/-- The first claim of the task. -/
def firstClaim (leaseUntil : Time) : Entry :=
  ⟨enqueuedStore, ⟨none, [issueTask]⟩, .claimTask (-5) leaseUntil⟩

/-- The second claim of the task. -/
def secondClaim (leaseUntil now : Time) : Entry :=
  ⟨(firstClaim leaseUntil).after, ⟨none, [issueTask.claimed leaseUntil]⟩, .claimTask now 50⟩

/-- The trace of the two claims. -/
theorem claim_twice_trace (leaseUntil now : Time) :
    Store.new.trace (claimTwice leaseUntil now) =
      (Store.new.trace (claimTwice leaseUntil now)).take 2 ++
        firstClaim leaseUntil :: ([] ++ secondClaim leaseUntil now :: []) := rfl

/-- When the lease of the first claim is over, the second one gets the next fence. -/
theorem second_claim_is_fenced :
    ((issueTask.claimed 10).claimed 50).fence = (issueTask.claimed 10).fence + 1 := by
  have hfirst : (firstClaim 10).Claims (-5) (issueTask.claimed 10) :=
    ⟨by decide +kernel, 10, rfl, by decide +kernel⟩
  have hsecond : (secondClaim 10 20).Claims 20 ((issueTask.claimed 10).claimed 50) :=
    ⟨by decide +kernel, 50, rfl, by decide +kernel⟩
  exact ((claims_are_fenced (claimTwice 10 20) (claim_twice_never_reused 10 20)).1
    _ _ _ _ _ _ _ _ _ (claim_twice_trace 10 20) hfirst hsecond rfl (by simp)).1

/-- A lease that ends at the zero time does not protect a claim, not even from a claim at an
earlier time: the store takes the zero time for a released task. -/
theorem zero_lease_does_not_protect :
    NeverReused (Store.new.trace (claimTwice 0 (-5))) ∧
    ∃ first between t t', Store.new.trace (claimTwice 0 (-5)) =
        first ++ firstClaim 0 :: (between ++ secondClaim 0 (-5) :: []) ∧
      (firstClaim 0).Claims (-5) t ∧ (secondClaim 0 (-5)).Claims (-5) t' ∧ t'.id = t.id ∧
      (∀ x ∈ between, ∀ now u, x.Claims now u → u.id ≠ t.id) ∧
      ¬ (t.leaseUntil ≤ -5 ∨ ∃ x ∈ between, x.Releases t.id t.fence) := by
  have hfirst : (firstClaim 0).Claims (-5) (issueTask.claimed 0) :=
    ⟨by decide +kernel, 0, rfl, by decide +kernel⟩
  have hsecond : (secondClaim 0 (-5)).Claims (-5) ((issueTask.claimed 0).claimed 50) :=
    ⟨by decide +kernel, 50, rfl, by decide +kernel⟩
  exact ⟨claim_twice_never_reused 0 (-5), _, [], _, _, claim_twice_trace 0 (-5), hfirst, hsecond,
    rfl, by simp, by simp⟩

end ZeroLease

end AcmeServer.Memstore
