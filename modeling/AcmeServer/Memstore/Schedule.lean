import Mathlib.Data.Prod.Lex
import AcmeServer.Memstore.Fence
import AcmeServer.Search.Least

/-!
# The order in which tasks are claimed

`ClaimTask` ranges over the task map in no particular order and breaks ties with a second map of
insertion numbers. `enqueueOrder` says from the calls alone which of the stored tasks was enqueued
first, and `Numbered` is the invariant that the insertion numbers follow it through inserts,
removals, releases and IDs that are enqueued again. With it, the loop is a search for the least task
by run time and enqueue order (`claim_task_schedule`), and the counts split the stored tasks.
-/

namespace AcmeServer.Memstore

open Transaction

variable {s s' : Store} {c : StoreCall} {q : List String}

/-! ## The enqueue order -/

/-- Whether a task is stored under the ID. -/
def Store.hasTask (s : Store) (id : String) : Bool := (s.tasks.lookup id).isSome

/-- The ID of the task that the call has added to the store. -/
def StoreCall.added (c : StoreCall) (s s' : Store) : List String :=
  match c.enqueues with
  | some t => if s.hasTask t.id = false ∧ s'.hasTask t.id then [t.id] else []
  | none => []

/-- The IDs of the stored tasks after a call, oldest first. -/
def enqueueStep (state : Store × List String) (call : CallEnv × StoreCall) : Store × List String :=
  let next := state.1.step call
  (next, state.2.filter next.hasTask ++ call.2.added state.1 next)

/-- The IDs of the tasks that are stored after the calls, in the order they were enqueued. -/
def enqueueOrder (calls : List (CallEnv × StoreCall)) : List String :=
  (calls.foldl enqueueStep (Store.new, [])).2

/-! ## What a commit does to the insertion numbers -/

/-- The number under which `insertTask` has stored the task. -/
def Store.insertion (s : Store) (id : String) : Nat := (s.taskInsertion.lookup id).getD 0

/-- What a call can do to the set of stored tasks and their insertion numbers. -/
inductive ScheduleChange (s : Store) (c : StoreCall) (s' : Store) : Prop where
  | kept (hstored : ∀ id, s'.hasTask id = s.hasTask id)
      (hinsertion : s'.taskInsertion = s.taskInsertion)
      (hsequence : s'.taskSequence = s.taskSequence)
  | enqueued (t : Task) (hc : c.enqueues = some t) (hnew : s.hasTask t.id = false)
      (htasks : s'.tasks = s.tasks.insert t.id t.enqueued)
      (hinsertion : s'.taskInsertion = s.taskInsertion.insert t.id (s.taskSequence + 1))
      (hsequence : s'.taskSequence = s.taskSequence + 1)
  | removed (id : String) (htasks : s'.tasks = s.tasks.erase id)
      (hinsertion : s'.taskInsertion = s.taskInsertion.erase id)
      (hsequence : s'.taskSequence = s.taskSequence)

theorem has_task_insert (s : Store) (id key : String) (t : Task) :
    (s.putTask key t).hasTask id = (decide (id = key) || s.hasTask id) := by
  unfold Store.hasTask
  by_cases hid : id = key
  · subst hid
    simp
  · simp [hid, Finmap.lookup_insert_of_ne]

/-- Replacing a stored task keeps the schedule. -/
theorem schedule_put_task {key : String} {stored : Task} (t : Task)
    (hstored : s.tasks.lookup key = some stored) (htasks : s'.tasks = (s.putTask key t).tasks)
    (hinsertion : s'.taskInsertion = s.taskInsertion)
    (hsequence : s'.taskSequence = s.taskSequence) : ScheduleChange s c s' := by
  refine .kept (fun id => ?_) hinsertion hsequence
  have hput := has_task_insert s id key t
  unfold Store.hasTask at hput ⊢
  rw [htasks, hput]
  by_cases hid : id = key
  · subst hid
    simp [hstored]
  · simp [hid]

theorem schedule_unchanged (htasks : s'.tasks = s.tasks)
    (hinsertion : s'.taskInsertion = s.taskInsertion)
    (hsequence : s'.taskSequence = s.taskSequence) : ScheduleChange s c s' :=
  .kept (fun id => by rw [Store.hasTask, htasks, Store.hasTask]) hinsertion hsequence

theorem commit_schedule_change (hkeys : TaskKeys s) (h : Commit s c s') :
    ScheduleChange s c s' := by
  cases h with
  | createAccount a _ _ _ _ _ hs' =>
      subst hs'
      exact schedule_unchanged rfl rfl rfl
  | updateAccount a _ _ _ _ _ _ hs' =>
      subst hs'
      exact schedule_unchanged rfl rfl rfl
  | createOrder n _ _ _ _ base hbase =>
      obtain ⟨_, _, heq⟩ := add_resources_eq base n.initial
      obtain ⟨_, rfl⟩ := hbase.frame
      rw [heq]
      exact schedule_unchanged rfl rfl rfl
  | updateAuthorization a =>
      unfold Store.invalidateOrder
      split
      · split <;> exact schedule_unchanged rfl rfl rfl
      · exact schedule_unchanged rfl rfl rfl
  | acceptChallenge r _ _ _ _ hnew =>
      exact .enqueued r.task rfl (by simp [Store.hasTask, hnew]) rfl rfl rfl
  | finalizeOrder f _ _ _ _ hnew =>
      exact .enqueued f.task rfl (by simp [Store.hasTask, hnew]) rfl rfl rfl
  | claimTask now leaseUntil t hstored =>
      exact schedule_put_task _ (mem_task_values hkeys hstored) rfl rfl rfl
  | rescheduleTask t stored hstored => exact schedule_put_task _ hstored rfl rfl rfl
  | retryValidation r stored _ hstored => exact schedule_put_task _ hstored rfl rfl rfl
  | finishTask t => exact .removed t.id rfl rfl rfl
  | completeValidation v => exact .removed v.task.id rfl rfl rfl
  | completeIssuance i _ _ _ _ _ _ base hbase =>
      obtain ⟨_, _, rfl⟩ := hbase.frame
      exact .removed i.task.id rfl rfl rfl
  | beginIssuance | updateCertificate | read => exact schedule_unchanged rfl rfl rfl

/-! ## The insertion numbers follow the enqueue order -/

/-- The list holds the IDs of the stored tasks, and the insertion numbers increase along it. -/
structure Numbered (s : Store) (q : List String) : Prop where
  mem : ∀ id, id ∈ q ↔ s.hasTask id
  increasing : q.Pairwise fun id id' => s.insertion id < s.insertion id'
  le : ∀ id ∈ q, s.insertion id ≤ s.taskSequence

theorem numbered_new : Numbered Store.new [] where
  mem _ := by simp [Store.hasTask, Store.new]
  increasing := .nil
  le _ h := absurd h List.not_mem_nil

theorem schedule_change_numbered (h : Numbered s q) (hchange : ScheduleChange s c s') :
    Numbered s' (q.filter s'.hasTask ++ c.added s s') := by
  cases hchange with
  | kept hstored hinsertion hsequence =>
      have hnumber : s'.insertion = s.insertion := by
        funext id
        rw [Store.insertion, hinsertion, Store.insertion]
      have hadded : c.added s s' = [] := by
        unfold StoreCall.added
        cases c.enqueues with
        | none => rfl
        | some t => simp [hstored]
      have hfilter : q.filter s'.hasTask = q := by
        refine List.filter_eq_self.2 fun id hid => ?_
        rw [hstored]
        exact (h.mem id).1 hid
      rw [hadded, hfilter, List.append_nil]
      exact ⟨fun id => by rw [h.mem, hstored], hnumber ▸ h.increasing,
        fun id hid => by rw [hnumber, hsequence]; exact h.le id hid⟩
  | enqueued t hc hnew htasks hinsertion hsequence =>
      have hhas : ∀ id, s'.hasTask id = (decide (id = t.id) || s.hasTask id) := by
        intro id
        rw [← has_task_insert s id t.id t.enqueued, Store.hasTask, htasks]
        rfl
      have hadded : c.added s s' = [t.id] := by
        simp [StoreCall.added, hc, hnew, hhas]
      have hfilter : q.filter s'.hasTask = q := by
        refine List.filter_eq_self.2 fun id hid => ?_
        rw [hhas, (h.mem id).1 hid, Bool.or_true]
      -- The task is new, so that its number displaces none of the others.
      have hnumber : ∀ id ∈ q, s'.insertion id = s.insertion id := by
        intro id hid
        have hne : id ≠ t.id := by
          rintro rfl
          rw [(h.mem _).1 hid] at hnew
          cases hnew
        rw [Store.insertion, hinsertion, Finmap.lookup_insert_of_ne _ hne, Store.insertion]
      have hlast : s'.insertion t.id = s.taskSequence + 1 := by
        rw [Store.insertion, hinsertion, Finmap.lookup_insert, Option.getD_some]
      rw [hadded, hfilter]
      refine ⟨fun id => ?_, ?_, fun id hid => ?_⟩
      · rw [List.mem_append, List.mem_singleton, h.mem, hhas, Bool.or_eq_true, decide_eq_true_iff,
          or_comm]
      · refine List.pairwise_append.2 ⟨?_, List.pairwise_singleton _ _, fun id hid id' hid' => ?_⟩
        · refine h.increasing.imp_of_mem fun ha hb hlt => ?_
          rwa [hnumber _ ha, hnumber _ hb]
        · rw [List.mem_singleton.1 hid', hlast, hnumber id hid]
          exact Nat.lt_succ_of_le (h.le id hid)
      · rw [hsequence]
        rcases List.mem_append.1 hid with hid | hid
        · rw [hnumber id hid]
          exact (h.le id hid).trans (Nat.le_succ _)
        · rw [List.mem_singleton.1 hid, hlast]
  | removed key htasks hinsertion hsequence =>
      have hhas : ∀ id, s'.hasTask id = (decide (id ≠ key) && s.hasTask id) := by
        intro id
        unfold Store.hasTask
        rw [htasks]
        by_cases hid : id = key
        · subst hid
          simp
        · simp [hid, Finmap.lookup_erase_ne hid]
      have hadded : c.added s s' = [] := by
        unfold StoreCall.added
        cases c.enqueues with
        | none => rfl
        | some t => simp +contextual [hhas]
      have hnumber : ∀ id, s'.hasTask id → s'.insertion id = s.insertion id := by
        intro id hid
        rw [hhas, Bool.and_eq_true, decide_eq_true_iff] at hid
        rw [Store.insertion, hinsertion, Finmap.lookup_erase_ne hid.1, Store.insertion]
      rw [hadded, List.append_nil]
      refine ⟨fun id => ?_, ?_, fun id hid => ?_⟩
      · rw [List.mem_filter, h.mem, hhas]
        simp
      · refine (h.increasing.filter _).imp_of_mem fun ha hb hlt => ?_
        rwa [hnumber _ (List.mem_filter.1 ha).2, hnumber _ (List.mem_filter.1 hb).2]
      · obtain ⟨hid, hhas'⟩ := List.mem_filter.1 hid
        rw [hnumber id hhas', hsequence]
        exact h.le id hid

theorem step_numbered (hkeys : TaskKeys s) (h : Numbered s q) (call : CallEnv × StoreCall) :
    Numbered (s.step call) (enqueueStep (s, q) call).2 := by
  have hsame : ScheduleChange s call.2 s := schedule_unchanged rfl rfl rfl
  unfold enqueueStep Store.step
  dsimp only
  split
  · rename_i hfits
    rcases after_eq_or_commit (c := call.2) hfits with hafter | hcommit
    · rw [hafter]
      exact schedule_change_numbered h hsame
    · exact schedule_change_numbered h (commit_schedule_change hkeys hcommit)
  · exact schedule_change_numbered h hsame

theorem run_numbered (hkeys : TaskKeys s) (h : Numbered s q)
    (calls : List (CallEnv × StoreCall)) :
    Numbered (s.run calls) (calls.foldl enqueueStep (s, q)).2 := by
  induction calls generalizing s q with
  | nil => exact h
  | cons call rest ih => exact ih (step_task_keys hkeys call) (step_numbered hkeys h call)

/-- After any calls, the insertion numbers follow the enqueue order. -/
theorem enqueue_order_numbered (calls : List (CallEnv × StoreCall)) :
    Numbered (Store.new.run calls) (enqueueOrder calls) :=
  run_numbered new_task_keys numbered_new calls

/-- The older of two stored tasks has the smaller insertion number. -/
theorem Numbered.insertion_lt (h : Numbered s q) {id id' : String} (hid : id ∈ q) (hid' : id' ∈ q) :
    s.insertion id < s.insertion id' ↔ q.idxOf id < q.idxOf id' := by
  have hlt : ∀ {a b : String}, a ∈ q → b ∈ q → q.idxOf a < q.idxOf b →
      s.insertion a < s.insertion b := by
    intro a b ha hb hab
    have hpair := List.pairwise_iff_getElem.1 h.increasing (q.idxOf a) (q.idxOf b)
      (List.idxOf_lt_length_iff.2 ha) (List.idxOf_lt_length_iff.2 hb) hab
    rwa [List.getElem_idxOf, List.getElem_idxOf] at hpair
  refine ⟨fun hnumber => ?_, hlt hid hid'⟩
  rcases Nat.lt_trichotomy (q.idxOf id) (q.idxOf id') with hindex | hindex | hindex
  · exact hindex
  · rw [(List.idxOf_inj hid).1 hindex] at hnumber
    exact absurd hnumber (Nat.lt_irrefl _)
  · exact absurd (hlt hid' hid hindex) (Nat.lt_asymm hnumber)

/-! ## The task that is claimed -/

/-- The task may run at the given time: its run time has come and no lease on it ends later. -/
def Task.Due (now : Time) (t : Task) : Prop := t.runAt ≤ now ∧ t.leaseUntil ≤ now

/-- The task has a lease that ends after the given time. -/
def Task.Leased (now : Time) (t : Task) : Prop := now < t.leaseUntil

/-- The task waits for its run time without a lease. -/
def Task.Waiting (now : Time) (t : Task) : Prop := now < t.runAt ∧ ¬Task.Leased now t

instance (now : Time) (t : Task) : Decidable (Task.Due now t) :=
  inferInstanceAs (Decidable (_ ∧ _))

instance (now : Time) (t : Task) : Decidable (Task.Leased now t) :=
  inferInstanceAs (Decidable (_ < _))

instance (now : Time) (t : Task) : Decidable (Task.Waiting now t) :=
  inferInstanceAs (Decidable (_ ∧ _))

/-- The stored task is due, and every other one that is due has a later run time or was enqueued
after it with the same run time. -/
structure Next (s : Store) (order : List String) (now : Time) (t : Task) : Prop where
  stored : t ∈ s.taskValues
  due : Task.Due now t
  first : ∀ u ∈ s.taskValues, Task.Due now u → u ≠ t →
    t.runAt < u.runAt ∨ (t.runAt = u.runAt ∧ order.idxOf t.id < order.idxOf u.id)

variable {now : Time}

/-- After the zero time, a stored zero lease is like any lease that has ended. -/
theorem claimable_iff_due (hnow : 0 < now) (t : Task) : t.claimable now ↔ Task.Due now t := by
  unfold Task.claimable Task.Due
  rw [not_or, not_lt, not_and]
  refine and_congr_right fun _ => ⟨fun h => ?_, fun h _ => not_lt.2 h⟩
  by_cases hzero : t.leaseUntil = 0
  · rw [hzero]
    exact hnow.le
  · exact not_lt.1 (h hzero)

/-- What the loop compares: the run time, then the insertion number. -/
def Store.claimKey (s : Store) (t : Task) : Time ×ₗ Nat := toLex (t.runAt, s.insertion t.id)

/-- The loop of `ClaimTask` searches for the task with the least key. -/
theorem claim_round_eq (s : Store) (now : Time) :
    claimRound s now = Search.round (fun t : Task => t.claimable now) s.claimKey := by
  funext best t
  unfold claimRound Search.round
  cases best with
  | none => rfl
  | some b => simp only [Store.claimKey, Prod.Lex.toLex_lt_toLex, Store.insertion]

theorem mem_task_values_iff (hkeys : TaskKeys s) (t : Task) :
    t ∈ s.taskValues ↔ s.tasks.lookup t.id = some t := by
  refine ⟨mem_task_values hkeys, fun h => ?_⟩
  exact Multiset.mem_map.mpr ⟨⟨t.id, t⟩, Finmap.lookup_eq_some_iff.mp h, rfl⟩

theorem stored_mem (hkeys : TaskKeys s) (h : Numbered s q) {t : Task} (ht : t ∈ s.taskValues) :
    t.id ∈ q := by
  rw [h.mem, Store.hasTask, mem_task_values hkeys ht]
  rfl

/-- Stored tasks with the same ID are the same. -/
theorem stored_eq (hkeys : TaskKeys s) {t u : Task} (ht : t ∈ s.taskValues)
    (hu : u ∈ s.taskValues) (hid : t.id = u.id) : t = u := by
  have hlookup := mem_task_values hkeys ht
  rw [hid, mem_task_values hkeys hu] at hlookup
  exact (Option.some.inj hlookup).symm

/-- Stored tasks with the same insertion number are the same. -/
theorem stored_eq_of_insertion (hkeys : TaskKeys s) (h : Numbered s q) {t u : Task}
    (ht : t ∈ s.taskValues) (hu : u ∈ s.taskValues)
    (hnumber : s.insertion t.id = s.insertion u.id) : t = u := by
  have hmem := stored_mem hkeys h ht
  have hmem' := stored_mem hkeys h hu
  refine stored_eq hkeys ht hu ((List.idxOf_inj hmem).1 ?_)
  have hlt := h.insertion_lt hmem hmem'
  have hgt := h.insertion_lt hmem' hmem
  omega

/-- The least key belongs to the task that comes next. -/
theorem least_iff_next (hkeys : TaskKeys s) (h : Numbered s q) (hnow : 0 < now) (t : Task)
    {visit : List Task} (hvisit : (visit : Multiset Task) = s.taskValues) :
    Search.Least (fun t : Task => t.claimable now) s.claimKey visit t ↔ Next s q now t := by
  have hmem : ∀ u, u ∈ visit ↔ u ∈ s.taskValues := fun u => by rw [← hvisit, Multiset.mem_coe]
  constructor
  · rintro ⟨hstored, hchosen, hle⟩
    rw [hmem] at hstored
    refine ⟨hstored, (claimable_iff_due hnow t).1 hchosen, fun u hu hdue hne => ?_⟩
    have hkey := hle u ((hmem u).2 hu) ((claimable_iff_due hnow u).2 hdue)
    rw [Store.claimKey, Store.claimKey, Prod.Lex.toLex_le_toLex] at hkey
    refine hkey.imp id (And.imp id fun hnumber => ?_)
    rw [← h.insertion_lt (stored_mem hkeys h hstored) (stored_mem hkeys h hu)]
    exact lt_of_le_of_ne hnumber fun hsame =>
      hne (stored_eq_of_insertion hkeys h hu hstored hsame.symm)
  · rintro ⟨hstored, hdue, hfirst⟩
    refine ⟨(hmem t).2 hstored, (claimable_iff_due hnow t).2 hdue, fun u hu hclaimable => ?_⟩
    rw [hmem] at hu
    by_cases hne : u = t
    · rw [hne]
    · rw [Store.claimKey, Store.claimKey, Prod.Lex.toLex_le_toLex]
      refine (hfirst u hu ((claimable_iff_due hnow u).1 hclaimable) hne).imp id
        (And.imp id fun hindex => ?_)
      exact ((h.insertion_lt (stored_mem hkeys h hstored) (stored_mem hkeys h hu)).2 hindex).le

/-- The result of a claim is what its loop finds. -/
theorem claim_task_result {env : CallEnv} (hctx : env.ctx = none) (now leaseUntil : Time) :
    (s.apply env (.claimTask now leaseUntil)).1.result =
      match Search.search (fun t : Task => t.claimable now) s.claimKey env.visit with
      | some best => .ok (best.claimed leaseUntil)
      | none => .error .notFound := by
  have hloop : env.visit.foldl (claimRound s now) none =
      Search.search (fun t : Task => t.claimable now) s.claimKey env.visit := by
    rw [claim_round_eq]
    rfl
  rw [← hloop]
  change (exec (claimTask env.ctx env.visit now leaseUntil) ⟨s, ()⟩).1 = _
  rw [hctx]
  change (exec (getOr (env.visit.foldl (claimRound s now) none) .notFound >>= fun best => do
    modifyStore fun s => s.putTask best.id (best.claimed leaseUntil)
    pure (best.claimed leaseUntil)) (⟨s, ()⟩ : Frame Unit)).1 = _
  cases env.visit.foldl (claimRound s now) none <;> rfl

/-! ## The counts -/

/-- After the zero time, `PendingTasks` counts the tasks that are due. -/
theorem pending_tasks_result {env : CallEnv} (hctx : env.ctx = none) (hfits : env.Fits s)
    (hnow : 0 < now) :
    (s.apply env (.pendingTasks now)).1.result = .ok (s.taskValues.countP (Task.Due now)) := by
  change (exec (pendingTasks env.ctx env.visit now) ⟨s, ()⟩).1 = _
  rw [hctx, ← hfits, Multiset.coe_countP]
  change Except.ok _ = Except.ok _
  refine congrArg Except.ok (List.countP_congr fun t _ => ?_)
  rw [decide_eq_true_iff, decide_eq_true_iff, ← claimable_iff_due hnow, Task.claimable, not_or,
    not_and_or, not_not]

theorem leased_tasks_result {env : CallEnv} (hctx : env.ctx = none) (hfits : env.Fits s)
    (now : Time) :
    (s.apply env (.leasedTasks now)).1.result = .ok (s.taskValues.countP (Task.Leased now)) := by
  change (exec (leasedTasks env.ctx env.visit now) ⟨s, ()⟩).1 = _
  rw [hctx, ← hfits, Multiset.coe_countP]
  rfl

/-- A task is due, leased or waiting, and only one of these. -/
theorem count_tasks (now : Time) (tasks : Multiset Task) :
    tasks.countP (Task.Due now) + tasks.countP (Task.Leased now) +
      tasks.countP (Task.Waiting now) = Multiset.card tasks := by
  induction tasks using Multiset.induction_on with
  | empty => rfl
  | cons t rest ih =>
      have hsplit : (if Task.Due now t then 1 else 0) + (if Task.Leased now t then 1 else 0) +
          (if Task.Waiting now t then 1 else 0) = 1 := by
        unfold Task.Waiting Task.Due Task.Leased
        by_cases hlease : now < t.leaseUntil <;> by_cases hrun : now < t.runAt <;>
          simp [hlease, hrun, not_le.2, not_lt.1]
      simp only [Multiset.countP_cons, Multiset.card_cons]
      omega

/-- For every run, every order of the task map and every time after the zero time: a claim returns
the due task that is least by run time and then by enqueue order, and `ErrNotFound` exactly if no
task is due; `PendingTasks` is the number of due tasks, and together with the leased tasks and those
that wait for their run time without a lease these are all the stored ones. -/
theorem claim_task_schedule (calls : List (CallEnv × StoreCall)) (env : CallEnv)
    (hfits : env.Fits (Store.new.run calls)) (hctx : env.ctx = none) (now leaseUntil : Time)
    (hnow : 0 < now) :
    let s := Store.new.run calls
    (∀ u, (s.apply env (.claimTask now leaseUntil)).1.result = .ok u ↔
      ∃ t, Next s (enqueueOrder calls) now t ∧ u = t.claimed leaseUntil) ∧
    ((s.apply env (.claimTask now leaseUntil)).1.result = .error .notFound ↔
      ∀ t ∈ s.taskValues, ¬Task.Due now t) ∧
    ∃ pending leased, (s.apply env (.pendingTasks now)).1.result = .ok pending ∧
      (s.apply env (.leasedTasks now)).1.result = .ok leased ∧
      pending = s.taskValues.countP (Task.Due now) ∧
      pending + leased + s.taskValues.countP (Task.Waiting now) = Multiset.card s.taskValues := by
  intro s
  have hkeys : TaskKeys s := run_task_keys new_task_keys calls
  have hnumbered : Numbered s (enqueueOrder calls) := enqueue_order_numbered calls
  have hvisit : (env.visit : Multiset Task) = s.taskValues := hfits
  have hresult := claim_task_result (s := s) hctx now leaseUntil
  have hnext := fun t => least_iff_next hkeys hnumbered hnow t hvisit
  refine ⟨fun u => ?_, ?_, _, _, pending_tasks_result hctx hfits hnow,
    leased_tasks_result hctx hfits now, rfl, count_tasks now _⟩
  · rw [hresult]
    constructor
    · intro hok
      split at hok
      · rename_i best hbest
        exact ⟨best, (hnext best).1 (Search.least_of_search hbest), (Except.ok.inj hok).symm⟩
      · cases hok
    · rintro ⟨t, ht, rfl⟩
      have hfound :
          Search.search (fun t : Task => t.claimable now) s.claimKey env.visit = some t := by
        refine (Search.search_eq_some fun x hx y hy _ _ hkey => ?_).2 ((hnext t).2 ht)
        rw [← Multiset.mem_coe, hvisit] at hx hy
        exact stored_eq_of_insertion hkeys hnumbered hx hy (congrArg (fun k => (ofLex k).2) hkey)
      rw [hfound]
  · have hnone : Search.search (fun t : Task => t.claimable now) s.claimKey env.visit = none ↔
        ∀ t ∈ env.visit, ¬t.claimable now := Search.search_eq_none
    simp only [← claimable_iff_due hnow, ← hvisit, Multiset.mem_coe]
    rw [hresult, ← hnone]
    cases Search.search (fun t : Task => t.claimable now) s.claimKey env.visit with
    | none => exact iff_of_true rfl rfl
    | some best => exact iff_of_false nofun nofun

/-- The task of a second order, for the same time. -/
def nextTask : Task := { issueTask with id := "next", targetID := "other" }

/-- Two orders are created and finalized. -/
def twoTasks : List (CallEnv × StoreCall) :=
  [({}, .createOrder ⟨readyOrder, [], []⟩),
    ({}, .createOrder ⟨{ readyOrder with id := "other" }, [], []⟩),
    ({}, .finalizeOrder ⟨readyOrder.revised, issueTask⟩),
    (⟨none, [issueTask]⟩, .finalizeOrder ⟨{ readyOrder.revised with id := "other" },
      nextTask⟩)]

/-- Of two tasks for the same time the one that was enqueued first is claimed, although the map is
read the other way round. -/
theorem oldest_task_is_next :
    ∃ t, Next (Store.new.run twoTasks) (enqueueOrder twoTasks) 5 t ∧
      issueTask.claimed 50 = t.claimed 50 := by
  have hfits : CallEnv.Fits ⟨none, [nextTask, issueTask]⟩ (Store.new.run twoTasks) := by
    decide +kernel
  exact ((claim_task_schedule twoTasks _ hfits rfl 5 50 (by decide)).1 _).1 (by decide +kernel)

end AcmeServer.Memstore
