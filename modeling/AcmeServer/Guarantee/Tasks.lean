import AcmeServer.Safety.Routes

/-!
# Tasks

What every run keeps true of the tasks of the workers: a run of a task does not end with the lease
it has claimed, and the number of unfinished validations of an account exceeds its limit only by
responses that overlap.
-/

namespace AcmeServer.Guarantee

open Memstore Protocol Safety

variable {s : Server} {w : World}

/-! ## Leases -/

/-- A claim leaves the task stored as the worker got it. -/
theorem claimed_of_event {e : Event} {earlier : List Event} {task : Task}
    (hmoment : Moment s e earlier w) (h : e.claims = some task) : Claimed s w.history task w := by
  obtain ⟨env, after, hexecute, hlater⟩ := hmoment.executed
  have hmove : s.contract.Move e.thread e.call ⟨e.before, earlier⟩ after :=
    ⟨hmoment.inv, hmoment.permitted, env, e.answer, hexecute⟩
  unfold Event.claims at h
  split at h
  · cases h
    simp only [execute] at hexecute
    split at hexecute
    · rename_i hfits
      obtain ⟨hreply, rfl⟩ := Prod.mk.inj (Option.some.inj hexecute)
      have hok := congrArg Reply.result hreply
      exact ⟨List.suffix_refl _, _, hmove.inv, hlater, claimed_stored hfits hok⟩
    · cases hexecute
  · cases h

/-- A run of a claimed task ends without its lease, whatever the validator, the issuance policy and
the issuer return, unless one of its store calls fails because its context has ended: the task is
removed, its lease is zero, or another claim has raised its fence. -/
theorem processed_task_is_released (s : Server) (schedule rest : Server.Schedule) (thread : Nat)
    (task : Task) (hclaimed : ∃ e ∈ (s.run schedule).history, e.claims = some task)
    (hrunning : (s.config schedule).threads[thread]? = some (s.process task))
    (hended : (s.config (schedule ++ rest)).threads[thread]? = some (.done ()))
    (hcontext : ∀ e earlier, e :: earlier <:+ (s.run (schedule ++ rest)).history →
      (s.run schedule).history <:+ earlier → e.thread = thread → e.interrupted = false) :
    let st := (s.run (schedule ++ rest)).store
    st.tasks.lookup task.id = none ∨
      ∃ t, st.tasks.lookup task.id = some t ∧ (t.leaseUntil = 0 ∨ task.fence < t.fence) := by
  intro st
  have hlater : s.contract.Later World.initial (s.run schedule) := run_progress s [] schedule
  obtain ⟨e, he, hclaims⟩ := hclaimed
  obtain ⟨_, _, hmoment⟩ := moment_of_mem hlater he
  have hheld := claimed_of_event hmoment hclaims
  rw [Server.config, Interaction.run_append] at hended
  have hfinal := Interaction.Contract.run_ends (safe_config s schedule) (start_safe s) hrunning
    (process_safe hheld) rest hended
  rw [← Interaction.run_append] at hfinal
  rcases hfinal with ⟨e, earlier, he, hbegun, hthread, hinterrupted⟩ | hreleased
  · rw [hcontext e earlier he hbegun hthread] at hinterrupted
    cases hinterrupted
  · cases hstored : st.tasks.lookup task.id with
    | none => exact .inl rfl
    | some t => exact .inr ⟨t, rfl, hreleased t hstored⟩

set_option maxRecDepth 10000 in
/-- The worker of the sample server goes on with the task it has claimed. -/
theorem sample_worker_processes : (Sample.server.config Sample.claim).threads[3]? =
    some (Sample.server.process Sample.claimedTask) := by
  rfl

/-- The worker of the sample server ends. -/
theorem sample_worker_ends :
    (Sample.server.config (Sample.claim ++ Sample.issue)).threads[3]? = some (.done ()) := by
  have hdone : (Sample.server.config (Sample.claim ++ Sample.issue)).threads[3]?.any
      Interaction.Program.isDone = true := by decide +kernel
  obtain ⟨worker, hworker, hended⟩ := (Option.any_eq_true _ _).mp hdone
  cases worker with
  | done value => exact hworker
  | call request next => cases hended

/-- The worker that issues the first certificate of the sample server has released its task. -/
theorem issued_task_is_released :
    let st := (Sample.server.run (Sample.claim ++ Sample.issue)).store
    st.tasks.lookup "issue" = none ∨ ∃ t, st.tasks.lookup "issue" = some t ∧
      (t.leaseUntil = 0 ∨ Sample.claimedTask.fence < t.fence) := by
  have hclaimed : (Sample.server.run Sample.claim).history.head?.bind Event.claims =
      some Sample.claimedTask := by decide +kernel
  have hcontext : ∀ e ∈ (Sample.server.run (Sample.claim ++ Sample.issue)).history,
      e.interrupted = false := by decide +kernel
  obtain ⟨e, he, hclaims⟩ := Option.bind_eq_some_iff.mp hclaimed
  exact processed_task_is_released Sample.server Sample.claim Sample.issue 3 Sample.claimedTask
    ⟨e, List.mem_of_mem_head? he, hclaims⟩ sample_worker_processes sample_worker_ends
    fun e earlier he _ _ => hcontext e (he.subset List.mem_cons_self)

/-! ## The limit for validations -/

/-- The task is a validation for the account. -/
def Validates (accountID : String) (t : Task) : Prop :=
  t.kind = .validate ∧ t.accountID = accountID

instance (accountID : String) : DecidablePred (Validates accountID) :=
  fun _ => inferInstanceAs (Decidable (_ ∧ _))

/-- The number of unfinished validations of an account. -/
def pendingValidations (st : Store) (accountID : String) : Nat :=
  Table.count (Validates accountID) st.tasks

/-- The responses for the account that have counted its validations in the earlier part of the
history and reach their store call in the later one. -/
def overlapping (accountID : String) (later earlier : List Event) : List Event :=
  later.filter fun e => e.accepts = some accountID ∧
    ∃ r ∈ earlier, r.thread = e.thread ∧ r.counts.map Prod.fst = some accountID

/-- The store counts what there is. -/
theorem counted_validations {call : Call} {answer : call.Answer} {w' : World} {env : Env}
    {thread : Nat} {accountID : String} {n : Nat}
    (hexecute : execute env thread call w = some (answer, w'))
    (h : Event.counts ⟨thread, w.store, call, answer⟩ = some (accountID, n)) :
    n = pendingValidations w.store accountID := by
  unfold Event.counts at h
  split at h
  · rename_i heq
    cases heq
    cases h
    simp only [execute] at hexecute
    split at hexecute
    · rename_i hfits
      obtain ⟨hreply, _⟩ := Prod.mk.inj (Option.some.inj hexecute)
      exact apply_account_validations hfits (congrArg Reply.result hreply)
    · cases hexecute
  · cases h

/-- A validation that is stored after a call was stored before, or the call has enqueued it. -/
theorem validation_origin {id accountID : String} {c : StoreCall} {before after : Option Task}
    (h : TaskChange id c before after) {t' : Task} (ht' : after = some t')
    (hvalidates : Validates accountID t') :
    (∃ t, before = some t ∧ Validates accountID t) ∨
      ∃ t, c.enqueues = some t ∧ t.id = id ∧ Validates accountID t := by
  cases h with
  | same => exact .inl ⟨t', ht', hvalidates⟩
  | enqueued t hc hid =>
      cases ht'
      exact .inr ⟨t, hc, hid, hvalidates⟩
  | claimed t =>
      cases ht'
      exact .inl ⟨t, rfl, hvalidates⟩
  | released t =>
      cases ht'
      exact .inl ⟨t, rfl, hvalidates⟩
  | removed => cases ht'

/-- Only an accepted response enqueues a validation. -/
theorem accepts_of_enqueued {thread : Nat} {c : StoreCall} {reply : Reply c} {st : Store} {t : Task}
    {accountID : String} (hpermitted : Permitted s w thread (.store c)) (hc : c.enqueues = some t)
    (hvalidates : Validates accountID t) :
    Event.accepts ⟨thread, st, .store c, reply⟩ = some accountID := by
  cases c with
  | acceptChallenge r =>
      cases hc
      exact congrArg some hvalidates.2
  | finalizeOrder f =>
      cases hc
      cases (FinalizationStep.kind hpermitted).symm.trans hvalidates.1
  | _ => cases hc

section Step

variable {w' : World} {thread : Nat} {call : Call} {answer : call.Answer}

/-- A call adds one unfinished validation at most, and only if it accepts a response. -/
theorem pending_validations_step (hinv : Invariant s w) (hpermitted : Permitted s w thread call)
    (hexecuted : Executed w thread call answer w') (accountID : String) :
    pendingValidations w'.store accountID ≤ pendingValidations w.store accountID ∨
      (Event.accepts ⟨thread, w.store, call, answer⟩ = some accountID ∧
        pendingValidations w'.store accountID ≤ pendingValidations w.store accountID + 1) := by
  rcases hexecuted.store_cases with hsame | ⟨c, rfl, hcommit⟩
  · rw [hsame]
    exact .inl le_rfl
  · have hchange : ∀ id, TaskChange id c (w.store.tasks.lookup id) (w'.store.tasks.lookup id) :=
      fun id => commit_task_change hinv.keyed.tasks hcommit
    by_cases hadds : ∃ t, c.enqueues = some t ∧ Validates accountID t
    · obtain ⟨t, hc, hvalidates⟩ := hadds
      refine .inr ⟨accepts_of_enqueued hpermitted hc hvalidates, Table.count_le_succ t.id ?_⟩
      intro id t' hother ht' hvalidates'
      refine (validation_origin (hchange id) ht' hvalidates').resolve_right ?_
      rintro ⟨t₁, hc₁, hid, _⟩
      cases Option.some.inj (hc.symm.trans hc₁)
      exact hother hid.symm
    · refine .inl (Table.count_le fun id t' ht' hvalidates => ?_)
      refine (validation_origin (hchange id) ht' hvalidates).resolve_right ?_
      rintro ⟨t, hc, _, hadded⟩
      exact hadds ⟨t, hc, hadded⟩

/-- How the number of unfinished validations came about: since the last moment at which it was below
the limit, every response that was accepted had been counted before that moment. -/
def Accounted (s : Server) (accountID : String) (w : World) : Prop :=
  pendingValidations w.store accountID = 0 ∨
    ∃ later earlier, w.history = later ++ earlier ∧
      pendingValidations w.store accountID + 1 ≤
        s.maxValidations + (overlapping accountID later earlier).length ∧
      ∀ r ∈ later, ∀ n, r.counts = some (accountID, n) → s.maxValidations ≤ n

/-- One more event of the later part. -/
theorem overlapping_cons_length {accountID : String} {later earlier : List Event} {e : Event} :
    (overlapping accountID later earlier).length ≤
      (overlapping accountID (e :: later) earlier).length := by
  unfold overlapping
  exact ((List.sublist_cons_self e later).filter _).length_le

theorem overlapping_cons_accepts {accountID : String} {later earlier : List Event} {e r : Event}
    (haccepts : e.accepts = some accountID) (hr : r ∈ earlier) (hthread : r.thread = e.thread)
    {n : Nat} (hcounts : r.counts = some (accountID, n)) :
    (overlapping accountID (e :: later) earlier).length =
      (overlapping accountID later earlier).length + 1 := by
  unfold overlapping
  rw [List.filter_cons_of_pos, List.length_cons]
  exact decide_eq_true ⟨haccepts, r, hr, hthread, by rw [hcounts]; rfl⟩

theorem counts_of_accepts {e : Event} {accountID : String} (h : e.accepts = some accountID) :
    e.counts = none := by
  unfold Event.accepts at h
  split at h
  · rfl
  · cases h

/-- A response is accepted only after its thread has counted fewer validations than the limit. -/
theorem counted_of_accepts {accountID : String} {st : Store}
    (hpermitted : Permitted s w thread call)
    (h : Event.accepts ⟨thread, st, call, answer⟩ = some accountID) :
    BelowLimit s w thread accountID := by
  unfold Event.accepts at h
  split at h
  · rename_i heq
    cases heq
    cases h
    exact ChallengeResponse.counted hpermitted
  · cases h

/-- Above the limit the moment at which it was last not reached stays the same. -/
theorem accounted_above {accountID : String} {later earlier : List Event} {e : Event}
    (hhistory : w.history = later ++ earlier) (hhistory' : w'.history = e :: w.history)
    (hcount : pendingValidations w.store accountID + 1 ≤
      s.maxValidations + (overlapping accountID later earlier).length)
    (hhigh : ∀ r ∈ later, ∀ n, r.counts = some (accountID, n) → s.maxValidations ≤ n)
    (hstep : pendingValidations w'.store accountID ≤ pendingValidations w.store accountID ∨
      (e.accepts = some accountID ∧ BelowLimit s w e.thread accountID ∧
        pendingValidations w'.store accountID ≤ pendingValidations w.store accountID + 1))
    (hcounted : ∀ n, e.counts = some (accountID, n) → s.maxValidations ≤ n) :
    Accounted s accountID w' := by
  refine .inr ⟨e :: later, earlier, ?_, ?_, fun r hr => ?_⟩
  · rw [hhistory', hhistory, List.cons_append]
  · rcases hstep with hle | ⟨haccepts, ⟨r, hr, hthread, n, hcounts, hbelow⟩, hle⟩
    · have hlength : (overlapping accountID later earlier).length ≤
          (overlapping accountID (e :: later) earlier).length := overlapping_cons_length
      omega
    · -- The thread has counted below the limit, so it did so in the earlier part.
      have hearlier : r ∈ earlier := by
        rw [hhistory] at hr
        refine (List.mem_append.mp hr).resolve_left fun hlater => ?_
        exact absurd (hhigh r hlater n hcounts) (not_le.mpr hbelow)
      rw [overlapping_cons_accepts haccepts hearlier hthread hcounts]
      omega
  · rcases List.mem_cons.mp hr with rfl | hold
    · exact hcounted
    · exact hhigh r hold

theorem accounted_step (hinv : Invariant s w) (hpermitted : Permitted s w thread call) {env : Env}
    (hexecute : execute env thread call w = some (answer, w')) {accountID : String}
    (h : Accounted s accountID w) : Accounted s accountID w' := by
  have hexecuted := executed_of_execute hexecute
  have hhistory := hexecuted.history_eq
  have hstep : pendingValidations w'.store accountID ≤ pendingValidations w.store accountID ∨
      (Event.accepts ⟨thread, w.store, call, answer⟩ = some accountID ∧
        BelowLimit s w thread accountID ∧
        pendingValidations w'.store accountID ≤ pendingValidations w.store accountID + 1) :=
    (pending_validations_step hinv hpermitted hexecuted accountID).imp_right
      fun ⟨haccepts, hle⟩ => ⟨haccepts, counted_of_accepts hpermitted haccepts, hle⟩
  have hcounted : ∀ n, Event.counts ⟨thread, w.store, call, answer⟩ = some (accountID, n) →
      n = pendingValidations w.store accountID := fun n => counted_validations hexecute
  by_cases hbelow' : pendingValidations w'.store accountID < s.maxValidations
  · exact .inr ⟨[], w'.history, rfl, hbelow', fun r hr => absurd hr List.not_mem_nil⟩
  by_cases hbelow : pendingValidations w.store accountID < s.maxValidations
  · -- The call accepts a response, and the moment before it is the last one below the limit.
    have haccepts := (hstep.resolve_left (by omega)).1
    refine accounted_above (List.nil_append w.history).symm hhistory hbelow
      (fun r hr => absurd hr List.not_mem_nil) hstep fun n hcounts => ?_
    rw [counts_of_accepts haccepts] at hcounts
    cases hcounts
  · rcases h with hzero | ⟨later, earlier, hsplit, hcount, hhigh⟩
    · rcases hstep with hle | ⟨_, ⟨_, _, _, n, _, hlimit⟩, _⟩
      · exact .inl (by omega)
      · omega
    · refine accounted_above hsplit hhistory hcount hhigh hstep fun n hcounts => ?_
      have hn := hcounted n hcounts
      omega

end Step

theorem accounted_later (accountID : String) (hlater : s.contract.Later World.initial w) :
    Accounted s accountID w := by
  refine hlater.stable (fun hinv hpermitted hexecute h => ?_) (.inl rfl)
  exact accounted_step hinv hpermitted hexecute h

/-- If at every moment at most `k` responses for an account are between the count of its validations
and their store call, then the number of its unfinished validations exceeds the limit by less than
`k`. -/
theorem validations_stay_near_limit (s : Server) (schedule : Server.Schedule) (accountID : String)
    (k : Nat) (hk : 1 ≤ k)
    (hoverlap : ∀ later earlier, (s.run schedule).history = later ++ earlier →
      (overlapping accountID later earlier).length ≤ k) :
    pendingValidations (s.run schedule).store accountID ≤ s.maxValidations + k - 1 := by
  have hlater : s.contract.Later World.initial (s.run schedule) := run_progress s [] schedule
  rcases accounted_later accountID hlater with hzero | ⟨later, earlier, hsplit, hcount, _⟩
  · omega
  · have hle := hoverlap later earlier hsplit
    omega

/-- The task that validates the first name of the client. -/
def webTask : Task where
  id := "web-task"
  kind := .validate
  targetID := "web"
  accountID := "alice"
  runAt := 1
  createdAt := 1

/-- The client responds to the challenges for both names of an order. Each response counts the
validations of the account before the other one enqueues its task. -/
def overlappingResponses : Server.Schedule :=
  let x : Sample.Surroundings := { preApproves := false }
  Sample.register ++ Sample.post "/new-order" [1] ++ Sample.steps 1 4 { x with id := "first" } ++
    Sample.steps 1 4 { x with id := "first-web" } ++ Sample.steps 1 2 { x with id := "web" } ++
    Sample.steps 1 1 { x with id := "first-mail" } ++ Sample.steps 1 5 { x with id := "mail" } ++
    Sample.post "/chall/web" [4, 0] ++ Sample.steps 2 7 {} ++
    Sample.post "/chall/mail" [5, 0] ++ Sample.steps 3 7 {} ++
    Sample.steps 2 2 { id := "web-task" } ++
    Sample.steps 3 2 { id := "mail-task", tasks := [webTask] }

/-- No more responses overlap than there are. -/
theorem overlapping_le_accepts {accountID : String} {later earlier history : List Event}
    (h : history = later ++ earlier) : (overlapping accountID later earlier).length ≤
      history.countP fun e => e.accepts = some accountID := by
  unfold overlapping
  rw [h, List.countP_append, ← List.countP_eq_length_filter]
  refine le_trans (List.countP_mono_left fun e _ he => ?_) (Nat.le_add_right _ _)
  exact decide_eq_true (of_decide_eq_true he).1

/-- The bound is reached: two responses that overlap exceed a limit of one by one. -/
theorem overlapping_responses_exceed_limit :
    let st := (Sample.server.run overlappingResponses).store
    pendingValidations st "alice" = 2 ∧
      pendingValidations st "alice" ≤ Sample.server.maxValidations + 2 - 1 := by
  have haccepts : ((Sample.server.run overlappingResponses).history.countP
    fun e => e.accepts = some "alice") = 2 := by decide +kernel
  exact ⟨by decide +kernel, validations_stay_near_limit Sample.server overlappingResponses "alice" 2
    (by decide) fun later earlier h => (overlapping_le_accepts h).trans_eq haccepts⟩

end AcmeServer.Guarantee
