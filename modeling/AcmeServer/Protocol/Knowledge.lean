import AcmeServer.Memstore.Fence
import AcmeServer.Protocol.Preservation

/-!
# What a program still knows later

Between two of its calls a program must expect any permitted calls of others. `Progress` is what
these leave intact, so it relates any world to every later one (`later_progress`). The lemmas below
draw the conclusions that the handlers and the worker rest on: a record that is still stored at the
revision that was read is the record that was read, a task under the ID of a claimed one is the
claimed one, and an ID that a thread drew is still its own.
-/

namespace AcmeServer.Protocol

open Memstore Lifecycle Interaction

variable {s : Server} {u v w : World} {thread : Nat}

/-! ## Progress -/

/-- How a world and a later one are related. -/
structure Progress (u w : World) : Prop where
  accounts : Table.Follows AccountStep u.store.accounts w.store.accounts
  orders : Table.Follows OrderStep u.store.orders w.store.orders
  authzs : Table.Follows AuthorizationStep u.store.authzs w.store.authzs
  challenges : Table.Follows ChallengeStep u.store.challenges w.store.challenges
  certificates : Table.Follows CertificateStep u.store.certificates w.store.certificates
  frozen : Frozen u.store w.store
  approves : Approves u.store w.store
  history : u.history <:+ w.history

theorem Progress.refl (w : World) : Progress w w where
  accounts := .refl _
  orders := .refl _
  authzs := .refl _
  challenges := .refl _
  certificates := .refl _
  frozen := (Evolution.refl w.store).frozen
  approves := (Evolution.refl w.store).approves
  history := List.suffix_refl _

/-- An order that has the same revision at two moments had it in between. -/
theorem frozen_trans (huv : Table.Follows OrderStep u.store.orders v.store.orders)
    (hvw : Table.Follows OrderStep v.store.orders w.store.orders)
    (h : Frozen u.store v.store) (h' : Frozen v.store w.store) : Frozen u.store w.store := by
  intro id o o' ho hopen ho' hrevision aid haid
  obtain ⟨between, hbetween, hsteps⟩ := huv id o ho
  have hle := Table.version_le OrderStep.lt hsteps
  have hle' := Table.version_le OrderStep.lt (hvw.steps hbetween ho')
  have hsame : between = o := huv.content OrderStep.lt ho hbetween (by omega)
  subst hsame
  rw [h' id between o' hbetween hopen ho' hrevision aid haid]
  exact h id between between ho hopen hbetween rfl aid haid

/-- An order that is approved later was approved before, because neither an account nor an
authorization that is lost comes back. -/
theorem Approved.before (haccounts : Table.Follows AccountStep u.store.accounts v.store.accounts)
    (hauthzs : Table.Follows AuthorizationStep u.store.authzs v.store.authzs) {o o' : Order}
    (hterms : orderTerms o' = orderTerms o) (h : Approved v.store o') : Approved u.store o where
  account account haccount := by
    obtain ⟨account', haccount', hsteps⟩ := haccounts _ account haccount
    rw [← (order_fields_eq hterms).2.1] at haccount'
    exact account_valid_before hsteps (h.account account' haccount')
  authorizations aid haid a ha := by
    obtain ⟨a', ha', hsteps⟩ := hauthzs aid a ha
    rw [← (order_fields_eq hterms).2.2.1] at haid
    have hlive := h.authorizations aid haid a' ha'
    by_contra hterminal
    rw [Bool.not_eq_false] at hterminal
    rw [authorization_terminal_eq hsteps hterminal, hterminal] at hlive
    cases hlive

theorem Progress.trans (h : Progress u v) (h' : Progress v w) : Progress u w where
  accounts := h.accounts.trans h'.accounts
  orders := h.orders.trans h'.orders
  authzs := h.authzs.trans h'.authzs
  challenges := h.challenges.trans h'.challenges
  certificates := h.certificates.trans h'.certificates
  frozen := frozen_trans h.orders h'.orders h.frozen h'.frozen
  approves := by
    intro id o o' ho hnone ho' hsome
    obtain ⟨between, hbetween, hsteps⟩ := h.orders id o ho
    by_cases hset : between.issuance = none
    · exact (h'.approves id between o' hbetween hset ho' hsome).before h.accounts h.authzs
        (order_terms_eq hsteps)
    · exact h.approves id o between ho hnone hbetween hset
  history := h.history.trans h'.history

theorem move_progress {call : Call} (h : s.contract.Move thread call u w) : Progress u w := by
  obtain ⟨hinv, hpermitted, env, answer, hexecute⟩ := h
  have hexecuted := executed_of_execute hexecute
  obtain ⟨haccounts, horders, hauthzs, hchallenges, hcertificates, hfrozen, happroves⟩ :=
    hexecuted.evolution hinv hpermitted
  refine ⟨haccounts.follows, horders.follows, hauthzs.follows, hchallenges.follows,
    hcertificates.follows, hfrozen, happroves, ?_⟩
  rw [hexecuted.history_eq]
  exact List.suffix_cons _ _

/-- Permitted calls make progress. -/
theorem later_progress (h : s.contract.Later u w) : Progress u w :=
  h.lift .refl (fun _ _ _ _ _ h h' => h.trans h') fun _ _ _ _ hmove => move_progress hmove

/-! ## Moments of the past -/

/-- What was stored at some moment goes on having been stored, since every call notes the store it
finds. -/
theorem Seen.later {P : Store → Prop} (h : Seen P u) (hlater : s.contract.Later u w) :
    Seen P w := by
  refine hlater.stable (fun _ _ hexecute hseen => ?_) h
  have hhistory := (executed_of_execute hexecute).history_eq
  right
  rw [hhistory]
  rcases hseen with hnow | ⟨e, he, hP⟩
  · exact ⟨_, List.mem_cons_self, hnow⟩
  · exact ⟨e, List.mem_cons_of_mem _ he, hP⟩

theorem seen_of_once {P : Store → Prop} (h : s.contract.Once (fun u => P u.store) w) :
    Seen P w := by
  obtain ⟨u, _, hlater, hP⟩ := h
  exact Seen.later (.inl hP) hlater

theorem ReadClock.later {now : Time} {P : Store → Prop} (h : ReadClock u thread now P)
    (hlater : s.contract.Later u w) : ReadClock w thread now P := by
  obtain ⟨e, he, hrest⟩ := h
  exact ⟨e, (later_progress hlater).history.mem he, hrest⟩

theorem BelowLimit.later {accountID : String} (h : BelowLimit s u thread accountID)
    (hlater : s.contract.Later u w) : BelowLimit s w thread accountID := by
  obtain ⟨e, he, hrest⟩ := h
  exact ⟨e, (later_progress hlater).history.mem he, hrest⟩

/-- What is known about a call of the past: the invariant held and the call was permitted in the
world in which it was made, and the world has only moved by permitted calls before and after. -/
structure Moment (s : Server) (e : Event) (earlier : List Event) (w : World) : Prop where
  reached : s.contract.Later World.initial ⟨e.before, earlier⟩
  inv : Invariant s ⟨e.before, earlier⟩
  permitted : Permitted s ⟨e.before, earlier⟩ e.thread e.call
  executed : ∃ env after, execute env e.thread e.call ⟨e.before, earlier⟩ = some (e.answer, after) ∧
    s.contract.Later after w
  later : s.contract.Later ⟨e.before, earlier⟩ w

theorem Moment.trans {e : Event} {earlier : List Event} (h : Moment s e earlier u)
    (hlater : s.contract.Later u w) : Moment s e earlier w := by
  obtain ⟨env, after, hexecute, hafter⟩ := h.executed
  exact ⟨h.reached, h.inv, h.permitted, ⟨env, after, hexecute, hafter.trans hlater⟩,
    h.later.trans hlater⟩

/-- Every event of the history is such a call. -/
theorem moment_of_event {e : Event} {earlier : List Event}
    (hlater : s.contract.Later World.initial w) (he : e :: earlier <:+ w.history) :
    Moment s e earlier w := by
  induction hlater with
  | refl => simp [World.initial] at he
  | @tail u v hpath hstep ih =>
      obtain ⟨actor, call, hmove⟩ := hstep
      have hlater := hmove.later
      obtain ⟨hinv, hpermitted, env, answer, hexecute⟩ := hmove
      have hexecuted := executed_of_execute hexecute
      rw [hexecuted.history_eq] at he
      rcases List.suffix_cons_iff.mp he with hlast | hold
      · cases hlast
        exact ⟨hpath, hinv, hpermitted, ⟨env, v, hexecute, .refl _⟩, hlater⟩
      · exact (ih hold).trans hlater

theorem moment_of_mem {e : Event} (hlater : s.contract.Later World.initial w)
    (he : e ∈ w.history) : ∃ earlier, e :: earlier <:+ w.history ∧ Moment s e earlier w := by
  obtain ⟨newer, earlier, hhistory⟩ := List.append_of_mem he
  have hsuffix : e :: earlier <:+ w.history := ⟨newer, hhistory.symm⟩
  exact ⟨earlier, hsuffix, moment_of_event hlater hsuffix⟩

/-! ## Records that were read -/

/-- An order that is still at the revision that was read. -/
theorem order_unchanged {id : String} {o o' : Order} (hlater : s.contract.Later u w)
    (ho : u.store.orders.lookup id = some o) (ho' : w.store.orders.lookup id = some o')
    (hrevision : o'.revision = o.revision) : o' = o :=
  (later_progress hlater).orders.content OrderStep.lt ho ho' hrevision

/-- An account that is still at the revision that was read. -/
theorem account_unchanged {id : String} {a a' : Account} (hlater : s.contract.Later u w)
    (ha : u.store.accounts.lookup id = some a) (ha' : w.store.accounts.lookup id = some a')
    (hrevision : a'.revision = a.revision) : a' = a :=
  (later_progress hlater).accounts.content AccountStep.lt ha ha' hrevision

/-- An authorization that is still at the revision that was read. -/
theorem authorization_unchanged {id : String} {a a' : Authorization}
    (hlater : s.contract.Later u w) (ha : u.store.authzs.lookup id = some a)
    (ha' : w.store.authzs.lookup id = some a') (hrevision : a'.revision = a.revision) : a' = a :=
  (later_progress hlater).authzs.content AuthorizationStep.lt ha ha' hrevision

/-- A challenge that is still at the revision that was read. -/
theorem challenge_unchanged {id : String} {c c' : Challenge} (hlater : s.contract.Later u w)
    (hc : u.store.challenges.lookup id = some c) (hc' : w.store.challenges.lookup id = some c')
    (hrevision : c'.revision = c.revision) : c' = c :=
  (later_progress hlater).challenges.content ChallengeStep.lt hc hc' hrevision

/-- A certificate that is still at the revision that was read. -/
theorem certificate_unchanged {id : String} {c c' : Certificate} (hlater : s.contract.Later u w)
    (hc : u.store.certificates.lookup id = some c)
    (hc' : w.store.certificates.lookup id = some c') (hrevision : c'.revision = c.revision) :
    c' = c :=
  (later_progress hlater).certificates.content CertificateStep.lt hc hc' hrevision

/-- A task that is stored under the ID of one that was stored before does the same work. -/
theorem task_unchanged {id : String} {t t' : Task} (hlater : s.contract.Later u w)
    (hu : Invariant s u) (hw : Invariant s w) (ht : u.store.tasks.lookup id = some t)
    (ht' : w.store.tasks.lookup id = some t') : SameWork t t' := by
  obtain ⟨e, he, task, htask, hid, hkind, htarget⟩ := hu.tasks ht
  obtain ⟨e', he', task', htask', hid', hkind', htarget'⟩ := hw.tasks ht'
  have hmem := (later_progress hlater).history.mem he
  cases hw.ids.unique hmem he' htask htask' (hid.trans hid'.symm)
  exact ⟨hkind.symm.trans hkind', htarget.symm.trans htarget'⟩

/-- What may become of a task: it is removed, claimed again, or kept as it is or released. -/
inductive TaskFollows : Option Task → Option Task → Prop where
  | gone (before : Option Task) : TaskFollows before none
  | claimed {t t' : Task} (hfence : t.fence < t'.fence) : TaskFollows (some t) (some t')
  | held {t t' : Task} (hfence : t'.fence = t.fence)
      (hlease : t'.leaseUntil = t.leaseUntil ∨ t'.leaseUntil = 0) : TaskFollows (some t) (some t')

theorem TaskFollows.refl (before : Option Task) : TaskFollows before before := by
  cases before with
  | none => exact .gone none
  | some t => exact .held rfl (.inl rfl)

theorem TaskFollows.trans {o o' o'' : Option Task} (h : TaskFollows o o')
    (h' : TaskFollows o' o'') : TaskFollows o o'' := by
  cases h' with
  | gone => exact .gone o
  | claimed hfence' =>
      cases h with
      | claimed hfence => exact .claimed (hfence.trans hfence')
      | held hfence => exact .claimed (hfence ▸ hfence')
  | held hfence' hlease' =>
      cases h with
      | claimed hfence => exact .claimed (hfence' ▸ hfence)
      | held hfence hlease =>
          refine .held (hfence'.trans hfence) ?_
          rcases hlease' with hsame | hzero
          · rwa [hsame]
          · exact .inr hzero

/-- Some call has tried to enqueue a task under the ID. -/
def Enqueued (w : World) (id : String) : Prop :=
  ∃ e ∈ w.history, ∃ task, e.call.enqueues = some task ∧ task.id = id

theorem Enqueued.later {id : String} (h : Enqueued u id) (hlater : s.contract.Later u w) :
    Enqueued w id := by
  obtain ⟨e, he, hrest⟩ := h
  exact ⟨e, (later_progress hlater).history.mem he, hrest⟩

theorem enqueued_of_stored (hinv : Invariant s w) {id : String} {t : Task}
    (ht : w.store.tasks.lookup id = some t) : Enqueued w id := by
  obtain ⟨e, he, task, htask, hid, _⟩ := hinv.tasks ht
  exact ⟨e, he, task, htask, hid⟩

theorem call_enqueues_eq (c : StoreCall) : (Call.store c).enqueues = c.enqueues := by
  cases c <;> rfl

theorem move_task {call : Call} {id : String} (h : s.contract.Move thread call u w)
    (henqueued : Enqueued u id) :
    TaskFollows (u.store.tasks.lookup id) (w.store.tasks.lookup id) := by
  obtain ⟨hinv, hpermitted, _, _, hexecute⟩ := h
  rcases (executed_of_execute hexecute).store_cases with hsame | ⟨c, rfl, hcommit⟩
  · rw [hsame]
    exact .refl _
  · have hchange : TaskChange id c (u.store.tasks.lookup id) (w.store.tasks.lookup id) :=
      commit_task_change hinv.keyed.tasks hcommit
    generalize u.store.tasks.lookup id = before at hchange
    generalize w.store.tasks.lookup id = after at hchange
    cases hchange with
    | same => exact .refl _
    | enqueued t hc hid =>
        -- No call uses the ID of a task a second time.
        obtain ⟨e, he, task, htask, htaskID⟩ := henqueued
        have howns := permitted_enqueue hpermitted ((call_enqueues_eq c).trans hc)
        exact absurd (htaskID.trans hid.symm) (howns.unused e he task htask)
    | claimed t _ _ _ _ _ => exact .claimed (Nat.lt_succ_self _)
    | released t p _ _ _ => exact .held rfl (.inr rfl)
    | removed => exact .gone _

theorem task_follows {id : String} (hlater : s.contract.Later u w) (henqueued : Enqueued u id) :
    TaskFollows (u.store.tasks.lookup id) (w.store.tasks.lookup id) := by
  induction hlater with
  | refl => exact .refl _
  | tail hpath hstep ih =>
      obtain ⟨_, _, hmove⟩ := hstep
      exact ih.trans (move_task hmove (henqueued.later hpath))

/-- An order that is the same at two moments was the same in between. -/
theorem order_between {id : String} {o : Order} (huv : s.contract.Later u v)
    (hvw : s.contract.Later v w) (ho : u.store.orders.lookup id = some o)
    (ho' : w.store.orders.lookup id = some o) : v.store.orders.lookup id = some o := by
  obtain ⟨between, hbetween, hsteps⟩ := (later_progress huv).orders id o ho
  have hle := Table.version_le OrderStep.lt hsteps
  have hle' := Table.version_le OrderStep.lt ((later_progress hvw).orders.steps hbetween ho')
  rw [hbetween, order_unchanged huv ho hbetween (by omega)]

/-! ## References -/

theorem challenge_authorization_stored (hinv : Invariant s w) {id : String} {c : Challenge}
    (hc : w.store.challenges.lookup id = some c) :
    ∃ a, w.store.authzs.lookup c.authorizationID = some a := by
  obtain ⟨_, hrow⟩ := hinv.coherent.linked.challenge_authorization (rows_of_lookup hc)
  obtain ⟨a, ha, _⟩ := rows_eq_some.mp hrow
  exact ⟨a, ha⟩

theorem challenge_account_stored (hinv : Invariant s w) {id : String} {c : Challenge}
    (hc : w.store.challenges.lookup id = some c) :
    ∃ a, w.store.accounts.lookup c.accountID = some a :=
  hinv.coherent.linked.challenge_account (rows_of_lookup hc)

theorem order_account_stored (hinv : Invariant s w) {id : String} {o : Order}
    (ho : w.store.orders.lookup id = some o) :
    ∃ a, w.store.accounts.lookup o.accountID = some a :=
  hinv.coherent.linked.order_account (rows_of_lookup ho)

theorem order_authorization_stored (hinv : Invariant s w) {id aid : String} {o : Order}
    (ho : w.store.orders.lookup id = some o) (haid : aid ∈ o.authorizationIDs) :
    ∃ a, w.store.authzs.lookup aid = some a := by
  obtain ⟨_, hrow, _⟩ := hinv.coherent.linked.order_authorization (rows_of_lookup ho) haid
  obtain ⟨a, ha, _⟩ := rows_eq_some.mp hrow
  exact ⟨a, ha⟩

theorem authorization_challenge_stored (hinv : Invariant s w) {aid cid : String}
    {a : Authorization} (ha : w.store.authzs.lookup aid = some a) (hcid : cid ∈ a.challengeIDs) :
    ∃ c, w.store.challenges.lookup cid = some c := by
  obtain ⟨_, hrow⟩ := hinv.coherent.linked.authorization_challenge (rows_of_lookup ha) hcid
  obtain ⟨c, hc, _⟩ := rows_eq_some.mp hrow
  exact ⟨c, hc⟩

/-! ## What stays true -/

/-- A thread keeps an ID it drew while others go on and it makes no call that uses the ID up. -/
theorem owns_stable {id : String} (hrely : s.contract.Rely thread u w) (h : Owns u thread id) :
    Owns w thread id := by
  refine Contract.Rely.stable (P := fun world => Owns world thread id) ?_ hrely h
  rintro other call v v' ⟨hinv, hpermitted, env, answer, hexecute⟩ hother ⟨hdrawn, hunused⟩
  have hexecuted := executed_of_execute hexecute
  obtain ⟨d, hd, hthread, hid⟩ := hdrawn
  refine ⟨⟨d, ?_, hthread, hid⟩, ?_⟩
  · rw [hexecuted.history_eq]
    exact List.mem_cons_of_mem _ hd
  · intro e he task htask
    rw [hexecuted.history_eq] at he
    rcases List.mem_cons.mp he with rfl | hold
    · -- The call enqueues a task under an ID of the other thread.
      rintro rfl
      obtain ⟨d', hd', hthread', hid'⟩ := (permitted_enqueue hpermitted htask).drawn
      have hsame := hinv.ids.drawn hd hd' hid hid'
      rcases hother with hother | hquiet
      · exact hother (hthread'.symm.trans (hsame.symm.trans hthread))
      · rw [show call.enqueues = none from hquiet] at htask
        cases htask
    · exact hunused e hold task htask

/-- What was granted stays granted. -/
theorem granted_later {r : Request} (hlater : s.contract.Later u w) (h : Granted s u.store r) :
    Granted s w.store r := by
  refine hlater.stable (P := fun w => Granted s w.store r) ?_ h
  intro _ _ _ _ _ _ hinv hpermitted hexecute hgranted
  exact hgranted.evolve ((executed_of_execute hexecute).evolution hinv hpermitted)

/-- The evidence for an authorization stays in the store. -/
theorem Evidence.later {a : Authorization} {val : Validation} (hlater : s.contract.Later u w)
    (h : Evidence u.store a val) : Evidence w.store a val := by
  refine ⟨h.identifier, h.authorized.imp_right ?_⟩
  rintro ⟨hasked, hval, cid, hcid, c, hc, hvalid, htype, htime⟩
  obtain ⟨c', hc', hsteps⟩ := (later_progress hlater).challenges cid c hc
  have hterminal : c.status.terminal = true := by
    rw [hvalid]
    rfl
  have hsame := congrArg Challenge.type (challenge_terms_eq hsteps)
  change c'.type = c.type at hsame
  refine ⟨hasked, hval, cid, hcid, c', hc', ?_, ?_, ?_⟩
  · rw [challenge_terminal_eq hsteps hterminal, hvalid]
  · rw [htype, hsame]
  · rw [htime, challenge_validated_eq hsteps hterminal]

/-- The request for a dispatched order stays the same. -/
theorem requested_later {req : IssueRequest} {now : Time} (hlater : s.contract.Later u w)
    (h : RequestedAt s u.store req now) : RequestedAt s w.store req now := by
  refine hlater.stable (P := fun w => RequestedAt s w.store req now) ?_ h
  intro _ _ _ _ _ _ hinv hpermitted hexecute hrequested
  exact hrequested.evolve ((executed_of_execute hexecute).evolution hinv hpermitted) hinv.coherent

end AcmeServer.Protocol
