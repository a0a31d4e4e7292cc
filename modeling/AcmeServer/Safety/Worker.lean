import AcmeServer.Safety.Order

/-!
# Safety of the worker: tasks and validation

A worker acts on a task it has claimed. The store checks the fence, so a task that is still there
when the worker commits is one that does the claimed work (`Claimed.work`), and with it the
queue invariant tells what its target looks like. In particular the branches that drop a task
because its target has vanished are never taken.
-/

namespace AcmeServer.Safety

open Interaction Interaction.Contract Memstore Protocol Lifecycle

variable {s : Server} {thread : Nat} {u w : World} {start : List Event} {task : Task}

/-! ## Claimed tasks -/

/-- The task was stored as it was claimed. Its run has begun after the given history. -/
structure Claimed (s : Server) (start : List Event) (task : Task) (w : World) : Prop where
  begun : start <:+ w.history
  stored : s.contract.Once (fun u => u.store.tasks.lookup task.id = some task) w

theorem Claimed.later (h : Claimed s start task u) (hlater : s.contract.Later u w) :
    Claimed s start task w :=
  ⟨h.begun.trans (later_progress hlater).history, h.stored.later hlater⟩

/-- A task that is stored under the ID of a claimed one does the same work. -/
theorem Claimed.work (h : Claimed s start task w) (hinv : s.contract.Inv w) {stored : Task}
    (hstored : w.store.tasks.lookup task.id = some stored) :
    stored.kind = task.kind ∧ stored.targetID = task.targetID := by
  obtain ⟨u, hu, hlater, htask⟩ := h.stored
  obtain ⟨hkind, htarget⟩ := task_unchanged hlater hu hinv htask hstored
  exact ⟨hkind.symm, htarget.symm⟩

/-- A stored task is allowed by its target. -/
theorem task_allowed (hinv : s.contract.Inv w) {id : String} {t : Task}
    (ht : w.store.tasks.lookup id = some t) : taskRow t ∈ (lifecycle w.store).allowed :=
  hinv.coherent.served.sound (rows_of_lookup ht)

/-- The challenge of a stored validation task is processing. -/
theorem validation_target (hinv : s.contract.Inv w) {id : String} {t : Task}
    (ht : w.store.tasks.lookup id = some t) (hkind : t.kind = .validate) :
    ∃ c, w.store.challenges.lookup t.targetID = some c ∧ c.status = .processing := by
  rcases task_allowed hinv ht with ⟨_, row, hrow, hstatus⟩ | ⟨hissue, _⟩
  · obtain ⟨c, hc, rfl⟩ := rows_eq_some.mp hrow
    exact ⟨c, hc, hstatus⟩
  · cases hkind.symm.trans hissue

/-- The order of a stored issuance task is processing or invalid. -/
theorem issuance_target (hinv : s.contract.Inv w) {id : String} {t : Task}
    (ht : w.store.tasks.lookup id = some t) (hkind : t.kind = .issue) :
    ∃ o, w.store.orders.lookup t.targetID = some o ∧
      (o.status = .processing ∨ o.status = .invalid) := by
  rcases task_allowed hinv ht with ⟨hvalidate, _⟩ | ⟨_, row, hrow, hstatus⟩
  · cases hkind.symm.trans hvalidate
  · obtain ⟨o, ho, rfl⟩ := rows_eq_some.mp hrow
    exact ⟨o, ho, hstatus⟩

/-! ## The end of a task -/

/-- After the given history a store call of the thread has failed because its context had ended. -/
def Interrupted (thread : Nat) (start : List Event) (w : World) : Prop :=
  ∃ e earlier, e :: earlier <:+ w.history ∧ start <:+ earlier ∧ e.thread = thread ∧
    e.interrupted = true

/-- The claim of the task no longer holds its lease: the task is removed, its lease is zero, or
another claim has raised its fence. -/
def Released (task : Task) (store : Store) : Prop :=
  ∀ t, store.tasks.lookup task.id = some t → t.leaseUntil = 0 ∨ task.fence < t.fence

/-- How a run of a task may end. -/
def Ended (thread : Nat) (start : List Event) (task : Task) (w : World) : Prop :=
  Interrupted thread start w ∨ Released task w.store

theorem Claimed.follows (h : Claimed s start task w) :
    TaskFollows (some task) (w.store.tasks.lookup task.id) := by
  obtain ⟨u, hu, hlater, htask⟩ := h.stored
  have hfollows := task_follows hlater (enqueued_of_stored hu htask)
  rwa [htask] at hfollows

/-- The fence of a claimed task does not go back. -/
theorem Claimed.fence_le (h : Claimed s start task w) {t : Task}
    (ht : w.store.tasks.lookup task.id = some t) : task.fence ≤ t.fence := by
  have hfollows := h.follows
  rw [ht] at hfollows
  cases hfollows with
  | claimed hfence => omega
  | held hfence _ => omega

/-- A task that is released stays released by this claim. -/
theorem Released.later (hclaimed : Claimed s start task u) (hlater : s.contract.Later u w)
    (h : Released task u.store) : Released task w.store := by
  intro t ht
  obtain ⟨v, hv, hpath, hstored⟩ := hclaimed.stored
  have hfollows := task_follows hlater ((enqueued_of_stored hv hstored).later hpath)
  rw [ht] at hfollows
  cases hbefore : u.store.tasks.lookup task.id with
  | none =>
      rw [hbefore] at hfollows
      cases hfollows
  | some t₀ =>
      have hle := hclaimed.fence_le hbefore
      rw [hbefore] at hfollows
      cases hfollows with
      | claimed hfence => exact .inr (by omega)
      | held hfence hlease =>
          rcases h t₀ hbefore with hzero | hraised
          · rw [hzero, or_self] at hlease
            exact .inl hlease
          · exact .inr (by omega)

theorem Ended.later (hclaimed : Claimed s start task u) (hlater : s.contract.Later u w)
    (h : Ended thread start task u) : Ended thread start task w := by
  rcases h with ⟨e, earlier, he, hrest⟩ | hreleased
  · exact .inl ⟨e, earlier, he.trans (later_progress hlater).history, hrest⟩
  · exact .inr (hreleased.later hclaimed hlater)

/-- A claim that is lost holds no lease. -/
theorem released_of_lost (hclaimed : Claimed s start task w) (h : Lost w.store task) :
    Released task w.store := by
  intro t ht
  have hle := hclaimed.fence_le ht
  have hne := h t ht
  exact .inr (by omega)

/-- A call that fails because of its context or a lost claim ends the run. -/
theorem ended_of_refusal {seen : World} {c : StoreCall} {env : CallEnv} {e : StoreError}
    (hclaimed : Claimed s start task seen) (hlater : s.contract.Later seen w)
    (hstore : w.store = seen.store.after env c)
    (hnoted : w.history =
      ⟨thread, seen.store, .store c, (seen.store.apply env c).1⟩ :: seen.history)
    (herror : (seen.store.apply env c).1.result = .error e)
    (h : (∃ cause, e = .context cause) ∨ Lost seen.store task) : Ended thread start task w := by
  rcases h with ⟨cause, rfl⟩ | hlost
  · refine .inl ⟨⟨thread, seen.store, .store c, (seen.store.apply env c).1⟩, seen.history, ?_,
      hclaimed.begun, rfl, ?_⟩
    · rw [hnoted]
    · generalize (seen.store.apply env c).1 = reply at herror
      obtain ⟨result, args⟩ := reply
      cases show result = _ from herror
      rfl
  · rw [(apply_error herror).1] at hstore
    exact .inr (released_of_lost (hclaimed.later hlater) (hstore ▸ hlost))

/-- A commit that releases or removes the task ends the run. -/
theorem released_of_commit {store store' : Store} {c : StoreCall} {t : Task}
    (h : Commit store c store') (hc : c.releases = some t ∨ c.removes = some t)
    (hid : t.id = task.id) : Released task store' := by
  intro stored hstored
  rw [← hid] at hstored
  rcases hc with hreleases | hremoves
  · obtain ⟨found, hfound, hlease⟩ := commit_releases h hreleases
    cases Option.some.inj (hstored.symm.trans hfound)
    exact .inl hlease
  · rw [commit_removes h hremoves] at hstored
    cases hstored

/-! ## Releasing and dropping tasks -/

/-- Releasing a task ends its run. -/
theorem store_reschedule_safe {t : Task} (hclaimed : Claimed s start task w) (hid : t.id = task.id)
    (hfence : t.fence = task.fence) :
    s.contract.Safe thread (Server.storeReschedule t) (fun _ => Ended thread start task) w := by
  unfold Server.storeReschedule
  refine safe_store_noted (by intros; trivial) ?_
  intro env w₁ w₂ h₁ _ _ h₂ hfits hstore hnoted
  have hclaimed₂ := hclaimed.later (h₁.later.trans h₂)
  refine safe_done fun w₃ h₃ _ => Ended.later hclaimed₂ h₃.later ?_
  cases hresult : (w₁.store.apply env (.rescheduleTask t)).1.result with
  | error e =>
      refine ended_of_refusal (hclaimed.later h₁.later) h₂ hstore hnoted hresult ?_
      refine (reschedule_task_error hresult).imp_right fun hlost stored hstored => ?_
      rw [← hfence]
      exact hlost stored (hid ▸ hstored)
  | ok v =>
      rw [Ended, hstore]
      exact .inr (released_of_commit (commit_of_ok hfits hresult) (.inl rfl) hid)

theorem reschedule_safe (hclaimed : Claimed s start task w) :
    s.contract.Safe thread (s.reschedule task) (fun _ => Ended thread start task) w :=
  safe_ask (by intros; trivial) fun _ _ h₁ _ =>
    store_reschedule_safe (hclaimed.later h₁.later) rfl rfl

/-- A task whose target exists is released. -/
theorem drop_on_not_found_safe (hclaimed : Claimed s start task w) {err : StoreError}
    (h : err ≠ .notFound) :
    s.contract.Safe thread (s.dropOnNotFound task err) (fun _ => Ended thread start task) w := by
  unfold Server.dropOnNotFound
  rw [if_neg h]
  exact reschedule_safe hclaimed

/-- Removing a task ends its run. -/
theorem finish_task_safe (hclaimed : Claimed s start task w)
    (h : ∀ w', s.contract.Later w w' → s.contract.Inv w' → TaskRemoval w'.store task) :
    s.contract.Safe thread (Server.finishTask task) (fun _ => Ended thread start task) w := by
  unfold Server.finishTask
  refine safe_store_noted (fun w₁ h₁ hinv => h w₁ h₁.later hinv) ?_
  intro env w₁ w₂ h₁ _ _ h₂ hfits hstore hnoted
  have hclaimed₂ := hclaimed.later (h₁.later.trans h₂)
  refine safe_done fun w₃ h₃ _ => Ended.later hclaimed₂ h₃.later ?_
  cases hresult : (w₁.store.apply env (.finishTask task)).1.result with
  | error e =>
      exact ended_of_refusal (hclaimed.later h₁.later) h₂ hstore hnoted hresult
        (finish_task_error hresult)
  | ok v =>
      rw [Ended, hstore]
      exact .inr (released_of_commit (commit_of_ok hfits hresult) (.inr rfl) rfl)

section Nothing

variable {α : Type} {P : α → World → Prop}

/-- A part of a run that goes on with a result, or ends the run. -/
def Continues (thread : Nat) (start : List Event) (task : Task) (P : α → World → Prop)
    (result : Option α) (after : World) : Prop :=
  match result with
  | some a => P a after
  | none => Ended thread start task after

/-- A part of a run that ends without a result. -/
theorem nothing_safe {program : Prog Unit}
    (h : s.contract.Safe thread program (fun _ => Ended thread start task) w) :
    s.contract.Safe thread (program >>= fun _ => pure none) (Continues thread start task P) w :=
  safe_bind (h.stable.weaken fun _ _ _ hended => safe_done hended)

theorem drop_safe (hclaimed : Claimed s start task w) {err : StoreError} (h : err ≠ .notFound) :
    s.contract.Safe thread (s.dropOnNotFound task err >>= fun _ => pure none)
      (Continues thread start task P) w :=
  nothing_safe (drop_on_not_found_safe hclaimed h)

end Nothing

/-- Reading a record that is known to exist. -/
theorem safe_existing {α : Type} {c : StoreCall} {lookup : Store → Option c.Value}
    (hreads : Reads c lookup) {next : Except StoreError c.Value → Prog α} {post : α → World → Prop}
    (hexists : ∀ seen, s.contract.Rely thread w seen → s.contract.Inv seen →
      ∃ v, lookup seen.store = some v)
    (herror : ∀ cause seen, s.contract.Rely thread w seen →
      s.contract.Safe thread (next (.error (.context cause))) post seen)
    (hok : ∀ v seen, s.contract.Rely thread w seen → s.contract.Inv seen →
      lookup seen.store = some v → s.contract.Safe thread (next (.ok v)) post seen) :
    s.contract.Safe thread (fetch c >>= next) post w := by
  refine safe_lookup hreads fun result seen hrely hinv hvalue hfailed => ?_
  cases result with
  | ok v => exact hok v seen hrely hinv (hvalue v rfl)
  | error err =>
      rcases hfailed err rfl with ⟨_, hnone⟩ | ⟨cause, rfl⟩
      · obtain ⟨v, hv⟩ := hexists seen hrely hinv
        rw [hnone] at hv
        cases hv
      · exact herror cause seen hrely

/-! ## Validation -/

/-- A validation task whose challenge has been settled is gone. -/
theorem settled_task_removal (hclaimed : Claimed s start task u) (hkind : task.kind = .validate)
    {ch : Challenge} (hch : u.store.challenges.lookup task.targetID = some ch)
    (hsettled : ch.status.terminal = true) (hlater : s.contract.Later u w)
    (hinv : s.contract.Inv w) : TaskRemoval w.store task := by
  intro stored hstored _
  obtain ⟨hstoredKind, htarget⟩ := (hclaimed.later hlater).work hinv hstored
  obtain ⟨c, hc, hprocessing⟩ := validation_target hinv hstored (hstoredKind.trans hkind)
  rw [htarget] at hc
  have hsteps := (later_progress hlater).challenges.steps hch hc
  rw [← challenge_terminal_eq hsteps hsettled, hprocessing] at hsettled
  cases hsettled

/-- What a validation has read when it starts: the processing challenge of its task and the
authorization of that challenge. -/
structure ValidationRead (s : Server) (start : List Event) (task : Task) (ch : Challenge)
    (authz : Authorization) (w : World) : Prop where
  claimed : Claimed s start task w
  kind : task.kind = .validate
  target : ch.id = task.targetID
  processing : ch.status = .processing
  challenge : s.contract.Once (fun u => u.store.challenges.lookup ch.id = some ch) w
  linked : authz.id = ch.authorizationID
  authorization : s.contract.Once (fun u => u.store.authzs.lookup authz.id = some authz) w

theorem ValidationRead.later {ch : Challenge} {authz : Authorization}
    (h : ValidationRead s start task ch authz u) (hlater : s.contract.Later u w) :
    ValidationRead s start task ch authz w :=
  { h with
    claimed := h.claimed.later hlater
    challenge := h.challenge.later hlater
    authorization := h.authorization.later hlater }

theorem validation_targets_safe (hclaimed : Claimed s start task w)
    (hkind : task.kind = .validate) :
    s.contract.Safe thread (s.validationTargets task) (Continues thread start task fun found =>
      ValidationRead s start task found.1 found.2.1) w := by
  have ⟨u, hu, hlater, htask⟩ := hclaimed.stored
  obtain ⟨c, hc, hprocessing⟩ := validation_target hu htask hkind
  unfold Server.validationTargets
  refine safe_existing (reads_challenge _) ?_
    (fun _ seen hseen => drop_safe (hclaimed.later hseen.later) nofun) ?_
  · intro seen hseen _
    obtain ⟨c', hc', _⟩ := (later_progress (hlater.trans hseen.later)).challenges _ c hc
    exact ⟨c', hc'⟩
  · intro ch w₁ h₁ hinv₁ hch
    have hclaimed₁ : Claimed s start task w₁ := hclaimed.later h₁.later
    have hsteps := (later_progress (hlater.trans h₁.later)).challenges.steps hc hch
    dsimp only
    split
    · rename_i hnot
      have hsettled := (challenge_accepted hsteps hprocessing).resolve_left hnot
      refine nothing_safe (finish_task_safe hclaimed₁ fun w₂ h₂ hinv₂ => ?_)
      exact settled_task_removal hclaimed₁ hkind hch hsettled h₂ hinv₂
    · rename_i hstatus
      rw [not_not] at hstatus
      refine safe_existing (reads_authorization _) ?_
        (fun _ seen hseen => drop_safe (hclaimed₁.later hseen.later) nofun) ?_
      · intro seen hseen _
        obtain ⟨a, ha⟩ := challenge_authorization_stored hinv₁ hch
        obtain ⟨a', ha', _⟩ := (later_progress hseen.later).authzs _ a ha
        exact ⟨a', ha'⟩
      · intro authz w₂ h₂ hinv₂ hauthz
        refine safe_existing (reads_account _) ?_
          (fun _ seen hseen => drop_safe (hclaimed₁.later (h₂.trans hseen).later) nofun) ?_
        · intro seen hseen _
          obtain ⟨a, ha⟩ := challenge_account_stored hinv₁ hch
          obtain ⟨a', ha', _⟩ := (later_progress (h₂.trans hseen).later).accounts _ a ha
          exact ⟨a', ha'⟩
        · intro account w₃ h₃ _ _
          refine safe_done fun w₄ h₄ _ => ?_
          have hid := hinv₁.keyed.challenges _ ch hch
          have haid := hinv₂.keyed.authzs _ authz hauthz
          exact {
            claimed := hclaimed₁.later ((h₂.trans h₃).trans h₄).later
            kind := hkind
            target := hid
            processing := hstatus
            challenge := ⟨w₁, hinv₁, ((h₂.trans h₃).trans h₄).later, by rwa [hid]⟩
            linked := haid
            authorization := ⟨w₂, hinv₂, (h₃.trans h₄).later, by rwa [haid]⟩ }

/-- What the derivation took for an authorization of an unchanged order is what the commit of the
updated authorization leaves. -/
theorem observed_lookup {id aid : String} {o : Order} {authz a : Authorization}
    (ho : u.store.orders.lookup id = some o) (ho' : w.store.orders.lookup id = some o)
    (hopen : o.status = .pending) (haid : aid ∈ o.authorizationIDs)
    (h : Observed s u (some authz) aid a w) :
    (w.store.authzs.insert authz.id authz).lookup aid = some a := by
  rcases h with ⟨hgiven, hid⟩ | ⟨hother, v, _, hlater, huv, hlookup⟩
  · cases hgiven
    rw [← hid]
    exact Finmap.lookup_insert _
  · rw [Finmap.lookup_insert_of_ne _ (hother authz rfl).symm]
    have hbetween := order_between huv hlater ho ho'
    rw [(later_progress hlater).frozen id o o hbetween (.inl hopen) ho' rfl aid haid, hlookup]

/-- The derived status is the one that the authorizations imply after the commit. -/
theorem derived_implies {id : String} {o : Order} {authz : Authorization} {status : OrderStatus}
    (ho : u.store.orders.lookup id = some o) (ho' : w.store.orders.lookup id = some o)
    (hopen : o.status = .pending)
    (h : Derived s u (some authz) true o.authorizationIDs w status) :
    Implies (rows authorizationRow (w.store.authzs.insert authz.id authz)) (orderRow o)
      status := by
  have hrow : ∀ aid ∈ o.authorizationIDs, ∀ a, Observed s u (some authz) aid a w →
      rows authorizationRow (w.store.authzs.insert authz.id authz) aid =
        some (authorizationRow a) :=
    fun aid haid a ha => rows_of_lookup (observed_lookup ho ho' hopen haid ha)
  cases status with
  | ready =>
      intro aid haid row hfound
      obtain ⟨a, ha, hvalid⟩ := h.2 aid haid
      rw [hrow aid haid a ha] at hfound
      cases hfound
      exact hvalid
  | pending =>
      refine ⟨fun aid haid row hfound => ?_, ?_⟩
      · obtain ⟨a, ha, hlive⟩ := h.1 aid haid
        rw [hrow aid haid a ha] at hfound
        cases hfound
        exact hlive
      · obtain ⟨aid, haid, a, ha, hpending⟩ := h.2 rfl
        exact ⟨aid, haid, _, hrow aid haid a ha, hpending⟩
  | invalid => trivial
  | processing => exact h
  | valid => exact h

/-- The outcome a validation presents: a settled copy of the challenge it read, and a decision about
the authorization it read last. -/
structure Presented (s : Server) (start : List Event) (task : Task) (ch : Challenge)
    (authz : Authorization) (w : World) : Prop where
  claimed : Claimed s start task w
  kind : task.kind = .validate
  target : ch.id = task.targetID
  challenge : s.contract.Once (fun u => ∃ c, u.store.challenges.lookup ch.id = some c ∧
    ch.revision = c.revision ∧ c.status = .processing ∧
    challengeTerms ch = challengeTerms c) w
  linked : authz.id = ch.authorizationID
  decided : s.contract.Once (fun u => ∃ a, u.store.authzs.lookup authz.id = some a ∧
    authz.revision = a.revision ∧ Decision a authz ch.status) w

theorem Presented.later {ch : Challenge} {authz : Authorization}
    (h : Presented s start task ch authz u) (hlater : s.contract.Later u w) :
    Presented s start task ch authz w :=
  { h with
    claimed := h.claimed.later hlater
    challenge := h.challenge.later hlater
    decided := h.decided.later hlater }

theorem Decision.order_eq {a a' : Authorization} {status : ChallengeStatus}
    (h : Decision a a' status) : a'.orderID = a.orderID := by
  cases h with
  | kept => rfl
  | validated _ _ _ hterms _ =>
      have horder := congrArg Authorization.orderID hterms
      exact horder
  | refused _ => rfl

/-- The order as a validation stores it. -/
def settledOrder (order : Order) (status : OrderStatus) : Order :=
  if order.status = .pending ∧ status ≠ .pending then { order with status := status } else order

theorem settled_order_fields (order : Order) (status : OrderStatus) :
    settledOrder order status = { order with status := (settledOrder order status).status } ∧
      (order.status = .pending → (settledOrder order status).status = status) ∧
      (order.status ≠ .pending → (settledOrder order status).status = order.status) := by
  unfold settledOrder
  split
  · rename_i h
    exact ⟨rfl, fun _ => rfl, fun hnot => absurd h.1 hnot⟩
  · rename_i h
    refine ⟨rfl, fun hpending => ?_, fun _ => rfl⟩
    by_contra hne
    exact h ⟨hpending, fun heq => hne (hpending.trans heq.symm)⟩

/-- A presented outcome with the order it was derived for may be committed. -/
theorem validation_commit {ch : Challenge} {authz : Authorization} {order : Order}
    {status : OrderStatus} (h : Presented s start task ch authz w) (hinv : s.contract.Inv w)
    (hu : s.contract.Inv u) (hlater : s.contract.Later u w)
    (ho : u.store.orders.lookup authz.orderID = some order)
    (hderived : Derived s u (some authz) true order.authorizationIDs w status) :
    ValidationCommit w.store ⟨task, ch, authz, settledOrder order status⟩ := by
  intro t ht _ c hc hcRevision a ha haRevision o ho' hoRevision
  obtain ⟨hkind, htarget⟩ := h.claimed.work hinv ht
  -- Every stored record is at the revision that was read, so it is the record that was read.
  obtain ⟨_, _, hread, c₀, hc₀, hrevision, hprocessing, hterms⟩ := h.challenge
  cases challenge_unchanged hread hc₀ hc (hcRevision.trans hrevision)
  obtain ⟨_, _, hread', a₀, ha₀, hrevision', hdecision⟩ := h.decided
  cases authorization_unchanged hread' ha₀ ha (haRevision.trans hrevision')
  obtain ⟨hfields, hpending, hother⟩ := settled_order_fields order status
  have hkey : order.id = authz.orderID := hu.keyed.orders _ _ ho
  have hid : (settledOrder order status).id = authz.orderID := by
    rw [hfields]
    exact hkey
  have hauthorization := congrArg Challenge.authorizationID hterms
  have hrevision'' : (settledOrder order status).revision = order.revision := by rw [hfields]
  change w.store.orders.lookup (settledOrder order status).id = some o at ho'
  rw [hid] at ho'
  cases order_unchanged hlater ho ho' (hoRevision.trans hrevision'')
  exact {
    kind := hkind.trans h.kind
    target := htarget.trans h.target.symm
    processing := hprocessing
    challenge := hterms
    authorization := h.linked.trans hauthorization
    decision := hdecision
    order := hid.trans (Decision.order_eq hdecision)
    fields := hfields
    derived := by
      split
      · rename_i hstatus
        rw [hpending hstatus]
        exact derived_implies ho ho' hstatus hderived
      · rename_i hstatus
        exact hother hstatus }

/-- A decision about an undecided authorization carries over to its later revisions. -/
theorem Decision.carry {a current a' : Authorization} {status : ChallengeStatus}
    (h : Decision a a' status) (hsame : current = { a with revision := current.revision })
    (hpending : current.status = .pending) :
    Decision current { a' with revision := current.revision } status := by
  cases h with
  | kept =>
      rw [← hsame]
      exact .kept
  | validated _ _ hvalid hterms _ =>
      refine .validated _ hpending hvalid ?_ rfl
      rw [hsame]
      exact hterms
  | refused _ =>
      have hrefused : ({ { a with status := .invalid } with revision := current.revision } :
          Authorization) = { current with status := .invalid } := by rw [hsame]
      rw [hrefused]
      exact .refused hpending

theorem complete_validation_safe (rounds : Nat) {ch : Challenge} {authz : Authorization}
    (h : Presented s start task ch authz w) :
    s.contract.Safe thread (s.completeValidation task rounds ch authz)
      (fun _ => Ended thread start task) w := by
  induction rounds generalizing ch authz w with
  | zero => exact reschedule_safe h.claimed
  | succ rounds ih =>
      unfold Server.completeValidation
      obtain ⟨v, hv, hvw, a, ha, _, hdecision⟩ := h.decided
      refine safe_existing (reads_order _) ?_
        (fun _ seen hseen => drop_on_not_found_safe (h.claimed.later hseen.later) nofun) ?_
      · intro seen hseen _
        obtain ⟨o, ho, _⟩ := authorization_order_stored hv.coherent.linked ha
        obtain ⟨o', ho', _⟩ := (later_progress (hvw.trans hseen.later)).orders _ o ho
        exact ⟨o', (Decision.order_eq hdecision).symm ▸ ho'⟩
      · intro order w₁ h₁ hinv₁ horder
        refine safe_bind (Safe.weaken (Safe.since (.refl w₁)
          (derive_order_status_safe (.refl w₁) order (some authz))) ?_)
        rintro result w₂ _ ⟨h₂, hderived⟩
        have hpresented := h.later (h₁.later.trans h₂)
        cases result with
        | error err => exact reschedule_safe hpresented.claimed
        | ok status =>
            refine safe_store (fun w₃ h₃ hinv₃ => ?_) fun env w₃ w₄ h₃ _ _ h₄ hfits hstore => ?_
            · exact validation_commit (hpresented.later h₃.later) hinv₃ hinv₁
                (h₂.trans h₃.later) horder ((hderived status rfl).later h₃.later)
            · have hclaimed₄ := hpresented.claimed.later (h₃.later.trans h₄)
              split
              · rename_i hok
                refine safe_done fun w₅ h₅ _ => Ended.later hclaimed₄ h₅.later ?_
                rw [Ended, hstore]
                exact .inr (released_of_commit (commit_of_ok hfits hok) (.inr rfl) rfl)
              · have hlater := (h₁.later.trans h₂).trans (h₃.later.trans h₄)
                refine safe_existing (reads_authorization _) ?_
                  (fun _ seen hseen =>
                    drop_on_not_found_safe (hclaimed₄.later hseen.later) nofun) ?_
                · intro seen hseen _
                  obtain ⟨a', ha', _⟩ := (later_progress
                    ((hvw.trans hlater).trans hseen.later)).authzs _ a ha
                  exact ⟨a', ha'⟩
                · intro current w₅ h₅ hinv₅ hcurrent
                  refine safe_ask (by intros; trivial) fun now w₆ h₆ _ => ?_
                  have hpresented₆ := h.later ((hlater.trans h₅.later).trans h₆.later)
                  have hid : current.id = authz.id := hinv₅.keyed.authzs _ current hcurrent
                  dsimp only
                  split
                  · exact ih { hpresented₆ with
                      linked := hid.trans h.linked
                      decided := ⟨w₅, hinv₅, h₆.later, current, by rwa [hid], rfl, .kept⟩ }
                  · rename_i hpending
                    have hstatus := effective_authz_pending (not_not.mp hpending)
                    have hsteps := (later_progress
                      ((hvw.trans hlater).trans h₅.later)).authzs.steps ha hcurrent
                    have hsame := authorization_undecided hsteps hstatus
                    exact ih { hpresented₆ with
                      decided := ⟨w₅, hinv₅, h₆.later, current, hcurrent, rfl,
                        Decision.carry hdecision hsame hstatus⟩ }
              · exact reschedule_safe hclaimed₄

/-- The outcome of a validation that has read its records: the challenge is settled with a decision
about the authorization. -/
theorem ValidationRead.presented {ch ch' : Challenge} {authz authz' : Authorization}
    (h : ValidationRead s start task ch authz w) (hterms : challengeTerms ch' = challengeTerms ch)
    (hrevision : ch'.revision = ch.revision) (hid : authz'.id = authz.id)
    (hrevision' : authz'.revision = authz.revision)
    (hdecision : Decision authz authz' ch'.status) : Presented s start task ch' authz' w := by
  have hchallenge := congrArg Challenge.id hterms
  have hauthorization := congrArg Challenge.authorizationID hterms
  change ch'.id = ch.id at hchallenge
  refine ⟨h.claimed, h.kind, hchallenge.trans h.target, ?_, hid.trans (h.linked.trans ?_), ?_⟩
  · refine h.challenge.mono fun u _ hu => ⟨ch, ?_, hrevision, h.processing, hterms⟩
    rwa [hchallenge]
  · exact hauthorization.symm
  · refine h.authorization.mono fun u _ hu => ⟨authz, ?_, hrevision', hdecision⟩
    rwa [hid]

theorem retry_validation_safe {ch ch' : Challenge} {authz : Authorization} (now : Time)
    (h : ValidationRead s start task ch authz w)
    (hretry : ∃ error, ch' = { ch with error := error }) :
    s.contract.Safe thread (s.retryValidation task ch' now)
      (fun _ => Ended thread start task) w := by
  unfold Server.retryValidation
  obtain ⟨error, rfl⟩ := hretry
  obtain ⟨u, _, hu, hch⟩ := h.challenge
  refine safe_store_noted (fun w₁ h₁ _ => ?_) ?_
  · intro stored hstored hrevision
    cases challenge_unchanged (hu.trans h₁.later) hch hstored hrevision
    exact ⟨error, rfl⟩
  · intro env w₁ w₂ h₁ _ _ h₂ hfits hstore hnoted
    have hclaimed₂ := h.claimed.later (h₁.later.trans h₂)
    split
    · exact store_reschedule_safe hclaimed₂ rfl rfl
    · rename_i hother
      refine safe_done fun w₃ h₃ _ => Ended.later hclaimed₂ h₃.later ?_
      generalize hreply : (w₁.store.apply env _).1.result = result at hother
      cases result with
      | ok v =>
          rw [Ended, hstore]
          exact .inr (released_of_commit (commit_of_ok hfits hreply) (.inl rfl) rfl)
      | error e =>
          refine ended_of_refusal (h.claimed.later h₁.later) h₂ hstore hnoted hreply ?_
          have hcurrent : e ≠ .revisionMismatch := fun he => hother (congrArg _ he)
          refine (retry_validation_error hreply hcurrent).imp_right fun hrest => ?_
          refine hrest.resolve_right fun hnone => ?_
          obtain ⟨c, hc, _⟩ := (later_progress (hu.trans h₁.later)).challenges _ ch hch
          rw [show w₁.store.challenges.lookup ch.id = none from hnone] at hc
          cases hc

theorem refuse_validation_safe {ch : Challenge} {authz : Authorization} (p : Problem)
    (h : ValidationRead s start task ch authz w) (hpending : authz.status = .pending) :
    s.contract.Safe thread (s.refuseValidation task ch authz p)
      (fun _ => Ended thread start task) w :=
  complete_validation_safe 3 (h.presented rfl rfl rfl rfl (.refused hpending))

theorem settle_validation_safe {ch : Challenge} {authz : Authorization} (now : Time)
    (outcome : Except HostError ValidationGrant) (h : ValidationRead s start task ch authz w)
    (hpending : authz.status = .pending) :
    s.contract.Safe thread (s.settleValidation task ch authz now outcome)
      (fun _ => Ended thread start task) w := by
  unfold Server.settleValidation
  split
  · exact complete_validation_safe 3
      (h.presented rfl rfl rfl rfl (.validated _ hpending rfl rfl rfl))
  · split
    · exact refuse_validation_safe _ h hpending
    · split
      · exact retry_validation_safe now h ⟨_, rfl⟩
      · exact refuse_validation_safe _ h hpending

theorem harmless_validate (kind : ValidatorKind) (type : ChallengeType) (req : ValidationRequest) :
    s.contract.Harmless (s.validate kind type req) := by
  unfold Server.validate
  refine Harmless.bind (harmless_ask (by intros; trivial)) fun result => ?_
  cases kind <;> trivial

theorem run_validation_safe (hclaimed : Claimed s start task w) (hkind : task.kind = .validate) :
    s.contract.Safe thread (s.runValidation task) (fun _ => Ended thread start task) w := by
  unfold Server.runValidation
  refine safe_bind ((validation_targets_safe hclaimed hkind).stable.weaken ?_)
  intro result w₁ hinv₁ hfound
  cases result with
  | none => exact safe_done hfound
  | some found =>
      obtain ⟨ch, authz, account⟩ := found
      have hread : ValidationRead s start task ch authz w₁ := hfound w₁ (.refl _) hinv₁
      refine safe_ask (by intros; trivial) fun now w₂ h₂ _ => ?_
      have hread₂ := hread.later h₂.later
      dsimp only
      split
      · exact complete_validation_safe 3 (hread₂.presented rfl rfl rfl rfl .kept)
      · rename_i hstatus
        have hpending := effective_authz_pending (not_not.mp hstatus)
        split
        · exact refuse_validation_safe _ hread₂ hpending
        · split
          · exact refuse_validation_safe _ hread₂ hpending
          · refine safe_bind ((harmless_validate _ _ _).safe fun result w₃ h₃ _ => ?_)
            refine safe_ask (by intros; trivial) fun later w₄ h₄ _ => ?_
            exact settle_validation_safe _ _ (hread₂.later (h₃.trans h₄).later) hpending

end AcmeServer.Safety
