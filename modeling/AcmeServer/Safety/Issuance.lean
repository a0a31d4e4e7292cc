import AcmeServer.Safety.Worker

/-!
# Safety of the worker: issuance

The worker settles the order it has read, with the certificate the issuer returned or with an
error, and it asks the issuer only about an order whose issuance state is stored
(`issue_order_safe`).
-/

namespace AcmeServer.Safety

open Interaction Interaction.Contract Memstore Protocol Lifecycle

variable {s : Server} {thread : Nat} {u w : World} {start : List Event} {task : Task}
  {o : Order}

/-! ## Orders in issuance -/

/-- The worker has read the processing order of its task. -/
structure IssuanceRead (s : Server) (start : List Event) (task : Task) (o : Order) (w : World) :
    Prop where
  claimed : Claimed s start task w
  kind : task.kind = .issue
  target : o.id = task.targetID
  processing : o.status = .processing
  order : s.contract.Once (fun u => u.store.orders.lookup o.id = some o) w

theorem IssuanceRead.later (h : IssuanceRead s start task o u) (hlater : s.contract.Later u w) :
    IssuanceRead s start task o w :=
  { h with
    claimed := h.claimed.later hlater
    order := h.order.later hlater }

/-- A processing order has no certificate yet. -/
theorem IssuanceRead.unpublished (h : IssuanceRead s start task o w) : o.certificateID = "" := by
  obtain ⟨u, hu, _, ho⟩ := h.order
  have hshaped := hu.coherent.shaped (rows_of_lookup ho)
  by_contra hset
  have hvalid : o.status = .valid := hshaped.published.mpr hset
  rw [h.processing] at hvalid
  cases hvalid

/-- An outcome for the order that was read may be committed. -/
theorem issuance_commit {order : Order} {cert : Option Certificate}
    (h : IssuanceRead s start task o w) (hinv : s.contract.Inv w) (hid : order.id = o.id)
    (hrevision : order.revision = o.revision) (hconcludes : Concludes o order cert) :
    IssuanceCommit w.store ⟨task, order, cert⟩ := by
  intro t ht _ stored hstored hsame
  obtain ⟨hkind, htarget⟩ := h.claimed.work hinv ht
  obtain ⟨u, _, hu, ho⟩ := h.order
  change w.store.orders.lookup order.id = some stored at hstored
  rw [hid] at hstored
  cases order_unchanged hu ho hstored (hsame.trans hrevision)
  exact ⟨hkind.trans h.kind, (htarget.trans h.target.symm).trans hid.symm, h.processing,
    hconcludes⟩

/-- A commit that removes the task of the run. -/
theorem ended_of_removal {store : Store} {c : StoreCall} {env : CallEnv}
    (hstore : w.store = store.after env c) (hcommit : Commit store c (store.after env c))
    (hremoves : c.removes = some task) : Ended thread start task w := by
  rw [Ended, hstore]
  exact .inr (released_of_commit hcommit (.inr hremoves) rfl)

/-- The order differs from the one that was read at most in its status, its error and a retained
result. -/
def Variant (o order : Order) : Prop :=
  order = { o with
    status := order.status
    error := order.error
    unpublishedResult := order.unpublishedResult }

theorem fail_order_safe {order : Order} (p : Problem) (h : IssuanceRead s start task o w)
    (hvariant : Variant o order) :
    s.contract.Safe thread (s.failOrder task order p) (fun _ => Ended thread start task) w := by
  unfold Server.failOrder
  refine safe_store (fun w₁ h₁ hinv => ?_) fun env w₁ w₂ h₁ _ _ h₂ hfits hstore => ?_
  · unfold Variant at hvariant
    refine issuance_commit (h.later h₁.later) hinv ?_ ?_
      ⟨some p, order.unpublishedResult, by rw [hvariant]⟩
    · rw [hvariant]
    · rw [hvariant]
  · have hclaimed₂ := h.claimed.later (h₁.later.trans h₂)
    split
    · rename_i hok
      exact safe_done fun w₃ h₃ _ => Ended.later hclaimed₂ h₃.later
        (ended_of_removal hstore (commit_of_ok hfits hok) rfl)
    · exact reschedule_safe hclaimed₂

/-! ## Results of the issuer -/

theorem publish_certificate_safe {result : IssueResult} {cert : Certificate}
    (h : IssuanceRead s start task o w) (hdispatched : o.issuance ≠ none)
    (horder : cert.orderID = o.id) (hopen : cert.revoked = false)
    (hunrecorded : cert.revocationOperationID = "") :
    s.contract.Safe thread (s.publishCertificate task o result cert)
      (fun _ => Ended thread start task) w := by
  unfold Server.publishCertificate
  refine safe_store (fun w₁ h₁ hinv => ?_) fun env w₁ w₂ h₁ _ _ h₂ hfits hstore => ?_
  · exact issuance_commit (h.later h₁.later) hinv rfl rfl
      ⟨hdispatched, horder, hopen, hunrecorded, rfl⟩
  · have hread₂ := h.later (h₁.later.trans h₂)
    split
    · rename_i hok
      exact safe_done fun w₃ h₃ _ => Ended.later hread₂.claimed h₃.later
        (ended_of_removal hstore (commit_of_ok hfits hok) rfl)
    · refine fail_order_safe _ hread₂ ?_
      unfold Variant
      rw [h.unpublished]
    · exact reschedule_safe hread₂.claimed

theorem record_issued_result_safe {csr : Bytes} {result : IssueResult} {now : Time}
    {err : Option HostError} (h : IssuanceRead s start task o w) (hdispatched : o.issuance ≠ none) :
    s.contract.Safe thread (s.recordIssuedResult task o csr result now err)
      (fun _ => Ended thread start task) w := by
  unfold Server.recordIssuedResult
  split
  · split
    · exact fail_order_safe _ h rfl
    · exact publish_certificate_safe h hdispatched rfl rfl rfl
  · exact fail_order_safe _ h rfl

/-- The order is stored with an issuance state. -/
def Dispatched (id : String) (store : Store) : Prop :=
  ∃ o, store.orders.lookup id = some o ∧ o.issuance ≠ none

theorem IssuanceRead.dispatched (h : IssuanceRead s start task o w)
    (hdispatched : o.issuance ≠ none) : Dispatched o.id w.store := by
  obtain ⟨u, _, hlater, ho⟩ := h.order
  obtain ⟨o', ho', hsteps⟩ := (later_progress hlater).orders _ o ho
  refine ⟨o', ho', ?_⟩
  rwa [order_issuance_eq hsteps hdispatched]

/-- The request for a dispatched order is the one for its issuance state at a time that is read
now. -/
theorem issue_request_safe (h : IssuanceRead s start task o w) (hdispatched : o.issuance ≠ none) :
    s.contract.Safe thread (s.issueRequest o) (fun result after => ∀ req, result = .ok req →
      ∃ state now, o.issuance = some state ∧ req = s.issueRequestAt o state now ∧
        ReadClock after thread now (Dispatched o.id)) w := by
  unfold Server.issueRequest
  split
  · exact safe_done fun _ _ _ _ herror => by cases herror
  · exact safe_done fun _ _ _ _ herror => by cases herror
  · rename_i state _ hstate
    refine safe_now (fun seen hseen _ => (h.later hseen.later).dispatched hdispatched) ?_
    intro now w₁ _ _ hread
    refine safe_done fun w₂ h₂ _ req hreq => ?_
    cases hreq
    exact ⟨state, now, hstate, rfl, hread.later h₂.later⟩

/-- The issuer is asked about a stored issuance state only. -/
theorem issue_order_safe (h : IssuanceRead s start task o w) (hdispatched : o.issuance ≠ none) :
    s.contract.Safe thread (s.issueOrder task o) (fun _ => Ended thread start task) w := by
  unfold Server.issueOrder
  refine safe_bind (Safe.weaken (Safe.since (.refl w) (issue_request_safe h hdispatched)) ?_)
  rintro result w₁ _ ⟨h₁, hrequest⟩
  have hread := h.later h₁
  cases result with
  | error err => exact reschedule_safe hread.claimed
  | ok req =>
      obtain ⟨state, now, hstate, rfl, hclock⟩ := hrequest req rfl
      obtain ⟨u, hu, hlater, ho⟩ := hread.order
      have hasked : RequestedAt s u.store (s.issueRequestAt o state now) now :=
        ⟨o, state, ho, hstate, rfl⟩
      refine safe_quiet rfl (fun w₂ h₂ _ => ⟨now, ?_, hclock.later h₂.later⟩) ?_
      · exact requested_later (hlater.trans h₂.later) hasked
      · intro w₂ env answer _ h₂ _ _
        refine safe_ask (by intros; trivial) fun now' w₃ h₃ _ => ?_
        have hread₃ := hread.later (h₂.trans h₃).later
        have hretry : ∀ runAt, s.contract.Safe thread
            (Server.storeReschedule { task with runAt := runAt })
            (fun _ => Ended thread start task) w₃ :=
          fun _ => store_reschedule_safe hread₃.claimed rfl rfl
        split
        · exact record_issued_result_safe hread₃ hdispatched
        · split
          · exact hretry _
          · split
            · exact fail_order_safe _ hread₃ rfl
            · exact hretry _
            · exact hretry _

/-! ## Evidence -/

/-- The challenges that the loop looks up exist, and the one it returns is evidence. -/
theorem successful_challenge_safe {a : Authorization} {v : Validation} {ids : List String}
    (hidentifier : v.identifier = a.orderIdentifier) (hasked : a.preApproved = false)
    (hplain : v.preApproved = false) (hlisted : ∀ cid ∈ ids, cid ∈ a.challengeIDs)
    (h : ∀ cid ∈ ids, ∃ c, w.store.challenges.lookup cid = some c) :
    s.contract.Safe thread (Server.successfulChallenge v ids) (fun result after =>
      result ≠ .error .notFound ∧
        ∀ found, result = .ok found → Evidence after.store a found) w := by
  induction ids generalizing w with
  | nil => exact safe_done fun _ _ _ => ⟨by simp, by simp⟩
  | cons cid rest ih =>
      have hlater : ∀ seen, s.contract.Rely thread w seen → ∀ id ∈ cid :: rest,
          ∃ c, seen.store.challenges.lookup id = some c := by
        intro seen hseen id hid
        obtain ⟨c, hc⟩ := h id hid
        obtain ⟨c', hc', _⟩ := (later_progress hseen.later).challenges id c hc
        exact ⟨c', hc'⟩
      unfold Server.successfulChallenge
      refine safe_existing (reads_challenge cid) ?_ ?_ ?_
      · exact fun seen hseen _ => hlater seen hseen cid List.mem_cons_self
      · exact fun _ seen _ => safe_done fun _ _ _ => ⟨by simp, by simp⟩
      · intro ch seen hseen _ hch
        dsimp only
        split
        · rename_i hvalid
          refine safe_done fun w₁ h₁ _ => ⟨by simp, fun found hfound => ?_⟩
          cases hfound
          exact Evidence.later h₁.later ⟨hidentifier, .inr ⟨hasked, hplain, cid,
            hlisted cid List.mem_cons_self, ch, hch, hvalid, rfl, rfl⟩⟩
        · exact ih (fun id hid => hlisted id (List.mem_cons_of_mem _ hid)) fun id hid =>
            hlater seen hseen id (List.mem_cons_of_mem _ hid)

theorem validation_evidence_safe {a : Authorization} (hinv : s.contract.Inv w)
    (ha : w.store.authzs.lookup a.id = some a) :
    s.contract.Safe thread (s.validationEvidence a) (fun result after =>
      result ≠ .error .notFound ∧
        ∀ found, result = .ok found → Evidence after.store a found) w := by
  unfold Server.validationEvidence
  dsimp only
  split
  · rename_i happroved
    refine safe_done fun _ _ _ => ⟨by simp, fun found hfound => ?_⟩
    cases hfound
    exact ⟨rfl, .inl ⟨happroved, rfl, rfl, rfl⟩⟩
  · rename_i hasked
    rw [Bool.not_eq_true] at hasked
    exact successful_challenge_safe rfl hasked rfl (fun _ hcid => hcid) fun cid hcid =>
      authorization_challenge_stored hinv ha hcid

/-! ## Dispatch -/

/-- What a dispatch at the given time has collected: authorizations that were read, and the
issuance state that follows from them. -/
structure Collected (s : Server) (o : Order) (now : Time) (authzs : List Authorization)
    (state : IssuanceState) (w : World) : Prop where
  read : ∀ a ∈ authzs, s.contract.Once (fun u => u.store.authzs.lookup a.id = some a) w
  time : state.authorizedAt = now
  deadline : IsLeast (expiries o authzs) state.deadline
  ahead : ∀ t ∈ expiries o authzs, now < t
  evidence : List.Forall₂ (Evidence w.store) authzs state.validations

theorem Collected.later {now : Time} {authzs : List Authorization} {state : IssuanceState}
    (h : Collected s o now authzs state u) (hlater : s.contract.Later u w) :
    Collected s o now authzs state w :=
  { h with
    read := fun a ha => (h.read a ha).later hlater
    evidence := h.evidence.imp fun _ _ hevidence => hevidence.later hlater }

/-- The times at which one more authorization may expire. -/
theorem expiries_append (authzs : List Authorization) (a : Authorization) :
    expiries o (authzs ++ [a]) = if a.grantExpires ≠ 0
      then insert a.grantExpires (insert a.expires (expiries o authzs))
      else insert a.expires (expiries o authzs) := by
  ext t
  split
  · rename_i hgrant
    simp only [expiries, List.mem_append, List.mem_singleton, Set.mem_ofPred_eq,
      Set.mem_insert_iff]
    grind
  · rename_i hgrant
    simp only [expiries, List.mem_append, List.mem_singleton, Set.mem_ofPred_eq,
      Set.mem_insert_iff]
    grind

/-- Checking one more authorization narrows the deadline. -/
theorem including_deadline (state : IssuanceState) (a : Authorization) (v : Validation) :
    (state.including a v).deadline = if a.grantExpires ≠ 0
      then min a.grantExpires (min a.expires state.deadline)
      else min a.expires state.deadline := by
  unfold IssuanceState.including
  grind

theorem Collected.including {now : Time} {authzs : List Authorization} {state : IssuanceState}
    {a : Authorization} {v : Validation} (h : Collected s o now authzs state w)
    (hread : s.contract.Once (fun u => u.store.authzs.lookup a.id = some a) w)
    (hexpires : now < a.expires) (hgrant : ¬ (a.grantExpires ≠ 0 ∧ ¬ now < a.grantExpires))
    (hevidence : Evidence w.store a v) :
    Collected s o now (authzs ++ [a]) (state.including a v) w where
  read b hb := by
    rcases List.mem_append.mp hb with hb | hb
    · exact h.read b hb
    · rw [List.mem_singleton.mp hb]
      exact hread
  time := h.time
  deadline := by
    rw [expiries_append, including_deadline]
    split
    · exact (h.deadline.insert _).insert _
    · exact h.deadline.insert _
  ahead t ht := by
    rw [expiries_append] at ht
    have hold := h.ahead t
    split at ht
    · simp only [Set.mem_insert_iff] at ht
      grind
    · simp only [Set.mem_insert_iff] at ht
      grind
  evidence := List.rel_append h.evidence (.cons hevidence .nil)

/-- The loop only fails to find what does not exist. -/
theorem issuance_loop_safe {now : Time} {ids : List String} {authzs : List Authorization}
    {state : IssuanceState} (hexists : ∀ aid ∈ ids, ∃ a, w.store.authzs.lookup aid = some a)
    (hcollected : Collected s o now authzs state w) :
    s.contract.Safe thread (s.issuanceLoop now ids authzs state) (fun result after =>
      result ≠ .error .notFound ∧ ∀ found, result = .ok (.ok found) →
        Collected s o now found.1 found.2 after) w := by
  induction ids generalizing authzs state w with
  | nil =>
      refine safe_done fun after hafter _ => ⟨by simp, fun found hfound => ?_⟩
      cases hfound
      exact hcollected.later hafter.later
  | cons aid rest ih =>
      have hlater : ∀ seen, s.contract.Later w seen → ∀ id ∈ aid :: rest,
          ∃ a, seen.store.authzs.lookup id = some a := by
        intro seen hseen id hid
        obtain ⟨a, ha⟩ := hexists id hid
        obtain ⟨a', ha', _⟩ := (later_progress hseen).authzs id a ha
        exact ⟨a', ha'⟩
      unfold Server.issuanceLoop
      refine safe_existing (reads_authorization aid) ?_ ?_ ?_
      · exact fun seen hseen _ => hlater seen hseen.later aid List.mem_cons_self
      · exact fun _ seen _ => safe_done fun _ _ _ => ⟨by simp, by simp⟩
      · intro a w₁ h₁ hinv₁ ha
        dsimp only
        split
        · exact safe_done fun _ _ _ => ⟨by simp, by simp⟩
        · rename_i hstatus
          have hexpires := (effective_authz_valid (not_not.mp hstatus)).2
          split
          · exact safe_done fun _ _ _ => ⟨by simp, by simp⟩
          · rename_i hgrant
            have hid := hinv₁.keyed.authzs aid a ha
            have hstored : w₁.store.authzs.lookup a.id = some a := by rwa [hid]
            refine safe_bind (Safe.weaken
              (Safe.since (.refl w₁) (validation_evidence_safe hinv₁ hstored)) ?_)
            rintro result w₂ _ ⟨h₂, herror, hevidence⟩
            cases result with
            | error err => exact safe_done fun _ _ _ => ⟨by simpa using herror, by simp⟩
            | ok v =>
                have hnext := h₁.later.trans h₂
                refine ih (fun id hmem => hlater w₂ hnext id (List.mem_cons_of_mem _ hmem)) ?_
                exact (hcollected.later hnext).including ⟨w₁, hinv₁, h₂, hstored⟩ hexpires hgrant
                  (hevidence v rfl)

/-- The order is stored finalized. -/
def Finalized (id : String) (store : Store) : Prop :=
  ∃ o, store.orders.lookup id = some o ∧ (o.status = .processing ∨ o.status.terminal = true)

/-- What a dispatch has read: its account, its authorizations and the time. It proposes an issuance
state. -/
structure SnapshotRead (s : Server) (thread : Nat) (o : Order)
    (found : List Authorization × Account × Order) (w : World) : Prop where
  account : found.2.1.id = o.accountID
  decided : ∃ state, found.2.2 = { o with issuance := some state } ∧
    Collected s o state.authorizedAt found.1 state w ∧
    ReadClock w thread state.authorizedAt (Finalized o.id)

theorem SnapshotRead.later {found : List Authorization × Account × Order}
    (h : SnapshotRead s thread o found u) (hlater : s.contract.Later u w) :
    SnapshotRead s thread o found w := by
  obtain ⟨haccount, state, horder, hcollected, hclock⟩ := h
  exact ⟨haccount, state, horder, hcollected.later hlater, hclock.later hlater⟩

/-- An order that was read processing is finalized from then on. -/
theorem IssuanceRead.finalized (h : IssuanceRead s start task o w) : Finalized o.id w.store := by
  obtain ⟨u, _, hlater, ho⟩ := h.order
  obtain ⟨stored, hstored, hsteps⟩ := (later_progress hlater).orders _ o ho
  exact ⟨stored, hstored, order_finalized hsteps (.inl h.processing)⟩

theorem dispatch_snapshot_safe (h : IssuanceRead s start task o w) :
    s.contract.Safe thread (s.dispatchSnapshot task o)
      (Continues thread start task (SnapshotRead s thread o)) w := by
  obtain ⟨u, hu, hlater, ho⟩ := h.order
  unfold Server.dispatchSnapshot
  refine safe_now (fun seen hseen _ => (h.later hseen.later).finalized) ?_
  intro now w₁ h₁ _ hclock
  split
  · exact nothing_safe (fail_order_safe _ (h.later h₁.later) rfl)
  · rename_i hexpires
    refine safe_existing (reads_account _) ?_ (fun _ seen hseen =>
      drop_safe (h.claimed.later (h₁.trans hseen).later) nofun) ?_
    · intro seen hseen _
      obtain ⟨a, ha⟩ := order_account_stored hu ho
      obtain ⟨a', ha', _⟩ := (later_progress
        (hlater.trans (h₁.trans hseen).later)).accounts _ a ha
      exact ⟨a', ha'⟩
    · intro account w₂ h₂ hinv₂ haccount
      have hread₂ := h.later (h₁.trans h₂).later
      dsimp only
      split
      · exact nothing_safe (fail_order_safe _ hread₂ rfl)
      · have hstart : Collected s o now []
            { operationID := task.id, authorizedAt := now, deadline := o.expires } w₂ := by
          refine ⟨fun a ha => absurd ha List.not_mem_nil, rfl, ?_, ?_, .nil⟩
          · simp [expiries]
          · simpa [expiries] using hexpires
        unfold Server.issuanceAuthorization
        refine safe_bind (Safe.weaken
          (Safe.since (.refl w₂) (issuance_loop_safe ?_ hstart)) ?_)
        · intro aid haid
          obtain ⟨a, ha⟩ := order_authorization_stored hu ho haid
          obtain ⟨a', ha', _⟩ := (later_progress
            (hlater.trans (h₁.trans h₂).later)).authzs _ a ha
          exact ⟨a', ha'⟩
        · rintro result w₃ _ ⟨h₃, herror, hfound⟩
          have hread₃ := hread₂.later h₃
          rcases result with err | problem | ⟨authzs, state⟩
          · exact drop_safe hread₃.claimed fun hnone => herror (congrArg _ hnone)
          · exact nothing_safe (fail_order_safe _ hread₃ rfl)
          · have hcollected := hfound _ rfl
            refine safe_done fun w₄ h₄ _ => SnapshotRead.later ?_ h₄.later
            refine ⟨hinv₂.keyed.accounts _ account haccount, state, rfl, ?_, ?_⟩
            · rw [hcollected.time]
              exact hcollected
            · rw [hcollected.time]
              exact hclock.later (h₂.later.trans h₃)

theorem harmless_issue_request (order : Order) : s.contract.Harmless (s.issueRequest order) := by
  unfold Server.issueRequest
  split
  · trivial
  · trivial
  · exact Harmless.bind (harmless_ask (by intros; trivial)) fun _ => trivial

theorem harmless_review_issuance (order : Order) :
    s.contract.Harmless (s.reviewIssuance order) := by
  unfold Server.reviewIssuance
  refine (harmless_issue_request order).bind fun result => ?_
  cases result with
  | error err => trivial
  | ok req =>
      dsimp only
      split
      · exact harmless_ask (by intros; trivial)
      · trivial

theorem check_issuance_policy_safe {order : Order} (h : IssuanceRead s start task o w)
    (hvariant : Variant o { order with issuance := none }) :
    s.contract.Safe thread (s.checkIssuancePolicy task order)
      (fun allowed after => allowed = false → Ended thread start task after) w := by
  unfold Server.checkIssuancePolicy
  refine safe_bind ((harmless_review_issuance order).safe fun verdict w₁ h₁ _ => ?_)
  cases verdict with
  | none => exact safe_done fun _ _ _ hfalse => by cases hfalse
  | some err =>
      have hread₁ := h.later h₁.later
      have hrefused : ∀ program : Prog Unit,
          s.contract.Safe thread program (fun _ => Ended thread start task) w₁ →
          s.contract.Safe thread (program >>= fun _ => pure false)
            (fun allowed after => allowed = false → Ended thread start task after) w₁ :=
        fun _ hprogram => safe_bind (hprogram.stable.weaken fun _ _ _ hended =>
          safe_done fun w₂ h₂ hinv₂ _ => hended w₂ h₂ hinv₂)
      dsimp only
      split
      · exact hrefused _ (fail_order_safe _ hread₁ hvariant)
      · split
        · exact hrefused _ (reschedule_safe hread₁.claimed)
        · exact hrefused _ (fail_order_safe _ hread₁ hvariant)

/-- What was read justifies the dispatch. -/
theorem SnapshotRead.decision {account : Account} {authzs : List Authorization}
    {state : IssuanceState} (h : IssuanceRead s start task o w)
    (hsnapshot : SnapshotRead s thread o (authzs, account, { o with issuance := some state }) w) :
    Permitted s w thread (.store (.beginIssuance
      ⟨task, { o with issuance := some state }, account, authzs⟩)) := by
  obtain ⟨haccount, state', horder, hcollected, hclock⟩ := hsnapshot
  cases Option.some.inj (congrArg Order.issuance horder)
  refine ⟨⟨fun stored hstored hsame => ?_, fun a ha stored hstored hsame => ?_⟩, ?_⟩
  · obtain ⟨u, _, hu, ho⟩ := h.order
    cases order_unchanged hu ho hstored hsame
    refine ⟨haccount, state, rfl, hcollected.deadline, ?_, hcollected.evidence⟩
    exact hcollected.ahead _ hcollected.deadline.1
  · obtain ⟨u, _, hu, hlookup⟩ := hcollected.read a ha
    exact authorization_unchanged hu hlookup hstored hsame
  · intro found hfound
    cases hfound
    exact hclock

/-- A stored dispatch leaves the order with its issuance state. -/
theorem store_dispatch_safe {order : Order} {account : Account} {authzs : List Authorization}
    (h : IssuanceRead s start task o w)
    (hsnapshot : SnapshotRead s thread o (authzs, account, order) w) :
    s.contract.Safe thread (s.storeDispatch task order account authzs)
      (Continues thread start task fun order' after =>
        IssuanceRead s start task order' after ∧ order'.issuance ≠ none) w := by
  obtain ⟨state, horder, _⟩ := hsnapshot.decided
  change order = { o with issuance := some state } at horder
  subst horder
  unfold Server.storeDispatch
  refine safe_store (fun w₁ h₁ _ => ?_) fun env w₁ w₂ h₁ _ hinv₂ h₂ hfits hstore => ?_
  · exact SnapshotRead.decision (h.later h₁.later) (hsnapshot.later h₁.later)
  · split
    · rename_i hok
      have hstored := begin_issuance_stored (commit_of_ok hfits hok)
      rw [← hstore] at hstored
      rw [begin_issuance_reply hok]
      refine safe_done fun w₃ h₃ _ => ?_
      have hlater := (h₁.later.trans h₂).trans h₃.later
      exact ⟨⟨h.claimed.later hlater, h.kind, h.target, h.processing,
        ⟨w₂, hinv₂, h₃.later, hstored⟩⟩, by simp⟩
    · exact nothing_safe (reschedule_safe (h.claimed.later (h₁.later.trans h₂)))

theorem begin_issuance_safe (h : IssuanceRead s start task o w)
    (hundispatched : o.issuance = none) :
    s.contract.Safe thread (s.beginIssuance task o) (Continues thread start task fun order after =>
      IssuanceRead s start task order after ∧ order.issuance ≠ none) w := by
  unfold Server.beginIssuance
  refine safe_bind (Safe.weaken (Safe.since (.refl w) (dispatch_snapshot_safe h).stable) ?_)
  rintro result w₁ hinv₁ ⟨h₁, hfound⟩
  cases result with
  | none => exact safe_done hfound
  | some found =>
      obtain ⟨authzs, account, order⟩ := found
      have hsnapshot : SnapshotRead s thread o (authzs, account, order) w₁ :=
        hfound w₁ (.refl _) hinv₁
      have hvariant : Variant o { order with issuance := none } := by
        obtain ⟨state, horder, _⟩ := hsnapshot.decided
        change order = { o with issuance := some state } at horder
        unfold Variant
        rw [horder, ← hundispatched]
      refine safe_bind (Safe.weaken (Safe.since (.refl w₁)
        (check_issuance_policy_safe (h.later h₁) hvariant).stable) ?_)
      rintro allowed w₂ _ ⟨h₂, hallowed⟩
      split
      · rename_i hrefused
        exact safe_done fun w₃ h₃ hinv₃ => hallowed w₃ h₃ hinv₃ hrefused
      · refine safe_ask (by intros; trivial) fun now w₃ h₃ _ => ?_
        have hread₃ := h.later ((h₁.trans h₂).trans h₃.later)
        split
        · exact nothing_safe (fail_order_safe _ hread₃ hvariant)
        · exact store_dispatch_safe hread₃ (hsnapshot.later (h₂.trans h₃.later))

/-! ## Running a task -/

/-- The issuance task of an order that is not processing may be dropped, because the order is
invalid. -/
theorem invalid_task_removal (hclaimed : Claimed s start task u) (hkind : task.kind = .issue)
    (ho : u.store.orders.lookup task.targetID = some o) (hsettled : o.status.terminal = true)
    (hlater : s.contract.Later u w) (hinv : s.contract.Inv w) : TaskRemoval w.store task := by
  intro stored hstored _
  obtain ⟨hstoredKind, htarget⟩ := (hclaimed.later hlater).work hinv hstored
  obtain ⟨o', ho', hstatus⟩ := issuance_target hinv hstored (hstoredKind.trans hkind)
  refine ⟨hstoredKind.trans hkind, o', ho', hstatus.resolve_left fun hprocessing => ?_⟩
  rw [htarget] at ho'
  have hsteps := (later_progress hlater).orders.steps ho ho'
  rw [← order_terminal_eq hsteps hsettled, hprocessing] at hsettled
  cases hsettled

theorem issuance_order_safe (hclaimed : Claimed s start task w) (hkind : task.kind = .issue) :
    s.contract.Safe thread (s.issuanceOrder task)
      (Continues thread start task (IssuanceRead s start task)) w := by
  have ⟨u, hu, hlater, htask⟩ := hclaimed.stored
  obtain ⟨o, ho, hstatus⟩ := issuance_target hu htask hkind
  unfold Server.issuanceOrder
  refine safe_existing (reads_order _) ?_
    (fun _ seen hseen => drop_safe (hclaimed.later hseen.later) nofun) ?_
  · intro seen hseen _
    obtain ⟨o', ho', _⟩ := (later_progress (hlater.trans hseen.later)).orders _ o ho
    exact ⟨o', ho'⟩
  · intro order w₁ h₁ hinv₁ horder
    have hsteps := (later_progress (hlater.trans h₁.later)).orders.steps ho horder
    dsimp only
    split
    · rename_i hnot
      have hfinalized : o.status = .processing ∨ o.status.terminal = true :=
        hstatus.imp_right fun hinvalid => by
          rw [hinvalid]
          rfl
      have hsettled := (order_finalized hsteps hfinalized).resolve_left hnot
      refine nothing_safe (finish_task_safe (hclaimed.later h₁.later) fun w₂ h₂ hinv₂ => ?_)
      exact invalid_task_removal (hclaimed.later h₁.later) hkind horder hsettled h₂ hinv₂
    · rename_i hprocessing
      refine safe_done fun w₂ h₂ _ => ?_
      have hid := hinv₁.keyed.orders _ order horder
      exact ⟨hclaimed.later (h₁.trans h₂).later, hkind, hid, not_not.mp hprocessing,
        ⟨w₁, hinv₁, h₂.later, by rwa [hid]⟩⟩

theorem run_issuance_safe (hclaimed : Claimed s start task w) (hkind : task.kind = .issue) :
    s.contract.Safe thread (s.runIssuance task) (fun _ => Ended thread start task) w := by
  unfold Server.runIssuance
  refine safe_bind ((issuance_order_safe hclaimed hkind).stable.weaken ?_)
  intro result w₁ hinv₁ hread
  cases result with
  | none => exact safe_done hread
  | some order =>
      have hread₁ : IssuanceRead s start task order w₁ := hread w₁ (.refl _) hinv₁
      dsimp only
      split
      · rename_i hdispatched
        exact issue_order_safe hread₁ (Option.isSome_iff_ne_none.mp hdispatched)
      · rename_i hundispatched
        rw [Option.not_isSome_iff_eq_none] at hundispatched
        refine safe_bind ((begin_issuance_safe hread₁ hundispatched).stable.weaken ?_)
        intro result w₂ hinv₂ hbegun
        cases result with
        | none => exact safe_done hbegun
        | some order' =>
            obtain ⟨hread₂, hdispatched⟩ := hbegun w₂ (.refl _) hinv₂
            exact issue_order_safe hread₂ hdispatched

/-- A claimed task ends without its lease, unless a store call finds its context ended. -/
theorem process_safe (hclaimed : Claimed s start task w) :
    s.contract.Safe thread (s.process task) (fun _ => Ended thread start task) w := by
  unfold Server.process
  split
  · rename_i hkind
    exact run_validation_safe hclaimed hkind
  · rename_i hkind
    exact run_issuance_safe hclaimed hkind
  · -- No task of another kind is ever enqueued.
    rename_i name hkind
    obtain ⟨u, hu, _, htask⟩ := hclaimed.stored
    rcases task_allowed hu htask with ⟨hvalidate, _⟩ | ⟨hissue, _⟩
    · cases hkind.symm.trans hvalidate
    · cases hkind.symm.trans hissue

/-- A claimed task is stored as the worker got it. -/
theorem claimed_stored {store : Store} {env : CallEnv} {now leaseUntil : Time}
    (hfits : env.Fits store)
    (h : (store.apply env (.claimTask now leaseUntil)).1.result = .ok task) :
    (store.after env (.claimTask now leaseUntil)).tasks.lookup task.id = some task := by
  obtain ⟨_, best, hbest, _, rfl, hstore⟩ := claim_task_commit hfits (exec_of_ok h)
  change store.after env (.claimTask now leaseUntil) = _ at hstore
  rw [hstore]
  exact Finmap.lookup_insert _

theorem worker_turn_safe : s.contract.Safe thread s.workerTurn (fun _ _ => True) w := by
  unfold Server.workerTurn
  refine safe_ask (by intros; trivial) fun now w₁ _ _ => ?_
  unfold fetch
  rw [bind_assoc]
  refine safe_store (by intros; trivial) fun env w₂ w₃ _ _ hinv₃ _ hfits hstore => ?_
  rw [pure_bind]
  split
  · rename_i task hok
    have hstored := claimed_stored hfits hok
    rw [← hstore] at hstored
    have hclaimed : Claimed s w₃.history task w₃ := ⟨List.suffix_refl _, .now hinv₃ hstored⟩
    exact (process_safe hclaimed).weaken fun _ _ _ _ => trivial
  · exact safe_done fun _ _ _ => trivial

end AcmeServer.Safety
