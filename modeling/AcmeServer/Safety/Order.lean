import AcmeServer.Safety.Respond

/-!
# Safety of order, authorization and challenge requests

`deriveOrderStatus` reads the authorizations of an order one after the other, so what it returns
need not have been true at any single moment. `Derived` is what it does guarantee: each
authorization had its part of the status when it was read.
-/

namespace AcmeServer.Safety

open Interaction Interaction.Contract Memstore Protocol

variable {s : Server} {thread : Nat} {u w : World} {α : Type} {st : RequestState} {r : Request}

/-! ## Derived statuses -/

/-- The authorization that the derivation takes under the ID: the one given to it, or the one it
read since the first world. -/
def Observed (s : Server) (u : World) (updated : Option Authorization) (aid : String)
    (a : Authorization) (w : World) : Prop :=
  (updated = some a ∧ a.id = aid) ∨ ((∀ b, updated = some b → b.id ≠ aid) ∧
    s.contract.Once (fun v => s.contract.Later u v ∧ v.store.authzs.lookup aid = some a) w)

theorem Observed.later {v : World} {updated : Option Authorization} {aid : String}
    {a : Authorization} (h : Observed s u updated aid a v) (hlater : s.contract.Later v w) :
    Observed s u updated aid a w := by
  rcases h with hgiven | ⟨hother, hread⟩
  · exact .inl hgiven
  · exact .inr ⟨hother, hread.later hlater⟩

/-- What a derived status says about the authorizations. A status of pending needs one pending
authorization unless `allValid` is already false. -/
def Derived (s : Server) (u : World) (updated : Option Authorization) (allValid : Bool)
    (ids : List String) (w : World) : OrderStatus → Prop
  | .ready => allValid = true ∧
      ∀ aid ∈ ids, ∃ a, Observed s u updated aid a w ∧ a.status = .valid
  | .pending =>
      (∀ aid ∈ ids, ∃ a, Observed s u updated aid a w ∧ a.status.terminal = false) ∧
      (allValid = true → ∃ aid ∈ ids, ∃ a, Observed s u updated aid a w ∧ a.status = .pending)
  | .invalid => True
  | _ => False

theorem Derived.later {v : World} {updated : Option Authorization} {allValid : Bool}
    {ids : List String} {status : OrderStatus} (h : Derived s u updated allValid ids v status)
    (hlater : s.contract.Later v w) : Derived s u updated allValid ids w status := by
  cases status with
  | ready =>
      refine ⟨h.1, fun aid haid => ?_⟩
      obtain ⟨a, ha, hvalid⟩ := h.2 aid haid
      exact ⟨a, ha.later hlater, hvalid⟩
  | pending =>
      refine ⟨fun aid haid => ?_, fun hall => ?_⟩
      · obtain ⟨a, ha, hlive⟩ := h.1 aid haid
        exact ⟨a, ha.later hlater, hlive⟩
      · obtain ⟨aid, haid, a, ha, hpending⟩ := h.2 hall
        exact ⟨aid, haid, a, ha.later hlater, hpending⟩
  | invalid => trivial
  | processing => exact h
  | valid => exact h

/-- The status of an authorization is that of a copy, which has it beyond its expiry. -/
theorem authorization_status_safe (hu : s.contract.Later u w) (updated : Option Authorization)
    (now : Time) (aid : String) :
    s.contract.Safe thread (Server.authorizationStatus updated now aid)
      (fun result after => ∀ status, result = .ok status →
        ∃ a, Observed s u updated aid a after ∧ effectiveAuthzStatus a now = status) w := by
  unfold Server.authorizationStatus
  split
  · rename_i a ha
    refine safe_done fun after _ _ status hstatus => ?_
    cases hstatus
    obtain ⟨hsome, hid⟩ := Option.filter_eq_some_iff.mp ha
    exact ⟨a, .inl ⟨hsome, by simpa using hid⟩, rfl⟩
  · rename_i hnone
    refine safe_lookup (reads_authorization aid) fun result seen hrely hinv hok _ => ?_
    refine safe_done fun after hafter _ status hstatus => ?_
    cases result with
    | error e => cases hstatus
    | ok a =>
        cases hstatus
        refine ⟨a, .inr ⟨fun b hb hid => ?_, seen, hinv, hafter.later,
          hu.trans hrely.later, hok a rfl⟩, rfl⟩
        rw [hb] at hnone
        simp [hid] at hnone

/-- An authorization whose status does not end the loop is pending or valid. -/
theorem pending_or_valid {status : AuthorizationStatus}
    (h : ¬ (status = .invalid ∨ status = .expired ∨ status = .deactivated ∨ status = .revoked)) :
    status = .pending ∨ status = .valid := by
  cases status <;> simp at h ⊢

/-- One round of the loop: the rest derives the status from what this authorization leaves. -/
theorem Derived.cons {updated : Option Authorization} {allValid : Bool} {aid : String}
    {ids : List String} {a : Authorization} {now : Time} {status : OrderStatus}
    (ha : Observed s u updated aid a w)
    (hlive : effectiveAuthzStatus a now = .pending ∨ effectiveAuthzStatus a now = .valid)
    (h : Derived s u updated (allValid && effectiveAuthzStatus a now == .valid) ids w status) :
    Derived s u updated allValid (aid :: ids) w status := by
  have hterminal : a.status.terminal = false := by
    rcases hlive with hpending | hvalid
    · rw [effective_authz_pending hpending]
      rfl
    · rw [(effective_authz_valid hvalid).1]
      rfl
  cases status with
  | ready =>
      obtain ⟨hall, hrest⟩ := h
      rw [Bool.and_eq_true, beq_iff_eq] at hall
      exact ⟨hall.1, List.forall_mem_cons.mpr
        ⟨⟨a, ha, (effective_authz_valid hall.2).1⟩, hrest⟩⟩
  | pending =>
      obtain ⟨hrest, hpending⟩ := h
      refine ⟨List.forall_mem_cons.mpr ⟨⟨a, ha, hterminal⟩, hrest⟩, fun hall => ?_⟩
      rcases hlive with hstatus | hstatus
      · exact ⟨aid, List.mem_cons_self, a, ha, effective_authz_pending hstatus⟩
      · obtain ⟨other, hother, hfound⟩ := hpending (by rw [hall, hstatus]; rfl)
        exact ⟨other, List.mem_cons_of_mem _ hother, hfound⟩
  | invalid => trivial
  | processing => exact h
  | valid => exact h

theorem derive_loop_safe (hu : s.contract.Later u w) (updated : Option Authorization) (now : Time)
    (allValid : Bool) (ids : List String) :
    s.contract.Safe thread (Server.deriveLoop updated now allValid ids)
      (fun result after => ∀ status, result = .ok status →
        Derived s u updated allValid ids after status) w := by
  induction ids generalizing allValid w with
  | nil =>
      refine safe_done fun after _ _ status hstatus => ?_
      cases hstatus
      cases allValid with
      | true => exact ⟨rfl, fun _ hmem => absurd hmem List.not_mem_nil⟩
      | false => exact ⟨fun _ hmem => absurd hmem List.not_mem_nil, fun htrue => by cases htrue⟩
  | cons aid rest ih =>
      unfold Server.deriveLoop
      refine safe_bind (Safe.weaken
        (Safe.since hu (authorization_status_safe hu updated now aid)) ?_)
      rintro result w₁ _ ⟨h₁, hresult⟩
      cases result with
      | error e => exact safe_done fun _ _ _ status hstatus => by cases hstatus
      | ok status =>
          obtain ⟨a, ha, rfl⟩ := hresult status rfl
          dsimp only
          split
          · refine safe_done fun _ _ _ status hstatus => ?_
            cases hstatus
            trivial
          · rename_i hlive
            refine Safe.weaken (Safe.since (.refl w₁) (ih h₁ _)) ?_
            intro result w₂ _ ⟨h₂, hderived⟩ status hstatus
            exact .cons (ha.later h₂) (pending_or_valid hlive) (hderived status hstatus)

/-- The derived status of an order is what its authorizations implied when they were read. -/
theorem derive_order_status_safe (hu : s.contract.Later u w) (order : Order)
    (updated : Option Authorization) :
    s.contract.Safe thread (Server.deriveOrderStatus order updated)
      (fun result after => ∀ status, result = .ok status →
        Derived s u updated true order.authorizationIDs after status) w := by
  unfold Server.deriveOrderStatus
  refine safe_ask (by intros; trivial) fun now w₁ h₁ _ => ?_
  split
  · refine safe_done fun _ _ _ status hstatus => ?_
    cases hstatus
    trivial
  · exact derive_loop_safe (hu.trans h₁.later) updated now true _

/-! ## Orders -/

/-- What the owner reads of an order: the stored order, or an unfinished one with the status that
its authorizations implied when they were read. -/
def OrderRead (s : Server) (id : String) (order : Order) (w : World) : Prop :=
  ∃ u o, s.contract.Inv u ∧ s.contract.Later u w ∧ u.store.orders.lookup id = some o ∧
    ((order = o ∧ o.status ≠ .pending ∧ o.status ≠ .ready) ∨
      ((o.status = .pending ∨ o.status = .ready) ∧ ∃ status, order = { o with status := status } ∧
        Derived s u none true o.authorizationIDs w status))

theorem OrderRead.later {v : World} {id : String} {order : Order} (h : OrderRead s id order v)
    (hlater : s.contract.Later v w) : OrderRead s id order w := by
  obtain ⟨u, o, hinv, hu, ho, hsettled | ⟨hwaiting, status, hfields, hderived⟩⟩ := h
  · exact ⟨u, o, hinv, hu.trans hlater, ho, .inl hsettled⟩
  · exact ⟨u, o, hinv, hu.trans hlater, ho, .inr ⟨hwaiting, status, hfields,
      hderived.later hlater⟩⟩

theorem read_owned_order_achieves (id rel : String) :
    s.contract.Achieves thread (s.readOwnedOrder r id rel) st
      (fun result _ after => s.payloadOf r = some result.1.payload ∧
        OrderRead s id result.2 after) w := by
  unfold Server.readOwnedOrder
  refine achieves_bind ((read_signed_request_achieves r rel .account).weaken ?_)
  rintro req st₁ w₁ _ ⟨hpayload, _⟩
  refine achieves_lookup (reads_order id) fun o u _ hinv ho => ?_
  refine achieves_bind (achieves_fail_if fun w₂ h₂ _ _ => ?_)
  split
  · rename_i hwaiting
    refine achieves_bind (achieves_lift (Safe.weaken
      (Safe.since h₂.later (derive_order_status_safe h₂.later o none)) ?_))
    rintro result w₃ _ ⟨h₃, hderived⟩
    refine achieves_bind (achieves_expect fun status w₄ h₄ _ hstatus => ?_)
    refine achieves_pure fun w₅ h₅ _ => ⟨hpayload, OrderRead.later ?_ (h₄.trans h₅).later⟩
    cases result with
    | error e => cases hstatus
    | ok status' =>
        cases hstatus
        exact ⟨u, o, hinv, h₃, ho, .inr ⟨hwaiting, status, rfl, hderived status rfl⟩⟩
  · rename_i hsettled
    push Not at hsettled
    exact achieves_pure fun w₃ h₃ _ =>
      ⟨hpayload, u, o, hinv, (h₂.trans h₃).later, ho, .inl ⟨rfl, hsettled⟩⟩

theorem serve_order_achieves (h : Unconditional s r) (id : String) :
    s.contract.Achieves thread (s.serveOrder r id) st (fun _ _ _ => True) w := by
  unfold Server.serveOrder
  refine achieves_bind ((read_owned_order_achieves _ _).weaken fun result st₁ w₁ _ _ => ?_)
  refine achieves_any ?_
  refine (HarmlessAttempt.check _).bind fun _ => ?_
  refine (HarmlessAttempt.lift (harmless_ask (by intros; trivial))).bind fun now => ?_
  exact harmless_write_order h _ _ _

/-! ## Authorizations -/

theorem can_deactivate {a : Authorization} {now : Time}
    (h : (effectiveAuthzStatus a now).canTransition .deactivated = true) :
    a.status = .pending ∨ a.status = .valid := by
  cases hstatus : effectiveAuthzStatus a now with
  | pending => exact .inl (effective_authz_pending hstatus)
  | valid => exact .inr (effective_authz_valid hstatus).1
  | invalid => rw [hstatus] at h; cases h
  | deactivated => rw [hstatus] at h; cases h
  | expired => rw [hstatus] at h; cases h
  | revoked => rw [hstatus] at h; cases h

/-- A deactivation changes the authorization that was read. -/
theorem deactivate_authorization_achieves {a : Authorization} (now : Time)
    (hseen : s.contract.Once (fun u => u.store.authzs.lookup a.id = some a) w) :
    s.contract.Achieves thread (Server.deactivateAuthorization a now) st (fun _ _ _ => True) w := by
  unfold Server.deactivateAuthorization
  dsimp only
  split
  · exact achieves_pure fun _ _ _ => trivial
  · refine achieves_bind (achieves_fail_if fun w₁ h₁ _ hallowed => ?_)
    rw [Bool.not_eq_false] at hallowed
    obtain ⟨u, _, hu, ha⟩ := hseen
    refine achieves_store (fun w₂ h₂ _ => ?_) fun env w₂ w₃ _ _ _ _ _ _ => ?_
    · intro stored hstored hrevision
      have hlater := hu.trans (h₁.trans h₂).later
      cases authorization_unchanged hlater ha hstored hrevision
      exact ⟨rfl, can_deactivate hallowed⟩
    · split
      · exact achieves_pure fun _ _ _ => trivial
      · exact achieves_throw
      · exact achieves_throw

theorem harmless_load_challenges (ids : List String) :
    s.contract.HarmlessAttempt (Server.loadChallenges ids) := by
  induction ids with
  | nil => exact .pure _
  | cons id rest ih =>
      unfold Server.loadChallenges
      refine (HarmlessAttempt.lift (harmless_fetch rfl)).bind fun result => ?_
      refine (HarmlessAttempt.expect _).bind fun ch => ?_
      exact ih.bind fun _ => .pure _

theorem serve_authorization_achieves (h : Unconditional s r) (id : String) :
    s.contract.Achieves thread (s.serveAuthorization r id) st (fun _ _ _ => True) w := by
  unfold Server.serveAuthorization
  refine achieves_bind ((read_signed_request_achieves r _ .account).weaken ?_)
  rintro req st₁ w₁ _ _
  refine achieves_lookup (reads_authorization id) fun a u _ hinv ha => ?_
  refine achieves_bind (achieves_fail_if fun w₂ h₂ _ _ => ?_)
  refine achieves_ask (by intros; trivial) fun now w₃ h₃ _ => ?_
  extract_lets rest
  have hrest : ∀ a st w, s.contract.Achieves thread (rest a) st (fun _ _ _ => True) w := by
    intro a st w
    refine achieves_any ((harmless_load_challenges _).bind fun challenges => ?_)
    exact harmless_write h _ _ _
  split
  · refine achieves_bind (achieves_expect fun payload w₄ h₄ _ _ => ?_)
    refine achieves_bind (achieves_fail_if fun w₅ h₅ _ _ => ?_)
    have hlater := (((h₂.trans h₃).trans h₄).trans h₅).later
    have hseen : s.contract.Once (fun u => u.store.authzs.lookup a.id = some a) w₅ :=
      ⟨u, hinv, hlater, by rw [hinv.keyed.authzs id a ha]; exact ha⟩
    refine achieves_bind ((deactivate_authorization_achieves now hseen).weaken ?_)
    exact fun a st₂ w₆ _ _ => hrest a st₂ w₆
  · exact hrest a _ w₃

/-! ## Challenges -/

/-- A response is stored with a task under an ID of the thread after a count below the limit. -/
theorem enqueue_validation_achieves {ch stored : Challenge} {task : Task}
    (hseen : s.contract.Once (fun u => u.store.challenges.lookup ch.id = some stored) w)
    (hpending : stored.status = .pending) (hstatus : ch.status = .processing)
    (hterms : challengeTerms ch = challengeTerms stored) (hrevision : ch.revision = stored.revision)
    (howns : Owns w thread task.id) (hcounted : BelowLimit s w thread task.accountID)
    (hkind : task.kind = .validate)
    (htarget : task.targetID = ch.id) :
    s.contract.Achieves thread (Server.enqueueValidation ch task) st (fun _ _ _ => True) w := by
  unfold Server.enqueueValidation
  obtain ⟨u, _, hu, hstored⟩ := hseen
  refine achieves_store (fun w₁ h₁ _ => ?_) fun env w₁ w₂ _ _ _ _ _ _ => ?_
  · refine ⟨owns_stable h₁ howns, hcounted.later h₁.later, hkind, htarget,
      fun current hcurrent hsame => ?_⟩
    have hlater := hu.trans h₁.later
    cases challenge_unchanged hlater hstored hcurrent (hsame.trans hrevision)
    exact ⟨hpending, hstatus, hterms⟩
  · refine achieves_any ?_
    split
    · exact .pure _
    · refine (HarmlessAttempt.lift (harmless_fetch rfl)).bind fun result => ?_
      cases result with
      | ok current => exact (HarmlessAttempt.fail_if _ _).bind fun _ => .pure _
      | error err => exact .throw _
    · exact .throw _

theorem accept_challenge_achieves {ch : Challenge} (account : Account) (client : String)
    (payload : ChallengeResponseJSON)
    (hseen : s.contract.Once (fun u => u.store.challenges.lookup ch.id = some ch) w) :
    s.contract.Achieves thread (s.acceptChallenge ch account client payload) st
      (fun _ _ _ => True) w := by
  unfold Server.acceptChallenge
  split
  · exact achieves_pure fun _ _ _ => trivial
  · rename_i hpending
    refine achieves_bind (achieves_check fun w₁ h₁ _ _ => ?_)
    refine achieves_lookup (reads_authorization _) fun authz w₂ h₂ _ _ => ?_
    refine achieves_ask (by intros; trivial) fun now w₃ h₃ _ => ?_
    refine achieves_bind (achieves_fail_if fun w₄ h₄ _ _ => ?_)
    refine achieves_fetch_noted rfl fun _ reply w₅ h₅ _ hnoted => ?_
    refine achieves_bind (achieves_expect fun pending w₆ h₆ _ hpending' => ?_)
    refine achieves_bind (achieves_fail_if fun w₇ h₇ _ hbelow => ?_)
    have hcounted : BelowLimit s w₅ thread account.id := by
      obtain ⟨result, args⟩ := reply
      cases result with
      | error err => cases hpending'
      | ok n =>
          cases hpending'
          exact ⟨_, hnoted, rfl, pending, rfl, not_le.mp hbelow⟩
    refine achieves_bind (achieves_lift ((harmless_check_limit _).safe fun refusal w₈ h₈ _ => ?_))
    refine achieves_bind (achieves_check fun w₉ h₉ _ _ => ?_)
    refine achieves_new_id rfl fun taskID w₁₀ w₁₁ h₁₀ _ h₁₁ _ _ _ howns => ?_
    have hlater := ((((((h₁.trans h₂).trans h₃).trans h₄).trans h₅).trans h₆).trans h₇).trans
      (((h₈.trans h₉).trans h₁₀).trans h₁₁)
    have hsince := h₆.trans (h₇.trans (((h₈.trans h₉).trans h₁₀).trans h₁₁))
    exact enqueue_validation_achieves (Once.later hseen hlater.later) (not_not.mp hpending) rfl
      rfl rfl howns (hcounted.later hsince.later) rfl rfl

theorem serve_challenge_achieves (h : Unconditional s r) (id : String) :
    s.contract.Achieves thread (s.serveChallenge r id) st (fun _ _ _ => True) w := by
  unfold Server.serveChallenge
  refine achieves_bind ((read_signed_request_achieves r _ .account).weaken ?_)
  rintro req st₁ w₁ _ _
  refine achieves_lookup (reads_challenge id) fun ch u _ hinv hch => ?_
  refine achieves_bind (achieves_fail_if fun w₂ h₂ _ _ => ?_)
  refine achieves_bind ((harmless_add_header _ _).achieves fun _ st₃ w₃ h₃ _ => ?_)
  extract_lets rest
  have hrest : ∀ ch st w, s.contract.Achieves thread (rest ch) st (fun _ _ _ => True) w :=
    fun _ _ _ => achieves_any (harmless_write_challenge h _)
  split
  · refine achieves_bind (achieves_expect fun payload w₄ h₄ _ _ => ?_)
    have hseen : s.contract.Once (fun u => u.store.challenges.lookup ch.id = some ch) w₄ :=
      ⟨u, hinv, ((h₂.trans h₃).trans h₄).later,
        by rw [hinv.keyed.challenges id ch hch]; exact hch⟩
    refine achieves_bind ((accept_challenge_achieves _ _ _ hseen).weaken ?_)
    exact fun ch st₂ w₅ _ _ => hrest ch st₂ w₅
  · exact hrest ch _ w₃

end AcmeServer.Safety
