import AcmeServer.Safety.Respond

/-!
# Safety of account requests

An account is only changed by a request that it signed while it was valid, so what the update
presents is the account that was read with a new key, new contacts or the deactivated status.
-/

namespace AcmeServer.Safety

open Interaction Interaction.Contract Memstore Protocol

variable {s : Server} {thread : Nat} {w : World} {α : Type} {st : RequestState} {r : Request}

/-! ## New accounts -/

theorem harmless_verify_external_account_binding (thumbprint : String) (raw : Bytes) :
    s.contract.HarmlessAttempt (s.verifyExternalAccountBinding thumbprint raw) := by
  unfold Server.verifyExternalAccountBinding
  refine (HarmlessAttempt.fail_if _ _).bind fun _ => ?_
  refine (HarmlessAttempt.expect _).bind fun msg => ?_
  refine (HarmlessAttempt.fail_if _ _).bind fun _ => ?_
  refine (HarmlessAttempt.fail_if _ _).bind fun _ => ?_
  refine (HarmlessAttempt.lift (harmless_ask (by intros; trivial))).bind fun key => ?_
  refine (HarmlessAttempt.expect _).bind fun key => ?_
  refine (HarmlessAttempt.check _).bind fun _ => ?_
  refine (HarmlessAttempt.expect _).bind fun boundKey => ?_
  exact (HarmlessAttempt.fail_if _ _).bind fun _ => .pure _

theorem harmless_build_account (client : String) (key : PublicKey) (thumbprint : String)
    (payload : NewAccountJSON) :
    s.contract.HarmlessAttempt (s.buildAccount client key thumbprint payload) := by
  unfold Server.buildAccount
  refine (HarmlessAttempt.check _).bind fun _ => ?_
  refine (HarmlessAttempt.fail_if _ _).bind fun _ => ?_
  refine (HarmlessAttempt.fail_if _ _).bind fun _ => ?_
  extract_lets rest
  have hrest : ∀ externalID, s.contract.HarmlessAttempt (rest externalID) := by
    intro externalID
    refine (HarmlessAttempt.lift (harmless_ask (by intros; trivial))).bind fun id => ?_
    cases id with
    | none => exact .throw _
    | some id =>
        refine (HarmlessAttempt.lift (harmless_ask (by intros; trivial))).bind fun now => ?_
        refine (HarmlessAttempt.lift (harmless_check_limit _)).bind fun refusal => ?_
        refine (HarmlessAttempt.check _).bind fun _ => ?_
        refine (HarmlessAttempt.lift (harmless_ask (by intros; trivial))).bind fun review => ?_
        exact (HarmlessAttempt.check _).bind fun _ => .pure _
  split
  · exact (HarmlessAttempt.pure _).bind hrest
  · exact (harmless_verify_external_account_binding _ _).bind hrest

theorem harmless_write_existing_account (h : Unconditional s r) (account : Account) :
    s.contract.HarmlessAttempt (s.writeExistingAccount r account) := by
  unfold Server.writeExistingAccount
  refine (HarmlessAttempt.fail_if _ _).bind fun _ => ?_
  exact (harmless_set_header _ _).bind fun _ => harmless_write h _ _ _

theorem harmless_store_new_account (h : Unconditional s r) (thumbprint : String)
    (account : Account) :
    s.contract.HarmlessAttempt (s.storeNewAccount r thumbprint account) := by
  unfold Server.storeNewAccount
  refine (HarmlessAttempt.lift (harmless_store rfl (by intros; trivial))).bind fun reply => ?_
  split
  · exact (harmless_set_header _ _).bind fun _ => harmless_write h _ _ _
  · refine (HarmlessAttempt.lift (harmless_fetch rfl)).bind fun existing => ?_
    cases existing with
    | ok existing => exact harmless_write_existing_account h existing
    | error err =>
        dsimp only
        split
        · exact .throw _
        · exact .throw _
  · exact .throw _

theorem serve_new_account_achieves (h : Unconditional s r) :
    s.contract.Achieves thread (s.serveNewAccount r) st (fun _ _ _ => True) w := by
  unfold Server.serveNewAccount
  extract_lets rest
  have hrest : ∀ u st w, s.contract.Achieves thread (rest u) st (fun _ _ _ => True) w := by
    intro u st w
    refine achieves_bind ((read_signed_request_achieves _ _ _).weaken fun req st' _ _ _ => ?_)
    refine achieves_any ?_
    refine (HarmlessAttempt.expect _).bind fun payload => ?_
    refine (HarmlessAttempt.expect _).bind fun thumbprint => ?_
    refine (HarmlessAttempt.lift (harmless_fetch rfl)).bind fun existing => ?_
    cases existing with
    | ok existing => exact harmless_write_existing_account h existing
    | error err =>
        refine (HarmlessAttempt.fail_if _ _).bind fun _ => ?_
        refine (HarmlessAttempt.fail_if _ _).bind fun _ => ?_
        refine (harmless_build_account _ _ _ _).bind fun account => ?_
        exact harmless_store_new_account h _ _
  split
  · exact achieves_bind ((harmless_add_header _ _).achieves fun u st' w' _ _ => hrest u st' w')
  · exact hrest () st w

/-! ## Account updates -/

/-- An update of the signing account is permitted if it keeps the account or deactivates it. -/
theorem account_update_permitted {a a' : Account} (hseen : AccountSeen s a w) (hid : a'.id = a.id)
    (hrevision : a'.revision = a.revision)
    (hstatus : a'.status = a.status ∨ a'.status = .deactivated) : AccountUpdate w.store a' := by
  intro stored hstored hcurrent
  obtain ⟨u, _, hlater, hlookup, hvalid⟩ := hseen
  rw [hid] at hstored
  cases account_unchanged hlater hlookup hstored (hcurrent.trans hrevision)
  refine ⟨hvalid, ?_⟩
  rwa [hvalid] at hstatus

theorem update_account_safe (thread : Nat) {a : Account} (a' : Account)
    (hseen : AccountSeen s a w) (hid : a'.id = a.id) (hrevision : a'.revision = a.revision)
    (hstatus : a'.status = a.status ∨ a'.status = .deactivated) :
    s.contract.Safe thread (Server.updateAccount a') (fun _ _ => True) w := by
  unfold Server.updateAccount
  refine safe_store (fun seen hrely _ => ?_) fun env seen after _ _ _ _ _ _ => ?_
  · exact account_update_permitted (hseen.later hrely.later) hid hrevision hstatus
  · cases (seen.store.apply env (.updateAccount a')).1.result <;>
      exact safe_done fun _ _ _ => trivial

theorem read_owned_account_achieves (id rel : String) :
    s.contract.Achieves thread (s.readOwnedAccount r id rel) st
      (fun req _ after => AccountSeen s req.signer after) w := by
  unfold Server.readOwnedAccount
  refine achieves_bind ((read_signed_request_achieves r rel .account).weaken ?_)
  rintro req st' w₁ _ ⟨_, hseen⟩
  refine achieves_bind (achieves_fail_if fun w₂ h₂ _ _ => ?_)
  exact achieves_pure fun w₃ h₃ _ => Once.later hseen (h₂.trans h₃).later

theorem changed_account_status (a : Account) (payload : AccountUpdateJSON) :
    (Server.changedAccount a payload).status = a.status ∨
      (Server.changedAccount a payload).status = .deactivated := by
  unfold Server.changedAccount
  dsimp only
  split
  · exact .inr rfl
  · exact .inl rfl

theorem serve_account_achieves (h : Unconditional s r) (id : String) :
    s.contract.Achieves thread (s.serveAccount r id) st (fun _ _ _ => True) w := by
  unfold Server.serveAccount
  refine achieves_bind ((read_owned_account_achieves _ _).weaken fun req st' w₁ _ hseen => ?_)
  split
  · exact achieves_any (harmless_write h _ _ _)
  · refine achieves_bind (achieves_expect fun payload w₂ h₂ _ _ => ?_)
    refine achieves_bind (achieves_fail_if fun w₃ h₃ _ _ => ?_)
    refine achieves_bind (achieves_check fun w₄ h₄ _ _ => ?_)
    have hupdate := update_account_safe thread (Server.changedAccount req.signer payload)
      (Once.later hseen ((h₂.trans h₃).trans h₄).later) rfl rfl
      (changed_account_status req.signer payload)
    refine achieves_bind (achieves_lift (hupdate.weaken fun result w₅ _ _ => ?_))
    exact achieves_any ((HarmlessAttempt.expect _).bind fun _ => harmless_write h _ _ _)

/-- A key change keeps everything but the key. -/
theorem new_key_fields {req : SignedRequest .account} {account : Account}
    (h : s.newKey req = .ok account) : account.id = req.signer.id ∧
      account.revision = req.signer.revision ∧ account.status = req.signer.status := by
  unfold Server.newKey at h
  simp only [Bind.bind, Except.bind] at h
  repeat' split at h
  all_goals first | (cases h; exact ⟨rfl, rfl, rfl⟩) | cases h

theorem serve_key_change_achieves (h : Unconditional s r) :
    s.contract.Achieves thread (s.serveKeyChange r) st (fun _ _ _ => True) w := by
  unfold Server.serveKeyChange
  refine achieves_bind ((read_signed_request_achieves r _ .account).weaken ?_)
  rintro req st' w₁ _ ⟨_, hseen⟩
  refine achieves_bind (achieves_expect fun account w₂ h₂ _ haccount => ?_)
  obtain ⟨hid, hrevision, hstatus⟩ := new_key_fields haccount
  have hseen' := Once.later hseen h₂.later
  refine achieves_bind (achieves_lift
    ((update_account_safe thread account hseen' hid hrevision (.inl hstatus)).weaken ?_))
  intro result w₃ _ _
  refine achieves_any ?_
  cases result with
  | ok account => exact harmless_write h _ _ _
  | error p =>
      dsimp only
      split
      · refine (HarmlessAttempt.lift (harmless_fetch rfl)).bind fun other => ?_
        cases other with
        | ok other => exact (harmless_set_header _ _).bind fun _ => .throw _
        | error err => exact .throw _
      · exact .throw _

/-! ## Lists of orders -/

theorem harmless_order_urls (now : Time) (ids : List String) :
    s.contract.HarmlessAttempt (s.orderURLs now ids) := by
  induction ids with
  | nil => exact .pure _
  | cons id rest ih =>
      unfold Server.orderURLs
      refine (HarmlessAttempt.lift (harmless_fetch rfl)).bind fun result => ?_
      refine (HarmlessAttempt.expect _).bind fun order => ?_
      refine ih.bind fun urls => ?_
      split
      · exact .pure _
      · exact .pure _

theorem serve_account_orders_achieves (h : Unconditional s r) (id : String) :
    s.contract.Achieves thread (s.serveAccountOrders r id) st (fun _ _ _ => True) w := by
  unfold Server.serveAccountOrders
  refine achieves_bind ((read_owned_account_achieves _ _).weaken fun req st' w₁ _ _ => ?_)
  refine achieves_any ?_
  refine (HarmlessAttempt.check _).bind fun _ => ?_
  refine (HarmlessAttempt.fail_if _ _).bind fun _ => ?_
  refine (HarmlessAttempt.lift (harmless_fetch rfl)).bind fun result => ?_
  refine (HarmlessAttempt.expect _).bind fun ids => ?_
  refine (HarmlessAttempt.lift (harmless_ask (by intros; trivial))).bind fun now => ?_
  refine (harmless_order_urls _ _).bind fun urls => ?_
  dsimp only
  split
  · exact (harmless_add_header _ _).bind fun _ => harmless_write h _ _ _
  · exact harmless_write h _ _ _

end AcmeServer.Safety
