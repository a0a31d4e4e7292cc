import AcmeServer.Fallible.Collect
import AcmeServer.Safety.Respond

/-!
# Safety of new orders

A new order is permitted because of how it is built. Its identifiers are normalized and distinct,
so counting the pre-approved ones decides whether all of them are (`approved_of_card`), and its
authorizations have fresh IDs, which are therefore distinct as well (`Drawn`).
-/

namespace AcmeServer.Safety

open Interaction Interaction.Contract Memstore Protocol

variable {s : Server} {thread : Nat} {w : World} {α β ε : Type} {st : RequestState} {r : Request}

/-! ## Identifiers -/

theorem foldlM_option_keeps {P : β → Prop} {f : β → α → Option β}
    (hstep : ∀ acc a out, P acc → f acc a = some out → P out) {list : List α} {acc out : β}
    (hacc : P acc) (h : list.foldlM f acc = some out) : P out := by
  induction list generalizing acc with
  | nil =>
      cases h
      exact hacc
  | cons a rest ih =>
      rw [List.foldlM_cons] at h
      obtain ⟨next, hround, hrest⟩ := Option.bind_eq_some_iff.mp h
      exact ih (hstep acc a next hacc hround) hrest

/-- A computation that succeeds has passed the check in front of it. -/
theorem ok_of_guard {c : Prop} [Decidable c] {e : ε} {rest : Unit → Except ε α} {a : α}
    (h : (if c then throw e >>= rest else rest ()) = .ok a) : rest () = .ok a := by
  by_cases hc : c
  · rw [if_pos hc] at h
    cases h
  · rwa [if_neg hc] at h

/-- The identifiers of an order are supported, and they are distinct when normalized. -/
theorem order_identifiers_ok {payload : NewOrderJSON} {ids : List Identifier}
    (h : s.orderIdentifiers payload = .ok ids) :
    (∀ id ∈ payload.identifiers, s.unsupportedIdentifier id = none) ∧
      Fallible.Results s.normalize payload.identifiers ids ∧ ids.Nodup := by
  unfold Server.orderIdentifiers at h
  extract_lets counted supported nonempty at h
  have hsupported : supported () = .ok ids := ok_of_guard (ok_of_guard h)
  obtain ⟨hnone, hcounted⟩ : payload.identifiers.findSome? s.unsupportedIdentifier = none ∧
      counted () = .ok ids := by
    simp only [supported] at hsupported
    split at hsupported
    · cases hsupported
    · next hnone => exact ⟨Option.eq_none_iff_forall_ne_some.2 hnone, hsupported⟩
  obtain ⟨found, hnormal, hchecked⟩ := Fallible.bind_eq_ok.1 hcounted
  have hvalidated := ok_of_guard (ok_of_guard (ok_of_guard hchecked))
  dsimp only at hvalidated
  split at hvalidated
  · cases hvalidated
  · cases hvalidated
    exact ⟨List.findSome?_eq_none_iff.1 hnone, Fallible.distinct_eq_ok.1 hnormal⟩

theorem order_identifiers_nodup {payload : NewOrderJSON} {ids : List Identifier}
    (h : s.orderIdentifiers payload = .ok ids) : ids.Nodup :=
  (order_identifiers_ok h).2.2

/-- A pre-approval only names identifiers of the order. -/
theorem granted_identifiers_subset {order : Order} {ids : List Identifier}
    {granted : Finset Identifier} (h : s.grantedIdentifiers order ids = some granted) :
    granted ⊆ order.identifiers.toFinset := by
  refine foldlM_option_keeps (P := fun granted => granted ⊆ order.identifiers.toFinset)
    (fun acc id next hacc hround => ?_) (Finset.empty_subset _) h
  split at hround
  · rename_i normalized _
    split at hround
    · rename_i hmem
      cases hround
      exact Finset.insert_subset (List.mem_toFinset.mpr hmem) hacc
    · cases hround
  · cases hround

/-- If as many identifiers are approved as the order has, then all of them are. -/
theorem approved_of_card {ids : List Identifier} {approved : Finset Identifier}
    (hnodup : ids.Nodup) (hsubset : approved ⊆ ids.toFinset)
    (hcard : approved.card = ids.length) : ∀ id ∈ ids, id ∈ approved := by
  have hall : approved = ids.toFinset := by
    refine Finset.eq_of_subset_of_card_le hsubset ?_
    rw [List.toFinset_card_of_nodup hnodup, hcard]
  intro id hid
  rw [hall]
  exact List.mem_toFinset.mpr hid

/-- If fewer identifiers are approved, then one of the order is not. -/
theorem not_approved_of_card {ids : List Identifier} {approved : Finset Identifier}
    (hnodup : ids.Nodup) (hsubset : approved ⊆ ids.toFinset)
    (hcard : approved.card ≠ ids.length) : ∃ id ∈ ids, id ∉ approved := by
  by_contra hall
  push Not at hall
  have hsame : approved = ids.toFinset :=
    Finset.Subset.antisymm hsubset fun id hid => hall id (List.mem_toFinset.mp hid)
  rw [hsame, List.toFinset_card_of_nodup hnodup] at hcard
  exact hcard rfl

/-! ## Building the order -/

/-- An order of the account as it is built at the time, before it gets its authorizations. -/
structure Blank (account : Account) (now : Time) (o : Order) : Prop where
  account : o.accountID = account.id
  status : o.status = .pending
  csr : o.csr = []
  issuance : o.issuance = none
  certificate : o.certificateID = ""
  identifiers : o.identifiers.Nodup
  created : o.createdAt = now

theorem harmless_select_profile (account : Account) (requested : String) :
    s.contract.HarmlessAttempt (s.selectProfile account requested) := by
  unfold Server.selectProfile
  split
  · exact (HarmlessAttempt.fail_if _ _).bind fun _ => .pure _
  · split
    · refine (HarmlessAttempt.lift (harmless_ask (by intros; trivial))).bind fun answer => ?_
      refine (HarmlessAttempt.expect _).bind fun chosen => ?_
      exact (HarmlessAttempt.fail_if _ _).bind fun _ => .pure _
    · exact .pure _

theorem harmless_check_replaces (account : Account) (identifiers : List Identifier)
    (replaces : String) :
    s.contract.HarmlessAttempt (s.checkReplaces account identifiers replaces) := by
  unfold Server.checkReplaces
  split
  · exact .pure _
  · refine (HarmlessAttempt.fail_if _ _).bind fun _ => ?_
    refine (HarmlessAttempt.lift (harmless_fetch rfl)).bind fun result => ?_
    refine (HarmlessAttempt.expect _).bind fun cert => ?_
    refine (HarmlessAttempt.fail_if _ _).bind fun _ => ?_
    exact (HarmlessAttempt.fail_if _ _).bind fun _ => .pure _

/-- The policy may only change the validity of an order. -/
theorem review_order_achieves {account : Account} {order : Order} {now : Time}
    (h : Blank account now order) :
    s.contract.Achieves thread (Server.reviewOrder account order) st
      (fun o _ _ => Blank account now o) w := by
  unfold Server.reviewOrder
  refine achieves_ask (by intros; trivial) fun review w₁ _ _ => ?_
  refine achieves_bind (achieves_check fun w₂ _ _ _ => ?_)
  refine achieves_bind (achieves_fail_if fun w₃ _ _ _ => ?_)
  refine achieves_bind (achieves_fail_if fun w₄ _ _ _ => ?_)
  exact achieves_pure fun _ _ _ => { h with }

theorem build_order_achieves (account : Account) (payload : NewOrderJSON) (now : Time)
    (client : String) :
    s.contract.Achieves thread (s.buildOrder account payload now client) st
      (fun o _ _ => Blank account now o) w := by
  unfold Server.buildOrder
  refine achieves_bind (achieves_expect fun identifiers w₁ _ _ hids => ?_)
  refine achieves_bind (achieves_expect fun validity w₂ _ _ _ => ?_)
  refine achieves_bind ((harmless_select_profile _ _).achieves fun profile st₃ w₃ _ _ => ?_)
  refine achieves_bind ((harmless_check_replaces _ _ _).achieves fun replaces st₄ w₄ _ _ => ?_)
  refine achieves_new_id rfl fun id _ w₅ _ _ _ _ _ _ _ => ?_
  refine achieves_bind (achieves_lift ((harmless_check_limit _).safe fun refusal w₆ _ _ => ?_))
  refine achieves_bind (achieves_check fun w₇ _ _ _ => ?_)
  exact review_order_achieves ⟨rfl, rfl, rfl, rfl, rfl, order_identifiers_nodup hids, rfl⟩

theorem pre_approve_achieves (account : Account) (order : Order) :
    s.contract.Achieves thread (s.preApprove account order) st
      (fun approved _ _ => approved ⊆ order.identifiers.toFinset) w := by
  unfold Server.preApprove
  split
  · refine achieves_ask (by intros; trivial) fun answer w₁ _ _ => ?_
    refine achieves_bind (achieves_expect fun ids w₂ _ _ _ => ?_)
    refine achieves_bind (achieves_fail_if fun w₃ _ _ _ => ?_)
    cases hgranted : s.grantedIdentifiers order ids with
    | none => exact achieves_throw
    | some granted => exact achieves_pure fun _ _ _ => granted_identifiers_subset hgranted
  · exact achieves_pure fun _ _ _ => Finset.empty_subset _

/-! ## Building the authorizations -/

/-- The ID has been drawn. -/
def Drawn (w : World) (id : String) : Prop := ∃ e ∈ w.history, e.draws = some id

theorem Drawn.later {u : World} {id : String} (h : Drawn u id) (hlater : s.contract.Later u w) :
    Drawn w id := by
  obtain ⟨e, he, hid⟩ := h
  exact ⟨e, (later_progress hlater).history.mem he, hid⟩

/-- An ID that was not drawn at a later moment was not drawn before. -/
theorem not_drawn {u : World} {id : String} (hlater : s.contract.Later u w)
    (hfresh : ∀ e ∈ w.history, e.draws ≠ some id) : ¬ Drawn u id := by
  intro hdrawn
  obtain ⟨e, he, hid⟩ := hdrawn.later hlater
  exact hfresh e he hid

theorem drawn_of_owns {id : String} (h : Owns w thread id) : Drawn w id := by
  obtain ⟨e, he, _, hid⟩ := h.drawn
  exact ⟨e, he, hid⟩

/-- A challenge that a new order may have for the authorization. -/
def ChallengeFor (order : Order) (authzID : String) (c : Challenge) : Prop :=
  c.status = .pending ∧ c.accountID = order.accountID ∧ c.authorizationID = authzID

/-- The IDs of new challenges are drawn for them. -/
theorem build_challenges_achieves (order : Order) (authzID : String)
    (types : List ChallengeType) :
    s.contract.Achieves thread (Server.buildChallenges order authzID types) st
      (fun challenges _ after => ∀ c ∈ challenges,
        ChallengeFor order authzID c ∧ ¬ Drawn w c.id ∧ Drawn after c.id) w := by
  induction types generalizing st w with
  | nil => exact achieves_pure fun _ _ _ c hc => absurd hc List.not_mem_nil
  | cons type rest ih =>
      unfold Server.buildChallenges
      refine achieves_new_id rfl fun id seen w₁ hseen _ h₁ _ _ hfresh howns => ?_
      refine achieves_ask (by intros; trivial) fun token w₂ h₂ _ => ?_
      cases token with
      | none => exact achieves_throw
      | some token =>
          refine achieves_bind (ih.since.weaken ?_)
          rintro others st' w₃ _ ⟨h₃, hothers⟩
          refine achieves_pure fun w₄ h₄ _ c hc => ?_
          rcases List.mem_cons.mp hc with rfl | hc
          · have hlater := (h₂.later.trans h₃).trans h₄.later
            exact ⟨⟨rfl, rfl, rfl⟩, not_drawn hseen.later hfresh,
              (drawn_of_owns howns).later hlater⟩
          · obtain ⟨hfor, hnew, hdrawn⟩ := hothers c hc
            have hlater := (hseen.trans (h₁.trans h₂)).later
            exact ⟨hfor, fun hold => hnew (hold.later hlater), hdrawn.later h₄.later⟩

/-- The status a new authorization has. -/
def initialStatus (approved : Finset Identifier) (id : Identifier) : AuthorizationStatus :=
  if id ∈ approved then .valid else .pending

/-- The wildcard prefix that an authorization is stored without is restored. -/
theorem order_identifier_eq {a : Authorization} {id : Identifier}
    (hidentifier : a.identifier =
      if id.isWildcard then { id with value := (cutPrefix id.value "*.").getD id.value } else id)
    (hwildcard : a.wildcard = id.isWildcard) : a.orderIdentifier = id := by
  unfold Authorization.orderIdentifier
  rw [hidentifier, hwildcard]
  by_cases hwild : id.isWildcard = true
  · have hlead := (Bool.and_eq_true_iff.mp hwild).2
    rw [if_pos hwild, if_pos hwild, cut_prefix_restored hlead]
  · rw [if_neg hwild, if_neg hwild]

/-- An authorization with its challenges as it is built for an identifier of the order. -/
structure AuthorizationFor (o : Order) (approved : Finset Identifier) (id : Identifier)
    (a : Authorization) (challenges : List Challenge) : Prop where
  order : a.orderID = o.id
  identifier : a.orderIdentifier = id
  status : a.status = initialStatus approved id
  preApproved : a.status = .valid → a.preApproved = true
  listed : a.challengeIDs = challenges.map Challenge.id
  challenges : ∀ c ∈ challenges, ChallengeFor o a.id c

/-- The IDs of a new authorization and its challenges are drawn for them. -/
theorem build_authorization_achieves (order : Order) (approved : Finset Identifier)
    (id : Identifier) :
    s.contract.Achieves thread (s.buildAuthorization order approved id) st
      (fun built _ after => AuthorizationFor order approved id built.1 built.2 ∧
        (¬ Drawn w built.1.id ∧ Drawn after built.1.id) ∧
        ∀ c ∈ built.2, ¬ Drawn w c.id ∧ Drawn after c.id) w := by
  unfold Server.buildAuthorization
  refine achieves_new_id rfl fun authzID seen w₁ hseen _ h₁ _ _ hfresh howns => ?_
  have hnew : ¬ Drawn w authzID := not_drawn hseen.later hfresh
  have hdrawn : Drawn w₁ authzID := drawn_of_owns howns
  dsimp only
  split
  · rename_i hmem
    refine achieves_pure fun w₂ h₂ _ => ⟨⟨rfl, order_identifier_eq rfl rfl, (if_pos hmem).symm,
      fun _ => rfl, rfl, ?_⟩, ⟨hnew, hdrawn.later h₂.later⟩, ?_⟩
    all_goals exact fun c hc => absurd hc List.not_mem_nil
  · rename_i hmem
    refine achieves_bind ((build_challenges_achieves _ _ _).since.weaken ?_)
    rintro challenges st' w₂ _ ⟨h₂, hchallenges⟩
    refine achieves_pure fun w₃ h₃ _ => ⟨⟨rfl, order_identifier_eq rfl rfl, (if_neg hmem).symm,
      nofun, rfl, fun c hc => (hchallenges c hc).1⟩,
      ⟨hnew, hdrawn.later (h₂.trans h₃.later)⟩, fun c hc => ?_⟩
    obtain ⟨_, hunused, hused⟩ := hchallenges c hc
    exact ⟨fun hold => hunused (hold.later (hseen.trans h₁).later), hused.later h₃.later⟩

/-- The authorizations of an order as they are built. -/
structure AuthorizationsFor (o : Order) (approved : Finset Identifier) (ids : List Identifier)
    (authzs : List Authorization) (challenges : List Challenge) : Prop where
  order : ∀ a ∈ authzs, a.orderID = o.id
  identifiers : ids = authzs.map Authorization.orderIdentifier
  preApproved : ∀ a ∈ authzs, a.status = .valid → a.preApproved = true
  status : authzs.map Authorization.status = ids.map (initialStatus approved)
  listed : ∀ a ∈ authzs, ∀ cid ∈ a.challengeIDs, ∃ c ∈ challenges, c.id = cid
  owned : ∀ a ∈ authzs, ∀ c ∈ challenges, c.id ∈ a.challengeIDs ↔ c.authorizationID = a.id
  challenges : ∀ c ∈ challenges, ∃ a ∈ authzs, ChallengeFor o a.id c
  distinct : (authzs.map Authorization.id).Nodup

theorem AuthorizationsFor.cons {order : Order} {approved : Finset Identifier} {id : Identifier}
    {ids : List Identifier} {a : Authorization} {authzs : List Authorization}
    {challenges others : List Challenge} (ha : AuthorizationFor order approved id a challenges)
    (h : AuthorizationsFor order approved ids authzs others)
    (hnew : ∀ other ∈ authzs, a.id ≠ other.id)
    (hchallenges : ∀ c ∈ challenges, ∀ c' ∈ others, c.id ≠ c'.id) :
    AuthorizationsFor order approved (id :: ids) (a :: authzs) (challenges ++ others) where
  order := List.forall_mem_cons.mpr ⟨ha.order, h.order⟩
  identifiers := by rw [List.map_cons, ha.identifier, ← h.identifiers]
  preApproved := List.forall_mem_cons.mpr ⟨ha.preApproved, h.preApproved⟩
  status := by rw [List.map_cons, List.map_cons, ha.status, h.status]
  listed := by
    intro other hother cid hcid
    rcases List.mem_cons.mp hother with rfl | hother
    · rw [ha.listed] at hcid
      obtain ⟨c, hc, rfl⟩ := List.mem_map.mp hcid
      exact ⟨c, List.mem_append_left _ hc, rfl⟩
    · obtain ⟨c, hc, hid⟩ := h.listed other hother cid hcid
      exact ⟨c, List.mem_append_right _ hc, hid⟩
  challenges := by
    intro c hc
    rcases List.mem_append.mp hc with hc | hc
    · exact ⟨a, List.mem_cons_self, ha.challenges c hc⟩
    · obtain ⟨other, hother, hfor⟩ := h.challenges c hc
      exact ⟨other, List.mem_cons_of_mem _ hother, hfor⟩
  owned := by
    intro b hb c hc
    rcases List.mem_cons.mp hb with rfl | hb <;> rcases List.mem_append.mp hc with hc | hc
    · rw [ha.listed]
      exact ⟨fun _ => (ha.challenges c hc).2.2, fun _ => List.mem_map_of_mem hc⟩
    · -- A challenge of another authorization has another ID and names the other one.
      obtain ⟨other, hother, _, _, hauthz⟩ := h.challenges c hc
      rw [ha.listed, hauthz]
      refine ⟨fun hmem => ?_, fun heq => absurd heq.symm (hnew other hother)⟩
      obtain ⟨c', hc', hid⟩ := List.mem_map.mp hmem
      exact absurd hid (hchallenges c' hc' c hc)
    · rw [(ha.challenges c hc).2.2]
      refine ⟨fun hmem => ?_, fun heq => absurd heq (hnew b hb)⟩
      obtain ⟨c', hc', hid⟩ := h.listed b hb c.id hmem
      exact absurd hid.symm (hchallenges c hc c' hc')
    · exact h.owned b hb c hc
  distinct := by
    rw [List.map_cons, List.nodup_cons]
    refine ⟨fun hmem => ?_, h.distinct⟩
    obtain ⟨other, hother, hid⟩ := List.mem_map.mp hmem
    exact hnew other hother hid.symm

/-- What was built earlier has IDs that are drawn when the next authorizations are built. -/
theorem build_authorization_list_achieves (order : Order) (approved : Finset Identifier)
    (ids : List Identifier) :
    s.contract.Achieves thread (s.buildAuthorizationList order approved ids) st
      (fun built _ _ => AuthorizationsFor order approved ids built.1 built.2 ∧
        (∀ a ∈ built.1, ¬ Drawn w a.id) ∧ ∀ c ∈ built.2, ¬ Drawn w c.id) w := by
  induction ids generalizing st w with
  | nil =>
      refine achieves_pure fun _ _ _ => ⟨⟨?_, rfl, ?_, rfl, ?_, ?_, ?_, List.nodup_nil⟩, ?_, ?_⟩
      all_goals exact fun _ hmem => absurd hmem List.not_mem_nil
  | cons id rest ih =>
      unfold Server.buildAuthorizationList
      refine achieves_bind ((build_authorization_achieves order approved id).since.weaken ?_)
      rintro ⟨a, challenges⟩ st₁ w₁ _ ⟨hlater, ha, ⟨hnew, hdrawn⟩, hchallenges⟩
      refine achieves_bind (ih.weaken ?_)
      rintro ⟨authzs, others⟩ st₂ w₂ _ ⟨hrest, hfresh, hunused⟩
      refine achieves_pure fun _ _ _ => ⟨hrest.cons ha ?_ ?_, ?_, ?_⟩
      · exact fun other hother heq => hfresh other hother (heq ▸ hdrawn)
      · exact fun c hc c' hc' heq => hunused c' hc' (heq ▸ (hchallenges c hc).2)
      · refine List.forall_mem_cons.mpr ⟨hnew, fun other hother hold => ?_⟩
        exact hfresh other hother (hold.later hlater)
      · intro c hc
        rcases List.mem_append.mp hc with hc | hc
        · exact (hchallenges c hc).1
        · exact fun hold => hunused c hc (hold.later hlater)

/-! ## Creating the order -/

/-- The order with its authorizations may be created once its account is stored. -/
theorem order_creation {store : Store} {account stored : Account} {order : Order} {now : Time}
    {approved : Finset Identifier} {authzs : List Authorization} {challenges : List Challenge}
    (hblank : Blank account now order) (happroved : approved ⊆ order.identifiers.toFinset)
    (h : AuthorizationsFor order approved order.identifiers authzs challenges)
    (hstored : store.accounts.lookup account.id = some stored) :
    OrderCreation store ⟨{ order with
      authorizationIDs := authzs.map Authorization.id
      status := if approved.card = order.identifiers.length then .ready else order.status },
      authzs, challenges⟩ where
  account := ⟨stored, by rw [← hstored, ← hblank.account]⟩
  csr := hblank.csr
  issuance := hblank.issuance
  certificate := hblank.certificate
  listed := rfl
  distinct := h.distinct
  identifiers := h.identifiers
  owned := h.owned
  preApproved := h.preApproved
  authorizations := by
    intro a ha
    refine ⟨h.order a ha, ?_, h.listed a ha⟩
    have hstatus := List.mem_map_of_mem (f := Authorization.status) ha
    rw [h.status] at hstatus
    obtain ⟨id, _, hid⟩ := List.mem_map.mp hstatus
    rw [← hid]
    unfold initialStatus
    split
    · exact .inr rfl
    · exact .inl rfl
  challenges := by
    intro c hc
    obtain ⟨a, ha, hpending, haccount, hauthz⟩ := h.challenges c hc
    exact ⟨hpending, haccount, hauthz ▸ List.mem_map_of_mem ha⟩
  status := by
    dsimp only
    split
    · rename_i hcard
      refine .inr ⟨rfl, fun a ha => ?_⟩
      have hstatus := List.mem_map_of_mem (f := Authorization.status) ha
      rw [h.status] at hstatus
      obtain ⟨id, hid, hvalid⟩ := List.mem_map.mp hstatus
      rw [← hvalid]
      exact if_pos (approved_of_card hblank.identifiers happroved hcard id hid)
    · rename_i hcard
      obtain ⟨id, hid, hnot⟩ := not_approved_of_card hblank.identifiers happroved hcard
      have hstatus := List.mem_map_of_mem (f := initialStatus approved) hid
      rw [← h.status] at hstatus
      obtain ⟨a, ha, hpending⟩ := List.mem_map.mp hstatus
      exact .inl ⟨hblank.status, a, ha, hpending.trans (if_neg hnot)⟩

theorem serve_new_order_achieves (h : Unconditional s r) :
    s.contract.Achieves thread (s.serveNewOrder r) st (fun _ _ _ => True) w := by
  unfold Server.serveNewOrder
  refine achieves_bind ((read_signed_request_achieves r _ .account).weaken ?_)
  rintro req st₁ w₁ _ ⟨_, hseen⟩
  refine achieves_bind (achieves_expect fun payload w₂ h₂ _ _ => ?_)
  refine achieves_now fun now w₃ h₃ _ hread => ?_
  refine achieves_bind ((build_order_achieves _ _ _ _).since.weaken ?_)
  rintro order st₄ w₄ _ ⟨h₄, hblank⟩
  refine achieves_bind ((pre_approve_achieves _ _).since.weaken ?_)
  rintro approved st₅ w₅ _ ⟨h₅, happroved⟩
  unfold Server.buildAuthorizations
  rw [bind_assoc]
  refine achieves_bind ((build_authorization_list_achieves _ _ _).since.weaken ?_)
  rintro ⟨authzs, challenges⟩ st₆ w₆ _ ⟨h₆, hbuilt, _⟩
  rw [pure_bind]
  have hlater := ((((h₂.trans h₃).later.trans h₄).trans h₅).trans h₆)
  obtain ⟨u, _, hu, haccount, _⟩ := Once.later hseen hlater
  refine achieves_store (fun w₇ h₇ _ => ?_) fun env w₇ w₈ _ _ _ _ _ _ => ?_
  · obtain ⟨stored, hstored, _⟩ := (later_progress (hu.trans h₇.later)).accounts _ _ haccount
    refine ⟨order_creation hblank happroved hbuilt hstored, ?_⟩
    rw [show Order.createdAt _ = now from hblank.created]
    exact hread.later (((h₄.trans h₅).trans h₆).trans h₇.later)
  · refine achieves_any ?_
    split
    · exact harmless_write_order h _ _ _
    · split
      · exact .throw _
      · exact .throw _

end AcmeServer.Safety
