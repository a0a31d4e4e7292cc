import AcmeServer.Lifecycle.Machine

/-!
# The life cycle keeps its invariant

`Step.coherent`: every transition of the life cycle preserves `Coherent`. The parts of the
invariant are proved one after the other. What most transitions have in common is said once: they
rewrite an order without touching what others refer to (`Linked.rewrite`), they leave alone the
authorizations of every order but one (`Agrees.congr`), and they do not change what is published
(`published_update`).
-/

namespace AcmeServer.Lifecycle

variable {σ σ' : State}

/-! ## References -/

/-- Rewriting rows keeps the references as long as every row keeps its own. -/
theorem Linked.rewrite (h : Linked σ)
    (haccounts : ∀ id, σ.accounts id → σ'.accounts id)
    (horders : ∀ {id o'}, σ'.orders id = some o' →
      ∃ o, σ.orders id = some o ∧ o'.account = o.account ∧ o'.authorizations = o.authorizations)
    (horders' : ∀ {id o}, σ.orders id = some o →
      ∃ o', σ'.orders id = some o' ∧ o'.authorizations = o.authorizations)
    (hauthorizations : ∀ {aid a'}, σ'.authorizations aid = some a' →
      ∃ a, σ.authorizations aid = some a ∧ a'.order = a.order ∧ a'.challenges = a.challenges)
    (hauthorizations' : ∀ {aid a}, σ.authorizations aid = some a →
      ∃ a', σ'.authorizations aid = some a' ∧ a'.order = a.order)
    (hchallenges : ∀ {cid c'}, σ'.challenges cid = some c' →
      ∃ c, σ.challenges cid = some c ∧ c'.authorization = c.authorization ∧
        c'.account = c.account)
    (hchallenges' : ∀ {cid c}, σ.challenges cid = some c →
      ∃ c', σ'.challenges cid = some c') : Linked σ' where
  order_account ho := by
    obtain ⟨o, ho, haccount, _⟩ := horders ho
    rw [haccount]
    exact haccounts _ (h.order_account ho)
  order_authorization ho hmem := by
    obtain ⟨o, ho, _, hlist⟩ := horders ho
    rw [hlist] at hmem
    obtain ⟨a, ha, horder⟩ := h.order_authorization ho hmem
    obtain ⟨a', ha', horder'⟩ := hauthorizations' ha
    exact ⟨a', ha', horder'.trans horder⟩
  authorization_order ha := by
    obtain ⟨a, ha, horder, _⟩ := hauthorizations ha
    obtain ⟨o, ho, hmem⟩ := h.authorization_order ha
    obtain ⟨o', ho', hlist⟩ := horders' ho
    rw [horder]
    exact ⟨o', ho', hlist ▸ hmem⟩
  authorization_challenge ha hmem := by
    obtain ⟨a, ha, _, hlist⟩ := hauthorizations ha
    rw [hlist] at hmem
    obtain ⟨c, hc⟩ := h.authorization_challenge ha hmem
    exact hchallenges' hc
  challenge_authorization hc := by
    obtain ⟨c, hc, hauthorization, _⟩ := hchallenges hc
    obtain ⟨a, ha⟩ := h.challenge_authorization hc
    obtain ⟨a', ha', _⟩ := hauthorizations' ha
    rw [hauthorization]
    exact ⟨a', ha'⟩
  challenge_account hc := by
    obtain ⟨c, hc, _, haccount⟩ := hchallenges hc
    rw [haccount]
    exact haccounts _ (h.challenge_account hc)

/-- A row of an updated table comes from a row of the table before. -/
theorem update_row {V : Type} {rows : String → Option V} {key : String} {v v' : V}
    {P : V → V → Prop} (hrefl : ∀ v, P v v) (hrow : rows key = some v) (hP : P v' v)
    {id : String} {w : V} (h : Function.update rows key (some v') id = some w) :
    ∃ u, rows id = some u ∧ P w u := by
  by_cases hid : id = key
  · subst hid
    rw [Function.update_self] at h
    cases h
    exact ⟨v, hrow, hP⟩
  · rw [Function.update_of_ne hid] at h
    exact ⟨w, h, hrefl w⟩

/-- A row of a table is still there after an update. -/
theorem row_update {V : Type} {rows : String → Option V} {key : String} {v v' : V}
    {P : V → V → Prop} (hrefl : ∀ v, P v v) (hrow : rows key = some v) (hP : P v' v)
    {id : String} {u : V} (h : rows id = some u) :
    ∃ w, Function.update rows key (some v') id = some w ∧ P w u := by
  by_cases hid : id = key
  · subst hid
    rw [hrow] at h
    cases h
    exact ⟨v', Function.update_self .., hP⟩
  · exact ⟨u, by rwa [Function.update_of_ne hid], hrefl u⟩

/-- Rewriting one order keeps the references. -/
theorem Linked.update_order (h : Linked σ) {oid : String} {o : OrderRow} (o' : OrderRow)
    (horder : σ.orders oid = some o) (haccount : o'.account = o.account)
    (hlist : o'.authorizations = o.authorizations) :
    Linked { σ with orders := Function.update σ.orders oid (some o') } :=
  h.rewrite (fun _ h => h)
    (update_row (P := fun o' o => o'.account = o.account ∧ o'.authorizations = o.authorizations)
      (fun _ => ⟨rfl, rfl⟩) horder ⟨haccount, hlist⟩)
    (row_update (P := fun o' o => o'.authorizations = o.authorizations) (fun _ => rfl) horder hlist)
    (fun ha => ⟨_, ha, rfl, rfl⟩) (fun ha => ⟨_, ha, rfl⟩) (fun hc => ⟨_, hc, rfl, rfl⟩)
    (fun hc => ⟨_, hc⟩)

/-- Rewriting one authorization keeps the references. -/
theorem Linked.update_authorization (h : Linked σ) {aid : String} {a : AuthorizationRow}
    (a' : AuthorizationRow) (hauthorization : σ.authorizations aid = some a)
    (horder : a'.order = a.order) (hlist : a'.challenges = a.challenges) :
    Linked { σ with authorizations := Function.update σ.authorizations aid (some a') } :=
  h.rewrite (fun _ h => h) (fun ho => ⟨_, ho, rfl, rfl⟩) (fun ho => ⟨_, ho, rfl⟩)
    (update_row (P := fun a' a => a'.order = a.order ∧ a'.challenges = a.challenges)
      (fun _ => ⟨rfl, rfl⟩) hauthorization ⟨horder, hlist⟩)
    (row_update (P := fun a' a => a'.order = a.order) (fun _ => rfl) hauthorization horder)
    (fun hc => ⟨_, hc, rfl, rfl⟩) (fun hc => ⟨_, hc⟩)

/-- Rewriting one challenge keeps the references. -/
theorem Linked.update_challenge (h : Linked σ) {cid : String} {c : ChallengeRow}
    (c' : ChallengeRow) (hchallenge : σ.challenges cid = some c)
    (hauthorization : c'.authorization = c.authorization) (haccount : c'.account = c.account) :
    Linked { σ with challenges := Function.update σ.challenges cid (some c') } :=
  h.rewrite (fun _ h => h) (fun ho => ⟨_, ho, rfl, rfl⟩) (fun ho => ⟨_, ho, rfl⟩)
    (fun ha => ⟨_, ha, rfl, rfl⟩) (fun ha => ⟨_, ha, rfl⟩)
    (update_row
      (P := fun c' c => c'.authorization = c.authorization ∧ c'.account = c.account)
      (fun _ => ⟨rfl, rfl⟩) hchallenge ⟨hauthorization, haccount⟩)
    (fun hc => (row_update (P := fun _ _ => True) (fun _ => trivial) hchallenge trivial hc).imp
      fun _ h => h.1)

/-- Tasks and certificates refer to nothing here. -/
theorem Linked.of_eq (h : Linked σ) (haccounts : σ'.accounts = σ.accounts)
    (horders : σ'.orders = σ.orders) (hauthorizations : σ'.authorizations = σ.authorizations)
    (hchallenges : σ'.challenges = σ.challenges) : Linked σ' := by
  cases σ
  cases σ'
  cases haccounts
  cases horders
  cases hauthorizations
  cases hchallenges
  exact ⟨h.1, h.2, h.3, h.4, h.5, h.6⟩

/-- A verdict changes at most the status of an authorization. -/
theorem Verdict.fields {a a' : AuthorizationRow} {status : ChallengeStatus}
    (h : Verdict a a' status) : a'.order = a.order ∧ a'.challenges = a.challenges := by
  cases h <;> exact ⟨rfl, rfl⟩

/-- A rederived order keeps everything but its status. -/
theorem Rederived.fields {f : String → Option AuthorizationRow} {o o' : OrderRow}
    (h : Rederived f o o') : ∃ status, o' = { o with status := status } := by
  unfold Rederived at h
  split at h
  · obtain ⟨status, hfields, _⟩ := h
    exact ⟨status, hfields⟩
  · exact ⟨o.status, h⟩

/-- Giving up an authorization changes at most the status of its order. -/
theorem deactivated_fields {o o' : OrderRow} (hopen : o.Open → o' = { o with status := .invalid })
    (hclosed : ¬ o.Open → o' = o) : ∃ status, o' = { o with status := status } := by
  by_cases h : o.Open
  · exact ⟨.invalid, hopen h⟩
  · exact ⟨o.status, hclosed h⟩

/-- Every transition keeps the references. -/
theorem Step.linked (hstep : Step σ σ') (h : Linked σ) : Linked σ' := by
  cases hstep with
  | register id =>
      exact h.rewrite (fun _ h => .inr h) (fun ho => ⟨_, ho, rfl, rfl⟩) (fun ho => ⟨_, ho, rfl⟩)
        (fun ha => ⟨_, ha, rfl, rfl⟩) (fun ha => ⟨_, ha, rfl⟩) (fun hc => ⟨_, hc, rfl, rfl⟩)
        (fun hc => ⟨_, hc⟩)
  | createOrder id o σ' horder haccount hcsr hissuance hcert horders hold hnew hlisted himplied
      hstatus holdChallenges hnewChallenges haccounts htasks hcertificates =>
      refine ⟨?_, ?_, ?_, ?_, ?_, ?_⟩
      · intro id' o' ho'
        rw [haccounts]
        rw [horders] at ho'
        by_cases hid : id' = id
        · subst hid
          rw [Function.update_self] at ho'
          cases ho'
          exact haccount
        · rw [Function.update_of_ne hid] at ho'
          exact h.order_account ho'
      · intro id' o' aid ho' hmem
        rw [horders] at ho'
        by_cases hid : id' = id
        · subst hid
          rw [Function.update_self] at ho'
          cases ho'
          exact hlisted aid hmem
        · rw [Function.update_of_ne hid] at ho'
          obtain ⟨a, ha, heq⟩ := h.order_authorization ho' hmem
          exact ⟨a, hold aid a ha, heq⟩
      · intro aid a ha
        rw [horders]
        rcases hnew aid a ha with hold' | ⟨hmem, heq, _⟩
        · obtain ⟨o', ho', hmem⟩ := h.authorization_order hold'
          refine ⟨o', ?_, hmem⟩
          rw [Function.update_of_ne, ho']
          intro heq
          rw [heq, horder] at ho'
          cases ho'
        · rw [heq]
          exact ⟨o, Function.update_self .., hmem⟩
      · intro aid a cid ha hmem
        rcases hnew aid a ha with hold' | ⟨_, _, hlisted⟩
        · obtain ⟨c, hc⟩ := h.authorization_challenge hold' hmem
          exact ⟨c, holdChallenges cid c hc⟩
        · exact hlisted cid hmem
      · intro cid c hc
        rcases hnewChallenges cid c hc with hold' | ⟨_, hmem, _⟩
        · obtain ⟨a, ha⟩ := h.challenge_authorization hold'
          exact ⟨a, hold _ a ha⟩
        · obtain ⟨a, ha, _⟩ := hlisted _ hmem
          exact ⟨a, ha⟩
      · intro cid c hc
        rw [haccounts]
        rcases hnewChallenges cid c hc with hold' | ⟨_, _, heq⟩
        · exact h.challenge_account hold'
        · rw [heq]
          exact haccount
  | accept cid tid c hchallenge hpending htask =>
      exact (h.update_challenge { c with status := .processing } hchallenge rfl rfl).of_eq
        rfl rfl rfl rfl
  | settle tid cid c a a' o o' status htask hchallenge hauthorization horder hverdict hderived =>
      obtain ⟨status', rfl⟩ := hderived.fields
      have h₁ := h.update_order { o with status := status' } horder rfl rfl
      have h₂ := h₁.update_authorization a' hauthorization hverdict.fields.1 hverdict.fields.2
      exact (h₂.update_challenge { c with status := status } hchallenge rfl rfl).of_eq
        rfl rfl rfl rfl
  | deactivate aid a o o' hauthorization horder hopen hclosed =>
      obtain ⟨status, rfl⟩ := deactivated_fields hopen hclosed
      have h₁ := h.update_order { o with status := status } horder rfl rfl
      exact h₁.update_authorization { a with status := .deactivated } hauthorization rfl rfl
  | finalize oid tid o der horder hready hder htask =>
      exact (h.update_order { o with status := .processing, csr := der } horder rfl rfl).of_eq
        rfl rfl rfl rfl
  | dispatch oid o state horder hprocessing hundispatched =>
      exact h.update_order { o with issuance := some state } horder rfl rfl
  | fail oid tid o horder hprocessing htask =>
      exact (h.update_order { o with status := .invalid } horder rfl rfl).of_eq
        rfl rfl rfl rfl
  | publish oid tid cid o horder hprocessing hdispatched htask hid hcertificate =>
      exact (h.update_order { o with status := .valid, certificate := cid } horder rfl
        rfl).of_eq rfl rfl rfl rfl
  | drop oid tid o horder hinvalid htask =>
      exact h.of_eq rfl rfl rfl rfl

/-! ## Fields and authorizations of an order -/

/-- What holds of every row holds after an update by a row it holds of. -/
theorem forall_update {V : Type} {rows : String → Option V} {key : String} {v' : V} {P : V → Prop}
    (h : ∀ {id v}, id ≠ key → rows id = some v → P v) (hP : P v') {id : String} {w : V}
    (hw : Function.update rows key (some v') id = some w) : P w := by
  by_cases hid : id = key
  · subst hid
    rw [Function.update_self] at hw
    cases hw
    exact hP
  · rw [Function.update_of_ne hid] at hw
    exact h hid hw

/-- Authorizations imply only a waiting, a ready or a refused order. -/
theorem Implies.status_cases {f : String → Option AuthorizationRow} {o : OrderRow}
    {status : OrderStatus} (h : Implies f o status) :
    status = .pending ∨ status = .ready ∨ status = .invalid := by
  cases status with
  | pending => exact .inl rfl
  | ready => exact .inr (.inl rfl)
  | invalid => exact .inr (.inr rfl)
  | processing => exact h.elim
  | valid => exact h.elim

/-- An order that has published nothing may become invalid. -/
theorem Shaped.invalidate {o : OrderRow} (h : Shaped o) (hstatus : o.status ≠ .valid) :
    Shaped { o with status := .invalid } where
  unfinalized := by simp
  finalized := by simp
  requested := h.requested
  dispatched := by simp
  published := by
    have hnone := mt h.published.mpr hstatus
    simpa using hnone

/-- An order in a status that its authorizations imply. -/
theorem Implies.shaped {f : String → Option AuthorizationRow} {o : OrderRow} {status : OrderStatus}
    (h : Implies f o status) (hcsr : o.csr = []) (hissuance : o.issuance = none)
    (hcertificate : o.certificate = "") : Shaped { o with status := status } := by
  rcases h.status_cases with rfl | rfl | rfl
  all_goals exact ⟨by simp [hcsr, hissuance], by simp, by simp [hissuance], by simp,
    by simp [hcertificate]⟩

/-- A rederived order still fits its status. -/
theorem Rederived.shaped {f : String → Option AuthorizationRow} {o o' : OrderRow}
    (hderived : Rederived f o o') (h : Shaped o) : Shaped o' := by
  unfold Rederived at hderived
  split at hderived
  · rename_i hpending
    obtain ⟨status, rfl, himplied⟩ := hderived
    obtain ⟨hcsr, hissuance⟩ := h.unfinalized (.inl hpending)
    have hcertificate : o.certificate = "" := by
      have hnone := mt h.published.mpr (by simp [hpending])
      simpa using hnone
    exact himplied.shaped hcsr hissuance hcertificate
  · rw [hderived]
    exact h

/-- An order that has not been dispatched has not been settled. -/
theorem OrderRow.Open.ne_valid {o : OrderRow} (h : o.Open) : o.status ≠ .valid := by
  rcases h with h | h | ⟨h, _⟩ <;> simp [h]

/-- Every transition keeps the fields of the orders in line with their status. -/
theorem Step.shaped (hstep : Step σ σ') (h : ∀ {id o}, σ.orders id = some o → Shaped o) :
    ∀ {id o}, σ'.orders id = some o → Shaped o := by
  cases hstep with
  | register id => exact h
  | createOrder id o σ' horder haccount hcsr hissuance hcert horders hold hnew hlisted himplied =>
      rw [horders]
      exact forall_update (fun _ => h) (himplied.shaped hcsr hissuance hcert)
  | accept => exact h
  | settle tid cid c a a' o o' status htask hchallenge hauthorization horder hverdict hderived =>
      exact forall_update (fun _ => h) (hderived.shaped (h horder))
  | deactivate aid a o o' hauthorization horder hopen hclosed =>
      refine forall_update (fun _ => h) ?_
      by_cases ho : o.Open
      · rw [hopen ho]
        exact (h horder).invalidate ho.ne_valid
      · rw [hclosed ho]
        exact h horder
  | finalize oid tid o der horder hready hder htask =>
      refine forall_update (fun _ => h) ⟨by simp, by simp [hder], by simp [hder], by simp, ?_⟩
      have hnone := mt (h horder).published.mpr (by simp [hready])
      simpa using hnone
  | dispatch oid o state horder hprocessing hundispatched =>
      refine forall_update (fun _ => h) ⟨by simp [hprocessing], ?_, ?_, by simp, ?_⟩
      · exact (h horder).finalized
      · exact fun _ => (h horder).finalized (.inl hprocessing)
      · exact (h horder).published
  | fail oid tid o horder hprocessing htask =>
      exact forall_update (fun _ => h) ((h horder).invalidate (by simp [hprocessing]))
  | publish oid tid cid o horder hprocessing hdispatched htask hid hcertificate =>
      refine forall_update (fun _ => h) ⟨by simp, ?_, ?_, ?_, by simp [hid]⟩
      · exact fun _ => (h horder).finalized (.inl hprocessing)
      · exact (h horder).requested
      · exact fun _ => hdispatched
  | drop => exact h

/-- Only the authorizations an order lists matter to it. -/
theorem Agrees.congr {f g : String → Option AuthorizationRow} {o : OrderRow} (h : Agrees f o)
    (hsame : ∀ aid ∈ o.authorizations, g aid = f aid) : Agrees g o where
  pending hstatus := by
    obtain ⟨hopen, aid, hmem, a, ha, hpending⟩ := h.pending hstatus
    refine ⟨fun aid' hmem' a' ha' => hopen aid' hmem' a' ?_, aid, hmem, a, ?_, hpending⟩
    · rw [← hsame aid' hmem', ha']
    · rw [hsame aid hmem, ha]
  ready hstatus aid hmem a ha := h.ready hstatus aid hmem a (by rw [← hsame aid hmem, ha])

/-- Nothing is asked of the authorizations of an order that is settled or dispatched. -/
theorem agrees_of_closed {f : String → Option AuthorizationRow} {o : OrderRow} (h : ¬ o.Open) :
    Agrees f o where
  pending hstatus := (h (.inl hstatus)).elim
  ready hstatus := (h (.inr hstatus)).elim

/-- An authorization belongs to one order only. -/
theorem Linked.authorization_ne (h : Linked σ) {aid id : String} {a : AuthorizationRow}
    {o : OrderRow} (ha : σ.authorizations aid = some a) (hid : id ≠ a.order)
    (ho : σ.orders id = some o) : ∀ aid' ∈ o.authorizations, aid' ≠ aid := by
  rintro aid' hmem rfl
  obtain ⟨a', ha', horder⟩ := h.order_authorization ho hmem
  rw [ha] at ha'
  cases ha'
  exact hid horder.symm

/-- Rewriting an authorization does not concern the orders it does not belong to. -/
theorem Agrees.update_other (h : Linked σ) {aid id : String} {a a' : AuthorizationRow}
    {o : OrderRow} (ha : σ.authorizations aid = some a) (hid : id ≠ a.order)
    (ho : σ.orders id = some o) (hagrees : Agrees σ.authorizations o) :
    Agrees (Function.update σ.authorizations aid (some a')) o :=
  hagrees.congr fun aid' hmem => Function.update_of_ne (h.authorization_ne ha hid ho aid' hmem) _ _

/-- An order in a status that its authorizations imply is borne out by them. -/
theorem Implies.agrees {f : String → Option AuthorizationRow} {o : OrderRow} {status : OrderStatus}
    (h : Implies f o status) : Agrees f { o with status := status } := by
  rcases h.status_cases with rfl | rfl | rfl
  · exact ⟨fun _ => h, by simp⟩
  · exact ⟨by simp, fun _ => h⟩
  · exact agrees_of_closed (by simp [OrderRow.Open])

/-- A verdict on a settled authorization changes nothing. -/
theorem Verdict.eq_of_ne_pending {a a' : AuthorizationRow} {status : ChallengeStatus}
    (h : Verdict a a' status) (hstatus : a.status ≠ .pending) : a' = a := by
  cases h with
  | kept => rfl
  | validated hpending => exact absurd hpending hstatus
  | refused hpending => exact absurd hpending hstatus

/-- Every transition keeps the orders in line with their authorizations. -/
theorem Step.agrees (hstep : Step σ σ') (hlinked : Linked σ)
    (h : ∀ {id o}, σ.orders id = some o → Agrees σ.authorizations o) :
    ∀ {id o}, σ'.orders id = some o → Agrees σ'.authorizations o := by
  cases hstep with
  | register id => exact h
  | createOrder id o σ' horder haccount hcsr hissuance hcert horders hold hnew hlisted himplied =>
      rw [horders]
      refine forall_update (fun {id' o'} hid ho' => ?_) himplied.agrees
      refine (h ho').congr fun aid hmem => ?_
      obtain ⟨a, ha, _⟩ := hlinked.order_authorization ho' hmem
      rw [ha, hold aid a ha]
  | accept => exact h
  | settle tid cid c a a' o o' status htask hchallenge hauthorization horder hverdict hderived =>
      refine forall_update (fun {id' o₂} hid ho₂ =>
        Agrees.update_other hlinked hauthorization hid ho₂ (h ho₂)) ?_
      unfold Rederived at hderived
      split at hderived
      · obtain ⟨status', rfl, himplied⟩ := hderived
        exact himplied.agrees
      · rename_i hpending
        rw [hderived]
        by_cases hopen : o.Open
        · -- The order is past waiting, so the authorization is valid and the verdict keeps it.
          have hmem : c.authorization ∈ o.authorizations := by
            obtain ⟨o₁, ho₁, hmem⟩ := hlinked.authorization_order hauthorization
            rw [horder] at ho₁
            cases ho₁
            exact hmem
          have hvalid := (h horder).ready (hopen.resolve_left hpending) _ hmem a hauthorization
          rw [hverdict.eq_of_ne_pending (by simp [hvalid]), ← hauthorization,
            Function.update_eq_self]
          exact h horder
        · exact agrees_of_closed hopen
  | deactivate aid a o o' hauthorization horder hopen hclosed =>
      refine forall_update (fun {id' o₂} hid ho₂ =>
        Agrees.update_other hlinked hauthorization hid ho₂ (h ho₂)) ?_
      by_cases ho : o.Open
      · rw [hopen ho]
        exact agrees_of_closed (by simp [OrderRow.Open])
      · rw [hclosed ho]
        exact agrees_of_closed ho
  | finalize oid tid o der horder hready hder htask =>
      refine forall_update (fun _ => h) ⟨by simp, fun _ => ?_⟩
      exact (h horder).ready (.inl hready)
  | dispatch oid o state horder hprocessing hundispatched =>
      exact forall_update (fun _ => h) (agrees_of_closed (by simp [OrderRow.Open, hprocessing]))
  | fail oid tid o horder hprocessing htask =>
      exact forall_update (fun _ => h) (agrees_of_closed (by simp [OrderRow.Open]))
  | publish oid tid cid o horder hprocessing hdispatched htask hid hcertificate =>
      exact forall_update (fun _ => h) (agrees_of_closed (by simp [OrderRow.Open]))
  | drop => exact h

/-! ## Tasks -/

/-- Which rows of an updated table have a property. -/
theorem exists_update {V : Type} {rows : String → Option V} {key id : String} {v' : V}
    {P : V → Prop} : (∃ v, Function.update rows key (some v') id = some v ∧ P v) ↔
      (id = key ∧ P v') ∨ (id ≠ key ∧ ∃ v, rows id = some v ∧ P v) := by
  by_cases hid : id = key
  · subst hid
    simp
  · simp [hid]

/-- Which rows of an updated table have a property, if the updated row had it before exactly if it
has it now. -/
theorem exists_update_iff {V : Type} {rows : String → Option V} {key id : String} {v v' : V}
    {P : V → Prop} (hrow : rows key = some v) (hP : P v' ↔ P v) :
    (∃ v, Function.update rows key (some v') id = some v ∧ P v) ↔
      ∃ v, rows id = some v ∧ P v := by
  by_cases hid : id = key
  · subst hid
    simp [hrow, hP]
  · simp [hid]

/-- Only the processing challenges and the processing and invalid orders matter to the queue. -/
theorem serves_of_rows (h : Queue.Serves σ.tasks σ.due σ.allowed) (htasks : σ'.tasks = σ.tasks)
    (hchallenges : ∀ cid, (∃ c, σ'.challenges cid = some c ∧ c.status = .processing) ↔
      ∃ c, σ.challenges cid = some c ∧ c.status = .processing)
    (hissuing : ∀ oid, (∃ o, σ'.orders oid = some o ∧ o.status = .processing) →
      ∃ o, σ.orders oid = some o ∧ o.status = .processing)
    (hallowed : ∀ oid,
      (∃ o, σ.orders oid = some o ∧ (o.status = .processing ∨ o.status = .invalid)) →
      ∃ o, σ'.orders oid = some o ∧ (o.status = .processing ∨ o.status = .invalid)) :
    Queue.Serves σ'.tasks σ'.due σ'.allowed := by
  rw [htasks]
  refine h.mono ?_ ?_
  · rintro t (⟨hkind, hrow⟩ | ⟨hkind, hrow⟩)
    · exact .inl ⟨hkind, (hchallenges _).mp hrow⟩
    · exact .inr ⟨hkind, hissuing _ hrow⟩
  · rintro t (⟨hkind, hrow⟩ | ⟨hkind, hrow⟩)
    · exact .inl ⟨hkind, (hchallenges _).mpr hrow⟩
    · exact .inr ⟨hkind, hallowed _ hrow⟩

/-- A rederived order was not issuing and is not, and an invalid one stays invalid. -/
theorem Rederived.issuing {f : String → Option AuthorizationRow} {o o' : OrderRow}
    (h : Rederived f o o') :
    (o'.status = .processing ↔ o.status = .processing) ∧
      (o.status = .processing ∨ o.status = .invalid →
        o'.status = .processing ∨ o'.status = .invalid) := by
  unfold Rederived at h
  split at h
  · rename_i hpending
    obtain ⟨status, rfl, himplied⟩ := h
    rcases himplied.status_cases with rfl | rfl | rfl <;> simp [hpending]
  · rw [h]
    exact ⟨Iff.rfl, id⟩

/-- A settled challenge is not processing any more. -/
theorem Verdict.status_ne {a a' : AuthorizationRow} {status : ChallengeStatus}
    (h : Verdict a a' status) : status ≠ .processing := by
  cases h <;> simp

/-- Once an order is no longer processing, its issuance is no longer due. -/
theorem due_without_order {oid : String} {o' : OrderRow} (hstatus : o'.status ≠ .processing)
    (horders : σ'.orders = Function.update σ.orders oid (some o'))
    (hchallenges : σ'.challenges = σ.challenges) : σ'.due ⊆ σ.due \ {⟨.issue, oid⟩} := by
  rintro ⟨kind, target⟩ (⟨hkind, hrow⟩ | ⟨hkind, hrow⟩)
  · rw [hchallenges] at hrow
    refine ⟨.inl ⟨hkind, hrow⟩, fun heq => ?_⟩
    rw [congrArg TaskRow.kind heq] at hkind
    cases hkind
  · rw [horders] at hrow
    rcases exists_update.mp hrow with ⟨_, hs⟩ | ⟨hid, hrow⟩
    · exact absurd hs hstatus
    · exact ⟨.inr ⟨hkind, hrow⟩, fun heq => hid (congrArg TaskRow.target heq)⟩

/-- Rewriting an order concerns no other work than its own. -/
theorem allowed_with_order {oid : String} {o' : OrderRow}
    (horders : σ'.orders = Function.update σ.orders oid (some o'))
    (hchallenges : σ'.challenges = σ.challenges) : σ.allowed \ {⟨.issue, oid⟩} ⊆ σ'.allowed := by
  rintro ⟨kind, target⟩ ⟨⟨hkind, hrow⟩ | ⟨hkind, hrow⟩, hne⟩
  · refine .inl ⟨hkind, ?_⟩
    rw [hchallenges]
    exact hrow
  · refine .inr ⟨hkind, ?_⟩
    rw [horders]
    refine exists_update.mpr (.inr ⟨fun hid => hne ?_, hrow⟩)
    cases show target = oid from hid
    cases show kind = .issue from hkind
    rfl

/-- Every transition keeps accepted work queued exactly once. -/
theorem Step.served (hstep : Step σ σ') (h : Queue.Serves σ.tasks σ.due σ.allowed) :
    Queue.Serves σ'.tasks σ'.due σ'.allowed := by
  cases hstep with
  | register id => exact h
  | createOrder id o σ' horder haccount hcsr hissuance hcert horders hold hnew hlisted himplied
      hstatus holdChallenges hnewChallenges haccounts htasks hcertificates =>
      have hne : o.status ≠ .processing := by
        rcases himplied.status_cases with hs | hs | hs <;> simp [hs]
      refine serves_of_rows h htasks (fun cid => ⟨?_, ?_⟩) (fun oid => ?_) (fun oid => ?_)
      · rintro ⟨c, hc, hprocessing⟩
        rcases hnewChallenges cid c hc with hc | ⟨hpending, _⟩
        · exact ⟨c, hc, hprocessing⟩
        · rw [hpending] at hprocessing
          cases hprocessing
      · rintro ⟨c, hc, hprocessing⟩
        exact ⟨c, holdChallenges cid c hc, hprocessing⟩
      · rw [horders, exists_update]
        rintro (⟨_, hprocessing⟩ | ⟨_, hrow⟩)
        · exact absurd hprocessing hne
        · exact hrow
      · rw [horders, exists_update]
        rintro ⟨o', ho', hs⟩
        refine .inr ⟨?_, o', ho', hs⟩
        rintro rfl
        rw [horder] at ho'
        cases ho'
  | accept cid tid c hchallenge hpending htask =>
      have hnot : (⟨.validate, cid⟩ : TaskRow) ∉ σ.allowed := by
        rintro (⟨_, c', hc', hprocessing⟩ | ⟨hkind, _⟩)
        · rw [show σ.challenges cid = some c' from hc'] at hchallenge
          cases hchallenge
          rw [hpending] at hprocessing
          cases hprocessing
        · cases hkind
      refine (h.insert htask hnot).mono ?_ ?_
      · rintro ⟨kind, target⟩ (⟨hkind, hrow⟩ | hissue)
        · rcases exists_update.mp hrow with ⟨rfl, _⟩ | ⟨_, hrow⟩
          · exact .inl (congrArg (TaskRow.mk · _) hkind)
          · exact .inr (.inl ⟨hkind, hrow⟩)
        · exact .inr (.inr hissue)
      · rintro t (rfl | ⟨hkind, hrow⟩ | hissue)
        · exact .inl ⟨rfl, exists_update.mpr (.inl ⟨rfl, rfl⟩)⟩
        · refine .inl ⟨hkind, exists_update.mpr ?_⟩
          by_cases hid : t.target = cid
          · exact .inl ⟨hid, rfl⟩
          · exact .inr ⟨hid, hrow⟩
        · exact .inr hissue
  | settle tid cid c a a' o o' status htask hchallenge hauthorization horder hverdict hderived =>
      obtain ⟨hissuing, hallowed⟩ := hderived.issuing
      refine (h.erase htask).mono ?_ ?_
      · rintro ⟨kind, target⟩ (⟨hkind, hrow⟩ | ⟨hkind, hrow⟩)
        · rcases exists_update.mp hrow with ⟨_, hs⟩ | ⟨hid, hrow⟩
          · exact absurd hs hverdict.status_ne
          · exact ⟨.inl ⟨hkind, hrow⟩, fun heq => hid (congrArg TaskRow.target heq)⟩
        · refine ⟨.inr ⟨hkind, (exists_update_iff horder hissuing).mp hrow⟩, fun heq => ?_⟩
          rw [congrArg TaskRow.kind heq] at hkind
          cases hkind
      · rintro ⟨kind, target⟩ ⟨⟨hkind, hrow⟩ | ⟨hkind, o₂, ho₂, hs⟩, hne⟩
        · refine .inl ⟨hkind, exists_update.mpr (.inr ⟨fun hid => hne ?_, hrow⟩)⟩
          cases show target = cid from hid
          cases show kind = .validate from hkind
          rfl
        · refine .inr ⟨hkind, exists_update.mpr ?_⟩
          by_cases hid : target = a.order
          · refine .inl ⟨hid, hallowed ?_⟩
            cases hid
            rw [show σ.orders a.order = some o₂ from ho₂] at horder
            cases horder
            exact hs
          · exact .inr ⟨hid, o₂, ho₂, hs⟩
  | deactivate aid a o o' hauthorization horder hopen hclosed =>
      refine serves_of_rows h rfl (fun cid => Iff.rfl) (fun oid => ?_) (fun oid => ?_)
      · rw [exists_update]
        rintro (⟨rfl, hprocessing⟩ | ⟨_, hrow⟩)
        · by_cases ho : o.Open
          · rw [hopen ho] at hprocessing
            cases hprocessing
          · rw [hclosed ho] at hprocessing
            exact ⟨o, horder, hprocessing⟩
        · exact hrow
      · rintro ⟨o₂, ho₂, hs⟩
        rw [exists_update]
        by_cases hid : oid = a.order
        · refine .inl ⟨hid, ?_⟩
          by_cases ho : o.Open
          · rw [hopen ho]
            exact .inr rfl
          · rw [hid, horder] at ho₂
            cases ho₂
            rw [hclosed ho]
            exact hs
        · exact .inr ⟨hid, o₂, ho₂, hs⟩
  | finalize oid tid o der horder hready hder htask =>
      have hnot : (⟨.issue, oid⟩ : TaskRow) ∉ σ.allowed := by
        rintro (⟨hkind, _⟩ | ⟨_, o₂, ho₂, hs⟩)
        · cases hkind
        · rw [show σ.orders oid = some o₂ from ho₂] at horder
          cases horder
          rw [hready] at hs
          rcases hs with hs | hs <;> cases hs
      refine (h.insert htask hnot).mono ?_ ?_
      · rintro ⟨kind, target⟩ (hvalidate | ⟨hkind, hrow⟩)
        · exact .inr (.inl hvalidate)
        · rcases exists_update.mp hrow with ⟨rfl, _⟩ | ⟨_, hrow⟩
          · exact .inl (congrArg (TaskRow.mk · _) hkind)
          · exact .inr (.inr ⟨hkind, hrow⟩)
      · rintro t (rfl | hvalidate | ⟨hkind, hrow⟩)
        · exact .inr ⟨rfl, exists_update.mpr (.inl ⟨rfl, .inl rfl⟩)⟩
        · exact .inl hvalidate
        · refine .inr ⟨hkind, exists_update.mpr ?_⟩
          by_cases hid : t.target = oid
          · exact .inl ⟨hid, .inl rfl⟩
          · exact .inr ⟨hid, hrow⟩
  | dispatch oid o state horder hprocessing hundispatched =>
      refine serves_of_rows h rfl (fun cid => Iff.rfl) (fun id => ?_) (fun id => ?_)
      · exact (exists_update_iff horder (by rfl)).mp
      · exact (exists_update_iff horder (by rfl)).mpr
  | fail oid tid o horder hprocessing htask =>
      refine (h.erase htask).mono ?_ ?_
      · exact due_without_order (by simp) rfl rfl
      · exact allowed_with_order rfl rfl
  | publish oid tid cid o horder hprocessing hdispatched htask hid hcertificate =>
      refine (h.erase htask).mono ?_ ?_
      · exact due_without_order (by simp) rfl rfl
      · exact allowed_with_order rfl rfl
  | drop oid tid o horder hinvalid htask =>
      refine (h.erase htask).mono ?_ ?_
      · rintro t hdue
        refine ⟨hdue, ?_⟩
        rintro rfl
        rcases hdue with ⟨hkind, _⟩ | ⟨_, o₂, ho₂, hs⟩
        · cases hkind
        · rw [show σ.orders oid = some o₂ from ho₂] at horder
          cases horder
          rw [hinvalid] at hs
          cases hs
      · exact fun _ h => h.1

/-! ## Certificates -/

/-- What an updated table of orders publishes. -/
theorem published_update {oid : String} {o' : OrderRow}
    (horders : σ'.orders = Function.update σ.orders oid (some o')) :
    σ'.published = Function.update σ.published oid
      (if o'.status = .valid then some o'.certificate else none) := by
  funext id
  unfold State.published
  rw [horders]
  by_cases hid : id = oid
  · subst hid
    simp
  · simp [hid]

/-- An order that was not valid and does not become valid publishes nothing. -/
theorem published_eq {oid : String} {o o' : OrderRow} (horder : σ.orders oid = some o)
    (hold : o.status ≠ .valid) (hnew : o'.status ≠ .valid)
    (horders : σ'.orders = Function.update σ.orders oid (some o')) :
    σ'.published = σ.published := by
  have hnone : σ.published oid = none := by simp [State.published, horder, hold]
  rw [published_update horders, if_neg hnew, ← hnone, Function.update_eq_self]

/-- Replacing an order by itself publishes nothing. -/
theorem published_self {oid : String} {o : OrderRow} (horder : σ.orders oid = some o)
    (horders : σ'.orders = Function.update σ.orders oid (some o)) :
    σ'.published = σ.published := by
  unfold State.published
  rw [horders, ← horder, Function.update_eq_self]

/-- Only publishing changes what is published. -/
theorem Step.published_cases (hstep : Step σ σ') :
    (σ'.published = σ.published ∧ σ'.certificates = σ.certificates) ∨
      ∃ oid cid, σ.published oid = none ∧ σ.certificates cid = none ∧
        σ'.published = Function.update σ.published oid (some cid) ∧
        σ'.certificates = Function.update σ.certificates cid (some oid) := by
  cases hstep with
  | register id => exact .inl ⟨rfl, rfl⟩
  | createOrder id o σ' horder haccount hcsr hissuance hcert horders hold hnew hlisted himplied
      hstatus holdChallenges hnewChallenges haccounts htasks hcertificates =>
      refine .inl ⟨?_, hcertificates⟩
      have hnone : σ.published id = none := by simp [State.published, horder]
      have hne : o.status ≠ .valid := by
        rcases himplied.status_cases with hs | hs | hs <;> simp [hs]
      rw [published_update horders, if_neg hne, ← hnone, Function.update_eq_self]
  | accept => exact .inl ⟨rfl, rfl⟩
  | settle tid cid c a a' o o' status htask hchallenge hauthorization horder hverdict hderived =>
      refine .inl ⟨?_, rfl⟩
      unfold Rederived at hderived
      split at hderived
      · rename_i hpending
        obtain ⟨status', rfl, himplied⟩ := hderived
        refine published_eq horder (by simp [hpending]) ?_ rfl
        rcases himplied.status_cases with rfl | rfl | rfl <;> simp
      · rw [hderived]
        exact published_self horder rfl
  | deactivate aid a o o' hauthorization horder hopen hclosed =>
      refine .inl ⟨?_, rfl⟩
      by_cases ho : o.Open
      · rw [hopen ho]
        exact published_eq horder ho.ne_valid (by simp) rfl
      · rw [hclosed ho]
        exact published_self horder rfl
  | finalize oid tid o der horder hready hder htask =>
      exact .inl ⟨published_eq horder (by simp [hready]) (by simp) rfl, rfl⟩
  | dispatch oid o state horder hprocessing hundispatched =>
      exact .inl ⟨published_eq horder (by simp [hprocessing]) (by simp [hprocessing]) rfl, rfl⟩
  | fail oid tid o horder hprocessing htask =>
      exact .inl ⟨published_eq horder (by simp [hprocessing]) (by simp) rfl, rfl⟩
  | publish oid tid cid o horder hprocessing hdispatched htask hid hcertificate =>
      have hnone : σ.published oid = none := by simp [State.published, horder, hprocessing]
      refine .inr ⟨oid, cid, hnone, hcertificate, ?_, rfl⟩
      rw [published_update rfl, if_pos rfl]
  | drop => exact .inl ⟨rfl, rfl⟩

/-- Every transition keeps orders and certificates in one-to-one correspondence. -/
theorem Step.certified (hstep : Step σ σ')
    (h : ∀ id cid, σ.published id = some cid ↔ σ.certificates cid = some id) :
    ∀ id cid, σ'.published id = some cid ↔ σ'.certificates cid = some id := by
  rcases hstep.published_cases with ⟨hp, hc⟩ | ⟨oid, new, holdOrder, holdCertificate, hp, hc⟩
  · rw [hp, hc]
    exact h
  · rw [hp, hc]
    intro id cid
    by_cases hid : id = oid <;> by_cases hcid : cid = new
    · subst hid hcid
      rw [Function.update_self, Function.update_self]
      exact ⟨fun _ => rfl, fun _ => rfl⟩
    · subst hid
      rw [Function.update_self, Function.update_of_ne hcid, ← h, holdOrder]
      exact ⟨fun heq => absurd (Option.some.inj heq).symm hcid, fun heq => by cases heq⟩
    · subst hcid
      rw [Function.update_self, Function.update_of_ne hid, h, holdCertificate]
      exact ⟨fun heq => (by cases heq), fun heq => absurd (Option.some.inj heq).symm hid⟩
    · rw [Function.update_of_ne hid, Function.update_of_ne hcid]
      exact h id cid

/-! ## The invariant -/

/-- Every transition keeps the invariant. -/
theorem Step.coherent (hstep : Step σ σ') (h : Coherent σ) : Coherent σ' where
  linked := hstep.linked h.linked
  shaped := hstep.shaped h.shaped
  agrees := hstep.agrees h.linked h.agrees
  served := hstep.served h.served
  certified := hstep.certified h.certified

/-- The state without any resource. -/
def State.empty : State where
  accounts := fun _ => False
  orders := fun _ => none
  authorizations := fun _ => none
  challenges := fun _ => none
  tasks := fun _ => none
  certificates := fun _ => none

/-- The invariant holds at the start. -/
theorem coherent_empty : Coherent State.empty where
  linked := ⟨nofun, nofun, nofun, nofun, nofun, nofun⟩
  shaped := nofun
  agrees := nofun
  served := by
    refine ⟨nofun, nofun, ?_⟩
    rintro t (⟨_, _, hrow, _⟩ | ⟨_, _, hrow, _⟩) <;> cases hrow
  certified := by simp [State.published, State.empty]

end AcmeServer.Lifecycle
