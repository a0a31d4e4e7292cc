import AcmeServer.Memstore.Outcome

/-!
# Revisions

Every change to a stored resource increases its revision by one, also the changes a method makes
to a resource it was not handed. So a revision stands for one content for good, and a writer that
presents the revision it read replaces exactly what it read. `revision_discipline` states this for
every run of the store.

The five kinds of versioned resources are treated alike through `Content` and `Store.content`.
-/

namespace AcmeServer.Memstore

/-- The kinds of resources that carry a revision. -/
inductive Kind where
  | account
  | order
  | authorization
  | challenge
  | certificate
deriving DecidableEq, Repr

/-- The kind and ID of a stored resource. -/
structure Key where
  kind : Kind
  id : String
deriving DecidableEq, Repr

/-- What is stored for a resource. -/
inductive Content where
  | account (a : Account)
  | order (o : Order)
  | authorization (a : Authorization)
  | challenge (c : Challenge)
  | certificate (c : Certificate)
deriving DecidableEq

/-- The revision the content carries. -/
def Content.revision : Content → Nat
  | .account a => a.revision
  | .order o => o.revision
  | .authorization a => a.revision
  | .challenge c => c.revision
  | .certificate c => c.revision

/-- What the store holds for a resource. -/
def Store.content (s : Store) : Key → Option Content
  | ⟨.account, id⟩ => (s.accounts.lookup id).map .account
  | ⟨.order, id⟩ => (s.orders.lookup id).map .order
  | ⟨.authorization, id⟩ => (s.authzs.lookup id).map .authorization
  | ⟨.challenge, id⟩ => (s.challenges.lookup id).map .challenge
  | ⟨.certificate, id⟩ => (s.certificates.lookup id).map .certificate

/-- A resource with the revision at which a caller wants to replace or check it. -/
structure Presented where
  key : Key
  revision : Nat

/-- The resources a call presents with a revision. -/
def StoreCall.presents : StoreCall → List Presented
  | .updateAccount a => [⟨⟨.account, a.id⟩, a.revision⟩]
  | .updateAuthorization a => [⟨⟨.authorization, a.id⟩, a.revision⟩]
  | .beginIssuance d =>
      ⟨⟨.order, d.order.id⟩, d.order.revision⟩ :: ⟨⟨.account, d.account.id⟩, d.account.revision⟩ ::
        d.authzs.map fun a => ⟨⟨.authorization, a.id⟩, a.revision⟩
  | .updateCertificate c => [⟨⟨.certificate, c.id⟩, c.revision⟩]
  | .acceptChallenge r => [⟨⟨.challenge, r.challenge.id⟩, r.challenge.revision⟩]
  | .finalizeOrder f => [⟨⟨.order, f.order.id⟩, f.order.revision⟩]
  | .retryValidation r => [⟨⟨.challenge, r.challenge.id⟩, r.challenge.revision⟩]
  | .completeValidation v =>
      [⟨⟨.challenge, v.challenge.id⟩, v.challenge.revision⟩,
        ⟨⟨.authorization, v.authz.id⟩, v.authz.revision⟩, ⟨⟨.order, v.order.id⟩, v.order.revision⟩]
  | .completeIssuance i => [⟨⟨.order, i.order.id⟩, i.order.revision⟩]
  | _ => []

/-! ## One call -/

/-- The second value is the next revision of the first. -/
def NextRevision {V : Type} (revision : V → Nat) (v v' : V) : Prop := revision v' = revision v + 1

/-- In every table each entry is kept or moves to its next revision. -/
structure Store.Revises (s s' : Store) : Prop where
  accounts : Table.Evolves (NextRevision Account.revision) s.accounts s'.accounts
  orders : Table.Evolves (NextRevision Order.revision) s.orders s'.orders
  authzs : Table.Evolves (NextRevision Authorization.revision) s.authzs s'.authzs
  challenges : Table.Evolves (NextRevision Challenge.revision) s.challenges s'.challenges
  certificates : Table.Evolves (NextRevision Certificate.revision) s.certificates s'.certificates

theorem Store.Revises.refl (s : Store) : s.Revises s :=
  ⟨.refl _, .refl _, .refl _, .refl _, .refl _⟩

variable {s s' : Store} {c : StoreCall}

theorem invalidated_revision (o : Order) :
    o.invalidated = o ∨ NextRevision Order.revision o o.invalidated := by
  unfold Order.invalidated
  split
  · exact .inr rfl
  · exact .inl rfl

/-- Invalidating the order of an authorization touches no other table. -/
theorem invalidate_order_eq (s : Store) (a : Authorization) :
    ∃ orders, s.invalidateOrder a = { s with orders := orders } ∧
      Table.Evolves (NextRevision Order.revision) s.orders orders := by
  unfold Store.invalidateOrder
  split
  · split
    · rename_i o horder
      exact ⟨_, rfl, Table.evolves_insert horder (invalidated_revision o)⟩
    · exact ⟨_, rfl, .refl _⟩
  · exact ⟨_, rfl, .refl _⟩

theorem replaced_revises {o : Order} (h : Replaced s o s') :
    s.Revises s' ∧ s'.orders = s.orders ∧ s'.authzs = s.authzs ∧ s'.challenges = s.challenges := by
  cases h with
  | nothing => exact ⟨.refl s, rfl, rfl, rfl⟩
  | claimed id cert _ _ hcert _ =>
      exact ⟨⟨.refl _, .refl _, .refl _, .refl _, Table.evolves_insert hcert (.inr rfl)⟩,
        rfl, rfl, rfl⟩

theorem published_revises {cert : Option Certificate} (h : Published s cert s') :
    s.Revises s' ∧ s'.orders = s.orders := by
  cases h with
  | nothing => exact ⟨.refl s, rfl⟩
  | added cert _ hnew _ =>
      exact ⟨⟨.refl _, .refl _, .refl _, .refl _, Table.evolves_insert_new hnew _⟩, rfl⟩

/-- A commit moves the resources it changes to their next revision. -/
theorem commit_revises (h : Commit s c s') : s.Revises s' := by
  cases h with
  | createAccount a _ hnew _ _ _ hs' =>
      subst hs'
      exact ⟨Table.evolves_insert_new hnew _, .refl _, .refl _, .refl _, .refl _⟩
  | updateAccount a stored hstored hrevision _ _ _ hs' =>
      subst hs'
      exact ⟨Table.evolves_insert hstored (.inr (by simp [NextRevision, hrevision])),
        .refl _, .refl _, .refl _, .refl _⟩
  | createOrder n _ horder hauthzs hchallenges base hbase =>
      obtain ⟨hrevises, horders, hsame, hsame'⟩ := replaced_revises hbase
      obtain ⟨_, _, heq⟩ := add_resources_eq base n.initial
      rw [heq]
      refine ⟨hrevises.accounts, ?_, ?_, ?_, hrevises.certificates⟩
      · rw [horders]
        exact Table.evolves_insert_new horder _
      · rw [hsame]
        refine Table.evolves_insert_all_new fun a ha => ?_
        obtain ⟨given, hgiven, rfl⟩ := List.mem_map.mp ha
        exact (hauthzs given hgiven).1
      · rw [hsame']
        refine Table.evolves_insert_all_new fun c hc => ?_
        obtain ⟨given, hgiven, rfl⟩ := List.mem_map.mp hc
        exact (hchallenges given hgiven).1
  | updateAuthorization a stored hstored hrevision =>
      obtain ⟨orders, heq, horders⟩ := invalidate_order_eq (s.putAuthorization a.revised) a.revised
      rw [heq]
      exact ⟨.refl _, horders,
        Table.evolves_insert hstored (.inr (by simp [NextRevision, hrevision])), .refl _, .refl _⟩
  | beginIssuance d task stored account state _ _ hstored hrevision =>
      exact ⟨.refl _, Table.evolves_insert hstored (.inr (by simp [NextRevision, hrevision])),
        .refl _, .refl _, .refl _⟩
  | updateCertificate c stored hstored hrevision =>
      exact ⟨.refl _, .refl _, .refl _, .refl _,
        Table.evolves_insert hstored (.inr (by simp [NextRevision, hrevision]))⟩
  | acceptChallenge r stored hstored hrevision =>
      exact ⟨.refl _, .refl _, .refl _,
        Table.evolves_insert hstored (.inr (by simp [NextRevision, hrevision])), .refl _⟩
  | finalizeOrder f stored hstored hrevision =>
      exact ⟨.refl _, Table.evolves_insert hstored (.inr (by simp [NextRevision, hrevision])),
        .refl _, .refl _, .refl _⟩
  | claimTask | rescheduleTask | finishTask | read =>
      exact ⟨.refl _, .refl _, .refl _, .refl _, .refl _⟩
  | retryValidation r stored challenge _ _ hchallenge hrevision =>
      exact ⟨.refl _, .refl _, .refl _,
        Table.evolves_insert hchallenge (.inr (by simp [NextRevision, hrevision])), .refl _⟩
  | completeValidation v stored challenge authz order _ _ hchallenge hc hauthz ha horder ho =>
      exact ⟨.refl _, Table.evolves_insert horder (.inr (by simp [NextRevision, ho])),
        Table.evolves_insert hauthz (.inr (by simp [NextRevision, ha])),
        Table.evolves_insert hchallenge (.inr (by simp [NextRevision, hc])), .refl _⟩
  | completeIssuance i stored order _ _ horder hrevision base hbase =>
      obtain ⟨hrevises, horders⟩ := published_revises hbase
      refine ⟨hrevises.accounts, ?_, hrevises.authzs, hrevises.challenges, hrevises.certificates⟩
      show Table.Evolves _ s.orders (base.orders.insert i.order.id i.order.revised)
      rw [horders]
      exact Table.evolves_insert horder (.inr (by simp [NextRevision, hrevision]))

theorem step_revises (s : Store) (call : CallEnv × StoreCall) : s.Revises (s.step call) := by
  unfold Store.step
  split
  · rename_i hfits
    rcases after_eq_or_commit (c := call.2) hfits with hsame | hcommit
    · rw [hsame]
      exact .refl s
    · exact commit_revises hcommit
  · exact .refl s

/-- A method that only reads presents nothing. -/
theorem presents_of_read (h : c.mutates = false) : c.presents = [] := by
  cases c <;> first | rfl | cases h

/-- A commit finds every resource it presents at the presented revision. -/
theorem commit_presents (h : Commit s c s') :
    ∀ p ∈ c.presents, ∃ x, s.content p.key = some x ∧ x.revision = p.revision := by
  cases h with
  | updateAccount a stored hstored hrevision =>
      simp only [StoreCall.presents, List.mem_singleton, forall_eq]
      exact ⟨.account stored, by simp [Store.content, hstored], hrevision⟩
  | updateAuthorization a stored hstored hrevision =>
      simp only [StoreCall.presents, List.mem_singleton, forall_eq]
      exact ⟨.authorization stored, by simp [Store.content, hstored], hrevision⟩
  | beginIssuance d task stored account state _ _ hstored hrevision haccount haccountRevision _ _ _
      _ _ hauthzs =>
      simp only [StoreCall.presents, List.forall_mem_cons, List.forall_mem_map]
      refine ⟨⟨.order stored, by simp [Store.content, hstored], hrevision⟩,
        ⟨.account account, by simp [Store.content, haccount], haccountRevision⟩, fun a ha => ?_⟩
      obtain ⟨_, _, current, hcurrent, hcurrentRevision⟩ := hauthzs a ha
      exact ⟨.authorization current, by simp [Store.content, hcurrent], hcurrentRevision⟩
  | updateCertificate c stored hstored hrevision =>
      simp only [StoreCall.presents, List.mem_singleton, forall_eq]
      exact ⟨.certificate stored, by simp [Store.content, hstored], hrevision⟩
  | acceptChallenge r stored hstored hrevision =>
      simp only [StoreCall.presents, List.mem_singleton, forall_eq]
      exact ⟨.challenge stored, by simp [Store.content, hstored], hrevision⟩
  | finalizeOrder f stored hstored hrevision =>
      simp only [StoreCall.presents, List.mem_singleton, forall_eq]
      exact ⟨.order stored, by simp [Store.content, hstored], hrevision⟩
  | retryValidation r stored challenge _ _ hchallenge hrevision =>
      simp only [StoreCall.presents, List.mem_singleton, forall_eq]
      exact ⟨.challenge challenge, by simp [Store.content, hchallenge], hrevision⟩
  | completeValidation v stored challenge authz order _ _ hchallenge hc hauthz ha horder ho =>
      simp only [StoreCall.presents, List.forall_mem_cons, List.not_mem_nil, false_implies,
        implies_true, and_true]
      exact ⟨⟨.challenge challenge, by simp [Store.content, hchallenge], hc⟩,
        ⟨.authorization authz, by simp [Store.content, hauthz], ha⟩,
        ⟨.order order, by simp [Store.content, horder], ho⟩⟩
  | completeIssuance i stored order _ _ horder hrevision =>
      simp only [StoreCall.presents, List.mem_singleton, forall_eq]
      exact ⟨.order order, by simp [Store.content, horder], hrevision⟩
  | createAccount | createOrder | claimTask | rescheduleTask | finishTask =>
      simp [StoreCall.presents]
  | read c hread => simp [presents_of_read hread]

/-! ## Whole runs -/

/-- A later revision. -/
def LaterRevision {V : Type} (revision : V → Nat) (v v' : V) : Prop := revision v < revision v'

/-- In every table each entry is kept or moves to a later revision. -/
structure Store.Succeeds (s s' : Store) : Prop where
  accounts : Table.Evolves (LaterRevision Account.revision) s.accounts s'.accounts
  orders : Table.Evolves (LaterRevision Order.revision) s.orders s'.orders
  authzs : Table.Evolves (LaterRevision Authorization.revision) s.authzs s'.authzs
  challenges : Table.Evolves (LaterRevision Challenge.revision) s.challenges s'.challenges
  certificates : Table.Evolves (LaterRevision Certificate.revision) s.certificates s'.certificates

theorem later_of_next {V : Type} {revision : V → Nat} (v v' : V) (h : NextRevision revision v v') :
    LaterRevision revision v v' := by
  unfold NextRevision at h
  unfold LaterRevision
  omega

theorem later_trans {V : Type} {revision : V → Nat} (u v w : V) (h : LaterRevision revision u v)
    (h' : LaterRevision revision v w) : LaterRevision revision u w :=
  Nat.lt_trans h h'

theorem Store.Revises.succeeds (h : s.Revises s') : s.Succeeds s' :=
  ⟨h.accounts.mono later_of_next, h.orders.mono later_of_next, h.authzs.mono later_of_next,
    h.challenges.mono later_of_next, h.certificates.mono later_of_next⟩

theorem Store.Succeeds.trans {s'' : Store} (h : s.Succeeds s') (h' : s'.Succeeds s'') :
    s.Succeeds s'' :=
  ⟨h.accounts.trans later_trans h'.accounts, h.orders.trans later_trans h'.orders,
    h.authzs.trans later_trans h'.authzs, h.challenges.trans later_trans h'.challenges,
    h.certificates.trans later_trans h'.certificates⟩

theorem run_succeeds (s : Store) (calls : List (CallEnv × StoreCall)) :
    s.Succeeds (s.run calls) := by
  induction calls generalizing s with
  | nil => exact (Store.Revises.refl s).succeeds
  | cons call rest ih => exact (step_revises s call).succeeds.trans (ih (s.step call))

/-! ## All kinds of resources at once -/

/-- Entries of a table as contents of the store. -/
theorem content_of_evolves {V : Type} {P : V → V → Prop} {t t' : Table V} {make : V → Content}
    {id : String} {x : Content} (h : Table.Evolves P t t') (hx : (t.lookup id).map make = some x) :
    ∃ v v', x = make v ∧ (t'.lookup id).map make = some (make v') ∧ (v' = v ∨ P v v') := by
  obtain ⟨v, hv, rfl⟩ := Option.map_eq_some_iff.mp hx
  obtain ⟨v', hv', hstep⟩ := h id v hv
  exact ⟨v, v', rfl, by rw [hv', Option.map_some], hstep⟩

/-- A call keeps the content of every resource or gives it the next revision. -/
theorem Store.Revises.content (h : s.Revises s') {key : Key} {x : Content}
    (hx : s.content key = some x) :
    ∃ x', s'.content key = some x' ∧ (x' = x ∨ x'.revision = x.revision + 1) := by
  obtain ⟨kind, id⟩ := key
  cases kind with
  | account =>
      obtain ⟨v, v', rfl, hx', hstep⟩ := content_of_evolves h.accounts hx
      exact ⟨_, hx', hstep.imp_left (congrArg _)⟩
  | order =>
      obtain ⟨v, v', rfl, hx', hstep⟩ := content_of_evolves h.orders hx
      exact ⟨_, hx', hstep.imp_left (congrArg _)⟩
  | authorization =>
      obtain ⟨v, v', rfl, hx', hstep⟩ := content_of_evolves h.authzs hx
      exact ⟨_, hx', hstep.imp_left (congrArg _)⟩
  | challenge =>
      obtain ⟨v, v', rfl, hx', hstep⟩ := content_of_evolves h.challenges hx
      exact ⟨_, hx', hstep.imp_left (congrArg _)⟩
  | certificate =>
      obtain ⟨v, v', rfl, hx', hstep⟩ := content_of_evolves h.certificates hx
      exact ⟨_, hx', hstep.imp_left (congrArg _)⟩

/-- At a later moment the content is the same or carries a later revision. -/
theorem Store.Succeeds.content (h : s.Succeeds s') {key : Key} {x : Content}
    (hx : s.content key = some x) :
    ∃ x', s'.content key = some x' ∧ (x' = x ∨ x.revision < x'.revision) := by
  obtain ⟨kind, id⟩ := key
  cases kind with
  | account =>
      obtain ⟨v, v', rfl, hx', hstep⟩ := content_of_evolves h.accounts hx
      exact ⟨_, hx', hstep.imp_left (congrArg _)⟩
  | order =>
      obtain ⟨v, v', rfl, hx', hstep⟩ := content_of_evolves h.orders hx
      exact ⟨_, hx', hstep.imp_left (congrArg _)⟩
  | authorization =>
      obtain ⟨v, v', rfl, hx', hstep⟩ := content_of_evolves h.authzs hx
      exact ⟨_, hx', hstep.imp_left (congrArg _)⟩
  | challenge =>
      obtain ⟨v, v', rfl, hx', hstep⟩ := content_of_evolves h.challenges hx
      exact ⟨_, hx', hstep.imp_left (congrArg _)⟩
  | certificate =>
      obtain ⟨v, v', rfl, hx', hstep⟩ := content_of_evolves h.certificates hx
      exact ⟨_, hx', hstep.imp_left (congrArg _)⟩

/-- A revision stands for one content. -/
theorem Store.Succeeds.same_content (h : s.Succeeds s') {key : Key} {x x' : Content}
    (hx : s.content key = some x) (hx' : s'.content key = some x')
    (hrevision : x'.revision = x.revision) : x' = x := by
  obtain ⟨y, hy, hstep⟩ := h.content hx
  rw [hx'] at hy
  cases hy
  rcases hstep with rfl | hlater
  · rfl
  · omega

/-- In every run of the store: a call keeps the content of each resource or replaces it by one with
the next revision; a content seen at one moment and a content seen later that carry the same
revision are the same; and a successful call finds each resource it presents at the presented
revision, with just the content that any earlier moment saw at that revision. -/
theorem revision_discipline (calls later : List (CallEnv × StoreCall)) (env : CallEnv)
    (c : StoreCall) :
    let earlier := Store.new.run calls
    let now := earlier.run later
    (∀ key x, earlier.content key = some x →
      ∃ x', (earlier.step (env, c)).content key = some x' ∧
        (x' = x ∨ x'.revision = x.revision + 1)) ∧
    (∀ key x x', earlier.content key = some x → now.content key = some x' →
      x'.revision = x.revision → x' = x) ∧
    (∀ v, env.Fits now → (now.apply env c).1.result = .ok v → ∀ p ∈ c.presents,
      ∃ x, now.content p.key = some x ∧ x.revision = p.revision ∧
        ∀ y, earlier.content p.key = some y → y.revision = p.revision → y = x) := by
  intro earlier now
  have hlater : earlier.Succeeds now := run_succeeds earlier later
  refine ⟨fun key x hx => (step_revises earlier (env, c)).content hx,
    fun key x x' hx hx' => hlater.same_content hx hx', ?_⟩
  intro v hfits hok p hp
  obtain ⟨x, hx, hrevision⟩ := commit_presents (commit_of_ok hfits hok) p hp
  refine ⟨x, hx, hrevision, fun y hy hseen => ?_⟩
  exact (hlater.same_content hy hx (hrevision.trans hseen.symm)).symm

end AcmeServer.Memstore
