import AcmeServer.Memstore.Revision
import AcmeServer.Table.Index

/-!
# The indexes of the store

The store finds accounts by key thumbprint and by external account claim, and authorizations by
account and identifier. Each index agrees with the table it belongs to after every run of the store:
`account_indexes_exact` for the accounts, and `authorized_for_scans` for the authorizations, where
the answer from the index is the answer of a scan of the whole table.
-/

namespace AcmeServer.Memstore

open Transaction

variable {s s' : Store} {c : StoreCall}

/-- What every commit keeps holds after every run. -/
theorem run_keeps {P : Store → Prop} (hcommit : ∀ s c s', Commit s c s' → P s → P s')
    (calls : List (CallEnv × StoreCall)) (hs : P s) : P (s.run calls) := by
  induction calls generalizing s with
  | nil => exact hs
  | cons call rest ih =>
      apply ih
      unfold Store.step
      split
      · rename_i hfits
        rcases after_eq_or_commit (c := call.2) hfits with hsame | hafter
        · rwa [hsame]
        · exact hcommit s call.2 _ hafter hs
      · exact hs

/-! ## Accounts -/

/-- The external account claim of an account that has one. -/
def claimOf (a : Account) : Option String :=
  if a.externalAccountClaim ≠ "" then some a.externalAccountClaim else none

theorem claim_of_eq_some {a : Account} {claim : String} :
    claimOf a = some claim ↔ claim ≠ "" ∧ a.externalAccountClaim = claim := by
  unfold claimOf
  split
  · rename_i hset
    constructor
    · rintro ⟨⟩
      exact ⟨hset, rfl⟩
    · rintro ⟨_, rfl⟩
      rfl
  · rename_i hempty
    rw [not_not] at hempty
    simp [hempty]

/-- Both account indexes agree with the accounts. -/
structure AccountsIndexed (s : Store) : Prop where
  keyed : Table.Keyed Account.id s.accounts
  byKey : Table.Indexes (fun a : Account => some a.keyThumbprint) s.accounts s.accountByKey
  byClaim : Table.Indexes claimOf s.accounts s.accountByClaim

theorem accounts_indexed_new : AccountsIndexed Store.new :=
  ⟨Table.keyed_empty, Table.indexes_empty, Table.indexes_empty⟩

/-- A write to an index under a key that is always there. -/
theorem lookup_insert_key (index : Table String) (key id i : String) :
    (index.insert key id).lookup i = if some key = some i then some id else index.lookup i := by
  by_cases hi : i = key
  · rw [hi, Finmap.lookup_insert, if_pos rfl]
  · rw [Finmap.lookup_insert_of_ne index hi, if_neg fun heq => hi (Option.some.inj heq).symm]

/-- A write to the claim index, which leaves out the empty claim. -/
theorem lookup_insert_claim (index : Table String) (a : Account) (i : String) :
    (if a.externalAccountClaim ≠ "" then index.insert a.externalAccountClaim a.id
      else index).lookup i = if claimOf a = some i then some a.id else index.lookup i := by
  unfold claimOf
  split
  · exact lookup_insert_key index _ _ i
  · simp

theorem create_account_indexed {a : Account} (h : AccountsIndexed s)
    (hnew : s.accounts.lookup a.id = none) (hkey : s.accountByKey.lookup a.keyThumbprint = none)
    (hclaim : a.externalAccountClaim ≠ "" →
      s.accountByClaim.lookup a.externalAccountClaim = none) :
    AccountsIndexed { s.putAccount { a with revision := 1 } with
      accountByKey := s.accountByKey.insert a.keyThumbprint a.id
      accountByClaim :=
        if a.externalAccountClaim ≠ "" then s.accountByClaim.insert a.externalAccountClaim a.id
        else s.accountByClaim } where
  keyed := h.keyed.insert rfl
  byKey := by
    refine h.byKey.insert_new hnew ?_ (lookup_insert_key s.accountByKey _ _)
    rintro _ ⟨⟩
    exact hkey
  byClaim := by
    refine h.byClaim.insert_new hnew (fun claim hset => ?_) (lookup_insert_claim s.accountByClaim a)
    obtain ⟨hne, heq⟩ := claim_of_eq_some.mp hset
    cases heq
    exact hclaim hne

/-- The key index without the key that an account had. -/
theorem erase_key {a stored : Account} (h : AccountsIndexed s)
    (hstored : s.accounts.lookup a.id = some stored) (i : String) :
    (s.accountByKey.erase stored.keyThumbprint).lookup i =
      if s.accountByKey.lookup i = some a.id then none else s.accountByKey.lookup i := by
  have howned := (h.byKey stored.keyThumbprint a.id).mpr ⟨stored, hstored, rfl⟩
  refine Table.lookup_erase_owned (fun i hi => ?_) (fun owner howner => ?_) i
  · obtain ⟨v, hv, hi⟩ := (h.byKey i a.id).mp hi
    rw [hstored] at hv
    cases hv
    exact (Option.some.inj hi).symm
  · rw [howned] at howner
    exact (Option.some.inj howner).symm

/-- The claim index without the claim that an account had. The empty claim is not in it. -/
theorem erase_claim {a stored : Account} (h : AccountsIndexed s)
    (hstored : s.accounts.lookup a.id = some stored) (i : String) :
    (s.accountByClaim.erase stored.externalAccountClaim).lookup i =
      if s.accountByClaim.lookup i = some a.id then none else s.accountByClaim.lookup i := by
  refine Table.lookup_erase_owned (fun i hi => ?_) (fun owner howner => ?_) i
  · obtain ⟨v, hv, hi⟩ := (h.byClaim i a.id).mp hi
    rw [hstored] at hv
    cases hv
    exact (claim_of_eq_some.mp hi).2.symm
  · obtain ⟨v, hv, hclaim⟩ := (h.byClaim _ owner).mp howner
    have hset := (claim_of_eq_some.mp hclaim).1
    exact h.byClaim.unique hv hstored hclaim (claim_of_eq_some.mpr ⟨hset, rfl⟩)

theorem update_account_indexed {a stored : Account} (h : AccountsIndexed s)
    (hstored : s.accounts.lookup a.id = some stored)
    (hkey : a.keyThumbprint ≠ stored.keyThumbprint → ∀ owner,
      s.accountByKey.lookup a.keyThumbprint = some owner → owner = a.id)
    (hclaim : a.externalAccountClaim ≠ stored.externalAccountClaim →
      a.externalAccountClaim ≠ "" → ∀ owner,
      s.accountByClaim.lookup a.externalAccountClaim = some owner → owner = a.id) :
    AccountsIndexed { s.putAccount a.revised with
      accountByKey := (s.accountByKey.erase stored.keyThumbprint).insert a.keyThumbprint a.id
      accountByClaim :=
        if a.externalAccountClaim ≠ "" then
          (s.accountByClaim.erase stored.externalAccountClaim).insert a.externalAccountClaim a.id
        else s.accountByClaim.erase stored.externalAccountClaim } where
  keyed := h.keyed.insert rfl
  byKey := by
    refine h.byKey.insert (v := a.revised) (fun i owner hi howner => ?_) fun i => ?_
    · cases hi
      by_cases hsame : a.keyThumbprint = stored.keyThumbprint
      · -- The key stays, so the account has owned it before.
        obtain ⟨v, hv, hi⟩ := (h.byKey _ owner).mp howner
        exact h.byKey.unique hv hstored hi (congrArg some hsame.symm)
      · exact hkey hsame owner howner
    · rw [lookup_insert_key, erase_key h hstored]
      rfl
  byClaim := by
    refine h.byClaim.insert (v := a.revised) (fun i owner hi howner => ?_) fun i => ?_
    · obtain ⟨hset, heq⟩ := claim_of_eq_some.mp hi
      cases heq
      by_cases hsame : a.externalAccountClaim = stored.externalAccountClaim
      · obtain ⟨v, hv, hi⟩ := (h.byClaim _ owner).mp howner
        exact h.byClaim.unique hv hstored hi (claim_of_eq_some.mpr ⟨hset, hsame.symm⟩)
      · exact hclaim hsame hset owner howner
    · rw [lookup_insert_claim, erase_claim h hstored]
      rfl

/-- A store with the same accounts and account indexes. -/
theorem AccountsIndexed.frame (h : AccountsIndexed s) (haccounts : s'.accounts = s.accounts)
    (hkey : s'.accountByKey = s.accountByKey) (hclaim : s'.accountByClaim = s.accountByClaim) :
    AccountsIndexed s' := by
  obtain ⟨hkeyed, hbyKey, hbyClaim⟩ := h
  rw [← haccounts] at hkeyed hbyKey hbyClaim
  rw [← hkey] at hbyKey
  rw [← hclaim] at hbyClaim
  exact ⟨hkeyed, hbyKey, hbyClaim⟩

/-- Every call keeps the account indexes in step. -/
theorem commit_accounts_indexed (hcommit : Commit s c s') (h : AccountsIndexed s) :
    AccountsIndexed s' := by
  cases hcommit with
  | createAccount a _ hnew hkey hclaim _ hs' =>
      subst hs'
      exact create_account_indexed h hnew hkey hclaim
  | updateAccount a stored hstored _ hkey hclaim _ hs' =>
      subst hs'
      exact update_account_indexed h hstored hkey hclaim
  | createOrder n _ _ _ _ base hbase =>
      obtain ⟨_, _, heq⟩ := add_resources_eq base n.initial
      obtain ⟨_, rfl⟩ := hbase.frame
      rw [heq]
      exact h.frame rfl rfl rfl
  | updateAuthorization a =>
      obtain ⟨_, heq, _⟩ := invalidate_order_eq (s.putAuthorization a.revised) a.revised
      rw [heq]
      exact h.frame rfl rfl rfl
  | completeIssuance i _ _ _ _ _ _ base hbase =>
      obtain ⟨_, _, rfl⟩ := hbase.frame
      exact h.frame rfl rfl rfl
  | beginIssuance | updateCertificate | acceptChallenge | finalizeOrder | claimTask
  | rescheduleTask | retryValidation | finishTask | completeValidation | read =>
      exact h.frame rfl rfl rfl

/-- After every run, whatever accounts were created and updated in it, the key index leads from a
thumbprint to an ID exactly if the account with that ID has the thumbprint. The claim index does the
same for claims that are not empty and has no entry for the empty one. So no two accounts share a
key or a claim. -/
theorem account_indexes_exact (calls : List (CallEnv × StoreCall)) :
    let st := Store.new.run calls
    (∀ thumbprint id, st.accountByKey.lookup thumbprint = some id ↔
      ∃ a, st.accounts.lookup id = some a ∧ a.id = id ∧ a.keyThumbprint = thumbprint) ∧
    (∀ claim id, st.accountByClaim.lookup claim = some id ↔ claim ≠ "" ∧
      ∃ a, st.accounts.lookup id = some a ∧ a.id = id ∧ a.externalAccountClaim = claim) ∧
    st.accountByClaim.lookup "" = none ∧
    (∀ id id' a a', st.accounts.lookup id = some a → st.accounts.lookup id' = some a' →
      a.keyThumbprint = a'.keyThumbprint → id = id') ∧
    (∀ id id' a a', st.accounts.lookup id = some a → st.accounts.lookup id' = some a' →
      a.externalAccountClaim ≠ "" → a.externalAccountClaim = a'.externalAccountClaim →
      id = id') := by
  intro st
  obtain ⟨hkeyed, hbyKey, hbyClaim⟩ : AccountsIndexed st :=
    run_keeps (fun _ _ _ => commit_accounts_indexed) calls accounts_indexed_new
  have hclaims : ∀ claim id, st.accountByClaim.lookup claim = some id ↔ claim ≠ "" ∧
      ∃ a, st.accounts.lookup id = some a ∧ a.id = id ∧ a.externalAccountClaim = claim := by
    intro claim id
    rw [hbyClaim claim id]
    constructor
    · rintro ⟨a, ha, hclaim⟩
      obtain ⟨hset, heq⟩ := claim_of_eq_some.mp hclaim
      exact ⟨hset, a, ha, hkeyed id a ha, heq⟩
    · rintro ⟨hset, a, ha, _, heq⟩
      exact ⟨a, ha, claim_of_eq_some.mpr ⟨hset, heq⟩⟩
  refine ⟨fun thumbprint id => ?_, hclaims, ?_, ?_, ?_⟩
  · rw [hbyKey thumbprint id]
    constructor
    · rintro ⟨a, ha, heq⟩
      exact ⟨a, ha, hkeyed id a ha, Option.some.inj heq⟩
    · rintro ⟨a, ha, _, rfl⟩
      exact ⟨a, ha, rfl⟩
  · rw [Option.eq_none_iff_forall_ne_some]
    exact fun id hfound => ((hclaims "" id).mp hfound).1 rfl
  · exact fun id id' a a' ha ha' hsame => hbyKey.unique ha ha' rfl (congrArg some hsame.symm)
  · exact fun id id' a a' ha ha' hset hsame => hbyClaim.unique ha ha'
      (claim_of_eq_some.mpr ⟨hset, rfl⟩) (claim_of_eq_some.mpr ⟨hset, hsame.symm⟩)

/-! ## Renewal identifiers -/

/-- A renewal identifier leads to the same certificate for good. -/
theorem commit_renewal_kept (hcommit : Commit s c s') {renewalID key : String}
    (h : s.certByRenewal.lookup renewalID = some key) :
    s'.certByRenewal.lookup renewalID = some key := by
  cases hcommit with
  | createAccount _ _ _ _ _ _ hs' | updateAccount _ _ _ _ _ _ _ hs' => exact hs' ▸ h
  | createOrder n _ _ _ _ base hbase =>
      obtain ⟨_, _, heq⟩ := add_resources_eq base n.initial
      obtain ⟨_, rfl⟩ := hbase.frame
      rw [heq]
      exact h
  | updateAuthorization a =>
      obtain ⟨_, heq, _⟩ := invalidate_order_eq (s.putAuthorization a.revised) a.revised
      rw [heq]
      exact h
  | completeIssuance i _ _ _ _ _ _ base hbase =>
      generalize i.cert = published at hbase
      cases hbase with
      | nothing => exact h
      | added cert _ _ hrenewal =>
          change (if cert.renewalID ≠ "" then s.certByRenewal.insert cert.renewalID cert.id
            else s.certByRenewal).lookup renewalID = some key
          split
          · rename_i hset
            have hother : renewalID ≠ cert.renewalID := by
              rintro rfl
              rw [hrenewal hset] at h
              cases h
            rw [Finmap.lookup_insert_of_ne _ hother]
            exact h
          · exact h
  | beginIssuance | updateCertificate | acceptChallenge | finalizeOrder | claimTask
  | rescheduleTask | retryValidation | finishTask | completeValidation | read => exact h

/-! ## Authorizations -/

/-- The authorization still belongs to the account and has the identifier and wildcard scope. -/
structure SameScope (stored a : Authorization) : Prop where
  account : a.accountID = stored.accountID
  identifier : a.identifier = stored.identifier
  wildcard : a.wildcard = stored.wildcard

/-- An update of the authorization that the store accepts keeps its scope. -/
def UpdateKeepsScope (s : Store) (a : Authorization) : Prop :=
  ∀ stored, s.authzs.lookup a.id = some stored → stored.revision = a.revision → SameScope stored a

/-- The call updates authorizations within their scope, and a new order has authorizations with
distinct IDs. -/
def KeepsScope (s : Store) : StoreCall → Prop
  | .createOrder n => (n.authzs.map Authorization.id).Nodup
  | .updateAuthorization a => UpdateKeepsScope s a
  | .completeValidation v => UpdateKeepsScope s v.authz
  | _ => True

/-- Every call of the run keeps the scope of the authorizations it finds. -/
def ScopedRun (s : Store) : List (CallEnv × StoreCall) → Prop
  | [] => True
  | call :: rest => KeepsScope s call.2 ∧ ScopedRun (s.step call) rest

/-- The index of the authorizations agrees with them. -/
def AuthorizationsIndexed (s : Store) : Prop :=
  Table.Lists authorizationIndexKey s.authzs s.authzIndex

theorem index_key_eq {stored a : Authorization} (h : SameScope stored a) :
    authorizationIndexKey a.revised = authorizationIndexKey stored := by
  simp [authorizationIndexKey, h.account, h.identifier, h.wildcard]

/-- Adding authorizations with new IDs. -/
theorem add_authorizations_indexed {authzs : List Authorization} (h : AuthorizationsIndexed s)
    (hnodup : (authzs.map Authorization.id).Nodup)
    (hnew : ∀ a ∈ authzs, s.authzs.lookup a.id = none) :
    AuthorizationsIndexed (authzs.foldl Store.addAuthorization s) := by
  induction authzs generalizing s with
  | nil => exact h
  | cons a rest ih =>
      rw [List.map_cons, List.nodup_cons] at hnodup
      refine ih (s := s.addAuthorization a) ?_ hnodup.2 fun b hb => ?_
      · exact Table.Lists.insert_new h (hnew a List.mem_cons_self)
      · have hne : b.id ≠ a.id := fun heq => hnodup.1 (heq ▸ List.mem_map_of_mem hb)
        show (s.authzs.insert a.id a).lookup b.id = none
        rw [Finmap.lookup_insert_of_ne s.authzs hne]
        exact hnew b (List.mem_cons_of_mem _ hb)

theorem create_order_indexed {n : NewOrder} {base : Store} (h : AuthorizationsIndexed s)
    (hnodup : (n.authzs.map Authorization.id).Nodup)
    (hauthzs : ∀ a ∈ n.authzs, s.authzs.lookup a.id = none ∧ a.id ≠ "")
    (hbase : Replaced s n.order base) : AuthorizationsIndexed (base.addResources n.initial) := by
  obtain ⟨_, rfl⟩ := hbase.frame
  unfold Store.addResources
  rw [fold_put_challenge]
  refine add_authorizations_indexed (s := Store.addOrder _ _) h ?_ fun a ha => ?_
  · simpa [NewOrder.initial, List.map_map, Function.comp_def] using hnodup
  · obtain ⟨given, hgiven, rfl⟩ := List.mem_map.mp ha
    exact (hauthzs given hgiven).1

/-- A call that keeps the scopes keeps the index in step. -/
theorem commit_authorizations_indexed (hcommit : Commit s c s') (hscope : KeepsScope s c)
    (h : AuthorizationsIndexed s) : AuthorizationsIndexed s' := by
  cases hcommit with
  | createAccount a _ _ _ _ _ hs' => exact hs' ▸ h
  | updateAccount a stored _ _ _ _ _ hs' => exact hs' ▸ h
  | createOrder n _ _ hauthzs _ base hbase => exact create_order_indexed h hscope hauthzs hbase
  | updateAuthorization a stored hstored hrevision =>
      obtain ⟨_, heq, _⟩ := invalidate_order_eq (s.putAuthorization a.revised) a.revised
      rw [heq]
      exact Table.Lists.replace h hstored (index_key_eq (hscope stored hstored hrevision))
  | completeValidation v _ _ stored _ _ _ _ _ hstored hrevision =>
      exact Table.Lists.replace h hstored (index_key_eq (hscope stored hstored hrevision))
  | completeIssuance i _ _ _ _ _ _ base hbase =>
      obtain ⟨_, _, rfl⟩ := hbase.frame
      exact h
  | beginIssuance | updateCertificate | acceptChallenge | finalizeOrder | claimTask
  | rescheduleTask | retryValidation | finishTask | read => exact h

/-- A run that keeps the scopes keeps the index in step. -/
theorem run_authorizations_indexed {calls : List (CallEnv × StoreCall)}
    (hscoped : ScopedRun s calls) (h : AuthorizationsIndexed s) :
    AuthorizationsIndexed (s.run calls) := by
  induction calls generalizing s with
  | nil => exact h
  | cons call rest ih =>
      obtain ⟨hscope, hrest⟩ := hscoped
      refine ih hrest ?_
      unfold Store.step
      split
      · rename_i hfits
        rcases after_eq_or_commit (c := call.2) hfits with hsame | hafter
        · rwa [hsame]
        · exact commit_authorizations_indexed hafter hscope h
      · exact h

/-- The authorization is valid, was not granted in advance and has not expired. -/
def Usable (now : Time) (a : Authorization) : Prop :=
  a.status = .valid ∧ a.preApproved = false ∧ now < a.expires

/-- What a scan of the whole store finds out: the account is valid and has a usable authorization
for each of the identifiers, of which there is at least one. -/
def Authorized (s : Store) (accountID : String) (identifiers : List Identifier) (now : Time) :
    Prop :=
  identifiers ≠ [] ∧
  (∃ account, s.accounts.lookup accountID = some account ∧ account.status = .valid) ∧
  ∀ identifier ∈ identifiers, ∃ id a, s.authzs.lookup id = some a ∧ a.accountID = accountID ∧
    a.orderIdentifier = identifier ∧ Usable now a

/-- The check runs without an error and answers the question. -/
def Decides {A : Type} (check : Op A Bool) (frame : Frame A) (P : Prop) : Prop :=
  ∃ answer, exec check frame = (.ok answer, frame) ∧ (answer = true ↔ P)

section Decides

variable {A : Type}

theorem any_authorized_decides (frame : Frame A) (now : Time) {ids : List String}
    (hstored : ∀ id ∈ ids, ∃ a, s.authzs.lookup id = some a) :
    Decides (anyAuthorized s now ids) frame
      (∃ id ∈ ids, ∃ a, s.authzs.lookup id = some a ∧ Usable now a) := by
  induction ids with
  | nil => exact ⟨false, rfl, by simp⟩
  | cons id rest ih =>
      obtain ⟨a, ha⟩ := hstored id List.mem_cons_self
      obtain ⟨answer, hexec, hanswer⟩ := ih fun id hid => hstored id (List.mem_cons_of_mem _ hid)
      have hfound : exec (getOr (s.authzs.lookup id) .nilPointer : Op A Authorization) frame =
          (.ok a, frame) := get_or_ok.mpr ⟨ha, rfl⟩
      unfold Decides anyAuthorized
      simp only [exec_bind, hfound]
      split
      · rename_i husable
        exact ⟨true, rfl, by simp only [true_iff]; exact ⟨id, List.mem_cons_self, a, ha, husable⟩⟩
      · rename_i hunusable
        refine ⟨answer, hexec, hanswer.trans ?_⟩
        simp only [List.mem_cons, exists_eq_or_imp, ha, Option.some.injEq, exists_eq_left']
        exact (or_iff_right hunusable).symm

theorem all_authorized_decides (h : AuthorizationsIndexed s) (frame : Frame A) (now : Time)
    (accountID : String) (identifiers : List Identifier) :
    Decides (allAuthorized s accountID now identifiers) frame
      (∀ identifier ∈ identifiers, ∃ id a, s.authzs.lookup id = some a ∧
        a.accountID = accountID ∧ a.orderIdentifier = identifier ∧ Usable now a) := by
  induction identifiers with
  | nil => exact ⟨true, rfl, by simp⟩
  | cons identifier rest ih =>
      have hlisted := h ⟨accountID, identifier⟩
      have hstored : ∀ id ∈ Table.listed s.authzIndex ⟨accountID, identifier⟩,
          ∃ a, s.authzs.lookup id = some a := by
        intro id hid
        obtain ⟨a, ha, _⟩ := (hlisted id).mp hid
        exact ⟨a, ha⟩
      obtain ⟨valid, hexec, hvalid⟩ := any_authorized_decides frame now hstored
      -- What the index lists are the authorizations of the account for the identifier.
      have hscan : valid = true ↔ ∃ id a, s.authzs.lookup id = some a ∧
          a.accountID = accountID ∧ a.orderIdentifier = identifier ∧ Usable now a := by
        rw [hvalid]
        constructor
        · rintro ⟨id, hid, a, ha, husable⟩
          obtain ⟨b, hb, hkey⟩ := (hlisted id).mp hid
          rw [ha] at hb
          cases hb
          cases hkey
          exact ⟨id, a, ha, rfl, rfl, husable⟩
        · rintro ⟨id, a, ha, rfl, rfl, husable⟩
          exact ⟨id, (hlisted id).mpr ⟨a, ha, rfl⟩, a, ha, husable⟩
      obtain ⟨answer, hrest, hanswer⟩ := ih
      unfold Decides allAuthorized
      simp only [exec_bind]
      rw [show (s.authzIndex.lookup ⟨accountID, identifier⟩).getD [] =
        Table.listed s.authzIndex ⟨accountID, identifier⟩ from rfl, hexec]
      cases valid with
      | true =>
          refine ⟨answer, hrest, ?_⟩
          rw [List.forall_mem_cons, ← hscan, hanswer]
          simp
      | false =>
          refine ⟨false, rfl, ?_⟩
          rw [List.forall_mem_cons, ← hscan]
          simp

end Decides

theorem authorized_for_decides (h : AuthorizationsIndexed s) (accountID : String)
    (identifiers : List Identifier) (now : Time) :
    Decides (authorizedFor none accountID identifiers now) ⟨s, ()⟩
      (Authorized s accountID identifiers now) := by
  unfold Decides Authorized
  cases haccount : s.accounts.lookup accountID with
  | none =>
      refine ⟨false, ?_, by simp⟩
      simp [authorizedFor, checkContext, getStore, exec_bind, haccount]
  | some account =>
      have hrun : exec (authorizedFor none accountID identifiers now) ⟨s, ()⟩ =
          exec (if account.status ≠ .valid ∨ identifiers.length = 0 then pure false
            else allAuthorized s accountID now identifiers : Op Unit Bool) ⟨s, ()⟩ := by
        simp only [authorizedFor, checkContext, getStore, exec_bind, exec_get, exec_pure, haccount]
      rw [hrun]
      split
      · rename_i hrefused
        refine ⟨false, rfl, ?_⟩
        rcases hrefused with hstatus | hempty
        · simp [hstatus]
        · simp [List.length_eq_zero_iff.mp hempty]
      · rename_i hchecked
        rw [not_or, not_not] at hchecked
        obtain ⟨answer, hexec, hanswer⟩ := all_authorized_decides h ⟨s, ()⟩ now accountID
          identifiers
        refine ⟨answer, hexec, hanswer.trans ?_⟩
        have hne : identifiers ≠ [] := fun hnil => hchecked.2 (List.length_eq_zero_iff.mpr hnil)
        simp [hne, hchecked.1]

/-- With an index that agrees with the authorizations, the store answers the question of a scan. -/
theorem authorized_for_answers {st : Store} (h : AuthorizationsIndexed st) (env : CallEnv)
    (accountID : String) (identifiers : List Identifier) (now : Time) :
    let result := (st.apply env (.authorizedFor accountID identifiers now)).1.result
    (env.ctx = none → ∃ answer, result = .ok answer) ∧
    (result = .ok true ↔ env.ctx = none ∧ Authorized st accountID identifiers now) := by
  intro result
  obtain ⟨answer, hexec, hanswer⟩ := authorized_for_decides h accountID identifiers now
  cases hctx : env.ctx with
  | none =>
      have hresult : result = .ok answer := by
        show (exec (authorizedFor env.ctx accountID identifiers now) ⟨st, ()⟩).1 = _
        rw [hctx, hexec]
      refine ⟨fun _ => ⟨answer, hresult⟩, ?_⟩
      rw [hresult, ← hanswer]
      simp
  | some cause =>
      have hresult : result = .error (.context cause) := by
        show (exec (authorizedFor env.ctx accountID identifiers now) ⟨st, ()⟩).1 = _
        rw [hctx]
        rfl
      simp [hresult]

/-- After every run that updates authorizations within their scope, the store answers that an
account is authorized for some identifiers exactly if a scan of all authorizations finds a usable
one of the account for each of them. -/
theorem authorized_for_scans (calls : List (CallEnv × StoreCall))
    (hscoped : ScopedRun Store.new calls) (env : CallEnv) (accountID : String)
    (identifiers : List Identifier) (now : Time) :
    let st := Store.new.run calls
    let result := (st.apply env (.authorizedFor accountID identifiers now)).1.result
    (env.ctx = none → ∃ answer, result = .ok answer) ∧
    (result = .ok true ↔ env.ctx = none ∧ Authorized st accountID identifiers now) :=
  authorized_for_answers (run_authorizations_indexed hscoped Table.lists_empty) env accountID
    identifiers now

/-- A pending authorization for a wildcard name. -/
def wildcardAuthorization : Authorization :=
  { id := "z", accountID := "a", orderID := "o", identifier := ⟨.dns, "example.org"⟩,
    status := .pending, expires := 20, wildcard := true, createdAt := 1 }

/-- The account that it belongs to. -/
def wildcardAccount : Account :=
  { id := "a", status := .valid, key := .ed25519 [], keyThumbprint := "k", createdAt := 1 }

/-- The order that it belongs to. -/
def wildcardOrder : Order :=
  { id := "o", accountID := "a", status := .pending, expires := 20,
    identifiers := [⟨.dns, "*.example.org"⟩], authorizationIDs := ["z"], createdAt := 1 }

/-- An account orders a wildcard certificate and its authorization becomes valid. -/
def wildcardCalls : List (CallEnv × StoreCall) :=
  [({}, .createAccount wildcardAccount),
    ({}, .createOrder ⟨wildcardOrder, [wildcardAuthorization], []⟩),
    ({}, .updateAuthorization { wildcardAuthorization with status := .valid, revision := 1 })]

/-- The wildcard authorization is found for the wildcard name. -/
theorem wildcard_name_is_authorized :
    ((Store.new.run wildcardCalls).apply {}
      (.authorizedFor "a" [⟨.dns, "*.example.org"⟩] 10)).1.result = .ok true := by
  have hscoped : ScopedRun Store.new wildcardCalls := by
    refine ⟨trivial, List.nodup_singleton _, ?_, trivial⟩
    intro stored hstored _
    have hsame : some stored = some { wildcardAuthorization with revision := 1 } :=
      hstored.symm.trans (by decide +kernel)
    cases hsame
    exact ⟨rfl, rfl, rfl⟩
  refine (authorized_for_scans wildcardCalls hscoped {} _ _ _).2.mpr ⟨rfl, by simp, ?_, ?_⟩
  · exact ⟨{ wildcardAccount with revision := 1 }, by decide +kernel, rfl⟩
  · simp only [List.mem_singleton, forall_eq]
    exact ⟨"z", { wildcardAuthorization with status := .valid, revision := 2 }, by decide +kernel,
      rfl, by decide, rfl, rfl, by decide⟩

end AcmeServer.Memstore
