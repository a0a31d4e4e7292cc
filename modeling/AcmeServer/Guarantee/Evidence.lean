import AcmeServer.Guarantee.Dispatch

/-!
# Evidence for authorizations

A client may respond to several challenges of one authorization, and several validations of it may
succeed at once. Only the first of them finds the authorization pending and validates its challenge;
the others settle theirs as invalid. So a valid authorization has exactly one valid challenge,
unless it was granted in advance, and a dispatched order names for each of its identifiers how it
was authorized.
-/

namespace AcmeServer.Guarantee

open Memstore Protocol Safety

variable {s : Server} {w w' : World} {thread : Nat} {c : StoreCall} {st st' : Store}

/-! ## What a commit validates -/

/-- A settlement validates the challenge only with a pending authorization, which it validates. -/
theorem settlement_validates {v : ValidationOutcome} {task : Task} {ch : Challenge}
    {a : Authorization} {o : Order} (h : Settlement st v task ch a o)
    (hvalid : v.challenge.status = .valid) : a.status = .pending ∧ v.authz.status = .valid := by
  have hdecision := h.decision
  generalize v.authz = a' at hdecision
  generalize v.challenge.status = status at hvalid hdecision
  cases hdecision with
  | kept => cases hvalid
  | validated _ hpending hauthorized => exact ⟨hpending, hauthorized⟩
  | refused => cases hvalid

/-- A settlement that leaves the authorization valid found it valid or validates the challenge. -/
theorem settlement_authorizes {v : ValidationOutcome} {task : Task} {ch : Challenge}
    {a : Authorization} {o : Order} (h : Settlement st v task ch a o)
    (hvalid : v.authz.status = .valid) : a.status = .valid ∨ v.challenge.status = .valid := by
  have hdecision := h.decision
  generalize v.authz = a' at hvalid hdecision
  generalize v.challenge.status = status at hdecision
  cases hdecision with
  | kept => exact .inl hvalid
  | validated => exact .inr rfl
  | refused => cases hvalid

/-- The settled challenge belongs to the authorization that is decided. -/
theorem settlement_owner {v : ValidationOutcome} {task : Task} {ch : Challenge}
    {a : Authorization} {o : Order} (h : Settlement st v task ch a o) :
    v.challenge.authorizationID = v.authz.id := by
  have hterms := congrArg Challenge.authorizationID h.challenge
  exact hterms.trans h.authorization.symm

/-- A challenge that is valid after a call was valid before, or the call has validated it together
with its authorization. -/
theorem commit_validates (hpermitted : Permitted s w thread (.store c))
    (hcommit : Commit w.store c st') {cid : String} {ch' : Challenge}
    (hch' : st'.challenges.lookup cid = some ch') (hvalid : ch'.status = .valid) :
    (∃ ch, w.store.challenges.lookup cid = some ch ∧ ch.status = .valid) ∨
      ∃ v a a', c = .completeValidation v ∧ v.challenge.id = cid ∧
        w.store.authzs.lookup ch'.authorizationID = some a ∧ a.status = .pending ∧
        st'.authzs.lookup ch'.authorizationID = some a' ∧ a'.status = .valid := by
  cases hcommit with
  | createAccount _ _ _ _ _ _ hst | updateAccount _ _ _ _ _ _ _ hst =>
      subst hst
      exact .inl ⟨ch', hch', hvalid⟩
  | createOrder n _ _ _ _ base hbase =>
      obtain ⟨_, rfl⟩ := hbase.frame
      obtain ⟨_, _, heq⟩ := add_resources_eq { w.store with certificates := _ } n.initial
      rw [heq] at hch'
      rcases Table.lookup_insert_all hch' with ⟨hmem, _⟩ | ⟨_, hold⟩
      · obtain ⟨ch, hch, rfl⟩ := List.mem_map.mp hmem
        cases (hpermitted.1.challenges ch hch).1.symm.trans hvalid
      · exact .inl ⟨ch', hold, hvalid⟩
  | updateAuthorization a =>
      obtain ⟨_, heq, _⟩ := invalidate_order_eq (w.store.putAuthorization a.revised) a.revised
      rw [heq] at hch'
      exact .inl ⟨ch', hch', hvalid⟩
  | acceptChallenge r stored hstored hrevision =>
      rcases Table.lookup_insert_cases hch' with ⟨rfl, rfl⟩ | ⟨_, hold⟩
      · obtain ⟨_, hprocessing, _⟩ := hpermitted.stored stored hstored hrevision
        cases hprocessing.symm.trans hvalid
      · exact .inl ⟨ch', hold, hvalid⟩
  | retryValidation r _ ch _ _ hch hrevision =>
      rcases Table.lookup_insert_cases hch' with ⟨rfl, rfl⟩ | ⟨_, hold⟩
      · obtain ⟨error, hfields⟩ := hpermitted ch hch hrevision
        have hstatus := congrArg Challenge.status hfields
        exact .inl ⟨ch, hch, hstatus.symm.trans hvalid⟩
      · exact .inl ⟨ch', hold, hvalid⟩
  | completeValidation v task ch a o htask hfence hch hchRevision ha haRevision ho hoRevision =>
      rcases Table.lookup_insert_cases hch' with ⟨rfl, rfl⟩ | ⟨_, hold⟩
      · have hsettlement := hpermitted task htask hfence ch hch hchRevision a ha haRevision o ho
          hoRevision
        obtain ⟨hpending, hauthorized⟩ := settlement_validates hsettlement hvalid
        refine .inr ⟨v, a, v.authz.revised, rfl, rfl, ?_, hpending, ?_, hauthorized⟩
        · exact settlement_owner hsettlement ▸ ha
        · exact settlement_owner hsettlement ▸ Finmap.lookup_insert _
      · exact .inl ⟨ch', hold, hvalid⟩
  | completeIssuance i _ _ _ _ _ _ base hbase =>
      obtain ⟨_, _, rfl⟩ := hbase.frame
      exact .inl ⟨ch', hch', hvalid⟩
  | beginIssuance | updateCertificate | finalizeOrder | claimTask | rescheduleTask | finishTask
  | read => exact .inl ⟨ch', hch', hvalid⟩

/-- An authorization that is valid after a call was valid before, was granted in advance, or the
call has validated one of its challenges. -/
theorem commit_authorizes (hpermitted : Permitted s w thread (.store c))
    (hcommit : Commit w.store c st') {aid : String} {a' : Authorization}
    (ha' : st'.authzs.lookup aid = some a') (hvalid : a'.status = .valid) :
    (∃ a, w.store.authzs.lookup aid = some a ∧ a.status = .valid) ∨ a'.preApproved = true ∨
      ∃ cid ch, st'.challenges.lookup cid = some ch ∧ ch.status = .valid ∧
        ch.authorizationID = aid := by
  cases hcommit with
  | createAccount _ _ _ _ _ _ hst | updateAccount _ _ _ _ _ _ _ hst =>
      subst hst
      exact .inl ⟨a', ha', hvalid⟩
  | createOrder n _ _ _ _ base hbase =>
      obtain ⟨_, rfl⟩ := hbase.frame
      obtain ⟨_, _, heq⟩ := add_resources_eq { w.store with certificates := _ } n.initial
      rw [heq] at ha'
      rcases Table.lookup_insert_all ha' with ⟨hmem, _⟩ | ⟨_, hold⟩
      · obtain ⟨a, ha, rfl⟩ := List.mem_map.mp hmem
        exact .inr (.inl (hpermitted.1.preApproved a ha hvalid))
      · exact .inl ⟨a', hold, hvalid⟩
  | updateAuthorization a stored hstored hrevision =>
      obtain ⟨_, heq, _⟩ := invalidate_order_eq (w.store.putAuthorization a.revised) a.revised
      rw [heq] at ha'
      rcases Table.lookup_insert_cases ha' with ⟨rfl, rfl⟩ | ⟨_, hold⟩
      · obtain ⟨hfields, _⟩ := hpermitted stored hstored hrevision
        have hstatus := congrArg Authorization.status hfields
        cases hstatus.symm.trans hvalid
      · exact .inl ⟨a', hold, hvalid⟩
  | completeValidation v task ch a o htask hfence hch hchRevision ha haRevision ho hoRevision =>
      rcases Table.lookup_insert_cases ha' with ⟨rfl, rfl⟩ | ⟨_, hold⟩
      · have hsettlement := hpermitted task htask hfence ch hch hchRevision a ha haRevision o ho
          hoRevision
        rcases settlement_authorizes hsettlement hvalid with hbefore | hvalidated
        · exact .inl ⟨a, ha, hbefore⟩
        · exact .inr (.inr ⟨v.challenge.id, v.challenge.revised, Finmap.lookup_insert _, hvalidated,
            settlement_owner hsettlement⟩)
      · exact .inl ⟨a', hold, hvalid⟩
  | completeIssuance i _ _ _ _ _ _ base hbase =>
      obtain ⟨_, _, rfl⟩ := hbase.frame
      exact .inl ⟨a', ha', hvalid⟩
  | beginIssuance | updateCertificate | acceptChallenge | finalizeOrder | claimTask | rescheduleTask
  | retryValidation | finishTask | read => exact .inl ⟨a', ha', hvalid⟩

/-! ## The invariant -/

/-- The identifier that an order has for the authorization. -/
def identifierOf (st : Store) (aid : String) : Option Identifier :=
  (st.authzs.lookup aid).map Authorization.orderIdentifier

/-- How authorizations, their challenges and the identifiers of orders fit together. -/
structure Evidenced (st : Store) : Prop where
  listed : ∀ {aid a cid ch}, st.authzs.lookup aid = some a → st.challenges.lookup cid = some ch →
    (cid ∈ a.challengeIDs ↔ ch.authorizationID = aid)
  identified : ∀ {id o}, st.orders.lookup id = some o →
    o.authorizationIDs.map (identifierOf st) = o.identifiers.map some
  decided : ∀ {cid ch a}, st.challenges.lookup cid = some ch → ch.status = .valid →
    st.authzs.lookup ch.authorizationID = some a → a.status ≠ .pending
  single : ∀ {cid cid' ch ch'}, st.challenges.lookup cid = some ch →
    st.challenges.lookup cid' = some ch' → ch.status = .valid → ch'.status = .valid →
    ch.authorizationID = ch'.authorizationID → cid = cid'
  proven : ∀ {aid a}, st.authzs.lookup aid = some a → a.status = .valid → a.preApproved = false →
    ∃ cid ch, st.challenges.lookup cid = some ch ∧ ch.status = .valid ∧ ch.authorizationID = aid

theorem evidenced_initial : Evidenced Store.new where
  listed ha := by simp [Store.new, Finmap.lookup_empty] at ha
  identified ho := by simp [Store.new, Finmap.lookup_empty] at ho
  decided hch := by simp [Store.new, Finmap.lookup_empty] at hch
  single hch := by simp [Store.new, Finmap.lookup_empty] at hch
  proven ha := by simp [Store.new, Finmap.lookup_empty] at ha

theorem challenge_authorization_eq {ch ch' : Challenge}
    (h : Relation.ReflTransGen ChallengeStep ch ch') :
    ch'.authorizationID = ch.authorizationID := by
  have hfield := congrArg Challenge.authorizationID (challenge_terms_eq h)
  exact hfield

/-- An authorization that was decided stays decided. -/
theorem decided_later {a a' : Authorization} (h : Relation.ReflTransGen AuthorizationStep a a')
    (hdecided : a.status ≠ .pending) : a'.status ≠ .pending := by
  intro hpending
  rw [authorization_undecided h hpending] at hpending
  exact hdecided hpending

section Step

variable (hpermitted : Permitted s w thread (.store c)) (hcommit : Commit w.store c st')
  (hevolution : Evolution w.store st')
include hpermitted hcommit hevolution

theorem listed_step (hinv : Invariant s w) (h : Evidenced w.store) {aid cid : String}
    {a' : Authorization} {ch' : Challenge} (ha' : st'.authzs.lookup aid = some a')
    (hch' : st'.challenges.lookup cid = some ch') :
    cid ∈ a'.challengeIDs ↔ ch'.authorizationID = aid := by
  cases ha : w.store.authzs.lookup aid with
  | some a =>
      have hlist := congrArg Authorization.challengeIDs
        (authorization_terms_eq (hevolution.authzs.follows.steps ha ha'))
      change a'.challengeIDs = a.challengeIDs at hlist
      rw [hlist]
      cases hch : w.store.challenges.lookup cid with
      | some ch =>
          rw [challenge_authorization_eq (hevolution.challenges.follows.steps hch hch')]
          exact h.listed ha hch
      | none =>
          -- A new challenge belongs to a new authorization.
          obtain ⟨n, rfl, hcreated, ch, hmem, rfl, rfl⟩ := commit_new_challenge hcommit hch hch'
          refine ⟨fun hcid => ?_, fun howner => ?_⟩
          · obtain ⟨old, hold⟩ := authorization_challenge_stored hinv ha hcid
            rw [hch] at hold
            cases hold
          · have hnew := (hpermitted.1.challenges ch hmem).2.2
            rw [show ch.authorizationID = aid from howner, hpermitted.1.listed] at hnew
            obtain ⟨b, hb, rfl⟩ := List.mem_map.mp hnew
            rw [hcreated.newAuthzs b hb] at ha
            cases ha
  | none =>
      obtain ⟨n, rfl, hcreated, a, hmem, rfl, rfl⟩ := commit_new_authorization hcommit ha ha'
      cases hch : w.store.challenges.lookup cid with
      | some ch =>
          refine ⟨fun hcid => ?_, fun howner => ?_⟩
          · obtain ⟨b, hb, rfl⟩ := (hpermitted.1.authorizations a hmem).2.2 cid hcid
            rw [hcreated.newChallenges b hb] at hch
            cases hch
          · rw [challenge_authorization_eq (hevolution.challenges.follows.steps hch hch')] at howner
            obtain ⟨old, hold⟩ := challenge_authorization_stored hinv hch
            rw [howner, ha] at hold
            cases hold
      | none =>
          obtain ⟨_, hcall, _, ch, hchmem, rfl, rfl⟩ := commit_new_challenge hcommit hch hch'
          cases hcall
          exact hpermitted.1.owned a hmem ch hchmem

theorem identified_step (hinv : Invariant s w) (h : Evidenced w.store) {id : String} {o' : Order}
    (ho' : st'.orders.lookup id = some o') :
    o'.authorizationIDs.map (identifierOf st') = o'.identifiers.map some := by
  cases ho : w.store.orders.lookup id with
  | some o =>
      obtain ⟨_, _, hauthzs, hidentifiers, _⟩ :=
        order_fields_eq (order_terms_eq (hevolution.orders.follows.steps ho ho'))
      rw [hauthzs, hidentifiers, ← h.identified ho]
      refine List.map_congr_left fun aid haid => ?_
      obtain ⟨a, ha⟩ := order_authorization_stored hinv ho haid
      obtain ⟨a', ha', hsteps⟩ := hevolution.authzs.follows aid a ha
      have hterms := authorization_terms_eq hsteps
      have hidentifier := congrArg Authorization.orderIdentifier hterms
      rw [identifierOf, identifierOf, ha, ha']
      exact congrArg some hidentifier
  | none =>
      obtain ⟨n, rfl, hcreated, rfl, rfl⟩ := commit_new_order hcommit ho ho'
      have hdistinct : (n.initial.authzs.map Authorization.id).Nodup := by
        simpa [NewOrder.initial, Function.comp_def] using hpermitted.1.distinct
      change n.order.authorizationIDs.map _ = n.order.identifiers.map some
      rw [hpermitted.1.listed, hpermitted.1.identifiers, List.map_map, List.map_map]
      refine List.map_congr_left fun a ha => ?_
      have hstored : st'.authzs.lookup a.id = some { a with revision := 1 } := by
        have hmem : { a with revision := 1 } ∈ n.initial.authzs := List.mem_map_of_mem ha
        rw [hcreated.authzs]
        exact Table.lookup_insert_all_of_mem hdistinct hmem
      simp [identifierOf, hstored, Authorization.orderIdentifier]

theorem decided_step (hinv : Invariant s w) (h : Evidenced w.store) {cid : String} {ch' : Challenge}
    {a' : Authorization} (hch' : st'.challenges.lookup cid = some ch')
    (hvalid : ch'.status = .valid) (ha' : st'.authzs.lookup ch'.authorizationID = some a') :
    a'.status ≠ .pending := by
  rcases commit_validates hpermitted hcommit hch' hvalid with ⟨ch, hch, hbefore⟩ |
    ⟨_, _, a, _, _, _, _, ha, hauthorized⟩
  · obtain ⟨a, ha⟩ := challenge_authorization_stored hinv hch
    rw [challenge_authorization_eq (hevolution.challenges.follows.steps hch hch')] at ha'
    exact decided_later (hevolution.authzs.follows.steps ha ha') (h.decided hch hbefore ha)
  · rw [ha'] at ha
    cases ha
    rw [hauthorized]
    nofun

theorem single_step (h : Evidenced w.store) {cid cid' : String} {ch ch' : Challenge}
    (hch : st'.challenges.lookup cid = some ch) (hch' : st'.challenges.lookup cid' = some ch')
    (hvalid : ch.status = .valid) (hvalid' : ch'.status = .valid)
    (howner : ch.authorizationID = ch'.authorizationID) : cid = cid' := by
  -- A challenge that was valid before has a decided authorization, so no call validates another.
  have hconflict : ∀ {cid : String} {ch ch' : Challenge} {a : Authorization},
      w.store.challenges.lookup cid = some ch → ch.status = .valid →
      st'.challenges.lookup cid = some ch' →
      w.store.authzs.lookup ch'.authorizationID = some a → a.status ≠ .pending := by
    intro cid ch ch' a hold hbefore hnew ha
    rw [challenge_authorization_eq (hevolution.challenges.follows.steps hold hnew)] at ha
    exact h.decided hold hbefore ha
  rcases commit_validates hpermitted hcommit hch hvalid with ⟨old, hold, hbefore⟩ |
    ⟨v, a, _, rfl, hid, ha, hpending, _⟩
  · rcases commit_validates hpermitted hcommit hch' hvalid' with ⟨old', hold', hbefore'⟩ |
      ⟨_, a, _, _, _, ha, hpending, _⟩
    · refine h.single hold hold' hbefore hbefore' ?_
      rw [← challenge_authorization_eq (hevolution.challenges.follows.steps hold hch),
        ← challenge_authorization_eq (hevolution.challenges.follows.steps hold' hch'), howner]
    · exact absurd hpending (hconflict hold hbefore hch (howner ▸ ha))
  · rcases commit_validates hpermitted hcommit hch' hvalid' with ⟨old', hold', hbefore'⟩ |
      ⟨_, _, _, hcall, hid', _⟩
    · exact absurd hpending (hconflict hold' hbefore' hch' (howner ▸ ha))
    · cases hcall
      exact hid.symm.trans hid'

theorem proven_step (h : Evidenced w.store) {aid : String} {a' : Authorization}
    (ha' : st'.authzs.lookup aid = some a') (hvalid : a'.status = .valid)
    (hasked : a'.preApproved = false) :
    ∃ cid ch, st'.challenges.lookup cid = some ch ∧ ch.status = .valid ∧
      ch.authorizationID = aid := by
  rcases commit_authorizes hpermitted hcommit ha' hvalid with ⟨a, ha, hbefore⟩ | hgranted | hnew
  · have hterms := authorization_terms_eq (hevolution.authzs.follows.steps ha ha')
    have happroved := congrArg Authorization.preApproved hterms
    obtain ⟨cid, ch, hch, hproof, howner⟩ := h.proven ha hbefore (happroved.symm.trans hasked)
    obtain ⟨ch', hch', hsteps⟩ := hevolution.challenges.follows cid ch hch
    refine ⟨cid, ch', hch', ?_, (challenge_authorization_eq hsteps).trans howner⟩
    rw [challenge_terminal_eq hsteps (by rw [hproof]; rfl), hproof]
  · rw [hasked] at hgranted
    cases hgranted
  · exact hnew

end Step

theorem evidenced_step {call : Call} {answer : call.Answer} (hinv : Invariant s w)
    (hpermitted : Permitted s w thread call) (hexecuted : Executed w thread call answer w')
    (h : Evidenced w.store) : Evidenced w'.store := by
  have hevolution := hexecuted.evolution hinv hpermitted
  rcases hexecuted.store_cases with hsame | ⟨c, rfl, hcommit⟩
  · rw [hsame]
    exact h
  · exact ⟨listed_step hpermitted hcommit hevolution hinv h,
      identified_step hpermitted hcommit hevolution hinv h,
      decided_step hpermitted hcommit hevolution hinv h,
      single_step hpermitted hcommit hevolution h, proven_step hpermitted hcommit hevolution h⟩

theorem evidenced_later (hlater : s.contract.Later World.initial w) : Evidenced w.store := by
  refine hlater.stable (P := fun w => Evidenced w.store) ?_ evidenced_initial
  intro _ _ _ _ _ _ hinv hpermitted hexecute
  exact evidenced_step hinv hpermitted (executed_of_execute hexecute)

/-! ## What a dispatch can rely on -/

/-- The search for a successful challenge does not end without one if there is one. -/
theorem successful_challenge_found {v : Validation} {ids : List String}
    (hstored : ∀ cid ∈ ids, ∃ ch, w.store.challenges.lookup cid = some ch)
    (hproof : ∃ cid ∈ ids, ∃ ch, w.store.challenges.lookup cid = some ch ∧ ch.status = .valid) :
    s.contract.Safe thread (Server.successfulChallenge v ids) (fun result _ =>
      result ≠ .error (.text "valid authorization has no successful challenge")) w := by
  induction ids generalizing w with
  | nil => simp at hproof
  | cons id rest ih =>
      have hlater : ∀ seen, s.contract.Later w seen → ∀ cid ∈ id :: rest,
          ∃ ch, seen.store.challenges.lookup cid = some ch := by
        intro seen hseen cid hcid
        obtain ⟨ch, hch⟩ := hstored cid hcid
        obtain ⟨ch', hch', _⟩ := (later_progress hseen).challenges cid ch hch
        exact ⟨ch', hch'⟩
      unfold Server.successfulChallenge
      refine safe_existing (reads_challenge id) ?_ ?_ ?_
      · exact fun seen hseen _ => hlater seen hseen.later id List.mem_cons_self
      · exact fun _ seen _ => Interaction.Contract.safe_done fun _ _ _ => by simp
      · intro found seen hseen _ hfound
        dsimp only
        split
        · exact Interaction.Contract.safe_done fun _ _ _ => by simp
        · rename_i hnot
          refine ih (fun cid hcid => hlater seen hseen.later cid (List.mem_cons_of_mem _ hcid)) ?_
          obtain ⟨cid, hcid, ch, hch, hvalid⟩ := hproof
          obtain ⟨ch', hch', hsteps⟩ := (later_progress hseen.later).challenges cid ch hch
          have hstill : ch'.status = .valid := by
            rw [challenge_terminal_eq hsteps (by rw [hvalid]; rfl), hvalid]
          rcases List.mem_cons.mp hcid with rfl | hrest
          · cases Option.some.inj (hch'.symm.trans hfound)
            exact absurd hstill hnot
          · exact ⟨cid, hrest, ch', hch', hstill⟩

/-- The evidence for a valid authorization is found. -/
theorem validation_evidence_found (hinv : Invariant s w) (hevidenced : Evidenced w.store)
    {aid : String} {a : Authorization} (ha : w.store.authzs.lookup aid = some a)
    (hvalid : a.status = .valid) :
    s.contract.Safe thread (s.validationEvidence a) (fun result _ =>
      result ≠ .error (.text "valid authorization has no successful challenge")) w := by
  unfold Server.validationEvidence
  dsimp only
  split
  · exact Interaction.Contract.safe_done fun _ _ _ => by simp
  · rename_i hasked
    rw [Bool.not_eq_true] at hasked
    refine successful_challenge_found
      (fun cid hcid => authorization_challenge_stored hinv ha hcid) ?_
    obtain ⟨cid, ch, hch, hproof, howner⟩ := hevidenced.proven ha hvalid hasked
    exact ⟨cid, (hevidenced.listed ha hch).mpr howner, ch, hch, hproof⟩

/-- The validation states how the stored authorization was authorized: in advance, or by its valid
challenge. -/
def Attests (st : Store) (aid : String) (v : Validation) : Prop :=
  ∃ a, st.authzs.lookup aid = some a ∧
    ((a.preApproved = true ∧ v.preApproved = true ∧ v.validated = a.createdAt) ∨
      (a.preApproved = false ∧ v.preApproved = false ∧ ∃ cid ∈ a.challengeIDs, ∃ ch,
        st.challenges.lookup cid = some ch ∧ ch.status = .valid ∧ v.type = some ch.type ∧
          v.validated = ch.validated))

/-- What a dispatch has recorded still holds of the stored authorization. -/
theorem attests_of_evidence {u : World} {a : Authorization} {v : Validation}
    (hlater : s.contract.Later u w) (ha : u.store.authzs.lookup a.id = some a)
    (h : Evidence u.store a v) : Attests w.store a.id v := by
  obtain ⟨a', ha', hsteps⟩ := (later_progress hlater).authzs _ a ha
  have hterms := authorization_terms_eq hsteps
  have happroved := congrArg Authorization.preApproved hterms
  have hcreated := congrArg Authorization.createdAt hterms
  have hchallenges := congrArg Authorization.challengeIDs hterms
  change a'.preApproved = a.preApproved at happroved
  change a'.createdAt = a.createdAt at hcreated
  change a'.challengeIDs = a.challengeIDs at hchallenges
  refine ⟨a', ha', ?_⟩
  rw [happroved, hcreated, hchallenges]
  exact (h.later hlater).authorized.imp_left fun ⟨hgranted, hval, _, htime⟩ =>
    ⟨hgranted, hval, htime⟩

/-- The validations of a dispatched order: one for each of its identifiers, in their order, each of
them for the authorization of that identifier. -/
theorem dispatched_validations (hlater : s.contract.Later World.initial w) (hinv : Invariant s w)
    {id : String} {o : Order} {state : IssuanceState} (ho : w.store.orders.lookup id = some o)
    (hstate : o.issuance = some state) :
    state.validations.map Validation.identifier = o.identifiers ∧
      List.Forall₂ (Attests w.store) o.authorizationIDs state.validations := by
  obtain ⟨e, he, d, o₁, hd, hid, hdispatch⟩ := dispatch_of_issuance hlater hinv ho hstate
  obtain ⟨_, _, hmoment⟩ := moment_of_mem hlater he
  have hstored : e.before.orders.lookup id = some o₁ := hid ▸ hdispatch.stored
  obtain ⟨_, _, hauthzs, hidentifiers, _⟩ :=
    order_fields_eq (order_terms_eq ((later_progress hmoment.later).orders.steps hstored ho))
  have hevidence := hdispatch.decision.evidence
  constructor
  · -- Both lists are the identifiers of the authorizations that the dispatch has checked.
    have hnamed : state.validations.map Validation.identifier =
        d.authzs.map Authorization.orderIdentifier := by
      rw [← List.forall₂_eq_eq_eq, List.forall₂_map_left_iff, List.forall₂_map_right_iff]
      exact hevidence.flip.imp fun v a h => h.identifier
    have hidentified := (evidenced_later hmoment.reached).identified hstored
    rw [← hdispatch.listed, List.map_map] at hidentified
    have hcurrent : d.authzs.map (identifierOf e.before ∘ Authorization.id) =
        (d.authzs.map Authorization.orderIdentifier).map some := by
      rw [List.map_map]
      refine List.map_congr_left fun a ha => ?_
      simp [identifierOf, hdispatch.current a ha]
    rw [hidentifiers, hnamed]
    exact List.map_injective_iff.mpr (Option.some_injective _)
      (hcurrent.symm.trans hidentified)
  · rw [hauthzs, ← hdispatch.listed, List.forall₂_map_left_iff]
    have hpairs := (List.forall₂_and_left _ _).mpr ⟨hdispatch.current, hevidence⟩
    exact hpairs.imp fun a v ⟨ha, h⟩ => attests_of_evidence hmoment.later ha h

/-- In every reachable state an authorization has at most one valid challenge, and exactly one if it
is valid and was not granted in advance, so the search for it does not fail whatever happens
meanwhile. A dispatched order has one validation for each of its identifiers, in their order, which
says how the authorization of that identifier was obtained. -/
theorem authorizations_have_evidence (s : Server) (schedule : Server.Schedule) :
    let w := s.run schedule
    (∀ aid a cid ch, w.store.authzs.lookup aid = some a → w.store.challenges.lookup cid = some ch →
      (cid ∈ a.challengeIDs ↔ ch.authorizationID = aid)) ∧
    (∀ cid cid' ch ch', w.store.challenges.lookup cid = some ch →
      w.store.challenges.lookup cid' = some ch' → ch.status = .valid → ch'.status = .valid →
      ch.authorizationID = ch'.authorizationID → cid = cid') ∧
    (∀ aid a, w.store.authzs.lookup aid = some a → a.status = .valid → a.preApproved = false →
      ∃! cid, cid ∈ a.challengeIDs ∧
        ∃ ch, w.store.challenges.lookup cid = some ch ∧ ch.status = .valid) ∧
    (∀ aid a, w.store.authzs.lookup aid = some a → a.status = .valid →
      ∀ thread, s.contract.Safe thread (s.validationEvidence a) (fun result _ =>
        result ≠ .error (.text "valid authorization has no successful challenge")) w) ∧
    (∀ id o state, w.store.orders.lookup id = some o → o.issuance = some state →
      state.validations.map Validation.identifier = o.identifiers ∧
        List.Forall₂ (Attests w.store) o.authorizationIDs state.validations) := by
  intro w
  have hlater : s.contract.Later World.initial w := run_progress s [] schedule
  have hinv : Invariant s w := run_invariant s schedule
  have hevidenced := evidenced_later hlater
  refine ⟨fun aid a cid ch => hevidenced.listed, fun cid cid' ch ch' => hevidenced.single, ?_, ?_,
    fun id o state => dispatched_validations hlater hinv⟩
  · intro aid a ha hvalid hasked
    obtain ⟨cid, ch, hch, hproof, howner⟩ := hevidenced.proven ha hvalid hasked
    refine ⟨cid, ⟨(hevidenced.listed ha hch).mpr howner, ch, hch, hproof⟩, ?_⟩
    rintro cid' ⟨hlisted, ch', hch', hproof'⟩
    have howner' := (hevidenced.listed ha hch').mp hlisted
    exact hevidenced.single hch' hch hproof' hproof (howner'.trans howner.symm)
  · exact fun aid a ha hvalid thread => validation_evidence_found hinv hevidenced ha hvalid

end AcmeServer.Guarantee
