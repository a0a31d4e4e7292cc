import AcmeServer.Conduct.Handlers
import AcmeServer.Memstore.Index
import AcmeServer.Name.Identifier
import AcmeServer.Safety.NewOrder

/-!
# The scopes of the authorizations of an order

An authorization is stored without the wildcard prefix of its identifier. The prefix comes back in
three places: `orderIdentifier`, the index of the store, and the evidence that is given to the host
at issuance. `authorizations_recover_identifiers` says that all three give back the identifier that
was ordered. This rests on what normalization returns: only a DNS name can have the prefix, and
what is left without it is a normalized name of its own.
-/

namespace AcmeServer

open Interaction Memstore Attempt

variable {s : Server} {order : Order}

/-- An authorization is for an identifier of an order. -/
structure BuiltFor (order : Order) (id : Identifier) (a : Authorization) : Prop where
  account : a.accountID = order.accountID
  identifier : a.identifier =
    if id.isWildcard then { id with value := (cutPrefix id.value "*.").getD id.value } else id
  wildcard : a.wildcard = id.isWildcard

theorem build_authorization_built (preApproved : Finset Identifier) (id : Identifier) :
    (s.buildAuthorization order preApproved id).Returns fun built =>
      BuiltFor order id built.1 := by
  refine returns_seq fun authzID => ?_
  cases authzID with
  | none => exact returns_throw
  | some authzID =>
      dsimp only
      split
      · exact returns_pure ⟨rfl, rfl, rfl⟩
      · exact returns_seq fun challenges => returns_pure ⟨rfl, rfl, rfl⟩

theorem build_authorization_list_built (preApproved : Finset Identifier) (ids : List Identifier) :
    (s.buildAuthorizationList order preApproved ids).Returns fun built =>
      List.Forall₂ (BuiltFor order) ids built.1 := by
  induction ids with
  | nil => exact returns_pure .nil
  | cons id rest ih =>
      refine returns_bind (Returns.weaken (build_authorization_built preApproved id) ?_)
      intro built hbuilt
      refine returns_bind (Returns.weaken ih fun others hothers => ?_)
      exact returns_pure (.cons hbuilt hothers)

/-- The authorizations of an order are for its identifiers, one for each in their order. -/
theorem build_authorizations_built (order : Order) (preApproved : Finset Identifier) :
    (s.buildAuthorizations order preApproved).Returns fun new =>
      List.Forall₂ (BuiltFor order) order.identifiers new.authzs :=
  returns_bind (Returns.weaken (build_authorization_list_built preApproved _)
    fun _ hbuilt => returns_pure hbuilt)

theorem successful_challenge_identifier (v : Validation) (ids : List String) :
    (Server.successfulChallenge v ids).Returns fun result =>
      ∀ evidence, result = .ok evidence → evidence.identifier = v.identifier := by
  induction ids with
  | nil =>
      intro evidence h
      cases h
  | cons id rest ih =>
      refine Program.returns_seq fun found => ?_
      cases found with
      | error err =>
          intro evidence h
          cases h
      | ok ch =>
          dsimp only
          split
          · intro evidence h
            cases h
            rfl
          · exact ih

/-- The evidence of an authorization is for its identifier. -/
theorem validation_evidence_identifier (s : Server) (a : Authorization) :
    (s.validationEvidence a).Returns fun result =>
      ∀ evidence, result = .ok evidence → evidence.identifier = a.orderIdentifier := by
  unfold Server.validationEvidence
  extract_lets v
  split
  · rintro evidence h
    cases h
    rfl
  · exact successful_challenge_identifier v _

theorem index_key_identifier (a : Authorization) :
    authorizationIndexKey a = ⟨a.accountID, a.orderIdentifier⟩ := rfl

/-- An authorization recovers the identifier it was built for, wherever the wildcard prefix is
restored, and is stored for an identifier that is in normal form and has no prefix itself. -/
structure Recovers (s : Server) (p : Name.Platform) (order : Order) (id : Identifier)
    (a : Authorization) : Prop where
  orderIdentifier : a.orderIdentifier = id
  indexKey : authorizationIndexKey a = ⟨order.accountID, id⟩
  /-- The evidence is also right for the authorization as it is stored later. -/
  evidence : ∀ later : Authorization, later.identifier = a.identifier →
    later.wildcard = a.wildcard → (s.validationEvidence later).Returns fun result =>
      ∀ v, result = .ok v → v.identifier = id
  wildcard : a.wildcard = true ↔ id.type = .dns ∧ ∃ rest, id.value = "*." ++ rest
  normalized : p.normalize a.identifier = .ok a.identifier
  plain : a.identifier.isWildcard = false

theorem wildcard_iff {id : Identifier} :
    id.isWildcard = true ↔ id.type = .dns ∧ ∃ rest, id.value = "*." ++ rest := by
  rw [Identifier.isWildcard, Bool.and_eq_true, beq_iff_eq]
  refine and_congr_right fun _ => ?_
  constructor
  · intro hlead
    exact ⟨_, (cut_prefix_restored hlead).symm⟩
  · rintro ⟨rest, hrest⟩
    rw [hrest, String.toList_append]
    exact List.isPrefixOf_iff_prefix.2 (List.prefix_append _ _)

/-- The identifier that an authorization is stored with is a normalized one without a wildcard. -/
theorem base_normalized {p : Name.Platform} {requested id : Identifier}
    (h : p.normalize requested = .ok id) (htype : id.type ≠ .uri) (base : Identifier)
    (hbase : base =
      if id.isWildcard then { id with value := (cutPrefix id.value "*.").getD id.value } else id) :
    p.normalize base = .ok base ∧ base.isWildcard = false := by
  have hself : p.normalize id = .ok id := Name.Platform.normalize_normalized h htype
  by_cases hwild : id.isWildcard = true
  · obtain ⟨hdns, rest, hrest⟩ := wildcard_iff.1 hwild
    obtain ⟨type, value⟩ := id
    obtain rfl : type = .dns := hdns
    obtain rfl : value = "*." ++ rest := hrest
    have hcut : (cutPrefix ("*." ++ rest) "*.").getD ("*." ++ rest) = rest := by
      have hlead := (Bool.and_eq_true_iff.mp hwild).2
      exact (String.append_right_inj "*.").1 (cut_prefix_restored hlead)
    rw [if_pos hwild, hcut] at hbase
    have hname : ("*." ++ rest).toList = '*' :: '.' :: rest.toList := String.toList_append
    have hdns : p.normalizeDNS ("*." ++ rest) = .ok ⟨.dns, "*." ++ rest⟩ := hself
    obtain ⟨hnormal, hstar⟩ := Name.Platform.normalize_dns_base hdns hname
    rw [String.ofList_toList] at hnormal
    subst hbase
    refine ⟨hnormal, Bool.eq_false_iff.2 fun hagain => hstar ?_⟩
    obtain ⟨-, rest', rfl⟩ := wildcard_iff.1 hagain
    rw [String.toList_append]
    exact List.mem_cons_self
  · rw [if_neg hwild] at hbase
    subst hbase
    exact ⟨hself, Bool.not_eq_true _ ▸ hwild⟩

/-- What an order makes of a normalized identifier recovers it. -/
theorem BuiltFor.recovers {p : Name.Platform} {requested id : Identifier} {a : Authorization}
    (hnormal : p.normalize requested = .ok id) (htype : id.type ≠ .uri)
    (h : BuiltFor order id a) : Recovers s p order id a := by
  have hid : a.orderIdentifier = id := Safety.order_identifier_eq h.identifier h.wildcard
  obtain ⟨hbase, hplain⟩ := base_normalized hnormal htype a.identifier h.identifier
  refine ⟨hid, ?_, fun later hidentifier hwildcard => ?_, ?_, hbase, hplain⟩
  · rw [index_key_identifier, h.account, hid]
  · have hlater : later.orderIdentifier = id :=
      Safety.order_identifier_eq (hidentifier.trans h.identifier) (hwildcard.trans h.wildcard)
    exact hlater ▸ validation_evidence_identifier s later
  · rw [h.wildcard, wildcard_iff]

/-- Authorizations that recover distinct identifiers are not found under one key, and so do not
have one scope. -/
theorem recovered_apart {p : Name.Platform} {ids : List Identifier} {authzs : List Authorization}
    (h : List.Forall₂ (Recovers s p order) ids authzs) (hnodup : ids.Nodup) :
    authzs.Pairwise fun a b =>
      ¬SameScope a b ∧ authorizationIndexKey a ≠ authorizationIndexKey b := by
  have hkeys :
      authzs.map authorizationIndexKey = ids.map (AuthorizationKey.mk order.accountID) := by
    clear hnodup
    induction h with
    | nil => rfl
    | cons ha _ ih => rw [List.map_cons, List.map_cons, ha.indexKey, ih]
  have hdistinct : (authzs.map authorizationIndexKey).Nodup := by
    rw [hkeys]
    exact hnodup.map fun _ _ heq => (AuthorizationKey.mk.inj heq).2
  exact (List.pairwise_map.1 hdistinct).imp fun hkey =>
    ⟨fun hsame => hkey (index_key_eq hsame).symm, hkey⟩

/-- The authorizations of an order recover its identifiers one by one, as the order names them, in
the index of the store and in the evidence for issuance, and no two of them have the same scope. -/
theorem authorizations_recover_identifiers (s : Server) (p : Name.Platform)
    (hnormalize : s.normalize = p.normalize) {requested ids : List Identifier}
    (hids : s.normalizeIdentifiers requested = .ok ids)
    (htypes : ∀ id ∈ ids, id.type ∈ [.dns, .ip, .tnAuthList, .nfInstanceID])
    (order : Order) (horder : order.identifiers = ids) (preApproved : Finset Identifier) :
    (s.buildAuthorizations order preApproved).Returns fun new =>
      List.Forall₂ (Recovers s p order) ids new.authzs ∧
        new.authzs.Pairwise fun a b =>
          ¬SameScope a b ∧ authorizationIndexKey a ≠ authorizationIndexKey b := by
  obtain ⟨hresults, hnodup⟩ := Fallible.distinct_eq_ok.1 hids
  refine Returns.weaken (build_authorizations_built order preApproved) fun new hbuilt => ?_
  rw [horder] at hbuilt
  have hrecovers : List.Forall₂ (Recovers s p order) ids new.authzs := by
    refine List.forall₂_iff_get.2 ⟨hbuilt.length_eq, fun i hi hi' => ?_⟩
    have hmem : ids.get ⟨i, hi⟩ ∈ ids := List.get_mem ids _
    obtain ⟨ordered, -, hnormal⟩ := hresults.mem_iff.1 hmem
    rw [hnormalize] at hnormal
    refine (hbuilt.get hi hi').recovers hnormal fun huri => ?_
    have htype := htypes _ hmem
    rw [huri] at htype
    revert htype
    decide
  exact ⟨hrecovers, recovered_apart hrecovers hnodup⟩

/-- An order for a name and its wildcard has an authorization for each, stored for the same name. -/
theorem wildcard_and_base_recovered :
    let s : Server := { Sample.server with normalize := Name.Sample.platform.normalize }
    let ids : List Identifier := [⟨.dns, "acme.test"⟩, ⟨.dns, "*.acme.test"⟩]
    let order : Order := {
      id := "order", accountID := "alice", status := .pending, expires := 11, identifiers := ids
      createdAt := 1 }
    s.normalizeIdentifiers [⟨.dns, "ACME.test"⟩, ⟨.dns, "*.acme.TEST"⟩] = .ok ids ∧
      (s.buildAuthorizations order ∅).Returns fun new =>
        List.Forall₂ (Recovers s Name.Sample.platform order) ids new.authzs ∧
          new.authzs.Pairwise fun a b =>
            ¬SameScope a b ∧ authorizationIndexKey a ≠ authorizationIndexKey b := by
  intro s ids order
  have hids : s.normalizeIdentifiers [⟨.dns, "ACME.test"⟩, ⟨.dns, "*.acme.TEST"⟩] = .ok ids := by
    decide +kernel
  exact ⟨hids, authorizations_recover_identifiers s Name.Sample.platform rfl hids (by decide) order
    rfl ∅⟩

end AcmeServer
