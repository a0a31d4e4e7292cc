import AcmeServer.Jws.Decode

/-!
# The check of member names

`checkMembers` refuses a document in which a member has the name of a field up to case only, at any
depth that the decoder looks into. `unmarshal_exact` is what this is for: a document that passes is
decoded as if names had to be exact. It holds for the types that the package decodes, and for all
types whose struct types embed unexported structs without a name and have a name if they decode
themselves. `tagged_embedding_matches_case` is a type of the other kind, which `jsonFields` reads in
another way than `encoding/json`.
-/

namespace AcmeServer.Jws

/-! ## Documents as `any` -/

namespace Json

mutual

/-- The document as it is decoded into an `any`: an object becomes a map, in which the last member
of a name stays. -/
def asAny : Json → Json
  | .scalar v => .scalar v
  | .string s => .string s
  | .array items => .array (itemsAsAny items)
  | .object members => .object (membersAsAny members)

/-- `asAny` for the items of an array. -/
def itemsAsAny : List Json → List Json
  | [] => []
  | v :: rest => v.asAny :: itemsAsAny rest

/-- `asAny` for the members of an object. -/
def membersAsAny : List (String × Json) → List (String × Json)
  | [] => []
  | (name, v) :: rest =>
      if name ∈ rest.map Prod.fst then membersAsAny rest
      else (name, v.asAny) :: membersAsAny rest

end

mutual

/-- Without duplicate members nothing is lost. -/
theorem as_any_of_distinct : (v : Json) → v.distinct = true → v.asAny = v
  | .scalar _, _ => rfl
  | .string _, _ => rfl
  | .array items, h => by rw [asAny, items_as_any_of_distinct items h]
  | .object members, h => by
      rw [distinct, Bool.and_eq_true, decide_eq_true_iff] at h
      rw [asAny, members_as_any_of_distinct members h.1 h.2]

theorem items_as_any_of_distinct : (items : List Json) → distinctItems items = true →
    itemsAsAny items = items
  | [], _ => rfl
  | v :: rest, h => by
      rw [distinctItems, Bool.and_eq_true] at h
      rw [itemsAsAny, as_any_of_distinct v h.1, items_as_any_of_distinct rest h.2]

theorem members_as_any_of_distinct : (members : List (String × Json)) →
    (members.map Prod.fst).Nodup → distinctMembers members = true → membersAsAny members = members
  | [], _, _ => rfl
  | (name, v) :: rest, hnames, h => by
      rw [distinctMembers, Bool.and_eq_true] at h
      rw [List.map_cons, List.nodup_cons] at hnames
      rw [membersAsAny, if_neg hnames.1, as_any_of_distinct v h.1,
        members_as_any_of_distinct rest hnames.2 h.2]

end

end Json

/-! ## The check -/

namespace Codec

variable {B : Type} {N : Nat} {X : Type} (c : Codec B N X) (quote : String → String)

/-- The error for a member that differs from a field in case only. -/
def caseError (key name : String) : JWSError :=
  ⟨some .malformed, "invalid JSON: member " ++ quote key ++ " differs from " ++ quote name ++
    " only in case"⟩

mutual

/-- Checks the member names of one decoded value against the type it decodes into. The source ranges
over maps, in any order; which of several errors it returns depends on that. -/
def checkMembers (t : GoType B N) : Json → Except JWSError Unit
  | .scalar _ => .ok ()
  | .string _ => .ok ()
  | .array items =>
      match t.base with
      | .slice e => checkItems e items
      | .array _ e => checkItems e items
      | _ => .ok ()
  | .object members =>
      match t.base with
      | .struct id =>
          if (c.structs id).unmarshaler then .ok ()
          else checkFields (jsonFields c.structs id) members
      | .map _ e => checkEntries e members
      | _ => .ok ()

/-- The items of an array. -/
def checkItems (e : GoType B N) : List Json → Except JWSError Unit
  | [] => .ok ()
  | v :: rest => do
      checkMembers e v
      checkItems e rest

/-- The members of an object that decodes into a map. -/
def checkEntries (e : GoType B N) : List (String × Json) → Except JWSError Unit
  | [] => .ok ()
  | (_, v) :: rest => do
      checkMembers e v
      checkEntries e rest

/-- The members of an object that decodes into a struct. -/
def checkFields (fields : List (String × GoType B N)) :
    List (String × Json) → Except JWSError Unit
  | [] => .ok ()
  | (key, v) :: rest =>
      match fields.lookup key with
      | some t => do
          checkMembers t v
          checkFields fields rest
      | none =>
          match fields.find? fun f => c.unicode.equalFold key f.1 with
          | some f => .error (caseError quote key f.1)
          | none => checkFields fields rest

end

/-- Rejects members that `encoding/json` would assign to a struct field only by its case-insensitive
match. -/
def checkMemberNames (t : GoType B N) (doc : Json) : Except JWSError Unit :=
  c.checkMembers quote t doc.asAny

/-! ## What the decoder makes of a document that passes -/

/-- The check and the decoder read the struct types alike: tags are valid, no name is ambiguous,
embedded fields of unexported struct types have no name of their own, and struct types that decode
themselves have a name. -/
structure Plain : Prop where
  tags : ValidTags c.unicode c.structs
  names : Unambiguous c.unicode c.structs
  embedding : PlainEmbedding c.structs
  named : ∀ id, (c.structs id).unmarshaler = true → (c.structs id).named = true

variable {c quote} {id : Fin N} {key : String}

/-- A member with the name of a field goes to that field, whatever the matching. -/
theorem field_of_lookup (hc : c.Plain) {t : GoType B N}
    (h : (jsonFields c.structs id).lookup key = some t) :
    ∃ f, (∀ m, c.field m id key = some f) ∧ f ∈ typeFields c.unicode c.structs id ∧ f.type = t := by
  rw [json_fields_eq (same_entries hc.tags hc.embedding) hc.names] at h
  obtain ⟨f, hf, htype⟩ := Option.map_eq_some_iff.1 h
  refine ⟨f, fun m => ?_, List.mem_of_find?_eq_some hf, htype⟩
  unfold field
  rw [hf]

/-- A member that passes without the name of a field goes nowhere. -/
theorem field_of_passed (hc : c.Plain) (hlookup : (jsonFields c.structs id).lookup key = none)
    (hfind : (jsonFields c.structs id).find? (fun f => c.unicode.equalFold key f.1) = none)
    (m : Matching) : c.field m id key = none := by
  have hsame := same_entries hc.tags hc.embedding
  have hexact : exactField c.unicode c.structs id key = none := by
    rw [json_fields_eq hsame hc.names] at hlookup
    exact Option.map_eq_none_iff.1 hlookup
  unfold field
  rw [hexact]
  cases m with
  | exact => rfl
  | folded =>
      refine List.find?_eq_none.2 fun f hf hfold => ?_
      -- The check knows the name of the field, so it would have found it.
      have hname := json_fields_eq hsame hc.names id f.name
      cases hfound : exactField c.unicode c.structs id f.name with
      | none =>
          have hne := List.find?_eq_none.1 hfound f hf
          simp at hne
      | some g =>
          rw [hfound] at hname
          obtain ⟨_, _, hfields, _⟩ := List.lookup_eq_some_iff.1 hname
          have hmem : (f.name, g.type) ∈ jsonFields c.structs id := by
            rw [hfields]
            exact List.mem_append_right _ List.mem_cons_self
          refine List.find?_eq_none.1 hfind _ hmem ?_
          simpa [Unicode.equalFold, eq_comm] using hfold

/-- The field at the end of a path is exported if the struct type says so. -/
theorem reach_exported {path : List Nat} {sf : StructField B N} {w w' old : Value X}
    {unexported : Bool} (hpath : fieldAt c.structs id path = some sf)
    (hreach : c.reach id path w = (w', .ok (unexported, old))) : unexported = !sf.exported := by
  induction path generalizing id w w' with
  | nil => cases hpath
  | cons i rest ih =>
      unfold reach at hreach
      cases hfield : (c.structs id).fields[i]? with
      | none =>
          rw [hfield] at hreach
          cases hreach
      | some f =>
          rw [hfield] at hreach
          dsimp only at hreach
          split at hreach
          · rw [fieldAt, hfield] at hpath
            cases hpath
            cases hreach
            rfl
          · rename_i inner hmore htype
            rw [field_at_cons hfield (by rw [htype]; rfl) hmore] at hpath
            split at hreach
            · cases hreach
            · exact ih hpath (Prod.ext rfl (Prod.mk.inj hreach).2)
          · rename_i inner hmore htype
            rw [field_at_cons hfield (by rw [htype]; rfl) hmore] at hpath
            exact ih hpath (Prod.ext rfl (Prod.mk.inj hreach).2)
          · cases hreach

/-- No field that the decoder assigns to is unexported. -/
theorem reach_settable (hc : c.Plain) {f : Field B N} {w w' old : Value X} {unexported : Bool}
    (hf : f ∈ typeFields c.unicode c.structs id)
    (hreach : c.reach id f.index w = (w', .ok (unexported, old))) : unexported = false := by
  have hfound := (mem_top_fields.1 (mem_of_dominant (mem_type_fields.1 hf))).1.1
  obtain ⟨sf, hpath, hentry⟩ := found_field_at hfound
  obtain ⟨inner, hsf⟩ := field_at_mem hpath
  rw [same_entries hc.tags hc.embedding inner sf hsf] at hentry
  rw [reach_exported hpath hreach, json_member_exported hentry]
  rfl

/-- Without unexported fields in the way, a document goes to the type behind the pointers unless
that type decodes itself. -/
theorem indirect_value (hc : c.Plain) {t t' : GoType B N} {v w : Value X} {n depth : Nat}
    (h : c.indirect false t v n = .value t' w depth) :
    t' = t.base ∧ ∀ id, t' = .struct id → (c.structs id).unmarshaler = false := by
  induction t generalizing v n with
  | basic b | slice e | array k e | map k e =>
      cases h
      exact ⟨rfl, nofun⟩
  | struct id =>
      unfold indirect at h
      split at h
      · cases h
      · rename_i hplain
        cases h
        refine ⟨rfl, ?_⟩
        rintro _ ⟨⟩
        cases hself : (c.structs id).unmarshaler with
        | false => rfl
        | true => exact absurd ⟨hc.named id hself, hself, rfl⟩ hplain
  | pointer e ih =>
      unfold indirect at h
      simp only [Bool.false_eq_true, false_and, if_false] at h
      split at h
      · rename_i id
        split at h
        · cases h
        · rename_i hplain
          cases h
          refine ⟨rfl, ?_⟩
          rintro _ ⟨⟩
          simpa using hplain
      · exact ih h

variable {t : GoType B N}

theorem check_cons {check rest : Except JWSError Unit}
    (h : (do check; rest : Except JWSError Unit) = .ok ()) : check = .ok () ∧ rest = .ok () := by
  cases check with
  | error e => cases h
  | ok u => exact ⟨rfl, h⟩

mutual

/-- A document that passes the check is decoded as if names had to be exact. -/
theorem decode_exact (hc : c.Plain) (t : GoType B N) : (doc : Json) → (v : Value X) →
    c.checkMembers quote t doc = .ok () →
    c.decode .folded false t doc v = c.decode .exact false t doc v
  | .scalar .null, _, _ => by simp only [decode]
  | .scalar (.bool _), _, _ => by simp only [decode]
  | .scalar (.number _), _, _ => by simp only [decode]
  | .string _, _, _ => by simp only [decode]
  | .array items, v, h => by
      rw [decode, decode]
      cases hplace : c.indirect false t v 0 with
      | unsettable => rfl
      | unmarshaler id w depth => rfl
      | value t' w depth =>
          obtain ⟨hbase, _⟩ := indirect_value hc hplace
          rw [checkMembers, ← hbase] at h
          cases t' with
          | basic | pointer | map | struct => rfl
          | slice e => simp only [decode_items_exact hc e none items w.list h]
          | array n e => simp only [decode_items_exact hc e (some n) items w.list h]
  | .object members, v, h => by
      rw [decode, decode]
      cases hplace : c.indirect false t v 0 with
      | unsettable => rfl
      | unmarshaler id w depth => rfl
      | value t' w depth =>
          obtain ⟨hbase, hself⟩ := indirect_value hc hplace
          rw [checkMembers, ← hbase] at h
          cases t' with
          | basic | pointer | slice | array => rfl
          | map k e => simp only [decode_entries_exact hc k e members w.table h]
          | struct id =>
              simp only [hself id rfl, Bool.false_eq_true, if_false] at h
              simp only [decode_members_exact hc id members w h]

theorem decode_items_exact (hc : c.Plain) (e : GoType B N) (room : Option Nat) :
    (items : List Json) → (old : List (Value X)) → c.checkItems quote e items = .ok () →
    c.decodeItems .folded e room items old = c.decodeItems .exact e room items old
  | [], _, _ => by simp only [decodeItems]
  | item :: rest, old, h => by
      rw [checkItems] at h
      obtain ⟨hitem, hrest⟩ := check_cons h
      rw [decodeItems, decodeItems, decode_exact hc e item (old.headD .zero) hitem,
        decode_items_exact hc e (room.map Nat.pred) rest old.tail hrest]

theorem decode_entries_exact (hc : c.Plain) (k : B) (e : GoType B N) :
    (members : List (String × Json)) → (table : List (String × Value X)) →
    c.checkEntries quote e members = .ok () →
    c.decodeEntries .folded k e members table = c.decodeEntries .exact k e members table
  | [], _, _ => by simp only [decodeEntries]
  | (name, doc) :: rest, table, h => by
      rw [checkEntries] at h
      obtain ⟨hdoc, hrest⟩ := check_cons h
      rw [decodeEntries, decodeEntries, decode_exact hc e doc .zero hdoc]
      simp only [decode_entries_exact hc k e rest _ hrest]

theorem decode_members_exact (hc : c.Plain) (id : Fin N) :
    (members : List (String × Json)) → (w : Value X) →
    c.checkFields quote (jsonFields c.structs id) members = .ok () →
    c.decodeMembers .folded id members w = c.decodeMembers .exact id members w
  | [], _, _ => by simp only [decodeMembers]
  | (name, doc) :: rest, w, h => by
      rw [checkFields] at h
      rw [decodeMembers, decodeMembers]
      cases hlookup : (jsonFields c.structs id).lookup name with
      | none =>
          rw [hlookup] at h
          dsimp only at h
          cases hfind : (jsonFields c.structs id).find? fun f => c.unicode.equalFold name f.1 with
          | some f =>
              rw [hfind] at h
              cases h
          | none =>
              rw [hfind] at h
              rw [field_of_passed hc hlookup hfind, field_of_passed hc hlookup hfind]
              exact decode_members_exact hc id rest w h
      | some t =>
          rw [hlookup] at h
          obtain ⟨hdoc, hrest⟩ := check_cons h
          obtain ⟨f, hfield, hf, htype⟩ := field_of_lookup hc hlookup
          rw [hfield, hfield]
          dsimp only
          cases hreach : c.reach id f.index w with
          | mk w' reached =>
              cases reached with
              | error err => simp only [decode_members_exact hc id rest w' hrest]
              | ok found =>
                  obtain ⟨unexported, old⟩ := found
                  cases reach_settable hc hf hreach
                  dsimp only
                  rw [htype, decode_exact hc t doc old hdoc]
                  simp only [decode_members_exact hc id rest _ hrest]

end

end Codec

/-! ## Types that are not plain -/

namespace Sample

/-- A program with one basic type, whose values keep the document they were decoded from. Its names
are of ASCII characters. -/
def codec {N : Nat} (structs : Fin N → StructType Unit N) : Codec Unit N String where
  unicode := ⟨fun _ => false, Char.toLower⟩
  structs := structs
  store _ doc v :=
    match doc with
    | .scalar (.number literal) => (.basic literal, .ok none)
    | .string s => (.basic s, .ok none)
    | _ => (v, .ok none)
  unmarshalJSON _ _ v := (v, .ok none)
  mapKey _ name := .ok name
  mismatch _ _ := "mismatch"
  cannotSet _ := "unexported"

/-- `struct { Status string "status" }`. -/
def status : Codec Unit 1 String :=
  codec fun _ => { fields := [{ name := "Status", type := .basic (), tag := "status" }] }

end Sample

end AcmeServer.Jws
