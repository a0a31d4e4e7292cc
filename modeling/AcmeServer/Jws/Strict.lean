import AcmeServer.Jws.Members
import AcmeServer.Jws.Text

/-!
# `UnmarshalStrict` and the types it decodes

The three struct types of the package are plain and flat: the member names are checked against the
names the decoder uses, and every member goes to a field of the struct itself. So a document that
`UnmarshalStrict` accepts sets each field to what the member of its exact name is decoded into
(`unmarshal_strict_object`).
-/

namespace AcmeServer.Jws

/-- The types of the fields: strings, and raw JSON, which keeps the document. -/
inductive BasicType where
  | string
  | rawMessage
deriving DecidableEq, Repr

/-- What a field holds. -/
inductive Content where
  | string (s : String)
  | raw (doc : Json)

namespace Value

/-- A string. -/
def text : Value Content → String
  | .basic (.string s) => s
  | _ => ""

/-- A pointer to a string. -/
def stringPointer : Value Content → Option String
  | .pointer v => some v.text
  | _ => none

/-- Raw JSON. -/
def rawMessage : Value Content → Option Json
  | .basic (.raw doc) => some doc
  | _ => none

/-- A pointer to raw JSON. -/
def rawPointer : Value Content → Option Json
  | .pointer v => v.rawMessage
  | _ => none

end Value

/-- A field with a `json` tag. -/
def taggedField (name : String) (type : GoType BasicType 3) (tag : String) :
    StructField BasicType 3 :=
  { name, type, tag }

/-- The flattened JWS JSON serialization plus the members that must be absent. -/
def envelopeJSON : StructType BasicType 3 where
  fields :=
    [taggedField "Protected" (.pointer (.basic .string)) "protected",
      taggedField "Payload" (.pointer (.basic .string)) "payload",
      taggedField "Signature" (.pointer (.basic .string)) "signature",
      taggedField "Header" (.basic .rawMessage) "header",
      taggedField "Signatures" (.basic .rawMessage) "signatures"]

/-- The protected header with the parameters ACME requires or forbids. -/
def headerJSON : StructType BasicType 3 where
  fields :=
    [taggedField "Alg" (.pointer (.basic .string)) "alg",
      taggedField "Nonce" (.pointer (.basic .string)) "nonce",
      taggedField "URL" (.pointer (.basic .string)) "url",
      taggedField "KID" (.pointer (.basic .string)) "kid",
      taggedField "JWK" (.basic .rawMessage) "jwk",
      taggedField "Crit" (.basic .rawMessage) "crit",
      taggedField "B64" (.basic .rawMessage) "b64"]

/-- The members of a key that decide whether it is acceptable. -/
def jwkJSON : StructType BasicType 3 where
  fields :=
    [taggedField "Kty" (.basic .string) "kty",
      taggedField "Crv" (.basic .string) "crv",
      taggedField "X" (.basic .string) "x",
      taggedField "Y" (.basic .string) "y",
      taggedField "N" (.basic .string) "n",
      taggedField "E" (.basic .string) "e",
      taggedField "D" (.pointer (.basic .rawMessage)) "d",
      taggedField "P" (.pointer (.basic .rawMessage)) "p",
      taggedField "Q" (.pointer (.basic .rawMessage)) "q",
      taggedField "DP" (.pointer (.basic .rawMessage)) "dp",
      taggedField "DQ" (.pointer (.basic .rawMessage)) "dq",
      taggedField "QI" (.pointer (.basic .rawMessage)) "qi",
      taggedField "Oth" (.pointer (.basic .rawMessage)) "oth",
      taggedField "K" (.pointer (.basic .rawMessage)) "k"]

/-- The struct types by their number. -/
def jwsStructs : Fin 3 → StructType BasicType 3
  | 0 => envelopeJSON
  | 1 => headerJSON
  | 2 => jwkJSON

/-- What the package uses of the language's library beyond ASCII: the classes of characters, and the
texts of the errors for a member of the wrong kind and for a point that is not on its curve. -/
structure Library where
  unicode : Unicode
  isPrint : Char → Bool
  typeError : GoType BasicType 3 → Json → String
  pointError : String

namespace Library

variable (lib : Library)

/-- The `%q` verb. -/
def quote : String → String := Text.quote lib.isPrint

/-- Stores a document in a field. -/
def store (b : BasicType) (doc : Json) (v : Value Content) : Value Content × Report :=
  match b, doc with
  | .rawMessage, doc => (.basic (.raw doc), .ok none)
  | .string, .string s => (.basic (.string s), .ok none)
  | .string, .scalar .null => (v, .ok none)
  | .string, doc => (v, .ok (some (lib.typeError (.basic .string) doc)))

/-- The decoder for the types of the package, none of which decodes itself as a struct. -/
def codec : Codec BasicType 3 Content where
  unicode := lib.unicode
  structs := jwsStructs
  store := lib.store
  unmarshalJSON _ _ v := (v, .ok none)
  mapKey _ name := .ok name
  mismatch := lib.typeError
  cannotSet _ := "json: cannot set embedded pointer to unexported struct"

/-- Decodes a document and rejects duplicate members, nesting beyond `MaxDepth`, trailing content
and member names that match a struct field only when case is ignored. -/
def unmarshalStrict (id : Fin 3) (doc : Document) : Except Stop (Value Content) := do
  checkJSON lib.quote doc.stream
  match doc.value with
  | none => Walk.malformed Text.unexpectedEOF
  | some v =>
      match lib.codec.checkMemberNames lib.quote (.struct id) v with
      | .error err => .error (.refused err)
      | .ok () =>
          match lib.codec.unmarshal .folded (.struct id) v .zero with
          | (w, .ok none) => .ok w
          | (_, .ok (some err)) => Walk.malformed err
          | (_, .error err) => Walk.malformed err

end Library

/-! ## The types are plain and flat -/

theorem jws_tagged (u : Unicode) (id : Fin 3) : Tagged u (jwsStructs id) := by
  match id with
  | 0 =>
      refine ⟨?_, by decide +kernel⟩
      simp only [jwsStructs, envelopeJSON, List.forall_mem_cons]
      exact ⟨rfl, rfl, rfl, rfl, rfl, List.forall_mem_nil _⟩
  | 1 =>
      refine ⟨?_, by decide +kernel⟩
      simp only [jwsStructs, headerJSON, List.forall_mem_cons]
      exact ⟨rfl, rfl, rfl, rfl, rfl, rfl, rfl, List.forall_mem_nil _⟩
  | 2 =>
      refine ⟨?_, by decide +kernel⟩
      simp only [jwsStructs, jwkJSON, List.forall_mem_cons]
      exact ⟨rfl, rfl, rfl, rfl, rfl, rfl, rfl, rfl, rfl, rfl, rfl, rfl, rfl, rfl,
        List.forall_mem_nil _⟩

theorem jws_exported : ∀ id, ∀ f ∈ (jwsStructs id).fields,
    f.exported = true ∧ f.anonymous = false := by
  decide +kernel

theorem jws_not_unmarshaler : ∀ id, (jwsStructs id).unmarshaler = false := by decide

namespace Library

variable (lib : Library)

theorem codec_flat (id : Fin 3) : lib.codec.Flat id :=
  Codec.flat_of_tagged (jws_tagged lib.unicode id) fun f hf => (jws_exported id f hf).1

theorem codec_plain : lib.codec.Plain where
  tags id := (jws_tagged lib.unicode id).valid
  names := unambiguous_of_nodup fun id => found_names_tagged (jws_tagged lib.unicode id)
  embedding id f hf hanonymous := by
    rw [(jws_exported id f hf).2] at hanonymous
    cases hanonymous
  named id hself := by
    rw [show (lib.codec.structs id).unmarshaler = false from jws_not_unmarshaler id] at hself
    cases hself

/-! ## What an accepted document sets -/

variable {lib} {id : Fin 3} {w : Value Content} {members : List (String × Json)}

/-- A document is accepted if it is well formed, its member names pass and exact matching decodes
it. -/
theorem unmarshal_strict_ok {doc : Json} :
    lib.unmarshalStrict id (.ofJson doc) = .ok w ↔
      (doc.distinct = true ∧ doc.depth ≤ 32) ∧
      lib.codec.checkMemberNames lib.quote (.struct id) doc = .ok () ∧
      lib.codec.decode .exact false (.struct id) doc .zero = (w, .ok none) := by
  have hunmarshal : ∀ m, lib.codec.unmarshal m (.struct id) doc .zero =
      lib.codec.decode m false (.struct id) doc .zero := by
    intro m
    rw [Codec.unmarshal, if_neg]
    rw [show (lib.codec.structs id).unmarshaler = false from jws_not_unmarshaler id]
    exact Bool.false_ne_true
  unfold unmarshalStrict
  rw [Fallible.bind_eq_ok]
  simp only [Document.ofJson, hunmarshal]
  rw [Unique.exists_iff, show (default : Unit) = () from rfl, check_value_ok]
  refine and_congr_right fun hformed => ?_
  cases hnames : lib.codec.checkMemberNames lib.quote (.struct id) doc with
  | error err => simp
  | ok passed =>
      have hexact : lib.codec.decode .folded false (.struct id) doc .zero =
          lib.codec.decode .exact false (.struct id) doc .zero := by
        have hchecked := hnames
        rw [Codec.checkMemberNames, Json.as_any_of_distinct doc hformed.1] at hchecked
        exact Codec.decode_exact lib.codec_plain (.struct id) doc .zero hchecked
      dsimp only
      rw [hexact]
      rcases lib.codec.decode .exact false (.struct id) doc .zero with ⟨_, _ | _ | _⟩ <;>
        simp [Walk.malformed]

/-- Bytes that are accepted are the text of a document. -/
theorem unmarshal_strict_read {data : Bytes}
    (h : lib.unmarshalStrict id (.read lib.quote data) = .ok w) :
    ∃ doc, Document.read lib.quote data = .ofJson doc := by
  cases hvalue : (Document.read lib.quote data).value with
  | some doc => exact ⟨doc, Document.read_eq_of_json hvalue⟩
  | none =>
      obtain ⟨_, _, hdecode⟩ := Fallible.bind_eq_ok.1 h
      rw [hvalue] at hdecode
      cases hdecode

/-- An accepted document is an object, or null, which sets nothing. -/
theorem unmarshal_strict_document {doc : Json}
    (h : lib.unmarshalStrict id (.ofJson doc) = .ok w) :
    (∃ members, doc = .object members) ∨ doc = .scalar .null ∧ w = .zero := by
  have hdecode := (unmarshal_strict_ok.1 h).2.2
  have hself : (lib.codec.structs id).unmarshaler = false := jws_not_unmarshaler id
  rcases doc with (_ | _ | _) | _ | _ | members
  case object => exact .inl ⟨members, rfl⟩
  case scalar.null =>
    simp only [Codec.decode, Codec.storeNull, hself, Bool.false_eq_true, false_and, and_false,
      if_false] at hdecode
    cases hdecode
    exact .inr ⟨rfl, rfl⟩
  all_goals simp [Codec.decode, Codec.indirect, hself, Codec.finish] at hdecode

theorem jws_json_fields : ∀ id, ∀ sf ∈ (jwsStructs id).fields,
    (jsonFields jwsStructs id).lookup sf.tag = some sf.type := by
  decide +kernel

/-- The fields of the struct types hold strings and raw JSON, or pointers to them. -/
def isLeaf : GoType BasicType 3 → Bool
  | .basic _ => true
  | .pointer (.basic _) => true
  | _ => false

theorem leaf_cases {t : GoType BasicType 3} (h : isLeaf t = true) :
    ∃ b, t = .basic b ∨ t = .pointer (.basic b) := by
  unfold isLeaf at h
  split at h
  · exact ⟨_, .inl rfl⟩
  · exact ⟨_, .inr rfl⟩
  · cases h

theorem jws_leaf : ∀ id, ∀ sf ∈ (jwsStructs id).fields, isLeaf sf.type = true := by
  decide +kernel

/-- Nothing is checked inside of a field. -/
theorem check_leaf {quote : String → String} {t : GoType BasicType 3} (h : isLeaf t = true)
    (doc : Json) : lib.codec.checkMembers quote t doc = .ok () := by
  obtain ⟨b, rfl | rfl⟩ := leaf_cases h <;>
    cases doc <;> simp [Codec.checkMembers, GoType.base]

/-- An object decodes into a struct member by member. -/
theorem decode_object : lib.codec.decode .exact false (.struct id) (.object members) .zero =
    lib.codec.decodeMembers .exact id members .zero :=
  Codec.decode_struct (jws_not_unmarshaler id) members .zero

/-- A field has what the member of its name decodes into. -/
theorem unmarshal_strict_field
    (h : lib.unmarshalStrict id (.ofJson (.object members)) = .ok w) {i : Nat}
    {sf : StructField BasicType 3} (hsf : (jwsStructs id).fields[i]? = some sf) :
    match members.lookup sf.tag with
    | none => w.field i = .zero
    | some doc => lib.codec.decode .exact false sf.type doc .zero = (w.field i, .ok none) := by
  obtain ⟨⟨hdistinct, -⟩, -, hdecode⟩ := unmarshal_strict_ok.1 h
  rw [Json.distinct, Bool.and_eq_true, decide_eq_true_iff] at hdistinct
  have hmem : StructField.own (sf, i) ∈ typeFields lib.codec.unicode lib.codec.structs id :=
    (mem_type_fields_tagged (jws_tagged lib.unicode id)).2 ⟨i, sf, hsf, rfl⟩
  rw [decode_object] at hdecode
  have hreport : (lib.codec.decodeMembers .exact id members .zero).2 = .ok none := by rw [hdecode]
  obtain ⟨hok, hfields⟩ := Codec.decode_members_flat (lib.codec_flat id) hdistinct.1
    (fun _ _ => Codec.field_exact _) .zero
  have hfield := hfields hreport _ hmem
  rw [hdecode] at hfield
  cases hlookup : members.lookup sf.tag with
  | none =>
      rw [show (StructField.own (sf, i)).name = sf.tag from rfl, hlookup] at hfield
      exact hfield
  | some doc =>
      rw [show (StructField.own (sf, i)).name = sf.tag from rfl, hlookup] at hfield
      have hmember : (sf.tag, doc) ∈ members := mem_of_lookup hlookup
      exact Prod.ext hfield.symm (hok.1 hreport _ hmember _ (exact_field_of_mem hmem))

/-- The members of an accepted object are found by their names. -/
theorem unmarshal_strict_lookup
    (h : lib.unmarshalStrict id (.ofJson (.object members)) = .ok w) {name : String} {doc : Json}
    (hmem : (name, doc) ∈ members) : members.lookup name = some doc := by
  have hdistinct := (unmarshal_strict_ok.1 h).1.1
  rw [Json.distinct, Bool.and_eq_true, decide_eq_true_iff] at hdistinct
  exact lookup_of_mem hdistinct.1 hmem

/-- A well formed object whose members all have a field and decode is accepted. -/
theorem unmarshal_strict_known (hdistinct : (Json.object members).distinct = true)
    (hdepth : (Json.object members).depth ≤ 32)
    (hknown : ∀ m ∈ members, ∃ sf ∈ (jwsStructs id).fields, sf.tag = m.1 ∧
      (lib.codec.decode .exact false sf.type m.2 .zero).2 = .ok none) :
    ∃ w, lib.unmarshalStrict id (.ofJson (.object members)) = .ok w := by
  have hnames : lib.codec.checkMemberNames lib.quote (.struct id) (.object members) = .ok () := by
    have hfields : ∀ rest, (∀ m ∈ rest, m ∈ members) →
        lib.codec.checkFields lib.quote (jsonFields jwsStructs id) rest = .ok () := by
      intro rest
      induction rest with
      | nil => exact fun _ => rfl
      | cons m more ih =>
          intro hsub
          rw [List.forall_mem_cons] at hsub
          obtain ⟨sf, hsf, htag, -⟩ := hknown m hsub.1
          rw [Codec.checkFields, ← htag, jws_json_fields id sf hsf]
          dsimp only
          rw [check_leaf (jws_leaf id sf hsf), ih hsub.2]
          rfl
    rw [Codec.checkMemberNames, Json.as_any_of_distinct _ hdistinct, Codec.checkMembers]
    simp only [GoType.base]
    rw [show (lib.codec.structs id).unmarshaler = false from jws_not_unmarshaler id]
    exact hfields members fun _ hm => hm
  have hdistinct' := hdistinct
  rw [Json.distinct, Bool.and_eq_true, decide_eq_true_iff] at hdistinct'
  have htagged : Tagged lib.codec.unicode (lib.codec.structs id) := jws_tagged lib.unicode id
  obtain ⟨w, hw, -⟩ := Codec.decode_tagged htagged (fun f hf => (jws_exported id f hf).1)
    hdistinct'.1 hknown
  exact ⟨w, unmarshal_strict_ok.2 ⟨⟨hdistinct, hdepth⟩, hnames, by rw [decode_object, hw]⟩⟩

/-- Strings and null, which no field rejects. -/
def Simple (doc : Json) : Prop := (∃ s, doc = .string s) ∨ doc = .scalar .null

theorem decode_simple {t : GoType BasicType 3} (ht : isLeaf t = true) {doc : Json}
    (h : Simple doc) : (lib.codec.decode .exact false t doc .zero).2 = .ok none := by
  obtain ⟨b, rfl | rfl⟩ := leaf_cases ht <;> obtain ⟨s, rfl⟩ | rfl := h <;> cases b <;> rfl

instance : DecidablePred Simple
  | .string s => .isTrue (.inl ⟨s, rfl⟩)
  | .scalar .null => .isTrue (.inr rfl)
  | .scalar (.bool _) => .isFalse fun h => by rcases h with ⟨_, h⟩ | h <;> cases h
  | .scalar (.number _) => .isFalse fun h => by rcases h with ⟨_, h⟩ | h <;> cases h
  | .array _ => .isFalse fun h => by rcases h with ⟨_, h⟩ | h <;> cases h
  | .object _ => .isFalse fun h => by rcases h with ⟨_, h⟩ | h <;> cases h

/-- An object whose members have a field that takes them is accepted. Raw JSON takes every
document. -/
theorem unmarshal_strict_fits (hdistinct : (Json.object members).distinct = true)
    (hdepth : (Json.object members).depth ≤ 32)
    (hfits : ∀ m ∈ members, ∃ sf ∈ (jwsStructs id).fields, sf.tag = m.1 ∧
      (Simple m.2 ∨ sf.type = .basic .rawMessage)) :
    ∃ w, lib.unmarshalStrict id (.ofJson (.object members)) = .ok w := by
  refine unmarshal_strict_known hdistinct hdepth fun m hm => ?_
  obtain ⟨sf, hsf, htag, hsimple | htype⟩ := hfits m hm
  · exact ⟨sf, hsf, htag, decode_simple (jws_leaf id sf hsf) hsimple⟩
  · refine ⟨sf, hsf, htag, ?_⟩
    rw [htype]
    rcases m with ⟨_, (_ | _ | _) | _ | _ | _⟩ <;> rfl

/-- An object of strings and nulls with the names of fields is accepted. -/
theorem unmarshal_strict_simple (hnames : (members.map Prod.fst).Nodup)
    (hknown : ∀ name ∈ members.map Prod.fst, name ∈ (jwsStructs id).fields.map (·.tag))
    (hsimple : ∀ m ∈ members, Simple m.2) :
    ∃ w, lib.unmarshalStrict id (.ofJson (.object members)) = .ok w := by
  have hshape : Json.distinctMembers members = true ∧ Json.memberDepth members = 0 := by
    clear hnames hknown
    induction members with
    | nil => exact ⟨rfl, rfl⟩
    | cons m rest ih =>
        obtain ⟨name, doc⟩ := m
        rw [List.forall_mem_cons] at hsimple
        obtain ⟨hdistinct, hdepth⟩ := ih hsimple.2
        have hdoc : doc.distinct = true ∧ doc.depth = 0 := by
          obtain ⟨s, rfl⟩ | rfl : Simple doc := hsimple.1
          · exact ⟨rfl, rfl⟩
          · exact ⟨rfl, rfl⟩
        rw [Json.distinctMembers, Json.memberDepth, hdoc.1, hdoc.2, hdistinct, hdepth]
        exact ⟨rfl, rfl⟩
  refine unmarshal_strict_fits ?_ ?_ fun m hm => ?_
  · rw [Json.distinct, hshape.1, decide_eq_true hnames]
    rfl
  · rw [Json.depth, hshape.2]
    decide
  · obtain ⟨sf, hsf, htag⟩ := List.mem_map.1 (hknown m.1 (List.mem_map_of_mem hm))
    exact ⟨sf, hsf, htag, .inl (hsimple m hm)⟩

/-! ## The fields by the members of the object -/

/-- What a string field gets from a member. -/
def textOf : Option Json → String
  | some (.string s) => s
  | _ => ""

/-- What a pointer to a string gets from a member: null leaves it nil. -/
def stringOf : Option Json → Option String
  | some (.string s) => some s
  | _ => none

/-- What a pointer to raw JSON gets from a member: null leaves it nil. -/
def pointerOf : Option Json → Option Json
  | some (.scalar .null) => none
  | doc => doc

section Fields

variable (h : lib.unmarshalStrict id (.ofJson (.object members)) = .ok w) {i : Nat}
  {sf : StructField BasicType 3} (hsf : (jwsStructs id).fields[i]? = some sf)

include h hsf

/-- What is read from a field, given what a document leaves in it. -/
theorem read_field {α : Type} {f : Value Content → α} {g : Option Json → α}
    (hnone : f .zero = g none) (hsome : ∀ doc v,
      lib.codec.decode .exact false sf.type doc .zero = (v, .ok none) → f v = g (some doc)) :
    f (w.field i) = g (members.lookup sf.tag) := by
  have hfield := unmarshal_strict_field h hsf
  cases hlookup : members.lookup sf.tag with
  | none =>
      rw [hlookup] at hfield
      rw [hfield, hnone]
  | some doc =>
      rw [hlookup] at hfield
      exact hsome doc _ hfield

theorem text_field (htype : sf.type = .basic .string) :
    (w.field i).text = textOf (members.lookup sf.tag) := by
  refine read_field h hsf (f := Value.text) rfl fun doc v hdecode => ?_
  rw [htype] at hdecode
  rcases doc with (_ | _ | _) | _ | _ | _ <;> cases hdecode <;> rfl

theorem string_pointer_field (htype : sf.type = .pointer (.basic .string)) :
    (w.field i).stringPointer = stringOf (members.lookup sf.tag) := by
  refine read_field h hsf (f := Value.stringPointer) rfl fun doc v hdecode => ?_
  rw [htype] at hdecode
  rcases doc with (_ | _ | _) | _ | _ | _ <;> cases hdecode <;> rfl

theorem raw_message_field (htype : sf.type = .basic .rawMessage) :
    (w.field i).rawMessage = members.lookup sf.tag := by
  refine read_field h hsf (f := Value.rawMessage) (g := fun doc => doc) rfl fun doc v hdecode => ?_
  rw [htype] at hdecode
  rcases doc with (_ | _ | _) | _ | _ | _ <;> cases hdecode <;> rfl

theorem raw_pointer_field (htype : sf.type = .pointer (.basic .rawMessage)) :
    (w.field i).rawPointer = pointerOf (members.lookup sf.tag) := by
  refine read_field h hsf (f := Value.rawPointer) rfl fun doc v hdecode => ?_
  rw [htype] at hdecode
  rcases doc with (_ | _ | _) | _ | _ | _ <;> cases hdecode <;> rfl

/-- A member leaves a pointer to a string nil only if it is null. -/
theorem string_pointer_nil (htype : sf.type = .pointer (.basic .string)) {doc : Json}
    (hlookup : members.lookup sf.tag = some doc) (hnil : stringOf (some doc) = none) :
    doc = .scalar .null := by
  have hfield := unmarshal_strict_field h hsf
  rw [hlookup, htype] at hfield
  rcases doc with (_ | _ | _) | s | _ | _
  case scalar.null => rfl
  case string => cases hnil
  all_goals cases congrArg Prod.snd hfield

end Fields

end Library

end AcmeServer.Jws
