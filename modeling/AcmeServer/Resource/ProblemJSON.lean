import Mathlib
import AcmeServer.Jws.Decode
import AcmeServer.Server.Order

/-!
# Problem documents as JSON

`MarshalJSON` writes a problem with fully qualified types and flattens its subproblems;
`UnmarshalJSON` reads it back through `encoding/json`, which calls it again for the subproblems.
A document that was written is read as a problem with the same document (`read_back`): what is not
written, such as the status of a subproblem, does not come back, and what comes back is written as
before.

Documents are JSON trees here, with the members in the order in which `encoding/json` writes them.
-/

namespace AcmeServer

open Jws

/-- Prefixes every ACME error type in a problem document. -/
def problemNamespace : String := "urn:ietf:params:acme:error:"

/-! ## Names of types -/

namespace ErrorType

/-- The registered error types. -/
def registered : List ErrorType :=
  [.accountDoesNotExist, .alreadyReplaced, .alreadyRevoked, .badCSR, .badNonce, .badPublicKey,
    .badRevocationReason, .badSignatureAlgorithm, .caa, .compound, .connection, .dns, .dnssec,
    .externalAccountRequired, .incorrectResponse, .invalidContact, .invalidProfile, .malformed,
    .orderNotReady, .rateLimited, .rejectedIdentifier, .serverInternal, .tls, .unauthorized,
    .unsupportedContact, .unsupportedIdentifier, .userActionRequired]

/-- The name of an error type, which is what the type is in the source. -/
def name : ErrorType → String
  | .accountDoesNotExist => "accountDoesNotExist"
  | .alreadyReplaced => "alreadyReplaced"
  | .alreadyRevoked => "alreadyRevoked"
  | .badCSR => "badCSR"
  | .badNonce => "badNonce"
  | .badPublicKey => "badPublicKey"
  | .badRevocationReason => "badRevocationReason"
  | .badSignatureAlgorithm => "badSignatureAlgorithm"
  | .caa => "caa"
  | .compound => "compound"
  | .connection => "connection"
  | .dns => "dns"
  | .dnssec => "dnssec"
  | .externalAccountRequired => "externalAccountRequired"
  | .incorrectResponse => "incorrectResponse"
  | .invalidContact => "invalidContact"
  | .invalidProfile => "invalidProfile"
  | .malformed => "malformed"
  | .orderNotReady => "orderNotReady"
  | .rateLimited => "rateLimited"
  | .rejectedIdentifier => "rejectedIdentifier"
  | .serverInternal => "serverInternal"
  | .tls => "tls"
  | .unauthorized => "unauthorized"
  | .unsupportedContact => "unsupportedContact"
  | .unsupportedIdentifier => "unsupportedIdentifier"
  | .userActionRequired => "userActionRequired"
  | .other name => name

/-- The error type of a name. -/
def ofName (name : String) : ErrorType :=
  (registered.find? (·.name = name)).getD (.other name)

@[simp] theorem name_of_name (s : String) : (ofName s).name = s := by
  unfold ofName
  cases hfind : registered.find? (·.name = s) with
  | none => rfl
  | some t =>
      have hname := List.find?_some hfind
      exact of_decide_eq_true hname

/-- The fully qualified problem type. -/
def urn (t : ErrorType) : String := problemNamespace ++ t.name

end ErrorType

/-- The identifier type of a name. -/
def IdentifierType.ofText (name : String) : IdentifierType :=
  ([.dns, .ip, .tnAuthList, .nfInstanceID, .uri].find? (·.text = name)).getD (.other name)

@[simp] theorem IdentifierType.text_of_text (s : String) : (ofText s).text = s := by
  unfold ofText
  cases hfind : [dns, ip, tnAuthList, nfInstanceID, uri].find? (·.text = s) with
  | none => rfl
  | some t =>
      have hname := List.find?_some hfind
      exact of_decide_eq_true hname

/-! ## Writing -/

namespace Problem

/-- The members that are there. -/
def present (fields : List (String × Option Json)) : List (String × Json) :=
  fields.filterMap fun field => field.2.map (field.1, ·)

/-- A field with `omitempty`. -/
def omitEmpty (empty : Bool) (doc : Json) : Option Json := if empty then none else some doc

/-- An identifier object. -/
def identifierJSON (id : Identifier) : Json :=
  .object [("type", .string id.type.text), ("value", .string id.value)]

/-- The wire form of a top-level problem document. -/
def problemJSON (type detail : String) (status : Int) (identifier : Option Identifier)
    (subproblems : List Json) (algorithms : List String) : Json :=
  .object (present
    [("type", some (.string type)), ("detail", omitEmpty (detail = "") (.string detail)),
      ("status", omitEmpty (status = 0) (.scalar (.number (toString status)))),
      ("identifier", identifier.map identifierJSON),
      ("subproblems", omitEmpty subproblems.isEmpty (.array subproblems)),
      ("algorithms", omitEmpty algorithms.isEmpty (.array (algorithms.map .string)))])

/-- The wire form of an entry in the subproblems array, which carries no status. -/
def subproblemJSON (type detail : String) (identifier : Option Identifier) : Json :=
  .object (present
    [("type", some (.string type)), ("detail", omitEmpty (detail = "") (.string detail)),
      ("identifier", identifier.map identifierJSON)])

/-- The wire forms of the subproblems that are not nil. -/
def subproblemsJSON (subproblems : List (Option Problem)) : List Json :=
  subproblems.filterMap fun sub =>
    sub.map fun p => subproblemJSON p.type.urn p.detail p.identifier

/-- Writes the problem document with fully qualified types. -/
def marshalJSON (p : Problem) : Json :=
  problemJSON p.type.urn p.detail p.httpStatus p.identifier (subproblemsJSON p.subproblems)
    p.algorithms

/-! ## Reading -/

/-- The types of the fields that are not structs. -/
inductive FieldType where
  | string
  | int
deriving DecidableEq, Repr

/-- What a decoded value holds. A problem is stored by its own `UnmarshalJSON`. -/
inductive Content where
  | string (s : String)
  | int (i : Int)
  | problem (p : Problem)

/-- A field with a `json` tag. -/
def taggedField (name : String) (type : GoType FieldType 3) (tag : String) :
    StructField FieldType 3 :=
  { name, type, tag }

/-- The struct types: the local one of `UnmarshalJSON`, `Identifier` and `Problem`. The last one
decodes itself, so its fields are not looked at. -/
def structs : Fin 3 → StructType FieldType 3
  | 0 =>
      { fields :=
          [taggedField "Type" (.basic .string) "type",
            taggedField "Detail" (.basic .string) "detail",
            taggedField "Status" (.basic .int) "status",
            taggedField "Identifier" (.pointer (.struct 1)) "identifier",
            taggedField "Subproblems" (.slice (.pointer (.struct 2))) "subproblems",
            taggedField "Algorithms" (.slice (.basic .string)) "algorithms"]
        named := false }
  | 1 =>
      { fields :=
          [taggedField "Type" (.basic .string) "type",
            taggedField "Value" (.basic .string) "value"] }
  | 2 => { fields := [], unmarshaler := true }

/-- What is used of `encoding/json` beyond its rules for types: the classes of characters and the
text of the error for a document of the wrong kind. -/
structure Library where
  unicode : Unicode
  typeError : GoType FieldType 3 → Json → String

/-- The integers of the `int` type. -/
def isInt (i : Int) : Bool := -2 ^ 63 ≤ i ∧ i < 2 ^ 63

/-- Stores a document in a field. -/
def store (lib : Library) (b : FieldType) (doc : Json) (v : Value Content) :
    Value Content × Report :=
  match b, doc with
  | _, .scalar .null => (v, .ok none)
  | .string, .string s => (.basic (.string s), .ok none)
  | .int, .scalar (.number literal) =>
      match literal.toInt?.filter (isInt ·) with
      | some i => (.basic (.int i), .ok none)
      | none => (v, .ok (some (lib.typeError (.basic .int) doc)))
  | b, doc => (v, .ok (some (lib.typeError (.basic b) doc)))

/-- The decoder, given the `UnmarshalJSON` of problems. -/
def codec (lib : Library) (problem : Json → Except String Problem) : Codec FieldType 3 Content where
  unicode := lib.unicode
  structs := structs
  store := store lib
  unmarshalJSON _ doc v :=
    match problem doc with
    | .ok p => (.basic (.problem p), .ok none)
    | .error err => (v, .error err)
  mapKey _ name := .ok name
  mismatch := lib.typeError
  cannotSet _ := "json: cannot set embedded pointer to unexported struct"

/-- `strings.TrimPrefix`. -/
def trimStart (s start : String) : String :=
  if start.toList.isPrefixOf s.toList then String.ofList (s.toList.drop start.toList.length) else s

/-- The text of a string value. -/
def text : Value Content → String
  | .basic (.string s) => s
  | _ => ""

/-- An integer value. -/
def integer : Value Content → Int
  | .basic (.int i) => i
  | _ => 0

/-- The target of a pointer to an identifier. -/
def identifierValue : Value Content → Option Identifier
  | .pointer w => some ⟨.ofText (text (w.field 0)), text (w.field 1)⟩
  | _ => none

/-- The target of a pointer to a problem. -/
def problemValue : Value Content → Option Problem
  | .pointer (.basic (.problem p)) => some p
  | _ => none

/-- The problem of the decoded local struct. -/
def ofValue (w : Value Content) : Problem where
  type := .ofName (trimStart (text (w.field 0)) problemNamespace)
  detail := text (w.field 1)
  status := integer (w.field 2)
  identifier := identifierValue (w.field 3)
  subproblems := (w.field 4).list.map problemValue
  algorithms := (w.field 5).list.map text

/-- Reads a problem document whose problems nest less than the fuel. -/
def unmarshalFrom (lib : Library) : Nat → Json → Except String Problem
  | 0, _ => .error "json: exceeded max depth"
  | fuel + 1, doc =>
      match (codec lib (unmarshalFrom lib fuel)).decode .folded false (.struct 0) doc .zero with
      | (w, .ok none) => .ok (ofValue w)
      | (_, .ok (some err)) => .error err
      | (_, .error err) => .error err

/-- Reads a problem document and strips the ACME namespace from its types. A problem inside of
another one is less deep. -/
def unmarshalJSON (lib : Library) (doc : Json) : Except String Problem :=
  unmarshalFrom lib (doc.depth + 1) doc

/-! ## The members that are there -/

theorem present_names (fields : List (String × Option Json)) :
    ((present fields).map Prod.fst).Sublist (fields.map Prod.fst) := by
  induction fields with
  | nil => exact .slnil
  | cons field rest ih =>
      obtain ⟨name, _ | doc⟩ := field
      · exact ih.cons _
      · exact ih.cons_cons _

theorem mem_present {fields : List (String × Option Json)} {m : String × Json} :
    m ∈ present fields ↔ (m.1, some m.2) ∈ fields := by
  simp only [present, List.mem_filterMap, Option.map_eq_some_iff]
  constructor
  · rintro ⟨⟨name, _⟩, hmem, doc, rfl, rfl⟩
    exact hmem
  · exact fun hmem => ⟨_, hmem, m.2, rfl, rfl⟩

theorem lookup_present {fields : List (String × Option Json)}
    (hnames : (fields.map Prod.fst).Nodup) {name : String} {doc : Option Json}
    (h : (name, doc) ∈ fields) : (present fields).lookup name = doc := by
  have hnodup := hnames.sublist (present_names fields)
  cases doc with
  | some v => exact lookup_of_mem hnodup (mem_present.2 h)
  | none =>
      refine List.lookup_eq_none_iff.2 fun m hm => bne_iff_ne.2 ?_
      rintro rfl
      have hsame := List.inj_on_of_nodup_map hnames h (mem_present.1 hm) rfl
      cases hsame

/-! ## Reading what was written -/

theorem structs_tagged (u : Unicode) (id : Fin 3) : Tagged u (structs id) := by
  match id with
  | 0 =>
      refine ⟨?_, by decide +kernel⟩
      simp only [structs, List.forall_mem_cons]
      exact ⟨rfl, rfl, rfl, rfl, rfl, rfl, List.forall_mem_nil _⟩
  | 1 =>
      refine ⟨?_, by decide +kernel⟩
      simp only [structs, List.forall_mem_cons]
      exact ⟨rfl, rfl, List.forall_mem_nil _⟩
  | 2 => exact ⟨List.forall_mem_nil _, by decide +kernel⟩

theorem structs_exported : ∀ id, ∀ f ∈ (structs id).fields, f.exported = true := by
  decide +kernel

theorem trim_start_append (s start : String) : trimStart (start ++ s) start = s := by
  have hstart : start.toList.isPrefixOf (start ++ s).toList = true := by
    rw [String.toList_append, List.isPrefixOf_iff_prefix]
    exact List.prefix_append _ _
  rw [trimStart, if_pos hstart, String.toList_append, List.drop_left, String.ofList_toList]

section Decode

variable {lib : Library} {problem : Json → Except String Problem} {how : Matching}

theorem decode_string (s : String) :
    (codec lib problem).decode how false (.basic .string) (.string s) .zero =
      (.basic (.string s), .ok none) := rfl

theorem decode_status {status : Int} (h : isInt status = true) :
    (codec lib problem).decode how false (.basic .int)
      (.scalar (.number (toString status))) .zero = (.basic (.int status), .ok none) := by
  have hstore : store lib .int (.scalar (.number (toString status))) .zero =
      (.basic (.int status), .ok none) := by
    have hread : (toString status).toInt?.filter (isInt ·) = some status := by
      rw [show (toString status).toInt? = some status from Int.toInt?_repr status,
        Option.filter_some, h]
      rfl
    rw [store, hread]
  exact congrArg (fun r => (r.1.behind 0, r.2)) hstore

theorem decode_identifier (id : Identifier) : ∃ v,
    (codec lib problem).decode how false (.pointer (.struct 1)) (identifierJSON id) .zero =
      (v, .ok none) ∧ identifierValue v = some ⟨.ofText id.type.text, id.value⟩ := by
  have hknown : ∀ m ∈ [("type", Json.string id.type.text), ("value", .string id.value)],
      ∃ sf ∈ ((codec lib problem).structs 1).fields, sf.tag = m.1 ∧
        ((codec lib problem).decode how false sf.type m.2 .zero).2 = .ok none := by
    simp only [List.forall_mem_cons]
    exact ⟨⟨_, .head _, rfl, rfl⟩, ⟨_, .tail _ (.head _), rfl, rfl⟩,
      List.forall_mem_nil _⟩
  obtain ⟨w, hw, hfields⟩ := Codec.decode_tagged (structs_tagged lib.unicode 1)
    (structs_exported 1) (by simp) hknown
  refine ⟨.pointer w, ?_, ?_⟩
  · rw [identifierJSON, Codec.decode_pointer_struct rfl, hw]
  · rw [identifierValue, hfields 0 _ rfl, hfields 1 _ rfl]
    rfl

theorem decode_subproblem {members : List (String × Json)} {q : Problem}
    (h : problem (.object members) = .ok q) :
    (codec lib problem).decode how false (.pointer (.struct 2)) (.object members) .zero =
      (.pointer (.basic (.problem q)), .ok none) := by
  have hself : (codec lib problem).unmarshalJSON 2 (.object members) .zero =
      (.basic (.problem q), .ok none) := by
    simp only [codec, h]
  rw [Codec.decode_pointer_unmarshaler rfl, hself]

theorem decode_slice {e : GoType FieldType 3} {items : List Json} {g : Json → Value Content}
    (h : ∀ item ∈ items, (codec lib problem).decode how false e item .zero = (g item, .ok none)) :
    (codec lib problem).decode how false (.slice e) (.array items) .zero =
      (.items (items.map g), .ok none) := by
  rw [Codec.decode]
  simp only [Codec.indirect]
  rw [show (Value.zero : Value Content).list = [] from rfl, Codec.decode_items_ok h]
  rfl

variable (lib problem how) in
/-- A field of a type is read from what may be written for it: decoding causes no error, and gives
the value. -/
def Reads {α : Type} (t : GoType FieldType 3) (read : Value Content → α) (doc : Option Json)
    (a : α) : Prop :=
  match doc with
  | none => read .zero = a
  | some doc => ∃ v, (codec lib problem).decode how false t doc .zero = (v, .ok none) ∧ read v = a

theorem reads_detail (detail : String) :
    Reads lib problem how (.basic .string) text (omitEmpty (detail = "") (.string detail))
      detail := by
  by_cases h : detail = ""
  · rw [omitEmpty, if_pos (decide_eq_true h), h]
    rfl
  · rw [omitEmpty, if_neg (by simpa using h)]
    exact ⟨_, decode_string detail, rfl⟩

theorem reads_status {status : Int} (hstatus : isInt status = true) :
    Reads lib problem how (.basic .int) integer
      (omitEmpty (status = 0) (.scalar (.number (toString status)))) status := by
  by_cases h : status = 0
  · rw [omitEmpty, if_pos (decide_eq_true h), h]
    rfl
  · rw [omitEmpty, if_neg (by simpa using h)]
    exact ⟨_, decode_status hstatus, rfl⟩

/-- An identifier as it is read back: its type is the one of the name. -/
def rereadIdentifier (id : Identifier) : Identifier := ⟨.ofText id.type.text, id.value⟩

theorem reads_identifier (identifier : Option Identifier) :
    Reads lib problem how (.pointer (.struct 1)) identifierValue (identifier.map identifierJSON)
      (identifier.map rereadIdentifier) := by
  cases identifier with
  | none => rfl
  | some id => exact decode_identifier id

/-- A list is read from the array of its documents, or from nothing if it is empty. -/
theorem reads_list {β : Type} {e : GoType FieldType 3} {read : Value Content → β}
    {items : List Json} {k : Json → β}
    (h : ∀ item ∈ items, Reads lib problem how e read (some item) (k item)) :
    Reads lib problem how (.slice e) (·.list.map read) (omitEmpty items.isEmpty (.array items))
      (items.map k) := by
  cases items with
  | nil => rfl
  | cons first rest =>
      have hitems : ∀ item ∈ first :: rest, (codec lib problem).decode how false e item .zero =
          (((codec lib problem).decode how false e item .zero).1, .ok none) ∧
          read ((codec lib problem).decode how false e item .zero).1 = k item := by
        intro item hitem
        obtain ⟨v, hv, hread⟩ := h item hitem
        rw [hv]
        exact ⟨rfl, hread⟩
      refine ⟨_, decode_slice fun item hitem => (hitems item hitem).1, ?_⟩
      refine List.map_map.trans (List.map_congr_left fun item hitem => ?_)
      exact (hitems item hitem).2

theorem reads_subproblems {docs : List Json} (h : ∀ doc ∈ docs,
    (∃ members, doc = .object members) ∧ ∃ q, problem doc = .ok q) :
    Reads lib problem how (.slice (.pointer (.struct 2))) (·.list.map problemValue)
      (omitEmpty docs.isEmpty (.array docs)) (docs.map fun doc => (problem doc).toOption) := by
  refine reads_list fun doc hdoc => ?_
  obtain ⟨⟨members, rfl⟩, q, hq⟩ := h doc hdoc
  rw [hq]
  exact ⟨_, decode_subproblem hq, rfl⟩

theorem reads_algorithms (algorithms : List String) :
    Reads lib problem how (.slice (.basic .string)) (·.list.map text)
      (omitEmpty algorithms.isEmpty (.array (algorithms.map .string))) algorithms := by
  let item : Json → String := fun doc =>
    text ((codec lib problem).decode how false (.basic .string) doc .zero).1
  have hread : Reads lib problem how (.slice (.basic .string)) (·.list.map text)
      (omitEmpty (algorithms.map Json.string).isEmpty (.array (algorithms.map .string)))
      ((algorithms.map Json.string).map item) := by
    refine reads_list fun doc hdoc => ?_
    obtain ⟨s, -, rfl⟩ := List.mem_map.1 hdoc
    exact ⟨_, decode_string s, rfl⟩
  rw [List.isEmpty_map, List.map_map, show item ∘ Json.string = id from rfl, List.map_id] at hread
  exact hread

theorem Reads.ok {α : Type} {t : GoType FieldType 3} {read : Value Content → α} {doc : Json} {a : α}
    (h : Reads lib problem how t read (some doc) a) :
    ((codec lib problem).decode how false t doc .zero).2 = .ok none := by
  obtain ⟨v, hv, -⟩ := h
  rw [hv]

theorem Reads.value {α : Type} {t : GoType FieldType 3} {read : Value Content → α}
    {doc : Option Json} {a : α} {v : Value Content}
    (hv : v = match doc with
      | none => .zero
      | some doc => ((codec lib problem).decode how false t doc .zero).1)
    (h : Reads lib problem how t read doc a) : read v = a := by
  cases doc with
  | none =>
      rw [hv]
      exact h
  | some doc =>
      obtain ⟨v', hdecode, hread⟩ := h
      dsimp only at hv
      rw [hv, hdecode]
      exact hread

end Decode

section Wire

variable {lib : Library} {fuel : Nat} {t d s i l a : Option Json}

/-- What may be written for the fields of the local struct. -/
def wireFields (t d s i l a : Option Json) : List (String × Option Json) :=
  [("type", t), ("detail", d), ("status", s), ("identifier", i), ("subproblems", l),
    ("algorithms", a)]

theorem wire_names : ((wireFields t d s i l a).map Prod.fst).Nodup :=
  (by decide : ["type", "detail", "status", "identifier", "subproblems", "algorithms"].Nodup)

/-- A document is read field by field. -/
theorem unmarshal_wire {p : Problem} {name : String}
    (htype : Reads lib (unmarshalFrom lib fuel) .folded (.basic .string) text t name)
    (hname : p.type = .ofName (trimStart name problemNamespace))
    (hdetail : Reads lib (unmarshalFrom lib fuel) .folded (.basic .string) text d p.detail)
    (hstatus : Reads lib (unmarshalFrom lib fuel) .folded (.basic .int) integer s p.status)
    (hidentifier : Reads lib (unmarshalFrom lib fuel) .folded (.pointer (.struct 1))
      identifierValue i p.identifier)
    (hsubproblems : Reads lib (unmarshalFrom lib fuel) .folded (.slice (.pointer (.struct 2)))
      (·.list.map problemValue) l p.subproblems)
    (halgorithms : Reads lib (unmarshalFrom lib fuel) .folded (.slice (.basic .string))
      (·.list.map text) a p.algorithms) (hretry : p.retryAfter = 0) :
    unmarshalFrom lib (fuel + 1) (.object (present (wireFields t d s i l a))) = .ok p := by
  have hknown : ∀ m ∈ present (wireFields t d s i l a), ∃ sf ∈ (structs 0).fields, sf.tag = m.1 ∧
      ((codec lib (unmarshalFrom lib fuel)).decode .folded false sf.type m.2 .zero).2 =
        .ok none := by
    rintro ⟨key, doc⟩ hm
    have hfield := mem_present.1 hm
    simp only [wireFields, List.mem_cons, Prod.mk.injEq, List.not_mem_nil, or_false] at hfield
    rcases hfield with ⟨rfl, rfl⟩ | ⟨rfl, rfl⟩ | ⟨rfl, rfl⟩ | ⟨rfl, rfl⟩ | ⟨rfl, rfl⟩ | ⟨rfl, rfl⟩
    · exact ⟨_, .head _, rfl, htype.ok⟩
    · exact ⟨_, .tail _ (.head _), rfl, hdetail.ok⟩
    · exact ⟨_, .tail _ (.tail _ (.head _)), rfl, hstatus.ok⟩
    · exact ⟨_, .tail _ (.tail _ (.tail _ (.head _))), rfl, hidentifier.ok⟩
    · exact ⟨_, .tail _ (.tail _ (.tail _ (.tail _ (.head _)))), rfl, hsubproblems.ok⟩
    · exact ⟨_, .tail _ (.tail _ (.tail _ (.tail _ (.tail _ (.head _))))), rfl, halgorithms.ok⟩
  have htagged : Tagged (codec lib (unmarshalFrom lib fuel)).unicode
      ((codec lib (unmarshalFrom lib fuel)).structs 0) := structs_tagged lib.unicode 0
  obtain ⟨w, hw, hfields⟩ := Codec.decode_tagged htagged (structs_exported 0)
    (wire_names.sublist (present_names _)) hknown
  have hfield : ∀ (n : Nat) (sf : StructField FieldType 3), (structs 0).fields[n]? = some sf →
      ∀ doc, (sf.tag, doc) ∈ wireFields t d s i l a → w.field n =
        match doc with
        | none => .zero
        | some doc => ((codec lib (unmarshalFrom lib fuel)).decode .folded false sf.type doc
            .zero).1 := by
    intro n sf hsf doc hdoc
    have hvalue := hfields n sf hsf
    rwa [lookup_present wire_names hdoc] at hvalue
  have hvalue : ofValue w = p := by
    have h0 := htype.value (hfield 0 _ rfl _ (.head _))
    have h1 := hdetail.value (hfield 1 _ rfl _ (.tail _ (.head _)))
    have h2 := hstatus.value (hfield 2 _ rfl _ (.tail _ (.tail _ (.head _))))
    have h3 := hidentifier.value (hfield 3 _ rfl _ (.tail _ (.tail _ (.tail _ (.head _)))))
    have h4 : (w.field 4).list.map problemValue = p.subproblems := hsubproblems.value
      (hfield 4 _ rfl _ (.tail _ (.tail _ (.tail _ (.tail _ (.head _))))))
    have h5 : (w.field 5).list.map text = p.algorithms := halgorithms.value
      (hfield 5 _ rfl _ (.tail _ (.tail _ (.tail _ (.tail _ (.tail _ (.head _)))))))
    rw [ofValue, h0, h1, h2, h3, h4, h5, ← hname, ← hretry]
    cases p
    rfl
  rw [unmarshalFrom, Codec.decode_struct rfl, hw]
  dsimp only
  rw [hvalue]

end Wire

/-- What comes back from the wire form, where the subproblems are read one by one. -/
theorem unmarshal_problem_json (lib : Library) {fuel : Nat} (type : ErrorType) (detail : String)
    {status : Int} (hstatus : isInt status = true) (identifier : Option Identifier)
    {subproblems : List Json} (hsubproblems : ∀ doc ∈ subproblems,
      (∃ members, doc = .object members) ∧ ∃ q, unmarshalFrom lib fuel doc = .ok q)
    (algorithms : List String) :
    unmarshalFrom lib (fuel + 1)
        (problemJSON type.urn detail status identifier subproblems algorithms) =
      .ok { type := .ofName type.name, detail, status
            identifier := identifier.map rereadIdentifier
            subproblems := subproblems.map fun doc => (unmarshalFrom lib fuel doc).toOption
            algorithms } := by
  refine unmarshal_wire ⟨_, decode_string type.urn, rfl⟩ ?_ (reads_detail detail)
    (reads_status hstatus) (reads_identifier identifier) (reads_subproblems hsubproblems)
    (reads_algorithms algorithms) rfl
  exact congrArg ErrorType.ofName (trim_start_append type.name problemNamespace).symm

/-- A subproblem as it is read back. -/
def rereadSubproblem (p : Problem) : Problem :=
  { type := .ofName p.type.name
    detail := p.detail
    identifier := p.identifier.map rereadIdentifier }

theorem unmarshal_subproblem_json (lib : Library) (fuel : Nat) (p : Problem) :
    unmarshalFrom lib (fuel + 1) (subproblemJSON p.type.urn p.detail p.identifier) =
      .ok (rereadSubproblem p) := by
  have hwire : subproblemJSON p.type.urn p.detail p.identifier =
      problemJSON p.type.urn p.detail 0 p.identifier [] [] := by
    rw [subproblemJSON, problemJSON]
    cases p.identifier <;> cases omitEmpty (p.detail = "") (.string p.detail) <;> rfl
  rw [hwire, unmarshal_problem_json lib p.type p.detail (by decide) p.identifier (by simp) []]
  rfl

theorem http_status_ne_zero (p : Problem) : p.httpStatus ≠ 0 := by
  unfold httpStatus
  split_ifs with h
  · exact h
  · cases p.type <;> simp [defaultStatus]

theorem http_status_int {p : Problem} (h : isInt p.status = true) : isInt p.httpStatus = true := by
  unfold httpStatus
  split_ifs
  · exact h
  · cases p.type <;> rfl

theorem reread_identifier_json (identifier : Option Identifier) :
    (identifier.map rereadIdentifier).map identifierJSON = identifier.map identifierJSON := by
  cases identifier with
  | none => rfl
  | some id => simp [identifierJSON, rereadIdentifier]

theorem reread_subproblems_json (lib : Library) (fuel : Nat) (subproblems : List (Option Problem)) :
    subproblemsJSON ((subproblemsJSON subproblems).map fun doc =>
      (unmarshalFrom lib (fuel + 1) doc).toOption) = subproblemsJSON subproblems := by
  induction subproblems with
  | nil => rfl
  | cons sub rest ih =>
      cases sub with
      | none => exact ih
      | some p =>
          have hread := unmarshal_subproblem_json lib fuel p
          have hsame : subproblemJSON (rereadSubproblem p).type.urn (rereadSubproblem p).detail
              (rereadSubproblem p).identifier =
                subproblemJSON p.type.urn p.detail p.identifier := by
            rw [subproblemJSON, subproblemJSON, rereadSubproblem, reread_identifier_json,
              ErrorType.urn, ErrorType.urn, ErrorType.name_of_name]
          simp only [subproblemsJSON, List.filterMap_cons, Option.map_some, List.map_cons, hread,
            Except.toOption] at ih ⊢
          rw [hsame, ih]

/-- What the document of a problem depends on. -/
theorem marshal_json_congr {p q : Problem} (hname : q.type.name = p.type.name)
    (hdetail : q.detail = p.detail) (hstatus : q.httpStatus = p.httpStatus)
    (hidentifier : q.identifier.map identifierJSON = p.identifier.map identifierJSON)
    (hsubproblems : subproblemsJSON q.subproblems = subproblemsJSON p.subproblems)
    (halgorithms : q.algorithms = p.algorithms) : q.marshalJSON = p.marshalJSON := by
  rw [marshalJSON, marshalJSON, problemJSON, problemJSON, ErrorType.urn, ErrorType.urn, hname,
    hdetail, hstatus, hidentifier, hsubproblems, halgorithms]

/-- A problem document is read back as a problem with the same document, type and HTTP status. -/
theorem read_back (lib : Library) (p : Problem) (h : isInt p.status = true) :
    ∃ q, unmarshalJSON lib p.marshalJSON = .ok q ∧ q.marshalJSON = p.marshalJSON ∧
      q.type.name = p.type.name ∧ (p.type ∈ ErrorType.registered → q.type = p.type) ∧
      q.httpStatus = p.httpStatus := by
  obtain ⟨fuel, hfuel⟩ : ∃ fuel, p.marshalJSON.depth = fuel + 1 := ⟨_, rfl⟩
  have hsubproblems : ∀ doc ∈ subproblemsJSON p.subproblems, (∃ members, doc = .object members) ∧
      ∃ q, unmarshalFrom lib (fuel + 1) doc = .ok q := by
    intro doc hdoc
    obtain ⟨sub, -, hsub⟩ := List.mem_filterMap.1 hdoc
    obtain ⟨sub, rfl, rfl⟩ := Option.map_eq_some_iff.1 hsub
    exact ⟨⟨_, rfl⟩, _, unmarshal_subproblem_json lib fuel sub⟩
  have hread := unmarshal_problem_json lib p.type p.detail (http_status_int h) p.identifier
    hsubproblems p.algorithms
  have hregistered : ∀ t ∈ ErrorType.registered, ErrorType.ofName t.name = t := by decide +kernel
  have hstatus : ∀ q : Problem, q.status = p.httpStatus → q.httpStatus = p.httpStatus := by
    intro q hq
    rw [httpStatus, hq, if_pos (http_status_ne_zero p)]
  refine ⟨_, by rw [unmarshalJSON, hfuel]; exact hread, ?_, ErrorType.name_of_name _,
    hregistered _, hstatus _ rfl⟩
  exact marshal_json_congr (ErrorType.name_of_name _) rfl (hstatus _ rfl)
    (reread_identifier_json _) (reread_subproblems_json lib fuel _) rfl

namespace Sample

/-- The library as it is for ASCII texts. -/
def library : Library := ⟨⟨fun _ => false, Char.toLower⟩, fun _ _ => "json: cannot unmarshal"⟩

/-- An order error with a nil and a nested subproblem. -/
def problem : Problem where
  type := .compound
  detail := "two names"
  status := 403
  subproblems :=
    [none, some { type := .dns, detail := "", identifier := some ⟨.dns, "a.example"⟩
                  subproblems := [some (newProblem .caa "inner")] }]

end Sample

/-- The order error is served as it was stored. -/
theorem sample_read_back : ∃ q, unmarshalJSON Sample.library Sample.problem.marshalJSON = .ok q ∧
    q.marshalJSON = Sample.problem.marshalJSON ∧ q.type.name = "compound" ∧
    q.httpStatus = 403 := by
  obtain ⟨q, hread, hdocument, hname, -, hstatus⟩ := read_back Sample.library Sample.problem rfl
  exact ⟨q, hread, hdocument, hname, hstatus⟩

end Problem

end AcmeServer
