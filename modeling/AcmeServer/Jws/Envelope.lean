import AcmeServer.Jws.Jwk

/-!
# Parsing a JWS

`Parse`, `ParseInner` and `ParseMAC` are one function with three header profiles. What it accepts is
said by two inversion lemmas, `parse_ok` for the envelope and `parse_header_ok` for the protected
header, over the members of the documents.

Members that must be absent are found through the Go fields that they are decoded into. Raw JSON
fields are set by every value, null included, but pointer fields are left nil by null. So a
forbidden member with a pointer field goes unnoticed if its value is null
(`forbidden_member_rejected`).
-/

namespace AcmeServer.Jws

/-! ## Messages and profiles -/

/-- The protected header parameters that ACME requires. -/
structure Header where
  algorithm : String
  nonce : String := ""
  url : String
  keyID : String := ""
  key : Option PublicKey := none

/-- A parsed request body. -/
structure Message where
  header : Header
  payload : Bytes
  signingInput : String
  signature : Bytes

/-- The flattened JWS JSON serialization plus the members that must be absent. -/
structure EnvelopeJSON where
  protectedHeader : Option String
  payload : Option String
  signature : Option String
  header : Option Json
  signatures : Option Json

/-- The protected header with the parameters ACME requires or forbids. -/
structure HeaderJSON where
  alg : Option String
  nonce : Option String
  url : Option String
  kid : Option String
  jwk : Option Json
  crit : Option Json
  b64 : Option Json

/-- The algorithms the server accepts in the order they are advertised. -/
def algorithms : List String := ["ES256", "ES384", "ES512", "RS256", "EdDSA"]

/-- The HMAC algorithms accepted for external account bindings. -/
def macAlgorithms : List String := ["HS256", "HS384", "HS512"]

/-- Which header shape a JWS must have: whether a nonce is required or forbidden, whether the key is
required in `jwk` or in `kid`, or in exactly one of them, and the accepted algorithms. -/
structure Profile where
  nonce : Bool
  embeddedKey : Option Bool
  algorithms : List String
deriving DecidableEq

def requestProfile : Profile := ⟨true, none, algorithms⟩
def innerProfile : Profile := ⟨false, some true, algorithms⟩
def macProfile : Profile := ⟨false, some false, macAlgorithms⟩

/-- A malformed error. -/
def malformed {α : Type} (detail : String) : Except Stop α := refuse .malformed detail

namespace EnvelopeJSON

/-- The decoded struct. -/
def ofValue (w : Value Content) : EnvelopeJSON where
  protectedHeader := (w.field 0).stringPointer
  payload := (w.field 1).stringPointer
  signature := (w.field 2).stringPointer
  header := (w.field 3).rawMessage
  signatures := (w.field 4).rawMessage

/-- The struct by the members of the decoded object. -/
def ofMembers (members : List (String × Json)) : EnvelopeJSON where
  protectedHeader := Library.stringOf (members.lookup "protected")
  payload := Library.stringOf (members.lookup "payload")
  signature := Library.stringOf (members.lookup "signature")
  header := members.lookup "header"
  signatures := members.lookup "signatures"

end EnvelopeJSON

namespace HeaderJSON

/-- The decoded struct. -/
def ofValue (w : Value Content) : HeaderJSON where
  alg := (w.field 0).stringPointer
  nonce := (w.field 1).stringPointer
  url := (w.field 2).stringPointer
  kid := (w.field 3).stringPointer
  jwk := (w.field 4).rawMessage
  crit := (w.field 5).rawMessage
  b64 := (w.field 6).rawMessage

/-- The struct by the members of the decoded object. -/
def ofMembers (members : List (String × Json)) : HeaderJSON where
  alg := Library.stringOf (members.lookup "alg")
  nonce := Library.stringOf (members.lookup "nonce")
  url := Library.stringOf (members.lookup "url")
  kid := Library.stringOf (members.lookup "kid")
  jwk := members.lookup "jwk"
  crit := members.lookup "crit"
  b64 := members.lookup "b64"

end HeaderJSON

/-! ## The parser -/

/-- The nonce of a header, by the profile. -/
def checkNonce (prof : Profile) (nonce : Option String) : Except Stop String :=
  if prof.nonce ∧ nonce.getD "" = "" then refuse .badNonce "JWS protected header has no nonce"
  else if prof.nonce ∧ ¬isBase64URL (nonce.getD "") then
    malformed "JWS nonce is not valid base64url"
  else if prof.nonce then .ok (nonce.getD "")
  else if nonce ≠ none then malformed "JWS protected header must not have a nonce here"
  else .ok ""

namespace Library

variable (lib : Library)

/-- The key of a header: the key identifier, or the embedded key. -/
def headerKey (prof : Profile) (hdr : HeaderJSON) : Except Stop (String × Option PublicKey) :=
  match hdr.kid, hdr.jwk with
  | none, none => malformed "JWS protected header must have exactly one of jwk and kid"
  | some _, some _ => malformed "JWS protected header must have exactly one of jwk and kid"
  | some kid, none =>
      if prof.embeddedKey = some true then
        malformed "JWS protected header must carry the key in jwk here"
      else if kid = "" then malformed "JWS kid is empty"
      else .ok (kid, none)
  | none, some jwk =>
      if prof.embeddedKey = some false then
        malformed "JWS protected header must name the key in kid here"
      else do
        let key ← lib.parseJWK (.ofJson jwk)
        return ("", some key)

/-- Checks the parameter rules of the profile. -/
def checkHeader (prof : Profile) (hdr : HeaderJSON) : Except Stop Header :=
  if hdr.crit ≠ none then malformed "JWS critical header parameters are not supported"
  else if hdr.b64 ≠ none then malformed "JWS b64 header parameter is not supported"
  else if hdr.alg.getD "" = "" then malformed "JWS protected header has no alg"
  else if hdr.alg.getD "" ∉ prof.algorithms then
    refuse .badSignatureAlgorithm ("JWS algorithm " ++ lib.quote (hdr.alg.getD "") ++
      " is not supported")
  else if hdr.url.getD "" = "" then malformed "JWS protected header has no url"
  else do
    let nonce ← checkNonce prof hdr.nonce
    let (keyID, key) ← lib.headerKey prof hdr
    return { algorithm := hdr.alg.getD "", nonce, url := hdr.url.getD "", keyID, key }

/-- Decodes the protected header and checks the parameter rules of the profile. -/
def parseHeader (raw : Bytes) (prof : Profile) : Except Stop Header := do
  let w ← (lib.unmarshalStrict 1 (.read lib.quote raw)).mapError
    (Stop.within .malformed "JWS protected header: ")
  lib.checkHeader prof (.ofValue w)

/-- The message of an envelope. -/
def openEnvelope (prof : Profile) (env : EnvelopeJSON) : Except Stop Message :=
  if env.signatures ≠ none then malformed "JWS general serialization is not allowed"
  else if env.header ≠ none then malformed "JWS unprotected header is not allowed"
  else
    match env.protectedHeader, env.payload, env.signature with
    | some protectedText, some payloadText, some signatureText => do
        let raw ← need .malformed ((decodeBase64 protectedText).filter (· ≠ []))
          "JWS protected header is not valid base64url"
        let payload ← need .malformed (decodeBase64 payloadText)
          "JWS payload is not valid base64url"
        let signature ← need .malformed ((decodeBase64 signatureText).filter (· ≠ []))
          "JWS signature is not valid base64url"
        let header ← lib.parseHeader raw prof
        return { header, payload, signature
                 signingInput := protectedText ++ "." ++ payloadText }
    | _, _, _ => malformed "JWS must have protected, payload and signature members"

/-- Decodes a flattened JWS against the header profile. It does not verify the signature. -/
def parse (body : Bytes) (prof : Profile) : Except Stop Message := do
  let w ← (lib.unmarshalStrict 0 (.read lib.quote body)).mapError
    (Stop.within .malformed "invalid JWS: ")
  lib.openEnvelope prof (.ofValue w)

/-! ## What is accepted -/

variable {lib} {members : List (String × Json)} {w : Value Content} {prof : Profile}

theorem string_of_eq_some {doc : Option Json} {s : String} :
    stringOf doc = some s ↔ doc = some (.string s) := by
  constructor
  · intro h
    unfold stringOf at h
    split at h
    · cases h
      rfl
    · cases h
  · rintro rfl
    rfl

theorem envelope_of_value (h : lib.unmarshalStrict 0 (.ofJson (.object members)) = .ok w) :
    EnvelopeJSON.ofValue w = .ofMembers members := by
  have hstring {i : Nat} {sf : StructField BasicType 3} (hsf : envelopeJSON.fields[i]? = some sf)
      (htype : sf.type = .pointer (.basic .string)) :
      (w.field i).stringPointer = stringOf (members.lookup sf.tag) :=
    string_pointer_field h (show (jwsStructs 0).fields[i]? = some sf from hsf) htype
  have hraw {i : Nat} {sf : StructField BasicType 3} (hsf : envelopeJSON.fields[i]? = some sf)
      (htype : sf.type = .basic .rawMessage) :
      (w.field i).rawMessage = members.lookup sf.tag :=
    raw_message_field h (show (jwsStructs 0).fields[i]? = some sf from hsf) htype
  unfold EnvelopeJSON.ofValue EnvelopeJSON.ofMembers
  rw [@hstring 0 _ rfl rfl, @hstring 1 _ rfl rfl, @hstring 2 _ rfl rfl, @hraw 3 _ rfl rfl,
    @hraw 4 _ rfl rfl]
  rfl

theorem header_of_value (h : lib.unmarshalStrict 1 (.ofJson (.object members)) = .ok w) :
    HeaderJSON.ofValue w = .ofMembers members := by
  have hstring {i : Nat} {sf : StructField BasicType 3} (hsf : headerJSON.fields[i]? = some sf)
      (htype : sf.type = .pointer (.basic .string)) :
      (w.field i).stringPointer = stringOf (members.lookup sf.tag) :=
    string_pointer_field h (show (jwsStructs 1).fields[i]? = some sf from hsf) htype
  have hraw {i : Nat} {sf : StructField BasicType 3} (hsf : headerJSON.fields[i]? = some sf)
      (htype : sf.type = .basic .rawMessage) :
      (w.field i).rawMessage = members.lookup sf.tag :=
    raw_message_field h (show (jwsStructs 1).fields[i]? = some sf from hsf) htype
  unfold HeaderJSON.ofValue HeaderJSON.ofMembers
  rw [@hstring 0 _ rfl rfl, @hstring 1 _ rfl rfl, @hstring 2 _ rfl rfl, @hstring 3 _ rfl rfl,
    @hraw 4 _ rfl rfl, @hraw 5 _ rfl rfl, @hraw 6 _ rfl rfl]
  rfl

/-- A header is accepted as an object, by its members. -/
theorem parse_header_ok {raw : Bytes} {header : Header} :
    lib.parseHeader raw prof = .ok header ↔
      ∃ members w, Document.read lib.quote raw = .ofJson (.object members) ∧
        lib.unmarshalStrict 1 (.ofJson (.object members)) = .ok w ∧
        lib.checkHeader prof (.ofMembers members) = .ok header := by
  rw [parseHeader, Fallible.bind_eq_ok]
  simp only [Fallible.map_error_eq_ok]
  constructor
  · rintro ⟨w, hw, hcheck⟩
    obtain ⟨doc, hdoc⟩ := unmarshal_strict_read hw
    rw [hdoc] at hw
    rcases unmarshal_strict_document hw with ⟨members, rfl⟩ | ⟨rfl, rfl⟩
    · rw [header_of_value hw] at hcheck
      exact ⟨members, w, hdoc, hw, hcheck⟩
    · cases hcheck
  · rintro ⟨members, w, hdoc, hw, hcheck⟩
    rw [hdoc, ← header_of_value hw] at *
    exact ⟨w, hw, hcheck⟩

/-- A message is accepted without unprotected and general parts, by its protected header. -/
theorem parse_ok {body : Bytes} {msg : Message} (h : lib.parse body prof = .ok msg) :
    ∃ members w text raw, Document.read lib.quote body = .ofJson (.object members) ∧
      lib.unmarshalStrict 0 (.ofJson (.object members)) = .ok w ∧
      members.lookup "signatures" = none ∧ members.lookup "header" = none ∧
      members.lookup "protected" = some (.string text) ∧ decodeBase64 text = some raw ∧
      lib.parseHeader raw prof = .ok msg.header := by
  rw [parse, Fallible.bind_eq_ok] at h
  obtain ⟨w, hw, hopen⟩ := h
  rw [Fallible.map_error_eq_ok] at hw
  obtain ⟨doc, hdoc⟩ := unmarshal_strict_read hw
  rw [hdoc] at hw
  rcases unmarshal_strict_document hw with ⟨members, rfl⟩ | ⟨rfl, rfl⟩
  · rw [envelope_of_value hw, openEnvelope] at hopen
    simp only [malformed, refuse_guard, not_not] at hopen
    obtain ⟨hsignatures, hheader, hopen⟩ := hopen
    split at hopen
    · rename_i protectedText payloadText signatureText hprotected _ _
      simp only [Fallible.bind_eq_ok, need_eq_ok, Option.filter_eq_some_iff] at hopen
      obtain ⟨raw, ⟨hraw, -⟩, payload, -, signature, -, header, hparse, hmsg⟩ := hopen
      cases hmsg
      exact ⟨members, w, protectedText, raw, hdoc, hw, hsignatures, hheader,
        string_of_eq_some.1 hprotected, hraw, hparse⟩
    · cases hopen
  · cases hopen

theorem check_header_ok {hdr : HeaderJSON} : (∃ header, lib.checkHeader prof hdr = .ok header) ↔
    hdr.crit = none ∧ hdr.b64 = none ∧ hdr.alg.getD "" ≠ "" ∧ hdr.alg.getD "" ∈ prof.algorithms ∧
      hdr.url.getD "" ≠ "" ∧ (∃ nonce, checkNonce prof hdr.nonce = .ok nonce) ∧
      ∃ key, lib.headerKey prof hdr = .ok key := by
  simp only [checkHeader, malformed, refuse_guard, Fallible.bind_eq_ok, not_not]
  constructor
  · rintro ⟨header, hcrit, hb64, halg, hsupported, hurl, nonce, hnonce, key, hkey, -⟩
    exact ⟨hcrit, hb64, halg, hsupported, hurl, ⟨nonce, hnonce⟩, key, hkey⟩
  · rintro ⟨hcrit, hb64, halg, hsupported, hurl, ⟨nonce, hnonce⟩, key, hkey⟩
    exact ⟨_, hcrit, hb64, halg, hsupported, hurl, nonce, hnonce, key, hkey, rfl⟩

theorem check_nonce_forbidden {nonce : Option String} {text : String}
    (h : checkNonce prof nonce = .ok text) (hprof : prof.nonce = false) : nonce = none := by
  simp only [checkNonce, malformed, refuse_guard, hprof, Bool.false_eq_true, false_and, if_false,
    not_not] at h
  exact h.1

/-- A header with a key in `jwk` has no key in `kid`, and `ParseMAC` takes none. -/
theorem header_key_embedded {hdr : HeaderJSON} {key : String × Option PublicKey} {jwk : Json}
    (h : lib.headerKey prof hdr = .ok key) (hjwk : hdr.jwk = some jwk) :
    hdr.kid = none ∧ prof.embeddedKey ≠ some false := by
  unfold headerKey at h
  rw [hjwk] at h
  cases hkid : hdr.kid with
  | some kid =>
      rw [hkid] at h
      cases h
  | none =>
      rw [hkid] at h
      simp only [malformed, refuse_guard] at h
      exact ⟨rfl, h.1⟩

/-! ## Members that must be absent -/

variable (lib) in
/-- The bytes are the text of an object with the member. -/
def Has (data : Bytes) (name : String) (v : Json) : Prop :=
  ∃ members, Document.read lib.quote data = .ofJson (.object members) ∧ (name, v) ∈ members

variable (lib) in
/-- The protected header of the message has the member. -/
def HeaderHas (body : Bytes) (name : String) (v : Json) : Prop :=
  ∃ text raw, lib.Has body "protected" (.string text) ∧ decodeBase64 text = some raw ∧
    lib.Has raw name v

theorem has_members {data : Bytes} {name : String} {v : Json} (h : lib.Has data name v)
    (hread : Document.read lib.quote data = .ofJson (.object members)) : (name, v) ∈ members := by
  obtain ⟨members', hread', hmem⟩ := h
  rw [hread] at hread'
  have hvalue : some (Json.object members) = some (.object members') :=
    congrArg Document.value hread'
  cases hvalue
  exact hmem

/-- Nothing is returned but an error. -/
def Rejects {α : Type} (result : Except Stop α) : Prop := ∀ a, result ≠ .ok a

/-- The members of the protected header of an accepted message. -/
theorem header_members {body : Bytes} {msg : Message} (h : lib.parse body prof = .ok msg) :
    ∃ members w, lib.unmarshalStrict 1 (.ofJson (.object members)) = .ok w ∧
      lib.checkHeader prof (.ofMembers members) = .ok msg.header ∧
      ∀ name v, lib.HeaderHas body name v → members.lookup name = some v := by
  obtain ⟨envelope, w, text, raw, hbody, hw, -, -, htext, hraw, hparse⟩ := parse_ok h
  obtain ⟨members, w', hread, hw', hcheck⟩ := parse_header_ok.1 hparse
  refine ⟨members, w', hw', hcheck, ?_⟩
  rintro name v ⟨text', raw', henvelope, hraw', hheader⟩
  have hsame := unmarshal_strict_lookup hw (has_members henvelope hbody)
  rw [htext] at hsame
  cases hsame
  rw [hraw] at hraw'
  cases hraw'
  exact unmarshal_strict_lookup hw' (has_members hheader hread)

/-- An envelope for a protected header. -/
def envelopeMembers (raw : Bytes) : List (String × Json) :=
  [("protected", .string (encodeBase64 raw)), ("payload", .string ""), ("signature", .string "AA")]

theorem envelope_members_plain (raw : Bytes) :
    Text.isPlainJson (.object (envelopeMembers raw)) = true := by
  have hplain : Text.isPlainJson (stringObject
      [("protected", encodeBase64 raw), ("payload", ""), ("signature", "AA")]) = true := by
    refine string_object_plain ?_
    simp only [List.forall_mem_cons]
    exact ⟨⟨by decide +kernel, encode_base64_plain raw⟩, by decide +kernel, by decide +kernel,
      List.forall_mem_nil _⟩
  exact hplain

theorem envelope_members_decoded (lib : Library) (raw : Bytes) :
    ∃ w, lib.unmarshalStrict 0 (.ofJson (.object (envelopeMembers raw))) = .ok w := by
  have hnames : ["protected", "payload", "signature"].Nodup ∧
      ∀ name ∈ ["protected", "payload", "signature"], name ∈ (jwsStructs 0).fields.map (·.tag) := by
    decide +kernel
  refine unmarshal_strict_simple hnames.1 hnames.2 ?_
  simp only [envelopeMembers, List.forall_mem_cons]
  exact ⟨.inl ⟨_, rfl⟩, .inl ⟨_, rfl⟩, .inl ⟨_, rfl⟩, List.forall_mem_nil _⟩

/-- A protected header that is accepted stands in a message that is accepted. -/
theorem parse_of_header {header : Header} (hplain : Text.isPlainJson (.object members) = true)
    (hw : lib.unmarshalStrict 1 (.ofJson (.object members)) = .ok w)
    (hcheck : lib.checkHeader prof (.ofMembers members) = .ok header) :
    ∃ body msg, lib.parse body prof = .ok msg ∧
      ∀ m ∈ members, lib.HeaderHas body m.1 m.2 := by
  have hread := Document.read_json_text lib.quote hplain
  have hne : Text.jsonText (.object members) ≠ [] := by
    rw [Text.jsonText]
    exact List.cons_ne_nil _ _
  generalize Text.jsonText (.object members) = raw at hread hne
  have hheader : lib.parseHeader raw prof = .ok header :=
    parse_header_ok.2 ⟨members, w, hread, hw, hcheck⟩
  have hbody := Document.read_json_text lib.quote (envelope_members_plain raw)
  obtain ⟨w', hw'⟩ := envelope_members_decoded lib raw
  have hopen : lib.openEnvelope prof (.ofMembers (envelopeMembers raw)) =
      .ok ⟨header, [], encodeBase64 raw ++ "." ++ "", [0]⟩ := by
    have hpayload : decodeBase64 "" = some [] := by decide +kernel
    have hsignature : decodeBase64 "AA" = some [0] := by decide +kernel
    have henv : EnvelopeJSON.ofMembers (envelopeMembers raw) =
        ⟨some (encodeBase64 raw), some "", some "AA", none, none⟩ := rfl
    rw [henv, openEnvelope]
    simp only [malformed, refuse_guard, Fallible.bind_eq_ok, need_eq_ok, Option.filter_eq_some_iff]
    exact ⟨not_not.2 rfl, not_not.2 rfl, raw, ⟨decode_encode_base64 raw, decide_eq_true hne⟩, [],
      hpayload, [0], ⟨hsignature, rfl⟩, header, hheader, rfl⟩
  refine ⟨_, ⟨header, [], encodeBase64 raw ++ "." ++ "", [0]⟩, ?_, fun m hm =>
    ⟨encodeBase64 raw, raw, ⟨_, hbody, .head _⟩, decode_encode_base64 raw, members, hread, hm⟩⟩
  rw [parse, hbody, hw', ← hopen, ← envelope_of_value hw']
  rfl

end Library

/-! ## Null in a forbidden member -/

/-- The private members of a JWK. -/
def privateMembers : List String := ["d", "p", "q", "dp", "dq", "qi", "oth", "k"]

namespace Sample

/-- An Ed25519 key. -/
def zeroKey : PublicKey := .ed25519 (List.replicate 32 0)

/-- Its canonical JWK. -/
def zeroJWK : Json := Library.stringObject (Library.canonicalMembers zeroKey)

/-- The members of the JWK and a private one. -/
def privateJWK (name : String) : List (String × Json) :=
  [("crv", .string "Ed25519"), ("kty", .string "OKP"),
    ("x", .string (encodeBase64 (List.replicate 32 0))), (name, .scalar .null)]

/-- A protected header with the key and a null `kid`. -/
def nullKid : List (String × Json) :=
  [("alg", .string "EdDSA"), ("url", .string "u"), ("jwk", zeroJWK), ("kid", .scalar .null)]

/-- A protected header with the key and a null nonce. -/
def nullNonce : List (String × Json) :=
  [("alg", .string "EdDSA"), ("url", .string "u"), ("jwk", zeroJWK), ("nonce", .scalar .null)]

/-- A protected header for `ParseMAC` with a null nonce. -/
def nullMACNonce : List (String × Json) :=
  [("alg", .string "HS256"), ("url", .string "u"), ("kid", .string "k"), ("nonce", .scalar .null)]

end Sample

namespace Library

variable (lib : Library)

theorem private_null_accepted {name : String} (hname : name ∈ privateMembers) :
    ∃ data key, lib.Has data name (.scalar .null) ∧
      lib.parseJWK (.read lib.quote data) = .ok key := by
  have hplain : ∀ name ∈ privateMembers,
      Text.isPlainJson (.object (Sample.privateJWK name)) = true := by decide +kernel
  have hnames : ∀ name ∈ privateMembers, ((Sample.privateJWK name).map Prod.fst).Nodup ∧
      ∀ tag ∈ (Sample.privateJWK name).map Prod.fst, tag ∈ (jwsStructs 2).fields.map (·.tag) := by
    decide +kernel
  have hprivate : ∀ name ∈ privateMembers,
      ¬(JwkJSON.ofMembers (Sample.privateJWK name)).HasPrivate := by decide +kernel
  have hsimple : ∀ m ∈ Sample.privateJWK name, Simple m.2 := by
    simp only [Sample.privateJWK, List.forall_mem_cons]
    exact ⟨.inl ⟨_, rfl⟩, .inl ⟨_, rfl⟩, .inl ⟨_, rfl⟩, .inr rfl, List.forall_mem_nil _⟩
  obtain ⟨w, hw⟩ : ∃ w, lib.unmarshalStrict 2 _ = .ok w :=
    unmarshal_strict_simple (hnames name hname).1 (hnames name hname).2 hsimple
  have hread := Document.read_json_text lib.quote (hplain name hname)
  refine ⟨_, Sample.zeroKey, ⟨_, hread, .tail _ (.tail _ (.tail _ (.head _)))⟩, ?_⟩
  rw [hread, parse_jwk_members hw, public_key_ok]
  exact ⟨hprivate name hname, ⟨rfl, rfl, decode_encode_base64 _⟩, rfl⟩

theorem embedded_key_ok {prof : Profile} (hprof : prof.embeddedKey ≠ some false)
    {hdr : HeaderJSON} (hkid : hdr.kid = none) (hjwk : hdr.jwk = some Sample.zeroJWK) :
    ∃ key, lib.headerKey prof hdr = .ok key := by
  have hkey : lib.parseJWK (.ofJson Sample.zeroJWK) = .ok Sample.zeroKey :=
    parse_canonical_object lib rfl
  rw [headerKey, hkid, hjwk]
  simp only [malformed, refuse_guard, hkey]
  exact ⟨_, hprof, rfl⟩

/-- A header whose members fit is accepted if its parameters are. -/
theorem header_accepted {members : List (String × Json)} {prof : Profile}
    (hplain : Text.isPlainJson (.object members) = true)
    (hdistinct : (Json.object members).distinct = true) (hdepth : (Json.object members).depth ≤ 32)
    (hfits : ∀ m ∈ members, ∃ sf ∈ (jwsStructs 1).fields, sf.tag = m.1 ∧
      (Simple m.2 ∨ sf.type = .basic .rawMessage))
    (hcheck : ∃ header, lib.checkHeader prof (.ofMembers members) = .ok header) :
    ∃ body msg, lib.parse body prof = .ok msg ∧ ∀ m ∈ members, lib.HeaderHas body m.1 m.2 := by
  obtain ⟨w, hw⟩ := unmarshal_strict_fits hdistinct hdepth hfits
  obtain ⟨header, hheader⟩ := hcheck
  exact parse_of_header hplain hw hheader

/-- A null `kid` beside a key is accepted. -/
theorem null_kid_accepted {prof : Profile} (hprof : prof = requestProfile ∨ prof = innerProfile) :
    ∃ jwk body msg, lib.HeaderHas body "jwk" jwk ∧ lib.HeaderHas body "kid" (.scalar .null) ∧
      lib.parse body prof = .ok msg := by
  obtain rfl | rfl := hprof
  · have hcheck : ∃ header, lib.checkHeader requestProfile
        (.ofMembers (("nonce", .string "AA") :: Sample.nullKid)) = .ok header :=
      check_header_ok.2 ⟨rfl, rfl, by decide, by decide, by decide, ⟨"AA", rfl⟩,
        lib.embedded_key_ok (by decide) rfl rfl⟩
    obtain ⟨body, msg, hparse, hhas⟩ := lib.header_accepted (by decide +kernel)
      (by decide +kernel) (by decide +kernel) (by decide +kernel) hcheck
    exact ⟨_, body, msg, hhas ("jwk", Sample.zeroJWK) (by simp [Sample.nullKid]),
      hhas ("kid", .scalar .null) (by simp [Sample.nullKid]), hparse⟩
  · have hcheck : ∃ header, lib.checkHeader innerProfile (.ofMembers Sample.nullKid) = .ok header :=
      check_header_ok.2 ⟨rfl, rfl, by decide, by decide, by decide, ⟨"", rfl⟩,
        lib.embedded_key_ok (by decide) rfl rfl⟩
    obtain ⟨body, msg, hparse, hhas⟩ := lib.header_accepted (by decide +kernel)
      (by decide +kernel) (by decide +kernel) (by decide +kernel) hcheck
    exact ⟨_, body, msg, hhas ("jwk", Sample.zeroJWK) (by simp [Sample.nullKid]),
      hhas ("kid", .scalar .null) (by simp [Sample.nullKid]), hparse⟩

/-- A null nonce is accepted where none is allowed. -/
theorem null_nonce_accepted {prof : Profile} (hprof : prof = innerProfile ∨ prof = macProfile) :
    ∃ body msg, lib.HeaderHas body "nonce" (.scalar .null) ∧ lib.parse body prof = .ok msg := by
  obtain rfl | rfl := hprof
  · have hcheck : ∃ header,
        lib.checkHeader innerProfile (.ofMembers Sample.nullNonce) = .ok header :=
      check_header_ok.2 ⟨rfl, rfl, by decide, by decide, by decide, ⟨"", rfl⟩,
        lib.embedded_key_ok (by decide) rfl rfl⟩
    obtain ⟨body, msg, hparse, hhas⟩ := lib.header_accepted (by decide +kernel)
      (by decide +kernel) (by decide +kernel) (by decide +kernel) hcheck
    exact ⟨body, msg, hhas ("nonce", .scalar .null) (by simp [Sample.nullNonce]), hparse⟩
  · have hcheck : ∃ header,
        lib.checkHeader macProfile (.ofMembers Sample.nullMACNonce) = .ok header :=
      check_header_ok.2 ⟨rfl, rfl, by decide, by decide, by decide, ⟨"", rfl⟩, ("k", none), rfl⟩
    obtain ⟨body, msg, hparse, hhas⟩ := lib.header_accepted (by decide +kernel)
      (by decide +kernel) (by decide +kernel) (by decide +kernel) hcheck
    exact ⟨body, msg, hhas ("nonce", .scalar .null) (by simp [Sample.nullMACNonce]), hparse⟩

/-- A private member that is accepted is null. -/
theorem private_member_null {lib : Library} {data : Bytes} {key : PublicKey} {name : String}
    {v : Json} (hname : name ∈ privateMembers) (hhas : lib.Has data name v)
    (h : lib.parseJWK (.read lib.quote data) = .ok key) : v = .scalar .null := by
  obtain ⟨members, hread, hparse⟩ := parse_jwk_read h
  obtain ⟨_, w, hmembers, hw, hprivate, -, -⟩ := parse_jwk_ok hparse
  cases hmembers
  have hlookup := unmarshal_strict_lookup hw (has_members hhas hread)
  have hnil : pointerOf (members.lookup name) = none := by
    simp only [JwkJSON.HasPrivate, JwkJSON.ofMembers, not_or, not_not] at hprivate
    obtain ⟨hd, hp, hq, hdp, hdq, hqi, hoth, hk⟩ := hprivate
    simp only [privateMembers, List.mem_cons, List.not_mem_nil, or_false] at hname
    obtain rfl | rfl | rfl | rfl | rfl | rfl | rfl | rfl := hname <;> assumption
  rw [hlookup] at hnil
  unfold pointerOf at hnil
  split at hnil
  · rename_i heq
    exact Option.some_inj.1 heq
  · cases hnil

section Forbidden

variable {lib : Library} {body : Bytes} {prof : Profile} {msg : Message} {v : Json}

theorem unprotected_member_rejected {name : String} (hname : name ∈ ["header", "signatures"])
    (hhas : lib.Has body name v) : Rejects (lib.parse body prof) := by
  intro msg hparse
  obtain ⟨members, w, _, _, hread, hw, hsignatures, hheader, -⟩ := parse_ok hparse
  have hlookup := unmarshal_strict_lookup hw (has_members hhas hread)
  simp only [List.mem_cons, List.not_mem_nil, or_false] at hname
  obtain rfl | rfl := hname
  · exact nomatch hheader.symm.trans hlookup
  · exact nomatch hsignatures.symm.trans hlookup

theorem critical_member_rejected {name : String} (hname : name ∈ ["crit", "b64"])
    (hhas : lib.HeaderHas body name v) : Rejects (lib.parse body prof) := by
  intro msg hparse
  obtain ⟨members, w, hw, hcheck, hlookup⟩ := header_members hparse
  obtain ⟨hcrit, hb64, -⟩ := check_header_ok.1 ⟨_, hcheck⟩
  have hmember := hlookup name v hhas
  simp only [List.mem_cons, List.not_mem_nil, or_false] at hname
  obtain rfl | rfl := hname
  · exact nomatch hcrit.symm.trans hmember
  · exact nomatch hb64.symm.trans hmember

/-- A `kid` that is accepted beside a `jwk` is null. -/
theorem kid_beside_jwk_null {jwk : Json} (hjwk : lib.HeaderHas body "jwk" jwk)
    (hkid : lib.HeaderHas body "kid" v) (hparse : lib.parse body prof = .ok msg) :
    v = .scalar .null ∧ prof.embeddedKey ≠ some false := by
  obtain ⟨members, w, hw, hcheck, hlookup⟩ := header_members hparse
  obtain ⟨-, -, -, -, -, -, key, hkey⟩ := check_header_ok.1 ⟨_, hcheck⟩
  obtain ⟨hnone, hembedded⟩ := header_key_embedded hkey (hlookup _ _ hjwk)
  have hmember := hlookup _ _ hkid
  have hnil : stringOf (members.lookup "kid") = none := hnone
  rw [hmember] at hnil
  exact ⟨string_pointer_nil hw (show (jwsStructs 1).fields[3]? = some _ from rfl) rfl hmember hnil,
    hembedded⟩

/-- A nonce that is accepted where none is allowed is null. -/
theorem forbidden_nonce_null (hprof : prof.nonce = false) (hhas : lib.HeaderHas body "nonce" v)
    (hparse : lib.parse body prof = .ok msg) : v = .scalar .null := by
  obtain ⟨members, w, hw, hcheck, hlookup⟩ := header_members hparse
  obtain ⟨-, -, -, -, -, ⟨text, htext⟩, -⟩ := check_header_ok.1 ⟨_, hcheck⟩
  have hmember := hlookup _ _ hhas
  have hnil : stringOf (members.lookup "nonce") = none := check_nonce_forbidden htext hprof
  rw [hmember] at hnil
  exact string_pointer_nil hw (show (jwsStructs 1).fields[1]? = some _ from rfl) rfl hmember hnil

end Forbidden

/-- A forbidden member is rejected whatever its value if its field is raw JSON: `header`,
`signatures`, `crit` and `b64`. The private members of a JWK, a `kid` beside a `jwk` and a nonce
where none is allowed have pointer fields: they are rejected if and only if they are not null.
`ParseMAC` rejects every `jwk`. -/
theorem forbidden_member_rejected (lib : Library) :
    (∀ name ∈ privateMembers, ∀ v,
      (∀ data, lib.Has data name v → Rejects (lib.parseJWK (.read lib.quote data))) ↔
        v ≠ .scalar .null) ∧
    (∀ prof, ∀ name ∈ ["header", "signatures"], ∀ v body, lib.Has body name v →
      Rejects (lib.parse body prof)) ∧
    (∀ prof, ∀ name ∈ ["crit", "b64"], ∀ v body, lib.HeaderHas body name v →
      Rejects (lib.parse body prof)) ∧
    (∀ prof ∈ [requestProfile, innerProfile, macProfile], ∀ kid,
      (∀ jwk body, lib.HeaderHas body "jwk" jwk → lib.HeaderHas body "kid" kid →
        Rejects (lib.parse body prof)) ↔ kid ≠ .scalar .null ∨ prof = macProfile) ∧
    (∀ prof ∈ [innerProfile, macProfile], ∀ nonce,
      (∀ body, lib.HeaderHas body "nonce" nonce → Rejects (lib.parse body prof)) ↔
        nonce ≠ .scalar .null) := by
  refine ⟨fun name hname v => ⟨?_, ?_⟩, fun _ _ hname _ _ => unprotected_member_rejected hname,
    fun _ _ hname _ _ => critical_member_rejected hname, fun prof hprof kid => ⟨?_, ?_⟩,
    fun prof hprof nonce => ⟨?_, ?_⟩⟩
  · rintro h rfl
    obtain ⟨data, key, hhas, hkey⟩ := lib.private_null_accepted hname
    exact h data hhas key hkey
  · exact fun hv data hhas key hkey => hv (private_member_null hname hhas hkey)
  · intro h
    by_contra hnot
    rw [not_or, not_not] at hnot
    obtain ⟨rfl, hmac⟩ := hnot
    have hother : prof = requestProfile ∨ prof = innerProfile := by
      simp only [List.mem_cons, List.not_mem_nil, or_false] at hprof
      tauto
    obtain ⟨jwk, body, msg, hjwk, hkid, hparse⟩ := lib.null_kid_accepted hother
    exact h jwk body hjwk hkid msg hparse
  · intro h jwk body hjwk hkid msg hparse
    obtain ⟨hnull, hembedded⟩ := kid_beside_jwk_null hjwk hkid hparse
    rcases h with hne | rfl
    · exact hne hnull
    · exact hembedded rfl
  · rintro h rfl
    have hother : prof = innerProfile ∨ prof = macProfile := by simpa using hprof
    obtain ⟨body, msg, hnonce, hparse⟩ := lib.null_nonce_accepted hother
    exact h body hnonce msg hparse
  · intro hne body hhas msg hparse
    have hforbidden : prof.nonce = false := by
      simp only [List.mem_cons, List.not_mem_nil, or_false] at hprof
      obtain rfl | rfl := hprof <;> rfl
    exact hne (forbidden_nonce_null hforbidden hhas hparse)

end Library

/-- A JWK with a private exponent of null is accepted. -/
theorem null_private_exponent_accepted : ∃ data key,
    Sample.library.Has data "d" (.scalar .null) ∧
      Sample.library.parseJWK (.read Sample.library.quote data) = .ok key :=
  Sample.library.private_null_accepted (by decide)

end AcmeServer.Jws
