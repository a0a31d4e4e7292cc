import AcmeServer.Base64.Basic
import AcmeServer.Der.Basic
import AcmeServer.Jws.Strict
import Mathlib.Data.Nat.Size

/-!
# Public keys as JWKs

`ParseJWK` and `MarshalJWK`. What the first returns is said once, for all key types, by
`public_key_ok`: the key is described by the document and passes the checks of its type. The
canonical text of such a key is again a document that describes it (`describes_members`), from which
the round trip and the injectivity of `MarshalJWK` follow.
-/

namespace AcmeServer

/-! ## Points on the NIST curves -/

namespace Curve

/-- The JWA name of a curve. -/
def name : Curve → String
  | .p256 => "P-256"
  | .p384 => "P-384"
  | .p521 => "P-521"

/-- The size of a coordinate in bytes. -/
def size : Curve → Nat
  | .p256 => 32
  | .p384 => 48
  | .p521 => 66

/-- The order of the field. -/
def prime : Curve → Nat
  | .p256 => 2 ^ 256 - 2 ^ 224 + 2 ^ 192 + 2 ^ 96 - 1
  | .p384 => 2 ^ 384 - 2 ^ 128 - 2 ^ 96 + 2 ^ 32 - 1
  | .p521 => 2 ^ 521 - 1

/-- The constant of the curve equation. -/
def constant : Curve → Nat
  | .p256 => 0x5ac635d8aa3a93e7b3ebbd55769886bc651d06b0cc53b0f63bce3c3e27d2604b
  | .p384 =>
      0xb3312fa7e23ee7e4988e056be3f82d19181d9c6efe814112 * 2 ^ 192 +
        0x314088f5013875ac656398d8a2ed19d2a85c8edd3ec2aef
  | .p521 =>
      0x51953eb9618e1c9a1f929a21a0b68540eea2da725b99b315f3b8b489918ef109e1 * 2 ^ 256 +
        0x56193951ec7e937b1652c0bd3bb1bf073573df883d2c34f1ef451fd46b503f00

/-- The point satisfies `y² = x³ - 3x + b` in the field of the curve. -/
def isOnCurve (c : Curve) (x y : Nat) : Bool :=
  x < c.prime ∧ y < c.prime ∧ (y ^ 2 + 3 * x) % c.prime = (x ^ 3 + c.constant) % c.prime

end Curve

namespace Jws

open Der (bytesNat natBytes)

/-! ## Base64url -/

/-- Reports whether a text uses only the unpadded base64url alphabet. -/
def isBase64URL (s : String) : Bool :=
  s.toList.all fun c => c.isUpper || c.isLower || c.isDigit || c = '-' || c = '_'

/-- Decodes unpadded base64url and rejects every character outside its alphabet. -/
def decodeBase64 (s : String) : Option Bytes :=
  if isBase64URL s then Base64.urlSafe.decode s.toList else none

/-- Encodes bytes as unpadded base64url. -/
def encodeBase64 (b : Bytes) : String := String.ofList (Base64.urlSafe.encode b)

theorem encode_base64_all {p : Char → Bool} (h : Base64.urlSafe.chars.all p = true) (b : Bytes) :
    (encodeBase64 b).toList.all p = true := by
  rw [encodeBase64, String.toList_ofList, List.all_eq_true]
  exact fun c hc => List.all_eq_true.1 h c (Base64.Alphabet.mem_encode _ hc)

@[simp] theorem decode_encode_base64 (b : Bytes) : decodeBase64 (encodeBase64 b) = some b := by
  have hvalid : isBase64URL (encodeBase64 b) = true := encode_base64_all (by decide +kernel) b
  rw [decodeBase64, if_pos hvalid, encodeBase64, String.toList_ofList]
  exact Base64.Alphabet.decode_encode _ b

theorem encode_base64_plain (b : Bytes) : Text.Plain (encodeBase64 b) := by
  have hall := encode_base64_all
    (p := fun c => c.toNat < 0x7F ∧ Text.isPlain (UInt8.ofNat c.toNat)) (by decide +kernel) b
  exact fun c hc => of_decide_eq_true (List.all_eq_true.1 hall c hc)

/-! ## Keys -/

/-- `ecdsa.ParseUncompressedPublicKey`. -/
def parseUncompressedPublicKey (curve : Curve) (point : Bytes) : Option PublicKey :=
  let x := (point.drop 1).take (curve.size)
  let y := point.drop (1 + curve.size)
  if point.length = 1 + 2 * curve.size ∧ point.head? = some 4 ∧
      curve.isOnCurve (bytesNat x) (bytesNat y) then
    some (.ecdsa curve x y)
  else none

/-- `Bytes` of an ECDSA key, the uncompressed point. -/
def uncompressedPoint (curve : Curve) (x y : Bytes) : Option Bytes :=
  if curve.isOnCurve (bytesNat x) (bytesNat y) then some (4 :: (x ++ y)) else none

/-- Every member of a JWK that decides whether a key is acceptable. -/
structure JwkJSON where
  kty : String
  crv : String
  x : String
  y : String
  n : String
  e : String
  d : Option Json
  p : Option Json
  q : Option Json
  dp : Option Json
  dq : Option Json
  qi : Option Json
  oth : Option Json
  k : Option Json

namespace JwkJSON

/-- The decoded struct. -/
def ofValue (w : Value Content) : JwkJSON where
  kty := (w.field 0).text
  crv := (w.field 1).text
  x := (w.field 2).text
  y := (w.field 3).text
  n := (w.field 4).text
  e := (w.field 5).text
  d := (w.field 6).rawPointer
  p := (w.field 7).rawPointer
  q := (w.field 8).rawPointer
  dp := (w.field 9).rawPointer
  dq := (w.field 10).rawPointer
  qi := (w.field 11).rawPointer
  oth := (w.field 12).rawPointer
  k := (w.field 13).rawPointer

/-- The struct by the members of the decoded object. -/
def ofMembers (members : List (String × Json)) : JwkJSON where
  kty := Library.textOf (members.lookup "kty")
  crv := Library.textOf (members.lookup "crv")
  x := Library.textOf (members.lookup "x")
  y := Library.textOf (members.lookup "y")
  n := Library.textOf (members.lookup "n")
  e := Library.textOf (members.lookup "e")
  d := Library.pointerOf (members.lookup "d")
  p := Library.pointerOf (members.lookup "p")
  q := Library.pointerOf (members.lookup "q")
  dp := Library.pointerOf (members.lookup "dp")
  dq := Library.pointerOf (members.lookup "dq")
  qi := Library.pointerOf (members.lookup "qi")
  oth := Library.pointerOf (members.lookup "oth")
  k := Library.pointerOf (members.lookup "k")

/-- A private member is set. -/
def HasPrivate (k : JwkJSON) : Prop :=
  k.d ≠ none ∨ k.p ≠ none ∨ k.q ≠ none ∨ k.dp ≠ none ∨ k.dq ≠ none ∨ k.qi ≠ none ∨
    k.oth ≠ none ∨ k.k ≠ none

instance (k : JwkJSON) : Decidable k.HasPrivate :=
  inferInstanceAs (Decidable (_ ∨ _))

end JwkJSON

/-- A rejection. -/
def refuse {α : Type} (code : JWSCode) (detail : String) : Except Stop α :=
  .error (.refused ⟨some code, detail⟩)

/-- A `badPublicKey` error. -/
def badKey {α : Type} (detail : String) : Except Stop α := refuse .badPublicKey detail

/-- The value, or a rejection where there is none. -/
def need {α : Type} (code : JWSCode) (value : Option α) (detail : String) : Except Stop α :=
  match value with
  | some a => .ok a
  | none => refuse code detail

/-- The error of a document inside of another one. -/
def Stop.within (code : JWSCode) (place : String) : Stop → Stop
  | .refused err => .refused ⟨some code, place ++ err.detail⟩
  | .emptyStack => .emptyStack

/-- RSA modulus sizes accepted for account keys, in bits. -/
def minRSABits : Nat := 2048
def maxRSABits : Nat := 4096

/-- The largest public exponent the RSA implementation verifies with. -/
def maxRSAExponent : Nat := 2 ^ 31 - 1

/-- The length of an Ed25519 key. -/
def ed25519PublicKeySize : Nat := 32

/-- The curve of a JWA name. -/
def curveNamed (crv : String) : Option Curve := [.p256, .p384, .p521].find? (·.name = crv)

namespace Library

variable (lib : Library)

/-- Decodes an EC JWK and checks that the point lies on the named curve. -/
def parseECKey (k : JwkJSON) : Except Stop PublicKey := do
  let curve ← need .badPublicKey (curveNamed k.crv) ("unsupported EC curve " ++ lib.quote k.crv)
  let x ← need .badPublicKey (decodeBase64 k.x) "EC x coordinate is not valid base64url"
  let y ← need .badPublicKey (decodeBase64 k.y) "EC y coordinate is not valid base64url"
  if x.length ≠ curve.size ∨ y.length ≠ curve.size then
    badKey ("EC coordinates on " ++ k.crv ++ " must be " ++ toString curve.size ++ " bytes")
  else
    need .badPublicKey (parseUncompressedPublicKey curve (4 :: (x ++ y)))
      "EC point is not on the curve"

/-- Decodes an RSA JWK and enforces the modulus and exponent bounds. -/
def parseRSAKey (k : JwkJSON) : Except Stop PublicKey := do
  let n ← need .badPublicKey ((decodeBase64 k.n).filter (· ≠ []))
    "RSA modulus is missing or not valid base64url"
  let e ← need .badPublicKey ((decodeBase64 k.e).filter (· ≠ []))
    "RSA exponent is missing or not valid base64url"
  let exponent := bytesNat e
  let modulus := bytesNat n
  if ¬exponent < 2 ^ 63 ∨ exponent < 3 ∨ maxRSAExponent < exponent ∨ exponent % 2 = 0 then
    badKey "RSA public exponent must be odd and between 3 and 2^31-1"
  else if modulus.size < minRSABits ∨ maxRSABits < modulus.size then
    badKey ("RSA modulus must be between " ++ toString minRSABits ++ " and " ++
      toString maxRSABits ++ " bits, got " ++ toString modulus.size)
  else if modulus % 2 = 0 then badKey "RSA modulus must be odd"
  else .ok (.rsa modulus exponent)

/-- Decodes an Ed25519 JWK. -/
def parseOKPKey (k : JwkJSON) : Except Stop PublicKey :=
  if k.crv ≠ "Ed25519" then badKey ("unsupported OKP curve " ++ lib.quote k.crv)
  else do
    let x ← need .badPublicKey (decodeBase64 k.x) "OKP x coordinate is not valid base64url"
    if x.length ≠ ed25519PublicKeySize then
      badKey ("Ed25519 public key must be " ++ toString ed25519PublicKeySize ++ " bytes")
    else .ok (.ed25519 x)

/-- The public key of a decoded JWK. -/
def publicKey (k : JwkJSON) : Except Stop PublicKey :=
  if k.HasPrivate then badKey "JWK contains private key material"
  else if k.kty = "EC" then lib.parseECKey k
  else if k.kty = "RSA" then parseRSAKey k
  else if k.kty = "OKP" then lib.parseOKPKey k
  else if k.kty = "" then badKey "JWK has no key type"
  else badKey ("unsupported JWK key type " ++ lib.quote k.kty)

/-- Parses a public JWK into a public key. -/
def parseJWK (raw : Document) : Except Stop PublicKey := do
  let w ← (lib.unmarshalStrict 2 raw).mapError (Stop.within .badPublicKey "invalid JWK: ")
  lib.publicKey (.ofValue w)

/-- Encodes a public key as the canonical JWK. RSA integers drop leading zero octets and EC
coordinates keep the fixed width of their curve. -/
def marshalJWK : PublicKey → Except String Bytes
  | .ecdsa curve x y =>
      match uncompressedPoint curve x y with
      | none => .error ("jws: " ++ lib.pointError)
      | some point =>
          if point.length ≠ 1 + 2 * curve.size ∨ point.head? ≠ some 4 then
            .error "jws: EC public key is not an uncompressed point"
          else
            let x := (point.drop 1).take curve.size
            let y := point.drop (1 + curve.size)
            .ok (Text.ascii ("\x7b\"crv\":" ++ lib.quote curve.name ++ ",\"kty\":\"EC\",\"x\":" ++
              lib.quote (encodeBase64 x) ++ ",\"y\":" ++ lib.quote (encodeBase64 y) ++ "\x7d"))
  | .rsa n e =>
      if n = 0 ∨ e = 0 then .error "jws: invalid RSA public key"
      else .ok (Text.ascii ("\x7b\"e\":" ++ lib.quote (encodeBase64 (natBytes e)) ++
        ",\"kty\":\"RSA\",\"n\":" ++ lib.quote (encodeBase64 (natBytes n)) ++ "\x7d"))
  | .ed25519 key =>
      if key.length ≠ ed25519PublicKeySize then .error "jws: invalid Ed25519 public key"
      else .ok (Text.ascii ("\x7b\"crv\":\"Ed25519\",\"kty\":\"OKP\",\"x\":" ++
        lib.quote (encodeBase64 key) ++ "\x7d"))

end Library

/-! ## The keys that are returned -/

/-- The checks on a key by its type. -/
def Acceptable : PublicKey → Prop
  | .ecdsa curve x y =>
      x.length = curve.size ∧ y.length = curve.size ∧
        curve.isOnCurve (bytesNat x) (bytesNat y) = true
  | .rsa n e =>
      2048 ≤ n.size ∧ n.size ≤ 4096 ∧ n % 2 = 1 ∧ 3 ≤ e ∧ e ≤ 2 ^ 31 - 1 ∧ e % 2 = 1
  | .ed25519 key => key.length = 32

/-- The key that a JWK describes: the members that each key type has. -/
def Describes (k : JwkJSON) : PublicKey → Prop
  | .ecdsa curve x y =>
      k.kty = "EC" ∧ k.crv = curve.name ∧ decodeBase64 k.x = some x ∧ decodeBase64 k.y = some y
  | .rsa n e =>
      k.kty = "RSA" ∧ (decodeBase64 k.n).map bytesNat = some n ∧
        (decodeBase64 k.e).map bytesNat = some e
  | .ed25519 key => k.kty = "OKP" ∧ k.crv = "Ed25519" ∧ decodeBase64 k.x = some key

theorem need_eq_ok {α : Type} {code : JWSCode} {value : Option α} {detail : String} {a : α} :
    need code value detail = .ok a ↔ value = some a := by
  cases value with
  | none => exact ⟨nofun, nofun⟩
  | some b => exact ⟨fun h => by cases h; rfl, fun h => by cases h; rfl⟩

theorem refuse_guard {α : Type} {p : Prop} [Decidable p] {code : JWSCode} {detail : String}
    {x : Except Stop α} {a : α} : (if p then refuse code detail else x) = .ok a ↔ ¬p ∧ x = .ok a :=
  Fallible.guard_eq_ok

theorem bad_key_guard {α : Type} {p : Prop} [Decidable p] {detail : String} {x : Except Stop α}
    {a : α} : (if p then badKey detail else x) = .ok a ↔ ¬p ∧ x = .ok a :=
  refuse_guard

theorem curve_named_eq_some {crv : String} {c : Curve} :
    curveNamed crv = some c ↔ crv = c.name := by
  constructor
  · intro h
    have hname := List.find?_some h
    exact (of_decide_eq_true hname).symm
  · rintro rfl
    cases c <;> decide +kernel

/-- The two coordinates of an uncompressed point. -/
theorem split_point {size : Nat} {x y : Bytes} (hx : x.length = size) :
    ((4 :: (x ++ y) : Bytes).drop 1).take size = x ∧
      (4 :: (x ++ y) : Bytes).drop (1 + size) = y := by
  subst hx
  refine ⟨by simp, ?_⟩
  rw [Nat.add_comm, List.drop_succ_cons, List.drop_left]

theorem parse_uncompressed_eq_some {curve : Curve} {x y : Bytes} {key : PublicKey}
    (hx : x.length = curve.size) (hy : y.length = curve.size) :
    parseUncompressedPublicKey curve (4 :: (x ++ y)) = some key ↔
      curve.isOnCurve (bytesNat x) (bytesNat y) = true ∧ key = .ecdsa curve x y := by
  obtain ⟨hfirst, hsecond⟩ := split_point (y := y) hx
  have hlength : (4 :: (x ++ y) : Bytes).length = 1 + 2 * curve.size := by
    rw [List.length_cons, List.length_append]
    omega
  rw [parseUncompressedPublicKey, hfirst, hsecond]
  simp only [hlength, List.head?_cons, true_and]
  rw [Option.ite_none_right_eq_some, Option.some_inj, eq_comm (a := key)]

namespace Library

variable {lib : Library} {k : JwkJSON} {key : PublicKey}

theorem parse_ec_key_ok : lib.parseECKey k = .ok key ↔
    ∃ curve x y, key = .ecdsa curve x y ∧ k.crv = curve.name ∧ decodeBase64 k.x = some x ∧
      decodeBase64 k.y = some y ∧ Acceptable key := by
  simp only [parseECKey, Fallible.bind_eq_ok, need_eq_ok, bad_key_guard, curve_named_eq_some,
    not_or, not_not]
  constructor
  · rintro ⟨curve, hcrv, x, hx, y, hy, ⟨hxl, hyl⟩, hpoint⟩
    obtain ⟨hon, rfl⟩ := (parse_uncompressed_eq_some hxl hyl).1 hpoint
    exact ⟨curve, x, y, rfl, hcrv, hx, hy, hxl, hyl, hon⟩
  · rintro ⟨curve, x, y, rfl, hcrv, hx, hy, hxl, hyl, hon⟩
    exact ⟨curve, hcrv, x, hx, y, hy, ⟨hxl, hyl⟩, (parse_uncompressed_eq_some hxl hyl).2 ⟨hon, rfl⟩⟩

theorem parse_rsa_key_ok : parseRSAKey k = .ok key ↔
    ∃ n e, key = .rsa n e ∧ (decodeBase64 k.n).map bytesNat = some n ∧
      (decodeBase64 k.e).map bytesNat = some e ∧ Acceptable key := by
  have hfilter : ∀ (o : Option Bytes) b, o.filter (· ≠ []) = some b ↔ o = some b ∧ b ≠ [] := by
    intro o b
    simp [Option.filter_eq_some_iff]
  simp only [parseRSAKey, Fallible.bind_eq_ok, need_eq_ok, bad_key_guard]
  simp only [hfilter, not_or, not_lt, minRSABits, maxRSABits, maxRSAExponent,
    Option.map_eq_some_iff]
  constructor
  · rintro ⟨n, ⟨hn, -⟩, e, ⟨he, -⟩, ⟨-, hlow, hhigh, hodd⟩, ⟨hmin, hmax⟩, hmodulus, hkey⟩
    cases hkey
    exact ⟨bytesNat n, bytesNat e, rfl, ⟨n, hn, rfl⟩, ⟨e, he, rfl⟩, hmin, hmax,
      Nat.mod_two_ne_zero.1 hmodulus, hlow, hhigh, Nat.mod_two_ne_zero.1 hodd⟩
  · rintro ⟨_, _, rfl, ⟨n, hn, rfl⟩, ⟨e, he, rfl⟩, hmin, hmax, hmodulus, hlow, hhigh, hodd⟩
    -- An empty string has no odd number.
    have hne : ∀ b : Bytes, bytesNat b % 2 = 1 → b ≠ [] := by
      rintro _ hb rfl
      cases hb
    exact ⟨n, ⟨hn, hne n hmodulus⟩, e, ⟨he, hne e hodd⟩, ⟨by omega, hlow, hhigh, by omega⟩,
      ⟨hmin, hmax⟩, by omega, rfl⟩

theorem parse_okp_key_ok : lib.parseOKPKey k = .ok key ↔
    ∃ x, key = .ed25519 x ∧ k.crv = "Ed25519" ∧ decodeBase64 k.x = some x ∧ Acceptable key := by
  simp only [parseOKPKey, Fallible.bind_eq_ok, need_eq_ok, bad_key_guard]
  simp only [not_not, ed25519PublicKeySize]
  constructor
  · rintro ⟨hcrv, x, hx, hlength, hkey⟩
    cases hkey
    exact ⟨x, rfl, hcrv, hx, hlength⟩
  · rintro ⟨x, rfl, hcrv, hx, hlength⟩
    exact ⟨hcrv, x, hx, hlength, rfl⟩

/-- A JWK without private members gives the key that it describes, if the key is acceptable. -/
theorem public_key_ok : lib.publicKey k = .ok key ↔
    ¬k.HasPrivate ∧ Describes k key ∧ Acceptable key := by
  rw [publicKey, bad_key_guard]
  refine and_congr_right fun _ => ?_
  split_ifs with hec hrsa hokp hnone
  · rw [parse_ec_key_ok]
    constructor
    · rintro ⟨curve, x, y, rfl, hcrv, hx, hy, hok⟩
      exact ⟨⟨hec, hcrv, hx, hy⟩, hok⟩
    · rintro ⟨hdescribes, hok⟩
      cases key with
      | ecdsa curve x y => exact ⟨curve, x, y, rfl, hdescribes.2.1, hdescribes.2.2.1,
          hdescribes.2.2.2, hok⟩
      | rsa n e => exact absurd (hec.symm.trans hdescribes.1) (by decide)
      | ed25519 x => exact absurd (hec.symm.trans hdescribes.1) (by decide)
  · rw [parse_rsa_key_ok]
    constructor
    · rintro ⟨n, e, rfl, hn, he, hok⟩
      exact ⟨⟨hrsa, hn, he⟩, hok⟩
    · rintro ⟨hdescribes, hok⟩
      cases key with
      | ecdsa curve x y => exact absurd (hrsa.symm.trans hdescribes.1) (by decide)
      | rsa n e => exact ⟨n, e, rfl, hdescribes.2.1, hdescribes.2.2, hok⟩
      | ed25519 x => exact absurd (hrsa.symm.trans hdescribes.1) (by decide)
  · rw [parse_okp_key_ok]
    constructor
    · rintro ⟨x, rfl, hcrv, hx, hok⟩
      exact ⟨⟨hokp, hcrv, hx⟩, hok⟩
    · rintro ⟨hdescribes, hok⟩
      cases key with
      | ecdsa curve x y => exact absurd (hokp.symm.trans hdescribes.1) (by decide)
      | rsa n e => exact absurd (hokp.symm.trans hdescribes.1) (by decide)
      | ed25519 x => exact ⟨x, rfl, hdescribes.2.1, hdescribes.2.2, hok⟩
  all_goals
    refine ⟨nofun, fun ⟨hdescribes, _⟩ => ?_⟩
    cases key with
    | ecdsa curve x y => exact absurd hdescribes.1 hec
    | rsa n e => exact absurd hdescribes.1 hrsa
    | ed25519 x => exact absurd hdescribes.1 hokp

/-! ## Keys from documents -/

theorem jwk_of_value {members : List (String × Json)} {w : Value Content}
    (h : lib.unmarshalStrict 2 (.ofJson (.object members)) = .ok w) :
    JwkJSON.ofValue w = .ofMembers members := by
  have htext {i : Nat} {sf : StructField BasicType 3} (hsf : jwkJSON.fields[i]? = some sf)
      (htype : sf.type = .basic .string) : (w.field i).text = textOf (members.lookup sf.tag) :=
    text_field h (show (jwsStructs 2).fields[i]? = some sf from hsf) htype
  have hpointer {i : Nat} {sf : StructField BasicType 3} (hsf : jwkJSON.fields[i]? = some sf)
      (htype : sf.type = .pointer (.basic .rawMessage)) :
      (w.field i).rawPointer = pointerOf (members.lookup sf.tag) :=
    raw_pointer_field h (show (jwsStructs 2).fields[i]? = some sf from hsf) htype
  unfold JwkJSON.ofValue JwkJSON.ofMembers
  rw [@htext 0 _ rfl rfl, @htext 1 _ rfl rfl, @htext 2 _ rfl rfl, @htext 3 _ rfl rfl,
    @htext 4 _ rfl rfl, @htext 5 _ rfl rfl, @hpointer 6 _ rfl rfl, @hpointer 7 _ rfl rfl,
    @hpointer 8 _ rfl rfl, @hpointer 9 _ rfl rfl, @hpointer 10 _ rfl rfl, @hpointer 11 _ rfl rfl,
    @hpointer 12 _ rfl rfl, @hpointer 13 _ rfl rfl]
  rfl

/-- The key of an object that is decoded. -/
theorem parse_jwk_members {members : List (String × Json)} {w : Value Content}
    (h : lib.unmarshalStrict 2 (.ofJson (.object members)) = .ok w) :
    lib.parseJWK (.ofJson (.object members)) = lib.publicKey (.ofMembers members) := by
  rw [parseJWK, h, ← jwk_of_value h]
  rfl

/-- Only objects give keys. -/
theorem parse_jwk_ok {doc : Json} (h : lib.parseJWK (.ofJson doc) = .ok key) :
    ∃ members w, doc = .object members ∧
      lib.unmarshalStrict 2 (.ofJson (.object members)) = .ok w ∧
      ¬(JwkJSON.ofMembers members).HasPrivate ∧ Describes (.ofMembers members) key ∧
      Acceptable key := by
  obtain ⟨w, hw, hkey⟩ := Fallible.bind_eq_ok.1 h
  rw [Fallible.map_error_eq_ok] at hw
  rcases unmarshal_strict_document hw with ⟨members, rfl⟩ | ⟨rfl, rfl⟩
  · rw [jwk_of_value hw] at hkey
    exact ⟨members, w, rfl, hw, public_key_ok.1 hkey⟩
  · have hdescribes := (public_key_ok.1 hkey).2.1
    cases key <;> exact absurd hdescribes.1 (by decide)

/-! ## The canonical text -/

/-- The members of the canonical JWK. -/
def canonicalMembers : PublicKey → List (String × String)
  | .ecdsa curve x y =>
      [("crv", curve.name), ("kty", "EC"), ("x", encodeBase64 x), ("y", encodeBase64 y)]
  | .rsa n e => [("e", encodeBase64 (natBytes e)), ("kty", "RSA"), ("n", encodeBase64 (natBytes n))]
  | .ed25519 key => [("crv", "Ed25519"), ("kty", "OKP"), ("x", encodeBase64 key)]

/-- The object of strings with the given members. -/
def stringObject (members : List (String × String)) : Json :=
  .object (members.map fun m => (m.1, .string m.2))

theorem canonical_plain (key : PublicKey) :
    ∀ m ∈ canonicalMembers key, Text.Plain m.1 ∧ Text.Plain m.2 := by
  have hname : ∀ c : Curve, Text.Plain c.name := by
    intro c
    cases c <;> decide +kernel
  cases key with
  | ecdsa curve x y =>
      simp only [canonicalMembers, List.forall_mem_cons]
      exact ⟨⟨by decide +kernel, hname curve⟩, by decide +kernel,
        ⟨by decide +kernel, encode_base64_plain x⟩, ⟨by decide +kernel, encode_base64_plain y⟩,
        List.forall_mem_nil _⟩
  | rsa n e =>
      simp only [canonicalMembers, List.forall_mem_cons]
      exact ⟨⟨by decide +kernel, encode_base64_plain _⟩, by decide +kernel,
        ⟨by decide +kernel, encode_base64_plain _⟩, List.forall_mem_nil _⟩
  | ed25519 key =>
      simp only [canonicalMembers, List.forall_mem_cons]
      exact ⟨by decide +kernel, by decide +kernel, ⟨by decide +kernel, encode_base64_plain key⟩,
        List.forall_mem_nil _⟩

/-- The text that `MarshalJWK` formats is that of the object. -/
theorem marshal_jwk_ok (h : Acceptable key) :
    lib.marshalJWK key = .ok (Text.jsonText (stringObject (canonicalMembers key))) := by
  have hplain := canonical_plain key
  cases key with
  | ecdsa curve x y =>
      obtain ⟨hx, hy, hon⟩ := h
      obtain ⟨hfirst, hsecond⟩ := split_point (y := y) hx
      have hlength : (4 :: (x ++ y) : Bytes).length = 1 + 2 * curve.size := by
        rw [List.length_cons, List.length_append]
        omega
      simp only [canonicalMembers, List.forall_mem_cons] at hplain
      obtain ⟨hcrv, -, hx', hy', -⟩ := hplain
      simp only [marshalJWK, uncompressedPoint, hon, if_true, hlength, hfirst, hsecond, ne_eq,
        not_true_eq_false, List.head?_cons, or_self, if_false, quote,
        Text.quote_plain _ hcrv.2, Text.quote_plain _ hx'.2, Text.quote_plain _ hy'.2]
      simp only [stringObject, canonicalMembers, List.map, Text.jsonText, Text.membersText,
        Text.stringText, Text.ascii_append, List.append_assoc, List.cons_append, List.nil_append]
      rfl
  | rsa n e =>
      have hn : n ≠ 0 := by
        rintro rfl
        cases h.2.2.1
      have he : e ≠ 0 := by
        rintro rfl
        cases h.2.2.2.2.2
      simp only [canonicalMembers, List.forall_mem_cons] at hplain
      obtain ⟨he', -, hn', -⟩ := hplain
      simp only [marshalJWK, hn, he, or_self, if_false, quote, Text.quote_plain _ he'.2,
        Text.quote_plain _ hn'.2]
      simp only [stringObject, canonicalMembers, List.map, Text.jsonText, Text.membersText,
        Text.stringText, Text.ascii_append, List.append_assoc, List.cons_append, List.nil_append]
      generalize encodeBase64 (natBytes e) = exponent
      generalize encodeBase64 (natBytes n) = modulus
      rfl
  | ed25519 key =>
      have hlength : ¬key.length ≠ ed25519PublicKeySize := not_not.2 h
      simp only [canonicalMembers, List.forall_mem_cons] at hplain
      obtain ⟨-, -, hx, -⟩ := hplain
      rw [marshalJWK, if_neg hlength]
      simp only [quote, Text.quote_plain _ hx.2]
      simp only [stringObject, canonicalMembers, List.map, Text.jsonText, Text.membersText,
        Text.stringText, Text.ascii_append, List.append_assoc, List.cons_append, List.nil_append]
      rfl

theorem string_object_plain {members : List (String × String)}
    (h : ∀ m ∈ members, Text.Plain m.1 ∧ Text.Plain m.2) :
    Text.isPlainJson (stringObject members) = true := by
  rw [stringObject, Text.isPlainJson]
  induction members with
  | nil => rfl
  | cons m rest ih =>
      rw [List.forall_mem_cons] at h
      rw [List.map_cons, Text.arePlainMembers, Text.isPlainJson, ih h.2, decide_eq_true h.1.1,
        decide_eq_true h.1.2]
      rfl

/-- The names that canonical JWKs have. -/
theorem canonical_names (key : PublicKey) :
    (canonicalMembers key).map Prod.fst ∈
      [["crv", "kty", "x", "y"], ["e", "kty", "n"], ["crv", "kty", "x"]] := by
  cases key with
  | ecdsa curve x y => exact .head _
  | rsa n e => exact .tail _ (.head _)
  | ed25519 key => exact .tail _ (.tail _ (.head _))

/-- An object of strings with the names of fields is decoded. -/
theorem parse_string_object (lib : Library) (members : List (String × String))
    (hnames : (members.map Prod.fst).Nodup)
    (hknown : ∀ name ∈ members.map Prod.fst, name ∈ jwkJSON.fields.map (·.tag)) :
    lib.parseJWK (.ofJson (stringObject members)) =
      lib.publicKey (.ofMembers (members.map fun m => (m.1, .string m.2))) := by
  have hmap : (members.map fun m => (m.1, Json.string m.2)).map Prod.fst =
      members.map Prod.fst := by
    rw [List.map_map]
    rfl
  have hsimple : ∀ m ∈ members.map fun m => (m.1, Json.string m.2), Simple m.2 := by
    intro m hm
    obtain ⟨_, _, rfl⟩ := List.mem_map.1 hm
    exact .inl ⟨_, rfl⟩
  rw [← hmap] at hnames hknown
  obtain ⟨w, hw⟩ : ∃ w, lib.unmarshalStrict 2 _ = .ok w :=
    unmarshal_strict_simple hnames hknown hsimple
  rw [stringObject, parse_jwk_members hw]

theorem describes_canonical (h : Acceptable key) :
    lib.publicKey (.ofMembers ((canonicalMembers key).map fun m => (m.1, .string m.2))) =
      .ok key := by
  refine public_key_ok.2 ⟨?_, ?_, h⟩
  · cases key <;> simp [JwkJSON.HasPrivate, JwkJSON.ofMembers, canonicalMembers, pointerOf,
      List.lookup_cons, List.lookup_nil]
  · cases key with
    | ecdsa curve x y =>
        exact ⟨rfl, rfl, decode_encode_base64 x, decode_encode_base64 y⟩
    | rsa n e =>
        refine ⟨rfl, ?_, ?_⟩
        · exact (congrArg (Option.map bytesNat) (decode_encode_base64 _)).trans
            (congrArg some (Der.bytes_nat_nat_bytes n))
        · exact (congrArg (Option.map bytesNat) (decode_encode_base64 _)).trans
            (congrArg some (Der.bytes_nat_nat_bytes e))
    | ed25519 key => exact ⟨rfl, rfl, decode_encode_base64 key⟩

/-- The canonical document of a key gives the key. -/
theorem parse_canonical_object (lib : Library) (h : Acceptable key) :
    lib.parseJWK (.ofJson (stringObject (canonicalMembers key))) = .ok key := by
  have hall : ∀ names ∈ [["crv", "kty", "x", "y"], ["e", "kty", "n"], ["crv", "kty", "x"]],
      names.Nodup ∧ ∀ name ∈ names, name ∈ jwkJSON.fields.map (·.tag) := by
    decide +kernel
  obtain ⟨hnodup, hknown⟩ := hall _ (canonical_names key)
  rw [parse_string_object lib _ hnodup hknown, describes_canonical h]

/-- The canonical text of a key is read as the key. -/
theorem parse_canonical (lib : Library) (h : Acceptable key) :
    lib.parseJWK (.read lib.quote (Text.jsonText (stringObject (canonicalMembers key)))) =
      .ok key := by
  rw [Document.read_json_text _ (string_object_plain (canonical_plain key)),
    parse_canonical_object lib h]

/-- Bytes that give a key are the text of an object. -/
theorem parse_jwk_read {data : Bytes} (h : lib.parseJWK (.read lib.quote data) = .ok key) :
    ∃ members, Document.read lib.quote data = .ofJson (.object members) ∧
      lib.parseJWK (.ofJson (.object members)) = .ok key := by
  obtain ⟨w, hw, -⟩ := Fallible.bind_eq_ok.1 h
  obtain ⟨doc, hdoc⟩ := unmarshal_strict_read (Fallible.map_error_eq_ok.1 hw)
  rw [hdoc] at h
  obtain ⟨members, _, rfl, -⟩ := parse_jwk_ok h
  exact ⟨members, hdoc, h⟩

theorem marshal_jwk_inj {key' : PublicKey} (h : Acceptable key) (h' : Acceptable key')
    (heq : lib.marshalJWK key = lib.marshalJWK key') : key = key' := by
  rw [marshal_jwk_ok h, marshal_jwk_ok h', Except.ok.injEq] at heq
  have hkey := parse_canonical lib h
  rw [heq, parse_canonical lib h', Except.ok.injEq] at hkey
  exact hkey.symm

/-- Two JWKs agree on the key type and on what that type has: the curve and its coordinates, or the
integers as numbers. -/
def SameKey (k k' : JwkJSON) : Prop :=
  k.kty = k'.kty ∧
  (k.kty = "EC" → k.crv = k'.crv ∧ decodeBase64 k.x = decodeBase64 k'.x ∧
    decodeBase64 k.y = decodeBase64 k'.y) ∧
  (k.kty = "OKP" → k.crv = k'.crv ∧ decodeBase64 k.x = decodeBase64 k'.x) ∧
  (k.kty = "RSA" → (decodeBase64 k.n).map bytesNat = (decodeBase64 k'.n).map bytesNat ∧
    (decodeBase64 k.e).map bytesNat = (decodeBase64 k'.e).map bytesNat)

theorem curve_name_inj {c c' : Curve} (h : c.name = c'.name) : c = c' := by
  have hcurve := curve_named_eq_some.2 h
  rw [curve_named_eq_some.2 rfl] at hcurve
  exact (Option.some_inj.1 hcurve)

/-- Two JWKs describe one key if and only if they agree. -/
theorem same_key_iff {k' : JwkJSON} {key' : PublicKey} (h : Describes k key)
    (h' : Describes k' key') : key = key' ↔ SameKey k k' := by
  constructor
  · rintro rfl
    cases key with
    | ecdsa curve x y =>
        obtain ⟨hkty, hcrv, hx, hy⟩ := h
        obtain ⟨hkty', hcrv', hx', hy'⟩ := h'
        refine ⟨hkty.trans hkty'.symm, fun _ => ⟨hcrv.trans hcrv'.symm, hx.trans hx'.symm,
          hy.trans hy'.symm⟩, fun hokp => ?_, fun hrsa => ?_⟩
        · exact absurd (hkty.symm.trans hokp) (by decide)
        · exact absurd (hkty.symm.trans hrsa) (by decide)
    | rsa n e =>
        obtain ⟨hkty, hn, he⟩ := h
        obtain ⟨hkty', hn', he'⟩ := h'
        refine ⟨hkty.trans hkty'.symm, fun hec => ?_, fun hokp => ?_, fun _ =>
          ⟨hn.trans hn'.symm, he.trans he'.symm⟩⟩
        · exact absurd (hkty.symm.trans hec) (by decide)
        · exact absurd (hkty.symm.trans hokp) (by decide)
    | ed25519 x =>
        obtain ⟨hkty, hcrv, hx⟩ := h
        obtain ⟨hkty', hcrv', hx'⟩ := h'
        refine ⟨hkty.trans hkty'.symm, fun hec => ?_, fun _ =>
          ⟨hcrv.trans hcrv'.symm, hx.trans hx'.symm⟩, fun hrsa => ?_⟩
        · exact absurd (hkty.symm.trans hec) (by decide)
        · exact absurd (hkty.symm.trans hrsa) (by decide)
  · rintro ⟨hkty, hec, hokp, hrsa⟩
    cases key with
    | ecdsa curve x y =>
        obtain ⟨hcrv, hx, hy⟩ := hec h.1
        cases key' with
        | ecdsa curve' x' y' =>
            rw [h.2.1, h'.2.1] at hcrv
            rw [h.2.2.1, h'.2.2.1, Option.some_inj] at hx
            rw [h.2.2.2, h'.2.2.2, Option.some_inj] at hy
            rw [curve_name_inj hcrv, hx, hy]
        | rsa n e => exact absurd ((h.1.symm.trans hkty).trans h'.1) (by decide)
        | ed25519 x' => exact absurd ((h.1.symm.trans hkty).trans h'.1) (by decide)
    | rsa n e =>
        obtain ⟨hn, he⟩ := hrsa h.1
        cases key' with
        | ecdsa curve' x' y' => exact absurd ((h.1.symm.trans hkty).trans h'.1) (by decide)
        | rsa n' e' =>
            rw [h.2.1, h'.2.1, Option.some_inj] at hn
            rw [h.2.2, h'.2.2, Option.some_inj] at he
            rw [hn, he]
        | ed25519 x' => exact absurd ((h.1.symm.trans hkty).trans h'.1) (by decide)
    | ed25519 x =>
        obtain ⟨-, hx⟩ := hokp h.1
        cases key' with
        | ecdsa curve' x' y' => exact absurd ((h.1.symm.trans hkty).trans h'.1) (by decide)
        | rsa n e => exact absurd ((h.1.symm.trans hkty).trans h'.1) (by decide)
        | ed25519 x' =>
            rw [h.2.2, h'.2.2, Option.some_inj] at hx
            rw [hx]

/-- `ParseJWK` undoes `MarshalJWK` on the keys that it returns, and the canonical forms of two
accepted documents are the same if and only if the documents agree on the key type and what it has.
-/
theorem canonical_jwk (lib : Library) :
    (∀ key, (∃ data, lib.parseJWK (.read lib.quote data) = .ok key) ↔ Acceptable key) ∧
    (∀ key, Acceptable key → ∃ text, lib.marshalJWK key = .ok text ∧
      lib.parseJWK (.read lib.quote text) = .ok key) ∧
    (∀ key key', Acceptable key → Acceptable key' →
      lib.marshalJWK key = lib.marshalJWK key' → key = key') ∧
    (∀ data data' key key', lib.parseJWK (.read lib.quote data) = .ok key →
      lib.parseJWK (.read lib.quote data') = .ok key' →
      ∃ members members', Document.read lib.quote data = .ofJson (.object members) ∧
        Document.read lib.quote data' = .ofJson (.object members') ∧
        (lib.marshalJWK key = lib.marshalJWK key' ↔
          SameKey (.ofMembers members) (.ofMembers members'))) := by
  refine ⟨fun key => ⟨?_, fun h => ⟨_, parse_canonical lib h⟩⟩, fun key h => ?_,
    fun key key' h h' => marshal_jwk_inj h h', fun data data' key key' h h' => ?_⟩
  · rintro ⟨data, hdata⟩
    obtain ⟨members, -, hkey⟩ := parse_jwk_read hdata
    obtain ⟨_, _, -, -, -, -, hok⟩ := parse_jwk_ok hkey
    exact hok
  · exact ⟨_, marshal_jwk_ok h, parse_canonical lib h⟩
  · obtain ⟨members, hread, hkey⟩ := parse_jwk_read h
    obtain ⟨members', hread', hkey'⟩ := parse_jwk_read h'
    obtain ⟨_, _, hmembers, -, -, hdescribes, hok⟩ := parse_jwk_ok hkey
    obtain ⟨_, _, hmembers', -, -, hdescribes', hok'⟩ := parse_jwk_ok hkey'
    cases hmembers
    cases hmembers'
    refine ⟨members, members', hread, hread', ?_⟩
    rw [← same_key_iff hdescribes hdescribes']
    exact ⟨marshal_jwk_inj hok hok', fun heq => by rw [heq]⟩

end Library

namespace Sample

/-- The library as it is for ASCII texts. -/
def library : Library where
  unicode := ⟨fun _ => false, Char.toLower⟩
  isPrint _ := true
  typeError _ _ := "json: cannot unmarshal"
  pointError := "ecdsa: invalid public key"

/-- The base point of P-256. -/
def basePoint : PublicKey :=
  .ecdsa .p256
   [0x6b, 0x17, 0xd1, 0xf2, 0xe1, 0x2c, 0x42, 0x47, 0xf8, 0xbc, 0xe6, 0xe5,
    0x63, 0xa4, 0x40, 0xf2, 0x77, 0x03, 0x7d, 0x81, 0x2d, 0xeb, 0x33, 0xa0,
    0xf4, 0xa1, 0x39, 0x45, 0xd8, 0x98, 0xc2, 0x96]
   [0x4f, 0xe3, 0x42, 0xe2, 0xfe, 0x1a, 0x7f, 0x9b, 0x8e, 0xe7, 0xeb, 0x4a,
    0x7c, 0x0f, 0x9e, 0x16, 0x2b, 0xce, 0x33, 0x57, 0x6b, 0x31, 0x5e, 0xce,
    0xcb, 0xb6, 0x40, 0x68, 0x37, 0xbf, 0x51, 0xf5]

/-- A JWK with an RSA key and a curve. -/
def rsaMembers (n e : Nat) (crv : String) : List (String × String) :=
  [("crv", crv), ("e", encodeBase64 (natBytes e)), ("kty", "RSA"), ("n", encodeBase64 (natBytes n))]

theorem parse_rsa_members {n e : Nat} (h : Acceptable (.rsa n e)) (crv : String)
    (hcrv : Text.Plain crv) : ∃ data, library.parseJWK (.read library.quote data) = .ok (.rsa n e) ∧
      Document.read library.quote data = .ofJson (Library.stringObject (rsaMembers n e crv)) := by
  have hplain : ∀ m ∈ rsaMembers n e crv, Text.Plain m.1 ∧ Text.Plain m.2 := by
    simp only [rsaMembers, List.forall_mem_cons]
    exact ⟨⟨by decide +kernel, hcrv⟩, ⟨by decide +kernel, encode_base64_plain _⟩,
      by decide +kernel, ⟨by decide +kernel, encode_base64_plain _⟩, List.forall_mem_nil _⟩
  have hnames : ["crv", "e", "kty", "n"].Nodup ∧ ∀ name ∈ ["crv", "e", "kty", "n"],
      name ∈ jwkJSON.fields.map (·.tag) := by decide +kernel
  have hread := Document.read_json_text library.quote (Library.string_object_plain hplain)
  refine ⟨_, ?_, hread⟩
  rw [hread, Library.parse_string_object library (rsaMembers n e crv) hnames.1 hnames.2,
    Library.public_key_ok]
  refine ⟨?_, ⟨rfl, ?_, ?_⟩, h⟩
  · simp [JwkJSON.HasPrivate, JwkJSON.ofMembers, rsaMembers, Library.pointerOf, List.lookup_cons,
      List.lookup_nil]
  · exact (congrArg (Option.map bytesNat) (decode_encode_base64 _)).trans
      (congrArg some (Der.bytes_nat_nat_bytes n))
  · exact (congrArg (Option.map bytesNat) (decode_encode_base64 _)).trans
      (congrArg some (Der.bytes_nat_nat_bytes e))

end Sample

/-- The base point of P-256 is read back from its canonical text. -/
theorem base_point_read_back :
    ∃ text, Sample.library.marshalJWK Sample.basePoint = .ok text ∧
      Sample.library.parseJWK (.read Sample.library.quote text) = .ok Sample.basePoint :=
  (Library.canonical_jwk Sample.library).2.1 _ ⟨rfl, rfl, by decide +kernel⟩

/-- Two accepted documents with one canonical form that differ in `crv`: it is not read for RSA
keys. -/
theorem rsa_crv_ignored : ∃ data data' key members members',
    Sample.library.parseJWK (.read Sample.library.quote data) = .ok key ∧
    Sample.library.parseJWK (.read Sample.library.quote data') = .ok key ∧
    Document.read Sample.library.quote data = .ofJson (.object members) ∧
    Document.read Sample.library.quote data' = .ofJson (.object members') ∧
    (JwkJSON.ofMembers members).crv ≠ (JwkJSON.ofMembers members').crv := by
  have hbits : ∀ k, k < (2 ^ k + 1).size := fun k => Nat.lt_size.2 (Nat.le_succ _)
  have hkey : Acceptable (.rsa (2 ^ 2047 + 1) 65537) :=
    ⟨hbits 2047, Nat.size_le.2 (by decide +kernel), by decide +kernel, by decide, by decide,
      by decide⟩
  obtain ⟨data, hdata, hread⟩ := Sample.parse_rsa_members hkey "P-256" (by decide +kernel)
  obtain ⟨data', hdata', hread'⟩ := Sample.parse_rsa_members hkey "P-384" (by decide +kernel)
  refine ⟨data, data', _, _, _, hdata, hdata', hread, hread', ?_⟩
  exact (by decide : "P-256" ≠ "P-384")

end Jws

end AcmeServer
