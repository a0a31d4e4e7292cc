import AcmeServer.Base64.Basic
import AcmeServer.Der.Basic
import AcmeServer.Name.Identifier
import AcmeServer.Server.Config

/-!
# Renewal identifiers

`renewalID` of `ids.go` writes the identifier under which clients ask for renewal information and
name the certificate that an order replaces: the authority key identifier and the serial number of a
leaf, joined by a dot. `validRenewalID` is what the server requires of such a name. The writer
places no bound on the two parts and the reader allows 64 characters for each, so they agree exactly
for parts of at most 48 bytes (`renewal_id_accepted_iff`).
-/

namespace AcmeServer.X509

/-- The fields of a leaf certificate that name it. A certificate may come without a number. -/
structure Naming where
  authorityKeyId : Bytes
  serialNumber : Option Int
deriving DecidableEq

/-- The contents of the DER integer: a leading one bit needs a zero byte. -/
def serialContent (number : Int) : Bytes :=
  let serial := Der.natBytes number.toNat
  if serial.headD 0 &&& 0x80 ≠ 0 then 0 :: serial else serial

/-- The identifier of a leaf, or an empty text without an authority key identifier. -/
def renewalID (leaf : Naming) : String :=
  match leaf.serialNumber with
  | none => ""
  | some number =>
      if leaf.authorityKeyId.length = 0 ∨ number ≤ 0 then ""
      else String.ofList (Base64.urlSafe.encode leaf.authorityKeyId) ++ "." ++
        String.ofList (Base64.urlSafe.encode (serialContent number))

/-! ## The parts -/

theorem high_bit_iff (b : UInt8) : b &&& 0x80 ≠ 0 ↔ ¬b.toNat < 128 := by
  have hall : ∀ n < 256, UInt8.ofNat n &&& 0x80 ≠ 0 ↔ ¬n < 128 := by decide +kernel
  simpa using hall b.toNat b.toNat_lt

/-- A positive serial number is written as a minimal DER integer. -/
theorem serial_content_eq {number : Int} (h : 0 < number) :
    serialContent number = Der.integer number.toNat := by
  have hne : Der.natBytes number.toNat ≠ [] := by
    intro hnil
    have hzero := Der.bytes_nat_nat_bytes number.toNat
    rw [hnil] at hzero
    have : number.toNat = 0 := hzero.symm
    omega
  unfold serialContent Der.integer
  cases hbytes : Der.natBytes number.toNat with
  | nil => exact absurd hbytes hne
  | cons b rest =>
      simp only [List.headD_cons, high_bit_iff]
      split <;> simp_all

/-- The characters of the encoding are those that the server allows in its IDs. -/
theorem encoded_char {bytes : Bytes} {c : Char} (h : c ∈ Base64.urlSafe.encode bytes) :
    (c.isAlphanum || c == '-' || c == '_') ∧ c.toNat < 128 ∧ c ≠ '.' := by
  have hall : Base64.urlSafe.chars.all fun c =>
      (c.isAlphanum || c == '-' || c == '_') && (c.toNat < 128 && c ≠ '.') := by decide +kernel
  simpa using List.all_eq_true.1 hall c (Base64.urlSafe.mem_encode h)

/-- An encoding has one byte for each character. -/
theorem encoded_size (bytes : Bytes) :
    (String.ofList (Base64.urlSafe.encode bytes)).utf8ByteSize = (4 * bytes.length + 2) / 3 := by
  rw [Name.size_of_ascii fun c hc => (encoded_char hc).2.1, Base64.Alphabet.encode_length]

/-- The encoding of some bytes is an ID of the server if there are at most 48 of them. -/
theorem valid_id_encode {bytes : Bytes} (hne : bytes ≠ []) :
    validID (String.ofList (Base64.urlSafe.encode bytes)) = true ↔ bytes.length ≤ 48 := by
  have hpos : 0 < bytes.length := List.length_pos_iff.2 hne
  have htext : String.ofList (Base64.urlSafe.encode bytes) ≠ "" := by
    intro hempty
    have hsize := encoded_size bytes
    rw [hempty, show "".utf8ByteSize = 0 from rfl] at hsize
    omega
  have hchars : ((String.ofList (Base64.urlSafe.encode bytes)).toList.all
      fun c => c.isAlphanum || c == '-' || c == '_') = true := by
    rw [String.toList_ofList]
    exact List.all_eq_true.2 fun c hc => (encoded_char hc).1
  rw [validID, hchars, encoded_size, Bool.and_true, Bool.and_eq_true, decide_eq_true_eq,
    decide_eq_true_eq, maxIDLength]
  exact ⟨fun h => by omega, fun h => ⟨htext, by omega⟩⟩

/-- A text is cut at its first separator. -/
theorem cut_append {before after : List Char} {separator : Char} (h : separator ∉ before) :
    cut (String.ofList before ++ String.singleton separator ++ String.ofList after) separator =
      (String.ofList before, String.ofList after, true) := by
  have hlist : (String.ofList before ++ String.singleton separator ++
      String.ofList after).toList = before ++ separator :: after := by simp
  have htake : (before ++ separator :: after).takeWhile (· != separator) = before := by
    rw [List.takeWhile_append_of_pos]
    · simp
    · intro c hc
      rw [bne_iff_ne]
      rintro rfl
      exact h hc
  unfold cut
  rw [hlist]
  simp only [htake, List.drop_left]

/-- What the halves of a renewal identifier stand for. -/
def Recovers (leaf : Naming) (number : Int) : Prop :=
  ∃ aki serial, cut (renewalID leaf) '.' = (aki, serial, true) ∧
    Base64.urlSafe.decode aki.toList = some leaf.authorityKeyId ∧
    Base64.urlSafe.decode serial.toList = some (Der.integer number.toNat)

section

variable {leaf : Naming} {number : Int}

theorem renewal_id_eq (haki : leaf.authorityKeyId ≠ []) (hnumber : leaf.serialNumber = some number)
    (hpos : 0 < number) :
    renewalID leaf = String.ofList (Base64.urlSafe.encode leaf.authorityKeyId) ++
      String.singleton '.' ++ String.ofList (Base64.urlSafe.encode (Der.integer number.toNat)) := by
  have hlength : ¬(leaf.authorityKeyId.length = 0 ∨ number ≤ 0) := by
    rw [List.length_eq_zero_iff]
    exact not_or.2 ⟨haki, not_le.2 hpos⟩
  unfold renewalID
  rw [hnumber]
  simp only [if_neg hlength, serial_content_eq hpos]
  rfl

theorem cut_renewal_id (haki : leaf.authorityKeyId ≠ []) (hnumber : leaf.serialNumber = some number)
    (hpos : 0 < number) :
    cut (renewalID leaf) '.' = (String.ofList (Base64.urlSafe.encode leaf.authorityKeyId),
      String.ofList (Base64.urlSafe.encode (Der.integer number.toNat)), true) := by
  rw [renewal_id_eq haki hnumber hpos]
  exact cut_append fun hdot => (encoded_char hdot).2.2 rfl

/-- The two halves can be read back. -/
theorem renewal_id_recovers (haki : leaf.authorityKeyId ≠ [])
    (hnumber : leaf.serialNumber = some number) (hpos : 0 < number) : Recovers leaf number := by
  refine ⟨_, _, cut_renewal_id haki hnumber hpos, ?_, ?_⟩
  · rw [String.toList_ofList, Base64.Alphabet.decode_encode]
  · rw [String.toList_ofList, Base64.Alphabet.decode_encode]

/-- The reader accepts what the writer wrote if both parts have at most 48 bytes. -/
theorem valid_renewal_id_iff (haki : leaf.authorityKeyId ≠ [])
    (hnumber : leaf.serialNumber = some number) (hpos : 0 < number) :
    validRenewalID (renewalID leaf) = true ↔
      leaf.authorityKeyId.length ≤ 48 ∧ number < 2 ^ 383 := by
  have hcontent : Der.integer number.toNat ≠ [] := by
    intro hnil
    have hcanonical := (Der.integer_spec number.toNat).1
    rw [hnil] at hcanonical
    exact hcanonical
  have hserial : (Der.integer number.toNat).length ≤ 48 ↔ number < 2 ^ 383 := by
    rw [Der.integer_length_le_iff (k := 47)]
    omega
  have hsize : (renewalID leaf).utf8ByteSize = (4 * leaf.authorityKeyId.length + 2) / 3 + 1 +
      (4 * (Der.integer number.toNat).length + 2) / 3 := by
    rw [renewal_id_eq haki hnumber hpos, String.utf8ByteSize_append, String.utf8ByteSize_append,
      encoded_size, encoded_size]
    rfl
  unfold validRenewalID
  rw [cut_renewal_id haki hnumber hpos, hsize]
  simp only [Bool.true_and, Bool.and_eq_true, valid_id_encode haki, valid_id_encode hcontent,
    hserial, maxIDLength]
  constructor
  · exact fun h => h.2
  · intro h
    have := hserial.2 h.2
    exact ⟨decide_eq_true (by omega), h⟩

/-- The identifier of a leaf is one the server accepts, and determines the authority key identifier
and the serial number, exactly if the former has at most 48 bytes and the latter is below 2^383. The
second part holds for every leaf. -/
theorem renewal_id_accepted_iff (haki : leaf.authorityKeyId ≠ [])
    (hnumber : leaf.serialNumber = some number) (hpos : 0 < number) :
    ((validRenewalID (renewalID leaf) = true ∧ Recovers leaf number) ↔
      leaf.authorityKeyId.length ≤ 48 ∧ number < 2 ^ 383) ∧
    Recovers leaf number ∧
    ∀ (leaf' : Naming) (number' : Int), leaf'.authorityKeyId ≠ [] →
      leaf'.serialNumber = some number' → 0 < number' → renewalID leaf' = renewalID leaf →
      leaf' = leaf := by
  have hrecovers := renewal_id_recovers haki hnumber hpos
  refine ⟨?_, hrecovers, fun leaf' number' haki' hnumber' hpos' hsame => ?_⟩
  · rw [valid_renewal_id_iff haki hnumber hpos]
    exact and_iff_left hrecovers
  · obtain ⟨aki, serial, hcut, hdecoded, hdecoded'⟩ := hrecovers
    obtain ⟨aki', serial', hcut', hdecoded₂, hdecoded₂'⟩ :=
      renewal_id_recovers haki' hnumber' hpos'
    rw [hsame, hcut] at hcut'
    cases hcut'
    have hserial : Der.integer number'.toNat = Der.integer number.toNat :=
      Option.some.inj (hdecoded₂'.symm.trans hdecoded')
    have hvalue := congrArg Der.bytesNat hserial
    rw [(Der.integer_spec _).2, (Der.integer_spec _).2] at hvalue
    obtain ⟨key, found⟩ := leaf
    obtain ⟨key', found'⟩ := leaf'
    cases hnumber
    cases hnumber'
    have hkey : key' = key := Option.some.inj (hdecoded₂.symm.trans hdecoded)
    rw [hkey, show number' = number by omega]

end

/-- The leaf of RFC 9773's example. -/
def sampleNaming : Naming where
  authorityKeyId := [0x69, 0x88, 0x5B, 0x6B, 0x87, 0x46, 0x40, 0x41, 0xE1, 0xB3, 0x7B, 0x84, 0x7B,
    0xA0, 0xAE, 0x2C, 0xDE, 0x01, 0xC8, 0xD4]
  serialNumber := some 0x87654321

theorem sample_renewal_id_accepted :
    renewalID sampleNaming = "aYhba4dGQEHhs3uEe6CuLN4ByNQ.AIdlQyE" ∧
      validRenewalID (renewalID sampleNaming) = true ∧ Recovers sampleNaming 0x87654321 := by
  have hkey : sampleNaming.authorityKeyId ≠ [] := by decide
  have hnumber : sampleNaming.serialNumber = some 0x87654321 := rfl
  have hlt : (0x87654321 : Int) < 2 ^ 383 :=
    lt_of_lt_of_le (by decide : (0x87654321 : Int) < 2 ^ 32)
      (pow_le_pow_right₀ (by decide) (by decide))
  exact ⟨by decide +kernel,
    (renewal_id_accepted_iff hkey hnumber (by decide)).1.2 ⟨by decide, hlt⟩⟩

/-- A leaf whose authority key identifier is a SHA-512 hash. -/
theorem long_key_id_not_accepted :
    validRenewalID (renewalID ⟨List.replicate 64 1, some 1⟩) = false := by
  decide +kernel

end AcmeServer.X509
