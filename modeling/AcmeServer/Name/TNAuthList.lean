import AcmeServer.Base64.Basic
import AcmeServer.Name.DerReader

/-!
# TN authorization lists

The checks of `tnauthlist.go` on a DER encoded authority list and on the identifier value that
carries one. The first part follows the source, on the cursor of `DerReader` with its faults.

`TNEntry` has the entries themselves, each with its contents, and `Encodes` the lists of entries
that a byte string is the encoding of. `check_tn_auth_list_ok` says that the checks accept exactly
the encodings.
-/

namespace AcmeServer.Name

/-! ## The checks -/

def maxTNAuthListBytes : Nat := 8 <<< 10
def maxTNEntries : Nat := 512
def maxServiceProviderCodeLength : Nat := 64
def maxTelephoneNumberLength : Nat := 15

/-- The digits and prefixes RFC 8226 allows in a telephone number. -/
def telephoneNumberAlphabet : String := "0123456789#*"

/-- `strings.ContainsRune(s, rune(c))` for a byte. -/
def containsRune (s : String) (c : UInt8) : Bool := Char.ofNat c.toNat ∈ s.toList

/-- Accepts a printable service provider code, which the telephone network defines rather than
PKIX. -/
def checkServiceProviderCode (value : Bytes) : Except DerFault Unit :=
  if value.length = 0 ∨ value.length > maxServiceProviderCodeLength then .error .invalid
  else if value.any fun c => c < 0x21 || c > 0x7e then .error .invalid
  else .ok ()

/-- Checks a telephone number against the RFC 8226 size and alphabet restrictions. -/
def checkTelephoneNumber (value : Bytes) : Except DerFault Unit :=
  if value.length = 0 ∨ value.length > maxTelephoneNumberLength then .error .invalid
  else if value.any fun c => !containsRune telephoneNumberAlphabet c then .error .invalid
  else .ok ()

/-- Reads a canonical DER INTEGER that fits in an int64 and is not negative. -/
def derInteger (raw : Bytes) : Except DerFault Nat :=
  if raw.length = 0 ∨ raw.length > 8 then .error .invalid
  else do
    let first ← byteAt raw 0
    if first &&& 0x80 ≠ 0 then .error .invalid
    else if raw.length > 1 ∧ first = 0 then do
      let second ← byteAt raw 1
      if second &&& 0x80 = 0 then .error .invalid else shiftIn raw
    else shiftIn raw

/-- Reads values until the end of the buffer. -/
def skipFields (fields : DerReader) : Except DerFault Unit :=
  if fields.buf.length = 0 then .ok ()
  else match _h : fields.tlv with
    | .error f => .error f
    | .ok (_, _, fields') => skipFields fields'
termination_by fields.buf.length
decreasing_by exact DerReader.tlv_length_lt _h

/-- The number that decimal digits stand for. -/
def decimal (digits : Bytes) : Nat := digits.foldl (fun n c => n * 10 + (c.toNat - 0x30)) 0

/-- Whether a byte is a decimal digit. -/
def isDigit (c : UInt8) : Bool := 0x30 ≤ c && c ≤ 0x39

/-- `strconv.ParseInt(s, 10, 64)` on a text without a sign. -/
def parseInt (s : Bytes) : Option Nat :=
  if s.length = 0 ∨ !s.all isDigit then none
  else if decimal s < 2 ^ 63 then some (decimal s)
  else none

/-- The rule that the count must not extend the number's length. -/
def checkCount (start : Bytes) (count : Nat) : Except DerFault Unit := do
  let limit ← start.foldlM (fun limit _ => int64 (limit * 10)) 1
  match parseInt start with
  | none => .error .invalid
  | some first =>
      if count ≥ limit then .error .invalid
      else do
        let last ← int64 (first + count)
        if last ≥ limit then .error .invalid else .ok ()

/-- Checks a range and the RFC 8226 rule that the count must not extend the number's length. -/
def checkTelephoneNumberRange (body : Bytes) : Except DerFault Unit := do
  let (start, fields) ← DerReader.expect ⟨body⟩ 0x16
  checkTelephoneNumber start
  let (raw, fields) ← fields.expect 0x02
  let count ← derInteger raw
  if count < 2 then .error .invalid
  else do
    -- The extension marker of TelephoneNumberRange admits later fields, which must still be DER.
    skipFields fields
    if start.any (containsRune "#*") then .error .invalid else checkCount start count

/-- The contents of the only value of the given tag in the buffer. -/
def unwrap (tag : UInt8) (content : Bytes) : Except DerFault Bytes := do
  let (value, inner) ← DerReader.expect ⟨content⟩ tag
  if inner.buf.length ≠ 0 then .error .invalid else .ok value

/-- Checks one alternative of the TNEntry choice. The RFC 8226 module tags explicitly, so every
alternative wraps the tagged type in a constructed context tag. -/
def checkTNEntry (tag : UInt8) (content : Bytes) : Except DerFault Unit :=
  if tag = 0xa0 then unwrap 0x16 content >>= checkServiceProviderCode
  else if tag = 0xa1 then unwrap 0x30 content >>= checkTelephoneNumberRange
  else if tag = 0xa2 then unwrap 0x16 content >>= checkTelephoneNumber
  else .error .invalid

/-- The loop over the entries. It returns their number. -/
def checkEntries (entries : DerReader) (count : Nat) : Except DerFault Nat :=
  if entries.buf.length = 0 then .ok count
  else if count + 1 > maxTNEntries then .error .invalid
  else match h : entries.tlv with
    | .error f => .error f
    | .ok (tag, content, entries') => do
        checkTNEntry tag content
        checkEntries entries' (count + 1)
termination_by entries.buf.length
decreasing_by exact DerReader.tlv_length_lt h

/-- Checks a DER TNAuthorizationList. The encoding must be canonical so that one authority list has
exactly one identifier value. -/
def checkTNAuthList (der : Bytes) : Except DerFault Unit :=
  if der.length = 0 ∨ der.length > maxTNAuthListBytes then .error .invalid
  else do
    let body ← unwrap 0x30 der
    let count ← checkEntries ⟨body⟩ 0
    if count = 0 then .error .invalid else .ok ()

/-! ## The parts of an entry -/

theorem check_service_provider_code_ok {value : Bytes} :
    checkServiceProviderCode value = .ok () ↔
      1 ≤ value.length ∧ value.length ≤ 64 ∧ ∀ c ∈ value, 0x21 ≤ c ∧ c ≤ 0x7e := by
  rw [checkServiceProviderCode, Fallible.guard_eq_ok, Fallible.guard_eq_ok]
  simp only [maxServiceProviderCodeLength, List.any_eq_true, Bool.or_eq_true, decide_eq_true_eq,
    not_exists, not_and, not_or, not_lt, and_true, UInt8.not_lt]
  exact ⟨fun ⟨h, hchars⟩ => ⟨by omega, by omega, hchars⟩,
    fun ⟨h, h', hchars⟩ => ⟨by omega, hchars⟩⟩

/-- The characters of a telephone number. -/
def isNumberChar (c : UInt8) : Bool := isDigit c || c == 0x23 || c == 0x2a

theorem contains_rune_alphabet (c : UInt8) :
    containsRune telephoneNumberAlphabet c = isNumberChar c := by
  have h : ∀ n < 256, containsRune telephoneNumberAlphabet (UInt8.ofNat n) =
      isNumberChar (UInt8.ofNat n) := by decide +kernel
  simpa using h c.toNat c.toNat_lt

theorem contains_rune_prefixes (c : UInt8) :
    containsRune "#*" c = (c == 0x23 || c == 0x2a) := by
  have h : ∀ n < 256, containsRune "#*" (UInt8.ofNat n) =
      (UInt8.ofNat n == 0x23 || UInt8.ofNat n == 0x2a) := by decide +kernel
  simpa using h c.toNat c.toNat_lt

theorem check_telephone_number_ok {value : Bytes} :
    checkTelephoneNumber value = .ok () ↔
      1 ≤ value.length ∧ value.length ≤ 15 ∧ ∀ c ∈ value, isNumberChar c := by
  rw [checkTelephoneNumber, Fallible.guard_eq_ok, Fallible.guard_eq_ok]
  simp only [maxTelephoneNumberLength, contains_rune_alphabet, List.any_eq_true,
    Bool.not_eq_true', not_exists, not_and, Bool.not_eq_false, and_true]
  exact ⟨fun ⟨h, hchars⟩ => ⟨by omega, by omega, hchars⟩,
    fun ⟨h, h', hchars⟩ => ⟨by omega, hchars⟩⟩

/-- The contents of a non-negative integer of at most eight bytes fit the machine's integers. -/
theorem bytes_nat_lt_int64 {raw : Bytes} (hlength : raw.length ≤ 8) (h : Der.Canonical raw) :
    Der.bytesNat raw < 2 ^ 63 := by
  cases raw with
  | nil => exact absurd h id
  | cons b rest =>
      have hb := h.head_lt
      have hrest := Der.bytes_nat_lt rest
      have hpow : 256 ^ rest.length ≤ 256 ^ 7 :=
        Nat.pow_le_pow_right (by decide) (by rw [List.length_cons] at hlength; omega)
      rw [Der.bytes_nat_cons]
      calc b.toNat * 256 ^ rest.length + Der.bytesNat rest
          < b.toNat * 256 ^ rest.length + 256 ^ rest.length := by omega
        _ = (b.toNat + 1) * 256 ^ rest.length := by ring
        _ ≤ 128 * 256 ^ 7 := Nat.mul_le_mul hb hpow
        _ = 2 ^ 63 := by norm_num

theorem high_bit_eq_zero (b : UInt8) : b &&& 0x80 = 0 ↔ b.toNat < 128 := by
  have h : ∀ n < 256, (UInt8.ofNat n &&& 0x80 = 0 ↔ n < 128) := by decide +kernel
  simpa using h b.toNat b.toNat_lt

/-- Canonical contents of at most eight bytes are read as their number. -/
theorem der_integer_of_canonical {raw : Bytes} (hlength : raw.length ≤ 8)
    (h : Der.Canonical raw) : derInteger raw = .ok (Der.bytesNat raw) := by
  have hshift := shift_in_of_lt (bytes_nat_lt_int64 hlength h)
  match raw with
  | [b] =>
      rw [derInteger, if_neg (by simp), byte_at_of_lt (by simp)]
      show (if b &&& 0x80 ≠ 0 then _ else _) = _
      rw [if_neg (not_not.2 ((high_bit_eq_zero b).2 h)), if_neg (by simp), hshift]
  | b :: c :: rest =>
      rw [derInteger, if_neg (by simp at hlength ⊢; omega), byte_at_of_lt (by simp)]
      show (if b &&& 0x80 ≠ 0 then _ else _) = _
      rw [if_neg (not_not.2 ((high_bit_eq_zero b).2 h.1)), hshift]
      show (if _ ∧ b = 0 then _ else _) = _
      split
      · next hb =>
          rw [byte_at_of_lt (by simp)]
          show (if c &&& 0x80 = 0 then _ else _) = _
          rw [if_neg ((high_bit_eq_zero c).not.2 (not_lt.2 (h.2 hb.2)))]
      · rfl

/-- Everything else is refused. -/
theorem der_integer_of_not_canonical {raw : Bytes} (h : ¬(raw.length ≤ 8 ∧ Der.Canonical raw)) :
    derInteger raw = .error .invalid := by
  rw [derInteger]
  split
  · rfl
  · next hlength =>
      match raw with
      | [] => simp at hlength
      | [b] =>
          rw [byte_at_of_lt (by simp)]
          show (if b &&& 0x80 ≠ 0 then _ else _) = _
          rw [if_pos ((high_bit_eq_zero b).not.2 fun hb => h ⟨by simp, hb⟩)]
      | b :: c :: rest =>
          rw [byte_at_of_lt (by simp), byte_at_of_lt (by simp)]
          show (if b &&& 0x80 ≠ 0 then _ else _) = _
          by_cases hb : b &&& 0x80 = 0
          · have hzero : b = 0 ∧ c.toNat < 128 := by
              by_contra hne
              refine h ⟨by omega, (high_bit_eq_zero b).1 hb, fun h0 => ?_⟩
              by_contra hc
              exact hne ⟨h0, not_le.1 hc⟩
            rw [if_neg (not_not.2 hb), if_pos ⟨by simp, hzero.1⟩]
            show (if c &&& 0x80 = 0 then _ else _) = _
            rw [if_pos ((high_bit_eq_zero c).2 hzero.2)]
          · rw [if_pos hb]

/-- An integer is read exactly from its canonical contents of at most eight bytes. -/
theorem der_integer_ok {raw : Bytes} {n : Nat} :
    derInteger raw = .ok n ↔ raw = Der.integer n ∧ (Der.integer n).length ≤ 8 := by
  constructor
  · intro h
    by_cases hraw : raw.length ≤ 8 ∧ Der.Canonical raw
    · rw [der_integer_of_canonical hraw.1 hraw.2] at h
      cases h
      rw [Der.integer_bytes_nat hraw.2]
      exact ⟨rfl, hraw.1⟩
    · rw [der_integer_of_not_canonical hraw] at h
      cases h
  · rintro ⟨rfl, hlength⟩
    obtain ⟨hcanonical, hn⟩ := Der.integer_spec n
    rw [der_integer_of_canonical hlength hcanonical, hn]

theorem der_integer_error {raw : Bytes} {f : DerFault} (h : derInteger raw = .error f) :
    f = .invalid := by
  by_cases hraw : raw.length ≤ 8 ∧ Der.Canonical raw
  · rw [der_integer_of_canonical hraw.1 hraw.2] at h
    cases h
  · rw [der_integer_of_not_canonical hraw] at h
    cases h
    rfl

/-- Values one after another, each with its tag. -/
def encodeFields (fields : List (UInt8 × Bytes)) : Bytes :=
  fields.flatMap fun field => Der.encode field.1 field.2

@[simp] theorem encode_fields_cons (field : UInt8 × Bytes) (fields : List (UInt8 × Bytes)) :
    encodeFields (field :: fields) = Der.encode field.1 field.2 ++ encodeFields fields :=
  List.flatMap_cons

theorem skip_fields_eq (r : DerReader) :
    skipFields r =
      if r.buf.length = 0 then .ok () else r.tlv >>= fun p => skipFields p.2.2 := by
  rw [skipFields]
  split
  · rfl
  · split
    · next h => rw [h]; rfl
    · next h => rw [h]; rfl

/-- The later fields of a range are any values. -/
theorem skip_fields_ok {r : DerReader} :
    skipFields r = .ok () ↔
      ∃ fields : List (UInt8 × Bytes),
        (∀ field ∈ fields, DerReader.LowTag field.1 ∧ field.2.length < 2 ^ 32) ∧
          r.buf = encodeFields fields := by
  constructor
  · intro h
    induction hn : r.buf.length using Nat.strong_induction_on generalizing r with
    | _ n ih =>
        rw [skip_fields_eq] at h
        split at h
        · next hempty => exact ⟨[], by simp, List.length_eq_zero_iff.1 hempty⟩
        · obtain ⟨⟨tag, content, r'⟩, hread, hrest⟩ := Fallible.bind_eq_ok.1 h
          have hshorter := DerReader.tlv_length_lt hread
          obtain ⟨htag, hlength, hbuf⟩ := DerReader.tlv_eq_ok.1 hread
          obtain ⟨fields, hfields, hbuf'⟩ := ih _ (hn ▸ hshorter) hrest rfl
          refine ⟨(tag, content) :: fields, ?_, ?_⟩
          · exact List.forall_mem_cons.2 ⟨⟨htag, hlength⟩, hfields⟩
          · rw [hbuf, hbuf', encode_fields_cons]
  · rintro ⟨fields, hfields, hbuf⟩
    induction fields generalizing r with
    | nil => rw [skip_fields_eq, if_pos (by rw [hbuf]; rfl)]
    | cons field fields ih =>
        obtain ⟨⟨htag, hlength⟩, hfields⟩ := List.forall_mem_cons.1 hfields
        obtain ⟨buf⟩ := r
        rw [encode_fields_cons] at hbuf
        subst hbuf
        rw [skip_fields_eq, if_neg (List.length_eq_zero_iff.not.2 (Der.encode_ne_nil _ _ _)),
          DerReader.tlv_encode htag hlength]
        exact ih hfields rfl

theorem skip_fields_error {r : DerReader} {f : DerFault} (h : skipFields r = .error f) :
    f = .invalid := by
  induction hn : r.buf.length using Nat.strong_induction_on generalizing r with
  | _ n ih =>
      rw [skip_fields_eq] at h
      split at h
      · cases h
      · rcases Fallible.bind_eq_error.1 h with h | ⟨⟨tag, content, r'⟩, hread, hrest⟩
        · exact DerReader.tlv_error h
        · exact ih _ (hn ▸ DerReader.tlv_length_lt hread) hrest rfl

/-! ## Ranges -/

@[simp] theorem decimal_append (digits : Bytes) (c : UInt8) :
    decimal (digits ++ [c]) = decimal digits * 10 + (c.toNat - 0x30) := by
  simp [decimal]

/-- Digits stand for a number below the power of ten of their count. -/
theorem decimal_lt {digits : Bytes} (h : ∀ c ∈ digits, isDigit c) :
    decimal digits < 10 ^ digits.length := by
  induction digits using List.reverseRecOn with
  | nil => simp [decimal]
  | append_singleton digits c ih =>
      have hdigits := ih fun c hc => h c (List.mem_append_left _ hc)
      have hc := h c (List.mem_append_right _ List.mem_cons_self)
      simp only [isDigit, Bool.and_eq_true, decide_eq_true_eq, UInt8.le_iff_toNat_le] at hc
      rw [decimal_append, List.length_append, List.length_singleton, pow_succ]
      have : (0x39 : UInt8).toNat = 57 := rfl
      omega

/-- The loop that computes the power of ten of the number of digits. -/
theorem limit_eq {start : Bytes} (h : start.length ≤ 15) :
    start.foldlM (fun limit _ => int64 (limit * 10)) 1 = .ok (10 ^ start.length) := by
  induction start using List.reverseRecOn with
  | nil => rfl
  | append_singleton start c ih =>
      rw [List.length_append, List.length_singleton] at h ⊢
      rw [List.foldlM_append, ih (by omega)]
      show int64 _ >>= pure = _
      have hpow : 10 ^ (start.length + 1) ≤ 10 ^ 15 := Nat.pow_le_pow_right (by decide) h
      rw [bind_pure, int64, ← pow_succ, if_pos (lt_of_le_of_lt hpow (by norm_num))]

/-- The count of a range of numbers must keep them within their length, in exact arithmetic. -/
theorem check_count_eq {start : Bytes} {count : Nat} (hpos : 1 ≤ start.length)
    (hlength : start.length ≤ 15) (hdigits : ∀ c ∈ start, isDigit c) :
    checkCount start count =
      if decimal start + count < 10 ^ start.length then .ok () else .error .invalid := by
  have hpow : 10 ^ start.length ≤ 10 ^ 15 := Nat.pow_le_pow_right (by decide) hlength
  have hdecimal := decimal_lt hdigits
  have hall : start.all isDigit = true := List.all_eq_true.2 hdigits
  have hparse : parseInt start = some (decimal start) := by
    have hneg : ¬(start.length = 0 ∨ !start.all isDigit) := by
      rw [hall]
      rintro (h | h)
      · omega
      · cases h
    rw [parseInt, if_neg hneg, if_pos (by omega)]
  rw [checkCount, limit_eq hlength, hparse]
  show (if count ≥ 10 ^ start.length then _ else _) = _
  by_cases hcount : count ≥ 10 ^ start.length
  · rw [if_pos hcount, if_neg (by omega)]
  · rw [if_neg hcount, int64, if_pos (by omega)]
    show (if decimal start + count ≥ 10 ^ start.length then _ else _) = _
    by_cases hlast : decimal start + count ≥ 10 ^ start.length
    · rw [if_pos hlast, if_neg (not_lt.2 hlast)]
    · rw [if_neg hlast, if_pos (not_le.1 hlast)]

/-- The numeric starts are the telephone numbers without a prefix character. -/
theorem is_digit_of_number_char {start : Bytes} (hchars : ∀ c ∈ start, isNumberChar c)
    (h : ¬start.any (containsRune "#*")) : ∀ c ∈ start, isDigit c := by
  intro c hc
  have hnumber := hchars c hc
  have hstem : containsRune "#*" c ≠ true := fun hp => h (List.any_eq_true.2 ⟨c, hc, hp⟩)
  rw [contains_rune_prefixes] at hstem
  rw [isNumberChar, Bool.or_assoc] at hnumber
  simpa [hstem] using hnumber

theorem any_prefix_of_digits {start : Bytes} (h : ∀ c ∈ start, isDigit c) :
    ¬start.any (containsRune "#*") := by
  rw [List.any_eq_true]
  rintro ⟨c, hc, hstem⟩
  have hdigit := h c hc
  rw [contains_rune_prefixes, Bool.or_eq_true, beq_iff_eq, beq_iff_eq] at hstem
  rcases hstem with rfl | rfl <;> exact absurd hdigit (by decide)

/-- An entry of an authority list. A range may have further fields behind its count. -/
inductive TNEntry where
  | spc (code : Bytes)
  | range (start : Bytes) (count : Nat) (extensions : List (UInt8 × Bytes))
  | one (number : Bytes)
deriving DecidableEq, Repr

namespace TNEntry

/-- The context tag of each alternative. -/
def tag : TNEntry → UInt8
  | .spc _ => 0xa0
  | .range .. => 0xa1
  | .one _ => 0xa2

/-- The value inside the context tag. -/
def content : TNEntry → Bytes
  | .spc code => Der.encode 0x16 code
  | .range start count extensions =>
      Der.encode 0x30
        (Der.encode 0x16 start ++ (Der.encode 0x02 (Der.integer count) ++ encodeFields extensions))
  | .one number => Der.encode 0x16 number

/-- The encoding of an entry. -/
def encode (e : TNEntry) : Bytes := Der.encode e.tag e.content

/-- The fields RFC 8226 does not define. -/
def extensions : TNEntry → List (UInt8 × Bytes)
  | .range _ _ extensions => extensions
  | _ => []

/-- What the contents of an entry must satisfy. -/
def Valid : TNEntry → Prop
  | .spc code => 1 ≤ code.length ∧ code.length ≤ 64 ∧ ∀ c ∈ code, 0x21 ≤ c ∧ c ≤ 0x7e
  | .range start count extensions =>
      1 ≤ start.length ∧ start.length ≤ 15 ∧ (∀ c ∈ start, isDigit c) ∧
        2 ≤ count ∧ (Der.integer count).length ≤ 8 ∧ decimal start + count < 10 ^ start.length ∧
        ∀ field ∈ extensions, DerReader.LowTag field.1
  | .one number => 1 ≤ number.length ∧ number.length ≤ 15 ∧ ∀ c ∈ number, isNumberChar c

end TNEntry

/-- The contents of the only value in a buffer. -/
theorem unwrap_ok {tag : UInt8} {content value : Bytes} (htag : DerReader.LowTag tag) :
    unwrap tag content = .ok value ↔ value.length < 2 ^ 32 ∧ content = Der.encode tag value := by
  rw [unwrap, Fallible.bind_eq_ok]
  constructor
  · rintro ⟨⟨value', r'⟩, hread, h⟩
    obtain ⟨hempty, h⟩ := Fallible.guard_eq_ok.1 h
    cases h
    obtain ⟨hlength, hbuf⟩ := (DerReader.expect_eq_ok htag).1 hread
    rw [List.length_eq_zero_iff.1 (not_not.1 hempty), List.append_nil] at hbuf
    exact ⟨hlength, hbuf⟩
  · rintro ⟨hlength, hbuf⟩
    exact ⟨(value, ⟨[]⟩), (DerReader.expect_eq_ok htag).2 ⟨hlength, by simpa using hbuf⟩, rfl⟩

theorem unwrap_error {tag : UInt8} {content : Bytes} {f : DerFault}
    (h : unwrap tag content = .error f) : f = .invalid := by
  rcases Fallible.bind_eq_error.1 h with h | ⟨⟨value, r'⟩, -, h⟩
  · exact DerReader.expect_error h
  · simp only at h
    split at h <;> cases h
    rfl

/-- A value is not longer than the encodings around it. -/
theorem length_lt_of_encode {tag : UInt8} {value rest : Bytes} {n : Nat}
    (h : (Der.encode tag value ++ rest).length < n) : value.length < n ∧ rest.length < n := by
  have := Der.encode_length_le tag value
  rw [List.length_append] at h
  omega

theorem field_length_le {fields : List (UInt8 × Bytes)} {field : UInt8 × Bytes}
    (h : field ∈ fields) : field.2.length ≤ (encodeFields fields).length := by
  induction fields with
  | nil => cases h
  | cons first fields ih =>
      rw [encode_fields_cons, List.length_append]
      rcases List.mem_cons.1 h with rfl | h
      · have := Der.encode_length_le field.1 field.2
        omega
      · have := ih h
        omega

/-- A range is checked field by field. -/
theorem check_range_ok {body : Bytes} (hbody : body.length < 2 ^ 32) :
    checkTelephoneNumberRange body = .ok () ↔
      ∃ start count extensions, TNEntry.Valid (.range start count extensions) ∧
        body = Der.encode 0x16 start ++
          (Der.encode 0x02 (Der.integer count) ++ encodeFields extensions) := by
  rw [checkTelephoneNumberRange]
  constructor
  · intro h
    obtain ⟨⟨start, fields⟩, hstart, h₁⟩ := Fallible.bind_eq_ok.1 h
    obtain ⟨⟨⟩, hnumber, h₂⟩ := Fallible.bind_eq_ok.1 h₁
    obtain ⟨⟨raw, fields'⟩, hraw, h₃⟩ := Fallible.bind_eq_ok.1 h₂
    obtain ⟨count, hcount, h₄⟩ := Fallible.bind_eq_ok.1 h₃
    obtain ⟨htwo, h₅⟩ := Fallible.guard_eq_ok.1 h₄
    obtain ⟨⟨⟩, hfields, h₆⟩ := Fallible.bind_eq_ok.1 h₅
    obtain ⟨hstem, h₇⟩ := Fallible.guard_eq_ok.1 h₆
    obtain ⟨-, hbuf⟩ := (DerReader.expect_eq_ok (by decide)).1 hstart
    obtain ⟨-, hbuf'⟩ := (DerReader.expect_eq_ok (by decide)).1 hraw
    obtain ⟨hpos, hlength, hchars⟩ := check_telephone_number_ok.1 hnumber
    obtain ⟨hinteger, height⟩ := der_integer_ok.1 hcount
    obtain ⟨extensions, hextensions, hbuf''⟩ := skip_fields_ok.1 hfields
    have hdigits := is_digit_of_number_char hchars hstem
    rw [check_count_eq hpos hlength hdigits] at h₇
    refine ⟨start, count, extensions, ⟨hpos, hlength, hdigits, not_lt.1 htwo, height, ?_, ?_⟩, ?_⟩
    · by_contra hlast
      rw [if_neg hlast] at h₇
      cases h₇
    · exact fun field hfield => (hextensions field hfield).1
    · rw [← hbuf'', ← hinteger, ← hbuf', ← hbuf]
  · rintro ⟨start, count, extensions, ⟨hpos, hlength, hdigits, htwo, height, hlast, htags⟩, rfl⟩
    obtain ⟨hstart, hrest⟩ := length_lt_of_encode hbody
    obtain ⟨hraw, hrest⟩ := length_lt_of_encode hrest
    have hchars : ∀ c ∈ start, isNumberChar c := fun c hc => by
      rw [isNumberChar, hdigits c hc, Bool.true_or, Bool.true_or]
    have hfields : skipFields ⟨encodeFields extensions⟩ = .ok () :=
      skip_fields_ok.2 ⟨extensions, fun field hfield =>
        ⟨htags field hfield, lt_of_le_of_lt (field_length_le hfield) hrest⟩, rfl⟩
    refine Fallible.bind_eq_ok.2 ⟨(start, ⟨_⟩),
      (DerReader.expect_eq_ok (by decide)).2 ⟨hstart, rfl⟩, ?_⟩
    refine Fallible.bind_eq_ok.2 ⟨(), check_telephone_number_ok.2 ⟨hpos, hlength, hchars⟩, ?_⟩
    refine Fallible.bind_eq_ok.2 ⟨(Der.integer count, ⟨_⟩),
      (DerReader.expect_eq_ok (by decide)).2 ⟨hraw, rfl⟩, ?_⟩
    refine Fallible.bind_eq_ok.2 ⟨count, der_integer_ok.2 ⟨rfl, height⟩, ?_⟩
    refine Fallible.guard_eq_ok.2 ⟨not_lt.2 htwo, ?_⟩
    refine Fallible.bind_eq_ok.2 ⟨(), hfields, ?_⟩
    refine Fallible.guard_eq_ok.2 ⟨any_prefix_of_digits hdigits, ?_⟩
    rw [check_count_eq hpos hlength hdigits, if_pos hlast]

theorem check_telephone_number_error {value : Bytes} {f : DerFault}
    (h : checkTelephoneNumber value = .error f) : f = .invalid := by
  unfold checkTelephoneNumber at h
  split at h
  · cases h
    rfl
  · split at h <;> cases h
    rfl

theorem check_service_provider_code_error {value : Bytes} {f : DerFault}
    (h : checkServiceProviderCode value = .error f) : f = .invalid := by
  unfold checkServiceProviderCode at h
  split at h
  · cases h
    rfl
  · split at h <;> cases h
    rfl

theorem check_range_error {body : Bytes} {f : DerFault}
    (h : checkTelephoneNumberRange body = .error f) : f = .invalid := by
  rw [checkTelephoneNumberRange] at h
  rcases Fallible.bind_eq_error.1 h with h | ⟨⟨start, fields⟩, -, h⟩
  · exact DerReader.expect_error h
  rcases Fallible.bind_eq_error.1 h with h | ⟨⟨⟩, hnumber, h⟩
  · exact check_telephone_number_error h
  rcases Fallible.bind_eq_error.1 h with h | ⟨⟨raw, fields'⟩, -, h⟩
  · exact DerReader.expect_error h
  rcases Fallible.bind_eq_error.1 h with h | ⟨count, -, h⟩
  · exact der_integer_error h
  split at h
  · cases h
    rfl
  rcases Fallible.bind_eq_error.1 h with h | ⟨⟨⟩, -, h⟩
  · exact skip_fields_error h
  split at h
  · cases h
    rfl
  · next hstem =>
      -- The machine arithmetic stays in range because the start has few digits.
      obtain ⟨hpos, hlength, hchars⟩ := check_telephone_number_ok.1 hnumber
      rw [check_count_eq hpos hlength (is_digit_of_number_char hchars hstem)] at h
      split at h <;> cases h
      rfl

/-! ## Entries and lists -/

/-- An entry is accepted exactly when its tag and contents are those of a valid entry. -/
theorem check_tn_entry_ok {tag : UInt8} {content : Bytes} (hlength : content.length < 2 ^ 32) :
    checkTNEntry tag content = .ok () ↔
      ∃ e : TNEntry, e.Valid ∧ tag = e.tag ∧ content = e.content := by
  unfold checkTNEntry
  constructor
  · intro h
    split at h
    · next htag =>
        obtain ⟨code, hcode, hcheck⟩ := Fallible.bind_eq_ok.1 h
        obtain ⟨-, rfl⟩ := (unwrap_ok (by decide)).1 hcode
        exact ⟨.spc code, check_service_provider_code_ok.1 hcheck, htag, rfl⟩
    split at h
    · next htag =>
        obtain ⟨body, hbody, hcheck⟩ := Fallible.bind_eq_ok.1 h
        obtain ⟨hsize, rfl⟩ := (unwrap_ok (by decide)).1 hbody
        obtain ⟨start, count, extensions, hvalid, rfl⟩ := (check_range_ok hsize).1 hcheck
        exact ⟨.range start count extensions, hvalid, htag, rfl⟩
    split at h
    · next htag =>
        obtain ⟨number, hnumber, hcheck⟩ := Fallible.bind_eq_ok.1 h
        obtain ⟨-, rfl⟩ := (unwrap_ok (by decide)).1 hnumber
        exact ⟨.one number, check_telephone_number_ok.1 hcheck, htag, rfl⟩
    · cases h
  · rintro ⟨e, hvalid, rfl, rfl⟩
    cases e with
    | spc code =>
        have hcode := lt_of_le_of_lt (Der.encode_length_le 0x16 code) hlength
        exact Fallible.bind_eq_ok.2
          ⟨code, (unwrap_ok (by decide)).2 ⟨hcode, rfl⟩, check_service_provider_code_ok.2 hvalid⟩
    | range start count extensions =>
        have hbody := lt_of_le_of_lt (Der.encode_length_le 0x30 _) hlength
        exact Fallible.bind_eq_ok.2
          ⟨_, (unwrap_ok (by decide)).2 ⟨hbody, rfl⟩,
            (check_range_ok hbody).2 ⟨start, count, extensions, hvalid, rfl⟩⟩
    | one number =>
        have hnumber := lt_of_le_of_lt (Der.encode_length_le 0x16 number) hlength
        exact Fallible.bind_eq_ok.2
          ⟨number, (unwrap_ok (by decide)).2 ⟨hnumber, rfl⟩, check_telephone_number_ok.2 hvalid⟩

theorem check_tn_entry_error {tag : UInt8} {content : Bytes} {f : DerFault}
    (h : checkTNEntry tag content = .error f) : f = .invalid := by
  have hinner {t : UInt8} {check : Bytes → Except DerFault Unit}
      (hcheck : ∀ {value}, check value = .error f → f = .invalid)
      (h : (unwrap t content >>= check) = .error f) : f = .invalid := by
    rcases Fallible.bind_eq_error.1 h with h | ⟨value, -, h⟩
    · exact unwrap_error h
    · exact hcheck h
  unfold checkTNEntry at h
  split at h
  · exact hinner check_service_provider_code_error h
  split at h
  · exact hinner check_range_error h
  split at h
  · exact hinner check_telephone_number_error h
  · cases h
    rfl

theorem check_entries_eq (r : DerReader) (count : Nat) :
    checkEntries r count =
      if r.buf.length = 0 then .ok count
      else if count + 1 > maxTNEntries then .error .invalid
      else r.tlv >>= fun p =>
        checkTNEntry p.1 p.2.1 >>= fun _ => checkEntries p.2.2 (count + 1) := by
  rw [checkEntries]
  split
  · rfl
  · split
    · rfl
    · split
      · next h => rw [h]; rfl
      · next h => rw [h]; rfl

theorem low_tag_entry : (e : TNEntry) → DerReader.LowTag e.tag
  | .spc _ => show DerReader.LowTag 0xa0 by decide
  | .range .. => show DerReader.LowTag 0xa1 by decide
  | .one _ => show DerReader.LowTag 0xa2 by decide

/-- Entries one after another. -/
def encodeEntries (entries : List TNEntry) : Bytes := entries.flatMap TNEntry.encode

@[simp] theorem encode_entries_cons (e : TNEntry) (entries : List TNEntry) :
    encodeEntries (e :: entries) = Der.encode e.tag e.content ++ encodeEntries entries :=
  List.flatMap_cons

/-- The loop accepts exactly the encodings of valid entries, as many as are still allowed. -/
theorem check_entries_ok {r : DerReader} {count n : Nat} (hlength : r.buf.length < 2 ^ 32)
    (hcount : count ≤ maxTNEntries) :
    checkEntries r count = .ok n ↔
      ∃ entries : List TNEntry, (∀ e ∈ entries, e.Valid) ∧ r.buf = encodeEntries entries ∧
        n = count + entries.length ∧ n ≤ maxTNEntries := by
  constructor
  · intro h
    induction hn : r.buf.length using Nat.strong_induction_on generalizing r count with
    | _ m ih =>
        rw [check_entries_eq] at h
        split at h
        · next hempty =>
            cases h
            exact ⟨[], by simp, List.length_eq_zero_iff.1 hempty, rfl, hcount⟩
        split at h
        · cases h
        · next hmore =>
            obtain ⟨⟨tag, content, r'⟩, hread, h₁⟩ := Fallible.bind_eq_ok.1 h
            obtain ⟨⟨⟩, hentry, hrest⟩ := Fallible.bind_eq_ok.1 h₁
            have hshorter := DerReader.tlv_length_lt hread
            obtain ⟨htag, hsize, hbuf⟩ := DerReader.tlv_eq_ok.1 hread
            obtain ⟨e, hvalid, rfl, rfl⟩ := (check_tn_entry_ok hsize).1 hentry
            obtain ⟨entries, hentries, hbuf', hn', hmax⟩ :=
              ih _ (hn ▸ hshorter) (hshorter.trans hlength) (not_lt.1 hmore) hrest rfl
            refine ⟨e :: entries, List.forall_mem_cons.2 ⟨hvalid, hentries⟩, ?_, ?_, hmax⟩
            · rw [hbuf, hbuf', encode_entries_cons]
            · rw [hn', List.length_cons]
              omega
  · rintro ⟨entries, hentries, hbuf, rfl, hmax⟩
    induction entries generalizing r count with
    | nil => rw [check_entries_eq, if_pos (by rw [hbuf]; rfl), List.length_nil, Nat.add_zero]
    | cons e entries ih =>
        obtain ⟨hvalid, hentries⟩ := List.forall_mem_cons.1 hentries
        obtain ⟨buf⟩ := r
        rw [encode_entries_cons] at hbuf
        subst hbuf
        obtain ⟨hsize, hrest⟩ := length_lt_of_encode hlength
        have hsum : count + (e :: entries).length = count + 1 + entries.length := by
          rw [List.length_cons]
          omega
        rw [hsum] at hmax ⊢
        rw [check_entries_eq, if_neg (List.length_eq_zero_iff.not.2 (Der.encode_ne_nil _ _ _)),
          if_neg (by omega), DerReader.tlv_encode (low_tag_entry e) hsize]
        refine Fallible.bind_eq_ok.2 ⟨_, rfl, ?_⟩
        exact Fallible.bind_eq_ok.2 ⟨(), (check_tn_entry_ok hsize).2 ⟨e, hvalid, rfl, rfl⟩,
          ih hrest (by omega) hentries rfl hmax⟩

theorem check_entries_error {r : DerReader} {count : Nat} {f : DerFault}
    (h : checkEntries r count = .error f) : f = .invalid := by
  induction hn : r.buf.length using Nat.strong_induction_on generalizing r count with
  | _ n ih =>
      rw [check_entries_eq] at h
      split at h
      · cases h
      split at h
      · cases h
        rfl
      rcases Fallible.bind_eq_error.1 h with h | ⟨⟨tag, content, r'⟩, hread, h⟩
      · exact DerReader.tlv_error h
      rcases Fallible.bind_eq_error.1 h with h | ⟨⟨⟩, -, h⟩
      · exact check_tn_entry_error h
      · exact ih _ (hn ▸ DerReader.tlv_length_lt hread) h rfl

/-- The byte string is the encoding of a list of one to 512 valid entries. -/
structure Encodes (der : Bytes) (entries : List TNEntry) : Prop where
  pos : 1 ≤ entries.length
  le_max : entries.length ≤ 512
  valid : ∀ e ∈ entries, e.Valid
  eq : der = Der.encode 0x30 (encodeEntries entries)

/-- The check accepts exactly the encodings of at most 8192 bytes. -/
theorem check_tn_auth_list_ok {der : Bytes} :
    checkTNAuthList der = .ok () ↔ der.length ≤ 8192 ∧ ∃ entries, Encodes der entries := by
  rw [checkTNAuthList, Fallible.guard_eq_ok]
  simp only [maxTNAuthListBytes]
  constructor
  · rintro ⟨hlength, h⟩
    obtain ⟨body, hbody, h₁⟩ := Fallible.bind_eq_ok.1 h
    obtain ⟨count, hcount, h₂⟩ := Fallible.bind_eq_ok.1 h₁
    obtain ⟨hpos, -⟩ := Fallible.guard_eq_ok.1 h₂
    obtain ⟨hsize, rfl⟩ := (unwrap_ok (by decide)).1 hbody
    obtain ⟨entries, hvalid, rfl, rfl, hmax⟩ := (check_entries_ok hsize (by decide)).1 hcount
    rw [Nat.zero_add] at hpos hmax
    exact ⟨by omega, entries, by omega, hmax, hvalid, rfl⟩
  · rintro ⟨hlength, entries, hpos, hmax, hvalid, rfl⟩
    have hsize := Der.encode_length_le 0x30 (encodeEntries entries)
    have hne := List.length_eq_zero_iff.not.2
      (List.append_nil (Der.encode _ _) ▸ Der.encode_ne_nil 0x30 (encodeEntries entries) [])
    have hbody : (encodeEntries entries).length < 2 ^ 32 := by omega
    refine ⟨by omega, ?_⟩
    refine Fallible.bind_eq_ok.2 ⟨_, (unwrap_ok (by decide)).2 ⟨hbody, rfl⟩, ?_⟩
    refine Fallible.bind_eq_ok.2 ⟨entries.length, ?_, ?_⟩
    · exact (check_entries_ok hbody (by decide)).2 ⟨entries, hvalid, rfl, by omega, hmax⟩
    · rw [if_neg (by omega)]

theorem check_tn_auth_list_error {der : Bytes} {f : DerFault}
    (h : checkTNAuthList der = .error f) : f = .invalid := by
  unfold checkTNAuthList at h
  split at h
  · cases h
    rfl
  rcases Fallible.bind_eq_error.1 h with h | ⟨body, -, h⟩
  · exact unwrap_error h
  rcases Fallible.bind_eq_error.1 h with h | ⟨count, -, h⟩
  · exact check_entries_error h
  split at h <;> cases h
  rfl

/-! ## The loops end

The loops above recurse on the length of the buffer. Below they run for a given number of rounds, as
loops of the source that might go on for ever. -/

/-- The loop over the later fields of a range, unless it needs more rounds. -/
def skipFieldsWithin : Nat → DerReader → Option (Except DerFault Unit)
  | 0, _ => none
  | rounds + 1, fields =>
      if fields.buf.length = 0 then some (.ok ())
      else match fields.tlv with
        | .error f => some (.error f)
        | .ok (_, _, fields') => skipFieldsWithin rounds fields'

/-- The loop over the entries, unless it needs more rounds. -/
def checkEntriesWithin : Nat → DerReader → Nat → Option (Except DerFault Nat)
  | 0, _, _ => none
  | rounds + 1, entries, count =>
      if entries.buf.length = 0 then some (.ok count)
      else if count + 1 > maxTNEntries then some (.error .invalid)
      else match entries.tlv with
        | .error f => some (.error f)
        | .ok (tag, content, entries') =>
            match checkTNEntry tag content with
            | .error f => some (.error f)
            | .ok () => checkEntriesWithin rounds entries' (count + 1)

/-- A round for every two bytes is enough. -/
theorem skip_fields_within {rounds : Nat} {r : DerReader} (h : r.buf.length < 2 * rounds) :
    skipFieldsWithin rounds r = some (skipFields r) := by
  induction rounds generalizing r with
  | zero => omega
  | succ rounds ih =>
      rw [skip_fields_eq, skipFieldsWithin]
      split
      · rfl
      · cases hread : r.tlv with
        | error f => rfl
        | ok value =>
            obtain ⟨tag, content, r'⟩ := value
            have hle := DerReader.tlv_length_le hread
            exact ih (by omega)

theorem check_entries_within {rounds : Nat} {r : DerReader} (h : r.buf.length < 2 * rounds)
    (count : Nat) : checkEntriesWithin rounds r count = some (checkEntries r count) := by
  induction rounds generalizing r count with
  | zero => omega
  | succ rounds ih =>
      rw [check_entries_eq, checkEntriesWithin]
      split
      · rfl
      · split
        · rfl
        · cases hread : r.tlv with
          | error f => rfl
          | ok value =>
              obtain ⟨tag, content, r'⟩ := value
              have hle := DerReader.tlv_length_le hread
              show (match checkTNEntry tag content with
                | .error f => some (.error f)
                | .ok () => checkEntriesWithin rounds r' (count + 1)) =
                  some (checkTNEntry tag content >>= fun _ => checkEntries r' (count + 1))
              cases checkTNEntry tag content with
              | error f => rfl
              | ok => exact ih (by omega) (count + 1)

/-- The cursor and the encoding of a value with the shortest form of its length are inverse to each
other. What the cursor reads is the encoding of the value it returns, with the rest of the buffer
behind it, and the encoding of every value with a tag of one octet and less than 2^32 bytes is read
back. Each value takes two bytes or more, so both loops over values end within half as many rounds
as the buffer has bytes, and one more. -/
theorem tlv_inverts_encode :
    (∀ (r r' : DerReader) (tag : UInt8) (content : Bytes), r.tlv = .ok (tag, content, r') →
      r.buf = Der.encode tag content ++ r'.buf ∧ r'.buf.length + 2 ≤ r.buf.length) ∧
    (∀ (tag : UInt8) (content rest : Bytes), tag &&& 0x1f ≠ 0x1f → content.length < 2 ^ 32 →
      DerReader.tlv ⟨Der.encode tag content ++ rest⟩ = .ok (tag, content, ⟨rest⟩)) ∧
    (∀ (tag : UInt8) (content : Bytes), content.length < 2 ^ 32 →
      Der.encode tag content = tag :: (Der.length content.length ++ content) ∧
      Der.Definite content.length (Der.length content.length) ∧
      ∀ form, Der.Definite content.length form →
        (Der.length content.length).length ≤ form.length ∧
        (form.length ≤ (Der.length content.length).length → form = Der.length content.length)) ∧
    (∀ (r : DerReader) (count rounds : Nat), r.buf.length < 2 * rounds →
      checkEntriesWithin rounds r count = some (checkEntries r count) ∧
      skipFieldsWithin rounds r = some (skipFields r)) := by
  refine ⟨fun r r' tag content h => ?_, fun tag content rest htag hlength => ?_,
    fun tag content hlength => ⟨rfl, ?_, fun form hform => hform.shortest⟩,
    fun r count rounds h => ⟨check_entries_within h count, skip_fields_within h⟩⟩
  · exact ⟨(DerReader.tlv_eq_ok.1 h).2.2, DerReader.tlv_length_le h⟩
  · exact DerReader.tlv_encode htag hlength rest
  · refine Der.definite_length (lt_of_lt_of_le hlength ?_)
    calc 2 ^ 32 = 256 ^ 4 := by decide
      _ ≤ 256 ^ 126 := Nat.pow_le_pow_right (by decide) (by decide)

/-! ## One list, one encoding -/

/-- Tag, contents and the rest of the buffer can be told from the bytes. -/
theorem encode_append_inj {tag tag' : UInt8} {content content' rest rest' : Bytes}
    (htag : DerReader.LowTag tag) (htag' : DerReader.LowTag tag')
    (h : Der.encode tag content ++ rest = Der.encode tag' content' ++ rest')
    (hlength : (Der.encode tag content ++ rest).length < 2 ^ 32) :
    tag = tag' ∧ content = content' ∧ rest = rest' := by
  have hread := DerReader.tlv_encode htag (length_lt_of_encode hlength).1 rest
  rw [h] at hlength hread
  rw [DerReader.tlv_encode htag' (length_lt_of_encode hlength).1 rest'] at hread
  cases hread
  exact ⟨rfl, rfl, rfl⟩

theorem encode_fields_inj {fields fields' : List (UInt8 × Bytes)}
    (h : ∀ field ∈ fields, DerReader.LowTag field.1)
    (h' : ∀ field ∈ fields', DerReader.LowTag field.1)
    (heq : encodeFields fields = encodeFields fields')
    (hlength : (encodeFields fields).length < 2 ^ 32) : fields = fields' := by
  induction fields generalizing fields' with
  | nil =>
      cases fields' with
      | nil => rfl
      | cons field fields' => exact absurd heq.symm (Der.encode_ne_nil _ _ _)
  | cons field fields ih =>
      cases fields' with
      | nil => exact absurd heq (Der.encode_ne_nil _ _ _)
      | cons field' fields' =>
          rw [List.forall_mem_cons] at h h'
          rw [encode_fields_cons, encode_fields_cons] at heq
          rw [encode_fields_cons] at hlength
          obtain ⟨htag, hcontent, hrest⟩ := encode_append_inj h.1 h'.1 heq hlength
          rw [ih h.2 h'.2 hrest (length_lt_of_encode hlength).2, Prod.ext htag hcontent]

theorem integer_inj {n n' : Nat} (h : Der.integer n = Der.integer n') : n = n' := by
  rw [← (Der.integer_spec n).2, h, (Der.integer_spec n').2]

/-- A valid entry can be told from its tag and contents. -/
theorem entry_inj {e e' : TNEntry} (h : e.Valid) (h' : e'.Valid) (htag : e.tag = e'.tag)
    (hcontent : e.content = e'.content) (hlength : e.content.length < 2 ^ 32) : e = e' := by
  have hunwrap {t : UInt8} {c c' : Bytes} (ht : DerReader.LowTag t)
      (heq : Der.encode t c = Der.encode t c') (hl : (Der.encode t c).length < 2 ^ 32) :
      c = c' := by
    rw [← List.append_nil (Der.encode t c)] at hl heq
    rw [← List.append_nil (Der.encode t c')] at heq
    exact (encode_append_inj ht ht heq hl).2.1
  match e, e' with
  | .spc code, .spc code' =>
      rw [hunwrap (by decide) hcontent hlength]
  | .one number, .one number' =>
      rw [hunwrap (by decide) hcontent hlength]
  | .range start count extensions, .range start' count' extensions' =>
      have hbody := hunwrap (by decide) hcontent hlength
      have hbody' := lt_of_le_of_lt (Der.encode_length_le _ _) hlength
      obtain ⟨-, rfl, hrest⟩ := encode_append_inj (by decide) (by decide) hbody hbody'
      have hrest' := (length_lt_of_encode hbody').2
      obtain ⟨-, hcount, hfields⟩ := encode_append_inj (by decide) (by decide) hrest hrest'
      obtain ⟨-, -, -, -, -, -, htags⟩ := h
      obtain ⟨-, -, -, -, -, -, htags'⟩ := h'
      rw [integer_inj hcount,
        encode_fields_inj htags htags' hfields (length_lt_of_encode hrest').2]
  | .spc _, .range .. => exact absurd (show (0xa0 : UInt8) = 0xa1 from htag) (by decide)
  | .spc _, .one _ => exact absurd (show (0xa0 : UInt8) = 0xa2 from htag) (by decide)
  | .range .., .spc _ => exact absurd (show (0xa1 : UInt8) = 0xa0 from htag) (by decide)
  | .range .., .one _ => exact absurd (show (0xa1 : UInt8) = 0xa2 from htag) (by decide)
  | .one _, .spc _ => exact absurd (show (0xa2 : UInt8) = 0xa0 from htag) (by decide)
  | .one _, .range .. => exact absurd (show (0xa2 : UInt8) = 0xa1 from htag) (by decide)

/-- Valid entries can be told from their encodings. -/
theorem encode_entries_inj {entries entries' : List TNEntry} (h : ∀ e ∈ entries, e.Valid)
    (h' : ∀ e ∈ entries', e.Valid) (heq : encodeEntries entries = encodeEntries entries')
    (hlength : (encodeEntries entries).length < 2 ^ 32) : entries = entries' := by
  induction entries generalizing entries' with
  | nil =>
      cases entries' with
      | nil => rfl
      | cons e entries' => exact absurd heq.symm (Der.encode_ne_nil _ _ _)
  | cons e entries ih =>
      cases entries' with
      | nil => exact absurd heq (Der.encode_ne_nil _ _ _)
      | cons e' entries' =>
          rw [List.forall_mem_cons] at h h'
          rw [encode_entries_cons, encode_entries_cons] at heq
          rw [encode_entries_cons] at hlength
          obtain ⟨htag, hcontent, hrest⟩ :=
            encode_append_inj (low_tag_entry e) (low_tag_entry e') heq hlength
          obtain ⟨hsize, hsize'⟩ := length_lt_of_encode hlength
          rw [entry_inj h.1 h'.1 htag hcontent hsize, ih h.2 h'.2 hrest hsize']

/-- A byte string of acceptable length encodes at most one list of entries. -/
theorem Encodes.unique {der : Bytes} {entries entries' : List TNEntry} (hlength : der.length ≤ 8192)
    (h : Encodes der entries) (h' : Encodes der entries') : entries = entries' := by
  have hsize := h.eq ▸ hlength
  have heq := h.eq.symm.trans h'.eq
  rw [← List.append_nil (Der.encode 0x30 (encodeEntries entries))] at heq hsize
  rw [← List.append_nil (Der.encode 0x30 (encodeEntries entries'))] at heq
  have hsize' := lt_of_le_of_lt hsize (by norm_num : 8192 < 2 ^ 32)
  obtain ⟨-, hbody, -⟩ := encode_append_inj (by decide) (by decide) heq hsize'
  exact encode_entries_inj h.valid h'.valid hbody (length_lt_of_encode hsize').1

/-- The check of an authority list accepts exactly the encodings of one to 512 valid entries in at
most 8192 bytes, without an overflow or an index out of range on any input. What is accepted has
one reading, and without extension fields no other byte string has the same one. -/
theorem check_tn_auth_list_iff (der : Bytes) :
    (checkTNAuthList der = .ok () ↔ der.length ≤ 8192 ∧ ∃ entries, Encodes der entries) ∧
    checkTNAuthList der ≠ .error .overflow ∧ checkTNAuthList der ≠ .error .outOfRange ∧
    (checkTNAuthList der = .ok () → ∃! entries, Encodes der entries) ∧
    ∀ der' entries, Encodes der entries → Encodes der' entries →
      (∀ e ∈ entries, e.extensions = []) → der = der' := by
  refine ⟨check_tn_auth_list_ok, ?_, ?_, ?_, ?_⟩
  · intro h
    cases check_tn_auth_list_error h
  · intro h
    cases check_tn_auth_list_error h
  · intro h
    obtain ⟨hlength, entries, hentries⟩ := check_tn_auth_list_ok.1 h
    exact ⟨entries, hentries, fun _ h' => h'.unique hlength hentries⟩
  · intro der' entries h h' _
    rw [h.eq, h'.eq]

/-! ## Identifier values -/

/-- `base64.RawURLEncoding.Strict().DecodeString`, which skips line breaks. -/
def decodeString (value : String) : Option Bytes :=
  Base64.urlSafe.decode (value.toList.filter fun c => c != '\r' && c != '\n')

/-- `base64.RawURLEncoding.EncodeToString`. -/
def encodeToString (bytes : Bytes) : String := String.ofList (Base64.urlSafe.encode bytes)

/-- Returns a rejectedIdentifier problem that names the offending identifier. -/
def rejected (id : Identifier) (detail : String) : Problem :=
  (newProblem .rejectedIdentifier detail).withIdentifier id

/-- Decodes the base64url form of a TN Authorization List and checks its DER against RFC 8226. -/
def normalizeTNAuthList (value : String) : Except Problem Identifier :=
  let id : Identifier := ⟨.tnAuthList, value⟩
  if value = "" then .error (newProblem .malformed "TNAuthList identifier value is empty")
  else match decodeString value with
    | none => .error (rejected id "TNAuthList identifier is not unpadded base64url")
    | some der =>
        match checkTNAuthList der with
        | .error _ => .error (rejected id "TNAuthList identifier is not a valid authority list")
        | .ok () => .ok id

/-- A certificate or request extension. -/
structure Extension where
  id : List Nat
  value : Bytes
deriving DecidableEq, Repr

/-- The id-pe-TNAuthList certificate extension of RFC 8226 section 9. -/
def tnAuthListOID : List Nat := [1, 3, 6, 1, 5, 5, 7, 1, 26]

/-- Returns the TNAuthList identifier an extension list carries, if any. -/
def tnAuthListExtension (extensions : List Extension) : Except String (Option Identifier) :=
  match extensions.filter fun extension => extension.id = tnAuthListOID with
  | [] => .ok none
  | [found] =>
      match checkTNAuthList found.value with
      | .error _ => .error "acmeserver: invalid TN authorization list"
      | .ok () => .ok (some ⟨.tnAuthList, encodeToString found.value⟩)
  | _ => .error "duplicate TN authorization list extension"

/-- What is accepted decodes to an acceptable list, and its value is kept as it is. -/
theorem normalize_tn_auth_list_ok {value : String} {id : Identifier} :
    normalizeTNAuthList value = .ok id ↔
      id = ⟨.tnAuthList, value⟩ ∧ value ≠ "" ∧
        ∃ der, decodeString value = some der ∧ checkTNAuthList der = .ok () := by
  unfold normalizeTNAuthList
  split
  · next hempty => exact ⟨nofun, fun h => absurd hempty h.2.1⟩
  · next hne =>
      cases hdecode : decodeString value with
      | none => exact ⟨nofun, fun ⟨_, _, _, h, _⟩ => nomatch h⟩
      | some der =>
          simp only
          split
          · next hcheck =>
              refine ⟨nofun, fun ⟨_, _, der', h, h'⟩ => ?_⟩
              cases h
              rw [hcheck] at h'
              cases h'
          · next hcheck =>
              refine ⟨fun h => ?_, fun h => by rw [h.1]⟩
              cases h
              exact ⟨rfl, hne, der, rfl, hcheck⟩

/-- Skipping line breaks changes a text only if it has some. -/
theorem filter_line_breaks {text : List Char} :
    (text.filter fun c => c != '\r' && c != '\n') = text ↔ '\r' ∉ text ∧ '\n' ∉ text := by
  rw [List.filter_eq_self]
  constructor
  · intro h
    exact ⟨fun hr => absurd (h _ hr) (by decide), fun hn => absurd (h _ hn) (by decide)⟩
  · rintro ⟨hr, hn⟩ c hc
    have hr' : c ≠ '\r' := fun h => hr (h ▸ hc)
    have hn' : c ≠ '\n' := fun h => hn (h ▸ hc)
    simp [hr', hn']

/-- The value is the encoding of what it decodes to exactly when it has no line break. -/
theorem encode_to_string_eq_iff {value : String} {der : Bytes}
    (h : decodeString value = some der) :
    encodeToString der = value ↔ '\r' ∉ value.toList ∧ '\n' ∉ value.toList := by
  rw [← filter_line_breaks, encodeToString, Base64.Alphabet.encode_decode _ h]
  constructor
  · intro heq
    have htext := congrArg String.toList heq
    rwa [String.toList_ofList] at htext
  · intro heq
    rw [heq, String.ofList_toList]

/-- An extension with an acceptable list carries the identifier of its encoding. -/
theorem tn_auth_list_extension_single {der : Bytes} (h : checkTNAuthList der = .ok ()) :
    tnAuthListExtension [⟨tnAuthListOID, der⟩] = .ok (some ⟨.tnAuthList, encodeToString der⟩) := by
  simp [tnAuthListExtension, h]

/-- An accepted value is normalized to the one that a certificate extension with the same list
carries exactly when it has no line breaks, and two such values of one list are normalized to the
same identifier. -/
theorem normalize_tn_auth_list_canonical_iff {value : String} {id : Identifier}
    (h : normalizeTNAuthList value = .ok id) :
    ∃ der, decodeString value = some der ∧
      ((id.value = encodeToString der ∧
          tnAuthListExtension [⟨tnAuthListOID, der⟩] = .ok (some id)) ↔
        '\r' ∉ value.toList ∧ '\n' ∉ value.toList) ∧
      ∀ value' id', normalizeTNAuthList value' = .ok id' → decodeString value' = some der →
        '\r' ∉ value.toList ∧ '\n' ∉ value.toList →
        '\r' ∉ value'.toList ∧ '\n' ∉ value'.toList → id = id' := by
  obtain ⟨rfl, hne, der, hdecode, hcheck⟩ := normalize_tn_auth_list_ok.1 h
  have hextension := tn_auth_list_extension_single hcheck
  refine ⟨der, hdecode, ?_, ?_⟩
  · rw [← encode_to_string_eq_iff hdecode]
    constructor
    · rintro ⟨heq, -⟩
      exact heq.symm
    · intro heq
      rw [heq] at hextension
      exact ⟨heq.symm, hextension⟩
  · intro value' id' h' hdecode' hbreaks hbreaks'
    obtain ⟨rfl, -⟩ := normalize_tn_auth_list_ok.1 h'
    rw [← (encode_to_string_eq_iff hdecode).2 hbreaks,
      ← (encode_to_string_eq_iff hdecode').2 hbreaks']

/-- The list of the service provider code `A`. -/
def sampleList : Bytes := [0x30, 0x05, 0xa0, 0x03, 0x16, 0x01, 0x41]

theorem check_sample_list : checkTNAuthList sampleList = .ok () :=
  check_tn_auth_list_ok.2 ⟨by decide, [.spc [0x41]],
    { pos := by decide, le_max := by decide, valid := by simp [TNEntry.Valid], eq := by decide }⟩

theorem normalize_sample_list :
    normalizeTNAuthList "MAWgAxYBQQ" = .ok ⟨.tnAuthList, "MAWgAxYBQQ"⟩ :=
  normalize_tn_auth_list_ok.2 ⟨rfl, by decide, sampleList, by decide, check_sample_list⟩

/-- The value of the list as an extension carries it is its own normal form. -/
theorem normalize_sample_list_canonical :
    normalizeTNAuthList "MAWgAxYBQQ" = .ok ⟨.tnAuthList, "MAWgAxYBQQ"⟩ ∧
      ∃ der, decodeString "MAWgAxYBQQ" = some der ∧
        tnAuthListExtension [⟨tnAuthListOID, der⟩] = .ok (some ⟨.tnAuthList, "MAWgAxYBQQ"⟩) := by
  refine ⟨normalize_sample_list, ?_⟩
  obtain ⟨der, hdecode, hiff, -⟩ := normalize_tn_auth_list_canonical_iff normalize_sample_list
  exact ⟨der, hdecode, (hiff.2 ⟨by decide, by decide⟩).2⟩

/-- A line break behind the value is accepted and kept, so that the list has a second identifier
value, which no certificate extension carries. -/
theorem normalize_keeps_line_break :
    normalizeTNAuthList "MAWgAxYBQQ\n" = .ok ⟨.tnAuthList, "MAWgAxYBQQ\n"⟩ ∧
      decodeString "MAWgAxYBQQ\n" = some sampleList ∧
      tnAuthListExtension [⟨tnAuthListOID, sampleList⟩] =
        .ok (some ⟨.tnAuthList, "MAWgAxYBQQ"⟩) ∧
      normalizeTNAuthList "MAWgAxYBQQ" = .ok ⟨.tnAuthList, "MAWgAxYBQQ"⟩ :=
  ⟨normalize_tn_auth_list_ok.2 ⟨rfl, by decide, sampleList, by decide, check_sample_list⟩,
    by decide, tn_auth_list_extension_single check_sample_list, normalize_sample_list⟩

end AcmeServer.Name
