import AcmeServer.Der.Basic
import AcmeServer.Fallible.Basic
import AcmeServer.Resource.Problem

/-!
# The DER cursor

`derReader` of `tnauthlist.go` with its machine arithmetic: an index or a slice bound outside the
buffer and an integer that leaves 64 bits stop the model with a fault of their own, so that a
statement about the result is one about the real computation. `tlv_eq_ok` says what `tlv` reads,
exactly the values in the distinguished encoding, and `tlv_error` that it never faults.
-/

namespace AcmeServer.Name

/-- Why a check of an encoding stops: it returns `errTNAuthList`, or the machine would overflow an
integer or panic at an index. -/
inductive DerFault where
  | invalid
  | overflow
  | outOfRange
deriving DecidableEq, Repr

/-- `buf[i]`. -/
def byteAt (buf : Bytes) (i : Nat) : Except DerFault UInt8 :=
  match buf[i]? with
  | some b => .ok b
  | none => .error .outOfRange

/-- `buf[:n]`. -/
def sliceTo (buf : Bytes) (n : Nat) : Except DerFault Bytes :=
  if n ≤ buf.length then .ok (buf.take n) else .error .outOfRange

/-- `buf[n:]`. -/
def sliceFrom (buf : Bytes) (n : Nat) : Except DerFault Bytes :=
  if n ≤ buf.length then .ok (buf.drop n) else .error .outOfRange

/-- A non-negative result that must fit a signed 64-bit integer. -/
def int64 (n : Nat) : Except DerFault Nat :=
  if n < 2 ^ 63 then .ok n else .error .overflow

/-- The loop `value = value<<8 | int64(b)` over some bytes. -/
def shiftIn (bytes : Bytes) : Except DerFault Nat :=
  bytes.foldlM (fun value b => int64 (value <<< 8 ||| b.toNat)) 0

/-- A cursor over a canonical DER encoding. -/
structure DerReader where
  buf : Bytes
deriving DecidableEq, Repr

namespace DerReader

/-- A length of more than one octet, from the bytes after the first. -/
def longLength (octets : Nat) (rest : Bytes) : Except DerFault (Nat × Bytes) :=
  if octets = 0 ∨ octets > 4 ∨ rest.length < octets then .error .invalid
  else do
    let first ← byteAt rest 0
    if first = 0 then .error .invalid
    else do
      let size ← shiftIn (← sliceTo rest octets)
      if size < 0x80 then .error .invalid
      else do
        let rest ← sliceFrom rest octets
        return (size, rest)

/-- The length octets, of which the first is given. -/
def readLength (size : Nat) (rest : Bytes) : Except DerFault (Nat × Bytes) :=
  if size &&& 0x80 ≠ 0 then longLength (size &&& 0x7f) rest else .ok (size, rest)

/-- Reads one tag, length and value, rejecting the forms DER does not allow. -/
def tlv (r : DerReader) : Except DerFault (UInt8 × Bytes × DerReader) :=
  if r.buf.length < 2 then .error .invalid
  else do
    let tag ← byteAt r.buf 0
    if tag &&& 0x1f = 0x1f then .error .invalid
    else do
      let size := (← byteAt r.buf 1).toNat
      let rest ← sliceFrom r.buf 2
      let (size, rest) ← readLength size rest
      if rest.length < size then .error .invalid
      else do
        let next ← sliceFrom rest size
        let content ← sliceTo rest size
        return (tag, content, ⟨next⟩)

/-- Reads the next value and returns its contents when the tag is the expected one. -/
def expect (r : DerReader) (tag : UInt8) : Except DerFault (Bytes × DerReader) := do
  let (got, content, r) ← r.tlv
  if got ≠ tag then .error .invalid else return (content, r)

end DerReader

/-! ## The machine arithmetic -/

section Machine

variable {buf : Bytes} {i n : Nat}

theorem byte_at_of_lt (h : i < buf.length) : byteAt buf i = .ok buf[i] := by
  simp [byteAt, h]

theorem slice_to_of_le (h : n ≤ buf.length) : sliceTo buf n = .ok (buf.take n) := if_pos h

theorem slice_from_of_le (h : n ≤ buf.length) : sliceFrom buf n = .ok (buf.drop n) := if_pos h

/-- Shifting a byte in. -/
theorem shift_or (value : Nat) (b : UInt8) : value <<< 8 ||| b.toNat = value * 256 + b.toNat := by
  rw [← Nat.shiftLeft_add_eq_or_of_lt b.toNat_lt, Nat.shiftLeft_eq]

/-- Bytes whose number fits are read without an overflow. -/
theorem shift_in_of_lt {bytes : Bytes} (h : Der.bytesNat bytes < 2 ^ 63) :
    shiftIn bytes = .ok (Der.bytesNat bytes) := by
  induction bytes using List.reverseRecOn with
  | nil => rfl
  | append_singleton bytes b ih =>
      rw [Der.bytes_nat_append] at h ⊢
      have hstem := ih (by omega)
      rw [shiftIn] at hstem ⊢
      rw [List.foldlM_append, hstem]
      show int64 _ >>= pure = _
      rw [bind_pure, shift_or, int64, if_pos h]

/-- A few bytes always fit. -/
theorem shift_in_of_length_le {bytes : Bytes} (h : bytes.length ≤ 7) :
    shiftIn bytes = .ok (Der.bytesNat bytes) := by
  refine shift_in_of_lt (lt_of_lt_of_le (Der.bytes_nat_lt bytes) ?_)
  calc 256 ^ bytes.length ≤ 256 ^ 7 := Nat.pow_le_pow_right (by decide) h
    _ ≤ 2 ^ 63 := by decide

end Machine

/-! ## What the cursor reads -/

namespace DerReader

/-- Whether a tag has one octet. -/
def LowTag (tag : UInt8) : Prop := tag &&& 0x1f ≠ 0x1f

instance (tag : UInt8) : Decidable (LowTag tag) := inferInstanceAs (Decidable (_ ≠ _))

/-- A long length without the machine's checks. -/
theorem long_length_eq (octets : Nat) (rest : Bytes) :
    longLength octets rest =
      if octets = 0 ∨ octets > 4 ∨ rest.length < octets then .error .invalid
      else if rest.head? = some 0 then .error .invalid
      else if Der.bytesNat (rest.take octets) < 128 then .error .invalid
      else .ok (Der.bytesNat (rest.take octets), rest.drop octets) := by
  unfold longLength
  split
  · rfl
  · next hoctets =>
      obtain ⟨hzero, hfour, hlength⟩ : octets ≠ 0 ∧ octets ≤ 4 ∧ octets ≤ rest.length := by omega
      cases rest with
      | nil =>
          simp only [List.length_nil] at hlength
          omega
      | cons b rest =>
          rw [byte_at_of_lt (by simp), slice_to_of_le hlength, slice_from_of_le hlength]
          simp only [List.getElem_cons_zero, List.head?_cons, Option.some.injEq]
          show (if b = 0 then _ else _) = _
          split
          · rfl
          · show (shiftIn _ >>= _) = _
            rw [shift_in_of_length_le (by simp; omega)]
            rfl

/-- A long length is the minimal one of a number that needs it. -/
theorem long_length_eq_ok {octets size : Nat} {rest rest' : Bytes} :
    longLength octets rest = .ok (size, rest') ↔
      octets ≤ 4 ∧ 128 ≤ size ∧ (Der.natBytes size).length = octets ∧
        rest = Der.natBytes size ++ rest' := by
  rw [long_length_eq, Fallible.guard_eq_ok, Fallible.guard_eq_ok, Fallible.guard_eq_ok]
  constructor
  · rintro ⟨hoctets, hhead, hsize, h⟩
    cases h
    obtain ⟨hzero, hfour, hlength⟩ : octets ≠ 0 ∧ octets ≤ 4 ∧ octets ≤ rest.length := by omega
    have hbytes : Der.natBytes (Der.bytesNat (rest.take octets)) = rest.take octets :=
      Der.nat_bytes_bytes_nat (by rwa [List.head?_take, if_neg hzero])
    refine ⟨hfour, not_lt.1 hsize, ?_, ?_⟩
    · rw [hbytes, List.length_take, min_eq_left hlength]
    · rw [hbytes, List.take_append_drop]
  · rintro ⟨hfour, hsize, hlength, rfl⟩
    have hne : Der.natBytes size ≠ [] := by
      intro hnil
      have h := Der.bytes_nat_nat_bytes size
      rw [hnil] at h
      simp only [Der.bytesNat, List.foldl_nil] at h
      omega
    have hpos := List.length_pos_iff.2 hne
    have htake : (Der.natBytes size ++ rest').take octets = Der.natBytes size :=
      hlength ▸ List.take_left
    have hdrop : (Der.natBytes size ++ rest').drop octets = rest' := hlength ▸ List.drop_left
    refine ⟨?_, ?_, ?_, ?_⟩
    · rw [List.length_append]
      omega
    · rw [List.head?_append_of_ne_nil _ hne]
      exact Der.nat_bytes_head size
    · rw [htake, Der.bytes_nat_nat_bytes]
      omega
    · rw [htake, hdrop, Der.bytes_nat_nat_bytes]

theorem long_length_error {octets : Nat} {rest : Bytes} {f : DerFault}
    (h : longLength octets rest = .error f) : f = .invalid := by
  rw [long_length_eq] at h
  split at h
  · cases h
    rfl
  · split at h
    · cases h
      rfl
    · split at h <;> cases h
      rfl

/-- The first length octet tells the two forms apart by its high bit. -/
theorem read_length_eq (first : UInt8) (rest : Bytes) :
    readLength first.toNat rest =
      if first.toNat < 128 then .ok (first.toNat, rest)
      else longLength (first.toNat % 128) rest := by
  have hhigh : ∀ n < 256, (n &&& 0x80 ≠ 0 ↔ ¬n < 128) := by decide +kernel
  have hlow : first.toNat &&& 0x7f = first.toNat % 128 :=
    Nat.and_two_pow_sub_one_eq_mod first.toNat 7
  rw [readLength, hlow]
  by_cases h : first.toNat < 128
  · rw [if_neg (by simpa using (hhigh _ first.toNat_lt).not.2 (not_not.2 h)), if_pos h]
  · rw [if_pos ((hhigh _ first.toNat_lt).2 h), if_neg h]

/-- The length octets are the minimal ones of a length of at most four bytes. -/
theorem read_length_eq_ok {first : UInt8} {size : Nat} {rest rest' : Bytes} :
    readLength first.toNat rest = .ok (size, rest') ↔
      size < 2 ^ 32 ∧ first :: rest = Der.length size ++ rest' := by
  have hfour : (Der.natBytes size).length ≤ 4 ↔ size < 2 ^ 32 := Der.nat_bytes_length_le_iff
  have hfirst := first.toNat_lt
  rw [read_length_eq, Der.length]
  by_cases hshort : first.toNat < 128
  · rw [if_pos hshort]
    constructor
    · intro h
      cases h
      rw [if_pos hshort, UInt8.ofNat_toNat]
      exact ⟨by omega, rfl⟩
    · rintro ⟨hsize, h⟩
      split at h
      · next hsize' =>
          cases h
          rw [UInt8.toNat_ofNat_of_lt' (show size < 256 by omega)]
          rfl
      · -- The first octet of a long length has its high bit set.
        obtain ⟨rfl, -⟩ := List.cons.inj h
        rw [UInt8.toNat_ofNat_of_lt' (show _ < 256 by omega)] at hshort
        omega
  · rw [if_neg hshort, long_length_eq_ok]
    constructor
    · rintro ⟨hoctets, hsize, hlength, rfl⟩
      have hsum : 128 + first.toNat % 128 = first.toNat := by omega
      rw [if_neg (by omega), hlength, hsum, UInt8.ofNat_toNat]
      exact ⟨hfour.1 (by omega), rfl⟩
    · rintro ⟨hsize, h⟩
      split at h
      · next hsize' =>
          obtain ⟨rfl, -⟩ := List.cons.inj h
          rw [UInt8.toNat_ofNat_of_lt' (show size < 256 by omega)] at hshort
          omega
      · next hsize' =>
          obtain ⟨rfl, rfl⟩ := List.cons.inj h
          rw [UInt8.toNat_ofNat_of_lt' (show _ < 256 by omega)]
          exact ⟨by omega, by omega, by omega, rfl⟩

theorem read_length_error {first : UInt8} {rest : Bytes} {f : DerFault}
    (h : readLength first.toNat rest = .error f) : f = .invalid := by
  rw [read_length_eq] at h
  split at h
  · cases h
  · exact long_length_error h

/-- Reading a value, without the machine's checks. -/
theorem tlv_cons_cons (tag first : UInt8) (rest : Bytes) :
    tlv ⟨tag :: first :: rest⟩ =
      if ¬LowTag tag then .error .invalid
      else readLength first.toNat rest >>= fun p =>
        if p.2.length < p.1 then .error .invalid
        else .ok (tag, p.2.take p.1, ⟨p.2.drop p.1⟩) := by
  unfold tlv
  rw [if_neg (by simp), byte_at_of_lt (by simp), byte_at_of_lt (by simp),
    slice_from_of_le (by simp)]
  show (if tag &&& 0x1f = 0x1f then _ else _) = _
  by_cases htag : tag &&& 0x1f = 0x1f
  · rw [if_pos htag, if_pos (show ¬LowTag tag from not_not.2 htag)]
  · rw [if_neg htag, if_neg (show ¬¬LowTag tag from not_not.2 htag)]
    show (readLength _ _ >>= _) = _
    refine bind_congr fun ⟨size, rest'⟩ => ?_
    show (if rest'.length < size then _ else _) = _
    by_cases hroom : rest'.length < size
    · rw [if_pos hroom, if_pos hroom]
    · rw [if_neg hroom, if_neg hroom, slice_from_of_le (not_lt.1 hroom),
        slice_to_of_le (not_lt.1 hroom)]
      rfl

/-- The cursor reads a value exactly where its encoding begins, and moves behind it. -/
theorem tlv_eq_ok {r r' : DerReader} {tag : UInt8} {content : Bytes} :
    r.tlv = .ok (tag, content, r') ↔
      LowTag tag ∧ content.length < 2 ^ 32 ∧ r.buf = Der.encode tag content ++ r'.buf := by
  obtain ⟨buf⟩ := r
  match buf with
  | [] => exact ⟨nofun, fun h => nomatch h.2.2⟩
  | [b] =>
      refine ⟨nofun, fun ⟨_, _, h⟩ => ?_⟩
      have hlength := congrArg List.length h
      have := Der.length_pos content.length
      simp only [Der.encode, List.length_append, List.length_cons, List.length_nil] at hlength
      omega
  | tag' :: first :: rest =>
      rw [tlv_cons_cons, Fallible.guard_eq_ok, Fallible.bind_eq_ok, not_not]
      constructor
      · rintro ⟨htag, ⟨size, rest'⟩, hread, h⟩
        obtain ⟨hroom, h⟩ := Fallible.guard_eq_ok.1 h
        cases h
        obtain ⟨hsize, hbuf⟩ := read_length_eq_ok.1 hread
        have hlength : (rest'.take size).length = size := by
          rw [List.length_take, min_eq_left (not_lt.1 hroom)]
        refine ⟨htag, hlength.symm ▸ hsize, ?_⟩
        rw [Der.encode, hlength, hbuf, List.cons_append, List.append_assoc,
          List.take_append_drop]
      · rintro ⟨htag, hsize, hbuf⟩
        rw [Der.encode, List.cons_append, List.append_assoc] at hbuf
        obtain ⟨rfl, hrest⟩ := List.cons.inj hbuf
        refine ⟨htag, _, read_length_eq_ok.2 ⟨hsize, hrest⟩, ?_⟩
        rw [if_neg (by simp)]
        simp

/-- A value at the front of the buffer is read. -/
theorem tlv_encode {tag : UInt8} {content : Bytes} (htag : LowTag tag)
    (hlength : content.length < 2 ^ 32) (rest : Bytes) :
    tlv ⟨Der.encode tag content ++ rest⟩ = .ok (tag, content, ⟨rest⟩) :=
  tlv_eq_ok.2 ⟨htag, hlength, rfl⟩

/-- The cursor never faults. -/
theorem tlv_error {r : DerReader} {f : DerFault} (h : r.tlv = .error f) : f = .invalid := by
  obtain ⟨buf⟩ := r
  match buf with
  | [] =>
      cases h
      rfl
  | [_] =>
      cases h
      rfl
  | tag :: first :: rest =>
      rw [tlv_cons_cons] at h
      split at h
      · cases h
        rfl
      · rcases Fallible.bind_eq_error.1 h with h | ⟨p, -, h⟩
        · exact read_length_error h
        · split at h <;> cases h
          rfl

/-- `expect` reads a value with the given tag. -/
theorem expect_eq_ok {r r' : DerReader} {tag : UInt8} {content : Bytes} (htag : LowTag tag) :
    r.expect tag = .ok (content, r') ↔
      content.length < 2 ^ 32 ∧ r.buf = Der.encode tag content ++ r'.buf := by
  rw [expect, Fallible.bind_eq_ok]
  constructor
  · rintro ⟨⟨got, content', r₁⟩, hread, h⟩
    obtain ⟨hgot, h⟩ := Fallible.guard_eq_ok.1 h
    cases h
    cases not_not.1 hgot
    exact (tlv_eq_ok.1 hread).2
  · intro h
    exact ⟨_, tlv_eq_ok.2 ⟨htag, h⟩, if_neg (not_not.2 rfl)⟩

theorem expect_error {r : DerReader} {tag : UInt8} {f : DerFault}
    (h : r.expect tag = .error f) : f = .invalid := by
  rcases Fallible.bind_eq_error.1 h with h | ⟨⟨got, content, r'⟩, -, h⟩
  · exact tlv_error h
  · simp only at h
    split at h <;> cases h
    rfl

/-- The cursor moves by a tag and a length at least. -/
theorem tlv_length_le {r r' : DerReader} {tag : UInt8} {content : Bytes}
    (h : r.tlv = .ok (tag, content, r')) : r'.buf.length + 2 ≤ r.buf.length := by
  obtain ⟨-, -, hbuf⟩ := tlv_eq_ok.1 h
  have hpos := Der.length_pos content.length
  rw [hbuf, Der.encode]
  simp only [List.length_append, List.length_cons]
  omega

theorem tlv_length_lt {r r' : DerReader} {tag : UInt8} {content : Bytes}
    (h : r.tlv = .ok (tag, content, r')) : r'.buf.length < r.buf.length := by
  have hle := tlv_length_le h
  omega

end DerReader

end AcmeServer.Name
