/-!
# Reading UTF-8

A byte string is read as a sequence of characters. A byte that starts no valid encoding is read as
the replacement character, alone, and reading goes on with the next byte; so every byte string can
be read. `decodeRune` reads one character and `runes` all of them. Byte strings of ASCII characters
are read byte by byte.
-/

namespace Utf8

/-- The character that stands for invalid bytes. -/
def replacement : Char := Char.ofNat 0xFFFD

/-- A byte is the number of its character. -/
theorem toNat_char_ofNat (b : UInt8) : (Char.ofNat b.toNat).toNat = b.toNat := by
  have hvalid : b.toNat.isValidChar := .inl (Nat.lt_trans b.toNat_lt (by decide))
  rw [Char.ofNat, dif_pos hvalid]
  rfl

/-- The first byte of an encoding of more than one byte: how many bytes there are, and the bounds of
the second one. -/
def lead (b : UInt8) : Option (Nat × UInt8 × UInt8) :=
  if 0xC2 ≤ b ∧ b ≤ 0xDF then some (2, 0x80, 0xBF)
  else if b = 0xE0 then some (3, 0xA0, 0xBF)
  else if (0xE1 ≤ b ∧ b ≤ 0xEC) ∨ (0xEE ≤ b ∧ b ≤ 0xEF) then some (3, 0x80, 0xBF)
  else if b = 0xED then some (3, 0x80, 0x9F)
  else if b = 0xF0 then some (4, 0x90, 0xBF)
  else if 0xF1 ≤ b ∧ b ≤ 0xF3 then some (4, 0x80, 0xBF)
  else if b = 0xF4 then some (4, 0x80, 0x8F)
  else none

/-- A byte that continues an encoding. -/
def isTail (b : UInt8) : Bool := 0x80 ≤ b ∧ b ≤ 0xBF

/-- The bits that a continuing byte adds to the number of a character. -/
def extend (n : Nat) (b : UInt8) : Nat := n * 64 + b.toNat % 64

/-- Reads the first character of a byte string. -/
def decodeRune (b : UInt8) (rest : List UInt8) : Char × List UInt8 :=
  if b < 0x80 then (Char.ofNat b.toNat, rest)
  else
    match lead b, rest with
    | some (2, low, high), c :: more =>
        if low ≤ c ∧ c ≤ high then (Char.ofNat (extend (b.toNat % 32) c), more)
        else (replacement, rest)
    | some (3, low, high), c :: d :: more =>
        if low ≤ c ∧ c ≤ high ∧ isTail d then
          (Char.ofNat (extend (extend (b.toNat % 16) c) d), more)
        else (replacement, rest)
    | some (4, low, high), c :: d :: e :: more =>
        if low ≤ c ∧ c ≤ high ∧ isTail d ∧ isTail e then
          (Char.ofNat (extend (extend (extend (b.toNat % 8) c) d) e), more)
        else (replacement, rest)
    | _, _ => (replacement, rest)

/-- Reads at most the given number of characters. -/
def runesFrom : Nat → List UInt8 → List Char
  | 0, _ => []
  | _ + 1, [] => []
  | fuel + 1, b :: rest => (decodeRune b rest).1 :: runesFrom fuel (decodeRune b rest).2

/-- The characters of a byte string. -/
def runes (bytes : List UInt8) : List Char := runesFrom bytes.length bytes

/-- A character takes at least one byte. -/
theorem decode_rune_length (b : UInt8) (rest : List UInt8) :
    (decodeRune b rest).2.length ≤ rest.length := by
  unfold decodeRune
  split
  · exact Nat.le_refl _
  · split <;> (try split) <;> simp only [List.length_cons] <;> omega

theorem runes_from_of_le {fuel : Nat} {bytes : List UInt8} (h : bytes.length ≤ fuel) :
    runesFrom fuel bytes = runes bytes := by
  have hmore : ∀ {fuel more : Nat} {bytes : List UInt8}, bytes.length ≤ fuel →
      runesFrom (fuel + more) bytes = runesFrom fuel bytes := by
    intro fuel more bytes h
    induction fuel generalizing bytes with
    | zero =>
        rw [List.length_eq_zero_iff.1 (Nat.le_zero.1 h)]
        cases more <;> rfl
    | succ fuel ih =>
        cases bytes with
        | nil =>
            rw [Nat.add_right_comm]
            rfl
        | cons b rest =>
            have hrest := decode_rune_length b rest
            rw [List.length_cons] at h
            rw [Nat.add_right_comm, runesFrom, runesFrom, ih (by omega)]
  obtain ⟨more, rfl⟩ := Nat.exists_eq_add_of_le h
  exact hmore (Nat.le_refl _)

@[simp] theorem runes_nil : runes [] = [] := rfl

theorem runes_cons (b : UInt8) (rest : List UInt8) :
    runes (b :: rest) = (decodeRune b rest).1 :: runes (decodeRune b rest).2 := by
  rw [← runes_from_of_le (decode_rune_length b rest)]
  rfl

/-- An ASCII byte is its own character. -/
theorem decode_rune_ascii {b : UInt8} (h : b < 0x80) (rest : List UInt8) :
    decodeRune b rest = (Char.ofNat b.toNat, rest) := if_pos h

theorem runes_ascii {bytes : List UInt8} (h : ∀ b ∈ bytes, b < 0x80) :
    runes bytes = bytes.map fun b => Char.ofNat b.toNat := by
  induction bytes with
  | nil => rfl
  | cons b rest ih =>
      rw [List.forall_mem_cons] at h
      rw [runes_cons, decode_rune_ascii h.1, ih h.2, List.map_cons]

end Utf8
