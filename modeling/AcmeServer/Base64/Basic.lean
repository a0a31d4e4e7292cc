import Mathlib.Data.List.Nodup
import Mathlib.Data.UInt

/-!
# Unpadded base64

`Alphabet.encode` writes bytes as digits of six bits each, three bytes in four digits, and
`Alphabet.decode` reads them back strictly: the bits that a last group of two or three digits has
to spare must be zero. Under this rule each is the inverse of the other (`decode_encode`,
`encode_decode`), so that every byte string has exactly one encoding.
-/

namespace Base64

/-- The characters of the digits 0 to 63. -/
structure Alphabet where
  chars : List Char
  length_eq : chars.length = 64
  nodup : chars.Nodup

/-- The alphabet that is safe in URLs and file names. -/
def urlSafe : Alphabet where
  chars := "ABCDEFGHIJKLMNOPQRSTUVWXYZabcdefghijklmnopqrstuvwxyz0123456789-_".toList
  length_eq := by decide
  nodup := by decide

namespace Alphabet

variable (a : Alphabet)

/-- The character of a digit. -/
def digit (n : Nat) : Char := a.chars[n]?.getD '='

/-- The digit a character stands for. -/
def value (c : Char) : Option Nat :=
  if c ∈ a.chars then some (a.chars.idxOf c) else none

/-- The digits of a byte string. -/
def encode : List UInt8 → List Char
  | [] => []
  | [x] => [a.digit (x.toNat / 4), a.digit (x.toNat % 4 * 16)]
  | [x, y] =>
      [a.digit (x.toNat / 4), a.digit (x.toNat % 4 * 16 + y.toNat / 16),
        a.digit (y.toNat % 16 * 4)]
  | x :: y :: z :: rest =>
      a.digit (x.toNat / 4) :: a.digit (x.toNat % 4 * 16 + y.toNat / 16) ::
        a.digit (y.toNat % 16 * 4 + z.toNat / 64) :: a.digit (z.toNat % 64) :: encode rest

/-- The bytes that digits stand for. A last group has two or three digits whose spare bits are
zero. -/
def decode : List Char → Option (List UInt8)
  | [] => some []
  | [_] => none
  | [p, q] => do
      let i ← a.value p
      let j ← a.value q
      if j % 16 ≠ 0 then none else some [UInt8.ofNat (i * 4 + j / 16)]
  | [p, q, r] => do
      let i ← a.value p
      let j ← a.value q
      let k ← a.value r
      if k % 4 ≠ 0 then none
      else some [UInt8.ofNat (i * 4 + j / 16), UInt8.ofNat (j % 16 * 16 + k / 4)]
  | p :: q :: r :: s :: rest => do
      let i ← a.value p
      let j ← a.value q
      let k ← a.value r
      let l ← a.value s
      let tail ← decode rest
      some (UInt8.ofNat (i * 4 + j / 16) :: UInt8.ofNat (j % 16 * 16 + k / 4) ::
        UInt8.ofNat (k % 4 * 64 + l) :: tail)

/-- Every digit is read back. -/
theorem value_digit {n : Nat} (h : n < 64) : a.value (a.digit n) = some n := by
  have hn : n < a.chars.length := by
    rw [a.length_eq]
    exact h
  have hdigit : a.digit n = a.chars[n] := by simp [digit, hn]
  rw [value, hdigit, if_pos (List.getElem_mem hn), a.nodup.idxOf_getElem n hn]

/-- A character that is read is the one of its digit. -/
theorem value_eq_some {c : Char} {n : Nat} (h : a.value c = some n) : n < 64 ∧ a.digit n = c := by
  unfold value at h
  split at h
  · next hmem =>
      cases h
      have hn : a.chars.idxOf c < a.chars.length := List.idxOf_lt_length_iff.2 hmem
      refine ⟨a.length_eq ▸ hn, ?_⟩
      simp [digit, hn]
  · cases h

/-- Encoded bytes are read back. -/
theorem decode_encode (bytes : List UInt8) : a.decode (a.encode bytes) = some bytes := by
  induction bytes using encode.induct with
  | case1 => rfl
  | case2 x =>
      have hx := x.toNat_lt
      have hspare : x.toNat % 4 * 16 % 16 = 0 := by omega
      have hx' : x.toNat / 4 * 4 + x.toNat % 4 * 16 / 16 = x.toNat := by omega
      rw [encode, decode, value_digit a (by omega), value_digit a (by omega)]
      simp only [Option.bind_eq_bind, Option.bind_some, hspare, hx', UInt8.ofNat_toNat]
      rfl
  | case3 x y =>
      have hx := x.toNat_lt
      have hy := y.toNat_lt
      have hspare : y.toNat % 16 * 4 % 4 = 0 := by omega
      have hx' : x.toNat / 4 * 4 + (x.toNat % 4 * 16 + y.toNat / 16) / 16 = x.toNat := by omega
      have hy' : (x.toNat % 4 * 16 + y.toNat / 16) % 16 * 16 + y.toNat % 16 * 4 / 4 = y.toNat := by
        omega
      rw [encode, decode, value_digit a (by omega), value_digit a (by omega),
        value_digit a (by omega)]
      simp only [Option.bind_eq_bind, Option.bind_some, hspare, hx', hy', UInt8.ofNat_toNat]
      rfl
  | case4 x y z rest ih =>
      have hx := x.toNat_lt
      have hy := y.toNat_lt
      have hz := z.toNat_lt
      have hx' : x.toNat / 4 * 4 + (x.toNat % 4 * 16 + y.toNat / 16) / 16 = x.toNat := by omega
      have hy' : (x.toNat % 4 * 16 + y.toNat / 16) % 16 * 16 +
          (y.toNat % 16 * 4 + z.toNat / 64) / 4 = y.toNat := by omega
      have hz' : (y.toNat % 16 * 4 + z.toNat / 64) % 4 * 64 + z.toNat % 64 = z.toNat := by omega
      rw [encode, decode, value_digit a (by omega), value_digit a (by omega),
        value_digit a (by omega), value_digit a (by omega), ih]
      simp only [Option.bind_eq_bind, Option.bind_some, hx', hy', hz', UInt8.ofNat_toNat]

/-- A byte made of a number that fits has that number. -/
theorem toNat_ofNat {n : Nat} (h : n < 256) : (UInt8.ofNat n).toNat = n :=
  UInt8.toNat_ofNat_of_lt' h

/-- Digits that are read are those of the bytes they stand for. -/
theorem encode_decode {text : List Char} {bytes : List UInt8} (h : a.decode text = some bytes) :
    a.encode bytes = text := by
  induction text using decode.induct generalizing bytes with
  | case1 =>
      cases h
      rfl
  | case2 p => cases h
  | case3 p q =>
      simp only [decode, Option.bind_eq_bind, Option.bind_eq_some_iff] at h
      obtain ⟨i, hi, j, hj, h⟩ := h
      obtain ⟨hi64, rfl⟩ := a.value_eq_some hi
      obtain ⟨hj64, rfl⟩ := a.value_eq_some hj
      split at h
      · cases h
      · next hspare =>
          cases h
          have hi' : (i * 4 + j / 16) / 4 = i := by omega
          have hj' : (i * 4 + j / 16) % 4 * 16 = j := by omega
          rw [encode, toNat_ofNat (by omega), hi', hj']
  | case4 p q r =>
      simp only [decode, Option.bind_eq_bind, Option.bind_eq_some_iff] at h
      obtain ⟨i, hi, j, hj, k, hk, h⟩ := h
      obtain ⟨hi64, rfl⟩ := a.value_eq_some hi
      obtain ⟨hj64, rfl⟩ := a.value_eq_some hj
      obtain ⟨hk64, rfl⟩ := a.value_eq_some hk
      split at h
      · cases h
      · next hspare =>
          cases h
          have hi' : (i * 4 + j / 16) / 4 = i := by omega
          have hj' : (i * 4 + j / 16) % 4 * 16 + (j % 16 * 16 + k / 4) / 16 = j := by omega
          have hk' : (j % 16 * 16 + k / 4) % 16 * 4 = k := by omega
          rw [encode, toNat_ofNat (by omega), toNat_ofNat (by omega), hi', hj', hk']
  | case5 p q r s rest ih =>
      simp only [decode, Option.bind_eq_bind, Option.bind_eq_some_iff] at h
      obtain ⟨i, hi, j, hj, k, hk, l, hl, tail, htail, h⟩ := h
      obtain ⟨hi64, rfl⟩ := a.value_eq_some hi
      obtain ⟨hj64, rfl⟩ := a.value_eq_some hj
      obtain ⟨hk64, rfl⟩ := a.value_eq_some hk
      obtain ⟨hl64, rfl⟩ := a.value_eq_some hl
      cases h
      have hi' : (i * 4 + j / 16) / 4 = i := by omega
      have hj' : (i * 4 + j / 16) % 4 * 16 + (j % 16 * 16 + k / 4) / 16 = j := by omega
      have hk' : (j % 16 * 16 + k / 4) % 16 * 4 + (k % 4 * 64 + l) / 64 = k := by omega
      have hl' : (k % 4 * 64 + l) % 64 = l := by omega
      rw [encode, toNat_ofNat (by omega), toNat_ofNat (by omega), toNat_ofNat (by omega), hi', hj',
        hk', hl', ih htail]

/-- Three bytes take four digits, and a rest takes one more than it has bytes. -/
theorem encode_length (bytes : List UInt8) :
    (a.encode bytes).length = (4 * bytes.length + 2) / 3 := by
  induction bytes using encode.induct with
  | case1 => rfl
  | case2 x => simp [encode]
  | case3 x y => simp [encode]
  | case4 x y z rest ih =>
      simp only [encode, List.length_cons, ih]
      omega

/-- The digits of bytes are characters of the alphabet. -/
theorem mem_encode {bytes : List UInt8} {c : Char} (h : c ∈ a.encode bytes) : c ∈ a.chars := by
  have hdigit {n : Nat} (hn : n < 64) : a.digit n ∈ a.chars := by
    have hvalue := a.value_digit hn
    unfold value at hvalue
    split at hvalue
    · assumption
    · cases hvalue
  induction bytes using encode.induct with
  | case1 => cases h
  | case2 x =>
      have hx := x.toNat_lt
      simp only [encode, List.mem_cons, List.not_mem_nil, or_false] at h
      rcases h with rfl | rfl <;> exact hdigit (by omega)
  | case3 x y =>
      have hx := x.toNat_lt
      have hy := y.toNat_lt
      simp only [encode, List.mem_cons, List.not_mem_nil, or_false] at h
      rcases h with rfl | rfl | rfl <;> exact hdigit (by omega)
  | case4 x y z rest ih =>
      have hx := x.toNat_lt
      have hy := y.toNat_lt
      have hz := z.toNat_lt
      simp only [encode, List.mem_cons] at h
      rcases h with rfl | rfl | rfl | rfl | h
      · exact hdigit (by omega)
      · exact hdigit (by omega)
      · exact hdigit (by omega)
      · exact hdigit (by omega)
      · exact ih h

end Alphabet

end Base64
