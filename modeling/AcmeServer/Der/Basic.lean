import Mathlib.Data.Nat.Digits.Lemmas
import Mathlib.Data.UInt
import Mathlib.Tactic.Ring

/-!
# The distinguished encoding rules

Numbers as big-endian bytes, and the parts of DER built from them: the length of a value, in one
byte below 128 and in a counted big-endian number otherwise, a value with its tag and length, and
the contents of a non-negative integer. All of them are minimal, so that each value has exactly one
encoding.
-/

namespace Der

/-! ## Big-endian numbers -/

/-- The number that big-endian bytes stand for. -/
def bytesNat (bytes : List UInt8) : Nat := bytes.foldl (fun n b => n * 256 + b.toNat) 0

/-- The big-endian bytes of a number, without leading zeros. -/
def natBytes (n : Nat) : List UInt8 := ((Nat.digits 256 n).map UInt8.ofNat).reverse

@[simp] theorem bytes_nat_append (bytes : List UInt8) (b : UInt8) :
    bytesNat (bytes ++ [b]) = bytesNat bytes * 256 + b.toNat := by
  simp [bytesNat]

/-- A leading zero does not count. -/
@[simp] theorem bytes_nat_zero_cons (bytes : List UInt8) :
    bytesNat (0 :: bytes) = bytesNat bytes := by
  simp [bytesNat]

/-- The first byte counts most. -/
theorem bytes_nat_cons (b : UInt8) (bytes : List UInt8) :
    bytesNat (b :: bytes) = b.toNat * 256 ^ bytes.length + bytesNat bytes := by
  induction bytes using List.reverseRecOn with
  | nil => simp [bytesNat]
  | append_singleton bytes c ih =>
      rw [← List.cons_append, bytes_nat_append, bytes_nat_append, ih, List.length_append,
        List.length_singleton, pow_succ]
      ring

/-- Bytes are digits of the number they stand for, the last one first. -/
theorem bytes_nat_eq_of_digits (bytes : List UInt8) :
    bytesNat bytes = Nat.ofDigits 256 (bytes.reverse.map UInt8.toNat) := by
  induction bytes using List.reverseRecOn with
  | nil => rfl
  | append_singleton bytes b ih =>
      rw [bytes_nat_append, ih, List.reverse_append, List.reverse_singleton,
        List.singleton_append, List.map_cons, Nat.ofDigits_cons]
      omega

theorem bytes_nat_lt (bytes : List UInt8) : bytesNat bytes < 256 ^ bytes.length := by
  have h := Nat.ofDigits_lt_base_pow_length (b := 256) (l := bytes.reverse.map UInt8.toNat)
    (by decide) (by simpa using fun b _ => b.toNat_lt)
  rwa [← bytes_nat_eq_of_digits, List.length_map, List.length_reverse] at h

/-- The bytes of a number stand for it. -/
theorem bytes_nat_nat_bytes (n : Nat) : bytesNat (natBytes n) = n := by
  have hdigits : ∀ d ∈ Nat.digits 256 n, (UInt8.toNat ∘ UInt8.ofNat) d = id d := fun d hd =>
    UInt8.toNat_ofNat_of_lt' (Nat.digits_lt_base (by decide) hd)
  rw [bytes_nat_eq_of_digits, natBytes, List.reverse_reverse, List.map_map,
    List.map_congr_left hdigits, List.map_id, Nat.ofDigits_digits]

/-- Bytes without a leading zero are the bytes of their number. -/
theorem nat_bytes_bytes_nat {bytes : List UInt8} (h : bytes.head? ≠ some 0) :
    natBytes (bytesNat bytes) = bytes := by
  rw [natBytes, bytes_nat_eq_of_digits, Nat.digits_ofDigits 256 (by decide)]
  · rw [List.map_map, ← List.map_reverse, List.reverse_reverse]
    simp [Function.comp_def]
  · simpa using fun b _ => b.toNat_lt
  · intro hne hlast
    rw [List.getLast_map, List.getLast_reverse] at hlast
    have hne' : bytes ≠ [] := by simpa using hne
    refine h ?_
    rw [List.head?_eq_some_head hne']
    exact congrArg some (UInt8.toNat.inj hlast)

theorem nat_bytes_length_le_iff {n k : Nat} : (natBytes n).length ≤ k ↔ n < 256 ^ k := by
  rw [natBytes, List.length_reverse, List.length_map]
  exact Nat.digits_length_le_iff (by decide) n

/-- The bytes of a number have no leading zero. -/
theorem nat_bytes_head (n : Nat) : (natBytes n).head? ≠ some 0 := by
  intro hhead
  obtain ⟨rest, hrest⟩ := List.head?_eq_some_iff.1 hhead
  -- The remaining bytes would be enough for the number.
  have hn : n < 256 ^ rest.length := by
    have h := bytes_nat_lt rest
    rwa [← bytes_nat_zero_cons, ← hrest, bytes_nat_nat_bytes] at h
  have hlength := nat_bytes_length_le_iff.2 hn
  rw [hrest, List.length_cons] at hlength
  omega

/-! ## Lengths and values -/

/-- The length octets of a value. -/
def length (n : Nat) : List UInt8 :=
  if n < 128 then [UInt8.ofNat n]
  else UInt8.ofNat (128 + (natBytes n).length) :: natBytes n

theorem length_pos (n : Nat) : 0 < (length n).length := by
  unfold length
  split <;> simp

/-- The definite forms of a length: one octet with its high bit clear, or the number of the octets
that follow with its high bit set. -/
inductive Definite (n : Nat) : List UInt8 → Prop where
  | short (h : n < 128) : Definite n [UInt8.ofNat n]
  | long (octets : List UInt8) (hvalue : bytesNat octets = n) (hpos : 0 < octets.length)
      (hcount : octets.length < 127) :
      Definite n (UInt8.ofNat (128 + octets.length) :: octets)

/-- The length octets are a definite form. -/
theorem definite_length {n : Nat} (h : n < 256 ^ 126) : Definite n (length n) := by
  unfold length
  split
  · next hshort => exact .short hshort
  · next hlong =>
      refine .long _ (bytes_nat_nat_bytes n) ?_ ?_
      · by_contra hzero
        have hlt := nat_bytes_length_le_iff.1 (not_lt.1 hzero)
        omega
      · exact Nat.lt_succ_of_le (nat_bytes_length_le_iff.2 h)

/-- No definite form is shorter, and no other one is as short. -/
theorem Definite.shortest {n : Nat} {form : List UInt8} (h : Definite n form) :
    (length n).length ≤ form.length ∧ (form.length ≤ (length n).length → form = length n) := by
  unfold length
  cases h with
  | short h =>
      rw [if_pos h]
      exact ⟨le_refl _, fun _ => rfl⟩
  | long octets hvalue hpos hcount =>
      split
      · simp only [List.length_cons, List.length_nil]
        exact ⟨by omega, fun hle => by omega⟩
      · have hlt : n < 256 ^ octets.length := hvalue ▸ bytes_nat_lt octets
        have hle := nat_bytes_length_le_iff.2 hlt
        simp only [List.length_cons]
        refine ⟨by omega, fun hge => ?_⟩
        -- A leading zero octet would leave a shorter form of the same number.
        have hhead : octets.head? ≠ some 0 := by
          intro hzero
          obtain ⟨rest, rfl⟩ := List.head?_eq_some_iff.1 hzero
          rw [bytes_nat_zero_cons] at hvalue
          have hshorter := nat_bytes_length_le_iff.2 (hvalue ▸ bytes_nat_lt rest)
          rw [List.length_cons] at hge
          omega
        have hbytes : natBytes n = octets := hvalue ▸ nat_bytes_bytes_nat hhead
        rw [hbytes]

/-- A value with its tag and length. -/
def encode (tag : UInt8) (content : List UInt8) : List UInt8 :=
  tag :: (length content.length ++ content)

theorem encode_ne_nil (tag : UInt8) (content rest : List UInt8) :
    encode tag content ++ rest ≠ [] := by
  simp [encode]

theorem encode_length_le (tag : UInt8) (content : List UInt8) :
    content.length ≤ (encode tag content).length := by
  simp [encode]
  omega

/-! ## Integers -/

/-- The contents of a non-negative integer: its bytes with a zero in front where the first byte
would make it negative, and a zero byte for zero. -/
def integer (n : Nat) : List UInt8 :=
  match natBytes n with
  | [] => [0]
  | b :: rest => if b.toNat < 128 then b :: rest else 0 :: b :: rest

/-- Contents of a non-negative integer without a superfluous first byte. -/
def Canonical : List UInt8 → Prop
  | [] => False
  | [b] => b.toNat < 128
  | b :: c :: _ => b.toNat < 128 ∧ (b = 0 → 128 ≤ c.toNat)

/-- The first byte of canonical contents has no high bit. -/
theorem Canonical.head_lt {b : UInt8} {rest : List UInt8} (h : Canonical (b :: rest)) :
    b.toNat < 128 := by
  cases rest with
  | nil => exact h
  | cons c rest => exact h.1

/-- Canonical contents are those of their number. -/
theorem integer_bytes_nat {raw : List UInt8} (h : Canonical raw) :
    integer (bytesNat raw) = raw := by
  match raw with
  | [b] =>
      by_cases hb : b = 0
      · subst hb
        rfl
      · rw [integer, nat_bytes_bytes_nat (by simpa using hb)]
        exact if_pos h
  | b :: c :: rest =>
      obtain ⟨hb128, hzero⟩ := h
      by_cases hb : b = 0
      · subst hb
        have hc : c ≠ 0 := by
          rintro rfl
          exact absurd (hzero rfl) (by decide)
        rw [bytes_nat_zero_cons, integer, nat_bytes_bytes_nat (by simpa using hc)]
        exact if_neg (not_lt.2 (hzero rfl))
      · rw [integer, nat_bytes_bytes_nat (by simpa using hb)]
        exact if_pos hb128

/-- The contents of an integer are canonical and stand for it. -/
theorem integer_spec (n : Nat) : Canonical (integer n) ∧ bytesNat (integer n) = n := by
  have hn := bytes_nat_nat_bytes n
  have hhead := nat_bytes_head n
  unfold integer
  cases hbytes : natBytes n with
  | nil =>
      rw [hbytes] at hn
      exact ⟨by simp [Canonical], hn⟩
  | cons b rest =>
      rw [hbytes] at hn hhead
      by_cases hb : b.toNat < 128
      · simp only [hb, if_true]
        refine ⟨?_, hn⟩
        cases rest with
        | nil => exact hb
        | cons c rest => exact ⟨hb, fun h => absurd (by rw [h]; rfl) hhead⟩
      · simp only [hb, if_false, bytes_nat_zero_cons]
        exact ⟨⟨by decide, fun _ => not_lt.1 hb⟩, hn⟩

/-- The range of the numbers whose contents have two bytes or more. -/
theorem Canonical.bounds {b c : UInt8} {rest : List UInt8} (h : Canonical (b :: c :: rest)) :
    128 * 256 ^ rest.length ≤ bytesNat (b :: c :: rest) ∧
      bytesNat (b :: c :: rest) < 128 * 256 ^ (rest.length + 1) := by
  obtain ⟨hb, hzero⟩ := h
  have hrest := bytes_nat_lt rest
  have hc := c.toNat_lt
  rw [bytes_nat_cons, bytes_nat_cons, List.length_cons, pow_succ']
  generalize 256 ^ rest.length = p at hrest
  have hb' : b.toNat * (256 * p) ≤ 127 * (256 * p) := Nat.mul_le_mul_right _ (by omega)
  have hc' : c.toNat * p ≤ 255 * p := Nat.mul_le_mul_right _ (by omega)
  refine ⟨?_, by omega⟩
  by_cases hfirst : b = 0
  · have hsecond : 128 * p ≤ c.toNat * p := Nat.mul_le_mul_right _ (hzero hfirst)
    omega
  · have hpos : 1 ≤ b.toNat := Nat.one_le_iff_ne_zero.2 fun h => hfirst (UInt8.toNat.inj h)
    have hfirst' : 1 * (256 * p) ≤ b.toNat * (256 * p) := Nat.mul_le_mul_right _ hpos
    omega

/-- How many bytes the contents of an integer take. -/
theorem integer_length_le_iff {n k : Nat} :
    (integer n).length ≤ k + 1 ↔ n < 128 * 256 ^ k := by
  obtain ⟨hcanonical, hn⟩ := integer_spec n
  generalize integer n = raw at hcanonical hn
  subst hn
  match raw with
  | [b] =>
      have hb : b.toNat < 128 := hcanonical
      have hk : 1 ≤ 256 ^ k := Nat.one_le_pow _ _ (by decide)
      have hvalue : bytesNat [b] = b.toNat := by simp [bytesNat]
      rw [hvalue, List.length_singleton]
      exact iff_of_true (by omega) (by omega)
  | b :: c :: rest =>
      obtain ⟨hlow, hhigh⟩ := hcanonical.bounds
      simp only [List.length_cons]
      constructor
      · intro hlength
        have hpow : 256 ^ (rest.length + 1) ≤ 256 ^ k := Nat.pow_le_pow_right (by decide) (by omega)
        omega
      · intro hlt
        by_contra hlong
        have hpow : 256 ^ k ≤ 256 ^ rest.length := Nat.pow_le_pow_right (by decide) (by omega)
        omega

end Der
