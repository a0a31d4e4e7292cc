import AcmeServer.Utf8.Basic
import Mathlib.Data.UInt

/-!
# Letter case in byte strings

Two ways of comparing byte strings without regard to case. `SameCaseless` looks at the bytes, and
only at the letters of ASCII. `CaseRules.equalFold` reads the bytes as UTF-8 and looks at the
characters, by rules of which only those for ASCII are fixed here. The second follows from the first
(`equal_fold_of_same`), and the converse depends on the rules.
-/

namespace Utf8

/-! ## Letters of ASCII -/

/-- An ASCII letter in lower case, and any other byte itself. -/
def asciiLower (b : UInt8) : UInt8 := if 0x41 ≤ b ∧ b ≤ 0x5A then b + 0x20 else b

/-- The byte strings agree up to the case of ASCII letters. -/
def SameCaseless (s t : List UInt8) : Prop := s.map asciiLower = t.map asciiLower

instance (s t : List UInt8) : Decidable (SameCaseless s t) := decEq _ _

namespace SameCaseless

variable {s t v : List UInt8}

theorem refl (s : List UInt8) : SameCaseless s s := rfl

theorem symm (h : SameCaseless s t) : SameCaseless t s := Eq.symm h

theorem trans (h : SameCaseless s t) (h' : SameCaseless t v) : SameCaseless s v := Eq.trans h h'

theorem length_eq (h : SameCaseless s t) : s.length = t.length := by
  simpa using congrArg List.length h

end SameCaseless

theorem ascii_lower_of_high {b : UInt8} (h : 0x80 ≤ b) : asciiLower b = b :=
  if_neg fun hupper => absurd (UInt8.le_trans h hupper.2) (by decide)

theorem ascii_lower_lt {b : UInt8} : asciiLower b < 0x80 ↔ b < 0x80 := by
  unfold asciiLower
  split_ifs with hupper
  · simp only [UInt8.lt_iff_toNat_lt, UInt8.le_iff_toNat_le, UInt8.toNat_add,
      UInt8.reduceToNat] at hupper ⊢
    omega
  · rfl

theorem ascii_lower_lower (b : UInt8) : asciiLower (asciiLower b) = asciiLower b := by
  unfold asciiLower
  grind

theorem same_lowered (s : List UInt8) : SameCaseless (s.map asciiLower) s := by
  rw [SameCaseless, List.map_map]
  exact List.map_congr_left fun b _ => ascii_lower_lower b

/-- Bytes that are not ASCII are only the same as themselves. -/
theorem eq_of_high {b c : UInt8} (h : asciiLower b = asciiLower c) (hb : 0x80 ≤ b) : c = b := by
  have hc : 0x80 ≤ c := by
    rw [← UInt8.not_lt, ← ascii_lower_lt, ← h, ascii_lower_lt, UInt8.not_lt]
    exact hb
  rw [ascii_lower_of_high hb, ascii_lower_of_high hc] at h
  exact h.symm

theorem lower_char_ascii {b : UInt8} (h : b < 0x80) :
    (Char.ofNat b.toNat).toLower = Char.ofNat (asciiLower b).toNat := by
  have hall : ∀ n < 128,
      (Char.ofNat n).toLower = Char.ofNat (asciiLower (UInt8.ofNat n)).toNat := by decide +kernel
  have hb := hall b.toNat (UInt8.lt_iff_toNat_lt.1 h)
  rwa [UInt8.ofNat_toNat] at hb

/-! ## Characters -/

theorem ascii_char {b : UInt8} (h : b < 0x80) : (Char.ofNat b.toNat).toNat < 128 := by
  rw [toNat_char_ofNat]
  exact UInt8.lt_iff_toNat_lt.1 h

theorem char_inj {b c : UInt8} (h : Char.ofNat b.toNat = Char.ofNat c.toNat) : b = c := by
  rw [← UInt8.toNat_inj, ← toNat_char_ofNat b, ← toNat_char_ofNat c, h]

theorem encode_ascii {b : UInt8} (h : b < 0x80) :
    String.utf8EncodeChar (Char.ofNat b.toNat) = [b] := by
  have hval : (Char.ofNat b.toNat).val.toNat = b.toNat := toNat_char_ofNat b
  have hle : b.toNat ≤ 127 := Nat.le_of_lt_succ (UInt8.lt_iff_toNat_lt.1 h)
  simp only [String.utf8EncodeChar, hval, if_pos hle, UInt8.ofNat_toNat]

/-- The bytes that continue an encoding are not ASCII. -/
theorem lead_low {b low high : UInt8} {n : Nat} (h : lead b = some (n, low, high)) :
    0x80 ≤ low := by
  unfold lead at h
  split_ifs at h <;> (cases h; decide)

/-- Bytes that are not ASCII stand in both of two byte strings that agree up to case. -/
theorem same_append_high {l s t : List UInt8} (hl : ∀ d ∈ l, 0x80 ≤ d)
    (h : SameCaseless (l ++ s) t) : ∃ t', t = l ++ t' ∧ SameCaseless s t' := by
  induction l generalizing t with
  | nil => exact ⟨t, rfl, h⟩
  | cons d l ih =>
      rw [List.forall_mem_cons] at hl
      cases t with
      | nil => cases h
      | cons c t =>
          obtain ⟨hdc, hrest⟩ := List.cons.inj h
          obtain rfl := eq_of_high hdc hl.1
          obtain ⟨t', rfl, hsame⟩ := ih hl.2 hrest
          exact ⟨t', rfl, hsame⟩

/-- A byte that is not ASCII is invalid, or it starts an encoding with other such bytes. -/
theorem decode_rune_cases {b : UInt8} (hb : 0x80 ≤ b) (s : List UInt8) :
    decodeRune b s = (replacement, s) ∨ ∃ l more c, s = l ++ more ∧ (∀ d ∈ l, 0x80 ≤ d) ∧
      ∀ rest, decodeRune b (l ++ rest) = (c, rest) := by
  have hnot : ¬b < 0x80 := UInt8.not_lt.2 hb
  cases hlead : lead b with
  | none => exact .inl (by simp [decodeRune, hnot, hlead])
  | some bounds =>
      obtain ⟨n, low, high⟩ := bounds
      have hlow := lead_low hlead
      have htail {d : UInt8} (hd : isTail d = true) : 0x80 ≤ d := by
        simp only [isTail, decide_eq_true_iff] at hd
        exact hd.1
      unfold decodeRune
      rw [if_neg hnot, hlead]
      split
      · next low high c more heq =>
          cases heq
          split
          · next hc =>
              refine .inr ⟨[c], more, Char.ofNat (extend (b.toNat % 32) c), rfl, ?_,
                fun rest => if_pos hc⟩
              simpa using UInt8.le_trans hlow hc.1
          · exact .inl rfl
      · next low high c d more heq =>
          cases heq
          split
          · next hc =>
              refine .inr ⟨[c, d], more, Char.ofNat (extend (extend (b.toNat % 16) c) d), rfl, ?_,
                fun rest => if_pos hc⟩
              simpa using ⟨UInt8.le_trans hlow hc.1, htail hc.2.2⟩
          · exact .inl rfl
      · next low high c d e more heq =>
          cases heq
          split
          · next hc =>
              refine .inr ⟨[c, d, e], more,
                Char.ofNat (extend (extend (extend (b.toNat % 8) c) d) e), rfl, ?_,
                fun rest => if_pos hc⟩
              simpa using ⟨UInt8.le_trans hlow hc.1, htail hc.2.2.1, htail hc.2.2.2⟩
          · exact .inl rfl
      · exact .inl rfl

/-- A character that is not ASCII does not depend on the case of the letters around it. -/
theorem decode_rune_high {b : UInt8} {s t : List UInt8} (hb : 0x80 ≤ b) (h : SameCaseless s t) :
    (decodeRune b s).1 = (decodeRune b t).1 ∧
      SameCaseless (decodeRune b s).2 (decodeRune b t).2 := by
  rcases decode_rune_cases hb s with hs | ⟨l, more, c, rfl, hl, hdecode⟩
  · rcases decode_rune_cases hb t with ht | ⟨l, more, c, rfl, hl, hdecode⟩
    · rw [hs, ht]
      exact ⟨rfl, h⟩
    · obtain ⟨more', rfl, hsame⟩ := same_append_high hl h.symm
      rw [hdecode, hdecode]
      exact ⟨rfl, hsame.symm⟩
  · obtain ⟨more', rfl, hsame⟩ := same_append_high hl h
    rw [hdecode, hdecode]
    exact ⟨rfl, hsame⟩

/-- Rules for the case of characters. A character is equal to another up to case if both fold to
the same one. -/
structure CaseRules where
  lower : Char → Char
  fold : Char → Char
  lower_ascii : ∀ {c : Char}, c.toNat < 128 → lower c = c.toLower
  /-- No character has an upper-case letter of ASCII as its lower case. -/
  lower_not_upper : ∀ c : Char, ¬('A' ≤ lower c ∧ lower c ≤ 'Z')
  fold_ascii : ∀ {c d : Char}, c.toNat < 128 → d.toNat < 128 →
    (fold c = fold d ↔ c.toLower = d.toLower)

namespace CaseRules

variable (r : CaseRules) {s t : List UInt8}

/-- The characters of the byte strings are equal up to case. -/
def equalFold (s t : List UInt8) : Bool := (runes s).map r.fold = (runes t).map r.fold

/-- The byte string with all characters in lower case. -/
def toLower (s : List UInt8) : List UInt8 := 
  (runes s).flatMap fun c => String.utf8EncodeChar (r.lower c)

/-- The bytes of a character that is no upper-case letter of ASCII. -/
theorem ascii_lower_encoded {c : Char} (h : ¬('A' ≤ c ∧ c ≤ 'Z')) {b : UInt8}
    (hb : b ∈ String.utf8EncodeChar c) : asciiLower b = b := by
  have hc : ¬(65 ≤ c.val.toNat ∧ c.val.toNat ≤ 90) := h
  refine if_neg fun hupper => ?_
  rw [UInt8.le_iff_toNat_le, UInt8.le_iff_toNat_le] at hupper
  change 65 ≤ b.toNat ∧ b.toNat ≤ 90 at hupper
  unfold String.utf8EncodeChar at hb
  dsimp only at hb
  split at hb
  · rw [List.mem_singleton] at hb
    rw [hb, UInt8.toNat_ofNat'] at hupper
    omega
  · -- All bytes of a longer encoding are above those of ASCII.
    have hhigh : 128 ≤ b.toNat := by
      split at hb <;> (try split at hb) <;>
        simp only [List.mem_cons, List.not_mem_nil, or_false] at hb <;>
        rcases hb with rfl | rfl | rfl | rfl <;> rw [UInt8.toNat_ofNat'] <;> omega
    omega

/-- A byte string in lower case has no upper-case letters of ASCII. -/
theorem to_lower_lowered (s : List UInt8) : (r.toLower s).map asciiLower = r.toLower s := by
  refine (List.map_congr_left fun b hb => ?_).trans (List.map_id _)
  obtain ⟨c, -, hc⟩ := List.mem_flatMap.1 hb
  exact ascii_lower_encoded (r.lower_not_upper c) hc

/-- In lower case, the same is equal. -/
theorem eq_of_same_lower (h : SameCaseless (r.toLower s) (r.toLower t)) :
    r.toLower s = r.toLower t := by
  rwa [SameCaseless, to_lower_lowered, to_lower_lowered] at h

theorem to_lower_ne_nil (h : s ≠ []) : r.toLower s ≠ [] := by
  obtain ⟨b, rest, rfl⟩ := List.exists_cons_of_ne_nil h
  rw [toLower, runes_cons, List.flatMap_cons]
  exact List.append_ne_nil_of_left_ne_nil String.utf8EncodeChar_ne_nil _

/-- Only the letters change in ASCII. -/
theorem to_lower_ascii (h : ∀ b ∈ s, b < 0x80) : r.toLower s = s.map asciiLower := by
  rw [toLower, runes_ascii h]
  induction s with
  | nil => rfl
  | cons b rest ih =>
      rw [List.forall_mem_cons] at h
      rw [List.map_cons, List.flatMap_cons, ih h.2, List.map_cons,
        r.lower_ascii (ascii_char h.1), lower_char_ascii h.1, encode_ascii (ascii_lower_lt.2 h.1)]
      rfl

/-- The first characters of byte strings that agree up to the case of ASCII letters. -/
theorem decode_rune_same {b c : UInt8} (hbc : asciiLower b = asciiLower c)
    (h : SameCaseless s t) :
    r.fold (decodeRune b s).1 = r.fold (decodeRune c t).1 ∧
      SameCaseless (decodeRune b s).2 (decodeRune c t).2 := by
  by_cases hb : b < 0x80
  · have hc : c < 0x80 := ascii_lower_lt.1 (hbc ▸ ascii_lower_lt.2 hb)
    rw [decode_rune_ascii hb, decode_rune_ascii hc, r.fold_ascii (ascii_char hb) (ascii_char hc),
      lower_char_ascii hb, lower_char_ascii hc, hbc]
    exact ⟨rfl, h⟩
  · obtain rfl := eq_of_high hbc (UInt8.not_lt.1 hb)
    obtain ⟨hchar, hrest⟩ := decode_rune_high (UInt8.not_lt.1 hb) h
    rw [hchar]
    exact ⟨rfl, hrest⟩

theorem runes_length_le (s : List UInt8) : (runes s).length ≤ s.length := by
  induction hn : s.length using Nat.strong_induction_on generalizing s with
  | _ n ih =>
      cases s with
      | nil => exact Nat.zero_le _
      | cons b s =>
          have hlength := decode_rune_length b s
          rw [List.length_cons] at hn
          have hrest := ih (decodeRune b s).2.length (by omega) (decodeRune b s).2 rfl
          rw [runes_cons, List.length_cons]
          omega

/-- ASCII text has a character for every byte, so it is not equal to anything shorter. -/
theorem not_equal_fold_of_longer (ht : ∀ b ∈ t, b < 0x80) (h : s.length < t.length) :
    r.equalFold s t = false := by
  rw [equalFold, decide_eq_false_iff_not]
  intro heq
  have hlength := congrArg List.length heq
  rw [List.length_map, List.length_map, runes_ascii ht, List.length_map] at hlength
  have hle := runes_length_le s
  omega

theorem equal_fold_comm (s t : List UInt8) : r.equalFold s t = r.equalFold t s := by
  rw [equalFold, equalFold, decide_eq_decide]
  exact eq_comm

/-- What agrees up to the case of ASCII letters is equal up to case. -/
theorem equal_fold_of_same (h : SameCaseless s t) : r.equalFold s t := by
  rw [equalFold, decide_eq_true_iff]
  induction hn : s.length using Nat.strong_induction_on generalizing s t with
  | _ n ih =>
      cases s with
      | nil => rw [List.length_eq_zero_iff.1 h.length_eq.symm]
      | cons b s =>
          cases t with
          | nil => cases h
          | cons c t =>
              obtain ⟨hbc, hrest⟩ := List.cons.inj h
              obtain ⟨hfold, hnext⟩ := r.decode_rune_same hbc hrest
              have hlength := decode_rune_length b s
              rw [List.length_cons] at hn
              rw [runes_cons, runes_cons, List.map_cons, List.map_cons, hfold,
                ih _ (by omega) hnext rfl]

/-- In ASCII, what is equal up to case agrees up to the case of letters. -/
theorem same_of_equal_fold (hs : ∀ b ∈ s, b < 0x80) (ht : ∀ b ∈ t, b < 0x80)
    (h : r.equalFold s t) : SameCaseless s t := by
  rw [equalFold, decide_eq_true_iff, runes_ascii hs, runes_ascii ht] at h
  induction s generalizing t with
  | nil =>
      cases t with
      | nil => exact .refl _
      | cons c t => cases h
  | cons b s ih =>
      cases t with
      | nil => cases h
      | cons c t =>
          rw [List.forall_mem_cons] at hs ht
          obtain ⟨hfold, hrest⟩ := List.cons.inj h
          rw [r.fold_ascii (ascii_char hs.1) (ascii_char ht.1), lower_char_ascii hs.1,
            lower_char_ascii ht.1] at hfold
          have hbc := char_inj hfold
          rw [SameCaseless, List.map_cons, List.map_cons, hbc, ih hs.2 ht.2 hrest]

end CaseRules

end Utf8
