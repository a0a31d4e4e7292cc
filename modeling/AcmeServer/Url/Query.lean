import AcmeServer.Url.Basic
import AcmeServer.Utf8.Case

/-!
# Queries of URLs

`queryEscape` writes text for use in a query as Go's `url.QueryEscape` does, and `queryGet` looks up
a parameter as `url.URL.Query` with `url.Values.Get` does: parts that cannot be read are skipped,
and the first value of a key counts. `query_get_escape` says that a parameter that was written is
read back.
-/

namespace Url

/-- The characters other than letters and digits that stand for themselves in a query. -/
def queryPlain : List Char := "-_.~".toList

/-- One byte in a query. -/
def queryEscapeByte (b : UInt8) : List Char :=
  let c := Char.ofNat b.toNat
  if c.isAlphanum ∨ c ∈ queryPlain then [c]
  else if c = ' ' then ['+']
  else ['%', hexDigit (b.toNat / 16), hexDigit (b.toNat % 16)]

/-- The bytes of a text. -/
def bytesOf (text : String) : List UInt8 := text.toList.flatMap String.utf8EncodeChar

/-- A text in a query. -/
def queryEscape (text : String) : String :=
  String.ofList ((bytesOf text).flatMap queryEscapeByte)

/-- The bytes of a part of a query with its escapes replaced. -/
def queryUnescape : List Char → Option (List UInt8)
  | [] => some []
  | '%' :: a :: b :: rest => do
      let i ← unhex a
      let j ← unhex b
      let tail ← queryUnescape rest
      some (UInt8.ofNat (i * 16 + j) :: tail)
  | c :: rest =>
      if c = '%' then none
      else do
        let tail ← queryUnescape rest
        some ((if c = '+' then [0x20] else String.utf8EncodeChar c) ++ tail)

/-- The parameter in a part of a query, if it can be read. -/
def queryParameter (part : List Char) : Option (List UInt8 × List UInt8) :=
  if ';' ∈ part ∨ part = [] then none
  else do
    let key ← queryUnescape (cut '=' part).1
    let value ← queryUnescape (cut '=' part).2
    some (key, value)

/-- The parameters of a query. -/
def parseQuery (query : List Char) : List (List UInt8 × List UInt8) :=
  (query.splitOn '&').filterMap queryParameter

/-- The first value of a key in a query, or an empty text. -/
def queryGet (query key : String) : String :=
  String.ofList (Utf8.runes (((parseQuery query.toList).lookup (bytesOf key)).getD []))

/-! ## Reading back -/

/-- A character that stands for itself is an ASCII character. -/
theorem query_plain_ascii {c : Char} (h : c.isAlphanum ∨ c ∈ queryPlain) : c.toNat < 128 := by
  rcases h with halnum | hplain
  · exact toNat_lt_of_printable (printable_of_alphanum halnum)
  · have hall : (queryPlain.all fun c => c.toNat < 128) = true := by decide
    exact of_decide_eq_true (List.all_eq_true.1 hall c hplain)

theorem toNat_byte {c : Char} (h : c.toNat < 128) : (UInt8.ofNat c.toNat).toNat = c.toNat :=
  UInt8.toNat_ofNat_of_lt' (lt_trans h (by decide))

theorem byte_ascii {c : Char} (h : c.toNat < 128) : UInt8.ofNat c.toNat < 0x80 := by
  rw [UInt8.lt_iff_toNat_lt, toNat_byte h]
  exact h

/-- An ASCII character is one byte. -/
theorem encode_char_ascii {c : Char} (h : c.toNat < 128) :
    String.utf8EncodeChar c = [UInt8.ofNat c.toNat] := by
  have hencode := Utf8.encode_ascii (byte_ascii h)
  rwa [toNat_byte h, Char.ofNat_toNat] at hencode

/-- The bytes of an ASCII text are read as its characters. -/
theorem runes_bytes_of {text : String} (h : ∀ c ∈ text.toList, c.toNat < 128) :
    Utf8.runes (bytesOf text) = text.toList := by
  unfold bytesOf
  generalize text.toList = chars at h
  induction chars with
  | nil => rfl
  | cons c chars ih =>
      rw [List.forall_mem_cons] at h
      rw [List.flatMap_cons, encode_char_ascii h.1, List.singleton_append, Utf8.runes_cons,
        Utf8.decode_rune_ascii (byte_ascii h.1), ih h.2, toNat_byte h.1, Char.ofNat_toNat]

/-- A character without an escape stands for itself, and a plus sign for a space. -/
theorem query_unescape_cons {c : Char} (hc : c ≠ '%') (rest : List Char) :
    queryUnescape (c :: rest) = (queryUnescape rest).bind fun tail =>
      some ((if c = '+' then [0x20] else String.utf8EncodeChar c) ++ tail) := by
  rw [queryUnescape.eq_def]
  split
  · next h => cases h
  · next h =>
      cases h
      exact absurd rfl hc
  · next h =>
      cases h
      exact if_neg hc

/-- The text of one byte is read back. -/
theorem query_unescape_byte (b : UInt8) (rest : List Char) :
    queryUnescape (queryEscapeByte b ++ rest) =
      (queryUnescape rest).bind fun tail => some (b :: tail) := by
  have hb := b.toNat_lt
  unfold queryEscapeByte
  extract_lets c
  have hc : c.toNat = b.toNat := Utf8.toNat_char_ofNat b
  split
  · next hplain =>
      have hnot : ¬('%'.isAlphanum ∨ '%' ∈ queryPlain) ∧ ¬('+'.isAlphanum ∨ '+' ∈ queryPlain) := by
        decide
      have hpercent : c ≠ '%' := fun heq => hnot.1 (heq ▸ hplain)
      have hplus : c ≠ '+' := fun heq => hnot.2 (heq ▸ hplain)
      rw [List.singleton_append, query_unescape_cons hpercent, if_neg hplus,
        encode_char_ascii (query_plain_ascii hplain), hc, UInt8.ofNat_toNat]
      rfl
  · split
    · next hspace =>
        have hbyte : b = 0x20 := by
          rw [← UInt8.ofNat_toNat (x := b), ← hc, hspace]
          decide
        rw [List.singleton_append, query_unescape_cons (by decide), if_pos rfl, hbyte]
        rfl
    · have hbyte : b.toNat / 16 * 16 + b.toNat % 16 = b.toNat := by omega
      rw [List.cons_append, List.cons_append, List.singleton_append, queryUnescape,
        unhex_hex_digit (by omega), unhex_hex_digit (by omega)]
      simp only [Option.bind_eq_bind, Option.bind_some, hbyte, UInt8.ofNat_toNat]

theorem query_unescape_escape (text : String) :
    queryUnescape (queryEscape text).toList = some (bytesOf text) := by
  rw [queryEscape, String.toList_ofList]
  generalize bytesOf text = bytes
  induction bytes with
  | nil => rfl
  | cons b bytes ih =>
      rw [List.flatMap_cons, query_unescape_byte, ih]
      rfl

/-- Escaped text has letters, digits, the plain characters, percent and plus signs. -/
theorem mem_query_escape {text : String} {c : Char} (h : c ∈ (queryEscape text).toList) :
    c = '%' ∨ c = '+' ∨ c.isAlphanum ∨ c ∈ queryPlain := by
  rw [queryEscape, String.toList_ofList] at h
  obtain ⟨b, -, hc⟩ := List.mem_flatMap.1 h
  have hb := b.toNat_lt
  unfold queryEscapeByte at hc
  simp only at hc
  split at hc
  · next hplain =>
      rw [List.mem_singleton.1 hc]
      exact .inr (.inr hplain)
  · split at hc
    · exact .inr (.inl (List.mem_singleton.1 hc))
    · simp only [List.mem_cons, List.not_mem_nil, or_false] at hc
      rcases hc with rfl | rfl | rfl
      · exact .inl rfl
      · exact .inr (.inr (.inl (hex_digit_alphanum (by omega))))
      · exact .inr (.inr (.inl (hex_digit_alphanum (by omega))))

/-- Plain text is its own escaped form. -/
theorem query_escape_plain {text : String} (h : ∀ c ∈ text.toList, c.isAlphanum ∨ c ∈ queryPlain) :
    queryEscape text = text := by
  rw [String.ext_iff, queryEscape, String.toList_ofList, bytesOf]
  generalize text.toList = chars at h
  induction chars with
  | nil => rfl
  | cons c chars ih =>
      rw [List.forall_mem_cons] at h
      have hascii := query_plain_ascii h.1
      rw [List.flatMap_cons, encode_char_ascii hascii, List.singleton_append, List.flatMap_cons,
        ih h.2, queryEscapeByte, toNat_byte hascii, Char.ofNat_toNat]
      simp only [if_pos h.1, List.singleton_append]

/-- A parameter that was written into a query is read back. -/
theorem query_get_escape {key text : String}
    (hkey : ∀ c ∈ key.toList, c.isAlphanum ∨ c ∈ queryPlain)
    (htext : ∀ c ∈ text.toList, c.toNat < 128) :
    queryGet (key ++ "=" ++ queryEscape text) key = text := by
  have hescaped := query_unescape_escape key
  rw [query_escape_plain hkey] at hescaped
  -- Neither side of the equals sign has a separator in it.
  have hfree (sep : Char) (hsep : ¬(sep = '%' ∨ sep = '+' ∨ sep.isAlphanum ∨ sep ∈ queryPlain)) :
      sep ∉ key.toList ∧ sep ∉ (queryEscape text).toList :=
    ⟨fun h => hsep (.inr (.inr (hkey sep h))), fun h => hsep (mem_query_escape h)⟩
  have hquery : (key ++ "=" ++ queryEscape text).toList =
      key.toList ++ '=' :: (queryEscape text).toList := by
    simp [String.toList_append]
  have hwhole (sep : Char) (hne : sep ≠ '=')
      (hsep : ¬(sep = '%' ∨ sep = '+' ∨ sep.isAlphanum ∨ sep ∈ queryPlain)) :
      sep ∉ key.toList ++ '=' :: (queryEscape text).toList := by
    simp [hne, hfree sep hsep]
  have hparameter : queryParameter (key.toList ++ '=' :: (queryEscape text).toList) =
      some (bytesOf key, bytesOf text) := by
    rw [queryParameter, if_neg (by simp [hwhole ';' (by decide) (by decide)]),
      cut_append (hfree '=' (by decide)).1, hescaped, query_unescape_escape]
    rfl
  rw [queryGet, hquery, parseQuery, List.splitOn_eq_singleton (hwhole '&' (by decide) (by decide)),
    List.filterMap_cons, hparameter]
  simp [runes_bytes_of htext]

theorem query_get_empty (key : String) : queryGet "" key = "" := rfl

end Url
