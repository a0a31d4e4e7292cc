import AcmeServer.Utf8.Basic
import Mathlib.Data.List.TakeWhile
import Mathlib.Data.UInt

/-!
# Reading and writing URLs

`Hosts.parse` reads a URL as Go's `net/url.Parse` does and `URL.string` writes one with a host as
`URL.String` does. Raw text is a list of ASCII characters, decoded text a list of bytes. Which
hosts are acceptable has changed between releases, so that is left to `Hosts`, with what the
package promises about it: a host it accepts is read back from the text written for it.

`parse_string` says that a URL with its host in lower case is read back from what is written for
it. The written text may be longer than the one that was read, because characters of the path that
are not allowed there are written as escapes; `URL.size` counts it.
-/

namespace Url

/-! ## Escapes -/

/-- The part of a URL that a character stands in. -/
inductive Mode where
  | host
  | path
deriving DecidableEq

/-- The characters other than letters and digits that stand for themselves. -/
def Mode.plain : Mode → List Char
  | .host => "!$&'()*+,;=:[]<>\"-_.~".toList
  | .path => "-_.~$&+,/:;=@".toList

/-- Whether a character is written as an escape. -/
def shouldEscape (mode : Mode) (c : Char) : Bool := !c.isAlphanum && c ∉ mode.plain

/-- The upper-case hexadecimal digit of a number below 16. -/
def hexDigit (n : Nat) : Char := "0123456789ABCDEF".toList[n]?.getD '0'

/-- The value of a hexadecimal digit. -/
def unhex (c : Char) : Option Nat :=
  if '0' ≤ c ∧ c ≤ '9' then some (c.toNat - '0'.toNat)
  else if 'a' ≤ c ∧ c ≤ 'f' then some (c.toNat - 'a'.toNat + 10)
  else if 'A' ≤ c ∧ c ≤ 'F' then some (c.toNat - 'A'.toNat + 10)
  else none

/-- One byte in a part of a URL. -/
def escapeByte (mode : Mode) (b : UInt8) : List Char :=
  let c := Char.ofNat b.toNat
  if shouldEscape mode c then ['%', hexDigit (b.toNat / 16), hexDigit (b.toNat % 16)] else [c]

/-- Bytes in a part of a URL. -/
def escape (mode : Mode) (bytes : List UInt8) : List Char := bytes.flatMap (escapeByte mode)

/-- The bytes of a path with its escapes replaced. -/
def unescapePath : List Char → Option (List UInt8)
  | [] => some []
  | '%' :: a :: b :: rest => do
      let i ← unhex a
      let j ← unhex b
      let tail ← unescapePath rest
      some (UInt8.ofNat (i * 16 + j) :: tail)
  | c :: rest =>
      if c = '%' then none
      else do
        let tail ← unescapePath rest
        some (UInt8.ofNat c.toNat :: tail)

/-- Whether a path may be written as it was read. -/
def validEncoded (text : List Char) : Bool :=
  text.all fun c => c ∈ "!$&'()*+,;=:@[]%".toList || !shouldEscape .path c

/-! ## URLs -/

/-- A parsed URL. `rootless` is what follows the scheme of a URL without a path from the root, and
`user` says that there is user information. -/
structure URL where
  scheme : List Char := []
  rootless : List Char := []
  user : Bool := false
  host : List UInt8 := []
  path : List UInt8 := []
  rawPath : List Char := []
  forceQuery : Bool := false
  rawQuery : List Char := []
  fragment : List Char := []
deriving DecidableEq

/-- The two sides of the first separator. -/
def cut (sep : Char) (text : List Char) : List Char × List Char :=
  (text.takeWhile (· != sep), (text.dropWhile (· != sep)).tail)

/-- Whether a character may stand in a scheme. -/
def schemeChar (c : Char) : Bool := c.isAlphanum || c == '+' || c == '-' || c == '.'

/-- Splits off the scheme, which begins with a letter. A leading colon is an error. -/
def getScheme (text : List Char) : Option (List Char × List Char) :=
  match text.takeWhile schemeChar, text.dropWhile schemeChar with
  | [], ':' :: _ => none
  | first :: name, ':' :: rest =>
      if first.isAlpha then some (first :: name, rest) else some ([], text)
  | _, _ => some ([], text)

/-- Splits off the query. A single question mark at the end is an empty query. -/
def splitQuery (text : List Char) : List Char × Bool × List Char :=
  if text.getLast? = some '?' ∧ text.count '?' = 1 then (text.dropLast, true, [])
  else ((cut '?' text).1, false, (cut '?' text).2)

/-- Sets the path from its text, which is kept where it differs from the default encoding. -/
def URL.setPath (u : URL) (text : List Char) : Option URL := do
  let path ← unescapePath text
  some { u with path, rawPath := if text = escape .path path then [] else text }

/-- The package's rules for hosts: which texts are hosts, and how a host is put in lower case. -/
structure Hosts where
  parseHost : List Char → Option (List UInt8)
  lower : List UInt8 → List UInt8
  lower_lower : ∀ host, lower (lower host) = lower host
  lower_ne_nil : ∀ {host}, host ≠ [] → lower host ≠ []
  parse_escape_lower : ∀ {text host}, parseHost text = some host →
    parseHost (escape .host (lower host)) = some (lower host)

namespace Hosts

variable (h : Hosts)

/-- Reads the authority. Whether its user information is acceptable is not looked at. -/
def parseAuthority (text : List Char) : Option (Bool × List UInt8) :=
  if '@' ∈ text then do
    let host ← h.parseHost (text.reverse.takeWhile (· != '@')).reverse
    some (true, host)
  else do
    let host ← h.parseHost text
    some (false, host)

/-- Reads what follows the scheme and is not the query, into a URL that has these. -/
def parseHierarchy (u : URL) : List Char → Option URL
  | '/' :: '/' :: rest =>
      if u.scheme = [] ∧ rest.head? = some '/' then u.setPath ('/' :: '/' :: rest)
      else do
        let (user, host) ← h.parseAuthority (rest.takeWhile (· != '/'))
        { u with user, host }.setPath (rest.dropWhile (· != '/'))
  | '/' :: rest => u.setPath ('/' :: rest)
  | rest =>
      if u.scheme ≠ [] then some { u with rootless := rest }
      else if ':' ∈ rest.takeWhile (· != '/') then none
      else u.setPath rest

/-- Reads a URL without a fragment. -/
def parseReference (text : List Char) : Option URL :=
  if text.any fun c => c < ' ' || c == '\x7f' then none
  else if text = ['*'] then some { path := [0x2a] }
  else do
    let (scheme, rest) ← getScheme text
    let (rest, forceQuery, rawQuery) := splitQuery rest
    h.parseHierarchy { scheme := scheme.map Char.toLower, forceQuery, rawQuery } rest

/-- Reads a URL. The fragment is kept as it is written. -/
def parse (text : List Char) : Option URL := do
  let u ← h.parseReference (cut '#' text).1
  some { u with fragment := (cut '#' text).2 }

end Hosts

/-- A query with its question mark, which an empty query may have too. -/
def queryText (force : Bool) (query : List Char) : List Char :=
  if force ∨ query ≠ [] then '?' :: query else []

namespace URL

/-- The path as it is written. -/
def escapedPath (u : URL) : List Char :=
  if u.rawPath ≠ [] ∧ validEncoded u.rawPath ∧ unescapePath u.rawPath = some u.path then u.rawPath
  else if u.path = [0x2a] then ['*']
  else escape .path u.path

/-- The query as it is written. -/
def query (u : URL) : List Char := queryText u.forceQuery u.rawQuery

/-- What is written for a URL with a scheme and a host and without user information and a
fragment. -/
def string (u : URL) : List Char :=
  u.scheme ++ ("://".toList ++ (escape .host u.host ++
    ((if u.escapedPath ≠ [] ∧ u.escapedPath.head? ≠ some '/' then ['/'] else []) ++
      (u.escapedPath ++ u.query))))

/-- The number of characters written for bytes: three for each that is escaped. -/
def escapedSize (mode : Mode) (bytes : List UInt8) : Nat :=
  bytes.length + 2 * bytes.countP fun b => shouldEscape mode (Char.ofNat b.toNat)

/-- The number of characters written for a URL. A path that may not be written as it was read takes
two more characters for every byte that is not allowed in it. -/
def size (u : URL) : Nat :=
  u.scheme.length + 3 + escapedSize .host u.host +
    (if u.rawPath ≠ [] ∧ validEncoded u.rawPath ∧ unescapePath u.rawPath = some u.path then
      u.rawPath.length
    else escapedSize .path u.path) +
    (if u.forceQuery ∨ u.rawQuery ≠ [] then u.rawQuery.length + 1 else 0)

/-- A URL that `string` writes as a whole. -/
structure Absolute (u : URL) : Prop where
  scheme : u.scheme ≠ []
  rootless : u.rootless = []
  user : u.user = false
  host : u.host ≠ []
  fragment : u.fragment = []

instance (u : URL) : Decidable u.Absolute :=
  decidable_of_iff (u.scheme ≠ [] ∧ u.rootless = [] ∧ u.user = false ∧ u.host ≠ [] ∧
      u.fragment = [])
    ⟨fun ⟨h₁, h₂, h₃, h₄, h₅⟩ => ⟨h₁, h₂, h₃, h₄, h₅⟩,
      fun ⟨h₁, h₂, h₃, h₄, h₅⟩ => ⟨h₁, h₂, h₃, h₄, h₅⟩⟩

end URL

/-! ## What escapes contain -/

theorem unhex_hex_digit {n : Nat} (h : n < 16) : unhex (hexDigit n) = some n := by
  have hall : ∀ n < 16, unhex (hexDigit n) = some n := by decide
  exact hall n h

theorem hex_digit_alphanum {n : Nat} (h : n < 16) : (hexDigit n).isAlphanum := by
  have hall : ∀ n < 16, (hexDigit n).isAlphanum := by decide
  exact hall n h

/-- Escaped text has letters, digits, the plain characters of its part and percent signs. -/
theorem mem_escape {mode : Mode} {bytes : List UInt8} {c : Char} (h : c ∈ escape mode bytes) :
    c = '%' ∨ c.isAlphanum ∨ c ∈ mode.plain := by
  obtain ⟨b, -, hc⟩ := List.mem_flatMap.1 h
  have hb := b.toNat_lt
  unfold escapeByte at hc
  simp only at hc
  split at hc
  · simp only [List.mem_cons, List.not_mem_nil, or_false] at hc
    rcases hc with rfl | rfl | rfl
    · exact .inl rfl
    · exact .inr (.inl (hex_digit_alphanum (by omega)))
    · exact .inr (.inl (hex_digit_alphanum (by omega)))
  · next hplain =>
      rw [List.mem_singleton.1 hc]
      simp only [shouldEscape, Bool.and_eq_true, Bool.not_eq_true', decide_eq_true_eq, not_and,
        not_not] at hplain
      by_cases halnum : (Char.ofNat b.toNat).isAlphanum
      · exact .inr (.inl halnum)
      · exact .inr (.inr (hplain (by simpa using halnum)))

/-- A character that is none of these is not in an escaped text. -/
theorem not_mem_escape {mode : Mode} {bytes : List UInt8} {c : Char}
    (h : ¬(c = '%' ∨ c.isAlphanum ∨ c ∈ mode.plain)) : c ∉ escape mode bytes :=
  fun hc => h (mem_escape hc)

/-- Whether a character is printable ASCII other than the space. -/
def printable (c : Char) : Bool := '!' ≤ c && c ≤ '~'

theorem printable_of_alphanum {c : Char} (h : c.isAlphanum) : printable c := by
  have h : (decide (c.val ≥ 'A'.val ∧ c.val ≤ 'Z'.val) ||
      (c.val ≥ 'a'.val && c.val ≤ 'z'.val) || (c.val ≥ '0'.val && c.val ≤ '9'.val)) = true := h
  simp only [Bool.or_eq_true, Bool.and_eq_true, decide_eq_true_eq] at h
  simp only [printable, Bool.and_eq_true, decide_eq_true_eq, Char.le_def]
  simp only [ge_iff_le, UInt32.le_iff_toNat_le] at *
  have hA : 'A'.val.toNat = 65 := rfl
  have hZ : 'Z'.val.toNat = 90 := rfl
  have ha : 'a'.val.toNat = 97 := rfl
  have hz : 'z'.val.toNat = 122 := rfl
  have h0 : '0'.val.toNat = 48 := rfl
  have h9 : '9'.val.toNat = 57 := rfl
  have hfirst : '!'.val.toNat = 33 := rfl
  have hlast : '~'.val.toNat = 126 := rfl
  omega

theorem printable_not_control {c : Char} (h : printable c) : ¬(c < ' ' || c == '\x7f') := by
  simp only [printable, Bool.and_eq_true, decide_eq_true_eq, Char.le_def, UInt32.le_iff_toNat_le]
    at h
  have hfirst : '!'.val.toNat = 33 := rfl
  have hlast : '~'.val.toNat = 126 := rfl
  simp only [Bool.or_eq_true, decide_eq_true_eq, beq_iff_eq, not_or]
  refine ⟨?_, ?_⟩
  · rw [Char.lt_def, UInt32.lt_iff_toNat_lt]
    have hspace : ' '.val.toNat = 32 := rfl
    omega
  · rintro rfl
    have hdelete : '\x7f'.val.toNat = 127 := rfl
    omega

/-- Escaped text is printable. -/
theorem printable_escape {mode : Mode} {bytes : List UInt8} {c : Char}
    (h : c ∈ escape mode bytes) : printable c := by
  rcases mem_escape h with rfl | halnum | hplain
  · decide
  · exact printable_of_alphanum halnum
  · have hall : mode.plain.all printable = true := by cases mode <;> decide
    exact List.all_eq_true.1 hall c hplain

/-- A character without an escape stands for itself. -/
theorem unescape_path_cons {c : Char} (hc : c ≠ '%') (rest : List Char) :
    unescapePath (c :: rest) =
      (unescapePath rest).bind fun tail => some (UInt8.ofNat c.toNat :: tail) := by
  rw [unescapePath.eq_def]
  split
  · next h => cases h
  · next h =>
      cases h
      exact absurd rfl hc
  · next h =>
      cases h
      exact if_neg hc

@[simp] theorem escape_cons (mode : Mode) (b : UInt8) (bytes : List UInt8) :
    escape mode (b :: bytes) = escapeByte mode b ++ escape mode bytes :=
  List.flatMap_cons

/-- Escaped bytes are read back. -/
theorem unescape_escape (bytes : List UInt8) :
    unescapePath (escape .path bytes) = some bytes := by
  induction bytes with
  | nil => rfl
  | cons b bytes ih =>
      have hb := b.toNat_lt
      rw [escape_cons]
      by_cases hescape : shouldEscape .path (Char.ofNat b.toNat)
      · have htext : escapeByte .path b = ['%', hexDigit (b.toNat / 16), hexDigit (b.toNat % 16)] :=
          if_pos hescape
        have hbyte : b.toNat / 16 * 16 + b.toNat % 16 = b.toNat := by omega
        rw [htext, List.cons_append, List.cons_append, List.singleton_append, unescapePath,
          unhex_hex_digit (by omega), unhex_hex_digit (by omega), ih]
        simp only [Option.bind_eq_bind, Option.bind_some, hbyte, UInt8.ofNat_toNat]
      · have htext : escapeByte .path b = [Char.ofNat b.toNat] := if_neg hescape
        have hc : Char.ofNat b.toNat ≠ '%' := by
          intro heq
          rw [heq] at hescape
          exact hescape (by decide)
        rw [htext, List.singleton_append, unescape_path_cons hc, ih, Utf8.toNat_char_ofNat]
        simp only [Option.bind_some, UInt8.ofNat_toNat]

/-! ## The path -/

/-- What is written for the path of a URL whose path is set from a text. -/
def pathText (text : List Char) (path : List UInt8) : List Char :=
  URL.escapedPath { path, rawPath := if text = escape .path path then [] else text }

/-- The path is written as it was read, if that is allowed, and in the default encoding
otherwise. -/
theorem path_text_cases (text : List Char) {path : List UInt8} (hstar : path ≠ [0x2a]) :
    pathText text path = text ∨ pathText text path = escape .path path := by
  unfold pathText URL.escapedPath
  by_cases htext : text = escape .path path
  · exact .inr (by simp [htext, hstar])
  · simp only [htext, hstar, if_false]
    split
    · exact .inl rfl
    · exact .inr rfl

theorem path_text_escape {path : List UInt8} (hstar : path ≠ [0x2a]) :
    pathText (escape .path path) path = escape .path path := by
  unfold pathText URL.escapedPath
  simp [hstar]

/-- What is written for a path is read as the same path, and written the same again. -/
theorem path_text_stable {text : List Char} {path : List UInt8} (hstar : path ≠ [0x2a])
    (h : unescapePath text = some path) :
    unescapePath (pathText text path) = some path ∧
      pathText (pathText text path) path = pathText text path := by
  rcases path_text_cases text hstar with heq | heq
  · rw [heq]
    exact ⟨h, heq⟩
  · rw [heq]
    exact ⟨unescape_escape path, path_text_escape hstar⟩

/-- The path of a text that is empty or begins with a slash. -/
structure Rooted (text : List Char) : Prop where
  head : text = [] ∨ text.head? = some '/'
  noQuery : '?' ∉ text
  noFragment : '#' ∉ text

theorem Rooted.path_ne_star {text : List Char} {path : List UInt8} (hroot : Rooted text)
    (h : unescapePath text = some path) : path ≠ [0x2a] := by
  rintro rfl
  rcases hroot.head with rfl | hhead
  · cases h
  · obtain ⟨rest, rfl⟩ := List.head?_eq_some_iff.1 hhead
    rw [unescape_path_cons (by decide)] at h
    obtain ⟨tail, -, h⟩ := Option.bind_eq_some_iff.1 h
    cases h

/-- What is written for such a path is of the same kind. -/
theorem Rooted.path_text {text : List Char} {path : List UInt8} (hroot : Rooted text)
    (h : unescapePath text = some path) : Rooted (pathText text path) := by
  rcases path_text_cases text (hroot.path_ne_star h) with heq | heq
  · rw [heq]
    exact hroot
  · rw [heq]
    refine ⟨?_, not_mem_escape (by decide), not_mem_escape (by decide)⟩
    rcases hroot.head with rfl | hhead
    · cases h
      exact .inl rfl
    · obtain ⟨rest, rfl⟩ := List.head?_eq_some_iff.1 hhead
      rw [unescape_path_cons (by decide)] at h
      obtain ⟨tail, -, h⟩ := Option.bind_eq_some_iff.1 h
      cases h
      exact .inr rfl

/-! ## Splitting a text -/

section Split

variable {sep : Char} {a b : List Char}

theorem cut_of_not_mem (h : sep ∉ a) : cut sep a = (a, []) := by
  have hall : ∀ c ∈ a, (c != sep) = true := fun c hc => by
    simpa using fun heq : c = sep => h (heq ▸ hc)
  rw [cut, List.takeWhile_eq_self_iff.2 hall, List.dropWhile_eq_nil_iff.2 hall]
  rfl

theorem cut_append (h : sep ∉ a) : cut sep (a ++ sep :: b) = (a, b) := by
  have hall : ∀ c ∈ a, (c != sep) = true := fun c hc => by
    simpa using fun heq : c = sep => h (heq ▸ hc)
  rw [cut, List.takeWhile_append_of_pos hall, List.dropWhile_append_of_pos hall]
  simp

theorem not_mem_takeWhile : sep ∉ a.takeWhile (· != sep) := by
  intro h
  simpa using List.mem_takeWhile_imp h

theorem mem_of_mem_cut_fst {c : Char} (h : c ∈ (cut sep a).1) : c ∈ a :=
  (List.takeWhile_sublist _).mem h

theorem mem_of_mem_cut_snd {c : Char} (h : c ∈ (cut sep a).2) : c ∈ a :=
  (List.dropWhile_sublist _).mem (List.mem_of_mem_tail h)

end Split

/-! ## Reading what is written -/

theorem split_query_append {a q : List Char} {force : Bool} (ha : '?' ∉ a)
    (hforce : force → q = []) : splitQuery (a ++ queryText force q) = (a, force, q) := by
  unfold splitQuery queryText
  cases force with
  | true =>
      rw [hforce rfl]
      simp [List.count_eq_zero_of_not_mem ha]
  | false =>
      by_cases hq : q = []
      · subst hq
        have hlast : ¬(a.getLast? = some '?' ∧ a.count '?' = 1) :=
          fun h => ha (List.mem_of_getLast? h.1)
        simp [hlast, cut_of_not_mem ha]
      · have hlast : ¬((a ++ '?' :: q).getLast? = some '?' ∧ (a ++ '?' :: q).count '?' = 1) := by
          rintro ⟨hlast, hcount⟩
          -- A question mark at the end of the query is not the only one.
          have hmem : '?' ∈ q := by
            rw [List.getLast?_append_of_ne_nil _ (by simp),
              List.getLast?_cons_of_ne_nil hq] at hlast
            exact List.mem_of_getLast? hlast
          have := List.count_pos_iff.2 hmem
          rw [List.count_append, List.count_cons_self] at hcount
          omega
        simp only [Bool.false_eq_true, false_or, hq, ne_eq, not_false_eq_true, if_true,
          if_neg hlast, cut_append ha]

theorem get_scheme_append {first : Char} {name rest : List Char} (hfirst : first.isAlpha)
    (hchars : ∀ c ∈ first :: name, schemeChar c) :
    getScheme (first :: name ++ ':' :: rest) = some (first :: name, rest) := by
  have htake : (first :: name ++ ':' :: rest).takeWhile schemeChar = first :: name := by
    rw [List.takeWhile_append_of_pos hchars]
    simp [show schemeChar ':' = false by decide]
  have hdrop : (first :: name ++ ':' :: rest).dropWhile schemeChar = ':' :: rest := by
    rw [List.dropWhile_append_of_pos hchars]
    simp [show schemeChar ':' = false by decide]
  rw [getScheme, htake, hdrop]
  simp [hfirst]

/-- The authority ends where the path begins. -/
theorem split_authority {auth p : List Char} (hauth : '/' ∉ auth)
    (hp : p = [] ∨ p.head? = some '/') :
    (auth ++ p).takeWhile (· != '/') = auth ∧ (auth ++ p).dropWhile (· != '/') = p := by
  have hall : ∀ c ∈ auth, (c != '/') = true := fun c hc => by
    simpa using fun heq : c = '/' => hauth (heq ▸ hc)
  rw [List.takeWhile_append_of_pos hall, List.dropWhile_append_of_pos hall]
  rcases hp with rfl | hhead
  · simp
  · obtain ⟨rest, rfl⟩ := List.head?_eq_some_iff.1 hhead
    simp

/-- The parts of a URL with a host, before they are put together. -/
structure Parts where
  scheme : List Char
  authority : List Char
  path : List Char
  force : Bool
  query : List Char

namespace Parts

/-- The text of the URL. -/
def text (t : Parts) : List Char :=
  t.scheme ++ ("://".toList ++ (t.authority ++ (t.path ++ queryText t.force t.query)))

/-- The parts can be told apart in the text. -/
structure Separate (t : Parts) : Prop where
  scheme : ∃ first name, t.scheme = first :: name ∧ first.isAlpha
  schemeChars : ∀ c ∈ t.scheme, schemeChar c
  noSlash : '/' ∉ t.authority
  noQuery : '?' ∉ t.authority
  noFragment : '#' ∉ t.authority
  noUser : '@' ∉ t.authority
  rooted : Rooted t.path
  force : t.force → t.query = []
  queryFragment : '#' ∉ t.query

/-- The URL with these parts. -/
def url (t : Parts) (host path : List UInt8) : URL :=
  { scheme := t.scheme.map Char.toLower, host, path,
    rawPath := if t.path = escape .path path then [] else t.path,
    forceQuery := t.force, rawQuery := t.query }

/-- The URL is read from the text of its parts. -/
theorem Separate.parse {h : Hosts} {t : Parts} {host path : List UInt8} (hsep : t.Separate)
    (hprintable : ∀ c ∈ t.text, printable c) (hhost : h.parseHost t.authority = some host)
    (hpath : unescapePath t.path = some path) : h.parse t.text = some (t.url host path) := by
  obtain ⟨first, name, hscheme, hfirst⟩ := hsep.scheme
  have htext : t.text = first :: name ++ ':' ::
      ('/' :: '/' :: (t.authority ++ t.path) ++ queryText t.force t.query) := by
    simp [text, hscheme]
  have hreference : h.parseReference t.text = some (t.url host path) := by
    have hcontrol : ¬t.text.any (fun c => c < ' ' || c == '\x7f') := by
      rw [List.any_eq_true]
      rintro ⟨c, hc, hbad⟩
      exact absurd (printable_not_control (hprintable c hc)) (not_not.2 hbad)
    have hstar : t.text ≠ ['*'] := by
      rw [htext]
      simp
    have hquery : '?' ∉ '/' :: '/' :: (t.authority ++ t.path) := by
      simp [hsep.noQuery, hsep.rooted.noQuery]
    obtain ⟨htake, hdrop⟩ := split_authority hsep.noSlash hsep.rooted.head
    rw [Hosts.parseReference, if_neg hcontrol, if_neg hstar, htext,
      get_scheme_append hfirst (hscheme ▸ hsep.schemeChars)]
    simp only [Option.bind_eq_bind, Option.bind_some, split_query_append hquery hsep.force,
      Hosts.parseHierarchy]
    rw [if_neg (by simp), htake, hdrop, Hosts.parseAuthority, if_neg hsep.noUser, hhost]
    simp only [Option.bind_eq_bind, Option.bind_some, URL.setPath, hpath, url, hscheme]
  have hfragment : '#' ∉ t.text := by
    have hname : '#' ∉ t.scheme := fun hmem => absurd (hsep.schemeChars _ hmem) (by decide)
    have hq : '#' ∉ queryText t.force t.query := by
      unfold queryText
      split <;> simp [hsep.queryFragment]
    simp [text, hname, hsep.noFragment, hsep.rooted.noFragment, hq]
  rw [Hosts.parse, cut_of_not_mem hfragment, hreference]
  rfl

end Parts

/-! ## The parts of what is read -/

/-- A text and its two sides. -/
theorem cut_eq (sep : Char) (text : List Char) :
    sep ∉ (cut sep text).1 ∧
      (text = (cut sep text).1 ∧ (cut sep text).2 = [] ∨
        text = (cut sep text).1 ++ sep :: (cut sep text).2) := by
  unfold cut
  refine ⟨not_mem_takeWhile, ?_⟩
  cases hdrop : text.dropWhile (· != sep) with
  | nil =>
      refine .inl ⟨?_, rfl⟩
      rw [List.takeWhile_eq_self_iff.2 (List.dropWhile_eq_nil_iff.1 hdrop)]
  | cons c rest =>
      have hc : c = sep := by
        have hne : text.dropWhile (· != sep) ≠ [] := by simp [hdrop]
        have hhead := List.head_dropWhile_not (· != sep) hne
        simpa [hdrop] using hhead
      subst hc
      refine .inr ?_
      rw [List.tail_cons, ← hdrop, List.takeWhile_append_dropWhile]

theorem get_scheme_eq {text scheme rest : List Char} (h : getScheme text = some (scheme, rest))
    (hne : scheme ≠ []) :
    text = scheme ++ ':' :: rest ∧ (∃ first name, scheme = first :: name ∧ first.isAlpha) ∧
      ∀ c ∈ scheme, schemeChar c := by
  unfold getScheme at h
  split at h
  · cases h
  · next first name rest' htake hdrop =>
      split at h
      · next hfirst =>
          cases h
          refine ⟨?_, ⟨first, name, rfl, hfirst⟩, ?_⟩
          · rw [← htake, ← hdrop, List.takeWhile_append_dropWhile]
          · rw [← htake]
            exact fun c hc => List.mem_takeWhile_imp hc
      · cases h
        exact absurd rfl hne
  · cases h
    exact absurd rfl hne

theorem split_query_eq {text a q : List Char} {force : Bool}
    (h : splitQuery text = (a, force, q)) :
    text = a ++ queryText force q ∧ '?' ∉ a ∧ (force → q = []) := by
  unfold splitQuery at h
  split at h
  · next hlast =>
      cases h
      obtain ⟨init, rfl⟩ := List.getLast?_eq_some_iff.1 hlast.1
      have hcount := hlast.2
      rw [List.count_append, List.count_singleton_self] at hcount
      have hmem : '?' ∉ init := List.count_eq_zero.1 (by omega)
      simp [queryText, hmem]
  · next hlast =>
      cases h
      obtain ⟨hmem, ⟨htext, hnil⟩ | htext⟩ := cut_eq '?' text
      · rw [hnil]
        exact ⟨by simpa [queryText] using htext, hmem, nofun⟩
      · refine ⟨?_, hmem, nofun⟩
        have hq : (cut '?' text).2 ≠ [] := by
          intro hnil
          rw [hnil] at htext
          refine hlast ?_
          rw [htext]
          simp [List.count_eq_zero_of_not_mem hmem]
        rw [queryText, if_pos (.inr hq)]
        exact htext

theorem URL.set_path_eq {u u' : URL} {text : List Char} (h : u.setPath text = some u') :
    ∃ path, unescapePath text = some path ∧
      u' = { u with path, rawPath := if text = escape .path path then [] else text } := by
  obtain ⟨path, hpath, h⟩ := Option.bind_eq_some_iff.1 h
  cases h
  exact ⟨path, hpath, rfl⟩

/-- The scheme stays as it was read. -/
theorem Hosts.parse_hierarchy_scheme {h : Hosts} {u u' : URL} {rest : List Char}
    (hrest : h.parseHierarchy u rest = some u') : u'.scheme = u.scheme := by
  unfold Hosts.parseHierarchy at hrest
  split at hrest
  · split at hrest
    · obtain ⟨path, -, rfl⟩ := URL.set_path_eq hrest
      rfl
    · obtain ⟨⟨user, host⟩, -, hset⟩ := Option.bind_eq_some_iff.1 hrest
      obtain ⟨path, -, rfl⟩ := URL.set_path_eq hset
      rfl
  · obtain ⟨path, -, rfl⟩ := URL.set_path_eq hrest
    rfl
  · split at hrest
    · cases hrest
      rfl
    · split at hrest
      · cases hrest
      · obtain ⟨path, -, rfl⟩ := URL.set_path_eq hrest
        rfl

/-- Only an authority gives a URL a host. -/
theorem Hosts.parse_hierarchy_eq {h : Hosts} {u u' : URL} {rest : List Char}
    (hrest : h.parseHierarchy u rest = some u') (hscheme : u.scheme ≠ []) (hhost : u.host = [])
    (hhost' : u'.host ≠ []) (huser : u'.user = false) :
    ∃ auth p host path, rest = '/' :: '/' :: (auth ++ p) ∧ '/' ∉ auth ∧ '@' ∉ auth ∧
      (p = [] ∨ p.head? = some '/') ∧ h.parseHost auth = some host ∧ unescapePath p = some path ∧
      u' = { u with
        user := false, host, path, rawPath := if p = escape .path path then [] else p } := by
  unfold Hosts.parseHierarchy at hrest
  split at hrest
  · next after =>
      rw [if_neg (by simp [hscheme])] at hrest
      obtain ⟨⟨user, host⟩, hauthority, hset⟩ := Option.bind_eq_some_iff.1 hrest
      obtain ⟨path, hpath, rfl⟩ := URL.set_path_eq hset
      cases huser
      refine ⟨after.takeWhile (· != '/'), after.dropWhile (· != '/'), host, path, ?_,
        not_mem_takeWhile, ?_, ?_, ?_, hpath, rfl⟩
      · rw [List.takeWhile_append_dropWhile]
      · intro hmem
        rw [Hosts.parseAuthority, if_pos hmem] at hauthority
        obtain ⟨host', -, h'⟩ := Option.bind_eq_some_iff.1 hauthority
        cases h'
      · cases hdrop : after.dropWhile (· != '/') with
        | nil => exact .inl rfl
        | cons c tail =>
            have hne : after.dropWhile (· != '/') ≠ [] := by simp [hdrop]
            have hhead := List.head_dropWhile_not (· != '/') hne
            exact .inr (by simpa [hdrop] using hhead)
      · unfold Hosts.parseAuthority at hauthority
        split at hauthority
        · obtain ⟨host', -, h'⟩ := Option.bind_eq_some_iff.1 hauthority
          cases h'
        · obtain ⟨host', hparse, h'⟩ := Option.bind_eq_some_iff.1 hauthority
          cases h'
          exact hparse
  · obtain ⟨path, -, rfl⟩ := URL.set_path_eq hrest
    exact absurd hhost hhost'
  · rw [if_pos hscheme] at hrest
    cases hrest
    exact absurd hhost hhost'

/-- A URL with a host is read from its parts, which an empty fragment may follow. -/
theorem Hosts.parse_parts {h : Hosts} {text : List Char} {u : URL} (hparse : h.parse text = some u)
    (habs : u.Absolute) :
    ∃ t : Parts, t.Separate ∧ (text = t.text ∨ text = t.text ++ ['#']) ∧
      ∃ host path, h.parseHost t.authority = some host ∧ unescapePath t.path = some path ∧
        u = t.url host path := by
  obtain ⟨u₀, hreference, hu⟩ := Option.bind_eq_some_iff.1 hparse
  cases hu
  obtain ⟨hfragment, htext⟩ := cut_eq '#' text
  have hempty : (cut '#' text).2 = [] := habs.fragment
  rw [hempty] at htext
  have hscheme : u₀.scheme ≠ [] := habs.scheme
  unfold Hosts.parseReference at hreference
  split at hreference
  · cases hreference
  split at hreference
  · cases hreference
    exact absurd rfl hscheme
  obtain ⟨⟨scheme, rest⟩, hget, h₁⟩ := Option.bind_eq_some_iff.1 hreference
  rcases hsplit : splitQuery rest with ⟨a, force, q⟩
  simp only [hsplit] at h₁
  obtain ⟨rfl, hquery, hforce⟩ := split_query_eq hsplit
  have hname : scheme ≠ [] := by
    rintro rfl
    exact hscheme (Hosts.parse_hierarchy_scheme h₁)
  obtain ⟨htext', hfirst, hchars⟩ := get_scheme_eq hget hname
  obtain ⟨auth, p, host, path, rfl, hslash, hat, hhead, hhost, hpath, rfl⟩ :=
    Hosts.parse_hierarchy_eq h₁ (by simpa using hname) rfl habs.host habs.user
  have hwhole : (cut '#' text).1 = Parts.text ⟨scheme, auth, p, force, q⟩ := by
    rw [htext']
    simp [Parts.text]
  rw [hwhole] at hfragment htext
  have hfragments := hfragment
  simp only [Parts.text, List.mem_append, not_or] at hfragments
  obtain ⟨-, -, hauth, hp, hq⟩ := hfragments
  simp only [List.mem_cons, List.mem_append, not_or] at hquery
  obtain ⟨-, -, hauth', hp'⟩ := hquery
  refine ⟨⟨scheme, auth, p, force, q⟩, ?_, htext.imp And.left id, host, path, hhost, hpath, ?_⟩
  · exact
      { scheme := hfirst, schemeChars := hchars, noSlash := hslash, noQuery := hauth',
        noFragment := hauth, noUser := hat, rooted := ⟨hhead, hp', hp⟩, force := hforce,
        queryFragment := fun hmem => hq (by
          rw [queryText, if_pos (.inr (List.ne_nil_of_mem hmem))]
          exact List.mem_cons_of_mem _ hmem) }
  · rw [hempty]
    rfl

/-! ## What is written is read back -/

theorem printable_of_scheme_char {c : Char} (h : schemeChar c) : printable c := by
  simp only [schemeChar, Bool.or_eq_true, beq_iff_eq] at h
  rcases h with ((h | rfl) | rfl) | rfl
  · exact printable_of_alphanum h
  · decide
  · decide
  · decide

theorem toNat_lt_of_printable {c : Char} (h : printable c) : c.toNat < 128 := by
  simp only [printable, Bool.and_eq_true, decide_eq_true_eq, Char.le_def,
    UInt32.le_iff_toNat_le] at h
  have hlast : '~'.val.toNat = 126 := rfl
  have : c.toNat = c.val.toNat := rfl
  omega

/-- The lower-case form of a scheme is one again. -/
theorem scheme_char_lower {c : Char} (h : schemeChar c) :
    schemeChar c.toLower ∧ c.toLower.toLower = c.toLower := by
  have hall : ∀ n < 128, schemeChar (Char.ofNat n) → schemeChar (Char.ofNat n).toLower ∧
      (Char.ofNat n).toLower.toLower = (Char.ofNat n).toLower := by decide +kernel
  have hchar := hall c.toNat (toNat_lt_of_printable (printable_of_scheme_char h))
  rw [Char.ofNat_toNat] at hchar
  exact hchar h

theorem alpha_lower {c : Char} (h : c.isAlpha) (hc : schemeChar c) : c.toLower.isAlpha := by
  have hall : ∀ n < 128, (Char.ofNat n).isAlpha → (Char.ofNat n).toLower.isAlpha := by
    decide +kernel
  have hchar := hall c.toNat (toNat_lt_of_printable (printable_of_scheme_char hc))
  rw [Char.ofNat_toNat] at hchar
  exact hchar h

/-- The URL with its host in lower case. -/
def URL.lowerHost (h : Hosts) (u : URL) : URL := { u with host := h.lower u.host }

/-- What is written for a URL with the given parts. -/
theorem Parts.string_url {t : Parts} {host path : List UInt8} (hroot : Rooted t.path)
    (hpath : unescapePath t.path = some path) (host' : List UInt8) :
    ({ t.url host path with host := host' } : URL).string =
      Parts.text ⟨t.scheme.map Char.toLower, escape .host host', pathText t.path path, t.force,
        t.query⟩ := by
  have hescaped : ({ t.url host path with host := host' } : URL).escapedPath =
      pathText t.path path := rfl
  have hslash : ¬(pathText t.path path ≠ [] ∧ (pathText t.path path).head? ≠ some '/') := by
    rintro ⟨hne, hhead⟩
    exact (hroot.path_text hpath).head.elim hne hhead
  rw [URL.string, hescaped, if_neg hslash, List.nil_append]
  rfl

/-- The parts of what is written can be told apart. -/
theorem Parts.Separate.written {t : Parts} {path : List UInt8} (hsep : t.Separate)
    (hpath : unescapePath t.path = some path) (host : List UInt8) :
    Separate ⟨t.scheme.map Char.toLower, escape .host host, pathText t.path path, t.force,
      t.query⟩ where
  scheme := by
    obtain ⟨first, name, hscheme, hfirst⟩ := hsep.scheme
    have hchar := hsep.schemeChars first (by rw [hscheme]; exact List.mem_cons_self)
    exact ⟨first.toLower, name.map Char.toLower, by rw [hscheme]; rfl, alpha_lower hfirst hchar⟩
  schemeChars := by
    intro c hc
    obtain ⟨c', hc', rfl⟩ := List.mem_map.1 hc
    exact (scheme_char_lower (hsep.schemeChars c' hc')).1
  noSlash := not_mem_escape (by decide)
  noQuery := not_mem_escape (by decide)
  noFragment := not_mem_escape (by decide)
  noUser := not_mem_escape (by decide)
  rooted := hsep.rooted.path_text hpath
  force := hsep.force
  queryFragment := hsep.queryFragment

/-- What is written is printable if the text was. -/
theorem Parts.Separate.printable_written {t : Parts} {path : List UInt8} (hsep : t.Separate)
    (hpath : unescapePath t.path = some path) (host : List UInt8)
    (hprintable : ∀ c ∈ t.text, printable c) :
    ∀ c ∈ Parts.text ⟨t.scheme.map Char.toLower, escape .host host, pathText t.path path, t.force,
      t.query⟩, printable c := by
  intro c hc
  simp only [Parts.text, List.mem_append] at hc hprintable
  rcases hc with hc | hc | hc | hc | hc
  · obtain ⟨c', hc', rfl⟩ := List.mem_map.1 hc
    exact printable_of_scheme_char (scheme_char_lower (hsep.schemeChars c' hc')).1
  · exact hprintable c (.inr (.inl hc))
  · exact printable_escape hc
  · rcases path_text_cases t.path (hsep.rooted.path_ne_star hpath) with heq | heq
    · rw [heq] at hc
      exact hprintable c (.inr (.inr (.inr (.inl hc))))
    · rw [heq] at hc
      exact printable_escape hc
  · exact hprintable c (.inr (.inr (.inr (.inr hc))))

theorem length_escape (mode : Mode) (bytes : List UInt8) :
    (escape mode bytes).length = URL.escapedSize mode bytes := by
  induction bytes with
  | nil => rfl
  | cons b bytes ih =>
      rw [escape_cons, List.length_append, ih, URL.escapedSize, URL.escapedSize, List.length_cons,
        List.countP_cons, escapeByte]
      split
      · simp only [List.length_cons, List.length_nil]
        omega
      · simp only [List.length_cons, List.length_nil]
        omega

/-- `URL.size` counts what is written. -/
theorem URL.length_string {u : URL} (hstar : u.path ≠ [0x2a])
    (hslash : u.escapedPath = [] ∨ u.escapedPath.head? = some '/') :
    u.string.length = u.size := by
  have hinsert : ¬(u.escapedPath ≠ [] ∧ u.escapedPath.head? ≠ some '/') :=
    fun h => hslash.elim h.1 h.2
  have hpath : u.escapedPath.length =
      if u.rawPath ≠ [] ∧ validEncoded u.rawPath ∧ unescapePath u.rawPath = some u.path then
        u.rawPath.length
      else escapedSize .path u.path := by
    simp only [escapedPath, hstar, if_false]
    split
    · rfl
    · exact length_escape .path u.path
  have hquery : u.query.length =
      if u.forceQuery ∨ u.rawQuery ≠ [] then u.rawQuery.length + 1 else 0 := by
    unfold query queryText
    split <;> rfl
  rw [string, if_neg hinsert, size, List.nil_append]
  simp only [List.length_append, length_escape, hpath, hquery]
  have : "://".toList.length = 3 := rfl
  omega

/-- A URL with its host in lower case is read back from what is written for it, and written the
same again. -/
theorem Hosts.parse_string {h : Hosts} {text : List Char} {u : URL}
    (hparse : h.parse text = some u) (habs : u.Absolute) (hprintable : ∀ c ∈ text, printable c) :
    (∀ c ∈ (u.lowerHost h).string, printable c) ∧
      (u.lowerHost h).string.length = (u.lowerHost h).size ∧
      ∃ v, h.parse (u.lowerHost h).string = some v ∧ v.Absolute ∧ v.scheme = u.scheme ∧
        (v.lowerHost h).string = (u.lowerHost h).string := by
  obtain ⟨t, hsep, htext, host, path, hhost, hpath, rfl⟩ := Hosts.parse_parts hparse habs
  have hprintable' : ∀ c ∈ t.text, printable c := by
    rcases htext with rfl | rfl
    · exact hprintable
    · exact fun c hc => hprintable c (List.mem_append_left _ hc)
  have hstar := hsep.rooted.path_ne_star hpath
  have hroot := hsep.rooted.path_text hpath
  obtain ⟨hpath', hstable⟩ := path_text_stable hstar hpath
  have hsep' := hsep.written hpath (h.lower host)
  have hstring : ((t.url host path).lowerHost h).string = _ :=
    Parts.string_url hsep.rooted hpath (h.lower host)
  have hwritten := hsep.printable_written hpath (h.lower host) hprintable'
  have hlower : (t.scheme.map Char.toLower).map Char.toLower = t.scheme.map Char.toLower := by
    rw [List.map_map]
    exact List.map_congr_left fun c hc => (scheme_char_lower (hsep.schemeChars c hc)).2
  refine ⟨by rw [hstring]; exact hwritten, URL.length_string hstar hroot.head, ?_⟩
  rw [hstring]
  refine ⟨_, hsep'.parse hwritten (h.parse_escape_lower hhost) hpath', ?_, hlower, ?_⟩
  · have hscheme : (t.scheme.map Char.toLower).map Char.toLower ≠ [] := by
      rw [hlower]
      exact habs.scheme
    exact ⟨hscheme, rfl, rfl, h.lower_ne_nil habs.host, rfl⟩
  · rw [URL.lowerHost]
    show (URL.string { Parts.url _ _ _ with host := h.lower (h.lower host) }) = _
    rw [Parts.string_url hsep'.rooted hpath', h.lower_lower, hstable, hlower]

end Url
