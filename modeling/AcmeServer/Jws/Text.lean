import AcmeServer.Jws.Json
import AcmeServer.Utf8.Basic
import Mathlib.Algebra.Group.Nat.Defs

/-!
# Reading JSON text

What `encoding/json` makes of some bytes: the tokens that a `json.Decoder` returns for them one
after the other, up to the end of the input or an error, and the value they are the text of. The
scanner reads a value by recursive descent and returns its tokens as it goes, so that a text which
stops being JSON has the tokens before that point.

`scan_value_tokens` connects the two: a value that was read has exactly the tokens of its tree.
`scan_json_text` is the way back: the text of a document of objects, plain strings and `null`, such
as this package writes, is read as that document.
-/

namespace AcmeServer.Jws

namespace Text

/-! ## Quoting -/

def hexDigits (width n : Nat) : List Char :=
  (List.range width).reverse.map fun i => "0123456789abcdef".toList.getD (n / 16 ^ i % 16) '0'

/-- The text of a character in a quoted string. -/
def quoteRune (isPrint : Char → Bool) (c : Char) : List Char :=
  let n := c.toNat
  if n = 0x22 ∨ n = 0x5C then ['\\', c]
  else if (0x20 ≤ n ∧ n < 0x7F) ∨ (0x80 ≤ n ∧ isPrint c) then [c]
  else if n = 0x07 then ['\\', 'a']
  else if n = 0x08 then ['\\', 'b']
  else if n = 0x09 then ['\\', 't']
  else if n = 0x0A then ['\\', 'n']
  else if n = 0x0B then ['\\', 'v']
  else if n = 0x0C then ['\\', 'f']
  else if n = 0x0D then ['\\', 'r']
  else if n < 0x80 then '\\' :: 'x' :: hexDigits 2 n
  else if n < 0x10000 then '\\' :: 'u' :: hexDigits 4 n
  else '\\' :: 'U' :: hexDigits 8 n

/-- `strconv.Quote`, the `%q` verb of strings. `unicode.IsPrint` decides about characters that are
not ASCII. -/
def quote (isPrint : Char → Bool) (s : String) : String :=
  "\"" ++ String.ofList (s.toList.flatMap (quoteRune isPrint)) ++ "\""

/-! ## Bytes and errors -/

def quotationMark : UInt8 := 0x22
def comma : UInt8 := 0x2C
def minus : UInt8 := 0x2D
def plus : UInt8 := 0x2B
def point : UInt8 := 0x2E
def colon : UInt8 := 0x3A
def openBracket : UInt8 := 0x5B
def backslash : UInt8 := 0x5C
def closeBracket : UInt8 := 0x5D
def openBrace : UInt8 := 0x7B
def closeBrace : UInt8 := 0x7D

/-- The bytes of an ASCII text. -/
def ascii (s : String) : Bytes := s.toList.map fun c => UInt8.ofNat c.toNat

theorem ascii_append (s t : String) : ascii (s ++ t) = ascii s ++ ascii t := by
  simp [ascii]

def isSpace (b : UInt8) : Bool := b = 0x20 ∨ b = 0x09 ∨ b = 0x0D ∨ b = 0x0A

def isDigit (b : UInt8) : Bool := 0x30 ≤ b ∧ b ≤ 0x39

def skipSpace (bytes : Bytes) : Bytes := bytes.dropWhile isSpace

/-- The text of an error in the middle of a literal at the end of the input. -/
def unexpectedEOF : String := "unexpected EOF"

/-- The byte as the errors of `encoding/json` have it. -/
def quoteChar (quote : String → String) (b : UInt8) : String :=
  if b = 0x27 then "'\\''"
  else if b = quotationMark then "'\"'"
  else
    let quoted := (quote (String.singleton (Char.ofNat b.toNat))).toList
    "'" ++ String.ofList quoted.tail.dropLast ++ "'"

variable (quote : String → String)

/-- The text of the error for a byte that has no place in the input. -/
def invalidCharacter (b : UInt8) (context : String) : String :=
  "invalid character " ++ quoteChar quote b ++ context

/-! ## Strings -/

def hexDigit (b : UInt8) : Option Nat :=
  if isDigit b then some (b.toNat - 0x30)
  else if 0x61 ≤ b ∧ b ≤ 0x66 then some (b.toNat - 0x61 + 10)
  else if 0x41 ≤ b ∧ b ≤ 0x46 then some (b.toNat - 0x41 + 10)
  else none

/-- Reads four hexadecimal digits. -/
def hex4 : Bytes → Option (Nat × Bytes)
  | a :: b :: c :: d :: rest => do
      let a ← hexDigit a
      let b ← hexDigit b
      let c ← hexDigit c
      let d ← hexDigit d
      return (((a * 16 + b) * 16 + c) * 16 + d, rest)
  | _ => none

/-- Cuts a string off the input behind its opening quotation mark: the bytes before the closing one,
and what follows it. -/
def cutString : Bytes → Except String (Bytes × Bytes)
  | [] => .error unexpectedEOF
  | b :: rest =>
      if b = quotationMark then .ok ([], rest)
      else if b = backslash then
        match rest with
        | [] => .error unexpectedEOF
        | c :: more =>
            if c ∈ ascii "bfnrt/" ∨ c = backslash ∨ c = quotationMark then do
              let (raw, after) ← cutString more
              return (b :: c :: raw, after)
            else if c = 0x75 then
              match more with
              | d :: e :: f :: g :: last =>
                  match [d, e, f, g].find? (hexDigit · = none) with
                  | some bad =>
                      .error (invalidCharacter quote bad " in \\u hexadecimal character escape")
                  | none => do
                      let (raw, after) ← cutString last
                      return (b :: c :: d :: e :: f :: g :: raw, after)
              | _ =>
                  match more.find? (hexDigit · = none) with
                  | some bad =>
                      .error (invalidCharacter quote bad " in \\u hexadecimal character escape")
                  | none => .error unexpectedEOF
            else .error (invalidCharacter quote c " in string escape code")
      else if b < 0x20 then .error (invalidCharacter quote b " in string literal")
      else do
        let (raw, after) ← cutString rest
        return (b :: raw, after)

/-- The character of a surrogate pair. -/
def surrogatePair (high low : Nat) : Option Char :=
  if 0xD800 ≤ high ∧ high < 0xDC00 ∧ 0xDC00 ≤ low ∧ low < 0xE000 then
    some (Char.ofNat (0x10000 + (high - 0xD800) * 0x400 + (low - 0xDC00)))
  else none

/-- The character of a numeric escape, which may need the one after it. -/
def escapedRune (r : Nat) (rest : Bytes) : Char × Bytes :=
  if 0xD800 ≤ r ∧ r < 0xE000 then
    match rest with
    | b :: c :: more =>
        if b = backslash ∧ c = 0x75 then
          match hex4 more with
          | some (low, after) =>
              match surrogatePair r low with
              | some pair => (pair, after)
              | none => (Utf8.replacement, rest)
          | none => (Utf8.replacement, rest)
        else (Utf8.replacement, rest)
    | _ => (Utf8.replacement, rest)
  else (Char.ofNat r, rest)

/-- The character of a short escape. -/
def shortEscape (b : UInt8) : Char :=
  if b = 0x62 then '\x08'
  else if b = 0x66 then '\x0c'
  else if b = 0x6E then '\n'
  else if b = 0x72 then '\x0d'
  else if b = 0x74 then '\t'
  else Char.ofNat b.toNat

/-- The next character of a string. -/
def unquoteRune (b : UInt8) (rest : Bytes) : Char × Bytes :=
  if b = backslash then
    match rest with
    | [] => (Utf8.replacement, rest)
    | c :: more =>
        if c = 0x75 then
          match hex4 more with
          | some (r, after) => escapedRune r after
          | none => (Utf8.replacement, more)
        else (shortEscape c, more)
  else Utf8.decodeRune b rest

def unquoteFrom : Nat → Bytes → List Char
  | 0, _ => []
  | _ + 1, [] => []
  | fuel + 1, b :: rest => (unquoteRune b rest).1 :: unquoteFrom fuel (unquoteRune b rest).2

/-- The string whose text stands between quotation marks. -/
def unquote (raw : Bytes) : String := String.ofList (unquoteFrom raw.length raw)

/-! ## Numbers and literals -/

/-- Cuts some digits off the input. There must be one. -/
def cutDigits (context : String) : Bytes → Except String (Bytes × Bytes)
  | [] => .error unexpectedEOF
  | b :: rest =>
      if isDigit b then .ok (b :: rest.takeWhile isDigit, rest.dropWhile isDigit)
      else .error (invalidCharacter quote b context)

/-- Cuts the whole part of a number off the input: it has no leading zeros. -/
def cutWhole : Bytes → Except String (Bytes × Bytes)
  | b :: rest =>
      if b = 0x30 then .ok ([b], rest) else cutDigits quote " in numeric literal" (b :: rest)
  | [] => .error unexpectedEOF

def cutSign (bytes : Bytes) : Bytes × Bytes :=
  match bytes with
  | b :: rest => if b = minus then ([b], rest) else ([], bytes)
  | [] => ([], bytes)

def cutFraction (bytes : Bytes) : Except String (Bytes × Bytes) :=
  match bytes with
  | b :: rest =>
      if b = point then do
        let (digits, after) ← cutDigits quote " after decimal point in numeric literal" rest
        return (b :: digits, after)
      else .ok ([], bytes)
  | [] => .ok ([], bytes)

def cutExponent (bytes : Bytes) : Except String (Bytes × Bytes) :=
  match bytes with
  | b :: rest =>
      if b = 0x65 ∨ b = 0x45 then
        let (sign, rest) :=
          match rest with
          | s :: more => if s = plus ∨ s = minus then ([s], more) else ([], rest)
          | [] => ([], rest)
        do
          let (digits, after) ← cutDigits quote " in exponent of numeric literal" rest
          return (b :: sign ++ digits, after)
      else .ok ([], bytes)
  | [] => .ok ([], bytes)

/-- Cuts a number off the input. -/
def cutNumber (bytes : Bytes) : Except String (Bytes × Bytes) := do
  let (sign, rest) := cutSign bytes
  let (whole, rest) ← cutWhole quote rest
  let (fraction, rest) ← cutFraction quote rest
  let (exponent, rest) ← cutExponent quote rest
  return (sign ++ whole ++ fraction ++ exponent, rest)

/-- Cuts the rest of a literal name off the input. -/
def cutName (name : String) : List UInt8 → Bytes → Except String Bytes
  | [], bytes => .ok bytes
  | _ :: _, [] => .error unexpectedEOF
  | expected :: more, b :: rest =>
      if b = expected then cutName name more rest
      else .error (invalidCharacter quote b
        (" in literal " ++ name ++ " (expecting " ++ quoteChar quote expected ++ ")"))

/-! ## Values -/

/-- How a scan ends: it has read something, the input is at its end, or it is not JSON. -/
inductive Outcome (α : Type) where
  | read (a : α) (rest : Bytes)
  | ended
  | failed (err : String)

/-- A scan: the tokens of what it has seen, and how it ends. -/
structure Scan (α : Type) where
  tokens : List Token
  outcome : Outcome α

namespace Scan

variable {α β : Type}

/-- Goes on where a scan has read something. -/
def bind (s : Scan α) (f : α → Bytes → Scan β) : Scan β :=
  match s.outcome with
  | .read a rest => ⟨s.tokens ++ (f a rest).tokens, (f a rest).outcome⟩
  | .ended => ⟨s.tokens, .ended⟩
  | .failed err => ⟨s.tokens, .failed err⟩

def fail (err : String) : Scan α := ⟨[], .failed err⟩

/-- Takes one token. -/
def token (t : Token) (a : α) (rest : Bytes) : Scan α := ⟨[t], .read a rest⟩

/-- Goes on behind white space. -/
def next (bytes : Bytes) (f : UInt8 → Bytes → Scan α) : Scan α :=
  match skipSpace bytes with
  | [] => ⟨[], .ended⟩
  | b :: rest => f b rest

end Scan

/-- A string, behind its quotation mark. -/
def scanString (bytes : Bytes) : Scan String :=
  match cutString quote bytes with
  | .error err => .fail err
  | .ok (raw, rest) => .token (.string (unquote raw)) (unquote raw) rest

/-- A literal name, behind its first letter. -/
def scanName (v : Scalar) (name : String) (bytes : Bytes) : Scan Json :=
  match cutName quote name (ascii name).tail bytes with
  | .error err => .fail err
  | .ok rest => .token (.scalar v) (.scalar v) rest

def scanNumber (bytes : Bytes) : Scan Json :=
  match cutNumber quote bytes with
  | .error err => .fail err
  | .ok (literal, rest) =>
      let number := Scalar.number (String.ofList (literal.map fun b => Char.ofNat b.toNat))
      .token (.scalar number) (.scalar number) rest

mutual

/-- The next value. Every step into a value takes a byte, so the fuel is not used up. -/
def scanValue : Nat → Bytes → Scan Json
  | 0, _ => ⟨[], .ended⟩
  | fuel + 1, bytes => .next bytes fun b rest =>
      if b = openBrace then
        (Scan.token (.delim .openObject) () rest).bind fun _ rest =>
          (scanMembers fuel true rest).bind fun members rest => ⟨[], .read (.object members) rest⟩
      else if b = openBracket then
        (Scan.token (.delim .openArray) () rest).bind fun _ rest =>
          (scanItems fuel true rest).bind fun items rest => ⟨[], .read (.array items) rest⟩
      else if b = quotationMark then
        (scanString quote rest).bind fun s rest => ⟨[], .read (.string s) rest⟩
      else if b = minus ∨ isDigit b then scanNumber quote (b :: rest)
      else if b = 0x74 then scanName quote (.bool true) "true" rest
      else if b = 0x66 then scanName quote (.bool false) "false" rest
      else if b = 0x6E then scanName quote .null "null" rest
      else .fail (invalidCharacter quote b " looking for beginning of value")

/-- The members of an object and its closing brace, which can stand at once at the start. -/
def scanMembers : Nat → Bool → Bytes → Scan (List (String × Json))
  | 0, _, _ => ⟨[], .ended⟩
  | fuel + 1, start, bytes => .next bytes fun b rest =>
      if start ∧ b = closeBrace then .token (.delim .closeObject) [] rest
      else if b = quotationMark then
        (scanString quote rest).bind fun name rest => .next rest fun c rest =>
          if c = colon then
            (scanValue fuel rest).bind fun v rest => .next rest fun d rest =>
              if d = comma then
                (scanMembers fuel false rest).bind fun more rest =>
                  ⟨[], .read ((name, v) :: more) rest⟩
              else if d = closeBrace then .token (.delim .closeObject) [(name, v)] rest
              else .fail (invalidCharacter quote d " after object key:value pair")
          else .fail (invalidCharacter quote c " after object key")
      else .fail (invalidCharacter quote b
        (if start then "" else " looking for beginning of object key string"))

/-- The items of an array and its closing bracket, which can stand at once at the start. -/
def scanItems : Nat → Bool → Bytes → Scan (List Json)
  | 0, _, _ => ⟨[], .ended⟩
  | fuel + 1, start, bytes => .next bytes fun b rest =>
      if start ∧ b = closeBracket then .token (.delim .closeArray) [] rest
      else
        (scanValue fuel (b :: rest)).bind fun v rest => .next rest fun d rest =>
          if d = comma then
            (scanItems fuel false rest).bind fun more rest => ⟨[], .read (v :: more) rest⟩
          else if d = closeBracket then .token (.delim .closeArray) [v] rest
          else .fail (invalidCharacter quote d " after array element")

end

/-- Fuel for the values of an input. -/
def fuelFor (bytes : Bytes) : Nat := 2 * bytes.length + 2

/-- The tokens of at most the given number of values one after the other. -/
def scanStream : Nat → Bytes → Stream
  | 0, _ => ⟨[], none⟩
  | values + 1, bytes =>
      match scanValue quote (fuelFor bytes) bytes with
      | ⟨tokens, .read _ rest⟩ =>
          ⟨tokens ++ (scanStream values rest).tokens, (scanStream values rest).err⟩
      | ⟨tokens, .ended⟩ => ⟨tokens, none⟩
      | ⟨tokens, .failed err⟩ => ⟨tokens, some err⟩

/-! ## A value has the tokens of its tree -/

section Tokens

variable {α β : Type} {quote : String → String}

theorem Scan.bind_eq_read {s : Scan α} {f : α → Bytes → Scan β} {ts : List Token} {b : β}
    {rest : Bytes} : s.bind f = ⟨ts, .read b rest⟩ ↔
      ∃ first a mid last, s = ⟨first, .read a mid⟩ ∧ f a mid = ⟨last, .read b rest⟩ ∧
        ts = first ++ last := by
  obtain ⟨tokens, outcome⟩ := s
  constructor
  · intro h
    cases outcome with
    | read a mid =>
        rcases hf : f a mid with ⟨last, final⟩
        simp only [Scan.bind, hf, Scan.mk.injEq] at h
        obtain ⟨rfl, rfl⟩ := h
        exact ⟨tokens, a, mid, last, rfl, hf, rfl⟩
    | ended => cases h
    | failed err => cases h
  · rintro ⟨first, a, mid, last, hs, hf, rfl⟩
    cases hs
    simp only [Scan.bind, hf]

theorem Scan.next_eq_read {bytes : Bytes} {f : UInt8 → Bytes → Scan α} {ts : List Token} {a : α}
    {rest : Bytes} (h : Scan.next bytes f = ⟨ts, .read a rest⟩) :
    ∃ b more, skipSpace bytes = b :: more ∧ f b more = ⟨ts, .read a rest⟩ := by
  unfold Scan.next at h
  split at h
  · cases h
  · rename_i b more hskip
    exact ⟨b, more, hskip, h⟩

theorem scan_string_tokens {bytes rest : Bytes} {ts : List Token} {s : String}
    (h : scanString quote bytes = ⟨ts, .read s rest⟩) : ts = [.string s] := by
  unfold scanString at h
  split at h <;> cases h
  rfl

theorem scan_name_tokens {v : Scalar} {name : String} {bytes rest : Bytes} {ts : List Token}
    {doc : Json} (h : scanName quote v name bytes = ⟨ts, .read doc rest⟩) : ts = doc.tokens := by
  unfold scanName at h
  split at h <;> cases h
  rfl

theorem scan_number_tokens {bytes rest : Bytes} {ts : List Token} {doc : Json}
    (h : scanNumber quote bytes = ⟨ts, .read doc rest⟩) : ts = doc.tokens := by
  unfold scanNumber at h
  split at h <;> cases h
  rfl

/-- What was read has its own tokens, and a list of members or items the closing one. -/
theorem scan_tokens (fuel : Nat) :
    (∀ bytes ts v rest, scanValue quote fuel bytes = ⟨ts, .read v rest⟩ → ts = v.tokens) ∧
    (∀ start bytes ts members rest,
      scanMembers quote fuel start bytes = ⟨ts, .read members rest⟩ →
      ts = Json.memberTokens members ++ [.delim .closeObject]) ∧
    (∀ start bytes ts items rest, scanItems quote fuel start bytes = ⟨ts, .read items rest⟩ →
      ts = Json.itemTokens items ++ [.delim .closeArray]) := by
  induction fuel with
  | zero => exact ⟨fun _ _ _ _ h => (nomatch h), fun _ _ _ _ _ h => (nomatch h),
      fun _ _ _ _ _ h => (nomatch h)⟩
  | succ fuel ih =>
      obtain ⟨hvalue, hmembers, hitems⟩ := ih
      refine ⟨fun bytes ts v rest h => ?_, fun start bytes ts members rest h => ?_,
        fun start bytes ts items rest h => ?_⟩
      · rw [scanValue] at h
        obtain ⟨b, more, _, h⟩ := Scan.next_eq_read h
        split_ifs at h
        · obtain ⟨_, _, _, _, hopen, hobject, rfl⟩ := Scan.bind_eq_read.1 h
          obtain ⟨_, _, _, _, hread, hclose, rfl⟩ := Scan.bind_eq_read.1 hobject
          cases hopen
          cases hclose
          rw [hmembers _ _ _ _ _ hread]
          simp [Json.tokens]
        · obtain ⟨_, _, _, _, hopen, harray, rfl⟩ := Scan.bind_eq_read.1 h
          obtain ⟨_, _, _, _, hread, hclose, rfl⟩ := Scan.bind_eq_read.1 harray
          cases hopen
          cases hclose
          rw [hitems _ _ _ _ _ hread]
          simp [Json.tokens]
        · obtain ⟨_, _, _, _, hread, hstring, rfl⟩ := Scan.bind_eq_read.1 h
          cases hstring
          rw [scan_string_tokens hread]
          rfl
        · exact scan_number_tokens h
        · exact scan_name_tokens h
        · exact scan_name_tokens h
        · exact scan_name_tokens h
        · cases h
      · rw [scanMembers] at h
        obtain ⟨b, more, _, h⟩ := Scan.next_eq_read h
        split_ifs at h
        · cases h
          rfl
        · obtain ⟨_, name, _, _, hname, hcolon, rfl⟩ := Scan.bind_eq_read.1 h
          obtain ⟨c, _, _, hcolon⟩ := Scan.next_eq_read hcolon
          rw [scan_string_tokens hname]
          split_ifs at hcolon
          · obtain ⟨_, v, _, _, hv, hend, rfl⟩ := Scan.bind_eq_read.1 hcolon
            obtain ⟨d, _, _, hend⟩ := Scan.next_eq_read hend
            rw [hvalue _ _ _ _ hv]
            split_ifs at hend
            · obtain ⟨_, _, _, _, hmore, hlast, rfl⟩ := Scan.bind_eq_read.1 hend
              cases hlast
              rw [hmembers _ _ _ _ _ hmore]
              simp [Json.memberTokens]
            · cases hend
              simp [Json.memberTokens]
            · cases hend
          · cases hcolon
        · cases h
        · cases h
      · rw [scanItems] at h
        obtain ⟨b, more, _, h⟩ := Scan.next_eq_read h
        split_ifs at h
        · cases h
          rfl
        · obtain ⟨_, v, _, _, hv, hend, rfl⟩ := Scan.bind_eq_read.1 h
          obtain ⟨d, _, _, hend⟩ := Scan.next_eq_read hend
          rw [hvalue _ _ _ _ hv]
          split_ifs at hend
          · obtain ⟨_, _, _, _, hmore, hlast, rfl⟩ := Scan.bind_eq_read.1 hend
            cases hlast
            rw [hitems _ _ _ _ _ hmore]
            simp [Json.itemTokens]
          · cases hend
            simp [Json.itemTokens]
          · cases hend

end Tokens

/-! ## Canonical texts -/

section Canonical

variable {quote : String → String}

/-- The bytes that stand for themselves in a string. -/
def isPlain (b : UInt8) : Bool := 0x20 ≤ b ∧ b < 0x7F ∧ b ≠ quotationMark ∧ b ≠ backslash

theorem cut_string_plain {raw : Bytes} (h : ∀ b ∈ raw, isPlain b) (rest : Bytes) :
    cutString quote (raw ++ quotationMark :: rest) = .ok (raw, rest) := by
  induction raw with
  | nil =>
      rw [List.nil_append, cutString.eq_def]
      exact if_pos rfl
  | cons b more ih =>
      rw [List.forall_mem_cons] at h
      have hplain := h.1
      rw [isPlain, decide_eq_true_iff] at hplain
      obtain ⟨hcontrol, _, hquote, hslash⟩ := hplain
      rw [List.cons_append, cutString.eq_def]
      dsimp only
      rw [if_neg hquote, if_neg hslash, if_neg (UInt8.not_lt.2 hcontrol), ih h.2]
      rfl

theorem unquote_plain {raw : Bytes} (h : ∀ b ∈ raw, isPlain b) :
    unquote raw = String.ofList (raw.map fun b => Char.ofNat b.toNat) := by
  unfold unquote
  congr 1
  induction raw with
  | nil => rfl
  | cons b more ih =>
      rw [List.forall_mem_cons] at h
      have hplain := h.1
      rw [isPlain, decide_eq_true_iff] at hplain
      have hrune : unquoteRune b more = (Char.ofNat b.toNat, more) := by
        have hascii : b < 0x80 := UInt8.lt_trans hplain.2.1 (by decide)
        rw [unquoteRune.eq_def, if_neg hplain.2.2.2, Utf8.decode_rune_ascii hascii]
      rw [List.length_cons, unquoteFrom, hrune, ih h.2, List.map_cons]

/-- A string whose text has no escapes. -/
def Plain (s : String) : Prop := ∀ c ∈ s.toList, c.toNat < 0x7F ∧ isPlain (UInt8.ofNat c.toNat)

instance (s : String) : Decidable (Plain s) :=
  List.decidableBAll _ _

theorem unquote_ascii {s : String} (h : Plain s) : unquote (ascii s) = s := by
  have hbytes : ∀ b ∈ ascii s, isPlain b := by
    intro b hb
    obtain ⟨c, hc, rfl⟩ := List.mem_map.1 hb
    exact (h c hc).2
  rw [unquote_plain hbytes, ascii, List.map_map]
  conv_rhs => rw [← String.ofList_toList (s := s), ← List.map_id s.toList]
  congr 1
  refine List.map_congr_left fun c hc => ?_
  have hsmall := (h c hc).1
  have hbyte : (UInt8.ofNat c.toNat).toNat = c.toNat := by
    rw [UInt8.toNat_ofNat']
    omega
  rw [Function.comp_apply, hbyte, Char.ofNat_toNat]
  rfl

/-- A plain string is quoted as it is. -/
theorem quote_plain (isPrint : Char → Bool) {s : String} (h : Plain s) :
    Text.quote isPrint s = "\"" ++ s ++ "\"" := by
  have hchars : ∀ c ∈ s.toList, quoteRune isPrint c = [c] := by
    intro c hc
    obtain ⟨hsmall, hplain⟩ := h c hc
    have hbyte : (UInt8.ofNat c.toNat).toNat = c.toNat := by
      rw [UInt8.toNat_ofNat']
      omega
    rw [isPlain, decide_eq_true_iff, UInt8.le_iff_toNat_le, hbyte] at hplain
    obtain ⟨hlow, -, hquote, hslash⟩ := hplain
    have hlow' : 0x20 ≤ c.toNat := hlow
    have hquote' : c.toNat ≠ 0x22 := fun heq => hquote (by rw [heq]; rfl)
    have hslash' : c.toNat ≠ 0x5C := fun heq => hslash (by rw [heq]; rfl)
    unfold quoteRune
    rw [if_neg (by omega), if_pos (.inl ⟨hlow', hsmall⟩)]
  rw [Text.quote, List.flatMap_congr hchars, List.flatMap_singleton', String.ofList_toList]

/-- A string with its quotation marks. -/
def stringText (s : String) : Bytes := quotationMark :: (ascii s ++ [quotationMark])

mutual

/-- The text of a document, without white space. -/
def jsonText : Json → Bytes
  | .scalar .null => ascii "null"
  | .scalar (.bool true) => ascii "true"
  | .scalar (.bool false) => ascii "false"
  | .scalar (.number literal) => ascii literal
  | .string s => stringText s
  | .array items => openBracket :: itemsText items
  | .object members => openBrace :: membersText members

/-- The items of an array up to its closing bracket. -/
def itemsText : List Json → Bytes
  | [] => [closeBracket]
  | [v] => jsonText v ++ [closeBracket]
  | v :: next :: rest => jsonText v ++ comma :: itemsText (next :: rest)

/-- The members of an object up to its closing brace. -/
def membersText : List (String × Json) → Bytes
  | [] => [closeBrace]
  | [(name, v)] => stringText name ++ colon :: (jsonText v ++ [closeBrace])
  | (name, v) :: next :: rest =>
      stringText name ++ colon :: (jsonText v ++ comma :: membersText (next :: rest))

end

mutual

/-- A document of objects, plain strings and `null`. -/
def isPlainJson : Json → Bool
  | .scalar .null => true
  | .scalar _ => false
  | .string s => Plain s
  | .array _ => false
  | .object members => arePlainMembers members

/-- `isPlainJson` for the members of an object and their names. -/
def arePlainMembers : List (String × Json) → Bool
  | [] => true
  | (name, v) :: rest => Plain name && isPlainJson v && arePlainMembers rest

end

theorem scan_string_text {s : String} (h : Plain s) (rest : Bytes) :
    scanString quote (ascii s ++ quotationMark :: rest) = .token (.string s) s rest := by
  have hbytes : ∀ b ∈ ascii s, isPlain b := by
    intro b hb
    obtain ⟨c, hc, rfl⟩ := List.mem_map.1 hb
    exact (h c hc).2
  rw [scanString, cut_string_plain hbytes]
  dsimp only
  rw [unquote_ascii h]

theorem next_cons {α : Type} {b : UInt8} (h : isSpace b = false) (rest : Bytes)
    (f : UInt8 → Bytes → Scan α) : Scan.next (b :: rest) f = f b rest := by
  rw [Scan.next, skipSpace, List.dropWhile_cons, h]
  rfl

theorem scan_value_string {s : String} (h : Plain s) (fuel : Nat) (rest : Bytes) :
    scanValue quote (fuel + 1) (stringText s ++ rest) = .token (.string s) (.string s) rest := by
  have hvalue : scanValue quote (fuel + 1) (stringText s ++ rest) =
      (scanString quote (ascii s ++ quotationMark :: rest)).bind
        fun s rest => ⟨[], .read (.string s) rest⟩ := by
    rw [scanValue, stringText, List.cons_append, next_cons rfl]
    simp only [List.append_assoc, List.singleton_append]
    rfl
  rw [hvalue, scan_string_text h]
  rfl

theorem scan_value_null (fuel : Nat) (rest : Bytes) :
    scanValue quote (fuel + 1) (ascii "null" ++ rest) =
      .token (.scalar .null) (.scalar .null) rest := by
  have htext : ascii "null" ++ rest = 0x6E :: 0x75 :: 0x6C :: 0x6C :: rest := rfl
  rw [htext, scanValue, next_cons rfl]
  rfl

/-- One member, and what follows it. -/
theorem scan_member_text {name : String} {v : Json} (hname : Plain name) {text : Bytes} {d : UInt8}
    (hd : isSpace d = false) {fuel : Nat} {rest : Bytes} {ts : List Token}
    (hv : scanValue quote fuel (text ++ d :: rest) = ⟨ts, .read v (d :: rest)⟩) (start : Bool) :
    scanMembers quote (fuel + 1) start (stringText name ++ colon :: (text ++ d :: rest)) =
    (Scan.token (.string name) () []).bind fun _ _ =>
      (⟨ts, .read () []⟩ : Scan Unit).bind fun _ _ =>
        if d = comma then
          (scanMembers quote fuel false rest).bind fun more rest =>
            ⟨[], .read ((name, v) :: more) rest⟩
        else if d = closeBrace then .token (.delim .closeObject) [(name, v)] rest
        else .fail (invalidCharacter quote d " after object key:value pair") := by
  have hstart : ¬(start = true ∧ quotationMark = closeBrace) := fun h => absurd h.2 (by decide)
  rw [scanMembers, stringText, List.cons_append, next_cons rfl, if_neg hstart, if_pos rfl]
  simp only [List.append_assoc, List.singleton_append]
  rw [scan_string_text hname]
  simp only [Scan.token, Scan.bind]
  rw [next_cons rfl, if_pos rfl, hv]
  dsimp only
  rw [next_cons hd]

mutual

/-- A plain document is read as it was written. A step takes a byte at least. -/
theorem scan_json_text : (v : Json) → isPlainJson v = true → {fuel : Nat} →
    (jsonText v).length ≤ fuel → (rest : Bytes) →
    ∃ ts, scanValue quote fuel (jsonText v ++ rest) = ⟨ts, .read v rest⟩
  | .scalar .null, _, fuel, hfuel, rest => by
      obtain ⟨fuel, rfl⟩ : ∃ k, fuel = k + 1 := by
        refine ⟨fuel - 1, ?_⟩
        simp [jsonText, ascii] at hfuel
        omega
      rw [jsonText, scan_value_null]
      exact ⟨_, rfl⟩
  | .scalar (.bool _), h, _, _, _ => by simp [isPlainJson] at h
  | .scalar (.number _), h, _, _, _ => by simp [isPlainJson] at h
  | .array _, h, _, _, _ => by simp [isPlainJson] at h
  | .string s, h, fuel, hfuel, rest => by
      rw [isPlainJson, decide_eq_true_iff] at h
      rw [jsonText, stringText, List.length_cons] at hfuel
      obtain ⟨fuel, rfl⟩ : ∃ k, fuel = k + 1 := ⟨fuel - 1, by omega⟩
      rw [jsonText, scan_value_string h]
      exact ⟨_, rfl⟩
  | .object members, h, fuel, hfuel, rest => by
      rw [isPlainJson] at h
      rw [jsonText, List.length_cons] at hfuel
      obtain ⟨fuel, rfl⟩ : ∃ k, fuel = k + 1 := ⟨fuel - 1, by omega⟩
      obtain ⟨ts, hscan⟩ := scan_members_text members h (by omega : _ ≤ fuel) (.inr rfl) rest
      rw [jsonText, List.cons_append, scanValue, next_cons rfl, if_pos rfl]
      simp only [Scan.token, Scan.bind, hscan]
      exact ⟨_, rfl⟩

/-- The members of a plain object are read as they were written. -/
theorem scan_members_text : (members : List (String × Json)) → arePlainMembers members = true →
    {fuel : Nat} → (membersText members).length ≤ fuel → {start : Bool} →
    (members ≠ [] ∨ start = true) → (rest : Bytes) →
    ∃ ts, scanMembers quote fuel start (membersText members ++ rest) = ⟨ts, .read members rest⟩
  | [], _, fuel, hfuel, start, hstart, rest => by
      rw [membersText, List.length_singleton] at hfuel
      obtain ⟨fuel, rfl⟩ : ∃ k, fuel = k + 1 := ⟨fuel - 1, by omega⟩
      have hat : start = true ∧ closeBrace = closeBrace :=
        ⟨hstart.resolve_left fun hne => hne rfl, rfl⟩
      rw [membersText, List.singleton_append, scanMembers, next_cons rfl, if_pos hat]
      exact ⟨_, rfl⟩
  | [(name, v)], h, fuel, hfuel, start, _, rest => by
      simp only [arePlainMembers, Bool.and_eq_true, decide_eq_true_iff] at h
      simp only [membersText, stringText, List.length_append, List.length_cons] at hfuel
      obtain ⟨fuel, rfl⟩ : ∃ k, fuel = k + 1 := ⟨fuel - 1, by omega⟩
      obtain ⟨ts, hv⟩ := scan_json_text v h.1.2 (by omega : _ ≤ fuel) (closeBrace :: rest)
      have htext : membersText [(name, v)] ++ rest =
          stringText name ++ colon :: (jsonText v ++ closeBrace :: rest) := by
        simp [membersText]
      rw [htext, scan_member_text h.1.1 rfl hv]
      exact ⟨_, rfl⟩
  | (name, v) :: next :: others, h, fuel, hfuel, start, _, rest => by
      rw [arePlainMembers, Bool.and_eq_true, Bool.and_eq_true, decide_eq_true_iff] at h
      simp only [membersText, stringText, List.length_append, List.length_cons] at hfuel
      obtain ⟨fuel, rfl⟩ : ∃ k, fuel = k + 1 := ⟨fuel - 1, by omega⟩
      have htext : membersText ((name, v) :: next :: others) ++ rest =
          stringText name ++ colon :: (jsonText v ++
            comma :: (membersText (next :: others) ++ rest)) := by
        simp [membersText]
      obtain ⟨ts, hv⟩ := scan_json_text v h.1.2 (by omega : _ ≤ fuel)
        (comma :: (membersText (next :: others) ++ rest))
      have hne : next :: others ≠ [] ∨ false = true := .inl (List.cons_ne_nil _ _)
      obtain ⟨ts', hscan⟩ := scan_members_text (next :: others) h.2 (by omega : _ ≤ fuel) hne rest
      rw [htext, scan_member_text h.1.1 rfl hv, if_pos rfl, hscan]
      exact ⟨_, rfl⟩

end

end Canonical

end Text

/-- What `encoding/json` makes of some bytes: the tokens a decoder returns for them, and the value
if they are the text of one. -/
structure Document where
  stream : Stream
  value : Option Json

namespace Document

/-- Reads bytes. -/
def read (quote : String → String) (data : Bytes) : Document where
  stream := Text.scanStream quote (data.length + 1) data
  value :=
    match (Text.scanValue quote (Text.fuelFor data) data).outcome with
    | .read v rest => if Text.skipSpace rest = [] then some v else none
    | _ => none

/-- The text of a value, as a `json.RawMessage` holds it. -/
def ofJson (v : Json) : Document := ⟨⟨v.tokens, none⟩, some v⟩

/-- Bytes that are the text of a value have its tokens. -/
theorem read_eq_of_json {quote : String → String} {data : Bytes} {v : Json}
    (h : (read quote data).value = some v) : read quote data = ofJson v := by
  have hstream : (read quote data).stream = ⟨v.tokens, none⟩ := by
    unfold read at h ⊢
    dsimp only at h ⊢
    rw [Text.scanStream]
    rcases hscan : Text.scanValue quote (Text.fuelFor data) data with ⟨ts, outcome⟩
    rw [hscan] at h
    cases outcome with
    | ended => cases h
    | failed err => cases h
    | read doc rest =>
        dsimp only at h ⊢
        split at h
        · rename_i hspace
          cases h
          rw [(Text.scan_tokens _).1 _ _ _ _ hscan]
          have hend : Text.scanStream quote data.length rest = ⟨[], none⟩ := by
            cases data.length with
            | zero => rfl
            | succ n =>
                have hvalue : Text.scanValue quote (Text.fuelFor rest) rest = ⟨[], .ended⟩ := by
                  rw [Text.fuelFor, Text.scanValue, Text.Scan.next, hspace]
                rw [Text.scanStream, hvalue]
          rw [hend, List.append_nil]
        · cases h
  rw [ofJson, ← hstream, ← h]

/-- The text of a plain document is read as the document. -/
theorem read_json_text (quote : String → String) {v : Json} (h : Text.isPlainJson v = true) :
    read quote (Text.jsonText v) = ofJson v := by
  refine read_eq_of_json ?_
  have hfuel : (Text.jsonText v).length ≤ Text.fuelFor (Text.jsonText v) := by
    rw [Text.fuelFor]
    omega
  obtain ⟨ts, hscan⟩ : ∃ ts, Text.scanValue quote _ (Text.jsonText v ++ []) = ⟨ts, .read v []⟩ :=
    Text.scan_json_text v h hfuel []
  rw [List.append_nil] at hscan
  simp only [read, hscan]
  rfl

end Document

end AcmeServer.Jws
