import AcmeServer.Name.TNAuthList
import AcmeServer.Url.Basic

/-!
# Identifier syntax

The normalization of identifiers of `identifier.go`. What it uses of other packages is collected in
`Platform`: the IP address parser, the IDNA profile, the Unicode case table and the host syntax of
URLs, each with the part of its documentation that the results rest on.

`normalize_dns_eq_ok` describes the DNS names that are accepted. `normalize_idempotent_iff` says
for which identifiers the normal form is its own normal form.
-/

namespace AcmeServer.Name

/-! ## IP addresses -/

/-- A `netip.Addr`. An IPv6 address may have a zone. -/
inductive Addr where
  | v4 (bytes : { b : Bytes // b.length = 4 })
  | v6 (bytes : { b : Bytes // b.length = 16 }) (zone : String)
deriving DecidableEq

namespace Addr

def zone : Addr → String
  | .v4 _ => ""
  | .v6 _ zone => zone

/-- The first bytes of an IPv4-mapped IPv6 address. -/
def v4InV6Prefix : Bytes := [0, 0, 0, 0, 0, 0, 0, 0, 0, 0, 0xff, 0xff]

/-- Whether the address is an IPv4-mapped IPv6 address. -/
def is4In6 : Addr → Bool
  | .v4 _ => false
  | .v6 bytes _ => bytes.val.take 12 == v4InV6Prefix

def isUnspecified : Addr → Bool
  | .v4 bytes => bytes.val == List.replicate 4 0
  | .v6 bytes zone => bytes.val == List.replicate 16 0 && zone == ""

/-- Whether the address is a multicast address, for one that is not IPv4-mapped. -/
def isMulticast : Addr → Bool
  | .v4 bytes => bytes.val.head?.any fun b => b &&& 0xf0 == 0xe0
  | .v6 bytes _ => bytes.val.head? == some 0xff

/-- The IPv4 address of an IPv4-mapped one, and every other address itself. -/
def unmap : Addr → Addr
  | .v4 bytes => .v4 bytes
  | .v6 bytes zone =>
      if bytes.val.take 12 == v4InV6Prefix then
        .v4 ⟨bytes.val.drop 12, by rw [List.length_drop, bytes.property]⟩
      else .v6 bytes zone

/-- `netip.AddrFromSlice`. -/
def fromSlice (bytes : Bytes) : Option Addr :=
  if h : bytes.length = 4 then some (.v4 ⟨bytes, h⟩)
  else if h : bytes.length = 16 then some (.v6 ⟨bytes, h⟩ "")
  else none

end Addr

/-! ## The functions of other packages -/

/-- What the identifier code uses of other packages. `lower` is `unicode.ToLower`, in which only
two characters outside ASCII have one of ASCII as their lower case. `quote` is the quoting of the
`%q` verb. -/
structure Platform where
  hosts : Url.Hosts
  lower : Char → Char
  lower_ascii : ∀ {c : Char}, c.toNat < 128 → lower c = c.toLower
  lower_other : ∀ {c : Char}, 128 ≤ c.toNat →
    128 ≤ (lower c).toNat ∨ lower c = 'i' ∨ lower c = 'k'
  parseAddr : String → Option Addr
  addrText : Addr → String
  parse_empty : parseAddr "" = none
  parse_addr_text : ∀ {a : Addr}, a.zone = "" → parseAddr (addrText a) = some a
  toUnicode : String → Option String
  toASCII : String → Option String
  quote : String → String

namespace Platform

variable (p : Platform)

/-- `strings.ToLower`. -/
def toLower (s : String) : String := String.ofList (s.toList.map p.lower)

/-! ## Normal forms -/

/-- The URI prefix that carries an NfInstanceId in a certificate. -/
def nfInstanceURNPrefix : String := "urn:uuid:"

/-- Whether a character of a lower-case UUID is allowed at its place. -/
def uuidChar (i : Nat) (c : Char) : Bool :=
  if i = 8 ∨ i = 13 ∨ i = 18 ∨ i = 23 then c == '-'
  else '0' ≤ c && c ≤ '9' || 'a' ≤ c && c ≤ 'f'

/-- Lowercases a UUID in the 8-4-4-4-12 hexadecimal form. Only the form is checked. The nil UUID
names no instance and is refused. -/
def normalizeNfInstanceID (value : String) : Except Problem Identifier :=
  let id : Identifier := ⟨.nfInstanceID, value⟩
  if value = "" then .error (newProblem .malformed "NfInstanceId identifier value is empty")
  else if value.utf8ByteSize ≠ 36 then
    .error (rejected id "NfInstanceId identifier is not a UUID")
  else
    let lower := p.toLower value
    if ¬lower.toList.zipIdx.all fun (c, i) => uuidChar i c then
      .error (rejected id "NfInstanceId identifier is not a UUID")
    else if lower.toList.all fun c => c == '0' || c == '-' then
      .error (rejected id "NfInstanceId identifier is the nil UUID")
    else .ok ⟨.nfInstanceID, lower⟩

/-- Bounds the length of a uri identifier. -/
def maxURILength : Nat := 2048

/-- Checks an absolute https URI without user information or a fragment and returns it with the
scheme and host in lower case, the form crypto/x509 reads back from a certificate. -/
def normalizeURI (value : String) : Except Problem Identifier :=
  let id : Identifier := ⟨.uri, value⟩
  if value = "" then .error (newProblem .malformed "uri identifier value is empty")
  else if value.utf8ByteSize > maxURILength then
    .error (rejected id "uri identifier exceeds 2048 characters")
  else if value.toList.any fun c => c ≤ ' ' || c ≥ '\x7f' then
    .error (rejected id "uri identifier must be ASCII without spaces or control characters")
  else match p.hosts.parse value.toList with
    | none =>
        .error (rejected id ("uri identifier must be an absolute https URI without user " ++
          "information or a fragment"))
    | some u =>
        if u.scheme ≠ "https".toList ∨ u.host = [] ∨ u.user ∨ u.fragment ≠ [] ∨
            u.rootless ≠ [] then
          .error (rejected id ("uri identifier must be an absolute https URI without user " ++
            "information or a fragment"))
        else .ok ⟨.uri, String.ofList (u.lowerHost p.hosts).string⟩

/-- Returns the identifier a certificate URI name stands for: an NfInstanceId for urn:uuid and a uri
identifier for an https URI. -/
def uriNameIdentifier (name : String) : Except Problem Identifier :=
  if name.utf8ByteSize > nfInstanceURNPrefix.utf8ByteSize ∧
      (name.toList.take nfInstanceURNPrefix.length).map Char.toLower =
        nfInstanceURNPrefix.toList then
    p.normalizeNfInstanceID (String.ofList (name.toList.drop nfInstanceURNPrefix.length))
  else p.normalizeURI name

/-- Reports whether a label decodes as Punycode to a name the IDNA2008 registration rules allow and
encodes back to the same label. -/
def validALabel (label : String) : Bool :=
  match p.toUnicode label with
  | none => false
  | some uLabel => p.toASCII uLabel == some label

def maxDNSNameLength : Nat := 253
def maxDNSLabelLength : Nat := 63

/-- Returns why a lowercase label is not a valid host name label. A label starting with xn-- must be
a properly encoded A-label. -/
def checkDNSLabel (label : String) : Option String :=
  if label = "" then some "dns identifier contains an empty label"
  else if label.utf8ByteSize > maxDNSLabelLength then
    some "dns identifier label exceeds 63 characters"
  else if label.toList.head? = some '-' ∨ label.toList.getLast? = some '-' then
    some "dns identifier label starts or ends with a hyphen"
  else if label.toList.any fun c =>
      (c < 'a' || c > 'z') && (c < '0' || c > '9') && c != '-' then
    some "dns identifier contains a character outside letters, digits and hyphens"
  else if "xn--".toList.isPrefixOf label.toList ∧ ¬p.validALabel label then
    some ("dns identifier label " ++ label ++ " is not a valid A-label")
  else none

/-- `strings.TrimPrefix(name, "*.")`. -/
def trimWildcard (name : List Char) : List Char :=
  if "*.".toList.isPrefixOf name then name.drop 2 else name

/-- Lowercases a DNS name and checks RFC 1123 host name syntax and the RFC 8555 wildcard rule. -/
def normalizeDNS (value : String) : Except Problem Identifier :=
  let id : Identifier := ⟨.dns, value⟩
  if value = "" then .error (newProblem .malformed "dns identifier value is empty")
  else if value.toList.any fun c => c.toNat ≥ 0x80 then
    .error (rejected id ("dns identifier must use ASCII labels; encode internationalized names " ++
      "as A-labels"))
  else
    let name := p.toLower value
    if name.utf8ByteSize > maxDNSNameLength then
      .error (rejected id "dns identifier exceeds 253 characters")
    else
      let base := trimWildcard name.toList
      if '*' ∈ base then
        .error (rejected id "wildcard is only allowed as the complete leftmost label")
      else if base = [] then .error (rejected id "dns identifier has no labels")
      else if (p.parseAddr (String.ofList base)).isSome then
        .error (rejected id "IP addresses use the ip identifier type")
      else match ((base.splitOn '.').map String.ofList).findSome? p.checkDNSLabel with
        | some reason => .error (rejected id reason)
        | none => .ok ⟨.dns, name⟩

/-- Parses an IP address and returns its RFC 5952 textual form. -/
def normalizeIP (value : String) : Except Problem Identifier :=
  let id : Identifier := ⟨.ip, value⟩
  if value = "" then .error (newProblem .malformed "ip identifier value is empty")
  else match p.parseAddr value with
    | none => .error (rejected id "ip identifier is not a valid IP address")
    | some addr =>
        if addr.zone ≠ "" then .error (rejected id "ip identifier must not carry a zone")
        else if addr.is4In6 then
          .error (rejected id "IPv4-mapped IPv6 addresses must be given in IPv4 form")
        else if addr.isUnspecified ∨ addr.isMulticast then
          .error (rejected id "unspecified and multicast addresses cannot be issued")
        else .ok ⟨.ip, p.addrText addr⟩

/-- Validates the identifier syntax and returns its canonical form. -/
def normalize (id : Identifier) : Except Problem Identifier :=
  match id.type with
  | .dns => p.normalizeDNS id.value
  | .ip => p.normalizeIP id.value
  | .tnAuthList => normalizeTNAuthList id.value
  | .nfInstanceID => p.normalizeNfInstanceID id.value
  | .uri => p.normalizeURI id.value
  | .other name =>
      .error (newProblem .unsupportedIdentifier
        ("identifier type " ++ p.quote name ++ " is not supported"))

end Platform

/-! ## ASCII text -/

/-- The text in lower case, where only letters of ASCII change. -/
def asciiLower (s : String) : String := String.ofList (s.toList.map Char.toLower)

/-- A text of ASCII characters has one byte for each. -/
theorem size_of_ascii {l : List Char} (h : ∀ c ∈ l, c.toNat < 128) :
    (String.ofList l).utf8ByteSize = l.length := by
  induction l with
  | nil => rfl
  | cons c l ih =>
      rw [List.forall_mem_cons] at h
      have hc : c.utf8Size = 1 := Char.utf8Size_eq_one_iff.2 (by
        rw [UInt32.le_iff_toNat_le]
        exact Nat.le_of_lt_succ h.1)
      rw [String.ofList_cons, String.utf8ByteSize_append, String.utf8ByteSize_singleton, hc,
        ih h.2, List.length_cons, Nat.add_comm]

theorem toNat_lower_lt {c : Char} : c.toLower.toNat < 128 ↔ c.toNat < 128 := by
  by_cases h : c.toNat < 128
  · have hall : ∀ n < 128, (Char.ofNat n).toLower.toNat < 128 := by decide +kernel
    have hchar := hall c.toNat h
    rw [Char.ofNat_toNat] at hchar
    exact ⟨fun _ => h, fun _ => hchar⟩
  · have hupper : ¬(c.val ≥ 'A'.val ∧ c.val ≤ 'Z'.val) := by
      rintro ⟨-, hZ⟩
      rw [UInt32.le_iff_toNat_le] at hZ
      exact h (lt_of_le_of_lt hZ (by decide))
    have hsame : c.toLower = c := dif_neg hupper
    rw [hsame]

/-- Lower case is reached in one step. -/
theorem lower_lower {c : Char} (h : c.toNat < 128) : c.toLower.toLower = c.toLower := by
  have hall : ∀ n < 128, (Char.ofNat n).toLower.toLower = (Char.ofNat n).toLower := by
    decide +kernel
  have hchar := hall c.toNat h
  rwa [Char.ofNat_toNat] at hchar

namespace Platform

variable {p : Platform}

/-- In ASCII text, lower case is that of ASCII. -/
theorem to_lower_of_ascii {s : String} (h : ∀ c ∈ s.toList, c.toNat < 128) :
    p.toLower s = asciiLower s := by
  rw [toLower, asciiLower, List.map_congr_left fun c hc => p.lower_ascii (h c hc)]

/-! ## DNS names -/

/-- The characters of a label. -/
def labelChar (c : Char) : Bool := 'a' ≤ c && c ≤ 'z' || '0' ≤ c && c ≤ '9' || c == '-'

/-- A label of a host name in lower case. -/
structure ValidLabel (p : Platform) (label : String) : Prop where
  pos : 1 ≤ label.length
  le_max : label.length ≤ 63
  chars : ∀ c ∈ label.toList, labelChar c
  first : label.toList.head? ≠ some '-'
  last : label.toList.getLast? ≠ some '-'
  aLabel : "xn--".toList <+: label.toList → p.validALabel label

/-- Labels with dots between them. -/
def dotted (labels : List String) : List Char := ['.'].intercalate (labels.map String.toList)

theorem label_char_ascii {c : Char} (h : labelChar c) : c.toNat < 128 := by
  simp only [labelChar, Bool.or_eq_true, Bool.and_eq_true, decide_eq_true_eq, beq_iff_eq,
    Char.le_def, UInt32.le_iff_toNat_le] at h
  have hz : 'z'.val.toNat = 122 := rfl
  have h9 : '9'.val.toNat = 57 := rfl
  have hc : c.toNat = c.val.toNat := rfl
  rcases h with (h | h) | rfl
  · omega
  · omega
  · decide

theorem not_label_char {c : Char} :
    ((c < 'a' || c > 'z') && (c < '0' || c > '9') && c != '-') = !labelChar c := by
  have hnot (a b : Char) : decide (a < b) = !decide (b ≤ a) := by
    by_cases h : a < b
    · rw [decide_eq_true h, decide_eq_false (Char.not_le.2 h), Bool.not_false]
    · rw [decide_eq_false h, decide_eq_true (Char.not_lt.1 h), Bool.not_true]
  simp only [labelChar, Bool.not_or, Bool.not_and, hnot, gt_iff_lt, bne]

/-- The check finds no fault with exactly the valid labels. -/
theorem check_dns_label_none {label : String} :
    p.checkDNSLabel label = none ↔ p.ValidLabel label := by
  have hsize (h : ∀ c ∈ label.toList, labelChar c) : label.utf8ByteSize = label.length := by
    have hascii := size_of_ascii fun c hc => label_char_ascii (h c hc)
    rwa [String.ofList_toList] at hascii
  have hguard {c : Prop} [Decidable c] {reason : String} {x : Option String} :
      (if c then some reason else x) = none ↔ ¬c ∧ x = none := by
    by_cases hc : c <;> simp [hc]
  simp only [checkDNSLabel, hguard, not_label_char, List.any_eq_true, not_exists, not_and,
    Bool.not_eq_true', Bool.not_eq_false, not_lt, not_or, maxDNSLabelLength, and_true, not_not,
    List.isPrefixOf_iff_prefix]
  constructor
  · rintro ⟨hne, hmax, ⟨hfirst, hlast⟩, hchars, halabel⟩
    have hlength := hsize hchars
    refine ⟨?_, by omega, hchars, hfirst, hlast, halabel⟩
    by_contra hzero
    exact hne (by simpa using hzero)
  · rintro ⟨hpos, hmax, hchars, hfirst, hlast, halabel⟩
    refine ⟨?_, by rw [hsize hchars]; exact hmax, ⟨hfirst, hlast⟩, hchars, halabel⟩
    rintro rfl
    exact absurd hpos (by decide)

/-- A list of labels is read back from its dotted form. -/
theorem split_dotted {labels : List String} (hne : labels ≠ [])
    (h : ∀ label ∈ labels, p.ValidLabel label) :
    ((dotted labels).splitOn '.').map String.ofList = labels := by
  rw [dotted, List.splitOn_intercalate, List.map_map]
  · exact (List.map_congr_left fun l _ => String.ofList_toList).trans (List.map_id _)
  · intro l hl hdot
    obtain ⟨label, hlabel, rfl⟩ := List.mem_map.1 hl
    exact absurd ((h label hlabel).chars '.' hdot) (by decide)
  · simpa using hne

/-- The characters of dotted labels. -/
theorem mem_dotted {labels : List String} (h : ∀ label ∈ labels, p.ValidLabel label) {c : Char}
    (hc : c ∈ dotted labels) : labelChar c ∨ c = '.' := by
  induction labels with
  | nil => cases hc
  | cons label labels ih =>
      rw [List.forall_mem_cons] at h
      cases labels with
      | nil =>
          rw [dotted, List.map_singleton, List.intercalate_singleton] at hc
          exact .inl (h.1.chars c hc)
      | cons label' labels =>
          rw [dotted, List.map_cons, List.map_cons, List.intercalate_cons_cons, List.mem_append,
            List.mem_append, List.mem_singleton] at hc
          rcases hc with (hc | hc) | hc
          · exact .inl (h.1.chars c hc)
          · exact .inr hc
          · exact ih h.2 hc

theorem dotted_ne_nil {labels : List String} (hne : labels ≠ [])
    (h : ∀ label ∈ labels, p.ValidLabel label) : dotted labels ≠ [] := by
  intro hnil
  have hsplit := split_dotted hne h
  rw [hnil] at hsplit
  subst hsplit
  exact absurd (h "" List.mem_cons_self).pos (by decide)

theorem dotted_split (base : List Char) :
    dotted ((base.splitOn '.').map String.ofList) = base := by
  rw [dotted, List.map_map]
  have hid : (String.toList ∘ String.ofList) = id := funext fun l => String.toList_ofList
  rw [hid, List.map_id, List.intercalate_splitOn]

/-- A name is its wildcard prefix, if it has one, and the rest. -/
theorem wildcard_append_trim (name : List Char) :
    name = (if "*.".toList.isPrefixOf name then ['*', '.'] else []) ++ trimWildcard name := by
  unfold trimWildcard
  split
  · next hstem =>
      obtain ⟨rest, rfl⟩ := List.isPrefixOf_iff_prefix.1 hstem
      rfl
  · rfl

/-- The checks that a DNS name must pass, one by one. -/
theorem normalize_dns_checks {value : String} {id : Identifier} :
    p.normalizeDNS value = .ok id ↔
      value ≠ "" ∧ (∀ c ∈ value.toList, c.toNat < 128) ∧ (asciiLower value).utf8ByteSize ≤ 253 ∧
        '*' ∉ trimWildcard (asciiLower value).toList ∧ trimWildcard (asciiLower value).toList ≠ [] ∧
        p.parseAddr (String.ofList (trimWildcard (asciiLower value).toList)) = none ∧
        (∀ label ∈ ((trimWildcard (asciiLower value).toList).splitOn '.').map String.ofList,
          p.ValidLabel label) ∧
        id = ⟨.dns, asciiLower value⟩ := by
  unfold normalizeDNS
  rw [Fallible.guard_eq_ok, Fallible.guard_eq_ok]
  refine and_congr_right fun _ => ?_
  have hascii : (¬(value.toList.any fun c => c.toNat ≥ 0x80) = true) ↔
      ∀ c ∈ value.toList, c.toNat < 128 := by
    simp
  rw [hascii]
  refine and_congr_right fun hall => ?_
  simp only [to_lower_of_ascii hall]
  rw [Fallible.guard_eq_ok, Fallible.guard_eq_ok, Fallible.guard_eq_ok, Fallible.guard_eq_ok]
  simp only [maxDNSNameLength, not_lt, Option.not_isSome_iff_eq_none]
  refine and_congr_right fun _ => and_congr_right fun _ => and_congr_right fun _ =>
    and_congr_right fun _ => ?_
  split
  · next reason hreason =>
      obtain ⟨label, hlabel, hcheck⟩ := List.exists_of_findSome?_eq_some hreason
      refine ⟨nofun, fun ⟨hvalid, _⟩ => ?_⟩
      rw [check_dns_label_none.2 (hvalid label hlabel)] at hcheck
      cases hcheck
  · next hnone =>
      rw [List.findSome?_eq_none_iff] at hnone
      refine ⟨fun h => ?_, fun ⟨_, h⟩ => by rw [h]⟩
      cases h
      exact ⟨fun label hlabel => check_dns_label_none.1 (hnone label hlabel), rfl⟩

/-- A DNS name is accepted exactly when its lower-case form is an optional wildcard prefix and a
dotted list of valid labels that is not an IP address, in at most 253 bytes of ASCII. The result is
the lower-case form, and it is a wildcard exactly when it has the prefix. -/
theorem normalize_dns_eq_ok {value : String} {id : Identifier} :
    p.normalizeDNS value = .ok id ↔
      id = ⟨.dns, asciiLower value⟩ ∧ (asciiLower value).utf8ByteSize ≤ 253 ∧
        (∀ c ∈ (asciiLower value).toList, c.toNat < 128) ∧
        ∃ (wildcard : Bool) (labels : List String), labels ≠ [] ∧
          (∀ label ∈ labels, p.ValidLabel label) ∧
          (asciiLower value).toList = (if wildcard then ['*', '.'] else []) ++ dotted labels ∧
          p.parseAddr (String.ofList (dotted labels)) = none ∧ id.isWildcard = wildcard := by
  have hascii : (∀ c ∈ (asciiLower value).toList, c.toNat < 128) ↔
      ∀ c ∈ value.toList, c.toNat < 128 := by
    simp [asciiLower, toNat_lower_lt]
  rw [normalize_dns_checks, hascii]
  constructor
  · rintro ⟨-, hall, hmax, -, hbase, haddr, hvalid, rfl⟩
    have hdotted := dotted_split (trimWildcard (asciiLower value).toList)
    generalize ((trimWildcard (asciiLower value).toList).splitOn '.').map String.ofList = labels
      at hdotted hvalid
    refine ⟨rfl, hmax, hall, "*.".toList.isPrefixOf (asciiLower value).toList, labels, ?_, hvalid,
      ?_, ?_, ?_⟩
    · intro hnil
      rw [hnil] at hdotted
      exact hbase hdotted.symm
    · rw [hdotted]
      exact wildcard_append_trim _
    · rw [hdotted]
      exact haddr
    · simp [Identifier.isWildcard]
  · rintro ⟨rfl, hmax, hall, wildcard, labels, hne, hvalid, hname, haddr, hwildcard⟩
    have hdotted := dotted_ne_nil hne hvalid
    have htrim : trimWildcard (asciiLower value).toList = dotted labels := by
      have hstem : "*.".toList.isPrefixOf (asciiLower value).toList = wildcard := by
        simpa [Identifier.isWildcard] using hwildcard
      unfold trimWildcard
      rw [hstem, hname]
      cases wildcard <;> rfl
    rw [htrim, split_dotted hne hvalid]
    refine ⟨?_, hall, hmax, ?_, hdotted, haddr, hvalid, rfl⟩
    · rintro rfl
      exact hdotted (List.append_eq_nil_iff.1 hname.symm).2
    · intro hstar
      rcases mem_dotted hvalid hstar with hchar | heq
      · exact absurd hchar (by decide)
      · exact absurd heq (by decide)

/-! ## Normal forms of normal forms -/

theorem ascii_lower_lower {s : String} (h : ∀ c ∈ s.toList, c.toNat < 128) :
    asciiLower (asciiLower s) = asciiLower s := by
  rw [asciiLower, asciiLower, String.toList_ofList, List.map_map]
  exact congrArg _ (List.map_congr_left fun c hc => lower_lower (h c hc))

theorem ascii_lower_ascii {s : String} :
    (∀ c ∈ (asciiLower s).toList, c.toNat < 128) ↔ ∀ c ∈ s.toList, c.toNat < 128 := by
  simp [asciiLower, toNat_lower_lt]

/-- A normalized DNS name is its own normal form. -/
theorem normalize_dns_normalized {value : String} {id : Identifier}
    (h : p.normalizeDNS value = .ok id) : id.type = .dns ∧ p.normalizeDNS id.value = .ok id := by
  obtain ⟨hne, hall, hmax, hstar, hbase, haddr, hvalid, rfl⟩ := normalize_dns_checks.1 h
  refine ⟨rfl, normalize_dns_checks.2 ?_⟩
  rw [ascii_lower_lower hall]
  refine ⟨?_, ascii_lower_ascii.2 hall, hmax, hstar, hbase, haddr, hvalid, rfl⟩
  intro (hempty : asciiLower value = "")
  rw [hempty] at hbase
  exact hbase rfl

/-- What is left of a normalized wildcard name without its prefix is a normalized name, and not a
wildcard one. -/
theorem normalize_dns_base {value : String} {id : Identifier} {base : List Char}
    (h : p.normalizeDNS value = .ok id) (hwild : id.value.toList = '*' :: '.' :: base) :
    p.normalizeDNS (String.ofList base) = .ok ⟨.dns, String.ofList base⟩ ∧ '*' ∉ base := by
  obtain ⟨-, hall, hmax, hstar, hbase, haddr, hvalid, rfl⟩ := normalize_dns_checks.1 h
  have hlower := ascii_lower_lower hall
  rw [← ascii_lower_ascii] at hall
  generalize asciiLower value = name at hwild hlower hall hmax hstar hbase haddr hvalid
  have hname : name = String.ofList ('*' :: '.' :: base) := by
    rw [← hwild, String.ofList_toList]
  subst hname
  rw [String.toList_ofList] at hall hstar hbase haddr hvalid
  change '*' ∉ base at hstar
  -- Without a star the rest has no prefix to be cut off.
  have htrim : trimWildcard base = base := by
    unfold trimWildcard
    refine if_neg fun hstem => hstar ?_
    obtain ⟨rest, rfl⟩ := List.isPrefixOf_iff_prefix.1 hstem
    exact List.mem_cons_self
  have hkept : asciiLower (String.ofList base) = String.ofList base := by
    rw [asciiLower, String.toList_ofList, String.ofList_inj, List.map_cons, List.map_cons] at hlower
    rw [asciiLower, String.toList_ofList, (List.cons.inj (List.cons.inj hlower).2).2]
  refine ⟨normalize_dns_checks.2 ?_, hstar⟩
  rw [hkept, String.toList_ofList, htrim]
  refine ⟨?_, fun c hc => hall c (by simp [hc]), ?_, hstar, hbase, haddr, hvalid, rfl⟩
  · rw [ne_eq, String.ofList_eq_empty_iff]
    exact hbase
  · rw [size_of_ascii hall, List.length_cons, List.length_cons] at hmax
    rw [size_of_ascii fun c hc => hall c (by simp [hc])]
    omega

theorem normalize_ip_ok {value : String} {id : Identifier} :
    p.normalizeIP value = .ok id ↔
      value ≠ "" ∧ ∃ addr, p.parseAddr value = some addr ∧ addr.zone = "" ∧ ¬addr.is4In6 ∧
        ¬(addr.isUnspecified ∨ addr.isMulticast) ∧ id = ⟨.ip, p.addrText addr⟩ := by
  unfold normalizeIP
  rw [Fallible.guard_eq_ok]
  refine and_congr_right fun _ => ?_
  cases hparse : p.parseAddr value with
  | none => exact ⟨nofun, fun ⟨_, h, _⟩ => nomatch h⟩
  | some addr =>
      simp only [Fallible.guard_eq_ok, Option.some.injEq, exists_eq_left', ne_eq, not_not,
        Except.ok.injEq]
      rw [eq_comm (a := id)]

/-- A normalized IP address is its own normal form. -/
theorem normalize_ip_normalized {value : String} {id : Identifier}
    (h : p.normalizeIP value = .ok id) : id.type = .ip ∧ p.normalizeIP id.value = .ok id := by
  obtain ⟨-, addr, -, hzone, hmapped, hspecial, rfl⟩ := normalize_ip_ok.1 h
  refine ⟨rfl, normalize_ip_ok.2 ⟨?_, addr, p.parse_addr_text hzone, hzone, hmapped, hspecial, rfl⟩⟩
  intro (hempty : p.addrText addr = "")
  have hparse := p.parse_addr_text hzone
  rw [hempty, p.parse_empty] at hparse
  cases hparse

theorem normalize_nf_instance_ok {value : String} {id : Identifier} :
    p.normalizeNfInstanceID value = .ok id ↔
      value ≠ "" ∧ value.utf8ByteSize = 36 ∧
        ((p.toLower value).toList.zipIdx.all fun (c, i) => uuidChar i c) ∧
        ¬((p.toLower value).toList.all fun c => c == '0' || c == '-') ∧
        id = ⟨.nfInstanceID, p.toLower value⟩ := by
  unfold normalizeNfInstanceID
  simp only [Fallible.guard_eq_ok, ne_eq, not_not, Except.ok.injEq]
  rw [eq_comm (a := id)]

/-- The characters of a UUID are ASCII. -/
theorem uuid_char_ascii {i : Nat} {c : Char} (h : uuidChar i c) :
    c.toNat < 128 ∧ c ≠ 'i' ∧ c ≠ 'k' := by
  unfold uuidChar at h
  split at h
  · rw [beq_iff_eq.1 h]
    decide
  · simp only [Bool.or_eq_true, Bool.and_eq_true, decide_eq_true_eq, Char.le_def,
      UInt32.le_iff_toNat_le] at h
    have hf : 'f'.val.toNat = 102 := rfl
    have h9 : '9'.val.toNat = 57 := rfl
    have hc : c.toNat = c.val.toNat := rfl
    refine ⟨by omega, ?_, ?_⟩
    · rintro rfl
      exact absurd h (by decide)
    · rintro rfl
      exact absurd h (by decide)

/-- The characters of a value with a UUID as its lower case are ASCII. -/
theorem ascii_of_uuid {value : String}
    (h : (p.toLower value).toList.zipIdx.all fun (c, i) => uuidChar i c) :
    ∀ c ∈ value.toList, c.toNat < 128 := by
  intro c hc
  by_contra hother
  obtain ⟨i, hi⟩ := List.mem_iff_getElem?.1 hc
  have hlower : (p.toLower value).toList[i]? = some (p.lower c) := by
    rw [toLower, String.toList_ofList, List.getElem?_map, hi, Option.map_some]
  have hchar := List.all_eq_true.1 h (p.lower c, i) (List.mk_mem_zipIdx_iff_getElem?.2 hlower)
  obtain ⟨hascii, hi, hk⟩ := uuid_char_ascii hchar
  rcases p.lower_other (not_lt.1 hother) with h | h | h
  · omega
  · exact hi h
  · exact hk h

/-- A normalized instance ID is its own normal form. -/
theorem normalize_nf_instance_normalized {value : String} {id : Identifier}
    (h : p.normalizeNfInstanceID value = .ok id) :
    id.type = .nfInstanceID ∧ p.normalizeNfInstanceID id.value = .ok id := by
  obtain ⟨hne, hsize, hchars, hnil, rfl⟩ := normalize_nf_instance_ok.1 h
  have hascii := ascii_of_uuid hchars
  rw [to_lower_of_ascii hascii] at hchars hnil ⊢
  have hascii' := ascii_lower_ascii.2 hascii
  have hlower : p.toLower (asciiLower value) = asciiLower value := by
    rw [to_lower_of_ascii hascii', ascii_lower_lower hascii]
  have hsize' : (asciiLower value).utf8ByteSize = 36 := by
    have hlength := size_of_ascii hascii
    rw [String.ofList_toList, hsize] at hlength
    rw [asciiLower] at hascii' ⊢
    rw [String.toList_ofList] at hascii'
    rw [size_of_ascii hascii', List.length_map, ← hlength]
  refine ⟨rfl, normalize_nf_instance_ok.2 ?_⟩
  rw [hlower]
  refine ⟨?_, hsize', hchars, hnil, rfl⟩
  intro (hempty : asciiLower value = "")
  rw [hempty] at hsize'
  cases hsize'

theorem printable_iff {c : Char} : Url.printable c ↔ ¬(c ≤ ' ' || c ≥ '\x7f') := by
  simp only [Url.printable, Bool.and_eq_true, Bool.or_eq_true, decide_eq_true_eq, Char.le_def,
    ge_iff_le, UInt32.le_iff_toNat_le]
  have hfirst : '!'.val.toNat = 33 := rfl
  have hlast : '~'.val.toNat = 126 := rfl
  have hspace : ' '.val.toNat = 32 := rfl
  have hdelete : '\x7f'.val.toNat = 127 := rfl
  omega

/-- A uri identifier is accepted when it is printable, not too long and an absolute https URL. -/
theorem normalize_uri_ok {value : String} {id : Identifier} :
    p.normalizeURI value = .ok id ↔
      value ≠ "" ∧ value.utf8ByteSize ≤ 2048 ∧ (∀ c ∈ value.toList, Url.printable c) ∧
        ∃ u, p.hosts.parse value.toList = some u ∧ u.Absolute ∧ u.scheme = "https".toList ∧
          id = ⟨.uri, String.ofList (u.lowerHost p.hosts).string⟩ := by
  unfold normalizeURI
  rw [Fallible.guard_eq_ok, Fallible.guard_eq_ok, Fallible.guard_eq_ok, maxURILength, not_lt]
  have hchars : (¬(value.toList.any fun c => c ≤ ' ' || c ≥ '\x7f') = true) ↔
      ∀ c ∈ value.toList, Url.printable c := by
    rw [List.any_eq_true]
    exact ⟨fun h c hc => printable_iff.2 fun hbad => h ⟨c, hc, hbad⟩,
      fun h ⟨c, hc, hbad⟩ => printable_iff.1 (h c hc) hbad⟩
  rw [hchars]
  refine and_congr_right fun _ => and_congr_right fun _ => and_congr_right fun _ => ?_
  cases hparse : p.hosts.parse value.toList with
  | none => exact ⟨nofun, fun ⟨_, h, _⟩ => nomatch h⟩
  | some u =>
      simp only [Fallible.guard_eq_ok, Option.some.injEq, exists_eq_left', Except.ok.injEq, ne_eq,
        not_or, not_not, Bool.not_eq_true]
      constructor
      · rintro ⟨⟨hscheme, hhost, huser, hfragment, hrootless⟩, rfl⟩
        exact ⟨⟨by rw [hscheme]; decide, hrootless, huser, hhost, hfragment⟩, hscheme, rfl⟩
      · rintro ⟨⟨-, hrootless, huser, hhost, hfragment⟩, hscheme, rfl⟩
        exact ⟨⟨hscheme, hhost, huser, hfragment, hrootless⟩, rfl⟩

/-- A normalized URI is its own normal form unless its escapes make it too long. -/
theorem normalize_uri_normalized {value : String} {id : Identifier}
    (h : p.normalizeURI value = .ok id) :
    id.type = .uri ∧ (id.value.length ≤ 2048 ↔ p.normalizeURI id.value = .ok id) ∧
      ∀ u, p.hosts.parse value.toList = some u →
        id.value.length = (u.lowerHost p.hosts).size := by
  obtain ⟨hne, -, hprintable, u, hparse, habs, hscheme, rfl⟩ := normalize_uri_ok.1 h
  obtain ⟨hprintable', hsize, v, hparse', habs', hscheme', hstring⟩ :=
    Url.Hosts.parse_string hparse habs hprintable
  have hascii := size_of_ascii fun c hc => Url.toNat_lt_of_printable (hprintable' c hc)
  refine ⟨rfl, ?_, ?_⟩
  · rw [normalize_uri_ok, hascii, String.toList_ofList, String.length_ofList]
    constructor
    · intro hmax
      refine ⟨?_, hmax, hprintable', v, hparse', habs', hscheme'.trans hscheme, by rw [hstring]⟩
      intro (hempty : String.ofList (u.lowerHost p.hosts).string = "")
      have hnil := congrArg String.toList hempty
      rw [String.toList_ofList] at hnil
      exact habs.scheme (List.append_eq_nil_iff.1 hnil).1
    · exact fun h => h.2.1
  · intro u' hparse''
    rw [hparse] at hparse''
    cases hparse''
    rw [String.length_ofList, hsize]

/-- An authority list is kept as it is. -/
theorem normalize_tn_auth_list_normalized {value : String} {id : Identifier}
    (h : normalizeTNAuthList value = .ok id) :
    id.type = .tnAuthList ∧ normalizeTNAuthList id.value = .ok id := by
  obtain ⟨rfl, -⟩ := normalize_tn_auth_list_ok.1 h
  exact ⟨rfl, h⟩

/-- The normal form of an identifier has its type. -/
theorem normalize_type {id n : Identifier} (h : p.normalize id = .ok n) : n.type = id.type := by
  obtain ⟨type, value⟩ := id
  cases type with
  | dns => exact (normalize_dns_normalized h).1
  | ip => exact (normalize_ip_normalized h).1
  | tnAuthList => exact (normalize_tn_auth_list_normalized h).1
  | nfInstanceID => exact (normalize_nf_instance_normalized h).1
  | uri => exact (normalize_uri_normalized h).1
  | other name => cases h

/-- The normal form of an identifier other than a URI is its own normal form. -/
theorem normalize_normalized {id n : Identifier} (h : p.normalize id = .ok n)
    (htype : n.type ≠ .uri) : p.normalize n = .ok n := by
  obtain ⟨type, value⟩ := id
  obtain ⟨type', value'⟩ := n
  cases type with
  | dns =>
      obtain ⟨rfl, hnormal⟩ := normalize_dns_normalized h
      exact hnormal
  | ip =>
      obtain ⟨rfl, hnormal⟩ := normalize_ip_normalized h
      exact hnormal
  | tnAuthList =>
      obtain ⟨rfl, hnormal⟩ := normalize_tn_auth_list_normalized h
      exact hnormal
  | nfInstanceID =>
      obtain ⟨rfl, hnormal⟩ := normalize_nf_instance_normalized h
      exact hnormal
  | uri => exact absurd (normalize_uri_normalized h).1 htype
  | other name => cases h

/-- A URI name stands for a network function instance or a URI. -/
theorem uri_name_type {name : String} {id : Identifier} (h : p.uriNameIdentifier name = .ok id) :
    id.type = .nfInstanceID ∨ id.type = .uri := by
  unfold uriNameIdentifier at h
  split at h
  · exact .inl (normalize_nf_instance_normalized h).1
  · exact .inr (normalize_uri_normalized h).1

end Platform

/-! ## A platform

Functions that agree with the packages on plain names: hosts of letters, digits, hyphens and dots,
the case of ASCII, and addresses whose text is no name. -/

namespace Sample

/-- The characters of a plain host. -/
def hostChar (c : Char) : Bool := c.isAlphanum || c == '-' || c == '.'

/-- A byte in lower case. -/
def lowerByte (b : UInt8) : UInt8 := if 0x41 ≤ b ∧ b ≤ 0x5a then b + 0x20 else b

/-- The byte of a character. -/
def byte (c : Char) : UInt8 := UInt8.ofNat c.toNat

theorem host_char_lower {c : Char} (h : hostChar c) :
    ∃ c', hostChar c' ∧ Url.escapeByte .host (lowerByte (byte c)) = [c'] ∧
      byte c' = lowerByte (byte c) := by
  have hall : ∀ n < 128, hostChar (Char.ofNat n) →
      hostChar (Char.ofNat n).toLower ∧
        Url.escapeByte .host (lowerByte (byte (Char.ofNat n))) = [(Char.ofNat n).toLower] ∧
        byte (Char.ofNat n).toLower = lowerByte (byte (Char.ofNat n)) := by decide +kernel
  have hascii : c.toNat < 128 := by
    simp only [hostChar, Bool.or_eq_true, beq_iff_eq] at h
    rcases h with (h | rfl) | rfl
    · exact Url.toNat_lt_of_printable (Url.printable_of_alphanum h)
    · decide
    · decide
  have hchar := hall c.toNat hascii
  rw [Char.ofNat_toNat] at hchar
  exact ⟨c.toLower, hchar h⟩

theorem lower_byte_lower (b : UInt8) : lowerByte (lowerByte b) = lowerByte b := by
  have hall : ∀ n < 256, lowerByte (lowerByte (UInt8.ofNat n)) = lowerByte (UInt8.ofNat n) := by
    decide +kernel
  simpa using hall b.toNat b.toNat_lt

/-- The text written for a plain host in lower case is a plain host again. -/
theorem escape_lower {text : List Char} (h : ∀ c ∈ text, hostChar c) :
    (∀ c ∈ Url.escape .host ((text.map byte).map lowerByte), hostChar c) ∧
      (Url.escape .host ((text.map byte).map lowerByte)).map byte =
        (text.map byte).map lowerByte := by
  induction text with
  | nil => exact ⟨nofun, rfl⟩
  | cons c text ih =>
      rw [List.forall_mem_cons] at h
      obtain ⟨c', hc', hescape, hbyte⟩ := host_char_lower h.1
      obtain ⟨hchars, hbytes⟩ := ih h.2
      rw [List.map_cons, List.map_cons, Url.escape_cons, hescape, List.singleton_append]
      refine ⟨List.forall_mem_cons.2 ⟨hc', hchars⟩, ?_⟩
      rw [List.map_cons, hbyte, hbytes]

def hosts : Url.Hosts where
  parseHost text := if text.all hostChar then some (text.map byte) else none
  lower host := host.map lowerByte
  lower_lower host := by
    rw [List.map_map]
    exact List.map_congr_left fun b _ => lower_byte_lower b
  lower_ne_nil h := by simpa using h
  parse_escape_lower {text host} h := by
    split at h
    · next hall =>
        cases h
        obtain ⟨hchars, hbytes⟩ := escape_lower (List.all_eq_true.1 hall)
        rw [if_pos (List.all_eq_true.2 hchars), hbytes]
    · cases h

/-- The text of an address. -/
def addrText : Addr → String
  | .v4 bytes => String.ofList ('4' :: '!' :: Base64.urlSafe.encode bytes.val)
  | .v6 bytes _ => String.ofList ('6' :: '!' :: Base64.urlSafe.encode bytes.val)

/-- The address of a text. -/
def parseAddr (text : String) : Option Addr :=
  match text.toList with
  | '4' :: '!' :: rest => do
      let bytes ← Base64.urlSafe.decode rest
      if h : bytes.length = 4 then some (.v4 ⟨bytes, h⟩) else none
  | '6' :: '!' :: rest => do
      let bytes ← Base64.urlSafe.decode rest
      if h : bytes.length = 16 then some (.v6 ⟨bytes, h⟩ "") else none
  | _ => none

/-- The sample platform. -/
def platform : Platform where
  hosts := hosts
  lower := Char.toLower
  lower_ascii _ := rfl
  lower_other h := .inl (not_lt.1 (toNat_lower_lt.not.2 (not_lt.2 h)))
  parseAddr := parseAddr
  addrText := addrText
  parse_empty := rfl
  parse_addr_text {a} h := by
    cases a with
    | v4 bytes =>
        simp [parseAddr, addrText, Base64.Alphabet.decode_encode, bytes.property]
    | v6 bytes zone =>
        cases h
        simp [parseAddr, addrText, Base64.Alphabet.decode_encode, bytes.property]
  toUnicode _ := none
  toASCII _ := none
  quote text := text

end Sample

namespace Platform

variable {p : Platform}

/-- A normal form is its own normal form, and a uri one has at most 2048 characters, exactly when
the identifier is not a uri identifier or is one for which at most 2048 characters are written. -/
theorem normalize_idempotent_iff {id n : Identifier} (h : p.normalize id = .ok n) :
    (p.normalize n = .ok n ∧ (n.type = .uri → n.value.length ≤ 2048)) ↔
      (id.type = .uri → ∀ u, p.hosts.parse id.value.toList = some u →
        (u.lowerHost p.hosts).size ≤ 2048) := by
  have htype : n.type = id.type := normalize_type h
  by_cases huri : id.type = .uri
  · obtain ⟨type, value⟩ := id
    obtain rfl : type = .uri := huri
    obtain ⟨-, hnormal, hsize⟩ := normalize_uri_normalized h
    have hvalue : p.normalize n = .ok n ↔ n.value.length ≤ 2048 := by
      rw [hnormal, normalize, htype]
    constructor
    · rintro ⟨-, hmax⟩ - u hparse
      rw [← hsize u hparse]
      exact hmax htype
    · intro hmax
      obtain ⟨-, -, -, u, hparse, -⟩ := normalize_uri_ok.1 h
      have hlength : n.value.length ≤ 2048 := (hsize u hparse).trans_le (hmax rfl u hparse)
      exact ⟨hvalue.2 hlength, fun _ => hlength⟩
  · rw [← htype] at huri
    exact ⟨fun _ h' => absurd (htype.trans h') huri,
      fun _ => ⟨normalize_normalized h huri, fun h' => absurd h' huri⟩⟩

/-- A URI with its host in upper case has a normal form that is its own. -/
theorem normalize_idempotent_sample :
    Sample.platform.normalize ⟨.uri, "https://A/x"⟩ = .ok ⟨.uri, "https://a/x"⟩ ∧
      Sample.platform.normalize ⟨.uri, "https://a/x"⟩ = .ok ⟨.uri, "https://a/x"⟩ := by
  have h : Sample.platform.normalize ⟨.uri, "https://A/x"⟩ = .ok ⟨.uri, "https://a/x"⟩ := by
    decide +kernel
  refine ⟨h, ((normalize_idempotent_iff h).2 fun _ u hparse => ?_).1⟩
  have huri : Sample.platform.normalizeURI "https://A/x" = .ok ⟨.uri, "https://a/x"⟩ := h
  have hlength := (normalize_uri_normalized huri).2.2 u hparse
  exact hlength.symm.trans_le (by decide)

/-- The parts of a URI whose path has characters that are written as escapes. -/
def quotedParts (n : Nat) : Url.Parts :=
  ⟨"https".toList, ['a'], '/' :: List.replicate n '"', false, []⟩

theorem quoted_separate (n : Nat) : (quotedParts n).Separate where
  scheme := ⟨'h', "ttps".toList, rfl, by decide⟩
  schemeChars := List.all_eq_true.1 (show "https".toList.all Url.schemeChar = true by decide)
  noSlash := show '/' ∉ ['a'] by decide
  noQuery := show '?' ∉ ['a'] by decide
  noFragment := show '#' ∉ ['a'] by decide
  noUser := show '@' ∉ ['a'] by decide
  rooted := ⟨.inr rfl, by simp [quotedParts], by simp [quotedParts]⟩
  force := nofun
  queryFragment := nofun

theorem unescape_quotes (n : Nat) :
    Url.unescapePath (List.replicate n '"') = some (List.replicate n 0x22) := by
  induction n with
  | zero => rfl
  | succ n ih =>
      rw [List.replicate_succ, Url.unescape_path_cons (by decide), ih]
      rfl

theorem quoted_printable (n : Nat) : ∀ c ∈ (quotedParts n).text, Url.printable c := by
  simp [quotedParts, Url.Parts.text, Url.queryText, Url.printable]

theorem quoted_length (n : Nat) : (quotedParts n).text.length = 10 + n := by
  simp [quotedParts, Url.Parts.text, Url.queryText]
  omega

/-- The URI is read with the host `a` and a path of quotation marks. -/
theorem parse_quoted (n : Nat) :
    Sample.hosts.parse (quotedParts n).text =
      some ((quotedParts n).url [0x61] (0x2f :: List.replicate n 0x22)) := by
  refine (quoted_separate n).parse (quoted_printable n)
    (show Sample.hosts.parseHost ['a'] = _ by decide) ?_
  show Url.unescapePath ('/' :: List.replicate n '"') = _
  rw [Url.unescape_path_cons (by decide), unescape_quotes]
  rfl

/-- Every quotation mark takes three characters. -/
theorem size_quoted {u : Url.URL} {n : Nat} (hn : 0 < n)
    (hraw : u.rawPath = [] ∨ u.rawPath = '/' :: List.replicate n '"')
    (hpath : u.path = 0x2f :: List.replicate n 0x22) : 3 * n < u.size := by
  have hescape : ¬(u.rawPath ≠ [] ∧ Url.validEncoded u.rawPath ∧
      Url.unescapePath u.rawPath = some u.path) := by
    rintro ⟨hne, hvalid, -⟩
    have hmem : '"' ∈ u.rawPath := by
      rw [hraw.resolve_left hne]
      exact List.mem_cons_of_mem _ (List.mem_replicate.2 ⟨by omega, rfl⟩)
    exact absurd (List.all_eq_true.1 hvalid '"' hmem) (by decide)
  have hslash : Url.shouldEscape .path (Char.ofNat (0x2f : UInt8).toNat) = false := by decide
  have hquote : Url.shouldEscape .path (Char.ofNat (0x22 : UInt8).toNat) = true := by decide
  have hsize : Url.URL.escapedSize .path u.path = 1 + 3 * n := by
    rw [hpath, Url.URL.escapedSize, List.countP_cons, List.countP_replicate, hslash, hquote]
    simp
    omega
  rw [Url.URL.size, if_neg hescape, hsize]
  omega

/-- The URI is accepted up to the maximal length, and what is written for it is longer. -/
theorem normalize_quoted {n : Nat} (hpos : 0 < n) (hmax : n ≤ 2038) :
    ∃ id, Sample.platform.normalizeURI (String.ofList (quotedParts n).text) = .ok id ∧
      3 * n < id.value.length := by
  have hparse : Sample.platform.hosts.parse (String.ofList (quotedParts n).text).toList = _ :=
    (congrArg _ String.toList_ofList).trans (parse_quoted n)
  have hsize := size_of_ascii fun c hc => Url.toNat_lt_of_printable (quoted_printable n c hc)
  have hne : String.ofList (quotedParts n).text ≠ "" := by
    intro hempty
    have hzero : "".utf8ByteSize = 0 := rfl
    rw [hempty, quoted_length] at hsize
    omega
  have hbound : (String.ofList (quotedParts n).text).utf8ByteSize ≤ 2048 := by
    rw [hsize, quoted_length]
    omega
  have hok := normalize_uri_ok.2 ⟨hne, hbound,
    by rw [String.toList_ofList]; exact quoted_printable n, _, hparse,
    ⟨List.cons_ne_nil _ _, rfl, rfl, List.cons_ne_nil _ _, rfl⟩, rfl, rfl⟩
  refine ⟨_, hok, ?_⟩
  rw [(normalize_uri_normalized hok).2.2 _ hparse]
  exact size_quoted hpos (ite_eq_or_eq _ _ _) rfl

/-- The normal form of a URI with 700 quotation marks in its path is too long to have one. -/
theorem normalize_rejects_normal_form :
    ∃ n, Sample.platform.normalize ⟨.uri, String.ofList (quotedParts 700).text⟩ = .ok n ∧
      Sample.platform.normalize n ≠ .ok n ∧ ¬n.value.length ≤ 2048 := by
  obtain ⟨n, hok, hlength⟩ := normalize_quoted (n := 700) (by decide) (by decide)
  obtain ⟨htype, hiff, -⟩ := normalize_uri_normalized hok
  obtain ⟨type, value⟩ := n
  cases htype
  have hlong : ¬value.length ≤ 2048 := by
    intro hmax
    exact absurd (hlength.trans_le hmax) (by decide)
  exact ⟨_, hok, fun h => hlong (hiff.2 h), hlong⟩

end Platform

end AcmeServer.Name
