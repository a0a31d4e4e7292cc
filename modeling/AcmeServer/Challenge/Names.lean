import AcmeServer.Challenge.Resolver
import Mathlib.Data.Set.Insert

/-!
# The names that a lookup tells apart

For DNS two names are equal if they agree up to the case of ASCII letters, whatever else they
contain. `Sound` says in these terms what the records of a lookup have to be. The code compares
names as Unicode text, and that is the same only for some of them: `lookup_sound_iff` has the exact
condition on the names in the answers. ASCII names meet it. The Kelvin sign does not, because it
folds to a letter of ASCII, and `kelvin_owner_accepted` has a lookup that returns a record of a
name with it.
-/

namespace AcmeServer.Challenge

open Utf8

/-! ## What DNS needs -/

/-- The name in its full form. -/
def qualified (name : Bytes) : Bytes := trimDot name ++ [0x2E]

/-- The records of a lookup are what was asked for: each one is of the Internet class and of the
type, its owner is the last of a chain of at most `maxCNAMEs` aliases that starts with the name, and
the answers it comes from have no alias for the owner. -/
def Sound (name : Bytes) (type : RecordType) (maxCNAMEs : Nat)
    (outcome : Except HostError (List Resource) × List Query) : Prop :=
  ∀ records, outcome.1 = .ok records → ∃ answers, (∃ q ∈ outcome.2, q.answers = .ok answers) ∧
    ∀ r ∈ records, r ∈ answers ∧ r.recordClass = classINET ∧ r.body.type = type ∧
      (∃ first last names, SameCaseless first (qualified name) ∧
        Chain caseless outcome.2 first (last :: names) ∧ names.length ≤ maxCNAMEs ∧
        (last :: names).Pairwise (fun n n' => ¬SameCaseless n n') ∧
        SameCaseless r.name.text last) ∧
      ∀ c ∈ answers, c.recordClass = classINET → c.body.type = .cname →
        ¬SameCaseless c.name.text r.name.text

/-- The names that may occur: those in ASCII, and some others. -/
def Allowed (odd : Set Bytes) (n : DnsName) : Prop := (∀ b ∈ n.text, b < 0x80) ∨ n.text ∈ odd

/-- A record whose names may occur. -/
def Resource.Allowed (odd : Set Bytes) (r : Resource) : Prop :=
  Challenge.Allowed odd r.name ∧ ∀ target, r.body = .cname target → Challenge.Allowed odd target

/-- All lookups for an ASCII name are sound as long as no other names occur in the answers. -/
def SoundOver (u : CaseRules) (odd : Set Bytes) : Prop :=
  ∀ (server : Nat → Except HostError (List Resource)) (name : Bytes) (type : RecordType)
    (maxCNAMEs : Nat), (∀ b ∈ name, b < 0x80) → type ∈ [.txt, .a, .aaaa] →
    (∀ i answers, server i = .ok answers → ∀ r ∈ answers, r.Allowed odd) →
    Sound name type maxCNAMEs (lookup u server name type maxCNAMEs)

/-- The code tells the names apart that may occur: one that it takes for a target of an alias is
that target, and so is the name that it asks for in the target's place. -/
def Unambiguous (u : CaseRules) (odd : Set Bytes) : Prop :=
  ∀ owner target : DnsName, Allowed odd owner → Allowed odd target →
    u.equalFold owner.text (u.toLower target.text) →
    SameCaseless owner.text target.text ∧ SameCaseless (u.toLower target.text) target.text

/-! ## Unambiguous names suffice -/

section Sufficient

variable {u : CaseRules} {odd : Set Bytes} {asked : List Query} {first : Bytes}

/-- All names of a chain are in lower case. -/
theorem Chain.lowered (hfirst : first.map asciiLower = first) {names : List Bytes}
    (h : Chain (folded u) asked first names) : ∀ n ∈ names, n.map asciiLower = n := by
  induction h with
  | first => simpa using hfirst
  | @step name next queried names q answers r target _ _ _ _ _ _ _ _ _ htarget ih =>
      refine List.forall_mem_cons.2 ⟨?_, ih⟩
      have hlow : u.toLower target.text = next := htarget
      rw [← hlow, u.to_lower_lowered]

/-- With unambiguous names, a chain at whose end a record was found is one as DNS compares names. -/
theorem Chain.of_folded (hu : Unambiguous u odd)
    (hallowed : ∀ q ∈ asked, ∀ answers, q.answers = .ok answers → ∀ r ∈ answers, r.Allowed odd)
    (hascii : ∀ b ∈ first, b < 0x80) (hdotted : first.getLast? = some 0x2E)
    (hfirst : first.map asciiLower = first) {list : List Bytes}
    (h : Chain (folded u) asked first list) {owner : DnsName} (howner : Allowed odd owner) :
    ∀ {last names}, list = last :: names → u.equalFold owner.text last →
      Chain caseless asked first list ∧ SameCaseless owner.text last := by
  induction h generalizing owner with
  | first =>
      rintro last names hlist hfold
      cases hlist
      refine ⟨.first, (hu owner ⟨first, hdotted⟩ howner (.inl hascii) ?_).1⟩
      rw [u.to_lower_ascii hascii, hfirst]
      exact hfold
  | @step name next queried names q answers r target hchain hq hanswers hqueried hquery hr hclass
      hbody hat htarget ih =>
      rintro last names' hlist hfold
      cases hlist
      obtain ⟨hname, hbodies⟩ := hallowed q hq answers hanswers r hr
      obtain rfl : u.toLower target.text = next := htarget
      obtain rfl : q.name = queried := hquery
      obtain ⟨hsame, hlow⟩ := hu owner target howner (hbodies target hbody) hfold
      obtain ⟨hrest, hat'⟩ := ih hname rfl hat
      exact ⟨.step hrest hq hanswers hqueried (.refl _) hr hclass hbody hat' hlow.symm,
        hsame.trans hlow.symm⟩

theorem trim_dot_ascii {name : Bytes} (h : ∀ b ∈ name, b < 0x80) :
    ∀ b ∈ trimDot name, b < 0x80 := by
  unfold trimDot
  split
  · exact fun b hb => h b (List.dropLast_subset _ hb)
  · exact h

/-- The name that a lookup starts with. -/
theorem first_name {name : Bytes} (h : ∀ b ∈ name, b < 0x80) :
    u.toLower (trimDot name) ++ [0x2E] = (qualified name).map asciiLower := by
  rw [u.to_lower_ascii (trim_dot_ascii h), qualified, List.map_append]
  rfl

/-- With unambiguous names, the records of a lookup are what was asked for. -/
theorem lookup_sound (hu : Unambiguous u odd) {server : Nat → Except HostError (List Resource)}
    (hserver : ∀ i answers, server i = .ok answers → ∀ r ∈ answers, r.Allowed odd) {name : Bytes}
    (hname : ∀ b ∈ name, b < 0x80) (type : RecordType) (maxCNAMEs : Nat) :
    Sound name type maxCNAMEs (lookup u server name type maxCNAMEs) := by
  intro records hrecords
  obtain ⟨last, names, answers, harrived⟩ := (lookup_arrives server name type maxCNAMEs).2 records
    hrecords
  have hasked : ∀ q ∈ (lookup u server name type maxCNAMEs).2, ∃ i, q.answers = server i :=
    lookup_from_served server maxCNAMEs fun q hq => absurd hq List.not_mem_nil
  rw [first_name hname] at harrived
  generalize hfirst : (qualified name).map asciiLower = first at harrived
  have hlowered : first.map asciiLower = first := by
    rw [← hfirst]
    exact same_lowered _
  have hascii : ∀ b ∈ first, b < 0x80 := by
    rw [← hfirst, qualified, List.map_append]
    intro b hb
    rcases List.mem_append.1 hb with hb | hb
    · obtain ⟨c, hc, rfl⟩ := List.mem_map.1 hb
      exact ascii_lower_lt.2 (trim_dot_ascii hname c hc)
    · rw [List.mem_singleton.1 hb]
      decide
  have hdotted : first.getLast? = some 0x2E := by
    rw [← hfirst, qualified, List.map_append]
    exact List.getLast?_concat
  have hallowed : ∀ q ∈ (lookup u server name type maxCNAMEs).2, ∀ answers,
      q.answers = .ok answers → ∀ r ∈ answers, r.Allowed odd := by
    intro q hq answers hanswers
    obtain ⟨i, hi⟩ := hasked q hq
    exact hserver i answers (hi ▸ hanswers)
  obtain ⟨q, hq, hanswers⟩ := harrived.answered
  refine ⟨answers, harrived.answered, fun r hr => ?_⟩
  obtain ⟨hmem, hat, htype⟩ := harrived.records r hr
  obtain ⟨hclass, hfold⟩ := is_at_iff.1 hat
  obtain ⟨hchain, hsame⟩ := harrived.chain.of_folded hu hallowed hascii hdotted hlowered
    (hallowed q hq answers hanswers r hmem).1 rfl hfold
  refine ⟨hmem, hclass, htype, ⟨first, last, names, ?_, hchain, harrived.short, ?_, hsame⟩, ?_⟩
  · rw [SameCaseless, hlowered, hfirst]
  · -- Names in lower case are only the same if they are equal.
    have hlow := harrived.chain.lowered hlowered
    refine harrived.nodup.imp_of_mem fun {n n'} hn hn' hne hsame => hne ?_
    rwa [SameCaseless, hlow n hn, hlow n' hn'] at hsame
  · intro c hc hclass' hcname hsame'
    refine harrived.plain c hc (is_at_iff.2 ⟨hclass', ?_⟩) hcname
    have hfold' := u.equal_fold_of_same hsame'
    rw [CaseRules.equalFold, decide_eq_true_iff] at hfold hfold' ⊢
    exact hfold'.trans hfold

end Sufficient

/-! ## No others do -/

section Necessary

variable {u : CaseRules}

/-- A long name of letters. -/
def longName (n : Nat) : DnsName := ⟨List.replicate n 0x61 ++ [0x2E], List.getLast?_concat⟩

theorem long_name_length (n : Nat) : (longName n).text.length = n + 1 := by
  simp [longName]

theorem long_name_ascii (n : Nat) : ∀ b ∈ (longName n).text, b < 0x80 := by
  intro b hb
  rcases List.mem_append.1 hb with hb | hb
  · rw [List.eq_of_mem_replicate hb]
    decide
  · rw [List.mem_singleton.1 hb]
    decide

theorem long_name_lowered (n : Nat) : (longName n).text.map asciiLower = (longName n).text := by
  rw [longName, List.map_append, List.map_replicate]
  rfl

theorem long_name_lower (n : Nat) : u.toLower (longName n).text = (longName n).text := by
  rw [u.to_lower_ascii (long_name_ascii n), long_name_lowered]

theorem qualified_long_name (n : Nat) : qualified (longName n).text = (longName n).text := by
  rw [qualified, trimDot, if_pos (longName n).dotted, longName, List.dropLast_concat]

/-- An alias of a name. -/
def aliasRecord (owner target : DnsName) : Resource := ⟨owner, classINET, .cname target⟩

/-- A text at a name. -/
def textRecord (owner : DnsName) : Resource := ⟨owner, classINET, .txt []⟩

theorem equal_fold_self (s : Bytes) : u.equalFold s s = true := u.equal_fold_of_same (.refl s)

/-- What is found in an alias and a text. -/
theorem matching_pair (a t o : DnsName) (name : Bytes) :
    matchingAnswers u [aliasRecord a t, textRecord o] name .txt =
      if u.equalFold a.text name then
        if u.equalFold o.text name then
          .error (dnsFailure "CNAME and proof records share an owner")
        else .ok { aliasName := u.toLower t.text }
      else if u.equalFold o.text name then .ok { matching := [textRecord o] }
      else .ok {} := by
  have hsome := t.lower_ne_nil u
  have ha : (aliasRecord a t).isAt u name = u.equalFold a.text name := by
    simp [Resource.isAt, aliasRecord]
  have ho : (textRecord o).isAt u name = u.equalFold o.text name := by
    simp [Resource.isAt, textRecord]
  simp only [matchingAnswers, List.foldlM_cons, List.foldlM_nil, matchAnswer, ha, ho]
  cases u.equalFold a.text name <;> cases u.equalFold o.text name <;>
    simp [aliasRecord, textRecord, Body.type, bind, Except.bind, pure, Except.pure, hsome]

variable {server : Nat → Except HostError (List Resource)} {name : Bytes} {seen : List Bytes}
  {held answers : List Resource} {asked asked' : List Query} {type : RecordType}

theorem lookup_from_end (left : Nat) {records : List Resource}
    (hround : answersFor server name held asked = (.ok answers, asked'))
    (hmatch : matchingAnswers u answers name type = .ok { matching := records }) :
    lookupFrom u server type left name seen held asked = (.ok records, asked') := by
  rw [lookupFrom.eq_def, hround]
  simp only [hmatch, if_true]

theorem lookup_from_follow (left : Nat) (next : Bytes)
    (hround : answersFor server name held asked = (.ok answers, asked'))
    (hmatch : matchingAnswers u answers name type = .ok { aliasName := next })
    (hsome : next ≠ []) (hnew : next ∉ seen) :
    lookupFrom u server type (left + 1) name seen held asked =
      lookupFrom u server type left next (next :: seen)
        (if answers.any fun a => u.equalFold a.name.text next then answers else []) asked' := by
  rw [lookupFrom.eq_def, hround]
  simp only [hmatch, if_neg hsome, if_neg hnew]

theorem lookup_long_name (n max : Nat) :
    lookup u server (longName n).text type max =
      lookupFrom u server type max (longName n).text [(longName n).text] [] [] := by
  have hfirst : u.toLower (trimDot (longName n).text) ++ [0x2E] = (longName n).text := by
    rw [first_name (long_name_ascii n), qualified_long_name, long_name_lowered]
  rw [lookup, hfirst]

theorem not_long {n : Nat} {s : Bytes} (h : s.length ≤ n) :
    u.equalFold s (longName n).text = false ∧ u.equalFold (longName n).text s = false ∧
      s ≠ (longName n).text ∧ ¬SameCaseless s (longName n).text := by
  have hlength := long_name_length n
  have hnot : u.equalFold s (longName n).text = false :=
    u.not_equal_fold_of_longer (long_name_ascii n) (by omega)
  refine ⟨hnot, ?_, ?_, fun hsame => ?_⟩
  · rw [u.equal_fold_comm]
    exact hnot
  · rintro rfl
    omega
  · have := hsame.length_eq
    omega

/-- An owner that folds to the target of an alias is taken for it. -/
theorem lookup_takes_owner {n : Nat} {o t : DnsName} (ho : o.text.length ≤ n)
    (ht : (u.toLower t.text).length ≤ n) (hot : u.equalFold o.text (u.toLower t.text) = true) :
    lookup u (fun _ => .ok [aliasRecord (longName n) t, textRecord o]) (longName n).text .txt 1 =
      (.ok [textRecord o],
        [⟨(longName n).text, .ok [aliasRecord (longName n) t, textRecord o]⟩]) := by
  obtain ⟨how, -⟩ := not_long (u := u) ho
  obtain ⟨-, hwt, hne, -⟩ := not_long (u := u) ht
  rw [lookup_long_name, lookup_from_follow 0 (u.toLower t.text) rfl ?_ (t.lower_ne_nil u)
    (by simpa using hne)]
  · rw [if_pos (by simp [textRecord, hot])]
    refine lookup_from_end 0 rfl ?_
    rw [matching_pair, hwt, hot]
    rfl
  · rw [matching_pair, equal_fold_self, how]
    rfl

/-- The server of a lookup that asks for the target of an alias in lower case. -/
def relay (n : Nat) (o t : DnsName) : Nat → Except HostError (List Resource)
  | 0 => .ok [aliasRecord (longName n) t, textRecord (longName (n + 1))]
  | _ + 1 => .ok [aliasRecord o (longName (n + 1)), textRecord (longName (n + 1))]

/-- The name that is asked for in place of a target is in lower case. -/
theorem lookup_asks_lower {n : Nat} {o t : DnsName} (ho : o.text.length ≤ n)
    (ht : (u.toLower t.text).length ≤ n) (hot : u.equalFold o.text (u.toLower t.text) = true) :
    lookup u (relay n o t) (longName n).text .txt 2 =
      (.ok [textRecord (longName (n + 1))],
        [⟨(longName n).text, relay n o t 0⟩, ⟨u.toLower t.text, relay n o t 1⟩]) := by
  obtain ⟨-, hwt, hne, -⟩ := not_long (u := u) ht
  obtain ⟨-, hwt', hne', -⟩ := not_long (u := u) (ht.trans (Nat.le_succ n))
  obtain ⟨how', -⟩ := not_long (u := u) (ho.trans (Nat.le_succ n))
  have hlong : (longName n).text.length ≤ n + 1 := (long_name_length n).le
  obtain ⟨-, hww', hne'', -⟩ := not_long (u := u) hlong
  rw [lookup_long_name, lookup_from_follow 1 (u.toLower t.text) rfl ?_ (t.lower_ne_nil u)
    (by simpa using hne)]
  · rw [if_neg (by simp [aliasRecord, textRecord, hwt, hwt'])]
    have hnew : (longName (n + 1)).text ∉ [u.toLower t.text, (longName n).text] := by
      simpa using ⟨hne'.symm, hne''.symm⟩
    rw [lookup_from_follow 0 (longName (n + 1)).text rfl ?_ ?_ hnew]
    · rw [if_pos (by simp [textRecord, equal_fold_self])]
      refine lookup_from_end 0 rfl ?_
      rw [matching_pair, how', equal_fold_self]
      rfl
    · rw [matching_pair, hot, hwt', long_name_lower]
      rfl
    · rw [← long_name_lower (u := u)]
      exact (longName (n + 1)).lower_ne_nil u
  · rw [matching_pair, equal_fold_self, hww']
    rfl

/-- Every name of a chain is its first or the target of an alias. -/
theorem Chain.mem_cases {first n : Bytes} {names : List Bytes}
    (h : Chain caseless asked first names) (hn : n ∈ names) :
    n = first ∨ ∃ q ∈ asked, ∃ answers, q.answers = .ok answers ∧ ∃ r ∈ answers, ∃ target,
      r.body = .cname target ∧ SameCaseless target.text n := by
  induction h with
  | first => exact .inl (List.mem_singleton.1 hn)
  | @step name next queried names q answers r target _ hq hanswers _ _ hr _ hbody _ htarget ih =>
      rcases List.mem_cons.1 hn with rfl | hn
      · exact .inr ⟨q, hq, answers, hanswers, r, hr, target, hbody, htarget⟩
      · exact ih hn

theorem alias_allowed {odd : Set Bytes} {owner target : DnsName} (howner : Allowed odd owner)
    (htarget : Allowed odd target) : (aliasRecord owner target).Allowed odd :=
  ⟨howner, fun _ hbody => by cases hbody; exact htarget⟩

theorem text_allowed {odd : Set Bytes} {owner : DnsName} (howner : Allowed odd owner) :
    (textRecord owner).Allowed odd := ⟨howner, nofun⟩

/-- If all lookups over the names are sound, an owner is taken for a target only if it is that
target. -/
theorem owner_of_sound {odd : Set Bytes} (h : SoundOver u odd) {o t : DnsName}
    (ho : Allowed odd o) (ht : Allowed odd t)
    (hot : u.equalFold o.text (u.toLower t.text) = true) : SameCaseless o.text t.text := by
  have hno : o.text.length ≤ o.text.length + (u.toLower t.text).length := Nat.le_add_right _ _
  have hnt : (u.toLower t.text).length ≤ o.text.length + (u.toLower t.text).length :=
    Nat.le_add_left _ _
  generalize o.text.length + (u.toLower t.text).length = n at hno hnt
  have hsound := h (fun _ => .ok [aliasRecord (longName n) t, textRecord o]) (longName n).text
    .txt 1 (long_name_ascii n) (by decide) ?_
  · rw [lookup_takes_owner hno hnt hot] at hsound
    obtain ⟨answers, -, hrecords⟩ := hsound _ rfl
    obtain ⟨-, -, -, ⟨first, last, names, hfirst, hchain, -, -, hlast⟩, -⟩ :=
      hrecords _ List.mem_cons_self
    change SameCaseless o.text last at hlast
    rw [qualified_long_name] at hfirst
    rcases hchain.mem_cases List.mem_cons_self with rfl |
      ⟨q, hq, answers', hanswers, r, hr, target, hbody, htarget⟩
    · exact absurd (hlast.trans hfirst) (not_long (u := u) hno).2.2.2
    · obtain rfl := List.mem_singleton.1 hq
      cases hanswers
      rcases List.mem_cons.1 hr with rfl | hr
      · cases hbody
        exact hlast.trans htarget.symm
      · obtain rfl := List.mem_singleton.1 hr
        cases hbody
  · rintro i answers hanswers
    cases hanswers
    have hlong : Allowed odd (longName n) := .inl (long_name_ascii n)
    exact List.forall_mem_cons.2 ⟨alias_allowed hlong ht,
      List.forall_mem_singleton.2 (text_allowed ho)⟩

/-- The aliases in the answers of the relay. -/
theorem relay_target {n : Nat} {o t target : DnsName} {q : Query} {r : Resource}
    (hq : q ∈ [⟨(longName n).text, relay n o t 0⟩, ⟨u.toLower t.text, relay n o t 1⟩])
    (hanswers : q.answers = .ok answers) (hr : r ∈ answers) (hbody : r.body = .cname target) :
    target = t ∨ (target = longName (n + 1) ∧ q.name = u.toLower t.text) := by
  rcases List.mem_cons.1 hq with rfl | hq
  · cases hanswers
    rcases List.mem_cons.1 hr with rfl | hr
    · cases hbody
      exact .inl rfl
    · obtain rfl := List.mem_singleton.1 hr
      cases hbody
  · obtain rfl := List.mem_singleton.1 hq
    cases hanswers
    rcases List.mem_cons.1 hr with rfl | hr
    · cases hbody
      exact .inr ⟨rfl, rfl⟩
    · obtain rfl := List.mem_singleton.1 hr
      cases hbody

/-- If all lookups over the names are sound, the name that is asked for in place of a target is that
target. -/
theorem lower_of_sound {odd : Set Bytes} (h : SoundOver u odd) {o t : DnsName}
    (ho : Allowed odd o) (ht : Allowed odd t)
    (hot : u.equalFold o.text (u.toLower t.text) = true) :
    SameCaseless (u.toLower t.text) t.text := by
  have hno : o.text.length ≤ o.text.length + (u.toLower t.text).length := Nat.le_add_right _ _
  have hnt : (u.toLower t.text).length ≤ o.text.length + (u.toLower t.text).length :=
    Nat.le_add_left _ _
  have hsame := owner_of_sound h ho ht hot
  generalize o.text.length + (u.toLower t.text).length = n at hno hnt
  have hlong (k : Nat) : Allowed odd (longName k) := .inl (long_name_ascii k)
  have hsound := h (relay n o t) (longName n).text .txt 2 (long_name_ascii n) (by decide) ?_
  · rw [lookup_asks_lower hno hnt hot] at hsound
    obtain ⟨answers, -, hrecords⟩ := hsound _ rfl
    obtain ⟨-, -, -, ⟨first, last, names, hfirst, hchain, -, -, hlast⟩, -⟩ :=
      hrecords _ List.mem_cons_self
    change SameCaseless (longName (n + 1)).text last at hlast
    dsimp only at hchain
    rw [qualified_long_name] at hfirst
    have hapart {s : Bytes} (hs : s.length ≤ n + 1) : ¬SameCaseless s last := fun hsame =>
      (not_long (u := u) hs).2.2.2 (hsame.trans hlast.symm)
    have hnt' : t.text.length ≤ n := hsame.length_eq ▸ hno
    cases hchain with
    | first => exact absurd hfirst.symm (hapart (long_name_length n).le)
    | @step name _ queried names q answers' r target hchain hq hanswers hqueried hquery hr _ hbody _
        htarget =>
        change SameCaseless q.name queried at hquery
        change SameCaseless target.text last at htarget
        -- The last alias is in the answers for the target in lower case.
        have hname : q.name = u.toLower t.text := by
          rcases relay_target hq hanswers hr hbody with rfl | ⟨-, hname⟩
          · exact absurd htarget (hapart (hnt'.trans (Nat.le_succ n)))
          · exact hname
        rw [hname] at hquery
        rcases hchain.mem_cases hqueried with rfl |
          ⟨q', hq', answers'', hanswers', r', hr', target', hbody', htarget'⟩
        · exact absurd (hquery.trans hfirst) (not_long (u := u) hnt).2.2.2
        · rcases relay_target hq' hanswers' hr' hbody' with rfl | ⟨rfl, -⟩
          · exact hquery.trans htarget'.symm
          · exact absurd (hquery.trans htarget'.symm)
              (not_long (u := u) (hnt.trans (Nat.le_succ n))).2.2.2
  · intro i answers hanswers
    cases i with
    | zero =>
        cases hanswers
        exact List.forall_mem_cons.2 ⟨alias_allowed (hlong _) ht,
          List.forall_mem_singleton.2 (text_allowed (hlong _))⟩
    | succ i =>
        cases hanswers
        exact List.forall_mem_cons.2 ⟨alias_allowed ho (hlong _),
          List.forall_mem_singleton.2 (text_allowed (hlong _))⟩

end Necessary

/-! ## The exact condition -/

/-- ASCII names are told apart. -/
theorem ascii_unambiguous (u : CaseRules) : Unambiguous u ∅ := by
  intro owner target howner htarget hfold
  have ho : ∀ b ∈ owner.text, b < 0x80 := howner.resolve_right (Set.notMem_empty _)
  have ht : ∀ b ∈ target.text, b < 0x80 := htarget.resolve_right (Set.notMem_empty _)
  have hlow : ∀ b ∈ target.text.map asciiLower, b < 0x80 := by
    intro b hb
    obtain ⟨c, hc, rfl⟩ := List.mem_map.1 hb
    exact ascii_lower_lt.2 (ht c hc)
  rw [u.to_lower_ascii ht] at hfold ⊢
  exact ⟨(u.same_of_equal_fold ho hlow hfold).trans (same_lowered _), same_lowered _⟩

/-- A lookup makes at most one query more than it may follow aliases. Its records are what was
asked for, whatever the answers are, exactly for the names that the code tells apart. -/
theorem lookup_sound_iff (u : CaseRules) (odd : Set Bytes) :
    (∀ (server : Nat → Except HostError (List Resource)) (name : Bytes) (type : RecordType)
      (maxCNAMEs : Nat), (lookup u server name type maxCNAMEs).2.length ≤ maxCNAMEs + 1) ∧
    (SoundOver u odd ↔ Unambiguous u odd) := by
  refine ⟨fun server name type maxCNAMEs => (lookup_arrives server name type maxCNAMEs).1, ?_, ?_⟩
  · intro h owner target howner htarget hfold
    exact ⟨owner_of_sound h howner htarget hfold, lower_of_sound h howner htarget hfold⟩
  · intro hu server name type maxCNAMEs hname _ hserver
    exact lookup_sound hu hserver hname type maxCNAMEs

namespace Sample

theorem lower_not_upper (c : Char) : ¬('A' ≤ c.toLower ∧ c.toLower ≤ 'Z') := by
  by_cases h : 'A' ≤ c ∧ c ≤ 'Z'
  · have hall : ∀ n, 65 ≤ n → n ≤ 90 →
        ¬('A' ≤ (Char.ofNat n).toLower ∧ (Char.ofNat n).toLower ≤ 'Z') := by decide
    have hc := hall c.toNat h.1 h.2
    rwa [Char.ofNat_toNat] at hc
  · unfold Char.toLower
    split
    · next h' => exact absurd h' h
    · exact h

theorem ne_of_ascii {c d : Char} (hc : c.toNat < 128) (hd : 128 ≤ d.toNat) : c ≠ d := by
  rintro rfl
  omega

/-- Unicode's rules for ASCII, the Kelvin sign, the long s and the capital I with a dot. -/
def rules : CaseRules where
  lower c := if c = '\u212A' then 'k' else if c = '\u0130' then 'i' else c.toLower
  fold c := if c = '\u212A' then 'k' else if c = '\u017F' then 's' else c.toLower
  lower_ascii {c} hc := by
    rw [if_neg (ne_of_ascii hc (by decide)), if_neg (ne_of_ascii hc (by decide))]
  lower_not_upper c := by
    split
    · decide
    · split
      · decide
      · exact lower_not_upper c
  fold_ascii {c d} hc hd := by
    rw [if_neg (ne_of_ascii hc (by decide)), if_neg (ne_of_ascii hc (by decide)),
      if_neg (ne_of_ascii hd (by decide)), if_neg (ne_of_ascii hd (by decide))]

/-- The Kelvin sign, `.test.`: the name of somebody else. -/
def kelvin : DnsName := ⟨[0xE2, 0x84, 0xAA, 0x2E, 0x74, 0x65, 0x73, 0x74, 0x2E], rfl⟩

/-- The bytes of `k.test`. -/
def asked : Bytes := [0x6B, 0x2E, 0x74, 0x65, 0x73, 0x74]

end Sample

/-- A lookup for `k.test` returns a text of the name with the Kelvin sign in place of the letter. -/
theorem kelvin_owner_accepted :
    let answers : List Resource := [⟨Sample.kelvin, classINET, .txt [[0x78]]⟩]
    let outcome := lookup Sample.rules (fun _ => .ok answers) Sample.asked .txt 8
    outcome.1 = .ok answers ∧ ¬Sound Sample.asked .txt 8 outcome := by
  intro answers outcome
  have houtcome : outcome = (.ok answers, [⟨qualified Sample.asked, .ok answers⟩]) := rfl
  refine ⟨by rw [houtcome], fun hsound => ?_⟩
  rw [houtcome] at hsound
  obtain ⟨_, -, hrecords⟩ := hsound answers rfl
  obtain ⟨-, -, -, ⟨first, last, names, hfirst, hchain, -, -, hlast⟩, -⟩ :=
    hrecords _ List.mem_cons_self
  -- Without aliases in the answers, the chain has no name but the one that was asked for.
  rcases hchain.mem_cases List.mem_cons_self with rfl |
    ⟨q, hq, answers', hanswers, r, hr, target, hbody, -⟩
  · exact absurd (hlast.trans hfirst) (by decide)
  · obtain rfl := List.mem_singleton.1 hq
    cases hanswers
    obtain rfl := List.mem_singleton.1 hr
    cases hbody

end AcmeServer.Challenge
