import AcmeServer.Fallible.Basic
import AcmeServer.Resource.Basic
import AcmeServer.Utf8.Case

/-!
# The lookup of a validated name

`Resolver.lookup` of `challenge/resolver.go` follows the aliases of a name through the answers of a
recursive resolver. The names in the answers are byte strings of any content, and the code compares
them as Unicode text. `lookup_arrives` says what every lookup guarantees in the terms of this
comparison: the records it returns are those of the last name of a chain of aliases.
-/

namespace AcmeServer.Challenge

open Utf8

/-! ## The code -/

/-- A domain name as the parser of DNS messages returns it: with a dot at its end. -/
structure DnsName where
  text : Bytes
  dotted : text.getLast? = some 0x2E

/-- The types of the records that `validationBody` decodes. All others are skipped. -/
inductive RecordType where
  | a
  | aaaa
  | cname
  | txt
deriving DecidableEq, Repr

/-- The body of a record. -/
inductive Body where
  | a (address : Bytes)
  | aaaa (address : Bytes)
  | cname (target : DnsName)
  | txt (strings : List Bytes)

def Body.type : Body → RecordType
  | .a _ => .a
  | .aaaa _ => .aaaa
  | .cname _ => .cname
  | .txt _ => .txt

/-- `dnsmessage.ClassINET`. -/
def classINET : UInt16 := 1

/-- A record of an answer. The type in its header is the one its body was decoded by. -/
structure Resource where
  name : DnsName
  recordClass : UInt16
  body : Body

/-- Returns a terminal DNS proof failure with no record content. -/
def dnsFailure (detail : String) : HostError := .problem (newProblem .dns detail)

/-- The records found for the owner so far, and its alias if that is not empty. -/
structure Matched where
  matching : List Resource := []
  aliasName : Bytes := []

/-- A query, and the answers that were parsed from the response. -/
structure Query where
  name : Bytes
  answers : Except HostError (List Resource)

section Code

variable (u : CaseRules)

/-- Whether the record is of the Internet class and has the name as its owner. -/
def Resource.isAt (name : Bytes) (answer : Resource) : Bool :=
  answer.recordClass = classINET ∧ u.equalFold answer.name.text name

/-- One round of the loop of `matchingAnswers`. -/
def matchAnswer (name : Bytes) (type : RecordType) (found : Matched) (answer : Resource) :
    Except HostError Matched :=
  if answer.isAt u name then
    match answer.body with
    | .cname target =>
        if found.aliasName ≠ [] ∧ found.aliasName ≠ u.toLower target.text then
          .error (dnsFailure "conflicting CNAME records")
        else .ok { found with aliasName := u.toLower target.text }
    | body =>
        if body.type = type then .ok { found with matching := found.matching ++ [answer] }
        else .ok found
  else .ok found

/-- Selects records for one owner and rejects contradictory aliases at that owner. -/
def matchingAnswers (answers : List Resource) (name : Bytes) (type : RecordType) :
    Except HostError Matched := do
  let found ← answers.foldlM (matchAnswer u name type) {}
  if found.aliasName ≠ [] ∧ found.matching ≠ [] then
    .error (dnsFailure "CNAME and proof records share an owner")
  else .ok found

/-- The answers for the next round: those that are held, or else those of a new query. -/
def answersFor (server : Nat → Except HostError (List Resource)) (name : Bytes)
    (held : List Resource) (asked : List Query) :
    Except HostError (List Resource) × List Query :=
  if held.isEmpty then (server asked.length, asked ++ [⟨name, server asked.length⟩])
  else (.ok held, asked)

/-- The loop of `lookup` with the number of hops that are left, the names that were seen, the
answers that are held and the queries so far. The server's answers are numbered by the queries. -/
def lookupFrom (server : Nat → Except HostError (List Resource)) (type : RecordType) (left : Nat)
    (name : Bytes) (seen : List Bytes) (held : List Resource) (asked : List Query) :
    Except HostError (List Resource) × List Query :=
  match answersFor server name held asked with
  | (.error err, asked) => (.error err, asked)
  | (.ok answers, asked) =>
      match matchingAnswers u answers name type with
      | .error err => (.error err, asked)
      | .ok found =>
          if found.aliasName = [] then (.ok found.matching, asked)
          else
            match left with
            | 0 => (.error (dnsFailure "CNAME traversal limit or loop"), asked)
            | left + 1 =>
                if found.aliasName ∈ seen then
                  (.error (dnsFailure "CNAME traversal limit or loop"), asked)
                else
                  -- The answers are kept if one is for the alias, of whatever class or type.
                  let present := answers.any fun a => u.equalFold a.name.text found.aliasName
                  lookupFrom server type left found.aliasName (found.aliasName :: seen)
                    (if present then answers else []) asked

/-- `strings.TrimSuffix(name, ".")`. -/
def trimDot (name : Bytes) : Bytes :=
  if name.getLast? = some 0x2E then name.dropLast else name

/-- Traverses only answer-owner CNAMEs and never accepts unrelated records as proof. Returns the
records together with the queries that were made. -/
def lookup (server : Nat → Except HostError (List Resource)) (name : Bytes) (type : RecordType)
    (maxCNAMEs : Nat) : Except HostError (List Resource) × List Query :=
  let name := u.toLower (trimDot name) ++ [0x2E]
  lookupFrom u server type maxCNAMEs name [name] [] []

end Code

/-! ## Chains of aliases -/

/-- How names are compared: the owner of a record, the target of an alias and the name of a query
with a name of the chain. -/
structure Comparison where
  owner : Bytes → Bytes → Prop
  target : Bytes → Bytes → Prop
  query : Bytes → Bytes → Prop

/-- As the code compares names. -/
def folded (u : CaseRules) : Comparison where
  owner owner name := u.equalFold owner name
  target target name := u.toLower target = name
  query query name := query = name

/-- As DNS compares names. -/
def caseless : Comparison := ⟨SameCaseless, SameCaseless, SameCaseless⟩

/-- A chain of names, the last one first, in which every name is an alias of the next one. The
record that says so is in the answers of a query for one of the names up to there. -/
inductive Chain (c : Comparison) (asked : List Query) (first : Bytes) : List Bytes → Prop where
  | first : Chain c asked first [first]
  | step {name next queried : Bytes} {names : List Bytes} {q : Query} {answers : List Resource}
      {r : Resource} {target : DnsName} (hchain : Chain c asked first (name :: names))
      (hq : q ∈ asked) (hanswers : q.answers = .ok answers) (hqueried : queried ∈ name :: names)
      (hquery : c.query q.name queried) (hr : r ∈ answers) (hclass : r.recordClass = classINET)
      (hbody : r.body = .cname target) (howner : c.owner r.name.text name)
      (htarget : c.target target.text next) : Chain c asked first (next :: name :: names)

theorem Chain.mono {c : Comparison} {asked asked' : List Query} {first : Bytes}
    {names : List Bytes} (h : Chain c asked first names) (hsub : asked ⊆ asked') :
    Chain c asked' first names := by
  induction h with
  | first => exact .first
  | step _ hq hanswers hqueried hquery hr hclass hbody howner htarget ih =>
      exact .step ih (hsub hq) hanswers hqueried hquery hr hclass hbody howner htarget

/-! ## What the code guarantees -/

section Trail

variable {u : CaseRules} {name : Bytes} {type : RecordType}

theorem match_answer_ok {found found' : Matched} {r : Resource}
    (h : matchAnswer u name type found r = .ok found') :
    (found' = found ∧ (r.isAt u name → r.body.type ≠ .cname)) ∨
    (found' = { found with matching := found.matching ++ [r] } ∧ r.isAt u name ∧
      r.body.type = type ∧ r.body.type ≠ .cname) ∨
    ∃ target, r.isAt u name ∧ r.body = .cname target ∧
      found' = { found with aliasName := u.toLower target.text } ∧
      (found.aliasName = [] ∨ found.aliasName = u.toLower target.text) := by
  unfold matchAnswer at h
  split at h
  · next hat =>
      split at h
      · next target hbody =>
          split at h
          · cases h
          · next hsame =>
              cases h
              refine .inr (.inr ⟨target, hat, hbody, rfl, ?_⟩)
              by_contra hneither
              rw [not_or] at hneither
              exact hsame hneither
      · next hbody =>
          have hnot : r.body.type ≠ .cname := by
            intro hcname
            cases hr : r.body with
            | cname target => exact hbody target hr
            | a | aaaa | txt =>
                rw [hr] at hcname
                cases hcname
          split at h
          · next htype =>
              cases h
              exact .inr (.inl ⟨rfl, hat, htype, hnot⟩)
          · cases h
            exact .inl ⟨rfl, fun _ => hnot⟩
  · next hat =>
      cases h
      exact .inl ⟨rfl, fun hat' => absurd hat' hat⟩

/-- What was found in some answers: records of the type at the owner, and the alias of the owner if
it has one. -/
structure Gathered (u : CaseRules) (name : Bytes) (type : RecordType) (answers : List Resource)
    (found : Matched) : Prop where
  matching : ∀ r ∈ found.matching, r ∈ answers ∧ r.isAt u name ∧ r.body.type = type
  plain : found.aliasName = [] → ∀ r ∈ answers, r.isAt u name → r.body.type ≠ .cname
  named : found.aliasName ≠ [] → ∃ r ∈ answers, r.isAt u name ∧
    ∃ target, r.body = .cname target ∧ u.toLower target.text = found.aliasName

theorem DnsName.lower_ne_nil (u : CaseRules) (n : DnsName) : u.toLower n.text ≠ [] := by
  refine u.to_lower_ne_nil fun hempty => ?_
  have hdot := n.dotted
  rw [hempty] at hdot
  cases hdot

theorem Gathered.step {answers : List Resource} {found found' : Matched} {r : Resource}
    (h : Gathered u name type answers found)
    (hstep : matchAnswer u name type found r = .ok found') :
    Gathered u name type (answers ++ [r]) found' := by
  have hmatching : ∀ r' ∈ found.matching,
      r' ∈ answers ++ [r] ∧ r'.isAt u name ∧ r'.body.type = type := fun r' hr' =>
    ⟨List.mem_append_left _ (h.matching r' hr').1, (h.matching r' hr').2⟩
  have hplain (hempty : found.aliasName = []) (hr : r.isAt u name → r.body.type ≠ .cname) :
      ∀ r' ∈ answers ++ [r], r'.isAt u name → r'.body.type ≠ .cname := by
    intro r' hr' hat
    rcases List.mem_append.1 hr' with hr' | hr'
    · exact h.plain hempty r' hr' hat
    · rw [List.mem_singleton] at hr'
      exact hr' ▸ hr (hr' ▸ hat)
  have hnamed (hne : found.aliasName ≠ []) : ∃ r' ∈ answers ++ [r], r'.isAt u name ∧
      ∃ target, r'.body = .cname target ∧ u.toLower target.text = found.aliasName := by
    obtain ⟨r', hr', hat⟩ := h.named hne
    exact ⟨r', List.mem_append_left _ hr', hat⟩
  rcases match_answer_ok hstep with
    ⟨rfl, hr⟩ | ⟨rfl, hat, htype, hr⟩ | ⟨target, hat, hbody, rfl, -⟩
  · exact ⟨hmatching, fun hempty => hplain hempty hr, hnamed⟩
  · refine ⟨fun r' hr' => ?_, fun hempty => hplain hempty fun _ => hr, hnamed⟩
    rcases List.mem_append.1 hr' with hr' | hr'
    · exact hmatching r' hr'
    · obtain rfl := List.mem_singleton.1 hr'
      exact ⟨List.mem_append_right _ List.mem_cons_self, hat, htype⟩
  · exact ⟨hmatching, fun hempty => absurd hempty (target.lower_ne_nil u), fun _ =>
      ⟨r, List.mem_append_right _ List.mem_cons_self, hat, target, hbody, rfl⟩⟩

theorem Gathered.run {answers seen : List Resource} {found found' : Matched}
    (h : Gathered u name type seen found)
    (hrun : answers.foldlM (matchAnswer u name type) found = .ok found') :
    Gathered u name type (seen ++ answers) found' := by
  induction answers generalizing seen found with
  | nil =>
      cases hrun
      rwa [List.append_nil]
  | cons r rest ih =>
      rw [List.foldlM_cons] at hrun
      obtain ⟨next, hnext, hrest⟩ := Fallible.bind_eq_ok.1 hrun
      have hgathered := ih (h.step hnext) hrest
      rwa [List.append_assoc] at hgathered

/-- The records of the owner are returned only if it has no alias. -/
theorem matching_answers_ok {answers : List Resource} {found : Matched}
    (h : matchingAnswers u answers name type = .ok found) :
    Gathered u name type answers found := by
  obtain ⟨found', hrun, hcheck⟩ := Fallible.bind_eq_ok.1 h
  have hgathered : Gathered u name type ([] ++ answers) found' :=
    Gathered.run ⟨fun r hr => absurd hr List.not_mem_nil, fun _ r hr => absurd hr List.not_mem_nil,
      fun hne => absurd rfl hne⟩ hrun
  split at hcheck
  · cases hcheck
  · cases hcheck
    exact hgathered

/-- The answers that a round of the lookup works with are those of a query for a name of the chain,
and there is a new query at most. -/
theorem answers_for_spec (server : Nat → Except HostError (List Resource)) {name : Bytes}
    {names : List Bytes} {held : List Resource} {asked : List Query}
    (hheld : held = [] ∨ ∃ q ∈ asked, q.answers = .ok held ∧ q.name ∈ name :: names) :
    let round := answersFor server name held asked
    asked ⊆ round.2 ∧ round.2.length ≤ asked.length + 1 ∧
      ∀ answers, round.1 = .ok answers →
        ∃ q ∈ round.2, q.answers = .ok answers ∧ q.name ∈ name :: names := by
  unfold answersFor
  split
  · refine ⟨List.subset_append_left _ _, by simp, fun answers hanswers => ?_⟩
    exact ⟨_, List.mem_append_right _ List.mem_cons_self, hanswers, List.mem_cons_self⟩
  · next hsome =>
      refine ⟨List.Subset.refl _, Nat.le_succ _, fun answers hanswers => ?_⟩
      cases hanswers
      refine hheld.resolve_left fun hempty => hsome ?_
      rw [hempty]
      rfl

/-- A round of the lookup ends it with an error or the records of the name, or goes on with the
alias of the name. -/
theorem lookup_from_cases {server : Nat → Except HostError (List Resource)} (left : Nat)
    {name : Bytes} (seen : List Bytes) {held : List Resource} {asked asked' : List Query}
    {result : Except HostError (List Resource)}
    (hround : answersFor server name held asked = (result, asked')) :
    let outcome := lookupFrom u server type left name seen held asked
    (∃ err, outcome = (.error err, asked')) ∨
    ∃ answers found, result = .ok answers ∧ Gathered u name type answers found ∧
      ((found.aliasName = [] ∧ outcome = (.ok found.matching, asked')) ∨
        ∃ left', left = left' + 1 ∧ found.aliasName ≠ [] ∧ found.aliasName ∉ seen ∧
          ∃ held', (held' = [] ∨ held' = answers) ∧
            outcome = lookupFrom u server type left' found.aliasName (found.aliasName :: seen) held'
              asked') := by
  intro outcome
  have houtcome : outcome = lookupFrom u server type left name seen held asked := rfl
  rw [lookupFrom.eq_def, hround] at houtcome
  cases result with
  | error err => exact .inl ⟨err, houtcome⟩
  | ok answers =>
      cases hmatched : matchingAnswers u answers name type with
      | error err =>
          simp only [hmatched] at houtcome
          exact .inl ⟨err, houtcome⟩
      | ok found =>
          simp only [hmatched] at houtcome
          refine or_iff_not_imp_left.2 fun hnone => ?_
          refine ⟨answers, found, rfl, matching_answers_ok hmatched, ?_⟩
          split at houtcome
          · next hempty => exact .inl ⟨hempty, houtcome⟩
          · next hsome =>
              cases left with
              | zero => exact absurd ⟨_, houtcome⟩ hnone
              | succ left =>
                  dsimp only at houtcome
                  split at houtcome
                  · exact absurd ⟨_, houtcome⟩ hnone
                  · next hnew =>
                      refine .inr ⟨left, rfl, hsome, hnew, _, ?_, houtcome⟩
                      split
                      · exact .inr rfl
                      · exact .inl rfl

/-- Where a lookup has got to: a chain as the code compares names, without repetitions, and answers
that have records for its last name but no alias. -/
structure Arrived (u : CaseRules) (type : RecordType) (asked : List Query) (first : Bytes)
    (bound : Nat) (records : List Resource) (last : Bytes) (names : List Bytes)
    (answers : List Resource) : Prop where
  chain : Chain (folded u) asked first (last :: names)
  nodup : (last :: names).Nodup
  short : names.length ≤ bound
  answered : ∃ q ∈ asked, q.answers = .ok answers
  records : ∀ r ∈ records, r ∈ answers ∧ r.isAt u last ∧ r.body.type = type
  plain : ∀ r ∈ answers, r.isAt u last → r.body.type ≠ .cname

theorem lookup_from_arrives (server : Nat → Except HostError (List Resource)) (type : RecordType)
    (left : Nat) {first name : Bytes} {names : List Bytes} {held : List Resource}
    {asked : List Query}
    (hchain : Chain (folded u) asked first (name :: names)) (hnodup : (name :: names).Nodup)
    (hheld : held = [] ∨ ∃ q ∈ asked, q.answers = .ok held ∧ q.name ∈ name :: names) :
    let outcome := lookupFrom u server type left name (name :: names) held asked
    outcome.2.length ≤ asked.length + left + 1 ∧ ∀ records, outcome.1 = .ok records →
      ∃ last names' answers,
        Arrived u type outcome.2 first (names.length + left) records last names' answers := by
  induction left using Nat.strong_induction_on generalizing name names held asked with
  | _ left ih =>
      intro outcome
      obtain ⟨hsub, hlength, hanswered⟩ := answers_for_spec server hheld
      rcases hround : answersFor server name held asked with ⟨result, asked'⟩
      rw [hround] at hsub hlength hanswered
      dsimp only at hsub hlength hanswered
      have hchain' := hchain.mono hsub
      rcases lookup_from_cases left (name :: names) hround with ⟨err, hend⟩ | ⟨answers, found, rfl,
        hgathered, ⟨hempty, hend⟩ | ⟨left', rfl, hsome, hnew, held', hheld', hnext⟩⟩
      · change outcome = _ at hend
        rw [hend]
        exact ⟨by dsimp only; omega, nofun⟩
      · change outcome = _ at hend
        rw [hend]
        refine ⟨by dsimp only; omega, fun records hrecords => ?_⟩
        cases hrecords
        obtain ⟨q, hq, hanswers, -⟩ := hanswered answers rfl
        exact ⟨name, names, answers, hchain', hnodup, Nat.le_add_right _ _, ⟨q, hq, hanswers⟩,
          hgathered.matching, hgathered.plain hempty⟩
      · change outcome = _ at hnext
        rw [hnext]
        obtain ⟨q, hq, hanswers, hname⟩ := hanswered answers rfl
        obtain ⟨r, hr, hat, target, hbody, htarget⟩ := hgathered.named hsome
        have hat' : r.recordClass = classINET ∧ u.equalFold r.name.text name := by
          simpa [Resource.isAt] using hat
        have hlonger := Chain.step (c := folded u) hchain' hq hanswers hname rfl hr hat'.1 hbody
          hat'.2 htarget
        have hheld'' : held' = [] ∨ ∃ q ∈ asked', q.answers = .ok held' ∧
            q.name ∈ found.aliasName :: name :: names := by
          refine hheld'.imp_right ?_
          rintro rfl
          exact ⟨q, hq, hanswers, List.mem_cons_of_mem _ hname⟩
        obtain ⟨hcount, harrives⟩ := ih left' (Nat.lt_succ_self _) hlonger
          (List.nodup_cons.2 ⟨hnew, hnodup⟩) hheld''
        refine ⟨by omega, fun records hrecords => ?_⟩
        obtain ⟨last, names', answers', harrived⟩ := harrives records hrecords
        refine ⟨last, names', answers', { harrived with short := harrived.short.trans ?_ }⟩
        rw [List.length_cons]
        omega

/-- The answers of all queries are the server's. -/
theorem lookup_from_served (server : Nat → Except HostError (List Resource)) (left : Nat)
    {name : Bytes} {seen : List Bytes} {held : List Resource} {asked : List Query}
    (h : ∀ q ∈ asked, ∃ i, q.answers = server i) :
    ∀ q ∈ (lookupFrom u server type left name seen held asked).2, ∃ i, q.answers = server i := by
  induction left using Nat.strong_induction_on generalizing name seen held asked with
  | _ left ih =>
      rcases hround : answersFor server name held asked with ⟨result, asked'⟩
      have hserved : ∀ q ∈ asked', ∃ i, q.answers = server i := by
        unfold answersFor at hround
        split at hround <;> cases hround
        · intro q hq
          rcases List.mem_append.1 hq with hq | hq
          · exact h q hq
          · rw [List.mem_singleton.1 hq]
            exact ⟨_, rfl⟩
        · exact h
      rcases lookup_from_cases left seen hround with ⟨err, hend⟩ | ⟨answers, found, rfl, -,
        ⟨-, hend⟩ | ⟨left', rfl, -, -, held', -, hnext⟩⟩
      · rw [hend]
        exact hserved
      · rw [hend]
        exact hserved
      · rw [hnext]
        exact ih left' (Nat.lt_succ_self _) hserved

theorem is_at_iff {name : Bytes} {r : Resource} :
    r.isAt u name ↔ r.recordClass = classINET ∧ u.equalFold r.name.text name := by
  simp [Resource.isAt]

/-- The outcome of a lookup, as the code compares names. -/
theorem lookup_arrives (server : Nat → Except HostError (List Resource)) (name : Bytes)
    (type : RecordType) (maxCNAMEs : Nat) :
    let outcome := lookup u server name type maxCNAMEs
    outcome.2.length ≤ maxCNAMEs + 1 ∧ ∀ records, outcome.1 = .ok records →
      ∃ last names answers, Arrived u type outcome.2 (u.toLower (trimDot name) ++ [0x2E]) maxCNAMEs
        records last names answers := by
  have hfirst : Chain (folded u) [] (u.toLower (trimDot name) ++ [0x2E]) [_] := .first
  have h := lookup_from_arrives server type maxCNAMEs hfirst (List.nodup_singleton _) (.inl rfl)
  rwa [List.length_nil, List.length_nil, Nat.zero_add] at h

end Trail

end AcmeServer.Challenge
