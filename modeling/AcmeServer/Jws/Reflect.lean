import Mathlib.Data.Fintype.Card
import Mathlib.Data.List.Dedup
import Mathlib.Data.List.Lex
import Mathlib.Data.List.Sort
import AcmeServer.Jws.Json

/-!
# The member names of a struct type

Two functions say which JSON members a struct type has: `typeFields` of `encoding/json`, which the
decoder uses, and `jsonFields` of `internal/jws/json.go`, which the check of member names uses. Both
go through the embedded structs level by level. `typeFields` collects every field with the path to
it and lets the dominant field of a name win; `jsonFields` keeps for each name the last field of the
first level that has one.

`json_fields_eq` is the result: for types with valid tags, without ambiguous names and without a
tagged embedded field of an unexported type, the two agree on every name.
-/

namespace AcmeServer.Jws

/-! ## Types -/

/-- A type that JSON is decoded into. The basic ones are the scalars and the types other than
structs with an `UnmarshalJSON` of their own; struct types are known by their number. -/
inductive GoType (B : Type) (N : Nat) where
  | basic (b : B)
  | pointer (elem : GoType B N)
  | slice (elem : GoType B N)
  | array (length : Nat) (elem : GoType B N)
  | map (key : B) (elem : GoType B N)
  | struct (id : Fin N)
deriving DecidableEq

/-- A field of a struct type, with the value of the `json` key of its tag. -/
structure StructField (B : Type) (N : Nat) where
  name : String
  type : GoType B N
  tag : String := ""
  anonymous : Bool := false
  exported : Bool := true

/-- A struct type: its fields, whether it has a name, and whether its pointer type implements
`json.Unmarshaler`. -/
structure StructType (B : Type) (N : Nat) where
  fields : List (StructField B N)
  named : Bool := true
  unmarshaler : Bool := false

/-- The numerals of `Fin 3` name the struct types of a group of three. -/
instance neZeroThree : NeZero 3 := ⟨by decide⟩

/-- What the functions of this module ask about a character. -/
structure Unicode where
  /-- `unicode.IsLetter(c) || unicode.IsDigit(c)` for a character that is not ASCII. -/
  letterOrDigit : Char → Bool
  /-- The representative of the characters that a character folds to. -/
  fold : Char → Char

/-- The name with every character folded. -/
def Unicode.foldName (u : Unicode) (name : String) : List Char := name.toList.map u.fold

/-- `strings.EqualFold`. -/
def Unicode.equalFold (u : Unicode) (s t : String) : Bool := u.foldName s = u.foldName t

variable {B : Type} {N : Nat}

namespace GoType

/-- The type a pointer points to, and any other type itself. -/
def elem : GoType B N → GoType B N
  | .pointer e => e
  | t => t

/-- The number of a struct type. -/
def structID : GoType B N → Option (Fin N)
  | .struct id => some id
  | _ => none

/-- The type behind all pointers. -/
def base : GoType B N → GoType B N
  | .pointer e => e.base
  | t => t

end GoType

/-- The name in a tag, which ends at the first comma. -/
def tagName (tag : String) : String := String.ofList (tag.toList.takeWhile (· ≠ ','))

/-- `isValidTag` of `encoding/json`. -/
def isValidTag (u : Unicode) (name : String) : Bool :=
  name ≠ "" && name.toList.all fun c =>
    c ∈ "!#$%&()*+-./:;<=>?@[]^_\x7b|\x7d~ ".toList || c.isAlphanum || u.letterOrDigit c

/-- What a field of a struct contributes to the members. -/
inductive Entry (B : Type) (N : Nat) where
  | skipped
  | embedded (id : Fin N)
  | member (name : String) (tagged : Bool) (type : GoType B N)

/-! ## `jsonFields` -/

/-- The body of the loop over the fields of a struct in `jsonFields`. -/
def StructField.jsonEntry (f : StructField B N) : Entry B N :=
  if f.tag = "-" then .skipped
  else
    match if f.anonymous ∧ tagName f.tag = "" then f.type.elem.structID else none with
    | some id => .embedded id
    | none =>
        if f.exported = false then .skipped
        else .member (if tagName f.tag = "" then f.name else tagName f.tag)
          (tagName f.tag ≠ "") f.type

/-- The local variables of `jsonFields` within a level. The last entry of a map comes first. -/
structure JsonScan (B : Type) (N : Nat) where
  found : List (String × GoType B N) := []
  visited : List (Fin N)
  next : List (Fin N) := []

/-- One field. -/
def JsonScan.field (fields : List (String × GoType B N)) (s : JsonScan B N)
    (f : StructField B N) : JsonScan B N :=
  match f.jsonEntry with
  | .skipped => s
  | .embedded id => { s with next := s.next ++ [id] }
  | .member name _ type =>
      if (fields.lookup name).isSome then s else { s with found := (name, type) :: s.found }

/-- One struct type of the level. -/
def JsonScan.struct (structs : Fin N → StructType B N) (fields : List (String × GoType B N))
    (s : JsonScan B N) (id : Fin N) : JsonScan B N :=
  if id ∈ s.visited then s
  else (structs id).fields.foldl (JsonScan.field fields) { s with visited := id :: s.visited }

/-- The loop over the levels. There are no more levels than struct types. -/
def jsonLevels (structs : Fin N → StructType B N) :
    Nat → List (Fin N) → List (Fin N) → List (String × GoType B N) → List (String × GoType B N)
  | 0, _, _, fields => fields
  | _ + 1, [], _, fields => fields
  | fuel + 1, level, visited, fields =>
      let s := level.foldl (JsonScan.struct structs fields) { visited }
      jsonLevels structs fuel s.next s.visited (s.found ++ fields)

/-- Returns the exact JSON member names of a struct type with the type each one decodes into. -/
def jsonFields (structs : Fin N → StructType B N) (id : Fin N) : List (String × GoType B N) :=
  jsonLevels structs (N + 1) [id] [] []

/-! ## `typeFields` -/

/-- The body of the loop over the fields of a struct in `typeFields`. -/
def StructField.typeEntry (u : Unicode) (f : StructField B N) : Entry B N :=
  if f.anonymous ∧ f.exported = false ∧ f.type.elem.structID = none then .skipped
  else if f.anonymous = false ∧ f.exported = false then .skipped
  else if f.tag = "-" then .skipped
  else
    let name := if isValidTag u (tagName f.tag) then tagName f.tag else ""
    match if name = "" ∧ f.anonymous then f.type.elem.structID else none with
    | some id => .embedded id
    | none => .member (if name = "" then f.name else name) (name ≠ "") f.type

/-- A field with the path to it. -/
structure Field (B : Type) (N : Nat) where
  name : String
  tagged : Bool
  index : List Nat
  type : GoType B N

/-- The local variables of `typeFields` within a level. `nextCount` has a struct type as often as
the level embeds it. -/
structure TypeScan (B : Type) (N : Nat) where
  fields : List (Field B N) := []
  visited : List (Fin N)
  next : List (Fin N × List Nat) := []
  nextCount : List (Fin N) := []

/-- One field of a struct type that the level has as often as `count` says. -/
def TypeScan.field (u : Unicode) (count : Nat) (path : List Nat) (s : TypeScan B N)
    (f : StructField B N × Nat) : TypeScan B N :=
  match f.1.typeEntry u with
  | .skipped => s
  | .embedded id =>
      { s with
        nextCount := s.nextCount ++ [id]
        next := if id ∈ s.nextCount then s.next else s.next ++ [(id, path ++ [f.2])] }
  | .member name tagged type =>
      -- A second copy makes the name ambiguous.
      { s with fields := s.fields ++
        List.replicate (if count > 1 then 2 else 1) ⟨name, tagged, path ++ [f.2], type⟩ }

/-- One struct type of the level. -/
def TypeScan.struct (u : Unicode) (structs : Fin N → StructType B N) (count : List (Fin N))
    (s : TypeScan B N) (st : Fin N × List Nat) : TypeScan B N :=
  if st.1 ∈ s.visited then s
  else (structs st.1).fields.zipIdx.foldl (TypeScan.field u (count.count st.1) st.2)
    { s with visited := st.1 :: s.visited }

/-- The fields of each level. -/
def typeLevels (u : Unicode) (structs : Fin N → StructType B N) :
    Nat → List (Fin N × List Nat) → List (Fin N) → List (Fin N) → List (List (Field B N))
  | 0, _, _, _ => []
  | _ + 1, [], _, _ => []
  | fuel + 1, current, count, visited =>
      let s := current.foldl (TypeScan.struct u structs count) { visited }
      s.fields :: typeLevels u structs fuel s.next s.nextCount s.visited

/-- Every field that is found. -/
def foundFields (u : Unicode) (structs : Fin N → StructType B N) (id : Fin N) :
    List (Field B N) :=
  (typeLevels u structs (N + 1) [(id, [])] [] []).flatten

/-- The fields of a name on the first level that has one. -/
def topFields (fields : List (Field B N)) (name : String) : List (Field B N) :=
  let group := fields.filter (·.name = name)
  group.filter fun f => group.all fun g => f.index.length ≤ g.index.length

/-- The field that a name stands for: the only one on its level, or the only tagged one. -/
def dominantField (top : List (Field B N)) : Option (Field B N) :=
  match if top.any (·.tagged) then top.filter (·.tagged) else top with
  | [f] => some f
  | _ => none

/-- The fields that the decoder assigns to, in the order of their paths. -/
def typeFields (u : Unicode) (structs : Fin N → StructType B N) (id : Fin N) :
    List (Field B N) :=
  let fields := foundFields u structs id
  let out := (fields.map (·.name)).dedup.filterMap fun name => dominantField (topFields fields name)
  out.insertionSort fun f g => f.index ≤ g.index

/-! ## The struct types of a level -/

/-- The struct types of a level that are looked at: each one where it comes first, if no earlier
level has it. -/
def fresh (visited : List (Fin N)) : List (Fin N) → List (Fin N)
  | [] => []
  | id :: rest => if id ∈ visited then fresh visited rest else id :: fresh (id :: visited) rest

theorem mem_fresh {id : Fin N} {level visited : List (Fin N)} :
    id ∈ fresh visited level ↔ id ∈ level ∧ id ∉ visited := by
  induction level generalizing visited with
  | nil => simp [fresh]
  | cons first rest ih =>
      unfold fresh
      split
      · rename_i hvisited
        rw [ih, List.mem_cons]
        constructor
        · exact fun h => ⟨.inr h.1, h.2⟩
        · rintro ⟨rfl | h, hnew⟩
          · exact absurd hvisited hnew
          · exact ⟨h, hnew⟩
      · rename_i hvisited
        rw [List.mem_cons, ih, List.mem_cons, List.mem_cons, not_or]
        by_cases hid : id = first
        · subst hid
          simp [hvisited]
        · simp [hid]

theorem fresh_append (visited level more : List (Fin N)) :
    fresh visited (level ++ more) =
      fresh visited level ++ fresh ((fresh visited level).reverse ++ visited) more := by
  induction level generalizing visited with
  | nil => rfl
  | cons id rest ih =>
      rw [List.cons_append, fresh, fresh]
      split
      · exact ih visited
      · rw [ih, List.cons_append, List.reverse_cons, List.append_assoc]
        rfl

/-- Repetitions in a level make no difference. -/
theorem fresh_fresh {level visited seen : List (Fin N)} (h : ∀ id ∈ seen, id ∈ visited) :
    fresh visited (fresh seen level) = fresh visited level := by
  induction level generalizing visited seen with
  | nil => rfl
  | cons id rest ih =>
      by_cases hseen : id ∈ seen
      · rw [fresh, if_pos hseen, ih h, fresh, if_pos (h id hseen)]
      · rw [fresh, if_neg hseen, fresh, fresh]
        split
        · rename_i hvisited
          refine ih fun other hother => ?_
          rcases List.mem_cons.1 hother with rfl | hother
          · exact hvisited
          · exact h other hother
        · rw [ih]
          intro other hother
          rcases List.mem_cons.1 hother with rfl | hother
          · exact List.mem_cons_self
          · exact List.mem_cons_of_mem _ (h other hother)

theorem fresh_nodup {visited : List (Fin N)} (h : visited.Nodup) (level : List (Fin N)) :
    ((fresh visited level).reverse ++ visited).Nodup := by
  induction level generalizing visited with
  | nil => exact h
  | cons id rest ih =>
      rw [fresh]
      split
      · exact ih h
      · rename_i hnew
        simpa using ih (List.nodup_cons.2 ⟨hnew, h⟩)

/-! ## What `jsonFields` finds -/

/-- The member of an entry. -/
def Entry.pair : Entry B N → Option (String × GoType B N)
  | .member name _ type => some (name, type)
  | _ => none

/-- The embedded struct of an entry. -/
def Entry.inner : Entry B N → Option (Fin N)
  | .embedded id => some id
  | _ => none

/-- The members that a struct type has of its own. -/
def StructType.members (st : StructType B N) : List (String × GoType B N) :=
  st.fields.filterMap fun f => f.jsonEntry.pair

/-- The struct types that a struct type embeds. -/
def StructType.embeds (st : StructType B N) : List (Fin N) :=
  st.fields.filterMap fun f => f.jsonEntry.inner

section Json

variable {structs : Fin N → StructType B N} {fields : List (String × GoType B N)}

theorem json_field_fold (fs : List (StructField B N)) (s : JsonScan B N) :
    fs.foldl (JsonScan.field fields) s =
      ⟨((fs.filterMap fun f => f.jsonEntry.pair).filter fun m =>
          (fields.lookup m.1).isNone).reverse ++ s.found,
        s.visited, s.next ++ fs.filterMap fun f => f.jsonEntry.inner⟩ := by
  induction fs generalizing s with
  | nil => simp
  | cons f rest ih =>
      rw [List.foldl_cons, ih]
      unfold JsonScan.field
      cases hentry : f.jsonEntry with
      | skipped => simp [hentry, Entry.pair, Entry.inner]
      | embedded id => simp [hentry, Entry.pair, Entry.inner]
      | member name tagged type =>
          cases hlookup : fields.lookup name <;> simp [hentry, Entry.pair, Entry.inner, hlookup]

theorem json_level_fold (level : List (Fin N)) (s : JsonScan B N) :
    level.foldl (JsonScan.struct structs fields) s =
      ⟨(((fresh s.visited level).flatMap fun id => (structs id).members).filter fun m =>
          (fields.lookup m.1).isNone).reverse ++ s.found,
        (fresh s.visited level).reverse ++ s.visited,
        s.next ++ (fresh s.visited level).flatMap fun id => (structs id).embeds⟩ := by
  induction level generalizing s with
  | nil => simp [fresh]
  | cons id rest ih =>
      rw [List.foldl_cons, ih, JsonScan.struct, fresh]
      split
      · rfl
      · rw [json_field_fold]
        simp [StructType.members, StructType.embeds]

theorem json_levels_nil (fuel : Nat) (visited : List (Fin N)) :
    jsonLevels structs fuel [] visited fields = fields := by
  cases fuel <;> rfl

/-- Every level but the last has a struct type that no level before it has. -/
theorem json_levels_fuel {fuel : Nat} {level visited : List (Fin N)} (hnodup : visited.Nodup)
    (hfuel : N < fuel + visited.length) (more : Nat) :
    jsonLevels structs (fuel + more) level visited fields =
      jsonLevels structs fuel level visited fields := by
  induction fuel generalizing level visited fields with
  | zero =>
      have hcard := List.Nodup.length_le_card hnodup
      rw [Fintype.card_fin] at hcard
      omega
  | succ fuel ih =>
      cases level with
      | nil => rw [json_levels_nil, json_levels_nil]
      | cons id rest =>
          rw [Nat.add_right_comm, jsonLevels, jsonLevels, json_level_fold]
          · dsimp only
            cases hnow : fresh visited (id :: rest) with
            | nil => simp [json_levels_nil]
            | cons first others =>
                rw [← hnow]
                refine ih (fresh_nodup hnodup _) ?_
                rw [List.length_append, List.length_reverse, hnow, List.length_cons]
                omega
          · exact List.cons_ne_nil _ _
          · exact List.cons_ne_nil _ _

/-- The loop of `jsonFields` has ended within the bound on its levels. -/
theorem json_fields_levels (structs : Fin N → StructType B N) (id : Fin N) (more : Nat) :
    jsonLevels structs (N + 1 + more) [id] [] [] = jsonFields structs id :=
  json_levels_fuel List.nodup_nil (Nat.lt_succ_self N) more

end Json

/-! ## What `typeFields` finds -/

/-- The last type that a list of members gives to a name. -/
def lastType (members : List (String × GoType B N)) (name : String) : Option (GoType B N) :=
  members.reverse.lookup name

theorem last_type_append (first last : List (String × GoType B N)) (name : String) :
    lastType (first ++ last) name = (lastType last name).or (lastType first name) := by
  rw [lastType, List.reverse_append, List.lookup_append]
  rfl

/-- The name and the type of a field. -/
def Field.pair (f : Field B N) : String × GoType B N := (f.name, f.type)

/-- The fields that one field of a struct type adds. -/
def foundEntry (count : Nat) (path : List Nat) (i : Nat) : Entry B N → List (Field B N)
  | .member name tagged type =>
      List.replicate (if count > 1 then 2 else 1) ⟨name, tagged, path ++ [i], type⟩
  | _ => []

theorem last_type_found (count : Nat) (path : List Nat) (i : Nat) (e : Entry B N)
    (name : String) :
    lastType ((foundEntry count path i e).map Field.pair) name = lastType e.pair.toList name := by
  cases e with
  | skipped => rfl
  | embedded id => rfl
  | member member tagged type =>
      simp only [foundEntry, Entry.pair]
      split
      · exact (last_type_append [(member, type)] [(member, type)] name).trans Option.or_self
      · rfl

section Found

variable {u : Unicode} {structs : Fin N → StructType B N}

/-- What a scan has seen of the next level: the embedded structs, each one with the first path to
it, which is longer than those of this level. -/
structure TypeScan.Queued (s : TypeScan B N) (depth : Nat) : Prop where
  next : s.next.map Prod.fst = fresh [] s.nextCount
  path : ∀ st ∈ s.next, st.2.length = depth + 1

theorem TypeScan.Queued.field {s : TypeScan B N} {count : Nat} {path : List Nat}
    (h : s.Queued path.length) (f : StructField B N × Nat) :
    (s.field u count path f).Queued path.length := by
  unfold TypeScan.field
  cases f.1.typeEntry u with
  | skipped => exact h
  | member name tagged type => exact ⟨h.next, h.path⟩
  | embedded id =>
      by_cases hseen : id ∈ s.nextCount
      · refine ⟨?_, ?_⟩
        · simp only [if_pos hseen]
          rw [fresh_append, h.next, fresh, if_pos, fresh, List.append_nil]
          simpa [mem_fresh] using hseen
        · simp only [if_pos hseen]
          exact h.path
      · refine ⟨?_, ?_⟩
        · simp only [if_neg hseen]
          rw [fresh_append, List.map_append, h.next, fresh, if_neg]
          · rfl
          · simpa [mem_fresh] using hseen
        · simp only [if_neg hseen, List.forall_mem_append, List.forall_mem_singleton]
          exact ⟨h.path, by simp⟩

theorem type_field_fold (count : Nat) (path : List Nat) (fs : List (StructField B N × Nat))
    (s : TypeScan B N) :
    let s' := fs.foldl (TypeScan.field u count path) s
    s'.fields = s.fields ++ fs.flatMap (fun f => foundEntry count path f.2 (f.1.typeEntry u)) ∧
    s'.visited = s.visited ∧
    s'.nextCount = s.nextCount ++ fs.filterMap (fun f => (f.1.typeEntry u).inner) ∧
    (s.Queued path.length → s'.Queued path.length) := by
  induction fs generalizing s with
  | nil => simp
  | cons f rest ih =>
      intro s'
      obtain ⟨hfields, hvisited, hcount, hqueued⟩ := ih (s.field u count path f)
      refine ⟨hfields.trans ?_, hvisited.trans ?_, hcount.trans ?_, fun h => hqueued (h.field f)⟩
      all_goals
        unfold TypeScan.field
        cases hentry : f.1.typeEntry u <;> simp [hentry, foundEntry, Entry.inner]

/-- The two functions read the fields of the struct types in the same way. -/
def SameEntries (u : Unicode) (structs : Fin N → StructType B N) : Prop :=
  ∀ id, ∀ f ∈ (structs id).fields, f.typeEntry u = f.jsonEntry

variable {count : List (Fin N)} {depth : Nat}

/-- The fields of one struct type. -/
theorem last_type_struct (h : SameEntries u structs) (id : Fin N) (copies : Nat) (path : List Nat)
    (name : String) :
    lastType (((structs id).fields.zipIdx.flatMap fun f =>
      foundEntry copies path f.2 (f.1.typeEntry u)).map Field.pair) name =
      lastType (structs id).members name := by
  unfold StructType.members
  have hfields := h id
  generalize (structs id).fields = fs at hfields
  have hfrom : ∀ k, lastType (((fs.zipIdx k).flatMap fun f =>
      foundEntry copies path f.2 (f.1.typeEntry u)).map Field.pair) name =
      lastType (fs.filterMap fun f => f.jsonEntry.pair) name := by
    induction fs with
    | nil => exact fun _ => rfl
    | cons f rest ih =>
        intro k
        have hrest := ih (fun g hg => hfields g (List.mem_cons_of_mem _ hg)) (k + 1)
        rw [List.zipIdx_cons, List.flatMap_cons, List.map_append, last_type_append, hrest,
          last_type_found, hfields f List.mem_cons_self, ← last_type_append]
        cases hpair : f.jsonEntry.pair <;> simp [hpair]
  exact hfrom 0

/-- What a scan adds when it looks at some struct types of a level. -/
structure Scanned (structs : Fin N → StructType B N) (depth : Nat) (now : List (Fin N))
    (s s' : TypeScan B N) : Prop where
  visited : s'.visited = now.reverse ++ s.visited
  nextCount : s'.nextCount = s.nextCount ++ now.flatMap fun id => (structs id).embeds
  queued : s.Queued depth → s'.Queued depth
  last : ∀ name, lastType (s'.fields.map Field.pair) name =
    (lastType (now.flatMap fun id => (structs id).members) name).or
      (lastType (s.fields.map Field.pair) name)
  index : (∀ f ∈ s.fields, f.index.length = depth + 1) →
    ∀ f ∈ s'.fields, f.index.length = depth + 1

theorem Scanned.refl (s : TypeScan B N) : Scanned structs depth [] s s where
  visited := rfl
  nextCount := (List.append_nil _).symm
  queued := id
  last _ := rfl
  index := id

theorem Scanned.trans {now later : List (Fin N)} {s s' s'' : TypeScan B N}
    (h : Scanned structs depth now s s') (h' : Scanned structs depth later s' s'') :
    Scanned structs depth (now ++ later) s s'' where
  visited := by rw [h'.visited, h.visited, List.reverse_append, List.append_assoc]
  nextCount := by rw [h'.nextCount, h.nextCount, List.flatMap_append, List.append_assoc]
  queued := h'.queued ∘ h.queued
  last name := by
    rw [h'.last, h.last, List.flatMap_append, last_type_append, Option.or_assoc]
  index := h'.index ∘ h.index

theorem scanned_struct (h : SameEntries u structs) {s : TypeScan B N} {st : Fin N × List Nat}
    (hnew : st.1 ∉ s.visited) (hpath : st.2.length = depth) :
    Scanned structs depth [st.1] s (s.struct u structs count st) := by
  have hstruct : s.struct u structs count st =
      (structs st.1).fields.zipIdx.foldl (TypeScan.field u (count.count st.1) st.2)
        { s with visited := st.1 :: s.visited } := if_neg hnew
  obtain ⟨hfields, hvisited, hcount, hqueued⟩ := type_field_fold (u := u)
    (count.count st.1) st.2 (structs st.1).fields.zipIdx { s with visited := st.1 :: s.visited }
  rw [← hstruct] at hfields hvisited hcount hqueued
  subst hpath
  refine ⟨hvisited, hcount.trans ?_, fun hq => hqueued ⟨hq.next, hq.path⟩, fun name => ?_,
    fun hindex f hf => ?_⟩
  · have hfst : (structs st.1).fields.zipIdx.filterMap (fun f => (f.1.typeEntry u).inner) =
        (structs st.1).fields.filterMap fun f => (f.typeEntry u).inner := by
      conv_rhs => rw [← List.zipIdx_map_fst 0 (structs st.1).fields, List.filterMap_map]
      rfl
    rw [hfst, List.flatMap_singleton, StructType.embeds]
    exact congrArg _ (List.filterMap_congr fun f hf => by rw [h st.1 f hf])
  · rw [hfields, List.map_append, last_type_append, last_type_struct h, List.flatMap_singleton]
  · rw [hfields, List.mem_append, List.mem_flatMap] at hf
    rcases hf with hf | ⟨sf, hsf, hf⟩
    · exact hindex f hf
    · cases hentry : sf.1.typeEntry u with
      | skipped | embedded =>
          rw [hentry] at hf
          cases hf
      | member name tagged type =>
          rw [hentry] at hf
          rw [List.eq_of_mem_replicate hf, List.length_append]
          rfl

theorem scanned_level (h : SameEntries u structs) (current : List (Fin N × List Nat))
    (hpath : ∀ st ∈ current, st.2.length = depth) (s : TypeScan B N) :
    Scanned structs depth (fresh s.visited (current.map Prod.fst)) s
      (current.foldl (TypeScan.struct u structs count) s) := by
  induction current generalizing s with
  | nil => exact .refl s
  | cons st rest ih =>
      have hrest := ih (fun other hother => hpath other (List.mem_cons_of_mem _ hother))
      rw [List.foldl_cons, List.map_cons, fresh]
      by_cases hseen : st.1 ∈ s.visited
      · rw [if_pos hseen, TypeScan.struct, if_pos hseen]
        exact hrest s
      · rw [if_neg hseen]
        have hfirst : Scanned structs depth [st.1] s (s.struct u structs count st) :=
          scanned_struct h hseen (hpath st List.mem_cons_self)
        have hvisited : (s.struct u structs count st).visited = st.1 :: s.visited := hfirst.visited
        exact hfirst.trans (hvisited ▸ hrest (s.struct u structs count st))

/-- The type that the first level with the name gives to it. -/
def firstType : List (List (Field B N)) → String → Option (GoType B N)
  | [], _ => none
  | level :: rest, name => (lastType (level.map Field.pair) name).or (firstType rest name)

/-- `jsonFields` hides the members of deeper levels. -/
theorem lookup_hidden (members fields : List (String × GoType B N)) (name : String) :
    ((members.filter fun m => (fields.lookup m.1).isNone).reverse ++ fields).lookup name =
      (fields.lookup name).or (lastType members name) := by
  rw [List.lookup_append, ← List.filter_reverse, lastType]
  generalize members.reverse = ms
  induction ms with
  | nil => simp
  | cons m rest ih =>
      obtain ⟨member, type⟩ := m
      by_cases hname : name = member
      · subst hname
        cases hlookup : fields.lookup name with
        | none => simp [hlookup]
        | some hidden =>
            rw [hlookup] at ih
            simpa [hlookup] using ih
      · have hother : (name == member) = false := beq_false_of_ne hname
        cases hlookup : fields.lookup member with
        | none =>
            rw [List.filter_cons_of_pos (by simp [hlookup])]
            simpa [List.lookup_cons, hother] using ih
        | some hidden =>
            rw [List.filter_cons_of_neg (by simp [hlookup])]
            simpa [List.lookup_cons, hother] using ih

/-- The loop of `jsonFields` gives every name the type from the first level that has it. -/
theorem json_levels_lookup (h : SameEntries u structs) (name : String) (fuel : Nat)
    {level visited count : List (Fin N)} {current : List (Fin N × List Nat)}
    (hlevel : current.map Prod.fst = fresh [] level) (hpath : ∀ st ∈ current, st.2.length = depth)
    (fields : List (String × GoType B N)) :
    (jsonLevels structs fuel level visited fields).lookup name =
      (fields.lookup name).or
        (firstType (typeLevels u structs fuel current count visited) name) := by
  induction fuel generalizing level visited count current fields depth with
  | zero => simp [jsonLevels, typeLevels, firstType]
  | succ fuel ih =>
      cases level with
      | nil =>
          rw [List.map_eq_nil_iff.1 hlevel]
          simp [jsonLevels, typeLevels, firstType]
      | cons id rest =>
          cases current with
          | nil => simp [fresh] at hlevel
          | cons st others =>
              have hscan : Scanned structs depth _ { visited }
                  ((st :: others).foldl (TypeScan.struct u structs count) { visited }) :=
                scanned_level h (st :: others) hpath { visited }
              have hqueued := hscan.queued ⟨rfl, fun st hst => absurd hst List.not_mem_nil⟩
              -- Both functions look at the same struct types of the level.
              have hnow :
                  fresh visited ((st :: others).map Prod.fst) = fresh visited (id :: rest) := by
                rw [hlevel, fresh_fresh fun other hother => absurd hother List.not_mem_nil]
              rw [hnow] at hscan
              have hnext := hqueued.next
              rw [hscan.nextCount, List.nil_append] at hnext
              have hrest : ∀ fields, (jsonLevels structs fuel
                  ((fresh visited (id :: rest)).flatMap fun id => (structs id).embeds)
                  ((fresh visited (id :: rest)).reverse ++ visited) fields).lookup name =
                  (fields.lookup name).or (firstType (typeLevels u structs fuel _
                    ((fresh visited (id :: rest)).flatMap fun id => (structs id).embeds)
                    ((fresh visited (id :: rest)).reverse ++ visited)) name) :=
                ih hnext hqueued.path
              rw [jsonLevels, typeLevels, firstType, json_level_fold]
              · dsimp only
                rw [hscan.visited, hscan.nextCount, List.append_nil, List.nil_append, hrest,
                  lookup_hidden, hscan.last, Option.or_assoc]
                simp [lastType]
              · exact List.cons_ne_nil _ _
              · exact List.cons_ne_nil _ _

/-- The paths to the fields of a level are as long as the level is deep. -/
theorem type_levels_index (h : SameEntries u structs) (fuel : Nat) {visited count : List (Fin N)}
    {current : List (Fin N × List Nat)} (hpath : ∀ st ∈ current, st.2.length = depth) (k : Nat)
    {level : List (Field B N)}
    (hlevel : (typeLevels u structs fuel current count visited)[k]? = some level) :
    ∀ f ∈ level, f.index.length = depth + k + 1 := by
  induction fuel generalizing k visited count current depth with
  | zero => simp [typeLevels] at hlevel
  | succ fuel ih =>
      cases current with
      | nil => simp [typeLevels] at hlevel
      | cons st others =>
          have hscan : Scanned structs depth _ { visited }
              ((st :: others).foldl (TypeScan.struct u structs count) { visited }) :=
            scanned_level h (st :: others) hpath { visited }
          have hqueued := hscan.queued ⟨rfl, fun st hst => absurd hst List.not_mem_nil⟩
          rw [typeLevels] at hlevel
          · cases k with
            | zero =>
                cases hlevel
                exact hscan.index fun f hf => absurd hf List.not_mem_nil
            | succ k =>
                intro f hf
                rw [ih hqueued.path k hlevel f hf]
                omega
          · exact List.cons_ne_nil _ _

end Found

/-! ## The paths -/

section Paths

variable {u : Unicode} {structs : Fin N → StructType B N}

/-- The field at the end of a path through embedded structs. -/
def fieldAt (structs : Fin N → StructType B N) : Fin N → List Nat → Option (StructField B N)
  | _, [] => none
  | id, [i] => (structs id).fields[i]?
  | id, i :: rest =>
      (structs id).fields[i]?.bind fun f => f.type.elem.structID.bind fun inner =>
        fieldAt structs inner rest

/-- The path goes from the first struct type to the second. -/
def Leads (structs : Fin N → StructType B N) (root : Fin N) (path : List Nat) (id : Fin N) : Prop :=
  ∀ rest, rest ≠ [] → fieldAt structs root (path ++ rest) = fieldAt structs id rest

theorem field_at_cons {id inner : Fin N} {i : Nat} {rest : List Nat} {f : StructField B N}
    (hfield : (structs id).fields[i]? = some f) (hinner : f.type.elem.structID = some inner)
    (hrest : rest ≠ []) : fieldAt structs id (i :: rest) = fieldAt structs inner rest := by
  cases rest with
  | nil => exact absurd rfl hrest
  | cons j more => simp [fieldAt, hfield, hinner]

theorem field_at_mem {id : Fin N} {path : List Nat} {f : StructField B N}
    (h : fieldAt structs id path = some f) : ∃ inner, f ∈ (structs inner).fields := by
  induction path generalizing id with
  | nil => cases h
  | cons i rest ih =>
      cases rest with
      | nil => exact ⟨id, List.mem_of_getElem? h⟩
      | cons j more =>
          simp only [fieldAt, Option.bind_eq_some_iff] at h
          obtain ⟨_, _, inner, _, hrest⟩ := h
          exact ih hrest

/-- `jsonFields` takes exported fields only for members. -/
theorem json_member_exported {f : StructField B N} {name : String} {tagged : Bool}
    {type : GoType B N} (h : f.jsonEntry = .member name tagged type) : f.exported = true := by
  unfold StructField.jsonEntry at h
  split at h
  · cases h
  · split at h
    · cases h
    · split at h
      · cases h
      · rename_i hexported
        simpa using hexported

theorem embedded_struct {f : StructField B N} {id : Fin N} (h : f.typeEntry u = .embedded id) :
    f.type.elem.structID = some id := by
  unfold StructField.typeEntry at h
  generalize (if isValidTag u (tagName f.tag) then tagName f.tag else "") = name at h
  by_cases hembedded : name = "" ∧ f.anonymous = true
  · simp only [if_pos hembedded] at h
    cases hstruct : f.type.elem.structID with
    | none =>
        rw [hstruct] at h
        split_ifs at h
    | some inner =>
        rw [hstruct] at h
        split_ifs at h <;> exact congrArg some (Entry.embedded.inj h)
  · simp only [if_neg hembedded] at h
    split_ifs at h

/-- The paths that a scan has found lead where they should. -/
structure TypeScan.Resolved (u : Unicode) (structs : Fin N → StructType B N) (root : Fin N)
    (s : TypeScan B N) : Prop where
  fields : ∀ f ∈ s.fields, ∃ sf, fieldAt structs root f.index = some sf ∧
    sf.typeEntry u = .member f.name f.tagged f.type
  next : ∀ st ∈ s.next, Leads structs root st.2 st.1

theorem TypeScan.Resolved.field {root id : Fin N} {path : List Nat} {count : Nat}
    {s : TypeScan B N} (h : s.Resolved u structs root) (hpath : Leads structs root path id)
    {f : StructField B N × Nat} (hf : (structs id).fields[f.2]? = some f.1) :
    (s.field u count path f).Resolved u structs root := by
  unfold TypeScan.field
  cases hentry : f.1.typeEntry u with
  | skipped => exact h
  | member name tagged type =>
      refine ⟨fun g hg => ?_, h.next⟩
      rcases List.mem_append.1 hg with hg | hg
      · exact h.fields g hg
      · rw [List.eq_of_mem_replicate hg]
        refine ⟨f.1, ?_, hentry⟩
        rw [hpath [f.2] (List.cons_ne_nil _ _)]
        exact hf
  | embedded inner =>
      refine ⟨h.fields, fun st hst => ?_⟩
      have hinner : Leads structs root (path ++ [f.2]) inner := by
        intro rest hrest
        rw [List.append_assoc, hpath _ (by simp)]
        exact field_at_cons hf (embedded_struct hentry) hrest
      dsimp only at hst
      split at hst
      · exact h.next st hst
      · rcases List.mem_append.1 hst with hst | hst
        · exact h.next st hst
        · rw [List.mem_singleton.1 hst]
          exact hinner

theorem TypeScan.Resolved.level {root : Fin N} {count : List (Fin N)}
    {current : List (Fin N × List Nat)} (hcurrent : ∀ st ∈ current, Leads structs root st.2 st.1)
    {s : TypeScan B N} (h : s.Resolved u structs root) :
    (current.foldl (TypeScan.struct u structs count) s).Resolved u structs root := by
  refine List.foldlRecOn current _ h fun s hs st hst => ?_
  unfold TypeScan.struct
  split
  · exact hs
  · refine List.foldlRecOn _ _ ⟨hs.fields, hs.next⟩ fun s hs f hf => ?_
    exact hs.field (hcurrent st hst) (List.mem_zipIdx_iff_getElem?.1 hf)

theorem type_levels_resolved {root : Fin N} (fuel : Nat) {count visited : List (Fin N)}
    {current : List (Fin N × List Nat)} (hcurrent : ∀ st ∈ current, Leads structs root st.2 st.1) :
    ∀ f ∈ (typeLevels u structs fuel current count visited).flatten,
      ∃ sf, fieldAt structs root f.index = some sf ∧
        sf.typeEntry u = .member f.name f.tagged f.type := by
  induction fuel generalizing count visited current with
  | zero => exact fun f hf => absurd hf List.not_mem_nil
  | succ fuel ih =>
      cases current with
      | nil => exact fun f hf => absurd hf List.not_mem_nil
      | cons st others =>
          have hscan : ((st :: others).foldl (TypeScan.struct u structs count)
              { visited }).Resolved u structs root :=
            .level hcurrent ⟨fun f hf => absurd hf List.not_mem_nil,
              fun st hst => absurd hst List.not_mem_nil⟩
          intro f hf
          rw [typeLevels] at hf
          · rcases List.mem_append.1 hf with hf | hf
            · exact hscan.fields f hf
            · exact ih hscan.next f hf
          · exact List.cons_ne_nil _ _

/-- The decoder finds a field of the struct type, or of one it embeds, at the end of its path. -/
theorem found_field_at {id : Fin N} {f : Field B N} (h : f ∈ foundFields u structs id) :
    ∃ sf, fieldAt structs id f.index = some sf ∧
      sf.typeEntry u = .member f.name f.tagged f.type := by
  refine type_levels_resolved (N + 1) (fun st hst => ?_) f h
  rw [List.mem_singleton.1 hst]
  exact fun rest _ => rfl

end Paths

/-! ## The two agree -/

section Agree

variable {u : Unicode} {structs : Fin N → StructType B N}

theorem last_type_eq_some {level : List (Field B N)} {name : String} {type : GoType B N}
    (h : lastType (level.map Field.pair) name = some type) :
    ∃ f ∈ level, f.name = name ∧ f.type = type := by
  obtain ⟨_, _, hmembers, _⟩ := List.lookup_eq_some_iff.1 h
  have hmem : (name, type) ∈ (level.map Field.pair).reverse := by
    rw [hmembers]
    exact List.mem_append_right _ List.mem_cons_self
  obtain ⟨f, hf, hpair⟩ := List.mem_map.1 (List.mem_reverse.1 hmem)
  cases hpair
  exact ⟨f, hf, rfl, rfl⟩

theorem last_type_eq_none {level : List (Field B N)} {name : String}
    (h : lastType (level.map Field.pair) name = none) : ∀ f ∈ level, f.name ≠ name := by
  intro f hf hname
  have hpair : f.pair ∈ (level.map Field.pair).reverse :=
    List.mem_reverse.2 (List.mem_map_of_mem hf)
  have hne := List.lookup_eq_none_iff.1 h f.pair hpair
  simp [Field.pair, hname] at hne

/-- The field that the first level with a name gives to it is on the top level of that name. -/
theorem first_type_eq_some {levels : List (List (Field B N))} {depth : Nat}
    (hindex : ∀ k level, levels[k]? = some level → ∀ f ∈ level, f.index.length = depth + k + 1)
    {name : String} {type : GoType B N} (h : firstType levels name = some type) :
    ∃ f ∈ levels.flatten, f.name = name ∧ f.type = type ∧
      ∀ g ∈ levels.flatten, g.name = name → f.index.length ≤ g.index.length := by
  induction levels generalizing depth with
  | nil => cases h
  | cons level rest ih =>
      have hdeeper : ∀ k level, rest[k]? = some level →
          ∀ f ∈ level, f.index.length = depth + 1 + k + 1 := by
        intro k level hlevel f hf
        rw [hindex (k + 1) level hlevel f hf]
        omega
      rw [firstType] at h
      cases hlast : lastType (level.map Field.pair) name with
      | some found =>
          rw [hlast] at h
          cases h
          obtain ⟨f, hf, hname, htype⟩ := last_type_eq_some hlast
          refine ⟨f, List.mem_append_left _ hf, hname, htype, fun g hg _ => ?_⟩
          rw [hindex 0 level rfl f hf]
          rcases List.mem_append.1 hg with hg | hg
          · rw [hindex 0 level rfl g hg]
          · obtain ⟨deeper, hmem, hg⟩ := List.mem_flatten.1 hg
            obtain ⟨k, hk⟩ := List.mem_iff_getElem?.1 hmem
            rw [hdeeper k deeper hk g hg]
            omega
      | none =>
          rw [hlast, Option.none_or] at h
          obtain ⟨f, hf, hname, htype, htop⟩ := ih hdeeper h
          refine ⟨f, List.mem_append_right _ hf, hname, htype, fun g hg hgname => ?_⟩
          rcases List.mem_append.1 hg with hg | hg
          · exact absurd hgname (last_type_eq_none hlast g hg)
          · exact htop g hg hgname

theorem first_type_eq_none {levels : List (List (Field B N))} {name : String}
    (h : firstType levels name = none) : ∀ f ∈ levels.flatten, f.name ≠ name := by
  induction levels with
  | nil => exact fun f hf => absurd hf List.not_mem_nil
  | cons level rest ih =>
      rw [firstType, Option.or_eq_none_iff] at h
      intro f hf
      rcases List.mem_append.1 hf with hf | hf
      · exact last_type_eq_none h.1 f hf
      · exact ih h.2 f hf

theorem mem_top_fields {fields : List (Field B N)} {name : String} {f : Field B N} :
    f ∈ topFields fields name ↔ (f ∈ fields ∧ f.name = name) ∧
      ∀ g ∈ fields, g.name = name → f.index.length ≤ g.index.length := by
  simp only [topFields, List.mem_filter, List.all_eq_true, decide_eq_true_iff, and_imp]

theorem mem_of_dominant {top : List (Field B N)} {f : Field B N} (h : dominantField top = some f) :
    f ∈ top := by
  unfold dominantField at h
  split at h
  · rename_i g hg
    cases h
    split at hg
    · exact List.mem_of_mem_filter (hg ▸ List.mem_singleton_self f)
    · exact hg ▸ List.mem_singleton_self f
  · cases h

/-- A field alone on its level is the dominant one. -/
theorem dominant_of_alone {top : List (Field B N)} {f : Field B N} (hmem : f ∈ top)
    (halone : top.length ≤ 1) : dominantField top = some f := by
  match top with
  | [] => cases hmem
  | [g] =>
      rw [List.mem_singleton.1 hmem]
      cases htagged : g.tagged <;> simp [dominantField, htagged]
  | _ :: _ :: _ => simp at halone

theorem mem_type_fields {id : Fin N} {f : Field B N} :
    f ∈ typeFields u structs id ↔
      dominantField (topFields (foundFields u structs id) f.name) = some f := by
  simp only [typeFields, List.mem_insertionSort, List.mem_filterMap, List.mem_dedup, List.mem_map]
  constructor
  · rintro ⟨_, _, hdominant⟩
    rwa [(mem_top_fields.1 (mem_of_dominant hdominant)).1.2]
  · intro hdominant
    have hfound := (mem_top_fields.1 (mem_of_dominant hdominant)).1.1
    exact ⟨f.name, ⟨f, hfound, rfl⟩, hdominant⟩

/-- Every name in a tag is a valid one. -/
def ValidTags (u : Unicode) (structs : Fin N → StructType B N) : Prop :=
  ∀ id, ∀ f ∈ (structs id).fields, tagName f.tag = "" ∨ isValidTag u (tagName f.tag) = true

/-- An embedded field of an unexported struct type has no name of its own for the decoder. -/
def PlainEmbedding (structs : Fin N → StructType B N) : Prop :=
  ∀ id, ∀ f ∈ (structs id).fields, f.anonymous = true → f.exported = false →
    f.type.elem.structID ≠ none → f.tag = "-" ∨ tagName f.tag = ""

instance (u : Unicode) (structs : Fin N → StructType B N) : Decidable (ValidTags u structs) :=
  inferInstanceAs (Decidable (∀ id, ∀ f ∈ (structs id).fields, _ ∨ _))

instance (structs : Fin N → StructType B N) : Decidable (PlainEmbedding structs) :=
  inferInstanceAs (Decidable (∀ id, ∀ f ∈ (structs id).fields, _ → _ → _ → _))

theorem same_entries (htags : ValidTags u structs) (hplain : PlainEmbedding structs) :
    SameEntries u structs := by
  intro id f hf
  have hname : (if isValidTag u (tagName f.tag) then tagName f.tag else "") = tagName f.tag := by
    rcases htags id f hf with hnone | hvalid
    · rw [hnone, ite_self]
    · rw [if_pos hvalid]
  have hembedded := hplain id f hf
  unfold StructField.typeEntry StructField.jsonEntry
  rw [hname]
  by_cases htag : f.tag = "-"
  · simp [htag]
  · cases hanonymous : f.anonymous <;> cases hexported : f.exported <;>
      cases hstruct : f.type.elem.structID <;> by_cases hempty : tagName f.tag = "" <;>
      simp_all

/-- No member name is ambiguous: its top level has one field. -/
def Unambiguous (u : Unicode) (structs : Fin N → StructType B N) : Prop :=
  ∀ id name, (topFields (foundFields u structs id) name).length ≤ 1

theorem top_fields_of_nodup {fields : List (Field B N)} (h : (fields.map (·.name)).Nodup)
    (name : String) : (topFields fields name).length ≤ 1 := by
  calc (topFields fields name).length
      ≤ (fields.filter (·.name = name)).length := List.length_filter_le _ _
    _ = ((fields.map (·.name)).filter (· = name)).length := by
        rw [List.filter_map, List.length_map]
        rfl
    _ = (fields.map (·.name)).count name := by
        rw [List.count_eq_length_filter]
        congr 1
    _ ≤ 1 := List.nodup_iff_count_le_one.1 h name

/-- If all names are different, none is ambiguous. -/
theorem unambiguous_of_nodup (h : ∀ id, ((foundFields u structs id).map (·.name)).Nodup) :
    Unambiguous u structs :=
  fun id name => top_fields_of_nodup (h id) name

/-- The field that the decoder finds under the exact name. -/
def exactField (u : Unicode) (structs : Fin N → StructType B N) (id : Fin N) (name : String) :
    Option (Field B N) :=
  (typeFields u structs id).find? (·.name = name)

/-- The decoder finds every field it knows under its name. -/
theorem exact_field_of_mem {id : Fin N} {f : Field B N} (h : f ∈ typeFields u structs id) :
    exactField u structs id f.name = some f := by
  cases hexact : exactField u structs id f.name with
  | none =>
      have hother := List.find?_eq_none.1 hexact f h
      simp at hother
  | some g =>
      have hname : g.name = f.name := by simpa using List.find?_some hexact
      have hg := mem_type_fields.1 (List.mem_of_find?_eq_some hexact)
      rw [hname, mem_type_fields.1 h] at hg
      exact hg.symm

/-- The check of member names and the decoder know the same members, with the same types. -/
theorem json_fields_eq (hentries : SameEntries u structs) (hnames : Unambiguous u structs)
    (id : Fin N) (name : String) :
    (jsonFields structs id).lookup name = (exactField u structs id name).map (·.type) := by
  have hpath : ∀ st ∈ [(id, ([] : List Nat))], st.2.length = 0 := by simp
  have hlookup : (jsonFields structs id).lookup name =
      firstType (typeLevels u structs (N + 1) [(id, [])] [] []) name :=
    json_levels_lookup hentries name (N + 1) rfl hpath []
  rw [hlookup]
  cases hfirst : firstType (typeLevels u structs (N + 1) [(id, [])] [] []) name with
  | none =>
      have hnone : exactField u structs id name = none := by
        refine List.find?_eq_none.2 fun f hf => ?_
        have hfound := (mem_top_fields.1 (mem_of_dominant (mem_type_fields.1 hf))).1.1
        simpa using first_type_eq_none hfirst f hfound
      rw [hnone]
      rfl
  | some type =>
      obtain ⟨f, hf, rfl, rfl, htop⟩ := first_type_eq_some
        (fun k level => type_levels_index hentries (N + 1) hpath k) hfirst
      have hmem : f ∈ topFields (foundFields u structs id) f.name :=
        mem_top_fields.2 ⟨⟨hf, rfl⟩, htop⟩
      have hdominant := dominant_of_alone hmem (hnames id f.name)
      rw [exact_field_of_mem (mem_type_fields.2 hdominant)]
      rfl

/-! ## Struct types without embedded structs -/

/-- The fields of a struct type all have a name of their own in the tag, and no two the same. -/
structure Tagged (u : Unicode) (st : StructType B N) : Prop where
  entry : ∀ f ∈ st.fields, f.typeEntry u = .member f.tag true f.type
  names : (st.fields.map (·.tag)).Nodup

/-- A name that the decoder takes from a tag is valid. -/
theorem Tagged.valid {st : StructType B N} (h : Tagged u st) :
    ∀ f ∈ st.fields, tagName f.tag = "" ∨ isValidTag u (tagName f.tag) = true := by
  intro f hf
  have hentry := h.entry f hf
  by_cases hvalid : isValidTag u (tagName f.tag) = true
  · exact .inr hvalid
  · unfold StructField.typeEntry at hentry
    rw [if_neg hvalid] at hentry
    split_ifs at hentry
    dsimp only at hentry
    split at hentry
    · cases hentry
    · have htagged := (Entry.member.inj hentry).2.1
      simp at htagged

/-- A field as the decoder knows it. -/
def StructField.own (f : StructField B N × Nat) : Field B N := ⟨f.1.tag, true, [f.2], f.1.type⟩

/-- The decoder finds the fields of the struct type and no others. -/
theorem found_fields_tagged {id : Fin N} (h : Tagged u (structs id)) :
    foundFields u structs id = (structs id).fields.zipIdx.map StructField.own := by
  obtain ⟨hfields, _, hcount, hqueued⟩ := type_field_fold (u := u) 0 []
    (structs id).fields.zipIdx { visited := [id] }
  have hentry : ∀ f ∈ (structs id).fields.zipIdx,
      f.1.typeEntry u = .member f.1.tag true f.1.type := fun f hf =>
    h.entry f.1 (List.mem_of_getElem? (List.mem_zipIdx_iff_getElem?.1 hf))
  have hfound : (structs id).fields.zipIdx.flatMap
      (fun f => foundEntry 0 [] f.2 (f.1.typeEntry u)) =
      (structs id).fields.zipIdx.map StructField.own := by
    rw [List.map_eq_flatMap]
    refine List.flatMap_congr fun f hf => ?_
    rw [hentry f hf]
    rfl
  have hnone : (structs id).fields.zipIdx.filterMap (fun f => (f.1.typeEntry u).inner) = [] := by
    refine List.filterMap_eq_nil_iff.2 fun f hf => ?_
    rw [hentry f hf]
    rfl
  rw [hfound, List.nil_append] at hfields
  -- No struct is embedded, so the first level is the only one.
  have hnext := (hqueued ⟨rfl, fun st hst => absurd hst List.not_mem_nil⟩).next
  rw [hcount, hnone] at hnext
  have hlevel : typeLevels u structs (N + 1) [(id, [])] [] [] =
      [(structs id).fields.zipIdx.map StructField.own] := by
    rw [typeLevels]
    · refine congrArg₂ List.cons hfields ?_
      change typeLevels u structs N ((structs id).fields.zipIdx.foldl (TypeScan.field u 0 [])
        { visited := [id] }).next _ _ = []
      rw [List.map_eq_nil_iff.1 hnext]
      cases N <;> rfl
    · exact List.cons_ne_nil _ _
  rw [foundFields, hlevel, List.flatten_singleton]

theorem found_names_tagged {id : Fin N} (h : Tagged u (structs id)) :
    ((foundFields u structs id).map (·.name)).Nodup := by
  have htags : (structs id).fields.zipIdx.map ((·.name) ∘ StructField.own) =
      (structs id).fields.map (·.tag) := by
    conv_rhs => rw [← List.zipIdx_map_fst 0 (structs id).fields, List.map_map]
    rfl
  rw [found_fields_tagged h, List.map_map, htags]
  exact h.names

theorem mem_type_fields_tagged {id : Fin N} (h : Tagged u (structs id)) {f : Field B N} :
    f ∈ typeFields u structs id ↔
      ∃ i sf, (structs id).fields[i]? = some sf ∧ f = StructField.own (sf, i) := by
  have hindex : ∀ g ∈ foundFields u structs id, g.index.length = 1 := by
    rw [found_fields_tagged h]
    intro g hg
    obtain ⟨_, _, rfl⟩ := List.mem_map.1 hg
    rfl
  have hmem : f ∈ typeFields u structs id ↔ f ∈ foundFields u structs id := by
    rw [mem_type_fields]
    constructor
    · exact fun hdominant => (mem_top_fields.1 (mem_of_dominant hdominant)).1.1
    · intro hf
      refine dominant_of_alone (mem_top_fields.2 ⟨⟨hf, rfl⟩, fun g hg _ => ?_⟩)
        (top_fields_of_nodup (found_names_tagged h) f.name)
      rw [hindex f hf, hindex g hg]
  rw [hmem, found_fields_tagged h, List.mem_map]
  constructor
  · rintro ⟨⟨sf, i⟩, hsf, rfl⟩
    exact ⟨i, sf, List.mem_zipIdx_iff_getElem?.1 hsf, rfl⟩
  · rintro ⟨i, sf, hsf, rfl⟩
    exact ⟨(sf, i), List.mem_zipIdx_iff_getElem?.2 hsf, rfl⟩

end Agree

end AcmeServer.Jws
