import AcmeServer.Jws.Reflect

/-!
# Decoding documents into Go values

`decode` is `json.Unmarshal` for the types of `Reflect`: it follows pointers and allocates them,
calls the types that decode themselves, and assigns the members of an object to the fields of a
struct. A member belongs to the field with its exact name and otherwise to the first field whose
name is the same up to case; `Matching` is what makes a decoder that takes exact names only.

An error that concerns one value is kept and decoding goes on; the error of an `UnmarshalJSON` ends
it. In both cases the target has what was decoded so far.
-/

namespace AcmeServer.Jws

/-- A Go value. What is absent from a list of fields or items is zero. -/
inductive Value (X : Type) where
  | zero
  | basic (x : X)
  | pointer (target : Value X)
  | items (list : List (Value X))
  | entries (list : List (String × Value X))
  | fields (list : List (Nat × Value X))

namespace Value

variable {X : Type}

/-- What a pointer points to, once it is allocated. -/
def target : Value X → Value X
  | .pointer v => v
  | _ => .zero

/-- Whether a pointer is nil. -/
def isNil : Value X → Bool
  | .pointer _ => false
  | _ => true

/-- The elements of a slice or an array. -/
def list : Value X → List (Value X)
  | .items vs => vs
  | _ => []

/-- The entries of a map. -/
def table : Value X → List (String × Value X)
  | .entries es => es
  | _ => []

/-- A field of a struct. -/
def field (i : Nat) : Value X → Value X
  | .fields fs => (fs.lookup i).getD .zero
  | _ => .zero

/-- A struct with one of its fields set. -/
def setField (w : Value X) (i : Nat) (v : Value X) : Value X :=
  match w with
  | .fields fs => .fields ((i, v) :: fs.filter (·.1 ≠ i))
  | _ => .fields [(i, v)]

@[simp] theorem field_set_field (w : Value X) (i j : Nat) (v : Value X) :
    (w.setField i v).field j = if j = i then v else w.field j := by
  by_cases hij : j = i
  · subst hij
    cases w <;> simp [setField, field]
  · have hbeq : (j == i) = false := beq_false_of_ne hij
    cases w with
    | fields fs =>
        have hlookup : (fs.filter (·.1 ≠ i)).lookup j = fs.lookup j := by
          induction fs with
          | nil => rfl
          | cons f rest ih =>
              obtain ⟨k, x⟩ := f
              by_cases hk : k = i
              · rw [List.filter_cons_of_neg (by simp [hk]), ih, hk, List.lookup_cons, hbeq]
              · rw [List.filter_cons_of_pos (by simp [hk]), List.lookup_cons, List.lookup_cons, ih]
        rw [if_neg hij, setField, field, field, List.lookup_cons, hbeq]
        dsimp only
        rw [hlookup]
    | _ => simp [setField, field, List.lookup_cons, hbeq, hij]

/-- A value behind some pointers. -/
def behind : Nat → Value X → Value X
  | 0, v => v
  | depth + 1, v => .pointer (v.behind depth)

end Value

/-- How decoding ends: with the error of an `UnmarshalJSON`, or with the first error that was kept,
if there is one. -/
abbrev Report := Except String (Option String)

/-- The report of two values one after the other, of which the first has kept an error. -/
def Report.after (saved : Option String) (r : Report) : Report := r.map saved.or

/-- How members are matched with fields. -/
inductive Matching where
  | folded
  | exact
deriving DecidableEq, Repr

/-- The types of a program and what the decoder does with those it does not look into. -/
structure Codec (B : Type) (N : Nat) (X : Type) where
  unicode : Unicode
  structs : Fin N → StructType B N
  /-- Stores a document in a basic value. -/
  store : B → Json → Value X → Value X × Report
  /-- The `UnmarshalJSON` of a struct type. -/
  unmarshalJSON : Fin N → Json → Value X → Value X × Report
  /-- The key of a map that a member name stands for. -/
  mapKey : B → String → Except String String
  /-- The text of the error for a document of the wrong kind. -/
  mismatch : GoType B N → Json → String
  /-- The text of the error for an embedded pointer to an unexported struct. -/
  cannotSet : Fin N → String

theorem mem_of_lookup {members : List (String × Json)} {name : String} {doc : Json}
    (h : members.lookup name = some doc) : (name, doc) ∈ members := by
  obtain ⟨before, after, rfl, -⟩ := List.lookup_eq_some_iff.1 h
  simp

theorem lookup_of_mem {members : List (String × Json)} {name : String} {doc : Json}
    (hnames : (members.map Prod.fst).Nodup) (hmem : (name, doc) ∈ members) :
    members.lookup name = some doc := by
  cases hlookup : members.lookup name with
  | none => exact absurd rfl (bne_iff_ne.1 (List.lookup_eq_none_iff.1 hlookup _ hmem))
  | some doc' =>
      have hsame : (name, doc') = (name, doc) :=
        List.inj_on_of_nodup_map hnames (mem_of_lookup hlookup) hmem rfl
      cases hsame
      rfl

/-- The position of a field that is one of the struct type's own. -/
def Field.position {B : Type} {N : Nat} (f : Field B N) : Nat := f.index.headD 0

namespace Codec

variable {B : Type} {N : Nat} {X : Type} (c : Codec B N X)

/-- The field that a member is assigned to. -/
def field (m : Matching) (id : Fin N) (name : String) : Option (Field B N) :=
  match exactField c.unicode c.structs id name, m with
  | some f, _ => some f
  | none, .exact => none
  | none, .folded =>
      (typeFields c.unicode c.structs id).find? fun f => c.unicode.equalFold f.name name

/-- Where a document goes. -/
inductive Place (B : Type) (N : Nat) (X : Type) where
  | unsettable
  | unmarshaler (id : Fin N) (v : Value X) (depth : Nat)
  | value (type : GoType B N) (v : Value X) (depth : Nat)

/-- Follows the pointers of a value and allocates them. A value that was reached through an
unexported field cannot be set and its methods cannot be called; a value without a pointer must have
a type with a name for its methods to be found. -/
def indirect (unexported : Bool) : GoType B N → Value X → Nat → Place B N X
  | .pointer e, v, depth =>
      if unexported ∧ v.isNil then .unsettable
      else
        match e with
        | .struct id =>
            if (c.structs id).unmarshaler ∧ unexported = false then
              .unmarshaler id v.target (depth + 1)
            else .value (.struct id) v.target (depth + 1)
        | _ => indirect unexported e v.target (depth + 1)
  | .struct id, v, depth =>
      if (c.structs id).named ∧ (c.structs id).unmarshaler ∧ unexported = false then
        .unmarshaler id v depth
      else .value (.struct id) v depth
  | t, v, depth => .value t v depth

/-- The text of the panic for a value that cannot be set. -/
def setPanic : String := "reflect: reflect.Value.Set using value obtained using unexported field"

/-- Stores a document where the decoder does not look into it. -/
def finish (doc : Json) (v : Value X) : Place B N X → Value X × Report
  | .unsettable => (v, .error setPanic)
  | .unmarshaler id w depth =>
      let r := c.unmarshalJSON id doc w
      (r.1.behind depth, r.2)
  | .value (.basic b) w depth =>
      let r := c.store b doc w
      (r.1.behind depth, r.2)
  | .value t w depth => (w.behind depth, .ok (some (c.mismatch t doc)))

/-- Stores null: it makes a pointer, a slice or a map nil and is otherwise left to the type. -/
def storeNull (unexported : Bool) (t : GoType B N) (v : Value X) : Value X × Report :=
  match t with
  | .pointer _ =>
      if unexported = false then (.zero, .ok none)
      else if v.isNil then (v, .error setPanic)
      else (v, .ok none)
  | .slice _ => (.zero, .ok none)
  | .map _ _ => (.zero, .ok none)
  | .array _ _ => (v, .ok none)
  | .basic b => c.store b (.scalar .null) v
  | .struct id =>
      if (c.structs id).named ∧ (c.structs id).unmarshaler ∧ unexported = false then
        c.unmarshalJSON id (.scalar .null) v
      else (v, .ok none)

/-- Goes to the field at the end of a path and allocates the embedded pointers on the way. The
result has whether the field is unexported and its value. -/
def reach : Fin N → List Nat → Value X → Value X × Except String (Bool × Value X)
  | _, [], w => (w, .error setPanic)
  | id, i :: rest, w =>
      match (c.structs id).fields[i]? with
      | none => (w, .error setPanic)
      | some f =>
          match rest, f.type with
          | [], _ => (w, .ok (!f.exported, w.field i))
          | _, .pointer (.struct inner) =>
              if (w.field i).isNil ∧ f.exported = false then (w, .error (c.cannotSet inner))
              else
                let r := reach inner rest (w.field i).target
                (w.setField i (.pointer r.1), r.2)
          | _, .struct inner =>
              let r := reach inner rest (w.field i)
              (w.setField i r.1, r.2)
          | _, _ => (w, .error setPanic)

/-- Sets the field at the end of a path. -/
def assign : Fin N → List Nat → Value X → Value X → Value X
  | _, [], w, _ => w
  | id, i :: rest, w, v =>
      match (c.structs id).fields[i]? with
      | none => w
      | some f =>
          match rest, f.type with
          | [], _ => w.setField i v
          | _, .pointer (.struct inner) =>
              w.setField i (.pointer (assign inner rest (w.field i).target v))
          | _, .struct inner => w.setField i (assign inner rest (w.field i) v)
          | _, _ => w

mutual

/-- Decodes a document into a value of the type. -/
def decode (m : Matching) (unexported : Bool) (t : GoType B N) :
    Json → Value X → Value X × Report
  | .scalar .null, v => c.storeNull unexported t v
  | .scalar s, v => c.finish (.scalar s) v (c.indirect unexported t v 0)
  | .string s, v => c.finish (.string s) v (c.indirect unexported t v 0)
  | .array items, v =>
      match c.indirect unexported t v 0 with
      | .value (.slice e) w depth =>
          let r := decodeItems m e none items w.list
          (Value.behind depth (.items r.1), r.2)
      | .value (.array n e) w depth =>
          let r := decodeItems m e (some n) items w.list
          (Value.behind depth (.items r.1), r.2)
      | place => c.finish (.array items) v place
  | .object members, v =>
      match c.indirect unexported t v 0 with
      | .value (.map k e) w depth =>
          let r := decodeEntries m k e members w.table
          (Value.behind depth (.entries r.1), r.2)
      | .value (.struct id) w depth =>
          let r := decodeMembers m id members w
          (r.1.behind depth, r.2)
      | place => c.finish (.object members) v place

/-- Decodes the items of an array one after the other into the elements there are. Items for which
there is no room are skipped. -/
def decodeItems (m : Matching) (e : GoType B N) (room : Option Nat) :
    List Json → List (Value X) → List (Value X) × Report
  | [], _ => ([], .ok none)
  | item :: rest, old =>
      if room = some 0 then ([], .ok none)
      else
        let first := decode m false e item (old.headD .zero)
        match first.2 with
        | .error err => (first.1 :: old.tail, .error err)
        | .ok saved =>
            let others := decodeItems m e (room.map Nat.pred) rest old.tail
            (first.1 :: others.1, Report.after saved others.2)

/-- Decodes the members of an object into the entries of a map. -/
def decodeEntries (m : Matching) (k : B) (e : GoType B N) :
    List (String × Json) → List (String × Value X) → List (String × Value X) × Report
  | [], table => (table, .ok none)
  | (name, doc) :: rest, table =>
      let value := decode m false e doc .zero
      match value.2, c.mapKey k name with
      | .error err, _ => (table, .error err)
      | .ok saved, .ok key =>
          let r := decodeEntries m k e rest ((key, value.1) :: table.filter (·.1 ≠ key))
          (r.1, Report.after saved r.2)
      | .ok saved, .error err =>
          let r := decodeEntries m k e rest table
          (r.1, Report.after (saved.or (some err)) r.2)

/-- Decodes the members of an object into the fields of a struct. -/
def decodeMembers (m : Matching) (id : Fin N) :
    List (String × Json) → Value X → Value X × Report
  | [], w => (w, .ok none)
  | (name, doc) :: rest, w =>
      match c.field m id name with
      | none => decodeMembers m id rest w
      | some f =>
          match c.reach id f.index w with
          | (w, .error err) =>
              let r := decodeMembers m id rest w
              (r.1, Report.after (some err) r.2)
          | (w, .ok (unexported, old)) =>
              let value := decode m unexported f.type doc old
              let w := c.assign id f.index w value.1
              match value.2 with
              | .error err => (w, .error err)
              | .ok saved =>
                  let r := decodeMembers m id rest w
                  (r.1, Report.after saved r.2)

end

/-- `json.Unmarshal` into the address of a value: a type that decodes itself is found through it. -/
def unmarshal (m : Matching) (t : GoType B N) (doc : Json) (v : Value X) : Value X × Report :=
  match t with
  | .struct id =>
      if (c.structs id).unmarshaler then c.unmarshalJSON id doc v else c.decode m false t doc v
  | _ => c.decode m false t doc v

/-! ## Struct types without embedded structs -/

/-- Every field of the struct type is one of its own and exported. -/
structure Flat (id : Fin N) : Prop where
  index : ∀ f ∈ typeFields c.unicode c.structs id, ∃ i sf, f.index = [i] ∧
    (c.structs id).fields[i]? = some sf ∧ sf.exported = true
  distinct : ∀ f ∈ typeFields c.unicode c.structs id, ∀ g ∈ typeFields c.unicode c.structs id,
    f.index = g.index → f = g

variable {c} {id : Fin N}

theorem flat_of_tagged (h : Tagged c.unicode (c.structs id))
    (hexported : ∀ f ∈ (c.structs id).fields, f.exported = true) : c.Flat id where
  index f hf := by
    obtain ⟨i, sf, hsf, rfl⟩ := (mem_type_fields_tagged h).1 hf
    exact ⟨i, sf, rfl, hsf, hexported sf (List.mem_of_getElem? hsf)⟩
  distinct f hf g hg hindex := by
    obtain ⟨i, sf, hsf, rfl⟩ := (mem_type_fields_tagged h).1 hf
    obtain ⟨j, sg, hsg, rfl⟩ := (mem_type_fields_tagged h).1 hg
    cases hindex
    rw [hsf] at hsg
    cases hsg
    rfl

theorem reach_flat (hflat : c.Flat id) {f : Field B N}
    (hf : f ∈ typeFields c.unicode c.structs id) (w : Value X) :
    c.reach id f.index w = (w, .ok (false, w.field f.position)) := by
  obtain ⟨i, sf, hindex, hsf, hexported⟩ := hflat.index f hf
  rw [Field.position, hindex, reach, hsf]
  simp [hexported]

theorem assign_flat (hflat : c.Flat id) {f : Field B N}
    (hf : f ∈ typeFields c.unicode c.structs id) (w v : Value X) :
    c.assign id f.index w v = w.setField f.position v := by
  obtain ⟨i, sf, hindex, hsf, _⟩ := hflat.index f hf
  rw [Field.position, hindex, assign, hsf]
  rfl

theorem position_ne (hflat : c.Flat id) {f g : Field B N}
    (hf : f ∈ typeFields c.unicode c.structs id) (hg : g ∈ typeFields c.unicode c.structs id)
    (hne : f ≠ g) : f.position ≠ g.position := by
  obtain ⟨i, _, hi, _, _⟩ := hflat.index f hf
  obtain ⟨j, _, hj, _, _⟩ := hflat.index g hg
  intro hsame
  rw [Field.position, Field.position, hi, hj] at hsame
  exact hne (hflat.distinct f hf g hg (by rw [hi, hj]; exact congrArg (fun n => [n]) hsame))

theorem Report.after_eq_ok {saved : Option String} {r : Report} :
    Report.after saved r = .ok none ↔ saved = none ∧ r = .ok none := by
  cases r with
  | error err => simp [Report.after, Except.map]
  | ok kept => cases saved <;> simp [Report.after, Except.map]

theorem field_exact (name : String) :
    c.field .exact id name = exactField c.unicode c.structs id name := by
  unfold field
  cases exactField c.unicode c.structs id name <;> rfl

theorem field_of_exact {how : Matching} {name : String} {f : Field B N}
    (h : exactField c.unicode c.structs id name = some f) :
    c.field how id name = exactField c.unicode c.structs id name := by
  unfold field
  rw [h]

variable {how : Matching}

/-- A member is decoded into the field of its name, where the matching finds no other one. -/
theorem decode_members_cons (hflat : c.Flat id) {name : String}
    (hmatch : c.field how id name = exactField c.unicode c.structs id name) (doc : Json)
    (rest : List (String × Json)) (w : Value X) :
    c.decodeMembers how id ((name, doc) :: rest) w =
      match exactField c.unicode c.structs id name with
      | none => c.decodeMembers how id rest w
      | some f =>
          let value := c.decode how false f.type doc (w.field f.position)
          let w' := w.setField f.position value.1
          match value.2 with
          | .error err => (w', .error err)
          | .ok saved =>
              ((c.decodeMembers how id rest w').1,
                Report.after saved (c.decodeMembers how id rest w').2) := by
  rw [decodeMembers, hmatch]
  cases hexact : exactField c.unicode c.structs id name with
  | none => rfl
  | some f =>
      have hf := List.mem_of_find?_eq_some hexact
      simp only [reach_flat hflat hf, assign_flat hflat hf]

/-- The members of an object are decoded into the fields of their names, where the matching finds no
others. There are no errors exactly if no member that has a field causes one. -/
theorem decode_members_flat (hflat : c.Flat id) {members : List (String × Json)}
    (hnames : (members.map Prod.fst).Nodup) (hmatch : ∀ m ∈ members,
      c.field how id m.1 = exactField c.unicode c.structs id m.1) (w : Value X) :
    ((c.decodeMembers how id members w).2 = .ok none ↔
      ∀ m ∈ members, ∀ f, exactField c.unicode c.structs id m.1 = some f →
        (c.decode how false f.type m.2 (w.field f.position)).2 = .ok none) ∧
    ((c.decodeMembers how id members w).2 = .ok none →
      ∀ f ∈ typeFields c.unicode c.structs id,
        (c.decodeMembers how id members w).1.field f.position =
          match members.lookup f.name with
          | none => w.field f.position
          | some doc => (c.decode how false f.type doc (w.field f.position)).1) := by
  induction members generalizing w with
  | nil => exact ⟨by simp [decodeMembers], fun _ f _ => by simp [decodeMembers]⟩
  | cons m rest ih =>
      obtain ⟨name, doc⟩ := m
      rw [List.map_cons, List.nodup_cons] at hnames
      rw [List.forall_mem_cons] at hmatch
      rw [decode_members_cons hflat hmatch.1]
      cases hexact : exactField c.unicode c.structs id name with
      | none =>
          obtain ⟨hok, hfields⟩ := ih hnames.2 hmatch.2 w
          refine ⟨?_, fun h f hf => ?_⟩
          · rw [List.forall_mem_cons, hok]
            simp [hexact]
          · have hne : (f.name == name) = false := by
              refine beq_false_of_ne fun hname => ?_
              rw [← hname, exact_field_of_mem hf] at hexact
              cases hexact
            rw [hfields h f hf, List.lookup_cons, hne]
      | some g =>
          have hg : g ∈ typeFields c.unicode c.structs id := List.mem_of_find?_eq_some hexact
          have hgname : g.name = name := by simpa using List.find?_some hexact
          -- The member of another field sees the fields as they were before.
          have hother : ∀ f ∈ typeFields c.unicode c.structs id, f ≠ g → ∀ v,
              (w.setField g.position v).field f.position = w.field f.position := by
            intro f hf hne v
            rw [Value.field_set_field, if_neg (position_ne hflat hf hg hne)]
          dsimp only
          cases hreport : (c.decode how false g.type doc (w.field g.position)).2 with
          | error err =>
              refine ⟨iff_of_false nofun fun h => ?_, nofun⟩
              have hdoc := h _ List.mem_cons_self g hexact
              rw [hreport] at hdoc
              cases hdoc
          | ok saved =>
              obtain ⟨hok, hfields⟩ := ih hnames.2 hmatch.2
                (w.setField g.position (c.decode how false g.type doc (w.field g.position)).1)
              refine ⟨?_, fun h f hf => ?_⟩
              · dsimp only
                rw [Report.after_eq_ok, hok, List.forall_mem_cons]
                refine and_congr ⟨fun hsaved f hf => ?_, fun h => ?_⟩ (forall₂_congr fun m hm =>
                  forall₂_congr fun f hf => ?_)
                · rw [hexact] at hf
                  cases hf
                  rw [hreport, hsaved]
                · have hdoc := h g hexact
                  rw [hreport] at hdoc
                  exact Except.ok.inj hdoc
                · rw [hother f (List.mem_of_find?_eq_some hf)]
                  rintro rfl
                  have hmname : f.name = m.1 := by simpa using List.find?_some hf
                  exact hnames.1 (List.mem_map.2 ⟨m, hm, hmname.symm.trans hgname⟩)
              · obtain ⟨_, hrest⟩ := Report.after_eq_ok.1 h
                dsimp only
                rw [hfields hrest f hf, List.lookup_cons]
                by_cases hsame : f = g
                · subst hsame
                  have hlookup : rest.lookup f.name = none := by
                    refine List.lookup_eq_none_iff.2 fun m hm => ?_
                    refine bne_iff_ne.2 fun hmname => hnames.1 ?_
                    exact List.mem_map.2 ⟨m, hm, hmname.symm.trans hgname⟩
                  rw [hlookup, hgname, beq_self_eq_true, Value.field_set_field, if_pos rfl]
                · have hne : (f.name == name) = false := by
                    refine beq_false_of_ne fun hname => hsame ?_
                    have hfound := exact_field_of_mem hf
                    rw [hname, hexact] at hfound
                    exact (Option.some.inj hfound).symm
                  rw [hne, hother f hf hsame]

/-- An object goes into a struct member by member. -/
theorem decode_struct (hself : (c.structs id).unmarshaler = false) (members : List (String × Json))
    (v : Value X) : c.decode how false (.struct id) (.object members) v =
      c.decodeMembers how id members v := by
  rw [decode]
  simp [indirect, hself, Value.behind]

/-- An object goes into the struct behind a pointer. -/
theorem decode_pointer_struct (hself : (c.structs id).unmarshaler = false)
    (members : List (String × Json)) :
    c.decode how false (.pointer (.struct id)) (.object members) .zero =
      (.pointer (c.decodeMembers how id members .zero).1,
        (c.decodeMembers how id members .zero).2) := by
  rw [decode]
  simp [indirect, hself, Value.behind, Value.target]

/-- A struct type that decodes itself gets the object behind a pointer. -/
theorem decode_pointer_unmarshaler (hself : (c.structs id).unmarshaler = true)
    (members : List (String × Json)) :
    c.decode how false (.pointer (.struct id)) (.object members) .zero =
      (.pointer (c.unmarshalJSON id (.object members) .zero).1,
        (c.unmarshalJSON id (.object members) .zero).2) := by
  rw [decode]
  simp [indirect, hself, finish, Value.behind, Value.target]

/-- An object whose members have a field each and decode into it is decoded, and every field has
what the member of its name was decoded into. -/
theorem decode_tagged (htagged : Tagged c.unicode (c.structs id))
    (hexported : ∀ f ∈ (c.structs id).fields, f.exported = true) {members : List (String × Json)}
    (hnames : (members.map Prod.fst).Nodup)
    (hmembers : ∀ m ∈ members, ∃ sf ∈ (c.structs id).fields, sf.tag = m.1 ∧
      (c.decode how false sf.type m.2 .zero).2 = .ok none) :
    ∃ w, c.decodeMembers how id members .zero = (w, .ok none) ∧
      ∀ i sf, (c.structs id).fields[i]? = some sf → w.field i =
        match members.lookup sf.tag with
        | none => .zero
        | some doc => (c.decode how false sf.type doc .zero).1 := by
  have hexact : ∀ m ∈ members, ∃ f, exactField c.unicode c.structs id m.1 = some f ∧
      (c.decode how false f.type m.2 .zero).2 = .ok none := by
    intro m hm
    obtain ⟨sf, hsf, htag, hdecode⟩ := hmembers m hm
    obtain ⟨i, hi⟩ := List.getElem?_of_mem hsf
    have hown : StructField.own (sf, i) ∈ typeFields c.unicode c.structs id :=
      (mem_type_fields_tagged htagged).2 ⟨i, sf, hi, rfl⟩
    rw [← htag]
    exact ⟨_, exact_field_of_mem hown, hdecode⟩
  have hmatch : ∀ m ∈ members, c.field how id m.1 = exactField c.unicode c.structs id m.1 := by
    intro m hm
    obtain ⟨f, hf, -⟩ := hexact m hm
    exact field_of_exact hf
  obtain ⟨hok, hfields⟩ :=
    decode_members_flat (flat_of_tagged htagged hexported) hnames hmatch .zero
  have hreport : (c.decodeMembers how id members .zero).2 = .ok none := by
    refine hok.2 fun m hm f hf => ?_
    obtain ⟨g, hg, hdecode⟩ := hexact m hm
    rw [hf] at hg
    cases hg
    exact hdecode
  refine ⟨_, Prod.ext rfl hreport, fun i sf hsf => ?_⟩
  exact hfields hreport (StructField.own (sf, i))
    ((mem_type_fields_tagged htagged).2 ⟨i, sf, hsf, rfl⟩)

/-- The items of an array that all decode are decoded. -/
theorem decode_items_ok {e : GoType B N} {items : List Json} {g : Json → Value X}
    (h : ∀ item ∈ items, c.decode how false e item .zero = (g item, .ok none)) :
    c.decodeItems how e none items [] = (items.map g, .ok none) := by
  induction items with
  | nil => rfl
  | cons item rest ih =>
      rw [List.forall_mem_cons] at h
      rw [decodeItems, if_neg nofun]
      simp only [List.headD_nil, h.1, List.tail_nil, Option.map_none, ih h.2, List.map_cons]
      rfl

end Codec

end AcmeServer.Jws
