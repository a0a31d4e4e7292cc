import AcmeServer.Fallible.Basic
import AcmeServer.Server.Config
import Mathlib.Algebra.GroupWithZero.Nat

/-!
# The structural check of client JSON

`checkJSON` of `internal/jws/json.go` walks the tokens of a document once, with a stack of open
objects and arrays. The tokens are what `json.Decoder.Token` returns: those of some JSON values one
after another, cut off where the input ends or stops being JSON.

`Json` has the documents themselves, with their recursive description: `Json.distinct` says that
no object repeats a member name and `Json.depth` how deep arrays and objects nest. `walk_value`
describes what the stack machine does with the tokens of one value at any point of a document, and
`check_json_iff` that it accepts exactly the documents the recursive description allows.
-/

namespace AcmeServer.Jws

/-! ## Tokens and the stack machine -/

/-- The delimiters of the token stream. -/
inductive Delim where
  | openObject
  | closeObject
  | openArray
  | closeArray
deriving DecidableEq, Repr

/-- A value without parts other than a string. Numbers keep their literal. -/
inductive Scalar where
  | null
  | bool (b : Bool)
  | number (literal : String)
deriving DecidableEq, Repr

/-- A token. Strings are decoded. -/
inductive Token where
  | delim (d : Delim)
  | string (s : String)
  | scalar (v : Scalar)
deriving DecidableEq, Repr

/-- Everything the decoder returns for a document: its tokens, then the end of the input or the
text of an error. -/
structure Stream where
  tokens : List Token
  err : Option String := none

/-- One open object or array during the structural pass. -/
structure JsonFrame where
  object : Bool
  keys : List String := []
  expectKey : Bool
deriving DecidableEq, Repr

/-- Why the pass ended early: with the error it returns, or because it cut the last frame off an
empty stack, which panics. -/
inductive Stop where
  | refused (err : JWSError)
  | emptyStack

/-- Bounds the nesting of JSON documents accepted from clients. -/
def maxDepth : Nat := 32

/-- The local variables of the pass. The last frame of the stack comes first. -/
structure Walk where
  stack : List JsonFrame := []
  values : Nat := 0
deriving DecidableEq, Repr

namespace Walk

/-- The error every check of the pass returns. -/
def malformed {α : Type} (detail : String) : Except Stop α :=
  .error (.refused ⟨some .malformed, "invalid JSON: " ++ detail⟩)

/-- `stack = stack[:len(stack)-1]`. -/
def pop (w : Walk) : Except Stop Walk :=
  match w.stack with
  | [] => .error .emptyStack
  | _ :: rest => .ok { w with stack := rest }

/-- Counts a completed value of the top level. -/
def count (w : Walk) : Walk :=
  if w.stack.length = 0 then { w with values := w.values + 1 } else w

/-- The token of an object that waits for a member name or its end. -/
def member (quote : String → String) (w : Walk) (top : JsonFrame) (rest : List JsonFrame) :
    Token → Except Stop Walk
  | .delim .closeObject => do return (← w.pop).count
  | .string key =>
      if key ∈ top.keys then malformed ("duplicate member " ++ quote key)
      else .ok { w with
        stack := { top with keys := key :: top.keys, expectKey := false } :: rest }
  | _ => malformed "object member name is not a string"

/-- A token where a value or the end of an array stands. -/
def value (w : Walk) : Token → Except Stop Walk
  | .delim .openObject =>
      if w.stack.length ≥ maxDepth then malformed s!"nesting exceeds {maxDepth} levels"
      else .ok { w with stack := { object := true, expectKey := true } :: w.stack }
  | .delim .openArray =>
      if w.stack.length ≥ maxDepth then malformed s!"nesting exceeds {maxDepth} levels"
      else .ok { w with stack := { object := false, expectKey := false } :: w.stack }
  | .delim .closeObject => do return (← w.pop).count
  | .delim .closeArray => do return (← w.pop).count
  | _ => .ok w.count

/-- An object whose member has its value expects a member name next. -/
def expectKey (w : Walk) : Walk :=
  match w.stack with
  | top :: rest =>
      if top.object then { w with stack := { top with expectKey := true } :: rest } else w
  | [] => w

/-- One token. `quote` is the quoting of the `%q` verb. -/
def step (quote : String → String) (w : Walk) (tok : Token) : Except Stop Walk :=
  if w.stack.length = 0 ∧ w.values > 0 then malformed "content after the first value"
  else match w.stack with
    | top :: rest =>
        if top.object ∧ top.expectKey then w.member quote top rest tok
        else w.expectKey.value tok
    | [] => w.value tok

/-- What follows the last token: the decoder's error or the end of the input. -/
def finish (w : Walk) (err : Option String) : Except Stop Unit :=
  match err with
  | some err => malformed err
  | none =>
      if w.stack.length ≠ 0 then malformed "unterminated value"
      else if w.values = 0 then malformed "empty document"
      else .ok ()

end Walk

/-- The pass over several tokens. -/
abbrev walk (quote : String → String) (w : Walk) (ts : List Token) : Except Stop Walk :=
  ts.foldlM (Walk.step quote) w

/-- Walks the token stream once to enforce the structural limits `UnmarshalStrict` promises. -/
def checkJSON (quote : String → String) (s : Stream) : Except Stop Unit := do
  let w ← walk quote {} s.tokens
  w.finish s.err

/-! ## Documents -/

/-- A JSON value. The members of an object stand in the order of the document, with repetitions. -/
inductive Json where
  | scalar (v : Scalar)
  | string (s : String)
  | array (items : List Json)
  | object (members : List (String × Json))

namespace Json

mutual

/-- The tokens of a value. -/
def tokens : Json → List Token
  | .scalar v => [.scalar v]
  | .string s => [.string s]
  | .array items => .delim .openArray :: (itemTokens items ++ [.delim .closeArray])
  | .object members => .delim .openObject :: (memberTokens members ++ [.delim .closeObject])

/-- The tokens between the brackets of an array. -/
def itemTokens : List Json → List Token
  | [] => []
  | v :: rest => v.tokens ++ itemTokens rest

/-- The tokens between the braces of an object. -/
def memberTokens : List (String × Json) → List Token
  | [] => []
  | (name, v) :: rest => .string name :: (v.tokens ++ memberTokens rest)

end

mutual

/-- No object at any depth has two members of one name. -/
def distinct : Json → Bool
  | .scalar _ => true
  | .string _ => true
  | .array items => distinctItems items
  | .object members => (members.map Prod.fst).Nodup && distinctMembers members

/-- `distinct` for the items of an array. -/
def distinctItems : List Json → Bool
  | [] => true
  | v :: rest => v.distinct && distinctItems rest

/-- `distinct` for the values of an object. -/
def distinctMembers : List (String × Json) → Bool
  | [] => true
  | (_, v) :: rest => v.distinct && distinctMembers rest

end

mutual

/-- How deep arrays and objects nest. -/
def depth : Json → Nat
  | .scalar _ => 0
  | .string _ => 0
  | .array items => itemDepth items + 1
  | .object members => memberDepth members + 1

/-- The depth of the deepest item. -/
def itemDepth : List Json → Nat
  | [] => 0
  | v :: rest => max v.depth (itemDepth rest)

/-- The depth of the deepest member. -/
def memberDepth : List (String × Json) → Nat
  | [] => 0
  | (_, v) :: rest => max v.depth (memberDepth rest)

end

end Json

/-! ## The height of the stack -/

/-- The arrays and objects a token opens. -/
def Token.opens : Token → Nat
  | .delim .openObject => 1
  | .delim .openArray => 1
  | _ => 0

/-- The arrays and objects a token closes. -/
def Token.closes : Token → Nat
  | .delim .closeObject => 1
  | .delim .closeArray => 1
  | _ => 0

/-- The arrays and objects opened by the tokens. -/
def opens (ts : List Token) : Nat := (ts.map Token.opens).sum

/-- The arrays and objects closed by the tokens. -/
def closes (ts : List Token) : Nat := (ts.map Token.closes).sum

@[simp] theorem opens_append (ts us : List Token) : opens (ts ++ us) = opens ts + opens us := by
  simp [opens]

@[simp] theorem closes_append (ts us : List Token) :
    closes (ts ++ us) = closes ts + closes us := by
  simp [closes]

@[simp] theorem opens_cons (t : Token) (ts : List Token) : opens (t :: ts) = t.opens + opens ts :=
  rfl

@[simp] theorem closes_cons (t : Token) (ts : List Token) :
    closes (t :: ts) = t.closes + closes ts :=
  rfl

@[simp] theorem opens_nil : opens [] = 0 := rfl

@[simp] theorem closes_nil : closes [] = 0 := rfl

namespace Walk

variable {quote : String → String} {w w' : Walk} {t : Token}

@[simp] theorem count_stack (w : Walk) : w.count.stack = w.stack := by
  unfold count
  split <;> rfl

@[simp] theorem expect_key_length (w : Walk) : w.expectKey.stack.length = w.stack.length := by
  unfold expectKey
  split
  · next hstack => split <;> simp [hstack]
  · rfl

/-- Closing the innermost value lowers the stack by one. -/
theorem pop_count (h : (do return (← w.pop).count : Except Stop Walk) = .ok w') :
    w'.stack.length + 1 = w.stack.length := by
  unfold pop at h
  split at h
  · cases h
  · next hstack =>
      cases h
      simp [hstack]

/-- Only an empty stack keeps the innermost value from being closed. -/
theorem pop_empty (h : (do return (← w.pop).count : Except Stop Walk) = .error .emptyStack) :
    w.stack = [] := by
  unfold pop at h
  split at h
  · assumption
  · cases h

/-- At the place of a value, a token moves the height of the stack by what it opens and closes. -/
theorem value_height (h : w.value t = .ok w') :
    w'.stack.length + t.closes = w.stack.length + t.opens := by
  unfold value at h
  split at h
  · split at h <;> cases h
    rfl
  · split at h <;> cases h
    rfl
  · exact pop_count h
  · exact pop_count h
  · next hopen hopen' hclose hclose' =>
      cases h
      rw [count_stack]
      cases t with
      | delim d =>
          cases d with
          | openObject => exact absurd rfl hopen
          | closeObject => exact absurd rfl hclose
          | openArray => exact absurd rfl hopen'
          | closeArray => exact absurd rfl hclose'
      | string s => rfl
      | scalar v => rfl

/-- Every token moves the height of the stack by what it opens and closes. -/
theorem step_height (h : w.step quote t = .ok w') :
    w'.stack.length + t.closes = w.stack.length + t.opens := by
  unfold step at h
  split at h
  · cases h
  · split at h
    · next top rest hstack =>
        split at h
        · unfold member at h
          split at h
          · exact pop_count h
          · split at h <;> cases h
            simp [hstack, Token.opens, Token.closes]
          · cases h
        · rw [← expect_key_length w]
          exact value_height h
    · exact value_height h

/-- A token ends the pass in a panic only where it closes a value and none is open. -/
theorem step_empty_stack (h : w.step quote t = .error .emptyStack) :
    w.stack = [] ∧ t.closes = 1 := by
  have hvalue : ∀ w : Walk, w.value t = .error .emptyStack → w.stack = [] ∧ t.closes = 1 := by
    intro w h
    unfold value at h
    split at h
    · split at h <;> cases h
    · split at h <;> cases h
    · exact ⟨pop_empty h, rfl⟩
    · exact ⟨pop_empty h, rfl⟩
    · cases h
  unfold step at h
  split at h
  · cases h
  · split at h
    · next top rest hstack =>
        split at h
        · unfold member at h
          split at h
          · exact ⟨pop_empty h, rfl⟩
          · split at h <;> cases h
          · cases h
        · obtain ⟨hempty, hcloses⟩ := hvalue _ h
          refine ⟨?_, hcloses⟩
          rw [← List.length_eq_zero_iff, ← expect_key_length w, hempty]
          rfl
    · exact hvalue w h

end Walk

section Height

variable {quote : String → String} {w w' : Walk} {ts us : List Token}

/-- A pass over two lists of tokens goes through the state between them. -/
theorem walk_append_iff :
    walk quote w (ts ++ us) = .ok w' ↔
      ∃ w₁, walk quote w ts = .ok w₁ ∧ walk quote w₁ us = .ok w' := by
  rw [walk, List.foldlM_append]
  exact Fallible.bind_eq_ok

/-- The first token of a pass. -/
theorem walk_cons_iff {t : Token} :
    walk quote w (t :: ts) = .ok w' ↔
      ∃ w₁, w.step quote t = .ok w₁ ∧ walk quote w₁ ts = .ok w' := by
  rw [walk, List.foldlM_cons]
  exact Fallible.bind_eq_ok

/-- The height of the stack is the number of arrays and objects opened and not yet closed. -/
theorem walk_height (h : walk quote w ts = .ok w') :
    w'.stack.length + closes ts = w.stack.length + opens ts := by
  induction ts generalizing w with
  | nil =>
      cases h
      rfl
  | cons t ts ih =>
      obtain ⟨w₁, hstep, hrest⟩ := walk_cons_iff.1 h
      have hheight := Walk.step_height hstep
      have := ih hrest
      simp only [opens_cons, closes_cons]
      omega

/-- Where nothing closes more than was opened, the pass does not panic. -/
theorem walk_never_pops_empty
    (h : ∀ us, us <+: ts → closes us ≤ w.stack.length + opens us) :
    walk quote w ts ≠ .error .emptyStack := by
  induction ts generalizing w with
  | nil => exact nofun
  | cons t ts ih =>
      rw [walk, List.foldlM_cons]
      cases hstep : w.step quote t with
      | error e =>
          rintro ⟨⟩
          obtain ⟨hempty, hcloses⟩ := Walk.step_empty_stack hstep
          have hopens : t.opens = 0 := by
            revert hcloses
            cases t with
            | delim d => cases d <;> simp [Token.opens, Token.closes]
            | string s => simp [Token.closes]
            | scalar v => simp [Token.closes]
          have := h [t] ⟨ts, rfl⟩
          simp [hempty, hcloses, hopens] at this
      | ok w₁ =>
          refine ih fun us hus => ?_
          have hheight := Walk.step_height hstep
          have := h (t :: us) (List.cons_prefix_cons.2 ⟨rfl, hus⟩)
          simp only [opens_cons, closes_cons] at this
          omega

end Height

/-- A part of a concatenation ends in the first list or goes through it into the second. -/
theorem prefix_append_cases {ts us vs : List Token} (h : vs <+: ts ++ us) :
    vs <+: ts ∨ ∃ us', vs = ts ++ us' ∧ us' <+: us := by
  rcases List.prefix_or_prefix_of_prefix h (List.prefix_append ts us) with hvs | ⟨us', rfl⟩
  · exact .inl hvs
  · exact .inr ⟨us', rfl, (List.prefix_append_right_inj ts).1 h⟩

/-- Tokens that close exactly what they open, and never more than they have opened so far. -/
structure Balanced (ts : List Token) : Prop where
  total : closes ts = opens ts
  partway : ∀ us, us <+: ts → closes us ≤ opens us

namespace Balanced

theorem nil : Balanced [] where
  total := rfl
  partway us hus := by
    rw [List.prefix_nil.1 hus]
    exact le_refl 0

theorem append {ts us : List Token} (ht : Balanced ts) (hu : Balanced us) :
    Balanced (ts ++ us) where
  total := by rw [closes_append, opens_append, ht.total, hu.total]
  partway vs hvs := by
    rcases prefix_append_cases hvs with hvs | ⟨us', rfl, hus'⟩
    · exact ht.partway vs hvs
    · rw [closes_append, opens_append, ht.total]
      exact Nat.add_le_add_left (hu.partway us' hus') _

theorem single {t : Token} (hopens : t.opens = 0) (hcloses : t.closes = 0) : Balanced [t] where
  total := by simp [hopens, hcloses]
  partway us hus := by
    rcases List.prefix_cons_iff.1 hus with rfl | ⟨us', rfl, hus'⟩
    · exact le_refl 0
    · rw [List.prefix_nil.1 hus']
      simp [hopens, hcloses]

/-- A part of a value in brackets that does not reach the closing one leaves it open. -/
theorem bracket_open {first last : Token} {ts us : List Token} (hfirst : first.opens = 1)
    (hfirst' : first.closes = 0) (ht : Balanced ts) (hus : us <+: first :: (ts ++ [last]))
    (hne : us ≠ []) (hlast : us ≠ first :: (ts ++ [last])) : closes us < opens us := by
  rcases List.prefix_cons_iff.1 hus with rfl | ⟨vs, rfl, hvs⟩
  · exact absurd rfl hne
  · have hvs : vs <+: ts := by
      rcases prefix_append_cases hvs with hvs | ⟨ws, rfl, hws⟩
      · exact hvs
      · rcases List.prefix_cons_iff.1 hws with rfl | ⟨xs, rfl, hxs⟩
        · simp
        · rw [List.prefix_nil.1 hxs] at hlast
          exact absurd rfl hlast
    have := ht.partway vs hvs
    simp only [opens_cons, closes_cons]
    omega

theorem bracket {first last : Token} {ts : List Token} (hfirst : first.opens = 1)
    (hfirst' : first.closes = 0) (hlast : last.opens = 0) (hlast' : last.closes = 1)
    (ht : Balanced ts) : Balanced (first :: (ts ++ [last])) where
  total := by
    simp only [opens_cons, closes_cons, opens_append, closes_append, opens_nil, closes_nil]
    have := ht.total
    omega
  partway us hus := by
    by_cases hnil : us = []
    · rw [hnil]
      exact le_refl 0
    · by_cases hall : us = first :: (ts ++ [last])
      · subst hall
        simp only [opens_cons, closes_cons, opens_append, closes_append, opens_nil, closes_nil]
        have := ht.total
        omega
      · exact Nat.le_of_lt (bracket_open hfirst hfirst' ht hus hnil hall)

end Balanced

namespace Json

mutual

theorem tokens_balanced : (v : Json) → Balanced v.tokens
  | .scalar _ => .single rfl rfl
  | .string _ => .single rfl rfl
  | .array items => .bracket rfl rfl rfl rfl (item_tokens_balanced items)
  | .object members => .bracket rfl rfl rfl rfl (member_tokens_balanced members)

theorem item_tokens_balanced : (items : List Json) → Balanced (itemTokens items)
  | [] => .nil
  | v :: rest => v.tokens_balanced.append (item_tokens_balanced rest)

theorem member_tokens_balanced : (members : List (String × Json)) →
    Balanced (memberTokens members)
  | [] => .nil
  | (name, v) :: rest =>
      (Balanced.single (t := .string name) rfl rfl).append
        (v.tokens_balanced.append (member_tokens_balanced rest))

end

theorem values_balanced (values : List Json) : Balanced (values.flatMap tokens) := by
  induction values with
  | nil => exact .nil
  | cons v rest ih =>
      rw [List.flatMap_cons]
      exact v.tokens_balanced.append ih

/-- A value that has begun and is not complete has an open array or object. -/
theorem tokens_open {v : Json} {us : List Token} (hus : us <+: v.tokens) (hne : us ≠ [])
    (hall : us ≠ v.tokens) : closes us < opens us := by
  cases v with
  | scalar s =>
      rcases List.prefix_cons_iff.1 hus with rfl | ⟨vs, rfl, hvs⟩
      · exact absurd rfl hne
      · rw [List.prefix_nil.1 hvs] at hall
        exact absurd rfl hall
  | string s =>
      rcases List.prefix_cons_iff.1 hus with rfl | ⟨vs, rfl, hvs⟩
      · exact absurd rfl hne
      · rw [List.prefix_nil.1 hvs] at hall
        exact absurd rfl hall
  | array items => exact Balanced.bracket_open rfl rfl (item_tokens_balanced items) hus hne hall
  | object members =>
      exact Balanced.bracket_open rfl rfl (member_tokens_balanced members) hus hne hall

end Json

/-! ## One value -/

/-- The pass is at a place where a value may stand. -/
structure Walk.Ready (w : Walk) : Prop where
  first : w.stack = [] → w.values = 0
  noKey : ∀ top rest, w.stack = top :: rest → ¬(top.object ∧ top.expectKey)

/-- The state after a complete value. -/
def Walk.after (w : Walk) : Walk := w.expectKey.count

/-- The state inside a new array. -/
def Walk.inArray (w : Walk) : Walk :=
  { w.expectKey with stack := { object := false, expectKey := false } :: w.expectKey.stack }

/-- The state inside a new object after some of its members. -/
def Walk.inObject (w : Walk) (keys : List String) : Walk :=
  { w.expectKey with stack := { object := true, keys, expectKey := true } :: w.expectKey.stack }

/-- The state inside an object after a member name. -/
def Walk.inMember (w : Walk) (keys : List String) : Walk :=
  { w.expectKey with stack := { object := true, keys, expectKey := false } :: w.expectKey.stack }

section Value

variable {quote : String → String} {w : Walk}

theorem step_ready (h : w.Ready) (t : Token) : w.step quote t = w.expectKey.value t := by
  unfold Walk.step
  cases hstack : w.stack with
  | nil =>
      have : w.expectKey = w := by simp [Walk.expectKey, hstack]
      simp [h.first hstack, this]
  | cons top rest => simp [h.noKey top rest hstack]

theorem in_array_ready : w.inArray.Ready where
  first := nofun
  noKey top rest hstack := by
    cases hstack
    simp

theorem in_member_ready (keys : List String) : (w.inMember keys).Ready where
  first := nofun
  noKey top rest hstack := by
    cases hstack
    simp

@[simp] theorem in_array_after : w.inArray.after = w.inArray := rfl

@[simp] theorem in_member_after (keys : List String) :
    (w.inMember keys).after = w.inObject keys := rfl

@[simp] theorem in_array_length : w.inArray.stack.length = w.stack.length + 1 := by
  simp [Walk.inArray]

@[simp] theorem in_member_length (keys : List String) :
    (w.inMember keys).stack.length = w.stack.length + 1 := by
  simp [Walk.inMember]

/-- An array begins where the nesting allows another level. -/
theorem step_open_array (h : w.Ready) {w' : Walk} :
    w.step quote (.delim .openArray) = .ok w' ↔ w.stack.length < maxDepth ∧ w' = w.inArray := by
  rw [step_ready h, Walk.value, Walk.expect_key_length, Walk.malformed, Fallible.guard_eq_ok]
  rw [Except.ok.injEq, eq_comm, not_le]
  rfl

/-- An object begins where the nesting allows another level. -/
theorem step_open_object (h : w.Ready) {w' : Walk} :
    w.step quote (.delim .openObject) = .ok w' ↔
      w.stack.length < maxDepth ∧ w' = w.inObject [] := by
  rw [step_ready h, Walk.value, Walk.expect_key_length, Walk.malformed, Fallible.guard_eq_ok]
  rw [Except.ok.injEq, eq_comm, not_le]
  rfl

theorem step_close_array : w.inArray.step quote (.delim .closeArray) = .ok w.after := rfl

theorem step_close_object (keys : List String) :
    (w.inObject keys).step quote (.delim .closeObject) = .ok w.after := rfl

/-- A member name is taken once. -/
theorem step_name {keys : List String} {name : String} {w' : Walk} :
    (w.inObject keys).step quote (.string name) = .ok w' ↔
      name ∉ keys ∧ w' = w.inMember (name :: keys) := by
  have hstep : (w.inObject keys).step quote (.string name) =
      if name ∈ keys then Walk.malformed ("duplicate member " ++ quote name)
      else .ok (w.inMember (name :: keys)) := rfl
  rw [hstep, Walk.malformed, Fallible.guard_eq_ok, Except.ok.injEq, eq_comm (a := w')]

end Value

mutual

/-- The pass over the tokens of a value succeeds when the value repeats no member name and nests no
deeper than the levels left, and it then has read exactly this value. -/
theorem walk_value (quote : String → String) (v : Json) {w w' : Walk} (hready : w.Ready)
    (hlength : w.stack.length ≤ maxDepth) :
    walk quote w v.tokens = .ok w' ↔
      v.distinct ∧ w.stack.length + v.depth ≤ maxDepth ∧ w' = w.after :=
  match v with
  | .scalar s => by
      have hstep : w.step quote (.scalar s) = .ok w.after := step_ready hready _
      simp only [Json.tokens, walk_cons_iff, hstep, Except.ok.injEq, exists_eq_left',
        Json.distinct, Json.depth]
      exact ⟨fun h => by cases h; simpa using hlength, fun h => by rw [h.2.2]; rfl⟩
  | .string s => by
      have hstep : w.step quote (.string s) = .ok w.after := step_ready hready _
      simp only [Json.tokens, walk_cons_iff, hstep, Except.ok.injEq, exists_eq_left',
        Json.distinct, Json.depth]
      exact ⟨fun h => by cases h; simpa using hlength, fun h => by rw [h.2.2]; rfl⟩
  | .array items => by
      simp only [Json.tokens, walk_cons_iff, walk_append_iff, Json.distinct, Json.depth]
      constructor
      · rintro ⟨w₁, hopen, w₂, hitems, w₃, hclose, hend⟩
        obtain ⟨hroom, rfl⟩ := (step_open_array hready).1 hopen
        obtain ⟨hdistinct, hdepth, rfl⟩ := (walk_items quote items (by simpa using hroom)).1 hitems
        rw [step_close_array] at hclose
        cases hclose
        cases hend
        exact ⟨hdistinct, by omega, rfl⟩
      · rintro ⟨hdistinct, hdepth, rfl⟩
        have hroom : w.stack.length < maxDepth := by omega
        exact ⟨_, (step_open_array hready).2 ⟨hroom, rfl⟩, _,
          (walk_items quote items hroom).2 ⟨hdistinct, by omega, rfl⟩, _, step_close_array, rfl⟩
  | .object members => by
      simp only [Json.tokens, walk_cons_iff, walk_append_iff, Json.distinct, Json.depth,
        Bool.and_eq_true, decide_eq_true_eq]
      constructor
      · rintro ⟨w₁, hopen, w₂, hmembers, w₃, hclose, hend⟩
        obtain ⟨hroom, rfl⟩ := (step_open_object hready).1 hopen
        obtain ⟨hnames, -, hdistinct, hdepth, rfl⟩ := (walk_members quote members hroom).1 hmembers
        rw [step_close_object] at hclose
        cases hclose
        cases hend
        exact ⟨⟨hnames, hdistinct⟩, by omega, rfl⟩
      · rintro ⟨⟨hnames, hdistinct⟩, hdepth, rfl⟩
        have hroom : w.stack.length < maxDepth := by omega
        exact ⟨_, (step_open_object hready).2 ⟨hroom, rfl⟩, _,
          (walk_members quote members hroom).2 ⟨hnames, by simp, hdistinct, by omega, rfl⟩, _,
          step_close_object _, rfl⟩

/-- The items of an array, one value after the other. -/
theorem walk_items (quote : String → String) (items : List Json) {w w' : Walk}
    (hroom : w.stack.length < maxDepth) :
    walk quote w.inArray (Json.itemTokens items) = .ok w' ↔
      Json.distinctItems items ∧ w.stack.length + 1 + Json.itemDepth items ≤ maxDepth ∧
        w' = w.inArray :=
  match items with
  | [] => by
      simp only [Json.itemTokens, Json.distinctItems, Json.itemDepth]
      exact ⟨fun h => by cases h; exact ⟨trivial, hroom, rfl⟩, fun h => by rw [h.2.2]; rfl⟩
  | v :: rest => by
      have hvalue : ∀ {w₁}, walk quote w.inArray v.tokens = .ok w₁ ↔ _ :=
        walk_value quote v in_array_ready (by rwa [in_array_length])
      simp only [Json.itemTokens, walk_append_iff, hvalue, in_array_length, in_array_after,
        Json.distinctItems, Json.itemDepth, Bool.and_eq_true]
      constructor
      · rintro ⟨_, ⟨hdistinct, hdepth, rfl⟩, h⟩
        obtain ⟨hdistinct', hdepth', rfl⟩ := (walk_items quote rest hroom).1 h
        exact ⟨⟨hdistinct, hdistinct'⟩, by omega, rfl⟩
      · rintro ⟨⟨hdistinct, hdistinct'⟩, hdepth, rfl⟩
        exact ⟨_, ⟨hdistinct, by omega, rfl⟩,
          (walk_items quote rest hroom).2 ⟨hdistinct', by omega, rfl⟩⟩

/-- The members of an object, each name against those before it. -/
theorem walk_members (quote : String → String) (members : List (String × Json))
    {keys : List String} {w w' : Walk} (hroom : w.stack.length < maxDepth) :
    walk quote (w.inObject keys) (Json.memberTokens members) = .ok w' ↔
      (members.map Prod.fst).Nodup ∧ (∀ name ∈ members.map Prod.fst, name ∉ keys) ∧
        Json.distinctMembers members ∧ w.stack.length + 1 + Json.memberDepth members ≤ maxDepth ∧
        w' = w.inObject ((members.map Prod.fst).reverse ++ keys) :=
  match members with
  | [] => by
      simp only [Json.memberTokens, Json.distinctMembers, Json.memberDepth]
      constructor
      · intro h
        cases h
        exact ⟨List.nodup_nil, by simp, trivial, hroom, rfl⟩
      · rintro ⟨-, -, -, -, rfl⟩
        rfl
  | (name, v) :: rest => by
      have hvalue : ∀ {w₁}, walk quote (w.inMember (name :: keys)) v.tokens = .ok w₁ ↔ _ :=
        walk_value quote v (in_member_ready _) (by rwa [in_member_length])
      simp only [Json.memberTokens, walk_cons_iff, walk_append_iff, step_name, Json.distinctMembers,
        Json.memberDepth, Bool.and_eq_true, List.map_cons, List.nodup_cons, List.reverse_cons,
        List.append_assoc, List.singleton_append, List.forall_mem_cons]
      constructor
      · rintro ⟨_, ⟨hnew, rfl⟩, _, h, h'⟩
        obtain ⟨hdistinct, hdepth, rfl⟩ := hvalue.1 h
        obtain ⟨hnames, hfresh, hdistinct', hdepth', rfl⟩ := (walk_members quote rest hroom).1 h'
        rw [in_member_length] at hdepth
        -- A later name differs from this one and from those before it.
        refine ⟨⟨fun hmem => hfresh name hmem List.mem_cons_self, hnames⟩,
          ⟨hnew, fun n hn hkey => hfresh n hn (List.mem_cons_of_mem name hkey)⟩,
          ⟨hdistinct, hdistinct'⟩, by omega, rfl⟩
      · rintro ⟨⟨hname, hnames⟩, ⟨hnew, hfresh⟩, ⟨hdistinct, hdistinct'⟩, hdepth, rfl⟩
        refine ⟨_, ⟨hnew, rfl⟩, _, hvalue.2 ⟨hdistinct, ?_, rfl⟩,
          (walk_members quote rest hroom).2 ⟨hnames, ?_, hdistinct', by omega, rfl⟩⟩
        · rw [in_member_length]
          omega
        · rintro n hn hkey
          rcases List.mem_cons.1 hkey with rfl | hkey
          · exact hname hn
          · exact hfresh n hn hkey

end

/-! ## Whole documents -/

/-- What the pass must have done when the document is accepted. -/
theorem check_json_ok {quote : String → String} {s : Stream} :
    checkJSON quote s = .ok () ↔
      ∃ w, walk quote {} s.tokens = .ok w ∧ s.err = none ∧ w.stack = [] ∧ w.values ≠ 0 := by
  rw [checkJSON, Fallible.bind_eq_ok]
  refine exists_congr fun w => and_congr_right fun _ => ?_
  cases s.err with
  | some err => exact ⟨nofun, nofun⟩
  | none =>
      simp only [Walk.finish, Walk.malformed, Fallible.guard_eq_ok, not_not,
        List.length_eq_zero_iff, and_true, true_and]

/-- The text of one value is accepted exactly if no object in it repeats a member name and it is not
nested too deep. -/
theorem check_value_ok {quote : String → String} {v : Json} :
    checkJSON quote ⟨v.tokens, none⟩ = .ok () ↔ v.distinct = true ∧ v.depth ≤ 32 := by
  rw [check_json_ok]
  have hwalk {w : Walk} : walk quote {} v.tokens = .ok w ↔ _ :=
    walk_value quote v ⟨fun _ => rfl, nofun⟩ (Nat.zero_le _)
  constructor
  · rintro ⟨w, hread, -, -, -⟩
    obtain ⟨hdistinct, hdepth, -⟩ := hwalk.1 hread
    exact ⟨hdistinct, by simpa [maxDepth] using hdepth⟩
  · rintro ⟨hdistinct, hdepth⟩
    exact ⟨_, hwalk.2 ⟨hdistinct, by simpa [maxDepth] using hdepth, rfl⟩, rfl, rfl, nofun⟩

/-- The checks after the pass return errors of their own. -/
theorem check_json_keeps_stack {quote : String → String} {s : Stream}
    (h : walk quote {} s.tokens ≠ .error .emptyStack) :
    checkJSON quote s ≠ .error .emptyStack := by
  intro hcheck
  rcases Fallible.bind_eq_error.1 hcheck with hwalk | ⟨w, -, hfinish⟩
  · exact h hwalk
  · unfold Walk.finish at hfinish
    split at hfinish
    · cases hfinish
    · split at hfinish
      · cases hfinish
      · split at hfinish <;> cases hfinish

/-- After the first value of a document, every token is refused. -/
theorem walk_content_after {quote : String → String} {t : Token} {ts : List Token} {w' : Walk} :
    walk quote (Walk.after {}) (t :: ts) ≠ .ok w' := by
  rw [Ne, walk_cons_iff]
  rintro ⟨w₁, hstep, -⟩
  cases hstep

/-- The pass over a part of a sequence of values can only end with nothing open, and with something
read, if the part is the first of the values. -/
theorem tokens_eq_of_accepted {quote : String → String} {values : List Json} {ts : List Token}
    {w : Walk} (hstem : ts <+: values.flatMap Json.tokens) (hwalk : walk quote {} ts = .ok w)
    (hstack : w.stack = []) (hvalues : w.values ≠ 0) :
    ∃ v : Json, ts = v.tokens ∧ v.distinct ∧ v.depth ≤ maxDepth := by
  have hready : Walk.Ready {} := ⟨fun _ => rfl, nofun⟩
  have hone (v : Json) {w₁ : Walk} (h : walk quote {} v.tokens = .ok w₁) :
      v.distinct ∧ v.depth ≤ maxDepth ∧ w₁ = Walk.after {} := by
    simpa using (walk_value quote v hready (Nat.zero_le _)).1 h
  cases values with
  | nil =>
      rw [List.flatMap_nil, List.prefix_nil] at hstem
      subst hstem
      cases hwalk
      exact absurd rfl hvalues
  | cons v rest =>
      rw [List.flatMap_cons] at hstem
      rcases prefix_append_cases hstem with hpart | ⟨us, rfl, -⟩
      · by_cases hall : ts = v.tokens
        · subst hall
          obtain ⟨hdistinct, hdepth, -⟩ := hone v hwalk
          exact ⟨v, rfl, hdistinct, hdepth⟩
        · -- A proper part leaves something open unless it is empty.
          have hne : ts ≠ [] := by
            rintro rfl
            cases hwalk
            exact hvalues rfl
          have hopen := Json.tokens_open hpart hne hall
          have hheight := walk_height hwalk
          simp only [hstack, List.length_nil, Nat.zero_add] at hheight
          omega
      · obtain ⟨w₁, hfirst, hmore⟩ := walk_append_iff.1 hwalk
        obtain ⟨hdistinct, hdepth, rfl⟩ := hone v hfirst
        cases us with
        | nil => exact ⟨v, List.append_nil _, hdistinct, hdepth⟩
        | cons t us => exact absurd hmore walk_content_after

/-- Tokens that are those of a sequence of JSON values as far as they go are accepted exactly when
they end without an error and are those of one complete value in which no object repeats a member
name and arrays and objects nest at most 32 deep. The pass never takes a frame off an empty
stack. -/
theorem check_json_iff (quote : String → String) (values : List Json) (s : Stream)
    (hstem : s.tokens <+: values.flatMap Json.tokens) :
    (checkJSON quote s = .ok () ↔
      s.err = none ∧ ∃ v : Json, s.tokens = v.tokens ∧ v.distinct ∧ v.depth ≤ 32) ∧
    checkJSON quote s ≠ .error .emptyStack := by
  refine ⟨?_, ?_⟩
  · rw [check_json_ok]
    constructor
    · rintro ⟨w, hwalk, herr, hstack, hvalues⟩
      exact ⟨herr, tokens_eq_of_accepted hstem hwalk hstack hvalues⟩
    · rintro ⟨herr, v, htokens, hdistinct, hdepth⟩
      have hwalk := (walk_value quote v (w := {}) ⟨fun _ => rfl, nofun⟩ (Nat.zero_le _)).2
        ⟨hdistinct, by simpa [maxDepth] using hdepth, rfl⟩
      rw [htokens]
      exact ⟨_, hwalk, herr, rfl, nofun⟩
  · refine check_json_keeps_stack (walk_never_pops_empty fun us hus => ?_)
    have hpart := (Json.values_balanced values).partway us (hus.trans hstem)
    simpa using hpart

/-- A document with an empty array, nested objects and a name that returns in another object. -/
def sampleDocument : Json :=
  .object [("a", .array []), ("b", .object [("a", .scalar .null), ("c", .string "a")])]

theorem check_json_sample :
    checkJSON id ⟨sampleDocument.tokens, none⟩ = .ok () :=
  (check_json_iff id [sampleDocument] ⟨sampleDocument.tokens, none⟩
    (by simp)).1.2 ⟨rfl, sampleDocument, rfl, by decide, by decide⟩

end AcmeServer.Jws
