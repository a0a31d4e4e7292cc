import Mathlib.Data.List.Induction
import Mathlib.Order.Lattice

/-!
# Searching a list for a least element

A loop that keeps the best element it has seen: `round` takes a candidate if it is smaller than the
best one so far. Whatever the order of the list, the loop ends with a candidate that no other one is
smaller than (`least_of_some`), and with nothing only if there is no candidate (`none_iff`).
-/

namespace Search

variable {α κ : Type} [LinearOrder κ] (candidate : α → Prop) [DecidablePred candidate] (key : α → κ)

/-- One round of the loop. -/
def round (best : Option α) (x : α) : Option α :=
  if candidate x then
    match best with
    | none => some x
    | some b => if key x < key b then some x else some b
  else best

/-- The loop. -/
def search (xs : List α) : Option α := xs.foldl (round candidate key) none

/-- The element is a candidate of the list and no other one is smaller. -/
structure Least (xs : List α) (b : α) : Prop where
  mem : b ∈ xs
  chosen : candidate b
  le : ∀ x ∈ xs, candidate x → key b ≤ key x

/-- What a round makes of the result for the elements before. -/
def Found (xs : List α) : Option α → Prop
  | none => ∀ x ∈ xs, ¬candidate x
  | some b => Least candidate key xs b

variable {candidate key} {xs : List α} {best : Option α}

theorem found_round (h : Found candidate key xs best) (x : α) :
    Found candidate key (xs ++ [x]) (round candidate key best x) := by
  unfold round
  by_cases hx : candidate x
  · rw [if_pos hx]
    cases best with
    | none =>
        refine ⟨List.mem_append_right _ (List.mem_singleton_self x), hx, fun y hy hy' => ?_⟩
        rcases List.mem_append.1 hy with hy | hy
        · exact absurd hy' (h y hy)
        · rw [List.mem_singleton.1 hy]
    | some b =>
        have hb : Least candidate key xs b := h
        by_cases hlt : key x < key b
        · simp only [if_pos hlt]
          refine ⟨List.mem_append_right _ (List.mem_singleton_self x), hx, fun y hy hy' => ?_⟩
          rcases List.mem_append.1 hy with hy | hy
          · exact le_trans (le_of_lt hlt) (hb.le y hy hy')
          · rw [List.mem_singleton.1 hy]
        · simp only [if_neg hlt]
          refine ⟨List.mem_append_left _ hb.mem, hb.chosen, fun y hy hy' => ?_⟩
          rcases List.mem_append.1 hy with hy | hy
          · exact hb.le y hy hy'
          · rw [List.mem_singleton.1 hy]
            exact not_lt.1 hlt
  · rw [if_neg hx]
    cases best with
    | none =>
        intro y hy
        rcases List.mem_append.1 hy with hy | hy
        · exact h y hy
        · rwa [List.mem_singleton.1 hy]
    | some b =>
        have hb : Least candidate key xs b := h
        refine ⟨List.mem_append_left _ hb.mem, hb.chosen, fun y hy hy' => ?_⟩
        rcases List.mem_append.1 hy with hy | hy
        · exact hb.le y hy hy'
        · rw [List.mem_singleton.1 hy] at hy'
          exact absurd hy' hx

theorem found_search (xs : List α) : Found candidate key xs (search candidate key xs) := by
  induction xs using List.reverseRecOn with
  | nil => exact fun x hx => absurd hx List.not_mem_nil
  | append_singleton xs x ih =>
      rw [search, List.foldl_append]
      exact found_round ih x

/-- The search finds nothing exactly if there is no candidate. -/
theorem search_eq_none : search candidate key xs = none ↔ ∀ x ∈ xs, ¬candidate x := by
  have hfound : Found candidate key xs (search candidate key xs) := found_search xs
  cases hsearch : search candidate key xs with
  | none =>
      rw [hsearch] at hfound
      exact iff_of_true rfl hfound
  | some b =>
      rw [hsearch] at hfound
      have hb : Least candidate key xs b := hfound
      exact iff_of_false nofun fun h => h b hb.mem hb.chosen

/-- What the search finds is least. -/
theorem least_of_search {b : α} (h : search candidate key xs = some b) :
    Least candidate key xs b := by
  have hfound : Found candidate key xs (search candidate key xs) := found_search xs
  rw [h] at hfound
  exact hfound

/-- If candidates have different keys, the search finds the least one. -/
theorem search_eq_some {b : α}
    (hkeys : ∀ x ∈ xs, ∀ y ∈ xs, candidate x → candidate y → key x = key y → x = y) :
    search candidate key xs = some b ↔ Least candidate key xs b := by
  refine ⟨least_of_search, fun h => ?_⟩
  cases hsearch : search candidate key xs with
  | none => exact absurd h.chosen (search_eq_none.1 hsearch b h.mem)
  | some c =>
      have hc := least_of_search hsearch
      have hsame : key c = key b := le_antisymm (hc.le b h.mem h.chosen) (h.le c hc.mem hc.chosen)
      rw [hkeys c hc.mem b h.mem hc.chosen h.chosen hsame]

end Search
