import Mathlib.Algebra.Order.Floor.Div
import Mathlib.Data.List.Infix
import Mathlib.Data.List.Nodup

/-!
# Reading a growing list page by page

A list without duplicates only grows at its end while a client reads it in pages. A page is asked
for with the last item of the page before as a cursor, and one item more than fits is fetched to
learn whether another page follows.

`Walk` relates what the list held when the last page was read, the cursor to go on with and the
pages. `Reached.fetch_eq` says that the cursor is always found, and `Reached.complete` that a walk
without a further cursor has read the whole list, in the least number of pages.
-/

namespace Paging

variable {α : Type}

/-- Up to `limit` items behind the cursor, unless the cursor is not an item. Without a cursor the
list is read from its start. -/
def fetch [DecidableEq α] (items : List α) (limit : Nat) : Option α → Option (List α)
  | none => some (items.take limit)
  | some cursor =>
      (items.findIdx? (· == cursor)).map fun pos => (items.drop (pos + 1)).take limit

/-- The cursor that a page ends with, if more was fetched than fits on it. -/
def next (size : Nat) (fetched : List α) : Option α :=
  if size < fetched.length then (fetched.take size).getLast? else none

/-- A client has read the pages, the last one when these were the items, and holds the cursor of
the next page, if there is one. -/
inductive Walk [DecidableEq α] (size : Nat) : List α → Option α → List (List α) → Prop where
  | first {items fetched : List α} (hfetch : fetch items (size + 1) none = some fetched) :
      Walk size items (next size fetched) [fetched.take size]
  | step {items items' fetched : List α} {cursor : α} {pages : List (List α)}
      (hwalk : Walk size items (some cursor) pages) (hgrown : items <+: items')
      (hfetch : fetch items' (size + 1) (some cursor) = some fetched) :
      Walk size items' (next size fetched) (pages ++ [fetched.take size])

/-- Behind an item of a list without duplicates. -/
theorem fetch_of_get [DecidableEq α] {items : List α} (hnodup : items.Nodup) {k : Nat} {cursor : α}
    (hcursor : items[k]? = some cursor) (limit : Nat) :
    fetch items limit (some cursor) = some ((items.drop (k + 1)).take limit) := by
  obtain ⟨hk, rfl⟩ := List.getElem?_eq_some_iff.1 hcursor
  have hfound : items.findIdx? (· == items[k]) = some k := by
    rw [List.findIdx?_eq_some_iff_getElem]
    refine ⟨hk, by simp, fun j hj => ?_⟩
    simp only [beq_iff_eq, hnodup.getElem_inj_iff]
    omega
  rw [fetch, hfound, Option.map_some]

/-- The cursor of a page that starts at a position. -/
theorem next_take_drop {size : Nat} (hsize : 0 < size) (items : List α) (start : Nat) :
    next size ((items.drop start).take (size + 1)) =
      if start + size < items.length then items[start + size - 1]? else none := by
  unfold next
  rw [List.length_take, List.length_drop, List.take_take, min_eq_left (Nat.le_succ size)]
  by_cases hmore : start + size < items.length
  · rw [if_pos hmore, if_pos (by omega), List.getLast?_take, List.getElem?_drop]
    rw [if_neg (by omega), show start + (size - 1) = start + size - 1 by omega,
      List.getElem?_eq_getElem (by omega)]
    rfl
  · rw [if_neg hmore, if_neg (by omega)]

/-- How far a walk has got. -/
structure Reached (size : Nat) (items : List α) (cursor : Option α) (pages : List (List α)) :
    Prop where
  nonempty : 0 < pages.length
  read : pages.flatten = items.take (size * pages.length)
  cursor_eq : cursor =
    if size * pages.length < items.length then items[size * pages.length - 1]? else none
  needed : pages.length = 1 ∨ size * (pages.length - 1) < items.length

/-- The cursor is an item, and all pages before it are full. -/
theorem Reached.cursor_get {size : Nat} {items : List α} {cursor : α} {pages : List (List α)}
    (h : Reached size items (some cursor) pages) :
    size * pages.length < items.length ∧ items[size * pages.length - 1]? = some cursor := by
  have hcursor := h.cursor_eq
  split at hcursor
  · next hmore => exact ⟨hmore, hcursor.symm⟩
  · cases hcursor

theorem reached_first {size : Nat} (hsize : 0 < size) (items : List α) :
    Reached size items (next size (items.take (size + 1))) [(items.take (size + 1)).take size] where
  nonempty := Nat.one_pos
  read := by
    rw [List.flatten_singleton, List.take_take, min_eq_left (Nat.le_succ size)]
    simp
  cursor_eq := by
    have hnext := next_take_drop hsize items 0
    rw [List.drop_zero, Nat.zero_add] at hnext
    rw [hnext, List.length_singleton, Nat.mul_one]
  needed := .inl rfl

/-- The next page of a list that has grown. -/
theorem Reached.fetch_eq [DecidableEq α] {size : Nat} (hsize : 0 < size) {items items' : List α}
    {cursor : α} {pages : List (List α)} (h : Reached size items (some cursor) pages)
    (hgrown : items <+: items') (hnodup : items'.Nodup) (limit : Nat) :
    fetch items' limit (some cursor) = some ((items'.drop (size * pages.length)).take limit) := by
  obtain ⟨hmore, hcursor⟩ := h.cursor_get
  have hpos : 0 < size * pages.length := Nat.mul_pos hsize h.nonempty
  have hkept : items'[size * pages.length - 1]? = some cursor := by
    obtain ⟨more, rfl⟩ := hgrown
    rw [List.getElem?_append_left (by omega), hcursor]
  rw [fetch_of_get hnodup hkept,
    show size * pages.length - 1 + 1 = size * pages.length by omega]

theorem Reached.step {size : Nat} (hsize : 0 < size) {items items' : List α} {cursor : α}
    {pages : List (List α)} (h : Reached size items (some cursor) pages)
    (hgrown : items <+: items') {fetched : List α}
    (hfetched : fetched = (items'.drop (size * pages.length)).take (size + 1)) :
    Reached size items' (next size fetched) (pages ++ [fetched.take size]) := by
  subst hfetched
  obtain ⟨hmore, -⟩ := h.cursor_get
  have hlength : (pages ++ [((items'.drop (size * pages.length)).take (size + 1)).take size]).length
      = pages.length + 1 := by simp
  have hnext : size * (pages.length + 1) = size * pages.length + size := Nat.mul_succ _ _
  refine ⟨by rw [hlength]; exact Nat.succ_pos _, ?_, ?_, ?_⟩
  · have hkept : items'.take (size * pages.length) = items.take (size * pages.length) := by
      obtain ⟨more, rfl⟩ := hgrown
      rw [List.take_append_of_le_length hmore.le]
    rw [hlength, hnext, List.flatten_append, List.flatten_singleton, h.read, List.take_take,
      min_eq_left (Nat.le_succ size), ← hkept, ← List.take_add]
  · rw [next_take_drop hsize, hlength, hnext]
  · right
    rw [hlength, Nat.add_sub_cancel]
    exact lt_of_lt_of_le hmore hgrown.length_le

/-- Every walk has read the list up to the end of its last page. -/
theorem Walk.reached [DecidableEq α] {size : Nat} (hsize : 0 < size) {items : List α}
    {cursor : Option α} {pages : List (List α)} (h : Walk size items cursor pages)
    (hnodup : items.Nodup) :
    Reached size items cursor pages := by
  induction h with
  | first hfetch =>
      cases hfetch
      exact reached_first hsize _
  | step hwalk hgrown hfetch ih =>
      have hreached := ih (hgrown.sublist.nodup hnodup)
      rw [hreached.fetch_eq hsize hgrown hnodup] at hfetch
      cases hfetch
      exact hreached.step hsize hgrown rfl

/-- There is a next page as long as there are more items than on the pages. -/
theorem Reached.cursor_none_iff {size : Nat} {items : List α} {cursor : Option α}
    {pages : List (List α)} (h : Reached size items cursor pages) :
    cursor = none ↔ items.length ≤ size * pages.length := by
  rw [h.cursor_eq]
  by_cases hmore : size * pages.length < items.length
  · rw [if_pos hmore, List.getElem?_eq_getElem (by omega)]
    exact ⟨nofun, fun hend => absurd hmore (not_lt.2 hend)⟩
  · rw [if_neg hmore]
    exact ⟨fun _ => not_lt.1 hmore, fun _ => rfl⟩

/-- A walk without a further cursor has read all items, on as many pages as they need. -/
theorem Reached.complete {size : Nat} (hsize : 0 < size) {items : List α}
    {pages : List (List α)} (h : Reached size items none pages) :
    pages.flatten = items ∧ pages.length = max 1 (items.length ⌈/⌉ size) := by
  have hend : items.length ≤ size * pages.length := h.cursor_none_iff.1 rfl
  refine ⟨by rw [h.read, List.take_of_length_le hend], ?_⟩
  have hle : items.length ⌈/⌉ size ≤ pages.length := (ceilDiv_le_iff_le_mul hsize).2 hend
  rcases h.needed with hone | hneeded
  · rw [hone] at hle ⊢
    exact (max_eq_left hle).symm
  · -- The items do not fit on fewer pages.
    have hge : ¬items.length ⌈/⌉ size ≤ pages.length - 1 := by
      rw [ceilDiv_le_iff_le_mul hsize]
      omega
    have hpos := h.nonempty
    omega

end Paging
