import Mathlib.Data.Finmap

/-!
# Indexes of a table

A table with an index is two finite maps that have to be kept in step. `Indexes` is the index of a
tag that no two entries share: it leads from the tag to the key of the entry. `Lists` is the index
of a tag that many entries may share: it leads to a list of keys. For both there is one lemma for
each way to write an entry.
-/

namespace Table

variable {κ ι V : Type} [DecidableEq κ] [DecidableEq ι]
variable {t : Finmap fun _ : κ => V} {k : κ} {v old : V}

section Unique

variable {tag : V → Option ι} {index index' : Finmap fun _ : ι => κ}

/-- The index leads from a tag to a key exactly if the entry there has the tag. -/
def Indexes (tag : V → Option ι) (t : Finmap fun _ : κ => V)
    (index : Finmap fun _ : ι => κ) : Prop :=
  ∀ i k, index.lookup i = some k ↔ ∃ v, t.lookup k = some v ∧ tag v = some i

theorem indexes_empty : Indexes tag (∅ : Finmap fun _ : κ => V) ∅ := by
  intro i k
  simp [Finmap.lookup_empty]

/-- A tag belongs to one entry. -/
theorem Indexes.unique (h : Indexes tag t index) {k' : κ} {v' : V} {i : ι}
    (hv : t.lookup k = some v) (hv' : t.lookup k' = some v') (hi : tag v = some i)
    (hi' : tag v' = some i) : k = k' := by
  have hk := (h i k).mpr ⟨v, hv, hi⟩
  have hk' := (h i k').mpr ⟨v', hv', hi'⟩
  rw [hk] at hk'
  exact Option.some.inj hk'

/-- Writing an entry whose tag belongs to no other one: the index loses what led to the
entry and leads to it from the tag it has now. -/
theorem Indexes.insert (h : Indexes tag t index)
    (hfree : ∀ i owner, tag v = some i → index.lookup i = some owner → owner = k)
    (hindex : ∀ i, index'.lookup i = if tag v = some i then some k
      else if index.lookup i = some k then none else index.lookup i) :
    Indexes tag (t.insert k v) index' := by
  intro i j
  rw [hindex]
  by_cases hj : j = k
  · subst hj
    rw [Finmap.lookup_insert]
    by_cases hi : tag v = some i
    · simp [hi]
    · have hlost : (if index.lookup i = some j then none else index.lookup i) ≠ some j := by
        split
        · simp
        · assumption
      simp [hi, hlost]
  · rw [Finmap.lookup_insert_of_ne t hj, ← h i j]
    by_cases hi : tag v = some i
    · rw [if_pos hi]
      refine ⟨fun hsame => absurd (Option.some.inj hsame).symm hj, fun howner => ?_⟩
      exact absurd (hfree i j hi howner) hj
    · rw [if_neg hi]
      split
      · rename_i hold
        rw [hold]
        simpa using fun hsame => hj hsame.symm
      · exact Iff.rfl

/-- Adding an entry with a tag that no entry has. -/
theorem Indexes.insert_new (h : Indexes tag t index) (hk : t.lookup k = none)
    (hfree : ∀ i, tag v = some i → index.lookup i = none)
    (hindex : ∀ i, index'.lookup i = if tag v = some i then some k else index.lookup i) :
    Indexes tag (t.insert k v) index' := by
  refine h.insert (fun i owner hi howner => ?_) fun i => ?_
  · rw [hfree i hi] at howner
    cases howner
  · have hunowned : index.lookup i ≠ some k := by
      intro howner
      obtain ⟨u, hu, _⟩ := (h i k).mp howner
      rw [hk] at hu
      cases hu
    rw [hindex, if_neg hunowned]

/-- Erasing the only tag that may lead to a key. -/
theorem lookup_erase_owned {j : ι} (honly : ∀ i, index.lookup i = some k → i = j)
    (howner : ∀ owner, index.lookup j = some owner → owner = k) (i : ι) :
    (index.erase j).lookup i = if index.lookup i = some k then none else index.lookup i := by
  by_cases hi : i = j
  · subst hi
    rw [Finmap.lookup_erase]
    cases hfound : index.lookup i with
    | none => simp
    | some owner => simp [howner owner hfound]
  · rw [Finmap.lookup_erase_ne hi, if_neg fun howned => hi (honly i howned)]

end Unique

section Shared

variable {tag : V → ι} {index : Finmap fun _ : ι => List κ}

/-- The keys that the index lists for the tag. -/
def listed (index : Finmap fun _ : ι => List κ) (i : ι) : List κ := (index.lookup i).getD []

/-- The index lists for each tag the keys of the entries that have it. -/
def Lists (tag : V → ι) (t : Finmap fun _ : κ => V)
    (index : Finmap fun _ : ι => List κ) : Prop :=
  ∀ i k, k ∈ listed index i ↔ ∃ v, t.lookup k = some v ∧ tag v = i

theorem lists_empty : Lists tag (∅ : Finmap fun _ : κ => V) ∅ := by
  intro i k
  simp [listed, Finmap.lookup_empty]

omit [DecidableEq κ] in
theorem listed_insert (index : Finmap fun _ : ι => List κ) (i j : ι) (ks : List κ) :
    listed (index.insert j ks) i = if i = j then ks else listed index i := by
  unfold listed
  split
  · rename_i hsame
    rw [hsame, Finmap.lookup_insert]
    rfl
  · rename_i hne
    rw [Finmap.lookup_insert_of_ne index hne]

/-- Adding an entry and its key. -/
theorem Lists.insert_new (h : Lists tag t index) (hk : t.lookup k = none) :
    Lists tag (t.insert k v)
      (index.insert (tag v) (listed index (tag v) ++ [k])) := by
  intro i j
  rw [listed_insert]
  by_cases hj : j = k
  · subst hj
    have hout : j ∉ listed index i := by
      intro hmem
      obtain ⟨u, hu, _⟩ := (h i j).mp hmem
      rw [hk] at hu
      cases hu
    rw [Finmap.lookup_insert]
    split
    · rename_i hsame
      simp [hsame]
    · rename_i hne
      simpa [hout] using fun hsame => hne hsame.symm
  · rw [Finmap.lookup_insert_of_ne t hj, ← h i j]
    split
    · rename_i hsame
      simp [hsame, hj]
    · exact Iff.rfl

/-- Replacing an entry by one with the same tag. -/
theorem Lists.replace (h : Lists tag t index) (hold : t.lookup k = some old)
    (hsame : tag v = tag old) : Lists tag (t.insert k v) index := by
  intro i j
  rw [h i j]
  by_cases hj : j = k
  · subst hj
    rw [hold, Finmap.lookup_insert]
    simp [hsame]
  · rw [Finmap.lookup_insert_of_ne t hj]

end Shared

end Table
