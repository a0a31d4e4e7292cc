import Mathlib.Data.Finmap
import Mathlib.Logic.Relation

/-!
# Tables whose entries only change in permitted ways

A table is a finite map. `Evolves P t t'` says that every entry of `t` is still there in `t'`,
either unchanged or changed to a value that `P` allows; new entries are not restricted. With a
transitive `P` it is a preorder, so a fact proved for single updates holds between any two moments
of a run. `Follows P t t'` is the same for any number of changes, each allowed by `P`.

The typical `P` compares a version number that each update increases. `Follows.content` is then the
reason why optimistic concurrency control works: an entry that still has the version somebody saw
still has the content they saw.
-/

namespace Table

variable {κ V : Type} [DecidableEq κ]

/-- Every entry is kept or changed as `P` allows. -/
def Evolves (P : V → V → Prop) (t t' : Finmap fun _ : κ => V) : Prop :=
  ∀ k v, t.lookup k = some v → ∃ v', t'.lookup k = some v' ∧ (v' = v ∨ P v v')

variable {P Q : V → V → Prop} {t t' t'' : Finmap fun _ : κ => V} {k : κ} {v v' : V}

theorem Evolves.refl (t : Finmap fun _ : κ => V) : Evolves P t t :=
  fun _ v hv => ⟨v, hv, .inl rfl⟩

theorem Evolves.trans (hP : ∀ a b c, P a b → P b c → P a c) (h : Evolves P t t')
    (h' : Evolves P t' t'') : Evolves P t t'' := by
  intro k v hv
  obtain ⟨v₁, hv₁, hstep⟩ := h k v hv
  obtain ⟨v₂, hv₂, hstep'⟩ := h' k v₁ hv₁
  refine ⟨v₂, hv₂, ?_⟩
  rcases hstep with rfl | hstep
  · exact hstep'
  · rcases hstep' with rfl | hstep'
    · exact .inr hstep
    · exact .inr (hP _ _ _ hstep hstep')

theorem Evolves.mono (hPQ : ∀ a b, P a b → Q a b) (h : Evolves P t t') : Evolves Q t t' := by
  intro k v hv
  obtain ⟨v', hv', hstep⟩ := h k v hv
  exact ⟨v', hv', hstep.imp_right (hPQ v v')⟩

/-- What is found under a key that was just written. -/
theorem eq_of_lookup_insert (h : (t.insert k v).lookup k = some v') : v' = v := by
  rw [Finmap.lookup_insert] at h
  exact (Option.some.inj h).symm

/-- What is found after an insertion is the new value or was there before. -/
theorem lookup_insert_cases {k' : κ} (h : (t.insert k v).lookup k' = some v') :
    (k' = k ∧ v' = v) ∨ (k' ≠ k ∧ t.lookup k' = some v') := by
  by_cases hk : k' = k
  · subst hk
    exact .inl ⟨rfl, eq_of_lookup_insert h⟩
  · exact .inr ⟨hk, (Finmap.lookup_insert_of_ne t hk).symm.trans h⟩

/-- Replacing an entry as `P` allows. -/
theorem evolves_insert (hv : t.lookup k = some v) (hP : v' = v ∨ P v v') :
    Evolves P t (t.insert k v') := by
  intro j u hu
  by_cases hj : j = k
  · subst hj
    rw [hv] at hu
    cases hu
    exact ⟨v', Finmap.lookup_insert t, hP⟩
  · exact ⟨u, by rw [Finmap.lookup_insert_of_ne t hj]; exact hu, .inl rfl⟩

/-- Adding an entry. -/
theorem evolves_insert_new (hk : t.lookup k = none) (v : V) : Evolves P t (t.insert k v) := by
  intro j u hu
  have hj : j ≠ k := by
    rintro rfl
    rw [hk] at hu
    cases hu
  exact ⟨u, by rw [Finmap.lookup_insert_of_ne t hj]; exact hu, .inl rfl⟩

/-- Every entry is kept or changed by steps that `P` allows. -/
def Follows (P : V → V → Prop) (t t' : Finmap fun _ : κ => V) : Prop :=
  ∀ k v, t.lookup k = some v → ∃ v', t'.lookup k = some v' ∧ Relation.ReflTransGen P v v'

theorem Follows.refl (t : Finmap fun _ : κ => V) : Follows P t t := fun _ v hv => ⟨v, hv, .refl⟩

theorem Follows.trans (h : Follows P t t') (h' : Follows P t' t'') : Follows P t t'' := by
  intro k v hv
  obtain ⟨v₁, hv₁, hsteps⟩ := h k v hv
  obtain ⟨v₂, hv₂, hsteps'⟩ := h' k v₁ hv₁
  exact ⟨v₂, hv₂, hsteps.trans hsteps'⟩

theorem Evolves.follows (h : Evolves P t t') : Follows P t t' := by
  intro k v hv
  obtain ⟨v', hv', rfl | hstep⟩ := h k v hv
  · exact ⟨v', hv', .refl⟩
  · exact ⟨v', hv', .single hstep⟩

/-- What an entry that is still found has become. -/
theorem Follows.steps (h : Follows P t t') (hv : t.lookup k = some v)
    (hv' : t'.lookup k = some v') : Relation.ReflTransGen P v v' := by
  obtain ⟨u, hu, hsteps⟩ := h k v hv
  rw [hv'] at hu
  cases hu
  exact hsteps

/-- What single steps keep, any number of them keep. -/
theorem steps_keep {Q : V → Prop} (hP : ∀ a b, P a b → Q a → Q b)
    (h : Relation.ReflTransGen P v v') (hv : Q v) : Q v' := by
  induction h with
  | refl => exact hv
  | tail _ hstep ih => exact hP _ _ hstep ih

/-- Steps that increase the version never decrease it. -/
theorem version_le {version : V → Nat} (hP : ∀ a b, P a b → version a < version b)
    (h : Relation.ReflTransGen P v v') : version v ≤ version v' := by
  induction h with
  | refl => exact Nat.le_refl _
  | tail _ hstep ih =>
      have := hP _ _ hstep
      omega

/-- An entry whose version has not moved is unchanged. -/
theorem Follows.content {version : V → Nat} (hP : ∀ a b, P a b → version a < version b)
    (h : Follows P t t') (hv : t.lookup k = some v) (hv' : t'.lookup k = some v')
    (hversion : version v' = version v) : v' = v := by
  rcases (h.steps hv hv').cases_head with rfl | ⟨u, hstep, hrest⟩
  · rfl
  · have hfirst := hP _ _ hstep
    have hothers := version_le hP hrest
    omega

/-! ## Adding a list of entries -/

/-- Insert every value under its key, the later ones over the earlier ones. -/
def insertAll (key : V → κ) (t : Finmap fun _ : κ => V) (values : List V) :
    Finmap fun _ : κ => V :=
  values.foldl (fun t v => t.insert (key v) v) t

variable {key : V → κ} {values : List V}

@[simp] theorem insert_all_cons :
    insertAll key t (v :: values) = insertAll key (t.insert (key v) v) values := rfl

/-- Keys that are not among the new values keep their entries. -/
theorem lookup_insert_all_of_not_mem (hk : k ∉ values.map key) :
    (insertAll key t values).lookup k = t.lookup k := by
  induction values generalizing t with
  | nil => rfl
  | cons v rest ih =>
      rw [List.map_cons, List.mem_cons, not_or] at hk
      rw [insert_all_cons, ih hk.2, Finmap.lookup_insert_of_ne t hk.1]

/-- Values with distinct keys are all found afterwards. -/
theorem lookup_insert_all_of_mem (hnodup : (values.map key).Nodup) (hv : v ∈ values) :
    (insertAll key t values).lookup (key v) = some v := by
  induction values generalizing t with
  | nil => cases hv
  | cons u rest ih =>
      rw [List.map_cons, List.nodup_cons] at hnodup
      rw [insert_all_cons]
      rcases List.mem_cons.mp hv with rfl | hv
      · rw [lookup_insert_all_of_not_mem hnodup.1, Finmap.lookup_insert]
      · exact ih hnodup.2 hv

/-- What is found afterwards is one of the new values or was there before. -/
theorem lookup_insert_all (h : (insertAll key t values).lookup k = some v) :
    (v ∈ values ∧ key v = k) ∨ (k ∉ values.map key ∧ t.lookup k = some v) := by
  induction values generalizing t with
  | nil => exact .inr ⟨by simp, h⟩
  | cons u rest ih =>
      rw [insert_all_cons] at h
      rcases ih h with ⟨hv, hk⟩ | ⟨hrest, hk⟩
      · exact .inl ⟨List.mem_cons_of_mem _ hv, hk⟩
      · by_cases hku : k = key u
        · subst hku
          rw [Finmap.lookup_insert] at hk
          cases hk
          exact .inl ⟨List.mem_cons_self, rfl⟩
        · rw [Finmap.lookup_insert_of_ne t hku] at hk
          exact .inr ⟨by simpa [hku] using hrest, hk⟩

/-- Under the key of a new value one of the new values is found. -/
theorem lookup_insert_all_of_mem_map (hk : k ∈ values.map key) :
    ∃ v ∈ values, (insertAll key t values).lookup k = some v := by
  induction values generalizing t with
  | nil => cases hk
  | cons u rest ih =>
      rw [insert_all_cons]
      by_cases hrest : k ∈ rest.map key
      · obtain ⟨v, hv, hlookup⟩ := ih (t := t.insert (key u) u) hrest
        exact ⟨v, List.mem_cons_of_mem _ hv, hlookup⟩
      · rw [List.map_cons, List.mem_cons] at hk
        cases hk.resolve_right hrest
        rw [lookup_insert_all_of_not_mem hrest, Finmap.lookup_insert]
        exact ⟨u, List.mem_cons_self, rfl⟩

/-- Adding values under unused keys keeps what is there. -/
theorem evolves_insert_all_new (hnew : ∀ v ∈ values, t.lookup (key v) = none) :
    Evolves P t (insertAll key t values) := by
  intro k v hv
  refine ⟨v, ?_, .inl rfl⟩
  rw [lookup_insert_all_of_not_mem, hv]
  intro hk
  obtain ⟨u, hu, rfl⟩ := List.mem_map.mp hk
  rw [hnew u hu] at hv
  cases hv

/-! ## Entries that carry their key -/

/-- Every entry is stored under the key it carries. -/
def Keyed (key : V → κ) (t : Finmap fun _ : κ => V) : Prop :=
  ∀ k v, t.lookup k = some v → key v = k

theorem keyed_empty : Keyed key (∅ : Finmap fun _ : κ => V) := by
  intro k v hv
  rw [Finmap.lookup_empty] at hv
  cases hv

theorem Keyed.insert (h : Keyed key t) (hv : key v = k) : Keyed key (t.insert k v) := by
  intro j u hu
  by_cases hj : j = k
  · subst hj
    rw [Finmap.lookup_insert] at hu
    cases hu
    exact hv
  · rw [Finmap.lookup_insert_of_ne t hj] at hu
    exact h j u hu

theorem Keyed.erase (h : Keyed key t) (k : κ) : Keyed key (t.erase k) := by
  intro j u hu
  by_cases hj : j = k
  · subst hj
    rw [Finmap.lookup_erase] at hu
    cases hu
  · rw [Finmap.lookup_erase_ne hj] at hu
    exact h j u hu

theorem Keyed.insert_all (h : Keyed key t) (values : List V) :
    Keyed key (insertAll key t values) := by
  intro j u hu
  rcases lookup_insert_all hu with ⟨_, hkey⟩ | ⟨_, hold⟩
  · exact hkey
  · exact h j u hold

/-! ## Counting entries -/

section Count

variable {R : V → Prop} [DecidablePred R]

/-- The number of entries with the property. -/
def count (R : V → Prop) [DecidablePred R] (t : Finmap fun _ : κ => V) : Nat :=
  (t.entries.map Sigma.snd).countP R

/-- The keys of the entries with the property. -/
def keysWith (R : V → Prop) [DecidablePred R] (t : Finmap fun _ : κ => V) : Finset κ where
  val := (t.entries.filter fun entry => R entry.2).map Sigma.fst
  nodup := Multiset.nodup_of_le (Multiset.map_le_map (Multiset.filter_le _ _))
    (Multiset.nodup_keys.mpr t.nodupKeys)

theorem mem_keys_with : k ∈ keysWith R t ↔ ∃ v, t.lookup k = some v ∧ R v := by
  simp [keysWith, Finmap.lookup_eq_some_iff]

omit [DecidableEq κ] in
theorem card_keys_with : (keysWith R t).card = count R t := by
  rw [keysWith, Finset.card_mk, Multiset.card_map, count, Multiset.countP_map]

/-- Fewer keys, fewer entries. -/
theorem count_le (h : ∀ k v', t'.lookup k = some v' → R v' → ∃ v, t.lookup k = some v ∧ R v) :
    count R t' ≤ count R t := by
  rw [← card_keys_with, ← card_keys_with]
  refine Finset.card_le_card fun k hk => ?_
  obtain ⟨v', hv', hR⟩ := mem_keys_with.mp hk
  exact mem_keys_with.mpr (h k v' hv' hR)

/-- At most one more key, at most one more entry. -/
theorem count_le_succ (added : κ) (h : ∀ k v', k ≠ added → t'.lookup k = some v' → R v' →
    ∃ v, t.lookup k = some v ∧ R v) : count R t' ≤ count R t + 1 := by
  rw [← card_keys_with, ← card_keys_with]
  refine le_trans (Finset.card_le_card fun k hk => ?_) (Finset.card_insert_le added (keysWith R t))
  obtain ⟨v', hv', hR⟩ := mem_keys_with.mp hk
  by_cases hadded : k = added
  · exact Finset.mem_insert.mpr (.inl hadded)
  · exact Finset.mem_insert_of_mem (mem_keys_with.mpr (h k v' hadded hv' hR))

end Count

end Table
