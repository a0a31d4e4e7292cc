import AcmeServer.Fallible.Basic
import Mathlib.Data.List.Forall2
import Mathlib.Data.List.Nodup

/-!
# Collecting results

A computation that may fail, applied to every element of a list. `distinct` fails when a result is
repeated, and `once` keeps only the first of equal results. Both succeed only if every element has a
result, and then they have the same members.
-/

namespace Fallible

variable {ε α β : Type}

/-- The results of the elements, in their order. -/
def Results (f : α → Except ε β) : List α → List β → Prop :=
  List.Forall₂ fun a b => f a = .ok b

/-- The results of all elements. A result that was there before is an error. -/
def distinct [DecidableEq β] (f : α → Except ε β) (repeated : β → ε) (l : List α) :
    Except ε (List β) :=
  l.foldlM (fun out a => do
    let b ← f a
    if b ∈ out then
      throw (repeated b)
    pure (out ++ [b])) []

/-- The results of all elements. A result that was there before is left out. -/
def once [DecidableEq β] (f : α → Except ε β) (l : List α) : Except ε (List β) :=
  l.foldlM (fun out a => do
    let b ← f a
    pure (if b ∈ out then out else out ++ [b])) []

/-- No two elements have the same result. -/
def Apart (f : α → Except ε β) : List α → Prop :=
  List.Pairwise fun a a' => ∀ b, f a = .ok b → f a' ≠ .ok b

variable {f : α → Except ε β} {l : List α} {bs : List β}

/-- The results are those of the elements. -/
theorem Results.mem_iff (h : Results f l bs) {b : β} : b ∈ bs ↔ ∃ a ∈ l, f a = .ok b := by
  induction h with
  | nil => simp
  | cons hab _ ih =>
      rw [List.mem_cons, ih, List.exists_mem_cons_iff, hab, Except.ok.injEq, eq_comm]

/-- There are results exactly if every element has one. -/
theorem exists_results : (∃ bs, Results f l bs) ↔ ∀ a ∈ l, ∃ b, f a = .ok b := by
  induction l with
  | nil => exact ⟨nofun, fun _ => ⟨[], .nil⟩⟩
  | cons a l ih =>
      rw [List.forall_mem_cons, ← ih]
      constructor
      · rintro ⟨bs, h⟩
        cases h with
        | cons hb hbs => exact ⟨⟨_, hb⟩, _, hbs⟩
      · rintro ⟨⟨b, hb⟩, bs, hbs⟩
        exact ⟨b :: bs, .cons hb hbs⟩

/-- The results are distinct when no two elements have the same one. -/
theorem Results.nodup_iff (h : Results f l bs) : bs.Nodup ↔ Apart f l := by
  induction h with
  | nil => simp [Apart]
  | @cons a b l bs hab hrest ih =>
      have hmem : b ∉ bs ↔ ∀ a' ∈ l, ∀ b', f a = .ok b' → f a' ≠ .ok b' := by
        rw [Results.mem_iff hrest]
        constructor
        · intro hnot a' ha' b' hb' hsame
          rw [hab] at hb'
          cases hb'
          exact hnot ⟨a', ha', hsame⟩
        · rintro hall ⟨a', ha', hsame⟩
          exact hall a' ha' b hab hsame
      rw [List.nodup_cons, Apart, List.pairwise_cons, hmem, ih]
      rfl

theorem results_map_error {ε' : Type} {g : α → ε → ε'} :
    Results (fun a => (f a).mapError (g a)) l bs ↔ Results f l bs := by
  simp only [Results, map_error_eq_ok]

/-- The results are what is left when elements without one are dropped. -/
theorem Results.filter_map (h : Results f l bs) : l.filterMap (fun a => (f a).toOption) = bs := by
  induction h with
  | nil => rfl
  | cons hab _ ih => rw [List.filterMap_cons, hab, Except.toOption, ih]

theorem map_m_eq_ok : l.mapM f = .ok bs ↔ Results f l bs := by
  induction l generalizing bs with
  | nil =>
      refine ⟨fun h => by cases h; exact .nil, fun h => by cases h; rfl⟩
  | cons a l ih =>
      rw [List.mapM_cons, bind_eq_ok]
      constructor
      · rintro ⟨b, hb, hrest⟩
        obtain ⟨bs', hbs', hcons⟩ := bind_eq_ok.1 hrest
        cases hcons
        exact .cons hb (ih.1 hbs')
      · intro h
        cases h with
        | cons hb hrest => exact ⟨_, hb, bind_eq_ok.2 ⟨_, ih.2 hrest, rfl⟩⟩

section Decidable

variable [DecidableEq β] {repeated : β → ε}

/-- Distinct results are collected behind others that are distinct from them. -/
theorem distinct_eq_ok :
    distinct f repeated l = .ok bs ↔ Results f l bs ∧ bs.Nodup := by
  have hconcat {acc : List β} {b : β} (hacc : acc.Nodup) (hmem : b ∉ acc) :
      (acc ++ [b]).Nodup := by
    simpa using hacc.concat hmem
  -- The results that were collected before are a part of the outcome.
  have hfold {l : List α} {out : List β} : ∀ {acc : List β}, acc.Nodup →
      (l.foldlM (fun out a => do
        let b ← f a
        if b ∈ out then
          throw (repeated b)
        pure (out ++ [b])) acc = .ok out ↔
      ∃ bs, out = acc ++ bs ∧ Results f l bs ∧ out.Nodup) := by
    induction l with
    | nil =>
        intro acc hacc
        constructor
        · intro h
          cases h
          exact ⟨[], by rw [List.append_nil], .nil, hacc⟩
        · rintro ⟨bs, rfl, h, -⟩
          cases h
          rw [List.append_nil]
          rfl
    | cons a l ih =>
        intro acc hacc
        rw [List.foldlM_cons, bind_eq_ok]
        constructor
        · rintro ⟨next, hnext, hrest⟩
          obtain ⟨b, hb, hadd⟩ := bind_eq_ok.1 hnext
          by_cases hmem : b ∈ acc
          · rw [if_pos hmem] at hadd
            cases hadd
          · rw [if_neg hmem] at hadd
            cases hadd
            obtain ⟨bs, rfl, hbs, hnodup⟩ := (ih (hconcat hacc hmem)).1 hrest
            rw [List.append_assoc] at hnodup ⊢
            exact ⟨b :: bs, rfl, .cons hb hbs, hnodup⟩
        · rintro ⟨bs, rfl, h, hnodup⟩
          cases h with
          | @cons _ b _ bs hb hbs =>
              have hmem : b ∉ acc := fun hmem =>
                List.disjoint_of_nodup_append hnodup hmem List.mem_cons_self
              refine ⟨acc ++ [b], bind_eq_ok.2 ⟨b, hb, ?_⟩, ?_⟩
              · rw [if_neg hmem]
                rfl
              · rw [ih (hconcat hacc hmem)]
                refine ⟨bs, ?_, hbs, hnodup⟩
                rw [List.append_assoc]
                rfl
  rw [distinct, hfold List.nodup_nil]
  constructor
  · rintro ⟨bs', rfl, h⟩
    exact h
  · rintro ⟨h, hnodup⟩
    exact ⟨bs, rfl, h, hnodup⟩

/-- Results that are kept once are those of the elements. -/
theorem once_eq_ok (h : once f l = .ok bs) :
    (∀ a ∈ l, ∃ b, f a = .ok b) ∧ ∀ b, b ∈ bs ↔ ∃ a ∈ l, f a = .ok b := by
  have hfold {l : List α} {acc out : List β} (h : l.foldlM (fun out a => do
      let b ← f a
      pure (if b ∈ out then out else out ++ [b])) acc = .ok out) :
      (∀ a ∈ l, ∃ b, f a = .ok b) ∧ ∀ b, b ∈ out ↔ b ∈ acc ∨ ∃ a ∈ l, f a = .ok b := by
    induction l generalizing acc with
    | nil =>
        cases h
        simp
    | cons a l ih =>
        rw [List.foldlM_cons] at h
        obtain ⟨next, hnext, hrest⟩ := bind_eq_ok.1 h
        obtain ⟨b, hb, hadd⟩ := bind_eq_ok.1 hnext
        cases hadd
        obtain ⟨hall, hmem⟩ := ih hrest
        refine ⟨List.forall_mem_cons.2 ⟨⟨b, hb⟩, hall⟩, fun b' => ?_⟩
        have hnext : b' ∈ (if b ∈ acc then acc else acc ++ [b]) ↔ b' ∈ acc ∨ b' = b := by
          split
          · next hin =>
              refine ⟨.inl, fun h => h.elim id fun heq => heq ▸ hin⟩
          · rw [List.mem_append, List.mem_singleton]
        rw [hmem, hnext, List.exists_mem_cons_iff, hb, Except.ok.injEq, or_assoc, eq_comm (a := b')]
  obtain ⟨hall, hmem⟩ := hfold h
  exact ⟨hall, fun b => by simpa using hmem b⟩

end Decidable

end Fallible
