import Mathlib.Data.Set.Insert
import Mathlib.Logic.Function.Basic

/-!
# Queues that serve their work exactly once

A queue holds jobs under IDs. `Serves queue wanted allowed` says that it has no job outside
`allowed`, no job twice, and every job in `wanted`. If the two sets are those of the work that is
due and of the work that may still be around, this is the statement that no accepted work is lost
and none is enqueued twice.

The lemmas follow a queue through its changes: the sets may move under it (`Serves.mono`), a job
may be added when it becomes due (`Serves.insert`) and removed when it is settled
(`Serves.erase`).
-/

namespace Queue

variable {Id Job : Type}

/-- The queue has only allowed jobs, none of them twice, and all wanted ones. -/
structure Serves (queue : Id → Option Job) (wanted allowed : Set Job) : Prop where
  sound : ∀ {i j}, queue i = some j → j ∈ allowed
  unique : ∀ {i i' j}, queue i = some j → queue i' = some j → i = i'
  complete : ∀ {j}, j ∈ wanted → ∃ i, queue i = some j

variable {queue : Id → Option Job} {wanted wanted' allowed allowed' : Set Job} {i : Id} {j : Job}

/-- Less may become due and more may be allowed. -/
theorem Serves.mono (h : Serves queue wanted allowed) (hwanted : wanted' ⊆ wanted)
    (hallowed : allowed ⊆ allowed') : Serves queue wanted' allowed' where
  sound hj := hallowed (h.sound hj)
  unique := h.unique
  complete hj := h.complete (hwanted hj)

variable [DecidableEq Id]

/-- A job that was not allowed so far becomes due and is enqueued under an unused ID. -/
theorem Serves.insert (h : Serves queue wanted allowed) (hi : queue i = none) (hj : j ∉ allowed) :
    Serves (Function.update queue i (some j)) (insert j wanted) (insert j allowed) where
  sound {i' j'} h' := by
    by_cases hi' : i' = i
    · subst hi'
      rw [Function.update_self] at h'
      cases h'
      exact Set.mem_insert j allowed
    · rw [Function.update_of_ne hi'] at h'
      exact Set.mem_insert_of_mem j (h.sound h')
  unique {i₁ i₂ j'} h₁ h₂ := by
    -- The new job sits under the new ID only, because the queue had no such job before.
    by_cases hi₁ : i₁ = i <;> by_cases hi₂ : i₂ = i
    · rw [hi₁, hi₂]
    · subst hi₁
      rw [Function.update_self] at h₁
      rw [Function.update_of_ne hi₂] at h₂
      cases h₁
      exact absurd (h.sound h₂) hj
    · subst hi₂
      rw [Function.update_self] at h₂
      rw [Function.update_of_ne hi₁] at h₁
      cases h₂
      exact absurd (h.sound h₁) hj
    · rw [Function.update_of_ne hi₁] at h₁
      rw [Function.update_of_ne hi₂] at h₂
      exact h.unique h₁ h₂
  complete {j'} h' := by
    rcases h' with rfl | h'
    · exact ⟨i, Function.update_self ..⟩
    · obtain ⟨i', hi'⟩ := h.complete h'
      refine ⟨i', ?_⟩
      rw [Function.update_of_ne, hi']
      rintro rfl
      rw [hi] at hi'
      cases hi'

/-- A job that is removed from the queue is no longer due and no longer around. -/
theorem Serves.erase (h : Serves queue wanted allowed) (hi : queue i = some j) :
    Serves (Function.update queue i none) (wanted \ {j}) (allowed \ {j}) where
  sound {i' j'} h' := by
    by_cases hi' : i' = i
    · subst hi'
      rw [Function.update_self] at h'
      cases h'
    · rw [Function.update_of_ne hi'] at h'
      refine ⟨h.sound h', ?_⟩
      rintro rfl
      exact hi' (h.unique h' hi)
  unique {i₁ i₂ j'} h₁ h₂ := by
    have hne : ∀ {i'}, Function.update queue i none i' = some j' → queue i' = some j' := by
      intro i' hi'
      by_cases heq : i' = i
      · subst heq
        rw [Function.update_self] at hi'
        cases hi'
      · rwa [Function.update_of_ne heq] at hi'
    exact h.unique (hne h₁) (hne h₂)
  complete {j'} h' := by
    obtain ⟨i', hi'⟩ := h.complete h'.1
    refine ⟨i', ?_⟩
    rw [Function.update_of_ne, hi']
    rintro rfl
    rw [hi] at hi'
    cases hi'
    exact h'.2 rfl

end Queue
