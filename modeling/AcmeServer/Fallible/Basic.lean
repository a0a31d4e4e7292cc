import Mathlib.Data.List.Basic

/-!
# Computations that may fail

What it takes for a computation in `Except` to succeed, one rule per way of building one: a
sequence succeeds when its steps do, a guarded step when its guard does not fire.
-/

namespace Fallible

variable {ε α β : Type}

/-- A sequence succeeds through the result of its first step. -/
theorem bind_eq_ok {x : Except ε α} {f : α → Except ε β} {b : β} :
    (x >>= f) = .ok b ↔ ∃ a, x = .ok a ∧ f a = .ok b := by
  cases x with
  | error e => exact ⟨nofun, fun ⟨_, h, _⟩ => nomatch h⟩
  | ok a => exact ⟨fun h => ⟨a, rfl, h⟩, fun ⟨_, h, hf⟩ => by cases h; exact hf⟩

/-- A sequence fails in its first step or after it. -/
theorem bind_eq_error {x : Except ε α} {f : α → Except ε β} {e : ε} :
    (x >>= f) = .error e ↔ x = .error e ∨ ∃ a, x = .ok a ∧ f a = .error e := by
  cases x with
  | error e' =>
      refine ⟨fun h => .inl (by cases h; rfl), fun h => ?_⟩
      rcases h with h | ⟨a, h, -⟩
      · cases h
        rfl
      · cases h
  | ok a =>
      refine ⟨fun h => .inr ⟨a, rfl, h⟩, fun h => ?_⟩
      rcases h with h | ⟨a, h, hf⟩
      · cases h
      · cases h
        exact hf

/-- A guarded computation succeeds where the guard does not fire. -/
theorem guard_eq_ok {p : Prop} [Decidable p] {e : ε} {x : Except ε α} {a : α} :
    (if p then .error e else x) = .ok a ↔ ¬p ∧ x = .ok a := by
  by_cases hp : p <;> simp [hp]

/-- Another error text does not change what succeeds. -/
theorem map_error_eq_ok {ε' : Type} {x : Except ε α} {f : ε → ε'} {a : α} :
    x.mapError f = .ok a ↔ x = .ok a := by
  cases x with
  | error e => exact ⟨nofun, nofun⟩
  | ok b => exact ⟨fun h => by cases h; rfl, fun h => by cases h; rfl⟩

theorem map_error_eq_error {ε' : Type} {x : Except ε α} {f : ε → ε'} {e' : ε'} :
    x.mapError f = .error e' ↔ ∃ e, x = .error e ∧ f e = e' := by
  cases x with
  | error e =>
      refine ⟨fun h => ⟨e, rfl, Except.error.inj h⟩, fun ⟨_, h, hf⟩ => ?_⟩
      cases h
      exact congrArg Except.error hf
  | ok a => exact ⟨nofun, fun ⟨_, h, _⟩ => nomatch h⟩

end Fallible
