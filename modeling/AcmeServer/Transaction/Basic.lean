import Mathlib.Data.List.Basic

/-!
# Transactions that stop at an error and keep what they wrote

A `Transaction` runs over a mutable state and may stop with an error. Stopping does not undo the
writes made so far: the state that `exec` returns is the one at the moment of the error. Whether
an operation is all-or-nothing is therefore a property to prove, `Atomic`, and not a consequence
of how it is written down.

The usual shape of an atomic operation is to check first and write afterwards. `Atomic.bind` is
the rule for it: a `ReadOnly` part may be followed by an atomic one, and a part that never fails
is atomic whatever it writes (`NeverFails.atomic`).

`bind_ok` and `bind_error` take a run apart, so a success lemma for a transaction is obtained by
rewriting with them and with the lemmas of its primitive steps.
-/

/-- A computation that reads and writes a state `σ` and may stop with an error `ε`. -/
abbrev Transaction (ε σ α : Type) := ExceptT ε (StateM σ) α

namespace Transaction

variable {ε σ α β : Type}

/-- Run a transaction: the outcome together with the state it leaves behind. -/
def exec (m : Transaction ε σ α) (s : σ) : Except ε α × σ := m.run.run s

/-- Stop with the error when the condition holds. -/
def failIf (c : Prop) [Decidable c] (e : ε) : Transaction ε σ Unit :=
  if c then throw e else pure ()

/-- Return the value of an optional result, or stop with the error when there is none. -/
def getOr (o : Option α) (e : ε) : Transaction ε σ α :=
  match o with
  | some a => pure a
  | none => throw e

/-- Run the check on every element in order. -/
def forEach (check : α → Transaction ε σ Unit) : List α → Transaction ε σ Unit
  | [] => pure ()
  | a :: rest => do
      check a
      forEach check rest

@[simp] theorem exec_pure (a : α) (s : σ) : exec (pure a : Transaction ε σ α) s = (.ok a, s) := rfl

@[simp] theorem exec_throw (e : ε) (s : σ) :
    exec (throw e : Transaction ε σ α) s = (.error e, s) := rfl

@[simp] theorem exec_get (s : σ) : exec (get : Transaction ε σ σ) s = (.ok s, s) := rfl

@[simp] theorem exec_modify (f : σ → σ) (s : σ) :
    exec (modify f : Transaction ε σ PUnit) s = (.ok ⟨⟩, f s) := rfl

theorem exec_bind (m : Transaction ε σ α) (f : α → Transaction ε σ β) (s : σ) :
    exec (m >>= f) s = match exec m s with
      | (.ok a, s') => exec (f a) s'
      | (.error e, s') => (.error e, s') := by
  simp only [exec, ExceptT.run_bind, StateT.run_bind]
  change (match m.run.run s with | (a, s') => _) = _
  rcases m.run.run s with ⟨_ | _, _⟩ <;> rfl

/-- A sequence succeeds exactly if both parts do, one after the other. -/
theorem bind_ok {m : Transaction ε σ α} {f : α → Transaction ε σ β} {s s' : σ} {b : β} :
    exec (m >>= f) s = (.ok b, s') ↔
      ∃ a s₁, exec m s = (.ok a, s₁) ∧ exec (f a) s₁ = (.ok b, s') := by
  rw [exec_bind]
  rcases exec m s with ⟨_ | _, _⟩ <;> simp

/-- A sequence fails exactly if its first part does, or its second part after the first. -/
theorem bind_error {m : Transaction ε σ α} {f : α → Transaction ε σ β} {s s' : σ} {e : ε} :
    exec (m >>= f) s = (.error e, s') ↔ exec m s = (.error e, s') ∨
      ∃ a s₁, exec m s = (.ok a, s₁) ∧ exec (f a) s₁ = (.error e, s') := by
  rw [exec_bind]
  rcases exec m s with ⟨_ | _, _⟩ <;> simp

@[simp] theorem fail_if_ok {c : Prop} [Decidable c] {e : ε} {s s' : σ} {u : Unit} :
    exec (failIf c e) s = (.ok u, s') ↔ ¬ c ∧ s' = s := by
  unfold failIf
  split <;> simp_all [eq_comm]

@[simp] theorem get_or_ok {o : Option α} {e : ε} {s s' : σ} {a : α} :
    exec (getOr o e) s = (.ok a, s') ↔ o = some a ∧ s' = s := by
  cases o <;> simp [getOr, eq_comm]

@[simp] theorem fail_if_error {c : Prop} [Decidable c] {e e' : ε} {s s' : σ} :
    exec (failIf c e) s = (.error e', s') ↔ c ∧ e' = e ∧ s' = s := by
  unfold failIf
  split <;> simp_all [eq_comm]

@[simp] theorem get_or_error {o : Option α} {e e' : ε} {s s' : σ} :
    exec (getOr o e) s = (.error e', s') ↔ o = none ∧ e' = e ∧ s' = s := by
  cases o <;> simp [getOr, eq_comm]

/-- A loop of checks succeeds exactly if every check does. -/
theorem for_each_ok {check : α → Transaction ε σ Unit} {P : α → σ → Prop}
    (hcheck : ∀ a s u s', exec (check a) s = (.ok u, s') ↔ P a s ∧ s' = s)
    {list : List α} {s s' : σ} {u : Unit} :
    exec (forEach check list) s = (.ok u, s') ↔ (∀ a ∈ list, P a s) ∧ s' = s := by
  induction list with
  | nil => simp [forEach, eq_comm]
  | cons a rest ih => simp [forEach, bind_ok, hcheck, ih, and_assoc]

/-- A loop over one condition. -/
@[simp] theorem for_each_fail_if_ok {c : α → Prop} [DecidablePred c] {e : ε} {list : List α}
    {s s' : σ} {u : Unit} :
    exec (forEach (fun a => failIf (c a) e) list) s = (.ok u, s') ↔
      (∀ a ∈ list, ¬ c a) ∧ s' = s :=
  for_each_ok fun _ _ _ _ => fail_if_ok

/-! ## Read-only and atomic transactions -/

/-- The transaction never changes the state. -/
def ReadOnly (m : Transaction ε σ α) : Prop := ∀ s, (exec m s).2 = s

/-- The transaction always returns a value. -/
def NeverFails (m : Transaction ε σ α) : Prop := ∀ s, ∃ a, (exec m s).1 = .ok a

/-- The transaction leaves the state exactly as it was whenever it stops with an error. -/
def Atomic (m : Transaction ε σ α) : Prop := ∀ s e s', exec m s = (.error e, s') → s' = s

theorem ReadOnly.pure (a : α) : ReadOnly (Pure.pure a : Transaction ε σ α) := fun _ => rfl

theorem ReadOnly.fail_if (c : Prop) [Decidable c] (e : ε) :
    ReadOnly (failIf c e : Transaction ε σ Unit) := by
  intro s
  unfold failIf
  split <;> rfl

theorem ReadOnly.get_or (o : Option α) (e : ε) :
    ReadOnly (getOr o e : Transaction ε σ α) := by
  intro s
  cases o <;> rfl

theorem ReadOnly.bind {m : Transaction ε σ α} {f : α → Transaction ε σ β}
    (hm : ReadOnly m) (hf : ∀ a, ReadOnly (f a)) : ReadOnly (m >>= f) := by
  intro s
  have hs := hm s
  rw [exec_bind]
  rcases hrun : exec m s with ⟨_ | a, s₁⟩ <;> rw [hrun] at hs
  · exact hs
  · cases hs
    exact hf a s₁

theorem ReadOnly.for_each {check : α → Transaction ε σ Unit} (h : ∀ a, ReadOnly (check a))
    (list : List α) : ReadOnly (forEach check list) := by
  induction list with
  | nil => exact ReadOnly.pure ()
  | cons a rest ih => exact (h a).bind fun _ => ih

theorem NeverFails.pure (a : α) : NeverFails (Pure.pure a : Transaction ε σ α) :=
  fun _ => ⟨a, rfl⟩

theorem NeverFails.bind {m : Transaction ε σ α} {f : α → Transaction ε σ β}
    (hm : NeverFails m) (hf : ∀ a, NeverFails (f a)) : NeverFails (m >>= f) := by
  intro s
  obtain ⟨a, ha⟩ := hm s
  rw [exec_bind]
  rcases hrun : exec m s with ⟨_ | b, s₁⟩ <;> rw [hrun] at ha
  · cases ha
  · exact hf b s₁

/-- Writes that cannot be followed by an error are harmless. -/
theorem NeverFails.atomic {m : Transaction ε σ α} (h : NeverFails m) : Atomic m := by
  intro s e s' hrun
  obtain ⟨a, ha⟩ := h s
  simp [hrun] at ha

theorem ReadOnly.atomic {m : Transaction ε σ α} (h : ReadOnly m) : Atomic m := by
  intro s e s' hrun
  have hs := h s
  rw [hrun] at hs
  exact hs

/-- Check first, write afterwards. -/
theorem Atomic.bind {m : Transaction ε σ α} {f : α → Transaction ε σ β}
    (hm : ReadOnly m) (hf : ∀ a, Atomic (f a)) : Atomic (m >>= f) := by
  intro s e s' hrun
  rcases bind_error.mp hrun with hfirst | ⟨a, s₁, hfirst, hsecond⟩
  · exact hm.atomic s e s' hfirst
  · have hs := hm s
    rw [hfirst] at hs
    cases hs
    exact hf a s₁ e s' hsecond

/-- An atomic part may be followed by writes that cannot fail. -/
theorem Atomic.then_never_fails {m : Transaction ε σ α} {f : α → Transaction ε σ β}
    (hm : Atomic m) (hf : ∀ a, NeverFails (f a)) : Atomic (m >>= f) := by
  intro s e s' hrun
  rcases bind_error.mp hrun with hfirst | ⟨a, s₁, _, hsecond⟩
  · exact hm s e s' hfirst
  · exact absurd hsecond (by
      obtain ⟨b, hb⟩ := hf a s₁
      intro herror
      simp [herror] at hb)

/-- The state after an error of an atomic transaction. -/
theorem Atomic.exec_eq {m : Transaction ε σ α} (h : Atomic m) {s : σ} {e : ε}
    (herror : (exec m s).1 = .error e) : exec m s = (.error e, s) := by
  have hrun : exec m s = (.error e, (exec m s).2) := Prod.ext herror rfl
  exact hrun.trans (congrArg _ (h s e _ hrun))

end Transaction
