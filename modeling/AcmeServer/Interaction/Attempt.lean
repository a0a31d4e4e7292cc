import AcmeServer.Interaction.Rely

/-!
# Programs that may stop with an error

An `Attempt` is a program with a local state that may stop with an error: the form of a request
handler, which keeps notes about its request while it works and leaves early when it has to
refuse. The state survives an error, so whoever answers the request still sees it.

`Contract.Achieves` is safety for attempts. Its postcondition speaks about the value of an attempt
that succeeds; one that stops promises nothing beyond its calls having been permitted. The rules
mirror those of `Contract.Safe`: `achieves_bind` for sequences, `achieves_lift` for a program that
cannot fail, `achieves_fail_if` and `achieves_check` for the checks between calls.
-/

namespace Interaction

/-- A program with local state `σ` that may stop with an error `ε`. -/
abbrev Attempt (Call : Type) (Answer : Call → Type) (ε σ α : Type) :=
  ExceptT ε (StateT σ (Program Call Answer)) α

variable {World Call Env : Type} {Answer : Call → Type} {ε σ α β : Type}

namespace Attempt

/-- The program behind an attempt: it returns the outcome and the final local state. -/
def start (m : Attempt Call Answer ε σ α) (s : σ) : Program Call Answer (Except ε α × σ) :=
  m.run.run s

/-- Stop with the error when the condition holds. -/
def failIf (c : Prop) [Decidable c] (e : ε) : Attempt Call Answer ε σ Unit :=
  if c then throw e else pure ()

/-- Stop with the error when there is one. -/
def check : Option ε → Attempt Call Answer ε σ Unit
  | some e => throw e
  | none => pure ()

/-- Continue with the value of a result, or stop with its error. -/
def expect : Except ε α → Attempt Call Answer ε σ α
  | .ok a => pure a
  | .error e => throw e

/-- Run a program on the error before passing it on. -/
def onError (m : Attempt Call Answer ε σ α) (report : ε → Program Call Answer Unit) :
    Attempt Call Answer ε σ α :=
  tryCatch m fun e => do
    report e
    throw e

theorem start_bind (m : Attempt Call Answer ε σ α) (f : α → Attempt Call Answer ε σ β) (s : σ) :
    start (m >>= f) s = (start m s >>= fun outcome =>
      match outcome with
      | (.ok a, s') => start (f a) s'
      | (.error e, s') => pure (.error e, s')) := by
  show (start m s).bind _ = (start m s).bind _
  congr 1
  funext outcome
  rcases outcome with ⟨_ | _, _⟩ <;> rfl

theorem start_lift (program : Program Call Answer α) (s : σ) :
    start (liftM program : Attempt Call Answer ε σ α) s =
      (program >>= fun a => pure (.ok a, s)) := by
  show ((program >>= fun a => pure (a, s)) >>= fun outcome =>
    pure (Except.ok outcome.1, outcome.2)) = _
  rw [bind_assoc]
  rfl

theorem start_expect_ok (a : α) (f : α → Attempt Call Answer ε σ β) (s : σ) :
    start (expect (.ok a) >>= f) s = start (f a) s := rfl

theorem start_fail_if_neg {c : Prop} [Decidable c] (h : ¬c) (e : ε)
    (f : Unit → Attempt Call Answer ε σ β) (s : σ) :
    start (failIf c e >>= f) s = start (f ()) s := by
  rw [failIf, if_neg h]
  rfl

theorem start_on_error (m : Attempt Call Answer ε σ α) (report : ε → Program Call Answer Unit)
    (s : σ) :
    start (m.onError report) s = (start m s >>= fun outcome =>
      match outcome with
      | (.ok a, s') => pure (.ok a, s')
      | (.error e, s') => report e >>= fun _ => pure (.error e, s')) := by
  show (start m s).bind _ = (start m s).bind _
  congr 1
  funext outcome
  rcases outcome with ⟨e | a, s'⟩
  · show start (liftM (report e) >>= fun _ => throw e : Attempt Call Answer ε σ α) s' = _
    rw [start_bind, start_lift, bind_assoc]
    rfl
  · rfl

end Attempt

namespace Contract

variable {execute : Env → Nat → (request : Call) → World → Option (Answer request × World)}
variable (K : Contract execute)

/-- Every call the attempt makes is permitted, and if it succeeds its value and its final state
satisfy the postcondition. -/
def Achieves (thread : Nat) (m : Attempt Call Answer ε σ α) (s : σ) (post : α → σ → World → Prop)
    (world : World) : Prop :=
  K.Safe thread (m.start s) (fun outcome after =>
    ∀ a, outcome.1 = .ok a → post a outcome.2 after) world

variable {K} {thread : Nat} {world world' : World} {s : σ}

/-- A weaker postcondition suffices where the invariant holds. -/
theorem Achieves.weaken {m : Attempt Call Answer ε σ α} {post post' : α → σ → World → Prop}
    (h : K.Achieves thread m s post world)
    (hpost : ∀ a s' after, K.Inv after → post a s' after → post' a s' after) :
    K.Achieves thread m s post' world :=
  Safe.weaken h fun _ after hinv hold a ha => hpost a _ after hinv (hold a ha)

/-- An attempt ends in a world that is later than the one it started in. -/
theorem Achieves.since {m : Attempt Call Answer ε σ α} {post : α → σ → World → Prop}
    (h : K.Achieves thread m s post world) :
    K.Achieves thread m s (fun a s' after => K.Later world after ∧ post a s' after) world :=
  Safe.weaken (Safe.since (.refl world) h) fun _ _ _ ⟨hlater, hpost⟩ a ha => ⟨hlater, hpost a ha⟩

theorem achieves_pure {a : α} {post : α → σ → World → Prop}
    (h : ∀ after, K.Rely thread world after → K.Inv after → post a s after) :
    K.Achieves thread (pure a : Attempt Call Answer ε σ α) s post world := by
  refine safe_done fun after hrely hinv b hb => ?_
  cases hb
  exact h after hrely hinv

theorem achieves_throw {e : ε} {post : α → σ → World → Prop} :
    K.Achieves thread (throw e : Attempt Call Answer ε σ α) s post world :=
  safe_done fun _ _ _ a ha => by cases ha

/-- A sequence is safe if its second part is safe wherever the first part may succeed. -/
theorem achieves_bind {m : Attempt Call Answer ε σ α} {f : α → Attempt Call Answer ε σ β}
    {post : β → σ → World → Prop}
    (h : K.Achieves thread m s (fun a s' after => K.Achieves thread (f a) s' post after) world) :
    K.Achieves thread (m >>= f) s post world := by
  unfold Achieves
  rw [Attempt.start_bind]
  refine safe_bind (Safe.weaken h fun outcome after _ hnext => ?_)
  rcases outcome with ⟨e | a, s'⟩
  · exact safe_done fun _ _ _ b hb => by cases hb
  · exact hnext a rfl

/-- A program that cannot fail, as part of an attempt. -/
theorem achieves_lift {program : Program Call Answer α} {post : α → σ → World → Prop}
    (h : K.Safe thread program (fun a after => post a s after) world) :
    K.Achieves thread (liftM program : Attempt Call Answer ε σ α) s post world := by
  unfold Achieves
  rw [Attempt.start_lift]
  refine safe_map (Safe.weaken h fun a after _ hpost b hb => ?_)
  cases hb
  exact hpost

theorem achieves_fail_if {c : Prop} [Decidable c] {e : ε} {post : Unit → σ → World → Prop}
    (h : ∀ after, K.Rely thread world after → K.Inv after → ¬ c → post () s after) :
    K.Achieves thread (Attempt.failIf c e) s post world := by
  unfold Attempt.failIf
  split
  · exact achieves_throw
  · rename_i hc
    exact achieves_pure fun after hrely hinv => h after hrely hinv hc

theorem achieves_check {problem : Option ε} {post : Unit → σ → World → Prop}
    (h : ∀ after, K.Rely thread world after → K.Inv after → problem = none → post () s after) :
    K.Achieves thread (Attempt.check problem) s post world := by
  cases problem with
  | some e => exact achieves_throw
  | none => exact achieves_pure fun after hrely hinv => h after hrely hinv rfl

theorem achieves_expect {result : Except ε α} {post : α → σ → World → Prop}
    (h : ∀ a after, K.Rely thread world after → K.Inv after → result = .ok a → post a s after) :
    K.Achieves thread (Attempt.expect result) s post world := by
  cases result with
  | error e => exact achieves_throw
  | ok a => exact achieves_pure fun after hrely hinv => h a after hrely hinv rfl

/-- Changing the local state. -/
theorem achieves_modify {f : σ → σ} {post : PUnit → σ → World → Prop}
    (h : ∀ after, K.Rely thread world after → K.Inv after → post ⟨⟩ (f s) after) :
    K.Achieves thread (modify f : Attempt Call Answer ε σ PUnit) s post world := by
  refine safe_done fun after hrely hinv b hb => ?_
  cases hb
  exact h after hrely hinv

/-- Reading the local state. -/
theorem achieves_get {post : σ → σ → World → Prop}
    (h : ∀ after, K.Rely thread world after → K.Inv after → post s s after) :
    K.Achieves thread (get : Attempt Call Answer ε σ σ) s post world := by
  refine safe_done fun after hrely hinv b hb => ?_
  cases hb
  exact h after hrely hinv

/-- Reporting an error on the way out does not affect an attempt that succeeds. -/
theorem achieves_on_error {m : Attempt Call Answer ε σ α} {report : ε → Program Call Answer Unit}
    {post : α → σ → World → Prop} (hreport : ∀ e, K.Harmless (report e))
    (h : K.Achieves thread m s post world) :
    K.Achieves thread (m.onError report) s post world := by
  unfold Achieves
  rw [Attempt.start_on_error]
  refine safe_bind (Safe.weaken (Safe.stable h) fun outcome after _ hpost => ?_)
  rcases outcome with ⟨e | a, s'⟩
  · refine safe_bind ((hreport e).safe fun _ _ _ _ => ?_)
    exact safe_done fun _ _ _ b hb => by cases hb
  · exact safe_done hpost

/-! ## Attempts that need no attention -/

/-- An attempt all of whose calls are quiet and permitted in every world. -/
def HarmlessAttempt (K : Contract execute) (m : Attempt Call Answer ε σ α) : Prop :=
  ∀ s, K.Harmless (m.start s)

/-- A harmless attempt is safe, and nothing the caller knows is lost by running it. -/
theorem HarmlessAttempt.achieves {m : Attempt Call Answer ε σ α} (h : K.HarmlessAttempt m)
    {post : α → σ → World → Prop}
    (hpost : ∀ a s' after, K.Rely thread world after → K.Inv after → post a s' after) :
    K.Achieves thread m s post world :=
  (h s).safe fun _ after hrely hinv a _ => hpost a _ after hrely hinv

theorem HarmlessAttempt.pure (a : α) :
    K.HarmlessAttempt (Pure.pure a : Attempt Call Answer ε σ α) := fun _ => trivial

theorem HarmlessAttempt.throw (e : ε) :
    K.HarmlessAttempt (MonadExcept.throw e : Attempt Call Answer ε σ α) := fun _ => trivial

theorem HarmlessAttempt.bind {m : Attempt Call Answer ε σ α} {f : α → Attempt Call Answer ε σ β}
    (hm : K.HarmlessAttempt m) (hf : ∀ a, K.HarmlessAttempt (f a)) :
    K.HarmlessAttempt (m >>= f) := by
  intro s
  rw [Attempt.start_bind]
  refine (hm s).bind fun outcome => ?_
  rcases outcome with ⟨e | a, s'⟩
  · trivial
  · exact hf a s'

theorem HarmlessAttempt.lift {program : Program Call Answer α} (h : K.Harmless program) :
    K.HarmlessAttempt (liftM program : Attempt Call Answer ε σ α) := by
  intro s
  rw [Attempt.start_lift]
  exact h.bind fun _ => trivial

theorem HarmlessAttempt.fail_if (c : Prop) [Decidable c] (e : ε) :
    K.HarmlessAttempt (Attempt.failIf c e : Attempt Call Answer ε σ Unit) := by
  unfold Attempt.failIf
  split
  · exact .throw e
  · exact .pure ()

theorem HarmlessAttempt.check (problem : Option ε) :
    K.HarmlessAttempt (Attempt.check problem : Attempt Call Answer ε σ Unit) := by
  cases problem with
  | some e => exact .throw e
  | none => exact .pure ()

theorem HarmlessAttempt.expect (result : Except ε α) :
    K.HarmlessAttempt (Attempt.expect result : Attempt Call Answer ε σ α) := by
  cases result with
  | error e => exact .throw e
  | ok a => exact .pure a

end Contract

end Interaction
