import Mathlib.Data.List.Basic

/-!
# Programs that interact by calls, and their interleavings

A `Program` either returns or makes one call and continues with the answer. The calls are the
only points at which a program sees or changes the world, so a set of programs that run side by
side is a list of pending programs, and every interleaving is a list of choices: start another
program, or let one of the running programs make its pending call.

`run` executes such a schedule. A choice that names no running program, or an environment that
the world refuses, leaves the configuration as it is, so `run` is total and every statement about
all interleavings is a statement about all schedules.
-/

namespace Interaction

/-- A program over calls `Call`, where a call `c` is answered by a value of type `Answer c`. -/
inductive Program (Call : Type) (Answer : Call → Type) (α : Type) where
  | done (value : α)
  | call (request : Call) (next : Answer request → Program Call Answer α)

namespace Program

variable {Call : Type} {Answer : Call → Type} {α β : Type}

/-- Run the first program and continue with the program its value selects. -/
def bind (program : Program Call Answer α) (next : α → Program Call Answer β) :
    Program Call Answer β :=
  match program with
  | .done value => next value
  | .call request rest => .call request fun answer => (rest answer).bind next

/-- Whether the program has ended. -/
def isDone : Program Call Answer α → Bool
  | .done _ => true
  | .call _ _ => false

instance : Monad (Program Call Answer) where
  pure := .done
  bind := bind

/-- Make one call and return its answer. -/
def perform (request : Call) : Program Call Answer (Answer request) :=
  .call request .done

theorem bind_done (program : Program Call Answer α) : program.bind .done = program := by
  induction program with
  | done value => rfl
  | call request rest ih => exact congrArg (Program.call request) (funext ih)

theorem bind_bind {γ : Type} (program : Program Call Answer α) (f : α → Program Call Answer β)
    (g : β → Program Call Answer γ) :
    (program.bind f).bind g = program.bind fun value => (f value).bind g := by
  induction program with
  | done value => rfl
  | call request rest ih => exact congrArg (Program.call request) (funext ih)

instance : LawfulMonad (Program Call Answer) :=
  LawfulMonad.mk' _ bind_done (fun _ _ => rfl) bind_bind

end Program

/-- One entry of a schedule. -/
inductive Choice (Env Start : Type) where
  | start (entry : Start)
  | step (thread : Nat) (env : Env)

/-- The shared world together with the programs that are running in it. A program that has
returned keeps its place, so the position of a program in the list is its name for good. -/
structure Config (World Call : Type) (Answer : Call → Type) where
  world : World
  threads : List (Program Call Answer Unit)

section Run

variable {World Call Env Start : Type} {Answer : Call → Type}
variable (execute : Env → Nat → (request : Call) → World → Option (Answer request × World))
variable (program : Start → Program Call Answer Unit)

/-- Carry out one choice. -/
def Config.advance (config : Config World Call Answer) :
    Choice Env Start → Config World Call Answer
  | .start entry => { config with threads := config.threads ++ [program entry] }
  | .step thread env =>
      match config.threads[thread]? with
      | some (.call request next) =>
          match execute env thread request config.world with
          | some (answer, world) => ⟨world, config.threads.set thread (next answer)⟩
          | none => config
      | _ => config

/-- Carry out a schedule. -/
def run (config : Config World Call Answer) (schedule : List (Choice Env Start)) :
    Config World Call Answer :=
  schedule.foldl (Config.advance execute program) config

/-- A schedule in two parts runs one part after the other. -/
theorem run_append (config : Config World Call Answer) (first second : List (Choice Env Start)) :
    run execute program config (first ++ second) =
      run execute program (run execute program config first) second :=
  List.foldl_append

/-- Running one more choice is one more `advance`. -/
theorem run_concat (config : Config World Call Answer) (schedule : List (Choice Env Start))
    (choice : Choice Env Start) :
    run execute program config (schedule ++ [choice]) =
      (run execute program config schedule).advance execute program choice := by
  simp [run]

end Run

end Interaction
