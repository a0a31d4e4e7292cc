import AcmeServer.Interaction.Program
import Mathlib.Logic.Relation

/-!
# Rely reasoning for interleaved programs

A `Contract` states what every running program promises: the calls it makes are `Permitted` in
the world in which they are executed. A permitted call keeps the invariant of the contract. In
return a program may assume, between two of its own calls, that the world has only moved by
permitted calls.

`Contract.Safe` is that promise for one program, with a postcondition on what it returns. It is
defined by recursion over the program, so it is proved by symbolic execution: `safe_bind` cuts a
program into its parts, `safe_call` executes one call and `safe_quiet` one that the rest of the
program need not notice. `run_safe` is the adequacy theorem: if every program that can be started
is safe, then the invariant holds after every schedule, and `run_later` says that the world only
moves by permitted calls.
-/

namespace Interaction

variable {World Call Env Start : Type} {Answer : Call → Type}

/-- The rules that all programs of a system follow. `Quiet` calls are those whose own execution
leaves everything a program knows about the world intact. -/
structure Contract
    (execute : Env → Nat → (request : Call) → World → Option (Answer request × World)) where
  Inv : World → Prop
  Permitted : World → Nat → Call → Prop
  Quiet : Call → Prop
  preserved : ∀ {env : Env} {thread : Nat} {request : Call} {answer : Answer request}
    {world world' : World}, Inv world → Permitted world thread request →
    execute env thread request world = some (answer, world') → Inv world'

namespace Contract

variable {execute : Env → Nat → (request : Call) → World → Option (Answer request × World)}
variable (K : Contract execute)

/-- One permitted call of a thread, made in a world that satisfies the invariant. -/
def Move (thread : Nat) (request : Call) (world world' : World) : Prop :=
  K.Inv world ∧ K.Permitted world thread request ∧
    ∃ env answer, execute env thread request world = some (answer, world')

/-- The second world is reached from the first by permitted calls. -/
def Later : World → World → Prop :=
  Relation.ReflTransGen fun world world' => ∃ thread request, K.Move thread request world world'

/-- What may happen around a thread between two of its calls: permitted calls of other threads
and quiet ones of its own. -/
def Rely (thread : Nat) : World → World → Prop :=
  Relation.ReflTransGen fun world world' =>
    ∃ other request, K.Move other request world world' ∧ (other ≠ thread ∨ K.Quiet request)

/-- Every call the program makes is permitted whatever happens around it, and what it returns
satisfies the postcondition in every world that may follow. -/
def Safe {α : Type} (thread : Nat) : Program Call Answer α → (α → World → Prop) → World → Prop
  | .done value, post, world => ∀ world', K.Rely thread world world' → K.Inv world' →
      post value world'
  | .call request next, post, world => ∀ world', K.Rely thread world world' → K.Inv world' →
      K.Permitted world' thread request ∧
      ∀ env answer after, execute env thread request world' = some (answer, after) →
        Safe thread (next answer) post after

variable {K} {thread : Nat} {α β : Type} {world world' : World}

theorem Move.inv {request : Call} (h : K.Move thread request world world') : K.Inv world' := by
  obtain ⟨hinv, hpermitted, env, answer, hexecute⟩ := h
  exact K.preserved hinv hpermitted hexecute

theorem Later.refl (world : World) : K.Later world world := Relation.ReflTransGen.refl

theorem Later.trans {middle : World} (h : K.Later world middle) (h' : K.Later middle world') :
    K.Later world world' :=
  Relation.ReflTransGen.trans h h'

theorem Move.later {request : Call} (h : K.Move thread request world world') :
    K.Later world world' :=
  .single ⟨thread, request, h⟩

/-- What every permitted call keeps true is true of every later world. -/
theorem Later.stable {P : World → Prop}
    (hstep : ∀ {env thread request answer v w}, K.Inv v → K.Permitted v thread request →
      execute env thread request v = some (answer, w) → P v → P w)
    (h : K.Later world world') (hP : P world) : P world' := by
  induction h with
  | refl => exact hP
  | tail _ hmove ih =>
      obtain ⟨_, _, hinv, hpermitted, _, _, hexecute⟩ := hmove
      exact hstep hinv hpermitted hexecute ih

/-- The invariant is kept along permitted calls. -/
theorem Later.inv (h : K.Later world world') (hinv : K.Inv world) : K.Inv world' :=
  h.stable (fun _ hpermitted hexecute hinv => K.preserved hinv hpermitted hexecute) hinv

/-- A property of pairs of worlds that holds of equal worlds, composes, and holds of every
permitted call holds of every pair of a world and a later one. -/
theorem Later.lift {P : World → World → Prop} (hrefl : ∀ w, P w w)
    (htrans : ∀ u v w, K.Later u v → K.Later v w → P u v → P v w → P u w)
    (hmove : ∀ thread request v w, K.Move thread request v w → P v w)
    (h : K.Later world world') : P world world' := by
  induction h with
  | refl => exact hrefl world
  | tail hpath hstep ih =>
      obtain ⟨thread, request, hstep⟩ := hstep
      exact htrans _ _ _ hpath hstep.later ih (hmove _ _ _ _ hstep)

theorem Rely.refl (world : World) : K.Rely thread world world := Relation.ReflTransGen.refl

theorem Rely.trans {middle : World} (h : K.Rely thread world middle)
    (h' : K.Rely thread middle world') : K.Rely thread world world' :=
  Relation.ReflTransGen.trans h h'

/-- What happens around a thread only moves the world by permitted calls. -/
theorem Rely.later (h : K.Rely thread world world') : K.Later world world' := by
  induction h with
  | refl => exact .refl _
  | tail _ hstep ih =>
      obtain ⟨other, request, hmove, _⟩ := hstep
      exact ih.trans hmove.later

/-- A call of another thread is part of what a thread relies on. -/
theorem Move.rely {other : Nat} {request : Call} (h : K.Move other request world world')
    (hother : other ≠ thread ∨ K.Quiet request) : K.Rely thread world world' :=
  .single ⟨other, request, h, hother⟩

/-- A predicate that every disturbance keeps is kept around the thread. -/
theorem Rely.stable {P : World → Prop}
    (hstep : ∀ other request v w, K.Move other request v w → (other ≠ thread ∨ K.Quiet request) →
      P v → P w)
    (h : K.Rely thread world world') (hP : P world) : P world' := by
  induction h with
  | refl => exact hP
  | tail _ hmove ih =>
      obtain ⟨other, request, hmove, hother⟩ := hmove
      exact hstep other request _ _ hmove hother ih

/-- The property held at some earlier moment, or holds now. -/
def Once (K : Contract execute) (P : World → Prop) (world : World) : Prop :=
  ∃ before, K.Inv before ∧ K.Later before world ∧ P before

theorem Once.now {P : World → Prop} (hinv : K.Inv world) (h : P world) : K.Once P world :=
  ⟨world, hinv, .refl _, h⟩

/-- What held once goes on having held once. -/
theorem Once.later {P : World → Prop} (h : K.Once P world) (hlater : K.Later world world') :
    K.Once P world' := by
  obtain ⟨before, hinv, hpath, hP⟩ := h
  exact ⟨before, hinv, hpath.trans hlater, hP⟩

theorem Once.mono {P Q : World → Prop} (h : K.Once P world)
    (hPQ : ∀ w, K.Inv w → P w → Q w) : K.Once Q world := by
  obtain ⟨before, hinv, hpath, hP⟩ := h
  exact ⟨before, hinv, hpath, hPQ before hinv hP⟩

/-- A safe program stays safe while the world moves around it. -/
theorem Safe.mono {program : Program Call Answer α} {post : α → World → Prop}
    (h : K.Safe thread program post world) (hrely : K.Rely thread world world') :
    K.Safe thread program post world' := by
  cases program with
  | done value => exact fun after hafter => h after (hrely.trans hafter)
  | call request next => exact fun after hafter => h after (hrely.trans hafter)

/-- Safety may be proved in the worlds in which the program will find itself, all of which
satisfy the invariant. -/
theorem safe_of_rely {program : Program Call Answer α} {post : α → World → Prop}
    (h : ∀ world', K.Rely thread world world' → K.Inv world' →
      K.Safe thread program post world') :
    K.Safe thread program post world := by
  cases program with
  | done value => exact fun after hrely hinv => h after hrely hinv after (.refl _) hinv
  | call request next => exact fun after hrely hinv => h after hrely hinv after (.refl _) hinv

/-- A weaker postcondition suffices where the invariant holds. -/
theorem Safe.weaken {program : Program Call Answer α} {post post' : α → World → Prop}
    (h : K.Safe thread program post world)
    (hpost : ∀ value after, K.Inv after → post value after → post' value after) :
    K.Safe thread program post' world := by
  induction program generalizing world with
  | done value => exact fun after hrely hinv => hpost value after hinv (h after hrely hinv)
  | call request next ih =>
      intro after hrely hinv
      obtain ⟨hpermitted, hnext⟩ := h after hrely hinv
      exact ⟨hpermitted, fun env answer final hexecute =>
        ih answer (hnext env answer final hexecute)⟩

/-- The postcondition of a safe program keeps holding while the world moves around it. -/
theorem Safe.stable {program : Program Call Answer α} {post : α → World → Prop}
    (h : K.Safe thread program post world) :
    K.Safe thread program (fun value after => ∀ final, K.Rely thread after final →
      K.Inv final → post value final) world := by
  induction program generalizing world with
  | done value => exact fun after hrely _ final hfinal => h final (hrely.trans hfinal)
  | call request next ih =>
      intro after hrely hinv
      obtain ⟨hpermitted, hnext⟩ := h after hrely hinv
      exact ⟨hpermitted, fun env answer final hexecute =>
        ih answer (hnext env answer final hexecute)⟩

/-- A safe program ends in a world that is later than the one it started in. -/
theorem Safe.since {program : Program Call Answer α} {post : α → World → Prop} {start : World}
    (hstart : K.Later start world) (h : K.Safe thread program post world) :
    K.Safe thread program (fun value after => K.Later start after ∧ post value after) world := by
  induction program generalizing world with
  | done value => exact fun after hrely hinv => ⟨hstart.trans hrely.later, h after hrely hinv⟩
  | call request next ih =>
      intro after hrely hinv
      obtain ⟨hpermitted, hnext⟩ := h after hrely hinv
      refine ⟨hpermitted, fun env answer final hexecute => ?_⟩
      have hmove : K.Move thread request after final := ⟨hinv, hpermitted, env, answer, hexecute⟩
      exact ih answer ((hstart.trans hrely.later).trans hmove.later)
        (hnext env answer final hexecute)

/-- A program that has returned is safe if its value satisfies the postcondition from now on. -/
theorem safe_done {value : α} {post : α → World → Prop}
    (h : ∀ world', K.Rely thread world world' → K.Inv world' → post value world') :
    K.Safe thread (.done value) post world :=
  h

/-- A sequence is safe if its second part is safe wherever the first part may end. -/
theorem safe_bind {first : Program Call Answer α} {next : α → Program Call Answer β}
    {post : β → World → Prop}
    (h : K.Safe thread first (fun value after => K.Safe thread (next value) post after) world) :
    K.Safe thread (first >>= next) post world := by
  induction first generalizing world with
  | done value => exact safe_of_rely h
  | call request rest ih =>
      intro after hrely hinv
      obtain ⟨hpermitted, hrest⟩ := h after hrely hinv
      exact ⟨hpermitted, fun env answer final hexecute =>
        ih answer (hrest env answer final hexecute)⟩

/-- A pure function of what a program returns. -/
theorem safe_map {program : Program Call Answer α} {f : α → β} {post : β → World → Prop}
    (h : K.Safe thread program (fun value after => post (f value) after) world) :
    K.Safe thread (program >>= fun value => .done (f value)) post world := by
  induction program generalizing world with
  | done value => exact h
  | call request rest ih =>
      intro after hrely hinv
      obtain ⟨hpermitted, hrest⟩ := h after hrely hinv
      exact ⟨hpermitted, fun env answer final hexecute =>
        ih answer (hrest env answer final hexecute)⟩

/-- The rule for a call: it is permitted where it is executed, and the program goes on in the
world that the execution leaves. -/
theorem safe_call {request : Call} {next : Answer request → Program Call Answer α}
    {post : α → World → Prop}
    (hpermitted : ∀ world', K.Rely thread world world' → K.Inv world' →
      K.Permitted world' thread request)
    (hnext : ∀ world' env answer after, K.Rely thread world world' → K.Inv world' →
      K.Move thread request world' after →
      execute env thread request world' = some (answer, after) →
      K.Safe thread (next answer) post after) :
    K.Safe thread (.call request next) post world := by
  intro world' hrely hinv
  have hlegal := hpermitted world' hrely hinv
  exact ⟨hlegal, fun env answer after hexecute =>
    hnext world' env answer after hrely hinv ⟨hinv, hlegal, env, answer, hexecute⟩ hexecute⟩

/-- The rule for a quiet call: the program goes on as if in the world in which the call found
its answer. -/
theorem safe_quiet {request : Call} {next : Answer request → Program Call Answer α}
    {post : α → World → Prop} (hquiet : K.Quiet request)
    (hpermitted : ∀ world', K.Rely thread world world' → K.Inv world' →
      K.Permitted world' thread request)
    (hnext : ∀ world' env answer after, K.Rely thread world world' → K.Inv world' →
      execute env thread request world' = some (answer, after) →
      K.Safe thread (next answer) post world') :
    K.Safe thread (.call request next) post world := by
  refine safe_call hpermitted fun world' env answer after hrely hinv hmove hexecute => ?_
  exact (hnext world' env answer after hrely hinv hexecute).mono (hmove.rely (.inr hquiet))

/-- A program all of whose calls are quiet and permitted in every world. -/
def Harmless (K : Contract execute) : Program Call Answer α → Prop
  | .done _ => True
  | .call request next => K.Quiet request ∧
      (∀ thread world, K.Inv world → K.Permitted world thread request) ∧
      ∀ answer, Harmless K (next answer)

/-- A harmless program is safe, and nothing the caller knows is lost by running it. -/
theorem Harmless.safe {program : Program Call Answer α} (h : K.Harmless program)
    {post : α → World → Prop}
    (hpost : ∀ value world', K.Rely thread world world' → K.Inv world' → post value world') :
    K.Safe thread program post world := by
  induction program generalizing world with
  | done value => exact safe_done (hpost value)
  | call request next ih =>
      obtain ⟨hquiet, hpermitted, hnext⟩ := h
      refine safe_quiet hquiet (fun world' _ hinv => hpermitted thread world' hinv) ?_
      intro world' env answer after hrely _ _
      exact ih answer (hnext answer) fun value final hfinal =>
        hpost value final (hrely.trans hfinal)

theorem Harmless.bind {first : Program Call Answer α} {next : α → Program Call Answer β}
    (hfirst : K.Harmless first) (hnext : ∀ value, K.Harmless (next value)) :
    K.Harmless (first >>= next) := by
  induction first with
  | done value => exact hnext value
  | call request rest ih =>
      exact ⟨hfirst.1, hfirst.2.1, fun answer => ih answer (hfirst.2.2 answer)⟩

section Adequacy

variable (K) (program : Start → Program Call Answer Unit)

/-- The invariant holds and every running program is safe. -/
def SafeConfig (config : Config World Call Answer) : Prop :=
  K.Inv config.world ∧ ∀ thread running, config.threads[thread]? = some running →
    K.Safe thread running (fun _ _ => True) config.world

/-- Every program that may be started is safe in every world that satisfies the invariant. -/
def SafeStart : Prop :=
  ∀ entry thread world, K.Inv world →
    K.Safe thread (program entry) (fun _ _ => True) world

variable {K program}

/-- A choice leaves the world as it is or makes one permitted call. -/
theorem advance_world {config : Config World Call Answer} (h : K.SafeConfig config)
    (choice : Choice Env Start) :
    (config.advance execute program choice).world = config.world ∨
      ∃ thread request,
        K.Move thread request config.world (config.advance execute program choice).world := by
  obtain ⟨hinv, hthreads⟩ := h
  cases choice with
  | start entry => exact .inl rfl
  | step thread env =>
      simp only [Config.advance]
      split
      · rename_i request next hrunning
        split
        · rename_i answer after hexecute
          have hsafe := hthreads thread _ hrunning config.world (.refl _) hinv
          exact .inr ⟨thread, request, hinv, hsafe.1, env, answer, hexecute⟩
        · exact .inl rfl
      · exact .inl rfl

/-- One choice keeps the invariant and the safety of every running program. -/
theorem SafeConfig.advance {config : Config World Call Answer} (h : K.SafeConfig config)
    (hstart : K.SafeStart program) (choice : Choice Env Start) :
    K.SafeConfig (config.advance execute program choice) := by
  obtain ⟨hinv, hthreads⟩ := h
  cases choice with
  | start entry =>
      refine ⟨hinv, fun thread running hrunning => ?_⟩
      simp only [Config.advance, List.getElem?_append] at hrunning
      split at hrunning
      · exact hthreads thread running hrunning
      · rw [List.getElem?_singleton] at hrunning
        split at hrunning
        · cases hrunning
          exact hstart entry thread config.world hinv
        · cases hrunning
  | step actor env =>
      simp only [Config.advance]
      split
      · rename_i request next hactor
        split
        · rename_i answer after hexecute
          obtain ⟨hpermitted, hnext⟩ := hthreads actor _ hactor config.world (.refl _) hinv
          have hmove : K.Move actor request config.world after :=
            ⟨hinv, hpermitted, env, answer, hexecute⟩
          refine ⟨hmove.inv, fun thread running hrunning => ?_⟩
          simp only [List.getElem?_set] at hrunning
          split at hrunning
          · rename_i hsame
            subst hsame
            split at hrunning
            · cases hrunning
              exact hnext env answer after hexecute
            · cases hrunning
          · rename_i hother
            exact (hthreads thread running hrunning).mono (hmove.rely (.inl hother))
        · exact ⟨hinv, hthreads⟩
      · exact ⟨hinv, hthreads⟩

/-- Adequacy: safe programs keep the invariant under every schedule. -/
theorem run_safe {config : Config World Call Answer} (h : K.SafeConfig config)
    (hstart : K.SafeStart program) (schedule : List (Choice Env Start)) :
    K.SafeConfig (run execute program config schedule) := by
  induction schedule generalizing config with
  | nil => exact h
  | cons choice rest ih => exact ih (h.advance hstart choice)

/-- Under every schedule the world only moves by permitted calls. -/
theorem run_later {config : Config World Call Answer} (h : K.SafeConfig config)
    (hstart : K.SafeStart program) (schedule : List (Choice Env Start)) :
    K.Later config.world (run execute program config schedule).world := by
  induction schedule generalizing config with
  | nil => exact .refl _
  | cons choice rest ih =>
      have hrest := ih (h.advance hstart choice)
      rcases advance_world h choice with hsame | ⟨thread, request, hmove⟩
      · rwa [hsame] at hrest
      · exact hmove.later.trans hrest

/-- What is left of a running program after one choice is safe for the same postcondition. -/
theorem advance_thread {config : Config World Call Answer} (h : K.SafeConfig config)
    {running : Program Call Answer Unit} {post : Unit → World → Prop}
    (hrunning : config.threads[thread]? = some running)
    (hsafe : K.Safe thread running post config.world) (choice : Choice Env Start) :
    ∃ rest, (config.advance execute program choice).threads[thread]? = some rest ∧
      K.Safe thread rest post (config.advance execute program choice).world := by
  obtain ⟨hinv, hthreads⟩ := h
  have hlength := (List.getElem?_eq_some_iff.mp hrunning).1
  cases choice with
  | start entry =>
      refine ⟨running, ?_, hsafe⟩
      simp only [Config.advance, List.getElem?_append_left hlength, hrunning]
  | step actor env =>
      simp only [Config.advance]
      split
      · rename_i request next hactor
        split
        · rename_i answer after hexecute
          have hpermitted := (hthreads actor _ hactor config.world (.refl _) hinv).1
          have hmove : K.Move actor request config.world after :=
            ⟨hinv, hpermitted, env, answer, hexecute⟩
          by_cases hsame : actor = thread
          · subst hsame
            cases Option.some.inj (hrunning.symm.trans hactor)
            refine ⟨next answer, List.getElem?_set_self hlength, ?_⟩
            exact (hsafe config.world (.refl _) hinv).2 env answer after hexecute
          · refine ⟨running, ?_, hsafe.mono (hmove.rely (.inl hsame))⟩
            rw [List.getElem?_set_ne hsame, hrunning]
        · exact ⟨running, hrunning, hsafe⟩
      · exact ⟨running, hrunning, hsafe⟩

/-- Adequacy for one program: when it has returned, its postcondition holds. -/
theorem run_ends {config : Config World Call Answer} (h : K.SafeConfig config)
    (hstart : K.SafeStart program) {running : Program Call Answer Unit} {post : World → Prop}
    (hrunning : config.threads[thread]? = some running)
    (hsafe : K.Safe thread running (fun _ => post) config.world)
    (schedule : List (Choice Env Start))
    (hdone : (run execute program config schedule).threads[thread]? = some (.done ())) :
    post (run execute program config schedule).world := by
  induction schedule generalizing config running with
  | nil =>
      cases Option.some.inj (hrunning.symm.trans hdone)
      exact hsafe config.world (.refl _) h.1
  | cons choice rest ih =>
      obtain ⟨left, hleft, hsafe'⟩ : ∃ left,
          (config.advance execute program choice).threads[thread]? = some left ∧
            K.Safe thread left (fun _ => post) (config.advance execute program choice).world :=
        advance_thread h hrunning hsafe choice
      exact ih (h.advance hstart choice) hleft hsafe' hdone

/-- A configuration with no running programs is safe if the invariant holds. -/
theorem safe_config_initial {world : World} (h : K.Inv world) : K.SafeConfig ⟨world, []⟩ :=
  ⟨h, fun thread running hrunning => by simp at hrunning⟩

end Adequacy

end Contract

end Interaction
