import AcmeServer.Interaction.Attempt
import Mathlib.Algebra.BigOperators.Group.Finset.Basic
import Mathlib.Algebra.Order.BigOperators.Group.Finset

/-!
# What programs do, whatever they are answered

`Leads` relates a program to the exchanges it makes, for any answers at all. A rule says which calls
may be made after which exchanges, and `Program.Follows` that a program keeps to the rule. As with
`Contract.Safe` it is defined by recursion over the program and proved by symbolic execution. Unlike
a contract, a rule refers to the exchanges of the program alone, so it needs no invariant and holds
in every world.

`run_follows` carries this over to interleaved programs: every call of every run was allowed by the
rule after the earlier exchanges of the same thread. `run_runs` says that each thread is always
somewhere in the program it was started with.
-/

namespace Interaction

variable {Call : Type} {Answer : Call → Type} {α β ε σ : Type}

/-- One call and its answer. -/
structure Exchange (Call : Type) (Answer : Call → Type) where
  call : Call
  answer : Answer call

/-- The exchanges of a program, the oldest first. -/
abbrev Log (Call : Type) (Answer : Call → Type) := List (Exchange Call Answer)

/-- The program makes the exchanges and is then left with the rest. -/
inductive Leads : Program Call Answer α → Log Call Answer → Program Call Answer α → Prop where
  | refl (program : Program Call Answer α) : Leads program [] program
  | call {request : Call} {next : Answer request → Program Call Answer α} {log : Log Call Answer}
      {rest : Program Call Answer α} (answer : Answer request) :
      Leads (next answer) log rest → Leads (.call request next) (⟨request, answer⟩ :: log) rest

/-- Every call of the log was allowed after the exchanges before it. -/
def Kept (rule : Log Call Answer → Call → Prop) (log : Log Call Answer) : Prop :=
  ∀ {made : Log Call Answer} {exchange : Exchange Call Answer} {later : Log Call Answer},
    log = made ++ exchange :: later → rule made exchange.call

namespace Program

/-- Every call of the program is allowed after the exchanges before it, and its value satisfies the
postcondition. -/
def Follows (rule : Log Call Answer → Call → Prop) :
    Program Call Answer α → (α → Log Call Answer → Prop) → Log Call Answer → Prop
  | .done value, post, log => post value log
  | .call request next, post, log =>
      rule log request ∧ ∀ answer, Follows rule (next answer) post (log ++ [⟨request, answer⟩])

/-- The program makes no call of the kind. -/
def Avoids (kind : Call → Prop) : Program Call Answer α → Prop
  | .done _ => True
  | .call request next => ¬kind request ∧ ∀ answer, Avoids kind (next answer)

/-- Every value the program may return satisfies the postcondition. -/
def Returns (post : α → Prop) : Program Call Answer α → Prop
  | .done value => post value
  | .call _ next => ∀ answer, Returns post (next answer)

variable {rule : Log Call Answer → Call → Prop} {kind : Call → Prop} {log : Log Call Answer}

theorem Follows.weaken {program : Program Call Answer α} {post post' : α → Log Call Answer → Prop}
    (h : program.Follows rule post log) (hpost : ∀ value log', post value log' → post' value log') :
    program.Follows rule post' log := by
  induction program generalizing log with
  | done value => exact hpost value log h
  | call request next ih => exact ⟨h.1, fun answer => ih answer (h.2 answer)⟩

/-- A sequence follows the rule if its second part does wherever the first part may end. -/
theorem follows_bind {first : Program Call Answer α} {next : α → Program Call Answer β}
    {post : β → Log Call Answer → Prop}
    (h : first.Follows rule (fun value log' => (next value).Follows rule post log') log) :
    (first >>= next).Follows rule post log := by
  induction first generalizing log with
  | done value => exact h
  | call request rest ih => exact ⟨h.1, fun answer => ih answer (h.2 answer)⟩

theorem follows_perform {request : Call} {post : Answer request → Log Call Answer → Prop}
    (hrule : rule log request) (hpost : ∀ answer, post answer (log ++ [⟨request, answer⟩])) :
    (perform request).Follows rule post log :=
  ⟨hrule, hpost⟩

/-- The exchanges of a program come after those before it. -/
theorem Follows.extends {program : Program Call Answer α} {post : α → Log Call Answer → Prop}
    (h : program.Follows rule post log) :
    program.Follows rule (fun value log' => post value log' ∧ log <+: log') log := by
  induction program generalizing log with
  | done value => exact ⟨h, List.prefix_rfl⟩
  | call request next ih =>
      refine ⟨h.1, fun answer => (ih answer (h.2 answer)).weaken fun _ _ hpost => ?_⟩
      exact ⟨hpost.1, (List.prefix_append _ _).trans hpost.2⟩

/-- The rest of a program follows the rule behind the exchanges that were made. -/
theorem Follows.leads {program rest : Program Call Answer α} {post : α → Log Call Answer → Prop}
    {made : Log Call Answer} (h : program.Follows rule post log)
    (hleads : Leads program made rest) :
    rest.Follows rule post (log ++ made) := by
  induction hleads generalizing log with
  | refl => rwa [List.append_nil]
  | call answer _ ih =>
      have hnext := ih (h.2 answer)
      rwa [List.append_assoc] at hnext

/-- Every call that was made was allowed. -/
theorem Follows.kept {program rest : Program Call Answer α} {post : α → Log Call Answer → Prop}
    {made : Log Call Answer} (h : program.Follows rule post []) (hleads : Leads program made rest) :
    Kept rule made := by
  have hcut {program : Program Call Answer α} {log made later : Log Call Answer}
      {exchange : Exchange Call Answer} (h : program.Follows rule post log)
      (hleads : Leads program (made ++ exchange :: later) rest) :
      rule (log ++ made) exchange.call := by
    induction made generalizing program log with
    | nil =>
        cases hleads with
        | call answer _ =>
            rw [List.append_nil]
            exact h.1
    | cons first made ih =>
        cases hleads with
        | call answer hrest =>
            have hrule := ih (h.2 answer) hrest
            rwa [List.append_assoc] at hrule
  intro before exchange later hmade
  subst hmade
  exact hcut h hleads

theorem Avoids.bind {first : Program Call Answer α} {next : α → Program Call Answer β}
    (hfirst : first.Avoids kind) (hnext : ∀ value, (next value).Avoids kind) :
    (first >>= next).Avoids kind := by
  induction first with
  | done value => exact hnext value
  | call request rest ih => exact ⟨hfirst.1, fun answer => ih answer (hfirst.2 answer)⟩

theorem Avoids.mono {program : Program Call Answer α} {kind' : Call → Prop}
    (h : program.Avoids kind) (hkind : ∀ request, kind' request → kind request) :
    program.Avoids kind' := by
  induction program with
  | done value => trivial
  | call request next ih =>
      exact ⟨fun hcall => h.1 (hkind request hcall), fun answer => ih answer (h.2 answer)⟩

/-- A program without calls of the kind follows a rule that allows all other calls, and keeps what
other exchanges do not change. -/
theorem Avoids.follows {program : Program Call Answer α} {P : Log Call Answer → Prop}
    (h : program.Avoids kind) (hrule : ∀ log request, ¬kind request → rule log request)
    (hkeep : ∀ log (exchange : Exchange Call Answer), ¬kind exchange.call → P log →
      P (log ++ [exchange]))
    (hP : P log) : program.Follows rule (fun _ => P) log := by
  induction program generalizing log with
  | done value => exact hP
  | call request next ih =>
      exact ⟨hrule log request h.1, fun answer => ih answer (h.2 answer) (hkeep log _ h.1 hP)⟩

theorem Returns.weaken {program : Program Call Answer α} {post post' : α → Prop}
    (h : program.Returns post) (hpost : ∀ value, post value → post' value) :
    program.Returns post' := by
  induction program with
  | done value => exact hpost value h
  | call request next ih => exact fun answer => ih answer (h answer)

theorem returns_bind {first : Program Call Answer α} {next : α → Program Call Answer β}
    {post : β → Prop} (h : first.Returns fun value => (next value).Returns post) :
    (first >>= next).Returns post := by
  induction first with
  | done value => exact h
  | call request rest ih => exact fun answer => ih answer (h answer)

theorem returns_seq {first : Program Call Answer α} {next : α → Program Call Answer β}
    {post : β → Prop} (h : ∀ value, (next value).Returns post) : (first >>= next).Returns post := by
  induction first with
  | done value => exact h value
  | call request rest ih => exact fun answer => ih answer

/-- What holds of every value holds of the one the program ends with. -/
theorem Returns.leads {program : Program Call Answer α} {post : α → Prop} {value : α}
    (h : program.Returns post) (hleads : Leads program log (.done value)) : post value := by
  generalize hrest : (.done value : Program Call Answer α) = rest at hleads
  induction hleads with
  | refl =>
      subst hrest
      exact h
  | call answer _ ih => exact ih (h answer) hrest

/-- What a program returns and what its exchanges lead to. -/
theorem Follows.returns {program : Program Call Answer α} {post : α → Log Call Answer → Prop}
    {value : α → Prop} (h : program.Follows rule post log) (hreturns : program.Returns value) :
    program.Follows rule (fun v log' => post v log' ∧ value v) log := by
  induction program generalizing log with
  | done v => exact ⟨h, hreturns⟩
  | call request next ih => exact ⟨h.1, fun answer => ih answer (h.2 answer) (hreturns answer)⟩

/-- A rule that allows more. -/
theorem Follows.relax {program : Program Call Answer α} {post : α → Log Call Answer → Prop}
    {rule' : Log Call Answer → Call → Prop} (h : program.Follows rule post log)
    (hrule : ∀ log request, rule log request → rule' log request) :
    program.Follows rule' post log := by
  induction program generalizing log with
  | done value => exact h
  | call request next ih => exact ⟨hrule _ _ h.1, fun answer => ih answer (h.2 answer)⟩

end Program

namespace Attempt

variable {rule : Log Call Answer → Call → Prop} {kind : Call → Prop} {log : Log Call Answer} {s : σ}

/-- Every call of the attempt is allowed, its value satisfies the first postcondition and its error
the second. -/
def Follows (rule : Log Call Answer → Call → Prop) (m : Attempt Call Answer ε σ α) (s : σ)
    (post : α → σ → Log Call Answer → Prop) (stop : ε → σ → Log Call Answer → Prop)
    (log : Log Call Answer) : Prop :=
  (m.start s).Follows rule (fun outcome log' =>
    match outcome with
    | (.ok value, s') => post value s' log'
    | (.error e, s') => stop e s' log') log

/-- The attempt makes no call of the kind. -/
def Avoids (kind : Call → Prop) (m : Attempt Call Answer ε σ α) : Prop :=
  ∀ s, (m.start s).Avoids kind

variable {m : Attempt Call Answer ε σ α} {f : α → Attempt Call Answer ε σ β}
  {post : β → σ → Log Call Answer → Prop} {stop : ε → σ → Log Call Answer → Prop}

theorem follows_bind
    (h : Follows rule m s (fun value s' log' => Follows rule (f value) s' post stop log') stop
      log) :
    Follows rule (m >>= f) s post stop log := by
  unfold Follows
  rw [start_bind]
  refine Program.follows_bind (Program.Follows.weaken h fun outcome log' hnext => ?_)
  rcases outcome with ⟨e | value, s'⟩
  · exact hnext
  · exact hnext

theorem Follows.weaken {post post' : α → σ → Log Call Answer → Prop}
    {stop' : ε → σ → Log Call Answer → Prop} (h : Follows rule m s post stop log)
    (hpost : ∀ value s' log', post value s' log' → post' value s' log')
    (hstop : ∀ e s' log', stop e s' log' → stop' e s' log') :
    Follows rule m s post' stop' log := by
  refine Program.Follows.weaken h fun outcome log' houtcome => ?_
  rcases outcome with ⟨e | value, s'⟩
  · exact hstop e s' log' houtcome
  · exact hpost value s' log' houtcome

theorem follows_fail_if {c : Prop} [Decidable c] {e : ε} {post : Unit → σ → Log Call Answer → Prop}
    (hstop : c → stop e s log) (hpost : ¬c → post () s log) :
    Follows rule (failIf c e) s post stop log := by
  unfold failIf
  split
  · next hc => exact hstop hc
  · next hc => exact hpost hc

theorem follows_check {problem : Option ε} {post : Unit → σ → Log Call Answer → Prop}
    (hstop : ∀ e, problem = some e → stop e s log) (hpost : problem = none → post () s log) :
    Follows rule (check problem) s post stop log := by
  cases problem with
  | some e => exact hstop e rfl
  | none => exact hpost rfl

theorem follows_expect {result : Except ε α} {post : α → σ → Log Call Answer → Prop}
    (hstop : ∀ e, result = .error e → stop e s log) (hpost : ∀ value, result = .ok value →
      post value s log) : Follows rule (expect result) s post stop log := by
  cases result with
  | error e => exact hstop e rfl
  | ok value => exact hpost value rfl

/-- A program as part of an attempt. -/
theorem follows_lift {program : Program Call Answer α} {post : α → σ → Log Call Answer → Prop}
    (h : program.Follows rule (fun value log' => post value s log') log) :
    Follows rule (liftM program : Attempt Call Answer ε σ α) s post stop log := by
  unfold Follows
  rw [start_lift]
  exact Program.follows_bind (Program.Follows.weaken h fun _ _ hpost => hpost)

/-- Every value the attempt may return satisfies the postcondition. -/
def Returns (post : α → Prop) (m : Attempt Call Answer ε σ α) : Prop :=
  ∀ s, (m.start s).Returns fun outcome => ∀ value, outcome.1 = .ok value → post value

theorem Returns.weaken {post post' : α → Prop} (h : Returns post m)
    (hpost : ∀ value, post value → post' value) : Returns post' m := fun s =>
  (h s).weaken fun _ houtcome value hvalue => hpost value (houtcome value hvalue)

theorem returns_pure {value : α} {post : α → Prop} (h : post value) :
    Returns post (pure value : Attempt Call Answer ε σ α) := by
  intro s value' hvalue
  cases hvalue
  exact h

theorem returns_throw {e : ε} {post : α → Prop} :
    Returns post (throw e : Attempt Call Answer ε σ α) := by
  intro s value hvalue
  cases hvalue

theorem returns_bind {post : β → Prop} (h : Returns (fun value => Returns post (f value)) m) :
    Returns post (m >>= f) := by
  intro s
  rw [start_bind]
  refine Program.returns_bind ((h s).weaken fun outcome hnext => ?_)
  rcases outcome with ⟨e | value, s'⟩
  · intro value hvalue
    cases hvalue
  · exact hnext value rfl s'

/-- A step whose value does not matter. -/
theorem returns_seq {post : β → Prop} (h : ∀ value, Returns post (f value)) :
    Returns post (m >>= f) := by
  intro s
  rw [start_bind]
  refine Program.returns_seq fun outcome => ?_
  rcases outcome with ⟨e | value, s'⟩
  · exact nofun
  · exact h value s'

theorem returns_expect {result : Except ε α} {post : α → Prop}
    (h : ∀ value, result = .ok value → post value) :
    Returns post (expect result : Attempt Call Answer ε σ α) := by
  cases result with
  | error e => exact returns_throw
  | ok value => exact returns_pure (h value rfl)

/-- What an attempt returns and what its exchanges lead to. -/
theorem Follows.returns {post : α → σ → Log Call Answer → Prop} {value : α → Prop}
    (h : Follows rule m s post stop log) (hreturns : Returns value m) :
    Follows rule m s (fun v s' log' => post v s' log' ∧ value v) stop log := by
  refine Program.Follows.weaken (Program.Follows.returns h (hreturns s)) ?_
  rintro ⟨e | v, s'⟩ log' ⟨hpost, hvalue⟩
  · exact hpost
  · exact ⟨hpost, hvalue v rfl⟩

/-- An attempt without calls of the kind, where only the exchanges matter. -/
theorem Avoids.follows {P : Log Call Answer → Prop} (h : m.Avoids kind)
    (hrule : ∀ log request, ¬kind request → rule log request)
    (hkeep : ∀ log (exchange : Exchange Call Answer), ¬kind exchange.call → P log →
      P (log ++ [exchange]))
    (hP : P log) : Follows rule m s (fun _ _ => P) (fun _ _ => P) log := by
  refine ((h s).follows hrule hkeep hP).weaken fun outcome log' hlog => ?_
  rcases outcome with ⟨e | value, s'⟩
  · exact hlog
  · exact hlog

theorem Avoids.mono {kind' : Call → Prop} (h : m.Avoids kind)
    (hkind : ∀ request, kind' request → kind request) : m.Avoids kind' := fun s =>
  (h s).mono hkind

theorem Avoids.pure (value : α) : Avoids kind (Pure.pure value : Attempt Call Answer ε σ α) :=
  fun _ => trivial

theorem Avoids.throw (e : ε) : Avoids kind (MonadExcept.throw e : Attempt Call Answer ε σ α) :=
  fun _ => trivial

theorem Avoids.modify (change : σ → σ) :
    Avoids kind (modifyThe σ change : Attempt Call Answer ε σ PUnit) :=
  fun _ => trivial

theorem Avoids.get : Avoids kind (getThe σ : Attempt Call Answer ε σ σ) :=
  fun _ => trivial

theorem Avoids.bind (hm : m.Avoids kind) (hf : ∀ value, (f value).Avoids kind) :
    Avoids kind (m >>= f) := by
  intro s
  rw [start_bind]
  refine Program.Avoids.bind (hm s) fun outcome => ?_
  rcases outcome with ⟨e | value, s'⟩
  · trivial
  · exact hf value s'

theorem Avoids.lift {program : Program Call Answer α} (h : program.Avoids kind) :
    Avoids kind (liftM program : Attempt Call Answer ε σ α) := by
  intro s
  rw [start_lift]
  exact Program.Avoids.bind h fun _ => trivial

theorem Avoids.fail_if (c : Prop) [Decidable c] (e : ε) :
    Avoids kind (failIf c e : Attempt Call Answer ε σ Unit) := by
  unfold failIf
  split
  · exact Avoids.throw e
  · exact Avoids.pure ()

theorem Avoids.check (problem : Option ε) :
    Avoids kind (Attempt.check problem : Attempt Call Answer ε σ Unit) := by
  cases problem with
  | some e => exact Avoids.throw e
  | none => exact Avoids.pure ()

theorem Avoids.expect (result : Except ε α) :
    Avoids kind (Attempt.expect result : Attempt Call Answer ε σ α) := by
  cases result with
  | error e => exact Avoids.throw e
  | ok value => exact Avoids.pure value

theorem Avoids.on_error {report : ε → Program Call Answer Unit} (hm : m.Avoids kind)
    (hreport : ∀ e, (report e).Avoids kind) : Avoids kind (m.onError report) := by
  intro s
  rw [start_on_error]
  refine Program.Avoids.bind (hm s) fun outcome => ?_
  rcases outcome with ⟨e | value, s'⟩
  · exact Program.Avoids.bind (hreport e) fun _ => trivial
  · trivial

end Attempt

/-! ## Interleaved programs -/

/-- The exchanges of all threads, the newest first. -/
abbrev Entries (Call : Type) (Answer : Call → Type) := List (Nat × Exchange Call Answer)

/-- The exchanges of one thread. -/
def threadLog (thread : Nat) (entries : Entries Call Answer) : Log Call Answer :=
  ((entries.filter fun entry => entry.1 = thread).map Prod.snd).reverse

theorem thread_log_cons (thread : Nat) (entry : Nat × Exchange Call Answer)
    (entries : Entries Call Answer) :
    threadLog thread (entry :: entries) =
      threadLog thread entries ++ if entry.1 = thread then [entry.2] else [] := by
  unfold threadLog
  by_cases h : entry.1 = thread <;> simp [h]

theorem mem_thread_log {thread : Nat} {exchange : Exchange Call Answer}
    {entries : Entries Call Answer} :
    exchange ∈ threadLog thread entries ↔ (thread, exchange) ∈ entries := by
  simp [threadLog]

/-- Every exchange of a thread was recorded after the earlier ones. -/
theorem thread_log_split {thread : Nat} {entries : Entries Call Answer} {made : Log Call Answer}
    {exchange : Exchange Call Answer} {later : Log Call Answer}
    (h : threadLog thread entries = made ++ exchange :: later) :
    ∃ earlier, (thread, exchange) :: earlier <:+ entries ∧ threadLog thread earlier = made := by
  induction entries generalizing later with
  | nil => exact absurd h.symm (by simp [threadLog])
  | cons entry entries ih =>
      rw [thread_log_cons] at h
      by_cases hsame : entry.1 = thread
      · rw [if_pos hsame] at h
        -- The newest entry is the exchange, or the exchange is an older one.
        rcases List.eq_nil_or_concat later with rfl | ⟨later, last, rfl⟩
        · obtain ⟨hmade, hlast⟩ := List.append_inj' h rfl
          cases hlast
          exact ⟨entries, by rw [← hsame], hmade⟩
        · rw [List.concat_eq_append, ← List.cons_append, ← List.append_assoc] at h
          obtain ⟨hold, -⟩ := List.append_inj' h rfl
          obtain ⟨earlier, hsuffix, hmade⟩ := ih hold
          exact ⟨earlier, hsuffix.trans (List.suffix_cons _ _), hmade⟩
      · rw [if_neg hsame, List.append_nil] at h
        obtain ⟨earlier, hsuffix, hmade⟩ := ih h
        exact ⟨earlier, hsuffix.trans (List.suffix_cons _ _), hmade⟩

section Run

variable {World Env Start : Type}
variable {execute : Env → Nat → (request : Call) → World → Option (Answer request × World)}
variable {program : Start → Program Call Answer Unit}
variable {rule : Log Call Answer → Call → Prop}

/-- The world keeps a record of all exchanges. -/
def Records (execute : Env → Nat → (request : Call) → World → Option (Answer request × World))
    (entries : World → Entries Call Answer) : Prop :=
  ∀ {env thread request world answer world'},
    execute env thread request world = some (answer, world') →
      entries world' = (thread, ⟨request, answer⟩) :: entries world

/-- Every recorded call was allowed, and what is running goes on following the rule. -/
structure Followed (rule : Log Call Answer → Call → Prop) (entries : World → Entries Call Answer)
    (config : Config World Call Answer) : Prop where
  running : ∀ {thread : Nat} {rest : Program Call Answer Unit},
    config.threads[thread]? = some rest →
      rest.Follows rule (fun _ _ => True) (threadLog thread (entries config.world))
  unborn : ∀ {thread : Nat}, config.threads.length ≤ thread →
    threadLog thread (entries config.world) = []
  allowed : ∀ {thread : Nat} {exchange : Exchange Call Answer} {earlier : Entries Call Answer},
    (thread, exchange) :: earlier <:+ entries config.world →
      rule (threadLog thread earlier) exchange.call

variable {entries : World → Entries Call Answer} {config : Config World Call Answer}

/-- Every thread kept to the rule. -/
theorem Followed.kept (h : Followed rule entries config) (thread : Nat) :
    Kept rule (threadLog thread (entries config.world)) := by
  intro made exchange later hlog
  obtain ⟨earlier, hsuffix, rfl⟩ := thread_log_split hlog
  exact h.allowed hsuffix

/-- A call by a running program. -/
theorem Followed.exchange (h : Followed rule entries config) {actor : Nat} {request : Call}
    {next : Answer request → Program Call Answer Unit}
    (hactor : config.threads[actor]? = some (.call request next)) {answer : Answer request}
    {after : World} (hrecord : entries after = (actor, ⟨request, answer⟩) :: entries config.world) :
    Followed rule entries ⟨after, config.threads.set actor (next answer)⟩ where
  running {thread rest} hrest := by
    rw [hrecord, thread_log_cons]
    by_cases hsame : actor = thread
    · subst hsame
      have hlength := (List.getElem?_eq_some_iff.mp hactor).1
      rw [List.getElem?_set_self hlength] at hrest
      cases hrest
      rw [if_pos rfl]
      exact (h.running hactor).2 answer
    · rw [List.getElem?_set_ne hsame] at hrest
      rw [if_neg hsame, List.append_nil]
      exact h.running hrest
  unborn {thread} hlength := by
    rw [List.length_set] at hlength
    have hne : actor ≠ thread := by
      rintro rfl
      exact absurd (List.getElem?_eq_some_iff.mp hactor).1 (not_lt.2 hlength)
    rw [hrecord, thread_log_cons, if_neg hne, List.append_nil]
    exact h.unborn hlength
  allowed {thread exchange earlier} hsuffix := by
    rw [hrecord, List.suffix_cons_iff] at hsuffix
    rcases hsuffix with heq | hsuffix
    · cases heq
      exact (h.running hactor).1
    · exact h.allowed hsuffix

/-- One choice keeps to the rule if every program that may be started does. -/
theorem Followed.advance (h : Followed rule entries config) (hrecords : Records execute entries)
    (hstart : ∀ entry, (program entry).Follows rule (fun _ _ => True) [])
    (choice : Choice Env Start) :
    Followed rule entries (config.advance execute program choice) := by
  cases choice with
  | start entry =>
      refine ⟨fun {thread rest} hrest => ?_, fun {thread} hlength => ?_, h.allowed⟩
      · simp only [Config.advance, List.getElem?_append] at hrest
        split at hrest
        · exact h.running hrest
        · next hlength =>
            rw [List.getElem?_singleton] at hrest
            split at hrest
            · cases hrest
              show Program.Follows rule _ _ (threadLog thread (entries config.world))
              rw [h.unborn (not_lt.1 hlength)]
              exact hstart entry
            · cases hrest
      · rw [Config.advance, List.length_append] at hlength
        exact h.unborn (by omega)
  | step actor env =>
      simp only [Config.advance]
      split
      · next request next hactor =>
          split
          · next answer after hexecute => exact h.exchange hactor (hrecords hexecute)
          · exact h
      · exact h

/-- Every call of a run was allowed after the earlier exchanges of its thread. -/
theorem run_follows {world : World} (hrecords : Records execute entries)
    (hinitial : entries world = [])
    (hstart : ∀ entry, (program entry).Follows rule (fun _ _ => True) [])
    (schedule : List (Choice Env Start)) :
    Followed rule entries (run execute program ⟨world, []⟩ schedule) := by
  have hrun {config : Config World Call Answer} (h : Followed rule entries config) :
      Followed rule entries (run execute program config schedule) := by
    induction schedule generalizing config with
    | nil => exact h
    | cons choice rest ih => exact ih (h.advance hrecords hstart choice)
  refine hrun ⟨fun hrest => ?_, fun _ => ?_, fun hsuffix => ?_⟩
  · simp at hrest
  · rw [hinitial]
    rfl
  · rw [hinitial] at hsuffix
    exact absurd (List.suffix_nil.1 hsuffix) (List.cons_ne_nil _ _)

/-- The thread was started with the program and has made the recorded exchanges since. -/
def Runs (entries : World → Entries Call Answer) (config : Config World Call Answer) (thread : Nat)
    (origin : Program Call Answer Unit) : Prop :=
  ∃ rest, config.threads[thread]? = some rest ∧
    Leads origin (threadLog thread (entries config.world)) rest

theorem Leads.exchange {origin : Program Call Answer α} {log : Log Call Answer} {request : Call}
    {next : Answer request → Program Call Answer α} (h : Leads origin log (.call request next))
    (answer : Answer request) : Leads origin (log ++ [⟨request, answer⟩]) (next answer) := by
  generalize hrest : Program.call request next = rest at h
  induction h with
  | refl =>
      subst hrest
      exact .call answer (.refl _)
  | call first _ ih => exact .call first (ih hrest)

/-- A thread goes on with its program whatever is chosen. -/
theorem Runs.advance {thread : Nat} {origin : Program Call Answer Unit}
    (h : Runs entries config thread origin) (hrecords : Records execute entries)
    (choice : Choice Env Start) :
    Runs entries (config.advance execute program choice) thread origin := by
  obtain ⟨rest, hrest, hleads⟩ := h
  have hlength := (List.getElem?_eq_some_iff.mp hrest).1
  cases choice with
  | start entry =>
      refine ⟨rest, ?_, hleads⟩
      rw [Config.advance, List.getElem?_append_left hlength]
      exact hrest
  | step actor env =>
      simp only [Config.advance]
      split
      · next request next hactor =>
          split
          · next answer after hexecute =>
              unfold Runs
              rw [hrecords hexecute, thread_log_cons]
              by_cases hsame : actor = thread
              · subst hsame
                rw [hactor] at hrest
                cases hrest
                rw [if_pos rfl]
                exact ⟨_, List.getElem?_set_self hlength, hleads.exchange answer⟩
              · rw [if_neg hsame, List.append_nil]
                exact ⟨rest, by rw [List.getElem?_set_ne hsame]; exact hrest, hleads⟩
          · exact ⟨rest, hrest, hleads⟩
      · exact ⟨rest, hrest, hleads⟩

/-- A program that a run starts gets the next free thread, and goes on in it. -/
theorem run_runs {world : World} (hrecords : Records execute entries)
    (hinitial : entries world = []) (schedule after : List (Choice Env Start)) (entry : Start) :
    Runs entries (run execute program ⟨world, []⟩ (schedule ++ .start entry :: after))
      (run execute program ⟨world, []⟩ schedule).threads.length (program entry) := by
  have hfree (origin : Program Call Answer Unit) (log : Log Call Answer) :
      origin.Follows (fun _ _ => True) (fun _ _ => True) log := by
    induction origin generalizing log with
    | done value => trivial
    | call request next ih => exact ⟨trivial, fun answer => ih answer _⟩
  have hfollowed : Followed (fun _ _ => True) entries (run execute program ⟨world, []⟩ schedule) :=
    run_follows hrecords hinitial (fun entry => hfree (program entry) []) schedule
  have hafter {config : Config World Call Answer} {thread : Nat}
      (h : Runs entries config thread (program entry)) :
      Runs entries (run execute program config after) thread (program entry) := by
    induction after generalizing config with
    | nil => exact h
    | cons choice rest ih => exact ih (h.advance hrecords choice)
  rw [run_append]
  refine hafter ⟨program entry, ?_, ?_⟩
  · rw [Config.advance, List.getElem?_concat_length]
  · rw [Config.advance, hfollowed.unborn (Nat.le_refl _)]
    exact .refl _

/-- What a choice starts, if it does. -/
def Choice.entry : Choice Env Start → Option Start
  | .start entry => some entry
  | .step _ _ => none

/-- What a schedule starts, in the order of the threads. -/
def starts (schedule : List (Choice Env Start)) : List Start := schedule.filterMap Choice.entry

theorem length_threads {world : World} (schedule : List (Choice Env Start)) :
    (run execute program ⟨world, []⟩ schedule).threads.length = (starts schedule).length := by
  induction schedule using List.reverseRecOn with
  | nil => rfl
  | append_singleton schedule choice ih =>
      rw [run_concat, starts, List.filterMap_append, List.length_append]
      cases choice with
      | start entry =>
          rw [Config.advance, List.length_append, ih]
          rfl
      | step actor env =>
          refine Eq.trans ?_ ih
          simp only [Config.advance]
          split
          · split
            · exact List.length_set
            · rfl
          · rfl

/-- Every thread runs the program that the schedule started in its place. -/
theorem run_started {world : World} (hrecords : Records execute entries)
    (hinitial : entries world = []) {schedule : List (Choice Env Start)} {thread : Nat}
    {entry : Start} (h : (starts schedule)[thread]? = some entry) :
    Runs entries (run execute program ⟨world, []⟩ schedule) thread (program entry) := by
  induction schedule using List.reverseRecOn with
  | nil => cases h
  | append_singleton schedule choice ih =>
      rw [starts, List.filterMap_append, List.getElem?_append] at h
      split at h
      · rw [run_concat]
        exact (ih h).advance hrecords choice
      · next hlength =>
          cases choice with
          | step actor env => cases h
          | start other =>
              rw [show List.filterMap Choice.entry [Choice.start other] = [other] from rfl,
                List.getElem?_singleton] at h
              split at h
              · next hzero =>
                  cases h
                  have hthread : thread = (starts schedule).length := by
                    unfold starts
                    omega
                  rw [hthread, ← length_threads]
                  exact run_runs hrecords hinitial schedule [] entry
              · cases h

/-- A recorded exchange stands in the log of its thread behind the earlier ones. -/
theorem thread_log_of_suffix {entry : Nat × Exchange Call Answer}
    {all earlier : Entries Call Answer} (h : entry :: earlier <:+ all) :
    ∃ later, threadLog entry.1 all = threadLog entry.1 earlier ++ entry.2 :: later := by
  obtain ⟨newer, rfl⟩ := h
  exact ⟨threadLog entry.1 newer, by simp [threadLog]⟩

/-- A world that is nothing but the record of all exchanges, in which every call is answered as the
surroundings like. -/
def record (env : (request : Call) → Answer request) (thread : Nat) (request : Call)
    (entries : Entries Call Answer) : Option (Answer request × Entries Call Answer) :=
  some (env request, (thread, ⟨request, env request⟩) :: entries)

theorem record_records :
    Records (fun env : (request : Call) → Answer request => record env) id := by
  intro env thread request world answer world' h
  cases h
  rfl

end Run

/-! ## Counting exchanges -/

/-- The exchanges of all threads are those of each of them. -/
theorem sum_count_thread_log {threads : Finset Nat} (p : Exchange Call Answer → Bool)
    {entries : Entries Call Answer} (h : ∀ entry ∈ entries, entry.1 ∈ threads) :
    ∑ thread ∈ threads, (threadLog thread entries).countP p =
      (entries.map Prod.snd).countP p := by
  induction entries with
  | nil => simp [threadLog]
  | cons entry entries ih =>
      rw [List.forall_mem_cons] at h
      have hone : ∑ thread ∈ threads,
          (if entry.1 = thread then [entry.2] else []).countP p = [entry.2].countP p := by
        rw [Finset.sum_eq_single entry.1]
        · rw [if_pos rfl]
        · intro thread _ hne
          rw [if_neg hne.symm]
          rfl
        · exact fun hnot => absurd h.1 hnot
      simp only [thread_log_cons, List.countP_append]
      rw [Finset.sum_add_distrib, ih h.2, hone, List.countP_singleton,
        List.map_cons, List.countP_cons]

/-- What is bounded for each thread is bounded for all of them. -/
theorem count_le_of_threads {p q : Exchange Call Answer → Bool} {entries : Entries Call Answer}
    (h : ∀ thread, (threadLog thread entries).countP p ≤ (threadLog thread entries).countP q) :
    (entries.map Prod.snd).countP p ≤ (entries.map Prod.snd).countP q := by
  have hmem (entry) (hentry : entry ∈ entries) : entry.1 ∈ (entries.map Prod.fst).toFinset :=
    List.mem_toFinset.2 (List.mem_map_of_mem hentry)
  rw [← sum_count_thread_log p hmem, ← sum_count_thread_log q hmem]
  exact Finset.sum_le_sum fun thread _ => h thread

end Interaction
