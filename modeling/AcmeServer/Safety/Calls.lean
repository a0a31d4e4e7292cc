import AcmeServer.Protocol.Knowledge

/-!
# Rules for the calls of the server

How to reason about a program of the server call by call. A read tells what is stored at the moment
it is made (`safe_lookup`). A host call may be answered by anything, except that a fresh ID belongs
to its thread (`safe_new_id`). A writing call has to be permitted where it is made (`safe_store`).
Each rule comes in two forms, for programs and for the handlers that may refuse their request.
-/

namespace AcmeServer.Safety

open Interaction Interaction.Contract Memstore Protocol

variable {s : Server} {thread : Nat} {w : World} {α β : Type} {st : RequestState}

/-! ## Host calls -/

/-- A host call that needs no permission. -/
theorem harmless_ask {c : HostCall} (h : ∀ thread w, Permitted s w thread (.host c)) :
    s.contract.Harmless (ask c) :=
  ⟨rfl, fun thread w _ => h thread w, fun _ => trivial⟩

theorem safe_ask {c : HostCall} {next : c.Answer → Prog α} {post : α → World → Prop}
    (hfree : ∀ thread w, Permitted s w thread (.host c))
    (h : ∀ answer seen, s.contract.Rely thread w seen → s.contract.Inv seen →
      s.contract.Safe thread (next answer) post seen) :
    s.contract.Safe thread (ask c >>= next) post w :=
  safe_bind ((harmless_ask hfree).safe h)

theorem achieves_ask {c : HostCall} {next : c.Answer → Handler α}
    {post : α → RequestState → World → Prop}
    (hfree : ∀ thread w, Permitted s w thread (.host c))
    (h : ∀ answer seen, s.contract.Rely thread w seen → s.contract.Inv seen →
      s.contract.Achieves thread (next answer) st post seen) :
    s.contract.Achieves thread (liftM (ask c) >>= next) st post w :=
  achieves_bind (achieves_lift ((harmless_ask hfree).safe h))

/-- A host call that the program remembers: the history has its answer. -/
theorem safe_ask_noted {c : HostCall} {next : c.Answer → Prog α} {post : α → World → Prop}
    (hpermitted : ∀ seen, s.contract.Rely thread w seen → s.contract.Inv seen →
      Permitted s seen thread (.host c))
    (h : ∀ answer seen after, s.contract.Rely thread w seen → s.contract.Inv seen →
      s.contract.Rely thread seen after → s.contract.Inv after →
      ⟨thread, seen.store, .host c, answer⟩ ∈ after.history →
      s.contract.Safe thread (next answer) post after) :
    s.contract.Safe thread (ask c >>= next) post w := by
  refine safe_call hpermitted fun seen env answer after hrely hinv hmove hexecute => ?_
  refine h answer seen after hrely hinv (hmove.rely (.inr rfl)) hmove.inv ?_
  rw [(executed_of_execute hexecute).history_eq]
  exact List.mem_cons_self

theorem achieves_ask_noted {c : HostCall} {next : c.Answer → Handler α}
    {post : α → RequestState → World → Prop}
    (hpermitted : ∀ seen, s.contract.Rely thread w seen → s.contract.Inv seen →
      Permitted s seen thread (.host c))
    (h : ∀ answer seen after, s.contract.Rely thread w seen → s.contract.Inv seen →
      s.contract.Rely thread seen after → s.contract.Inv after →
      ⟨thread, seen.store, .host c, answer⟩ ∈ after.history →
      s.contract.Achieves thread (next answer) st post after) :
    s.contract.Achieves thread (liftM (ask c) >>= next) st post w := by
  refine achieves_bind (achieves_lift ?_)
  have hask : s.contract.Safe thread (ask c >>= pure) (fun answer after =>
      s.contract.Achieves thread (next answer) st post after) w := by
    refine safe_ask_noted hpermitted fun answer seen after hseen hinv hafter hinv' hnoted => ?_
    exact safe_done fun final hfinal _ =>
      Safe.mono (h answer seen after hseen hinv hafter hinv' hnoted) hfinal
  rwa [bind_pure] at hask

/-- Reading the clock while the stored contents have a property. -/
theorem safe_now {next : Time → Prog α} {post : α → World → Prop} {P : Store → Prop}
    (hP : ∀ seen, s.contract.Rely thread w seen → s.contract.Inv seen → P seen.store)
    (h : ∀ now seen, s.contract.Rely thread w seen → s.contract.Inv seen →
      ReadClock seen thread now P → s.contract.Safe thread (next now) post seen) :
    s.contract.Safe thread (ask .now >>= next) post w := by
  refine safe_ask_noted (by intros; trivial) ?_
  intro now seen after hseen hinv hafter hinv' hnoted
  exact h now after (hseen.trans hafter) hinv' ⟨_, hnoted, rfl, rfl, hP seen hseen hinv⟩

/-- A handler that reads the clock. -/
theorem achieves_now {next : Time → Handler α} {post : α → RequestState → World → Prop}
    (h : ∀ now seen, s.contract.Rely thread w seen → s.contract.Inv seen →
      ReadClock seen thread now (fun _ => True) →
      s.contract.Achieves thread (next now) st post seen) :
    s.contract.Achieves thread (liftM (ask .now) >>= next) st post w := by
  refine achieves_ask_noted (by intros; trivial) ?_
  intro now seen after hseen hinv hafter hinv' hnoted
  exact h now after (hseen.trans hafter) hinv' ⟨_, hnoted, rfl, rfl, trivial⟩

/-- A fresh ID was never drawn before, and the thread owns it from then on. -/
theorem safe_new_id {post : Option String → World → Prop}
    (hnone : ∀ after, s.contract.Rely thread w after → s.contract.Inv after → post none after)
    (hsome : ∀ id seen after, s.contract.Rely thread w seen → s.contract.Inv seen →
      s.contract.Rely thread seen after → s.contract.Inv after → id ≠ "" →
      (∀ e ∈ seen.history, e.draws ≠ some id) → Owns after thread id → post (some id) after) :
    s.contract.Safe thread (ask .newID) post w := by
  refine safe_call (fun _ _ _ => trivial) fun seen env answer after hrely hinv hmove hexecute => ?_
  have hexecuted := executed_of_execute hexecute
  have hnext : s.contract.Rely thread seen after := hmove.rely (.inr rfl)
  refine safe_done fun final hfinal hfinalInv => ?_
  cases answer with
  | none => exact hnone final ((hrely.trans hnext).trans hfinal) hfinalInv
  | some id =>
      have hdraws : Event.draws ⟨thread, seen.store, .host .newID, some id⟩ = some id := rfl
      obtain ⟨hid, hfresh⟩ := hexecuted.draws_new hdraws
      refine hsome id seen final hrely hinv (hnext.trans hfinal) hfinalInv hid hfresh
        (owns_stable hfinal ⟨⟨_, ?_, rfl, hdraws⟩, ?_⟩)
      · rw [hexecuted.history_eq]
        exact List.mem_cons_self
      · -- Whatever was enqueued before had an ID that was drawn before.
        intro e he task htask hsame
        rw [hexecuted.history_eq] at he
        rcases List.mem_cons.mp he with rfl | hold
        · cases htask
        · obtain ⟨d, hd, hdraw, _⟩ := hinv.ids.enqueued hold htask
          exact hfresh d hd (hsame ▸ hdraw)

/-- A handler that draws an ID and gives up if there is none. -/
theorem achieves_new_id {p : Problem} {next : Option String → Handler α}
    {post : α → RequestState → World → Prop} (hnone : next none = throw p)
    (hsome : ∀ id seen after, s.contract.Rely thread w seen → s.contract.Inv seen →
      s.contract.Rely thread seen after → s.contract.Inv after → id ≠ "" →
      (∀ e ∈ seen.history, e.draws ≠ some id) → Owns after thread id →
      s.contract.Achieves thread (next (some id)) st post after) :
    s.contract.Achieves thread (liftM (ask .newID) >>= next) st post w := by
  refine achieves_bind (achieves_lift (safe_new_id (fun after _ _ => ?_) ?_))
  · rw [hnone]
    exact achieves_throw
  · exact hsome

/-! ## Reads -/

/-- The call looks up a record and does nothing else. -/
structure Reads (c : StoreCall) (lookup : Store → Option c.Value) : Prop where
  pure : c.mutates = false
  result : ∀ (store : Store) (env : CallEnv),
    (store.apply env c).1.result = readResult env.ctx (lookup store)

theorem reads_account (id : String) : Reads (.account id) fun store => store.accounts.lookup id :=
  ⟨rfl, fun _ _ => apply_account id⟩

theorem reads_order (id : String) : Reads (.order id) fun store => store.orders.lookup id :=
  ⟨rfl, fun _ _ => apply_order id⟩

theorem reads_authorization (id : String) :
    Reads (.authorization id) fun store => store.authzs.lookup id :=
  ⟨rfl, fun _ _ => apply_authorization id⟩

theorem reads_challenge (id : String) :
    Reads (.challenge id) fun store => store.challenges.lookup id :=
  ⟨rfl, fun _ _ => apply_challenge id⟩

theorem reads_certificate (id : String) :
    Reads (.certificate id) fun store => store.certificates.lookup id :=
  ⟨rfl, fun _ _ => apply_certificate id⟩

/-- A method that only reads enqueues nothing. -/
theorem read_quiet {c : StoreCall} (h : c.mutates = false) : (Call.store c).enqueues = none := by
  cases c <;> first | rfl | cases h

/-- A method that only reads needs no permission. -/
theorem read_permitted {c : StoreCall} (h : c.mutates = false) :
    Permitted s w thread (.store c) := by
  cases c <;> trivial

theorem harmless_fetch {c : StoreCall} (h : c.mutates = false) :
    s.contract.Harmless (fetch c) :=
  ⟨read_quiet h, fun _ _ _ => read_permitted h, fun _ => trivial⟩

theorem harmless_store {c : StoreCall} (hquiet : (Call.store c).enqueues = none)
    (h : ∀ thread w, Permitted s w thread (.store c)) : s.contract.Harmless (callStore c) :=
  ⟨hquiet, fun thread w _ => h thread w, fun _ => trivial⟩

/-- A read that the program remembers: the history has its reply. -/
theorem achieves_fetch_noted {c : StoreCall} (hread : c.mutates = false)
    {next : Except StoreError c.Value → Handler α} {post : α → RequestState → World → Prop}
    (h : ∀ seen reply after, s.contract.Rely thread w after → s.contract.Inv after →
      ⟨thread, seen, .store c, reply⟩ ∈ after.history →
      s.contract.Achieves thread (next reply.result) st post after) :
    s.contract.Achieves thread (liftM (fetch c) >>= next) st post w := by
  refine achieves_bind (achieves_lift (safe_call (fun _ _ _ => read_permitted hread) ?_))
  intro seen env reply after hrely hinv hmove hexecute
  have hafter := hrely.trans (hmove.rely (.inr (read_quiet hread)))
  have hnoted : ⟨thread, seen.store, .store c, reply⟩ ∈ after.history := by
    rw [(executed_of_execute hexecute).history_eq]
    exact List.mem_cons_self
  exact safe_done fun final hfinal _ =>
    Safe.mono (h seen.store reply after hafter hmove.inv hnoted) hfinal

/-- Reading a record: the answer is what is stored at that moment. -/
theorem safe_lookup {c : StoreCall} {lookup : Store → Option c.Value} (hreads : Reads c lookup)
    {next : Except StoreError c.Value → Prog α} {post : α → World → Prop}
    (h : ∀ result seen, s.contract.Rely thread w seen → s.contract.Inv seen →
      (∀ v, result = .ok v → lookup seen.store = some v) →
      (∀ err, result = .error err →
        (err = .notFound ∧ lookup seen.store = none) ∨ ∃ cause, err = .context cause) →
      s.contract.Safe thread (next result) post seen) :
    s.contract.Safe thread (fetch c >>= next) post w := by
  refine safe_quiet (read_quiet hreads.pure) (fun _ _ _ => read_permitted hreads.pure) ?_
  intro seen env answer after hrely hinv hexecute
  simp only [execute] at hexecute
  split at hexecute
  · cases hexecute
    have hresult := hreads.result seen.store env.toCallEnv
    refine h _ seen hrely hinv (fun v hv => ?_) fun err herr => ?_
    · rw [hresult, read_result_ok] at hv
      exact hv.2
    · rw [hresult] at herr
      exact read_result_error herr
  · cases hexecute

theorem achieves_read {c : StoreCall} {lookup : Store → Option c.Value} (hreads : Reads c lookup)
    {next : Except StoreError c.Value → Handler α} {post : α → RequestState → World → Prop}
    (h : ∀ result seen, s.contract.Rely thread w seen → s.contract.Inv seen →
      (∀ v, result = .ok v → lookup seen.store = some v) →
      s.contract.Achieves thread (next result) st post seen) :
    s.contract.Achieves thread (liftM (fetch c) >>= next) st post w := by
  refine achieves_bind (achieves_lift ?_)
  have hread : s.contract.Safe thread (fetch c >>= pure) (fun result after =>
      s.contract.Achieves thread (next result) st post after) w := by
    refine safe_lookup hreads fun result seen hrely hinv hok _ => ?_
    exact safe_done fun after hafter _ => Safe.mono (h result seen hrely hinv hok) hafter
  rwa [bind_pure] at hread

/-- Reading a record that a handler cannot do without. -/
theorem achieves_lookup {c : StoreCall} {lookup : Store → Option c.Value} (hreads : Reads c lookup)
    {problem : StoreError → Problem} {next : c.Value → Handler α}
    {post : α → RequestState → World → Prop}
    (h : ∀ v seen, s.contract.Rely thread w seen → s.contract.Inv seen →
      lookup seen.store = some v → s.contract.Achieves thread (next v) st post seen) :
    s.contract.Achieves thread (do
      let result ← liftM (fetch c)
      let v ← Attempt.expect (result.mapError problem)
      next v) st post w := by
  refine achieves_read hreads fun result seen hrely hinv hok => ?_
  refine achieves_bind (achieves_expect fun v after hafter _ hv => ?_)
  cases result with
  | error e => cases hv
  | ok v' =>
      cases hv
      exact Safe.mono (h v seen hrely hinv (hok v rfl)) hafter

/-! ## Writes -/

/-- A writing call that the program remembers: the history has its reply. -/
theorem safe_store_noted {c : StoreCall} {next : Reply c → Prog α} {post : α → World → Prop}
    (hpermitted : ∀ seen, s.contract.Rely thread w seen → s.contract.Inv seen →
      Permitted s seen thread (.store c))
    (h : ∀ env seen after, s.contract.Rely thread w seen → s.contract.Inv seen →
      s.contract.Inv after → s.contract.Later seen after → env.Fits seen.store →
      after.store = seen.store.after env c →
      after.history = ⟨thread, seen.store, .store c, (seen.store.apply env c).1⟩ :: seen.history →
      s.contract.Safe thread (next (seen.store.apply env c).1) post after) :
    s.contract.Safe thread (callStore c >>= next) post w := by
  refine safe_call hpermitted fun seen env answer after hrely hinv hmove hexecute => ?_
  have hnext := h env.toCallEnv seen after hrely hinv hmove.inv hmove.later
  simp only [execute] at hexecute
  split at hexecute
  · rename_i hfits
    cases hexecute
    exact hnext hfits rfl rfl
  · cases hexecute

/-- A writing call: it is permitted where it is made, and the program goes on in the world it
leaves. -/
theorem safe_store {c : StoreCall} {next : Reply c → Prog α} {post : α → World → Prop}
    (hpermitted : ∀ seen, s.contract.Rely thread w seen → s.contract.Inv seen →
      Permitted s seen thread (.store c))
    (h : ∀ env seen after, s.contract.Rely thread w seen → s.contract.Inv seen →
      s.contract.Inv after → s.contract.Later seen after → env.Fits seen.store →
      after.store = seen.store.after env c →
      s.contract.Safe thread (next (seen.store.apply env c).1) post after) :
    s.contract.Safe thread (callStore c >>= next) post w := by
  refine safe_store_noted hpermitted fun env seen after hseen hinv hinv' hlater hfits hstore _ => ?_
  exact h env seen after hseen hinv hinv' hlater hfits hstore

/-- A writing call of a handler. -/
theorem achieves_store {c : StoreCall} {next : Reply c → Handler α}
    {post : α → RequestState → World → Prop}
    (hpermitted : ∀ seen, s.contract.Rely thread w seen → s.contract.Inv seen →
      Permitted s seen thread (.store c))
    (h : ∀ env seen after, s.contract.Rely thread w seen → s.contract.Inv seen →
      s.contract.Inv after → s.contract.Later seen after → env.Fits seen.store →
      after.store = seen.store.after env c →
      s.contract.Achieves thread (next (seen.store.apply env c).1) st post after) :
    s.contract.Achieves thread (liftM (callStore c) >>= next) st post w := by
  refine achieves_bind (achieves_lift ?_)
  have hcall : s.contract.Safe thread (callStore c >>= pure) (fun reply after =>
      s.contract.Achieves thread (next reply) st post after) w := by
    refine safe_store hpermitted fun env seen after hrely hinv hafter hlater hfits hstore => ?_
    exact safe_done fun final hfinal _ =>
      Safe.mono (h env seen after hrely hinv hafter hlater hfits hstore) hfinal
  rwa [bind_pure] at hcall

/-- A finalized order is stored. -/
theorem finalize_order_stored {store store' : Store} {f : Finalization}
    (h : Commit store (.finalizeOrder f) store') :
    store'.orders.lookup f.order.id = some f.order.revised := by
  cases h with
  | finalizeOrder _ _ _ _ _ _ => exact Finmap.lookup_insert _
  | read _ hread => cases hread

/-- An updated certificate is stored. -/
theorem update_certificate_stored {store store' : Store} {c : Certificate}
    (h : Commit store (.updateCertificate c) store') :
    store'.certificates.lookup c.id = some c.revised := by
  cases h with
  | updateCertificate _ _ _ _ => exact Finmap.lookup_insert _
  | read _ hread => cases hread

/-- The caller's copy of an updated certificate has the new revision. -/
theorem update_certificate_reply {store : Store} {env : CallEnv} {c : Certificate} {u : Unit}
    (h : (store.apply env (.updateCertificate c)).1.result = .ok u) :
    (store.apply env (.updateCertificate c)).1.args = c.revised :=
  (update_certificate_commit (exec_of_ok h)).2

/-- A dispatched order is stored. -/
theorem begin_issuance_stored {store store' : Store} {d : Dispatch}
    (h : Commit store (.beginIssuance d) store') :
    store'.orders.lookup d.order.id = some d.order.revised := by
  cases h with
  | beginIssuance _ _ _ _ _ _ _ _ _ _ _ _ _ _ _ _ _ => exact Finmap.lookup_insert _
  | read _ hread => cases hread

/-- The caller's copy of a dispatched order has the new revision. -/
theorem begin_issuance_reply {store : Store} {env : CallEnv} {d : Dispatch} {u : Unit}
    (h : (store.apply env (.beginIssuance d)).1.result = .ok u) :
    (store.apply env (.beginIssuance d)).1.args.order = d.order.revised := by
  have hargs := (begin_issuance_commit (exec_of_ok h)).2
  exact congrArg Dispatch.order hargs

/-- A finished attempt that promises nothing. -/
theorem achieves_any {m : Handler α} (h : s.contract.HarmlessAttempt m) :
    s.contract.Achieves thread m st (fun _ _ _ => True) w :=
  h.achieves fun _ _ _ _ _ => trivial

end AcmeServer.Safety
