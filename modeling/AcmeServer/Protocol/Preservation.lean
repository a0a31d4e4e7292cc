import AcmeServer.Interaction.Rely
import AcmeServer.Memstore.Revision
import AcmeServer.Protocol.Change

/-!
# Permitted calls keep the invariant

`Server.contract` packs permissions and invariant into a contract for the programs of the server.
Its proof obligation `invariant_preserved` is assembled from what a commit does to the store
(`commit_keyed`, `commit_coherent`, `commit_advances`) and from lemmas about the history, one for
each part of the invariant.
-/

namespace AcmeServer.Protocol

open Memstore Lifecycle

variable {s : Server} {w w' : World} {thread : Nat} {st' : Store} {c : StoreCall}

/-! ## Calls and the history -/

/-- What executing a call does to the world. -/
inductive Executed (w : World) (thread : Nat) : (call : Call) → call.Answer → World → Prop where
  | host (c : HostCall) (answer : c.Answer) (hadmits : w.admits c answer) :
      Executed w thread (.host c) answer
        ⟨w.store, ⟨thread, w.store, .host c, answer⟩ :: w.history⟩
  | failed (c : StoreCall) (reply : Reply c) (e : StoreError) (herror : reply.result = .error e) :
      Executed w thread (.store c) reply
        ⟨w.store, ⟨thread, w.store, .store c, reply⟩ :: w.history⟩
  | committed (c : StoreCall) (reply : Reply c) (v : c.Value) (st' : Store)
      (hok : reply.result = .ok v) (hcommit : Commit w.store c st') :
      Executed w thread (.store c) reply ⟨st', ⟨thread, w.store, .store c, reply⟩ :: w.history⟩

theorem executed_of_execute {env : Env} {call : Call} {answer : call.Answer}
    (h : execute env thread call w = some (answer, w')) : Executed w thread call answer w' := by
  cases call with
  | store c =>
      simp only [execute] at h
      split at h
      · rename_i hfits
        cases h
        cases hresult : (w.store.apply env.toCallEnv c).1.result with
        | error e =>
            have hsame : (w.store.apply env.toCallEnv c).2 = w.store := (apply_error hresult).1
            rw [hsame]
            exact .failed c _ e hresult
        | ok v => exact .committed c _ v _ hresult (commit_of_ok hfits hresult)
      · cases h
  | host c =>
      simp only [execute] at h
      split at h
      · rename_i hadmits
        cases h
        exact .host c _ hadmits
      · cases h

/-- The history after one more event. -/
theorem Executed.history_eq {call : Call} {answer : call.Answer}
    (h : Executed w thread call answer w') :
    w'.history = ⟨thread, w.store, call, answer⟩ :: w.history := by
  cases h <;> rfl

/-- A call leaves the store alone or commits. -/
theorem Executed.store_cases {call : Call} {answer : call.Answer}
    (h : Executed w thread call answer w') :
    w'.store = w.store ∨ ∃ c, call = .store c ∧ Commit w.store c w'.store := by
  cases h with
  | host => exact .inl rfl
  | failed => exact .inl rfl
  | committed c reply v st' hok hcommit => exact .inr ⟨c, rfl, hcommit⟩

/-! ## IDs -/

/-- An event that draws a new ID, or enqueues a task under an ID of its own thread. -/
theorem ids_cons {history : List Event} {e : Event} (h : IDsOwned history)
    (hdraw : ∀ id, e.draws = some id → ∀ e' ∈ history, e'.draws ≠ some id)
    (henqueue : ∀ task, e.call.enqueues = some task →
      (∃ d ∈ history, d.thread = e.thread ∧ d.draws = some task.id) ∧
        ∀ e' ∈ history, ∀ task', e'.call.enqueues = some task' → task'.id ≠ task.id) :
    IDsOwned (e :: history) where
  drawn {e₁ e₂ id} h₁ h₂ hid₁ hid₂ := by
    rcases List.mem_cons.mp h₁ with rfl | hold₁ <;> rcases List.mem_cons.mp h₂ with rfl | hold₂
    · rfl
    · exact absurd hid₂ (hdraw id hid₁ e₂ hold₂)
    · exact absurd hid₁ (hdraw id hid₂ e₁ hold₁)
    · exact h.drawn hold₁ hold₂ hid₁ hid₂
  enqueued {e₁ task} h₁ htask := by
    rcases List.mem_cons.mp h₁ with rfl | h₁
    · obtain ⟨⟨d, hd, hthread, hid⟩, _⟩ := henqueue task htask
      exact ⟨d, List.mem_cons_of_mem _ hd, hid, hthread⟩
    · obtain ⟨d, hd, hid⟩ := h.enqueued h₁ htask
      exact ⟨d, List.mem_cons_of_mem _ hd, hid⟩
  unique {e₁ e₂ task₁ task₂} h₁ h₂ htask₁ htask₂ hid := by
    rcases List.mem_cons.mp h₁ with rfl | hold₁ <;> rcases List.mem_cons.mp h₂ with rfl | hold₂
    · exact Option.some.inj (htask₁.symm.trans htask₂)
    · exact absurd hid.symm ((henqueue task₁ htask₁).2 e₂ hold₂ task₂ htask₂)
    · exact absurd hid ((henqueue task₂ htask₂).2 e₁ hold₁ task₁ htask₁)
    · exact h.unique hold₁ hold₂ htask₁ htask₂ hid

/-- A permitted call that enqueues a task does so under an ID of its thread. -/
theorem permitted_enqueue {call : Call} {task : Task} (h : Permitted s w thread call)
    (htask : call.enqueues = some task) : Owns w thread task.id := by
  cases call with
  | host c => cases htask
  | store c =>
      cases c with
      | acceptChallenge r =>
          cases htask
          exact ChallengeResponse.owns h
      | finalizeOrder f =>
          cases htask
          exact FinalizationStep.owns h
      | _ => cases htask

/-- An ID that an event draws was not drawn before. -/
theorem Executed.draws_new {call : Call} {answer : call.Answer} {id : String}
    (h : Executed w thread call answer w')
    (hdraw : Event.draws ⟨thread, w.store, call, answer⟩ = some id) :
    id ≠ "" ∧ ∀ e ∈ w.history, e.draws ≠ some id := by
  cases h with
  | host c answer hadmits =>
      cases c with
      | newID =>
          cases show answer = some id from hdraw
          exact hadmits
      | _ => cases hdraw
  | failed => cases hdraw
  | committed => cases hdraw

theorem ids_preserved {call : Call} {answer : call.Answer} (hids : IDsOwned w.history)
    (hpermitted : Permitted s w thread call) (h : Executed w thread call answer w') :
    IDsOwned w'.history := by
  rw [h.history_eq]
  refine ids_cons hids (fun id hdraw => (h.draws_new hdraw).2) fun task htask => ?_
  have howns := permitted_enqueue hpermitted htask
  exact ⟨howns.drawn, howns.unused⟩

/-! ## Commits: tasks, new orders and revocations -/

/-- Two tasks do the same work. -/
def SameWork (t t' : Task) : Prop := t.kind = t'.kind ∧ t.targetID = t'.targetID

/-- An entry of an updated task map. -/
theorem task_of_insert {t : Table Task} {key id : String} {stored n found : Task}
    (hstored : t.lookup key = some stored) (h : (t.insert key n).lookup id = some found)
    (hwork : SameWork stored n) :
    ∃ old, t.lookup id = some old ∧ SameWork old found := by
  rcases Table.lookup_insert_cases h with ⟨rfl, rfl⟩ | ⟨_, hold⟩
  · exact ⟨stored, hstored, hwork⟩
  · exact ⟨found, hold, rfl, rfl⟩

/-- An entry of a task map from which a task was removed. -/
theorem task_of_erase {t : Table Task} {key id : String} {found : Task}
    (h : (t.erase key).lookup id = some found) : t.lookup id = some found := by
  by_cases hid : id = key
  · subst hid
    rw [Finmap.lookup_erase] at h
    cases h
  · rwa [Finmap.lookup_erase_ne hid] at h

/-- A stored task was stored before with the same work, or the call has enqueued it. -/
theorem commit_tasks (hkeyed : Keyed w.store) (h : Commit w.store c st') {id : String} {t' : Task}
    (ht' : st'.tasks.lookup id = some t') :
    (∃ t, w.store.tasks.lookup id = some t ∧ SameWork t t') ∨
      ∃ task, (Call.store c).enqueues = some task ∧ task.id = id ∧ SameWork task t' := by
  cases h with
  | createAccount _ _ _ _ _ _ hst | updateAccount _ _ _ _ _ _ _ hst =>
      subst hst
      exact .inl ⟨t', ht', rfl, rfl⟩
  | createOrder n _ _ _ _ base hbase =>
      obtain ⟨certificates, rfl⟩ := hbase.frame
      obtain ⟨_, _, heq⟩ := add_resources_eq { w.store with certificates := certificates } n.initial
      rw [heq] at ht'
      exact .inl ⟨t', ht', rfl, rfl⟩
  | updateAuthorization a stored =>
      obtain ⟨_, heq, _⟩ := invalidate_order_eq (w.store.putAuthorization a.revised) a.revised
      rw [heq] at ht'
      exact .inl ⟨t', ht', rfl, rfl⟩
  | beginIssuance | updateCertificate | read => exact .inl ⟨t', ht', rfl, rfl⟩
  | acceptChallenge r =>
      rcases Table.lookup_insert_cases ht' with ⟨rfl, rfl⟩ | ⟨_, hold⟩
      · exact .inr ⟨r.task, rfl, rfl, rfl, rfl⟩
      · exact .inl ⟨t', hold, rfl, rfl⟩
  | finalizeOrder f =>
      rcases Table.lookup_insert_cases ht' with ⟨rfl, rfl⟩ | ⟨_, hold⟩
      · exact .inr ⟨f.task, rfl, rfl, rfl, rfl⟩
      · exact .inl ⟨t', hold, rfl, rfl⟩
  | claimTask _ _ t hstored =>
      exact .inl (task_of_insert (lookup_of_mem_values hkeyed.tasks hstored) ht' ⟨rfl, rfl⟩)
  | rescheduleTask t stored hstored => exact .inl (task_of_insert hstored ht' ⟨rfl, rfl⟩)
  | retryValidation r stored challenge hstored =>
      exact .inl (task_of_insert hstored ht' ⟨rfl, rfl⟩)
  | finishTask | completeValidation => exact .inl ⟨t', task_of_erase ht', rfl, rfl⟩
  | completeIssuance i _ _ _ _ _ _ base hbase =>
      obtain ⟨certificates, certByRenewal, rfl⟩ := hbase.frame
      exact .inl ⟨t', task_of_erase ht', rfl, rfl⟩

/-- No order, authorization or challenge is added. -/
structure NothingAdded (st st' : Store) : Prop where
  orders : ∀ id, st.orders.lookup id = none → st'.orders.lookup id = none
  authzs : ∀ id, st.authzs.lookup id = none → st'.authzs.lookup id = none
  challenges : ∀ id, st.challenges.lookup id = none → st'.challenges.lookup id = none

/-- The order is added with its authorizations and challenges. -/
structure Created (st : Store) (n : NewOrder) (st' : Store) : Prop where
  orders : st'.orders = st.orders.insert n.order.id n.initial.order
  authzs : st'.authzs = Table.insertAll Authorization.id st.authzs n.initial.authzs
  challenges : st'.challenges = Table.insertAll Challenge.id st.challenges n.initial.challenges
  newAuthzs : ∀ a ∈ n.authzs, st.authzs.lookup a.id = none
  newChallenges : ∀ c ∈ n.challenges, st.challenges.lookup c.id = none

/-- Replacing an entry adds none. -/
theorem lookup_insert_none {V : Type} {t : Table V} {key id : String} {v new : V}
    (hv : t.lookup key = some v) (h : t.lookup id = none) :
    (t.insert key new).lookup id = none := by
  have hother : id ≠ key := by
    rintro rfl
    rw [hv] at h
    cases h
  rw [Finmap.lookup_insert_of_ne t hother, h]

/-- Only the creation of an order adds resources. -/
theorem commit_adds {st : Store} (h : Commit st c st') :
    NothingAdded st st' ∨ ∃ n, c = .createOrder n ∧ Created st n st' := by
  cases h with
  | createAccount _ _ _ _ _ _ hst | updateAccount _ _ _ _ _ _ _ hst =>
      subst hst
      exact .inl ⟨fun _ => id, fun _ => id, fun _ => id⟩
  | createOrder n _ _ hauthzs hchallenges base hbase =>
      obtain ⟨certificates, rfl⟩ := hbase.frame
      obtain ⟨_, _, heq⟩ := add_resources_eq { st with certificates := certificates } n.initial
      rw [heq]
      exact .inr ⟨n, rfl, rfl, rfl, rfl, fun a ha => (hauthzs a ha).1,
        fun ch hch => (hchallenges ch hch).1⟩
  | updateAuthorization a stored hstored =>
      refine .inl ⟨fun id hnone => ?_, fun id hnone => ?_, fun id hnone => ?_⟩
      · unfold Store.invalidateOrder
        split
        · split
          · rename_i o ho
            exact lookup_insert_none ho hnone
          · exact hnone
        · exact hnone
      · obtain ⟨_, heq, _⟩ := invalidate_order_eq (st.putAuthorization a.revised) a.revised
        rw [heq]
        exact lookup_insert_none hstored hnone
      · obtain ⟨_, heq, _⟩ := invalidate_order_eq (st.putAuthorization a.revised) a.revised
        rw [heq]
        exact hnone
  | beginIssuance d task stored _ _ _ _ hstored =>
      exact .inl ⟨fun _ => lookup_insert_none hstored, fun _ => id, fun _ => id⟩
  | finalizeOrder f stored hstored =>
      exact .inl ⟨fun _ => lookup_insert_none hstored, fun _ => id, fun _ => id⟩
  | acceptChallenge r stored hstored =>
      exact .inl ⟨fun _ => id, fun _ => id, fun _ => lookup_insert_none hstored⟩
  | retryValidation r stored challenge _ _ hchallenge =>
      exact .inl ⟨fun _ => id, fun _ => id, fun _ => lookup_insert_none hchallenge⟩
  | completeValidation v _ challenge authz order _ _ hchallenge _ hauthz _ horder =>
      exact .inl ⟨fun _ => lookup_insert_none horder, fun _ => lookup_insert_none hauthz,
        fun _ => lookup_insert_none hchallenge⟩
  | completeIssuance i _ order _ _ horder _ base hbase =>
      obtain ⟨certificates, certByRenewal, rfl⟩ := hbase.frame
      exact .inl ⟨fun _ => lookup_insert_none horder, fun _ => id, fun _ => id⟩
  | updateCertificate | claimTask | rescheduleTask | finishTask | read =>
      exact .inl ⟨fun _ => id, fun _ => id, fun _ => id⟩

/-- An order that was not stored before was just created. -/
theorem commit_new_order {st : Store} (h : Commit st c st') {id : String} {o' : Order}
    (hnew : st.orders.lookup id = none) (ho' : st'.orders.lookup id = some o') :
    ∃ n, c = .createOrder n ∧ Created st n st' ∧ n.order.id = id ∧ o' = n.initial.order := by
  rcases commit_adds h with hnothing | ⟨n, rfl, hcreated⟩
  · rw [hnothing.orders id hnew] at ho'
    cases ho'
  · rw [hcreated.orders] at ho'
    rcases Table.lookup_insert_cases ho' with ⟨rfl, rfl⟩ | ⟨_, hold⟩
    · exact ⟨n, rfl, hcreated, rfl, rfl⟩
    · rw [hnew] at hold
      cases hold

/-- An authorization that was not stored before came with a new order. -/
theorem commit_new_authorization {st : Store} (h : Commit st c st') {id : String}
    {a' : Authorization} (hnew : st.authzs.lookup id = none)
    (ha' : st'.authzs.lookup id = some a') :
    ∃ n, c = .createOrder n ∧ Created st n st' ∧
      ∃ a ∈ n.authzs, a.id = id ∧ a' = { a with revision := 1 } := by
  rcases commit_adds h with hnothing | ⟨n, rfl, hcreated⟩
  · rw [hnothing.authzs id hnew] at ha'
    cases ha'
  · have hlookup := ha'
    rw [hcreated.authzs] at hlookup
    rcases Table.lookup_insert_all hlookup with ⟨hmem, hid⟩ | ⟨_, hold⟩
    · obtain ⟨a, ha, rfl⟩ := List.mem_map.mp hmem
      exact ⟨n, rfl, hcreated, a, ha, hid, rfl⟩
    · rw [hnew] at hold
      cases hold

/-- A challenge that was not stored before came with a new order. -/
theorem commit_new_challenge {st : Store} (h : Commit st c st') {id : String} {ch' : Challenge}
    (hnew : st.challenges.lookup id = none) (hch' : st'.challenges.lookup id = some ch') :
    ∃ n, c = .createOrder n ∧ Created st n st' ∧
      ∃ ch ∈ n.challenges, ch.id = id ∧ ch' = { ch with revision := 1 } := by
  rcases commit_adds h with hnothing | ⟨n, rfl, hcreated⟩
  · rw [hnothing.challenges id hnew] at hch'
    cases hch'
  · have hlookup := hch'
    rw [hcreated.challenges] at hlookup
    rcases Table.lookup_insert_all hlookup with ⟨hmem, hid⟩ | ⟨_, hold⟩
    · obtain ⟨ch, hch, rfl⟩ := List.mem_map.mp hmem
      exact ⟨n, rfl, hcreated, ch, hch, hid, rfl⟩
    · rw [hnew] at hold
      cases hold

/-- Where a certificate that is stored after a call comes from. -/
inductive CertificateOrigin (st : Store) : StoreCall → String → Certificate → Prop where
  | kept {c : StoreCall} {id : String} {cert : Certificate}
      (hcert : st.certificates.lookup id = some cert) : CertificateOrigin st c id cert
  | claimed {n : NewOrder} {id : String} {cert : Certificate} (hreplaces : n.order.replaces ≠ "")
      (hindex : st.certByRenewal.lookup n.order.replaces = some id)
      (hcert : st.certificates.lookup id = some cert)
      (hprevious : ∀ previous, st.orders.lookup cert.replacedByOrderID = some previous →
        previous.statusAt n.order.createdAt = .invalid) :
      CertificateOrigin st (.createOrder n) id
        { cert.revised with replacedByOrderID := n.order.id }
  | updated {cert stored : Certificate} (hstored : st.certificates.lookup cert.id = some stored)
      (hrevision : stored.revision = cert.revision) :
      CertificateOrigin st (.updateCertificate cert) cert.id cert.revised
  | published {i : IssuanceOutcome} {cert : Certificate}
      (hnew : st.certificates.lookup cert.id = none) (hopen : cert.revoked = false)
      (hunrecorded : cert.revocationOperationID = "") :
      CertificateOrigin st (.completeIssuance i) cert.id { cert with revision := 1 }

/-- An entry of an updated certificate map. -/
theorem origin_of_insert {st : Store} {key id : String} {n found : Certificate}
    (h : (st.certificates.insert key n).lookup id = some found)
    (hn : CertificateOrigin st c key n) : CertificateOrigin st c id found := by
  rcases Table.lookup_insert_cases h with ⟨rfl, rfl⟩ | ⟨_, hold⟩
  · exact hn
  · exact .kept hold

theorem commit_certificate (hpermitted : Permitted s w thread (.store c))
    (h : Commit w.store c st') {id : String} {cert' : Certificate}
    (hcert' : st'.certificates.lookup id = some cert') : CertificateOrigin w.store c id cert' := by
  cases h with
  | createAccount _ _ _ _ _ _ hst | updateAccount _ _ _ _ _ _ _ hst =>
      subst hst
      exact .kept hcert'
  | createOrder n _ _ _ _ base hbase =>
      obtain ⟨_, _, heq⟩ := add_resources_eq base n.initial
      rw [heq] at hcert'
      cases hbase with
      | nothing => exact .kept hcert'
      | claimed key cert hreplaces hindex hcert hprevious =>
          exact origin_of_insert hcert' (.claimed hreplaces hindex hcert hprevious)
  | updateAuthorization a stored =>
      obtain ⟨_, heq, _⟩ := invalidate_order_eq (w.store.putAuthorization a.revised) a.revised
      rw [heq] at hcert'
      exact .kept hcert'
  | updateCertificate cert stored hstored hrevision =>
      exact origin_of_insert hcert' (.updated hstored hrevision)
  | completeIssuance i stored order hstored hfence horder hrevision base hbase =>
      obtain ⟨_, _, _, hconcludes⟩ := hpermitted stored hstored hfence order horder hrevision
      generalize i.cert = published at hbase hconcludes
      cases hbase with
      | nothing => exact .kept hcert'
      | added cert _ hnew _ =>
          obtain ⟨_, _, hopen, hunrecorded, _⟩ := hconcludes
          exact origin_of_insert hcert' (.published hnew hopen hunrecorded)
  | beginIssuance | acceptChallenge | finalizeOrder | claimTask | rescheduleTask | retryValidation
  | finishTask | completeValidation | read => exact .kept hcert'

/-- A certificate becomes revoked only after the revoker has accepted what it records. -/
theorem commit_revokes (hpermitted : Permitted s w thread (.store c)) (h : Commit w.store c st')
    {id : String} {cert' : Certificate} (hcert' : st'.certificates.lookup id = some cert')
    (hrevoked : cert'.revoked = true) :
    Accepted s w.history cert' ∨
      ∃ cert, w.store.certificates.lookup id = some cert ∧ cert.revoked = true := by
  cases commit_certificate hpermitted h hcert' with
  | kept hcert => exact .inr ⟨cert', hcert, hrevoked⟩
  | claimed _ _ hcert _ => exact .inr ⟨_, hcert, hrevoked⟩
  | updated hstored hrevision =>
      exact .inl ((hpermitted _ hstored hrevision).2.2.2.1 hrevoked)
  | published _ hopen _ =>
      rw [show _ = true from hrevoked] at hopen
      cases hopen

/-! ## The parts of the invariant -/

variable {call : Call} {answer : call.Answer}

/-- How the stores before and after a permitted call are related. -/
theorem Executed.evolution (h : Executed w thread call answer w') (hinv : Invariant s w)
    (hpermitted : Permitted s w thread call) : Evolution w.store w'.store := by
  rcases h.store_cases with hsame | ⟨c, rfl, hcommit⟩
  · rw [hsame]
    exact .refl _
  · exact (commit_advances hinv.keyed hinv.coherent hpermitted hcommit).evolution

theorem tasks_preserved (h : Executed w thread call answer w') (hinv : Invariant s w) {id : String}
    {t' : Task} (ht' : w'.store.tasks.lookup id = some t') :
    ∃ e ∈ w'.history, ∃ task, e.call.enqueues = some task ∧ task.id = id ∧
      task.kind = t'.kind ∧ task.targetID = t'.targetID := by
  have hold : ∀ t, w.store.tasks.lookup id = some t → SameWork t t' →
      ∃ e ∈ w'.history, ∃ task, e.call.enqueues = some task ∧ task.id = id ∧
        task.kind = t'.kind ∧ task.targetID = t'.targetID := by
    intro t ht ⟨hkind, htarget⟩
    obtain ⟨e, he, task, htask, hid, hkind', htarget'⟩ := hinv.tasks ht
    rw [h.history_eq]
    exact ⟨e, List.mem_cons_of_mem _ he, task, htask, hid, hkind'.trans hkind,
      htarget'.trans htarget⟩
  rcases h.store_cases with hsame | ⟨c, rfl, hcommit⟩
  · rw [hsame] at ht'
    exact hold t' ht' ⟨rfl, rfl⟩
  · rcases commit_tasks hinv.keyed hcommit ht' with ⟨t, ht, hwork⟩ | ⟨task, htask, hid, hwork⟩
    · exact hold t ht hwork
    · rw [h.history_eq]
      exact ⟨_, List.mem_cons_self, task, htask, hid, hwork⟩

theorem dispatched_preserved (h : Executed w thread call answer w') (hinv : Invariant s w)
    (hpermitted : Permitted s w thread call) {id : String} {o' : Order} {state : IssuanceState}
    (ho' : w'.store.orders.lookup id = some o') (hstate : o'.issuance = some state) :
    ∃ e ∈ w'.history, DispatchedBy e id state := by
  have hold : ∀ o, w.store.orders.lookup id = some o → o.issuance = some state →
      ∃ e ∈ w'.history, DispatchedBy e id state := by
    intro o ho hissuance
    obtain ⟨e, he, hdispatched⟩ := hinv.dispatched ho hissuance
    rw [h.history_eq]
    exact ⟨e, List.mem_cons_of_mem _ he, hdispatched⟩
  cases h with
  | host => exact hold o' ho' hstate
  | failed => exact hold o' ho' hstate
  | committed c reply v st' hok hcommit =>
      cases ho : w.store.orders.lookup id with
      | none =>
          obtain ⟨n, rfl, _, _, rfl⟩ := commit_new_order hcommit ho ho'
          cases hpermitted.1.issuance.symm.trans hstate
      | some o =>
          have hadvances := commit_advances hinv.keyed hinv.coherent hpermitted hcommit
          obtain ⟨found, hfound, hchange⟩ := hadvances.orders id o ho
          rw [ho'] at hfound
          cases hfound
          rcases hchange with rfl | hchange
          · exact hold _ ho hstate
          · rcases hchange.dispatch state hstate with hissuance | ⟨d, rfl, hid, hset, hdispatchable⟩
            · exact hold o ho hissuance
            · -- This very call has dispatched the order.
              rw [hinv.keyed.orders id o ho] at hid
              refine ⟨_, List.mem_cons_self, d, o, ?_, hid, hset, ho, hdispatchable⟩
              obtain ⟨result, args⟩ := reply
              cases show result = .ok () from hok
              rfl

theorem issued_after_preserved (h : Executed w thread call answer w') (hinv : Invariant s w)
    (hpermitted : Permitted s w thread call) {e : Event} {earlier : List Event}
    {req : IssueRequest} (hsuffix : e :: earlier <:+ w'.history) (hissues : e.issues = some req) :
    ∃ d ∈ earlier, ∃ state, DispatchedBy d req.orderID state := by
  rw [h.history_eq] at hsuffix
  rcases List.suffix_cons_iff.mp hsuffix with heq | hsuffix
  · cases heq
    cases h with
    | host c answer hadmits =>
        cases c with
        | issue req' =>
            cases hissues
            obtain ⟨_, ⟨o, state, ho, hstate, _⟩, _⟩ := hpermitted
            obtain ⟨d, hd, hdispatched⟩ := hinv.dispatched ho hstate
            exact ⟨d, hd, state, hdispatched⟩
        | _ => cases hissues
    | failed => cases hissues
    | committed => cases hissues
  · exact hinv.issuedAfter hsuffix hissues

/-- The request depends on what no step changes after the dispatch. -/
theorem issue_request_eq {o o' : Order} {state : IssuanceState} {now : Time}
    (hterms : orderTerms o' = orderTerms o) (hcsr : o'.csr = o.csr)
    (hissuance : o'.issuance = o.issuance) :
    s.issueRequestAt o state now = s.issueRequestAt o' state now := by
  obtain ⟨hid, haccount, _, hidentifiers, hnotBefore, hnotAfter, hprofile⟩ := order_fields_eq hterms
  simp only [Server.issueRequestAt, issuedNotAfter, haccount, hid, hidentifiers, hnotBefore,
    hnotAfter, hprofile, hcsr, hissuance]

/-- The request for a dispatched order stays the same. -/
theorem RequestedAt.evolve {st st' : Store} (hevolution : Evolution st st')
    (hcoherent : Coherent (lifecycle st)) {req : IssueRequest} {now : Time}
    (h : RequestedAt s st req now) : RequestedAt s st' req now := by
  obtain ⟨o, state, ho, hstate, hreq⟩ := h
  obtain ⟨o', ho', rfl | hstep⟩ := hevolution.orders _ o ho
  · exact ⟨_, state, ho', hstate, hreq⟩
  · have hset : o.issuance ≠ none := by simp [hstate]
    have hcsr := hstep.csr ((hcoherent.shaped (rows_of_lookup ho)).requested hset)
    have hissuance := hstep.issuance hset
    refine ⟨o', state, ho', hissuance.trans hstate, ?_⟩
    rw [hreq]
    exact issue_request_eq hstep.terms hcsr hissuance

theorem issued_preserved (h : Executed w thread call answer w') (hinv : Invariant s w)
    (hpermitted : Permitted s w thread call) {e : Event} {req : IssueRequest}
    (he : e ∈ w'.history) (hissues : e.issues = some req) : Requested s w'.store req := by
  have hevolution := h.evolution hinv hpermitted
  rw [h.history_eq] at he
  rcases List.mem_cons.mp he with rfl | hold
  · cases h with
    | host c answer hadmits =>
        cases c with
        | issue req' =>
            cases hissues
            obtain ⟨now, hrequested, _⟩ := hpermitted
            exact ⟨now, hrequested⟩
        | _ => cases hissues
    | failed => cases hissues
    | committed => cases hissues
  · obtain ⟨now, hrequested⟩ := hinv.issued hold hissues
    exact ⟨now, hrequested.evolve hevolution hinv.coherent⟩

theorem Accepted.mono {history history' : List Event} (hsub : ∀ e ∈ history, e ∈ history')
    {c : Certificate} (h : Accepted s history c) : Accepted s history' c := by
  obtain ⟨e, he, hrest⟩ := h
  exact ⟨e, hsub e he, hrest⟩

theorem Refused.mono {history history' : List Event} (hsub : ∀ e ∈ history, e ∈ history')
    {id : String} (h : Refused s history id) : Refused s history' id := by
  obtain ⟨e, he, hrest⟩ := h
  exact ⟨e, hsub e he, hrest⟩

/-- Whether a revocation was accepted depends on what a revoked certificate keeps. -/
theorem Accepted.step {history : List Event} {c c' : Certificate} (h : Accepted s history c)
    (hrevoked : c.revoked = true) (hstep : CertificateStep c c') : Accepted s history c' := by
  obtain ⟨e, he, req, hreq, hid, hoperation, hreason⟩ := h
  obtain ⟨_, hoperation', hreason', _⟩ := revocation_kept hstep.revoked hrevoked
  have hid' := congrArg Certificate.id hstep.terms
  exact ⟨e, he, req, hreq, hid.trans hid'.symm, hoperation.trans hoperation'.symm,
    hreason.trans hreason'.symm⟩

theorem revoked_preserved (h : Executed w thread call answer w') (hinv : Invariant s w)
    (hpermitted : Permitted s w thread call) {id : String} {cert' : Certificate}
    (hcert' : w'.store.certificates.lookup id = some cert') (hrevoked : cert'.revoked = true) :
    Accepted s w'.history cert' := by
  have hevolution := h.evolution hinv hpermitted
  have hsub : ∀ e ∈ w.history, e ∈ w'.history := by
    rw [h.history_eq]
    exact fun e he => List.mem_cons_of_mem _ he
  have hold : ∀ cert, w.store.certificates.lookup id = some cert → cert.revoked = true →
      Accepted s w'.history cert' := by
    intro cert hcert hwas
    obtain ⟨found, hfound, hstep⟩ := hevolution.certificates id cert hcert
    rw [hcert'] at hfound
    cases hfound
    have haccepted := (hinv.revoked hcert hwas).mono hsub
    rcases hstep with rfl | hstep
    · exact haccepted
    · exact haccepted.step hwas hstep
  rcases h.store_cases with hsame | ⟨c, rfl, hcommit⟩
  · rw [hsame] at hcert'
    exact hold cert' hcert' hrevoked
  · rcases commit_revokes hpermitted hcommit hcert' hrevoked with haccepted | ⟨cert, hcert, hwas⟩
    · exact haccepted.mono hsub
    · exact hold cert hcert hwas

/-- What was granted stays in the store. -/
theorem Granted.evolve {st st' : Store} (hevolution : Evolution st st') {r : Request}
    (h : Granted s st r) : Granted s st' r := by
  unfold Granted at h ⊢
  split at h
  · obtain ⟨der, o, hcarried, hder, ho, hcsr⟩ := h
    obtain ⟨o', ho', hstep⟩ := hevolution.orders _ o ho
    refine ⟨der, o', hcarried, hder, ho', ?_⟩
    rcases hstep with rfl | hstep
    · exact hcsr
    · rw [hstep.csr (by rwa [hcsr]), hcsr]
  · obtain ⟨der, cert, hcarried, hcert, hrevoked⟩ := h
    obtain ⟨cert', hcert', hstep⟩ := hevolution.certificates _ cert hcert
    refine ⟨der, cert', hcarried, hcert', ?_⟩
    rcases hstep with rfl | hstep
    · exact hrevoked
    · exact (revocation_kept hstep.revoked hrevoked).1
  · trivial

theorem answered_preserved (h : Executed w thread call answer w') (hinv : Invariant s w)
    (hpermitted : Permitted s w thread call) {e : Event} {r : Request}
    {response : AcmeServer.Response} (he : e ∈ w'.history)
    (hanswers : e.answers = some (r, response))
    (hsuccess : response.success = true) : Granted s w'.store r := by
  have hevolution := h.evolution hinv hpermitted
  rw [h.history_eq] at he
  rcases List.mem_cons.mp he with rfl | hold
  · cases h with
    | host c answer hadmits =>
        cases c with
        | respond r' response' =>
            cases hanswers
            exact hpermitted hsuccess
        | _ => cases hanswers
    | failed => cases hanswers
    | committed => cases hanswers
  · exact (hinv.answered hold hanswers hsuccess).evolve hevolution

/-! ## The contract -/

/-- A permitted call keeps the invariant. -/
theorem invariant_preserved (h : Executed w thread call answer w') (hinv : Invariant s w)
    (hpermitted : Permitted s w thread call) : Invariant s w' where
  keyed := by
    rcases h.store_cases with hsame | ⟨c, rfl, hcommit⟩
    · rw [hsame]
      exact hinv.keyed
    · exact commit_keyed hcommit hinv.keyed
  coherent := by
    rcases h.store_cases with hsame | ⟨c, rfl, hcommit⟩
    · rw [hsame]
      exact hinv.coherent
    · exact commit_coherent hinv.keyed hinv.coherent hpermitted hcommit
  ids := ids_preserved hinv.ids hpermitted h
  tasks := tasks_preserved h hinv
  dispatched := dispatched_preserved h hinv hpermitted
  issuedAfter := issued_after_preserved h hinv hpermitted
  issued := issued_preserved h hinv hpermitted
  revoked := revoked_preserved h hinv hpermitted
  answered := answered_preserved h hinv hpermitted

/-- The invariant holds before the first call. -/
theorem invariant_initial : Invariant s World.initial where
  keyed := ⟨Table.keyed_empty, Table.keyed_empty, Table.keyed_empty, Table.keyed_empty,
    Table.keyed_empty, Table.keyed_empty⟩
  coherent := by
    have hempty : lifecycle Store.new = State.empty := by
      apply State.ext <;> funext id <;>
        simp [lifecycle, rows, Store.new, State.empty, Finmap.lookup_empty]
    rw [World.initial, hempty]
    exact coherent_empty
  ids := ⟨nofun, nofun, nofun⟩
  tasks h := by simp [World.initial, Store.new, Finmap.lookup_empty] at h
  dispatched h := by simp [World.initial, Store.new, Finmap.lookup_empty] at h
  issuedAfter h := by simp [World.initial] at h
  issued h := by simp [World.initial] at h
  revoked h := by simp [World.initial, Store.new, Finmap.lookup_empty] at h
  answered h := by simp [World.initial] at h

end Protocol

/-- The contract of the programs of the server. A call that enqueues a task uses up an ID of its
thread; every other call is quiet. -/
def Server.contract (s : Server) : Interaction.Contract execute where
  Inv := Protocol.Invariant s
  Permitted := Protocol.Permitted s
  Quiet := fun call => call.enqueues = none
  preserved hinv hpermitted hexecute :=
    Protocol.invariant_preserved (Protocol.executed_of_execute hexecute) hinv hpermitted

end AcmeServer
