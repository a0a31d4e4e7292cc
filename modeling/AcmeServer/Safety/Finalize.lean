import AcmeServer.Safety.Order

/-!
# Safety of finalize requests

A finalize request may present an order as ready whose stored status is still pending, because the
server derives the status it acts on. `ready_stored` is why that does no harm: a stored pending
order has a pending authorization, and an authorization that was read as valid never becomes
pending again.
-/

namespace AcmeServer.Safety

open Interaction Interaction.Contract Memstore Protocol

variable {s : Server} {thread : Nat} {w : World} {st : RequestState} {r : Request}

/-- An order that was read as ready is stored as ready, if it has not changed since. -/
theorem ready_stored {id : String} {order stored : Order} (hread : OrderRead s id order w)
    (hinv : s.contract.Inv w) (hready : order.status = .ready)
    (hstored : w.store.orders.lookup id = some stored)
    (hrevision : stored.revision = order.revision) :
    stored.status = .ready ∧ order = { stored with status := order.status } := by
  obtain ⟨u, o, _, hu, ho, ⟨rfl, _, hnot⟩ | ⟨hwaiting, status, rfl, hderived⟩⟩ := hread
  · exact absurd hready hnot
  · cases order_unchanged hu ho hstored hrevision
    refine ⟨?_, rfl⟩
    rcases hwaiting with hpending | hstatus
    · -- Some authorization is pending now, although all of them were valid when they were read.
      cases hready
      have hagrees := hinv.coherent.agrees (rows_of_lookup hstored)
      obtain ⟨_, aid, haid, row, hrow, hundecided⟩ := hagrees.pending hpending
      obtain ⟨a, ha, rfl⟩ := rows_eq_some.mp hrow
      obtain ⟨b, hb, hvalid⟩ := hderived.2 aid haid
      rcases hb with ⟨hgiven, _⟩ | ⟨_, v, _, hv, _, hlookup⟩
      · cases hgiven
      · have hsteps := (later_progress hv).authzs.steps hlookup ha
        have hsame := congrArg Authorization.status (authorization_undecided hsteps hundecided)
        rw [show a.status = .pending from hundecided] at hsame
        exact absurd (hsame.trans hvalid) (by decide)
    · exact hstatus

/-- The stored order of a granted finalize request. -/
theorem granted_finalize {id : String} {der : Bytes} {o : Order} (hroute : s.route r = .finalize id)
    (hcarried : s.carriedCSR r = some der) (hder : der ≠ [])
    (ho : w.store.orders.lookup id = some o) (hcsr : o.csr = der) : Granted s w.store r := by
  unfold Granted
  rw [hroute]
  exact ⟨der, o, hcarried, hder, ho, hcsr⟩

theorem read_csr_ne_nil {payload der : Bytes} (h : s.readCSR payload = .ok der) : der ≠ [] := by
  unfold Server.readCSR at h
  simp only [bind, Except.bind] at h
  split at h
  · cases h
  · split at h
    · split at h
      · cases h
      · rename_i hlength
        cases h
        rintro rfl
        exact hlength rfl
    · cases h

theorem carried_csr_of_read {payload der : Bytes} (hpayload : s.payloadOf r = some payload)
    (h : s.readCSR payload = .ok der) : s.carriedCSR r = some der := by
  unfold Server.carriedCSR
  rw [hpayload, Option.bind_some, h]
  rfl

/-- A refusal is reported without touching the store. -/
theorem refusing_achieves {α : Type} {refusal : Refusal} {m : Handler α}
    {post : α → RequestState → World → Prop} (h : s.contract.Achieves thread m st post w) :
    s.contract.Achieves thread (s.refusing refusal m) st post w :=
  achieves_on_error (fun _ => harmless_record_refusal _ _) h

/-! ## Ready orders -/

theorem harmless_order_authorizations (ids : List String) :
    s.contract.HarmlessAttempt (Server.orderAuthorizations ids) := by
  induction ids with
  | nil => exact .pure _
  | cons id rest ih =>
      unfold Server.orderAuthorizations
      refine (HarmlessAttempt.lift (harmless_fetch rfl)).bind fun result => ?_
      refine (HarmlessAttempt.expect _).bind fun authz => ?_
      exact ih.bind fun _ => .pure _

theorem harmless_check_finalize (order : Order) (account : Account) (der : Bytes) :
    s.contract.HarmlessAttempt (s.checkFinalize order account der) := by
  unfold Server.checkFinalize
  refine (HarmlessAttempt.fail_if _ _).bind fun _ => ?_
  refine (harmless_order_authorizations _).bind fun authzs => ?_
  exact (HarmlessAttempt.check _).bind fun _ => .check _

/-- The finalized order is stored by this request or was stored by another one that carried the
same certificate request. -/
theorem enqueue_issuance_achieves {order : Order} {der : Bytes} {task : Task}
    (hroute : s.route r = .finalize order.id) (hcarried : s.carriedCSR r = some der)
    (hder : der ≠ []) (hread : OrderRead s order.id order w) (hready : order.status = .ready)
    (howns : Owns w thread task.id) (hkind : task.kind = .issue)
    (htarget : task.targetID = order.id) :
    s.contract.Achieves thread
      (Server.enqueueIssuance { order with status := .processing, csr := der } task) st
      (fun _ _ after => Granted s after.store r) w := by
  unfold Server.enqueueIssuance
  refine achieves_store (fun w₁ h₁ hinv => ?_) fun env w₁ w₂ _ _ _ _ hfits hstore => ?_
  · refine ⟨owns_stable h₁ howns, hkind, htarget, fun stored hstored hsame => ?_⟩
    obtain ⟨hstatus, hfields⟩ := ready_stored (hread.later h₁.later) hinv hready hstored hsame
    exact ⟨hstatus, der, hder, by rw [hfields]⟩
  · split
    · rename_i hok
      refine achieves_pure fun w₃ h₃ _ => granted_later h₃.later ?_
      have hstored := finalize_order_stored (commit_of_ok hfits hok)
      rw [← hstore] at hstored
      exact granted_finalize hroute hcarried hder hstored rfl
    · refine achieves_read (reads_order _) fun result w₃ h₃ _ hok => ?_
      cases result with
      | error e => exact achieves_throw
      | ok current =>
          refine achieves_bind (achieves_fail_if fun w₄ h₄ _ hsame => ?_)
          refine achieves_pure fun w₅ h₅ _ => granted_later (h₄.trans h₅).later ?_
          exact granted_finalize hroute hcarried hder (hok current rfl) (not_not.mp hsame)
    · exact achieves_throw

theorem finalize_ready_achieves {order : Order} {der : Bytes} (refusal : Refusal)
    (account : Account) (now : Time) (hroute : s.route r = .finalize order.id)
    (hcarried : s.carriedCSR r = some der) (hder : der ≠ [])
    (hread : OrderRead s order.id order w) (hready : order.status = .ready) :
    s.contract.Achieves thread (s.finalizeReady refusal order account der now) st
      (fun _ _ after => Granted s after.store r) w := by
  unfold Server.finalizeReady
  refine achieves_bind (refusing_achieves ((harmless_check_finalize order account der).achieves
    fun _ st₁ w₁ h₁ _ => ?_))
  refine achieves_new_id rfl fun taskID w₂ w₃ h₂ _ h₃ _ _ _ howns => ?_
  have hlater := ((h₁.trans h₂).trans h₃).later
  exact enqueue_issuance_achieves hroute hcarried hder (hread.later hlater) hready howns rfl rfl

/-! ## Finalize requests -/

theorem status_at_eq {o : Order} {now : Time} {status : OrderStatus} (h : o.statusAt now = status)
    (hstatus : status ≠ .invalid) : o.status = status := by
  unfold Order.statusAt at h
  split at h
  · exact absurd h.symm hstatus
  · exact h

/-- A finalized order was read as it is stored. -/
theorem finalized_read {id : String} {order : Order} (hread : OrderRead s id order w)
    (hstatus : order.status = .processing ∨ order.status = .valid) :
    s.contract.Once (fun u => u.store.orders.lookup id = some order) w := by
  obtain ⟨u, o, hinv, hu, ho, ⟨rfl, _⟩ | ⟨_, status, rfl, hderived⟩⟩ := hread
  · exact ⟨u, hinv, hu, ho⟩
  · rcases hstatus with rfl | rfl
    · exact (hderived : False).elim
    · exact (hderived : False).elim

theorem OrderRead.id_eq {id : String} {order : Order} (hread : OrderRead s id order w) :
    order.id = id := by
  obtain ⟨u, o, hinv, _, ho, ⟨rfl, _⟩ | ⟨_, status, rfl, _⟩⟩ := hread
  · exact hinv.keyed.orders id _ ho
  · exact hinv.keyed.orders id o ho

theorem serve_finalize_achieves {id : String} (hroute : s.route r = .finalize id) :
    s.contract.Achieves thread (s.serveFinalize r id) st (fun _ _ _ => True) w := by
  unfold Server.serveFinalize
  refine achieves_bind ((read_owned_order_achieves _ _).weaken ?_)
  rintro ⟨req, order⟩ st₁ w₁ _ ⟨hpayload, hread⟩
  have hid := hread.id_eq
  subst hid
  refine achieves_bind (refusing_achieves (achieves_expect fun der w₂ h₂ _ hder => ?_))
  have hcarried := carried_csr_of_read hpayload hder
  have hne := read_csr_ne_nil hder
  refine achieves_ask (by intros; trivial) fun now w₃ h₃ _ => ?_
  have hread₃ := hread.later (h₂.trans h₃).later
  have hfinalized : order.status = .processing ∨ order.status = .valid →
      ∀ refusal, s.contract.Achieves thread (do
        s.refusing refusal (Attempt.failIf (order.csr ≠ der) (newProblem .orderNotReady
          "order was already finalized with a different CSR"))
        s.writeOrder r 200 order now) st₁ (fun _ _ _ => True) w₃ := by
    intro hstatus refusal
    refine achieves_bind (refusing_achieves (achieves_fail_if fun w₄ h₄ _ hsame => ?_))
    obtain ⟨u, _, hu, ho⟩ := finalized_read hread₃ hstatus
    refine write_order_achieves (granted_later (hu.trans h₄.later) ?_)
    exact granted_finalize hroute hcarried hne ho (not_not.mp hsame)
  dsimp only
  split
  · rename_i hstatus
    have hready := status_at_eq hstatus (by decide)
    refine achieves_bind
      ((finalize_ready_achieves _ _ _ hroute hcarried hne hread₃ hready).weaken ?_)
    exact fun _ _ _ _ hgranted => write_order_achieves hgranted
  · rename_i hstatus
    exact hfinalized (.inl (status_at_eq hstatus (by decide))) _
  · rename_i hstatus
    exact hfinalized (.inr (status_at_eq hstatus (by decide))) _
  · exact refusing_achieves achieves_throw

end AcmeServer.Safety
