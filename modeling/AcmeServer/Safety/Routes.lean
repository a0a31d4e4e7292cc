import AcmeServer.Safety.Account
import AcmeServer.Safety.Certificate
import AcmeServer.Safety.Issuance
import AcmeServer.Safety.NewOrder

/-!
# Safety of the running server

Every request handler and every worker round is safe, so the invariant of the protocol holds after
every schedule (`run_invariant`), and along every schedule the world only moves by permitted calls
(`run_later`). The results about the server rest on these two facts.
-/

namespace AcmeServer.Safety

open Interaction Interaction.Contract Memstore Protocol

variable {s : Server} {thread : Nat} {w : World} {r : Request}

/-! ## Requests -/

theorem harmless_write_method_not_allowed (r : Request) (allowed : String) :
    s.contract.Harmless (s.writeMethodNotAllowed r allowed) :=
  harmless_write_problem _ _ _

theorem serve_read_safe {program : Prog Unit} (h : s.contract.Harmless program) :
    s.contract.Safe thread (s.serveRead r program) (fun _ _ => True) w := by
  unfold Server.serveRead
  split
  · exact h.safe fun _ _ _ _ => trivial
  · exact (harmless_write_method_not_allowed _ _).safe fun _ _ _ _ => trivial

theorem serve_post_safe {handler : Handler Unit}
    (h : s.contract.Achieves thread handler {} (fun _ _ _ => True) w) :
    s.contract.Safe thread (s.servePOST r handler) (fun _ _ => True) w := by
  unfold Server.servePOST
  split
  · exact answer_safe h
  · exact (harmless_write_method_not_allowed _ _).safe fun _ _ _ _ => trivial

theorem harmless_serve_profile (h : Unconditional s r) (name : String) :
    s.contract.Harmless (s.serveProfile r name) := by
  unfold Server.serveProfile
  split
  · exact harmless_write_problem _ _ _
  · exact harmless_respond h _

theorem harmless_serve_new_nonce (h : Unconditional s r) :
    s.contract.Harmless (s.serveNewNonce r) := by
  unfold Server.serveNewNonce
  refine (harmless_check_limit _).bind fun refusal => ?_
  cases refusal with
  | some p => exact harmless_write_problem_without_nonce _ _ _
  | none =>
      refine Harmless.bind (harmless_ask (by intros; trivial)) fun answer => ?_
      cases answer with
      | error err => exact harmless_write_problem_without_nonce _ _ _
      | ok nonce => exact harmless_respond h _

/-- Only finalization and revocation promise something about the store. -/
def freeRoute : Route → Bool
  | .finalize _ => false
  | .revokeCert => false
  | _ => true

theorem unconditional_of_route {route : Route} (hroute : s.route r = route)
    (hfree : freeRoute route = true) : Unconditional s r := by
  intro store
  unfold Granted
  rw [hroute]
  split
  · cases hfree
  · cases hfree
  · trivial

theorem serve_http_safe (r : Request) :
    s.contract.Safe thread (s.serveHTTP r) (fun _ _ => True) w := by
  unfold Server.serveHTTP
  cases hroute : s.route r with
  | directory =>
      exact serve_read_safe (harmless_respond (unconditional_of_route hroute rfl) _)
  | newNonce =>
      exact serve_read_safe (harmless_serve_new_nonce (unconditional_of_route hroute rfl))
  | renewalInfo id =>
      exact serve_read_safe (harmless_serve_renewal_info (unconditional_of_route hroute rfl) id)
  | profile name =>
      exact serve_read_safe (harmless_serve_profile (unconditional_of_route hroute rfl) name)
  | newAccount =>
      exact serve_post_safe (serve_new_account_achieves (unconditional_of_route hroute rfl))
  | newOrder =>
      exact serve_post_safe (serve_new_order_achieves (unconditional_of_route hroute rfl))
  | revokeCert => exact serve_post_safe (serve_revoke_cert_achieves hroute)
  | keyChange =>
      exact serve_post_safe (serve_key_change_achieves (unconditional_of_route hroute rfl))
  | account id =>
      exact serve_post_safe (serve_account_achieves (unconditional_of_route hroute rfl) id)
  | accountOrders id =>
      exact serve_post_safe (serve_account_orders_achieves (unconditional_of_route hroute rfl) id)
  | order id =>
      exact serve_post_safe (serve_order_achieves (unconditional_of_route hroute rfl) id)
  | finalize id => exact serve_post_safe (serve_finalize_achieves hroute)
  | authorization id =>
      exact serve_post_safe (serve_authorization_achieves (unconditional_of_route hroute rfl) id)
  | challenge id =>
      exact serve_post_safe (serve_challenge_achieves (unconditional_of_route hroute rfl) id)
  | certificate id =>
      exact serve_post_safe (serve_certificate_achieves (unconditional_of_route hroute rfl) id)
  | unknown => exact (harmless_write_problem _ _ _).safe fun _ _ _ _ => trivial

/-! ## Runs -/

/-- Every program that the server starts is safe. -/
theorem start_safe (s : Server) : s.contract.SafeStart s.program := by
  intro entry thread w _
  cases entry with
  | request r => exact serve_http_safe r
  | worker => exact worker_turn_safe

theorem safe_config (s : Server) (schedule : Server.Schedule) : s.contract.SafeConfig
    (Interaction.run execute s.program ⟨World.initial, []⟩ schedule) :=
  run_safe (safe_config_initial invariant_initial) (start_safe s) schedule

/-- The invariant holds after every schedule. -/
theorem run_invariant (s : Server) (schedule : Server.Schedule) :
    Invariant s (s.run schedule) :=
  (safe_config s schedule).1

/-- Along a schedule the world only moves by permitted calls. -/
theorem run_progress (s : Server) (schedule rest : Server.Schedule) :
    s.contract.Later (s.run schedule) (s.run (schedule ++ rest)) := by
  unfold Server.run
  rw [run_append]
  exact run_later (safe_config s schedule) (start_safe s) rest

/-- The next choice of a schedule makes one permitted call at most. -/
theorem run_step (s : Server) (schedule : Server.Schedule)
    (choice : Interaction.Choice Env Server.Start) :
    s.run (schedule ++ [choice]) = s.run schedule ∨
      ∃ thread call, s.contract.Move thread call (s.run schedule)
        (s.run (schedule ++ [choice])) := by
  unfold Server.run
  rw [run_concat]
  exact advance_world (safe_config s schedule) choice

end AcmeServer.Safety
