import AcmeServer.Safety.Calls

/-!
# Safety of responses and signed requests

A problem document grants nothing, so it may be written at any time. A success may be written once
what it grants is in the store. `read_signed_request_achieves` says what a handler knows about the
request it has read: its payload, and the signing account at the moment it was looked up.
-/

namespace AcmeServer.Safety

open Interaction Interaction.Contract Memstore Protocol

variable {s : Server} {thread : Nat} {w : World} {α : Type} {st : RequestState}

/-! ## Responses -/

theorem harmless_check_limit (req : LimitRequest) : s.contract.Harmless (s.checkLimit req) := by
  unfold Server.checkLimit
  split
  · exact Harmless.bind (harmless_ask (by intros; trivial)) fun _ => trivial
  · trivial

theorem harmless_record_refusal (refusal : Refusal) (p : Problem) :
    s.contract.Harmless (s.recordRefusal refusal p) := by
  unfold Server.recordRefusal
  split
  · trivial
  · exact Harmless.bind (harmless_ask (by intros; trivial)) fun _ => trivial

theorem harmless_add_nonce (header : Header) : s.contract.Harmless (Server.addNonce header) := by
  unfold Server.addNonce
  refine Harmless.bind (harmless_ask (by intros; trivial)) fun answer => ?_
  cases answer <;> trivial

theorem harmless_write_problem_without_nonce (r : Request) (header : Header) (p : Problem) :
    s.contract.Harmless (s.writeProblemWithoutNonce r header p) := by
  unfold Server.writeProblemWithoutNonce
  refine harmless_ask fun _ _ hsuccess => ?_
  simp [Response.success] at hsuccess

theorem harmless_write_problem (r : Request) (st : RequestState) (p : Problem) :
    s.contract.Harmless (s.writeProblem r st p) := by
  have hnonce : s.contract.Harmless (do
      let header ← Server.addNonce st.header
      s.writeProblemWithoutNonce r header p) :=
    (harmless_add_nonce _).bind fun header => harmless_write_problem_without_nonce _ _ _
  unfold Server.writeProblem
  dsimp only
  split
  · exact hnonce
  · refine (harmless_check_limit _).bind fun refusal => ?_
    cases refusal with
    | some refusal => exact harmless_write_problem_without_nonce _ _ _
    | none => exact hnonce

/-- A request to a resource whose success needs nothing in the store. -/
def Unconditional (s : Server) (r : Request) : Prop := ∀ store, Granted s store r

theorem harmless_respond {r : Request} (h : Unconditional s r) (response : AcmeServer.Response) :
    s.contract.Harmless (ask (.respond r response)) :=
  harmless_ask fun _ w _ => h w.store

/-- Writing a success is safe once it is granted. -/
theorem write_achieves {r : Request} {status : Int} {contentType : Option String} {body : Body}
    {post : Unit → RequestState → World → Prop} (hgranted : Granted s w.store r)
    (hpost : ∀ st after, s.contract.Rely thread w after → post () st after) :
    s.contract.Achieves thread (s.write r status contentType body) st post w := by
  unfold Server.write
  refine achieves_bind (achieves_get fun w₁ h₁ _ => ?_)
  refine achieves_bind (achieves_lift ((harmless_add_nonce _).safe fun header w₂ h₂ _ => ?_))
  refine achieves_lift (safe_quiet rfl ?_ ?_)
  · intro seen hseen _ _
    exact granted_later ((h₁.trans h₂).trans hseen).later hgranted
  · intro seen _ _ _ hseen _ _
    exact safe_done fun after hafter _ => hpost _ _ ((h₁.trans h₂).trans (hseen.trans hafter))

theorem harmless_write {r : Request} (h : Unconditional s r) (status : Int)
    (contentType : Option String) (body : Body) :
    s.contract.HarmlessAttempt (s.write r status contentType body) := by
  unfold Server.write
  refine HarmlessAttempt.bind (fun _ => trivial) fun st => ?_
  refine (HarmlessAttempt.lift (harmless_add_nonce _)).bind fun header => ?_
  exact .lift (harmless_respond h _)

theorem harmless_set_header (name value : String) :
    s.contract.HarmlessAttempt (setHeader name value) := fun _ => trivial

theorem harmless_add_header (name value : String) :
    s.contract.HarmlessAttempt (addHeader name value) := fun _ => trivial

theorem harmless_write_order {r : Request} (h : Unconditional s r) (status : Int) (order : Order)
    (now : Time) : s.contract.HarmlessAttempt (s.writeOrder r status order now) := by
  unfold Server.writeOrder
  refine (harmless_set_header _ _).bind fun _ => ?_
  dsimp only
  split
  · exact (harmless_set_header _ _).bind fun _ => harmless_write h _ _ _
  · exact harmless_write h _ _ _

theorem harmless_write_challenge {r : Request} (h : Unconditional s r) (ch : Challenge) :
    s.contract.HarmlessAttempt (s.writeChallenge r ch) := by
  unfold Server.writeChallenge
  dsimp only
  split
  · exact (harmless_set_header _ _).bind fun _ => harmless_write h _ _ _
  · exact harmless_write h _ _ _

/-- Writing an order is safe once its success is granted. -/
theorem write_order_achieves {r : Request} {status : Int} {order : Order} {now : Time}
    (hgranted : Granted s w.store r) :
    s.contract.Achieves thread (s.writeOrder r status order now) st (fun _ _ _ => True) w := by
  unfold Server.writeOrder
  refine achieves_bind ((harmless_set_header _ _).achieves fun _ st₁ w₁ h₁ _ => ?_)
  have hgranted₁ := granted_later h₁.later hgranted
  dsimp only
  split
  · refine achieves_bind ((harmless_set_header _ _).achieves fun _ st₂ w₂ h₂ _ => ?_)
    exact write_achieves (granted_later h₂.later hgranted₁) fun _ _ _ => trivial
  · exact write_achieves hgranted₁ fun _ _ _ => trivial

/-- A handler that only makes permitted calls answers its request safely. -/
theorem answer_safe {r : Request} {handler : Handler Unit}
    (h : s.contract.Achieves thread handler {} (fun _ _ _ => True) w) :
    s.contract.Safe thread (s.answer r handler) (fun _ _ => True) w := by
  unfold Server.answer
  refine safe_bind (Safe.weaken h fun outcome after _ _ => ?_)
  rcases outcome with ⟨p | u, st'⟩
  · exact (harmless_write_problem r st' p).safe fun _ _ _ _ => trivial
  · exact safe_done fun _ _ _ => trivial

/-! ## Signed requests -/

/-- The account was stored and valid when it was looked up. -/
def AccountSeen (s : Server) (a : Account) (w : World) : Prop :=
  s.contract.Once (fun u => u.store.accounts.lookup a.id = some a ∧ a.status = .valid) w

/-- What is known about who signed a request. -/
def SignerSeen (s : Server) : (mode : KeyMode) → mode.Signer → World → Prop
  | .account, a, w => AccountSeen s a w
  | .embedded, _, _ => True
  | .either, _, _ => True

theorem lookup_account_achieves (kid : String) :
    s.contract.Achieves thread (s.lookupAccount kid) st (fun a _ after => AccountSeen s a after)
      w := by
  unfold Server.lookupAccount
  refine achieves_bind (achieves_expect fun id w₁ _ _ _ => ?_)
  refine achieves_lookup (reads_account id) fun a seen _ hinv ha => ?_
  refine achieves_bind (achieves_fail_if fun w₂ h₂ _ hvalid => ?_)
  refine achieves_pure fun w₃ h₃ _ => ⟨seen, hinv, (h₂.trans h₃).later, ?_, not_not.mp hvalid⟩
  rw [hinv.keyed.accounts id a ha]
  exact ha

theorem read_signer_achieves (msg : Message) (mode : KeyMode) :
    s.contract.Achieves thread (s.readSigner msg mode) st
      (fun signer _ after => SignerSeen s mode signer after) w := by
  cases mode with
  | account =>
      unfold Server.readSigner
      split
      · exact achieves_throw
      · exact lookup_account_achieves _
  | embedded =>
      unfold Server.readSigner
      split
      · exact achieves_pure fun _ _ _ => trivial
      · exact achieves_throw
  | either =>
      unfold Server.readSigner
      split
      · exact achieves_pure fun _ _ _ => trivial
      · refine achieves_bind ((lookup_account_achieves _).weaken fun a st' after _ _ => ?_)
        exact achieves_pure fun _ _ _ => trivial

/-- The message of a readable body is the one the request carries. -/
theorem payload_of_body {r : Request} {body : Bytes} {msg : Message}
    (hbody : s.readBody r = .ok body) (hmsg : s.parseJWS body = .ok msg) :
    s.payloadOf r = some msg.payload := by
  unfold Server.readBody at hbody
  unfold Server.payloadOf
  split at hbody
  · cases hbody
  · cases hbody
  · rename_i content hcontent
    split at hbody
    · cases hbody
    · cases hbody
      rw [hcontent]
      simp [hmsg, Except.toOption]

/-- A request that was read carries the payload, and its signer was seen. -/
theorem read_signed_request_achieves (r : Request) (rel : String) (mode : KeyMode) :
    s.contract.Achieves thread (s.readSignedRequest r rel mode) st
      (fun req _ after => s.payloadOf r = some req.payload ∧ SignerSeen s mode req.signer after)
      w := by
  unfold Server.readSignedRequest
  refine achieves_bind (achieves_fail_if fun w₁ _ _ _ => ?_)
  refine achieves_bind (achieves_expect fun body w₂ _ _ hbody => ?_)
  refine achieves_bind (achieves_expect fun msg w₃ _ _ hmsg => ?_)
  have hpayload : s.payloadOf r = some msg.payload := by
    refine payload_of_body hbody ?_
    cases hparse : s.parseJWS body with
    | error e =>
        rw [hparse] at hmsg
        cases hmsg
    | ok found =>
        rw [hparse] at hmsg
        cases hmsg
        rfl
  refine achieves_ask (by intros; trivial) fun answer w₄ _ _ => ?_
  refine achieves_bind (achieves_expect fun valid w₅ _ _ _ => ?_)
  refine achieves_bind (achieves_fail_if fun w₆ _ _ _ => ?_)
  refine achieves_bind (achieves_modify fun w₇ _ _ => ?_)
  refine achieves_bind (achieves_fail_if fun w₈ _ _ _ => ?_)
  refine achieves_bind ((read_signer_achieves msg mode).weaken fun signer st' w₉ _ hsigner => ?_)
  refine achieves_bind (achieves_check fun w₁₀ h₁₀ _ _ => ?_)
  refine achieves_pure fun w₁₁ h₁₁ _ => ⟨hpayload, ?_⟩
  cases mode with
  | account => exact Once.later hsigner (h₁₀.trans h₁₁).later
  | embedded => trivial
  | either => trivial

end AcmeServer.Safety
