import AcmeServer.Interaction.Trace
import AcmeServer.Server.Routes

/-!
# A rule for the calls of the server

Most calls of a program of the server may be made at any time. Four kinds are `Notable`: asking for
a nonce, creating an order, asking the issuer, and settling an order. `Conduct` says when a program
may make them, in terms of the exchanges it has made before and whatever it was answered. That every
program of the server keeps to this rule is proved in the modules that follow, so it is true of
every store, limiter, nonce manager and issuer.
-/

namespace AcmeServer

open Interaction Memstore

/-- The calls of one program and their answers, the oldest first. -/
abbrev CallLog := Log Call Call.Answer

/-- The exchange that an event records. -/
def Event.entry (e : Event) : Nat × Exchange Call Call.Answer := (e.thread, ⟨e.call, e.answer⟩)

/-- A world as the exchanges of all programs. -/
def World.entries (w : World) : Entries Call Call.Answer := w.history.map Event.entry

/-- Every call is recorded in the history. -/
theorem execute_records : Records execute World.entries := by
  intro env thread call w answer w' h
  cases call with
  | store c =>
      simp only [execute] at h
      split at h
      · cases h
        rfl
      · cases h
  | host c =>
      simp only [execute] at h
      split at h
      · cases h
        rfl
      · cases h

/-! ## Exchanges -/

/-- The nonce manager is asked for a fresh nonce. -/
def asksNonce : Exchange Call Call.Answer → Bool
  | ⟨.host .issueNonce, _⟩ => true
  | _ => false

/-- The nonce manager hands out a nonce. -/
def handsOutNonce : Exchange Call Call.Answer → Bool
  | ⟨.host .issueNonce, .ok _⟩ => true
  | _ => false

/-- The nonce manager confirms that a nonce was valid and is now spent. -/
def spendsNonce : Exchange Call Call.Answer → Bool
  | ⟨.host (.consumeNonce _), .ok true⟩ => true
  | _ => false

/-- The limiter allows a newNonce. -/
def allowsNonce : Exchange Call Call.Answer → Bool
  | ⟨.host (.allow request), none⟩ => request.kind = .newNonce
  | _ => false

/-- The limiter allows a newNonce for the client. -/
def allowsNonceFor (client : String) : Exchange Call Call.Answer → Bool
  | ⟨.host (.allow request), none⟩ => request.kind = .newNonce ∧ request.client = client
  | _ => false

/-- The issuer is asked for a certificate. -/
def asksIssuer : Exchange Call Call.Answer → Bool
  | ⟨.host (.issue _), _⟩ => true
  | _ => false

/-! ## The rule -/

/-- The calls that are not free. -/
def Notable : Call → Prop
  | .host .issueNonce => True
  | .host (.issue _) => True
  | .store (.createOrder _) => True
  | .store (.completeIssuance _) => True
  | _ => False

/-- No nonce was asked for. -/
def Unissued (log : CallLog) : Prop := ∀ e ∈ log, asksNonce e = false

/-- A nonce was spent. -/
def Spent (log : CallLog) : Prop := ∃ e ∈ log, spendsNonce e = true

/-- The client may have a nonce: it spent one, or the limiter does not mind. -/
def Earned (s : Server) (client : String) (log : CallLog) : Prop :=
  Spent log ∨ s.limits = false ∨ ∃ e ∈ log, allowsNonceFor client e = true

/-- The identifier is the normalized form of one that a client may order. -/
def Orderable (s : Server) (id : Identifier) : Prop :=
  ∃ ordered : Identifier, ordered.type ≠ .uri ∧ s.normalize ordered = .ok id

/-- The authorization is for an identifier that a client may order. -/
def Scoped (s : Server) (a : Authorization) : Prop :=
  ∃ id, Orderable s id ∧ a.wildcard = id.isWildcard ∧
    a.identifier =
      if id.isWildcard then { id with value := (cutPrefix id.value "*.").getD id.value } else id

/-- The issuer was asked once, for a certificate for the order, and gave this answer. -/
def Asked (s : Server) (log : CallLog) (order : Order) (result : IssueResult)
    (err : Option HostError) : Prop :=
  ∃ state now, order.issuance = some state ∧
    log.filter asksIssuer = [⟨.host (.issue (s.issueRequestAt order state now)), (result, err)⟩]

/-- How a program may settle an order after its exchanges. -/
inductive Settles (s : Server) (log : CallLog) (i : IssuanceOutcome) : Prop where
  /-- An unambiguous acceptable certificate is published. -/
  | published {order : Order} {result : IssueResult} {leaf : Leaf} {now : Time}
      (hasked : Asked s log order result none) (hchain : result.chain ≠ [])
      (hpending : result.pending = false) (hrejected : result.rejected = none)
      (hcheck : s.checkChain result.chain order.csr order now = .ok leaf)
      (hcert : i.cert = some (s.issuedCertificateRecord order result leaf now))
      (horder : i.order = { order with
        status := .valid
        certificateID := s.certificateID (result.chain.headD [])
        error := none })
  /-- Any other returned chain is retained. -/
  | retained {result : IssueResult} {err : Option HostError}
      (hasked : Asked s log i.order result err) (hchain : result.chain ≠ [])
      (hcert : i.cert = none) (hstatus : i.order.status = .invalid)
      (hresult : i.order.unpublishedResult = some result)
  /-- The issuer refused the request. -/
  | rejected {result : IssueResult} {p : Problem}
      (hasked : Asked s log i.order result none) (hchain : result.chain = [])
      (hpending : result.pending = false) (hrejected : result.rejected = some p)
      (hcert : i.cert = none) (hstatus : i.order.status = .invalid)
      (herror : i.order.error = some p)
  /-- The order fails before the issuer is asked. -/
  | undispatched (hasked : log.filter asksIssuer = []) (hcert : i.cert = none)
      (hstatus : i.order.status = .invalid)

/-- When a program that answers the client may make a call. -/
def Conduct (s : Server) (client : String) (log : CallLog) : Call → Prop
  | .host .issueNonce => Unissued log ∧ Earned s client log
  | .store (.createOrder n) => ∀ a ∈ n.authzs, Scoped s a
  | .store (.completeIssuance i) => Settles s log i
  | _ => True

theorem conduct_of_not_notable {s : Server} {client : String} (log : CallLog) (call : Call)
    (h : ¬Notable call) : Conduct s client log call := by
  unfold Notable at h
  unfold Conduct
  split
  · exact absurd trivial h
  · exact absurd trivial h
  · exact absurd trivial h
  · trivial

/-! ## Logs -/

section Logs

variable {log : CallLog} {e : Exchange Call Call.Answer}

theorem asks_nonce_of_not_notable (h : ¬Notable e.call) : asksNonce e = false := by
  unfold asksNonce
  split
  · exact absurd trivial h
  · rfl

theorem asks_issuer_of_not_notable (h : ¬Notable e.call) : asksIssuer e = false := by
  unfold asksIssuer
  split
  · exact absurd trivial h
  · rfl

theorem Unissued.append (h : Unissued log) (he : asksNonce e = false) :
    Unissued (log ++ [e]) := by
  intro e' he'
  rcases List.mem_append.1 he' with hold | hnew
  · exact h e' hold
  · rw [List.mem_singleton.1 hnew]
    exact he

theorem Spent.append (h : Spent log) : Spent (log ++ [e]) := by
  obtain ⟨e', he', hspends⟩ := h
  exact ⟨e', List.mem_append_left _ he', hspends⟩

theorem filter_asks_issuer_append (he : asksIssuer e = false) :
    (log ++ [e]).filter asksIssuer = log.filter asksIssuer := by
  simp [he]

theorem Asked.append {s : Server} {order : Order} {result : IssueResult} {err : Option HostError}
    (h : Asked s log order result err) (he : asksIssuer e = false) :
    Asked s (log ++ [e]) order result err := by
  obtain ⟨state, now, hstate, hlog⟩ := h
  refine ⟨state, now, hstate, ?_⟩
  rw [filter_asks_issuer_append he, hlog]

end Logs

/-! ## Free calls -/

theorem ask_avoids {c : HostCall} (h : ¬Notable (.host c)) : (ask c).Avoids Notable :=
  ⟨h, fun _ => trivial⟩

theorem call_store_avoids {c : StoreCall} (h : ¬Notable (.store c)) :
    (callStore c).Avoids Notable :=
  ⟨h, fun _ => trivial⟩

theorem fetch_avoids {c : StoreCall} (h : ¬Notable (.store c)) : (fetch c).Avoids Notable :=
  ⟨h, fun _ => trivial⟩

/-- A program that makes only free calls. -/
theorem avoids_follows {α : Type} {s : Server} {client : String} {program : Prog α}
    (h : program.Avoids Notable) (log : CallLog) :
    program.Follows (Conduct s client) (fun _ _ => True) log :=
  Program.Avoids.follows h conduct_of_not_notable (fun _ _ _ => id) trivial

end AcmeServer
