import AcmeServer.Challenge.Network

/-!
# The HTTP-01 validator

`HTTP01.Validate` of `challenge/http.go` and the loop of its HTTP client. Whatever resolver and
servers answer, `http_validation_keeps_egress` says where a validation connects, what it requests,
how often, and what a successful one was answered.
-/

namespace AcmeServer.Challenge

open Interaction Interaction.Program Name

/-! ## The code -/

/-- What the validator uses of other packages. `asciiHost` is the host that the transport dials. -/
structure HTTPToolkit where
  platform : Platform
  atoi : String → Option Int
  asciiHost : String → String
  tlsFailure : HostError → Bool

/-- The settings of the validator. The test port is 0 if there is none. -/
structure HTTP01 where
  network : NetworkPolicy
  testPort : Int
  redirects : Nat
  maxBody : Nat

/-- The bytes of a text. -/
def textBytes (s : String) : Bytes := s.toList.flatMap String.utf8EncodeChar

/-- Enforces the redirect scheme, authority and destination port policy before dialing. -/
def checkHTTPURL (target : Target) : Option HostError :=
  if (target.scheme ≠ "http" ∧ target.scheme ≠ "https") ∨ target.host = "" ∨ target.hasUser ∨
      target.opaqueText ≠ "" ∨ target.fragment ≠ "" then
    some (incorrect "HTTP redirect target is not permitted")
  else if target.port ≠ "" ∧ target.port ≠ "80" ∧ target.port ≠ "443" then
    some (incorrect "HTTP redirect port is not permitted")
  else none

/-- The port that the HTTP transport dials. -/
def Target.dialPort (target : Target) : String :=
  if target.port ≠ "" then target.port else if target.scheme = "https" then "443" else "80"

/-- `strings.TrimRight` for blanks, tabs and line ends. -/
def trimRight (bytes : Bytes) : Bytes :=
  (bytes.reverse.dropWhile fun b => b == 0x20 || b == 0x09 || b == 0x0D || b == 0x0A).reverse

/-- `io.ReadAll` of the body through an `io.LimitReader`. -/
def Response.read (response : Response) (limit : Nat) : Except HostError Bytes :=
  if limit ≤ response.content.length then .ok (response.content.take limit)
  else match response.failure with
    | some err => .error err
    | none => .ok response.content

/-- The URL of the proof. -/
def proofTarget (id : Identifier) (request : ValidationRequest) : Target where
  scheme := "http"
  host := id.value
  path := "/.well-known/acme-challenge/" ++ request.challenge.token

variable (t : HTTPToolkit)

namespace HTTP01

variable (v : HTTP01)

/-- Resolves and checks the hostname again for every new connection. -/
def dial (host rawPort : String) : Validation (Except HostError Unit) :=
  match t.atoi rawPort with
  | none => pure (.error (incorrect "HTTP destination port is not permitted"))
  | some port =>
      if port ≠ 80 ∧ port ≠ 443 then
        pure (.error (incorrect "HTTP destination port is not permitted"))
      else v.network.dial t.platform host (if v.testPort ≠ 0 ∧ port = 80 then v.testPort else port)

/-- Where the client goes from a response, with the checks of `CheckRedirect`. -/
def redirectTo (left : Nat) (response : Response) : Except HostError (Option Target) :=
  match response.redirect with
  | none => .ok none
  | some (.error err) => .error err
  | some (.ok next) =>
      if left = 0 then .error (incorrect "HTTP redirect limit exceeded")
      else match checkHTTPURL next with
        | some err => .error err
        | none => .ok (some next)

/-- `http.Client.Do` with the number of requests that may still be made, which is never 0. -/
def follow : Nat → Target → Validation (Except HostError Response)
  | 0, _ => pure (.error (incorrect "HTTP redirect limit exceeded"))
  | left + 1, target => do
      match ← v.dial t (t.asciiHost target.host) target.dialPort with
      | .error err => pure (.error (.wrapped "Get" err))
      | .ok () =>
          match ← ask (.get target) with
          | .error err => pure (.error (.wrapped "Get" err))
          | .ok response =>
              match redirectTo left response with
              | .error err => pure (.error (.wrapped "Get" err))
              | .ok none => pure (.ok response)
              | .ok (some next) => follow left next

/-- The checks of the last response. -/
def checkResponse (request : ValidationRequest) (response : Response) : Except HostError Unit :=
  if response.status ≠ 200 then .error (incorrect "HTTP challenge response was not 200")
  else match response.read (v.maxBody + 1) with
    | .error err =>
        .error (retryable .connection "HTTP proof could not be read"
          (.wrapped "challenge: HTTP proof read" err))
    | .ok body =>
        if v.maxBody < body.length ∨ trimRight body ≠ textBytes request.keyAuthorization then
          .error (incorrect "HTTP challenge proof did not match")
        else .ok ()

/-- Fetches and compares the proof through bounded redirects on ports 80 and 443. -/
def validate (request : ValidationRequest) : Validation (Except HostError Unit) :=
  match checkRequest t.platform request .http01 with
  | .error err => pure (.error err)
  | .ok id => do
      match ← v.follow t (v.redirects + 1) (proofTarget id request) with
      | .error err =>
          pure (.error (retryable (if t.tlsFailure err then .tls else .connection)
            "HTTP validation request failed" (.wrapped "challenge: HTTP validation" err)))
      | .ok response => pure (v.checkResponse request response)

end HTTP01

/-! ## What a validation does -/

/-- The target is the first one, or a server sent the client there from one that was reached. -/
inductive Reached (first : Target) (log : NetLog) : Target → Prop where
  | first : Reached first log first
  | redirect {target next : Target} {response : Response} : Reached first log target →
      ⟨.get target, .ok response⟩ ∈ log → response.redirect = some (.ok next) →
      checkHTTPURL next = none → Reached first log next

theorem Reached.extend {first target : Target} {log log' : NetLog} (h : Reached first log target)
    (hlog : log <+: log') : Reached first log' target := by
  induction h with
  | first => exact .first
  | redirect _ hget hnext hurl ih => exact .redirect ih (hlog.subset hget) hnext hurl

/-- The ports of the validator. -/
def HTTP01.Port (v : HTTP01) (port : Int) : Prop :=
  port = 443 ∨ port = if v.testPort ≠ 0 then v.testPort else 80

/-- The rule for a validation that starts at the target. -/
def HTTP01.Allows (v : HTTP01) (first : Target) : NetLog → NetCall → Prop :=
  Egress v.network v.Port (Reached first) (v.redirects + 1)

section Walk

variable {t} {v : HTTP01} {first : Target} {k : Nat} {log : NetLog}

theorem http_dial_follows (host rawPort : String) (hk : k < v.redirects + 1)
    (h : Used v.network k (k * v.network.maxAddresses) k log) :
    (v.dial t host rawPort).Follows (v.Allows first) (Succeeds fun _ log' =>
      Used v.network (k + 1) ((k + 1) * v.network.maxAddresses) k log' ∧ Connected log') log := by
  unfold HTTP01.dial
  split
  · trivial
  · next port _ =>
    split
    · trivial
    · next hport =>
      refine dial_follows host ?_ hk h
      -- The transport's port 80 is the only one that the test port replaces.
      unfold HTTP01.Port
      split_ifs <;> omega

theorem redirect_to_ok {left : Nat} {response : Response} {next : Target}
    (h : HTTP01.redirectTo left response = .ok (some next)) :
    response.redirect = some (.ok next) ∧ checkHTTPURL next = none := by
  unfold HTTP01.redirectTo at h
  split at h
  · cases h
  · cases h
  · next target hredirect =>
    split_ifs at h
    split at h
    · cases h
    · next hurl =>
      cases h
      exact ⟨hredirect, hurl⟩

/-- The client's loop: a redirect starts the next round, and the last response is returned. -/
theorem follow_follows (left : Nat) (target : Target) (hk : k + left = v.redirects + 1)
    (hreached : Reached first log target)
    (h : Used v.network k (k * v.network.maxAddresses) k log) :
    (v.follow t left target).Follows (v.Allows first) (Succeeds fun response log' =>
      ∃ last, Reached first log' last ∧ log'.getLast? = some ⟨.get last, .ok response⟩) log := by
  induction left generalizing k target log with
  | zero => trivial
  | succ left ih =>
      unfold HTTP01.follow
      refine follows_bind ((http_dial_follows _ _ (by omega) h).extends.weaken ?_)
      intro outcome log' hdial
      cases outcome with
      | error err => trivial
      | ok value =>
          obtain ⟨⟨hused, hconnected⟩, hlog⟩ := hdial
          have hgets := hused.gets.trans_lt (show k < v.redirects + 1 by omega)
          refine follows_bind (follows_perform
            ⟨hused.clean, hconnected, hreached.extend hlog, hgets⟩ fun answer => ?_)
          have hnext : Used v.network (k + 1) ((k + 1) * v.network.maxAddresses) (k + 1)
              (log' ++ [⟨.get target, answer⟩]) := hused.append trivial le_rfl le_rfl le_rfl
          have hreached' := hreached.extend (hlog.trans (List.prefix_append log' [⟨_, answer⟩]))
          cases answer with
          | error err => trivial
          | ok response =>
              dsimp only
              split
              · trivial
              · exact ⟨target, hreached', List.getLast?_concat⟩
              · next next hredirect =>
                obtain ⟨hlocation, hurl⟩ := redirect_to_ok hredirect
                refine ih next (by omega) (.redirect hreached' ?_ hlocation hurl) hnext
                exact List.mem_append_right _ List.mem_cons_self

/-- A response that passes has the proof for its body. -/
theorem check_response_ok {request : ValidationRequest} {response : Response}
    (h : v.checkResponse request response = .ok ()) :
    response.status = 200 ∧ response.content.length ≤ v.maxBody ∧
      trimRight response.content = textBytes request.keyAuthorization := by
  unfold HTTP01.checkResponse Response.read at h
  split_ifs at h with hstatus hlimit
  · -- A body that fills the limit is longer than a proof may be.
    have hlength : (response.content.take (v.maxBody + 1)).length = v.maxBody + 1 := by
      rw [List.length_take]
      omega
    simp only [hlength, Nat.lt_succ_self, true_or, if_true] at h
    cases h
  · cases hfailure : response.failure with
    | some err =>
        rw [hfailure] at h
        cases h
    | none =>
        rw [hfailure] at h
        dsimp only at h
        split_ifs at h with hbody
        rw [not_or, not_lt, not_not] at hbody
        exact ⟨not_not.1 hstatus, hbody⟩

/-- What a successful validation was answered: the proof, by a server that the client came to from
the host of the identifier. -/
def HTTP01.Shown (v : HTTP01) (first : Target) (request : ValidationRequest) (log : NetLog) :
    Prop :=
  ∃ last response, Reached first log last ∧ log.getLast? = some ⟨.get last, .ok response⟩ ∧
    response.status = 200 ∧ response.content.length ≤ v.maxBody ∧
    trimRight response.content = textBytes request.keyAuthorization

end Walk

/-- No call is made for a request that fails its checks. For one that passes, a validation connects,
requests and succeeds as its rule says, whatever it is answered. -/
theorem http_validation_keeps_egress (v : HTTP01) (request : ValidationRequest) :
    (v.validate t request).Follows
      (fun log call => ∃ id, checkRequest t.platform request .http01 = .ok id ∧
        v.Allows (proofTarget id request) log call)
      (Succeeds fun _ log => ∃ id, checkRequest t.platform request .http01 = .ok id ∧
        v.Shown (proofTarget id request) request log) [] := by
  unfold HTTP01.validate
  cases hid : checkRequest t.platform request .http01 with
  | error err => trivial
  | ok id =>
      have hnone : Used v.network 0 (0 * v.network.maxAddresses) 0 [] :=
        ⟨List.forall_mem_nil _, le_rfl, Nat.zero_le _, le_rfl⟩
      have hfollow := follow_follows (t := t) (v.redirects + 1) (proofTarget id request)
        (Nat.zero_add _) .first hnone
      refine follows_bind ((hfollow.relax fun _ _ hrule => ⟨id, rfl, hrule⟩).weaken ?_)
      intro outcome log hlast
      cases outcome with
      | error err => trivial
      | ok response =>
          obtain ⟨last, hreached, hlast⟩ := hlast
          show Succeeds _ (v.checkResponse request response) log
          cases hcheck : v.checkResponse request response with
          | error err => trivial
          | ok value => exact ⟨id, rfl, last, response, hreached, hlast, check_response_ok hcheck⟩

end AcmeServer.Challenge
