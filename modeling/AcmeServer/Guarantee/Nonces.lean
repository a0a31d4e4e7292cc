import AcmeServer.Conduct.Runs

/-!
# Nonces are earned

Whatever the store, the limiter and the nonce manager answer, a request is given at most one nonce,
and only if it spent one or nobody minds (`requests_earn_nonces`). With a limiter, the number of
nonces that are handed out is therefore bounded by what was spent and allowed. Without one it is
not: anyone may ask for nonces.
-/

namespace AcmeServer

open Interaction Memstore

/-! ## Counting nonces -/

section Count

variable {s : Server} {log : CallLog}

theorem Unissued.count_eq (h : Unissued log) : log.countP asksNonce = 0 := by
  rw [List.countP_eq_zero]
  exact fun e he => Bool.eq_false_iff.1 (h e he)

theorem asks_nonce_call {e : Exchange Call Call.Answer} (h : asksNonce e = true) :
    e.call = .host .issueNonce := by
  unfold asksNonce at h
  split at h
  · rfl
  · cases h

/-- A call for a nonce is the first one and was earned. -/
theorem kept_nonce {client : String} (h : Kept (Conduct s client) log) {made later : CallLog}
    {e : Exchange Call Call.Answer} (hlog : log = made ++ e :: later) (he : asksNonce e = true) :
    Unissued made ∧ Earned s client made := by
  have hrule := h hlog
  rwa [asks_nonce_call he] at hrule

/-- If a call for a nonce is always the first one, there is at most one. -/
theorem count_nonces_le_one (h : ∀ {made later : CallLog} {e : Exchange Call Call.Answer},
    log = made ++ e :: later → asksNonce e = true → Unissued made) :
    log.countP asksNonce ≤ 1 := by
  induction log using List.reverseRecOn with
  | nil => exact Nat.zero_le 1
  | append_singleton log e ih =>
      rw [List.countP_append, List.countP_singleton]
      split
      · next he => rw [(h rfl he).count_eq]
      · refine ih fun {made later e'} hlog he' => ?_
        have hsplit : log ++ [e] = made ++ e' :: (later ++ [e]) := by
          rw [hlog, List.append_assoc]
          rfl
        exact h hsplit he'

/-- A nonce was spent, or the limiter allowed one. -/
def earnsNonce (e : Exchange Call Call.Answer) : Bool := spendsNonce e || allowsNonce e

theorem Earned.earns {client : String} (h : Earned s client log) (hlimits : s.limits = true) :
    0 < log.countP earnsNonce := by
  rw [List.countP_pos_iff]
  rcases h with ⟨e, he, hspends⟩ | hnone | ⟨e, he, hallows⟩
  · exact ⟨e, he, by rw [earnsNonce, hspends, Bool.true_or]⟩
  · rw [hlimits] at hnone
    cases hnone
  · refine ⟨e, he, ?_⟩
    have hallowed : allowsNonce e = true := by
      unfold allowsNonceFor at hallows
      unfold allowsNonce
      split at hallows
      · simp only [Bool.decide_and, Bool.and_eq_true] at hallows
        exact hallows.1
      · cases hallows
    rw [earnsNonce, hallowed, Bool.or_true]

/-- With a limiter, a thread asks for no more nonces than it earned. -/
theorem count_nonces_le_earned (hlimits : s.limits = true) (h : Kept (Conducted s) log) :
    log.countP asksNonce ≤ log.countP earnsNonce := by
  induction log using List.reverseRecOn with
  | nil => exact le_refl 0
  | append_singleton log e ih =>
      rw [List.countP_append, List.countP_append, List.countP_singleton]
      split
      · next he =>
          obtain ⟨client, hrule⟩ := h rfl
          rw [asks_nonce_call he] at hrule
          rw [hrule.1.count_eq]
          exact Nat.le_add_right_of_le (hrule.2.earns hlimits)
      · refine Nat.le_add_right_of_le (ih fun {made e' later} hlog => ?_)
        have hsplit : log ++ [e] = made ++ e' :: (later ++ [e]) := by
          rw [hlog, List.append_assoc]
          rfl
        exact h hsplit

end Count

/-! ## Requests and runs -/

/-- The exchanges of all programs of a schedule, in which every call, also one of the store, is
answered as the surroundings like. -/
def Server.exchanges (s : Server)
    (schedule : List (Choice ((call : Call) → call.Answer) Server.Start)) :
    List (Exchange Call Call.Answer) :=
  (Interaction.run (fun env => record env) s.program ⟨[], []⟩ schedule).world.map Prod.snd

theorem handed_out_le_asked (exchanges : List (Exchange Call Call.Answer)) :
    exchanges.countP handsOutNonce ≤ exchanges.countP asksNonce := by
  refine List.countP_mono_left fun e _ he => ?_
  unfold handsOutNonce at he
  split at he
  · rfl
  · cases he

theorem earned_le_sum (exchanges : List (Exchange Call Call.Answer)) :
    exchanges.countP earnsNonce ≤
      exchanges.countP spendsNonce + exchanges.countP allowsNonce := by
  induction exchanges with
  | nil => exact le_refl 0
  | cons e rest ih =>
      simp only [List.countP_cons, earnsNonce, Bool.or_eq_true] at ih ⊢
      by_cases hspends : spendsNonce e <;> by_cases hallows : allowsNonce e <;>
        simp [hspends, hallows] <;> omega

/-- While a request is answered the nonce manager is asked for at most one nonce, and only if it
confirmed the nonce of the request, no limiter is configured or the limiter allowed the client a
newNonce. With a limiter, all nonces handed out in a run are therefore no more than the nonces spent
and the newNonce requests allowed. -/
theorem requests_earn_nonces (s : Server) :
    (∀ (r : Request) (log : CallLog) (rest : Prog Unit), Leads (s.serveHTTP r) log rest →
      log.countP asksNonce ≤ 1 ∧
      ∀ before e after, log = before ++ e :: after → asksNonce e = true →
        (∃ e' ∈ before, spendsNonce e' = true) ∨ s.limits = false ∨
          ∃ e' ∈ before, allowsNonceFor r.client e' = true) ∧
    (s.limits = true → ∀ schedule,
      (s.exchanges schedule).countP handsOutNonce ≤
        (s.exchanges schedule).countP spendsNonce + (s.exchanges schedule).countP allowsNonce) := by
  constructor
  · intro r log rest hleads
    have hkept : Kept (Conduct s r.client) log := (serve_http_follows s r).kept hleads
    refine ⟨count_nonces_le_one fun hlog he => (kept_nonce hkept hlog he).1, ?_⟩
    exact fun before e after hlog he => (kept_nonce hkept hlog he).2
  · intro hlimits schedule
    have hfollowed : Followed (Conducted s) id
        (Interaction.run (fun env => record env) s.program ⟨[], []⟩ schedule) :=
      run_follows record_records rfl (program_follows s) schedule
    refine (handed_out_le_asked _).trans (le_trans ?_ (earned_le_sum _))
    exact count_le_of_threads fun thread =>
      count_nonces_le_earned hlimits (hfollowed.kept thread)

/-- Surroundings with an empty store in which nothing fails. -/
def Sample.answers : (call : Call) → call.Answer
  | .store c => (Store.new.apply {} c).1
  | .host c => ({} : Sample.Surroundings).env.host c

/-- A server without a limiter. -/
def Sample.openServer : Server := { Sample.server with limits := false }

/-- A client asks for its first nonce. -/
def Sample.firstNonce : List (Choice ((call : Call) → call.Answer) Server.Start) :=
  [.start (.request { Sample.request "/new-nonce" [] with method := .get }), .step 0 Sample.answers]

/-- A server without a limiter gives anyone a nonce, although none was spent and no limiter allowed
anything. -/
theorem unlimited_nonce_is_not_earned :
    ¬(Sample.openServer.exchanges Sample.firstNonce).countP handsOutNonce ≤
      (Sample.openServer.exchanges Sample.firstNonce).countP spendsNonce +
        (Sample.openServer.exchanges Sample.firstNonce).countP allowsNonce := by
  decide +kernel

end AcmeServer
