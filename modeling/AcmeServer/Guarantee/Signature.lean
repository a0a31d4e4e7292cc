import AcmeServer.Conduct.Signature
import AcmeServer.Nonce.Reference

/-!
# What signatures guarantee in a run

Whatever is running at the same time, a request changes the store, asks for a revocation or is shown
what belongs to an account only if it carries a signed message (`requests_act_only_when_signed`).
With the nonce manager that the server comes with, no two requests act on messages with the same
nonce (`signed_messages_act_once`). A request that comes after its account was deactivated does not
act at all (`deactivated_accounts_never_act`).
-/

namespace AcmeServer

open Interaction Memstore Protocol

/-- The nonce that an event spent, if it did. -/
def Event.spends : Event → Option String
  | ⟨_, _, .host (.consumeNonce nonce), .ok true⟩ => some nonce
  | _ => none

/-- The thread has spent the nonce of the message that its request carries for its own URL, and the
message was signed: with the key of the account that it names, which was stored valid when the
thread looked it up, or with the key that it embeds. -/
structure Vouched (s : Server) (r : Request) (rel : String) (msg : Message) (thread : Nat)
    (earlier : List Event) : Prop where
  carried : s.messageOf r = some msg
  url_eq : msg.url = s.expectedURL r rel
  path_eq : r.escapedPath = s.basePath ++ rel
  spent : ∃ d ∈ earlier, d.thread = thread ∧ d.spends = some msg.nonce
  signed : (msg.key = none ∧ ∃ id account, s.accountIDFromURL msg.keyID = some id ∧
    (∃ d ∈ earlier, d.thread = thread ∧ d.before.accounts.lookup id = some account) ∧
    account.status = .valid ∧ s.verify msg account.key = none) ∨ KeySigned s rel msg

section Runs

variable {s : Server} {schedule : Server.Schedule} {e : Event} {earlier : List Event}

theorem event_of_exchange {thread : Nat} {exchange : Exchange Call Call.Answer}
    (h : exchange ∈ threadLog thread (earlier.map Event.entry)) :
    ∃ before, (⟨thread, before, exchange.call, exchange.answer⟩ : Event) ∈ earlier := by
  obtain ⟨⟨thread, before, call, answer⟩, hd, hentry⟩ := List.mem_map.1 (mem_thread_log.1 h)
  cases hentry
  exact ⟨before, hd⟩

/-- An account that a store call returned was stored at that moment. -/
theorem account_of_event {thread : Nat} {before : Store} {id : String} {reply : Reply (.account id)}
    {account : Account} (h : (⟨thread, before, .store (.account id), reply⟩ : Event) ∈
      (s.run schedule).history) (hresult : reply.result = .ok account) :
    before.accounts.lookup id = some account := by
  obtain ⟨earlier, -, hmoment⟩ := moment_of_mem (Safety.run_progress s [] schedule) h
  obtain ⟨env, after, hexecute, -⟩ := hmoment.executed
  simp only [execute] at hexecute
  split at hexecute
  · obtain ⟨hreply, -⟩ := Prod.mk.inj (Option.some.inj hexecute)
    have hread : reply.result = readResult env.ctx (before.accounts.lookup id) :=
      hreply ▸ apply_account id
    exact (read_result_ok.1 (hread.symm.trans hresult)).2
  · cases hexecute

/-- What a request does in a run is vouched for. -/
theorem run_vouched {r : Request} (hsuffix : e :: earlier <:+ (s.run schedule).history)
    (hstart : (starts schedule)[e.thread]? = some (.request r)) (hacts : Acts e.call) :
    ∃ rel msg, Vouched s r rel msg e.thread earlier := by
  have hruns : Runs World.entries (s.config schedule) e.thread (s.serveHTTP r) :=
    run_started execute_records rfl hstart
  obtain ⟨rest, -, hleads⟩ := hruns
  have hkept : Kept (Authority s r) (threadLog e.thread (s.run schedule).entries) :=
    (serve_http_authorized r).kept hleads
  obtain ⟨later, hlog⟩ := thread_log_of_suffix (hsuffix.map Event.entry)
  obtain ⟨rel, msg, hpresented, hsigned⟩ := hkept hlog hacts
  refine ⟨rel, msg, hpresented.carried, hpresented.url_eq, hpresented.path_eq, ?_, ?_⟩
  · obtain ⟨before, hd⟩ := event_of_exchange hpresented.spent
    exact ⟨_, hd, rfl, rfl⟩
  · refine hsigned.imp_left fun ⟨hkey, id, reply, account, hid, hread, hresult, hrest⟩ => ?_
    obtain ⟨before, hd⟩ := event_of_exchange hread
    have hmem := hsuffix.mem (List.mem_cons_of_mem _ hd)
    exact ⟨hkey, id, account, hid, ⟨_, hd, rfl, account_of_event hmem hresult⟩, hrest⟩

end Runs

/-- Every call by which a request changes the store, asks for a revocation or shows what belongs to
an account comes after the request has spent the nonce of a message that it carries for its own URL
and that was signed, with the key of an account that was stored valid at that moment or, for a new
account or a revocation, with the key that the message embeds. -/
theorem requests_act_only_when_signed (s : Server) (schedule : Server.Schedule) (r : Request)
    (e : Event) (earlier : List Event) (hsuffix : e :: earlier <:+ (s.run schedule).history)
    (hstart : (starts schedule)[e.thread]? = some (.request r)) (hacts : Acts e.call) :
    ∃ rel msg, Vouched s r rel msg e.thread earlier :=
  run_vouched hsuffix hstart hacts

/-- The account of the client of the sample server is created, and shown to it at last. -/
theorem registration_shown : ∃ e ∈ (Sample.server.run Sample.register).history.head?,
    (e.thread = 0 ∧ Acts e.call) ∧ ∃ e' ∈ (Sample.server.run Sample.register).history.tail,
      e'.thread = 0 ∧ Acts e'.call := by
  decide +kernel

theorem registration_is_signed : ∃ e earlier,
    (Sample.server.run Sample.register).history = e :: earlier ∧ Acts e.call ∧ ∃ rel msg,
      Vouched Sample.server (Sample.request "/new-account" [0]) rel msg e.thread earlier := by
  obtain ⟨e, he, ⟨hthread, hacts⟩, -⟩ := registration_shown
  obtain ⟨earlier, hhistory⟩ := List.head?_eq_some_iff.1 he
  refine ⟨e, earlier, hhistory, hacts, requests_act_only_when_signed _ _ _ e earlier
    ⟨[], hhistory.symm⟩ ?_ hacts⟩
  rw [hthread]
  rfl

/-! ## Nonces -/

/-- The nonce that a call of the manager spent, if it did. -/
def spentNonce : Nonce.Call × Nonce.Answer → Option String
  | (.consume _ _ value, .consumed true) => some value
  | _ => none

/-- The nonces that a manager accepts, the oldest first. -/
def acceptedNonces (encode : Bytes → String) (opts : Nonce.Options) (source : List Bytes)
    (calls : List Nonce.Call) : List String :=
  (calls.zip ((Nonce.new opts (source.map some)).run encode calls).1).filterMap spentNonce

/-- With a clock that does not go back and a random source that does not repeat a value, a manager
accepts a nonce once. -/
theorem accepted_nonces_nodup {encode : Bytes → String} {opts : Nonce.Options} {source : List Bytes}
    {calls : List Nonce.Call} (hunrepeated : (source.map encode).Nodup)
    (hclock : (calls.map Nonce.Call.now).Pairwise (· ≤ ·)) :
    (acceptedNonces encode opts source calls).Nodup := by
  obtain ⟨clock, hstart⟩ : ∃ clock : Time,
      (clock :: calls.map Nonce.Call.now).Pairwise (· ≤ ·) := by
    cases calls with
    | nil => exact ⟨0, List.pairwise_singleton _ _⟩
    | cons call rest =>
        refine ⟨call.now, List.pairwise_cons.2 ⟨fun t ht => ?_, hclock⟩⟩
        rcases List.mem_cons.1 ht with rfl | ht
        · exact le_refl _
        · exact (List.pairwise_cons.1 hclock).1 t ht
  have hnew : Nonce.Manager.Refines encode clock (Nonce.new opts (source.map some))
      ⟨[], source.map encode⟩ := Nonce.Manager.new_refines hunrepeated clock
  obtain ⟨hanswers, -⟩ := hnew.run hstart
  rw [List.nodup_iff_count_le_one]
  intro value
  rw [acceptedNonces, hanswers, List.count_filterMap]
  refine le_trans (le_of_eq (List.countP_congr fun pair _ => ?_))
    ((Nonce.Reference.run_accepts _ calls value).trans
      (List.nodup_iff_count_le_one.1 hunrepeated value))
  rcases pair with ⟨_ | ⟨ctx, now, v⟩, _ | (_ | _) | _ | _ | _⟩ <;>
    simp [spentNonce, Nonce.accepts]

/-- No two elements give the same value if the values do not repeat. -/
theorem eq_of_filter_map_nodup {α β : Type} {f : α → Option β} {l : List α}
    (h : (l.filterMap f).Nodup) {a b : α} (ha : a ∈ l) (hb : b ∈ l) {value : β}
    (hfa : f a = some value) (hfb : f b = some value) : a = b := by
  by_contra hne
  have hsymm : Std.Symm fun x y : α => ∀ u, f x = some u → ∀ w, f y = some w → u ≠ w :=
    ⟨fun x y hxy u hu w hw => (hxy w hw u hu).symm⟩
  exact (List.pairwise_filterMap.1 h).forall ha hb hne value hfa value hfb rfl

/-- If the nonces that were spent are those that a nonce manager accepted, whose clock does not go
back and whose random source does not repeat a value, then requests that act on messages with the
same nonce are one request. -/
theorem signed_messages_act_once (s : Server) (schedule : Server.Schedule) (encode : Bytes → String)
    (opts : Nonce.Options) (source : List Bytes) (calls : List Nonce.Call)
    (hunrepeated : (source.map encode).Nodup)
    (hclock : (calls.map Nonce.Call.now).Pairwise (· ≤ ·))
    (hserved : ((s.run schedule).history.filterMap Event.spends).reverse =
      acceptedNonces encode opts source calls)
    (r r' : Request) (msg msg' : Message) (hmsg : s.messageOf r = some msg)
    (hmsg' : s.messageOf r' = some msg') (hnonce : msg.nonce = msg'.nonce) (e e' : Event)
    (he : e ∈ (s.run schedule).history) (he' : e' ∈ (s.run schedule).history)
    (hstart : (starts schedule)[e.thread]? = some (.request r))
    (hstart' : (starts schedule)[e'.thread]? = some (.request r'))
    (hacts : Acts e.call) (hacts' : Acts e'.call) : e.thread = e'.thread := by
  have hspent {r : Request} {msg : Message} (hmsg : s.messageOf r = some msg) {e : Event}
      (he : e ∈ (s.run schedule).history)
      (hstart : (starts schedule)[e.thread]? = some (.request r)) (hacts : Acts e.call) :
      ∃ d ∈ (s.run schedule).history, d.thread = e.thread ∧ d.spends = some msg.nonce := by
    obtain ⟨newer, earlier, hhistory⟩ := List.append_of_mem he
    have hsuffix : e :: earlier <:+ (s.run schedule).history := ⟨newer, hhistory.symm⟩
    obtain ⟨rel, found, hvouched⟩ := run_vouched hsuffix hstart hacts
    cases Option.some.inj (hmsg.symm.trans hvouched.carried)
    obtain ⟨d, hd, hrest⟩ := hvouched.spent
    exact ⟨d, hsuffix.mem (List.mem_cons_of_mem _ hd), hrest⟩
  obtain ⟨d, hd, hthread, hspends⟩ := hspent hmsg he hstart hacts
  obtain ⟨d', hd', hthread', hspends'⟩ := hspent hmsg' he' hstart' hacts'
  have hnodup : ((s.run schedule).history.filterMap Event.spends).Nodup := by
    rw [← List.nodup_reverse, hserved]
    exact accepted_nonces_nodup hunrepeated hclock
  rw [← hnonce] at hspends'
  rw [← hthread, ← hthread', eq_of_filter_map_nodup hnodup hd hd' hspends hspends']

/-- The client of the sample server registers with the only nonce of a manager. -/
theorem registration_acts_once : ∃ e ∈ (Sample.server.run Sample.register).history.head?,
    ∃ e' ∈ (Sample.server.run Sample.register).history.tail,
      Acts e.call ∧ Acts e'.call ∧ e.thread = e'.thread := by
  obtain ⟨e, he, ⟨hthread, hacts⟩, e', he', hthread', hacts'⟩ := registration_shown
  have hstart {thread : Nat} (h : thread = 0) : (starts Sample.register)[thread]? =
      some (.request (Sample.request "/new-account" [0])) := by
    rw [h]
    rfl
  exact ⟨e, he, e', he', hacts, hacts', signed_messages_act_once Sample.server Sample.register
    (fun _ => "nonce") ⟨10, 2⟩ [[1]] [.issue none 0, .consume none 1 "nonce"] (by decide)
    (by decide) (by decide +kernel) _ _ _ _ rfl rfl rfl e e' (List.mem_of_mem_head? he)
    (List.mem_of_mem_tail he') (hstart hthread) (hstart hthread') hacts hacts'⟩

/-! ## Deactivated accounts -/

/-- The account is stored and not valid. -/
def Locked (id : String) (st : Store) : Prop :=
  ∃ a, st.accounts.lookup id = some a ∧ a.status ≠ .valid

/-- A locked account stays so, and the thread only ever sees it locked. -/
theorem locked_later {s : Server} {id : String} {thread : Nat} {u w : World}
    (hlater : s.contract.Later u w) (hlocked : Locked id u.store)
    (hthread : ∀ e ∈ u.history, e.thread ≠ thread) :
    ∀ e ∈ w.history, e.thread = thread → Locked id e.before := by
  refine (hlater.stable (P := fun w => Locked id w.store ∧
    ∀ e ∈ w.history, e.thread = thread → Locked id e.before) ?_
    ⟨hlocked, fun e he heq => absurd heq (hthread e he)⟩).2
  intro env actor call answer v w hinv hpermitted hexecute ⟨⟨a, ha, hstatus⟩, hevents⟩
  have hexecuted := executed_of_execute hexecute
  refine ⟨?_, ?_⟩
  · obtain ⟨a', ha', hstep⟩ := (hexecuted.evolution hinv hpermitted).accounts id a ha
    refine ⟨a', ha', fun hvalid => hstatus ?_⟩
    rcases hstep with rfl | hstep
    · exact hvalid
    · exact account_valid_before (.single hstep) hvalid
  · rw [hexecuted.history_eq]
    exact List.forall_mem_cons.2 ⟨fun _ => ⟨a, ha, hstatus⟩, hevents⟩

/-- A request whose message names an account that was no longer valid when the request came in does
not act, whatever happens while it is handled. -/
theorem deactivated_accounts_never_act (s : Server) (schedule later : Server.Schedule) (r : Request)
    (msg : Message) (id : String) (account : Account) (hmsg : s.messageOf r = some msg)
    (hkey : msg.key = none) (hid : s.accountIDFromURL msg.keyID = some id)
    (haccount : (s.run schedule).store.accounts.lookup id = some account)
    (hstatus : account.status ≠ .valid) (e : Event)
    (he : e ∈ (s.run (schedule ++ .start (.request r) :: later)).history)
    (hthread : e.thread = (starts schedule).length) : ¬Acts e.call := by
  intro hacts
  obtain ⟨newer, earlier, hhistory⟩ := List.append_of_mem he
  have hsuffix : e :: earlier <:+ (s.run (schedule ++ .start (.request r) :: later)).history :=
    ⟨newer, hhistory.symm⟩
  have hstart : (starts (schedule ++ .start (.request r) :: later))[e.thread]? =
      some (.request r) := by
    rw [hthread, starts, List.filterMap_append, starts, List.getElem?_append_right (le_refl _),
      Nat.sub_self]
    rfl
  obtain ⟨rel, found, hvouched⟩ := run_vouched hsuffix hstart hacts
  cases Option.some.inj (hmsg.symm.trans hvouched.carried)
  rcases hvouched.signed with
    ⟨-, id', account', hid', ⟨d, hd, hdthread, hlookup⟩, hvalid, -⟩ | hkeyed
  · cases Option.some.inj (hid.symm.trans hid')
    have hunborn (e : Event) (he : e ∈ (s.run schedule).history) :
        e.thread ≠ (starts schedule).length := by
      intro hlength
      have hfollowed : Followed (Conducted s) World.entries (s.config schedule) :=
        run_follows execute_records rfl (program_follows s) schedule
      have hnone := hfollowed.unborn (le_of_eq ((length_threads schedule).trans hlength.symm))
      have hmem := mem_thread_log.2 (List.mem_map_of_mem (f := Event.entry) he)
      exact List.not_mem_nil (hnone ▸ hmem)
    obtain ⟨a, ha, hnot⟩ := locked_later (Safety.run_progress s schedule _) ⟨account, haccount,
      hstatus⟩ hunborn d (hsuffix.mem (List.mem_cons_of_mem _ hd)) (hdthread.trans hthread)
    rw [hlookup] at ha
    cases ha
    exact hnot hvalid
  · obtain ⟨-, key, hsome, -⟩ := hkeyed
    rw [hkey] at hsome
    cases hsome

/-- A server whose client may ask for the deactivation of its account. -/
def Sample.closingServer : Server :=
  { Sample.server with
    parseJWS := fun body => if body = [9] then .ok (Sample.message "acct/alice" none [0])
      else Sample.parseJWS body
    decodeAccountUpdate := fun _ => .ok ⟨none, some "deactivated"⟩ }

/-- The client registers and deactivates its account. -/
def Sample.close : Server.Schedule :=
  Sample.register ++ Sample.post "/acct/alice" [9] ++ Sample.steps 1 5 {}

/-- An order of the client that deactivated its account is refused. -/
theorem closed_account_never_acts : ∃ e ∈ (Sample.closingServer.run (Sample.close ++
    .start (.request (Sample.request "/new-order" [1])) :: Sample.steps 2 5 {})).history,
    e.thread = 2 ∧ ¬Acts e.call := by
  obtain ⟨account, haccount, hstatus⟩ : ∃ account ∈
      (Sample.closingServer.run Sample.close).store.accounts.lookup "alice",
      account.status ≠ .valid := by
    decide +kernel
  obtain ⟨e, he, hthread⟩ : ∃ e ∈ (Sample.closingServer.run (Sample.close ++
      .start (.request (Sample.request "/new-order" [1])) :: Sample.steps 2 5 {})).history,
      e.thread = 2 := by
    decide +kernel
  exact ⟨e, he, hthread, deactivated_accounts_never_act Sample.closingServer Sample.close _ _ _
    "alice" account rfl rfl (by decide) haccount hstatus e he hthread⟩

end AcmeServer
