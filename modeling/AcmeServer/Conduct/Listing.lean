import AcmeServer.Conduct.Runs

/-!
# Listing the orders of an account

What a request for the orders of an account does before it answers. `Shown` is what has happened
when it answers with a page: the store was asked for the page and for one ID more, and each order on
the page was looked up and checked at one time. `Unlisted` is what has happened when it answers that
the cursor is unknown. `serve_account_orders_lists` says that there are no other such answers.
-/

namespace AcmeServer

open Interaction Memstore Attempt

/-! ## Links -/

/-- The target of a link with the given relation. -/
def linkTarget (rel value : String) : Option String :=
  let closing := (">;rel=\"" ++ rel ++ "\"").toList
  let rest := value.toList.tail
  if value.toList.head? = some '<' ∧ closing <:+ rest then
    some (String.ofList (rest.take (rest.length - closing.length)))
  else none

/-- The page that a header says is next. -/
def nextLink (header : Header) : Option String :=
  header.findSome? fun entry => if entry.1 = "Link" then linkTarget "next" entry.2 else none

theorem link_target_eq (rel url : String) :
    linkTarget rel ("<" ++ url ++ (">;rel=\"" ++ rel ++ "\"")) = some url := by
  have htext : ("<" ++ url ++ (">;rel=\"" ++ rel ++ "\"")).toList =
      '<' :: (url.toList ++ (">;rel=\"" ++ rel ++ "\"").toList) := by
    simp only [String.toList_append]
    rfl
  unfold linkTarget
  simp only [htext, List.tail_cons, List.head?_cons, List.suffix_append, and_self, if_true]
  rw [List.length_append, Nat.add_sub_cancel, List.take_left, String.ofList_toList]

/-- A link to the index is not a link to a next page. -/
theorem link_target_index (url : String) :
    linkTarget "next" ("<" ++ url ++ ">;rel=\"index\"") = none := by
  have htext : ("<" ++ url ++ ">;rel=\"index\"").toList =
      '<' :: (url.toList ++ ">;rel=\"index\"".toList) := by
    simp only [String.toList_append]
    rfl
  unfold linkTarget
  simp only [htext, List.tail_cons]
  refine if_neg fun ⟨_, hsuffix⟩ => ?_
  rw [← List.reverse_prefix, List.reverse_append] at hsuffix
  have hreverse : (">;rel=\"" ++ "next" ++ "\"").toList.reverse =
      '"' :: 't' :: "xen\"=ler;>".toList := by decide
  have hindex : ">;rel=\"index\"".toList.reverse = '"' :: 'x' :: "edni\"=ler;>".toList := by decide
  rw [hreverse, hindex, List.cons_append, List.cons_append, List.cons_prefix_cons,
    List.cons_prefix_cons] at hsuffix
  exact absurd hsuffix.2.1 (by decide)

theorem next_link_put {header : Header} {name : String} (hname : name ≠ "Link") (value : String) :
    nextLink (header.put name value) = nextLink header := by
  unfold nextLink Header.put
  rw [List.findSome?_append]
  have hlast : [(name, value)].findSome? (fun entry : String × String =>
      if entry.1 = "Link" then linkTarget "next" entry.2 else none) = none := by
    simp [hname]
  rw [hlast, Option.or_none]
  induction header with
  | nil => rfl
  | cons entry header ih =>
      by_cases hentry : entry.1 = name
      · have hne : entry.1 ≠ "Link" := hentry ▸ hname
        rw [List.filter_cons_of_neg (by simp [hentry]), List.findSome?_cons, if_neg hne, ih]
      · rw [List.filter_cons_of_pos (by simp [hentry]), List.findSome?_cons, List.findSome?_cons,
          ih]

theorem next_link_index (header : Header) (url : String) :
    nextLink (header.add "Link" ("<" ++ url ++ ">;rel=\"index\"")) = nextLink header := by
  unfold nextLink Header.add
  rw [List.findSome?_append]
  simp [link_target_index]

theorem next_link_next (url : String) :
    nextLink (Header.add [] "Link" ("<" ++ url ++ ">;rel=\"next\"")) = some url := by
  have htarget : linkTarget "next" ("<" ++ url ++ ">;rel=\"next\"") = some url :=
    link_target_eq "next" url
  simp [nextLink, Header.add, htarget]

/-! ## Exchanges -/

/-- The exchange that reads a stored order. -/
def readsOrder (read : String × Order) : Exchange Call Call.Answer :=
  ⟨.store (.order read.1), ⟨.ok read.2, ()⟩⟩

/-- The ID of the order that an exchange looks up, if it does. -/
def looksUp : Exchange Call Call.Answer → Option String
  | ⟨.store (.order id), _⟩ => some id
  | _ => none

/-- The time that an exchange reads from the clock, if it does. -/
def readsClock : Exchange Call Call.Answer → Option Time
  | ⟨.host .now, now⟩ => some now
  | _ => none

/-- The exchanges look up no order and do not read the clock. -/
def Quiet (log : CallLog) : Prop := ∀ e ∈ log, looksUp e = none ∧ readsClock e = none

theorem quiet_nil : Quiet [] := fun _ he => absurd he List.not_mem_nil

theorem Quiet.concat {log : CallLog} {e : Exchange Call Call.Answer} (h : Quiet log)
    (hlooks : looksUp e = none) (hreads : readsClock e = none) : Quiet (log ++ [e]) := by
  intro e' he'
  rcases List.mem_append.1 he' with hold | hnew
  · exact h e' hold
  · rw [List.mem_singleton.1 hnew]
    exact ⟨hlooks, hreads⟩

/-! ## The rule -/

/-- The URL of the page behind a cursor. -/
def Server.nextOrdersURL (s : Server) (account cursor : String) : String :=
  s.resourceURL ("acct/" ++ account ++ "/orders") ++ "?cursor=" ++ s.queryEscape cursor

/-- The exchanges listed a page of the orders behind the cursor, and this is what was shown. -/
inductive Shown (s : Server) (account cursor : String) (log : CallLog) (header : Header)
    (urls : List String) : Prop where
  | intro (before after : CallLog) (reply : Reply (.orderIDs account cursor (ordersPageSize + 1)))
      (ids : List String) (now : Time) (reads : List (String × Order))
      (hlog : log = before ++ ⟨.store (.orderIDs account cursor (ordersPageSize + 1)), reply⟩ ::
        (⟨.host .now, now⟩ :: reads.map readsOrder ++ after))
      (hbefore : Quiet before) (hafter : Quiet after) (hids : reply.result = .ok ids)
      (hreads : reads.map Prod.fst = ids.take ordersPageSize)
      (hurls : urls = (reads.filter fun read => read.2.statusAt now ≠ .invalid).map fun read =>
        s.resourceURL ("order/" ++ read.1))
      (hlink : nextLink header =
        if ordersPageSize < ids.length then
          some (s.nextOrdersURL account ((ids.take ordersPageSize).getLastD ""))
        else none)

/-- Why a request may be told that its cursor is unknown: the cursor has no ID in it, the store does
not know it, or those words come from elsewhere. -/
inductive Unlisted (s : Server) (account cursor : String) (log : CallLog) : Prop where
  | malformed (hcursor : cursor ≠ "") (hvalid : validID cursor = false)
  | missing (reply : Reply (.orderIDs account cursor (ordersPageSize + 1)))
      (hreply : ⟨.store (.orderIDs account cursor (ordersPageSize + 1)), reply⟩ ∈ log)
      (hmissing : reply.result = .error .notFound)
  | parsed (body : Bytes) (err : JWSError) (herr : s.parseJWS body = .error err)
      (hdetail : err.detail = "unknown cursor")
  | verified (msg : Message) (key : PublicKey) (err : JWSError) (herr : s.verify msg key = some err)
      (hdetail : err.detail = "unknown cursor")
  | limited (request : LimitRequest) (err : HostError) (p : Problem)
      (hlimit : ⟨.host (.allow request), some err⟩ ∈ log) (hproblem : err.asProblem = some p)
      (hdetail : p.detail = "unknown cursor")

/-- When a request for the orders behind the cursor may be answered. -/
def Lists (s : Server) (account cursor : String) (log : CallLog) : Call → Prop
  | .host (.respond _ response) =>
      (∀ urls, response.body = .orders urls → Shown s account cursor log response.header urls) ∧
      ∀ p, response.body = .problem p → p.detail = "unknown cursor" →
        Unlisted s account cursor log
  | _ => True

variable {s : Server} {account cursor : String} {log : CallLog}

theorem Unlisted.concat (h : Unlisted s account cursor log) (e : Exchange Call Call.Answer) :
    Unlisted s account cursor (log ++ [e]) := by
  cases h with
  | malformed hcursor hvalid => exact .malformed hcursor hvalid
  | missing reply hreply hmissing =>
      exact .missing reply (List.mem_append_left _ hreply) hmissing
  | parsed body err herr hdetail => exact .parsed body err herr hdetail
  | verified msg key err herr hdetail => exact .verified msg key err herr hdetail
  | limited request err p hlimit hproblem hdetail =>
      exact .limited request err p (List.mem_append_left _ hlimit) hproblem hdetail

/-- A problem for which there is a reason, if it says that the cursor is unknown. -/
def Excused (s : Server) (account cursor : String) (p : Problem) (log : CallLog) : Prop :=
  p.detail = "unknown cursor" → Unlisted s account cursor log

theorem Excused.concat {p : Problem} (h : Excused s account cursor p log)
    (e : Exchange Call Call.Answer) : Excused s account cursor p (log ++ [e]) :=
  fun hdetail => (h hdetail).concat e

/-- A problem that says something else. -/
theorem excused_of_ne {p : Problem} (h : p.detail ≠ "unknown cursor") :
    Excused s account cursor p log := fun hdetail => absurd hdetail h

/-! ## Problems -/

/-- A text that begins with another letter. -/
theorem other_text {text : String} (h : text.toList.head? ≠ some 'u') :
    text ≠ "unknown cursor" := by
  rintro rfl
  exact h rfl

theorem problem_from_jws_detail (err : JWSError) :
    (problemFromJWS err).detail = err.detail ∨ (problemFromJWS err).detail = "invalid JWS" := by
  unfold problemFromJWS
  split
  · exact .inr rfl
  all_goals exact .inl rfl

theorem write_problem_without_nonce_lists (r : Request) (header : Header) {p : Problem}
    (h : Excused s account cursor p log) :
    (s.writeProblemWithoutNonce r header p).Follows (Lists s account cursor) (fun _ _ => True)
      log := by
  refine Program.follows_perform ⟨nofun, fun p' hp => ?_⟩ fun _ => trivial
  cases hp
  exact h

theorem write_problem_lists (r : Request) (st : RequestState) {p : Problem}
    (h : Excused s account cursor p log) :
    (s.writeProblem r st p).Follows (Lists s account cursor) (fun _ _ => True) log := by
  unfold Server.writeProblem
  extract_lets respond
  have hnone {log : CallLog} (h : Excused s account cursor p log) :
      (respond none).Follows (Lists s account cursor) (fun _ _ => True) log := by
    refine Program.follows_bind (Program.follows_bind (Program.follows_perform trivial ?_))
    intro answer
    cases answer with
    | ok nonce => exact write_problem_without_nonce_lists r _ (h.concat _)
    | error err => exact write_problem_without_nonce_lists r _ (h.concat _)
  split
  · exact hnone h
  · unfold Server.checkLimit
    split
    · refine Program.follows_bind (Program.follows_bind (Program.follows_perform trivial ?_))
      intro answer
      cases answer with
      | none => exact hnone (h.concat _)
      | some err =>
          -- The limiter may have words of its own.
          have hlimit : Excused s account cursor
              (err.asProblem.getD (newProblem .serverInternal "rate limit check failed"))
              (log ++ [⟨.host (.allow { kind := .newNonce, client := r.client }), some err⟩]) := by
            cases hproblem : err.asProblem with
            | none => exact excused_of_ne (by decide)
            | some refusal =>
                exact fun hdetail => .limited _ err refusal (List.mem_append_right _
                  (List.mem_singleton_self _)) hproblem hdetail
          refine write_problem_without_nonce_lists r _ ?_
          split
          · exact hlimit
          · exact h.concat _
    · exact hnone h

/-! ## Reading the request -/

/-- A part of the request that neither answers it nor lists anything. -/
def Prepares (s : Server) (account cursor : String) {α : Type} (m : Handler α) : Prop :=
  ∀ st log, Quiet log →
    m.Follows (Lists s account cursor) st
      (fun _ st' log' => st'.header = st.header ∧ Quiet log')
      (fun p _ => Excused s account cursor p) log

theorem Prepares.bind {α β : Type} {m : Handler α} {f : α → Handler β}
    (hm : Prepares s account cursor m) (hf : ∀ value, Prepares s account cursor (f value)) :
    Prepares s account cursor (m >>= f) := fun st log hlog =>
  follows_bind ((hm st log hlog).weaken (fun value st' log' h =>
    (hf value st' log' h.2).weaken (fun _ _ _ h' => ⟨h'.1.trans h.1, h'.2⟩) fun _ _ _ => id)
    fun _ _ _ => id)

theorem Prepares.pure {α : Type} (value : α) : Prepares s account cursor (Pure.pure value) :=
  fun _ _ hlog => ⟨rfl, hlog⟩

theorem Prepares.fail_if {c : Prop} [Decidable c] {p : Problem}
    (h : p.detail ≠ "unknown cursor") : Prepares s account cursor (failIf c p) := fun _ _ hlog =>
  follows_fail_if (fun _ => excused_of_ne h) fun _ => ⟨rfl, hlog⟩

theorem Prepares.expect {α : Type} {result : Except Problem α}
    (h : ∀ p log, result = .error p → Excused s account cursor p log) :
    Prepares s account cursor (Attempt.expect result) := fun _ log hlog =>
  follows_expect (fun p hp => h p log hp) fun _ _ => ⟨rfl, hlog⟩

theorem Prepares.check {problem : Option Problem}
    (h : ∀ p log, problem = some p → Excused s account cursor p log) :
    Prepares s account cursor (Attempt.check problem) := fun _ log hlog =>
  follows_check (fun p hp => h p log hp) fun _ => ⟨rfl, hlog⟩

theorem read_body_error {r : Request} {p : Problem} (h : s.readBody r = .error p) :
    p.detail ≠ "unknown cursor" := by
  unfold Server.readBody at h
  split at h
  · cases h
    decide
  · cases h
    decide
  · split at h
    · cases h
      refine other_text (?_ :
        ("request body exceeds " ++ toString s.maxBody ++ " bytes").toList.head? ≠ some 'u')
      rw [String.toList_append, String.toList_append]
      exact show some 'r' ≠ some 'u' by decide
    · cases h

theorem lookup_account_prepares (kid : String) :
    Prepares s account cursor (s.lookupAccount kid) := by
  unfold Server.lookupAccount
  refine .bind (.expect fun p log h => ?_) fun id => ?_
  · split at h
    · cases h
    · cases h
      exact excused_of_ne (by decide)
  · refine .bind (fun st log hlog => follows_lift (Program.follows_bind
      (Program.follows_perform trivial fun reply => ⟨rfl, hlog.concat rfl rfl⟩))) fun found => ?_
    refine .bind (.expect fun p log h => ?_) fun found => ?_
    · obtain ⟨err, -, rfl⟩ := Fallible.map_error_eq_error.1 h
      split
      · exact excused_of_ne (by decide)
      · exact excused_of_ne (by decide)
    · refine .bind (.fail_if (other_text
        (?_ : ("account is " ++ found.status.text).toList.head? ≠ some 'u'))) fun _ => .pure found
      rw [String.toList_append]
      exact show some 'a' ≠ some 'u' by decide

/-- A signature that does not verify. -/
theorem jws_excused {err : JWSError}
    (h : err.detail = "unknown cursor" → Unlisted s account cursor log) :
    Excused s account cursor (problemFromJWS err) log := by
  rcases problem_from_jws_detail err with hdetail | hdetail
  · exact fun hunknown => h (hdetail.symm.trans hunknown)
  · exact excused_of_ne (by rw [hdetail]; decide)

theorem read_owned_account_prepares (r : Request) (id rel : String) :
    Prepares s account cursor (s.readOwnedAccount r id rel) := by
  refine .bind ?_ fun req => .bind (.fail_if (by decide)) fun _ => .pure req
  unfold Server.readSignedRequest
  refine .bind (.fail_if (by decide)) fun _ => .bind (.expect fun p log h => ?_) fun body => ?_
  · exact excused_of_ne (read_body_error h)
  refine .bind (.expect fun p log h => ?_) fun msg => ?_
  · obtain ⟨err, herr, rfl⟩ := Fallible.map_error_eq_error.1 h
    exact jws_excused fun hdetail => .parsed body err herr hdetail
  refine .bind (fun st log hlog => follows_lift (Program.follows_perform trivial fun answer =>
    ⟨rfl, hlog.concat rfl rfl⟩)) fun known => .bind (.expect fun p log h => ?_) fun valid => ?_
  · obtain ⟨err, -, rfl⟩ := Fallible.map_error_eq_error.1 h
    exact excused_of_ne (by decide)
  refine .bind (.fail_if (by decide)) fun _ => .bind (fun st log hlog => ⟨rfl, hlog⟩) fun _ => ?_
  refine .bind (.fail_if (by decide)) fun _ => .bind ?_ fun signer => ?_
  · unfold Server.readSigner
    dsimp only
    split
    · exact fun _ _ _ => excused_of_ne (by decide)
    · exact lookup_account_prepares _
  refine .bind (.check fun p log h => ?_) fun _ => .pure _
  obtain ⟨err, herr, rfl⟩ := Option.map_eq_some_iff.1 h
  exact jws_excused fun hdetail => .verified msg _ err herr hdetail

/-! ## Listing -/

/-- The orders on a page are looked up one after the other. -/
theorem order_urls_lists (now : Time) (ids : List String) (st : RequestState) (log : CallLog) :
    (s.orderURLs now ids).Follows (Lists s account cursor) st
      (fun urls st' log' => st' = st ∧ ∃ reads : List (String × Order),
        reads.map Prod.fst = ids ∧ log' = log ++ reads.map readsOrder ∧
        urls = (reads.filter fun read => read.2.statusAt now ≠ .invalid).map fun read =>
          s.resourceURL ("order/" ++ read.1))
      (fun p _ => Excused s account cursor p) log := by
  induction ids generalizing log with
  | nil => exact ⟨rfl, [], rfl, (List.append_nil log).symm, rfl⟩
  | cons id rest ih =>
      refine follows_bind (follows_lift (Program.follows_bind
        (Program.follows_perform trivial fun reply => ?_)))
      obtain ⟨result, args⟩ := reply
      refine follows_bind (follows_expect (fun p hp => ?_) fun order horder => ?_)
      · obtain ⟨err, -, rfl⟩ := Fallible.map_error_eq_error.1 hp
        exact excused_of_ne (by decide)
      cases Fallible.map_error_eq_ok.1 horder
      refine follows_bind ((ih _).weaken ?_ fun _ _ _ h => h)
      rintro urls st' log' ⟨rfl, reads, hids, rfl, rfl⟩
      split
      · next hstatus =>
          refine ⟨rfl, (id, order) :: reads, by rw [List.map_cons, hids], ?_, ?_⟩
          · rw [List.append_assoc]
            rfl
          · rw [List.filter_cons_of_pos (by simpa using hstatus), List.map_cons]
      · next hstatus =>
          refine ⟨rfl, (id, order) :: reads, by rw [List.map_cons, hids], ?_, ?_⟩
          · rw [List.append_assoc]
            rfl
          · rw [List.filter_cons_of_neg (by simpa using hstatus)]

/-- A page is written with the link to the next one, if there is one. -/
theorem write_orders_lists (r : Request) {st : RequestState} {urls : List String}
    (h : ∀ after header, Quiet after → nextLink header = nextLink st.header →
      Shown s account cursor (log ++ after) header urls) :
    (s.writeJSON r 200 (.orders urls)).Follows (Lists s account cursor) st (fun _ _ _ => True)
      (fun p _ => Excused s account cursor p) log := by
  have hcommon : nextLink (s.commonHeaders st.header) = nextLink st.header := by
    unfold Server.commonHeaders
    rw [next_link_index, next_link_put (by decide)]
  have hquiet (answer : Except HostError String) : Quiet [⟨.host .issueNonce, answer⟩] := by
    intro e he
    rw [List.mem_singleton.1 he]
    exact ⟨rfl, rfl⟩
  have hrespond (answer : Except HostError String) (header : Header)
      (hheader : nextLink header = nextLink st.header) :
      (ask (.respond r ⟨200, header.put "Content-Type" "application/json", .orders urls⟩)).Follows
        (Lists s account cursor) (fun _ _ => True) (log ++ [⟨.host .issueNonce, answer⟩]) := by
    refine Program.follows_perform ⟨fun urls' hurls => ?_, nofun⟩ fun _ => trivial
    cases hurls
    exact h _ _ (hquiet answer) ((next_link_put (by decide) _).trans hheader)
  refine follows_bind (m := get) (?_ : Follows _ (_ >>= _) st _ _ log)
  refine follows_bind (follows_lift (Program.follows_bind (Program.follows_perform trivial ?_)))
  intro answer
  cases answer with
  | ok nonce =>
      exact follows_lift (hrespond (.ok nonce) _ ((next_link_put (by decide) _).trans hcommon))
  | error err => exact follows_lift (hrespond (.error err) _ hcommon)

/-- The answers to a request for the orders of an account. -/
theorem serve_account_orders_lists (s : Server) (r : Request) (account : String) :
    (s.serveAccountOrders r account).Follows (Lists s account (s.cursor r.rawQuery)) {}
      (fun _ _ _ => True) (fun p _ => Excused s account (s.cursor r.rawQuery) p) [] := by
  unfold Server.serveAccountOrders
  refine follows_bind ((read_owned_account_prepares r account _ {} [] quiet_nil).weaken ?_
    fun _ _ _ h => h)
  rintro req st before ⟨hheader, hbefore⟩
  refine follows_bind (follows_check (fun p hp => ?_) fun _ => ?_)
  · unfold requireEmptyPayload at hp
    split at hp
    · cases hp
      exact excused_of_ne (by decide)
    · cases hp
  refine follows_bind (follows_fail_if (fun h _ => .malformed h.1 h.2) fun _ => ?_)
  refine follows_bind (follows_lift (Program.follows_bind
    (Program.follows_perform trivial fun reply => ?_)))
  refine follows_bind (follows_expect (fun p hp => ?_) fun ids hids => ?_)
  · obtain ⟨err, herr, rfl⟩ := Fallible.map_error_eq_error.1 hp
    by_cases hmissing : err = .notFound
    · subst hmissing
      exact fun _ => .missing reply (List.mem_append_right _ (List.mem_singleton_self _)) herr
    · rw [if_neg hmissing]
      exact excused_of_ne (by decide)
  have hreply := Fallible.map_error_eq_ok.1 hids
  refine follows_bind (follows_lift (Program.follows_perform trivial fun now => ?_))
  refine follows_bind ((order_urls_lists now _ st _).weaken ?_ fun _ _ _ h => h)
  rintro urls st' log ⟨rfl, reads, hreads, rfl, hurls⟩
  have hshown (after : CallLog) (header : Header) (hafter : Quiet after)
      (hlink : nextLink header = if ordersPageSize < ids.length then
        some (s.nextOrdersURL account ((ids.take ordersPageSize).getLastD "")) else none) :
      Shown s account (s.cursor r.rawQuery) (before ++ [⟨.store (.orderIDs account
        (s.cursor r.rawQuery) (ordersPageSize + 1)), reply⟩] ++ [⟨.host .now, now⟩] ++
        reads.map readsOrder ++ after) header urls := by
    refine .intro before after reply ids now reads ?_ hbefore hafter hreply hreads hurls hlink
    simp
  split
  · next hmore =>
      refine follows_bind (m := addHeader _ _) ?_
      refine write_orders_lists r fun after header hafter hlink => hshown after header hafter ?_
      rw [hlink, if_pos hmore]
      dsimp only
      rw [hheader]
      refine Eq.trans (congrArg (fun value => nextLink (Header.add [] "Link" value)) ?_)
        (next_link_next _)
      simp only [Server.nextOrdersURL, String.append_assoc]
  · next hmore =>
      refine write_orders_lists r fun after header hafter hlink => hshown after header hafter ?_
      rw [hlink, if_neg hmore, hheader]
      rfl

theorem serve_http_lists {s : Server} {r : Request} {account : String}
    (h : s.route r = .accountOrders account) :
    (s.serveHTTP r).Follows (Lists s account (s.cursor r.rawQuery)) (fun _ _ => True) [] := by
  unfold Server.serveHTTP
  rw [h]
  unfold Server.servePOST
  dsimp only
  split
  · refine Program.follows_bind (Program.Follows.weaken (serve_account_orders_lists s r account) ?_)
    intro outcome log houtcome
    rcases outcome with ⟨p | ⟨⟩, st⟩
    · exact write_problem_lists r st houtcome
    · trivial
  · exact write_problem_lists r _ (excused_of_ne (by decide))

end AcmeServer
