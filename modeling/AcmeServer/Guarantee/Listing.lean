import AcmeServer.Conduct.Listing
import AcmeServer.Guarantee.OrderList
import AcmeServer.Url.Query
import AcmeServer.X509.Renewal

/-!
# Reading all orders of an account

A client asks for the orders of an account and follows the links to next pages, while anything else
may happen in between, the creation of further orders included. `Browsed` is such a client.
`order_listing_is_complete` says that the client is never told that a cursor is unknown, and that
when there is no next page it has read every order exactly once, in the order of creation, but for
those that were effectively invalid when their page was made.
-/

namespace AcmeServer.Guarantee

open Interaction Memstore Protocol Safety

/-! ## Pages -/

/-- The copy of the order that an exchange read, if it did. -/
def readCopy (id : String) : Exchange Call Call.Answer → Option Order
  | ⟨.store (.order id'), ⟨.ok order, _⟩⟩ => if id' = id then some order else none
  | _ => none

/-- The effective status in which the exchanges found the order, if they looked it up. -/
def foundStatus (log : CallLog) (id : String) : Option OrderStatus := do
  let now ← log.findSome? readsClock
  let order ← log.findSome? (readCopy id)
  some (order.statusAt now)

/-- Whether the exchanges looked up the order and found it not effectively invalid. -/
def foundLive (log : CallLog) (id : String) : Bool :=
  (foundStatus log id).any fun status => status ≠ .invalid

/-- A page that a client has received: the thread that answered, the exchanges before the answer,
and the URLs on the page. -/
structure Page where
  thread : Nat
  log : CallLog
  urls : List String

/-- The URL of an order. -/
def orderURL (s : Server) (id : String) : String := s.resourceURL ("order/" ++ id)

/-- The page shows the listed orders that were not invalid when it checked them. -/
structure Shows (s : Server) (page : Page) (ids : List String) : Prop where
  urls : page.urls = (ids.filter (foundLive page.log)).map (orderURL s)
  others : ∀ id ∉ ids, foundLive page.log id = false

section Shown

variable {s : Server} {account cursor : String}

theorem find_quiet {α : Type} {f : Exchange Call Call.Answer → Option α} {log : CallLog}
    (h : Quiet log)
    (hf : ∀ e, looksUp e = none → readsClock e = none → f e = none) : log.findSome? f = none :=
  List.findSome?_eq_none_iff.2 fun e he => hf e (h e he).1 (h e he).2

theorem read_copy_of_quiet (id : String) (e : Exchange Call Call.Answer) (h : looksUp e = none)
    (_ : readsClock e = none) : readCopy id e = none := by
  unfold readCopy
  split
  · cases h
  · rfl

/-- The copy of an order among those that were read. -/
theorem find_reads (id : String) (reads : List (String × Order)) :
    (reads.map readsOrder).findSome? (readCopy id) = reads.lookup id := by
  induction reads with
  | nil => rfl
  | cons read reads ih =>
      obtain ⟨id', order⟩ := read
      rw [List.map_cons, List.findSome?_cons, List.lookup_cons, ih]
      by_cases hid : id' = id
      · subst hid
        simp [readsOrder, readCopy]
      · have hne : (id == id') = false := beq_false_of_ne (Ne.symm hid)
        simp [readsOrder, readCopy, hid, hne]

theorem lookup_of_mem {reads : List (String × Order)} (h : (reads.map Prod.fst).Nodup)
    {read : String × Order} (hread : read ∈ reads) : reads.lookup read.1 = some read.2 := by
  induction reads with
  | nil => cases hread
  | cons first reads ih =>
      rw [List.map_cons, List.nodup_cons] at h
      rw [List.lookup_cons]
      rcases List.mem_cons.1 hread with rfl | hrest
      · simp
      · have hne : (read.1 == first.1) = false :=
          beq_false_of_ne fun heq => h.1 (heq ▸ List.mem_map_of_mem hrest)
        rw [hne]
        exact ih h.2 hrest

theorem lookup_of_not_mem {reads : List (String × Order)} {id : String}
    (h : id ∉ reads.map Prod.fst) : reads.lookup id = none := by
  induction reads with
  | nil => rfl
  | cons first reads ih =>
      rw [List.map_cons, List.mem_cons, not_or] at h
      rw [List.lookup_cons, beq_false_of_ne h.1]
      exact ih h.2

/-- What was shown, by the exchanges that the page was made from. -/
theorem shown_page {log : CallLog} {header : Header} {urls : List String}
    (h : Shown s account cursor log header urls) :
    ∃ (before after : CallLog) (reply : Reply (.orderIDs account cursor (ordersPageSize + 1)))
      (ids : List String),
      log = before ++ ⟨.store (.orderIDs account cursor (ordersPageSize + 1)), reply⟩ :: after ∧
      reply.result = .ok ids ∧
      nextLink header = (if ordersPageSize < ids.length then
        some (s.nextOrdersURL account ((ids.take ordersPageSize).getLastD "")) else none) ∧
      ((ids.take ordersPageSize).Nodup → ∀ thread,
        Shows s ⟨thread, log, urls⟩ (ids.take ordersPageSize)) := by
  obtain ⟨before, after, reply, ids, now, reads, hlog, hbefore, hafter, hids, hreads, rfl, hlink⟩ :=
    h
  refine ⟨before, _, reply, ids, hlog, hids, hlink, fun hnodup thread => ?_⟩
  have hclock : log.findSome? readsClock = some now := by
    rw [hlog, List.findSome?_append, find_quiet hbefore fun _ _ hclock => hclock]
    rfl
  have hcopy (id : String) : log.findSome? (readCopy id) = reads.lookup id := by
    rw [hlog, List.findSome?_append, find_quiet hbefore (read_copy_of_quiet id), Option.none_or]
    show (reads.map readsOrder ++ after).findSome? (readCopy id) = _
    rw [List.findSome?_append, find_reads, find_quiet hafter (read_copy_of_quiet id),
      Option.or_none]
  have hlive (id : String) : foundLive log id =
      (reads.lookup id).any fun order => order.statusAt now ≠ .invalid := by
    rw [foundLive, foundStatus, hclock, hcopy]
    cases reads.lookup id <;> rfl
  have hkeys : (reads.map Prod.fst).Nodup := hreads ▸ hnodup
  refine ⟨?_, fun id hid => ?_⟩
  · -- Each order was read once, so the first copy is the one that was checked.
    rw [← hreads, List.filter_map, List.map_map]
    refine congrArg _ (List.filter_congr fun read hread => ?_)
    rw [Function.comp_apply, hlive, lookup_of_mem hkeys hread, Option.any_some]
  · rw [hlive, lookup_of_not_mem (hreads ▸ hid)]
    rfl

end Shown

/-! ## Following the links -/

/-- The functions for queries are those of the standard library. -/
structure StandardQuery (s : Server) : Prop where
  cursor : ∀ query, s.cursor query = Url.queryGet query "cursor"
  queryEscape : ∀ text, s.queryEscape text = Url.queryEscape text

/-- The request is for a page of the orders of the account, at the URL. -/
structure Asks (s : Server) (r : Request) (account url : String) : Prop where
  route : s.route r = .accountOrders account
  url : s.expectedURL r ("acct/" ++ account ++ "/orders") = url

/-- A client has received the pages by the end of the schedule and holds the link to the next one,
if there is one. It starts with the URL of the orders of the account, at any time. It may ask for a
page at any later time, and whatever else is scheduled runs in between and meanwhile. -/
inductive Browsed (s : Server) (account : String) :
    Server.Schedule → List Page → Option String → Prop where
  | start (schedule : Server.Schedule) :
      Browsed s account schedule [] (some (s.resourceURL ("acct/" ++ account ++ "/orders")))
  | page {schedule : Server.Schedule} {pages : List Page} {url : String} {r : Request}
      {response : AcmeServer.Response} {log later : CallLog} {urls : List String}
      (hbrowsed : Browsed s account schedule pages (some url)) (hasks : Asks s r account url)
      (after : Server.Schedule)
      (hanswer : threadLog (s.config schedule).threads.length
        (s.run (schedule ++ .start (.request r) :: after)).entries =
          log ++ ⟨.host (.respond r response), ()⟩ :: later)
      (hurls : response.body = .orders urls) :
      Browsed s account (schedule ++ .start (.request r) :: after)
        (pages ++ [⟨(s.config schedule).threads.length, log, urls⟩]) (nextLink response.header)

section Cursor

variable {s : Server} {r : Request} {account url : String}

theorem valid_id_ascii {id : String} (h : validID id = true) : ∀ c ∈ id.toList, c.toNat < 128 := by
  simp only [validID, Bool.and_eq_true, List.all_eq_true, Bool.or_eq_true, beq_iff_eq] at h
  intro c hc
  rcases h.2 c hc with (halnum | rfl) | rfl
  · exact Url.query_plain_ascii (.inl halnum)
  · decide
  · decide

theorem valid_id_ne_empty {id : String} (h : validID id = true) : id ≠ "" := by
  rintro rfl
  cases h

/-- A request for the first page has no cursor. -/
theorem Asks.first (h : Asks s r account (s.resourceURL ("acct/" ++ account ++ "/orders")))
    (hquery : StandardQuery s) : s.cursor r.rawQuery = "" := by
  have hurl := h.url
  unfold Server.expectedURL at hurl
  split at hurl
  · -- A URL with a query is longer.
    have hlength := congrArg (fun text => text.toList.length) hurl
    simp [String.toList_append] at hlength
  · next hnone =>
      rw [not_or, not_not] at hnone
      rw [hnone.1, hquery.cursor, Url.query_get_empty]

/-- A request for the next page has the cursor of its link. -/
theorem Asks.next {cursor : String} (h : Asks s r account (s.nextOrdersURL account cursor))
    (hquery : StandardQuery s) (hcursor : validID cursor = true) :
    s.cursor r.rawQuery = cursor := by
  have hurl := h.url
  unfold Server.expectedURL Server.nextOrdersURL at hurl
  have hraw : r.rawQuery = "cursor" ++ "=" ++ Url.queryEscape cursor := by
    rw [hquery.queryEscape] at hurl
    split at hurl
    · rw [String.ext_iff] at hurl ⊢
      simpa [String.toList_append] using hurl
    · have hlength := congrArg (fun text => text.toList.length) hurl
      simp [String.toList_append] at hlength
  have hkey : ("cursor".toList.all Char.isAlphanum) = true := by decide
  rw [hquery.cursor, hraw]
  exact Url.query_get_escape (fun c hc => .inl (List.all_eq_true.1 hkey c hc))
    (valid_id_ascii hcursor)

end Cursor

/-! ## Threads -/

section Threads

variable {s : Server} {schedule after : Server.Schedule} {r : Request} {account : String}

/-- What a request for the orders of an account calls in a run is allowed by the rule. -/
theorem listing_kept (hroute : s.route r = .accountOrders account) :
    Kept (Lists s account (s.cursor r.rawQuery)) (threadLog (s.config schedule).threads.length
      (s.run (schedule ++ .start (.request r) :: after)).entries) := by
  obtain ⟨rest, _, hleads⟩ : Runs World.entries
      (s.config (schedule ++ .start (.request r) :: after)) (s.config schedule).threads.length
      (s.serveHTTP r) := run_runs execute_records rfl schedule after (.request r)
  exact (serve_http_lists hroute).kept hleads

/-- What a program calls happens after everything that happened before it was started. -/
theorem started_event {start : Server.Start} {call : Call} {answer : call.Answer}
    (h : ⟨call, answer⟩ ∈ threadLog (s.config schedule).threads.length
      (s.run (schedule ++ .start start :: after)).entries) :
    ∃ before earlier, ⟨(s.config schedule).threads.length, before, call, answer⟩ :: earlier <:+
      (s.run (schedule ++ .start start :: after)).history ∧
        (s.run schedule).history <:+ earlier := by
  have hunborn : threadLog (s.config schedule).threads.length (s.run schedule).entries = [] :=
    (run_follows execute_records rfl (program_follows s) schedule).unborn (Nat.le_refl _)
  generalize (s.config schedule).threads.length = thread at h hunborn ⊢
  obtain ⟨e, he, hentry⟩ := List.mem_map.1 (mem_thread_log.1 h)
  obtain ⟨actor, before, made, reply⟩ := e
  cases hentry
  obtain ⟨newer, earlier, hhistory⟩ := List.append_of_mem he
  have hsuffix : ⟨actor, before, made, reply⟩ :: earlier <:+
      (s.run (schedule ++ .start start :: after)).history := ⟨newer, hhistory.symm⟩
  refine ⟨before, earlier, hsuffix, ?_⟩
  -- The thread has no exchange in the part of the history before its start.
  have hnew : ¬(⟨actor, before, made, reply⟩ : Event) ∈ (s.run schedule).history := by
    intro hmem
    have hlog : (⟨made, reply⟩ : Exchange Call Call.Answer) ∈
        threadLog actor (s.run schedule).entries := mem_thread_log.2 (List.mem_map_of_mem hmem)
    rw [hunborn] at hlog
    cases hlog
  have hgrown := (later_progress (run_progress s schedule (.start start :: after))).history
  rcases List.suffix_or_suffix_of_suffix hsuffix hgrown with hold | hold
  · exact absurd (hold.mem List.mem_cons_self) hnew
  · rcases List.suffix_cons_iff.1 hold with heq | hold
    · exact absurd (heq ▸ List.mem_cons_self) hnew
    · exact hold

theorem run_later_initial (s : Server) (schedule : Server.Schedule) :
    s.contract.Later World.initial (s.run schedule) :=
  run_progress s [] schedule

/-- The orders of an account have IDs that were drawn. -/
theorem orders_drawn {id : String} (h : id ∈ ordersOf account (s.run schedule).history) :
    ∃ e ∈ (s.run schedule).history, e.draws = some id := by
  obtain ⟨e, earlier, n, hsuffix, hcall, rfl⟩ := created_of_mem h
  obtain ⟨d, hd, hdraws⟩ := run_named s schedule hsuffix hcall
  exact ⟨d, hsuffix.mem (List.mem_cons_of_mem _ hd), hdraws⟩

end Threads

/-! ## Positions -/

/-- The event by which the page read the list of the account. -/
def ReadsList (account : String) (page : Page) (e : Event) : Prop :=
  e.thread = page.thread ∧
    ∃ cursor, e.call = .store (.orderIDs account cursor (ordersPageSize + 1))

/-- How far a client has got: it has read the list, as it was when the last page was made, up to the
end of that page. -/
inductive Position (s : Server) (account : String) (history : List Event) :
    List Page → Option String → Prop where
  | start : Position s account history [] (some (s.resourceURL ("acct/" ++ account ++ "/orders")))
  | read {pages : List Page} {page : Page} {lists : List (List String)} {cursor : Option String}
      {e : Event} {earlier : List Event} (hevent : e :: earlier <:+ history)
      (hreads : ReadsList account page e)
      (hreached : Paging.Reached ordersPageSize (ordersOf account earlier) cursor lists)
      (hshows : List.Forall₂ (Shows s) (pages ++ [page]) lists) :
      Position s account history (pages ++ [page]) (cursor.map (s.nextOrdersURL account))

theorem page_size_pos : 0 < ordersPageSize := by decide

/-- The cursor of a link is in order, and the list goes on behind it where the pages end. -/
theorem Position.next {s : Server} {account url : String} {history : List Event} {pages : List Page}
    {r : Request} (h : Position s account history pages (some url)) (hasks : Asks s r account url)
    (hquery : StandardQuery s) (hvalid : ∀ id ∈ ordersOf account history, validID id = true) :
    ¬(s.cursor r.rawQuery ≠ "" ∧ validID (s.cursor r.rawQuery) = false) ∧
    ∃ lists, List.Forall₂ (Shows s) pages lists ∧
      ∀ earlier, history <:+ earlier → (ordersOf account earlier).Nodup →
        ∃ ids, Paging.fetch (ordersOf account earlier) (ordersPageSize + 1)
            (cursorOf (s.cursor r.rawQuery)) = some ids ∧
          Paging.Reached ordersPageSize (ordersOf account earlier) (Paging.next ordersPageSize ids)
            (lists ++ [ids.take ordersPageSize]) := by
  generalize hlink : some url = link at h
  cases h with
  | start =>
      cases hlink
      rw [hasks.first hquery]
      refine ⟨fun hbad => hbad.1 rfl, [], .nil, fun earlier _ _ => ?_⟩
      exact ⟨_, rfl, Paging.reached_first page_size_pos _⟩
  | @read pages page lists cursor e earlier hevent hreads hreached hshows =>
      obtain ⟨cursor, rfl, rfl⟩ := Option.map_eq_some_iff.1 hlink.symm
      have hgrown : ordersOf account earlier <+: ordersOf account history :=
        orders_of_grow ((List.suffix_cons _ _).trans hevent)
      have hcursor : validID cursor = true :=
        hvalid cursor (hgrown.mem (List.mem_of_getElem? hreached.cursor_get.2))
      rw [hasks.next hquery hcursor]
      refine ⟨fun hbad => Bool.false_ne_true (hbad.2.symm.trans hcursor), lists, hshows, ?_⟩
      intro later hlater hnodup
      have hgrown' := hgrown.trans (orders_of_grow hlater)
      rw [cursorOf, if_neg (valid_id_ne_empty hcursor)]
      exact ⟨_, hreached.fetch_eq page_size_pos hgrown' hnodup _,
        hreached.step page_size_pos hgrown' rfl⟩

/-- The link to the next page names the cursor of the next page. -/
theorem link_eq_next (s : Server) (account : String) (ids : List String) :
    (if ordersPageSize < ids.length then
      some (s.nextOrdersURL account ((ids.take ordersPageSize).getLastD "")) else none) =
      (Paging.next ordersPageSize ids).map (s.nextOrdersURL account) := by
  unfold Paging.next
  split
  · next hmore =>
      have hne : ids.take ordersPageSize ≠ [] := by
        have hpos := page_size_pos
        rw [List.ne_nil_iff_length_pos, List.length_take]
        omega
      rw [List.getLastD_eq_getLast?, List.getLast?_eq_some_getLast hne]
      rfl
  · rfl

/-- A request for a page reads the list behind the pages that the client has. -/
theorem listing_reads {s : Server} {schedule : Server.Schedule} {account url : String}
    {pages : List Page} {r : Request} (after : Server.Schedule)
    (hposition : Position s account (s.run schedule).history pages (some url))
    (hasks : Asks s r account url) (hquery : StandardQuery s)
    (hvalid : ∀ id ∈ ordersOf account (s.run schedule).history, validID id = true) :
    ∃ lists, List.Forall₂ (Shows s) pages lists ∧
      ∀ reply : Reply (.orderIDs account (s.cursor r.rawQuery) (ordersPageSize + 1)),
        ⟨.store (.orderIDs account (s.cursor r.rawQuery) (ordersPageSize + 1)), reply⟩ ∈
          threadLog (s.config schedule).threads.length
            (s.run (schedule ++ .start (.request r) :: after)).entries →
        reply.result ≠ .error .notFound ∧
        ∀ ids, reply.result = .ok ids → ∃ before earlier,
          ⟨(s.config schedule).threads.length, before, .store (.orderIDs account
            (s.cursor r.rawQuery) (ordersPageSize + 1)), reply⟩ :: earlier <:+
              (s.run (schedule ++ .start (.request r) :: after)).history ∧
          (ordersOf account earlier).Nodup ∧
          Paging.Reached ordersPageSize (ordersOf account earlier) (Paging.next ordersPageSize ids)
            (lists ++ [ids.take ordersPageSize]) := by
  obtain ⟨-, lists, hlists, hnext⟩ := hposition.next hasks hquery hvalid
  refine ⟨lists, hlists, fun reply hmem => ?_⟩
  obtain ⟨before, earlier, hevent, hold⟩ := started_event hmem
  have hlater := run_later_initial s (schedule ++ .start (.request r) :: after)
  obtain ⟨ctx, hreply⟩ := order_ids_answered hlater (Nat.succ_pos ordersPageSize) hevent
  have hnodup : (ordersOf account earlier).Nodup :=
    (filed_of_later (moment_of_event hlater hevent).reached).nodup account
  obtain ⟨fetched, hfetch, hreached⟩ := hnext earlier hold hnodup
  rw [hfetch] at hreply
  refine ⟨fun hmissing => ?_, fun ids hids => ?_⟩
  · rcases read_result_error (hreply.symm.trans hmissing) with ⟨-, hnone⟩ | ⟨cause, heq⟩
    · cases hnone
    · cases heq
  · cases (read_result_ok.1 (hreply.symm.trans hids)).2
    exact ⟨before, earlier, hevent, hnodup, hreached⟩

/-- A client that follows the links is always at a position. -/
theorem browsed_position {s : Server} {account : String} {schedule : Server.Schedule}
    {pages : List Page} {link : Option String} (h : Browsed s account schedule pages link)
    (hquery : StandardQuery s)
    (hvalid : ∀ id ∈ ordersOf account (s.run schedule).history, validID id = true) :
    Position s account (s.run schedule).history pages link := by
  induction h with
  | start schedule => exact .start
  | @page schedule pages url r response log later urls hbrowsed hasks after hanswer hurls ih =>
      have hgrown :=
        (later_progress (run_progress s schedule (.start (.request r) :: after))).history
      have hvalid' (id : String) (hid : id ∈ ordersOf account (s.run schedule).history) :
          validID id = true := hvalid id ((orders_of_grow hgrown).mem hid)
      obtain ⟨lists, hlists, hread⟩ := listing_reads after (ih hvalid') hasks hquery hvalid'
      have hshown := (listing_kept hasks.route hanswer).1 urls hurls
      obtain ⟨before, rest, reply, ids, hlog, hids, hlink, hshows⟩ := shown_page hshown
      have hmem : ⟨.store (.orderIDs account (s.cursor r.rawQuery) (ordersPageSize + 1)), reply⟩ ∈
          threadLog (s.config schedule).threads.length
            (s.run (schedule ++ .start (.request r) :: after)).entries := by
        rw [hanswer, hlog]
        simp
      obtain ⟨store, earlier, hevent, hnodup, hreached⟩ := (hread reply hmem).2 ids hids
      have hpage : (ids.take ordersPageSize).Nodup := by
        have hflat := hreached.read
        rw [List.flatten_append, List.flatten_singleton] at hflat
        have hread : (lists.flatten ++ ids.take ordersPageSize).Nodup :=
          hflat ▸ hnodup.sublist (List.take_sublist _ _)
        exact hread.sublist (List.sublist_append_right _ _)
      rw [hlink, link_eq_next]
      exact .read hevent ⟨rfl, _, rfl⟩ hreached
        (List.rel_append hlists (.cons (hshows hpage _) .nil))

/-! ## The whole list -/

/-- No refusal of a signed message reads like the one of an unknown cursor. -/
structure DistinctJWS (s : Server) : Prop where
  parse : ∀ {body err}, s.parseJWS body = .error err → err.detail ≠ "unknown cursor"
  verify : ∀ {msg key err}, s.verify msg key = some err → err.detail ≠ "unknown cursor"

/-- The problem with which the limiter refused a request in an event, if it did. -/
def limiterProblem : Event → Option Problem
  | ⟨_, _, .host (.allow _), some err⟩ => err.asProblem
  | _ => none

/-- Following a link, a client is not told that the cursor is unknown. -/
theorem cursor_known {s : Server} {schedule after : Server.Schedule} {account url : String}
    {pages : List Page} {r : Request}
    (hposition : Position s account (s.run schedule).history pages (some url))
    (hasks : Asks s r account url) (hquery : StandardQuery s) (hjws : DistinctJWS s)
    (hvalid : ∀ id ∈ ordersOf account (s.run schedule).history, validID id = true)
    (hlimiter : ∀ e ∈ (s.run (schedule ++ .start (.request r) :: after)).history, ∀ p,
      limiterProblem e = some p → p.detail ≠ "unknown cursor")
    {response : AcmeServer.Response} {p : Problem}
    (hanswer : ⟨.host (.respond r response), ()⟩ ∈ threadLog (s.config schedule).threads.length
      (s.run (schedule ++ .start (.request r) :: after)).entries)
    (hbody : response.body = .problem p) : p.detail ≠ "unknown cursor" := by
  intro hdetail
  obtain ⟨log, later, hsplit⟩ := List.append_of_mem hanswer
  have hreason := (listing_kept hasks.route hsplit).2 p hbody hdetail
  cases hreason with
  | malformed hcursor hmalformed =>
      exact (hposition.next hasks hquery hvalid).1 ⟨hcursor, hmalformed⟩
  | missing reply hreply hmissing =>
      obtain ⟨_, _, hread⟩ := listing_reads after hposition hasks hquery hvalid
      exact (hread reply (hsplit ▸ List.mem_append_left _ hreply)).1 hmissing
  | parsed body err herr hunknown => exact hjws.parse herr hunknown
  | verified msg key err herr hunknown => exact hjws.verify herr hunknown
  | limited request err refusal hlimit hproblem hunknown =>
      obtain ⟨before, earlier, hevent, -⟩ :=
        started_event (hsplit ▸ List.mem_append_left _ hlimit)
      exact hlimiter _ (hevent.mem List.mem_cons_self) refusal hproblem hunknown

/-- Pages of lists that have no order in common. -/
theorem shows_concatenated {s : Server} {pages : List Page} {lists : List (List String)}
    (h : List.Forall₂ (Shows s) pages lists) (hnodup : lists.flatten.Nodup) :
    pages.flatMap Page.urls =
      (lists.flatten.filter fun id => pages.any fun page => foundLive page.log id).map
        (orderURL s) ∧
    ∀ id ∉ lists.flatten, (pages.any fun page => foundLive page.log id) = false := by
  induction h with
  | nil => exact ⟨rfl, fun _ _ => rfl⟩
  | @cons page ids pages lists hshows hrest ih =>
      rw [List.flatten_cons, List.nodup_append] at hnodup
      obtain ⟨-, hothers, hdisjoint⟩ := hnodup
      obtain ⟨hurls, hnone⟩ := ih hothers
      refine ⟨?_, fun id hid => ?_⟩
      · rw [List.flatMap_cons, hshows.urls, hurls, List.flatten_cons, List.filter_append,
          List.map_append]
        congr 2
        · refine List.filter_congr fun id hid => ?_
          have hapart : id ∉ lists.flatten := fun hlater => hdisjoint id hid id hlater rfl
          rw [List.any_cons, hnone id hapart, Bool.or_false]
        · refine List.filter_congr fun id hid => ?_
          have hapart : id ∉ ids := fun hfirst => hdisjoint id hfirst id hid rfl
          rw [List.any_cons, hshows.others id hapart, Bool.false_or]
      · rw [List.flatten_cons, List.mem_append, not_or] at hid
        rw [List.any_cons, hshows.others id hid.1, hnone id hid.2, Bool.or_false]

theorem order_url_injective (s : Server) : Function.Injective (orderURL s) := by
  intro id id' h
  unfold orderURL Server.resourceURL at h
  rw [String.ext_iff] at h ⊢
  simpa [String.toList_append] using h

/-- An ID as `newID` makes them: 16 bytes of the random source in base64url. -/
def RandomID (id : String) : Prop :=
  ∃ bytes : Bytes, bytes.length = 16 ∧ id = String.ofList (Base64.urlSafe.encode bytes)

theorem random_id_valid {id : String} (h : RandomID id) : validID id = true := by
  obtain ⟨bytes, hlength, rfl⟩ := h
  have hne : bytes ≠ [] := List.ne_nil_of_length_pos (by omega)
  exact (X509.valid_id_encode hne).2 (by omega)

/-- A client that reads the orders of an account page by page, while further orders may be created,
is never told that its cursor is unknown. There is a next page as long as the account had more
orders, when the last page read the list, than fit on the pages so far. When there is none, the
pages are as many as these orders need, and together they list, once and in the order of creation,
those that were not effectively invalid when their page checked them. -/
theorem order_listing_is_complete (s : Server) (hquery : StandardQuery s) (hjws : DistinctJWS s)
    {account : String} {schedule : Server.Schedule} {pages : List Page} {link : Option String}
    (hbrowsed : Browsed s account schedule pages link)
    (hids : ∀ e ∈ (s.run schedule).history, ∀ id, e.draws = some id → RandomID id) :
    (∀ url r after, link = some url → Asks s r account url →
      (∀ e ∈ (s.run (schedule ++ .start (.request r) :: after)).history, ∀ p,
        limiterProblem e = some p → p.detail ≠ "unknown cursor") →
      ∀ response p, ⟨.host (.respond r response), ()⟩ ∈
          threadLog (s.config schedule).threads.length
            (s.run (schedule ++ .start (.request r) :: after)).entries →
        response.body = .problem p → p.detail ≠ "unknown cursor") ∧
    (pages ≠ [] → ∃ page e earlier, pages.getLast? = some page ∧
      e :: earlier <:+ (s.run schedule).history ∧ ReadsList account page e ∧
      (link = none ↔ (ordersOf account earlier).length ≤ ordersPageSize * pages.length) ∧
      (link = none →
        pages.length = max 1 ((ordersOf account earlier).length ⌈/⌉ ordersPageSize) ∧
        pages.flatMap Page.urls = ((ordersOf account earlier).filter fun id =>
          pages.any fun page => foundLive page.log id).map (orderURL s) ∧
        (pages.flatMap Page.urls).Nodup)) := by
  have hvalid (id : String) (hid : id ∈ ordersOf account (s.run schedule).history) :
      validID id = true := by
    obtain ⟨e, he, hdraws⟩ := orders_drawn hid
    exact random_id_valid (hids e he id hdraws)
  have hposition := browsed_position hbrowsed hquery hvalid
  constructor
  · rintro url r after rfl hasks hlimiter response p hanswer hbody
    exact cursor_known hposition hasks hquery hjws hvalid hlimiter hanswer hbody
  intro hpages
  cases hposition with
  | start => exact absurd rfl hpages
  | @read pages page lists cursor e earlier hevent hreads hreached hshows =>
      refine ⟨page, e, earlier, List.getLast?_concat, hevent, hreads, ?_, fun hlink => ?_⟩
      · rw [Option.map_eq_none_iff, hreached.cursor_none_iff, hshows.length_eq]
      · have hnone : cursor = none := Option.map_eq_none_iff.1 hlink
        subst hnone
        obtain ⟨hread, hlength⟩ := hreached.complete page_size_pos
        have hmoment := moment_of_event (run_later_initial s schedule) hevent
        have hnodup : lists.flatten.Nodup := by
          rw [hread]
          exact (filed_of_later hmoment.reached).nodup account
        obtain ⟨hurls, -⟩ := shows_concatenated hshows hnodup
        refine ⟨hshows.length_eq.trans hlength, by rw [hurls, hread], ?_⟩
        rw [hurls]
        exact (hnodup.filter _).map (order_url_injective s)

/-! ## A sample listing -/

deriving instance DecidableEq for RequestBody, Request

/-- The URLs and the next link of a page with which an exchange answers the request, if it does. -/
def answersPage (r : Request) : Exchange Call Call.Answer → Option (List String × Option String)
  | ⟨.host (.respond r' ⟨_, header, .orders urls⟩), _⟩ =>
      if r' = r then some (urls, nextLink header) else none
  | _ => none

/-- A page is received when it is among the exchanges of the thread that serves the request. -/
theorem browsed_of_answer {s : Server} {account url : String} {schedule after : Server.Schedule}
    {pages : List Page} {r : Request} {urls : List String} {link : Option String}
    (hbrowsed : Browsed s account schedule pages (some url)) (hasks : Asks s r account url)
    (hanswer : (threadLog (s.config schedule).threads.length
      (s.run (schedule ++ .start (.request r) :: after)).entries).findSome? (answersPage r) =
        some (urls, link)) :
    ∃ log, Browsed s account (schedule ++ .start (.request r) :: after)
      (pages ++ [⟨(s.config schedule).threads.length, log, urls⟩]) link := by
  obtain ⟨e, he, hpage⟩ := List.exists_of_findSome?_eq_some hanswer
  obtain ⟨log, later, hlog⟩ := List.append_of_mem he
  unfold answersPage at hpage
  split at hpage
  · split at hpage
    · next hr =>
        subst hr
        cases hpage
        exact ⟨log, .page hbrowsed hasks after hlog rfl⟩
    · cases hpage
  · cases hpage

namespace Sample

open AcmeServer.Sample

/-- An ID of the random source. -/
def randomID (n : UInt8) : String :=
  String.ofList (Base64.urlSafe.encode (n :: List.replicate 15 0))

/-- A message that the account has signed. -/
def signed (url : String) (payload : Bytes) : Message :=
  { message url none payload with keyID := "acct/" ++ randomID 0 }

/-- The first byte of a body says which resource it was signed for. -/
def parseSigned : Bytes → Except JWSError Message
  | 0 :: payload => .ok (message "new-account" (some key) payload)
  | 1 :: payload => .ok (signed "new-order" payload)
  | 2 :: payload => .ok (signed ("acct/" ++ randomID 0 ++ "/orders") payload)
  | _ => .error ⟨none, "unknown resource"⟩

/-- The sample server with queries as the standard library reads them. -/
def lister : Server :=
  { server with
    parseJWS := parseSigned
    cursor := fun query => Url.queryGet query "cursor"
    queryEscape := Url.queryEscape }

/-- The client registers and orders a certificate. -/
def ordered : Server.Schedule :=
  post "/new-account" [0] ++ steps 0 9 { id := randomID 0 } ++
    order 1 [] (randomID 1) (randomID 2) (randomID 3) 1

/-- The request for the orders of the account. -/
def listing : Request := request ("/acct/" ++ randomID 0 ++ "/orders") [2]

/-- The client asks for its orders and is answered. -/
def listed : Server.Schedule := ordered ++ .start (.request listing) :: steps 2 7 {}

end Sample

/-- The client of the sample server is shown a page with its only order. -/
theorem sample_page_received : ∃ log, Browsed Sample.lister (Sample.randomID 0) Sample.listed
    [⟨2, log, ["order/" ++ Sample.randomID 1]⟩] none := by
  have hasks : Asks Sample.lister Sample.listing (Sample.randomID 0)
      (Sample.lister.resourceURL ("acct/" ++ Sample.randomID 0 ++ "/orders")) :=
    ⟨by decide +kernel, by decide +kernel⟩
  have hthreads : (Sample.lister.config Sample.ordered).threads.length = 2 := by decide +kernel
  have hanswer : (threadLog (Sample.lister.config Sample.ordered).threads.length
      (Sample.lister.run Sample.listed).entries).findSome? (answersPage Sample.listing) =
      some (["order/" ++ Sample.randomID 1], none) := by
    rw [hthreads]
    decide +kernel
  obtain ⟨log, hbrowsed⟩ := browsed_of_answer (.start Sample.ordered) hasks hanswer
  rw [hthreads] at hbrowsed
  exact ⟨log, hbrowsed⟩

theorem sample_ids_random : ∀ e ∈ (Sample.lister.run Sample.listed).history, ∀ id,
    e.draws = some id → RandomID id := by
  have hdrawn : ((Sample.lister.run Sample.listed).history.all fun e =>
      e.draws.all fun id => id ∈ (List.range 4).map fun n => Sample.randomID (UInt8.ofNat n)) =
      true := by decide +kernel
  intro e he id hid
  have hmem := List.all_eq_true.1 hdrawn e he
  rw [hid, Option.all_some, decide_eq_true_eq] at hmem
  obtain ⟨n, -, rfl⟩ := List.mem_map.1 hmem
  exact ⟨_, rfl, rfl⟩

/-- The page of the sample server is all the client's orders. -/
theorem sample_listing_is_complete : ∃ log e earlier,
    Browsed Sample.lister (Sample.randomID 0) Sample.listed
      [⟨2, log, ["order/" ++ Sample.randomID 1]⟩] none ∧
    e :: earlier <:+ (Sample.lister.run Sample.listed).history ∧
    ["order/" ++ Sample.randomID 1] = ((ordersOf (Sample.randomID 0) earlier).filter fun id =>
      foundLive log id).map (orderURL Sample.lister) := by
  have hquery : StandardQuery Sample.lister := ⟨fun _ => rfl, fun _ => rfl⟩
  have hjws : DistinctJWS Sample.lister := by
    refine ⟨fun {body err} herr => ?_, nofun⟩
    replace herr : Sample.parseSigned body = .error err := herr
    unfold Sample.parseSigned at herr
    split at herr
    all_goals cases herr
    decide
  obtain ⟨log, hbrowsed⟩ := sample_page_received
  obtain ⟨page, e, earlier, -, hevent, -, -, hend⟩ := (order_listing_is_complete Sample.lister
    hquery hjws hbrowsed sample_ids_random).2 (List.cons_ne_nil _ _)
  have hurls := (hend rfl).2.1
  simp only [List.flatMap_singleton, List.any_cons, List.any_nil, Bool.or_false] at hurls
  exact ⟨log, e, earlier, hbrowsed, hevent, hurls⟩

end AcmeServer.Guarantee
