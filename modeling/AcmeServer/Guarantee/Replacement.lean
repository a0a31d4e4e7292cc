import AcmeServer.Guarantee.Dispatch
import AcmeServer.Memstore.Index

/-!
# Replacement of certificates

An order that replaces a certificate claims it when it is created. It takes the claim over only from
an order that is invalid or has expired. An expired order can still be finalized by a request that
has read the clock before, and the check that keeps it from the issuer is the one of its dispatch,
which reads the clock after the finalization. So the result rests on the clock never going back.
-/

namespace AcmeServer.Guarantee

open Memstore Protocol Safety

variable {s : Server} {w w' : World} {thread : Nat} {call : Call} {answer : call.Answer}

/-! ## The clock -/

/-- No event has read an earlier time than one before it. The newest event comes first. -/
def ClockMonotone (history : List Event) : Prop :=
  (history.filterMap Event.clock).Pairwise (· ≥ ·)

theorem ClockMonotone.le {history earlier : List Event} {e r : Event} {now past : Time}
    (h : ClockMonotone history) (he : e :: earlier <:+ history) (hr : r ∈ earlier)
    (hnow : e.clock = some now) (hpast : r.clock = some past) : past ≤ now := by
  have hpairs := (List.pairwise_filterMap.mp h).sublist he.sublist
  exact (List.pairwise_cons.mp hpairs).1 r hr now hnow past hpast

/-! ## Orders that lose their claim -/

/-- At some moment the order was not finalized yet, and a time past its expiry had been read. -/
def Overdue (history : List Event) (id : String) : Prop :=
  ∃ e earlier, e :: earlier <:+ history ∧ ∃ o, e.before.orders.lookup id = some o ∧
    (o.status = .pending ∨ o.status = .ready) ∧
    ∃ r ∈ earlier, ∃ now, r.clock = some now ∧ o.expires ≤ now

theorem Overdue.mono {history history' : List Event} {id : String} (h : Overdue history id)
    (hsuffix : history <:+ history') : Overdue history' id := by
  obtain ⟨e, earlier, he, hrest⟩ := h
  exact ⟨e, earlier, he.trans hsuffix, hrest⟩

theorem invalid_status_at {o : Order} {now : Time} (h : o.statusAt now = .invalid) :
    o.status = .invalid ∨ ((o.status = .pending ∨ o.status = .ready) ∧ o.expires ≤ now) := by
  unfold Order.statusAt at h
  split at h
  · rename_i hexpired
    exact .inr ⟨hexpired.1, not_lt.mp hexpired.2⟩
  · exact .inl h

/-- An order that was finalized when the time was read is not overdue at a moment after that. -/
theorem read_after_overdue {r e : Event} {between earlier : List Event} {id : String} {o o' : Order}
    (hlater : s.contract.Later World.initial w) (hr : r :: between <:+ w.history)
    (he : e :: earlier <:+ w.history) (ho : r.before.orders.lookup id = some o)
    (hfinalized : o.status = .processing ∨ o.status.terminal = true)
    (ho' : e.before.orders.lookup id = some o')
    (hopen : o'.status = .pending ∨ o'.status = .ready) : e :: earlier <:+ between := by
  have hconflict : ∀ status : OrderStatus, status = .processing ∨ status.terminal = true →
      ¬ (status = .pending ∨ status = .ready) := by
    intro status
    cases status <;> simp [OrderStatus.terminal]
  rcases List.suffix_or_suffix_of_suffix he hr with hsuffix | hsuffix
  · refine (List.suffix_cons_iff.mp hsuffix).resolve_left fun hsame => ?_
    cases hsame
    rw [ho] at ho'
    cases ho'
    exact hconflict _ hfinalized hopen
  · rcases List.suffix_cons_iff.mp hsuffix with hsame | hbefore
    · cases hsame
      rw [ho] at ho'
      cases ho'
      exact absurd hopen (hconflict _ hfinalized)
    · have hmoment := moment_of_event (moment_of_event hlater he).reached hbefore
      have hsteps := (later_progress hmoment.later).orders.steps ho ho'
      exact absurd hopen (hconflict _ (order_finalized hsteps hfinalized))

/-- An overdue order is never dispatched: the dispatch would read the time after the finalization
and so find the order expired. -/
theorem overdue_undispatched (hlater : s.contract.Later World.initial w)
    (hclock : ClockMonotone w.history) {id : String} {o : Order} (hoverdue : Overdue w.history id)
    (ho : w.store.orders.lookup id = some o) : o.issuance = none := by
  obtain ⟨e, earlier, he, o₁, ho₁, hopen, r, hr, now, hnow, hexpired⟩ := hoverdue
  by_contra hset
  obtain ⟨state, hstate⟩ := Option.ne_none_iff_exists'.mp hset
  obtain ⟨c, hc, d, o₂, hd, hid, hdispatch⟩ :=
    dispatch_of_issuance hlater (hlater.inv invariant_initial) ho hstate
  obtain ⟨before, hsuffix, hmoment⟩ := moment_of_mem hlater hc
  obtain ⟨_, _, _, rfl⟩ := dispatch_call hd
  -- The dispatch rests on a reading of the clock at which the order was finalized.
  have htimed := hmoment.permitted.2 state (by rw [hdispatch.order])
  obtain ⟨r', hr', _, hclock', o', ho', hfinalized⟩ := htimed
  obtain ⟨between, hbetween, _⟩ := moment_of_mem hmoment.reached hr'
  have hread : r' :: between <:+ w.history :=
    hbetween.trans ((List.suffix_cons _ _).trans hsuffix)
  rw [hid] at ho'
  have hafter := read_after_overdue hlater hread he ho' hfinalized ho₁ hopen
  have hle := hclock.le hread (((List.suffix_cons _ _).trans hafter).mem hr) hclock' hnow
  -- The order still has the expiry it was created with.
  have hexpires : o₂.expires = o₁.expires := by
    have hfirst := (later_progress (moment_of_event hlater he).later).orders.steps ho₁ ho
    have hsecond := (later_progress hmoment.later).orders.steps (hid ▸ hdispatch.stored) ho
    have hterms := (order_terms_eq hsecond).symm.trans (order_terms_eq hfirst)
    have hfield := congrArg Order.expires hterms
    exact hfield
  have hdeadline := hdispatch.decision.deadline.2 (show o₂.expires ∈ _ from .inl rfl)
  have hahead := hdispatch.decision.ahead
  have hcontra : state.authorizedAt < state.authorizedAt :=
    calc state.authorizedAt < state.deadline := hahead
      _ ≤ o₂.expires := hdeadline
      _ = o₁.expires := hexpires
      _ ≤ now := hexpired
      _ ≤ state.authorizedAt := hle
  exact lt_irrefl _ hcontra

/-! ## Claims -/

/-- How an order stands to the certificate it replaces: it has the claim, it is invalid, or it is
overdue. -/
def ClaimState (w : World) (id : String) (o : Order) : Prop :=
  ∃ key cert, w.store.certByRenewal.lookup o.replaces = some key ∧
    w.store.certificates.lookup key = some cert ∧
    (cert.replacedByOrderID = id ∨ o.status = .invalid ∨ Overdue w.history id)

/-- A commit keeps the claim of a certificate or hands it to a new order, once the previous one does
not count any more. -/
theorem commit_claim {c : StoreCall} {st' : Store} (hpermitted : Permitted s w thread (.store c))
    (hcommit : Commit w.store c st') {key : String} {cert cert' : Certificate}
    (hcert : w.store.certificates.lookup key = some cert)
    (hcert' : st'.certificates.lookup key = some cert') :
    cert'.replacedByOrderID = cert.replacedByOrderID ∨
      ∃ n, c = .createOrder n ∧
        ∀ previous, w.store.orders.lookup cert.replacedByOrderID = some previous →
          previous.statusAt n.order.createdAt = .invalid := by
  cases commit_certificate hpermitted hcommit hcert' with
  | kept hold =>
      rw [hcert] at hold
      cases hold
      exact .inl rfl
  | claimed _ _ hold hprevious =>
      rw [hcert] at hold
      cases hold
      exact .inr ⟨_, rfl, hprevious⟩
  | updated hold hrevision =>
      rw [hcert] at hold
      cases hold
      exact .inl (hpermitted cert hcert hrevision).2.2.1
  | published hnew =>
      rw [hcert] at hnew
      cases hnew

/-- A new order has the claim. -/
theorem created_claim {n : NewOrder} {st' : Store} {history : List Event}
    (hcommit : Commit w.store (.createOrder n) st') (hreplaces : n.order.replaces ≠ "") :
    ClaimState ⟨st', history⟩ n.order.id n.initial.order := by
  cases hcommit with
  | read _ hread => cases hread
  | createOrder n _ _ _ _ base hbase =>
      obtain ⟨_, _, heq⟩ := add_resources_eq base n.initial
      rw [heq]
      cases hbase with
      | nothing hnone => exact absurd hnone hreplaces
      | claimed key cert _ hindex _ _ =>
          exact ⟨key, _, hindex, Finmap.lookup_insert _, .inl rfl⟩

/-- A stored order keeps its standing, or loses the claim because it is invalid or overdue. -/
theorem kept_claim {c : StoreCall} {reply : Reply c} {st' : Store} (hinv : Invariant s w)
    (hpermitted : Permitted s w thread (.store c)) (hcommit : Commit w.store c st') {id : String}
    {o o' : Order} (ho : w.store.orders.lookup id = some o)
    (ho' : st'.orders.lookup id = some o') (h : ClaimState w id o) :
    ClaimState ⟨st', ⟨thread, w.store, .store c, reply⟩ :: w.history⟩ id o' := by
  have hevolution := (commit_advances hinv.keyed hinv.coherent hpermitted hcommit).evolution
  have hsteps := hevolution.orders.follows.steps ho ho'
  have hinvalid : o.status = .invalid → o'.status = .invalid := by
    intro hstatus
    rw [order_terminal_eq hsteps (by rw [hstatus]; rfl), hstatus]
  obtain ⟨key, cert, hindex, hcert, hstanding⟩ := h
  obtain ⟨cert', hcert', _⟩ := hevolution.certificates key cert hcert
  have hreplaces := congrArg Order.replaces (order_terms_eq hsteps)
  change o'.replaces = o.replaces at hreplaces
  refine ⟨key, cert', hreplaces ▸ commit_renewal_kept hcommit hindex, hcert', ?_⟩
  have hsuffix : w.history <:+ ⟨thread, w.store, .store c, reply⟩ :: w.history :=
    List.suffix_cons _ _
  rcases hstanding with hclaims | hstatus | hoverdue
  · rcases commit_claim hpermitted hcommit hcert hcert' with hsame | ⟨n, rfl, hprevious⟩
    · exact .inl (hsame.trans hclaims)
    · subst hclaims
      rcases invalid_status_at (hprevious o ho) with hstatus | ⟨hopen, hexpired⟩
      · exact .inr (.inl (hinvalid hstatus))
      · -- The new order was created at a time that its request had read.
        obtain ⟨r, hr, _, hclock, _⟩ := hpermitted.2
        exact .inr (.inr ⟨_, w.history, List.suffix_refl _, o, ho, hopen, r, hr, _, hclock,
          hexpired⟩)
  · exact .inr (.inl (hinvalid hstatus))
  · exact .inr (.inr (hoverdue.mono hsuffix))

theorem claim_step (hinv : Invariant s w) (hpermitted : Permitted s w thread call)
    (hexecuted : Executed w thread call answer w')
    (h : ∀ id o, w.store.orders.lookup id = some o → o.replaces ≠ "" → ClaimState w id o)
    (id : String) (o' : Order) (ho' : w'.store.orders.lookup id = some o')
    (hreplaces : o'.replaces ≠ "") : ClaimState w' id o' := by
  have hsame : ∀ e, w.store.orders.lookup id = some o' →
      ClaimState ⟨w.store, e :: w.history⟩ id o' := by
    intro e ho
    obtain ⟨key, cert, hindex, hcert, hstanding⟩ := h id o' ho hreplaces
    exact ⟨key, cert, hindex, hcert,
      hstanding.imp_right (Or.imp_right fun hoverdue => hoverdue.mono (List.suffix_cons _ _))⟩
  cases hexecuted with
  | host => exact hsame _ ho'
  | failed => exact hsame _ ho'
  | committed c reply _ st' _ hcommit =>
      cases ho : w.store.orders.lookup id with
      | none =>
          obtain ⟨n, rfl, _, rfl, rfl⟩ := commit_new_order hcommit ho ho'
          exact created_claim hcommit hreplaces
      | some o =>
          have hevolution := (commit_advances hinv.keyed hinv.coherent hpermitted hcommit).evolution
          have hterms := order_terms_eq (hevolution.orders.follows.steps ho ho')
          have hset : o.replaces ≠ "" := congrArg Order.replaces hterms ▸ hreplaces
          exact kept_claim hinv hpermitted hcommit ho ho' (h id o ho hset)

theorem claims_later (hlater : s.contract.Later World.initial w) :
    ∀ id o, w.store.orders.lookup id = some o → o.replaces ≠ "" → ClaimState w id o := by
  refine hlater.stable (P := fun w => ∀ id o, w.store.orders.lookup id = some o →
    o.replaces ≠ "" → ClaimState w id o) ?_ ?_
  · intro _ _ _ _ _ _ hinv hpermitted hexecute
    exact claim_step hinv hpermitted (executed_of_execute hexecute)
  · intro id o ho
    simp [World.initial, Store.new, Finmap.lookup_empty] at ho

/-- While the clock never goes back, two orders that replace the same certificate are never both
valid, and never both dispatched while neither is invalid. -/
theorem replacements_exclude_each_other (s : Server) (schedule : Server.Schedule)
    (hclock : ClockMonotone (s.run schedule).history) (id id' : String) (o o' : Order)
    (ho : (s.run schedule).store.orders.lookup id = some o)
    (ho' : (s.run schedule).store.orders.lookup id' = some o') (hdistinct : id ≠ id')
    (hreplaces : o.replaces ≠ "") (hsame : o'.replaces = o.replaces) :
    ¬ (o.status = .valid ∧ o'.status = .valid) ∧
      ¬ ((o.issuance ≠ none ∧ o.status ≠ .invalid) ∧
        (o'.issuance ≠ none ∧ o'.status ≠ .invalid)) := by
  have hlater : s.contract.Later World.initial (s.run schedule) := run_progress s [] schedule
  have hinv := run_invariant s schedule
  have hexclusive : ¬ ((o.issuance ≠ none ∧ o.status ≠ .invalid) ∧
      (o'.issuance ≠ none ∧ o'.status ≠ .invalid)) := by
    rintro ⟨⟨hset, hstatus⟩, hset', hstatus'⟩
    obtain ⟨key, cert, hindex, hcert, hstanding⟩ := claims_later hlater id o ho hreplaces
    obtain ⟨key', cert', hindex', hcert', hstanding'⟩ :=
      claims_later hlater id' o' ho' (hsame ▸ hreplaces)
    rw [hsame, hindex] at hindex'
    cases hindex'
    rw [hcert] at hcert'
    cases hcert'
    have hclaims : cert.replacedByOrderID = id := by
      refine hstanding.resolve_right ?_
      rintro (hinvalid | hoverdue)
      · exact hstatus hinvalid
      · exact hset (overdue_undispatched hlater hclock hoverdue ho)
    have hclaims' : cert.replacedByOrderID = id' := by
      refine hstanding'.resolve_right ?_
      rintro (hinvalid | hoverdue)
      · exact hstatus' hinvalid
      · exact hset' (overdue_undispatched hlater hclock hoverdue ho')
    exact hdistinct (hclaims.symm.trans hclaims')
  have hvalid : ∀ {id : String} {o : Order}, (s.run schedule).store.orders.lookup id = some o →
      o.status = .valid → o.issuance ≠ none ∧ o.status ≠ .invalid := by
    intro id o ho hstatus
    exact ⟨(hinv.coherent.shaped (rows_of_lookup ho)).dispatched hstatus, by simp [hstatus]⟩
  exact ⟨fun ⟨h, h'⟩ => hexclusive ⟨hvalid ho h, hvalid ho' h'⟩, hexclusive⟩

/-- The client replaces its certificate, and again when the order for it has expired. -/
def repeatedReplacement : Server.Schedule :=
  Sample.claim ++ Sample.issue ++ Sample.order 4 [0] "second" "second-web" "second-mail" 1 ++
    Sample.order 5 [0] "third" "third-web" "third-mail" 20

/-- The two orders of the run replace the same certificate, and the theorem applies to them. -/
theorem repeated_replacement_excluded :
    let st := (Sample.server.run repeatedReplacement).store
    ∃ o o', st.orders.lookup "second" = some o ∧ st.orders.lookup "third" = some o' ∧
      o.replaces = "key.serial" ∧ o'.replaces = "key.serial" ∧
      ¬ (o.status = .valid ∧ o'.status = .valid) ∧
      ¬ ((o.issuance ≠ none ∧ o.status ≠ .invalid) ∧
        (o'.issuance ≠ none ∧ o'.status ≠ .invalid)) := by
  intro st
  have hclock : ClockMonotone (Sample.server.run repeatedReplacement).history := by
    unfold ClockMonotone
    decide +kernel
  have hsecond : (st.orders.lookup "second").map Order.replaces = some "key.serial" := by
    decide +kernel
  have hthird : (st.orders.lookup "third").map Order.replaces = some "key.serial" := by
    decide +kernel
  obtain ⟨o, ho, hreplaces⟩ := Option.map_eq_some_iff.mp hsecond
  obtain ⟨o', ho', hreplaces'⟩ := Option.map_eq_some_iff.mp hthird
  exact ⟨o, o', ho, ho', hreplaces, hreplaces', replacements_exclude_each_other Sample.server
    repeatedReplacement hclock "second" "third" o o' ho ho' (by decide) (by simp [hreplaces])
    (hreplaces'.trans hreplaces.symm)⟩

end AcmeServer.Guarantee
