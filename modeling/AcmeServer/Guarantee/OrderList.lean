import AcmeServer.Conduct.Creation
import AcmeServer.Paging.Basic

/-!
# The orders of an account

The store keeps the IDs of the orders of each account in a list. `ordersOf` reads the same list off
the history: the orders that were created for the account, the oldest first. `Filed` says that the
two agree in every run, that no ID is listed twice and that every listed order is stored, so reading
the list is `Paging.fetch` on the orders created so far (`order_ids_ok`).
-/

namespace AcmeServer.Guarantee

open Interaction Memstore Protocol Safety Transaction

variable {s : Server} {w w' : World} {thread : Nat} {account : String}

/-- The ID of the order that an event created for the account, if it did. -/
def createdFor (account : String) : Event → Option String
  | ⟨_, _, .store (.createOrder n), ⟨.ok (), _⟩⟩ =>
      if n.order.accountID = account then some n.order.id else none
  | _ => none

/-- The IDs of the orders that were created for the account, the oldest first. -/
def ordersOf (account : String) (history : List Event) : List String :=
  (history.filterMap (createdFor account)).reverse

theorem orders_of_cons (e : Event) (history : List Event) :
    ordersOf account (e :: history) =
      ordersOf account history ++ (createdFor account e).toList := by
  unfold ordersOf
  cases hcreated : createdFor account e with
  | none => simp [hcreated]
  | some id => simp [hcreated]

/-- The orders of an account only grow. -/
theorem orders_of_grow {earlier history : List Event} (h : earlier <:+ history) :
    ordersOf account earlier <+: ordersOf account history :=
  List.reverse_prefix.2 (h.filterMap _)

/-- An order of the account was created by an event of the past. -/
theorem created_of_mem {history : List Event} {id : String} (h : id ∈ ordersOf account history) :
    ∃ e earlier n, e :: earlier <:+ history ∧ e.call = .store (.createOrder n) ∧
      n.order.id = id := by
  obtain ⟨e, he, hcreated⟩ := List.mem_filterMap.1 (List.mem_reverse.1 h)
  obtain ⟨newer, earlier, rfl⟩ := List.append_of_mem he
  unfold createdFor at hcreated
  split at hcreated
  · next thread before n args =>
      split at hcreated
      · cases hcreated
        exact ⟨_, earlier, n, List.suffix_append _ _, rfl, rfl⟩
      · cases hcreated
  · cases hcreated

/-! ## The list in the store -/

theorem add_resources_order_ids (st : Store) (n : NewOrder) :
    (st.addResources n).orderIDs = (st.addOrder n.order).orderIDs := by
  obtain ⟨index, hauthzs⟩ := fold_add_authorization (st.addOrder n.order) n.authzs
  rw [Store.addResources, hauthzs, fold_put_challenge]

/-- Only the creation of an order changes the lists, and it adds the order at the end. -/
theorem commit_order_ids {st st' : Store} {c : StoreCall} (h : Commit st c st') :
    (st'.orderIDs = st.orderIDs ∧ ∀ n, c ≠ .createOrder n) ∨
      ∃ n, c = .createOrder n ∧ st.orders.lookup n.order.id = none ∧
        st'.orders.lookup n.order.id = some n.initial.order ∧
        st'.orderIDs = st.orderIDs.insert n.order.accountID
          ((st.orderIDs.lookup n.order.accountID).getD [] ++ [n.order.id]) := by
  cases h with
  | createOrder n _ horder _ _ base hbase =>
      obtain ⟨certificates, rfl⟩ := hbase.frame
      obtain ⟨_, _, heq⟩ := add_resources_eq { st with certificates := certificates } n.initial
      refine .inr ⟨n, rfl, horder, ?_, ?_⟩
      · rw [heq]
        exact Finmap.lookup_insert _
      · rw [add_resources_order_ids]
        rfl
  | createAccount _ _ _ _ _ _ hs' | updateAccount _ _ _ _ _ _ _ hs' =>
      subst hs'
      exact .inl ⟨rfl, fun _ heq => by cases heq⟩
  | updateAuthorization a =>
      obtain ⟨_, heq, _⟩ := invalidate_order_eq (st.putAuthorization a.revised) a.revised
      rw [heq]
      exact .inl ⟨rfl, fun _ heq => by cases heq⟩
  | completeIssuance i _ _ _ _ _ _ base hbase =>
      obtain ⟨_, _, rfl⟩ := hbase.frame
      exact .inl ⟨rfl, fun _ heq => by cases heq⟩
  | read c hread =>
      refine .inl ⟨rfl, ?_⟩
      rintro n rfl
      cases hread
  | _ => exact .inl ⟨rfl, fun _ heq => by cases heq⟩

/-- The lists of the store are the orders created for each account. -/
structure Filed (w : World) : Prop where
  listed : ∀ account, (w.store.orderIDs.lookup account).getD [] = ordersOf account w.history
  stored : ∀ {account id}, id ∈ ordersOf account w.history →
    ∃ o, w.store.orders.lookup id = some o
  nodup : ∀ account, (ordersOf account w.history).Nodup

theorem filed_initial : Filed World.initial where
  listed _ := rfl
  stored h := absurd h List.not_mem_nil
  nodup _ := .nil

/-- A call that creates no order. -/
theorem Filed.unchanged (h : Filed w) (hlists : w'.store.orderIDs = w.store.orderIDs)
    (horders : ∀ id o, w.store.orders.lookup id = some o →
      ∃ o', w'.store.orders.lookup id = some o')
    (hcreated : ∀ account, ordersOf account w'.history = ordersOf account w.history) :
    Filed w' where
  listed account := by
    rw [hlists, hcreated]
    exact h.listed account
  stored {account id} hid := by
    rw [hcreated] at hid
    obtain ⟨o, ho⟩ := h.stored hid
    exact horders id o ho
  nodup account := by
    rw [hcreated]
    exact h.nodup account

/-- A new order is added at the end of the list of its account. -/
theorem Filed.created (h : Filed w) {n : NewOrder} {o : Order}
    (hnew : w.store.orders.lookup n.order.id = none)
    (hstored : w'.store.orders.lookup n.order.id = some o)
    (horders : ∀ id o, w.store.orders.lookup id = some o →
      ∃ o', w'.store.orders.lookup id = some o')
    (hlists : w'.store.orderIDs = w.store.orderIDs.insert n.order.accountID
      ((w.store.orderIDs.lookup n.order.accountID).getD [] ++ [n.order.id]))
    (hcreated : ∀ account, ordersOf account w'.history = ordersOf account w.history ++
      if n.order.accountID = account then [n.order.id] else []) :
    Filed w' where
  listed account := by
    rw [hlists, hcreated]
    by_cases haccount : n.order.accountID = account
    · subst haccount
      rw [if_pos rfl, Finmap.lookup_insert, Option.getD_some, h.listed]
    · rw [if_neg haccount, List.append_nil, Finmap.lookup_insert_of_ne _ (Ne.symm haccount)]
      exact h.listed account
  stored {account id} hid := by
    rw [hcreated, List.mem_append] at hid
    rcases hid with hold | hlast
    · obtain ⟨o, ho⟩ := h.stored hold
      exact horders id o ho
    · split at hlast
      · rw [List.mem_singleton.1 hlast]
        exact ⟨o, hstored⟩
      · cases hlast
  nodup account := by
    rw [hcreated]
    split
    · refine List.nodup_append.2 ⟨h.nodup account, List.nodup_singleton _, ?_⟩
      -- The store refuses an ID that it has, and it has all orders created so far.
      rintro id hid _ hlast rfl
      rw [List.mem_singleton] at hlast
      obtain ⟨o, ho⟩ := h.stored hid
      rw [hlast, hnew] at ho
      cases ho
    · rw [List.append_nil]
      exact h.nodup account

/-- One call keeps the lists right. -/
theorem filed_executed {call : Call} {answer : call.Answer} (hinv : Invariant s w)
    (hpermitted : Permitted s w thread call) (hexecuted : Executed w thread call answer w')
    (h : Filed w) : Filed w' := by
  have horders (id : String) (o : Order) (ho : w.store.orders.lookup id = some o) :
      ∃ o', w'.store.orders.lookup id = some o' := by
    obtain ⟨o', ho', _⟩ := (hexecuted.evolution hinv hpermitted).orders id o ho
    exact ⟨o', ho'⟩
  have hcons (account : String) : ordersOf account w'.history =
      ordersOf account w.history ++
        (createdFor account ⟨thread, w.store, call, answer⟩).toList := by
    rw [hexecuted.history_eq, orders_of_cons]
  cases hexecuted with
  | host c answer _ =>
      refine h.unchanged rfl horders fun account => ?_
      rw [hcons]
      exact List.append_nil _
  | failed c reply err herror =>
      refine h.unchanged rfl horders fun account => ?_
      have hnone : createdFor account ⟨thread, w.store, .store c, reply⟩ = none := by
        unfold createdFor
        split
        · next heq =>
            cases heq
            cases herror
        · rfl
      rw [hcons, hnone]
      exact List.append_nil _
  | committed c reply v st' hok hcommit =>
      rcases commit_order_ids hcommit with ⟨hlists, hother⟩ | ⟨n, rfl, hnew, hstored, hlists⟩
      · refine h.unchanged hlists horders fun account => ?_
        have hnone : createdFor account ⟨thread, w.store, .store c, reply⟩ = none := by
          unfold createdFor
          split
          · next heq =>
              cases heq
              exact absurd rfl (hother _)
          · rfl
        rw [hcons, hnone]
        exact List.append_nil _
      · refine h.created hnew hstored horders hlists fun account => ?_
        rw [hcons]
        obtain ⟨result, args⟩ := reply
        cases hok
        show _ ++ (if _ then _ else _ : Option String).toList = _
        split <;> rfl

/-- The lists are right in every run. -/
theorem filed_of_later (hlater : s.contract.Later World.initial w) : Filed w := by
  refine hlater.stable (P := Filed) ?_ filed_initial
  intro env thread call answer v w hinv hpermitted hexecute h
  exact filed_executed hinv hpermitted (executed_of_execute hexecute) h

/-! ## Reading the list -/

/-- The cursor that a text stands for. -/
def cursorOf (after : String) : Option String := if after = "" then none else some after

/-- The store reads a page of its list. -/
theorem apply_order_ids (st : Store) (env : CallEnv) (account after : String) {limit : Nat}
    (hlimit : 0 < limit) :
    (st.apply env (.orderIDs account after limit)).1.result =
      readResult env.ctx
        (Paging.fetch ((st.orderIDs.lookup account).getD []) limit (cursorOf after)) := by
  show (exec (orderIDs env.ctx account after limit) ⟨st, ()⟩).1 = _
  unfold orderIDs cursorOf
  cases env.ctx with
  | some cause => rfl
  | none =>
      have hpositive : ¬(limit : Int) ≤ 0 := by omega
      simp only [failIf, if_neg hpositive]
      by_cases hafter : after = ""
      · simp only [hafter, ne_eq, not_true_eq_false, if_false, if_true]
        rfl
      · simp only [hafter, ne_eq, not_false_eq_true, if_false, if_true, Paging.fetch]
        show (exec (getOr _ _ >>= _ : Op Unit (List String)) ⟨st, ()⟩).1 = _
        cases ((st.orderIDs.lookup account).getD []).findIdx? (· == after) <;> rfl

/-- What a call that reads a page of the list found, by the orders created before. -/
theorem order_ids_answered (hlater : s.contract.Later World.initial w) {before : Store}
    {after : String} {limit : Nat} (hlimit : 0 < limit)
    {reply : Reply (.orderIDs account after limit)} {earlier : List Event}
    (he : ⟨thread, before, .store (.orderIDs account after limit), reply⟩ :: earlier <:+
      w.history) :
    ∃ ctx, reply.result = readResult ctx
      (Paging.fetch (ordersOf account earlier) limit (cursorOf after)) := by
  have hmoment := moment_of_event hlater he
  obtain ⟨env, world, hexecute, _⟩ := hmoment.executed
  have hlisted : (before.orderIDs.lookup account).getD [] = ordersOf account earlier :=
    (filed_of_later hmoment.reached).listed account
  simp only [execute] at hexecute
  split at hexecute
  · cases hexecute
    exact ⟨env.ctx, by rw [apply_order_ids _ _ _ _ hlimit, hlisted]⟩
  · cases hexecute

end AcmeServer.Guarantee
