import AcmeServer.Nonce.Queue

/-!
# The nonce manager and its reference

`Reference` says what the manager is for: a list of outstanding nonces in issue order, from which
`Issue` drops the expired ones and then the oldest ones that are too many. The manager drops only a
leading part of its queue. With a clock that does not go back the nonces expire in issue order, so
that this comes to the same. `manager_behaves_as_reference` is the result about whole runs.
-/

namespace AcmeServer.Nonce

open Memstore (ContextError)

/-! ## The reference -/

/-- The call consumed the nonce, and it was valid. -/
def accepts (value : String) : Call × Answer → Bool
  | (.consume _ _ v, .consumed true) => v = value
  | _ => false

theorem accepts_consume (value v : String) (ctx : Option ContextError) (now : Time) (valid : Bool) :
    accepts value (.consume ctx now v, .consumed valid) = (valid && decide (v = value)) := by
  cases valid <;> rfl

/-- The outstanding nonces, oldest first, and the values that the random source will give. -/
structure Reference where
  outstanding : List Entry
  fresh : List String

namespace Reference

/-- Drops the oldest entries until fewer than the capacity remain. -/
def dropOldest (capacity : Nat) : List Entry → List Entry
  | [] => []
  | e :: rest => if rest.length + 1 < capacity then e :: rest else dropOldest capacity rest

/-- Drops the expired entries and then the surplus. -/
def makeRoom (capacity : Nat) (now : Time) (outstanding : List Entry) : List Entry :=
  dropOldest capacity (outstanding.filter fun e => now < e.expires)

/-- Executes a call. -/
def step (ttl : Duration) (capacity : Nat) (r : Reference) : Call → Answer × Reference
  | .issue (some cause) _ => (.contextEnded cause, r)
  | .issue none now =>
      match r.fresh with
      | [] => (.waiting, ⟨makeRoom capacity now r.outstanding, []⟩)
      | value :: rest =>
          (.issued value, ⟨makeRoom capacity now r.outstanding ++ [⟨value, now + ttl⟩], rest⟩)
  | .consume (some cause) _ _ => (.contextEnded cause, r)
  | .consume none now value =>
      (.consumed (r.outstanding.any fun e => e.value = value ∧ now < e.expires),
        ⟨r.outstanding.filter fun e => e.value ≠ value, r.fresh⟩)

/-- Executes calls one after the other. -/
def run (ttl : Duration) (capacity : Nat) (r : Reference) : List Call → List Answer × Reference
  | [] => ([], r)
  | call :: rest =>
      let (answer, r) := r.step ttl capacity call
      let (answers, r) := run ttl capacity r rest
      (answer :: answers, r)

theorem drop_oldest_eq (capacity : Nat) (entries : List Entry) :
    dropOldest capacity entries = entries.drop (entries.length + 1 - capacity) := by
  induction entries with
  | nil => simp [dropOldest]
  | cons e rest ih =>
      unfold dropOldest
      split
      · rename_i hroom
        rw [Nat.sub_eq_zero_of_le (by rw [List.length_cons]; omega), List.drop_zero]
      · rename_i hfull
        have hdrop : (e :: rest).length + 1 - capacity = rest.length + 1 - capacity + 1 := by
          rw [List.length_cons]
          omega
        rw [hdrop, List.drop_succ_cons, ih]

/-! ## Accepted nonces -/

/-- How often the nonce may still be accepted. -/
def chances (r : Reference) (value : String) : Nat :=
  (r.outstanding.map Entry.value ++ r.fresh).count value

theorem room_sublist (capacity : Nat) (now : Time) (outstanding : List Entry) :
    (makeRoom capacity now outstanding).Sublist outstanding := by
  have hdrop : ∀ entries, (dropOldest capacity entries).Sublist entries := by
    intro entries
    induction entries with
    | nil => exact .refl _
    | cons e rest ih =>
        unfold dropOldest
        split
        · exact .refl _
        · exact ih.cons e
  exact (hdrop _).trans List.filter_sublist

/-- Every acceptance takes away a chance, and no call adds one. -/
theorem step_chances (ttl : Duration) (capacity : Nat) (r : Reference) (call : Call)
    (value : String) :
    (r.step ttl capacity call).2.chances value +
      (if accepts value (call, (r.step ttl capacity call).1) then 1 else 0) ≤ r.chances value := by
  unfold chances
  cases call with
  | issue ctx now =>
      cases ctx with
      | some cause => simp [step, accepts]
      | none =>
          have hroom := ((room_sublist capacity now r.outstanding).map Entry.value).count_le value
          cases hfresh : r.fresh with
          | nil =>
              simp only [step, hfresh, accepts, List.append_nil]
              exact hroom
          | cons v rest =>
              simp only [step, hfresh, accepts, List.map_append, List.count_append, List.map_cons,
                List.map_nil, List.count_cons, List.count_nil]
              simp only [Bool.false_eq_true, if_false]
              omega
  | consume ctx now v =>
      cases ctx with
      | some cause => simp [step, accepts]
      | none =>
          have hkept := (List.filter_sublist (p := fun e : Entry => decide (e.value ≠ v))
            (l := r.outstanding)).map Entry.value |>.count_le value
          show
            ((r.outstanding.filter fun e => e.value ≠ v).map Entry.value ++ r.fresh).count value +
            (if accepts value (.consume none now v, .consumed
              (r.outstanding.any fun e => e.value = v ∧ now < e.expires)) then 1 else 0) ≤ _
          rw [List.count_append, List.count_append]
          split
          · -- The nonce was outstanding and is gone.
            rename_i haccepted
            rw [accepts_consume, Bool.and_eq_true, List.any_eq_true, decide_eq_true_eq] at haccepted
            obtain ⟨⟨e, he, hvalid⟩, hsame⟩ := haccepted
            obtain ⟨hvalue, _⟩ := decide_eq_true_eq.mp hvalid
            subst hsame
            have hgone : ((r.outstanding.filter fun e => e.value ≠ v).map Entry.value).count v =
                0 := by
              rw [List.count_eq_zero]
              simp
            have hwas : 0 < (r.outstanding.map Entry.value).count v :=
              List.count_pos_iff.mpr (hvalue ▸ List.mem_map_of_mem he)
            omega
          · omega

/-- A nonce is accepted at most as often as there are chances for it. -/
theorem run_accepts {ttl : Duration} {capacity : Nat} (r : Reference) (calls : List Call)
    (value : String) :
    (calls.zip (r.run ttl capacity calls).1).countP (accepts value) ≤ r.chances value := by
  induction calls generalizing r with
  | nil => simp [run]
  | cons call rest ih =>
      have hstep := step_chances ttl capacity r call value
      have hrest := ih (r.step ttl capacity call).2
      simp only [run, List.zip_cons_cons, List.countP_cons]
      omega

end Reference

/-! ## Refinement -/

namespace Manager

variable {m : Manager} {r : Reference} {encode : Bytes → String} {clock : Time}

/-- The manager stands for the reference. The clock is the latest reading so far. -/
structure Refines (encode : Bytes → String) (clock : Time) (m : Manager) (r : Reference) :
    Prop where
  orderly : m.Orderly encode
  outstanding : m.outstanding = r.outstanding
  fresh : coming encode m.rand = r.fresh
  unfailing : none ∉ m.rand
  sorted : m.outstanding.Pairwise fun e d => e.expires ≤ d.expires
  recent : ∀ e ∈ m.outstanding, e.expires ≤ clock + m.ttl
  within : m.outstanding.length ≤ m.capacity

/-- In a list that is sorted by expiry the expired entries come first. -/
theorem drop_while_expired {entries : List Entry} {now : Time}
    (hsorted : entries.Pairwise fun e d => e.expires ≤ d.expires) :
    (entries.dropWhile fun e => ¬ now < e.expires) = entries.filter fun e => now < e.expires := by
  induction entries with
  | nil => rfl
  | cons e rest ih =>
      rw [List.pairwise_cons] at hsorted
      by_cases hfresh : now < e.expires
      · have hall : ∀ d ∈ e :: rest, now < d.expires := by
          intro d hd
          rcases List.mem_cons.mp hd with rfl | hd
          · exact hfresh
          · exact lt_of_lt_of_le hfresh (hsorted.1 d hd)
        rw [List.dropWhile_cons_of_neg (by simpa using hfresh),
          List.filter_eq_self.mpr (by simpa using hall)]
      · rw [List.dropWhile_cons_of_pos (by simpa using hfresh), ih hsorted.2,
          List.filter_cons_of_neg (by simpa using hfresh)]

theorem Refines.remaining_eq (h : Refines encode clock m r) (now : Time) :
    m.remaining now = Reference.makeRoom m.capacity now r.outstanding := by
  unfold remaining Reference.makeRoom
  rw [Reference.drop_oldest_eq, drop_while_expired h.sorted, h.outstanding]

theorem remaining_suffix (m : Manager) (now : Time) : m.remaining now <:+ m.outstanding :=
  (List.drop_suffix _ _).trans (List.dropWhile_suffix _)

/-- Making room keeps the refinement, with the reference's list after it made room. -/
theorem Refines.make_room (h : Refines encode clock m r) {now : Time} (hnow : clock ≤ now) :
    Refines encode now (m.makeRoom now)
      ⟨Reference.makeRoom m.capacity now r.outstanding, r.fresh⟩ := by
  obtain ⟨hreduces, _, houtstanding⟩ := make_room_spec h.orderly.sound h.orderly.capacity now
  have hsuffix := remaining_suffix m now
  refine ⟨h.orderly.make_room now, houtstanding.trans (h.remaining_eq now), ?_, ?_, ?_, ?_, ?_⟩
  · rw [hreduces.rand]
    exact h.fresh
  · rw [hreduces.rand]
    exact h.unfailing
  · rw [houtstanding]
    exact h.sorted.sublist hsuffix.sublist
  · intro e he
    rw [houtstanding] at he
    rw [hreduces.ttl]
    exact (h.recent e (hsuffix.mem he)).trans (Int.add_le_add_right hnow _)
  · rw [houtstanding, hreduces.capacity]
    exact (remaining_length h.orderly.capacity now).le

/-- Adding the next nonce of the source. -/
theorem Refines.added (h : Refines encode clock m r) {buf : Bytes} {rest : List (Option Bytes)}
    (hrand : m.rand = some buf :: rest) (hnew : encode buf ∉ m.queue.map Entry.value)
    (horderly : (m.added ⟨encode buf, clock + m.ttl⟩ rest).Orderly encode)
    (hroom : m.outstanding.length < m.capacity) :
    Refines encode clock (m.added ⟨encode buf, clock + m.ttl⟩ rest)
      ⟨r.outstanding ++ [⟨encode buf, clock + m.ttl⟩], coming encode rest⟩ := by
  have houtstanding :=
    added_outstanding (e := ⟨encode buf, clock + m.ttl⟩) h.orderly.sound hnew rest
  have hunfailing := h.unfailing
  rw [hrand, List.mem_cons, not_or] at hunfailing
  refine ⟨horderly, by rw [houtstanding, h.outstanding], rfl, hunfailing.2, ?_, ?_, ?_⟩
  · rw [houtstanding, List.pairwise_append]
    refine ⟨h.sorted, List.pairwise_singleton _ _, fun e he d hd => ?_⟩
    rw [List.mem_singleton] at hd
    subst hd
    exact h.recent e he
  · intro e he
    rw [houtstanding, List.mem_append, List.mem_singleton] at he
    rcases he with he | rfl
    · exact h.recent e he
    · exact le_refl _
  · rw [houtstanding, List.length_append]
    exact hroom

theorem Refines.issue (h : Refines encode clock m r) {now : Time} (hnow : clock ≤ now)
    (ctx : Option ContextError) :
    (m.issue encode ctx now).1 = (r.step m.ttl m.capacity (.issue ctx now)).1 ∧
      Refines encode now (m.issue encode ctx now).2
        (r.step m.ttl m.capacity (.issue ctx now)).2 := by
  cases ctx with
  | some cause =>
      refine ⟨rfl, h.orderly, h.outstanding, h.fresh, h.unfailing, h.sorted, ?_, h.within⟩
      exact fun e he => (h.recent e he).trans (Int.add_le_add_right hnow _)
  | none =>
      have hroom := h.make_room hnow
      obtain ⟨hreduces, _, houtstanding⟩ := make_room_spec h.orderly.sound h.orderly.capacity now
      have horderly := h.orderly.issue none now
      have hlength := remaining_length h.orderly.capacity now
      rw [← houtstanding, ← hreduces.capacity] at hlength
      simp only [Manager.issue] at horderly ⊢
      rcases issue_loop_cases hroom.orderly.sound hroom.orderly.unrepeated now with
        ⟨hrand, hloop⟩ | ⟨rest, hrand, _⟩ | ⟨buf, rest, hrand, hnew, hloop⟩
      · have hfresh : r.fresh = [] := by
          rw [← hroom.fresh, hrand]
          rfl
        rw [hloop]
        simp only [Reference.step, hfresh]
        rw [hfresh] at hroom
        exact ⟨trivial, hroom⟩
      · exact absurd (hrand ▸ List.mem_cons_self) hroom.unfailing
      · have hfresh : r.fresh = encode buf :: coming encode rest := by
          rw [← hroom.fresh, hrand]
          rfl
        rw [hloop] at horderly ⊢
        have hadded := hroom.added hrand hnew horderly hlength
        simp only [Reference.step, hfresh]
        rw [hreduces.ttl] at hadded ⊢
        exact ⟨trivial, hadded⟩

/-- A nonce is found in the map exactly if it is in the list. -/
theorem Refines.lookup_none (h : Refines encode clock m r) {value : String} :
    m.live.lookup value = none ↔ ∀ e ∈ r.outstanding, e.value ≠ value := by
  rw [← h.outstanding]
  constructor
  · rintro hnone e he rfl
    rw [(mem_outstanding h.orderly.sound).mp he] at hnone
    cases hnone
  · intro hout
    rw [Option.eq_none_iff_forall_ne_some]
    intro x hx
    exact hout ⟨value, x⟩ ((mem_outstanding h.orderly.sound).mpr hx) rfl

/-- A nonce that is found is valid until the time that the map has for it. -/
theorem Refines.lookup_some (h : Refines encode clock m r) {value : String} {x : Time}
    (hlive : m.live.lookup value = some x) (now : Time) :
    (r.outstanding.any fun e => e.value = value ∧ now < e.expires) = decide (now < x) := by
  rw [← h.outstanding, Bool.eq_iff_iff, List.any_eq_true, decide_eq_true_eq]
  constructor
  · rintro ⟨e, he, hvalid⟩
    obtain ⟨rfl, hfresh⟩ := decide_eq_true_eq.mp hvalid
    rw [(mem_outstanding h.orderly.sound).mp he] at hlive
    cases hlive
    exact hfresh
  · intro hfresh
    exact ⟨⟨value, x⟩, (mem_outstanding h.orderly.sound).mpr hlive, by simp [hfresh]⟩

theorem Refines.consume (h : Refines encode clock m r) {now : Time} (hnow : clock ≤ now)
    (ctx : Option ContextError) (value : String) :
    (m.consume ctx now value).1 = (r.step m.ttl m.capacity (.consume ctx now value)).1 ∧
      Refines encode now (m.consume ctx now value).2
        (r.step m.ttl m.capacity (.consume ctx now value)).2 := by
  have hrecent : ∀ e ∈ m.outstanding, e.expires ≤ now + m.ttl :=
    fun e he => (h.recent e he).trans (Int.add_le_add_right hnow _)
  cases ctx with
  | some cause =>
      exact ⟨rfl, h.orderly, h.outstanding, h.fresh, h.unfailing, h.sorted, hrecent, h.within⟩
  | none =>
      have horderly := h.orderly.consume none now value
      unfold Manager.consume at horderly ⊢
      dsimp only [Reference.step] at horderly ⊢
      cases hlive : m.live.lookup value with
      | none =>
          have hout := h.lookup_none.mp hlive
          have hinvalid :
              (r.outstanding.any fun e => e.value = value ∧ now < e.expires) = false := by
            rw [List.any_eq_false]
            intro e he
            simp [hout e he]
          rw [List.filter_eq_self.mpr (by simpa using hout), hinvalid]
          exact ⟨rfl, h.orderly, h.outstanding, h.fresh, h.unfailing, h.sorted, hrecent, h.within⟩
      | some x =>
          rw [hlive] at horderly
          have houtstanding := consumed_outstanding (m := m) value
          refine ⟨congrArg _ (h.lookup_some hlive now).symm, horderly, ?_, h.fresh, h.unfailing,
            ?_, ?_, ?_⟩
          · rw [← h.outstanding]
            exact houtstanding
          · exact houtstanding ▸ h.sorted.sublist List.filter_sublist
          · intro e he
            exact hrecent e (List.mem_of_mem_filter (houtstanding ▸ he))
          · exact houtstanding ▸ (List.length_filter_le _ _).trans h.within

theorem Refines.step (h : Refines encode clock m r) (call : Call) (hnow : clock ≤ call.now) :
    (m.step encode call).1 = (r.step m.ttl m.capacity call).1 ∧
      Refines encode call.now (m.step encode call).2 (r.step m.ttl m.capacity call).2 := by
  cases call with
  | issue ctx now => exact h.issue hnow ctx
  | consume ctx now value => exact h.consume hnow ctx value

/-- With a clock that does not go back, whole runs give the same answers and stay related. -/
theorem Refines.run (h : Refines encode clock m r) {calls : List Call}
    (hclock : (clock :: calls.map Call.now).Pairwise (· ≤ ·)) :
    (m.run encode calls).1 = (r.run m.ttl m.capacity calls).1 ∧
      ∃ last, Refines encode last (m.after encode calls) (r.run m.ttl m.capacity calls).2 := by
  induction calls generalizing clock m r with
  | nil => exact ⟨rfl, clock, h⟩
  | cons call rest ih =>
      rw [List.map_cons, List.pairwise_cons] at hclock
      obtain ⟨hanswer, hnext⟩ := h.step call (hclock.1 _ List.mem_cons_self)
      obtain ⟨httl, hcapacity⟩ := h.orderly.step_settings call
      obtain ⟨hanswers, last, hlast⟩ := ih hnext hclock.2
      rw [httl, hcapacity] at hanswers hlast
      refine ⟨?_, last, hlast⟩
      show (m.step encode call).1 :: ((m.step encode call).2.run encode rest).1 = _
      rw [hanswer, hanswers]
      rfl

theorem new_refines {opts : Options} {source : List Bytes}
    (hunrepeated : (source.map encode).Nodup) (clock : Time) :
    Refines encode clock (new opts (source.map some)) ⟨[], source.map encode⟩ := by
  have hcoming : coming encode (source.map some) = source.map encode := by
    rw [coming, List.filterMap_map, Function.id_comp, List.filterMap_some]
  exact ⟨new_orderly (by rwa [hcoming]), rfl, hcoming, by simp [new], .nil, by simp [outstanding,
    pending, new], Nat.zero_le _⟩

/-! ## Eviction order -/

/-- An `Issue` call keeps a trailing part of the outstanding nonces and adds new ones to it. -/
theorem Orderly.issue_outstanding (h : m.Orderly encode) (now : Time) :
    ∃ added, (m.issue encode none now).2.outstanding = m.remaining now ++ added ∧
      ∀ e ∈ added, e ∉ m.outstanding := by
  obtain ⟨hreduces, _, houtstanding⟩ := make_room_spec h.sound h.capacity now
  have hroom := h.make_room now
  simp only [Manager.issue]
  rcases issue_loop_cases hroom.sound hroom.unrepeated now with
    ⟨_, hloop⟩ | ⟨rest, _, hloop⟩ | ⟨buf, rest, hrand, hnew, hloop⟩
  · exact ⟨[], by rw [hloop, houtstanding, List.append_nil], by simp⟩
  · refine ⟨[], ?_, by simp⟩
    rw [hloop, List.append_nil]
    exact houtstanding
  · refine ⟨[⟨encode buf, now + (m.makeRoom now).ttl⟩], ?_, ?_⟩
    · rw [hloop, added_outstanding hroom.sound hnew, houtstanding]
    · intro e he hold
      rw [List.mem_singleton] at he
      have hunrepeated := (List.nodup_append.mp h.unrepeated).2.2
      rw [hreduces.rand] at hrand
      refine hunrepeated e.value ?_ (encode buf) (by simp [hrand, coming]) (by rw [he])
      exact List.mem_map_of_mem (List.mem_of_mem_drop (List.mem_of_mem_filter hold))

/-- What comes after a member of a trailing part of a list belongs to that part. -/
theorem mem_of_suffix {older e : Entry} {entries kept : List Entry} (hnodup : entries.Nodup)
    (hsuffix : kept <:+ entries) (hpair : [older, e].Sublist entries) (holder : older ∈ kept) :
    e ∈ kept := by
  obtain ⟨dropped, rfl⟩ := hsuffix
  obtain ⟨front, back, hsplit, hfront, hback⟩ := List.sublist_append_iff.mp hpair
  have hout : older ∉ dropped := fun hmem => (List.nodup_append.mp hnodup).2.2 _ hmem _ holder rfl
  match front, hfront with
  | [], _ =>
      rw [List.nil_append] at hsplit
      exact hback.mem (hsplit ▸ by simp)
  | d :: front, hfront =>
      rw [List.cons_append, List.cons.injEq] at hsplit
      rw [← hsplit.1] at hfront
      exact absurd (hfront.mem List.mem_cons_self) hout

/-- A nonce that an `Issue` call drops takes all older ones with it. -/
theorem Orderly.issue_drops_older (h : m.Orderly encode) (now : Time) {older e : Entry}
    (hpair : [older, e].Sublist m.outstanding)
    (hkept : older ∈ (m.issue encode none now).2.outstanding) :
    e ∈ (m.issue encode none now).2.outstanding := by
  obtain ⟨added, houtstanding, hnew⟩ := h.issue_outstanding now
  rw [houtstanding, List.mem_append] at hkept ⊢
  rcases hkept with hkept | hadded
  · exact .inl (mem_of_suffix (outstanding_distinct h.sound).of_map (remaining_suffix m now) hpair
      hkept)
  · exact absurd (hpair.mem List.mem_cons_self) (hnew older hadded)

theorem after_concat (m : Manager) (calls : List Call) (call : Call) :
    m.after encode (calls ++ [call]) = ((m.after encode calls).step encode call).2 := by
  induction calls generalizing m with
  | nil => rfl
  | cons first rest ih => exact ih (m.step encode first).2

/-- With a clock that does not go back and a random source that neither fails nor repeats a value,
the manager gives the answers of the reference and has its outstanding nonces. In particular it
never has more of them than its capacity, accepts each at most once, and drops one only together
with all older ones. -/
theorem manager_behaves_as_reference (encode : Bytes → String) (opts : Options)
    (source : List Bytes) (calls : List Call) (hunrepeated : (source.map encode).Nodup)
    (hclock : (calls.map Call.now).Pairwise (· ≤ ·)) :
    let m := new opts (source.map some)
    let reference := Reference.run m.ttl m.capacity ⟨[], source.map encode⟩ calls
    (m.run encode calls).1 = reference.1 ∧
    (m.after encode calls).outstanding = reference.2.outstanding ∧
    (m.after encode calls).len = reference.2.outstanding.length ∧
    (m.after encode calls).len ≤ m.capacity ∧
    (∀ value, (calls.zip (m.run encode calls).1).countP (accepts value) ≤ 1) ∧
    (∀ earlier now rest, calls = earlier ++ .issue none now :: rest →
      ∀ older e, [older, e].Sublist (m.after encode earlier).outstanding →
        older ∈ (m.after encode (earlier ++ [.issue none now])).outstanding →
        e ∈ (m.after encode (earlier ++ [.issue none now])).outstanding) := by
  intro m reference
  -- Any time before the first reading will do as the time at which the manager is made.
  obtain ⟨clock, hstart⟩ : ∃ clock : Time, (clock :: calls.map Call.now).Pairwise (· ≤ ·) := by
    cases calls with
    | nil => exact ⟨0, List.pairwise_singleton _ _⟩
    | cons call rest =>
        refine ⟨call.now, List.pairwise_cons.mpr ⟨fun t ht => ?_, hclock⟩⟩
        rcases List.mem_cons.mp ht with rfl | ht
        · exact le_refl _
        · exact (List.pairwise_cons.mp hclock).1 t ht
  have hnew : Refines encode clock m ⟨[], source.map encode⟩ := new_refines hunrepeated clock
  obtain ⟨hanswers, last, hlast⟩ := hnew.run hstart
  have hcapacity := (hnew.orderly.after_settings calls).2
  refine ⟨hanswers, hlast.outstanding, ?_, ?_, fun value => ?_, ?_⟩
  · rw [len_eq hlast.orderly.sound, hlast.outstanding]
  · rw [len_eq hlast.orderly.sound, ← hcapacity]
    exact hlast.within
  · rw [hanswers]
    refine (Reference.run_accepts _ calls value).trans ?_
    exact List.nodup_iff_count_le_one.mp hunrepeated value
  · intro earlier now rest _ older e hpair hkept
    rw [after_concat] at hkept ⊢
    exact (hnew.orderly.after earlier).issue_drops_older now hpair hkept

/-- A manager for two nonces: the third one makes it drop the first, and the second is accepted. -/
theorem second_nonce_outlives_first :
    ((new ⟨10, 2⟩ [some [1], some [2, 2], some [3, 3, 3]]).run (fun bytes => toString bytes.length)
      [.issue none 1, .issue none 2, .issue none 3, .consume none 4 "1", .consume none 5 "2",
        .consume none 6 "2"]).1 =
      [.issued "1", .issued "2", .issued "3", .consumed false, .consumed true, .consumed false] :=
  (manager_behaves_as_reference (fun bytes => toString bytes.length) ⟨10, 2⟩
    [[1], [2, 2], [3, 3, 3]] _ (by decide) (by decide)).1.trans (by decide +kernel)

end Manager

end AcmeServer.Nonce
