import AcmeServer.Nonce.Manager

/-!
# The queue of the nonce manager

`Sound` ties the queue to the map of outstanding nonces: every outstanding nonce has one entry, at
or after the head. The entries of the outstanding nonces, oldest first, are the `outstanding` list,
and each part of an `Issue` call is described by what it does to that list. `queue_is_bounded` is
the result about whole runs, for any clock.
-/

namespace AcmeServer.Nonce

namespace Manager

variable {m : Manager} {e : Entry} {rest : List Entry} {encode : Bytes → String}

/-! ## Outstanding nonces -/

/-- The queue and the map of outstanding nonces agree. -/
structure Sound (m : Manager) : Prop where
  head_le : m.head ≤ m.queue.length
  distinct : (m.queue.map Entry.value).Nodup
  listed : ∀ v x, m.live.lookup v = some x → (⟨v, x⟩ : Entry) ∈ m.pending

/-- The entries of the outstanding nonces, oldest first. -/
def outstanding (m : Manager) : List Entry := m.pending.filter m.keeps

theorem keeps_iff : m.keeps e = true ↔ m.live.lookup e.value = some e.expires := by
  simp [keeps]

theorem mem_outstanding (h : m.Sound) :
    e ∈ m.outstanding ↔ m.live.lookup e.value = some e.expires := by
  unfold outstanding
  rw [List.mem_filter, keeps_iff]
  exact ⟨fun hmem => hmem.2, fun hlive => ⟨h.listed e.value e.expires hlive, hlive⟩⟩

theorem pending_distinct (h : m.Sound) : (m.pending.map Entry.value).Nodup :=
  h.distinct.sublist ((List.drop_sublist _ _).map _)

theorem outstanding_distinct (h : m.Sound) : (m.outstanding.map Entry.value).Nodup :=
  (pending_distinct h).sublist (List.filter_sublist.map _)

/-- An entry of the queue knows when its nonce expires, if the nonce is outstanding. -/
theorem expires_of_live (h : m.Sound) (he : e ∈ m.pending) {x : Time}
    (hlive : m.live.lookup e.value = some x) : x = e.expires := by
  have hsame := List.inj_on_of_nodup_map (pending_distinct h) (h.listed e.value x hlive) he rfl
  exact congrArg Entry.expires hsame

/-- There are as many entries to keep as outstanding nonces. -/
theorem len_eq (h : m.Sound) : m.len = m.outstanding.length := by
  have hkeys : m.live.keys = (m.outstanding.map Entry.value).toFinset := by
    ext v
    rw [Finmap.mem_keys, Finmap.mem_iff, List.mem_toFinset, List.mem_map]
    constructor
    · rintro ⟨x, hx⟩
      exact ⟨⟨v, x⟩, (mem_outstanding h).mpr hx, rfl⟩
    · rintro ⟨e, he, rfl⟩
      exact ⟨e.expires, (mem_outstanding h).mp he⟩
  rw [len, hkeys, List.toFinset_card_of_nodup (outstanding_distinct h), List.length_map]

/-- The first manager becomes the second by dropping nonces and entries. -/
structure Reduces (m m' : Manager) : Prop where
  ttl : m'.ttl = m.ttl
  capacity : m'.capacity = m.capacity
  rand : m'.rand = m.rand
  queue : m'.queue.Sublist m.queue
  sound : m'.Sound

theorem Reduces.trans {m' m'' : Manager} (h : m.Reduces m') (h' : m'.Reduces m'') :
    m.Reduces m'' :=
  ⟨h'.ttl.trans h.ttl, h'.capacity.trans h.capacity, h'.rand.trans h.rand,
    h'.queue.trans h.queue, h'.sound⟩

theorem Sound.reduces (h : m.Sound) : m.Reduces m := ⟨rfl, rfl, rfl, .refl _, h⟩

/-! ## Going past an entry -/

theorem drop_succ_of_cons {queue : List Entry} {head : Nat} (h : queue.drop head = e :: rest) :
    head < queue.length ∧ queue.drop (head + 1) = rest := by
  constructor
  · by_contra hover
    rw [List.drop_eq_nil_of_le (Nat.le_of_not_lt hover)] at h
    cases h
  · rw [← List.tail_drop, h, List.tail_cons]

theorem skip_pending (hpending : m.pending = e :: rest) : (m.skip e).pending = rest :=
  (drop_succ_of_cons hpending).2

/-- Entries after the first pending one are of other nonces. -/
theorem value_ne_of_mem (h : m.Sound) (hpending : m.pending = e :: rest) {d : Entry}
    (hd : d ∈ rest) : d.value ≠ e.value := by
  have hnodup := pending_distinct h
  rw [hpending, List.map_cons, List.nodup_cons] at hnodup
  exact fun hsame => hnodup.1 (hsame ▸ List.mem_map_of_mem hd)

theorem skip_reduces (h : m.Sound) (hpending : m.pending = e :: rest) : m.Reduces (m.skip e) where
  ttl := rfl
  capacity := rfl
  rand := rfl
  queue := .refl _
  sound := by
    refine ⟨(drop_succ_of_cons hpending).1, h.distinct, fun v x hv => ?_⟩
    rw [skip_pending hpending]
    by_cases hsame : v = e.value
    · rw [hsame] at hv
      exact absurd hv (by simp [skip, Finmap.lookup_erase])
    · have hold : m.live.lookup v = some x := by
        rw [← hv]
        exact (Finmap.lookup_erase_ne hsame).symm
      have hmem := h.listed v x hold
      rw [hpending, List.mem_cons] at hmem
      refine hmem.resolve_left fun hfirst => hsame ?_
      rw [← hfirst]

/-- Going past the first pending entry takes it off the outstanding ones if it was one of them. -/
theorem skip_outstanding (h : m.Sound) (hpending : m.pending = e :: rest) :
    m.outstanding =
      (if m.live.lookup e.value = none then [] else [e]) ++ (m.skip e).outstanding := by
  have hrest : rest.filter (m.skip e).keeps = rest.filter m.keeps := by
    refine List.filter_congr fun d hd => ?_
    unfold keeps skip
    rw [Finmap.lookup_erase_ne (value_ne_of_mem h hpending hd)]
  unfold outstanding
  rw [skip_pending hpending, hpending, List.filter_cons, hrest]
  cases hlive : m.live.lookup e.value with
  | none =>
      have hout : m.keeps e = false := by simp [keeps, hlive]
      simp [hout]
  | some x =>
      have hin : m.keeps e = true := by
        rw [keeps_iff, hlive, expires_of_live h (hpending ▸ List.mem_cons_self) hlive]
      simp [hin]

/-- Going past the entry of a consumed nonce leaves the map as it is. -/
theorem skip_consumed (hlive : m.live.lookup e.value = none) :
    m.skip e = { m with head := m.head + 1 } := by
  have hsame : m.live.erase e.value = m.live := by
    refine Finmap.ext_lookup fun v => ?_
    by_cases hv : v = e.value
    · rw [hv, Finmap.lookup_erase, hlive]
    · exact Finmap.lookup_erase_ne hv
  unfold skip
  rw [hsame]

/-! ## Compaction -/

/-- The loop collects the entries to keep behind those it has collected before. -/
theorem compact_loop_take (steps i n : Nat) (queue : List Entry) (hn : n ≤ i)
    (hi : i + steps = queue.length) :
    (m.compactLoop steps i n queue).1.take (m.compactLoop steps i n queue).2 =
      queue.take n ++ (queue.drop i).filter m.keeps := by
  induction steps generalizing i n queue with
  | zero =>
      have hdone : queue.drop i = [] := List.drop_eq_nil_of_le (by omega)
      simp [compactLoop, hdone]
  | succ steps ih =>
      have hlt : i < queue.length := by omega
      simp only [compactLoop, List.getElem?_eq_getElem hlt]
      rw [List.drop_eq_getElem_cons hlt, List.filter_cons]
      split
      · -- The entry is written to a place that the loop has already read.
        rw [ih (i + 1) (n + 1) (queue.set n queue[i]) (by omega) (by simp; omega),
          List.drop_set_of_lt (by omega), List.take_set,
          List.take_succ_eq_append_getElem (by omega)]
        have hset : (queue.take n ++ [queue[n]]).set n queue[i] = queue.take n ++ [queue[i]] := by
          rw [List.set_append_right _ _ (by simp)]
          have hlen : n - (queue.take n).length = 0 := by simp; omega
          rw [hlen, List.set_cons_zero]
        rw [hset, List.append_assoc, List.singleton_append]
      · rw [ih (i + 1) n queue (by omega) (by omega)]

/-- Compaction leaves the queue alone or reduces it to the entries of outstanding nonces. -/
theorem compact_cases (h : m.Sound) :
    (m.compact = m ∧ m.queue.length < m.capacity + m.len) ∨
      m.compact = { m with queue := m.outstanding, head := 0 } := by
  unfold compact
  split
  · rename_i hkeep
    exact .inl ⟨rfl, by omega⟩
  · right
    have htake := compact_loop_take (m := m) (m.queue.length - m.head) m.head 0 m.queue
      (Nat.zero_le _) (Nat.add_sub_cancel' h.head_le)
    rw [List.take_zero, List.nil_append] at htake
    simp only [htake]
    rfl

theorem compacted_sound (h : m.Sound) : Sound { m with queue := m.outstanding, head := 0 } where
  head_le := Nat.zero_le _
  distinct := outstanding_distinct h
  listed _ _ hlive := (mem_outstanding h).mpr hlive

theorem compact_reduces (h : m.Sound) : m.Reduces m.compact := by
  rcases compact_cases h with ⟨hsame, _⟩ | hcompacted
  · rw [hsame]
    exact h.reduces
  · rw [hcompacted]
    refine ⟨rfl, rfl, rfl, ?_, compacted_sound h⟩
    exact List.filter_sublist.trans (List.drop_sublist _ _)

theorem compact_outstanding (h : m.Sound) : m.compact.outstanding = m.outstanding := by
  rcases compact_cases h with ⟨hsame, _⟩ | hcompacted
  · rw [hsame]
  · rw [hcompacted]
    show m.outstanding.filter m.keeps = m.outstanding
    exact List.filter_eq_self.mpr fun e he => keeps_iff.mpr ((mem_outstanding h).mp he)

/-- After compaction there are fewer tombstones than the manager has capacity. -/
theorem compact_length (h : m.Sound) (hcapacity : 0 < m.capacity) :
    m.compact.queue.length < m.capacity + m.outstanding.length := by
  rcases compact_cases h with ⟨hsame, hbound⟩ | hcompacted
  · rw [hsame, ← len_eq h]
    exact hbound
  · rw [hcompacted]
    exact Nat.lt_add_of_pos_left hcapacity

/-- Compaction does not add pending entries. -/
theorem compact_pending (h : m.Sound) : m.compact.pending.length ≤ m.pending.length := by
  rcases compact_cases h with ⟨hsame, _⟩ | hcompacted
  · rw [hsame]
  · rw [hcompacted]
    exact List.length_filter_le _ _

/-! ## Purging -/

theorem purge_loop_spec (now : Time) (h : m.Sound) (hpending : m.pending = rest) :
    m.Reduces (purgeLoop now rest m) ∧
      (purgeLoop now rest m).outstanding = m.outstanding.dropWhile fun e => ¬ now < e.expires := by
  induction rest generalizing m with
  | nil =>
      have hnone : m.outstanding = [] := by simp [outstanding, hpending]
      exact ⟨h.reduces, by simp [purgeLoop, hnone]⟩
  | cons e rest ih =>
      have hskip := skip_reduces h hpending
      have houtstanding := skip_outstanding h hpending
      obtain ⟨hreduces, hrest⟩ := ih hskip.sound (skip_pending hpending)
      unfold purgeLoop
      cases hlive : m.live.lookup e.value with
      | none =>
          rw [if_pos hlive, List.nil_append] at houtstanding
          exact ⟨hskip.trans hreduces, by rw [hrest, houtstanding]⟩
      | some x =>
          have hexpires := expires_of_live h (hpending ▸ List.mem_cons_self) hlive
          rw [if_neg (by simp [hlive]), List.singleton_append] at houtstanding
          dsimp only
          split
          · rename_i hfresh
            refine ⟨h.reduces, ?_⟩
            rw [houtstanding, List.dropWhile_cons_of_neg (by simpa [← hexpires] using hfresh)]
          · rename_i hexpired
            refine ⟨hskip.trans hreduces, ?_⟩
            rw [hrest, houtstanding,
              List.dropWhile_cons_of_pos (by simpa [← hexpires] using hexpired)]

theorem purge_reduces (h : m.Sound) (now : Time) : m.Reduces (m.purge now) := by
  have hloop := (purge_loop_spec now h rfl).1
  exact hloop.trans (compact_reduces hloop.sound)

/-- Purging drops the oldest outstanding nonces as long as they have expired. -/
theorem purge_outstanding (h : m.Sound) (now : Time) :
    (m.purge now).outstanding = m.outstanding.dropWhile fun e => ¬ now < e.expires := by
  obtain ⟨hloop, houtstanding⟩ := purge_loop_spec now h rfl
  exact (compact_outstanding hloop.sound).trans houtstanding

/-! ## Evicting -/

theorem evict_loop_spec (h : m.Sound) (hpending : m.pending = rest) :
    m.Reduces (evictLoop rest m) ∧ (evictLoop rest m).outstanding = m.outstanding.tail ∧
      (evictLoop rest m).pending.length ≤ rest.length - 1 := by
  induction rest generalizing m with
  | nil =>
      have hnone : m.outstanding = [] := by simp [outstanding, hpending]
      exact ⟨h.reduces, by simp [evictLoop, hnone], by simp [evictLoop, hpending]⟩
  | cons e rest ih =>
      have hskip := skip_reduces h hpending
      have houtstanding := skip_outstanding h hpending
      unfold evictLoop
      split
      · rename_i hlive
        rw [if_neg hlive, List.singleton_append] at houtstanding
        exact ⟨hskip, by rw [houtstanding, List.tail_cons], by simp [skip_pending hpending]⟩
      · rename_i hconsumed
        rw [not_not] at hconsumed
        rw [if_pos hconsumed, List.nil_append] at houtstanding
        rw [← skip_consumed hconsumed]
        obtain ⟨hreduces, hrest, hpast⟩ := ih hskip.sound (skip_pending hpending)
        refine ⟨hskip.trans hreduces, by rw [hrest, houtstanding], ?_⟩
        simp only [List.length_cons]
        omega

theorem evict_oldest_reduces (h : m.Sound) : m.Reduces m.evictOldest := by
  have hloop := (evict_loop_spec h rfl).1
  exact hloop.trans (compact_reduces hloop.sound)

/-- An eviction drops the oldest outstanding nonce. -/
theorem evict_oldest_outstanding (h : m.Sound) :
    m.evictOldest.outstanding = m.outstanding.tail := by
  obtain ⟨hloop, houtstanding, _⟩ := evict_loop_spec h rfl
  exact (compact_outstanding hloop.sound).trans houtstanding

theorem evict_oldest_pending (h : m.Sound) :
    m.evictOldest.pending.length ≤ m.pending.length - 1 := by
  obtain ⟨hloop, _, hpast⟩ := evict_loop_spec h rfl
  exact (compact_pending hloop.sound).trans hpast

theorem evict_oldest_length (h : m.Sound) (hcapacity : 0 < m.capacity) :
    m.evictOldest.queue.length < m.evictOldest.capacity + m.evictOldest.outstanding.length := by
  obtain ⟨hloop, _, _⟩ := evict_loop_spec h rfl
  have hlength := compact_length hloop.sound (by rw [hloop.capacity]; exact hcapacity)
  have hreduces := compact_reduces hloop.sound
  unfold evictOldest
  rw [hreduces.capacity, compact_outstanding hloop.sound]
  exact hlength

/-- There are fewer tombstones than the manager has capacity. -/
def Compacted (m : Manager) : Prop := m.queue.length < m.capacity + m.outstanding.length

theorem evict_surplus_spec (rounds : Nat) (h : m.Sound) (hcapacity : 0 < m.capacity)
    (hcompacted : m.Compacted) (hrounds : m.pending.length ≤ rounds) :
    m.Reduces (evictSurplus rounds m) ∧ (evictSurplus rounds m).Compacted ∧
      (evictSurplus rounds m).outstanding =
        m.outstanding.drop (m.outstanding.length + 1 - m.capacity) := by
  induction rounds generalizing m with
  | zero =>
      have hnone : m.outstanding = [] := by
        have hempty : m.pending = [] := List.eq_nil_of_length_eq_zero (by omega)
        simp [outstanding, hempty]
      exact ⟨h.reduces, hcompacted, by simp [evictSurplus, hnone]⟩
  | succ rounds ih =>
      unfold evictSurplus
      split
      · rename_i hfull
        rw [len_eq h] at hfull
        have hevict := evict_oldest_reduces h
        have hpending := evict_oldest_pending h
        obtain ⟨hreduces, hcompacted', hrest⟩ := ih hevict.sound
          (by rw [hevict.capacity]; exact hcapacity) (evict_oldest_length h hcapacity) (by omega)
        refine ⟨hevict.trans hreduces, hcompacted', ?_⟩
        rw [hrest, evict_oldest_outstanding h, hevict.capacity, List.length_tail,
          ← List.drop_one, List.drop_drop]
        congr 1
        omega
      · rename_i hroom
        refine ⟨h.reduces, hcompacted, ?_⟩
        have hlt : m.outstanding.length < m.capacity := by
          by_contra hover
          have hpending : m.pending ≠ [] := by
            intro hempty
            simp [outstanding, hempty] at hover
            omega
          refine hroom ⟨by rw [len_eq h]; omega, ?_⟩
          by_contra hend
          exact hpending (List.drop_eq_nil_of_le (Nat.le_of_not_lt hend))
        rw [Nat.sub_eq_zero_of_le hlt, List.drop_zero]

/-! ## Making room -/

theorem purge_compacted (h : m.Sound) (hcapacity : 0 < m.capacity) (now : Time) :
    (m.purge now).Compacted := by
  obtain ⟨hloop, _⟩ := purge_loop_spec now h rfl
  have hlength := compact_length hloop.sound (by rw [hloop.capacity]; exact hcapacity)
  unfold Compacted purge
  rw [(compact_reduces hloop.sound).capacity, compact_outstanding hloop.sound]
  exact hlength

/-- The outstanding nonces after expired and surplus ones were dropped. -/
def remaining (m : Manager) (now : Time) : List Entry :=
  let fresh := m.outstanding.dropWhile fun e => ¬ now < e.expires
  fresh.drop (fresh.length + 1 - m.capacity)

theorem remaining_length (hcapacity : 0 < m.capacity) (now : Time) :
    (m.remaining now).length < m.capacity := by
  unfold remaining
  rw [List.length_drop]
  omega

theorem make_room_spec (h : m.Sound) (hcapacity : 0 < m.capacity) (now : Time) :
    m.Reduces (m.makeRoom now) ∧ (m.makeRoom now).Compacted ∧
      (m.makeRoom now).outstanding = m.remaining now := by
  have hpurge := purge_reduces h now
  obtain ⟨hreduces, hcompacted, houtstanding⟩ := evict_surplus_spec (m.purge now).pending.length
    hpurge.sound (by rw [hpurge.capacity]; exact hcapacity) (purge_compacted h hcapacity now)
    (Nat.le_refl _)
  refine ⟨hpurge.trans hreduces, hcompacted, ?_⟩
  show (evictSurplus _ (m.purge now)).outstanding = _
  rw [houtstanding, purge_outstanding h, hpurge.capacity]
  rfl

/-- The queue that is left has room for two entries less than twice the capacity. -/
theorem make_room_length (h : m.Sound) (hcapacity : 0 < m.capacity) (now : Time) :
    (m.makeRoom now).queue.length + 2 ≤ 2 * m.capacity := by
  obtain ⟨hreduces, hcompacted, houtstanding⟩ := make_room_spec h hcapacity now
  have hlength := remaining_length hcapacity now
  unfold Compacted at hcompacted
  rw [hreduces.capacity, houtstanding] at hcompacted
  omega

/-! ## Calls -/

/-- The values that the random source will give. -/
def coming (encode : Bytes → String) (rand : List (Option Bytes)) : List String :=
  (rand.filterMap id).map encode

/-- The manager with one more nonce. -/
def added (m : Manager) (e : Entry) (rand : List (Option Bytes)) : Manager :=
  { m with rand := rand, live := m.live.insert e.value e.expires, queue := m.queue ++ [e] }

/-- The manager without the nonce. -/
def consumed (m : Manager) (value : String) : Manager := { m with live := m.live.erase value }

/-- What holds between calls: the queue agrees with the map and is bounded, and the random source
never gives a value that is still in the queue, nor one value twice. -/
structure Orderly (encode : Bytes → String) (m : Manager) : Prop where
  sound : m.Sound
  unrepeated : (m.queue.map Entry.value ++ coming encode m.rand).Nodup
  capacity : 0 < m.capacity
  bounded : m.queue.length ≤ 2 * m.capacity

theorem added_pending (h : m.Sound) (rand : List (Option Bytes)) :
    (m.added e rand).pending = m.pending ++ [e] :=
  List.drop_append_of_le_length h.head_le

theorem added_sound (h : m.Sound) (hnew : e.value ∉ m.queue.map Entry.value)
    (rand : List (Option Bytes)) : (m.added e rand).Sound where
  head_le := by
    have := h.head_le
    simp only [added, List.length_append]
    omega
  distinct := by
    simp only [added, List.map_append, List.map_cons, List.map_nil]
    exact h.distinct.append (List.nodup_singleton _) (by simpa using hnew)
  listed v x hv := by
    rw [added_pending h, List.mem_append, List.mem_singleton]
    by_cases hsame : v = e.value
    · subst hsame
      rw [show (m.added e rand).live.lookup e.value = some e.expires from
        Finmap.lookup_insert _] at hv
      cases hv
      exact .inr rfl
    · left
      refine h.listed v x ?_
      rw [← hv]
      exact (Finmap.lookup_insert_of_ne _ hsame).symm

/-- A new nonce is the youngest outstanding one. -/
theorem added_outstanding (h : m.Sound) (hnew : e.value ∉ m.queue.map Entry.value)
    (rand : List (Option Bytes)) : (m.added e rand).outstanding = m.outstanding ++ [e] := by
  have hold : m.pending.filter (m.added e rand).keeps = m.pending.filter m.keeps := by
    refine List.filter_congr fun d hd => ?_
    have hne : d.value ≠ e.value := by
      intro hsame
      exact hnew (hsame ▸ List.mem_map_of_mem (List.mem_of_mem_drop hd))
    unfold keeps added
    rw [Finmap.lookup_insert_of_ne _ hne]
  have hin : (m.added e rand).keeps e = true := keeps_iff.mpr (Finmap.lookup_insert _)
  unfold outstanding
  rw [added_pending h, List.filter_append, hold]
  simp [hin]

theorem lookup_consumed (v value : String) :
    (m.consumed value).live.lookup v = if v = value then none else m.live.lookup v := by
  unfold consumed
  split
  · rename_i hsame
    rw [hsame, Finmap.lookup_erase]
  · rename_i hne
    exact Finmap.lookup_erase_ne hne

theorem consumed_sound (h : m.Sound) (value : String) : (m.consumed value).Sound where
  head_le := h.head_le
  distinct := h.distinct
  listed v x hv := by
    rw [lookup_consumed] at hv
    split at hv
    · cases hv
    · exact h.listed v x hv

/-- A consumed nonce is no longer outstanding. -/
theorem consumed_outstanding (value : String) :
    (m.consumed value).outstanding = m.outstanding.filter fun e => e.value ≠ value := by
  show m.pending.filter (m.consumed value).keeps = (m.pending.filter m.keeps).filter _
  rw [List.filter_filter]
  refine List.filter_congr fun e _ => ?_
  unfold keeps
  rw [lookup_consumed]
  split <;> simp_all

/-- A value that comes from the source has never been issued before, so the loop takes it. -/
theorem issue_loop_cases (h : m.Sound)
    (hunrepeated : (m.queue.map Entry.value ++ coming encode m.rand).Nodup) (now : Time) :
    (m.rand = [] ∧ issueLoop encode now m.rand m = (.waiting, m)) ∨
    (∃ rest, m.rand = none :: rest ∧
      issueLoop encode now m.rand m = (.randomFailed, { m with rand := rest })) ∨
    (∃ buf rest, m.rand = some buf :: rest ∧ encode buf ∉ m.queue.map Entry.value ∧
      issueLoop encode now m.rand m =
        (.issued (encode buf), m.added ⟨encode buf, now + m.ttl⟩ rest)) := by
  cases hrand : m.rand with
  | nil =>
      refine .inl ⟨rfl, ?_⟩
      simp only [issueLoop, ← hrand]
  | cons read rest =>
      cases read with
      | none => exact .inr (.inl ⟨rest, rfl, rfl⟩)
      | some buf =>
          rw [hrand] at hunrepeated
          have hnew : encode buf ∉ m.queue.map Entry.value := by
            intro hmem
            exact (List.nodup_append.mp hunrepeated).2.2 _ hmem _ (by simp [coming]) rfl
          have hdead : m.live.lookup (encode buf) = none := by
            rw [Option.eq_none_iff_forall_ne_some]
            intro x hx
            exact hnew (List.mem_map_of_mem (List.mem_of_mem_drop (h.listed _ x hx)))
          refine .inr (.inr ⟨buf, rest, rfl, hnew, ?_⟩)
          simp [issueLoop, hdead, added]

theorem Orderly.make_room (h : m.Orderly encode) (now : Time) :
    (m.makeRoom now).Orderly encode := by
  obtain ⟨hreduces, _, _⟩ := make_room_spec h.sound h.capacity now
  have hlength := make_room_length h.sound h.capacity now
  refine ⟨hreduces.sound, ?_, by rw [hreduces.capacity]; exact h.capacity,
    by rw [hreduces.capacity]; omega⟩
  rw [hreduces.rand]
  exact h.unrepeated.sublist ((hreduces.queue.map _).append_right _)

theorem Orderly.issue (h : m.Orderly encode) (ctx : Option Memstore.ContextError) (now : Time) :
    (m.issue encode ctx now).2.Orderly encode := by
  cases ctx with
  | some cause => exact h
  | none =>
      have hroom := h.make_room now
      have hlength := make_room_length h.sound h.capacity now
      have hcapacity := (make_room_spec h.sound h.capacity now).1.capacity
      simp only [Manager.issue]
      rcases issue_loop_cases hroom.sound hroom.unrepeated now with
        ⟨_, hloop⟩ | ⟨rest, hrand, hloop⟩ | ⟨buf, rest, hrand, hnew, hloop⟩
      · rw [hloop]
        exact hroom
      · rw [hloop]
        refine ⟨⟨hroom.sound.head_le, hroom.sound.distinct, hroom.sound.listed⟩, ?_,
          hroom.capacity, hroom.bounded⟩
        have hunrepeated := hroom.unrepeated
        rw [hrand] at hunrepeated
        exact hunrepeated
      · rw [hloop]
        refine ⟨added_sound hroom.sound hnew rest, ?_, hroom.capacity, ?_⟩
        · have hunrepeated := hroom.unrepeated
          rw [hrand] at hunrepeated
          simpa [added, coming] using hunrepeated
        · simp only [added, List.length_append, List.length_singleton]
          omega

theorem Orderly.consume (h : m.Orderly encode) (ctx : Option Memstore.ContextError) (now : Time)
    (value : String) : (m.consume ctx now value).2.Orderly encode := by
  cases ctx with
  | some cause => exact h
  | none =>
      unfold Manager.consume
      dsimp only
      split
      · exact h
      · exact ⟨consumed_sound h.sound value, h.unrepeated, h.capacity, h.bounded⟩

theorem Orderly.step (h : m.Orderly encode) (call : Call) :
    (m.step encode call).2.Orderly encode := by
  cases call with
  | issue ctx now => exact h.issue ctx now
  | consume ctx now value => exact h.consume ctx now value

/-- A call leaves the settings of the manager alone. -/
theorem Orderly.step_settings (h : m.Orderly encode) (call : Call) :
    (m.step encode call).2.ttl = m.ttl ∧ (m.step encode call).2.capacity = m.capacity := by
  cases call with
  | issue ctx now =>
      cases ctx with
      | some cause => exact ⟨rfl, rfl⟩
      | none =>
          have hroom := h.make_room now
          have hreduces := (make_room_spec h.sound h.capacity now).1
          simp only [Manager.step, Manager.issue]
          rcases issue_loop_cases hroom.sound hroom.unrepeated now with
            ⟨_, hloop⟩ | ⟨rest, _, hloop⟩ | ⟨buf, rest, _, _, hloop⟩ <;>
          · rw [hloop]
            exact ⟨hreduces.ttl, hreduces.capacity⟩
  | consume ctx now value =>
      cases ctx with
      | some cause => exact ⟨rfl, rfl⟩
      | none =>
          simp only [Manager.step, Manager.consume]
          split <;> exact ⟨rfl, rfl⟩

theorem Orderly.after_settings (h : m.Orderly encode) (calls : List Call) :
    (m.after encode calls).ttl = m.ttl ∧ (m.after encode calls).capacity = m.capacity := by
  induction calls generalizing m with
  | nil => exact ⟨rfl, rfl⟩
  | cons call rest ih =>
      obtain ⟨httl, hcapacity⟩ := h.step_settings call
      obtain ⟨httl', hcapacity'⟩ := ih (h.step call)
      exact ⟨httl'.trans httl, hcapacity'.trans hcapacity⟩

theorem Orderly.after (h : m.Orderly encode) (calls : List Call) :
    (m.after encode calls).Orderly encode := by
  induction calls generalizing m with
  | nil => exact h
  | cons call rest ih => exact ih (h.step call)

theorem new_orderly {opts : Options} {rand : List (Option Bytes)}
    (hunrepeated : (coming encode rand).Nodup) : (new opts rand).Orderly encode where
  sound := ⟨Nat.le_refl _, List.nodup_nil, fun v x hv => by simp [new, Finmap.lookup_empty] at hv⟩
  unrepeated := hunrepeated
  capacity := by
    simp only [new, defaultCapacity]
    split
    · exact Nat.zero_lt_succ _
    · omega
  bounded := Nat.zero_le _

theorem new_capacity {opts : Options} {rand : List (Option Bytes)} (h : 1 ≤ opts.capacity) :
    ((new opts rand).capacity : Int) = opts.capacity := by
  have hpos : ¬ opts.capacity ≤ 0 := by omega
  simp only [new, if_neg hpos]
  omega

/-- An outstanding nonce has one entry in the queue. -/
theorem Sound.entry (h : m.Sound) {v : String} {x : Time} (hlive : m.live.lookup v = some x) :
    ∃ i, m.head ≤ i ∧ m.queue[i]?.map Entry.value = some v ∧
      ∀ j, m.queue[j]?.map Entry.value = some v → j = i := by
  obtain ⟨k, hk, hentry⟩ := List.mem_iff_getElem.mp (h.listed v x hlive)
  have hlength : m.head + k < m.queue.length := by
    have hpending : m.pending.length = m.queue.length - m.head := List.length_drop
    omega
  have hvalue : (m.queue.map Entry.value)[m.head + k]? = some v := by
    have hdrop : m.queue[m.head + k] = ⟨v, x⟩ := by rw [← hentry]; simp [pending]
    rw [List.getElem?_map, List.getElem?_eq_getElem hlength, hdrop, Option.map_some]
  refine ⟨m.head + k, Nat.le_add_right _ _, by rw [← hvalue, List.getElem?_map], fun j hj => ?_⟩
  rw [← List.getElem?_map, ← hvalue] at hj
  have hjlength : j < (m.queue.map Entry.value).length := by
    by_contra hover
    rw [hvalue, List.getElem?_eq_none (Nat.le_of_not_lt hover)] at hj
    cases hj
  exact (List.getElem?_inj hjlength h.distinct).mp hj

/-- Whatever the clock says, as long as the random source never repeats a value: every outstanding
nonce has exactly one entry in the queue, at or after the head, the head is not past the end of the
queue, and the queue has at most twice as many entries as the manager has capacity. -/
theorem queue_is_bounded (encode : Bytes → String) (opts : Options) (rand : List (Option Bytes))
    (calls : List Call) (hunrepeated : (coming encode rand).Nodup) :
    let m := (new opts rand).after encode calls
    (∀ v x, m.live.lookup v = some x → ∃ i, m.head ≤ i ∧ m.queue[i]?.map Entry.value = some v ∧
      ∀ j, m.queue[j]?.map Entry.value = some v → j = i) ∧
    m.head ≤ m.queue.length ∧ m.queue.length ≤ 2 * m.capacity ∧
    (1 ≤ opts.capacity → (m.capacity : Int) = opts.capacity) := by
  intro m
  have hnew : (new opts rand).Orderly encode := new_orderly hunrepeated
  have hm : m.Orderly encode := hnew.after calls
  refine ⟨fun v x hlive => hm.sound.entry hlive, hm.sound.head_le, hm.bounded, fun hopts => ?_⟩
  rw [show m.capacity = (new opts rand).capacity from (hnew.after_settings calls).2]
  exact new_capacity hopts

/-- A manager for one nonce, with a read of the source that fails and a clock that goes back. -/
theorem single_nonce_queue_is_bounded :
    let m := (new ⟨0, 1⟩ [some [1], none, some [2, 2]]).after (fun bytes => toString bytes.length)
      [.issue none 5, .issue none 9, .consume none 3 "1", .issue none 4]
    m.len = 1 ∧ m.queue.length ≤ 2 * m.capacity :=
  ⟨by decide +kernel, (queue_is_bounded _ ⟨0, 1⟩ [some [1], none, some [2, 2]] _ (by decide)).2.2.1⟩

end Manager

end AcmeServer.Nonce
