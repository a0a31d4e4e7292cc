import AcmeServer.Fallible.Basic
import AcmeServer.Server.Config
import Mathlib.Algebra.Group.Int.Defs

/-!
# The settings of the background worker

`withDefaults` of `server.go` fills in what the host left unset. Its durations are 64-bit numbers of
nanoseconds, on which Go's arithmetic wraps around, so doubling a timeout of 2^62 ns or more gives a
negative number. `with_defaults_sound_iff` says that this is the only way to a configuration whose
lease is shorter than twice its task timeout.
-/

namespace AcmeServer.Config

/-- Configures the worker. Zero values select the defaults. -/
structure WorkerConfig where
  concurrency : Int64 := 0
  pollInterval : Int64 := 0
  lease : Int64 := 0
  taskTimeout : Int64 := 0
  maxAttempts : Int64 := 0
  retryDelay : Int64 := 0
  staleAfter : Int64 := 0
  external : Bool := false
deriving DecidableEq

/-- `time.Second`. -/
def second : Int64 := 1000000000

/-- `time.Minute`. -/
def minute : Int64 := 60 * second

/-- A value, or its default if it is unset. -/
def orDefault (value default : Int64) : Int64 := if value = 0 then default else value

/-- The lease and the task timeout. A host call that uses its whole timeout must still leave time
within the lease to record its outcome, so each default follows the other when only one is set. -/
def leaseAndTimeout (lease taskTimeout : Int64) : Int64 × Int64 :=
  if lease = 0 ∧ taskTimeout = 0 then (2 * minute, 30 * second)
  else if lease = 0 then (max (2 * minute) (2 * taskTimeout), taskTimeout)
  else if taskTimeout = 0 then (lease, min (30 * second) (lease / 2))
  else (lease, taskTimeout)

namespace WorkerConfig

/-- The fields that must not be negative. -/
def values (c : WorkerConfig) : List Int64 :=
  [c.concurrency, c.pollInterval, c.lease, c.taskTimeout, c.maxAttempts, c.retryDelay, c.staleAfter]

/-- The worker configuration with defaults applied. -/
def withDefaults (c : WorkerConfig) : Except String WorkerConfig :=
  if c.values.any (· < 0) then .error "Config.Workers values must not be negative"
  else
    let times := leaseAndTimeout c.lease c.taskTimeout
    if times.2 ≤ 0 ∨ times.1 < 2 * times.2 then
      .error "Config.Workers.Lease must be at least twice TaskTimeout"
    else .ok { c with
      concurrency := orDefault c.concurrency 4
      pollInterval := orDefault c.pollInterval second
      lease := times.1
      taskTimeout := times.2
      maxAttempts := orDefault c.maxAttempts 5
      retryDelay := orDefault c.retryDelay (5 * second)
      staleAfter := orDefault c.staleAfter minute }

/-- The settings that the worker reads. -/
def settings (c : WorkerConfig) : AcmeServer.WorkerConfig where
  pollInterval := c.pollInterval.toInt
  lease := c.lease.toInt
  taskTimeout := c.taskTimeout.toInt
  maxAttempts := c.maxAttempts.toInt.toNat
  retryDelay := c.retryDelay.toInt

end WorkerConfig

/-! ## Arithmetic -/

theorem max_to_int (a b : Int64) : (max a b).toInt = max a.toInt b.toInt := by
  show (if a ≤ b then b else a).toInt = _
  rw [Int.max_def]
  simp only [Int64.le_iff_toInt_le]
  split <;> rfl

theorem min_to_int (a b : Int64) : (min a b).toInt = min a.toInt b.toInt := by
  show (if a ≤ b then a else b).toInt = _
  rw [Int.min_def]
  simp only [Int64.le_iff_toInt_le]
  split <;> rfl

/-- Twice a value below 2^62 is exact. -/
theorem double_exact {x : Int64} (hnonneg : 0 ≤ x.toInt) (h : x.toInt < 2 ^ 62) :
    (2 * x).toInt = 2 * x.toInt := by
  rw [Int64.toInt_mul, show (2 : Int64).toInt = 2 from rfl]
  exact Int.bmod_eq_of_le (by omega) (by omega)

/-- Twice a value of 2^62 or more is negative. -/
theorem double_negative {x : Int64} (h : 2 ^ 62 ≤ x.toInt) : (2 * x).toInt < 0 := by
  have hlt := x.toInt_lt
  rw [Int64.toInt_mul, show (2 : Int64).toInt = 2 from rfl, Int.bmod_def]
  split <;> omega

theorem ne_zero_of_pos {x : Int64} (h : 0 < x.toInt) : x ≠ 0 := by
  rintro rfl
  exact absurd h (by decide)

/-! ## Defaults -/

theorem or_default_pos {value default : Int64} (hvalue : 0 ≤ value.toInt)
    (hdefault : 0 < default.toInt) : 0 < (orDefault value default).toInt := by
  unfold orDefault
  split
  · exact hdefault
  · next hne =>
      have : value.toInt ≠ 0 := fun h => hne (Int64.toInt_inj.1 h)
      omega

theorem or_default_of_pos {value : Int64} (h : 0 < value.toInt) (default : Int64) :
    orDefault value default = value :=
  if_neg (ne_zero_of_pos h)

theorem lease_and_timeout_of_pos {lease taskTimeout : Int64} (hlease : 0 < lease.toInt)
    (htimeout : 0 < taskTimeout.toInt) :
    leaseAndTimeout lease taskTimeout = (lease, taskTimeout) := by
  simp [leaseAndTimeout, ne_zero_of_pos hlease, ne_zero_of_pos htimeout]

/-- A timeout that is set stays. -/
theorem timeout_of_ne {lease taskTimeout : Int64} (h : taskTimeout ≠ 0) :
    (leaseAndTimeout lease taskTimeout).2 = taskTimeout := by
  unfold leaseAndTimeout
  rw [if_neg (fun hboth => h hboth.2), if_neg h]
  split <;> rfl

/-- The default timeout is short. -/
theorem timeout_of_zero (lease : Int64) : (leaseAndTimeout lease 0).2.toInt < 2 ^ 62 := by
  unfold leaseAndTimeout
  split
  · decide
  · next hlease =>
      rw [if_neg (fun h => hlease ⟨h, rfl⟩), if_pos rfl, min_to_int]
      have hdefault : (30 * second).toInt < 2 ^ 62 := by decide
      omega

theorem lease_nonneg {lease : Int64} (h : 0 ≤ lease.toInt) (taskTimeout : Int64) :
    0 ≤ (leaseAndTimeout lease taskTimeout).1.toInt := by
  unfold leaseAndTimeout
  split
  · decide
  · split
    · have hdefault : 0 ≤ (2 * minute).toInt := by decide
      rw [max_to_int]
      omega
    · split <;> exact h

namespace WorkerConfig

theorem values_nonneg {c : WorkerConfig} :
    ¬(c.values.any (· < 0) = true) ↔ ∀ x ∈ c.values, 0 ≤ x.toInt := by
  simp only [List.any_eq_true, decide_eq_true_eq, not_exists, not_and, Int64.not_lt,
    Int64.le_iff_toInt_le]
  rfl

/-- What acceptance says about a configuration and its defaults. -/
structure Accepted (c c' : WorkerConfig) : Prop where
  nonneg : ∀ x ∈ c.values, 0 ≤ x.toInt
  timeout : 0 < c'.taskTimeout.toInt
  lease : (2 * c'.taskTimeout).toInt ≤ c'.lease.toInt
  completed : c' = { c with
    concurrency := orDefault c.concurrency 4
    pollInterval := orDefault c.pollInterval second
    lease := (leaseAndTimeout c.lease c.taskTimeout).1
    taskTimeout := (leaseAndTimeout c.lease c.taskTimeout).2
    maxAttempts := orDefault c.maxAttempts 5
    retryDelay := orDefault c.retryDelay (5 * second)
    staleAfter := orDefault c.staleAfter minute }

theorem with_defaults_ok {c c' : WorkerConfig} : c.withDefaults = .ok c' ↔ Accepted c c' := by
  unfold withDefaults
  rw [Fallible.guard_eq_ok, Fallible.guard_eq_ok, values_nonneg, Except.ok.injEq, not_or,
    Int64.not_le, Int64.not_lt, Int64.lt_iff_toInt_lt, Int64.le_iff_toInt_le]
  constructor
  · rintro ⟨hnonneg, ⟨htimeout, hlease⟩, rfl⟩
    exact ⟨hnonneg, htimeout, hlease, rfl⟩
  · rintro ⟨hnonneg, htimeout, hlease, rfl⟩
    exact ⟨hnonneg, ⟨htimeout, hlease⟩, rfl⟩

/-- The timeout of an accepted configuration is below 2^62 exactly if the one it was made of is. -/
theorem Accepted.timeout_lt_iff {c c' : WorkerConfig} (h : Accepted c c') :
    c'.taskTimeout.toInt < 2 ^ 62 ↔ c.taskTimeout.toInt < 2 ^ 62 := by
  rw [h.completed]
  by_cases hzero : c.taskTimeout = 0
  · rw [hzero]
    exact ⟨fun _ => by decide, fun _ => timeout_of_zero c.lease⟩
  · rw [timeout_of_ne hzero]

/-- The delay before a retry is positive, whatever the other values. -/
theorem Accepted.retry_delay_pos {c c' : WorkerConfig} (h : Accepted c c') :
    0 < c'.retryDelay.toInt := by
  rw [h.completed]
  exact or_default_pos (h.nonneg c.retryDelay (by simp [values])) (by decide)

/-- With an exact double of the timeout, every field is positive. -/
theorem Accepted.values_pos {c c' : WorkerConfig} (h : Accepted c c')
    (hlease : 2 * c'.taskTimeout.toInt ≤ c'.lease.toInt) : ∀ x ∈ c'.values, 0 < x.toInt := by
  have htimeout := h.timeout
  have hpos : 0 < c'.lease.toInt := by omega
  have hnonneg := h.nonneg
  simp only [values, List.forall_mem_cons] at hnonneg ⊢
  obtain ⟨hconcurrency, hpoll, -, -, hattempts, -, hstale, -⟩ := hnonneg
  refine ⟨?_, ?_, hpos, htimeout, ?_, h.retry_delay_pos, ?_, List.forall_mem_nil _⟩
  all_goals rw [h.completed]
  · exact or_default_pos hconcurrency (by decide)
  · exact or_default_pos hpoll (by decide)
  · exact or_default_pos hattempts (by decide)
  · exact or_default_pos hstale (by decide)

/-- Positive values stay as they are. -/
theorem with_defaults_of_pos {c : WorkerConfig} (hpos : ∀ x ∈ c.values, 0 < x.toInt)
    (hlease : (2 * c.taskTimeout).toInt ≤ c.lease.toInt) : c.withDefaults = .ok c := by
  have hall := hpos
  simp only [values, List.forall_mem_cons] at hall
  obtain ⟨hconcurrency, hpoll, hleasePos, htimeout, hattempts, hdelay, hstale, -⟩ := hall
  refine with_defaults_ok.2 ⟨fun x hx => Int.le_of_lt (hpos x hx), htimeout, hlease, ?_⟩
  rw [lease_and_timeout_of_pos hleasePos htimeout, or_default_of_pos hconcurrency,
    or_default_of_pos hpoll, or_default_of_pos hattempts, or_default_of_pos hdelay,
    or_default_of_pos hstale]

/-- Of an accepted configuration, all values are positive, the lease is at least twice the task
timeout, and applying the defaults again changes nothing, exactly if the task timeout that the host
set is below 2^62 ns. -/
theorem with_defaults_sound_iff (c c' : WorkerConfig) (h : c.withDefaults = .ok c') :
    ((∀ x ∈ c'.values, 0 < x.toInt) ∧ 2 * c'.taskTimeout.toInt ≤ c'.lease.toInt ∧
      c'.withDefaults = .ok c') ↔ c.taskTimeout.toInt < 2 ^ 62 := by
  have haccepted := with_defaults_ok.1 h
  rw [← haccepted.timeout_lt_iff]
  constructor
  · rintro ⟨-, hlease, -⟩
    have := c'.lease.toInt_lt
    omega
  · intro hlt
    have hexact := double_exact (Int.le_of_lt haccepted.timeout) hlt
    have hlease := haccepted.lease
    have hpos := haccepted.values_pos (hexact ▸ hlease)
    exact ⟨hpos, hexact ▸ hlease, with_defaults_of_pos hpos hlease⟩

/-- What the worker then reads: a lease that begins after the claim and covers two timeouts. -/
theorem settings_lease {c c' : WorkerConfig} (h : c.withDefaults = .ok c')
    (htimeout : c.taskTimeout.toInt < 2 ^ 62) :
    0 < c'.settings.lease ∧ 2 * c'.settings.taskTimeout ≤ c'.settings.lease := by
  have haccepted := with_defaults_ok.1 h
  have hpos := haccepted.timeout
  have hlease := haccepted.lease
  rw [double_exact (Int.le_of_lt hpos) (haccepted.timeout_lt_iff.2 htimeout)] at hlease
  exact ⟨Int.lt_of_lt_of_le (by omega) hlease, hlease⟩

/-- The settings of a host that sets nothing. -/
theorem with_defaults_of_unset : ∃ c', withDefaults {} = .ok c' ∧
    (∀ x ∈ c'.values, 0 < x.toInt) ∧ 2 * c'.taskTimeout.toInt ≤ c'.lease.toInt ∧
      c'.withDefaults = .ok c' := by
  have haccepted : withDefaults {} = .ok {
    concurrency := 4
    pollInterval := second
    lease := 2 * minute
    taskTimeout := 30 * second
    maxAttempts := 5
    retryDelay := 5 * second
    staleAfter := minute } := by decide
  exact ⟨_, haccepted, (with_defaults_sound_iff {} _ haccepted).2 (by decide)⟩

/-- The check never refuses a timeout of 2^62 ns or more, whatever the lease. -/
theorem with_defaults_accepts_long_timeout {c : WorkerConfig}
    (hnonneg : ∀ x ∈ c.values, 0 ≤ x.toInt) (hlong : 2 ^ 62 ≤ c.taskTimeout.toInt) :
    ∃ c', c.withDefaults = .ok c' ∧ c'.taskTimeout = c.taskTimeout := by
  have htimeout : (leaseAndTimeout c.lease c.taskTimeout).2 = c.taskTimeout :=
    timeout_of_ne (ne_zero_of_pos (by omega))
  have hlease : 0 ≤ (leaseAndTimeout c.lease c.taskTimeout).1.toInt :=
    lease_nonneg (hnonneg c.lease (by simp [values])) c.taskTimeout
  refine ⟨_, with_defaults_ok.2 ⟨hnonneg, ?_, ?_, rfl⟩, htimeout⟩
  · show 0 < (leaseAndTimeout c.lease c.taskTimeout).2.toInt
    rw [htimeout]
    omega
  · show (2 * (leaseAndTimeout c.lease c.taskTimeout).2).toInt ≤ _
    rw [htimeout]
    have hdouble := double_negative hlong
    exact Int.le_trans (Int.le_of_lt hdouble) hlease

/-- A host that disables the timeout with the largest duration is given a lease of two minutes. -/
theorem unlimited_timeout_outlives_lease :
    withDefaults { taskTimeout := Int64.maxValue } = .ok {
        concurrency := 4
        pollInterval := second
        lease := 2 * minute
        taskTimeout := Int64.maxValue
        maxAttempts := 5
        retryDelay := 5 * second
        staleAfter := minute } ∧
      ¬2 * Int64.maxValue.toInt ≤ (2 * minute).toInt := by
  exact ⟨by decide, by decide⟩

end WorkerConfig

end AcmeServer.Config
