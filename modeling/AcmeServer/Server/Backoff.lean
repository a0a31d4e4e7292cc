import AcmeServer.Server.Routes
import AcmeServer.Server.Workers
import Mathlib.Algebra.Order.Ring.Int
import Mathlib.Tactic.Positivity

/-!
# The backoff between attempts

`retryDelay` of `worker.go` doubles the configured delay for every attempt after the first until it
has reached 32 times the delay. Both the doubling and the bound are 64-bit operations that wrap
around. Below 2^58 ns nothing wraps, and the delay after n attempts is the configured one times two
to the power of n - 1, or of 5 if that is less. Above, the bound wraps: `retry_delay_exact_iff` says
after how many attempts the delay is still that.
-/

namespace AcmeServer

/-- The value is one of a 64-bit signed integer. -/
theorem int64_of_fits {x : Int} (hlow : -2 ^ 63 ≤ x) (hhigh : x < 2 ^ 63) : int64 x = x :=
  Int.bmod_eq_of_le (by omega) (by omega)

theorem int64_lt (x : Int) : int64 x < 2 ^ 63 := by
  have h := Int.bmod_lt (x := x) (m := 2 ^ 64) (by decide)
  unfold int64
  omega

/-- The bound of a delay. Its last 64 bits are those of 32 times the part of the delay below 2^59,
and the first of them is the sign. -/
theorem int64_bound (d : Int) :
    int64 (32 * d) =
      if d % 2 ^ 59 < 2 ^ 58 then 32 * (d % 2 ^ 59) else 32 * (d % 2 ^ 59) - 2 ^ 64 := by
  unfold int64
  rw [Int.bmod_def]
  split <;> split <;> omega

namespace Server

variable {bound d : Int} {rounds : Nat}

theorem backoff_lt (h : d < 2 ^ 63) : backoff bound rounds d < 2 ^ 63 := by
  induction rounds generalizing d with
  | zero => exact h
  | succ rounds ih =>
      unfold backoff
      split
      · exact ih (int64_lt _)
      · exact h

/-- The loop doubles the delay until it reaches the bound or the rounds are over, provided that the
doublings it makes do not wrap around. -/
theorem backoff_spec (bound : Int) (rounds : Nat) (hd : 0 < d)
    (hfits : ∀ i < rounds, d * 2 ^ i < bound → d * 2 ^ (i + 1) < 2 ^ 63) :
    ∃ j ≤ rounds, backoff bound rounds d = d * 2 ^ j ∧ (∀ i < j, d * 2 ^ i < bound) ∧
      (j < rounds → bound ≤ d * 2 ^ j) := by
  induction rounds generalizing d with
  | zero => exact ⟨0, le_refl 0, by simp [backoff], nofun, nofun⟩
  | succ rounds ih =>
      unfold backoff
      split
      · next hlt =>
          have hdouble : int64 (d * 2) = d * 2 := by
            have hnext := hfits 0 (Nat.succ_pos _) (by simpa using hlt)
            exact int64_of_fits (by omega) (by simpa using hnext)
          have hshift (i : Nat) : d * 2 * 2 ^ i = d * 2 ^ (i + 1) := by
            rw [pow_succ', mul_assoc]
          rw [hdouble]
          obtain ⟨j, hj, heq, hbelow, hstop⟩ := ih (d := d * 2) (by omega) fun i hi hi' => by
            rw [hshift] at hi' ⊢
            exact hfits (i + 1) (by omega) hi'
          refine ⟨j + 1, by omega, by rw [heq, hshift], fun i hi => ?_, fun hj' => ?_⟩
          · cases i with
            | zero => simpa using hlt
            | succ i => exact hshift i ▸ hbelow i (by omega)
          · exact hshift j ▸ hstop (by omega)
      · next hge =>
          exact ⟨0, Nat.zero_le _, by simp, nofun, fun _ => by simpa using not_lt.1 hge⟩

theorem scaled_lt {i j : Nat} (hd : 0 < d) : d * 2 ^ i < d * 2 ^ j ↔ i < j :=
  (mul_lt_mul_iff_right₀ hd).trans (pow_lt_pow_iff_right₀ one_lt_two)

theorem scaled_le {i j : Nat} (hd : 0 < d) : d * 2 ^ i ≤ d * 2 ^ j ↔ i ≤ j :=
  (mul_le_mul_iff_right₀ hd).trans (pow_le_pow_iff_right₀ one_lt_two)

/-- Without a wrap of the bound, the delay is doubled five times at most. -/
theorem backoff_of_short (hd : 0 < d) (hshort : d < 2 ^ 58) (rounds : Nat) :
    backoff (int64 (32 * d)) rounds d = d * 2 ^ min rounds 5 := by
  have hbound : int64 (32 * d) = d * 2 ^ 5 := by
    rw [int64_of_fits (by omega) (by omega)]
    omega
  rw [hbound]
  obtain ⟨j, hj, heq, hbelow, hstop⟩ :=
    backoff_spec (d * 2 ^ 5) rounds hd fun i _ hi => by
      have hle : d * 2 ^ (i + 1) ≤ d * 2 ^ 5 := (scaled_le hd).2 ((scaled_lt hd).1 hi)
      omega
  have hle : j ≤ 5 := by
    by_contra hmore
    exact absurd ((scaled_lt hd).1 (hbelow 5 (by omega))) (lt_irrefl 5)
  have hge : j < rounds → 5 ≤ j := fun hlt => (scaled_le hd).1 (hstop hlt)
  rw [heq, show j = min rounds 5 by omega]

/-- With a wrap of the bound, the delay is right as long as it fits and the wrapped bound allows
the last doubling. -/
theorem backoff_of_long (hlong : 2 ^ 58 ≤ d) (hmax : d < 2 ^ 63) :
    backoff bound (rounds + 1) d = d * 2 ^ min (rounds + 1) 5 ↔
      rounds + 1 ≤ 4 ∧ d * 2 ^ rounds < bound ∧ d * 2 ^ (rounds + 1) < 2 ^ 63 := by
  have hd : 0 < d := by omega
  have hspec (hfits : d * 2 ^ (rounds + 1) < 2 ^ 63) :=
    backoff_spec bound (rounds + 1) hd fun i hi _ =>
      lt_of_le_of_lt ((scaled_le hd).2 hi) hfits
  constructor
  · intro heq
    have hlt : d * 2 ^ min (rounds + 1) 5 < 2 ^ 63 := heq ▸ backoff_lt hmax
    have hfour : rounds + 1 ≤ 4 := by
      by_contra hmore
      rw [show min (rounds + 1) 5 = 5 by omega] at hlt
      omega
    rw [show min (rounds + 1) 5 = rounds + 1 by omega] at heq hlt
    obtain ⟨j, hj, hj', hbelow, -⟩ := hspec hlt
    have hall : rounds + 1 ≤ j := (scaled_le hd).1 (heq ▸ hj'.le)
    exact ⟨hfour, hbelow rounds (by omega), hlt⟩
  · rintro ⟨hfour, hlast, hfits⟩
    obtain ⟨j, hj, heq, -, hstop⟩ := hspec hfits
    -- The loop cannot have stopped before its last round.
    have hall : ¬j < rounds + 1 := by
      intro hlt
      have hle : d * 2 ^ j ≤ d * 2 ^ rounds := (scaled_le hd).2 (by omega)
      exact absurd (hstop hlt) (by omega)
    rw [heq, show j = min (rounds + 1) 5 by omega]

/-- When the delay after some attempts is the configured one times a power of two: always below
2^58 ns, always after the first attempt, and otherwise while the delay fits 64 bits and the bound
that is left of 32 times the configured delay is above the delay before. -/
def Exact (d : Duration) (attempts : Nat) : Prop :=
  d < 2 ^ 58 ∨ attempts ≤ 1 ∨
    (attempts ≤ 5 ∧ d % 2 ^ 59 < 2 ^ 58 ∧ d * 2 ^ (attempts - 2) < 32 * (d % 2 ^ 59) ∧
      d * 2 ^ (attempts - 1) < 2 ^ 63)

theorem backoff_exact_iff (hd : 0 < d) (hmax : d < 2 ^ 63) (attempts : Nat) :
    backoff (int64 (32 * d)) (attempts - 1) d = d * 2 ^ min (attempts - 1) 5 ↔
      Exact d attempts := by
  unfold Exact
  by_cases hshort : d < 2 ^ 58
  · exact iff_of_true (backoff_of_short hd hshort _) (.inl hshort)
  · match attempts with
    | 0 | 1 => exact iff_of_true (by simp [backoff]) (.inr (.inl (by omega)))
    | rounds + 2 =>
        rw [Nat.add_sub_cancel, show rounds + 2 - 1 = rounds + 1 by omega,
          backoff_of_long (not_lt.1 hshort) hmax, int64_bound]
        have hpos : 0 < d * 2 ^ rounds := by positivity
        constructor
        · rintro ⟨hfour, hlast, hfits⟩
          split at hlast
          · next hsign => exact .inr (.inr ⟨by omega, hsign, hlast, hfits⟩)
          · omega
        · rintro (hless | hless | ⟨hfive, hsign, hlast, hfits⟩)
          · exact absurd hless hshort
          · omega
          · rw [if_pos hsign]
            exact ⟨by omega, hlast, hfits⟩

/-- With a configuration that was accepted, the delay after every number of attempts is the
configured delay times two to the power of the attempts after the first, five at most, exactly in
the cases of `Exact`. It is so after every number of attempts, and then positive, monotone and
between the configured delay and 32 times that, exactly if the configured delay is below 2^58 ns. -/
theorem retry_delay_exact_iff (c c' : Config.WorkerConfig) (h : c.withDefaults = .ok c')
    (s : Server) (hs : s.workers = c'.settings) :
    let d := c'.retryDelay.toInt
    0 < d ∧
    (∀ task : Task, s.retryDelay task = d * 2 ^ min (task.attempts - 1) 5 ↔
      Exact d task.attempts) ∧
    (((∀ task : Task, s.retryDelay task = d * 2 ^ min (task.attempts - 1) 5) ∧
      (∀ task : Task, 0 < s.retryDelay task) ∧
      (∀ task task' : Task, task.attempts ≤ task'.attempts →
        s.retryDelay task ≤ s.retryDelay task') ∧
      (∀ task : Task, d ≤ s.retryDelay task ∧ s.retryDelay task ≤ 32 * d)) ↔ d < 2 ^ 58) := by
  intro d
  have hd : 0 < d := (Config.WorkerConfig.with_defaults_ok.1 h).retry_delay_pos
  have hmax : d < 2 ^ 63 := c'.retryDelay.toInt_lt
  have hdelay (task : Task) :
      s.retryDelay task = backoff (int64 (32 * d)) (task.attempts - 1) d := by
    rw [retryDelay, hs]
    rfl
  have hexact (task : Task) : s.retryDelay task = d * 2 ^ min (task.attempts - 1) 5 ↔
      Exact d task.attempts := by
    rw [hdelay]
    exact backoff_exact_iff hd hmax task.attempts
  refine ⟨hd, hexact, fun ⟨hall, _⟩ => ?_, fun hshort => ?_⟩
  · -- After six attempts the delay would be 32 times the configured one, which does not fit.
    have hsix := (hexact { Sample.issueTask with attempts := 6 }).1 (hall _)
    rcases hsix with hshort | hfew | ⟨hfew, -⟩
    · exact hshort
    · exact absurd hfew (by decide)
    · exact absurd hfew (by decide)
  · have hall (task : Task) : s.retryDelay task = d * 2 ^ min (task.attempts - 1) 5 :=
      (hexact task).2 (.inl hshort)
    refine ⟨hall, fun task => ?_, fun task task' hle => ?_, fun task => ?_⟩
    · rw [hall]
      positivity
    · rw [hall, hall, scaled_le hd]
      omega
    · have hlow : d * 2 ^ 0 ≤ d * 2 ^ min (task.attempts - 1) 5 := (scaled_le hd).2 (Nat.zero_le _)
      have hhigh : d * 2 ^ min (task.attempts - 1) 5 ≤ d * 2 ^ 5 :=
        (scaled_le hd).2 (min_le_right _ _)
      have hbound : d * 2 ^ 5 = 32 * d := by omega
      rw [hall]
      exact ⟨by omega, hhigh.trans_eq hbound⟩

end Server

/-- The settings of a host that sets only the delay before a retry. -/
def Sample.patient (delay : Int64) : Config.WorkerConfig where
  concurrency := 4
  pollInterval := Config.second
  lease := 2 * Config.minute
  taskTimeout := 30 * Config.second
  maxAttempts := 5
  retryDelay := delay
  staleAfter := Config.minute

/-- A task after some attempts. -/
def Sample.tried (attempts : Nat) : Task := { Sample.issueTask with attempts := attempts }

/-- With the default of five seconds, the third attempt is followed by 20 seconds. -/
theorem default_retry_delay_exact :
    let s : Server := { Sample.server with
      workers := (Sample.patient (5 * Config.second)).settings }
    Config.WorkerConfig.withDefaults {} = .ok (Sample.patient (5 * Config.second)) ∧
      s.retryDelay (Sample.tried 3) = 5000000000 * 2 ^ min (3 - 1) 5 := by
  have haccepted : Config.WorkerConfig.withDefaults {} =
      .ok (Sample.patient (5 * Config.second)) := by decide
  refine ⟨haccepted, ?_⟩
  obtain ⟨-, hexact, -⟩ := Server.retry_delay_exact_iff {} _ haccepted
    { Sample.server with workers := (Sample.patient (5 * Config.second)).settings } rfl
  exact (hexact (Sample.tried 3)).2 (.inl (by decide))

/-- A delay of 2^58 ns is never doubled, because its bound is negative, and one of 2^62 + 3 * 2^56
ns is followed by a negative delay after the second attempt. -/
theorem long_retry_delay_wraps :
    let first : Server := { Sample.server with workers := (Sample.patient (2 ^ 58)).settings }
    let second : Server := { Sample.server with
      workers := (Sample.patient (2 ^ 62 + 3 * 2 ^ 56)).settings }
    Config.WorkerConfig.withDefaults { retryDelay := 2 ^ 58 } = .ok (Sample.patient (2 ^ 58)) ∧
      first.retryDelay (Sample.tried 2) = 2 ^ 58 ∧
      ¬first.retryDelay (Sample.tried 2) = 2 ^ 58 * 2 ^ min (2 - 1) 5 ∧
    Config.WorkerConfig.withDefaults { retryDelay := 2 ^ 62 + 3 * 2 ^ 56 } =
        .ok (Sample.patient (2 ^ 62 + 3 * 2 ^ 56)) ∧
      second.retryDelay (Sample.tried 2) = -2 ^ 63 + 3 * 2 ^ 57 ∧
      ¬0 < second.retryDelay (Sample.tried 2) := by
  decide +kernel

end AcmeServer
