import MaestroCore.BlockingOutput

/-!
# The Clock Check of a Blocking Call

At the top of its loop `http_blocking_work` compares `(int)now - start` with the timeout. The
cast takes the reading of a 64-bit clock modulo `2 ^ 32`, and the difference is one of
`uint64_t`. After `2 ^ 31` milliseconds of uptime, about 25 days, the reading that is compared
is not the reading of the clock.

## Main results

* `expired_iff`: the check in terms of the reading that is compared.
* `timeout_reported_iff`: the check reports the timeout exactly when the time has run out, iff
  the clock is below `2 ^ 31`, or the time has run out and the reading that is compared is not
  one within it.
-/

open CLang Run

namespace MaestroCore

/-- The iteration returns `ERR_TIMEOUT`. -/
def ReportsTimeout (b : BlockingCall) : Prop :=
  ∃ d, httpBlockingStep b = .ok d ∧ d.result = some .timeout

/-- The milliseconds that have passed since the start of the call. -/
def BlockingCall.elapsed (b : BlockingCall) : ℤ := (b.exchange.clock 0).toNat - b.start.toNat

section Timeout

variable {b : BlockingCall}

/-- A call in its loop reports a timeout when its time has run out at the next reading. -/
theorem reportsTimeout_iff (hres : b.result = none) : ReportsTimeout b ↔ b.expired 0 = true := by
  constructor
  · rintro ⟨d, hstep, hd⟩
    cases blockingStep_cases hstep with
    | returned hne => exact absurd hres hne
    | timeout _ htime => exact htime
    | work _ _ _ _ => simp [hres] at hd
    | success _ _ _ => cases hd
    | io _ _ _ _ => cases hd
  · intro htime
    exact ⟨_, blockingStep_timeout hres htime, rfl⟩

/-- The reading that is compared, and its distance from the reading of the clock. -/
theorem toInt_cases (n : ℕ) :
    toInt n = n ∧ n < 2 ^ 31 ∨ 2 ^ 31 ≤ n ∧ -2 ^ 31 ≤ toInt n ∧ toInt n + 2 ^ 32 ≤ n := by
  rw [toInt, toSigned]
  split <;> omega

/-- **The check**, on a call that started at `start` with the reading `now`. The difference is
taken modulo `2 ^ 64`, and so it is large where the reading that is compared lies before the
start. -/
theorem expired_iff {start now : ℕ} (hstart : b.start.toNat = start)
    (hnow : (b.exchange.clock 0).toNat = now) (hpos : 0 < b.timeoutMs)
    (hint : b.timeoutMs ≤ intMax) (hle : start ≤ now) (hlt : now < 2 ^ 63) :
    b.expired 0 = true ↔
      toInt now < start ∨ start + b.timeoutMs < toInt now := by
  have hsize : (toSize b.timeoutMs : ℤ) = b.timeoutMs := by
    rw [toSize]
    rw [intMax] at hint
    omega
  have hmin := toInt_cases now
  have hmax := toInt_lt now
  rw [intMax] at hint
  rw [BlockingCall.expired, timedOut, decide_eq_true_eq, hstart, hnow, ← Nat.cast_lt (α := ℤ),
    hsize]
  generalize toInt now = reading at *
  rcases Int.lt_or_le reading start with hbefore | hafter
  · have hlarge : (toSize (reading - start) : ℤ) = reading - start + 2 ^ 64 := by
      rw [toSize]
      omega
    rw [hlarge]
    omega
  · have hsmall : (toSize (reading - start) : ℤ) = reading - start := by
      rw [toSize]
      omega
    rw [hsmall]
    omega

/-- **When the timeout is reported.** For a clock that does not run backwards and stays below
`2 ^ 63` milliseconds, and every timeout, the iteration returns `ERR_TIMEOUT` exactly when more
than the timeout has passed, iff the clock reads less than `2 ^ 31` milliseconds, or more than
the timeout has passed and the reading as an `int` does not lie between the start and the end
of the timeout. -/
theorem timeout_reported_iff (b : BlockingCall) (hres : b.result = none)
    (hpos : 0 < b.timeoutMs) (hint : b.timeoutMs ≤ intMax)
    (hle : b.start.toNat ≤ (b.exchange.clock 0).toNat)
    (hlt : (b.exchange.clock 0).toNat < 2 ^ 63) :
    (ReportsTimeout b ↔ b.timeoutMs < b.elapsed) ↔
      (b.exchange.clock 0).toNat < 2 ^ 31 ∨
        b.timeoutMs < b.elapsed ∧
          ¬ (b.start.toNat ≤ toInt (b.exchange.clock 0).toNat ∧
            toInt (b.exchange.clock 0).toNat ≤ b.start.toNat + b.timeoutMs) := by
  rw [reportsTimeout_iff hres, expired_iff rfl rfl hpos hint hle hlt, BlockingCall.elapsed]
  have hcases := toInt_cases (b.exchange.clock 0).toNat
  rw [intMax] at hint
  generalize (b.exchange.clock 0).toNat = now at *
  generalize b.start.toNat = start at *
  omega

end Timeout

/-- A blocking call that started at `start`, has a timeout of 100 ms, and now reads `now`. -/
def readingCall (start now : UInt64) : BlockingCall where
  exchange := blockingClient [] .get none (reachableServer [] [] fun _ => now)
  timeoutMs := 100
  start := start

theorem timeout_reported_early_uptime :
    ReportsTimeout (readingCall 1000 1101) ∧ ¬ ReportsTimeout (readingCall 1000 1100) := by
  have hlate := (timeout_reported_iff (readingCall 1000 1101) rfl (by decide) (by decide)
    (by decide) (by decide)).mpr (Or.inl (by decide))
  have hnow := (timeout_reported_iff (readingCall 1000 1100) rfl (by decide) (by decide)
    (by decide) (by decide)).mpr (Or.inl (by decide))
  exact ⟨hlate.mpr (by decide), fun h => absurd (hnow.mp h) (by decide)⟩

/-- After `2 ^ 31` milliseconds of uptime the timeout is reported before any time has passed,
and after `2 ^ 32` it is not reported long after it has. -/
theorem timeout_misreported_late_uptime :
    ReportsTimeout (readingCall 2147483648 2147483648) ∧
    (readingCall 2147483648 2147483648).elapsed = 0 ∧
    ¬ ReportsTimeout (readingCall 50 4294967396) ∧
    (readingCall 50 4294967396).elapsed = 4294967346 := by
  rw [reportsTimeout_iff rfl, reportsTimeout_iff rfl]
  decide

end MaestroCore
