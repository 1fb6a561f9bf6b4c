import Mathlib.Algebra.Order.Ring.Rat
import Imagin4.Ports.Python

/-!
# Retry classification and backoff

`app/domain/jobs/retry.py`: which error codes may be retried, and how long a
job waits before the next attempt.
-/

namespace Imagin4.Ports

/-- `RETRYABLE_ERROR_CODES`. -/
def retryableErrorCodes : List String :=
  ["comfy_timeout", "comfy_disconnect", "comfy_transient",
    "worker_lease_expired", "worker_unreachable"]

/-- `NON_RETRYABLE_ERROR_CODES`. -/
def nonRetryableErrorCodes : List String :=
  ["comfy_rejected", "workflow_invalid", "quota_exceeded",
    "malformed_response", "comfy_permanent"]

/-- `is_retryable`: may attempt `attemptNo`, which just failed, be followed by
another one? -/
def isRetryable (errorCode : String) (attemptNo maxAttempts : Nat) : Bool :=
  if maxAttempts ≤ attemptNo then false
  else if errorCode ∈ nonRetryableErrorCodes then false
  else errorCode ∈ retryableErrorCodes

/-- A retryable attempt is not the last one of the budget. -/
theorem lt_of_isRetryable {errorCode : String} {attemptNo maxAttempts : Nat}
    (h : isRetryable errorCode attemptNo maxAttempts = true) :
    attemptNo < maxAttempts := by
  unfold isRetryable at h
  split at h
  · cases h
  · omega

/-- For a retryable code the budget decides. -/
theorem isRetryable_iff {errorCode : String} (hcode : errorCode ∈ retryableErrorCodes)
    (attemptNo maxAttempts : Nat) :
    isRetryable errorCode attemptNo maxAttempts = true ↔ attemptNo < maxAttempts := by
  have hdisjoint : ∀ code ∈ retryableErrorCodes, code ∉ nonRetryableErrorCodes := by
    decide
  unfold isRetryable
  rw [if_neg (hdisjoint errorCode hcode)]
  by_cases hspent : maxAttempts ≤ attemptNo
  · rw [if_pos hspent]
    simp only [Bool.false_eq_true, false_iff]
    omega
  · rw [if_neg hspent]
    simp only [hcode, decide_true, true_iff]
    omega

/-- `BackoffConfig` with its defaults. -/
structure BackoffConfig where
  baseSeconds : Rat := 2
  factor : Rat := 2
  maxSeconds : Rat := 120
  jitterRatio : Rat := 1 / 5

/-- `x ** n` on floats: a result past the largest double raises. -/
def floatPow (x : Rat) (n : Nat) : Except PyError Rat :=
  if 2 ^ 1024 ≤ x ^ n then .error "OverflowError" else .ok (x ^ n)

/-- `rng.uniform(a, b)`, where `draw` is what `rng.random()` returned. -/
def uniform (a b draw : Rat) : Rat := a + (b - a) * draw

/-- `compute_backoff_seconds`; `attemptNo` is the attempt that just failed,
counted from one. -/
def computeBackoffSeconds (attemptNo : Nat) (cfg : BackoffConfig)
    (draw : Rat) : Except PyError Rat :=
  match floatPow cfg.factor (attemptNo - 1) with
  | .error e => .error e
  | .ok power =>
      let raw := min (cfg.baseSeconds * power) cfg.maxSeconds
      let jitterSpan := raw * cfg.jitterRatio
      .ok (max 0 (raw + uniform (-jitterSpan) jitterSpan draw))

/-- A power of two is a double below `2 ** 1024`, and raises from there. -/
theorem floatPow_two (n : Nat) :
    (n < 1024 ∧ floatPow 2 n = .ok (2 ^ n)) ∨
      (1024 ≤ n ∧ floatPow 2 n = .error "OverflowError") := by
  have hpow : (2 : Rat) ^ 1024 ≤ 2 ^ n ↔ 1024 ≤ n :=
    pow_le_pow_iff_right₀ one_lt_two
  unfold floatPow
  by_cases hn : 1024 ≤ n
  · exact .inr ⟨hn, if_pos (hpow.mpr hn)⟩
  · exact .inl ⟨by omega, if_neg (fun h => hn (hpow.mp h))⟩

/-- The default backoff has a value up to the attempt number 1024.  `max_seconds` does
not help after that: the power raises before it is compared. -/
theorem computeBackoffSeconds_eq (n : Nat) (draw : Rat) :
    (n < 1024 ∧ ∃ delay, computeBackoffSeconds (n + 1) {} draw = .ok delay) ∨
      (1024 ≤ n ∧ computeBackoffSeconds (n + 1) {} draw = .error "OverflowError") := by
  unfold computeBackoffSeconds
  rw [Nat.add_sub_cancel]
  rcases floatPow_two n with ⟨hn, hpow⟩ | ⟨hn, hpow⟩
  · rw [hpow]
    exact .inl ⟨hn, _, rfl⟩
  · rw [hpow]
    exact .inr ⟨hn, rfl⟩

/-- The delay of `mark_retry_wait`: the caller's, or the default backoff of
the attempt number the job has after the bump. -/
def retryDelay (delaySeconds : Option Rat) (nextAttempt : Nat) (draw : Rat) :
    Except PyError Rat :=
  match delaySeconds with
  | some delay => .ok delay
  | none => computeBackoffSeconds nextAttempt {} draw

end Imagin4.Ports
