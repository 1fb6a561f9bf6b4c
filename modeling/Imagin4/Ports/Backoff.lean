import Mathlib.Data.Rat.Floor
import Imagin4.Verified.Floats
import Imagin4.Ports.Retry

/-!
# The bounds of the backoff

`compute_backoff_seconds` with the default `BackoffConfig`, for every attempt number.
Its arithmetic is that of doubles: `Imagin4.Ports.Retry` has the formula over the
rationals, and here every operation is rounded as well.  The bounds hold for both.

The cap comes after the power, so that the power of a late attempt overflows before it
can be cut.

## Main results

* `backoff_iff` — the attempts for which the delay is where it should be.
* `not_backoff` — the first attempt after those.
-/

namespace Imagin4.Ports

open Imagin4.Verified

/-! ## In doubles -/

/-- A result as a double. -/
def roundDouble (q : Rat) : Rat := FloatFormat.double.round q

/-- `rng.uniform(a, b)` in doubles. -/
def uniformDouble (a b draw : Rat) : Rat :=
  roundDouble (a + roundDouble (roundDouble (b - a) * draw))

/-- `compute_backoff_seconds` in doubles. -/
def computeBackoffSecondsDouble (attemptNo : Nat) (cfg : BackoffConfig)
    (draw : Rat) : Except PyError Rat :=
  match floatPow cfg.factor (attemptNo - 1) with
  | .error e => .error e
  | .ok power =>
      let raw := min (roundDouble (cfg.baseSeconds * roundDouble power)) cfg.maxSeconds
      let jitterSpan := roundDouble (raw * roundDouble cfg.jitterRatio)
      .ok (max 0 (roundDouble (raw + uniformDouble (-jitterSpan) jitterSpan draw)))

/-! ## What is meant -/

/-- The delay without jitter. -/
def bareDelay (attemptNo : Nat) : Rat := min (2 * 2 ^ (attemptNo - 1)) 120

/-- Whatever is drawn, there is a delay, and it is at most a fifth off. -/
def WithinBounds (compute : Nat → Rat → Except PyError Rat) (attemptNo : Nat) : Prop :=
  ∀ draw, 0 ≤ draw → draw ≤ 1 → ∃ delay, compute attemptNo draw = .ok delay ∧
    4 / 5 * bareDelay attemptNo ≤ delay ∧ delay ≤ 6 / 5 * bareDelay attemptNo ∧
    0 ≤ delay

theorem bareDelay_mono {m n : Nat} (h : m ≤ n) : bareDelay m ≤ bareDelay n := by
  have hPow : (2 : Rat) ^ (m - 1) ≤ 2 ^ (n - 1) :=
    pow_le_pow_right₀ (by norm_num) (by omega)
  unfold bareDelay
  exact min_le_min (by linarith) le_rfl

theorem bareDelay_le (n : Nat) : bareDelay n ≤ 120 := min_le_right _ _

theorem bareDelay_pos (n : Nat) : 0 < bareDelay n :=
  lt_min (by positivity) (by norm_num)

/-- Below the cap the delay is a power of two. -/
theorem bareDelay_cases (n : Nat) :
    (∃ j : Nat, j ≤ 6 ∧ bareDelay n = 2 ^ j) ∨ bareDelay n = 120 := by
  by_cases hn : n - 1 ≤ 5
  · refine .inl ⟨n - 1 + 1, by omega, ?_⟩
    have hPow : (2 : Rat) ^ (n - 1) ≤ 2 ^ 5 := pow_le_pow_right₀ (by norm_num) hn
    have hLe : (2 : Rat) * 2 ^ (n - 1) ≤ 120 := by linarith
    rw [bareDelay, min_eq_left hLe, pow_succ, mul_comm]
  · have hPow : (2 : Rat) ^ 6 ≤ 2 ^ (n - 1) :=
      pow_le_pow_right₀ (by norm_num) (by omega)
    have hLe : (120 : Rat) ≤ 2 * 2 ^ (n - 1) := by linarith
    exact .inr (min_eq_right hLe)

/-! ## Rounding -/

/-- The numbers that are doubles. -/
abbrev IsDouble (q : Rat) : Prop := FloatFormat.double.IsFloat q

theorem roundDouble_of_isDouble {q : Rat} (h : IsDouble q) : roundDouble q = q :=
  FloatFormat.round_of_isFloat h

theorem roundDouble_between {x y q : Rat} (hx : IsDouble x) (hy : IsDouble y)
    (hxq : x ≤ q) (hqy : q ≤ y) : x ≤ roundDouble q ∧ roundDouble q ≤ y :=
  FloatFormat.round_between (by decide) hx hy hxq hqy

/-- The literal `0.2`. -/
theorem roundDouble_fifth : roundDouble (1 / 5) = 3602879701896397 * 2 ^ (-54 : Int) := by
  have h := FloatFormat.round_eq (f := FloatFormat.double) (q := (1 / 5 : Rat)) (e := -3)
    (n := 7205759403792794) (by norm_num) (by norm_num) (by decide)
    (roundEven_of_near (by norm_num [FloatFormat.double]) (by norm_num [FloatFormat.double]))
  rw [roundDouble, h]
  norm_num [FloatFormat.double]

/-- What the bounds need of the jitter of a delay. -/
structure JitterBounds (raw jitterSpan : Rat) : Prop where
  nonneg : 0 ≤ jitterSpan
  span : roundDouble (raw * roundDouble (1 / 5)) = jitterSpan
  isDouble : IsDouble jitterSpan
  isDouble_twice : IsDouble (2 * jitterSpan)
  lower : 4 / 5 * raw ≤ roundDouble (raw - jitterSpan)
  upper : roundDouble (raw + jitterSpan) ≤ 6 / 5 * raw

/-- The exponents of powers of two are not among the small ones. -/
theorem double_minExponent_le (j : Nat) {e : Int} (h : -4 ≤ e) :
    FloatFormat.double.minExponent ≤ j + e - (FloatFormat.double.precision - 1) := by
  simp only [FloatFormat.double]
  omega

/-- One fifth of a power of two is a little too large, and the rounding of the
difference, a tie, and of the sum makes up for it. -/
theorem jitterBounds_two_pow (j : Nat) :
    JitterBounds (2 ^ j) (2 ^ (j : Int) * (3602879701896397 * 2 ^ (-54 : Int))) := by
  have hPos : (0 : Rat) < 2 ^ (j : Int) := zpow_pos (by norm_num) _
  have hPow : (2 : Rat) ^ j = 2 ^ (j : Int) := (zpow_natCast 2 j).symm
  have hDouble : ∀ e : Int, -54 ≤ e →
      IsDouble (2 ^ (j : Int) * (3602879701896397 * 2 ^ e)) := by
    intro e he
    refine ⟨3602879701896397, j + e, by norm_num [FloatFormat.double], ?_, ?_⟩
    · simp only [FloatFormat.double]
      omega
    · rw [zpow_add₀ (by norm_num)]
      push_cast
      ring
  have hLower := FloatFormat.round_zpow_mul (f := FloatFormat.double) (j := j) (e := -1)
    (a := (14411518807585587 * 2 ^ (-54 : Int) : Rat)) (n := 7205759403792794)
    (by norm_num) (by norm_num) (double_minExponent_le j (by decide))
    (roundEven_of_tie (by decide) (by norm_num [FloatFormat.double]))
  have hUpper := FloatFormat.round_zpow_mul (f := FloatFormat.double) (j := j) (e := 0)
    (a := (21617278211378381 * 2 ^ (-54 : Int) : Rat)) (n := 5404319552844595)
    (by norm_num) (by norm_num) (double_minExponent_le j (by decide))
    (roundEven_of_near (by norm_num [FloatFormat.double])
      (by norm_num [FloatFormat.double]))
  refine ⟨by positivity, ?_, hDouble _ le_rfl, ?_, ?_, ?_⟩
  · rw [roundDouble_fifth, hPow]
    exact roundDouble_of_isDouble (hDouble _ le_rfl)
  · have hTwice : 2 * (2 ^ (j : Int) * (3602879701896397 * 2 ^ (-54 : Int))) =
        2 ^ (j : Int) * (3602879701896397 * (2 : Rat) ^ (-53 : Int)) := by
      norm_num
      ring
    rw [hTwice]
    exact hDouble _ (by decide)
  · have hDiff : (2 : Rat) ^ j - 2 ^ (j : Int) * (3602879701896397 * 2 ^ (-54 : Int)) =
        2 ^ (j : Int) * (14411518807585587 * 2 ^ (-54 : Int)) := by
      rw [hPow]
      norm_num
      ring
    rw [roundDouble, hDiff, hLower, hPow, mul_comm]
    refine mul_le_mul_of_nonneg_left ?_ hPos.le
    norm_num [FloatFormat.double]
  · have hSum : (2 : Rat) ^ j + 2 ^ (j : Int) * (3602879701896397 * 2 ^ (-54 : Int)) =
        2 ^ (j : Int) * (21617278211378381 * 2 ^ (-54 : Int)) := by
      rw [hPow]
      norm_num
      ring
    rw [roundDouble, hSum, hUpper, hPow, mul_comm (6 / 5 : Rat)]
    refine mul_le_mul_of_nonneg_left ?_ hPos.le
    norm_num [FloatFormat.double]

theorem isDouble_natCast {m : Nat} (h : m < 2 ^ 53) : IsDouble (m : Rat) := by
  refine ⟨m, 0, ?_, by decide, by simp⟩
  rw [Nat.abs_cast]
  exact_mod_cast h

/-- One fifth of the cap is rounded to 24. -/
theorem jitterBounds_cap : JitterBounds 120 24 := by
  have hSpan : roundDouble (120 * roundDouble (1 / 5)) = 24 := by
    have h := FloatFormat.round_eq (f := FloatFormat.double)
      (q := (120 * (3602879701896397 * 2 ^ (-54 : Int)) : Rat)) (e := 4)
      (n := 6755399441055744) (by norm_num) (by norm_num) (by decide)
      (roundEven_of_near (by norm_num [FloatFormat.double])
        (by norm_num [FloatFormat.double]))
    rw [roundDouble_fifth, roundDouble, h]
    norm_num [FloatFormat.double]
  have hDouble : ∀ m : Nat, m < 2 ^ 53 → roundDouble m = m := fun m hm =>
    roundDouble_of_isDouble (isDouble_natCast hm)
  have hLower := hDouble 96 (by norm_num)
  have hUpper := hDouble 144 (by norm_num)
  refine ⟨by norm_num, hSpan, ?_, ?_, ?_, ?_⟩
  · exact_mod_cast isDouble_natCast (m := 24) (by norm_num)
  · exact_mod_cast isDouble_natCast (m := 48) (by norm_num)
  · norm_num at hLower ⊢
    rw [hLower]
  · norm_num at hUpper ⊢
    rw [hUpper]

theorem exists_jitterBounds (n : Nat) :
    ∃ jitterSpan, JitterBounds (bareDelay n) jitterSpan := by
  rcases bareDelay_cases n with ⟨j, -, hj⟩ | hCap
  · rw [hj]
    exact ⟨_, jitterBounds_two_pow j⟩
  · rw [hCap]
    exact ⟨_, jitterBounds_cap⟩

/-! ## The delay -/

section Delay

variable {attemptNo : Nat} {draw : Rat}

theorem floatPow_of_le (h : attemptNo ≤ 1024) :
    floatPow 2 (attemptNo - 1) = .ok (2 ^ (attemptNo - 1)) := by
  rcases floatPow_two (attemptNo - 1) with ⟨-, hOk⟩ | ⟨hLate, -⟩
  · exact hOk
  · omega

theorem withinBounds_computeBackoffSeconds (h : attemptNo ≤ 1024) :
    WithinBounds (fun n draw => computeBackoffSeconds n {} draw) attemptNo := by
  intro draw hDraw hDraw'
  have hPow := floatPow_of_le h
  have hBare := bareDelay_pos attemptNo
  refine ⟨max 0 (bareDelay attemptNo + uniform (-(bareDelay attemptNo * (1 / 5)))
    (bareDelay attemptNo * (1 / 5)) draw), ?_, ?_⟩
  · simp only [computeBackoffSeconds, hPow]
    rfl
  · generalize bareDelay attemptNo = raw at hBare
    have hNonneg : 0 ≤ raw * draw := by positivity
    have hLe : raw * draw ≤ raw * 1 := mul_le_mul_of_nonneg_left hDraw' hBare.le
    have hValue : raw + uniform (-(raw * (1 / 5))) (raw * (1 / 5)) draw =
        4 / 5 * raw + 2 / 5 * (raw * draw) := by
      unfold uniform
      ring
    rw [hValue, max_eq_right (by linarith)]
    exact ⟨by linarith, by linarith, by linarith⟩

/-- The jitter stays within its span. -/
theorem uniformDouble_between {jitterSpan : Rat} (hNonneg : 0 ≤ jitterSpan)
    (hSpan : IsDouble jitterSpan) (hTwice : IsDouble (2 * jitterSpan))
    (hDraw : 0 ≤ draw) (hDraw' : draw ≤ 1) :
    -jitterSpan ≤ uniformDouble (-jitterSpan) jitterSpan draw ∧
      uniformDouble (-jitterSpan) jitterSpan draw ≤ jitterSpan := by
  have hWidth : roundDouble (jitterSpan - -jitterSpan) = 2 * jitterSpan := by
    have hSum : jitterSpan - -jitterSpan = 2 * jitterSpan := by ring
    rw [hSum]
    exact roundDouble_of_isDouble hTwice
  have hProduct : 2 * jitterSpan * draw ≤ 2 * jitterSpan * 1 :=
    mul_le_mul_of_nonneg_left hDraw' (by linarith)
  have hZero : IsDouble 0 := by exact_mod_cast isDouble_natCast (m := 0) (by norm_num)
  obtain ⟨hLow, hHigh⟩ := roundDouble_between hZero hTwice
    (by positivity : (0 : Rat) ≤ 2 * jitterSpan * draw) (by linarith)
  unfold uniformDouble
  rw [hWidth]
  exact roundDouble_between (FloatFormat.isFloat_neg hSpan) hSpan
    (by linarith) (by linarith)

/-- Before the jitter nothing is rounded. -/
theorem roundDouble_two_mul_pow (n : Nat) :
    roundDouble (2 * roundDouble (2 ^ n)) = 2 * 2 ^ n := by
  have hPow : ∀ k : Nat, IsDouble (2 ^ k) := fun k =>
    ⟨1, k, by norm_num [FloatFormat.double], by
      simp only [FloatFormat.double]
      omega, by simp⟩
  have hTwice : (2 : Rat) * 2 ^ n = 2 ^ (n + 1) := by ring
  rw [roundDouble_of_isDouble (hPow n), hTwice, roundDouble_of_isDouble (hPow (n + 1))]

theorem withinBounds_computeBackoffSecondsDouble (h : attemptNo ≤ 1024) :
    WithinBounds (fun n draw => computeBackoffSecondsDouble n {} draw) attemptNo := by
  intro draw hDraw hDraw'
  have hPow := floatPow_of_le h
  obtain ⟨jitterSpan, hJitter⟩ := exists_jitterBounds attemptNo
  obtain ⟨hLow, hHigh⟩ := uniformDouble_between hJitter.nonneg hJitter.isDouble
    hJitter.isDouble_twice hDraw hDraw'
  have hValue : computeBackoffSecondsDouble attemptNo {} draw =
      .ok (max 0 (roundDouble (bareDelay attemptNo +
        uniformDouble (-jitterSpan) jitterSpan draw))) := by
    simp only [computeBackoffSecondsDouble, hPow, roundDouble_two_mul_pow]
    rw [← bareDelay, hJitter.span]
  refine ⟨_, hValue, ?_⟩
  have hBare := bareDelay_pos attemptNo
  have hLower := FloatFormat.round_mono (f := FloatFormat.double) (by decide)
    (by linarith : bareDelay attemptNo - jitterSpan ≤
      bareDelay attemptNo + uniformDouble (-jitterSpan) jitterSpan draw)
  have hUpper := FloatFormat.round_mono (f := FloatFormat.double) (by decide)
    (by linarith : bareDelay attemptNo + uniformDouble (-jitterSpan) jitterSpan draw ≤
      bareDelay attemptNo + jitterSpan)
  have hLower' := hJitter.lower.trans hLower
  have hUpper' := hUpper.trans hJitter.upper
  rw [max_eq_right (by unfold roundDouble; linarith)]
  exact ⟨hLower', hUpper', by unfold roundDouble; linarith⟩

/-- Late attempts raise, whatever is drawn. -/
theorem not_withinBounds_of_raises {compute : Nat → Rat → Except PyError Rat}
    (h : compute attemptNo 0 = .error "OverflowError") :
    ¬ WithinBounds compute attemptNo := by
  intro hBounds
  obtain ⟨delay, hDelay, -⟩ := hBounds 0 le_rfl (by norm_num)
  rw [h] at hDelay
  cases hDelay

theorem raises_of_lt (h : 1024 < attemptNo) :
    computeBackoffSeconds attemptNo {} draw = .error "OverflowError" ∧
      computeBackoffSecondsDouble attemptNo {} draw = .error "OverflowError" := by
  have hPow : floatPow 2 (attemptNo - 1) = .error "OverflowError" := by
    rcases floatPow_two (attemptNo - 1) with ⟨hEarly, -⟩ | ⟨-, hRaises⟩
    · omega
    · exact hRaises
  exact ⟨by simp only [computeBackoffSeconds, hPow],
    by simp only [computeBackoffSecondsDouble, hPow]⟩

end Delay

/-- The delay without jitter grows up to two minutes; with jitter it is within a fifth
of that up to the attempt number 1024. -/
theorem backoff_iff (attemptNo : Nat) :
    (WithinBounds (fun n draw => computeBackoffSeconds n {} draw) attemptNo ↔
      attemptNo ≤ 1024) ∧
    (WithinBounds (fun n draw => computeBackoffSecondsDouble n {} draw) attemptNo ↔
      attemptNo ≤ 1024) ∧
    (∀ earlier ≤ attemptNo, bareDelay earlier ≤ bareDelay attemptNo) ∧
    bareDelay attemptNo ≤ 120 := by
  refine ⟨⟨fun h => ?_, withinBounds_computeBackoffSeconds⟩,
    ⟨fun h => ?_, withinBounds_computeBackoffSecondsDouble⟩,
    fun earlier hEarlier => bareDelay_mono hEarlier, bareDelay_le attemptNo⟩
  · by_contra hLate
    exact not_withinBounds_of_raises (raises_of_lt (by omega)).1 h
  · by_contra hLate
    exact not_withinBounds_of_raises (raises_of_lt (by omega)).2 h

theorem not_backoff :
    computeBackoffSeconds 1025 {} (1 / 2) = .error "OverflowError" ∧
      computeBackoffSecondsDouble 1025 {} (1 / 2) = .error "OverflowError" ∧
      ¬ WithinBounds (fun n draw => computeBackoffSeconds n {} draw) 1025 :=
  ⟨(raises_of_lt (by decide)).1, (raises_of_lt (by decide)).2,
    not_withinBounds_of_raises (raises_of_lt (by decide)).1⟩

end Imagin4.Ports
