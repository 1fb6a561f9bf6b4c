import Mathlib.Algebra.Order.Floor.Ring
import Mathlib.Data.Int.Log
import Mathlib.Tactic.Linarith
import Mathlib.Tactic.NormNum
import Mathlib.Tactic.Positivity
import Mathlib.Tactic.Ring

/-!
# Rounding to binary floats

The numbers of a binary format are the integers of a number of bits times the powers
of two from some exponent on; large exponents are not bounded here.  A number is
rounded to the nearest of them, and to the even one of two.

## Main results

* `round_of_isFloat` — a float is rounded to itself.
* `round_mono` — rounding keeps the order.
* `round_between` — what lies between two floats is rounded to between them.
-/

namespace Imagin4.Verified

universe u

variable {K : Type u} [Field K] [LinearOrder K] [FloorRing K]

/-! ## To integers -/

/-- The nearest integer, and the even one of two. -/
def roundEven (x : K) : Int :=
  if Int.fract x < 1 / 2 then ⌊x⌋
  else if 1 / 2 < Int.fract x then ⌊x⌋ + 1
  else if ⌊x⌋ % 2 = 0 then ⌊x⌋
  else ⌊x⌋ + 1

theorem floor_le_roundEven (x : K) : ⌊x⌋ ≤ roundEven x := by
  unfold roundEven
  split_ifs <;> omega

theorem roundEven_le_floor (x : K) : roundEven x ≤ ⌊x⌋ + 1 := by
  unfold roundEven
  split_ifs <;> omega

variable [IsStrictOrderedRing K]

theorem roundEven_intCast (n : Int) : roundEven (n : K) = n := by
  unfold roundEven
  rw [Int.fract_intCast, if_pos (by norm_num), Int.floor_intCast]

theorem roundEven_mono {x y : K} (h : x ≤ y) : roundEven x ≤ roundEven y := by
  rcases (Int.floor_le_floor h).lt_or_eq with hFloor | hFloor
  · have hx := roundEven_le_floor x
    have hy := floor_le_roundEven y
    omega
  · have hFract : Int.fract x ≤ Int.fract y := by
      unfold Int.fract
      rw [hFloor]
      linarith
    unfold roundEven
    rw [hFloor]
    by_cases hBelow : Int.fract x < 1 / 2
    · rw [if_pos hBelow]
      split_ifs <;> omega
    · have hBelow' : ¬ Int.fract y < 1 / 2 := fun hy => hBelow (by linarith)
      rw [if_neg hBelow, if_neg hBelow']
      by_cases hAbove : 1 / 2 < Int.fract x
      · have hAbove' : 1 / 2 < Int.fract y := by linarith
        rw [if_pos hAbove, if_pos hAbove']
      · rw [if_neg hAbove]
        split_ifs <;> omega

/-- An integer below the number is below what it is rounded to. -/
theorem le_roundEven {n : Int} {x : K} (h : (n : K) ≤ x) : n ≤ roundEven x := by
  have hMono := roundEven_mono h
  rwa [roundEven_intCast] at hMono

theorem roundEven_le {n : Int} {x : K} (h : x ≤ (n : K)) : roundEven x ≤ n := by
  have hMono := roundEven_mono h
  rwa [roundEven_intCast] at hMono

/-- The nearest integer is the one less than one half away. -/
theorem roundEven_of_near {n : Int} {x : K} (hLower : n - 1 / 2 < x)
    (hUpper : x < n + 1 / 2) : roundEven x = n := by
  by_cases h : (n : K) ≤ x
  · have hFloor : ⌊x⌋ = n := Int.floor_eq_iff.mpr ⟨h, by linarith⟩
    have hFract : Int.fract x < 1 / 2 := by
      unfold Int.fract
      rw [hFloor]
      linarith
    rw [roundEven, if_pos hFract, hFloor]
  · have hFloor : ⌊x⌋ = n - 1 := by
      rw [Int.floor_eq_iff]
      push_cast
      constructor <;> linarith
    have hFract : 1 / 2 < Int.fract x := by
      unfold Int.fract
      rw [hFloor]
      push_cast
      linarith
    rw [roundEven, if_neg (by linarith), if_pos hFract, hFloor]
    omega

/-- Of two nearest integers it is the even one, here the upper. -/
theorem roundEven_of_tie {n : Int} {x : K} (hEven : n % 2 = 0) (h : x = n - 1 / 2) :
    roundEven x = n := by
  have hFloor : ⌊x⌋ = n - 1 := by
    rw [Int.floor_eq_iff]
    push_cast
    constructor <;> linarith
  have hFract : Int.fract x = 1 / 2 := by
    unfold Int.fract
    rw [hFloor, h]
    push_cast
    ring
  rw [roundEven, hFract, if_neg (lt_irrefl _), if_neg (lt_irrefl _), hFloor]
  rw [if_neg (by omega)]
  omega

/-! ## To floats -/

/-- The bits of an integer, and the least exponent. -/
structure FloatFormat where
  precision : Nat
  minExponent : Int

/-- The doubles. -/
def FloatFormat.double : FloatFormat := ⟨53, -1074⟩

namespace FloatFormat

variable (f : FloatFormat)

/-- The exponent of the last bit of a positive number. -/
def exponent (q : K) : Int := max (Int.log 2 q - (f.precision - 1)) f.minExponent

/-- Rounding of a number that is not negative. -/
def roundPos (q : K) : K := roundEven (q / 2 ^ f.exponent q) * 2 ^ f.exponent q

/-- Rounding is symmetric. -/
def round (q : K) : K := if q < 0 then -f.roundPos (-q) else f.roundPos q

/-- The numbers of the format. -/
def IsFloat (q : K) : Prop :=
  ∃ m e : Int, |m| < 2 ^ f.precision ∧ f.minExponent ≤ e ∧ q = m * 2 ^ e

variable {f}

theorem two_zpow_pos (e : Int) : (0 : K) < 2 ^ e := zpow_pos (by norm_num) e

theorem roundPos_zero : f.roundPos (0 : K) = 0 := by
  have hZero : roundEven (0 : K) = 0 := by
    have h := roundEven_intCast (K := K) 0
    rwa [Int.cast_zero] at h
  rw [roundPos, zero_div, hZero, Int.cast_zero, zero_mul]

omit [LinearOrder K] [FloorRing K] [IsStrictOrderedRing K] in
theorem isFloat_neg {q : K} (h : f.IsFloat q) : f.IsFloat (-q) := by
  obtain ⟨m, e, hm, he, rfl⟩ := h
  exact ⟨-m, e, by rwa [abs_neg], he, by push_cast; ring⟩

/-- A multiple of a power of two, in units of a smaller one. -/
theorem mul_zpow_div {m e E : Int} (h : E ≤ e) :
    (m : K) * 2 ^ e / 2 ^ E = ((m * 2 ^ (e - E).toNat : Int) : K) := by
  obtain ⟨n, rfl⟩ : ∃ n : Nat, e = E + n := ⟨(e - E).toNat, by omega⟩
  have hPos := two_zpow_pos (K := K) E
  have hn : (E + n - E).toNat = n := by omega
  rw [hn, zpow_add₀ (by norm_num), zpow_natCast]
  push_cast
  field_simp

/-- Multiples of a power of two that is not below the last bit are kept. -/
theorem roundPos_of_exponent_le {m e : Int}
    (he : f.exponent ((m : K) * 2 ^ e) ≤ e) :
    f.roundPos ((m : K) * 2 ^ e) = m * 2 ^ e := by
  rw [roundPos, mul_zpow_div he, roundEven_intCast, ← mul_zpow_div he]
  exact div_mul_cancel₀ _ (two_zpow_pos _).ne'

/-- The bits of a float suffice for it. -/
theorem exponent_le {m e : Int} (hm : 0 < m) (hBits : m < 2 ^ f.precision)
    (he : f.minExponent ≤ e) : f.exponent ((m : K) * 2 ^ e) ≤ e := by
  have hm' : (0 : K) < m := by exact_mod_cast hm
  have hPos : (0 : K) < m * 2 ^ e := mul_pos hm' (two_zpow_pos e)
  have hUpper : (m : K) * 2 ^ e < ((2 : Nat) : K) ^ (f.precision + e) := by
    have hBits' : (m : K) < 2 ^ f.precision := by exact_mod_cast hBits
    rw [Nat.cast_ofNat, zpow_add₀ (by norm_num), zpow_natCast]
    exact mul_lt_mul_of_pos_right hBits' (two_zpow_pos e)
  have hLog := (Int.lt_zpow_iff_log_lt (by norm_num) hPos).mp hUpper
  unfold exponent
  omega

theorem roundPos_of_isFloat {q : K} (hq : 0 ≤ q) (h : f.IsFloat q) :
    f.roundPos q = q := by
  obtain ⟨m, e, hm, he, rfl⟩ := h
  have hm0 : 0 ≤ m := by
    by_contra hNeg
    have hNeg' : (m : K) < 0 := by exact_mod_cast Int.not_le.mp hNeg
    exact absurd hq (not_le.mpr (mul_neg_of_neg_of_pos hNeg' (two_zpow_pos e)))
  rcases hm0.eq_or_lt with rfl | hmPos
  · rw [Int.cast_zero, zero_mul, roundPos_zero]
  · rw [abs_of_pos hmPos] at hm
    exact roundPos_of_exponent_le (exponent_le hmPos hm he)

theorem round_of_isFloat {q : K} (h : f.IsFloat q) : f.round q = q := by
  unfold round
  by_cases hNeg : q < 0
  · rw [if_pos hNeg, roundPos_of_isFloat (by linarith) (isFloat_neg h), neg_neg]
  · rw [if_neg hNeg, roundPos_of_isFloat (not_lt.mp hNeg) h]

/-! ## Order -/

theorem exponent_mono {x y : K} (hx : 0 < x) (h : x ≤ y) :
    f.exponent x ≤ f.exponent y := by
  have hLog := Int.log_mono_right (b := 2) hx h
  unfold exponent
  omega

/-- Rounding does not cross a multiple of a power of two above the last bit. -/
theorem roundPos_le {q : K} {m e : Int} (he : f.exponent q ≤ e) (h : q ≤ m * 2 ^ e) :
    f.roundPos q ≤ m * 2 ^ e := by
  have hPos := two_zpow_pos (K := K) (f.exponent q)
  have hDiv : q / 2 ^ f.exponent q ≤ ((m * 2 ^ (e - f.exponent q).toNat : Int) : K) := by
    rw [← mul_zpow_div he]
    exact div_le_div_of_nonneg_right h hPos.le
  have hRound : (roundEven (q / 2 ^ f.exponent q) : K) ≤ m * 2 ^ e / 2 ^ f.exponent q := by
    rw [mul_zpow_div he]
    exact_mod_cast roundEven_le hDiv
  exact (le_div_iff₀ hPos).mp hRound

theorem le_roundPos {q : K} {m e : Int} (he : f.exponent q ≤ e) (h : m * 2 ^ e ≤ q) :
    m * 2 ^ e ≤ f.roundPos q := by
  have hPos := two_zpow_pos (K := K) (f.exponent q)
  have hDiv : ((m * 2 ^ (e - f.exponent q).toNat : Int) : K) ≤ q / 2 ^ f.exponent q := by
    rw [← mul_zpow_div he]
    exact div_le_div_of_nonneg_right h hPos.le
  have hRound : m * 2 ^ e / 2 ^ f.exponent q ≤ (roundEven (q / 2 ^ f.exponent q) : K) := by
    rw [mul_zpow_div he]
    exact_mod_cast le_roundEven hDiv
  exact (div_le_iff₀ hPos).mp hRound

/-- Where the exponents differ, a power of two lies between the numbers, and between
what they are rounded to. -/
theorem roundPos_le_of_exponent_lt (hp : 0 < f.precision) {x y : K} (hy : 0 < y)
    (h : f.exponent x < f.exponent y) : f.roundPos x ≤ f.roundPos y := by
  have hLogX : Int.log 2 x + 1 ≤ Int.log 2 y := by
    unfold exponent at h
    omega
  have hExpX : f.exponent x ≤ Int.log 2 y := by
    unfold exponent at *
    omega
  have hExpY : f.exponent y ≤ Int.log 2 y := by
    unfold exponent at *
    omega
  have hTwo : ((2 : Nat) : K) = 2 := by norm_num
  have hUpper : x ≤ (1 : Int) * 2 ^ Int.log 2 y := by
    have hLt := Int.lt_zpow_succ_log_self (b := 2) (by norm_num) x
    have hLe : (2 : K) ^ (Int.log 2 x + 1) ≤ 2 ^ Int.log 2 y :=
      zpow_le_zpow_right₀ (by norm_num) hLogX
    rw [hTwo] at hLt
    rw [Int.cast_one, one_mul]
    exact hLt.le.trans hLe
  have hLower : ((1 : Int) : K) * 2 ^ Int.log 2 y ≤ y := by
    have hLe := Int.zpow_log_le_self (b := 2) (by norm_num) hy
    rw [hTwo] at hLe
    rwa [Int.cast_one, one_mul]
  exact (roundPos_le hExpX hUpper).trans (le_roundPos hExpY hLower)

theorem roundPos_mono (hp : 0 < f.precision) {x y : K} (hx : 0 ≤ x) (h : x ≤ y) :
    f.roundPos x ≤ f.roundPos y := by
  rcases hx.eq_or_lt with rfl | hPos
  · rw [roundPos_zero]
    have hNonneg : (0 : Int) ≤ roundEven (y / 2 ^ f.exponent y) := by
      refine le_roundEven ?_
      rw [Int.cast_zero]
      exact div_nonneg h (two_zpow_pos _).le
    have hCast : (0 : K) ≤ roundEven (y / 2 ^ f.exponent y) := by exact_mod_cast hNonneg
    exact mul_nonneg hCast (two_zpow_pos _).le
  · rcases (exponent_mono (f := f) hPos h).lt_or_eq with hExp | hExp
    · exact roundPos_le_of_exponent_lt hp (hPos.trans_le h) hExp
    · have hRound : roundEven (x / 2 ^ f.exponent x) ≤ roundEven (y / 2 ^ f.exponent x) :=
        roundEven_mono (div_le_div_of_nonneg_right h (two_zpow_pos _).le)
      have hCast : (roundEven (x / 2 ^ f.exponent x) : K) ≤
          roundEven (y / 2 ^ f.exponent x) := by exact_mod_cast hRound
      rw [roundPos, roundPos, ← hExp]
      exact mul_le_mul_of_nonneg_right hCast (two_zpow_pos _).le

theorem roundPos_nonneg (hp : 0 < f.precision) {q : K} (h : 0 ≤ q) :
    0 ≤ f.roundPos q := by
  have hMono := roundPos_mono hp le_rfl h
  rwa [roundPos_zero] at hMono

theorem round_mono (hp : 0 < f.precision) {x y : K} (h : x ≤ y) :
    f.round x ≤ f.round y := by
  unfold round
  by_cases hx : x < 0
  · by_cases hy : y < 0
    · rw [if_pos hx, if_pos hy]
      exact neg_le_neg (roundPos_mono hp (by linarith) (by linarith))
    · rw [if_pos hx, if_neg hy]
      have hNeg := roundPos_nonneg hp (by linarith : 0 ≤ -x)
      have hPos := roundPos_nonneg hp (not_lt.mp hy)
      linarith
  · rw [if_neg hx, if_neg (by linarith)]
    exact roundPos_mono hp (not_lt.mp hx) h

/-- What lies between two floats is rounded to between them. -/
theorem round_between (hp : 0 < f.precision) {x y q : K} (hx : f.IsFloat x)
    (hy : f.IsFloat y) (hxq : x ≤ q) (hqy : q ≤ y) : x ≤ f.round q ∧ f.round q ≤ y := by
  have hLower := round_mono hp hxq
  have hUpper := round_mono hp hqy
  rw [round_of_isFloat hx] at hLower
  rw [round_of_isFloat hy] at hUpper
  exact ⟨hLower, hUpper⟩

/-! ## Single numbers -/

/-- The exponent of a number between two powers of two. -/
theorem exponent_eq {q : K} {e : Int} (hLower : 2 ^ e ≤ q) (hUpper : q < 2 ^ (e + 1))
    (hMin : f.minExponent ≤ e - (f.precision - 1)) :
    f.exponent q = e - (f.precision - 1) := by
  have hTwo : ((2 : Nat) : K) = 2 := by norm_num
  have hPos : 0 < q := (two_zpow_pos e).trans_le hLower
  have hGe : e ≤ Int.log 2 q :=
    (Int.zpow_le_iff_le_log (by norm_num) hPos).mp (by rwa [hTwo])
  have hLt : Int.log 2 q < e + 1 :=
    (Int.lt_zpow_iff_log_lt (by norm_num) hPos).mp (by rwa [hTwo])
  unfold exponent
  omega

/-- What a number between two powers of two is rounded to. -/
theorem round_eq {q : K} {e n : Int} (hLower : 2 ^ e ≤ q) (hUpper : q < 2 ^ (e + 1))
    (hMin : f.minExponent ≤ e - (f.precision - 1))
    (hn : roundEven (q / 2 ^ (e - (f.precision - 1))) = n) :
    f.round q = n * 2 ^ (e - (f.precision - 1)) := by
  have hPos : 0 < q := (two_zpow_pos e).trans_le hLower
  rw [round, if_neg hPos.not_gt, roundPos, exponent_eq hLower hUpper hMin, hn]

/-- The same a power of two further. -/
theorem round_zpow_mul {a : K} {j e n : Int} (hLower : 2 ^ e ≤ a)
    (hUpper : a < 2 ^ (e + 1)) (hMin : f.minExponent ≤ j + e - (f.precision - 1))
    (hn : roundEven (a / 2 ^ (e - (f.precision - 1))) = n) :
    f.round (2 ^ j * a) = 2 ^ j * (n * 2 ^ (e - (f.precision - 1))) := by
  have hTwo : (2 : K) ≠ 0 := by norm_num
  have hPos := two_zpow_pos (K := K) j
  have hSplit : ∀ d : Int, (2 : K) ^ (j + d) = 2 ^ j * 2 ^ d := fun d => zpow_add₀ hTwo j d
  have hExp : j + e - ((f.precision : Int) - 1) = j + (e - (f.precision - 1)) := by ring
  have hUnit : (2 : K) ^ j * a / 2 ^ (j + e - ((f.precision : Int) - 1)) =
      a / 2 ^ (e - ((f.precision : Int) - 1)) := by
    rw [hExp, hSplit, mul_div_mul_left _ _ hPos.ne']
  have hLower' : (2 : K) ^ (j + e) ≤ 2 ^ j * a := by
    rw [hSplit]
    exact mul_le_mul_of_nonneg_left hLower hPos.le
  have hUpper' : 2 ^ j * a < (2 : K) ^ (j + e + 1) := by
    rw [add_assoc, hSplit]
    exact mul_lt_mul_of_pos_left hUpper hPos
  rw [round_eq hLower' hUpper' hMin (by rw [hUnit, hn]), hExp, hSplit]
  ring

end FloatFormat

end Imagin4.Verified
