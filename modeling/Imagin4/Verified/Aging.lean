import Mathlib.Algebra.Order.Field.Basic
import Mathlib.Tactic.Linarith
import Mathlib.Tactic.Ring

/-!
# Priorities that age

Whoever waits gains priority at one rate for all.  The difference of two aged
priorities does not depend on the time at which they are compared, so an order by
them is settled once; and with a positive rate, no priority makes up for having
come much later.

## Main results

* `aged_lt_iff`, `aged_eq_iff` — the time drops out of every comparison.
* `came_le_of_aged_le` — how much later one may have come and still be ahead.
-/

namespace Imagin4.Verified

universe u

section Aging

variable {K : Type u} [Field K] [LinearOrder K] [IsStrictOrderedRing K]

/-- A priority at some time, for one who came at another. -/
def aged (rate now priority came : K) : K := priority + (now - came) * rate

variable {rate now priority came priority' came' : K}

omit [LinearOrder K] [IsStrictOrderedRing K] in
theorem aged_eq_add (rate now priority came : K) :
    aged rate now priority came = aged rate 0 priority came + now * rate := by
  unfold aged
  ring

theorem aged_lt_iff (now other : K) :
    aged rate now priority came < aged rate now priority' came' ↔
      aged rate other priority came < aged rate other priority' came' := by
  rw [aged_eq_add rate now, aged_eq_add rate now priority', aged_eq_add rate other,
    aged_eq_add rate other priority', add_lt_add_iff_right, add_lt_add_iff_right]

omit [LinearOrder K] [IsStrictOrderedRing K] in
theorem aged_eq_iff (now other : K) :
    aged rate now priority came = aged rate now priority' came' ↔
      aged rate other priority came = aged rate other priority' came' := by
  rw [aged_eq_add rate now, aged_eq_add rate now priority', aged_eq_add rate other,
    aged_eq_add rate other priority', add_left_inj, add_left_inj]

/-- Whoever is ahead has not come later than the difference of the priorities makes
up for. -/
theorem came_le_of_aged_le {highest : K} (hrate : 0 < rate)
    (hhighest : priority' ≤ highest)
    (h : aged rate now priority came ≤ aged rate now priority' came') :
    came' ≤ came + (highest - priority) / rate := by
  unfold aged at h
  have hlate : (came' - came) * rate ≤ highest - priority := by linarith
  have hle : came' - came ≤ (highest - priority) / rate :=
    (le_div_iff₀ hrate).mpr hlate
  linarith

end Aging

end Imagin4.Verified
