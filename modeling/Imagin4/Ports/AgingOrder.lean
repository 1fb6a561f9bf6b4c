import Mathlib.Algebra.Order.Ring.Rat
import Imagin4.Verified.Aging
import Imagin4.Ports.ClaimOrder

/-!
# The aging order

The formula of the aged priority stands in three places: `effective_priority` of
`app/domain/jobs/fairness.py`, the `ORDER BY` of a claim, and the comparison of
`queue_rank` with its clause for ties.  Here the rate is a parameter of all three;
`PostgresJobQueue` passes one half.

## Main results

* `aging_order` — the three are one order, which does not change with time, and in
  which nobody is overtaken for ever.
-/

namespace Imagin4.Ports

open Imagin4.Verified

/-- `effective_priority`, of two aware times. -/
def effectivePriority (basePriority : Int) (queuedAt now : DateTime)
    (agingIncrementPerMinute : Rat := 1 / 2) : Rat :=
  let ageMinutes := max 0 (totalSeconds (now - queuedAt) / 60)
  basePriority + ageMinutes * agingIncrementPerMinute

namespace PostgresJobQueue

/-! ## The three formulas -/

section Formulas

variable (agingIncrement : Rat) (now : DateTime)

/-- The expression of the statements. -/
def agedPriorityAt (g : JobRow) : Rat :=
  g.priority + totalSeconds (now - g.queuedAt) / 60 * agingIncrement

/-- The `ORDER BY` of a claim. -/
def ClaimsBeforeAt (g h : JobRow) : Prop :=
  agedPriorityAt agingIncrement now h < agedPriorityAt agingIncrement now g ∨
    (agedPriorityAt agingIncrement now g = agedPriorityAt agingIncrement now h ∧
      g.queuedAt ≤ h.queuedAt)

instance : DecidableRel (ClaimsBeforeAt agingIncrement now) := fun g h => by
  unfold ClaimsBeforeAt
  infer_instance

/-- By `effective_priority`, the highest first, then by `queued_at`. -/
def FairBefore (g h : JobRow) : Prop :=
  effectivePriority h.priority h.queuedAt now agingIncrement <
      effectivePriority g.priority g.queuedAt now agingIncrement ∨
    (effectivePriority g.priority g.queuedAt now agingIncrement =
        effectivePriority h.priority h.queuedAt now agingIncrement ∧
      g.queuedAt ≤ h.queuedAt)

instance : DecidableRel (FairBefore agingIncrement now) := fun g h => by
  unfold FairBefore
  infer_instance

/-- `g` is before `h`, and not the other way round. -/
def StrictlyAhead (g h : JobRow) : Prop :=
  FairBefore agingIncrement now g h ∧ ¬ FairBefore agingIncrement now h g

instance : DecidableRel (StrictlyAhead agingIncrement now) := fun g h => by
  unfold StrictlyAhead
  infer_instance

/-- `queue_rank`, with the rate of aging. -/
def queueRankAt (id : Uuid) (kinds : Option (List String)) (q : PostgresJobQueue) :
    Option Nat :=
  match q.generationJobs.find? id with
  | none => none
  | some target =>
      if target.state.isWaiting then
        some (q.generationJobs.rows.countP (fun g =>
          g.state.isWaiting && kindAllowed kinds g.kind &&
            (decide (agedPriorityAt agingIncrement now target <
                agedPriorityAt agingIncrement now g) ||
              (decide (agedPriorityAt agingIncrement now g =
                  agedPriorityAt agingIncrement now target) &&
                decide (g.queuedAt < target.queuedAt)))))
      else none

end Formulas

/-- `queue_rank`. -/
def queueRank (id : Uuid) (kinds : Option (List String)) (now : DateTime)
    (q : PostgresJobQueue) : Option Nat :=
  queueRankAt agingIncrementPerMinute now id kinds q

/-- A claim of the adapter orders by its own rate. -/
theorem claimsBefore_eq (now : DateTime) :
    ClaimsBefore now = ClaimsBeforeAt agingIncrementPerMinute now := rfl

/-! ## One order -/

/-- The order of claims, of the rows of a table, at some time. -/
structure AgingOrder (agingIncrement : Rat) (now : DateTime) (q : PostgresJobQueue) :
    Prop where
  fair {g h : JobRow} : g ∈ q.generationJobs → h ∈ q.generationJobs →
    (ClaimsBeforeAt agingIncrement now g h ↔ FairBefore agingIncrement now g h)
  sorted (p : JobRow → Bool) :
    (q.generationJobs.rows.filter p).insertionSort
        (ClaimsBeforeAt agingIncrement now) =
      (q.generationJobs.rows.filter p).insertionSort (FairBefore agingIncrement now)
  steady {later : DateTime} {g h : JobRow} :
    (∀ g ∈ q.generationJobs, g.queuedAt ≤ later) → g ∈ q.generationJobs →
    h ∈ q.generationJobs →
    (FairBefore agingIncrement now g h ↔ FairBefore agingIncrement later g h)
  ranked {target : JobRow} (kinds : Option (List String)) :
    target ∈ q.generationJobs → target.state.isWaiting = true →
    queueRankAt agingIncrement now target.id kinds q =
      some (q.generationJobs.rows.countP (fun g =>
        g.state.isWaiting && kindAllowed kinds g.kind &&
          decide (StrictlyAhead agingIncrement now g target)))
  bounded {g h : JobRow} {highest : Int} : 0 < agingIncrement →
    (∀ g ∈ q.generationJobs, g.priority ≤ highest) → g ∈ q.generationJobs →
    h ∈ q.generationJobs → FairBefore agingIncrement now g h →
    totalSeconds g.queuedAt ≤
      totalSeconds h.queuedAt + 60 * (highest - h.priority) / agingIncrement
  waits {target : JobRow} {highest : Int} {kinds : Option (List String)} {n : Nat} :
    0 < agingIncrement → (∀ g ∈ q.generationJobs, g.priority ≤ highest) →
    target ∈ q.generationJobs →
    queueRankAt agingIncrement now target.id kinds q = some n →
    n ≤ q.generationJobs.rows.countP (fun g => totalSeconds g.queuedAt ≤
      totalSeconds target.queuedAt + 60 * (highest - target.priority) / agingIncrement)

section Order

variable {agingIncrement : Rat} {now : DateTime} {q : PostgresJobQueue}
  {g h : JobRow}

theorem agedPriorityAt_eq_aged (agingIncrement : Rat) (now : DateTime) (g : JobRow) :
    agedPriorityAt agingIncrement now g =
      aged (agingIncrement / 60) (totalSeconds now) g.priority
        (totalSeconds g.queuedAt) := by
  unfold agedPriorityAt aged totalSeconds
  push_cast
  ring

/-- Whoever has come already has an age that is not negative. -/
theorem effectivePriority_eq (hg : g.queuedAt ≤ now) :
    effectivePriority g.priority g.queuedAt now agingIncrement =
      agedPriorityAt agingIncrement now g := by
  have hage : (0 : Rat) ≤ totalSeconds (now - g.queuedAt) / 60 := by
    have hcast : (0 : Rat) ≤ ((now - g.queuedAt : Int) : Rat) := by
      exact_mod_cast Int.sub_nonneg.mpr hg
    unfold totalSeconds
    positivity
  unfold effectivePriority agedPriorityAt
  dsimp only
  rw [max_eq_right hage]

theorem fairBefore_iff (hg : g.queuedAt ≤ now) (hh : h.queuedAt ≤ now) :
    FairBefore agingIncrement now g h ↔ ClaimsBeforeAt agingIncrement now g h := by
  unfold FairBefore ClaimsBeforeAt
  rw [effectivePriority_eq hg, effectivePriority_eq hh]

/-- The order of claims does not change with time. -/
theorem claimsBeforeAt_iff (now later : DateTime) :
    ClaimsBeforeAt agingIncrement now g h ↔
      ClaimsBeforeAt agingIncrement later g h := by
  unfold ClaimsBeforeAt
  simp only [agedPriorityAt_eq_aged]
  rw [aged_lt_iff (totalSeconds now) (totalSeconds later),
    aged_eq_iff (totalSeconds now) (totalSeconds later)]

/-- The comparison of `queue_rank`, ties and all. -/
theorem strictlyAhead_iff (hg : g.queuedAt ≤ now) (hh : h.queuedAt ≤ now) :
    StrictlyAhead agingIncrement now g h ↔
      agedPriorityAt agingIncrement now h < agedPriorityAt agingIncrement now g ∨
        (agedPriorityAt agingIncrement now g = agedPriorityAt agingIncrement now h ∧
          g.queuedAt < h.queuedAt) := by
  unfold StrictlyAhead
  rw [fairBefore_iff hg hh, fairBefore_iff hh hg]
  unfold ClaimsBeforeAt
  rcases lt_trichotomy (agedPriorityAt agingIncrement now g)
    (agedPriorityAt agingIncrement now h) with hlt | heq | hlt
  · simp [hlt, hlt.ne, hlt.ne', hlt.le.not_gt]
  · simp only [heq, lt_irrefl, true_and, false_or]
    exact lt_iff_le_not_ge.symm
  · simp [hlt, hlt.ne, hlt.ne', hlt.le.not_gt]

theorem queueRankAt_eq (hpast : ∀ g ∈ q.generationJobs, g.queuedAt ≤ now)
    {target : JobRow} (kinds : Option (List String))
    (htarget : target ∈ q.generationJobs) (hwaiting : target.state.isWaiting = true) :
    queueRankAt agingIncrement now target.id kinds q =
      some (q.generationJobs.rows.countP (fun g =>
        g.state.isWaiting && kindAllowed kinds g.kind &&
          decide (StrictlyAhead agingIncrement now g target))) := by
  unfold queueRankAt
  rw [Table.find?_key htarget]
  dsimp only
  rw [if_pos hwaiting]
  congr 1
  refine List.countP_congr (fun g hg => ?_)
  simp only [strictlyAhead_iff (hpast g hg) (hpast target htarget),
    Bool.decide_or, Bool.decide_and]

/-- How much later a job may have been queued and still be ahead. -/
theorem queued_le_of_fairBefore (hg : g.queuedAt ≤ now) (hh : h.queuedAt ≤ now)
    {highest : Int} (hrate : 0 < agingIncrement) (hhighest : g.priority ≤ highest)
    (hbefore : FairBefore agingIncrement now g h) :
    totalSeconds g.queuedAt ≤
      totalSeconds h.queuedAt + 60 * (highest - h.priority) / agingIncrement := by
  have hle : agedPriorityAt agingIncrement now h ≤
      agedPriorityAt agingIncrement now g := by
    rcases (fairBefore_iff hg hh).mp hbefore with hlt | ⟨heq, -⟩
    · exact hlt.le
    · exact heq.symm.le
  rw [agedPriorityAt_eq_aged, agedPriorityAt_eq_aged] at hle
  have hcame := came_le_of_aged_le (by linarith : 0 < agingIncrement / 60)
    (by exact_mod_cast hhighest : (g.priority : Rat) ≤ highest) hle
  have hminutes : ((highest : Rat) - h.priority) / (agingIncrement / 60) =
      60 * (highest - h.priority) / agingIncrement := by
    rw [div_div_eq_mul_div, mul_comm]
  rwa [hminutes] at hcame

/-- **The aging order.**  The claims, `queue_rank` and `effective_priority` order the
rows alike; the order does not change with time; and a job is overtaken only by those
that are queued within a time that its priority and the highest one fix. -/
theorem aging_order (agingIncrement : Rat) (now : DateTime) (q : PostgresJobQueue)
    (hpast : ∀ g ∈ q.generationJobs, g.queuedAt ≤ now) :
    AgingOrder agingIncrement now q := by
  constructor
  case fair =>
    intro g h hg hh
    exact (fairBefore_iff (hpast g hg) (hpast h hh)).symm
  case sorted =>
    intro p
    have hsame := List.map_insertionSort (ClaimsBeforeAt agingIncrement now)
      (FairBefore agingIncrement now) id (q.generationJobs.rows.filter p)
      (fun g hg h hh => (fairBefore_iff (hpast g (List.mem_of_mem_filter hg))
        (hpast h (List.mem_of_mem_filter hh))).symm)
    rwa [List.map_id, List.map_id] at hsame
  case steady =>
    intro later g h hlater hg hh
    rw [fairBefore_iff (hpast g hg) (hpast h hh),
      fairBefore_iff (hlater g hg) (hlater h hh)]
    exact claimsBeforeAt_iff now later
  case ranked =>
    intro target kinds htarget hwaiting
    exact queueRankAt_eq hpast kinds htarget hwaiting
  case bounded =>
    intro g h highest hrate hhighest hg hh hbefore
    exact queued_le_of_fairBefore (hpast g hg) (hpast h hh) hrate (hhighest g hg)
      hbefore
  case waits =>
    intro target highest kinds n hrate hhighest htarget hrank
    have hwaiting : target.state.isWaiting = true := by
      by_contra hleft
      unfold queueRankAt at hrank
      rw [Table.find?_key htarget] at hrank
      simp [hleft] at hrank
    rw [queueRankAt_eq hpast kinds htarget hwaiting, Option.some.injEq] at hrank
    rw [← hrank]
    refine List.countP_mono_left (fun g hg hahead => decide_eq_true ?_)
    rw [Bool.and_eq_true, decide_eq_true_eq] at hahead
    exact queued_le_of_fairBefore (hpast g hg) (hpast target htarget) hrate
      (hhighest g hg) hahead.2.1

end Order

/-- Two jobs, an hour after the first of them came. -/
theorem aging_order_hour :
    (∀ g ∈ twoInDatabase.generationJobs, g.queuedAt ≤ 3600000000) ∧
      AgingOrder agingIncrementPerMinute 3600000000 twoInDatabase := by
  have hpast : ∀ g ∈ twoInDatabase.generationJobs, g.queuedAt ≤ 3600000000 := by
    show ∀ g ∈ twoInDatabase.generationJobs.rows, g.queuedAt ≤ 3600000000
    decide +kernel
  exact ⟨hpast, aging_order agingIncrementPerMinute 3600000000 twoInDatabase hpast⟩

end PostgresJobQueue

end Imagin4.Ports
