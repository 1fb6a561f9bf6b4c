import Mathlib.Algebra.Order.Floor.Ring
import Mathlib.Data.List.Count
import Mathlib.Tactic.Linarith
import Mathlib.Tactic.Ring

/-!
# Fixed windows and quotas

Time is cut into windows of one length, numbered through the origin.  A quota grants
the first so many calls of a class, where what a call's class is may be left open:
such a call is granted and not counted.

## Main results

* `window_eq_iff` — the window of a time by its ends.
* `window_add_wait` — one window after another, from anywhere in the first.
* `Quota.grants_answersOf` — the calls of one class are answered by their number alone,
  whatever calls of other classes come between them.
-/

namespace Imagin4.Verified

universe u v

/-! ## Windows -/

section Windows

variable {K : Type u} [Field K] [LinearOrder K] [FloorRing K]

/-- The number of the window that a time is in. -/
def window (length time : K) : Int := ⌊time / length⌋

variable [IsStrictOrderedRing K] {length time : K}

theorem window_eq_iff (hLength : 0 < length) {w : Int} :
    window length time = w ↔ w * length ≤ time ∧ time < (w + 1) * length := by
  rw [window, Int.floor_eq_iff, le_div_iff₀ hLength, div_lt_iff₀ hLength]

theorem window_start_le (hLength : 0 < length) :
    window length time * length ≤ time :=
  ((window_eq_iff hLength).mp rfl).1

theorem lt_window_end (hLength : 0 < length) :
    time < (window length time + 1) * length :=
  ((window_eq_iff hLength).mp rfl).2

theorem window_mono (hLength : 0 < length) {later : K} (h : time ≤ later) :
    window length time ≤ window length later :=
  Int.floor_le_floor (div_le_div_of_nonneg_right h hLength.le)

/-- A wait that ends within the next window. -/
theorem window_add_wait (hLength : 0 < length) {wait : K}
    (hLate : (window length time + 1) * length ≤ time + wait)
    (hSoon : time + wait < (window length time + 2) * length) :
    window length (time + wait) = window length time + 1 := by
  rw [window_eq_iff hLength]
  push_cast
  constructor
  · exact hLate
  · linarith

end Windows

/-! ## Quotas -/

section Quotas

variable {α : Type u} {κ : Type v} [DecidableEq κ]

/-- The class of a call, if it is counted, and its quota. -/
structure Quota (α : Type u) (κ : Type v) where
  classOf : α → Option κ
  quota : α → Int

variable (q : Quota α κ)

/-- The number of calls of a class. -/
def Quota.count (k : κ) (calls : List α) : Nat :=
  calls.countP (fun call => decide (q.classOf call = some k))

/-- The answer to a call after others. -/
def Quota.grant (before : List α) (call : α) : Bool :=
  match q.classOf call with
  | none => true
  | some k => decide ((q.count k before : Int) < q.quota call)

/-- The answers to calls, one after another. -/
def Quota.grants : List α → List α → List Bool
  | _, [] => []
  | before, call :: calls =>
      q.grant before call :: Quota.grants (before ++ [call]) calls

/-- The answers to the calls that meet `p`. -/
def answersOf (p : α → Bool) (calls : List α) (answers : List Bool) : List Bool :=
  ((calls.zip answers).filter (fun answered => p answered.1)).map Prod.snd

variable {q}

theorem Quota.count_append (k : κ) (before : List α) (call : α) :
    q.count k (before ++ [call]) =
      q.count k before + if q.classOf call = some k then 1 else 0 := by
  simp [Quota.count, List.countP_append, List.countP_singleton]

theorem answersOf_cons (p : α → Bool) (call : α) (calls : List α) (answer : Bool)
    (answers : List Bool) :
    answersOf p (call :: calls) (answer :: answers) =
      if p call = true then answer :: answersOf p calls answers
      else answersOf p calls answers := by
  by_cases hp : p call = true <;> simp [answersOf, hp]

theorem Quota.grant_of_class {k : κ} {before : List α} {call : α}
    (h : q.classOf call = some k) :
    q.grant before call = decide ((q.count k before : Int) < q.quota call) := by
  simp only [Quota.grant, h]

/-- The first `limit` calls of a class are granted, and no more. -/
theorem Quota.grants_answersOf {k : κ} {limit : Int} {p : α → Bool} (calls : List α) :
    ∀ before : List α,
      (∀ call ∈ calls, p call = true ↔ q.classOf call = some k) →
      (∀ call ∈ calls, p call = true → q.quota call = limit) →
      answersOf p calls (q.grants before calls) =
        (List.range' (q.count k before) (calls.countP p)).map
          (fun number : Nat => decide ((number : Int) < limit)) := by
  induction calls with
  | nil =>
      intro before _ _
      rfl
  | cons call calls ih =>
      intro before hClass hQuota
      have hRest := ih (before ++ [call])
        (fun other hOther => hClass other (List.mem_cons_of_mem _ hOther))
        (fun other hOther => hQuota other (List.mem_cons_of_mem _ hOther))
      rw [Quota.count_append] at hRest
      rw [Quota.grants, answersOf_cons, List.countP_cons, hRest]
      by_cases hp : p call = true
      · have hCall : q.classOf call = some k := (hClass call (by simp)).mp hp
        have hLimit : q.quota call = limit := hQuota call (by simp) hp
        simp only [if_pos hp, if_pos hCall, Quota.grant_of_class hCall, hLimit,
          List.range'_succ, List.map_cons]
      · have hCall : ¬ q.classOf call = some k :=
          fun h => hp ((hClass call (by simp)).mpr h)
        simp only [if_neg hp, if_neg hCall, Nat.add_zero]

end Quotas

end Imagin4.Verified
