import Mathlib.Data.List.Basic
import Mathlib.Order.Lattice

/-!
# Keyset positions in an increasing list

A position is the key of the last element that has been taken, or nothing at the
beginning.  It does not depend on how long the list is, so that it stays good while
the list grows at its end.

## Main results

* `after_split` — behind the position of a prefix lies the rest.
* `increasing_append` — growing at the end.
-/

namespace Imagin4.Verified.Keyset

universe u v

variable {α : Type u} {κ : Type v} [LinearOrder κ] (key : α → κ)

/-- The keys grow strictly. -/
def Increasing (xs : List α) : Prop := xs.Pairwise (fun x y => key x < key y)

/-- The element lies behind the position. -/
def isAfter (position : Option κ) (x : α) : Bool :=
  match position with
  | none => true
  | some k => k < key x

/-- The position behind some elements. -/
def position (xs : List α) : Option κ := xs.getLast?.map key

variable {key}

theorem key_lt_of_getLast? {xs : List α} (h : Increasing key xs) {last : α}
    (hlast : xs.getLast? = some last) : ∀ x ∈ xs, key x ≤ key last := by
  intro x hx
  obtain ⟨init, rfl⟩ := List.getLast?_eq_some_iff.mp hlast
  rcases List.mem_append.mp hx with hinit | hx
  · exact le_of_lt ((List.pairwise_append.mp h).2.2 x hinit last
      (List.mem_singleton.mpr rfl))
  · rw [List.mem_singleton.mp hx]

/-- Behind the position of a prefix lies the rest. -/
theorem after_split {taken rest : List α} (h : Increasing key (taken ++ rest)) :
    (taken ++ rest).filter (isAfter key (position key taken)) = rest := by
  obtain ⟨htaken, _, hacross⟩ := List.pairwise_append.mp h
  unfold position
  cases hlast : taken.getLast? with
  | none =>
      obtain rfl : taken = [] := List.getLast?_eq_none_iff.mp hlast
      exact List.filter_eq_self.mpr (fun _ _ => rfl)
  | some last =>
      have hmem : last ∈ taken := List.mem_of_getLast? hlast
      have hbefore : taken.filter (isAfter key (some (key last))) = [] := by
        refine List.filter_eq_nil_iff.mpr (fun x hx hafter => ?_)
        exact absurd (key_lt_of_getLast? htaken hlast x hx)
          (not_le_of_gt (of_decide_eq_true hafter))
      have hbehind : rest.filter (isAfter key (some (key last))) = rest :=
        List.filter_eq_self.mpr
          (fun x hx => decide_eq_true (hacross last hmem x hx))
      rw [Option.map_some, List.filter_append, hbefore, hbehind, List.nil_append]

theorem increasing_append {xs : List α} (h : Increasing key xs) {x : α}
    (hx : ∀ y ∈ xs, key y < key x) : Increasing key (xs ++ [x]) := by
  refine List.pairwise_append.mpr ⟨h, List.pairwise_singleton _ _, ?_⟩
  intro y hy z hz
  rw [List.mem_singleton.mp hz]
  exact hx y hy

end Imagin4.Verified.Keyset
