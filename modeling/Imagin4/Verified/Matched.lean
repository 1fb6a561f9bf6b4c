import Mathlib.Data.Option.Basic
import Imagin4.Verified.Table

/-!
# Two tables that hold the same

Two tables with the same kind of key match if under every key both have a row or
neither has, and the two rows are related.  Whatever the related rows agree about,
the tables agree about as a whole, up to the order of their rows.

## Main results

* `Matched.perm` — what related rows show alike, the tables show alike.
* `Matched.countP` — so counts are the same.
* `Matched.find?` — and so is the one row that meets a condition.
-/

namespace Imagin4.Verified.Table

universe u v

variable {ρ ρ' : Type u} {κ : Type v} [DecidableEq κ] {key : ρ → κ} {key' : ρ' → κ}

/-- Under every key, two related rows or none. -/
def Matched (rel : κ → ρ → ρ' → Prop) (t : Table key) (u : Table key') : Prop :=
  ∀ k, Option.Rel (rel k) (t.find? k) (u.find? k)

namespace Matched

variable {rel : κ → ρ → ρ' → Prop} {t : Table key} {u : Table key'}

theorem of_some (h : Matched rel t u) {k : κ} {r : ρ} (hr : t.find? k = some r) :
    ∃ s, u.find? k = some s ∧ rel k r s := by
  have hk := h k
  rw [hr] at hk
  cases hs : u.find? k with
  | none =>
      rw [hs] at hk
      cases hk
  | some s =>
      rw [hs] at hk
      cases hk with
      | some hrel => exact ⟨s, rfl, hrel⟩

theorem of_some' (h : Matched rel t u) {k : κ} {s : ρ'} (hs : u.find? k = some s) :
    ∃ r, t.find? k = some r ∧ rel k r s := by
  have hk := h k
  rw [hs] at hk
  cases hr : t.find? k with
  | none =>
      rw [hr] at hk
      cases hk
  | some r =>
      rw [hr] at hk
      cases hk with
      | some hrel => exact ⟨r, rfl, hrel⟩

/-- Two rows that are matched. -/
def Pair (rel : κ → ρ → ρ' → Prop) (key : ρ → κ) (key' : ρ' → κ) (r : ρ) (s : ρ') :
    Prop :=
  key r = key' s ∧ rel (key r) r s

/-- The row a row is matched with. -/
theorem exists_right (h : Matched rel t u) {r : ρ} (hr : r ∈ t) :
    ∃ s ∈ u, Pair rel key key' r s := by
  obtain ⟨s, hs, hrel⟩ := h.of_some (find?_key hr)
  obtain ⟨hmem, hkey⟩ := find?_eq_some_iff.mp hs
  exact ⟨s, hmem, hkey.symm, hrel⟩

theorem exists_left (h : Matched rel t u) {s : ρ'} (hs : s ∈ u) :
    ∃ r ∈ t, Pair rel key key' r s := by
  obtain ⟨r, hr, hrel⟩ := h.of_some' (find?_key hs)
  obtain ⟨hmem, hkey⟩ := find?_eq_some_iff.mp hr
  exact ⟨r, hmem, hkey, hkey ▸ hrel⟩

variable {p : ρ → Bool} {q : ρ' → Bool}

/-- The keys of the rows that meet a condition both sides see alike. -/
theorem perm_keys (h : Matched rel t u)
    (hpq : ∀ r s, Pair rel key key' r s → p r = q s) :
    ((t.rows.filter p).map key).Perm ((u.rows.filter q).map key') := by
  have hleft : ((t.rows.filter p).map key).Nodup :=
    t.nodup.sublist (List.filter_sublist.map _)
  have hright : ((u.rows.filter q).map key').Nodup :=
    u.nodup.sublist (List.filter_sublist.map _)
  refine (List.perm_ext_iff_of_nodup hleft hright).mpr (fun k => ?_)
  simp only [List.mem_map, List.mem_filter]
  constructor
  · rintro ⟨r, ⟨hr, hp⟩, rfl⟩
    obtain ⟨s, hs, hpair⟩ := h.exists_right hr
    exact ⟨s, ⟨hs, hpq _ _ hpair ▸ hp⟩, hpair.1.symm⟩
  · rintro ⟨s, ⟨hs, hq⟩, rfl⟩
    obtain ⟨r, hr, hpair⟩ := h.exists_left hs
    exact ⟨r, ⟨hr, (hpq _ _ hpair).trans hq⟩, hpair.1⟩

/-- What related rows show alike, the tables show alike. -/
theorem perm {ω : Type*} (h : Matched rel t u)
    (hpq : ∀ r s, Pair rel key key' r s → p r = q s) {view : ρ → ω} {view' : ρ' → ω}
    (hview : ∀ r s, Pair rel key key' r s → view r = view' s) :
    ((t.rows.filter p).map view).Perm ((u.rows.filter q).map view') := by
  have hleft : ∀ r ∈ t.rows.filter p,
      (t.find? (key r)).map view = some (view r) := by
    intro r hr
    rw [find?_key (List.mem_of_mem_filter hr)]
    rfl
  have hright : ∀ s ∈ u.rows.filter q,
      (t.find? (key' s)).map view = some (view' s) := by
    intro s hs
    obtain ⟨r, hr, hpair⟩ := h.exists_left (List.mem_of_mem_filter hs)
    rw [← hpair.1, find?_key hr]
    exact congrArg some (hview r s hpair)
  have hkeys := (h.perm_keys hpq).filterMap (fun k => (t.find? k).map view)
  rw [List.filterMap_map, List.filterMap_map] at hkeys
  have hl : (t.rows.filter p).filterMap ((fun k => (t.find? k).map view) ∘ key) =
      (t.rows.filter p).map view := by
    rw [← List.filterMap_eq_map]
    exact List.filterMap_congr hleft
  have hr : (u.rows.filter q).filterMap ((fun k => (t.find? k).map view) ∘ key') =
      (u.rows.filter q).map view' := by
    rw [← List.filterMap_eq_map]
    exact List.filterMap_congr hright
  rwa [hl, hr] at hkeys

theorem countP (h : Matched rel t u)
    (hpq : ∀ r s, Pair rel key key' r s → p r = q s) :
    t.rows.countP p = u.rows.countP q := by
  have hlength := (h.perm_keys hpq).length_eq
  rwa [List.length_map, List.length_map, ← List.countP_eq_length_filter,
    ← List.countP_eq_length_filter] at hlength

/-- The one row that meets a condition is matched with the one that meets it on the
other side. -/
theorem find? (h : Matched rel t u) (hpq : ∀ r s, Pair rel key key' r s → p r = q s)
    (hone : ∀ r ∈ t, ∀ s ∈ t, p r = true → p s = true → r = s) :
    Option.Rel (Pair rel key key') (t.rows.find? p) (u.rows.find? q) := by
  cases hr : t.rows.find? p with
  | none =>
      have hnone : u.rows.find? q = none := by
        refine List.find?_eq_none.mpr (fun s hs hq => ?_)
        obtain ⟨r, hmem, hpair⟩ := h.exists_left hs
        exact List.find?_eq_none.mp hr r hmem ((hpq _ _ hpair).trans hq)
      rw [hnone]
      exact .none
  | some r =>
      have hmem : r ∈ t := List.mem_of_find?_eq_some hr
      have hp := List.find?_some hr
      cases hs : u.rows.find? q with
      | none =>
          obtain ⟨s, hmem', hpair⟩ := h.exists_right hmem
          exact absurd (hpq _ _ hpair ▸ hp) (List.find?_eq_none.mp hs s hmem')
      | some s =>
          obtain ⟨r', hmem', hpair⟩ := h.exists_left (List.mem_of_find?_eq_some hs)
          have hq := List.find?_some hs
          obtain rfl : r' = r :=
            hone r' hmem' r hmem ((hpq _ _ hpair).trans hq) hp
          exact .some hpair

end Matched

end Imagin4.Verified.Table
