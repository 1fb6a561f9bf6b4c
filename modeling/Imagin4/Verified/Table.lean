import Mathlib.Data.List.Nodup
import Mathlib.Data.List.Perm.Subperm

/-!
# Keyed tables

A `Table key` is a list of rows no two of which share a key: an
insertion-ordered dictionary whose values carry their own key, or a database
table with a unique index.  The uniqueness is a field, so a table with a
duplicate cannot be built and no later proof has to re-establish it.

The three ways the rows of a table change are

* `modifyWhere p f` — an `UPDATE … WHERE p` by a key-preserving `f`,
* `modify k f` — the same for the one row under `k`,
* `put r` — insert `r`, or replace the row that has its key.

## Main results

* `find?_eq_some_iff` — a lookup is membership plus the key.
* `find?_modifyWhere`, `find?_modify`, `find?_put` — what a lookup sees after
  a change: only the rows the change is about are different.
* `modifyWhere_eq_put`, `modify_eq_put` — an update of one row puts its new
  version.
* `find?_slice`, `slice_put`, `slice_put_of_not` — the rows of one kind, seen
  through a view, are a table of their own.
* `countP_modifyWhere_le` — an update that gives no row a property does not
  raise the number of rows that have it.
* `countP_modifyWhere_mem_le` — an update of the rows under some keys raises
  it by at most the number of keys.
-/

namespace Imagin4.Verified

universe u v

/-- Rows in insertion order, with pairwise distinct keys. -/
structure Table {ρ : Type u} {κ : Type v} (key : ρ → κ) where
  rows : List ρ
  nodup : (rows.map key).Nodup

namespace Table

variable {ρ : Type u} {κ : Type v} {key : ρ → κ}

/-- The table without rows. -/
def empty : Table key := ⟨[], List.nodup_nil⟩

@[simp] theorem rows_empty : (empty : Table key).rows = [] := rfl

instance : Membership ρ (Table key) := ⟨fun t r => r ∈ t.rows⟩

theorem mem_def {t : Table key} {r : ρ} : r ∈ t ↔ r ∈ t.rows := Iff.rfl

/-- Two rows with one key are one row. -/
theorem eq_of_key_eq {t : Table key} {r s : ρ} (hr : r ∈ t) (hs : s ∈ t)
    (h : key r = key s) : r = s :=
  List.inj_on_of_nodup_map t.nodup hr hs h

/-! ## Lookups -/

section Lookup

variable [DecidableEq κ]

/-- The row under a key. -/
def find? (t : Table key) (k : κ) : Option ρ :=
  t.rows.find? (fun r => decide (key r = k))

@[simp] theorem find?_empty (k : κ) : (empty : Table key).find? k = none := rfl

theorem find?_eq_some_iff {t : Table key} {k : κ} {r : ρ} :
    t.find? k = some r ↔ r ∈ t ∧ key r = k := by
  constructor
  · intro h
    exact ⟨List.mem_of_find?_eq_some h,
      by simpa using List.find?_some h⟩
  · rintro ⟨hr, hk⟩
    cases hfind : t.find? k with
    | none =>
        have hnone := List.find?_eq_none.mp hfind r hr
        exact absurd hk (by simpa using hnone)
    | some s =>
        have hs : s ∈ t := List.mem_of_find?_eq_some hfind
        have hks : key s = k := by simpa using List.find?_some hfind
        rw [eq_of_key_eq hs hr (hks.trans hk.symm)]

theorem find?_eq_none_iff {t : Table key} {k : κ} :
    t.find? k = none ↔ ∀ r ∈ t, key r ≠ k := by
  simp [find?, mem_def]

theorem find?_key {t : Table key} {r : ρ} (hr : r ∈ t) :
    t.find? (key r) = some r :=
  find?_eq_some_iff.mpr ⟨hr, rfl⟩

theorem key_of_find? {t : Table key} {k : κ} {r : ρ}
    (h : t.find? k = some r) : key r = k :=
  (find?_eq_some_iff.mp h).2

end Lookup

/-! ## Updates in place -/

/-- Rewrites every row that meets `p`.  The rewriting keeps keys. -/
def modifyWhere (t : Table key) (p : ρ → Bool) (f : ρ → ρ)
    (hf : ∀ r, key (f r) = key r) : Table key where
  rows := t.rows.map (fun r => if p r then f r else r)
  nodup := by
    have hkeys : (t.rows.map (fun r => if p r then f r else r)).map key =
        t.rows.map key := by
      rw [List.map_map]
      refine List.map_congr_left (fun r _ => ?_)
      by_cases hp : p r <;> simp [hp, hf]
    rw [hkeys]
    exact t.nodup

theorem mem_modifyWhere {t : Table key} {p : ρ → Bool} {f : ρ → ρ}
    {hf : ∀ r, key (f r) = key r} {s : ρ} :
    s ∈ t.modifyWhere p f hf ↔
      ∃ r ∈ t, (if p r then f r else r) = s := by
  simp [mem_def, modifyWhere]

theorem find?_modifyWhere [DecidableEq κ] (t : Table key) (p : ρ → Bool)
    (f : ρ → ρ) (hf : ∀ r, key (f r) = key r) (k : κ) :
    (t.modifyWhere p f hf).find? k =
      (t.find? k).map (fun r => if p r then f r else r) := by
  have hkey : ∀ r, key (if p r then f r else r) = key r := by
    intro r
    by_cases hp : p r <;> simp [hp, hf]
  cases hfind : t.find? k with
  | none =>
      rw [Option.map_none, find?_eq_none_iff]
      intro s hs
      obtain ⟨r, hr, rfl⟩ := mem_modifyWhere.mp hs
      rw [hkey]
      exact find?_eq_none_iff.mp hfind r hr
  | some r =>
      obtain ⟨hr, hk⟩ := find?_eq_some_iff.mp hfind
      rw [Option.map_some, find?_eq_some_iff]
      exact ⟨mem_modifyWhere.mpr ⟨r, hr, rfl⟩, by rw [hkey, hk]⟩

section Modify

variable [DecidableEq κ]

/-- Rewrites the row under `k`, if there is one. -/
def modify (t : Table key) (k : κ) (f : ρ → ρ)
    (hf : ∀ r, key (f r) = key r) : Table key :=
  t.modifyWhere (fun r => decide (key r = k)) f hf

theorem find?_modify (t : Table key) (k k' : κ) (f : ρ → ρ)
    (hf : ∀ r, key (f r) = key r) :
    (t.modify k f hf).find? k' =
      if k' = k then (t.find? k').map f else t.find? k' := by
  rw [modify, find?_modifyWhere]
  cases hfind : t.find? k' with
  | none => simp
  | some r =>
      have hk := key_of_find? hfind
      by_cases h : k' = k <;> simp [hk, h]

end Modify

/-- Tables with the same rows are the same. -/
theorem ext_rows {t u : Table key} (h : t.rows = u.rows) : t = u := by
  cases t
  cases u
  cases h
  rfl

/-- An update that meets no row changes nothing. -/
theorem modifyWhere_eq_self {t : Table key} {p : ρ → Bool} {f : ρ → ρ}
    {hf : ∀ r, key (f r) = key r} (h : ∀ r ∈ t, p r = false) :
    t.modifyWhere p f hf = t := by
  apply ext_rows
  show t.rows.map (fun r => if p r then f r else r) = t.rows
  conv_rhs => rw [← List.map_id t.rows]
  refine List.map_congr_left (fun r hr => ?_)
  rw [h r hr]
  rfl

/-! ## Rewriting -/

/-- `u` is `t` with every row rewritten, and what `view` shows of a row kept. -/
def Rewritten {ω : Type*} (view : ρ → ω) (t u : Table key) : Prop :=
  ∃ f : ρ → ρ, (∀ r, view (f r) = view r) ∧ u.rows = t.rows.map f

section Rewritten

variable {ω : Type*} {view : ρ → ω} {t u v : Table key}

theorem Rewritten.refl (view : ρ → ω) (t : Table key) : Rewritten view t t :=
  ⟨id, fun _ => rfl, (List.map_id t.rows).symm⟩

theorem Rewritten.trans (h : Rewritten view t u) (h' : Rewritten view u v) :
    Rewritten view t v := by
  obtain ⟨f, hf, hu⟩ := h
  obtain ⟨g, hg, hv⟩ := h'
  exact ⟨g ∘ f, fun r => (hg (f r)).trans (hf r), by rw [hv, hu, List.map_map]⟩

/-- What shows more shows less. -/
theorem Rewritten.weaken {ω' : Type*} {view' : ρ → ω'} (g : ω → ω')
    (hg : ∀ r, view' r = g (view r)) (h : Rewritten view t u) :
    Rewritten view' t u := by
  obtain ⟨f, hf, hu⟩ := h
  exact ⟨f, fun r => by rw [hg, hg, hf], hu⟩

theorem rewritten_modifyWhere {p : ρ → Bool} {f : ρ → ρ}
    (hf : ∀ r, key (f r) = key r) (hview : ∀ r, view (f r) = view r) :
    Rewritten view t (t.modifyWhere p f hf) := by
  refine ⟨fun r => if p r then f r else r, fun r => ?_, rfl⟩
  by_cases hp : p r
  · simp only [if_pos hp, hview r]
  · simp only [if_neg hp]

/-- What a row shows is there after the rewriting as before. -/
theorem Rewritten.map_view (h : Rewritten view t u) :
    u.rows.map view = t.rows.map view := by
  obtain ⟨f, hf, hu⟩ := h
  rw [hu, List.map_map]
  exact List.map_congr_left (fun r _ => hf r)

/-- The rows after a rewriting. -/
theorem Rewritten.exists_of_mem (h : Rewritten view t u) :
    ∃ f : ρ → ρ, (∀ r, view (f r) = view r) ∧
      ∀ r, r ∈ u ↔ ∃ s ∈ t, f s = r := by
  obtain ⟨f, hf, hu⟩ := h
  exact ⟨f, hf, fun r => by rw [mem_def, hu, List.mem_map]; rfl⟩

end Rewritten

/-! ## Insertion -/

section Put

variable [DecidableEq κ]

/-- Inserts a row at the end, or replaces the row that has its key. -/
def put (t : Table key) (r : ρ) : Table key :=
  if h : key r ∈ t.rows.map key then
    t.modifyWhere (fun s => decide (key s = key r))
      (fun s => if key s = key r then r else s)
      (fun s => by by_cases hs : key s = key r <;> simp [hs])
  else
    ⟨t.rows ++ [r], by
      rw [List.map_append, List.nodup_append]
      refine ⟨t.nodup, by simp, ?_⟩
      rintro k hk k' hk' rfl
      obtain rfl : k = key r := by simpa using hk'
      exact h hk⟩

theorem find?_put (t : Table key) (r : ρ) (k : κ) :
    (t.put r).find? k = if k = key r then some r else t.find? k := by
  unfold put
  split
  · rename_i h
    rw [find?_modifyWhere]
    cases hfind : t.find? k with
    | none =>
        have hne : k ≠ key r := by
          rintro rfl
          obtain ⟨s, hs, hks⟩ := List.mem_map.mp h
          exact find?_eq_none_iff.mp hfind s hs hks
        simp [hne]
    | some s =>
        have hk := key_of_find? hfind
        by_cases hkr : k = key r <;> simp [hk, hkr]
  · rename_i h
    by_cases hk : k = key r
    · rw [if_pos hk, find?_eq_some_iff]
      exact ⟨by simp [mem_def], hk.symm⟩
    · rw [if_neg hk, find?, List.find?_append]
      have hr : [r].find? (fun s => decide (key s = k)) = none := by
        simp [Ne.symm hk]
      rw [hr, Option.or_none]
      rfl

/-- An update that meets one row puts the new version of it. -/
theorem modifyWhere_eq_put {t : Table key} {p : ρ → Bool} {f : ρ → ρ}
    {hf : ∀ r, key (f r) = key r} {r : ρ} (hr : r ∈ t) (hp : p r = true)
    (hone : ∀ s ∈ t, p s = true → s = r) :
    t.modifyWhere p f hf = t.put (f r) := by
  have hmem : key (f r) ∈ t.rows.map key := by
    rw [hf]
    exact List.mem_map_of_mem hr
  apply ext_rows
  rw [put, dif_pos hmem]
  show t.rows.map (fun s => if p s then f s else s) = t.rows.map _
  refine List.map_congr_left (fun s hs => ?_)
  by_cases hsr : s = r
  · simp [hsr, hp, hf]
  · have hps : p s = false := by
      cases hps : p s with
      | false => rfl
      | true => exact absurd (hone s hs hps) hsr
    have hks : key s ≠ key (f r) := by
      rw [hf]
      exact fun h => hsr (eq_of_key_eq hs hr h)
    simp [hps, hks]

/-- The same for the row under a key. -/
theorem modify_eq_put {t : Table key} {k : κ} {f : ρ → ρ}
    {hf : ∀ r, key (f r) = key r} {r : ρ} (h : t.find? k = some r) :
    t.modify k f hf = t.put (f r) := by
  obtain ⟨hr, hk⟩ := find?_eq_some_iff.mp h
  refine modifyWhere_eq_put hr (by simp [hk]) (fun s hs hs' => ?_)
  have hks : key s = k := of_decide_eq_true hs'
  exact eq_of_key_eq hs hr (hks.trans hk.symm)

theorem mem_put {t : Table key} {r s : ρ} :
    s ∈ t.put r ↔ s = r ∨ (s ∈ t ∧ key s ≠ key r) := by
  have hfind := t.find?_put r (key s)
  constructor
  · intro hs
    rw [find?_key hs] at hfind
    by_cases hk : key s = key r
    · rw [if_pos hk] at hfind
      exact Or.inl (Option.some.inj hfind)
    · rw [if_neg hk] at hfind
      exact Or.inr ⟨(find?_eq_some_iff.mp hfind.symm).1, hk⟩
  · rintro (rfl | ⟨hs, hk⟩)
    · rw [if_pos rfl] at hfind
      exact (find?_eq_some_iff.mp hfind).1
    · rw [if_neg hk, find?_key hs] at hfind
      exact (find?_eq_some_iff.mp hfind).1

theorem rows_put_of_mem {t : Table key} {r : ρ} (h : key r ∈ t.rows.map key) :
    (t.put r).rows = t.rows.map (fun s => if key s = key r then r else s) := by
  rw [put, dif_pos h]
  refine List.map_congr_left (fun s _ => ?_)
  by_cases hs : key s = key r <;> simp [hs]

theorem rows_put_of_not_mem {t : Table key} {r : ρ}
    (h : key r ∉ t.rows.map key) : (t.put r).rows = t.rows ++ [r] := by
  rw [put, dif_neg h]

/-- A row under a new key goes to the end. -/
theorem rows_put_of_find?_none {t : Table key} {r : ρ}
    (h : t.find? (key r) = none) : (t.put r).rows = t.rows ++ [r] := by
  refine rows_put_of_not_mem (fun hmem => ?_)
  obtain ⟨s, hs, hks⟩ := List.mem_map.mp hmem
  exact find?_eq_none_iff.mp h s hs hks

/-- Putting the row that is there changes nothing. -/
theorem put_eq_self {t : Table key} {r : ρ} (h : t.find? (key r) = some r) :
    t.put r = t := by
  have hr : r ∈ t := (find?_eq_some_iff.mp h).1
  apply ext_rows
  rw [rows_put_of_mem (List.mem_map_of_mem hr)]
  conv_rhs => rw [← List.map_id t.rows]
  refine List.map_congr_left (fun s hs => ?_)
  by_cases hk : key s = key r
  · rw [if_pos hk, eq_of_key_eq hs hr hk]
    rfl
  · rw [if_neg hk]
    rfl

end Put

/-! ## Slices -/

section Slice

variable {ρ' : Type*} {κ' : Type*} {key' : ρ' → κ'}

/-- The rows that meet `p`, as seen through a view that tells their keys
apart. -/
def slice (t : Table key) (p : ρ → Bool) (view : ρ → ρ')
    (hview : ∀ r s, p r = true → p s = true →
      key' (view r) = key' (view s) → key r = key s) : Table key' where
  rows := (t.rows.filter p).map view
  nodup := by
    rw [List.map_map]
    refine List.Nodup.map_on (fun r hr s hs h => ?_) ?_
    · obtain ⟨hr, hpr⟩ := List.mem_filter.mp hr
      obtain ⟨hs, hps⟩ := List.mem_filter.mp hs
      exact eq_of_key_eq hr hs (hview r s hpr hps h)
    · exact (List.Nodup.of_map key t.nodup).filter p

variable [DecidableEq κ] [DecidableEq κ'] {p : ρ → Bool} {view : ρ → ρ'}
  {hview : ∀ r s, p r = true → p s = true →
    key' (view r) = key' (view s) → key r = key s}

omit [DecidableEq κ] [DecidableEq κ'] in
theorem mem_slice {t : Table key} {s : ρ'} :
    s ∈ t.slice p view hview ↔ ∃ r ∈ t, p r = true ∧ view r = s := by
  simp [mem_def, slice, and_assoc]

/-- Where the view keeps keys, a lookup in a slice is a lookup in the table. -/
theorem find?_slice {t : Table key} {k : κ} {k' : κ'}
    (hk : ∀ r, p r = true → (key' (view r) = k' ↔ key r = k))
    (hp : ∀ r, key r = k → p r = true) :
    (t.slice p view hview).find? k' = (t.find? k).map view := by
  cases hrow : t.find? k with
  | none =>
      rw [Option.map_none, find?_eq_none_iff]
      intro s hs
      obtain ⟨r, hr, hpr, rfl⟩ := mem_slice.mp hs
      rw [Ne, hk r hpr]
      exact find?_eq_none_iff.mp hrow r hr
  | some r =>
      obtain ⟨hr, hkr⟩ := find?_eq_some_iff.mp hrow
      have hpr := hp r hkr
      exact find?_eq_some_iff.mpr
        ⟨mem_slice.mpr ⟨r, hr, hpr, rfl⟩, (hk r hpr).mpr hkr⟩

/-- A row of the slice is put into it, … -/
theorem slice_put {t : Table key} {r : ρ} (hr : p r = true)
    (hkey : ∀ s, key s = key r → p s = true ∧ key' (view s) = key' (view r)) :
    (t.put r).slice p view hview = (t.slice p view hview).put (view r) := by
  apply ext_rows
  by_cases hmem : key r ∈ t.rows.map key
  · have hmem' : key' (view r) ∈ (t.slice p view hview).rows.map key' := by
      obtain ⟨s, hs, hks⟩ := List.mem_map.mp hmem
      obtain ⟨hps, hview'⟩ := hkey s hks
      rw [← hview']
      exact List.mem_map_of_mem (mem_slice.mpr ⟨s, hs, hps, rfl⟩)
    rw [rows_put_of_mem hmem']
    show ((t.put r).rows.filter p).map view =
      ((t.rows.filter p).map view).map _
    rw [rows_put_of_mem hmem]
    have hlist : ∀ rows : List ρ,
        ((rows.map (fun s => if key s = key r then r else s)).filter p).map
            view =
          ((rows.filter p).map view).map
            (fun s => if key' s = key' (view r) then view r else s) := by
      intro rows
      induction rows with
      | nil => rfl
      | cons s rest ih =>
          by_cases hs : key s = key r
          · obtain ⟨hps, hview'⟩ := hkey s hs
            simp [hs, hr, hps, hview', ih]
          · by_cases hps : p s = true
            · have hne : key' (view s) ≠ key' (view r) :=
                fun h => hs (hview s r hps hr h)
              simp [hs, hps, hne, ih]
            · simp [hs, hps, ih]
    exact hlist t.rows
  · have hmem' : key' (view r) ∉ (t.slice p view hview).rows.map key' := by
      intro h
      obtain ⟨s', hs', hks⟩ := List.mem_map.mp h
      obtain ⟨s, hs, hps, rfl⟩ := mem_slice.mp hs'
      exact hmem (hview s r hps hr hks ▸ List.mem_map_of_mem hs)
    rw [rows_put_of_not_mem hmem']
    show ((t.put r).rows.filter p).map view = _
    rw [rows_put_of_not_mem hmem, List.filter_append, List.map_append]
    simp [slice, hr]

omit [DecidableEq κ'] in
/-- … and a row outside of it leaves it alone. -/
theorem slice_put_of_not {t : Table key} {r : ρ} (hr : p r = false)
    (hkey : ∀ s, key s = key r → p s = false) :
    (t.put r).slice p view hview = t.slice p view hview := by
  apply ext_rows
  show ((t.put r).rows.filter p).map view = (t.rows.filter p).map view
  congr 1
  by_cases hmem : key r ∈ t.rows.map key
  · rw [rows_put_of_mem hmem]
    have hlist : ∀ rows : List ρ,
        (rows.map (fun s => if key s = key r then r else s)).filter p =
          rows.filter p := by
      intro rows
      induction rows with
      | nil => rfl
      | cons s rest ih =>
          by_cases hs : key s = key r
          · simp [hs, hr, hkey s hs, ih]
          · simp [hs, List.filter_cons, ih]
    exact hlist t.rows
  · rw [rows_put_of_not_mem hmem, List.filter_append]
    simp [hr]

end Slice

/-! ## One row after another -/

/-- A loop each of whose steps is about one key only treats every key it comes to
once, on its own, whatever the order. -/
theorem foldl_local {σ α β : Type*} [DecidableEq κ] (look : σ → κ → β)
    (step : σ → α → σ) (about : α → κ) (f : β → β) {I : σ → α → Prop}
    (hstep : ∀ s a k, I s a → look (step s a) k =
      if k = about a then f (look s k) else look s k)
    (hkeep : ∀ s a b, I s a → I s b → about a ≠ about b → I (step s a) b)
    {as : List α} (hnodup : (as.map about).Nodup) :
    ∀ s, (∀ a ∈ as, I s a) → ∀ k, look (as.foldl step s) k =
      if k ∈ as.map about then f (look s k) else look s k := by
  induction as with
  | nil =>
      intro s _ k
      simp
  | cons a rest ih =>
      intro s hs k
      rw [List.map_cons, List.nodup_cons] at hnodup
      have hrest : ∀ b ∈ rest, I (step s a) b := by
        intro b hb
        have hne : about a ≠ about b :=
          fun h => hnodup.1 (h ▸ List.mem_map_of_mem hb)
        exact hkeep s a b (hs a List.mem_cons_self)
          (hs b (List.mem_cons_of_mem a hb)) hne
      rw [List.foldl_cons, ih hnodup.2 _ hrest, hstep s a k (hs a List.mem_cons_self),
        List.map_cons]
      by_cases hk : k = about a
      · subst hk
        simp [hnodup.1]
      · simp [hk]

/-! ## Counting rows -/

/-- An update that gives no row the property does not raise the number of
rows that have it. -/
theorem countP_modifyWhere_le {t : Table key} {p : ρ → Bool} {f : ρ → ρ}
    {hf : ∀ r, key (f r) = key r} {q : ρ → Bool}
    (h : ∀ r ∈ t, p r = true → q (f r) = true → q r = true) :
    (t.modifyWhere p f hf).rows.countP q ≤ t.rows.countP q := by
  rw [modifyWhere, List.countP_map]
  refine List.countP_mono_left (fun r hr => ?_)
  by_cases hp : p r = true
  · simpa [hp] using h r hr hp
  · simp [hp]

/-- There are no more rows under some keys than keys. -/
theorem countP_key_mem_le [DecidableEq κ] (t : Table key) (ks : List κ) :
    t.rows.countP (fun r => decide (key r ∈ ks)) ≤ ks.length := by
  rw [List.countP_eq_length_filter]
  have hnodup : ((t.rows.filter (fun r => decide (key r ∈ ks))).map
      key).Nodup := t.nodup.sublist (List.filter_sublist.map _)
  have hsub : (t.rows.filter (fun r => decide (key r ∈ ks))).map key ⊆ ks := by
    intro k hk
    obtain ⟨r, hr, rfl⟩ := List.mem_map.mp hk
    simpa using (List.mem_filter.mp hr).2
  simpa using (hnodup.subperm hsub).length_le

/-- An update of the rows under some keys raises no count by more than the
number of keys. -/
theorem countP_modifyWhere_mem_le [DecidableEq κ] (t : Table key)
    (ks : List κ) (f : ρ → ρ) (hf : ∀ r, key (f r) = key r) (q : ρ → Bool) :
    (t.modifyWhere (fun r => decide (key r ∈ ks)) f hf).rows.countP q ≤
      t.rows.countP q + ks.length := by
  have hsplit : ∀ rows : List ρ,
      (rows.map (fun r => if decide (key r ∈ ks) then f r else r)).countP q ≤
        rows.countP q + rows.countP (fun r => decide (key r ∈ ks)) := by
    intro rows
    induction rows with
    | nil => exact Nat.le_refl _
    | cons r rest ih =>
        rw [List.map_cons, List.countP_cons, List.countP_cons,
          List.countP_cons]
        by_cases hr : key r ∈ ks
        · simp only [hr, decide_true, if_true]
          split <;> omega
        · simp only [hr, decide_false, Bool.false_eq_true, if_false]
          omega
  have hkeys := t.countP_key_mem_le ks
  refine Nat.le_trans (hsplit t.rows) ?_
  omega

/-- An update under some keys, of rows that have not been counted, counts the rows
under these keys that then have the property. -/
theorem countP_modifyWhere_mem [DecidableEq κ] (t : Table key) (ks : List κ)
    {f : ρ → ρ} (hf : ∀ r, key (f r) = key r) {q : ρ → Bool}
    (h : ∀ r ∈ t, key r ∈ ks → q r = false) :
    (t.modifyWhere (fun r => decide (key r ∈ ks)) f hf).rows.countP q =
      t.rows.countP q +
        (t.rows.filter (fun r => decide (key r ∈ ks))).countP (fun r => q (f r)) := by
  have hsplit : ∀ rows : List ρ, (∀ r ∈ rows, key r ∈ ks → q r = false) →
      (rows.map (fun r => if decide (key r ∈ ks) then f r else r)).countP q =
        rows.countP q + (rows.filter (fun r => decide (key r ∈ ks))).countP
          (fun r => q (f r)) := by
    intro rows hrows
    induction rows with
    | nil => rfl
    | cons r rest ih =>
        have hrest := ih (fun r hr => hrows r (List.mem_cons_of_mem _ hr))
        rw [List.map_cons, List.countP_cons, List.countP_cons, hrest]
        by_cases hr : key r ∈ ks
        · rw [List.filter_cons_of_pos (by simpa using hr), List.countP_cons,
            hrows r List.mem_cons_self hr]
          simp only [hr, decide_true, if_true, Bool.false_eq_true, if_false]
          omega
        · rw [List.filter_cons_of_neg (by simpa using hr)]
          simp only [hr, decide_false, Bool.false_eq_true, if_false]
          omega
  exact hsplit t.rows h

/-- Some rows of a table, looked up by their keys. -/
theorem filter_key_mem_perm [DecidableEq κ] (t : Table key) {rows : List ρ}
    (hkeys : (rows.map key).Nodup) (hrows : ∀ r ∈ rows, r ∈ t) :
    (t.rows.filter (fun r => decide (key r ∈ rows.map key))).Perm rows := by
  have hnodup : t.rows.Nodup := t.nodup.of_map
  refine (List.perm_ext_iff_of_nodup (hnodup.filter _) hkeys.of_map).mpr
    (fun r => ?_)
  rw [List.mem_filter, decide_eq_true_eq]
  constructor
  · rintro ⟨hr, hkey⟩
    obtain ⟨s, hs, hsr⟩ := List.mem_map.mp hkey
    rwa [eq_of_key_eq (hrows s hs) hr hsr] at hs
  · intro hr
    exact ⟨hrows r hr, List.mem_map_of_mem hr⟩

/-! ## Restrictions -/

section Restrict

/-- The rows that meet `p`. -/
def restrict (t : Table key) (p : ρ → Bool) : Table key :=
  ⟨t.rows.filter p, t.nodup.sublist (List.filter_sublist.map key)⟩

variable {p : ρ → Bool}

theorem mem_restrict {t : Table key} {r : ρ} :
    r ∈ t.restrict p ↔ r ∈ t ∧ p r = true := List.mem_filter

variable [DecidableEq κ]

/-- A lookup finds the row if it meets `p`. -/
theorem find?_restrict (t : Table key) (k : κ) :
    (t.restrict p).find? k = (t.find? k).filter p := by
  cases hrow : t.find? k with
  | none =>
      refine find?_eq_none_iff.mpr (fun r hr => ?_)
      exact find?_eq_none_iff.mp hrow r (mem_restrict.mp hr).1
  | some r =>
      obtain ⟨hr, hk⟩ := find?_eq_some_iff.mp hrow
      cases hp : p r with
      | true =>
          rw [Option.filter_some_pos hp]
          exact find?_eq_some_iff.mpr ⟨mem_restrict.mpr ⟨hr, hp⟩, hk⟩
      | false =>
          rw [Option.filter_some_neg (by simp [hp])]
          refine find?_eq_none_iff.mpr (fun s hs hks => ?_)
          obtain ⟨hs, hps⟩ := mem_restrict.mp hs
          rw [eq_of_key_eq hs hr (hks.trans hk.symm), hp] at hps
          cases hps

/-- Changes that `p` does not see may be made before or after. -/
theorem restrict_modify {t : Table key} {k : κ} {f : ρ → ρ}
    {hf : ∀ r, key (f r) = key r} (hp : ∀ r, p (f r) = p r) :
    (t.modify k f hf).restrict p = (t.restrict p).modify k f hf := by
  apply ext_rows
  show (t.rows.map _).filter p = (t.rows.filter p).map _
  rw [List.filter_map]
  refine congrArg _ (List.filter_congr (fun r _ => ?_))
  dsimp only [Function.comp_apply]
  split
  · exact hp r
  · rfl

/-- A change of a row that is not there changes nothing. -/
theorem modify_of_find?_none {t : Table key} {k : κ} {f : ρ → ρ}
    {hf : ∀ r, key (f r) = key r} (h : t.find? k = none) : t.modify k f hf = t := by
  exact modifyWhere_eq_self (fun r hr => decide_eq_false (find?_eq_none_iff.mp h r hr))

/-- A new row comes into the restriction if it meets `p`. -/
theorem restrict_put {t : Table key} {r : ρ} (h : t.find? (key r) = none) :
    (t.put r).restrict p = if p r then (t.restrict p).put r else t.restrict p := by
  apply ext_rows
  have hrows : ((t.put r).restrict p).rows = t.rows.filter p ++ [r].filter p := by
    show (t.put r).rows.filter p = _
    rw [rows_put_of_find?_none h, List.filter_append]
  rw [hrows]
  split
  · rename_i hp
    have hnone : (t.restrict p).find? (key r) = none := by
      rw [find?_restrict, h]
      rfl
    rw [rows_put_of_find?_none hnone, List.filter_cons_of_pos hp]
    rfl
  · rename_i hp
    rw [List.filter_cons_of_neg hp, List.filter_nil, List.append_nil]
    rfl

end Restrict

end Table

end Imagin4.Verified
