import Imagin4.Verified.Outcome

/-!
# Records that are checked field by field

A validator goes through the fields of a record in a fixed order.  Of each field
it keeps a value, drops it, or gives up; what it kept is written to a record of its
own.  `verdict` says what becomes of a field, independently of the others, and
`FieldCheck` that the steps of the validator do what it says.

## Main results

* `FieldCheck.run_ok` — if no field is given up on, the record has what was kept
  of each, whatever the order.
* `FieldCheck.run_error` — otherwise the first field that is given up on decides.
* `first_error` — one of the two is the case.
-/

namespace Imagin4.Verified

universe u

variable {κ ρ ε φ ν : Type u}

/-- What is kept of a field. -/
def kept (verdict : κ → Except φ (Option ν)) (key : κ) : Option ν :=
  (verdict key).toOption.join

theorem kept_of_ok {verdict : κ → Except φ (Option ν)} {key : κ} {o : Option ν}
    (h : verdict key = .ok o) : kept verdict key = o := by
  unfold kept
  rw [h]
  rfl

/-- The steps of a validator, and the verdicts they carry out.  `get` reads a
record, and `R` relates a reason to give up to the exception. -/
structure FieldCheck [DecidableEq κ] (get : ρ → κ → Option ν) (R : φ → ε → Prop)
    (verdict : κ → Except φ (Option ν)) (step : ρ → κ → Except ε ρ) : Prop where
  ok {key : κ} {o : Option ν} (record : ρ) : verdict key = .ok o →
    ∃ after, step record key = .ok after ∧
      ∀ k, get after k = if k = key then o.or (get record k) else get record k
  error {key : κ} {f : φ} (record : ρ) : verdict key = .error f →
    ∃ e, step record key = .error e ∧ R f e

/-- Either every verdict is good, or there is a first one that is not. -/
theorem first_error (verdict : κ → Except φ (Option ν)) (keys : List κ) :
    (∀ key ∈ keys, Returns (verdict key)) ∨
      ∃ before key behind f, keys = before ++ key :: behind ∧
        (∀ k ∈ before, Returns (verdict k)) ∧ verdict key = .error f := by
  induction keys with
  | nil => exact .inl (by simp)
  | cons key keys ih =>
      cases hkey : verdict key with
      | error f => exact .inr ⟨[], key, keys, f, rfl, by simp, hkey⟩
      | ok o =>
          have hhead : Returns (verdict key) := ⟨o, hkey⟩
          rcases ih with hall | ⟨before, k, behind, f, rfl, hbefore, hk⟩
          · exact .inl (by simpa [hhead] using hall)
          · exact .inr ⟨key :: before, k, behind, f, rfl,
              by simpa [hhead] using hbefore, hk⟩

namespace FieldCheck

variable [DecidableEq κ] {get : ρ → κ → Option ν} {R : φ → ε → Prop}
  {verdict : κ → Except φ (Option ν)} {step : ρ → κ → Except ε ρ}

theorem run_ok (h : FieldCheck get R verdict step) (keys : List κ)
    (hkeys : ∀ key ∈ keys, Returns (verdict key)) (record : ρ) :
    ∃ after, keys.foldlM step record = .ok after ∧
      ∀ k, get after k =
        if k ∈ keys then (kept verdict k).or (get record k) else get record k := by
  induction keys generalizing record with
  | nil => exact ⟨record, rfl, by simp⟩
  | cons key keys ih =>
      obtain ⟨o, ho⟩ := hkeys key (by simp)
      obtain ⟨next, hnext, hget⟩ := h.ok record ho
      obtain ⟨after, hafter, hrest⟩ := ih (fun k hk => hkeys k (by simp [hk])) next
      have hkept := kept_of_ok ho
      refine ⟨after, ?_, fun k => ?_⟩
      · rw [List.foldlM_cons, hnext]
        exact hafter
      · rw [hrest, hget]
        by_cases hk : k = key
        · subst hk
          by_cases hmem : k ∈ keys
          · simp [hmem, hkept, ← Option.or_assoc]
          · simp [hmem, hkept]
        · simp [hk]

/-- The first field that is given up on ends the run. -/
theorem run_error (h : FieldCheck get R verdict step) {before behind : List κ}
    {key : κ} {f : φ} (hbefore : ∀ k ∈ before, Returns (verdict k))
    (hkey : verdict key = .error f) (record : ρ) :
    ∃ e, (before ++ key :: behind).foldlM step record = .error e ∧ R f e := by
  obtain ⟨next, hnext, -⟩ := h.run_ok before hbefore record
  obtain ⟨e, he, hR⟩ := h.error next hkey
  refine ⟨e, ?_, hR⟩
  rw [List.foldlM_append, hnext]
  show (key :: behind).foldlM step next = .error e
  rw [List.foldlM_cons, he]
  rfl

end FieldCheck

end Imagin4.Verified
