import Imagin4.Verified.Machine

/-!
# Rounds

A round is a schedule in which certain things are done somewhere, in whatever order and
with whatever in between.

## Main results

* `Machine.Somewhere.split` — a schedule in which something is done somewhere.
-/

namespace Imagin4.Verified

universe u v

namespace Machine

variable {σ : Type u} {α : Type v} (M : Machine σ α)

/-- The machine whose actions are the schedules of `M`. -/
def rounds : Machine σ (List α) := ⟨M.exec⟩

/-- Some action of the schedule is taken in a state in which it meets `P`. -/
def Somewhere (P : σ → α → Prop) : σ → List α → Prop
  | _, [] => False
  | s, a :: as =>
      P s a ∨
        match M.step s a with
        | none => False
        | some t => Somewhere P t as

instance decidableSomewhere (P : σ → α → Prop) [∀ s a, Decidable (P s a)] :
    ∀ s as, Decidable (M.Somewhere P s as)
  | _, [] => isFalse id
  | s, a :: as =>
      match hstep : M.step s a with
      | none => decidable_of_iff (P s a) (by simp [Somewhere, hstep])
      | some t =>
          have := decidableSomewhere P t as
          decidable_of_iff (P s a ∨ M.Somewhere P t as) (by simp [Somewhere, hstep])

variable {M}

/-- The schedule before, the action, and the schedule after. -/
theorem Somewhere.split {P : σ → α → Prop} {as : List α} :
    ∀ {s t : σ}, M.Somewhere P s as → M.exec s as = some t →
      ∃ pre a post q r, as = pre ++ a :: post ∧ M.exec s pre = some q ∧ P q a ∧
        M.step q a = some r ∧ M.exec r post = some t := by
  induction as with
  | nil => exact fun h _ => h.elim
  | cons a as ih =>
      intro s t h hrun
      obtain ⟨r, hr, hrest⟩ := M.exec_cons_eq_some.mp hrun
      rcases h with ha | htail
      · exact ⟨[], a, as, s, r, rfl, rfl, ha, hr, hrest⟩
      · rw [hr] at htail
        obtain ⟨pre, b, post, q, q', hsplit, hpre, hb, hstep, hpost⟩ := ih htail hrest
        exact ⟨a :: pre, b, post, q, q', by rw [hsplit]; rfl,
          M.exec_cons_eq_some.mpr ⟨r, hr, hpre⟩, hb, hstep, hpost⟩

end Machine

end Imagin4.Verified
