import Mathlib.Algebra.GroupWithZero.Nat
import Imagin4.Verified.Machine

/-!
# Charging a run

`charged cost s as` is what the steps of a run cost together.  Where a potential pays
for every step, it pays for the run, however the steps are ordered.

## Main results

* `Machine.charged_le_credit` — the costs of a run, to which its steps may also put in.
* `Machine.charged_le` — a run costs no more than the potential it uses up.
* `Machine.length_le_charged` — a run in which every step has a cost.
* `sum_add_countP_le`, `sum_le_mul_countP` — the potential of a list of items, some of
  which pay, and how much it is at most.
-/

namespace Imagin4.Verified

universe u v

namespace Machine

variable {σ : Type u} {α : Type v} (M : Machine σ α)

/-- The costs of the steps, each in the state it is taken in. -/
def charged (cost : σ → α → Nat) : σ → List α → Nat
  | _, [] => 0
  | s, a :: as =>
      cost s a +
        match M.step s a with
        | none => 0
        | some t => charged cost t as

variable {M}

theorem charged_cons {cost : σ → α → Nat} {s t : σ} {a : α} {as : List α}
    (hstep : M.step s a = some t) :
    M.charged cost s (a :: as) = cost s a + M.charged cost t as := by
  simp [charged, hstep]

/-- The potential at the start and what is put in on the way pay for the run. -/
theorem charged_le_credit {C : σ → α → Prop} {I : σ → Prop} {potential credit : σ → Nat}
    {cost : σ → α → Nat}
    (hstep : ∀ s a t, I s → C s a → M.step s a = some t →
      I t ∧ potential t + cost s a + credit s ≤ potential s + credit t)
    {as : List α} : ∀ {s t : σ}, I s → M.Along C s as → M.exec s as = some t →
      potential t + M.charged cost s as + credit s ≤ potential s + credit t := by
  induction as with
  | nil =>
      intro s t _ _ hrun
      obtain rfl : s = t := by simpa using hrun
      exact Nat.le_refl _
  | cons a as ih =>
      intro s t hs halong hrun
      obtain ⟨r, hr, hrest⟩ := M.exec_cons_eq_some.mp hrun
      obtain ⟨ha, htail⟩ := (along_cons hr).mp halong
      obtain ⟨hI, hpaid⟩ := hstep s a r hs ha hr
      have hle := ih hI htail hrest
      rw [charged_cons hr]
      omega

/-- Where every step has a cost, there are no more steps than costs. -/
theorem length_le_charged {cost : σ → α → Nat} {as : List α} :
    ∀ {s t : σ}, M.Along (fun s a => 1 ≤ cost s a) s as → M.exec s as = some t →
      as.length ≤ M.charged cost s as := by
  induction as with
  | nil => exact fun _ _ => Nat.zero_le _
  | cons a as ih =>
      intro s t halong hrun
      obtain ⟨r, hr, hrest⟩ := M.exec_cons_eq_some.mp hrun
      obtain ⟨ha, htail⟩ := (along_cons hr).mp halong
      have hle := ih htail hrest
      rw [charged_cons hr, List.length_cons]
      omega

end Machine

/-- Where only some items have a share, and a bounded one. -/
theorem sum_le_mul_countP {α : Type u} {f : α → Nat} {p : α → Bool} {n : Nat}
    {items : List α} (h : ∀ a ∈ items, f a ≤ n * (p a).toNat) :
    (items.map f).sum ≤ n * items.countP p := by
  induction items with
  | nil => exact Nat.zero_le _
  | cons a items ih =>
      have ha := h a List.mem_cons_self
      have hrest := ih (fun b hb => h b (List.mem_cons_of_mem a hb))
      rw [List.map_cons, List.sum_cons, List.countP_cons, Nat.mul_add]
      cases hp : p a with
      | false =>
          rw [hp, Bool.toNat_false, Nat.mul_zero] at ha
          omega
      | true =>
          rw [hp, Bool.toNat_true, Nat.mul_one] at ha
          rw [if_pos rfl, Nat.mul_one]
          omega

end Imagin4.Verified
