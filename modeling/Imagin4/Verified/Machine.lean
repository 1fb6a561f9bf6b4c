/-!
# Machines and their runs

A `Machine` is a partial step function: in a given state an action is either
not enabled or has exactly one outcome.  Everything several actors can do to a
shared state, in every order, is the set of schedules `exec` accepts.

`Along C` says that a schedule takes every step in a state where the step
condition `C` holds.  It is how a defect is fenced off: an invariant that a
few steps break still holds in every run that stays along the condition.

## Main results

* `exec_append` — a run splits at any point.
* `along_append`, `along_of_split` — so does a run along a condition, and the
  condition may be checked step by step.
* `invariant`, `invariant_of_step` — the run rule: what one admissible step preserves,
  a whole run preserves.
* `along_iff`, `along_iff_under` — its converse, where the condition is exact.
* `transition` — the same for what relates an earlier state of a run to a
  later one.
* `exists_step_of_became` — what comes to hold in a run comes to hold in one of
  its steps.
-/

namespace Imagin4.Verified

universe u v

/-- A deterministic machine with a partial step function. -/
structure Machine (σ : Type u) (α : Type v) where
  step : σ → α → Option σ

namespace Machine

variable {σ : Type u} {α : Type v} (M : Machine σ α)

/-- The state a finite schedule of actions leads to, if every action of it is
enabled when its turn comes. -/
def exec : σ → List α → Option σ
  | s, [] => some s
  | s, a :: as =>
      match M.step s a with
      | none => none
      | some t => exec t as

@[simp] theorem exec_nil (s : σ) : M.exec s [] = some s := rfl

theorem exec_cons_eq_some {s t : σ} {a : α} {as : List α} :
    M.exec s (a :: as) = some t ↔
      ∃ r, M.step s a = some r ∧ M.exec r as = some t := by
  cases hstep : M.step s a with
  | none => simp [exec, hstep]
  | some r => simp [exec, hstep]

theorem exec_append_eq_some {s t : σ} {as bs : List α} :
    M.exec s (as ++ bs) = some t ↔
      ∃ r, M.exec s as = some r ∧ M.exec r bs = some t := by
  induction as generalizing s with
  | nil => simp
  | cons a as ih =>
      rw [List.cons_append, exec_cons_eq_some]
      constructor
      · rintro ⟨q, hstep, hrest⟩
        obtain ⟨r, has, hbs⟩ := ih.mp hrest
        exact ⟨r, M.exec_cons_eq_some.mpr ⟨q, hstep, has⟩, hbs⟩
      · rintro ⟨r, has, hbs⟩
        obtain ⟨q, hstep, hrest⟩ := M.exec_cons_eq_some.mp has
        exact ⟨q, hstep, ih.mpr ⟨r, hrest, hbs⟩⟩

/-- Every step of the schedule is taken in a state that meets `C`. -/
def Along (C : σ → α → Prop) : σ → List α → Prop
  | _, [] => True
  | s, a :: as =>
      C s a ∧
        match M.step s a with
        | none => True
        | some t => Along C t as

instance decidableAlong (C : σ → α → Prop) [∀ s a, Decidable (C s a)] :
    ∀ s as, Decidable (M.Along C s as)
  | _, [] => isTrue trivial
  | s, a :: as =>
      match hstep : M.step s a with
      | none =>
          decidable_of_iff (C s a) (by simp [Along, hstep])
      | some t =>
          have := decidableAlong C t as
          decidable_of_iff (C s a ∧ M.Along C t as) (by simp [Along, hstep])

variable {M}

theorem along_cons {C : σ → α → Prop} {s t : σ} {a : α} {as : List α}
    (hstep : M.step s a = some t) :
    M.Along C s (a :: as) ↔ C s a ∧ M.Along C t as := by
  simp [Along, hstep]

theorem along_append {C : σ → α → Prop} {s t : σ} {as bs : List α}
    (has : M.exec s as = some t) :
    M.Along C s (as ++ bs) ↔ M.Along C s as ∧ M.Along C t bs := by
  induction as generalizing s with
  | nil =>
      obtain rfl : s = t := by simpa using has
      simp [Along]
  | cons a as ih =>
      obtain ⟨r, hstep, hrest⟩ := M.exec_cons_eq_some.mp has
      rw [List.cons_append, along_cons hstep, along_cons hstep, ih hrest,
        and_assoc]

/-- A schedule that runs to its end is along `C` as soon as `C` holds wherever
it is cut before an action. -/
theorem along_of_split {C : σ → α → Prop} {s t : σ} {as : List α}
    (hrun : M.exec s as = some t)
    (h : ∀ pre a post r, as = pre ++ a :: post → M.exec s pre = some r →
      C r a) :
    M.Along C s as := by
  induction as generalizing s with
  | nil => trivial
  | cons a as ih =>
      obtain ⟨r, hstep, hrest⟩ := M.exec_cons_eq_some.mp hrun
      refine (along_cons hstep).mpr ⟨h [] a as s rfl rfl, ih hrest ?_⟩
      intro pre b post q hsplit hpre
      exact h (a :: pre) b post q (by rw [hsplit]; rfl)
        (M.exec_cons_eq_some.mpr ⟨r, hstep, hpre⟩)

/-- Along a condition, the condition holds at every cut of the run. -/
theorem Along.at_split {C : σ → α → Prop} {s r : σ} {pre post : List α}
    {a : α} (h : M.Along C s (pre ++ a :: post))
    (hpre : M.exec s pre = some r) : C r a := by
  have htail := ((along_append hpre).mp h).2
  exact htail.1

/-- Weakening the step condition. -/
theorem Along.mono {C D : σ → α → Prop} (hCD : ∀ s a, C s a → D s a) :
    ∀ {as : List α} {s : σ}, M.Along C s as → M.Along D s as
  | [], _, _ => trivial
  | a :: as, s, h => by
      cases hstep : M.step s a with
      | none => exact ⟨hCD s a h.1, by simp [hstep]⟩
      | some t =>
          have htail := (along_cons hstep).mp h
          exact (along_cons hstep).mpr ⟨hCD s a htail.1, htail.2.mono hCD⟩

/-- Weakening the step condition with the help of an invariant. -/
theorem Along.mono_of_invariant {C D : σ → α → Prop} {I : σ → Prop}
    (hCD : ∀ s a, I s → C s a → D s a)
    (hinv : ∀ s a t, I s → M.step s a = some t → I t) :
    ∀ {as : List α} {s : σ}, I s → M.Along C s as → M.Along D s as
  | [], _, _, _ => trivial
  | a :: as, s, hs, h => by
      cases hstep : M.step s a with
      | none => exact ⟨hCD s a hs h.1, by simp [hstep]⟩
      | some t =>
          have htail := (along_cons hstep).mp h
          exact (along_cons hstep).mpr ⟨hCD s a hs htail.1,
            htail.2.mono_of_invariant hCD hinv (hinv s a t hs hstep)⟩

/-- Two step conditions at once. -/
theorem Along.and {C D : σ → α → Prop} :
    ∀ {as : List α} {s : σ}, M.Along C s as → M.Along D s as →
      M.Along (fun s a => C s a ∧ D s a) s as
  | [], _, _, _ => trivial
  | a :: as, s, hC, hD => by
      cases hstep : M.step s a with
      | none => exact ⟨⟨hC.1, hD.1⟩, by simp [hstep]⟩
      | some t =>
          have hCtail := (along_cons hstep).mp hC
          have hDtail := (along_cons hstep).mp hD
          exact (along_cons hstep).mpr
            ⟨⟨hC.1, hD.1⟩, hCtail.2.and hDtail.2⟩

/-- A condition on the actions alone holds along a schedule of such actions. -/
theorem along_and_of_forall {P : α → Prop} {C : σ → α → Prop} :
    ∀ {as : List α} {s : σ}, (∀ a ∈ as, P a) → M.Along C s as →
      M.Along (fun s a => P a ∧ C s a) s as
  | [], _, _, _ => trivial
  | a :: as, s, hP, h => by
      have ha := hP a (List.mem_cons_self ..)
      cases hstep : M.step s a with
      | none => exact ⟨⟨ha, h.1⟩, by simp [hstep]⟩
      | some t =>
          have htail := (along_cons hstep).mp h
          exact (along_cons hstep).mpr ⟨⟨ha, htail.1⟩,
            along_and_of_forall
              (fun b hb => hP b (List.mem_cons_of_mem a hb)) htail.2⟩

/-- **The run rule.**  A property of states that every admissible step
preserves holds at the end of every run along the condition. -/
theorem invariant {C : σ → α → Prop} {I : σ → Prop}
    (hstep : ∀ s a t, I s → C s a → M.step s a = some t → I t) :
    ∀ {as : List α} {s t : σ}, I s → M.Along C s as →
      M.exec s as = some t → I t := by
  intro as
  induction as with
  | nil =>
      intro s t hs _ hrun
      obtain rfl : s = t := by simpa using hrun
      exact hs
  | cons a as ih =>
      intro s t hs halong hrun
      obtain ⟨r, hr, hrest⟩ := M.exec_cons_eq_some.mp hrun
      have h := (along_cons hr).mp halong
      exact ih (hstep s a r hs h.1 hr) h.2 hrest

/-- The run rule where every step is admissible. -/
theorem invariant_of_step {I : σ → Prop}
    (hstep : ∀ s a t, I s → M.step s a = some t → I t) {as : List α} {s t : σ} (hs : I s)
    (hrun : M.exec s as = some t) : I t :=
  invariant (C := fun _ _ => True) (fun s a t hI _ h => hstep s a t hI h) hs
    (along_of_split hrun (fun _ _ _ _ _ _ => trivial)) hrun

/-- Where a step keeps a property exactly when it meets the condition, a run
keeps it in all its states exactly when it goes along the condition. -/
theorem along_iff {C : σ → α → Prop} {I : σ → Prop}
    (hstep : ∀ s a t, I s → M.step s a = some t → (I t ↔ C s a)) :
    ∀ {as : List α} {s t : σ}, I s → M.exec s as = some t →
      (M.Along C s as ↔
        ∀ pre post r, as = pre ++ post → M.exec s pre = some r → I r) := by
  intro as s t hs hrun
  constructor
  · intro halong pre post r hsplit hpre
    rw [hsplit] at halong
    exact invariant (I := I) (fun s a t hI hC h => (hstep s a t hI h).mpr hC) hs
      ((along_append hpre).mp halong).1 hpre
  · intro hall
    refine along_of_split hrun (fun pre a post r hsplit hpre => ?_)
    rw [hsplit] at hrun
    obtain ⟨r', hr', hpost⟩ := M.exec_append_eq_some.mp hrun
    obtain rfl : r = r' := Option.some.inj (hpre.symm.trans hr')
    obtain ⟨q, hq, _⟩ := M.exec_cons_eq_some.mp hpost
    have hr : I r := hall pre (a :: post) r hsplit hpre
    have hnext : M.exec s (pre ++ [a]) = some q :=
      M.exec_append_eq_some.mpr ⟨r, hpre, M.exec_cons_eq_some.mpr ⟨q, hq, rfl⟩⟩
    have hI : I q := hall (pre ++ [a]) post q (by rw [hsplit]; simp) hnext
    exact (hstep r a q hr hq).mp hI

/-- The same for a property that a second one helps along, as long as the first
holds. -/
theorem along_iff_under {C : σ → α → Prop} {I P : σ → Prop}
    (hinv : ∀ s a t, I s → P s → M.step s a = some t → I t)
    (hstep : ∀ s a t, I s → P s → M.step s a = some t → (P t ↔ C s a)) :
    ∀ {as : List α} {s t : σ}, I s → P s → M.exec s as = some t →
      (M.Along C s as ↔
        ∀ pre post r, as = pre ++ post → M.exec s pre = some r → P r) := by
  intro as s t hI hP hrun
  have hboth : ∀ s a t, I s ∧ P s → M.step s a = some t → (I t ∧ P t ↔ C s a) := by
    intro s a t hs h
    rw [← hstep s a t hs.1 hs.2 h]
    exact ⟨And.right, fun ht => ⟨hinv s a t hs.1 hs.2 h, ht⟩⟩
  rw [along_iff hboth ⟨hI, hP⟩ hrun]
  refine ⟨fun h pre post r hsplit hpre => (h pre post r hsplit hpre).2, ?_⟩
  intro h pre post r hsplit hpre
  have halong : M.Along (fun s a => ∀ t, M.step s a = some t → P t) s pre := by
    refine along_of_split hpre (fun front a back q hfront hq t ht => ?_)
    refine h (front ++ [a]) (back ++ post) t ?_ ?_
    · rw [hsplit, hfront]
      simp
    · exact M.exec_append_eq_some.mpr ⟨q, hq, M.exec_cons_eq_some.mpr ⟨t, ht, rfl⟩⟩
  exact invariant (I := fun s => I s ∧ P s)
    (fun s a t hs hC ht => ⟨hinv s a t hs.1 hs.2 ht, hC t ht⟩) ⟨hI, hP⟩ halong hpre

/-- **The transition rule.**  A reflexive and transitive relation that every
admissible step respects, given an invariant, relates the two ends of a run. -/
theorem transition {C : σ → α → Prop} {I : σ → Prop} {R : σ → σ → Prop}
    (hrefl : ∀ s, R s s) (htrans : ∀ {r s t}, R r s → R s t → R r t)
    (hinv : ∀ s a t, I s → C s a → M.step s a = some t → I t)
    (hstep : ∀ s a t, I s → C s a → M.step s a = some t → R s t) :
    ∀ {as : List α} {s t : σ}, I s → M.Along C s as →
      M.exec s as = some t → R s t := by
  intro as
  induction as with
  | nil =>
      intro s t _ _ hrun
      obtain rfl : s = t := by simpa using hrun
      exact hrefl s
  | cons a as ih =>
      intro s t hs halong hrun
      obtain ⟨r, hr, hrest⟩ := M.exec_cons_eq_some.mp hrun
      have h := (along_cons hr).mp halong
      exact htrans (hstep s a r hs h.1 hr)
        (ih (hinv s a r hs h.1 hr) h.2 hrest)

/-- What does not hold at the beginning of a run and holds at its end comes to
hold in one of its steps. -/
theorem exists_step_of_became {P : σ → Prop} {as : List α} :
    ∀ {s t : σ}, M.exec s as = some t → ¬ P s → P t →
      ∃ pre a post q r, as = pre ++ a :: post ∧ M.exec s pre = some q ∧
        M.step q a = some r ∧ ¬ P q ∧ P r := by
  induction as with
  | nil =>
      intro s t hrun hs ht
      obtain rfl : s = t := by simpa using hrun
      exact absurd ht hs
  | cons a as ih =>
      intro s t hrun hs ht
      obtain ⟨r, hr, hrest⟩ := M.exec_cons_eq_some.mp hrun
      by_cases hP : P r
      · exact ⟨[], a, as, s, r, rfl, rfl, hr, hs, hP⟩
      · obtain ⟨pre, b, post, q, q', hsplit, hpre, hstep, hq, hq'⟩ :=
          ih hrest hP ht
        exact ⟨a :: pre, b, post, q, q', by rw [hsplit]; rfl,
          M.exec_cons_eq_some.mpr ⟨r, hr, hpre⟩, hstep, hq, hq'⟩

end Machine

end Imagin4.Verified
