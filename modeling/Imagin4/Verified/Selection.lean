import Mathlib.Data.List.Basic

/-!
# Taking the first that fit

A list of candidates, best first, each with an owner; a candidate is taken as long
as its owner does not have too many already.  `onePass` goes through the list once,
counting as it takes.  `restarting` looks for the best that fits, takes it out, and
begins again.

## Main results

* `restarting_eq_onePass` — the two take the same, in the same order: who does not
  fit once does not fit later.
* `onePass_eq_take` — as long as everybody fits, the first are taken.
* `greedy_onePass` — who is taken, and who is left behind.
* `countsWith_onePass_le` — a pass gives no owner more than fit.
-/

namespace Imagin4.Verified

universe u v

section Selection

variable {α : Type u} {κ : Type v} [DecidableEq κ]

/-- One more for an owner. -/
def bump (counts : κ → Nat) (k : κ) : κ → Nat :=
  fun k' => if k' = k then counts k' + 1 else counts k'

theorem le_bump (counts : κ → Nat) (k k' : κ) : counts k' ≤ bump counts k k' := by
  unfold bump
  split <;> omega

variable (owner : α → κ) (fits : Nat → Prop) [DecidablePred fits]

/-- At most `n` candidates, in one pass with running counts. -/
def onePass : Nat → (κ → Nat) → List α → List α
  | _, _, [] => []
  | 0, _, _ :: _ => []
  | n + 1, counts, a :: rest =>
      if fits (counts (owner a)) then
        a :: onePass n (bump counts (owner a)) rest
      else onePass (n + 1) counts rest

/-- At most `n` candidates, each the best that fits among those that are left. -/
def restarting [DecidableEq α] : Nat → (κ → Nat) → List α → List α
  | 0, _, _ => []
  | n + 1, counts, as =>
      match as.find? (fun a => fits (counts (owner a))) with
      | none => []
      | some a =>
          a :: restarting n (bump counts (owner a)) (as.filter (fun b => b ≠ a))

variable {owner fits}

@[simp] theorem onePass_zero (counts : κ → Nat) (as : List α) :
    onePass owner fits 0 counts as = [] := by
  cases as <;> rfl

/-- Candidates that have been skipped stay skipped. -/
theorem restarting_append [DecidableEq α]
    (hfits : ∀ m n, m ≤ n → fits n → fits m) (as : List α) :
    ∀ (n : Nat) (counts : κ → Nat) (skipped : List α),
      (skipped ++ as).Nodup → (∀ b ∈ skipped, ¬ fits (counts (owner b))) →
      restarting owner fits n counts (skipped ++ as) =
        onePass owner fits n counts as := by
  induction as with
  | nil =>
      intro n counts skipped _ hskipped
      cases n with
      | zero => rfl
      | succ n =>
          have hnone : (skipped ++ []).find?
              (fun a => fits (counts (owner a))) = none := by
            simpa [List.find?_eq_none] using hskipped
          rw [restarting, hnone]
          rfl
  | cons a rest ih =>
      intro n counts skipped hnodup hskipped
      cases n with
      | zero => rw [onePass_zero, restarting]
      | succ n =>
          have hnone : skipped.find? (fun a => fits (counts (owner a))) = none := by
            simpa [List.find?_eq_none] using hskipped
          by_cases ha : fits (counts (owner a))
          · have hfound : (skipped ++ a :: rest).find?
                (fun a => fits (counts (owner a))) = some a := by
              simp [List.find?_append, hnone, ha]
            have hleft : (skipped ++ a :: rest).filter (fun b => b ≠ a) =
                skipped ++ rest := by
              obtain ⟨_, hrest, hdisjoint⟩ := List.nodup_append.mp hnodup
              have hout : ∀ b ∈ skipped, b ≠ a :=
                fun b hb => hdisjoint b hb a List.mem_cons_self
              have hin : ∀ b ∈ rest, b ≠ a := by
                rintro b hb rfl
                exact (List.nodup_cons.mp hrest).1 hb
              have hself : ([a] : List α).filter (fun b => b ≠ a) = [] := by simp
              rw [← List.singleton_append, List.filter_append, List.filter_append,
                hself, List.nil_append, List.filter_eq_self.mpr (by simpa using hout),
                List.filter_eq_self.mpr (by simpa using hin)]
            have hnodup' : (skipped ++ rest).Nodup :=
              hnodup.sublist ((List.Sublist.refl skipped).append
                (List.sublist_cons_self a rest))
            rw [restarting, hfound, onePass, if_pos ha]
            dsimp only
            rw [hleft, ih n _ skipped hnodup' ?_]
            intro b hb hno
            exact hskipped b hb (hfits _ _ (le_bump counts (owner a) (owner b)) hno)
          · rw [onePass, if_neg ha, List.append_cons]
            refine ih (n + 1) counts (skipped ++ [a]) ?_ ?_
            · rw [← List.append_cons]
              exact hnodup
            · intro b hb
              rcases List.mem_append.mp hb with hb | hb
              · exact hskipped b hb
              · rw [List.mem_singleton.mp hb]
                exact ha

theorem restarting_eq_onePass [DecidableEq α]
    (hfits : ∀ m n, m ≤ n → fits n → fits m) {as : List α} (hnodup : as.Nodup)
    (n : Nat) (counts : κ → Nat) :
    restarting owner fits n counts as = onePass owner fits n counts as :=
  restarting_append hfits as n counts [] hnodup (fun b hb => by cases hb)

/-- Two ways to say who fits. -/
theorem onePass_congr {fits' : Nat → Prop} [DecidablePred fits']
    (h : ∀ n, fits n ↔ fits' n) (as : List α) :
    ∀ (n : Nat) (counts : κ → Nat),
      onePass owner fits n counts as = onePass owner fits' n counts as := by
  induction as with
  | nil =>
      intro n counts
      simp [onePass]
  | cons a rest ih =>
      intro n counts
      cases n with
      | zero => rfl
      | succ n =>
          rw [onePass, onePass, ih, ih]
          simp only [h]

/-- A pass over images with the same owners. -/
theorem onePass_map {β : Type*} {owner' : β → κ} {f : α → β}
    (h : ∀ a, owner' (f a) = owner a) (as : List α) :
    ∀ (n : Nat) (counts : κ → Nat),
      onePass owner' fits n counts (as.map f) =
        (onePass owner fits n counts as).map f := by
  induction as with
  | nil =>
      intro n counts
      simp [onePass]
  | cons a rest ih =>
      intro n counts
      cases n with
      | zero => simp
      | succ n =>
          rw [List.map_cons]
          by_cases ha : fits (counts (owner a))
          · rw [onePass, h, if_pos ha, onePass, if_pos ha, ih, List.map_cons]
          · rw [onePass, h, if_neg ha, onePass, if_neg ha, ih]

/-- While everybody fits. -/
theorem onePass_eq_take (hfits : ∀ n, fits n) (as : List α) :
    ∀ (n : Nat) (counts : κ → Nat), onePass owner fits n counts as = as.take n := by
  induction as with
  | nil =>
      intro n counts
      simp [onePass]
  | cons a rest ih =>
      intro n counts
      cases n with
      | zero => rfl
      | succ n => rw [onePass, if_pos (hfits _), ih, List.take_succ_cons]

/-! ## Who is taken -/

theorem sublist_onePass (as : List α) : ∀ (n : Nat) (counts : κ → Nat),
    (onePass owner fits n counts as).Sublist as := by
  induction as with
  | nil =>
      intro n counts
      simp [onePass]
  | cons a rest ih =>
      intro n counts
      cases n with
      | zero => simp
      | succ n =>
          by_cases ha : fits (counts (owner a))
          · rw [onePass, if_pos ha]
            exact (ih n _).cons_cons a
          · rw [onePass, if_neg ha]
            exact (ih (n + 1) counts).cons a

theorem length_onePass_le (as : List α) : ∀ (n : Nat) (counts : κ → Nat),
    (onePass owner fits n counts as).length ≤ n := by
  induction as with
  | nil =>
      intro n counts
      simp [onePass]
  | cons a rest ih =>
      intro n counts
      cases n with
      | zero => simp
      | succ n =>
          by_cases ha : fits (counts (owner a))
          · rw [onePass, if_pos ha]
            have hrest := ih n (bump counts (owner a))
            simp only [List.length_cons]
            omega
          · rw [onePass, if_neg ha]
            exact ih (n + 1) counts

variable (owner)

/-- The counts once these are taken too. -/
def countsWith (counts : κ → Nat) (taken : List α) : κ → Nat :=
  fun k => counts k + taken.countP (fun a => owner a = k)

variable {owner}

theorem countsWith_cons (counts : κ → Nat) (a : α) (taken : List α) :
    countsWith owner counts (a :: taken) =
      countsWith owner (bump counts (owner a)) taken := by
  funext k
  unfold countsWith bump
  rw [List.countP_cons]
  by_cases hk : owner a = k
  · simp [hk]
    omega
  · simp [hk, Ne.symm hk]

/-- The pass over a longer list goes on where the pass over its beginning has
stopped. -/
theorem onePass_append (as bs : List α) : ∀ (n : Nat) (counts : κ → Nat),
    onePass owner fits n counts (as ++ bs) =
      onePass owner fits n counts as ++
        onePass owner fits (n - (onePass owner fits n counts as).length)
          (countsWith owner counts (onePass owner fits n counts as)) bs := by
  induction as with
  | nil =>
      intro n counts
      have hnone : onePass owner fits n counts [] = [] := by simp [onePass]
      have hcounts : countsWith owner counts [] = counts := by
        funext k
        simp [countsWith]
      rw [hnone, hcounts]
      rfl
  | cons a rest ih =>
      intro n counts
      cases n with
      | zero => simp
      | succ n =>
          rw [List.cons_append]
          by_cases ha : fits (counts (owner a))
          · rw [onePass, if_pos ha, onePass, if_pos ha, ih, countsWith_cons]
            simp
          · rw [onePass, if_neg ha, onePass, if_neg ha, ih]

section Greedy

variable {ι : Type*} [DecidableEq ι] (key : α → ι)

/-- Those that are among the first. -/
def among (before taken : List α) : List α :=
  taken.filter (fun b => key b ∈ before.map key)

variable (owner fits)

/-- Whoever is reached is taken exactly if there is room, and the owner's count,
with those taken before, leaves a place. -/
structure Greedy (n : Nat) (counts : κ → Nat) (order taken : List α) : Prop where
  sublist : taken.Sublist order
  mem_iff {before after : List α} {a : α} : order = before ++ a :: after →
    (a ∈ taken ↔ (among key before taken).length < n ∧
      fits (countsWith owner counts (among key before taken) (owner a)))

variable {key owner fits}

/-- What is taken of the first is what is taken among the first. -/
theorem among_onePass {before rest : List α} (h : ((before ++ rest).map key).Nodup)
    (n : Nat) (counts : κ → Nat) :
    among key before (onePass owner fits n counts (before ++ rest)) =
      onePass owner fits n counts before := by
  rw [List.map_append, List.nodup_append] at h
  unfold among
  rw [onePass_append, List.filter_append, List.filter_eq_self.mpr,
    List.filter_eq_nil_iff.mpr, List.append_nil]
  · intro b hb hmem
    have hrest := (sublist_onePass rest _ _).subset hb
    exact h.2.2 _ (of_decide_eq_true hmem) _ (List.mem_map_of_mem hrest) rfl
  · intro b hb
    have hbefore := (sublist_onePass before n counts).subset hb
    exact decide_eq_true (List.mem_map_of_mem hbefore)

/-- **The pass is greedy.** -/
theorem greedy_onePass {order : List α} (h : (order.map key).Nodup) (n : Nat)
    (counts : κ → Nat) :
    Greedy owner fits key n counts order (onePass owner fits n counts order) where
  sublist := sublist_onePass order n counts
  mem_iff := by
    intro before after a horder
    subst horder
    rw [among_onePass h]
    have hkeys := h
    rw [List.map_append, List.map_cons, List.nodup_append, List.nodup_cons] at hkeys
    obtain ⟨-, ⟨hafter, -⟩, hbefore⟩ := hkeys
    have hnotBefore : a ∉ onePass owner fits n counts before := by
      intro hmem
      have hin := (sublist_onePass before n counts).subset hmem
      exact hbefore _ (List.mem_map_of_mem hin) _ List.mem_cons_self rfl
    rw [onePass_append, List.mem_append]
    generalize onePass owner fits n counts before = taken at hnotBefore ⊢
    cases hroom : n - taken.length with
    | zero =>
        simp only [onePass_zero, List.not_mem_nil, or_false, hnotBefore, false_iff]
        omega
    | succ m =>
        have hlt : taken.length < n := by omega
        by_cases ha : fits (countsWith owner counts taken (owner a))
        · rw [onePass, if_pos ha]
          simp [hlt, ha]
        · have hnotAfter : ∀ counts', a ∉ onePass owner fits (m + 1) counts' after := by
            intro counts' hmem
            exact hafter (List.mem_map_of_mem
              ((sublist_onePass after _ _).subset hmem))
          rw [onePass, if_neg ha]
          simp [hnotBefore, hnotAfter, ha]

omit [DecidablePred fits] in
/-- Whoever is left behind has found no room, or no place for the owner. -/
theorem Greedy.left_behind {n : Nat} {counts : κ → Nat} {order taken : List α}
    {before after : List α} {a : α}
    (h : Greedy owner fits key n counts order taken)
    (horder : order = before ++ a :: after) (ha : a ∉ taken) :
    n ≤ (among key before taken).length ∨
      ¬ fits (countsWith owner counts (among key before taken) (owner a)) := by
  rw [h.mem_iff horder] at ha
  by_cases hroom : n ≤ (among key before taken).length
  · exact .inl hroom
  · exact .inr (fun hfits => ha ⟨by omega, hfits⟩)

end Greedy

/-! ## What a pass leaves -/

/-- Nobody gets above the cap. -/
theorem countsWith_onePass_le {cap : Nat} (hfits : ∀ m, fits m → m < cap) (k : κ)
    (as : List α) : ∀ (n : Nat) (counts : κ → Nat),
      countsWith owner counts (onePass owner fits n counts as) k ≤
        max (counts k) cap := by
  induction as with
  | nil =>
      intro n counts
      simp only [onePass, countsWith, List.countP_nil]
      omega
  | cons a rest ih =>
      intro n counts
      cases n with
      | zero =>
          simp only [onePass_zero, countsWith, List.countP_nil]
          omega
      | succ n =>
          by_cases ha : fits (counts (owner a))
          · rw [onePass, if_pos ha, countsWith_cons]
            have hlt := hfits _ ha
            have hrest := ih n (bump counts (owner a))
            have hbump : bump counts (owner a) k ≤ max (counts k) cap := by
              unfold bump
              by_cases hk : k = owner a
              · rw [if_pos hk, hk]
                omega
              · rw [if_neg hk]
                omega
            omega
          · rw [onePass, if_neg ha]
            exact ih (n + 1) counts

theorem countsWith_mono (counts : κ → Nat) {taken taken' : List α}
    (h : taken.Sublist taken') (k : κ) :
    countsWith owner counts taken k ≤ countsWith owner counts taken' k := by
  have hcount := h.countP_le (p := fun a => decide (owner a = k))
  unfold countsWith
  omega

end Selection

end Imagin4.Verified
