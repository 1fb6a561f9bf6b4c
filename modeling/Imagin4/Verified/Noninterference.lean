import Imagin4.Verified.Servers

/-!
# What others do

A server that several parties use keeps one of them apart from the others if what
concerns the party, a `view` of the state, is left alone by every request of the
others, and is all that the party's own requests depend on.  The party's answers are
then those of a server that only the party uses.

## Main results

* `Unwinding.purge` — leaving out what others ask for changes no answer.
-/

namespace Imagin4.Verified

universe u v w

namespace Server

variable {σ : Type u} {α : Type v} {ω : Type w}

/-- The answers to the requests that meet `own`, among those to all. -/
def answersTo (S : Server σ α ω) (own : α → Bool) : List α → σ → List ω
  | [], _ => []
  | a :: as, s =>
      if own a then (S.serve a s).2 :: answersTo S own as (S.serve a s).1
      else answersTo S own as (S.serve a s).1

/-- The requests that meet `own` see and change what `view` shows, and the others do
not change it, in the states that meet `I` and on the requests that meet `C`. -/
structure Unwinding (S : Server σ α ω) (own : α → Bool) (view : σ → σ) (I : σ → Prop)
    (C : σ → α → Prop) : Prop where
  keeps {s : σ} {a : α} : I s → C s a → I (S.serve a s).1
  others {s : σ} {a : α} : I s → C s a → own a = false → view (S.serve a s).1 = view s
  own {s : σ} {a : α} : I s → C s a → own a = true →
    S.serve a (view s) = (view (S.serve a s).1, (S.serve a s).2)

variable {S : Server σ α ω} {own : α → Bool} {view : σ → σ} {I : σ → Prop}
  {C : σ → α → Prop}

/-- **The purge.** -/
theorem Unwinding.purge (h : Unwinding S own view I C) {as : List α} :
    ∀ {s : σ}, I s → S.machine.Along C s as →
      S.answersTo own as s = S.answers (as.filter own) (view s) ∧
        view (S.after as s) = S.after (as.filter own) (view s) := by
  induction as with
  | nil => exact fun _ _ => ⟨rfl, rfl⟩
  | cons a as ih =>
      intro s hs halong
      obtain ⟨ha, hrest⟩ := (Machine.along_cons (M := S.machine) rfl).mp halong
      obtain ⟨hanswers, hview⟩ := ih (h.keeps hs ha) hrest
      cases hown : own a with
      | false =>
          rw [h.others hs ha hown] at hanswers hview
          rw [List.filter_cons_of_neg (by simp [hown]), answersTo, hown,
            if_neg Bool.false_ne_true]
          exact ⟨hanswers, hview⟩
      | true =>
          have hserve := h.own hs ha hown
          rw [List.filter_cons_of_pos hown, answersTo, if_pos hown, answers, hserve,
            hanswers]
          refine ⟨rfl, ?_⟩
          show view (S.after as (S.serve a s).1) =
            S.after (as.filter own) (S.serve a (view s)).1
          rw [hserve]
          exact hview

end Server

end Imagin4.Verified
