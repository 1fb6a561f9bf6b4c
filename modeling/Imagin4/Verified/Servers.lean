import Mathlib.Data.List.Forall2
import Imagin4.Verified.Machine

/-!
# Servers that answer alike

A `Server` takes one request after another, and answers each of them.  Two servers
simulate each other where related states stay related and give answers that are
related.  Clients that see the answers only then cannot tell the two apart, however
long they go on.

The requests a simulation is about may be limited by a condition on the state they
meet; `Server.machine` makes `Machine.Along` speak of it.

## Main results

* `Simulation.run` — the run rule: a whole conversation is answered alike.
-/

namespace Imagin4.Verified

universe u v w

/-- A server, as the function from a request to its new state and its answer. -/
structure Server (σ : Type u) (α : Type v) (ω : Type w) where
  serve : α → σ → σ × ω

namespace Server

variable {σ τ : Type u} {α : Type v} {ω χ : Type w}

/-- The state after some requests. -/
def after (S : Server σ α ω) (as : List α) (s : σ) : σ :=
  as.foldl (fun s a => (S.serve a s).1) s

/-- The answers to some requests. -/
def answers (S : Server σ α ω) : List α → σ → List ω
  | [], _ => []
  | a :: as, s => (S.serve a s).2 :: answers S as (S.serve a s).1

/-- The server as a machine; it takes every request. -/
def machine (S : Server σ α ω) : Machine σ α := ⟨fun s a => some (S.serve a s).1⟩

variable {S : Server σ α ω} {T : Server τ α χ}

/-- Related states stay related and answer alike, on the requests that meet `C`. -/
structure Simulation (S : Server σ α ω) (T : Server τ α χ) (R : σ → τ → Prop)
    (C : σ → α → Prop) (alike : ω → χ → Prop) : Prop where
  state {s : σ} {t : τ} {a : α} :
    R s t → C s a → R (S.serve a s).1 (T.serve a t).1
  answer {s : σ} {t : τ} {a : α} :
    R s t → C s a → alike (S.serve a s).2 (T.serve a t).2

/-- **The run rule.** -/
theorem Simulation.run {R : σ → τ → Prop} {C : σ → α → Prop} {alike : ω → χ → Prop}
    (h : Simulation S T R C alike) {as : List α} : ∀ {s : σ} {t : τ}, R s t →
      S.machine.Along C s as →
      List.Forall₂ alike (S.answers as s) (T.answers as t) ∧
        R (S.after as s) (T.after as t) := by
  induction as with
  | nil => exact fun hst _ => ⟨.nil, hst⟩
  | cons a as ih =>
      intro s t hst halong
      obtain ⟨ha, hrest⟩ := (Machine.along_cons (M := S.machine) rfl).mp halong
      obtain ⟨hanswers, hstates⟩ := ih (h.state hst ha) hrest
      exact ⟨.cons (h.answer hst ha) hanswers, hstates⟩

end Server

end Imagin4.Verified
