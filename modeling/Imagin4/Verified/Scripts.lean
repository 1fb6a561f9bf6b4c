import Imagin4.Verified.Transactions

/-!
# Scripts inside larger scripts

A script over the statements of one database is a script over those of a larger
one, whose statements include them.

## Main results

* `Every.embed` — what every statement of a script meets, every statement of the
  larger script meets.
* `Every.of_query` — the first statement, and the statements after it.
-/

namespace Imagin4.Verified

universe u

variable {Q Q' : Type u} {R : Q → Type u} {R' : Q' → Type u}

namespace Script

/-- The same script over the statements of a larger database. -/
def embed (f : Q → Q') (g : ∀ q, R' (f q) → R q) : Script Q R → Script Q' R'
  | .commit => .commit
  | .rollback => .rollback
  | .query q next => .query (f q) (fun r => embed f g (next (g q r)))

/-- Every statement the script can come to meets `P`. -/
inductive Every (P : Q → Prop) : Script Q R → Prop
  | commit : Every P .commit
  | rollback : Every P .rollback
  | query (q : Q) (next : R q → Script Q R) (hq : P q)
      (hnext : ∀ r, Every P (next r)) : Every P (.query q next)

variable {P : Q → Prop}

theorem Every.of_query {q : Q} {next : R q → Script Q R}
    (h : Every P (.query q next)) : P q ∧ ∀ r, Every P (next r) := by
  cases h with
  | query _ _ hq hnext => exact ⟨hq, hnext⟩

theorem Every.embed {P' : Q' → Prop} {f : Q → Q'} {g : ∀ q, R' (f q) → R q}
    (hf : ∀ q, P q → P' (f q)) {script : Script Q R} (h : Every P script) :
    Every P' (script.embed f g) := by
  induction h with
  | commit => exact .commit
  | rollback => exact .rollback
  | query q next hq _ ih => exact .query (f q) _ (hf q hq) (fun r => ih (g q r))

end Script

end Imagin4.Verified
