/-!
# Computations that may raise, and how two of them compare

Inversion lemmas for `Except`, the question whether a computation `Returns` at
all, and a relational reading of it: `Simulates R x y`
says that whenever `x` succeeds, so does `y`, and the two results are related by
`R`.  Nothing is asked about a computation that raises, so a simulation in both
directions is what makes two computations succeed together.

## Main results

* `bind_eq_ok` — a sequence succeeded because both parts did.
* `returns_bind` — when a sequence raises nothing.
* `Simulates.bind`, `Simulates.foldlM` — simulations compose along a sequence
  and along a loop.
-/

namespace Imagin4.Verified

universe u

variable {ε ε' α α' β β' : Type u}

theorem bind_eq_ok {x : Except ε α} {f : α → Except ε β} {v : β} :
    (x >>= f) = .ok v ↔ ∃ u, x = .ok u ∧ f u = .ok v := by
  cases x with
  | error e => simp [bind, Except.bind]
  | ok u => simp [bind, Except.bind]

theorem map_eq_ok {x : Except ε α} {f : α → β} {v : β} :
    x.map f = .ok v ↔ ∃ u, x = .ok u ∧ f u = v := by
  cases x with
  | error e => simp [Except.map]
  | ok u => simp [Except.map]

@[simp] theorem mapError_error (e : ε) (f : ε → ε') :
    (.error e : Except ε α).mapError f = .error (f e) := rfl

@[simp] theorem mapError_ok (v : α) (f : ε → ε') :
    (.ok v : Except ε α).mapError f = .ok v := rfl

theorem mapError_eq_ok {x : Except ε α} {f : ε → ε'} {v : α} :
    x.mapError f = .ok v ↔ x = .ok v := by
  cases x <;> simp

/-- The computation does not raise. -/
def Returns (x : Except ε α) : Prop := ∃ v, x = .ok v

theorem returns_ok (v : α) : Returns (.ok v : Except ε α) := ⟨v, rfl⟩

theorem not_returns_error (e : ε) : ¬ Returns (.error e : Except ε α) :=
  fun ⟨_, h⟩ => nomatch h

theorem returns_map {x : Except ε α} {f : α → β} :
    Returns (x.map f) ↔ Returns x := by
  cases x with
  | error e => exact iff_of_false (not_returns_error e) (not_returns_error e)
  | ok v => exact iff_of_true (returns_ok (f v)) (returns_ok v)

/-- A sequence raises nothing if no part of it does. -/
theorem returns_bind {x : Except ε α} {f : α → Except ε β} {P : Prop}
    (hf : ∀ u, x = .ok u → (Returns (f u) ↔ P)) :
    Returns (x >>= f) ↔ Returns x ∧ P := by
  cases x with
  | error e =>
      exact iff_of_false (not_returns_error e)
        (fun h => not_returns_error e h.1)
  | ok u =>
      show Returns (f u) ↔ _
      rw [hf u rfl]
      exact ⟨fun h => ⟨returns_ok u, h⟩, fun h => h.2⟩

theorem returns_bind_of_forall {x : Except ε α} {f : α → Except ε β}
    (hf : ∀ u, Returns (f u)) : Returns (x >>= f) ↔ Returns x := by
  have hrest : ∀ u, x = .ok u → (Returns (f u) ↔ True) :=
    fun u _ => iff_of_true (hf u) trivial
  rw [returns_bind hrest, and_true]

/-- A loop depends on what its steps do only. -/
theorem foldlM_congr {γ : Type u} {f g : α → γ → Except ε α} {items : List γ}
    (h : ∀ item ∈ items, ∀ a, f a item = g a item) (a : α) :
    items.foldlM f a = items.foldlM g a := by
  induction items generalizing a with
  | nil => rfl
  | cons item items ih =>
      have htail := ih (fun i hi => h i (by simp [hi]))
      rw [List.foldlM_cons, List.foldlM_cons, h item (by simp)]
      congr 1
      funext next
      exact htail next

/-- A loop that has raised goes no further. -/
theorem foldlM_append_error {γ : Type u} {f : α → γ → Except ε α}
    {items : List γ} {a : α} {e : ε} (h : items.foldlM f a = .error e)
    (rest : List γ) : (items ++ rest).foldlM f a = .error e := by
  rw [List.foldlM_append, h]
  rfl

/-- Whenever `x` succeeds, so does `y`, with a related result. -/
def Simulates (R : α → α' → Prop) (x : Except ε α) (y : Except ε α') : Prop :=
  ∀ a, x = .ok a → ∃ b, y = .ok b ∧ R a b

namespace Simulates

variable {R : α → α' → Prop} {S : β → β' → Prop}

theorem refl (x : Except ε α) : Simulates Eq x x :=
  fun a h => ⟨a, h, rfl⟩

theorem ok {a : α} {b : α'} (h : R a b) :
    Simulates R (.ok a : Except ε α) (.ok b) := by
  intro v hv
  cases hv
  exact ⟨b, rfl, h⟩

theorem error (e : ε) (y : Except ε α') :
    Simulates R (.error e : Except ε α) y :=
  fun _ h => nomatch h

theorem mapError {x : Except ε α} {y : Except ε α'} (h : Simulates R x y)
    (f : ε → ε') : Simulates R (x.mapError f) (y.mapError f) := by
  intro a ha
  obtain ⟨b, hb, hab⟩ := h a (mapError_eq_ok.mp ha)
  exact ⟨b, mapError_eq_ok.mpr hb, hab⟩

theorem bind {x : Except ε α} {y : Except ε α'} {f : α → Except ε β}
    {g : α' → Except ε β'} (hx : Simulates R x y)
    (hf : ∀ a b, R a b → Simulates S (f a) (g b)) :
    Simulates S (x >>= f) (y >>= g) := by
  intro v hv
  obtain ⟨a, ha, hfa⟩ := bind_eq_ok.mp hv
  obtain ⟨b, hb, hab⟩ := hx a ha
  obtain ⟨w, hgb, hvw⟩ := hf a b hab v hfa
  exact ⟨w, bind_eq_ok.mpr ⟨b, hb, hgb⟩, hvw⟩

/-- The same computation goes first on both sides. -/
theorem bind_same {x : Except ε α} {f : α → Except ε β} {g : α → Except ε β'}
    (hf : ∀ a, Simulates S (f a) (g a)) :
    Simulates S (x >>= f) (x >>= g) := by
  refine (refl x).bind ?_
  rintro a _ rfl
  exact hf a

/-- Two loops over the same items, with a relation between what they have
gathered. -/
theorem foldlM {γ : Type u} {f : α → γ → Except ε α} {g : α' → γ → Except ε α'}
    (hstep : ∀ a b item, R a b → Simulates R (f a item) (g b item))
    (items : List γ) {a : α} {b : α'} (hab : R a b) :
    Simulates R (items.foldlM f a) (items.foldlM g b) := by
  induction items generalizing a b with
  | nil => exact ok hab
  | cons item items ih =>
      rw [List.foldlM_cons, List.foldlM_cons]
      exact (hstep a b item hab).bind (fun a' b' hab' => ih hab')

end Simulates

end Imagin4.Verified
