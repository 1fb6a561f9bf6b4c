import Mathlib.Control.Monad.Basic

/-!
# What a computation has written when it returns or raises

A `Raising` changes a state and may raise; what it has changed before it raised stays
changed.  `Writes put W x P` says that the changes `x` makes are the writes of a list
`ws`, each of which meets `W`, and that where `x` returns `a`, `P ws a` holds.

`Gives x y` says that what comes of `x` is `y` whatever the state is, so that `x` is
the effect-free computation `y` with its writes made explicit.

## Main results

* `Writes.bind`, `Writes.foldlM` — the writes of a sequence, and of a loop with an
  invariant of the items it has gone through, of what it has written and of what it
  has gathered.
-/

namespace Imagin4.Verified

universe u

/-- A computation that changes a state, and keeps the changes when it raises. -/
abbrev Raising (ε σ α : Type u) := ExceptT ε (StateM σ) α

namespace Raising

variable {ε σ α β γ ω : Type u}

/-- What comes of a computation, and the state after it. -/
def exec (x : Raising ε σ α) (s : σ) : Except ε α × σ := x.run.run s

/-- A computation without effects. -/
def raising (x : Except ε α) : Raising ε σ α := ExceptT.mk (pure x)

/-- A change of the state. -/
def change (f : σ → σ) : Raising ε σ PUnit := ExceptT.lift (modify f)

@[simp] theorem exec_pure (a : α) (s : σ) :
    (pure a : Raising ε σ α).exec s = (.ok a, s) := rfl

@[simp] theorem exec_raising (x : Except ε α) (s : σ) :
    (raising x : Raising ε σ α).exec s = (x, s) := rfl

@[simp] theorem exec_change (f : σ → σ) (s : σ) :
    (change f : Raising ε σ PUnit).exec s = (.ok ⟨⟩, f s) := rfl

theorem exec_bind (x : Raising ε σ α) (f : α → Raising ε σ β) (s : σ) :
    (x >>= f).exec s =
      match x.exec s with
      | (.ok a, t) => (f a).exec t
      | (.error e, t) => (.error e, t) := by
  show ((x >>= f).run.run s) = _
  unfold exec
  simp only [ExceptT.run_bind, StateT.run_bind]
  cases h : x.run.run s with
  | mk r t => cases r <;> rfl

/-- The writes of a computation. -/
def Writes (put : σ → ω → σ) (W : ω → Prop) (x : Raising ε σ α)
    (P : List ω → α → Prop) : Prop :=
  ∀ s, ∃ ws, (x.exec s).2 = ws.foldl put s ∧ (∀ w ∈ ws, W w) ∧
    ∀ a, (x.exec s).1 = .ok a → P ws a

variable {put : σ → ω → σ} {W : ω → Prop}

theorem Writes.mono {x : Raising ε σ α} {P Q : List ω → α → Prop}
    (h : Writes put W x P) (hPQ : ∀ ws a, P ws a → Q ws a) : Writes put W x Q := by
  intro s
  obtain ⟨ws, hstate, hW, hP⟩ := h s
  exact ⟨ws, hstate, hW, fun a ha => hPQ ws a (hP a ha)⟩

theorem writes_pure (a : α) : Writes put W (pure a : Raising ε σ α)
    (fun ws b => ws = [] ∧ b = a) := by
  intro s
  refine ⟨[], rfl, List.forall_mem_nil W, fun b hb => ⟨rfl, ?_⟩⟩
  cases hb
  rfl

theorem writes_raising (x : Except ε α) : Writes put W (raising x)
    (fun ws a => ws = [] ∧ x = .ok a) :=
  fun _ => ⟨[], rfl, List.forall_mem_nil W, fun _ ha => ⟨rfl, ha⟩⟩

theorem writes_change {w : ω} (hw : W w) :
    Writes put W (change (fun s => put s w) : Raising ε σ PUnit)
      (fun ws _ => ws = [w]) :=
  fun _ => ⟨[w], rfl, fun _ h => by rwa [List.mem_singleton.mp h], fun _ _ => rfl⟩

/-- A sequence writes what its parts write, one after the other. -/
theorem Writes.bind {x : Raising ε σ α} {f : α → Raising ε σ β}
    {P : List ω → α → Prop} {Q : List ω → β → Prop} (hx : Writes put W x P)
    (hf : ∀ ws a, P ws a → Writes put W (f a) (fun vs b => Q (ws ++ vs) b)) :
    Writes put W (x >>= f) Q := by
  intro s
  obtain ⟨ws, hstate, hW, hP⟩ := hx s
  rw [exec_bind]
  cases hexec : x.exec s with
  | mk r t =>
      rw [hexec] at hstate hP
      cases r with
      | error e => exact ⟨ws, hstate, hW, fun _ hb => by cases hb⟩
      | ok a =>
          obtain ⟨vs, hstate', hW', hQ⟩ := hf ws a (hP a rfl) t
          refine ⟨ws ++ vs, ?_, ?_, hQ⟩
          · rw [List.foldl_append, ← hstate]
            exact hstate'
          · intro w hw
            rcases List.mem_append.mp hw with h | h
            · exact hW w h
            · exact hW' w h

/-- A loop, with an invariant. -/
theorem Writes.foldlM {f : α → γ → Raising ε σ α} {I : List γ → List ω → α → Prop}
    (hstep : ∀ past ws a item, I past ws a →
      Writes put W (f a item) (fun vs b => I (past ++ [item]) (ws ++ vs) b))
    (items : List γ) : ∀ (past : List γ) (ws : List ω) (a : α), I past ws a →
      Writes put W (items.foldlM f a) (fun vs b => I (past ++ items) (ws ++ vs) b) := by
  induction items with
  | nil =>
      intro past ws a h
      rw [List.foldlM_nil]
      refine (writes_pure a).mono ?_
      rintro vs b ⟨rfl, rfl⟩
      simpa using h
  | cons item items ih =>
      intro past ws a h
      rw [List.foldlM_cons]
      refine (hstep past ws a item h).bind (fun vs b hb => ?_)
      refine (ih _ _ _ hb).mono (fun us c hc => ?_)
      simpa [List.append_assoc] using hc

/-! ## What comes of a computation -/

/-- Whatever the state is, `y` comes of the computation. -/
def Gives (x : Raising ε σ α) (y : Except ε α) : Prop := ∀ s, (x.exec s).1 = y

theorem gives_pure (a : α) : Gives (pure a : Raising ε σ α) (pure a) := fun _ => rfl

theorem gives_raising (x : Except ε α) : Gives (raising x : Raising ε σ α) x := fun _ => rfl

theorem Gives.bind {x : Raising ε σ α} {y : Except ε α} {f : α → Raising ε σ β}
    {g : α → Except ε β} (hx : Gives x y) (hf : ∀ a, y = .ok a → Gives (f a) (g a)) :
    Gives (x >>= f) (y >>= g) := by
  intro s
  rw [exec_bind]
  have hs := hx s
  cases hexec : x.exec s with
  | mk r t =>
      rw [hexec] at hs
      obtain rfl : r = y := hs
      cases r with
      | error e => rfl
      | ok a => exact hf a rfl t

/-- A step that does not raise may be left out. -/
theorem Gives.bind_ok {x : Raising ε σ α} {a : α} {f : α → Raising ε σ β} {y : Except ε β}
    (hx : Gives x (.ok a)) (hf : Gives (f a) y) : Gives (x >>= f) y :=
  hx.bind (g := fun _ => y) (fun b hb => by cases hb; exact hf)

/-- A loop, with an invariant of the items it has gone through. -/
theorem Gives.foldlM {f : α → γ → Raising ε σ α} {g : α → γ → Except ε α}
    {I : List γ → α → Prop} (items : List γ) :
    ∀ (past : List γ) (a : α), I past a →
      (∀ past' a item rest, past ++ items = past' ++ item :: rest → I past' a →
        Gives (f a item) (g a item) ∧
          ∀ b, g a item = .ok b → I (past' ++ [item]) b) →
      Gives (items.foldlM f a) (items.foldlM g a) ∧
        ∀ b, items.foldlM g a = .ok b → I (past ++ items) b := by
  induction items with
  | nil =>
      intro past a h _
      rw [List.foldlM_nil, List.foldlM_nil]
      refine ⟨gives_pure a, fun b hb => ?_⟩
      cases hb
      simpa using h
  | cons item items ih =>
      intro past a h hstep
      obtain ⟨hgives, hnext⟩ := hstep past a item items rfl h
      have htail : ∀ b, g a item = .ok b →
          Gives (items.foldlM f b) (items.foldlM g b) ∧
            ∀ c, items.foldlM g b = .ok c → I ((past ++ [item]) ++ items) c := by
        intro b hb
        refine ih _ b (hnext b hb) (fun past' a' item' rest hsplit => ?_)
        refine hstep past' a' item' rest ?_
        rw [← hsplit, List.append_assoc]
        rfl
      rw [List.foldlM_cons, List.foldlM_cons]
      refine ⟨hgives.bind (fun b hb => (htail b hb).1), fun c hc => ?_⟩
      cases hb : g a item with
      | error e =>
          rw [hb] at hc
          cases hc
      | ok b =>
          rw [hb] at hc
          simpa [List.append_assoc] using (htail b hb).2 c hc

end Raising

end Imagin4.Verified
