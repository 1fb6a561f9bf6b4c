import Imagin4.Verified.Machine

/-!
# Clients of a shared state

A `Program` is what a client does: it makes calls, one after another, and goes
on with the answers.  Each call is one atomic step on a state that all clients
share; between two calls of one client anything may happen, calls of the other
clients as well as what the rest of the world does to the shared state.

## Main results

* `path_keeps` — what every call of a program keeps, a path through it keeps.
* `namesDistinct_step` — names that are fresh when a client starts stay
  distinct.
* `ClientRule.run` — the rule for invariants: what a client's own calls, the
  calls of others and the world keep, holds in every run.
-/

namespace Imagin4.Verified

universe u

/-- What a client does: it is done, or makes a call and goes on with the
answer. -/
inductive Program (Q : Type u) (R : Q → Type u) (α : Type u) : Type u where
  | done (a : α)
  | call (q : Q) (next : R q → Program Q R α)

variable {σ τ ε α β Q Q' : Type u} {R : Q → Type u} {R' : Q' → Type u}

namespace Program

/-- One program after another. -/
def bind : Program Q R α → (α → Program Q R β) → Program Q R β
  | done a, k => k a
  | call q next, k => call q (fun r => (next r).bind k)

/-- A program whose calls are made through another interface. -/
def through (send : Q → Q') (receive : ∀ q, R' (send q) → R q) :
    Program Q R α → Program Q' R' α
  | done a => done a
  | call q next =>
      call (send q) (fun r => (next (receive q r)).through send receive)

/-- Runs a program with nobody else around. -/
def run (handle : (q : Q) → σ → R q × σ) : Program Q R α → σ → α × σ
  | done a, s => (a, s)
  | call q next, s => (next (handle q s).1).run handle (handle q s).2

/-- The program makes these calls, gets these answers, and has that left to
do. -/
inductive Path : Program Q R α → List (Sigma R) → Program Q R α → Prop where
  | nil (p : Program Q R α) : Path p [] p
  | call {q : Q} {next : R q → Program Q R α} {r : R q}
      {calls : List (Sigma R)} {p : Program Q R α} :
      Path (next r) calls p → Path (call q next) (⟨q, r⟩ :: calls) p

theorem path_done {a : α} {calls : List (Sigma R)} {p : Program Q R α}
    (h : Path (done a) calls p) : calls = [] ∧ p = done a := by
  cases h
  exact ⟨rfl, rfl⟩

theorem path_call {q : Q} {next : R q → Program Q R α}
    {calls : List (Sigma R)} {p : Program Q R α}
    (h : Path (call q next) calls p) :
    (calls = [] ∧ p = call q next) ∨
      ∃ r rest, calls = ⟨q, r⟩ :: rest ∧ Path (next r) rest p := by
  cases h with
  | nil => exact .inl ⟨rfl, rfl⟩
  | call h => exact .inr ⟨_, _, rfl, h⟩

theorem Path.bind {p p' : Program Q R α} {calls : List (Sigma R)}
    (h : Path p calls p') (k : α → Program Q R β) :
    Path (p.bind k) calls (p'.bind k) := by
  induction h with
  | nil p => exact .nil _
  | call _ ih => exact .call ih

/-- What only looks at the end of a program makes no calls of its own. -/
theorem path_of_bind_done {k : α → β} {q : Q} {next : R q → Program Q R β}
    {calls : List (Sigma R)} {p : Program Q R α}
    (h : Path (p.bind (fun a => done (k a))) calls (call q next)) :
    ∃ next', Path p calls (call q next') := by
  induction calls generalizing p with
  | nil =>
      cases p with
      | done a => cases h
      | call q' next' =>
          cases h
          exact ⟨next', .nil _⟩
  | cons c calls ih =>
      cases p with
      | done a => cases h
      | call q' next' =>
          rcases path_call h with ⟨hnil, -⟩ | ⟨r, rest, hcalls, hrest⟩
          · cases hnil
          · cases hcalls
            obtain ⟨next'', hnext⟩ := ih hrest
            exact ⟨next'', .call hnext⟩

/-- What every call keeps, whatever it is answered, a path keeps. -/
theorem path_keeps {I : Program Q R α → Prop}
    (hstep : ∀ q next (r : R q), I (call q next) → I (next r))
    {calls : List (Sigma R)} {p p' : Program Q R α} (h : Path p calls p')
    (hp : I p) : I p' := by
  induction h with
  | nil p => exact hp
  | call _ ih => exact ih (hstep _ _ _ hp)

/-- The calls a program makes when each is answered this way, at most `n` of
them, and what it has left to do. -/
def follow (answer : (q : Q) → R q) :
    Nat → Program Q R α → List (Sigma R) × Program Q R α
  | 0, p => ([], p)
  | _ + 1, done a => ([], done a)
  | n + 1, call q next =>
      let rest := (next (answer q)).follow answer n
      (⟨q, answer q⟩ :: rest.1, rest.2)

theorem path_follow (answer : (q : Q) → R q) (n : Nat) :
    ∀ p : Program Q R α, Path p (p.follow answer n).1 (p.follow answer n).2 := by
  induction n with
  | zero => exact .nil
  | succ n ih =>
      intro p
      cases p with
      | done a => exact .nil _
      | call q next => exact .call (ih (next (answer q)))

/-- What `view` shows of the calls that were made. -/
def visible {V : Type u} (view : Q → Option V) (calls : List (Sigma R)) : List V :=
  (calls.map Sigma.fst).filterMap view

/-- Of the calls that `view` shows, the program makes some of these, in this
order, and it ends with `D`, whatever it is answered. -/
inductive Shows {V : Type u} (view : Q → Option V) (D : α → Prop) :
    List V → Program Q R α → Prop where
  | done {vs : List V} {a : α} : D a → Shows view D vs (done a)
  | hidden {vs : List V} {q : Q} {next : R q → Program Q R α} :
      view q = none → (∀ r, Shows view D vs (next r)) →
      Shows view D vs (call q next)
  | shown {v : V} {vs : List V} {q : Q} {next : R q → Program Q R α} :
      view q = some v → (∀ r, Shows view D vs (next r)) →
      Shows view D (v :: vs) (call q next)
  | skip {v : V} {vs : List V} {p : Program Q R α} :
      Shows view D vs p → Shows view D (v :: vs) p

section Shows

variable {V : Type u} {view : Q → Option V} {D : α → Prop} {vs ws : List V}

theorem Shows.path {p p' : Program Q R α} {calls : List (Sigma R)}
    (h : Shows view D vs p) :
    Path p calls p' → (visible view calls).Sublist vs := by
  unfold visible
  induction h generalizing calls with
  | done _ =>
      intro hpath
      rw [(path_done hpath).1]
      exact List.nil_sublist _
  | @hidden vs q next hview _ ih =>
      intro hpath
      rcases path_call hpath with ⟨rfl, _⟩ | ⟨r, rest, rfl, hrest⟩
      · exact List.nil_sublist _
      · rw [List.map_cons, List.filterMap_cons_none hview]
        exact ih r hrest
  | @shown v vs q next hview _ ih =>
      intro hpath
      rcases path_call hpath with ⟨rfl, _⟩ | ⟨r, rest, rfl, hrest⟩
      · exact List.nil_sublist _
      · rw [List.map_cons, List.filterMap_cons_some hview]
        exact (ih r hrest).cons_cons _
  | skip _ ih =>
      intro hpath
      exact (ih hpath).cons _

theorem Shows.append_left {p : Program Q R α} (h : Shows view D ws p)
    (vs : List V) : Shows view D (vs ++ ws) p := by
  induction vs with
  | nil => exact h
  | cons v vs ih => exact .skip ih

/-- What one program shows comes before what the next one shows. -/
theorem Shows.bind {E : β → Prop} {p : Program Q R α}
    {k : α → Program Q R β} (h : Shows view D vs p)
    (hk : ∀ a, D a → Shows view E ws (k a)) :
    Shows view E (vs ++ ws) (p.bind k) := by
  induction h with
  | done ha => exact (hk _ ha).append_left _
  | hidden hview _ ih => exact .hidden hview ih
  | shown hview _ ih => exact .shown hview ih
  | skip _ ih => exact .skip ih

theorem Shows.through {send : Q → Q'} {receive : ∀ q, R' (send q) → R q}
    {view' : Q' → Option V} {p : Program Q R α}
    (hview : ∀ q, view' (send q) = view q) (h : Shows view D vs p) :
    Shows view' D vs (p.through send receive) := by
  induction h with
  | done ha => exact .done ha
  | hidden hq _ ih => exact .hidden ((hview _).trans hq) (fun r => ih _)
  | shown hq _ ih => exact .shown ((hview _).trans hq) (fun r => ih _)
  | skip _ ih => exact .skip ih

end Shows

/-- Whatever it is answered, the program makes quiet calls until it is one of
`L`. -/
inductive Leads (quiet : Q → Prop) (L : Program Q R α → Prop) :
    Program Q R α → Prop where
  | leaf {p : Program Q R α} : L p → Leads quiet L p
  | call {q : Q} {next : R q → Program Q R α} :
      quiet q → (∀ r, Leads quiet L (next r)) → Leads quiet L (call q next)

theorem Leads.bind {quiet : Q → Prop} {D : α → Prop}
    {L : Program Q R β → Prop} {p : Program Q R α} {k : α → Program Q R β}
    (h : Leads quiet (fun p => ∃ a, p = done a ∧ D a) p)
    (hk : ∀ a, D a → Leads quiet L (k a)) : Leads quiet L (p.bind k) := by
  induction h with
  | leaf hdone =>
      obtain ⟨a, rfl, ha⟩ := hdone
      exact hk a ha
  | call hq _ ih => exact .call hq ih

end Program

/-! ## Many clients -/

/-- A client and the task it was started for. -/
structure Client (τ Q : Type u) (R : Q → Type u) (α : Type u) where
  task : τ
  program : Program Q R α

/-- The shared state, and the clients started so far. -/
structure Clients (σ τ Q : Type u) (R : Q → Type u) (α : Type u) where
  shared : σ
  clients : List (Client τ Q R α)

/-- A client starts, a client makes its next call, or the world changes the
shared state. -/
inductive ClientAction (τ ε : Type u) where
  | start (task : τ)
  | advance (n : Nat)
  | environment (e : ε)

namespace Clients

/-- Nobody has started. -/
def init (s : σ) : Clients σ τ Q R α := ⟨s, []⟩

/-- The client under a number. -/
def at? (s : Clients σ τ Q R α) (n : Nat) : Option (Client τ Q R α) :=
  s.clients[n]?

end Clients

section Steps

variable (program : τ → Program Q R α) (handle : (q : Q) → σ → R q × σ)
  (world : ε → σ → σ)

/-- One step of the clients and the world. -/
def clientStep (s : Clients σ τ Q R α) :
    ClientAction τ ε → Option (Clients σ τ Q R α)
  | .start task =>
      some { s with clients := s.clients ++ [⟨task, program task⟩] }
  | .advance n =>
      match s.at? n with
      | some ⟨task, .call q next⟩ =>
          let answer := handle q s.shared
          some ⟨answer.2, s.clients.set n ⟨task, next answer.1⟩⟩
      | _ => none
  | .environment e => some { s with shared := world e s.shared }

/-- The machine of all clients. -/
def clientMachine : Machine (Clients σ τ Q R α) (ClientAction τ ε) :=
  ⟨clientStep program handle world⟩

variable {program handle world} {s t : Clients σ τ Q R α}
  {a : ClientAction τ ε}

/-- What a step can be. -/
inductive ClientStepped (program : τ → Program Q R α)
    (handle : (q : Q) → σ → R q × σ) (world : ε → σ → σ)
    (s : Clients σ τ Q R α) :
    ClientAction τ ε → Clients σ τ Q R α → Prop where
  | start (task : τ) :
      ClientStepped program handle world s (.start task)
        { s with clients := s.clients ++ [⟨task, program task⟩] }
  | advance (n : Nat) (task : τ) (q : Q) (next : R q → Program Q R α) :
      s.at? n = some ⟨task, .call q next⟩ →
      ClientStepped program handle world s (.advance n)
        ⟨(handle q s.shared).2,
          s.clients.set n ⟨task, next (handle q s.shared).1⟩⟩
  | environment (e : ε) :
      ClientStepped program handle world s (.environment e)
        { s with shared := world e s.shared }

theorem clientStepped (h : clientStep program handle world s a = some t) :
    ClientStepped program handle world s a t := by
  cases a with
  | start task =>
      cases h
      exact .start task
  | advance n =>
      simp only [clientStep] at h
      split at h
      · rename_i task q next hn
        cases h
        exact .advance n task q next hn
      · cases h
  | environment e =>
      cases h
      exact .environment e

/-- A client's next call. -/
theorem step_advance {n : Nat} {task : τ} {q : Q}
    {next : R q → Program Q R α} (h : s.at? n = some ⟨task, .call q next⟩) :
    (clientMachine program handle world).step s (.advance n) =
      some ⟨(handle q s.shared).2,
        s.clients.set n ⟨task, next (handle q s.shared).1⟩⟩ := by
  simp only [clientMachine, clientStep, h]

theorem at?_append {task : τ} {p : Program Q R α} {m : Nat}
    {x : Client τ Q R α}
    (h : Clients.at? { s with clients := s.clients ++ [⟨task, p⟩] } m =
      some x) : s.at? m = some x ∨ m = s.clients.length ∧ x = ⟨task, p⟩ := by
  rw [Clients.at?, List.getElem?_append] at h
  split at h
  · exact .inl h
  · rename_i hlt
    rw [List.getElem?_singleton] at h
    split at h
    · rename_i hzero
      cases h
      exact .inr ⟨by omega, rfl⟩
    · cases h

theorem at?_append_of_at? {task : τ} {p : Program Q R α} {m : Nat}
    {x : Client τ Q R α} (h : s.at? m = some x) :
    Clients.at? { s with clients := s.clients ++ [⟨task, p⟩] } m = some x := by
  obtain ⟨hlt, _⟩ := List.getElem?_eq_some_iff.mp h
  rw [Clients.at?, List.getElem?_append_left hlt]
  exact h

theorem at?_set {d : σ} {n m : Nat} {x y : Client τ Q R α}
    (h : Clients.at? ⟨d, s.clients.set n x⟩ m = some y) :
    (m = n ∧ y = x) ∨ (m ≠ n ∧ s.at? m = some y) := by
  rw [Clients.at?, List.getElem?_set] at h
  by_cases hm : n = m
  · rw [if_pos hm] at h
    split at h
    · cases h
      exact .inl ⟨hm.symm, rfl⟩
    · cases h
  · rw [if_neg hm] at h
    exact .inr ⟨Ne.symm hm, h⟩

theorem at?_set_self {d : σ} {n : Nat} {x y : Client τ Q R α}
    (h : s.at? n = some y) :
    Clients.at? ⟨d, s.clients.set n x⟩ n = some x := by
  obtain ⟨hlt, _⟩ := List.getElem?_eq_some_iff.mp h
  rw [Clients.at?, List.getElem?_set, if_pos rfl, if_pos hlt]

theorem at?_set_ne {d : σ} {n m : Nat} {x y : Client τ Q R α} (hne : m ≠ n)
    (h : s.at? m = some y) :
    Clients.at? ⟨d, s.clients.set n x⟩ m = some y := by
  rw [Clients.at?, List.getElem?_set, if_neg (Ne.symm hne)]
  exact h

/-! ## Names of clients -/

/-- No two clients have the same name. -/
def NamesDistinct {ν : Type u} (name : τ → ν) (s : Clients σ τ Q R α) : Prop :=
  ∀ m n x y, s.at? m = some x → s.at? n = some y →
    name x.task = name y.task → m = n

/-- A client that starts has a name nobody has. -/
def StartsFresh {ν : Type u} (name : τ → ν) (s : Clients σ τ Q R α)
    (a : ClientAction τ ε) : Prop :=
  ∀ task, a = .start task → ∀ m x, s.at? m = some x → name x.task ≠ name task

theorem namesDistinct_step {ν : Type u} {name : τ → ν}
    (hs : NamesDistinct name s) (hfresh : StartsFresh name s a)
    (h : clientStep program handle world s a = some t) :
    NamesDistinct name t := by
  cases clientStepped h with
  | start task =>
      intro m n x y hx hy hname
      rcases at?_append hx with hx | ⟨rfl, rfl⟩
      · rcases at?_append hy with hy | ⟨rfl, rfl⟩
        · exact hs m n x y hx hy hname
        · exact absurd hname (hfresh task rfl m x hx)
      · rcases at?_append hy with hy | ⟨rfl, rfl⟩
        · exact absurd hname.symm (hfresh task rfl n y hy)
        · rfl
  | advance k task q next hk =>
      -- a client keeps its task when it makes a call
      have htask : ∀ {m : Nat} {x : Client τ Q R α},
          Clients.at? ⟨(handle q s.shared).2, s.clients.set k
            ⟨task, next (handle q s.shared).1⟩⟩ m = some x →
          ∃ y, s.at? m = some y ∧ y.task = x.task := by
        intro m x hx
        rcases at?_set hx with ⟨rfl, rfl⟩ | ⟨_, hold⟩
        · exact ⟨_, hk, rfl⟩
        · exact ⟨x, hold, rfl⟩
      intro m n x y hx hy hname
      obtain ⟨x', hx', htx⟩ := htask hx
      obtain ⟨y', hy', hty⟩ := htask hy
      exact hs m n x' y' hx' hy' (by rw [htx, hty, hname])
  | environment e => exact hs

/-! ## Clients in turn -/

/-- The program has ended. -/
def Program.Ended (p : Program Q R α) : Prop := ∃ a, p = .done a

/-- At most one client is under way. -/
def OneUnderWay (s : Clients σ τ Q R α) : Prop :=
  ∀ m n x y, s.at? m = some x → s.at? n = some y → ¬ x.program.Ended →
    ¬ y.program.Ended → m = n

/-- A client that starts finds all others at their ends. -/
def StartsAlone (s : Clients σ τ Q R α) (a : ClientAction τ ε) : Prop :=
  ∀ task, a = .start task → ∀ m x, s.at? m = some x → x.program.Ended

theorem oneUnderWay_step (hs : OneUnderWay s) (halone : StartsAlone s a)
    (h : clientStep program handle world s a = some t) : OneUnderWay t := by
  cases clientStepped h with
  | start task =>
      intro m n x y hx hy hxrun hyrun
      rcases at?_append hx with hx | ⟨rfl, rfl⟩
      · exact absurd (halone task rfl m x hx) hxrun
      · rcases at?_append hy with hy | ⟨rfl, rfl⟩
        · exact absurd (halone task rfl n y hy) hyrun
        · rfl
  | advance k task q next hk =>
      -- whoever is under way after the step was so before it
      have hold : ∀ {m : Nat} {x : Client τ Q R α},
          Clients.at? ⟨(handle q s.shared).2, s.clients.set k
            ⟨task, next (handle q s.shared).1⟩⟩ m = some x →
          ¬ x.program.Ended →
          ∃ y, s.at? m = some y ∧ ¬ y.program.Ended := by
        intro m x hx hrun
        rcases at?_set hx with ⟨rfl, _⟩ | ⟨_, hx⟩
        · exact ⟨_, hk, fun ⟨a, ha⟩ => by cases ha⟩
        · exact ⟨x, hx, hrun⟩
      intro m n x y hx hy hxrun hyrun
      obtain ⟨x', hx', hxrun'⟩ := hold hx hxrun
      obtain ⟨y', hy', hyrun'⟩ := hold hy hyrun
      exact hs m n x' y' hx' hy' hxrun' hyrun'
  | environment e => exact hs

/-- Beside a client that makes a call, all have ended. -/
theorem OneUnderWay.others_ended (hs : OneUnderWay s) {m n : Nat} {task : τ}
    {q : Q} {next : R q → Program Q R α} {y : Client τ Q R α}
    (hn : s.at? n = some ⟨task, .call q next⟩) (hm : s.at? m = some y)
    (hne : m ≠ n) : y.program.Ended := by
  apply Classical.byContradiction
  intro hrun
  exact hne (hs m n y _ hm hn hrun (fun ⟨a, ha⟩ => by cases ha))

theorem oneUnderWay_init {d : σ} :
    OneUnderWay (Clients.init d : Clients σ τ Q R α) := by
  intro m n x y hx
  simp [Clients.at?, Clients.init] at hx

/-! ## Invariants, one client at a time -/

/-- An invariant of the shared state, and one of every client relative to it. -/
structure ClientInvariants (I : σ → Prop) (T : σ → Client τ Q R α → Prop)
    (s : Clients σ τ Q R α) : Prop where
  shared : I s.shared
  each : ∀ n x, s.at? n = some x → T s.shared x

/-- What has to be shown of the steps that meet the condition `C`. -/
structure ClientRule (program : τ → Program Q R α)
    (handle : (q : Q) → σ → R q × σ) (world : ε → σ → σ)
    (C : Clients σ τ Q R α → ClientAction τ ε → Prop) (I : σ → Prop)
    (T : σ → Client τ Q R α → Prop) : Prop where
  start {s : Clients σ τ Q R α} {task : τ} :
    ClientInvariants I T s → C s (.start task) →
    T s.shared ⟨task, program task⟩
  advance {s : Clients σ τ Q R α} {n : Nat} {task : τ} {q : Q}
    {next : R q → Program Q R α} :
    ClientInvariants I T s → C s (.advance n) →
    s.at? n = some ⟨task, .call q next⟩ →
    I (handle q s.shared).2 ∧
      T (handle q s.shared).2 ⟨task, next (handle q s.shared).1⟩
  frame {s : Clients σ τ Q R α} {n m : Nat} {task : τ} {q : Q}
    {next : R q → Program Q R α} {y : Client τ Q R α} :
    ClientInvariants I T s → C s (.advance n) →
    s.at? n = some ⟨task, .call q next⟩ → m ≠ n → s.at? m = some y →
    T (handle q s.shared).2 y
  environment {s : Clients σ τ Q R α} {e : ε} :
    ClientInvariants I T s → C s (.environment e) →
    I (world e s.shared) ∧
      ∀ n y, s.at? n = some y → T (world e s.shared) y

variable {C : Clients σ τ Q R α → ClientAction τ ε → Prop} {I : σ → Prop}
  {T : σ → Client τ Q R α → Prop}

theorem ClientRule.step (rule : ClientRule program handle world C I T)
    (hs : ClientInvariants I T s) (hC : C s a)
    (h : clientStep program handle world s a = some t) :
    ClientInvariants I T t := by
  cases clientStepped h with
  | start task =>
      refine ⟨hs.shared, fun m y hy => ?_⟩
      rcases at?_append hy with hold | ⟨_, rfl⟩
      · exact hs.each m y hold
      · exact rule.start (s := s) hs hC
  | advance n task q next hn =>
      obtain ⟨hshared, hself⟩ := rule.advance hs hC hn
      refine ⟨hshared, fun m y hy => ?_⟩
      rcases at?_set hy with ⟨rfl, rfl⟩ | ⟨hne, hold⟩
      · exact hself
      · exact rule.frame hs hC hn hne hold
  | environment e =>
      obtain ⟨hshared, heach⟩ := rule.environment hs hC
      exact ⟨hshared, heach⟩

theorem clientInvariants_init {d : σ} (hd : I d) :
    ClientInvariants I T (Clients.init d : Clients σ τ Q R α) := by
  refine ⟨hd, fun n x hx => ?_⟩
  simp [Clients.at?, Clients.init] at hx

/-- **The rule.**  The invariants hold at the end of every run along the
condition. -/
theorem ClientRule.run (rule : ClientRule program handle world C I T)
    {as : List (ClientAction τ ε)} (hs : ClientInvariants I T s)
    (halong : (clientMachine program handle world).Along C s as)
    (hrun : (clientMachine program handle world).exec s as = some t) :
    ClientInvariants I T t :=
  Machine.invariant (M := clientMachine program handle world)
    (fun _ _ _ hs hC h => rule.step hs hC h) hs halong hrun

end Steps

end Imagin4.Verified
