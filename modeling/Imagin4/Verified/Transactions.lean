import Imagin4.Verified.Machine

/-!
# Transactions under READ COMMITTED

Several clients run transactions against one database, one statement at a time
and in any order.  A statement sees what is committed and what its own
transaction has written; a row version that a transaction has written is locked
until the transaction ends, and a statement that would write a row another
transaction holds waits.  What a transaction has written becomes visible to the
others when it commits.

A client's program is a `Script`, the free monad over the statements of the
database.  The `Database` says what a statement does: which row versions it
writes, and what it answers.  That it writes no row held by others is a field,
so that locks are exclusive by construction.

## Main results

* `exclusive_step` — no two transactions hold a lock in common.
* `LocalInvariant.run` — the rule for invariants: what each transaction keeps by
  its own statements and under the commits of others, all of them keep together.
* `committed_step` — only a commit changes what is committed.
-/

namespace Imagin4.Verified

universe u

/-- What a client sends: it ends the transaction, or sends a statement and goes
on with the answer. -/
inductive Script (Q : Type u) (R : Q → Type u) : Type u where
  | commit
  | rollback
  | query (q : Q) (next : R q → Script Q R)

/-- A database.  `put` installs a row version, `locks` are the locks that come
with writing it, and `answer` is the effect of a statement on a hint, the locks
held by others and the visible rows; a statement without an answer waits. -/
structure Database (δ V K H Q : Type u) (R : Q → Type u) where
  put : V → δ → δ
  locks : V → List K
  answer : (q : Q) → H → (K → Bool) → δ → Option (List V × R q)
  respects {q : Q} {h : H} {held : K → Bool} {d : δ} {vs : List V} {r : R q} :
    answer q h held d = some (vs, r) →
      ∀ v ∈ vs, ∀ k ∈ locks v, held k = false

/-- A transaction, and the operation it was begun for. -/
structure Tx (τ V Q : Type u) (R : Q → Type u) where
  op : τ
  script : Script Q R
  writes : List V
  ended : Bool := false

/-- The committed rows, and the transactions begun so far. -/
structure Sessions (δ τ V Q : Type u) (R : Q → Type u) where
  committed : δ
  transactions : List (Tx τ V Q R)

/-- What the clients do. -/
inductive SessionAction (τ H : Type u) where
  | begin (op : τ)
  | query (n : Nat) (hint : H)
  | commit (n : Nat)
  | rollback (n : Nat)

variable {δ V K H Q τ : Type u} {R : Q → Type u}

namespace Database

variable (db : Database δ V K H Q R)

/-- Installs row versions one after another. -/
def putAll (vs : List V) (d : δ) : δ := vs.foldl (fun d v => db.put v d) d

@[simp] theorem putAll_nil (d : δ) : db.putAll [] d = d := rfl

theorem putAll_append (vs ws : List V) (d : δ) :
    db.putAll (vs ++ ws) d = db.putAll ws (db.putAll vs d) := by
  unfold putAll
  rw [List.foldl_append]

/-- Runs a script with nothing in between; a statement that would wait rolls
back. -/
def alone (h : H) : Script Q R → δ → δ → δ
  | .commit, _, d => d
  | .rollback, start, _ => start
  | .query q next, start, d =>
      match db.answer q h (fun _ => false) d with
      | some (vs, r) => alone h (next r) start (db.putAll vs d)
      | none => start

end Database

namespace Tx

/-- The locks a transaction holds. -/
def locks (db : Database δ V K H Q R) (x : Tx τ V Q R) : List K :=
  x.writes.flatMap db.locks

/-- What a transaction sees. -/
def visible (db : Database δ V K H Q R) (x : Tx τ V Q R) (d : δ) : δ :=
  db.putAll x.writes d

/-- A transaction whose statement has written `vs`, and what it does next. -/
def next (x : Tx τ V Q R) (vs : List V) (script : Script Q R) : Tx τ V Q R :=
  { x with script := script, writes := x.writes ++ vs }

/-- A transaction that is over. -/
def close (x : Tx τ V Q R) : Tx τ V Q R := { x with writes := [], ended := true }

@[simp] theorem locks_close (db : Database δ V K H Q R) (x : Tx τ V Q R) :
    x.close.locks db = [] := rfl

theorem visible_next (db : Database δ V K H Q R) (x : Tx τ V Q R) (vs : List V)
    (script : Script Q R) (d : δ) :
    (x.next vs script).visible db d = db.putAll vs (x.visible db d) :=
  db.putAll_append x.writes vs d

theorem mem_locks_next {db : Database δ V K H Q R} {x : Tx τ V Q R}
    {vs : List V} {script : Script Q R} {k : K} :
    k ∈ (x.next vs script).locks db ↔
      k ∈ x.locks db ∨ ∃ v ∈ vs, k ∈ db.locks v := by
  simp [locks, next]

end Tx

namespace Sessions

/-- A database nobody is connected to. -/
def init (d : δ) : Sessions δ τ V Q R := ⟨d, []⟩

/-- Transaction `n` goes on. -/
def set (s : Sessions δ τ V Q R) (n : Nat) (x : Tx τ V Q R) :
    Sessions δ τ V Q R :=
  { s with transactions := s.transactions.set n x }

/-- Does a transaction other than `n` hold the lock? -/
def held [DecidableEq K] (db : Database δ V K H Q R)
    (s : Sessions δ τ V Q R) (n : Nat) (k : K) : Bool :=
  (s.transactions.eraseIdx n).any (fun x => decide (k ∈ x.locks db))

/-- The open transaction under a number. -/
def openTx (s : Sessions δ τ V Q R) (n : Nat) : Option (Tx τ V Q R) :=
  s.transactions[n]?.filter (fun x => !x.ended)

theorem openTx_eq_some {s : Sessions δ τ V Q R} {n : Nat} {x : Tx τ V Q R} :
    s.openTx n = some x ↔ s.transactions[n]? = some x ∧ x.ended = false := by
  simp [openTx, Option.filter_eq_some_iff]

end Sessions

/-! ## Steps -/

section Steps

variable [DecidableEq K] (db : Database δ V K H Q R) (program : τ → Script Q R)

/-- One step of the clients. -/
def sessionStep (s : Sessions δ τ V Q R) :
    SessionAction τ H → Option (Sessions δ τ V Q R)
  | .begin op =>
      some { s with
        transactions := s.transactions ++ [{
          op := op
          script := program op
          writes := [] }] }
  | .query n hint =>
      match s.openTx n with
      | none => none
      | some x =>
          match x.script with
          | .query q next =>
              match db.answer q hint (s.held db n) (x.visible db s.committed) with
              | some (vs, r) => some (s.set n (x.next vs (next r)))
              | none => none
          | _ => none
  | .commit n =>
      match s.openTx n with
      | none => none
      | some x =>
          match x.script with
          | .commit =>
              some { s.set n x.close with
                committed := x.visible db s.committed }
          | _ => none
  | .rollback n =>
      match s.openTx n with
      | none => none
      | some x => some (s.set n x.close)

/-- The machine of all transactions. -/
def transactions : Machine (Sessions δ τ V Q R) (SessionAction τ H) :=
  ⟨sessionStep db program⟩

variable {db program} {s t : Sessions δ τ V Q R} {a : SessionAction τ H}

/-- The action commits a transaction. -/
def Commits (s : Sessions δ τ V Q R) (a : SessionAction τ H)
    (x : Tx τ V Q R) : Prop :=
  ∃ n, a = .commit n ∧ s.openTx n = some x ∧ x.script = .commit

/-- What a step can be. -/
inductive Stepped (db : Database δ V K H Q R) (program : τ → Script Q R)
    (s : Sessions δ τ V Q R) :
    SessionAction τ H → Sessions δ τ V Q R → Prop where
  | begin (op : τ) :
      Stepped db program s (.begin op)
        { s with
          transactions := s.transactions ++ [⟨op, program op, [], false⟩] }
  | query (n : Nat) (hint : H) (x : Tx τ V Q R) (q : Q)
      (next : R q → Script Q R) (vs : List V) (r : R q) :
      s.openTx n = some x → x.script = .query q next →
      db.answer q hint (s.held db n) (x.visible db s.committed) =
        some (vs, r) →
      Stepped db program s (.query n hint) (s.set n (x.next vs (next r)))
  | commit (n : Nat) (x : Tx τ V Q R) :
      s.openTx n = some x → x.script = .commit →
      Stepped db program s (.commit n)
        { s.set n x.close with committed := x.visible db s.committed }
  | rollback (n : Nat) (x : Tx τ V Q R) :
      s.openTx n = some x →
      Stepped db program s (.rollback n) (s.set n x.close)

theorem stepped (h : sessionStep db program s a = some t) :
    Stepped db program s a t := by
  cases a with
  | begin op =>
      cases h
      exact .begin op
  | query n hint =>
      simp only [sessionStep] at h
      cases hx : s.openTx n with
      | none => simp [hx] at h
      | some x =>
          simp only [hx] at h
          cases hscript : x.script with
          | commit => simp [hscript] at h
          | rollback => simp [hscript] at h
          | query q next =>
              simp only [hscript] at h
              split at h
              · rename_i vs r hanswer
                cases h
                exact .query n hint x q next vs r hx hscript hanswer
              · cases h
  | commit n =>
      simp only [sessionStep] at h
      cases hx : s.openTx n with
      | none => simp [hx] at h
      | some x =>
          simp only [hx] at h
          cases hscript : x.script with
          | commit =>
              simp only [hscript] at h
              cases h
              exact .commit n x hx hscript
          | rollback => simp [hscript] at h
          | query q next => simp [hscript] at h
  | rollback n =>
      simp only [sessionStep] at h
      cases hx : s.openTx n with
      | none => simp [hx] at h
      | some x =>
          simp only [hx] at h
          cases h
          exact .rollback n x hx

/-- Only a commit changes what is committed. -/
theorem committed_step (h : sessionStep db program s a = some t) :
    t.committed = s.committed ∨
      ∃ x, Commits s a x ∧ t.committed = x.visible db s.committed := by
  cases stepped h with
  | begin op => exact Or.inl rfl
  | query n hint x q next vs r => exact Or.inl rfl
  | commit n x hx hscript => exact Or.inr ⟨x, ⟨n, rfl, hx, hscript⟩, rfl⟩
  | rollback n x => exact Or.inl rfl

/-- A commit makes what the transaction has written visible. -/
theorem committed_of_commits {x : Tx τ V Q R} (hx : Commits s a x)
    (h : sessionStep db program s a = some t) :
    t.committed = x.visible db s.committed := by
  obtain ⟨n, rfl, hopen, _⟩ := hx
  cases stepped h with
  | commit _ y hy _ =>
      rw [hopen] at hy
      cases hy
      rfl

/-! ## Locks are exclusive -/

/-- No two transactions hold a lock in common. -/
def Exclusive (db : Database δ V K H Q R) (s : Sessions δ τ V Q R) : Prop :=
  ∀ (m n : Nat) (x y : Tx τ V Q R), m ≠ n → s.transactions[m]? = some x →
    s.transactions[n]? = some y → ∀ k ∈ x.locks db, k ∉ y.locks db

theorem held_eq_false {n m : Nat} {y : Tx τ V Q R} {k : K}
    (h : s.held db n k = false) (hne : m ≠ n)
    (hy : s.transactions[m]? = some y) : k ∉ y.locks db := by
  have hmem : y ∈ s.transactions.eraseIdx n :=
    List.mem_eraseIdx_iff_getElem?.mpr ⟨m, hne, hy⟩
  simpa using List.any_eq_false.mp h y hmem

omit [DecidableEq K] in
theorem exclusive_set {n : Nat} {x : Tx τ V Q R} (hs : Exclusive db s)
    (hfree : ∀ m y, m ≠ n → s.transactions[m]? = some y →
      ∀ k ∈ x.locks db, k ∉ y.locks db) :
    Exclusive db (s.set n x) := by
  intro i j y z hij hy hz k hk hk'
  simp only [Sessions.set, List.getElem?_set] at hy hz
  by_cases hi : n = i
  · subst hi
    rw [if_neg hij] at hz
    rw [if_pos rfl] at hy
    split at hy
    · cases hy
      exact hfree j z (Ne.symm hij) hz k hk hk'
    · cases hy
  · rw [if_neg hi] at hy
    by_cases hj : n = j
    · subst hj
      rw [if_pos rfl] at hz
      split at hz
      · cases hz
        exact hfree i y hij hy k hk' hk
      · cases hz
    · rw [if_neg hj] at hz
      exact hs i j y z hij hy hz k hk hk'

theorem exclusive_step (hs : Exclusive db s)
    (h : sessionStep db program s a = some t) : Exclusive db t := by
  cases stepped h with
  | begin op =>
      intro i j y z hij hy hz k hk hk'
      have hold : ∀ {i : Nat} {y : Tx τ V Q R},
          (s.transactions ++ [⟨op, program op, [], false⟩])[i]? = some y →
          k ∈ y.locks db → s.transactions[i]? = some y := by
        intro i y hy hk
        rw [List.getElem?_append] at hy
        split at hy
        · exact hy
        · rw [List.getElem?_singleton] at hy
          split at hy
          · cases hy
            cases hk
          · cases hy
      exact hs i j y z hij (hold hy hk) (hold hz hk') k hk hk'
  | query n hint x q next vs r hx hscript hanswer =>
      obtain ⟨hn, _⟩ := Sessions.openTx_eq_some.mp hx
      refine exclusive_set hs (fun m y hne hy k hk => ?_)
      rcases Tx.mem_locks_next.mp hk with hold | ⟨v, hv, hkv⟩
      · exact hs n m x y hne.symm hn hy k hold
      · exact held_eq_false (db.respects hanswer v hv k hkv) hne hy
  | commit n x hx hscript =>
      exact exclusive_set hs (fun m y _ _ k hk => by simp at hk)
  | rollback n x hx =>
      exact exclusive_set hs (fun m y _ _ k hk => by simp at hk)

/-! ## Invariants, one transaction at a time -/

/-- An invariant of what is committed, and one of each open transaction
relative to it.  Every transaction keeps its own by its statements and under
the commits of others, and re-establishes the committed one when it commits. -/
structure LocalInvariant (db : Database δ V K H Q R)
    (program : τ → Script Q R) (allowed : τ → Prop) (I : δ → Prop)
    (T : δ → Tx τ V Q R → Prop) : Prop where
  begin {d : δ} {op : τ} : I d → allowed op → T d ⟨op, program op, [], false⟩
  query {d : δ} {x : Tx τ V Q R} {q : Q} {next : R q → Script Q R} {hint : H}
    {held : K → Bool} {vs : List V} {r : R q} :
    I d → T d x → x.script = .query q next →
    db.answer q hint held (x.visible db d) = some (vs, r) →
    T d (x.next vs (next r))
  commit {d : δ} {x : Tx τ V Q R} :
    I d → T d x → x.script = .commit → I (x.visible db d)
  frame {d : δ} {x y : Tx τ V Q R} :
    I d → T d x → T d y → y.script = .commit →
    (∀ k ∈ x.locks db, k ∉ y.locks db) → T (y.visible db d) x

/-- Everything the rule keeps. -/
structure Invariants (db : Database δ V K H Q R) (I : δ → Prop)
    (T : δ → Tx τ V Q R → Prop) (s : Sessions δ τ V Q R) : Prop where
  committed : I s.committed
  each : ∀ n x, s.openTx n = some x → T s.committed x
  exclusive : Exclusive db s

/-- The operations a schedule begins are allowed. -/
def BeginsAllowed (allowed : τ → Prop) (a : SessionAction τ H) : Prop :=
  ∀ op, a = .begin op → allowed op

section Rule

variable {allowed : τ → Prop} {I : δ → Prop} {T : δ → Tx τ V Q R → Prop}

theorem openTx_set {n m : Nat} {x y : Tx τ V Q R}
    (h : (s.set n x).openTx m = some y) :
    (m = n ∧ y = x ∧ x.ended = false) ∨ (m ≠ n ∧ s.openTx m = some y) := by
  obtain ⟨hy, hended⟩ := Sessions.openTx_eq_some.mp h
  simp only [Sessions.set, List.getElem?_set] at hy
  by_cases hm : n = m
  · rw [if_pos hm] at hy
    split at hy
    · cases hy
      exact Or.inl ⟨hm.symm, rfl, hended⟩
    · cases hy
  · rw [if_neg hm] at hy
    exact Or.inr ⟨Ne.symm hm, Sessions.openTx_eq_some.mpr ⟨hy, hended⟩⟩

theorem LocalInvariant.step (rule : LocalInvariant db program allowed I T)
    (hs : Invariants db I T s) (hbegin : BeginsAllowed allowed a)
    (h : sessionStep db program s a = some t) : Invariants db I T t := by
  have hexclusive := exclusive_step hs.exclusive h
  cases stepped h with
  | begin op =>
      refine ⟨hs.committed, fun m y hy => ?_, hexclusive⟩
      obtain ⟨hget, hended⟩ := Sessions.openTx_eq_some.mp hy
      rw [List.getElem?_append] at hget
      split at hget
      · exact hs.each m y (Sessions.openTx_eq_some.mpr ⟨hget, hended⟩)
      · rw [List.getElem?_singleton] at hget
        split at hget
        · cases hget
          exact rule.begin hs.committed (hbegin op rfl)
        · cases hget
  | query n hint x q next vs r hx hscript hanswer =>
      refine ⟨hs.committed, fun m y hy => ?_, hexclusive⟩
      rcases openTx_set hy with ⟨_, rfl, _⟩ | ⟨_, hold⟩
      · exact rule.query hs.committed (hs.each n x hx) hscript hanswer
      · exact hs.each m y hold
  | commit n x hx hscript =>
      refine ⟨rule.commit hs.committed (hs.each n x hx) hscript,
        fun m y hy => ?_, hexclusive⟩
      rcases openTx_set (s := s) hy with ⟨_, _, hended⟩ | ⟨hne, hold⟩
      · cases hended
      · have hfree := hs.exclusive m n y x hne
          (Sessions.openTx_eq_some.mp hold).1 (Sessions.openTx_eq_some.mp hx).1
        exact rule.frame hs.committed (hs.each m y hold) (hs.each n x hx)
          hscript hfree
  | rollback n x hx =>
      refine ⟨hs.committed, fun m y hy => ?_, hexclusive⟩
      rcases openTx_set (s := s) hy with ⟨_, _, hended⟩ | ⟨_, hold⟩
      · cases hended
      · exact hs.each m y hold

omit [DecidableEq K] in
theorem invariants_init {d : δ} (hd : I d) :
    Invariants db I T (Sessions.init d : Sessions δ τ V Q R) := by
  refine ⟨hd, fun n x hx => ?_, fun m n x y _ hx => ?_⟩
  · simp [Sessions.openTx, Sessions.init] at hx
  · simp [Sessions.init] at hx

/-- **The rule.**  A local invariant holds in every state of every run. -/
theorem LocalInvariant.run (rule : LocalInvariant db program allowed I T)
    {as : List (SessionAction τ H)} (hbegin : ∀ a ∈ as, BeginsAllowed allowed a)
    (hs : Invariants db I T s)
    (hrun : (transactions db program).exec s as = some t) :
    Invariants db I T t := by
  refine Machine.invariant (M := transactions db program)
    (C := fun _ a => BeginsAllowed allowed a)
    (fun _ _ _ hs hbegin h => rule.step hs hbegin h) hs ?_ hrun
  refine Machine.along_of_split hrun (fun pre a post _ hsplit _ => ?_)
  exact hbegin a (by simp [hsplit])

end Rule

end Steps

end Imagin4.Verified
