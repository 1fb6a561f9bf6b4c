import Mathlib.Data.List.Sort
import Mathlib.Data.String.Basic
import Imagin4.Verified.RoundRobin
import Imagin4.Verified.Table
import Imagin4.Ports.Python

/-!
# The visiting order of the users

`weighted_round_robin_order` of `app/domain/jobs/fairness.py` goes round the users
of a map of queue depths until nobody has a job left.  The map is consumed while the
order is made.

## Main results

* `visits_fairly` — the loop ends, every user has as many turns as jobs, and at no
  point of the order is a user more than one turn behind another, except when done.
-/

namespace Imagin4.Ports

open Imagin4.Verified
open Imagin4.Verified.RoundRobin (round rounds)

/-- A `dict[str, int]`. -/
abbrev QueueDepths := Table (Prod.fst : String × Int → String)

/-- `remaining[user_id] -= 1`, of the row that is there. -/
def takeTurn (row : String × Int) : String × Int := (row.1, row.2 - 1)

theorem takeTurn_fst (row : String × Int) : (takeTurn row).1 = row.1 := rfl

/-- The body of the inner loop. -/
def visitUser (state : QueueDepths × List String) (userId : String) :
    Except PyError (QueueDepths × List String) :=
  match state.1.find? userId with
  | none => .error "KeyError"
  | some row =>
      if 0 < row.2 then
        .ok (state.1.modify userId takeTurn takeTurn_fst, state.2 ++ [userId])
      else .ok state

/-- `sorted(remaining)`. -/
def sortedUsers (remaining : QueueDepths) : List String :=
  (remaining.rows.map Prod.fst).insertionSort (· ≤ ·)

/-- The outer loop, for at most `fuel` tests of its condition. -/
def roundRobinLoop : Nat → QueueDepths → List String →
    Option (Except PyError (List String))
  | 0, _, _ => none
  | fuel + 1, remaining, order =>
      if remaining.rows.any (fun row => decide (0 < row.2)) then
        match (sortedUsers remaining).foldlM visitUser (remaining, order) with
        | .error e => some (.error e)
        | .ok (remaining, order) => roundRobinLoop fuel remaining order
      else some (.ok order)

def weightedRoundRobinOrder (fuel : Nat) (userQueueDepths : QueueDepths) :
    Option (Except PyError (List String)) :=
  roundRobinLoop fuel userQueueDepths []

/-! ## One round -/

/-- `remaining[user_id]`, 0 where there is no such key. -/
def depthOf (depths : QueueDepths) (userId : String) : Int :=
  ((depths.find? userId).map Prod.snd).getD 0

theorem depthOf_of_mem {depths : QueueDepths} {row : String × Int}
    (h : row ∈ depths) : depthOf depths row.1 = row.2 := by
  simp [depthOf, Table.find?_key h]

theorem mem_sortedUsers {depths : QueueDepths} {user : String} :
    user ∈ sortedUsers depths ↔ user ∈ depths.rows.map Prod.fst :=
  (List.perm_insertionSort _ _).mem_iff

theorem nodup_sortedUsers (depths : QueueDepths) : (sortedUsers depths).Nodup :=
  (List.perm_insertionSort _ _).nodup_iff.mpr depths.nodup

/-- The map after the users of a list have been visited. -/
def visited (users : List String) (remaining : QueueDepths) : QueueDepths :=
  remaining.modifyWhere (fun row => decide (row.1 ∈ users ∧ 0 < row.2)) takeTurn
    takeTurn_fst

theorem visited_nil (remaining : QueueDepths) : visited [] remaining = remaining :=
  Table.modifyWhere_eq_self (fun row _ => by simp)

theorem visited_cons_of_done {user : String} {users : List String}
    {remaining : QueueDepths} (h : ¬ 0 < depthOf remaining user) :
    visited (user :: users) remaining = visited users remaining := by
  apply Table.ext_rows
  refine List.map_congr_left (fun row hRow => ?_)
  by_cases hUser : row.1 = user
  · have hDone : ¬ 0 < row.2 := by
      rw [← depthOf_of_mem hRow, hUser]
      exact h
    simp [hDone]
  · simp [hUser]

theorem visited_cons {user : String} {users : List String}
    {remaining : QueueDepths} (hUser : user ∉ users)
    (h : 0 < depthOf remaining user) :
    visited (user :: users) remaining =
      visited users (remaining.modify user takeTurn takeTurn_fst) := by
  apply Table.ext_rows
  show remaining.rows.map _ = (remaining.rows.map _).map _
  rw [List.map_map]
  refine List.map_congr_left (fun row hRow => ?_)
  by_cases hRowUser : row.1 = user
  · have hLeft : 0 < row.2 := by
      rw [← depthOf_of_mem hRow, hRowUser]
      exact h
    simp [hRowUser, hLeft, hUser, takeTurn_fst]
  · simp [hRowUser]

theorem depthOf_modify_ne {remaining : QueueDepths} {user other : String}
    (h : other ≠ user) :
    depthOf (remaining.modify user takeTurn takeTurn_fst) other =
      depthOf remaining other := by
  simp [depthOf, Table.find?_modify, h]

theorem keys_modifyWhere {remaining : QueueDepths} {p : String × Int → Bool}
    {f : String × Int → String × Int} {hf : ∀ row, (f row).1 = row.1} :
    (remaining.modifyWhere p f hf).rows.map Prod.fst =
      remaining.rows.map Prod.fst :=
  (Table.rewritten_modifyWhere hf hf).map_view

/-- The inner loop visits every user of its list once. -/
theorem foldlM_visitUser (users : List String) :
    ∀ (remaining : QueueDepths) (order : List String), users.Nodup →
      (∀ user ∈ users, user ∈ remaining.rows.map Prod.fst) →
      users.foldlM visitUser (remaining, order) =
        .ok (visited users remaining,
          order ++ users.filter (fun user => decide (0 < depthOf remaining user))) := by
  induction users with
  | nil =>
      intro remaining order _ _
      simp [visited_nil, pure, Except.pure]
  | cons user users ih =>
      intro remaining order hNodup hUsers
      have hUser : user ∉ users := (List.nodup_cons.mp hNodup).1
      have hRest : users.Nodup := (List.nodup_cons.mp hNodup).2
      obtain ⟨row, hRow, hKey⟩ := List.mem_map.mp (hUsers user (by simp))
      have hFind : remaining.find? user = some row :=
        Table.find?_eq_some_iff.mpr ⟨hRow, hKey⟩
      have hDepth : depthOf remaining user = row.2 := by
        rw [← hKey]
        exact depthOf_of_mem hRow
      rw [List.foldlM_cons]
      by_cases hLeft : 0 < row.2
      · have hVisit : visitUser (remaining, order) user =
            .ok (remaining.modify user takeTurn takeTurn_fst, order ++ [user]) := by
          simp [visitUser, hFind, hLeft]
        have hKeys : ∀ other ∈ users,
            other ∈ (remaining.modify user takeTurn takeTurn_fst).rows.map Prod.fst := by
          intro other hOther
          rw [Table.modify, keys_modifyWhere]
          exact hUsers other (List.mem_cons_of_mem _ hOther)
        have hFilter : users.filter (fun other => decide
              (0 < depthOf (remaining.modify user takeTurn takeTurn_fst) other)) =
            users.filter (fun other => decide (0 < depthOf remaining other)) := by
          refine List.filter_congr (fun other hOther => ?_)
          have hNe : other ≠ user := fun h => hUser (h ▸ hOther)
          rw [depthOf_modify_ne hNe]
        rw [hVisit]
        show users.foldlM visitUser (_, _) = _
        rw [ih _ _ hRest hKeys, hFilter, visited_cons hUser (hDepth ▸ hLeft)]
        simp [hDepth, hLeft]
      · have hVisit : visitUser (remaining, order) user = .ok (remaining, order) := by
          simp [visitUser, hFind, hLeft]
        rw [hVisit]
        show users.foldlM visitUser (_, _) = _
        rw [ih _ _ hRest (fun other hOther => hUsers other (List.mem_cons_of_mem _ hOther)),
          visited_cons_of_done (hDepth ▸ hLeft)]
        simp [hDepth, hLeft]

/-! ## All rounds -/

/-- The turns of a user: one for every job. -/
def turnsOf (depths : QueueDepths) (userId : String) : Nat :=
  (depthOf depths userId).toNat

/-- The map after `k` rounds. -/
def afterRounds (k : Nat) (depths : QueueDepths) : QueueDepths :=
  depths.modifyWhere (fun _ => true) (fun row => (row.1, row.2 - min k row.2.toNat))
    (fun _ => rfl)

theorem sortedUsers_afterRounds (k : Nat) (depths : QueueDepths) :
    sortedUsers (afterRounds k depths) = sortedUsers depths := by
  rw [sortedUsers, afterRounds, keys_modifyWhere]
  rfl

theorem afterRounds_zero (depths : QueueDepths) : afterRounds 0 depths = depths := by
  apply Table.ext_rows
  show depths.rows.map _ = depths.rows
  conv_rhs => rw [← List.map_id depths.rows]
  exact List.map_congr_left (fun row _ => by simp)

/-- A round turns the map after `k` rounds into the map after `k + 1`. -/
theorem visited_afterRounds (k : Nat) (depths : QueueDepths) :
    visited (sortedUsers depths) (afterRounds k depths) =
      afterRounds (k + 1) depths := by
  apply Table.ext_rows
  show (depths.rows.map _).map _ = depths.rows.map _
  rw [List.map_map]
  refine List.map_congr_left (fun row hRow => ?_)
  have hUser : row.1 ∈ sortedUsers depths :=
    mem_sortedUsers.mpr (List.mem_map_of_mem hRow)
  by_cases hLeft : 0 < row.2 - min k row.2.toNat
  · simp only [Function.comp_apply, if_true, hUser, hLeft, and_self, decide_true,
      takeTurn, Prod.mk.injEq, true_and]
    omega
  · simp only [Function.comp_apply, if_true, hLeft, and_false, decide_false,
      Bool.false_eq_true, if_false, Prod.mk.injEq, true_and]
    omega

theorem depthOf_afterRounds (k : Nat) (depths : QueueDepths) (user : String) :
    depthOf (afterRounds k depths) user =
      depthOf depths user - min k (turnsOf depths user) := by
  rw [turnsOf, depthOf, afterRounds, Table.find?_modifyWhere, depthOf]
  cases depths.find? user with
  | none => simp
  | some row => rfl

/-- In round `k` those take a turn who have had `k` and have more. -/
theorem filter_afterRounds (k : Nat) (depths : QueueDepths) :
    (sortedUsers depths).filter
        (fun user => decide (0 < depthOf (afterRounds k depths) user)) =
      round (sortedUsers depths) (turnsOf depths) k := by
  refine List.filter_congr (fun user _ => ?_)
  rw [depthOf_afterRounds]
  unfold turnsOf
  by_cases hk : k < (depthOf depths user).toNat
  · have hLeft : 0 < depthOf depths user - min k (depthOf depths user).toNat := by
      omega
    simp only [hk, hLeft]
  · have hDone : ¬ 0 < depthOf depths user - min k (depthOf depths user).toNat := by
      omega
    simp only [hk, hDone]

/-- After as many rounds everybody is done. -/
def lastRound (depths : QueueDepths) : Nat :=
  RoundRobin.allTurns (turnsOf depths) (sortedUsers depths)

theorem turnsOf_le_lastRound {depths : QueueDepths} {user : String}
    (h : user ∈ sortedUsers depths) : turnsOf depths user ≤ lastRound depths :=
  RoundRobin.turns_le_allTurns h

/-- The condition of the outer loop after `k` rounds. -/
theorem any_afterRounds {k : Nat} {depths : QueueDepths} :
    (afterRounds k depths).rows.any (fun row => decide (0 < row.2)) = true ↔
      ∃ user ∈ sortedUsers depths, k < turnsOf depths user := by
  have hLeft : ∀ row ∈ depths, 0 < row.2 - min k row.2.toNat ↔
      k < turnsOf depths row.1 := by
    intro row hRow
    rw [turnsOf, depthOf_of_mem hRow]
    omega
  constructor
  · intro h
    obtain ⟨taken, hTaken, hPos⟩ := List.any_eq_true.mp h
    obtain ⟨row, hRow, rfl⟩ := List.mem_map.mp hTaken
    exact ⟨row.1, mem_sortedUsers.mpr (List.mem_map_of_mem hRow),
      (hLeft row hRow).mp (of_decide_eq_true hPos)⟩
  · rintro ⟨user, hUser, hk⟩
    obtain ⟨row, hRow, rfl⟩ := List.mem_map.mp (mem_sortedUsers.mp hUser)
    exact List.any_eq_true.mpr ⟨_, List.mem_map_of_mem hRow,
      decide_eq_true ((hLeft row hRow).mpr hk)⟩

/-- The outer loop, entered after `k` rounds with `n` to go. -/
theorem roundRobinLoop_afterRounds (depths : QueueDepths) (n : Nat) :
    ∀ (k fuel : Nat), k + n = lastRound depths → n < fuel →
      roundRobinLoop fuel (afterRounds k depths)
          (rounds (sortedUsers depths) (turnsOf depths) k) =
        some (.ok (rounds (sortedUsers depths) (turnsOf depths)
          (lastRound depths))) := by
  induction n with
  | zero =>
      intro k fuel hk hFuel
      obtain ⟨fuel, rfl⟩ : ∃ m, fuel = m + 1 := ⟨fuel - 1, by omega⟩
      have hDone : ¬ (afterRounds k depths).rows.any
          (fun row => decide (0 < row.2)) = true := by
        rw [any_afterRounds]
        rintro ⟨user, hUser, hLeft⟩
        have hLast := turnsOf_le_lastRound hUser
        omega
      rw [roundRobinLoop, if_neg hDone, ← hk]
      rfl
  | succ n ih =>
      intro k fuel hk hFuel
      obtain ⟨fuel, rfl⟩ : ∃ m, fuel = m + 1 := ⟨fuel - 1, by omega⟩
      rw [roundRobinLoop]
      by_cases hLeft : (afterRounds k depths).rows.any
          (fun row => decide (0 < row.2)) = true
      · have hRound := foldlM_visitUser (sortedUsers depths) (afterRounds k depths)
          (rounds (sortedUsers depths) (turnsOf depths) k) (nodup_sortedUsers depths)
          (fun user hUser => by
            rw [afterRounds, keys_modifyWhere]
            exact mem_sortedUsers.mp hUser)
        rw [visited_afterRounds, filter_afterRounds] at hRound
        rw [if_pos hLeft, sortedUsers_afterRounds, hRound]
        exact ih (k + 1) fuel (by omega) (by omega)
      · have hDone : ∀ user ∈ sortedUsers depths, turnsOf depths user ≤ k := by
          intro user hUser
          by_contra hMore
          exact hLeft (any_afterRounds.mpr ⟨user, hUser, by omega⟩)
        rw [if_neg hLeft, ← hk, RoundRobin.rounds_of_done hDone]

theorem weightedRoundRobinOrder_eq {depths : QueueDepths} {fuel : Nat}
    (hFuel : lastRound depths < fuel) :
    weightedRoundRobinOrder fuel depths =
      some (.ok (rounds (sortedUsers depths) (turnsOf depths) (lastRound depths))) := by
  have h := roundRobinLoop_afterRounds depths (lastRound depths) 0 fuel
    (by omega) hFuel
  rwa [afterRounds_zero] at h

/-- The order of a map of queue depths: every user has as many turns as jobs, nobody
else has one, and who is more than one turn behind is done. -/
structure VisitsFairly (depths : QueueDepths) (order : List String) : Prop where
  turns {user : String} {depth : Int} : (user, depth) ∈ depths →
    (order.count user : Int) = max depth 0
  nobodyElse {user : String} : user ∈ order → user ∈ depths.rows.map Prod.fst
  fair {p : List String} {behind ahead : String × Int} : p <+: order →
    behind ∈ depths → ahead ∈ depths →
    p.count ahead.1 ≤ p.count behind.1 + 1 ∨
      (p.count behind.1 : Int) = max behind.2 0

theorem visits_fairly (depths : QueueDepths) :
    ∃ order, VisitsFairly depths order ∧
      ∃ n, ∀ fuel, n ≤ fuel → weightedRoundRobinOrder fuel depths = some (.ok order) := by
  have hNodup := nodup_sortedUsers depths
  have hMem : ∀ row ∈ depths, row.1 ∈ sortedUsers depths := fun row hRow =>
    mem_sortedUsers.mpr (List.mem_map_of_mem hRow)
  have hTurns : ∀ row ∈ depths, (turnsOf depths row.1 : Int) = max row.2 0 := by
    intro row hRow
    rw [turnsOf, depthOf_of_mem hRow]
    omega
  refine ⟨rounds (sortedUsers depths) (turnsOf depths) (lastRound depths),
    ⟨fun {user depth} hRow => ?_, fun hUser => ?_, fun {p behind ahead} hp hb ha => ?_⟩,
    lastRound depths + 1, fun fuel hFuel => weightedRoundRobinOrder_eq hFuel⟩
  · have hUser := hMem _ hRow
    have hLast := turnsOf_le_lastRound hUser
    rw [RoundRobin.count_rounds hNodup hUser, Nat.min_eq_right hLast]
    exact hTurns _ hRow
  · exact mem_sortedUsers.mp (RoundRobin.mem_of_mem_rounds hUser)
  · rcases RoundRobin.rounds_fair hNodup (hMem _ hb) (hMem _ ha) hp with h | h
    · exact .inl h
    · right
      rw [h]
      exact hTurns _ hb

example : weightedRoundRobinOrder 4 ⟨[("a", 3), ("b", 1)], by decide⟩ =
    some (.ok ["a", "b", "a", "a"]) := by decide

end Imagin4.Ports
