import Mathlib.Data.List.Count
import Mathlib.Data.List.Nodup
import Mathlib.Data.List.Infix

/-!
# Turns taken round by round

Every user of a list has a number of turns.  In a round everybody who has turns
left takes one, in the order of the list.  The module counts who has had how many
turns after a number of rounds, and in the middle of one.

## Main results

* `count_rounds` — after `k` rounds a user has had `k` turns, or all of them.
* `rounds_fair` — at every prefix of the rounds two users are at most one turn
  apart, unless the one behind is done.
* `rounds_of_done` — once everybody is done, further rounds add nothing.
-/

namespace Imagin4.Verified.RoundRobin

universe u

variable {α : Type u}

/-- The users who take a turn in round `i`. -/
def round (users : List α) (turns : α → Nat) (i : Nat) : List α :=
  users.filter (fun user => decide (i < turns user))

/-- The first `k` rounds. -/
def rounds (users : List α) (turns : α → Nat) : Nat → List α
  | 0 => []
  | k + 1 => rounds users turns k ++ round users turns k

/-- The turns of all users together. -/
def allTurns (turns : α → Nat) : List α → Nat
  | [] => 0
  | user :: users => turns user + allTurns turns users

variable {users : List α} {turns : α → Nat}

theorem turns_le_allTurns {user : α} (h : user ∈ users) :
    turns user ≤ allTurns turns users := by
  induction users with
  | nil => simp at h
  | cons first rest ih =>
      show turns user ≤ turns first + allTurns turns rest
      rcases List.mem_cons.mp h with rfl | hRest
      · omega
      · have hLe := ih hRest
        omega

theorem mem_round {i : Nat} {user : α} :
    user ∈ round users turns i ↔ user ∈ users ∧ i < turns user := by
  simp [round]

theorem mem_of_mem_rounds {user : α} {k : Nat}
    (h : user ∈ rounds users turns k) : user ∈ users := by
  induction k with
  | zero => simp [rounds] at h
  | succ k ih =>
      by_cases hk : user ∈ rounds users turns k
      · exact ih hk
      · have hround : user ∈ round users turns k := by
          simpa [rounds, hk] using h
        exact (mem_round.mp hround).1

/-- Nobody takes a turn once everybody is done. -/
theorem round_of_done {k : Nat} (h : ∀ user ∈ users, turns user ≤ k) :
    round users turns k = [] := by
  refine List.filter_eq_nil_iff.mpr (fun user hUser => ?_)
  have hDone := h user hUser
  simp only [decide_eq_true_eq]
  omega

theorem rounds_of_done {k : Nat} (h : ∀ user ∈ users, turns user ≤ k) (j : Nat) :
    rounds users turns (k + j) = rounds users turns k := by
  induction j with
  | zero => rfl
  | succ j ih =>
      have hround : round users turns (k + j) = [] :=
        round_of_done (fun user hUser => by
          have hDone := h user hUser
          omega)
      show rounds users turns (k + j) ++ round users turns (k + j) = _
      rw [hround, List.append_nil, ih]

/-- A prefix of the rounds is some whole rounds and a prefix of the next. -/
theorem exists_of_prefix {p : List α} {k : Nat} (h : p <+: rounds users turns k) :
    ∃ i q, q <+: round users turns i ∧ p = rounds users turns i ++ q := by
  induction k with
  | zero =>
      have hp : p = [] := List.prefix_nil.mp h
      exact ⟨0, [], List.nil_prefix, by simp [hp, rounds]⟩
  | succ k ih =>
      have hwhole : rounds users turns k <+: rounds users turns (k + 1) :=
        List.prefix_append _ _
      rcases List.prefix_or_prefix_of_prefix h hwhole with hp | hp
      · exact ih hp
      · obtain ⟨q, rfl⟩ := hp
        exact ⟨k, q, (List.prefix_append_right_inj _).mp h, rfl⟩

/-! ## Counting -/

section Count

variable [DecidableEq α]

/-- In a round a user takes one turn, or is done. -/
theorem count_round (hUsers : users.Nodup) {user : α} (hUser : user ∈ users)
    (i : Nat) :
    (round users turns i).count user = if i < turns user then 1 else 0 := by
  by_cases hi : i < turns user
  · rw [if_pos hi]
    exact List.count_eq_one_of_mem (hUsers.filter _) (mem_round.mpr ⟨hUser, hi⟩)
  · rw [if_neg hi]
    exact List.count_eq_zero_of_not_mem (fun h => hi (mem_round.mp h).2)

theorem count_rounds (hUsers : users.Nodup) {user : α} (hUser : user ∈ users)
    (k : Nat) : (rounds users turns k).count user = min k (turns user) := by
  induction k with
  | zero => simp [rounds]
  | succ k ih =>
      rw [rounds, List.count_append, ih, count_round hUsers hUser]
      by_cases hk : k < turns user
      · rw [if_pos hk]
        omega
      · rw [if_neg hk]
        omega

/-- In the middle of a round a user has had `i` or `i + 1` turns, or all of
them. -/
theorem count_prefix_of_rounds (hUsers : users.Nodup) {user : α}
    (hUser : user ∈ users) {i : Nat} {q : List α} (hq : q <+: round users turns i) :
    (rounds users turns i ++ q).count user ≤ i + 1 ∧
      (i ≤ (rounds users turns i ++ q).count user ∨
        (rounds users turns i ++ q).count user = turns user) := by
  have hle : q.count user ≤ (round users turns i).count user :=
    hq.sublist.count_le user
  rw [count_round hUsers hUser] at hle
  rw [List.count_append, count_rounds hUsers hUser]
  by_cases hi : i < turns user
  · rw [if_pos hi] at hle
    omega
  · rw [if_neg hi] at hle
    omega

theorem rounds_fair (hUsers : users.Nodup) {behind ahead : α}
    (hBehind : behind ∈ users) (hAhead : ahead ∈ users) {k : Nat} {p : List α}
    (h : p <+: rounds users turns k) :
    p.count ahead ≤ p.count behind + 1 ∨ p.count behind = turns behind := by
  obtain ⟨i, q, hq, rfl⟩ := exists_of_prefix h
  have hahead := (count_prefix_of_rounds hUsers hAhead hq).1
  have hbehind := (count_prefix_of_rounds hUsers hBehind hq).2
  omega

end Count

end Imagin4.Verified.RoundRobin
