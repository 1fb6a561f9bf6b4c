import Imagin4.Ports.Python

/-!
# The `JobQueue` port

`app/adapters/queue/__init__.py`: the job record `QueuedJob`, the `JobQueue`
protocol the scheduler, the reconciler and the API call, and what the protocol
means for the life of a job.

A `JobLife` is the part of a job the attempt accounting is about: its state and
its two attempt counters.  It is the abstract model of the queue.  Each call of
the protocol moves one life by one of the four functions `JobLife.dispatch`,
`JobLife.run`, `JobLife.finish` and `JobLife.retry`, and `LawfulJobQueue` says
that an adapter does exactly that and touches no other life.  Both adapters are
shown lawful in their own modules; results about lives are then proved once for
every adapter.

The adapters differ in one point the protocol leaves open: whether
`mark_running` looks at the state it overwrites (`guardsRunning`).
-/

namespace Imagin4.Ports

/-! ## Jobs -/

/-- `generation_jobs.state`; see `app/domain/jobs/state_machine.py`. -/
inductive JobState where
  | queued
  | admitted
  | dispatched
  | running
  | retryWait
  | cancelling
  | cancelled
  | succeeded
  | failed
deriving DecidableEq, Repr

namespace JobState

/-- `_TERMINAL_STATES`. -/
def isTerminal : JobState → Bool
  | cancelled | succeeded | failed => true
  | _ => false

/-- The states `list_active` reports. -/
def isActive : JobState → Bool
  | dispatched | running => true
  | _ => false

/-- `_BACKLOG_STATES`: the states a claim takes jobs from. -/
def isWaiting : JobState → Bool
  | queued | retryWait => true
  | _ => false

theorem not_terminal_of_active {s : JobState} (h : s.isActive = true) :
    s.isTerminal = false := by
  cases s <;> simp_all [isActive, isTerminal]

theorem not_terminal_of_waiting {s : JobState} (h : s.isWaiting = true) :
    s.isTerminal = false := by
  cases s <;> simp_all [isWaiting, isTerminal]

theorem not_active_of_waiting {s : JobState} (h : s.isWaiting = true) :
    s.isActive = false := by
  cases s <;> simp_all [isWaiting, isActive]

theorem not_active_of_terminal {s : JobState} (h : s.isTerminal = true) :
    s.isActive = false := by
  cases s <;> simp_all [isTerminal, isActive]

theorem not_waiting_of_terminal {s : JobState} (h : s.isTerminal = true) :
    s.isWaiting = false := by
  cases s <;> simp_all [isTerminal, isWaiting]

end JobState

/-- One entry of a job's `outputs`. -/
structure Output where
  objectKey : String
  mimeType : String
deriving DecidableEq, Repr

/-- The result dict `{"outputs": [...]}` of a finished job. -/
structure JobResult where
  outputs : List Output
deriving DecidableEq, Repr

/-- `QueuedJob`. -/
structure QueuedJob where
  id : Uuid
  userId : Uuid
  kind : String
  state : JobState
  priority : Int
  effectivePriority : Rat
  inputPayload : Json
  idempotencyKey : String
  queuedAt : DateTime
  currentAttempt : Nat := 0
  maxAttempts : Nat := 3
  errorCode : Option String := none
  errorDetail : Option String := none
  result : Option JobResult := none
  leaseOwner : Option String := none
  leaseExpiresAt : Option DateTime := none
  promptId : Option String := none
  conversationId : Option Uuid := none
  availableAt : Option DateTime := none

/-- The arguments of `claim_next_with_lease`. -/
structure ClaimRequest where
  workerCapacity : Nat
  leaseOwner : String
  leaseSeconds : Rat
  kinds : Option (List String) := none
  maxActivePerUser : Int := 0

/-- `kinds is None or kind in kinds`. -/
def kindAllowed (kinds : Option (List String)) (kind : String) : Bool :=
  match kinds with
  | none => true
  | some ks => kind ∈ ks

/-! ## The protocol -/

/-- `JobQueue`, with the time of the call where an operation reads the clock.

`claimNextWithLease` also gets the rows that transactions in flight hold
locked, which a database claim skips.  `deref` is what a job handed out
earlier reads as now: the adapter's own object, or the copy that was made. -/
class JobQueue (σ : Type) where
  get : σ → Uuid → Option QueuedJob
  enqueue : QueuedJob → DateTime → σ → σ
  claimNextWithLease :
    ClaimRequest → List Uuid → DateTime → σ → σ × List QueuedJob
  listActive : σ → List QueuedJob
  countActive : Option (List String) → σ → Nat
  renewLease : Uuid → Rat → DateTime → σ → σ
  markRunning : Uuid → σ → σ
  markSucceeded : Uuid → JobResult → σ → σ
  markFailed : Uuid → String → Option String → σ → σ
  markRetryWait :
    Uuid → String → Option String → Option Rat → Rat → DateTime → σ → σ
  setPromptId : Uuid → String → σ → σ
  cancel : Uuid → σ → σ
  deref : σ → QueuedJob → QueuedJob
  /-- Does `mark_running` leave a finished job alone? -/
  guardsRunning : Bool

/-- A call that changes the queue, other than a claim.  `draw` is the random
number a retry draws when it computes its own delay. -/
inductive QueueCall where
  | renewLease (id : Uuid) (leaseSeconds : Rat)
  | markRunning (id : Uuid)
  | markSucceeded (id : Uuid) (result : JobResult)
  | markFailed (id : Uuid) (errorCode : String) (errorDetail : Option String)
  | markRetryWait (id : Uuid) (errorCode : String)
      (errorDetail : Option String) (delaySeconds : Option Rat) (draw : Rat)
  | setPromptId (id : Uuid) (promptId : String)
  | cancel (id : Uuid)

namespace QueueCall

/-- The job a call is about. -/
def target : QueueCall → Uuid
  | renewLease id _ => id
  | markRunning id => id
  | markSucceeded id _ => id
  | markFailed id _ _ => id
  | markRetryWait id _ _ _ _ => id
  | setPromptId id _ => id
  | cancel id => id

/-- Makes the call. -/
def apply {σ : Type} [JobQueue σ] (now : DateTime) : QueueCall → σ → σ
  | renewLease id secs => JobQueue.renewLease id secs now
  | markRunning id => JobQueue.markRunning id
  | markSucceeded id result => JobQueue.markSucceeded id result
  | markFailed id code detail => JobQueue.markFailed id code detail
  | markRetryWait id code detail delay draw =>
      JobQueue.markRetryWait id code detail delay draw now
  | setPromptId id promptId => JobQueue.setPromptId id promptId
  | cancel id => JobQueue.cancel id

end QueueCall

/-! ## Lives -/

/-- What the attempt accounting knows of a job. -/
structure JobLife where
  state : JobState
  currentAttempt : Nat
  maxAttempts : Nat
deriving DecidableEq, Repr

namespace JobLife

/-- A claim hands the job out. -/
def dispatch (l : JobLife) : JobLife := { l with state := .dispatched }

/-- `mark_running`, with or without the look at the state it overwrites. -/
def run (guarded : Bool) (l : JobLife) : JobLife :=
  if guarded && l.state.isTerminal then l else { l with state := .running }

/-- The job ends in a terminal state, unless it has ended before. -/
def finish (final : JobState) (l : JobLife) : JobLife :=
  if l.state.isTerminal then l else { l with state := final }

/-- The running attempt is charged and the job waits for the next one, unless
it has ended. -/
def retry (l : JobLife) : JobLife :=
  if l.state.isTerminal then l
  else { l with state := .retryWait, currentAttempt := l.currentAttempt + 1 }

theorem finish_of_terminal {l : JobLife} {final : JobState}
    (h : l.state.isTerminal = true) : l.finish final = l := by
  simp [finish, h]

theorem finish_of_live {l : JobLife} {final : JobState}
    (h : l.state.isTerminal = false) :
    l.finish final = { l with state := final } := by
  simp [finish, h]

theorem currentAttempt_finish (l : JobLife) (final : JobState) :
    (l.finish final).currentAttempt = l.currentAttempt := by
  unfold finish
  split <;> rfl

theorem currentAttempt_run (l : JobLife) (guarded : Bool) :
    (l.run guarded).currentAttempt = l.currentAttempt := by
  unfold run
  split <;> rfl

theorem retry_of_terminal {l : JobLife} (h : l.state.isTerminal = true) :
    l.retry = l := by
  simp [retry, h]

theorem retry_of_live {l : JobLife} (h : l.state.isTerminal = false) :
    l.retry = { l with
      state := .retryWait, currentAttempt := l.currentAttempt + 1 } := by
  simp [retry, h]

end JobLife

/-- The life of a job. -/
def QueuedJob.life (j : QueuedJob) : JobLife :=
  ⟨j.state, j.currentAttempt, j.maxAttempts⟩

/-- The number of the attempt a claim of this job starts, and the attempt an
active job is in. -/
def QueuedJob.attempt (j : QueuedJob) : Nat := j.currentAttempt + 1

/-- The life a queue has under an id. -/
def JobQueue.life {σ : Type} [JobQueue σ] (q : σ) (id : Uuid) :
    Option JobLife :=
  (JobQueue.get q id).map QueuedJob.life

/-- What a call does to the life it is about. -/
def QueueCall.lifeStep (guarded : Bool) : QueueCall → JobLife → JobLife
  | renewLease _ _ => id
  | markRunning _ => JobLife.run guarded
  | markSucceeded _ _ => JobLife.finish .succeeded
  | markFailed _ _ _ => JobLife.finish .failed
  | markRetryWait _ _ _ _ _ => JobLife.retry
  | setPromptId _ _ => id
  | cancel _ => JobLife.finish .cancelled

/-- Can the call raise before it changes anything?  Only the backoff of a
retry that computes its own delay does. -/
def QueueCall.mayRaise : QueueCall → Bool
  | markRetryWait _ _ _ none _ => true
  | _ => false

/-- An adapter whose calls move lives the way the protocol says. -/
class LawfulJobQueue (σ : Type) [JobQueue σ] : Prop where
  get_id {q : σ} {id : Uuid} {j : QueuedJob} :
    JobQueue.get q id = some j → j.id = id
  deref_id (q : σ) (j : QueuedJob) : (JobQueue.deref q j).id = j.id
  /-- A new job is added under its own id, or the insertion is refused. -/
  life_enqueue {q : σ} {job : QueuedJob} (now : DateTime) :
    JobQueue.get q job.id = none →
    (∀ id, JobQueue.life (JobQueue.enqueue job now q) id =
      JobQueue.life q id) ∨
    ∀ id, JobQueue.life (JobQueue.enqueue job now q) id =
      if id = job.id then some job.life else JobQueue.life q id
  /-- A claim hands out each job at most once, … -/
  claim_nodup (req : ClaimRequest) (locked : List Uuid) (now : DateTime)
      (q : σ) :
    ((JobQueue.claimNextWithLease req locked now q).2.map
      QueuedJob.id).Nodup
  /-- … only jobs that wait, … -/
  claim_waiting {req : ClaimRequest} {locked : List Uuid} {now : DateTime}
      {q : σ} {j : QueuedJob} :
    j ∈ (JobQueue.claimNextWithLease req locked now q).2 →
    ∃ l, JobQueue.life q j.id = some l ∧ l.state.isWaiting = true ∧
      j.life = l.dispatch
  /-- … and changes no other life. -/
  life_claim (req : ClaimRequest) (locked : List Uuid) (now : DateTime)
      (q : σ) (id : Uuid) :
    JobQueue.life (JobQueue.claimNextWithLease req locked now q).1 id =
      if id ∈ (JobQueue.claimNextWithLease req locked now q).2.map
          QueuedJob.id
      then (JobQueue.life q id).map JobLife.dispatch
      else JobQueue.life q id
  /-- Any other call moves the life it is about, or raises. -/
  life_apply (c : QueueCall) (now : DateTime) (q : σ) :
    (c.mayRaise = true ∧ ∀ id, JobQueue.life (c.apply now q) id =
      JobQueue.life q id) ∨
    ∀ id, JobQueue.life (c.apply now q) id =
      if id = c.target then
        (JobQueue.life q id).map
          (c.lifeStep (JobQueue.guardsRunning (σ := σ)))
      else JobQueue.life q id
  listActive_get {q : σ} {j : QueuedJob} :
    j ∈ JobQueue.listActive q →
    JobQueue.get q j.id = some j ∧ j.state.isActive = true

end Imagin4.Ports
