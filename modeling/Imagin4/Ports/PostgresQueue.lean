import Mathlib.Data.List.Sort
import Imagin4.Verified.Table
import Imagin4.Ports.JobQueue
import Imagin4.Ports.Retry
import Imagin4.Ports.WorkflowRegistry

/-!
# The Postgres queue

`PostgresJobQueue` of `app/adapters/queue/postgres.py` over the three tables it
uses: `generation_jobs`, `job_attempts` and `job_events`.  Every operation is
one transaction; an operation that raises has rolled back and leaves the
tables as they were.  The clock of the process and the clock of the database
are taken to be one.

The timestamps `started_at`, `finished_at`, `cancel_requested_at` and
`submitted_at` are written and never read, and `assigned_worker_id` is never
written; they are left out.  The foreign keys to users and conversations hold
because the API only enqueues for a user and a conversation it has looked up.

## Main results

* `claim_claims` — both claim paths hand out jobs that waited, each once, and
  change no other row of `generation_jobs`.
* `promptOf_setPromptId`, `promptOf_apply`, `promptOf_claim` — the prompt ids
  of the attempts change by `set_prompt_id` only, and only the latest one's.
* `instLawfulJobQueuePostgresJobQueue` — the adapter moves job lives the way
  the protocol says.
-/

namespace Imagin4.Ports

open Imagin4.Verified

/-! ## Tables -/

/-- A row of `generation_jobs`. -/
structure JobRow where
  id : Uuid
  userId : Uuid
  conversationId : Option Uuid
  kind : String
  modelFamily : String
  workflowVersion : String
  state : JobState
  priority : Int
  effectivePriority : Rat
  idempotencyKey : String
  inputPayload : Json
  currentAttempt : Nat
  maxAttempts : Nat
  queuedAt : DateTime
  availableAt : DateTime
  errorCode : Option String := none
  errorDetailSanitized : Option String := none

/-- A row of `job_attempts`.  `result` is what `metrics` holds under
`"result"`. -/
structure AttemptRow where
  jobId : Uuid
  attemptNo : Nat
  state : JobState
  leaseOwner : String
  leaseExpiresAt : DateTime
  comfyPromptId : Option String := none
  errorCode : Option String := none
  result : Option JobResult := none

/-- `uq_job_attempts_job_attempt`. -/
abbrev AttemptRow.key (a : AttemptRow) : Uuid × Nat := (a.jobId, a.attemptNo)

/-- A row of `job_events`. -/
structure EventRow where
  jobId : Uuid
  sequenceNo : Nat
  eventType : String
  payload : Json

/-- The part of a job row the attempt accounting is about. -/
def JobRow.life (g : JobRow) : JobLife :=
  ⟨g.state, g.currentAttempt, g.maxAttempts⟩

/-- The tables behind a `PostgresJobQueue`. -/
structure PostgresJobQueue where
  generationJobs : Table JobRow.id
  jobAttempts : Table AttemptRow.key
  jobEvents : List EventRow

namespace PostgresJobQueue

/-- A migrated database without jobs. -/
def empty : PostgresJobQueue := ⟨Table.empty, Table.empty, []⟩

/-- `_AGING_INCREMENT_PER_MINUTE`. -/
def agingIncrementPerMinute : Rat := 1 / 2

/-! ## Helpers -/

/-- `_resolve_workflow_defaults`: model family and version of a kind. -/
def resolveWorkflowDefaults (kind : String) : Option (String × String) :=
  (registry.find? (fun w => w.name = kind)).map
    (fun w => (w.modelFamily, w.version))

/-- `SELECT max(attempt_no) FROM job_attempts WHERE job_id = :job_id`. -/
def maxAttemptNo (q : PostgresJobQueue) (jobId : Uuid) : Option Nat :=
  ((q.jobAttempts.rows.filter (fun a => a.jobId = jobId)).map
    AttemptRow.attemptNo).max?

/-- The attempt row with the highest number. -/
def latestAttempt (q : PostgresJobQueue) (jobId : Uuid) : Option AttemptRow :=
  (q.maxAttemptNo jobId).bind (fun n => q.jobAttempts.find? (jobId, n))

/-- `_row_to_queued_job` over a job and its latest attempt. -/
def rowToQueuedJob (g : JobRow) (a : Option AttemptRow) : QueuedJob where
  id := g.id
  userId := g.userId
  kind := g.kind
  state := g.state
  priority := g.priority
  effectivePriority := g.effectivePriority
  inputPayload := g.inputPayload
  idempotencyKey := g.idempotencyKey
  queuedAt := g.queuedAt
  currentAttempt := g.currentAttempt
  maxAttempts := g.maxAttempts
  errorCode := g.errorCode
  errorDetail := g.errorDetailSanitized
  result := a.bind AttemptRow.result
  leaseOwner := a.map AttemptRow.leaseOwner
  leaseExpiresAt := a.map AttemptRow.leaseExpiresAt
  promptId := a.bind AttemptRow.comfyPromptId

/-- `_append_event`. -/
def appendEvent (jobId : Uuid) (eventType : String) (payload : Json)
    (q : PostgresJobQueue) : PostgresJobQueue :=
  let numbers := (q.jobEvents.filter (fun e => e.jobId = jobId)).map
    EventRow.sequenceNo
  { q with
    jobEvents := q.jobEvents ++
      [⟨jobId, numbers.max?.getD 0 + 1, eventType, payload⟩] }

/-- `UPDATE job_attempts … WHERE attempt_no = (SELECT max(attempt_no) …)`. -/
def modifyLatestAttempt (jobId : Uuid) (f : AttemptRow → AttemptRow)
    (hf : ∀ a, (f a).key = a.key) (q : PostgresJobQueue) : PostgresJobQueue :=
  { q with
    jobAttempts := q.jobAttempts.modifyWhere
      (fun a => a.jobId = jobId && some a.attemptNo = q.maxAttemptNo jobId)
      f hf }

/-- `_update_latest_attempt`. -/
def updateLatestAttempt (jobId : Uuid) (state : JobState)
    (errorCode : Option String) (extraMetrics : Option JobResult) :
    PostgresJobQueue → PostgresJobQueue :=
  modifyLatestAttempt jobId
    (fun a =>
      { a with
        state := state
        errorCode := errorCode <|> a.errorCode
        result := extraMetrics <|> a.result })
    (fun _ => rfl)

/-- `UPDATE generation_jobs … WHERE id = :id AND state NOT IN :terminal
RETURNING id`, and what follows in the transaction if a row came back. -/
def updateLive (id : Uuid) (f : JobRow → JobRow) (hf : ∀ g, (f g).id = g.id)
    (rest : PostgresJobQueue → PostgresJobQueue) (q : PostgresJobQueue) :
    PostgresJobQueue :=
  match q.generationJobs.find? id with
  | none => q
  | some g =>
      if g.state.isTerminal then q
      else rest { q with generationJobs := q.generationJobs.modify id f hf }

/-! ## Enqueueing and reading -/

/-- `enqueue`.  An unknown kind, a duplicate id and a duplicate
(user, idempotency key, kind) raise. -/
def enqueue (job : QueuedJob) (q : PostgresJobQueue) : PostgresJobQueue :=
  match resolveWorkflowDefaults job.kind with
  | none => q
  | some (modelFamily, workflowVersion) =>
      if (q.generationJobs.find? job.id).isSome ||
          q.generationJobs.rows.any (fun g =>
            g.userId = job.userId && g.idempotencyKey = job.idempotencyKey &&
              g.kind = job.kind) then q
      else
        appendEvent job.id "created" (.obj [])
          { q with
            generationJobs := q.generationJobs.put
              { id := job.id
                userId := job.userId
                conversationId := job.conversationId
                kind := job.kind
                modelFamily := modelFamily
                workflowVersion := workflowVersion
                state := job.state
                priority := job.priority
                effectivePriority := job.effectivePriority
                idempotencyKey := job.idempotencyKey
                inputPayload := job.inputPayload
                currentAttempt := job.currentAttempt
                maxAttempts := job.maxAttempts
                queuedAt := job.queuedAt
                availableAt := job.availableAt.getD job.queuedAt } }

/-- `get`. -/
def get (q : PostgresJobQueue) (id : Uuid) : Option QueuedJob :=
  (q.generationJobs.find? id).map
    (fun g => rowToQueuedJob g (q.latestAttempt id))

/-- `list_active`. -/
def listActive (q : PostgresJobQueue) : List QueuedJob :=
  (q.generationJobs.rows.filter (fun g => g.state.isActive)).map
    (fun g => rowToQueuedJob g (q.latestAttempt g.id))

/-- `count_active`. -/
def countActive (kinds : Option (List String)) (q : PostgresJobQueue) : Nat :=
  q.generationJobs.rows.countP
    (fun g => g.state.isActive && kindAllowed kinds g.kind)

/-! ## Claiming -/

/-- The `INSERT INTO job_attempts … ON CONFLICT (job_id, attempt_no) DO UPDATE`
of a claim. -/
def upsertAttempt (a : AttemptRow) (t : Table AttemptRow.key) :
    Table AttemptRow.key :=
  match t.find? a.key with
  | none => t.put a
  | some _ =>
      t.modify a.key
        (fun b =>
          { b with
            leaseOwner := a.leaseOwner
            leaseExpiresAt := a.leaseExpiresAt })
        (fun _ => rfl)

/-- The writes of `_finalize_claimed_row`. -/
def recordAttempt (row : JobRow) (leaseOwner : String)
    (leaseExpiresAt : DateTime) (q : PostgresJobQueue) : PostgresJobQueue :=
  let attemptNo := row.currentAttempt + 1
  appendEvent row.id "dispatched" (.obj [("attempt_no", .int attemptNo)])
    { q with
      jobAttempts := upsertAttempt
        { jobId := row.id
          attemptNo := attemptNo
          state := .dispatched
          leaseOwner := leaseOwner
          leaseExpiresAt := leaseExpiresAt }
        q.jobAttempts }

/-- The job `_finalize_claimed_row` returns for the row the claim updated. -/
def claimedJob (row : JobRow) (leaseOwner : String)
    (leaseExpiresAt : DateTime) : QueuedJob :=
  { rowToQueuedJob row none with
    leaseOwner := some leaseOwner
    leaseExpiresAt := some leaseExpiresAt }

/-- The `WHERE` of a claim.  `FOR UPDATE SKIP LOCKED` passes over the rows
other transactions hold locked. -/
def eligible (kinds : Option (List String)) (locked : List Uuid)
    (now : DateTime) (g : JobRow) : Bool :=
  g.state.isWaiting && decide (g.availableAt ≤ now) &&
    kindAllowed kinds g.kind && decide (g.id ∉ locked)

/-- The aged priority a claim orders by. -/
def agedPriority (now : DateTime) (g : JobRow) : Rat :=
  g.priority + totalSeconds (now - g.queuedAt) / 60 * agingIncrementPerMinute

/-- The `ORDER BY` of a claim. -/
def ClaimsBefore (now : DateTime) (g h : JobRow) : Prop :=
  agedPriority now h < agedPriority now g ∨
    (agedPriority now g = agedPriority now h ∧ g.queuedAt ≤ h.queuedAt)

instance (now : DateTime) : DecidableRel (ClaimsBefore now) := fun g h => by
  unfold ClaimsBefore
  infer_instance

/-- The rows of the table that meet `p`, in claim order. -/
def ordered (now : DateTime) (p : JobRow → Bool) (q : PostgresJobQueue) :
    List JobRow :=
  (q.generationJobs.rows.filter p).insertionSort (ClaimsBefore now)

/-- `SET state = 'dispatched'` for the rows under some ids. -/
def dispatchRows (ids : List Uuid) (q : PostgresJobQueue) : PostgresJobQueue :=
  { q with
    generationJobs := q.generationJobs.modifyWhere
      (fun g => decide (g.id ∈ ids)) (fun g => { g with state := .dispatched })
      (fun _ => rfl) }

/-- `g2.user_id = … AND g2.state IN ('dispatched', 'running')`, counted. -/
def activeOfUser (q : PostgresJobQueue) (user : Uuid) : Nat :=
  q.generationJobs.rows.countP (fun g => g.userId = user && g.state.isActive)

/-- The claim without a per-user cap: one `UPDATE` of up to `workerCapacity`
rows, then the bookkeeping of each. -/
def claimBatch (req : ClaimRequest) (locked : List Uuid) (now : DateTime)
    (q : PostgresJobQueue) : PostgresJobQueue × List QueuedJob :=
  let leaseExpiresAt := now + timedelta req.leaseSeconds
  let rows := ((q.ordered now (eligible req.kinds locked now)).take
    req.workerCapacity).map (fun g => { g with state := .dispatched })
  (rows.foldl (fun q g => recordAttempt g req.leaseOwner leaseExpiresAt q)
      (q.dispatchRows (rows.map JobRow.id)),
    rows.map (fun g => claimedJob g req.leaseOwner leaseExpiresAt))

/-- The row `single_stmt` picks: the first eligible one whose user is below
the cap. -/
def nextCapped (req : ClaimRequest) (locked : List Uuid) (now : DateTime)
    (q : PostgresJobQueue) : Option JobRow :=
  (q.ordered now (fun g => eligible req.kinds locked now g &&
    decide ((q.activeOfUser g.userId : Int) < req.maxActivePerUser))).head?

/-- The claim with a per-user cap: one row a statement, until none is left or
the capacity is spent. -/
def claimCapped (req : ClaimRequest) (locked : List Uuid) (now : DateTime) :
    Nat → PostgresJobQueue → PostgresJobQueue × List QueuedJob
  | 0, q => (q, [])
  | n + 1, q =>
      match q.nextCapped req locked now with
      | none => (q, [])
      | some row =>
          let leaseExpiresAt := now + timedelta req.leaseSeconds
          let row := { row with state := .dispatched }
          let q := (q.dispatchRows [row.id]).recordAttempt row req.leaseOwner
            leaseExpiresAt
          let r := claimCapped req locked now n q
          (r.1, claimedJob row req.leaseOwner leaseExpiresAt :: r.2)

/-- `_claim`. -/
def claim (req : ClaimRequest) (locked : List Uuid) (now : DateTime)
    (q : PostgresJobQueue) : PostgresJobQueue × List QueuedJob :=
  if req.workerCapacity = 0 then (q, [])
  else if req.maxActivePerUser ≤ 0 then q.claimBatch req locked now
  else q.claimCapped req locked now req.workerCapacity

/-! ## Changing jobs -/

/-- `renew_lease`: the latest attempt's lease, whatever the job's state. -/
def renewLease (id : Uuid) (leaseSeconds : Rat) (now : DateTime) :
    PostgresJobQueue → PostgresJobQueue :=
  modifyLatestAttempt id
    (fun a => { a with leaseExpiresAt := now + timedelta leaseSeconds })
    (fun _ => rfl)

/-- `mark_running`. -/
def markRunning (id : Uuid) : PostgresJobQueue → PostgresJobQueue :=
  updateLive id (fun g => { g with state := .running }) (fun _ => rfl)
    (fun q => q)

/-- The JSON of an optional string. -/
def jsonOfOption : Option String → Json
  | none => .null
  | some s => .str s

/-- `mark_succeeded`. -/
def markSucceeded (id : Uuid) (result : JobResult) :
    PostgresJobQueue → PostgresJobQueue :=
  updateLive id
    (fun g =>
      { g with
        state := .succeeded
        errorCode := none
        errorDetailSanitized := none })
    (fun _ => rfl)
    (fun q => (q.updateLatestAttempt id .succeeded none (some result)).appendEvent
      id "job_succeeded" (.obj []))

/-- `mark_failed`. -/
def markFailed (id : Uuid) (errorCode : String)
    (errorDetail : Option String) : PostgresJobQueue → PostgresJobQueue :=
  updateLive id
    (fun g =>
      { g with
        state := .failed
        errorCode := some errorCode
        errorDetailSanitized := errorDetail })
    (fun _ => rfl)
    (fun q => (q.updateLatestAttempt id .failed (some errorCode) none).appendEvent
      id "job_failed"
      (.obj [("error_code", .str errorCode),
        ("detail", jsonOfOption errorDetail)]))

/-- `mark_retry_wait`.  The attempt number is read before the row is looked at
again by the `UPDATE`, so an `OverflowError` of the backoff rolls back even
where the job has ended. -/
def markRetryWait (id : Uuid) (errorCode : String)
    (errorDetail : Option String) (delaySeconds : Option Rat) (draw : Rat)
    (now : DateTime) (q : PostgresJobQueue) : PostgresJobQueue :=
  match q.generationJobs.find? id with
  | none => q
  | some row =>
      match retryDelay delaySeconds (row.currentAttempt + 1) draw with
      | .error _ => q
      | .ok delay =>
          q.updateLive id
            (fun g =>
              { g with
                state := .retryWait
                currentAttempt := g.currentAttempt + 1
                errorCode := some errorCode
                errorDetailSanitized := errorDetail
                availableAt := now + timedelta delay })
            (fun _ => rfl)
            (fun q =>
              (q.updateLatestAttempt id .retryWait (some errorCode)
                none).appendEvent id "job_retry_scheduled"
                (.obj [("error_code", .str errorCode),
                  ("detail", jsonOfOption errorDetail),
                  ("delay_seconds", .float (.finite delay))]))

/-- `set_prompt_id`: onto the latest attempt. -/
def setPromptId (id : Uuid) (promptId : String) :
    PostgresJobQueue → PostgresJobQueue :=
  modifyLatestAttempt id (fun a => { a with comfyPromptId := some promptId })
    (fun _ => rfl)

/-- `cancel`, without its answer. -/
def cancel (id : Uuid) : PostgresJobQueue → PostgresJobQueue :=
  updateLive id (fun g => { g with state := .cancelled }) (fun _ => rfl)
    (fun q => q.appendEvent id "job_cancelled" (.obj []))

instance : JobQueue PostgresJobQueue where
  get := get
  enqueue job _ := enqueue job
  claimNextWithLease := claim
  listActive := listActive
  countActive := countActive
  renewLease := renewLease
  markRunning := markRunning
  markSucceeded := markSucceeded
  markFailed := markFailed
  markRetryWait := markRetryWait
  setPromptId := setPromptId
  cancel := cancel
  deref _ j := j
  guardsRunning := true

/-! ## Lives -/

theorem life_eq (q : PostgresJobQueue) (i : Uuid) :
    JobQueue.life q i = (q.generationJobs.find? i).map JobRow.life := by
  show ((q.generationJobs.find? i).map _).map QueuedJob.life = _
  rw [Option.map_map]
  rfl

/-- Only `generation_jobs` decides the lives. -/
theorem life_congr {q r : PostgresJobQueue}
    (h : q.generationJobs = r.generationJobs) (i : Uuid) :
    JobQueue.life q i = JobQueue.life r i := by
  rw [life_eq, life_eq, h]

/-- A guarded update that moves lives by `g` moves the life it is about, and
no other. -/
theorem life_updateLive (id : Uuid) (f : JobRow → JobRow)
    (hf : ∀ r, (f r).id = r.id) {rest : PostgresJobQueue → PostgresJobQueue}
    (hrest : ∀ q, (rest q).generationJobs = q.generationJobs)
    (g : JobLife → JobLife)
    (hterminal : ∀ l, l.state.isTerminal = true → g l = l)
    (hlive : ∀ r, r.state.isTerminal = false → (f r).life = g r.life)
    (q : PostgresJobQueue) (i : Uuid) :
    JobQueue.life (q.updateLive id f hf rest) i =
      if i = id then (JobQueue.life q i).map g else JobQueue.life q i := by
  have hkeep : (∀ r, q.generationJobs.find? id = some r → g r.life = r.life) →
      JobQueue.life q i =
        if i = id then (JobQueue.life q i).map g else JobQueue.life q i := by
    intro hg
    split
    · rename_i h
      rw [h, life_eq]
      cases hrow : q.generationJobs.find? id with
      | none => rfl
      | some r => simp [hg r hrow]
    · rfl
  unfold updateLive
  cases hrow : q.generationJobs.find? id with
  | none => exact hkeep (fun r hr => by rw [hrow] at hr; cases hr)
  | some r =>
      cases hterm : r.state.isTerminal with
      | true =>
          simp only [hterm, if_true]
          refine hkeep (fun s hs => ?_)
          obtain rfl : r = s := by rw [hrow] at hs; exact Option.some.inj hs
          exact hterminal r.life hterm
      | false =>
          simp only [hterm, Bool.false_eq_true, if_false]
          rw [life_eq, hrest, life_eq]
          show ((q.generationJobs.modify id f hf).find? i).map JobRow.life = _
          rw [Table.find?_modify]
          split
          · rename_i h
            rw [h, hrow]
            simp [hlive r hterm]
          · rfl

/-- A guarded update to a terminal state finishes the life it is about. -/
theorem life_updateLive_finish (id : Uuid) (final : JobState)
    (f : JobRow → JobRow) (hf : ∀ r, (f r).id = r.id)
    {rest : PostgresJobQueue → PostgresJobQueue}
    (hrest : ∀ q, (rest q).generationJobs = q.generationJobs)
    (hlife : ∀ r, (f r).life = { r.life with state := final })
    (q : PostgresJobQueue) (i : Uuid) :
    JobQueue.life (q.updateLive id f hf rest) i =
      if i = id then (JobQueue.life q i).map (JobLife.finish final)
      else JobQueue.life q i := by
  refine life_updateLive id f hf hrest (JobLife.finish final)
    (fun _ h => JobLife.finish_of_terminal h) (fun r h => ?_) q i
  rw [hlife, JobLife.finish_of_live (l := r.life) h]

theorem life_apply (c : QueueCall) (now : DateTime) (q : PostgresJobQueue) :
    (c.mayRaise = true ∧ ∀ i, JobQueue.life (c.apply now q) i =
      JobQueue.life q i) ∨
    ∀ i, JobQueue.life (c.apply now q) i =
      if i = c.target then (JobQueue.life q i).map (c.lifeStep true)
      else JobQueue.life q i := by
  have hsame : ∀ (r : PostgresJobQueue) (id : Uuid),
      r.generationJobs = q.generationJobs →
      ∀ i, JobQueue.life r i =
        if i = id then (JobQueue.life q i).map (fun l => l)
        else JobQueue.life q i := by
    intro r id hr i
    rw [life_congr hr, Option.map_id']
    split <;> rfl
  cases c with
  | renewLease id secs => exact Or.inr (hsame _ id rfl)
  | setPromptId id promptId => exact Or.inr (hsame _ id rfl)
  | markRunning id =>
      refine Or.inr (fun i => ?_)
      show JobQueue.life (q.markRunning id) i =
        if i = id then (JobQueue.life q i).map (JobLife.run true)
        else JobQueue.life q i
      unfold markRunning
      rw [life_updateLive (g := JobLife.run true)]
      · exact fun _ => rfl
      · exact fun l h => by simp [JobLife.run, h]
      · exact fun r h => by simp [JobLife.run, JobRow.life, h]
  | markSucceeded id result =>
      refine Or.inr (fun i => ?_)
      show JobQueue.life (q.markSucceeded id result) i =
        if i = id then (JobQueue.life q i).map (JobLife.finish .succeeded)
        else JobQueue.life q i
      unfold markSucceeded
      rw [life_updateLive_finish id .succeeded]
      · exact fun _ => rfl
      · exact fun _ => rfl
  | markFailed id code detail =>
      refine Or.inr (fun i => ?_)
      show JobQueue.life (q.markFailed id code detail) i =
        if i = id then (JobQueue.life q i).map (JobLife.finish .failed)
        else JobQueue.life q i
      unfold markFailed
      rw [life_updateLive_finish id .failed]
      · exact fun _ => rfl
      · exact fun _ => rfl
  | cancel id =>
      refine Or.inr (fun i => ?_)
      show JobQueue.life (q.cancel id) i =
        if i = id then (JobQueue.life q i).map (JobLife.finish .cancelled)
        else JobQueue.life q i
      unfold cancel
      rw [life_updateLive_finish id .cancelled]
      · exact fun _ => rfl
      · exact fun _ => rfl
  | markRetryWait id code detail delay draw =>
      show (_ ∧ ∀ i, JobQueue.life (q.markRetryWait id code detail delay draw
        now) i = _) ∨ ∀ i, JobQueue.life (q.markRetryWait id code detail delay
        draw now) i = _
      unfold markRetryWait
      cases hrow : q.generationJobs.find? id with
      | none =>
          refine Or.inr (fun i => ?_)
          show JobQueue.life q i =
            if i = id then (JobQueue.life q i).map _ else _
          split
          · rename_i h
            rw [h, life_eq, hrow]
            rfl
          · rfl
      | some row =>
          dsimp only
          cases hdelay : retryDelay delay (row.currentAttempt + 1) draw with
          | error e =>
              cases delay with
              | some d => simp [retryDelay] at hdelay
              | none => exact Or.inl ⟨rfl, fun _ => rfl⟩
          | ok d =>
              refine Or.inr (fun i => ?_)
              show _ = if i = id then (JobQueue.life q i).map JobLife.retry
                else JobQueue.life q i
              rw [life_updateLive (g := JobLife.retry)]
              · exact fun _ => rfl
              · exact fun _ h => JobLife.retry_of_terminal h
              · exact fun r h => (JobLife.retry_of_live (l := r.life) h).symm

/-! ## Claims -/

theorem life_dispatchRows (ids : List Uuid) (q : PostgresJobQueue) (i : Uuid) :
    JobQueue.life (q.dispatchRows ids) i =
      if i ∈ ids then (JobQueue.life q i).map JobLife.dispatch
      else JobQueue.life q i := by
  rw [life_eq, life_eq]
  have h := Table.find?_modifyWhere q.generationJobs
    (fun g => decide (g.id ∈ ids)) (fun g => { g with state := .dispatched })
    (fun _ => rfl) i
  refine (congrArg (Option.map JobRow.life) h).trans ?_
  cases hrow : q.generationJobs.find? i with
  | none => simp
  | some g =>
      obtain rfl := Table.key_of_find? hrow
      by_cases hmem : g.id ∈ ids
      · simp [hmem, JobRow.life, JobLife.dispatch]
      · simp [hmem]

theorem mem_ordered {now : DateTime} {p : JobRow → Bool}
    {q : PostgresJobQueue} {g : JobRow} :
    g ∈ q.ordered now p ↔ g ∈ q.generationJobs ∧ p g = true := by
  rw [ordered, List.mem_insertionSort, List.mem_filter, Table.mem_def]

theorem ordered_nodup (now : DateTime) (p : JobRow → Bool)
    (q : PostgresJobQueue) : ((q.ordered now p).map JobRow.id).Nodup := by
  have hperm := (List.perm_insertionSort (ClaimsBefore now)
    (q.generationJobs.rows.filter p)).map JobRow.id
  refine hperm.nodup_iff.mpr (q.generationJobs.nodup.sublist ?_)
  exact List.filter_sublist.map _

theorem waiting_of_eligible {kinds : Option (List String)}
    {locked : List Uuid} {now : DateTime} {g : JobRow}
    (h : eligible kinds locked now g = true) : g.state.isWaiting = true := by
  simp only [eligible, Bool.and_eq_true] at h
  exact h.1.1.1

/-- What a claim does to the lives: it hands out jobs that waited, each once,
and moves no other life. -/
structure Claims (q : PostgresJobQueue)
    (r : PostgresJobQueue × List QueuedJob) : Prop where
  nodup : (r.2.map QueuedJob.id).Nodup
  waiting : ∀ j ∈ r.2, ∃ l, JobQueue.life q j.id = some l ∧
    l.state.isWaiting = true ∧ j.life = l.dispatch
  life : ∀ i, JobQueue.life r.1 i =
    if i ∈ r.2.map QueuedJob.id then
      (JobQueue.life q i).map JobLife.dispatch
    else JobQueue.life q i

theorem claims_nil (q : PostgresJobQueue) : Claims q (q, []) where
  nodup := List.nodup_nil
  waiting j hj := by simp at hj
  life i := by simp

theorem generationJobs_foldl_recordAttempt (leaseOwner : String)
    (leaseExpiresAt : DateTime) (rows : List JobRow) :
    ∀ q : PostgresJobQueue,
      (rows.foldl (fun q g => recordAttempt g leaseOwner leaseExpiresAt q)
        q).generationJobs = q.generationJobs := by
  induction rows with
  | nil => exact fun _ => rfl
  | cons g rest ih =>
      intro q
      rw [List.foldl_cons, ih]
      rfl

theorem claimBatch_claims (req : ClaimRequest) (locked : List Uuid)
    (now : DateTime) (q : PostgresJobQueue) :
    Claims q (q.claimBatch req locked now) := by
  unfold claimBatch
  generalize hpicked : (q.ordered now (eligible req.kinds locked now)).take
    req.workerCapacity = picked
  have hsub : picked.Sublist (q.ordered now (eligible req.kinds locked now)) :=
    hpicked ▸ List.take_sublist _ _
  have hids : ((picked.map (fun g => { g with state := .dispatched })).map
      (fun g => claimedJob g req.leaseOwner
        (now + timedelta req.leaseSeconds))).map QueuedJob.id =
      picked.map JobRow.id := by
    simp [claimedJob, rowToQueuedJob]
  constructor
  · dsimp only
    rw [hids]
    exact (ordered_nodup _ _ q).sublist (hsub.map _)
  · intro j hj
    dsimp only at hj
    rw [List.map_map] at hj
    obtain ⟨g, hg, rfl⟩ := List.mem_map.mp hj
    obtain ⟨hmem, helig⟩ := mem_ordered.mp (hsub.subset hg)
    refine ⟨g.life, ?_, waiting_of_eligible helig, rfl⟩
    rw [life_eq]
    exact congrArg (Option.map JobRow.life) (Table.find?_key hmem)
  · intro i
    dsimp only
    rw [hids, life_congr (generationJobs_foldl_recordAttempt _ _ _ _),
      life_dispatchRows]
    simp only [List.map_map, Function.comp_def]

theorem of_nextCapped {req : ClaimRequest} {locked : List Uuid}
    {now : DateTime} {q : PostgresJobQueue} {row : JobRow}
    (h : q.nextCapped req locked now = some row) :
    q.generationJobs.find? row.id = some row ∧
      eligible req.kinds locked now row = true ∧
      (q.activeOfUser row.userId : Int) < req.maxActivePerUser := by
  obtain ⟨hmem, hp⟩ := mem_ordered.mp (List.mem_of_mem_head? h)
  rw [Bool.and_eq_true, decide_eq_true_eq] at hp
  exact ⟨Table.find?_key hmem, hp.1, hp.2⟩

theorem claimCapped_claims (req : ClaimRequest) (locked : List Uuid)
    (now : DateTime) (n : Nat) :
    ∀ q : PostgresJobQueue, Claims q (q.claimCapped req locked now n) := by
  induction n with
  | zero => exact claims_nil
  | succ n ih =>
      intro q
      rw [claimCapped]
      cases hnext : q.nextCapped req locked now with
      | none => exact claims_nil q
      | some row =>
          obtain ⟨hrow, helig, _⟩ := of_nextCapped hnext
          dsimp only
          generalize hq : (q.dispatchRows [row.id]).recordAttempt _ _ _ = q₁
          have hlife : ∀ i, JobQueue.life q₁ i = if i = row.id then
              (JobQueue.life q i).map JobLife.dispatch
              else JobQueue.life q i := by
            intro i
            have hcongr := life_congr (q := q₁) (r := q.dispatchRows [row.id])
              (by rw [← hq]; rfl) i
            rw [hcongr, life_dispatchRows]
            simp only [List.mem_singleton]
          have hown : JobQueue.life q row.id = some row.life := by
            rw [life_eq, hrow]
            rfl
          have hwait := waiting_of_eligible helig
          have hrest := ih q₁
          generalize q₁.claimCapped req locked now n = r at hrest ⊢
          -- the loop cannot meet the claimed row again: it waits no longer
          have hfresh : ∀ j ∈ r.2, j.id ≠ row.id := by
            intro j hj heq
            obtain ⟨l, hl, hw, _⟩ := hrest.waiting j hj
            rw [heq, hlife, if_pos rfl, hown] at hl
            cases hl
            simp [JobLife.dispatch, JobState.isWaiting] at hw
          constructor
          · show (row.id :: r.2.map QueuedJob.id).Nodup
            refine List.nodup_cons.mpr ⟨?_, hrest.nodup⟩
            intro hmem
            obtain ⟨j, hj, heq⟩ := List.mem_map.mp hmem
            exact hfresh j hj heq
          · intro j hj
            rcases List.mem_cons.mp hj with rfl | hj
            · exact ⟨row.life, hown, hwait, rfl⟩
            · obtain ⟨l, hl, hw⟩ := hrest.waiting j hj
              rw [hlife, if_neg (hfresh j hj)] at hl
              exact ⟨l, hl, hw⟩
          · intro i
            show JobQueue.life r.1 i =
              if i ∈ row.id :: r.2.map QueuedJob.id then _ else _
            rw [hrest.life, hlife]
            by_cases hi : i = row.id
            · have hnot : i ∉ r.2.map QueuedJob.id := by
                intro hmem
                obtain ⟨j, hj, heq⟩ := List.mem_map.mp hmem
                exact hfresh j hj (heq.trans hi)
              simp [hi, hi ▸ hnot]
            · simp [hi]

/-- Both claim paths are lawful. -/
theorem claim_claims (req : ClaimRequest) (locked : List Uuid)
    (now : DateTime) (q : PostgresJobQueue) :
    Claims q (q.claim req locked now) := by
  unfold claim
  split
  · exact claims_nil q
  · split
    · exact claimBatch_claims req locked now q
    · exact claimCapped_claims req locked now _ q

/-! ## The adapter is lawful -/

instance : LawfulJobQueue PostgresJobQueue where
  get_id {q id j} h := by
    obtain ⟨g, hg, rfl⟩ := Option.map_eq_some_iff.mp h
    have hid : g.id = id := Table.key_of_find? hg
    exact hid
  deref_id _ _ := rfl
  life_enqueue {q job} now _ := by
    show (∀ id, JobQueue.life (q.enqueue job) id = _) ∨
      ∀ id, JobQueue.life (q.enqueue job) id = _
    unfold enqueue
    split
    · exact Or.inl (fun _ => rfl)
    · split
      · exact Or.inl (fun _ => rfl)
      · refine Or.inr (fun id => ?_)
        rw [life_eq, life_eq]
        refine (congrArg (Option.map JobRow.life)
          (Table.find?_put q.generationJobs _ id)).trans ?_
        split <;> rfl
  claim_nodup req locked now q := (claim_claims req locked now q).nodup
  claim_waiting {req locked now q j} :=
    (claim_claims req locked now q).waiting j
  life_claim req locked now q := (claim_claims req locked now q).life
  life_apply := life_apply
  listActive_get {q j} hj := by
    obtain ⟨g, hg, rfl⟩ := List.mem_map.mp hj
    obtain ⟨hmem, hactive⟩ := List.mem_filter.mp hg
    have hrow : q.generationJobs.find? g.id = some g := Table.find?_key hmem
    exact ⟨congrArg (Option.map _) hrow, hactive⟩

/-! ## Prompt ids of attempts -/

/-- `comfy_prompt_id` of an attempt row. -/
def promptOf (q : PostgresJobQueue) (jobId : Uuid) (attemptNo : Nat) :
    Option String :=
  (q.jobAttempts.find? (jobId, attemptNo)).bind AttemptRow.comfyPromptId

/-- The highest attempt number is the number of a row. -/
theorem exists_of_maxAttemptNo {q : PostgresJobQueue} {i : Uuid} {k : Nat}
    (h : q.maxAttemptNo i = some k) :
    ∃ a, q.jobAttempts.find? (i, k) = some a := by
  obtain ⟨a, ha, hk⟩ := List.mem_map.mp (List.max?_mem h)
  obtain ⟨hmem, hi⟩ := List.mem_filter.mp ha
  have hkey : a.key = (i, k) := by
    rw [AttemptRow.key, of_decide_eq_true hi, hk]
  exact ⟨a, hkey ▸ Table.find?_key hmem⟩

theorem promptOf_modifyLatestAttempt (id : Uuid) (f : AttemptRow → AttemptRow)
    (hf : ∀ a, (f a).key = a.key)
    (hprompt : ∀ a, (f a).comfyPromptId = a.comfyPromptId)
    (q : PostgresJobQueue) (i : Uuid) (k : Nat) :
    (q.modifyLatestAttempt id f hf).promptOf i k = q.promptOf i k := by
  have h := Table.find?_modifyWhere q.jobAttempts
    (fun a => a.jobId = id && some a.attemptNo = q.maxAttemptNo id) f hf (i, k)
  refine (congrArg (Option.bind · AttemptRow.comfyPromptId) h).trans ?_
  rw [promptOf]
  cases q.jobAttempts.find? (i, k) with
  | none => rfl
  | some a =>
      simp only [Option.map_some, Option.bind_some]
      split
      · exact hprompt a
      · rfl

/-- `set_prompt_id` writes the row with the highest number, and no other. -/
theorem promptOf_setPromptId (id : Uuid) (p : String) (q : PostgresJobQueue)
    (i : Uuid) (k : Nat) :
    (q.setPromptId id p).promptOf i k =
      if i = id ∧ q.maxAttemptNo id = some k then some p
      else q.promptOf i k := by
  have h := Table.find?_modifyWhere q.jobAttempts
    (fun a => a.jobId = id && some a.attemptNo = q.maxAttemptNo id)
    (fun a => { a with comfyPromptId := some p }) (fun _ => rfl) (i, k)
  refine (congrArg (Option.bind · AttemptRow.comfyPromptId) h).trans ?_
  rw [promptOf]
  cases hrow : q.jobAttempts.find? (i, k) with
  | none =>
      have hnot : ¬(i = id ∧ q.maxAttemptNo id = some k) := by
        rintro ⟨rfl, hmax⟩
        obtain ⟨a, ha⟩ := exists_of_maxAttemptNo hmax
        rw [hrow] at ha
        cases ha
      rw [if_neg hnot]
      rfl
  | some a =>
      have hkey : a.key = (i, k) := Table.key_of_find? hrow
      cases hkey
      by_cases hi : a.jobId = id
      · by_cases hk : q.maxAttemptNo id = some a.attemptNo
        · simp [hi, hk]
        · simp [hi, hk, Ne.symm hk]
      · simp [hi]

theorem promptOf_updateLive (id : Uuid) (f : JobRow → JobRow)
    (hf : ∀ r, (f r).id = r.id) {rest : PostgresJobQueue → PostgresJobQueue}
    {i : Uuid} {k : Nat}
    (hrest : ∀ q, (rest q).promptOf i k = q.promptOf i k)
    (q : PostgresJobQueue) :
    (q.updateLive id f hf rest).promptOf i k = q.promptOf i k := by
  unfold updateLive
  split
  · rfl
  · split
    · rfl
    · rw [hrest]
      rfl

theorem promptOf_updateLatestAttempt (id : Uuid) (state : JobState)
    (code : Option String) (result : Option JobResult) (q : PostgresJobQueue)
    (i : Uuid) (k : Nat) :
    (q.updateLatestAttempt id state code result).promptOf i k =
      q.promptOf i k := by
  unfold updateLatestAttempt
  rw [promptOf_modifyLatestAttempt]
  exact fun _ => rfl

/-- No other call touches a prompt id. -/
theorem promptOf_apply {c : QueueCall}
    (hc : ∀ id p, c ≠ .setPromptId id p) (now : DateTime)
    (q : PostgresJobQueue) (i : Uuid) (k : Nat) :
    (c.apply now q).promptOf i k = q.promptOf i k := by
  cases c with
  | renewLease id secs =>
      show (q.renewLease id secs now).promptOf i k = _
      unfold renewLease
      rw [promptOf_modifyLatestAttempt]
      exact fun _ => rfl
  | markRunning id =>
      show (q.markRunning id).promptOf i k = _
      unfold markRunning
      rw [promptOf_updateLive]
      exact fun _ => rfl
  | markSucceeded id result =>
      show (q.markSucceeded id result).promptOf i k = _
      unfold markSucceeded
      rw [promptOf_updateLive]
      exact fun q => promptOf_updateLatestAttempt id _ _ _ q i k
  | markFailed id code detail =>
      show (q.markFailed id code detail).promptOf i k = _
      unfold markFailed
      rw [promptOf_updateLive]
      exact fun q => promptOf_updateLatestAttempt id _ _ _ q i k
  | markRetryWait id code detail delay draw =>
      show (q.markRetryWait id code detail delay draw now).promptOf i k = _
      unfold markRetryWait
      split
      · rfl
      · split
        · rfl
        · rw [promptOf_updateLive]
          exact fun q => promptOf_updateLatestAttempt id _ _ _ q i k
  | setPromptId id p => exact absurd rfl (hc id p)
  | cancel id =>
      show (q.cancel id).promptOf i k = _
      unfold cancel
      rw [promptOf_updateLive]
      exact fun _ => rfl

theorem promptOf_enqueue (job : QueuedJob) (q : PostgresJobQueue) (i : Uuid)
    (k : Nat) : (q.enqueue job).promptOf i k = q.promptOf i k := by
  unfold enqueue
  split
  · rfl
  · split <;> rfl

/-- The attempt row of a claim is new, and then has no prompt id, or keeps the
one it has. -/
theorem promptOf_recordAttempt (row : JobRow) (leaseOwner : String)
    (leaseExpiresAt : DateTime) (q : PostgresJobQueue) (i : Uuid) (k : Nat) :
    (q.recordAttempt row leaseOwner leaseExpiresAt).promptOf i k =
      q.promptOf i k := by
  show ((upsertAttempt _ q.jobAttempts).find? (i, k)).bind _ =
    (q.jobAttempts.find? (i, k)).bind _
  unfold upsertAttempt
  split
  · rename_i hnone
    rw [Table.find?_put]
    split
    · rename_i hkey
      rw [hkey, hnone]
      rfl
    · rfl
  · refine (congrArg (Option.bind · _)
      (Table.find?_modify q.jobAttempts _ (i, k) _ _)).trans ?_
    split
    · cases q.jobAttempts.find? (i, k) <;> rfl
    · rfl

theorem promptOf_claim (req : ClaimRequest) (locked : List Uuid)
    (now : DateTime) (q : PostgresJobQueue) (i : Uuid) (k : Nat) :
    (q.claim req locked now).1.promptOf i k = q.promptOf i k := by
  have hfold : ∀ (rows : List JobRow) (q : PostgresJobQueue),
      (rows.foldl (fun q g => recordAttempt g req.leaseOwner
        (now + timedelta req.leaseSeconds) q) q).promptOf i k =
      q.promptOf i k := by
    intro rows
    induction rows with
    | nil => exact fun _ => rfl
    | cons g rest ih =>
        intro q
        rw [List.foldl_cons, ih, promptOf_recordAttempt]
  have hcapped : ∀ (n : Nat) (q : PostgresJobQueue),
      (q.claimCapped req locked now n).1.promptOf i k = q.promptOf i k := by
    intro n
    induction n with
    | zero => exact fun _ => rfl
    | succ n ih =>
        intro q
        rw [claimCapped]
        split
        · rfl
        · rw [ih, promptOf_recordAttempt]
          rfl
  unfold claim
  split
  · rfl
  · split
    · exact hfold _ _
    · exact hcapped _ q

end PostgresJobQueue

end Imagin4.Ports
