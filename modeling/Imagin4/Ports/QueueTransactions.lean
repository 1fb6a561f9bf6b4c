import Imagin4.Verified.Transactions
import Imagin4.Ports.ClaimTransactions
import Imagin4.Ports.PostgresQueue

/-!
# The transactions of `PostgresJobQueue`

The operations of `PostgresJobQueue` statement by statement, as scripts over a
READ COMMITTED database.  A statement that has to wait for a row lock looks at
the row again once it has the lock, so it is one step, taken when the lock is
free.  The claims scan a snapshot first and lock the rows they found one after
another, in a step of their own.

## Main results

* `alone_script` — an operation nothing comes between does what its definition
  in `Imagin4.Ports.PostgresQueue` says.
-/

namespace Imagin4.Ports

open Imagin4.Verified

/-! ## Rows and locks -/

/-- A row version a transaction has written, or the advisory lock it took. -/
inductive RowVersion where
  | job (g : JobRow)
  | attempt (a : AttemptRow)
  | event (e : EventRow)
  | advisory

/-- What a transaction holds until it ends: the rows it has written, the
entries it made in the unique indexes, and the advisory lock of the claims. -/
inductive LockKey where
  | job (id : Uuid)
  | idempotency (user : Uuid) (key kind : String)
  | attempt (jobId : Uuid) (attemptNo : Nat)
  | event (jobId : Uuid) (sequenceNo : Nat)
  | claimActiveCap
deriving DecidableEq

namespace RowVersion

/-- The locks that come with writing a row version. -/
def locks : RowVersion → List LockKey
  | job g => [.job g.id, .idempotency g.userId g.idempotencyKey g.kind]
  | attempt a => [.attempt a.jobId a.attemptNo]
  | event e => [.event e.jobId e.sequenceNo]
  | advisory => [.claimActiveCap]

/-- Installs a row version. -/
def put : RowVersion → PostgresJobQueue → PostgresJobQueue
  | job g, q => { q with generationJobs := q.generationJobs.put g }
  | attempt a, q => { q with jobAttempts := q.jobAttempts.put a }
  | event e, q => { q with jobEvents := q.jobEvents ++ [e] }
  | advisory, q => q

end RowVersion

/-! ## Statements -/

/-- The `SET` clause of an update of `job_attempts`: what it does not name
stays. -/
structure AttemptSet where
  state : Option JobState := none
  leaseExpiresAt : Option DateTime := none
  comfyPromptId : Option String := none
  errorCode : Option String := none
  result : Option JobResult := none

/-- Applies a `SET` clause. -/
def AttemptSet.apply (set : AttemptSet) (a : AttemptRow) : AttemptRow :=
  { a with
    state := set.state.getD a.state
    leaseExpiresAt := set.leaseExpiresAt.getD a.leaseExpiresAt
    comfyPromptId := set.comfyPromptId <|> a.comfyPromptId
    errorCode := set.errorCode <|> a.errorCode
    result := set.result <|> a.result }

theorem AttemptSet.key_apply (set : AttemptSet) (a : AttemptRow) :
    (set.apply a).key = a.key := rfl

/-- The statements of the queue's transactions. -/
inductive Statement where
  /-- `INSERT INTO generation_jobs`; `false` is a violated unique index -/
  | insertJob (g : JobRow)
  /-- `SELECT current_attempt FROM generation_jobs WHERE id = :id` -/
  | selectCurrentAttempt (id : Uuid)
  /-- `UPDATE generation_jobs … AND state NOT IN :terminal RETURNING id`; did a
  row come back? -/
  | updateLive (id : Uuid) (f : JobRow → JobRow) (hf : ∀ g, (f g).id = g.id)
  /-- `UPDATE job_attempts … WHERE attempt_no = (SELECT max(attempt_no) …)` -/
  | updateLatestAttempt (jobId : Uuid) (set : AttemptSet)
  /-- the `INSERT … ON CONFLICT` of `_finalize_claimed_row` -/
  | upsertAttempt (a : AttemptRow)
  /-- `_append_event` -/
  | appendEvent (jobId : Uuid) (eventType : String) (payload : Json)
  /-- `SELECT pg_advisory_xact_lock(:key)` -/
  | lockClaims
  /-- a claim's `UPDATE` takes its snapshot -/
  | snapshot
  /-- the rows of the claim without a per-user cap, from this snapshot -/
  | claimRows (req : ClaimRequest) (now : DateTime)
      (snapshot : PostgresJobQueue)
  /-- the row of `single_stmt`, from this snapshot -/
  | claimRow (req : ClaimRequest) (now : DateTime)
      (snapshot : PostgresJobQueue)

/-- What a statement answers. -/
@[reducible] def Statement.Answer : Statement → Type
  | insertJob _ => Bool
  | selectCurrentAttempt _ => Option Nat
  | updateLive .. => Bool
  | snapshot => PostgresJobQueue
  | claimRows .. => List JobRow
  | claimRow .. => Option JobRow
  | _ => Unit

namespace PostgresJobQueue

/-- The rows the claim without a cap picks: it scans the snapshot in order,
passes over locked rows, and checks the present version of a row again once it
holds its lock. -/
def pickRows (req : ClaimRequest) (locked : List Uuid) (now : DateTime)
    (snapshot current : PostgresJobQueue) : List JobRow :=
  ((snapshot.ordered now (eligible req.kinds locked now)).filterMap
    (fun g =>
      match current.generationJobs.find? g.id with
      | some g' => if eligible req.kinds locked now g' then some g' else none
      | none => none)).take req.workerCapacity

/-- The next `sequence_no` of a job. -/
def nextSequenceNo (q : PostgresJobQueue) (jobId : Uuid) : Nat :=
  ((q.jobEvents.filter (fun e => e.jobId = jobId)).map
    EventRow.sequenceNo).max?.getD 0 + 1

/-- Is there a job under this id, or with this user, idempotency key and
kind? -/
def taken (q : PostgresJobQueue) (g : JobRow) : Bool :=
  (q.generationJobs.find? g.id).isSome ||
    q.generationJobs.rows.any (fun h =>
      h.userId = g.userId && h.idempotencyKey = g.idempotencyKey &&
        h.kind = g.kind)

/-- The rows a claim passes over: those other transactions have written, and
those in `skipped`, which are locked for the moment. -/
def lockedRows (held : LockKey → Bool) (skipped : List Uuid)
    (q : PostgresJobQueue) : List Uuid :=
  ((q.generationJobs.rows.map JobRow.id).filter (fun id => held (.job id))) ++
    skipped

/-- Sends a row version, unless a lock it needs is held by others. -/
def write {α : Type} (held : LockKey → Bool) (vs : List RowVersion) (r : α) :
    Option (List RowVersion × α) :=
  if vs.all (fun v => v.locks.all (fun k => !held k)) then some (vs, r)
  else none

/-- The effect of a statement on the rows it sees. -/
def answer (s : Statement) (skipped : List Uuid) (held : LockKey → Bool)
    (q : PostgresJobQueue) : Option (List RowVersion × s.Answer) :=
  match s with
  | .insertJob g =>
      if q.taken g then some ([], false) else write held [.job g] true
  | .selectCurrentAttempt id =>
      some ([], (q.generationJobs.find? id).map JobRow.currentAttempt)
  | .updateLive id f _ =>
      match q.generationJobs.find? id with
      | none => some ([], false)
      | some g =>
          if g.state.isTerminal then some ([], false)
          else write held [.job (f g)] true
  | .updateLatestAttempt jobId set =>
      match q.latestAttempt jobId with
      | none => some ([], ())
      | some a => write held [.attempt (set.apply a)] ()
  | .upsertAttempt a =>
      match q.jobAttempts.find? a.key with
      | none => write held [.attempt a] ()
      | some b =>
          write held [.attempt { b with
            leaseOwner := a.leaseOwner
            leaseExpiresAt := a.leaseExpiresAt }] ()
  | .appendEvent jobId eventType payload =>
      write held
        [.event ⟨jobId, q.nextSequenceNo jobId, eventType, payload⟩] ()
  | .lockClaims => write held [.advisory] ()
  | .snapshot => some ([], q)
  | .claimRows req now snapshot =>
      let rows := (pickRows req (q.lockedRows held skipped) now snapshot q).map
        (fun g => { g with state := .dispatched })
      write held (rows.map .job) rows
  | .claimRow req now snapshot =>
      match pickRow req (q.lockedRows held skipped) now snapshot q with
      | none => some ([], none)
      | some g =>
          let row := { g with state := .dispatched }
          write held [.job row] (some row)

theorem of_write {α : Type} {held : LockKey → Bool} {vs ws : List RowVersion}
    {r u : α} (h : write held vs r = some (ws, u)) :
    ws = vs ∧ u = r ∧ ∀ v ∈ vs, ∀ k ∈ v.locks, held k = false := by
  unfold write at h
  split at h
  · rename_i hfree
    cases h
    exact ⟨rfl, rfl, by simpa using hfree⟩
  · cases h

theorem write_free {α : Type} (vs : List RowVersion) (r : α) :
    write (fun _ => false) vs r = some (vs, r) := by
  simp [write]

/-- A statement writes no row that others hold. -/
theorem answer_respects {s : Statement} {skipped : List Uuid}
    {held : LockKey → Bool} {q : PostgresJobQueue} {vs : List RowVersion}
    {r : s.Answer} (h : answer s skipped held q = some (vs, r)) :
    ∀ v ∈ vs, ∀ k ∈ v.locks, held k = false := by
  have hnothing : ∀ {r' : s.Answer}, some ([], r') = some (vs, r) →
      ∀ v ∈ vs, ∀ k ∈ v.locks, held k = false := by
    intro r' heq v hv
    cases heq
    cases hv
  have hwrite : ∀ {ws : List RowVersion} {r' : s.Answer},
      write held ws r' = some (vs, r) →
      ∀ v ∈ vs, ∀ k ∈ v.locks, held k = false := by
    intro ws r' heq
    obtain ⟨rfl, _, hfree⟩ := of_write heq
    exact hfree
  cases s with
  | insertJob g =>
      simp only [answer] at h
      split at h
      · exact hnothing h
      · exact hwrite h
  | selectCurrentAttempt id => exact hnothing h
  | updateLive id f hf =>
      simp only [answer] at h
      split at h
      · exact hnothing h
      · split at h
        · exact hnothing h
        · exact hwrite h
  | updateLatestAttempt jobId set =>
      simp only [answer] at h
      split at h
      · exact hnothing h
      · exact hwrite h
  | upsertAttempt a =>
      simp only [answer] at h
      split at h
      · exact hwrite h
      · exact hwrite h
  | appendEvent jobId eventType payload => exact hwrite h
  | lockClaims => exact hwrite h
  | snapshot => exact hnothing h
  | claimRows req now snapshot => exact hwrite h
  | claimRow req now snapshot =>
      simp only [answer] at h
      split at h
      · exact hnothing h
      · exact hwrite h

/-- The database behind the queue. -/
def database : Database PostgresJobQueue RowVersion LockKey (List Uuid)
    Statement Statement.Answer where
  put := RowVersion.put
  locks := RowVersion.locks
  answer := answer
  respects := answer_respects

/-! ## Scripts -/

/-- What an operation sends. -/
abbrev QueueScript := Script Statement Statement.Answer

/-- `_finalize_claimed_row`, and what follows. -/
def finalizeClaimedRow (leaseOwner : String) (leaseExpiresAt : DateTime)
    (row : JobRow) (next : QueueScript) : QueueScript :=
  .query (.upsertAttempt {
      jobId := row.id
      attemptNo := row.currentAttempt + 1
      state := .dispatched
      leaseOwner := leaseOwner
      leaseExpiresAt := leaseExpiresAt })
    fun _ => .query (.appendEvent row.id "dispatched"
      (.obj [("attempt_no", .int (row.currentAttempt + 1 : Nat))]))
    fun _ => next

/-- The loop of the claim with a per-user cap. -/
def claimLoop (req : ClaimRequest) (now : DateTime) : Nat → QueueScript
  | 0 => .commit
  | n + 1 =>
      .query .snapshot fun snapshot =>
        .query (.claimRow req now snapshot) fun
          | none => .commit
          | some row =>
              finalizeClaimedRow req.leaseOwner
                (now + timedelta req.leaseSeconds) row (claimLoop req now n)

/-- `_claim`. -/
def claimScript (req : ClaimRequest) (now : DateTime) : QueueScript :=
  if req.workerCapacity = 0 then .commit
  else if req.maxActivePerUser ≤ 0 then
    .query .snapshot fun snapshot =>
      .query (.claimRows req now snapshot) fun rows =>
        rows.foldr (finalizeClaimedRow req.leaseOwner
          (now + timedelta req.leaseSeconds)) .commit
  else .query .lockClaims fun _ => claimLoop req now req.workerCapacity

/-- An `UPDATE` of a live job, and what follows if a row came back. -/
def updateLiveScript (id : Uuid) (f : JobRow → JobRow)
    (hf : ∀ g, (f g).id = g.id) (rest : QueueScript) : QueueScript :=
  .query (.updateLive id f hf) fun
    | true => rest
    | false => .commit

/-- An `UPDATE` of the latest attempt, and nothing else. -/
def touchAttemptScript (id : Uuid) (set : AttemptSet) : QueueScript :=
  .query (.updateLatestAttempt id set) fun _ => .commit

/-- `_update_latest_attempt` and `_append_event`. -/
def closeAttemptScript (id : Uuid) (set : AttemptSet) (eventType : String)
    (payload : Json) : QueueScript :=
  .query (.updateLatestAttempt id set) fun _ =>
    .query (.appendEvent id eventType payload) fun _ => .commit

/-- The row `enqueue` inserts. -/
def rowOfJob (job : QueuedJob) (modelFamily workflowVersion : String) :
    JobRow where
  id := job.id
  userId := job.userId
  conversationId := job.conversationId
  kind := job.kind
  modelFamily := modelFamily
  workflowVersion := workflowVersion
  state := job.state
  priority := job.priority
  effectivePriority := job.effectivePriority
  idempotencyKey := job.idempotencyKey
  inputPayload := job.inputPayload
  currentAttempt := job.currentAttempt
  maxAttempts := job.maxAttempts
  queuedAt := job.queuedAt
  availableAt := job.availableAt.getD job.queuedAt

/-- `enqueue`. -/
def enqueueScript (job : QueuedJob) : QueueScript :=
  match resolveWorkflowDefaults job.kind with
  | none => .rollback
  | some (modelFamily, workflowVersion) =>
      .query (.insertJob (rowOfJob job modelFamily workflowVersion)) fun
        | true => .query (.appendEvent job.id "created" (.obj [])) fun _ =>
            .commit
        | false => .rollback

theorem id_withState (state : JobState) (g : JobRow) :
    { g with state := state }.id = g.id := rfl

theorem id_withResult (g : JobRow) :
    { g with
      state := .succeeded
      errorCode := none
      errorDetailSanitized := none }.id = g.id := rfl

theorem id_withFailure (errorCode : String) (errorDetail : Option String)
    (g : JobRow) :
    { g with
      state := .failed
      errorCode := some errorCode
      errorDetailSanitized := errorDetail }.id = g.id := rfl

/-- The calls of the protocol. -/
def callScript (now : DateTime) : QueueCall → QueueScript
  | .renewLease id secs =>
      touchAttemptScript id { leaseExpiresAt := some (now + timedelta secs) }
  | .markRunning id =>
      updateLiveScript id (fun g => { g with state := .running })
        (id_withState .running) .commit
  | .markSucceeded id result =>
      updateLiveScript id
        (fun g =>
          { g with
            state := .succeeded
            errorCode := none
            errorDetailSanitized := none })
        id_withResult
        (closeAttemptScript id
          { state := some .succeeded, result := some result }
          "job_succeeded" (.obj []))
  | .markFailed id errorCode errorDetail =>
      updateLiveScript id
        (fun g =>
          { g with
            state := .failed
            errorCode := some errorCode
            errorDetailSanitized := errorDetail })
        (id_withFailure errorCode errorDetail)
        (closeAttemptScript id
          { state := some .failed, errorCode := some errorCode }
          "job_failed"
          (.obj [("error_code", .str errorCode),
            ("detail", jsonOfOption errorDetail)]))
  | .markRetryWait id errorCode errorDetail delaySeconds draw =>
      .query (.selectCurrentAttempt id) fun
        | none => .commit
        | some currentAttempt =>
            match retryDelay delaySeconds (currentAttempt + 1) draw with
            | .error _ => .rollback
            | .ok delay =>
                updateLiveScript id
                  (fun g =>
                    { g with
                      state := .retryWait
                      currentAttempt := g.currentAttempt + 1
                      errorCode := some errorCode
                      errorDetailSanitized := errorDetail
                      availableAt := now + timedelta delay })
                  (fun _ => rfl)
                  (closeAttemptScript id
                    { state := some .retryWait, errorCode := some errorCode }
                    "job_retry_scheduled"
                    (.obj [("error_code", .str errorCode),
                      ("detail", jsonOfOption errorDetail),
                      ("delay_seconds", .float (.finite delay))]))
  | .setPromptId id promptId =>
      touchAttemptScript id { comfyPromptId := some promptId }
  | .cancel id =>
      updateLiveScript id (fun g => { g with state := .cancelled })
        (id_withState .cancelled)
        (.query (.appendEvent id "job_cancelled" (.obj [])) fun _ => .commit)

end PostgresJobQueue

/-- An operation of the queue, with the time its caller read. -/
inductive QueueOp where
  | enqueue (job : QueuedJob)
  | claim (req : ClaimRequest) (now : DateTime)
  | call (c : QueueCall) (now : DateTime)

/-- The script of an operation. -/
def QueueOp.script : QueueOp → PostgresJobQueue.QueueScript
  | enqueue job => PostgresJobQueue.enqueueScript job
  | claim req now => PostgresJobQueue.claimScript req now
  | call c now => PostgresJobQueue.callScript now c

/-- The operation as one transaction, seen by nobody before it is over. -/
def QueueOp.apply (locked : List Uuid) : QueueOp → PostgresJobQueue →
    PostgresJobQueue
  | enqueue job, q => q.enqueue job
  | claim req now, q => (q.claim req locked now).1
  | call c now, q => c.apply now q

/-- Any number of operations of any number of processes on one database. -/
def queueTransactions : Machine
    (Sessions PostgresJobQueue QueueOp RowVersion Statement Statement.Answer)
    (SessionAction QueueOp (List Uuid)) :=
  transactions PostgresJobQueue.database QueueOp.script

namespace PostgresJobQueue

/-! ## An operation on its own -/

section Alone

variable {skipped : List Uuid} {start q : PostgresJobQueue}

theorem alone_query (s : Statement) {next : s.Answer → QueueScript}
    (vs : List RowVersion) (r : s.Answer)
    (h : answer s skipped (fun _ => false) q = some (vs, r)) :
    database.alone skipped (.query s next) start q =
      database.alone skipped (next r) start (database.putAll vs q) := by
  have hanswer : database.answer s skipped (fun _ => false) q = some (vs, r) := h
  rw [Database.alone, hanswer]

theorem alone_appendEvent (id : Uuid) (eventType : String) (payload : Json)
    (next : Unit → QueueScript) :
    database.alone skipped (.query (.appendEvent id eventType payload) next)
        start q =
      database.alone skipped (next ()) start
        (q.appendEvent id eventType payload) :=
  alone_query (.appendEvent id eventType payload) _ () (write_free _ _)

theorem alone_updateLatestAttempt (id : Uuid) (set : AttemptSet)
    (next : Unit → QueueScript) :
    database.alone skipped (.query (.updateLatestAttempt id set) next) start q =
      database.alone skipped (next ()) start
        (q.modifyLatestAttempt id set.apply set.key_apply) := by
  cases hmax : q.maxAttemptNo id with
  | none =>
      have hlatest : q.latestAttempt id = none := by
        rw [latestAttempt, hmax]
        rfl
      rw [alone_query (.updateLatestAttempt id set) [] ()
        (by simp [answer, hlatest])]
      have hsame : q.modifyLatestAttempt id set.apply set.key_apply = q := by
        unfold modifyLatestAttempt
        rw [Table.modifyWhere_eq_self (fun a _ => by simp [hmax])]
      rw [hsame, Database.putAll_nil]
  | some n =>
      obtain ⟨a, ha⟩ := exists_of_maxAttemptNo hmax
      have hlatest : q.latestAttempt id = some a := by
        rw [latestAttempt, hmax]
        exact ha
      rw [alone_query (.updateLatestAttempt id set)
        [.attempt (set.apply a)] () (by simp [answer, hlatest, write_free])]
      obtain ⟨hmem, hkey⟩ := Table.find?_eq_some_iff.mp ha
      have hput : q.jobAttempts.modifyWhere
          (fun b => b.jobId = id && some b.attemptNo = q.maxAttemptNo id)
          set.apply set.key_apply = q.jobAttempts.put (set.apply a) := by
        cases hkey
        refine Table.modifyWhere_eq_put hmem (by simp [hmax]) (fun b hb hp => ?_)
        have hb' : b.jobId = a.jobId ∧ b.attemptNo = a.attemptNo := by
          simpa [hmax] using hp
        refine Table.eq_of_key_eq hb hmem ?_
        rw [AttemptRow.key, AttemptRow.key, hb'.1, hb'.2]
      unfold modifyLatestAttempt
      rw [hput]
      rfl

theorem alone_updateLive (id : Uuid) (f : JobRow → JobRow)
    (hf : ∀ g, (f g).id = g.id) {script : QueueScript}
    {rest : PostgresJobQueue → PostgresJobQueue}
    (hrest : ∀ q, database.alone skipped script start q = rest q) :
    database.alone skipped (updateLiveScript id f hf script) start q =
      q.updateLive id f hf rest := by
  unfold updateLiveScript updateLive
  cases hrow : q.generationJobs.find? id with
  | none =>
      exact alone_query (.updateLive id f hf) [] false
        (by simp [answer, hrow])
  | some g =>
      cases hterm : g.state.isTerminal with
      | true =>
          have hanswer : answer (.updateLive id f hf) skipped (fun _ => false) q =
              some ([], false) := by simp [answer, hrow, hterm]
          simp only [hterm, if_true]
          exact alone_query (.updateLive id f hf) [] false hanswer
      | false =>
          rw [alone_query (.updateLive id f hf) [.job (f g)] true
            (by simp [answer, hrow, hterm, write_free])]
          simp only [hterm, Bool.false_eq_true, if_false]
          rw [Table.modify_eq_put hrow, ← hrest]
          rfl

theorem alone_finalizeClaimedRow (leaseOwner : String)
    (leaseExpiresAt : DateTime) (row : JobRow) (next : QueueScript) :
    database.alone skipped
        (finalizeClaimedRow leaseOwner leaseExpiresAt row next) start q =
      database.alone skipped next start
        (q.recordAttempt row leaseOwner leaseExpiresAt) := by
  unfold finalizeClaimedRow recordAttempt upsertAttempt
  dsimp only
  split
  · rename_i hnone
    rw [alone_query (.upsertAttempt _) _ () (by simp only [answer, hnone]; exact write_free _ _),
      alone_appendEvent]
    rfl
  · rename_i b hsome
    rw [alone_query (.upsertAttempt _) _ () (by simp only [answer, hsome]; exact write_free _ _),
      alone_appendEvent, Table.modify_eq_put hsome]
    rfl

theorem lockedRows_free (q : PostgresJobQueue) :
    q.lockedRows (fun _ => false) skipped = skipped := by
  simp [lockedRows]

theorem pickRows_self (req : ClaimRequest) (locked : List Uuid)
    (now : DateTime) (q : PostgresJobQueue) :
    pickRows req locked now q q =
      (q.ordered now (eligible req.kinds locked now)).take
        req.workerCapacity := by
  unfold pickRows
  congr 1
  refine Eq.trans (List.filterMap_congr (fun g hg => ?_)) List.filterMap_some
  obtain ⟨hmem, helig⟩ := mem_ordered.mp hg
  rw [Table.find?_key hmem]
  simp [helig]

theorem dispatchRows_append (is js : List Uuid) (q : PostgresJobQueue) :
    (q.dispatchRows is).dispatchRows js = q.dispatchRows (is ++ js) := by
  have htables : (q.dispatchRows is).generationJobs.modifyWhere
      (fun g => decide (g.id ∈ js)) (fun g => { g with state := .dispatched })
      (fun _ => rfl) = (q.dispatchRows (is ++ js)).generationJobs := by
    apply Table.ext_rows
    show (q.generationJobs.rows.map _).map _ = q.generationJobs.rows.map _
    rw [List.map_map]
    refine List.map_congr_left (fun g _ => ?_)
    by_cases hi : g.id ∈ is <;> by_cases hj : g.id ∈ js <;> simp [hi, hj]
  exact congrArg (fun t => { q with generationJobs := t }) htables

/-- Installing the dispatched versions of some rows dispatches them. -/
theorem putAll_dispatched (rows : List JobRow) :
    ∀ q : PostgresJobQueue, (∀ g ∈ rows, g ∈ q.generationJobs) →
      (rows.map JobRow.id).Nodup →
      database.putAll ((rows.map (fun g => { g with state := .dispatched })).map
          .job) q = q.dispatchRows (rows.map JobRow.id) := by
  induction rows with
  | nil =>
      intro q _ _
      show q = q.dispatchRows []
      unfold dispatchRows
      rw [Table.modifyWhere_eq_self (fun _ _ => by simp)]
  | cons g rest ih =>
      intro q hmem hnodup
      obtain ⟨hfresh, hrest⟩ := List.nodup_cons.mp hnodup
      have hg : q.generationJobs.find? g.id = some g :=
        Table.find?_key (hmem g (List.mem_cons_self ..))
      have hput : q.generationJobs.modify g.id
          (fun h => { h with state := .dispatched }) (fun _ => rfl) =
          q.generationJobs.put { g with state := .dispatched } :=
        Table.modify_eq_put hg
      have hone : RowVersion.put (.job { g with state := .dispatched }) q =
          q.dispatchRows [g.id] := by
        have hids : ∀ h : JobRow, decide (h.id = g.id) =
            decide (h.id ∈ [g.id]) := fun h => by simp
        refine congrArg (fun t => { q with generationJobs := t })
          (hput.symm.trans ?_)
        unfold Table.modify
        simp only [hids]
      have hkeep : ∀ h ∈ rest, h ∈ (q.dispatchRows [g.id]).generationJobs := by
        intro h hh
        have hne : h.id ≠ g.id := fun heq =>
          hfresh (heq ▸ List.mem_map_of_mem hh)
        show h ∈ q.generationJobs.rows.map _
        exact List.mem_map.mpr
          ⟨h, hmem h (List.mem_cons_of_mem g hh), by simp [hne]⟩
      show database.putAll ((rest.map _).map .job)
        (RowVersion.put (.job { g with state := .dispatched }) q) = _
      rw [hone, ih _ hkeep hrest, dispatchRows_append]
      rfl

theorem alone_finalizeClaimedRows (leaseOwner : String)
    (leaseExpiresAt : DateTime) (rows : List JobRow) :
    ∀ q : PostgresJobQueue,
      database.alone skipped
          (rows.foldr (finalizeClaimedRow leaseOwner leaseExpiresAt) .commit)
          start q =
        rows.foldl (fun q g => recordAttempt g leaseOwner leaseExpiresAt q)
          q := by
  induction rows with
  | nil => exact fun _ => rfl
  | cons g rest ih =>
      intro q
      rw [List.foldr_cons, List.foldl_cons, alone_finalizeClaimedRow, ih]

theorem alone_claimLoop (req : ClaimRequest) (now : DateTime) (n : Nat) :
    ∀ q : PostgresJobQueue,
      database.alone skipped (claimLoop req now n) start q =
        (q.claimCapped req skipped now n).1 := by
  induction n with
  | zero => exact fun _ => rfl
  | succ n ih =>
      intro q
      rw [claimLoop, claimCapped,
        alone_query .snapshot [] q rfl, Database.putAll_nil]
      cases hnext : q.nextCapped req skipped now with
      | none =>
          exact alone_query (.claimRow req now q) [] none
            (by simp [answer, lockedRows_free, pickRow_self, hnext])
      | some row =>
          obtain ⟨hrow, _⟩ := of_nextCapped hnext
          rw [alone_query (.claimRow req now q)
            [.job { row with state := .dispatched }]
            (some { row with state := .dispatched })
            (by simp [answer, lockedRows_free, pickRow_self, hnext,
              write_free])]
          have hput := putAll_dispatched [row] q
            (by simpa using (Table.find?_eq_some_iff.mp hrow).1) (by simp)
          refine (alone_finalizeClaimedRow _ _ _ _).trans ?_
          rw [ih]
          dsimp only
          exact congrArg (fun q => (claimCapped req skipped now n
            (recordAttempt { row with state := .dispatched } req.leaseOwner
              (now + timedelta req.leaseSeconds) q)).1) hput

theorem alone_claimBatch (req : ClaimRequest) (now : DateTime)
    (q : PostgresJobQueue) :
    database.alone skipped
        (.query (.claimRows req now q) fun rows =>
          rows.foldr (finalizeClaimedRow req.leaseOwner
            (now + timedelta req.leaseSeconds)) .commit) start q =
      (q.claimBatch req skipped now).1 := by
  have hpicked : pickRows req (q.lockedRows (fun _ => false) skipped) now q q =
      (q.ordered now (eligible req.kinds skipped now)).take
        req.workerCapacity := by
    rw [lockedRows_free, pickRows_self]
  unfold claimBatch
  generalize hrows : (q.ordered now (eligible req.kinds skipped now)).take
    req.workerCapacity = picked at hpicked
  have hsub : picked.Sublist (q.ordered now (eligible req.kinds skipped now)) :=
    hrows ▸ List.take_sublist _ _
  have hids : (picked.map (fun g => { g with state := .dispatched })).map
      JobRow.id = picked.map JobRow.id := by simp
  have hput := putAll_dispatched picked q
    (fun g hg => (mem_ordered.mp (hsub.subset hg)).1)
    ((ordered_nodup _ _ q).sublist (hsub.map _))
  have hanswer : answer (.claimRows req now q) skipped (fun _ => false) q =
      some ((picked.map (fun g => { g with state := .dispatched })).map .job,
        picked.map (fun g => { g with state := .dispatched })) := by
    simp only [answer, hpicked]
    exact write_free _ _
  refine (alone_query _ _ _ hanswer).trans ?_
  refine (alone_finalizeClaimedRows _ _ _ _).trans ?_
  dsimp only
  rw [hput, hids]

theorem alone_claimScript (req : ClaimRequest) (now : DateTime)
    (q : PostgresJobQueue) :
    database.alone skipped (claimScript req now) start q =
      (q.claim req skipped now).1 := by
  unfold claimScript claim
  by_cases hzero : req.workerCapacity = 0
  · rw [if_pos hzero, if_pos hzero]
    rfl
  · rw [if_neg hzero, if_neg hzero]
    by_cases hcap : req.maxActivePerUser ≤ 0
    · rw [if_pos hcap, if_pos hcap,
        alone_query .snapshot [] q rfl, Database.putAll_nil,
        alone_claimBatch]
    · rw [if_neg hcap, if_neg hcap,
        alone_query .lockClaims _ () (write_free _ _), alone_claimLoop]
      rfl

theorem alone_touchAttemptScript (id : Uuid) (set : AttemptSet) :
    database.alone skipped (touchAttemptScript id set) start q =
      q.modifyLatestAttempt id set.apply set.key_apply :=
  alone_updateLatestAttempt id set _

theorem alone_closeAttemptScript (id : Uuid) (set : AttemptSet)
    (eventType : String) (payload : Json) :
    database.alone skipped (closeAttemptScript id set eventType payload) start
        q =
      (q.modifyLatestAttempt id set.apply set.key_apply).appendEvent id
        eventType payload :=
  (alone_updateLatestAttempt id set _).trans
    (alone_appendEvent id eventType payload _)

theorem alone_callScript (c : QueueCall) (now : DateTime)
    (q : PostgresJobQueue) :
    database.alone skipped (callScript now c) q q = c.apply now q := by
  cases c with
  | renewLease id secs => exact alone_touchAttemptScript id _
  | setPromptId id promptId => exact alone_touchAttemptScript id _
  | markRunning id => exact alone_updateLive id _ _ (fun _ => rfl)
  | markSucceeded id result =>
      exact alone_updateLive id _ _
        (fun _ => alone_closeAttemptScript id _ _ _)
  | markFailed id code detail =>
      exact alone_updateLive id _ _
        (fun _ => alone_closeAttemptScript id _ _ _)
  | cancel id =>
      exact alone_updateLive id _ _ (fun _ => alone_appendEvent id _ _ _)
  | markRetryWait id code detail delay draw =>
      show _ = q.markRetryWait id code detail delay draw now
      unfold markRetryWait callScript
      rw [alone_query (.selectCurrentAttempt id) [] _ rfl,
        Database.putAll_nil]
      cases hrow : q.generationJobs.find? id with
      | none => rfl
      | some row =>
          rw [Option.map_some]
          dsimp only
          cases hdelay : retryDelay delay (row.currentAttempt + 1) draw with
          | error e => rfl
          | ok d =>
              exact alone_updateLive id _ _
                (fun _ => alone_closeAttemptScript id _ _ _)

theorem alone_enqueueScript (job : QueuedJob) (q : PostgresJobQueue) :
    database.alone skipped (enqueueScript job) q q = q.enqueue job := by
  unfold enqueueScript enqueue
  cases resolveWorkflowDefaults job.kind with
  | none => rfl
  | some defaults =>
      dsimp only
      by_cases htaken : q.taken (rowOfJob job defaults.1 defaults.2)
      · have hanswer : answer
            (.insertJob (rowOfJob job defaults.1 defaults.2)) skipped
            (fun _ => false) q = some ([], false) := if_pos htaken
        refine (alone_query _ _ _ hanswer).trans ?_
        exact (if_pos htaken).symm
      · have hanswer : answer
            (.insertJob (rowOfJob job defaults.1 defaults.2)) skipped
            (fun _ => false) q =
            some ([.job (rowOfJob job defaults.1 defaults.2)], true) :=
          (if_neg htaken).trans (write_free _ _)
        refine (alone_query _ _ _ hanswer).trans ?_
        refine Eq.trans ?_ (if_neg htaken).symm
        exact alone_appendEvent job.id _ _ _

end Alone
end PostgresJobQueue

/-- **An operation nothing comes between** does what its definition says. -/
theorem alone_script (op : QueueOp) (skipped : List Uuid)
    (q : PostgresJobQueue) :
    PostgresJobQueue.database.alone skipped op.script q q =
      op.apply skipped q := by
  cases op with
  | enqueue job => exact PostgresJobQueue.alone_enqueueScript job q
  | claim req now => exact PostgresJobQueue.alone_claimScript req now q
  | call c now => exact PostgresJobQueue.alone_callScript c now q

end Imagin4.Ports
