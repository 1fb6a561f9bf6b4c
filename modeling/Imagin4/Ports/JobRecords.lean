import Imagin4.Ports.QueueTransactions
import Imagin4.Ports.TerminalStates

/-!
# The record of one job

A job of the Postgres queue is spread over three tables.  Its `JobRecord` puts
together what they hold about it: the row of `generation_jobs`, the attempts
with their results, and the events.  Leases and prompt ids are left out; they
change without the job row being locked.

A `Change` is what one transaction does to one record.  It is the abstract
queue: `Imagin4.Ports.JobLedger` shows that the statements of a transaction add
up to one change of every record it has locked.

## Main results

* `record_put`, `record_putAll` — a row version changes the record of its own
  job.
* `outcome_get` — what `get` reports about a finished job is in its record.
* `numbered_change` — the attempts of a waiting job are numbered up to
  `current_attempt`.
* `Change.not_of_terminal` — a job that has ended does not change.
-/

namespace Imagin4.Ports

open Imagin4.Verified

/-! ## Records -/

/-- An attempt number, and the result recorded for it. -/
abbrev AttemptResult := Nat × Option JobResult

/-- What the tables hold about one job. -/
structure JobRecord where
  row : Option JobRow
  attempts : Table (Prod.fst : AttemptResult → Nat)
  events : List EventRow

namespace JobRecord

/-- No job. -/
def empty : JobRecord := ⟨none, Table.empty, []⟩

/-- The number of the latest attempt. -/
def maxAttemptNo (rec : JobRecord) : Option Nat :=
  (rec.attempts.rows.map Prod.fst).max?

/-- The latest attempt. -/
def latest (rec : JobRecord) : Option AttemptResult :=
  rec.maxAttemptNo.bind rec.attempts.find?

/-- Replaces the job row. -/
def setRow (rec : JobRecord) (g : JobRow) : JobRecord :=
  { rec with row := some g }

/-- Inserts or replaces an attempt. -/
def putAttempt (rec : JobRecord) (n : Nat) (result : Option JobResult) :
    JobRecord :=
  { rec with attempts := rec.attempts.put (n, result) }

/-- Records the result of the latest attempt, if there is one to record. -/
def recordResult (rec : JobRecord) (result : Option JobResult) : JobRecord :=
  match rec.latest with
  | none => rec
  | some (n, old) => rec.putAttempt n (result <|> old)

/-- Appends an event under the next number. -/
def log (rec : JobRecord) (id : Uuid) (eventType : String) (payload : Json) :
    JobRecord :=
  { rec with
    events := rec.events ++
      [⟨id, (rec.events.map EventRow.sequenceNo).max?.getD 0 + 1, eventType,
        payload⟩] }

@[simp] theorem row_setRow (rec : JobRecord) (g : JobRow) :
    (rec.setRow g).row = some g := rfl

@[simp] theorem attempts_setRow (rec : JobRecord) (g : JobRow) :
    (rec.setRow g).attempts = rec.attempts := rfl

@[simp] theorem events_setRow (rec : JobRecord) (g : JobRow) :
    (rec.setRow g).events = rec.events := rfl

@[simp] theorem row_putAttempt (rec : JobRecord) (n : Nat)
    (result : Option JobResult) : (rec.putAttempt n result).row = rec.row := rfl

@[simp] theorem events_putAttempt (rec : JobRecord) (n : Nat)
    (result : Option JobResult) :
    (rec.putAttempt n result).events = rec.events := rfl

@[simp] theorem row_log (rec : JobRecord) (id : Uuid) (eventType : String)
    (payload : Json) : (rec.log id eventType payload).row = rec.row := rfl

@[simp] theorem attempts_log (rec : JobRecord) (id : Uuid) (eventType : String)
    (payload : Json) :
    (rec.log id eventType payload).attempts = rec.attempts := rfl

theorem mem_of_latest {rec : JobRecord} {n : Nat} {result : Option JobResult}
    (h : rec.latest = some (n, result)) :
    rec.maxAttemptNo = some n ∧ rec.attempts.find? n = some (n, result) := by
  obtain ⟨m, hm, hfind⟩ := Option.bind_eq_some_iff.mp h
  have hmn : n = m := Table.key_of_find? hfind
  exact ⟨hmn ▸ hm, hmn ▸ hfind⟩

@[simp] theorem row_recordResult (rec : JobRecord)
    (result : Option JobResult) : (rec.recordResult result).row = rec.row := by
  unfold recordResult
  split <;> rfl

@[simp] theorem events_recordResult (rec : JobRecord)
    (result : Option JobResult) :
    (rec.recordResult result).events = rec.events := by
  unfold recordResult
  split <;> rfl

/-- Nothing to record. -/
theorem recordResult_none (rec : JobRecord) : rec.recordResult none = rec := by
  unfold recordResult
  cases hlatest : rec.latest with
  | none => rfl
  | some a =>
      obtain ⟨n, old⟩ := a
      have hfind := (mem_of_latest hlatest).2
      show { rec with attempts := rec.attempts.put (n, old) } = rec
      rw [Table.put_eq_self hfind]

end JobRecord

/-- Two attempts of one job with one number have one key. -/
theorem AttemptRow.key_eq_of_no (i : Uuid) (a b : AttemptRow)
    (ha : decide (a.jobId = i) = true) (hb : decide (b.jobId = i) = true)
    (h : a.attemptNo = b.attemptNo) : a.key = b.key := by
  have hjob : a.jobId = b.jobId :=
    (of_decide_eq_true ha).trans (of_decide_eq_true hb).symm
  rw [key, key, hjob, h]

/-- The record of a job. -/
def PostgresJobQueue.record (i : Uuid) (q : PostgresJobQueue) : JobRecord where
  row := q.generationJobs.find? i
  attempts := q.jobAttempts.slice (fun a => a.jobId = i)
    (fun a => (a.attemptNo, a.result)) (AttemptRow.key_eq_of_no i)
  events := q.jobEvents.filter (fun e => e.jobId = i)

/-- What a row version adds to a record. -/
def RowVersion.putRecord (i : Uuid) : RowVersion → JobRecord → JobRecord
  | job g, rec => if g.id = i then rec.setRow g else rec
  | attempt a, rec =>
      if a.jobId = i then rec.putAttempt a.attemptNo a.result else rec
  | event e, rec =>
      if e.jobId = i then { rec with events := rec.events ++ [e] } else rec
  | advisory, rec => rec

namespace RowVersion

variable {i : Uuid} {rec : JobRecord}

theorem putRecord_job_self {g : JobRow} :
    (job g).putRecord g.id rec = rec.setRow g := if_pos rfl

theorem putRecord_job_ne {g : JobRow} (h : g.id ≠ i) :
    (job g).putRecord i rec = rec := if_neg h

/-- Row versions none of which adds anything. -/
theorem foldl_putRecord_eq_self :
    ∀ {vs : List RowVersion}, (∀ v ∈ vs, v.putRecord i rec = rec) →
      vs.foldl (fun rec v => v.putRecord i rec) rec = rec := by
  intro vs
  induction vs with
  | nil => exact fun _ => rfl
  | cons v rest ih =>
      intro h
      rw [List.foldl_cons, h v (List.mem_cons_self ..)]
      exact ih (fun w hw => h w (List.mem_cons_of_mem v hw))

theorem foldl_putRecord_of_not_mem {rows : List JobRow}
    (hi : i ∉ rows.map JobRow.id) :
    (rows.map job).foldl (fun rec v => v.putRecord i rec) rec = rec := by
  refine foldl_putRecord_eq_self (fun v hv => ?_)
  obtain ⟨g, hg, rfl⟩ := List.mem_map.mp hv
  exact putRecord_job_ne (fun h => hi (h ▸ List.mem_map_of_mem hg))

/-- Of rows with different ids each sets the row of its own job. -/
theorem foldl_putRecord_of_mem {rows : List JobRow}
    (hnodup : (rows.map JobRow.id).Nodup) {g : JobRow} (hg : g ∈ rows) :
    (rows.map job).foldl (fun rec v => v.putRecord g.id rec) rec =
      rec.setRow g := by
  induction rows with
  | nil => cases hg
  | cons h rest ih =>
      obtain ⟨hnot, hrest⟩ := List.nodup_cons.mp hnodup
      rw [List.map_cons, List.foldl_cons]
      rcases List.mem_cons.mp hg with rfl | hg
      · rw [putRecord_job_self, foldl_putRecord_of_not_mem hnot]
      · have hne : h.id ≠ g.id := fun heq =>
          hnot (heq ▸ List.mem_map_of_mem hg)
        rw [putRecord_job_ne hne]
        exact ih hrest hg

end RowVersion

namespace PostgresJobQueue

@[simp] theorem record_empty (i : Uuid) : empty.record i = .empty := rfl

/-- A row version changes the record of its own job. -/
theorem record_put (i : Uuid) (v : RowVersion) (q : PostgresJobQueue) :
    (v.put q).record i = v.putRecord i (q.record i) := by
  cases v with
  | job g =>
      have hrow := Table.find?_put q.generationJobs g i
      by_cases hi : g.id = i
      · rw [if_pos hi.symm] at hrow
        simp only [RowVersion.putRecord, if_pos hi]
        exact congrArg (fun r => { q.record i with row := r }) hrow
      · rw [if_neg (Ne.symm hi)] at hrow
        simp only [RowVersion.putRecord, if_neg hi]
        exact congrArg (fun r => { q.record i with row := r }) hrow
  | attempt a =>
      by_cases hi : a.jobId = i
      · simp only [RowVersion.putRecord, if_pos hi]
        refine congrArg (fun t => { q.record i with attempts := t }) ?_
        refine Table.slice_put (decide_eq_true hi) (fun b hb => ?_)
        obtain ⟨hjob, hno⟩ := Prod.mk.inj hb
        exact ⟨decide_eq_true (hjob.trans hi), hno⟩
      · simp only [RowVersion.putRecord, if_neg hi]
        refine congrArg (fun t => { q.record i with attempts := t }) ?_
        refine Table.slice_put_of_not (decide_eq_false hi) (fun b hb => ?_)
        obtain ⟨hjob, _⟩ := Prod.mk.inj hb
        exact decide_eq_false (fun h => hi (hjob.symm.trans h))
  | event e =>
      have hevents : (q.jobEvents ++ [e]).filter (fun e => e.jobId = i) =
          (q.record i).events ++ [e].filter (fun e => e.jobId = i) :=
        List.filter_append ..
      by_cases hi : e.jobId = i
      · simp only [RowVersion.putRecord, if_pos hi]
        refine congrArg (fun t => { q.record i with events := t })
          (hevents.trans ?_)
        simp [hi]
      · simp only [RowVersion.putRecord, if_neg hi]
        refine congrArg (fun t => { q.record i with events := t })
          (hevents.trans ?_)
        simp [hi, record]
  | advisory => rfl

/-- What a transaction sees of a job is the committed record and what it has
written about it. -/
theorem record_putAll (i : Uuid) (vs : List RowVersion)
    (q : PostgresJobQueue) : (database.putAll vs q).record i =
      vs.foldl (fun rec v => v.putRecord i rec) (q.record i) := by
  induction vs generalizing q with
  | nil => rfl
  | cons v vs ih =>
      show (database.putAll vs (v.put q)).record i = _
      rw [ih, record_put, List.foldl_cons]

theorem find?_attempts (i : Uuid) (n : Nat) (q : PostgresJobQueue) :
    (q.record i).attempts.find? n =
      (q.jobAttempts.find? (i, n)).map (fun a => (a.attemptNo, a.result)) := by
  have hattempts : (q.record i).attempts =
      q.jobAttempts.slice (fun a => a.jobId = i)
        (fun a => (a.attemptNo, a.result)) (AttemptRow.key_eq_of_no i) := rfl
  rw [hattempts]
  refine Table.find?_slice (fun a ha => ?_) (fun a ha => ?_)
  · have hjob : a.jobId = i := of_decide_eq_true ha
    constructor
    · intro h
      have hno : a.attemptNo = n := h
      rw [AttemptRow.key, hjob, hno]
    · intro h
      exact (Prod.mk.inj h).2
  · exact decide_eq_true (Prod.mk.inj ha).1

theorem mem_attempts {i : Uuid} {q : PostgresJobQueue} {a : AttemptRow}
    (ha : a ∈ q.jobAttempts) (hi : a.jobId = i) :
    (a.attemptNo, a.result) ∈ (q.record i).attempts :=
  List.mem_map.mpr ⟨a, List.mem_filter.mpr ⟨ha, decide_eq_true hi⟩, rfl⟩

theorem maxAttemptNo_record (i : Uuid) (q : PostgresJobQueue) :
    (q.record i).maxAttemptNo = q.maxAttemptNo i := by
  unfold JobRecord.maxAttemptNo maxAttemptNo
  show (((q.jobAttempts.rows.filter _).map _).map _).max? = _
  rw [List.map_map]
  rfl

theorem latest_record (i : Uuid) (q : PostgresJobQueue) :
    (q.record i).latest =
      (q.latestAttempt i).map (fun a => (a.attemptNo, a.result)) := by
  unfold JobRecord.latest latestAttempt
  rw [maxAttemptNo_record]
  cases q.maxAttemptNo i with
  | none => rfl
  | some n => exact find?_attempts i n q

end PostgresJobQueue

/-- What `get` reports about the end of a job. -/
def JobRecord.outcome (rec : JobRecord) : Option Outcome :=
  rec.row.map (fun g =>
    ⟨g.state, rec.latest.bind Prod.snd, g.errorCode, g.errorDetailSanitized,
      g.currentAttempt⟩)

theorem PostgresJobQueue.outcome_get (q : PostgresJobQueue) (i : Uuid) :
    (q.get i).map QueuedJob.outcome = (q.record i).outcome := by
  unfold JobRecord.outcome
  rw [latest_record]
  show ((q.generationJobs.find? i).map _).map _ =
    (q.generationJobs.find? i).map _
  cases q.generationJobs.find? i with
  | none => rfl
  | some g =>
      cases q.latestAttempt i with
      | none => simp [rowToQueuedJob, QueuedJob.outcome]
      | some a => simp [rowToQueuedJob, QueuedJob.outcome]

/-! ## Changes -/

namespace JobRecord

/-- A new attempt; there is none if the number is taken. -/
def newAttempt (rec : JobRecord) (n : Nat) : Option JobRecord :=
  if (rec.attempts.find? n).isSome then none
  else some (rec.putAttempt n none)

theorem of_newAttempt {rec rec' : JobRecord} {n : Nat}
    (h : rec.newAttempt n = some rec') :
    rec.attempts.find? n = none ∧ rec' = rec.putAttempt n none := by
  unfold newAttempt at h
  split at h
  · cases h
  · rename_i hnew
    cases h
    exact ⟨by simpa using hnew, rfl⟩

end JobRecord

/-- What a transaction of an operation does to the record of a job it has
locked. -/
inductive Change : QueueOp → Uuid → JobRecord → JobRecord → Prop where
  | enqueue (job : QueuedJob) (modelFamily workflowVersion : String)
      {rec : JobRecord} :
      rec.row = none →
      Change (.enqueue job) job.id rec
        ((rec.setRow (PostgresJobQueue.rowOfJob job modelFamily
          workflowVersion)).log job.id "created" (.obj []))
  | claim (req : ClaimRequest) (now : DateTime) (g : JobRow)
      {rec rec' : JobRecord} :
      rec.row = some g → g.state.isWaiting = true →
      (rec.setRow { g with state := .dispatched }).newAttempt
        (g.currentAttempt + 1) = some rec' →
      Change (.claim req now) g.id rec
        (rec'.log g.id "dispatched"
          (.obj [("attempt_no", .int (g.currentAttempt + 1 : Nat))]))
  | markRunning (now : DateTime) (g : JobRow) {rec : JobRecord} :
      rec.row = some g → g.state.isTerminal = false →
      Change (.call (.markRunning g.id) now) g.id rec
        (rec.setRow { g with state := .running })
  | markSucceeded (result : JobResult) (now : DateTime) (g : JobRow)
      {rec : JobRecord} :
      rec.row = some g → g.state.isTerminal = false →
      Change (.call (.markSucceeded g.id result) now) g.id rec
        (((rec.setRow { g with
          state := .succeeded
          errorCode := none
          errorDetailSanitized := none }).recordResult (some result)).log g.id
            "job_succeeded" (.obj []))
  | markFailed (errorCode : String) (errorDetail : Option String)
      (now : DateTime) (g : JobRow) {rec : JobRecord} :
      rec.row = some g → g.state.isTerminal = false →
      Change (.call (.markFailed g.id errorCode errorDetail) now) g.id rec
        ((rec.setRow { g with
          state := .failed
          errorCode := some errorCode
          errorDetailSanitized := errorDetail }).log g.id "job_failed"
            (.obj [("error_code", .str errorCode),
              ("detail", PostgresJobQueue.jsonOfOption errorDetail)]))
  | markRetryWait (errorCode : String) (errorDetail : Option String)
      (delaySeconds : Option Rat) (draw delay : Rat) (now : DateTime)
      (g : JobRow) {rec : JobRecord} :
      rec.row = some g → g.state.isTerminal = false →
      Change (.call (.markRetryWait g.id errorCode errorDetail delaySeconds
          draw) now) g.id rec
        ((rec.setRow { g with
          state := .retryWait
          currentAttempt := g.currentAttempt + 1
          errorCode := some errorCode
          errorDetailSanitized := errorDetail
          availableAt := now + timedelta delay }).log g.id
            "job_retry_scheduled"
            (.obj [("error_code", .str errorCode),
              ("detail", PostgresJobQueue.jsonOfOption errorDetail),
              ("delay_seconds", .float (.finite delay))]))
  | cancel (now : DateTime) (g : JobRow) {rec : JobRecord} :
      rec.row = some g → g.state.isTerminal = false →
      Change (.call (.cancel g.id) now) g.id rec
        ((rec.setRow { g with state := .cancelled }).log g.id "job_cancelled"
          (.obj []))

/-- A job that has ended does not change. -/
theorem Change.not_of_terminal {op : QueueOp} {i : Uuid}
    {rec rec' : JobRecord} {g : JobRow} (h : Change op i rec rec')
    (hg : rec.row = some g) (hterm : g.state.isTerminal = true) : False := by
  have hlive : ∀ {g' : JobRow}, rec.row = some g' →
      g'.state.isTerminal = false → False := by
    intro g' hg' hlive
    rw [hg] at hg'
    cases hg'
    rw [hterm] at hlive
    cases hlive
  cases h with
  | enqueue job modelFamily workflowVersion hnone =>
      rw [hg] at hnone
      cases hnone
  | claim req now g' hg' hwait =>
      exact hlive hg' (JobState.not_terminal_of_waiting hwait)
  | markRunning now g' hg' hl => exact hlive hg' hl
  | markSucceeded result now g' hg' hl => exact hlive hg' hl
  | markFailed errorCode errorDetail now g' hg' hl => exact hlive hg' hl
  | markRetryWait errorCode errorDetail delaySeconds draw delay now g' hg' hl =>
      exact hlive hg' hl
  | cancel now g' hg' hl => exact hlive hg' hl

/-! ## Attempt numbers -/

/-- The attempts of a job are numbered up to the one it is in, and while it
waits up to `current_attempt`. -/
structure JobRecord.Numbered (rec : JobRecord) : Prop where
  none : rec.row = none → rec = .empty
  le : ∀ g, rec.row = some g → ∀ a ∈ rec.attempts, a.1 ≤ g.currentAttempt + 1
  le_waiting : ∀ g, rec.row = some g → g.state.isWaiting = true →
    ∀ a ∈ rec.attempts, a.1 ≤ g.currentAttempt

namespace JobRecord

theorem numbered_empty : Numbered .empty where
  none _ := rfl
  le _ h := by cases h
  le_waiting _ h := by cases h

/-- The number of a new attempt is free. -/
theorem Numbered.free {rec : JobRecord} (h : rec.Numbered) {g : JobRow}
    (hg : rec.row = some g) (hwait : g.state.isWaiting = true) :
    rec.attempts.find? (g.currentAttempt + 1) = Option.none := by
  refine Table.find?_eq_none_iff.mpr (fun a ha heq => ?_)
  have hle := h.le_waiting g hg hwait a ha
  omega

/-- The attempts of a record are numbers the row has counted. -/
theorem numbered_of_le {rec : JobRecord} {g : JobRow} (hg : rec.row = some g)
    (hle : ∀ a ∈ rec.attempts, a.1 ≤ g.currentAttempt) : rec.Numbered where
  none h := by
    rw [hg] at h
    cases h
  le g' hg' a ha := by
    rw [hg] at hg'
    cases hg'
    exact Nat.le_succ_of_le (hle a ha)
  le_waiting g' hg' _ a ha := by
    rw [hg] at hg'
    cases hg'
    exact hle a ha

theorem numbered_of_not_waiting {rec : JobRecord} {g : JobRow}
    (hg : rec.row = some g) (hwait : g.state.isWaiting = false)
    (hle : ∀ a ∈ rec.attempts, a.1 ≤ g.currentAttempt + 1) :
    rec.Numbered where
  none h := by
    rw [hg] at h
    cases h
  le g' hg' a ha := by
    rw [hg] at hg'
    cases hg'
    exact hle a ha
  le_waiting g' hg' hw := by
    rw [hg] at hg'
    cases hg'
    rw [hwait] at hw
    cases hw

/-- Recording a result adds no number. -/
theorem exists_of_mem_recordResult {rec : JobRecord}
    {result : Option JobResult} {a : AttemptResult}
    (h : a ∈ (rec.recordResult result).attempts) :
    ∃ b ∈ rec.attempts, b.1 = a.1 := by
  unfold recordResult at h
  cases hlatest : rec.latest with
  | none =>
      rw [hlatest] at h
      exact ⟨a, h, rfl⟩
  | some b =>
      obtain ⟨n, old⟩ := b
      rw [hlatest] at h
      rcases Table.mem_put.mp h with rfl | ⟨hmem, _⟩
      · exact ⟨(n, old),
          (Table.find?_eq_some_iff.mp (mem_of_latest hlatest).2).1, rfl⟩
      · exact ⟨a, hmem, rfl⟩

theorem numbered_change {op : QueueOp} {i : Uuid} {rec rec' : JobRecord}
    (hrec : rec.Numbered) (h : Change op i rec rec') : rec'.Numbered := by
  cases h with
  | enqueue job modelFamily workflowVersion hnone =>
      refine numbered_of_le rfl (fun a ha => ?_)
      rw [hrec.none hnone] at ha
      cases ha
  | claim req now g hg hwait hnew =>
      obtain ⟨_, rfl⟩ := of_newAttempt hnew
      refine numbered_of_not_waiting rfl rfl (fun a ha => ?_)
      rcases Table.mem_put.mp ha with rfl | ⟨hmem, _⟩
      · exact Nat.le_refl _
      · exact hrec.le g hg a hmem
  | markRunning now g hg _ =>
      exact numbered_of_not_waiting rfl rfl (fun a ha => hrec.le g hg a ha)
  | markSucceeded result now g hg _ =>
      refine numbered_of_not_waiting (row_recordResult _ _) rfl
        (fun a ha => ?_)
      obtain ⟨b, hb, hno⟩ := exists_of_mem_recordResult ha
      have hle := hrec.le g hg b hb
      rw [← hno]
      exact hle
  | markFailed errorCode errorDetail now g hg _ =>
      exact numbered_of_not_waiting rfl rfl (fun a ha => hrec.le g hg a ha)
  | markRetryWait errorCode errorDetail delaySeconds draw delay now g hg _ =>
      exact numbered_of_le rfl (fun a ha => hrec.le g hg a ha)
  | cancel now g hg _ =>
      exact numbered_of_not_waiting rfl rfl (fun a ha => hrec.le g hg a ha)

end JobRecord

end Imagin4.Ports
