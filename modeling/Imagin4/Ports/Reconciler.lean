import Imagin4.Ports.JobQueue
import Imagin4.Ports.Retry
import Imagin4.Ports.Scheduler

/-!
# The reconciler's decisions

The parts of `app/services/reconciler.py` that only compute: what a pass does
about one active job, with or without an answer from its backend.  A decision
is the queue call it ends in, `none` where the job is left alone, or the
exception `run_once` logs.

## Main results

* `failOrRetry_cases` — a failed attempt is put back only while the budget is
  not spent, and ends the job otherwise.
* `verdict_of_reconcileJob`, `verdict_of_resolveViaComfy` — the decisions a
  pass can come to, each about the job it was made for.
-/

namespace Imagin4.Ports

/-- `ComfyStatus.state`. -/
inductive ComfyState where
  | running
  | succeeded
  | failed
  | unknown
deriving DecidableEq, Repr

/-- `ComfyStatus`, without the prompt id it repeats. -/
structure ComfyStatus where
  state : ComfyState
  outputs : Option (List Output) := none
  error : Option String := none
deriving DecidableEq, Repr

/-- Is a lease over?  A missing one is not. -/
def leaseExpired (job : QueuedJob) (now : DateTime) : Bool :=
  match job.leaseExpiresAt with
  | none => false
  | some t => decide (t < now)

/-- `_fail_or_retry`; `draw` is the jitter's random number. -/
def failOrRetry (job : QueuedJob) (errorCode : String)
    (detail : Option String) (draw : Rat) : Except PyError QueueCall :=
  let attemptNo := job.currentAttempt + 1
  if isRetryable errorCode attemptNo job.maxAttempts then
    match computeBackoffSeconds attemptNo {} draw with
    | .error e => .error e
    | .ok delay =>
        .ok (.markRetryWait job.id errorCode detail (some delay) draw)
  else .ok (.markFailed job.id errorCode detail)

/-- The `unknown` branch of `_resolve_via_comfy`: is the job given up? -/
def lostByComfy (settings : Settings) (job : QueuedJob) (now : DateTime) :
    Bool :=
  match job.leaseExpiresAt with
  | some t => decide (t < now)
  | none =>
      decide (settings.staleRunningSeconds ≤ totalSeconds (now - job.queuedAt))

/-- `_resolve_via_comfy`, once `get_status` has answered; `leaseSeconds` is
`lease_seconds` of the reconciler. -/
def resolveViaComfy (settings : Settings) (job : QueuedJob) (now : DateTime)
    (status : ComfyStatus) (draw : Rat) (leaseSeconds : Rat := defaultLeaseSeconds) :
    Except PyError (Option QueueCall) :=
  match status.state with
  | .succeeded =>
      .ok (some (.markSucceeded job.id ⟨status.outputs.getD []⟩))
  | .running => .ok (some (.renewLease job.id leaseSeconds))
  | .unknown =>
      if lostByComfy settings job now then
        (failOrRetry job "comfy_transient"
          (some "prompt_unknown_to_comfy_after_lease") draw).map some
      else .ok none
  | .failed => (failOrRetry job "comfy_transient" status.error draw).map some

/-- `bool(job.prompt_id)`. -/
def hasPromptId (job : QueuedJob) : Option String :=
  match job.promptId with
  | some p => if p = "" then none else some p
  | none => none

theorem promptId_of_hasPromptId {job : QueuedJob} {p : String}
    (h : hasPromptId job = some p) : job.promptId = some p := by
  unfold hasPromptId at h
  split at h
  · rename_i p' hp'
    split at h
    · cases h
    · rw [hp', Option.some.inj h]
  · cases h

/-- `_reconcile_job` for a job without a prompt id. -/
def reconcileJob (job : QueuedJob) (now : DateTime) (draw : Rat) :
    Except PyError (Option QueueCall) :=
  if leaseExpired job now then
    (failOrRetry job "worker_lease_expired"
      (some "lease expired with no prompt_id") draw).map some
  else .ok none

/-! ## What a decision can be -/

/-- A failed attempt is put back while the budget is not spent, and ends the
job otherwise. -/
theorem failOrRetry_cases {job : QueuedJob} {errorCode : String}
    {detail : Option String} {draw : Rat} {c : QueueCall}
    (h : failOrRetry job errorCode detail draw = .ok c) :
    (∃ delay, c = .markRetryWait job.id errorCode detail (some delay) draw ∧
      job.attempt < job.maxAttempts) ∨
    c = .markFailed job.id errorCode detail := by
  unfold failOrRetry at h
  dsimp only at h
  split at h
  · rename_i hretry
    have hlt := lt_of_isRetryable hretry
    split at h
    · cases h
    · rename_i delay _
      refine Or.inl ⟨delay, ?_, hlt⟩
      cases h
      rfl
  · cases h
    exact Or.inr rfl

/-- What a pass may do about a job. -/
inductive Verdict (job : QueuedJob) : QueueCall → Prop
  | renew (secs : Rat) : Verdict job (.renewLease job.id secs)
  | succeed (result : JobResult) :
      Verdict job (.markSucceeded job.id result)
  | fail (code : String) (detail : Option String) :
      Verdict job (.markFailed job.id code detail)
  | retry (code : String) (detail : Option String) (delay draw : Rat)
      (h : job.attempt < job.maxAttempts) :
      Verdict job (.markRetryWait job.id code detail (some delay) draw)

theorem Verdict.target {job : QueuedJob} {c : QueueCall}
    (h : Verdict job c) : c.target = job.id := by
  cases h <;> rfl

theorem verdict_of_failOrRetry {job : QueuedJob} {errorCode : String}
    {detail : Option String} {draw : Rat} {c : QueueCall}
    (h : (failOrRetry job errorCode detail draw).map some = .ok (some c)) :
    Verdict job c := by
  cases hfail : failOrRetry job errorCode detail draw with
  | error e =>
      rw [hfail] at h
      cases h
  | ok d =>
      rw [hfail] at h
      cases h
      rcases failOrRetry_cases hfail with ⟨delay, rfl, hlt⟩ | rfl
      · exact .retry _ _ _ _ hlt
      · exact .fail _ _

/-- Every decision about a job without a prompt id is one of these. -/
theorem verdict_of_reconcileJob {job : QueuedJob} {now : DateTime}
    {draw : Rat} {c : QueueCall}
    (h : reconcileJob job now draw = .ok (some c)) : Verdict job c := by
  unfold reconcileJob at h
  split at h
  · exact verdict_of_failOrRetry h
  · cases h

/-- Every decision about an answer is one of these. -/
theorem verdict_of_resolveViaComfy {settings : Settings} {job : QueuedJob}
    {now : DateTime} {status : ComfyStatus} {draw leaseSeconds : Rat} {c : QueueCall}
    (h : resolveViaComfy settings job now status draw leaseSeconds = .ok (some c)) :
    Verdict job c := by
  unfold resolveViaComfy at h
  split at h
  · cases h
    exact .succeed _
  · cases h
    exact .renew _
  · split at h
    · exact verdict_of_failOrRetry h
    · cases h
  · exact verdict_of_failOrRetry h

end Imagin4.Ports
