import Imagin4.Ports.LeaseRenewal
import Imagin4.Ports.MemoryQueue

/-!
# A pass of the reconciler

`run_once` of `app/services/reconciler.py` goes through the active jobs of the
in-memory queue, asks ComfyUI about those that have a prompt id, and logs the
exception of a job that it cannot deal with.  `list_active` returns the job objects
themselves, so each is read when its turn comes.

The backoff raises an `OverflowError` from the attempt number 1025 on, before the
job is put back, although `max_seconds` is to bound it.

## Main results

* `get_runOver` — what a pass does to each job, whatever the order.
* `reconciled_iff` — when every job is dealt with as it should be.
-/

namespace Imagin4.Ports

open Imagin4.Verified

/-! ## The pass -/

/-- What a pass meets: for each job what its poll comes to, the time of the queue
call it ends in, and the random number of the jitter. -/
structure PassReports where
  poll : Uuid → Except PyError ComfyStatus
  clock : Uuid → DateTime
  draw : Uuid → Rat

section Pass

variable (settings : Settings) (leaseSeconds : Rat) (reports : PassReports)
  (now : DateTime)

/-- `_reconcile_job` up to its queue call. -/
def reconcileDecision (job : QueuedJob) : Except PyError (Option QueueCall) :=
  match hasPromptId job with
  | none => reconcileJob job now (reports.draw job.id)
  | some _ =>
      match reports.poll job.id with
      | .error e => .error e
      | .ok status => resolveViaComfy settings job now status (reports.draw job.id)
          leaseSeconds

/-- One round of the loop of `run_once`. -/
def reconcileStep (q : InMemoryJobQueue) (active : QueuedJob) : InMemoryJobQueue :=
  let job := JobQueue.deref q active
  settle (reconcileDecision settings leaseSeconds reports now job)
    (reports.clock job.id) q

/-- The loop over some jobs. -/
def runOver (active : List QueuedJob) (q : InMemoryJobQueue) : InMemoryJobQueue :=
  active.foldl (reconcileStep settings leaseSeconds reports now) q

/-- `run_once`; the number is that of the jobs it has examined. -/
def runOnce (q : InMemoryJobQueue) : InMemoryJobQueue × Nat :=
  (runOver settings leaseSeconds reports now q.listActive q, q.listActive.length)

end Pass

/-! ## One job -/

namespace InMemoryJobQueue

/-- What a call does to the job object it is about. -/
def callStep (now : DateTime) : QueueCall → QueuedJob → QueuedJob
  | .renewLease _ secs, j =>
      if j.state.isActive then
        { j with leaseExpiresAt := some (now + timedelta secs) }
      else j
  | .markRunning _, j => { j with state := .running, promptId := none }
  | .markSucceeded _ result, j =>
      if j.state.isTerminal then j
      else
        { j with
          state := .succeeded
          result := some result
          leaseOwner := none
          leaseExpiresAt := none
          errorCode := none
          errorDetail := none }
  | .markFailed _ code detail, j =>
      if j.state.isTerminal then j
      else
        { j with
          state := .failed
          errorCode := some code
          errorDetail := detail
          leaseOwner := none
          leaseExpiresAt := none }
  | .markRetryWait _ code detail delay draw, j =>
      if j.state.isTerminal then j else waitForRetry code detail delay draw now j
  | .setPromptId _ promptId, j => { j with promptId := some promptId }
  | .cancel _, j => if j.state.isTerminal then j else { j with state := .cancelled }

/-- A call changes its own job object only. -/
theorem get_apply (c : QueueCall) (now : DateTime) (q : InMemoryJobQueue)
    (id : Uuid) : (c.apply now q).get id =
      if id = c.target then (q.get id).map (callStep now c) else q.get id := by
  cases c with
  | renewLease i secs => exact get_update i id _ _ q
  | markRunning i => exact get_update i id _ _ q
  | markSucceeded i result => exact get_update i id _ _ q
  | markFailed i code detail => exact get_update i id _ _ q
  | markRetryWait i code detail delay draw => exact get_update i id _ _ q
  | setPromptId i promptId => exact get_update i id _ _ q
  | cancel i => exact get_update i id _ _ q

end InMemoryJobQueue

section Loop

open InMemoryJobQueue

variable {settings : Settings} {leaseSeconds : Rat} {reports : PassReports}
  {now : DateTime} {q : InMemoryJobQueue}

/-- What a pass does to a job. -/
def reconciled (settings : Settings) (leaseSeconds : Rat) (reports : PassReports)
    (now : DateTime) (job : QueuedJob) : QueuedJob :=
  match reconcileDecision settings leaseSeconds reports now job with
  | .ok (some c) => callStep (reports.clock job.id) c job
  | _ => job

/-- Every decision about a job is about this job. -/
theorem verdict_of_decision {job : QueuedJob} {c : QueueCall}
    (h : reconcileDecision settings leaseSeconds reports now job = .ok (some c)) :
    Verdict job c := by
  unfold reconcileDecision at h
  split at h
  · exact verdict_of_reconcileJob h
  · split at h
    · cases h
    · exact verdict_of_resolveViaComfy h

/-- A round changes the job it is about, and no other. -/
theorem get_reconcileStep {job : QueuedJob} (hjob : q.get job.id = some job)
    (id : Uuid) :
    (reconcileStep settings leaseSeconds reports now q job).get id =
      if id = job.id then
        (q.get id).map (reconciled settings leaseSeconds reports now)
      else q.get id := by
  have hderef : JobQueue.deref q job = job := by
    show (q.get job.id).getD job = job
    rw [hjob]
    rfl
  have hleft : reconciled settings leaseSeconds reports now job = job → q.get id =
      if id = job.id then
        (q.get id).map (reconciled settings leaseSeconds reports now)
      else q.get id := by
    intro hsame
    by_cases hid : id = job.id
    · rw [if_pos hid, hid, hjob, Option.map_some, hsame]
    · rw [if_neg hid]
  unfold reconcileStep
  rw [hderef]
  dsimp only
  cases hdecision : reconcileDecision settings leaseSeconds reports now job with
  | error e =>
      refine hleft ?_
      unfold reconciled
      rw [hdecision]
  | ok call =>
      cases call with
      | none =>
          refine hleft ?_
          unfold reconciled
          rw [hdecision]
      | some c =>
          have htarget : c.target = job.id := (verdict_of_decision hdecision).target
          show (c.apply (reports.clock job.id) q).get id = _
          rw [get_apply, htarget]
          by_cases hid : id = job.id
          · rw [if_pos hid, if_pos hid, hid, hjob, Option.map_some, Option.map_some]
            unfold reconciled
            rw [hdecision]
          · rw [if_neg hid, if_neg hid]

/-- **A pass treats every job on its own**, in whatever order it comes to them. -/
theorem get_runOver {active : List QueuedJob} (hperm : active.Perm q.listActive)
    (id : Uuid) :
    (runOver settings leaseSeconds reports now active q).get id =
      (q.get id).map (fun job => if job.state.isActive then
        reconciled settings leaseSeconds reports now job else job) := by
  have hactive : ∀ {job : QueuedJob}, job ∈ active ↔
      q.get job.id = some job ∧ job.state.isActive = true :=
    hperm.mem_iff.trans mem_listActive
  have hnodup : (active.map QueuedJob.id).Nodup :=
    (hperm.map QueuedJob.id).nodup_iff.mpr
      (q.jobs.nodup.sublist (List.filter_sublist.map QueuedJob.id))
  have hlocal := Table.foldl_local InMemoryJobQueue.get
    (reconcileStep settings leaseSeconds reports now) QueuedJob.id
    (Option.map (reconciled settings leaseSeconds reports now))
    (I := fun q job => q.get job.id = some job)
    (fun q job k hjob => get_reconcileStep hjob k)
    (fun q job other hjob hother hne => by
      rw [get_reconcileStep hjob, if_neg hne.symm, hother])
    hnodup q (fun job hjob => (hactive.mp hjob).1) id
  unfold runOver
  rw [hlocal]
  cases hget : q.get id with
  | none => simp
  | some job =>
      obtain rfl : job.id = id := id_of_get hget
      by_cases hstate : job.state.isActive = true
      · have hin : job.id ∈ active.map QueuedJob.id :=
          List.mem_map_of_mem (hactive.mpr ⟨hget, hstate⟩)
        rw [if_pos hin, Option.map_some, Option.map_some, if_pos hstate]
      · have hout : job.id ∉ active.map QueuedJob.id := by
          intro hin
          obtain ⟨other, hother, hsame⟩ := List.mem_map.mp hin
          obtain ⟨hfound, hotherActive⟩ := hactive.mp hother
          rw [hsame, hget] at hfound
          cases hfound
          exact hstate hotherActive
        rw [if_neg hout, Option.map_some, if_neg hstate]

end Loop

/-! ## What a pass has to do -/

section Effect

variable (leaseSeconds : Rat) (reports : PassReports) (now : DateTime)

/-- The failure a job is charged with, if it is: its code and its detail. -/
def chargedWith (job : QueuedJob) : Option (String × Option String) :=
  let expired := leaseExpired job now
  match hasPromptId job, reports.poll job.id with
  | none, _ =>
      if expired then
        some ("worker_lease_expired", some "lease expired with no prompt_id")
      else none
  | some _, .error _ => none
  | some _, .ok status =>
      if status.state = .failed then some ("comfy_transient", status.error)
      else if status.state = .unknown ∧ expired = true then
        some ("comfy_transient", some "prompt_unknown_to_comfy_after_lease")
      else none

/-- A charged failure puts the job back while the budget is not spent, and ends it
otherwise. -/
def ChargedAs (code : String) (detail : Option String) (job after : QueuedJob) : Prop :=
  if job.currentAttempt + 1 < job.maxAttempts then
    ∃ availableAt : DateTime, after =
      { job with
        state := .retryWait
        errorCode := some code
        errorDetail := detail
        currentAttempt := job.currentAttempt + 1
        leaseOwner := none
        leaseExpiresAt := none
        availableAt := some availableAt }
  else after =
    { job with
      state := .failed
      errorCode := some code
      errorDetail := detail
      leaseOwner := none
      leaseExpiresAt := none }

/-- What becomes of an active job that is not charged with a failure. -/
def spared (job : QueuedJob) : QueuedJob :=
  match hasPromptId job, reports.poll job.id with
  | some _, .ok ⟨.succeeded, outputs, _⟩ =>
      { job with
        state := .succeeded
        result := some ⟨outputs.getD []⟩
        leaseOwner := none
        leaseExpiresAt := none
        errorCode := none
        errorDetail := none }
  | some _, .ok ⟨.running, _, _⟩ =>
      { job with
        leaseExpiresAt := some (reports.clock job.id + timedelta leaseSeconds) }
  | _, _ => job

/-- The effect of a pass on an active job. -/
def Effect (job after : QueuedJob) : Prop :=
  match chargedWith reports now job with
  | some failure => ChargedAs failure.1 failure.2 job after
  | none => after = spared leaseSeconds reports job

/-- The effect of a pass on the queue: that on each active job, and no other. -/
structure Reconciles (q q' : InMemoryJobQueue) : Prop where
  active {job : QueuedJob} : q.get job.id = some job → job.state.isActive = true →
    ∃ after, q'.get job.id = some after ∧ Effect leaseSeconds reports now job after
  inactive {job : QueuedJob} : q.get job.id = some job →
    job.state.isActive = false → q'.get job.id = some job
  absent {id : Uuid} : q.get id = none → q'.get id = none

end Effect

/-! ## A charged failure -/

/-- Is the attempt number of the next failure one the backoff has a value for, or
one that needs none? -/
def backoffFits (job : QueuedJob) : Prop :=
  job.currentAttempt < 1024 ∨ job.maxAttempts ≤ job.currentAttempt + 1

instance (job : QueuedJob) : Decidable (backoffFits job) := by
  unfold backoffFits
  infer_instance

section Effect

variable {settings : Settings} {leaseSeconds : Rat} {reports : PassReports}
  {now : DateTime} {job : QueuedJob}

/-- What `_fail_or_retry` comes to for a retryable code. -/
theorem failOrRetry_eq {code : String} (hcode : code ∈ retryableErrorCodes)
    (detail : Option String) (draw : Rat) :
    failOrRetry job code detail draw =
      if job.currentAttempt + 1 < job.maxAttempts then
        (computeBackoffSeconds (job.currentAttempt + 1) {} draw).map
          (fun delay => .markRetryWait job.id code detail (some delay) draw)
      else .ok (.markFailed job.id code detail) := by
  unfold failOrRetry
  dsimp only
  by_cases hbudget : job.currentAttempt + 1 < job.maxAttempts
  · rw [if_pos ((isRetryable_iff hcode _ _).mpr hbudget), if_pos hbudget]
    cases computeBackoffSeconds (job.currentAttempt + 1) {} draw with
    | error e => rfl
    | ok delay => rfl
  · rw [if_neg (fun h => hbudget ((isRetryable_iff hcode _ _).mp h)), if_neg hbudget]

/-- With a lease, a job is lost to ComfyUI when the lease is over. -/
theorem lostByComfy_eq (hlease : job.leaseExpiresAt ≠ none) :
    lostByComfy settings job now = leaseExpired job now := by
  unfold lostByComfy leaseExpired
  cases hexpires : job.leaseExpiresAt with
  | none => exact absurd hexpires hlease
  | some t => rfl

/-- Where a pass goes with an active job: to `_fail_or_retry` with a charged failure,
under a retryable code, or to the effect on a job that is spared. -/
theorem charged_or_spared (settings : Settings) (leaseSeconds : Rat)
    (reports : PassReports) (now : DateTime) (hlease : job.leaseExpiresAt ≠ none)
    (hactive : job.state.isActive = true) :
    (∃ code detail, chargedWith reports now job = some (code, detail) ∧
      code ∈ retryableErrorCodes ∧
      reconcileDecision settings leaseSeconds reports now job =
        (failOrRetry job code detail (reports.draw job.id)).map some) ∨
    (chargedWith reports now job = none ∧
      reconciled settings leaseSeconds reports now job =
        spared leaseSeconds reports job) := by
  have hlive : ¬job.state.isTerminal = true :=
    Bool.eq_false_iff.mp (JobState.not_terminal_of_active hactive)
  unfold chargedWith reconciled reconcileDecision spared
  dsimp only
  cases hasPromptId job with
  | none =>
      dsimp only
      unfold reconcileJob
      by_cases hexpired : leaseExpired job now = true
      · rw [if_pos hexpired, if_pos hexpired]
        exact Or.inl ⟨_, _, rfl, by decide, rfl⟩
      · rw [if_neg hexpired, if_neg hexpired]
        exact Or.inr ⟨rfl, rfl⟩
  | some p =>
      cases reports.poll job.id with
      | error e => exact Or.inr ⟨rfl, rfl⟩
      | ok status =>
          obtain ⟨state, outputs, error⟩ := status
          unfold resolveViaComfy
          rw [lostByComfy_eq hlease]
          cases state with
          | succeeded => exact Or.inr ⟨rfl, if_neg hlive⟩
          | running => exact Or.inr ⟨rfl, if_pos hactive⟩
          | failed => exact Or.inl ⟨_, _, rfl, by decide, rfl⟩
          | unknown =>
              dsimp only
              by_cases hexpired : leaseExpired job now = true
              · rw [if_neg nofun, if_pos ⟨rfl, hexpired⟩, if_pos hexpired]
                exact Or.inl ⟨_, _, rfl, by decide, rfl⟩
              · rw [if_neg nofun, if_neg (fun h => hexpired h.2), if_neg hexpired]
                exact Or.inr ⟨rfl, rfl⟩

/-- A charged failure is dealt with as it should be as long as the backoff, where it
is needed, has a value. -/
theorem charged_reconciled_iff (hactive : job.state.isActive = true) {code : String}
    {detail : Option String} (hcode : code ∈ retryableErrorCodes)
    (hdecision : reconcileDecision settings leaseSeconds reports now job =
      (failOrRetry job code detail (reports.draw job.id)).map some) :
    ChargedAs code detail job (reconciled settings leaseSeconds reports now job) ↔
      backoffFits job := by
  have hlive : ¬job.state.isTerminal = true :=
    Bool.eq_false_iff.mp (JobState.not_terminal_of_active hactive)
  unfold ChargedAs backoffFits reconciled
  rw [hdecision, failOrRetry_eq hcode]
  by_cases hbudget : job.currentAttempt + 1 < job.maxAttempts
  · rw [if_pos hbudget, if_pos hbudget]
    rcases computeBackoffSeconds_eq job.currentAttempt (reports.draw job.id) with
      ⟨hfits, delay, hdelay⟩ | ⟨hover, herror⟩
    · rw [hdelay]
      exact iff_of_true ⟨_, if_neg hlive⟩ (Or.inl hfits)
    · -- The exception is logged, and the job keeps its state.
      rw [herror]
      refine iff_of_false ?_ (by omega)
      rintro ⟨availableAt, hjob⟩
      have hstate : job.state = .retryWait := congrArg QueuedJob.state hjob
      rw [hstate] at hactive
      cases hactive
  · rw [if_neg hbudget, if_neg hbudget]
    exact iff_of_true (if_neg hlive) (Or.inr (by omega))

/-- When a pass has the right effect on a job. -/
theorem effect_reconciled_iff (hlease : job.leaseExpiresAt ≠ none)
    (hactive : job.state.isActive = true) :
    Effect leaseSeconds reports now job
        (reconciled settings leaseSeconds reports now job) ↔
      (chargedWith reports now job ≠ none → backoffFits job) := by
  unfold Effect
  rcases charged_or_spared settings leaseSeconds reports now hlease hactive with
    ⟨code, detail, hcharged, hcode, hdecision⟩ | ⟨hcharged, hspared⟩
  · rw [hcharged]
    refine (charged_reconciled_iff hactive hcode hdecision).trans ?_
    exact ⟨fun h _ => h, fun h => h nofun⟩
  · rw [hcharged]
    exact iff_of_true hspared (fun h => absurd rfl h)

end Effect

/-! ## A pass -/

section Pass

open InMemoryJobQueue

variable (settings : Settings) (leaseSeconds : Rat) (reports : PassReports)
  (now : DateTime)

/-- **A pass has the effect it should have on each job, whatever the order, exactly
when no failure is charged past the attempt number the backoff has a value for.** -/
theorem reconciled_iff (q : InMemoryJobQueue)
    (hleases : ∀ job ∈ q.listActive, job.leaseExpiresAt ≠ none) :
    (Reconciles leaseSeconds reports now q
        (runOnce settings leaseSeconds reports now q).1 ∧
      ∀ {active : List QueuedJob}, active.Perm q.listActive → ∀ id,
        (runOver settings leaseSeconds reports now active q).get id =
          (runOnce settings leaseSeconds reports now q).1.get id) ↔
      ∀ job ∈ q.listActive, chargedWith reports now job ≠ none → backoffFits job := by
  have hget : ∀ id, (runOnce settings leaseSeconds reports now q).1.get id =
      (q.get id).map (fun job => if job.state.isActive then
        reconciled settings leaseSeconds reports now job else job) :=
    get_runOver (List.Perm.refl _)
  constructor
  · rintro ⟨hreconciles, -⟩ job hjob
    obtain ⟨hfound, hstate⟩ := mem_listActive.mp hjob
    obtain ⟨after, hafter, heffect⟩ := hreconciles.active hfound hstate
    rw [hget, hfound, Option.map_some, if_pos hstate] at hafter
    cases hafter
    exact (effect_reconciled_iff (hleases job hjob) hstate).mp heffect
  · intro hfits
    refine ⟨⟨?_, ?_, ?_⟩, ?_⟩
    · intro job hfound hstate
      have hjob := mem_listActive.mpr ⟨hfound, hstate⟩
      refine ⟨reconciled settings leaseSeconds reports now job, ?_, ?_⟩
      · rw [hget, hfound, Option.map_some, if_pos hstate]
      · exact (effect_reconciled_iff (hleases job hjob) hstate).mpr (hfits job hjob)
    · intro job hfound hstate
      rw [hget, hfound, Option.map_some, hstate]
      rfl
    · intro id hnone
      rw [hget, hnone, Option.map_none]
    · intro active hperm id
      rw [get_runOver hperm, hget]

end Pass

/-- A dispatched job whose lease ran out at the second minute. -/
def lapsedJob (id : Uuid) (currentAttempt maxAttempts : Nat)
    (promptId : Option String) : QueuedJob :=
  { newJob id 1 "image_basic" "k" (.obj []) none 0 with
    state := .dispatched
    currentAttempt := currentAttempt
    maxAttempts := maxAttempts
    leaseOwner := some "scheduler-0"
    leaseExpiresAt := some 120000000
    promptId := promptId }

/-- A worker that is still at work on every prompt, at minute five. -/
def workingReports : PassReports where
  poll := fun _ => .ok { state := .running }
  clock := fun _ => 300000000
  draw := fun _ => 0

/-- A pass over a job that is charged and one that gets a new lease. -/
theorem reconciled_pair :
    let q := (InMemoryJobQueue.empty.enqueue (lapsedJob 7 0 3 none)).enqueue
      (lapsedJob 8 0 3 (some "p"))
    (∀ job ∈ q.listActive, job.leaseExpiresAt ≠ none) ∧
      Reconciles defaultLeaseSeconds workingReports 300000000 q
        (runOnce {} defaultLeaseSeconds workingReports 300000000 q).1 :=
  ⟨by decide +kernel,
    ((reconciled_iff {} defaultLeaseSeconds workingReports 300000000 _
      (by decide +kernel)).mpr (by decide +kernel)).1⟩

/-- The failure of attempt 1025, of 2000, is never charged. -/
theorem not_reconciled_lapsed :
    let q := InMemoryJobQueue.empty.enqueue (lapsedJob 7 1024 2000 none)
    let q' := (runOnce {} defaultLeaseSeconds workingReports 300000000 q).1
    (q'.get 7).map (fun job => (job.state, job.currentAttempt)) =
        some (.dispatched, 1024) ∧
      chargedWith workingReports 300000000 (lapsedJob 7 1024 2000 none) =
        some ("worker_lease_expired", some "lease expired with no prompt_id") ∧
      ¬Reconciles defaultLeaseSeconds workingReports 300000000 q q' := by
  intro q q'
  have hget : q.get 7 = some (lapsedJob 7 1024 2000 none) := rfl
  have hcharged : chargedWith workingReports 300000000 (lapsedJob 7 1024 2000 none) =
      some ("worker_lease_expired", some "lease expired with no prompt_id") := by
    decide +kernel
  have hleft : (q'.get 7).map (fun job => (job.state, job.currentAttempt)) =
      some (.dispatched, 1024) := by decide +kernel
  refine ⟨hleft, hcharged, fun hreconciles => ?_⟩
  obtain ⟨after, hafter, heffect⟩ :=
    @Reconciles.active _ _ _ _ _ hreconciles (lapsedJob 7 1024 2000 none) hget rfl
  unfold Effect at heffect
  rw [hcharged] at heffect
  obtain ⟨availableAt, rfl⟩ : ∃ availableAt : DateTime, after = _ := heffect
  have hid : (lapsedJob 7 1024 2000 none).id = 7 := rfl
  rw [hid] at hafter
  rw [hafter] at hleft
  cases hleft

end Imagin4.Ports
