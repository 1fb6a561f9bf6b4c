import Imagin4.Verified.Machine
import Imagin4.Ports.JobQueue
import Imagin4.Ports.Scheduler
import Imagin4.Ports.Reconciler

/-!
# Schedulers, reconcilers and users over one queue

The processes around a `JobQueue`: any number of schedulers, each running
`_tick` and the dispatch tasks it creates, any number of reconcilers, each
running `run_once`, and users who enqueue and cancel.  A step of the machine is
what one of them does between two points where it can be suspended: one queue
operation, or one answer of the generation backend.

Every job a claim handed out has one `Dispatch` record, which is kept for good:
`claims` counts them, and the record remembers what `mark_running` found, that
`submit` was called, and the prompt id it returned.  `charges` remembers, for
every `mark_retry_wait` that took effect, the attempt the caller reported.
These are history; no step looks at them.

## Main results

* `step_move` — the inversion of a step: what it can do to the queue, to the
  claims and to the charges, and where the queue call it makes comes from.
* `step_tasks`, `pass_move` — what a step does to the dispatches, and to the pass
  of a reconciler.
-/

namespace Imagin4.Ports

open Imagin4.Verified

/-! ## States -/

/-- How far `_tick` and `_dispatch` have come with a claimed job. -/
inductive DispatchPhase where
  /-- claimed by a tick that has not created its tasks yet -/
  | held (scheduler : Nat)
  /-- the tick failed before it created its tasks -/
  | dropped
  /-- the task exists -/
  | ready
  /-- `mark_running` has returned -/
  | marked
  /-- `submit` has been called -/
  | submitting
  /-- `submit` has returned -/
  | returned
  | done
deriving DecidableEq, Repr

/-- One claimed job and its dispatch. -/
structure Dispatch where
  job : QueuedJob
  phase : DispatchPhase
  seen : Option JobState := none
  submitted : Bool := false
  promptId : Option String := none

/-- The attempt a dispatch has claimed. -/
def Dispatch.attempt (d : Dispatch) : Nat := d.job.attempt

/-- How far a scheduler has come with `_tick`. -/
inductive Tick where
  | idle
  | counted (comfyActive : Nat)
  | claiming (comfyActive geminiActive : Nat) (workers : WorkerStatuses)
      (lanes : List Backend)

/-- How far a reconciler has come with `run_once`. -/
inductive Pass where
  | idle
  | started (now : DateTime)
  | working (now : DateTime) (active : List QueuedJob)
  | polling (now : DateTime) (job : QueuedJob) (promptId : String)
      (active : List QueuedJob)

/-- The state of the whole system. -/
structure Sys (σ : Type) where
  now : DateTime
  queue : σ
  schedulers : Nat → Tick
  tasks : List Dispatch
  reconcilers : Nat → Pass
  charges : List (Uuid × Nat)

/-- What the processes and their users do. -/
inductive Action where
  | advance (dt : Nat)
  | enqueue (job : QueuedJob)
  | cancel (id : Uuid)
  -- scheduler `i`
  | countComfy (i : Nat)
  | countGemini (i : Nat) (workers : WorkerStatuses)
  | claimLane (i : Nat) (locked : List Uuid)
  | tickFails (i : Nat)
  | spawn (i : Nat)
  -- dispatch task `t`
  | markRunning (t : Nat)
  | submit (t : Nat)
  | submitReturns (t : Nat) (promptId : String)
  | setPromptId (t : Nat)
  | dispatchRaises (t : Nat) (exc : PyError) (draw : Rat)
  | taskDies (t : Nat)
  -- reconciler `r`
  | startPass (r : Nat)
  | listActive (r : Nat)
  | reconcile (r : Nat) (draw : Rat)
  | answer (r : Nat) (status : ComfyStatus) (draw : Rat)
  | pollRaises (r : Nat)

namespace Sys

variable {σ : Type}

/-- The jobs claimed so far. -/
def jobs (s : Sys σ) : List QueuedJob := s.tasks.map Dispatch.job

/-- How often a job has been claimed. -/
def claims (s : Sys σ) (id : Uuid) : Nat :=
  (s.jobs.map QueuedJob.id).count id

/-- How often `submit` has been called for a job. -/
def submits (s : Sys σ) (id : Uuid) : Nat :=
  s.tasks.countP (fun d => d.submitted && d.job.id = id)

theorem claims_of_jobs_eq {s t : Sys σ} (h : t.jobs = s.jobs) (id : Uuid) :
    t.claims id = s.claims id := by
  unfold claims
  rw [h]

/-- `submit` is called only by dispatches. -/
theorem submits_le_claims (s : Sys σ) (id : Uuid) :
    s.submits id ≤ s.claims id := by
  unfold submits claims jobs
  rw [List.map_map, List.count_eq_countP, List.countP_map]
  refine List.countP_mono_left (fun d _ hd => ?_)
  simp only [Bool.and_eq_true, decide_eq_true_eq] at hd
  simp [hd.2]

/-- A process table with another entry under `i`. -/
def withTick (s : Sys σ) (i : Nat) (tick : Tick) : Sys σ :=
  { s with schedulers := fun k => if k = i then tick else s.schedulers k }

/-- A process table with another entry under `r`. -/
def withPass (s : Sys σ) (r : Nat) (pass : Pass) : Sys σ :=
  { s with reconcilers := fun k => if k = r then pass else s.reconcilers k }

/-- The jobs scheduler `i` holds go on to `phase`. -/
def release (s : Sys σ) (i : Nat) (phase : DispatchPhase) : Sys σ :=
  { s with
    tasks := s.tasks.map
      (fun d => if d.phase = .held i then { d with phase := phase } else d) }

/-- Changes dispatch `t`. -/
def withTask (s : Sys σ) (t : Nat) (f : Dispatch → Dispatch) : Sys σ :=
  { s with tasks := s.tasks.modify t f }

/-- Everything but the clocks of the processes is as it was; only the
dispatches may have moved on. -/
structure Keeps (s u : Sys σ) : Prop where
  now : u.now = s.now
  queue : u.queue = s.queue
  jobs : u.jobs = s.jobs
  charges : u.charges = s.charges

theorem keeps_refl (s : Sys σ) : s.Keeps s := ⟨rfl, rfl, rfl, rfl⟩

theorem Keeps.trans {s u w : Sys σ} (h : s.Keeps u) (h' : u.Keeps w) :
    s.Keeps w :=
  ⟨h'.now.trans h.now, h'.queue.trans h.queue, h'.jobs.trans h.jobs,
    h'.charges.trans h.charges⟩

theorem keeps_withTick (s : Sys σ) (i : Nat) (tick : Tick) :
    s.Keeps (s.withTick i tick) := ⟨rfl, rfl, rfl, rfl⟩

theorem keeps_withPass (s : Sys σ) (r : Nat) (pass : Pass) :
    s.Keeps (s.withPass r pass) := ⟨rfl, rfl, rfl, rfl⟩

theorem keeps_release (s : Sys σ) (i : Nat) (phase : DispatchPhase) :
    s.Keeps (s.release i phase) := by
  refine ⟨rfl, rfl, ?_, rfl⟩
  unfold jobs release
  rw [List.map_map]
  refine List.map_congr_left (fun d _ => ?_)
  by_cases h : d.phase = .held i <;> simp [h]

theorem keeps_withTask (s : Sys σ) (t : Nat) {f : Dispatch → Dispatch}
    (hf : ∀ d, s.tasks[t]? = some d → (f d).job = d.job) :
    s.Keeps (s.withTask t f) := by
  refine ⟨rfl, rfl, ?_, rfl⟩
  unfold jobs withTask
  refine List.ext_getElem? (fun k => ?_)
  rw [List.getElem?_map, List.getElem?_map, List.getElem?_modify]
  cases hd : s.tasks[k]? with
  | none => rfl
  | some d =>
      by_cases h : t = k
      · subst h
        simp [hf d hd]
      · simp [h]

end Sys

/-! ## New jobs -/

/-- The job `admit_generation_job` builds. -/
def newJob (id userId : Uuid) (kind idempotencyKey : String) (inputs : Json)
    (conversationId : Option Uuid) (now : DateTime) : QueuedJob where
  id := id
  userId := userId
  kind := kind
  state := .queued
  priority := 0
  effectivePriority := 0
  inputPayload := inputs
  idempotencyKey := idempotencyKey
  queuedAt := now
  conversationId := conversationId

/-- A job nobody has worked on: `queued`, with an untouched budget, and
without a lease, a prompt id, a result or an error. -/
def admitted (job : QueuedJob) : Bool :=
  job.state = .queued && job.currentAttempt = 0 && decide (0 < job.maxAttempts)
    && job.errorCode.isNone && job.errorDetail.isNone && job.result.isNone
    && job.leaseOwner.isNone && job.leaseExpiresAt.isNone
    && job.promptId.isNone && job.availableAt.isNone

theorem admitted_newJob (id userId : Uuid) (kind idempotencyKey : String)
    (inputs : Json) (conversationId : Option Uuid) (now : DateTime) :
    admitted (newJob id userId kind idempotencyKey inputs conversationId now) =
      true := rfl

/-- What `admitted` says of the life of a job. -/
theorem life_of_admitted {job : QueuedJob} (h : admitted job = true) :
    job.state = .queued ∧ job.currentAttempt = 0 ∧ 0 < job.maxAttempts := by
  unfold admitted at h
  simp only [Bool.and_eq_true, decide_eq_true_eq, and_assoc] at h
  exact ⟨h.1, h.2.1, h.2.2.1⟩

/-- A new job has no prompt id. -/
theorem promptId_of_admitted {job : QueuedJob} (h : admitted job = true) :
    job.promptId = none := by
  unfold admitted at h
  simp only [Bool.and_eq_true, Option.isNone_iff_eq_none] at h
  exact h.1.2

section System

variable {σ : Type} [JobQueue σ]

/-- The state of an empty system at time zero. -/
def Sys.init (queue : σ) : Sys σ where
  now := 0
  queue := queue
  schedulers := fun _ => .idle
  tasks := []
  reconcilers := fun _ => .idle
  charges := []

/-- `owner_id` of scheduler `i`; the host name and the random suffix are
stood for by the number. -/
def ownerId (i : Nat) : String := "scheduler-" ++ toString i

/-! ## Steps -/

/-- The queue call an action makes in a state, and the number of the attempt
its caller takes the job to be in. -/
def callOf (settings : Settings) (s : Sys σ) :
    Action → Option (QueueCall × Nat)
  | .cancel id => some (.cancel id, 0)
  | .markRunning t =>
      s.tasks[t]?.map (fun d => (.markRunning d.job.id, d.attempt))
  | .setPromptId t =>
      s.tasks[t]?.bind (fun d => d.promptId.map
        (fun p => (.setPromptId d.job.id p, d.attempt)))
  | .dispatchRaises t exc draw =>
      s.tasks[t]?.map (fun d =>
        (.markRetryWait d.job.id "worker_unreachable"
          (some ("dispatch_error:" ++ exc)) none draw, d.attempt))
  | .reconcile r draw =>
      match s.reconcilers r with
      | .working now (job :: _) =>
          let job := JobQueue.deref s.queue job
          match hasPromptId job, reconcileJob job now draw with
          | none, .ok (some c) => some (c, job.attempt)
          | _, _ => none
      | _ => none
  | .answer r status draw =>
      match s.reconcilers r with
      | .polling now job _ _ =>
          let job := JobQueue.deref s.queue job
          match resolveViaComfy settings job now status draw with
          | .ok (some c) => some (c, job.attempt)
          | _ => none
      | _ => none
  | _ => none

/-- What scheduler `i` asks the queue for on its next lane. -/
def laneRequest (settings : Settings) (s : Sys σ) (i : Nat) :
    Option ClaimRequest :=
  match s.schedulers i with
  | .claiming comfyActive geminiActive workers (lane :: _) =>
      let capacity := settings.reserveCapacityByBackend comfyActive
        geminiActive workers
      claimForBackend settings (ownerId i) lane (capacity.lane lane)
  | _ => none

/-- What an action does to everything but the queue, and to the queue where
it enqueues or claims. -/
def localStep (settings : Settings) (s : Sys σ) : Action → Option (Sys σ)
  | .advance dt => some { s with now := s.now + dt }
  | .enqueue job =>
      if admitted job ∧ (JobQueue.get s.queue job.id).isNone then
        some { s with queue := JobQueue.enqueue job s.now s.queue }
      else none
  | .cancel _ => some s
  | .countComfy i =>
      match s.schedulers i with
      | .idle =>
          some (s.withTick i (.counted
            (JobQueue.countActive (some (kindsForBackend .comfyui)) s.queue)))
      | _ => none
  | .countGemini i workers =>
      match s.schedulers i with
      | .counted comfyActive =>
          some (s.withTick i (.claiming comfyActive
            (JobQueue.countActive (some (kindsForBackend .gemini)) s.queue)
            workers [.comfyui, .gemini]))
      | _ => none
  | .claimLane i locked =>
      match s.schedulers i with
      | .claiming comfyActive geminiActive workers (_ :: lanes) =>
          let u := s.withTick i
            (.claiming comfyActive geminiActive workers lanes)
          match laneRequest settings s i with
          | none => some u
          | some req =>
              let r := JobQueue.claimNextWithLease req locked s.now s.queue
              some { u with
                queue := r.1
                tasks := u.tasks ++
                  r.2.map (fun j => { job := j, phase := .held i }) }
      | _ => none
  | .tickFails i => some ((s.withTick i .idle).release i .dropped)
  | .spawn i =>
      match s.schedulers i with
      | .claiming _ _ _ [] => some ((s.withTick i .idle).release i .ready)
      | _ => none
  | .markRunning t =>
      match s.tasks[t]? with
      | some d =>
          if d.phase = .ready then
            some (s.withTask t (fun d =>
              { d with
                phase := .marked
                seen := (JobQueue.get s.queue d.job.id).map
                  QueuedJob.state }))
          else none
      | none => none
  | .submit t =>
      match s.tasks[t]? with
      | some d =>
          if d.phase = .marked then
            some (s.withTask t (fun d =>
              { d with phase := .submitting, submitted := true }))
          else none
      | none => none
  | .submitReturns t promptId =>
      match s.tasks[t]? with
      | some d =>
          if d.phase = .submitting then
            some (s.withTask t (fun d =>
              { d with phase := .returned, promptId := some promptId }))
          else none
      | none => none
  | .setPromptId t =>
      match s.tasks[t]? with
      | some d =>
          if d.phase = .returned then
            some (s.withTask t (fun d => { d with phase := .done }))
          else none
      | none => none
  | .dispatchRaises t _ _ =>
      match s.tasks[t]? with
      | some d =>
          if d.phase = .ready ∨ d.phase = .submitting ∨ d.phase = .returned then
            some (s.withTask t (fun d => { d with phase := .done }))
          else none
      | none => none
  | .taskDies t => some (s.withTask t (fun d => { d with phase := .done }))
  | .startPass r =>
      match s.reconcilers r with
      | .idle => some (s.withPass r (.started s.now))
      | .working _ [] => some (s.withPass r (.started s.now))
      | _ => none
  | .listActive r =>
      match s.reconcilers r with
      | .started now =>
          some (s.withPass r (.working now (JobQueue.listActive s.queue)))
      | _ => none
  | .reconcile r _ =>
      match s.reconcilers r with
      | .working now (job :: active) =>
          let job := JobQueue.deref s.queue job
          match hasPromptId job with
          | some p => some (s.withPass r (.polling now job p active))
          | none => some (s.withPass r (.working now active))
      | _ => none
  | .answer r _ _ =>
      match s.reconcilers r with
      | .polling now _ _ active => some (s.withPass r (.working now active))
      | _ => none
  | .pollRaises r =>
      match s.reconcilers r with
      | .polling now _ _ active => some (s.withPass r (.working now active))
      | .working now (_ :: active) => some (s.withPass r (.working now active))
      | _ => none

/-- The charge a call leaves behind: the reported attempt, if the call moved
the attempt counter of its job. -/
def chargesOf (before after : σ) (id : Uuid) (attempt : Nat) :
    List (Uuid × Nat) :=
  if (JobQueue.life after id).map JobLife.currentAttempt =
      (JobQueue.life before id).map JobLife.currentAttempt then []
  else [(id, attempt)]

/-- Makes a queue call on behalf of a caller that takes the job to be in
`attempt`. -/
def Sys.call (s : Sys σ) (c : QueueCall) (attempt : Nat) : Sys σ :=
  let queue := c.apply s.now s.queue
  { s with
    queue := queue
    charges := s.charges ++ chargesOf s.queue queue c.target attempt }

/-- One step of the system. -/
def step (settings : Settings) (s : Sys σ) (a : Action) : Option (Sys σ) :=
  match localStep settings s a with
  | none => none
  | some u =>
      match callOf settings s a with
      | none => some u
      | some (c, attempt) => some (u.call c attempt)

/-- The machine of the whole system. -/
def system (σ : Type) [JobQueue σ] (settings : Settings) :
    Machine (Sys σ) Action :=
  ⟨step settings⟩

/-! ## Inversion -/

/-- The reconciler that makes the queue call of an action. -/
def Action.reconciler : Action → Option Nat
  | .reconcile r _ => some r
  | .answer r _ _ => some r
  | _ => none

/-- The job a pass is at. -/
def Pass.head? : Pass → Option QueuedJob
  | .working _ (job :: _) => some job
  | .polling _ job _ _ => some job
  | _ => none

/-- The jobs a pass has still to decide about. -/
def Pass.ids : Pass → List Uuid
  | .working _ active => active.map QueuedJob.id
  | .polling _ job _ active => job.id :: active.map QueuedJob.id
  | _ => []

/-- Where the queue call of an action comes from. -/
inductive Origin (s : Sys σ) (a : Action) : QueueCall → Nat → Prop
  | user (id : Uuid) (ha : a = .cancel id) : Origin s a (.cancel id) 0
  | running (k : Nat) (d : Dispatch) (ha : a = .markRunning k)
      (hd : s.tasks[k]? = some d) (hphase : d.phase = .ready) :
      Origin s a (.markRunning d.job.id) d.attempt
  | prompt (k : Nat) (d : Dispatch) (ha : a = .setPromptId k)
      (hd : s.tasks[k]? = some d) (hphase : d.phase = .returned)
      (p : String) (hp : d.promptId = some p) :
      Origin s a (.setPromptId d.job.id p) d.attempt
  | raised (k : Nat) (d : Dispatch) (exc : PyError) (draw : Rat)
      (ha : a = .dispatchRaises k exc draw) (hd : s.tasks[k]? = some d)
      (hphase : d.phase = .ready ∨ d.phase = .submitting ∨
        d.phase = .returned) :
      Origin s a (.markRetryWait d.job.id "worker_unreachable"
        (some ("dispatch_error:" ++ exc)) none draw) d.attempt
  | verdict (r : Nat) (j : QueuedJob) (c : QueueCall)
      (ha : a.reconciler = some r)
      (hhead : (s.reconcilers r).head? = some j)
      (h : Verdict (JobQueue.deref s.queue j) c) :
      Origin s a c (JobQueue.deref s.queue j).attempt

/-- What one step does to the queue, to the list of claimed jobs and to the
charges. -/
inductive Move (settings : Settings) (s : Sys σ) (a : Action) : Sys σ → Prop
  | quiet (u : Sys σ) (hcall : callOf settings s a = none)
      (hqueue : u.queue = s.queue) (hjobs : u.jobs = s.jobs)
      (hcharges : u.charges = s.charges) : Move settings s a u
  | enqueue (job : QueuedJob) (ha : a = .enqueue job)
      (hadmitted : admitted job = true)
      (hnew : JobQueue.get s.queue job.id = none) :
      Move settings s a
        { s with queue := JobQueue.enqueue job s.now s.queue }
  | claim (u : Sys σ) (i : Nat) (req : ClaimRequest) (locked : List Uuid)
      (ha : a = .claimLane i locked)
      (hreq : laneRequest settings s i = some req)
      (hqueue : u.queue =
        (JobQueue.claimNextWithLease req locked s.now s.queue).1)
      (hjobs : u.jobs = s.jobs ++
        (JobQueue.claimNextWithLease req locked s.now s.queue).2)
      (hcharges : u.charges = s.charges) : Move settings s a u
  | call (u : Sys σ) (c : QueueCall) (attempt : Nat)
      (hcall : callOf settings s a = some (c, attempt))
      (horigin : Origin s a c attempt)
      (hnow : u.now = s.now) (hqueue : u.queue = s.queue)
      (hjobs : u.jobs = s.jobs) (hcharges : u.charges = s.charges) :
      Move settings s a (u.call c attempt)

/-- What one step can do to one dispatch. -/
inductive Advance (s : Sys σ) : Dispatch → Dispatch → Prop
  | same (d : Dispatch) : Advance s d d
  | spawn (d : Dispatch) (i : Nat) (hphase : d.phase = .held i) :
      Advance s d { d with phase := .ready }
  | drop (d : Dispatch) (i : Nat) (hphase : d.phase = .held i) :
      Advance s d { d with phase := .dropped }
  | mark (d : Dispatch) (hphase : d.phase = .ready) :
      Advance s d { d with
        phase := .marked
        seen := (JobQueue.get s.queue d.job.id).map QueuedJob.state }
  | submit (d : Dispatch) (hphase : d.phase = .marked) :
      Advance s d { d with phase := .submitting, submitted := true }
  | submitted (d : Dispatch) (p : String) (hphase : d.phase = .submitting) :
      Advance s d { d with phase := .returned, promptId := some p }
  | finish (d : Dispatch) : Advance s d { d with phase := .done }

theorem Advance.job {s : Sys σ} {d e : Dispatch} (h : Advance s d e) :
    e.job = d.job := by
  cases h <;> rfl

/-- What the local part of an action can do. -/
inductive LocalMove (settings : Settings) (s : Sys σ) (a : Action) :
    Sys σ → Prop
  | time (dt : Nat) (ha : a = .advance dt) :
      LocalMove settings s a { s with now := s.now + dt }
  | enqueue (job : QueuedJob) (ha : a = .enqueue job)
      (hadmitted : admitted job = true)
      (hnew : JobQueue.get s.queue job.id = none) :
      LocalMove settings s a
        { s with queue := JobQueue.enqueue job s.now s.queue }
  | cancel (id : Uuid) (ha : a = .cancel id) : LocalMove settings s a s
  | tick (i : Nat) (tick : Tick) (hrec : a.reconciler = none) :
      LocalMove settings s a (s.withTick i tick)
  | claim (i : Nat) (tick : Tick) (req : ClaimRequest) (locked : List Uuid)
      (ha : a = .claimLane i locked)
      (hreq : laneRequest settings s i = some req) :
      LocalMove settings s a
        { s.withTick i tick with
          queue := (JobQueue.claimNextWithLease req locked s.now s.queue).1
          tasks := s.tasks ++
            (JobQueue.claimNextWithLease req locked s.now s.queue).2.map
              (fun j => { job := j, phase := .held i }) }
  | release (i : Nat) (phase : DispatchPhase) (hrec : a.reconciler = none)
      (hphase : phase = .ready ∨ phase = .dropped) :
      LocalMove settings s a ((s.withTick i .idle).release i phase)
  | task (k : Nat) (f : Dispatch → Dispatch) (hrec : a.reconciler = none)
      (hf : ∀ d, s.tasks[k]? = some d → Advance s d (f d)) :
      LocalMove settings s a (s.withTask k f)
  | start (r : Nat) (ha : a = .startPass r) :
      LocalMove settings s a (s.withPass r (.started s.now))
  | list (r : Nat) (now : DateTime) (ha : a = .listActive r)
      (hpass : s.reconcilers r = .started now) :
      LocalMove settings s a
        (s.withPass r (.working now (JobQueue.listActive s.queue)))
  | poll (r : Nat) (draw : Rat) (now : DateTime) (job : QueuedJob)
      (active : List QueuedJob) (p : String) (ha : a = .reconcile r draw)
      (hpass : s.reconcilers r = .working now (job :: active))
      (hp : hasPromptId (JobQueue.deref s.queue job) = some p) :
      LocalMove settings s a
        (s.withPass r (.polling now (JobQueue.deref s.queue job) p active))
  | next (r : Nat) (now : DateTime) (job : QueuedJob)
      (active : List QueuedJob)
      (hrec : a.reconciler = some r ∨ a.reconciler = none)
      (hhead : (s.reconcilers r).head? = some job)
      (hids : (s.reconcilers r).ids = job.id :: active.map QueuedJob.id) :
      LocalMove settings s a (s.withPass r (.working now active))

/-- An action that waits for a dispatch to be in a phase moves it on. -/
theorem task_move {settings : Settings} {s u : Sys σ} {a : Action} {k : Nat}
    {inPhase : Dispatch → Prop} [DecidablePred inPhase]
    {f : Dispatch → Dispatch} (hrec : a.reconciler = none)
    (hf : ∀ d, inPhase d → Advance s d (f d))
    (h : (match s.tasks[k]? with
      | some d => if inPhase d then some (s.withTask k f) else none
      | none => none) = some u) : LocalMove settings s a u := by
  cases hd : s.tasks[k]? with
  | none =>
      rw [hd] at h
      cases h
  | some d =>
      simp only [hd] at h
      split at h
      · rename_i hphase
        cases h
        refine .task k f hrec (fun e he => ?_)
        obtain rfl : d = e := Option.some.inj (hd.symm.trans he)
        exact hf d hphase
      · cases h

theorem localMove_of_localStep {settings : Settings} {s u : Sys σ}
    {a : Action} (h : localStep settings s a = some u) :
    LocalMove settings s a u := by
  cases a with
  | advance dt =>
      cases h
      exact .time dt rfl
  | cancel id =>
      cases h
      exact .cancel id rfl
  | enqueue job =>
      simp only [localStep] at h
      split at h
      · rename_i hnew
        cases h
        exact .enqueue job rfl hnew.1 (Option.isNone_iff_eq_none.mp hnew.2)
      · cases h
  | countComfy i | countGemini i workers =>
      simp only [localStep] at h
      split at h
      · cases h
        exact .tick i _ rfl
      · cases h
  | claimLane i locked =>
      simp only [localStep] at h
      split at h
      · split at h
        · cases h
          exact .tick i _ rfl
        · rename_i req hreq
          cases h
          exact .claim i _ req locked rfl hreq
      · cases h
  | tickFails i =>
      cases h
      exact .release i .dropped rfl (Or.inr rfl)
  | spawn i =>
      simp only [localStep] at h
      split at h
      · cases h
        exact .release i .ready rfl (Or.inl rfl)
      · cases h
  | markRunning k => exact task_move rfl (fun d hd => .mark d hd) h
  | submit k => exact task_move rfl (fun d hd => .submit d hd) h
  | submitReturns k p => exact task_move rfl (fun d hd => .submitted d p hd) h
  | setPromptId k => exact task_move rfl (fun d _ => .finish d) h
  | dispatchRaises k exc draw => exact task_move rfl (fun d _ => .finish d) h
  | taskDies k =>
      cases h
      exact .task k _ rfl (fun d _ => .finish d)
  | startPass r =>
      simp only [localStep] at h
      split at h
      · cases h
        exact .start r rfl
      · cases h
        exact .start r rfl
      · cases h
  | listActive r =>
      simp only [localStep] at h
      split at h
      · rename_i now hpass
        cases h
        exact .list r now rfl hpass
      · cases h
  | reconcile r draw =>
      simp only [localStep] at h
      split at h
      · rename_i now job active hpass
        split at h
        · rename_i p hp
          cases h
          exact .poll r draw now job active p rfl hpass hp
        · cases h
          exact .next r now job active (Or.inl rfl) (by rw [hpass]; rfl)
            (by rw [hpass]; rfl)
      · cases h
  | answer r status draw =>
      simp only [localStep] at h
      split at h
      · rename_i now job p active hpass
        cases h
        exact .next r now job active (Or.inl rfl) (by rw [hpass]; rfl)
          (by rw [hpass]; rfl)
      · cases h
  | pollRaises r =>
      simp only [localStep] at h
      split at h
      · rename_i now job p active hpass
        cases h
        exact .next r now job active (Or.inr rfl) (by rw [hpass]; rfl)
          (by rw [hpass]; rfl)
      · rename_i now job active hpass
        cases h
        exact .next r now job active (Or.inr rfl) (by rw [hpass]; rfl)
          (by rw [hpass]; rfl)
      · cases h

/-- A step is a local part, and a queue call where there is one. -/
theorem exists_localStep {settings : Settings} {s t : Sys σ} {a : Action}
    (h : step settings s a = some t) :
    ∃ u, localStep settings s a = some u ∧
      ((callOf settings s a = none ∧ t = u) ∨
        ∃ c attempt, callOf settings s a = some (c, attempt) ∧
          t = u.call c attempt) := by
  unfold step at h
  cases hlocal : localStep settings s a with
  | none => simp [hlocal] at h
  | some u =>
      simp only [hlocal] at h
      refine ⟨u, rfl, ?_⟩
      cases hcall : callOf settings s a with
      | none =>
          simp only [hcall] at h
          exact Or.inl ⟨rfl, (Option.some.inj h).symm⟩
      | some call =>
          simp only [hcall] at h
          exact Or.inr ⟨call.1, call.2, rfl, (Option.some.inj h).symm⟩

theorem eq_of_callOf_none {settings : Settings} {s t u : Sys σ} {a : Action}
    (h : (callOf settings s a = none ∧ t = u) ∨
      ∃ c attempt, callOf settings s a = some (c, attempt) ∧
        t = u.call c attempt)
    (hnone : callOf settings s a = none) : t = u := by
  rcases h with ⟨-, ht⟩ | ⟨c, attempt, hcall, -⟩
  · exact ht
  · rw [hnone] at hcall
    cases hcall

theorem origin_of_callOf {settings : Settings} {s u : Sys σ} {a : Action}
    {c : QueueCall} {attempt : Nat}
    (hcall : callOf settings s a = some (c, attempt))
    (hlocal : localStep settings s a = some u) : Origin s a c attempt := by
  cases a with
  | cancel id =>
      cases hcall
      exact .user id rfl
  | markRunning t =>
      simp only [callOf, localStep] at hcall hlocal
      cases hd : s.tasks[t]? with
      | none => simp [hd] at hcall
      | some d =>
          simp only [hd, Option.map_some] at hcall hlocal
          split at hlocal
          · rename_i hphase
            cases hcall
            exact .running t d rfl hd hphase
          · cases hlocal
  | setPromptId t =>
      simp only [callOf, localStep] at hcall hlocal
      cases hd : s.tasks[t]? with
      | none => simp [hd] at hcall
      | some d =>
          simp only [hd, Option.bind_some] at hcall hlocal
          split at hlocal
          · rename_i hphase
            cases hp : d.promptId with
            | none => simp [hp] at hcall
            | some p =>
                simp only [hp, Option.map_some] at hcall
                cases hcall
                exact .prompt t d rfl hd hphase p hp
          · cases hlocal
  | dispatchRaises t exc draw =>
      simp only [callOf, localStep] at hcall hlocal
      cases hd : s.tasks[t]? with
      | none => simp [hd] at hcall
      | some d =>
          simp only [hd, Option.map_some] at hcall hlocal
          split at hlocal
          · rename_i hphase
            cases hcall
            exact .raised t d exc draw rfl hd hphase
          · cases hlocal
  | reconcile r draw =>
      simp only [callOf] at hcall
      split at hcall
      · rename_i hpass
        split at hcall
        · rename_i hdecision
          cases hcall
          exact .verdict r _ _ rfl (by rw [hpass]; rfl)
            (verdict_of_reconcileJob hdecision)
        · cases hcall
      · cases hcall
  | answer r status draw =>
      simp only [callOf] at hcall
      split at hcall
      · rename_i hpass
        split at hcall
        · rename_i hdecision
          cases hcall
          exact .verdict r _ _ rfl (by rw [hpass]; rfl)
            (verdict_of_resolveViaComfy hdecision)
        · cases hcall
      · cases hcall
  | _ => cases hcall

/-- An action leaves queue, claims and charges alone, or it enqueues or claims
a job, or it makes a queue call. -/
theorem step_move {settings : Settings} {s t : Sys σ} {a : Action}
    (h : step settings s a = some t) : Move settings s a t := by
  obtain ⟨u, hlocal, hcalls⟩ := exists_localStep h
  have hkeeps : s.Keeps u → Move settings s a t := by
    intro hkeep
    rcases hcalls with ⟨hcall, rfl⟩ | ⟨c, attempt, hcall, rfl⟩
    · exact .quiet _ hcall hkeep.queue hkeep.jobs hkeep.charges
    · exact .call u c attempt hcall (origin_of_callOf hcall hlocal)
        hkeep.now hkeep.queue hkeep.jobs hkeep.charges
  have hquiet := eq_of_callOf_none hcalls
  cases localMove_of_localStep hlocal with
  | time dt ha =>
      subst ha
      obtain rfl := hquiet rfl
      exact .quiet _ rfl rfl rfl rfl
  | enqueue job ha hadmitted hnew =>
      subst ha
      obtain rfl := hquiet rfl
      exact .enqueue job rfl hadmitted hnew
  | claim i tick req locked ha hreq =>
      subst ha
      obtain rfl := hquiet rfl
      refine .claim _ i req locked rfl hreq rfl ?_ rfl
      simp [Sys.jobs, Function.comp_def]
  | cancel => exact hkeeps s.keeps_refl
  | tick i tick => exact hkeeps (s.keeps_withTick i tick)
  | release i phase =>
      exact hkeeps
        ((s.keeps_withTick i .idle).trans (Sys.keeps_release _ i phase))
  | task k f _ hf =>
      exact hkeeps (s.keeps_withTask k (fun d hd => (hf d hd).job))
  | start r | list r | poll r | next r => exact hkeeps (s.keeps_withPass r _)

/-! ## Dispatches -/

/-- The dispatches of `u` are those of `s`, each moved on by one step. -/
structure Advances (s u : Sys σ) : Prop where
  forward : ∀ d ∈ s.tasks, ∃ e ∈ u.tasks, Advance s d e
  backward : ∀ e ∈ u.tasks, ∃ d ∈ s.tasks, Advance s d e

theorem advances_of_tasks_eq {s u : Sys σ} (h : u.tasks = s.tasks) :
    Advances s u where
  forward d hd := ⟨d, h ▸ hd, .same d⟩
  backward e he := ⟨e, h ▸ he, .same e⟩

theorem advances_release (s u : Sys σ) (i : Nat) (phase : DispatchPhase)
    (h : u.tasks = s.tasks)
    (hphase : ∀ d, d.phase = .held i → Advance s d { d with phase := phase }) :
    Advances s (u.release i phase) := by
  have hmove : ∀ d : Dispatch, Advance s d
      (if d.phase = .held i then { d with phase := phase } else d) := by
    intro d
    split
    · rename_i hd
      exact hphase d hd
    · exact .same d
  constructor
  · intro d hd
    exact ⟨_, List.mem_map_of_mem (h ▸ hd), hmove d⟩
  · intro e he
    obtain ⟨d, hd, rfl⟩ := List.mem_map.mp he
    exact ⟨d, h ▸ hd, hmove d⟩

theorem advances_withTask (s : Sys σ) (t : Nat) (f : Dispatch → Dispatch)
    (hf : ∀ d, s.tasks[t]? = some d → Advance s d (f d)) :
    Advances s (s.withTask t f) := by
  have hmove : ∀ (k : Nat) (d : Dispatch), s.tasks[k]? = some d →
      ∃ e, (s.withTask t f).tasks[k]? = some e ∧ Advance s d e := by
    intro k d hd
    unfold Sys.withTask
    rw [List.getElem?_modify, hd]
    by_cases hk : t = k
    · subst hk
      exact ⟨f d, by simp, hf d hd⟩
    · exact ⟨d, by simp [hk], .same d⟩
  constructor
  · intro d hd
    obtain ⟨k, hk⟩ := List.mem_iff_getElem?.mp hd
    obtain ⟨e, he, hmoved⟩ := hmove k d hk
    exact ⟨e, List.mem_of_getElem? he, hmoved⟩
  · intro e he
    obtain ⟨k, hk⟩ := List.mem_iff_getElem?.mp he
    have hlen : k < s.tasks.length := by
      have hk' := (List.getElem?_eq_some_iff.mp hk).1
      simpa [Sys.withTask] using hk'
    obtain ⟨e', he', hmoved⟩ := hmove k _ (List.getElem?_eq_getElem hlen)
    obtain rfl : e = e' := Option.some.inj (hk.symm.trans he')
    exact ⟨_, List.getElem_mem hlen, hmoved⟩

/-- A step moves every dispatch on, and a claim adds held ones. -/
theorem step_tasks {settings : Settings} {s t : Sys σ} {a : Action}
    (h : step settings s a = some t) :
    Advances s t ∨
    ∃ i locked req, a = .claimLane i locked ∧
      t.queue = (JobQueue.claimNextWithLease req locked s.now s.queue).1 ∧
      t.tasks = s.tasks ++
        (JobQueue.claimNextWithLease req locked s.now s.queue).2.map
          (fun j => { job := j, phase := .held i }) := by
  obtain ⟨u, hlocal, hcalls⟩ := exists_localStep h
  have hadvances : Advances s u → Advances s t := by
    intro hadv
    rcases hcalls with ⟨-, rfl⟩ | ⟨c, attempt, -, rfl⟩
    · exact hadv
    · exact ⟨hadv.forward, hadv.backward⟩
  have hquiet := eq_of_callOf_none hcalls
  cases localMove_of_localStep hlocal with
  | claim i tick req locked ha hreq =>
      subst ha
      obtain rfl := hquiet rfl
      exact Or.inr ⟨i, locked, req, rfl, rfl, rfl⟩
  | release i phase _ hphase =>
      refine Or.inl (hadvances (advances_release s _ i phase rfl ?_))
      intro d hd
      rcases hphase with rfl | rfl
      · exact .spawn d i hd
      · exact .drop d i hd
  | task k f _ hf => exact Or.inl (hadvances (advances_withTask s k f hf))
  | time | enqueue | cancel | tick | start | list | poll | next =>
      exact Or.inl (hadvances (advances_of_tasks_eq rfl))

/-! ## Passes -/

/-- What one step does to the pass of reconciler `r`. -/
inductive PassMove (s : Sys σ) (a : Action) (r : Nat)
    (t : Sys σ) : Prop
  | same (hother : a.reconciler ≠ some r)
      (h : t.reconcilers r = s.reconcilers r)
  | started (now : DateTime) (hother : a.reconciler ≠ some r)
      (h : t.reconcilers r = .started now)
  | listed (now : DateTime) (hqueue : t.queue = s.queue)
      (h : t.reconcilers r = .working now (JobQueue.listActive s.queue))
  | poll (now : DateTime) (job : QueuedJob) (active : List QueuedJob)
      (p : String) (hpass : s.reconcilers r = .working now (job :: active))
      (hp : hasPromptId (JobQueue.deref s.queue job) = some p)
      (hqueue : t.queue = s.queue)
      (h : t.reconcilers r =
        .polling now (JobQueue.deref s.queue job) p active)
  | next (now : DateTime) (job : QueuedJob) (active : List QueuedJob)
      (hhead : (s.reconcilers r).head? = some job)
      (hids : (s.reconcilers r).ids = job.id :: active.map QueuedJob.id)
      (h : t.reconcilers r = .working now active)

omit [JobQueue σ] in
theorem withPass_self (s : Sys σ) (r : Nat) (pass : Pass) :
    (s.withPass r pass).reconcilers r = pass := if_pos rfl

/-- A step moves a pass in one of these ways. -/
theorem pass_move {settings : Settings} {s t : Sys σ}
    {a : Action} (h : step settings s a = some t) (r : Nat) :
    PassMove s a r t := by
  obtain ⟨u, hlocal, hcalls⟩ := exists_localStep h
  have hquiet := eq_of_callOf_none hcalls
  have hpass : t.reconcilers = u.reconcilers := by
    rcases hcalls with ⟨-, rfl⟩ | ⟨c, attempt, -, rfl⟩
    · rfl
    · rfl
  have hkeep : u.reconcilers = s.reconcilers → a.reconciler ≠ some r →
      PassMove s a r t := by
    intro heq hother
    exact .same hother (by rw [hpass, heq])
  have hmiss : ∀ {k : Nat} {pass : Pass}, u = s.withPass k pass → k ≠ r →
      a.reconciler = some k ∨ a.reconciler = none → PassMove s a r t := by
    intro k pass hu hk hrec
    refine .same ?_ ?_
    · rcases hrec with hrec | hrec
      · rw [hrec]
        exact fun heq => hk (Option.some.inj heq)
      · simp [hrec]
    · rw [hpass, hu]
      exact if_neg (Ne.symm hk)
  cases localMove_of_localStep hlocal with
  | time dt ha | enqueue job ha | cancel id ha =>
      exact hkeep rfl (by simp [ha, Action.reconciler])
  | claim i tick req locked ha =>
      exact hkeep rfl (by simp [ha, Action.reconciler])
  | tick i tick hrec | release i phase hrec | task k f hrec =>
      exact hkeep rfl (by simp [hrec])
  | start k ha =>
      by_cases hk : k = r
      · subst hk
        exact .started s.now (by simp [ha, Action.reconciler])
          (by rw [hpass, withPass_self])
      · exact hmiss rfl hk (Or.inr (by rw [ha]; rfl))
  | list k now ha =>
      by_cases hk : k = r
      · subst hk
        have ht := hquiet (by rw [ha]; rfl)
        exact .listed now (by rw [ht]; rfl) (by rw [hpass, withPass_self])
      · exact hmiss rfl hk (Or.inr (by rw [ha]; rfl))
  | poll k draw now job active p ha hworking hp =>
      by_cases hk : k = r
      · subst hk
        have ht := hquiet (by simp only [ha, callOf, hworking, hp])
        exact .poll now job active p hworking hp (by rw [ht]; rfl)
          (by rw [hpass, withPass_self])
      · exact hmiss rfl hk (Or.inl (by rw [ha]; rfl))
  | next k now job active hrec hhead hids =>
      by_cases hk : k = r
      · subst hk
        exact .next now job active hhead hids (by rw [hpass, withPass_self])
      · exact hmiss rfl hk hrec

end System

/-! ## Schedules -/

/-- One undisturbed `_tick` of scheduler `i`. -/
def tick (i : Nat) : List Action :=
  [.countComfy i, .countGemini i none, .claimLane i [], .claimLane i [],
    .spawn i]

/-- A user enqueues one job, and scheduler 0 claims it. -/
def claimedRun : List Action :=
  .enqueue (newJob 7 1 "image_basic" "k" (.obj []) none 0) :: tick 0

end Imagin4.Ports
