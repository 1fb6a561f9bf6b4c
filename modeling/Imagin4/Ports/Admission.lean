import Imagin4.Verified.Clients
import Imagin4.Ports.ComfyOverrides
import Imagin4.Ports.JobSystem
import Imagin4.Ports.MemoryQueue
import Imagin4.Ports.QueueTransactions

/-!
# Admission

`app/domain/jobs/admission.py` and `app/domain/jobs/idempotency.py`: the one
validated way into the queue.  `admitGenerationJob` is a program over the calls
it makes to the queue, each of which is atomic; both adapters have all of them,
so no `hasattr` guard ever skips one.

The id and the clock reading of a new job are part of the request.

## Main results

* `stage_admitGenerationJob` and the lemmas after it — an admission begins at a
  stage, and each answer it gets takes it to another.
* `AdmissionStage.mono` — a stage lasts while others change the queue.
-/

namespace Imagin4.Ports

open Imagin4.Verified

/-! ## Requests and results -/

/-- The arguments of `admit_generation_job`, with the `uuid4()` and the `now()`
it reads for a new job. -/
structure AdmissionRequest where
  id : Uuid
  userId : Uuid
  workflowName : String
  workflowVersion : String
  inputs : Dict
  idempotencyKey : String
  conversationId : Option Uuid := none
  now : DateTime

/-- `AdmissionResult`. -/
structure AdmissionResult where
  id : Uuid
  state : JobState
  kind : String
  replayed : Bool
  queuePosition : Option Nat := none
  estimatedWaitSeconds : Option Rat := none
  isPreview : Bool := false
deriving DecidableEq

/-- The calls an admission makes to the queue. -/
inductive AdmissionCall where
  | findByIdempotencyKey (userId : Uuid) (idempotencyKey kind : String)
  | countGlobalBacklog
  | countConversationBacklog (conversationId : Uuid)
  | countUserBacklog (userId : Uuid)
  | countBacklogForKinds (kinds : List String)
  | enqueue (job : QueuedJob)

/-- What they return; an insertion may raise. -/
@[reducible] def AdmissionCall.Answer : AdmissionCall → Type
  | findByIdempotencyKey _ _ _ => Option QueuedJob
  | enqueue _ => Except PyError Unit
  | _ => Nat

/-- How an admission ends. -/
abbrev AdmissionOutcome := Except AdmissionError AdmissionResult

/-- A program of queue calls that ends as an admission does. -/
abbrev AdmissionProgram :=
  Program AdmissionCall AdmissionCall.Answer AdmissionOutcome

/-! ## Validation -/

/-- What a request comes to once it is validated. -/
structure Validated where
  workflow : WorkflowDefinition
  inputs : Dict
  isPreview : Bool

section Validation

variable (host : AdmissionHost) (settings : Settings)

/-- The inputs of a ComfyUI workflow, with the profile and the overrides that
were resolved; a preview has its steps lowered. -/
def normaliseInputs (inputs : Dict) (isPreview : Bool) :
    Except AdmissionError Dict := do
  let resolvedKey ← resolveProfileKey host (inputs.get "model_profile")
    (profileKeys settings)
  let validatedOverrides ← validateOverrides host (buildAllowlists settings)
    ⟨inputs.get "model_overrides", inputs.isDict_get "model_overrides"⟩
  if isPreview && !settings.previewEnabled then
    .error (.previewNotSupported
      "preview generation is disabled on this deployment")
  else
    let finalOverrides :=
      if isPreview then
        validatedOverrides.set "steps" (.int settings.previewSteps)
          (.int settings.previewSteps)
      else validatedOverrides
    let inputs := inputs.set "model_profile" (.str resolvedKey) (.str resolvedKey)
    let inputs := inputs.set "model_overrides" finalOverrides.json
      finalOverrides.isDict
    let inputs := inputs.set "is_preview" (.bool isPreview) (.bool isPreview)
    .ok (if isPreview then
        inputs.set "preview_original_overrides" validatedOverrides.json
          validatedOverrides.isDict
      else inputs)

/-- `admit_generation_job` up to the lookup. -/
def validateRequest (r : AdmissionRequest) : Except AdmissionError Validated :=
  match resolveWorkflow r.workflowName r.workflowVersion with
  | none => .error (.unknownWorkflow
      ("unknown workflow " ++ r.workflowName ++ "@" ++ r.workflowVersion))
  | some workflow =>
      let isPreview := (r.inputs.get "preview").truthy
      match workflow.backend with
      | .comfyui =>
          match normaliseInputs host settings r.inputs isPreview with
          | .ok inputs => .ok ⟨workflow, inputs, isPreview⟩
          | .error e => .error e
      | .gemini =>
          if isPreview then
            .error (.previewNotSupported
              ("preview generation is only supported for ComfyUI-backed " ++
                "workflows, not " ++ host.repr (.str "gemini")))
          else .ok ⟨workflow, r.inputs, isPreview⟩

variable {host settings}

/-- A valid request names a workflow. -/
theorem workflow_of_validateRequest {r : AdmissionRequest} {v : Validated}
    (hv : validateRequest host settings r = .ok v) :
    resolveWorkflow r.workflowName r.workflowVersion = some v.workflow := by
  unfold validateRequest at hv
  split at hv
  · cases hv
  · rename_i workflow hworkflow
    rw [hworkflow]
    dsimp only at hv
    split at hv <;> split at hv <;> cases hv <;> rfl

end Validation

/-! ## Idempotency -/

/-- `IdempotencyOutcome`. -/
inductive IdempotencyOutcome where
  | new
  | replay
  | conflict
deriving DecidableEq

section Idempotency

variable (host : AdmissionHost)

/-- `canonical_payload_hash`. -/
def canonicalPayloadHash (payload : Json) : String :=
  host.sha256 (payload.dumps host.floats)

/-- `check_idempotency`, on the payload of the existing job. -/
def checkIdempotency (existing : Option Json) (newPayload : Json) :
    IdempotencyOutcome :=
  match existing.map (canonicalPayloadHash host) with
  | none => .new
  | some existingHash =>
      if canonicalPayloadHash host newPayload = existingHash then .replay
      else .conflict

end Idempotency

/-! ## The admission -/

section Program

variable (host : AdmissionHost) (settings : Settings)

/-- `_capacity_for_backend`. -/
def capacityForBackend : Backend → Int
  | .comfyui => settings.defaultComfyActiveSlots
  | .gemini => settings.defaultGeminiActiveSlots

/-- `estimate_wait_seconds`. -/
def estimateWaitSeconds (position : Nat) (backend : Backend) : Option Rat :=
  let capacity := capacityForBackend settings backend
  if capacity ≤ 0 then none
  else some ((position / capacity.toNat : Nat) * settings.estimatedJobDurationS)

/-- The job an admission inserts. -/
def AdmissionRequest.job (r : AdmissionRequest) (v : Validated) : QueuedJob :=
  newJob r.id r.userId r.workflowName r.idempotencyKey v.inputs.json
    r.conversationId r.now

/-- The result for a job that was there before. -/
def replayResult (existing : QueuedJob) : AdmissionOutcome :=
  match (existing.inputPayload.orElse (.obj [])).getD "is_preview"
      (.bool false) with
  | .ok isPreview => .ok {
      id := existing.id
      state := existing.state
      kind := existing.kind
      replayed := true
      isPreview := isPreview.truthy }
  | .error e => .error (.other e)

/-- The result for a new job. -/
def newResult (r : AdmissionRequest) (v : Validated) (position : Nat) :
    AdmissionResult where
  id := r.id
  state := .queued
  kind := r.workflowName
  replayed := false
  queuePosition := some position
  estimatedWaitSeconds := estimateWaitSeconds settings position v.workflow.backend
  isPreview := v.isPreview

/-- What the insertion comes to. -/
def insertOutcome (r : AdmissionRequest) (v : Validated) (position : Nat) :
    Except PyError Unit → AdmissionProgram
  | .ok _ => .done (.ok (newResult settings r v position))
  | .error e => .done (.error (.other e))

/-- The insertion. -/
def insertJob (r : AdmissionRequest) (v : Validated) (position : Nat) :
    AdmissionProgram :=
  .call (.enqueue (r.job v)) (insertOutcome settings r v position)

/-- The queue position, and the insertion. -/
def createJob (r : AdmissionRequest) (v : Validated) : AdmissionProgram :=
  .call (.countBacklogForKinds (kindsForBackend v.workflow.backend))
    (insertJob settings r v)

/-- What follows the count of the conversation's or the user's backlog. -/
def afterOwnCount (whoHas : String) (r : AdmissionRequest) (v : Validated)
    (backlog : Nat) : AdmissionProgram :=
  if settings.maxQueuedJobsPerUser ≤ backlog then
    .done (.error (.capacityExceeded
      (whoHas ++ toString backlog ++ " job(s) waiting (limit " ++
        toString settings.maxQueuedJobsPerUser ++
        ") -- wait for one to finish before submitting more") 15))
  else createJob settings r v

/-- The cap of the conversation or, without one, of the user. -/
def checkOwnBacklog (r : AdmissionRequest) (v : Validated) : AdmissionProgram :=
  if 0 < settings.maxQueuedJobsPerUser then
    match r.conversationId with
    | some conversationId =>
        .call (.countConversationBacklog conversationId)
          (afterOwnCount settings "this conversation already has " r v)
    | none =>
        .call (.countUserBacklog r.userId)
          (afterOwnCount settings "you already have " r v)
  else createJob settings r v

/-- What follows the count of the whole backlog. -/
def afterGlobalCount (r : AdmissionRequest) (v : Validated) (backlog : Nat) :
    AdmissionProgram :=
  if settings.globalQueueCap ≤ backlog then
    .done (.error (.capacityExceeded
      "the generation queue is full system-wide, please retry shortly" 30))
  else checkOwnBacklog settings r v

/-- The cap of the whole system. -/
def checkGlobalBacklog (r : AdmissionRequest) (v : Validated) :
    AdmissionProgram :=
  if 0 < settings.globalQueueCap then
    .call .countGlobalBacklog (afterGlobalCount settings r v)
  else checkOwnBacklog settings r v

/-- A replay, a conflict, or a new job. -/
def afterLookup (r : AdmissionRequest) (v : Validated)
    (existing : Option QueuedJob) : AdmissionProgram :=
  match checkIdempotency host (existing.map QueuedJob.inputPayload)
      v.inputs.json, existing with
  | .conflict, _ => .done (.error (.idempotencyConflict
      "Idempotency-Key already used with a different payload"))
  | .replay, some job => .done (replayResult job)
  | _, _ => checkGlobalBacklog settings r v

/-- The lookup of the key, and what follows from it. -/
def admitValidated (r : AdmissionRequest) (v : Validated) : AdmissionProgram :=
  .call (.findByIdempotencyKey r.userId r.idempotencyKey r.workflowName)
    (afterLookup host settings r v)

/-- `admit_generation_job`. -/
def admitGenerationJob (r : AdmissionRequest) : AdmissionProgram :=
  match validateRequest host settings r with
  | .ok v => admitValidated host settings r v
  | .error e => .done (.error e)

end Program

/-! ## Stages -/

/-- Is a backlog below its cap?  A cap that is not positive is none. -/
def Below (cap : Int) (backlog : Nat) : Prop := 0 < cap → (backlog : Int) < cap

/-- Where an admission can be.  `D` is what is known of how it ends, `G` and `O`
of the backlogs it has counted: the whole one, and that of its conversation or
user. -/
inductive AdmissionStage (host : AdmissionHost) (settings : Settings)
    (r : AdmissionRequest) (D : AdmissionOutcome → Prop) (G O : Prop) :
    AdmissionProgram → Prop where
  | done (o : AdmissionOutcome) : D o → AdmissionStage host settings r D G O (.done o)
  | lookup (v : Validated) : validateRequest host settings r = .ok v →
      AdmissionStage host settings r D G O
        (.call (.findByIdempotencyKey r.userId r.idempotencyKey r.workflowName)
          (afterLookup host settings r v))
  | countGlobal (v : Validated) : validateRequest host settings r = .ok v →
      AdmissionStage host settings r D G O
        (.call .countGlobalBacklog (afterGlobalCount settings r v))
  | countConversation (v : Validated) (c : Uuid) (whoHas : String) :
      validateRequest host settings r = .ok v → r.conversationId = some c → G →
      AdmissionStage host settings r D G O
        (.call (.countConversationBacklog c) (afterOwnCount settings whoHas r v))
  | countUser (v : Validated) (whoHas : String) :
      validateRequest host settings r = .ok v → r.conversationId = none → G →
      AdmissionStage host settings r D G O
        (.call (.countUserBacklog r.userId) (afterOwnCount settings whoHas r v))
  | position (v : Validated) :
      validateRequest host settings r = .ok v → G → O →
      AdmissionStage host settings r D G O
        (.call (.countBacklogForKinds (kindsForBackend v.workflow.backend))
          (insertJob settings r v))
  | insert (v : Validated) (position : Nat) :
      validateRequest host settings r = .ok v → G → O →
      AdmissionStage host settings r D G O
        (.call (.enqueue (r.job v)) (insertOutcome settings r v position))

/-- Has the admission that makes this call counted the whole backlog? -/
def AdmissionCall.pastGlobalCount : AdmissionCall → Bool
  | countConversationBacklog _ => true
  | countUserBacklog _ => true
  | countBacklogForKinds _ => true
  | enqueue _ => true
  | _ => false

/-- Has the admission that makes this call counted its own backlog? -/
def AdmissionCall.pastOwnCount : AdmissionCall → Bool
  | countBacklogForKinds _ => true
  | enqueue _ => true
  | _ => false

/-- A dict can be asked whether it is a preview. -/
theorem replayResult_eq {job : QueuedJob}
    (h : ∃ d : Dict, job.inputPayload = d.json) :
    ∃ isPreview, replayResult job = .ok {
      id := job.id
      state := job.state
      kind := job.kind
      replayed := true
      isPreview := isPreview } := by
  obtain ⟨⟨members, hmembers⟩, hd⟩ := h
  have hor : ∃ ms, job.inputPayload.orElse (.obj []) = .obj ms := by
    rw [hd, Json.orElse]
    split
    · exact ⟨members, rfl⟩
    · exact ⟨[], rfl⟩
  obtain ⟨ms, hms⟩ := hor
  unfold replayResult
  rw [hms]
  exact ⟨_, rfl⟩

section Stages

variable {host : AdmissionHost} {settings : Settings} {r : AdmissionRequest}
  {D D' : AdmissionOutcome → Prop} {G O G' O' : Prop} {v : Validated}

theorem stage_admitGenerationJob
    (hinvalid : ∀ e, validateRequest host settings r = .error e → D (.error e)) :
    AdmissionStage host settings r D G O (admitGenerationJob host settings r) := by
  unfold admitGenerationJob
  cases h : validateRequest host settings r with
  | ok v => exact .lookup v h
  | error e => exact .done _ (hinvalid e h)

theorem stage_createJob (hv : validateRequest host settings r = .ok v) (hG : G)
    (hO : O) : AdmissionStage host settings r D G O (createJob settings r v) :=
  .position v hv hG hO

theorem stage_afterOwnCount (hv : validateRequest host settings r = .ok v)
    {whoHas : String} {backlog : Nat} (hG : G)
    (hO : Below settings.maxQueuedJobsPerUser backlog → O)
    (hfull : ∀ reason after, D (.error (.capacityExceeded reason after))) :
    AdmissionStage host settings r D G O
      (afterOwnCount settings whoHas r v backlog) := by
  unfold afterOwnCount
  split
  · exact .done _ (hfull _ _)
  · rename_i hroom
    exact stage_createJob hv hG (hO (fun _ => by omega))

theorem stage_checkOwnBacklog (hv : validateRequest host settings r = .ok v)
    (hG : G) (hO : settings.maxQueuedJobsPerUser ≤ 0 → O) :
    AdmissionStage host settings r D G O (checkOwnBacklog settings r v) := by
  unfold checkOwnBacklog
  by_cases hcap : 0 < settings.maxQueuedJobsPerUser
  · rw [if_pos hcap]
    cases hconv : r.conversationId with
    | some c => exact .countConversation v c _ hv hconv hG
    | none => exact .countUser v _ hv hconv hG
  · rw [if_neg hcap]
    exact stage_createJob hv hG (hO (by omega))

theorem stage_afterGlobalCount (hv : validateRequest host settings r = .ok v)
    {backlog : Nat} (hG : Below settings.globalQueueCap backlog → G)
    (hO : settings.maxQueuedJobsPerUser ≤ 0 → O)
    (hfull : ∀ reason after, D (.error (.capacityExceeded reason after))) :
    AdmissionStage host settings r D G O
      (afterGlobalCount settings r v backlog) := by
  unfold afterGlobalCount
  split
  · exact .done _ (hfull _ _)
  · rename_i hroom
    exact stage_checkOwnBacklog hv (hG (fun _ => by omega)) hO

theorem stage_checkGlobalBacklog (hv : validateRequest host settings r = .ok v)
    (hG : settings.globalQueueCap ≤ 0 → G)
    (hO : settings.maxQueuedJobsPerUser ≤ 0 → O) :
    AdmissionStage host settings r D G O (checkGlobalBacklog settings r v) := by
  unfold checkGlobalBacklog
  by_cases hcap : 0 < settings.globalQueueCap
  · rw [if_pos hcap]
    exact .countGlobal v hv
  · rw [if_neg hcap]
    exact stage_checkOwnBacklog hv (hG (by omega)) hO

theorem stage_afterLookup (hv : validateRequest host settings r = .ok v)
    {existing : Option QueuedJob} (hG : settings.globalQueueCap ≤ 0 → G)
    (hO : settings.maxQueuedJobsPerUser ≤ 0 → O)
    (hreplay : ∀ job, existing = some job →
      canonicalPayloadHash host v.inputs.json =
        canonicalPayloadHash host job.inputPayload → D (replayResult job))
    (hconflict : ∀ job message, existing = some job →
      canonicalPayloadHash host v.inputs.json ≠
        canonicalPayloadHash host job.inputPayload →
      D (.error (.idempotencyConflict message))) :
    AdmissionStage host settings r D G O
      (afterLookup host settings r v existing) := by
  cases existing with
  | none => exact stage_checkGlobalBacklog hv hG hO
  | some job =>
      unfold afterLookup checkIdempotency
      by_cases hhash : canonicalPayloadHash host v.inputs.json =
          canonicalPayloadHash host job.inputPayload
      · simp only [Option.map_some, if_pos hhash]
        exact .done _ (hreplay job rfl hhash)
      · simp only [Option.map_some, if_neg hhash]
        exact .done _ (hconflict job _ rfl hhash)

/-- What is known of the backlogs may change as long as the admission has not
counted them. -/
theorem AdmissionStage.mono {p : AdmissionProgram}
    (h : AdmissionStage host settings r D G O p) (hD : ∀ o, D o → D' o)
    (hG : ∀ c next, p = .call c next → c.pastGlobalCount = true → G → G')
    (hO : ∀ c next, p = .call c next → c.pastOwnCount = true → O → O') :
    AdmissionStage host settings r D' G' O' p := by
  cases h with
  | done o ho => exact .done o (hD o ho)
  | lookup v hv => exact .lookup v hv
  | countGlobal v hv => exact .countGlobal v hv
  | countConversation v c whoHas hv hconv hg =>
      exact .countConversation v c whoHas hv hconv (hG _ _ rfl rfl hg)
  | countUser v whoHas hv hconv hg =>
      exact .countUser v whoHas hv hconv (hG _ _ rfl rfl hg)
  | position v hv hg ho =>
      exact .position v hv (hG _ _ rfl rfl hg) (hO _ _ rfl rfl ho)
  | insert v n hv hg ho =>
      exact .insert v n hv (hG _ _ rfl rfl hg) (hO _ _ rfl rfl ho)

/-- The job that a call inserts or finds. -/
def AdmissionCall.names : (c : AdmissionCall) → c.Answer → Option Uuid
  | .enqueue job, .ok _ => some job.id
  | .findByIdempotencyKey _ _ _, some job => some job.id
  | _, _ => none

theorem replayResult_id {job : QueuedJob} {result : AdmissionResult}
    (h : replayResult job = .ok result) : result.id = job.id := by
  unfold replayResult at h
  split at h
  · cases h
    rfl
  · cases h

/-- Whatever its next call is answered, an admission comes to another stage; if
that is its end, with the job that the call has inserted or found. -/
theorem stage_answer {c : AdmissionCall} {next : c.Answer → AdmissionProgram}
    (h : AdmissionStage host settings r (fun _ => True) True True
      (.call c next)) (answer : c.Answer) :
    AdmissionStage host settings r (fun o => ∀ result, o = .ok result →
      c.names answer = some result.id) True True (next answer) := by
  cases h with
  | lookup v hv =>
      refine stage_afterLookup hv (fun _ => trivial) (fun _ => trivial) ?_ ?_
      · intro job hjob _ result hresult
        rw [hjob, AdmissionCall.names, replayResult_id hresult]
      · intro job message _ _ result hresult
        cases hresult
  | countGlobal v hv =>
      exact stage_afterGlobalCount hv (fun _ => trivial) (fun _ => trivial)
        (fun _ _ _ h => by cases h)
  | countConversation v c whoHas hv _ _ =>
      exact stage_afterOwnCount hv trivial (fun _ => trivial)
        (fun _ _ _ h => by cases h)
  | countUser v whoHas hv _ _ =>
      exact stage_afterOwnCount hv trivial (fun _ => trivial)
        (fun _ _ _ h => by cases h)
  | position v hv _ _ => exact .insert v answer hv trivial trivial
  | insert v position hv _ _ =>
      cases answer with
      | ok _ => exact .done _ (fun result h => by cases h; rfl)
      | error _ => exact .done _ (fun result h => by cases h)

theorem stage_next {c : AdmissionCall} {next : c.Answer → AdmissionProgram}
    (h : AdmissionStage host settings r (fun _ => True) True True
      (.call c next)) (answer : c.Answer) :
    AdmissionStage host settings r (fun _ => True) True True (next answer) :=
  (stage_answer h answer).mono (fun _ _ => trivial) (fun _ _ _ _ _ => trivial)
    (fun _ _ _ _ _ => trivial)

/-- An admission that ends well has inserted or found its job. -/
theorem names_of_done {c : AdmissionCall} {next : c.Answer → AdmissionProgram}
    {answer : c.Answer} {result : AdmissionResult}
    (h : AdmissionStage host settings r (fun _ => True) True True
      (.call c next)) (hdone : next answer = .done (.ok result)) :
    c.names answer = some result.id := by
  have hstage := stage_answer h answer
  rw [hdone] at hstage
  cases hstage with
  | done o ho => exact ho result rfl

end Stages

/-! ## The queues -/

/-- What names a job to an admission. -/
def QueuedJob.idemKey (j : QueuedJob) : Uuid × String × String :=
  (j.userId, j.idempotencyKey, j.kind)

/-- What names a row to an admission: `uq_generation_jobs_user_idem_kind`. -/
def JobRow.idemKey (g : JobRow) : Uuid × String × String :=
  (g.userId, g.idempotencyKey, g.kind)

/-- The key an admission looks for. -/
def AdmissionRequest.idemKey (r : AdmissionRequest) : Uuid × String × String :=
  (r.userId, r.idempotencyKey, r.workflowName)

/-- An admission inserts a job of its own, and ends with that. -/
theorem stage_enqueue {host : AdmissionHost} {settings : Settings}
    {r : AdmissionRequest} {job : QueuedJob}
    {next : Except PyError Unit → AdmissionProgram}
    (h : AdmissionStage host settings r (fun _ => True) True True
      (.call (.enqueue job) next)) :
    job.idemKey = r.idemKey ∧ (∀ answer, ∃ o, next answer = .done o) ∧
      ∃ result, next (.ok ()) = .done (.ok result) ∧ result.id = job.id := by
  cases h with
  | insert v position hv _ _ =>
      refine ⟨rfl, fun answer => ?_, _, rfl, rfl⟩
      cases answer with
      | ok _ => exact ⟨_, rfl⟩
      | error _ => exact ⟨_, rfl⟩

/-- What no call of the queue changes in a job. -/
structure JobIdentity where
  id : Uuid
  key : Uuid × String × String
  conversationId : Option Uuid
  inputPayload : Json

/-- What no call of the queue changes in this job. -/
def QueuedJob.identity (j : QueuedJob) : JobIdentity :=
  ⟨j.id, j.idemKey, j.conversationId, j.inputPayload⟩

/-- What no call of the queue changes in this row. -/
def JobRow.identity (g : JobRow) : JobIdentity :=
  ⟨g.id, g.idemKey, g.conversationId, g.inputPayload⟩

/-- Does a job count against the cap of its conversation or, without one, of its
user? -/
def AdmissionRequest.owns (r : AdmissionRequest) (userId : Uuid)
    (conversationId : Option Uuid) : Bool :=
  match r.conversationId with
  | some c => conversationId = some c
  | none => userId = r.userId

namespace InMemoryJobQueue

/-- `find_by_idempotency_key`. -/
def findByIdempotencyKey (userId : Uuid) (idempotencyKey kind : String)
    (q : InMemoryJobQueue) : Option QueuedJob :=
  q.jobs.rows.find? (fun j => j.userId = userId &&
    j.idempotencyKey = idempotencyKey && j.kind = kind)

/-- The waiting jobs that meet `p`, counted: the four `count_*_backlog`. -/
def backlog (p : QueuedJob → Bool) (q : InMemoryJobQueue) : Nat :=
  q.jobs.rows.countP (fun j => p j && j.state.isWaiting)

/-- `count_global_backlog`. -/
def countGlobalBacklog : InMemoryJobQueue → Nat := backlog (fun _ => true)

/-- `count_conversation_backlog`. -/
def countConversationBacklog (conversationId : Uuid) : InMemoryJobQueue → Nat :=
  backlog (fun j => j.conversationId = some conversationId)

/-- `count_user_backlog`. -/
def countUserBacklog (userId : Uuid) : InMemoryJobQueue → Nat :=
  backlog (fun j => j.userId = userId)

/-- `count_backlog_for_kinds`. -/
def countBacklogForKinds (kinds : List String) : InMemoryJobQueue → Nat :=
  backlog (fun j => j.kind ∈ kinds)

/-- The calls of an admission; none of them suspends. -/
def admissionAnswer : (c : AdmissionCall) → InMemoryJobQueue →
    c.Answer × InMemoryJobQueue
  | .findByIdempotencyKey userId idempotencyKey kind, q =>
      (q.findByIdempotencyKey userId idempotencyKey kind, q)
  | .countGlobalBacklog, q => (q.countGlobalBacklog, q)
  | .countConversationBacklog c, q => (q.countConversationBacklog c, q)
  | .countUserBacklog userId, q => (q.countUserBacklog userId, q)
  | .countBacklogForKinds kinds, q => (q.countBacklogForKinds kinds, q)
  | .enqueue job, q => (.ok (), q.enqueue job)

end InMemoryJobQueue

namespace PostgresJobQueue

/-- `find_by_idempotency_key`. -/
def findByIdempotencyKey (userId : Uuid) (idempotencyKey kind : String)
    (q : PostgresJobQueue) : Option QueuedJob :=
  (q.generationJobs.rows.find? (fun g => g.userId = userId &&
    g.idempotencyKey = idempotencyKey && g.kind = kind)).map
      (fun g => rowToQueuedJob g (q.latestAttempt g.id))

/-- The waiting rows that meet `p`, counted: the four `count_*_backlog`. -/
def backlog (p : JobRow → Bool) (q : PostgresJobQueue) : Nat :=
  q.generationJobs.rows.countP (fun g => p g && g.state.isWaiting)

/-- `count_global_backlog`. -/
def countGlobalBacklog : PostgresJobQueue → Nat := backlog (fun _ => true)

/-- `count_conversation_backlog`. -/
def countConversationBacklog (conversationId : Uuid) : PostgresJobQueue → Nat :=
  backlog (fun g => g.conversationId = some conversationId)

/-- `count_user_backlog`. -/
def countUserBacklog (userId : Uuid) : PostgresJobQueue → Nat :=
  backlog (fun g => g.userId = userId)

/-- `count_backlog_for_kinds`. -/
def countBacklogForKinds (kinds : List String) : PostgresJobQueue → Nat :=
  backlog (fun g => g.kind ∈ kinds)

/-- The exception of an insertion that is refused: for its kind, for a payload
`jsonb` does not take, or for a row that has its id or its key. -/
def insertError (jsonb : Json → Option Json) (job : QueuedJob)
    (q : PostgresJobQueue) : Option PyError :=
  match resolveWorkflowDefaults job.kind with
  | none => some "ValueError"
  | some (modelFamily, workflowVersion) =>
      match jsonb job.inputPayload with
      | none => some "DBAPIError"
      | some _ =>
          if q.taken (rowOfJob job modelFamily workflowVersion) then
            some "IntegrityError"
          else none

/-- The calls of an admission, each of them a transaction of its own.  `jsonb`
is what a `JSONB` column makes of a value it stores. -/
def admissionAnswer (jsonb : Json → Option Json) : (c : AdmissionCall) →
    PostgresJobQueue → c.Answer × PostgresJobQueue
  | .findByIdempotencyKey userId idempotencyKey kind, q =>
      (q.findByIdempotencyKey userId idempotencyKey kind, q)
  | .countGlobalBacklog, q => (q.countGlobalBacklog, q)
  | .countConversationBacklog c, q => (q.countConversationBacklog c, q)
  | .countUserBacklog userId, q => (q.countUserBacklog userId, q)
  | .countBacklogForKinds kinds, q => (q.countBacklogForKinds kinds, q)
  | .enqueue job, q =>
      match insertError jsonb job q with
      | some e => (.error e, q)
      | none =>
          (.ok (), q.enqueue { job with
            inputPayload := (jsonb job.inputPayload).getD .null })

end PostgresJobQueue

/-! ## A host -/

/-- A text for every float. -/
def floatText : PyFloat → String
  | .finite value => "d" ++ value.num.repr ++ "x" ++ value.den.repr
  | .negZero => "-0.0"
  | .inf => "Infinity"
  | .negInf => "-Infinity"
  | .nan => "NaN"

theorem floatText_finite_inj {v w : Rat}
    (h : floatText (.finite v) = floatText (.finite w)) : v = w := by
  have hchars := congrArg String.toList h
  simp only [floatText, String.toList_append, List.append_assoc] at hchars
  have hrest := List.append_cancel_left hchars
  have hsep : ∀ n : Int, ∀ c ∈ n.repr.toList, decide (c ≠ 'x') = true := by
    intro n c hc
    rcases Json.chars_intRepr n c hc with hdigit | rfl
    · refine decide_eq_true (fun hx => ?_)
      rw [hx] at hdigit
      exact absurd hdigit (by decide)
    · rfl
  have htake := congrArg (List.takeWhile (fun c => decide (c ≠ 'x'))) hrest
  have hdrop := congrArg (List.dropWhile (fun c => decide (c ≠ 'x'))) hrest
  rw [List.takeWhile_append_of_pos (hsep v.num),
    List.takeWhile_append_of_pos (hsep w.num)] at htake
  rw [List.dropWhile_append_of_pos (hsep v.num),
    List.dropWhile_append_of_pos (hsep w.num)] at hdrop
  have hnum : v.num = w.num := by
    refine Int.repr_injective (String.toList_inj.mp ?_)
    simpa using htake
  have hden : v.den = w.den := by
    refine Nat.repr_injective (String.toList_inj.mp ?_)
    simpa using hdrop
  exact Rat.ext hnum hden

/-- Floats with different texts, for the examples. -/
def plainFloats : FloatText where
  text := floatText
  text_inj {x y} h := by
    cases x <;> cases y <;> first
      | rfl
      | exact congrArg PyFloat.finite (floatText_finite_inj h)
      | (have hchars := congrArg String.toList h
         simp [floatText, String.toList_append] at hchars)
  text_ne_empty x := by cases x <;> simp [floatText]
  text_isAtomChar x c hc := by
    cases x with
    | finite v =>
        simp only [floatText, String.toList_append, List.mem_append] at hc
        rcases hc with ((hc | hc) | hc) | hc
        · simp at hc
          rw [hc]
          rfl
        · exact Json.isAtomChar_intRepr v.num c hc
        · simp at hc
          rw [hc]
          rfl
        · exact Json.isAtomChar_intRepr v.den c hc
    | negZero => exact List.all_eq_true.mp (by decide) c hc
    | inf => exact List.all_eq_true.mp (by decide) c hc
    | negInf => exact List.all_eq_true.mp (by decide) c hc
    | nan => exact List.all_eq_true.mp (by decide) c hc
  text_ne_constant x h := by
    cases x with
    | finite v =>
        simp only [List.mem_cons, List.not_mem_nil, or_false] at h
        rcases h with h | h | h <;>
          simpa [floatText] using congrArg String.toList h
    | negZero => exact absurd h (by decide)
    | inf => exact absurd h (by decide)
    | negInf => exact absurd h (by decide)
    | nan => exact absurd h (by decide)
  text_ne_int x n h := by
    have hall := Json.all_intRepr n
    rw [← h] at hall
    cases x with
    | finite v =>
        have hd := List.all_eq_true.mp hall 'd' (by simp [floatText])
        exact absurd hd (by decide)
    | negZero => exact absurd hall (by decide)
    | inf => exact absurd hall (by decide)
    | negInf => exact absurd hall (by decide)
    | nan => exact absurd hall (by decide)

/-- The text of the inputs of an example. -/
def catText : String := "\x7b\"prompt\":\"cat\"\x7d"

/-- The digest of the example's text; every other text has one of its own. -/
def plainSha256 (s : String) : String :=
  if s = catText then
    "67c3aa923cd483dc6d2b7f6a4d9075ca176e992cc01ceaa0fc30df16a026ff45"
  else "x" ++ s

theorem plainSha256_injective : Function.Injective plainSha256 := by
  have hne : ∀ s : String,
      "67c3aa923cd483dc6d2b7f6a4d9075ca176e992cc01ceaa0fc30df16a026ff45" ≠
        "x" ++ s := by
    intro s h
    simpa using congrArg String.toList h
  intro s t h
  unfold plainSha256 at h
  split at h <;> split at h
  · rename_i hs ht
    rw [hs, ht]
  · exact absurd h (hne t)
  · exact absurd h.symm (hne s)
  · have hchars := congrArg String.toList h
    simp only [String.toList_append] at hchars
    exact String.toList_inj.mp (List.append_cancel_left hchars)

/-- A host for the examples. -/
def plainHost : AdmissionHost where
  repr _ := ""
  lower := String.toLower
  decimal _ := none
  floats := plainFloats
  floatOfStr _ := none
  sha256 := plainSha256

/-- Inputs of an example. -/
def catInputs : Dict := Dict.empty.set "prompt" (.str "cat") (.str "cat")

/-- A request of an example. -/
def catRequest (id : Uuid) : AdmissionRequest where
  id := id
  userId := 7
  workflowName := "poster_infographic"
  workflowVersion := "v1"
  inputs := catInputs
  idempotencyKey := "retry-1"
  now := 0

/-- The canonical text of the example's inputs. -/
example : catInputs.json.dumps plainFloats = catText := rfl

end Imagin4.Ports
