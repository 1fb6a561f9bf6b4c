import Imagin4.Ports.AdmissionQueues
import Imagin4.Ports.ChatRouter
import Imagin4.Ports.StoredOverrides

/-!
# Previews

A preview is a job of few steps, and `finalize_generation` of
`app/api/v1/generations.py` submits the same inputs again for a job of full
quality.  Whether a job is a preview is read from its payload: by
`finalize_generation`, by `get_job` of `app/api/v1/jobs.py`, and by the replay of
an admission.

## Main results

* `finalized_iff` — when the job of full quality has the payload it would have had
  without a preview.
* `counted_iff` — when a job counts as a preview exactly if it was admitted as one.
-/

namespace Imagin4.Ports

open Imagin4.Verified
open Imagin4.Verified.Program

/-! ## The endpoints -/

/-- The texts of the states. -/
def JobState.name : JobState → String
  | queued => "queued"
  | admitted => "admitted"
  | dispatched => "dispatched"
  | running => "running"
  | retryWait => "retry_wait"
  | cancelling => "cancelling"
  | cancelled => "cancelled"
  | succeeded => "succeeded"
  | failed => "failed"

/-- The job under an id, for its owner.  An id that is no UUID has none. -/
def ownedJob (job : Option QueuedJob) (userId : Uuid) :
    Except RouterError QueuedJob :=
  match job with
  | none => .error (.http 404 "not found")
  | some job =>
      if job.userId = userId then .ok job else .error (.http 404 "not found")

/-- `(job.input_payload or {}).get("is_preview", False)`. -/
def QueuedJob.previewFlag (job : QueuedJob) : Except PyError Json :=
  (job.inputPayload.orElse (.obj [])).getD "is_preview" (.bool false)

/-- `JobOut`. -/
structure JobOut where
  id : Uuid
  state : JobState
  kind : String
  currentAttempt : Nat
  errorCode : Option String
  errorDetail : Option String
  result : Option JobResult
  queuePosition : Option Nat
  estimatedWaitSeconds : Option Rat
  isPreview : Bool

/-- `_live_queue_eta`; `rank` is `queue_rank`. -/
def liveQueueEta (settings : Settings) (rank : Uuid → List String → Option Nat)
    (job : QueuedJob) : Option Nat × Option Rat :=
  if job.state = .queued ∨ job.state = .retryWait then
    match backendForKind job.kind with
    | none => (none, none)
    | some backend =>
        match rank job.id (kindsForBackend backend) with
        | none => (none, none)
        | some position =>
            (some position, estimateWaitSeconds settings position backend)
  else (none, none)

/-- `get_job`. -/
def getJob (settings : Settings) (rank : Uuid → List String → Option Nat)
    (job : Option QueuedJob) (userId : Uuid) : Except RouterError JobOut := do
  let job ← ownedJob job userId
  let eta := liveQueueEta settings rank job
  let flag ← job.previewFlag.mapError .raised
  return {
    id := job.id
    state := job.state
    kind := job.kind
    currentAttempt := job.currentAttempt
    errorCode := job.errorCode
    errorDetail := job.errorDetail
    result := job.result
    queuePosition := eta.1
    estimatedWaitSeconds := eta.2
    isPreview := flag.truthy }

/-- The inputs of the job of full quality. -/
def finalInputs (original : QueuedJob) (payload : Dict) : Dict :=
  let inputs := (payload.erase "preview").erase "is_preview"
  let overrides := inputs.getD "preview_original_overrides" (.obj [])
  let inputs := (inputs.erase "preview_original_overrides").set
    "model_overrides" overrides (Dict.isDict_getD _ _ Dict.empty.isDict)
  inputs.set "preview_of" (.str (uuidText original.id)) (.str _)

/-- The request `finalize_generation` admits, with the id and the clock reading of
the new job.  A Python dict has no key twice. -/
def finalizeRequest (original : Option QueuedJob) (userId : Uuid)
    (idempotencyKey : String) (id : Uuid) (now : DateTime) :
    Except RouterError AdmissionRequest := do
  let original ← ownedJob original userId
  let flag ← original.previewFlag.mapError .raised
  if !flag.truthy then
    .error (.http 400 "job is not a preview job")
  else if original.state ≠ .succeeded then
    .error (.http 409 ("preview job has not finished yet (state=" ++
      original.state.name ++ ")"))
  else
    match original.inputPayload with
    | .obj members =>
        if h : (Json.obj members).IsDict then
          .ok {
            id := id
            userId := userId
            workflowName := original.kind
            workflowVersion := "v1"
            inputs := finalInputs original ⟨members, h⟩
            idempotencyKey := idempotencyKey
            now := now }
        else .error (.raised "TypeError")
    | _ => .error (.raised "TypeError")

/-- The answer for an admission. -/
def generationResponse : AdmissionOutcome → Except RouterError GenerationOut
  | .ok result => .ok {
      id := result.id
      state := result.state
      kind := result.kind
      queuePosition := result.queuePosition
      estimatedWaitSeconds := result.estimatedWaitSeconds
      isPreview := result.isPreview }
  | .error (.unknownWorkflow _) => .error (.http 400 "unknown workflow")
  | .error (.unknownModelProfile _) => .error (.http 400 "unknown model_profile")
  | .error (.invalidComfyOverride message) => .error (.http 400 message)
  | .error (.previewNotSupported message) => .error (.http 400 message)
  | .error (.idempotencyConflict _) => .error (.http 409
      "Idempotency-Key already used with a different payload")
  | .error (.capacityExceeded reason retryAfterS) =>
      .error (.http 429 reason (some retryAfterS))
  | .error (.other e) => .error (.raised e)

/-- `finalize_generation`, once it has the job under the id. -/
def finalizeGeneration (host : AdmissionHost) (settings : Settings)
    (original : Option QueuedJob) (userId : Uuid) (idempotencyKey : String)
    (id : Uuid) (now : DateTime) :
    Program AdmissionCall AdmissionCall.Answer (Except RouterError GenerationOut) :=
  match finalizeRequest original userId idempotencyKey id now with
  | .error e => .done (.error e)
  | .ok r => (admitGenerationJob host settings r).bind
      (fun o => .done (generationResponse o))

/-! ## Stored jobs -/

/-- This is the job that was inserted, whatever the queue has done to it since,
with its payload as a dict that is equal to the one inserted. -/
structure StoredAs (job original : QueuedJob) (payload : Dict) : Prop where
  identity : original.identity = job.identityAs payload.json
  same : payload.json.Same job.inputPayload

/-- An admission, or what goes through one, may come to insert this job. -/
def MayInsert {α : Type} (job : QueuedJob)
    (p : Program AdmissionCall AdmissionCall.Answer α) : Prop :=
  ∃ calls next, Path p calls (.call (.enqueue job) next)

theorem mayInsert_call {α : Type} {job : QueuedJob} {c : AdmissionCall}
    {next : c.Answer → Program AdmissionCall AdmissionCall.Answer α}
    (answer : c.Answer) (h : MayInsert job (next answer)) :
    MayInsert job (.call c next) := by
  obtain ⟨calls, rest, hpath⟩ := h
  exact ⟨⟨c, answer⟩ :: calls, rest, .call hpath⟩

section Stored

variable {host : AdmissionHost} {settings : Settings} {r : AdmissionRequest}
  {job original : QueuedJob} {payload : Dict} {v : Validated}

theorem StoredAs.id (h : StoredAs job original payload) : original.id = job.id :=
  congrArg JobIdentity.id h.identity

theorem StoredAs.kind (h : StoredAs job original payload) :
    original.kind = job.kind := by
  have hkey := congrArg (fun g => g.key.2.2) h.identity
  exact hkey

theorem StoredAs.userId (h : StoredAs job original payload) :
    original.userId = job.userId := by
  have hkey := congrArg (fun g => g.key.1) h.identity
  exact hkey

theorem StoredAs.inputPayload (h : StoredAs job original payload) :
    original.inputPayload = payload.json :=
  congrArg JobIdentity.inputPayload h.identity

theorem StoredAs.rel (h : StoredAs (r.job v) original payload) (key : String) :
    Option.Rel Json.Same (payload.lookup key) (v.inputs.lookup key) :=
  Dict.same_json_iff.mp h.same key

/-- What equals only itself is stored as it is. -/
theorem StoredAs.lookup_eq (h : StoredAs (r.job v) original payload) {k : String}
    {y : Json} (hy : ∀ x, Json.Same x y → x = y)
    (hk : v.inputs.lookup k = some y) : payload.lookup k = some y := by
  have hrel := h.rel k
  rw [hk] at hrel
  generalize payload.lookup k = o at hrel ⊢
  cases hrel with
  | some hsame => rw [hy _ hsame]

/-- The owner of the job gets it. -/
theorem ownedJob_stored (h : StoredAs (r.job v) original payload) :
    ownedJob (some original) r.userId = .ok original := by
  have huser : original.userId = r.userId := h.userId
  simp [ownedJob, huser]

/-- The flag in a stored payload. -/
theorem previewFlag_stored (h : StoredAs job original payload) :
    original.previewFlag =
      .ok ((payload.lookup "is_preview").getD (.bool false)) := by
  unfold QueuedJob.previewFlag
  rw [h.inputPayload]
  unfold Json.orElse Dict.lookup Dict.json
  cases payload.members with
  | nil => rfl
  | cons m rest => rfl

/-- What only looks at the answer of an admission inserts what it inserts. -/
theorem mayInsert_bind {α β : Type} {job : QueuedJob} {k : α → β}
    {p : Program AdmissionCall AdmissionCall.Answer α} :
    MayInsert job (p.bind (fun a => .done (k a))) ↔ MayInsert job p := by
  constructor
  · rintro ⟨calls, next, hpath⟩
    exact ⟨calls, path_of_bind_done hpath⟩
  · rintro ⟨calls, next, hpath⟩
    exact ⟨calls, _, hpath.bind _⟩

/-- A request with a new key, on an empty queue, inserts its job. -/
theorem mayInsert_job (hv : validateRequest host settings r = .ok v) :
    MayInsert (r.job v) (admitGenerationJob host settings r) := by
  have hcreate : MayInsert (r.job v) (createJob settings r v) :=
    mayInsert_call (0 : Nat) ⟨_, _, .nil _⟩
  have hafterOwn : ∀ whoHas, 0 < settings.maxQueuedJobsPerUser →
      MayInsert (r.job v) (afterOwnCount settings whoHas r v 0) := by
    intro whoHas hcap
    unfold afterOwnCount
    rw [if_neg (by simpa using hcap)]
    exact hcreate
  have hown : MayInsert (r.job v) (checkOwnBacklog settings r v) := by
    unfold checkOwnBacklog
    by_cases hcap : 0 < settings.maxQueuedJobsPerUser
    · rw [if_pos hcap]
      cases r.conversationId with
      | some c => exact mayInsert_call (0 : Nat) (hafterOwn _ hcap)
      | none => exact mayInsert_call (0 : Nat) (hafterOwn _ hcap)
    · rw [if_neg hcap]
      exact hcreate
  have hglobal : MayInsert (r.job v) (checkGlobalBacklog settings r v) := by
    unfold checkGlobalBacklog
    by_cases hcap : 0 < settings.globalQueueCap
    · rw [if_pos hcap]
      refine mayInsert_call (0 : Nat) ?_
      unfold afterGlobalCount
      rw [if_neg (by simpa using hcap)]
      exact hown
    · rw [if_neg hcap]
      exact hown
  unfold admitGenerationJob
  rw [hv]
  refine mayInsert_call (none : Option QueuedJob) ?_
  exact hglobal

end Stored

/-! ## A second admission -/

section Again

variable {host : AdmissionHost} {settings : Settings} {inputs after : Dict}

theorem str_orElse (s : String) :
    (Json.str s).orElse (.str "") = .str s := by
  unfold Json.orElse
  by_cases hs : s = ""
  · simp [hs]
  · simp [Json.truthy, hs]

/-- The key of a profile is resolved to itself. -/
theorem resolveProfileKey_again {requested : Json} {available : List String}
    {key : String} (h : resolveProfileKey host requested available = .ok key) :
    resolveProfileKey host (.str key) available = .ok key := by
  unfold resolveProfileKey at h
  split at h
  · rename_i s hs
    dsimp only at h
    split at h
    · rename_i hmem
      cases h
      have hagain : orDefault (strip (orDefault (strip s) defaultProfileKey))
          defaultProfileKey = orDefault (strip s) defaultProfileKey := by
        unfold orDefault
        by_cases hempty : strip s = ""
        · rw [if_pos hempty]
          rfl
        · rw [if_neg hempty, strip_strip, if_neg hempty]
      unfold resolveProfileKey
      rw [str_orElse]
      dsimp only
      rw [hagain, if_pos hmem]
    · cases h
  · cases h

/-- What is stored for a request that is no preview. -/
theorem normaliseInputs_final {key : String} {validated : Dict}
    (hkey : resolveProfileKey host (inputs.get "model_profile")
      (profileKeys settings) = .ok key)
    (hvalidated : validateOverrides host (buildAllowlists settings)
      ⟨inputs.get "model_overrides", inputs.isDict_get _⟩ = .ok validated) :
    ∃ after, normaliseInputs host settings inputs false = .ok after ∧
      ∀ k, after.lookup k =
        if k = "is_preview" then some (.bool false)
        else if k = "model_overrides" then some validated.json
        else if k = "model_profile" then some (.str key)
        else inputs.lookup k := by
  refine ⟨_, bind_eq_ok.mpr ⟨key, hkey, bind_eq_ok.mpr
    ⟨validated, hvalidated, rfl⟩⟩, fun k => ?_⟩
  simp [Dict.lookup_set]

/-- The workflows of the ComfyUI lane are there in their first version. -/
theorem resolveWorkflow_v1 {kind : String}
    (hkind : kind ∈ kindsForBackend .comfyui) :
    ∃ workflow, resolveWorkflow kind "v1" = some workflow := by
  have hkinds : kindsForBackend .comfyui =
      ["txt2img_basic", "img2img_basic", "image_basic"] := by decide
  rw [hkinds] at hkind
  simp only [List.mem_cons, List.not_mem_nil, or_false] at hkind
  rcases hkind with rfl | rfl | rfl
  all_goals exact ⟨_, rfl⟩

/-- A request of the ComfyUI lane whose inputs are normalised is valid. -/
theorem validateRequest_comfyui {r : AdmissionRequest} {workflow : WorkflowDefinition}
    (hkind : r.workflowName ∈ kindsForBackend .comfyui)
    (hworkflow : resolveWorkflow r.workflowName r.workflowVersion = some workflow)
    (hafter : normaliseInputs host settings r.inputs
      (r.inputs.get "preview").truthy = .ok after) :
    validateRequest host settings r =
      .ok ⟨workflow, after, (r.inputs.get "preview").truthy⟩ := by
  unfold validateRequest
  rw [hworkflow]
  dsimp only
  rw [backend_of_kind hkind hworkflow]
  dsimp only
  rw [hafter]

variable {overrides validated saved : Dict}

/-- A validated override is a text or a number, which equals nothing else. -/
theorem eq_of_same
    (h : validateOverrides host (buildAllowlists settings)
      ⟨overrides.json, overrides.isDict⟩ = .ok validated) {field : String}
    {x v : Json} (hv : validated.lookup field = some v) (hsame : x.Same v) :
    x = v := by
  obtain ⟨given, -, hverdict⟩ := verdict_of_lookup h hv
  unfold fieldVerdict at hverdict
  by_cases hsteps : field = "steps"
  · rw [if_pos hsteps] at hverdict
    obtain ⟨n, -, rfl, -⟩ := of_stepsVerdict hverdict
    cases hsame
    rfl
  by_cases hcfg : field = "cfg_scale"
  · rw [if_neg hsteps, if_pos hcfg] at hverdict
    obtain ⟨cfg, -, rfl, -⟩ := of_cfgScaleVerdict hverdict
    cases hsame
    rfl
  by_cases hnegative : field = "negative_prompt"
  · rw [if_neg hsteps, if_neg hcfg, if_pos hnegative] at hverdict
    obtain ⟨-, rfl⟩ := of_negativePromptVerdict hverdict
    generalize sliceTo _ _ = text at hsame ⊢
    cases hsame
    rfl
  · rw [if_neg hsteps, if_neg hcfg, if_neg hnegative] at hverdict
    obtain ⟨-, -, rfl⟩ := of_textVerdict hverdict
    generalize strip _ = text at hsame ⊢
    cases hsame
    rfl

/-- What is saved of the validated overrides has the same values. -/
theorem lookup_saved
    (h : validateOverrides host (buildAllowlists settings)
      ⟨overrides.json, overrides.isDict⟩ = .ok validated)
    (hsame : saved.json.Same validated.json) (field : String) :
    saved.lookup field = validated.lookup field := by
  have hrel := Dict.same_json_iff.mp hsame field
  cases hv : validated.lookup field with
  | none =>
      rw [hv] at hrel
      generalize saved.lookup field = o at hrel ⊢
      cases hrel
      rfl
  | some v =>
      rw [hv] at hrel
      generalize saved.lookup field = o at hrel ⊢
      cases hrel with
      | some hx => rw [eq_of_same h hv hx]

/-- What a validation of the saved overrides returns. -/
theorem validate_saved
    (h : validateOverrides host (buildAllowlists settings)
      ⟨overrides.json, overrides.isDict⟩ = .ok validated)
    (hsame : saved.json.Same validated.json) :
    ∃ again, validateOverrides host (buildAllowlists settings)
        ⟨saved.json, saved.isDict⟩ = .ok again ∧
      ∀ field, again.lookup field =
        kept (overrideVerdict host (buildAllowlists settings)
          (storedOverrides settings false validated)) field := by
  have hlookup : ∀ field, saved.lookup field =
      (storedOverrides settings false validated).lookup field := by
    intro field
    rw [lookup_saved h hsame, lookup_storedOverrides, if_neg (by simp)]
  have hverdict : overrideVerdict host (buildAllowlists settings) saved =
      overrideVerdict host (buildAllowlists settings)
        (storedOverrides settings false validated) := by
    funext field
    unfold overrideVerdict
    rw [hlookup]
  have hknown : unknownKeys saved = [] :=
    unknownKeys_eq_nil (fun field hfield => by
      rw [hlookup]
      exact lookup_of_unknownKeys (unknownKeys_stored h) hfield)
  rw [← hverdict]
  refine validateOverrides_ok hknown (fun field _ => ?_)
  rw [hverdict]
  exact returns_stored h field

end Again

/-! ## The job of full quality -/

/-- The request without its wish for a preview. -/
def AdmissionRequest.withoutPreview (r : AdmissionRequest) : AdmissionRequest :=
  { r with inputs := r.inputs.erase "preview" }

/-- `finalize_generation` submits what an admission without the wish for a preview
would have stored, and the id of the preview. -/
structure FinalizedAs (host : AdmissionHost) (settings : Settings)
    (r : AdmissionRequest) (job original : QueuedJob) (idempotencyKey : String)
    (id : Uuid) (now : DateTime) : Prop where
  admitted : ∃ plain,
    MayInsert plain (admitGenerationJob host settings r.withoutPreview)
  finalized : ∃ final, MayInsert final
    (finalizeGeneration host settings (some original) r.userId idempotencyKey id now)
  same {plain final : QueuedJob} {payload : Dict} :
    MayInsert plain (admitGenerationJob host settings r.withoutPreview) →
    MayInsert final (finalizeGeneration host settings (some original) r.userId
      idempotencyKey id now) →
    plain.inputPayload = payload.json →
    final.inputPayload.Same
      (payload.set "preview_of" (.str (uuidText job.id)) (.str _)).json

section Finalize

variable {host : AdmissionHost} {settings : Settings} {r : AdmissionRequest}
  {original : QueuedJob} {payload : Dict} {v : Validated}

/-- The request `finalize_generation` makes of a payload. -/
def finalRequest (original : QueuedJob) (payload : Dict) (userId : Uuid)
    (idempotencyKey : String) (id : Uuid) (now : DateTime) : AdmissionRequest where
  id := id
  userId := userId
  workflowName := original.kind
  workflowVersion := "v1"
  inputs := finalInputs original payload
  idempotencyKey := idempotencyKey
  now := now

theorem lookup_finalInputs (original : QueuedJob) (payload : Dict) (k : String) :
    (finalInputs original payload).lookup k =
      if k = "preview_of" then some (.str (uuidText original.id))
      else if k = "model_overrides" then
        some ((payload.lookup "preview_original_overrides").getD (.obj []))
      else if k = "preview_original_overrides" ∨ k = "is_preview" ∨
          k = "preview" then none
      else payload.lookup k := by
  have hsaved : ((payload.erase "preview").erase "is_preview").getD
      "preview_original_overrides" (.obj []) =
        (payload.lookup "preview_original_overrides").getD (.obj []) := by
    have herased := (payload.erase "preview").lookup_erase "is_preview"
      "preview_original_overrides"
    rw [if_neg (by decide), payload.lookup_erase, if_neg (by decide)] at herased
    exact congrArg (Option.getD · (.obj [])) herased
  unfold finalInputs
  simp only [hsaved, Dict.lookup_set, Dict.lookup_erase]
  by_cases hof : k = "preview_of"
  · rw [if_pos hof, if_pos hof]
  by_cases hoverrides : k = "model_overrides"
  · rw [if_neg hof, if_pos hoverrides, if_neg hof, if_pos hoverrides]
  · by_cases horiginal : k = "preview_original_overrides"
    · simp [horiginal]
    by_cases hflag : k = "is_preview"
    · simp [hflag]
    by_cases hpreview : k = "preview"
    · simp [hpreview]
    · simp [hof, hoverrides, horiginal, hflag, hpreview]

/-- What `finalize_generation` makes of the owner's job. -/
theorem finalizeRequest_stored {flag : Json}
    (h : StoredAs (r.job v) original payload) (hflag : original.previewFlag = .ok flag)
    (idempotencyKey : String) (id : Uuid) (now : DateTime) :
    finalizeRequest (some original) r.userId idempotencyKey id now =
      if flag.truthy = false then .error (.http 400 "job is not a preview job")
      else if original.state = .succeeded then
        .ok (finalRequest original payload r.userId idempotencyKey id now)
      else .error (.http 409 ("preview job has not finished yet (state=" ++
        original.state.name ++ ")")) := by
  have hisDict : (Json.obj payload.members).IsDict := payload.isDict
  unfold finalizeRequest
  rw [ownedJob_stored h]
  simp only [Bind.bind, Except.bind, Except.mapError, hflag, h.inputPayload,
    Dict.json, hisDict]
  by_cases htruthy : flag.truthy = true
  · by_cases hstate : original.state = .succeeded
    · simp [htruthy, hstate, finalRequest]
    · simp [htruthy, hstate]
  · simp [htruthy]

/-- What an admission without the wish for a preview stores. -/
theorem validateRequest_withoutPreview {key : String} {validated : Dict}
    (hkind : r.workflowName ∈ kindsForBackend .comfyui)
    (hv : validateRequest host settings r = .ok v)
    (hkey : resolveProfileKey host (r.inputs.get "model_profile")
      (profileKeys settings) = .ok key)
    (hvalidated : validateOverrides host (buildAllowlists settings)
      ⟨r.inputs.get "model_overrides", r.inputs.isDict_get _⟩ = .ok validated) :
    ∃ plain, validateRequest host settings r.withoutPreview = .ok plain ∧
      ∀ k, plain.inputs.lookup k =
        if k = "is_preview" then some (.bool false)
        else if k = "model_overrides" then some validated.json
        else if k = "model_profile" then some (.str key)
        else if k = "preview" then none
        else r.inputs.lookup k := by
  have hworkflow := workflow_of_validateRequest hv
  have hget : ∀ k, k ≠ "preview" →
      (r.inputs.erase "preview").get k = r.inputs.get k := by
    intro k hk
    rw [Dict.get_eq_lookup, Dict.lookup_erase, if_neg hk, Dict.get_eq_lookup]
  have hsubtype : (⟨(r.inputs.erase "preview").get "model_overrides",
      (r.inputs.erase "preview").isDict_get _⟩ : { x : Json // x.IsDict }) =
        ⟨r.inputs.get "model_overrides", r.inputs.isDict_get _⟩ :=
    Subtype.ext (hget "model_overrides" (by decide))
  rw [← hget "model_profile" (by decide)] at hkey
  rw [← hsubtype] at hvalidated
  obtain ⟨after, hafter, hlookup⟩ := normaliseInputs_final hkey hvalidated
  have hplain : (r.withoutPreview.inputs.get "preview").truthy = false := by
    simp [AdmissionRequest.withoutPreview, Dict.get_eq_lookup, Dict.lookup_erase,
      Json.truthy]
  refine ⟨_, validateRequest_comfyui hkind hworkflow
    (hplain ▸ hafter), ?_⟩
  intro k
  rw [hlookup, Dict.lookup_erase]

/-- What `finalize_generation` stores: the profile is resolved again, and the saved
overrides are validated again. -/
theorem validateRequest_final {key : String} {saved again : Dict}
    (hkind : original.kind ∈ kindsForBackend .comfyui)
    (hprofile : payload.lookup "model_profile" = some (.str key))
    (hsaved : payload.lookup "preview_original_overrides" = some saved.json)
    (hkey : resolveProfileKey host (.str key) (profileKeys settings) = .ok key)
    (hagain : validateOverrides host (buildAllowlists settings)
      ⟨saved.json, saved.isDict⟩ = .ok again) (userId : Uuid)
    (idempotencyKey : String) (id : Uuid) (now : DateTime) :
    ∃ final, validateRequest host settings
        (finalRequest original payload userId idempotencyKey id now) = .ok final ∧
      ∀ k, final.inputs.lookup k =
        if k = "is_preview" then some (.bool false)
        else if k = "model_overrides" then some again.json
        else if k = "model_profile" then some (.str key)
        else (finalInputs original payload).lookup k := by
  obtain ⟨workflow, hworkflow⟩ := resolveWorkflow_v1 hkind
  have hget : (finalInputs original payload).get "model_profile" = .str key := by
    simp [Dict.get_eq_lookup, lookup_finalInputs, hprofile]
  have hsubtype : (⟨(finalInputs original payload).get "model_overrides",
      (finalInputs original payload).isDict_get _⟩ : { x : Json // x.IsDict }) =
        ⟨saved.json, saved.isDict⟩ :=
    Subtype.ext (by simp [Dict.get_eq_lookup, lookup_finalInputs, hsaved])
  rw [← hget] at hkey
  rw [← hsubtype] at hagain
  obtain ⟨after, hafter, hlookup⟩ := normaliseInputs_final hkey hagain
  have hplain : ((finalRequest original payload userId idempotencyKey id
      now).inputs.get "preview").truthy = false := by
    simp [finalRequest, Dict.get_eq_lookup, lookup_finalInputs, Json.truthy]
  exact ⟨_, validateRequest_comfyui hkind hworkflow (hplain ▸ hafter), hlookup⟩

/-- The two agree if and only if the overrides do. -/
theorem same_final_iff {plain final validated again : Dict} {key : String}
    {inputs : Dict}
    (hfree : inputs.lookup "preview_original_overrides" = none)
    (hrel : ∀ k, k ∉ ["preview_original_overrides", "is_preview",
      "model_overrides", "model_profile"] →
      Option.Rel Json.Same (payload.lookup k) (inputs.lookup k))
    (hplain : ∀ k, plain.lookup k =
      if k = "is_preview" then some (.bool false)
      else if k = "model_overrides" then some validated.json
      else if k = "model_profile" then some (.str key)
      else if k = "preview" then none
      else inputs.lookup k)
    (hfinal : ∀ k, final.lookup k =
      if k = "is_preview" then some (.bool false)
      else if k = "model_overrides" then some again.json
      else if k = "model_profile" then some (.str key)
      else (finalInputs original payload).lookup k) :
    final.json.Same (plain.set "preview_of" (.str (uuidText original.id))
      (.str _)).json ↔ again.json.Same validated.json := by
  rw [Dict.same_json_iff]
  constructor
  · intro h
    have hoverrides := h "model_overrides"
    rw [hfinal, Dict.lookup_set, hplain] at hoverrides
    simp at hoverrides
    exact hoverrides
  · intro h k
    rw [hfinal, Dict.lookup_set, hplain, lookup_finalInputs]
    by_cases hflag : k = "is_preview"
    · simp [hflag, Json.same_refl]
    by_cases hoverrides : k = "model_overrides"
    · simp [hoverrides, h]
    by_cases hprofile : k = "model_profile"
    · simp [hprofile, Json.same_refl]
    by_cases hof : k = "preview_of"
    · simp [hof, Json.same_refl]
    by_cases horiginal : k = "preview_original_overrides"
    · simp [horiginal, hfree]
    by_cases hpreview : k = "preview"
    · simp [hpreview]
    · have hkept := hrel k (by simp [horiginal, hflag, hoverrides, hprofile])
      simpa [hflag, hoverrides, hprofile, hof, horiginal, hpreview] using hkept

/-- What is stored under a key for a dict that was inserted there. -/
theorem exists_saved (h : StoredAs (r.job v) original payload) {k : String}
    {validated : Dict} (hk : v.inputs.lookup k = some validated.json) :
    ∃ saved : Dict, payload.lookup k = some saved.json ∧
      saved.json.Same validated.json := by
  have hrel := h.rel k
  rw [hk] at hrel
  cases hx : payload.lookup k with
  | none =>
      rw [hx] at hrel
      cases hrel
  | some x =>
      rw [hx] at hrel
      have hisDict : x.IsDict := Json.isDict_of_lookup payload.isDict hx
      cases hrel with
      | some hsame =>
          cases hsame with
          | obj hkeys => exact ⟨⟨_, hisDict⟩, rfl, .obj hkeys⟩

/-- The overrides are the same after the second validation exactly if the text is
not cut again. -/
theorem same_again_iff {overrides validated again : Dict}
    (h : validateOverrides host (buildAllowlists settings)
      ⟨overrides.json, overrides.isDict⟩ = .ok validated)
    (hkept : ∀ field, again.lookup field =
      kept (overrideVerdict host (buildAllowlists settings)
        (storedOverrides settings false validated)) field) :
    again.json.Same validated.json ↔
      StaysCut host settings.comfyOverrideMaxNegativePromptChars overrides := by
  constructor
  · intro hsame
    exact (of_same_again h hkept hsame).2
  · intro hcut
    have hsteps : false = true → PreviewStepsInRange settings := by
      intro hfalse
      cases hfalse
    refine Dict.same_json (fun field => ?_)
    rw [hkept, lookup_again h hsteps hcut]
    rfl

/-- **When the job of full quality has the payload it would have had without a
preview**: exactly if the negative prompt is not cut a second time.  Of the keys of
the bookkeeping the inputs may have the other two. -/
theorem finalized_iff {job : QueuedJob} (hkind : r.workflowName ∈ kindsForBackend .comfyui)
    (hpreview : (r.inputs.get "preview").truthy = true)
    (hfree : r.inputs.lookup "preview_original_overrides" = none)
    (hinsert : MayInsert job (admitGenerationJob host settings r))
    (hstored : StoredAs job original payload)
    (hsucceeded : original.state = .succeeded) (idempotencyKey : String)
    (id : Uuid) (now : DateTime) :
    FinalizedAs host settings r job original idempotencyKey id now ↔
      GivenOverrides
        (StaysCut host settings.comfyOverrideMaxNegativePromptChars) r.inputs := by
  obtain ⟨calls, next, hpath⟩ := hinsert
  obtain ⟨v, hv, rfl⟩ := validated_of_insert hpath
  obtain ⟨hafter, -⟩ := of_validateRequest_comfyui hkind hv
  rw [hpreview] at hafter
  obtain ⟨key, validated, hkey, hvalidated, -, hlookup⟩ :=
    lookup_normaliseInputs hafter
  obtain ⟨overrides, hoverrides, hgiven⟩ := given_of_validateOverrides hvalidated
  have horiginal : v.inputs.lookup "preview_original_overrides" =
      some validated.json := by simp [hlookup]
  obtain ⟨saved, hsaved, hsame⟩ := exists_saved hstored horiginal
  obtain ⟨again, hagain, hkept⟩ := validate_saved hoverrides hsame
  have hprofile : payload.lookup "model_profile" = some (.str key) :=
    hstored.lookup_eq (fun x hx => by cases hx; rfl) (by simp [hlookup])
  have hflag : payload.lookup "is_preview" = some (.bool true) :=
    hstored.lookup_eq (fun x hx => by cases hx; rfl) (by simp [hlookup])
  obtain ⟨plain, hplain, hplainLookup⟩ :=
    validateRequest_withoutPreview hkind hv hkey hvalidated
  have hkind' : original.kind ∈ kindsForBackend .comfyui := by
    rw [hstored.kind]
    exact hkind
  obtain ⟨final, hfinal, hfinalLookup⟩ := validateRequest_final hkind' hprofile
    hsaved (resolveProfileKey_again hkey) hagain r.userId idempotencyKey id now
  have hpreviewFlag := previewFlag_stored hstored
  rw [hflag] at hpreviewFlag
  have hrequest := finalizeRequest_stored hstored hpreviewFlag idempotencyKey id now
  rw [if_neg (by simp [Json.truthy]), if_pos hsucceeded] at hrequest
  have hinserts : ∀ job, MayInsert job (finalizeGeneration host settings
      (some original) r.userId idempotencyKey id now) ↔
        MayInsert job (admitGenerationJob host settings (finalRequest original
          payload r.userId idempotencyKey id now)) := by
    intro job
    unfold finalizeGeneration
    rw [hrequest]
    exact mayInsert_bind
  have hrel : ∀ k, k ∉ ["preview_original_overrides", "is_preview",
      "model_overrides", "model_profile"] →
      Option.Rel Json.Same (payload.lookup k) (r.inputs.lookup k) := by
    intro k hk
    have hstoredRel := hstored.rel k
    rw [hlookup] at hstoredRel
    simp only [List.mem_cons, List.not_mem_nil, or_false, not_or] at hk
    simpa [hk] using hstoredRel
  have hagree := same_final_iff hfree hrel hplainLookup hfinalLookup
  rw [hstored.id, same_again_iff hoverrides hkept, hgiven] at hagree
  rw [← hagree]
  constructor
  · intro h
    exact h.same (mayInsert_job hplain) ((hinserts _).mpr (mayInsert_job hfinal))
      rfl
  · intro h
    constructor
    case admitted => exact ⟨_, mayInsert_job hplain⟩
    case finalized => exact ⟨_, (hinserts _).mpr (mayInsert_job hfinal)⟩
    case same =>
      intro plainJob finalJob stored hplainJob hfinalJob hpayload
      obtain ⟨_, _, hplainPath⟩ := hplainJob
      obtain ⟨_, _, hfinalPath⟩ := (hinserts _).mp hfinalJob
      obtain ⟨_, hplain', rfl⟩ := validated_of_insert hplainPath
      obtain ⟨_, hfinal', rfl⟩ := validated_of_insert hfinalPath
      rw [hplain] at hplain'
      rw [hfinal] at hfinal'
      cases hplain'
      cases hfinal'
      obtain rfl : plain.inputs = stored := Dict.json_inj hpayload
      exact h

end Finalize

/-- The job, once it has succeeded. -/
def QueuedJob.finished (job : QueuedJob) : QueuedJob :=
  { job with state := .succeeded }

theorem storedAs_finished {job : QueuedJob} {payload : Dict}
    (h : job.inputPayload = payload.json) : StoredAs job job.finished payload where
  identity := by
    unfold QueuedJob.identity QueuedJob.identityAs
    rw [← h]
    rfl
  same := h ▸ Json.same_refl _

/-- The preview of a cat is finalised as it was asked for. -/
theorem finalized_preview :
    FinalizedAs plainHost {} previewRequest (previewJob {}) (previewJob {}).finished
      "final-1" 2 5 := by
  have hinsert : MayInsert (previewJob {})
      (admitGenerationJob plainHost {} previewRequest) :=
    ⟨_, _, path_follow emptyAnswer 4 (admitGenerationJob plainHost {} previewRequest)⟩
  have hstored : StoredAs (previewJob {}) (previewJob {}).finished
      (previewPayload {}) := storedAs_finished rfl
  have hnone : previewRequest.inputs.get "model_overrides" = .null := rfl
  refine (finalized_iff (by decide) rfl rfl hinsert hstored rfl _ _ _).mpr ?_
  intro overrides hoverrides
  rw [hnone] at hoverrides
  cases hoverrides

/-- A limit below zero, which cuts a text from behind. -/
def cutFromBehind : Settings := { comfyOverrideMaxNegativePromptChars := -1 }

/-- A preview with a negative prompt. -/
def abcRequest : AdmissionRequest :=
  pictureRequest ((catInputs.set "preview" (.bool true) (.bool true)).set
    "model_overrides" (.obj [("negative_prompt", .str "abc")]) (by decide))

/-- What the admission makes of its inputs. -/
def abcPayload : Dict :=
  (((abcRequest.inputs.set "model_profile" (.str "student") (.str _)).set
    "model_overrides" (.obj [("negative_prompt", .str "ab"), ("steps", .int 6)])
      (by decide)).set "is_preview" (.bool true) (.bool _)).set
        "preview_original_overrides" (.obj [("negative_prompt", .str "ab")])
          (by decide)

/-- The preview, as it is inserted. -/
def abcPreview : QueuedJob :=
  newJob 1 7 "image_basic" "retry-1" abcPayload.json none 0

/-- What `finalize_generation` stores for it. -/
def abcFinal : Dict :=
  (((finalInputs abcPreview.finished abcPayload).set "model_profile"
    (.str "student") (.str _)).set "model_overrides"
      (.obj [("negative_prompt", .str "a")]) (by decide)).set
        "is_preview" (.bool false) (.bool _)

/-- Of `abc` the preview has `ab`, and the job of full quality has `a`. -/
theorem not_finalized_abc :
    ((admitGenerationJob plainHost cutFromBehind abcRequest).run
      InMemoryJobQueue.admissionAnswer InMemoryJobQueue.empty).2.jobs.rows =
        [abcPreview] ∧
    ((finalizeGeneration plainHost cutFromBehind (some abcPreview.finished) 7
      "final-1" 2 5).run InMemoryJobQueue.admissionAnswer
        InMemoryJobQueue.empty).2.jobs.rows =
        [newJob 2 7 "image_basic" "final-1" abcFinal.json none 5] ∧
    ¬ FinalizedAs plainHost cutFromBehind abcRequest abcPreview abcPreview.finished
      "final-1" 2 5 := by
  refine ⟨rfl, rfl, fun h => ?_⟩
  have hplain : ∃ plain,
      validateRequest plainHost cutFromBehind abcRequest.withoutPreview = .ok plain ∧
        plain.inputs.lookup "model_overrides" =
          some (.obj [("negative_prompt", .str "ab")]) := ⟨_, rfl, rfl⟩
  obtain ⟨plain, hplain, hkept⟩ := hplain
  have hfinal : MayInsert (newJob 2 7 "image_basic" "final-1" abcFinal.json none 5)
      (finalizeGeneration plainHost cutFromBehind (some abcPreview.finished) 7
        "final-1" 2 5) :=
    ⟨_, _, path_follow emptyAnswer 4 (finalizeGeneration plainHost cutFromBehind
      (some abcPreview.finished) 7 "final-1" 2 5)⟩
  have hsame : abcFinal.json.Same _ := h.same (mayInsert_job hplain) hfinal rfl
  have hoverrides := Dict.same_json_iff.mp hsame "model_overrides"
  have hcut : abcFinal.lookup "model_overrides" =
      some (.obj [("negative_prompt", .str "a")]) := rfl
  rw [hcut, Dict.lookup_set, if_neg (by decide), hkept] at hoverrides
  cases hoverrides with
  | some htexts =>
      cases htexts with
      | obj hkeys =>
          have htext : Option.Rel Json.Same (some (.str "a")) (some (.str "ab")) :=
            hkeys "negative_prompt"
          simp only [Option.rel_some_some] at htext
          generalize hab : "ab" = text at htext
          cases htext
          simp at hab

/-! ## What counts as a preview -/

/-- Does the request ask for a preview, of a workflow that has them? -/
def AdmissionRequest.AsksPreview (r : AdmissionRequest) : Prop :=
  (r.inputs.get "preview").truthy = true ∧
    r.workflowName ∈ kindsForBackend .comfyui

/-- The steps in the overrides of a payload. -/
def QueuedJob.storedSteps (job : QueuedJob) : Option Json :=
  match job.inputPayload with
  | .obj members =>
      match Json.lookup "model_overrides" members with
      | some (.obj overrides) => Json.lookup "steps" overrides
      | _ => none
  | _ => none

/-- The job counts as a preview exactly if its request asked for one, which then has
the steps of a preview. -/
structure CountsAsPreview (host : AdmissionHost) (settings : Settings)
    (r : AdmissionRequest) (original : QueuedJob) : Prop where
  replayed (other : AdmissionRequest) (w : Validated) :
    canonicalPayloadHash host w.inputs.json =
      canonicalPayloadHash host original.inputPayload →
    ∃ result, afterLookup host settings other w (some original) =
      .done (.ok result) ∧ (result.isPreview = true ↔ r.AsksPreview)
  shown (rank : Uuid → List String → Option Nat) :
    ∃ out, getJob settings rank (some original) r.userId = .ok out ∧
      (out.isPreview = true ↔ r.AsksPreview)
  accepted (idempotencyKey : String) (id : Uuid) (now : DateTime) :
    finalizeRequest (some original) r.userId idempotencyKey id now ≠
      .error (.http 400 "job is not a preview job") ↔ r.AsksPreview
  forced : r.AsksPreview → original.storedSteps = some (.int settings.previewSteps)

section Counting

variable {host : AdmissionHost} {settings : Settings} {r : AdmissionRequest}
  {original : QueuedJob} {payload : Dict} {v : Validated}

/-- What `finalize_generation` takes for a preview. -/
theorem accepted_iff {flag : Json} (h : StoredAs (r.job v) original payload)
    (hflag : original.previewFlag = .ok flag) (idempotencyKey : String) (id : Uuid)
    (now : DateTime) :
    finalizeRequest (some original) r.userId idempotencyKey id now ≠
      .error (.http 400 "job is not a preview job") ↔ flag.truthy = true := by
  rw [finalizeRequest_stored h hflag]
  by_cases htruthy : flag.truthy = true
  · by_cases hstate : original.state = .succeeded
    · simp [htruthy, hstate]
    · simp [htruthy, hstate]
  · simp [htruthy]

/-- What the owner is shown of a job. -/
theorem getJob_stored {flag : Json} (h : StoredAs (r.job v) original payload)
    (hflag : original.previewFlag = .ok flag)
    (rank : Uuid → List String → Option Nat) :
    ∃ out, getJob settings rank (some original) r.userId = .ok out ∧
      out.isPreview = flag.truthy := by
  unfold getJob
  rw [ownedJob_stored h]
  simp only [Bind.bind, Except.bind, Except.mapError, hflag]
  exact ⟨_, rfl, rfl⟩

/-- What a replay answers. -/
theorem afterLookup_replay {flag : Json} (hflag : original.previewFlag = .ok flag)
    (other : AdmissionRequest) {w : Validated}
    (hsame : canonicalPayloadHash host w.inputs.json =
      canonicalPayloadHash host original.inputPayload) :
    ∃ result, afterLookup host settings other w (some original) =
      .done (.ok result) ∧ result.isPreview = flag.truthy := by
  unfold QueuedJob.previewFlag at hflag
  unfold afterLookup checkIdempotency
  simp only [Option.map_some, if_pos hsame, replayResult, hflag]
  exact ⟨_, rfl, rfl⟩

/-- A job counts as a preview exactly if its flag is true. -/
theorem countsAsPreview_iff (h : StoredAs (r.job v) original payload) :
    CountsAsPreview host settings r original ↔
      (((payload.lookup "is_preview").getD (.bool false)).truthy = true ↔
        r.AsksPreview) ∧
      (r.AsksPreview →
        original.storedSteps = some (.int settings.previewSteps)) := by
  have hflag := previewFlag_stored h
  constructor
  · intro hcounts
    obtain ⟨out, hout, hiff⟩ := hcounts.shown (fun _ _ => none)
    obtain ⟨out', hout', hpreview⟩ := @getJob_stored settings r original payload v _
      h hflag (fun _ _ => none)
    rw [hout] at hout'
    cases hout'
    rw [hpreview] at hiff
    exact ⟨hiff, hcounts.forced⟩
  · rintro ⟨hiff, hforced⟩
    constructor
    case replayed =>
      intro other w hsame
      obtain ⟨result, hresult, hpreview⟩ := afterLookup_replay hflag other hsame
      exact ⟨result, hresult, by rw [hpreview, hiff]⟩
    case shown =>
      intro rank
      obtain ⟨out, hout, hpreview⟩ := getJob_stored h hflag rank
      exact ⟨out, hout, by rw [hpreview, hiff]⟩
    case accepted =>
      intro idempotencyKey id now
      rw [accepted_iff h hflag]
      exact hiff
    case forced => exact hforced

/-- Off the ComfyUI lane the inputs stay as they are, and there are no previews. -/
theorem of_validateRequest_gemini (hv : validateRequest host settings r = .ok v)
    (hkind : r.workflowName ∉ kindsForBackend .comfyui) :
    v.inputs = r.inputs ∧ ¬ r.AsksPreview := by
  refine ⟨?_, fun hasks => hkind hasks.2⟩
  have hworkflow := workflow_of_validateRequest hv
  unfold validateRequest at hv
  rw [hworkflow] at hv
  dsimp only at hv
  cases hbackend : v.workflow.backend with
  | comfyui =>
      have hlane := (backend_of_resolveWorkflow hworkflow).2
      rw [hbackend] at hlane
      exact absurd hlane hkind
  | gemini =>
      simp only [hbackend] at hv
      split at hv
      · cases hv
      · exact (congrArg Validated.inputs (Except.ok.inj hv)).symm

/-- On the ComfyUI lane the flag says whether a preview was asked for, … -/
theorem flag_comfyui (hv : validateRequest host settings r = .ok v)
    (hkind : r.workflowName ∈ kindsForBackend .comfyui)
    (h : StoredAs (r.job v) original payload) :
    (((payload.lookup "is_preview").getD (.bool false)).truthy = true ↔
      r.AsksPreview) ∧
    (r.AsksPreview → original.storedSteps = some (.int settings.previewSteps)) := by
  obtain ⟨hafter, -⟩ := of_validateRequest_comfyui hkind hv
  obtain ⟨key, validated, -, -, -, hlookup⟩ := lookup_normaliseInputs hafter
  constructor
  · have hflag : payload.lookup "is_preview" =
        some (.bool (r.inputs.get "preview").truthy) :=
      h.lookup_eq (fun x hx => by cases hx; rfl) (by simp [hlookup])
    rw [hflag]
    simp [Json.truthy, AdmissionRequest.AsksPreview, hkind]
  · rintro ⟨hpreview, -⟩
    have hstored : v.inputs.lookup "model_overrides" =
        some (storedOverrides settings true validated).json := by
      simp [hlookup, hpreview]
    obtain ⟨saved, hsaved, hsame⟩ := exists_saved h hstored
    have hsteps := Dict.same_json_iff.mp hsame "steps"
    rw [lookup_storedOverrides, if_pos ⟨rfl, rfl⟩] at hsteps
    unfold QueuedJob.storedSteps
    rw [h.inputPayload]
    unfold Dict.lookup at hsaved hsteps
    simp only [Dict.json, hsaved]
    generalize Json.lookup "steps" saved.members = o at hsteps ⊢
    cases hsteps with
    | some hsame =>
        cases hsame
        rfl

/-- … and off it whatever the client says. -/
theorem flag_gemini (hv : validateRequest host settings r = .ok v)
    (hkind : r.workflowName ∉ kindsForBackend .comfyui)
    (h : StoredAs (r.job v) original payload) :
    ((payload.lookup "is_preview").getD (.bool false)).truthy =
      (r.inputs.get "is_preview").truthy := by
  obtain ⟨hinputs, -⟩ := of_validateRequest_gemini hv hkind
  have hrel := h.rel "is_preview"
  rw [hinputs] at hrel
  rw [Dict.get_eq_lookup]
  generalize payload.lookup "is_preview" = x at hrel ⊢
  generalize r.inputs.lookup "is_preview" = y at hrel ⊢
  cases hrel with
  | none => rfl
  | some hsame => exact Json.truthy_of_same hsame

/-- **When a job counts as a preview exactly if it was admitted as one**: on the
ComfyUI lane always, and off it unless the client has set the flag. -/
theorem counted_iff {job : QueuedJob}
    (hinsert : MayInsert job (admitGenerationJob host settings r)) :
    (∀ original payload, StoredAs job original payload →
      CountsAsPreview host settings r original) ↔
    r.workflowName ∈ kindsForBackend .comfyui ∨
      (r.inputs.get "is_preview").truthy = false := by
  obtain ⟨calls, next, hpath⟩ := hinsert
  obtain ⟨v, hv, rfl⟩ := validated_of_insert hpath
  by_cases hkind : r.workflowName ∈ kindsForBackend .comfyui
  · refine iff_of_true (fun original payload h => ?_) (.inl hkind)
    exact (countsAsPreview_iff h).mpr (flag_comfyui hv hkind h)
  · have hasks : ¬ r.AsksPreview := (of_validateRequest_gemini hv hkind).2
    constructor
    · intro h
      have hself : StoredAs (r.job v) (r.job v) v.inputs :=
        ⟨rfl, Json.same_refl _⟩
      obtain ⟨hiff, -⟩ := (countsAsPreview_iff hself).mp (h _ _ hself)
      rw [flag_gemini hv hkind hself] at hiff
      right
      rw [← Bool.not_eq_true]
      exact fun htruthy => hasks (hiff.mp htruthy)
    · intro h original payload hstored
      have hfalse : (r.inputs.get "is_preview").truthy = false :=
        h.resolve_left hkind
      refine (countsAsPreview_iff hstored).mpr ⟨?_, fun h => absurd h hasks⟩
      rw [flag_gemini hv hkind hstored, hfalse]
      simp [hasks]

end Counting

/-- The preview of a cat, once it has succeeded, counts as one. -/
theorem counted_preview :
    CountsAsPreview plainHost {} previewRequest (previewJob {}).finished := by
  have hinsert : MayInsert (previewJob {})
      (admitGenerationJob plainHost {} previewRequest) :=
    ⟨_, _, path_follow emptyAnswer 4 (admitGenerationJob plainHost {} previewRequest)⟩
  have hstored : StoredAs (previewJob {}) (previewJob {}).finished
      (previewPayload {}) := storedAs_finished rfl
  exact (counted_iff hinsert).mpr (.inl (by decide)) _ _ hstored

/-- A poster whose client has set the flag. -/
def flaggedPoster : AdmissionRequest where
  id := 1
  userId := 7
  workflowName := "poster_infographic"
  workflowVersion := "v1"
  inputs := catInputs.set "is_preview" (.bool true) (.bool true)
  idempotencyKey := "retry-1"
  now := 0

/-- The job of the poster. -/
def posterJob : QueuedJob :=
  newJob 1 7 "poster_infographic" "retry-1" flaggedPoster.inputs.json none 0

/-- It is admitted, its owner is told that it is a preview, and when it has
succeeded `finalize_generation` takes it for one. -/
theorem not_counted_poster :
    ((admitGenerationJob plainHost {} flaggedPoster).run
      InMemoryJobQueue.admissionAnswer InMemoryJobQueue.empty).2.jobs.rows =
        [posterJob] ∧
    ((getJob {} (fun _ _ => none) (some posterJob) 7).map JobOut.isPreview =
      .ok true) ∧
    ((finalizeGeneration plainHost {} (some posterJob.finished) 7 "final-1" 2 5).run
      InMemoryJobQueue.admissionAnswer InMemoryJobQueue.empty).2.jobs.rows.map
        QueuedJob.kind = ["poster_infographic"] ∧
    ¬ flaggedPoster.AsksPreview ∧
    ¬ ∀ original payload, StoredAs posterJob original payload →
      CountsAsPreview plainHost {} flaggedPoster original := by
  have hasks : ¬ flaggedPoster.AsksPreview := fun h => absurd h.1 (by decide)
  refine ⟨rfl, rfl, rfl, hasks, fun h => ?_⟩
  have hself : StoredAs posterJob posterJob.finished flaggedPoster.inputs :=
    storedAs_finished rfl
  obtain ⟨out, hout, hiff⟩ := (h _ _ hself).shown (fun _ _ => none)
  have hpreview : (getJob {} (fun _ _ => none) (some posterJob.finished)
      flaggedPoster.userId).map JobOut.isPreview = .ok true := rfl
  rw [hout] at hpreview
  exact hasks (hiff.mp (Except.ok.inj hpreview))

end Imagin4.Ports
