import Imagin4.Ports.NestedClients
import Imagin4.Ports.PromptGraph

/-!
# Submitting what was admitted

`CompositeComfyUIClient.submit` over live workers, for the payloads that
`admit_generation_job` lets through.  Everything between the call and the HTTP
exchange is outside any handler: the designer's reading of `exact_text`, the size
and the seed of the graph.  The admission looks at none of the four, so that a
payload which is not `Submittable` is admitted, and raises on every attempt.

## Main results

* `normalised_normaliseInputs` — what an admission makes of the inputs.
* `returns_submit` — when a submission of normalised inputs raises nothing.
* `submits_iff` — for every admitted payload and every attempt.
-/

namespace Imagin4.Ports

open Imagin4.Verified
open Imagin4.Verified.Program

/-! ## What the admission leaves -/

section Admission

variable {host : AdmissionHost} {settings : Settings} {inputs after : Dict}
  {isPreview : Bool}

/-- The members that are read outside any handler and not validated. -/
def uncheckedKeys : List String :=
  ["exact_text", "skip_prompt_design", "aspect_ratio", "resolution", "seed"]

/-- These members are as they were. -/
def Dict.SameInputs (inputs after : Dict) : Prop :=
  ∀ key ∈ uncheckedKeys, after.get key = inputs.get key

theorem Dict.SameInputs.set (h : inputs.SameInputs after) {key : String}
    (hkey : key ∉ uncheckedKeys) (x : Json) (hx : x.IsDict) :
    inputs.SameInputs (after.set key x hx) := by
  intro k hk
  have hne : k ≠ key := fun heq => hkey (heq ▸ hk)
  rw [Dict.get_set, if_neg hne]
  exact h k hk

/-- Another member may be written. -/
theorem Dict.Normalised.set (h : after.Normalised) {key : String}
    (hprofile : key ≠ "model_profile") (hoverrides : key ≠ "model_overrides")
    (x : Json) (hx : x.IsDict) : (after.set key x hx).Normalised where
  modelProfile := by
    rw [Dict.get_set, if_neg (Ne.symm hprofile)]
    exact h.modelProfile
  modelOverrides := by
    rw [Dict.get_set, if_neg (Ne.symm hoverrides)]
    exact h.modelOverrides

/-- A profile and overrides that were validated are written. -/
theorem normalised_set (inputs : Dict) (key : String) {overrides : Dict}
    (h : overrides.Typed) (hx : overrides.json.IsDict) :
    ((inputs.set "model_profile" (.str key) (.str key)).set "model_overrides"
      overrides.json hx).Normalised where
  modelProfile := by
    rw [Dict.get_set, if_neg (by decide), Dict.get_set, if_pos rfl]
    exact ⟨key, rfl⟩
  modelOverrides := by
    rw [Dict.get_set, if_pos rfl]
    exact ⟨overrides, h, rfl⟩

theorem normalised_normaliseInputs
    (h : normaliseInputs host settings inputs isPreview = .ok after) :
    after.Normalised ∧ inputs.SameInputs after := by
  unfold normaliseInputs at h
  obtain ⟨key, _, h⟩ := bind_eq_ok.mp h
  obtain ⟨validated, hvalidated, h⟩ := bind_eq_ok.mp h
  have htyped : validated.Typed := typed_validateOverrides hvalidated
  have hsame : ∀ (overrides : Dict) (hx : overrides.json.IsDict),
      inputs.SameInputs ((inputs.set "model_profile" (.str key) (.str key)).set
        "model_overrides" overrides.json hx) := by
    intro overrides hx
    have hrefl : inputs.SameInputs inputs := fun _ _ => rfl
    exact (hrefl.set (by decide) _ _).set (by decide) _ _
  split at h
  · cases h
  · cases isPreview with
    | false =>
        cases h
        refine ⟨?_, (hsame validated validated.isDict).set (by decide) _
          (.bool false)⟩
        exact (normalised_set inputs key htyped validated.isDict).set (by decide)
          (by decide) _ (.bool false)
    | true =>
        cases h
        have hsteps : (validated.set "steps" (.int settings.previewSteps)
            (.int settings.previewSteps)).Typed := htyped.set ⟨_, rfl⟩
        refine ⟨?_, ?_⟩
        · exact ((normalised_set inputs key hsteps (Dict.isDict _)).set (by decide)
            (by decide) _ (.bool true)).set (by decide) (by decide) _
              validated.isDict
        · exact ((hsame _ (Dict.isDict _)).set (by decide) _ (.bool true)).set
            (by decide) _ validated.isDict

/-- A kind of the ComfyUI lane is one of these three. -/
theorem backend_of_kind {name version : String} {workflow : WorkflowDefinition}
    (hkind : name ∈ kindsForBackend .comfyui)
    (h : resolveWorkflow name version = some workflow) :
    workflow.backend = .comfyui :=
  kindsForBackend_disjoint (backend_of_resolveWorkflow h).2 hkind

theorem resolveBackend_of_kind {kind : String}
    (hkind : kind ∈ kindsForBackend .comfyui) :
    resolveBackend (some kind) = .comfyui := by
  unfold resolveBackend
  dsimp only
  split
  · rfl
  · rename_i workflow hworkflow
    exact backend_of_kind hkind hworkflow

/-- An admission inserts the job of a request it has validated. -/
theorem validated_of_insert {r : AdmissionRequest} {job : QueuedJob}
    {calls : List (Sigma AdmissionCall.Answer)}
    {next : Except PyError Unit → AdmissionProgram}
    (hpath : Path (admitGenerationJob host settings r) calls
      (.call (.enqueue job) next)) :
    ∃ v, validateRequest host settings r = .ok v ∧ job = r.job v := by
  have hstage : AdmissionStage host settings r (fun _ => True) True True
      (.call (.enqueue job) next) :=
    path_keeps (fun _ _ answer h => stage_next h answer) hpath
      (stage_admitGenerationJob (fun _ _ => trivial))
  cases hstage with
  | insert v position hv _ _ => exact ⟨v, hv, rfl⟩

/-- On the ComfyUI lane a validation normalises the inputs. -/
theorem of_validateRequest_comfyui {r : AdmissionRequest} {v : Validated}
    (hkind : r.workflowName ∈ kindsForBackend .comfyui)
    (hv : validateRequest host settings r = .ok v) :
    normaliseInputs host settings r.inputs (r.inputs.get "preview").truthy =
        .ok v.inputs ∧
      v.isPreview = (r.inputs.get "preview").truthy := by
  unfold validateRequest at hv
  split at hv
  · cases hv
  · rename_i workflow hworkflow
    dsimp only at hv
    rw [backend_of_kind hkind hworkflow] at hv
    dsimp only at hv
    split at hv
    · rename_i after hafter
      cases hv
      exact ⟨hafter, rfl⟩
    · cases hv

/-- The job of an admission carries the normalised inputs. -/
theorem normalised_of_insert {r : AdmissionRequest} {job : QueuedJob}
    {calls : List (Sigma AdmissionCall.Answer)}
    {next : Except PyError Unit → AdmissionProgram}
    (hpath : Path (admitGenerationJob host settings r) calls
      (.call (.enqueue job) next))
    (hkind : r.workflowName ∈ kindsForBackend .comfyui) :
    job.kind = r.workflowName ∧ ∃ after : Dict, job.inputPayload = after.json ∧
      after.Normalised ∧ r.inputs.SameInputs after := by
  obtain ⟨v, hv, rfl⟩ := validated_of_insert hpath
  obtain ⟨hafter, -⟩ := of_validateRequest_comfyui hkind hv
  exact ⟨rfl, v.inputs, rfl, normalised_normaliseInputs hafter⟩

end Admission

/-! ## Submissions -/

namespace Json

/-- Can the value, or the empty list that replaces a falsy one, be iterated?  A
number or a truth value cannot. -/
def usableList : Json → Bool
  | bool b => !b
  | int n => n = 0
  | float x => !(float x).truthy
  | _ => true

theorem returns_iter_orElse (x : Json) :
    Returns ((x.orElse (.arr [])).iter) ↔ x.usableList = true := by
  have hnil : Returns ((arr []).iter) := returns_ok []
  cases x with
  | null => exact iff_of_true hnil rfl
  | bool b =>
      cases b with
      | false => exact iff_of_true hnil rfl
      | true => exact iff_of_false (not_returns_error _) Bool.false_ne_true
  | int n =>
      by_cases hn : n = 0
      · rw [hn]
        exact iff_of_true hnil rfl
      · have htruthy : (int n).orElse (.arr []) = int n := by
          simp [orElse, truthy, hn]
        rw [htruthy]
        refine iff_of_false (not_returns_error _) ?_
        simp [usableList, hn]
  | float v =>
      unfold orElse
      cases htruthy : (float v).truthy with
      | false => exact iff_of_true hnil (by simp [usableList, htruthy])
      | true =>
          refine iff_of_false (not_returns_error _) ?_
          simp [usableList, htruthy]
  | str s =>
      refine iff_of_true ?_ rfl
      unfold orElse
      split
      · exact returns_ok _
      · exact hnil
  | arr items =>
      refine iff_of_true ?_ rfl
      unfold orElse
      split
      · exact returns_ok _
      · exact hnil
  | obj members =>
      refine iff_of_true ?_ rfl
      unfold orElse
      split
      · exact returns_ok _
      · exact hnil

end Json

theorem withMember_eq_setMember (key : String) (x : Json)
    (members : List (String × Json)) :
    withMember key x members = Json.setMember key x members := by
  induction members with
  | nil => rfl
  | cons m rest ih =>
      obtain ⟨k, v⟩ := m
      unfold withMember Json.setMember
      by_cases hk : k = key
      · rw [if_pos hk, if_pos hk, hk]
      · rw [if_neg hk, if_neg hk, ih]

/-- A payload no part of a submission raises on.  `exact_text` is read for a
prompt designer only, and not for a payload that wants none. -/
structure Dict.Submittable (host : AdmissionHost) (designs : Bool)
    (payload : Dict) : Prop extends payload.Drawable host where
  exactText : designs = true →
    (payload.get "skip_prompt_design").truthy = false →
    (payload.get "exact_text").usableList = true

section Congruence

variable {host : AdmissionHost} {inputs after : Dict}

theorem drawable_congr (h : inputs.SameInputs after) :
    after.Drawable host ↔ inputs.Drawable host := by
  have haspect := h "aspect_ratio" (by decide)
  have hresolution := h "resolution" (by decide)
  have hseed := h "seed" (by decide)
  constructor
  · rintro ⟨h1, h2, h3⟩
    rw [haspect] at h1
    rw [hresolution] at h2
    rw [hseed] at h3
    exact ⟨h1, h2, h3⟩
  · rintro ⟨h1, h2, h3⟩
    rw [← haspect] at h1
    rw [← hresolution] at h2
    rw [← hseed] at h3
    exact ⟨h1, h2, h3⟩

theorem submittable_iff {designs : Bool} :
    inputs.Submittable host designs ↔ (designs = true →
      (inputs.get "skip_prompt_design").truthy = false →
      (inputs.get "exact_text").usableList = true) ∧ inputs.Drawable host :=
  ⟨fun h => ⟨h.exactText, h.toDrawable⟩, fun h => ⟨h.2, h.1⟩⟩

theorem submittable_congr {designs : Bool} (h : inputs.SameInputs after) :
    after.Submittable host designs ↔ inputs.Submittable host designs := by
  rw [submittable_iff, submittable_iff, drawable_congr h,
    h "skip_prompt_design" (by decide), h "exact_text" (by decide)]

end Congruence

section Submission

variable {γ ω' : Type} {host : AdmissionHost} {G : ClientPort γ ω'}
  {A : NestedClient LiveComfyUIClient γ} {payload : Dict}

/-- When reading `exact_text` raises nothing. -/
theorem returns_exactTexts (payload : Dict) :
    Returns (exactTexts payload.members) ↔
      (payload.get "exact_text").usableList = true := by
  rw [← Json.returns_iter_orElse]
  exact returns_bind_of_forall (fun _ => returns_ok _)

/-- When the design step raises nothing: the designer itself is caught. -/
theorem returns_designedPayload :
    Returns (A.designedPayload host.toHost payload.members) ↔
      (A.designer.isSome = true →
        (payload.get "skip_prompt_design").truthy = false →
        (payload.get "exact_text").usableList = true) := by
  rw [← returns_exactTexts]
  unfold NestedClient.designedPayload
  cases A.designer with
  | none => exact iff_of_true (returns_ok _) (fun h => by cases h)
  | some design =>
      show Returns (if (payload.get "skip_prompt_design").truthy = true then _
        else _) ↔ _
      by_cases hskip : (payload.get "skip_prompt_design").truthy = true
      · rw [if_pos hskip]
        refine iff_of_true (returns_ok _) (fun _ hfalse => ?_)
        rw [hskip] at hfalse
        cases hfalse
      · rw [if_neg hskip]
        have hskip := Bool.eq_false_iff.mpr hskip
        cases exactTexts payload.members with
        | error exc =>
            exact iff_of_false (not_returns_error exc)
              (fun h => not_returns_error exc (h rfl hskip))
        | ok exactText =>
            refine iff_of_true ?_ (fun _ _ => returns_ok exactText)
            dsimp only
            split
            · exact returns_ok _
            · split
              · exact returns_ok _
              · exact returns_ok _

/-- The designer may have written another prompt, and nothing else. -/
theorem designedPayload_eq {designed : List (String × Json)}
    (h : A.designedPayload host.toHost payload.members = .ok designed) :
    designed = payload.members ∨ ∃ text, designed =
      (payload.set "prompt" (.str text) (.str text)).members := by
  unfold NestedClient.designedPayload at h
  split at h
  · cases h
    exact .inl rfl
  · split at h
    · cases h
      exact .inl rfl
    · split at h
      · cases h
      · dsimp only at h
        split at h
        · cases h
          exact .inl rfl
        · split at h
          · rename_i text _
            cases h
            exact .inr ⟨text, withMember_eq_setMember _ _ _⟩
          · cases h
            exact .inl rfl

/-- The services of a live worker whose graphs are built with this
configuration. -/
def LiveConfig.services (host : AdmissionHost) (config : LiveConfig)
    (randomSeed : Nat) (filenamePrefix : String)
    (rest : LiveComfyUIClient.LiveServices) : LiveComfyUIClient.LiveServices :=
  { rest with graph := config.graph host randomSeed filenamePrefix }

/-- A worker raises what its graph builder raises, and nothing else. -/
theorem returns_port_submit (services : LiveComfyUIClient.LiveServices)
    (uuid : HexId) (members : List (String × Json)) (kind : Option String)
    (worker : LiveComfyUIClient) :
    Returns ((LiveComfyUIClient.port host.toHost services).submit uuid members
      kind worker).1 ↔ Returns (services.graph members) := by
  have hsubmit : Returns (worker.submit host.toHost (services.graph members)
      (services.post worker.baseUrl) uuid.1 members) ↔
      Returns (services.graph members) := by
    unfold LiveComfyUIClient.submit
    refine returns_bind_of_forall (fun graph => ?_)
    split
    · exact returns_ok _
    · split
      · exact returns_ok _
      · exact returns_ok _
  rw [← hsubmit]
  unfold LiveComfyUIClient.port
  dsimp only
  cases worker.submit host.toHost (services.graph members)
      (services.post worker.baseUrl) uuid.1 members with
  | error exc => exact iff_of_false (not_returns_error exc) (not_returns_error exc)
  | ok r => exact iff_of_true (returns_ok _) (returns_ok r)

theorem returns_graph (config : LiveConfig) (h : payload.Normalised)
    (randomSeed : Nat) (filenamePrefix : String) :
    Returns (config.graph host randomSeed filenamePrefix payload.members) ↔
      payload.Drawable host := by
  unfold LiveConfig.graph
  rw [dif_pos payload.isDict]
  exact returns_buildPromptGraph h randomSeed filenamePrefix

/-- **When a submission raises nothing**, of inputs as an admission leaves
them. -/
theorem returns_submit (h : payload.Normalised) {kind : Option String}
    (hkind : resolveBackend kind = .comfyui) (config : LiveConfig)
    (randomSeed : Nat) (filenamePrefix : String)
    (rest : LiveComfyUIClient.LiveServices) (uuid : HexId) :
    Returns (A.submit host.toHost (LiveComfyUIClient.port host.toHost
      (config.services host randomSeed filenamePrefix rest)) G uuid
        payload.members kind).1 ↔
      payload.Submittable host A.designer.isSome := by
  rw [submittable_iff, ← returns_designedPayload (A := A)]
  unfold NestedClient.submit
  simp only [hkind]
  cases hdesigned : A.designedPayload host.toHost payload.members with
  | error exc =>
      exact iff_of_false (not_returns_error exc)
        (fun h => not_returns_error exc h.1)
  | ok designed =>
      have hworker : Returns ((LiveComfyUIClient.port host.toHost
          (config.services host randomSeed filenamePrefix rest)).submit uuid
            designed kind A.comfyui.next).1 ↔ payload.Drawable host := by
        rw [returns_port_submit]
        rcases designedPayload_eq hdesigned with rfl | ⟨text, rfl⟩
        · exact returns_graph config h randomSeed filenamePrefix
        · have hsame : payload.SameInputs
              (payload.set "prompt" (.str text) (.str text)) :=
            Dict.SameInputs.set (fun _ _ => rfl) (by decide) _ _
          rw [← drawable_congr hsame]
          exact returns_graph config
            (h.set (by decide) (by decide) (.str text) (.str text)) randomSeed
            filenamePrefix
      dsimp only
      rw [returns_map]
      unfold Workers.submit
      dsimp only
      rw [returns_map, hworker]
      exact ⟨fun hdrawable => ⟨returns_ok designed, hdrawable⟩, fun h => h.2⟩

/-! ## What was admitted -/

/-- A submission returns an id, and if ComfyUI never got the prompt, every client
of the same workers reports the reason as a failure. -/
def Submits (host : Host) (services : LiveComfyUIClient.LiveServices)
    (G : ClientPort γ ω') (A : NestedClient LiveComfyUIClient γ) (uuid : HexId)
    (members : List (String × Json)) (kind : Option String) : Prop :=
  ∃ promptId,
    (A.submit host (LiveComfyUIClient.port host services) G uuid members kind).1 =
      .ok promptId ∧
    ∀ (B : NestedClient LiveComfyUIClient γ) (designed : List (String × Json))
      (reason : String),
      A.names (LiveComfyUIClient.port host services) G =
        B.names (LiveComfyUIClient.port host services) G →
      A.designedPayload host members = .ok designed →
      LiveComfyUIClient.localFailure host services A.comfyui.next.baseUrl designed =
        some reason →
      B.getStatus host (LiveComfyUIClient.port host services) G promptId =
        (.ok ⟨promptId, failedStatus reason⟩, B)

/-- A submission that raises nothing reports its failures later. -/
theorem submits_iff_returns {host : Host}
    {services : LiveComfyUIClient.LiveServices} {uuid : HexId}
    {members : List (String × Json)} {kind : Option String}
    (hkind : resolveBackend kind = .comfyui) :
    Submits host services G A uuid members kind ↔
      Returns (A.submit host (LiveComfyUIClient.port host services) G uuid members
        kind).1 := by
  constructor
  · rintro ⟨promptId, hsubmit, _⟩
    exact ⟨promptId, hsubmit⟩
  · rintro ⟨promptId, hsubmit⟩
    refine ⟨promptId, hsubmit, ?_⟩
    intro B designed reason hnames hdesigned hreason
    obtain ⟨promptId', hsubmit', hstatus⟩ :=
      getStatus_of_localFailure hnames uuid hkind hdesigned hreason
    rw [hsubmit] at hsubmit'
    cases hsubmit'
    exact hstatus

/-- **Every admitted payload, on every attempt.**  The submission of the job an
admission inserts returns, and reports later what went wrong, exactly if the
inputs are `Submittable`; nothing else of the attempt matters. -/
theorem submits_iff {settings : Settings} {r : AdmissionRequest} {job : QueuedJob}
    {calls : List (Sigma AdmissionCall.Answer)}
    {next : Except PyError Unit → AdmissionProgram}
    (hpath : Path (admitGenerationJob host settings r) calls
      (.call (.enqueue job) next))
    (hkind : r.workflowName ∈ kindsForBackend .comfyui)
    {members : List (String × Json)} (hmembers : job.inputPayload = .obj members)
    (config : LiveConfig) (randomSeed : Nat) (filenamePrefix : String)
    (rest : LiveComfyUIClient.LiveServices) (G : ClientPort γ ω')
    (A : NestedClient LiveComfyUIClient γ) (uuid : HexId) :
    Submits host.toHost (config.services host randomSeed filenamePrefix rest) G A
        uuid members (some job.kind) ↔
      r.inputs.Submittable host A.designer.isSome := by
  obtain ⟨hjob, after, hafter, hnormalised, hsame⟩ :=
    normalised_of_insert hpath hkind
  rw [hafter] at hmembers
  cases hmembers
  have hbackend : resolveBackend (some job.kind) = .comfyui := by
    rw [hjob]
    exact resolveBackend_of_kind hkind
  rw [submits_iff_returns hbackend, ← submittable_congr hsame]
  exact returns_submit hnormalised hbackend config randomSeed filenamePrefix rest
    uuid

end Submission

/-! ## A seed that is no number -/

/-- A request for a picture of these inputs. -/
def pictureRequest (inputs : Dict) : AdmissionRequest where
  id := 1
  userId := 7
  workflowName := "image_basic"
  workflowVersion := "v1"
  inputs := inputs
  idempotencyKey := "retry-1"
  now := 0

/-- The answers of an empty queue. -/
def emptyAnswer : (c : AdmissionCall) → c.Answer
  | .findByIdempotencyKey _ _ _ => none
  | .enqueue _ => .ok ()
  | .countGlobalBacklog => (0 : Nat)
  | .countConversationBacklog _ => (0 : Nat)
  | .countUserBacklog _ => (0 : Nat)
  | .countBacklogForKinds _ => (0 : Nat)

/-- What the admission makes of the inputs with these members. -/
def admittedPicture (members : List (String × Json)) : List (String × Json) :=
  members ++ [("model_profile", .str "student"), ("model_overrides", .obj []),
    ("is_preview", .bool false)]

/-- The job of the request, as it is inserted. -/
def pictureJob (members : List (String × Json)) : QueuedJob :=
  newJob 1 7 "image_basic" "retry-1" (.obj (admittedPicture members)) none 0

/-- A picture of a cat is admitted, and submitted. -/
theorem submits_cat :
    Submits plainHost.toHost ((LiveConfig.build {} {}).services plainHost 5
      "imaginv-ab" unreachableWorkers) noImages (twoWorkers 0) ⟨"ab", by simp⟩
        (admittedPicture catInputs.members) (some "image_basic") := by
  have hpath : ∃ next, Path
      (admitGenerationJob plainHost {} (pictureRequest catInputs))
      ((admitGenerationJob plainHost {} (pictureRequest catInputs)).follow
        emptyAnswer 4).1
      (.call (.enqueue (pictureJob catInputs.members)) next) :=
    ⟨_, path_follow emptyAnswer 4
      (admitGenerationJob plainHost {} (pictureRequest catInputs))⟩
  obtain ⟨next, hpath⟩ := hpath
  exact (submits_iff hpath (by decide) rfl _ 5 "imaginv-ab" unreachableWorkers
    noImages (twoWorkers 0) ⟨"ab", by simp⟩).mpr
      ⟨⟨rfl, rfl, rfl⟩, fun h => by cases h⟩

/-- A seed that is no number. -/
def abcInputs : Dict := catInputs.set "seed" (.str "abc") (.str "abc")

/-- It is admitted, and every submission of the job raises. -/
theorem not_submits_abc :
    ((admitGenerationJob plainHost {} (pictureRequest abcInputs)).run
      InMemoryJobQueue.admissionAnswer InMemoryJobQueue.empty).2.jobs.rows =
        [pictureJob abcInputs.members] ∧
    ∀ (config : LiveConfig) (randomSeed : Nat) (filenamePrefix : String)
      (rest : LiveComfyUIClient.LiveServices)
      (A : NestedClient LiveComfyUIClient Unit) (uuid : HexId),
      ¬ Returns (A.submit plainHost.toHost
        (LiveComfyUIClient.port plainHost.toHost
          (config.services plainHost randomSeed filenamePrefix rest)) noImages uuid
            (admittedPicture abcInputs.members) (some "image_basic")).1 := by
  refine ⟨rfl, ?_⟩
  intro config randomSeed filenamePrefix rest A uuid h
  have hnormalised : Dict.Normalised
      ⟨admittedPicture abcInputs.members, by decide⟩ :=
    ⟨⟨"student", rfl⟩, ⟨.empty, Dict.typed_empty, rfl⟩⟩
  have hsubmittable := (returns_submit hnormalised (by decide) config randomSeed
    filenamePrefix rest uuid).mp h
  exact absurd hsubmittable.seed (by decide)

end Imagin4.Ports
