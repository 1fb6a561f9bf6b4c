import Imagin4.Ports.ComfyLive
import Imagin4.Ports.ImageClients
import Imagin4.Ports.Settings
import Imagin4.Ports.WorkflowRegistry

/-!
# The composite client

`CompositeComfyUIClient` of `app/adapters/routing_comfyui.py` over
`MultiWorkerComfyUIClient` of `app/adapters/comfyui/multi_worker.py`, as
`build_comfy_client` of `app/adapters/comfyui/factory.py` puts them together in
live mode.  Each layer writes where a prompt went in front of its id, and reads
it back from the id: `comfyui:1:<id>` is a prompt of the second worker.

## Main results

* `MultiWorkerComfyUIClient.resolve_tagged` — an id with the position of a
  worker in front leads to that worker.
* `CompositeComfyUIClient.decode_submit` — an id leads back to the backend its
  submission went to.
-/

namespace Imagin4.Ports

open Imagin4.Verified

/-- What the ComfyUI servers answer, by base URL and prompt id. -/
abbrev Servers := String → String → ComfyAnswers

/-- What one submission is answered: the image services, the graph builder,
`POST /prompt` of each worker, and the prompt designer for ComfyUI. -/
structure SubmitServices extends ImageServices where
  graph : List (String × Json) → Except PyError Json
  post : String → Json → Except PyError Json
  designComfy : String → List String → Except PyError String

/-- The answer to a prompt id that leads nowhere. -/
def unknownPromptId : ComfyStatus := failedStatus "unknown_prompt_id"

/-! ## Several workers -/

/-- `MultiWorkerComfyUIClient`; its constructor refuses an empty list. -/
structure MultiWorkerComfyUIClient where
  workers : List LiveComfyUIClient
  nonempty : workers ≠ []
  nextIndex : Nat

namespace MultiWorkerComfyUIClient

/-- `_pick_worker`: the position of the next worker in turn. -/
def pickWorker (c : MultiWorkerComfyUIClient) : Fin c.workers.length :=
  ⟨c.nextIndex % c.workers.length,
    Nat.mod_lt _ (List.length_pos_iff.mpr c.nonempty)⟩

/-- A worker's client after a call. -/
def setWorker (i : Nat) (worker : LiveComfyUIClient)
    (c : MultiWorkerComfyUIClient) : MultiWorkerComfyUIClient where
  workers := c.workers.set i worker
  nonempty := by simpa using c.nonempty
  nextIndex := c.nextIndex

/-- `_resolve`: the worker an id belongs to, its position, and its own id. -/
def resolve (host : Host) (promptId : String) (c : MultiWorkerComfyUIClient) :
    Option (Nat × LiveComfyUIClient × String) := do
  let realId ← (partition ':' promptId).2
  let index ← pyInt host (partition ':' promptId).1
  let position ← pyIndex c.workers.length index
  let worker ← c.workers[position]?
  return (position, worker, realId)

/-- `submit`. -/
def submit (host : Host) (services : SubmitServices) (uuid : String)
    (payload : List (String × Json)) (c : MultiWorkerComfyUIClient) :
    Except PyError String × MultiWorkerComfyUIClient :=
  let index := c.pickWorker
  let worker := c.workers[index]
  let turned := { c with nextIndex := c.nextIndex + 1 }
  match worker.submit host (services.graph payload)
      (services.post worker.baseUrl) uuid payload with
  | .error exc => (.error exc, turned)
  | .ok (realId, after) =>
      (.ok (index.val.repr ++ ":" ++ realId), turned.setWorker index after)

/-- `get_status`. -/
def getStatus (host : Host) (servers : Servers) (storage : Storage)
    (hex : Nat → String) (promptId : String) (c : MultiWorkerComfyUIClient) :
    ComfyStatus × MultiWorkerComfyUIClient :=
  match c.resolve host promptId with
  | none => (unknownPromptId, c)
  | some (position, worker, realId) =>
      let r := worker.getStatus host (servers worker.baseUrl realId)
        storage.putObject hex realId
      (r.1, c.setWorker position r.2)

end MultiWorkerComfyUIClient

/-- The client `build_comfy_client` makes for ComfyUI. -/
inductive ComfyClient where
  | live (c : LiveComfyUIClient)
  | multi (c : MultiWorkerComfyUIClient)

namespace ComfyClient

/-- A new client: one worker needs no positions in front of its ids. -/
def new (settings : Settings) : ComfyClient :=
  match settings.comfyWorkerBaseUrls with
  | [] => .live (.new settings.comfyBaseUrl)
  | [url] => .live (.new url)
  | url :: second :: rest =>
      .multi ⟨(url :: second :: rest).map .new, by simp, 0⟩

/-- `submit`. -/
def submit (host : Host) (services : SubmitServices) (uuid : String)
    (payload : List (String × Json)) :
    ComfyClient → Except PyError String × ComfyClient
  | .live c =>
      match c.submit host (services.graph payload) (services.post c.baseUrl)
          uuid payload with
      | .error exc => (.error exc, .live c)
      | .ok (promptId, after) => (.ok promptId, .live after)
  | .multi c =>
      let r := c.submit host services uuid payload
      (r.1, .multi r.2)

/-- `get_status`. -/
def getStatus (host : Host) (servers : Servers) (storage : Storage)
    (hex : Nat → String) (promptId : String) :
    ComfyClient → ComfyStatus × ComfyClient
  | .live c =>
      let r := c.getStatus host (servers c.baseUrl promptId) storage.putObject
        hex promptId
      (r.1, .live r.2)
  | .multi c =>
      let r := c.getStatus host servers storage hex promptId
      (r.1, .multi r.2)

end ComfyClient

/-! ## Two backends -/

/-- `_NOT_CONFIGURED_TAG`. -/
def notConfiguredTag : String := "notconfigured"

/-- `_COMFYUI_TAG`. -/
def comfyuiTag : String := "comfyui"

/-- `_GEMINI_TAG`. -/
def geminiTag : String := "gemini"

/-- Where `_decode` sends a prompt id. -/
inductive Route where
  | notConfigured (provider : String)
  | comfyui (realId : String)
  | gemini (realId : String)
  | unknown
deriving DecidableEq

/-- `_decode`, with the provider's name `get_status` reads from the rest. -/
def decode (promptId : String) : Route :=
  let (tag, rest) := partition ':' promptId
  if tag = notConfiguredTag then
    .notConfigured (partition ':' (rest.getD "")).1
  else
    match rest with
    | none => .unknown
    | some realId =>
        if tag = comfyuiTag then .comfyui realId
        else if tag = geminiTag then .gemini realId
        else .unknown

/-- The backend of `_resolve_backend`: that of the workflow, and ComfyUI for a
kind that names none. -/
def resolveBackend (kind : Option String) : Backend :=
  match kind with
  | none => .comfyui
  | some name =>
      match resolveWorkflow name "v1" with
      | none => .comfyui
      | some workflow => workflow.backend

/-- `{**payload, key: value}`. -/
def withMember (key : String) (value : Json) :
    List (String × Json) → List (String × Json)
  | [] => [(key, value)]
  | (k, v) :: rest =>
      if k = key then (k, value) :: rest else (k, v) :: withMember key value rest

/-- `CompositeComfyUIClient`: the ComfyUI client, the image client if there is
one, whether a prompt designer is wired, and the name of the image provider. -/
structure CompositeComfyUIClient where
  comfyui : ComfyClient
  gemini : Option ImageClient
  designs : Bool
  imageProviderName : String

/-- `build_comfy_client` in live mode. -/
def buildComfyClient (settings : Settings) : CompositeComfyUIClient where
  comfyui := .new settings
  gemini :=
    if settings.imageClientConfigured then
      some (.new settings.imageProvider settings.designsPrompts)
    else none
  designs := settings.designsPrompts
  imageProviderName := settings.imageProvider.name

namespace CompositeComfyUIClient

/-- The payload for ComfyUI, with the prompt the designer made of it. -/
def designedPayload (host : Host) (services : SubmitServices)
    (payload : List (String × Json)) (c : CompositeComfyUIClient) :
    Except PyError (List (String × Json)) := do
  let skip := ((Json.lookup "skip_prompt_design" payload).getD .null).truthy
  if !c.designs || skip then
    return payload
  let base := basePrompt host payload
  let exactText ← exactTexts payload
  if base = "" ∧ exactText.isEmpty then
    return payload
  match designedText (services.designComfy base exactText) with
  | some text => return withMember "prompt" (.str text) payload
  | none => return payload

/-- `submit`. -/
def submit (host : Host) (services : SubmitServices) (storage : Storage)
    (uuid : String) (payload : List (String × Json)) (kind : Option String)
    (c : CompositeComfyUIClient) :
    Except PyError String × CompositeComfyUIClient :=
  match resolveBackend kind, c.gemini with
  | .gemini, none =>
      (.ok (notConfiguredTag ++ ":" ++ (c.imageProviderName ++ ":" ++ uuid)), c)
  | .gemini, some image =>
      match image.submit host services.toImageServices storage uuid payload with
      | .error exc => (.error exc, c)
      | .ok (realId, after) =>
          (.ok (geminiTag ++ ":" ++ realId), { c with gemini := some after })
  | .comfyui, _ =>
      match c.designedPayload host services payload with
      | .error exc => (.error exc, c)
      | .ok designed =>
          let r := c.comfyui.submit host services uuid designed
          (r.1.map (fun realId => comfyuiTag ++ ":" ++ realId),
            { c with comfyui := r.2 })

/-- `get_status`. -/
def getStatus (host : Host) (servers : Servers) (storage : Storage)
    (hex : Nat → String) (promptId : String) (c : CompositeComfyUIClient) :
    ComfyStatus × CompositeComfyUIClient :=
  match decode promptId with
  | .notConfigured provider =>
      (failedStatus
        (orDefault provider c.imageProviderName ++ "_not_configured"), c)
  | .comfyui realId =>
      let r := c.comfyui.getStatus host servers storage hex realId
      (r.1, { c with comfyui := r.2 })
  | .gemini realId =>
      match c.gemini with
      | none => (unknownPromptId, c)
      | some image => (image.getStatus realId, c)
  | .unknown => (unknownPromptId, c)

end CompositeComfyUIClient

/-! ## Ids lead back -/

namespace MultiWorkerComfyUIClient

/-- The position in front of an id leads to its worker. -/
theorem resolve_tagged (host : Host) {c : MultiWorkerComfyUIClient}
    {i : Nat} {worker : LiveComfyUIClient} (realId : String)
    (h : c.workers[i]? = some worker) :
    c.resolve host (i.repr ++ ":" ++ realId) = some (i, worker, realId) := by
  obtain ⟨hlt, _⟩ := List.getElem?_eq_some_iff.mp h
  unfold resolve
  rw [partition_tag (not_colon_repr i)]
  simp [pyInt_repr, pyIndex_natCast hlt, h]

/-- The worker that was next in turn is the one its prompt is asked from. -/
theorem resolve_submit {host : Host} {services : SubmitServices} {uuid : String}
    {payload : List (String × Json)} {c : MultiWorkerComfyUIClient}
    {promptId : String}
    (h : (c.submit host services uuid payload).1 = .ok promptId) :
    ∃ realId after, c.workers[c.pickWorker].submit host (services.graph payload)
        (services.post c.workers[c.pickWorker].baseUrl) uuid payload =
          .ok (realId, after) ∧
      (c.submit host services uuid payload).2.resolve host promptId =
        some (c.pickWorker.val, after, realId) := by
  unfold submit at h ⊢
  dsimp only at h ⊢
  split at h
  · cases h
  · rename_i realId after hsubmit
    cases h
    refine ⟨realId, after, hsubmit, ?_⟩
    apply resolve_tagged
    simp [setWorker]

end MultiWorkerComfyUIClient

theorem decode_notConfigured (rest : String) :
    decode (notConfiguredTag ++ ":" ++ rest) =
      .notConfigured (partition ':' rest).1 := by
  unfold decode
  rw [partition_tag (by decide)]
  rfl

theorem decode_comfyui (realId : String) :
    decode (comfyuiTag ++ ":" ++ realId) = .comfyui realId := by
  unfold decode
  rw [partition_tag (by decide)]
  rfl

theorem decode_gemini (realId : String) :
    decode (geminiTag ++ ":" ++ realId) = .gemini realId := by
  unfold decode
  rw [partition_tag (by decide)]
  rfl

namespace CompositeComfyUIClient

/-- An id leads back to the backend its submission went to. -/
theorem decode_submit {host : Host} {services : SubmitServices}
    {storage : Storage} {uuid : String} {payload : List (String × Json)}
    {kind : Option String} {c : CompositeComfyUIClient} {promptId : String}
    (h : (c.submit host services storage uuid payload kind).1 = .ok promptId) :
    match resolveBackend kind, c.gemini with
    | .gemini, none => ∃ provider, decode promptId = .notConfigured provider
    | .gemini, some _ => decode promptId = .gemini uuid
    | .comfyui, _ => ∃ realId, decode promptId = .comfyui realId := by
  unfold submit at h
  split at h
  · cases h
    exact ⟨_, decode_notConfigured _⟩
  · split at h
    · cases h
    · rename_i realId after hsubmit
      cases h
      rw [(ImageClient.of_submit hsubmit).1]
      exact decode_gemini uuid
  · split at h
    · cases h
    · rename_i designed _
      dsimp only at h
      cases hreal : (c.comfyui.submit host services uuid designed).1 with
      | error exc => simp [hreal, Except.map] at h
      | ok realId =>
          rw [hreal] at h
          cases h
          exact ⟨realId, decode_comfyui realId⟩

end CompositeComfyUIClient

end Imagin4.Ports
