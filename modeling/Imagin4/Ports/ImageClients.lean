import Imagin4.Ports.ComfyLive
import Imagin4.Ports.Settings

/-!
# The image clients

`GeminiImageComfyUIClient` of `app/adapters/gemini.py` and
`OpenRouterImageComfyUIClient` of `app/adapters/openrouter.py`.  Both make the
image inside `submit` and keep the outcome in `_results`; `get_status` looks
there and nowhere else.  They differ in the service they call and in the names
of its errors.

The services, the prompt designer and the object storage are arguments, like
the answers of ComfyUI in `Imagin4.Ports.ComfyLive`.

## Main results

* `ImageClient.getStatus_submit` — the client a prompt was submitted to answers
  with a settled outcome, and never with `unknown_prompt_id`.
* `ImageClient.getStatus_of_none` — every other client fails the prompt with
  `unknown_prompt_id`.
-/

namespace Imagin4.Ports

open Imagin4.Verified

/-! ## Exceptions -/

/-- A raised exception as far as the `_sanitized_error` functions look at it.
An attribute that is missing, or of another type than the constants it is
compared with, is `none`. -/
structure Raised where
  name : PyError
  isTimeout : Bool := false
  code : Option Int := none
  status : Option String := none
  statusCode : Option Int := none
deriving DecidableEq

/-- The exceptions of Python itself have none of these attributes. -/
def builtin {α : Type} (x : Except PyError α) : Except Raised α :=
  x.mapError (fun name => { name := name })

/-- `ObjectStorage.put_object` of a key, the data and a mime type. -/
abbrev Storage := String → Bytes → String → Except Raised Unit

/-- The live client shows of an exception only its name. -/
def Storage.putObject (storage : Storage) : PutObject :=
  fun key data mime => (storage key data mime).mapError Raised.name

/-! ## Prompts -/

/-- The texts of `workflow_payload["exact_text"]` that are not blank. -/
def exactTexts (payload : List (String × Json)) :
    Except PyError (List String) := do
  let value := (Json.lookup "exact_text" payload).getD .null
  let items ← (value.orElse (.arr [])).iter
  return items.filterMap fun
    | .str t => if strip t = "" then none else some (strip t)
    | _ => none

/-- `_exact_text_block`. -/
def exactTextBlock (exactText : List String) : String :=
  if exactText.isEmpty then ""
  else
    "\n\nThe generated image MUST render the following text exactly as written, " ++
      "verbatim -- do not translate, paraphrase, omit, or alter it in any way:\n" ++
      String.intercalate "\n" (exactText.map (fun t => "- " ++ t))

/-- The text a prompt designer's answer replaces the prompt with. -/
def designedText (answer : Except PyError String) : Option String :=
  match answer with
  | .ok text => if strip text = "" then none else some (strip text)
  | .error _ => none

/-- `(mime.split("/")[-1] or "png").split("+")[0]`. -/
def mimeExtension (mime : String) : String :=
  (partition '+' (orDefault (lastPart '/' mime) "png")).1

/-- The key an image is stored under. -/
def generatedKey (promptId mime : String) : String :=
  "generated/" ++ promptId ++ "." ++ mimeExtension mime

/-! ## What the services answer -/

/-- `google.genai.types.Blob`. -/
structure Blob where
  data : Option Bytes
  mimeType : Option String

/-- `Part`. -/
structure Part where
  inlineData : Option Blob

/-- `Content`. -/
structure Content where
  parts : Option (List Part)

/-- `Candidate`. -/
structure Candidate where
  content : Option Content

/-- `GenerateContentResponse`. -/
structure GenerateContentResponse where
  candidates : Option (List Candidate)

/-- What is asked during one submission: the prompt designer, Gemini's
`generate_content` (which the client gives up after a while, with
`TimeoutError`), and OpenRouter's `POST /images`. -/
structure ImageServices where
  design : String → List String → String → Except PyError String
  generateContent : String → Except Raised GenerateContentResponse
  images : String → Except Raised Json

/-! ## Gemini -/

namespace GeminiImageComfyUIClient

/-- `_sanitized_error`. -/
def sanitizedError (exc : Raised) : String :=
  if exc.isTimeout then "gemini_timeout"
  else if exc.code = some 503 ∨ exc.status = some "UNAVAILABLE" then
    "gemini_overloaded"
  else if exc.code = some 429 ∨ exc.status = some "RESOURCE_EXHAUSTED" then
    "gemini_rate_limited"
  else "gemini_error:" ++ exc.name

/-- The image of a part, if there is one. -/
def partImage (part : Part) : Option (String × Bytes) := do
  let inline ← part.inlineData
  let data ← inline.data
  if data.isEmpty then none
  else some (orDefault (inline.mimeType.getD "") "image/png", data)

/-- `_generate_sync`. -/
def generateSync (services : ImageServices) (promptText : String) :
    Except Raised (String × Bytes) := do
  let response ← services.generateContent promptText
  let image := (response.candidates.getD []).findSome? fun candidate =>
    ((candidate.content.bind Content.parts).getD []).findSome? partImage
  match image with
  | some found => .ok found
  | none => .error { name := "RuntimeError" }

/-- The end of `submit`: generates the image and stores it. -/
def generate (services : ImageServices) (storage : Storage)
    (promptId promptText : String) : ComfyStatus :=
  let stored : Except Raised Output := do
    let (mime, data) ← generateSync services promptText
    storage (generatedKey promptId mime) data mime
    return ⟨generatedKey promptId mime, mime⟩
  match stored with
  | .ok output => { state := .succeeded, outputs := some [output] }
  | .error exc => failedStatus (sanitizedError exc)

end GeminiImageComfyUIClient

/-! ## OpenRouter -/

/-- The value of a base64 character. -/
def base64Value (c : Char) : Option Nat :=
  if c.isUpper then some (c.toNat - 65)
  else if c.isLower then some (c.toNat - 71)
  else if c.isDigit then some (c.toNat + 4)
  else if c = '+' then some 62
  else if c = '/' then some 63
  else none

/-- `binascii.a2b_base64` behind `position` characters of a group of four:
`left` are the bits not yet put out and `pads` the padding seen in a row.
Characters that are not base64 are passed over. -/
def a2bBase64 : (position left pads : Nat) → List Char → Except PyError Bytes
  | position, _, _, [] =>
      if position = 0 then .ok [] else .error "Error"
  | position, left, pads, c :: cs =>
      if c = '=' then
        if 2 ≤ position then
          -- a full padding ends the data
          if 4 ≤ position + (pads + 1) then .ok []
          else a2bBase64 position left (pads + 1) cs
        else a2bBase64 position left pads cs
      else
        match base64Value c with
        | none => a2bBase64 position left pads cs
        | some v =>
            match position with
            | 0 => a2bBase64 1 v 0 cs
            | 1 => (UInt8.ofNat (left * 4 + v / 16) :: ·) <$>
                a2bBase64 2 (v % 16) 0 cs
            | 2 => (UInt8.ofNat (left * 16 + v / 4) :: ·) <$>
                a2bBase64 3 (v % 4) 0 cs
            | _ => (UInt8.ofNat (left * 64 + v) :: ·) <$>
                a2bBase64 0 0 0 cs

/-- `base64.b64decode`. -/
def b64decode : Json → Except PyError Bytes
  | .str s =>
      if s.toList.all (fun c => c.toNat < 128) then a2bBase64 0 0 0 s.toList
      else .error "ValueError"
  | _ => .error "TypeError"

namespace OpenRouterImageComfyUIClient

/-- `_sanitized_error`. -/
def sanitizedError (exc : Raised) : String :=
  match exc.statusCode with
  | some 502 => "openrouter_overloaded"
  | some 429 => "openrouter_rate_limited"
  | some 402 => "openrouter_insufficient_credits"
  | some 401 => "openrouter_auth_error"
  | some 403 => "openrouter_auth_error"
  | some 500 => "openrouter_upstream_error"
  | _ => "openrouter_error:" ++ exc.name

/-- One image of the answer: an image without data is passed over. -/
def storeImage (storage : Storage) (promptId : String) (outputs : List Output)
    (image : Json) : Except Raised (List Output) := do
  let data ← builtin (image.get "b64_json")
  if !data.truthy then
    return outputs
  let mediaType ← builtin (image.get "media_type")
  let mimeType ← builtin (image.get "mime_type")
  match (mediaType.orElse mimeType).orElse (.str "image/png") with
  | .str mime =>
      let bytes ← builtin (b64decode data)
      storage (generatedKey promptId mime) bytes mime
      return outputs ++ [⟨generatedKey promptId mime, mime⟩]
  | _ => .error { name := "AttributeError" }

/-- The end of `submit`: asks for the images and stores them. -/
def generate (services : ImageServices) (storage : Storage)
    (promptId promptText : String) : ComfyStatus :=
  let stored : Except Raised (List Output) := do
    let payload ← services.images promptText
    let data ← builtin (payload.get "data")
    let images ← builtin (data.orElse (.arr [])).iter
    images.foldlM (storeImage storage promptId) []
  match stored with
  | .ok [] => failedStatus "openrouter_no_image_in_response"
  | .ok outputs => { state := .succeeded, outputs := some outputs }
  | .error exc => failedStatus (sanitizedError exc)

end OpenRouterImageComfyUIClient

/-! ## The client -/

/-- What an image client keeps: whose it is, whether a prompt designer is
wired, and `_results`. -/
structure ImageClient where
  provider : ImageProvider
  designs : Bool
  results : StatusCache

namespace ImageClient

/-- A new client. -/
def new (provider : ImageProvider) (designs : Bool) : ImageClient :=
  ⟨provider, designs, Table.empty⟩

/-- The prompt sent to the service. -/
def promptText (host : Host) (services : ImageServices)
    (payload : List (String × Json)) (exactText : List String)
    (c : ImageClient) : String :=
  let base := basePrompt host payload
  let actionType := (Json.lookup "action_type" payload).getD .null
  let designKind := (actionType.orElse (.str "poster")).text host.repr
  let designed :=
    if c.designs then designedText (services.design base exactText designKind)
    else none
  designed.getD base ++ exactTextBlock exactText

/-- The end of `submit`, for either provider. -/
def generate (services : ImageServices) (storage : Storage) :
    ImageProvider → (promptId promptText : String) → ComfyStatus
  | .gemini => GeminiImageComfyUIClient.generate services storage
  | .openrouter => OpenRouterImageComfyUIClient.generate services storage

/-- `submit`; `uuid` is the `str(uuid.uuid4())` it draws. -/
def submit (host : Host) (services : ImageServices) (storage : Storage)
    (uuid : String) (payload : List (String × Json)) (c : ImageClient) :
    Except PyError (String × ImageClient) := do
  let exactText ← exactTexts payload
  let status :=
    if basePrompt host payload = "" ∧ exactText.isEmpty then
      failedStatus "empty_prompt"
    else generate services storage c.provider uuid
      (c.promptText host services payload exactText)
  return (uuid, { c with results := c.results.set uuid status })

/-- `get_status`. -/
def getStatus (promptId : String) (c : ImageClient) : ComfyStatus :=
  (c.results.get promptId).getD (failedStatus "unknown_prompt_id")

end ImageClient

/-! ## What a submission leaves behind -/

/-- A settled outcome that is not the answer to an unknown prompt id. -/
structure Reported (status : ComfyStatus) : Prop where
  ended : status.state.ended = true
  known : status.error ≠ some "unknown_prompt_id"

theorem reported_failed {error : String} (h : error ≠ "unknown_prompt_id") :
    Reported (failedStatus error) :=
  ⟨rfl, fun heq => h (Option.some.inj heq)⟩

theorem reported_succeeded (outputs : List Output) :
    Reported { state := .succeeded, outputs := some outputs } :=
  ⟨rfl, by simp⟩

/-- Strings that begin with different letters differ. -/
theorem append_ne_of_head {p q s : String}
    (h : p.toList.head? ≠ q.toList.head?) (hp : p.toList ≠ []) : p ++ s ≠ q := by
  rintro rfl
  rw [String.toList_append, List.head?_append_of_ne_nil _ hp] at h
  exact h rfl

namespace GeminiImageComfyUIClient

theorem sanitizedError_ne (exc : Raised) :
    sanitizedError exc ≠ "unknown_prompt_id" := by
  unfold sanitizedError
  split
  · decide
  · split
    · decide
    · split
      · decide
      · exact append_ne_of_head (by decide) (by decide)

theorem reported_generate (services : ImageServices) (storage : Storage)
    (promptId promptText : String) :
    Reported (generate services storage promptId promptText) := by
  unfold generate
  dsimp only
  split
  · exact reported_succeeded _
  · exact reported_failed (sanitizedError_ne _)

end GeminiImageComfyUIClient

namespace OpenRouterImageComfyUIClient

theorem sanitizedError_ne (exc : Raised) :
    sanitizedError exc ≠ "unknown_prompt_id" := by
  unfold sanitizedError
  split
  all_goals first
    | decide
    | exact append_ne_of_head (by decide) (by decide)

theorem reported_generate (services : ImageServices) (storage : Storage)
    (promptId promptText : String) :
    Reported (generate services storage promptId promptText) := by
  unfold generate
  dsimp only
  split
  · exact reported_failed (by decide)
  · exact reported_succeeded _
  · exact reported_failed (sanitizedError_ne _)

end OpenRouterImageComfyUIClient

namespace ImageClient

variable {host : Host} {services : ImageServices} {storage : Storage}
  {uuid promptId : String} {payload : List (String × Json)}
  {c c' : ImageClient}

theorem reported_generate (provider : ImageProvider) (promptText : String) :
    Reported (generate services storage provider uuid promptText) := by
  cases provider with
  | gemini => exact GeminiImageComfyUIClient.reported_generate ..
  | openrouter => exact OpenRouterImageComfyUIClient.reported_generate ..

/-- A submission adds one settled outcome, under the id it drew. -/
theorem of_submit
    (h : c.submit host services storage uuid payload = .ok (promptId, c')) :
    promptId = uuid ∧ ∃ status, Reported status ∧
      c' = { c with results := c.results.set uuid status } := by
  unfold submit at h
  obtain ⟨exactText, _, h⟩ := bind_eq_ok.mp h
  cases h
  refine ⟨rfl, _, ?_, rfl⟩
  split
  · exact reported_failed (by decide)
  · exact reported_generate c.provider _

/-- The client that made the image reports what became of it. -/
theorem getStatus_submit
    (h : c.submit host services storage uuid payload = .ok (promptId, c')) :
    Reported (c'.getStatus promptId) := by
  obtain ⟨rfl, status, hstatus, rfl⟩ := of_submit h
  unfold getStatus
  simpa [StatusCache.get_set] using hstatus

/-- A client that did not make the image does not know it. -/
theorem getStatus_of_none (h : c.results.get promptId = none) :
    c.getStatus promptId = failedStatus "unknown_prompt_id" := by
  unfold getStatus
  rw [h]
  rfl

end ImageClient

end Imagin4.Ports
