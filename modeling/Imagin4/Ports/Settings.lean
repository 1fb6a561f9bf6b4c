import Imagin4.Ports.Python

/-!
# The settings

The fields of `Settings` (`app/core/config.py`) that the scheduler, the
reconciler, `build_comfy_client` and the admission of jobs read, with their
defaults.
-/

namespace Imagin4.Ports

/-- `image_provider`. -/
inductive ImageProvider where
  | gemini
  | openrouter
deriving DecidableEq, Repr

/-- The provider's name, as the settings spell it. -/
def ImageProvider.name : ImageProvider → String
  | .gemini => "gemini"
  | .openrouter => "openrouter"

/-- `brain_backend`. -/
inductive BrainBackend where
  | gemini
  | qwen
deriving DecidableEq, Repr

/-- `Settings`. -/
structure Settings where
  defaultComfyActiveSlots : Int := 1
  comfyPendingBuffer : Int := 0
  defaultGeminiActiveSlots : Int := 3
  maxActiveJobsPerUser : Int := 1
  staleRunningSeconds : Rat := 300
  comfyBaseUrl : String := "http://localhost:8188"
  comfyWorkerBaseUrlsCsv : String := ""
  geminiApiKey : Option String := none
  brainBackend : BrainBackend := .gemini
  imageProvider : ImageProvider := .gemini
  openrouterApiKey : Option String := none
  maxQueuedJobsPerUser : Int := 3
  globalQueueCap : Int := 5000
  estimatedJobDurationS : Rat := 60
  comfyPersonnelCheckpointName : String := ""
  comfyPersonnelDiffusionModelName : String := ""
  comfyAllowedCheckpointsCsv : String := ""
  comfyAllowedDiffusionModelsCsv : String := ""
  comfyAllowedClipsCsv : String := ""
  comfyAllowedVaesCsv : String := ""
  comfyAllowedSamplersCsv : String := ""
  comfyAllowedSchedulersCsv : String := ""
  comfyOverrideMinSteps : Int := 1
  comfyOverrideMaxSteps : Int := 50
  comfyOverrideMinCfgScale : PyFloat := .finite 1
  comfyOverrideMaxCfgScale : PyFloat := .finite 15
  comfyOverrideMaxNegativePromptChars : Int := 2000
  previewEnabled : Bool := true
  previewSteps : Int := 6

/-- Is an optional string set, and not empty? -/
def isSet : Option String → Bool
  | some s => s != ""
  | none => false

namespace Settings

variable (settings : Settings)

/-- `comfy_worker_base_urls`. -/
def comfyWorkerBaseUrls : List String :=
  let urls := (settings.comfyWorkerBaseUrlsCsv.toList.splitOn ',').map
    (fun url => strip (String.ofList url))
  urls.filter (· ≠ "")

/-- Does `build_comfy_client` have the API key of the image provider? -/
def imageClientConfigured : Bool :=
  match settings.imageProvider with
  | .gemini => isSet settings.geminiApiKey
  | .openrouter => isSet settings.openrouterApiKey

/-- Does `build_comfy_client` wire a text client for prompt design? -/
def designsPrompts : Bool :=
  settings.brainBackend = .qwen || isSet settings.geminiApiKey

end Settings

end Imagin4.Ports
