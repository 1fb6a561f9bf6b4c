import Imagin4.Ports.Dicts
import Imagin4.Ports.Settings

/-!
# Model profiles and overrides

`app/domain/jobs/comfy_profiles.py` and `app/domain/jobs/comfy_overrides.py`:
what an admission checks of `inputs["model_profile"]` and
`inputs["model_overrides"]`.  Of a profile only its key is looked at here.

`int(x)` and `float(x)` are Python's: a string may have at most 4300 digits, and
an integer is rounded to the nearest double.
-/

namespace Imagin4.Ports

/-- What the admission of a job takes from Python's library: how a float is
printed and read, and SHA-256. -/
structure AdmissionHost extends Host where
  floats : FloatText
  /-- `float(s)`; `none` is its `ValueError`. -/
  floatOfStr : String → Option PyFloat
  /-- `hashlib.sha256(s.encode("utf-8")).hexdigest()`. -/
  sha256 : String → String

/-! ## Numbers -/

namespace PyFloat

/-- The value of a finite float. -/
def toRat? : PyFloat → Option Rat
  | finite value => some value
  | negZero => some 0
  | _ => none

/-- `x <= y`; a NaN compares with nothing. -/
def le : PyFloat → PyFloat → Bool
  | nan, _ => false
  | _, nan => false
  | negInf, _ => true
  | _, inf => true
  | x, y =>
      match x.toRat?, y.toRat? with
      | some value, some bound => decide (value ≤ bound)
      | _, _ => false

/-- `low <= x <= high`. -/
def between (low high x : PyFloat) : Bool := low.le x && x.le high

end PyFloat

/-- The nearest double of a natural number, ties to even. -/
def roundToDouble (n : Nat) : Nat :=
  let ulp := 2 ^ (n.log2 - 52)
  let below := n / ulp
  let rest := n % ulp
  if 2 * rest < ulp then below * ulp
  else if ulp < 2 * rest then (below + 1) * ulp
  else if below % 2 = 0 then below * ulp
  else (below + 1) * ulp

/-- `float(n)` of an integer. -/
def floatOfInt (n : Int) : Except PyError PyFloat :=
  let rounded := roundToDouble n.natAbs
  if 2 ^ 1024 ≤ rounded then .error "OverflowError"
  else .ok (.finite (if n < 0 then -(rounded : Rat) else rounded))

namespace Json

variable (host : AdmissionHost)

/-- `int(x)`. -/
def toInt : Json → Except PyError Int
  | bool b => .ok (if b then 1 else 0)
  | int n => .ok n
  | float (.finite value) =>
      .ok (if value < 0 then -((-value).floor) else value.floor)
  | float .negZero => .ok 0
  | float .nan => .error "ValueError"
  | float _ => .error "OverflowError"
  | str s =>
      let digits := s.toList.filter (fun c => (host.digit c).isSome)
      if maxStrDigits < digits.length then .error "ValueError"
      else
        match pyInt host.toHost s with
        | some n => .ok n
        | none => .error "ValueError"
  | _ => .error "TypeError"

/-- `str(x)`, which refuses an integer of too many digits. -/
def toStr (x : Json) : Except PyError String :=
  if x.printable then .ok (x.text host.repr) else .error "ValueError"

/-- `float(x)`. -/
def toFloat : Json → Except PyError PyFloat
  | bool b => .ok (.finite (if b then 1 else 0))
  | int n => floatOfInt n
  | float x => .ok x
  | str s =>
      match host.floatOfStr s with
      | some x => .ok x
      | none => .error "ValueError"
  | _ => .error "TypeError"

end Json

/-- `s[:n]`. -/
def sliceTo (n : Int) (s : String) : String :=
  let cs := s.toList
  String.ofList (cs.take (if 0 ≤ n then n.toNat else cs.length - n.natAbs))

/-! ## Profiles -/

/-- What makes the admission of a job fail. -/
inductive AdmissionError where
  | unknownWorkflow (message : String)
  | unknownModelProfile (message : String)
  | invalidComfyOverride (message : String)
  | previewNotSupported (message : String)
  | idempotencyConflict (message : String)
  | capacityExceeded (reason : String) (retryAfterS : Nat)
  | other (e : PyError)
deriving DecidableEq

/-- `DEFAULT_PROFILE_KEY`. -/
def defaultProfileKey : String := "student"

/-- The keys of `build_profiles`. -/
def profileKeys (settings : Settings) : List String :=
  if settings.comfyPersonnelCheckpointName ≠ "" ∨
      settings.comfyPersonnelDiffusionModelName ≠ "" then
    [defaultProfileKey, "personnel"]
  else [defaultProfileKey]

/-- `resolve_profile_key`; only a string has `strip`. -/
def resolveProfileKey (host : AdmissionHost) (requested : Json)
    (available : List String) : Except AdmissionError String :=
  match requested.orElse (.str "") with
  | .str s =>
      let key := orDefault (strip s) defaultProfileKey
      if key ∈ available then .ok key
      else .error (.unknownModelProfile
        ("unknown model_profile " ++ host.repr (.str key)))
  | _ => .error (.other "AttributeError")

/-! ## Overrides -/

/-- `OverrideAllowlists`. -/
structure OverrideAllowlists where
  checkpoints : List String
  diffusionModels : List String
  clips : List String
  vaes : List String
  samplers : List String
  schedulers : List String
  minSteps : Int
  maxSteps : Int
  minCfgScale : PyFloat
  maxCfgScale : PyFloat
  maxNegativePromptChars : Int

/-- The names in a comma-separated setting: `_csv`. -/
def csvNames (value : String) : List String :=
  (value.toList.splitOn ',').filterMap (fun v =>
    let v := strip (String.ofList v)
    if v = "" then none else some v)

/-- `build_allowlists`. -/
def buildAllowlists (settings : Settings) : OverrideAllowlists where
  checkpoints := csvNames settings.comfyAllowedCheckpointsCsv
  diffusionModels := csvNames settings.comfyAllowedDiffusionModelsCsv
  clips := csvNames settings.comfyAllowedClipsCsv
  vaes := csvNames settings.comfyAllowedVaesCsv
  samplers := csvNames settings.comfyAllowedSamplersCsv
  schedulers := csvNames settings.comfyAllowedSchedulersCsv
  minSteps := settings.comfyOverrideMinSteps
  maxSteps := settings.comfyOverrideMaxSteps
  minCfgScale := settings.comfyOverrideMinCfgScale
  maxCfgScale := settings.comfyOverrideMaxCfgScale
  maxNegativePromptChars := settings.comfyOverrideMaxNegativePromptChars

/-- `_STRING_ALLOWLIST_FIELDS`: the string fields of the overrides, each with
its allowlist. -/
def stringAllowlistFields (allowlists : OverrideAllowlists) :
    List (String × List String) :=
  [("checkpoint_name", allowlists.checkpoints),
   ("diffusion_model_name", allowlists.diffusionModels),
   ("clip_name", allowlists.clips),
   ("vae_name", allowlists.vaes),
   ("sampler_name", allowlists.samplers),
   ("scheduler", allowlists.schedulers)]

/-- `ALL_OVERRIDE_KEYS`. -/
def allOverrideKeys : List String :=
  ["checkpoint_name", "diffusion_model_name", "clip_name", "vae_name",
    "sampler_name", "scheduler", "steps", "cfg_scale", "negative_prompt"]

/-- One round of the loop over the string fields. -/
def validateStringField (host : AdmissionHost) (overrides : Dict)
    (validated : Dict) (field : String × List String) :
    Except AdmissionError Dict :=
  match Json.lookup field.1 overrides.members with
  | none => .ok validated
  | some x =>
      match x.toStr host with
      | .error e => .error (.other e)
      | .ok text =>
          let value := strip text
          if field.2 = [] then
            .error (.invalidComfyOverride (field.1 ++
              " overrides are not enabled on this deployment " ++
              "(no APP_COMFY_ALLOWED_* configured for it)"))
          else if value ∈ field.2 then
            .ok (validated.set field.1 (.str value) (.str value))
          else
            .error (.invalidComfyOverride (field.1 ++ "=" ++
              host.repr (.str value) ++ " is not in the allowlist"))

/-- `steps`: what is no integer or out of range is dropped.  An `OverflowError`
is not caught. -/
def validateSteps (host : AdmissionHost) (allowlists : OverrideAllowlists)
    (overrides : Dict) (validated : Dict) : Except AdmissionError Dict :=
  match Json.lookup "steps" overrides.members with
  | none => .ok validated
  | some x =>
      match x.toInt host with
      | .ok steps =>
          if allowlists.minSteps ≤ steps ∧ steps ≤ allowlists.maxSteps then
            .ok (validated.set "steps" (.int steps) (.int steps))
          else .ok validated
      | .error e =>
          if e = "OverflowError" then .error (.other e) else .ok validated

/-- `cfg_scale`, in the same way. -/
def validateCfgScale (host : AdmissionHost) (allowlists : OverrideAllowlists)
    (overrides : Dict) (validated : Dict) : Except AdmissionError Dict :=
  match Json.lookup "cfg_scale" overrides.members with
  | none => .ok validated
  | some x =>
      match x.toFloat host with
      | .ok cfg =>
          if cfg.between allowlists.minCfgScale allowlists.maxCfgScale then
            .ok (validated.set "cfg_scale" (.float cfg) (.float cfg))
          else .ok validated
      | .error e =>
          if e = "OverflowError" then .error (.other e) else .ok validated

/-- `negative_prompt`. -/
def validateNegativePrompt (host : AdmissionHost)
    (allowlists : OverrideAllowlists) (overrides : Dict) (validated : Dict) :
    Except AdmissionError Dict :=
  match Json.lookup "negative_prompt" overrides.members with
  | none => .ok validated
  | some x =>
      match x.toStr host with
      | .ok text =>
          let text := sliceTo allowlists.maxNegativePromptChars text
          .ok (validated.set "negative_prompt" (.str text) (.str text))
      | .error e => .error (.other e)

/-- `sorted(unknown)`. -/
def unknownKeys (overrides : Dict) : List String :=
  ((overrides.members.map Prod.fst).filter
    (fun key => key ∉ allOverrideKeys)).insertionSort
      (fun s t => s.toList ≤ t.toList)

/-- `validate_overrides`. -/
def validateOverrides (host : AdmissionHost) (allowlists : OverrideAllowlists)
    (overrides : { x : Json // x.IsDict }) : Except AdmissionError Dict :=
  match overrides with
  | ⟨.null, _⟩ => .ok .empty
  | ⟨.obj members, h⟩ => do
      let overrides : Dict := ⟨members, h⟩
      let unknown := unknownKeys overrides
      if unknown ≠ [] then
        .error (.invalidComfyOverride ("unknown model_overrides keys: " ++
          host.repr (.arr (unknown.map .str))))
      else
        let validated ← (stringAllowlistFields allowlists).foldlM
          (validateStringField host overrides) .empty
        let validated ← validateSteps host allowlists overrides validated
        let validated ← validateCfgScale host allowlists overrides validated
        validateNegativePrompt host allowlists overrides validated
  | _ => .error (.invalidComfyOverride "model_overrides must be an object")

end Imagin4.Ports
