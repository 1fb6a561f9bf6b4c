import Imagin4.Ports.Admission
import Imagin4.Ports.ComfyLive

/-!
# The prompt graph

`_build_prompt_graph` of `app/adapters/comfyui/live.py`, with the profiles of
`app/domain/jobs/comfy_profiles.py`: a payload picks a profile, layers its
overrides on it, and says the size and the seed of the image.

A validated override has the type of its field (`Dict.Typed`), so that no second
validation can fail on it with anything but `InvalidComfyOverrideError`, which
the client catches.  Nothing validates the size and the seed.

## Main results

* `typed_validateOverrides`, `validateOverrides_of_typed` — what a validation
  returns, every other validation takes.
* `returns_buildPromptGraph` — the builder raises nothing exactly for the
  payloads that are `Drawable`.
-/

namespace Imagin4.Ports

open Imagin4.Verified

/-! ## Profiles -/

/-- `model_family`. -/
inductive ModelFamily where
  | checkpoint
  | qwenImage
  | zImageTurbo
deriving DecidableEq

/-- `ComfyProfile`.  The default of the shift is the double `3.1`. -/
structure ComfyProfile where
  key : String
  checkpointName : String := ""
  modelFamily : ModelFamily := .checkpoint
  diffusionModelName : String := ""
  clipName : String := ""
  vaeName : String := ""
  modelSamplingShift : PyFloat := .finite (6980579422424269 / 2251799813685248)
  samplerName : String := "euler"
  scheduler : String := "normal"
  steps : Int := 20
  cfgScale : PyFloat := .finite 7
  negativePrompt : String := ""

/-- The `comfy_*` settings `build_profiles` reads, as the profiles it makes of
them. -/
structure ProfileSettings where
  student : ComfyProfile := {
    key := defaultProfileKey
    modelFamily := .qwenImage
    checkpointName := "sd_xl_base_1.0.safetensors"
    diffusionModelName := "qwen_image_2512_fp8_e4m3fn.safetensors"
    clipName := "qwen_2.5_vl_7b_fp8_scaled.safetensors"
    vaeName := "qwen_image_vae.safetensors"
    scheduler := "simple"
    cfgScale := .finite 4 }
  personnel : ComfyProfile := { key := "personnel", steps := 30 }

/-- `build_profiles`. -/
def buildProfiles (settings : ProfileSettings) : List (String × ComfyProfile) :=
  (defaultProfileKey, settings.student) ::
    if settings.personnel.checkpointName ≠ "" ∨
        settings.personnel.diffusionModelName ≠ "" then
      [("personnel", settings.personnel)]
    else []

/-- What a `LiveComfyUIClient` is made with, besides its worker: the default
profile, the others, and the allowlists of the overrides. -/
structure LiveConfig where
  defaultProfile : ComfyProfile
  profiles : List (String × ComfyProfile) := []
  overrideAllowlists : Option OverrideAllowlists := none

/-- How `build_comfy_client` makes its live clients. -/
def LiveConfig.build (settings : Settings) (profiles : ProfileSettings) :
    LiveConfig where
  defaultProfile := { profiles.student with key := defaultProfileKey }
  profiles := buildProfiles profiles
  overrideAllowlists := some (buildAllowlists settings)

/-- The negative prompt of a profile, with a caller's terms behind it. -/
def joinNegativePrompt (baseline caller : String) : String :=
  let callerTerms := strip caller
  let baselineTerms := strip baseline
  if callerTerms ≠ "" ∧ baselineTerms ≠ "" then
    baselineTerms ++ ", " ++ callerTerms
  else orDefault callerTerms baselineTerms

/-- One override; a validated value has the type of its field. -/
def ComfyProfile.override (profile : ComfyProfile) :
    String × Json → ComfyProfile
  | ("checkpoint_name", .str s) => { profile with checkpointName := s }
  | ("diffusion_model_name", .str s) => { profile with diffusionModelName := s }
  | ("clip_name", .str s) => { profile with clipName := s }
  | ("vae_name", .str s) => { profile with vaeName := s }
  | ("sampler_name", .str s) => { profile with samplerName := s }
  | ("scheduler", .str s) => { profile with scheduler := s }
  | ("steps", .int n) => { profile with steps := n }
  | ("cfg_scale", .float x) => { profile with cfgScale := x }
  | ("negative_prompt", .str s) =>
      { profile with
        negativePrompt := joinNegativePrompt profile.negativePrompt s }
  | _ => profile

/-- `apply_overrides`. -/
def applyOverrides (profile : ComfyProfile) (validated : Dict) : ComfyProfile :=
  validated.members.foldl ComfyProfile.override profile

/-- The class name of the exception. -/
def AdmissionError.className : AdmissionError → PyError
  | unknownWorkflow _ => "UnknownWorkflowError"
  | unknownModelProfile _ => "UnknownModelProfileError"
  | invalidComfyOverride _ => "InvalidComfyOverrideError"
  | previewNotSupported _ => "PreviewNotSupportedError"
  | idempotencyConflict _ => "IdempotencyConflictError"
  | capacityExceeded _ _ => "CapacityExceededError"
  | other e => e

/-- `table.get(x)` of a dict with string keys. -/
def Json.getFrom {α : Type} (table : List (String × α)) (x : Json) :
    Except PyError (Option α) :=
  if x.hashable then
    match x with
    | .str s => .ok ((table.find? (fun row => row.1 = s)).map Prod.snd)
    | _ => .ok none
  else .error "TypeError"

/-! ## Sizes -/

/-- `_BASE_DIMENSIONS_1K`. -/
def baseDimensions1K : List (String × Nat × Nat) :=
  [("1:1", 1024, 1024), ("9:16", 768, 1344), ("2:3", 832, 1216),
   ("3:4", 896, 1152), ("4:5", 896, 1088), ("5:4", 1088, 896),
   ("4:3", 1152, 896), ("3:2", 1216, 832), ("16:9", 1344, 768),
   ("21:9", 1536, 640)]

/-- `_QWEN_IMAGE_BASE_DIMENSIONS_1K`. -/
def qwenImageBaseDimensions1K : List (String × Nat × Nat) :=
  [("1:1", 1328, 1328), ("16:9", 1664, 928), ("9:16", 928, 1664),
   ("4:3", 1472, 1140), ("3:4", 1140, 1472), ("3:2", 1584, 1056),
   ("2:3", 1056, 1584), ("5:4", 1472, 1140), ("4:5", 1140, 1472),
   ("21:9", 1664, 704)]

/-- `_RESOLUTION_SCALE`. -/
def resolutionScale : List (String × Nat) := [("1K", 1), ("2K", 2), ("4K", 4)]

/-- `_MAX_DIM`. -/
def maxDim : Nat := 4096

/-- The table of a family, and its entry for `1:1`. -/
def dimensionTable : ModelFamily → List (String × Nat × Nat) × (Nat × Nat)
  | .qwenImage => (qwenImageBaseDimensions1K, (1328, 1328))
  | _ => (baseDimensions1K, (1024, 1024))

/-- `_resolve_dimensions`. -/
def resolveDimensions (aspectRatio resolution : Json) (family : ModelFamily) :
    Except PyError (Nat × Nat) := do
  let (table, square) := dimensionTable family
  let base ← (aspectRatio.orElse (.str "1:1")).getFrom table
  let scale ← (resolution.orElse (.str "1K")).getFrom resolutionScale
  let base := base.getD square
  let scale := scale.getD 1
  let width := min (base.1 * scale) maxDim
  let height := min (base.2 * scale) maxDim
  return (width / 8 * 8, height / 8 * 8)

/-! ## Graphs -/

/-- A node of a graph. -/
def graphNode (id classType : String) (inputs : List (String × Json)) :
    String × Json :=
  (id, .obj [("class_type", .str classType), ("inputs", .obj inputs)])

/-- An output of a node. -/
def graphLink (id : String) (output : Int) : Json := .arr [.str id, .int output]

/-- What both graphs are made of. -/
structure GraphInputs where
  profile : ComfyProfile
  promptText : String
  width : Nat
  height : Nat
  seed : Int
  filenamePrefix : String

namespace GraphInputs

variable (g : GraphInputs)

/-- The sampler, on the outputs of the model and the latent image. -/
def kSampler (model latentImage : String) : String × Json :=
  graphNode "3" "KSampler"
    [("seed", .int g.seed), ("steps", .int g.profile.steps),
     ("cfg", .float g.profile.cfgScale),
     ("sampler_name", .str g.profile.samplerName),
     ("scheduler", .str g.profile.scheduler), ("denoise", .float (.finite 1)),
     ("model", graphLink model 0), ("positive", graphLink "6" 0),
     ("negative", graphLink "7" 0), ("latent_image", graphLink latentImage 0)]

/-- An empty image of the size. -/
def emptyLatent (id classType : String) : String × Json :=
  graphNode id classType
    [("width", .int g.width), ("height", .int g.height), ("batch_size", .int 1)]

/-- The node that saves the image. -/
def saveImage : String × Json :=
  graphNode "9" "SaveImage"
    [("filename_prefix", .str g.filenamePrefix), ("images", graphLink "8" 0)]

/-- `_build_checkpoint_graph`. -/
def buildCheckpointGraph : Json :=
  .obj
    [g.kSampler "4" "5",
     graphNode "4" "CheckpointLoaderSimple"
       [("ckpt_name", .str g.profile.checkpointName)],
     g.emptyLatent "5" "EmptyLatentImage",
     graphNode "6" "CLIPTextEncode"
       [("text", .str g.promptText), ("clip", graphLink "4" 1)],
     graphNode "7" "CLIPTextEncode"
       [("text", .str g.profile.negativePrompt), ("clip", graphLink "4" 1)],
     graphNode "8" "VAEDecode"
       [("samples", graphLink "3" 0), ("vae", graphLink "4" 2)],
     g.saveImage]

/-- `_build_split_auraflow_graph`. -/
def buildSplitAuraflowGraph (clipType : String) : Json :=
  .obj
    [g.kSampler "66" "58",
     graphNode "6" "CLIPTextEncode"
       [("text", .str g.promptText), ("clip", graphLink "38" 0)],
     graphNode "7" "CLIPTextEncode"
       [("text", .str g.profile.negativePrompt), ("clip", graphLink "38" 0)],
     graphNode "8" "VAEDecode"
       [("samples", graphLink "3" 0), ("vae", graphLink "39" 0)],
     g.saveImage,
     graphNode "37" "UNETLoader"
       [("unet_name", .str g.profile.diffusionModelName),
        ("weight_dtype", .str "default")],
     graphNode "38" "CLIPLoader"
       [("clip_name", .str g.profile.clipName), ("type", .str clipType),
        ("device", .str "default")],
     graphNode "39" "VAELoader" [("vae_name", .str g.profile.vaeName)],
     g.emptyLatent "58" "EmptySD3LatentImage",
     graphNode "66" "ModelSamplingAuraFlow"
       [("model", graphLink "37" 0),
        ("shift", .float g.profile.modelSamplingShift)]]

end GraphInputs

namespace LiveConfig

variable (host : AdmissionHost) (config : LiveConfig)

/-- `_resolve_active_profile`. -/
def resolveActiveProfile (payload : Dict) : Except PyError ComfyProfile := do
  let key := payload.get "model_profile"
  let found ← (if key.truthy then key.getFrom config.profiles else .ok none)
  let profile := found.getD config.defaultProfile
  if !(payload.get "model_overrides").truthy then
    return profile
  match config.overrideAllowlists with
  | none => return profile
  | some allowlists =>
      match validateOverrides host allowlists
          ⟨payload.get "model_overrides", payload.isDict_get _⟩ with
      | .ok validated => return applyOverrides profile validated
      | .error (.invalidComfyOverride _) => return applyOverrides profile .empty
      | .error exc => .error exc.className

/-- `_build_prompt_graph`.  `randomSeed` is `uuid.uuid4().int % (2**32)`. -/
def buildPromptGraph (randomSeed : Nat) (filenamePrefix : String)
    (payload : Dict) : Except PyError Json := do
  let profile ← config.resolveActiveProfile host payload
  let promptText := basePrompt host.toHost payload.members
  let (width, height) ← resolveDimensions (payload.get "aspect_ratio")
    (payload.get "resolution") profile.modelFamily
  let seed ← ((payload.get "seed").orElse (.int randomSeed)).toInt host
  let inputs : GraphInputs :=
    ⟨profile, promptText, width, height, seed, filenamePrefix⟩
  match profile.modelFamily with
  | .qwenImage => return inputs.buildSplitAuraflowGraph "qwen_image"
  | .zImageTurbo => return inputs.buildSplitAuraflowGraph "lumina2"
  | .checkpoint => return inputs.buildCheckpointGraph

/-- The builder, for the members of a payload.  A Python dict has no key
twice. -/
def graph (randomSeed : Nat) (filenamePrefix : String)
    (payload : List (String × Json)) : Except PyError Json :=
  if h : (Json.obj payload).IsDict then
    config.buildPromptGraph host randomSeed filenamePrefix ⟨payload, h⟩
  else .error "TypeError"

end LiveConfig

/-! ## Validated overrides -/

/-- The value has the type of its field. -/
def overrideTyped (field : String) (x : Json) : Prop :=
  if field = "steps" then ∃ n, x = .int n
  else if field = "cfg_scale" then ∃ v, x = .float v
  else ∃ s, x = .str s

/-- Every override has the type of its field. -/
def Dict.Typed (overrides : Dict) : Prop :=
  ∀ m ∈ overrides.members, overrideTyped m.1 m.2

theorem Dict.typed_empty : Dict.empty.Typed := fun _ h => by cases h

theorem Dict.Typed.set {overrides : Dict} (h : overrides.Typed) {field : String}
    {x : Json} {hx : x.IsDict} (hfield : overrideTyped field x) :
    (overrides.set field x hx).Typed := by
  intro m hm
  rcases Json.mem_setMember hm with rfl | hm
  · exact hfield
  · exact h m hm

theorem Dict.Typed.lookup {overrides : Dict} (h : overrides.Typed)
    {field : String} {x : Json}
    (hx : Json.lookup field overrides.members = some x) :
    overrideTyped field x := by
  obtain ⟨m, hm, rfl⟩ := Option.map_eq_some_iff.mp hx
  have hfield : m.1 = field := by simpa using List.find?_some hm
  rw [← hfield]
  exact h m (List.mem_of_find?_eq_some hm)

section Overrides

variable {host : AdmissionHost} {allowlists : OverrideAllowlists}
  {overrides validated : Dict}

theorem ne_of_mem_stringAllowlistFields {field : String × List String}
    (h : field ∈ stringAllowlistFields allowlists) :
    field.1 ≠ "steps" ∧ field.1 ≠ "cfg_scale" := by
  have hnames : field.1 ∈ (stringAllowlistFields allowlists).map Prod.fst :=
    List.mem_map_of_mem h
  have hall : ∀ name ∈ (stringAllowlistFields allowlists).map Prod.fst,
      name ≠ "steps" ∧ name ≠ "cfg_scale" := by
    show ∀ name ∈ ["checkpoint_name", "diffusion_model_name", "clip_name",
      "vae_name", "sampler_name", "scheduler"], _
    decide
  exact hall _ hnames

/-- The fields with an allowlist are texts. -/
theorem overrideTyped_stringAllowlist {field : String × List String}
    (h : field ∈ stringAllowlistFields allowlists) (s : String) :
    overrideTyped field.1 (.str s) := by
  have hfield := ne_of_mem_stringAllowlistFields h
  unfold overrideTyped
  rw [if_neg hfield.1, if_neg hfield.2]
  exact ⟨s, rfl⟩

theorem typed_validateStringField {field : String × List String} {after : Dict}
    (hfield : field ∈ stringAllowlistFields allowlists) (h : validated.Typed)
    (hafter : validateStringField host overrides validated field = .ok after) :
    after.Typed := by
  unfold validateStringField at hafter
  split at hafter
  · cases hafter
    exact h
  · split at hafter
    · cases hafter
    · dsimp only at hafter
      split at hafter
      · cases hafter
      · split at hafter
        · cases hafter
          exact h.set (overrideTyped_stringAllowlist hfield _)
        · cases hafter

/-- The loop over the fields with an allowlist. -/
theorem typed_validateStringFields {fields : List (String × List String)}
    (hfields : ∀ field ∈ fields, field ∈ stringAllowlistFields allowlists) :
    ∀ {validated after : Dict}, validated.Typed →
      fields.foldlM (validateStringField host overrides) validated = .ok after →
      after.Typed := by
  induction fields with
  | nil =>
      intro validated after h hafter
      cases hafter
      exact h
  | cons field fields ih =>
      intro validated after h hafter
      rw [List.foldlM_cons] at hafter
      obtain ⟨next, hnext, hafter⟩ := bind_eq_ok.mp hafter
      have hhead := hfields field (List.mem_cons_self ..)
      exact ih (fun f hf => hfields f (List.mem_cons_of_mem field hf))
        (typed_validateStringField hhead h hnext) hafter

theorem typed_validateSteps {after : Dict} (h : validated.Typed)
    (hafter : validateSteps host allowlists overrides validated = .ok after) :
    after.Typed := by
  unfold validateSteps at hafter
  split at hafter
  · cases hafter
    exact h
  · split at hafter
    · split at hafter
      · cases hafter
        exact h.set ⟨_, rfl⟩
      · cases hafter
        exact h
    · split at hafter
      · cases hafter
      · cases hafter
        exact h

theorem typed_validateCfgScale {after : Dict} (h : validated.Typed)
    (hafter : validateCfgScale host allowlists overrides validated = .ok after) :
    after.Typed := by
  unfold validateCfgScale at hafter
  split at hafter
  · cases hafter
    exact h
  · split at hafter
    · split at hafter
      · cases hafter
        exact h.set ⟨_, rfl⟩
      · cases hafter
        exact h
    · split at hafter
      · cases hafter
      · cases hafter
        exact h

theorem typed_validateNegativePrompt {after : Dict} (h : validated.Typed)
    (hafter : validateNegativePrompt host allowlists overrides validated =
      .ok after) : after.Typed := by
  unfold validateNegativePrompt at hafter
  split at hafter
  · cases hafter
    exact h
  · split at hafter
    · cases hafter
      exact h.set ⟨_, rfl⟩
    · cases hafter

/-- **What a validation returns has the types of the fields.** -/
theorem typed_validateOverrides {x : { x : Json // x.IsDict }} {after : Dict}
    (h : validateOverrides host allowlists x = .ok after) : after.Typed := by
  unfold validateOverrides at h
  split at h
  · cases h
    exact Dict.typed_empty
  · dsimp only at h
    split at h
    · cases h
    · obtain ⟨texts, htexts, h⟩ := bind_eq_ok.mp h
      obtain ⟨steps, hsteps, h⟩ := bind_eq_ok.mp h
      obtain ⟨scale, hscale, h⟩ := bind_eq_ok.mp h
      have htyped := typed_validateStringFields (fun _ hf => hf)
        Dict.typed_empty htexts
      exact typed_validateNegativePrompt
        (typed_validateCfgScale (typed_validateSteps htyped hsteps) hscale) h
  · cases h

/-- The computation returns, or raises what the client catches. -/
def Caught {α : Type} (x : Except AdmissionError α) : Prop :=
  Returns x ∨ ∃ message, x = .error (.invalidComfyOverride message)

theorem Caught.bind {α β : Type} {x : Except AdmissionError α}
    {f : α → Except AdmissionError β} (hx : Caught x) (hf : ∀ u, Caught (f u)) :
    Caught (x >>= f) := by
  rcases hx with ⟨u, rfl⟩ | ⟨message, rfl⟩
  · exact hf u
  · exact .inr ⟨message, rfl⟩

/-- A text can always be printed. -/
theorem caught_validateStringField (h : overrides.Typed)
    {field : String × List String}
    (hfield : field ∈ stringAllowlistFields allowlists) (validated : Dict) :
    Caught (validateStringField host overrides validated field) := by
  unfold validateStringField
  cases hx : Json.lookup field.1 overrides.members with
  | none => exact .inl (returns_ok _)
  | some x =>
      obtain ⟨s, rfl⟩ : ∃ s, x = .str s := by
        have htyped := h.lookup hx
        have hname := ne_of_mem_stringAllowlistFields hfield
        unfold overrideTyped at htyped
        rwa [if_neg hname.1, if_neg hname.2] at htyped
      show Caught (if field.2 = [] then _ else if _ then _ else _)
      split
      · exact .inr ⟨_, rfl⟩
      · split
        · exact .inl (returns_ok _)
        · exact .inr ⟨_, rfl⟩

theorem caught_validateStringFields (h : overrides.Typed)
    {fields : List (String × List String)}
    (hfields : ∀ field ∈ fields, field ∈ stringAllowlistFields allowlists) :
    ∀ validated : Dict,
      Caught (fields.foldlM (validateStringField host overrides) validated) := by
  induction fields with
  | nil =>
      intro validated
      exact .inl (returns_ok validated)
  | cons field fields ih =>
      intro validated
      have hhead := hfields field (List.mem_cons_self ..)
      rw [List.foldlM_cons]
      exact (caught_validateStringField h hhead validated).bind
        (ih (fun f hf => hfields f (List.mem_cons_of_mem field hf)))

/-- A whole number is never out of `int`'s range. -/
theorem returns_validateSteps (h : overrides.Typed) (validated : Dict) :
    Returns (validateSteps host allowlists overrides validated) := by
  unfold validateSteps
  cases hsteps : Json.lookup "steps" overrides.members with
  | none => exact returns_ok validated
  | some x =>
      obtain ⟨n, rfl⟩ : ∃ n, x = .int n := h.lookup hsteps
      dsimp only [Json.toInt]
      split
      · exact returns_ok _
      · exact returns_ok _

/-- A float is never out of `float`'s range. -/
theorem returns_validateCfgScale (h : overrides.Typed) (validated : Dict) :
    Returns (validateCfgScale host allowlists overrides validated) := by
  unfold validateCfgScale
  cases hscale : Json.lookup "cfg_scale" overrides.members with
  | none => exact returns_ok validated
  | some x =>
      obtain ⟨v, rfl⟩ : ∃ v, x = .float v := h.lookup hscale
      dsimp only [Json.toFloat]
      split
      · exact returns_ok _
      · exact returns_ok _

theorem returns_validateNegativePrompt (h : overrides.Typed) (validated : Dict) :
    Returns (validateNegativePrompt host allowlists overrides validated) := by
  unfold validateNegativePrompt
  cases htext : Json.lookup "negative_prompt" overrides.members with
  | none => exact returns_ok validated
  | some x =>
      obtain ⟨s, rfl⟩ : ∃ s, x = .str s := h.lookup htext
      exact returns_ok _

/-- **Overrides that were validated once raise nothing but what is caught**,
whatever the allowlists are now. -/
theorem validateOverrides_of_typed (h : overrides.Typed) :
    Caught (validateOverrides host allowlists ⟨overrides.json, overrides.isDict⟩) := by
  show Caught (if unknownKeys overrides ≠ [] then _ else _)
  split
  · exact .inr ⟨_, rfl⟩
  · refine (caught_validateStringFields h (fun _ hf => hf) _).bind
      (fun texts => ?_)
    refine Caught.bind (.inl (returns_validateSteps h texts)) (fun steps => ?_)
    refine Caught.bind (.inl (returns_validateCfgScale h steps)) (fun scale => ?_)
    exact .inl (returns_validateNegativePrompt h scale)

end Overrides

/-! ## Payloads a graph can be drawn for -/

namespace Json

/-- Can the value, or what replaces a falsy one, be looked up in a dict?  A list
or a dict that is not empty cannot. -/
def usableKey : Json → Bool
  | arr items => items.isEmpty
  | obj members => members.isEmpty
  | _ => true

/-- Can `int` read the value, or is it falsy and gets replaced? -/
def usableInt (host : AdmissionHost) : Json → Bool
  | float (.finite _) => true
  | float .negZero => true
  | float _ => false
  | str s => s = "" ||
      decide ((s.toList.filter (fun c => (host.digit c).isSome)).length ≤
        maxStrDigits) && (pyInt host.toHost s).isSome
  | arr items => items.isEmpty
  | obj members => members.isEmpty
  | _ => true

theorem hashable_orElse (x : Json) (s : String) :
    (x.orElse (.str s)).hashable = x.usableKey := by
  unfold orElse
  cases x with
  | arr items => cases items <;> rfl
  | obj members => cases members <;> rfl
  | null => rfl
  | bool b => cases b <;> rfl
  | int n => split <;> rfl
  | float v => split <;> rfl
  | str t => split <;> rfl

theorem returns_getFrom {α : Type} (table : List (String × α)) (x : Json) :
    Returns (x.getFrom table) ↔ x.hashable = true := by
  unfold getFrom
  split
  · rename_i hhashable
    refine iff_of_true ?_ hhashable
    split
    · exact returns_ok _
    · exact returns_ok _
  · rename_i hhashable
    exact iff_of_false (not_returns_error _) hhashable

theorem returns_toInt_str (host : AdmissionHost) (s : String) :
    Returns ((str s).toInt host) ↔
      (s.toList.filter (fun c => (host.digit c).isSome)).length ≤ maxStrDigits ∧
        (pyInt host.toHost s).isSome = true := by
  unfold toInt
  dsimp only
  by_cases hlong :
      maxStrDigits < (s.toList.filter (fun c => (host.digit c).isSome)).length
  · rw [if_pos hlong]
    exact iff_of_false (not_returns_error _) (fun h => by omega)
  · rw [if_neg hlong]
    cases pyInt host.toHost s with
    | none => exact iff_of_false (not_returns_error _) (fun h => by cases h.2)
    | some n => exact iff_of_true (returns_ok n) ⟨by omega, rfl⟩

/-- When the conversion of a seed raises nothing. -/
theorem returns_toInt_orElse (host : AdmissionHost) (x : Json) (n : Int) :
    Returns ((x.orElse (.int n)).toInt host) ↔ x.usableInt host = true := by
  have hint : Returns ((int n).toInt host) := returns_ok n
  cases x with
  | null => exact iff_of_true hint rfl
  | bool b =>
      refine iff_of_true ?_ rfl
      cases b with
      | false => exact hint
      | true => exact returns_ok 1
  | int m =>
      refine iff_of_true ?_ rfl
      unfold orElse
      split
      · exact returns_ok m
      · exact hint
  | float v =>
      unfold orElse
      cases v with
      | finite value =>
          refine iff_of_true ?_ rfl
          split
          · exact returns_ok _
          · exact hint
      | negZero => exact iff_of_true hint rfl
      | inf => exact iff_of_false (not_returns_error _) Bool.false_ne_true
      | negInf => exact iff_of_false (not_returns_error _) Bool.false_ne_true
      | nan => exact iff_of_false (not_returns_error _) Bool.false_ne_true
  | str s =>
      by_cases hempty : s = ""
      · rw [hempty]
        exact iff_of_true hint rfl
      · have htruthy : (str s).orElse (.int n) = str s := by
          simp [orElse, truthy, hempty]
        rw [htruthy, returns_toInt_str]
        simp [usableInt, hempty]
  | arr items =>
      cases items with
      | nil => exact iff_of_true hint rfl
      | cons x items => exact iff_of_false (not_returns_error _) Bool.false_ne_true
  | obj members =>
      cases members with
      | nil => exact iff_of_true hint rfl
      | cons m members =>
          exact iff_of_false (not_returns_error _) Bool.false_ne_true

end Json

theorem returns_resolveDimensions (aspectRatio resolution : Json)
    (family : ModelFamily) :
    Returns (resolveDimensions aspectRatio resolution family) ↔
      aspectRatio.usableKey = true ∧ resolution.usableKey = true := by
  have hbase := Json.returns_getFrom (dimensionTable family).1
    (aspectRatio.orElse (.str "1:1"))
  have hscale := Json.returns_getFrom resolutionScale
    (resolution.orElse (.str "1K"))
  rw [Json.hashable_orElse] at hbase hscale
  rw [← hbase, ← hscale]
  refine returns_bind (fun base _ => ?_)
  exact returns_bind_of_forall (fun scale => returns_ok _)

/-- A payload as the admission leaves it: a profile, and overrides it has
validated. -/
structure Dict.Normalised (payload : Dict) : Prop where
  modelProfile : ∃ key, payload.get "model_profile" = .str key
  modelOverrides : ∃ overrides : Dict, overrides.Typed ∧
    payload.get "model_overrides" = overrides.json

/-- A payload with a size and a seed that can be used. -/
structure Dict.Drawable (host : AdmissionHost) (payload : Dict) : Prop where
  aspectRatio : (payload.get "aspect_ratio").usableKey = true
  resolution : (payload.get "resolution").usableKey = true
  seed : (payload.get "seed").usableInt host = true

section Graph

variable {host : AdmissionHost} {config : LiveConfig} {payload : Dict}

/-- A profile is always found. -/
theorem returns_resolveActiveProfile (h : payload.Normalised) :
    Returns (config.resolveActiveProfile host payload) := by
  obtain ⟨key, hkey⟩ := h.modelProfile
  obtain ⟨overrides, htyped, hoverrides⟩ := h.modelOverrides
  have hfound : Returns (if (payload.get "model_profile").truthy then
      (payload.get "model_profile").getFrom config.profiles else .ok none) := by
    split
    · rw [hkey]
      exact (Json.returns_getFrom _ _).mpr rfl
    · exact returns_ok _
  unfold LiveConfig.resolveActiveProfile
  refine (returns_bind_of_forall (fun found => ?_)).mpr hfound
  split
  · exact returns_ok _
  · split
    · exact returns_ok _
    · rename_i allowlists _
      have hcaught : Caught (validateOverrides host allowlists
          ⟨payload.get "model_overrides", payload.isDict_get _⟩) := by
        have hsubtype : (⟨payload.get "model_overrides", payload.isDict_get _⟩ :
            { x : Json // x.IsDict }) = ⟨overrides.json, overrides.isDict⟩ :=
          Subtype.ext hoverrides
        rw [hsubtype]
        exact validateOverrides_of_typed htyped
      rcases hcaught with ⟨validated, hvalidated⟩ | ⟨message, hvalidated⟩
      · rw [hvalidated]
        exact returns_ok _
      · rw [hvalidated]
        exact returns_ok _

/-- **The builder raises nothing exactly if the size and the seed can be used**,
whichever profile is picked. -/
theorem returns_buildPromptGraph (h : payload.Normalised) (randomSeed : Nat)
    (filenamePrefix : String) :
    Returns (config.buildPromptGraph host randomSeed filenamePrefix payload) ↔
      payload.Drawable host := by
  have hseed := Json.returns_toInt_orElse host (payload.get "seed") randomSeed
  have hbuilt : Returns
      (config.buildPromptGraph host randomSeed filenamePrefix payload) ↔
      Returns (config.resolveActiveProfile host payload) ∧
        ((payload.get "aspect_ratio").usableKey = true ∧
          (payload.get "resolution").usableKey = true) ∧
          (payload.get "seed").usableInt host = true := by
    unfold LiveConfig.buildPromptGraph
    refine returns_bind (fun profile _ => ?_)
    rw [← returns_resolveDimensions _ _ profile.modelFamily]
    refine returns_bind (fun size _ => ?_)
    rw [← hseed]
    refine returns_bind_of_forall (fun seed => ?_)
    cases profile.modelFamily with
    | checkpoint => exact returns_ok _
    | qwenImage => exact returns_ok _
    | zImageTurbo => exact returns_ok _
  rw [hbuilt]
  constructor
  · rintro ⟨_, ⟨haspect, hresolution⟩, hseed⟩
    exact ⟨haspect, hresolution, hseed⟩
  · rintro ⟨haspect, hresolution, hseed⟩
    exact ⟨returns_resolveActiveProfile h, ⟨haspect, hresolution⟩, hseed⟩

end Graph

end Imagin4.Ports
