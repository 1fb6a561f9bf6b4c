import Imagin4.Ports.AdmittedOverrides
import Imagin4.Ports.PromptGraph

/-!
# The templates of the prompt graphs

Whatever a payload says, the graph that is built for it is one of two templates
with some inputs filled in.  A payload chooses a profile by its name; of the
overrides only what the allowlists admit gets into the graph, and it never takes
the profile's own negative prompt away.

## Main results

* `applyOverrides_eq` — each field of a profile is the override's, or its own.
* `built_from_template` — the ids, class types and links of a graph, and what its
  inputs can be.
-/

namespace Imagin4.Ports

open Imagin4.Verified

/-! ## Profiles with overrides -/

/-- A text override, or the profile's own text. -/
def textOr (own : String) : Option Json → String
  | some (.str s) => s
  | _ => own

/-- An override of `steps`, or the profile's own. -/
def intOr (own : Int) : Option Json → Int
  | some (.int n) => n
  | _ => own

/-- An override of `cfg_scale`, or the profile's own. -/
def floatOr (own : PyFloat) : Option Json → PyFloat
  | some (.float x) => x
  | _ => own

/-- The negative prompt, with that of the overrides behind it. -/
def joinedOr (own : String) : Option Json → String
  | some (.str s) => joinNegativePrompt own s
  | _ => own

/-- One override, field by field. -/
theorem override_eq (profile : ComfyProfile) (k : String) (x : Json) :
    profile.override (k, x) = { profile with
      checkpointName := if k = "checkpoint_name" then
        textOr profile.checkpointName (some x) else profile.checkpointName
      diffusionModelName := if k = "diffusion_model_name" then
        textOr profile.diffusionModelName (some x) else profile.diffusionModelName
      clipName := if k = "clip_name" then
        textOr profile.clipName (some x) else profile.clipName
      vaeName := if k = "vae_name" then
        textOr profile.vaeName (some x) else profile.vaeName
      samplerName := if k = "sampler_name" then
        textOr profile.samplerName (some x) else profile.samplerName
      scheduler := if k = "scheduler" then
        textOr profile.scheduler (some x) else profile.scheduler
      steps := if k = "steps" then intOr profile.steps (some x) else profile.steps
      cfgScale := if k = "cfg_scale" then
        floatOr profile.cfgScale (some x) else profile.cfgScale
      negativePrompt := if k = "negative_prompt" then
        joinedOr profile.negativePrompt (some x) else profile.negativePrompt } := by
  unfold ComfyProfile.override
  split
  case h_10 hcheckpoint hdiffusion hclip hvae hsampler hscheduler hsteps hcfg
      hnegative =>
    cases x with
    | str s =>
        have hnot : k ≠ "checkpoint_name" ∧ k ≠ "diffusion_model_name" ∧
            k ≠ "clip_name" ∧ k ≠ "vae_name" ∧ k ≠ "sampler_name" ∧
            k ≠ "scheduler" ∧ k ≠ "negative_prompt" := by
          refine ⟨?_, ?_, ?_, ?_, ?_, ?_, ?_⟩ <;> rintro rfl
          · exact hcheckpoint s rfl
          · exact hdiffusion s rfl
          · exact hclip s rfl
          · exact hvae s rfl
          · exact hsampler s rfl
          · exact hscheduler s rfl
          · exact hnegative s rfl
        simp [hnot, intOr, floatOr]
    | int n =>
        have hnot : k ≠ "steps" := by
          rintro rfl
          exact hsteps n rfl
        simp [hnot, textOr, floatOr, joinedOr]
    | float v =>
        have hnot : k ≠ "cfg_scale" := by
          rintro rfl
          exact hcfg v rfl
        simp [hnot, textOr, intOr, joinedOr]
    | _ => simp [textOr, intOr, floatOr, joinedOr]
  all_goals
    rename_i hmember
    cases hmember
    simp [textOr, intOr, floatOr, joinedOr]

/-- A key that comes first does not come again. -/
theorem read_cons {β : Type} (read : β → Option Json → β)
    (hnone : ∀ own, read own none = own) {k : String} {x : Json}
    {members : List (String × Json)} (hk : k ∉ members.map Prod.fst)
    (key : String) (own : β) :
    read (if k = key then read own (some x) else own) (Json.lookup key members) =
      read own (Json.lookup key ((k, x) :: members)) := by
  by_cases hkey : k = key
  · subst hkey
    have hrest : Json.lookup k members = none := by
      unfold Json.lookup
      rw [Option.map_eq_none_iff, List.find?_eq_none]
      intro m hm hmk
      exact hk (of_decide_eq_true hmk ▸ List.mem_map_of_mem hm)
    have hfirst : Json.lookup k ((k, x) :: members) = some x := by
      simp [Json.lookup]
    rw [if_pos rfl, hrest, hnone, hfirst]
  · have hskip : Json.lookup key ((k, x) :: members) = Json.lookup key members := by
      simp [Json.lookup, hkey]
    rw [if_neg hkey, hskip]

/-- **Each field of the profile is the override's, or the profile's own.** -/
theorem applyOverrides_eq (profile : ComfyProfile) (validated : Dict) :
    applyOverrides profile validated = { profile with
      checkpointName :=
        textOr profile.checkpointName (validated.lookup "checkpoint_name")
      diffusionModelName := textOr profile.diffusionModelName
        (validated.lookup "diffusion_model_name")
      clipName := textOr profile.clipName (validated.lookup "clip_name")
      vaeName := textOr profile.vaeName (validated.lookup "vae_name")
      samplerName := textOr profile.samplerName (validated.lookup "sampler_name")
      scheduler := textOr profile.scheduler (validated.lookup "scheduler")
      steps := intOr profile.steps (validated.lookup "steps")
      cfgScale := floatOr profile.cfgScale (validated.lookup "cfg_scale")
      negativePrompt := joinedOr profile.negativePrompt
        (validated.lookup "negative_prompt") } := by
  obtain ⟨members, hdict⟩ := validated
  have hkeys : (members.map Prod.fst).Nodup := by
    cases hdict with
    | obj hkeys _ => exact hkeys
  unfold applyOverrides Dict.lookup
  dsimp only
  clear hdict
  induction members generalizing profile with
  | nil => rfl
  | cons m members ih =>
      obtain ⟨k, x⟩ := m
      rw [List.map_cons, List.nodup_cons] at hkeys
      rw [List.foldl_cons, ih _ hkeys.2, override_eq]
      simp only [read_cons textOr (fun _ => rfl) hkeys.1,
        read_cons intOr (fun _ => rfl) hkeys.1,
        read_cons floatOr (fun _ => rfl) hkeys.1,
        read_cons joinedOr (fun _ => rfl) hkeys.1]

/-! ## Layered profiles -/

/-- The value is the profile's own, or the allowlists have it. -/
def OwnOrListed {α : Type} (allowlists : Option OverrideAllowlists)
    (listed : OverrideAllowlists → α → Prop) (own value : α) : Prop :=
  value = own ∨ ∃ a, allowlists = some a ∧ listed a value

/-- A name in one of the allowlists. -/
def Listed (names : OverrideAllowlists → List String) (a : OverrideAllowlists)
    (name : String) : Prop := name ∈ names a

/-- Steps in the range. -/
def StepsListed (a : OverrideAllowlists) (n : Int) : Prop :=
  a.minSteps ≤ n ∧ n ≤ a.maxSteps

/-- A scale in the range. -/
def CfgScaleListed (a : OverrideAllowlists) (x : PyFloat) : Prop :=
  x.between a.minCfgScale a.maxCfgScale = true

/-- A text with another one in it. -/
def Contains (part text : String) : Prop := part.toList <:+: text.toList

/-- What overrides can make of a profile. -/
structure Layered (allowlists : Option OverrideAllowlists)
    (own profile : ComfyProfile) : Prop where
  modelFamily : profile.modelFamily = own.modelFamily
  checkpointName : OwnOrListed allowlists (Listed OverrideAllowlists.checkpoints)
    own.checkpointName profile.checkpointName
  diffusionModelName : OwnOrListed allowlists
    (Listed OverrideAllowlists.diffusionModels) own.diffusionModelName
      profile.diffusionModelName
  clipName : OwnOrListed allowlists (Listed OverrideAllowlists.clips)
    own.clipName profile.clipName
  vaeName : OwnOrListed allowlists (Listed OverrideAllowlists.vaes)
    own.vaeName profile.vaeName
  samplerName : OwnOrListed allowlists (Listed OverrideAllowlists.samplers)
    own.samplerName profile.samplerName
  scheduler : OwnOrListed allowlists (Listed OverrideAllowlists.schedulers)
    own.scheduler profile.scheduler
  steps : OwnOrListed allowlists StepsListed own.steps profile.steps
  cfgScale : OwnOrListed allowlists CfgScaleListed own.cfgScale profile.cfgScale
  negativePrompt : Contains (strip own.negativePrompt) profile.negativePrompt

theorem strip_infix (s : String) : (strip s).toList <:+: s.toList := by
  unfold strip
  rw [String.toList_ofList]
  have hfront : (s.toList.dropWhile isSpace) <:+ s.toList :=
    List.dropWhile_suffix isSpace
  have hback : (((s.toList.dropWhile isSpace).reverse.dropWhile isSpace).reverse)
      <+: s.toList.dropWhile isSpace := by
    have hsuffix := List.dropWhile_suffix isSpace
      (l := (s.toList.dropWhile isSpace).reverse)
    simpa using List.reverse_prefix.mpr hsuffix
  exact hback.isInfix.trans hfront.isInfix

/-- The profile's own negative prompt stays. -/
theorem contains_joinNegativePrompt (own caller : String) :
    Contains (strip own) (joinNegativePrompt own caller) := by
  unfold joinNegativePrompt Contains
  dsimp only
  by_cases hcaller : strip caller = ""
  · simp [hcaller, orDefault]
  · by_cases hown : strip own = ""
    · simp [hown]
    · simp only [hcaller, hown, ne_eq, not_false_eq_true, and_self, if_true,
        String.toList_append, List.append_assoc]
      exact (List.prefix_append _ _).isInfix

theorem layered_self (allowlists : Option OverrideAllowlists)
    (own : ComfyProfile) : Layered allowlists own own where
  modelFamily := rfl
  checkpointName := .inl rfl
  diffusionModelName := .inl rfl
  clipName := .inl rfl
  vaeName := .inl rfl
  samplerName := .inl rfl
  scheduler := .inl rfl
  steps := .inl rfl
  cfgScale := .inl rfl
  negativePrompt := strip_infix own.negativePrompt

section Layers

variable {host : AdmissionHost} {allowlists : OverrideAllowlists}
  {overrides validated : Dict}

theorem ownOrListed_textOr {names : OverrideAllowlists → List String}
    {x : Option Json}
    (h : ∀ v, x = some v → ∃ s, v = .str s ∧ s ∈ names allowlists)
    (own : String) :
    OwnOrListed (some allowlists) (Listed names) own (textOr own x) := by
  cases x with
  | none => exact .inl rfl
  | some v =>
      obtain ⟨s, rfl, hs⟩ := h v rfl
      exact .inr ⟨allowlists, rfl, hs⟩

/-- Validated overrides are a layer on any profile. -/
theorem layered_applyOverrides
    (h : validateOverrides host allowlists ⟨overrides.json, overrides.isDict⟩ =
      .ok validated) (own : ComfyProfile) :
    Layered (some allowlists) own (applyOverrides own validated) := by
  have htext : ∀ {name : String} {names : OverrideAllowlists → List String},
      (name, names allowlists) ∈ stringAllowlistFields allowlists →
      ∀ own, OwnOrListed (some allowlists) (Listed names) own
        (textOr own (validated.lookup name)) :=
    fun hfield => ownOrListed_textOr (fun v hv => text_of_lookup h hfield hv)
  rw [applyOverrides_eq]
  constructor
  case modelFamily => rfl
  case checkpointName => exact htext (by simp [stringAllowlistFields]) _
  case diffusionModelName => exact htext (by simp [stringAllowlistFields]) _
  case clipName => exact htext (by simp [stringAllowlistFields]) _
  case vaeName => exact htext (by simp [stringAllowlistFields]) _
  case samplerName => exact htext (by simp [stringAllowlistFields]) _
  case scheduler => exact htext (by simp [stringAllowlistFields]) _
  case steps =>
    cases hv : validated.lookup "steps" with
    | none => exact .inl rfl
    | some v =>
        obtain ⟨n, rfl, hn⟩ := steps_of_lookup h hv
        exact .inr ⟨allowlists, rfl, hn⟩
  case cfgScale =>
    cases hv : validated.lookup "cfg_scale" with
    | none => exact .inl rfl
    | some v =>
        obtain ⟨cfg, rfl, hcfg⟩ := cfgScale_of_lookup h hv
        exact .inr ⟨allowlists, rfl, hcfg⟩
  case negativePrompt =>
    cases hv : validated.lookup "negative_prompt" with
    | none => exact strip_infix own.negativePrompt
    | some v =>
        obtain ⟨x, -, rfl⟩ := negativePrompt_of_lookup h hv
        simp only [joinedOr]
        exact contains_joinNegativePrompt own.negativePrompt _

theorem applyOverrides_empty (own : ComfyProfile) :
    applyOverrides own .empty = own := rfl

/-- The profile a payload names, without the overrides. -/
def LiveConfig.namedProfile (config : LiveConfig) (payload : Dict) :
    Except PyError ComfyProfile := do
  let key := payload.get "model_profile"
  let found ← (if key.truthy then key.getFrom config.profiles else .ok none)
  return found.getD config.defaultProfile

/-- **The overrides of any payload are a layer on the profile it names.** -/
theorem layered_resolveActiveProfile {config : LiveConfig} {payload : Dict}
    {profile : ComfyProfile}
    (h : config.resolveActiveProfile host payload = .ok profile) :
    ∃ own, config.namedProfile payload = .ok own ∧
      Layered config.overrideAllowlists own profile := by
  unfold LiveConfig.resolveActiveProfile at h
  obtain ⟨found, hfound, h⟩ := bind_eq_ok.mp h
  refine ⟨found.getD config.defaultProfile, ?_, ?_⟩
  · exact bind_eq_ok.mpr ⟨found, hfound, rfl⟩
  · dsimp only at h
    split at h
    · cases h
      exact layered_self _ _
    · split at h
      · cases h
        exact layered_self _ _
      · rename_i a ha
        rw [ha]
        split at h
        · rename_i validated hvalidated
          cases h
          rcases value_of_validateOverrides hvalidated with
            ⟨-, rfl⟩ | ⟨overrides, hoverrides⟩
          · rw [applyOverrides_empty]
            exact layered_self _ _
          · rw [hoverrides] at hvalidated
            exact layered_applyOverrides hvalidated _
        · cases h
          rw [applyOverrides_empty]
          exact layered_self _ _
        · cases h

end Layers

/-! ## Templates -/

/-- A node of a template: its id, its class type and its inputs, each with the
output it is linked to, if it is. -/
structure TemplateNode where
  id : String
  classType : String
  inputs : List (String × Option (String × Int))
deriving DecidableEq

/-- The sampler of a template. -/
def samplerNode (model latentImage : String) : TemplateNode where
  id := "3"
  classType := "KSampler"
  inputs := [("seed", none), ("steps", none), ("cfg", none),
    ("sampler_name", none), ("scheduler", none), ("denoise", none),
    ("model", some (model, 0)), ("positive", some ("6", 0)),
    ("negative", some ("7", 0)), ("latent_image", some (latentImage, 0))]

/-- The template of a single checkpoint file. -/
def checkpointTemplate : List TemplateNode :=
  [samplerNode "4" "5",
   ⟨"4", "CheckpointLoaderSimple", [("ckpt_name", none)]⟩,
   ⟨"5", "EmptyLatentImage",
    [("width", none), ("height", none), ("batch_size", none)]⟩,
   ⟨"6", "CLIPTextEncode", [("text", none), ("clip", some ("4", 1))]⟩,
   ⟨"7", "CLIPTextEncode", [("text", none), ("clip", some ("4", 1))]⟩,
   ⟨"8", "VAEDecode", [("samples", some ("3", 0)), ("vae", some ("4", 2))]⟩,
   ⟨"9", "SaveImage", [("filename_prefix", none), ("images", some ("8", 0))]⟩]

/-- The template of split model files. -/
def splitAuraflowTemplate : List TemplateNode :=
  [samplerNode "66" "58",
   ⟨"6", "CLIPTextEncode", [("text", none), ("clip", some ("38", 0))]⟩,
   ⟨"7", "CLIPTextEncode", [("text", none), ("clip", some ("38", 0))]⟩,
   ⟨"8", "VAEDecode", [("samples", some ("3", 0)), ("vae", some ("39", 0))]⟩,
   ⟨"9", "SaveImage", [("filename_prefix", none), ("images", some ("8", 0))]⟩,
   ⟨"37", "UNETLoader", [("unet_name", none), ("weight_dtype", none)]⟩,
   ⟨"38", "CLIPLoader", [("clip_name", none), ("type", none), ("device", none)]⟩,
   ⟨"39", "VAELoader", [("vae_name", none)]⟩,
   ⟨"58", "EmptySD3LatentImage",
    [("width", none), ("height", none), ("batch_size", none)]⟩,
   ⟨"66", "ModelSamplingAuraFlow",
    [("model", some ("37", 0)), ("shift", none)]⟩]

/-- The template of a family. -/
def template : ModelFamily → List TemplateNode
  | .checkpoint => checkpointTemplate
  | .qwenImage => splitAuraflowTemplate
  | .zImageTurbo => splitAuraflowTemplate

/-- A node of a graph. -/
structure GraphNode where
  id : String
  classType : String
  inputs : List (String × Json)

namespace Json

/-- The output an input is linked to. -/
def linkOf : Json → Option (String × Int)
  | arr [str id, int output] => some (id, output)
  | _ => none

/-- A node, under its id. -/
def nodeOf : String × Json → Option GraphNode
  | (id, obj [("class_type", str classType), ("inputs", obj inputs)]) =>
      some ⟨id, classType, inputs⟩
  | _ => none

/-- The nodes of a graph. -/
def nodesOf : Json → Option (List GraphNode)
  | obj nodes => nodes.mapM nodeOf
  | _ => none

end Json

/-- What a node has of a template. -/
def GraphNode.template (node : GraphNode) : TemplateNode where
  id := node.id
  classType := node.classType
  inputs := node.inputs.map (fun input => (input.1, input.2.linkOf))

/-- What an input of a node can be. -/
def InputFilled (allowlists : Option OverrideAllowlists) (own : ComfyProfile)
    (node : String) : String × Json → Prop
  | ("ckpt_name", x) => ∃ s, x = .str s ∧ OwnOrListed allowlists
      (Listed OverrideAllowlists.checkpoints) own.checkpointName s
  | ("unet_name", x) => ∃ s, x = .str s ∧ OwnOrListed allowlists
      (Listed OverrideAllowlists.diffusionModels) own.diffusionModelName s
  | ("clip_name", x) => ∃ s, x = .str s ∧ OwnOrListed allowlists
      (Listed OverrideAllowlists.clips) own.clipName s
  | ("vae_name", x) => ∃ s, x = .str s ∧ OwnOrListed allowlists
      (Listed OverrideAllowlists.vaes) own.vaeName s
  | ("sampler_name", x) => ∃ s, x = .str s ∧ OwnOrListed allowlists
      (Listed OverrideAllowlists.samplers) own.samplerName s
  | ("scheduler", x) => ∃ s, x = .str s ∧ OwnOrListed allowlists
      (Listed OverrideAllowlists.schedulers) own.scheduler s
  | ("steps", x) => ∃ n, x = .int n ∧
      OwnOrListed allowlists StepsListed own.steps n
  | ("cfg", x) => ∃ v, x = .float v ∧
      OwnOrListed allowlists CfgScaleListed own.cfgScale v
  | ("text", x) => node = "7" →
      ∃ s, x = .str s ∧ Contains (strip own.negativePrompt) s
  | _ => True

/-- The inputs of a node are filled in with what they can be. -/
def GraphNode.FilledIn (allowlists : Option OverrideAllowlists)
    (own : ComfyProfile) (node : GraphNode) : Prop :=
  ∀ input ∈ node.inputs, InputFilled allowlists own node.id input

/-- A graph made from the template of the profile's family, with its values or
with what the allowlists admit. -/
def FromTemplate (allowlists : Option OverrideAllowlists) (own : ComfyProfile)
    (graph : Json) : Prop :=
  ∃ nodes, graph.nodesOf = some nodes ∧
    nodes.map GraphNode.template = template own.modelFamily ∧
    ∀ node ∈ nodes, node.FilledIn allowlists own

section Graphs

variable {allowlists : Option OverrideAllowlists} {own : ComfyProfile}
  {g : GraphInputs}

theorem filledIn_kSampler (h : Layered allowlists own g.profile)
    (model latentImage : String) (node : GraphNode)
    (hnode : Json.nodeOf (g.kSampler model latentImage) = some node) :
    node.FilledIn allowlists own := by
  cases hnode
  simp only [GraphNode.FilledIn, List.forall_mem_cons, List.not_mem_nil,
    false_imp_iff, implies_true, and_true]
  exact ⟨trivial, ⟨_, rfl, h.steps⟩, ⟨_, rfl, h.cfgScale⟩,
    ⟨_, rfl, h.samplerName⟩, ⟨_, rfl, h.scheduler⟩, trivial, trivial, trivial,
    trivial, trivial⟩

theorem fromTemplate_checkpoint (h : Layered allowlists own g.profile)
    (hfamily : template own.modelFamily = checkpointTemplate) :
    FromTemplate allowlists own g.buildCheckpointGraph := by
  refine ⟨[_, _, _, _, _, _, _], rfl, hfamily ▸ rfl, ?_⟩
  simp only [List.forall_mem_cons, List.not_mem_nil, false_imp_iff,
    implies_true, and_true]
  refine ⟨filledIn_kSampler h _ _ _ rfl, ?_, ?_, ?_, ?_, ?_, ?_⟩
  all_goals
    simp only [GraphNode.FilledIn, List.forall_mem_cons, List.not_mem_nil,
      false_imp_iff, implies_true, and_true]
  · exact ⟨_, rfl, h.checkpointName⟩
  · exact ⟨trivial, trivial, trivial⟩
  · exact ⟨fun hid => absurd hid (by decide), trivial⟩
  · exact ⟨fun _ => ⟨_, rfl, h.negativePrompt⟩, trivial⟩
  · exact ⟨trivial, trivial⟩
  · exact ⟨trivial, trivial⟩

theorem fromTemplate_splitAuraflow (h : Layered allowlists own g.profile)
    (hfamily : template own.modelFamily = splitAuraflowTemplate)
    (clipType : String) :
    FromTemplate allowlists own (g.buildSplitAuraflowGraph clipType) := by
  refine ⟨[_, _, _, _, _, _, _, _, _, _], rfl, hfamily ▸ rfl, ?_⟩
  simp only [List.forall_mem_cons, List.not_mem_nil, false_imp_iff,
    implies_true, and_true]
  refine ⟨filledIn_kSampler h _ _ _ rfl, ?_, ?_, ?_, ?_, ?_, ?_, ?_, ?_, ?_⟩
  all_goals
    simp only [GraphNode.FilledIn, List.forall_mem_cons, List.not_mem_nil,
      false_imp_iff, implies_true, and_true]
  · exact ⟨fun hid => absurd hid (by decide), trivial⟩
  · exact ⟨fun _ => ⟨_, rfl, h.negativePrompt⟩, trivial⟩
  · exact ⟨trivial, trivial⟩
  · exact ⟨trivial, trivial⟩
  · exact ⟨⟨_, rfl, h.diffusionModelName⟩, trivial⟩
  · exact ⟨⟨_, rfl, h.clipName⟩, trivial, trivial⟩
  · exact ⟨_, rfl, h.vaeName⟩
  · exact ⟨trivial, trivial, trivial⟩
  · exact ⟨trivial, trivial⟩

/-- **Every graph comes from the template of the profile the payload names**,
with the values of that profile or with what the allowlists admit. -/
theorem built_from_template {host : AdmissionHost} {config : LiveConfig}
    {randomSeed : Nat} {filenamePrefix : String} {payload : Dict} {graph : Json}
    (h : config.buildPromptGraph host randomSeed filenamePrefix payload =
      .ok graph) :
    ∃ own, config.namedProfile payload = .ok own ∧
      FromTemplate config.overrideAllowlists own graph := by
  unfold LiveConfig.buildPromptGraph at h
  obtain ⟨profile, hprofile, h⟩ := bind_eq_ok.mp h
  obtain ⟨size, _, h⟩ := bind_eq_ok.mp h
  obtain ⟨seed, _, h⟩ := bind_eq_ok.mp h
  obtain ⟨own, hown, hlayered⟩ := layered_resolveActiveProfile hprofile
  refine ⟨own, hown, ?_⟩
  have hfamily := hlayered.modelFamily
  dsimp only at h
  split at h
  · rename_i hprofile
    cases h
    rw [hprofile] at hfamily
    exact fromTemplate_splitAuraflow hlayered (by rw [← hfamily]; rfl) _
  · rename_i hprofile
    cases h
    rw [hprofile] at hfamily
    exact fromTemplate_splitAuraflow hlayered (by rw [← hfamily]; rfl) _
  · rename_i hprofile
    cases h
    rw [hprofile] at hfamily
    exact fromTemplate_checkpoint hlayered (by rw [← hfamily]; rfl)

end Graphs

/-- A payload with an override that is admitted and one that is not. -/
def overriddenCat : Dict :=
  (catInputs.set "model_profile" (.str "student") (.str "student")).set
    "model_overrides" (.obj [("steps", .int 8), ("cfg_scale", .str "high")])
    (by decide)

/-- The graph of this payload. -/
theorem built_from_template_cat :
    ∃ graph own, (LiveConfig.build {} {}).buildPromptGraph plainHost 5
        "imaginv-ab" overriddenCat = .ok graph ∧
      (LiveConfig.build {} {}).namedProfile overriddenCat = .ok own ∧
      FromTemplate (some (buildAllowlists {})) own graph := by
  have hgraph : ∃ graph, (LiveConfig.build {} {}).buildPromptGraph plainHost 5
      "imaginv-ab" overriddenCat = .ok graph := ⟨_, rfl⟩
  obtain ⟨graph, hgraph⟩ := hgraph
  obtain ⟨own, hown, htemplate⟩ := built_from_template hgraph
  exact ⟨graph, own, hgraph, hown, htemplate⟩

end Imagin4.Ports
