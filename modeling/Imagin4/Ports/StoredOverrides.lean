import Mathlib.Data.List.DropRight
import Imagin4.Ports.AdmittedPayloads
import Imagin4.Ports.GraphTemplates

/-!
# Overrides that are validated again

An admission stores the overrides it has validated, and the worker validates them
once more.  A text that was stripped and cut stays as it is, and a number in its
range is in its range again; so the second validation returns what the first one
did, unless a limit below zero cuts the text once more, or the admission has set
the steps of a preview to a number out of the range.

## Main results

* `lookup_normaliseInputs` — what an admission stores under each key.
* `revalidated_iff` — when the worker finds the stored overrides as they are.
-/

namespace Imagin4.Ports

open Imagin4.Verified
open Imagin4.Verified.Program

/-! ## Texts -/

theorem dropWhile_prefix {cs ds : List Char} (p : Char → Bool)
    (h : ds <+: cs.dropWhile p) : ds.dropWhile p = ds := by
  rw [List.dropWhile_eq_self_iff]
  intro hpos hfirst
  obtain ⟨rest, hrest⟩ := h
  have hlong : 0 < (cs.dropWhile p).length := by
    rw [← hrest, List.length_append]
    omega
  have hhead : (cs.dropWhile p)[0] = ds[0] := by
    simp only [← hrest, List.getElem_append_left hpos]
  have hnot := List.dropWhile_eq_self_iff.mp (List.dropWhile_idempotent p cs) hlong
  rw [hhead] at hnot
  exact hnot hfirst

/-- What is stripped stays stripped. -/
theorem strip_strip (s : String) : strip (strip s) = strip s := by
  have hback : ((s.toList.dropWhile isSpace).rdropWhile isSpace).dropWhile isSpace =
      (s.toList.dropWhile isSpace).rdropWhile isSpace :=
    dropWhile_prefix isSpace (List.rdropWhile_prefix isSpace _)
  have hfront := List.rdropWhile_idempotent isSpace (s.toList.dropWhile isSpace)
  unfold List.rdropWhile at hback hfront
  unfold strip
  rw [String.toList_ofList, hback, hfront]

theorem length_sliceTo_eq (n : Int) (s : String) : (sliceTo n s).length =
    min (if 0 ≤ n then n.toNat else s.length - n.natAbs) s.length := by
  unfold sliceTo
  simp only [String.length_ofList, List.length_take, String.length_toList]

/-- A text is cut once, unless it is cut from behind. -/
theorem sliceTo_sliceTo_iff (n : Int) (s : String) :
    sliceTo n (sliceTo n s) = sliceTo n s ↔ 0 ≤ n ∨ s.length ≤ n.natAbs := by
  constructor
  · intro h
    have hlength := congrArg String.length h
    rw [length_sliceTo_eq, length_sliceTo_eq] at hlength
    by_cases hn : 0 ≤ n
    · exact .inl hn
    · simp only [hn, if_false] at hlength
      right
      omega
  · intro h
    unfold sliceTo
    dsimp only
    rw [String.toList_ofList, List.take_take]
    congr 2
    by_cases hn : 0 ≤ n
    · simp [hn]
    · have hshort : s.toList.length ≤ n.natAbs := by
        rcases h with h | h
        · exact absurd h hn
        · rwa [String.length_toList]
      simp [hn]
      omega

/-! ## What an admission stores -/

section Stored

variable {host : AdmissionHost} {settings : Settings} {inputs after : Dict}
  {isPreview : Bool}

theorem Dict.lookup_set_json (d e : Dict) (key k : String) :
    (d.set key e.json e.isDict).lookup k =
      if k = key then some e.json else d.lookup k :=
  d.lookup_set key k e.json e.isDict

theorem isDict_previewSteps (settings : Settings) :
    (Json.int settings.previewSteps).IsDict := .int settings.previewSteps

/-- The overrides an admission stores: a preview has its steps lowered. -/
def storedOverrides (settings : Settings) (isPreview : Bool) (validated : Dict) :
    Dict :=
  if isPreview then
    validated.set "steps" (.int settings.previewSteps) (isDict_previewSteps settings)
  else validated

/-- **What an admission stores under each key.** -/
theorem lookup_normaliseInputs
    (h : normaliseInputs host settings inputs isPreview = .ok after) :
    ∃ key validated,
      resolveProfileKey host (inputs.get "model_profile") (profileKeys settings) =
        .ok key ∧
      validateOverrides host (buildAllowlists settings)
        ⟨inputs.get "model_overrides", inputs.isDict_get _⟩ = .ok validated ∧
      (isPreview = true → settings.previewEnabled = true) ∧
      ∀ k, after.lookup k =
        if k = "preview_original_overrides" ∧ isPreview = true then
          some validated.json
        else if k = "is_preview" then some (.bool isPreview)
        else if k = "model_overrides" then
          some (storedOverrides settings isPreview validated).json
        else if k = "model_profile" then some (.str key)
        else inputs.lookup k := by
  unfold normaliseInputs at h
  obtain ⟨key, hkey, h⟩ := bind_eq_ok.mp h
  obtain ⟨validated, hvalidated, h⟩ := bind_eq_ok.mp h
  refine ⟨key, validated, hkey, hvalidated, ?_⟩
  cases isPreview with
  | false =>
      simp only [Bool.false_and, Bool.false_eq_true, if_false] at h
      cases h
      refine ⟨fun h => absurd h Bool.false_ne_true, fun k => ?_⟩
      simp [Dict.lookup_set, storedOverrides]
  | true =>
      by_cases hon : settings.previewEnabled = true
      · simp only [hon, Bool.not_true, Bool.and_false, Bool.false_eq_true,
          if_false, if_true] at h
        cases h
        refine ⟨fun _ => hon, fun k => ?_⟩
        simp [Dict.lookup_set, Dict.lookup_set_json, storedOverrides]
      · simp [hon] at h

end Stored

/-! ## The second validation -/

section Again

variable {host : AdmissionHost} {allowlists : OverrideAllowlists} {field : String}
  {x v : Json}

/-- What has passed its check passes it again, as it is, … -/
theorem fieldVerdict_again (h : fieldVerdict host allowlists field x = .ok (some v))
    (hfield : field ≠ "negative_prompt") :
    fieldVerdict host allowlists field v = .ok (some v) := by
  unfold fieldVerdict at h ⊢
  by_cases hsteps : field = "steps"
  · simp only [hsteps, if_true] at h ⊢
    obtain ⟨n, -, rfl, hrange⟩ := of_stepsVerdict h
    simp [stepsVerdict, Json.toInt, hrange]
  by_cases hcfg : field = "cfg_scale"
  · simp only [hcfg, if_true] at h ⊢
    obtain ⟨cfg, -, rfl, hrange⟩ := of_cfgScaleVerdict h
    simp [cfgScaleVerdict, Json.toFloat, hrange]
  · simp only [hsteps, hcfg, hfield, if_false] at h ⊢
    obtain ⟨-, hmem, rfl⟩ := of_textVerdict h
    rw [textVerdict_str, strip_strip, if_pos hmem]

/-- … and a negative prompt is cut again. -/
theorem negativePrompt_again (host : AdmissionHost)
    (allowlists : OverrideAllowlists) (s : String) :
    fieldVerdict host allowlists "negative_prompt" (.str s) =
      .ok (some (.str (sliceTo allowlists.maxNegativePromptChars s))) := rfl

variable {overrides validated : Dict}

theorem returns_again
    (h : validateOverrides host allowlists ⟨overrides.json, overrides.isDict⟩ =
      .ok validated) (hv : validated.lookup field = some v) :
    Returns (fieldVerdict host allowlists field v) := by
  obtain ⟨x, -, hverdict⟩ := verdict_of_lookup h hv
  by_cases hfield : field = "negative_prompt"
  · subst hfield
    obtain ⟨-, rfl⟩ := of_negativePromptVerdict hverdict
    exact ⟨_, negativePrompt_again host allowlists _⟩
  · exact ⟨_, fieldVerdict_again hverdict hfield⟩

end Again

section Revalidation

variable {host : AdmissionHost} {settings : Settings} {overrides validated : Dict}
  {isPreview : Bool}

theorem lookup_storedOverrides (field : String) :
    (storedOverrides settings isPreview validated).lookup field =
      if field = "steps" ∧ isPreview = true then
        some (.int settings.previewSteps)
      else validated.lookup field := by
  cases isPreview with
  | false => simp [storedOverrides]
  | true => simp [storedOverrides, Dict.lookup_set]

/-- Can the steps of a preview be an override? -/
def PreviewStepsInRange (settings : Settings) : Prop :=
  settings.comfyOverrideMinSteps ≤ settings.previewSteps ∧
    settings.previewSteps ≤ settings.comfyOverrideMaxSteps

instance : Decidable (PreviewStepsInRange settings) :=
  inferInstanceAs (Decidable (_ ∧ _))

theorem stepsVerdict_preview :
    fieldVerdict host (buildAllowlists settings) "steps"
        (.int settings.previewSteps) = .ok (if PreviewStepsInRange settings then
          some (.int settings.previewSteps) else none) := rfl

/-- The second validation raises nothing. -/
theorem returns_stored
    (h : validateOverrides host (buildAllowlists settings)
      ⟨overrides.json, overrides.isDict⟩ = .ok validated) (field : String) :
    Returns (overrideVerdict host (buildAllowlists settings)
      (storedOverrides settings isPreview validated) field) := by
  unfold overrideVerdict
  rw [lookup_storedOverrides]
  by_cases hsteps : field = "steps" ∧ isPreview = true
  · rw [if_pos hsteps, hsteps.1]
    exact ⟨_, stepsVerdict_preview⟩
  · rw [if_neg hsteps]
    cases hv : validated.lookup field with
    | none => exact returns_ok none
    | some v => exact returns_again h hv

theorem unknownKeys_stored
    (h : validateOverrides host (buildAllowlists settings)
      ⟨overrides.json, overrides.isDict⟩ = .ok validated) :
    unknownKeys (storedOverrides settings isPreview validated) = [] := by
  refine unknownKeys_eq_nil (fun field hfield => ?_)
  have hsteps : field ≠ "steps" := by
    rintro rfl
    exact hfield (by decide)
  rw [lookup_storedOverrides, if_neg (fun h => hsteps h.1)]
  cases hv : validated.lookup field with
  | none => rfl
  | some v =>
      obtain ⟨hknown, -, -⟩ := of_validateOverrides_ok h
      obtain ⟨x, hx, -⟩ := verdict_of_lookup h hv
      rw [lookup_of_unknownKeys hknown hfield] at hx
      cases hx

/-- What the second validation leaves of a field that is neither the steps of a
preview nor the negative prompt. -/
theorem kept_stored
    (h : validateOverrides host (buildAllowlists settings)
      ⟨overrides.json, overrides.isDict⟩ = .ok validated) {field : String}
    (hsteps : ¬ (field = "steps" ∧ isPreview = true))
    (hfield : field ≠ "negative_prompt") :
    kept (overrideVerdict host (buildAllowlists settings)
        (storedOverrides settings isPreview validated)) field =
      (storedOverrides settings isPreview validated).lookup field := by
  rw [lookup_storedOverrides, if_neg hsteps]
  refine kept_of_ok ?_
  unfold overrideVerdict
  rw [lookup_storedOverrides, if_neg hsteps]
  cases hv : validated.lookup field with
  | none => rfl
  | some v =>
      obtain ⟨x, -, hverdict⟩ := verdict_of_lookup h hv
      exact fieldVerdict_again hverdict hfield

/-- The text of the given negative prompt survives a second cut. -/
def StaysCut (host : AdmissionHost) (limit : Int) (overrides : Dict) : Prop :=
  ∀ x, overrides.lookup "negative_prompt" = some x →
    0 ≤ limit ∨ (x.text host.repr).length ≤ limit.natAbs

theorem kept_negativePrompt
    (h : validateOverrides host (buildAllowlists settings)
      ⟨overrides.json, overrides.isDict⟩ = .ok validated) :
    kept (overrideVerdict host (buildAllowlists settings)
        (storedOverrides settings isPreview validated)) "negative_prompt" =
      (storedOverrides settings isPreview validated).lookup "negative_prompt" ↔
    StaysCut host settings.comfyOverrideMaxNegativePromptChars overrides := by
  have hstored : (storedOverrides settings isPreview validated).lookup
      "negative_prompt" = validated.lookup "negative_prompt" := by
    rw [lookup_storedOverrides, if_neg (by simp)]
  have hlookup := lookup_negativePrompt h
  rw [hstored, hlookup]
  unfold StaysCut
  cases hx : overrides.lookup "negative_prompt" with
  | none =>
      have hnone : validated.lookup "negative_prompt" = none := by
        rw [hlookup, hx]
        rfl
      rw [hnone] at hstored
      simp [kept_of_ok (overrideVerdict_of_none hstored)]
  | some x =>
      rw [hx, Option.map_some] at hlookup
      rw [hlookup] at hstored
      have hkept := kept_of_ok ((overrideVerdict_of_some hstored).trans
        (negativePrompt_again host (buildAllowlists settings) _))
      rw [hkept, Option.map_some]
      simp only [Option.some.injEq, Json.str.injEq, forall_eq']
      exact sliceTo_sliceTo_iff _ _

/-- What the worker returns of the stored overrides. -/
theorem validate_stored
    (h : validateOverrides host (buildAllowlists settings)
      ⟨overrides.json, overrides.isDict⟩ = .ok validated) (isPreview : Bool) :
    ∃ again, validateOverrides host (buildAllowlists settings)
        ⟨(storedOverrides settings isPreview validated).json,
          (storedOverrides settings isPreview validated).isDict⟩ = .ok again ∧
      ∀ field, again.lookup field =
        kept (overrideVerdict host (buildAllowlists settings)
          (storedOverrides settings isPreview validated)) field :=
  validateOverrides_ok (unknownKeys_stored h) (fun field _ => returns_stored h field)

/-- The overrides stay as they are stored if the steps of a preview are in the
range and the text is not cut again, … -/
theorem lookup_again
    (h : validateOverrides host (buildAllowlists settings)
      ⟨overrides.json, overrides.isDict⟩ = .ok validated)
    (hsteps : isPreview = true → PreviewStepsInRange settings)
    (hcut : StaysCut host settings.comfyOverrideMaxNegativePromptChars overrides)
    (field : String) :
    kept (overrideVerdict host (buildAllowlists settings)
        (storedOverrides settings isPreview validated)) field =
      (storedOverrides settings isPreview validated).lookup field := by
  by_cases hpreview : field = "steps" ∧ isPreview = true
  · have hstored : (storedOverrides settings isPreview validated).lookup field =
        some (.int settings.previewSteps) := by
      rw [lookup_storedOverrides, if_pos hpreview]
    rw [hstored]
    refine kept_of_ok ?_
    rw [overrideVerdict_of_some hstored, hpreview.1, stepsVerdict_preview,
      if_pos (hsteps hpreview.2)]
  · by_cases hnegative : field = "negative_prompt"
    · rw [hnegative]
      exact (kept_negativePrompt h).mpr hcut
    · exact kept_stored h hpreview hnegative

/-- … and only then. -/
theorem of_same_again
    (h : validateOverrides host (buildAllowlists settings)
      ⟨overrides.json, overrides.isDict⟩ = .ok validated) {again : Dict}
    (hagain : ∀ field, again.lookup field =
      kept (overrideVerdict host (buildAllowlists settings)
        (storedOverrides settings isPreview validated)) field)
    (hsame : again.json.Same (storedOverrides settings isPreview validated).json) :
    (isPreview = true → PreviewStepsInRange settings) ∧
      StaysCut host settings.comfyOverrideMaxNegativePromptChars overrides := by
  have hrel : ∀ field, Option.Rel Json.Same
      (kept (overrideVerdict host (buildAllowlists settings)
        (storedOverrides settings isPreview validated)) field)
      ((storedOverrides settings isPreview validated).lookup field) := by
    intro field
    rw [← hagain]
    exact Dict.same_json_iff.mp hsame field
  constructor
  · intro hpreview
    by_contra hrange
    have hstored : (storedOverrides settings isPreview validated).lookup "steps" =
        some (.int settings.previewSteps) := by
      rw [lookup_storedOverrides, if_pos ⟨rfl, hpreview⟩]
    have hsteps := hrel "steps"
    rw [kept_of_ok ((overrideVerdict_of_some hstored).trans stepsVerdict_preview),
      hstored, if_neg hrange] at hsteps
    cases hsteps
  · refine (@kept_negativePrompt host settings overrides validated isPreview
      h).mp ?_
    have hnegative := hrel "negative_prompt"
    cases hx : (storedOverrides settings isPreview validated).lookup
        "negative_prompt" with
    | none => exact kept_of_ok (overrideVerdict_of_none hx)
    | some v =>
        have hv : validated.lookup "negative_prompt" = some v := by
          rw [← hx, lookup_storedOverrides, if_neg (by simp)]
        obtain ⟨x, -, rfl⟩ := negativePrompt_of_lookup h hv
        have hkept := kept_of_ok ((overrideVerdict_of_some hx).trans
          (negativePrompt_again host (buildAllowlists settings) _))
        rw [hkept, hx] at hnegative
        rw [hkept]
        cases hnegative with
        | some hstr =>
            generalize hcut : sliceTo _ _ = text at hstr ⊢
            cases hstr
            rfl

end Revalidation

/-! ## What the worker draws -/

/-- What a request has for overrides, if it has some. -/
def GivenOverrides (P : Dict → Prop) (inputs : Dict) : Prop :=
  ∀ overrides : Dict, inputs.get "model_overrides" = overrides.json → P overrides

/-- Nothing is validated as an empty dict is. -/
theorem given_of_validateOverrides {host : AdmissionHost}
    {allowlists : OverrideAllowlists} {inputs validated : Dict}
    (h : validateOverrides host allowlists
      ⟨inputs.get "model_overrides", inputs.isDict_get _⟩ = .ok validated) :
    ∃ overrides : Dict, validateOverrides host allowlists
        ⟨overrides.json, overrides.isDict⟩ = .ok validated ∧
      ∀ limit, StaysCut host limit overrides ↔
        GivenOverrides (StaysCut host limit) inputs := by
  rcases value_of_validateOverrides h with ⟨hnull, rfl⟩ | ⟨overrides, hoverrides⟩
  · refine ⟨.empty, rfl, fun limit => iff_of_true ?_ ?_⟩
    · intro x hx
      cases hx
    · intro overrides hget
      rw [show inputs.get "model_overrides" = .null from hnull] at hget
      cases hget
  · have hget : inputs.get "model_overrides" = overrides.json :=
      congrArg Subtype.val hoverrides
    refine ⟨overrides, hoverrides ▸ h, fun limit => ⟨?_, fun hgiven => hgiven _ hget⟩⟩
    intro hcut other hother
    rw [hget] at hother
    obtain rfl := Dict.json_inj hother
    exact hcut

/-- An input of a node of a graph. -/
def Json.inputOf (graph : Json) (node input : String) : Option Json := do
  let nodes ← graph.nodesOf
  let found ← nodes.find? (fun n => n.id = node)
  Json.lookup input found.inputs

/-- What the worker of these settings does with a payload that has been
admitted: it finds the overrides as they are stored, its profile has every one of
them, and a preview is drawn in `preview_steps` steps.  The prompt may have been
designed anew. -/
structure Rerendered (host : AdmissionHost) (settings : Settings)
    (isPreview : Bool) (payload : Dict) : Prop where
  revalidated : ∃ stored again : Dict,
    payload.get "model_overrides" = stored.json ∧
    validateOverrides host (buildAllowlists settings)
      ⟨stored.json, stored.isDict⟩ = .ok again ∧ again.json.Same stored.json
  used {stored designed : Dict} {config : LiveConfig} {profile : ComfyProfile} :
    payload.get "model_overrides" = stored.json →
    designed.get "model_overrides" = stored.json →
    config.overrideAllowlists = some (buildAllowlists settings) →
    config.resolveActiveProfile host designed = .ok profile →
    ∃ own, config.namedProfile designed = .ok own ∧
      profile = applyOverrides own stored
  preview {designed : Dict} {config : LiveConfig} {randomSeed : Nat}
      {filenamePrefix : String} {graph : Json} : isPreview = true →
    designed.get "model_overrides" = payload.get "model_overrides" →
    config.overrideAllowlists = some (buildAllowlists settings) →
    config.buildPromptGraph host randomSeed filenamePrefix designed = .ok graph →
    graph.inputOf "3" "steps" = some (.int settings.previewSteps)

section Drawing

variable {host : AdmissionHost} {settings : Settings} {config : LiveConfig}
  {stored again designed : Dict}

/-- A profile does not depend on the order of its overrides. -/
theorem applyOverrides_congr (h : ∀ key, again.lookup key = stored.lookup key)
    (own : ComfyProfile) : applyOverrides own again = applyOverrides own stored := by
  simp only [applyOverrides_eq, h]

/-- A worker that finds the overrides as they are uses every one of them. -/
theorem resolveActiveProfile_stored
    (hagain : validateOverrides host (buildAllowlists settings)
      ⟨stored.json, stored.isDict⟩ = .ok again)
    (hlookup : ∀ key, again.lookup key = stored.lookup key)
    (hstored : designed.get "model_overrides" = stored.json)
    (hconfig : config.overrideAllowlists = some (buildAllowlists settings))
    {profile : ComfyProfile}
    (h : config.resolveActiveProfile host designed = .ok profile) :
    ∃ own, config.namedProfile designed = .ok own ∧
      profile = applyOverrides own stored := by
  unfold LiveConfig.resolveActiveProfile at h
  obtain ⟨found, hfound, h⟩ := bind_eq_ok.mp h
  refine ⟨found.getD config.defaultProfile,
    bind_eq_ok.mpr ⟨found, hfound, rfl⟩, ?_⟩
  dsimp only at h
  by_cases htruthy : (designed.get "model_overrides").truthy = true
  · have hsubtype : (⟨designed.get "model_overrides", designed.isDict_get _⟩ :
        { x : Json // x.IsDict }) = ⟨stored.json, stored.isDict⟩ :=
      Subtype.ext hstored
    simp only [htruthy, Bool.not_true, Bool.false_eq_true, if_false, hconfig,
      hsubtype, hagain] at h
    cases h
    exact applyOverrides_congr hlookup _
  · simp only [htruthy, Bool.not_false, if_true] at h
    cases h
    rw [hstored] at htruthy
    have hnil : stored.members = [] := by
      simpa [Dict.json, Json.truthy] using htruthy
    unfold applyOverrides
    rw [hnil]
    rfl

/-- The sampler takes the steps of the profile. -/
theorem inputOf_steps {randomSeed : Nat} {filenamePrefix : String} {graph : Json}
    (h : config.buildPromptGraph host randomSeed filenamePrefix designed =
      .ok graph) :
    ∃ profile, config.resolveActiveProfile host designed = .ok profile ∧
      graph.inputOf "3" "steps" = some (.int profile.steps) := by
  unfold LiveConfig.buildPromptGraph at h
  obtain ⟨profile, hprofile, h⟩ := bind_eq_ok.mp h
  obtain ⟨size, -, h⟩ := bind_eq_ok.mp h
  obtain ⟨seed, -, h⟩ := bind_eq_ok.mp h
  refine ⟨profile, hprofile, ?_⟩
  dsimp only at h
  split at h <;>
  · cases h
    rfl

end Drawing

/-- **When the worker does with every admitted request what it stored**: exactly
if the steps of a preview are in the range of the overrides, and the negative
prompt is not cut a second time. -/
theorem revalidated_iff {host : AdmissionHost} {settings : Settings}
    {r : AdmissionRequest} {job : QueuedJob}
    {calls : List (Sigma AdmissionCall.Answer)}
    {next : Except PyError Unit → AdmissionProgram}
    (hpath : Path (admitGenerationJob host settings r) calls
      (.call (.enqueue job) next))
    (hkind : r.workflowName ∈ kindsForBackend .comfyui) {payload : Dict}
    (hpayload : job.inputPayload = payload.json) :
    Rerendered host settings (r.inputs.get "preview").truthy payload ↔
      ((r.inputs.get "preview").truthy = true → PreviewStepsInRange settings) ∧
      GivenOverrides
        (StaysCut host settings.comfyOverrideMaxNegativePromptChars) r.inputs := by
  obtain ⟨v, hv, rfl⟩ := validated_of_insert hpath
  obtain ⟨hafter, -⟩ := of_validateRequest_comfyui hkind hv
  obtain rfl : v.inputs = payload := Dict.json_inj hpayload
  obtain ⟨key, validated, -, hvalidated, -, hlookup⟩ :=
    lookup_normaliseInputs hafter
  obtain ⟨overrides, hoverrides, hgiven⟩ := given_of_validateOverrides hvalidated
  obtain ⟨again, hagain, hkept⟩ :=
    validate_stored hoverrides (r.inputs.get "preview").truthy
  have hstored : v.inputs.get "model_overrides" = (storedOverrides settings
      (r.inputs.get "preview").truthy validated).json := by
    simp [Dict.get_eq_lookup, hlookup]
  rw [← hgiven]
  constructor
  · intro h
    obtain ⟨stored, again', hget, hagain', hsame⟩ := h.revalidated
    rw [hstored] at hget
    obtain rfl := Dict.json_inj hget
    rw [hagain] at hagain'
    cases hagain'
    exact of_same_again hoverrides hkept hsame
  · rintro ⟨hsteps, hcut⟩
    have hfixed : ∀ field, again.lookup field = (storedOverrides settings
        (r.inputs.get "preview").truthy validated).lookup field :=
      fun field => (hkept field).trans
        (lookup_again hoverrides hsteps hcut field)
    constructor
    case revalidated =>
      exact ⟨_, again, hstored, hagain, Dict.same_json hfixed⟩
    case used =>
      intro stored designed config profile hget hdesigned hconfig hprofile
      rw [hstored] at hget
      obtain rfl := Dict.json_inj hget
      exact resolveActiveProfile_stored hagain hfixed hdesigned hconfig hprofile
    case preview =>
      intro designed config randomSeed filenamePrefix graph hpreview hdesigned
        hconfig hgraph
      obtain ⟨profile, hprofile, hinput⟩ := inputOf_steps hgraph
      obtain ⟨own, -, rfl⟩ := resolveActiveProfile_stored hagain hfixed
        (hdesigned.trans hstored) hconfig hprofile
      have hforced : (storedOverrides settings (r.inputs.get "preview").truthy
          validated).lookup "steps" = some (.int settings.previewSteps) := by
        rw [lookup_storedOverrides, if_pos ⟨rfl, hpreview⟩]
      rw [hinput, applyOverrides_eq, hforced]
      rfl

/-! ## A preview of a cat -/

/-- A request for the preview of a picture. -/
def previewRequest : AdmissionRequest :=
  pictureRequest (catInputs.set "preview" (.bool true) (.bool true))

/-- What the admission makes of its inputs. -/
def previewPayload (settings : Settings) : Dict :=
  let stored := storedOverrides settings true .empty
  (((previewRequest.inputs.set "model_profile" (.str "student")
    (.str "student")).set "model_overrides" stored.json stored.isDict).set
      "is_preview" (.bool true) (.bool true)).set "preview_original_overrides"
        (.obj []) Dict.empty.isDict

/-- The job of the request, as it is inserted. -/
def previewJob (settings : Settings) : QueuedJob :=
  newJob 1 7 "image_basic" "retry-1" (previewPayload settings).json none 0

/-- The preview is drawn as it was admitted. -/
theorem revalidated_preview :
    Rerendered plainHost {} true (previewPayload {}) := by
  have hpath : ∃ next, Path (admitGenerationJob plainHost {} previewRequest)
      ((admitGenerationJob plainHost {} previewRequest).follow emptyAnswer 4).1
      (.call (.enqueue (previewJob {})) next) :=
    ⟨_, path_follow emptyAnswer 4 (admitGenerationJob plainHost {} previewRequest)⟩
  obtain ⟨next, hpath⟩ := hpath
  have hnone : previewRequest.inputs.get "model_overrides" = .null := rfl
  refine (revalidated_iff hpath (by decide) rfl).mpr ⟨fun _ => by decide, ?_⟩
  intro overrides hoverrides
  rw [hnone] at hoverrides
  cases hoverrides

/-- Previews of more steps than an override may have. -/
def slowPreviews : Settings := { previewSteps := 60 }

/-- The job is admitted with 60 steps, and drawn in the 20 of the profile. -/
theorem not_revalidated_slow :
    ((admitGenerationJob plainHost slowPreviews previewRequest).run
      InMemoryJobQueue.admissionAnswer InMemoryJobQueue.empty).2.jobs.rows =
        [previewJob slowPreviews] ∧
    (∃ graph, (LiveConfig.build slowPreviews {}).buildPromptGraph plainHost 5
        "imaginv-ab" (previewPayload slowPreviews) = .ok graph ∧
      graph.inputOf "3" "steps" = some (.int 20)) ∧
    ¬ Rerendered plainHost slowPreviews true (previewPayload slowPreviews) := by
  have hgraph : ∃ graph, (LiveConfig.build slowPreviews {}).buildPromptGraph
      plainHost 5 "imaginv-ab" (previewPayload slowPreviews) = .ok graph ∧
        graph.inputOf "3" "steps" = some (.int 20) := ⟨_, rfl, rfl⟩
  refine ⟨rfl, hgraph, fun h => ?_⟩
  obtain ⟨graph, hbuilt, hsteps⟩ := hgraph
  have hsixty := h.preview rfl rfl rfl hbuilt
  rw [hsteps] at hsixty
  cases hsixty

end Imagin4.Ports
