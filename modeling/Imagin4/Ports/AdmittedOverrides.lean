import Imagin4.Ports.Admission
import Imagin4.Ports.OverrideRules

/-!
# Overrides a validation admits

`validate_overrides` is to refuse a request or to return overrides the allowlists
admit, and a bad `steps` or `cfg_scale` is to be dropped, never to be an error.

Not every value can be read: `int` of an infinity and `float` of an integer beyond
the doubles raise an `OverflowError` that nobody catches, and a limit below zero
cuts a negative prompt from behind.

## Main results

* `wellValidated_iff` — exactly when a validation does what it is for.
-/

namespace Imagin4.Ports

open Imagin4.Verified

/-- Overrides the allowlists admit. -/
structure Dict.Admitted (allowlists : OverrideAllowlists) (validated : Dict) :
    Prop where
  keys {key : String} {x : Json} :
    validated.lookup key = some x → key ∈ allOverrideKeys
  texts {field : String × List String} {x : Json} :
    field ∈ stringAllowlistFields allowlists →
    validated.lookup field.1 = some x → ∃ s, x = .str s ∧ s ∈ field.2
  steps {x : Json} : validated.lookup "steps" = some x →
    ∃ n, x = .int n ∧ allowlists.minSteps ≤ n ∧ n ≤ allowlists.maxSteps
  cfgScale {x : Json} : validated.lookup "cfg_scale" = some x →
    ∃ v, x = .float v ∧
      v.between allowlists.minCfgScale allowlists.maxCfgScale = true
  negativePrompt {x : Json} : validated.lookup "negative_prompt" = some x →
    ∃ s, x = .str s ∧ (s.length : Int) ≤ allowlists.maxNegativePromptChars

section Fields

variable (host : AdmissionHost) (allowlists : OverrideAllowlists)

/-- A `steps` that is an integer in the range. -/
def StepsInRange (x : Json) : Prop :=
  ∃ n, x.toInt host = .ok n ∧ allowlists.minSteps ≤ n ∧ n ≤ allowlists.maxSteps

/-- A `cfg_scale` that is a number in the range. -/
def CfgScaleInRange (x : Json) : Prop :=
  ∃ v, x.toFloat host = .ok v ∧
    v.between allowlists.minCfgScale allowlists.maxCfgScale = true

/-- `int(x)` raises an `OverflowError`. -/
def Json.overflowsInt : Json → Bool
  | float .inf => true
  | float .negInf => true
  | _ => false

/-- `float(x)` raises an `OverflowError`. -/
def Json.overflowsFloat : Json → Bool
  | int n => 2 ^ 1024 ≤ roundToDouble n.natAbs
  | _ => false

/-- The conversion of the field raises what nobody catches. -/
def conversionRaises (field : String) (x : Json) : Bool :=
  if field = "steps" then x.overflowsInt
  else if field = "cfg_scale" then x.overflowsFloat
  else !x.printable

/-- A field of the overrides raises. -/
def Dict.Raises (overrides : Dict) (field : String) : Prop :=
  ∃ x, overrides.lookup field = some x ∧ conversionRaises field x = true

/-- A text that can be read, and is not in its allowlist. -/
def Dict.Refused (overrides : Dict) (field : String) : Prop :=
  ∃ x, overrides.lookup field = some x ∧ x.printable = true ∧
    strip (x.text host.repr) ∉ allowlists.of field

/-- The names of the string fields. -/
def stringFields : List String :=
  ["checkpoint_name", "diffusion_model_name", "clip_name", "vae_name",
    "sampler_name", "scheduler"]

theorem map_stringAllowlistFields :
    (stringAllowlistFields allowlists).map Prod.fst = stringFields := rfl

theorem allOverrideKeys_eq : allOverrideKeys =
    stringFields ++ ["steps", "cfg_scale", "negative_prompt"] := rfl

/-- A validation refuses the overrides or returns admitted ones, and a `steps`
or `cfg_scale` it cannot use makes no difference. -/
structure WellValidated (x : { x : Json // x.IsDict }) : Prop where
  result : (∃ message, validateOverrides host allowlists x =
      .error (.invalidComfyOverride message)) ∨
    ∃ validated, validateOverrides host allowlists x = .ok validated ∧
      validated.Admitted allowlists
  steps {overrides : Dict} {v : Json} : x.1 = overrides.json →
    overrides.lookup "steps" = some v → ¬ StepsInRange host allowlists v →
    validateOverrides host allowlists x = validateOverrides host allowlists
      ⟨(overrides.erase "steps").json, (overrides.erase "steps").isDict⟩
  cfgScale {overrides : Dict} {v : Json} : x.1 = overrides.json →
    overrides.lookup "cfg_scale" = some v → ¬ CfgScaleInRange host allowlists v →
    validateOverrides host allowlists x = validateOverrides host allowlists
      ⟨(overrides.erase "cfg_scale").json, (overrides.erase "cfg_scale").isDict⟩

/-- Overrides a validation can cope with: an unknown key or a refused text comes
before anything that raises, or nothing raises and no negative prompt is cut by a
limit below zero. -/
inductive Dict.Manageable (overrides : Dict) : Prop where
  | unknown : unknownKeys overrides ≠ [] → Manageable overrides
  | refused (before behind : List String) (field : String) :
      stringFields = before ++ field :: behind →
      (∀ k ∈ before, ¬ overrides.Raises k) →
      overrides.Refused host allowlists field → Manageable overrides
  | read : (∀ field ∈ allOverrideKeys, ¬ overrides.Raises field) →
      overrides.lookup "negative_prompt" = none ∨
        0 ≤ allowlists.maxNegativePromptChars → Manageable overrides

end Fields

section Verdicts

variable {host : AdmissionHost} {allowlists : OverrideAllowlists} {x : Json}

theorem toInt_eq_overflow : x.toInt host = .error "OverflowError" ↔
    x.overflowsInt = true := by
  cases x with
  | float v => cases v <;> simp [Json.toInt, Json.overflowsInt]
  | str s =>
      unfold Json.toInt
      dsimp only
      split
      · simp [Json.overflowsInt]
      · split <;> simp [Json.overflowsInt]
  | _ => simp [Json.toInt, Json.overflowsInt]

theorem toFloat_eq_overflow : x.toFloat host = .error "OverflowError" ↔
    x.overflowsFloat = true := by
  cases x with
  | int n =>
      unfold Json.toFloat floatOfInt Json.overflowsFloat
      dsimp only
      split
      · rename_i hbig
        exact iff_of_true rfl (decide_eq_true hbig)
      · rename_i hbig
        exact iff_of_false (fun h => by cases h) (by rwa [decide_eq_true_eq])
  | str s =>
      unfold Json.toFloat
      dsimp only
      split <;> simp [Json.overflowsFloat]
  | _ => simp [Json.toFloat, Json.overflowsFloat]

theorem toStr_of_printable (h : x.printable = true) :
    x.toStr host = .ok (x.text host.repr) := if_pos h

theorem toStr_of_not_printable (h : x.printable = false) :
    x.toStr host = .error "ValueError" := by
  simp [Json.toStr, h]

theorem returns_stepsVerdict :
    Returns (stepsVerdict host allowlists x) ↔ x.overflowsInt = false := by
  rw [Bool.eq_false_iff, ne_eq, ← @toInt_eq_overflow host]
  unfold stepsVerdict
  cases x.toInt host with
  | ok n => simp [returns_ok]
  | error exc =>
      by_cases hexc : exc = "OverflowError"
      · simp [hexc, not_returns_error]
      · simp [hexc, returns_ok]

theorem returns_cfgScaleVerdict :
    Returns (cfgScaleVerdict host allowlists x) ↔ x.overflowsFloat = false := by
  rw [Bool.eq_false_iff, ne_eq, ← @toFloat_eq_overflow host]
  unfold cfgScaleVerdict
  cases x.toFloat host with
  | ok v => simp [returns_ok]
  | error exc =>
      by_cases hexc : exc = "OverflowError"
      · simp [hexc, not_returns_error]
      · simp [hexc, returns_ok]

theorem returns_negativePromptVerdict :
    Returns (negativePromptVerdict host allowlists x) ↔ x.printable = true := by
  unfold negativePromptVerdict
  by_cases hx : x.printable = true
  · simp [toStr_of_printable hx, hx, returns_ok]
  · rw [Bool.not_eq_true] at hx
    simp [toStr_of_not_printable hx, hx, not_returns_error]

/-- A conversion that does not raise is read or, if it is a text, refused. -/
theorem fieldVerdict_of_reads (host : AdmissionHost)
    (allowlists : OverrideAllowlists) {field : String}
    (h : conversionRaises field x = false) :
    Returns (fieldVerdict host allowlists field x) ∨
      fieldVerdict host allowlists field x = .error .refused ∧
        x.printable = true ∧ strip (x.text host.repr) ∉ allowlists.of field ∧
        field ≠ "steps" ∧ field ≠ "cfg_scale" ∧ field ≠ "negative_prompt" := by
  unfold conversionRaises at h
  unfold fieldVerdict
  by_cases hsteps : field = "steps"
  · simp only [hsteps, if_true] at h ⊢
    exact .inl (returns_stepsVerdict.mpr h)
  by_cases hcfg : field = "cfg_scale"
  · simp only [hcfg, if_true] at h ⊢
    exact .inl (returns_cfgScaleVerdict.mpr h)
  simp only [hsteps, hcfg, if_false, Bool.not_eq_false'] at h ⊢
  by_cases hnegative : field = "negative_prompt"
  · simp only [hnegative, if_true]
    exact .inl (returns_negativePromptVerdict.mpr h)
  · simp only [hnegative, if_false, textVerdict, toStr_of_printable h]
    by_cases hmem : strip (x.text host.repr) ∈ allowlists.of field
    · simp [hmem, returns_ok]
    · simp [hmem, h, hsteps, hcfg, hnegative]

theorem fieldVerdict_of_raises (host : AdmissionHost)
    (allowlists : OverrideAllowlists) {field : String}
    (h : conversionRaises field x = true) :
    ∃ exc, fieldVerdict host allowlists field x = .error (.raises exc) := by
  unfold conversionRaises at h
  unfold fieldVerdict
  by_cases hsteps : field = "steps"
  · simp only [hsteps, if_true] at h ⊢
    exact ⟨"OverflowError", by simp [stepsVerdict, toInt_eq_overflow.mpr h]⟩
  by_cases hcfg : field = "cfg_scale"
  · simp only [hcfg, if_true] at h ⊢
    exact ⟨"OverflowError", by simp [cfgScaleVerdict, toFloat_eq_overflow.mpr h]⟩
  simp only [hsteps, hcfg, if_false, Bool.not_eq_true'] at h ⊢
  refine ⟨"ValueError", ?_⟩
  by_cases hnegative : field = "negative_prompt"
  · simp [hnegative, negativePromptVerdict, toStr_of_not_printable h]
  · simp [hnegative, textVerdict, toStr_of_not_printable h]

variable {overrides : Dict} {field : String}

theorem overrideVerdict_of_some (h : overrides.lookup field = some x) :
    overrideVerdict host allowlists overrides field =
      fieldVerdict host allowlists field x := by
  unfold overrideVerdict
  rw [h]

theorem overrideVerdict_of_none (h : overrides.lookup field = none) :
    overrideVerdict host allowlists overrides field = .ok none := by
  unfold overrideVerdict
  rw [h]

/-- What raises is not returned, … -/
theorem raises_of_error {exc : PyError} (h : overrideVerdict host allowlists
    overrides field = .error (.raises exc)) : overrides.Raises field := by
  cases hx : overrides.lookup field with
  | none => simp [overrideVerdict_of_none hx] at h
  | some x =>
      rw [overrideVerdict_of_some hx] at h
      by_cases hraises : conversionRaises field x = true
      · exact ⟨x, hx, hraises⟩
      · rw [Bool.not_eq_true] at hraises
        rcases fieldVerdict_of_reads host allowlists hraises with ⟨o, ho⟩ | ⟨hrefused, -⟩
        · simp [ho] at h
        · simp [hrefused] at h

theorem error_of_raises (host : AdmissionHost)
    (allowlists : OverrideAllowlists) (h : overrides.Raises field) :
    ∃ exc, overrideVerdict host allowlists overrides field =
      .error (.raises exc) := by
  obtain ⟨x, hx, hraises⟩ := h
  rw [overrideVerdict_of_some hx]
  exact fieldVerdict_of_raises host allowlists hraises

/-- … and what is refused is a text outside its allowlist. -/
theorem refused_of_error (h : overrideVerdict host allowlists overrides field =
    .error .refused) : overrides.Refused host allowlists field ∧
      field ≠ "steps" ∧ field ≠ "cfg_scale" ∧ field ≠ "negative_prompt" := by
  cases hx : overrides.lookup field with
  | none => simp [overrideVerdict_of_none hx] at h
  | some x =>
      rw [overrideVerdict_of_some hx] at h
      by_cases hraises : conversionRaises field x = true
      · obtain ⟨exc, hexc⟩ :=
          fieldVerdict_of_raises host allowlists hraises
        simp [hexc] at h
      · rw [Bool.not_eq_true] at hraises
        rcases fieldVerdict_of_reads host allowlists hraises with ⟨o, ho⟩ | ⟨-, hprintable, hmem, hfield⟩
        · simp [ho] at h
        · exact ⟨⟨x, hx, hprintable, hmem⟩, hfield⟩

/-- A field that neither raises nor is refused. -/
theorem returns_or_refused (host : AdmissionHost)
    (allowlists : OverrideAllowlists) (h : ¬ overrides.Raises field) :
    Returns (overrideVerdict host allowlists overrides field) ∨
      overrideVerdict host allowlists overrides field = .error .refused := by
  cases hverdict : overrideVerdict host allowlists overrides field with
  | ok o => exact .inl (returns_ok o)
  | error f =>
      cases f with
      | refused => exact .inr rfl
      | raises exc => exact absurd (raises_of_error hverdict) h

theorem not_raises_of_returns
    (h : Returns (overrideVerdict host allowlists overrides field)) :
    ¬ overrides.Raises field := by
  intro hraises
  obtain ⟨o, ho⟩ := h
  obtain ⟨exc, hexc⟩ := error_of_raises host allowlists hraises
  simp [ho] at hexc

/-! ## What is kept -/

theorem exists_of_kept {v : Json}
    (h : kept (overrideVerdict host allowlists overrides) field = some v) :
    ∃ x, overrides.lookup field = some x ∧
      fieldVerdict host allowlists field x = .ok (some v) := by
  cases hx : overrides.lookup field with
  | none =>
      rw [kept_of_ok (overrideVerdict_of_none hx)] at h
      cases h
  | some x =>
      refine ⟨x, rfl, ?_⟩
      rw [← overrideVerdict_of_some hx]
      cases hverdict : overrideVerdict host allowlists overrides field with
      | ok o => rw [← h, kept_of_ok hverdict]
      | error f =>
          unfold kept at h
          rw [hverdict] at h
          cases h

theorem of_stepsVerdict {v : Json}
    (h : stepsVerdict host allowlists x = .ok (some v)) :
    ∃ n, x.toInt host = .ok n ∧ v = .int n ∧
      allowlists.minSteps ≤ n ∧ n ≤ allowlists.maxSteps := by
  unfold stepsVerdict at h
  cases hn : x.toInt host with
  | ok n =>
      by_cases hrange : allowlists.minSteps ≤ n ∧ n ≤ allowlists.maxSteps
      · simp [hn, hrange] at h
        exact ⟨n, rfl, h.symm, hrange⟩
      · simp [hn, hrange] at h
  | error exc =>
      by_cases hexc : exc = "OverflowError"
      · simp [hn, hexc] at h
      · simp [hn, hexc] at h

theorem of_cfgScaleVerdict {v : Json}
    (h : cfgScaleVerdict host allowlists x = .ok (some v)) :
    ∃ cfg, x.toFloat host = .ok cfg ∧ v = .float cfg ∧
      cfg.between allowlists.minCfgScale allowlists.maxCfgScale = true := by
  unfold cfgScaleVerdict at h
  cases hcfg : x.toFloat host with
  | ok cfg =>
      by_cases hrange :
          cfg.between allowlists.minCfgScale allowlists.maxCfgScale = true
      · simp [hcfg, hrange] at h
        exact ⟨cfg, rfl, h.symm, hrange⟩
      · simp [hcfg, hrange] at h
  | error exc =>
      by_cases hexc : exc = "OverflowError"
      · simp [hcfg, hexc] at h
      · simp [hcfg, hexc] at h

theorem of_negativePromptVerdict {v : Json}
    (h : negativePromptVerdict host allowlists x = .ok (some v)) :
    x.printable = true ∧
      v = .str (sliceTo allowlists.maxNegativePromptChars (x.text host.repr)) := by
  unfold negativePromptVerdict at h
  by_cases hx : x.printable = true
  · simp [toStr_of_printable hx] at h
    exact ⟨hx, h.symm⟩
  · rw [Bool.not_eq_true] at hx
    simp [toStr_of_not_printable hx] at h

theorem of_textVerdict {allowed : List String} {v : Json}
    (h : textVerdict host allowed x = .ok (some v)) :
    x.printable = true ∧ strip (x.text host.repr) ∈ allowed ∧
      v = .str (strip (x.text host.repr)) := by
  unfold textVerdict at h
  by_cases hx : x.printable = true
  · by_cases hmem : strip (x.text host.repr) ∈ allowed
    · simp [toStr_of_printable hx, hmem] at h
      exact ⟨hx, hmem, h.symm⟩
    · simp [toStr_of_printable hx, hmem] at h
  · rw [Bool.not_eq_true] at hx
    simp [toStr_of_not_printable hx] at h

theorem textVerdict_str (allowed : List String) (s : String) :
    textVerdict host allowed (.str s) =
      if strip s ∈ allowed then .ok (some (.str (strip s)))
      else .error .refused := rfl

theorem fieldVerdict_text (h : field ∈ stringFields) :
    fieldVerdict host allowlists field x =
      textVerdict host (allowlists.of field) x := by
  have hne : field ≠ "steps" ∧ field ≠ "cfg_scale" ∧
      field ≠ "negative_prompt" := by
    have hall : ∀ name ∈ stringFields, name ≠ "steps" ∧ name ≠ "cfg_scale" ∧
        name ≠ "negative_prompt" := by
      decide
    exact hall field h
  simp [fieldVerdict, hne]

theorem of_of_mem {field : String × List String}
    (h : field ∈ stringAllowlistFields allowlists) :
    allowlists.of field.1 = field.2 := by
  simp only [stringAllowlistFields, List.mem_cons, List.not_mem_nil, or_false] at h
  rcases h with rfl | rfl | rfl | rfl | rfl | rfl <;> rfl

theorem length_sliceTo {n : Int} (h : 0 ≤ n) (s : String) :
    ((sliceTo n s).length : Int) ≤ n := by
  unfold sliceTo
  simp only [h, if_true, String.length_ofList, List.length_take]
  omega

section Lookups

variable {validated : Dict} {v : Json}
  (h : validateOverrides host allowlists ⟨overrides.json, overrides.isDict⟩ =
    .ok validated)
include h

theorem verdict_of_lookup (hv : validated.lookup field = some v) :
    ∃ x, overrides.lookup field = some x ∧
      fieldVerdict host allowlists field x = .ok (some v) := by
  obtain ⟨-, -, hlookup⟩ := of_validateOverrides_ok h
  rw [hlookup] at hv
  exact exists_of_kept hv

theorem text_of_lookup {field : String × List String}
    (hfield : field ∈ stringAllowlistFields allowlists)
    (hv : validated.lookup field.1 = some v) :
    ∃ s, v = .str s ∧ s ∈ field.2 := by
  obtain ⟨x, -, hverdict⟩ := verdict_of_lookup h hv
  have hname : field.1 ∈ stringFields := by
    rw [← map_stringAllowlistFields allowlists]
    exact List.mem_map_of_mem hfield
  rw [fieldVerdict_text hname, of_of_mem hfield] at hverdict
  obtain ⟨-, hmem, rfl⟩ := of_textVerdict hverdict
  exact ⟨_, rfl, hmem⟩

theorem steps_of_lookup (hv : validated.lookup "steps" = some v) :
    ∃ n, v = .int n ∧ allowlists.minSteps ≤ n ∧ n ≤ allowlists.maxSteps := by
  obtain ⟨x, -, hverdict⟩ := verdict_of_lookup h hv
  obtain ⟨n, -, rfl, hrange⟩ := of_stepsVerdict hverdict
  exact ⟨n, rfl, hrange⟩

theorem cfgScale_of_lookup (hv : validated.lookup "cfg_scale" = some v) :
    ∃ cfg, v = .float cfg ∧
      cfg.between allowlists.minCfgScale allowlists.maxCfgScale = true := by
  obtain ⟨x, -, hverdict⟩ := verdict_of_lookup h hv
  obtain ⟨cfg, -, rfl, hrange⟩ := of_cfgScaleVerdict hverdict
  exact ⟨cfg, rfl, hrange⟩

theorem lookup_negativePrompt : validated.lookup "negative_prompt" =
    (overrides.lookup "negative_prompt").map (fun x =>
      .str (sliceTo allowlists.maxNegativePromptChars (x.text host.repr))) := by
  obtain ⟨-, hreturns, hlookup⟩ := of_validateOverrides_ok h
  rw [hlookup]
  cases hx : overrides.lookup "negative_prompt" with
  | none => exact kept_of_ok (overrideVerdict_of_none hx)
  | some x =>
      obtain ⟨o, ho⟩ := hreturns "negative_prompt" (by decide)
      rw [kept_of_ok ho]
      rw [overrideVerdict_of_some hx] at ho
      have hverdict : negativePromptVerdict host allowlists x = .ok o := ho
      have hreads := returns_negativePromptVerdict.mp ⟨o, hverdict⟩
      simp only [negativePromptVerdict, toStr_of_printable hreads,
        Except.ok.injEq] at hverdict
      exact hverdict.symm

theorem negativePrompt_of_lookup (hv : validated.lookup "negative_prompt" = some v) :
    ∃ x, overrides.lookup "negative_prompt" = some x ∧ v = .str
      (sliceTo allowlists.maxNegativePromptChars (x.text host.repr)) := by
  obtain ⟨x, hx, hverdict⟩ := verdict_of_lookup h hv
  exact ⟨x, hx, (of_negativePromptVerdict hverdict).2⟩

/-- **What a validation returns, the allowlists admit**, unless a limit below
zero cuts the negative prompt. -/
theorem admitted_of_validateOverrides
    (hlimit : overrides.lookup "negative_prompt" = none ∨
      0 ≤ allowlists.maxNegativePromptChars) :
    validated.Admitted allowlists := by
  obtain ⟨hknown, -, -⟩ := of_validateOverrides_ok h
  constructor
  case keys =>
    intro key v hv
    obtain ⟨x, hx, -⟩ := verdict_of_lookup h hv
    by_contra hkey
    rw [lookup_of_unknownKeys hknown hkey] at hx
    cases hx
  case texts => exact fun hfield hv => text_of_lookup h hfield hv
  case steps => exact fun hv => steps_of_lookup h hv
  case cfgScale => exact fun hv => cfgScale_of_lookup h hv
  case negativePrompt =>
    intro v hv
    obtain ⟨x, hx, rfl⟩ := negativePrompt_of_lookup h hv
    have hpos : 0 ≤ allowlists.maxNegativePromptChars := by
      rcases hlimit with hnone | hpos
      · rw [hnone] at hx
        cases hx
      · exact hpos
    exact ⟨_, rfl, length_sliceTo hpos _⟩

end Lookups

/-! ## Well-validated overrides -/

theorem not_mem_stringFields {name : String}
    (h : name = "steps" ∨ name = "cfg_scale") : name ∉ stringFields := by
  rcases h with rfl | rfl <;> decide

/-- The first field that is given up on is then a refused text. -/
theorem first_refused {before behind : List String}
    (hkeys : stringFields = before ++ field :: behind)
    (hbefore : ∀ k ∈ before, ¬ overrides.Raises k)
    (hrefused : overrides.Refused host allowlists field) :
    ∃ earlier k rest, allOverrideKeys = earlier ++ k :: rest ∧
      (∀ j ∈ earlier ++ [k], j ∈ stringFields) ∧
      (∀ j ∈ earlier, Returns (overrideVerdict host allowlists overrides j)) ∧
      overrideVerdict host allowlists overrides k = .error .refused := by
  have hfield : field ∈ stringFields := by simp [hkeys]
  have hverdict : overrideVerdict host allowlists overrides field =
      .error .refused := by
    obtain ⟨x, hx, hprintable, hmem⟩ := hrefused
    rw [overrideVerdict_of_some hx, fieldVerdict_text hfield]
    simp [textVerdict, toStr_of_printable hprintable, hmem]
  rcases first_error (overrideVerdict host allowlists overrides)
    (before ++ [field]) with hall | ⟨earlier, k, rest, f, hsplit, hearlier, hf⟩
  · obtain ⟨o, ho⟩ := hall field (by simp)
    simp [hverdict] at ho
  · have hmem : k ∈ before ++ [field] := by simp [hsplit]
    have hfault : overrideVerdict host allowlists overrides k =
        .error .refused := by
      rcases List.mem_append.mp hmem with hk | hk
      · rcases returns_or_refused host allowlists (hbefore k hk) with ⟨o, ho⟩ | hk
        · simp [hf] at ho
        · exact hk
      · rw [List.mem_singleton.mp hk]
        exact hverdict
    have htexts : stringFields = (earlier ++ [k]) ++ (rest ++ behind) := by
      calc stringFields = (before ++ [field]) ++ behind := by simp [hkeys]
        _ = (earlier ++ [k]) ++ (rest ++ behind) := by simp [hsplit]
    refine ⟨earlier, k, rest ++ behind ++ ["steps", "cfg_scale", "negative_prompt"],
      ?_, ?_, hearlier, hfault⟩
    · simp [allOverrideKeys_eq, htexts]
    · intro j hj
      rw [htexts]
      exact List.mem_append_left _ hj

/-- A refusal comes from a text. -/
theorem split_of_refused {before behind : List String}
    (hkeys : allOverrideKeys = before ++ field :: behind)
    (hfield : field ≠ "steps" ∧ field ≠ "cfg_scale" ∧
      field ≠ "negative_prompt") :
    ∃ rest, stringFields = before ++ field :: rest := by
  have hnot : field ∉ ["steps", "cfg_scale", "negative_prompt"] := by
    simp [hfield]
  rw [allOverrideKeys_eq, List.append_eq_append_iff] at hkeys
  rcases hkeys with ⟨others, -, hothers⟩ | ⟨others, hothers, hrest⟩
  · exact absurd (by simp [hothers]) hnot
  · cases others with
    | nil => exact absurd (List.cons.inj hrest).1 hfield.1
    | cons k rest =>
        rw [List.cons_append, List.cons.injEq] at hrest
        exact ⟨rest, by rw [hothers, hrest.1]⟩

/-- Without an unknown key the results are what `Manageable` says. -/
theorem manageable_of_result (hknown : unknownKeys overrides = [])
    (h : (∃ message, validateOverrides host allowlists
        ⟨overrides.json, overrides.isDict⟩ =
          .error (.invalidComfyOverride message)) ∨
      ∃ validated, validateOverrides host allowlists
        ⟨overrides.json, overrides.isDict⟩ = .ok validated ∧
          validated.Admitted allowlists) :
    overrides.Manageable host allowlists := by
  rcases h with ⟨message, hmessage⟩ | ⟨validated, hok, hadmitted⟩
  · rcases first_error (overrideVerdict host allowlists overrides)
      allOverrideKeys with hall | ⟨before, field, behind, f, hkeys, hbefore, hf⟩
    · obtain ⟨validated, hok, -⟩ := validateOverrides_ok hknown hall
      simp [hmessage] at hok
    · obtain ⟨e, he, hraised⟩ := validateOverrides_error hknown hkeys hbefore hf
      rw [hmessage] at he
      cases he
      cases f with
      | raises exc => cases hraised
      | refused =>
          obtain ⟨hrefused, hfield⟩ := refused_of_error hf
          obtain ⟨rest, hrest⟩ := split_of_refused hkeys hfield
          exact .refused before rest field hrest
            (fun k hk => not_raises_of_returns (hbefore k hk)) hrefused
  · obtain ⟨-, hreturns, -⟩ := of_validateOverrides_ok hok
    refine .read (fun k hk => not_raises_of_returns (hreturns k hk)) ?_
    have hkept := lookup_negativePrompt hok
    cases hx : overrides.lookup "negative_prompt" with
    | none => exact .inl rfl
    | some x =>
        right
        rw [hx] at hkept
        obtain ⟨s, -, hlength⟩ := hadmitted.negativePrompt hkept
        omega

/-- A field that is not in its range is dropped, if its conversion does not
raise. -/
theorem steps_dropped (hx : overrides.lookup "steps" = some x)
    (hraises : ¬ overrides.Raises "steps")
    (hrange : ¬ StepsInRange host allowlists x) :
    overrideVerdict host allowlists overrides "steps" = .ok none := by
  rw [overrideVerdict_of_some hx]
  have hreads : x.overflowsInt = false :=
    Bool.not_eq_true _ ▸ fun h => hraises ⟨x, hx, h⟩
  obtain ⟨o, ho⟩ : Returns (stepsVerdict host allowlists x) :=
    returns_stepsVerdict.mpr hreads
  cases o with
  | none => exact ho
  | some v =>
      obtain ⟨n, hn, -, hin⟩ := of_stepsVerdict ho
      exact absurd ⟨n, hn, hin⟩ hrange

theorem cfgScale_dropped (hx : overrides.lookup "cfg_scale" = some x)
    (hraises : ¬ overrides.Raises "cfg_scale")
    (hrange : ¬ CfgScaleInRange host allowlists x) :
    overrideVerdict host allowlists overrides "cfg_scale" = .ok none := by
  rw [overrideVerdict_of_some hx]
  have hreads : x.overflowsFloat = false :=
    Bool.not_eq_true _ ▸ fun h => hraises ⟨x, hx, h⟩
  obtain ⟨o, ho⟩ : Returns (cfgScaleVerdict host allowlists x) :=
    returns_cfgScaleVerdict.mpr hreads
  cases o with
  | none => exact ho
  | some v =>
      obtain ⟨cfg, hcfg, -, hin⟩ := of_cfgScaleVerdict ho
      exact absurd ⟨cfg, hcfg, hin⟩ hrange

theorem wellValidated_of_not_obj {y : { y : Json // y.IsDict }}
    (h : ∀ overrides : Dict, y.1 ≠ overrides.json) :
    WellValidated host allowlists y where
  result := by
    obtain ⟨y, hy⟩ := y
    cases y with
    | null =>
        refine .inr ⟨.empty, rfl, ?_⟩
        constructor <;> intros <;> simp_all [Dict.lookup_empty]
    | obj members => exact absurd rfl (h ⟨members, hy⟩)
    | _ => exact .inl ⟨_, rfl⟩
  steps hy := absurd hy (h _)
  cfgScale hy := absurd hy (h _)

/-- A numeric field outside its range makes no difference. -/
theorem erase_of_manageable (hfield : field = "steps" ∨ field = "cfg_scale")
    (hdropped : ¬ overrides.Raises field →
      overrideVerdict host allowlists overrides field = .ok none)
    (h : overrides.Manageable host allowlists) :
    validateOverrides host allowlists ⟨overrides.json, overrides.isDict⟩ =
      validateOverrides host allowlists
        ⟨(overrides.erase field).json, (overrides.erase field).isDict⟩ := by
  have hkey : field ∈ allOverrideKeys := by
    rcases hfield with rfl | rfl <;> decide
  by_cases hknown : unknownKeys overrides = []
  · cases h with
    | unknown hunknown => exact absurd hknown hunknown
    | refused before behind k hkeys hbefore hrefused =>
        obtain ⟨earlier, j, rest, hall, htexts, hearlier, hj⟩ :=
          first_refused hkeys hbefore hrefused
        refine validateOverrides_erase_behind hknown hall hearlier hj hkey ?_
        intro hmem
        exact not_mem_stringFields hfield (htexts field hmem)
    | read hreads _ =>
        exact validateOverrides_erase hkey hknown (hdropped (hreads field hkey))
  · have hunknown : unknownKeys (overrides.erase field) ≠ [] := by
      rwa [unknownKeys_erase hkey]
    rw [validateOverrides_unknown hknown, validateOverrides_unknown hunknown,
      unknownKeys_erase hkey]

theorem result_of_manageable (h : overrides.Manageable host allowlists) :
    (∃ message, validateOverrides host allowlists
        ⟨overrides.json, overrides.isDict⟩ =
          .error (.invalidComfyOverride message)) ∨
      ∃ validated, validateOverrides host allowlists
        ⟨overrides.json, overrides.isDict⟩ = .ok validated ∧
          validated.Admitted allowlists := by
  by_cases hknown : unknownKeys overrides = []
  · cases h with
    | unknown hunknown => exact absurd hknown hunknown
    | refused before behind k hkeys hbefore hrefused =>
        obtain ⟨earlier, j, rest, hall, -, hearlier, hj⟩ :=
          first_refused hkeys hbefore hrefused
        obtain ⟨e, he, message, rfl⟩ :=
          validateOverrides_error hknown hall hearlier hj
        exact .inl ⟨message, he⟩
    | read hreads hlimit =>
        rcases first_error (overrideVerdict host allowlists overrides)
          allOverrideKeys with hall | ⟨before, k, behind, f, hkeys, hbefore, hf⟩
        · obtain ⟨validated, hok, -⟩ := validateOverrides_ok hknown hall
          exact .inr ⟨validated, hok, admitted_of_validateOverrides hok hlimit⟩
        · obtain ⟨e, he, hraised⟩ :=
            validateOverrides_error hknown hkeys hbefore hf
          cases f with
          | refused =>
              obtain ⟨message, rfl⟩ := hraised
              exact .inl ⟨message, he⟩
          | raises exc =>
              have hmem : k ∈ allOverrideKeys := by simp [hkeys]
              exact absurd (raises_of_error hf) (hreads k hmem)
  · exact .inl ⟨_, validateOverrides_unknown hknown⟩

/-- **When a validation does what it is for**: exactly for what is no object, and
for manageable overrides. -/
theorem wellValidated_iff (host : AdmissionHost) (allowlists : OverrideAllowlists)
    (y : { y : Json // y.IsDict }) :
    WellValidated host allowlists y ↔ ∀ overrides : Dict,
      y.1 = overrides.json → overrides.Manageable host allowlists := by
  constructor
  · rintro h overrides hy
    obtain rfl : y = ⟨overrides.json, overrides.isDict⟩ := Subtype.ext hy
    by_cases hknown : unknownKeys overrides = []
    · exact manageable_of_result hknown h.result
    · exact .unknown hknown
  · intro h
    by_cases hobj : ∀ overrides : Dict, y.1 ≠ overrides.json
    · exact wellValidated_of_not_obj hobj
    · push Not at hobj
      obtain ⟨overrides, hy⟩ := hobj
      obtain rfl : y = ⟨overrides.json, overrides.isDict⟩ := Subtype.ext hy
      have hmanageable := h overrides rfl
      refine ⟨result_of_manageable hmanageable, ?_, ?_⟩
      · intro _ v hother hv hrange
        obtain rfl := Dict.json_inj hother
        exact erase_of_manageable (.inl rfl)
          (fun hraises => steps_dropped hv hraises hrange) hmanageable
      · intro _ v hother hv hrange
        obtain rfl := Dict.json_inj hother
        exact erase_of_manageable (.inr rfl)
          (fun hraises => cfgScale_dropped hv hraises hrange) hmanageable

end Verdicts

/-- Overrides with an infinite number of steps. -/
def endlessSteps : Dict :=
  Dict.empty.set "steps" (.float .inf) (.float .inf)

/-- An infinite number of steps is not dropped: it raises. -/
theorem not_wellValidated :
    validateOverrides plainHost (buildAllowlists {})
        ⟨endlessSteps.json, endlessSteps.isDict⟩ =
      .error (.other "OverflowError") ∧
    ¬ WellValidated plainHost (buildAllowlists {})
      ⟨endlessSteps.json, endlessSteps.isDict⟩ := by
  have hraises : validateOverrides plainHost (buildAllowlists {})
      ⟨endlessSteps.json, endlessSteps.isDict⟩ =
        .error (.other "OverflowError") := rfl
  refine ⟨hraises, fun h => ?_⟩
  rcases h.result with ⟨message, hmessage⟩ | ⟨validated, hok, -⟩
  · simp [hraises] at hmessage
  · simp [hraises] at hok

end Imagin4.Ports
