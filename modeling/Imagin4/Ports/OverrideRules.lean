import Imagin4.Verified.FieldChecks
import Imagin4.Ports.ComfyOverrides

/-!
# What a validation of overrides lets through

`validate_overrides` looks at one field after another.  What becomes of a field
depends on its value and on the allowlists only (`overrideVerdict`), and of the
fields the first one that is given up on decides how the validation ends.

Two conversions raise an `OverflowError`, which is not caught: `int` of an
infinity and `float` of an integer beyond the doubles.  `str` raises a
`ValueError` for an integer of too many digits.

## Main results

* `validateOverrides_eq` — the validation is one loop over the known fields.
-/

namespace Imagin4.Ports

open Imagin4.Verified

/-- Why a validation gives up on an override: it is refused, or its conversion
raises what nobody catches. -/
inductive OverrideFault where
  | refused
  | raises (exc : PyError)

/-- The exception that ends a validation. -/
def OverrideFault.Raised : OverrideFault → AdmissionError → Prop
  | refused, e => ∃ message, e = .invalidComfyOverride message
  | raises exc, e => e = .other exc

/-- The allowlist of a string field. -/
def OverrideAllowlists.of (allowlists : OverrideAllowlists) (field : String) :
    List String :=
  ((stringAllowlistFields allowlists).lookup field).getD []

section Verdicts

variable (host : AdmissionHost) (allowlists : OverrideAllowlists)

/-- What becomes of a string field. -/
def textVerdict (allowed : List String) (x : Json) :
    Except OverrideFault (Option Json) :=
  match x.toStr host with
  | .error exc => .error (.raises exc)
  | .ok text =>
      if strip text ∈ allowed then .ok (some (.str (strip text)))
      else .error .refused

/-- What becomes of `steps`. -/
def stepsVerdict (x : Json) : Except OverrideFault (Option Json) :=
  match x.toInt host with
  | .ok steps =>
      .ok (if allowlists.minSteps ≤ steps ∧ steps ≤ allowlists.maxSteps then
        some (.int steps) else none)
  | .error exc =>
      if exc = "OverflowError" then .error (.raises exc) else .ok none

/-- What becomes of `cfg_scale`. -/
def cfgScaleVerdict (x : Json) : Except OverrideFault (Option Json) :=
  match x.toFloat host with
  | .ok cfg =>
      .ok (if cfg.between allowlists.minCfgScale allowlists.maxCfgScale then
        some (.float cfg) else none)
  | .error exc =>
      if exc = "OverflowError" then .error (.raises exc) else .ok none

/-- What becomes of `negative_prompt`. -/
def negativePromptVerdict (x : Json) : Except OverrideFault (Option Json) :=
  match x.toStr host with
  | .ok text =>
      .ok (some (.str (sliceTo allowlists.maxNegativePromptChars text)))
  | .error exc => .error (.raises exc)

/-- What becomes of the value of a field. -/
def fieldVerdict (field : String) (x : Json) :
    Except OverrideFault (Option Json) :=
  if field = "steps" then stepsVerdict host allowlists x
  else if field = "cfg_scale" then cfgScaleVerdict host allowlists x
  else if field = "negative_prompt" then negativePromptVerdict host allowlists x
  else textVerdict host (allowlists.of field) x

/-- What becomes of a field of the overrides. -/
def overrideVerdict (overrides : Dict) (field : String) :
    Except OverrideFault (Option Json) :=
  match overrides.lookup field with
  | none => .ok none
  | some x => fieldVerdict host allowlists field x

/-- One step of the validation. -/
def validateField (overrides validated : Dict) (field : String) :
    Except AdmissionError Dict :=
  if field = "steps" then validateSteps host allowlists overrides validated
  else if field = "cfg_scale" then
    validateCfgScale host allowlists overrides validated
  else if field = "negative_prompt" then
    validateNegativePrompt host allowlists overrides validated
  else validateStringField host overrides validated (field, allowlists.of field)

end Verdicts

/-! ## The loop over the fields -/

/-- A step does to a field what the verdict says, and nothing to the others. -/
structure CarriesOut (verdict : Except OverrideFault (Option Json))
    (field : String) (record : Dict) (result : Except AdmissionError Dict) :
    Prop where
  ok {o : Option Json} : verdict = .ok o → ∃ after, result = .ok after ∧
    ∀ k, after.lookup k =
      if k = field then o.or (record.lookup k) else record.lookup k
  unchanged : verdict = .ok none → result = .ok record
  error {f : OverrideFault} : verdict = .error f →
    ∃ e, result = .error e ∧ f.Raised e

namespace CarriesOut

variable {field : String} {record : Dict}

theorem dropped : CarriesOut (.ok none) field record (.ok record) where
  ok h := by
    cases h
    exact ⟨record, rfl, by simp⟩
  unchanged _ := rfl
  error h := by cases h

theorem written (x : Json) (hx : x.IsDict) :
    CarriesOut (.ok (some x)) field record (.ok (record.set field x hx)) where
  ok h := by
    cases h
    exact ⟨_, rfl, by simp [Dict.lookup_set]⟩
  unchanged h := by cases h
  error h := by cases h

theorem givenUp {f : OverrideFault} {e : AdmissionError} (h : f.Raised e) :
    CarriesOut (.error f) field record (.error e) where
  ok h := by cases h
  unchanged h := by cases h
  error hf := by
    cases hf
    exact ⟨e, rfl, h⟩

end CarriesOut

section Validation

variable {host : AdmissionHost} {allowlists : OverrideAllowlists}
  {overrides : Dict}

theorem carriesOut_validateStringField {field : String} (record : Dict)
    (htext : field ≠ "steps" ∧ field ≠ "cfg_scale" ∧ field ≠ "negative_prompt") :
    CarriesOut (overrideVerdict host allowlists overrides field) field record
      (validateStringField host overrides record (field, allowlists.of field)) := by
  unfold validateStringField overrideVerdict Dict.lookup
  cases Json.lookup field overrides.members with
  | none => exact .dropped
  | some x =>
      simp only [fieldVerdict, htext, if_false, textVerdict]
      cases x.toStr host with
      | error exc => exact .givenUp rfl
      | ok text =>
          by_cases hempty : allowlists.of field = []
          · simp only [hempty, if_true, List.not_mem_nil, if_false]
            exact .givenUp ⟨_, rfl⟩
          · by_cases hmem : strip text ∈ allowlists.of field
            · simp only [hempty, hmem, if_true, if_false]
              exact .written _ _
            · simp only [hempty, hmem, if_false]
              exact .givenUp ⟨_, rfl⟩

theorem carriesOut_validateSteps (record : Dict) :
    CarriesOut (overrideVerdict host allowlists overrides "steps") "steps" record
      (validateSteps host allowlists overrides record) := by
  unfold validateSteps overrideVerdict Dict.lookup
  cases Json.lookup "steps" overrides.members with
  | none => exact .dropped
  | some x =>
      simp only [fieldVerdict, if_true, stepsVerdict]
      cases x.toInt host with
      | ok steps =>
          by_cases hrange :
              allowlists.minSteps ≤ steps ∧ steps ≤ allowlists.maxSteps
          · simp only [hrange, and_self, if_true]
            exact .written _ _
          · simp only [hrange, if_false]
            exact .dropped
      | error exc =>
          by_cases hover : exc = "OverflowError"
          · simp only [hover, if_true]
            exact .givenUp rfl
          · simp only [hover, if_false]
            exact .dropped

theorem carriesOut_validateCfgScale (record : Dict) :
    CarriesOut (overrideVerdict host allowlists overrides "cfg_scale") "cfg_scale"
      record (validateCfgScale host allowlists overrides record) := by
  unfold validateCfgScale overrideVerdict Dict.lookup
  cases Json.lookup "cfg_scale" overrides.members with
  | none => exact .dropped
  | some x =>
      simp only [fieldVerdict, cfgScaleVerdict]
      cases x.toFloat host with
      | ok cfg =>
          by_cases hrange :
              cfg.between allowlists.minCfgScale allowlists.maxCfgScale = true
          · simp only [hrange, if_true]
            exact .written _ _
          · simp only [hrange]
            exact .dropped
      | error exc =>
          by_cases hover : exc = "OverflowError"
          · simp only [hover, if_true]
            exact .givenUp rfl
          · simp only [hover, if_false]
            exact .dropped

theorem carriesOut_validateNegativePrompt (record : Dict) :
    CarriesOut (overrideVerdict host allowlists overrides "negative_prompt")
      "negative_prompt" record
      (validateNegativePrompt host allowlists overrides record) := by
  unfold validateNegativePrompt overrideVerdict Dict.lookup
  cases Json.lookup "negative_prompt" overrides.members with
  | none => exact .dropped
  | some x =>
      simp only [fieldVerdict, negativePromptVerdict]
      cases x.toStr host with
      | ok text => exact .written _ _
      | error exc => exact .givenUp rfl

theorem carriesOut_validateField (record : Dict) (field : String) :
    CarriesOut (overrideVerdict host allowlists overrides field) field record
      (validateField host allowlists overrides record field) := by
  unfold validateField
  by_cases hsteps : field = "steps"
  · subst hsteps
    simp only [if_true]
    exact carriesOut_validateSteps record
  by_cases hcfg : field = "cfg_scale"
  · subst hcfg
    exact carriesOut_validateCfgScale record
  by_cases hnegative : field = "negative_prompt"
  · subst hnegative
    exact carriesOut_validateNegativePrompt record
  simp only [hsteps, hcfg, hnegative, if_false]
  exact carriesOut_validateStringField record ⟨hsteps, hcfg, hnegative⟩

/-- The steps of the validation carry out the verdicts. -/
theorem fieldCheck_validateField :
    FieldCheck Dict.lookup OverrideFault.Raised
      (overrideVerdict host allowlists overrides)
      (validateField host allowlists overrides) where
  ok {field _} record h := (carriesOut_validateField record field).ok h
  error {field _} record h := (carriesOut_validateField record field).error h

/-- **The validation is one loop over the known fields.** -/
theorem validateOverrides_eq (h : unknownKeys overrides = []) :
    validateOverrides host allowlists ⟨overrides.json, overrides.isDict⟩ =
      allOverrideKeys.foldlM (validateField host allowlists overrides) .empty := by
  show (if unknownKeys overrides ≠ [] then _ else _) = _
  rw [if_neg (by simp [h])]
  simp only [stringAllowlistFields, allOverrideKeys, List.foldlM_cons,
    List.foldlM_nil, bind_assoc, bind_pure]
  simp [validateField, OverrideAllowlists.of, stringAllowlistFields,
    List.lookup_cons]

theorem unknownKeys_erase {field : String} (h : field ∈ allOverrideKeys) :
    unknownKeys (overrides.erase field) = unknownKeys overrides := by
  unfold unknownKeys Dict.erase
  congr 1
  simp only [List.filter_map, List.filter_filter]
  congr 1
  refine List.filter_congr (fun m _ => ?_)
  by_cases hkey : m.1 = field
  · simp [hkey, h]
  · simp [hkey]

theorem validateOverrides_unknown (h : unknownKeys overrides ≠ []) :
    validateOverrides host allowlists ⟨overrides.json, overrides.isDict⟩ =
      .error (.invalidComfyOverride ("unknown model_overrides keys: " ++
        host.repr (.arr ((unknownKeys overrides).map .str)))) :=
  if_pos h

/-- A key the validation does not know is no key of the overrides. -/
theorem lookup_of_unknownKeys (h : unknownKeys overrides = []) {field : String}
    (hfield : field ∉ allOverrideKeys) : overrides.lookup field = none := by
  unfold unknownKeys at h
  have hperm := List.perm_insertionSort (fun s t : String => s.toList ≤ t.toList)
    ((overrides.members.map Prod.fst).filter
      (fun key => decide (key ∉ allOverrideKeys)))
  rw [h, List.nil_perm, List.filter_eq_nil_iff] at hperm
  unfold Dict.lookup Json.lookup
  rw [Option.map_eq_none_iff, List.find?_eq_none]
  intro m hm hkey
  have hname : m.1 = field := by simpa using hkey
  have hmem := hperm m.1 (List.mem_map_of_mem hm)
  simp [hname, hfield] at hmem

theorem unknownKeys_eq_nil
    (h : ∀ field, field ∉ allOverrideKeys → overrides.lookup field = none) :
    unknownKeys overrides = [] := by
  have hnone : (overrides.members.map Prod.fst).filter
      (fun key => decide (key ∉ allOverrideKeys)) = [] := by
    rw [List.filter_eq_nil_iff]
    intro key hkey hunknown
    obtain ⟨m, hm, rfl⟩ := List.mem_map.mp hkey
    have hlookup := h m.1 (of_decide_eq_true hunknown)
    unfold Dict.lookup Json.lookup at hlookup
    rw [Option.map_eq_none_iff, List.find?_eq_none] at hlookup
    exact hlookup m hm (decide_eq_true rfl)
  unfold unknownKeys
  rw [hnone]
  rfl

/-- What is left of the overrides when nothing is given up on. -/
theorem validateOverrides_ok (hknown : unknownKeys overrides = [])
    (hfields : ∀ field ∈ allOverrideKeys,
      Returns (overrideVerdict host allowlists overrides field)) :
    ∃ validated, validateOverrides host allowlists
        ⟨overrides.json, overrides.isDict⟩ = .ok validated ∧
      ∀ field, validated.lookup field =
        kept (overrideVerdict host allowlists overrides) field := by
  obtain ⟨validated, hvalidated, hlookup⟩ :=
    fieldCheck_validateField.run_ok allOverrideKeys hfields .empty
  refine ⟨validated, by rw [validateOverrides_eq hknown, hvalidated], ?_⟩
  intro field
  rw [hlookup, Dict.lookup_empty]
  by_cases hfield : field ∈ allOverrideKeys
  · rw [if_pos hfield, Option.or_none]
  · have hnone : overrideVerdict host allowlists overrides field = .ok none := by
      unfold overrideVerdict
      rw [lookup_of_unknownKeys hknown hfield]
    rw [if_neg hfield, kept_of_ok hnone]

/-- The first field that is given up on decides. -/
theorem validateOverrides_error (hknown : unknownKeys overrides = [])
    {before behind : List String} {field : String} {f : OverrideFault}
    (hkeys : allOverrideKeys = before ++ field :: behind)
    (hbefore : ∀ k ∈ before,
      Returns (overrideVerdict host allowlists overrides k))
    (hfield : overrideVerdict host allowlists overrides field = .error f) :
    ∃ e, validateOverrides host allowlists ⟨overrides.json, overrides.isDict⟩ =
      .error e ∧ f.Raised e := by
  rw [validateOverrides_eq hknown, hkeys]
  exact fieldCheck_validateField.run_error hbefore hfield .empty

/-- What a validation that succeeds has found. -/
theorem of_validateOverrides_ok {validated : Dict}
    (h : validateOverrides host allowlists ⟨overrides.json, overrides.isDict⟩ =
      .ok validated) :
    unknownKeys overrides = [] ∧
      (∀ field ∈ allOverrideKeys,
        Returns (overrideVerdict host allowlists overrides field)) ∧
      ∀ field, validated.lookup field =
        kept (overrideVerdict host allowlists overrides) field := by
  by_cases hknown : unknownKeys overrides = []
  · rcases first_error (overrideVerdict host allowlists overrides)
      allOverrideKeys with hfields | ⟨before, field, behind, f, hkeys, hbefore, hf⟩
    · obtain ⟨validated', hok, hlookup⟩ := validateOverrides_ok hknown hfields
      rw [h] at hok
      cases hok
      exact ⟨hknown, hfields, hlookup⟩
    · obtain ⟨e, he, -⟩ := validateOverrides_error hknown hkeys hbefore hf
      rw [h] at he
      cases he
  · rw [validateOverrides_unknown hknown] at h
    cases h

/-- A step reads its own field only. -/
theorem validateField_congr {other : Dict} {field : String}
    (h : overrides.lookup field = other.lookup field) (record : Dict) :
    validateField host allowlists overrides record field =
      validateField host allowlists other record field := by
  unfold Dict.lookup at h
  unfold validateField
  by_cases hsteps : field = "steps"
  · subst hsteps
    simp only [if_true, validateSteps, h]
  by_cases hcfg : field = "cfg_scale"
  · subst hcfg
    simp only [hsteps, if_true, if_false, validateCfgScale, h]
  by_cases hnegative : field = "negative_prompt"
  · subst hnegative
    simp only [hsteps, hcfg, if_true, if_false, validateNegativePrompt, h]
  · simp only [hsteps, hcfg, hnegative, if_false, validateStringField, h]

theorem validateField_erase {field k : String} (h : k ≠ field) (record : Dict) :
    validateField host allowlists (overrides.erase field) record k =
      validateField host allowlists overrides record k := by
  refine validateField_congr ?_ record
  rw [Dict.lookup_erase, if_neg h]

/-- A field that is dropped makes no difference. -/
theorem validateOverrides_erase {field : String} (hfield : field ∈ allOverrideKeys)
    (hknown : unknownKeys overrides = [])
    (hdropped : overrideVerdict host allowlists overrides field = .ok none) :
    validateOverrides host allowlists ⟨overrides.json, overrides.isDict⟩ =
      validateOverrides host allowlists
        ⟨(overrides.erase field).json, (overrides.erase field).isDict⟩ := by
  have herased : overrideVerdict host allowlists (overrides.erase field) field =
      .ok none := by
    unfold overrideVerdict
    rw [Dict.lookup_erase, if_pos rfl]
  rw [validateOverrides_eq hknown,
    validateOverrides_eq (by rw [unknownKeys_erase hfield, hknown])]
  refine foldlM_congr (fun k _ record => ?_) Dict.empty
  by_cases hk : k = field
  · subst hk
    rw [(carriesOut_validateField record k).unchanged hdropped,
      (carriesOut_validateField record k).unchanged herased]
  · rw [validateField_erase hk]

/-- Nor does any field behind the first that is given up on. -/
theorem validateOverrides_erase_behind {before behind : List String}
    {k field : String} {f : OverrideFault} (hknown : unknownKeys overrides = [])
    (hkeys : allOverrideKeys = before ++ k :: behind)
    (hbefore : ∀ j ∈ before,
      Returns (overrideVerdict host allowlists overrides j))
    (hk : overrideVerdict host allowlists overrides k = .error f)
    (hfield : field ∈ allOverrideKeys) (hbehind : field ∉ before ++ [k]) :
    validateOverrides host allowlists ⟨overrides.json, overrides.isDict⟩ =
      validateOverrides host allowlists
        ⟨(overrides.erase field).json, (overrides.erase field).isDict⟩ := by
  obtain ⟨e, he, -⟩ : ∃ e, (before ++ [k]).foldlM
      (validateField host allowlists overrides) .empty = .error e ∧ f.Raised e :=
    fieldCheck_validateField.run_error hbefore hk .empty
  have hsplit : allOverrideKeys = (before ++ [k]) ++ behind := by simp [hkeys]
  have herased : (before ++ [k]).foldlM
      (validateField host allowlists (overrides.erase field)) .empty =
        .error e := by
    rw [← he]
    refine foldlM_congr (fun j hj record => ?_) Dict.empty
    exact validateField_erase (ne_of_mem_of_not_mem hj hbehind) record
  rw [validateOverrides_eq hknown,
    validateOverrides_eq (by rw [unknownKeys_erase hfield, hknown]), hsplit,
    foldlM_append_error he, foldlM_append_error herased]

/-- What is validated is nothing, or a dict. -/
theorem value_of_validateOverrides {x : { x : Json // x.IsDict }} {validated : Dict}
    (h : validateOverrides host allowlists x = .ok validated) :
    x.1 = .null ∧ validated = .empty ∨
      ∃ overrides : Dict, x = ⟨overrides.json, overrides.isDict⟩ := by
  obtain ⟨x, hx⟩ := x
  cases x with
  | null =>
      cases h
      exact .inl ⟨rfl, rfl⟩
  | obj members => exact .inr ⟨⟨members, hx⟩, rfl⟩
  | _ => cases h

end Validation

end Imagin4.Ports
