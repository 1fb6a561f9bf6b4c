import Imagin4.Ports.ChatRouting

/-!
# The answers that are route decisions

`RouteDecision` is a strict schema, and `parse_route_decision` loosens it in two places
before it applies it: a list that is null is empty, and a reason code that is not known
is the fallback.  Both are written against an answer that is a dict of anything.

The look-up of the reason code hashes it, and a list or an object has no hash: such an
answer ends in a `TypeError`, where a decision with the fallback was meant.

## Main results

* `modelValidate_coerced` — the schema after the coercions, in terms of the answer.
* `route_decision_iff` — which answers are decisions, and where it fails.
* `not_route_decision` — an answer whose reason code is a list.
-/

namespace Imagin4.Ports

/-! ## What is meant -/

/-- A field that is absent, null, or a list of strings. -/
def ListField (field : Option Json) (values : List String) : Prop :=
  ((field = none ∨ field = some .null) ∧ values = []) ∨
    field = some (.arr (values.map .str))

/-- A field that is absent, null, or a string. -/
def StringField (field : Option Json) (value : Option String) : Prop :=
  ((field = none ∨ field = some .null) ∧ value = none) ∨
    ∃ s, field = some (.str s) ∧ value = some s

/-- The reason code that a field gives. -/
def reasonCodeOf (field : Option Json) : ReasonCode :=
  (field.bind (fun x => x.asStr.bind ReasonCode.ofString)).getD
    .ambiguousVisualDeliverable

/-- The members of an answer are those of a decision. -/
structure Accepts (members : List (String × Json)) (decision : RouteDecision) :
    Prop where
  keys : ∀ m ∈ members, m.1 ∈ routeDecisionFields
  intent : ∃ s, Json.lookup "intent" members = some (.str s) ∧
    Intent.ofString s = some decision.intent
  normalizedPrompt : Json.lookup "normalized_prompt" members =
    some (.str decision.normalizedPrompt)
  exactText : ListField (Json.lookup "exact_text" members) decision.exactText
  missingFields : ListField (Json.lookup "missing_fields" members)
    decision.missingFields
  clarificationQuestion : StringField (Json.lookup "clarification_question" members)
    decision.clarificationQuestion
  reasonCode : decision.reasonCode = reasonCodeOf (Json.lookup "reason_code" members)

/-- The decisions are the answers that are meant to be, and everything else is a
`RouteDecisionError`. -/
def MeetsContract (raw : Json) : Prop :=
  (∀ decision, parseRouteDecision raw = .ok decision ↔
    ∃ members, raw = .obj members ∧ Accepts members decision) ∧
  ∀ e, parseRouteDecision raw = .error e → e = .routeDecisionError

/-! ## The fields -/

namespace Json

theorem asStr_eq_some {x : Json} {s : String} : x.asStr = some s ↔ x = .str s := by
  cases x <;> simp [asStr]

theorem mapM_asStr_eq_some {items : List Json} :
    ∀ {values : List String}, items.mapM asStr = some values ↔ items = values.map .str := by
  induction items with
  | nil =>
      intro values
      cases values <;> simp
  | cons x items ih =>
      intro values
      cases values with
      | nil => simp [List.mapM_cons, Option.bind_eq_some_iff]
      | cons s values => simp [List.mapM_cons, Option.bind_eq_some_iff, asStr_eq_some, ih]

theorem asStrs_eq_some {x : Json} {values : List String} :
    x.asStrs = some values ↔ x = .arr (values.map .str) := by
  cases x <;> simp [asStrs, mapM_asStr_eq_some]

theorem asOptionalStr_eq_some {field : Option Json} {value : Option String} :
    (field.getD .null).asOptionalStr = some value ↔ StringField field value := by
  cases field with
  | none => simp [asOptionalStr, StringField, eq_comm]
  | some x => cases x <;> simp [asOptionalStr, StringField, eq_comm]

end Json

/-- An explicit null is the empty list. -/
def nullAsList : Json → Json
  | .null => .arr []
  | x => x

theorem asStrs_nullAsList {field : Option Json} {values : List String} :
    (nullAsList (field.getD .null)).asStrs = some values ↔ ListField field values := by
  rw [Json.asStrs_eq_some]
  cases field with
  | none => simp [nullAsList, ListField]
  | some x => cases x <;> simp [nullAsList, ListField]

/-! ## The schema -/

/-- What `model_validate` reads of a dict. -/
theorem modelValidate_eq_some {members : List (String × Json)}
    {decision : RouteDecision} :
    modelValidate members = some decision ↔
      (Json.lookup "intent" members).bind (fun x => x.asStr.bind Intent.ofString) =
          some decision.intent ∧
        (Json.lookup "normalized_prompt" members).bind Json.asStr =
          some decision.normalizedPrompt ∧
        ((Json.lookup "exact_text" members).getD (.arr [])).asStrs =
          some decision.exactText ∧
        ((Json.lookup "missing_fields" members).getD (.arr [])).asStrs =
          some decision.missingFields ∧
        ((Json.lookup "clarification_question" members).getD .null).asOptionalStr =
          some decision.clarificationQuestion ∧
        (Json.lookup "reason_code" members).bind
            (fun x => x.asStr.bind ReasonCode.ofString) = some decision.reasonCode ∧
        ∀ m ∈ members, m.1 ∈ routeDecisionFields := by
  unfold modelValidate
  constructor
  · intro h
    obtain ⟨intent, hIntent, h⟩ := Option.bind_eq_some_iff.mp h
    obtain ⟨normalizedPrompt, hPrompt, h⟩ := Option.bind_eq_some_iff.mp h
    obtain ⟨exactText, hText, h⟩ := Option.bind_eq_some_iff.mp h
    obtain ⟨missingFields, hMissing, h⟩ := Option.bind_eq_some_iff.mp h
    obtain ⟨question, hQuestion, h⟩ := Option.bind_eq_some_iff.mp h
    obtain ⟨reasonCode, hReason, h⟩ := Option.bind_eq_some_iff.mp h
    by_cases hKeys : members.all (fun m => m.1 ∈ routeDecisionFields) = true
    · rw [if_pos hKeys] at h
      cases h
      exact ⟨hIntent, hPrompt, hText, hMissing, hQuestion, hReason,
        by simpa using hKeys⟩
    · rw [if_neg hKeys] at h
      cases h
  · rintro ⟨hIntent, hPrompt, hText, hMissing, hQuestion, hReason, hKeys⟩
    have hAll : members.all (fun m => m.1 ∈ routeDecisionFields) = true := by
      simpa using hKeys
    simp only [hIntent, hPrompt, hText, hMissing, hQuestion, hReason, hAll, if_true,
      Option.bind_some, bind]

/-! ## The coercions -/

/-- The dict that is validated. -/
def coerced (members : List (String × Json)) : List (String × Json) :=
  let raw := nullableListFields.foldl fillListField members
  if ((Json.lookup "reason_code" raw).getD .null).isReasonCode then raw
  else Json.setMember "reason_code" (.str "ambiguous_visual_deliverable") raw

theorem lookup_fillListField_self (members : List (String × Json)) (field : String) :
    Json.lookup field (fillListField members field) =
      some (nullAsList ((Json.lookup field members).getD .null)) := by
  unfold fillListField
  cases hField : Json.lookup field members with
  | none => simp [Json.lookup_setMember, nullAsList]
  | some x => cases x <;> simp [Json.lookup_setMember, nullAsList, hField]

theorem lookup_fillListField_ne (members : List (String × Json)) {field key : String}
    (h : key ≠ field) :
    Json.lookup key (fillListField members field) = Json.lookup key members := by
  unfold fillListField
  split
  · rw [Json.lookup_setMember, if_neg h]
  · rfl

/-- Setting a known field brings in no unknown key. -/
theorem keys_setMember_iff {members : List (String × Json)} {field : String} {x : Json}
    (h : field ∈ routeDecisionFields) :
    (∀ m ∈ Json.setMember field x members, m.1 ∈ routeDecisionFields) ↔
      ∀ m ∈ members, m.1 ∈ routeDecisionFields := by
  have hKeys : ∀ ms : List (String × Json), (∀ m ∈ ms, m.1 ∈ routeDecisionFields) ↔
      ∀ k ∈ ms.map Prod.fst, k ∈ routeDecisionFields := by
    simp
  rw [hKeys, hKeys]
  constructor
  · exact fun hAll k hk => hAll k (Json.mem_keys_setMember.mpr (.inr hk))
  · intro hAll k hk
    rcases Json.mem_keys_setMember.mp hk with rfl | hk
    · exact h
    · exact hAll k hk

theorem keys_fillListField_iff (members : List (String × Json)) {field : String}
    (h : field ∈ routeDecisionFields) :
    (∀ m ∈ fillListField members field, m.1 ∈ routeDecisionFields) ↔
      ∀ m ∈ members, m.1 ∈ routeDecisionFields := by
  unfold fillListField
  split
  · exact keys_setMember_iff h
  · exact Iff.rfl

section Coerced

variable {members : List (String × Json)}

theorem keys_coerced_iff :
    (∀ m ∈ coerced members, m.1 ∈ routeDecisionFields) ↔
      ∀ m ∈ members, m.1 ∈ routeDecisionFields := by
  have hText : "exact_text" ∈ routeDecisionFields := by decide
  have hMissing : "missing_fields" ∈ routeDecisionFields := by decide
  have hFilled := (keys_fillListField_iff (fillListField members "exact_text")
    hMissing).trans (keys_fillListField_iff members hText)
  unfold coerced
  dsimp only
  split
  · exact hFilled
  · exact (keys_setMember_iff (by decide)).trans hFilled

/-- The fallback touches one field. -/
theorem lookup_coerced {key : String} (hReason : key ≠ "reason_code") :
    Json.lookup key (coerced members) =
      Json.lookup key (fillListField (fillListField members "exact_text")
        "missing_fields") := by
  unfold coerced
  dsimp only
  split
  · rfl
  · rw [Json.lookup_setMember, if_neg hReason]
    rfl

theorem lookup_coerced_ne {key : String} (hText : key ≠ "exact_text")
    (hMissing : key ≠ "missing_fields") (hReason : key ≠ "reason_code") :
    Json.lookup key (coerced members) = Json.lookup key members := by
  rw [lookup_coerced hReason, lookup_fillListField_ne _ hMissing,
    lookup_fillListField_ne _ hText]

theorem lookup_coerced_exactText :
    Json.lookup "exact_text" (coerced members) =
      some (nullAsList ((Json.lookup "exact_text" members).getD .null)) := by
  rw [lookup_coerced (by decide), lookup_fillListField_ne _ (by decide),
    lookup_fillListField_self]

theorem lookup_coerced_missingFields :
    Json.lookup "missing_fields" (coerced members) =
      some (nullAsList ((Json.lookup "missing_fields" members).getD .null)) := by
  rw [lookup_coerced (by decide), lookup_fillListField_self,
    lookup_fillListField_ne _ (by decide)]

/-- The reason code is looked up in the answer as it came. -/
theorem lookup_filled_reasonCode :
    Json.lookup "reason_code" (nullableListFields.foldl fillListField members) =
      Json.lookup "reason_code" members := by
  show Json.lookup "reason_code" (fillListField (fillListField members "exact_text")
    "missing_fields") = _
  rw [lookup_fillListField_ne _ (by decide), lookup_fillListField_ne _ (by decide)]

theorem reasonCode_coerced :
    (Json.lookup "reason_code" (coerced members)).bind
        (fun x => x.asStr.bind ReasonCode.ofString) =
      some (reasonCodeOf (Json.lookup "reason_code" members)) := by
  unfold coerced
  dsimp only
  rw [lookup_filled_reasonCode]
  cases hField : Json.lookup "reason_code" members with
  | none =>
      rw [if_neg (by decide), Json.lookup_setMember, if_pos rfl]
      rfl
  | some x =>
      by_cases hKnown : x.isReasonCode = true
      · have hSome := hKnown
        rw [Json.isReasonCode, Option.isSome_iff_exists] at hSome
        obtain ⟨code, hCode⟩ := hSome
        rw [Option.getD_some, if_pos hKnown, lookup_filled_reasonCode, hField]
        simp only [reasonCodeOf, Option.bind_some, hCode, Option.getD_some]
      · have hNone : x.asStr.bind ReasonCode.ofString = none := by
          simpa [Json.isReasonCode] using hKnown
        rw [Option.getD_some, if_neg hKnown, Json.lookup_setMember, if_pos rfl]
        simp only [reasonCodeOf, Option.bind_some, hNone, Option.getD_none]
        rfl

/-- After the coercions the schema takes what is meant. -/
theorem modelValidate_coerced {decision : RouteDecision} :
    modelValidate (coerced members) = some decision ↔ Accepts members decision := by
  rw [modelValidate_eq_some, keys_coerced_iff, reasonCode_coerced,
    lookup_coerced_exactText, lookup_coerced_missingFields, Option.getD_some,
    Option.getD_some, asStrs_nullAsList, asStrs_nullAsList,
    lookup_coerced_ne (by decide) (by decide) (by decide),
    lookup_coerced_ne (by decide) (by decide) (by decide),
    lookup_coerced_ne (by decide) (by decide) (by decide), Json.asOptionalStr_eq_some]
  constructor
  · rintro ⟨hIntent, hPrompt, hText, hMissing, hQuestion, hReason, hKeys⟩
    obtain ⟨x, hField, hIntent⟩ := Option.bind_eq_some_iff.mp hIntent
    obtain ⟨s, hStr, hIntent⟩ := Option.bind_eq_some_iff.mp hIntent
    obtain ⟨y, hPromptField, hPrompt⟩ := Option.bind_eq_some_iff.mp hPrompt
    exact
      { keys := hKeys
        intent := ⟨s, by rw [hField, Json.asStr_eq_some.mp hStr], hIntent⟩
        normalizedPrompt := by rw [hPromptField, Json.asStr_eq_some.mp hPrompt]
        exactText := hText
        missingFields := hMissing
        clarificationQuestion := hQuestion
        reasonCode := (Option.some.inj hReason).symm }
  · intro h
    obtain ⟨s, hField, hIntent⟩ := h.intent
    refine ⟨?_, ?_, h.exactText, h.missingFields, h.clarificationQuestion,
      congrArg some h.reasonCode.symm, h.keys⟩
    · rw [hField]
      exact hIntent
    · rw [h.normalizedPrompt]
      rfl

end Coerced

/-! ## The contract -/

/-- The reason code of an answer, absent or not, can be looked up in a set. -/
def HashableReasonCode (raw : Json) : Prop :=
  ∀ members, raw = .obj members →
    ((Json.lookup "reason_code" members).getD .null).hashable = true

theorem parseRouteDecision_of_unhashable {members : List (String × Json)}
    (h : ¬ ((Json.lookup "reason_code" members).getD .null).hashable = true) :
    parseRouteDecision (.obj members) = .error (.exception "TypeError") := by
  unfold parseRouteDecision
  dsimp only
  rw [lookup_filled_reasonCode, if_neg h]

theorem parseRouteDecision_of_hashable {members : List (String × Json)}
    (h : ((Json.lookup "reason_code" members).getD .null).hashable = true) :
    parseRouteDecision (.obj members) =
      ((modelValidate (coerced members)).map .ok).getD (.error .routeDecisionError) := by
  unfold parseRouteDecision coerced
  dsimp only
  rw [lookup_filled_reasonCode, if_pos h]
  split <;> simp [*]

/-- An answer that is no object is a `RouteDecisionError`. -/
theorem parseRouteDecision_of_not_obj {raw : Json}
    (h : ∀ members, raw ≠ .obj members) :
    parseRouteDecision raw = .error .routeDecisionError := by
  cases raw with
  | obj members => exact absurd rfl (h members)
  | _ => rfl

theorem route_decision_iff (raw : Json) : MeetsContract raw ↔ HashableReasonCode raw := by
  constructor
  · rintro ⟨-, hErrors⟩ members rfl
    by_contra hUnhashable
    have hRaises := parseRouteDecision_of_unhashable hUnhashable
    exact absurd (hErrors _ hRaises) (by decide)
  · intro hHashable
    by_cases hObj : ∃ members, raw = .obj members
    · obtain ⟨members, rfl⟩ := hObj
      have hParse := parseRouteDecision_of_hashable (hHashable members rfl)
      refine ⟨fun decision => ?_, fun e he => ?_⟩
      · simp only [Json.obj.injEq, exists_eq_left', ← modelValidate_coerced, hParse]
        cases modelValidate (coerced members) <;> simp
      · rw [hParse] at he
        cases hValid : modelValidate (coerced members) with
        | none =>
            rw [hValid] at he
            cases he
            rfl
        | some decision =>
            rw [hValid] at he
            cases he
    · have hNone : ∀ members, raw ≠ .obj members := fun members h => hObj ⟨members, h⟩
      have hParse := parseRouteDecision_of_not_obj hNone
      refine ⟨fun decision => ?_, fun e he => ?_⟩
      · rw [hParse]
        constructor
        · intro h
          cases h
        · rintro ⟨members, h, -⟩
          exact absurd h (hNone members)
      · rw [hParse] at he
        cases he
        rfl

/-- The reason code is in a list. -/
def listedReason : List (String × Json) :=
  [("intent", .str "CHAT"), ("normalized_prompt", .str "x"),
    ("reason_code", .arr [.str "question_or_discussion"])]

theorem not_route_decision :
    Accepts listedReason
      { intent := .chat, normalizedPrompt := "x", reasonCode := .ambiguousVisualDeliverable } ∧
    parseRouteDecision (.obj listedReason) = .error (.exception "TypeError") ∧
    ¬ MeetsContract (.obj listedReason) := by
  have hRaises : parseRouteDecision (.obj listedReason) =
      .error (.exception "TypeError") := by decide
  refine ⟨?_, hRaises, fun h => absurd (h.2 _ hRaises) (by decide)⟩
  rw [← modelValidate_coerced]
  decide

end Imagin4.Ports
