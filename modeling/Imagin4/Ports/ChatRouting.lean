import Imagin4.Ports.Dicts

/-!
# Routing a chat message

`app/domain/chat/routing.py` and `app/domain/chat/decision_service.py`: what the
router model may answer, how the answer is checked, and what follows from it.
The answer is an untrusted proposal; no field of it is used before
`parseRouteDecision` has accepted it.

## Main results

* `of_firstDecision` — a decision that is not a question is the router's own.
-/

namespace Imagin4.Ports

/-! ## The schema -/

/-- `Intent`. -/
inductive Intent where
  | chat
  | generalImage
  | poster
  | infographic
  | clarification
deriving DecidableEq

/-- The values of `Intent`. -/
def Intent.ofString : String → Option Intent
  | "CHAT" => some .chat
  | "GENERAL_IMAGE" => some .generalImage
  | "POSTER" => some .poster
  | "INFOGRAPHIC" => some .infographic
  | "CLARIFICATION" => some .clarification
  | _ => none

/-- `ReasonCode`. -/
inductive ReasonCode where
  | questionOrDiscussion
  | generalVisualRequest
  | structuredPromotionalLayout
  | structuredInformationDesign
  | ambiguousVisualDeliverable
  | explicitUserMode
deriving DecidableEq

/-- The values of `ReasonCode`. -/
def ReasonCode.ofString : String → Option ReasonCode
  | "question_or_discussion" => some .questionOrDiscussion
  | "general_visual_request" => some .generalVisualRequest
  | "structured_promotional_layout" => some .structuredPromotionalLayout
  | "structured_information_design" => some .structuredInformationDesign
  | "ambiguous_visual_deliverable" => some .ambiguousVisualDeliverable
  | "explicit_user_mode" => some .explicitUserMode
  | _ => none

/-- `derive_billing_category`. -/
def deriveBillingCategory : Intent → String
  | .poster => "paid"
  | .infographic => "paid"
  | _ => "local"

/-- `RouteDecision`. -/
structure RouteDecision where
  intent : Intent
  normalizedPrompt : String
  exactText : List String := []
  missingFields : List String := []
  clarificationQuestion : Option String := none
  reasonCode : ReasonCode
deriving DecidableEq

/-- What a call of the model raises: the two classes that the router tells apart,
the other subclasses of `Exception`, and what is no `Exception`, which no handler
here catches. -/
inductive ModelError where
  | routeDecisionError
  | runtimeError (text : String)
  | exception (name : PyError)
  | baseException (name : PyError)
deriving DecidableEq

/-! ## Reading an answer -/

namespace Json

/-- A `str`. -/
def asStr : Json → Option String
  | str s => some s
  | _ => none

/-- A `list[str]`. -/
def asStrs : Json → Option (List String)
  | arr items => items.mapM asStr
  | _ => none

/-- A `str | None`. -/
def asOptionalStr : Json → Option (Option String)
  | null => some none
  | str s => some (some s)
  | _ => none

/-- Is the value that of a reason code? -/
def isReasonCode (x : Json) : Bool :=
  (x.asStr.bind ReasonCode.ofString).isSome

end Json

/-- The fields of `RouteDecision`; it forbids all others. -/
def routeDecisionFields : List String :=
  ["intent", "normalized_prompt", "exact_text", "missing_fields",
    "clarification_question", "reason_code"]

/-- `_NULLABLE_LIST_FIELDS`. -/
def nullableListFields : List String := ["exact_text", "missing_fields"]

/-- `RouteDecision.model_validate`; `none` is its `ValidationError`. -/
def modelValidate (members : List (String × Json)) : Option RouteDecision := do
  let intent ← (Json.lookup "intent" members).bind
    (fun x => x.asStr.bind Intent.ofString)
  let normalizedPrompt ← (Json.lookup "normalized_prompt" members).bind Json.asStr
  let exactText ← ((Json.lookup "exact_text" members).getD (.arr [])).asStrs
  let missingFields ←
    ((Json.lookup "missing_fields" members).getD (.arr [])).asStrs
  let clarificationQuestion ←
    ((Json.lookup "clarification_question" members).getD .null).asOptionalStr
  let reasonCode ← (Json.lookup "reason_code" members).bind
    (fun x => x.asStr.bind ReasonCode.ofString)
  if members.all (fun m => m.1 ∈ routeDecisionFields) then
    some {
      intent := intent
      normalizedPrompt := normalizedPrompt
      exactText := exactText
      missingFields := missingFields
      clarificationQuestion := clarificationQuestion
      reasonCode := reasonCode }
  else none

/-- One round of the loop over `_NULLABLE_LIST_FIELDS`: an explicit null is an
absent key. -/
def fillListField (members : List (String × Json)) (field : String) :
    List (String × Json) :=
  match (Json.lookup field members).getD .null with
  | .null => Json.setMember field (.arr []) members
  | _ => members

/-- `parse_route_decision`.  Looking up an unhashable reason code raises. -/
def parseRouteDecision : Json → Except ModelError RouteDecision
  | .obj members =>
      let raw := nullableListFields.foldl fillListField members
      let reasonCode := (Json.lookup "reason_code" raw).getD .null
      if reasonCode.hashable then
        let raw := if reasonCode.isReasonCode then raw
          else Json.setMember "reason_code" (.str "ambiguous_visual_deliverable") raw
        match modelValidate raw with
        | some decision => .ok decision
        | none => .error .routeDecisionError
      else .error (.exception "TypeError")
  | _ => .error .routeDecisionError

/-- `ROUTER_SYSTEM_INSTRUCTION`. -/
def routerSystemInstruction : String :=
  "You are the intent router for a university image-generation chat " ++
    "assistant. Classify the user's latest message (using the conversation so " ++
    "far for context) into exactly one intent, and respond ONLY with JSON " ++
    "matching the required schema.\n\nRoutes:\n- CHAT: user asks a question, " ++
    "wants ideas/analysis/advice/copywriting only, discusses a design without " ++
    "asking to generate it, or mentions an image/poster/infographic without " ++
    "requesting execution. Never starts a generation job.\n- GENERAL_IMAGE: " ++
    "user explicitly requests a primarily visual image -- a photo, " ++
    "illustration, artwork, character, object, background, or concept art; a " ++
    "visual asset without structured information; a promotional-looking visual " ++
    "that does NOT require a readable information hierarchy.\n- POSTER: the " ++
    "requested result is a promotional/announcement layout with structured " ++
    "communication: headline, event title, date/time/location, organizer/logo, " ++
    "call to action, multiple typography levels, deliberate poster " ++
    "composition.\n- INFOGRAPHIC: the requested result explains structured " ++
    "information: steps/process, timeline, comparison, categories, statistics, " ++
    "educational sections, charts/diagrams/labeled components.\n- " ++
    "CLARIFICATION: use ONLY when choosing incorrectly would materially change " ++
    "the output or trigger a paid API (POSTER/INFOGRAPHIC are paid; " ++
    "GENERAL_IMAGE is local/free). Ask exactly one concise question. Do not " ++
    "ask about optional details that can safely default.\n\nField rules:\n- " ++
    "normalized_prompt: the visual direction, cleaned up, but preserving the " ++
    "user's actual intent and language (do not translate Thai to English or " ++
    "vice versa). Describe ONLY what the LATEST message itself asks for. " ++
    "Earlier turns are context for interpreting ambiguous references in the " ++
    "latest message (e.g. \"make it bigger\", \"same style as before\") -- " ++
    "they are NEVER material to combine, merge, or summarize into the same " ++
    "image. If this conversation contains several earlier, unrelated " ++
    "image/poster/infographic requests (common in a long testing session), do " ++
    "not fold their subjects into this one: a request for \"a red panda\" " ++
    "stays a request for exactly one red panda, never a collage/portfolio/grid " ++
    "that also includes a cat, coffee, or people from earlier unrelated turns. " ++
    "Only combine multiple subjects into one composition if the LATEST message " ++
    "explicitly asks for that (e.g. \"put the cat and the coffee cup in the " ++
    "same photo\").\n- exact_text: any literal text/copy that must appear " ++
    "verbatim in the generated image (headlines, dates, place names the user " ++
    "actually typed) -- preserve exact wording, especially Thai. Do not invent " ++
    "additional text.\n- missing_fields: critical factual values the user did " ++
    "not provide that a POSTER or INFOGRAPHIC cannot be correctly generated " ++
    "without (e.g. event date, location, specific statistics). Never invent " ++
    "dates, times, locations, prices, statistics, organization names, or URLs " ++
    "-- list them as missing instead.\n- clarification_question: required " ++
    "(non-null) only when intent is CLARIFICATION; null otherwise.\n- " ++
    "reason_code: pick the single best-matching enum value, not free " ++
    "text.\n\nDo not classify a GENERAL_IMAGE request as POSTER merely because " ++
    "it mentions marketing, an event, or an organization. Do not downgrade a " ++
    "POSTER/INFOGRAPHIC request to GENERAL_IMAGE to avoid cost. If the user " ++
    "has explicitly selected a mode elsewhere in the conversation, respect it " ++
    "(reason_code: explicit_user_mode) unless it is incompatible or unsafe.\n"

/-- `build_router_system_instruction_with_research`; only a string can be
appended. -/
def buildRouterSystemInstructionWithResearch : Json → Except ModelError String
  | .str researchFindings => .ok (routerSystemInstruction ++
      "\n\nVerified research findings (from a real Google Search call made for " ++
    "this conversation -- use ONLY these to fill in previously-missing fields " ++
    "if they directly answer them; if a finding says 'not found' or doesn't " ++
    "clearly answer a field, keep that field in missing_fields; never invent " ++
    "beyond what's written here):\n" ++ researchFindings)
  | _ => .error (.exception "TypeError")

/-! ## The next step -/

/-- `NextStep`. -/
inductive NextStep where
  | respondChat
  | respondClarification (question : String)
  | enqueueGeneralImage (prompt : String) (exactText : List String)
  | enqueuePaidImage (actionType prompt : String) (exactText : List String)
      (billingCategory : String)
deriving DecidableEq

/-- `_DEFAULT_CLARIFICATION_QUESTION`. -/
def defaultClarificationQuestion : String :=
  "ช่วยอธิบายเพิ่มเติมได้ไหมคะว่าต้องการอะไร?"

/-- `decide_next_step`. -/
def decideNextStep (decision : RouteDecision) : NextStep :=
  match decision.intent with
  | .chat => .respondChat
  | .clarification => .respondClarification
      (match decision.clarificationQuestion with
      | some question =>
          if question ≠ "" then question else defaultClarificationQuestion
      | none => defaultClarificationQuestion)
  | .generalImage =>
      .enqueueGeneralImage decision.normalizedPrompt decision.exactText
  | .poster => .enqueuePaidImage "poster" decision.normalizedPrompt
      decision.exactText (deriveBillingCategory decision.intent)
  | .infographic => .enqueuePaidImage "infographic" decision.normalizedPrompt
      decision.exactText (deriveBillingCategory decision.intent)

/-- `GEMINI_OVERLOAD_ERROR_CODES | QWEN_OVERLOAD_ERROR_CODES`. -/
def overloadReasons : List String :=
  ["gemini_overloaded", "gemini_rate_limited", "gemini_timeout",
    "qwen_overloaded", "qwen_rate_limited", "qwen_timeout"]

/-- `_OVERLOAD_CLARIFICATION_QUESTION`. -/
def overloadClarificationQuestion : String :=
  "ขอโทษค่ะ ตอนนี้ระบบ AI มีผู้ใช้งานหนาแน่นชั่วคราว กรุณาลองส่งข้อความเดิมอีกครั้งในอีกสักครู่นะคะ 🙏"

/-- `_GENERIC_CLARIFICATION_QUESTION`. -/
def genericClarificationQuestion : String :=
  "ขอโทษค่ะ ตอนนี้ระบบแยกแยะคำขอไม่ได้ ช่วยบอกอีกครั้งได้ไหมคะว่าต้องการแชทคุยเฉยๆ, " ++
    "สร้างภาพทั่วไป, ทำโปสเตอร์ หรือทำอินโฟกราฟิกคะ?"

/-- `_fallback_clarification`. -/
def fallbackClarification (reason : String) : RouteDecision where
  intent := .clarification
  normalizedPrompt := ""
  clarificationQuestion := some
    (if reason ∈ overloadReasons then overloadClarificationQuestion
    else genericClarificationQuestion)
  reasonCode := .ambiguousVisualDeliverable

/-- What the handlers around the first call of the router make of an answer that
raised. -/
def fallbackFor : ModelError → Except PyError RouteDecision
  | .routeDecisionError => .ok (fallbackClarification "invalid_schema")
  | .runtimeError text => .ok (fallbackClarification
      (if text ∈ overloadReasons then text else "llm_call_failed"))
  | .exception _ => .ok (fallbackClarification "llm_call_failed")
  | .baseException name => .error name

/-- The decision after the first call of the router. -/
def firstDecision (reply : Except ModelError Json) : Except PyError RouteDecision :=
  match reply.bind parseRouteDecision with
  | .ok decision => .ok decision
  | .error e => fallbackFor e

/-- A decision is the fallback's or the router's own. -/
theorem of_firstDecision {reply : Except ModelError Json} {decision : RouteDecision}
    (h : firstDecision reply = .ok decision) :
    decision.intent = .clarification ∨
      ∃ raw, reply = .ok raw ∧ parseRouteDecision raw = .ok decision := by
  unfold firstDecision at h
  cases hparse : reply.bind parseRouteDecision with
  | ok own =>
      rw [hparse] at h
      cases reply with
      | ok raw =>
          cases h
          exact .inr ⟨raw, rfl, hparse⟩
      | error e => cases hparse
  | error e =>
      rw [hparse] at h
      left
      cases e with
      | routeDecisionError => exact (Except.ok.inj h) ▸ rfl
      | runtimeError text => exact (Except.ok.inj h) ▸ rfl
      | exception name => exact (Except.ok.inj h) ▸ rfl
      | baseException name => cases h

/-- `_WORKFLOW_FOR_ACTION_TYPE`. -/
def workflowForActionType : String → Option String
  | "poster" => some "poster_infographic"
  | "infographic" => some "poster_infographic"
  | _ => none

/-- The workflow of the job that a message with this intent comes to. -/
def Intent.workflow : Intent → Option String
  | generalImage => some "image_basic"
  | poster => some "poster_infographic"
  | infographic => some "poster_infographic"
  | _ => none

/-- A null list and an unknown reason code pass; an unknown key does not. -/
example :
    let members : List (String × Json) := [("intent", .str "POSTER"),
      ("normalized_prompt", .str "p"), ("exact_text", .null)]
    (parseRouteDecision (.obj members)).toOption.map RouteDecision.intent =
        some .poster ∧
      parseRouteDecision (.obj (members ++ [("thoughts", .null)])) =
        .error .routeDecisionError := by
  decide

end Imagin4.Ports
