import Imagin4.Ports.Admission
import Imagin4.Ports.ChatRouting

/-!
# Answering a chat message

`process_routed_message` of `app/api/v1/chat_router.py`: the router model is asked
what a message wants, a poster that lacks facts is researched and asked about
once more, and the message is answered or admitted as a job.  The function is a
program over the calls it makes to the model, to the conversation and to the
queue; what any of them returns is up to whoever runs it.

## Main results

* `shows_admitGenerationJob` — an admission looks up one key and inserts at most
  one job, both of its own workflow.
* `shows_researchAugment` — research admits nothing and keeps the intent.
* `billed_path` — what is admitted for a message is fixed by the first answer of
  the router.
-/

namespace Imagin4.Ports

open Imagin4.Verified

/-! ## The calls -/

/-- `str(id)` of a `uuid.UUID`: 32 hexadecimal digits in five groups. -/
def uuidText (id : Uuid) : String :=
  let hex := (Nat.toDigits 16 id).leftpad 32 '0'
  String.ofList (hex.take 8 ++ '-' :: (hex.drop 8).take 4 ++
    '-' :: (hex.drop 12).take 4 ++ '-' :: (hex.drop 16).take 4 ++
    '-' :: hex.drop 20)

/-- A row of `chat_messages`, without the columns that no message here fills. -/
structure ChatMessage where
  id : Uuid
  conversationId : Uuid
  role : String
  sequenceNo : Nat
  clientMessageId : Option String
  content : Dict
  status : String
  createdAt : DateTime

/-- One turn of the history that the model is given. -/
structure Turn where
  role : String
  text : String
deriving DecidableEq

/-- How an endpoint fails: an `HTTPException`, with its `Retry-After`, or an
exception that nothing catches. -/
inductive RouterError where
  | http (status : Nat) (detail : String) (retryAfterS : Option Nat := none)
  | raised (e : PyError)
deriving DecidableEq

/-- The calls that answering a message makes.  The id of a new message is drawn
by the caller. -/
inductive RouterCall where
  | loadHistory (conversationId : Uuid)
  | routeIntent (history : List Turn) (extraSystemInstruction : Option String)
  | researchMissingFields (history : List Turn) (missingFields : List String)
  | complete (history : List Turn)
  | appendMessage (id conversationId : Uuid) (role : String) (content : Dict)
      (clientMessageId : Option String)
  | queue (c : AdmissionCall)

/-- What they return or raise. -/
@[reducible] def RouterCall.Answer : RouterCall → Type
  | loadHistory _ => List Turn
  | routeIntent _ _ => Except ModelError Json
  | researchMissingFields _ _ => Except ModelError Json
  | complete _ => Except ModelError String
  | appendMessage _ _ _ _ _ => Except RouterError ChatMessage
  | queue c => c.Answer

/-- `GenerationOut`. -/
structure GenerationOut where
  id : Uuid
  state : JobState
  kind : String
  errorCode : Option String := none
  errorDetail : Option String := none
  queuePosition : Option Nat := none
  estimatedWaitSeconds : Option Rat := none
  isPreview : Bool := false
deriving DecidableEq

/-- `MessageOut`. -/
structure MessageOut where
  id : Uuid
  role : String
  sequenceNo : Nat
  content : Dict
  status : String
  createdAt : DateTime

/-- `MessageOut.from_model`. -/
def MessageOut.fromModel (u : ChatMessage) : MessageOut where
  id := u.id
  role := u.role
  sequenceNo := u.sequenceNo
  content := u.content
  status := u.status
  createdAt := u.createdAt

/-- The `status` of a pending action. -/
inductive ActionStatus where
  | pending
  | confirmed
  | cancelled
  | expired
deriving DecidableEq

/-- `PendingActionOut`. -/
structure PendingActionOut where
  id : Uuid
  actionType : String
  billingCategory : String
  normalizedPrompt : String
  exactText : List String
  status : ActionStatus
  expiresAt : DateTime

/-- `SmartMessageOut`. -/
structure SmartMessageOut where
  type : String
  userMessage : MessageOut
  assistantMessage : Option MessageOut := none
  job : Option GenerationOut := none
  pendingAction : Option PendingActionOut := none

/-- How answering a message ends. -/
abbrev RouterOutcome := Except RouterError SmartMessageOut

/-- A program of such calls that ends as answering a message does. -/
abbrev RouterProgram := Program RouterCall RouterCall.Answer RouterOutcome

/-- The arguments of `process_routed_message`, with the ids of the job and of the
reply and the clock reading of the job it may come to. -/
structure RoutedMessage where
  conversationId : Uuid
  userId : Uuid
  userMsg : ChatMessage
  modelProfile : Option String := none
  modelOverrides : Option Dict := none
  skipPromptDesign : Bool := false
  assumeImage : Bool := false
  exactText : Option (List String) := none
  aspectRatio : Option String := none
  resolution : Option String := none
  jobId : Uuid
  replyId : Uuid
  now : DateTime

/-! ## Requests for a job -/

namespace Json

/-- A `list[str]`. -/
def strs (texts : List String) : Json := .arr (texts.map .str)

theorem isDict_strs (texts : List String) : (strs texts).IsDict := by
  refine .arr (fun x hx => ?_)
  obtain ⟨s, _, rfl⟩ := List.mem_map.mp hx
  exact .str s

/-- A `str | None`. -/
def optionalStr : Option String → Json
  | none => .null
  | some s => .str s

theorem isDict_optionalStr (s : Option String) : (optionalStr s).IsDict := by
  cases s with
  | none => exact .null
  | some s => exact .str s

/-- A `dict | None`. -/
def optionalDict : Option Dict → Json
  | none => .null
  | some d => d.json

theorem isDict_optionalDict (d : Option Dict) : (optionalDict d).IsDict := by
  cases d with
  | none => exact .null
  | some d => exact d.isDict

end Json

namespace RoutedMessage

/-- The `inputs` of an `image_basic` job. -/
def generalImageInputs (m : RoutedMessage) (prompt : String)
    (exactText : List String) : Dict :=
  let inputs := Dict.empty.set "prompt" (.str prompt) (.str prompt)
  let inputs := inputs.set "exact_text" (.strs exactText) (Json.isDict_strs exactText)
  let inputs := inputs.set "model_profile" (.optionalStr m.modelProfile)
    (Json.isDict_optionalStr m.modelProfile)
  let inputs := inputs.set "model_overrides" (.optionalDict m.modelOverrides)
    (Json.isDict_optionalDict m.modelOverrides)
  let inputs := inputs.set "skip_prompt_design" (.bool m.skipPromptDesign)
    (.bool m.skipPromptDesign)
  let inputs := inputs.set "aspect_ratio" (.optionalStr m.aspectRatio)
    (Json.isDict_optionalStr m.aspectRatio)
  inputs.set "resolution" (.optionalStr m.resolution)
    (Json.isDict_optionalStr m.resolution)

/-- The admission of an `image_basic` job. -/
def generalImageRequest (m : RoutedMessage) (prompt : String)
    (exactText : List String) : AdmissionRequest where
  id := m.jobId
  userId := m.userId
  workflowName := "image_basic"
  workflowVersion := "v1"
  inputs := m.generalImageInputs prompt exactText
  idempotencyKey := "router-general-image-" ++ uuidText m.userMsg.id
  conversationId := some m.conversationId
  now := m.now

/-- The `inputs` of a paid job. -/
def paidImageInputs (prompt : String) (exactText : List String)
    (actionType : String) : Dict :=
  let inputs := Dict.empty.set "prompt" (.str prompt) (.str prompt)
  let inputs := inputs.set "exact_text" (.strs exactText) (Json.isDict_strs exactText)
  inputs.set "action_type" (.str actionType) (.str actionType)

/-- The admission of a paid job. -/
def paidImageRequest (m : RoutedMessage) (workflowName actionType prompt : String)
    (exactText : List String) : AdmissionRequest where
  id := m.jobId
  userId := m.userId
  workflowName := workflowName
  workflowVersion := "v1"
  inputs := paidImageInputs prompt exactText actionType
  idempotencyKey := "router-paid-image-" ++ uuidText m.userMsg.id
  conversationId := some m.conversationId
  now := m.now

end RoutedMessage

/-! ## The function -/

/-- The answer for a job, or for an admission that failed.  The handlers name the
errors of admission; what the queue itself raises passes through them. -/
def imageResponse (userMsg : ChatMessage) : AdmissionOutcome → RouterOutcome
  | .ok result => .ok {
      type := "image_job"
      userMessage := .fromModel userMsg
      job := some {
        id := result.id
        state := result.state
        kind := result.kind
        queuePosition := result.queuePosition
        estimatedWaitSeconds := result.estimatedWaitSeconds } }
  | .error (.capacityExceeded reason retryAfterS) =>
      .error (.http 429 reason (some retryAfterS))
  | .error (.other e) => .error (.raised e)
  | .error _ => .error (.http 500 "failed to start image generation")

/-- `_research_augment`. -/
def researchAugment (history : List Turn) (decision : RouteDecision) :
    Program RouterCall RouterCall.Answer (Except PyError RouteDecision) :=
  if (decision.intent ≠ .poster ∧ decision.intent ≠ .infographic) ∨
      decision.missingFields = [] then .done (.ok decision)
  else
    .call (.researchMissingFields history decision.missingFields)
      (fun findings =>
        match findings.bind buildRouterSystemInstructionWithResearch with
        | .error (.baseException e) => .done (.error e)
        | .error _ => .done (.ok decision)
        | .ok instruction =>
            .call (.routeIntent history (some instruction)) (fun reply =>
              match reply.bind parseRouteDecision with
              | .error (.baseException e) => .done (.error e)
              | .error _ => .done (.ok decision)
              | .ok refined =>
                  if refined.intent ≠ decision.intent then .done (.ok decision)
                  else .done (.ok refined)))

section Router

variable (host : AdmissionHost) (settings : Settings) (m : RoutedMessage)

/-- An admission that makes its calls through the router's. -/
def throughRouter (p : AdmissionProgram) :
    Program RouterCall RouterCall.Answer AdmissionOutcome :=
  p.through RouterCall.queue (fun _ answer => answer)

/-- An admission, and the answer for it. -/
def admitImage (r : AdmissionRequest) : RouterProgram :=
  (throughRouter (admitGenerationJob host settings r)).bind
    (fun o => .done (imageResponse m.userMsg o))

/-- The answer with the assistant's message, once that is stored. -/
def chatResponse (assistantMsg : Except RouterError ChatMessage) :
    RouterOutcome :=
  match assistantMsg with
  | .ok message => .ok {
      type := "chat"
      userMessage := .fromModel m.userMsg
      assistantMessage := some (.fromModel message) }
  | .error e => .error e

/-- Stores what the assistant says, and answers with it. -/
def respond (text : String) : RouterProgram :=
  .call (.appendMessage m.replyId m.conversationId "assistant"
      (Dict.empty.set "text" (.str text) (.str text)) none)
    (fun assistantMsg => .done (chatResponse m assistantMsg))

/-- What is done about the next step. -/
def executeStep (history : List Turn) : NextStep → RouterProgram
  | .respondChat =>
      .call (.complete history) (fun reply =>
        match reply with
        | .ok text => respond m text
        | .error (.baseException e) => .done (.error (.raised e))
        | .error _ => .done (.error (.http 502 "chat completion failed")))
  | .respondClarification question => respond m question
  | .enqueueGeneralImage prompt exactText =>
      admitImage host settings m (m.generalImageRequest prompt exactText)
  | .enqueuePaidImage actionType prompt exactText _ =>
      match workflowForActionType actionType with
      | some workflowName => admitImage host settings m
          (m.paidImageRequest workflowName actionType prompt exactText)
      | none => .done (.error (.raised "KeyError"))

/-- What follows the research. -/
def afterResearch (history : List Turn) :
    Except PyError RouteDecision → RouterProgram
  | .ok decision => executeStep host settings m history (decideNextStep decision)
  | .error e => .done (.error (.raised e))

/-- What follows the first answer of the router. -/
def afterRouting (history : List Turn) (reply : Except ModelError Json) :
    RouterProgram :=
  match firstDecision reply with
  | .ok decision => (researchAugment history decision).bind
      (afterResearch host settings m history)
  | .error e => .done (.error (.raised e))

/-- `str(x)`. -/
def pyStr : Json → String
  | .str s => s
  | x => host.repr x

/-- The text of the user's message. -/
def userText : String :=
  pyStr host (m.userMsg.content.getD "text" (.str ""))

/-- `process_routed_message`. -/
def processRoutedMessage : RouterProgram :=
  if m.assumeImage then
    admitImage host settings m
      (m.generalImageRequest (userText host m) (m.exactText.getD []))
  else
    .call (.loadHistory m.conversationId) (fun history =>
      .call (.routeIntent history none) (afterRouting host settings m history))

end Router

/-! ## What is admitted -/

/-- What an admission does to the jobs of a kind. -/
inductive AdmissionEvent where
  | looksUp (kind : String)
  | inserts (kind : String)
deriving DecidableEq

/-- The lookup and the insertion; the counts do not matter here. -/
def AdmissionCall.event : AdmissionCall → Option AdmissionEvent
  | findByIdempotencyKey _ _ kind => some (.looksUp kind)
  | enqueue job => some (.inserts job.kind)
  | _ => none

/-- What a call of the router does to the jobs of a kind. -/
def RouterCall.event : RouterCall → Option AdmissionEvent
  | queue c => c.event
  | _ => none

/-- The events of one admission. -/
def admissionEvents (kind : String) : List AdmissionEvent :=
  [.looksUp kind, .inserts kind]

/-- The events of the admission that a message with this intent comes to. -/
def Intent.events (intent : Intent) : List AdmissionEvent :=
  (intent.workflow.map admissionEvents).getD []

section Shows

variable {host : AdmissionHost} {settings : Settings} {m : RoutedMessage}

open Program

theorem shows_createJob (r : AdmissionRequest) (v : Validated) :
    Shows AdmissionCall.event (fun _ => True) [.inserts r.workflowName]
      (createJob settings r v) := by
  refine .hidden rfl (fun position => .shown rfl (fun result => ?_))
  cases result with
  | ok _ => exact .done trivial
  | error _ => exact .done trivial

theorem shows_checkOwnBacklog (r : AdmissionRequest) (v : Validated) :
    Shows AdmissionCall.event (fun _ => True) [.inserts r.workflowName]
      (checkOwnBacklog settings r v) := by
  have hafter : ∀ whoHas backlog, Shows AdmissionCall.event (fun _ => True)
      [.inserts r.workflowName] (afterOwnCount settings whoHas r v backlog) := by
    intro whoHas backlog
    unfold afterOwnCount
    split
    · exact .done trivial
    · exact shows_createJob r v
  unfold checkOwnBacklog
  split
  · cases r.conversationId with
    | some c => exact .hidden rfl (hafter _)
    | none => exact .hidden rfl (hafter _)
  · exact shows_createJob r v

theorem shows_checkGlobalBacklog (r : AdmissionRequest) (v : Validated) :
    Shows AdmissionCall.event (fun _ => True) [.inserts r.workflowName]
      (checkGlobalBacklog settings r v) := by
  unfold checkGlobalBacklog
  split
  · refine .hidden rfl (fun backlog => ?_)
    unfold afterGlobalCount
    split
    · exact .done trivial
    · exact shows_checkOwnBacklog r v
  · exact shows_checkOwnBacklog r v

/-- An admission looks up one key and inserts at most one job, both of its own
workflow. -/
theorem shows_admitGenerationJob (r : AdmissionRequest) :
    Shows AdmissionCall.event (fun _ => True) (admissionEvents r.workflowName)
      (admitGenerationJob host settings r) := by
  unfold admitGenerationJob
  split
  · refine .shown rfl (fun existing => ?_)
    unfold afterLookup
    split
    · exact .done trivial
    · exact .done trivial
    · exact shows_checkGlobalBacklog r _
  · exact .done trivial

theorem shows_admitImage (r : AdmissionRequest) :
    Shows RouterCall.event (fun _ => True) (admissionEvents r.workflowName)
      (admitImage host settings m r) := by
  have hqueue : ∀ c, RouterCall.event (.queue c) = c.event := fun _ => rfl
  have hadmission : Shows RouterCall.event (fun _ => True)
      (admissionEvents r.workflowName)
      (throughRouter (admitGenerationJob host settings r)) :=
    Shows.through hqueue (shows_admitGenerationJob r)
  have hwhole : Shows RouterCall.event (fun _ => True)
      (admissionEvents r.workflowName ++ []) (admitImage host settings m r) :=
    hadmission.bind (fun _ _ => .done trivial)
  rwa [List.append_nil] at hwhole

/-- Research admits nothing and keeps the intent. -/
theorem shows_researchAugment (history : List Turn) (decision : RouteDecision) :
    Shows RouterCall.event
      (fun result => ∀ d, result = .ok d → d.intent = decision.intent) []
      (researchAugment history decision) := by
  have hkeep : ∀ d, (.ok decision : Except PyError RouteDecision) = .ok d →
      d.intent = decision.intent := by
    intro d h
    rw [Except.ok.inj h]
  unfold researchAugment
  split
  · exact .done hkeep
  · refine .hidden rfl (fun findings => ?_)
    split
    · exact .done (fun _ h => by cases h)
    · exact .done hkeep
    · refine .hidden rfl (fun reply => ?_)
      split
      · exact .done (fun _ h => by cases h)
      · exact .done hkeep
      · rename_i refined _
        by_cases hintent : refined.intent = decision.intent
        · rw [if_neg (not_not_intro hintent)]
          exact .done (fun d h => (Except.ok.inj h) ▸ hintent)
        · rw [if_pos hintent]
          exact .done hkeep

theorem shows_respond (text : String) :
    Shows RouterCall.event (fun _ => True) [] (respond m text) :=
  .hidden rfl (fun _ => .done trivial)

/-- What a decision admits is fixed by its intent. -/
theorem shows_executeStep (history : List Turn) (decision : RouteDecision) :
    Shows RouterCall.event (fun _ => True) decision.intent.events
      (executeStep host settings m history (decideNextStep decision)) := by
  unfold decideNextStep
  cases decision.intent with
  | chat =>
      refine .hidden rfl (fun reply => ?_)
      split
      · exact shows_respond _
      · exact .done trivial
      · exact .done trivial
  | clarification => exact shows_respond _
  | generalImage => exact shows_admitImage (m.generalImageRequest _ _)
  | poster => exact shows_admitImage (m.paidImageRequest _ "poster" _ _)
  | infographic => exact shows_admitImage (m.paidImageRequest _ "infographic" _ _)

theorem shows_afterRouting (history : List Turn) {reply : Except ModelError Json}
    {decision : RouteDecision} (h : firstDecision reply = .ok decision) :
    Shows RouterCall.event (fun _ => True) decision.intent.events
      (afterRouting host settings m history reply) := by
  unfold afterRouting
  rw [h]
  refine (shows_researchAugment history decision).bind (fun result hresult => ?_)
  cases result with
  | ok d =>
      rw [← hresult d rfl]
      exact shows_executeStep history d
  | error e => exact .done trivial

/-- The first answer of the router. -/
def firstReply : List (Sigma RouterCall.Answer) → Option (Except ModelError Json)
  | [] => none
  | ⟨.routeIntent _ _, reply⟩ :: _ => some reply
  | _ :: rest => firstReply rest

theorem events_processRoutedMessage {calls : List (Sigma RouterCall.Answer)}
    {p : RouterProgram}
    (h : Path (processRoutedMessage host settings { m with assumeImage := false })
      calls p) :
    visible RouterCall.event calls = [] ∨
      ∃ raw decision workflow, firstReply calls = some (.ok raw) ∧
        parseRouteDecision raw = .ok decision ∧
        decision.intent.workflow = some workflow ∧
        (visible RouterCall.event calls).Sublist (admissionEvents workflow) := by
  rcases path_call h with ⟨rfl, _⟩ | ⟨history, rest, rfl, hrest⟩
  · exact .inl rfl
  rcases path_call hrest with ⟨rfl, _⟩ | ⟨reply, rest, rfl, hafter⟩
  · exact .inl rfl
  cases hfirst : firstDecision reply with
  | error e =>
      unfold afterRouting at hafter
      rw [hfirst] at hafter
      rw [(path_done hafter).1]
      exact .inl rfl
  | ok decision =>
      have hsub : (visible RouterCall.event rest).Sublist decision.intent.events :=
        (shows_afterRouting history hfirst).path hafter
      rcases of_firstDecision hfirst with hclarify | ⟨raw, rfl, hparse⟩
      · rw [hclarify] at hsub
        exact .inl (List.sublist_nil.mp hsub)
      · cases hworkflow : decision.intent.workflow with
        | none =>
            rw [Intent.events, hworkflow] at hsub
            exact .inl (List.sublist_nil.mp hsub)
        | some workflow =>
            rw [Intent.events, hworkflow] at hsub
            exact .inr ⟨raw, decision, workflow, rfl, hparse, hworkflow, hsub⟩

end Shows

/-- The kind of a job that is looked up. -/
def AdmissionEvent.lookedUp : AdmissionEvent → Option String
  | looksUp kind => some kind
  | inserts _ => none

/-- The kind of a job that is inserted. -/
def AdmissionEvent.inserted : AdmissionEvent → Option String
  | looksUp _ => none
  | inserts kind => some kind

/-- The kinds of the admissions begun along the calls: each begins with its
lookup. -/
def begun (calls : List (Sigma RouterCall.Answer)) : List String :=
  (Program.visible RouterCall.event calls).filterMap AdmissionEvent.lookedUp

/-- The kinds of the jobs inserted along the calls, or tried to. -/
def inserted (calls : List (Sigma RouterCall.Answer)) : List String :=
  (Program.visible RouterCall.event calls).filterMap AdmissionEvent.inserted

/-- An admission for a job of this kind begins or inserts one. -/
def AdmitsKind (kind : String) (calls : List (Sigma RouterCall.Answer)) : Prop :=
  kind ∈ begun calls ∨ kind ∈ inserted calls

/-- The first answer of the router parses, to one of these intents. -/
def FirstIntent (intents : List Intent)
    (calls : List (Sigma RouterCall.Answer)) : Prop :=
  ∃ raw decision, firstReply calls = some (.ok raw) ∧
    parseRouteDecision raw = .ok decision ∧ decision.intent ∈ intents

/-- At most one job is admitted; which kind of job, and whether any, is fixed by
the first answer of the router. -/
structure BilledByFirstReply (calls : List (Sigma RouterCall.Answer)) : Prop where
  once : (begun calls).length ≤ 1 ∧ (inserted calls).length ≤ 1
  paid : AdmitsKind "poster_infographic" calls →
    FirstIntent [.poster, .infographic] calls
  free : AdmitsKind "image_basic" calls → FirstIntent [.generalImage] calls
  noJob : ¬ FirstIntent [.generalImage, .poster, .infographic] calls →
    ∀ kind, ¬ AdmitsKind kind calls

/-- **Billing.**  Whatever the model answers or raises on any of its calls. -/
theorem billed_path (host : AdmissionHost) (settings : Settings)
    (m : RoutedMessage) (calls : List (Sigma RouterCall.Answer))
    (p : RouterProgram)
    (h : Program.Path
      (processRoutedMessage host settings { m with assumeImage := false }) calls p) :
    BilledByFirstReply calls := by
  rcases events_processRoutedMessage h with hnone |
    ⟨raw, decision, workflow, hreply, hparse, hworkflow, hsub⟩
  · have hbegun : begun calls = [] := by rw [begun, hnone]; rfl
    have hinserted : inserted calls = [] := by rw [inserted, hnone]; rfl
    have hadmits : ∀ kind, ¬ AdmitsKind kind calls := by
      intro kind
      simp [AdmitsKind, hbegun, hinserted]
    exact ⟨by simp [hbegun, hinserted], fun h => absurd h (hadmits _),
      fun h => absurd h (hadmits _), fun _ => hadmits⟩
  · have hbegun : (begun calls).Sublist [workflow] := hsub.filterMap _
    have hinserted : (inserted calls).Sublist [workflow] := hsub.filterMap _
    have hkind : ∀ kind, AdmitsKind kind calls → kind = workflow := by
      rintro kind (hk | hk)
      · exact List.mem_singleton.mp (hbegun.subset hk)
      · exact List.mem_singleton.mp (hinserted.subset hk)
    have hintent : ∀ intents, decision.intent ∈ intents →
        FirstIntent intents calls :=
      fun intents hmem => ⟨raw, decision, hreply, hparse, hmem⟩
    refine ⟨⟨hbegun.length_le, hinserted.length_le⟩, fun hpaid => ?_,
      fun hfree => ?_, fun hnone => ?_⟩
    · rw [← hkind _ hpaid] at hworkflow
      apply hintent
      revert hworkflow
      cases decision.intent <;> simp [Intent.workflow]
    · rw [← hkind _ hfree] at hworkflow
      apply hintent
      revert hworkflow
      cases decision.intent <;> simp [Intent.workflow]
    · refine absurd (hintent _ ?_) hnone
      revert hworkflow
      cases decision.intent <;> simp [Intent.workflow]

/-- A message of an example. -/
def catMessage : RoutedMessage where
  conversationId := 3
  userId := 7
  userMsg := {
    id := 5
    conversationId := 3
    role := "user"
    sequenceNo := 1
    clientMessageId := some "m1"
    content := Dict.empty.set "text" (.str "cat") (.str "cat")
    status := "complete"
    createdAt := 0 }
  jobId := 1
  replyId := 2
  now := 0

/-- An answer of the router for it. -/
def catReply (intent : String) : Json :=
  .obj [("intent", .str intent), ("normalized_prompt", .str "cat"),
    ("missing_fields", .arr [.str "date"])]

/-- The answers of an example: a poster, then research, then the same poster. -/
def catAnswer : (q : RouterCall) → q.Answer
  | .loadHistory _ => []
  | .routeIntent _ _ => .ok (catReply "POSTER")
  | .researchMissingFields _ _ => .ok (.str "date: today")
  | .complete _ => .ok ""
  | .appendMessage _ _ _ _ _ => .ok catMessage.userMsg
  | .queue (.findByIdempotencyKey _ _ _) => none
  | .queue (.enqueue _) => .ok ()
  | .queue .countGlobalBacklog => (0 : Nat)
  | .queue (.countConversationBacklog _) => (0 : Nat)
  | .queue (.countUserBacklog _) => (0 : Nat)
  | .queue (.countBacklogForKinds _) => (0 : Nat)

theorem billed_path_poster : ∃ calls p,
    Program.Path (processRoutedMessage plainHost {}
      { catMessage with assumeImage := false }) calls p ∧
      inserted calls = ["poster_infographic"] ∧ BilledByFirstReply calls := by
  have hpath := Program.path_follow catAnswer 9 (processRoutedMessage plainHost {}
    { catMessage with assumeImage := false })
  exact ⟨_, _, hpath, by decide, billed_path plainHost {} catMessage _ _ hpath⟩

end Imagin4.Ports
