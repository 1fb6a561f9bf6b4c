import Imagin4.Ports.AdmissionQueues
import Imagin4.Ports.ChatRouter

/-!
# Sending a chat message again

`_append_message` of `app/api/v1/conversations.py` and `smart_message` of
`app/api/v1/chat_router.py`, on a conversation that the user owns.  A client that
got no answer sends its message again, one attempt after another, under the same
`client_message_id`; each attempt asks the router model afresh, which may answer
something else.

## Main results

* `leads_processRoutedMessage` — answering a message leads to no job, or to the
  lookup of one under a key of the message.
* `sentOnce_run` — one job, and every later attempt that routes to an image
  returns it, in the runs in which the attempts route to that job.
-/

namespace Imagin4.Ports

open Imagin4.Verified

/-! ## The conversation -/

/-- What the model answers, until it changes its mind. -/
structure ModelReplies where
  route : Except ModelError Json
  research : Except ModelError Json
  completion : Except ModelError String

/-- What the endpoints share. -/
structure ChatWorld (σ : Type) where
  messages : List ChatMessage
  queue : σ
  model : ModelReplies
  now : DateTime

/-- The row that has this `client_message_id`. -/
def messageOf (conversationId : Uuid) (clientMessageId : String)
    (messages : List ChatMessage) : Option ChatMessage :=
  messages.find? (fun u => u.conversationId = conversationId &&
    u.clientMessageId = some clientMessageId)

/-- A new message. -/
structure NewMessage where
  id : Uuid
  conversationId : Uuid
  role : String
  content : Dict
  clientMessageId : Option String
  createdAt : DateTime

/-- The row of a new message.  The lock on the conversation is held while
`sequence_no` is drawn and used. -/
def NewMessage.row (new : NewMessage) (content : Dict)
    (messages : List ChatMessage) : ChatMessage where
  id := new.id
  conversationId := new.conversationId
  role := new.role
  sequenceNo := ((messages.filter (fun u =>
    u.conversationId = new.conversationId)).map ChatMessage.sequenceNo).foldr
      max 0 + 1
  clientMessageId := new.clientMessageId
  content := content
  status := "complete"
  createdAt := new.createdAt

/-- A row violates a unique index: the primary key, `uq_chat_messages_conv_seq`
or `uq_chat_messages_conv_client_id`. -/
def ChatMessage.conflicts (u v : ChatMessage) : Bool :=
  u.id = v.id ||
    (u.conversationId = v.conversationId && u.sequenceNo = v.sequenceNo) ||
    (u.conversationId = v.conversationId && u.clientMessageId.isSome &&
      u.clientMessageId = v.clientMessageId)

/-- The look for the message that is replayed; an empty id is none. -/
def replayed (new : NewMessage) (messages : List ChatMessage) :
    Option ChatMessage :=
  match new.clientMessageId with
  | none => none
  | some clientMessageId =>
      if clientMessageId = "" then none
      else messageOf new.conversationId clientMessageId messages

/-- The insertion.  The handler of its `IntegrityError` looks once more for the
message. -/
def insertMessage (store : Dict → Option Dict) (new : NewMessage)
    (messages : List ChatMessage) :
    Except RouterError ChatMessage × List ChatMessage :=
  match store new.content with
  | none => (.error (.raised "DBAPIError"), messages)
  | some content =>
      if messages.any (new.row content messages).conflicts then
        match replayed new messages with
        | some existing => (.ok existing, messages)
        | none => (.error (.http 409 "message conflict"), messages)
      else (.ok (new.row content messages),
        messages ++ [new.row content messages])

/-- `_append_message`. -/
def appendMessage (store : Dict → Option Dict) (new : NewMessage)
    (messages : List ChatMessage) :
    Except RouterError ChatMessage × List ChatMessage :=
  match replayed new messages with
  | some existing => (.ok existing, messages)
  | none => insertMessage store new messages

/-- `_load_history`. -/
def loadHistory (host : AdmissionHost) (conversationId : Uuid)
    (messages : List ChatMessage) : List Turn :=
  let rows := (messages.filter (fun u =>
    u.conversationId = conversationId)).insertionSort
      (fun u v => u.sequenceNo ≤ v.sequenceNo)
  (rows.filter (fun u => u.role = "user" || u.role = "assistant")).map
    (fun u => ⟨u.role, pyStr host (u.content.getD "text" (.str ""))⟩)

section World

variable {σ : Type} [JobQueue σ] (Q : AdmissionQueue σ) (host : AdmissionHost)
  (store : Dict → Option Dict)

/-- How a call is answered.  `store` is what the `JSONB` column makes of a
message's content. -/
def routerAnswer : (c : RouterCall) → ChatWorld σ → c.Answer × ChatWorld σ
  | .loadHistory conversationId, w =>
      (loadHistory host conversationId w.messages, w)
  | .routeIntent _ _, w => (w.model.route, w)
  | .researchMissingFields _ _, w => (w.model.research, w)
  | .complete _, w => (w.model.completion, w)
  | .appendMessage id conversationId role content clientMessageId, w =>
      let appended := appendMessage store
        ⟨id, conversationId, role, content, clientMessageId, w.now⟩ w.messages
      (appended.1, { w with messages := appended.2 })
  | .queue c, w => ((Q.answer c w.queue).1,
      { w with queue := (Q.answer c w.queue).2 })

/-- What happens besides: the model changes what it answers, time passes, another
message is appended, the queue is worked on, another job is admitted. -/
inductive ChatEvent where
  | model (replies : ModelReplies)
  | clock (now : DateTime)
  | message (new : NewMessage)
  | work (w : QueueWork)
  | admission (job : QueuedJob)

/-- The world after an event. -/
def chatEvent : ChatEvent → ChatWorld σ → ChatWorld σ
  | .model replies, w => { w with model := replies }
  | .clock now, w => { w with now := now }
  | .message new, w =>
      { w with messages := (appendMessage store new w.messages).2 }
  | .work q, w => { w with queue := q.apply w.queue }
  | .admission job, w => { w with queue := (Q.answer (.enqueue job) w.queue).2 }

end World

/-! ## The endpoint -/

/-- A `smart-message` request, with the ids that serving it draws. -/
structure SmartMessage where
  conversationId : Uuid
  userId : Uuid
  text : String
  clientMessageId : Option String
  messageId : Uuid
  jobId : Uuid
  replyId : Uuid
  now : DateTime

/-- What `process_routed_message` is called with. -/
def SmartMessage.routed (t : SmartMessage) (userMsg : ChatMessage) :
    RoutedMessage where
  conversationId := t.conversationId
  userId := t.userId
  userMsg := userMsg
  jobId := t.jobId
  replyId := t.replyId
  now := t.now

section Endpoint

variable (host : AdmissionHost) (settings : Settings)

/-- What follows the message. -/
def afterMessage (t : SmartMessage) :
    Except RouterError ChatMessage → RouterProgram
  | .ok userMsg => processRoutedMessage host settings (t.routed userMsg)
  | .error e => .done (.error e)

/-- `smart_message`. -/
def smartMessage (t : SmartMessage) : RouterProgram :=
  .call (.appendMessage t.messageId t.conversationId "user"
      (Dict.empty.set "text" (.str t.text) (.str t.text)) t.clientMessageId)
    (afterMessage host settings t)

end Endpoint

/-- The attempts at sending a message. -/
abbrev SendAttempts (σ : Type) := Clients (ChatWorld σ) SmartMessage RouterCall
  RouterCall.Answer RouterOutcome

/-- What happens: an attempt starts or makes its next call, or the world
changes. -/
abbrev SendAction := ClientAction SmartMessage ChatEvent

/-- Any number of attempts. -/
abbrev sendAttempts {σ : Type} [JobQueue σ] (Q : AdmissionQueue σ)
    (host : AdmissionHost) (settings : Settings) (store : Dict → Option Dict) :
    Machine (SendAttempts σ) SendAction :=
  clientMachine (smartMessage host settings) (routerAnswer Q host store)
    (chatEvent Q store)

/-! ## Where an attempt can be -/

/-- The keys of the jobs that a message can come to. -/
def messageKeys (userId messageId : Uuid) : List (Uuid × String × String) :=
  [(userId, "router-general-image-" ++ uuidText messageId, "image_basic"),
    (userId, "router-paid-image-" ++ uuidText messageId, "poster_infographic")]

/-- Calls that change neither the queue nor which message is replayed. -/
def RouterCall.quiet : RouterCall → Prop
  | appendMessage _ _ _ _ clientMessageId => clientMessageId = none
  | queue _ => False
  | _ => True

section Attempts

variable (host : AdmissionHost) (settings : Settings)

/-- An admission under way for a message, and the answer for it. -/
def admitting (u : ChatMessage) (p : AdmissionProgram) : RouterProgram :=
  (throughRouter p).bind (fun o => .done (imageResponse u o))

/-- The attempt routes to an image: it is about to look up the job of this
request. -/
def RoutesTo (userId : Uuid) (u : ChatMessage) (r : AdmissionRequest)
    (v : Validated) (p : RouterProgram) : Prop :=
  r.idemKey ∈ messageKeys userId u.id ∧ validateRequest host settings r = .ok v ∧
    p = admitting u (admitValidated host settings r v)

/-- What answering a message leads to. -/
def RoutedOrDone (userId : Uuid) (u : ChatMessage) (p : RouterProgram) : Prop :=
  (∃ o, p = .done o) ∨ ∃ r v, RoutesTo host settings userId u r v p

variable {host settings}

theorem resolveProfileKey_null :
    resolveProfileKey host .null (profileKeys settings) =
      .ok defaultProfileKey := by
  have hmem : defaultProfileKey ∈ profileKeys settings := by
    unfold profileKeys
    split <;> simp
  have hdefault : orDefault (strip "") defaultProfileKey = defaultProfileKey := by
    decide
  simp only [resolveProfileKey, Json.orElse, Json.truthy, Bool.false_eq_true,
    if_false, hdefault, if_pos hmem]

/-- Inputs that name no profile and no overrides pass. -/
theorem normaliseInputs_plain {inputs : Dict}
    (hprofile : inputs.get "model_profile" = .null)
    (hoverrides : inputs.get "model_overrides" = .null) :
    ∃ d, normaliseInputs host settings inputs false = .ok d := by
  have hvalidated : validateOverrides host (buildAllowlists settings)
      ⟨inputs.get "model_overrides", inputs.isDict_get "model_overrides"⟩ =
        .ok .empty := by
    have hnull : (⟨inputs.get "model_overrides", inputs.isDict_get _⟩ :
        { x : Json // x.IsDict }) = ⟨.null, .null⟩ := Subtype.ext hoverrides
    rw [hnull]
    rfl
  unfold normaliseInputs
  rw [hvalidated, hprofile, resolveProfileKey_null]
  exact ⟨_, rfl⟩

theorem validate_generalImageRequest (m : RoutedMessage)
    (hprofile : m.modelProfile = none) (hoverrides : m.modelOverrides = none)
    (prompt : String) (exactText : List String) :
    ∃ v, validateRequest host settings (m.generalImageRequest prompt exactText) =
      .ok v := by
  have hprofile' : (m.generalImageInputs prompt exactText).get "model_profile" =
      .optionalStr m.modelProfile := rfl
  have hoverrides' : (m.generalImageInputs prompt exactText).get
      "model_overrides" = .optionalDict m.modelOverrides := rfl
  rw [hprofile] at hprofile'
  rw [hoverrides] at hoverrides'
  have hinputs : ∃ d, normaliseInputs host settings
      (m.generalImageInputs prompt exactText) false = .ok d :=
    normaliseInputs_plain hprofile' hoverrides'
  obtain ⟨d, hd⟩ := hinputs
  have hpreview : ((m.generalImageInputs prompt exactText).get
      "preview").truthy = false := rfl
  have hworkflow : resolveWorkflow "image_basic" "v1" =
      some { name := "image_basic", version := "v1", modelFamily := "sdxl" } := rfl
  unfold validateRequest
  simp only [RoutedMessage.generalImageRequest, hworkflow, hpreview, hd]
  exact ⟨_, rfl⟩

theorem validate_paidImageRequest (m : RoutedMessage) (actionType prompt : String)
    (exactText : List String) :
    ∃ v, validateRequest host settings
      (m.paidImageRequest "poster_infographic" actionType prompt exactText) =
        .ok v :=
  ⟨_, rfl⟩

/-- An admission whose request is valid is about to look its job up. -/
theorem admitImage_eq {m : RoutedMessage} {r : AdmissionRequest} {v : Validated}
    (hv : validateRequest host settings r = .ok v) :
    admitImage host settings m r =
      admitting m.userMsg (admitValidated host settings r v) := by
  unfold admitImage admitGenerationJob admitting
  rw [hv]

/-! ### Answering a message -/

open Program

theorem leads_researchAugment (history : List Turn) (decision : RouteDecision) :
    Leads RouterCall.quiet (fun p => ∃ a, p = .done a ∧ True)
      (researchAugment history decision) := by
  have hdone : ∀ a, Leads RouterCall.quiet (fun p => ∃ a, p = .done a ∧ True)
      (.done a : Program RouterCall RouterCall.Answer
        (Except PyError RouteDecision)) := fun a => .leaf ⟨a, rfl, trivial⟩
  unfold researchAugment
  split
  · exact hdone _
  · refine .call trivial (fun findings => ?_)
    split
    · exact hdone _
    · exact hdone _
    · refine .call trivial (fun reply => ?_)
      split
      · exact hdone _
      · exact hdone _
      · split
        · exact hdone _
        · exact hdone _

theorem leads_respond (m : RoutedMessage) (text : String) :
    Leads RouterCall.quiet (RoutedOrDone host settings m.userId m.userMsg)
      (respond m text) :=
  .call rfl (fun _ => .leaf (.inl ⟨_, rfl⟩))

theorem leads_admitImage {m : RoutedMessage} {r : AdmissionRequest}
    (hkey : r.idemKey ∈ messageKeys m.userId m.userMsg.id)
    (hvalid : ∃ v, validateRequest host settings r = .ok v) :
    Leads RouterCall.quiet (RoutedOrDone host settings m.userId m.userMsg)
      (admitImage host settings m r) := by
  obtain ⟨v, hv⟩ := hvalid
  exact .leaf (.inr ⟨r, v, hkey, hv, admitImage_eq hv⟩)

theorem leads_executeStep {m : RoutedMessage} (hprofile : m.modelProfile = none)
    (hoverrides : m.modelOverrides = none) (history : List Turn)
    (decision : RouteDecision) :
    Leads RouterCall.quiet (RoutedOrDone host settings m.userId m.userMsg)
      (executeStep host settings m history (decideNextStep decision)) := by
  have hpaid : ∀ actionType, Leads RouterCall.quiet
      (RoutedOrDone host settings m.userId m.userMsg)
      (admitImage host settings m (m.paidImageRequest "poster_infographic"
        actionType decision.normalizedPrompt decision.exactText)) := by
    intro actionType
    have hkey : (m.paidImageRequest "poster_infographic" actionType
        decision.normalizedPrompt decision.exactText).idemKey ∈
          messageKeys m.userId m.userMsg.id :=
      List.mem_cons_of_mem _ List.mem_cons_self
    exact leads_admitImage hkey (validate_paidImageRequest m actionType _ _)
  unfold decideNextStep
  cases decision.intent with
  | chat =>
      refine .call trivial (fun reply => ?_)
      split
      · exact leads_respond m _
      · exact .leaf (.inl ⟨_, rfl⟩)
      · exact .leaf (.inl ⟨_, rfl⟩)
  | clarification => exact leads_respond m _
  | generalImage =>
      have hkey : (m.generalImageRequest decision.normalizedPrompt
          decision.exactText).idemKey ∈ messageKeys m.userId m.userMsg.id :=
        List.mem_cons_self
      exact leads_admitImage hkey
        (validate_generalImageRequest m hprofile hoverrides _ _)
  | poster => exact hpaid "poster"
  | infographic => exact hpaid "infographic"

/-- Answering a message leads to no job, or to the lookup of one under a key of
the message. -/
theorem leads_processRoutedMessage (t : SmartMessage) (u : ChatMessage) :
    Leads RouterCall.quiet (RoutedOrDone host settings t.userId u)
      (processRoutedMessage host settings (t.routed u)) := by
  refine .call trivial (fun history => .call trivial (fun reply => ?_))
  unfold afterRouting
  cases firstDecision reply with
  | error e => exact .leaf (.inl ⟨_, rfl⟩)
  | ok decision =>
      refine (leads_researchAugment history decision).bind (fun result _ => ?_)
      cases result with
      | error e => exact .leaf (.inl ⟨_, rfl⟩)
      | ok d => exact leads_executeStep (m := t.routed u) rfl rfl history d

/-! ### The message -/

/-- A message is appended, or the messages stay as they are and the one returned,
if any, is the one that is replayed. -/
theorem appendMessage_cases (store : Dict → Option Dict) (new : NewMessage)
    (messages : List ChatMessage) :
    ((appendMessage store new messages).2 = messages ∧
      ∀ u, (appendMessage store new messages).1 = .ok u →
        replayed new messages = some u) ∨
    ∃ content,
      appendMessage store new messages = (.ok (new.row content messages),
        messages ++ [new.row content messages]) ∧
      ∀ u ∈ messages, (new.row content messages).conflicts u = false := by
  unfold appendMessage
  cases hreplayed : replayed new messages with
  | some existing => exact .inl ⟨rfl, fun u h => congrArg some (Except.ok.inj h)⟩
  | none =>
      unfold insertMessage
      cases store new.content with
      | none => exact .inl ⟨rfl, fun u h => by cases h⟩
      | some content =>
          dsimp only
          split
          · rw [hreplayed]
            exact .inl ⟨rfl, fun u h => by cases h⟩
          · rename_i hfree
            refine .inr ⟨content, rfl, fun u hu => ?_⟩
            simpa using List.any_eq_false.mp (Bool.eq_false_iff.mpr hfree) u hu

variable {conversationId : Uuid} {clientMessageId : String}
  {store : Dict → Option Dict} {new : NewMessage} {messages : List ChatMessage}
  {u : ChatMessage}

/-- A message stays the one that is replayed. -/
theorem messageOf_appendMessage (store : Dict → Option Dict) (new : NewMessage)
    (h : messageOf conversationId clientMessageId messages = some u) :
    messageOf conversationId clientMessageId
      (appendMessage store new messages).2 = some u := by
  rcases appendMessage_cases store new messages with
    ⟨hsame, _⟩ | ⟨content, happend, _⟩
  · rw [hsame]
    exact h
  · rw [happend]
    unfold messageOf at h ⊢
    rw [List.find?_append, h]
    rfl

/-- The message that an attempt goes on with is the one that is replayed. -/
theorem messageOf_of_ok (hconversation : new.conversationId = conversationId)
    (hclient : new.clientMessageId = some clientMessageId)
    (hok : (appendMessage store new messages).1 = .ok u) :
    messageOf conversationId clientMessageId
      (appendMessage store new messages).2 = some u := by
  rcases appendMessage_cases store new messages with
    ⟨hsame, hreplayed⟩ | ⟨content, happend, hfree⟩
  · have hfound := hreplayed u hok
    rw [hsame]
    unfold replayed at hfound
    rw [hclient, hconversation] at hfound
    dsimp only at hfound
    split at hfound
    · cases hfound
    · exact hfound
  · rw [happend] at hok ⊢
    cases hok
    have hnone : messageOf conversationId clientMessageId messages = none := by
      refine List.find?_eq_none.mpr (fun v hv hmatch => ?_)
      have hno := hfree v hv
      simp only [Bool.and_eq_true, decide_eq_true_eq] at hmatch
      simp [ChatMessage.conflicts, NewMessage.row, hconversation, hclient,
        hmatch] at hno
    unfold messageOf at hnone ⊢
    rw [List.find?_append, hnone]
    simp [NewMessage.row, hconversation, hclient]

/-- A message that was not there before has the new id. -/
theorem id_of_messageOf
    (hnone : messageOf conversationId clientMessageId messages = none)
    (h : messageOf conversationId clientMessageId
      (appendMessage store new messages).2 = some u) : u.id = new.id := by
  rcases appendMessage_cases store new messages with
    ⟨hsame, _⟩ | ⟨content, happend, _⟩
  · rw [hsame, hnone] at h
    cases h
  · rw [happend] at h
    unfold messageOf at h hnone
    rw [List.find?_append, hnone, Option.none_or] at h
    rw [List.mem_singleton.mp (List.mem_of_find?_eq_some h)]
    rfl

end Attempts

section Sequential

variable {σ : Type} [JobQueue σ] (Q : AdmissionQueue σ) (host : AdmissionHost)
  (settings : Settings) (conversationId userId : Uuid) (clientMessageId : String)

/-- The jobs of a message. -/
def jobsOf (userId : Uuid) (u : ChatMessage) (w : ChatWorld σ) :
    List JobIdentity :=
  (Q.identities w.queue).filter (fun g => g.key ∈ messageKeys userId u.id)

/-- The message that the attempts send. -/
def messageSent (w : ChatWorld σ) : Option ChatMessage :=
  messageOf conversationId clientMessageId w.messages

/-- Where an attempt is. -/
inductive AttemptAt (w : ChatWorld σ)
    (x : Client SmartMessage RouterCall RouterCall.Answer RouterOutcome) :
    Prop where
  | start : x.task.conversationId = conversationId → x.task.userId = userId →
      x.task.clientMessageId = some clientMessageId →
      x.program = smartMessage host settings x.task → AttemptAt w x
  | routing (u : ChatMessage) :
      messageSent conversationId clientMessageId w = some u →
      Program.Leads RouterCall.quiet (RoutedOrDone host settings userId u)
        x.program → AttemptAt w x
  | admitting (u : ChatMessage) (r : AdmissionRequest) (p : AdmissionProgram) :
      messageSent conversationId clientMessageId w = some u →
      r.idemKey ∈ messageKeys userId u.id → jobsOf Q userId u w = [] →
      AdmissionStage host settings r (fun _ => True) True True p →
      x.program = admitting u p → AttemptAt w x
  | ended : x.program.Ended → AttemptAt w x

/-- There is at most one job of the message. -/
def OneJobSent (w : ChatWorld σ) : Prop :=
  ∀ u, messageSent conversationId clientMessageId w = some u →
    (jobsOf Q userId u w).length ≤ 1

/-- The ids that are drawn are new, and no other admission has a key of the
message. -/
def DrawsNew (s : SendAttempts σ) : SendAction → Prop
  | .advance n => ∀ t c next, s.at? n = some ⟨t, .call c next⟩ →
      match c with
      | .appendMessage id _ _ _ _ => ∀ g ∈ Q.identities s.shared.queue,
          g.key ∉ messageKeys userId id
      | .queue (.enqueue job) => ∀ g ∈ Q.identities s.shared.queue, g.id ≠ job.id
      | _ => True
  | .environment (.message new) => ∀ g ∈ Q.identities s.shared.queue,
      g.key ∉ messageKeys userId new.id
  | .environment (.admission job) =>
      (∀ g ∈ Q.identities s.shared.queue, g.id ≠ job.id) ∧
        ∀ u, messageSent conversationId clientMessageId s.shared = some u →
          job.idemKey ∉ messageKeys userId u.id
  | _ => True

/-- One attempt after another, all at the same message. -/
def InTurn (text : String) (s : SendAttempts σ) (a : SendAction) : Prop :=
  StartsAlone s a ∧ ∀ t, a = .start t →
    t.conversationId = conversationId ∧ t.userId = userId ∧
      t.clientMessageId = some clientMessageId ∧ t.text = text

/-- The condition: an attempt that routes to an image while there is a job of the
message routes to that job's workflow, with its payload up to the order of
keys. -/
def SameRoute (s : SendAttempts σ) (a : SendAction) : Prop :=
  ∀ n t u r v p, a = .advance n → s.at? n = some ⟨t, p⟩ →
    RoutesTo host settings userId u r v p → ∀ g ∈ jobsOf Q userId u s.shared,
      g.key = r.idemKey ∧
        ∃ d : Dict, g.inputPayload = d.json ∧ Json.Same v.inputs.json d.json

variable {Q host settings conversationId userId clientMessageId}

theorem jobsOf_congr {u : ChatMessage} {w w' : ChatWorld σ}
    (h : Q.identities w'.queue = Q.identities w.queue) :
    jobsOf Q userId u w' = jobsOf Q userId u w := by
  unfold jobsOf
  rw [h]

theorem jobsOf_eq_nil {u : ChatMessage} {w : ChatWorld σ}
    (h : ∀ g ∈ Q.identities w.queue, g.key ∉ messageKeys userId u.id) :
    jobsOf Q userId u w = [] := by
  refine List.filter_eq_nil_iff.mpr (fun g hg => ?_)
  simpa using h g hg

/-- An appended message, of whoever it is, has no job yet. -/
theorem oneJobSent_append {store : Dict → Option Dict} {new : NewMessage}
    {w : ChatWorld σ}
    (hw : OneJobSent Q conversationId userId clientMessageId w)
    (hnew : ∀ g ∈ Q.identities w.queue, g.key ∉ messageKeys userId new.id) :
    OneJobSent Q conversationId userId clientMessageId
      { w with messages := (appendMessage store new w.messages).2 } := by
  intro u hu
  cases hold : messageSent conversationId clientMessageId w with
  | some v =>
      have hv := messageOf_appendMessage store new hold
      have huv : u = v := Option.some.inj (hu.symm.trans hv)
      rw [huv]
      exact hw v hold
  | none =>
      have hid := id_of_messageOf hold hu
      rw [jobsOf_eq_nil (fun g hg => by rw [hid]; exact hnew g hg)]
      exact Nat.zero_le 1

variable {store : Dict → Option Dict} {w : ChatWorld σ} {u : ChatMessage}

/-- The queue may change as long as the jobs do not, once the message is there. -/
theorem oneJobSent_of_some {w' : ChatWorld σ}
    (hw : OneJobSent Q conversationId userId clientMessageId w)
    (hu : messageSent conversationId clientMessageId w = some u)
    (hu' : messageSent conversationId clientMessageId w' = some u)
    (hjobs : Q.identities w'.queue = Q.identities w.queue) :
    OneJobSent Q conversationId userId clientMessageId w' := by
  intro v hv
  have hvu : v = u := Option.some.inj (hv.symm.trans hu')
  rw [hvu, jobsOf_congr hjobs]
  exact hw u hu

theorem quiet_answer {c : RouterCall} (hc : c.quiet)
    (hu : messageSent conversationId clientMessageId w = some u) :
    messageSent conversationId clientMessageId (routerAnswer Q host store c w).2 =
      some u ∧ (routerAnswer Q host store c w).2.queue = w.queue := by
  cases c with
  | loadHistory _ => exact ⟨hu, rfl⟩
  | routeIntent _ _ => exact ⟨hu, rfl⟩
  | researchMissingFields _ _ => exact ⟨hu, rfl⟩
  | complete _ => exact ⟨hu, rfl⟩
  | appendMessage _ _ _ _ _ => exact ⟨messageOf_appendMessage _ _ hu, rfl⟩
  | queue _ => exact absurd hc id

/-- The attempt stores its message, or finds it. -/
theorem advance_start {t : SmartMessage}
    (hconversation : t.conversationId = conversationId)
    (huser : t.userId = userId)
    (hclient : t.clientMessageId = some clientMessageId)
    (hw : OneJobSent Q conversationId userId clientMessageId w)
    (hnew : ∀ g ∈ Q.identities w.queue, g.key ∉ messageKeys userId t.messageId)
    {content : Dict} {w' : ChatWorld σ} {answer : Except RouterError ChatMessage}
    (h : routerAnswer Q host store (.appendMessage t.messageId t.conversationId
      "user" content t.clientMessageId) w = (answer, w')) :
    OneJobSent Q conversationId userId clientMessageId w' ∧
      AttemptAt Q host settings conversationId userId clientMessageId w'
        ⟨t, afterMessage host settings t answer⟩ := by
  have hanswer := congrArg Prod.fst h
  have hworld := congrArg Prod.snd h
  subst hworld
  refine ⟨oneJobSent_append hw hnew, ?_⟩
  cases answer with
  | ok userMsg =>
      refine .routing userMsg (messageOf_of_ok hconversation hclient hanswer) ?_
      rw [← huser]
      exact leads_processRoutedMessage t userMsg
  | error e => exact .ended ⟨_, rfl⟩

/-- The attempt asks the model, or stores what the assistant says. -/
theorem advance_quiet {t : SmartMessage} {c : RouterCall}
    {next : c.Answer → RouterProgram} (hc : c.quiet)
    (hnext : ∀ answer, Program.Leads RouterCall.quiet
      (RoutedOrDone host settings userId u) (next answer))
    (hu : messageSent conversationId clientMessageId w = some u)
    (hw : OneJobSent Q conversationId userId clientMessageId w) :
    OneJobSent Q conversationId userId clientMessageId
        (routerAnswer Q host store c w).2 ∧
      AttemptAt Q host settings conversationId userId clientMessageId
        (routerAnswer Q host store c w).2
        ⟨t, next (routerAnswer Q host store c w).1⟩ := by
  have hquiet : messageSent conversationId clientMessageId
      (routerAnswer Q host store c w).2 = some u ∧
      (routerAnswer Q host store c w).2.queue = w.queue := quiet_answer hc hu
  exact ⟨oneJobSent_of_some hw hu hquiet.1 (by rw [hquiet.2]),
    .routing u hquiet.1 (hnext _)⟩

/-- The lookup of a request's job ends the attempt if there is one, and if there
is none, there is none of the message at all. -/
theorem advance_lookup {t : SmartMessage} {r : AdmissionRequest} {v : Validated}
    (hkey : r.idemKey ∈ messageKeys userId u.id)
    (hvalid : validateRequest host settings r = .ok v)
    (hroute : ∀ g ∈ jobsOf Q userId u w, g.key = r.idemKey)
    (hu : messageSent conversationId clientMessageId w = some u) :
    AttemptAt Q host settings conversationId userId clientMessageId w
      ⟨t, admitting u (afterLookup host settings r v
        (Q.answer (.findByIdempotencyKey r.userId r.idempotencyKey
          r.workflowName) w.queue).1)⟩ := by
  cases hanswer : (Q.answer (.findByIdempotencyKey r.userId r.idempotencyKey
      r.workflowName) w.queue).1 with
  | none =>
      have hnone : jobsOf Q userId u w = [] := by
        refine List.eq_nil_iff_forall_not_mem.mpr (fun g hg => ?_)
        exact Q.lookup_none hanswer g (List.mem_filter.mp hg).1 (hroute g hg)
      have hstage : AdmissionStage host settings r (fun _ => True) True True
          (afterLookup host settings r v none) :=
        stage_afterLookup hvalid (fun _ => trivial) (fun _ => trivial)
          (fun _ _ _ => trivial) (fun _ _ _ _ => trivial)
      exact .admitting u r _ hu hkey hnone hstage rfl
  | some job =>
      refine .ended ?_
      unfold afterLookup checkIdempotency
      by_cases hhash : canonicalPayloadHash host v.inputs.json =
          canonicalPayloadHash host job.inputPayload
      · simp only [Option.map_some, if_pos hhash]
        exact ⟨_, rfl⟩
      · simp only [Option.map_some, if_neg hhash]
        exact ⟨_, rfl⟩

/-- The admission counts, or inserts the one job of the message. -/
theorem advance_admitting {t : SmartMessage} {r : AdmissionRequest}
    {c : AdmissionCall} {next : c.Answer → AdmissionProgram}
    (hkey : r.idemKey ∈ messageKeys userId u.id)
    (hnone : jobsOf Q userId u w = [])
    (hstage : AdmissionStage host settings r (fun _ => True) True True
      (.call c next))
    (hu : messageSent conversationId clientMessageId w = some u)
    (hw : OneJobSent Q conversationId userId clientMessageId w)
    (hnew : ∀ job, c = .enqueue job → ∀ g ∈ Q.identities w.queue, g.id ≠ job.id) :
    OneJobSent Q conversationId userId clientMessageId
        { w with queue := (Q.answer c w.queue).2 } ∧
      AttemptAt Q host settings conversationId userId clientMessageId
        { w with queue := (Q.answer c w.queue).2 }
        ⟨t, admitting u (next (Q.answer c w.queue).1)⟩ := by
  by_cases henqueue : ∃ job, c = .enqueue job
  · obtain ⟨job, rfl⟩ := henqueue
    obtain ⟨hjob, hend, _⟩ := stage_enqueue hstage
    obtain ⟨o, ho⟩ := hend (Q.answer (.enqueue job) w.queue).1
    refine ⟨fun v hv => ?_, .ended ?_⟩
    · have hvu : v = u := Option.some.inj (hv.symm.trans hu)
      rw [hvu]
      rcases Q.of_answer hnew with hsame | ⟨job', payload, hjob', _, hjobs⟩
      · rw [jobsOf_congr hsame, hnone]
        exact Nat.zero_le 1
      · cases hjob'
        unfold jobsOf at hnone ⊢
        dsimp only
        rw [hjobs, List.filter_append, hnone, List.nil_append]
        exact List.length_filter_le _ _
    · dsimp only
      rw [ho]
      exact ⟨_, rfl⟩
  · have hsame := Q.unchanged w.queue (fun job hjob => henqueue ⟨job, hjob⟩)
    rw [hsame]
    exact ⟨hw, .admitting u r _ hu hkey hnone (stage_next hstage _) rfl⟩

variable {text : String}

/-- Another admission inserts no job of the message. -/
theorem jobsOf_admission {job : QueuedJob}
    (hid : ∀ g ∈ Q.identities w.queue, g.id ≠ job.id)
    (hkey : job.idemKey ∉ messageKeys userId u.id) :
    jobsOf Q userId u { w with queue := (Q.answer (.enqueue job) w.queue).2 } =
      jobsOf Q userId u w := by
  have hids : ∀ job', AdmissionCall.enqueue job = .enqueue job' →
      ∀ g ∈ Q.identities w.queue, g.id ≠ job'.id := by
    intro job' hjob'
    cases hjob'
    exact hid
  rcases Q.of_answer hids with hsame | ⟨job', payload, hjob', _, hjobs⟩
  · exact jobsOf_congr hsame
  · cases hjob'
    unfold jobsOf
    dsimp only
    rw [hjobs, List.filter_append]
    simp [QueuedJob.identityAs, hkey]

/-- An event leaves the message alone, and its jobs if it has been sent. -/
theorem chatEvent_sent (store : Dict → Option Dict) {s : SendAttempts σ} {e : ChatEvent}
    (hnew : DrawsNew Q conversationId userId clientMessageId s (.environment e))
    (hu : messageSent conversationId clientMessageId s.shared = some u) :
    messageSent conversationId clientMessageId (chatEvent Q store e s.shared) =
      some u ∧
    jobsOf Q userId u (chatEvent Q store e s.shared) =
      jobsOf Q userId u s.shared := by
  cases e with
  | model replies => exact ⟨hu, rfl⟩
  | clock now => exact ⟨hu, rfl⟩
  | message new => exact ⟨messageOf_appendMessage _ _ hu, rfl⟩
  | work q => exact ⟨hu, jobsOf_congr (Q.identities_work q _)⟩
  | admission job => exact ⟨hu, jobsOf_admission hnew.1 (hnew.2 u hu)⟩

theorem oneJobSent_event {s : SendAttempts σ} {e : ChatEvent}
    (hnew : DrawsNew Q conversationId userId clientMessageId s (.environment e))
    (hs : OneJobSent Q conversationId userId clientMessageId s.shared) :
    OneJobSent Q conversationId userId clientMessageId
      (chatEvent Q store e s.shared) := by
  cases hsent : messageSent conversationId clientMessageId s.shared with
  | some u =>
      obtain ⟨hsent', hjobs⟩ := chatEvent_sent store hnew hsent
      intro v hv
      have hvu : v = u := Option.some.inj (hv.symm.trans hsent')
      rw [hvu, hjobs]
      exact hs u hsent
  | none =>
      cases e with
      | message new => exact oneJobSent_append hs hnew
      | model replies => exact fun v hv => absurd (hsent.symm.trans hv) (by simp)
      | clock now => exact fun v hv => absurd (hsent.symm.trans hv) (by simp)
      | work q => exact fun v hv => absurd (hsent.symm.trans hv) (by simp)
      | admission job => exact fun v hv => absurd (hsent.symm.trans hv) (by simp)

theorem attemptAt_event {s : SendAttempts σ} {e : ChatEvent}
    {x : Client SmartMessage RouterCall RouterCall.Answer RouterOutcome}
    (hnew : DrawsNew Q conversationId userId clientMessageId s (.environment e))
    (hx : AttemptAt Q host settings conversationId userId clientMessageId s.shared x) :
    AttemptAt Q host settings conversationId userId clientMessageId
      (chatEvent Q store e s.shared) x := by
  cases hx with
  | start hconversation huser hclient hp => exact .start hconversation huser hclient hp
  | routing u hu hleads => exact .routing u (chatEvent_sent store hnew hu).1 hleads
  | ended hend => exact .ended hend
  | admitting u r p hu hkey hnone hstage hp =>
      obtain ⟨hu', hjobs⟩ := chatEvent_sent store hnew hu
      exact .admitting u r p hu' hkey (hjobs.trans hnone) hstage hp

/-- What the next call of an attempt does. -/
theorem advance_attempt {s : SendAttempts σ} {n : Nat} {t : SmartMessage}
    {c : RouterCall} {next : c.Answer → RouterProgram}
    (hs : ClientInvariants (OneJobSent Q conversationId userId clientMessageId)
      (AttemptAt Q host settings conversationId userId clientMessageId) s)
    (hnew : DrawsNew Q conversationId userId clientMessageId s (.advance n))
    (hroute : SameRoute Q host settings userId s (.advance n))
    (hn : s.at? n = some ⟨t, .call c next⟩) :
    OneJobSent Q conversationId userId clientMessageId
        (routerAnswer Q host store c s.shared).2 ∧
      AttemptAt Q host settings conversationId userId clientMessageId
        (routerAnswer Q host store c s.shared).2
        ⟨t, next (routerAnswer Q host store c s.shared).1⟩ := by
  have hdrawn := hnew t c next hn
  cases hs.each n _ hn with
  | start hconversation huser hclient hp =>
      dsimp only at hp hconversation huser hclient
      cases hp
      exact advance_start hconversation huser hclient hs.shared hdrawn rfl
  | routing u hu hleads =>
      cases hleads with
      | call hc hnext => exact advance_quiet hc hnext hu hs.shared
      | leaf hleaf =>
          rcases hleaf with ⟨o, ho⟩ | ⟨r, v, hto⟩
          · cases ho
          · have hsame := hroute n t u r v _ rfl hn hto
            obtain ⟨hkey, hvalid, hp⟩ := hto
            cases hp
            have hqueue : (Q.answer (.findByIdempotencyKey r.userId
                r.idempotencyKey r.workflowName) s.shared.queue).2 =
                  s.shared.queue := Q.unchanged _ (fun _ h => by cases h)
            have hat : AttemptAt Q host settings conversationId userId
                clientMessageId s.shared _ :=
              advance_lookup (t := t) hkey hvalid (fun g hg => (hsame g hg).1) hu
            show OneJobSent Q conversationId userId clientMessageId
              { s.shared with queue := _ } ∧ AttemptAt Q host settings
                conversationId userId clientMessageId
                { s.shared with queue := _ } _
            rw [hqueue]
            exact ⟨hs.shared, hat⟩
  | admitting u r p hu hkey hnone hstage hp =>
      cases p with
      | done o => cases hp
      | call c' next' =>
          cases hp
          refine advance_admitting hkey hnone hstage hu hs.shared ?_
          intro job hjob
          cases hjob
          exact hdrawn
  | ended hend =>
      obtain ⟨o, ho⟩ := hend
      cases ho

/-- What is kept while the attempts are made one after another. -/
theorem attempt_rule : ClientRule (smartMessage host settings)
    (routerAnswer Q host store) (chatEvent Q store)
    (fun s a => OneUnderWay s ∧
      InTurn conversationId userId clientMessageId text s a ∧
      DrawsNew Q conversationId userId clientMessageId s a ∧
      SameRoute Q host settings userId s a)
    (OneJobSent Q conversationId userId clientMessageId)
    (AttemptAt Q host settings conversationId userId clientMessageId) where
  start {s t} _ hC := by
    obtain ⟨hconversation, huser, hclient, _⟩ := hC.2.1.2 t rfl
    exact .start hconversation huser hclient rfl
  advance hs hC hn := advance_attempt hs hC.2.2.1 hC.2.2.2 hn
  frame hs hC hn hne hm := .ended (hC.1.others_ended hn hm hne)
  environment hs hC := ⟨oneJobSent_event hC.2.2.1 hs.shared,
    fun n y hy => attemptAt_event hC.2.2.1 (hs.each n y hy)⟩

/-- The lookup of the one job there is replays it. -/
theorem replayed_lookup {r : AdmissionRequest} {v : Validated} {g : JobIdentity}
    {d : Dict} (hw : (jobsOf Q userId u w).length ≤ 1)
    (hg : g ∈ jobsOf Q userId u w) (hkey : g.key = r.idemKey)
    (hd : g.inputPayload = d.json) (hsame : Json.Same v.inputs.json d.json) :
    ∃ out job, admitting u (afterLookup host settings r v
        (Q.answer (.findByIdempotencyKey r.userId r.idempotencyKey
          r.workflowName) w.queue).1) = .done (.ok out) ∧
      out.job = some job ∧ job.id = g.id := by
  obtain ⟨hmem, hof⟩ := List.mem_filter.mp hg
  cases hanswer : (Q.answer (.findByIdempotencyKey r.userId r.idempotencyKey
      r.workflowName) w.queue).1 with
  | none => exact absurd hkey (Q.lookup_none hanswer g hmem)
  | some job =>
      obtain ⟨g', hmem', hkey', hid, hpayload⟩ := Q.lookup_some hanswer
      have hg' : g' ∈ jobsOf Q userId u w :=
        List.mem_filter.mpr ⟨hmem', by rwa [hkey', ← AdmissionRequest.idemKey,
          ← hkey]⟩
      have hone : g' = g := by
        obtain ⟨only, honly⟩ := List.length_eq_one_iff.mp
          (Nat.le_antisymm hw (List.length_pos_of_mem hg))
        rw [honly, List.mem_singleton] at hg hg'
        rw [hg, hg']
      subst hone
      have hjob : job.inputPayload = d.json := hpayload.symm.trans hd
      have hhash : canonicalPayloadHash host v.inputs.json =
          canonicalPayloadHash host job.inputPayload := by
        rw [hjob]
        exact congrArg host.sha256
          ((Json.dumps_eq_iff v.inputs.isDict d.isDict).mpr hsame)
      obtain ⟨isPreview, hreplay⟩ := replayResult_eq ⟨d, hjob⟩
      have hafter : afterLookup host settings r v (some job) =
          .done (replayResult job) := by
        unfold afterLookup checkIdempotency
        simp only [Option.map_some, if_pos hhash]
      rw [hafter, hreplay]
      exact ⟨_, _, rfl, rfl, hid.symm⟩

/-- An attempt that routes to the job there is ends with it. -/
theorem attempt_returned {s s' : SendAttempts σ} {n : Nat} {t : SmartMessage}
    {r : AdmissionRequest} {v : Validated} {p : RouterProgram} {g : JobIdentity}
    (hs : (jobsOf Q userId u s.shared).length ≤ 1)
    (hroute : SameRoute Q host settings userId s (.advance n))
    (hn : s.at? n = some ⟨t, p⟩) (hto : RoutesTo host settings userId u r v p)
    (hg : g ∈ jobsOf Q userId u s.shared)
    (h : (sendAttempts Q host settings store).step s (.advance n) = some s') :
    ∃ out job, s'.at? n = some ⟨t, .done (.ok out)⟩ ∧ out.job = some job ∧
      job.id = g.id := by
  obtain ⟨hgkey, d, hd, hsame⟩ := hroute n t u r v p rfl hn hto g hg
  obtain ⟨_, _, rfl⟩ := hto
  have hlookup : s.at? n = some ⟨t, .call (.queue (.findByIdempotencyKey r.userId
      r.idempotencyKey r.workflowName)) (fun answer =>
        admitting u (afterLookup host settings r v answer))⟩ := hn
  rw [step_advance hlookup] at h
  cases h
  have hreplayed : ∃ out job, admitting u (afterLookup host settings r v
      (routerAnswer Q host store (.queue (.findByIdempotencyKey r.userId
        r.idempotencyKey r.workflowName)) s.shared).1) = .done (.ok out) ∧
      out.job = some job ∧ job.id = g.id :=
    replayed_lookup hs hg hgkey hd hsame
  obtain ⟨out, job, hdone, hjob, hid⟩ := hreplayed
  refine ⟨out, job, ?_, hjob, hid⟩
  rw [← hdone]
  exact at?_set_self hlookup

variable (Q host settings store conversationId userId clientMessageId)

/-- There is never more than one job of the message, and an attempt that routes
to an image while there is one ends with it. -/
structure SentOnce (w : ChatWorld σ) (as : List SendAction) : Prop where
  atMostOne : ∀ pre post s u, as = pre ++ post →
    (sendAttempts Q host settings store).exec (.init w) pre = some s →
    messageSent conversationId clientMessageId s.shared = some u →
    (jobsOf Q userId u s.shared).length ≤ 1
  returned : ∀ pre n post s s' t u r v p g, as = pre ++ .advance n :: post →
    (sendAttempts Q host settings store).exec (.init w) pre = some s →
    (sendAttempts Q host settings store).step s (.advance n) = some s' →
    messageSent conversationId clientMessageId s.shared = some u →
    s.at? n = some ⟨t, p⟩ → RoutesTo host settings userId u r v p →
    g ∈ jobsOf Q userId u s.shared →
    ∃ out job, s'.at? n = some ⟨t, .done (.ok out)⟩ ∧ out.job = some job ∧
      job.id = g.id

/-- **Sending again.**  In every run of attempts at one message, one after another,
which begins without a job of the message. -/
theorem sentOnce_run (text : String) (w : ChatWorld σ)
    (hw : ∀ u, messageSent conversationId clientMessageId w = some u →
      jobsOf Q userId u w = [])
    (as : List SendAction)
    (halong : (sendAttempts Q host settings store).Along (fun s a =>
      InTurn conversationId userId clientMessageId text s a ∧
        DrawsNew Q conversationId userId clientMessageId s a ∧
        SameRoute Q host settings userId s a) (.init w) as) :
    SentOnce Q host settings conversationId userId clientMessageId store w as := by
  have hinit : OneJobSent Q conversationId userId clientMessageId w := by
    intro u hu
    rw [hw u hu]
    exact Nat.zero_le 1
  have hreached : ∀ pre post s, as = pre ++ post →
      (sendAttempts Q host settings store).exec (.init w) pre = some s →
      ClientInvariants (OneJobSent Q conversationId userId clientMessageId)
        (AttemptAt Q host settings conversationId userId clientMessageId) s := by
    rintro pre post s rfl hpre
    have halong' := ((Machine.along_append hpre).mp halong).1
    have hboth := Machine.invariant (M := sendAttempts Q host settings store)
      (I := fun s => OneUnderWay s ∧
        ClientInvariants (OneJobSent Q conversationId userId clientMessageId)
          (AttemptAt Q host settings conversationId userId clientMessageId) s)
      (fun s a s' hs hC h => ⟨oneUnderWay_step hs.1 hC.1.1 h,
        attempt_rule.step hs.2 ⟨hs.1, hC⟩ h⟩)
      ⟨oneUnderWay_init, clientInvariants_init hinit⟩ halong' hpre
    exact hboth.2
  constructor
  · intro pre post s u hsplit hpre hu
    exact (hreached pre post s hsplit hpre).shared u hu
  · intro pre n post s s' t u r v p g hsplit hpre hstep hu hn hto hg
    have hs := hreached pre _ s hsplit hpre
    subst hsplit
    exact attempt_returned (hs.shared u hu) (halong.at_split hpre).2.2 hn hto hg hstep

end Sequential

/-! ## Runs -/

section Runs

variable {σ : Type} [JobQueue σ] (Q : AdmissionQueue σ) (host : AdmissionHost)
  (settings : Settings) (store : Dict → Option Dict)
  (conversationId userId : Uuid) (clientMessageId text : String)

/-- The step is one of attempts in turn, with new ids, and only the model changes
what it answers. -/
def inTurnStep (s : SendAttempts σ) : SendAction → Bool
  | .start t => s.clients.all (fun x =>
      match x.program with
      | .done _ => true
      | .call _ _ => false) &&
      (t.conversationId = conversationId && t.userId = userId &&
        t.clientMessageId = some clientMessageId && t.text = text)
  | .advance n =>
      match s.at? n with
      | some ⟨_, .call (.appendMessage id _ _ _ _) _⟩ =>
          (Q.identities s.shared.queue).all (fun g =>
            g.key ∉ messageKeys userId id)
      | some ⟨_, .call (.queue (.enqueue job)) _⟩ =>
          (Q.identities s.shared.queue).all (fun g => g.id ≠ job.id)
      | _ => true
  | .environment (.model _) => true
  | .environment _ => false

variable {Q host settings store conversationId userId clientMessageId text}

theorem of_inTurnStep {s : SendAttempts σ} {a : SendAction}
    (h : inTurnStep Q conversationId userId clientMessageId text s a = true) :
    InTurn conversationId userId clientMessageId text s a ∧
      DrawsNew Q conversationId userId clientMessageId s a := by
  cases a with
  | start t =>
      simp only [inTurnStep, Bool.and_eq_true, List.all_eq_true,
        decide_eq_true_eq] at h
      obtain ⟨hended, ⟨⟨hconversation, huser⟩, hclient⟩, htext⟩ := h
      refine ⟨⟨?_, ?_⟩, trivial⟩
      · intro task _ m x hx
        have hx' := hended x (List.mem_of_getElem? hx)
        cases hp : x.program with
        | done o => exact ⟨o, rfl⟩
        | call c next => simp [hp] at hx'
      · intro task htask
        cases htask
        exact ⟨hconversation, huser, hclient, htext⟩
  | advance n =>
      refine ⟨⟨fun _ h => (by cases h), fun _ h => (by cases h)⟩, ?_⟩
      intro t c next hn
      simp only [inTurnStep, hn] at h
      cases c with
      | appendMessage id _ _ _ _ => simpa using h
      | queue c =>
          cases c with
          | enqueue job => simpa using h
          | _ => trivial
      | _ => trivial
  | environment e =>
      refine ⟨⟨fun _ h => (by cases h), fun _ h => (by cases h)⟩, ?_⟩
      cases e with
      | model replies => trivial
      | _ => cases h

/-- No job is looked up while there is one. -/
def looksUpFirst (Q : AdmissionQueue σ) (s : SendAttempts σ) :
    SendAction → Bool
  | .advance n =>
      match s.at? n with
      | some ⟨_, .call (.queue (.findByIdempotencyKey _ _ _)) _⟩ =>
          (Q.identities s.shared.queue).isEmpty
      | _ => true
  | _ => true

theorem sameRoute_of_looksUpFirst {s : SendAttempts σ} {a : SendAction}
    (h : looksUpFirst Q s a = true) : SameRoute Q host settings userId s a := by
  rintro n t u r v p rfl hn ⟨_, _, rfl⟩ g hg
  have hempty : (Q.identities s.shared.queue).isEmpty = true := by
    have hn' : s.at? n = some ⟨t, .call (.queue (.findByIdempotencyKey r.userId
        r.idempotencyKey r.workflowName)) (fun answer =>
          admitting u (afterLookup host settings r v answer))⟩ := hn
    simpa only [looksUpFirst, hn'] using h
  rw [List.isEmpty_iff] at hempty
  rw [jobsOf, hempty] at hg
  cases hg

end Runs

/-- What the router answers in the examples. -/
def repliesOf (intent : String) : ModelReplies where
  route := .ok (catReply intent)
  research := .error (.runtimeError "qwen_error:NotImplemented")
  completion := .ok "ok"

/-- An empty conversation. -/
def emptyChat : ChatWorld InMemoryJobQueue :=
  ⟨[], .empty, repliesOf "GENERAL_IMAGE", 0⟩

/-- An attempt at the message of the examples. -/
def attempt (messageId jobId : Uuid) : SmartMessage where
  conversationId := 3
  userId := 7
  text := "cat"
  clientMessageId := some "m1"
  messageId := messageId
  jobId := jobId
  replyId := 0
  now := 0

/-- An attempt, and another one that is about to route, with the model in
between. -/
def sentTwice (intent : String) : List SendAction :=
  .start (attempt 5 1) :: List.replicate 8 (.advance 0) ++
    [.environment (.model (repliesOf intent)), .start (attempt 6 2)] ++
    List.replicate 3 (.advance 1)

/-- What a program inserts, when it is answered as in the example. -/
def insertsOf (p : RouterProgram) : List ((Uuid × String × String) × Json) :=
  (p.follow catAnswer 5).1.filterMap (fun x =>
    match x.1 with
    | .queue (.enqueue job) => some (job.idemKey, job.inputPayload)
    | _ => none)

/-- An attempt, up to the lookup, tells what it is going to insert. -/
theorem eq_of_admitting_eq {u u' : ChatMessage} {r r' : AdmissionRequest}
    {v v' : Validated}
    (h : admitting u (admitValidated plainHost {} r v) =
      admitting u' (admitValidated plainHost {} r' v')) :
    r.idemKey = r'.idemKey ∧ v.inputs.json = v'.inputs.json := by
  have hinserts : ∀ (u : ChatMessage) (r : AdmissionRequest) (v : Validated),
      insertsOf (admitting u (admitValidated plainHost {} r v)) =
        [(r.idemKey, v.inputs.json)] := by
    intro u r v
    obtain ⟨_, _, _, _, _, _, conversationId, _⟩ := r
    cases conversationId with
    | none => rfl
    | some c => rfl
  have heq := congrArg insertsOf h
  rw [hinserts, hinserts] at heq
  simpa using heq

/-- The second attempt finds the job of the first, with the payload it has. -/
theorem exec_sentTwice : ∃ s u r v g,
    (sendAttempts InMemoryJobQueue.admissionQueue plainHost {} some).exec
      (.init emptyChat) (sentTwice "GENERAL_IMAGE") = some s ∧
    s.at? 1 = some ⟨attempt 6 2, admitting u (admitValidated plainHost {} r v)⟩ ∧
    s.shared.queue.identities = [g] ∧ g.key = r.idemKey ∧
    g.inputPayload = v.inputs.json :=
  ⟨_, _, _, _, _, rfl, rfl, rfl, rfl, rfl⟩

theorem sentOnce_run_twice :
    SentOnce InMemoryJobQueue.admissionQueue plainHost {} 3 7 "m1" some emptyChat
      (sentTwice "GENERAL_IMAGE" ++ [.advance 1]) := by
  refine sentOnce_run InMemoryJobQueue.admissionQueue plainHost {} 3 7 "m1" some
    "cat" emptyChat (fun _ h => by cases h) _ ?_
  obtain ⟨s, u, r, v, g, hexec, hn, hjobs, hkey, hpayload⟩ := exec_sentTwice
  refine (Machine.along_append hexec).mpr ⟨?_, ?_⟩
  · refine Machine.Along.mono (C := fun s a =>
      (inTurnStep InMemoryJobQueue.admissionQueue 3 7 "m1" "cat" s a &&
        looksUpFirst InMemoryJobQueue.admissionQueue s a) = true) ?_ (by decide)
    intro s a h
    have hboth := Bool.and_eq_true_iff.mp h
    have hturn := of_inTurnStep hboth.1
    exact ⟨hturn.1, hturn.2, sameRoute_of_looksUpFirst hboth.2⟩
  · have hturn : inTurnStep InMemoryJobQueue.admissionQueue 3 7 "m1" "cat" s
        (.advance 1) = true := by
      simp only [inTurnStep, hn]
      rfl
    refine ⟨⟨(of_inTurnStep hturn).1, (of_inTurnStep hturn).2, ?_⟩, ?_⟩
    · rintro n t u' r' v' p ha hn' ⟨_, _, rfl⟩ g' hg'
      cases ha
      rw [hn] at hn'
      have hp := congrArg Client.program (Option.some.inj hn')
      obtain ⟨hkey', hinputs⟩ := eq_of_admitting_eq hp
      have hg : g' = g := by
        have hmem := (List.mem_filter.mp hg').1
        rw [show InMemoryJobQueue.admissionQueue.identities s.shared.queue = [g]
          from hjobs] at hmem
        exact List.mem_singleton.mp hmem
      rw [hg]
      refine ⟨hkey.trans hkey', v.inputs, hpayload, ?_⟩
      rw [hinputs]
      exact Json.same_refl _
    · split <;> trivial

/-- The second attempt makes a second job. -/
theorem not_sentOnce :
    (sendAttempts InMemoryJobQueue.admissionQueue plainHost {} some).Along
      (fun s a => InTurn 3 7 "m1" "cat" s a ∧
        DrawsNew InMemoryJobQueue.admissionQueue 3 7 "m1" s a) (.init emptyChat)
      (sentTwice "POSTER" ++ List.replicate 6 (.advance 1)) ∧
    ¬ SentOnce InMemoryJobQueue.admissionQueue plainHost {} 3 7 "m1" some emptyChat
      (sentTwice "POSTER" ++ List.replicate 6 (.advance 1)) := by
  constructor
  · refine Machine.Along.mono (fun s a => of_inTurnStep) ?_
    decide
  · intro h
    have hone := h.atMostOne _ [] _ _ (List.append_nil _).symm rfl rfl
    exact absurd hone (by decide)

end Imagin4.Ports
