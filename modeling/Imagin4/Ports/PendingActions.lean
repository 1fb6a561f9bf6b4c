import Imagin4.Ports.AdmissionQueues
import Imagin4.Ports.ChatRouter

/-!
# Pending actions

`app/domain/chat/pending_actions.py`, and `confirm_pending_action` and
`cancel_pending_action` of `app/api/v1/chat_router.py`.  A paid job waits as a row
of `pending_actions` until its owner confirms it.  Each statement of a request
commits on its own, and a request decides what to do on the row it has read
before.

## Main results

* `of_evaluateConfirmation_ok` — which rows can be confirmed.
* `find?_actionAnswer` — what a call makes of a row.
* `rowAfter_of_settled` — only the write of its job changes a row that is not
  pending.
* `confirmable_of_rowcount` — which rows an `UPDATE` confirms.
-/

namespace Imagin4.Ports

open Imagin4.Verified

/-! ## Rows -/

/-- A row of `pending_actions`. -/
structure PendingAction where
  id : Uuid
  userId : Uuid
  conversationId : Uuid
  actionType : String
  billingCategory : String
  normalizedParams : Dict
  paramsFingerprint : String
  status : ActionStatus
  expiresAt : DateTime
  createdAt : DateTime
  consumedAt : Option DateTime
  resultingJobId : Option Uuid

/-- What a row is about: the columns that no statement changes. -/
structure ActionTerms where
  id : Uuid
  userId : Uuid
  conversationId : Uuid
  actionType : String
  normalizedParams : Dict
  expiresAt : DateTime

/-- What this row is about. -/
def PendingAction.terms (row : PendingAction) : ActionTerms :=
  ⟨row.id, row.userId, row.conversationId, row.actionType, row.normalizedParams,
    row.expiresAt⟩

/-- `PendingActionOut.from_model`; `exact_text` need not be a list of strings. -/
def PendingActionOut.fromModel (host : AdmissionHost) (row : PendingAction) :
    Except PyError PendingActionOut :=
  match (row.normalizedParams.getD "exact_text" (.arr [])).iter with
  | .error e => .error e
  | .ok items =>
      match items.mapM Json.asStr with
      | none => .error "ValidationError"
      | some exactText => .ok {
          id := row.id
          actionType := row.actionType
          billingCategory := row.billingCategory
          normalizedPrompt :=
            pyStr host (row.normalizedParams.getD "prompt" (.str ""))
          exactText := exactText
          status := row.status
          expiresAt := row.expiresAt }

/-! ## Eligibility -/

/-- `ConfirmOutcome`. -/
inductive ConfirmOutcome where
  | ok
  | notFound
  | wrongOwner
  | alreadyConfirmed
  | cancelled
  | expired
  | paramsChanged
deriving DecidableEq

/-- `evaluate_confirmation`; the snapshot has the fields of the row. -/
def evaluateConfirmation (snapshot : Option PendingAction)
    (requestingUserId : Uuid) (now : DateTime)
    (expectedParamsFingerprint : Option String := none) : ConfirmOutcome :=
  match snapshot with
  | none => .notFound
  | some row =>
      if row.userId ≠ requestingUserId then .wrongOwner
      else if row.status = .cancelled then .cancelled
      else if row.status = .confirmed then .alreadyConfirmed
      else if row.status = .expired ∨ row.expiresAt ≤ now then .expired
      else
        match expectedParamsFingerprint with
        | some expected =>
            if expected ≠ row.paramsFingerprint then .paramsChanged else .ok
        | none => .ok

/-- `evaluate_cancellation`. -/
def evaluateCancellation (snapshot : Option PendingAction)
    (requestingUserId : Uuid) : ConfirmOutcome :=
  match snapshot with
  | none => .notFound
  | some row =>
      if row.userId ≠ requestingUserId then .wrongOwner
      else if row.status = .confirmed then .alreadyConfirmed
      else .ok

/-- `_CONFIRM_ERROR_STATUS` and `_CONFIRM_ERROR_DETAIL`; neither has a key for
`OK`. -/
def confirmError : ConfirmOutcome → RouterError
  | .ok => .raised "KeyError"
  | .notFound => .http 404 "pending action not found"
  | .wrongOwner => .http 404 "pending action not found"
  | .cancelled => .http 409 "pending action was cancelled"
  | .expired => .http 410 "pending action expired -- ask again to create a new one"
  | .alreadyConfirmed => .http 409 "pending action already confirmed"
  | .paramsChanged => .http 409 "pending action parameters changed -- ask again"

/-- The row can be confirmed: the owner's, pending, and not expired. -/
theorem of_evaluateConfirmation_ok {snapshot : Option PendingAction}
    {userId : Uuid} {now : DateTime}
    (h : evaluateConfirmation snapshot userId now = .ok) :
    ∃ row, snapshot = some row ∧ row.userId = userId ∧ row.status = .pending ∧
      now < row.expiresAt := by
  cases snapshot with
  | none => cases h
  | some row =>
      refine ⟨row, rfl, ?_⟩
      simp only [evaluateConfirmation] at h
      by_cases howner : row.userId = userId
      · rw [if_neg (not_not_intro howner)] at h
        cases hstatus : row.status with
        | pending =>
            by_cases hexpired : row.expiresAt ≤ now
            · simp [hstatus, hexpired] at h
            · exact ⟨howner, rfl, Int.not_le.mp hexpired⟩
        | confirmed => simp [hstatus] at h
        | cancelled => simp [hstatus] at h
        | expired => simp [hstatus] at h
      · rw [if_pos howner] at h
        cases h

/-- A row that is confirmed is answered as confirmed already. -/
theorem evaluateConfirmation_confirmed {row : PendingAction} {now : DateTime}
    (h : row.status = .confirmed) :
    evaluateConfirmation (some row) row.userId now = .alreadyConfirmed := by
  simp [evaluateConfirmation, h]

/-- No other row is. -/
theorem confirmed_of_evaluateConfirmation {row : PendingAction} {userId : Uuid}
    {now : DateTime}
    (h : evaluateConfirmation (some row) userId now = .alreadyConfirmed) :
    row.status = .confirmed := by
  simp only [evaluateConfirmation] at h
  split at h
  · cases h
  · split at h
    · cases h
    · split at h
      · assumption
      · split at h <;> cases h

/-! ## The calls -/

/-- The statements and other calls of the two requests. -/
inductive ActionCall where
  | clock
  | readAction (id : Uuid)
  | confirmAction (id : Uuid) (now : DateTime)
  | cancelAction (id : Uuid)
  | refresh (id : Uuid)
  | recordJob (id jobId : Uuid)
  | queue (c : AdmissionCall)

/-- What they return. -/
@[reducible] def ActionCall.Answer : ActionCall → Type
  | clock => DateTime
  | readAction _ => Option PendingAction
  | confirmAction _ _ => Nat
  | cancelAction _ => Unit
  | refresh _ => Option PendingAction
  | recordJob _ _ => Unit
  | queue c => c.Answer

/-- What a request answers if it succeeds. -/
inductive ActionResponse where
  | confirmed (out : SmartMessageOut)
  | cancelled (out : PendingActionOut)

/-- How a request ends. -/
abbrev ActionOutcome := Except RouterError ActionResponse

/-- A program of such calls. -/
abbrev ActionProgram := Program ActionCall ActionCall.Answer ActionOutcome

/-- The `WHERE` of the confirming `UPDATE`. -/
def PendingAction.confirmable (id : Uuid) (now : DateTime)
    (row : PendingAction) : Bool :=
  row.id = id && row.status = .pending && now < row.expiresAt

/-- The `WHERE` of the cancelling `UPDATE`. -/
def PendingAction.cancellable (id : Uuid) (row : PendingAction) : Bool :=
  row.id = id && row.status = .pending

/-- The rows of `pending_actions`. -/
abbrev ActionTable := Table PendingAction.id

namespace ActionTable

/-- The confirming `UPDATE`. -/
def confirm (id : Uuid) (now : DateTime) (actions : ActionTable) : ActionTable :=
  actions.modifyWhere (PendingAction.confirmable id now)
    (fun row => { row with status := .confirmed, consumedAt := some now })
    (fun _ => rfl)

/-- The cancelling `UPDATE`. -/
def cancel (id : Uuid) (actions : ActionTable) : ActionTable :=
  actions.modifyWhere (PendingAction.cancellable id)
    (fun row => { row with status := .cancelled }) (fun _ => rfl)

/-- The write of `resulting_job_id`. -/
def record (id jobId : Uuid) (actions : ActionTable) : ActionTable :=
  actions.modifyWhere (fun row => row.id = id)
    (fun row => { row with resultingJobId := some jobId }) (fun _ => rfl)

end ActionTable

/-- What the requests share. -/
structure ActionWorld (σ : Type) where
  actions : ActionTable
  queue : σ
  now : DateTime

section World

variable {σ : Type} [JobQueue σ] (Q : AdmissionQueue σ)

/-- How a call is answered; each commits on its own. -/
def actionAnswer : (c : ActionCall) → ActionWorld σ → c.Answer × ActionWorld σ
  | .clock, w => (w.now, w)
  | .readAction id, w => (w.actions.find? id, w)
  | .confirmAction id now, w =>
      (w.actions.rows.countP (PendingAction.confirmable id now),
        { w with actions := w.actions.confirm id now })
  | .cancelAction id, w => ((), { w with actions := w.actions.cancel id })
  | .refresh id, w => (w.actions.find? id, w)
  | .recordJob id jobId, w =>
      ((), { w with actions := w.actions.record id jobId })
  | .queue c, w => ((Q.answer c w.queue).1,
      { w with queue := (Q.answer c w.queue).2 })

/-- What happens besides: time passes, the queue is worked on, another job is
admitted. -/
inductive ActionEvent where
  | clock (now : DateTime)
  | work (w : QueueWork)
  | admission (job : QueuedJob)

/-- The world after an event. -/
def actionEvent : ActionEvent → ActionWorld σ → ActionWorld σ
  | .clock now, w => { w with now := now }
  | .work q, w => { w with queue := q.apply w.queue }
  | .admission job, w => { w with queue := (Q.answer (.enqueue job) w.queue).2 }

theorem actions_actionEvent (e : ActionEvent) (w : ActionWorld σ) :
    (actionEvent Q e w).actions = w.actions := by
  cases e with
  | clock now => rfl
  | work q => rfl
  | admission job => rfl

/-- What a call makes of a row. -/
def rowAfter : ActionCall → PendingAction → PendingAction
  | .confirmAction id now, row =>
      if row.confirmable id now then
        { row with status := .confirmed, consumedAt := some now }
      else row
  | .cancelAction id, row =>
      if row.cancellable id then { row with status := .cancelled } else row
  | .recordJob id jobId, row =>
      if row.id = id then { row with resultingJobId := some jobId } else row
  | _, row => row

/-- What a call does to the rows. -/
theorem find?_actionAnswer (c : ActionCall) (w : ActionWorld σ) (id : Uuid) :
    (actionAnswer Q c w).2.actions.find? id =
      (w.actions.find? id).map (rowAfter c) := by
  have hsame : w.actions.find? id = (w.actions.find? id).map (fun row => row) :=
    Option.map_id'.symm
  cases c with
  | clock => exact hsame
  | readAction i => exact hsame
  | refresh i => exact hsame
  | queue c => exact hsame
  | confirmAction i now =>
      rw [actionAnswer, ActionTable.confirm, Table.find?_modifyWhere]
      rfl
  | cancelAction i =>
      rw [actionAnswer, ActionTable.cancel, Table.find?_modifyWhere]
      rfl
  | recordJob i jobId =>
      rw [actionAnswer, ActionTable.record, Table.find?_modifyWhere]
      simp only [decide_eq_true_eq]
      rfl

variable {Q} {w : ActionWorld σ} {row : PendingAction} {c : ActionCall}
  {id : Uuid} {now : DateTime}

/-- No call changes what a row is about. -/
@[simp] theorem terms_rowAfter (c : ActionCall) (row : PendingAction) :
    (rowAfter c row).terms = row.terms := by
  unfold rowAfter
  split
  · split <;> rfl
  · split <;> rfl
  · split <;> rfl
  · rfl

/-- No call changes the status of a row that is not pending. -/
theorem status_rowAfter (h : row.status ≠ .pending) :
    (rowAfter c row).status = row.status := by
  unfold rowAfter
  split
  · rw [PendingAction.confirmable]
    simp [h]
  · simp [PendingAction.cancellable, h]
  · split <;> rfl
  · rfl

/-- Only the write of its job changes a row that is not pending. -/
theorem rowAfter_of_settled (h : row.status ≠ .pending)
    (hrecord : ∀ jobId, c ≠ .recordJob row.id jobId) : rowAfter c row = row := by
  cases c with
  | confirmAction i now => simp [rowAfter, PendingAction.confirmable, h]
  | cancelAction i => simp [rowAfter, PendingAction.cancellable, h]
  | recordJob i jobId =>
      have hne : row.id ≠ i := by
        rintro rfl
        exact hrecord jobId rfl
      exact if_neg hne
  | _ => rfl

theorem resultingJobId_rowAfter (hrecord : ∀ jobId, c ≠ .recordJob row.id jobId) :
    (rowAfter c row).resultingJobId = row.resultingJobId := by
  cases c with
  | confirmAction i now =>
      rw [rowAfter]
      split <;> rfl
  | cancelAction i =>
      rw [rowAfter]
      split <;> rfl
  | recordJob i jobId =>
      have hne : row.id ≠ i := by
        rintro rfl
        exact hrecord jobId rfl
      rw [rowAfter, if_neg hne]
  | _ => rfl

/-- The write of its job leaves nothing else of a row changed. -/
theorem rowAfter_record (row : PendingAction) (jobId : Uuid) :
    rowAfter (.recordJob row.id jobId) row =
      { row with resultingJobId := some jobId } := if_pos rfl

/-- A row that a call leaves pending was pending before, and has no job that it
did not have. -/
theorem of_rowAfter_pending (hrecord : ∀ jobId, c ≠ .recordJob row.id jobId)
    (h : (rowAfter c row).status = .pending) : rowAfter c row = row := by
  by_cases hstatus : row.status = .pending
  · cases c with
    | confirmAction i now =>
        rw [rowAfter] at h ⊢
        split at h
        · cases h
        · rename_i hno
          exact if_neg hno
    | cancelAction i =>
        rw [rowAfter] at h ⊢
        split at h
        · cases h
        · rename_i hno
          exact if_neg hno
    | recordJob i jobId =>
        have hne : row.id ≠ i := by
          rintro rfl
          exact hrecord jobId rfl
        exact if_neg hne
    | _ => rfl
  · exact rowAfter_of_settled hstatus hrecord

/-- An `UPDATE` that confirms a row has found it pending and not expired. -/
theorem confirmable_of_rowcount
    (h : (actionAnswer Q (.confirmAction id now) w).1 = 1) :
    ∃ row, w.actions.find? id = some row ∧ row.confirmable id now = true := by
  obtain ⟨row, hmem, hrow⟩ := List.countP_pos_iff.mp
    (show 0 < w.actions.rows.countP (PendingAction.confirmable id now) by
      rw [show w.actions.rows.countP (PendingAction.confirmable id now) = 1 from h]
      exact Nat.one_pos)
  have hid : row.id = id := by
    simp only [PendingAction.confirmable, Bool.and_eq_true,
      decide_eq_true_eq] at hrow
    exact hrow.1.1
  exact ⟨row, Table.find?_eq_some_iff.mpr ⟨hmem, hid⟩, hrow⟩

end World

/-! ## The requests -/

/-- A request to confirm or to cancel, with the id and the clock reading of the
job it may come to.  A path that is no UUID names no action. -/
structure ActionRequest where
  cancels : Bool
  actionId : Option Uuid
  userId : Uuid
  jobId : Uuid
  now : DateTime

section Requests

variable (host : AdmissionHost) (settings : Settings) (t : ActionRequest)

/-- The answer that names a job. -/
def confirmResponse (row : PendingAction) (job : GenerationOut) : ActionOutcome :=
  match PendingActionOut.fromModel host row with
  | .error e => .error (.raised e)
  | .ok pendingAction => .ok (.confirmed {
      type := "image_job"
      userMessage := {
        id := row.id
        role := "system"
        sequenceNo := 0
        content := .empty
        status := "complete"
        createdAt := row.createdAt }
      job := some job
      pendingAction := some pendingAction })

/-- The answer that names the job of an earlier request. -/
def replayResponse (row : PendingAction) (jobId : Uuid) : ActionOutcome :=
  match workflowForActionType row.actionType with
  | none => .error (.raised "KeyError")
  | some kind => confirmResponse host row
      { id := jobId, state := .queued, kind := kind }

/-- The `inputs` of the job of an action. -/
def PendingAction.inputs (row : PendingAction) : Dict :=
  let inputs := Dict.empty.set "prompt"
    (row.normalizedParams.getD "prompt" (.str ""))
    (row.normalizedParams.isDict_getD "prompt" (.str ""))
  let inputs := inputs.set "exact_text"
    (row.normalizedParams.getD "exact_text" (.arr []))
    (row.normalizedParams.isDict_getD "exact_text" (.arr (fun _ h => by cases h)))
  inputs.set "action_type" (.str row.actionType) (.str row.actionType)

/-- The admission of the job of an action. -/
def ActionRequest.admission (row : PendingAction) (workflowName : String) :
    AdmissionRequest where
  id := t.jobId
  userId := t.userId
  workflowName := workflowName
  workflowVersion := "v1"
  inputs := row.inputs
  idempotencyKey := "pending-action-" ++ uuidText row.id
  conversationId := some row.conversationId
  now := t.now

/-- The answer for the job that was admitted. -/
def admittedResponse (row : PendingAction) (result : AdmissionResult) :
    ActionOutcome :=
  confirmResponse host { row with resultingJobId := some result.id } {
    id := result.id
    state := result.state
    kind := result.kind
    queuePosition := result.queuePosition
    estimatedWaitSeconds := result.estimatedWaitSeconds }

/-- What follows the admission. -/
def afterAdmission (row : PendingAction) : AdmissionOutcome → ActionProgram
  | .ok result => .call (.recordJob row.id result.id)
      (fun _ => .done (admittedResponse host row result))
  | .error (.capacityExceeded reason retryAfterS) =>
      .done (.error (.http 429 reason (some retryAfterS)))
  | .error (.other e) => .done (.error (.raised e))
  | .error _ => .done (.error (.http 500 "failed to start generation"))

/-- An admission under way for an action. -/
def admittingAction (row : PendingAction) (p : AdmissionProgram) : ActionProgram :=
  (p.through ActionCall.queue (fun _ answer => answer)).bind
    (afterAdmission host row)

/-- What the request that has confirmed the action does. -/
def afterConfirmed (row : PendingAction) : ActionProgram :=
  match workflowForActionType row.actionType with
  | none => .done (.error (.raised "KeyError"))
  | some workflowName => admittingAction host row
      (admitGenerationJob host settings (t.admission row workflowName))

/-- What the request that has lost the race does with the row. -/
def afterLost : Option PendingAction → ActionProgram
  | none => .done (.error (.raised "InvalidRequestError"))
  | some row =>
      if row.status = .confirmed then
        match row.resultingJobId with
        | some jobId => .done (replayResponse host row jobId)
        | none => .done
            (.error (.http 409 "pending action already being processed"))
      else .done (.error (.http 409 "pending action already being processed"))

/-- What follows the confirming `UPDATE`.  The session holds the row as that
statement has left it. -/
def afterUpdate (row : PendingAction) (now : DateTime) (rowcount : Nat) :
    ActionProgram :=
  if rowcount = 1 then
    afterConfirmed host settings t
      { row with status := .confirmed, consumedAt := some now }
  else .call (.refresh row.id) (afterLost host)

/-- What follows the snapshot. -/
def afterSnapshot (now : DateTime) (row : Option PendingAction) : ActionProgram :=
  match evaluateConfirmation row t.userId now, row with
  | .ok, some row => .call (.confirmAction row.id now)
      (afterUpdate host settings t row now)
  | .alreadyConfirmed, some row =>
      match row.resultingJobId with
      | some jobId => .done (replayResponse host row jobId)
      | none => .done (.error (confirmError .alreadyConfirmed))
  | outcome, _ => .done (.error (confirmError outcome))

/-- What follows the clock reading. -/
def afterClock (now : DateTime) : ActionProgram :=
  match t.actionId with
  | none => afterSnapshot host settings t now none
  | some id => .call (.readAction id) (afterSnapshot host settings t now)

/-- `confirm_pending_action`. -/
def confirmPendingAction : ActionProgram :=
  .call .clock (afterClock host settings t)

/-- The answer of a cancellation. -/
def cancelResponse (row : PendingAction) : ActionOutcome :=
  match PendingActionOut.fromModel host row with
  | .ok out => .ok (.cancelled out)
  | .error e => .error (.raised e)

/-- What follows the cancelling `UPDATE`. -/
def afterCancelled : Option PendingAction → ActionProgram
  | none => .done (.error (.raised "InvalidRequestError"))
  | some row => .done (cancelResponse host row)

/-- What follows the snapshot of a cancellation. -/
def afterCancelSnapshot (row : Option PendingAction) : ActionProgram :=
  match evaluateCancellation row t.userId, row with
  | .alreadyConfirmed, _ => .done
      (.error (.http 409 "pending action already confirmed, cannot cancel"))
  | .ok, some row =>
      if row.status = .pending then
        .call (.cancelAction row.id) (fun _ =>
          .call (.refresh row.id) (afterCancelled host))
      else .done (cancelResponse host row)
  | _, _ => .done (.error (.http 404 "pending action not found"))

/-- `cancel_pending_action`. -/
def cancelPendingAction : ActionProgram :=
  match t.actionId with
  | none => afterCancelSnapshot host t none
  | some id => .call (.readAction id) (afterCancelSnapshot host t)

/-- The program of a request. -/
def actionRequest : ActionProgram :=
  if t.cancels then cancelPendingAction host t
  else confirmPendingAction host settings t

end Requests

/-- The requests. -/
abbrev ActionRequests (σ : Type) := Clients (ActionWorld σ) ActionRequest
  ActionCall ActionCall.Answer ActionOutcome

/-- What happens: a request starts or makes its next call, or the world changes. -/
abbrev ActionStep := ClientAction ActionRequest ActionEvent

/-- Any number of requests. -/
abbrev actionRequests {σ : Type} [JobQueue σ] (Q : AdmissionQueue σ)
    (host : AdmissionHost) (settings : Settings) :
    Machine (ActionRequests σ) ActionStep :=
  clientMachine (actionRequest host settings) (actionAnswer Q) (actionEvent Q)

end Imagin4.Ports
