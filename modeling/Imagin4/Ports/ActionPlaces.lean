import Imagin4.Ports.PendingActions

/-!
# Where a request for an action can be

What the parts of a confirmation and of a cancellation come to, and the places
between two of their calls, each with what it knows of the rows.  The `UPDATE`
that confirms an action makes its request the winner of the action; only a winner
goes on to admit a job and to write `resulting_job_id`.

## Main results

* `actionAt_answer` — what the next call of a request does.
* `actionAt_frame` — a request stays where it is while others make their calls,
  unless one of them writes a job to its action.
* `winning_answer` — a request wins its action by the `UPDATE` that confirms it.
* `names_of_recordJob` — a request comes to the write of a job by the answer that
  names it.
-/

namespace Imagin4.Ports

open Imagin4.Verified

/-! ## What the parts of a request come to -/

section Responses

variable {host : AdmissionHost} {settings : Settings} {t : ActionRequest}
  {row : PendingAction} {out : SmartMessageOut}

theorem confirmResponse_names {job : GenerationOut}
    (h : confirmResponse host row job = .ok (.confirmed out)) :
    out.job = some job := by
  unfold confirmResponse at h
  split at h
  · cases h
  · cases h
    rfl

theorem replayResponse_names {jobId : Uuid}
    (h : replayResponse host row jobId = .ok (.confirmed out)) :
    out.job.map GenerationOut.id = some jobId := by
  unfold replayResponse at h
  split at h
  · cases h
  · rw [confirmResponse_names h]
    rfl

theorem admittedResponse_names {result : AdmissionResult}
    (h : admittedResponse host row result = .ok (.confirmed out)) :
    out.job.map GenerationOut.id = some result.id := by
  rw [confirmResponse_names h]
  rfl

/-- The request ends, with the job of a confirmed row or with an error. -/
def EndsReplaying (host : AdmissionHost) (found : Option PendingAction)
    (p : ActionProgram) : Prop :=
  (∃ row jobId, found = some row ∧ row.status = .confirmed ∧
    row.resultingJobId = some jobId ∧
    p = .done (replayResponse host row jobId)) ∨
  ∃ e, p = .done (.error e)

theorem afterLost_ends (found : Option PendingAction) :
    EndsReplaying host found (afterLost host found) := by
  cases found with
  | none => exact .inr ⟨_, rfl⟩
  | some row =>
      unfold afterLost
      dsimp only
      by_cases hstatus : row.status = .confirmed
      · rw [if_pos hstatus]
        cases hjob : row.resultingJobId with
        | some jobId => exact .inl ⟨row, jobId, rfl, hstatus, hjob, rfl⟩
        | none => exact .inr ⟨_, rfl⟩
      · rw [if_neg hstatus]
        exact .inr ⟨_, rfl⟩

/-- A request that has its snapshot goes on to the `UPDATE`, if the row is the
user's, or ends. -/
theorem afterSnapshot_cases (host : AdmissionHost) (settings : Settings)
    (t : ActionRequest) (found : Option PendingAction) (now : DateTime) :
    (∃ row, found = some row ∧ row.userId = t.userId ∧
      afterSnapshot host settings t now found =
        .call (.confirmAction row.id now) (afterUpdate host settings t row now)) ∨
    EndsReplaying host found (afterSnapshot host settings t now found) := by
  unfold afterSnapshot
  cases houtcome : evaluateConfirmation found t.userId now with
  | ok =>
      obtain ⟨row, rfl, howner, _, _⟩ := of_evaluateConfirmation_ok houtcome
      exact .inl ⟨row, rfl, howner, rfl⟩
  | alreadyConfirmed =>
      cases found with
      | none => cases houtcome
      | some row =>
          have hstatus := confirmed_of_evaluateConfirmation houtcome
          right
          cases hjob : row.resultingJobId with
          | some jobId => exact .inl ⟨row, jobId, rfl, hstatus, hjob, by simp [hjob]⟩
          | none => exact .inr ⟨confirmError .alreadyConfirmed, by simp [hjob]⟩
  | notFound => exact .inr (.inr ⟨_, rfl⟩)
  | wrongOwner => exact .inr (.inr ⟨_, rfl⟩)
  | cancelled => exact .inr (.inr ⟨_, rfl⟩)
  | expired => exact .inr (.inr ⟨_, rfl⟩)
  | paramsChanged => exact .inr (.inr ⟨_, rfl⟩)

/-- The calls of a cancellation. -/
def ActionCall.cancels : ActionCall → Prop
  | readAction _ => True
  | cancelAction _ => True
  | refresh _ => True
  | _ => False

/-- A request that ends, and not as one that has confirmed. -/
def EndsUnconfirmed (p : ActionProgram) : Prop :=
  ∃ o, p = .done o ∧ ∀ out, o ≠ .ok (.confirmed out)

theorem cancelResponse_ne (row : PendingAction) (out : SmartMessageOut) :
    cancelResponse host row ≠ .ok (.confirmed out) := by
  unfold cancelResponse
  split
  · simp
  · simp

theorem leads_cancelPendingAction :
    Program.Leads ActionCall.cancels EndsUnconfirmed
      (cancelPendingAction host t) := by
  have hafter : ∀ found, Program.Leads ActionCall.cancels EndsUnconfirmed
      (afterCancelSnapshot host t found) := by
    intro found
    unfold afterCancelSnapshot
    split
    · exact .leaf ⟨_, rfl, by simp⟩
    · rename_i row _
      split
      · refine .call trivial (fun _ => .call trivial (fun refreshed => ?_))
        cases refreshed with
        | none => exact .leaf ⟨_, rfl, by simp⟩
        | some row => exact .leaf ⟨_, rfl, cancelResponse_ne row⟩
      · exact .leaf ⟨_, rfl, cancelResponse_ne row⟩
    · exact .leaf ⟨_, rfl, by simp⟩
  unfold cancelPendingAction
  cases t.actionId with
  | none => exact hafter none
  | some id => exact .call trivial hafter

end Responses

/-! ## Where a request can be -/

/-- A request under way. -/
abbrev ActionClient :=
  Client ActionRequest ActionCall ActionCall.Answer ActionOutcome

/-- There is a row about this. -/
def Current (actions : ActionTable) (terms : ActionTerms) : Prop :=
  ∃ row, actions.find? terms.id = some row ∧ row.terms = terms

/-- It has been confirmed, and has no job yet. -/
def Unrecorded (actions : ActionTable) (terms : ActionTerms) : Prop :=
  ∃ row, actions.find? terms.id = some row ∧ row.terms = terms ∧
    row.status = .confirmed ∧ row.resultingJobId = none

/-- The action has been confirmed, and has this job. -/
def Recorded (actions : ActionTable) (id jobId : Uuid) : Prop :=
  ∃ row, actions.find? id = some row ∧ row.status = .confirmed ∧
    row.resultingJobId = some jobId

/-- A pending row has no job. -/
def PendingUnrecorded (actions : ActionTable) : Prop :=
  ∀ id row, actions.find? id = some row → row.status = .pending →
    row.resultingJobId = none

/-- A call that only the winner of an action makes. -/
def ActionCall.isWinners : ActionCall → Prop
  | queue _ => True
  | recordJob _ _ => True
  | _ => False

/-- The request has won the action. -/
def Winning (id : Uuid) (x : ActionClient) : Prop :=
  x.task.actionId = some id ∧
    ∃ c next, x.program = .call c next ∧ c.isWinners

section Places

variable (host : AdmissionHost) (settings : Settings)

/-- Where a request is. -/
inductive ActionAt (actions : ActionTable) (t : ActionRequest) :
    ActionProgram → Prop where
  | clock : ActionAt actions t (.call .clock (afterClock host settings t))
  | reading (id : Uuid) (now : DateTime) : t.actionId = some id →
      ActionAt actions t
        (.call (.readAction id) (afterSnapshot host settings t now))
  | updating (row : PendingAction) (now : DateTime) :
      t.actionId = some row.id → row.userId = t.userId →
      Current actions row.terms →
      ActionAt actions t
        (.call (.confirmAction row.id now) (afterUpdate host settings t row now))
  | lost (id : Uuid) : t.actionId = some id →
      ActionAt actions t (.call (.refresh id) (afterLost host))
  | admitting (row : PendingAction) (workflowName : String) (c : AdmissionCall)
      (next : c.Answer → AdmissionProgram) :
      t.actionId = some row.id → row.userId = t.userId →
      Unrecorded actions row.terms →
      AdmissionStage host settings (t.admission row workflowName)
        (fun _ => True) True True (.call c next) →
      ActionAt actions t
        (.call (.queue c) (fun answer => admittingAction host row (next answer)))
  | recording (row : PendingAction) (result : AdmissionResult) :
      t.actionId = some row.id → Unrecorded actions row.terms →
      ActionAt actions t (.call (.recordJob row.id result.id)
        (fun _ => .done (admittedResponse host row result)))
  | cancelling (p : ActionProgram) :
      Program.Leads ActionCall.cancels EndsUnconfirmed p → ActionAt actions t p
  | ended (o : ActionOutcome) :
      (∀ out, o = .ok (.confirmed out) → ∃ id jobId, t.actionId = some id ∧
        Recorded actions id jobId ∧ out.job.map GenerationOut.id = some jobId) →
      ActionAt actions t (.done o)

variable {host settings} {actions : ActionTable} {t : ActionRequest}
  {p : ActionProgram} {c : ActionCall} {next : c.Answer → ActionProgram}
  {id jobId : Uuid}

theorem actionAt_error {e : RouterError} :
    ActionAt host settings actions t (.done (.error e)) :=
  .ended _ (fun _ h => by cases h)

theorem actionAt_replaying (hid : t.actionId = some id)
    (h : EndsReplaying host (actions.find? id) p) :
    ActionAt host settings actions t p := by
  rcases h with ⟨row, jobId, hfind, hstatus, hjob, rfl⟩ | ⟨e, rfl⟩
  · refine .ended _ (fun out hout => ?_)
    exact ⟨id, jobId, hid, ⟨row, hfind, hstatus, hjob⟩,
      replayResponse_names hout⟩
  · exact actionAt_error

/-- The admission goes on, or the job is written, or the request ends. -/
theorem actionAt_admitting {row : PendingAction} {workflowName : String}
    {p : AdmissionProgram} (hid : t.actionId = some row.id)
    (howner : row.userId = t.userId) (hrow : Unrecorded actions row.terms)
    (hstage : AdmissionStage host settings (t.admission row workflowName)
      (fun _ => True) True True p) :
    ActionAt host settings actions t (admittingAction host row p) := by
  cases p with
  | call c next => exact .admitting row workflowName c next hid howner hrow hstage
  | done o =>
      show ActionAt host settings actions t (afterAdmission host row o)
      unfold afterAdmission
      split
      · exact .recording row _ hid hrow
      · exact actionAt_error
      · exact actionAt_error
      · exact actionAt_error

/-- The winner goes on to the admission of its job. -/
theorem actionAt_afterConfirmed {row : PendingAction}
    (hid : t.actionId = some row.id) (howner : row.userId = t.userId)
    (hrow : Unrecorded actions row.terms) :
    ActionAt host settings actions t (afterConfirmed host settings t row) := by
  unfold afterConfirmed
  split
  · exact actionAt_error
  · exact actionAt_admitting hid howner hrow
      (stage_admitGenerationJob (fun _ _ => trivial))

theorem actionAt_start :
    ActionAt host settings actions t (actionRequest host settings t) := by
  unfold actionRequest
  split
  · exact .cancelling _ leads_cancelPendingAction
  · exact .clock

theorem not_leads_of_isWinners (hc : c.isWinners) :
    ¬ Program.Leads ActionCall.cancels EndsUnconfirmed (.call c next) := by
  intro h
  cases h with
  | leaf hleaf =>
      obtain ⟨o, ho, _⟩ := hleaf
      cases ho
  | call hq _ =>
      cases c with
      | queue c => exact hq
      | recordJob id jobId => exact hq
      | _ => exact hc

/-- The action of a winner is confirmed, and has no job. -/
theorem unrecorded_of_isWinners
    (h : ActionAt host settings actions t (.call c next)) (hc : c.isWinners) :
    ∃ terms, t.actionId = some terms.id ∧ Unrecorded actions terms := by
  cases h with
  | admitting row workflowName c' next' hid _ hrow _ => exact ⟨row.terms, hid, hrow⟩
  | recording row result hid hrow => exact ⟨row.terms, hid, hrow⟩
  | cancelling p hleads => exact absurd hleads (not_leads_of_isWinners hc)
  | clock => exact hc.elim
  | reading i now hid => exact hc.elim
  | updating row now hid howner hrow => exact hc.elim
  | lost i hid => exact hc.elim

/-- A job is written to the action of the request, which has none yet. -/
theorem unrecorded_of_recordJob {next : Unit → ActionProgram}
    (h : ActionAt host settings actions t (.call (.recordJob id jobId) next)) :
    t.actionId = some id ∧ ∃ terms, terms.id = id ∧ Unrecorded actions terms := by
  cases h with
  | recording row result hid hrow => exact ⟨hid, row.terms, rfl, hrow⟩
  | cancelling p hleads =>
      exact absurd hleads (not_leads_of_isWinners (c := .recordJob id jobId) trivial)

/-- A request that succeeds names the job of its action. -/
theorem recorded_of_done {out : SmartMessageOut}
    (h : ActionAt host settings actions t (.done (.ok (.confirmed out)))) :
    ∃ id jobId, t.actionId = some id ∧ Recorded actions id jobId ∧
      out.job.map GenerationOut.id = some jobId := by
  cases h with
  | ended o hnames => exact hnames out rfl
  | cancelling p hleads =>
      cases hleads with
      | leaf hleaf =>
          obtain ⟨o, ho, hne⟩ := hleaf
          cases ho
          exact absurd rfl (hne out)

end Places

/-! ## What a call keeps -/

section Calls

variable {σ : Type} [JobQueue σ] {Q : AdmissionQueue σ} {host : AdmissionHost}
  {settings : Settings} {w : ActionWorld σ} {c : ActionCall} {t : ActionRequest}
  {terms : ActionTerms} {id jobId : Uuid} {p : ActionProgram}

theorem id_of_terms {row : PendingAction} (h : row.terms = terms) :
    row.id = terms.id := by
  rw [← h]
  rfl

theorem current_answer (c : ActionCall) (h : Current w.actions terms) :
    Current (actionAnswer Q c w).2.actions terms := by
  obtain ⟨row, hfind, hterms⟩ := h
  refine ⟨rowAfter c row, ?_, by rw [terms_rowAfter, hterms]⟩
  rw [find?_actionAnswer, hfind, Option.map_some]

theorem unrecorded_answer (h : Unrecorded w.actions terms)
    (hc : ∀ jobId, c ≠ .recordJob terms.id jobId) :
    Unrecorded (actionAnswer Q c w).2.actions terms := by
  obtain ⟨row, hfind, hterms, hstatus, hjob⟩ := h
  have hsame : rowAfter c row = row := by
    refine rowAfter_of_settled (by simp [hstatus]) ?_
    rw [id_of_terms hterms]
    exact hc
  refine ⟨row, ?_, hterms, hstatus, hjob⟩
  rw [find?_actionAnswer, hfind, Option.map_some, hsame]

theorem recorded_answer (h : Recorded w.actions id jobId)
    (hc : ∀ jobId, c ≠ .recordJob id jobId) :
    Recorded (actionAnswer Q c w).2.actions id jobId := by
  obtain ⟨row, hfind, hstatus, hjob⟩ := h
  have hsame : rowAfter c row = row := by
    refine rowAfter_of_settled (by simp [hstatus]) ?_
    rw [Table.key_of_find? hfind]
    exact hc
  refine ⟨row, ?_, hstatus, hjob⟩
  rw [find?_actionAnswer, hfind, Option.map_some, hsame]

/-- The write of the job. -/
theorem recorded_of_recordJob (jobId : Uuid) (h : Unrecorded w.actions terms) :
    Recorded (actionAnswer Q (.recordJob terms.id jobId) w).2.actions terms.id
      jobId := by
  obtain ⟨row, hfind, hterms, hstatus, _⟩ := h
  refine ⟨{ row with resultingJobId := some jobId }, ?_, hstatus, rfl⟩
  rw [find?_actionAnswer, hfind, Option.map_some, ← id_of_terms hterms,
    rowAfter_record]

/-- The `UPDATE` of the winner. -/
theorem unrecorded_of_confirmAction {row : PendingAction} {now : DateTime}
    (hw : PendingUnrecorded w.actions) (hterms : Current w.actions terms)
    (hfind : w.actions.find? terms.id = some row)
    (hrow : row.confirmable terms.id now = true) :
    Unrecorded (actionAnswer Q (.confirmAction terms.id now) w).2.actions
      terms := by
  obtain ⟨row', hfind', hterms'⟩ := hterms
  rw [hfind] at hfind'
  cases hfind'
  have hstatus : row.status = .pending := by
    simp only [PendingAction.confirmable, Bool.and_eq_true,
      decide_eq_true_eq] at hrow
    exact hrow.1.2
  refine ⟨{ row with status := .confirmed, consumedAt := some now }, ?_, hterms',
    rfl, hw _ row hfind hstatus⟩
  rw [find?_actionAnswer, hfind, Option.map_some, rowAfter, if_pos hrow]

/-- An action that has a job is not without one. -/
theorem not_unrecorded_of_recorded {actions : ActionTable}
    (h : Recorded actions terms.id jobId) : ¬ Unrecorded actions terms := by
  rintro ⟨row, hfind, _, _, hnone⟩
  obtain ⟨row', hfind', _, hsome⟩ := h
  rw [hfind] at hfind'
  cases hfind'
  rw [hnone] at hsome
  cases hsome

/-- Pending rows get no job, as jobs are written to confirmed ones. -/
theorem pendingUnrecorded_answer (hw : PendingUnrecorded w.actions)
    (hc : ∀ id jobId, c = .recordJob id jobId →
      ∃ terms, terms.id = id ∧ Unrecorded w.actions terms) :
    PendingUnrecorded (actionAnswer Q c w).2.actions := by
  intro id row' hfind' hstatus'
  rw [find?_actionAnswer] at hfind'
  obtain ⟨row, hfind, rfl⟩ := Option.map_eq_some_iff.mp hfind'
  have hrecord : ∀ jobId, c ≠ .recordJob row.id jobId := by
    rintro jobId rfl
    obtain ⟨terms, hid, row', hrow', _, hconfirmed, _⟩ := hc _ _ rfl
    rw [hid, Table.key_of_find? hfind, hfind] at hrow'
    cases hrow'
    rw [status_rowAfter (by simp [hconfirmed]), hconfirmed] at hstatus'
    cases hstatus'
  have hsame : rowAfter c row = row := of_rowAfter_pending hrecord hstatus'
  rw [hsame] at hstatus' ⊢
  exact hw id row hfind hstatus'

/-- What the next call of a request does. -/
theorem actionAt_answer {next : c.Answer → ActionProgram}
    (hw : PendingUnrecorded w.actions)
    (h : ActionAt host settings w.actions t (.call c next)) :
    ActionAt host settings (actionAnswer Q c w).2.actions t
      (next (actionAnswer Q c w).1) := by
  cases h with
  | clock =>
      show ActionAt host settings w.actions t (afterClock host settings t w.now)
      unfold afterClock
      cases hid : t.actionId with
      | none => exact actionAt_error
      | some id => exact .reading id w.now hid
  | reading id now hid =>
      show ActionAt host settings w.actions t
        (afterSnapshot host settings t now (w.actions.find? id))
      rcases afterSnapshot_cases host settings t (w.actions.find? id) now with
        ⟨row, hfind, howner, hp⟩ | hends
      · have hrow := Table.key_of_find? hfind
        rw [hp]
        refine .updating row now (by rw [hid, hrow]) howner ⟨row, ?_, rfl⟩
        rw [← hfind, ← hrow]
        rfl
      · exact actionAt_replaying hid hends
  | updating row now hid howner hterms =>
      show ActionAt host settings (actionAnswer Q (.confirmAction row.id now)
        w).2.actions t (afterUpdate host settings t row now _)
      unfold afterUpdate
      split
      · rename_i hcount
        obtain ⟨row', hfind, hrow⟩ := confirmable_of_rowcount (Q := Q) hcount
        have hunrecorded : Unrecorded (actionAnswer Q
            (.confirmAction row.id now) w).2.actions row.terms :=
          unrecorded_of_confirmAction hw hterms hfind hrow
        -- the session's row differs from the one before in two columns
        exact actionAt_afterConfirmed hid howner hunrecorded
      · exact .lost row.id hid
  | lost id hid => exact actionAt_replaying hid (afterLost_ends _)
  | admitting row workflowName c next hid howner hrow hstage =>
      exact actionAt_admitting hid howner hrow (stage_next hstage _)
  | recording row result hid hrow =>
      refine .ended _ (fun out hout => ?_)
      exact ⟨row.id, result.id, hid, recorded_of_recordJob result.id hrow,
        admittedResponse_names hout⟩
  | cancelling p hleads =>
      cases hleads with
      | leaf hleaf =>
          obtain ⟨o, ho, _⟩ := hleaf
          cases ho
      | call _ hnext => exact .cancelling _ (hnext _)

/-- A request stays where it is while others make their calls, unless one of
them writes a job to its action. -/
theorem actionAt_frame (h : ActionAt host settings w.actions t p)
    (hc : ∀ id jobId, c = .recordJob id jobId → t.actionId = some id →
      (∃ terms, terms.id = id ∧ Unrecorded w.actions terms) ∧
        ¬ Winning id ⟨t, p⟩) :
    ActionAt host settings (actionAnswer Q c w).2.actions t p := by
  cases h with
  | clock => exact .clock
  | reading id now hid => exact .reading id now hid
  | updating row now hid howner hterms =>
      exact .updating row now hid howner (current_answer c hterms)
  | lost id hid => exact .lost id hid
  | admitting row workflowName c' next hid howner hrow hstage =>
      refine .admitting row workflowName c' next hid howner
        (unrecorded_answer hrow ?_) hstage
      intro jobId hrecord
      exact (hc _ jobId hrecord hid).2 ⟨hid, _, _, rfl, trivial⟩
  | recording row result hid hrow =>
      refine .recording row result hid (unrecorded_answer hrow ?_)
      intro jobId hrecord
      exact (hc _ jobId hrecord hid).2 ⟨hid, _, _, rfl, trivial⟩
  | cancelling p hleads => exact .cancelling p hleads
  | ended o hnames =>
      refine .ended o (fun out hout => ?_)
      obtain ⟨id, jobId, hid, hrecorded, hjob⟩ := hnames out hout
      refine ⟨id, jobId, hid, recorded_answer hrecorded ?_, hjob⟩
      intro jobId' hrecord
      obtain ⟨⟨terms, rfl, hunrecorded⟩, _⟩ := hc id jobId' hrecord hid
      exact not_unrecorded_of_recorded hrecorded hunrecorded

/-! ### Winners -/

theorem not_winning_done {o : ActionOutcome} : ¬ Winning id ⟨t, .done o⟩ := by
  rintro ⟨_, c, next, hp, _⟩
  cases hp

theorem not_winning_call {next : c.Answer → ActionProgram}
    (hc : ¬ c.isWinners) : ¬ Winning id ⟨t, .call c next⟩ := by
  rintro ⟨_, c', next', hp, hc'⟩
  cases hp
  exact hc hc'

theorem not_winning_of_ends {found : Option PendingAction}
    (h : EndsReplaying host found p) : ¬ Winning id ⟨t, p⟩ := by
  rcases h with ⟨_, _, _, _, _, rfl⟩ | ⟨_, rfl⟩
  · exact not_winning_done
  · exact not_winning_done

/-- A request wins its action by the `UPDATE` that confirms it. -/
theorem winning_answer {next : c.Answer → ActionProgram}
    (h : ActionAt host settings w.actions t (.call c next))
    (hwins : Winning id ⟨t, next (actionAnswer Q c w).1⟩) :
    Winning id ⟨t, .call c next⟩ ∨ ∃ now row, c = .confirmAction id now ∧
      w.actions.find? id = some row ∧ row.confirmable id now = true := by
  have htask : t.actionId = some id := hwins.1
  cases h with
  | clock =>
      have hclock : Winning id ⟨t, afterClock host settings t w.now⟩ := hwins
      unfold afterClock at hclock
      rw [htask] at hclock
      exact absurd hclock (not_winning_call not_false)
  | reading i now hid =>
      have hsnapshot : Winning id ⟨t, afterSnapshot host settings t now
        (w.actions.find? i)⟩ := hwins
      rcases afterSnapshot_cases host settings t (w.actions.find? i) now with
        ⟨row, _, _, hp⟩ | hends
      · rw [hp] at hsnapshot
        exact absurd hsnapshot (not_winning_call not_false)
      · exact absurd hsnapshot (not_winning_of_ends hends)
  | updating row now hid howner hterms =>
      have hupdate : Winning id ⟨t, afterUpdate host settings t row now
        (actionAnswer Q (.confirmAction row.id now) w).1⟩ := hwins
      unfold afterUpdate at hupdate
      split at hupdate
      · rename_i hcount
        right
        obtain ⟨row', hfind, hrow⟩ := confirmable_of_rowcount (Q := Q) hcount
        rw [hid] at htask
        cases htask
        exact ⟨now, row', rfl, hfind, hrow⟩
      · exact absurd hupdate (not_winning_call not_false)
  | lost i hid =>
      exact absurd hwins (not_winning_of_ends (afterLost_ends (w.actions.find? i)))
  | admitting row workflowName c' next' hid howner hrow hstage =>
      exact .inl ⟨htask, _, _, rfl, trivial⟩
  | recording row result hid hrow => exact .inl ⟨htask, _, _, rfl, trivial⟩
  | cancelling p hleads =>
      cases hleads with
      | leaf hleaf =>
          obtain ⟨o, ho, _⟩ := hleaf
          cases ho
      | call _ hnext =>
          obtain ⟨_, c', next', hp, hc'⟩ := hwins
          have hcall := hnext (actionAnswer Q c w).1
          rw [show next (actionAnswer Q c w).1 = .call c' next' from hp] at hcall
          exact absurd hcall (not_leads_of_isWinners hc')

theorem ne_call_of_ends {found : Option PendingAction}
    {next : c.Answer → ActionProgram} (h : EndsReplaying host found p) :
    p ≠ .call c next := by
  rintro rfl
  rcases h with ⟨_, _, _, _, _, hp⟩ | ⟨_, hp⟩
  · cases hp
  · cases hp

/-- An admission under way has its job to write once it ends well. -/
theorem done_of_recordJob {row : PendingAction} {p : AdmissionProgram}
    {next : Unit → ActionProgram}
    (hp : admittingAction host row p = .call (.recordJob id jobId) next) :
    row.id = id ∧ ∃ result, p = .done (.ok result) ∧ result.id = jobId := by
  cases p with
  | call c next' => cases hp
  | done o =>
      have hafter : afterAdmission host row o = .call (.recordJob id jobId) next :=
        hp
      unfold afterAdmission at hafter
      split at hafter
      · cases hafter
        exact ⟨rfl, _, rfl, rfl⟩
      · cases hafter
      · cases hafter
      · cases hafter

theorem afterConfirmed_ne_recordJob {row : PendingAction}
    {next : Unit → ActionProgram} :
    afterConfirmed host settings t row ≠ .call (.recordJob id jobId) next := by
  intro hp
  unfold afterConfirmed at hp
  split at hp
  · cases hp
  · obtain ⟨_, result, hdone, _⟩ := done_of_recordJob hp
    unfold admitGenerationJob at hdone
    split at hdone
    · cases hdone
    · cases hdone

/-- A request comes to the write of a job by the answer that names it. -/
theorem names_of_recordJob {next : c.Answer → ActionProgram}
    {next' : Unit → ActionProgram}
    (h : ActionAt host settings w.actions t (.call c next))
    (hp : next (actionAnswer Q c w).1 = .call (.recordJob id jobId) next') :
    t.actionId = some id ∧ ∃ c', c = .queue c' ∧
      c'.names (Q.answer c' w.queue).1 = some jobId := by
  cases h with
  | clock =>
      have hclock : afterClock host settings t w.now = _ := hp
      unfold afterClock at hclock
      split at hclock
      · cases hclock
      · cases hclock
  | reading i now hid =>
      have hsnapshot : afterSnapshot host settings t now (w.actions.find? i) = _ :=
        hp
      rcases afterSnapshot_cases host settings t (w.actions.find? i) now with
        ⟨row, _, _, hcall⟩ | hends
      · rw [hcall] at hsnapshot
        cases hsnapshot
      · exact absurd hsnapshot (ne_call_of_ends hends)
  | updating row now hid howner hterms =>
      have hupdate : afterUpdate host settings t row now
        (actionAnswer Q (.confirmAction row.id now) w).1 = _ := hp
      unfold afterUpdate at hupdate
      split at hupdate
      · exact absurd hupdate afterConfirmed_ne_recordJob
      · cases hupdate
  | lost i hid =>
      exact absurd hp (ne_call_of_ends (afterLost_ends (w.actions.find? i)))
  | admitting row workflowName c' next'' hid howner hrow hstage =>
      obtain ⟨rfl, result, hdone, rfl⟩ := done_of_recordJob hp
      exact ⟨hid, c', rfl, names_of_done hstage hdone⟩
  | recording row result hid hrow => cases hp
  | cancelling p hleads =>
      cases hleads with
      | leaf hleaf =>
          obtain ⟨o, ho, _⟩ := hleaf
          cases ho
      | call _ hnext =>
          have hcall := hnext (actionAnswer Q c w).1
          rw [hp] at hcall
          exact absurd hcall
            (not_leads_of_isWinners (c := .recordJob id jobId) trivial)

theorem not_winning_start :
    ¬ Winning id ⟨t, actionRequest host settings t⟩ := by
  unfold actionRequest
  split
  · rintro ⟨_, c, next, hp, hc⟩
    have hleads : Program.Leads ActionCall.cancels EndsUnconfirmed
      (cancelPendingAction host t) := leads_cancelPendingAction
    rw [show cancelPendingAction host t = .call c next from hp] at hleads
    exact not_leads_of_isWinners hc hleads
  · exact not_winning_call not_false

theorem actionRequest_ne_recordJob (next : Unit → ActionProgram) :
    actionRequest host settings t ≠ .call (.recordJob id jobId) next := by
  intro hp
  have hstart : ActionAt host settings Table.empty t
    (actionRequest host settings t) := actionAt_start
  rw [hp] at hstart
  have hwins : Winning id ⟨t, actionRequest host settings t⟩ :=
    ⟨(unrecorded_of_recordJob hstart).1, _, _, hp, trivial⟩
  exact not_winning_start hwins

end Calls

end Imagin4.Ports
