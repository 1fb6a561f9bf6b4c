import Imagin4.Ports.ActionConfirmations

/-!
# Confirming an action again

A confirmation commits its `UPDATE` before it admits the job, so it can stop, with
the action confirmed and no job written to it: the admission fails, or the process
dies.  The idempotency key of the admission is there for the owner to confirm
again; but the eligibility check turns the second request away before it gets to
the admission.

## Main results

* `abandoned_run` — once the request that confirmed an action makes no further
  call, nothing gives the action a job.
* `refusedForGood_run` — from then on the owner is refused, whatever anyone else
  does and whatever an admission would come to.
-/

namespace Imagin4.Ports

open Imagin4.Verified

section Retries

variable {σ : Type} [JobQueue σ] (Q : AdmissionQueue σ) (host : AdmissionHost)
  (settings : Settings)

/-- The request confirms this action. -/
def ActionRequest.ConfirmsFor (t : ActionRequest) (id userId : Uuid) : Prop :=
  t.cancels = false ∧ t.actionId = some id ∧ t.userId = userId

/-- The next call of the request confirms the action, whose row is this. -/
def Confirms (id : Uuid) (n : Nat) (row : PendingAction) (s : ActionRequests σ) :
    Prop :=
  ∃ t now next, s.at? n = some ⟨t, .call (.confirmAction id now) next⟩ ∧
    s.shared.actions.find? id = some row ∧ row.confirmable id now = true

/-- The answer to an action that is confirmed and has no job. -/
def alreadyConfirmed : ActionOutcome :=
  .error (.http 409 "pending action already confirmed")

/-- The action has been confirmed, has no job, and nobody but one request, which
may have ended, is to give it one. -/
structure Abandoned (id : Uuid) (n : Nat) (userId : Uuid)
    (s : ActionRequests σ) : Prop where
  row : ∃ row, s.shared.actions.find? id = some row ∧ row.userId = userId ∧
    row.status = .confirmed ∧ row.resultingJobId = none
  winner : ∀ m x, s.at? m = some x → Winning id x → m = n

/-- Where a confirmation can be that was started on an abandoned action. -/
inductive RefusedAt (id : Uuid) (t : ActionRequest) : ActionProgram → Prop where
  | clock : RefusedAt id t (.call .clock (afterClock host settings t))
  | reading (now : DateTime) : RefusedAt id t
      (.call (.readAction id) (afterSnapshot host settings t now))
  | refused : RefusedAt id t (.done alreadyConfirmed)

/-- Every confirmation by the owner that was started after the first `N` requests
is on its way to being refused. -/
def LaterRefused (id userId : Uuid) (N : Nat) (s : ActionRequests σ) : Prop :=
  ∀ m x, N ≤ m → s.at? m = some x → x.task.ConfirmsFor id userId →
    RefusedAt host settings id x.task x.program

variable {Q host settings} {s s' : ActionRequests σ} {a : ActionStep}
  {id userId : Uuid} {n N : Nat} {t : ActionRequest} {row : PendingAction}

theorem afterSnapshot_abandoned {now : DateTime}
    (howner : row.userId = t.userId) (hstatus : row.status = .confirmed)
    (hjob : row.resultingJobId = none) :
    afterSnapshot host settings t now (some row) = .done alreadyConfirmed := by
  unfold afterSnapshot
  rw [← howner, evaluateConfirmation_confirmed hstatus]
  dsimp only
  rw [hjob]
  rfl

/-- A confirmation that is served alone is refused. -/
theorem run_abandoned {w : ActionWorld σ} (ht : t.ConfirmsFor id row.userId)
    (hfind : w.actions.find? id = some row) (hstatus : row.status = .confirmed)
    (hjob : row.resultingJobId = none) :
    (actionRequest host settings t).run (actionAnswer Q) w =
      (alreadyConfirmed, w) := by
  obtain ⟨hconfirms, hid, howner⟩ := ht
  have hafter : afterSnapshot host settings t w.now (some row) =
      .done alreadyConfirmed := afterSnapshot_abandoned howner.symm hstatus hjob
  unfold actionRequest confirmPendingAction
  rw [hconfirms]
  show (afterClock host settings t w.now).run (actionAnswer Q) w = _
  unfold afterClock
  rw [hid]
  show (afterSnapshot host settings t w.now (w.actions.find? id)).run
    (actionAnswer Q) w = _
  rw [hfind, hafter]
  rfl

/-- The request that confirms an action is alone to win it. -/
theorem abandoned_of_confirms (hs : ActionInvariants host settings s)
    (h : Confirms id n row s)
    (hstep : (actionRequests Q host settings).step s (.advance n) = some s') :
    Abandoned id n row.userId s' := by
  obtain ⟨t, now, next, hn, hfind, hrow⟩ := h
  have hpending : row.status = .pending := by
    simp only [PendingAction.confirmable, Bool.and_eq_true,
      decide_eq_true_eq] at hrow
    exact hrow.1.2
  rw [step_advance hn] at hstep
  cases hstep
  constructor
  · refine ⟨{ row with status := .confirmed, consumedAt := some now }, ?_, rfl, rfl,
      hs.shared id row hfind hpending⟩
    dsimp only
    rw [find?_actionAnswer, hfind, Option.map_some, rowAfter, if_pos hrow]
  · intro m x hx hwins
    rcases at?_set hx with ⟨rfl, _⟩ | ⟨_, hold⟩
    · rfl
    · obtain ⟨terms, rfl, row', hfind', _, hstatus, _⟩ :=
        unrecorded_of_winning hs hold hwins
      rw [hfind] at hfind'
      cases hfind'
      rw [hpending] at hstatus
      cases hstatus

/-- As long as it has no job, an action stays abandoned. -/
theorem abandoned_step (hs : ActionInvariants host settings s)
    (h : Abandoned id n userId s)
    (hjob : ∀ row, s'.shared.actions.find? id = some row →
      row.resultingJobId = none)
    (hstep : (actionRequests Q host settings).step s a = some s') :
    Abandoned id n userId s' := by
  obtain ⟨row, hfind, howner, hstatus, _⟩ := h.row
  have hsettled : row.status ≠ .pending := by simp [hstatus]
  obtain ⟨row', hfind', hterms, hstatus'⟩ := keepsRow_step hstep row hfind
  have howner' : row'.userId = row.userId := congrArg ActionTerms.userId hterms
  constructor
  · exact ⟨row', hfind', by rw [howner', howner],
      by rw [hstatus' hsettled, hstatus], hjob row' hfind'⟩
  · intro m x hx hwins
    cases clientStepped hstep with
    | start task =>
        rcases at?_append hx with hx | ⟨_, rfl⟩
        · exact h.winner m x hx hwins
        · exact absurd hwins not_winning_start
    | environment e => exact h.winner m x hx hwins
    | advance k task c next hk =>
        rcases at?_set hx with ⟨rfl, rfl⟩ | ⟨_, hold⟩
        · rcases winning_answer (hs.each _ _ hk) hwins with
            hbefore | ⟨now, row'', _, hfind'', hrow⟩
          · exact h.winner m _ hk hbefore
          · rw [hfind] at hfind''
            cases hfind''
            simp [PendingAction.confirmable, hstatus] at hrow
        · exact h.winner m x hold hwins

/-- Nobody but that request writes a job to an abandoned action. -/
theorem unrecorded_of_ne (hs : ActionInvariants host settings s)
    (h : Abandoned id n userId s) (hne : a ≠ .advance n)
    (hstep : (actionRequests Q host settings).step s a = some s') :
    ∀ row, s'.shared.actions.find? id = some row → row.resultingJobId = none := by
  intro row' hfind'
  obtain ⟨row, hfind, _, hstatus, hjob⟩ := h.row
  have hsame : s'.shared.actions.find? id = s.shared.actions.find? id := by
    cases clientStepped hstep with
    | start task => rfl
    | environment e =>
        dsimp only
        rw [actions_actionEvent]
    | advance k task c next hk =>
        have hrecord : ∀ jobId, c ≠ .recordJob row.id jobId := by
          rintro jobId rfl
          rw [Table.key_of_find? hfind] at hk
          have hwins : Winning id ⟨task, .call (.recordJob id jobId) next⟩ :=
            ⟨(unrecorded_of_recordJob (hs.each k _ hk)).1, _, _, rfl, trivial⟩
          exact hne (by rw [h.winner k _ hk hwins])
        dsimp only
        rw [find?_actionAnswer, hfind, Option.map_some,
          rowAfter_of_settled (by simp [hstatus]) hrecord]
  rw [hsame, hfind] at hfind'
  cases hfind'
  exact hjob

/-- A later confirmation comes closer to its refusal. -/
theorem laterRefused_step (h : Abandoned id n userId s)
    (hlater : LaterRefused host settings id userId N s)
    (hstep : (actionRequests Q host settings).step s a = some s') :
    LaterRefused host settings id userId N s' := by
  obtain ⟨row, hfind, howner, hstatus, hjob⟩ := h.row
  intro m x hN hx hconfirms
  cases clientStepped hstep with
  | start task =>
      rcases at?_append hx with hx | ⟨_, rfl⟩
      · exact hlater m x hN hx hconfirms
      · unfold actionRequest
        rw [hconfirms.1]
        exact .clock
  | environment e => exact hlater m x hN hx hconfirms
  | advance k task c next hk =>
      rcases at?_set hx with ⟨rfl, rfl⟩ | ⟨_, hold⟩
      · have hbefore : RefusedAt host settings id task (.call c next) :=
          hlater m _ hN hk hconfirms
        obtain ⟨_, hid, huser⟩ := hconfirms
        dsimp only at hid huser
        cases hbefore with
        | clock =>
            show RefusedAt host settings id task
              (afterClock host settings task s.shared.now)
            unfold afterClock
            rw [hid]
            exact .reading s.shared.now
        | reading now =>
            show RefusedAt host settings id task (afterSnapshot host settings task
              now (s.shared.actions.find? id))
            rw [hfind, afterSnapshot_abandoned (by rw [howner, huser]) hstatus hjob]
            exact .refused
      · exact hlater m x hN hold hconfirms

/-- Once its request makes no further call, an action stays abandoned, and its owner
is refused. -/
theorem abandoned_run {as : List ActionStep}
    (hs : OneWinner s ∧ ActionInvariants host settings s)
    (h : Abandoned id n userId s) (hlater : LaterRefused host settings id userId N s)
    (hstop : .advance n ∉ as)
    (hrun : (actionRequests Q host settings).exec s as = some s') :
    Abandoned id n userId s' ∧ LaterRefused host settings id userId N s' := by
  induction as generalizing s with
  | nil =>
      obtain rfl : s = s' := by simpa using hrun
      exact ⟨h, hlater⟩
  | cons a as ih =>
      obtain ⟨r, hstep, hrest⟩ := Machine.exec_cons_eq_some _ |>.mp hrun
      have hne : a ≠ .advance n := by
        rintro rfl
        exact hstop List.mem_cons_self
      have hr := actionInvariants_step hs hstep
      exact ih hr (abandoned_step hs.2 h (unrecorded_of_ne hs.2 h hne hstep) hstep)
        (laterRefused_step h hlater hstep)
        (fun hmem => hstop (List.mem_cons_of_mem a hmem)) hrest

/-- A job that is missing at the end of a run has been missing before. -/
theorem unrecorded_before {as : List ActionStep}
    (hs : OneWinner s ∧ ActionInvariants host settings s)
    (h : ∃ row, s.shared.actions.find? id = some row ∧ row.status = .confirmed)
    (hrun : (actionRequests Q host settings).exec s as = some s')
    (hjob : ∀ row, s'.shared.actions.find? id = some row →
      row.resultingJobId = none) :
    ∀ row, s.shared.actions.find? id = some row → row.resultingJobId = none := by
  intro row hfind
  obtain ⟨row', hfind', hstatus⟩ := h
  rw [hfind] at hfind'
  cases hfind'
  cases hrow : row.resultingJobId with
  | none => rfl
  | some jobId =>
      have hend := Machine.invariant (M := actionRequests Q host settings)
        (C := fun _ _ => True) (I := fun s => (OneWinner s ∧
          ActionInvariants host settings s) ∧ Recorded s.shared.actions id jobId) ?_
        ⟨hs, row, hfind, hstatus, hrow⟩
        (Machine.along_of_split hrun (fun _ _ _ _ _ _ => trivial)) hrun
      · obtain ⟨row', hfind', _, hrow'⟩ := hend.2
        rw [hjob row' hfind'] at hrow'
        cases hrow'
      · intro s a s' hs _ hstep
        exact ⟨actionInvariants_step hs.1 hstep, recorded_step hs.1.2 hs.2 hstep⟩

/-- An action that a request has confirmed is abandoned as long as it has no job. -/
theorem abandoned_of_unrecorded {as : List ActionStep}
    (hs : OneWinner s ∧ ActionInvariants host settings s)
    (h : Abandoned id n userId s)
    (hrun : (actionRequests Q host settings).exec s as = some s')
    (hjob : ∀ row, s'.shared.actions.find? id = some row →
      row.resultingJobId = none) :
    Abandoned id n userId s' := by
  induction as generalizing s with
  | nil =>
      obtain rfl : s = s' := by simpa using hrun
      exact h
  | cons a as ih =>
      obtain ⟨r, hstep, hrest⟩ := Machine.exec_cons_eq_some _ |>.mp hrun
      have hr := actionInvariants_step hs hstep
      obtain ⟨row, hfind, _, hstatus, _⟩ := h.row
      obtain ⟨row', hfind', _, hstatus'⟩ := keepsRow_step hstep row hfind
      have hconfirmed : row'.status = .confirmed := by
        rw [hstatus' (by simp [hstatus]), hstatus]
      exact ih hr (abandoned_step hs.2 h
        (unrecorded_before hr ⟨row', hfind', hconfirmed⟩ hrest hjob) hstep) hrest

variable (Q host settings) in
/-- The owner of an action is refused from this state on: now, by a request that is
served alone, and later, whatever happens, as long as this request makes no further
call.  The action never gets a job. -/
structure RefusedForGood (id : Uuid) (n : Nat) (userId : Uuid)
    (s : ActionRequests σ) : Prop where
  now : ∀ t, t.ConfirmsFor id userId →
    (actionRequest host settings t).run (actionAnswer Q) s.shared =
      (alreadyConfirmed, s.shared)
  later : ∀ as s', .advance n ∉ as →
    (actionRequests Q host settings).exec s as = some s' →
    ∀ m t, s.clients.length ≤ m → t.ConfirmsFor id userId →
      (∀ o, s'.at? m = some ⟨t, .done o⟩ → o = alreadyConfirmed) ∧
      ∀ c next, s'.at? m ≠ some ⟨t, .call (.queue c) next⟩
  never : ∀ as s', .advance n ∉ as →
    (actionRequests Q host settings).exec s as = some s' →
    ∃ row, s'.shared.actions.find? id = some row ∧ row.status = .confirmed ∧
      row.resultingJobId = none

/-- **No second try.**  In every run in which a request confirms an action and stops
before the action has a job. -/
theorem refusedForGood_run (id : Uuid) (n : Nat) (row : PendingAction)
    (w : ActionWorld σ)
    (hw : ∀ row ∈ w.actions.rows, row.status = .pending →
      row.resultingJobId = none)
    (pre mid : List ActionStep) (r s : ActionRequests σ)
    (hpre : (actionRequests Q host settings).exec (.init w) pre = some r)
    (hconfirms : Confirms id n row r)
    (hrun : (actionRequests Q host settings).exec (.init w)
      (pre ++ .advance n :: mid) = some s)
    (hstop : ∀ row, s.shared.actions.find? id = some row →
      row.resultingJobId = none) :
    RefusedForGood Q host settings id n row.userId s := by
  have hpending : PendingUnrecorded w.actions :=
    fun id row hfind => hw row (Table.find?_eq_some_iff.mp hfind).1
  obtain ⟨r₀, hpre₀, hrest⟩ := Machine.exec_append_eq_some _ |>.mp hrun
  rw [hpre] at hpre₀
  cases hpre₀
  obtain ⟨q, hstep, hmid⟩ := Machine.exec_cons_eq_some _ |>.mp hrest
  have hr := actionInvariants_run hpending hpre
  have hq := actionInvariants_step hr hstep
  have hs := actionInvariants_run hpending hrun
  have habandoned : Abandoned id n row.userId s :=
    abandoned_of_unrecorded hq (abandoned_of_confirms hr.2 hconfirms hstep) hmid hstop
  have hnone : LaterRefused host settings id row.userId s.clients.length s := by
    intro m x hm hx
    obtain ⟨hlt, _⟩ := List.getElem?_eq_some_iff.mp hx
    omega
  obtain ⟨row', hfind, howner, hstatus, hjob⟩ := habandoned.row
  constructor
  · intro t ht
    rw [← howner] at ht
    exact run_abandoned ht hfind hstatus hjob
  · intro as s' hnot hexec m t hm ht
    obtain ⟨_, hlater⟩ := abandoned_run hs habandoned hnone hnot hexec
    constructor
    · intro o ho
      have hrefused := hlater m _ hm ho ht
      cases hrefused with
      | refused => rfl
    · intro c next hcall
      have hrefused := hlater m _ hm hcall ht
      cases hrefused
  · intro as s' hnot hexec
    obtain ⟨hend, _⟩ := abandoned_run hs habandoned hnone hnot hexec
    obtain ⟨row'', hfind'', _, hstatus'', hjob''⟩ := hend.row
    exact ⟨row'', hfind'', hstatus'', hjob''⟩

variable (Q host settings) in
/-- The action can be confirmed again: the owner gets the job by a confirmation that
is made before the action expires and whose admission would succeed. -/
def Recovers (id : Uuid) (row : PendingAction) (s : ActionRequests σ) : Prop :=
  ∀ t workflowName result, t.ConfirmsFor id row.userId →
    s.shared.now < row.expiresAt →
    workflowForActionType row.actionType = some workflowName →
    ((admitGenerationJob host settings (t.admission row workflowName)).run Q.answer
      s.shared.queue).1 = .ok result →
    ∃ out, ((actionRequest host settings t).run (actionAnswer Q) s.shared).1 =
      .ok (.confirmed out)

end Retries

/-! ## Runs -/

/-- A confirmation, up to its `UPDATE`. -/
def posterUpdate : List ActionStep :=
  [.start (posterConfirmed 1), .advance 0, .advance 0]

/-- The process dies after the `UPDATE`, with time left and an empty queue. -/
theorem exec_posterUpdate : ∃ r s,
    (actionRequests InMemoryJobQueue.admissionQueue plainHost {}).exec
      (.init posterWaits) posterUpdate = some r ∧
    Confirms 4 0 posterAction r ∧
    (actionRequests InMemoryJobQueue.admissionQueue plainHost {}).exec
      (.init posterWaits) (posterUpdate ++ [.advance 0]) = some s ∧
    (s.shared.actions.find? 4).map PendingAction.resultingJobId = some none ∧
    s.shared.now = 0 ∧ s.shared.queue = .empty :=
  ⟨_, _, rfl, ⟨_, 0, _, rfl, rfl, rfl⟩, rfl, rfl, rfl, rfl⟩

theorem refusedForGood_run_crash : ∃ s,
    (actionRequests InMemoryJobQueue.admissionQueue plainHost {}).exec
      (.init posterWaits) (posterUpdate ++ [.advance 0]) = some s ∧
    RefusedForGood InMemoryJobQueue.admissionQueue plainHost {} 4 0 7 s := by
  obtain ⟨r, s, hpre, hconfirms, hrun, hjob, _⟩ := exec_posterUpdate
  refine ⟨s, hrun, refusedForGood_run 4 0 posterAction posterWaits ?_ posterUpdate []
    r s hpre hconfirms hrun ?_⟩
  · intro row hrow _
    rw [List.mem_singleton.mp hrow]
    rfl
  · intro row hfind
    rw [hfind] at hjob
    exact Option.some.inj hjob

/-- The owner confirms again in time, and the admission would succeed. -/
theorem not_recovers : ∃ s,
    (actionRequests InMemoryJobQueue.admissionQueue plainHost {}).exec
      (.init posterWaits) (posterUpdate ++ [.advance 0]) = some s ∧
    ¬ Recovers InMemoryJobQueue.admissionQueue plainHost {} 4 posterAction s := by
  refine ⟨_, rfl, fun h => ?_⟩
  obtain ⟨out, hout⟩ := h (posterConfirmed 2) "poster_infographic" _
    ⟨rfl, rfl, rfl⟩ (by decide) rfl rfl
  cases hout

end Imagin4.Ports
