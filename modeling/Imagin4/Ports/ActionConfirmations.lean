import Imagin4.Ports.ActionPlaces

/-!
# Requests that race for an action

Any number of requests confirm and cancel pending actions at once.  The
conditional `UPDATE` makes one of them the winner of its action.

## Main results

* `oneWinner_step` — an action has at most one winner at a time.
* `action_rule` — where the requests can be, relative to the rows.
* `usedOnce_run` — one job, created for the owner once the action is confirmed
  in time, and named by every success, in the runs in which the `UPDATE`s are
  made in time.
-/

namespace Imagin4.Ports

open Imagin4.Verified

/-! ## Any number of requests -/

section Requests

variable {σ : Type} [JobQueue σ] (Q : AdmissionQueue σ) (host : AdmissionHost)
  (settings : Settings)

/-- An action has at most one winner. -/
def OneWinner (s : ActionRequests σ) : Prop :=
  ∀ id m n x y, s.at? m = some x → s.at? n = some y → Winning id x →
    Winning id y → m = n

/-- The requests are where they can be. -/
abbrev ActionInvariants : ActionRequests σ → Prop :=
  ClientInvariants (fun w => PendingUnrecorded w.actions)
    (fun w x => ActionAt host settings w.actions x.task x.program)

variable {Q host settings} {s s' : ActionRequests σ} {a : ActionStep}
  {id jobId : Uuid}

omit [JobQueue σ] in
/-- The action of a winner is confirmed, and has no job. -/
theorem unrecorded_of_winning {n : Nat} {x : ActionClient}
    (hs : ActionInvariants host settings s) (hn : s.at? n = some x)
    (h : Winning id x) :
    ∃ terms, terms.id = id ∧ Unrecorded s.shared.actions terms := by
  obtain ⟨hid, c, next, hp, hc⟩ := h
  have hx := hs.each n x hn
  rw [hp] at hx
  obtain ⟨terms, hterms, hrow⟩ := unrecorded_of_isWinners hx hc
  rw [hid] at hterms
  exact ⟨terms, (Option.some.inj hterms).symm, hrow⟩

theorem oneWinner_step (hs : OneWinner s) (hat : ActionInvariants host settings s)
    (h : (actionRequests Q host settings).step s a = some s') : OneWinner s' := by
  cases clientStepped h with
  | start task =>
      -- a request that starts has won nothing
      have hold : ∀ {id : Uuid} {m : Nat} {x : ActionClient},
          Clients.at? { s with clients := s.clients ++
            [⟨task, actionRequest host settings task⟩] } m = some x →
          Winning id x → s.at? m = some x := by
        intro id m x hx hwin
        rcases at?_append hx with hx | ⟨_, rfl⟩
        · exact hx
        · exact absurd hwin not_winning_start
      intro id m n x y hx hy hxwin hywin
      exact hs id m n x y (hold hx hxwin) (hold hy hywin) hxwin hywin
  | advance k task c next hk =>
      -- who has won after the step had won before, or wins now; then no other has
      have hold : ∀ {id : Uuid} {m : Nat} {x : ActionClient},
          Clients.at? ⟨(actionAnswer Q c s.shared).2, s.clients.set k
            ⟨task, next (actionAnswer Q c s.shared).1⟩⟩ m = some x →
          Winning id x → (∃ x', s.at? m = some x' ∧ Winning id x') ∨
            m = k ∧ ∀ n y, s.at? n = some y → ¬ Winning id y := by
        intro id m x hx hwin
        rcases at?_set hx with ⟨rfl, rfl⟩ | ⟨_, hx⟩
        · rcases winning_answer (hat.each _ _ hk) hwin with
            hwin | ⟨now, row, _, hfind, hrow⟩
          · exact .inl ⟨_, hk, hwin⟩
          · refine .inr ⟨rfl, fun n y hy hywin => ?_⟩
            obtain ⟨terms, rfl, row', hfind', _, hconfirmed, _⟩ :=
              unrecorded_of_winning hat hy hywin
            rw [hfind] at hfind'
            cases hfind'
            simp [PendingAction.confirmable, hconfirmed] at hrow
        · exact .inl ⟨x, hx, hwin⟩
      intro id m n x y hx hy hxwin hywin
      rcases hold hx hxwin with ⟨x', hx', hxwin'⟩ | ⟨rfl, hnone⟩
      · rcases hold hy hywin with ⟨y', hy', hywin'⟩ | ⟨rfl, hnone⟩
        · exact hs id m n x' y' hx' hy' hxwin' hywin'
        · exact absurd hxwin' (hnone m x' hx')
      · rcases hold hy hywin with ⟨y', hy', hywin'⟩ | ⟨rfl, _⟩
        · exact absurd hywin' (hnone n y' hy')
        · rfl
  | environment e => exact hs

/-- What holds of the requests and the rows. -/
theorem action_rule : ClientRule (actionRequest host settings) (actionAnswer Q)
    (actionEvent Q) (fun s _ => OneWinner s)
    (fun w => PendingUnrecorded w.actions)
    (fun w x => ActionAt host settings w.actions x.task x.program) where
  start _ _ := actionAt_start
  advance {s n task c next} hs _ hn := by
    have hx := hs.each n _ hn
    refine ⟨pendingUnrecorded_answer hs.shared ?_, actionAt_answer hs.shared hx⟩
    rintro id jobId rfl
    exact (unrecorded_of_recordJob hx).2
  frame {s n m task c next y} hs hone hn hne hm := by
    refine actionAt_frame (hs.each m y hm) ?_
    rintro id jobId rfl hid
    obtain ⟨htask, hrow⟩ := unrecorded_of_recordJob (hs.each n _ hn)
    refine ⟨hrow, fun hwin => hne ?_⟩
    exact hone id m n y _ hm hn hwin ⟨htask, _, _, rfl, trivial⟩
  environment {s e} hs _ := by
    rw [actions_actionEvent]
    exact ⟨hs.shared, hs.each⟩

/-- What every step keeps. -/
theorem actionInvariants_step (hs : OneWinner s ∧ ActionInvariants host settings s)
    (hstep : (actionRequests Q host settings).step s a = some s') :
    OneWinner s' ∧ ActionInvariants host settings s' :=
  ⟨oneWinner_step hs.1 hs.2 hstep,
    (action_rule (Q := Q)).step hs.2 hs.1 hstep⟩

/-! ### The rows in a run -/

/-- What the row of an action keeps: what it is about and, once it is not pending,
its status. -/
def KeepsRow (id : Uuid) (s s' : ActionRequests σ) : Prop :=
  ∀ row, s.shared.actions.find? id = some row →
    ∃ row', s'.shared.actions.find? id = some row' ∧ row'.terms = row.terms ∧
      (row.status ≠ .pending → row'.status = row.status)

theorem keepsRow_step
    (h : (actionRequests Q host settings).step s a = some s') :
    KeepsRow id s s' := by
  intro row hfind
  cases clientStepped h with
  | start task => exact ⟨row, hfind, rfl, fun _ => rfl⟩
  | advance k task c next hk =>
      refine ⟨rowAfter c row, ?_, terms_rowAfter c row, status_rowAfter⟩
      dsimp only
      rw [find?_actionAnswer, hfind, Option.map_some]
  | environment e =>
      refine ⟨row, ?_, rfl, fun _ => rfl⟩
      dsimp only
      rw [actions_actionEvent, hfind]

omit [JobQueue σ] in
theorem KeepsRow.trans {s'' : ActionRequests σ} (h : KeepsRow id s s')
    (h' : KeepsRow id s' s'') : KeepsRow id s s'' := by
  intro row hfind
  obtain ⟨row', hfind', hterms, hstatus⟩ := h row hfind
  obtain ⟨row'', hfind'', hterms', hstatus'⟩ := h' row' hfind'
  refine ⟨row'', hfind'', hterms'.trans hterms, fun hsettled => ?_⟩
  have hsame := hstatus hsettled
  rw [hstatus' (by rw [hsame]; exact hsettled), hsame]

/-- The row of an action over a run. -/
theorem keepsRow_run {as : List ActionStep}
    (h : (actionRequests Q host settings).exec s as = some s') :
    KeepsRow id s s' := by
  induction as generalizing s with
  | nil =>
      obtain rfl : s = s' := by simpa using h
      exact fun row hfind => ⟨row, hfind, rfl, fun _ => rfl⟩
  | cons a as ih =>
      obtain ⟨r, hstep, hrest⟩ := Machine.exec_cons_eq_some _ |>.mp h
      exact (keepsRow_step hstep).trans (ih hrest)

/-! ### The job of an action -/

variable (Q) in
/-- The request makes the queue insert this job for the action. -/
def Creates (id : Uuid) (t : ActionRequest) (job : QueuedJob)
    (s : ActionRequests σ) (a : ActionStep) : Prop :=
  ∃ n next, a = .advance n ∧
    s.at? n = some ⟨t, .call (.queue (.enqueue job)) next⟩ ∧
    t.actionId = some id ∧ (Q.answer (.enqueue job) s.shared.queue).1 = .ok ()

variable (Q) in
/-- A request for the action inserts this job, or finds it under its key. -/
def Obtains (id jobId : Uuid) (s : ActionRequests σ) (a : ActionStep) : Prop :=
  ∃ n t c next, a = .advance n ∧ s.at? n = some ⟨t, .call (.queue c) next⟩ ∧
    t.actionId = some id ∧
    c.names (Q.answer c s.shared.queue).1 = some jobId

/-- The action has this job, or its winner is about to write it. -/
def HasJob (id jobId : Uuid) (s : ActionRequests σ) : Prop :=
  (∃ n t next, s.at? n = some ⟨t, .call (.recordJob id jobId) next⟩) ∨
    Recorded s.shared.actions id jobId

/-- What is known of a request that makes the queue insert a job. -/
theorem of_creates {t : ActionRequest} {job : QueuedJob}
    (hs : ActionInvariants host settings s) (h : Creates Q id t job s a)
    (hstep : (actionRequests Q host settings).step s a = some s') :
    (∃ row, s.shared.actions.find? id = some row ∧ row.status = .confirmed ∧
      t.userId = row.userId ∧ job.userId = row.userId) ∧
    (∃ n x, s.at? n = some x ∧ Winning id x) ∧ HasJob id job.id s' := by
  obtain ⟨n, next, rfl, hn, hid, hok⟩ := h
  have hwins : Winning id ⟨t, .call (.queue (.enqueue job)) next⟩ :=
    ⟨hid, _, _, rfl, trivial⟩
  rw [step_advance hn] at hstep
  cases hstep
  cases hs.each n _ hn with
  | cancelling p hleads =>
      exact absurd hleads
        (not_leads_of_isWinners (c := .queue (.enqueue job)) trivial)
  | admitting row workflowName c next hrowid howner hrow hstage =>
      rw [hrowid] at hid
      cases hid
      obtain ⟨hkey, _, result, hnext, hresult⟩ := stage_enqueue hstage
      refine ⟨?_, ⟨n, _, hn, hwins⟩, ?_⟩
      · obtain ⟨row', hfind, hterms, hstatus, _⟩ := hrow
        have huser : row'.userId = row.userId := congrArg ActionTerms.userId hterms
        have hjob : job.userId = t.userId := congrArg Prod.fst hkey
        exact ⟨row', hfind, hstatus, by rw [huser, howner],
          by rw [hjob, huser, howner]⟩
      · have hprogram : admittingAction host row
            (next (Q.answer (.enqueue job) s.shared.queue).1) =
              .call (.recordJob row.id result.id)
                (fun _ => .done (admittedResponse host row result)) := by
          rw [hok, hnext]
          rfl
        rw [← hresult]
        refine .inl ⟨n, t, fun _ => .done (admittedResponse host row result), ?_⟩
        rw [← hprogram]
        exact at?_set_self hn

/-- What has been written to an action stays there. -/
theorem recorded_step (hs : ActionInvariants host settings s)
    (h : Recorded s.shared.actions id jobId)
    (hstep : (actionRequests Q host settings).step s a = some s') :
    Recorded s'.shared.actions id jobId := by
  cases clientStepped hstep with
  | start task => exact h
  | environment e =>
      dsimp only
      rw [actions_actionEvent]
      exact h
  | advance k task c next hk =>
      refine recorded_answer h ?_
      rintro jobId' rfl
      obtain ⟨_, terms, rfl, hrow⟩ := unrecorded_of_recordJob (hs.each k _ hk)
      exact not_unrecorded_of_recorded h hrow

/-- An action keeps its job. -/
theorem hasJob_step (hs : ActionInvariants host settings s)
    (h : HasJob id jobId s)
    (hstep : (actionRequests Q host settings).step s a = some s') :
    HasJob id jobId s' := by
  rcases h with ⟨n, t, next, hn⟩ | hrecorded
  · cases clientStepped hstep with
    | start task => exact .inl ⟨n, t, next, at?_append_of_at? hn⟩
    | environment e => exact .inl ⟨n, t, next, hn⟩
    | advance k task c next' hk =>
        by_cases hkn : n = k
        · subst hkn
          rw [hn] at hk
          cases hk
          obtain ⟨_, terms, rfl, hrow⟩ := unrecorded_of_recordJob (hs.each n _ hn)
          exact .inr (recorded_of_recordJob (Q := Q) jobId hrow)
        · exact .inl ⟨n, t, next, at?_set_ne hkn hn⟩
  · exact .inr (recorded_step hs hrecorded hstep)

/-- An action that has a job gets no other one. -/
theorem not_creates_of_hasJob {t : ActionRequest} {job : QueuedJob}
    (hs : ActionInvariants host settings s) (hone : OneWinner s)
    (h : HasJob id jobId s) : ¬ Creates Q id t job s a := by
  rintro ⟨n, next, rfl, hn, hid, _⟩
  have hwins : Winning id ⟨t, .call (.queue (.enqueue job)) next⟩ :=
    ⟨hid, _, _, rfl, trivial⟩
  rcases h with ⟨m, t', next', hm⟩ | hrecorded
  · obtain ⟨hid', _⟩ := unrecorded_of_recordJob (hs.each m _ hm)
    have hmn : m = n := hone id m n _ _ hm hn ⟨hid', _, _, rfl, trivial⟩ hwins
    subst hmn
    rw [hm] at hn
    cases hn
  · obtain ⟨terms, rfl, hrow⟩ := unrecorded_of_winning hs hn hwins
    exact not_unrecorded_of_recorded hrecorded hrow

omit [JobQueue σ] in
/-- A request that succeeds names the job of its action. -/
theorem named_of_hasJob {n : Nat} {t : ActionRequest} {out : SmartMessageOut}
    (hs : ActionInvariants host settings s) (h : HasJob id jobId s)
    (hn : s.at? n = some ⟨t, .done (.ok (.confirmed out))⟩)
    (hid : t.actionId = some id) :
    out.job.map GenerationOut.id = some jobId := by
  obtain ⟨id', jobId', hid', hrecorded, hjob⟩ := recorded_of_done (hs.each n _ hn)
  rw [hid] at hid'
  cases hid'
  rcases h with ⟨m, t', next, hm⟩ | ⟨row, hfind, _, hrow⟩
  · obtain ⟨_, terms, rfl, hunrecorded⟩ := unrecorded_of_recordJob (hs.each m _ hm)
    exact absurd hunrecorded (not_unrecorded_of_recorded hrecorded)
  · obtain ⟨row', hfind', _, hrow'⟩ := hrecorded
    rw [hfind] at hfind'
    cases hfind'
    rw [hjob, ← hrow', hrow]

/-- A call that leaves a job in the row of an action either writes it there or
finds it there. -/
theorem recorded_before {w : ActionWorld σ} {c : ActionCall}
    (hw : PendingUnrecorded w.actions)
    (h : Recorded (actionAnswer Q c w).2.actions id jobId) :
    Recorded w.actions id jobId ∨ c = .recordJob id jobId := by
  obtain ⟨row', hfind', hstatus, hjob⟩ := h
  rw [find?_actionAnswer] at hfind'
  obtain ⟨row, hfind, rfl⟩ := Option.map_eq_some_iff.mp hfind'
  have hid := Table.key_of_find? hfind
  by_cases hrecord : ∃ jobId', c = .recordJob row.id jobId'
  · obtain ⟨jobId', rfl⟩ := hrecord
    rw [rowAfter_record] at hjob
    cases hjob
    exact .inr (by rw [hid])
  · left
    have hno : ∀ jobId', c ≠ .recordJob row.id jobId' :=
      fun jobId' hc => hrecord ⟨jobId', hc⟩
    by_cases hpending : row.status = .pending
    · rw [resultingJobId_rowAfter hno, hw id row hfind hpending] at hjob
      cases hjob
    · rw [rowAfter_of_settled hpending hno] at hstatus hjob
      exact ⟨row, hfind, hstatus, hjob⟩

/-- An action comes by its job as its winner inserts or finds it. -/
theorem obtains_of_hasJob (hs : ActionInvariants host settings s)
    (hnot : ¬ HasJob id jobId s) (h : HasJob id jobId s')
    (hstep : (actionRequests Q host settings).step s a = some s') :
    Obtains Q id jobId s a := by
  cases clientStepped hstep with
  | start task =>
      refine absurd ?_ hnot
      rcases h with ⟨n, t, next, hn⟩ | hrecorded
      · rcases at?_append hn with hn | ⟨_, hnew⟩
        · exact .inl ⟨n, t, next, hn⟩
        · have hp := congrArg Client.program hnew
          exact absurd hp.symm (actionRequest_ne_recordJob next)
      · exact .inr hrecorded
  | environment e =>
      refine absurd ?_ hnot
      rcases h with ⟨n, t, next, hn⟩ | hrecorded
      · exact .inl ⟨n, t, next, hn⟩
      · dsimp only at hrecorded
        rw [actions_actionEvent] at hrecorded
        exact .inr hrecorded
  | advance k task c next hk =>
      rcases h with ⟨n, t, next', hn⟩ | hrecorded
      · rcases at?_set hn with ⟨rfl, hx⟩ | ⟨_, hold⟩
        · have htask := congrArg Client.task hx
          have hp := congrArg Client.program hx
          dsimp only at htask hp
          subst htask
          obtain ⟨hid, c', rfl, hnames⟩ :=
            names_of_recordJob (hs.each n _ hk) hp.symm
          exact ⟨n, t, c', next, rfl, hk, hid, hnames⟩
        · exact absurd (.inl ⟨n, t, next', hold⟩) hnot
      · refine absurd ?_ hnot
        rcases recorded_before hs.shared hrecorded with hrecorded | rfl
        · exact .inr hrecorded
        · exact .inl ⟨k, task, next, hk⟩

/-- An action comes to have a winner by the `UPDATE` that confirms it. -/
theorem confirms_of_winning (hs : ActionInvariants host settings s)
    (hnot : ¬ ∃ n x, s.at? n = some x ∧ Winning id x)
    (h : ∃ n x, s'.at? n = some x ∧ Winning id x)
    (hstep : (actionRequests Q host settings).step s a = some s') :
    ∃ n t now next row, a = .advance n ∧
      s.at? n = some ⟨t, .call (.confirmAction id now) next⟩ ∧
      s.shared.actions.find? id = some row ∧ row.confirmable id now = true := by
  obtain ⟨n, x, hn, hwins⟩ := h
  cases clientStepped hstep with
  | start task =>
      rcases at?_append hn with hn | ⟨_, rfl⟩
      · exact absurd ⟨n, x, hn, hwins⟩ hnot
      · exact absurd hwins not_winning_start
  | environment e => exact absurd ⟨n, x, hn, hwins⟩ hnot
  | advance k task c next hk =>
      rcases at?_set hn with ⟨rfl, rfl⟩ | ⟨_, hold⟩
      · rcases winning_answer (hs.each _ _ hk) hwins with
          hbefore | ⟨now, row, rfl, hfind, hrow⟩
        · exact absurd ⟨n, _, hk, hbefore⟩ hnot
        · exact ⟨n, task, now, next, row, rfl, hk, hfind, hrow⟩
      · exact absurd ⟨n, x, hold, hwins⟩ hnot

/-! ### One use -/

variable (Q) in
/-- The step is an `UPDATE` that confirms the action before it expires. -/
def ConfirmsInTime (id : Uuid) (s : ActionRequests σ) (a : ActionStep) : Prop :=
  ∃ n t now next row, a = .advance n ∧
    s.at? n = some ⟨t, .call (.confirmAction id now) next⟩ ∧
    s.shared.actions.find? id = some row ∧ row.confirmable id now = true ∧
    s.shared.now < row.expiresAt

variable (Q host settings) in
/-- One job of the action at most, created for its owner once it is confirmed in
time; what the action has become is final; and a confirmation that succeeds names
the one job. -/
structure UsedOnce (w : ActionWorld σ) (as : List ActionStep) (id : Uuid) :
    Prop where
  once : ∀ pre a mid b post s s' t t' job job',
    as = pre ++ a :: (mid ++ b :: post) →
    (actionRequests Q host settings).exec (.init w) pre = some s →
    (actionRequests Q host settings).exec (.init w) (pre ++ a :: mid) = some s' →
    Creates Q id t job s a → ¬ Creates Q id t' job' s' b
  created : ∀ pre a post s t job, as = pre ++ a :: post →
    (actionRequests Q host settings).exec (.init w) pre = some s →
    Creates Q id t job s a →
    (∃ row, s.shared.actions.find? id = some row ∧ row.status = .confirmed ∧
      t.userId = row.userId ∧ job.userId = row.userId) ∧
    ∃ pre' b mid s', pre = pre' ++ b :: mid ∧
      (actionRequests Q host settings).exec (.init w) pre' = some s' ∧
      ConfirmsInTime id s' b
  final : ∀ pre mid post s s' row, as = pre ++ (mid ++ post) →
    (actionRequests Q host settings).exec (.init w) pre = some s →
    (actionRequests Q host settings).exec (.init w) (pre ++ mid) = some s' →
    s.shared.actions.find? id = some row → row.status ≠ .pending →
    ∃ row', s'.shared.actions.find? id = some row' ∧ row'.status = row.status
  named : ∀ s, (actionRequests Q host settings).exec (.init w) as = some s →
    ∀ n t out, s.at? n = some ⟨t, .done (.ok (.confirmed out))⟩ →
    t.actionId = some id →
    ∃ jobId, out.job.map GenerationOut.id = some jobId ∧
      (∀ pre a post r t' job, as = pre ++ a :: post →
        (actionRequests Q host settings).exec (.init w) pre = some r →
        Creates Q id t' job r a → job.id = jobId) ∧
      (∀ m t' out', s.at? m = some ⟨t', .done (.ok (.confirmed out'))⟩ →
        t'.actionId = some id → out'.job.map GenerationOut.id = some jobId) ∧
      (Recorded w.actions id jobId ∨ ∃ pre a post r, as = pre ++ a :: post ∧
        (actionRequests Q host settings).exec (.init w) pre = some r ∧
        Obtains Q id jobId r a)

/-- The condition: an `UPDATE` that confirms an action by the time that its
request has read confirms it by the time it is made. -/
def Punctual (s : ActionRequests σ) (a : ActionStep) : Prop :=
  ∀ n t id now next row, a = .advance n →
    s.at? n = some ⟨t, .call (.confirmAction id now) next⟩ →
    s.shared.actions.find? id = some row → row.confirmable id now = true →
    row.confirmable id s.shared.now = true

omit [JobQueue σ] in
theorem confirmsInTime_of_punctual {n : Nat} {t : ActionRequest} {now : DateTime}
    {next : Nat → ActionProgram} {row : PendingAction}
    (hpunctual : Punctual s (.advance n))
    (hn : s.at? n = some ⟨t, .call (.confirmAction id now) next⟩)
    (hfind : s.shared.actions.find? id = some row)
    (hrow : row.confirmable id now = true) : ConfirmsInTime id s (.advance n) := by
  have hintime := hpunctual n t id now next row rfl hn hfind hrow
  simp only [PendingAction.confirmable, Bool.and_eq_true,
    decide_eq_true_eq] at hintime
  exact ⟨n, t, now, next, row, rfl, hn, hfind, hrow, hintime.2⟩

/-- What holds in every state that the requests reach. -/
theorem actionInvariants_run {w : ActionWorld σ}
    (hw : PendingUnrecorded w.actions) {as : List ActionStep}
    (hrun : (actionRequests Q host settings).exec (.init w) as = some s) :
    OneWinner s ∧ ActionInvariants host settings s := by
  have hinit : OneWinner (Clients.init w : ActionRequests σ) := by
    intro id m n x y hm
    simp [Clients.at?, Clients.init] at hm
  refine Machine.invariant (M := actionRequests Q host settings)
    (C := fun _ _ => True) (I := fun s => OneWinner s ∧
      ActionInvariants host settings s) ?_
    ⟨hinit, clientInvariants_init hw⟩ (Machine.along_of_split hrun
      (fun _ _ _ _ _ _ => trivial)) hrun
  intro s a s' hs _ hstep
  exact actionInvariants_step hs hstep

/-- The job that an action has come by is still its job. -/
theorem hasJob_run (hs : OneWinner s ∧ ActionInvariants host settings s)
    (h : HasJob id jobId s) {as : List ActionStep}
    (hrun : (actionRequests Q host settings).exec s as = some s') :
    HasJob id jobId s' := by
  have hboth := Machine.invariant (M := actionRequests Q host settings)
    (C := fun _ _ => True) (I := fun s => (OneWinner s ∧
      ActionInvariants host settings s) ∧ HasJob id jobId s) ?_ ⟨hs, h⟩
    (Machine.along_of_split hrun (fun _ _ _ _ _ _ => trivial)) hrun
  · exact hboth.2
  · intro s a s' hs _ hstep
    exact ⟨actionInvariants_step hs.1 hstep, hasJob_step hs.1.2 hs.2 hstep⟩

/-- A request that has won its action has confirmed it in time. -/
theorem confirmsInTime_run {w : ActionWorld σ}
    (hw : PendingUnrecorded w.actions) {as : List ActionStep}
    (halong : (actionRequests Q host settings).Along Punctual (.init w) as)
    (hrun : (actionRequests Q host settings).exec (.init w) as = some s)
    (hwins : ∃ n x, s.at? n = some x ∧ Winning id x) :
    ∃ pre a post r, as = pre ++ a :: post ∧
      (actionRequests Q host settings).exec (.init w) pre = some r ∧
      ConfirmsInTime id r a := by
  have hnone : ¬ ∃ n x, (Clients.init w : ActionRequests σ).at? n = some x ∧
      Winning id x := by
    rintro ⟨n, x, hn, _⟩
    simp [Clients.at?, Clients.init] at hn
  obtain ⟨pre, a, post, q, r, rfl, hpre, hstep, hq, hr⟩ :=
    Machine.exists_step_of_became (P := fun s : ActionRequests σ =>
      ∃ n x, s.at? n = some x ∧ Winning id x) hrun hnone hwins
  have hat := (actionInvariants_run hw hpre).2
  obtain ⟨n, t, now, next, row, rfl, hn, hfind, hrow⟩ :=
    confirms_of_winning hat hq hr hstep
  exact ⟨pre, _, post, q, rfl, hpre,
    confirmsInTime_of_punctual (halong.at_split hpre) hn hfind hrow⟩

/-- An action that has a job has had it from the beginning, or has come by it. -/
theorem obtains_run {w : ActionWorld σ} (hw : PendingUnrecorded w.actions)
    {as : List ActionStep}
    (hrun : (actionRequests Q host settings).exec (.init w) as = some s)
    (h : HasJob id jobId s) :
    Recorded w.actions id jobId ∨ ∃ pre a post r, as = pre ++ a :: post ∧
      (actionRequests Q host settings).exec (.init w) pre = some r ∧
      Obtains Q id jobId r a := by
  by_cases hrecorded : Recorded w.actions id jobId
  · exact .inl hrecorded
  · right
    have hnone : ¬ HasJob id jobId (Clients.init w : ActionRequests σ) := by
      rintro (⟨n, t, next, hn⟩ | h)
      · simp [Clients.at?, Clients.init] at hn
      · exact hrecorded h
    obtain ⟨pre, a, post, q, r, rfl, hpre, hstep, hq, hr⟩ :=
      Machine.exists_step_of_became hrun hnone h
    exact ⟨pre, a, post, q, rfl, hpre,
      obtains_of_hasJob (actionInvariants_run hw hpre).2 hq hr hstep⟩

/-- What is created in a run is the job of the action at its end. -/
theorem hasJob_of_creates_run {w : ActionWorld σ}
    (hw : PendingUnrecorded w.actions) {pre post : List ActionStep}
    {r : ActionRequests σ} {t : ActionRequest} {job : QueuedJob}
    (hpre : (actionRequests Q host settings).exec (.init w) pre = some r)
    (hrun : (actionRequests Q host settings).exec (.init w) (pre ++ a :: post) =
      some s)
    (h : Creates Q id t job r a) : HasJob id job.id s := by
  obtain ⟨r', hpre', hrest⟩ := Machine.exec_append_eq_some _ |>.mp hrun
  rw [hpre] at hpre'
  cases hpre'
  obtain ⟨q, hstep, hpost⟩ := Machine.exec_cons_eq_some _ |>.mp hrest
  have hr := actionInvariants_run hw hpre
  obtain ⟨_, _, hjob⟩ := of_creates hr.2 h hstep
  exact hasJob_run (actionInvariants_step hr hstep) hjob hpost

/-- **One use.**  In every run, from rows that have no job while they are pending,
whose confirming `UPDATE`s are made in time. -/
theorem usedOnce_run (id : Uuid) (w : ActionWorld σ)
    (hw : ∀ row ∈ w.actions.rows, row.status = .pending →
      row.resultingJobId = none)
    (as : List ActionStep)
    (halong : (actionRequests Q host settings).Along Punctual (.init w) as) :
    UsedOnce Q host settings w as id := by
  have hpending : PendingUnrecorded w.actions :=
    fun id row hfind => hw row (Table.find?_eq_some_iff.mp hfind).1
  constructor
  · intro pre a mid b post s s' t t' job job' _ hpre hmid hcreates
    have hs' := actionInvariants_run hpending hmid
    exact not_creates_of_hasJob hs'.2 hs'.1
      (hasJob_of_creates_run hpending hpre hmid hcreates)
  · intro pre a post s t job hsplit hpre hcreates
    subst hsplit
    have hmade := hcreates
    obtain ⟨n, next, rfl, hn, _⟩ := hmade
    obtain ⟨howner, hwins, _⟩ := of_creates (actionInvariants_run hpending hpre).2
      hcreates (step_advance hn)
    exact ⟨howner, confirmsInTime_run hpending
      ((Machine.along_append hpre).mp halong).1 hpre hwins⟩
  · intro pre mid post s s' row _ hpre hmid hfind hsettled
    obtain ⟨r, hpre', hrest⟩ := Machine.exec_append_eq_some _ |>.mp hmid
    rw [hpre] at hpre'
    cases hpre'
    obtain ⟨row', hfind', _, hstatus⟩ := keepsRow_run hrest row hfind
    exact ⟨row', hfind', hstatus hsettled⟩
  · intro s hrun n t out hn hid
    have hs := actionInvariants_run hpending hrun
    obtain ⟨id', jobId, hid', hrecorded, hjob⟩ := recorded_of_done (hs.2.each n _ hn)
    rw [hid] at hid'
    cases hid'
    refine ⟨jobId, hjob, ?_, ?_, obtains_run hpending hrun (.inr hrecorded)⟩
    · intro pre a post r t' job hsplit hpre hcreates
      subst hsplit
      have hcreated := named_of_hasJob hs.2
        (hasJob_of_creates_run hpending hpre hrun hcreates) hn hid
      rw [hjob] at hcreated
      exact (Option.some.inj hcreated).symm
    · intro m t' out' hm hid'
      exact named_of_hasJob hs.2 (.inr hrecorded) hm hid'

/-- The step is an `UPDATE` made before its row expires. -/
def updatesInTime (s : ActionRequests σ) : ActionStep → Bool
  | .advance n =>
      match s.at? n with
      | some ⟨_, .call (.confirmAction id _) _⟩ =>
          match s.shared.actions.find? id with
          | some row => s.shared.now < row.expiresAt
          | none => false
      | _ => false
  | _ => false

omit [JobQueue σ] in
theorem updatesInTime_of_confirmsInTime (h : ConfirmsInTime id s a) :
    updatesInTime s a = true := by
  obtain ⟨n, t, now, next, row, rfl, hn, hfind, _, hintime⟩ := h
  simp [updatesInTime, hn, hfind, hintime]

/-- The step is not an `UPDATE`, or is one made before its row expires. -/
def punctualStep (s : ActionRequests σ) (a : ActionStep) : Bool :=
  updatesInTime s a ||
    match a with
    | .advance n =>
        match s.at? n with
        | some ⟨_, .call (.confirmAction _ _) _⟩ => false
        | _ => true
    | _ => true

omit [JobQueue σ] in
theorem punctual_of_punctualStep (h : punctualStep s a = true) : Punctual s a := by
  rintro n t id now next row rfl hn hfind hrow
  simp only [PendingAction.confirmable, Bool.and_eq_true, decide_eq_true_eq] at hrow ⊢
  simp only [punctualStep, updatesInTime, hn, hfind, Bool.or_false,
    decide_eq_true_eq] at h
  exact ⟨hrow.1, h⟩

end Requests

/-! ## Runs -/

/-- A poster that waits for its confirmation, until 10. -/
def posterAction : PendingAction where
  id := 4
  userId := 7
  conversationId := 3
  actionType := "poster"
  billingCategory := "paid"
  normalizedParams := Dict.empty.set "prompt" (.str "cat") (.str "cat")
  paramsFingerprint := ""
  status := .pending
  expiresAt := 10
  createdAt := 0
  consumedAt := none
  resultingJobId := none

/-- The poster waits, and the queue is empty. -/
def posterWaits : ActionWorld InMemoryJobQueue :=
  ⟨⟨[posterAction], List.nodup_singleton _⟩, .empty, 0⟩

/-- The user confirms the poster. -/
def posterConfirmed (jobId : Uuid) : ActionRequest where
  cancels := false
  actionId := some 4
  userId := 7
  jobId := jobId
  now := 0

/-- The user cancels the poster. -/
def posterCancelled : ActionRequest where
  cancels := true
  actionId := some 4
  userId := 7
  jobId := 0
  now := 0

/-- Two confirmations and a cancellation at once. -/
def posterRace : List ActionStep :=
  [.start (posterConfirmed 1), .start (posterConfirmed 2), .start posterCancelled,
    .advance 0, .advance 1, .advance 0, .advance 1, .advance 2] ++
    List.replicate 7 (.advance 0) ++
    [.advance 1, .advance 2, .advance 1, .advance 2]

theorem usedOnce_run_race :
    UsedOnce InMemoryJobQueue.admissionQueue plainHost {} posterWaits posterRace
      4 := by
  refine usedOnce_run 4 posterWaits ?_ posterRace ?_
  · intro row hrow _
    rw [List.mem_singleton.mp hrow]
    rfl
  · refine Machine.Along.mono (fun s a => punctual_of_punctualStep) ?_
    decide

/-- The action expires between the clock reading of a request and its `UPDATE`. -/
def posterLate : List ActionStep :=
  [.start (posterConfirmed 1), .advance 0, .environment (.clock 20)] ++
    List.replicate 6 (.advance 0)

/-- The job is created though the action was confirmed after it had expired. -/
theorem not_usedOnce :
    ¬ UsedOnce InMemoryJobQueue.admissionQueue plainHost {} posterWaits
      (posterLate ++ [.advance 0]) 4 := by
  intro h
  have hcreates : ∃ s t job, (actionRequests InMemoryJobQueue.admissionQueue
      plainHost {}).exec (.init posterWaits) posterLate = some s ∧
      Creates InMemoryJobQueue.admissionQueue 4 t job s (.advance 0) :=
    ⟨_, _, _, rfl, 0, _, rfl, rfl, rfl, rfl⟩
  obtain ⟨s, t, job, hexec, hcreates⟩ := hcreates
  obtain ⟨_, pre, a, post, r, hsplit, hpre, hintime⟩ :=
    h.created posterLate (.advance 0) [] s t job rfl hexec hcreates
  have hlate : (actionRequests InMemoryJobQueue.admissionQueue plainHost {}).Along
      (fun s a => updatesInTime s a = false) (.init posterWaits) posterLate := by
    decide
  rw [hsplit] at hlate
  have hno := hlate.at_split hpre
  rw [updatesInTime_of_confirmsInTime hintime] at hno
  cases hno

end Imagin4.Ports
