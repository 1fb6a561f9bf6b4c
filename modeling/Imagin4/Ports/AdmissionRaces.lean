import Imagin4.Ports.Admission

/-!
# Concurrent admissions

Any number of `admit_generation_job` calls on one `PostgresJobQueue`, each call
of which is a transaction of its own, together with claims and the other queue
operations.  Between the counts of an admission and its insertion anything may
happen: no lock is held.

## Main results

* `room_rule` — an admission that has counted a backlog below its cap still
  finds it so, unless another step fills it in between.
* `capped_run` — the caps, in the runs in which none does.
-/

namespace Imagin4.Ports

open Imagin4.Verified

/-- A queue operation that is no admission, and the rows it finds locked. -/
abbrev QueueEvent := QueueOp × List Uuid

/-- The admissions on one queue. -/
abbrev Admissions := Clients PostgresJobQueue AdmissionRequest AdmissionCall
  AdmissionCall.Answer AdmissionOutcome

/-- What happens: an admission starts or makes its next call, or another queue
operation commits. -/
abbrev AdmissionAction := ClientAction AdmissionRequest QueueEvent

/-- Any number of admissions, and the other queue operations. -/
abbrev admissions (host : AdmissionHost) (settings : Settings)
    (jsonb : Json → Option Json) : Machine Admissions AdmissionAction :=
  clientMachine (admitGenerationJob host settings)
    (PostgresJobQueue.admissionAnswer jsonb) (fun e q => e.1.apply e.2 q)

namespace PostgresJobQueue

/-- The backlog a request counts against: its conversation's or its user's. -/
def ownBacklog (r : AdmissionRequest) : PostgresJobQueue → Nat :=
  backlog (fun g => r.owns g.userId g.conversationId)

theorem ownBacklog_conversation {r : AdmissionRequest} {c : Uuid}
    (h : r.conversationId = some c) :
    ownBacklog r = countConversationBacklog c := by
  funext q
  simp only [ownBacklog, AdmissionRequest.owns, h, countConversationBacklog]

theorem ownBacklog_user {r : AdmissionRequest} (h : r.conversationId = none) :
    ownBacklog r = countUserBacklog r.userId := by
  funext q
  simp only [ownBacklog, AdmissionRequest.owns, h, countUserBacklog]

/-- A new job adds at most one to a backlog. -/
theorem backlog_enqueue_le (p : JobRow → Bool) (job : QueuedJob)
    (q : PostgresJobQueue) : (q.enqueue job).backlog p ≤ q.backlog p + 1 := by
  unfold enqueue
  split
  · omega
  · rename_i modelFamily workflowVersion _
    split
    · omega
    · rename_i htaken
      have hfree : q.generationJobs.find? job.id = none := by
        simp only [Bool.or_eq_true, not_or, Option.isSome_iff_ne_none,
          ne_eq, not_not] at htaken
        exact htaken.1
      unfold backlog appendEvent
      dsimp only
      rw [Table.rows_put_of_find?_none hfree, List.countP_append]
      have hone := List.countP_le_length (l := [rowOfJob job modelFamily
        workflowVersion]) (p := fun g => p g && g.state.isWaiting)
      simpa [rowOfJob] using hone

/-- What an admission does to a backlog. -/
theorem backlog_admissionAnswer_le (p : JobRow → Bool)
    (jsonb : Json → Option Json) (job : QueuedJob) (q : PostgresJobQueue) :
    (admissionAnswer jsonb (.enqueue job) q).2.backlog p ≤ q.backlog p + 1 := by
  unfold admissionAnswer
  dsimp only
  split
  · dsimp only
    omega
  · exact backlog_enqueue_le p _ q

end PostgresJobQueue

/-! ## The caps -/

section Caps

open PostgresJobQueue

variable {host : AdmissionHost} {settings : Settings}
  {jsonb : Json → Option Json}

/-- There is room for one more waiting job, in the whole queue and in the
backlog of the request. -/
def RoomForAll (settings : Settings) (q : PostgresJobQueue) : Prop :=
  Below settings.globalQueueCap q.countGlobalBacklog

/-- There is room in the backlog of the request. -/
def RoomForOwn (settings : Settings) (r : AdmissionRequest)
    (q : PostgresJobQueue) : Prop :=
  Below settings.maxQueuedJobsPerUser (q.ownBacklog r)

/-- The step does not use up room that another admission has counted on: an
admission that has counted a backlog and has yet to insert its job still finds
room in it, if it had room before the step. -/
def LeavesRoom (host : AdmissionHost) (settings : Settings)
    (jsonb : Json → Option Json) (s : Admissions) (a : AdmissionAction) : Prop :=
  ∀ m r c next t, a ≠ .advance m → s.at? m = some ⟨r, .call c next⟩ →
    (admissions host settings jsonb).step s a = some t →
    (c.pastGlobalCount = true → RoomForAll settings s.shared →
      RoomForAll settings t.shared) ∧
    (c.pastOwnCount = true → RoomForOwn settings r s.shared →
      RoomForOwn settings r t.shared)

/-- An admission is at a stage, and what it has counted still has room. -/
def Counted (host : AdmissionHost) (settings : Settings) (q : PostgresJobQueue)
    (x : Client AdmissionRequest AdmissionCall AdmissionCall.Answer
      AdmissionOutcome) : Prop :=
  AdmissionStage host settings x.task (fun _ => True) (RoomForAll settings q)
    (RoomForOwn settings x.task q) x.program

theorem counted_admissionAnswer {r : AdmissionRequest} {c : AdmissionCall}
    {next : c.Answer → AdmissionProgram} {q : PostgresJobQueue}
    (h : Counted host settings q ⟨r, .call c next⟩) :
    Counted host settings (admissionAnswer jsonb c q).2
      ⟨r, next (admissionAnswer jsonb c q).1⟩ := by
  unfold Counted at h ⊢
  dsimp only at h ⊢
  cases h with
  | lookup v hv =>
      exact stage_afterLookup hv (fun hcap h => by omega)
        (fun hcap h => by omega) (fun _ _ _ => trivial) (fun _ _ _ _ => trivial)
  | countGlobal v hv =>
      exact stage_afterGlobalCount hv id (fun hcap h => by omega)
        (fun _ _ => trivial)
  | countConversation v c whoHas hv hconv hG =>
      refine stage_afterOwnCount hv hG (fun hroom => ?_) (fun _ _ => trivial)
      unfold RoomForOwn
      rw [ownBacklog_conversation hconv]
      exact hroom
  | countUser v whoHas hv hconv hG =>
      refine stage_afterOwnCount hv hG (fun hroom => ?_) (fun _ _ => trivial)
      unfold RoomForOwn
      rw [ownBacklog_user hconv]
      exact hroom
  | position v hv hG hO => exact .insert v _ hv hG hO
  | insert v n hv hG hO =>
      unfold insertOutcome
      split
      · exact .done _ trivial
      · exact .done _ trivial

/-- What an admission has counted lasts while others leave room. -/
theorem Counted.frame {q q' : PostgresJobQueue}
    {x : Client AdmissionRequest AdmissionCall AdmissionCall.Answer
      AdmissionOutcome} (h : Counted host settings q x)
    (hleaves : ∀ c next, x.program = .call c next →
      (c.pastGlobalCount = true → RoomForAll settings q →
        RoomForAll settings q') ∧
      (c.pastOwnCount = true → RoomForOwn settings x.task q →
        RoomForOwn settings x.task q')) :
    Counted host settings q' x :=
  AdmissionStage.mono h (fun _ _ => trivial)
    (fun c next hp => (hleaves c next hp).1)
    (fun c next hp => (hleaves c next hp).2)

theorem room_rule : ClientRule (admitGenerationJob host settings)
    (admissionAnswer jsonb) (fun (e : QueueEvent) q => e.1.apply e.2 q)
    (LeavesRoom host settings jsonb) (fun _ => True)
    (Counted host settings) where
  start _ _ := stage_admitGenerationJob (fun _ _ => trivial)
  advance hs _ hn := ⟨trivial, counted_admissionAnswer (hs.each _ _ hn)⟩
  frame {s n m task q next y} hs hC hn hne hy := by
    refine (hs.each m y hy).frame (fun c k hp => ?_)
    have hstep : (admissions host settings jsonb).step s (.advance n) =
        some ⟨(admissionAnswer jsonb q s.shared).2, s.clients.set n
          ⟨task, next (admissionAnswer jsonb q s.shared).1⟩⟩ :=
      step_advance hn
    have hother : (ClientAction.advance n : AdmissionAction) ≠ .advance m :=
      fun h => hne (ClientAction.advance.inj h).symm
    obtain ⟨r, p⟩ := y
    obtain rfl : p = .call c k := hp
    exact hC m r c k _ hother hy hstep
  environment {s e} hs hC := by
    refine ⟨trivial, fun m y hy => (hs.each m y hy).frame (fun c k hp => ?_)⟩
    obtain ⟨r, p⟩ := y
    obtain rfl : p = .call c k := hp
    exact hC m r c k { s with shared := e.1.apply e.2 s.shared }
      (fun h => by cases h) hy rfl

/-- The step inserts the job of an admission. -/
def Inserts (jsonb : Json → Option Json) (s : Admissions) (n : Nat)
    (r : AdmissionRequest) : Prop :=
  ∃ job next, s.at? n = some ⟨r, .call (.enqueue job) next⟩ ∧
    insertError jsonb job s.shared = none

/-- The backlogs are within their caps. -/
def WithinCaps (settings : Settings) (r : AdmissionRequest)
    (q : PostgresJobQueue) : Prop :=
  (0 < settings.globalQueueCap →
    (q.countGlobalBacklog : Int) ≤ settings.globalQueueCap) ∧
  (0 < settings.maxQueuedJobsPerUser →
    (q.ownBacklog r : Int) ≤ settings.maxQueuedJobsPerUser)

/-- At every insertion of the run the backlogs are within their caps. -/
def CapsHold (host : AdmissionHost) (settings : Settings)
    (jsonb : Json → Option Json) (q : PostgresJobQueue)
    (as : List AdmissionAction) : Prop :=
  ∀ pre n post s t r, as = pre ++ .advance n :: post →
    (admissions host settings jsonb).exec (.init q) pre = some s →
    (admissions host settings jsonb).step s (.advance n) = some t →
    Inserts jsonb s n r → WithinCaps settings r t.shared

/-- An insertion that finds room leaves the backlogs within their caps. -/
theorem withinCaps_insert {s t : Admissions} {n : Nat} {r : AdmissionRequest}
    (hs : ClientInvariants (fun _ => True) (Counted host settings) s)
    (hinserts : Inserts jsonb s n r)
    (hstep : (admissions host settings jsonb).step s (.advance n) = some t) :
    WithinCaps settings r t.shared := by
  obtain ⟨job, next, hn, _⟩ := hinserts
  have hstage := hs.each n _ hn
  have hshared : t.shared = (admissionAnswer jsonb (.enqueue job) s.shared).2 := by
    rw [step_advance hn] at hstep
    rw [← Option.some.inj hstep]
  have hglobal := backlog_admissionAnswer_le (fun _ => true) jsonb job s.shared
  have hown := backlog_admissionAnswer_le
    (fun g => r.owns g.userId g.conversationId) jsonb job s.shared
  unfold Counted at hstage
  dsimp only at hstage
  rw [hshared]
  cases hstage with
  | insert v position hv hG hO =>
      constructor
      · intro hcap
        have hroom := hG hcap
        unfold countGlobalBacklog at hroom ⊢
        omega
      · intro hcap
        have hroom := hO hcap
        unfold ownBacklog at hroom ⊢
        omega

/-- **The caps.**  They hold at every insertion of a run in which no step uses up
room that another admission has counted on. -/
theorem capped_run (host : AdmissionHost) (settings : Settings)
    (jsonb : Json → Option Json) (q : PostgresJobQueue)
    (as : List AdmissionAction)
    (halong : (admissions host settings jsonb).Along
      (LeavesRoom host settings jsonb) (.init q) as) :
    CapsHold host settings jsonb q as := by
  rintro pre n post s u r rfl hpre hstep hinserts
  have halong' := ((Machine.along_append hpre).mp halong).1
  have hs := room_rule.run (clientInvariants_init (by trivial)) halong' hpre
  exact withinCaps_insert hs hinserts hstep

/-- Nobody but the admission that makes its next call is under way. -/
def alone (s : Admissions) (a : AdmissionAction) : Bool :=
  s.clients.zipIdx.all (fun x =>
    match x.1.program, a with
    | .done _, _ => true
    | .call _ _, .advance n => n = x.2
    | .call _ _, _ => false)

theorem leavesRoom_of_alone {s : Admissions} {a : AdmissionAction}
    (h : alone s a = true) : LeavesRoom host settings jsonb s a := by
  intro m r c next t hne hm _
  have hmem : ((⟨r, .call c next⟩ : Client AdmissionRequest AdmissionCall
      AdmissionCall.Answer AdmissionOutcome), m) ∈ s.clients.zipIdx :=
    List.mem_zipIdx_iff_getElem?.mpr hm
  have hx := List.all_eq_true.mp h _ hmem
  cases a with
  | start task => cases hx
  | environment e => cases hx
  | advance n => exact absurd (congrArg ClientAction.advance (of_decide_eq_true hx)) hne

/-- One admission after another. -/
def inTurn : List AdmissionAction :=
  .start (catRequest 1) :: List.replicate 5 (.advance 0) ++
    .start { catRequest 2 with idempotencyKey := "retry-2" } ::
      List.replicate 5 (.advance 1)

/-- Two admissions that both count before either inserts. -/
def overlapping : List AdmissionAction :=
  [.start (catRequest 1),
    .start { catRequest 2 with idempotencyKey := "retry-2" }] ++
    List.replicate 4 (.advance 0) ++ List.replicate 4 (.advance 1) ++
    [.advance 0, .advance 1]

theorem capped_run_inTurn :
    CapsHold plainHost {} some .empty inTurn ∧
      ((admissions plainHost {} some).exec (.init .empty) inTurn).map
        (fun s => s.shared.countGlobalBacklog) = some 2 := by
  refine ⟨capped_run plainHost {} some .empty inTurn ?_, by rfl⟩
  refine Machine.Along.mono (C := fun s a => alone s a = true)
    (fun _ _ => leavesRoom_of_alone) ?_
  decide

/-- Two jobs wait where the cap is one. -/
theorem not_capsHold :
    ¬ CapsHold plainHost { maxQueuedJobsPerUser := 1 } some .empty
      overlapping := by
  intro h
  have hwithin := h (overlapping.take 11) 1 [] _ _
    { catRequest 2 with idempotencyKey := "retry-2" } rfl rfl rfl ⟨_, _, rfl, rfl⟩
  exact absurd (hwithin.2 (by decide)) (by decide)

end Caps

end Imagin4.Ports
