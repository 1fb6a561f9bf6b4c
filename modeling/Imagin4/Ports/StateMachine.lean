import Imagin4.Ports.AttemptBudget
import Imagin4.Ports.AttemptPrompts
import Imagin4.Ports.MemoryQueue
import Imagin4.Ports.PostgresQueue

/-!
# The state machine and the queues

`app/domain/jobs/state_machine.py` lists the legal transitions of a job.  Neither
adapter looks at the list.  A claim takes a job from `queued` or `retry_wait`
straight to `dispatched`, and a cancel ends a claimed job at once.  The other
operations look only whether the job has ended; what they do to a job that has moved
on to another attempt, and an unguarded `mark_running` to one that has ended, is left
open.

## Main results

* `statesKept_step` — the invariant: no job is `admitted` or `cancelling`, and what
  has been claimed or listed is past `queued`.
* `changes_run` — the changes of state that the queues make, calls that come late
  aside.
* `changes_taken` — each of them that the state machine does not allow is made in
  some run.
* `not_canTransition` — a claim makes one.
* `late_changes` — calls that come late make others.
-/

namespace Imagin4.Ports

open Imagin4.Verified

/-! ## Transitions -/

/-- `ALLOWED_TRANSITIONS`. -/
def allowedTransitions : JobState → List JobState
  | .queued => [.admitted, .cancelled, .failed]
  | .admitted => [.dispatched, .cancelled, .failed]
  | .dispatched => [.running, .cancelling, .failed, .retryWait]
  | .running => [.succeeded, .retryWait, .cancelling, .failed]
  | .retryWait => [.queued, .failed, .cancelled]
  | .cancelling => [.cancelled, .failed]
  | .cancelled => []
  | .succeeded => []
  | .failed => []

/-- `can_transition`. -/
def canTransition (fromState toState : JobState) : Bool :=
  if fromState.isTerminal then false else toState ∈ allowedTransitions fromState

/-- The queues know neither `admitted` nor `cancelling`: a claim and a cancel take
the way of two steps in one. -/
def skipsState (fromState toState : JobState) : Bool :=
  (fromState.isWaiting && toState = .dispatched) ||
    (fromState.isActive && toState = .cancelled)

/-- The changes of state that the queues make. -/
def queueTransition (fromState toState : JobState) : Bool :=
  canTransition fromState toState || skipsState fromState toState

/-- The states of a job that has been claimed. -/
def JobState.pastClaim : JobState → Bool
  | queued | admitted | cancelling => false
  | _ => true

section Changes

variable {σ : Type} [JobQueue σ]

/-- The step from `s` to `t` changes the state of a job. -/
def ChangesState (s t : Sys σ) (fromState toState : JobState) : Prop :=
  fromState ≠ toState ∧ ∃ id l l',
    JobQueue.life s.queue id = some l ∧ l.state = fromState ∧
    JobQueue.life t.queue id = some l' ∧ l'.state = toState

/-- The step is a `mark_running` that does not look at the job it finds, and finds
one that has ended. -/
def revives (settings : Settings) (s : Sys σ) (a : Action) : Bool :=
  match callOf settings s a with
  | some (.markRunning id, _) =>
      !JobQueue.guardsRunning (σ := σ) &&
        (JobQueue.life s.queue id).any (fun l => l.state.isTerminal)
  | _ => false

/-- The step is a call for an attempt that is over: a `mark_running` that finds its job
put back to wait, or a `mark_succeeded` that finds it so or claimed again. -/
def comesLate (settings : Settings) (s : Sys σ) (a : Action) : Bool :=
  match callOf settings s a with
  | some (.markRunning id, _) =>
      (JobQueue.life s.queue id).any (fun l => l.state = .retryWait)
  | some (.markSucceeded id _, _) =>
      (JobQueue.life s.queue id).any
        (fun l => l.state = .dispatched || l.state = .retryWait)
  | _ => false

/-! ## The invariant -/

/-- The job has been claimed. -/
def PastClaim (s : Sys σ) (id : Uuid) : Prop :=
  ∃ l, JobQueue.life s.queue id = some l ∧ l.state.pastClaim = true

/-- Every job waits for its first claim, or is past it; and those that have been
handed out are past it. -/
structure StatesKept (s : Sys σ) : Prop where
  plain : ∀ id l, JobQueue.life s.queue id = some l →
    l.state = .queued ∨ l.state.pastClaim = true
  claimed : ∀ id ∈ s.jobs.map QueuedJob.id, PastClaim s id
  listed : ∀ r, ∀ id ∈ (s.reconcilers r).ids, PastClaim s id

theorem statesKept_init {queue : σ} (h : NoJobs queue) :
    StatesKept (Sys.init queue) := by
  constructor
  · intro id l hl
    have hnone : JobQueue.life (Sys.init queue).queue id = none :=
      life_of_noJobs h id
    rw [hnone] at hl
    cases hl
  · intro id hid
    cases hid
  · intro r id hid
    cases hid

theorem pastClaim_finish {l : JobLife} (final : JobState)
    (hfinal : final.pastClaim = true) (h : l.state.pastClaim = true) :
    (l.finish final).state.pastClaim = true := by
  unfold JobLife.finish
  split
  · exact h
  · exact hfinal

theorem pastClaim_lifeStep (c : QueueCall) (guarded : Bool) {l : JobLife}
    (h : l.state.pastClaim = true) :
    (c.lifeStep guarded l).state.pastClaim = true := by
  cases c with
  | renewLease id secs => exact h
  | setPromptId id p => exact h
  | markSucceeded id result => exact pastClaim_finish .succeeded rfl h
  | markFailed id code detail => exact pastClaim_finish .failed rfl h
  | cancel id => exact pastClaim_finish .cancelled rfl h
  | markRunning id =>
      show (l.run guarded).state.pastClaim = true
      unfold JobLife.run
      split
      · exact h
      · rfl
  | markRetryWait id code detail delay draw =>
      show l.retry.state.pastClaim = true
      unfold JobLife.retry
      split
      · exact h
      · rfl

variable [LawfulJobQueue σ] {settings : Settings} {s t : Sys σ} {a : Action}

/-- What is past its claim stays so. -/
theorem pastClaim_step (h : step settings s a = some t) {id : Uuid}
    (hid : PastClaim s id) : PastClaim t id := by
  obtain ⟨l, hl, hpast⟩ := hid
  cases life_move h id with
  | same hlife => exact ⟨l, hlife.trans hl, hpast⟩
  | new job _ hnone =>
      rw [hnone] at hl
      cases hl
  | claimed l₀ _ _ hlife => exact ⟨_, hlife, rfl⟩
  | called c attempt _ _ _ hlife =>
      rw [hl] at hlife
      exact ⟨_, hlife, pastClaim_lifeStep c _ hpast⟩

/-- The user's calls are about any job, all others about a job that is past its
claim. -/
theorem pastClaim_target (hs : StatesKept s) {c : QueueCall} {attempt : Nat}
    (h : Origin s a c attempt) (hc : ∀ id, c ≠ .cancel id) :
    PastClaim s c.target := by
  have htask : ∀ (k : Nat) (d : Dispatch), s.tasks[k]? = some d →
      PastClaim s d.job.id := by
    intro k d hd
    refine hs.claimed d.job.id (List.mem_map_of_mem ?_)
    exact List.mem_map_of_mem (List.mem_of_getElem? hd)
  cases h with
  | user id => exact absurd rfl (hc id)
  | running k d _ hd => exact htask k d hd
  | prompt k d _ hd => exact htask k d hd
  | raised k d _ _ _ hd => exact htask k d hd
  | verdict r j c _ hhead hverdict =>
      rw [hverdict.target, LawfulJobQueue.deref_id]
      refine hs.listed r j.id ?_
      cases hpass : s.reconcilers r with
      | idle => simp [hpass, Pass.head?] at hhead
      | started now => simp [hpass, Pass.head?] at hhead
      | working now active =>
          cases active with
          | nil => simp [hpass, Pass.head?] at hhead
          | cons job active =>
              obtain rfl : job = j := by simpa [hpass, Pass.head?] using hhead
              exact List.mem_cons_self
      | polling now job p active =>
          obtain rfl : job = j := by simpa [hpass, Pass.head?] using hhead
          exact List.mem_cons_self

theorem plain_step (hs : StatesKept s) (h : step settings s a = some t) (id : Uuid)
    (l : JobLife) (hl : JobQueue.life t.queue id = some l) :
    l.state = .queued ∨ l.state.pastClaim = true := by
  cases life_move h id with
  | same hlife => exact hs.plain id l (hlife ▸ hl)
  | new job hadmitted _ hlife =>
      obtain rfl : job.life = l := Option.some.inj (hlife.symm.trans hl)
      exact Or.inl (life_of_admitted hadmitted).1
  | claimed l₀ _ _ hlife =>
      obtain rfl : l₀.dispatch = l := Option.some.inj (hlife.symm.trans hl)
      exact Or.inr rfl
  | called c attempt _ _ _ hlife =>
      rw [hlife] at hl
      obtain ⟨l₀, hbefore, rfl⟩ := Option.map_eq_some_iff.mp hl
      rcases hs.plain id l₀ hbefore with hqueued | hpast
      · cases c with
        | renewLease i secs => exact Or.inl hqueued
        | setPromptId i p => exact Or.inl hqueued
        | markSucceeded i result | markFailed i code detail | cancel i
        | markRunning i | markRetryWait i code detail delay draw =>
            right
            simp [QueueCall.lifeStep, JobLife.finish, JobLife.run, JobLife.retry,
              hqueued, JobState.isTerminal, JobState.pastClaim]
      · exact Or.inr (pastClaim_lifeStep c _ hpast)

/-- A pass is about jobs that it had before, or that are active. -/
theorem ids_of_passMove {r : Nat} (h : PassMove s a r t) {id : Uuid}
    (hid : id ∈ (t.reconcilers r).ids) :
    id ∈ (s.reconcilers r).ids ∨
      ∃ j ∈ JobQueue.listActive s.queue, j.id = id := by
  cases h with
  | same _ heq => exact Or.inl (heq ▸ hid)
  | started now _ heq =>
      rw [heq] at hid
      cases hid
  | listed now _ heq =>
      rw [heq] at hid
      exact Or.inr (List.mem_map.mp hid)
  | poll now job active p hpass _ _ heq =>
      left
      rw [heq, Pass.ids, LawfulJobQueue.deref_id] at hid
      rw [hpass]
      exact hid
  | next now job active _ hids heq =>
      left
      rw [heq] at hid
      rw [hids]
      exact List.mem_cons_of_mem _ hid

theorem statesKept_step (hs : StatesKept s) (h : step settings s a = some t) :
    StatesKept t := by
  refine ⟨plain_step hs h, fun id hid => ?_, fun r id hid => ?_⟩
  · by_cases hold : id ∈ s.jobs.map QueuedJob.id
    · exact pastClaim_step h (hs.claimed id hold)
    · have hnew : s.claims id = 0 := List.count_eq_zero_of_not_mem hold
      have hpos : 0 < t.claims id := List.count_pos_iff.mpr hid
      cases life_move h id with
      | same _ hclaims | new _ _ _ _ hclaims | called _ _ _ _ _ _ hclaims => omega
      | claimed l₀ _ _ hlife => exact ⟨_, hlife, rfl⟩
  · refine pastClaim_step h ?_
    rcases ids_of_passMove (pass_move h r) hid with hold | ⟨j, hj, rfl⟩
    · exact hs.listed r id hold
    · obtain ⟨hget, hactive⟩ := LawfulJobQueue.listActive_get hj
      refine ⟨j.life, by unfold JobQueue.life; rw [hget]; rfl, ?_⟩
      show j.state.pastClaim = true
      cases hstate : j.state <;> simp_all [JobState.isActive, JobState.pastClaim]

/-! ## The changes -/

/-- The state a call moves its job to. -/
def QueueCall.target? : QueueCall → Option JobState
  | markRunning _ => some .running
  | markSucceeded _ _ => some .succeeded
  | markFailed _ _ _ => some .failed
  | markRetryWait _ _ _ _ _ => some .retryWait
  | cancel _ => some .cancelled
  | _ => none

omit [JobQueue σ] [LawfulJobQueue σ] in
/-- A call leaves the state of its job, or moves a job that has not ended; only an
unguarded `mark_running` does not look. -/
theorem state_lifeStep (c : QueueCall) (guarded : Bool) (l : JobLife) :
    (c.lifeStep guarded l).state = l.state ∨
      c.target? = some (c.lifeStep guarded l).state ∧
        (l.state.isTerminal = true → guarded = false ∧ ∃ id, c = .markRunning id) := by
  have hfinish : ∀ final, (l.finish final).state = l.state ∨
      (l.finish final).state = final ∧ l.state.isTerminal = false := by
    intro final
    cases hterm : l.state.isTerminal with
    | true => simp [JobLife.finish_of_terminal hterm]
    | false => simp [JobLife.finish_of_live hterm]
  cases c with
  | renewLease id secs => exact Or.inl rfl
  | setPromptId id p => exact Or.inl rfl
  | markSucceeded id result =>
      refine (hfinish .succeeded).imp_right (fun h => ⟨congrArg some h.1.symm, ?_⟩)
      simp [h.2]
  | markFailed id code detail =>
      refine (hfinish .failed).imp_right (fun h => ⟨congrArg some h.1.symm, ?_⟩)
      simp [h.2]
  | cancel id =>
      refine (hfinish .cancelled).imp_right (fun h => ⟨congrArg some h.1.symm, ?_⟩)
      simp [h.2]
  | markRunning id =>
      show (l.run guarded).state = l.state ∨ some JobState.running =
        some (l.run guarded).state ∧ _
      unfold JobLife.run
      cases hguard : guarded && l.state.isTerminal with
      | true => simp
      | false =>
          refine Or.inr ⟨rfl, fun hterm => ⟨?_, id, rfl⟩⟩
          simpa [hterm] using hguard
  | markRetryWait id code detail delay draw =>
      show l.retry.state = l.state ∨ some JobState.retryWait =
        some l.retry.state ∧ _
      cases hterm : l.state.isTerminal with
      | true => simp [JobLife.retry_of_terminal hterm]
      | false => simp [JobLife.retry_of_live hterm]

/-- What a call in time may do to a job that is past its claim and has not ended. -/
theorem queueTransition_of_pastClaim {fromState toState : JobState}
    (hpast : fromState.pastClaim = true) (hlive : fromState.isTerminal = false)
    (hne : fromState ≠ toState)
    (hto : toState = .running ∧ fromState ≠ .retryWait ∨
      toState = .succeeded ∧ fromState = .running ∨
      toState = .retryWait ∨ toState = .failed ∨ toState = .cancelled) :
    queueTransition fromState toState = true := by
  cases fromState <;> cases toState <;> revert hpast hlive hto hne <;> decide

theorem running_of_pastClaim {state : JobState} (hpast : state.pastClaim = true)
    (hlive : state.isTerminal = false) (hdispatched : state ≠ .dispatched)
    (hwait : state ≠ .retryWait) : state = .running := by
  cases state <;> revert hpast hlive hdispatched hwait <;> decide

/-- A step makes one of the changes, unless it comes late or brings back a job that has
ended. -/
theorem queueTransition_step (hs : StatesKept s)
    (h : step settings s a = some t) (hlive : revives settings s a = false)
    (htime : comesLate settings s a = false)
    {fromState toState : JobState} (hchange : ChangesState s t fromState toState) :
    queueTransition fromState toState = true := by
  obtain ⟨hne, id, l, l', hl, rfl, hl', rfl⟩ := hchange
  cases life_move h id with
  | same hlife =>
      rw [hlife, hl] at hl'
      exact absurd (congrArg JobLife.state (Option.some.inj hl')) hne
  | new job _ hnone =>
      rw [hnone] at hl
      cases hl
  | claimed l₀ hbefore hwaiting hlife =>
      obtain rfl : l₀ = l := Option.some.inj (hbefore.symm.trans hl)
      obtain rfl : l₀.dispatch = l' := Option.some.inj (hlife.symm.trans hl')
      have hskips : skipsState l₀.state .dispatched = true := by
        simp [skipsState, hwaiting]
      show queueTransition l₀.state .dispatched = true
      simp [queueTransition, hskips]
  | called c attempt hcall horigin htarget hlife =>
      rw [hl] at hlife
      obtain rfl : c.lifeStep (JobQueue.guardsRunning (σ := σ)) l = l' :=
        Option.some.inj (hlife.symm.trans hl')
      rcases state_lifeStep c (JobQueue.guardsRunning (σ := σ)) l with
        hsame | ⟨hto, hended⟩
      · exact absurd hsame.symm hne
      · have hrunning : l.state.isTerminal = false := by
          by_contra hterm
          rw [Bool.not_eq_false] at hterm
          obtain ⟨hguards, i, rfl⟩ := hended hterm
          obtain rfl : i = id := htarget
          simp [revives, hcall, hguards, hl, hterm] at hlive
        rcases hs.plain id l hl with hqueued | hpast
        · -- only the user calls for a job that waits for its first claim
          have hcancel : ∃ i, c = .cancel i := by
            by_contra hother
            obtain ⟨l₀, hl₀, hpast⟩ := pastClaim_target hs horigin
              (fun i hi => hother ⟨i, hi⟩)
            rw [htarget, hl] at hl₀
            obtain rfl : l = l₀ := Option.some.inj hl₀
            rw [hqueued] at hpast
            cases hpast
          obtain ⟨i, rfl⟩ := hcancel
          rw [← Option.some.inj hto, hqueued]
          rfl
        · refine queueTransition_of_pastClaim hpast hrunning hne ?_
          generalize (c.lifeStep (JobQueue.guardsRunning (σ := σ)) l).state = toState
            at hto
          cases c with
          | renewLease i secs | setPromptId i p => cases hto
          | markRunning i =>
              obtain rfl : i = id := htarget
              refine .inl ⟨(Option.some.inj hto).symm, fun hwait => ?_⟩
              simp [comesLate, hcall, hl, hwait] at htime
          | markSucceeded i result =>
              obtain rfl : i = id := htarget
              simp only [comesLate, hcall, hl, Option.any_some, Bool.or_eq_false_iff,
                decide_eq_false_iff_not] at htime
              refine .inr (.inl ⟨(Option.some.inj hto).symm, ?_⟩)
              exact running_of_pastClaim hpast hrunning htime.1 htime.2
          | markRetryWait i code detail delay draw =>
              exact .inr (.inr (.inl (Option.some.inj hto).symm))
          | markFailed i code detail =>
              exact .inr (.inr (.inr (.inl (Option.some.inj hto).symm)))
          | cancel i => exact .inr (.inr (.inr (.inr (Option.some.inj hto).symm)))

/-- In every run, the changes of state that a queue makes are those the state
machine allows and those that skip a state.  Left open are the calls that come late,
and an unguarded `mark_running` of a job that has ended. -/
theorem changes_run (settings : Settings) (queue : σ) (hempty : NoJobs queue)
    (as : List Action) (a : Action) (s t : Sys σ)
    (hrun : (system σ settings).exec (.init queue) as = some s)
    (hstep : step settings s a = some t) (hlive : revives settings s a = false)
    (htime : comesLate settings s a = false)
    (fromState toState : JobState) (hchange : ChangesState s t fromState toState) :
    queueTransition fromState toState = true := by
  have hs : StatesKept s := Machine.invariant (I := StatesKept)
    (C := fun _ _ => True) (fun _ _ _ hs _ h => statesKept_step hs h)
    (statesKept_init hempty) (Machine.along_of_split hrun (fun _ _ _ _ _ _ => trivial))
    hrun
  exact queueTransition_step hs hstep hlive htime hchange

end Changes

/-! ## The changes that are not allowed -/

section Runs

variable {σ : Type} [JobQueue σ]

/-- The state of job 7. -/
def stateOfSeven (s : Sys σ) : Option JobState :=
  (JobQueue.life s.queue 7).map JobLife.state

/-- The states of job 7 before and after the last step of a run. -/
def changeAt (queue : σ) (as : List Action) (a : Action) :
    Option (Option JobState × Option JobState) :=
  ((system σ {}).exec (.init queue) as).bind (fun s =>
    (step {} s a).map (fun t => (stateOfSeven s, stateOfSeven t)))

theorem changesState_of_changeAt {queue : σ} {as : List Action} {a : Action}
    {fromState toState : JobState} (hne : fromState ≠ toState)
    (h : changeAt queue as a = some (some fromState, some toState)) :
    ∃ s t, (system σ {}).exec (.init queue) as = some s ∧ step {} s a = some t ∧
      ChangesState s t fromState toState := by
  obtain ⟨s, hs, hrest⟩ := Option.bind_eq_some_iff.mp h
  obtain ⟨t, ht, hstates⟩ := Option.map_eq_some_iff.mp hrest
  obtain ⟨hbefore, hafter⟩ := Prod.mk.inj hstates
  obtain ⟨l, hl, hl₀⟩ := Option.map_eq_some_iff.mp hbefore
  obtain ⟨l', hl', hl₀'⟩ := Option.map_eq_some_iff.mp hafter
  exact ⟨s, t, hs, ht, hne, 7, l, l', hl, hl₀, hl', hl₀'⟩

/-- For each change that is not allowed, a run that makes it. -/
def shortcutRuns : List (JobState × JobState × List Action × Action) :=
  [(.queued, .dispatched, claimedRun.take 3, .claimLane 0 []),
    (.retryWait, .dispatched,
      claimedRun ++ submitRaises 0 ++ [.countComfy 0, .countGemini 0 none],
      .claimLane 0 []),
    (.dispatched, .cancelled, claimedRun, .cancel 7),
    (.running, .cancelled, claimedRun ++ [.markRunning 0], .cancel 7)]

theorem mem_shortcutRuns {fromState toState : JobState}
    (hnot : canTransition fromState toState = false)
    (h : queueTransition fromState toState = true) :
    ∃ e ∈ shortcutRuns, e.1 = fromState ∧ e.2.1 = toState := by
  have hmem : (fromState, toState) ∈ shortcutRuns.map (fun e => (e.1, e.2.1)) := by
    cases fromState <;> cases toState <;> revert hnot h <;> decide
  obtain ⟨e, he, heq⟩ := List.mem_map.mp hmem
  exact ⟨e, he, Prod.mk.inj heq⟩

/-- None of the changes that are not allowed is in vain: each is made in some run of
either adapter. -/
theorem changes_taken (fromState toState : JobState)
    (hnot : canTransition fromState toState = false)
    (h : queueTransition fromState toState = true) :
    (∃ as a, ∃ s t : Sys InMemoryJobQueue,
      (system InMemoryJobQueue {}).exec (.init .empty) as = some s ∧
      step {} s a = some t ∧ ChangesState s t fromState toState) ∧
    ∃ as a, ∃ s t : Sys PostgresJobQueue,
      (system PostgresJobQueue {}).exec (.init .empty) as = some s ∧
      step {} s a = some t ∧ ChangesState s t fromState toState := by
  obtain ⟨e, hmem, rfl, rfl⟩ := mem_shortcutRuns hnot h
  have hmemory : ∀ e ∈ shortcutRuns, e.1 ≠ e.2.1 ∧
      changeAt InMemoryJobQueue.empty e.2.2.1 e.2.2.2 =
        some (some e.1, some e.2.1) := by decide +kernel
  have hpostgres : ∀ e ∈ shortcutRuns,
      changeAt PostgresJobQueue.empty e.2.2.1 e.2.2.2 =
        some (some e.1, some e.2.1) := by decide +kernel
  obtain ⟨hne, hchange⟩ := hmemory _ hmem
  exact ⟨⟨_, _, changesState_of_changeAt hne hchange⟩,
    ⟨_, _, changesState_of_changeAt hne (hpostgres _ hmem)⟩⟩

/-- The claim of a queued job. -/
theorem not_canTransition :
    ¬ ∀ (settings : Settings) (as : List Action) (a : Action)
      (s t : Sys PostgresJobQueue),
      (system PostgresJobQueue settings).exec (.init .empty) as = some s →
      step settings s a = some t → ∀ fromState toState,
      ChangesState s t fromState toState →
        canTransition fromState toState = true := by
  intro h
  have hchange : changeAt PostgresJobQueue.empty (claimedRun.take 3)
      (.claimLane 0 []) = some (some .queued, some .dispatched) := by decide +kernel
  obtain ⟨s, t, hs, ht, hclaimed⟩ := changesState_of_changeAt (by decide) hchange
  have hallowed := h {} _ _ s t hs ht _ _ hclaimed
  exact absurd hallowed (by decide)

/-- The same claim is one of the changes. -/
theorem changes_run_claimed :
    ∃ s t : Sys PostgresJobQueue, ChangesState s t .queued .dispatched ∧
      queueTransition .queued .dispatched = true := by
  have hchange : changeAt PostgresJobQueue.empty (claimedRun.take 3)
      (.claimLane 0 []) = some (some .queued, some .dispatched) := by decide +kernel
  obtain ⟨s, t, hs, ht, hclaimed⟩ := changesState_of_changeAt (by decide) hchange
  exact ⟨s, t, hclaimed, changes_run {} _ noJobs_postgres _ _ s t hs ht rfl rfl _ _
    hclaimed⟩

/-! ## Calls that come late -/

/-- Reconciler 0 gives up a lease that has run out. -/
def leaseRunsOut : List Action :=
  [.advance 121000000, .startPass 0, .listActive 0, .reconcile 0 0]

/-- Two reconcilers poll one prompt, and the first is told that it failed. -/
def polledTwiceRun : List Action :=
  claimedRun ++ [.markRunning 0, .submit 0, .submitReturns 0 "p", .setPromptId 0,
    .startPass 0, .startPass 1, .listActive 0, .listActive 1, .reconcile 0 0,
    .reconcile 1 0, .answer 0 { state := .failed } 0]

/-- Calls that come late, each with the change it makes. -/
def lateRuns : List (JobState × JobState × List Action × Action) :=
  [(.dispatched, .succeeded,
      slowSubmitRun ++ [.startPass 0, .listActive 0, .reconcile 0 0],
      .answer 0 { state := .succeeded } 0),
    (.retryWait, .running, claimedRun ++ leaseRunsOut, .markRunning 0),
    (.retryWait, .succeeded, polledTwiceRun, .answer 1 { state := .succeeded } 0)]

/-- They make changes that are none of the others, over either adapter. -/
theorem late_changes : ∀ e ∈ lateRuns, queueTransition e.1 e.2.1 = false ∧
    (∃ s t : Sys InMemoryJobQueue,
      (system InMemoryJobQueue {}).exec (.init .empty) e.2.2.1 = some s ∧
      step {} s e.2.2.2 = some t ∧ ChangesState s t e.1 e.2.1) ∧
    ∃ s t : Sys PostgresJobQueue,
      (system PostgresJobQueue {}).exec (.init .empty) e.2.2.1 = some s ∧
      step {} s e.2.2.2 = some t ∧ ChangesState s t e.1 e.2.1 := by
  have hmemory : ∀ e ∈ lateRuns, (queueTransition e.1 e.2.1 = false ∧ e.1 ≠ e.2.1) ∧
      changeAt InMemoryJobQueue.empty e.2.2.1 e.2.2.2 =
        some (some e.1, some e.2.1) := by decide +kernel
  have hpostgres : ∀ e ∈ lateRuns,
      changeAt PostgresJobQueue.empty e.2.2.1 e.2.2.2 =
        some (some e.1, some e.2.1) := by decide +kernel
  intro e hmem
  obtain ⟨⟨hnot, hne⟩, hchange⟩ := hmemory e hmem
  exact ⟨hnot, changesState_of_changeAt hne hchange,
    changesState_of_changeAt hne (hpostgres e hmem)⟩

end Runs

end Imagin4.Ports
