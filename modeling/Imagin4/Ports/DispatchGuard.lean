import Imagin4.Ports.JobLives
import Imagin4.Ports.MemoryQueue
import Imagin4.Ports.PostgresQueue

/-!
# What `mark_running` finds

`Scheduler._dispatch` calls `mark_running` and then `submit`, whatever
`mark_running` found: a job that was cancelled or resolved after its claim is
submitted to its backend all the same.  A run is free of this as long as no
job ends between its claim and the `mark_running` of that claim.

## Main results

* `dispatchInv_step` — a dispatch that has yet to call `mark_running` is about
  a job that has not ended.
* `no_submit_after_end` — no dispatch submits a job it found ended, for runs
  in which no job ends under a pending dispatch.
* `not_no_submit_after_end` — a cancelled job that is submitted, on either
  adapter.
-/

namespace Imagin4.Ports

open Imagin4.Verified

/-- Has the dispatch yet to call `mark_running`? -/
def Dispatch.pending (d : Dispatch) : Bool :=
  match d.phase with
  | .held _ => true
  | .ready => true
  | _ => false

/-- Does the call end a job? -/
def QueueCall.ends : QueueCall → Bool
  | .markSucceeded _ _ => true
  | .markFailed _ _ _ => true
  | .cancel _ => true
  | _ => false

section Guard

variable {σ : Type} [JobQueue σ]

/-- No job is ended while one of its dispatches is pending. -/
def endsBetweenDispatches (settings : Settings) (s : Sys σ) (a : Action) :
    Bool :=
  match callOf settings s a with
  | some (c, _) =>
      !c.ends ||
        s.tasks.all (fun d => !(d.pending && d.job.id = c.target))
  | none => true

/-- No dispatch has submitted a job that `mark_running` had found ended. -/
def NoSubmitAfterEnd (s : Sys σ) : Prop :=
  ∀ d ∈ s.tasks, d.submitted = true → ∀ st, d.seen = some st →
    st.isTerminal = false

/-- The invariant: pending dispatches are about jobs that have not ended, and
`mark_running` has never found one that had. -/
structure DispatchInv (s : Sys σ) : Prop where
  live : ∀ d ∈ s.tasks, d.pending = true →
    ∃ l, JobQueue.life s.queue d.job.id = some l ∧ l.state.isTerminal = false
  seen : ∀ d ∈ s.tasks, ∀ st, d.seen = some st → st.isTerminal = false

/-- A call that does not end its job leaves it alive. -/
theorem live_lifeStep {c : QueueCall} (hc : c.ends = false) (guarded : Bool)
    {l : JobLife} (h : l.state.isTerminal = false) :
    (c.lifeStep guarded l).state.isTerminal = false := by
  cases c with
  | renewLease id secs => exact h
  | setPromptId id p => exact h
  | markSucceeded id result => cases hc
  | markFailed id code detail => cases hc
  | cancel id => cases hc
  | markRunning id =>
      show (l.run guarded).state.isTerminal = false
      unfold JobLife.run
      split
      · exact h
      · rfl
  | markRetryWait id code detail delay draw =>
      show l.retry.state.isTerminal = false
      rw [JobLife.retry_of_live h]
      rfl

/-- A job with a pending dispatch stays alive. -/
theorem live_step [LawfulJobQueue σ] {settings : Settings} {s t : Sys σ}
    {a : Action} (hends : endsBetweenDispatches settings s a = true)
    (h : step settings s a = some t) {d : Dispatch} (hd : d ∈ s.tasks)
    (hpending : d.pending = true) {l : JobLife}
    (hl : JobQueue.life s.queue d.job.id = some l)
    (hlive : l.state.isTerminal = false) :
    ∃ l', JobQueue.life t.queue d.job.id = some l' ∧
      l'.state.isTerminal = false := by
  cases life_move h d.job.id with
  | same hlife => exact ⟨l, hlife.trans hl, hlive⟩
  | new job _ hnone => rw [hnone] at hl; cases hl
  | claimed l₀ _ _ hlife => exact ⟨l₀.dispatch, hlife, rfl⟩
  | called c attempt hcall _ htarget hlife =>
      refine ⟨_, by rw [hlife, hl]; rfl, live_lifeStep ?_ _ hlive⟩
      cases hc : c.ends with
      | false => rfl
      | true =>
          have hall : s.tasks.all (fun e =>
              !(e.pending && e.job.id = c.target)) = true := by
            simpa [endsBetweenDispatches, hcall, hc] using hends
          have hnot := List.all_eq_true.mp hall d hd
          simp [hpending, htarget] at hnot

/-- A dispatch that is pending after a step was pending before. -/
theorem pending_of_advance {s : Sys σ} {d e : Dispatch} (h : Advance s d e)
    (he : e.pending = true) : d.pending = true := by
  cases h with
  | same => exact he
  | spawn i hphase => simp [Dispatch.pending, hphase]
  | drop i hphase => cases he
  | mark hphase => cases he
  | submit hphase => cases he
  | submitted p hphase => cases he
  | finish => cases he

/-- What `mark_running` finds is the state the job has then. -/
theorem seen_of_advance {s : Sys σ} {d e : Dispatch} (h : Advance s d e)
    {st : JobState} (he : e.seen = some st) :
    d.seen = some st ∨
      (d.pending = true ∧ (JobQueue.life s.queue d.job.id).map
        JobLife.state = some st) := by
  cases h with
  | mark hphase =>
      refine Or.inr ⟨by simp [Dispatch.pending, hphase], ?_⟩
      unfold JobQueue.life
      rw [Option.map_map]
      exact he
  | same | spawn | drop | submit | submitted | finish => exact Or.inl he

theorem dispatchInv_step [LawfulJobQueue σ] {settings : Settings}
    {s t : Sys σ} {a : Action} (hs : DispatchInv s)
    (hends : endsBetweenDispatches settings s a = true)
    (h : step settings s a = some t) : DispatchInv t := by
  have hlive : ∀ d ∈ s.tasks, d.pending = true → ∃ l,
      JobQueue.life t.queue d.job.id = some l ∧ l.state.isTerminal = false := by
    intro d hd hpending
    obtain ⟨l, hl, hterm⟩ := hs.live d hd hpending
    exact live_step hends h hd hpending hl hterm
  rcases step_tasks h with hadv | ⟨i, locked, req, _, hqueue, htasks⟩
  · constructor
    · intro e he hpending
      obtain ⟨d, hd, hmove⟩ := hadv.backward e he
      rw [hmove.job]
      exact hlive d hd (pending_of_advance hmove hpending)
    · intro e he st hseen
      obtain ⟨d, hd, hmove⟩ := hadv.backward e he
      rcases seen_of_advance hmove hseen with hold | ⟨hpending, hnow⟩
      · exact hs.seen d hd st hold
      · obtain ⟨l, hl, hterm⟩ := hs.live d hd hpending
        rw [hl] at hnow
        cases hnow
        exact hterm
  · constructor
    · intro e he hpending
      rw [htasks] at he
      rcases List.mem_append.mp he with hold | hnew
      · exact hlive e hold hpending
      · obtain ⟨j, hj, rfl⟩ := List.mem_map.mp hnew
        obtain ⟨l, hl, _, _⟩ := LawfulJobQueue.claim_waiting hj
        have hlife := LawfulJobQueue.life_claim req locked s.now s.queue j.id
        rw [if_pos (List.mem_map_of_mem hj), hl] at hlife
        exact ⟨l.dispatch, by rw [hqueue]; exact hlife, rfl⟩
    · intro e he st hseen
      rw [htasks] at he
      rcases List.mem_append.mp he with hold | hnew
      · exact hs.seen e hold st hseen
      · obtain ⟨j, _, rfl⟩ := List.mem_map.mp hnew
        cases hseen

/-- While no job ends under a pending dispatch, no dispatch submits a job that
its `mark_running` found succeeded, failed or cancelled. -/
theorem no_submit_after_end [LawfulJobQueue σ] (settings : Settings)
    (queue : σ) (as : List Action) (t : Sys σ)
    (halong : (system σ settings).Along
      (fun s a => endsBetweenDispatches settings s a = true) (.init queue) as)
    (hrun : (system σ settings).exec (.init queue) as = some t) :
    NoSubmitAfterEnd t := by
  have hinit : DispatchInv (Sys.init queue) := by
    constructor
    · intro d hd
      cases hd
    · intro d hd
      cases hd
  have hinv : DispatchInv t :=
    Machine.invariant (I := DispatchInv)
      (fun _ _ _ hs hends h => dispatchInv_step hs hends h) hinit halong hrun
  exact fun d hd _ st hst => hinv.seen d hd st hst

end Guard

/-! ## The cancelled job that is submitted -/

section Runs

/-- A claimed job is cancelled before its dispatch task runs. -/
def cancelledRun : List Action :=
  claimedRun ++ [.cancel 7, .markRunning 0, .submit 0]

/-- Did dispatch 0 submit, and what had it found? -/
def submittedAfter {σ : Type} [JobQueue σ] (queue : σ) (as : List Action) :
    Option (Option (Bool × Option JobState)) :=
  ((system σ {}).exec (.init queue) as).map
    (fun t => t.tasks[0]?.map (fun d => (d.submitted, d.seen)))

theorem submit_after_cancel {σ : Type} [JobQueue σ] {q : σ}
    (h : submittedAfter q cancelledRun =
      some (some (true, some .cancelled))) :
    ∃ t, (system σ {}).exec (.init q) cancelledRun = some t ∧
      ¬ NoSubmitAfterEnd t := by
  obtain ⟨t, ht, htask⟩ := Option.map_eq_some_iff.mp h
  obtain ⟨d, hd, heq⟩ := Option.map_eq_some_iff.mp htask
  obtain ⟨hsubmitted, hseen⟩ := Prod.mk.inj heq
  refine ⟨t, ht, fun hno => ?_⟩
  have hterm := hno d (List.mem_of_getElem? hd) hsubmitted .cancelled hseen
  cases hterm

/-- Neither adapter keeps a cancelled job from being submitted. -/
theorem not_no_submit_after_end :
    (¬ ∀ (settings : Settings) (as : List Action) (t : Sys InMemoryJobQueue),
      (system InMemoryJobQueue settings).exec (.init .empty) as = some t →
      NoSubmitAfterEnd t) ∧
    ¬ ∀ (settings : Settings) (as : List Action) (t : Sys PostgresJobQueue),
      (system PostgresJobQueue settings).exec (.init .empty) as = some t →
      NoSubmitAfterEnd t := by
  constructor
  · intro h
    obtain ⟨t, ht, hnot⟩ := submit_after_cancel
      (q := InMemoryJobQueue.empty) (by decide +kernel)
    exact hnot (h {} cancelledRun t ht)
  · intro h
    obtain ⟨t, ht, hnot⟩ := submit_after_cancel
      (q := PostgresJobQueue.empty) (by decide +kernel)
    exact hnot (h {} cancelledRun t ht)

/-- The same job, cancelled once its dispatch has called `mark_running`. -/
theorem no_submit_after_end_cancelledLater :
    ∃ t : Sys PostgresJobQueue,
      (system PostgresJobQueue {}).exec (.init .empty)
        (claimedRun ++ [.markRunning 0, .cancel 7, .submit 0]) =
        some t ∧ NoSubmitAfterEnd t := by
  have hsome : ((system PostgresJobQueue {}).exec (.init .empty)
      (claimedRun ++
        [.markRunning 0, .cancel 7, .submit 0])).isSome = true := by
    decide +kernel
  obtain ⟨t, ht⟩ := Option.isSome_iff_exists.mp hsome
  exact ⟨t, ht, no_submit_after_end {} _ _ t (by decide +kernel) ht⟩

end Runs

end Imagin4.Ports
