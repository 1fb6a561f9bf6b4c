import Imagin4.Ports.MemoryQueue
import Imagin4.Ports.JobSystem

/-!
# Terminal states of the in-memory queue

`InMemoryJobQueue` documents that no call may change a job once it has
succeeded, failed or been cancelled.  `mark_succeeded`, `mark_failed`,
`mark_retry_wait` and `cancel` check for it; `mark_running` does not, and a
dispatch whose job is cancelled between its claim and its `mark_running` brings
the job back to life.  That is the only way: a run keeps the outcome of every
finished job if and only if no `mark_running` of it finds a finished job.

## Main results

* `sealed_step` — a step that does not run a finished job keeps every outcome.
* `terminalFrozen_iff` — the runs that keep every outcome.
* `not_terminalFrozen_cancelled` — the cancel that is undone.
-/

namespace Imagin4.Ports

open Imagin4.Verified

/-- What a caller may rely on once a job has ended. -/
structure Outcome where
  state : JobState
  result : Option JobResult
  errorCode : Option String
  errorDetail : Option String
  currentAttempt : Nat
deriving DecidableEq

/-- The outcome fields of a job. -/
def QueuedJob.outcome (j : QueuedJob) : Outcome :=
  ⟨j.state, j.result, j.errorCode, j.errorDetail, j.currentAttempt⟩

namespace InMemoryJobQueue

/-! ## One call -/

/-- Every job that has ended in `q` has the same outcome in `r`. -/
def Sealed (q r : InMemoryJobQueue) : Prop :=
  ∀ id j, q.get id = some j → j.state.isTerminal = true →
    (r.get id).map QueuedJob.outcome = some j.outcome

theorem sealed_refl (q : InMemoryJobQueue) : q.Sealed q := by
  intro id j hj _
  rw [hj]
  rfl

theorem Sealed.trans {q r s : InMemoryJobQueue} (hqr : q.Sealed r)
    (hrs : r.Sealed s) : q.Sealed s := by
  intro id j hj hterm
  obtain ⟨k, hk, hout⟩ := Option.map_eq_some_iff.mp (hqr id j hj hterm)
  have hstate : k.state = j.state := congrArg Outcome.state hout
  rw [hrs id k hk (hstate ▸ hterm), hout]

/-- An update that keeps the outcome of finished jobs. -/
theorem sealed_update (id : Uuid) (f : QueuedJob → QueuedJob)
    (hf : ∀ j, (f j).id = j.id) (q : InMemoryJobQueue)
    (hkeep : ∀ j, q.get id = some j → j.state.isTerminal = true →
      (f j).outcome = j.outcome) : q.Sealed (q.update id f hf) := by
  intro i j hj hterm
  rw [get_update]
  by_cases hi : i = id
  · subst hi
    rw [if_pos rfl, hj]
    exact congrArg some (hkeep j hj hterm)
  · rw [if_neg hi, hj]
    rfl

theorem sealed_updateLive (id : Uuid) (f : QueuedJob → QueuedJob)
    (hf : ∀ j, (f j).id = j.id) (q : InMemoryJobQueue) :
    q.Sealed (q.updateLive id f hf) := by
  refine sealed_update id _ _ q (fun j _ hterm => ?_)
  rw [if_pos hterm]

/-- Every call but a `mark_running` of a finished job keeps the outcomes. -/
theorem sealed_apply (c : QueueCall) (now : DateTime) (q : InMemoryJobQueue)
    (hrun : ∀ id, c = .markRunning id → ∀ j, q.get id = some j →
      j.state.isTerminal = false) : q.Sealed (c.apply now q) := by
  cases c with
  | renewLease id secs =>
      refine sealed_update id _ _ q (fun j _ hterm => ?_)
      rw [if_neg (by simp [JobState.not_active_of_terminal hterm])]
  | markRunning id =>
      refine sealed_update id _ _ q (fun j hj hterm => ?_)
      rw [hrun id rfl j hj] at hterm
      cases hterm
  | markSucceeded id result =>
      exact sealed_updateLive id _ (by intro; rfl) q
  | markFailed id code detail =>
      exact sealed_updateLive id _ (by intro; rfl) q
  | markRetryWait id code detail delay draw =>
      exact sealed_updateLive id _
        (waitForRetry_id code detail delay draw now) q
  | setPromptId id p => exact sealed_update id _ _ q (fun _ _ _ => rfl)
  | cancel id => exact sealed_updateLive id _ (by intro; rfl) q

theorem sealed_enqueue {job : QueuedJob} {q : InMemoryJobQueue}
    (hnew : q.get job.id = none) : q.Sealed (q.enqueue job) := by
  intro id j hj _
  have hne : id ≠ job.id := by
    rintro rfl
    rw [hnew] at hj
    cases hj
  rw [get_enqueue, if_neg hne, hj]
  rfl

/-- A claim takes no job that has ended. -/
theorem sealed_claim (req : ClaimRequest) (now : DateTime)
    (q : InMemoryJobQueue) : q.Sealed (q.claimNextWithLease req now).1 := by
  intro id j hj hterm
  have hnot : id ∉ (q.claimNextWithLease req now).2.map QueuedJob.id := by
    intro hmem
    obtain ⟨taken, _, htaken, heq⟩ := exists_taken req now q
    rw [heq, List.map_map] at hmem
    obtain ⟨k, hk, rfl⟩ := List.mem_map.mp hmem
    obtain ⟨hget, helig⟩ := htaken k hk
    obtain rfl : k = j := Option.some.inj (hget.symm.trans hj)
    simp only [eligible, Bool.and_eq_true] at helig
    have hwait := JobState.not_waiting_of_terminal hterm
    rw [helig.1.1] at hwait
    cases hwait
  rw [get_claimNextWithLease, if_neg hnot, hj]
  rfl

end InMemoryJobQueue

/-! ## Runs -/

/-- No `mark_running` is made of a job that has ended. -/
def runsLive (settings : Settings) (s : Sys InMemoryJobQueue) (a : Action) :
    Bool :=
  match callOf settings s a with
  | some (.markRunning id, _) =>
      match s.queue.get id with
      | some j => !j.state.isTerminal
      | none => true
  | _ => true

/-- In the run `as` from an empty queue, a job that has ended keeps its
outcome. -/
def TerminalFrozen (settings : Settings) (as : List Action) : Prop :=
  ∀ pre mid post s t, as = pre ++ mid ++ post →
    (system InMemoryJobQueue settings).exec (.init .empty) pre = some s →
    (system InMemoryJobQueue settings).exec s mid = some t →
    s.queue.Sealed t.queue

/-- A step that does not run a finished job keeps every outcome. -/
theorem sealed_step {settings : Settings} {s t : Sys InMemoryJobQueue}
    {a : Action} (hlive : runsLive settings s a = true)
    (h : step settings s a = some t) : s.queue.Sealed t.queue := by
  cases step_move h with
  | quiet _ _ hqueue =>
      rw [hqueue]
      exact InMemoryJobQueue.sealed_refl _
  | enqueue job _ _ hnew => exact InMemoryJobQueue.sealed_enqueue hnew
  | claim _ i req locked _ _ hqueue =>
      rw [hqueue]
      exact InMemoryJobQueue.sealed_claim req _ _
  | call u c attempt hcall _ hnow hqueue =>
      show s.queue.Sealed (c.apply u.now u.queue)
      rw [hqueue]
      refine InMemoryJobQueue.sealed_apply c _ _ ?_
      rintro id rfl j hj
      simpa [runsLive, hcall, hj] using hlive

/-- A `mark_running` of a finished job changes its outcome. -/
theorem runsLive_of_sealed {settings : Settings} {s t : Sys InMemoryJobQueue}
    {a : Action} (h : step settings s a = some t)
    (hsealed : s.queue.Sealed t.queue) : runsLive settings s a = true := by
  unfold runsLive
  split
  · rename_i id attempt hcall
    split
    · rename_i j hj
      cases hterm : j.state.isTerminal with
      | false => rfl
      | true =>
          exfalso
          have hout := hsealed id j hj hterm
          cases step_move h with
          | quiet _ hnone => simp [hnone] at hcall
          | enqueue job ha => simp [ha, callOf] at hcall
          | claim _ i req locked ha => simp [ha, callOf] at hcall
          | call u c attempt' hcall' _ hnow hqueue =>
              rw [hcall'] at hcall
              cases hcall
              have hget : (u.call (.markRunning id) attempt).queue.get id =
                  some { j with state := .running, promptId := none } := by
                show (u.queue.markRunning id).get id = _
                unfold InMemoryJobQueue.markRunning
                rw [InMemoryJobQueue.get_update, if_pos rfl, hqueue, hj]
                rfl
              rw [hget] at hout
              have hstate : JobState.running = j.state :=
                congrArg Outcome.state (Option.some.inj hout)
              rw [← hstate] at hterm
              cases hterm
    · rfl
  · rfl

/-- A run of the in-memory queue keeps the outcome of every job that has ended
exactly if no `mark_running` in it finds a job that has ended. -/
theorem terminalFrozen_iff (settings : Settings) (as : List Action)
    (t : Sys InMemoryJobQueue)
    (hrun : (system InMemoryJobQueue settings).exec (.init .empty) as =
      some t) :
    TerminalFrozen settings as ↔
      (system InMemoryJobQueue settings).Along
        (fun s a => runsLive settings s a = true) (.init .empty) as := by
  constructor
  · intro hfrozen
    refine Machine.along_of_split hrun (fun pre a post r hsplit hpre => ?_)
    rw [hsplit] at hrun
    obtain ⟨r', hr', hpost⟩ := (Machine.exec_append_eq_some _).mp hrun
    obtain rfl : r = r' := Option.some.inj (hpre.symm.trans hr')
    obtain ⟨q, hstep, _⟩ := (Machine.exec_cons_eq_some _).mp hpost
    refine runsLive_of_sealed hstep (hfrozen pre [a] post r q ?_ hpre ?_)
    · rw [hsplit, List.append_assoc, List.singleton_append]
    · exact (Machine.exec_cons_eq_some _).mpr ⟨q, hstep, rfl⟩
  · intro halong pre mid post r s hsplit hpre hmid
    rw [hsplit, List.append_assoc] at halong
    have htail := ((Machine.along_append hpre).mp halong).2
    have hmidAlong := ((Machine.along_append hmid).mp htail).1
    exact Machine.transition (I := fun _ => True)
      (R := fun s t => s.queue.Sealed t.queue)
      (fun s => InMemoryJobQueue.sealed_refl s.queue)
      (fun h h' => h.trans h') (fun _ _ _ _ _ _ => trivial)
      (fun _ _ _ _ hlive hstep => sealed_step hlive hstep)
      trivial hmidAlong hmid

/-! ## The cancel that is undone -/

/-- The user cancels the claimed job before its task calls `mark_running`. -/
def revivedRun : List Action := claimedRun ++ [.cancel 7, .markRunning 0]

/-- The state of job 7 at the end of a run. -/
def stateAfter (as : List Action) : Option JobState :=
  ((system InMemoryJobQueue {}).exec (.init .empty) as).bind
    (fun s => (s.queue.get 7).map QueuedJob.state)

theorem not_terminalFrozen_cancelled :
    ¬ ∀ (settings : Settings) (as : List Action) (t : Sys InMemoryJobQueue),
      (system InMemoryJobQueue settings).exec (.init .empty) as = some t →
      TerminalFrozen settings as := by
  intro h
  have hcancelled : stateAfter (claimedRun ++ [.cancel 7]) =
      some .cancelled := by decide +kernel
  have hrunning : stateAfter revivedRun = some .running := by decide +kernel
  obtain ⟨s, hs, hstate⟩ := Option.bind_eq_some_iff.mp hcancelled
  obtain ⟨t, ht, hstate'⟩ := Option.bind_eq_some_iff.mp hrunning
  obtain ⟨j, hj, hcancel⟩ := Option.map_eq_some_iff.mp hstate
  have hmid : (system InMemoryJobQueue {}).exec s [.markRunning 0] = some t := by
    have hsplit : (system InMemoryJobQueue {}).exec (.init .empty)
        ((claimedRun ++ [.cancel 7]) ++ [.markRunning 0]) = some t := ht
    obtain ⟨s', hs', hmid⟩ := (Machine.exec_append_eq_some _).mp hsplit
    rwa [Option.some.inj (hs.symm.trans hs')]
  have hout := h {} revivedRun t ht (claimedRun ++ [.cancel 7])
    [.markRunning 0] [] s t rfl hs hmid 7 j hj (by rw [hcancel]; rfl)
  obtain ⟨k, hk, hkout⟩ := Option.map_eq_some_iff.mp hout
  have hkstate : k.state = j.state := congrArg Outcome.state hkout
  rw [hk] at hstate'
  cases (hkstate.symm.trans (Option.some.inj hstate')).symm.trans hcancel

/-- The same run with the cancel after `mark_running`. -/
theorem terminalFrozen_iff_cancelledLater :
    TerminalFrozen {} (claimedRun ++ [.markRunning 0, .cancel 7]) :=
  have hsome : ((system InMemoryJobQueue {}).exec (.init .empty)
      (claimedRun ++ [.markRunning 0, .cancel 7])).isSome = true := by
    decide +kernel
  (terminalFrozen_iff {} _ _ (Option.eq_some_of_isSome hsome)).mpr
    (by decide +kernel)

end Imagin4.Ports
