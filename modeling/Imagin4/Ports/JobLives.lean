import Mathlib.Data.List.Nodup
import Imagin4.Ports.JobSystem

/-!
# Job lives along a run

What a step of the system does to the life of one job, over any adapter that
keeps the laws of the `JobQueue` protocol, and the rule for showing that a
relation between lives and claims holds in every run.

## Main results

* `life_move` — the life of a job changes when it is enqueued, when it is
  claimed, which is counted, and by the queue calls about it.
* `claimsCharged_step` — claims are charged to the attempt counter, whoever
  else moves it.
* `attemptsDistinct_step` — no attempt of a job is claimed twice.
* `returned_step` — a prompt id that `submit` has returned stays with its
  dispatch.
-/

namespace Imagin4.Ports

open Imagin4.Verified

/-! ## Attempt numbers -/

/-- Number `n` is charged to `l`: the attempts up to `current_attempt` are
over, and one more may be running unless the job waits. -/
def Charged (l : JobLife) (n : Nat) : Prop :=
  n ≤ l.currentAttempt + 1 ∧ (l.state.isWaiting = true → n ≤ l.currentAttempt)

theorem Charged.dispatch {l : JobLife} {n : Nat} (h : Charged l n) :
    Charged l.dispatch n := by
  refine ⟨h.1, fun hw => ?_⟩
  simp [JobLife.dispatch, JobState.isWaiting] at hw

/-- A claim starts the next attempt. -/
theorem Charged.next {l : JobLife} {n : Nat} (h : Charged l n)
    (hwaiting : l.state.isWaiting = true) : Charged l.dispatch (n + 1) := by
  have hle := h.2 hwaiting
  refine ⟨?_, fun hw => ?_⟩
  · show n + 1 ≤ l.currentAttempt + 1
    omega
  · simp [JobLife.dispatch, JobState.isWaiting] at hw

theorem Charged.finish {l : JobLife} {n : Nat} (h : Charged l n)
    {final : JobState} (hfinal : final.isTerminal = true) :
    Charged (l.finish final) n := by
  unfold JobLife.finish
  split
  · exact h
  · refine ⟨h.1, fun hw => ?_⟩
    rw [JobState.not_waiting_of_terminal hfinal] at hw
    cases hw

/-- No call takes a charge back. -/
theorem Charged.lifeStep {l : JobLife} {n : Nat} (h : Charged l n)
    (c : QueueCall) (guarded : Bool) : Charged (c.lifeStep guarded l) n := by
  cases c with
  | renewLease id secs => exact h
  | setPromptId id p => exact h
  | markSucceeded id result => exact h.finish rfl
  | markFailed id code detail => exact h.finish rfl
  | cancel id => exact h.finish rfl
  | markRunning id =>
      show Charged (l.run guarded) n
      unfold JobLife.run
      split
      · exact h
      · refine ⟨h.1, fun hw => ?_⟩
        simp [JobState.isWaiting] at hw
  | markRetryWait id code detail delay draw =>
      show Charged l.retry n
      cases hterm : l.state.isTerminal with
      | true =>
          rw [JobLife.retry_of_terminal hterm]
          exact h
      | false =>
          rw [JobLife.retry_of_live hterm]
          have hle := h.1
          refine ⟨?_, fun _ => hle⟩
          show n ≤ l.currentAttempt + 1 + 1
          omega

/-! ## One step -/

variable {σ : Type} [JobQueue σ]

/-- What one step does to the life and to the claims of the job `id`. -/
inductive LifeMove (settings : Settings) (s : Sys σ) (a : Action) (t : Sys σ)
    (id : Uuid) : Prop
  | same (hlife : JobQueue.life t.queue id = JobQueue.life s.queue id)
      (hclaims : t.claims id = s.claims id)
  | new (job : QueuedJob) (hadmitted : admitted job = true)
      (hnone : JobQueue.life s.queue id = none)
      (hlife : JobQueue.life t.queue id = some job.life)
      (hclaims : t.claims id = s.claims id)
  | claimed (l : JobLife) (hbefore : JobQueue.life s.queue id = some l)
      (hwaiting : l.state.isWaiting = true)
      (hlife : JobQueue.life t.queue id = some l.dispatch)
      (hclaims : t.claims id = s.claims id + 1)
  | called (c : QueueCall) (attempt : Nat)
      (hcall : callOf settings s a = some (c, attempt))
      (horigin : Origin s a c attempt) (htarget : c.target = id)
      (hlife : JobQueue.life t.queue id = (JobQueue.life s.queue id).map
        (c.lifeStep (JobQueue.guardsRunning (σ := σ))))
      (hclaims : t.claims id = s.claims id)

/-- A step moves the life of a job in one of these ways. -/
theorem life_move [LawfulJobQueue σ] {settings : Settings} {s t : Sys σ}
    {a : Action} (h : step settings s a = some t) (id : Uuid) :
    LifeMove settings s a t id := by
  cases step_move h with
  | quiet _ _ hqueue hjobs =>
      exact .same (by rw [hqueue]) (Sys.claims_of_jobs_eq hjobs id)
  | enqueue job _ hadmitted hnew =>
      have hnone : JobQueue.life s.queue job.id = none := by
        unfold JobQueue.life
        rw [hnew]
        rfl
      rcases LawfulJobQueue.life_enqueue s.now hnew with hsame | hadded
      · exact .same (hsame id) rfl
      · by_cases hid : id = job.id
        · subst hid
          exact .new job hadmitted hnone (by rw [hadded, if_pos rfl]) rfl
        · exact .same (by rw [hadded, if_neg hid]) rfl
  | claim u i req locked _ _ hqueue hjobs =>
      have hlife := LawfulJobQueue.life_claim req locked s.now s.queue id
      have hnodup := LawfulJobQueue.claim_nodup req locked s.now s.queue
      rw [← hqueue] at hlife
      have hcount : t.claims id = s.claims id +
          ((JobQueue.claimNextWithLease req locked s.now s.queue).2.map
            QueuedJob.id).count id := by
        unfold Sys.claims
        rw [hjobs, List.map_append, List.count_append]
      by_cases hmem : id ∈ (JobQueue.claimNextWithLease req locked s.now
        s.queue).2.map QueuedJob.id
      · obtain ⟨j, hj, rfl⟩ := List.mem_map.mp hmem
        obtain ⟨l, hl, hwaiting, _⟩ := LawfulJobQueue.claim_waiting hj
        refine .claimed l hl hwaiting ?_ ?_
        · rw [hlife, if_pos hmem, hl]
          rfl
        · rw [hcount, List.count_eq_one_of_mem hnodup hmem]
      · refine .same (by rw [hlife, if_neg hmem]) ?_
        rw [hcount, List.count_eq_zero_of_not_mem hmem, Nat.add_zero]
  | call u c attempt hcall horigin hnow hqueue hjobs =>
      have hclaims : (u.call c attempt).claims id = s.claims id :=
        Sys.claims_of_jobs_eq hjobs id
      have hstep : (u.call c attempt).queue = c.apply s.now s.queue := by
        show c.apply u.now u.queue = _
        rw [hnow, hqueue]
      rcases LawfulJobQueue.life_apply c s.now s.queue with ⟨_, hraised⟩ | hlife
      · exact .same (by rw [hstep, hraised]) hclaims
      · by_cases hid : id = c.target
        · exact .called c attempt hcall horigin hid.symm
            (by rw [hstep, hlife, if_pos hid]) hclaims
        · exact .same (by rw [hstep, hlife, if_neg hid]) hclaims

/-- Only jobs of the queue have been claimed. -/
def ClaimsKnown (s : Sys σ) : Prop :=
  ∀ id, JobQueue.life s.queue id = none → s.claims id = 0

theorem claimsKnown_step [LawfulJobQueue σ] {settings : Settings}
    {s t : Sys σ} {a : Action} (hs : ClaimsKnown s)
    (h : step settings s a = some t) : ClaimsKnown t := by
  intro id hnone
  cases life_move h id with
  | same hlife hclaims => rw [hclaims, hs id (hlife ▸ hnone)]
  | new job _ _ hlife => simp [hlife] at hnone
  | claimed l _ _ hlife => simp [hlife] at hnone
  | called c attempt _ _ _ hlife hclaims =>
      rw [hclaims, hs id (by simpa [hlife] using hnone)]

theorem claimsKnown_init (queue : σ) : ClaimsKnown (Sys.init queue) := by
  intro id _
  rfl

/-- A queue without jobs. -/
def NoJobs (queue : σ) : Prop := ∀ id, JobQueue.get queue id = none

theorem life_of_noJobs {queue : σ} (h : NoJobs queue) (id : Uuid) :
    JobQueue.life queue id = none := by
  unfold JobQueue.life
  rw [h id]
  rfl

/-! ## Claims are charged -/

/-- A number charged to a job stays charged to it. -/
theorem charged_step [LawfulJobQueue σ] {settings : Settings} {s t : Sys σ}
    {a : Action} (h : step settings s a = some t) {id : Uuid} {l : JobLife}
    {n : Nat} (hl : JobQueue.life s.queue id = some l) (hn : Charged l n) :
    ∃ l', JobQueue.life t.queue id = some l' ∧ Charged l' n := by
  cases life_move h id with
  | same hlife => exact ⟨l, hlife.trans hl, hn⟩
  | new job _ hnone => rw [hnone] at hl; cases hl
  | claimed l₀ hbefore _ hlife =>
      obtain rfl : l₀ = l := Option.some.inj (hbefore.symm.trans hl)
      exact ⟨_, hlife, hn.dispatch⟩
  | called c attempt _ _ _ hlife =>
      exact ⟨_, by rw [hlife, hl]; rfl, hn.lifeStep c _⟩

/-- The claims of a job are charged to it. -/
structure ClaimsCharged (s : Sys σ) : Prop where
  known : ClaimsKnown s
  charged : ∀ id l, JobQueue.life s.queue id = some l →
    Charged l (s.claims id)

theorem claimsCharged_init {queue : σ} (h : NoJobs queue) :
    ClaimsCharged (Sys.init queue) := by
  refine ⟨claimsKnown_init queue, fun id l hl => ?_⟩
  have hnone : JobQueue.life (Sys.init queue).queue id = none :=
    life_of_noJobs h id
  rw [hnone] at hl
  cases hl

theorem claimsCharged_step [LawfulJobQueue σ] {settings : Settings}
    {s t : Sys σ} {a : Action} (hs : ClaimsCharged s)
    (h : step settings s a = some t) : ClaimsCharged t := by
  refine ⟨claimsKnown_step hs.known h, fun id l hl => ?_⟩
  cases life_move h id with
  | same hlife hclaims =>
      rw [hclaims]
      exact hs.charged id l (hlife ▸ hl)
  | new job _ hnone hlife hclaims =>
      rw [hclaims, hs.known id hnone]
      exact ⟨Nat.zero_le _, fun _ => Nat.zero_le _⟩
  | claimed l₀ hbefore hwaiting hlife hclaims =>
      obtain rfl : l₀.dispatch = l := Option.some.inj (hlife.symm.trans hl)
      rw [hclaims]
      exact (hs.charged id l₀ hbefore).next hwaiting
  | called c attempt _ _ _ hlife hclaims =>
      rw [hlife] at hl
      obtain ⟨l₀, hbefore, rfl⟩ := Option.map_eq_some_iff.mp hl
      rw [hclaims]
      exact (hs.charged id l₀ hbefore).lifeStep c _

/-! ## One dispatch for each attempt -/

/-- A job and the attempt a claim of it started. -/
def QueuedJob.key (j : QueuedJob) : Uuid × Nat := (j.id, j.attempt)

/-- No two dispatches have claimed one attempt. -/
structure AttemptsDistinct (s : Sys σ) : Prop where
  charged : ∀ j ∈ s.jobs, ∃ l, JobQueue.life s.queue j.id = some l ∧
    Charged l j.attempt
  nodup : (s.jobs.map QueuedJob.key).Nodup

theorem attemptsDistinct_init (queue : σ) :
    AttemptsDistinct (Sys.init queue) := by
  refine ⟨fun j hj => ?_, List.nodup_nil⟩
  cases hj

/-- A claim of a job starts an attempt no earlier claim has started. -/
theorem attemptsDistinct_step [LawfulJobQueue σ] {settings : Settings}
    {s t : Sys σ} {a : Action} (hs : AttemptsDistinct s)
    (h : step settings s a = some t) : AttemptsDistinct t := by
  have hold : ∀ j ∈ s.jobs, ∃ l, JobQueue.life t.queue j.id = some l ∧
      Charged l j.attempt := by
    intro j hj
    obtain ⟨l, hl, hn⟩ := hs.charged j hj
    exact charged_step h hl hn
  have hsame : t.jobs = s.jobs → AttemptsDistinct t := by
    intro hjobs
    rw [← hjobs] at hold
    exact ⟨hold, by rw [hjobs]; exact hs.nodup⟩
  cases step_move h with
  | quiet _ _ _ hjobs => exact hsame hjobs
  | enqueue job => exact hsame rfl
  | call u c attempt _ _ _ _ hjobs => exact hsame hjobs
  | claim u i req locked _ _ hqueue hjobs =>
      have hids := LawfulJobQueue.claim_nodup req locked s.now s.queue
      have hwait : ∀ j ∈ (JobQueue.claimNextWithLease req locked s.now
          s.queue).2, ∃ l, JobQueue.life s.queue j.id = some l ∧
          l.state.isWaiting = true ∧ j.life = l.dispatch :=
        fun j hj => LawfulJobQueue.claim_waiting hj
      have hlife := LawfulJobQueue.life_claim req locked s.now s.queue
      rw [← hqueue] at hlife
      generalize (JobQueue.claimNextWithLease req locked s.now s.queue).2 =
        claimed at hids hwait hlife hjobs
      constructor
      · intro j hj
        rw [hjobs] at hj
        rcases List.mem_append.mp hj with hj | hj
        · exact hold j hj
        · obtain ⟨l, hl, _, hdispatch⟩ := hwait j hj
          refine ⟨l.dispatch, ?_, ?_⟩
          · rw [hlife, if_pos (List.mem_map_of_mem hj), hl]
            rfl
          · have hattempt : j.currentAttempt = l.currentAttempt :=
              congrArg JobLife.currentAttempt hdispatch
            refine ⟨?_, fun hw => ?_⟩
            · show j.currentAttempt + 1 ≤ l.currentAttempt + 1
              omega
            · simp [JobLife.dispatch, JobState.isWaiting] at hw
      · rw [hjobs, List.map_append]
        refine List.nodup_append.mpr ⟨hs.nodup, ?_, ?_⟩
        · have hfst : (claimed.map QueuedJob.key).map Prod.fst =
              claimed.map QueuedJob.id := by
            rw [List.map_map]
            rfl
          exact List.Nodup.of_map Prod.fst (hfst ▸ hids)
        · -- the claimed job waits, so the attempts it had are all charged
          intro k hk k' hk' heq
          obtain ⟨j, hj, rfl⟩ := List.mem_map.mp hk
          obtain ⟨j', hj', rfl⟩ := List.mem_map.mp hk'
          obtain ⟨hid, hattempt⟩ := Prod.mk.inj heq
          obtain ⟨l, hl, hn⟩ := hs.charged j hj
          obtain ⟨l', hl', hwaiting, hdispatch⟩ := hwait j' hj'
          rw [hid] at hl
          obtain rfl : l = l' := Option.some.inj (hl.symm.trans hl')
          have hle := hn.2 hwaiting
          have hnext : j'.currentAttempt = l.currentAttempt :=
            congrArg JobLife.currentAttempt hdispatch
          have hattempt' : j'.attempt = j'.currentAttempt + 1 := rfl
          omega

/-- The dispatch of an attempt is the only one. -/
theorem AttemptsDistinct.unique {s : Sys σ} (hs : AttemptsDistinct s)
    {d e : Dispatch} (hd : d ∈ s.tasks) (he : e ∈ s.tasks)
    (hid : d.job.id = e.job.id) (hattempt : d.attempt = e.attempt) : d = e := by
  have hnodup := hs.nodup
  unfold Sys.jobs at hnodup
  rw [List.map_map] at hnodup
  exact List.inj_on_of_nodup_map hnodup hd he
    (Prod.ext hid hattempt)

/-! ## Returned prompt ids -/

/-- A dispatch has a prompt id only once `submit` has returned. -/
def PromptsReturned (s : Sys σ) : Prop :=
  ∀ d ∈ s.tasks, d.promptId ≠ none → d.phase = .returned ∨ d.phase = .done

theorem promptsReturned_step {settings : Settings} {s t : Sys σ} {a : Action}
    (hs : PromptsReturned s) (h : step settings s a = some t) :
    PromptsReturned t := by
  rcases step_tasks h with hadv | ⟨i, locked, req, _, _, htasks⟩
  · intro e he hprompt
    obtain ⟨d, hd, hmove⟩ := hadv.backward e he
    cases hmove with
    | same => exact hs _ hd hprompt
    | spawn i hphase => simpa [hphase] using hs _ hd hprompt
    | drop i hphase => simpa [hphase] using hs _ hd hprompt
    | mark hphase => simpa [hphase] using hs _ hd hprompt
    | submit hphase => simpa [hphase] using hs _ hd hprompt
    | submitted => exact Or.inl rfl
    | finish => exact Or.inr rfl
  · intro e he hprompt
    rw [htasks] at he
    rcases List.mem_append.mp he with hold | hnew
    · exact hs e hold hprompt
    · obtain ⟨j, _, rfl⟩ := List.mem_map.mp hnew
      exact absurd rfl hprompt

/-- A prompt id that was returned stays with its dispatch. -/
theorem prompt_of_advance {s : Sys σ} (hs : PromptsReturned s)
    {d e : Dispatch} (hd : d ∈ s.tasks) (h : Advance s d e) {p : String}
    (hp : d.promptId = some p) : e.promptId = some p := by
  cases h with
  | submitted _ hphase =>
      have hdone := hs d hd (by simp [hp])
      simp [hphase] at hdone
  | same | spawn | drop | mark | submit | finish => exact hp

/-- Some dispatch that claimed attempt `k` of the job has returned `p`. -/
def Returned (s : Sys σ) (id : Uuid) (k : Nat) (p : String) : Prop :=
  ∃ d ∈ s.tasks, d.job.id = id ∧ d.attempt = k ∧ d.promptId = some p

theorem returned_step {settings : Settings} {s t : Sys σ} {a : Action}
    (hs : PromptsReturned s) (h : step settings s a = some t) {id : Uuid}
    {k : Nat} {p : String} (hret : Returned s id k p) : Returned t id k p := by
  obtain ⟨d, hd, hid, hk, hp⟩ := hret
  rcases step_tasks h with hadv | ⟨i, locked, req, _, _, htasks⟩
  · obtain ⟨e, he, hmove⟩ := hadv.forward d hd
    have hattempt : e.attempt = d.attempt := by
      unfold Dispatch.attempt
      rw [hmove.job]
    exact ⟨e, he, by rw [hmove.job, hid], by rw [hattempt, hk],
      prompt_of_advance hs hd hmove hp⟩
  · exact ⟨d, by rw [htasks]; exact List.mem_append_left _ hd, hid, hk, hp⟩

end Imagin4.Ports
