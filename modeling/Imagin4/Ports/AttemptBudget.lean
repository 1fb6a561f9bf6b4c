import Imagin4.Ports.JobLives
import Imagin4.Ports.MemoryQueue
import Imagin4.Ports.PostgresQueue

/-!
# The attempt budget

`max_attempts` bounds how often a job is dispatched.  The reconciler asks
`is_retryable` before it puts a failed attempt back; the exception handler of
`Scheduler._dispatch` calls `mark_retry_wait` without asking, so a job whose
`submit` keeps raising is claimed again and again.  While every
`mark_retry_wait` that takes effect finds a job with an attempt left, the
budget holds.

`AttemptsExact` is the finer statement: a waiting job has been claimed
`current_attempt` times, an active one once more, and no attempt is charged
twice.  It holds while the failure reports are about the attempt the job is in.

## Main results

* `withinBudget_step` — a retry inside the budget leaves an attempt.
* `claims_le_maxAttempts` — the budget, for runs whose retries are inside it.
* `attemptsExact_run` — the exact count, for runs whose reports are current.
* `not_claims_le_maxAttempts`, `not_attemptsExact` — the runs in which a fourth
  claim is made of three, and in which two reconcilers charge one attempt.
-/

namespace Imagin4.Ports

open Imagin4.Verified

/-! ## The budget along a run -/

section Budget

variable {σ : Type} [JobQueue σ]

/-- A `mark_retry_wait` that takes effect finds a job with an attempt left. -/
def retriesInBudget (settings : Settings) (s : Sys σ) (a : Action) : Bool :=
  match callOf settings s a with
  | some (.markRetryWait id _ _ _ _, _) =>
      match JobQueue.life s.queue id with
      | some l => l.state.isTerminal || l.currentAttempt + 1 < l.maxAttempts
      | none => true
  | _ => true

/-- Every job has an attempt that is not charged yet. -/
def WithinBudget (s : Sys σ) : Prop :=
  ∀ id l, JobQueue.life s.queue id = some l → l.currentAttempt < l.maxAttempts

theorem lt_finish {l : JobLife} (final : JobState)
    (h : l.currentAttempt < l.maxAttempts) :
    (l.finish final).currentAttempt < (l.finish final).maxAttempts := by
  unfold JobLife.finish
  split <;> exact h

theorem lt_lifeStep {settings : Settings} {s : Sys σ} {a : Action}
    {c : QueueCall} {attempt : Nat}
    (hcall : callOf settings s a = some (c, attempt))
    (hretry : retriesInBudget settings s a = true) {l : JobLife}
    (hl : JobQueue.life s.queue c.target = some l)
    (h : l.currentAttempt < l.maxAttempts) (guarded : Bool) :
    (c.lifeStep guarded l).currentAttempt <
      (c.lifeStep guarded l).maxAttempts := by
  cases c with
  | renewLease id secs => exact h
  | setPromptId id p => exact h
  | markSucceeded id result => exact lt_finish .succeeded h
  | markFailed id code detail => exact lt_finish .failed h
  | cancel id => exact lt_finish .cancelled h
  | markRunning id =>
      show (l.run guarded).currentAttempt < (l.run guarded).maxAttempts
      unfold JobLife.run
      split <;> exact h
  | markRetryWait id code detail delay draw =>
      show l.retry.currentAttempt < l.retry.maxAttempts
      cases hterm : l.state.isTerminal with
      | true =>
          rw [JobLife.retry_of_terminal hterm]
          exact h
      | false =>
          rw [JobLife.retry_of_live hterm]
          have hl' : JobQueue.life s.queue id = some l := hl
          simpa [retriesInBudget, hcall, hl', hterm] using hretry

theorem withinBudget_step [LawfulJobQueue σ] {settings : Settings}
    {s t : Sys σ} {a : Action} (hs : WithinBudget s)
    (hretry : retriesInBudget settings s a = true)
    (h : step settings s a = some t) : WithinBudget t := by
  intro id l hl
  cases life_move h id with
  | same hlife => exact hs id l (hlife ▸ hl)
  | new job hadmitted _ hlife =>
      obtain ⟨_, hzero, hpos⟩ := life_of_admitted hadmitted
      obtain rfl : job.life = l := Option.some.inj (hlife.symm.trans hl)
      show job.currentAttempt < job.maxAttempts
      omega
  | claimed l₀ hbefore _ hlife =>
      obtain rfl : l₀.dispatch = l := Option.some.inj (hlife.symm.trans hl)
      exact hs id l₀ hbefore
  | called c attempt hcall _ htarget hlife =>
      rw [hlife] at hl
      obtain ⟨l₀, hbefore, rfl⟩ := Option.map_eq_some_iff.mp hl
      exact lt_lifeStep hcall hretry (htarget ▸ hbefore) (hs id l₀ hbefore) _

/-- While every `mark_retry_wait` that takes effect finds a job with an attempt
left, no job is claimed, and `submit` is called for no job, more than
`max_attempts` times. -/
theorem claims_le_maxAttempts [LawfulJobQueue σ] (settings : Settings)
    (queue : σ) (hempty : NoJobs queue) (as : List Action) (t : Sys σ)
    (halong : (system σ settings).Along
      (fun s a => retriesInBudget settings s a = true) (.init queue) as)
    (hrun : (system σ settings).exec (.init queue) as = some t)
    (id : Uuid) (j : QueuedJob) (hj : JobQueue.get t.queue id = some j) :
    t.claims id ≤ j.maxAttempts ∧ t.submits id ≤ j.maxAttempts := by
  have hinit : WithinBudget (Sys.init queue) := by
    intro id l hl
    have hnone : JobQueue.life (Sys.init queue).queue id = none :=
      life_of_noJobs hempty id
    rw [hnone] at hl
    cases hl
  have hbudget : WithinBudget t := Machine.invariant (I := WithinBudget)
    (fun _ _ _ hs hretry hstep => withinBudget_step hs hretry hstep)
    hinit halong hrun
  have hcharged : ClaimsCharged t := Machine.invariant (I := ClaimsCharged)
    (fun _ _ _ hs _ hstep => claimsCharged_step hs hstep)
    (claimsCharged_init hempty) halong hrun
  have hlife : JobQueue.life t.queue id = some j.life := by
    unfold JobQueue.life
    rw [hj]
    rfl
  have hlt : j.currentAttempt < j.maxAttempts := hbudget id j.life hlife
  have hle : t.claims id ≤ j.currentAttempt + 1 :=
    (hcharged.charged id j.life hlife).1
  have hsubmits := t.submits_le_claims id
  omega

end Budget

/-! ### A `submit` that always raises -/

section Runs

/-- Dispatch `t` runs until `submit` raises, and the backoff passes. -/
def submitRaises (t : Nat) : List Action :=
  [.markRunning t, .submit t, .dispatchRaises t "ConnectError" 0,
    .advance 200000000]

/-- One job, and a backend that is down. -/
def downRun : List Action :=
  claimedRun ++ submitRaises 0 ++ tick 0 ++ submitRaises 1 ++ tick 0 ++
    submitRaises 2 ++ tick 0 ++ submitRaises 3

theorem noJobs_memory : NoJobs InMemoryJobQueue.empty := fun _ => rfl

theorem noJobs_postgres : NoJobs PostgresJobQueue.empty := fun _ => rfl

/-- A job with three attempts is claimed and submitted four times. -/
theorem not_claims_le_maxAttempts :
    ¬ ∀ (settings : Settings) (as : List Action) (t : Sys InMemoryJobQueue),
      (system InMemoryJobQueue settings).exec (.init .empty) as = some t →
      ∀ id j, JobQueue.get t.queue id = some j →
        t.claims id ≤ j.maxAttempts ∧ t.submits id ≤ j.maxAttempts := by
  intro h
  have hrun : ((system InMemoryJobQueue {}).exec (.init .empty) downRun).map
      (fun t => ((t.queue.get 7).map QueuedJob.maxAttempts, t.claims 7,
        t.submits 7)) = some (some 3, 4, 4) := by decide +kernel
  obtain ⟨t, ht, heq⟩ := Option.map_eq_some_iff.mp hrun
  obtain ⟨hmax, hrest⟩ := Prod.mk.inj heq
  obtain ⟨hclaims, _⟩ := Prod.mk.inj hrest
  obtain ⟨j, hj, hthree⟩ := Option.map_eq_some_iff.mp hmax
  have hle := (h {} downRun t ht 7 j hj).1
  omega

/-- On either adapter, a run in which the third `submit` succeeds. -/
def recoveredRun : List Action :=
  claimedRun ++ submitRaises 0 ++ tick 0 ++ submitRaises 1 ++ tick 0 ++
    [.markRunning 2, .submit 2, .submitReturns 2 "p"]

theorem claims_le_maxAttempts_recovered :
    ∃ (t : Sys InMemoryJobQueue) (j : QueuedJob),
      (system InMemoryJobQueue {}).exec (.init .empty) recoveredRun = some t ∧
      JobQueue.get t.queue 7 = some j ∧
      t.claims 7 ≤ j.maxAttempts ∧ t.submits 7 ≤ j.maxAttempts := by
  have hsome : (((system InMemoryJobQueue {}).exec (.init .empty)
      recoveredRun).bind (fun t => t.queue.get 7)).isSome = true := by
    decide +kernel
  obtain ⟨j, hj⟩ := Option.isSome_iff_exists.mp hsome
  obtain ⟨t, ht, hget⟩ := Option.bind_eq_some_iff.mp hj
  exact ⟨t, j, ht, hget, claims_le_maxAttempts {} _ noJobs_memory recoveredRun
    t (by decide +kernel) ht 7 j hget⟩

end Runs

/-! ## The exact count -/

/-- A waiting job has been claimed once for each charged attempt, an active
one once more. -/
def Exact (l : JobLife) (claims : Nat) : Prop :=
  (l.state.isWaiting = true → claims = l.currentAttempt) ∧
    (l.state.isActive = true → claims = l.currentAttempt + 1)

theorem Exact.dispatch {l : JobLife} {n : Nat} (h : Exact l n)
    (hwaiting : l.state.isWaiting = true) : Exact l.dispatch (n + 1) := by
  have hn := h.1 hwaiting
  refine ⟨fun hw => ?_, fun _ => ?_⟩
  · simp [JobLife.dispatch, JobState.isWaiting] at hw
  · show n + 1 = l.currentAttempt + 1
    omega

theorem Exact.run {l : JobLife} {n : Nat} (h : Exact l n) {guarded : Bool}
    (hlegal : l.state.isActive = true ∨
      (guarded = true ∧ l.state.isTerminal = true)) :
    Exact (l.run guarded) n := by
  rcases hlegal with hactive | ⟨hguarded, hterm⟩
  · unfold JobLife.run
    split
    · exact h
    · refine ⟨fun hw => ?_, fun _ => h.2 hactive⟩
      simp [JobState.isWaiting] at hw
  · simp only [JobLife.run, hguarded, hterm, Bool.and_self, if_true]
    exact h

theorem Exact.finish {l : JobLife} {n : Nat} (h : Exact l n)
    {final : JobState} (hfinal : final.isTerminal = true) :
    Exact (l.finish final) n := by
  unfold JobLife.finish
  split
  · exact h
  · refine ⟨fun hw => ?_, fun hactive => ?_⟩
    · rw [JobState.not_waiting_of_terminal hfinal] at hw
      cases hw
    · rw [JobState.not_active_of_terminal hfinal] at hactive
      cases hactive

theorem Exact.retry {l : JobLife} {n : Nat} (h : Exact l n)
    (hlegal : l.state.isTerminal = true ∨ l.state.isActive = true) :
    Exact l.retry n := by
  cases hterm : l.state.isTerminal with
  | true =>
      rw [JobLife.retry_of_terminal hterm]
      exact h
  | false =>
      rw [JobLife.retry_of_live hterm]
      have hactive : l.state.isActive = true := by simpa [hterm] using hlegal
      refine ⟨fun _ => h.2 hactive, fun hw => ?_⟩
      simp [JobState.isActive] at hw

section Exact

variable {σ : Type} [JobQueue σ]

/-- Where it takes effect, a `mark_running` finds a dispatched or running job,
and a `mark_retry_wait` finds such a job in the attempt it reports. -/
def reportsCurrent (settings : Settings) (s : Sys σ) (a : Action) : Bool :=
  match callOf settings s a with
  | some (.markRunning id, _) =>
      match JobQueue.life s.queue id with
      | some l => l.state.isActive ||
          (JobQueue.guardsRunning (σ := σ) && l.state.isTerminal)
      | none => true
  | some (.markRetryWait id _ _ _ _, attempt) =>
      match JobQueue.life s.queue id with
      | some l => l.state.isTerminal ||
          (l.state.isActive && attempt = l.currentAttempt + 1)
      | none => true
  | _ => true

/-- The counting invariant: the number of claims is exact, and no attempt is
charged twice. -/
structure AttemptsExact (s : Sys σ) : Prop where
  exact : ∀ id l, JobQueue.life s.queue id = some l → Exact l (s.claims id)
  chargedOnce : s.charges.Nodup

/-- Is the job dispatched or running? -/
def ActiveIn (s : Sys σ) (id : Uuid) : Prop :=
  ∃ l, JobQueue.life s.queue id = some l ∧ l.state.isActive = true

/-- Between `s` and `t` no job has become active without a new claim. -/
def NoRevival (s t : Sys σ) : Prop :=
  ∀ id, s.claims id ≤ t.claims id ∧
    (¬ ActiveIn s id → ActiveIn t id → s.claims id < t.claims id)

theorem noRevival_refl (s : Sys σ) : NoRevival s s :=
  fun _ => ⟨Nat.le_refl _, fun h h' => absurd h' h⟩

theorem NoRevival.trans {r s t : Sys σ} (h : NoRevival r s)
    (h' : NoRevival s t) : NoRevival r t := by
  intro id
  obtain ⟨hle, hnew⟩ := h id
  obtain ⟨hle', hnew'⟩ := h' id
  refine ⟨Nat.le_trans hle hle', fun hr ht => ?_⟩
  by_cases hs : ActiveIn s id
  · exact Nat.lt_of_lt_of_le (hnew hr hs) hle'
  · exact Nat.lt_of_le_of_lt hle (hnew' hs ht)

/-- The invariant with what its induction needs: charged attempts are over. -/
structure CountInv (s : Sys σ) : Prop extends AttemptsExact s where
  known : ClaimsKnown s
  past : ∀ c ∈ s.charges, ∃ l, JobQueue.life s.queue c.1 = some l ∧
    c.2 ≤ l.currentAttempt

theorem countInv_init {queue : σ} (h : NoJobs queue) :
    CountInv (Sys.init queue) := by
  refine ⟨⟨fun id l hl => ?_, List.nodup_nil⟩, claimsKnown_init queue, ?_⟩
  · have hnone : JobQueue.life (Sys.init queue).queue id = none :=
      life_of_noJobs h id
    rw [hnone] at hl
    cases hl
  · intro c hc
    cases hc

/-- A call that its caller may make keeps the count of the job it is about. -/
theorem exact_lifeStep {settings : Settings} {s : Sys σ} {a : Action}
    {c : QueueCall} {attempt : Nat}
    (hcall : callOf settings s a = some (c, attempt))
    (hcurrent : reportsCurrent settings s a = true) {l : JobLife} {n : Nat}
    (hl : JobQueue.life s.queue c.target = some l) (h : Exact l n) :
    Exact (c.lifeStep (JobQueue.guardsRunning (σ := σ)) l) n := by
  cases c with
  | renewLease id secs => exact h
  | setPromptId id p => exact h
  | markSucceeded id result => exact h.finish rfl
  | markFailed id code detail => exact h.finish rfl
  | cancel id => exact h.finish rfl
  | markRunning id =>
      refine h.run ?_
      have hl' : JobQueue.life s.queue id = some l := hl
      simpa [reportsCurrent, hcall, hl'] using hcurrent
  | markRetryWait id code detail delay draw =>
      refine h.retry ?_
      have hl' : JobQueue.life s.queue id = some l := hl
      have hlegal : l.state.isTerminal = true ∨ (l.state.isActive = true ∧
          attempt = l.currentAttempt + 1) := by
        simpa [reportsCurrent, hcall, hl'] using hcurrent
      exact hlegal.imp (fun h => h) And.left

/-- Which call becomes of it, a life step never lowers the attempt number, and
raises it only where a live job is put back. -/
theorem currentAttempt_lifeStep (c : QueueCall) (guarded : Bool)
    (l : JobLife) :
    (c.lifeStep guarded l).currentAttempt = l.currentAttempt ∨
    ((c.lifeStep guarded l).currentAttempt = l.currentAttempt + 1 ∧
      l.state.isTerminal = false ∧
      ∃ id code detail delay draw,
        c = .markRetryWait id code detail delay draw) := by
  cases c with
  | renewLease id secs => exact Or.inl rfl
  | setPromptId id p => exact Or.inl rfl
  | markRunning id => exact Or.inl (l.currentAttempt_run guarded)
  | markSucceeded id result => exact Or.inl (l.currentAttempt_finish _)
  | markFailed id code detail => exact Or.inl (l.currentAttempt_finish _)
  | cancel id => exact Or.inl (l.currentAttempt_finish _)
  | markRetryWait id code detail delay draw =>
      cases hterm : l.state.isTerminal with
      | true =>
          refine Or.inl ?_
          show l.retry.currentAttempt = _
          rw [JobLife.retry_of_terminal hterm]
      | false =>
          refine Or.inr ⟨?_, rfl, id, code, detail, delay, draw, rfl⟩
          show l.retry.currentAttempt = _
          rw [JobLife.retry_of_live hterm]

/-- The attempt number of a job never falls. -/
theorem currentAttempt_mono [LawfulJobQueue σ] {settings : Settings}
    {s t : Sys σ} {a : Action} (h : step settings s a = some t) {id : Uuid}
    {l : JobLife} (hl : JobQueue.life s.queue id = some l) :
    ∃ l', JobQueue.life t.queue id = some l' ∧
      l.currentAttempt ≤ l'.currentAttempt := by
  cases life_move h id with
  | same hlife => exact ⟨l, hlife.trans hl, Nat.le_refl _⟩
  | new job _ hnone => rw [hnone] at hl; cases hl
  | claimed l₀ hbefore _ hlife =>
      obtain rfl : l₀ = l := Option.some.inj (hbefore.symm.trans hl)
      exact ⟨_, hlife, Nat.le_refl _⟩
  | called c attempt _ _ _ hlife =>
      refine ⟨c.lifeStep (JobQueue.guardsRunning (σ := σ)) l,
        by rw [hlife, hl]; rfl, ?_⟩
      rcases currentAttempt_lifeStep c (JobQueue.guardsRunning (σ := σ)) l with
        heq | ⟨heq, _⟩
      · exact Nat.le_of_eq heq.symm
      · omega

/-- A step charges an attempt only where it puts a live job back, and then the
attempt its caller reported. -/
theorem charges_step [LawfulJobQueue σ] {settings : Settings} {s t : Sys σ}
    {a : Action} (h : step settings s a = some t) :
    t.charges = s.charges ∨
    ∃ id code detail delay draw attempt l,
      callOf settings s a =
        some (.markRetryWait id code detail delay draw, attempt) ∧
      JobQueue.life s.queue id = some l ∧ l.state.isTerminal = false ∧
      JobQueue.life t.queue id = some l.retry ∧
      t.charges = s.charges ++ [(id, attempt)] := by
  cases step_move h with
  | quiet _ _ _ _ hcharges => exact Or.inl hcharges
  | enqueue job => exact Or.inl rfl
  | claim _ i req locked _ _ _ _ hcharges => exact Or.inl hcharges
  | call u c attempt hcall _ hnow hqueue _ hcharges =>
      have hadded : (u.call c attempt).charges = s.charges ++
          chargesOf s.queue (c.apply s.now s.queue) c.target attempt := by
        show u.charges ++ chargesOf u.queue (c.apply u.now u.queue) _ _ = _
        rw [hcharges, hqueue, hnow]
      have hqueue' : (u.call c attempt).queue = c.apply s.now s.queue := by
        show c.apply u.now u.queue = _
        rw [hqueue, hnow]
      rw [hadded, hqueue']
      unfold chargesOf
      split
      · exact Or.inl (List.append_nil _)
      · rename_i hne
        rcases LawfulJobQueue.life_apply c s.now s.queue with ⟨_, hraised⟩ | hlife
        · exact absurd (by rw [hraised]) hne
        · have htarget := hlife c.target
          rw [if_pos rfl] at htarget
          cases hl : JobQueue.life s.queue c.target with
          | none => exact absurd (by rw [htarget, hl]; rfl) hne
          | some l =>
              rw [htarget, hl] at hne
              rcases currentAttempt_lifeStep c
                (JobQueue.guardsRunning (σ := σ)) l with
                hsame | ⟨_, hlive, id, code, detail, delay, draw, rfl⟩
              · exact absurd (congrArg some hsame) hne
              · refine Or.inr ⟨id, code, detail, delay, draw, attempt, l,
                  hcall, hl, hlive, ?_, rfl⟩
                have hretry := htarget
                rw [hl] at hretry
                exact hretry

/-- A retry its caller may report is one of the running attempt. -/
theorem attempt_of_reportsCurrent {settings : Settings} {s : Sys σ} {a : Action}
    {id : Uuid} {code : String} {detail : Option String} {delay : Option Rat}
    {draw : Rat} {attempt : Nat} {l : JobLife}
    (hcall : callOf settings s a =
      some (.markRetryWait id code detail delay draw, attempt))
    (hcurrent : reportsCurrent settings s a = true)
    (hl : JobQueue.life s.queue id = some l)
    (hlive : l.state.isTerminal = false) : attempt = l.currentAttempt + 1 := by
  have hlegal : l.state.isActive = true ∧ attempt = l.currentAttempt + 1 := by
    simpa [reportsCurrent, hcall, hl, hlive] using hcurrent
  exact hlegal.2

/-- A step keeps the count of claims of every job. -/
theorem exact_step [LawfulJobQueue σ] {settings : Settings} {s t : Sys σ}
    {a : Action} (hs : CountInv s)
    (hcurrent : reportsCurrent settings s a = true)
    (h : step settings s a = some t) {id : Uuid} {l : JobLife}
    (hl : JobQueue.life t.queue id = some l) : Exact l (t.claims id) := by
  cases life_move h id with
  | same hlife hclaims =>
      rw [hclaims]
      exact hs.exact id l (hlife ▸ hl)
  | new job hadmitted hnone hlife hclaims =>
      obtain ⟨hstate, hzero, _⟩ := life_of_admitted hadmitted
      obtain rfl : job.life = l := Option.some.inj (hlife.symm.trans hl)
      rw [hclaims, hs.known id hnone]
      refine ⟨fun _ => hzero.symm, fun hactive => ?_⟩
      have hqueued : job.life.state = .queued := hstate
      rw [hqueued] at hactive
      cases hactive
  | claimed l₀ hbefore hwaiting hlife hclaims =>
      obtain rfl : l₀.dispatch = l := Option.some.inj (hlife.symm.trans hl)
      rw [hclaims]
      exact (hs.exact id l₀ hbefore).dispatch hwaiting
  | called c attempt hcall _ htarget hlife hclaims =>
      rw [hlife] at hl
      obtain ⟨l₀, hbefore, rfl⟩ := Option.map_eq_some_iff.mp hl
      rw [hclaims]
      exact exact_lifeStep hcall hcurrent (htarget ▸ hbefore)
        (hs.exact id l₀ hbefore)

theorem countInv_step [LawfulJobQueue σ] {settings : Settings} {s t : Sys σ}
    {a : Action} (hs : CountInv s)
    (hcurrent : reportsCurrent settings s a = true)
    (h : step settings s a = some t) : CountInv t := by
  have hpast : ∀ c ∈ s.charges, ∃ l, JobQueue.life t.queue c.1 = some l ∧
      c.2 ≤ l.currentAttempt := by
    intro c hc
    obtain ⟨l, hl, hle⟩ := hs.past c hc
    obtain ⟨l', hl', hle'⟩ := currentAttempt_mono h hl
    exact ⟨l', hl', Nat.le_trans hle hle'⟩
  refine ⟨⟨fun id l => exact_step hs hcurrent h, ?_⟩,
    claimsKnown_step hs.known h, ?_⟩
  · rcases charges_step h with hsame |
      ⟨id, code, detail, delay, draw, attempt, l, hcall, hl, hlive, _, hadded⟩
    · rw [hsame]
      exact hs.chargedOnce
    · -- the reported attempt is the running one, and those charged are over
      have hattempt := attempt_of_reportsCurrent hcall hcurrent hl hlive
      rw [hadded]
      refine List.nodup_append.mpr ⟨hs.chargedOnce, by simp, ?_⟩
      intro c hc c' hc' heq
      obtain rfl : c' = (id, attempt) := by simpa using hc'
      subst heq
      obtain ⟨l', hl', hle⟩ := hs.past _ hc
      obtain rfl : l = l' := Option.some.inj (hl.symm.trans hl')
      have hle' : attempt ≤ l.currentAttempt := hle
      omega
  · intro c hc
    rcases charges_step h with hsame |
      ⟨id, code, detail, delay, draw, attempt, l, hcall, hl, hlive, hl', hadded⟩
    · rw [hsame] at hc
      exact hpast c hc
    · rw [hadded] at hc
      rcases List.mem_append.mp hc with hold | hnew
      · exact hpast c hold
      · obtain rfl : c = (id, attempt) := by simpa using hnew
        refine ⟨l.retry, hl', ?_⟩
        have hattempt := attempt_of_reportsCurrent hcall hcurrent hl hlive
        rw [JobLife.retry_of_live hlive]
        exact Nat.le_of_eq hattempt

theorem active_of_finish {l : JobLife} (final : JobState)
    (hfinal : final.isTerminal = true)
    (hactive : (l.finish final).state.isActive = true) :
    l.state.isActive = true := by
  unfold JobLife.finish at hactive
  split at hactive
  · exact hactive
  · rw [JobState.not_active_of_terminal hfinal] at hactive
    cases hactive

/-- No call that its caller may make turns an inactive job active. -/
theorem active_of_lifeStep {settings : Settings} {s : Sys σ} {a : Action}
    {c : QueueCall} {attempt : Nat}
    (hcall : callOf settings s a = some (c, attempt))
    (hcurrent : reportsCurrent settings s a = true) {l : JobLife}
    (hl : JobQueue.life s.queue c.target = some l)
    (hactive : (c.lifeStep (JobQueue.guardsRunning (σ := σ)) l).state.isActive
      = true) : l.state.isActive = true := by
  cases c with
  | renewLease id secs => exact hactive
  | setPromptId id p => exact hactive
  | markSucceeded id result =>
      exact active_of_finish .succeeded rfl hactive
  | markFailed id code detail =>
      exact active_of_finish .failed rfl hactive
  | cancel id => exact active_of_finish .cancelled rfl hactive
  | markRunning id =>
      have hl' : JobQueue.life s.queue id = some l := hl
      have hlegal : l.state.isActive = true ∨
          (JobQueue.guardsRunning (σ := σ) = true ∧
            l.state.isTerminal = true) := by
        simpa [reportsCurrent, hcall, hl'] using hcurrent
      rcases hlegal with hact | ⟨hguarded, hterm⟩
      · exact hact
      · have hsame : l.run (JobQueue.guardsRunning (σ := σ)) = l := by
          simp [JobLife.run, hguarded, hterm]
        have hrun : (l.run (JobQueue.guardsRunning (σ := σ))).state.isActive =
            true := hactive
        rwa [hsame] at hrun
  | markRetryWait id code detail delay draw =>
      have hretry : l.retry.state.isActive = true := hactive
      cases hterm : l.state.isTerminal with
      | true => rwa [JobLife.retry_of_terminal hterm] at hretry
      | false =>
          rw [JobLife.retry_of_live hterm] at hretry
          cases hretry

/-- A step makes a job active by claiming it, or it was active before. -/
theorem noRevival_step [LawfulJobQueue σ] {settings : Settings} {s t : Sys σ}
    {a : Action} (hcurrent : reportsCurrent settings s a = true)
    (h : step settings s a = some t) : NoRevival s t := by
  intro id
  cases life_move h id with
  | same hlife hclaims =>
      refine ⟨Nat.le_of_eq hclaims.symm, fun hs ht => absurd ?_ hs⟩
      obtain ⟨l, hl, hactive⟩ := ht
      exact ⟨l, hlife ▸ hl, hactive⟩
  | new job hadmitted _ hlife hclaims =>
      refine ⟨Nat.le_of_eq hclaims.symm, fun _ ht => ?_⟩
      obtain ⟨l, hl, hactive⟩ := ht
      obtain rfl : job.life = l := Option.some.inj (hlife.symm.trans hl)
      have hqueued : job.life.state = .queued := (life_of_admitted hadmitted).1
      rw [hqueued] at hactive
      cases hactive
  | claimed l _ _ _ hclaims => exact ⟨by omega, fun _ _ => by omega⟩
  | called c attempt hcall _ htarget hlife hclaims =>
      refine ⟨Nat.le_of_eq hclaims.symm, fun hs ht => absurd ?_ hs⟩
      obtain ⟨l', hl', hactive⟩ := ht
      rw [hlife] at hl'
      obtain ⟨l, hl, rfl⟩ := Option.map_eq_some_iff.mp hl'
      exact ⟨l, hl, active_of_lifeStep hcall hcurrent (htarget ▸ hl) hactive⟩

/-- While every `mark_running` and every `mark_retry_wait` that takes effect is
about the attempt its job is in, every reachable state has the exact number of
claims and charges, and a job becomes active again only by a new claim. -/
theorem attemptsExact_run [LawfulJobQueue σ] (settings : Settings) (queue : σ)
    (hempty : NoJobs queue) (pre post : List Action) (s t : Sys σ)
    (halong : (system σ settings).Along
      (fun s a => reportsCurrent settings s a = true) (.init queue)
      (pre ++ post))
    (hpre : (system σ settings).exec (.init queue) pre = some s)
    (hpost : (system σ settings).exec s post = some t) :
    AttemptsExact s ∧ AttemptsExact t ∧ NoRevival s t := by
  have hsplit := (Machine.along_append hpre).mp halong
  have hstep : ∀ (s : Sys σ) (a : Action) (t : Sys σ), CountInv s →
      reportsCurrent settings s a = true → step settings s a = some t →
      CountInv t := fun _ _ _ hs hcurrent h => countInv_step hs hcurrent h
  have hs : CountInv s := Machine.invariant (I := CountInv) hstep
    (countInv_init hempty) hsplit.1 hpre
  have ht : CountInv t := Machine.invariant (I := CountInv) hstep hs
    hsplit.2 hpost
  refine ⟨hs.toAttemptsExact, ht.toAttemptsExact, ?_⟩
  exact Machine.transition (I := CountInv) (R := NoRevival) noRevival_refl
    (fun h h' => h.trans h') hstep
    (fun _ _ _ _ hcurrent h => noRevival_step hcurrent h) hs hsplit.2 hpost

end Exact

/-! ### Two reconcilers and one expired lease -/

section Runs

/-- The lease of a claimed job runs out, two reconcilers list it, and each
gives the attempt up. -/
def chargedTwiceRun : List Action :=
  claimedRun ++
    [.advance 121000000, .startPass 0, .startPass 1, .listActive 0,
      .listActive 1, .reconcile 0 0, .reconcile 1 0]

/-- One claim, two charges. -/
theorem not_attemptsExact :
    ¬ ∀ (settings : Settings) (as : List Action) (t : Sys PostgresJobQueue),
      (system PostgresJobQueue settings).exec (.init .empty) as = some t →
      AttemptsExact t := by
  intro h
  have hrun : ((system PostgresJobQueue {}).exec (.init .empty)
      chargedTwiceRun).map (fun t => (JobQueue.life t.queue 7, t.claims 7)) =
      some (some ⟨.retryWait, 2, 3⟩, 1) := by decide +kernel
  obtain ⟨t, ht, heq⟩ := Option.map_eq_some_iff.mp hrun
  obtain ⟨hlife, hclaims⟩ := Prod.mk.inj heq
  have hexact := (h {} chargedTwiceRun t ht).exact 7 _ hlife
  have hcount : t.claims 7 = 2 := hexact.1 rfl
  omega

/-- The run whose third `submit` succeeds, cut before its last claim. -/
theorem attemptsExact_run_recovered :
    ∃ s t : Sys PostgresJobQueue,
      (system PostgresJobQueue {}).exec (.init .empty)
        (recoveredRun.take 17) = some s ∧
      (system PostgresJobQueue {}).exec s (recoveredRun.drop 17) = some t ∧
      AttemptsExact s ∧ AttemptsExact t ∧ NoRevival s t := by
  have hsome : ((system PostgresJobQueue {}).exec (.init .empty)
      (recoveredRun.take 17 ++ recoveredRun.drop 17)).isSome = true := by
    decide +kernel
  obtain ⟨t, ht⟩ := Option.isSome_iff_exists.mp hsome
  obtain ⟨s, hs, hst⟩ := (Machine.exec_append_eq_some _).mp ht
  exact ⟨s, t, hs, hst, attemptsExact_run {} _ noJobs_postgres _ _ s t
    (by decide +kernel) hs hst⟩

end Runs

end Imagin4.Ports
