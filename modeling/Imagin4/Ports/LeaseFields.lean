import Imagin4.Ports.MemoryQueue
import Imagin4.Ports.JobSystem

/-!
# The lease fields of the in-memory queue

`lease_owner` and `lease_expires_at` are set by a claim, and taken away by
`mark_succeeded`, `mark_failed` and `mark_retry_wait`.  `cancel` leaves them on the
job it ends, and `mark_running` makes any job active without a look at them.  These
two are the only ways to part the lease of a job from its state.

## Main results

* `leasesFit_apply_iff` — the calls that keep leases and states together.
* `leaseExpired_of_fits` — the lease of an active job runs out.
* `leasesFit_run` — the runs in which leases and states stay together.
* `not_leasesFit` — the cancelled job that is still leased.
-/

namespace Imagin4.Ports

open Imagin4.Verified

/-- Both fields of the lease are set if the job is active, and neither is if it is
not. -/
structure QueuedJob.LeaseFits (j : QueuedJob) : Prop where
  owner : j.leaseOwner.isSome = j.state.isActive
  expiresAt : j.leaseExpiresAt.isSome = j.state.isActive

/-- The lease of an active job is over at some time, and stays over. -/
theorem leaseExpired_of_fits {j : QueuedJob} (hj : j.LeaseFits)
    (hactive : j.state.isActive = true) :
    ∃ expiresAt, ∀ now, expiresAt < now → leaseExpired j now = true := by
  have hsome : j.leaseExpiresAt.isSome = true := hj.expiresAt.trans hactive
  obtain ⟨expiresAt, hlease⟩ := Option.isSome_iff_exists.mp hsome
  refine ⟨expiresAt, fun now hnow => ?_⟩
  unfold leaseExpired
  rw [hlease]
  exact decide_eq_true hnow

namespace InMemoryJobQueue

variable {q : InMemoryJobQueue}

/-- The leases of all jobs fit. -/
def LeasesFit (q : InMemoryJobQueue) : Prop :=
  ∀ id j, q.get id = some j → j.LeaseFits

theorem leasesFit_empty : LeasesFit empty := by
  intro id j hj
  cases hj

/-! ## One call -/

/-- The call neither cancels a job that is active nor runs one that is not. -/
def keepsLease (q : InMemoryJobQueue) : QueueCall → Bool
  | .cancel id => (q.get id).all (fun j => !j.state.isActive)
  | .markRunning id => (q.get id).all (fun j => j.state.isActive)
  | _ => true

theorem leasesFit_update_iff (hq : q.LeasesFit) (id : Uuid)
    (f : QueuedJob → QueuedJob) (hf : ∀ j, (f j).id = j.id) :
    (q.update id f hf).LeasesFit ↔ ∀ j, q.get id = some j → (f j).LeaseFits := by
  constructor
  · intro h j hj
    refine h id (f j) ?_
    rw [get_update, if_pos rfl, hj]
    rfl
  · intro h i k hk
    rw [get_update] at hk
    by_cases hi : i = id
    · rw [if_pos hi] at hk
      obtain ⟨j, hj, rfl⟩ := Option.map_eq_some_iff.mp hk
      exact h j (hi ▸ hj)
    · rw [if_neg hi] at hk
      exact hq i k hk

/-- An update that takes the lease from the jobs it ends or puts back. -/
theorem leasesFit_updateLive (hq : q.LeasesFit) (id : Uuid)
    (f : QueuedJob → QueuedJob) (hf : ∀ j, (f j).id = j.id)
    (hfits : ∀ j, (f j).LeaseFits) : (q.updateLive id f hf).LeasesFit := by
  refine (leasesFit_update_iff hq id _ _).mpr (fun j hj => ?_)
  by_cases hterm : j.state.isTerminal = true
  · rw [if_pos hterm]
    exact hq id j hj
  · rw [if_neg hterm]
    exact hfits j

/-- A `mark_running` fits if its job has been claimed. -/
theorem leasesFit_markRunning_iff (hq : q.LeasesFit) (id : Uuid) :
    (q.markRunning id).LeasesFit ↔
      ∀ j, q.get id = some j → j.state.isActive = true := by
  refine (leasesFit_update_iff hq id _ _).trans (forall_congr' (fun j => ?_))
  refine imp_congr_right (fun hj => ?_)
  have hfits := hq id j hj
  constructor
  · intro h
    exact hfits.owner.symm.trans h.owner
  · intro hactive
    exact ⟨hfits.owner.trans hactive, hfits.expiresAt.trans hactive⟩

/-- A `cancel` fits if its job is not active. -/
theorem leasesFit_cancel_iff (hq : q.LeasesFit) (id : Uuid) :
    (q.cancel id).LeasesFit ↔
      ∀ j, q.get id = some j → j.state.isActive = false := by
  refine (leasesFit_update_iff hq id _ _).trans (forall_congr' (fun j => ?_))
  refine imp_congr_right (fun hj => ?_)
  have hfits := hq id j hj
  by_cases hterm : j.state.isTerminal = true
  · have hidle := JobState.not_active_of_terminal hterm
    rw [if_pos hterm]
    exact ⟨fun _ => hidle, fun _ => hfits⟩
  · rw [if_neg hterm]
    constructor
    · intro h
      exact hfits.owner.symm.trans h.owner
    · intro hidle
      exact ⟨hfits.owner.trans hidle, hfits.expiresAt.trans hidle⟩

/-- The calls that keep leases and states together. -/
theorem leasesFit_apply_iff (hq : q.LeasesFit) (c : QueueCall) (now : DateTime) :
    (c.apply now q).LeasesFit ↔ q.keepsLease c = true := by
  cases c with
  | markRunning id =>
      refine (leasesFit_markRunning_iff hq id).trans ?_
      simp [keepsLease, Option.all_eq_true]
  | cancel id =>
      refine (leasesFit_cancel_iff hq id).trans ?_
      simp [keepsLease, Option.all_eq_true]
  | renewLease id secs =>
      refine iff_of_true ((leasesFit_update_iff hq id _ _).mpr ?_) rfl
      intro j hj
      have hfits := hq id j hj
      by_cases hactive : j.state.isActive = true
      · rw [if_pos hactive]
        exact ⟨hfits.owner, hactive.symm⟩
      · rw [if_neg hactive]
        exact hfits
  | setPromptId id p =>
      refine iff_of_true ((leasesFit_update_iff hq id _ _).mpr ?_) rfl
      intro j hj
      have hfits := hq id j hj
      exact ⟨hfits.owner, hfits.expiresAt⟩
  | markSucceeded id result =>
      have hfits : (q.markSucceeded id result).LeasesFit :=
        leasesFit_updateLive hq id _ _ (fun _ => ⟨rfl, rfl⟩)
      exact iff_of_true hfits rfl
  | markFailed id code detail =>
      have hfits : (q.markFailed id code detail).LeasesFit :=
        leasesFit_updateLive hq id _ _ (fun _ => ⟨rfl, rfl⟩)
      exact iff_of_true hfits rfl
  | markRetryWait id code detail delay draw =>
      have hfits : (q.markRetryWait id code detail delay draw now).LeasesFit := by
        refine leasesFit_updateLive hq id _ _ (fun j => ?_)
        unfold waitForRetry
        dsimp only
        split <;> exact ⟨rfl, rfl⟩
      exact iff_of_true hfits rfl

/-- A job that admission has made has no lease. -/
theorem leasesFit_enqueue (hq : q.LeasesFit) {job : QueuedJob}
    (hadmitted : admitted job = true) : (q.enqueue job).LeasesFit := by
  intro id j hj
  rw [get_enqueue] at hj
  by_cases hid : id = job.id
  · rw [if_pos hid] at hj
    obtain rfl : job = j := Option.some.inj hj
    unfold admitted at hadmitted
    simp only [Bool.and_eq_true, decide_eq_true_eq, Option.isNone_iff_eq_none]
      at hadmitted
    obtain ⟨⟨⟨⟨⟨_, howner⟩, hlease⟩, _⟩, _⟩⟩ := hadmitted
    constructor
    · simp_all [JobState.isActive]
    · simp_all [JobState.isActive]
  · rw [if_neg hid] at hj
    exact hq id j hj

/-- A claim leases what it makes active. -/
theorem leasesFit_claim (hq : q.LeasesFit) (req : ClaimRequest) (now : DateTime) :
    (q.claimNextWithLease req now).1.LeasesFit := by
  intro id k hk
  rw [get_claimNextWithLease] at hk
  split at hk
  · obtain ⟨j, _, rfl⟩ := Option.map_eq_some_iff.mp hk
    exact ⟨rfl, rfl⟩
  · exact hq id k hk

end InMemoryJobQueue

/-! ## Runs -/

/-- The step cancels no active job and runs no inactive one. -/
def keepsLeases (settings : Settings) (s : Sys InMemoryJobQueue) (a : Action) :
    Bool :=
  match callOf settings s a with
  | some (c, _) => s.queue.keepsLease c
  | none => true

/-- Leases and states stay together exactly in the steps that do neither. -/
theorem leasesFit_step_iff {settings : Settings} {s t : Sys InMemoryJobQueue}
    {a : Action} (hs : s.queue.LeasesFit) (h : step settings s a = some t) :
    t.queue.LeasesFit ↔ keepsLeases settings s a = true := by
  cases step_move h with
  | quiet _ hcall hqueue =>
      rw [hqueue]
      refine iff_of_true hs ?_
      simp [keepsLeases, hcall]
  | enqueue job ha hadmitted =>
      refine iff_of_true (InMemoryJobQueue.leasesFit_enqueue hs hadmitted) ?_
      simp [keepsLeases, ha, callOf]
  | claim _ i req locked ha _ hqueue =>
      rw [hqueue]
      refine iff_of_true (InMemoryJobQueue.leasesFit_claim hs req s.now) ?_
      simp [keepsLeases, ha, callOf]
  | call u c attempt hcall _ hnow hqueue =>
      have hstep : (u.call c attempt).queue = c.apply s.now s.queue := by
        show c.apply u.now u.queue = _
        rw [hnow, hqueue]
      rw [hstep, InMemoryJobQueue.leasesFit_apply_iff hs]
      simp [keepsLeases, hcall]

/-- In a run of the in-memory queue every job is leased exactly while it is
active, if and only if the run never cancels a job that is active and never runs
one that is not. -/
theorem leasesFit_run (settings : Settings) (as : List Action)
    (t : Sys InMemoryJobQueue)
    (hrun : (system InMemoryJobQueue settings).exec (.init .empty) as = some t) :
    (∀ pre post s, as = pre ++ post →
      (system InMemoryJobQueue settings).exec (.init .empty) pre = some s →
      s.queue.LeasesFit) ↔
    (system InMemoryJobQueue settings).Along
      (fun s a => keepsLeases settings s a = true) (.init .empty) as := by
  refine (Machine.along_iff (I := fun s => s.queue.LeasesFit) ?_ ?_ hrun).symm
  · intro s a t hs hstep
    exact leasesFit_step_iff hs hstep
  · exact InMemoryJobQueue.leasesFit_empty

/-! ## The cancelled job that is leased -/

/-- The lease owner of job 7 at the end of a run. -/
def ownerAfter (as : List Action) : Option (JobState × Option String) :=
  ((system InMemoryJobQueue {}).exec (.init .empty) as).bind
    (fun s => (s.queue.get 7).map (fun j => (j.state, j.leaseOwner)))

theorem not_leasesFit :
    ¬ ∀ (settings : Settings) (as : List Action) (t : Sys InMemoryJobQueue),
      (system InMemoryJobQueue settings).exec (.init .empty) as = some t →
      t.queue.LeasesFit := by
  intro h
  have hrun : ownerAfter (claimedRun ++ [.cancel 7]) =
      some (.cancelled, some "scheduler-0") := by decide +kernel
  obtain ⟨t, ht, hjob⟩ := Option.bind_eq_some_iff.mp hrun
  obtain ⟨j, hj, howner⟩ := Option.map_eq_some_iff.mp hjob
  obtain ⟨hstate, hlease⟩ := Prod.mk.inj howner
  have hfits := (h {} _ t ht 7 j hj).owner
  rw [hlease, hstate] at hfits
  cases hfits

/-- The job that starts to run has its lease. -/
theorem leasesFit_run_claimed :
    ∃ s, (system InMemoryJobQueue {}).exec (.init .empty)
      (claimedRun ++ [.markRunning 0]) = some s ∧ s.queue.LeasesFit := by
  have hsome : ((system InMemoryJobQueue {}).exec (.init .empty)
      (claimedRun ++ [.markRunning 0])).isSome = true := by decide +kernel
  obtain ⟨s, hs⟩ := Option.isSome_iff_exists.mp hsome
  have hfits := (leasesFit_run {} _ s hs).mpr (by decide +kernel)
  exact ⟨s, hs, hfits _ [] s (List.append_nil _).symm hs⟩

end Imagin4.Ports
