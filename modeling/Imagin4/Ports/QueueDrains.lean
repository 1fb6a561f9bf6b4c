import Mathlib.Algebra.Order.BigOperators.Group.List
import Imagin4.Verified.Rounds
import Imagin4.Ports.BoundedWaiting
import Imagin4.Ports.ReconcilerPass
import Imagin4.Ports.SchedulerTick

/-!
# How a queue drains

A round in which the scheduler ticks with nothing to hold it back, and the reconciler
comes to a decision about every job that was active, gets some job nearer to its end:
a job waits or is worked on once for each attempt, and nothing brings an attempt back.
So the jobs end, whatever else is done to the queue in the meantime.

## Main results

* `proceeds_step` — no step takes a job away from its end.
* `workAt_looked` — a decisive look of the reconciler brings an active job nearer.
* `ticked_lt` — so does a tick on an idle queue with a job that is due.
* `lt_of_fair` — a fair round brings some job nearer, whatever else is in it.
* `drains` — how many rounds a queue can be busy in.
-/

namespace Imagin4.Ports

open Imagin4.Verified

/-! ## What is left to do -/

/-- How many times a job may still be claimed, and then be given up or put back. -/
def JobLife.work (l : JobLife) : Nat :=
  if l.state.isWaiting then 2 * (l.maxAttempts - l.currentAttempt)
  else if l.state.isTerminal then 0
  else 2 * (l.maxAttempts - (l.currentAttempt + 1)) + 1

section Lives

variable {l : JobLife}

theorem JobLife.work_of_waiting (h : l.state.isWaiting = true) :
    l.work = 2 * (l.maxAttempts - l.currentAttempt) := if_pos h

theorem JobLife.work_of_terminal (h : l.state.isTerminal = true) : l.work = 0 := by
  unfold work
  rw [if_neg (by rw [JobState.not_waiting_of_terminal h]; exact Bool.false_ne_true),
    if_pos h]

theorem JobLife.work_of_active (h : l.state.isActive = true) :
    l.work = 2 * (l.maxAttempts - (l.currentAttempt + 1)) + 1 := by
  unfold work
  have hwaiting : l.state.isWaiting = false := by
    cases hl : l.state.isWaiting with
    | false => rfl
    | true => rw [JobState.not_active_of_waiting hl] at h; cases h
  rw [hwaiting, JobState.not_terminal_of_active h]
  rfl

/-- One of the usual three attempts is not charged yet, and somebody looks after the
job, or nobody has to. -/
structure JobLife.Sound (l : JobLife) : Prop where
  spare : l.currentAttempt < l.maxAttempts
  three : l.maxAttempts = 3
  state : l.state.isWaiting = true ∨ l.state.isActive = true ∨ l.state.isTerminal = true

/-- A dispatch is a step towards the end. -/
theorem JobLife.work_dispatch (h : l.state.isWaiting = true)
    (hspare : l.currentAttempt < l.maxAttempts) : l.dispatch.work + 1 = l.work := by
  rw [work_of_waiting h, work_of_active (show l.dispatch.state.isActive = true from rfl)]
  show 2 * (l.maxAttempts - (l.currentAttempt + 1)) + 1 + 1 = _
  omega

theorem JobLife.work_run_le (h : l.state.isTerminal = false)
    (hspare : l.currentAttempt < l.maxAttempts) : (l.run false).work ≤ l.work := by
  rw [work_of_active (show (l.run false).state.isActive = true from rfl)]
  show 2 * (l.maxAttempts - (l.currentAttempt + 1)) + 1 ≤ _
  unfold work
  rw [h]
  split
  · omega
  · exact Nat.le_refl _

theorem JobLife.work_finish_le (l : JobLife) {final : JobState}
    (hfinal : final.isTerminal = true) : (l.finish final).work ≤ l.work := by
  cases h : l.state.isTerminal with
  | true => rw [finish_of_terminal h]
  | false =>
      rw [finish_of_live h, work_of_terminal hfinal]
      exact Nat.zero_le _

theorem JobLife.work_retry_le (l : JobLife) : l.retry.work ≤ l.work := by
  cases h : l.state.isTerminal with
  | true => rw [retry_of_terminal h]
  | false =>
      rw [retry_of_live h, work_of_waiting rfl]
      unfold work
      rw [h]
      split <;> simp only [Bool.false_eq_true, if_false] <;> omega

/-- `mark_running` is called for a job that has not ended, and `mark_retry_wait` puts a
job back only while it has an attempt left. -/
def orderlyLife : QueueCall → JobLife → Prop
  | .markRunning _, l => l.state.isTerminal = false
  | .markRetryWait _ _ _ _ _, l =>
      l.state.isTerminal = true ∨ l.currentAttempt + 1 < l.maxAttempts
  | _, _ => True

theorem JobLife.Sound.finish (h : l.Sound) {final : JobState}
    (hfinal : final.isTerminal = true) : (l.finish final).Sound := by
  unfold JobLife.finish
  split
  · exact h
  · exact ⟨h.spare, h.three, .inr (.inr hfinal)⟩

/-- A call in order takes no job away from its end. -/
theorem JobLife.Sound.lifeStep {c : QueueCall} (h : l.Sound) (hc : orderlyLife c l) :
    (c.lifeStep false l).Sound ∧ (c.lifeStep false l).work ≤ l.work := by
  cases c with
  | renewLease id secs => exact ⟨h, Nat.le_refl _⟩
  | markRunning id =>
      exact ⟨⟨h.spare, h.three, .inr (.inl rfl)⟩, JobLife.work_run_le hc h.spare⟩
  | markSucceeded id result => exact ⟨h.finish rfl, JobLife.work_finish_le l rfl⟩
  | markFailed id code detail => exact ⟨h.finish rfl, JobLife.work_finish_le l rfl⟩
  | markRetryWait id code detail delay draw =>
      refine ⟨?_, JobLife.work_retry_le l⟩
      show l.retry.Sound
      rcases hc with hterm | hleft
      · rw [JobLife.retry_of_terminal hterm]
        exact h
      · unfold JobLife.retry
        split
        · exact h
        · exact ⟨hleft, h.three, .inl rfl⟩
  | setPromptId id promptId => exact ⟨h, Nat.le_refl _⟩
  | cancel id => exact ⟨h.finish rfl, JobLife.work_finish_le l rfl⟩

theorem JobLife.Sound.dispatch (h : l.Sound) : l.dispatch.Sound :=
  ⟨h.spare, h.three, .inr (.inl rfl)⟩

end Lives

namespace InMemoryJobQueue

/-- The ids of the jobs. -/
def ids (q : InMemoryJobQueue) : List Uuid := q.jobs.rows.map QueuedJob.id

/-- What is left to do for a job; a job that is still to come takes three attempts. -/
def workAt (q : InMemoryJobQueue) (id : Uuid) : Nat :=
  ((JobQueue.life q id).map JobLife.work).getD 6

/-- What is left to do. -/
def work (q : InMemoryJobQueue) : Nat := (q.jobs.rows.map (fun j => j.life.work)).sum

/-- The jobs that have not ended. -/
def unfinished (q : InMemoryJobQueue) : Nat :=
  q.jobs.rows.countP (fun j => !j.state.isTerminal)

section Work

variable {q t : InMemoryJobQueue} {id : Uuid} {j : QueuedJob}

theorem workAt_of_get (h : q.get id = some j) : q.workAt id = j.life.work := by
  unfold workAt
  show (((q.get id).map QueuedJob.life).map JobLife.work).getD 6 = _
  rw [h]
  rfl

theorem work_eq_sum (q : InMemoryJobQueue) : q.work = (q.ids.map q.workAt).sum := by
  unfold work ids
  rw [List.map_map]
  refine congrArg List.sum (List.map_congr_left (fun j hj => ?_))
  exact (workAt_of_get (Table.find?_key hj)).symm

theorem mem_ids_of_get (h : q.get id = some j) : id ∈ q.ids := by
  obtain ⟨hmem, hid⟩ := Table.find?_eq_some_iff.mp h
  exact hid ▸ List.mem_map_of_mem hmem

theorem get_of_mem_ids (h : id ∈ q.ids) : ∃ j, q.get id = some j := by
  obtain ⟨j, hj, hid⟩ := List.mem_map.mp h
  exact ⟨j, hid ▸ Table.find?_key hj⟩

theorem workAt_of_not_mem (h : id ∉ q.ids) : q.workAt id = 6 := by
  have hnone : q.get id = none := by
    cases hget : q.get id with
    | none => rfl
    | some j => exact absurd (mem_ids_of_get hget) h
  unfold workAt
  show (((q.get id).map QueuedJob.life).map JobLife.work).getD 6 = _
  rw [hnone]
  rfl

end Work

/-! ## Nearer to the end -/

/-- Jobs may have been added, and none is farther from its end. -/
structure Grows (q t : InMemoryJobQueue) : Prop where
  ids : q.ids <+: t.ids
  workAt (id : Uuid) : t.workAt id ≤ q.workAt id

section Grows

variable {q r t : InMemoryJobQueue} {id : Uuid}

theorem Grows.refl (q : InMemoryJobQueue) : Grows q q :=
  ⟨List.prefix_refl _, fun _ => Nat.le_refl _⟩

theorem Grows.trans (h : Grows q r) (h' : Grows r t) : Grows q t :=
  ⟨h.ids.trans h'.ids, fun id => (h'.workAt id).trans (h.workAt id)⟩

/-- What the jobs of a later queue had left to do before, those to come included. -/
theorem sum_workAt_later (h : q.ids <+: t.ids) :
    (t.ids.map q.workAt).sum + 6 * q.ids.length = q.work + 6 * t.ids.length := by
  obtain ⟨new, hnew⟩ := h
  have hnodup : t.ids.Nodup := t.jobs.nodup
  rw [← hnew, List.nodup_append] at hnodup
  have hsix : (new.map q.workAt).sum = 6 * new.length := by
    have hall : new.map q.workAt = new.map (fun _ => 6) := by
      refine List.map_congr_left (fun id hid => workAt_of_not_mem (fun hold => ?_))
      exact hnodup.2.2 id hold id hid rfl
    rw [hall, List.map_const', List.sum_replicate_nat, Nat.mul_comm]
  rw [← hnew, List.map_append, List.sum_append, hsix, ← work_eq_sum, List.length_append]
  omega

theorem Grows.work_le (h : Grows q t) :
    t.work + 6 * q.ids.length ≤ q.work + 6 * t.ids.length := by
  rw [← sum_workAt_later h.ids, work_eq_sum t]
  have hle : (t.ids.map t.workAt).sum ≤ (t.ids.map q.workAt).sum :=
    List.sum_le_sum (fun id _ => h.workAt id)
  omega

/-- One job that is nearer to its end. -/
theorem Grows.work_lt (h : Grows q t) (hid : id ∈ t.ids)
    (hlt : t.workAt id < q.workAt id) :
    t.work + 1 + 6 * q.ids.length ≤ q.work + 6 * t.ids.length := by
  rw [← sum_workAt_later h.ids, work_eq_sum t]
  have hsum : (t.ids.map t.workAt).sum < (t.ids.map q.workAt).sum :=
    List.sum_lt_sum t.workAt q.workAt (fun id _ => h.workAt id) ⟨id, hid, hlt⟩
  omega

end Grows

/-! ## Steps that move lives -/

/-- Every job is in a sound state, and its kind belongs to a lane. -/
structure Ready (q : InMemoryJobQueue) : Prop where
  sound {j : QueuedJob} : j ∈ q.jobs → j.life.Sound
  lane {j : QueuedJob} : j ∈ q.jobs → ∃ backend, j.kind ∈ kindsForBackend backend

theorem ready_empty : Ready empty := by
  constructor
  · intro j hj
    cases hj
  · intro j hj
    cases hj

/-- The jobs keep what identifies them, and `f` moves their lives. -/
structure MovedBy (f : Uuid → JobLife → JobLife) (q t : InMemoryJobQueue) : Prop where
  standing : Table.Rewritten standing q.jobs t.jobs
  life (id : Uuid) : JobQueue.life t id = (JobQueue.life q id).map (f id)

section Moved

variable {f : Uuid → JobLife → JobLife} {q t : InMemoryJobQueue}

theorem MovedBy.ids (h : MovedBy f q t) : t.ids = q.ids := by
  have hids : Table.Rewritten QueuedJob.id q.jobs t.jobs :=
    h.standing.weaken (fun s => s.1.id) (fun _ => rfl)
  exact hids.map_view

theorem life_of_mem {j : QueuedJob} (hj : j ∈ q.jobs) :
    JobQueue.life q j.id = some j.life :=
  congrArg (Option.map QueuedJob.life) (Table.find?_key hj)

theorem MovedBy.ready (h : MovedBy f q t) (hq : Ready q)
    (hf : ∀ id l, JobQueue.life q id = some l → l.Sound → (f id l).Sound) : Ready t := by
  constructor
  · intro j hj
    have hlife := h.life j.id
    rw [life_of_mem hj] at hlife
    obtain ⟨l, hl, heq⟩ := Option.map_eq_some_iff.mp hlife.symm
    obtain ⟨i, hi, hil⟩ := Option.map_eq_some_iff.mp hl
    rw [← heq]
    exact hf j.id l hl (hil ▸ hq.sound (Table.find?_eq_some_iff.mp hi).1)
  · intro j hj
    obtain ⟨g, hg, hmem⟩ := h.standing.exists_of_mem
    obtain ⟨i, hi, rfl⟩ := (hmem j).mp hj
    have hkind : (g i).kind = i.kind := congrArg (fun s => s.1.key.2.2) (hg i)
    rw [hkind]
    exact hq.lane hi

theorem MovedBy.grows (h : MovedBy f q t)
    (hf : ∀ id l, JobQueue.life q id = some l → (f id l).work ≤ l.work) : Grows q t := by
  refine ⟨h.ids ▸ List.prefix_refl _, fun id => ?_⟩
  unfold workAt
  rw [h.life id]
  cases hl : JobQueue.life q id with
  | none => exact Nat.le_refl _
  | some l => exact hf id l hl

end Moved

/-- A later queue that is ready as well. -/
structure Proceeds (q t : InMemoryJobQueue) : Prop where
  ready : Ready t
  grows : Grows q t

theorem Proceeds.trans {q r t : InMemoryJobQueue} (h : Proceeds q r) (h' : Proceeds r t) :
    Proceeds q t := ⟨h'.ready, h.grows.trans h'.grows⟩

section Steps

variable {q : InMemoryJobQueue}

theorem movedBy_apply (c : QueueCall) (now : DateTime) (q : InMemoryJobQueue) :
    MovedBy (fun id l => if id = c.target then c.lifeStep false l else l) q
      (c.apply now q) := by
  refine ⟨standing_apply c now q, fun id => ?_⟩
  rw [life_apply]
  split
  · rfl
  · exact Option.map_id'.symm

theorem orderlyLife_of_orderlyCall {c : QueueCall} {l : JobLife}
    (hc : q.orderlyCall c = true) (hl : JobQueue.life q c.target = some l) :
    orderlyLife c l := by
  obtain ⟨j, hj, rfl⟩ := Option.map_eq_some_iff.mp hl
  replace hj : q.get c.target = some j := hj
  cases c with
  | markRunning id =>
      have hj' : q.get id = some j := hj
      simpa [orderlyCall, hj', orderlyLife, QueuedJob.life] using hc
  | markRetryWait id code detail delay draw =>
      have hj' : q.get id = some j := hj
      simpa [orderlyCall, hj', orderlyLife, QueuedJob.life] using hc
  | _ => trivial

theorem proceeds_apply {c : QueueCall} (hq : Ready q) (hc : q.orderlyCall c = true)
    (now : DateTime) : Proceeds q (c.apply now q) := by
  have hmoved := movedBy_apply c now q
  have hstep : ∀ id l, JobQueue.life q id = some l → l.Sound → id = c.target →
      (c.lifeStep false l).Sound ∧ (c.lifeStep false l).work ≤ l.work := by
    rintro id l hl hsound rfl
    exact hsound.lifeStep (orderlyLife_of_orderlyCall hc hl)
  have hsound : ∀ id l, JobQueue.life q id = some l → l.Sound := by
    intro id l hl
    obtain ⟨j, hj, rfl⟩ := Option.map_eq_some_iff.mp hl
    exact hq.sound (Table.find?_eq_some_iff.mp hj).1
  refine ⟨hmoved.ready hq (fun id l hl hs => ?_), hmoved.grows (fun id l hl => ?_)⟩
  · split
    · exact (hstep id l hl hs ‹_›).1
    · exact hs
  · split
    · exact (hstep id l hl (hsound id l hl) ‹_›).2
    · exact Nat.le_refl _

/-- What claims has something left to do for each job it takes, and one step less after. -/
theorem proceeds_of_dispatched (ids : List Uuid) {t : InMemoryJobQueue} (hq : Ready q)
    (hmoved : MovedBy (fun id l => if id ∈ ids then l.dispatch else l) q t)
    (hwaiting : ∀ id ∈ ids, ∃ j ∈ q.jobs, j.id = id ∧ j.state.isWaiting = true) :
    Proceeds q t ∧ ∀ id ∈ ids, id ∈ q.ids ∧ t.workAt id < q.workAt id := by
  have hlower : ∀ id l, JobQueue.life q id = some l → id ∈ ids →
      l.dispatch.work + 1 = l.work := by
    intro id l hl hid
    obtain ⟨j, hj, rfl, hstate⟩ := hwaiting id hid
    rw [life_of_mem hj] at hl
    cases hl
    exact JobLife.work_dispatch hstate (hq.sound hj).spare
  refine ⟨⟨hmoved.ready hq (fun id l hl hs => ?_), hmoved.grows (fun id l hl => ?_)⟩,
    fun id hid => ?_⟩
  · split
    · exact hs.dispatch
    · exact hs
  · split
    · exact Nat.le_of_lt (Nat.lt_of_succ_le (Nat.le_of_eq (hlower id l hl ‹_›)))
    · exact Nat.le_refl _
  · obtain ⟨j, hj, rfl, hstate⟩ := hwaiting id hid
    refine ⟨List.mem_map_of_mem hj, ?_⟩
    have hless := hlower j.id j.life (life_of_mem hj) hid
    rw [workAt_of_get (Table.find?_key hj)]
    unfold workAt
    rw [hmoved.life, life_of_mem hj, Option.map_some, if_pos hid, Option.map_some,
      Option.getD_some]
    omega

theorem proceeds_claimNext (hq : Ready q) (workerCapacity : Nat)
    (kinds : Option (List String)) (maxActivePerUser : Int) (now : DateTime) :
    Proceeds q (q.claimNext workerCapacity kinds maxActivePerUser now).1 := by
  refine (proceeds_of_dispatched
    ((q.claimNext workerCapacity kinds maxActivePerUser now).2.map QueuedJob.id) hq
    ⟨standing_claimNext _ _ _ _ q, fun id => ?_⟩ (fun id hid => ?_)).1
  · show ((q.claimNext workerCapacity kinds maxActivePerUser now).1.get id).map
        QueuedJob.life = ((q.get id).map QueuedJob.life).map _
    rw [get_claimNext, Option.map_map, Option.map_map]
    cases hget : q.get id with
    | none => rfl
    | some j =>
        obtain rfl := id_of_get hget
        simp only [Option.map_some, Function.comp_apply]
        split
        · rfl
        · rfl
  · rw [claimNext_returned, map_id_dispatched] at hid
    obtain ⟨j, hj, rfl⟩ := List.mem_map.mp hid
    exact ⟨j, (of_takenBy hj).1, rfl, (of_takenBy hj).2⟩

/-- A claim for a worker; what it takes is nearer to its end. -/
theorem proceeds_claim (hq : Ready q) (req : ClaimRequest) (now : DateTime) :
    Proceeds q (q.claimNextWithLease req now).1 ∧
      ∀ id ∈ (q.claimNextWithLease req now).2.map QueuedJob.id, id ∈ q.ids ∧
        (q.claimNextWithLease req now).1.workAt id < q.workAt id := by
  refine proceeds_of_dispatched _ hq
    ⟨standing_claimNextWithLease req now q, fun id => ?_⟩ (fun id hid => ?_)
  · refine (LawfulJobQueue.life_claim req [] now q id).trans ?_
    show (if id ∈ (q.claimNextWithLease req now).2.map QueuedJob.id then _ else _) = _
    split
    · rfl
    · exact Option.map_id'.symm
  · obtain ⟨taken, _, hmem, heq⟩ := exists_taken req now q
    rw [heq, List.map_map] at hid
    obtain ⟨j, hj, rfl⟩ := List.mem_map.mp hid
    obtain ⟨hget, helig⟩ := hmem j hj
    simp only [eligible, Bool.and_eq_true] at helig
    exact ⟨j, (Table.find?_eq_some_iff.mp hget).1, rfl, helig.1.1⟩

/-- A new job is as far from its end as one that was still to come. -/
theorem proceeds_enqueue {job : QueuedJob} (hq : Ready q) (hfresh : q.get job.id = none)
    (hnew : job.life = ⟨.queued, 0, 3⟩)
    (hlane : ∃ backend, job.kind ∈ kindsForBackend backend) : Proceeds q (q.enqueue job) := by
  have hrows : (q.enqueue job).jobs.rows = q.jobs.rows ++ [job] :=
    Table.rows_put_of_find?_none hfresh
  refine ⟨⟨fun {j} hj => ?_, fun {j} hj => ?_⟩, ⟨?_, fun id => ?_⟩⟩
  · rcases Table.mem_put.mp hj with rfl | ⟨hj, _⟩
    · rw [hnew]
      exact ⟨by decide, rfl, .inl rfl⟩
    · exact hq.sound hj
  · rcases Table.mem_put.mp hj with rfl | ⟨hj, _⟩
    · exact hlane
    · exact hq.lane hj
  · refine ⟨[job.id], ?_⟩
    unfold ids
    rw [hrows, List.map_append]
    rfl
  · have hget := get_enqueue job id q
    by_cases hid : id = job.id
    · rw [if_pos hid] at hget
      have hsix : q.workAt id = 6 := by
        refine workAt_of_not_mem (fun hmem => ?_)
        obtain ⟨j, hj⟩ := get_of_mem_ids hmem
        rw [hid, hfresh] at hj
        cases hj
      rw [workAt_of_get hget, hnew, hsix]
      exact Nat.le_refl _
    · rw [if_neg hid] at hget
      unfold workAt
      show (((q.enqueue job).get id).map _ |>.map _).getD 6 ≤ _
      rw [hget]
      exact Nat.le_refl _

end Steps

/-! ## The reconciler -/

section Reconciler

variable {settings : Settings} {leaseSeconds : Rat} {reports : PassReports}
  {now : DateTime} {q : InMemoryJobQueue} {job : QueuedJob}

/-- What the reconciler meets is enough to end the attempt of a job. -/
def decisive (settings : Settings) (reports : PassReports) (now : DateTime)
    (job : QueuedJob) : Bool :=
  match hasPromptId job with
  | none => leaseExpired job now
  | some _ =>
      match reports.poll job.id with
      | .error _ => false
      | .ok status =>
          match status.state with
          | .succeeded => true
          | .failed => true
          | .running => false
          | .unknown => lostByComfy settings job now

/-- The calls that end an attempt. -/
def endsAttempt : QueueCall → Bool
  | .markSucceeded _ _ => true
  | .markFailed _ _ _ => true
  | .markRetryWait _ _ _ _ _ => true
  | _ => false

theorem exists_failOrRetry {code : String} (hcode : code ∈ retryableErrorCodes)
    (detail : Option String) (draw : Rat) (hsound : job.life.Sound) :
    ∃ c, failOrRetry job code detail draw = .ok c ∧ endsAttempt c = true := by
  have hspare : job.currentAttempt < job.maxAttempts := hsound.spare
  have hthree : job.maxAttempts = 3 := hsound.three
  rw [failOrRetry_eq hcode]
  split
  · rcases computeBackoffSeconds_eq job.currentAttempt draw with ⟨_, delay, hdelay⟩ | ⟨h, _⟩
    · rw [hdelay]
      exact ⟨_, rfl, rfl⟩
    · omega
  · exact ⟨_, rfl, rfl⟩

/-- A decisive look ends the attempt. -/
theorem exists_decision (hsound : job.life.Sound)
    (h : decisive settings reports now job = true) :
    ∃ c, reconcileDecision settings leaseSeconds reports now job = .ok (some c) ∧
      endsAttempt c = true := by
  have hfail : ∀ code ∈ retryableErrorCodes, ∀ detail,
      ∃ c, (failOrRetry job code detail (reports.draw job.id)).map some = .ok (some c) ∧
        endsAttempt c = true := by
    intro code hcode detail
    obtain ⟨c, hc, hends⟩ := exists_failOrRetry hcode detail (reports.draw job.id) hsound
    exact ⟨c, by rw [hc]; rfl, hends⟩
  unfold decisive at h
  unfold reconcileDecision
  cases hprompt : hasPromptId job with
  | none =>
      rw [hprompt] at h
      dsimp only at h ⊢
      unfold reconcileJob
      rw [if_pos h]
      exact hfail _ (by decide) _
  | some p =>
      rw [hprompt] at h
      dsimp only at h ⊢
      cases hpoll : reports.poll job.id with
      | error e =>
          rw [hpoll] at h
          cases h
      | ok status =>
          rw [hpoll] at h
          dsimp only at h ⊢
          unfold resolveViaComfy
          cases hstate : status.state with
          | succeeded => exact ⟨_, rfl, rfl⟩
          | failed => exact hfail _ (by decide) _
          | running =>
              rw [hstate] at h
              cases h
          | unknown =>
              rw [hstate] at h
              dsimp only at h ⊢
              rw [if_pos h]
              exact hfail _ (by decide) _

/-- A look of the reconciler makes no call, or one that is in order. -/
theorem reconcileStep_eq (hget : q.get job.id = some job) :
    reconcileStep settings leaseSeconds reports now q job =
      match reconcileDecision settings leaseSeconds reports now job with
      | .ok (some c) => c.apply (reports.clock job.id) q
      | _ => q := by
  have hderef : JobQueue.deref q job = job := by
    show (q.get job.id).getD job = job
    rw [hget]
    rfl
  unfold reconcileStep
  rw [hderef]
  dsimp only
  cases reconcileDecision settings leaseSeconds reports now job with
  | error e => rfl
  | ok call => cases call <;> rfl

theorem orderlyCall_of_verdict {c : QueueCall} (h : Verdict job c)
    (hget : q.get job.id = some job) : q.orderlyCall c = true := by
  cases h with
  | retry code detail delay draw hleft =>
      have hleft' : job.currentAttempt + 1 < job.maxAttempts := hleft
      simp [orderlyCall, hget, hleft']
  | _ => rfl

theorem proceeds_reconcileStep (hq : Ready q) (hget : q.get job.id = some job) :
    Proceeds q (reconcileStep settings leaseSeconds reports now q job) := by
  rw [reconcileStep_eq hget]
  split
  · rename_i c hdecision
    exact proceeds_apply hq (orderlyCall_of_verdict (verdict_of_decision hdecision) hget) _
  · exact ⟨hq, Grows.refl q⟩

/-- The queue after the reconciler has come to a job in its round. -/
def looked (settings : Settings) (leaseSeconds : Rat) (reports : PassReports)
    (now : DateTime) (id : Uuid) (q : InMemoryJobQueue) : InMemoryJobQueue :=
  match q.get id with
  | none => q
  | some job => reconcileStep settings leaseSeconds reports now q job

theorem looked_eq {id : Uuid} (hget : q.get id = some job) :
    looked settings leaseSeconds reports now id q =
      reconcileStep settings leaseSeconds reports now q job := by
  unfold looked
  rw [hget]

theorem proceeds_looked (hq : Ready q) (id : Uuid) :
    Proceeds q (looked settings leaseSeconds reports now id q) := by
  cases hget : q.get id with
  | none =>
      unfold looked
      rw [hget]
      exact ⟨hq, Grows.refl q⟩
  | some job =>
      rw [looked_eq hget]
      exact proceeds_reconcileStep hq (id_of_get hget ▸ hget)

theorem work_of_endsAttempt {c : QueueCall} {l : JobLife}
    (hc : endsAttempt c = true) (hl : l.state.isActive = true) :
    (c.lifeStep false l).work < l.work := by
  have hlive := JobState.not_terminal_of_active hl
  rw [JobLife.work_of_active hl]
  cases c with
  | markSucceeded id result =>
      show (l.finish .succeeded).work < _
      rw [JobLife.finish_of_live hlive, JobLife.work_of_terminal rfl]
      exact Nat.succ_pos _
  | markFailed id code detail =>
      show (l.finish .failed).work < _
      rw [JobLife.finish_of_live hlive, JobLife.work_of_terminal rfl]
      exact Nat.succ_pos _
  | markRetryWait id code detail delay draw =>
      show l.retry.work < _
      rw [JobLife.retry_of_live hlive, JobLife.work_of_waiting rfl]
      exact Nat.lt_succ_self _
  | _ => cases hc

/-- A decisive look brings an active job nearer to its end. -/
theorem workAt_looked (hq : Ready q) (hget : q.get job.id = some job)
    (hactive : job.state.isActive = true)
    (hdecisive : decisive settings reports now job = true) :
    (looked settings leaseSeconds reports now job.id q).workAt job.id <
      q.workAt job.id := by
  have hsound := hq.sound (Table.find?_eq_some_iff.mp hget).1
  obtain ⟨c, hdecision, hends⟩ := exists_decision hsound hdecisive
  have htarget := (verdict_of_decision hdecision).target
  rw [looked_eq hget, reconcileStep_eq hget, hdecision, workAt_of_get hget]
  dsimp only
  unfold workAt
  rw [(movedBy_apply c _ q).life]
  have hlife : JobQueue.life q job.id = some job.life :=
    congrArg (Option.map QueuedJob.life) hget
  rw [hlife, Option.map_some, if_pos htarget.symm, Option.map_some, Option.getD_some]
  exact work_of_endsAttempt hends hactive

end Reconciler

/-! ## The scheduler -/

section Ticks

variable (settings : Settings) (ownerId : String) (workers : WorkerStatuses)
  (clock : Backend → DateTime) {q : InMemoryJobQueue}

/-- A tick that reads the counts of the queue, while nobody else calls it. -/
def quietWorld (q : InMemoryJobQueue) (workers : WorkerStatuses)
    (clock : Backend → DateTime) : Scheduler.TickWorld InMemoryJobQueue where
  comfyActive := .ok (q.countActive (some (kindsForBackend .comfyui)))
  geminiActive := .ok (q.countActive (some (kindsForBackend .gemini)))
  workers := .ok workers
  lane backend :=
    { others := id
      locked := []
      now := clock backend
      ending := .answered }

/-- The queue after `_tick`. -/
def ticked (q : InMemoryJobQueue) : InMemoryJobQueue :=
  (Scheduler.tick settings ownerId (.init q) (quietWorld q workers clock)).queue

/-- What a lane of a tick does to the queue. -/
def claimedLane (capacity : Capacity) (backend : Backend) (q : InMemoryJobQueue) :
    InMemoryJobQueue :=
  match claimForBackend settings ownerId backend (capacity.lane backend) with
  | none => q
  | some req => (q.claimNextWithLease req (clock backend)).1

theorem queue_claimLanes (r : InMemoryJobQueue) (capacity : Capacity)
    (lanes : List Backend) :
    ∀ (claimed : List QueuedJob) (s : Scheduler.TickState InMemoryJobQueue),
      ∃ claimed', (Scheduler.claimLanes settings ownerId capacity
          (quietWorld r workers clock) lanes claimed s).2 = .ok claimed' ∧
        (Scheduler.claimLanes settings ownerId capacity (quietWorld r workers clock) lanes
          claimed s).1.queue =
            lanes.foldl (fun q backend =>
              claimedLane settings ownerId clock capacity backend q) s.queue := by
  induction lanes with
  | nil => exact fun claimed s => ⟨claimed, rfl, rfl⟩
  | cons backend rest ih =>
      intro claimed s
      rw [Scheduler.claimLanes, List.foldl_cons]
      unfold claimedLane
      dsimp only [quietWorld, id_eq]
      cases claimForBackend settings ownerId backend (capacity.lane backend) with
      | none => exact ih claimed _
      | some req => exact ih _ _

/-- A quiet tick claims for one lane and then for the other. -/
theorem ticked_eq (q : InMemoryJobQueue) :
    let capacity := settings.reserveCapacityByBackend
      (q.countActive (some (kindsForBackend .comfyui)))
      (q.countActive (some (kindsForBackend .gemini))) workers
    ticked settings ownerId workers clock q =
      claimedLane settings ownerId clock capacity .gemini
        (claimedLane settings ownerId clock capacity .comfyui q) := by
  intro capacity
  obtain ⟨claimed, hok, hqueue⟩ := queue_claimLanes settings ownerId workers clock q
    capacity [.comfyui, .gemini] [] (.init q)
  have hcapacity : Scheduler.reserveCapacity settings (quietWorld q workers clock) =
      .ok capacity := rfl
  unfold ticked Scheduler.tick
  rw [hcapacity]
  dsimp only
  revert hok hqueue
  generalize Scheduler.claimLanes settings ownerId capacity (quietWorld q workers clock)
    [.comfyui, .gemini] [] (.init q) = r
  obtain ⟨s, result⟩ := r
  rintro rfl hqueue
  exact hqueue

theorem proceeds_claimedLane (hq : Ready q) (capacity : Capacity) (backend : Backend) :
    Proceeds q (claimedLane settings ownerId clock capacity backend q) := by
  unfold claimedLane
  split
  · exact ⟨hq, Grows.refl q⟩
  · exact (proceeds_claim hq _ _).1

theorem proceeds_ticked (hq : Ready q) :
    Proceeds q (ticked settings ownerId workers clock q) := by
  rw [ticked_eq]
  have hfirst := proceeds_claimedLane settings ownerId clock hq
    (settings.reserveCapacityByBackend
      (q.countActive (some (kindsForBackend .comfyui)))
      (q.countActive (some (kindsForBackend .gemini))) workers) .comfyui
  exact hfirst.trans (proceeds_claimedLane settings ownerId clock hfirst.ready _ _)

/-! ## An idle queue -/

/-- Nobody works on a job. -/
def Idle (q : InMemoryJobQueue) : Prop := ∀ j ∈ q.jobs, j.state.isActive = false

/-- Where nobody works, whoever claims gets something, if a job is due. -/
theorem exists_claimed (hidle : Idle q) {req : ClaimRequest} {now : DateTime}
    (hcapacity : 0 < req.workerCapacity) {j : QueuedJob} (hj : j ∈ q.jobs)
    (helig : eligible req.kinds now j = true) :
    (q.claimNextWithLease req now).2 ≠ [] := by
  have hcand : j ∈ q.candidates req.kinds now := mem_candidates.mpr ⟨hj, helig⟩
  obtain ⟨before, after, horder⟩ := List.append_of_mem hcand
  have hgreedy : Greedy QueuedJob.userId (BelowCap req.maxActivePerUser) QueuedJob.id
      req.workerCapacity q.activeCounts (q.candidates req.kinds now)
      (q.takenBy req.workerCapacity req.kinds req.maxActivePerUser now) :=
    greedy_onePass (candidates_nodup req.kinds now q) _ _
  have hcounts : ∀ user, q.activeCounts user = 0 := by
    intro user
    refine List.countP_eq_zero.mpr (fun i hi => ?_)
    rw [hidle i hi, Bool.and_false]
    exact Bool.false_ne_true
  have htaken : q.takenBy req.workerCapacity req.kinds req.maxActivePerUser now ≠ [] := by
    intro hnone
    rw [hnone] at hgreedy
    rcases hgreedy.left_behind horder List.not_mem_nil with hfull | hplace
    · exact absurd hfull (Nat.not_le.mpr hcapacity)
    · rw [belowCap_iff] at hplace
      have hzero : countsWith QueuedJob.userId q.activeCounts
          (among QueuedJob.id before []) j.userId = 0 := hcounts j.userId
      omega
  unfold claimNextWithLease
  dsimp only
  rw [claimNext_returned]
  simpa using htaken

theorem countActive_of_idle (hidle : Idle q) (kinds : Option (List String)) :
    q.countActive kinds = 0 := by
  refine List.countP_eq_zero.mpr (fun i hi => ?_)
  rw [hidle i hi, Bool.false_and]
  exact Bool.false_ne_true

/-- Whoever gets nothing has changed nothing. -/
theorem claim_nothing {req : ClaimRequest} {now : DateTime}
    (h : (q.claimNextWithLease req now).2 = []) : (q.claimNextWithLease req now).1 = q := by
  have hnone : (q.claimNext req.workerCapacity req.kinds req.maxActivePerUser now).2 = [] :=
    List.map_eq_nil_iff.mp h
  have hjobs : (q.claimNext req.workerCapacity req.kinds req.maxActivePerUser now).1.jobs =
      q.jobs := by
    rw [claimNext_returned, List.map_eq_nil_iff] at hnone
    rw [claimNext_jobs, hnone]
    exact Table.modifyWhere_eq_self (fun _ _ => rfl)
  have hleased : (q.claimNextWithLease req now).1.jobs = q.jobs := by
    unfold claimNextWithLease
    dsimp only
    rw [hnone, hjobs]
    exact Table.modifyWhere_eq_self (fun _ _ => rfl)
  exact congrArg InMemoryJobQueue.mk hleased

/-- A lane that gets nothing leaves the queue as it is. -/
theorem claimedLane_or (hq : Ready q) (capacity : Capacity) (backend : Backend) :
    claimedLane settings ownerId clock capacity backend q = q ∨
      ∃ id ∈ q.ids, (claimedLane settings ownerId clock capacity backend q).workAt id <
        q.workAt id := by
  unfold claimedLane
  split
  · exact .inl rfl
  · rename_i req _
    cases hclaimed : (q.claimNextWithLease req (clock backend)).2 with
    | nil => exact .inl (claim_nothing hclaimed)
    | cons j rest =>
        have hmem : j.id ∈ (q.claimNextWithLease req (clock backend)).2.map QueuedJob.id := by
          rw [hclaimed]
          exact List.mem_cons_self
        exact .inr ⟨j.id, (proceeds_claim hq req (clock backend)).2 j.id hmem⟩

/-- A waiting job whose backoff is over. -/
def dueAt (now : DateTime) (j : QueuedJob) : Bool :=
  match j.availableAt with
  | none => true
  | some t => decide (t ≤ now)

theorem claimedLane_lt (hq : Ready q) (hidle : Idle q) {capacity : Capacity}
    {backend : Backend} (hcapacity : 0 < capacity.lane backend) {j : QueuedJob}
    (hj : j ∈ q.jobs) (hwaiting : j.state.isWaiting = true)
    (hkind : j.kind ∈ kindsForBackend backend) (hdue : dueAt (clock backend) j = true) :
    ∃ id ∈ q.ids, (claimedLane settings ownerId clock capacity backend q).workAt id <
      q.workAt id := by
  unfold claimedLane claimForBackend
  rw [if_neg (by omega)]
  dsimp only
  set req : ClaimRequest :=
    { workerCapacity := (capacity.lane backend).toNat
      leaseOwner := ownerId
      leaseSeconds := defaultLeaseSeconds
      kinds := some (kindsForBackend backend)
      maxActivePerUser := settings.maxActiveJobsPerUser } with hreq
  have helig : eligible req.kinds (clock backend) j = true := by
    unfold eligible
    rw [hwaiting, hreq, Bool.true_and, Bool.and_eq_true]
    exact ⟨decide_eq_true hkind, hdue⟩
  have hroom : 0 < req.workerCapacity := by
    show 0 < (capacity.lane backend).toNat
    omega
  have hsome := exists_claimed hidle hroom hj helig
  obtain ⟨k, hk⟩ := List.exists_mem_of_ne_nil _ hsome
  exact ⟨k.id, (proceeds_claim hq req (clock backend)).2 k.id (List.mem_map_of_mem hk)⟩

/-- Is a worker online, or has none been registered yet? -/
def fleetServes : WorkerStatuses → Bool
  | none => true
  | some rows => rows.isEmpty || rows.any (fun status => status = "online")

theorem reserve_of_idle (hworkers : fleetServes workers = true) (backend : Backend)
    (hslots : 1 ≤ settings.slots backend) :
    0 < (settings.reserveCapacityByBackend 0 0 workers).lane backend := by
  have hcapacity : settings.reserveCapacityByBackend 0 0 workers =
      ⟨max 0 (settings.comfySlots - 0), max 0 (settings.defaultGeminiActiveSlots - 0)⟩ := by
    unfold Settings.reserveCapacityByBackend
    cases workers with
    | none => rfl
    | some rows =>
        have hserves : (!rows.any (fun status => status = "online") && !rows.isEmpty) =
            false := by
          rw [← Bool.not_or, Bool.or_comm]
          exact congrArg not hworkers
        dsimp only
        rw [hserves, if_neg Bool.false_ne_true]
        split <;> rfl
  rw [hcapacity]
  cases backend with
  | comfyui =>
      have hslots' : 1 ≤ settings.comfySlots := hslots
      show 0 < max 0 (settings.comfySlots - 0)
      omega
  | gemini =>
      have hslots' : 1 ≤ settings.defaultGeminiActiveSlots := hslots
      show 0 < max 0 (settings.defaultGeminiActiveSlots - 0)
      omega

/-- **A tick on an idle queue** brings some job nearer to its end, if one is due. -/
theorem ticked_lt (hq : Ready q) (hidle : Idle q) (hworkers : fleetServes workers = true)
    (hslots : ∀ backend, 1 ≤ settings.slots backend) {j : QueuedJob} (hj : j ∈ q.jobs)
    (hwaiting : j.state.isWaiting = true)
    (hdue : ∀ backend, dueAt (clock backend) j = true) :
    ∃ id ∈ q.ids, (ticked settings ownerId workers clock q).workAt id < q.workAt id := by
  have hcapacity := fun backend =>
    reserve_of_idle settings workers hworkers backend (hslots backend)
  rw [ticked_eq, countActive_of_idle hidle, countActive_of_idle hidle]
  generalize settings.reserveCapacityByBackend 0 0 workers = capacity at hcapacity ⊢
  rcases claimedLane_or settings ownerId clock hq capacity .comfyui with
    hsame | ⟨id, hid, hlt⟩
  · rw [hsame]
    obtain ⟨backend, hkind⟩ := hq.lane hj
    have hlane := claimedLane_lt settings ownerId clock hq hidle (hcapacity backend) hj
      hwaiting hkind (hdue backend)
    cases backend with
    | gemini => exact hlane
    | comfyui =>
        rw [hsame] at hlane
        obtain ⟨id, _, hlt⟩ := hlane
        exact absurd hlt (Nat.lt_irrefl _)
  · have hready := (proceeds_claimedLane settings ownerId clock hq capacity .comfyui).ready
    have hgrows := (proceeds_claimedLane settings ownerId clock hready capacity .gemini).grows
    exact ⟨id, hid, Nat.lt_of_le_of_lt (hgrows.workAt id) hlt⟩

end Ticks

end InMemoryJobQueue

/-! ## The system -/

open InMemoryJobQueue

/-- What happens to a queue: an admission, a claim or a call; a look of the reconciler at
a job; a tick of the scheduler. -/
inductive DrainAction where
  | queue (a : MemoryAction)
  | look (settings : Settings) (leaseSeconds : Rat) (reports : PassReports)
      (now : DateTime) (id : Uuid)
  | tick (settings : Settings) (ownerId : String) (workers : WorkerStatuses)
      (clock : Backend → DateTime)

/-- The queue after an action. -/
def drainStep (host : AdmissionHost) (q : InMemoryJobQueue) :
    DrainAction → Option InMemoryJobQueue
  | .queue a => memoryStep host q a
  | .look settings leaseSeconds reports now id =>
      some (looked settings leaseSeconds reports now id q)
  | .tick settings ownerId workers clock => some (ticked settings ownerId workers clock q)

/-- The machine of a queue that is worked on. -/
def drainQueue (host : AdmissionHost) : Machine InMemoryJobQueue DrainAction :=
  ⟨drainStep host⟩

/-- The ids of new jobs are new, and the calls are in order. -/
def orderlyStep (q : InMemoryJobQueue) : DrainAction → Bool
  | .queue a => orderly q a
  | _ => true

section Passes

variable (host : AdmissionHost) (settings : Settings) (leaseSeconds : Rat)
  (reports : PassReports) (now : DateTime) {q : InMemoryJobQueue}

theorem looked_active {active : QueuedJob} (h : active.id ∈ q.ids) :
    looked settings leaseSeconds reports now active.id q =
        reconcileStep settings leaseSeconds reports now q active ∧
      (reconcileStep settings leaseSeconds reports now q active).ids = q.ids := by
  obtain ⟨job, hjob⟩ := get_of_mem_ids h
  have hget : q.get job.id = some job := (id_of_get hjob).symm ▸ hjob
  have hsame : reconcileStep settings leaseSeconds reports now q active =
      reconcileStep settings leaseSeconds reports now q job := by
    have hactive : JobQueue.deref q active = job := by
      show (q.get active.id).getD active = job
      rw [hjob]
      rfl
    have hjob' : JobQueue.deref q job = job := by
      show (q.get job.id).getD job = job
      rw [hget]
      rfl
    unfold reconcileStep
    rw [hactive, hjob']
  refine ⟨(looked_eq hjob).trans hsame.symm, ?_⟩
  rw [hsame, reconcileStep_eq hget]
  split
  · exact (movedBy_apply _ _ q).ids
  · rfl

/-- A pass of the reconciler is a row of looks. -/
theorem exec_looks (q : InMemoryJobQueue) :
    (drainQueue host).exec q
        (q.listActive.map (fun j => .look settings leaseSeconds reports now j.id)) =
      some (runOnce settings leaseSeconds reports now q).1 := by
  have hloop : ∀ (active : List QueuedJob) (r : InMemoryJobQueue),
      (∀ j ∈ active, j.id ∈ r.ids) →
      (drainQueue host).exec r
          (active.map (fun j => .look settings leaseSeconds reports now j.id)) =
        some (runOver settings leaseSeconds reports now active r) := by
    intro active
    induction active with
    | nil => exact fun r _ => rfl
    | cons j rest ih =>
        intro r hr
        obtain ⟨hlooked, hids⟩ := looked_active settings leaseSeconds reports now
          (hr j List.mem_cons_self)
        rw [List.map_cons]
        refine (drainQueue host).exec_cons_eq_some.mpr ⟨_, congrArg some hlooked, ?_⟩
        refine ih _ (fun k hk => ?_)
        rw [hids]
        exact hr k (List.mem_cons_of_mem j hk)
  exact hloop q.listActive q (fun j hj => mem_ids_of_get (mem_listActive.mp hj).1)

end Passes

section Runs

variable {host : AdmissionHost} {q r t : InMemoryJobQueue}

/-- An admission, a claim or a call in order. -/
theorem proceeds_memoryStep {a : MemoryAction} (hq : Ready q) (ha : orderly q a = true)
    (h : memoryStep host q a = some t) : Proceeds q t := by
  cases a with
  | admission settings r =>
      cases h
      have hadmits := run_admitGenerationJob host settings r q
      revert hadmits
      generalize admitToMemory host settings r q = result
      intro hadmits
      cases hadmits with
      | created v position hvalid _ _ _ =>
          obtain ⟨_, hkind⟩ := backend_of_resolveWorkflow (workflow_of_validateRequest hvalid)
          exact proceeds_enqueue hq (Option.isNone_iff_eq_none.mp ha) rfl ⟨_, hkind⟩
      | _ => exact ⟨hq, Grows.refl q⟩
  | claimNext workerCapacity kinds maxActivePerUser now =>
      cases h
      exact proceeds_claimNext hq _ _ _ _
  | claim req now =>
      cases h
      exact (proceeds_claim hq req now).1
  | call c now =>
      cases h
      exact proceeds_apply hq ha now

/-- **No step takes a job away from its end.** -/
theorem proceeds_step {a : DrainAction} (hq : Ready q) (ha : orderlyStep q a = true)
    (h : (drainQueue host).step q a = some t) : Proceeds q t := by
  cases a with
  | queue a => exact proceeds_memoryStep hq ha h
  | look settings leaseSeconds reports now id =>
      cases h
      exact proceeds_looked hq id
  | tick settings ownerId workers clock =>
      cases h
      exact proceeds_ticked settings ownerId workers clock hq

theorem ready_run {as : List MemoryAction} (hrun : (memoryQueue host).exec empty as = some q)
    (h : (memoryQueue host).Along (fun q a => orderly q a = true) empty as) : Ready q :=
  Machine.invariant (M := memoryQueue host) (I := Ready)
    (fun _ _ _ hs ha hstep => (proceeds_memoryStep hs ha hstep).ready) ready_empty h hrun

theorem proceeds_run {as : List DrainAction} (hq : Ready q)
    (h : (drainQueue host).Along (fun q a => orderlyStep q a = true) q as)
    (hrun : (drainQueue host).exec q as = some t) : Proceeds q t where
  ready := Machine.invariant (M := drainQueue host) (I := Ready)
    (fun _ _ _ hs ha hstep => (proceeds_step hs ha hstep).ready) hq h hrun
  grows := Machine.transition (M := drainQueue host) (I := Ready) (R := Grows) Grows.refl
    Grows.trans (fun _ _ _ hs ha hstep => (proceeds_step hs ha hstep).ready)
    (fun _ _ _ hs ha hstep => (proceeds_step hs ha hstep).grows) hq h hrun

end Runs

/-! ## Fair rounds -/

/-- The reconciler looks at the job, and comes to a decision if somebody still works on
it. -/
def decides (id : Uuid) (q : InMemoryJobQueue) : DrainAction → Bool
  | .look settings _ reports now id' =>
      decide (id' = id) &&
        (q.get id).all (fun j => !j.state.isActive || decisive settings reports now j)
  | _ => false

/-- The scheduler ticks with a slot on each lane and a fleet that serves, and no waiting
job is backing off. -/
def serves (q : InMemoryJobQueue) : DrainAction → Bool
  | .tick settings _ workers clock =>
      decide (1 ≤ settings.slots .comfyui) && decide (1 ≤ settings.slots .gemini) &&
        fleetServes workers &&
        q.jobs.rows.all (fun j => !j.state.isWaiting ||
          (dueAt (clock .comfyui) j && dueAt (clock .gemini) j))
  | _ => false

/-- The reconciler decides about every job somebody works on as the round begins; or, if
there is none, the scheduler serves. -/
def Fair (host : AdmissionHost) (q : InMemoryJobQueue) (round : List DrainAction) : Prop :=
  (∀ j ∈ q.listActive,
    (drainQueue host).Somewhere (fun q a => decides j.id q a = true) q round) ∧
  (q.listActive.isEmpty = true →
    (drainQueue host).Somewhere (fun q a => serves q a = true) q round)

instance (host : AdmissionHost) (q : InMemoryJobQueue) (round : List DrainAction) :
    Decidable (Fair host q round) := by
  unfold Fair
  infer_instance

section Rounds

variable {host : AdmissionHost} {q r t : InMemoryJobQueue}

/-- Somebody works on a job as long as what is left to do is odd. -/
theorem active_iff_odd {l : JobLife} (h : l.Sound) :
    l.state.isActive = true ↔ l.work % 2 = 1 := by
  constructor
  · intro hactive
    rw [JobLife.work_of_active hactive]
    omega
  · intro hodd
    rcases h.state with hwaiting | hactive | hterm
    · rw [JobLife.work_of_waiting hwaiting] at hodd
      omega
    · exact hactive
    · rw [JobLife.work_of_terminal hterm] at hodd
      cases hodd

theorem workAt_even_of_idle (hq : Ready q) (hidle : Idle q) (id : Uuid) :
    q.workAt id % 2 ≠ 1 := by
  by_cases hid : id ∈ q.ids
  · obtain ⟨j, hj⟩ := get_of_mem_ids hid
    have hmem := (Table.find?_eq_some_iff.mp hj).1
    rw [workAt_of_get hj, ne_eq, ← active_iff_odd (hq.sound hmem)]
    show ¬ j.state.isActive = true
    rw [hidle j hmem]
    exact Bool.false_ne_true
  · rw [workAt_of_not_mem hid]
    decide

theorem work_pos {l : JobLife} (h : l.Sound) (hlive : l.state.isTerminal = false) :
    0 < l.work := by
  have hspare := h.spare
  unfold JobLife.work
  rw [hlive]
  split
  · omega
  · exact Nat.succ_pos _

/-- A decisive look at a job somebody worked on as the round began. -/
theorem lt_of_decides {a : DrainAction} {j : QueuedJob} (hq : Ready q)
    (hj : q.get j.id = some j) (hactive : j.state.isActive = true) (hr : Proceeds q r)
    (ha : decides j.id r a = true) (hstep : (drainQueue host).step r a = some t) :
    t.workAt j.id < q.workAt j.id := by
  cases a with
  | look settings leaseSeconds reports now id =>
      cases hstep
      unfold decides at ha
      rw [Bool.and_eq_true, decide_eq_true_eq] at ha
      obtain ⟨rfl, hdecides⟩ := ha
      obtain ⟨k, hk⟩ := get_of_mem_ids (hr.grows.ids.subset (mem_ids_of_get hj))
      have hkid := id_of_get hk
      rw [hk, Option.all_some, Bool.or_eq_true] at hdecides
      by_cases hkactive : k.state.isActive = true
      · have hdecisive : decisive settings reports now k = true :=
          hdecides.resolve_left (by rw [hkactive]; exact Bool.false_ne_true)
        rw [← hkid] at hk ⊢
        exact Nat.lt_of_lt_of_le (workAt_looked hr.ready hk hkactive hdecisive)
          (hr.grows.workAt k.id)
      · have hle : (looked settings leaseSeconds reports now j.id r).workAt j.id ≤
            r.workAt j.id := (proceeds_looked hr.ready j.id).grows.workAt j.id
        have hodd : q.workAt j.id % 2 = 1 := by
          rw [workAt_of_get hj]
          exact (active_iff_odd (hq.sound (Table.find?_eq_some_iff.mp hj).1)).mp hactive
        have heven : r.workAt j.id % 2 ≠ 1 := by
          rw [workAt_of_get hk]
          intro hodd
          exact hkactive ((active_iff_odd
            (hr.ready.sound (Table.find?_eq_some_iff.mp hk).1)).mpr hodd)
        have hless := hr.grows.workAt j.id
        omega
  | _ => cases ha

/-- A tick that serves, on a queue that was idle as the round began. -/
theorem lt_of_serves {a : DrainAction} {j : QueuedJob} (hq : Ready q) (hidle : Idle q)
    (hj : j ∈ q.jobs) (hlive : j.state.isTerminal = false) (hr : Proceeds q r)
    (ha : serves r a = true) (hstep : (drainQueue host).step r a = some t) :
    ∃ id ∈ r.ids, t.workAt id < q.workAt id := by
  cases a with
  | tick settings ownerId workers clock =>
      cases hstep
      by_cases hsame : ∀ id ∈ r.ids, r.workAt id = q.workAt id
      · have hjid : j.id ∈ r.ids := hr.grows.ids.subset (List.mem_map_of_mem hj)
        obtain ⟨k, hk⟩ := get_of_mem_ids hjid
        have hkmem := (Table.find?_eq_some_iff.mp hk).1
        have hridle : Idle r := by
          intro i hi
          refine Bool.eq_false_iff.mpr (fun hactive => ?_)
          have hodd := (active_iff_odd (hr.ready.sound hi)).mp hactive
          rw [← workAt_of_get (Table.find?_key hi), hsame i.id (List.mem_map_of_mem hi)]
            at hodd
          exact workAt_even_of_idle hq hidle i.id hodd
        have hkwaiting : k.state.isWaiting = true := by
          have hkpos : 0 < k.life.work := by
            rw [← workAt_of_get hk, hsame j.id hjid, workAt_of_get (Table.find?_key hj)]
            exact work_pos (hq.sound hj) hlive
          rcases (hr.ready.sound hkmem).state with hwaiting | hactive | hterm
          · exact hwaiting
          · rw [show k.life.state.isActive = false from hridle k hkmem] at hactive
            cases hactive
          · rw [JobLife.work_of_terminal hterm] at hkpos
            cases hkpos
        unfold serves at ha
        simp only [Bool.and_eq_true, decide_eq_true_eq, List.all_eq_true, Bool.or_eq_true,
          Bool.not_eq_true'] at ha
        obtain ⟨⟨⟨hcomfy, hgemini⟩, hfleet⟩, hdue⟩ := ha
        have hdue' := (hdue k hkmem).resolve_left (by rw [hkwaiting]; decide)
        obtain ⟨id, hid, hlt⟩ := ticked_lt settings ownerId workers clock hr.ready hridle
          hfleet (fun backend => by cases backend; exacts [hcomfy, hgemini]) hkmem hkwaiting
          (fun backend => by cases backend; exacts [hdue'.1, hdue'.2])
        exact ⟨id, hid, Nat.lt_of_lt_of_le hlt (hr.grows.workAt id)⟩
      · simp only [not_forall] at hsame
        obtain ⟨id, hid, hne⟩ := hsame
        have hle := hr.grows.workAt id
        have hle' := (proceeds_ticked settings ownerId workers clock hr.ready).grows.workAt id
        exact ⟨id, hid, by omega⟩
  | _ => cases ha

/-- **A fair round brings some job nearer to its end**, whatever else is in it. -/
theorem lt_of_fair {round : List DrainAction} (hq : Ready q)
    (horderly : (drainQueue host).Along (fun q a => orderlyStep q a = true) q round)
    (hrun : (drainQueue host).exec q round = some t) (hfair : Fair host q round)
    (hbusy : q.unfinished ≠ 0) : ∃ id ∈ t.ids, t.workAt id < q.workAt id := by
  have hcut : ∀ {pre post : List DrainAction} {a : DrainAction} {r s : InMemoryJobQueue},
      round = pre ++ a :: post → (drainQueue host).exec q pre = some r →
      (drainQueue host).step r a = some s → (drainQueue host).exec s post = some t →
      Proceeds q r ∧ Proceeds r s ∧ Proceeds s t := by
    intro pre post a r s hsplit hpre hstep hpost
    rw [hsplit] at horderly
    obtain ⟨hbefore, hafter⟩ := (Machine.along_append hpre).mp horderly
    obtain ⟨ha, hrest⟩ := (Machine.along_cons hstep).mp hafter
    have hqr := proceeds_run hq hbefore hpre
    have hrs := proceeds_step hqr.ready ha hstep
    exact ⟨hqr, hrs, proceeds_run hrs.ready hrest hpost⟩
  cases hactive : q.listActive with
  | nil =>
      have hidle : Idle q := by
        intro j hj
        refine Bool.eq_false_iff.mpr (fun h => ?_)
        have hmem : j ∈ q.listActive := List.mem_filter.mpr ⟨hj, h⟩
        rw [hactive] at hmem
        cases hmem
      obtain ⟨j, hj, hlive⟩ := List.countP_pos_iff.mp (Nat.pos_of_ne_zero hbusy)
      obtain ⟨pre, a, post, r, s, hsplit, hpre, ha, hstep, hpost⟩ :=
        (hfair.2 (by rw [hactive]; rfl)).split hrun
      obtain ⟨hqr, hrs, hst⟩ := hcut hsplit hpre hstep hpost
      obtain ⟨id, hid, hlt⟩ := lt_of_serves hq hidle hj (by simpa using hlive) hqr ha hstep
      exact ⟨id, (hrs.grows.trans hst.grows).ids.subset hid,
        Nat.lt_of_le_of_lt (hst.grows.workAt id) hlt⟩
  | cons j rest =>
      have hj : j ∈ q.listActive := by
        rw [hactive]
        exact List.mem_cons_self
      obtain ⟨hget, hstate⟩ := mem_listActive.mp hj
      obtain ⟨pre, a, post, r, s, hsplit, hpre, ha, hstep, hpost⟩ :=
        (hfair.1 j hj).split hrun
      obtain ⟨hqr, hrs, hst⟩ := hcut hsplit hpre hstep hpost
      have hlt := lt_of_decides hq hget hstate hqr ha hstep
      exact ⟨j.id, (hqr.grows.trans (hrs.grows.trans hst.grows)).ids.subset
        (mem_ids_of_get hget), Nat.lt_of_le_of_lt (hst.grows.workAt j.id) hlt⟩

/-- Two for each attempt of a job that has not ended. -/
theorem work_le_unfinished (hq : Ready q) : q.work ≤ 6 * q.unfinished := by
  refine sum_le_mul_countP (fun j hj => ?_)
  have hthree : j.life.maxAttempts = 3 := (hq.sound hj).three
  cases hterm : j.state.isTerminal with
  | true =>
      rw [JobLife.work_of_terminal hterm]
      exact Nat.zero_le _
  | false =>
      rw [Bool.not_false, Bool.toNat_true]
      unfold JobLife.work
      rw [hthree]
      split
      · omega
      · split <;> omega

theorem work_pos_of_unfinished (hq : Ready q) (h : q.unfinished ≠ 0) : 0 < q.work := by
  obtain ⟨j, hj, hlive⟩ := List.countP_pos_iff.mp (Nat.pos_of_ne_zero h)
  have hpos := work_pos (hq.sound hj) (show j.state.isTerminal = false by simpa using hlive)
  have hle : j.life.work ≤ q.work :=
    List.le_sum_of_mem (List.mem_map_of_mem (f := fun j : QueuedJob => j.life.work) hj)
  omega

/-- Is there a job that has not ended? -/
def busy (q : InMemoryJobQueue) : Nat := if q.unfinished = 0 then 0 else 1

/-- The rounds of a run, each orderly and fair. -/
def FairRounds (host : AdmissionHost) : InMemoryJobQueue → List (List DrainAction) → Prop :=
  (drainQueue host).rounds.Along (fun q round =>
    (drainQueue host).Along (fun q a => orderlyStep q a = true) q round ∧ Fair host q round)

theorem charged_busy {rounds : List (List DrainAction)} (hq : Ready q)
    (hrun : (drainQueue host).rounds.exec q rounds = some t)
    (hfair : FairRounds host q rounds) :
    Proceeds q t ∧ t.work + (drainQueue host).rounds.charged (fun q _ => busy q) q rounds +
      6 * q.ids.length ≤ q.work + 6 * t.ids.length := by
  have hround : ∀ (s : InMemoryJobQueue) (round : List DrainAction) (r : InMemoryJobQueue),
      Ready s → ((drainQueue host).Along (fun q a => orderlyStep q a = true) s round ∧
        Fair host s round) → (drainQueue host).rounds.step s round = some r →
      Proceeds s r ∧ r.work + busy s + 6 * s.ids.length ≤ s.work + 6 * r.ids.length := by
    rintro s round r hs ⟨horderly, hfair⟩ hstep
    have hproceeds := proceeds_run hs horderly hstep
    refine ⟨hproceeds, ?_⟩
    unfold busy
    split
    · exact hproceeds.grows.work_le
    · obtain ⟨id, hid, hlt⟩ := lt_of_fair hs horderly hstep hfair ‹_›
      exact hproceeds.grows.work_lt hid hlt
  have hready : ∀ (s : InMemoryJobQueue) (round : List DrainAction) (r : InMemoryJobQueue),
      Ready s → ((drainQueue host).Along (fun q a => orderlyStep q a = true) s round ∧
        Fair host s round) → (drainQueue host).rounds.step s round = some r → Ready r :=
    fun s round r hs ha h => (hround s round r hs ha h).1.ready
  refine ⟨⟨Machine.invariant hready hq hfair hrun, ?_⟩, ?_⟩
  · exact Machine.transition (R := Grows) Grows.refl Grows.trans hready
      (fun s round r hs ha h => (hround s round r hs ha h).1.grows) hq hfair hrun
  · exact Machine.charged_le_credit
      (fun s round r hs ha h => ⟨hready s round r hs ha h, (hround s round r hs ha h).2⟩)
      hq hfair hrun

/-- **The queue drains.**  From any queue that has come about in order, and over any fair
rounds, in which jobs may be admitted, cancelled, claimed by other schedulers and worked
on at will: there are at most six rounds that begin with an unfinished job for each job
that is unfinished or new.  So if no job is new, six for each leave none. -/
theorem drains (host : AdmissionHost) (as : List MemoryAction) (q : InMemoryJobQueue)
    (has : (memoryQueue host).exec empty as = some q)
    (horderly : (memoryQueue host).Along (fun q a => orderly q a = true) empty as)
    (rounds : List (List DrainAction)) (t : InMemoryJobQueue)
    (hrun : (drainQueue host).rounds.exec q rounds = some t)
    (hfair : FairRounds host q rounds) :
    ∃ new : Nat, t.ids.length = q.ids.length + new ∧
      (drainQueue host).rounds.charged (fun q _ => busy q) q rounds ≤
        6 * (q.unfinished + new) ∧
      (new = 0 → 6 * q.unfinished ≤ rounds.length →
        ∀ j ∈ t.jobs, j.state.isTerminal = true) := by
  have hq := ready_run has horderly
  obtain ⟨ht, hpaid⟩ := charged_busy hq hrun hfair
  have hbound := work_le_unfinished hq
  obtain ⟨new, hnew⟩ := Nat.exists_eq_add_of_le ht.grows.ids.length_le
  refine ⟨new, hnew, by omega, fun hnone hlong => ?_⟩
  have hended : t.unfinished = 0 := by
    by_contra hleft
    have hpos := work_pos_of_unfinished ht.ready hleft
    have hbusy : (drainQueue host).rounds.Along (fun q _ => 1 ≤ busy q) q rounds := by
      refine Machine.along_of_split hrun (fun pre round post r hsplit hpre => ?_)
      have hcut := hfair
      rw [hsplit] at hcut hrun
      obtain ⟨hbefore, hafter⟩ := (Machine.along_append hpre).mp hcut
      obtain ⟨r', hr', hpost⟩ := (drainQueue host).rounds.exec_append_eq_some.mp hrun
      obtain rfl := Option.some.inj (hpre.symm.trans hr')
      obtain ⟨hr, _⟩ := charged_busy hq hpre hbefore
      obtain ⟨ht', hrest⟩ := charged_busy hr.ready hpost hafter
      have hrbound := work_le_unfinished hr.ready
      have hlonger := hr.grows.ids.length_le
      have hlonger' := ht'.grows.ids.length_le
      unfold busy
      split
      · omega
      · exact Nat.le_refl _
    have hlength := Machine.length_le_charged hbusy hrun
    omega
  intro j hj
  simpa using List.countP_eq_zero.mp hended j hj

/-- One image, found by the first look of the reconciler. -/
def oneImageRounds : List (List DrainAction) :=
  let tick : DrainAction := .tick {} "s" none (fun _ => 10)
  [[tick, .queue (.call (.markRunning 1) 11), .queue (.call (.setPromptId 1 "p") 12)],
    [.look {} 120 ⟨fun _ => .ok ⟨.succeeded, some [], none⟩, fun _ => 20, fun _ => 0⟩ 20 1],
    [tick], [tick], [tick], [tick]]

theorem drains_oneImage : ∃ q t,
    (memoryQueue plainHost).exec empty [.admission {} (catRequest 1)] = some q ∧
    (drainQueue plainHost).rounds.exec q oneImageRounds = some t ∧
    ∃ new : Nat, t.ids.length = q.ids.length + new ∧
      (drainQueue plainHost).rounds.charged (fun q _ => busy q) q oneImageRounds ≤
        6 * (q.unfinished + new) ∧
      (new = 0 → 6 * q.unfinished ≤ oneImageRounds.length →
        ∀ j ∈ t.jobs, j.state.isTerminal = true) := by
  obtain ⟨q, hq⟩ : ∃ q, (memoryQueue plainHost).exec empty
      [.admission {} (catRequest 1)] = some q := ⟨_, rfl⟩
  have hfair : ∀ q, (memoryQueue plainHost).exec empty [.admission {} (catRequest 1)] =
      some q → FairRounds plainHost q oneImageRounds ∧
        ((drainQueue plainHost).rounds.exec q oneImageRounds).isSome = true := by
    intro q hq
    cases hq
    unfold FairRounds
    decide +kernel
  obtain ⟨hrounds, hruns⟩ := hfair q hq
  obtain ⟨t, ht⟩ := Option.isSome_iff_exists.mp hruns
  exact ⟨q, t, hq, ht, drains plainHost _ q hq (by decide +kernel) _ t ht hrounds⟩

end Rounds

end Imagin4.Ports
