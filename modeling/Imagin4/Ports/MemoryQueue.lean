import Mathlib.Data.List.Sort
import Imagin4.Verified.Table
import Imagin4.Ports.JobQueue
import Imagin4.Ports.Retry

/-!
# The in-memory queue

`InMemoryJobQueue` of `app/adapters/queue/__init__.py`: a dictionary of job
objects that every operation changes in place.  It lives in one asyncio
process and no operation suspends, so each call is one atomic step.

`mark_running` is the one operation that does not look at the state it
overwrites; `guardsRunning` is `false` here.

## Main results

* `claimLoop_eq` — a claim takes a sublist of the sorted candidates.
* `slot_apply` — what each call does to the job object it is about.
* `instLawfulJobQueueInMemoryJobQueue` — the adapter moves job lives the way
  the protocol says.
-/

namespace Imagin4.Ports

open Imagin4.Verified

/-- `InMemoryJobQueue`; the keys of `_jobs` are the ids of its values. -/
structure InMemoryJobQueue where
  jobs : Table QueuedJob.id

namespace InMemoryJobQueue

/-- `InMemoryJobQueue()`. -/
def empty : InMemoryJobQueue := ⟨Table.empty⟩

/-- Changes the job object under an id, if there is one. -/
def update (id : Uuid) (f : QueuedJob → QueuedJob)
    (hf : ∀ j, (f j).id = j.id) (q : InMemoryJobQueue) : InMemoryJobQueue :=
  ⟨q.jobs.modify id f hf⟩

/-! ## Operations -/

/-- `enqueue`. -/
def enqueue (job : QueuedJob) (q : InMemoryJobQueue) : InMemoryJobQueue :=
  ⟨q.jobs.put job⟩

/-- `get`. -/
def get (q : InMemoryJobQueue) (id : Uuid) : Option QueuedJob :=
  q.jobs.find? id

/-- The filter of `claim_next`. -/
def eligible (kinds : Option (List String)) (now : DateTime)
    (j : QueuedJob) : Bool :=
  j.state.isWaiting && kindAllowed kinds j.kind &&
    match j.availableAt with
    | none => true
    | some t => decide (t ≤ now)

/-- The sort key `(-effective_priority, queued_at)` of `claim_next`. -/
def ClaimsBefore (i j : QueuedJob) : Prop :=
  j.effectivePriority < i.effectivePriority ∨
    (i.effectivePriority = j.effectivePriority ∧ i.queuedAt ≤ j.queuedAt)

instance : DecidableRel ClaimsBefore := fun i j => by
  unfold ClaimsBefore
  infer_instance

/-- The candidates of a claim, in the order they are looked at. -/
def candidates (kinds : Option (List String)) (now : DateTime)
    (q : InMemoryJobQueue) : List QueuedJob :=
  (q.jobs.rows.filter (eligible kinds now)).insertionSort ClaimsBefore

/-- `active_counts` before the loop. -/
def activeCounts (q : InMemoryJobQueue) (user : Uuid) : Nat :=
  q.jobs.rows.countP (fun j => j.userId = user && j.state.isActive)

/-- The claim loop.  `counts` is `active_counts`, `claimed` what the loop has
taken so far. -/
def claimLoop (workerCapacity : Nat) (maxActivePerUser : Int) :
    List QueuedJob → (Uuid → Nat) → List QueuedJob → List QueuedJob
  | [], _, claimed => claimed
  | job :: rest, counts, claimed =>
      if workerCapacity ≤ claimed.length then claimed
      else if 0 < maxActivePerUser ∧ maxActivePerUser ≤ counts job.userId then
        claimLoop workerCapacity maxActivePerUser rest counts claimed
      else
        claimLoop workerCapacity maxActivePerUser rest
          (fun user =>
            if user = job.userId then counts user + 1 else counts user)
          (claimed ++ [{ job with state := .dispatched }])

/-- `claim_next`. -/
def claimNext (workerCapacity : Nat) (kinds : Option (List String))
    (maxActivePerUser : Int) (now : DateTime) (q : InMemoryJobQueue) :
    InMemoryJobQueue × List QueuedJob :=
  let claimed := claimLoop workerCapacity maxActivePerUser
    (q.candidates kinds now) q.activeCounts []
  (⟨q.jobs.modifyWhere (fun j => decide (j.id ∈ claimed.map QueuedJob.id))
      (fun j => { j with state := .dispatched }) (fun _ => rfl)⟩,
    claimed)

/-- Stamps a lease on a job object. -/
def stampLease (owner : String) (expiresAt : DateTime) (j : QueuedJob) :
    QueuedJob :=
  { j with leaseOwner := some owner, leaseExpiresAt := some expiresAt }

/-- `claim_next_with_lease`. -/
def claimNextWithLease (req : ClaimRequest) (now : DateTime)
    (q : InMemoryJobQueue) : InMemoryJobQueue × List QueuedJob :=
  let r := q.claimNext req.workerCapacity req.kinds req.maxActivePerUser now
  let stamp := stampLease req.leaseOwner (now + timedelta req.leaseSeconds)
  (⟨r.1.jobs.modifyWhere (fun j => decide (j.id ∈ r.2.map QueuedJob.id))
      stamp (fun _ => rfl)⟩,
    r.2.map stamp)

/-- `list_active`. -/
def listActive (q : InMemoryJobQueue) : List QueuedJob :=
  q.jobs.rows.filter (fun j => j.state.isActive)

/-- `count_active`. -/
def countActive (kinds : Option (List String)) (q : InMemoryJobQueue) : Nat :=
  q.jobs.rows.countP (fun j => j.state.isActive && kindAllowed kinds j.kind)

/-- `renew_lease`. -/
def renewLease (id : Uuid) (leaseSeconds : Rat) (now : DateTime) :
    InMemoryJobQueue → InMemoryJobQueue :=
  update id
    (fun j =>
      if j.state.isActive then
        { j with leaseExpiresAt := some (now + timedelta leaseSeconds) }
      else j)
    (fun j => by split <;> rfl)

/-- `mark_running`: no look at the present state. -/
def markRunning (id : Uuid) : InMemoryJobQueue → InMemoryJobQueue :=
  update id (fun j => { j with state := .running, promptId := none })
    (fun _ => rfl)

/-- Changes a job object unless it is in a terminal state: the guard of
`mark_succeeded`, `mark_failed`, `mark_retry_wait` and `cancel`. -/
def updateLive (id : Uuid) (f : QueuedJob → QueuedJob)
    (hf : ∀ j, (f j).id = j.id) : InMemoryJobQueue → InMemoryJobQueue :=
  update id (fun j => if j.state.isTerminal then j else f j)
    (fun j => by
      split
      · rfl
      · exact hf j)

/-- `mark_succeeded`. -/
def markSucceeded (id : Uuid) (result : JobResult) :
    InMemoryJobQueue → InMemoryJobQueue :=
  updateLive id
    (fun j =>
      { j with
        state := .succeeded
        result := some result
        leaseOwner := none
        leaseExpiresAt := none
        errorCode := none
        errorDetail := none })
    (fun _ => rfl)

/-- `mark_failed`. -/
def markFailed (id : Uuid) (errorCode : String)
    (errorDetail : Option String) : InMemoryJobQueue → InMemoryJobQueue :=
  updateLive id
    (fun j =>
      { j with
        state := .failed
        errorCode := some errorCode
        errorDetail := errorDetail
        leaseOwner := none
        leaseExpiresAt := none })
    (fun _ => rfl)

/-- What `mark_retry_wait` sets before it looks at the delay. -/
def chargeAttempt (errorCode : String) (errorDetail : Option String)
    (j : QueuedJob) : QueuedJob :=
  { j with
    state := .retryWait
    errorCode := some errorCode
    errorDetail := errorDetail
    currentAttempt := j.currentAttempt + 1
    leaseOwner := none
    leaseExpiresAt := none }

/-- What `mark_retry_wait` does to a live job.  An `OverflowError` of the
backoff escapes after the job object has been changed, so only `available_at`
keeps its value then. -/
def waitForRetry (errorCode : String) (errorDetail : Option String)
    (delaySeconds : Option Rat) (draw : Rat) (now : DateTime)
    (j : QueuedJob) : QueuedJob :=
  let charged := chargeAttempt errorCode errorDetail j
  match retryDelay delaySeconds charged.currentAttempt draw with
  | .ok delay => { charged with availableAt := some (now + timedelta delay) }
  | .error _ => charged

theorem waitForRetry_id (errorCode : String) (errorDetail : Option String)
    (delaySeconds : Option Rat) (draw : Rat) (now : DateTime)
    (j : QueuedJob) :
    (waitForRetry errorCode errorDetail delaySeconds draw now j).id = j.id := by
  unfold waitForRetry
  dsimp only
  split <;> rfl

/-- `mark_retry_wait`. -/
def markRetryWait (id : Uuid) (errorCode : String)
    (errorDetail : Option String) (delaySeconds : Option Rat) (draw : Rat)
    (now : DateTime) : InMemoryJobQueue → InMemoryJobQueue :=
  updateLive id (waitForRetry errorCode errorDetail delaySeconds draw now)
    (waitForRetry_id errorCode errorDetail delaySeconds draw now)

/-- `set_prompt_id`. -/
def setPromptId (id : Uuid) (promptId : String) :
    InMemoryJobQueue → InMemoryJobQueue :=
  update id (fun j => { j with promptId := some promptId }) (fun _ => rfl)

/-- `cancel`, without its answer. -/
def cancel (id : Uuid) : InMemoryJobQueue → InMemoryJobQueue :=
  updateLive id (fun j => { j with state := .cancelled }) (fun _ => rfl)

instance : JobQueue InMemoryJobQueue where
  get := get
  enqueue job _ := enqueue job
  claimNextWithLease req _ := claimNextWithLease req
  listActive := listActive
  countActive := countActive
  renewLease := renewLease
  markRunning := markRunning
  markSucceeded := markSucceeded
  markFailed := markFailed
  markRetryWait := markRetryWait
  setPromptId := setPromptId
  cancel := cancel
  deref q j := (q.get j.id).getD j
  guardsRunning := false

/-! ## Lookups after a call -/

theorem get_update (id i : Uuid) (f : QueuedJob → QueuedJob)
    (hf : ∀ j, (f j).id = j.id) (q : InMemoryJobQueue) :
    (q.update id f hf).get i =
      if i = id then (q.get i).map f else q.get i :=
  Table.find?_modify q.jobs id i f hf

theorem get_enqueue (job : QueuedJob) (i : Uuid) (q : InMemoryJobQueue) :
    (q.enqueue job).get i = if i = job.id then some job else q.get i :=
  Table.find?_put q.jobs job i

theorem mem_listActive {q : InMemoryJobQueue} {j : QueuedJob} :
    j ∈ q.listActive ↔ q.get j.id = some j ∧ j.state.isActive = true := by
  unfold listActive get
  rw [List.mem_filter, Table.find?_eq_some_iff]
  simp [Table.mem_def]

theorem id_of_get {q : InMemoryJobQueue} {i : Uuid} {j : QueuedJob}
    (h : q.get i = some j) : j.id = i :=
  Table.key_of_find? h

/-! ## Claims -/

/-- The claim loop appends a sublist of the candidates, each turned to
`dispatched`, to what it has already taken. -/
theorem claimLoop_eq (workerCapacity : Nat) (maxActivePerUser : Int)
    (jobs : List QueuedJob) :
    ∀ (counts : Uuid → Nat) (claimed : List QueuedJob),
    ∃ taken : List QueuedJob, taken.Sublist jobs ∧
      claimLoop workerCapacity maxActivePerUser jobs counts claimed =
        claimed ++ taken.map (fun j => { j with state := .dispatched }) := by
  induction jobs with
  | nil => exact fun _ claimed => ⟨[], .refl _, by simp [claimLoop]⟩
  | cons job rest ih =>
      intro counts claimed
      simp only [claimLoop]
      split
      · exact ⟨[], List.nil_sublist _, by simp⟩
      · split
        · obtain ⟨taken, hsub, heq⟩ := ih counts claimed
          exact ⟨taken, hsub.cons _, heq⟩
        · obtain ⟨taken, hsub, heq⟩ := ih
            (fun user =>
              if user = job.userId then counts user + 1 else counts user)
            (claimed ++ [{ job with state := .dispatched }])
          exact ⟨job :: taken, hsub.cons_cons _, by rw [heq]; simp⟩

theorem mem_candidates {kinds : Option (List String)} {now : DateTime}
    {q : InMemoryJobQueue} {j : QueuedJob} :
    j ∈ q.candidates kinds now ↔ j ∈ q.jobs ∧ eligible kinds now j = true := by
  rw [candidates, List.mem_insertionSort, List.mem_filter, Table.mem_def]

theorem candidates_nodup (kinds : Option (List String)) (now : DateTime)
    (q : InMemoryJobQueue) :
    ((q.candidates kinds now).map QueuedJob.id).Nodup := by
  have hperm := (List.perm_insertionSort ClaimsBefore
    (q.jobs.rows.filter (eligible kinds now))).map QueuedJob.id
  refine hperm.nodup_iff.mpr (q.jobs.nodup.sublist ?_)
  exact List.filter_sublist.map _

/-- What a claim takes: jobs of the queue that are eligible, each once. -/
theorem exists_taken (req : ClaimRequest) (now : DateTime)
    (q : InMemoryJobQueue) :
    ∃ taken : List QueuedJob,
      (taken.map QueuedJob.id).Nodup ∧
      (∀ j ∈ taken, q.get j.id = some j ∧
        eligible req.kinds now j = true) ∧
      (q.claimNextWithLease req now).2 = taken.map (fun j =>
        stampLease req.leaseOwner (now + timedelta req.leaseSeconds)
          { j with state := .dispatched }) := by
  obtain ⟨taken, hsub, heq⟩ := claimLoop_eq req.workerCapacity
    req.maxActivePerUser (q.candidates req.kinds now) q.activeCounts []
  refine ⟨taken, (candidates_nodup req.kinds now q).sublist (hsub.map _), ?_,
    ?_⟩
  · intro j hj
    obtain ⟨hmem, helig⟩ := mem_candidates.mp (hsub.subset hj)
    exact ⟨Table.find?_key hmem, helig⟩
  · simp [claimNextWithLease, claimNext, heq]

theorem get_claimNext (workerCapacity : Nat) (kinds : Option (List String))
    (maxActivePerUser : Int) (now : DateTime) (q : InMemoryJobQueue)
    (i : Uuid) :
    (q.claimNext workerCapacity kinds maxActivePerUser now).1.get i =
      (q.get i).map (fun j =>
        if j.id ∈ (q.claimNext workerCapacity kinds maxActivePerUser now).2.map
          QueuedJob.id
        then { j with state := .dispatched } else j) := by
  have h := Table.find?_modifyWhere q.jobs
    (fun j => decide (j.id ∈ (q.claimNext workerCapacity kinds
      maxActivePerUser now).2.map QueuedJob.id))
    (fun j => { j with state := .dispatched }) (fun _ => rfl) i
  simp only [decide_eq_true_eq] at h
  exact h

/-- A claim rewrites exactly the jobs it returns. -/
theorem get_claimNextWithLease (req : ClaimRequest) (now : DateTime)
    (q : InMemoryJobQueue) (i : Uuid) :
    (q.claimNextWithLease req now).1.get i =
      if i ∈ (q.claimNextWithLease req now).2.map QueuedJob.id then
        (q.get i).map (fun j =>
          stampLease req.leaseOwner (now + timedelta req.leaseSeconds)
            { j with state := .dispatched })
      else q.get i := by
  have hnext := get_claimNext req.workerCapacity req.kinds
    req.maxActivePerUser now q i
  unfold claimNextWithLease
  generalize q.claimNext req.workerCapacity req.kinds req.maxActivePerUser now
    = r at hnext ⊢
  have hids : (r.2.map (stampLease req.leaseOwner
      (now + timedelta req.leaseSeconds))).map QueuedJob.id =
      r.2.map QueuedJob.id := by
    simp [stampLease]
  have hstamp := Table.find?_modifyWhere r.1.jobs
    (fun j => decide (j.id ∈ r.2.map QueuedJob.id))
    (stampLease req.leaseOwner (now + timedelta req.leaseSeconds))
    (fun _ => rfl) i
  have hget : r.1.jobs.find? i = r.1.get i := rfl
  rw [hget, hnext] at hstamp
  rw [hids]
  refine hstamp.trans ?_
  cases hjob : q.get i with
  | none => simp
  | some j =>
      obtain rfl := id_of_get hjob
      by_cases hmem : j.id ∈ r.2.map QueuedJob.id
      · simp only [Option.map_some, decide_eq_true_eq, if_pos hmem]
      · simp only [Option.map_some, decide_eq_true_eq, if_neg hmem]

/-! ## The adapter is lawful -/

/-- A job object's life and its prompt id, the fields every operation is
described by. -/
def slot (q : InMemoryJobQueue) (i : Uuid) :
    Option (JobLife × Option String) :=
  (q.get i).map (fun j => (j.life, j.promptId))

/-- What a call does to the prompt id of its job. -/
def promptStep : QueueCall → Option String → Option String
  | .markRunning _, _ => none
  | .setPromptId _ p, _ => some p
  | _, p => p

/-- What a call does to its job object. -/
def slotStep (c : QueueCall) (x : JobLife × Option String) :
    JobLife × Option String :=
  (c.lifeStep false x.1, promptStep c x.2)

theorem slot_eq_some {q : InMemoryJobQueue} {i : Uuid} {l : JobLife}
    {p : Option String} : q.slot i = some (l, p) ↔
      ∃ j, q.get i = some j ∧ j.life = l ∧ j.promptId = p := by
  unfold slot
  rw [Option.map_eq_some_iff]
  simp only [Prod.mk.injEq]

theorem life_eq_slot (q : InMemoryJobQueue) (i : Uuid) :
    JobQueue.life q i = (q.slot i).map Prod.fst := by
  show (q.get i).map QueuedJob.life = ((q.get i).map _).map Prod.fst
  rw [Option.map_map]
  rfl

/-- An update that acts on job objects as `g` changes the one it is about. -/
theorem slot_update (id : Uuid) (f : QueuedJob → QueuedJob)
    (hf : ∀ j, (f j).id = j.id)
    (g : JobLife × Option String → JobLife × Option String)
    (hslot : ∀ j, ((f j).life, (f j).promptId) = g (j.life, j.promptId))
    (q : InMemoryJobQueue) (i : Uuid) :
    (q.update id f hf).slot i =
      if i = id then (q.slot i).map g else q.slot i := by
  unfold slot
  rw [get_update]
  split
  · rw [Option.map_map, Option.map_map]
    exact congrArg (Option.map · _) (funext hslot)
  · rfl

/-- The same for an update that spares finished jobs and prompt ids. -/
theorem slot_updateLive (id : Uuid) (f : QueuedJob → QueuedJob)
    (hf : ∀ j, (f j).id = j.id) (g : JobLife → JobLife)
    (hterminal : ∀ l, l.state.isTerminal = true → g l = l)
    (hlive : ∀ j, j.state.isTerminal = false → (f j).life = g j.life)
    (hprompt : ∀ j, (f j).promptId = j.promptId)
    (q : InMemoryJobQueue) (i : Uuid) :
    (q.updateLive id f hf).slot i =
      if i = id then (q.slot i).map (fun x => (g x.1, x.2))
      else q.slot i := by
  refine slot_update id _ _ _ (fun j => ?_) q i
  cases hterm : j.state.isTerminal with
  | true => exact Prod.ext (hterminal j.life hterm).symm rfl
  | false => exact Prod.ext (hlive j hterm) (hprompt j)

theorem slot_updateLive_finish (id : Uuid) (final : JobState)
    (f : QueuedJob → QueuedJob) (hf : ∀ j, (f j).id = j.id)
    (hlife : ∀ j, (f j).life = { j.life with state := final })
    (hprompt : ∀ j, (f j).promptId = j.promptId)
    (q : InMemoryJobQueue) (i : Uuid) :
    (q.updateLive id f hf).slot i =
      if i = id then (q.slot i).map (fun x => (x.1.finish final, x.2))
      else q.slot i := by
  refine slot_updateLive id f hf (JobLife.finish final)
    (fun _ h => JobLife.finish_of_terminal h) (fun j h => ?_) hprompt q i
  rw [hlife, JobLife.finish_of_live (l := j.life) h]

/-- Every call but a claim changes the job object it is about by its step. -/
theorem slot_apply (c : QueueCall) (now : DateTime) (q : InMemoryJobQueue)
    (i : Uuid) :
    (c.apply now q).slot i =
      if i = c.target then (q.slot i).map (slotStep c) else q.slot i := by
  cases c with
  | renewLease id secs =>
      refine slot_update id _ _ _ (fun j => ?_) q i
      dsimp only [slotStep, QueueCall.lifeStep, promptStep]
      split <;> rfl
  | markRunning id => exact slot_update id _ _ _ (fun _ => rfl) q i
  | setPromptId id promptId => exact slot_update id _ _ _ (fun _ => rfl) q i
  | markSucceeded id result =>
      show (q.markSucceeded id result).slot i =
        if i = id then (q.slot i).map (fun x => (x.1.finish .succeeded, x.2))
        else q.slot i
      unfold markSucceeded
      rw [slot_updateLive_finish id .succeeded]
      · exact fun _ => rfl
      · exact fun _ => rfl
  | markFailed id code detail =>
      show (q.markFailed id code detail).slot i =
        if i = id then (q.slot i).map (fun x => (x.1.finish .failed, x.2))
        else q.slot i
      unfold markFailed
      rw [slot_updateLive_finish id .failed]
      · exact fun _ => rfl
      · exact fun _ => rfl
  | cancel id =>
      show (q.cancel id).slot i =
        if i = id then (q.slot i).map (fun x => (x.1.finish .cancelled, x.2))
        else q.slot i
      unfold cancel
      rw [slot_updateLive_finish id .cancelled]
      · exact fun _ => rfl
      · exact fun _ => rfl
  | markRetryWait id code detail delay draw =>
      refine slot_updateLive id _ (waitForRetry_id code detail delay draw now)
        JobLife.retry (fun _ h => JobLife.retry_of_terminal h)
        (fun j h => ?_) (fun j => ?_) q i
      · unfold waitForRetry
        dsimp only
        split <;> exact (JobLife.retry_of_live (l := j.life) h).symm
      · unfold waitForRetry
        dsimp only
        split <;> rfl

theorem life_apply (c : QueueCall) (now : DateTime) (q : InMemoryJobQueue)
    (i : Uuid) :
    JobQueue.life (c.apply now q) i =
      if i = c.target then (JobQueue.life q i).map (c.lifeStep false)
      else JobQueue.life q i := by
  rw [life_eq_slot, life_eq_slot, slot_apply]
  split
  · rw [Option.map_map, Option.map_map]
    rfl
  · rfl

instance : LawfulJobQueue InMemoryJobQueue where
  get_id := id_of_get
  deref_id q j := by
    show ((q.get j.id).getD j).id = j.id
    cases hget : q.get j.id with
    | none => rfl
    | some k => exact id_of_get hget
  life_enqueue {q job} now _ := by
    refine Or.inr (fun id => ?_)
    show ((q.enqueue job).get id).map QueuedJob.life = _
    rw [get_enqueue]
    split <;> rfl
  claim_nodup req _ now q := by
    obtain ⟨taken, hnodup, _, heq⟩ := exists_taken req now q
    show ((q.claimNextWithLease req now).2.map QueuedJob.id).Nodup
    rw [heq, List.map_map]
    exact hnodup
  claim_waiting {req _ now q j} hj := by
    obtain ⟨taken, _, hmem, heq⟩ := exists_taken req now q
    replace hj : j ∈ (q.claimNextWithLease req now).2 := hj
    rw [heq] at hj
    obtain ⟨k, hk, rfl⟩ := List.mem_map.mp hj
    obtain ⟨hget, helig⟩ := hmem k hk
    refine ⟨k.life, congrArg (Option.map QueuedJob.life) hget, ?_, rfl⟩
    simp only [eligible, Bool.and_eq_true] at helig
    exact helig.1.1
  life_claim req _ now q id := by
    show ((q.claimNextWithLease req now).1.get id).map QueuedJob.life =
      if id ∈ (q.claimNextWithLease req now).2.map QueuedJob.id then
        ((q.get id).map QueuedJob.life).map JobLife.dispatch
      else (q.get id).map QueuedJob.life
    rw [get_claimNextWithLease]
    split
    · rw [Option.map_map, Option.map_map]
      rfl
    · rfl
  life_apply c now q := Or.inr (life_apply c now q)
  listActive_get := mem_listActive.mp

end InMemoryJobQueue

end Imagin4.Ports
