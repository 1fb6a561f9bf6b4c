import Imagin4.Ports.Admission

/-!
# Admission to the in-memory queue

No call of `InMemoryJobQueue` suspends, so an admission is one step there.  The
machine of this module takes any number of admissions, claims and other calls in
any order; only `admit_generation_job` ever calls `enqueue`.

## Main results

* `admitted_step` — what a step keeps: one job for each key, and payloads that
  are dicts.
* `run_admitGenerationJob` — what an admission comes to.
* `admission_run` — replay, conflict and caps, in every state a run reaches.
-/

namespace Imagin4.Ports

open Imagin4.Verified

/-- What happens to an in-memory queue. -/
inductive MemoryAction where
  | admission (settings : Settings) (r : AdmissionRequest)
  | claimNext (workerCapacity : Nat) (kinds : Option (List String))
      (maxActivePerUser : Int) (now : DateTime)
  | claim (req : ClaimRequest) (now : DateTime)
  | call (c : QueueCall) (now : DateTime)

/-- An admission with nobody else around. -/
def admitToMemory (host : AdmissionHost) (settings : Settings)
    (r : AdmissionRequest) (q : InMemoryJobQueue) :
    AdmissionOutcome × InMemoryJobQueue :=
  (admitGenerationJob host settings r).run InMemoryJobQueue.admissionAnswer q

/-- The queue after an action. -/
def memoryStep (host : AdmissionHost) (q : InMemoryJobQueue) :
    MemoryAction → Option InMemoryJobQueue
  | .admission settings r => some (admitToMemory host settings r q).2
  | .claimNext workerCapacity kinds maxActivePerUser now =>
      some (q.claimNext workerCapacity kinds maxActivePerUser now).1
  | .claim req now => some (q.claimNextWithLease req now).1
  | .call c now => some (c.apply now q)

/-- The machine of an in-memory queue. -/
def memoryQueue (host : AdmissionHost) :
    Machine InMemoryJobQueue MemoryAction := ⟨memoryStep host⟩

namespace InMemoryJobQueue

/-! ## Claims and other calls -/

section Rewriting

variable {ω : Type} {view : QueuedJob → ω}

theorem rewritten_update {id : Uuid} {f : QueuedJob → QueuedJob}
    {q : InMemoryJobQueue} (hf : ∀ j, (f j).id = j.id)
    (h : ∀ j, view (f j) = view j) :
    Table.Rewritten view q.jobs (q.update id f hf).jobs :=
  Table.rewritten_modifyWhere hf h

theorem rewritten_updateLive {id : Uuid} {f : QueuedJob → QueuedJob}
    {q : InMemoryJobQueue} (hf : ∀ j, (f j).id = j.id)
    (h : ∀ j, view (f j) = view j) :
    Table.Rewritten view q.jobs (q.updateLive id f hf).jobs := by
  refine rewritten_update _ (fun j => ?_)
  split
  · rfl
  · exact h j

end Rewriting

/-- What identifies a job, and its place among the others. -/
def standing (j : QueuedJob) : JobIdentity × Rat × DateTime :=
  (j.identity, j.effectivePriority, j.queuedAt)

theorem standing_waitForRetry (errorCode : String) (errorDetail : Option String)
    (delaySeconds : Option Rat) (draw : Rat) (now : DateTime) (j : QueuedJob) :
    standing (waitForRetry errorCode errorDetail delaySeconds draw now j) =
      standing j := by
  unfold waitForRetry
  dsimp only
  split <;> rfl

/-- No call changes what identifies a job and gives it its place, … -/
theorem standing_apply (c : QueueCall) (now : DateTime) (q : InMemoryJobQueue) :
    Table.Rewritten standing q.jobs (c.apply now q).jobs := by
  cases c with
  | renewLease id secs =>
      refine rewritten_update _ (fun j => ?_)
      split <;> rfl
  | markRunning id => exact rewritten_update (fun _ => by rfl) (fun _ => by rfl)
  | markSucceeded id result => exact rewritten_updateLive (fun _ => by rfl) (fun _ => by rfl)
  | markFailed id code detail => exact rewritten_updateLive (fun _ => by rfl) (fun _ => by rfl)
  | markRetryWait id code detail delay draw =>
      exact rewritten_updateLive
        (waitForRetry_id code detail delay draw now)
        (standing_waitForRetry code detail delay draw now)
  | setPromptId id promptId => exact rewritten_update (fun _ => by rfl) (fun _ => by rfl)
  | cancel id => exact rewritten_updateLive (fun _ => by rfl) (fun _ => by rfl)

/-- … and no claim does. -/
theorem standing_claimNext (workerCapacity : Nat) (kinds : Option (List String))
    (maxActivePerUser : Int) (now : DateTime) (q : InMemoryJobQueue) :
    Table.Rewritten standing q.jobs
      (q.claimNext workerCapacity kinds maxActivePerUser now).1.jobs :=
  Table.rewritten_modifyWhere (fun _ => by rfl) (fun _ => by rfl)

theorem standing_claimNextWithLease (req : ClaimRequest) (now : DateTime)
    (q : InMemoryJobQueue) :
    Table.Rewritten standing q.jobs (q.claimNextWithLease req now).1.jobs :=
  (standing_claimNext _ _ _ _ q).trans
    (Table.rewritten_modifyWhere (fun _ => by rfl) (fun _ => by rfl))

theorem rewritten_apply (c : QueueCall) (now : DateTime) (q : InMemoryJobQueue) :
    Table.Rewritten QueuedJob.identity q.jobs (c.apply now q).jobs :=
  (standing_apply c now q).weaken Prod.fst (fun _ => rfl)

theorem rewritten_claimNext (workerCapacity : Nat)
    (kinds : Option (List String)) (maxActivePerUser : Int) (now : DateTime)
    (q : InMemoryJobQueue) :
    Table.Rewritten QueuedJob.identity q.jobs
      (q.claimNext workerCapacity kinds maxActivePerUser now).1.jobs :=
  (standing_claimNext workerCapacity kinds maxActivePerUser now q).weaken Prod.fst
    (fun _ => rfl)

theorem rewritten_claimNextWithLease (req : ClaimRequest) (now : DateTime)
    (q : InMemoryJobQueue) :
    Table.Rewritten QueuedJob.identity q.jobs
      (q.claimNextWithLease req now).1.jobs :=
  (standing_claimNextWithLease req now q).weaken Prod.fst (fun _ => rfl)

/-! ## The invariant -/

/-- What admissions keep. -/
structure Admitted (q : InMemoryJobQueue) : Prop where
  unique : ∀ i ∈ q.jobs, ∀ j ∈ q.jobs, i.idemKey = j.idemKey → i = j
  payload : ∀ j ∈ q.jobs, ∃ d : Dict, j.inputPayload = d.json

theorem admitted_empty : Admitted empty :=
  ⟨fun _ h => (by cases h), fun _ h => (by cases h)⟩

theorem Admitted.rewritten {q r : InMemoryJobQueue} (h : Admitted q)
    (hr : Table.Rewritten QueuedJob.identity q.jobs r.jobs) : Admitted r := by
  obtain ⟨f, hf, hmem⟩ := hr.exists_of_mem
  have hkey : ∀ j, (f j).idemKey = j.idemKey := fun j =>
    congrArg JobIdentity.key (hf j)
  constructor
  · intro i hi j hj hij
    obtain ⟨i', hi', rfl⟩ := (hmem i).mp hi
    obtain ⟨j', hj', rfl⟩ := (hmem j).mp hj
    rw [hkey, hkey] at hij
    rw [h.unique i' hi' j' hj' hij]
  · intro j hj
    obtain ⟨j', hj', rfl⟩ := (hmem j).mp hj
    rw [show (f j').inputPayload = j'.inputPayload from
      congrArg JobIdentity.inputPayload (hf j')]
    exact h.payload j' hj'

/-- A new job under a free key. -/
theorem Admitted.enqueue {q : InMemoryJobQueue} (h : Admitted q)
    {job : QueuedJob} (hfree : ∀ j ∈ q.jobs, j.idemKey ≠ job.idemKey)
    (hpayload : ∃ d : Dict, job.inputPayload = d.json) :
    Admitted (q.enqueue job) := by
  constructor
  · intro i hi j hj hij
    rcases Table.mem_put.mp hi with rfl | ⟨hold, _⟩
    · rcases Table.mem_put.mp hj with rfl | ⟨hold, _⟩
      · rfl
      · exact absurd hij.symm (hfree j hold)
    · rcases Table.mem_put.mp hj with rfl | ⟨hold', _⟩
      · exact absurd hij (hfree i hold)
      · exact h.unique i hold j hold' hij
  · intro j hj
    rcases Table.mem_put.mp hj with rfl | ⟨hj, _⟩
    · exact hpayload
    · exact h.payload j hj

/-! ## The lookup -/

theorem findByIdempotencyKey_eq_none {r : AdmissionRequest}
    {q : InMemoryJobQueue}
    (h : q.findByIdempotencyKey r.userId r.idempotencyKey r.workflowName =
      none) : ∀ j ∈ q.jobs, j.idemKey ≠ r.idemKey := by
  intro j hj hkey
  have hnot := List.find?_eq_none.mp h j hj
  simp only [QueuedJob.idemKey, AdmissionRequest.idemKey, Prod.mk.injEq] at hkey
  simp [hkey] at hnot

theorem of_findByIdempotencyKey {r : AdmissionRequest} {q : InMemoryJobQueue}
    {j : QueuedJob}
    (h : q.findByIdempotencyKey r.userId r.idempotencyKey r.workflowName =
      some j) : j ∈ q.jobs ∧ j.idemKey = r.idemKey := by
  have hkey := List.find?_some h
  simp only [Bool.and_eq_true, decide_eq_true_eq] at hkey
  refine ⟨List.mem_of_find?_eq_some h, ?_⟩
  simp [QueuedJob.idemKey, AdmissionRequest.idemKey, hkey]

/-! ## The backlog -/

/-- The backlog a request counts against: its conversation's or its user's. -/
def ownBacklog (r : AdmissionRequest) : InMemoryJobQueue → Nat :=
  backlog (fun j => r.owns j.userId j.conversationId)

/-- A new job adds at most one to a backlog. -/
theorem backlog_enqueue_le (p : QueuedJob → Bool) (job : QueuedJob)
    (q : InMemoryJobQueue) : (q.enqueue job).backlog p ≤ q.backlog p + 1 := by
  unfold backlog enqueue
  by_cases hmem : job.id ∈ q.jobs.rows.map QueuedJob.id
  · have hput : (q.jobs.put job).rows.countP
          (fun j => p j && j.state.isWaiting) ≤
        q.jobs.rows.countP (fun j => p j && j.state.isWaiting) +
          [job.id].length := by
      have hcount := Table.countP_modifyWhere_mem_le q.jobs [job.id]
        (fun j => if j.id = job.id then job else j)
        (fun j => by by_cases hj : j.id = job.id <;> simp [hj])
        (fun j => p j && j.state.isWaiting)
      rw [Table.rows_put_of_mem hmem]
      refine le_of_eq_of_le ?_ hcount
      congr 1
      refine List.map_congr_left (fun j _ => ?_)
      by_cases hj : j.id = job.id <;> simp [hj]
    exact hput
  · rw [Table.rows_put_of_not_mem hmem, List.countP_append]
    have hone := List.countP_le_length (l := [job])
      (p := fun j => p j && j.state.isWaiting)
    simpa using hone

end InMemoryJobQueue

/-! ## What an admission comes to -/

section Run

open InMemoryJobQueue

variable (host : AdmissionHost) (settings : Settings) (r : AdmissionRequest)
  (q : InMemoryJobQueue)

/-- The outcomes of an admission, with what each of them takes. -/
inductive Admits : AdmissionOutcome × InMemoryJobQueue → Prop where
  | invalid (e : AdmissionError) :
      validateRequest host settings r = .error e → Admits (.error e, q)
  | replay (v : Validated) (job : QueuedJob) :
      validateRequest host settings r = .ok v → job ∈ q.jobs →
      job.idemKey = r.idemKey →
      canonicalPayloadHash host v.inputs.json =
        canonicalPayloadHash host job.inputPayload →
      Admits (replayResult job, q)
  | conflict (v : Validated) (job : QueuedJob) (message : String) :
      validateRequest host settings r = .ok v → job ∈ q.jobs →
      job.idemKey = r.idemKey →
      canonicalPayloadHash host v.inputs.json ≠
        canonicalPayloadHash host job.inputPayload →
      Admits (.error (.idempotencyConflict message), q)
  | full (v : Validated) (reason : String) (retryAfterS : Nat) :
      validateRequest host settings r = .ok v →
      (∀ j ∈ q.jobs, j.idemKey ≠ r.idemKey) →
      Admits (.error (.capacityExceeded reason retryAfterS), q)
  | created (v : Validated) (position : Nat) :
      validateRequest host settings r = .ok v →
      (∀ j ∈ q.jobs, j.idemKey ≠ r.idemKey) →
      Below settings.globalQueueCap q.countGlobalBacklog →
      Below settings.maxQueuedJobsPerUser (q.ownBacklog r) →
      Admits (.ok (newResult settings r v position), q.enqueue (r.job v))

variable (v : Validated)

theorem run_createJob :
    (createJob settings r v).run admissionAnswer q =
      (.ok (newResult settings r v
        (q.countBacklogForKinds (kindsForBackend v.workflow.backend))),
        q.enqueue (r.job v)) := rfl

theorem run_afterOwnCount (whoHas : String) (backlog : Nat) :
    (∃ reason retryAfterS,
      (afterOwnCount settings whoHas r v backlog).run admissionAnswer q =
        (.error (.capacityExceeded reason retryAfterS), q)) ∨
    (Below settings.maxQueuedJobsPerUser backlog ∧
      (afterOwnCount settings whoHas r v backlog).run admissionAnswer q =
        (createJob settings r v).run admissionAnswer q) := by
  unfold afterOwnCount
  split
  · exact .inl ⟨_, _, rfl⟩
  · rename_i hroom
    exact .inr ⟨fun _ => by omega, rfl⟩

/-- The cap of the conversation or user: refused, or there is room. -/
theorem run_checkOwnBacklog :
    (∃ reason retryAfterS, (checkOwnBacklog settings r v).run admissionAnswer q =
      (.error (.capacityExceeded reason retryAfterS), q)) ∨
    (Below settings.maxQueuedJobsPerUser (q.ownBacklog r) ∧
      (checkOwnBacklog settings r v).run admissionAnswer q =
        (createJob settings r v).run admissionAnswer q) := by
  unfold checkOwnBacklog
  by_cases hcap : 0 < settings.maxQueuedJobsPerUser
  · rw [if_pos hcap]
    cases hconv : r.conversationId with
    | none =>
        have hown : q.ownBacklog r = q.countUserBacklog r.userId := by
          simp only [ownBacklog, AdmissionRequest.owns, hconv, countUserBacklog]
        rw [hown]
        exact run_afterOwnCount settings r q v _ (q.countUserBacklog r.userId)
    | some c =>
        have hown : q.ownBacklog r = q.countConversationBacklog c := by
          simp only [ownBacklog, AdmissionRequest.owns, hconv,
            countConversationBacklog]
        rw [hown]
        exact run_afterOwnCount settings r q v _ (q.countConversationBacklog c)
  · rw [if_neg hcap]
    exact .inr ⟨fun h => absurd h hcap, rfl⟩

/-- Both caps: refused, or there is room under both. -/
theorem run_checkGlobalBacklog :
    (∃ reason retryAfterS,
      (checkGlobalBacklog settings r v).run admissionAnswer q =
        (.error (.capacityExceeded reason retryAfterS), q)) ∨
    (Below settings.globalQueueCap q.countGlobalBacklog ∧
      Below settings.maxQueuedJobsPerUser (q.ownBacklog r) ∧
      (checkGlobalBacklog settings r v).run admissionAnswer q =
        (createJob settings r v).run admissionAnswer q) := by
  have hown : Below settings.globalQueueCap q.countGlobalBacklog →
      (∃ reason retryAfterS,
        (checkOwnBacklog settings r v).run admissionAnswer q =
          (.error (.capacityExceeded reason retryAfterS), q)) ∨
      (Below settings.globalQueueCap q.countGlobalBacklog ∧
        Below settings.maxQueuedJobsPerUser (q.ownBacklog r) ∧
        (checkOwnBacklog settings r v).run admissionAnswer q =
          (createJob settings r v).run admissionAnswer q) := by
    intro hglobal
    exact (run_checkOwnBacklog settings r q v).imp_right
      (fun h => ⟨hglobal, h⟩)
  unfold checkGlobalBacklog
  by_cases hcap : 0 < settings.globalQueueCap
  · rw [if_pos hcap]
    dsimp only [Program.run, admissionAnswer]
    unfold afterGlobalCount
    by_cases hfull : settings.globalQueueCap ≤ q.countGlobalBacklog
    · rw [if_pos hfull]
      exact .inl ⟨_, _, rfl⟩
    · rw [if_neg hfull]
      exact hown (fun _ => by omega)
  · rw [if_neg hcap]
    exact hown (fun h => absurd h hcap)

theorem run_admitGenerationJob :
    Admits host settings r q (admitToMemory host settings r q) := by
  unfold admitToMemory admitGenerationJob
  cases hvalid : validateRequest host settings r with
  | error e => exact .invalid e hvalid
  | ok v =>
      show Admits host settings r q
        ((afterLookup host settings r v (q.findByIdempotencyKey r.userId
          r.idempotencyKey r.workflowName)).run admissionAnswer q)
      cases hfind : q.findByIdempotencyKey r.userId r.idempotencyKey
          r.workflowName with
      | none =>
          have hfree := findByIdempotencyKey_eq_none hfind
          show Admits host settings r q
            ((checkGlobalBacklog settings r v).run admissionAnswer q)
          rcases run_checkGlobalBacklog settings r q v with
            ⟨reason, retry, h⟩ | ⟨hglobal, hown, h⟩
          · rw [h]
            exact .full v reason retry hvalid hfree
          · rw [h, run_createJob]
            exact .created v _ hvalid hfree hglobal hown
      | some job =>
          obtain ⟨hmem, hkey⟩ := InMemoryJobQueue.of_findByIdempotencyKey hfind
          unfold afterLookup checkIdempotency
          by_cases hhash : canonicalPayloadHash host v.inputs.json =
              canonicalPayloadHash host job.inputPayload
          · simp only [Option.map_some, if_pos hhash]
            exact .replay v job hvalid hmem hkey hhash
          · simp only [Option.map_some, if_neg hhash]
            exact .conflict v job _ hvalid hmem hkey hhash

end Run

/-! ## Runs -/

section Runs

open InMemoryJobQueue

variable {host : AdmissionHost} {settings : Settings} {r : AdmissionRequest}
  {q q' : InMemoryJobQueue}

theorem admitted_admit (hq : Admitted q) :
    Admitted (admitToMemory host settings r q).2 := by
  have hadmits := run_admitGenerationJob host settings r q
  revert hadmits
  generalize admitToMemory host settings r q = result
  intro hadmits
  cases hadmits with
  | invalid e _ => exact hq
  | replay v job _ _ _ _ => exact hq
  | conflict v job message _ _ _ _ => exact hq
  | full v reason retry _ _ => exact hq
  | created v position _ hfree _ _ => exact hq.enqueue hfree ⟨v.inputs, rfl⟩

theorem admitted_step {a : MemoryAction} (hq : Admitted q)
    (h : memoryStep host q a = some q') : Admitted q' := by
  cases a with
  | admission settings r =>
      cases h
      exact admitted_admit hq
  | claimNext workerCapacity kinds maxActivePerUser now =>
      cases h
      exact hq.rewritten (rewritten_claimNext _ _ _ _ q)
  | claim req now =>
      cases h
      exact hq.rewritten (rewritten_claimNextWithLease req now q)
  | call c now =>
      cases h
      exact hq.rewritten (rewritten_apply c now q)

theorem admitted_run {as : List MemoryAction}
    (h : (memoryQueue host).exec empty as = some q) : Admitted q := by
  refine Machine.invariant (M := memoryQueue host) (C := fun _ _ => True)
    (fun _ _ _ hq _ hstep => admitted_step hq hstep) admitted_empty ?_ h
  exact Machine.along_of_split h (fun _ _ _ _ _ _ => trivial)

/-- Hashes tell payloads apart up to the order of keys. -/
theorem hash_eq_iff (hsha : Function.Injective host.sha256) (d e : Dict) :
    canonicalPayloadHash host d.json = canonicalPayloadHash host e.json ↔
      Json.Same d.json e.json :=
  hsha.eq_iff.trans (Json.dumps_eq_iff d.isDict e.isDict)

/-- An admission that raises leaves the queue as it is. -/
theorem unchanged_of_error {e : AdmissionError}
    (h : (admitToMemory host settings r q).1 = .error e) :
    (admitToMemory host settings r q).2 = q := by
  have hadmits := run_admitGenerationJob host settings r q
  revert h hadmits
  generalize admitToMemory host settings r q = result
  intro h hadmits
  cases hadmits with
  | invalid e _ => rfl
  | replay v job _ _ _ _ => rfl
  | conflict v job message _ _ _ _ => rfl
  | full v reason retry _ _ => rfl
  | created v position _ _ _ _ => cases h

/-- What an admission answers when the job is there. -/
theorem answer_of_existing (hsha : Function.Injective host.sha256)
    (hq : Admitted q) {v : Validated} {job : QueuedJob}
    (hvalid : validateRequest host settings r = .ok v) (hjob : job ∈ q.jobs)
    (hkey : job.idemKey = r.idemKey) :
    (Json.Same v.inputs.json job.inputPayload →
      ∃ isPreview, (admitToMemory host settings r q).1 = .ok {
        id := job.id
        state := job.state
        kind := job.kind
        replayed := true
        isPreview := isPreview }) ∧
    (¬ Json.Same v.inputs.json job.inputPayload →
      ∃ message, (admitToMemory host settings r q).1 =
        .error (.idempotencyConflict message)) := by
  have hadmits := run_admitGenerationJob host settings r q
  revert hadmits
  generalize admitToMemory host settings r q = result
  intro hadmits
  obtain ⟨d, hd⟩ := hq.payload job hjob
  have hsame : ∀ {w : Validated} {other : QueuedJob},
      validateRequest host settings r = .ok w → other ∈ q.jobs →
      other.idemKey = r.idemKey → w = v ∧ other = job := by
    intro w other hw hother hkey'
    rw [hvalid] at hw
    exact ⟨(Except.ok.inj hw).symm,
      hq.unique other hother job hjob (hkey'.trans hkey.symm)⟩
  cases hadmits with
  | invalid e h =>
      rw [hvalid] at h
      cases h
  | replay w other hw hother hkey' hhash =>
      obtain ⟨rfl, rfl⟩ := hsame hw hother hkey'
      refine ⟨fun _ => replayResult_eq ⟨d, hd⟩, fun hne => absurd ?_ hne⟩
      rw [hd] at hhash ⊢
      exact (hash_eq_iff hsha _ d).mp hhash
  | conflict w other message hw hother hkey' hhash =>
      obtain ⟨rfl, rfl⟩ := hsame hw hother hkey'
      refine ⟨fun hsame => absurd ?_ hhash, fun _ => ⟨message, rfl⟩⟩
      rw [hd] at hsame ⊢
      exact (hash_eq_iff hsha _ d).mpr hsame
  | full w reason retry hw hfree => exact absurd hkey (hfree job hjob)
  | created w position hw hfree _ _ => exact absurd hkey (hfree job hjob)

/-- The caps after an admission that has made a job. -/
theorem backlog_of_created {job : QueuedJob}
    (hjob : job ∈ (admitToMemory host settings r q).2.jobs)
    (hnew : job ∉ q.jobs) :
    (0 < settings.globalQueueCap →
      ((admitToMemory host settings r q).2.countGlobalBacklog : Int) ≤
        settings.globalQueueCap) ∧
    (0 < settings.maxQueuedJobsPerUser →
      ((admitToMemory host settings r q).2.ownBacklog r : Int) ≤
        settings.maxQueuedJobsPerUser) := by
  have hadmits := run_admitGenerationJob host settings r q
  revert hjob hadmits
  generalize admitToMemory host settings r q = outcome
  intro hjob hadmits
  cases hadmits with
  | invalid e _ => exact absurd hjob hnew
  | replay v other _ _ _ _ => exact absurd hjob hnew
  | conflict v other message _ _ _ _ => exact absurd hjob hnew
  | full v reason retry _ _ => exact absurd hjob hnew
  | created v position _ _ hglobal hown =>
      have hg : (q.enqueue (r.job v)).countGlobalBacklog ≤
          q.countGlobalBacklog + 1 :=
        backlog_enqueue_le (fun _ => true) (r.job v) q
      have ho : (q.enqueue (r.job v)).ownBacklog r ≤ q.ownBacklog r + 1 :=
        backlog_enqueue_le _ (r.job v) q
      constructor
      · intro hcap
        have hbelow := hglobal hcap
        dsimp only
        omega
      · intro hcap
        have hbelow := hown hcap
        dsimp only
        omega

/-- **Admission.**  In every state that admissions, claims and other calls reach
there is one job for a key; an admission that raises leaves the queue as it is;
one whose job is there replays it exactly if the inputs are equal as JSON, and
is a conflict if not; and one that makes a job leaves the backlogs within their
caps. -/
theorem admission_run (host : AdmissionHost)
    (hsha : Function.Injective host.sha256) (as : List MemoryAction)
    (q : InMemoryJobQueue) (h : (memoryQueue host).exec empty as = some q)
    (settings : Settings) (r : AdmissionRequest) :
    (∀ i ∈ q.jobs, ∀ j ∈ q.jobs, i.userId = j.userId →
      i.idempotencyKey = j.idempotencyKey → i.kind = j.kind → i = j) ∧
    (∀ e, (admitToMemory host settings r q).1 = .error e →
      (admitToMemory host settings r q).2 = q) ∧
    (∀ v, validateRequest host settings r = .ok v → ∀ job ∈ q.jobs,
      job.userId = r.userId → job.idempotencyKey = r.idempotencyKey →
      job.kind = r.workflowName →
      (Json.Same v.inputs.json job.inputPayload →
        ∃ isPreview, (admitToMemory host settings r q).1 = .ok {
          id := job.id
          state := job.state
          kind := job.kind
          replayed := true
          isPreview := isPreview }) ∧
      (¬ Json.Same v.inputs.json job.inputPayload →
        ∃ message, (admitToMemory host settings r q).1 =
          .error (.idempotencyConflict message))) ∧
    (∀ job ∈ (admitToMemory host settings r q).2.jobs, job ∉ q.jobs →
      (0 < settings.globalQueueCap →
        ((admitToMemory host settings r q).2.countGlobalBacklog : Int) ≤
          settings.globalQueueCap) ∧
      (0 < settings.maxQueuedJobsPerUser →
        ((admitToMemory host settings r q).2.ownBacklog r : Int) ≤
          settings.maxQueuedJobsPerUser)) := by
  have hq := admitted_run h
  refine ⟨?_, fun e => unchanged_of_error, ?_, ?_⟩
  · intro i hi j hj huser hidem hkind
    exact hq.unique i hi j hj (by simp [QueuedJob.idemKey, huser, hidem, hkind])
  · intro v hvalid job hjob huser hidem hkind
    exact answer_of_existing hsha hq hvalid hjob
      (by simp [QueuedJob.idemKey, AdmissionRequest.idemKey, huser,
        hidem, hkind])
  · intro job hjob hnew
    exact backlog_of_created hjob hnew

/-- The second of two equal requests gets the job of the first. -/
theorem admission_run_retry : ∃ q isPreview,
    (memoryQueue plainHost).exec empty [.admission {} (catRequest 1)] = some q ∧
      (admitToMemory plainHost {} (catRequest 2) q).1 = .ok {
        id := 1
        state := .queued
        kind := "poster_infographic"
        replayed := true
        isPreview := isPreview } := by
  let poster : WorkflowDefinition :=
    { name := "poster_infographic", version := "v1",
      modelFamily := "gemini-image", backend := .gemini }
  let v : Validated := ⟨poster, catInputs, false⟩
  let q := (admitToMemory plainHost {} (catRequest 1) empty).2
  have hrun : (memoryQueue plainHost).exec empty [.admission {} (catRequest 1)] =
      some q := rfl
  have hvalid : validateRequest plainHost {} (catRequest 2) = .ok v := rfl
  have hjob : (catRequest 1).job v ∈ q.jobs :=
    Table.mem_put.mpr (.inl rfl)
  obtain ⟨isPreview, h⟩ := ((admission_run plainHost plainSha256_injective
    [.admission {} (catRequest 1)] q hrun {} (catRequest 2)).2.2.1 v hvalid
      ((catRequest 1).job v) hjob rfl rfl rfl).1 (Json.same_refl _)
  exact ⟨q, isPreview, hrun, h⟩

end Runs

end Imagin4.Ports
