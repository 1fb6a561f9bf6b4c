import Imagin4.Verified.Machine
import Imagin4.Ports.ComfyLive
import Imagin4.Ports.JobSystem
import Imagin4.Ports.MemoryQueue
import Imagin4.Ports.PostgresQueue

/-!
# Lease renewal through the live client

`Reconciler._reconcile_job` over a `LiveComfyUIClient`: a job whose prompt
ComfyUI is still working on gets a new lease, so that a lease that runs out
means a lost job.  `get_status` answers `running` for every exception of its
requests, and the reconciler renews the lease on that answer as well: a worker
that stays unreachable keeps its jobs running for ever.

## Main results

* `leaseLaw_of_pollCompletes`, `not_leaseLaw_of_pollRaises` — a pass keeps the
  law of leases exactly when no exception ends its poll.
* `leaseLaw_run` — the same for every sequence of passes.
* `not_leaseLaw` — the pass whose `/history` request fails.
-/

namespace Imagin4.Ports

open Imagin4.Verified

/-! ## Leases -/

/-- `lease_expires_at` of a job. -/
def leaseOf {σ : Type} [JobQueue σ] (q : σ) (id : Uuid) : Option DateTime :=
  (JobQueue.get q id).bind QueuedJob.leaseExpiresAt

/-- An adapter whose leases are stamped by `renew_lease`, and by no other call
but a claim. -/
class LawfulLeases (σ : Type) [JobQueue σ] : Prop where
  renew {q : σ} {id : Uuid} {j : QueuedJob} (secs : Rat) (now : DateTime) :
    JobQueue.get q id = some j → j.state.isActive = true →
    j.promptId ≠ none →
    leaseOf (JobQueue.renewLease id secs now q) id =
      some (now + timedelta secs)
  other {c : QueueCall} (now : DateTime) (q : σ) (id : Uuid) :
    (∀ i secs, c ≠ .renewLease i secs) →
    leaseOf (c.apply now q) id = leaseOf q id ∨ leaseOf (c.apply now q) id = none

namespace InMemoryJobQueue

theorem leaseOf_update (id : Uuid) (f : QueuedJob → QueuedJob)
    (hf : ∀ j, (f j).id = j.id)
    (hlease : ∀ j, (f j).leaseExpiresAt = j.leaseExpiresAt ∨
      (f j).leaseExpiresAt = none) (q : InMemoryJobQueue) (i : Uuid) :
    leaseOf (q.update id f hf) i = leaseOf q i ∨
      leaseOf (q.update id f hf) i = none := by
  show ((q.update id f hf).get i).bind _ = (q.get i).bind _ ∨
    ((q.update id f hf).get i).bind _ = none
  rw [get_update]
  split
  · cases q.get i with
    | none => exact Or.inl rfl
    | some j => exact hlease j
  · exact Or.inl rfl

theorem leaseOf_updateLive (id : Uuid) (f : QueuedJob → QueuedJob)
    (hf : ∀ j, (f j).id = j.id)
    (hlease : ∀ j, (f j).leaseExpiresAt = j.leaseExpiresAt ∨
      (f j).leaseExpiresAt = none) (q : InMemoryJobQueue) (i : Uuid) :
    leaseOf (q.updateLive id f hf) i = leaseOf q i ∨
      leaseOf (q.updateLive id f hf) i = none := by
  refine leaseOf_update id _ _ (fun j => ?_) q i
  split
  · exact Or.inl rfl
  · exact hlease j

instance : LawfulLeases InMemoryJobQueue where
  renew {q id j} secs now hget hactive _ := by
    show ((q.renewLease id secs now).get id).bind _ = _
    unfold renewLease
    rw [get_update, if_pos rfl]
    replace hget : q.get id = some j := hget
    simp [hget, hactive]
  other {c} now q id hc := by
    cases c with
    | renewLease i secs => exact absurd rfl (hc i secs)
    | markRunning i =>
        show leaseOf (q.markRunning i) id = _ ∨ leaseOf (q.markRunning i) id = none
        unfold markRunning
        apply leaseOf_update
        exact fun _ => Or.inl rfl
    | setPromptId i p =>
        show leaseOf (q.setPromptId i p) id = _ ∨ leaseOf (q.setPromptId i p) id = none
        unfold setPromptId
        apply leaseOf_update
        exact fun _ => Or.inl rfl
    | markSucceeded i result =>
        show leaseOf (q.markSucceeded i result) id = _ ∨ leaseOf (q.markSucceeded i result) id = none
        unfold markSucceeded
        apply leaseOf_updateLive
        exact fun _ => Or.inr rfl
    | markFailed i code detail =>
        show leaseOf (q.markFailed i code detail) id = _ ∨ leaseOf (q.markFailed i code detail) id = none
        unfold markFailed
        apply leaseOf_updateLive
        exact fun _ => Or.inr rfl
    | cancel i =>
        show leaseOf (q.cancel i) id = _ ∨ leaseOf (q.cancel i) id = none
        unfold cancel
        apply leaseOf_updateLive
        exact fun _ => Or.inl rfl
    | markRetryWait i code detail delay draw =>
        refine leaseOf_updateLive i _
          (waitForRetry_id code detail delay draw now) (fun j => ?_) q id
        refine Or.inr ?_
        unfold waitForRetry
        dsimp only
        split <;> rfl

end InMemoryJobQueue

namespace PostgresJobQueue

theorem leaseOf_eq (q : PostgresJobQueue) (i : Uuid) :
    leaseOf q i = (q.generationJobs.find? i).bind
      (fun _ => (q.latestAttempt i).map AttemptRow.leaseExpiresAt) := by
  show ((q.generationJobs.find? i).map _).bind _ = _
  cases q.generationJobs.find? i with
  | none => rfl
  | some g => rfl

/-- Rewriting rows keeps the attempt numbers of a job. -/
theorem attemptNos_map (p : AttemptRow → Bool) (f : AttemptRow → AttemptRow)
    (hf : ∀ a, (f a).key = a.key) (i : Uuid) (rows : List AttemptRow) :
    ((rows.map (fun a => if p a then f a else a)).filter
        (fun a => a.jobId = i)).map AttemptRow.attemptNo =
      (rows.filter (fun a => a.jobId = i)).map AttemptRow.attemptNo := by
  induction rows with
  | nil => rfl
  | cons a rest ih =>
      obtain ⟨hjob, hno⟩ := Prod.mk.inj (hf a)
      rw [List.map_cons, List.filter_cons, List.filter_cons]
      by_cases hp : p a = true
      · by_cases hi : a.jobId = i <;> simp [hp, hi, hjob, hno, ih]
      · by_cases hi : a.jobId = i <;> simp [hp, hi, ih]

theorem maxAttemptNo_modifyLatestAttempt (id : Uuid)
    (f : AttemptRow → AttemptRow) (hf : ∀ a, (f a).key = a.key)
    (q : PostgresJobQueue) (i : Uuid) :
    (q.modifyLatestAttempt id f hf).maxAttemptNo i = q.maxAttemptNo i :=
  congrArg List.max? (attemptNos_map _ f hf i q.jobAttempts.rows)

theorem latestAttempt_modifyLatestAttempt (id : Uuid)
    (f : AttemptRow → AttemptRow) (hf : ∀ a, (f a).key = a.key)
    (q : PostgresJobQueue) (i : Uuid) :
    (q.modifyLatestAttempt id f hf).latestAttempt i =
      if i = id then (q.latestAttempt i).map f else q.latestAttempt i := by
  unfold latestAttempt
  rw [maxAttemptNo_modifyLatestAttempt]
  cases hmax : q.maxAttemptNo i with
  | none => simp
  | some n =>
      have hfind := Table.find?_modifyWhere q.jobAttempts
        (fun a => a.jobId = id && some a.attemptNo = q.maxAttemptNo id) f hf
        (i, n)
      refine Eq.trans hfind ?_
      cases hrow : q.jobAttempts.find? (i, n) with
      | none => simp [hrow]
      | some a =>
          have hkey : a.key = (i, n) := Table.key_of_find? hrow
          obtain ⟨hjob, hno⟩ := Prod.mk.inj hkey
          by_cases hi : i = id
          · subst hi
            simp [hrow, hjob, hno, hmax]
          · simp [hrow, hjob, hi]

/-- A guarded update leaves the lease to what follows it. -/
theorem leaseOf_updateLive (id : Uuid) (f : JobRow → JobRow)
    (hf : ∀ g, (f g).id = g.id) {rest : PostgresJobQueue → PostgresJobQueue}
    {i : Uuid} (hrest : ∀ q, leaseOf (rest q) i = leaseOf q i)
    (q : PostgresJobQueue) :
    leaseOf (q.updateLive id f hf rest) i = leaseOf q i := by
  unfold updateLive
  split
  · rfl
  · split
    · rfl
    · rw [hrest, leaseOf_eq, leaseOf_eq]
      show ((q.generationJobs.modify id f hf).find? i).bind _ = _
      rw [Table.find?_modify]
      split
      · cases q.generationJobs.find? i <;> rfl
      · rfl

theorem leaseOf_updateLatestAttempt (id : Uuid) (state : JobState)
    (code : Option String) (result : Option JobResult) (q : PostgresJobQueue)
    (i : Uuid) :
    leaseOf (q.updateLatestAttempt id state code result) i = leaseOf q i := by
  rw [leaseOf_eq, leaseOf_eq]
  unfold updateLatestAttempt
  rw [latestAttempt_modifyLatestAttempt]
  split
  · rw [Option.map_map]
    rfl
  · rfl

/-- No call but `renew_lease` touches a lease. -/
theorem leaseOf_apply {c : QueueCall}
    (hc : ∀ i secs, c ≠ .renewLease i secs) (now : DateTime)
    (q : PostgresJobQueue) (i : Uuid) :
    leaseOf (c.apply now q) i = leaseOf q i := by
  cases c with
  | renewLease id secs => exact absurd rfl (hc id secs)
  | markRunning id =>
      show leaseOf (q.markRunning id) i = _
      unfold markRunning
      rw [leaseOf_updateLive]
      exact fun _ => rfl
  | markSucceeded id result =>
      show leaseOf (q.markSucceeded id result) i = _
      unfold markSucceeded
      rw [leaseOf_updateLive]
      exact fun q => leaseOf_updateLatestAttempt id _ _ _ q i
  | markFailed id code detail =>
      show leaseOf (q.markFailed id code detail) i = _
      unfold markFailed
      rw [leaseOf_updateLive]
      exact fun q => leaseOf_updateLatestAttempt id _ _ _ q i
  | markRetryWait id code detail delay draw =>
      show leaseOf (q.markRetryWait id code detail delay draw now) i = _
      unfold markRetryWait
      split
      · rfl
      · split
        · rfl
        · rw [leaseOf_updateLive]
          exact fun q => leaseOf_updateLatestAttempt id _ _ _ q i
  | setPromptId id p =>
      rw [leaseOf_eq, leaseOf_eq]
      show (q.generationJobs.find? i).bind
        (fun _ => ((q.setPromptId id p).latestAttempt i).map _) = _
      unfold setPromptId
      rw [latestAttempt_modifyLatestAttempt]
      split
      · rw [Option.map_map]
        rfl
      · rfl
  | cancel id =>
      show leaseOf (q.cancel id) i = _
      unfold cancel
      rw [leaseOf_updateLive]
      exact fun _ => rfl

instance : LawfulLeases PostgresJobQueue where
  renew {q id j} secs now hget _ hprompt := by
    rw [leaseOf_eq]
    show (q.generationJobs.find? id).bind
      (fun _ => ((q.renewLease id secs now).latestAttempt id).map _) = _
    obtain ⟨g, hg, rfl⟩ := Option.map_eq_some_iff.mp hget
    unfold renewLease
    rw [latestAttempt_modifyLatestAttempt, if_pos rfl, hg]
    cases hlatest : q.latestAttempt id with
    | none => exact absurd (by rw [hlatest]; rfl) hprompt
    | some a => rfl
  other now q id hc := Or.inl (leaseOf_apply hc now q id)

end PostgresJobQueue

/-! ## Passes -/

section Passes

variable {σ : Type} [JobQueue σ]

/-- The queue, and the client of the reconciler that goes through it. -/
structure LeaseState (σ : Type) where
  queue : σ
  client : LiveComfyUIClient

/-- What one pass meets: the time it started, the time of the queue call it
ends in, the answers of the worker and of the storage, and random names. -/
structure PassInput where
  now : DateTime
  clock : DateTime
  answers : ComfyAnswers
  put : PutObject
  hex : Nat → String
  draw : Rat

/-- A pass over one job, or whatever else happens to the queue between two
passes. -/
inductive PassAction (σ : Type) where
  | pass (id : Uuid) (input : PassInput)
  | others (queue : σ)

/-- Makes the call a decision ends in; `run_once` logs an exception. -/
def settle (decision : Except PyError (Option QueueCall)) (clock : DateTime)
    (queue : σ) : σ :=
  match decision with
  | .ok (some c) => c.apply clock queue
  | _ => queue

/-- `_reconcile_job` for an active job. -/
def reconcilePass (settings : Settings) (host : Host) (job : QueuedJob)
    (input : PassInput) (s : LeaseState σ) : LeaseState σ :=
  match hasPromptId job with
  | none =>
      { s with
        queue := settle (reconcileJob job input.now input.draw) input.clock
          s.queue }
  | some promptId =>
      let r := s.client.getStatus host input.answers input.put input.hex
        promptId
      { queue := settle (resolveViaComfy settings job input.now r.1 input.draw)
          input.clock s.queue
        client := r.2 }

/-- One pass, for a job `list_active` reports. -/
def passStep (settings : Settings) (host : Host) (s : LeaseState σ) :
    PassAction σ → Option (LeaseState σ)
  | .pass id input =>
      match JobQueue.get s.queue id with
      | some job =>
          if job.state.isActive then
            some (reconcilePass settings host job input s)
          else none
      | none => none
  | .others queue => some { s with queue := queue }

/-- The machine of all sequences of passes. -/
def passes (σ : Type) [JobQueue σ] (settings : Settings) (host : Host) :
    Machine (LeaseState σ) (PassAction σ) :=
  ⟨passStep settings host⟩

/-- A queue, and a client that has answered nothing yet. -/
def LeaseState.init (baseUrl : String) (queue : σ) : LeaseState σ :=
  ⟨queue, .new baseUrl⟩

/-! ## The law -/

/-- The prompt a pass over the job is about. -/
def promptAt (s : LeaseState σ) (id : Uuid) : Option String :=
  (JobQueue.get s.queue id).bind
    (fun job => if job.state.isActive then hasPromptId job else none)

/-- The prompt the pass sends requests about. -/
def askedAt (s : LeaseState σ) (id : Uuid) : Option String :=
  (promptAt s id).filter s.client.asks

/-- Does one of the requests of the pass fail? -/
def RequestFails (host : Host) (s : LeaseState σ) (id : Uuid)
    (input : PassInput) : Prop :=
  ∃ p e, askedAt s id = some p ∧
    poll host input.answers input.put input.hex p = .error (.request e)

/-- The law of leases for one pass from `s` to `t`: the lease is stamped anew
only on a `/queue` answer that lists the prompt, and a pass with a failed
request neither changes it nor keeps a job active whose lease is over. -/
structure LeaseLaw (host : Host) (s : LeaseState σ) (id : Uuid)
    (input : PassInput) (t : LeaseState σ) : Prop where
  listed : leaseOf t.queue id ≠ leaseOf s.queue id →
    leaseOf t.queue id ≠ none →
    ∃ p, promptAt s id = some p ∧ queueLists input.answers p = true
  unchanged : RequestFails host s id input →
    leaseOf t.queue id = leaseOf s.queue id
  ended : RequestFails host s id input → ∀ e, leaseOf s.queue id = some e →
    e < input.now → ∀ j, JobQueue.get t.queue id = some j →
    j.state.isActive = false

/-- The law for a step of the machine. -/
def KeepsLeaseLaw (settings : Settings) (host : Host) (s : LeaseState σ) :
    PassAction σ → Prop
  | .pass id input => ∀ t, passStep settings host s (.pass id input) = some t →
      LeaseLaw host s id input t
  | .others _ => True

/-- Every request of the pass is answered and every answer can be read: no
exception ends the poll. -/
def pollCompletes (host : Host) (s : LeaseState σ) : PassAction σ → Bool
  | .pass id input =>
      match askedAt s id with
      | some p =>
          match poll host input.answers input.put input.hex p with
          | .ok _ => true
          | .error _ => false
      | none => true
  | .others _ => true

/-- The pass does not fall on the instant the present lease was stamped at. -/
def laterThanStamp (s : LeaseState σ) : PassAction σ → Prop
  | .pass id input =>
      leaseOf s.queue id ≠ some (input.clock + timedelta defaultLeaseSeconds)
  | .others _ => True

/-! ## One pass -/

variable {settings : Settings} {host : Host} {s t : LeaseState σ}
  {id : Uuid} {input : PassInput}

/-- A pass that can be made is a pass over an active job. -/
theorem of_passStep
    (h : passStep settings host s (.pass id input) = some t) :
    ∃ job, JobQueue.get s.queue id = some job ∧ job.state.isActive = true ∧
      t = reconcilePass settings host job input s := by
  simp only [passStep] at h
  split at h
  · rename_i job hjob
    split at h
    · rename_i hactive
      cases h
      exact ⟨job, hjob, hactive, rfl⟩
    · cases h
  · cases h

/-- Only the answer `running` renews a lease. -/
theorem running_of_resolveViaComfy {job : QueuedJob} {now : DateTime}
    {status : ComfyStatus} {draw : Rat} {i : Uuid} {secs : Rat}
    (h : resolveViaComfy settings job now status draw =
      .ok (some (.renewLease i secs))) : status.state = .running := by
  have hfail : ∀ {code : String} {detail : Option String},
      (failOrRetry job code detail draw).map some ≠
        .ok (some (.renewLease i secs)) := by
    intro code detail h
    cases hdecision : failOrRetry job code detail draw with
    | error e => simp [hdecision, Except.map] at h
    | ok c =>
        rw [hdecision] at h
        obtain rfl : c = .renewLease i secs := by simpa [Except.map] using h
        rcases failOrRetry_cases hdecision with ⟨_, heq, _⟩ | heq
        · cases heq
        · cases heq
  unfold resolveViaComfy at h
  split at h
  · cases h
  · assumption
  · split at h
    · exact absurd h hfail
    · cases h
  · exact absurd h hfail

/-- A pass without a prompt id renews nothing. -/
theorem not_renew_of_reconcileJob {job : QueuedJob} {now : DateTime}
    {draw : Rat} {c : QueueCall}
    (h : reconcileJob job now draw = .ok (some c)) (i : Uuid) (secs : Rat) :
    c ≠ .renewLease i secs := by
  unfold reconcileJob at h
  split at h
  · cases hdecision : failOrRetry job "worker_lease_expired"
        (some "lease expired with no prompt_id") draw with
    | error e => simp [hdecision, Except.map] at h
    | ok d =>
        rw [hdecision] at h
        obtain rfl : d = c := by simpa [Except.map] using h
        rcases failOrRetry_cases hdecision with ⟨_, rfl, _⟩ | rfl
        · exact fun heq => by cases heq
        · exact fun heq => by cases heq
  · cases h

/-- A decision that renews nothing leaves the lease, or takes it away. -/
theorem leaseOf_settle [LawfulLeases σ]
    (decision : Except PyError (Option QueueCall))
    (hdecision : ∀ c, decision = .ok (some c) → ∀ i secs,
      c ≠ .renewLease i secs) (clock : DateTime) (q : σ) (id : Uuid) :
    leaseOf (settle decision clock q) id = leaseOf q id ∨
      leaseOf (settle decision clock q) id = none := by
  unfold settle
  split
  · rename_i c
    exact LawfulLeases.other clock q id (hdecision c rfl)
  · exact Or.inl rfl

/-- A pass no exception ends keeps the law. -/
theorem leaseLaw_of_pollCompletes [LawfulLeases σ]
    (hclient : s.client.Ended)
    (hcompletes : pollCompletes host s (.pass id input) = true)
    (h : passStep settings host s (.pass id input) = some t) :
    LeaseLaw host s id input t := by
  have hno : ¬ RequestFails host s id input := by
    rintro ⟨p, e, hasked, hpoll⟩
    simp [pollCompletes, hasked, hpoll] at hcompletes
  refine ⟨fun hchanged hsome => ?_, fun hfails => absurd hfails hno,
    fun hfails => absurd hfails hno⟩
  obtain ⟨job, hjob, hactive, rfl⟩ := of_passStep h
  cases hprompt : hasPromptId job with
  | none =>
      have hkept := leaseOf_settle (reconcileJob job input.now input.draw)
        (fun c hc => not_renew_of_reconcileJob hc) input.clock s.queue id
      simp only [reconcilePass, hprompt] at hchanged hsome
      rcases hkept with hsame | hnone
      · exact absurd hsame hchanged
      · exact absurd hnone hsome
  | some p =>
      have hat : promptAt s id = some p := by
        unfold promptAt
        rw [hjob]
        simp [hactive, hprompt]
      refine ⟨p, hat, ?_⟩
      by_cases hrunning : (s.client.getStatus host input.answers input.put
          input.hex p).1.state = .running
      · obtain ⟨hasks, herror | hlists⟩ := getStatus_running hclient hrunning
        · obtain ⟨e, hpoll⟩ := herror
          have hasked : askedAt s id = some p := by
            unfold askedAt
            rw [hat]
            simp [hasks]
          simp [pollCompletes, hasked, hpoll] at hcompletes
        · exact hlists
      · have hkept := leaseOf_settle (resolveViaComfy settings job input.now
            (s.client.getStatus host input.answers input.put input.hex p).1
            input.draw)
          (fun c hc i secs heq =>
            hrunning (running_of_resolveViaComfy (heq ▸ hc)))
          input.clock s.queue id
        simp only [reconcilePass, hprompt] at hchanged hsome
        rcases hkept with hsame | hnone
        · exact absurd hsame hchanged
        · exact absurd hnone hsome

/-- A pass that an exception ends stamps the lease anew, and breaks the law. -/
theorem not_leaseLaw_of_pollRaises [LawfulJobQueue σ] [LawfulLeases σ]
    (hraises : pollCompletes host s (.pass id input) = false)
    (hlater : laterThanStamp s (.pass id input))
    (h : passStep settings host s (.pass id input) = some t) :
    ¬ LeaseLaw host s id input t := by
  intro hlaw
  obtain ⟨job, hjob, hactive, rfl⟩ := of_passStep h
  unfold pollCompletes at hraises
  dsimp only at hraises
  split at hraises
  · rename_i p hasked
    split at hraises
    · cases hraises
    · rename_i e hpoll
      obtain ⟨hat, hasks⟩ := Option.filter_eq_some_iff.mp hasked
      have hprompt : hasPromptId job = some p := by
        unfold promptAt at hat
        rw [hjob] at hat
        simpa [hactive] using hat
      have hid : job.id = id := LawfulJobQueue.get_id hjob
      have hstamped : leaseOf (reconcilePass settings host job input s).queue
          id = some (input.clock + timedelta defaultLeaseSeconds) := by
        have hsome : job.promptId ≠ none := by
          intro hnone
          simp [hasPromptId, hnone] at hprompt
        simp only [reconcilePass, hprompt, getStatus_of_error hasks hpoll]
        show leaseOf (JobQueue.renewLease job.id _ _ s.queue) id = _
        rw [hid]
        exact LawfulLeases.renew _ _ hjob hactive hsome
      obtain ⟨p', hat', hlists⟩ := hlaw.listed
        (by rw [hstamped]; exact fun heq => hlater heq.symm)
        (by rw [hstamped]; exact Option.some_ne_none _)
      obtain rfl : p = p' := Option.some.inj (hat.symm.trans hat')
      have hrunning : poll host input.answers input.put input.hex p =
          .ok { state := .running } := poll_running_iff.mpr hlists
      rw [hpoll] at hrunning
      cases hrunning
  · cases hraises

/-- A poll is made for an active job only. -/
theorem exists_passStep_of_raises (settings : Settings)
    (h : pollCompletes host s (.pass id input) = false) :
    ∃ t, passStep settings host s (.pass id input) = some t := by
  unfold pollCompletes at h
  dsimp only at h
  split at h
  · rename_i p hasked
    obtain ⟨hat, _⟩ := Option.filter_eq_some_iff.mp hasked
    obtain ⟨job, hjob, hprompt⟩ := Option.bind_eq_some_iff.mp hat
    by_cases hactive : job.state.isActive = true
    · exact ⟨reconcilePass settings host job input s,
        by simp only [passStep, hjob, hactive, if_true]⟩
    · simp [hactive] at hprompt
  · cases h

theorem ended_step {a : PassAction σ} (hs : s.client.Ended)
    (h : passStep settings host s a = some t) : t.client.Ended := by
  cases a with
  | others queue =>
      cases h
      exact hs
  | pass id input =>
      obtain ⟨job, _, _, rfl⟩ := of_passStep h
      unfold reconcilePass
      split
      · exact hs
      · exact ended_getStatus hs

/-! ## Sequences of passes -/

/-- A sequence of passes over any jobs, with anything happening to the queue in
between, keeps the law when no exception ends a poll; and unless a pass falls
on the instant the lease was stamped at, only then. -/
theorem leaseLaw_run [LawfulJobQueue σ] [LawfulLeases σ]
    (settings : Settings) (host : Host) (baseUrl : String) (queue : σ)
    (as : List (PassAction σ)) :
    ((passes σ settings host).Along
        (fun s a => pollCompletes host s a = true) (.init baseUrl queue) as →
      (passes σ settings host).Along (KeepsLeaseLaw settings host)
        (.init baseUrl queue) as) ∧
    ((passes σ settings host).Along laterThanStamp (.init baseUrl queue) as →
      (passes σ settings host).Along (KeepsLeaseLaw settings host)
        (.init baseUrl queue) as →
      (passes σ settings host).Along
        (fun s a => pollCompletes host s a = true) (.init baseUrl queue) as) := by
  constructor
  · intro h
    refine Machine.Along.mono_of_invariant (I := fun s => s.client.Ended)
      (fun s a hs hcompletes => ?_) (fun _ _ _ hs hstep => ended_step hs hstep)
      (ended_new baseUrl) h
    cases a with
    | others queue => trivial
    | pass id input =>
        intro t hstep
        exact leaseLaw_of_pollCompletes hs hcompletes hstep
  · intro hlater hlaw
    refine Machine.Along.mono (fun s a h => ?_) (hlater.and hlaw)
    cases a with
    | others queue => rfl
    | pass id input =>
        by_contra hraises
        rw [Bool.not_eq_true] at hraises
        obtain ⟨t, hstep⟩ := exists_passStep_of_raises settings hraises
        exact not_leaseLaw_of_pollRaises hraises h.1 hstep (h.2 t hstep)

end Passes

/-! ## The worker that does not answer -/

/-- One job, claimed at time zero and submitted as `"p"`. -/
def submittedJob : PostgresJobQueue :=
  (((PostgresJobQueue.empty.enqueue
      (newJob 7 1 "image_basic" "k" (.obj []) none 0)).claim
        { workerCapacity := 1
          leaseOwner := "scheduler-0"
          leaseSeconds := defaultLeaseSeconds } [] 0).1.markRunning 7).setPromptId
    7 "p"

/-- Python's functions, for prompts that are strings. -/
def asciiHost : Host := ⟨fun _ => "", String.toLower, fun _ => none⟩

/-- A pass at minute five, long after the lease. -/
def passAtFive (answers : ComfyAnswers) : PassInput where
  now := 300000000
  clock := 300000000
  answers := answers
  put := fun _ _ _ => .ok ()
  hex := fun _ => "0"
  draw := 0

/-- A worker that cannot be reached. -/
def unreachable : ComfyAnswers where
  history := .error "ConnectError"
  queue := .error "ConnectError"
  view := fun _ => .error "ConnectError"

/-- A worker that has the prompt `"p"` in its queue. -/
def stillQueued : ComfyAnswers where
  history := .ok (.obj [])
  queue := .ok (.obj [("queue_running", .arr [.arr [.int 0, .str "p"]])])
  view := fun _ => .error "HTTPStatusError"

theorem not_leaseLaw :
    ¬ ∀ (settings : Settings) (host : Host) (baseUrl : String)
      (queue : PostgresJobQueue) (as : List (PassAction PostgresJobQueue)),
      (passes PostgresJobQueue settings host).Along
        (KeepsLeaseLaw settings host) (.init baseUrl queue) as := by
  intro h
  have hlaw := (h {} asciiHost "" submittedJob [.pass 7 (passAtFive unreachable)]).1
  have hrun : (passStep {} asciiHost (.init "" submittedJob)
      (.pass 7 (passAtFive unreachable))).map
        (fun t => leaseOf t.queue 7) = some (some 420000000) := by
    decide +kernel
  obtain ⟨t, ht, hlease⟩ := Option.map_eq_some_iff.mp hrun
  have hfails : RequestFails asciiHost (.init "" submittedJob) 7
      (passAtFive unreachable) := ⟨"p", "ConnectError", by decide +kernel, rfl⟩
  have hsame := (hlaw t ht).unchanged hfails
  rw [hlease] at hsame
  exact absurd hsame (by decide +kernel)

/-- The lease is renewed while the prompt is in the queue. -/
theorem leaseLaw_run_queued :
    (passes PostgresJobQueue {} asciiHost).Along (KeepsLeaseLaw {} asciiHost)
      (.init "" submittedJob) [.pass 7 (passAtFive stillQueued)] :=
  (leaseLaw_run {} asciiHost "" submittedJob
    [.pass 7 (passAtFive stillQueued)]).1 (by decide +kernel)

end Imagin4.Ports
