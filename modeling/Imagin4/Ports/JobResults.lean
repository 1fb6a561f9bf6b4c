import Imagin4.Ports.MemoryQueue
import Imagin4.Ports.PostgresQueue

/-!
# The results of jobs

The result a job shows is one that `mark_succeeded` has been given for it.  The
in-memory queue keeps it on the job object, the database on the attempts of the job, so
what a queue has recorded is a part of the class.

## Main results

* `InMemoryJobQueue.hasResult_apply`, `PostgresJobQueue.hasResult_apply`,
  `PostgresJobQueue.hasResult_claim` — no other call records a result.
-/

namespace Imagin4.Ports

open Imagin4.Verified

/-- An adapter whose results are those `mark_succeeded` has been given. -/
class RecordsResults (σ : Type) [JobQueue σ] where
  /-- The queue has recorded the result for the job. -/
  recorded : σ → Uuid → JobResult → Prop
  of_get {q : σ} {id : Uuid} {j : QueuedJob} {r : JobResult} :
    JobQueue.get q id = some j → j.result = some r → recorded q id r
  of_enqueue {q : σ} {job : QueuedJob} {now : DateTime} {id : Uuid} {r : JobResult} :
    job.result = none → recorded (JobQueue.enqueue job now q) id r → recorded q id r
  of_claim {q : σ} {req : ClaimRequest} {locked : List Uuid} {now : DateTime} {id : Uuid}
    {r : JobResult} :
    recorded (JobQueue.claimNextWithLease req locked now q).1 id r → recorded q id r
  of_apply {q : σ} {c : QueueCall} {now : DateTime} {id : Uuid} {r : JobResult} :
    recorded (c.apply now q) id r → recorded q id r ∨ c = .markSucceeded id r

namespace InMemoryJobQueue

/-- The job object has the result. -/
def HasResult (q : InMemoryJobQueue) (id : Uuid) (r : JobResult) : Prop :=
  ∃ j, q.get id = some j ∧ j.result = some r

/-- An update leaves the result of a job or gives it the one it is about. -/
theorem hasResult_update {q : InMemoryJobQueue} {i id : Uuid} {r : JobResult}
    {f : QueuedJob → QueuedJob} {hf : ∀ j, (f j).id = j.id} (given : Option JobResult)
    (hresult : ∀ j, (f j).result = j.result ∨ (f j).result = given)
    (h : (q.update i f hf).HasResult id r) :
    q.HasResult id r ∨ (id = i ∧ given = some r) := by
  obtain ⟨j, hj, hr⟩ := h
  rw [get_update] at hj
  split at hj
  · rename_i hid
    obtain ⟨j₀, hj₀, rfl⟩ := Option.map_eq_some_iff.mp hj
    rcases hresult j₀ with hold | hnew
    · exact Or.inl ⟨j₀, hj₀, hold ▸ hr⟩
    · exact Or.inr ⟨hid, hnew ▸ hr⟩
  · exact Or.inl ⟨j, hj, hr⟩

theorem hasResult_updateLive {q : InMemoryJobQueue} {i id : Uuid} {r : JobResult}
    {f : QueuedJob → QueuedJob} {hf : ∀ j, (f j).id = j.id} (given : Option JobResult)
    (hresult : ∀ j, (f j).result = j.result ∨ (f j).result = given)
    (h : (q.updateLive i f hf).HasResult id r) :
    q.HasResult id r ∨ (id = i ∧ given = some r) := by
  refine hasResult_update given (fun j => ?_) h
  split
  · exact Or.inl rfl
  · exact hresult j

theorem hasResult_apply {q : InMemoryJobQueue} {c : QueueCall} {now : DateTime} {id : Uuid}
    {r : JobResult} (h : HasResult (c.apply now q) id r) :
    q.HasResult id r ∨ c = .markSucceeded id r := by
  have hkeep : q.HasResult id r ∨ (id = c.target ∧ (none : Option JobResult) = some r) →
      q.HasResult id r ∨ c = .markSucceeded id r := by
    rintro (hold | ⟨_, hnone⟩)
    · exact Or.inl hold
    · cases hnone
  cases c with
  | renewLease i secs =>
      refine hkeep (hasResult_update none (fun j => Or.inl ?_) h)
      split <;> rfl
  | markRunning i =>
      refine hkeep (hasResult_update none (fun j => Or.inl ?_) h)
      rfl
  | setPromptId i p =>
      refine hkeep (hasResult_update none (fun j => Or.inl ?_) h)
      rfl
  | markFailed i code detail =>
      replace h : (q.markFailed i code detail).HasResult id r := h
      unfold markFailed at h
      refine hkeep (hasResult_updateLive none (fun j => Or.inl ?_) h)
      rfl
  | cancel i =>
      replace h : (q.cancel i).HasResult id r := h
      unfold cancel at h
      refine hkeep (hasResult_updateLive none (fun j => Or.inl ?_) h)
      rfl
  | markRetryWait i code detail delay draw =>
      replace h : (q.markRetryWait i code detail delay draw now).HasResult id r := h
      unfold markRetryWait at h
      refine hkeep (hasResult_updateLive none (fun j => Or.inl ?_) h)
      unfold waitForRetry
      dsimp only
      split <;> rfl
  | markSucceeded i result =>
      replace h : (q.markSucceeded i result).HasResult id r := h
      rcases hasResult_updateLive (some result) (fun _ => Or.inr rfl) h with
        hold | ⟨rfl, hgiven⟩
      · exact Or.inl hold
      · cases hgiven
        exact Or.inr rfl

instance : RecordsResults InMemoryJobQueue where
  recorded := HasResult
  of_get hj hr := ⟨_, hj, hr⟩
  of_enqueue := by
    rintro q job now id r hnone ⟨j, hj, hr⟩
    replace hj : (q.enqueue job).get id = some j := hj
    rw [get_enqueue] at hj
    split at hj
    · cases hj
      rw [hnone] at hr
      cases hr
    · exact ⟨j, hj, hr⟩
  of_claim := by
    rintro q req locked now id r ⟨j, hj, hr⟩
    replace hj : (q.claimNextWithLease req now).1.get id = some j := hj
    rw [get_claimNextWithLease] at hj
    split at hj
    · obtain ⟨j₀, hj₀, rfl⟩ := Option.map_eq_some_iff.mp hj
      exact ⟨j₀, hj₀, hr⟩
    · exact ⟨j, hj, hr⟩
  of_apply := hasResult_apply

end InMemoryJobQueue

namespace PostgresJobQueue

/-- An attempt of the job has the result. -/
def HasResult (q : PostgresJobQueue) (id : Uuid) (r : JobResult) : Prop :=
  ∃ a ∈ q.jobAttempts, a.jobId = id ∧ a.result = some r

variable {q : PostgresJobQueue} {i id : Uuid} {r : JobResult}

theorem hasResult_of_attempts {p : PostgresJobQueue} (h : p.jobAttempts = q.jobAttempts) :
    p.HasResult id r ↔ q.HasResult id r := by
  unfold HasResult
  rw [h]

theorem hasResult_of_get {j : QueuedJob} (hj : q.get id = some j)
    (hr : j.result = some r) : q.HasResult id r := by
  obtain ⟨g, _, rfl⟩ := Option.map_eq_some_iff.mp hj
  obtain ⟨a, hlatest, hresult⟩ := Option.bind_eq_some_iff.mp hr
  obtain ⟨n, _, hfind⟩ := Option.bind_eq_some_iff.mp hlatest
  obtain ⟨hmem, hkey⟩ := Table.find?_eq_some_iff.mp hfind
  exact ⟨a, hmem, congrArg Prod.fst hkey, hresult⟩

/-- An update of the latest attempt leaves its result or gives it the one it is
about. -/
theorem hasResult_modifyLatestAttempt {f : AttemptRow → AttemptRow}
    {hf : ∀ a, (f a).key = a.key} (given : Option JobResult)
    (hresult : ∀ a, (f a).result = a.result ∨ (f a).result = given)
    (h : (q.modifyLatestAttempt i f hf).HasResult id r) :
    q.HasResult id r ∨ (id = i ∧ given = some r) := by
  obtain ⟨a, ha, rfl, hr⟩ := h
  replace ha : a ∈ q.jobAttempts.modifyWhere _ f hf := ha
  obtain ⟨a₀, ha₀, rfl⟩ := Table.mem_modifyWhere.mp ha
  split at hr
  · rename_i hlatest
    have hid : (f a₀).jobId = a₀.jobId := congrArg Prod.fst (hf a₀)
    rw [if_pos hlatest, hid]
    rcases hresult a₀ with hold | hnew
    · exact Or.inl ⟨a₀, ha₀, rfl, hold ▸ hr⟩
    · rw [Bool.and_eq_true, decide_eq_true_eq] at hlatest
      exact Or.inr ⟨hlatest.1, hnew ▸ hr⟩
  · rename_i hlatest
    rw [if_neg hlatest]
    exact Or.inl ⟨a₀, ha₀, rfl, hr⟩

theorem hasResult_updateLive {f : JobRow → JobRow} {hf : ∀ g, (f g).id = g.id}
    {rest : PostgresJobQueue → PostgresJobQueue} {P : Prop}
    (hrest : ∀ p : PostgresJobQueue, (rest p).HasResult id r → p.HasResult id r ∨ P)
    (h : (q.updateLive i f hf rest).HasResult id r) : q.HasResult id r ∨ P := by
  unfold updateLive at h
  split at h
  · exact Or.inl h
  · split at h
    · exact Or.inl h
    · exact (hrest _ h).imp_left (hasResult_of_attempts rfl).mp

theorem hasResult_apply {c : QueueCall} {now : DateTime}
    (h : HasResult (c.apply now q) id r) :
    q.HasResult id r ∨ c = .markSucceeded id r := by
  have hkeep : q.HasResult id r ∨ (id = c.target ∧ (none : Option JobResult) = some r) →
      q.HasResult id r ∨ c = .markSucceeded id r := by
    rintro (hold | ⟨_, hnone⟩)
    · exact Or.inl hold
    · cases hnone
  have hclose : ∀ (state : JobState) (code : Option String) (p : PostgresJobQueue) (i : Uuid)
      (extra : Option JobResult),
      HasResult (p.updateLatestAttempt i state code extra) id r →
      p.HasResult id r ∨ (id = i ∧ extra = some r) := by
    intro state code p i extra hp
    refine hasResult_modifyLatestAttempt extra (fun a => ?_) hp
    cases extra with
    | none => exact Or.inl rfl
    | some result => exact Or.inr rfl
  cases c with
  | renewLease i secs =>
      refine hkeep (hasResult_modifyLatestAttempt none (fun a => Or.inl ?_) h)
      rfl
  | setPromptId i p =>
      refine hkeep (hasResult_modifyLatestAttempt none (fun a => Or.inl ?_) h)
      rfl
  | markRunning i => exact hkeep (hasResult_updateLive (fun p hp => Or.inl hp) h)
  | cancel i =>
      replace h : (q.cancel i).HasResult id r := h
      refine hkeep (hasResult_updateLive (fun p hp => Or.inl ?_) h)
      exact (hasResult_of_attempts rfl).mp hp
  | markFailed i code detail =>
      replace h : (q.markFailed i code detail).HasResult id r := h
      refine hkeep (hasResult_updateLive
        (fun p hp => hclose .failed (some code) p i none ?_) h)
      exact (hasResult_of_attempts rfl).mp hp
  | markRetryWait i code detail delay draw =>
      replace h : HasResult (q.markRetryWait i code detail delay draw now) id r := h
      unfold markRetryWait at h
      split at h
      · exact Or.inl h
      · split at h
        · exact Or.inl h
        · refine hkeep (hasResult_updateLive
            (fun p hp => hclose .retryWait (some code) p i none ?_) h)
          exact (hasResult_of_attempts rfl).mp hp
  | markSucceeded i result =>
      replace h : (q.markSucceeded i result).HasResult id r := h
      have hgiven : q.HasResult id r ∨ (id = i ∧ some result = some r) := by
        refine hasResult_updateLive
          (fun p hp => hclose .succeeded none p i (some result) ?_) h
        exact (hasResult_of_attempts rfl).mp hp
      rcases hgiven with hold | ⟨rfl, hgiven⟩
      · exact Or.inl hold
      · cases hgiven
        exact Or.inr rfl

/-- A new attempt has no result. -/
theorem hasResult_recordAttempt {row : JobRow} {owner : String} {expiresAt : DateTime}
    (h : (q.recordAttempt row owner expiresAt).HasResult id r) : q.HasResult id r := by
  obtain ⟨a, ha, hid, hr⟩ := h
  replace ha : a ∈ upsertAttempt _ q.jobAttempts := ha
  unfold upsertAttempt at ha
  split at ha
  · rcases Table.mem_put.mp ha with rfl | ⟨hold, _⟩
    · cases hr
    · exact ⟨a, hold, hid, hr⟩
  · obtain ⟨a₀, ha₀, rfl⟩ := Table.mem_modifyWhere.mp ha
    split at hr
    · rename_i hkey
      rw [if_pos hkey] at hid
      exact ⟨a₀, ha₀, hid, hr⟩
    · rename_i hkey
      rw [if_neg hkey] at hid
      exact ⟨a₀, ha₀, hid, hr⟩

theorem hasResult_foldl_recordAttempt {owner : String} {expiresAt : DateTime}
    (rows : List JobRow) : ∀ {q : PostgresJobQueue},
      (rows.foldl (fun q g => recordAttempt g owner expiresAt q) q).HasResult id r →
      q.HasResult id r := by
  induction rows with
  | nil => exact fun h => h
  | cons row rows ih => exact fun h => hasResult_recordAttempt (ih h)

theorem hasResult_claim {req : ClaimRequest} {locked : List Uuid} {now : DateTime}
    (h : (q.claim req locked now).1.HasResult id r) : q.HasResult id r := by
  have hcapped : ∀ (n : Nat) (q : PostgresJobQueue),
      (q.claimCapped req locked now n).1.HasResult id r → q.HasResult id r := by
    intro n
    induction n with
    | zero => exact fun _ h => h
    | succ n ih =>
        intro q h
        unfold claimCapped at h
        split at h
        · exact h
        · rename_i row _
          have hrecord : (recordAttempt { row with state := .dispatched } req.leaseOwner
              (now + timedelta req.leaseSeconds) (q.dispatchRows [row.id])).HasResult id r :=
            ih _ h
          exact (hasResult_of_attempts rfl).mp (hasResult_recordAttempt hrecord)
  unfold claim at h
  split at h
  · exact h
  · split at h
    · unfold claimBatch at h
      dsimp only at h
      have hrows := hasResult_foldl_recordAttempt _ h
      exact (hasResult_of_attempts rfl).mp hrows
    · exact hcapped _ q h

instance : RecordsResults PostgresJobQueue where
  recorded := HasResult
  of_get := hasResult_of_get
  of_enqueue := by
    intro q job now id r _ h
    replace h : (q.enqueue job).HasResult id r := h
    unfold enqueue at h
    split at h
    · exact h
    · split at h
      · exact h
      · exact (hasResult_of_attempts rfl).mp h
  of_claim := hasResult_claim
  of_apply := hasResult_apply

end PostgresJobQueue

end Imagin4.Ports
