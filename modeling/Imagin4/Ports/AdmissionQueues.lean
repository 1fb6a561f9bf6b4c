import Imagin4.Ports.AdmissionRetries
import Imagin4.Ports.MemoryAdmission

/-!
# Queues, as their callers see them

The endpoints admit jobs to whichever queue is configured.  An `AdmissionQueue`
is what they can rely on: how the calls of an admission are answered, and what
becomes of the jobs' identities.  Both adapters are such queues.

## Main results

* `AdmissionQueue.of_answer` — the only call that changes the jobs is an
  insertion.
* `InMemoryJobQueue.admissionQueue`, `PostgresJobQueue.admissionQueue` — the two
  adapters.
-/

namespace Imagin4.Ports

open Imagin4.Verified

/-- Work on a queue that inserts no job; a claim finds some rows locked. -/
inductive QueueWork where
  | claim (req : ClaimRequest) (locked : List Uuid) (now : DateTime)
  | call (c : QueueCall) (now : DateTime)

/-- The queue after some work. -/
def QueueWork.apply {σ : Type} [JobQueue σ] : QueueWork → σ → σ
  | claim req locked now, q => (JobQueue.claimNextWithLease req locked now q).1
  | call c now, q => c.apply now q

/-- What an insertion makes of a job whose payload is stored like this. -/
def QueuedJob.identityAs (j : QueuedJob) (payload : Json) : JobIdentity :=
  ⟨j.id, j.idemKey, j.conversationId, payload⟩

/-- A queue with what its callers know of it. -/
structure AdmissionQueue (σ : Type) [JobQueue σ] where
  answer : (c : AdmissionCall) → σ → c.Answer × σ
  identities : σ → List JobIdentity
  /-- What is stored of a payload, if it can be. -/
  stored : Json → Option Json
  identities_work (w : QueueWork) (q : σ) :
    identities (w.apply q) = identities q
  /-- Only an insertion changes the queue, … -/
  unchanged {c : AdmissionCall} (q : σ) :
    (∀ job, c ≠ .enqueue job) → (answer c q).2 = q
  /-- … and only if it is not refused. -/
  refused {job : QueuedJob} {q : σ} {e : PyError} :
    (answer (.enqueue job) q).1 = .error e → (answer (.enqueue job) q).2 = q
  accepted {job : QueuedJob} {q : σ} :
    (answer (.enqueue job) q).1 = .ok () →
    (∀ g ∈ identities q, g.id ≠ job.id) →
    ∃ payload, stored job.inputPayload = some payload ∧
      identities (answer (.enqueue job) q).2 =
        identities q ++ [job.identityAs payload]
  lookup_none {userId : Uuid} {idempotencyKey kind : String} {q : σ} :
    (answer (.findByIdempotencyKey userId idempotencyKey kind) q).1 = none →
    ∀ g ∈ identities q, g.key ≠ (userId, idempotencyKey, kind)
  lookup_some {userId : Uuid} {idempotencyKey kind : String} {q : σ}
      {job : QueuedJob} :
    (answer (.findByIdempotencyKey userId idempotencyKey kind) q).1 = some job →
    ∃ g ∈ identities q, g.key = (userId, idempotencyKey, kind) ∧
      g.id = job.id ∧ g.inputPayload = job.inputPayload

namespace AdmissionQueue

variable {σ : Type} [JobQueue σ] (Q : AdmissionQueue σ)

/-- A call leaves the jobs alone or inserts one, which must have a new id. -/
theorem of_answer {c : AdmissionCall} {q : σ}
    (hid : ∀ job, c = .enqueue job → ∀ g ∈ Q.identities q, g.id ≠ job.id) :
    Q.identities (Q.answer c q).2 = Q.identities q ∨
      ∃ job payload, c = .enqueue job ∧ Q.stored job.inputPayload = some payload ∧
        Q.identities (Q.answer c q).2 =
          Q.identities q ++ [job.identityAs payload] := by
  by_cases henqueue : ∃ job, c = .enqueue job
  · obtain ⟨job, rfl⟩ := henqueue
    cases hanswer : (Q.answer (.enqueue job) q).1 with
    | error e => exact .inl (by rw [Q.refused hanswer])
    | ok _ =>
        obtain ⟨payload, hstored, hjobs⟩ := Q.accepted hanswer (hid job rfl)
        exact .inr ⟨job, payload, rfl, hstored, hjobs⟩
  · left
    rw [Q.unchanged q (fun job hjob => henqueue ⟨job, hjob⟩)]

end AdmissionQueue

/-! ## The adapters -/

namespace InMemoryJobQueue

/-- What identifies the jobs. -/
def identities (q : InMemoryJobQueue) : List JobIdentity :=
  q.jobs.rows.map QueuedJob.identity

theorem identities_enqueue {job : QueuedJob} {q : InMemoryJobQueue}
    (h : ∀ g ∈ q.identities, g.id ≠ job.id) :
    (q.enqueue job).identities = q.identities ++ [job.identity] := by
  have hnew : job.id ∉ q.jobs.rows.map QueuedJob.id := by
    intro hmem
    obtain ⟨j, hj, hid⟩ := List.mem_map.mp hmem
    exact h j.identity (List.mem_map_of_mem hj) hid
  unfold enqueue identities
  rw [Table.put, dif_neg hnew, List.map_append]
  rfl

/-- The in-memory queue stores a payload as it is. -/
def admissionQueue : AdmissionQueue InMemoryJobQueue where
  answer := admissionAnswer
  identities := identities
  stored := some
  identities_work w q := by
    cases w with
    | claim req locked now => exact (rewritten_claimNextWithLease req now q).map_view
    | call c now => exact (rewritten_apply c now q).map_view
  unchanged {c} q h := by
    cases c with
    | enqueue job => exact absurd rfl (h job)
    | _ => rfl
  refused h := by cases h
  accepted _ hid := ⟨_, rfl, identities_enqueue hid⟩
  lookup_none {userId idempotencyKey kind q} h g hg hkey := by
    obtain ⟨j, hj, rfl⟩ := List.mem_map.mp hg
    have hnot := List.find?_eq_none.mp h j hj
    simp only [QueuedJob.identity, QueuedJob.idemKey, Prod.mk.injEq] at hkey
    simp [hkey] at hnot
  lookup_some {userId idempotencyKey kind q job} h := by
    have hkey := List.find?_some h
    simp only [Bool.and_eq_true, decide_eq_true_eq] at hkey
    refine ⟨job.identity, List.mem_map_of_mem (List.mem_of_find?_eq_some h), ?_,
      rfl, rfl⟩
    simp [QueuedJob.identity, QueuedJob.idemKey, hkey]

end InMemoryJobQueue

namespace PostgresJobQueue

/-- What identifies the rows. -/
def identities (q : PostgresJobQueue) : List JobIdentity :=
  q.generationJobs.rows.map JobRow.identity

theorem Inserted.identities {g : JobRow} {q q' : PostgresJobQueue}
    (h : Inserted g q q') : q'.identities = q.identities ++ [g.identity] := by
  have hnew : g.id ∉ q.generationJobs.rows.map JobRow.id := by
    intro hmem
    obtain ⟨r, hr, hid⟩ := List.mem_map.mp hmem
    exact (h.free r hr).1 hid
  unfold PostgresJobQueue.identities
  rw [h.put, Table.put, dif_neg hnew, List.map_append]
  rfl

/-- The queue in the database stores what `jsonb` makes of a payload. -/
def admissionQueue (jsonb : Json → Option Json) :
    AdmissionQueue PostgresJobQueue where
  answer := admissionAnswer jsonb
  identities := identities
  stored := jsonb
  identities_work w q := by
    cases w with
    | claim req locked now => exact (sameJobs_claim req locked now q).map_view
    | call c now => exact (sameJobs_apply c now q).map_view
  unchanged {c} q h := by
    cases c with
    | enqueue job => exact absurd rfl (h job)
    | _ => rfl
  refused {job q e} h := by
    cases herror : insertError jsonb job q with
    | some e => simp only [admissionAnswer, herror]
    | none =>
        obtain ⟨_, _, _, _, hok, _⟩ := inserted_of_insertError herror
        rw [hok] at h
        cases h
  accepted {job q} h _ := by
    cases herror : insertError jsonb job q with
    | some e => simp [admissionAnswer, herror] at h
    | none =>
        obtain ⟨payload, g, hstored, hg, _, hins⟩ := inserted_of_insertError herror
        refine ⟨payload, hstored, ?_⟩
        rw [hins.identities, hg]
        rfl
  lookup_none {userId idempotencyKey kind q} h g hg hkey := by
    obtain ⟨r, hr, rfl⟩ := List.mem_map.mp hg
    have hnot := List.find?_eq_none.mp (Option.map_eq_none_iff.mp h) r hr
    simp only [JobRow.identity, JobRow.idemKey, Prod.mk.injEq] at hkey
    simp [hkey] at hnot
  lookup_some {userId idempotencyKey kind q job} h := by
    obtain ⟨r, hr, rfl⟩ := Option.map_eq_some_iff.mp h
    have hkey := List.find?_some hr
    simp only [Bool.and_eq_true, decide_eq_true_eq] at hkey
    refine ⟨r.identity, List.mem_map_of_mem (List.mem_of_find?_eq_some hr), ?_,
      rfl, rfl⟩
    simp [JobRow.identity, JobRow.idemKey, hkey]

end PostgresJobQueue

end Imagin4.Ports
