import Imagin4.Verified.Ranks
import Imagin4.Ports.GreedyClaims
import Imagin4.Ports.MemoryAdmission

/-!
# Ranks in the in-memory queue

`queue_rank` sorts the backlog of a lane and looks for the job; `claim_next` sorts
it too, and with a capacity of one takes the first.  An admission counts the
backlog before its job is there.  All three go by the same order.

## Main results

* `drain_eq` — a lane that is drained one by one comes out in its order.
* `ranks_are_places` — a rank is the place in which the lane is drained, and the
  position that an admission returns is the rank of its job.
-/

namespace Imagin4.Ports

open Imagin4.Verified

namespace InMemoryJobQueue

/-- The backlog of a lane, in its order. -/
def lane (kinds : Option (List String)) (q : InMemoryJobQueue) : List QueuedJob :=
  (q.jobs.rows.filter (fun j => j.state.isWaiting && kindAllowed kinds j.kind)).insertionSort
    ClaimsBefore

/-- `queue_rank`. -/
def queueRank (id : Uuid) (kinds : Option (List String)) (q : InMemoryJobQueue) :
    Option Nat :=
  match q.get id with
  | none => none
  | some job =>
      if job.state.isWaiting then (q.lane kinds).findIdx? (fun j => j.id = id)
      else none

/-- What `claim_next` returns for one worker after another, at these times. -/
def drain (kinds : Option (List String)) :
    List DateTime → InMemoryJobQueue → List (List QueuedJob)
  | [], _ => []
  | now :: times, q =>
      (q.claimNext 1 kinds 0 now).2 :: drain kinds times (q.claimNext 1 kinds 0 now).1

/-- Every job of the backlog of the lane can be claimed. -/
def AllAvailable (kinds : Option (List String)) (now : DateTime)
    (q : InMemoryJobQueue) : Prop :=
  ∀ j ∈ q.lane kinds, ∀ t, j.availableAt = some t → t ≤ now

section Lane

variable {kinds : Option (List String)} {now : DateTime} {q : InMemoryJobQueue}
  {j : QueuedJob}

theorem mem_lane : j ∈ q.lane kinds ↔
    j ∈ q.jobs ∧ j.state.isWaiting = true ∧ kindAllowed kinds j.kind = true := by
  unfold lane
  rw [List.mem_insertionSort, List.mem_filter, Table.mem_def, Bool.and_eq_true]

theorem nodup_lane (kinds : Option (List String)) (q : InMemoryJobQueue) :
    ((q.lane kinds).map QueuedJob.id).Nodup := by
  have hperm := (List.perm_insertionSort ClaimsBefore (q.jobs.rows.filter
    (fun j => j.state.isWaiting && kindAllowed kinds j.kind))).map QueuedJob.id
  exact hperm.nodup_iff.mpr (q.jobs.nodup.sublist (List.filter_sublist.map _))

/-- The lane has as many jobs as its backlog counts. -/
theorem length_lane (kinds : List String) (q : InMemoryJobQueue) :
    (q.lane (some kinds)).length = q.countBacklogForKinds kinds := by
  unfold lane countBacklogForKinds backlog
  rw [List.length_insertionSort, ← List.countP_eq_length_filter]
  refine List.countP_congr (fun j _ => ?_)
  simp only [kindAllowed, Bool.and_eq_true, and_comm]

/-- The rank of a job is its index in the lane. -/
theorem queueRank_eq_some_iff {id : Uuid} {i : Nat} :
    q.queueRank id kinds = some i ↔
      ((q.lane kinds)[i]?).map QueuedJob.id = some id := by
  rw [← findIdx?_eq_some_iff_key (nodup_lane kinds q)]
  unfold queueRank
  constructor
  · intro h
    split at h
    · cases h
    · split at h
      · exact h
      · cases h
  · intro h
    obtain ⟨j, hj, hid⟩ := Option.map_eq_some_iff.mp
      ((findIdx?_eq_some_iff_key (nodup_lane kinds q)).mp h)
    obtain ⟨hmem, hwaiting, -⟩ := mem_lane.mp (List.mem_of_getElem? hj)
    have hget : q.get id = some j := Table.find?_eq_some_iff.mpr ⟨hmem, hid⟩
    rw [hget]
    dsimp only
    rw [if_pos hwaiting, h]

/-! ## Draining -/

theorem candidates_eq_lane (h : AllAvailable kinds now q) {t : DateTime}
    (ht : now ≤ t) : q.candidates kinds t = q.lane kinds := by
  unfold candidates lane
  congr 1
  refine List.filter_congr (fun j hj => ?_)
  unfold eligible
  by_cases hlane : (j.state.isWaiting && kindAllowed kinds j.kind) = true
  · rw [hlane, Bool.true_and]
    rw [Bool.and_eq_true] at hlane
    cases havailable : j.availableAt with
    | none => rfl
    | some t' =>
        have hle := h j (mem_lane.mpr ⟨hj, hlane⟩) t' havailable
        exact decide_eq_true (Int.le_trans hle ht)
  · rw [Bool.not_eq_true] at hlane
    rw [hlane, Bool.false_and]

theorem takenBy_one (h : AllAvailable kinds now q) {t : DateTime} (ht : now ≤ t) :
    q.takenBy 1 kinds 0 t = (q.lane kinds).take 1 := by
  unfold takenBy
  rw [candidates_eq_lane h ht]
  exact onePass_eq_take (fun n => by simp [BelowCap]) _ _ _

/-- What has been dispatched waits no more. -/
theorem filter_dispatched (kinds : Option (List String)) (ids : List Uuid)
    (rows : List QueuedJob) :
    (rows.map (fun j => if j.id ∈ ids then j.dispatched else j)).filter
        (fun j => j.state.isWaiting && kindAllowed kinds j.kind) =
      (rows.filter (fun j => j.state.isWaiting && kindAllowed kinds j.kind)).filter
        (fun j => j.id ∉ ids) := by
  induction rows with
  | nil => rfl
  | cons j rest ih =>
      have hdispatched : (j.dispatched.state.isWaiting &&
          kindAllowed kinds j.dispatched.kind) = false := rfl
      rw [List.map_cons, List.filter_cons, List.filter_cons, ih]
      by_cases hid : j.id ∈ ids
      · rw [if_pos hid, hdispatched]
        by_cases hj : (j.state.isWaiting && kindAllowed kinds j.kind) = true
        · simp [hj, hid]
        · simp [hj]
      · rw [if_neg hid]
        by_cases hj : (j.state.isWaiting && kindAllowed kinds j.kind) = true
        · simp [hj, hid]
        · simp [hj]

/-- One claim takes the first job from the lane. -/
theorem lane_claimNext (h : AllAvailable kinds now q) {t : DateTime} (ht : now ≤ t) :
    (q.claimNext 1 kinds 0 t).1.lane kinds = (q.lane kinds).drop 1 := by
  have hrows : (q.claimNext 1 kinds 0 t).1.jobs.rows = q.jobs.rows.map (fun j =>
      if j.id ∈ ((q.lane kinds).take 1).map QueuedJob.id then j.dispatched
      else j) := by
    rw [claimNext_jobs, takenBy_one h ht]
    simp [Table.modifyWhere]
  have hlane : (q.claimNext 1 kinds 0 t).1.lane kinds = (q.lane kinds).filter
      (fun j => j.id ∉ ((q.lane kinds).take 1).map QueuedJob.id) := by
    conv_lhs => unfold lane
    rw [hrows, filter_dispatched, insertionSort_filter]
    rfl
  have hnodup := nodup_lane kinds q
  rw [hlane]
  generalize q.lane kinds = jobs at hnodup ⊢
  cases jobs with
  | nil => rfl
  | cons first rest =>
      rw [List.map_cons, List.nodup_cons] at hnodup
      have hrest : rest.filter (fun j => j.id ∉ [first.id]) = rest := by
        refine List.filter_eq_self.mpr (fun j hj => decide_eq_true ?_)
        rw [List.mem_singleton]
        rintro hid
        exact hnodup.1 (hid ▸ List.mem_map_of_mem hj)
      simpa using hrest

theorem allAvailable_claimNext (h : AllAvailable kinds now q) {t : DateTime}
    (ht : now ≤ t) : AllAvailable kinds now (q.claimNext 1 kinds 0 t).1 := by
  intro j hj
  rw [lane_claimNext h ht] at hj
  exact h j (List.mem_of_mem_drop hj)

/-- **A lane that is drained one by one comes out in its order.** -/
theorem drain_eq (times : List DateTime) : ∀ q : InMemoryJobQueue,
    AllAvailable kinds now q → (∀ t ∈ times, now ≤ t) →
    drain kinds times q =
      ((q.lane kinds).take times.length).map (fun j => [j.dispatched]) ++
        List.replicate (times.length - (q.lane kinds).length) [] := by
  induction times with
  | nil =>
      intro q _ _
      simp [drain]
  | cons t times ih =>
      intro q h htimes
      have ht : now ≤ t := htimes t List.mem_cons_self
      have hrest := ih _ (allAvailable_claimNext h ht)
        (fun t' ht' => htimes t' (List.mem_cons_of_mem t ht'))
      rw [lane_claimNext h ht] at hrest
      rw [drain, hrest, claimNext_returned, takenBy_one h ht]
      cases q.lane kinds with
      | nil => simp [List.replicate_succ]
      | cons first rest => simp

/-- The place in which a lane is drained. -/
theorem drained_iff (h : AllAvailable kinds now q) {times : List DateTime}
    (htimes : ∀ t ∈ times, now ≤ t) (hlong : (q.lane kinds).length ≤ times.length)
    {id : Uuid} {i : Nat} :
    ((drain kinds times q)[i]?).map (fun claimed => claimed.map QueuedJob.id) =
        some [id] ↔ ((q.lane kinds)[i]?).map QueuedJob.id = some id := by
  rw [drain_eq times q h htimes, List.take_of_length_le hlong]
  by_cases hi : i < (q.lane kinds).length
  · rw [List.getElem?_append_left (by simpa using hi), List.getElem?_map]
    simp [hi, QueuedJob.dispatched_id]
  · have hnone : (q.lane kinds)[i]? = none := List.getElem?_eq_none (by omega)
    rw [List.getElem?_append_right (by simp; omega), hnone, List.getElem?_replicate]
    split <;> simp

end Lane

/-! ## Positions -/

/-- Jobs of an admission have no priority of their own. -/
def NoPriorities (q : InMemoryJobQueue) : Prop :=
  ∀ j ∈ q.jobs, j.effectivePriority = 0

theorem NoPriorities.rewritten {q r : InMemoryJobQueue} (h : NoPriorities q)
    (hr : Table.Rewritten standing q.jobs r.jobs) : NoPriorities r := by
  obtain ⟨f, hf, hmem⟩ := hr.exists_of_mem
  intro j hj
  obtain ⟨i, hi, rfl⟩ := (hmem j).mp hj
  have hsame : (f i).effectivePriority = i.effectivePriority :=
    congrArg (fun s => s.2.1) (hf i)
  rw [hsame]
  exact h i hi

end InMemoryJobQueue

section Runs

open InMemoryJobQueue

variable {host : AdmissionHost} {settings : Settings} {r : AdmissionRequest}
  {q q' : InMemoryJobQueue}

theorem noPriorities_step {a : MemoryAction} (hq : NoPriorities q)
    (h : memoryStep host q a = some q') : NoPriorities q' := by
  cases a with
  | admission settings r =>
      cases h
      have hadmits := run_admitGenerationJob host settings r q
      revert hadmits
      generalize admitToMemory host settings r q = result
      intro hadmits
      cases hadmits with
      | created v position _ _ _ _ =>
          intro j hj
          rcases Table.mem_put.mp hj with rfl | ⟨hj, -⟩
          · rfl
          · exact hq j hj
      | _ => exact hq
  | claimNext workerCapacity kinds maxActivePerUser now =>
      cases h
      exact hq.rewritten (standing_claimNext _ _ _ _ q)
  | claim req now =>
      cases h
      exact hq.rewritten (standing_claimNextWithLease req now q)
  | call c now =>
      cases h
      exact hq.rewritten (standing_apply c now q)

theorem noPriorities_run {as : List MemoryAction}
    (h : (memoryQueue host).exec empty as = some q) : NoPriorities q := by
  refine Machine.invariant (M := memoryQueue host) (C := fun _ _ => True)
    (fun _ _ _ hq _ hstep => noPriorities_step hq hstep) (fun j hj => by cases hj)
    ?_ h
  exact Machine.along_of_split h (fun _ _ _ _ _ _ => trivial)

/-- An admission that is no replay has counted the lane and inserted its job. -/
theorem created_of_admit {result : AdmissionResult}
    (h : (admitToMemory host settings r q).1 = .ok result)
    (hnew : result.replayed = false) :
    ∃ v, validateRequest host settings r = .ok v ∧
      result.id = r.id ∧ result.queuePosition =
        some (q.countBacklogForKinds (kindsForBackend v.workflow.backend)) ∧
      (admitToMemory host settings r q).2 = q.enqueue (r.job v) := by
  cases hvalid : validateRequest host settings r with
  | error e =>
      unfold admitToMemory admitGenerationJob at h
      rw [hvalid] at h
      cases h
  | ok v =>
      have hrun : admitToMemory host settings r q =
          (afterLookup host settings r v (q.findByIdempotencyKey r.userId
            r.idempotencyKey r.workflowName)).run admissionAnswer q := by
        unfold admitToMemory admitGenerationJob
        rw [hvalid]
        rfl
      rw [hrun] at h ⊢
      refine ⟨v, rfl, ?_⟩
      cases hfind : q.findByIdempotencyKey r.userId r.idempotencyKey
          r.workflowName with
      | none =>
          rw [hfind] at h
          change ((checkGlobalBacklog settings r v).run admissionAnswer q).1 = _ at h
          change _ ∧ _ ∧ ((checkGlobalBacklog settings r v).run admissionAnswer q).2 = _
          rcases run_checkGlobalBacklog settings r q v with
            ⟨reason, retry, hfull⟩ | ⟨-, -, hcreate⟩
          · rw [hfull] at h
            cases h
          · rw [hcreate, run_createJob] at h ⊢
            cases h
            exact ⟨rfl, rfl, rfl⟩
      | some job =>
          rw [hfind] at h
          unfold afterLookup checkIdempotency at h
          by_cases hhash : canonicalPayloadHash host v.inputs.json =
              canonicalPayloadHash host job.inputPayload
          · simp only [Option.map_some, if_pos hhash] at h
            change replayResult job = _ at h
            unfold replayResult at h
            split at h
            · cases h
              cases hnew
            · cases h
          · simp only [Option.map_some, if_neg hhash] at h
            cases h

/-- A new job is the last of its lane. -/
theorem lane_enqueue {kinds : Option (List String)} {job : QueuedJob}
    (hfresh : q.get job.id = none) (hwaiting : job.state.isWaiting = true)
    (hkind : kindAllowed kinds job.kind = true)
    (hlast : ∀ j ∈ q.jobs, ClaimsBefore j job) :
    (q.enqueue job).lane kinds = q.lane kinds ++ [job] := by
  have hnot : job.id ∉ q.jobs.rows.map QueuedJob.id := by
    intro hmem
    obtain ⟨j, hj, hid⟩ := List.mem_map.mp hmem
    exact Table.find?_eq_none_iff.mp hfresh j hj hid
  unfold lane enqueue
  rw [Table.rows_put_of_not_mem hnot, List.filter_append,
    List.filter_cons_of_pos (by simp [hwaiting, hkind]), List.filter_nil,
    insertionSort_concat]
  intro j hj
  exact hlast j (List.mem_of_mem_filter hj)

/-- The position of a new job is its rank. -/
theorem position_eq_rank (hq : NoPriorities q) {result : AdmissionResult}
    {backend : Backend} (h : (admitToMemory host settings r q).1 = .ok result)
    (hnew : result.replayed = false) (hfresh : q.get r.id = none)
    (hbackend : backendForKind r.workflowName = some backend)
    (hlast : ∀ j ∈ q.jobs, j.queuedAt ≤ r.now) :
    (admitToMemory host settings r q).2.queueRank result.id
      (some (kindsForBackend backend)) = result.queuePosition := by
  obtain ⟨v, hv, hid, hposition, hqueue⟩ := created_of_admit h hnew
  obtain ⟨hkind, hlane⟩ :=
    backend_of_resolveWorkflow (workflow_of_validateRequest hv)
  rw [hbackend, Option.some.injEq] at hkind
  subst hkind
  have hbehind : ∀ j ∈ q.jobs, ClaimsBefore j (r.job v) :=
    fun j hj => .inr ⟨hq j hj, hlast j hj⟩
  have hallowed : kindAllowed (some (kindsForBackend v.workflow.backend))
      (r.job v).kind = true := decide_eq_true hlane
  have hlast : (q.enqueue (r.job v)).lane
      (some (kindsForBackend v.workflow.backend)) =
        q.lane (some (kindsForBackend v.workflow.backend)) ++ [r.job v] :=
    lane_enqueue hfresh rfl hallowed hbehind
  rw [hqueue, hposition, hid, queueRank_eq_some_iff, hlast, ← length_lane]
  simp [AdmissionRequest.job, newJob]

/-- The ranks of a lane. -/
theorem exists_rank_iff {kinds : Option (List String)} {i : Nat} :
    (∃ id, q.queueRank id kinds = some i) ↔ i < (q.lane kinds).length := by
  constructor
  · rintro ⟨id, hid⟩
    obtain ⟨j, hj, -⟩ := Option.map_eq_some_iff.mp (queueRank_eq_some_iff.mp hid)
    exact (List.getElem?_eq_some_iff.mp hj).1
  · intro hi
    refine ⟨(q.lane kinds)[i].id, queueRank_eq_some_iff.mpr ?_⟩
    rw [List.getElem?_eq_getElem hi]
    rfl

/-- **Ranks.**  In every state that admissions, claims and other calls reach, the
rank of a job is the place in which it comes out of its lane; the ranks of `n` jobs
are the numbers below `n`; and the position that is returned for a job that is not
older than the others is its rank. -/
theorem ranks_are_places (host : AdmissionHost) (as : List MemoryAction)
    (q : InMemoryJobQueue) (hrun : (memoryQueue host).exec empty as = some q) :
    (∀ (kinds : Option (List String)) (now : DateTime) (times : List DateTime),
      AllAvailable kinds now q → (∀ t ∈ times, now ≤ t) →
      (q.lane kinds).length ≤ times.length → ∀ (id : Uuid) (i : Nat),
        q.queueRank id kinds = some i ↔
          ((drain kinds times q)[i]?).map (fun claimed => claimed.map QueuedJob.id) =
            some [id]) ∧
    (∀ (kinds : Option (List String)) (i : Nat),
      (∃ id, q.queueRank id kinds = some i) ↔ i < (q.lane kinds).length) ∧
    (∀ (settings : Settings) (r : AdmissionRequest) (result : AdmissionResult)
      (backend : Backend), (admitToMemory host settings r q).1 = .ok result →
      result.replayed = false → q.get r.id = none →
      backendForKind r.workflowName = some backend →
      (∀ j ∈ q.jobs, j.queuedAt ≤ r.now) →
      (admitToMemory host settings r q).2.queueRank result.id
        (some (kindsForBackend backend)) = result.queuePosition) := by
  refine ⟨?_, fun kinds i => exists_rank_iff, ?_⟩
  · intro kinds now times havailable htimes hlong id i
    rw [drained_iff havailable htimes hlong, queueRank_eq_some_iff]
  · intro settings r result backend h hnew hfresh hbackend hlast
    exact position_eq_rank (noPriorities_run hrun) h hnew hfresh hbackend hlast

/-- Another request for a poster. -/
def secondPoster : AdmissionRequest :=
  { catRequest 2 with idempotencyKey := "retry-2", now := 3 }

/-- The second poster is behind the first. -/
theorem ranks_are_places_posters : ∃ q,
    (memoryQueue plainHost).exec empty [.admission {} (catRequest 1)] = some q ∧
      (drain (some ["poster_infographic"]) [5] q)[0]?.map
        (fun claimed => claimed.map QueuedJob.id) = some [1] ∧
      (admitToMemory plainHost {} secondPoster q).2.queueRank 2
        (some (kindsForBackend .gemini)) = some 1 := by
  have hrun : (memoryQueue plainHost).exec empty [.admission {} (catRequest 1)] =
      some (admitToMemory plainHost {} (catRequest 1) empty).2 := rfl
  have hone : ∀ j ∈ (admitToMemory plainHost {} (catRequest 1) empty).2.jobs,
      j.availableAt = none ∧ j.queuedAt ≤ 3 := by
    intro j hj
    rcases Table.mem_put.mp hj with rfl | ⟨hj, -⟩
    · exact ⟨rfl, by decide⟩
    · cases hj
  obtain ⟨hplaces, -, hpositions⟩ := ranks_are_places plainHost _ _ hrun
  refine ⟨_, hrun, ?_, ?_⟩
  · refine (hplaces (some ["poster_infographic"]) 5 [5] ?_ (by simp) (by decide) 1
      0).mp rfl
    intro j hj t ht
    rw [(hone j (mem_lane.mp hj).1).1] at ht
    cases ht
  · exact hpositions {} secondPoster _ .gemini rfl rfl rfl rfl
      (fun j hj => (hone j hj).2)

end Runs

end Imagin4.Ports
