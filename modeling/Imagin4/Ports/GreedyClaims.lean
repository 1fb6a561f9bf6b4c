import Imagin4.Ports.ClaimOrder

/-!
# The greedy claim

`claim_next` of the in-memory queue sorts the jobs that can be claimed, and takes
one after another as long as the capacity lasts, except for those whose user has
too many active jobs already.

## Main results

* `claims_greedily` — a claim takes exactly the greedy choice, and touches nothing
  else.
-/

namespace Imagin4.Ports

open Imagin4.Verified

/-- `job.state = "dispatched"`. -/
def QueuedJob.dispatched (j : QueuedJob) : QueuedJob :=
  { j with state := .dispatched }

theorem QueuedJob.dispatched_id (j : QueuedJob) : j.dispatched.id = j.id := rfl

namespace InMemoryJobQueue

/-! ## The order of the scan -/

/-- The jobs that can be claimed, by their sort key; those with the same key in the
order they were enqueued. -/
structure ScanOrder (kinds : Option (List String)) (now : DateTime)
    (q : InMemoryJobQueue) (order : List QueuedJob) : Prop where
  perm : order.Perm (q.jobs.rows.filter (eligible kinds now))
  sorted : order.Pairwise ClaimsBefore
  stable {i j : QueuedJob} : ClaimsBefore i j →
    [i, j].Sublist (q.jobs.rows.filter (eligible kinds now)) → [i, j].Sublist order

instance : Std.Total ClaimsBefore := ⟨fun i j => by
  unfold ClaimsBefore
  rcases lt_trichotomy i.effectivePriority j.effectivePriority with h | h | h
  · exact .inr (.inl h)
  · rcases Int.le_total i.queuedAt j.queuedAt with hle | hle
    · exact .inl (.inr ⟨h, hle⟩)
    · exact .inr (.inr ⟨h.symm, hle⟩)
  · exact .inl (.inl h)⟩

instance : IsTrans QueuedJob ClaimsBefore := ⟨fun i j k hij hjk => by
  unfold ClaimsBefore at *
  rcases hij with hij | ⟨hij, hle⟩
  · rcases hjk with hjk | ⟨hjk, -⟩
    · exact .inl (hjk.trans hij)
    · exact .inl (hjk ▸ hij)
  · rcases hjk with hjk | ⟨hjk, hle'⟩
    · exact .inl (hij ▸ hjk)
    · exact .inr ⟨hij.trans hjk, Int.le_trans hle hle'⟩⟩

theorem scanOrder_candidates (kinds : Option (List String)) (now : DateTime)
    (q : InMemoryJobQueue) : ScanOrder kinds now q (q.candidates kinds now) where
  perm := List.perm_insertionSort _ _
  sorted := List.pairwise_insertionSort _ _
  stable := List.pair_sublist_insertionSort

/-! ## The claim -/

section Claim

variable {workerCapacity : Nat} {kinds : Option (List String)}
  {maxActivePerUser : Int} {now : DateTime} {q : InMemoryJobQueue}
  {order taken : List QueuedJob}

/-- A claim has gone through `order` and taken `taken`. -/
structure ClaimedGreedily (workerCapacity : Nat) (kinds : Option (List String))
    (maxActivePerUser : Int) (now : DateTime) (q : InMemoryJobQueue)
    (order taken : List QueuedJob) (r : InMemoryJobQueue × List QueuedJob) :
    Prop where
  scanned : ScanOrder kinds now q order
  greedy : Greedy QueuedJob.userId (BelowCap maxActivePerUser) QueuedJob.id
    workerCapacity q.activeCounts order taken
  returned : r.2 = taken.map QueuedJob.dispatched
  rows : r.1.jobs.rows = q.jobs.rows.map (fun j =>
    if j.id ∈ taken.map QueuedJob.id then j.dispatched else j)
  atMost : taken.length ≤ workerCapacity
  capped {j : QueuedJob} : j ∈ taken → 0 < maxActivePerUser →
    (r.1.activeCounts j.userId : Int) ≤ maxActivePerUser
  leftBehind {before after : List QueuedJob} {j : QueuedJob} :
    order = before ++ j :: after → j ∉ taken →
    (among QueuedJob.id before taken).length = workerCapacity ∨
      (0 < maxActivePerUser ∧ maxActivePerUser ≤ r.1.activeCounts j.userId)

theorem belowCap_iff {count : Nat} : BelowCap maxActivePerUser count ↔
    maxActivePerUser ≤ 0 ∨ (count : Int) < maxActivePerUser := by
  unfold BelowCap
  omega

/-- What a claim takes. -/
def takenBy (workerCapacity : Nat) (kinds : Option (List String))
    (maxActivePerUser : Int) (now : DateTime) (q : InMemoryJobQueue) :
    List QueuedJob :=
  onePass QueuedJob.userId (BelowCap maxActivePerUser) workerCapacity
    q.activeCounts (q.candidates kinds now)

theorem claimNext_returned :
    (q.claimNext workerCapacity kinds maxActivePerUser now).2 =
      (q.takenBy workerCapacity kinds maxActivePerUser now).map
        QueuedJob.dispatched :=
  claimLoop_onePass maxActivePerUser _ workerCapacity workerCapacity _ [] (by simp)

theorem map_id_dispatched (jobs : List QueuedJob) :
    (jobs.map QueuedJob.dispatched).map QueuedJob.id = jobs.map QueuedJob.id := by
  rw [List.map_map]
  rfl

/-- A claim dispatches what it takes. -/
theorem claimNext_jobs :
    (q.claimNext workerCapacity kinds maxActivePerUser now).1.jobs =
      q.jobs.modifyWhere
        (fun j => decide (j.id ∈
          (q.takenBy workerCapacity kinds maxActivePerUser now).map QueuedJob.id))
        QueuedJob.dispatched QueuedJob.dispatched_id := by
  rw [← map_id_dispatched, ← claimNext_returned]
  rfl

theorem takenBy_sublist :
    (q.takenBy workerCapacity kinds maxActivePerUser now).Sublist
      (q.candidates kinds now) :=
  sublist_onePass _ _ _

theorem of_takenBy {j : QueuedJob}
    (h : j ∈ q.takenBy workerCapacity kinds maxActivePerUser now) :
    j ∈ q.jobs ∧ j.state.isWaiting = true := by
  obtain ⟨hmem, helig⟩ := mem_candidates.mp (takenBy_sublist.subset h)
  unfold eligible at helig
  simp only [Bool.and_eq_true] at helig
  exact ⟨hmem, helig.1.1⟩

theorem nodup_takenBy :
    ((q.takenBy workerCapacity kinds maxActivePerUser now).map QueuedJob.id).Nodup :=
  (candidates_nodup kinds now q).sublist (takenBy_sublist.map _)

/-- The active jobs of a user after a claim. -/
theorem activeCounts_claimNext (user : Uuid) :
    (q.claimNext workerCapacity kinds maxActivePerUser now).1.activeCounts user =
      countsWith QueuedJob.userId q.activeCounts
        (q.takenBy workerCapacity kinds maxActivePerUser now) user := by
  have hwaiting : ∀ j ∈ q.jobs,
      j.id ∈ (q.takenBy workerCapacity kinds maxActivePerUser now).map
        QueuedJob.id → (j.userId = user && j.state.isActive) = false := by
    intro j hj hid
    obtain ⟨i, hi, hij⟩ := List.mem_map.mp hid
    obtain ⟨himem, hiwaiting⟩ := of_takenBy hi
    rw [← Table.eq_of_key_eq himem hj hij, JobState.not_active_of_waiting hiwaiting,
      Bool.and_false]
  have hperm := q.jobs.filter_key_mem_perm
    (@nodup_takenBy workerCapacity kinds maxActivePerUser now q)
    (fun j hj => (of_takenBy hj).1)
  have hcount : (q.takenBy workerCapacity kinds maxActivePerUser now).countP
      (fun j => j.dispatched.userId = user && j.dispatched.state.isActive) =
        (q.takenBy workerCapacity kinds maxActivePerUser now).countP
          (fun j => j.userId = user) := by
    refine List.countP_congr (fun j _ => ?_)
    have hactive : j.dispatched.state.isActive = true := rfl
    rw [hactive, Bool.and_true]
    rfl
  unfold activeCounts countsWith
  rw [claimNext_jobs, Table.countP_modifyWhere_mem _ _ _ hwaiting, hperm.countP_eq,
    hcount]

/-- **A claim takes exactly the greedy choice.** -/
theorem claims_greedily (workerCapacity : Nat) (kinds : Option (List String))
    (maxActivePerUser : Int) (now : DateTime) (q : InMemoryJobQueue) :
    ∃ order taken, ClaimedGreedily workerCapacity kinds maxActivePerUser now q
      order taken (q.claimNext workerCapacity kinds maxActivePerUser now) := by
  have hgreedy : Greedy QueuedJob.userId (BelowCap maxActivePerUser) QueuedJob.id
      workerCapacity q.activeCounts (q.candidates kinds now)
      (q.takenBy workerCapacity kinds maxActivePerUser now) :=
    greedy_onePass (candidates_nodup kinds now q) _ _
  have hlength : (q.takenBy workerCapacity kinds maxActivePerUser now).length ≤
      workerCapacity := length_onePass_le _ _ _
  refine ⟨q.candidates kinds now, q.takenBy workerCapacity kinds maxActivePerUser now,
    ?_⟩
  constructor
  case scanned => exact scanOrder_candidates kinds now q
  case greedy => exact hgreedy
  case returned => exact claimNext_returned
  case rows =>
    rw [claimNext_jobs]
    simp [Table.modifyWhere]
  case atMost => exact hlength
  case capped =>
    intro j hj hcap
    obtain ⟨before, after, horder⟩ := List.append_of_mem (hgreedy.sublist.subset hj)
    obtain ⟨-, hplace⟩ := (hgreedy.mem_iff horder).mp hj
    have hbelow := (belowCap_iff.mp hplace).resolve_left (by omega)
    have hbefore : q.activeCounts j.userId ≤ countsWith QueuedJob.userId
        q.activeCounts (among QueuedJob.id before
          (q.takenBy workerCapacity kinds maxActivePerUser now)) j.userId :=
      Nat.le_add_right _ _
    have hfits : ∀ m, BelowCap maxActivePerUser m → m < maxActivePerUser.toNat := by
      intro m hm
      have hlt := (belowCap_iff.mp hm).resolve_left (by omega)
      omega
    have hafter : countsWith QueuedJob.userId q.activeCounts
        (q.takenBy workerCapacity kinds maxActivePerUser now) j.userId ≤
          max (q.activeCounts j.userId) maxActivePerUser.toNat :=
      countsWith_onePass_le hfits j.userId _ _ _
    rw [activeCounts_claimNext]
    omega
  case leftBehind =>
    intro before after j horder hj
    have hsub : (among QueuedJob.id before (q.takenBy workerCapacity kinds
        maxActivePerUser now)).Sublist
          (q.takenBy workerCapacity kinds maxActivePerUser now) :=
      List.filter_sublist
    rcases hgreedy.left_behind horder hj with hroom | hplace
    · have hle := hsub.length_le
      left
      omega
    · have hmono : countsWith QueuedJob.userId q.activeCounts _ j.userId ≤
          countsWith QueuedJob.userId q.activeCounts _ j.userId :=
        countsWith_mono q.activeCounts hsub j.userId
      rw [belowCap_iff] at hplace
      rw [activeCounts_claimNext]
      right
      omega

end Claim

end InMemoryJobQueue

end Imagin4.Ports
