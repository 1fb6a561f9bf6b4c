import Mathlib.Algebra.Order.Ring.Rat
import Mathlib.Tactic.Linarith
import Imagin4.Verified.Selection
import Imagin4.Ports.MemoryQueue
import Imagin4.Ports.PostgresQueue

/-!
# One order of claims

The two adapters choose what to claim in different ways: the in-memory queue sorts
its candidates once and takes them in one pass, with running counts of each user's
jobs; the database updates the first rows of a query in one statement or, with a
cap per user, runs a statement that ranks and counts again for every row.

Jobs that admission has made have no priority of their own, so the aged priority
of the database orders them by `queued_at`, as the in-memory queue does.

## Main results

* `PostgresJobQueue.claimCapped_ids` — the statements of the capped claim take one
  row after another as `restarting` does.
* `InMemoryJobQueue.claimLoop_onePass` — the pass of the in-memory queue is
  `onePass`.
* `claims_agree` — both adapters claim the same jobs.
-/

namespace Imagin4.Ports

open Imagin4.Verified

/-! ## Arrivals -/

/-- What the order of claims depends on. -/
structure Arrival where
  queuedAt : DateTime
  id : Uuid
  userId : Uuid
deriving DecidableEq

/-- No two arrivals have the same time. -/
def Apart (as : List Arrival) : Prop :=
  ∀ a ∈ as, ∀ b ∈ as, a.queuedAt = b.queuedAt → a = b

/-- First come, first served. -/
def inOrder (as : List Arrival) : List Arrival :=
  as.insertionSort (fun a b => a.queuedAt ≤ b.queuedAt)

theorem perm_inOrder (as : List Arrival) : (inOrder as).Perm as :=
  List.perm_insertionSort _ as

theorem pairwise_inOrder (as : List Arrival) :
    (inOrder as).Pairwise (fun a b => a.queuedAt ≤ b.queuedAt) := by
  have : Std.Total (fun a b : Arrival => a.queuedAt ≤ b.queuedAt) :=
    ⟨fun a b => Int.le_total _ _⟩
  have : IsTrans Arrival (fun a b => a.queuedAt ≤ b.queuedAt) :=
    ⟨fun a b c => Int.le_trans⟩
  exact List.pairwise_insertionSort _ as

/-- Arrivals that are apart have one order only. -/
theorem eq_inOrder {as bs : List Arrival} (hapart : Apart as)
    (hperm : bs.Perm as) (hsorted : bs.Pairwise (fun a b => a.queuedAt ≤ b.queuedAt)) :
    bs = inOrder as := by
  refine List.Perm.eq_of_pairwise ?_ hsorted (pairwise_inOrder as)
    (hperm.trans (perm_inOrder as).symm)
  intro a b ha hb hab hba
  exact hapart a (hperm.subset ha) b ((perm_inOrder as).subset hb)
    (Int.le_antisymm hab hba)

theorem inOrder_congr {as bs : List Arrival} (hapart : Apart as)
    (hperm : bs.Perm as) : inOrder bs = inOrder as :=
  eq_inOrder hapart ((perm_inOrder bs).trans hperm) (pairwise_inOrder bs)

theorem inOrder_filter {as : List Arrival} (hapart : Apart as)
    (p : Arrival → Bool) : inOrder (as.filter p) = (inOrder as).filter p := by
  have hapart' : Apart (as.filter p) := by
    intro a ha b hb
    exact hapart a (List.mem_of_mem_filter ha) b (List.mem_of_mem_filter hb)
  exact (eq_inOrder hapart' ((perm_inOrder as).filter p)
    ((pairwise_inOrder as).filter p)).symm

/-! ## The in-memory queue -/

namespace InMemoryJobQueue

/-- When a job arrived. -/
def arrival (j : QueuedJob) : Arrival := ⟨j.queuedAt, j.id, j.userId⟩

/-- The job is below the cap; a cap that is not positive is none. -/
def BelowCap (maxActivePerUser : Int) (count : Nat) : Prop :=
  ¬ (0 < maxActivePerUser ∧ maxActivePerUser ≤ count)

instance (maxActivePerUser : Int) : DecidablePred (BelowCap maxActivePerUser) :=
  fun count => by
    unfold BelowCap
    infer_instance

/-- The loop of the claim is one pass. -/
theorem claimLoop_onePass (maxActivePerUser : Int) (jobs : List QueuedJob) :
    ∀ (n workerCapacity : Nat) (counts : Uuid → Nat) (claimed : List QueuedJob),
      workerCapacity = claimed.length + n →
      claimLoop workerCapacity maxActivePerUser jobs counts claimed =
        claimed ++ (onePass QueuedJob.userId (BelowCap maxActivePerUser) n counts
          jobs).map (fun j => { j with state := .dispatched }) := by
  induction jobs with
  | nil =>
      intro n workerCapacity counts claimed _
      simp [claimLoop, onePass]
  | cons job rest ih =>
      intro n workerCapacity counts claimed hn
      rw [claimLoop]
      cases n with
      | zero =>
          rw [if_pos (by omega), onePass_zero]
          simp
      | succ n =>
          rw [if_neg (by omega), onePass]
          by_cases hcap : 0 < maxActivePerUser ∧
              maxActivePerUser ≤ counts job.userId
          · have hskip : ¬ BelowCap maxActivePerUser (counts job.userId) :=
              not_not_intro hcap
            rw [if_pos hcap, if_neg hskip, ih (n + 1) workerCapacity _ _ hn]
          · have htake : BelowCap maxActivePerUser (counts job.userId) := hcap
            have hcounts : (fun user => if user = job.userId then counts user + 1
                else counts user) = bump counts job.userId := rfl
            rw [if_neg hcap, if_pos htake, hcounts,
              ih n workerCapacity _ _ (by simp; omega)]
            simp

/-- The pass, seen in the arrivals. -/
theorem claimLoop_ids (maxActivePerUser : Int) (jobs : List QueuedJob) (n : Nat)
    (counts : Uuid → Nat) :
    (claimLoop n maxActivePerUser jobs counts []).map QueuedJob.id =
      (onePass Arrival.userId (BelowCap maxActivePerUser) n counts
        (jobs.map arrival)).map Arrival.id := by
  have howner : ∀ j, (arrival j).userId = j.userId := fun _ => rfl
  rw [claimLoop_onePass maxActivePerUser jobs n n counts [] (by simp),
    onePass_map howner]
  simp [arrival]

/-- What the in-memory queue claims. -/
theorem claimNext_ids (workerCapacity : Nat) (kinds : Option (List String))
    (maxActivePerUser : Int) (now : DateTime) (q : InMemoryJobQueue)
    (hplain : ∀ j ∈ q.jobs.rows, j.effectivePriority = 0) :
    (q.claimNext workerCapacity kinds maxActivePerUser now).2.map QueuedJob.id =
      (onePass Arrival.userId (BelowCap maxActivePerUser) workerCapacity
        q.activeCounts (inOrder ((q.jobs.rows.filter
          (eligible kinds now)).map arrival))).map Arrival.id := by
  have horder : (q.candidates kinds now).map arrival =
      inOrder ((q.jobs.rows.filter (eligible kinds now)).map arrival) := by
    refine List.map_insertionSort _ _ arrival _ ?_
    intro i hi j hj
    simp [ClaimsBefore, arrival, hplain i (List.mem_of_mem_filter hi),
      hplain j (List.mem_of_mem_filter hj)]
  rw [← horder]
  exact claimLoop_ids maxActivePerUser _ workerCapacity _

end InMemoryJobQueue

/-! ## The queue in the database -/

namespace PostgresJobQueue

/-- When a job arrived. -/
def arrival (g : JobRow) : Arrival := ⟨g.queuedAt, g.id, g.userId⟩

/-- The arrivals of the rows that can be claimed, if no other transaction holds a
row. -/
def arrivals (kinds : Option (List String)) (now : DateTime)
    (q : PostgresJobQueue) : List Arrival :=
  (q.generationJobs.rows.filter (eligible kinds [] now)).map arrival

/-- No row has a priority, and no two rows arrived at the same time. -/
structure Plain (q : PostgresJobQueue) : Prop where
  priority : ∀ g ∈ q.generationJobs.rows, g.priority = 0
  apart : ∀ g ∈ q.generationJobs.rows, ∀ h ∈ q.generationJobs.rows,
    g.queuedAt = h.queuedAt → g = h

variable {q : PostgresJobQueue} {req : ClaimRequest} {now : DateTime}
  {kinds : Option (List String)}

/-- Who has waited longer has the higher aged priority. -/
theorem claimsBefore_iff {g h : JobRow} (hg : g.priority = 0)
    (hh : h.priority = 0) :
    ClaimsBefore now g h ↔ g.queuedAt ≤ h.queuedAt := by
  unfold ClaimsBefore agedPriority agingIncrementPerMinute totalSeconds
  rw [hg, hh]
  push_cast
  constructor
  · rintro (hlt | ⟨_, hle⟩)
    · have hcast : (g.queuedAt : Rat) < h.queuedAt := by linarith
      exact le_of_lt (by exact_mod_cast hcast)
    · exact hle
  · intro hle
    rcases hle.lt_or_eq with hlt | heq
    · left
      have hcast : (g.queuedAt : Rat) < h.queuedAt := by exact_mod_cast hlt
      linarith
    · exact .inr ⟨by rw [heq], le_of_eq heq⟩

theorem map_ordered (hq : Plain q) (now : DateTime) (p : JobRow → Bool) :
    (q.ordered now p).map arrival =
      inOrder ((q.generationJobs.rows.filter p).map arrival) := by
  refine List.map_insertionSort _ _ arrival _ ?_
  intro g hg h hh
  exact claimsBefore_iff (hq.priority g (List.mem_of_mem_filter hg))
    (hq.priority h (List.mem_of_mem_filter hh))

theorem Plain.apart_map (hq : Plain q) (p : JobRow → Bool) :
    Apart ((q.generationJobs.rows.filter p).map arrival) := by
  intro a ha b hb hab
  obtain ⟨g, hg, rfl⟩ := List.mem_map.mp ha
  obtain ⟨h, hh, rfl⟩ := List.mem_map.mp hb
  rw [hq.apart g (List.mem_of_mem_filter hg) h (List.mem_of_mem_filter hh) hab]

/-- The claim in one statement. -/
theorem claimBatch_ids (hq : Plain q) :
    (q.claimBatch req [] now).2.map QueuedJob.id =
      ((inOrder (q.arrivals req.kinds now)).take req.workerCapacity).map
        Arrival.id := by
  rw [arrivals, ← map_ordered hq now, ← List.map_take, List.map_map]
  simp [claimBatch, claimedJob, rowToQueuedJob, Function.comp_def, arrival]

/-- The row that a statement of the capped claim picks. -/
theorem nextCapped_arrival (req : ClaimRequest) (now : DateTime) (hq : Plain q) :
    (q.nextCapped req [] now).map arrival =
      (inOrder (q.arrivals req.kinds now)).find? (fun a =>
        (q.activeOfUser a.userId : Int) < req.maxActivePerUser) := by
  have hfilter : (q.generationJobs.rows.filter (fun g =>
      eligible req.kinds [] now g &&
        decide ((q.activeOfUser g.userId : Int) < req.maxActivePerUser))).map
          arrival =
      (q.arrivals req.kinds now).filter (fun a =>
        (q.activeOfUser a.userId : Int) < req.maxActivePerUser) := by
    rw [arrivals, List.filter_map, List.filter_filter]
    congr 2
    funext g
    rw [Bool.and_comm]
    rfl
  unfold nextCapped
  have hapart : Apart (q.arrivals req.kinds now) := hq.apart_map _
  rw [← List.head?_map, map_ordered hq, hfilter, inOrder_filter hapart,
    List.head?_filter]

/-- The state after a row has been claimed. -/
def afterRow (req : ClaimRequest) (now : DateTime) (q : PostgresJobQueue)
    (row : JobRow) : PostgresJobQueue :=
  (q.dispatchRows [row.id]).recordAttempt { row with state := .dispatched }
    req.leaseOwner (now + timedelta req.leaseSeconds)

theorem rows_afterRow (row : JobRow) :
    (q.afterRow req now row).generationJobs.rows =
      q.generationJobs.rows.map (fun g =>
        if g.id = row.id then { g with state := .dispatched } else g) := by
  show q.generationJobs.rows.map _ = _
  simp

theorem Plain.afterRow (hq : Plain q) (row : JobRow) :
    Plain (q.afterRow req now row) := by
  have hold : ∀ g ∈ (q.afterRow req now row).generationJobs.rows,
      ∃ g₀ ∈ q.generationJobs.rows, g.priority = g₀.priority ∧
        g.queuedAt = g₀.queuedAt ∧
        g = if g₀.id = row.id then { g₀ with state := .dispatched } else g₀ := by
    intro g hg
    rw [rows_afterRow] at hg
    obtain ⟨g₀, hmem, rfl⟩ := List.mem_map.mp hg
    refine ⟨g₀, hmem, ?_, ?_, rfl⟩
    · split <;> rfl
    · split <;> rfl
  constructor
  · intro g hg
    obtain ⟨g₀, hmem, hpriority, _⟩ := hold g hg
    rw [hpriority, hq.priority g₀ hmem]
  · intro g hg h hh hsame
    obtain ⟨g₀, hmemg, _, hqg, hg₀⟩ := hold g hg
    obtain ⟨h₀, hmemh, _, hqh, hh₀⟩ := hold h hh
    have heq : g₀ = h₀ := hq.apart g₀ hmemg h₀ hmemh (by rw [← hqg, ← hqh, hsame])
    rw [hg₀, hh₀, heq]

variable {row : JobRow}

theorem eq_row_of_id (hrow : q.generationJobs.find? row.id = some row) {g : JobRow}
    (hg : g ∈ q.generationJobs.rows) (hid : g.id = row.id) : g = row :=
  Table.eq_of_key_eq hg (Table.find?_eq_some_iff.mp hrow).1 hid

/-- The row that has been claimed can be claimed no more. -/
theorem arrivals_afterRow (hrow : q.generationJobs.find? row.id = some row) :
    (q.afterRow req now row).arrivals kinds now =
      (q.arrivals kinds now).filter (fun a => a ≠ arrival row) := by
  have hlist : ∀ rows : List JobRow, (∀ g ∈ rows, g.id = row.id → g = row) →
      ((rows.map (fun g => if g.id = row.id then { g with state := .dispatched }
        else g)).filter (eligible kinds [] now)).map arrival =
      ((rows.filter (eligible kinds [] now)).map arrival).filter
        (fun a => a ≠ arrival row) := by
    intro rows
    induction rows with
    | nil => exact fun _ => rfl
    | cons g rest ih =>
        intro hunique
        have hrest := ih (fun h hh => hunique h (List.mem_cons_of_mem g hh))
        rw [List.map_cons]
        by_cases hid : g.id = row.id
        · have hg := hunique g List.mem_cons_self hid
          subst hg
          rw [if_pos rfl, List.filter_cons_of_neg (by
            simp [eligible, JobState.isWaiting]), hrest]
          by_cases hg : eligible kinds [] now g = true
          · rw [List.filter_cons_of_pos hg, List.map_cons,
              List.filter_cons_of_neg (by simp)]
          · rw [List.filter_cons_of_neg hg]
        · have hne : arrival g ≠ arrival row :=
            fun heq => hid (congrArg Arrival.id heq)
          rw [if_neg hid]
          by_cases hg : eligible kinds [] now g = true
          · rw [List.filter_cons_of_pos hg, List.filter_cons_of_pos hg,
              List.map_cons, List.map_cons, hrest,
              List.filter_cons_of_pos (by simpa using hne)]
          · rw [List.filter_cons_of_neg hg, List.filter_cons_of_neg hg, hrest]
  unfold arrivals
  rw [rows_afterRow]
  exact hlist _ (fun g hg hid => eq_row_of_id hrow hg hid)

/-- It counts for its user. -/
theorem activeOfUser_afterRow (hrow : q.generationJobs.find? row.id = some row)
    (hwaits : row.state.isWaiting = true) :
    (q.afterRow req now row).activeOfUser = bump q.activeOfUser row.userId := by
  have hidle := JobState.not_active_of_waiting hwaits
  obtain ⟨before, after, hrows⟩ :=
    List.append_of_mem (Table.find?_eq_some_iff.mp hrow).1
  have hkeys := q.generationJobs.nodup
  rw [hrows, List.map_append, List.map_cons] at hkeys
  have hother : ∀ g ∈ before ++ after, g.id ≠ row.id := by
    intro g hg hid
    have hkeys' := List.nodup_middle.mp hkeys
    refine (List.nodup_cons.mp hkeys').1 ?_
    rw [← List.map_append, ← hid]
    exact List.mem_map_of_mem hg
  have hsame : ∀ rows : List JobRow, (∀ g ∈ rows, g.id ≠ row.id) →
      rows.map (fun g => if g.id = row.id then { g with state := .dispatched }
        else g) = rows := by
    intro rows hrows
    refine (List.map_congr_left (fun g hg => if_neg (hrows g hg))).trans ?_
    exact List.map_id' rows
  funext user
  unfold activeOfUser bump
  rw [rows_afterRow, hrows, List.map_append, List.map_cons,
    hsame before (fun g hg => hother g (List.mem_append_left _ hg)),
    hsame after (fun g hg => hother g (List.mem_append_right _ hg)),
    if_pos rfl]
  simp only [List.countP_append, List.countP_cons]
  have hactive : JobState.dispatched.isActive = true := rfl
  by_cases huser : user = row.userId
  · simp [huser, hidle, hactive]
    omega
  · simp [huser, Ne.symm huser]

/-- The statements of the capped claim, one after another. -/
theorem claimCapped_ids (req : ClaimRequest) (now : DateTime) (n : Nat) :
    ∀ q : PostgresJobQueue, Plain q →
      (q.claimCapped req [] now n).2.map QueuedJob.id =
        (restarting Arrival.userId (fun count => (count : Int) <
          req.maxActivePerUser) n q.activeOfUser
          (inOrder (q.arrivals req.kinds now))).map Arrival.id := by
  induction n with
  | zero => exact fun _ _ => rfl
  | succ n ih =>
      intro q hq
      have hpick := nextCapped_arrival req now hq
      rw [claimCapped, restarting, ← hpick]
      cases hnext : q.nextCapped req [] now with
      | none => rfl
      | some row =>
          obtain ⟨hrow, helig, _⟩ := of_nextCapped hnext
          have hapart : Apart (q.arrivals req.kinds now) := hq.apart_map _
          have hrest := ih (q.afterRow req now row) (hq.afterRow row)
          rw [arrivals_afterRow hrow, inOrder_filter hapart,
            activeOfUser_afterRow hrow (waiting_of_eligible helig)] at hrest
          exact congrArg (List.cons row.id) hrest

/-- At no statement of the capped claim is a candidate left out for the cap. -/
def CapIdle (req : ClaimRequest) (now : DateTime) : Nat → PostgresJobQueue → Prop
  | 0, _ => True
  | n + 1, q =>
      (∀ g ∈ q.generationJobs.rows, eligible req.kinds [] now g = true →
        (q.activeOfUser g.userId : Int) < req.maxActivePerUser) ∧
      ∀ row, q.nextCapped req [] now = some row →
        CapIdle req now n (q.afterRow req now row)

theorem nodup_arrivals (kinds : Option (List String)) (now : DateTime)
    (q : PostgresJobQueue) : (inOrder (q.arrivals kinds now)).Nodup := by
  refine (perm_inOrder _).nodup_iff.mpr (List.Nodup.of_map Arrival.id ?_)
  rw [arrivals, List.map_map]
  exact q.generationJobs.nodup.sublist (List.filter_sublist.map _)

/-- A cap that is never reached leaves the first to be claimed. -/
theorem claimCapped_idle (req : ClaimRequest) (now : DateTime) (n : Nat) :
    ∀ q : PostgresJobQueue, Plain q → CapIdle req now n q →
      (q.claimCapped req [] now n).2.map QueuedJob.id =
        ((inOrder (q.arrivals req.kinds now)).take n).map Arrival.id := by
  induction n with
  | zero => exact fun _ _ _ => rfl
  | succ n ih =>
      intro q hq hidle
      have hpick := nextCapped_arrival req now hq
      have hbelow : ∀ a ∈ inOrder (q.arrivals req.kinds now),
          (q.activeOfUser a.userId : Int) < req.maxActivePerUser := by
        intro a ha
        obtain ⟨g, hg, rfl⟩ := List.mem_map.mp ((perm_inOrder _).subset ha)
        obtain ⟨hmem, helig⟩ := List.mem_filter.mp hg
        exact hidle.1 g hmem helig
      have hnodup := nodup_arrivals req.kinds now q
      have hapart : Apart (q.arrivals req.kinds now) := hq.apart_map _
      rw [claimCapped]
      cases hlist : inOrder (q.arrivals req.kinds now) with
      | nil =>
          rw [hlist] at hpick
          rw [Option.map_eq_none_iff.mp hpick]
          rfl
      | cons a rest =>
          rw [hlist] at hpick hbelow hnodup
          rw [List.find?_cons_of_pos (by simpa using hbelow a List.mem_cons_self)]
            at hpick
          obtain ⟨row, hnext, rfl⟩ := Option.map_eq_some_iff.mp hpick
          obtain ⟨hrow, helig, _⟩ := of_nextCapped hnext
          have hrest := ih (q.afterRow req now row) (hq.afterRow row)
            (hidle.2 row hnext)
          have hleft : (arrival row :: rest).filter (fun b => b ≠ arrival row) =
              rest := by
            rw [List.filter_cons_of_neg (by simp)]
            refine List.filter_eq_self.mpr (fun b hb => ?_)
            have hne : b ≠ arrival row := by
              rintro rfl
              exact (List.nodup_cons.mp hnodup).1 hb
            simpa using hne
          rw [arrivals_afterRow hrow, inOrder_filter hapart, hlist, hleft] at hrest
          rw [hnext, List.take_succ_cons, List.map_cons]
          exact congrArg (List.cons row.id) hrest

end PostgresJobQueue

/-! ## Both queues -/

/-- A row and a job object that are one job, as far as claims look at it.  A row
that was enqueued without `available_at` has `queued_at` in its place. -/
structure OneAndTheSame (j : QueuedJob) (g : JobRow) : Prop where
  id : g.id = j.id
  userId : g.userId = j.userId
  kind : g.kind = j.kind
  state : g.state = j.state
  priority : g.priority = j.priority
  queuedAt : g.queuedAt = j.queuedAt
  availableAt : g.availableAt = j.availableAt.getD j.queuedAt

/-- The two queues hold the same jobs. -/
def HoldSame (q : InMemoryJobQueue) (p : PostgresJobQueue) : Prop :=
  ∀ id, Option.Rel OneAndTheSame (q.get id) (p.generationJobs.find? id)

/-- The jobs are as admission makes them: they have no priority, and arrived at
different times, none of them later than now. -/
structure Arrived (q : InMemoryJobQueue) (now : DateTime) : Prop where
  priority : ∀ j ∈ q.jobs.rows, j.priority = 0 ∧ j.effectivePriority = 0
  apart : ∀ i ∈ q.jobs.rows, ∀ j ∈ q.jobs.rows, i.queuedAt = j.queuedAt → i = j
  past : ∀ j ∈ q.jobs.rows, j.queuedAt ≤ now

section Both

variable {q : InMemoryJobQueue} {p : PostgresJobQueue} {now : DateTime}
  {req : ClaimRequest}

theorem HoldSame.row (h : HoldSame q p) {j : QueuedJob} (hj : j ∈ q.jobs.rows) :
    ∃ g ∈ p.generationJobs.rows, OneAndTheSame j g := by
  have hrel := h j.id
  rw [show q.get j.id = some j from Table.find?_key hj] at hrel
  cases hfind : p.generationJobs.find? j.id with
  | none =>
      rw [hfind] at hrel
      cases hrel
  | some g =>
      rw [hfind] at hrel
      cases hrel with
      | some hsame => exact ⟨g, (Table.find?_eq_some_iff.mp hfind).1, hsame⟩

theorem HoldSame.job (h : HoldSame q p) {g : JobRow}
    (hg : g ∈ p.generationJobs.rows) : ∃ j ∈ q.jobs.rows, OneAndTheSame j g := by
  have hrel := h g.id
  rw [show p.generationJobs.find? g.id = some g from Table.find?_key hg] at hrel
  cases hfind : q.get g.id with
  | none =>
      rw [hfind] at hrel
      cases hrel
  | some j =>
      rw [hfind] at hrel
      cases hrel with
      | some hsame => exact ⟨j, (Table.find?_eq_some_iff.mp hfind).1, hsame⟩

theorem plain_of_holdSame (h : HoldSame q p) (hq : Arrived q now) :
    PostgresJobQueue.Plain p := by
  constructor
  · intro g hg
    obtain ⟨j, hj, hsame⟩ := h.job hg
    rw [hsame.priority, (hq.priority j hj).1]
  · intro g hg g' hg' hqueued
    obtain ⟨j, hj, hsame⟩ := h.job hg
    obtain ⟨j', hj', hsame'⟩ := h.job hg'
    have hjj' : j = j' :=
      hq.apart j hj j' hj' (by rw [← hsame.queuedAt, ← hsame'.queuedAt, hqueued])
    subst hjj'
    exact Table.eq_of_key_eq hg hg' (hsame.id.trans hsame'.id.symm)

/-- What meets a condition that both sides see alike is the same on both. -/
theorem HoldSame.perm (h : HoldSame q p) {P : QueuedJob → Bool} {R : JobRow → Bool}
    (hPR : ∀ j ∈ q.jobs.rows, ∀ g, OneAndTheSame j g → R g = P j) :
    ((p.generationJobs.rows.filter R).map PostgresJobQueue.arrival).Perm
      ((q.jobs.rows.filter P).map InMemoryJobQueue.arrival) := by
  have harrival : ∀ {j g}, OneAndTheSame j g →
      PostgresJobQueue.arrival g = InMemoryJobQueue.arrival j := by
    intro j g hsame
    unfold PostgresJobQueue.arrival InMemoryJobQueue.arrival
    rw [hsame.queuedAt, hsame.id, hsame.userId]
  have hrows : ((p.generationJobs.rows.filter R).map
      PostgresJobQueue.arrival).Nodup := by
    refine List.Nodup.of_map Arrival.id ?_
    rw [List.map_map]
    exact p.generationJobs.nodup.sublist (List.filter_sublist.map _)
  have hjobs : ((q.jobs.rows.filter P).map InMemoryJobQueue.arrival).Nodup := by
    refine List.Nodup.of_map Arrival.id ?_
    rw [List.map_map]
    exact q.jobs.nodup.sublist (List.filter_sublist.map _)
  refine (List.perm_ext_iff_of_nodup hrows hjobs).mpr (fun a => ?_)
  constructor
  · intro ha
    obtain ⟨g, hg, rfl⟩ := List.mem_map.mp ha
    obtain ⟨hmem, hR⟩ := List.mem_filter.mp hg
    obtain ⟨j, hj, hsame⟩ := h.job hmem
    rw [harrival hsame]
    exact List.mem_map_of_mem (List.mem_filter.mpr ⟨hj, hPR j hj g hsame ▸ hR⟩)
  · intro ha
    obtain ⟨j, hj, rfl⟩ := List.mem_map.mp ha
    obtain ⟨hmem, hP⟩ := List.mem_filter.mp hj
    obtain ⟨g, hg, hsame⟩ := h.row hmem
    rw [← harrival hsame]
    exact List.mem_map_of_mem
      (List.mem_filter.mpr ⟨hg, (hPR j hmem g hsame).trans hP⟩)

theorem eligible_iff (hq : Arrived q now) (kinds : Option (List String))
    {j : QueuedJob} (hj : j ∈ q.jobs.rows) {g : JobRow}
    (hsame : OneAndTheSame j g) :
    PostgresJobQueue.eligible kinds [] now g =
      InMemoryJobQueue.eligible kinds now j := by
  unfold PostgresJobQueue.eligible InMemoryJobQueue.eligible
  rw [hsame.state, hsame.kind, hsame.availableAt]
  cases j.availableAt with
  | none => simp [hq.past j hj]
  | some t => simp [Bool.and_right_comm]

theorem activeOfUser_eq_activeCounts (h : HoldSame q p) :
    p.activeOfUser = q.activeCounts := by
  funext user
  unfold PostgresJobQueue.activeOfUser InMemoryJobQueue.activeCounts
  have hperm := h.perm (P := fun j => j.userId = user && j.state.isActive)
    (R := fun g => g.userId = user && g.state.isActive)
    (fun j _ g hsame => by rw [hsame.userId, hsame.state])
  have hlength := hperm.length_eq
  rw [List.length_map, List.length_map, ← List.countP_eq_length_filter,
    ← List.countP_eq_length_filter] at hlength
  exact hlength

/-- **One order.**  Run alone on the same jobs, both adapters claim the same ones;
and the claim with a cap that is never reached claims what the claim without a cap
does. -/
theorem claims_agree (q : InMemoryJobQueue) (p : PostgresJobQueue) (now : DateTime)
    (hsame : HoldSame q p) (hq : Arrived q now) :
    (∀ req : ClaimRequest, (p.claim req [] now).2.map QueuedJob.id =
      (q.claimNext req.workerCapacity req.kinds req.maxActivePerUser now).2.map
        QueuedJob.id) ∧
    ∀ req : ClaimRequest, 0 < req.maxActivePerUser →
      PostgresJobQueue.CapIdle req now req.workerCapacity p →
      (p.claim req [] now).2.map QueuedJob.id =
        (p.claim { req with maxActivePerUser := 0 } [] now).2.map QueuedJob.id := by
  have hp := plain_of_holdSame hsame hq
  constructor
  · intro req
    have hperm : (p.arrivals req.kinds now).Perm ((q.jobs.rows.filter
        (InMemoryJobQueue.eligible req.kinds now)).map InMemoryJobQueue.arrival) :=
      hsame.perm (fun j hj g h => eligible_iff hq req.kinds hj h)
    have hapart : Apart (p.arrivals req.kinds now) := hp.apart_map _
    have horder := inOrder_congr hapart hperm.symm
    rw [InMemoryJobQueue.claimNext_ids _ _ _ _ q (fun j hj => (hq.priority j hj).2),
      horder, ← activeOfUser_eq_activeCounts hsame]
    unfold PostgresJobQueue.claim
    by_cases hcapacity : req.workerCapacity = 0
    · rw [if_pos hcapacity, hcapacity, onePass_zero]
      rfl
    · rw [if_neg hcapacity]
      by_cases hcap : req.maxActivePerUser ≤ 0
      · rw [if_pos hcap, PostgresJobQueue.claimBatch_ids hp, onePass_eq_take]
        intro n
        unfold InMemoryJobQueue.BelowCap
        omega
      · rw [if_neg hcap, PostgresJobQueue.claimCapped_ids req now _ p hp,
          restarting_eq_onePass (fun m n hmn h => by omega)
            (PostgresJobQueue.nodup_arrivals req.kinds now p)]
        refine congrArg (List.map Arrival.id) (onePass_congr (fun n => ?_) _ _ _)
        unfold InMemoryJobQueue.BelowCap
        omega
  · intro req hcap hidle
    have hbatch : (p.claim { req with maxActivePerUser := 0 } [] now).2.map
        QueuedJob.id = ((inOrder (p.arrivals req.kinds now)).take
          req.workerCapacity).map Arrival.id := by
      unfold PostgresJobQueue.claim
      by_cases hcapacity : req.workerCapacity = 0
      · simp [hcapacity]
      · rw [if_neg hcapacity, if_pos (Int.le_refl 0)]
        exact PostgresJobQueue.claimBatch_ids hp
    rw [hbatch]
    unfold PostgresJobQueue.claim
    by_cases hcapacity : req.workerCapacity = 0
    · simp [hcapacity]
    · rw [if_neg hcapacity, if_neg (by omega)]
      exact PostgresJobQueue.claimCapped_idle req now _ p hp hidle

end Both

/-! ## Two jobs of one user -/

theorem holdSame_of_rows {jobs : List QueuedJob} {rows : List JobRow}
    (h : List.Forall₂ OneAndTheSame jobs rows) :
    ∀ id, Option.Rel OneAndTheSame (jobs.find? (fun j => j.id = id))
      (rows.find? (fun g => g.id = id)) := by
  intro id
  induction h with
  | nil => exact .none
  | @cons j g jobs rows hsame _ ih =>
      by_cases hid : j.id = id
      · rw [List.find?_cons_of_pos (by simpa using hid),
          List.find?_cons_of_pos (by simpa [hsame.id] using hid)]
        exact .some hsame
      · rw [List.find?_cons_of_neg (by simpa using hid),
          List.find?_cons_of_neg (by simpa [hsame.id] using hid)]
        exact ih

/-- A queued job of user 7. -/
def queuedJob (id : Uuid) (queuedAt : DateTime) : QueuedJob where
  id := id
  userId := 7
  kind := "image_basic"
  state := .queued
  priority := 0
  effectivePriority := 0
  inputPayload := .null
  idempotencyKey := "key-" ++ toString id
  queuedAt := queuedAt

/-- Two queued jobs in memory. -/
def twoInMemory : InMemoryJobQueue :=
  (InMemoryJobQueue.empty.enqueue (queuedJob 1 0)).enqueue (queuedJob 2 1)

/-- The same jobs in the database. -/
def twoInDatabase : PostgresJobQueue :=
  (PostgresJobQueue.empty.enqueue (queuedJob 1 0)).enqueue (queuedJob 2 1)

/-- A claim for two workers and one job of a user at a time. -/
def claimForTwo : ClaimRequest :=
  { workerCapacity := 2, leaseOwner := "s", leaseSeconds := 60
    maxActivePerUser := 1 }

/-- A claim for one worker, with a cap that is far away. -/
def claimForOne : ClaimRequest :=
  { workerCapacity := 1, leaseOwner := "s", leaseSeconds := 60
    maxActivePerUser := 3 }

theorem claims_agree_two :
    (twoInDatabase.claim claimForTwo [] 5).2.map QueuedJob.id =
      (twoInMemory.claimNext 2 none 1 5).2.map QueuedJob.id ∧
    (twoInDatabase.claim claimForOne [] 5).2.map QueuedJob.id =
      (twoInDatabase.claim { claimForOne with maxActivePerUser := 0 } [] 5).2.map
        QueuedJob.id := by
  have hrows : List.Forall₂ OneAndTheSame twoInMemory.jobs.rows
      twoInDatabase.generationJobs.rows :=
    .cons ⟨rfl, rfl, rfl, rfl, rfl, rfl, rfl⟩
      (.cons ⟨rfl, rfl, rfl, rfl, rfl, rfl, rfl⟩ .nil)
  have hjobs : twoInMemory.jobs.rows = [queuedJob 1 0, queuedJob 2 1] := rfl
  have harrived : Arrived twoInMemory 5 := by
    constructor
    · rw [hjobs]
      simp [queuedJob]
    · rw [hjobs]
      simp [queuedJob]
    · rw [hjobs]
      simp [queuedJob]
  have hagree := claims_agree twoInMemory twoInDatabase 5 (holdSame_of_rows hrows)
    harrived
  have hidle : PostgresJobQueue.CapIdle claimForOne 5 1 twoInDatabase :=
    ⟨by decide, fun _ _ => trivial⟩
  exact ⟨hagree.1 claimForTwo, hagree.2 claimForOne (by decide) hidle⟩

end Imagin4.Ports
