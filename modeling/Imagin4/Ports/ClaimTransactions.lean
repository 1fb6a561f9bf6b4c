import Imagin4.Ports.ActiveJobs
import Imagin4.Ports.JobSystem

/-!
# The claim transactions of several schedulers

`PostgresJobQueue._claim` with a per-user cap, one statement at a time, under
READ COMMITTED: a transaction takes the advisory lock, then each round runs one
`UPDATE` that reads its candidates and counts from the snapshot of that
statement and looks at the row again once it is locked, until no row is left or
the capacity is spent.  Its writes are seen by itself alone until it commits.
Any number of such transactions are interleaved with each other and with
committed transactions that end, retry, cancel, run or enqueue jobs.

The lock makes the claim loops serial, and every other transaction only lowers
the count of a user, so a count below the cap in the snapshot is below the cap
when the row is written.

## Main results

* `claim_uninterrupted` — a claim transaction nothing comes between is
  `PostgresJobQueue.claimCapped`.
* `capInv_step` — the invariant: the cap holds for the committed rows and for
  what each open transaction sees.
* `activeOfUser_le_run` — the cap in every committed state.
-/

namespace Imagin4.Ports

open Imagin4.Verified

namespace PostgresJobQueue

/-! ## One round of the claim loop -/

/-- The writes of one round: the row is dispatched, and its attempt recorded. -/
def takeRow (req : ClaimRequest) (now : DateTime) (q : PostgresJobQueue)
    (row : JobRow) : PostgresJobQueue :=
  (q.dispatchRows [row.id]).recordAttempt { row with state := .dispatched }
    req.leaseOwner (now + timedelta req.leaseSeconds)

/-- The `WHERE` of `single_stmt`, with the count taken from `snapshot`. -/
def belowCap (req : ClaimRequest) (locked : List Uuid) (now : DateTime)
    (snapshot : PostgresJobQueue) (g : JobRow) : Bool :=
  eligible req.kinds locked now g &&
    decide ((snapshot.activeOfUser g.userId : Int) < req.maxActivePerUser)

/-- The row `single_stmt` picks: it scans the snapshot in order, passes over
locked rows, and checks the present version of a row again once it holds its
lock. -/
def pickRow (req : ClaimRequest) (locked : List Uuid) (now : DateTime)
    (snapshot current : PostgresJobQueue) : Option JobRow :=
  (snapshot.ordered now (belowCap req locked now snapshot)).findSome?
    (fun g =>
      match current.generationJobs.find? g.id with
      | some g' => if belowCap req locked now snapshot g' then some g' else none
      | none => none)

end PostgresJobQueue

/-! ## Transactions -/

/-- How far a claim transaction has come. -/
inductive ClaimTx where
  /-- `BEGIN`; the advisory lock is asked for next -/
  | begun (req : ClaimRequest) (now : DateTime)
  /-- between two rounds, `left` rounds before the end of the loop -/
  | looping (req : ClaimRequest) (now : DateTime) (left : Nat)
      (taken : List JobRow)
  /-- `single_stmt` has its snapshot -/
  | reading (req : ClaimRequest) (now : DateTime) (left : Nat)
      (taken : List JobRow) (snapshot : PostgresJobQueue)
  | ended

namespace ClaimTx

/-- Does the transaction hold the advisory lock? -/
def holdsLock : ClaimTx → Bool
  | looping .. | reading .. => true
  | _ => false

/-- The rows a transaction has written, and holds locked. -/
def taken : ClaimTx → List JobRow
  | looping _ _ _ rows | reading _ _ _ rows _ => rows
  | _ => []

/-- The ids of these rows. -/
def lockedIds (tx : ClaimTx) : List Uuid := tx.taken.map JobRow.id

/-- What a transaction sees: the committed rows, and its own writes. -/
def visible (committed : PostgresJobQueue) : ClaimTx → PostgresJobQueue
  | looping req now _ rows | reading req now _ rows _ =>
      rows.foldl (PostgresJobQueue.takeRow req now) committed
  | _ => committed

/-- What `_claim` was called with. -/
def request : ClaimTx → Option ClaimRequest
  | begun req _ | looping req _ _ _ | reading req _ _ _ _ => some req
  | ended => none

/-- The snapshot of the statement in progress. -/
def snapshot : ClaimTx → Option PostgresJobQueue
  | reading _ _ _ _ q => some q
  | _ => none

end ClaimTx

/-- The database: its committed rows and the claim transactions begun so
far. -/
structure ClaimDb where
  now : DateTime
  committed : PostgresJobQueue
  transactions : List ClaimTx

namespace ClaimDb

/-- A database no claim transaction is open on. -/
def init (queue : PostgresJobQueue) : ClaimDb := ⟨0, queue, []⟩

/-- Transaction `n` goes on. -/
def set (s : ClaimDb) (n : Nat) (tx : ClaimTx) : ClaimDb :=
  { s with transactions := s.transactions.set n tx }

/-- The rows the transactions other than `n` hold locked. -/
def lockedByOthers (s : ClaimDb) (n : Nat) : List Uuid :=
  (s.transactions.eraseIdx n).flatMap ClaimTx.lockedIds

end ClaimDb

/-- The statements of claim transactions, and the transactions of others. -/
inductive ClaimAction where
  | advance (dt : Nat)
  | begin (req : ClaimRequest)
  | lock (n : Nat)
  | read (n : Nat)
  /-- `locked` are the rows transactions of others hold locked -/
  | update (n : Nat) (locked : List Uuid)
  | commit (n : Nat)
  | rollback (n : Nat)
  | other (c : QueueCall)
  | enqueue (job : QueuedJob)

/-- Does a call update `generation_jobs`, and not `job_attempts` alone? -/
def QueueCall.writesJob : QueueCall → Bool
  | .renewLease _ _ | .setPromptId _ _ => false
  | _ => true

/-- Can another process commit the call?  It waits for row locks, and
`mark_running` is for dispatched jobs. -/
def canCommit (s : ClaimDb) (c : QueueCall) : Bool :=
  (!c.writesJob ||
      s.transactions.all (fun tx => decide (c.target ∉ tx.lockedIds))) &&
    match c with
    | .markRunning id =>
        match JobQueue.life s.committed id with
        | some l => l.state.isActive || l.state.isTerminal
        | none => true
    | _ => true

/-- One statement of a claim transaction under the cap `k`, or one committed
transaction of another process. -/
def claimStep (k : Int) (s : ClaimDb) : ClaimAction → Option ClaimDb
  | .advance dt => some { s with now := s.now + dt }
  | .begin req =>
      if 0 < req.workerCapacity ∧ 0 < req.maxActivePerUser ∧
          req.maxActivePerUser = k then
        some { s with transactions := s.transactions ++ [.begun req s.now] }
      else none
  | .lock n =>
      match s.transactions[n]? with
      | some (.begun req now) =>
          if s.transactions.all (fun tx => !tx.holdsLock) then
            some (s.set n (.looping req now req.workerCapacity []))
          else none
      | _ => none
  | .read n =>
      match s.transactions[n]? with
      | some (.looping req now (left + 1) taken) =>
          some (s.set n (.reading req now left taken
            ((ClaimTx.looping req now left taken).visible s.committed)))
      | _ => none
  | .update n locked =>
      match s.transactions[n]? with
      | some (.reading req now left taken snapshot) =>
          match PostgresJobQueue.pickRow req (s.lockedByOthers n ++ locked) now
              snapshot ((ClaimTx.looping req now left taken).visible
                s.committed) with
          | none => some (s.set n (.looping req now 0 taken))
          | some row => some (s.set n (.looping req now left (taken ++ [row])))
      | _ => none
  | .commit n =>
      match s.transactions[n]? with
      | some (.looping req now 0 taken) =>
          some { s.set n .ended with
            committed := (ClaimTx.looping req now 0 taken).visible s.committed }
      | _ => none
  | .rollback n =>
      match s.transactions[n]? with
      | some _ => some (s.set n .ended)
      | none => none
  | .other c =>
      if canCommit s c then
        some { s with committed := c.apply s.now s.committed }
      else none
  | .enqueue job =>
      if admitted job ∧ (JobQueue.get s.committed job.id).isNone then
        some { s with committed := JobQueue.enqueue job s.now s.committed }
      else none

/-- The machine of all claim transactions under the cap `k`. -/
def claimTransactions (k : Int) : Machine ClaimDb ClaimAction :=
  ⟨claimStep k⟩

/-! ## What the transactions see -/

theorem ClaimDb.lockedByOthers_set (s : ClaimDb) (n : Nat) (tx : ClaimTx) :
    (s.set n tx).lockedByOthers n = s.lockedByOthers n := by
  unfold ClaimDb.lockedByOthers ClaimDb.set
  rw [List.eraseIdx_set_eq]

theorem ClaimTx.visible_append (req : ClaimRequest) (now : DateTime)
    (left : Nat) (taken : List JobRow) (row : JobRow)
    (committed : PostgresJobQueue) :
    (ClaimTx.looping req now left (taken ++ [row])).visible committed =
      PostgresJobQueue.takeRow req now
        ((ClaimTx.looping req now left taken).visible committed) row := by
  show (taken ++ [row]).foldl _ _ = _
  rw [List.foldl_append]
  rfl

/-- A job of a user that is active, or one of the rows under `ids`. -/
def takenOrActive (ids : List Uuid) (user : Uuid) (g : JobRow) : Bool :=
  g.userId = user && (decide (g.id ∈ ids) || g.state.isActive)

theorem occupied_takenOrActive (ids : List Uuid) (user : Uuid) :
    Occupied (takenOrActive ids user) := by
  intro g g' hid huser _ hactive hp
  simp only [takenOrActive, Bool.and_eq_true, Bool.or_eq_true,
    decide_eq_true_eq, hid, huser] at hp ⊢
  exact ⟨hp.1, hp.2.imp_right hactive⟩

namespace PostgresJobQueue

theorem activeOfUser_eq (q : PostgresJobQueue) (user : Uuid) :
    q.activeOfUser user = q.countRows (takenOrActive [] user) := by
  unfold activeOfUser countRows takenOrActive
  simp

/-- Rows taken count as active. -/
theorem activeOfUser_foldl_takeRow (req : ClaimRequest) (now : DateTime)
    (user : Uuid) (rows : List JobRow) :
    ∀ q : PostgresJobQueue,
      (rows.foldl (takeRow req now) q).activeOfUser user =
        q.countRows (takenOrActive (rows.map JobRow.id) user) := by
  induction rows with
  | nil => exact fun q => activeOfUser_eq q user
  | cons row rest ih =>
      intro q
      rw [List.foldl_cons, ih]
      show (q.generationJobs.rows.map _).countP _ = _
      rw [List.countP_map]
      unfold countRows
      refine List.countP_congr (fun g _ => ?_)
      by_cases hid : g.id = row.id
      · simp [takenOrActive, hid, JobState.isActive]
      · simp [takenOrActive, hid]

/-- A row taken counts for its user only, and once. -/
theorem activeOfUser_takeRow_le (req : ClaimRequest) (now : DateTime)
    {q : PostgresJobQueue} {row : JobRow}
    (hrow : q.generationJobs.find? row.id = some row) (user : Uuid) :
    (takeRow req now q row).activeOfUser user ≤
      q.activeOfUser user + if row.userId = user then 1 else 0 := by
  show (q.dispatchRows [row.id]).activeOfUser user ≤ _
  by_cases huser : row.userId = user
  · rw [if_pos huser]
    exact q.generationJobs.countP_modifyWhere_mem_le [row.id]
      (fun g => { g with state := .dispatched }) (fun _ => rfl) _
  · rw [if_neg huser]
    refine @Table.countP_modifyWhere_le _ _ JobRow.id q.generationJobs _
      (fun g => { g with state := .dispatched }) (fun _ => rfl) _
      (fun g hg hid hp => ?_)
    obtain rfl : g = row := Table.eq_of_key_eq hg
      (Table.find?_eq_some_iff.mp hrow).1
      (List.mem_singleton.mp (of_decide_eq_true hid))
    simp [huser] at hp

theorem isSome_life_foldl_takeRow (req : ClaimRequest) (now : DateTime)
    (id : Uuid) (rows : List JobRow) :
    ∀ q : PostgresJobQueue,
      (JobQueue.life (rows.foldl (takeRow req now) q) id).isSome =
        (JobQueue.life q id).isSome := by
  induction rows with
  | nil => exact fun _ => rfl
  | cons row rest ih =>
      intro q
      rw [List.foldl_cons, ih]
      have hcongr : JobQueue.life (takeRow req now q row) id =
          JobQueue.life (q.dispatchRows [row.id]) id :=
        life_congr (q := takeRow req now q row)
          (r := q.dispatchRows [row.id]) rfl id
      rw [hcongr, life_dispatchRows]
      split
      · exact Option.isSome_map
      · rfl

theorem of_pickRow {req : ClaimRequest} {locked : List Uuid} {now : DateTime}
    {snapshot current : PostgresJobQueue} {row : JobRow}
    (h : pickRow req locked now snapshot current = some row) :
    current.generationJobs.find? row.id = some row ∧
      row.state.isWaiting = true ∧
      (snapshot.activeOfUser row.userId : Int) < req.maxActivePerUser := by
  obtain ⟨g, _, hg⟩ := List.exists_of_findSome?_eq_some h
  split at hg
  · rename_i g' hg'
    split at hg
    · rename_i hbelow
      cases hg
      have hid : row.id = g.id := Table.key_of_find? hg'
      simp only [belowCap, Bool.and_eq_true, decide_eq_true_eq] at hbelow
      exact ⟨by rw [hid, hg'], waiting_of_eligible hbelow.1, hbelow.2⟩
    · cases hg
  · cases hg

/-- Where nothing has changed since the snapshot, the first row is picked. -/
theorem pickRow_self (req : ClaimRequest) (locked : List Uuid)
    (now : DateTime) (q : PostgresJobQueue) :
    pickRow req locked now q q = q.nextCapped req locked now := by
  have hself : ∀ g ∈ q.ordered now (belowCap req locked now q),
      (match q.generationJobs.find? g.id with
        | some g' => if belowCap req locked now q g' then some g' else none
        | none => none) = some g := by
    intro g hg
    obtain ⟨hmem, hbelow⟩ := mem_ordered.mp hg
    rw [Table.find?_key hmem]
    simp [hbelow]
  unfold pickRow
  show _ = (q.ordered now (belowCap req locked now q)).head?
  cases hrows : q.ordered now (belowCap req locked now q) with
  | nil => rfl
  | cons g rest =>
      rw [List.findSome?_cons, hself g (by rw [hrows]; exact List.mem_cons_self ..)]
      rfl

end PostgresJobQueue

namespace ClaimTx

/-- What counts against the cap for a transaction: the active rows, and the
rows it has taken. -/
theorem activeOfUser_visible (tx : ClaimTx) (committed : PostgresJobQueue)
    (user : Uuid) : (tx.visible committed).activeOfUser user =
      committed.countRows (takenOrActive tx.lockedIds user) := by
  cases tx with
  | begun req now => exact committed.activeOfUser_eq user
  | ended => exact committed.activeOfUser_eq user
  | looping req now left taken =>
      exact PostgresJobQueue.activeOfUser_foldl_takeRow req now user taken _
  | reading req now left taken snapshot =>
      exact PostgresJobQueue.activeOfUser_foldl_takeRow req now user taken _

/-- A transaction without the lock has written nothing. -/
theorem free {tx : ClaimTx} (h : tx.holdsLock = false)
    (committed : PostgresJobQueue) : tx.visible committed = committed ∧
      tx.snapshot = none ∧ tx.lockedIds = [] := by
  cases tx with
  | begun req now => exact ⟨rfl, rfl, rfl⟩
  | ended => exact ⟨rfl, rfl, rfl⟩
  | looping => cases h
  | reading => cases h

end ClaimTx

/-! ## The invariant -/

/-- A transaction sees no user above the cap, and no more active jobs of a
user than the statement it is in has counted. -/
structure Capped (k : Int) (committed : PostgresJobQueue) (tx : ClaimTx) :
    Prop where
  visible : ∀ user, ((tx.visible committed).activeOfUser user : Int) ≤ k
  counted : ∀ q, tx.snapshot = some q → ∀ user,
    (tx.visible committed).activeOfUser user ≤ q.activeOfUser user
  known : ∀ id ∈ tx.lockedIds, (JobQueue.life committed id).isSome = true

theorem capped_of_free {k : Int} {committed : PostgresJobQueue} {tx : ClaimTx}
    (h : tx.holdsLock = false)
    (hcommitted : ∀ user, (committed.activeOfUser user : Int) ≤ k) :
    Capped k committed tx := by
  obtain ⟨hvisible, hsnapshot, hlocked⟩ := ClaimTx.free h committed
  refine ⟨?_, ?_, ?_⟩
  · rw [hvisible]
    exact hcommitted
  · intro q hq
    simp [hsnapshot] at hq
  · intro id hid
    simp [hlocked] at hid

/-- The cap, for the committed rows and for every transaction. -/
structure CapInv (k : Int) (s : ClaimDb) : Prop where
  committed : ∀ user, (s.committed.activeOfUser user : Int) ≤ k
  exclusive : s.transactions.countP ClaimTx.holdsLock ≤ 1
  request : ∀ tx ∈ s.transactions, ∀ req, tx.request = some req →
    req.maxActivePerUser = k
  capped : ∀ tx ∈ s.transactions, Capped k s.committed tx

/-- A transaction goes on: with the lock it had, or as the first to take it. -/
theorem capInv_set {k : Int} {s : ClaimDb} (hs : CapInv k s) {n : Nat}
    {x y : ClaimTx} (hn : s.transactions[n]? = some x)
    (hlock : y.holdsLock = true → x.holdsLock = true ∨
      ∀ tx ∈ s.transactions, tx.holdsLock = false)
    (hreq : ∀ req, y.request = some req → x.request = some req)
    (hy : Capped k s.committed y) : CapInv k (s.set n y) := by
  obtain ⟨hlt, hx⟩ := List.getElem?_eq_some_iff.mp hn
  refine ⟨hs.committed, ?_, ?_, ?_⟩
  · have hle := hs.exclusive
    show (s.transactions.set n y).countP ClaimTx.holdsLock ≤ 1
    rw [List.countP_set hlt, hx]
    by_cases hy' : y.holdsLock = true
    · rcases hlock hy' with hx' | hnone
      · simp only [hy', hx', if_true]
        omega
      · have hzero : s.transactions.countP ClaimTx.holdsLock = 0 :=
          List.countP_eq_zero.mpr (fun tx htx => by simp [hnone tx htx])
        simp [hzero, hy']
    · simp only [hy', Bool.false_eq_true, if_false]
      omega
  · intro tx htx req htxreq
    rcases List.mem_or_eq_of_mem_set htx with hold | rfl
    · exact hs.request tx hold req htxreq
    · exact hs.request x (List.mem_of_getElem? hn) req (hreq req htxreq)
  · intro tx htx
    rcases List.mem_or_eq_of_mem_set htx with hold | rfl
    · exact hs.capped tx hold
    · exact hy

/-- The holder of the lock commits: no other transaction has written. -/
theorem capInv_commit {k : Int} {s : ClaimDb} (hs : CapInv k s) {n : Nat}
    {x : ClaimTx} (hn : s.transactions[n]? = some x)
    (hlock : x.holdsLock = true) {committed : PostgresJobQueue}
    (hcommitted : ∀ user, (committed.activeOfUser user : Int) ≤ k) :
    CapInv k { s.set n .ended with committed := committed } := by
  obtain ⟨hlt, hx⟩ := List.getElem?_eq_some_iff.mp hn
  have hcount : (s.transactions.set n .ended).countP ClaimTx.holdsLock = 0 := by
    have hle := hs.exclusive
    rw [List.countP_set hlt, hx, if_pos hlock]
    simp only [ClaimTx.holdsLock, Bool.false_eq_true, if_false]
    omega
  refine ⟨hcommitted, by show _ ≤ 1; rw [ClaimDb.set, hcount]; omega, ?_, ?_⟩
  · intro tx htx req hreq
    rcases List.mem_or_eq_of_mem_set htx with hold | rfl
    · exact hs.request tx hold req hreq
    · cases hreq
  · intro tx htx
    refine capped_of_free ?_ hcommitted
    simpa using List.countP_eq_zero.mp hcount tx htx

/-- What others commit raises the count of no transaction. -/
theorem capInv_of_le {k : Int} {s : ClaimDb} (hs : CapInv k s)
    {committed : PostgresJobQueue}
    (hle : ∀ ids user, (∀ id ∈ ids,
        (JobQueue.life s.committed id).isSome = true) →
      committed.countRows (takenOrActive ids user) ≤
        s.committed.countRows (takenOrActive ids user))
    (hknown : ∀ id, (JobQueue.life s.committed id).isSome = true →
      (JobQueue.life committed id).isSome = true) :
    CapInv k { s with committed := committed } := by
  have hvisible : ∀ tx ∈ s.transactions, ∀ user,
      (tx.visible committed).activeOfUser user ≤
        (tx.visible s.committed).activeOfUser user := by
    intro tx htx user
    rw [ClaimTx.activeOfUser_visible, ClaimTx.activeOfUser_visible]
    exact hle tx.lockedIds user (hs.capped tx htx).known
  refine ⟨fun user => ?_, hs.exclusive, hs.request,
    fun tx htx => ⟨?_, ?_, ?_⟩⟩
  · have hcommitted := hs.committed user
    have hless := hle [] user (by simp)
    rw [PostgresJobQueue.activeOfUser_eq] at hcommitted ⊢
    dsimp only
    omega
  · intro user
    have hcap := (hs.capped tx htx).visible user
    have hless := hvisible tx htx user
    dsimp only
    omega
  · intro q hq user
    exact Nat.le_trans (hvisible tx htx user)
      ((hs.capped tx htx).counted q hq user)
  · intro id hid
    exact hknown id ((hs.capped tx htx).known id hid)

/-- A row whose user was below the cap in the snapshot may be taken. -/
theorem capped_update {k : Int} {committed : PostgresJobQueue}
    {req : ClaimRequest} {locked : List Uuid} {now : DateTime} {left : Nat}
    {taken : List JobRow} {snapshot : PostgresJobQueue} {row : JobRow}
    (hs : Capped k committed (.reading req now left taken snapshot))
    (hk : req.maxActivePerUser = k)
    (hpick : PostgresJobQueue.pickRow req locked now snapshot
      ((ClaimTx.looping req now left taken).visible committed) = some row) :
    Capped k committed (.looping req now left (taken ++ [row])) := by
  obtain ⟨hrow, _, hbelow⟩ := PostgresJobQueue.of_pickRow hpick
  refine ⟨fun user => ?_, ?_, ?_⟩
  · have hmore := PostgresJobQueue.activeOfUser_takeRow_le req now hrow user
    have hcap : (((ClaimTx.looping req now left taken).visible
        committed).activeOfUser user : Int) ≤ k := hs.visible user
    have hcounted : ((ClaimTx.looping req now left taken).visible
        committed).activeOfUser user ≤ snapshot.activeOfUser user :=
      hs.counted snapshot rfl user
    rw [ClaimTx.visible_append]
    by_cases huser : row.userId = user
    · -- the snapshot's count is below the cap, and ours is no larger
      subst huser
      rw [if_pos rfl] at hmore
      omega
    · rw [if_neg huser] at hmore
      omega
  · intro q hq
    cases hq
  · intro id hid
    rw [ClaimTx.lockedIds, List.mem_map] at hid
    obtain ⟨g, hg, rfl⟩ := hid
    rcases List.mem_append.mp hg with hold | hnew
    · exact hs.known g.id (List.mem_map_of_mem hold)
    · obtain rfl := List.mem_singleton.mp hnew
      have hseen := PostgresJobQueue.isSome_life_foldl_takeRow req now g.id
        taken committed
      rw [← hseen, PostgresJobQueue.life_eq]
      exact (congrArg (fun r => (r.map JobRow.life).isSome) hrow).trans rfl

/-- A transaction that has read nothing keeps the cap. -/
theorem capInv_begin {k : Int} {s : ClaimDb} (hs : CapInv k s) {req : ClaimRequest}
    (hreq : req.maxActivePerUser = k) :
    CapInv k { s with transactions := s.transactions ++ [.begun req s.now] } := by
  refine ⟨hs.committed, ?_, ?_, ?_⟩
  · simpa [List.countP_append, ClaimTx.holdsLock] using hs.exclusive
  · intro tx htx req' hreq'
    rcases List.mem_append.mp htx with hold | hnew
    · exact hs.request tx hold req' hreq'
    · obtain rfl := List.mem_singleton.mp hnew
      cases hreq'
      exact hreq
  · intro tx htx
    rcases List.mem_append.mp htx with hold | hnew
    · exact hs.capped tx hold
    · obtain rfl := List.mem_singleton.mp hnew
      exact capped_of_free rfl hs.committed

/-- A call that may commit keeps the cap. -/
theorem capInv_other {k : Int} {s : ClaimDb} (hs : CapInv k s) {c : QueueCall}
    (hcan : canCommit s c = true) :
    CapInv k { s with committed := c.apply s.now s.committed } := by
  refine capInv_of_le hs (fun ids user _ => ?_) (fun id hid => ?_)
  · refine PostgresJobQueue.countRows_apply_le
      (occupied_takenOrActive ids user) c s.now s.committed
      (fun id l hc hl hlive => ?_)
    subst hc
    simp only [canCommit, hl, hlive, Bool.or_false, Bool.and_eq_true]
      at hcan
    exact hcan.2
  · rcases LawfulJobQueue.life_apply c s.now s.committed with
      ⟨_, hraised⟩ | hlife
    · rw [hraised]
      exact hid
    · rw [hlife]
      split
      · rw [Option.isSome_map]
        exact hid
      · exact hid

/-- A new job keeps the cap. -/
theorem capInv_enqueue {k : Int} {s : ClaimDb} (hs : CapInv k s) {job : QueuedJob}
    (hadmitted : admitted job = true) (hget : JobQueue.get s.committed job.id = none) :
    CapInv k { s with committed := JobQueue.enqueue job s.now s.committed } := by
  refine capInv_of_le hs (fun ids user hids => ?_) (fun id hid => ?_)
  · refine Nat.le_of_eq (PostgresJobQueue.countRows_enqueue
      (fun g hg hstate => ?_) s.committed)
    -- a new job is queued, and no transaction has taken it
    have hfresh : job.id ∉ ids := by
      intro hmem
      have hsome := hids job.id hmem
      simp [JobQueue.life, hget] at hsome
    simp [takenOrActive, hg, hfresh, hstate,
      (life_of_admitted hadmitted).1, JobState.isActive]
  · rcases LawfulJobQueue.life_enqueue s.now hget with hsame | hadded
    · rw [hsame]
      exact hid
    · rw [hadded]
      split
      · rfl
      · exact hid

section Step

variable {k : Int} {s t : ClaimDb} {a : ClaimAction}

/-- Every statement keeps the cap. -/
theorem capInv_step (hs : CapInv k s) (h : claimStep k s a = some t) :
    CapInv k t := by
  cases a with
  | advance dt =>
      cases h
      exact ⟨hs.committed, hs.exclusive, hs.request, hs.capped⟩
  | begin req =>
      simp only [claimStep] at h
      split at h
      · rename_i hreq
        cases h
        exact capInv_begin hs hreq.2.2
      · cases h
  | lock n =>
      simp only [claimStep] at h
      split at h
      · rename_i req now hn
        split at h
        · rename_i hfree
          cases h
          have hnone : ∀ tx ∈ s.transactions, tx.holdsLock = false := by
            simpa using hfree
          refine capInv_set hs hn (fun _ => Or.inr hnone) (fun _ => id) ?_
          exact ⟨hs.committed, fun q hq => (by cases hq),
            fun id hid => (by cases hid)⟩
        · cases h
      · cases h
  | read n =>
      simp only [claimStep] at h
      split at h
      · rename_i req now left taken hn
        cases h
        have hx := hs.capped _ (List.mem_of_getElem? hn)
        refine capInv_set hs hn (fun _ => Or.inl rfl) (fun _ => id) ?_
        refine ⟨hx.visible, fun q hq user => ?_, hx.known⟩
        cases hq
        exact Nat.le_refl _
      · cases h
  | update n locked =>
      simp only [claimStep] at h
      split at h
      · rename_i req now left taken snapshot hn
        have hmem := List.mem_of_getElem? hn
        have hx := hs.capped _ hmem
        split at h
        · cases h
          refine capInv_set hs hn (fun _ => Or.inl rfl) (fun _ => id) ?_
          exact ⟨hx.visible, fun q hq => (by cases hq), hx.known⟩
        · rename_i row hpick
          cases h
          refine capInv_set hs hn (fun _ => Or.inl rfl) (fun _ => id) ?_
          exact capped_update hx (hs.request _ hmem req rfl) hpick
      · cases h
  | commit n =>
      simp only [claimStep] at h
      split at h
      · rename_i req now taken hn
        cases h
        have hmem := List.mem_of_getElem? hn
        exact capInv_commit hs hn rfl (hs.capped _ hmem).visible
      · cases h
  | rollback n =>
      simp only [claimStep] at h
      split at h
      · rename_i x hn
        cases h
        exact capInv_set hs hn (fun hlock => by cases hlock)
          (fun _ hreq => by cases hreq) (capped_of_free rfl hs.committed)
      · cases h
  | other c =>
      simp only [claimStep] at h
      split at h
      · rename_i hcan
        cases h
        exact capInv_other hs hcan
      · cases h
  | enqueue job =>
      simp only [claimStep] at h
      split at h
      · rename_i hnew
        cases h
        exact capInv_enqueue hs hnew.1 (Option.isNone_iff_eq_none.mp hnew.2)
      · cases h

end Step

/-! ## A claim nothing comes between -/

/-- The rounds of a transaction that nobody else's statement comes between
leave what `claimCapped` leaves. -/
theorem claim_uninterrupted (k : Int) (req : ClaimRequest) (now : DateTime)
    (locked : List Uuid) (n left : Nat) :
    ∀ (s : ClaimDb) (taken : List JobRow),
    s.transactions[n]? = some (.looping req now left taken) →
    s.lockedByOthers n = [] →
    ∃ as t, (claimTransactions k).exec s as = some t ∧
      (∀ a ∈ as, a = .read n ∨ a = .update n locked ∨ a = .commit n) ∧
      t.transactions = s.transactions.set n .ended ∧
      t.committed = (PostgresJobQueue.claimCapped req locked now left
        ((ClaimTx.looping req now left taken).visible s.committed)).1 := by
  induction left with
  | zero =>
      intro s taken hn _
      refine ⟨[.commit n], { s.set n .ended with
        committed := (ClaimTx.looping req now 0 taken).visible s.committed },
        ?_, by simp, rfl, rfl⟩
      simp only [Machine.exec, claimTransactions, claimStep, hn]
  | succ left ih =>
      intro s taken hn hothers
      have hlt : n < s.transactions.length :=
        (List.getElem?_eq_some_iff.mp hn).1
      generalize hseen : (ClaimTx.looping req now left taken).visible
        s.committed = seen
      have hread : claimStep k s (.read n) =
          some (s.set n (.reading req now left taken seen)) := by
        simp only [claimStep, hn, hseen]
      have hset : ∀ x y : ClaimTx, (s.set n x).set n y = s.set n y := by
        intro x y
        simp [ClaimDb.set]
      have hat : ∀ x : ClaimTx, (s.set n x).transactions[n]? = some x := by
        intro x
        simp [ClaimDb.set, hlt]
      have hupdate : claimStep k (s.set n (.reading req now left taken seen))
          (.update n locked) =
          match seen.nextCapped req locked now with
          | none => some (s.set n (.looping req now 0 taken))
          | some row => some (s.set n (.looping req now left (taken ++ [row]))) := by
        have hcurrent : (ClaimTx.looping req now left taken).visible
          (s.set n (.reading req now left taken seen)).committed = seen := hseen
        simp only [claimStep, hat, hcurrent, ClaimDb.lockedByOthers_set, hothers,
          List.nil_append, PostgresJobQueue.pickRow_self, hset]
      have hsame : (ClaimTx.looping req now (left + 1) taken).visible
          s.committed = seen := hseen
      rw [hsame, PostgresJobQueue.claimCapped]
      cases hnext : seen.nextCapped req locked now with
      | none =>
          rw [hnext] at hupdate
          refine ⟨[.read n, .update n locked, .commit n], { s.set n .ended with
            committed := seen }, ?_, by simp, rfl, rfl⟩
          have hcommit : claimStep k (s.set n (.looping req now 0 taken))
              (.commit n) = some { s.set n .ended with committed := seen } := by
            simp only [claimStep, hat, hset]
            rw [← hseen]
            rfl
          simp only [Machine.exec, claimTransactions, hread, hupdate, hcommit]
      | some row =>
          rw [hnext] at hupdate
          obtain ⟨as, t, hrun, hactions, htransactions, hcommitted⟩ := ih
            (s.set n (.looping req now left (taken ++ [row])))
            (taken ++ [row]) (hat _)
            (by rw [ClaimDb.lockedByOthers_set, hothers])
          refine ⟨.read n :: .update n locked :: as, t, ?_, ?_, ?_, ?_⟩
          · refine (Machine.exec_cons_eq_some _).mpr ⟨_, hread, ?_⟩
            exact (Machine.exec_cons_eq_some _).mpr ⟨_, hupdate, hrun⟩
          · intro a ha
            rcases List.mem_cons.mp ha with rfl | ha
            · exact Or.inl rfl
            · rcases List.mem_cons.mp ha with rfl | ha
              · exact Or.inr (Or.inl rfl)
              · exact hactions a ha
          · rw [htransactions]
            exact congrArg ClaimDb.transactions (hset _ ClaimTx.ended)
          · rw [hcommitted, ClaimTx.visible_append]
            show (PostgresJobQueue.claimCapped req locked now left
              (PostgresJobQueue.takeRow req now ((ClaimTx.looping req now left
                taken).visible s.committed) row)).1 = _
            rw [hseen]
            rfl

/-! ## Runs -/

/-- From a state in which the cap holds, claim transactions under the cap and
other committed transactions, interleaved in any way, commit only states in
which it holds. -/
theorem activeOfUser_le_run (k : Int) (queue : PostgresJobQueue)
    (as : List ClaimAction) (t : ClaimDb)
    (hstart : ∀ user, (queue.activeOfUser user : Int) ≤ k)
    (hrun : (claimTransactions k).exec (.init queue) as = some t)
    (user : Uuid) : (t.committed.activeOfUser user : Int) ≤ k := by
  have hinit : CapInv k (ClaimDb.init queue) := by
    refine ⟨hstart, Nat.zero_le _, ?_, ?_⟩
    · intro tx htx
      cases htx
    · intro tx htx
      cases htx
  have hinv : CapInv k t := Machine.invariant (I := CapInv k)
    (C := fun _ _ => True) (fun _ _ _ hs _ h => capInv_step hs h) hinit
    (Machine.along_of_split hrun (fun _ _ _ _ _ _ => trivial)) hrun
  exact hinv.committed user

/-- A claim of up to two jobs, with the default cap. -/
def claimOfTwo (leaseOwner : String) : ClaimRequest where
  workerCapacity := 2
  leaseOwner := leaseOwner
  leaseSeconds := defaultLeaseSeconds
  maxActivePerUser := 1

/-- Two transactions over three jobs of one user, one of which is cancelled
while the first transaction scans it. -/
def twoClaims : List ClaimAction :=
  [.enqueue (newJob 7 1 "image_basic" "a" (.obj []) none 0),
    .enqueue (newJob 8 1 "image_basic" "b" (.obj []) none 0),
    .enqueue (newJob 9 1 "image_basic" "c" (.obj []) none 0),
    .begin (claimOfTwo "scheduler-0"), .lock 0, .read 0,
    .begin (claimOfTwo "scheduler-1"), .other (.cancel 7), .update 0 [],
    .read 0, .update 0 [], .commit 0, .lock 1, .read 1, .update 1 [],
    .commit 1]

theorem activeOfUser_le_run_two :
    ∃ t : ClaimDb,
      (claimTransactions 1).exec (.init .empty) twoClaims = some t ∧
      (t.committed.activeOfUser 1 : Int) ≤ 1 := by
  have hsome : ((claimTransactions 1).exec (.init .empty)
      twoClaims).isSome = true := by decide +kernel
  obtain ⟨t, ht⟩ := Option.isSome_iff_exists.mp hsome
  refine ⟨t, ht, activeOfUser_le_run 1 .empty _ t (fun user => ?_) ht 1⟩
  show ((0 : Nat) : Int) ≤ 1
  omega

end Imagin4.Ports
