import Imagin4.Ports.JobLedger

/-!
# What lasts of a job

Three laws of the Postgres queue, over every interleaving of the statements of
its transactions.  A job that has ended stays as it ended, down to the result
its latest attempt recorded.  Its events are a gapless log from which its
attempts, its retries and its end can be read.  Every claim starts a new
attempt, under a number above all earlier ones and with the lease of its
claimer, so the `ON CONFLICT` branch of `_finalize_claimed_row` is never taken.

All three are properties of job records that every `Change` preserves.

## Main results

* `outcome_run` — the outcome of a job that has ended, and the result of a job
  that succeeded.
* `replayable_run` — the log of every job.
* `claim_inserts_run` — the attempt every claim inserts.
-/

namespace Imagin4.Ports

open Imagin4.Verified

namespace JobRecord

/-! ## The latest attempt -/

theorem exists_latest {rec : JobRecord} {a : AttemptResult}
    (ha : a ∈ rec.attempts) : ∃ b, rec.latest = some b := by
  have hmem : a.1 ∈ rec.attempts.rows.map Prod.fst := List.mem_map_of_mem ha
  cases hmax : rec.maxAttemptNo with
  | none =>
      have hnil : rec.attempts.rows.map Prod.fst = [] :=
        List.max?_eq_none_iff.mp hmax
      rw [hnil] at hmem
      cases hmem
  | some n =>
      obtain ⟨b, hb, hn⟩ := List.mem_map.mp (List.max?_mem hmax)
      refine ⟨b, ?_⟩
      rw [latest, hmax, Option.bind_some, ← hn]
      exact Table.find?_key hb

@[simp] theorem latest_setRow (rec : JobRecord) (g : JobRow) :
    (rec.setRow g).latest = rec.latest := rfl

@[simp] theorem latest_log (rec : JobRecord) (id : Uuid) (eventType : String)
    (payload : Json) : (rec.log id eventType payload).latest = rec.latest := rfl

/-- A result recorded is the result of the latest attempt. -/
theorem latest_recordResult {rec : JobRecord} {b : AttemptResult}
    (hb : rec.latest = some b) (result : JobResult) :
    (rec.recordResult (some result)).latest = some (b.1, some result) := by
  obtain ⟨hmax, hfind⟩ := mem_of_latest hb
  have hmem : b.1 ∈ rec.attempts.rows.map Prod.fst :=
    List.mem_map.mpr ⟨b, (Table.find?_eq_some_iff.mp hfind).1, rfl⟩
  have hrecord : rec.recordResult (some result) =
      rec.putAttempt b.1 (some result) := by
    rw [recordResult, hb]
    rfl
  have hnumbers : (rec.putAttempt b.1 (some result)).attempts.rows.map
      Prod.fst = rec.attempts.rows.map Prod.fst := by
    show (rec.attempts.put (b.1, some result)).rows.map Prod.fst = _
    rw [Table.rows_put_of_mem (r := (b.1, some result)) hmem, List.map_map]
    refine List.map_congr_left (fun c _ => ?_)
    by_cases hc : c.1 = b.1 <;> simp [hc]
  rw [hrecord, latest, maxAttemptNo, hnumbers]
  refine (congrArg (Option.bind · _) hmax).trans ?_
  exact (Table.find?_put rec.attempts (b.1, some result) b.1).trans
    (if_pos rfl)

/-- No change removes an attempt. -/
theorem exists_attempt_change {op : QueueOp} {i : Uuid}
    {rec rec' : JobRecord} (h : Change op i rec rec')
    (ha : ∃ a, a ∈ rec.attempts) : ∃ a, a ∈ rec'.attempts := by
  obtain ⟨a, ha⟩ := ha
  have hput : ∀ n result, ∃ b, b ∈ rec.attempts.put (n, result) :=
    fun n result => ⟨(n, result), Table.mem_put.mpr (Or.inl rfl)⟩
  cases h with
  | enqueue job modelFamily workflowVersion _ => exact ⟨a, ha⟩
  | claim req now g hg hwait hnew =>
      obtain ⟨_, rfl⟩ := of_newAttempt hnew
      exact hput _ _
  | markRunning now g _ _ => exact ⟨a, ha⟩
  | markSucceeded result now g _ _ =>
      obtain ⟨b, hb⟩ := exists_latest ha
      show ∃ c, c ∈ (recordResult (rec.setRow _) _).attempts
      rw [recordResult, latest_setRow, hb]
      exact hput _ _
  | markFailed errorCode errorDetail now g _ _ => exact ⟨a, ha⟩
  | markRetryWait errorCode errorDetail delaySeconds draw delay now g _ _ =>
      exact ⟨a, ha⟩
  | cancel now g _ _ => exact ⟨a, ha⟩

end JobRecord

/-! ## Jobs that have ended -/

open Ledger

/-- The queue's transactions on a new database. -/
abbrev newDatabase : QueueSessions := Sessions.init PostgresJobQueue.empty

/-- The commit of a claim that hands out job `i`. -/
def Dispatches (s : QueueSessions) (a : SessionAction QueueOp (List Uuid))
    (i : Uuid) : Prop :=
  ∃ x req now, Commits s a x ∧ x.op = .claim req now ∧
    i ∈ lockedJobs x.writes

/-- The commit of a `mark_succeeded` that ends job `i`. -/
def Succeeds (s : QueueSessions) (a : SessionAction QueueOp (List Uuid))
    (i : Uuid) (result : JobResult) : Prop :=
  ∃ x now, Commits s a x ∧ x.op = .call (.markSucceeded i result) now ∧
    i ∈ lockedJobs x.writes

/-- In the schedule a claim hands out job `i`, and a `mark_succeeded` with
`result` ends it later. -/
def SucceedsOnceDispatched (as : List (SessionAction QueueOp (List Uuid)))
    (i : Uuid) (result : JobResult) : Prop :=
  ∃ pre a mid b post r s, as = pre ++ a :: mid ++ b :: post ∧
    queueTransactions.exec newDatabase pre = some r ∧ Dispatches r a i ∧
    queueTransactions.exec newDatabase (pre ++ a :: mid) = some s ∧
    Succeeds s b i result

section Runs

variable {s t : QueueSessions} {as : List (SessionAction QueueOp (List Uuid))}

/-- Attempt numbers are kept by all operations. -/
theorem numbered_rule : LocalInvariant (H := List Uuid)
    PostgresJobQueue.database QueueOp.script (fun _ => True)
    (fun d => ∀ i, (d.record i).Numbered) (fun d x => True ∧ TxInv d x) :=
  ledger_rule (fun _ => True) (fun _ h => h)
    (fun _ _ _ _ _ hrec hchange => JobRecord.numbered_change hrec hchange)

/-- Attempt numbers in every state of every run. -/
theorem numbered_run (h : queueTransactions.exec newDatabase as = some s) :
    Inv (fun _ => True) JobRecord.Numbered s :=
  numbered_rule.run (fun _ _ _ _ => trivial)
    (inv_init (fun _ => True) JobRecord.numbered_empty) h

/-- What a change keeps, a run keeps. -/
theorem record_run {I : JobRecord → JobRecord → Prop} {i : Uuid}
    (hrefl : ∀ rec, I rec rec)
    (htrans : ∀ {p q r}, I p q → I q r → I p r)
    (hchange : ∀ op rec rec', Change op i rec rec' → I rec rec')
    (hs : Inv (fun _ => True) JobRecord.Numbered s)
    (h : queueTransactions.exec s as = some t) :
    I (s.committed.record i) (t.committed.record i) := by
  refine Machine.transition (M := queueTransactions)
    (C := fun _ _ => True)
    (I := Inv (fun _ => True) JobRecord.Numbered)
    (R := fun s t => I (s.committed.record i) (t.committed.record i))
    (fun s => hrefl _) (fun h h' => htrans h h')
    (fun _ _ _ hs _ h => numbered_rule.step hs (fun _ _ => trivial) h)
    (fun s a t hs _ h => ?_) hs
    (Machine.along_of_split h (fun _ _ _ _ _ _ => trivial)) h
  rcases record_step hs h i with hsame | ⟨x, _, _, hx⟩
  · rw [hsame]
    exact hrefl _
  · exact hchange _ _ _ hx

/-- The record of a job that has ended stays. -/
theorem record_of_terminal {i : Uuid} {g : JobRow}
    (hs : Inv (fun _ => True) JobRecord.Numbered s)
    (h : queueTransactions.exec s as = some t)
    (hg : (s.committed.record i).row = some g)
    (hterm : g.state.isTerminal = true) :
    t.committed.record i = s.committed.record i := by
  refine record_run (I := fun rec rec' => ∀ g, rec.row = some g →
    g.state.isTerminal = true → rec' = rec) (fun _ _ _ _ => rfl)
    (fun hpq hqr g hg hterm => ?_)
    (fun op rec rec' hchange g hg hterm => ?_) hs h g hg hterm
  · have hq := hpq g hg hterm
    rw [← hq] at hg
    rw [hqr g hg hterm, hq]
  · exact absurd hterm (fun hterm => hchange.not_of_terminal hg hterm)

/-- A job a claim has handed out has an attempt ever after. -/
theorem exists_attempt_of_dispatches {i : Uuid}
    {a : SessionAction QueueOp (List Uuid)}
    (hs : Inv (fun _ => True) JobRecord.Numbered s) (ha : Dispatches s a i)
    (h : queueTransactions.exec s (a :: as) = some t) :
    ∃ b, b ∈ (t.committed.record i).attempts := by
  obtain ⟨r, hstep, hrest⟩ := (Machine.exec_cons_eq_some _).mp h
  obtain ⟨x, req, now, hx, hop, hi⟩ := ha
  have hchange := change_of_commits hs hstep hx hi
  rw [hop] at hchange
  have hr : Inv (fun _ => True) JobRecord.Numbered r :=
    numbered_rule.step hs (fun _ _ => trivial) hstep
  have hnow : ∃ b, b ∈ (r.committed.record i).attempts := by
    generalize r.committed.record i = rec' at hchange
    cases hchange with
    | claim _ _ g hg hwait hnew =>
        obtain ⟨_, rfl⟩ := JobRecord.of_newAttempt hnew
        exact ⟨_, Table.mem_put.mpr (Or.inl rfl)⟩
  exact record_run (I := fun rec rec' => (∃ b, b ∈ rec.attempts) →
    ∃ b, b ∈ rec'.attempts) (fun _ h => h) (fun hpq hqr h => hqr (hpq h))
    (fun _ _ _ hchange h => JobRecord.exists_attempt_change hchange h) hr hrest
    hnow

/-- What `get` reports of a record. -/
theorem exists_get {i : Uuid} {o : Outcome} {q : PostgresJobQueue}
    (h : (q.record i).outcome = some o) :
    ∃ k, JobQueue.get q i = some k ∧ k.outcome = o :=
  Option.map_eq_some_iff.mp ((q.outcome_get i).trans h)

/-- The record of a job that succeeds after a claim has handed it out. -/
theorem outcome_of_succeeds {i : Uuid} {result : JobResult}
    {a : SessionAction QueueOp (List Uuid)}
    (hs : Inv (fun _ => True) JobRecord.Numbered s)
    (ha : Succeeds s a i result) (h : queueTransactions.step s a = some t)
    (hattempt : ∃ b, b ∈ (s.committed.record i).attempts) :
    ∃ g, (t.committed.record i).row = some g ∧ g.state = .succeeded ∧
      (t.committed.record i).outcome =
        some ⟨.succeeded, some result, none, none, g.currentAttempt⟩ := by
  obtain ⟨x, now, hx, hop, hi⟩ := ha
  have hchange := change_of_commits hs h hx hi
  rw [hop] at hchange
  obtain ⟨b, hb⟩ := hattempt
  obtain ⟨c, hc⟩ := JobRecord.exists_latest hb
  generalize s.committed.record i = rec at hchange hc
  generalize t.committed.record i = rec' at hchange ⊢
  cases hchange with
  | markSucceeded _ _ g hg hlive =>
      generalize hdone : ({ g with
        state := .succeeded
        errorCode := none
        errorDetailSanitized := none } : JobRow) = done
      have hrow := JobRecord.row_recordResult (rec.setRow done) (some result)
      have hcur : (rec.setRow done).latest = some c := hc
      have hlatest := JobRecord.latest_recordResult hcur result
      refine ⟨done, hrow, by rw [← hdone], ?_⟩
      unfold JobRecord.outcome
      rw [JobRecord.row_log, hrow, JobRecord.latest_log, hlatest, ← hdone]
      rfl

end Runs

/-- Over every interleaving, a job that has ended is reported with the same
outcome ever after, and a job that a claim has handed out and `mark_succeeded`
has ended with a result is reported with exactly this result and no error. -/
theorem outcome_run (pre post : List (SessionAction QueueOp (List Uuid)))
    (s t : QueueSessions)
    (hpre : queueTransactions.exec newDatabase pre = some s)
    (hpost : queueTransactions.exec s post = some t) (i : Uuid) :
    (∀ j, JobQueue.get s.committed i = some j → j.state.isTerminal = true →
      ∃ k, JobQueue.get t.committed i = some k ∧ k.outcome = j.outcome) ∧
    ∀ result, SucceedsOnceDispatched pre i result →
      ∃ k, JobQueue.get t.committed i = some k ∧ k.state = .succeeded ∧
        k.result = some result ∧ k.errorCode = none ∧ k.errorDetail = none := by
  have hs := numbered_run hpre
  constructor
  · intro j hj hterm
    obtain ⟨g, hg, hjob⟩ := Option.map_eq_some_iff.mp hj
    have hstate : g.state = j.state := by
      rw [← hjob]
      rfl
    have hsame := record_of_terminal hs hpost hg (hstate ▸ hterm)
    refine exists_get (hsame ▸ ?_)
    rw [← PostgresJobQueue.outcome_get]
    exact congrArg (Option.map QueuedJob.outcome) hj
  · rintro result ⟨pre₁, a, mid, b, rest, r, u, rfl, hr, ha, hu, hb⟩
    -- up to the end, through the commit that ends the job
    obtain ⟨u', hu', hrest⟩ := (Machine.exec_append_eq_some _).mp hpre
    obtain rfl : u = u' := Option.some.inj (hu.symm.trans hu')
    obtain ⟨v, hstep, hafter⟩ := (Machine.exec_cons_eq_some _).mp hrest
    obtain ⟨r', hr', hmid⟩ := (Machine.exec_append_eq_some _).mp hu
    obtain rfl : r = r' := Option.some.inj (hr.symm.trans hr')
    have hattempt := exists_attempt_of_dispatches (numbered_run hr) ha hmid
    obtain ⟨g, hg, hstate, hout⟩ :=
      outcome_of_succeeds (numbered_run hu) hb hstep hattempt
    have hv : Inv (fun _ => True) JobRecord.Numbered v :=
      numbered_rule.step (numbered_run hu) (fun _ _ => trivial) hstep
    have hsame := record_of_terminal hv
      ((Machine.exec_append_eq_some _).mpr ⟨s, hafter, hpost⟩) hg
      (by rw [hstate]; rfl)
    rw [← hsame] at hout
    obtain ⟨k, hk, hkout⟩ := exists_get hout
    have houtcome := hkout
    unfold QueuedJob.outcome at houtcome
    injection houtcome with hkstate hkresult hkcode hkdetail _
    exact ⟨k, hk, hkstate, hkresult, hkcode, hkdetail⟩

/-- A claim of one job, with the default cap. -/
def claimOfOne : ClaimRequest where
  workerCapacity := 1
  leaseOwner := "scheduler-0"
  leaseSeconds := defaultLeaseSeconds
  maxActivePerUser := 1

/-- Transaction `n` sends `k` statements. -/
def sends (n k : Nat) : List (SessionAction QueueOp (List Uuid)) :=
  List.replicate k (.query n [])

/-- Job 7 is enqueued, and a claim is about to commit. -/
def claimingRun : List (SessionAction QueueOp (List Uuid)) :=
  .begin (.enqueue (newJob 7 1 "image_basic" "a" (.obj []) none 0)) ::
    sends 0 2 ++ .commit 0 :: .begin (.claim claimOfOne 0) :: sends 1 5

/-- A scheduler finishes it. -/
def finishingRun : List (SessionAction QueueOp (List Uuid)) :=
  .begin (.call (.markSucceeded 7 ⟨[]⟩) 0) :: sends 2 3

/-- The user cancels too late. -/
def lateCancel : List (SessionAction QueueOp (List Uuid)) :=
  .begin (.call (.cancel 7) 0) :: sends 3 1 ++ [.commit 3]

theorem outcome_run_lateCancel : ∃ s t k,
    queueTransactions.exec newDatabase
      (claimingRun ++ .commit 1 :: finishingRun ++ [.commit 2]) = some s ∧
    queueTransactions.exec s lateCancel = some t ∧
    JobQueue.get t.committed 7 = some k ∧ k.state = .succeeded ∧
    k.result = some ⟨[]⟩ ∧ k.errorCode = none ∧ k.errorDetail = none := by
  have hclaim : ∃ r, queueTransactions.exec newDatabase claimingRun = some r ∧
      Dispatches r (.commit 1) 7 :=
    ⟨_, rfl, _, _, _, ⟨1, rfl, rfl, rfl⟩, rfl, by decide +kernel⟩
  have hfinish : ∃ s, queueTransactions.exec newDatabase
      (claimingRun ++ .commit 1 :: finishingRun) = some s ∧
      Succeeds s (.commit 2) 7 ⟨[]⟩ :=
    ⟨_, rfl, _, _, ⟨2, rfl, rfl, rfl⟩, rfl, by decide +kernel⟩
  obtain ⟨r, hr, hdispatches⟩ := hclaim
  obtain ⟨u, hu, hsucceeds⟩ := hfinish
  obtain ⟨k, hk⟩ := (outcome_run _ lateCancel _ _ rfl rfl 7).2 ⟨[]⟩
    ⟨claimingRun, .commit 1, finishingRun, .commit 2, [], r, u, rfl, hr,
      hdispatches, hu, hsucceeds⟩
  exact ⟨_, _, k, rfl, rfl, hk⟩

/-! ## The log of a job -/

/-- The event that tells that a job has ended this way. -/
def terminalEvent : JobState → Option String
  | .succeeded => some "job_succeeded"
  | .failed => some "job_failed"
  | .cancelled => some "job_cancelled"
  | _ => none

/-- Does the event tell that the job has ended? -/
def EventRow.isTerminal (e : EventRow) : Bool :=
  e.eventType ∈ ["job_succeeded", "job_failed", "job_cancelled"]

/-- How many events of a type a record has. -/
def JobRecord.countEvents (rec : JobRecord) (eventType : String) : Nat :=
  rec.events.countP (fun e => e.eventType = eventType)

/-- The events of a job tell its row and its attempts. -/
structure JobRecord.Replayable (rec : JobRecord) (g : JobRow) : Prop where
  numbers : rec.events.map EventRow.sequenceNo =
    List.range' 1 rec.events.length
  first : rec.events.head?.map EventRow.eventType = some "created"
  retries : rec.countEvents "job_retry_scheduled" = g.currentAttempt
  dispatches : rec.countEvents "dispatched" = rec.attempts.rows.length
  terminal : (rec.events.filter EventRow.isTerminal).map EventRow.eventType =
    (terminalEvent g.state).toList
  last : ∀ e ∈ rec.events, e.isTerminal = true →
    rec.events.getLast? = some e

/-- The next number of a log without gaps. -/
theorem max?_range'_getD (n : Nat) : (List.range' 1 n).max?.getD 0 = n := by
  cases n with
  | zero => rfl
  | succ n =>
      have hmax : (List.range' 1 (n + 1)).max? = some (n + 1) := by
        refine List.max?_eq_some_iff.mpr ⟨?_, fun m hm => ?_⟩
        · rw [List.mem_range'_1]
          omega
        · rw [List.mem_range'_1] at hm
          omega
      rw [hmax]
      rfl

namespace JobRecord

/-- Appending an event to the log of a job that has not ended. -/
theorem Replayable.log {rec rec' : JobRecord} {g g' : JobRow} {i : Uuid}
    {eventType : String} {payload : Json} (h : rec.Replayable g)
    (hlive : terminalEvent g.state = none)
    (hevents : rec'.events = rec.events)
    (hretries : g'.currentAttempt = g.currentAttempt +
      if eventType = "job_retry_scheduled" then 1 else 0)
    (hdispatches : rec'.attempts.rows.length = rec.attempts.rows.length +
      if eventType = "dispatched" then 1 else 0)
    (hterminal : terminalEvent g'.state =
      if eventType ∈ ["job_succeeded", "job_failed", "job_cancelled"] then
        some eventType else none) :
    (rec'.log i eventType payload).Replayable g' := by
  have hnone : rec.events.filter EventRow.isTerminal = [] := by
    have hmap := h.terminal
    rw [hlive] at hmap
    exact List.map_eq_nil_iff.mp hmap
  have hlog : (rec'.log i eventType payload).events = rec.events ++
      [⟨i, rec.events.length + 1, eventType, payload⟩] := by
    show rec'.events ++ _ = _
    rw [hevents, h.numbers, max?_range'_getD]
  have hne : rec.events ≠ [] := by
    intro hnil
    have hfirst := h.first
    rw [hnil] at hfirst
    cases hfirst
  constructor
  · rw [hlog, List.map_append, h.numbers, List.length_append,
      List.length_singleton, List.range'_concat]
    simp [Nat.add_comm]
  · rw [hlog, List.head?_append_of_ne_nil _ hne]
    exact h.first
  · unfold countEvents
    rw [hlog, List.countP_append, hretries]
    have hold := h.retries
    unfold countEvents at hold
    rw [hold]
    simp [List.countP_cons]
  · unfold countEvents
    rw [hlog, List.countP_append]
    have hold := h.dispatches
    unfold countEvents at hold
    rw [hold]
    show _ = rec'.attempts.rows.length
    rw [hdispatches]
    simp [List.countP_cons]
  · rw [hlog, List.filter_append, hnone, List.nil_append, hterminal]
    by_cases hend : eventType ∈ ["job_succeeded", "job_failed",
        "job_cancelled"]
    · rw [if_pos hend]
      simp [EventRow.isTerminal, hend]
    · rw [if_neg hend]
      simp [EventRow.isTerminal, hend]
  · intro e he hend
    rw [hlog] at he ⊢
    rcases List.mem_append.mp he with he | he
    · have hmem : e ∈ rec.events.filter EventRow.isTerminal :=
        List.mem_filter.mpr ⟨he, hend⟩
      rw [hnone] at hmem
      cases hmem
    · obtain rfl := List.mem_singleton.mp he
      rw [List.getLast?_append_of_ne_nil _ (by simp)]
      rfl

/-- Recording a result adds no attempt. -/
theorem length_recordResult (rec : JobRecord) (result : Option JobResult) :
    (rec.recordResult result).attempts.rows.length =
      rec.attempts.rows.length := by
  unfold recordResult
  cases hlatest : rec.latest with
  | none => rfl
  | some a =>
      obtain ⟨n, old⟩ := a
      have hmem : (n, old) ∈ rec.attempts :=
        (Table.find?_eq_some_iff.mp (mem_of_latest hlatest).2).1
      have hkey : n ∈ rec.attempts.rows.map Prod.fst :=
        List.mem_map.mpr ⟨_, hmem, rfl⟩
      show (rec.attempts.put (n, result <|> old)).rows.length = _
      rw [Table.rows_put_of_mem (r := (n, result <|> old)) hkey,
        List.length_map]

theorem terminalEvent_of_live {s : JobState} (h : s.isTerminal = false) :
    terminalEvent s = none := by
  cases s <;> simp_all [JobState.isTerminal, terminalEvent]

/-- The log of a job that is there tells its life. -/
def Chronicled (rec : JobRecord) : Prop :=
  rec.Numbered ∧ ∀ g, rec.row = some g → rec.Replayable g

end JobRecord

/-- A job is enqueued as `queued`, with no attempt charged. -/
def NewlyQueued : QueueOp → Prop
  | .enqueue job => job.state = .queued ∧ job.currentAttempt = 0
  | _ => True

namespace JobRecord

theorem replayable_change {op : QueueOp} {i : Uuid} {rec rec' : JobRecord}
    (hop : NewlyQueued op) (hrec : rec.Chronicled)
    (h : Change op i rec rec') :
    ∀ g', rec'.row = some g' → rec'.Replayable g' := by
  obtain ⟨hnumbered, hlog⟩ := hrec
  intro g' hg'
  cases h with
  | enqueue job modelFamily workflowVersion hnone =>
      obtain rfl := hnumbered.none hnone
      obtain rfl := Option.some.inj hg'
      obtain ⟨hstate, hattempt⟩ := hop
      have hended : terminalEvent job.state = none := by
        rw [hstate]
        rfl
      have hevents : ((empty.setRow (PostgresJobQueue.rowOfJob job modelFamily
          workflowVersion)).log job.id "created" (.obj [])).events =
          [⟨job.id, 1, "created", .obj []⟩] := rfl
      constructor
      · rw [hevents]
        rfl
      · rw [hevents]
        rfl
      · exact hattempt.symm
      · rfl
      · rw [hevents]
        show _ = (terminalEvent job.state).toList
        rw [hended]
        rfl
      · intro e he hend
        rw [hevents, List.mem_singleton] at he
        rw [he] at hend
        cases hend
  | claim req now g hg hwait hnew =>
      obtain ⟨hfree, rfl⟩ := of_newAttempt hnew
      obtain rfl := Option.some.inj hg'
      have hlive := JobState.not_terminal_of_waiting hwait
      refine (hlog g hg).log (terminalEvent_of_live hlive) rfl rfl ?_ rfl
      show (rec.attempts.put (g.currentAttempt + 1, none)).rows.length = _
      have hrows := Table.rows_put_of_find?_none
        (r := (g.currentAttempt + 1, none)) hfree
      exact (congrArg List.length hrows).trans List.length_append
  | markRunning now g hg hlive =>
      obtain rfl := Option.some.inj hg'
      have hold := hlog g hg
      have hended := terminalEvent_of_live hlive
      exact ⟨hold.numbers, hold.first, hold.retries, hold.dispatches,
        hold.terminal.trans (by rw [hended]; rfl), hold.last⟩
  | markSucceeded result now g hg hlive =>
      have hrow := row_recordResult (rec.setRow { g with
        state := .succeeded
        errorCode := none
        errorDetailSanitized := none }) (some result)
      obtain rfl := Option.some.inj (hrow.symm.trans hg')
      exact (hlog g hg).log (terminalEvent_of_live hlive)
        (events_recordResult _ _) rfl (length_recordResult _ _) rfl
  | markFailed errorCode errorDetail now g hg hlive =>
      obtain rfl := Option.some.inj hg'
      exact (hlog g hg).log (terminalEvent_of_live hlive) rfl rfl rfl rfl
  | markRetryWait errorCode errorDetail delaySeconds draw delay now g hg hlive =>
      obtain rfl := Option.some.inj hg'
      exact (hlog g hg).log (terminalEvent_of_live hlive) rfl rfl rfl rfl
  | cancel now g hg hlive =>
      obtain rfl := Option.some.inj hg'
      exact (hlog g hg).log (terminalEvent_of_live hlive) rfl rfl rfl rfl

end JobRecord

/-- The schedule enqueues jobs only as `queued`, with no attempt charged. -/
def EnqueuesNewJobs (as : List (SessionAction QueueOp (List Uuid))) : Prop :=
  ∀ a ∈ as, BeginsAllowed NewlyQueued a

/-- Over every interleaving, in every committed state, there are events of jobs
only, and the events of a job are numbered from one on in the order of their
commits, begin with `created`, and tell its retries, its attempts and its
end. -/
theorem replayable_run (as : List (SessionAction QueueOp (List Uuid)))
    (t : QueueSessions) (hqueued : EnqueuesNewJobs as)
    (hrun : queueTransactions.exec newDatabase as = some t) (i : Uuid) :
    ((t.committed.record i).row = none →
      (t.committed.record i).events = []) ∧
    ∀ g, (t.committed.record i).row = some g →
      (t.committed.record i).Replayable g := by
  have hrule := ledger_rule (P := JobRecord.Chronicled) NewlyQueued
    (fun _ h => h.1) (fun _ _ _ _ hop hrec hchange =>
      ⟨JobRecord.numbered_change hrec.1 hchange,
        JobRecord.replayable_change hop hrec hchange⟩)
  have hempty : JobRecord.Chronicled .empty :=
    ⟨JobRecord.numbered_empty, fun g hg => by cases hg⟩
  have ht := (hrule.run hqueued (inv_init NewlyQueued hempty) hrun).committed i
  constructor
  · intro hnone
    rw [ht.1.none hnone]
    rfl
  · exact ht.2

theorem replayable_run_lateCancel : ∃ t g,
    queueTransactions.exec newDatabase
      (claimingRun ++ .commit 1 :: finishingRun ++ .commit 2 :: lateCancel) =
        some t ∧
    (t.committed.record 7).row = some g ∧
    (t.committed.record 7).Replayable g := by
  have hqueued : EnqueuesNewJobs
      (claimingRun ++ .commit 1 :: finishingRun ++ .commit 2 :: lateCancel) := by
    intro a ha op hop
    subst hop
    simp only [claimingRun, finishingRun, lateCancel, sends, List.mem_append,
      List.mem_cons, List.mem_replicate, SessionAction.begin.injEq, reduceCtorEq,
      and_false, false_or, or_false, List.not_mem_nil] at ha
    rcases ha with ((rfl | rfl) | rfl) | rfl
    · exact ⟨rfl, rfl⟩
    · trivial
    · trivial
    · trivial
  exact ⟨_, _, rfl, rfl, (replayable_run _ _ hqueued rfl 7).2 _ rfl⟩

/-! ## The attempts claims insert -/

/-- An attempt a transaction sees is its own or committed. -/
theorem find?_putAll_attempts {vs : List RowVersion} {k : Uuid × Nat}
    {a : AttemptRow} : ∀ {q : PostgresJobQueue},
      (PostgresJobQueue.database.putAll vs q).jobAttempts.find? k = some a →
      RowVersion.attempt a ∈ vs ∨ q.jobAttempts.find? k = some a := by
  induction vs with
  | nil => exact fun h => Or.inr h
  | cons v rest ih =>
      intro q h
      rcases ih (q := v.put q) h with hmem | hold
      · exact Or.inl (List.mem_cons_of_mem v hmem)
      · cases v with
        | attempt b =>
            have hput := (Table.find?_put q.jobAttempts b k).symm.trans hold
            by_cases hk : k = b.key
            · rw [if_pos hk] at hput
              rw [Option.some.inj hput]
              exact Or.inl (List.mem_cons_self ..)
            · rw [if_neg hk] at hput
              exact Or.inr hput
        | job g => exact Or.inr hold
        | event e => exact Or.inr hold
        | advisory => exact Or.inr hold

/-- The attempt row `a` is what a claim of job `i` leaves: above all attempts
there were, without a prompt, and with the claimer's lease. -/
structure StartsAttempt (before after : PostgresJobQueue) (i : Uuid)
    (req : ClaimRequest) (now : DateTime) (a : AttemptRow) : Prop where
  latest : after.latestAttempt i = some a
  fresh : ∀ b ∈ before.jobAttempts, b.jobId = i → b.attemptNo < a.attemptNo
  prompt : a.comfyPromptId = none
  owner : a.leaseOwner = req.leaseOwner
  expires : a.leaseExpiresAt = now + timedelta req.leaseSeconds
  reported : ∃ j, JobQueue.get after i = some j ∧ j.promptId = none ∧
    j.leaseOwner = some req.leaseOwner ∧
    j.leaseExpiresAt = some (now + timedelta req.leaseSeconds)

namespace JobRecord

theorem latest_claim {req : ClaimRequest} {now : DateTime} {i : Uuid}
    {rec rec' : JobRecord} (hrec : rec.Numbered)
    (h : Change (.claim req now) i rec rec') :
    ∃ g n, rec'.row = some g ∧ rec'.latest = some (n, none) ∧
      ∀ a ∈ rec.attempts, a.1 < n := by
  cases h with
  | claim _ _ g hg hwait hnew =>
      obtain ⟨hfree, rfl⟩ := of_newAttempt hnew
      have hle := hrec.le_waiting g hg hwait
      refine ⟨_, g.currentAttempt + 1, rfl, ?_,
        fun a ha => Nat.lt_succ_of_le (hle a ha)⟩
      have hrows : (rec.attempts.put (g.currentAttempt + 1, none)).rows =
          rec.attempts.rows ++ [(g.currentAttempt + 1, none)] :=
        Table.rows_put_of_find?_none hfree
      have hmax : ((rec.attempts.put (g.currentAttempt + 1, none)).rows.map
          Prod.fst).max? = some (g.currentAttempt + 1) := by
        rw [hrows, List.map_append]
        refine List.max?_eq_some_iff.mpr ⟨by simp, fun n hn => ?_⟩
        rcases List.mem_append.mp hn with hn | hn
        · obtain ⟨a, ha, rfl⟩ := List.mem_map.mp hn
          exact Nat.le_succ_of_le (hle a ha)
        · exact Nat.le_of_eq (List.mem_singleton.mp hn)
      refine (congrArg (Option.bind · _) hmax).trans ?_
      exact (Table.find?_put rec.attempts _ _).trans (if_pos rfl)

end JobRecord

/-- Over every interleaving, no attempt row a claim is about to insert is
there already, and the attempt that a claim leaves for a job it has taken is
new, above all earlier ones, and its own. -/
theorem claim_inserts_run (as : List (SessionAction QueueOp (List Uuid)))
    (s : QueueSessions)
    (hrun : queueTransactions.exec newDatabase as = some s) :
    (∀ n x a next, s.openTx n = some x →
      x.script = .query (.upsertAttempt a) next →
      (x.visible PostgresJobQueue.database s.committed).jobAttempts.find?
        a.key = none) ∧
    ∀ b t x req now i, queueTransactions.step s b = some t →
      Commits s b x → x.op = .claim req now → i ∈ lockedJobs x.writes →
      ∃ a, StartsAttempt s.committed t.committed i req now a := by
  have hs := numbered_run hrun
  constructor
  · intro n x a next hx hscript
    exact (hs.each n x hx).2.attempt_free hscript
  · intro b t x req now i hstep hx hop hi
    have hchange := change_of_commits hs hstep hx hi
    rw [hop] at hchange
    obtain ⟨g, n, hrow, hlatest, habove⟩ :=
      JobRecord.latest_claim (hs.committed i) hchange
    rw [PostgresJobQueue.latest_record] at hlatest
    obtain ⟨a, ha, heq⟩ := Option.map_eq_some_iff.mp hlatest
    have hno : a.attemptNo = n := (Prod.mk.inj heq).1
    have habove' : ∀ c ∈ s.committed.jobAttempts, c.jobId = i →
        c.attemptNo < a.attemptNo := by
      intro c hc hci
      rw [hno]
      exact habove _ (PostgresJobQueue.mem_attempts hc hci)
    -- the row is not there before the commit, so the claim has written it
    have hwritten : RowVersion.attempt a ∈ x.writes := by
      obtain ⟨m, hmax, hfind⟩ := Option.bind_eq_some_iff.mp ha
      have hcommitted : t.committed =
          x.visible PostgresJobQueue.database s.committed :=
        committed_of_commits hx hstep
      rw [hcommitted] at hfind
      rcases find?_putAll_attempts hfind with hmem | hold
      · exact hmem
      · have hkey : a.key = (i, m) := Table.key_of_find? hfind
        have hlt := habove' a (Table.find?_eq_some_iff.mp hold).1
          (Prod.mk.inj hkey).1
        omega
    obtain ⟨k, _, hopen, _⟩ := hx
    obtain ⟨req', now', hop', howner, hexpires, hprompt, _⟩ :=
      (hs.each k x hopen).2.fresh a hwritten req now hop
    rw [hop] at hop'
    cases hop'
    refine ⟨a, ha, habove', hprompt, howner, hexpires, ?_⟩
    have hget : JobQueue.get t.committed i =
        some (PostgresJobQueue.rowToQueuedJob g
          (t.committed.latestAttempt i)) :=
      congrArg (Option.map _) hrow
    refine ⟨_, hget, ?_, ?_, ?_⟩
    · rw [ha]
      exact hprompt
    · rw [ha]
      exact congrArg some howner
    · rw [ha]
      exact congrArg some hexpires

theorem claim_inserts_run_one : ∃ s t a,
    queueTransactions.exec newDatabase claimingRun = some s ∧
    queueTransactions.step s (.commit 1) = some t ∧
    StartsAttempt s.committed t.committed 7 claimOfOne 0 a := by
  obtain ⟨a, ha⟩ := (claim_inserts_run claimingRun _ rfl).2 (.commit 1) _ _
    claimOfOne 0 7 rfl ⟨1, rfl, rfl, rfl⟩ rfl (by decide +kernel)
  exact ⟨_, _, a, rfl, rfl, ha⟩

end Imagin4.Ports
