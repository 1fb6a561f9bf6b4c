import Imagin4.Ports.JobRecords

/-!
# The ledger of a job

Every operation of `PostgresJobQueue` writes the row of a job before it inserts
an attempt, records a result or appends an event, and holds the lock on that
row until it commits.  What it does to the record of a job it has locked is
therefore one `Change`, however its statements are mixed with those of others;
the records of all other jobs it leaves as they are.

## Main results

* `sound_script` — the scripts of all operations keep this discipline.
* `ledger_rule` — a property of records that every change preserves holds of
  every record, together with `Ledger.TxInv` for each open transaction.
* `record_step` — from one committed state to the next, a record is the same or
  has undergone one change.
-/

namespace Imagin4.Ports

open Imagin4.Verified

/-- A transaction of the queue. -/
abbrev QueueTx := Tx QueueOp RowVersion Statement Statement.Answer

namespace Ledger

/-! ## What the rest of a script does -/

/-- What a script does to the record of job `i`, up to the next statement that
reads the job table. -/
def settle (i : Uuid) : PostgresJobQueue.QueueScript → JobRecord →
    Option JobRecord
  | .query (.updateLatestAttempt j set) next, rec =>
      settle i (next ()) (if j = i then rec.recordResult set.result else rec)
  | .query (.upsertAttempt a) next, rec =>
      if a.jobId = i then (rec.newAttempt a.attemptNo).bind (settle i (next ()))
      else settle i (next ()) rec
  | .query (.appendEvent j eventType payload) next, rec =>
      settle i (next ()) (if j = i then rec.log i eventType payload else rec)
  | _, rec => some rec

/-- A script that has nothing more to do for the jobs it has locked. -/
def Settled (script : PostgresJobQueue.QueueScript) : Prop :=
  ∀ i rec, settle i script rec = some rec

/-- Once `rows` are written, the script changes the records of their jobs in
the way of `op`, and no others. -/
structure Takes (op : QueueOp) (rows : List JobRow)
    (script : PostgresJobQueue.QueueScript) : Prop where
  others : ∀ i, i ∉ rows.map JobRow.id → ∀ rec, settle i script rec = some rec
  changes : ∀ g, g.state.isWaiting = true →
    { g with state := .dispatched } ∈ rows → ∀ rec : JobRecord, rec.Numbered →
    rec.row = some g → ∃ rec',
      settle g.id script (rec.setRow { g with state := .dispatched }) =
        some rec' ∧ Change op g.id rec rec'

/-- The attempt row a claim inserts. -/
def FreshAttempt (op : QueueOp) (a : AttemptRow) : Prop :=
  ∃ req now, op = .claim req now ∧ a.leaseOwner = req.leaseOwner ∧
    a.leaseExpiresAt = now + timedelta req.leaseSeconds ∧
    a.comfyPromptId = none ∧ a.result = none

/-- The script keeps the discipline, `locked` being the jobs it has written. -/
def Sound (op : QueueOp) : PostgresJobQueue.QueueScript → List Uuid → Prop
  | .query (.insertJob g) next, locked =>
      locked = [] ∧
      (∀ rec : JobRecord, rec.row = none → ∃ rec',
        settle g.id (next true) (rec.setRow g) = some rec' ∧
          Change op g.id rec rec') ∧
      Sound op (next true) [g.id] ∧ Sound op (next false) []
  | .query (.selectCurrentAttempt _) next, locked =>
      locked = [] ∧ ∀ r, Sound op (next r) []
  | .query (.updateLive id f _) next, locked =>
      locked = [] ∧
      (∀ (rec : JobRecord) g, g.id = id → rec.row = some g →
        g.state.isTerminal = false → ∃ rec',
          settle id (next true) (rec.setRow (f g)) = some rec' ∧
            Change op id rec rec') ∧
      Sound op (next true) [id] ∧ Sound op (next false) []
  | .query (.updateLatestAttempt j set) next, locked =>
      (∀ req now, op ≠ .claim req now) ∧ (j ∈ locked ∨ set.result = none) ∧
        Sound op (next ()) locked
  | .query (.upsertAttempt a) next, locked =>
      a.jobId ∈ locked ∧ FreshAttempt op a ∧ Sound op (next ()) locked
  | .query (.appendEvent j _ _) next, locked =>
      j ∈ locked ∧ Sound op (next ()) locked
  | .query .lockClaims next, locked =>
      Settled (next ()) ∧ Sound op (next ()) locked
  | .query .snapshot next, locked =>
      ∀ q, Settled (next q) ∧ Sound op (next q) locked
  | .query (.claimRows req now _) next, locked =>
      op = .claim req now ∧ locked = [] ∧
      ∀ rows, (rows.map JobRow.id).Nodup →
        Takes op rows (next rows) ∧ Sound op (next rows) (rows.map JobRow.id)
  | .query (.claimRow req now _) next, locked =>
      op = .claim req now ∧
      ∀ r : Option JobRow, (∀ g, r = some g → g.id ∉ locked) →
        Takes op r.toList (next r) ∧
          Sound op (next r) (locked ++ r.toList.map JobRow.id)
  | _, _ => True

/-- Settling a record leaves its row alone. -/
theorem row_settle {i : Uuid} {script : PostgresJobQueue.QueueScript} :
    ∀ {rec rec' : JobRecord}, settle i script rec = some rec' →
      rec'.row = rec.row := by
  induction script with
  | commit =>
      intro rec rec' h
      cases h
      rfl
  | rollback =>
      intro rec rec' h
      cases h
      rfl
  | query q next ih =>
      intro rec rec' h
      cases q with
      | updateLatestAttempt j set =>
          rw [settle] at h
          rw [ih () h]
          split
          · exact JobRecord.row_recordResult _ _
          · rfl
      | upsertAttempt a =>
          rw [settle] at h
          split at h
          · obtain ⟨rec₁, hnew, hrest⟩ := Option.bind_eq_some_iff.mp h
            rw [ih () hrest, (JobRecord.of_newAttempt hnew).2]
            rfl
          · exact ih () h
      | appendEvent j eventType payload =>
          rw [settle] at h
          rw [ih () h]
          split <;> rfl
      | insertJob g =>
          cases h
          rfl
      | selectCurrentAttempt id =>
          cases h
          rfl
      | updateLive id f hf =>
          cases h
          rfl
      | lockClaims =>
          cases h
          rfl
      | snapshot =>
          cases h
          rfl
      | claimRows req now snapshot =>
          cases h
          rfl
      | claimRow req now snapshot =>
          cases h
          rfl

/-! ## The scripts keep the discipline -/

section Scripts

variable {op : QueueOp}

theorem sound_closeAttempt {id : Uuid} {set : AttemptSet} {eventType : String}
    {payload : Json} (hop : ∀ req now, op ≠ .claim req now) :
    Sound op (PostgresJobQueue.closeAttemptScript id set eventType payload)
      [id] :=
  ⟨hop, Or.inl (List.mem_singleton_self id), List.mem_singleton_self id,
    trivial⟩

theorem settle_closeAttempt {id : Uuid} {set : AttemptSet} {eventType : String}
    {payload : Json} (rec : JobRecord) :
    settle id (PostgresJobQueue.closeAttemptScript id set eventType payload)
      rec = some ((rec.recordResult set.result).log id eventType payload) := by
  simp [PostgresJobQueue.closeAttemptScript, settle]

theorem sound_updateLive {id : Uuid} {f : JobRow → JobRow}
    {hf : ∀ g, (f g).id = g.id} {rest : PostgresJobQueue.QueueScript}
    (hrest : Sound op rest [id])
    (hchange : ∀ (rec : JobRecord) g, g.id = id → rec.row = some g →
      g.state.isTerminal = false → ∃ rec',
        settle id rest (rec.setRow (f g)) = some rec' ∧
          Change op id rec rec') :
    Sound op (PostgresJobQueue.updateLiveScript id f hf rest) [] :=
  ⟨rfl, hchange, hrest, trivial⟩

theorem sound_callScript (c : QueueCall) (now : DateTime) :
    Sound (.call c now) (PostgresJobQueue.callScript now c) [] := by
  have hop : ∀ req now', QueueOp.call c now ≠ .claim req now' := by
    intro req now' h
    cases h
  cases c with
  | renewLease id secs => exact ⟨hop, Or.inr rfl, trivial⟩
  | setPromptId id promptId => exact ⟨hop, Or.inr rfl, trivial⟩
  | markRunning id =>
      refine sound_updateLive trivial (fun rec g hid hg hlive => ?_)
      subst hid
      exact ⟨_, rfl, .markRunning now g hg hlive⟩
  | markSucceeded id result =>
      refine sound_updateLive (sound_closeAttempt hop)
        (fun rec g hid hg hlive => ?_)
      subst hid
      exact ⟨_, settle_closeAttempt _, .markSucceeded result now g hg hlive⟩
  | markFailed id errorCode errorDetail =>
      refine sound_updateLive (sound_closeAttempt hop)
        (fun rec g hid hg hlive => ?_)
      subst hid
      have hchange := Change.markFailed errorCode errorDetail now g hg hlive
      refine ⟨_, settle_closeAttempt _, ?_⟩
      rw [JobRecord.recordResult_none]
      exact hchange
  | cancel id =>
      refine sound_updateLive ⟨List.mem_singleton_self id, trivial⟩
        (fun rec g hid hg hlive => ?_)
      subst hid
      refine ⟨_, ?_, .cancel now g hg hlive⟩
      simp [settle]
  | markRetryWait id errorCode errorDetail delaySeconds draw =>
      refine ⟨rfl, fun r => ?_⟩
      cases r with
      | none => trivial
      | some currentAttempt =>
          dsimp only
          cases retryDelay delaySeconds (currentAttempt + 1) draw with
          | error e => trivial
          | ok delay =>
              refine sound_updateLive (sound_closeAttempt hop)
                (fun rec g hid hg hlive => ?_)
              subst hid
              have hchange := Change.markRetryWait errorCode errorDetail
                delaySeconds draw delay now g hg hlive
              refine ⟨_, settle_closeAttempt _, ?_⟩
              rw [JobRecord.recordResult_none]
              exact hchange

theorem sound_enqueueScript (job : QueuedJob) :
    Sound (.enqueue job) (PostgresJobQueue.enqueueScript job) [] := by
  unfold PostgresJobQueue.enqueueScript
  cases PostgresJobQueue.resolveWorkflowDefaults job.kind with
  | none => trivial
  | some defaults =>
      refine ⟨rfl, fun rec hnone => ?_,
        ⟨List.mem_singleton_self _, trivial⟩, trivial⟩
      refine ⟨_, ?_, .enqueue job defaults.1 defaults.2 hnone⟩
      simp [settle, PostgresJobQueue.rowOfJob]

theorem settle_finalize (i : Uuid) (leaseOwner : String)
    (leaseExpiresAt : DateTime) (row : JobRow)
    (next : PostgresJobQueue.QueueScript) (rec : JobRecord) :
    settle i (PostgresJobQueue.finalizeClaimedRow leaseOwner leaseExpiresAt row
        next) rec =
      if row.id = i then
        (rec.newAttempt (row.currentAttempt + 1)).bind (fun rec =>
          settle i next (rec.log i "dispatched"
            (.obj [("attempt_no", .int (row.currentAttempt + 1 : Nat))])))
      else settle i next rec := by
  unfold PostgresJobQueue.finalizeClaimedRow
  by_cases hi : row.id = i
  · simp [settle, hi]
  · simp [settle, hi]

/-- The bookkeeping of a claim inserts one attempt for each row it took. -/
theorem takes_finalize (req : ClaimRequest) (now : DateTime)
    {next : PostgresJobQueue.QueueScript} (hnext : Settled next)
    (rows : List JobRow) : (rows.map JobRow.id).Nodup →
      Takes (.claim req now) rows
        (rows.foldr (PostgresJobQueue.finalizeClaimedRow req.leaseOwner
          (now + timedelta req.leaseSeconds)) next) := by
  induction rows with
  | nil =>
      intro _
      exact ⟨fun i _ rec => hnext i rec, fun g _ hmem => by cases hmem⟩
  | cons row rest ih =>
      intro hnodup
      obtain ⟨hfresh, hrest⟩ := List.nodup_cons.mp hnodup
      have htail := ih hrest
      constructor
      · intro i hi rec
        have hne : row.id ≠ i := fun h => hi (h ▸ List.mem_cons_self ..)
        rw [List.foldr_cons, settle_finalize, if_neg hne]
        exact htail.others i (fun h => hi (List.mem_cons_of_mem _ h)) rec
      · intro g hwait hmem rec hrec hg
        rw [List.foldr_cons, settle_finalize]
        rcases List.mem_cons.mp hmem with heq | hmem
        · subst heq
          have hfree := hrec.free hg hwait
          have hnew : (rec.setRow { g with state := .dispatched }).newAttempt
              (g.currentAttempt + 1) = some
                ((rec.setRow { g with state := .dispatched }).putAttempt
                  (g.currentAttempt + 1) none) := by
            simp [JobRecord.newAttempt, hfree]
          rw [if_pos rfl, hnew, Option.bind_some]
          refine ⟨_, htail.others g.id hfresh _, ?_⟩
          exact .claim req now g hg hwait hnew
        · have hne : row.id ≠ g.id := by
            intro h
            exact hfresh (List.mem_map.mpr ⟨_, hmem, h.symm⟩)
          rw [if_neg hne]
          exact htail.changes g hwait hmem rec hrec hg

theorem sound_finalize (req : ClaimRequest) (now : DateTime)
    {next : PostgresJobQueue.QueueScript} {locked : List Uuid}
    (hnext : Sound (.claim req now) next locked) (rows : List JobRow) :
    (∀ g ∈ rows, g.id ∈ locked) →
      Sound (.claim req now)
        (rows.foldr (PostgresJobQueue.finalizeClaimedRow req.leaseOwner
          (now + timedelta req.leaseSeconds)) next) locked := by
  induction rows with
  | nil => exact fun _ => hnext
  | cons row rest ih =>
      intro hlocked
      have hrow := hlocked row (List.mem_cons_self ..)
      have hrest := ih (fun g hg => hlocked g (List.mem_cons_of_mem _ hg))
      exact ⟨hrow, ⟨req, now, rfl, rfl, rfl, rfl, rfl⟩, hrow, hrest⟩

theorem settled_claimLoop (req : ClaimRequest) (now : DateTime) (n : Nat) :
    Settled (PostgresJobQueue.claimLoop req now n) := by
  intro i rec
  cases n with
  | zero => rfl
  | succ n => rfl

theorem sound_claimLoop (req : ClaimRequest) (now : DateTime) (n : Nat) :
    ∀ locked, Sound (.claim req now) (PostgresJobQueue.claimLoop req now n)
      locked := by
  induction n with
  | zero => exact fun _ => trivial
  | succ n ih =>
      intro locked q
      refine ⟨fun i rec => rfl, rfl, fun r hr => ?_⟩
      cases r with
      | none =>
          exact ⟨⟨fun i _ rec => rfl, fun g _ hmem => by cases hmem⟩, trivial⟩
      | some row =>
          have hnext := settled_claimLoop req now n
          constructor
          · exact takes_finalize req now hnext [row] (by simp)
          · refine sound_finalize req now (ih _) [row] (fun g hg => ?_)
            rw [List.mem_singleton.mp hg]
            exact List.mem_append_right locked (List.mem_singleton_self _)

theorem sound_claimScript (req : ClaimRequest) (now : DateTime) :
    Sound (.claim req now) (PostgresJobQueue.claimScript req now) [] := by
  unfold PostgresJobQueue.claimScript
  by_cases hzero : req.workerCapacity = 0
  · rw [if_pos hzero]
    trivial
  · rw [if_neg hzero]
    by_cases hcap : req.maxActivePerUser ≤ 0
    · rw [if_pos hcap]
      intro q
      refine ⟨fun i rec => rfl, rfl, rfl, fun rows hnodup => ⟨?_, ?_⟩⟩
      · exact takes_finalize req now (fun i rec => rfl) rows hnodup
      · have hend : Sound (.claim req now) .commit (rows.map JobRow.id) :=
          trivial
        exact sound_finalize req now hend rows
          (fun g hg => List.mem_map_of_mem hg)
    · rw [if_neg hcap]
      exact ⟨settled_claimLoop req now _, sound_claimLoop req now _ []⟩

/-- The scripts of all operations keep the discipline. -/
theorem sound_script (op : QueueOp) : Sound op op.script [] := by
  cases op with
  | enqueue job => exact sound_enqueueScript job
  | claim req now => exact sound_claimScript req now
  | call c now => exact sound_callScript c now

end Scripts

/-! ## The invariant of a transaction -/

/-- The job a row version locks. -/
def jobOf : RowVersion → Option Uuid
  | .job g => some g.id
  | _ => none

/-- The jobs whose rows a transaction has written. -/
def lockedJobs (vs : List RowVersion) : List Uuid := vs.filterMap jobOf

theorem mem_lockedJobs {vs : List RowVersion} {i : Uuid} :
    i ∈ lockedJobs vs ↔ ∃ g, RowVersion.job g ∈ vs ∧ g.id = i := by
  constructor
  · intro h
    obtain ⟨v, hv, hi⟩ := List.mem_filterMap.mp h
    cases v with
    | job g => exact ⟨g, hv, Option.some.inj hi⟩
    | attempt a => cases hi
    | event e => cases hi
    | advisory => cases hi
  · rintro ⟨g, hg, rfl⟩
    exact List.mem_filterMap.mpr ⟨.job g, hg, rfl⟩

theorem lockedJobs_append (vs ws : List RowVersion) :
    lockedJobs (vs ++ ws) = lockedJobs vs ++ lockedJobs ws :=
  List.filterMap_append

theorem lockedJobs_map_job (rows : List JobRow) :
    lockedJobs (rows.map .job) = rows.map JobRow.id := by
  unfold lockedJobs
  rw [List.filterMap_map]
  exact List.filterMap_eq_map.symm ▸ rfl

/-- What holds of an open transaction while `d` is committed. -/
structure TxInv (d : PostgresJobQueue) (x : QueueTx) : Prop where
  sound : Sound x.op x.script (lockedJobs x.writes)
  changes : ∀ i ∈ lockedJobs x.writes, ∃ rec',
    settle i x.script ((x.visible PostgresJobQueue.database d).record i) =
      some rec' ∧ Change x.op i (d.record i) rec'
  attempts : ∀ a, .attempt a ∈ x.writes → a.jobId ∉ lockedJobs x.writes →
    ∃ b, d.jobAttempts.find? a.key = some b ∧ b.result = a.result
  events : ∀ e, .event e ∈ x.writes → e.jobId ∈ lockedJobs x.writes
  fresh : ∀ a, .attempt a ∈ x.writes → ∀ req now, x.op = .claim req now →
    FreshAttempt x.op a

section Transaction

variable {d : PostgresJobQueue} {x y : QueueTx} {i : Uuid}

/-- A transaction leaves the records of the jobs it has not locked. -/
theorem TxInv.record_of_not_locked (hx : TxInv d x)
    (hi : i ∉ lockedJobs x.writes) :
    (x.visible PostgresJobQueue.database d).record i = d.record i := by
  have hone : ∀ v ∈ x.writes, v.putRecord i (d.record i) = d.record i := by
    intro v hv
    cases v with
    | job g =>
        have hne : g.id ≠ i := fun h => hi (mem_lockedJobs.mpr ⟨g, hv, h⟩)
        exact RowVersion.putRecord_job_ne hne
    | attempt a =>
        by_cases ha : a.jobId = i
        · obtain ⟨b, hb, hresult⟩ := hx.attempts a hv (ha ▸ hi)
          have hab : b.key = a.key := Table.key_of_find? hb
          have hno : b.attemptNo = a.attemptNo := (Prod.mk.inj hab).2
          have hkey : (i, a.attemptNo) = a.key := by rw [← ha]
          have hfind : (d.record i).attempts.find? a.attemptNo =
              some (a.attemptNo, a.result) := by
            rw [PostgresJobQueue.find?_attempts, hkey, hb, Option.map_some, hno,
              hresult]
          refine (if_pos ha).trans ?_
          show { d.record i with
            attempts := (d.record i).attempts.put (a.attemptNo, a.result) } = _
          rw [Table.put_eq_self hfind]
        · exact if_neg ha
    | event e =>
        have hne : e.jobId ≠ i := fun h => hi (h ▸ hx.events e hv)
        exact if_neg hne
    | advisory => rfl
  exact (PostgresJobQueue.record_putAll i x.writes d).trans
    (RowVersion.foldl_putRecord_eq_self hone)

/-- A transaction that has locked a job and has nothing left to do has changed
its record once. -/
theorem TxInv.change_of_commit (hx : TxInv d x) (hscript : x.script = .commit)
    (hi : i ∈ lockedJobs x.writes) :
    Change x.op i (d.record i)
      ((x.visible PostgresJobQueue.database d).record i) := by
  obtain ⟨rec', hsettle, hchange⟩ := hx.changes i hi
  rw [hscript] at hsettle
  cases hsettle
  exact hchange

/-- A statement keeps the invariant, if what it does to the records is what the
script had in mind. -/
theorem TxInv.next (hx : TxInv d x) (vs : List RowVersion)
    (script : PostgresJobQueue.QueueScript)
    (hsound : Sound x.op script (lockedJobs x.writes ++ lockedJobs vs))
    (hold : ∀ i ∈ lockedJobs x.writes, ∀ rec rec',
      rec = (x.visible PostgresJobQueue.database d).record i →
      settle i x.script rec = some rec' →
      settle i script (vs.foldl (fun rec v => v.putRecord i rec) rec) =
        some rec')
    (hnew : ∀ i ∈ lockedJobs vs, i ∉ lockedJobs x.writes → ∃ rec',
      settle i script
        (vs.foldl (fun rec v => v.putRecord i rec) (d.record i)) = some rec' ∧
      Change x.op i (d.record i) rec')
    (hattempts : ∀ a, .attempt a ∈ vs →
      (a.jobId ∈ lockedJobs x.writes ∨
        ∃ b, d.jobAttempts.find? a.key = some b ∧ b.result = a.result) ∧
      ∀ req now, x.op = .claim req now → FreshAttempt x.op a)
    (hevents : ∀ e, .event e ∈ vs → e.jobId ∈ lockedJobs x.writes) :
    TxInv d (x.next vs script) := by
  have hlocked : lockedJobs (x.next vs script).writes =
      lockedJobs x.writes ++ lockedJobs vs := lockedJobs_append ..
  have hrecord : ∀ i,
      ((x.next vs script).visible PostgresJobQueue.database d).record i =
        vs.foldl (fun rec v => v.putRecord i rec)
          ((x.visible PostgresJobQueue.database d).record i) := by
    intro i
    rw [Tx.visible_next, PostgresJobQueue.record_putAll]
  constructor
  · rw [hlocked]
    exact hsound
  · intro i hi
    rw [hrecord]
    by_cases hmem : i ∈ lockedJobs x.writes
    · obtain ⟨rec', hsettle, hchange⟩ := hx.changes i hmem
      exact ⟨rec', hold i hmem _ rec' rfl hsettle, hchange⟩
    · rw [hlocked] at hi
      rw [hx.record_of_not_locked hmem]
      exact hnew i ((List.mem_append.mp hi).resolve_left hmem) hmem
  · intro a ha hnot
    rw [hlocked] at hnot
    have hleft : a.jobId ∉ lockedJobs x.writes :=
      fun h => hnot (List.mem_append_left _ h)
    rcases List.mem_append.mp ha with ha | ha
    · exact hx.attempts a ha hleft
    · exact (hattempts a ha).1.resolve_left hleft
  · intro e he
    rw [hlocked]
    rcases List.mem_append.mp he with he | he
    · exact List.mem_append_left _ (hx.events e he)
    · exact List.mem_append_left _ (hevents e he)
  · intro a ha req now hop
    rcases List.mem_append.mp ha with ha | ha
    · exact hx.fresh a ha req now hop
    · exact (hattempts a ha).2 req now hop

/-- A statement that writes nothing. -/
theorem TxInv.silent (hx : TxInv d x) (script : PostgresJobQueue.QueueScript)
    (hsound : Sound x.op script (lockedJobs x.writes))
    (hold : ∀ i ∈ lockedJobs x.writes, ∀ rec rec',
      rec = (x.visible PostgresJobQueue.database d).record i →
      settle i x.script rec = some rec' → settle i script rec = some rec') :
    TxInv d (x.next [] script) := by
  refine hx.next [] script ?_ hold (fun i hi => by cases hi)
    (fun a ha => by cases ha) (fun e he => by cases he)
  have hnil : lockedJobs x.writes ++ lockedJobs [] = lockedJobs x.writes :=
    List.append_nil _
  rw [hnil]
  exact hsound

/-- A statement that takes rows. -/
theorem TxInv.take (hx : TxInv d x) (hd : ∀ i, (d.record i).Numbered)
    {rows : List JobRow} {script : PostgresJobQueue.QueueScript}
    (hsettled : ∀ i rec, settle i x.script rec = some rec)
    (htakes : Takes x.op rows script)
    (hsound : Sound x.op script (lockedJobs x.writes ++ rows.map JobRow.id))
    (hnodup : (rows.map JobRow.id).Nodup)
    (hfresh : ∀ g ∈ rows, g.id ∉ lockedJobs x.writes)
    (hrows : ∀ g ∈ rows, ∃ g', g = { g' with state := .dispatched } ∧
      g'.state.isWaiting = true ∧
      ((x.visible PostgresJobQueue.database d).record g.id).row = some g') :
    TxInv d (x.next (rows.map .job) script) := by
  refine hx.next _ _ ?_ ?_ ?_ ?_ ?_
  · rw [lockedJobs_map_job]
    exact hsound
  · intro i hi rec rec' _ hsettle
    rw [hsettled] at hsettle
    cases hsettle
    have hnot : i ∉ rows.map JobRow.id := by
      intro hmem
      obtain ⟨g, hg, rfl⟩ := List.mem_map.mp hmem
      exact hfresh g hg hi
    rw [RowVersion.foldl_putRecord_of_not_mem hnot]
    exact htakes.others i hnot rec
  · intro i hi hnot
    rw [lockedJobs_map_job] at hi
    obtain ⟨g, hg, rfl⟩ := List.mem_map.mp hi
    obtain ⟨g', rfl, hwait, hrow⟩ := hrows g hg
    rw [RowVersion.foldl_putRecord_of_mem hnodup hg]
    rw [hx.record_of_not_locked hnot] at hrow
    exact htakes.changes g' hwait hg _ (hd _) hrow
  · intro a ha
    obtain ⟨g, _, hg⟩ := List.mem_map.mp ha
    cases hg
  · intro e he
    obtain ⟨g, _, hg⟩ := List.mem_map.mp he
    cases hg

/-- Rows that are looked up again, each under its own id. -/
theorem of_filterMap_take {f : JobRow → Option JobRow} {P : JobRow → Prop}
    {rows : List JobRow} {n : Nat}
    (hf : ∀ g h, f g = some h → h.id = g.id ∧ P h)
    (hnodup : (rows.map JobRow.id).Nodup) :
    (((rows.filterMap f).take n).map JobRow.id).Nodup ∧
      ∀ h ∈ (rows.filterMap f).take n, P h := by
  have hsub : ((rows.filterMap f).map JobRow.id).Sublist
      (rows.map JobRow.id) := by
    clear hnodup
    induction rows with
    | nil => exact List.Sublist.slnil
    | cons g rest ih =>
        rw [List.filterMap_cons, List.map_cons]
        split
        · exact ih.cons _
        · rename_i h hh
          rw [List.map_cons, (hf g h hh).1]
          exact ih.cons_cons _
  constructor
  · exact hnodup.sublist (((List.take_sublist _ _).map JobRow.id).trans hsub)
  · intro h hmem
    obtain ⟨g, _, hpick⟩ := List.mem_filterMap.mp (List.mem_of_mem_take hmem)
    exact (hf g h hpick).2

/-- The rows of a claim without a cap: present, waiting, each once. -/
theorem of_pickRows (req : ClaimRequest) (locked : List Uuid) (now : DateTime)
    (snapshot current : PostgresJobQueue) :
    ((PostgresJobQueue.pickRows req locked now snapshot current).map
        JobRow.id).Nodup ∧
      ∀ g ∈ PostgresJobQueue.pickRows req locked now snapshot current,
        current.generationJobs.find? g.id = some g ∧
          g.state.isWaiting = true := by
  refine of_filterMap_take (fun g h hpick => ?_)
    (PostgresJobQueue.ordered_nodup now
      (PostgresJobQueue.eligible req.kinds locked now) snapshot)
  split at hpick
  · rename_i g' hg'
    split at hpick
    · rename_i helig
      cases hpick
      have hkey : h.id = g.id := Table.key_of_find? hg'
      exact ⟨hkey, hkey ▸ hg', PostgresJobQueue.waiting_of_eligible helig⟩
    · cases hpick
  · cases hpick

/-- The job a claim has taken is dispatched. -/
theorem dispatched_of_change {req : ClaimRequest} {now : DateTime}
    {rec rec' : JobRecord} (h : Change (.claim req now) i rec rec') :
    ∃ g, rec'.row = some g ∧ g.state = .dispatched := by
  cases h with
  | claim _ _ g hg hwait hnew =>
      obtain ⟨_, rfl⟩ := JobRecord.of_newAttempt hnew
      exact ⟨_, rfl, rfl⟩

section Statement

variable {skipped : List Uuid} {held : LockKey → Bool} {vs : List RowVersion}

theorem TxInv.insertJob (hx : TxInv d x) {g : JobRow}
    {next : Bool → PostgresJobQueue.QueueScript} {r : Bool}
    (hscript : x.script = .query (.insertJob g) next)
    (hanswer : PostgresJobQueue.answer (.insertJob g) skipped held
      (x.visible PostgresJobQueue.database d) = some (vs, r)) :
    TxInv d (x.next vs (next r)) := by
  have hsound := hx.sound
  rw [hscript] at hsound
  obtain ⟨hnil, hchange, htrue, hfalse⟩ := hsound
  simp only [PostgresJobQueue.answer] at hanswer
  split at hanswer
  · cases hanswer
    refine hx.silent _ (hnil ▸ hfalse) (fun i hi => ?_)
    rw [hnil] at hi
    cases hi
  · rename_i htaken
    obtain ⟨rfl, rfl, _⟩ := PostgresJobQueue.of_write hanswer
    refine hx.next _ _ (by rw [hnil]; exact htrue) (fun i hi => ?_)
      (fun i hi hnot => ?_) (fun a ha => ?_) (fun e he => ?_)
    · rw [hnil] at hi
      cases hi
    · obtain rfl : i = g.id := by simpa [lockedJobs, jobOf] using hi
      have hnone : (d.record g.id).row = none := by
        rw [← hx.record_of_not_locked hnot]
        simp only [PostgresJobQueue.taken, Bool.or_eq_true, not_or,
          Bool.not_eq_true, Option.isSome_eq_false_iff] at htaken
        exact Option.isNone_iff_eq_none.mp htaken.1
      rw [List.foldl_cons, List.foldl_nil, RowVersion.putRecord_job_self]
      exact hchange _ hnone
    · simp at ha
    · simp at he

theorem TxInv.updateLive (hx : TxInv d x) {id : Uuid} {f : JobRow → JobRow}
    {hf : ∀ g, (f g).id = g.id} {next : Bool → PostgresJobQueue.QueueScript}
    {r : Bool} (hscript : x.script = .query (.updateLive id f hf) next)
    (hanswer : PostgresJobQueue.answer (.updateLive id f hf) skipped held
      (x.visible PostgresJobQueue.database d) = some (vs, r)) :
    TxInv d (x.next vs (next r)) := by
  have hsound := hx.sound
  rw [hscript] at hsound
  obtain ⟨hnil, hchange, htrue, hfalse⟩ := hsound
  have hsilent : TxInv d (x.next [] (next false)) := by
    refine hx.silent _ (hnil ▸ hfalse) (fun i hi => ?_)
    rw [hnil] at hi
    cases hi
  simp only [PostgresJobQueue.answer] at hanswer
  split at hanswer
  · cases hanswer
    exact hsilent
  · rename_i g hrow
    split at hanswer
    · cases hanswer
      exact hsilent
    · rename_i hlive
      obtain ⟨rfl, rfl, _⟩ := PostgresJobQueue.of_write hanswer
      have hid : g.id = id := Table.key_of_find? hrow
      have hfid : (f g).id = id := (hf g).trans hid
      have hjobs : lockedJobs [RowVersion.job (f g)] = [id] := by
        simp [lockedJobs, jobOf, hfid]
      refine hx.next _ _ (by rw [hnil, hjobs]; exact htrue)
        (fun i hi => ?_) (fun i hi hnot => ?_) (fun a ha => ?_)
        (fun e he => ?_)
      · rw [hnil] at hi
        cases hi
      · rw [hjobs] at hi
        obtain rfl := List.mem_singleton.mp hi
        have hput : (RowVersion.job (f g)).putRecord i (d.record i) =
            (d.record i).setRow (f g) := if_pos hfid
        rw [List.foldl_cons, List.foldl_nil, hput]
        refine hchange _ g hid ?_ (by simpa using hlive)
        rw [← hx.record_of_not_locked hnot]
        exact hrow
      · simp at ha
      · simp at he

theorem TxInv.updateLatestAttempt (hx : TxInv d x) {j : Uuid}
    {set : AttemptSet} {next : Unit → PostgresJobQueue.QueueScript}
    (hscript : x.script = .query (.updateLatestAttempt j set) next)
    (hanswer : PostgresJobQueue.answer (.updateLatestAttempt j set) skipped
      held (x.visible PostgresJobQueue.database d) = some (vs, ())) :
    TxInv d (x.next vs (next ())) := by
  have hsound := hx.sound
  rw [hscript] at hsound
  obtain ⟨hop, hset, hnext⟩ := hsound
  have hlatest := PostgresJobQueue.latest_record j
    (x.visible PostgresJobQueue.database d)
  simp only [PostgresJobQueue.answer] at hanswer
  split at hanswer
  · rename_i hnone
    cases hanswer
    refine hx.silent _ hnext (fun i hi rec rec' hrec hsettle => ?_)
    rw [hscript, settle] at hsettle
    have hsame : (if j = i then rec.recordResult set.result else rec) =
        rec := by
      split
      · rename_i hji
        subst hji hrec
        unfold JobRecord.recordResult
        rw [hlatest, hnone]
        rfl
      · rfl
    rw [hsame] at hsettle
    exact hsettle
  · rename_i a ha
    obtain ⟨rfl, _, _⟩ := PostgresJobQueue.of_write hanswer
    rw [ha, Option.map_some] at hlatest
    obtain ⟨n, _, hfind⟩ := Option.bind_eq_some_iff.mp ha
    have hkey : a.key = (j, n) := Table.key_of_find? hfind
    have hjob : a.jobId = j := (Prod.mk.inj hkey).1
    refine hx.next _ _ ?_ (fun i hi rec rec' hrec hsettle => ?_)
      (fun i hi => by cases hi) (fun b hb => ⟨?_, ?_⟩)
      (fun e he => by simp at he)
    · have hnil : lockedJobs x.writes ++
          lockedJobs [RowVersion.attempt (set.apply a)] =
          lockedJobs x.writes := List.append_nil _
      rw [hnil]
      exact hnext
    · rw [hscript, settle] at hsettle
      have hput : (RowVersion.attempt (set.apply a)).putRecord i rec =
          if j = i then rec.recordResult set.result else rec := by
        show (if a.jobId = i then rec.putAttempt a.attemptNo
          (set.result <|> a.result) else rec) = _
        rw [hjob]
        split
        · rename_i hji
          subst hji hrec
          unfold JobRecord.recordResult
          rw [hlatest]
        · rfl
      rw [List.foldl_cons, List.foldl_nil, hput]
      exact hsettle
    · obtain rfl : b = set.apply a := by simpa using hb
      rcases Classical.em (j ∈ lockedJobs x.writes) with hmem | hnot
      · exact Or.inl (hjob ▸ hmem)
      · have hresult := hset.resolve_left hnot
        have hrecord := hx.record_of_not_locked hnot
        have hold := (JobRecord.mem_of_latest hlatest).2
        rw [hrecord, PostgresJobQueue.find?_attempts] at hold
        obtain ⟨b, hb, heq⟩ := Option.map_eq_some_iff.mp hold
        refine Or.inr ⟨b, ?_, ?_⟩
        · show d.jobAttempts.find? (a.jobId, a.attemptNo) = some b
          rw [hjob]
          exact hb
        · show b.result = (set.result <|> a.result)
          rw [hresult]
          exact (Prod.mk.inj heq).2
    · exact fun req now hclaim => absurd hclaim (hop req now)

/-- The attempt a claim inserts is not there yet. -/
theorem TxInv.attempt_free (hx : TxInv d x) {a : AttemptRow}
    {next : Unit → PostgresJobQueue.QueueScript}
    (hscript : x.script = .query (.upsertAttempt a) next) :
    (x.visible PostgresJobQueue.database d).jobAttempts.find? a.key =
      none := by
  have hsound := hx.sound
  rw [hscript] at hsound
  obtain ⟨rec', hsettle, _⟩ := hx.changes a.jobId hsound.1
  rw [hscript, settle, if_pos rfl] at hsettle
  obtain ⟨rec₁, hnew, _⟩ := Option.bind_eq_some_iff.mp hsettle
  have hfree := (JobRecord.of_newAttempt hnew).1
  rw [PostgresJobQueue.find?_attempts] at hfree
  exact Option.map_eq_none_iff.mp hfree

theorem TxInv.upsertAttempt (hx : TxInv d x) {a : AttemptRow}
    {next : Unit → PostgresJobQueue.QueueScript}
    (hscript : x.script = .query (.upsertAttempt a) next)
    (hanswer : PostgresJobQueue.answer (.upsertAttempt a) skipped held
      (x.visible PostgresJobQueue.database d) = some (vs, ())) :
    TxInv d (x.next vs (next ())) := by
  have hsound := hx.sound
  rw [hscript] at hsound
  obtain ⟨hlocked, hfresh, hnext⟩ := hsound
  simp only [PostgresJobQueue.answer, hx.attempt_free hscript] at hanswer
  obtain ⟨rfl, _, _⟩ := PostgresJobQueue.of_write hanswer
  have hresult : a.result = none := by
    obtain ⟨_, _, _, _, _, _, hresult⟩ := hfresh
    exact hresult
  refine hx.next _ _ ?_ (fun i hi rec rec' _ hsettle => ?_)
    (fun i hi => by cases hi) (fun b hb => ?_) (fun e he => by simp at he)
  · have hnil : lockedJobs x.writes ++ lockedJobs [RowVersion.attempt a] =
        lockedJobs x.writes := List.append_nil _
    rw [hnil]
    exact hnext
  · rw [hscript, settle] at hsettle
    have hput : (RowVersion.attempt a).putRecord i rec =
        if a.jobId = i then rec.putAttempt a.attemptNo a.result else rec := rfl
    rw [List.foldl_cons, List.foldl_nil, hput]
    by_cases hi : a.jobId = i
    · rw [if_pos hi] at hsettle
      obtain ⟨rec₁, hnew, hrest⟩ := Option.bind_eq_some_iff.mp hsettle
      obtain ⟨_, rfl⟩ := JobRecord.of_newAttempt hnew
      rw [if_pos hi, hresult]
      exact hrest
    · rw [if_neg hi] at hsettle
      rw [if_neg hi]
      exact hsettle
  · obtain rfl : b = a := by simpa using hb
    exact ⟨Or.inl hlocked, fun _ _ _ => hfresh⟩

theorem TxInv.appendEvent (hx : TxInv d x) {j : Uuid} {eventType : String}
    {payload : Json} {next : Unit → PostgresJobQueue.QueueScript}
    (hscript : x.script = .query (.appendEvent j eventType payload) next)
    (hanswer : PostgresJobQueue.answer (.appendEvent j eventType payload)
      skipped held (x.visible PostgresJobQueue.database d) = some (vs, ())) :
    TxInv d (x.next vs (next ())) := by
  have hsound := hx.sound
  rw [hscript] at hsound
  obtain ⟨hlocked, hnext⟩ := hsound
  obtain ⟨rfl, _, _⟩ := PostgresJobQueue.of_write hanswer
  refine hx.next _ _ ?_ (fun i hi rec rec' hrec hsettle => ?_)
    (fun i hi => by cases hi) (fun a ha => by simp at ha) (fun e he => ?_)
  · have hnil : lockedJobs x.writes ++ lockedJobs [RowVersion.event ⟨j,
        (x.visible PostgresJobQueue.database d).nextSequenceNo j, eventType,
        payload⟩] = lockedJobs x.writes := List.append_nil _
    rw [hnil]
    exact hnext
  · rw [hscript, settle] at hsettle
    rw [List.foldl_cons, List.foldl_nil]
    unfold RowVersion.putRecord
    dsimp only
    by_cases hji : j = i
    · subst hji hrec
      rw [if_pos rfl] at hsettle ⊢
      exact hsettle
    · rw [if_neg hji] at hsettle ⊢
      exact hsettle
  · simp only [List.mem_singleton, RowVersion.event.injEq] at he
    rw [he]
    exact hlocked

theorem TxInv.lockClaims (hx : TxInv d x)
    {next : Unit → PostgresJobQueue.QueueScript}
    (hscript : x.script = .query .lockClaims next)
    (hanswer : PostgresJobQueue.answer .lockClaims skipped held
      (x.visible PostgresJobQueue.database d) = some (vs, ())) :
    TxInv d (x.next vs (next ())) := by
  have hsound := hx.sound
  rw [hscript] at hsound
  obtain ⟨rfl, _, _⟩ := PostgresJobQueue.of_write hanswer
  refine hx.next _ _ ?_ (fun i hi rec rec' _ hsettle => ?_)
    (fun i hi => by cases hi) (fun a ha => by simp at ha)
    (fun e he => by simp at he)
  · have hnil : lockedJobs x.writes ++ lockedJobs [RowVersion.advisory] =
        lockedJobs x.writes := List.append_nil _
    rw [hnil]
    exact hsound.2
  · rw [hscript] at hsettle
    cases hsettle
    exact hsound.1 i rec

theorem TxInv.claimRows (hx : TxInv d x) (hd : ∀ i, (d.record i).Numbered)
    {req : ClaimRequest} {now : DateTime} {snapshot : PostgresJobQueue}
    {next : List JobRow → PostgresJobQueue.QueueScript} {r : List JobRow}
    (hscript : x.script = .query (.claimRows req now snapshot) next)
    (hanswer : PostgresJobQueue.answer (.claimRows req now snapshot) skipped
      held (x.visible PostgresJobQueue.database d) = some (vs, r)) :
    TxInv d (x.next vs (next r)) := by
  have hsound := hx.sound
  rw [hscript] at hsound
  obtain ⟨_, hnil, hnext⟩ := hsound
  simp only [PostgresJobQueue.answer] at hanswer
  obtain ⟨hnodup, hpicked⟩ := of_pickRows req
    ((x.visible PostgresJobQueue.database d).lockedRows held skipped) now
    snapshot (x.visible PostgresJobQueue.database d)
  generalize PostgresJobQueue.pickRows req _ now snapshot _ = picked at *
  obtain ⟨rfl, rfl, _⟩ := PostgresJobQueue.of_write hanswer
  have hids : (picked.map (fun g => { g with state := .dispatched })).map
      JobRow.id = picked.map JobRow.id := by simp
  have hrows := hnext (picked.map (fun g => { g with state := .dispatched }))
    (by rw [hids]; exact hnodup)
  refine hx.take hd (fun i rec => by rw [hscript]; rfl) hrows.1
    (by rw [hnil]; exact hrows.2) (by rw [hids]; exact hnodup)
    (fun g _ => by rw [hnil]; exact List.not_mem_nil) (fun g hg => ?_)
  obtain ⟨g', hg', rfl⟩ := List.mem_map.mp hg
  obtain ⟨hrow, hwait⟩ := hpicked g' hg'
  exact ⟨g', rfl, hwait, hrow⟩

theorem TxInv.claimRow (hx : TxInv d x) (hd : ∀ i, (d.record i).Numbered)
    {req : ClaimRequest} {now : DateTime} {snapshot : PostgresJobQueue}
    {next : Option JobRow → PostgresJobQueue.QueueScript} {r : Option JobRow}
    (hscript : x.script = .query (.claimRow req now snapshot) next)
    (hanswer : PostgresJobQueue.answer (.claimRow req now snapshot) skipped
      held (x.visible PostgresJobQueue.database d) = some (vs, r)) :
    TxInv d (x.next vs (next r)) := by
  have hsound := hx.sound
  rw [hscript] at hsound
  obtain ⟨hop, hnext⟩ := hsound
  simp only [PostgresJobQueue.answer] at hanswer
  split at hanswer
  · cases hanswer
    obtain ⟨htakes, hrest⟩ := hnext none (fun g hg => by cases hg)
    have hnil : lockedJobs x.writes ++ (none : Option JobRow).toList.map
        JobRow.id = lockedJobs x.writes := List.append_nil _
    refine hx.silent _ (hnil ▸ hrest) (fun i hi rec rec' _ hsettle => ?_)
    rw [hscript] at hsettle
    cases hsettle
    exact htakes.others i List.not_mem_nil rec
  · rename_i g hpick
    obtain ⟨rfl, rfl, _⟩ := PostgresJobQueue.of_write hanswer
    obtain ⟨hrow, hwait, _⟩ := PostgresJobQueue.of_pickRow hpick
    -- a job the transaction has taken before is dispatched for it
    have hnot : g.id ∉ lockedJobs x.writes := by
      intro hmem
      obtain ⟨rec', hsettle, hchange⟩ := hx.changes g.id hmem
      rw [hop] at hchange
      obtain ⟨g', hg', hstate⟩ := dispatched_of_change hchange
      have hvisible : rec'.row = some g := (row_settle hsettle).trans hrow
      rw [hvisible] at hg'
      cases hg'
      rw [hstate] at hwait
      cases hwait
    obtain ⟨htakes, hrest⟩ := hnext (some { g with state := .dispatched })
      (fun h hh => by cases hh; exact hnot)
    refine hx.take hd (fun i rec => by rw [hscript]; rfl) htakes hrest
      (List.nodup_singleton _) (fun h hh => ?_) (fun h hh => ?_)
    · obtain rfl := List.mem_singleton.mp hh
      exact hnot
    · obtain rfl := List.mem_singleton.mp hh
      exact ⟨g, rfl, hwait, hrow⟩

end Statement

/-- One statement keeps the invariant. -/
theorem TxInv.query (hx : TxInv d x) (hd : ∀ i, (d.record i).Numbered)
    {q : Statement} {next : q.Answer → PostgresJobQueue.QueueScript}
    {skipped : List Uuid} {held : LockKey → Bool} {vs : List RowVersion}
    {r : q.Answer} (hscript : x.script = .query q next)
    (hanswer : PostgresJobQueue.answer q skipped held
      (x.visible PostgresJobQueue.database d) = some (vs, r)) :
    TxInv d (x.next vs (next r)) := by
  cases q with
  | insertJob g => exact hx.insertJob hscript hanswer
  | selectCurrentAttempt id =>
      have hsound := hx.sound
      rw [hscript] at hsound
      obtain ⟨hnil, hnext⟩ := hsound
      cases hanswer
      refine hx.silent _ (hnil ▸ hnext _) (fun i hi => ?_)
      rw [hnil] at hi
      cases hi
  | updateLive id f hf => exact hx.updateLive hscript hanswer
  | updateLatestAttempt j set => exact hx.updateLatestAttempt hscript hanswer
  | upsertAttempt a => exact hx.upsertAttempt hscript hanswer
  | appendEvent j eventType payload => exact hx.appendEvent hscript hanswer
  | lockClaims => exact hx.lockClaims hscript hanswer
  | snapshot =>
      have hsound := hx.sound
      rw [hscript] at hsound
      cases hanswer
      refine hx.silent _ (hsound _).2 (fun i hi rec rec' _ hsettle => ?_)
      rw [hscript] at hsettle
      cases hsettle
      exact (hsound _).1 i rec
  | claimRows req now snapshot => exact hx.claimRows hd hscript hanswer
  | claimRow req now snapshot => exact hx.claimRow hd hscript hanswer

/-! ## Commits of others -/

theorem find?_putAll_of_not {vs : List RowVersion} {k : Uuid × Nat} :
    ∀ {q : PostgresJobQueue}, (∀ a, RowVersion.attempt a ∈ vs → a.key ≠ k) →
      (PostgresJobQueue.database.putAll vs q).jobAttempts.find? k =
        q.jobAttempts.find? k := by
  induction vs with
  | nil => exact fun _ => rfl
  | cons v rest ih =>
      intro q h
      have hrest := ih (q := v.put q)
        (fun a ha => h a (List.mem_cons_of_mem v ha))
      refine hrest.trans ?_
      cases v with
      | attempt a =>
          have hne := h a (List.mem_cons_self ..)
          exact (Table.find?_put q.jobAttempts a k).trans (if_neg hne.symm)
      | job g => rfl
      | event e => rfl
      | advisory => rfl

/-- A transaction keeps its invariant when another one commits: their locks
are disjoint. -/
theorem TxInv.frame (hx : TxInv d x) (hy : TxInv d y)
    (hfree : ∀ k ∈ x.locks PostgresJobQueue.database,
      k ∉ y.locks PostgresJobQueue.database) :
    TxInv (y.visible PostgresJobQueue.database d) x := by
  have hlock : ∀ {z : QueueTx} {v : RowVersion} {k : LockKey},
      v ∈ z.writes → k ∈ v.locks → k ∈ z.locks PostgresJobQueue.database :=
    fun hv hk => List.mem_flatMap.mpr ⟨_, hv, hk⟩
  have hrecord : ∀ i ∈ lockedJobs x.writes,
      (y.visible PostgresJobQueue.database d).record i = d.record i := by
    intro i hi
    obtain ⟨g, hg, rfl⟩ := mem_lockedJobs.mp hi
    refine hy.record_of_not_locked (fun hmem => ?_)
    obtain ⟨h, hh, hid⟩ := mem_lockedJobs.mp hmem
    refine hfree (.job g.id) (hlock hg (List.mem_cons_self ..)) ?_
    rw [← hid]
    exact hlock hh (List.mem_cons_self ..)
  constructor
  · exact hx.sound
  · intro i hi
    have hsame : (x.visible PostgresJobQueue.database
        (y.visible PostgresJobQueue.database d)).record i =
        (x.visible PostgresJobQueue.database d).record i := by
      refine (PostgresJobQueue.record_putAll i x.writes _).trans ?_
      rw [hrecord i hi]
      exact (PostgresJobQueue.record_putAll i x.writes d).symm
    rw [hsame, hrecord i hi]
    exact hx.changes i hi
  · intro a ha hnot
    obtain ⟨b, hb, hresult⟩ := hx.attempts a ha hnot
    refine ⟨b, ?_, hresult⟩
    refine (find?_putAll_of_not (fun c hc hkey => ?_)).trans hb
    have hsame : LockKey.attempt c.jobId c.attemptNo =
        .attempt a.jobId a.attemptNo := by
      obtain ⟨hjob, hno⟩ := Prod.mk.inj hkey
      rw [hjob, hno]
    refine hfree (.attempt a.jobId a.attemptNo)
      (hlock ha (List.mem_cons_self ..)) ?_
    rw [← hsame]
    exact hlock hc (List.mem_cons_self ..)
  · exact hx.events
  · exact hx.fresh

end Transaction

/-! ## The rule -/

/-- The sessions of the queue. -/
abbrev QueueSessions :=
  Sessions PostgresJobQueue QueueOp RowVersion Statement Statement.Answer

/-- The property `P` of all committed records, and the invariant of each open
transaction. -/
abbrev Inv (allowed : QueueOp → Prop) (P : JobRecord → Prop)
    (s : QueueSessions) : Prop :=
  Invariants PostgresJobQueue.database (fun d => ∀ i, P (d.record i))
    (fun d x => allowed x.op ∧ TxInv d x) s

section Rule

variable {allowed : QueueOp → Prop} {P : JobRecord → Prop}

/-- What every change of an allowed operation preserves, all of them together
preserve. -/
theorem ledger_rule (allowed : QueueOp → Prop) (hnumbered : ∀ rec, P rec → rec.Numbered)
    (hchange : ∀ op i rec rec', allowed op → P rec → Change op i rec rec' →
      P rec') :
    LocalInvariant (H := List Uuid) PostgresJobQueue.database QueueOp.script
      allowed (fun d => ∀ i, P (d.record i))
      (fun d x => allowed x.op ∧ TxInv d x) where
  begin {d op} _ hop := by
    refine ⟨hop, sound_script op, fun i hi => ?_, fun a ha => ?_,
      fun e he => ?_, fun a ha => ?_⟩
    · cases hi
    · cases ha
    · cases he
    · cases ha
  query hd hx hscript hanswer :=
    ⟨hx.1, hx.2.query (fun i => hnumbered _ (hd i)) hscript hanswer⟩
  commit {d x} hd hx hscript i := by
    by_cases hi : i ∈ lockedJobs x.writes
    · exact hchange _ i _ _ hx.1 (hd i) (hx.2.change_of_commit hscript hi)
    · rw [hx.2.record_of_not_locked hi]
      exact hd i
  frame _ hx hy _ hfree := ⟨hx.1, hx.2.frame hy.2 hfree⟩

theorem inv_init (allowed : QueueOp → Prop) (hempty : P .empty) :
    Inv allowed P (Sessions.init PostgresJobQueue.empty) :=
  invariants_init (fun _ => hempty)

variable {s t : QueueSessions} {a : SessionAction QueueOp (List Uuid)}

/-- A transaction that commits changes the record of every job it has locked
once, and no other. -/
theorem change_of_commits (hs : Inv allowed P s)
    (h : queueTransactions.step s a = some t) {x : QueueTx}
    (hx : Commits s a x) {i : Uuid} (hi : i ∈ lockedJobs x.writes) :
    Change x.op i (s.committed.record i) (t.committed.record i) := by
  have hcommitted : t.committed =
      x.visible PostgresJobQueue.database s.committed :=
    committed_of_commits hx h
  obtain ⟨n, _, hopen, hscript⟩ := hx
  rw [hcommitted]
  exact (hs.each n x hopen).2.change_of_commit hscript hi

/-- From one committed state to the next a record is the same or has undergone
one change. -/
theorem record_step (hs : Inv allowed P s)
    (h : queueTransactions.step s a = some t) (i : Uuid) :
    t.committed.record i = s.committed.record i ∨
      ∃ x, Commits s a x ∧ i ∈ lockedJobs x.writes ∧
        Change x.op i (s.committed.record i) (t.committed.record i) := by
  rcases committed_step h with hsame | ⟨x, hx, hcommitted⟩
  · rw [hsame]
    exact Or.inl rfl
  · by_cases hi : i ∈ lockedJobs x.writes
    · exact Or.inr ⟨x, hx, hi, change_of_commits hs h hx hi⟩
    · obtain ⟨n, _, hopen, _⟩ := hx
      rw [hcommitted]
      exact Or.inl ((hs.each n x hopen).2.record_of_not_locked hi)

end Rule

end Ledger

end Imagin4.Ports
