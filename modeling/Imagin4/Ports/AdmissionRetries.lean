import Imagin4.Ports.AdmissionRaces

/-!
# Concurrent retries of one admission

Any number of `admit_generation_job` calls with one user, idempotency key and
workflow and equal inputs on one `PostgresJobQueue`.  Two of them may both look
before either inserts; the unique constraint then refuses the second insertion,
and its `IntegrityError` leaves the admission as it is.

## Main results

* `rewritten_event` — no claim and no other call changes what identifies a row.
* `retry_rule` — an admission ends with the one job there is, or refused.
* `retriesAgree_run` — one job, and one admission that made it, in the runs in
  which no insertion is refused.
-/

namespace Imagin4.Ports

open Imagin4.Verified

namespace PostgresJobQueue

/-! ## What identifies a row -/

/-- The rows of two queues differ in nothing that identifies them. -/
def SameJobs (q q' : PostgresJobQueue) : Prop :=
  Table.Rewritten JobRow.identity q.generationJobs q'.generationJobs

theorem SameJobs.refl (q : PostgresJobQueue) : SameJobs q q :=
  Table.Rewritten.refl _ _

theorem sameJobs_of_eq {q q' : PostgresJobQueue}
    (h : q'.generationJobs = q.generationJobs) : SameJobs q q' := by
  unfold SameJobs
  rw [h]
  exact Table.Rewritten.refl _ _

theorem sameJobs_updateLive {id : Uuid} {f : JobRow → JobRow}
    {rest : PostgresJobQueue → PostgresJobQueue} {q : PostgresJobQueue}
    (hf : ∀ g, (f g).id = g.id) (hidentity : ∀ g, (f g).identity = g.identity)
    (hrest : ∀ q, (rest q).generationJobs = q.generationJobs) :
    SameJobs q (q.updateLive id f hf rest) := by
  unfold updateLive
  split
  · exact .refl q
  · split
    · exact .refl q
    · unfold SameJobs
      rw [hrest]
      exact Table.rewritten_modifyWhere hf hidentity

theorem sameJobs_apply (c : QueueCall) (now : DateTime) (q : PostgresJobQueue) :
    SameJobs q (c.apply now q) := by
  cases c with
  | renewLease id secs => exact sameJobs_of_eq rfl
  | setPromptId id promptId => exact sameJobs_of_eq rfl
  | markRunning id =>
      show SameJobs q (q.markRunning id)
      unfold markRunning
      exact sameJobs_updateLive _ (fun _ => rfl) (fun _ => rfl)
  | markSucceeded id result =>
      show SameJobs q (q.markSucceeded id result)
      unfold markSucceeded
      exact sameJobs_updateLive _ (fun _ => rfl) (fun _ => rfl)
  | markFailed id code detail =>
      show SameJobs q (q.markFailed id code detail)
      unfold markFailed
      exact sameJobs_updateLive _ (fun _ => rfl) (fun _ => rfl)
  | markRetryWait id code detail delay draw =>
      show SameJobs q (q.markRetryWait id code detail delay draw now)
      unfold markRetryWait
      split
      · exact .refl q
      · split
        · exact .refl q
        · exact sameJobs_updateLive _ (fun _ => rfl) (fun _ => rfl)
  | cancel id =>
      show SameJobs q (q.cancel id)
      unfold cancel
      exact sameJobs_updateLive _ (fun _ => rfl) (fun _ => rfl)

theorem sameJobs_dispatchRows (ids : List Uuid) (q : PostgresJobQueue) :
    SameJobs q (q.dispatchRows ids) :=
  Table.rewritten_modifyWhere (fun _ => by rfl) (fun _ => by rfl)

theorem sameJobs_claimCapped (req : ClaimRequest) (locked : List Uuid)
    (now : DateTime) (n : Nat) :
    ∀ q : PostgresJobQueue, SameJobs q (q.claimCapped req locked now n).1 := by
  induction n with
  | zero => exact SameJobs.refl
  | succ n ih =>
      intro q
      rw [claimCapped]
      cases q.nextCapped req locked now with
      | none => exact .refl q
      | some row =>
          have hfirst := sameJobs_dispatchRows [row.id] q
          exact hfirst.trans (ih _)

theorem sameJobs_claim (req : ClaimRequest) (locked : List Uuid)
    (now : DateTime) (q : PostgresJobQueue) :
    SameJobs q (q.claim req locked now).1 := by
  unfold claim
  split
  · exact .refl q
  · split
    · unfold SameJobs claimBatch
      dsimp only
      rw [generationJobs_foldl_recordAttempt]
      exact sameJobs_dispatchRows _ q
    · exact sameJobs_claimCapped req locked now _ q

/-! ## Insertions -/

/-- The row goes behind the others, whose id and key it does not have. -/
structure Inserted (g : JobRow) (q q' : PostgresJobQueue) : Prop where
  free : ∀ h ∈ q.generationJobs, h.id ≠ g.id ∧ h.idemKey ≠ g.idemKey
  put : q'.generationJobs = q.generationJobs.put g

theorem Inserted.mem {g h : JobRow} {q q' : PostgresJobQueue}
    (hins : Inserted g q q') :
    h ∈ q'.generationJobs ↔ h = g ∨ h ∈ q.generationJobs := by
  rw [hins.put, Table.mem_put]
  constructor
  · rintro (rfl | ⟨hold, _⟩)
    · exact .inl rfl
    · exact .inr hold
  · rintro (rfl | hold)
    · exact .inl rfl
    · exact .inr ⟨hold, (hins.free h hold).1⟩

/-- An insertion is refused, or goes through. -/
theorem enqueue_cases (job : QueuedJob) (q : PostgresJobQueue) :
    q.enqueue job = q ∨
      ∃ g, g.identity = job.identity ∧ Inserted g q (q.enqueue job) := by
  unfold enqueue
  split
  · exact .inl rfl
  · rename_i modelFamily workflowVersion _
    split
    · exact .inl rfl
    · rename_i htaken
      simp only [Bool.or_eq_true, not_or, Bool.not_eq_true,
        Option.isSome_eq_false_iff, Option.isNone_iff_eq_none,
        List.any_eq_false] at htaken
      refine .inr ⟨rowOfJob job modelFamily workflowVersion, rfl,
        fun h hh => ⟨?_, ?_⟩, rfl⟩
      · exact Table.find?_eq_none_iff.mp htaken.1 h hh
      · intro hkey
        have hnot := htaken.2 h hh
        simp only [JobRow.idemKey, rowOfJob, Prod.mk.injEq] at hkey
        simp [hkey] at hnot

/-- What an insertion that raises nothing does. -/
theorem inserted_of_insertError {jsonb : Json → Option Json} {job : QueuedJob}
    {q : PostgresJobQueue} (h : insertError jsonb job q = none) :
    ∃ stored g, jsonb job.inputPayload = some stored ∧
      g.identity = ⟨job.id, job.idemKey, job.conversationId, stored⟩ ∧
      (admissionAnswer jsonb (.enqueue job) q).1 = .ok () ∧
      Inserted g q (admissionAnswer jsonb (.enqueue job) q).2 := by
  have hanswer : admissionAnswer jsonb (.enqueue job) q =
      (.ok (), q.enqueue { job with
        inputPayload := (jsonb job.inputPayload).getD .null }) := by
    simp only [admissionAnswer, h]
  rw [hanswer]
  unfold insertError at h
  cases hkind : resolveWorkflowDefaults job.kind with
  | none => simp [hkind] at h
  | some defaults =>
      obtain ⟨modelFamily, workflowVersion⟩ := defaults
      cases hstored : jsonb job.inputPayload with
      | none => simp [hkind, hstored] at h
      | some stored =>
          simp only [hkind, hstored, ite_eq_right_iff, reduceCtorEq,
            imp_false, Bool.not_eq_true] at h
          refine ⟨stored, rowOfJob { job with inputPayload := stored } modelFamily
            workflowVersion, rfl, rfl, rfl, ?_⟩
          have hfree := h
          unfold taken at hfree
          simp only [Bool.or_eq_false_iff, Option.isSome_eq_false_iff,
            Option.isNone_iff_eq_none, List.any_eq_false] at hfree
          constructor
          · intro g hg
            refine ⟨Table.find?_eq_none_iff.mp hfree.1 g hg, fun hkey => ?_⟩
            have hnot := hfree.2 g hg
            simp only [JobRow.idemKey, rowOfJob, Prod.mk.injEq] at hkey
            simp [hkey, rowOfJob] at hnot
          · have hcond : ((q.generationJobs.find? job.id).isSome ||
                q.generationJobs.rows.any (fun g =>
                  g.userId = job.userId &&
                    g.idempotencyKey = job.idempotencyKey &&
                    g.kind = job.kind)) = false := h
            simp only [enqueue, hkind, Option.getD_some, hcond,
              Bool.false_eq_true, if_false]
            rfl

/-- The kind of a valid request is registered. -/
theorem defaults_of_validateRequest {host : AdmissionHost} {settings : Settings}
    {r : AdmissionRequest} {v : Validated}
    (hv : validateRequest host settings r = .ok v) :
    ∃ defaults, resolveWorkflowDefaults r.workflowName = some defaults := by
  have hfound := workflow_of_validateRequest hv
  unfold resolveWorkflow at hfound
  have hname := List.find?_some hfound
  simp only [decide_eq_true_eq] at hname
  refine Option.isSome_iff_exists.mp ?_
  unfold resolveWorkflowDefaults
  rw [Option.isSome_map, List.find?_isSome]
  exact ⟨v.workflow, List.mem_of_find?_eq_some hfound, decide_eq_true hname.1⟩

/-- An insertion goes through where no row has its id or its key. -/
theorem insertError_of_free {host : AdmissionHost} {settings : Settings}
    {jsonb : Json → Option Json} {r : AdmissionRequest} {v : Validated} {stored : Json}
    {q : PostgresJobQueue} (hv : validateRequest host settings r = .ok v)
    (hstored : jsonb v.inputs.json = some stored)
    (hfree : ∀ g ∈ q.generationJobs, g.id ≠ r.id ∧ g.idemKey ≠ r.idemKey) :
    insertError jsonb (r.job v) q = none := by
  obtain ⟨⟨modelFamily, workflowVersion⟩, hdefaults⟩ := defaults_of_validateRequest hv
  have htaken : q.taken (rowOfJob (r.job v) modelFamily workflowVersion) = false := by
    unfold taken
    rw [Bool.or_eq_false_iff, Option.isSome_eq_false_iff, Option.isNone_iff_eq_none]
    refine ⟨Table.find?_eq_none_iff.mpr (fun g hg => (hfree g hg).1), ?_⟩
    rw [List.any_eq_false]
    intro g hg hkey
    simp only [Bool.and_eq_true, decide_eq_true_eq] at hkey
    refine (hfree g hg).2 ?_
    unfold JobRow.idemKey AdmissionRequest.idemKey
    rw [hkey.1.1, hkey.1.2, hkey.2]
    rfl
  unfold insertError
  rw [show resolveWorkflowDefaults (r.job v).kind = _ from hdefaults,
    show jsonb (r.job v).inputPayload = _ from hstored]
  dsimp only
  rw [htaken, if_neg Bool.false_ne_true]

end PostgresJobQueue

/-! ## One job under a key -/

section Retries

open PostgresJobQueue

variable {host : AdmissionHost} {settings : Settings}
  {jsonb : Json → Option Json} {key : Uuid × String × String} {payload : Dict}

/-- There is at most one job under the key, with the payload of the retries. -/
structure OneJob (key : Uuid × String × String) (payload : Dict)
    (q : PostgresJobQueue) : Prop where
  unique : ∀ g ∈ q.generationJobs, ∀ h ∈ q.generationJobs,
    g.idemKey = key → h.idemKey = key → g = h
  payload : ∀ g ∈ q.generationJobs, g.idemKey = key →
    ∃ d : Dict, g.inputPayload = d.json ∧ Json.Same d.json payload.json

/-- The jobs under the key are still there. -/
def Keeps (key : Uuid × String × String) (q q' : PostgresJobQueue) : Prop :=
  ∀ g ∈ q.generationJobs, g.idemKey = key →
    ∃ g' ∈ q'.generationJobs, g'.idemKey = key ∧ g'.id = g.id

theorem keeps_refl (key : Uuid × String × String) (q : PostgresJobQueue) :
    Keeps key q q := fun g hg hkey => ⟨g, hg, hkey, rfl⟩

theorem keeps_of_sameJobs {q q' : PostgresJobQueue} (h : SameJobs q q') :
    Keeps key q q' := by
  obtain ⟨f, hf, hmem⟩ := h.exists_of_mem
  intro g hg hkey
  refine ⟨f g, (hmem _).mpr ⟨g, hg, rfl⟩, ?_, congrArg JobIdentity.id (hf g)⟩
  exact (congrArg JobIdentity.key (hf g)).trans hkey

theorem keeps_of_inserted {g : JobRow} {q q' : PostgresJobQueue}
    (h : Inserted g q q') : Keeps key q q' :=
  fun r hr hkey => ⟨r, h.mem.mpr (.inr hr), hkey, rfl⟩

theorem OneJob.sameJobs {q q' : PostgresJobQueue} (h : OneJob key payload q)
    (hq : SameJobs q q') : OneJob key payload q' := by
  obtain ⟨f, hf, hmem⟩ := hq.exists_of_mem
  have hidem : ∀ g, (f g).idemKey = g.idemKey := fun g =>
    congrArg JobIdentity.key (hf g)
  constructor
  · intro g hg k hk hgkey hkkey
    obtain ⟨g', hg', rfl⟩ := (hmem g).mp hg
    obtain ⟨k', hk', rfl⟩ := (hmem k).mp hk
    rw [hidem] at hgkey hkkey
    rw [h.unique g' hg' k' hk' hgkey hkkey]
  · intro g hg hgkey
    obtain ⟨g', hg', rfl⟩ := (hmem g).mp hg
    rw [hidem] at hgkey
    rw [show (f g').inputPayload = g'.inputPayload from
      congrArg JobIdentity.inputPayload (hf g')]
    exact h.payload g' hg' hgkey

/-- A job inserted under another key, or with the payload of the retries. -/
theorem OneJob.inserted {g : JobRow} {q q' : PostgresJobQueue}
    (h : OneJob key payload q) (hins : Inserted g q q')
    (hpayload : g.idemKey = key →
      ∃ d : Dict, g.inputPayload = d.json ∧ Json.Same d.json payload.json) :
    OneJob key payload q' := by
  constructor
  · intro a ha b hb hakey hbkey
    rcases hins.mem.mp ha with rfl | ha
    · rcases hins.mem.mp hb with rfl | hb
      · rfl
      · exact absurd (hbkey.trans hakey.symm) (hins.free b hb).2
    · rcases hins.mem.mp hb with rfl | hb
      · exact absurd (hakey.trans hbkey.symm) (hins.free a ha).2
      · exact h.unique a ha b hb hakey hbkey
  · intro a ha hakey
    rcases hins.mem.mp ha with rfl | ha
    · exact hpayload hakey
    · exact h.payload a ha hakey

/-! ## The admissions -/

/-- The inputs pass validation, and come out of it and out of the `JSONB` column
equal to `payload` up to the order of keys. -/
def Settles (host : AdmissionHost) (settings : Settings)
    (jsonb : Json → Option Json) (payload : Dict) (r : AdmissionRequest) :
    Prop :=
  ∃ v, ∃ stored : Dict, validateRequest host settings r = .ok v ∧
    Json.Same v.inputs.json payload.json ∧
    jsonb v.inputs.json = some stored.json ∧ Json.Same stored.json payload.json

/-- How an admission that is not refused for capacity ends: with the one job. -/
def Ended (key : Uuid × String × String) (q : PostgresJobQueue)
    (r : AdmissionRequest) (o : AdmissionOutcome) : Prop :=
  (∃ reason after, o = .error (.capacityExceeded reason after)) ∨
    ∃ g ∈ q.generationJobs, g.idemKey = key ∧ ∃ result, o = .ok result ∧
      result.id = g.id ∧ (result.replayed = false → result.id = r.id)

theorem Ended.keeps {q q' : PostgresJobQueue} {r : AdmissionRequest}
    {o : AdmissionOutcome} (h : Ended key q r o) (hq : Keeps key q q') :
    Ended key q' r o := by
  rcases h with hfull | ⟨g, hg, hkey, result, ho, hid, hnew⟩
  · exact .inl hfull
  · obtain ⟨g', hg', hkey', hid'⟩ := hq g hg hkey
    exact .inr ⟨g', hg', hkey', result, ho, hid.trans hid'.symm, hnew⟩

/-- What is known of each of the admissions. -/
structure Retrying (host : AdmissionHost) (settings : Settings)
    (jsonb : Json → Option Json) (key : Uuid × String × String)
    (payload : Dict) (q : PostgresJobQueue)
    (x : Client AdmissionRequest AdmissionCall AdmissionCall.Answer
      AdmissionOutcome) : Prop where
  named : x.task.idemKey = key
  settles : Settles host settings jsonb payload x.task
  stage : AdmissionStage host settings x.task (Ended key q x.task) True True
    x.program

theorem Retrying.keeps {q q' : PostgresJobQueue}
    {x : Client AdmissionRequest AdmissionCall AdmissionCall.Answer
      AdmissionOutcome}
    (h : Retrying host settings jsonb key payload q x)
    (hq : Keeps key q q') : Retrying host settings jsonb key payload q' x :=
  ⟨h.named, h.settles, h.stage.mono (fun _ ho => ho.keeps hq)
    (fun _ _ _ _ _ => trivial) (fun _ _ _ _ _ => trivial)⟩

/-- The condition: every call settles alike and has an id of its own, and no
insertion finds a row with its id or under the key.  Other admissions are for other
keys. -/
def NoRefusal (host : AdmissionHost) (settings : Settings)
    (jsonb : Json → Option Json) (key : Uuid × String × String)
    (payload : Dict) (s : Admissions) : AdmissionAction → Prop
  | .start r => r.idemKey = key ∧ Settles host settings jsonb payload r ∧
      ∀ m x, s.at? m = some x → x.task.id ≠ r.id
  | .advance n => ∀ r job next,
      s.at? n = some ⟨r, .call (.enqueue job) next⟩ →
      ∀ g ∈ s.shared.generationJobs, g.id ≠ r.id ∧ g.idemKey ≠ key
  | .environment (.enqueue job, _) => job.idemKey ≠ key
  | .environment _ => True

/-- What the other operations do to the jobs under the key. -/
theorem event_cases {e : QueueEvent} {s : Admissions}
    (hC : NoRefusal host settings jsonb key payload s (.environment e)) :
    SameJobs s.shared (e.1.apply e.2 s.shared) ∨
      ∃ g, g.idemKey ≠ key ∧ Inserted g s.shared (e.1.apply e.2 s.shared) := by
  obtain ⟨op, locked⟩ := e
  cases op with
  | enqueue job =>
      rcases enqueue_cases job s.shared with h | ⟨g, hg, hins⟩
      · exact .inl (sameJobs_of_eq (congrArg generationJobs h))
      · refine .inr ⟨g, ?_, hins⟩
        rw [show g.idemKey = job.idemKey from congrArg JobIdentity.key hg]
        exact hC
  | claim req now => exact .inl (sameJobs_claim req locked now s.shared)
  | call c now => exact .inl (sameJobs_apply c now s.shared)

/-- The lookup finds the job under the key, if there is one. -/
theorem of_findByIdempotencyKey {r : AdmissionRequest} {q : PostgresJobQueue}
    {j : QueuedJob}
    (h : q.findByIdempotencyKey r.userId r.idempotencyKey r.workflowName =
      some j) :
    ∃ g ∈ q.generationJobs, g.idemKey = r.idemKey ∧ j.id = g.id ∧
      j.inputPayload = g.inputPayload := by
  unfold findByIdempotencyKey at h
  obtain ⟨g, hg, rfl⟩ := Option.map_eq_some_iff.mp h
  have hkey := List.find?_some hg
  simp only [Bool.and_eq_true, decide_eq_true_eq] at hkey
  refine ⟨g, List.mem_of_find?_eq_some hg, ?_, rfl, rfl⟩
  simp [JobRow.idemKey, AdmissionRequest.idemKey, hkey]

/-- What the next call of an admission does to the jobs under the key. -/
theorem advance_cases {s : Admissions} {n : Nat} {r : AdmissionRequest}
    {c : AdmissionCall} {next : c.Answer → AdmissionProgram}
    (hx : Retrying host settings jsonb key payload s.shared ⟨r, .call c next⟩)
    (hC : NoRefusal host settings jsonb key payload s (.advance n))
    (hn : s.at? n = some ⟨r, .call c next⟩) :
    ((admissionAnswer jsonb c s.shared).2 = s.shared ∧
      ∀ job, c ≠ .enqueue job) ∨
      ∃ g result, g.idemKey = key ∧ g.id = r.id ∧
        (∃ d : Dict, g.inputPayload = d.json ∧
          Json.Same d.json payload.json) ∧
        Inserted g s.shared (admissionAnswer jsonb c s.shared).2 ∧
        next (admissionAnswer jsonb c s.shared).1 = .done (.ok result) ∧
        result.id = r.id ∧ result.replayed = false := by
  have hstage := hx.stage
  dsimp only at hstage
  cases hstage with
  | lookup v hv => exact .inl ⟨rfl, fun _ h => by cases h⟩
  | countGlobal v hv => exact .inl ⟨rfl, fun _ h => by cases h⟩
  | countConversation v conv whoHas hv _ _ => exact .inl ⟨rfl, fun _ h => by cases h⟩
  | countUser v whoHas hv _ _ => exact .inl ⟨rfl, fun _ h => by cases h⟩
  | position v hv _ _ => exact .inl ⟨rfl, fun _ h => by cases h⟩
  | insert v position hv _ _ =>
      obtain ⟨w, d, hw, _, hd, hsame⟩ := hx.settles
      rw [show validateRequest host settings r = .ok w from hw] at hv
      cases hv
      have hfree : ∀ g ∈ s.shared.generationJobs, g.id ≠ r.id ∧ g.idemKey ≠ r.idemKey := by
        rw [show r.idemKey = key from hx.named]
        exact hC r _ _ hn
      obtain ⟨stored, g, hstored, hidentity, hok, hins⟩ :=
        inserted_of_insertError (insertError_of_free hw hd hfree)
      rw [show jsonb (r.job v).inputPayload = some d.json from hd] at hstored
      cases hstored
      refine .inr ⟨g, newResult settings r v position, ?_,
        congrArg JobIdentity.id hidentity,
        ⟨d, congrArg JobIdentity.inputPayload hidentity, hsame⟩, hins, ?_, rfl,
        rfl⟩
      · exact (congrArg JobIdentity.key hidentity).trans hx.named
      · rw [hok]
        rfl

theorem retry_advance {s : Admissions} {n : Nat} {r : AdmissionRequest}
    {c : AdmissionCall} {next : c.Answer → AdmissionProgram}
    (hI : OneJob key payload s.shared)
    (hx : Retrying host settings jsonb key payload s.shared ⟨r, .call c next⟩)
    (hC : NoRefusal host settings jsonb key payload s (.advance n))
    (hn : s.at? n = some ⟨r, .call c next⟩) :
    Retrying host settings jsonb key payload
      (admissionAnswer jsonb c s.shared).2
      ⟨r, next (admissionAnswer jsonb c s.shared).1⟩ := by
  refine ⟨hx.named, hx.settles, ?_⟩
  rcases advance_cases hx hC hn with ⟨hsame, hread⟩ | ⟨g, result, hkey, hid, _,
    hins, hnext, hresult, _⟩
  · have hstage := hx.stage
    have hfull : ∀ reason after, Ended key s.shared r
        (.error (.capacityExceeded reason after)) :=
      fun reason after => .inl ⟨reason, after, rfl⟩
    dsimp only at hstage ⊢
    rw [hsame]
    cases hstage with
    | lookup v hv =>
        refine stage_afterLookup hv (fun _ => trivial) (fun _ => trivial) ?_ ?_
        · intro job hjob _
          obtain ⟨g, hg, hgkey, hid, hpayload⟩ := of_findByIdempotencyKey hjob
          obtain ⟨d, hd, _⟩ := hI.payload g hg (hgkey.trans hx.named)
          obtain ⟨isPreview, heq⟩ := replayResult_eq ⟨d, hpayload.trans hd⟩
          exact .inr ⟨g, hg, hgkey.trans hx.named, _, heq, hid,
            fun hnew => by cases hnew⟩
        · intro job message hjob hhash
          obtain ⟨g, hg, hgkey, hid, hpayload⟩ := of_findByIdempotencyKey hjob
          obtain ⟨d, hd, hsame⟩ := hI.payload g hg (hgkey.trans hx.named)
          obtain ⟨w, stored, hw, hsettled, _, _⟩ := hx.settles
          rw [show validateRequest host settings r = .ok w from hw] at hv
          cases hv
          -- equal payloads have equal texts
          have htext : v.inputs.json.dumps host.floats =
              d.json.dumps host.floats :=
            ((Json.dumps_eq_iff v.inputs.isDict payload.isDict).mpr
              hsettled).trans
              ((Json.dumps_eq_iff d.isDict payload.isDict).mpr hsame).symm
          refine absurd ?_ hhash
          rw [hpayload, hd]
          exact congrArg host.sha256 htext
    | countGlobal v hv =>
        exact stage_afterGlobalCount hv (fun _ => trivial) (fun _ => trivial)
          hfull
    | countConversation v conv whoHas hv _ _ =>
        exact stage_afterOwnCount hv trivial (fun _ => trivial) hfull
    | countUser v whoHas hv _ _ =>
        exact stage_afterOwnCount hv trivial (fun _ => trivial) hfull
    | position v hv _ _ => exact .insert v _ hv trivial trivial
    | insert v position hv _ _ => exact absurd rfl (hread _)
  · dsimp only
    rw [hnext]
    refine .done _ (.inr ⟨g, hins.mem.mpr (.inl rfl), hkey, result, rfl,
      hresult.trans hid.symm, fun _ => hresult⟩)

theorem keeps_advance {s : Admissions} {n : Nat} {r : AdmissionRequest}
    {c : AdmissionCall} {next : c.Answer → AdmissionProgram}
    (hx : Retrying host settings jsonb key payload s.shared ⟨r, .call c next⟩)
    (hC : NoRefusal host settings jsonb key payload s (.advance n))
    (hn : s.at? n = some ⟨r, .call c next⟩) :
    Keeps key s.shared (admissionAnswer jsonb c s.shared).2 := by
  rcases advance_cases hx hC hn with ⟨hsame, _⟩ | ⟨g, _, _, _, _, hins, _⟩
  · rw [hsame]
    exact keeps_refl key s.shared
  · exact keeps_of_inserted hins

theorem keeps_event {e : QueueEvent} {s : Admissions}
    (hC : NoRefusal host settings jsonb key payload s (.environment e)) :
    Keeps key s.shared (e.1.apply e.2 s.shared) := by
  rcases event_cases hC with hsame | ⟨g, _, hins⟩
  · exact keeps_of_sameJobs hsame
  · exact keeps_of_inserted hins

/-- What every admission keeps, by its own calls and under the others. -/
theorem retry_rule : ClientRule (admitGenerationJob host settings)
    (admissionAnswer jsonb) (fun (e : QueueEvent) q => e.1.apply e.2 q)
    (NoRefusal host settings jsonb key payload) (OneJob key payload)
    (Retrying host settings jsonb key payload) where
  start {s task} _ hC := by
    obtain ⟨hkey, hsettles, _⟩ := hC
    refine ⟨hkey, hsettles, stage_admitGenerationJob (fun e he => ?_)⟩
    obtain ⟨v, _, hv, _⟩ := hsettles
    rw [he] at hv
    cases hv
  advance {s n task q next} hs hC hn := by
    have hx := hs.each n _ hn
    refine ⟨?_, retry_advance hs.shared hx hC hn⟩
    rcases advance_cases hx hC hn with ⟨hsame, _⟩ | ⟨g, _, _, _, hd, hins, _⟩
    · rw [hsame]
      exact hs.shared
    · exact hs.shared.inserted hins (fun _ => hd)
  frame {s n m task q next y} hs hC hn _ hy :=
    (hs.each m y hy).keeps (keeps_advance (hs.each n _ hn) hC hn)
  environment {s e} hs hC := by
    refine ⟨?_, fun n y hy => (hs.each n y hy).keeps (keeps_event hC)⟩
    rcases event_cases hC with hsame | ⟨g, hkey, hins⟩
    · exact hs.shared.sameJobs hsame
    · exact hs.shared.inserted hins (fun h => absurd h hkey)

/-! ## Who made the job -/

/-- The admission under this number has made the job with this id. -/
def Made (s : Admissions) (n : Nat) (id : Uuid) : Prop :=
  ∃ r result, s.at? n = some ⟨r, .done (.ok result)⟩ ∧
    result.replayed = false ∧ result.id = id

/-- Everything that is kept. -/
structure Agreeing (host : AdmissionHost) (settings : Settings)
    (jsonb : Json → Option Json) (key : Uuid × String × String)
    (payload : Dict) (s : Admissions) : Prop where
  each : ClientInvariants (OneJob key payload)
    (Retrying host settings jsonb key payload) s
  ids : NamesDistinct AdmissionRequest.id s
  made : ∀ g ∈ s.shared.generationJobs, g.idemKey = key → ∃ n, Made s n g.id

theorem made_advance {s : Admissions} {n : Nat} {r : AdmissionRequest}
    {c : AdmissionCall} {next : c.Answer → AdmissionProgram}
    (hs : Agreeing host settings jsonb key payload s)
    (hC : NoRefusal host settings jsonb key payload s (.advance n))
    (hn : s.at? n = some ⟨r, .call c next⟩) :
    ∀ g ∈ (admissionAnswer jsonb c s.shared).2.generationJobs,
      g.idemKey = key → ∃ m, Made ⟨(admissionAnswer jsonb c s.shared).2,
        s.clients.set n ⟨r, next (admissionAnswer jsonb c s.shared).1⟩⟩ m
          g.id := by
  have hold : ∀ g ∈ s.shared.generationJobs, g.idemKey = key →
      ∃ m, Made ⟨(admissionAnswer jsonb c s.shared).2,
        s.clients.set n ⟨r, next (admissionAnswer jsonb c s.shared).1⟩⟩ m
          g.id := by
    intro g hg hkey
    obtain ⟨m, r', result, hm, hnew, hid⟩ := hs.made g hg hkey
    have hne : m ≠ n := by
      rintro rfl
      rw [hn] at hm
      cases hm
    exact ⟨m, r', result, at?_set_ne hne hm, hnew, hid⟩
  intro g hg hkey
  rcases advance_cases (hs.each.each n _ hn) hC hn with ⟨hsame, _⟩ |
    ⟨g', result, _, hid, _, hins, hnext, hresult, hnew⟩
  · rw [hsame] at hg
    exact hold g hg hkey
  · rcases hins.mem.mp hg with rfl | hg
    · refine ⟨n, r, result, ?_, hnew, hresult.trans hid.symm⟩
      rw [← hnext]
      exact at?_set_self hn
    · exact hold g hg hkey

theorem agreeing_step {s t : Admissions} {a : AdmissionAction}
    (hs : Agreeing host settings jsonb key payload s)
    (hC : NoRefusal host settings jsonb key payload s a)
    (h : (admissions host settings jsonb).step s a = some t) :
    Agreeing host settings jsonb key payload t := by
  refine ⟨retry_rule.step hs.each hC h, namesDistinct_step hs.ids ?_ h, ?_⟩
  · rintro task rfl
    exact hC.2.2
  · cases clientStepped h with
    | start task =>
        intro g hg hkey
        obtain ⟨m, r, result, hm, hnew, hid⟩ := hs.made g hg hkey
        exact ⟨m, r, result, at?_append_of_at? hm, hnew, hid⟩
    | advance n task q next hn => exact made_advance hs hC hn
    | environment e =>
        intro g hg hkey
        have hback : ∃ g' ∈ s.shared.generationJobs, g'.idemKey = key ∧
            g'.id = g.id := by
          rcases event_cases hC with hsame | ⟨g', hkey', hins⟩
          · obtain ⟨f, hf, hmem⟩ := hsame.exists_of_mem
            obtain ⟨g', hg', rfl⟩ := (hmem g).mp hg
            exact ⟨g', hg', (congrArg JobIdentity.key (hf g')).symm.trans hkey,
              (congrArg JobIdentity.id (hf g')).symm⟩
          · rcases hins.mem.mp hg with rfl | hg
            · exact absurd hkey hkey'
            · exact ⟨g, hg, hkey, rfl⟩
        obtain ⟨g', hg', hkey', hid'⟩ := hback
        rw [← hid']
        exact hs.made g' hg' hkey'

/-- There is at most one job under the key; every admission that has ended and
was not refused for capacity names it; and one of them has made it. -/
structure RetriesAgree (key : Uuid × String × String) (s : Admissions) :
    Prop where
  unique : ∀ g ∈ s.shared.generationJobs, ∀ h ∈ s.shared.generationJobs,
    g.idemKey = key → h.idemKey = key → g = h
  ended : ∀ n r o, s.at? n = some ⟨r, .done o⟩ →
    (∃ reason after, o = .error (.capacityExceeded reason after)) ∨
      ∃ g ∈ s.shared.generationJobs, g.idemKey = key ∧
        ∃ result, o = .ok result ∧ result.id = g.id
  made : ∀ g ∈ s.shared.generationJobs, g.idemKey = key →
    ∃! n, ∃ r result, s.at? n = some ⟨r, .done (.ok result)⟩ ∧
      result.replayed = false

theorem retriesAgree_of_agreeing {s : Admissions}
    (hs : Agreeing host settings jsonb key payload s) : RetriesAgree key s := by
  have hended : ∀ n r o, s.at? n = some ⟨r, .done o⟩ →
      Ended key s.shared r o := by
    intro n r o hn
    have hstage := (hs.each.each n _ hn).stage
    dsimp only at hstage
    cases hstage with
    | done _ ho => exact ho
  refine ⟨hs.each.shared.unique, fun n r o hn => ?_, fun g hg hkey => ?_⟩
  · rcases hended n r o hn with hfull | ⟨g, hg, hkey, result, ho, hid, _⟩
    · exact .inl hfull
    · exact .inr ⟨g, hg, hkey, result, ho, hid⟩
  · obtain ⟨n, r, result, hn, hnew, hid⟩ := hs.made g hg hkey
    -- whoever has made a job bears the id of the one job there is
    have howner : ∀ m r' result', s.at? m = some ⟨r', .done (.ok result')⟩ →
        result'.replayed = false → r'.id = g.id := by
      intro m r' result' hm hnew'
      rcases hended m r' _ hm with ⟨_, _, ho⟩ | ⟨g', hg', hkey', res, ho, hid',
        hown⟩
      · cases ho
      · cases ho
        rw [hs.each.shared.unique g hg g' hg' hkey hkey', ← hid']
        exact (hown hnew').symm
    refine ⟨n, ⟨r, result, hn, hnew⟩, ?_⟩
    rintro m ⟨r', result', hm, hnew'⟩
    exact hs.ids m n _ _ hm hn ((howner m r' result' hm hnew').trans
      (howner n r result hn hnew).symm)

/-- **Retries.**  They agree in every state of a run in which their inputs settle
alike and every insertion finds its id and the key free, if there is no job under their
key at first. -/
theorem retriesAgree_run (host : AdmissionHost) (settings : Settings)
    (jsonb : Json → Option Json) (key : Uuid × String × String)
    (payload : Dict) (q : PostgresJobQueue)
    (hq : ∀ g ∈ q.generationJobs, g.idemKey ≠ key)
    (as : List AdmissionAction) (s : Admissions)
    (halong : (admissions host settings jsonb).Along
      (NoRefusal host settings jsonb key payload) (.init q) as)
    (hrun : (admissions host settings jsonb).exec (.init q) as = some s) :
    RetriesAgree key s := by
  have hinit : Agreeing host settings jsonb key payload (.init q) := by
    refine ⟨clientInvariants_init ⟨?_, ?_⟩, ?_, ?_⟩
    · exact fun g hg _ _ hkey => absurd hkey (hq g hg)
    · exact fun g hg hkey => absurd hkey (hq g hg)
    · intro m n x y hx
      simp [Clients.at?, Clients.init] at hx
    · exact fun g hg hkey => absurd hkey (hq g hg)
  have hs : Agreeing host settings jsonb key payload s :=
    Machine.invariant (M := admissions host settings jsonb)
      (fun _ _ _ hs hC h => agreeing_step hs hC h) hinit halong hrun
  exact retriesAgree_of_agreeing hs

/-- Every insertion finds its id and the key free, and every id is new. -/
def unrefused (key : Uuid × String × String) (s : Admissions) :
    AdmissionAction → Bool
  | .start r => s.clients.all (fun x => x.task.id != r.id)
  | .advance n =>
      match s.at? n with
      | some ⟨r, .call (.enqueue _) _⟩ =>
          s.shared.generationJobs.rows.all (fun g => g.id != r.id && g.idemKey != key)
      | _ => true
  | .environment _ => false

theorem noRefusal_of_unrefused {s : Admissions} {a : AdmissionAction}
    (hstart : ∀ r, a = .start r →
      r.idemKey = key ∧ Settles host settings jsonb payload r)
    (h : unrefused key s a = true) :
    NoRefusal host settings jsonb key payload s a := by
  cases a with
  | start r =>
      obtain ⟨hkey, hsettles⟩ := hstart r rfl
      refine ⟨hkey, hsettles, fun m x hx => ?_⟩
      have hall := List.all_eq_true.mp h x (List.mem_of_getElem? hx)
      simpa using hall
  | advance n =>
      intro r job next hn g hg
      simp only [unrefused, hn] at h
      simpa using List.all_eq_true.mp h g hg
  | environment e => cases h

theorem settles_catRequest (id : Uuid) :
    Settles plainHost {} some catInputs (catRequest id) :=
  ⟨_, catInputs, rfl, Json.same_refl _, rfl, Json.same_refl _⟩

/-- A request, and its retry after the first has ended. -/
def retried : List AdmissionAction :=
  .start (catRequest 1) :: List.replicate 5 (.advance 0) ++
    [.start (catRequest 2), .advance 1]

/-- Two requests that both look before either inserts. -/
def racing : List AdmissionAction :=
  [.start (catRequest 1), .start (catRequest 2), .advance 0, .advance 1] ++
    List.replicate 4 (.advance 0) ++ List.replicate 4 (.advance 1)

theorem retriesAgree_run_retried : ∃ s,
    (admissions plainHost {} some).exec (.init .empty) retried = some s ∧
      RetriesAgree (catRequest 1).idemKey s ∧
      s.shared.generationJobs.rows.map JobRow.id = [1] := by
  refine ⟨_, rfl, ?_, rfl⟩
  refine retriesAgree_run plainHost {} some (catRequest 1).idemKey catInputs
    .empty (fun _ h => by cases h) retried _ ?_ rfl
  have hstarts : ∀ a ∈ retried, ∀ r, a = .start r →
      r.idemKey = (catRequest 1).idemKey ∧
        Settles plainHost {} some catInputs r := by
    intro a ha r hr
    rw [hr] at ha
    have hr' : r = catRequest 1 ∨ r = catRequest 2 := by
      simpa [retried, List.replicate] using ha
    rcases hr' with rfl | rfl
    · exact ⟨rfl, settles_catRequest 1⟩
    · exact ⟨rfl, settles_catRequest 2⟩
  have hdecided : (admissions plainHost {} some).Along
      (fun s a => unrefused (catRequest 1).idemKey s a = true) (.init .empty) retried := by
    decide
  exact (Machine.along_and_of_forall hstarts hdecided).mono
    (fun _ _ h => noRefusal_of_unrefused h.1 h.2)

/-- The loser of the race ends with the `IntegrityError` of its insertion. -/
theorem not_retriesAgree : ∃ s,
    (admissions plainHost {} some).exec (.init .empty) racing = some s ∧
      s.at? 1 = some ⟨catRequest 2, .done (.error (.other "IntegrityError"))⟩ ∧
      ¬ RetriesAgree (catRequest 1).idemKey s := by
  refine ⟨_, rfl, rfl, fun h => ?_⟩
  rcases h.ended 1 _ _ rfl with ⟨reason, after, ho⟩ | ⟨_, _, _, _, ho, _⟩
  · cases ho
  · cases ho

end Retries

end Imagin4.Ports
