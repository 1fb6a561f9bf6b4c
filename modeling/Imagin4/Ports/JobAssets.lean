import Imagin4.Verified.Machine
import Imagin4.Ports.FetchedImages
import Imagin4.Ports.JobResults
import Imagin4.Ports.Previews
import Imagin4.Ports.LeaseRenewal
import Imagin4.Ports.JobSystem

/-!
# The assets of a job

`GET /v1/jobs/{id}/asset` of `app/api/v1/jobs.py` serves the outputs of a job to its
owner.  Between ComfyUI and the download stand a poll, which stores the images under
random keys, the reconciler, which lists the active jobs, asks for their prompts and
records the keys in the result of the job, and a storage that other jobs write to.

## Main results

* `assets_run` — what the owner of a job downloads under an index is the image that
  ComfyUI listed there for a prompt id the job has had, whatever happens in between.
-/

namespace Imagin4.Ports

open Imagin4.Verified

/-! ## The endpoint -/

/-- Reads an output back. -/
def readOutput (objects : Objects) (output : Output) :
    Except RouterError (Bytes × String) :=
  if output.objectKey = "" then .error (.http 404 "asset not found")
  else
    match objects.getObject output.objectKey with
    | .ok data => .ok (data, output.mimeType)
    | .error _ => .error (.http 404 "asset not found")

/-- Reads the output of an index back. -/
def readAsset (objects : Objects) (outputs : List Output) (index : Int) :
    Except RouterError (Bytes × String) :=
  if h : 0 ≤ index ∧ index < outputs.length then
    readOutput objects (outputs.get ⟨index.toNat, by omega⟩)
  else .error (.http 404 "asset not found")

/-- `get_job_asset`; an id that is no UUID is `none`. -/
def getJobAsset {σ : Type} [JobQueue σ] (q : σ) (objects : Objects) (userId : Uuid)
    (id : Option Uuid) (index : Int) : Except RouterError (Bytes × String) := do
  let job ← ownedJob (id.bind (JobQueue.get q)) userId
  readAsset objects ((job.result.map JobResult.outputs).getD []) index

/-- The index counts the outputs. -/
theorem readAsset_eq (objects : Objects) (outputs : List Output) (index : Int) :
    readAsset objects outputs index =
      match (if 0 ≤ index then outputs[index.toNat]? else none) with
      | some output => readOutput objects output
      | none => .error (.http 404 "asset not found") := by
  unfold readAsset
  by_cases hindex : 0 ≤ index
  · rw [if_pos hindex]
    by_cases hlt : index < outputs.length
    · rw [dif_pos ⟨hindex, hlt⟩, List.getElem?_eq_getElem (by omega)]
      rfl
    · rw [dif_neg (fun h => hlt h.2), List.getElem?_eq_none (by omega)]
  · rw [if_neg hindex, dif_neg (fun h => hindex h.1)]

/-! ## Deliveries -/

/-- The queue, the storage, the clients of the processes, the jobs `list_active` has
answered, the prompts reconcilers have asked for, each with the id of its job, and the
outputs that polls have reported for a prompt. -/
structure Delivery (σ : Type) where
  queue : σ
  objects : Objects
  clients : Nat → LiveComfyUIClient
  listed : List QueuedJob
  asked : List (Uuid × String)
  reports : List (String × List Output)

/-- What happens: calls of the queue, polls by the client of a process, a reconciler
that lists the active jobs, asks for the prompt of a job it has listed, and resolves
the job with what a poll has reported for that prompt, and a put by somebody else. -/
inductive DeliveryAction where
  | enqueue (job : QueuedJob) (now : DateTime)
  | claim (req : ClaimRequest) (locked : List Uuid) (now : DateTime)
  | call (c : QueueCall) (now : DateTime)
  | poll (k : Nat) (promptId : String) (server : ComfyServer) (put : PutObject)
      (draws : Draws)
  | list
  | ask (i : Nat)
  | resolve (i n : Nat) (now : DateTime)
  | store (w : Put)

section Deliveries

variable {σ : Type} [JobQueue σ] (host : Host)

/-- No job and no object. -/
def Delivery.init (queue : σ) (urls : Nat → String) : Delivery σ where
  queue := queue
  objects := fun _ => none
  clients := fun k => .new (urls k)
  listed := []
  asked := []
  reports := []

/-- `mark_succeeded` is the reconciler's; a new job has no result. -/
def deliveryStep (s : Delivery σ) : DeliveryAction → Option (Delivery σ)
  | .enqueue job now =>
      if job.result.isNone then
        some { s with queue := JobQueue.enqueue job now s.queue }
      else none
  | .claim req locked now =>
      some { s with queue := (JobQueue.claimNextWithLease req locked now s.queue).1 }
  | .call (.markSucceeded _ _) _ => none
  | .call c now => some { s with queue := c.apply now s.queue }
  | .poll k promptId server put draws =>
      let r := (s.clients k).getStatusInto host server put draws.hex promptId s.objects
      some { s with
        objects := r.2
        clients := Function.update s.clients k r.1.2
        reports := s.reports ++ r.1.1.outputs.toList.map (fun o => (promptId, o)) }
  | .list => some { s with listed := s.listed ++ JobQueue.listActive s.queue }
  | .ask i =>
      match s.listed[i]? with
      | none => none
      | some job =>
          -- `job.prompt_id` is read when `get_status` is called, not when it answers
          let job := JobQueue.deref s.queue job
          match hasPromptId job with
          | none => none
          | some promptId => some { s with asked := s.asked ++ [(job.id, promptId)] }
  | .resolve i n now =>
      match s.asked[i]?, s.reports[n]? with
      | some (id, promptId), some (reported, outputs) =>
          if reported = promptId then
            some { s with
              queue := (QueueCall.markSucceeded id ⟨outputs⟩).apply now s.queue }
          else none
      | _, _ => none
  | .store w => some { s with objects := w.into s.objects }

/-- The machine of deliveries. -/
def deliveries (σ : Type) [JobQueue σ] : Machine (Delivery σ) DeliveryAction :=
  ⟨deliveryStep host⟩

/-- A poll draws a name for each image, which no object has yet, and nobody else uses
the key of a reported output. -/
def FreshNames (s : Delivery σ) : DeliveryAction → Prop
  | .poll _ promptId server _ draws =>
      (namedImages (server.entry promptId)).length ≤ draws.count ∧
        ∀ n ext, s.objects (assetKey draws.hex n ext) = none
  | .store w => ∀ r ∈ s.reports, ∀ o ∈ r.2, o.objectKey ≠ w.objectKey
  | _ => True

end Deliveries

/-! ## What is in the storage -/

/-- An adapter of which a job handed out earlier reads as the queue has it now, or is the
copy that was made. -/
class HandsOutJobs (σ : Type) [JobQueue σ] : Prop where
  deref_get (q : σ) (job : QueuedJob) :
    JobQueue.deref q job = job ∨ JobQueue.get q job.id = some (JobQueue.deref q job)

instance : HandsOutJobs InMemoryJobQueue where
  deref_get q job := by
    show (q.get job.id).getD job = job ∨ q.get job.id = some ((q.get job.id).getD job)
    cases q.get job.id with
    | none => exact .inl rfl
    | some j => exact .inr rfl

instance : HandsOutJobs PostgresJobQueue where
  deref_get _ _ := .inl rfl

section Delivered

variable {σ : Type} [JobQueue σ] {host : Host} {as : List DeliveryAction}
  {init : Delivery σ} {objects objects' : Objects} {promptId : String}
  {outputs : List Output}

/-- Every image is under its key. -/
def Holding (objects : Objects) (draws : Draws) (found : List Found) : Prop :=
  ∀ n f, found[n]? = some f →
    objects (assetKey draws.hex n f.ext) = some (f.data, imageMime f.ext)

/-- A poll of the run has reported the outputs for the prompt, and the storage has
them. -/
def StoredFor (host : Host) (as : List DeliveryAction) (objects : Objects)
    (promptId : String) (outputs : List Output) : Prop :=
  ∃ k server put draws found, DeliveryAction.poll k promptId server put draws ∈ as ∧
    Records host server draws.hex (server.entry promptId) found outputs ∧
    Holding objects draws found

/-- The keys of the outputs are in the storage. -/
theorem StoredFor.mem_key (h : StoredFor host as objects promptId outputs) {o : Output}
    (ho : o ∈ outputs) : ∃ v, objects o.objectKey = some v := by
  obtain ⟨k, server, put, draws, found, _, ⟨_, rfl⟩, hholding⟩ := h
  obtain ⟨n, hn, rfl⟩ := List.mem_mapIdx.mp ho
  exact ⟨_, hholding n found[n] (List.getElem?_eq_getElem hn)⟩

/-- A storage that has the same under the keys of the outputs has them still. -/
theorem StoredFor.congr (h : StoredFor host as objects promptId outputs)
    (hkeep : ∀ o ∈ outputs, objects' o.objectKey = objects o.objectKey) :
    StoredFor host as objects' promptId outputs := by
  obtain ⟨k, server, put, draws, found, hmem, ⟨hfound, rfl⟩, hholding⟩ := h
  refine ⟨k, server, put, draws, found, hmem, ⟨hfound, rfl⟩, fun n f hf => ?_⟩
  obtain ⟨hn, rfl⟩ := List.getElem?_eq_some_iff.mp hf
  rw [← hholding n _ hf]
  exact hkeep _ (List.mem_mapIdx.mpr ⟨n, hn, rfl⟩)

/-- In some state of the run the queue had the job under the id. -/
def HadJob (host : Host) (init : Delivery σ) (as : List DeliveryAction) (id : Uuid)
    (job : QueuedJob) : Prop :=
  ∃ pre post u, as = pre ++ post ∧ (deliveries host σ).exec init pre = some u ∧
    JobQueue.get u.queue id = some job

/-- The state is the one before an action of the run. -/
def Before (host : Host) (init : Delivery σ) (as : List DeliveryAction) (s : Delivery σ)
    (a : DeliveryAction) : Prop :=
  ∃ pre post, as = pre ++ a :: post ∧ (deliveries host σ).exec init pre = some s

theorem Before.mem {s : Delivery σ} {a : DeliveryAction} (h : Before host init as s a) :
    a ∈ as := by
  obtain ⟨pre, post, rfl, _⟩ := h
  simp

theorem Before.hadJob {s : Delivery σ} {a : DeliveryAction}
    (h : Before host init as s a) {id : Uuid} {job : QueuedJob}
    (hget : JobQueue.get s.queue id = some job) : HadJob host init as id job := by
  obtain ⟨pre, post, hsplit, hpre⟩ := h
  exact ⟨pre, a :: post, s, hsplit, hpre, hget⟩

variable [RecordsResults σ]

/-- What has been listed and asked for was in the queue, what has been reported can be
served, clients keep what they have reported, and the results of jobs are reports of
prompts that were asked for them. -/
structure Delivered (host : Host) (init : Delivery σ) (as : List DeliveryAction)
    (s : Delivery σ) : Prop where
  listed : ∀ job ∈ s.listed, HadJob host init as job.id job
  asked : ∀ q ∈ s.asked, ∃ job, HadJob host init as q.1 job ∧ job.promptId = some q.2
  reports : ∀ r ∈ s.reports, StoredFor host as s.objects r.1 r.2
  kept : ∀ k promptId status outputs,
    (s.clients k).resolved.get promptId = some status →
    status.outputs = some outputs → (promptId, outputs) ∈ s.reports
  results : ∀ id r, RecordsResults.recorded s.queue id r →
    ∃ promptId, (id, promptId) ∈ s.asked ∧ (promptId, r.outputs) ∈ s.reports

variable {s t : Delivery σ}

theorem delivered_init {queue : σ} {urls : Nat → String}
    (hqueue : ∀ id r, ¬ RecordsResults.recorded queue id r) :
    Delivered host init as (Delivery.init queue urls) where
  listed := fun _ hj => by cases hj
  asked := fun _ hq => by cases hq
  reports := fun _ hr => by cases hr
  kept := fun _ _ _ _ h => by cases h
  results := fun id r h => absurd h (hqueue id r)

/-- A step of the queue that records no new result. -/
theorem Delivered.withQueue (hs : Delivered host init as s) {queue : σ}
    (h : ∀ id r, RecordsResults.recorded queue id r →
      RecordsResults.recorded s.queue id r) :
    Delivered host init as { s with queue := queue } where
  listed := hs.listed
  asked := hs.asked
  reports := hs.reports
  kept := hs.kept
  results := fun id r hr => hs.results id r (h id r hr)

/-- A step that writes elsewhere. -/
theorem Delivered.withObjects (hs : Delivered host init as s)
    (hkeep : ∀ r ∈ s.reports, ∀ o ∈ r.2, objects' o.objectKey = s.objects o.objectKey) :
    Delivered host init as { s with objects := objects' } where
  listed := hs.listed
  asked := hs.asked
  reports := fun r hr => (hs.reports r hr).congr (hkeep r hr)
  kept := hs.kept
  results := hs.results

/-- What a poll writes is elsewhere. -/
theorem Delivered.keep_of_drawn (hs : Delivered host init as s) {draws : Draws}
    (hfresh : ∀ n ext, s.objects (assetKey draws.hex n ext) = none) {ws : List Put}
    (hws : ∀ w ∈ ws, Drawn draws.hex w) :
    ∀ r ∈ s.reports, ∀ o ∈ r.2,
      ws.foldl Put.into s.objects o.objectKey = s.objects o.objectKey := by
  intro r hr o ho
  refine foldl_into_of_ne (fun w hw hkey => ?_)
  obtain ⟨v, hv⟩ := (hs.reports r hr).mem_key ho
  obtain ⟨n, ext, hdrawn⟩ := hws w hw
  rw [← hkey, hdrawn, hfresh] at hv
  cases hv

/-- What a client answers, and what it keeps. -/
theorem Delivered.answered (hs : Delivered host init as s) {k : Nat} (status : ComfyStatus)
    {c : LiveComfyUIClient} {queue : σ}
    (hreported : ∀ outputs, status.outputs = some outputs →
      StoredFor host as s.objects promptId outputs)
    (hc : ∀ p status' outputs, c.resolved.get p = some status' →
      status'.outputs = some outputs → (p, outputs) ∈ s.reports ∨
        (p = promptId ∧ status.outputs = some outputs))
    (hqueue : queue = s.queue) :
    Delivered host init as { s with
      queue := queue
      clients := Function.update s.clients k c
      reports := s.reports ++ status.outputs.toList.map (fun o => (promptId, o)) } := by
  subst hqueue
  have hnew : ∀ p outputs, (p, outputs) ∈ s.reports ∨
      (p = promptId ∧ status.outputs = some outputs) →
      (p, outputs) ∈ s.reports ++
        status.outputs.toList.map (fun o => (promptId, o)) := by
    rintro p outputs (hold | ⟨rfl, houtputs⟩)
    · exact List.mem_append_left _ hold
    · exact List.mem_append_right _ (by simp [houtputs])
  refine ⟨hs.listed, hs.asked, ?_, ?_, ?_⟩
  · intro r hr
    rcases List.mem_append.mp hr with hold | hnew
    · exact hs.reports r hold
    · obtain ⟨outputs, houtputs, rfl⟩ := List.mem_map.mp hnew
      exact hreported outputs (by simpa using houtputs)
  · intro k' p status' outputs hget houtputs
    dsimp only at hget
    by_cases hk : k' = k
    · subst hk
      rw [Function.update_self] at hget
      exact hnew p outputs (hc p status' outputs hget houtputs)
    · rw [Function.update_of_ne hk] at hget
      exact hnew p outputs (Or.inl (hs.kept k' p status' outputs hget houtputs))
  · intro id r hr
    obtain ⟨p, hasked, hreport⟩ := hs.results id r hr
    exact ⟨p, hasked, hnew p r.outputs (Or.inl hreport)⟩

theorem delivered_poll (hs : Delivered host init as s) {k : Nat} {server : ComfyServer}
    {put : PutObject} {draws : Draws}
    (hmem : DeliveryAction.poll k promptId server put draws ∈ as)
    (hcount : (namedImages (server.entry promptId)).length ≤ draws.count)
    (hfresh : ∀ n ext, s.objects (assetKey draws.hex n ext) = none)
    (h : deliveryStep host s (.poll k promptId server put draws) = some t) :
    Delivered host init as t := by
  simp only [deliveryStep, Option.some.injEq] at h
  have hold : ∀ p status' outputs, (s.clients k).resolved.get p = some status' →
      status'.outputs = some outputs → (p, outputs) ∈ s.reports := hs.kept k
  unfold LiveComfyUIClient.getStatusInto at h
  cases hfail : localFailReason promptId with
  | some reason =>
      rw [hfail] at h
      subst h
      exact hs.answered (failedStatus (orDefault reason "local_failure"))
        (fun _ ho => by cases ho) (fun p status' o hp ho => Or.inl (hold p status' o hp ho))
        rfl
  | none =>
      rw [hfail] at h
      cases hcached : (s.clients k).resolved.get promptId with
      | some status =>
          rw [hcached] at h
          subst h
          exact hs.answered status
            (fun o ho => hs.reports _ (hold promptId status o hcached ho))
            (fun p status' o hp ho => Or.inl (hold p status' o hp ho)) rfl
      | none =>
          rw [hcached] at h
          have hwrites : (pollInto host server put draws.hex promptId).Writes Put.into
              (Drawn draws.hex) _ := pollInto_writes
          obtain ⟨ws, hstate, hdrawn, hreport⟩ := hwrites s.objects
          have hs' := hs.withObjects (hs.keep_of_drawn hfresh hdrawn)
          cases hexec : (pollInto host server put draws.hex promptId).exec s.objects with
          | mk r objects' =>
              rw [hexec] at h hstate hreport
              obtain rfl : objects' = ws.foldl Put.into s.objects := hstate
              cases r with
              | error e =>
                  subst h
                  exact hs'.answered { state := .running }
                    (fun _ ho => by cases ho)
                    (fun p status' o hp ho => Or.inl (hold p status' o hp ho)) rfl
              | ok status =>
                  have hreported : ∀ outputs, status.outputs = some outputs →
                      StoredFor host as (ws.foldl Put.into s.objects) promptId outputs := by
                    intro outputs houtputs
                    obtain ⟨found, hrecords, rfl⟩ := hreport status rfl outputs houtputs
                    rw [hrecords.1.length_eq] at hcount
                    exact ⟨k, server, put, draws, found, hmem, hrecords,
                      fun n f hf => foldl_into_found draws found hcount hf⟩
                  dsimp only at h
                  split at h
                  · subst h
                    refine hs'.answered status hreported
                      (fun p status' o hp ho => ?_) rfl
                    dsimp only at hp
                    rw [StatusCache.get_set] at hp
                    split at hp
                    · rename_i heq
                      cases hp
                      exact Or.inr ⟨heq, ho⟩
                    · exact Or.inl (hold p status' o hp ho)
                  · subst h
                    exact hs'.answered status hreported
                      (fun p status' o hp ho => Or.inl (hold p status' o hp ho)) rfl

/-- A reconciler resolves a job with what was reported for the prompt it asked for. -/
theorem delivered_resolve (hs : Delivered host init as s) {id : Uuid} (now : DateTime)
    (hasked : (id, promptId) ∈ s.asked) (hreport : (promptId, outputs) ∈ s.reports) :
    Delivered host init as { s with
      queue := (QueueCall.markSucceeded id ⟨outputs⟩).apply now s.queue } := by
  refine ⟨hs.listed, hs.asked, hs.reports, hs.kept, fun id' r hr => ?_⟩
  replace hr : RecordsResults.recorded
    ((QueueCall.markSucceeded id ⟨outputs⟩).apply now s.queue) id' r := hr
  rcases RecordsResults.of_apply hr with hold | hc
  · exact hs.results id' r hold
  · cases hc
    exact ⟨promptId, hasked, hreport⟩

variable [LawfulJobQueue σ]

/-- A reconciler lists jobs of the queue. -/
theorem delivered_list (hs : Delivered host init as s)
    (hbefore : Before host init as s .list) :
    Delivered host init as { s with
      listed := s.listed ++ JobQueue.listActive s.queue } := by
  refine ⟨fun job hjob => ?_, hs.asked, hs.reports, hs.kept, hs.results⟩
  rcases List.mem_append.mp hjob with hold | hnew
  · exact hs.listed job hold
  · exact hbefore.hadJob (LawfulJobQueue.listActive_get hnew).1

/-- The prompt id it asks for is the one the job has now, or had when it was listed. -/
theorem delivered_ask [HandsOutJobs σ] (hs : Delivered host init as s) {i : Nat}
    (hbefore : Before host init as s (.ask i)) {job : QueuedJob}
    (hjob : s.listed[i]? = some job)
    (hprompt : hasPromptId (JobQueue.deref s.queue job) = some promptId) :
    Delivered host init as { s with
      asked := s.asked ++ [((JobQueue.deref s.queue job).id, promptId)] } := by
  have hnow : ∃ seen, HadJob host init as job.id seen ∧ seen.promptId = some promptId := by
    refine ⟨JobQueue.deref s.queue job, ?_, promptId_of_hasPromptId hprompt⟩
    rcases HandsOutJobs.deref_get s.queue job with hcopy | hlive
    · rw [hcopy]
      exact hs.listed job (List.mem_of_getElem? hjob)
    · exact hbefore.hadJob hlive
  rw [LawfulJobQueue.deref_id]
  refine ⟨hs.listed, fun q hq => ?_, hs.reports, hs.kept, fun id r hr => ?_⟩
  · rcases List.mem_append.mp hq with hold | hnew
    · exact hs.asked q hold
    · obtain rfl := List.mem_singleton.mp hnew
      exact hnow
  · obtain ⟨p, hasked, hreport⟩ := hs.results id r hr
    exact ⟨p, List.mem_append_left _ hasked, hreport⟩

/-- Every step keeps what has been delivered. -/
theorem delivered_step [HandsOutJobs σ] {a : DeliveryAction}
    (hs : Delivered host init as s) (hbefore : Before host init as s a)
    (hfresh : FreshNames s a) (h : deliveryStep host s a = some t) :
    Delivered host init as t := by
  cases a with
  | enqueue job now =>
      simp only [deliveryStep] at h
      split at h
      · rename_i hnone
        cases h
        exact hs.withQueue (fun id r hr =>
          RecordsResults.of_enqueue (Option.isNone_iff_eq_none.mp hnone) hr)
      · cases h
  | claim req locked now =>
      cases h
      exact hs.withQueue (fun id r hr => RecordsResults.of_claim hr)
  | call c now =>
      have hother : (∀ id r, c ≠ .markSucceeded id r) →
          Delivered host init as { s with queue := c.apply now s.queue } := by
        intro hne
        refine hs.withQueue (fun id r hr => ?_)
        rcases RecordsResults.of_apply hr with hold | hc
        · exact hold
        · exact absurd hc (hne id r)
      cases c with
      | markSucceeded id r => cases h
      | renewLease _ _ | markRunning _ | setPromptId _ _ | markFailed _ _ _
        | markRetryWait _ _ _ _ _ | cancel _ =>
          cases h
          exact hother (fun _ _ hc => by cases hc)
  | poll k promptId server put draws =>
      exact delivered_poll hs hbefore.mem hfresh.1 hfresh.2 h
  | list =>
      cases h
      exact delivered_list hs hbefore
  | ask i =>
      simp only [deliveryStep] at h
      split at h
      · cases h
      · rename_i job hjob
        split at h
        · cases h
        · rename_i promptId hprompt
          cases h
          exact delivered_ask hs hbefore hjob hprompt
  | resolve i n now =>
      simp only [deliveryStep] at h
      split at h
      · rename_i id promptId reported outputs hasked hreport
        split at h
        · rename_i hsame
          subst hsame
          cases h
          exact delivered_resolve hs now (List.mem_of_getElem? hasked)
            (List.mem_of_getElem? hreport)
        · cases h
      · cases h
  | store w =>
      cases h
      exact hs.withObjects (fun r hr o ho => into_of_ne (Ne.symm (hfresh r hr o ho)))

end Delivered

/-! ## Downloads -/

section Downloads

variable {σ : Type} [JobQueue σ]

/-- The owner reads the outputs of the job. -/
theorem getJobAsset_owner {q : σ} {objects : Objects} {id : Uuid} {job : QueuedJob}
    {r : JobResult} (hget : JobQueue.get q id = some job) (hresult : job.result = some r)
    (index : Int) :
    getJobAsset q objects job.userId (some id) index =
      readAsset objects r.outputs index := by
  have howned : ownedJob ((some id).bind (JobQueue.get q)) job.userId = .ok job := by
    show ownedJob (JobQueue.get q id) job.userId = _
    rw [hget]
    simp [ownedJob]
  unfold getJobAsset
  rw [howned]
  show readAsset objects ((job.result.map JobResult.outputs).getD []) index = _
  rw [hresult]
  rfl

/-- An output that was stored reads back. -/
theorem readOutput_found {objects : Objects} {draws : Draws} {found : List Found}
    (h : Holding objects draws found) {n : Nat} {f : Found} (hf : found[n]? = some f) :
    readOutput objects (f.output draws.hex n) = .ok (f.data, imageMime f.ext) := by
  have hkey : assetKey draws.hex n f.ext ≠ "" := by
    intro hempty
    have hlength := congrArg String.length hempty
    unfold assetKey at hlength
    simp [draws.length n] at hlength
  unfold readOutput Found.output
  dsimp only
  rw [if_neg hkey]
  unfold Objects.getObject
  rw [h n f hf]

variable [RecordsResults σ] [LawfulJobQueue σ] [HandsOutJobs σ]

/-- **What a job shows is what was made for it.**  In every run in which random names
do not repeat, a job with a result has had a prompt id in the queue for which a poll
reported the result; its owner downloads, under each index, the image that ComfyUI
listed there, and nothing under any other index; and nobody else downloads anything. -/
theorem assets_run (host : Host) (queue : σ) (urls : Nat → String)
    (hqueue : ∀ id r, ¬ RecordsResults.recorded queue id r) (as : List DeliveryAction)
    (t : Delivery σ) (hrun : (deliveries host σ).exec (.init queue urls) as = some t)
    (hfresh : (deliveries host σ).Along FreshNames (.init queue urls) as) (id : Uuid)
    (job : QueuedJob) (hget : JobQueue.get t.queue id = some job) (r : JobResult)
    (hresult : job.result = some r) :
    ∃ seen promptId k server put draws found,
      HadJob host (.init queue urls) as id seen ∧ seen.promptId = some promptId ∧
      DeliveryAction.poll k promptId server put draws ∈ as ∧
      List.Forall₂ (Downloads host server) (namedImages (server.entry promptId)) found ∧
      (∀ index : Int, getJobAsset t.queue t.objects job.userId (some id) index =
        match (if 0 ≤ index then found[index.toNat]? else none) with
        | some f => .ok (f.data, imageMime f.ext)
        | none => .error (.http 404 "asset not found")) ∧
      ∀ userId, userId ≠ job.userId → ∀ index : Int,
        getJobAsset t.queue t.objects userId (some id) index =
          .error (.http 404 "not found") := by
  have hbefore : (deliveries host σ).Along (Before host (.init queue urls) as)
      (.init queue urls) as :=
    Machine.along_of_split hrun (fun pre _ post _ hsplit hpre => ⟨pre, post, hsplit, hpre⟩)
  have ht : Delivered host (.init queue urls) as t := by
    refine Machine.invariant (M := deliveries host σ)
      (C := fun s a => Before host (.init queue urls) as s a ∧ FreshNames s a)
      (fun s a u hs hC h => ?_) (delivered_init hqueue) (hbefore.and hfresh) hrun
    exact delivered_step hs hC.1 hC.2 h
  obtain ⟨promptId, hasked, hreport⟩ :=
    ht.results id r (RecordsResults.of_get hget hresult)
  obtain ⟨seen, hseen, hprompt⟩ := ht.asked _ hasked
  obtain ⟨k, server, put, draws, found, hpoll, ⟨hfound, houtputs⟩, hholding⟩ :=
    ht.reports _ hreport
  refine ⟨seen, promptId, k, server, put, draws, found, hseen, hprompt, hpoll, hfound,
    fun index => ?_, fun userId huser index => ?_⟩
  · rw [getJobAsset_owner hget hresult, show r.outputs = _ from houtputs, readAsset_eq]
    by_cases hindex : 0 ≤ index
    · rw [if_pos hindex, if_pos hindex, List.getElem?_mapIdx]
      cases hf : found[index.toNat]? with
      | none => rfl
      | some f => exact readOutput_found hholding hf
    · rw [if_neg hindex, if_neg hindex]
  · unfold getJobAsset
    show (ownedJob (JobQueue.get t.queue id) userId >>= _) = _
    rw [hget]
    unfold ownedJob
    dsimp only
    rw [if_neg (Ne.symm huser)]
    rfl

/-! ### A run -/

/-- A server that shows the two images of a prompt. -/
def twoImagesServer : ComfyServer where
  history := .ok (.obj [("p", .obj [("outputs", .obj [("9", .obj [("images",
    .arr [.obj [("filename", .str "a.png")], .obj [("filename", .str "b.JPG")]])])])])])
  queue := .error "ConnectError"
  view params := if params.filename.isStr "a.png" then .ok [1] else .ok [2, 3]

def twoDraws : Draws where
  hex n := if n = 0 then "0123456789abcdef0123456789abcdef"
    else "fedcba9876543210fedcba9876543210"
  count := 2
  length n := by
    split
    · decide +kernel
    · decide +kernel
  distinct n m hlt hm := by
    obtain rfl : n = 0 := by omega
    obtain rfl : m = 1 := by omega
    decide +kernel

/-- Another job stores an image before the reconciler records these. -/
def twoImages : List DeliveryAction :=
  [.enqueue (newJob 7 1 "image_basic" "k" (.obj []) none 0) 0,
    .claim { workerCapacity := 1, leaseOwner := "s", leaseSeconds := 60 } [] 1,
    .call (.markRunning 7) 1, .call (.setPromptId 7 "p") 1, .list, .ask 0,
    .poll 0 "p" twoImagesServer (fun _ _ _ => .ok ()) twoDraws,
    .store ⟨"generated/other.png", [9], "image/png"⟩, .resolve 0 0 2]

theorem assets_run_twoImages :
    ∃ t, (deliveries asciiHost InMemoryJobQueue).exec
        (.init .empty (fun _ => "http://comfy")) twoImages = some t ∧
      ∃ found : List Found, found.length = 2 ∧
        (∀ index : Int, getJobAsset t.queue t.objects 1 (some 7) index =
          match (if 0 ≤ index then found[index.toNat]? else none) with
          | some f => .ok (f.data, imageMime f.ext)
          | none => .error (.http 404 "asset not found")) ∧
        ∀ index : Int, getJobAsset t.queue t.objects 2 (some 7) index =
          .error (.http 404 "not found") := by
  have hrun : ((deliveries asciiHost InMemoryJobQueue).exec
      (.init .empty (fun _ => "http://comfy")) twoImages).map
        (fun t => (JobQueue.get t.queue 7).bind (fun j => j.result.map
          (fun r => (j.userId, r.outputs.length)))) = some (some (1, 2)) := by
    decide +kernel
  obtain ⟨t, ht, hjob⟩ := Option.map_eq_some_iff.mp hrun
  obtain ⟨job, hget, hres⟩ := Option.bind_eq_some_iff.mp hjob
  obtain ⟨r, hresult, hpair⟩ := Option.map_eq_some_iff.mp hres
  have hfresh : (deliveries asciiHost InMemoryJobQueue).Along FreshNames
      (.init .empty (fun _ => "http://comfy")) twoImages := by
    refine ⟨trivial, trivial, trivial, trivial, trivial, trivial,
      ⟨by decide +kernel, fun _ _ => rfl⟩, ?_, trivial, ?_⟩
    · show ∀ r ∈ (_ : List (String × List Output)), ∀ o ∈ r.2,
        o.objectKey ≠ "generated/other.png"
      decide +kernel
    · split <;> trivial
  have hempty : ∀ id r, ¬ RecordsResults.recorded InMemoryJobQueue.empty id r := by
    intro id r h
    obtain ⟨j, hj, _⟩ := h
    cases hj
  obtain ⟨_, _, _, _, _, _, found, _, _, hpoll, hfound, howner, hothers⟩ :=
    assets_run asciiHost InMemoryJobQueue.empty (fun _ => "http://comfy") hempty twoImages
      t ht hfresh 7 job hget r hresult
  have huser : job.userId = 1 := congrArg Prod.fst hpair
  obtain ⟨-, rfl, rfl, -, -⟩ : _ = 0 ∧ _ = "p" ∧ _ = twoImagesServer ∧ _ ∧ _ := by
    simpa [twoImages] using hpoll
  refine ⟨t, ht, found, ?_, fun index => ?_, fun index => ?_⟩
  · rw [← hfound.length_eq]
    decide +kernel
  · rw [← huser]
    exact howner index
  · exact hothers 2 (by rw [huser]; decide) index

end Downloads

end Imagin4.Ports
