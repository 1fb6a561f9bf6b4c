import Imagin4.Verified.Table
import Imagin4.Ports.Scheduler

/-!
# Heartbeats

`_heartbeat_once` of `app/services/scheduler.py` asks every configured ComfyUI worker
for its queue, and writes the answer into a row of `comfy_workers` under a name made
from the worker's base URL.  `_reserve_capacity_by_backend` looks at all the rows,
whoever wrote them and when.

So the fleet counts as online for as long as any row says so.  A row is overwritten
only by a worker with the same name: the row of a worker that is no longer configured
stays as it was, and of two workers with one name the later one hides the other.

## Main results

* `onlineRow_heartbeatOnce` — which rows are online after a pass.
* `reflects_passes` — under one configuration with distinct names the fleet is online
  after a pass exactly if a worker answered.
* `reflects_iff` — when a pass leaves the fleet online exactly if a worker answered.
* `not_reflects` — an old configuration keeps the fleet online.
-/

namespace Imagin4.Ports

open Imagin4.Verified

/-! ## Names -/

/-- `s.replace(old, new)` for an `old` that is not empty; the first argument counts
the characters of a match that are still to be passed over. -/
def replaceChars (old new : List Char) : Nat → List Char → List Char
  | _, [] => []
  | matched + 1, _ :: cs => replaceChars old new matched cs
  | 0, c :: cs =>
      if old.isPrefixOf (c :: cs) then new ++ replaceChars old new (old.length - 1) cs
      else c :: replaceChars old new 0 cs

/-- `s.rstrip(c)`. -/
def rstripChar (c : Char) (cs : List Char) : List Char :=
  (cs.reverse.dropWhile (· = c)).reverse

/-- `_worker_name`. -/
def workerName (baseUrl : String) : String :=
  let cs := replaceChars "http://".toList [] 0 baseUrl.toList
  let cs := replaceChars "https://".toList [] 0 cs
  let cs := replaceChars ['/'] ['-'] 0 cs
  String.ofList (rstripChar '-' cs)

example : workerName "http://localhost:8188/" = "localhost:8188" := by decide

/-! ## The table -/

/-- The states of a worker. -/
inductive WorkerStatus where
  | online
  | draining
  | offline
deriving DecidableEq, Repr

/-- The state as the column has it. -/
def WorkerStatus.name : WorkerStatus → String
  | .online => "online"
  | .draining => "draining"
  | .offline => "offline"

/-- A row of `comfy_workers`. -/
structure ComfyWorker where
  name : String
  endpointRef : String
  status : WorkerStatus
  maxSlots : Int
  reservedSlots : Int
  runningSlots : Int
  lastHeartbeatAt : DateTime
deriving DecidableEq

/-- `comfy_workers`, with its unique constraint. -/
abbrev ComfyWorkers := Table ComfyWorker.name

/-- `ON CONFLICT (name) DO UPDATE` leaves the slots that it does not set. -/
def ComfyWorker.onConflict (row : ComfyWorker) : Option ComfyWorker → ComfyWorker
  | none => row
  | some old => { row with maxSlots := old.maxSlots, reservedSlots := old.reservedSlots }

/-- The `INSERT … ON CONFLICT`. -/
def upsertWorker (workers : ComfyWorkers) (row : ComfyWorker) : ComfyWorkers :=
  workers.put (row.onConflict (workers.find? row.name))

/-- What `_reserve_capacity_by_backend` reads of the rows. -/
def workerStatuses (workers : ComfyWorkers) : WorkerStatuses :=
  some (workers.rows.map (fun row => row.status.name))

/-! ## A pass -/

/-- `comfy_mode`. -/
inductive ComfyMode where
  | mock
  | live
deriving DecidableEq

/-- `worker_urls`. -/
def Settings.workerUrls (settings : Settings) : List String :=
  if settings.comfyWorkerBaseUrls ≠ [] then settings.comfyWorkerBaseUrls
  else if settings.comfyBaseUrl ≠ "" then [settings.comfyBaseUrl]
  else []

/-- What `GET {base_url}/queue` comes to: the document, or the exception of the
request, of a status that is none of success, or of a body that is no JSON. -/
abbrev Probe := Except PyError Json

/-- The row of a worker after its probe.  A document without `get` is an exception
like the others. -/
def probedRow (baseUrl : String) (probe : Probe) (now : DateTime) : ComfyWorker :=
  let row := fun status runningSlots =>
    ⟨workerName baseUrl, baseUrl, status, 1, 0, runningSlots, now⟩
  match probe.bind (fun data => data.get "queue_running") with
  | .ok queueRunning => row .online (if queueRunning.truthy then 1 else 0)
  | .error _ => row .offline 0

/-- `_heartbeat_once`; the database takes every row. -/
def heartbeatOnce (settings : Settings) (comfyMode : ComfyMode)
    (probe : String → Probe) (now : DateTime) (workers : ComfyWorkers) : ComfyWorkers :=
  if comfyMode = .mock then workers
  else settings.workerUrls.foldl
    (fun workers baseUrl => upsertWorker workers (probedRow baseUrl (probe baseUrl) now))
    workers

/-! ## The fleet -/

/-- The fleet counts as online: there is capacity where there is a free slot. -/
def TreatsAsOnline (workers : WorkerStatuses) : Prop :=
  ∀ (settings : Settings) (comfyActive geminiActive : Nat),
    (settings.reserveCapacityByBackend comfyActive geminiActive workers).comfyui =
      max 0 (settings.comfySlots - comfyActive)

/-- A row says that its worker is online. -/
def OnlineRow (workers : ComfyWorkers) (p : String → Prop) : Prop :=
  ∃ row ∈ workers, row.status = .online ∧ p row.name

theorem name_eq_online {status : WorkerStatus} :
    status.name = "online" ↔ status = .online := by
  cases status <;> decide

theorem any_online_iff {workers : ComfyWorkers} :
    (workers.rows.map (fun row => row.status.name)).any (fun s => decide (s = "online")) =
      true ↔ OnlineRow workers (fun _ => True) := by
  simp [OnlineRow, Table.mem_def, name_eq_online]

/-- A table with rows is online by any of them. -/
theorem treatsAsOnline_iff {workers : ComfyWorkers} (h : workers.rows ≠ []) :
    TreatsAsOnline (workerStatuses workers) ↔ OnlineRow workers (fun _ => True) := by
  rw [← any_online_iff]
  unfold TreatsAsOnline workerStatuses Settings.reserveCapacityByBackend
  by_cases hOnline : (workers.rows.map (fun row => row.status.name)).any
      (fun s => decide (s = "online")) = true
  · simp [hOnline]
  · constructor
    · intro hBudget
      have hSlot := hBudget {} 0 0
      have hOffline : (!(workers.rows.map (fun row => row.status.name)).any
          (fun s => decide (s = "online")) &&
          !(workers.rows.map (fun row => row.status.name)).isEmpty) = true := by
        rw [Bool.not_eq_true] at hOnline
        rw [hOnline, List.isEmpty_map, List.isEmpty_eq_false_iff.mpr h]
        rfl
      dsimp only at hSlot
      rw [if_pos hOffline] at hSlot
      exact absurd hSlot (by decide)
    · intro hAny
      exact absurd hAny hOnline

/-- The worker has answered. -/
def answered (probe : Probe) : Bool :=
  match probe with
  | .ok (.obj _) => true
  | _ => false

theorem probedRow_name (baseUrl : String) (probe : Probe) (now : DateTime) :
    (probedRow baseUrl probe now).name = workerName baseUrl := by
  unfold probedRow
  split <;> rfl

theorem probedRow_online (baseUrl : String) (probe : Probe) (now : DateTime) :
    (probedRow baseUrl probe now).status = .online ↔ answered probe = true := by
  cases probe with
  | error e => simp [probedRow, Except.bind, answered]
  | ok data =>
      cases data <;> simp [probedRow, Except.bind, answered, Json.get, Json.getD]

theorem onConflict_name (row : ComfyWorker) (old : Option ComfyWorker) :
    (row.onConflict old).name = row.name := by
  cases old <;> rfl

theorem onConflict_status (row : ComfyWorker) (old : Option ComfyWorker) :
    (row.onConflict old).status = row.status := by
  cases old <;> rfl

/-- An upsert replaces the row of that name and leaves the others. -/
theorem onlineRow_upsertWorker {workers : ComfyWorkers} {row : ComfyWorker}
    {p : String → Prop} :
    OnlineRow (upsertWorker workers row) p ↔
      (row.status = .online ∧ p row.name) ∨
        OnlineRow workers (fun name => name ≠ row.name ∧ p name) := by
  unfold OnlineRow upsertWorker
  constructor
  · rintro ⟨r, hr, hOnline, hp⟩
    rcases Table.mem_put.mp hr with rfl | ⟨hOld, hNe⟩
    · rw [onConflict_status] at hOnline
      rw [onConflict_name] at hp
      exact .inl ⟨hOnline, hp⟩
    · rw [onConflict_name] at hNe
      exact .inr ⟨r, hOld, hOnline, hNe, hp⟩
  · rintro (⟨hOnline, hp⟩ | ⟨r, hr, hOnline, hNe, hp⟩)
    · refine ⟨_, Table.mem_put.mpr (.inl rfl), ?_, ?_⟩
      · rw [onConflict_status]
        exact hOnline
      · rw [onConflict_name]
        exact hp
    · refine ⟨r, Table.mem_put.mpr (.inr ⟨hr, ?_⟩), hOnline, hp⟩
      rw [onConflict_name]
      exact hNe

/-- The base URLs that share their name with no later one. -/
def lastOfName : List String → List String
  | [] => []
  | baseUrl :: baseUrls =>
      if workerName baseUrl ∈ baseUrls.map workerName then lastOfName baseUrls
      else baseUrl :: lastOfName baseUrls

theorem mem_of_mem_lastOfName {baseUrl : String} {baseUrls : List String}
    (h : baseUrl ∈ lastOfName baseUrls) : baseUrl ∈ baseUrls := by
  induction baseUrls with
  | nil => exact h
  | cons first rest ih =>
      rw [lastOfName] at h
      by_cases hShared : workerName first ∈ rest.map workerName
      · rw [if_pos hShared] at h
        exact List.mem_cons_of_mem _ (ih h)
      · rw [if_neg hShared] at h
        rcases List.mem_cons.mp h with rfl | h
        · exact List.mem_cons_self
        · exact List.mem_cons_of_mem _ (ih h)

theorem lastOfName_of_nodup {baseUrls : List String}
    (h : (baseUrls.map workerName).Nodup) : lastOfName baseUrls = baseUrls := by
  induction baseUrls with
  | nil => rfl
  | cons first rest ih =>
      rw [List.map_cons, List.nodup_cons] at h
      rw [lastOfName, if_neg h.1, ih h.2]

/-- Distinct URLs that all come last have distinct names. -/
theorem nodup_of_lastOfName {baseUrls : List String} (hDistinct : baseUrls.Nodup)
    (h : ∀ baseUrl ∈ baseUrls, baseUrl ∈ lastOfName baseUrls) :
    (baseUrls.map workerName).Nodup := by
  induction baseUrls with
  | nil => exact List.nodup_nil
  | cons first rest ih =>
      obtain ⟨hFirst, hRest⟩ := List.nodup_cons.mp hDistinct
      rw [lastOfName] at h
      by_cases hShared : workerName first ∈ rest.map workerName
      · rw [if_pos hShared] at h
        exact absurd (mem_of_mem_lastOfName (h first (by simp))) hFirst
      · rw [if_neg hShared] at h
        rw [List.map_cons, List.nodup_cons]
        refine ⟨hShared, ih hRest (fun baseUrl hMem => ?_)⟩
        rcases List.mem_cons.mp (h baseUrl (by simp [hMem])) with rfl | hLast
        · exact absurd hMem hFirst
        · exact hLast

/-! ## After a pass -/

section Pass

variable {settings : Settings} {probe : String → Probe} {now : DateTime}

/-- The loop over the workers. -/
theorem onlineRow_foldl (baseUrls : List String) :
    ∀ (workers : ComfyWorkers) (p : String → Prop),
      OnlineRow (baseUrls.foldl (fun workers baseUrl =>
          upsertWorker workers (probedRow baseUrl (probe baseUrl) now)) workers) p ↔
        (∃ baseUrl ∈ lastOfName baseUrls,
          answered (probe baseUrl) = true ∧ p (workerName baseUrl)) ∨
        OnlineRow workers (fun name => name ∉ baseUrls.map workerName ∧ p name) := by
  induction baseUrls with
  | nil =>
      intro workers p
      simp [lastOfName, OnlineRow]
  | cons baseUrl baseUrls ih =>
      intro workers p
      rw [List.foldl_cons, ih, onlineRow_upsertWorker, probedRow_online, probedRow_name,
        lastOfName]
      have hNames : OnlineRow workers (fun name => name ≠ workerName baseUrl ∧
            name ∉ baseUrls.map workerName ∧ p name) ↔
          OnlineRow workers (fun name =>
            name ∉ (baseUrl :: baseUrls).map workerName ∧ p name) := by
        simp [OnlineRow, and_assoc]
      rw [hNames]
      by_cases hShared : workerName baseUrl ∈ baseUrls.map workerName
      · rw [if_pos hShared]
        simp [hShared]
      · rw [if_neg hShared]
        simp only [hShared, not_false_eq_true, true_and, List.exists_mem_cons_iff,
          or_assoc]
        exact or_left_comm

/-- The row of a worker that is not configured. -/
def StaleOnline (settings : Settings) (workers : ComfyWorkers) : Prop :=
  OnlineRow workers (fun name => name ∉ settings.workerUrls.map workerName)

theorem onlineRow_heartbeatOnce (workers : ComfyWorkers) (p : String → Prop) :
    OnlineRow (heartbeatOnce settings .live probe now workers) p ↔
      (∃ baseUrl ∈ lastOfName settings.workerUrls,
        answered (probe baseUrl) = true ∧ p (workerName baseUrl)) ∨
      OnlineRow workers
        (fun name => name ∉ settings.workerUrls.map workerName ∧ p name) :=
  onlineRow_foldl settings.workerUrls workers p

/-- A pass over some workers leaves rows. -/
theorem rows_heartbeatOnce (hUrls : settings.workerUrls ≠ []) (workers : ComfyWorkers) :
    (heartbeatOnce settings .live probe now workers).rows ≠ [] := by
  obtain ⟨before, last, hLast⟩ :=
    (List.eq_nil_or_concat settings.workerUrls).resolve_left hUrls
  rw [heartbeatOnce, if_neg (by decide), hLast, List.concat_eq_append, List.foldl_append]
  exact List.ne_nil_of_mem (Table.mem_put.mpr (.inl rfl))

/-- The pass leaves the fleet online exactly if a configured worker has answered. -/
def Reflects (settings : Settings) (probe : String → Probe) (now : DateTime)
    (workers : ComfyWorkers) : Prop :=
  TreatsAsOnline (workerStatuses (heartbeatOnce settings .live probe now workers)) ↔
    ∃ baseUrl ∈ settings.workerUrls, answered (probe baseUrl) = true

theorem reflects_iff_rows (hUrls : settings.workerUrls ≠ []) (workers : ComfyWorkers) :
    Reflects settings probe now workers ↔
      ((∃ baseUrl ∈ lastOfName settings.workerUrls, answered (probe baseUrl) = true) ∨
          StaleOnline settings workers ↔
        ∃ baseUrl ∈ settings.workerUrls, answered (probe baseUrl) = true) := by
  rw [Reflects, treatsAsOnline_iff (rows_heartbeatOnce hUrls workers),
    onlineRow_heartbeatOnce]
  simp only [and_true]
  rfl

/-- With distinct names and no row but theirs online, every pass reflects what it
finds. -/
theorem reflects_of_names (hUrls : settings.workerUrls ≠ [])
    (hNames : (settings.workerUrls.map workerName).Nodup) {workers : ComfyWorkers}
    (hStale : ¬ StaleOnline settings workers) : Reflects settings probe now workers := by
  rw [reflects_iff_rows hUrls, lastOfName_of_nodup hNames]
  simp [hStale]

/-- A pass makes no rows but those of its workers. -/
theorem staleOnline_heartbeatOnce {workers : ComfyWorkers} :
    StaleOnline settings (heartbeatOnce settings .live probe now workers) ↔
      StaleOnline settings workers := by
  rw [StaleOnline, onlineRow_heartbeatOnce]
  simp only [and_self]
  refine ⟨?_, .inr⟩
  rintro (⟨baseUrl, hLast, -, hOther⟩ | hStale)
  · exact absurd (List.mem_map_of_mem (mem_of_mem_lastOfName hLast)) hOther
  · exact hStale

/-- As long as the configuration stays, the fleet is online after a pass exactly if a
worker answered it. -/
theorem reflects_passes (hUrls : settings.workerUrls ≠ [])
    (hNames : (settings.workerUrls.map workerName).Nodup)
    (passes : List ((String → Probe) × DateTime)) :
    Reflects settings probe now (passes.foldl
      (fun workers pass => heartbeatOnce settings .live pass.1 pass.2 workers)
      Table.empty) := by
  refine reflects_of_names hUrls hNames ?_
  induction passes using List.reverseRecOn with
  | nil =>
      rintro ⟨row, hRow, -⟩
      cases hRow
  | append_singleton passes pass ih =>
      rw [List.foldl_append, List.foldl_cons, List.foldl_nil, staleOnline_heartbeatOnce]
      exact ih

/-- Only one worker answers. -/
def onlyAnswers (baseUrl : String) (asked : String) : Probe :=
  if asked = baseUrl then .ok (.obj []) else .error "ConnectError"

theorem answered_onlyAnswers {baseUrl asked : String} :
    answered (onlyAnswers baseUrl asked) = true ↔ asked = baseUrl := by
  unfold onlyAnswers
  by_cases h : asked = baseUrl <;> simp [h, answered]

/-- A pass, and the passes there can be over a table. -/
theorem reflects_iff (hUrls : settings.workerUrls ≠ [])
    (hDistinct : settings.workerUrls.Nodup) (workers : ComfyWorkers) :
    (∀ probe now, Reflects settings probe now workers ↔
      (StaleOnline settings workers →
        ∃ baseUrl ∈ settings.workerUrls, answered (probe baseUrl) = true) ∧
      ((∃ baseUrl ∈ settings.workerUrls, answered (probe baseUrl) = true) →
        StaleOnline settings workers ∨
        ∃ baseUrl ∈ lastOfName settings.workerUrls,
          answered (probe baseUrl) = true)) ∧
    ((∀ probe now, Reflects settings probe now workers) ↔
      (settings.workerUrls.map workerName).Nodup ∧ ¬ StaleOnline settings workers) := by
  constructor
  · intro probe now
    rw [reflects_iff_rows hUrls]
    constructor
    · intro h
      exact ⟨fun hStale => h.mp (.inr hStale), fun hSome => (h.mpr hSome).symm⟩
    · rintro ⟨hStale, hSome⟩
      constructor
      · rintro (⟨baseUrl, hLast, hAnswered⟩ | hOnline)
        · exact ⟨baseUrl, mem_of_mem_lastOfName hLast, hAnswered⟩
        · exact hStale hOnline
      · intro h
        exact (hSome h).symm
  · constructor
    · intro h
      have hStale : ¬ StaleOnline settings workers := by
        intro hOnline
        have hNobody := h (fun _ => .error "ConnectError") 0
        rw [reflects_iff_rows hUrls] at hNobody
        obtain ⟨baseUrl, -, hAnswered⟩ := hNobody.mp (.inr hOnline)
        cases hAnswered
      refine ⟨nodup_of_lastOfName hDistinct (fun baseUrl hMem => ?_), hStale⟩
      have hOnly := h (onlyAnswers baseUrl) 0
      rw [reflects_iff_rows hUrls] at hOnly
      rcases hOnly.mpr ⟨baseUrl, hMem, answered_onlyAnswers.mpr rfl⟩ with hLast | hOnline
      · obtain ⟨last, hLast, hAnswered⟩ := hLast
        rw [← answered_onlyAnswers.mp hAnswered]
        exact hLast
      · exact absurd hOnline hStale
    · rintro ⟨hNames, hStale⟩ probe now
      exact reflects_of_names hUrls hNames hStale

end Pass

/-- A configuration of the workers. -/
def configured (csv : String) : Settings := { comfyWorkerBaseUrlsCsv := csv }

theorem reflects_iff_configured :
    Reflects (configured "http://a:8188") (onlyAnswers "http://a:8188") 0 Table.empty := by
  have hUrls : (configured "http://a:8188").workerUrls = ["http://a:8188"] := by decide
  have hStale : ¬ StaleOnline (configured "http://a:8188") Table.empty := by
    rintro ⟨row, hRow, -⟩
    cases hRow
  exact (reflects_iff (by simp [hUrls]) (by simp [hUrls]) Table.empty).2.mpr
    ⟨by simp [hUrls], hStale⟩ _ _

/-- An old worker is no longer configured, and the new one does not answer; and of two
workers with one name the first answers. -/
theorem not_reflects :
    ¬ Reflects (configured "http://b:8188") (fun _ => .error "ConnectError") 5
      (heartbeatOnce (configured "http://a:8188") .live (fun _ => .ok (.obj [])) 0
        Table.empty) ∧
    ¬ Reflects (configured "http://a:8188,https://a:8188") (onlyAnswers "http://a:8188") 0
      Table.empty := by
  constructor
  · rw [reflects_iff_rows (by decide)]
    intro h
    have hStale : StaleOnline (configured "http://b:8188")
        (heartbeatOnce (configured "http://a:8188") .live (fun _ => .ok (.obj [])) 0
          Table.empty) :=
      (onlineRow_heartbeatOnce _ _).mpr
        (.inl ⟨"http://a:8188", by decide, rfl, by decide⟩)
    obtain ⟨baseUrl, -, hAnswered⟩ := h.mp (.inr hStale)
    cases hAnswered
  · rw [reflects_iff_rows (by decide)]
    intro h
    have hUrls : (configured "http://a:8188,https://a:8188").workerUrls =
        ["http://a:8188", "https://a:8188"] := by decide +kernel
    have hLast : lastOfName ["http://a:8188", "https://a:8188"] =
        ["https://a:8188"] := by decide +kernel
    rw [hUrls, hLast] at h
    have hFirst : "http://a:8188" ∈ ["http://a:8188", "https://a:8188"] := by simp
    have hAnswered : answered (onlyAnswers "http://a:8188" "http://a:8188") = true :=
      answered_onlyAnswers.mpr rfl
    rcases h.mpr ⟨_, hFirst, hAnswered⟩ with hAnswers | hStale
    · simp [answered_onlyAnswers] at hAnswers
    · obtain ⟨row, hRow, -⟩ := hStale
      cases hRow

end Imagin4.Ports
