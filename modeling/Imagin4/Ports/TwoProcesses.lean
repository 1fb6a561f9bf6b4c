import Imagin4.Verified.Machine
import Imagin4.Ports.CompositeClient
import Imagin4.Ports.PollOutcome

/-!
# Composite clients of several processes

The scheduler submits and the reconciler polls, each with a composite client that
`build_comfy_client` has made from the same settings.  They share the ComfyUI
servers and the object storage, and nothing else: what one client remembers, no
other one sees.  Any number of processes make calls in any order, while the
servers and the storage change as they like, if only they keep what they have
said (`World.Keeps`).

An id leads every client to the same worker, and a worker's history tells every
client the same.  An image client knows the ids of its own submissions only.

## Main results

* `ComposedFrom.sameReport` — two clients report the same end of a prompt that is
  not with an image client.
* `knownBy_exec` — the image of one process is never known to another.
* `twoProcesses_run` — when two processes agree.
-/

namespace Imagin4.Ports

open Imagin4.Verified

/-! ## The world -/

/-- What the processes share at one moment: the servers, and an object storage
that does not choose by the key. -/
structure World where
  servers : Servers
  storage : Storage
  takes : StorageTakes storage.putObject storage.putObject

/-- The servers keep their histories, and the storage takes what it has taken. -/
structure World.Keeps (w w' : World) : Prop where
  history : ∀ url promptId, KeepsHistory (w.servers url promptId)
    (w'.servers url promptId) promptId
  storage : StorageTakes w.storage.putObject w'.storage.putObject

theorem World.Keeps.refl (w : World) : w.Keeps w :=
  ⟨fun _ _ _ => ⟨rfl, rfl⟩, w.takes⟩

theorem World.Keeps.trans {u v w : World} (huv : u.Keeps v) (hvw : v.Keeps w) :
    u.Keeps w := by
  refine ⟨fun url promptId hlists => ?_, fun key key' data mime htakes => ?_⟩
  · obtain ⟨hhistory, hview⟩ := huv.history url promptId hlists
    have hlisted : (v.servers url promptId).lists promptId = true := by
      unfold ComfyAnswers.lists at hlists ⊢
      rw [hhistory]
      exact hlists
    obtain ⟨hhistory', hview'⟩ := hvw.history url promptId hlisted
    exact ⟨hhistory'.trans hhistory, hview'.trans hview⟩
  · exact hvw.storage key key' data mime (huv.storage key key data mime htakes)

/-! ## The ComfyUI side -/

/-- What an id is that leads to a worker. -/
theorem MultiWorkerComfyUIClient.resolve_eq_some {host : Host} {promptId : String}
    {c : MultiWorkerComfyUIClient} {i : Nat} {worker : LiveComfyUIClient}
    {realId : String} :
    c.resolve host promptId = some (i, worker, realId) ↔
      (partition ':' promptId).2 = some realId ∧
        (∃ index, pyInt host (partition ':' promptId).1 = some index ∧
          pyIndex c.workers.length index = some i) ∧
        c.workers[i]? = some worker := by
  unfold resolve
  simp only [Option.bind_eq_bind, Option.bind_eq_some_iff, Option.pure_def,
    Option.some.injEq, Prod.mk.injEq]
  constructor
  · rintro ⟨id, hid, index, hindex, position, hposition, found, hfound, rfl, rfl,
      rfl⟩
    exact ⟨hid, ⟨index, hindex, hposition⟩, hfound⟩
  · rintro ⟨hid, ⟨index, hindex, hposition⟩, hfound⟩
    exact ⟨realId, hid, index, hindex, i, hposition, worker, hfound, rfl, rfl,
      rfl⟩

namespace ComfyClient

/-- The workers of a client. -/
def workers : ComfyClient → List LiveComfyUIClient
  | live c => [c]
  | multi c => c.workers

/-- Are ids tagged with the position of a worker, and where are the workers? -/
def layout : ComfyClient → Bool × List String
  | live c => (false, [c.baseUrl])
  | multi c => (true, c.workers.map LiveComfyUIClient.baseUrl)

/-- The worker an id leads to, and the id there. -/
def find? (host : Host) (promptId : String) :
    ComfyClient → Option (LiveComfyUIClient × String)
  | live c => some (c, promptId)
  | multi c => (c.resolve host promptId).map Prod.snd

variable {host : Host} {c c' : ComfyClient} {promptId : String}

theorem mem_workers_of_find {worker : LiveComfyUIClient} {realId : String}
    (h : c.find? host promptId = some (worker, realId)) : worker ∈ c.workers := by
  cases c with
  | live c =>
      cases h
      exact List.mem_singleton_self _
  | multi c =>
      obtain ⟨⟨position, found, id⟩, hresolve, heq⟩ := Option.map_eq_some_iff.mp h
      cases heq
      obtain ⟨_, _, hfound⟩ := MultiWorkerComfyUIClient.resolve_eq_some.mp hresolve
      exact List.mem_of_getElem? hfound

/-- What a client answers about an id. -/
theorem getStatus_find (servers : Servers) (storage : Storage)
    (hex : Nat → String) :
    (c.getStatus host servers storage hex promptId).1 =
      match c.find? host promptId with
      | none => unknownPromptId
      | some (worker, realId) => (worker.getStatus host
          (servers worker.baseUrl realId) storage.putObject hex realId).1 := by
  cases c with
  | live c => rfl
  | multi c =>
      unfold getStatus find? MultiWorkerComfyUIClient.getStatus
      dsimp only
      cases c.resolve host promptId with
      | none => rfl
      | some r => rfl

/-- In two lists of workers at the same places, a position has workers of the
same place. -/
theorem getElem?_of_baseUrls {ws ws' : List LiveComfyUIClient}
    (h : ws.map LiveComfyUIClient.baseUrl = ws'.map LiveComfyUIClient.baseUrl)
    {i : Nat} {worker : LiveComfyUIClient} (hworker : ws[i]? = some worker) :
    ∃ worker', ws'[i]? = some worker' ∧ worker'.baseUrl = worker.baseUrl := by
  have hurl : (ws'.map LiveComfyUIClient.baseUrl)[i]? = some worker.baseUrl := by
    rw [← h, List.getElem?_map, hworker]
    rfl
  rw [List.getElem?_map] at hurl
  exact Option.map_eq_some_iff.mp hurl

/-- An id leads two clients of the same layout to the same place. -/
theorem find_of_layout (h : c.layout = c'.layout) {worker : LiveComfyUIClient}
    {realId : String} (hfind : c.find? host promptId = some (worker, realId)) :
    ∃ worker', c'.find? host promptId = some (worker', realId) ∧
      worker'.baseUrl = worker.baseUrl := by
  cases c with
  | live c =>
      cases c' with
      | live c' =>
          cases hfind
          exact ⟨c', rfl, (List.cons.inj (congrArg Prod.snd h)).1.symm⟩
      | multi c' => cases congrArg Prod.fst h
  | multi c =>
      cases c' with
      | live c' => cases congrArg Prod.fst h
      | multi c' =>
          have hurls : c.workers.map LiveComfyUIClient.baseUrl =
              c'.workers.map LiveComfyUIClient.baseUrl := congrArg Prod.snd h
          have hlength : c.workers.length = c'.workers.length := by
            simpa using congrArg List.length hurls
          obtain ⟨⟨position, found, id⟩, hresolve, heq⟩ :=
            Option.map_eq_some_iff.mp hfind
          cases heq
          obtain ⟨hrealId, ⟨index, hindex, hposition⟩, hworker⟩ :=
            MultiWorkerComfyUIClient.resolve_eq_some.mp hresolve
          obtain ⟨worker', hworker', hurl⟩ := getElem?_of_baseUrls hurls hworker
          rw [hlength] at hposition
          have hresolve' : c'.resolve host promptId =
              some (position, worker', realId) :=
            MultiWorkerComfyUIClient.resolve_eq_some.mpr
              ⟨hrealId, ⟨index, hindex, hposition⟩, hworker'⟩
          refine ⟨worker', ?_, hurl⟩
          show (c'.resolve host promptId).map Prod.snd = _
          rw [hresolve']
          rfl

/-- All that its workers remember is settled. -/
def Sound (host : Host) (w : World) (c : ComfyClient) : Prop :=
  ∀ worker ∈ c.workers,
    worker.Sound host (w.servers worker.baseUrl) w.storage.putObject

/-- **Two clients of the same workers** report the same end of a prompt. -/
theorem sameReport {w w' : World} {hex hex' : Nat → String}
    (h : c.layout = c'.layout) (hc : c.Sound host w) (hc' : c'.Sound host w')
    (hkeeps : w.Keeps w')
    (hended : (c.getStatus host w.servers w.storage hex promptId).1.state.ended =
      true) :
    SameReport (c'.getStatus host w'.servers w'.storage hex' promptId).1
      (c.getStatus host w.servers w.storage hex promptId).1 := by
  rw [getStatus_find] at hended ⊢
  rw [getStatus_find]
  cases hfind : c.find? host promptId with
  | none =>
      cases hfind' : c'.find? host promptId with
      | none => exact SameReport.refl _
      | some found =>
          obtain ⟨worker, hworker, _⟩ := find_of_layout h.symm hfind'
          rw [hfind] at hworker
          cases hworker
  | some found =>
      obtain ⟨worker, realId⟩ := found
      obtain ⟨worker', hfind', hurl⟩ := find_of_layout h hfind
      rw [hfind] at hended
      rw [hfind']
      dsimp only at hended ⊢
      rw [hurl]
      have hsound := hc worker (mem_workers_of_find hfind)
      have hsound' := hc' worker' (mem_workers_of_find hfind')
      rw [hurl] at hsound'
      exact LiveComfyUIClient.sameReport_getStatus hsound hsound'
        (hkeeps.history worker.baseUrl realId) hkeeps.storage w'.takes hended

/-- A worker's client may be replaced by one of the same place. -/
theorem map_baseUrl_set {ws : List LiveComfyUIClient} {i : Nat}
    {worker after : LiveComfyUIClient} (h : ws[i]? = some worker)
    (hurl : after.baseUrl = worker.baseUrl) :
    (ws.set i after).map LiveComfyUIClient.baseUrl =
      ws.map LiveComfyUIClient.baseUrl := by
  obtain ⟨hlt, hworker⟩ := List.getElem?_eq_some_iff.mp h
  rw [List.map_set, hurl, ← hworker]
  have hmap : (ws.map LiveComfyUIClient.baseUrl)[i]? = some ws[i].baseUrl := by
    rw [List.getElem?_map, List.getElem?_eq_getElem hlt]
    rfl
  obtain ⟨hlt', heq⟩ := List.getElem?_eq_some_iff.mp hmap
  rw [← heq]
  exact List.set_getElem_self hlt'

variable {w w' : World}

theorem sound_set {ws : List LiveComfyUIClient} {i : Nat}
    {after : LiveComfyUIClient}
    (hws : ∀ worker ∈ ws,
      worker.Sound host (w.servers worker.baseUrl) w.storage.putObject)
    (hafter : after.Sound host (w.servers after.baseUrl) w.storage.putObject) :
    ∀ worker ∈ ws.set i after,
      worker.Sound host (w.servers worker.baseUrl) w.storage.putObject := by
  intro worker hworker
  rcases List.mem_or_eq_of_mem_set hworker with hmem | rfl
  · exact hws worker hmem
  · exact hafter

/-- A submission keeps the workers, and what they know. -/
theorem keeps_submit (services : SubmitServices) (uuid : String)
    (payload : List (String × Json)) (hc : c.Sound host w) :
    (c.submit host services uuid payload).2.layout = c.layout ∧
      (c.submit host services uuid payload).2.Sound host w := by
  cases c with
  | live c =>
      have hworker := hc c (List.mem_singleton_self c)
      unfold submit
      dsimp only
      split
      · exact ⟨rfl, hc⟩
      · rename_i promptId after hsubmit
        have hurl : after.baseUrl = c.baseUrl :=
          LiveComfyUIClient.baseUrl_submit hsubmit
        refine ⟨by simp [layout, hurl], fun worker hmem => ?_⟩
        obtain rfl := List.mem_singleton.mp hmem
        rw [hurl]
        exact LiveComfyUIClient.sound_submit hworker hsubmit
  | multi c =>
      unfold submit MultiWorkerComfyUIClient.submit
      dsimp only
      split
      · exact ⟨rfl, hc⟩
      · rename_i realId after hsubmit
        have hurl : after.baseUrl = (c.workers[c.pickWorker]).baseUrl :=
          LiveComfyUIClient.baseUrl_submit hsubmit
        have hworker : c.workers[c.pickWorker.val]? =
            some c.workers[c.pickWorker] :=
          List.getElem?_eq_getElem c.pickWorker.isLt
        have hsound := hc _ (List.mem_of_getElem? hworker)
        refine ⟨Prod.ext rfl (map_baseUrl_set hworker hurl), sound_set hc ?_⟩
        rw [hurl]
        exact LiveComfyUIClient.sound_submit hsound hsubmit

/-- And so does a poll. -/
theorem keeps_getStatus (hex : Nat → String) (promptId : String)
    (hc : c.Sound host w) :
    (c.getStatus host w.servers w.storage hex promptId).2.layout = c.layout ∧
      (c.getStatus host w.servers w.storage hex promptId).2.Sound host w := by
  cases c with
  | live c =>
      have hworker := hc c (List.mem_singleton_self c)
      unfold getStatus
      dsimp only
      refine ⟨by simp [layout, LiveComfyUIClient.baseUrl_getStatus], ?_⟩
      intro worker hmem
      obtain rfl := List.mem_singleton.mp hmem
      rw [LiveComfyUIClient.baseUrl_getStatus]
      exact LiveComfyUIClient.sound_getStatus hworker promptId
  | multi c =>
      unfold getStatus MultiWorkerComfyUIClient.getStatus
      dsimp only
      cases hresolve : c.resolve host promptId with
      | none => exact ⟨rfl, hc⟩
      | some r =>
          obtain ⟨position, worker, realId⟩ := r
          have hworker : c.workers[position]? = some worker :=
            (MultiWorkerComfyUIClient.resolve_eq_some.mp hresolve).2.2
          have hsound := hc worker (List.mem_of_getElem? hworker)
          refine ⟨Prod.ext rfl (map_baseUrl_set hworker
            LiveComfyUIClient.baseUrl_getStatus), sound_set hc ?_⟩
          rw [LiveComfyUIClient.baseUrl_getStatus]
          exact LiveComfyUIClient.sound_getStatus hsound realId

theorem Sound.keeps (hc : c.Sound host w) (h : w.Keeps w') :
    c.Sound host w' :=
  fun worker hmem => (hc worker hmem).keeps (h.history worker.baseUrl) h.storage

theorem sound_new (host : Host) (settings : Settings) (w : World) :
    (ComfyClient.new settings).Sound host w := by
  intro worker hmem
  have hnew : ∃ url, worker = LiveComfyUIClient.new url := by
    unfold ComfyClient.new at hmem
    split at hmem
    · exact ⟨_, List.mem_singleton.mp hmem⟩
    · exact ⟨_, List.mem_singleton.mp hmem⟩
    · obtain ⟨url, _, heq⟩ := List.mem_map.mp hmem
      exact ⟨url, heq.symm⟩
  obtain ⟨url, rfl⟩ := hnew
  exact LiveComfyUIClient.sound_new _ url

end ComfyClient

/-! ## The composite -/

/-- A composite client that was built from the settings, after any calls. -/
structure ComposedFrom (host : Host) (settings : Settings) (w : World)
    (c : CompositeComfyUIClient) : Prop where
  layout : c.comfyui.layout = (ComfyClient.new settings).layout
  sound : c.comfyui.Sound host w
  gemini : c.gemini.isSome = settings.imageClientConfigured
  provider : c.imageProviderName = settings.imageProvider.name

namespace ComposedFrom

variable {host : Host} {settings : Settings} {w w' : World}
  {c c' : CompositeComfyUIClient}

theorem build (host : Host) (settings : Settings) (w : World) :
    ComposedFrom host settings w (buildComfyClient settings) where
  layout := rfl
  sound := ComfyClient.sound_new host settings w
  gemini := by
    unfold buildComfyClient
    dsimp only
    split
    · rename_i hconfigured
      exact hconfigured.symm
    · rename_i hconfigured
      exact (Bool.eq_false_iff.mpr hconfigured).symm
  provider := rfl

theorem keeps (h : ComposedFrom host settings w c) (hkeeps : w.Keeps w') :
    ComposedFrom host settings w' c :=
  { h with sound := h.sound.keeps hkeeps }

/-- Another state of its workers. -/
theorem with_comfyui (h : ComposedFrom host settings w c) {comfyui : ComfyClient}
    (hlayout : comfyui.layout = c.comfyui.layout) (hsound : comfyui.Sound host w) :
    ComposedFrom host settings w { c with comfyui := comfyui } where
  layout := hlayout.trans h.layout
  sound := hsound
  gemini := h.gemini
  provider := h.provider

theorem submit (h : ComposedFrom host settings w c) (services : SubmitServices)
    (uuid : String) (payload : List (String × Json)) (kind : Option String) :
    ComposedFrom host settings w
      (c.submit host services w.storage uuid payload kind).2 := by
  unfold CompositeComfyUIClient.submit
  split
  · exact h
  · rename_i image _ himage
    split
    · exact h
    · have hsome : c.gemini.isSome = true := by
        rw [himage]
        rfl
      exact { h with gemini := hsome.symm.trans h.gemini }
  · split
    · exact h
    · obtain ⟨hlayout, hsound⟩ :=
        ComfyClient.keeps_submit services uuid _ h.sound
      exact h.with_comfyui hlayout hsound

theorem getStatus (h : ComposedFrom host settings w c) (hex : Nat → String)
    (promptId : String) :
    ComposedFrom host settings w
      (c.getStatus host w.servers w.storage hex promptId).2 := by
  unfold CompositeComfyUIClient.getStatus
  split
  · exact h
  · rename_i realId _
    obtain ⟨hlayout, hsound⟩ := ComfyClient.keeps_getStatus hex realId h.sound
    exact h.with_comfyui hlayout hsound
  · split
    · exact h
    · exact h
  · exact h

/-- **Two composite clients** of the same settings report the same end of a
prompt that is not with an image client. -/
theorem sameReport (h : ComposedFrom host settings w c)
    (h' : ComposedFrom host settings w' c') (hkeeps : w.Keeps w')
    {hex hex' : Nat → String} {promptId : String}
    (hroute : ∀ realId, decode promptId = .gemini realId →
      settings.imageClientConfigured = false)
    (hended : (c.getStatus host w.servers w.storage hex promptId).1.state.ended =
      true) :
    SameReport (c'.getStatus host w'.servers w'.storage hex' promptId).1
      (c.getStatus host w.servers w.storage hex promptId).1 := by
  unfold CompositeComfyUIClient.getStatus at hended ⊢
  cases hdecode : decode promptId with
  | notConfigured provider =>
      dsimp only
      rw [h.provider, h'.provider]
      exact SameReport.refl _
  | comfyui realId =>
      rw [hdecode] at hended
      exact ComfyClient.sameReport (h.layout.trans h'.layout.symm) h.sound
        h'.sound hkeeps hended
  | gemini realId =>
      have hconfigured := hroute realId hdecode
      have hnone : c.gemini = none := by
        rw [← Option.isNone_iff_eq_none, ← Option.not_isSome, h.gemini, hconfigured]
        rfl
      have hnone' : c'.gemini = none := by
        rw [← Option.isNone_iff_eq_none, ← Option.not_isSome, h'.gemini,
          hconfigured]
        rfl
      dsimp only
      rw [hnone, hnone']
      exact SameReport.refl _
  | unknown => exact SameReport.refl _

end ComposedFrom

/-! ## What an image client knows -/

namespace CompositeComfyUIClient

variable {host : Host} {settings : Settings} {uuid : String}
  {c : CompositeComfyUIClient}

/-- What the image client of a composite knows of an id. -/
def imageStatus (uuid : String) (c : CompositeComfyUIClient) :
    Option ComfyStatus :=
  c.gemini.bind (fun image => image.results.get uuid)

theorem imageStatus_getStatus (servers : Servers) (storage : Storage) (hex : Nat → String)
    (promptId : String) :
    (c.getStatus host servers storage hex promptId).2.imageStatus uuid =
      c.imageStatus uuid := by
  unfold getStatus
  split
  · rfl
  · rfl
  · split
    · rfl
    · rfl
  · rfl

/-- A submission tells of the id it draws, and of no other. -/
theorem imageStatus_submit {drawn : String} (hne : uuid ≠ drawn)
    (services : SubmitServices) (storage : Storage)
    (payload : List (String × Json)) (kind : Option String) :
    (c.submit host services storage drawn payload kind).2.imageStatus uuid =
      c.imageStatus uuid := by
  unfold submit
  split
  · rfl
  · rename_i image _ himage
    split
    · rfl
    · rename_i realId after hsubmit
      obtain ⟨_, status, _, rfl⟩ := ImageClient.of_submit hsubmit
      unfold imageStatus
      rw [himage]
      show StatusCache.get (image.results.set drawn status) uuid = _
      rw [StatusCache.get_set, if_neg hne]
      rfl
  · split
    · rfl
    · rfl

/-- A submission to the image client settles the outcome. -/
theorem imageStatus_of_submit {services : SubmitServices} {storage : Storage}
    {payload : List (String × Json)} {kind : Option String} {promptId : String}
    (hbackend : resolveBackend kind = .gemini) (hsome : c.gemini.isSome = true)
    (h : (c.submit host services storage uuid payload kind).1 = .ok promptId) :
    ∃ status, Reported status ∧
      (c.submit host services storage uuid payload kind).2.imageStatus uuid =
        some status := by
  obtain ⟨image, himage⟩ := Option.isSome_iff_exists.mp hsome
  unfold submit at h ⊢
  rw [hbackend, himage] at h ⊢
  dsimp only at h ⊢
  split at h
  · cases h
  · rename_i realId after hsubmit
    obtain ⟨_, status, hstatus, rfl⟩ := ImageClient.of_submit hsubmit
    refine ⟨status, hstatus, ?_⟩
    show StatusCache.get (image.results.set uuid status) uuid = _
    rw [StatusCache.get_set, if_pos rfl]

theorem imageStatus_build (settings : Settings) (uuid : String) :
    (buildComfyClient settings).imageStatus uuid = none := by
  unfold imageStatus buildComfyClient
  dsimp only
  split
  · rfl
  · rfl

/-- What a composite with an image client reports of a prompt of that client. -/
theorem getStatus_of_gemini {promptId : String}
    (hdecode : decode promptId = .gemini uuid) (hsome : c.gemini.isSome = true)
    (servers : Servers) (storage : Storage) (hex : Nat → String) :
    (c.getStatus host servers storage hex promptId).1 =
      (c.imageStatus uuid).getD (failedStatus "unknown_prompt_id") := by
  obtain ⟨image, himage⟩ := Option.isSome_iff_exists.mp hsome
  unfold getStatus imageStatus
  rw [hdecode, himage]
  rfl

end CompositeComfyUIClient

/-! ## Processes -/

/-- What happens: a process submits, a process polls, or the world changes. -/
inductive ProcessAction (π : Type) where
  | submit (p : π) (services : SubmitServices) (uuid : String)
      (payload : List (String × Json)) (kind : Option String)
  | getStatus (p : π) (hex : Nat → String) (promptId : String)
  | world (w : World)

/-- The processes' clients, the world, and the random ids that were drawn. -/
structure Processes (π : Type) where
  clients : π → CompositeComfyUIClient
  world : World
  drawn : List String

namespace Processes

variable {π : Type}

/-- Every process has just built its client. -/
def init (settings : Settings) (w : World) : Processes π where
  clients _ := buildComfyClient settings
  world := w
  drawn := []

/-- What a process reports about a prompt. -/
def report (host : Host) (s : Processes π) (p : π) (hex : Nat → String)
    (promptId : String) : ComfyStatus :=
  ((s.clients p).getStatus host s.world.servers s.world.storage hex promptId).1

/-- The world keeps what it has said. -/
def Kept (s : Processes π) : ProcessAction π → Prop
  | .world w => s.world.Keeps w
  | _ => True

/-- Every client was built from the settings. -/
def Composed (host : Host) (settings : Settings) (s : Processes π) : Prop :=
  ∀ p, ComposedFrom host settings s.world (s.clients p)

theorem composed_init (host : Host) (settings : Settings) (w : World) :
    (init settings w : Processes π).Composed host settings :=
  fun _ => ComposedFrom.build host settings w

/-- Only ids that were drawn are known. -/
def Drawn (s : Processes π) : Prop :=
  ∀ p uuid, uuid ∉ s.drawn → (s.clients p).imageStatus uuid = none

theorem drawn_init (settings : Settings) (w : World) :
    (init settings w : Processes π).Drawn :=
  fun _ uuid _ => CompositeComfyUIClient.imageStatus_build settings uuid

/-- A later state: the world has kept what it said, and about the ids drawn before
every process knows what it knew. -/
structure Later (s t : Processes π) : Prop where
  world : s.world.Keeps t.world
  drawn : ∀ uuid ∈ s.drawn, uuid ∈ t.drawn
  images : ∀ uuid ∈ s.drawn, ∀ p,
    (t.clients p).imageStatus uuid = (s.clients p).imageStatus uuid

theorem Later.refl (s : Processes π) : s.Later s :=
  ⟨World.Keeps.refl s.world, fun _ h => h, fun _ _ _ => rfl⟩

theorem Later.trans {r s t : Processes π} (hrs : r.Later s) (hst : s.Later t) :
    r.Later t where
  world := hrs.world.trans hst.world
  drawn uuid h := hst.drawn uuid (hrs.drawn uuid h)
  images uuid h p := by
    rw [hst.images uuid (hrs.drawn uuid h) p, hrs.images uuid h p]

variable [DecidableEq π]

/-- One process has made a call. -/
def setClient (s : Processes π) (p : π) (c : CompositeComfyUIClient) :
    Processes π :=
  { s with clients := Function.update s.clients p c }

/-- The processes as a machine.  No random id is drawn twice. -/
def machine (host : Host) : Machine (Processes π) (ProcessAction π) where
  step s
    | .submit p services uuid payload kind =>
        if uuid ∈ s.drawn then none
        else
          let r := (s.clients p).submit host services s.world.storage uuid payload
            kind
          some { s.setClient p r.2 with drawn := uuid :: s.drawn }
    | .getStatus p hex promptId =>
        some (s.setClient p ((s.clients p).getStatus host s.world.servers
          s.world.storage hex promptId).2)
    | .world w => some { s with world := w }

variable {host : Host} {settings : Settings}

theorem Composed.setClient {s : Processes π} (h : s.Composed host settings) {p : π}
    {c : CompositeComfyUIClient} (hc : ComposedFrom host settings s.world c) :
    (s.setClient p c).Composed host settings := by
  intro q
  show ComposedFrom host settings s.world (Function.update s.clients p c q)
  by_cases hq : q = p
  · rw [hq, Function.update_self]
    exact hc
  · rw [Function.update_of_ne hq]
    exact h q

theorem composed_step {s t : Processes π} {a : ProcessAction π}
    (h : s.Composed host settings) (hkept : s.Kept a)
    (hstep : (machine host).step s a = some t) : t.Composed host settings := by
  cases a with
  | submit p services uuid payload kind =>
      obtain ⟨_, hstep⟩ := Option.ite_none_left_eq_some.mp hstep
      cases hstep
      exact h.setClient ((h p).submit services uuid payload kind)
  | getStatus p hex promptId =>
      cases hstep
      exact h.setClient ((h p).getStatus hex promptId)
  | world w =>
      cases hstep
      exact fun p => (h p).keeps hkept

/-- What a call leaves known of an id, if it does so for the process that makes
it. -/
theorem imageStatus_setClient {s : Processes π} {p : π}
    {c : CompositeComfyUIClient} {uuid : String}
    (hc : c.imageStatus uuid = (s.clients p).imageStatus uuid) (q : π) :
    ((s.setClient p c).clients q).imageStatus uuid =
      (s.clients q).imageStatus uuid := by
  show (Function.update s.clients p c q).imageStatus uuid = _
  by_cases hq : q = p
  · rw [hq, Function.update_self, hc]
  · rw [Function.update_of_ne hq]

theorem later_step {s t : Processes π} {a : ProcessAction π} (hkept : s.Kept a)
    (hstep : (machine host).step s a = some t) : s.Later t := by
  cases a with
  | submit p services uuid payload kind =>
      obtain ⟨hfresh, hstep⟩ := Option.ite_none_left_eq_some.mp hstep
      cases hstep
      refine ⟨World.Keeps.refl s.world, fun _ h => List.mem_cons_of_mem _ h, ?_⟩
      intro known hknown q
      have hne : known ≠ uuid := ne_of_mem_of_not_mem hknown hfresh
      exact imageStatus_setClient
        (CompositeComfyUIClient.imageStatus_submit hne _ _ _ _) q
  | getStatus p hex promptId =>
      cases hstep
      refine ⟨World.Keeps.refl s.world, fun _ h => h, fun known _ q => ?_⟩
      exact imageStatus_setClient
        (CompositeComfyUIClient.imageStatus_getStatus _ _ _ _) q
  | world w =>
      cases hstep
      exact ⟨hkept, fun _ h => h, fun _ _ _ => rfl⟩

theorem drawn_step {s t : Processes π} {a : ProcessAction π} (h : s.Drawn)
    (hstep : (machine host).step s a = some t) : t.Drawn := by
  cases a with
  | submit p services uuid payload kind =>
      obtain ⟨_, hstep⟩ := Option.ite_none_left_eq_some.mp hstep
      cases hstep
      intro q known hknown
      have hne : known ≠ uuid := fun heq => hknown (heq ▸ List.mem_cons_self ..)
      have hold : known ∉ s.drawn :=
        fun hmem => hknown (List.mem_cons_of_mem uuid hmem)
      rw [← h q known hold]
      exact imageStatus_setClient
        (CompositeComfyUIClient.imageStatus_submit hne _ _ _ _) q
  | getStatus p hex promptId =>
      cases hstep
      intro q known hknown
      rw [← h q known hknown]
      exact imageStatus_setClient
        (CompositeComfyUIClient.imageStatus_getStatus _ _ _ _) q
  | world w =>
      cases hstep
      exact h

/-! ## Runs -/

section Runs

variable {s t : Processes π} {as : List (ProcessAction π)}

theorem composed_exec (h : s.Composed host settings)
    (hkept : (machine host).Along Kept s as)
    (hrun : (machine host).exec s as = some t) : t.Composed host settings :=
  Machine.invariant (fun _ _ _ h hkept hstep => composed_step h hkept hstep) h
    hkept hrun

theorem drawn_exec (h : s.Drawn) (hkept : (machine host).Along Kept s as)
    (hrun : (machine host).exec s as = some t) : t.Drawn :=
  Machine.invariant (fun _ _ _ h _ hstep => drawn_step h hstep) h hkept hrun

theorem later_exec (hkept : (machine host).Along Kept s as)
    (hrun : (machine host).exec s as = some t) : s.Later t :=
  Machine.transition (I := fun _ => True) Later.refl Later.trans
    (fun _ _ _ _ _ _ => trivial) (fun _ _ _ _ hkept hstep => later_step hkept hstep)
    trivial hkept hrun

end Runs

end Processes

/-- The same outcome: the state, and the error of a failure. -/
structure SameOutcome (a b : ComfyStatus) : Prop where
  state : b.state = a.state
  error : a.state = .failed → b.error = a.error

/-- A settled outcome is not what an unknown prompt id is answered with. -/
theorem Reported.not_sameOutcome {status : ComfyStatus} (h : Reported status) :
    ¬ SameOutcome status (failedStatus "unknown_prompt_id") := by
  rintro ⟨hstate, herror⟩
  exact h.known (herror hstate.symm).symm

open Processes

section Claim

variable {π : Type} {host : Host} {settings : Settings} {a b : π}
  {s₀ s₁ s₂ s₃ : Processes π} {services : SubmitServices} {uuid : String}
  {payload : List (String × Json)} {kind : Option String} {promptId : String}
  {hex hex' : Nat → String}

/-- Every other prompt is reported alike. -/
theorem sameOutcome_of_route
    (hsubmit : ((s₀.clients a).submit host services s₀.world.storage uuid payload
      kind).1 = .ok promptId)
    (h₃ : s₂.Later s₃) (hcomposed₂ : s₂.Composed host settings)
    (hcomposed₃ : s₃.Composed host settings)
    (hended : (s₂.report host a hex promptId).state.ended = true)
    (hroute : ¬ (resolveBackend kind = .gemini ∧
      settings.imageClientConfigured = true)) :
    SameOutcome (s₂.report host a hex promptId) (s₃.report host b hex' promptId) := by
  have hdecode := CompositeComfyUIClient.decode_submit hsubmit
  have hgemini : ∀ realId, decode promptId = .gemini realId →
      settings.imageClientConfigured = false := by
    intro realId hrealId
    rw [hrealId] at hdecode
    split at hdecode
    · obtain ⟨_, hdecode⟩ := hdecode
      cases hdecode
    · rename_i hbackend _
      exact Bool.eq_false_iff.mpr (fun hconfigured => hroute ⟨hbackend, hconfigured⟩)
    · obtain ⟨_, hdecode⟩ := hdecode
      cases hdecode
  have hsame : SameReport (s₃.report host b hex' promptId)
      (s₂.report host a hex promptId) :=
    (hcomposed₂ a).sameReport (hcomposed₃ b) h₃.world hgemini hended
  exact ⟨hsame.state, fun _ => hsame.error⟩

variable [DecidableEq π]

/-- What an image client has made, another process takes for unknown. -/
theorem not_sameOutcome_of_gemini (hab : a ≠ b) (hdrawn : s₀.Drawn)
    (hcomposed : s₀.Composed host settings)
    (hsubmit : ((s₀.clients a).submit host services s₀.world.storage uuid payload
      kind).1 = .ok promptId)
    (hstep : (machine host).step s₀ (.submit a services uuid payload kind) =
      some s₁)
    (h₂ : s₁.Later s₂) (h₃ : s₁.Later s₃) (hcomposed₂ : s₂.Composed host settings)
    (hcomposed₃ : s₃.Composed host settings)
    (hbackend : resolveBackend kind = .gemini)
    (hconfigured : settings.imageClientConfigured = true) :
    ¬ SameOutcome (s₂.report host a hex promptId) (s₃.report host b hex' promptId) := by
  have hsome : (s₀.clients a).gemini.isSome = true :=
    (hcomposed a).gemini.trans hconfigured
  have hdecode : decode promptId = .gemini uuid := by
    have hroute := CompositeComfyUIClient.decode_submit hsubmit
    obtain ⟨image, himage⟩ := Option.isSome_iff_exists.mp hsome
    rw [hbackend, himage] at hroute
    exact hroute
  obtain ⟨status, hreported, hstatus⟩ :=
    CompositeComfyUIClient.imageStatus_of_submit hbackend hsome hsubmit
  obtain ⟨hfresh, hs₁⟩ := Option.ite_none_left_eq_some.mp hstep
  cases hs₁
  have hdrawn₁ : uuid ∈ uuid :: s₀.drawn := List.mem_cons_self ..
  have ha : (s₂.clients a).imageStatus uuid = some status := by
    rw [h₂.images uuid hdrawn₁ a, ← hstatus]
    show (Function.update s₀.clients a _ a).imageStatus uuid = _
    rw [Function.update_self]
  have hb : (s₃.clients b).imageStatus uuid = none := by
    rw [h₃.images uuid hdrawn₁ b, ← hdrawn b uuid hfresh]
    show (Function.update s₀.clients a _ b).imageStatus uuid = _
    rw [Function.update_of_ne hab.symm]
  unfold report
  rw [CompositeComfyUIClient.getStatus_of_gemini hdecode
      ((hcomposed₂ a).gemini.trans hconfigured),
    CompositeComfyUIClient.getStatus_of_gemini hdecode
      ((hcomposed₃ b).gemini.trans hconfigured), ha, hb]
  exact hreported.not_sameOutcome

/-- **When two processes agree.**  One of them has submitted a prompt, and later
reports its end; the other one is asked at that time or later.  It reports the same
exactly if the prompt is not with a configured image client. -/
theorem twoProcesses_run {w : World} (hab : a ≠ b)
    {pre mid post : List (ProcessAction π)}
    (hpre : (machine host).exec (init settings w) pre = some s₀)
    (hsubmit : ((s₀.clients a).submit host services s₀.world.storage uuid payload
      kind).1 = .ok promptId)
    (hmid : (machine host).exec s₀ (.submit a services uuid payload kind :: mid) =
      some s₂)
    (hended : (s₂.report host a hex promptId).state.ended = true)
    (hpost : (machine host).exec s₂ post = some s₃)
    (hkept : (machine host).Along Kept (init settings w)
      (pre ++ .submit a services uuid payload kind :: mid ++ post)) :
    SameOutcome (s₂.report host a hex promptId) (s₃.report host b hex' promptId) ↔
      ¬ (resolveBackend kind = .gemini ∧ settings.imageClientConfigured = true) := by
  have hall : (machine host).exec (init settings w)
      (pre ++ .submit a services uuid payload kind :: mid) = some s₂ :=
    (machine host).exec_append_eq_some.mpr ⟨s₀, hpre, hmid⟩
  obtain ⟨hkept₂, hkept₃⟩ := (Machine.along_append hall).mp hkept
  obtain ⟨hkept₀, hkept₂⟩ := (Machine.along_append hpre).mp hkept₂
  obtain ⟨s₁, hstep, hmid⟩ := (machine host).exec_cons_eq_some.mp hmid
  obtain ⟨hkept₁, hkept₂⟩ := (Machine.along_cons hstep).mp hkept₂
  have hcomposed₀ := composed_exec (composed_init host settings w) hkept₀ hpre
  have hdrawn₀ := drawn_exec (drawn_init settings w) hkept₀ hpre
  have hcomposed₁ := composed_step hcomposed₀ hkept₁ hstep
  have hcomposed₂ := composed_exec hcomposed₁ hkept₂ hmid
  have hcomposed₃ := composed_exec hcomposed₂ hkept₃ hpost
  have hlater₂ := later_exec hkept₂ hmid
  have hlater₃ := later_exec hkept₃ hpost
  constructor
  · rintro hsame ⟨hbackend, hconfigured⟩
    exact not_sameOutcome_of_gemini hab hdrawn₀ hcomposed₀ hsubmit hstep hlater₂
      (hlater₂.trans hlater₃) hcomposed₂ hcomposed₃ hbackend hconfigured hsame
  · intro hroute
    exact sameOutcome_of_route hsubmit hlater₃ hcomposed₂ hcomposed₃ hended hroute

end Claim

/-! ## The scheduler and the reconciler -/

/-- Servers that nobody can reach, and a storage that takes everything. -/
def silentWorld : World where
  servers _ _ := ⟨.error "ConnectError", .error "ConnectError",
    fun _ => .error "ConnectError"⟩
  storage _ _ _ := .ok ()
  takes _ _ _ _ _ := rfl

/-- An image service that makes an image of one byte, and workers that cannot be
reached. -/
def oneByteServices : SubmitServices where
  design _ _ _ := .error "TimeoutError"
  generateContent _ := .ok ⟨some [⟨some ⟨some [⟨some ⟨some [1], none⟩⟩]⟩⟩]⟩
  images _ := .error { name := "ConnectError" }
  graph _ := .ok .null
  post _ _ := .error "ConnectError"
  designComfy _ _ := .error "TimeoutError"

/-- A host without other digits. -/
def bareHost : Host := ⟨fun _ => "", id, fun _ => none⟩

/-- The scheduler, `true`, submits a picture of a cat; the reconciler is `false`. -/
def submitCat (kind : String) : ProcessAction Bool :=
  .submit true oneByteServices "ab" [("prompt", .str "cat")] (some kind)

/-- A submission that fails is reported by both. -/
theorem twoProcesses_run_unreachable :
    ∃ s : Processes Bool,
      (machine bareHost).exec (init {} silentWorld) [submitCat "image_basic"] =
        some s ∧
      SameOutcome
        (s.report bareHost true (fun _ => "")
          "comfyui:localfail:ab:comfy_live_error:ConnectError")
        (s.report bareHost false (fun _ => "")
          "comfyui:localfail:ab:comfy_live_error:ConnectError") := by
  obtain ⟨s, hs⟩ : ∃ s, (machine bareHost).exec (init {} silentWorld)
      [submitCat "image_basic"] = some s := ⟨_, rfl⟩
  have hpre : (machine bareHost).exec (init {} silentWorld : Processes Bool) [] =
      some (init {} silentWorld) := rfl
  have hpost : (machine bareHost).exec s [] = some s := rfl
  have hkept : (machine bareHost).Along Kept (init {} silentWorld)
      ([] ++ submitCat "image_basic" :: [] ++ []) := ⟨trivial, trivial⟩
  have hended : (s.report bareHost true (fun _ => "")
      "comfyui:localfail:ab:comfy_live_error:ConnectError").state.ended = true := by
    cases hs
    rfl
  have hne : true ≠ false := by decide
  exact ⟨s, hs, (twoProcesses_run hne hpre rfl hs hended hpost hkept).mpr
    (by decide)⟩

/-- The image the scheduler's client has made is unknown to the reconciler's. -/
theorem not_twoProcesses :
    ∃ s : Processes Bool,
      (machine bareHost).exec
        (init { geminiApiKey := some "key" } silentWorld)
        [submitCat "poster_infographic"] = some s ∧
      s.report bareHost true (fun _ => "") "gemini:ab" =
        { state := .succeeded,
          outputs := some [⟨"generated/ab.png", "image/png"⟩] } ∧
      s.report bareHost false (fun _ => "") "gemini:ab" =
        failedStatus "unknown_prompt_id" :=
  ⟨_, rfl, rfl, rfl⟩

end Imagin4.Ports
