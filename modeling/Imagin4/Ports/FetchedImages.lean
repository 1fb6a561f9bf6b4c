import Mathlib.Data.List.Forall2
import Imagin4.Verified.Writes
import Imagin4.Ports.ComfyLive
import Imagin4.Ports.StoredImages

/-!
# The outputs of a ComfyUI prompt, and the storage

`LiveComfyUIClient` of `app/adapters/comfyui/live.py` once more, with the storage as a
state: a poll downloads the images of a finished prompt and puts them under random
keys, and what it has stored before an exception stays.  `/view` answers by the
parameters of the request.

`Imagin4.Ports.ComfyLive` has the same client over a storage that only answers;
`fetchInto_gives` and `getStatusInto_fst` say that the two agree.

## Main results

* `fetchInto_writes`, `pollInto_writes` — what goes into the storage, also where the
  poll fails; where it succeeds, the images with a name, in their order.
* `foldl_into_found` — after these writes every image is under its key.
-/

namespace Imagin4.Ports

open Imagin4.Verified

/-! ## Fetching -/

/-- `params` of a `/view` request. -/
structure ViewParams where
  filename : Json
  subfolder : Json
  type : Json

/-- What `/history` and `/queue` answer during one poll, and `/view` for a file. -/
structure ComfyServer where
  history : Except PyError Json
  queue : Except PyError Json
  view : ViewParams → Except PyError Bytes

/-- An object that is put into the storage. -/
structure Put where
  objectKey : String
  data : Bytes
  mimeType : String

/-- The storage after a `put_object`. -/
def Put.into (objects : Objects) (w : Put) : Objects :=
  objects.putObject w.objectKey w.data w.mimeType

/-- The key of the `n`-th image a poll stores. -/
def assetKey (hex : Nat → String) (n : Nat) (ext : String) : String :=
  "generated/" ++ hex n ++ "." ++ ext

/-- A computation of the client over the storage. -/
abbrev Fetching (α : Type) := Raising PollError Objects α

open Raising (raising change)

section Fetch

variable (host : Host) (server : ComfyServer) (put : PutObject) (hex : Nat → String)

/-- `await self._storage.put_object(…)`; `put` says whether the storage takes it. -/
def putObject (w : Put) : Fetching Unit := do
  raising (handling (put w.objectKey w.data w.mimeType))
  change (fun objects => w.into objects)

/-- The parameters of the `/view` request for an image with this file name. -/
def viewParams (filename image : Json) : Except PyError ViewParams := do
  let subfolder ← image.getD "subfolder" (.str "")
  let type ← image.getD "type" (.str "output")
  return ⟨filename, subfolder, type⟩

/-- One image of a node. -/
def fetchImage (outputs : List Output) (image : Json) : Fetching (List Output) := do
  let filename ← raising (handling (image.get "filename"))
  if !filename.truthy then
    return outputs
  let params ← raising (handling (viewParams filename image))
  let data ← raising (request (server.view params))
  match filename with
  | .str name =>
      let ext := extension host name
      let objectKey := assetKey hex outputs.length ext
      putObject put ⟨objectKey, data, imageMime ext⟩
      return outputs ++ [⟨objectKey, imageMime ext⟩]
  | _ => raising (.error (.handling "AttributeError"))

/-- The images of a node. -/
def nodeImages (node : Json) : Except PyError (List Json) := do
  let images ← node.get "images"
  (images.orElse (.arr [])).iter

/-- The images of a node, one after the other. -/
def fetchNode (outputs : List Output) (node : Json) : Fetching (List Output) := do
  let images ← raising (handling (nodeImages node))
  images.foldlM (fetchImage host server put hex) outputs

/-- The nodes of an entry. -/
def entryNodes (entry : Json) : Except PyError (List Json) := do
  let nodeOutputs ← entry.get "outputs"
  (nodeOutputs.orElse (.obj [])).values

/-- `_fetch_and_store_outputs`. -/
def fetchInto (entry : Json) : Fetching (List Output) := do
  let nodes ← raising (handling (entryNodes entry))
  nodes.foldlM (fetchNode host server put hex) []

/-- The status an entry of `/history` stands for. -/
def historyStatusInto (entry : Json) : Fetching ComfyStatus := do
  let statusInfo ← raising (handling (entry.get "status"))
  let statusStr ← raising (handling ((statusInfo.orElse (.obj [])).get "status_str"))
  if statusStr.isStr "error" then
    return { state := .failed, error := some "comfy_execution_error" }
  let outputs ← fetchInto host server put hex entry
  if outputs.isEmpty then
    return { state := .failed, error := some "comfy_no_output_image" }
  return { state := .succeeded, outputs := some outputs }

end Fetch

/-! ## What a fetch writes -/

/-- An image that was downloaded. -/
structure Found where
  params : ViewParams
  ext : String
  data : Bytes

/-- Under which key the `n`-th image is stored, and how it is recorded. -/
def Found.output (hex : Nat → String) (n : Nat) (f : Found) : Output :=
  ⟨assetKey hex n f.ext, imageMime f.ext⟩

/-- What is put into the storage for the `n`-th image. -/
def Found.put (hex : Nat → String) (n : Nat) (f : Found) : Put :=
  ⟨assetKey hex n f.ext, f.data, imageMime f.ext⟩

/-- Has the image a file name? -/
def isNamed (image : Json) : Bool :=
  match image.get "filename" with
  | .ok filename => filename.truthy
  | .error _ => false

/-- The images of a node, none if they cannot be read. -/
def imagesOf (node : Json) : List Json :=
  match nodeImages node with
  | .ok images => images
  | .error _ => []

/-- The images of an entry that have a file name, in their order. -/
def namedImages (entry : Json) : List Json :=
  match entryNodes entry with
  | .ok nodes => (nodes.flatMap imagesOf).filter isNamed
  | .error _ => []

/-- `f` is what ComfyUI has under the name of the image. -/
structure Downloads (host : Host) (server : ComfyServer) (image : Json) (f : Found) :
    Prop where
  named : ∃ name, image.get "filename" = .ok (.str name) ∧
    viewParams (.str name) image = .ok f.params ∧ f.ext = extension host name
  data : server.view f.params = .ok f.data

/-- The named images have been downloaded, put into the storage and recorded, in
their order. -/
def Fetched (host : Host) (server : ComfyServer) (hex : Nat → String)
    (images : List Json) (ws : List Put) (outputs : List Output) : Prop :=
  ∃ found, List.Forall₂ (Downloads host server) (images.filter isNamed) found ∧
    ws = found.mapIdx (Found.put hex) ∧ outputs = found.mapIdx (Found.output hex)

/-- The key is one that the poll makes. -/
def Drawn (hex : Nat → String) (w : Put) : Prop :=
  ∃ n ext, w.objectKey = assetKey hex n ext

section FetchWrites

variable {host : Host} {server : ComfyServer} {put : PutObject} {hex : Nat → String}
  {images : List Json} {ws : List Put} {outputs : List Output}

theorem fetched_nil : Fetched host server hex [] [] [] := ⟨[], .nil, rfl, rfl⟩

theorem Fetched.length (h : Fetched host server hex images ws outputs) :
    outputs.length = (images.filter isNamed).length := by
  obtain ⟨found, hfound, _, rfl⟩ := h
  rw [List.length_mapIdx, hfound.length_eq]

/-- An image without a name is passed over. -/
theorem Fetched.skip (h : Fetched host server hex images ws outputs) {image : Json}
    (himage : isNamed image = false) :
    Fetched host server hex (images ++ [image]) ws outputs := by
  obtain ⟨found, hfound, hws, houtputs⟩ := h
  refine ⟨found, ?_, hws, houtputs⟩
  rwa [List.filter_append, List.filter_cons_of_neg (by simp [himage]), List.filter_nil,
    List.append_nil]

/-- An image with a name is stored under the next key. -/
theorem Fetched.concat (h : Fetched host server hex images ws outputs) {image : Json}
    {f : Found} (himage : isNamed image = true) (hf : Downloads host server image f) :
    Fetched host server hex (images ++ [image]) (ws ++ [f.put hex outputs.length])
      (outputs ++ [f.output hex outputs.length]) := by
  have hlength := h.length
  obtain ⟨found, hfound, rfl, rfl⟩ := h
  refine ⟨found ++ [f], ?_, ?_, ?_⟩
  · rw [List.filter_append, List.filter_cons_of_pos himage, List.filter_nil]
    exact List.rel_append hfound (.cons hf .nil)
  · rw [hlength, hfound.length_eq, List.mapIdx_concat]
  · rw [hlength, hfound.length_eq, List.mapIdx_concat]

theorem putObject_writes {w : Put} (hw : Drawn hex w) :
    (putObject put w).Writes Put.into (Drawn hex) (fun ws _ => ws = [w]) := by
  unfold putObject
  refine (Raising.writes_raising _).bind (fun ws _ h => ?_)
  obtain ⟨rfl, _⟩ := h
  exact Raising.writes_change hw

theorem fetchImage_writes (h : Fetched host server hex images ws outputs)
    (image : Json) :
    (fetchImage host server put hex outputs image).Writes Put.into (Drawn hex)
      (fun vs outputs' => Fetched host server hex (images ++ [image]) (ws ++ vs)
        outputs') := by
  unfold fetchImage
  refine (Raising.writes_raising _).bind (fun vs filename hfilename => ?_)
  obtain ⟨rfl, hget⟩ := hfilename
  replace hget : image.get "filename" = .ok filename := handling_eq_ok.mp hget
  have hnamed : isNamed image = filename.truthy := by
    unfold isNamed
    rw [hget]
  cases htruthy : filename.truthy with
  | false =>
      rw [if_pos Bool.not_false]
      refine (Raising.writes_pure outputs).mono (fun vs outputs' hvs => ?_)
      obtain ⟨rfl, rfl⟩ := hvs
      simpa using h.skip (hnamed.trans htruthy)
  | true =>
      rw [if_neg (by simp)]
      refine (Raising.writes_raising _).bind (fun vs params hparams => ?_)
      obtain ⟨rfl, hparams⟩ := hparams
      refine (Raising.writes_raising _).bind (fun vs data hdata => ?_)
      obtain ⟨rfl, hdata⟩ := hdata
      cases filename with
      | str name =>
          let f : Found := ⟨params, extension host name, data⟩
          have hf : Downloads host server image f :=
            ⟨⟨name, hget, handling_eq_ok.mp hparams, rfl⟩, request_eq_ok.mp hdata⟩
          have hdrawn : Drawn hex (f.put hex outputs.length) := ⟨outputs.length, f.ext, rfl⟩
          refine Raising.Writes.bind (putObject_writes hdrawn) (fun vs _ hvs => ?_)
          subst hvs
          refine (Raising.writes_pure _).mono (fun us outputs' hus => ?_)
          obtain ⟨rfl, rfl⟩ := hus
          have hconcat := h.concat (hnamed.trans htruthy) hf
          simpa [f, Found.output, Found.put] using hconcat
      | null | bool _ | int _ | float _ | arr _ | obj _ =>
          refine (Raising.writes_raising _).mono (fun us outputs' hus => ?_)
          obtain ⟨_, hraise⟩ := hus
          cases hraise

theorem fetchNode_writes (h : Fetched host server hex images ws outputs) (node : Json) :
    (fetchNode host server put hex outputs node).Writes Put.into (Drawn hex)
      (fun vs outputs' => Fetched host server hex (images ++ imagesOf node) (ws ++ vs)
        outputs') := by
  unfold fetchNode
  refine (Raising.writes_raising _).bind (fun vs items hitems => ?_)
  obtain ⟨rfl, hitems⟩ := hitems
  have himages : imagesOf node = items := by
    unfold imagesOf
    rw [handling_eq_ok.mp hitems]
  rw [himages]
  refine (Raising.Writes.foldlM
    (I := fun past vs outputs' => Fetched host server hex (images ++ past) vs outputs')
    (fun past vs outputs' image hpast => ?_) items [] ws outputs ?_).mono ?_
  · simpa using fetchImage_writes hpast image
  · simpa using h
  · intro vs outputs' hvs
    simpa using hvs

/-- What a fetch puts into the storage, and what it answers: the named images in their
order. -/
theorem fetchInto_writes (entry : Json) :
    (fetchInto host server put hex entry).Writes Put.into (Drawn hex)
      (fun ws outputs => ∃ found,
        List.Forall₂ (Downloads host server) (namedImages entry) found ∧
        ws = found.mapIdx (Found.put hex) ∧
        outputs = found.mapIdx (Found.output hex)) := by
  unfold fetchInto
  refine (Raising.writes_raising _).bind (fun vs nodes hnodes => ?_)
  obtain ⟨rfl, hnodes⟩ := hnodes
  have hnamed : namedImages entry = (nodes.flatMap imagesOf).filter isNamed := by
    unfold namedImages
    rw [handling_eq_ok.mp hnodes]
  rw [hnamed]
  refine (Raising.Writes.foldlM
    (I := fun past vs outputs' => Fetched host server hex (past.flatMap imagesOf) vs
      outputs')
    (fun past vs outputs' node hpast => ?_) nodes [] [] [] ?_).mono ?_
  · simpa using fetchNode_writes hpast node
  · exact fetched_nil
  · intro vs outputs' hvs
    simpa [Fetched] using hvs

end FetchWrites

/-! ## The same client -/

/-- What `/view` answers for an image of an entry. -/
def ComfyServer.viewImage (server : ComfyServer) (image : Json) : Except PyError Bytes := do
  let filename ← image.get "filename"
  server.view (← viewParams filename image)

/-- The answers of a server during a poll, by their number. -/
def ComfyServer.answers (server : ComfyServer) (entry : Json) : ComfyAnswers where
  history := server.history
  queue := server.queue
  view n := (namedImages entry)[n]?.elim (.error "IndexError") server.viewImage

section Same

variable {host : Host} {server : ComfyServer} {put : PutObject} {hex : Nat → String}
  {answers : ComfyAnswers} {outputs : List Output}

/-- Only a dict has a `get`, and it has one for every key. -/
theorem viewParams_of_get {image filename : Json}
    (h : image.get "filename" = .ok filename) :
    ∃ params, viewParams filename image = .ok params := by
  cases image with
  | obj members => exact ⟨_, rfl⟩
  | null | bool _ | int _ | float _ | str _ | arr _ => cases h

/-- The next image with a name is the one that comes next. -/
theorem getElem?_filter_split {α : Type} {p : α → Bool} {a : α} (before after : List α)
    (ha : p a = true) :
    ((before ++ a :: after).filter p)[(before.filter p).length]? = some a := by
  rw [List.filter_append, List.filter_cons_of_pos ha,
    List.getElem?_append_right (Nat.le_refl _), Nat.sub_self]
  rfl

theorem putObject_gives (w : Put) : Raising.Gives (putObject put w)
    (handling (put w.objectKey w.data w.mimeType)) := by
  intro objects
  unfold putObject
  rw [Raising.exec_bind]
  cases put w.objectKey w.data w.mimeType <;> rfl

/-- Both clients do the same with an image. -/
theorem fetchImage_gives (put : PutObject) (hex : Nat → String) {image : Json}
    (hview : isNamed image = true → answers.view outputs.length =
      server.viewImage image) :
    Raising.Gives (fetchImage host server put hex outputs image)
        (storeImage host answers put hex outputs image) ∧
      ∀ outputs', storeImage host answers put hex outputs image = .ok outputs' →
        outputs'.length = outputs.length + [image].countP isNamed := by
  unfold fetchImage storeImage
  cases hget : image.get "filename" with
  | error exc => exact ⟨fun _ => rfl, fun _ h => by cases h⟩
  | ok filename =>
      obtain ⟨params, hparams⟩ := viewParams_of_get hget
      have hnamed : isNamed image = filename.truthy := by
        unfold isNamed
        rw [hget]
      rw [List.countP_singleton, hnamed]
      cases htruthy : filename.truthy with
      | false =>
          constructor
          · refine (Raising.gives_raising _).bind (fun f hf => ?_)
            cases hf
            rw [htruthy, if_pos Bool.not_false, if_pos Bool.not_false]
            exact Raising.gives_pure outputs
          · intro outputs' h
            obtain ⟨_, hf, h⟩ := bind_eq_ok.mp h
            cases hf
            rw [htruthy, if_pos Bool.not_false] at h
            cases h
            simp
      | true =>
          have hserver : server.viewImage image = server.view params := by
            unfold ComfyServer.viewImage
            rw [hget]
            show (viewParams filename image >>= server.view) = _
            rw [hparams]
            rfl
          rw [hview (hnamed.trans htruthy), hserver]
          constructor
          · refine (Raising.gives_raising _).bind (fun f hf => ?_)
            cases hf
            rw [htruthy, if_neg (by simp), if_neg (by simp), hparams]
            refine (Raising.gives_raising _).bind_ok ?_
            refine (Raising.gives_raising _).bind (fun data _ => ?_)
            cases filename with
            | str name =>
                exact (putObject_gives _).bind (fun _ _ => Raising.gives_pure _)
            | null | bool _ | int _ | float _ | arr _ | obj _ =>
                exact Raising.gives_raising _
          · intro outputs' h
            obtain ⟨_, hf, h⟩ := bind_eq_ok.mp h
            cases hf
            rw [htruthy, if_neg (by simp)] at h
            obtain ⟨data, _, h⟩ := bind_eq_ok.mp h
            cases filename with
            | str name =>
                obtain ⟨_, _, h⟩ := bind_eq_ok.mp h
                cases h
                simp
            | null | bool _ | int _ | float _ | arr _ | obj _ => cases h

/-- Both clients do the same with a node; `before` are the nodes that came before. -/
theorem fetchNode_gives {before : List Json} {node : Json} {after : List Json}
    (hview : ∀ n image,
      (((before ++ node :: after).flatMap imagesOf).filter isNamed)[n]? = some image →
      answers.view n = server.viewImage image)
    (hlength : outputs.length = (before.flatMap imagesOf).countP isNamed) :
    Raising.Gives (fetchNode host server put hex outputs node)
        (storeNode host answers put hex outputs node) ∧
      ∀ outputs', storeNode host answers put hex outputs node = .ok outputs' →
        outputs'.length = ((before ++ [node]).flatMap imagesOf).countP isNamed := by
  have hnode : storeNode host answers put hex outputs node =
      (handling (nodeImages node) >>= fun images =>
        images.foldlM (storeImage host answers put hex) outputs) := by
    unfold storeNode nodeImages
    cases node.get "images" <;> rfl
  rw [hnode]
  unfold fetchNode
  cases hnodes : nodeImages node with
  | error exc => exact ⟨fun _ => rfl, fun _ h => by cases h⟩
  | ok images =>
      have himages : imagesOf node = images := by
        unfold imagesOf
        rw [hnodes]
      obtain ⟨hgives, hnext⟩ := Raising.Gives.foldlM
        (f := fetchImage host server put hex) (g := storeImage host answers put hex)
        (I := fun past outputs => outputs.length =
          (before.flatMap imagesOf ++ past).countP isNamed)
        images [] outputs (by simpa using hlength)
        (fun past outputs image rest hsplit hpast => by
          have himage : isNamed image = true →
              answers.view outputs.length = server.viewImage image := by
            intro hnamed
            refine hview outputs.length image ?_
            have hall : (before ++ node :: after).flatMap imagesOf =
                (before.flatMap imagesOf ++ past) ++
                  image :: (rest ++ after.flatMap imagesOf) := by
              rw [List.flatMap_append, List.flatMap_cons, himages]
              simp only [List.nil_append] at hsplit
              rw [hsplit]
              simp
            rw [hall, hpast, List.countP_eq_length_filter]
            exact getElem?_filter_split _ _ hnamed
          obtain ⟨hgives, hlen⟩ := fetchImage_gives put hex himage
          refine ⟨hgives, fun outputs' h => ?_⟩
          rw [hlen outputs' h, hpast, ← List.append_assoc]
          exact List.countP_append.symm)
      refine ⟨(Raising.gives_raising _).bind (fun items hitems => ?_), fun outputs' h => ?_⟩
      · cases hitems
        exact hgives
      · have hfinal := hnext outputs' h
        rw [List.nil_append] at hfinal
        rw [hfinal, List.flatMap_append, List.flatMap_singleton, himages]

/-- **The same client.**  What a fetch answers does not depend on what the storage
holds: it is what `Imagin4.Ports.ComfyLive` says, for the answers of this server. -/
theorem fetchInto_gives (entry : Json) :
    Raising.Gives (fetchInto host server put hex entry)
      (fetchAndStoreOutputs host (server.answers entry) put hex entry) := by
  have hentry : fetchAndStoreOutputs host (server.answers entry) put hex entry =
      (handling (entryNodes entry) >>= fun nodes =>
        nodes.foldlM (storeNode host (server.answers entry) put hex) []) := by
    unfold fetchAndStoreOutputs entryNodes
    cases entry.get "outputs" <;> rfl
  rw [hentry]
  unfold fetchInto
  cases hnodes : entryNodes entry with
  | error exc => exact fun _ => rfl
  | ok nodes =>
      have hnamed : namedImages entry = (nodes.flatMap imagesOf).filter isNamed := by
        unfold namedImages
        rw [hnodes]
      refine (Raising.gives_raising _).bind (fun items hitems => ?_)
      cases hitems
      refine (Raising.Gives.foldlM
        (I := fun past outputs => outputs.length = (past.flatMap imagesOf).countP isNamed)
        nodes [] [] rfl (fun past outputs node rest hsplit hpast => ?_)).1
      have hview : ∀ n image,
          (((past ++ node :: rest).flatMap imagesOf).filter isNamed)[n]? = some image →
          (server.answers entry).view n = server.viewImage image := by
        intro n image himage
        rw [List.nil_append] at hsplit
        rw [← hsplit, ← hnamed] at himage
        unfold ComfyServer.answers
        dsimp only
        rw [himage]
        rfl
      exact fetchNode_gives hview hpast

theorem historyStatusInto_gives (entry : Json) :
    Raising.Gives (historyStatusInto host server put hex entry)
      (historyStatus host (server.answers entry) put hex entry) := by
  unfold historyStatusInto historyStatus
  refine (Raising.gives_raising _).bind (fun statusInfo _ => ?_)
  refine (Raising.gives_raising _).bind (fun statusStr _ => ?_)
  split
  · exact Raising.gives_pure _
  · refine (fetchInto_gives entry).bind (fun outputs _ => ?_)
    split
    · exact Raising.gives_pure _
    · exact Raising.gives_pure _

end Same

/-! ## Polling -/

section Poll

variable (host : Host) (server : ComfyServer) (put : PutObject) (hex : Nat → String)
  (promptId : String)

/-- The entry of a prompt in `/history`. -/
def ComfyServer.entry : Json :=
  match server.history >>= fun history => history.item promptId with
  | .ok entry => entry
  | .error _ => .null

/-- The answers of a server to the poll of a prompt. -/
def ComfyServer.answersTo : ComfyAnswers := server.answers (server.entry promptId)

/-- The `try` block of `get_status`. -/
def pollInto : Fetching ComfyStatus := do
  let history ← raising (request server.history)
  let finished ← raising (handling (history.contains promptId))
  if finished then
    let entry ← raising (handling (history.item promptId))
    historyStatusInto host server put hex entry
  else raising (queueStatus (server.answersTo promptId) promptId)

/-- `get_status`, with the storage. -/
def LiveComfyUIClient.getStatusInto (c : LiveComfyUIClient) (objects : Objects) :
    (ComfyStatus × LiveComfyUIClient) × Objects :=
  match localFailReason promptId with
  | some reason => ((failedStatus (orDefault reason "local_failure"), c), objects)
  | none =>
      match c.resolved.get promptId with
      | some status => ((status, c), objects)
      | none =>
          match (pollInto host server put hex promptId).exec objects with
          | (.ok status, objects) =>
              if status.state.ended then
                ((status, { c with resolved := c.resolved.set promptId status }), objects)
              else ((status, c), objects)
          | (.error _, objects) => (({ state := .running }, c), objects)

end Poll

section Polls

variable {host : Host} {server : ComfyServer} {put : PutObject} {hex : Nat → String}
  {promptId : String}

theorem pollInto_gives :
    Raising.Gives (pollInto host server put hex promptId)
      (poll host (server.answersTo promptId) put hex promptId) := by
  unfold pollInto poll
  refine (Raising.gives_raising (request server.history)).bind (fun history hhistory => ?_)
  refine (Raising.gives_raising _).bind (fun finished _ => ?_)
  split
  · refine (Raising.gives_raising _).bind (fun entry hentry => ?_)
    have heq : server.entry promptId = entry := by
      unfold ComfyServer.entry
      rw [request_eq_ok.mp hhistory]
      show (match history.item promptId with
        | .ok entry => entry
        | .error _ => .null) = entry
      rw [handling_eq_ok.mp hentry]
    unfold ComfyServer.answersTo
    rw [heq]
    exact historyStatusInto_gives entry
  · exact Raising.gives_raising _

/-- The client is that of `Imagin4.Ports.ComfyLive`: what it answers and what it keeps
does not depend on what the storage holds. -/
theorem getStatusInto_fst (c : LiveComfyUIClient) (objects : Objects) :
    (c.getStatusInto host server put hex promptId objects).1 =
      c.getStatus host (server.answersTo promptId) put hex promptId := by
  unfold LiveComfyUIClient.getStatusInto LiveComfyUIClient.getStatus
  cases localFailReason promptId with
  | some reason => rfl
  | none =>
      cases c.resolved.get promptId with
      | some status => rfl
      | none =>
          dsimp only
          rw [← pollInto_gives objects]
          cases hexec : (pollInto host server put hex promptId).exec objects with
          | mk r objects' =>
              cases r with
              | error e => rfl
              | ok status =>
                  dsimp only
                  split <;> rfl

/-- The outputs are the images with a name of a history entry, in their order. -/
def Records (host : Host) (server : ComfyServer) (hex : Nat → String) (entry : Json)
    (found : List Found) (outputs : List Output) : Prop :=
  List.Forall₂ (Downloads host server) (namedImages entry) found ∧
    outputs = found.mapIdx (Found.output hex)

/-- What a poll puts into the storage; where it reports success, the outputs are the
images of the entry. -/
theorem pollInto_writes :
    (pollInto host server put hex promptId).Writes Put.into (Drawn hex)
      (fun ws status => ∀ outputs, status.outputs = some outputs → ∃ found,
        Records host server hex (server.entry promptId) found outputs ∧
        ws = found.mapIdx (Found.put hex)) := by
  unfold pollInto
  refine (Raising.writes_raising _).bind (fun ws history hhistory => ?_)
  obtain ⟨rfl, hhistory⟩ := hhistory
  refine (Raising.writes_raising _).bind (fun ws finished hfinished => ?_)
  obtain ⟨rfl, -⟩ := hfinished
  split
  · refine (Raising.writes_raising _).bind (fun ws entry hentry => ?_)
    obtain ⟨rfl, hentry⟩ := hentry
    have heq : server.entry promptId = entry := by
      unfold ComfyServer.entry
      rw [request_eq_ok.mp hhistory]
      show (match history.item promptId with
        | .ok entry => entry
        | .error _ => .null) = entry
      rw [handling_eq_ok.mp hentry]
    rw [heq]
    unfold historyStatusInto
    refine (Raising.writes_raising _).bind (fun ws _ h => ?_)
    obtain ⟨rfl, -⟩ := h
    refine (Raising.writes_raising _).bind (fun ws _ h => ?_)
    obtain ⟨rfl, -⟩ := h
    split
    · refine (Raising.writes_pure _).mono (fun ws status h outputs houtputs => ?_)
      obtain ⟨rfl, rfl⟩ := h
      cases houtputs
    · refine (fetchInto_writes entry).bind (fun ws outputs h => ?_)
      split
      · refine (Raising.writes_pure _).mono (fun vs status hvs outputs houtputs => ?_)
        obtain ⟨rfl, rfl⟩ := hvs
        cases houtputs
      · refine (Raising.writes_pure _).mono (fun vs status hvs outputs' houtputs => ?_)
        obtain ⟨rfl, rfl⟩ := hvs
        cases houtputs
        obtain ⟨found, hfound, hws, houtputs⟩ := h
        exact ⟨found, ⟨hfound, houtputs⟩, by simpa using hws⟩
  · refine (Raising.writes_raising _).mono (fun ws status h outputs houtputs => ?_)
    obtain ⟨rfl, hstatus⟩ := h
    unfold queueStatus at hstatus
    obtain ⟨_, _, hstatus⟩ := bind_eq_ok.mp hstatus
    obtain ⟨_, _, hstatus⟩ := bind_eq_ok.mp hstatus
    split at hstatus
    · cases hstatus
      cases houtputs
    · cases hstatus
      cases houtputs

end Polls

/-! ## The storage after writes -/

section Storage

variable {hex hex' : Nat → String} {objects : Objects} {ws : List Put} {key : String}

theorem into_self (objects : Objects) (w : Put) :
    w.into objects w.objectKey = some (w.data, w.mimeType) :=
  Function.update_self _ _ _

theorem into_of_ne {w : Put} (h : w.objectKey ≠ key) : w.into objects key = objects key :=
  Function.update_of_ne (Ne.symm h) _ _

/-- What no write is about is left. -/
theorem foldl_into_of_ne (h : ∀ w ∈ ws, w.objectKey ≠ key) :
    ws.foldl Put.into objects key = objects key := by
  induction ws generalizing objects with
  | nil => rfl
  | cons w ws ih =>
      rw [List.foldl_cons, ih (fun v hv => h v (List.mem_cons_of_mem w hv))]
      exact into_of_ne (h w List.mem_cons_self)

/-- Random names of 32 characters, such as `uuid4().hex`; the first `count` of them do
not repeat. -/
structure Draws where
  hex : Nat → String
  count : Nat
  length : ∀ n, (hex n).length = 32
  distinct : ∀ n m, n < m → m < count → hex n ≠ hex m

/-- Keys are told apart by their random names. -/
theorem hex_of_assetKey {n m : Nat} {ext ext' : String}
    (hlength : (hex n).length = (hex' m).length)
    (h : assetKey hex n ext = assetKey hex' m ext') : hex n = hex' m := by
  unfold assetKey at h
  have hlist := congrArg String.toList h
  simp only [String.toList_append, List.append_assoc, List.append_cancel_left_eq] at hlist
  apply String.toList_inj.mp
  refine (List.append_inj hlist ?_).1
  rw [String.length_toList, String.length_toList]
  exact hlength

/-- After the writes of a fetch, every image is there. -/
theorem foldl_into_found (draws : Draws) (found : List Found)
    (hcount : found.length ≤ draws.count) {n : Nat} {f : Found}
    (hf : found[n]? = some f) :
    (found.mapIdx (Found.put draws.hex)).foldl Put.into objects
        (assetKey draws.hex n f.ext) =
      some (f.data, imageMime f.ext) := by
  induction found using List.reverseRecOn with
  | nil => cases hf
  | append_singleton found g ih =>
      rw [List.length_append, List.length_singleton] at hcount
      rw [List.mapIdx_concat, List.foldl_append]
      show (g.put draws.hex found.length).into _ _ = _
      rw [List.getElem?_append] at hf
      split at hf
      · rename_i hlt
        rw [into_of_ne]
        · exact ih (by omega) hf
        · intro hkey
          have hhex := hex_of_assetKey
            ((draws.length found.length).trans (draws.length n).symm) hkey
          exact draws.distinct n found.length hlt (by omega) hhex.symm
      · rename_i hge
        rw [List.getElem?_singleton] at hf
        split at hf
        · rename_i hzero
          cases hf
          obtain rfl : n = found.length := by omega
          exact into_self _ _
        · cases hf

end Storage

end Imagin4.Ports
