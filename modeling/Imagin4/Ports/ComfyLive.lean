import Imagin4.Verified.Outcome
import Imagin4.Verified.Table
import Imagin4.Ports.Python
import Imagin4.Ports.Reconciler

/-!
# The live ComfyUI client

`LiveComfyUIClient` of `app/adapters/comfyui/live.py`: `submit`, `get_status`
and `_fetch_and_store_outputs`.  The answers of a worker's HTTP endpoints, the
object storage and the random names are arguments; a request answers with its
decoded body or with the exception of the transport, of `raise_for_status` or
of the decoding.  The graph builder is an argument too: its result goes to the
worker and nowhere else.

`poll` is the `try` block of `get_status`.  It says which exceptions come from
a request, and which from reading an answer or storing an image; the `except`
clause does not look at the difference.

## Main results

* `poll_running_iff` — `poll` answers `running` exactly when `/queue` was asked
  and lists the prompt.
* `getStatus_running` — `get_status` answers it also after every exception.
-/

namespace Imagin4.Ports

open Imagin4.Verified

/-! ## Answers -/

/-- What the endpoints of one worker answer during one poll; `view n` is the
answer to the `n`-th `/view` request. -/
structure ComfyAnswers where
  history : Except PyError Json
  queue : Except PyError Json
  view : Nat → Except PyError Bytes

/-- `ObjectStorage.put_object` of a key, the data and a mime type. -/
abbrev PutObject := String → Bytes → String → Except PyError Unit

/-- Where an exception of a poll comes from. -/
inductive PollError where
  | request (exc : PyError)
  | handling (exc : PyError)

/-- Reading an answer, or storing an image. -/
def handling {α : Type} (x : Except PyError α) : Except PollError α :=
  x.mapError .handling

/-- Waiting for an answer. -/
def request {α : Type} (x : Except PyError α) : Except PollError α :=
  x.mapError .request

/-! ## Outputs -/

/-- `(filename.rsplit(".", 1)[-1] or "png").lower()`. -/
def extension (host : Host) (filename : String) : String :=
  host.lower (orDefault (lastPart '.' filename) "png")

/-- The mime type of a file with this extension. -/
def imageMime (ext : String) : String :=
  "image/" ++ if ext = "jpg" then "jpeg" else ext

section Outputs

variable (host : Host) (answers : ComfyAnswers) (put : PutObject)
  (hex : Nat → String)

/-- One image of a node: an image without a file name is passed over. -/
def storeImage (outputs : List Output) (image : Json) :
    Except PollError (List Output) := do
  let filename ← handling (image.get "filename")
  if !filename.truthy then
    return outputs
  let data ← request (answers.view outputs.length)
  match filename with
  | .str name =>
      let ext := extension host name
      let objectKey := "generated/" ++ hex outputs.length ++ "." ++ ext
      let _ ← handling (put objectKey data (imageMime ext))
      return outputs ++ [⟨objectKey, imageMime ext⟩]
  | _ => .error (.handling "AttributeError")

/-- The images of a node. -/
def storeNode (outputs : List Output) (node : Json) :
    Except PollError (List Output) := do
  let images ← handling (node.get "images")
  let images ← handling (images.orElse (.arr [])).iter
  images.foldlM (storeImage host answers put hex) outputs

/-- `_fetch_and_store_outputs`. -/
def fetchAndStoreOutputs (entry : Json) : Except PollError (List Output) := do
  let nodeOutputs ← handling (entry.get "outputs")
  let nodes ← handling (nodeOutputs.orElse (.obj [])).values
  nodes.foldlM (storeNode host answers put hex) []

/-! ## Polls -/

/-- `all_queued_ids`. -/
def queuedIds (queue : Json) : Except PyError (List Json) := do
  let running ← queue.get "queue_running"
  let pending ← queue.get "queue_pending"
  let all ← (running.orElse (.arr [])).concat (pending.orElse (.arr []))
  let entries ← all.iter
  let ids ← entries.mapM Json.second
  if ids.all Json.hashable then return ids else .error "TypeError"

/-- The status an entry of `/history` stands for. -/
def historyStatus (entry : Json) : Except PollError ComfyStatus := do
  let statusInfo ← handling (entry.get "status")
  let statusStr ← handling ((statusInfo.orElse (.obj [])).get "status_str")
  if statusStr.isStr "error" then
    return { state := .failed, error := some "comfy_execution_error" }
  let outputs ← fetchAndStoreOutputs host answers put hex entry
  if outputs.isEmpty then
    return { state := .failed, error := some "comfy_no_output_image" }
  return { state := .succeeded, outputs := some outputs }

/-- The status a prompt that is not in `/history` has. -/
def queueStatus (promptId : String) : Except PollError ComfyStatus := do
  let queue ← request answers.queue
  let ids ← handling (queuedIds queue)
  if ids.any (Json.isStr promptId) then
    return { state := .running }
  return { state := .unknown }

/-- The `try` block of `get_status`. -/
def poll (promptId : String) : Except PollError ComfyStatus := do
  let history ← request answers.history
  let finished ← handling (history.contains promptId)
  if finished then
    let entry ← handling (history.item promptId)
    historyStatus host answers put hex entry
  else queueStatus answers promptId

end Outputs

/-! ## The client -/

/-- Statuses by prompt id: a dict of `ComfyStatus` objects. -/
abbrev StatusCache := Table (fun e : String × ComfyStatus => e.1)

namespace StatusCache

/-- `cache.get(promptId)`. -/
def get (cache : StatusCache) (promptId : String) : Option ComfyStatus :=
  (cache.find? promptId).map Prod.snd

/-- `cache[promptId] = status`. -/
def set (cache : StatusCache) (promptId : String) (status : ComfyStatus) :
    StatusCache := cache.put (promptId, status)

theorem get_set (cache : StatusCache) (p q : String) (status : ComfyStatus) :
    (cache.set p status).get q = if q = p then some status else cache.get q := by
  unfold get set
  rw [Table.find?_put]
  split <;> rfl

end StatusCache

/-- `LiveComfyUIClient`: its worker, and what it keeps between calls. -/
structure LiveComfyUIClient where
  baseUrl : String
  resolved : StatusCache

/-- `_LOCAL_FAIL_PREFIX`. -/
def localFailPrefix : String := "localfail:"

/-- The reason a prompt id minted for a failed submission carries. -/
def localFailReason (promptId : String) : Option String :=
  if localFailPrefix.toList.isPrefixOf promptId.toList then
    let rest := String.ofList (promptId.toList.drop localFailPrefix.length)
    some ((partition ':' rest).2.getD "")
  else none

/-- The reason of an id that has the prefix. -/
theorem localFailReason_append (rest : String) :
    localFailReason (localFailPrefix ++ rest) =
      some ((partition ':' rest).2.getD "") := by
  have hprefix : localFailPrefix.toList.isPrefixOf
      (localFailPrefix.toList ++ rest.toList) = true :=
    List.isPrefixOf_iff_prefix.mpr (List.prefix_append _ _)
  have hdrop : (localFailPrefix.toList ++ rest.toList).drop
      localFailPrefix.length = rest.toList :=
    List.drop_left' String.length_toList
  unfold localFailReason
  rw [String.toList_append, if_pos hprefix, hdrop, String.ofList_toList]

/-- A failed status. -/
def failedStatus (error : String) : ComfyStatus :=
  { state := .failed, error := some error }

/-- `str(workflow_payload.get("prompt") or "").strip()`. -/
def basePrompt (host : Host) (payload : List (String × Json)) : String :=
  let prompt := (Json.lookup "prompt" payload).getD .null
  strip ((prompt.orElse (.str "")).text host.repr)

/-- Is the outcome of the prompt settled? -/
def ComfyState.ended : ComfyState → Bool
  | .succeeded | .failed => true
  | _ => false

namespace LiveComfyUIClient

/-- A new client. -/
def new (baseUrl : String) : LiveComfyUIClient := ⟨baseUrl, Table.empty⟩

/-- `get_status`.  Every exception of the poll is taken for a job that is
still running. -/
def getStatus (host : Host) (answers : ComfyAnswers) (put : PutObject)
    (hex : Nat → String) (promptId : String) (c : LiveComfyUIClient) :
    ComfyStatus × LiveComfyUIClient :=
  match localFailReason promptId with
  | some reason => (failedStatus (orDefault reason "local_failure"), c)
  | none =>
      match c.resolved.get promptId with
      | some status => (status, c)
      | none =>
          match poll host answers put hex promptId with
          | .ok status =>
              if status.state.ended then
                (status, { c with resolved := c.resolved.set promptId status })
              else (status, c)
          | .error _ => ({ state := .running }, c)

/-- The id minted for a submission that failed before ComfyUI had it. -/
def failLocally (hex reason : String) (c : LiveComfyUIClient) :
    String × LiveComfyUIClient :=
  let promptId := localFailPrefix ++ hex ++ ":" ++ reason
  (promptId,
    { c with resolved := c.resolved.set promptId (failedStatus reason) })

/-- `submit`.  `graph` is `_build_prompt_graph` of the payload, `post` the
answer to `POST /prompt`, and `hex` the random part of a local prompt id. -/
def submit (host : Host) (graph : Except PyError Json)
    (post : Json → Except PyError Json) (hex : String)
    (payload : List (String × Json)) (c : LiveComfyUIClient) :
    Except PyError (String × LiveComfyUIClient) := do
  let graph ← graph
  if basePrompt host payload = "" then
    return c.failLocally hex "empty_prompt"
  match (do (← post graph).item "prompt_id") with
  | .ok promptId => return (promptId.text host.repr, c)
  | .error exc => return c.failLocally hex ("comfy_live_error:" ++ exc)

/-! No call moves a client to another worker. -/

theorem baseUrl_submit {host : Host} {graph : Except PyError Json}
    {post : Json → Except PyError Json} {hex : String}
    {payload : List (String × Json)} {c : LiveComfyUIClient}
    {r : String × LiveComfyUIClient} (h : c.submit host graph post hex payload = .ok r) :
    r.2.baseUrl = c.baseUrl := by
  unfold submit at h
  obtain ⟨graph, _, h⟩ := bind_eq_ok.mp h
  split at h
  · cases h
    rfl
  · split at h
    · cases h
      rfl
    · cases h
      rfl

theorem baseUrl_getStatus {host : Host} {answers : ComfyAnswers} {put : PutObject}
    {hex : Nat → String} {promptId : String} {c : LiveComfyUIClient} :
    (c.getStatus host answers put hex promptId).2.baseUrl = c.baseUrl := by
  unfold getStatus
  split
  · rfl
  · split
    · rfl
    · split
      · split <;> rfl
      · rfl

end LiveComfyUIClient

/-! ## What a poll can answer -/

theorem handling_eq_ok {α : Type} {x : Except PyError α} {v : α} :
    handling x = .ok v ↔ x = .ok v := mapError_eq_ok

theorem request_eq_ok {α : Type} {x : Except PyError α} {v : α} :
    request x = .ok v ↔ x = .ok v := mapError_eq_ok

section Poll

variable {host : Host} {answers : ComfyAnswers} {put : PutObject}
  {hex : Nat → String} {promptId : String} {status : ComfyStatus}

/-- An entry of `/history` has ended. -/
theorem historyStatus_ended {entry : Json}
    (h : historyStatus host answers put hex entry = .ok status) :
    status.state.ended = true := by
  unfold historyStatus at h
  obtain ⟨statusInfo, _, h⟩ := bind_eq_ok.mp h
  obtain ⟨statusStr, _, h⟩ := bind_eq_ok.mp h
  split at h
  · cases h
    rfl
  · obtain ⟨outputs, _, h⟩ := bind_eq_ok.mp h
    split at h
    · cases h
      rfl
    · cases h
      rfl

/-- Does an answer to `/queue` list the prompt? -/
def listsPrompt (promptId : String) (queue : Json) : Bool :=
  match queuedIds queue with
  | .ok ids => ids.any (Json.isStr promptId)
  | .error _ => false

/-- Does `/queue` answer, and list the prompt? -/
def queueAnswerLists (answers : ComfyAnswers) (promptId : String) : Bool :=
  match answers.queue with
  | .ok queue => listsPrompt promptId queue
  | .error _ => false

/-- Was `/queue` asked, and does its answer list the prompt? -/
def queueLists (answers : ComfyAnswers) (promptId : String) : Bool :=
  match answers.history with
  | .ok history =>
      match history.contains promptId with
      | .ok false => queueAnswerLists answers promptId
      | _ => false
  | .error _ => false

theorem queueStatus_running_iff :
    queueStatus answers promptId = .ok { state := .running } ↔
      queueAnswerLists answers promptId = true := by
  unfold queueStatus queueAnswerLists
  cases answers.queue with
  | error e => simp [request, bind, Except.bind]
  | ok queue =>
      unfold listsPrompt
      cases hids : queuedIds queue with
      | error e =>
          simp [request, handling, bind, Except.bind, hids]
      | ok ids =>
          cases hany : ids.any (Json.isStr promptId) with
          | false =>
              simp [request, handling, bind, Except.bind, hids,
                hany, pure, Except.pure]
          | true =>
              simp [request, handling, bind, Except.bind, hids,
                hany, pure, Except.pure]

/-- A poll answers `running` exactly when `/queue` was asked and lists the
prompt. -/
theorem poll_running_iff :
    poll host answers put hex promptId = .ok { state := .running } ↔
      queueLists answers promptId = true := by
  unfold queueLists
  cases hhistory : answers.history with
  | error e => simp [poll, request, hhistory, bind, Except.bind]
  | ok history =>
      have hpoll : poll host answers put hex promptId =
          (handling (history.contains promptId) >>= fun finished =>
            if finished then
              handling (history.item promptId) >>=
                historyStatus host answers put hex
            else queueStatus answers promptId) := by
        unfold poll
        rw [hhistory]
        rfl
      rw [hpoll]
      dsimp only
      cases hfinished : history.contains promptId with
      | error e => simp [handling, bind, Except.bind]
      | ok finished =>
          cases finished with
          | true =>
              refine iff_of_false (fun h => ?_) Bool.false_ne_true
              obtain ⟨_, hfound, h⟩ := bind_eq_ok.mp h
              cases handling_eq_ok.mp hfound
              obtain ⟨entry, _, h⟩ := bind_eq_ok.mp h
              have hended := historyStatus_ended h
              cases hended
          | false =>
              show queueStatus answers promptId = _ ↔ _
              exact queueStatus_running_iff

theorem queueStatus_cases
    (h : queueStatus answers promptId = .ok status) :
    status = { state := .running } ∨ status = { state := .unknown } := by
  unfold queueStatus at h
  obtain ⟨queue, _, h⟩ := bind_eq_ok.mp h
  obtain ⟨ids, _, h⟩ := bind_eq_ok.mp h
  split at h
  · cases h
    exact Or.inl rfl
  · cases h
    exact Or.inr rfl

/-- What a poll can answer. -/
theorem poll_cases (h : poll host answers put hex promptId = .ok status) :
    status.state.ended = true ∨ status = { state := .running } ∨
      status = { state := .unknown } := by
  unfold poll at h
  obtain ⟨history, _, h⟩ := bind_eq_ok.mp h
  obtain ⟨finished, _, h⟩ := bind_eq_ok.mp h
  split at h
  · obtain ⟨entry, _, h⟩ := bind_eq_ok.mp h
    exact Or.inl (historyStatus_ended h)
  · exact Or.inr (queueStatus_cases h)

/-! ## The cache -/

/-- Only settled outcomes are cached. -/
def LiveComfyUIClient.Ended (c : LiveComfyUIClient) : Prop :=
  ∀ p status, c.resolved.get p = some status → status.state.ended = true

theorem ended_new (baseUrl : String) :
    (LiveComfyUIClient.new baseUrl).Ended := by
  intro p status h
  cases h

/-- A status that has ended may be cached. -/
theorem LiveComfyUIClient.Ended.set {c : LiveComfyUIClient} (hc : c.Ended)
    (hstatus : status.state.ended = true) :
    Ended { c with resolved := c.resolved.set promptId status } := by
  intro p st hst
  rw [StatusCache.get_set] at hst
  split at hst
  · cases hst
    exact hstatus
  · exact hc p st hst

theorem ended_getStatus {c : LiveComfyUIClient} (hc : c.Ended) :
    (c.getStatus host answers put hex promptId).2.Ended := by
  unfold LiveComfyUIClient.getStatus
  split
  · exact hc
  · split
    · exact hc
    · split
      · rename_i status _
        split
        · rename_i hended
          exact hc.set hended
        · exact hc
      · exact hc

/-- Does `get_status` send requests about this prompt? -/
def LiveComfyUIClient.asks (c : LiveComfyUIClient) (promptId : String) : Bool :=
  (localFailReason promptId).isNone && (c.resolved.get promptId).isNone

/-- A status `running` is what `/queue` says, or what the `except` clause makes
of an exception. -/
theorem getStatus_running {c : LiveComfyUIClient} (hc : c.Ended)
    (h : (c.getStatus host answers put hex promptId).1.state = .running) :
    c.asks promptId = true ∧
      ((∃ e, poll host answers put hex promptId = .error e) ∨
        queueLists answers promptId = true) := by
  unfold LiveComfyUIClient.getStatus at h
  split at h
  · cases h
  · rename_i hlocal
    split at h
    · rename_i status hcached
      have hended := hc promptId status hcached
      dsimp only at h
      rw [h] at hended
      cases hended
    · rename_i hcached
      refine ⟨by simp [LiveComfyUIClient.asks, hlocal, hcached], ?_⟩
      split at h
      · rename_i status hpoll
        have hstate : status.state = .running := by
          split at h
          · exact h
          · exact h
        rcases poll_cases hpoll with hended | rfl | rfl
        · rw [hstate] at hended
          cases hended
        · exact Or.inr (poll_running_iff.mp hpoll)
        · cases hstate
      · rename_i e hpoll
        exact Or.inl ⟨e, hpoll⟩

/-- An exception is taken for `running`. -/
theorem getStatus_of_error {c : LiveComfyUIClient}
    (hasks : c.asks promptId = true) {e : PollError}
    (h : poll host answers put hex promptId = .error e) :
    c.getStatus host answers put hex promptId = ({ state := .running }, c) := by
  unfold LiveComfyUIClient.asks at hasks
  simp only [Bool.and_eq_true, Option.isNone_iff_eq_none] at hasks
  unfold LiveComfyUIClient.getStatus
  rw [hasks.1, hasks.2]
  simp only [h]

end Poll

end Imagin4.Ports
