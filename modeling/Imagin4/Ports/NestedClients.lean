import Imagin4.Ports.CompositeClient

/-!
# Nested clients

`CompositeComfyUIClient` over `MultiWorkerComfyUIClient`, or over a single worker,
for workers of any kind: anything with `submit`, `get_status` and `cancel` of the
`ComfyUIClient` protocol, whose ids may be any strings.  Each layer puts its tag and
a colon in front of the id of the layer below, and takes the part up to the first
colon off again, so that the colons of the inner ids are never looked at.

## Main results

* `accepted_submit`, `reached_outerId` — an id is made of its place, and leads back
  to it on any client of the same workers.
* `outerId_inj` — an id tells where it comes from.
* `submit_toWorkers`, `getStatus_toWorkers` — the clients of live mode are of this
  kind.
* `nested_run` — both, after any calls, and the reasons of local failures.
-/

namespace Imagin4.Ports

open Imagin4.Verified

/-! ## The protocol -/

/-- `ComfyStatus`, with its prompt id. -/
structure PromptStatus where
  promptId : String
  status : ComfyStatus

/-- `uuid.uuid4().hex`. -/
abbrev HexId := { s : String // ∀ c ∈ s.toList, c ∈ "0123456789abcdef".toList }

/-- `ComfyUIClient`: a client is a state, which has what the client remembers and
whatever stands behind it.  Its name tells it from other clients, and no call changes
it.  `submit` has the random id it may draw as an argument. -/
structure ClientPort (σ ω : Type) where
  name : σ → ω
  submit : HexId → List (String × Json) → Option String → σ → Except PyError String × σ
  getStatus : String → σ → Except PyError PromptStatus × σ
  cancel : String → σ → Except PyError Unit × σ
  name_submit : ∀ uuid payload kind s, name (submit uuid payload kind s).2 = name s
  name_getStatus : ∀ promptId s, name (getStatus promptId s).2 = name s
  name_cancel : ∀ promptId s, name (cancel promptId s).2 = name s

/-- A status is passed on under the id that was asked for. -/
def PromptStatus.under (promptId : String) (r : PromptStatus) : PromptStatus :=
  ⟨promptId, r.status⟩

/-! ## Several workers -/

/-- The workers behind a client: the one, or a `MultiWorkerComfyUIClient`, whose
constructor refuses an empty list. -/
inductive Workers (σ : Type) where
  | one (worker : σ)
  | several (workers : List σ) (nonempty : workers ≠ []) (nextIndex : Nat)

namespace Workers

variable {σ ω : Type}

/-- The workers in their order. -/
def toList : Workers σ → List σ
  | one worker => [worker]
  | several workers _ _ => workers

/-- Are ids tagged with the position of a worker? -/
def tagged : Workers σ → Bool
  | one _ => false
  | several _ _ _ => true

/-- A worker after a call. -/
def setWorker (i : Nat) (worker : σ) : Workers σ → Workers σ
  | one w => if i = 0 then one worker else one w
  | several workers nonempty nextIndex =>
      several (workers.set i worker) (by simpa using nonempty) nextIndex

/-- `_pick_worker`: the position of the worker whose turn it is. -/
def pickWorker : Workers σ → Nat
  | one _ => 0
  | several workers _ nextIndex => nextIndex % workers.length

/-- The next worker has its turn. -/
def turned : Workers σ → Workers σ
  | one worker => one worker
  | several workers nonempty nextIndex => several workers nonempty (nextIndex + 1)

theorem pickWorker_lt (c : Workers σ) : c.pickWorker < c.toList.length := by
  cases c with
  | one worker => exact Nat.zero_lt_one
  | several workers nonempty nextIndex =>
      exact Nat.mod_lt _ (List.length_pos_iff.mpr nonempty)

/-- The worker whose turn it is. -/
def next (c : Workers σ) : σ := c.toList.get ⟨c.pickWorker, c.pickWorker_lt⟩

/-- The id of a prompt, with the position of its worker. -/
def workerId (tagged : Bool) (i : Nat) (realId : String) : String :=
  if tagged then i.repr ++ ":" ++ realId else realId

/-- `_resolve`: the position of the worker an id belongs to, and its own id. -/
def resolve (host : Host) (promptId : String) (c : Workers σ) :
    Option (Nat × σ × String) :=
  match c with
  | one worker => some (0, worker, promptId)
  | several workers _ _ => do
      let realId ← (partition ':' promptId).2
      let index ← pyInt host (partition ':' promptId).1
      let position ← pyIndex workers.length index
      let worker ← workers[position]?
      return (position, worker, realId)

@[simp] theorem toList_setWorker (i : Nat) (worker : σ) (c : Workers σ) :
    (c.setWorker i worker).toList = c.toList.set i worker := by
  cases c with
  | one w => cases i <;> rfl
  | several workers nonempty nextIndex => rfl

@[simp] theorem tagged_setWorker (i : Nat) (worker : σ) (c : Workers σ) :
    (c.setWorker i worker).tagged = c.tagged := by
  cases c with
  | one w => cases i <;> rfl
  | several workers nonempty nextIndex => rfl

@[simp] theorem toList_turned (c : Workers σ) : c.turned.toList = c.toList := by
  cases c <;> rfl

@[simp] theorem tagged_turned (c : Workers σ) : c.turned.tagged = c.tagged := by
  cases c <;> rfl

/-- The position in front of an id leads to its worker. -/
theorem resolve_workerId (host : Host) {c : Workers σ} {i : Nat} {worker : σ}
    (realId : String) (h : c.toList[i]? = some worker) :
    c.resolve host (workerId c.tagged i realId) = some (i, worker, realId) := by
  obtain ⟨hlt, heq⟩ := List.getElem?_eq_some_iff.mp h
  cases c with
  | one w =>
      obtain rfl : i = 0 := Nat.lt_one_iff.mp hlt
      obtain rfl : w = worker := heq
      rfl
  | several workers nonempty nextIndex =>
      have hi : workers[i]? = some worker := h
      have hlt : i < workers.length := hlt
      show resolve host (i.repr ++ ":" ++ realId) _ = _
      unfold resolve
      dsimp only
      rw [partition_tag (not_colon_repr i)]
      simp [pyInt_repr, pyIndex_natCast hlt, hi]

variable (host : Host) (W : ClientPort σ ω)

/-- The names of the workers in their order, and whether ids are tagged. -/
def names (c : Workers σ) : Bool × List ω := (c.tagged, c.toList.map W.name)

theorem names_setWorker {c : Workers σ} {i : Nat} {worker after : σ}
    (h : c.toList[i]? = some worker) (hname : W.name after = W.name worker) :
    (c.setWorker i after).names W = c.names W := by
  unfold names
  rw [tagged_setWorker, toList_setWorker, List.map_set, hname]
  refine Prod.ext rfl (List.ext_getElem? (fun j => ?_))
  rw [List.getElem?_set, List.getElem?_map]
  split_ifs with hij hlt
  · rw [← hij, h]
    rfl
  · obtain ⟨hi, _⟩ := List.getElem?_eq_some_iff.mp h
    rw [hij, List.length_map] at *
    exact absurd hi hlt
  · rfl

/-- `submit`. -/
def submit (uuid : HexId) (payload : List (String × Json)) (kind : Option String)
    (c : Workers σ) : Except PyError String × Workers σ :=
  let r := W.submit uuid payload kind c.next
  (r.1.map (workerId c.tagged c.pickWorker), c.turned.setWorker c.pickWorker r.2)

/-- `get_status`.  A single worker is asked directly. -/
def getStatus (promptId : String) (c : Workers σ) :
    Except PyError PromptStatus × Workers σ :=
  match c.resolve host promptId with
  | none => (.ok ⟨promptId, unknownPromptId⟩, c)
  | some (i, worker, realId) =>
      let r := W.getStatus realId worker
      (if c.tagged then r.1.map (PromptStatus.under promptId) else r.1,
        c.setWorker i r.2)

/-- `cancel`. -/
def cancel (promptId : String) (c : Workers σ) : Except PyError Unit × Workers σ :=
  match c.resolve host promptId with
  | none => (.ok (), c)
  | some (i, worker, realId) =>
      let r := W.cancel realId worker
      (r.1, c.setWorker i r.2)

theorem names_submit (uuid : HexId) (payload : List (String × Json))
    (kind : Option String) (c : Workers σ) :
    (c.submit W uuid payload kind).2.names W = c.names W := by
  have hnext : c.turned.toList[c.pickWorker]? = some c.next := by
    rw [toList_turned]
    exact List.getElem?_eq_getElem c.pickWorker_lt
  have hturned : c.turned.names W = c.names W := by
    unfold names
    rw [tagged_turned, toList_turned]
  rw [← hturned]
  exact names_setWorker W hnext (W.name_submit uuid payload kind c.next)

/-- A resolved worker is one of the client's. -/
theorem getElem?_of_resolve {c : Workers σ} {promptId realId : String} {i : Nat}
    {worker : σ} (h : c.resolve host promptId = some (i, worker, realId)) :
    c.toList[i]? = some worker := by
  cases c with
  | one w =>
      cases h
      rfl
  | several workers nonempty nextIndex =>
      unfold resolve at h
      simp only [Option.bind_eq_bind, Option.bind_eq_some_iff, Option.pure_def,
        Option.some.injEq, Prod.mk.injEq] at h
      obtain ⟨_, _, _, _, position, _, found, hfound, rfl, rfl, _⟩ := h
      exact hfound

theorem names_getStatus (promptId : String) (c : Workers σ) :
    (c.getStatus host W promptId).2.names W = c.names W := by
  unfold getStatus
  cases hresolve : c.resolve host promptId with
  | none => rfl
  | some r =>
      obtain ⟨i, worker, realId⟩ := r
      exact names_setWorker W (getElem?_of_resolve host hresolve)
        (W.name_getStatus realId worker)

theorem names_cancel (promptId : String) (c : Workers σ) :
    (c.cancel host W promptId).2.names W = c.names W := by
  unfold cancel
  cases hresolve : c.resolve host promptId with
  | none => rfl
  | some r =>
      obtain ⟨i, worker, realId⟩ := r
      exact names_setWorker W (getElem?_of_resolve host hresolve)
        (W.name_cancel realId worker)

end Workers

/-! ## Two backends -/

/-- `CompositeComfyUIClient`: the ComfyUI workers, the image client if there is one,
the prompt designer if there is one, and the image provider. -/
structure NestedClient (σ γ : Type) where
  comfyui : Workers σ
  gemini : Option γ
  designer : Option (String → List String → Except PyError String)
  imageProvider : ImageProvider

/-- A call. -/
inductive ClientCall where
  | submit (uuid : HexId) (payload : List (String × Json)) (kind : Option String)
  | getStatus (promptId : String)
  | cancel (promptId : String)

namespace NestedClient

variable {σ γ ω ω' : Type} (host : Host) (W : ClientPort σ ω) (G : ClientPort γ ω')

/-- The payload for ComfyUI, with the prompt the designer made of it. -/
def designedPayload (payload : List (String × Json)) (c : NestedClient σ γ) :
    Except PyError (List (String × Json)) :=
  match c.designer with
  | none => .ok payload
  | some design =>
      if ((Json.lookup "skip_prompt_design" payload).getD .null).truthy then .ok payload
      else
        match exactTexts payload with
        | .error exc => .error exc
        | .ok exactText =>
            let base := basePrompt host payload
            if base = "" ∧ exactText.isEmpty then .ok payload
            else
              match designedText (design base exactText) with
              | some text => .ok (withMember "prompt" (.str text) payload)
              | none => .ok payload

/-- `submit`. -/
def submit (uuid : HexId) (payload : List (String × Json)) (kind : Option String)
    (c : NestedClient σ γ) : Except PyError String × NestedClient σ γ :=
  match resolveBackend kind, c.gemini with
  | .gemini, none =>
      (.ok (notConfiguredTag ++ ":" ++ (c.imageProvider.name ++ ":" ++ uuid.1)), c)
  | .gemini, some image =>
      let r := G.submit uuid payload kind image
      (r.1.map (fun realId => geminiTag ++ ":" ++ realId),
        { c with gemini := some r.2 })
  | .comfyui, _ =>
      match c.designedPayload host payload with
      | .error exc => (.error exc, c)
      | .ok designed =>
          let r := c.comfyui.submit W uuid designed kind
          (r.1.map (fun realId => comfyuiTag ++ ":" ++ realId),
            { c with comfyui := r.2 })

/-- `get_status`. -/
def getStatus (promptId : String) (c : NestedClient σ γ) :
    Except PyError PromptStatus × NestedClient σ γ :=
  match decode promptId with
  | .notConfigured provider =>
      (.ok ⟨promptId, failedStatus
        (orDefault provider c.imageProvider.name ++ "_not_configured")⟩, c)
  | .comfyui realId =>
      let r := c.comfyui.getStatus host W realId
      (r.1.map (PromptStatus.under promptId), { c with comfyui := r.2 })
  | .gemini realId =>
      match c.gemini with
      | none => (.ok ⟨promptId, unknownPromptId⟩, c)
      | some image =>
          let r := G.getStatus realId image
          (r.1.map (PromptStatus.under promptId), { c with gemini := some r.2 })
  | .unknown => (.ok ⟨promptId, unknownPromptId⟩, c)

/-- `cancel`. -/
def cancel (promptId : String) (c : NestedClient σ γ) :
    Except PyError Unit × NestedClient σ γ :=
  match decode promptId with
  | .comfyui realId =>
      let r := c.comfyui.cancel host W realId
      (r.1, { c with comfyui := r.2 })
  | .gemini realId =>
      match c.gemini with
      | none => (.ok (), c)
      | some image =>
          let r := G.cancel realId image
          (r.1, { c with gemini := some r.2 })
  | _ => (.ok (), c)

/-- The names of the clients behind it. -/
def names (c : NestedClient σ γ) : (Bool × List ω) × Option ω' :=
  (c.comfyui.names W, c.gemini.map G.name)

/-- The client after a call. -/
def call (c : NestedClient σ γ) : ClientCall → NestedClient σ γ
  | .submit uuid payload kind => (c.submit host W G uuid payload kind).2
  | .getStatus promptId => (c.getStatus host W G promptId).2
  | .cancel promptId => (c.cancel host W G promptId).2

/-- The client after some calls. -/
def run (c : NestedClient σ γ) (calls : List ClientCall) : NestedClient σ γ :=
  calls.foldl (call host W G) c

theorem names_submit (uuid : HexId) (payload : List (String × Json))
    (kind : Option String) (c : NestedClient σ γ) :
    (c.submit host W G uuid payload kind).2.names W G = c.names W G := by
  unfold submit
  split
  · rfl
  · rename_i image _ himage
    simp only [names, himage, Option.map_some, G.name_submit]
  · split
    · rfl
    · simp only [names, Workers.names_submit]

theorem names_getStatus (promptId : String) (c : NestedClient σ γ) :
    (c.getStatus host W G promptId).2.names W G = c.names W G := by
  unfold getStatus
  split
  · rfl
  · simp only [names, Workers.names_getStatus]
  · split
    · rfl
    · rename_i image himage
      simp only [names, himage, Option.map_some, G.name_getStatus]
  · rfl

theorem names_cancel (promptId : String) (c : NestedClient σ γ) :
    (c.cancel host W G promptId).2.names W G = c.names W G := by
  unfold cancel
  split
  · simp only [names, Workers.names_cancel]
  · split
    · rfl
    · rename_i image himage
      simp only [names, himage, Option.map_some, G.name_cancel]
  · rfl

theorem names_call (c : NestedClient σ γ) (a : ClientCall) :
    (c.call host W G a).names W G = c.names W G := by
  cases a with
  | submit uuid payload kind => exact names_submit host W G uuid payload kind c
  | getStatus promptId => exact names_getStatus host W G promptId c
  | cancel promptId => exact names_cancel host W G promptId c

/-- No call changes the clients behind it for others. -/
theorem names_run (calls : List ClientCall) :
    ∀ c : NestedClient σ γ, (c.run host W G calls).names W G = c.names W G := by
  induction calls with
  | nil =>
      intro c
      rfl
  | cons a calls ih =>
      intro c
      exact (ih (c.call host W G a)).trans (names_call host W G c a)

end NestedClient

/-! ## Where an id leads -/

/-- Where a prompt is: the backend, the position of the worker, and the id there.  A
backend that is not configured has a name and a random id. -/
inductive Place where
  | comfyui (worker : Nat) (realId : String)
  | gemini (realId : String)
  | notConfigured (provider : String) (uuid : String)
deriving DecidableEq

/-- The id of a place, on a client whose ComfyUI ids are tagged or not. -/
def Place.outerId (tagged : Bool) : Place → String
  | comfyui i realId => comfyuiTag ++ ":" ++ Workers.workerId tagged i realId
  | gemini realId => geminiTag ++ ":" ++ realId
  | notConfigured provider uuid =>
      notConfiguredTag ++ ":" ++ (provider ++ ":" ++ uuid)

/-- The place is one of the client's. -/
def Place.isOn {σ γ : Type} (c : NestedClient σ γ) : Place → Prop
  | comfyui i _ => i < c.comfyui.toList.length
  | gemini _ => True
  | notConfigured provider _ => ':' ∉ provider.toList

namespace Workers

variable {σ : Type}

/-- An id tells its worker. -/
theorem workerId_inj {c : Workers σ} {i j : Nat} {p q : String}
    (hi : i < c.toList.length) (hj : j < c.toList.length)
    (h : workerId c.tagged i p = workerId c.tagged j q) : i = j ∧ p = q := by
  cases c with
  | one w =>
      have hi : i < 1 := hi
      have hj : j < 1 := hj
      exact ⟨by omega, h⟩
  | several workers nonempty nextIndex =>
      obtain ⟨hrepr, hpq⟩ := append_colon_inj (not_colon_repr i) (not_colon_repr j) h
      have htext := congrArg String.toList hrepr
      rw [Nat.toList_repr, Nat.toList_repr] at htext
      have hvalue := congrArg (fun cs => Nat.ofDigitChars 10 cs 0) htext
      simp only [Nat.ofDigitChars_ten_toDigits] at hvalue
      exact ⟨hvalue, hpq⟩

end Workers

/-- An id tells where it comes from. -/
theorem outerId_inj {σ γ : Type} {c : NestedClient σ γ} {p q : Place}
    (hp : p.isOn c) (hq : q.isOn c)
    (h : p.outerId c.comfyui.tagged = q.outerId c.comfyui.tagged) : p = q := by
  have hcomfyui : ':' ∉ comfyuiTag.toList := by decide
  have hgemini : ':' ∉ geminiTag.toList := by decide
  have hnot : ':' ∉ notConfiguredTag.toList := by decide
  cases p with
  | comfyui i p =>
      cases q with
      | comfyui j q =>
          obtain ⟨rfl, rfl⟩ := Workers.workerId_inj hp hq
            (append_colon_inj hcomfyui hcomfyui h).2
          rfl
      | gemini q =>
          exact absurd (append_colon_inj hcomfyui hgemini h).1 (by decide)
      | notConfigured provider uuid =>
          exact absurd (append_colon_inj hcomfyui hnot h).1 (by decide)
  | gemini p =>
      cases q with
      | comfyui j q =>
          exact absurd (append_colon_inj hgemini hcomfyui h).1 (by decide)
      | gemini q =>
          obtain ⟨_, rfl⟩ := append_colon_inj hgemini hgemini h
          rfl
      | notConfigured provider uuid =>
          exact absurd (append_colon_inj hgemini hnot h).1 (by decide)
  | notConfigured provider uuid =>
      cases q with
      | comfyui j q =>
          exact absurd (append_colon_inj hnot hcomfyui h).1 (by decide)
      | gemini q =>
          exact absurd (append_colon_inj hnot hgemini h).1 (by decide)
      | notConfigured provider' uuid' =>
          obtain ⟨rfl, rfl⟩ :=
            append_colon_inj hp hq (append_colon_inj hnot hnot h).2
          rfl

section Places

variable {σ γ ω ω' : Type} (host : Host) (W : ClientPort σ ω) (G : ClientPort γ ω')

/-- A submission has been taken at a place: by the worker whose turn it was, or by the
image client, under the id it has there. -/
def Accepted (uuid : HexId) (payload : List (String × Json)) (kind : Option String)
    (c : NestedClient σ γ) : Place → Prop
  | .comfyui i realId =>
      resolveBackend kind = .comfyui ∧ i = c.comfyui.pickWorker ∧
        ∃ designed, c.designedPayload host payload = .ok designed ∧
          (W.submit uuid designed kind c.comfyui.next).1 = .ok realId
  | .gemini realId =>
      resolveBackend kind = .gemini ∧
        ∃ image, c.gemini = some image ∧
          (G.submit uuid payload kind image).1 = .ok realId
  | .notConfigured provider id =>
      resolveBackend kind = .gemini ∧ c.gemini = none ∧
        provider = c.imageProvider.name ∧ id = uuid.1

/-- `get_status` and `cancel` of an id go to its place, with the id it has there; the
status comes back under the id that was asked for, and nothing else of the client
changes. -/
def Reached (c : NestedClient σ γ) (promptId : String) : Place → Prop
  | .comfyui i realId =>
      ∃ worker, c.comfyui.toList[i]? = some worker ∧
        c.getStatus host W G promptId =
          ((W.getStatus realId worker).1.map (PromptStatus.under promptId),
            { c with comfyui := c.comfyui.setWorker i (W.getStatus realId worker).2 }) ∧
        c.cancel host W G promptId =
          ((W.cancel realId worker).1,
            { c with comfyui := c.comfyui.setWorker i (W.cancel realId worker).2 })
  | .gemini realId =>
      ∃ image, c.gemini = some image ∧
        c.getStatus host W G promptId =
          ((G.getStatus realId image).1.map (PromptStatus.under promptId),
            { c with gemini := some (G.getStatus realId image).2 }) ∧
        c.cancel host W G promptId =
          ((G.cancel realId image).1, { c with gemini := some (G.cancel realId image).2 })
  | .notConfigured provider _ =>
      c.getStatus host W G promptId =
          (.ok ⟨promptId, failedStatus
            (orDefault provider c.imageProvider.name ++ "_not_configured")⟩, c) ∧
        c.cancel host W G promptId = (.ok (), c)

variable {host} {W} {G}

/-- An id is made of its place. -/
theorem accepted_submit {uuid : HexId} {payload : List (String × Json)}
    {kind : Option String} {c : NestedClient σ γ} {promptId : String}
    (h : (c.submit host W G uuid payload kind).1 = .ok promptId) :
    ∃ p, Accepted host W G uuid payload kind c p ∧
      promptId = p.outerId c.comfyui.tagged := by
  unfold NestedClient.submit at h
  split at h
  · rename_i hbackend hgemini
    cases h
    exact ⟨.notConfigured c.imageProvider.name uuid.1, ⟨hbackend, hgemini, rfl, rfl⟩,
      rfl⟩
  · rename_i image hbackend hgemini
    obtain ⟨realId, hreal, rfl⟩ := map_eq_ok.mp h
    exact ⟨.gemini realId, ⟨hbackend, image, hgemini, hreal⟩, rfl⟩
  · rename_i hbackend
    split at h
    · cases h
    · rename_i designed hdesigned
      obtain ⟨workerId, hworkers, rfl⟩ := map_eq_ok.mp h
      obtain ⟨realId, hreal, rfl⟩ := map_eq_ok.mp hworkers
      exact ⟨.comfyui c.comfyui.pickWorker realId,
        ⟨hbackend, rfl, designed, hdesigned, hreal⟩, rfl⟩

/-- **The way back.**  On a client of the same workers the id leads to the place. -/
theorem reached_outerId {c : NestedClient σ γ} {p : Place}
    (hp : p.isOn c) (hgemini : ∀ realId, p = .gemini realId → c.gemini.isSome) :
    Reached host W G c (p.outerId c.comfyui.tagged) p := by
  cases p with
  | comfyui i realId =>
      have hworker := List.getElem?_eq_getElem hp
      have hresolve := Workers.resolve_workerId host realId hworker
      have hunder : ∀ (q q' : String) (x : Except PyError PromptStatus),
          (x.map (PromptStatus.under q')).map (PromptStatus.under q) =
            x.map (PromptStatus.under q) := by
        intro q q' x
        cases x <;> rfl
      refine ⟨_, hworker, ?_, ?_⟩
      · unfold NestedClient.getStatus Place.outerId Workers.getStatus
        rw [decode_comfyui]
        dsimp only
        rw [hresolve]
        dsimp only
        split
        · rw [hunder]
        · rfl
      · unfold NestedClient.cancel Place.outerId Workers.cancel
        rw [decode_comfyui]
        dsimp only
        rw [hresolve]
  | gemini realId =>
      obtain ⟨image, himage⟩ := Option.isSome_iff_exists.mp (hgemini realId rfl)
      refine ⟨image, himage, ?_, ?_⟩
      · unfold NestedClient.getStatus Place.outerId
        rw [decode_gemini]
        simp only [himage]
      · unfold NestedClient.cancel Place.outerId
        rw [decode_gemini]
        simp only [himage]
  | notConfigured provider uuid =>
      have hcolon : ':' ∉ provider.toList := hp
      have hprovider : (partition ':' (provider ++ ":" ++ uuid)).1 = provider :=
        congrArg Prod.fst (partition_tag hcolon)
      have hdecode : decode (notConfiguredTag ++ ":" ++ (provider ++ ":" ++ uuid)) =
          .notConfigured provider := by
        rw [decode_notConfigured, hprovider]
      refine ⟨?_, ?_⟩
      · unfold NestedClient.getStatus Place.outerId
        rw [hdecode]
      · unfold NestedClient.cancel Place.outerId
        rw [hdecode]

end Places

/-! ## Local failures of a live worker -/

/-- `cache.pop(promptId, None)`. -/
def StatusCache.pop (cache : StatusCache) (promptId : String) : StatusCache where
  rows := cache.rows.filter (fun e => e.1 ≠ promptId)
  nodup := cache.nodup.sublist (List.filter_sublist.map _)

namespace LiveComfyUIClient

/-- What a live worker is given: the graph builder, `POST /prompt`, the answers to a
poll, the storage, and random names for the images. -/
structure LiveServices where
  graph : List (String × Json) → Except PyError Json
  post : String → Json → Except PyError Json
  servers : Servers
  put : PutObject
  hex : Nat → String

/-- `LiveComfyUIClient` as a client of the protocol, by its base URL.  What `cancel`
asks of the server is left to the server. -/
def port (host : Host) (services : LiveServices) :
    ClientPort LiveComfyUIClient String where
  name c := c.baseUrl
  submit uuid payload _ c :=
    match c.submit host (services.graph payload) (services.post c.baseUrl) uuid.1
        payload with
    | .error exc => (.error exc, c)
    | .ok (promptId, after) => (.ok promptId, after)
  getStatus promptId c :=
    let r := c.getStatus host (services.servers c.baseUrl promptId) services.put
      services.hex promptId
    (.ok ⟨promptId, r.1⟩, r.2)
  cancel promptId c := (.ok (), { c with resolved := c.resolved.pop promptId })
  name_submit uuid payload kind c := by
    split
    · rfl
    · rename_i hsubmit
      exact baseUrl_submit hsubmit
  name_getStatus promptId c := baseUrl_getStatus
  name_cancel promptId c := rfl

/-- The reason of a submission that fails before ComfyUI has it. -/
def localFailure (host : Host) (services : LiveServices) (baseUrl : String)
    (payload : List (String × Json)) : Option String :=
  match services.graph payload with
  | .error _ => none
  | .ok graph =>
      if basePrompt host payload = "" then some "empty_prompt"
      else
        match (do (← services.post baseUrl graph).item "prompt_id") with
        | .ok _ => none
        | .error exc => some ("comfy_live_error:" ++ exc)

section LocalFailure

variable {host : Host} {services : LiveServices} {reason : String}

/-- The id of a submission that fails before ComfyUI has it. -/
theorem submit_of_localFailure {payload : List (String × Json)}
    {c : LiveComfyUIClient}
    (h : localFailure host services c.baseUrl payload = some reason) (uuid : HexId)
    (kind : Option String) :
    ((port host services).submit uuid payload kind c).1 =
        .ok (localFailPrefix ++ uuid.1 ++ ":" ++ reason) ∧ reason ≠ "" := by
  have hne : ∀ exc : String, "comfy_live_error:" ++ exc ≠ "" := by
    intro exc hempty
    have hchars := congrArg String.toList hempty
    rw [String.toList_append] at hchars
    cases hchars
  simp only [port, submit]
  unfold localFailure at h
  cases hgraph : services.graph payload with
  | error exc =>
      rw [hgraph] at h
      cases h
  | ok graph =>
      rw [hgraph] at h
      dsimp only at h
      by_cases hprompt : basePrompt host payload = ""
      · rw [if_pos hprompt] at h
        cases h
        simp only [bind, Except.bind, if_pos hprompt]
        exact ⟨rfl, by decide⟩
      · rw [if_neg hprompt] at h
        cases hpost : (do (← services.post c.baseUrl graph).item "prompt_id") with
        | ok promptId =>
            rw [hpost] at h
            cases h
        | error exc =>
            rw [hpost] at h
            cases h
            refine ⟨?_, hne exc⟩
            simp only [bind, Except.bind] at hpost
            simp only [bind, Except.bind, if_neg hprompt, hpost]
            rfl

/-- The reason is read off the id, whatever colons it has. -/
theorem localFailReason_prefix (uuid : HexId) (reason : String) :
    localFailReason (localFailPrefix ++ uuid.1 ++ ":" ++ reason) = some reason := by
  have hcolon : ':' ∉ uuid.1.toList := by
    intro hmem
    exact absurd (uuid.2 ':' hmem) (by decide)
  have htext : localFailPrefix ++ uuid.1 ++ ":" ++ reason =
      localFailPrefix ++ (uuid.1 ++ ":" ++ reason) := by
    simp only [String.append_assoc]
  rw [htext, localFailReason_append, partition_tag hcolon]
  rfl

/-- Any live worker reports it. -/
theorem getStatus_localFailure (host : Host) (services : LiveServices) (uuid : HexId)
    {reason : String} (hne : reason ≠ "") (c : LiveComfyUIClient) :
    (port host services).getStatus (localFailPrefix ++ uuid.1 ++ ":" ++ reason) c =
      (.ok ⟨localFailPrefix ++ uuid.1 ++ ":" ++ reason, failedStatus reason⟩, c) := by
  have hdefault : orDefault reason "local_failure" = reason := if_neg hne
  simp only [port, getStatus, localFailReason_prefix, hdefault]

end LocalFailure

end LiveComfyUIClient

/-! ## The workers of live mode -/

theorem Workers.setWorker_self {σ : Type} {c : Workers σ} {i : Nat} {worker : σ}
    (h : c.toList[i]? = some worker) : c.setWorker i worker = c := by
  obtain ⟨hlt, heq⟩ := List.getElem?_eq_some_iff.mp h
  cases c with
  | one w =>
      obtain rfl : i = 0 := Nat.lt_one_iff.mp hlt
      obtain rfl : w = worker := heq
      rfl
  | several workers nonempty nextIndex =>
      have hset : workers.set i worker = workers := by
        obtain rfl : workers[i] = worker := heq
        exact List.set_getElem_self hlt
      unfold setWorker
      simp only [hset]

namespace MultiWorkerComfyUIClient

/-- The workers of a client of live mode. -/
def toWorkers (c : MultiWorkerComfyUIClient) : Workers LiveComfyUIClient :=
  .several c.workers c.nonempty c.nextIndex

variable {host : Host} {services : LiveComfyUIClient.LiveServices}

/-- `submit` of live mode is that of its workers. -/
theorem submit_toWorkers (images : ImageServices)
    (designComfy : String → List String → Except PyError String) (uuid : HexId)
    (payload : List (String × Json)) (kind : Option String)
    (c : MultiWorkerComfyUIClient) :
    let r := c.submit host ⟨images, services.graph, services.post, designComfy⟩ uuid.1
      payload
    c.toWorkers.submit (LiveComfyUIClient.port host services) uuid payload kind =
      (r.1, r.2.toWorkers) := by
  have hnext : c.toWorkers.next = c.workers[c.pickWorker] := rfl
  have hself : c.toWorkers.turned.toList[c.toWorkers.pickWorker]? =
      some c.toWorkers.next := by
    rw [Workers.toList_turned]
    exact List.getElem?_eq_getElem c.toWorkers.pickWorker_lt
  rw [hnext] at hself
  unfold Workers.submit MultiWorkerComfyUIClient.submit
  simp only [LiveComfyUIClient.port, hnext]
  cases hsubmit : c.workers[c.pickWorker].submit host (services.graph payload)
      (services.post c.workers[c.pickWorker].baseUrl) uuid.1 payload with
  | error exc =>
      dsimp only
      rw [Workers.setWorker_self hself]
      rfl
  | ok r => rfl

/-- `get_status` of live mode is that of its workers. -/
theorem getStatus_toWorkers (storage : Storage) (hput : services.put = storage.putObject)
    (promptId : String) (c : MultiWorkerComfyUIClient) :
    let r := c.getStatus host services.servers storage services.hex promptId
    c.toWorkers.getStatus host (LiveComfyUIClient.port host services) promptId =
      (.ok ⟨promptId, r.1⟩, r.2.toWorkers) := by
  have hresolve : c.toWorkers.resolve host promptId = c.resolve host promptId := rfl
  unfold Workers.getStatus MultiWorkerComfyUIClient.getStatus
  rw [hresolve]
  cases c.resolve host promptId with
  | none => rfl
  | some r =>
      obtain ⟨i, worker, realId⟩ := r
      dsimp only [LiveComfyUIClient.port]
      rw [hput]
      rfl

end MultiWorkerComfyUIClient

/-! ## Every sequence of calls -/

section Runs

variable {σ γ ω ω' : Type} {host : Host} {W : ClientPort σ ω} {G : ClientPort γ ω'}

theorem tagged_eq_of_names {A B : NestedClient σ γ} (h : A.names W G = B.names W G) :
    A.comfyui.tagged = B.comfyui.tagged :=
  congrArg (fun x => x.1.1) h

theorem workers_eq_of_names {A B : NestedClient σ γ} (h : A.names W G = B.names W G) :
    A.comfyui.toList.map W.name = B.comfyui.toList.map W.name :=
  congrArg (fun x => x.1.2) h

theorem gemini_eq_of_names {A B : NestedClient σ γ} (h : A.names W G = B.names W G) :
    A.gemini.map G.name = B.gemini.map G.name :=
  congrArg Prod.snd h

/-- The place of a submission is one of any client with the same names. -/
theorem isOn_of_accepted {A B : NestedClient σ γ} (h : A.names W G = B.names W G)
    {uuid : HexId} {payload : List (String × Json)} {kind : Option String} {p : Place}
    (hp : Accepted host W G uuid payload kind A p) :
    p.isOn B ∧ ∀ realId, p = .gemini realId → B.gemini.isSome := by
  have hlength := congrArg List.length (workers_eq_of_names h)
  rw [List.length_map, List.length_map] at hlength
  cases p with
  | comfyui i realId =>
      obtain ⟨_, rfl, _⟩ := hp
      refine ⟨?_, fun _ heq => by cases heq⟩
      show A.comfyui.pickWorker < B.comfyui.toList.length
      rw [← hlength]
      exact A.comfyui.pickWorker_lt
  | gemini realId =>
      obtain ⟨_, image, himage, _⟩ := hp
      refine ⟨trivial, fun _ _ => ?_⟩
      have hgemini := gemini_eq_of_names h
      rw [himage] at hgemini
      cases hB : B.gemini with
      | some image' => rfl
      | none =>
          rw [hB] at hgemini
          cases hgemini
  | notConfigured provider id =>
      obtain ⟨_, _, rfl, _⟩ := hp
      refine ⟨?_, fun _ heq => by cases heq⟩
      show ':' ∉ A.imageProvider.name.toList
      cases A.imageProvider <;> decide

end Runs

/-- A submission that fails before ComfyUI has it has an id all the same, and any
client of the same workers reports its reason. -/
theorem getStatus_of_localFailure {γ ω' : Type} {host : Host}
    {services : LiveComfyUIClient.LiveServices} {G : ClientPort γ ω'}
    {A B : NestedClient LiveComfyUIClient γ}
    (hnames : A.names (LiveComfyUIClient.port host services) G =
      B.names (LiveComfyUIClient.port host services) G)
    (uuid : HexId) {payload designed : List (String × Json)} {kind : Option String}
    {reason : String} (hkind : resolveBackend kind = .comfyui)
    (hdesigned : A.designedPayload host payload = .ok designed)
    (hreason : LiveComfyUIClient.localFailure host services A.comfyui.next.baseUrl
      designed = some reason) :
    ∃ promptId,
      (A.submit host (LiveComfyUIClient.port host services) G uuid payload kind).1 =
        .ok promptId ∧
      B.getStatus host (LiveComfyUIClient.port host services) G promptId =
        (.ok ⟨promptId, failedStatus reason⟩, B) := by
  obtain ⟨hworker, hne⟩ :=
    LiveComfyUIClient.submit_of_localFailure hreason uuid kind
  have hsubmit : (A.submit host (LiveComfyUIClient.port host services) G uuid payload
      kind).1 = .ok ((Place.comfyui A.comfyui.pickWorker
        (localFailPrefix ++ uuid.1 ++ ":" ++ reason)).outerId A.comfyui.tagged) := by
    unfold NestedClient.submit
    simp only [hkind, hdesigned, Workers.submit, hworker]
    rfl
  have haccepted : Accepted host (LiveComfyUIClient.port host services) G uuid payload
      kind A (.comfyui A.comfyui.pickWorker
        (localFailPrefix ++ uuid.1 ++ ":" ++ reason)) :=
    ⟨hkind, rfl, designed, hdesigned, hworker⟩
  have hon := (isOn_of_accepted hnames haccepted).1
  obtain ⟨worker, hfound, hstatus, _⟩ : Reached host
      (LiveComfyUIClient.port host services) G B _ _ :=
    reached_outerId hon (fun _ heq => by cases heq)
  refine ⟨_, hsubmit, ?_⟩
  rw [tagged_eq_of_names hnames, hstatus,
    LiveComfyUIClient.getStatus_localFailure host services uuid hne]
  dsimp only
  rw [Workers.setWorker_self hfound]
  rfl

/-- After any calls on two clients of the same workers, in the same order: the id of a
submission to one of them leads the other's `get_status` and `cancel` to the worker
that took it (or to the image client), with exactly its own id; the status comes back
under the id of the submission; no other place has this id.  If a live worker's
submission failed before ComfyUI had it, the reason comes back as it was. -/
theorem nested_run :
    (∀ (σ γ ω ω' : Type) (host : Host) (W : ClientPort σ ω) (G : ClientPort γ ω')
      (A B : NestedClient σ γ), A.names W G = B.names W G →
      ∀ (as bs : List ClientCall) (uuid : HexId) (payload : List (String × Json))
        (kind : Option String) (promptId : String),
        ((A.run host W G as).submit host W G uuid payload kind).1 = .ok promptId →
        ∃ p, Accepted host W G uuid payload kind (A.run host W G as) p ∧
          Reached host W G (B.run host W G bs) promptId p ∧
          (∀ i realId, p = .comfyui i realId →
            ((A.run host W G as).comfyui.toList[i]?).map W.name =
              ((B.run host W G bs).comfyui.toList[i]?).map W.name) ∧
          ∀ q : Place, q.isOn (B.run host W G bs) →
            q.outerId (B.run host W G bs).comfyui.tagged = promptId → q = p) ∧
    ∀ (γ ω' : Type) (host : Host) (services : LiveComfyUIClient.LiveServices)
      (G : ClientPort γ ω') (A B : NestedClient LiveComfyUIClient γ),
      A.names (LiveComfyUIClient.port host services) G =
        B.names (LiveComfyUIClient.port host services) G →
      ∀ (as bs : List ClientCall) (uuid : HexId)
        (payload designed : List (String × Json)) (kind : Option String)
        (reason : String), resolveBackend kind = .comfyui →
        (A.run host (LiveComfyUIClient.port host services) G as).designedPayload host
          payload = .ok designed →
        LiveComfyUIClient.localFailure host services
          (A.run host (LiveComfyUIClient.port host services) G as).comfyui.next.baseUrl
          designed = some reason →
        ∃ promptId,
          ((A.run host (LiveComfyUIClient.port host services) G as).submit host
            (LiveComfyUIClient.port host services) G uuid payload kind).1 =
              .ok promptId ∧
          (B.run host (LiveComfyUIClient.port host services) G bs).getStatus host
            (LiveComfyUIClient.port host services) G promptId =
              (.ok ⟨promptId, failedStatus reason⟩,
                B.run host (LiveComfyUIClient.port host services) G bs) := by
  have hnested : ∀ (σ γ ω ω' : Type) (host : Host) (W : ClientPort σ ω)
      (G : ClientPort γ ω') (A B : NestedClient σ γ), A.names W G = B.names W G →
      ∀ (as bs : List ClientCall),
        (A.run host W G as).names W G = (B.run host W G bs).names W G := by
    intro σ γ ω ω' host W G A B hnames as bs
    rw [NestedClient.names_run, NestedClient.names_run, hnames]
  refine ⟨?_, ?_⟩
  · intro σ γ ω ω' host W G A B hnames as bs uuid payload kind promptId h
    have hrun := hnested σ γ ω ω' host W G A B hnames as bs
    obtain ⟨p, hp, rfl⟩ := accepted_submit h
    obtain ⟨hon, hgemini⟩ := isOn_of_accepted hrun hp
    rw [tagged_eq_of_names hrun]
    refine ⟨p, hp, reached_outerId hon hgemini, ?_, ?_⟩
    · rintro i realId rfl
      have hworkers := workers_eq_of_names hrun
      rw [← List.getElem?_map, hworkers, List.getElem?_map]
    · intro q hq heq
      exact outerId_inj hq hon heq
  · intro γ ω' host services G A B hnames as bs uuid payload designed kind reason
      hkind hdesigned hreason
    exact getStatus_of_localFailure (hnested _ γ _ ω' host _ G A B hnames as bs) uuid
      hkind hdesigned hreason

/-! ## Two live workers -/

/-- A host for examples. -/
def quietHost : Host := ⟨fun _ => "", id, fun _ => none⟩

/-- No image client. -/
def noImages : ClientPort Unit Unit where
  name _ := ()
  submit _ _ _ _ := (.error "RuntimeError", ())
  getStatus promptId _ := (.ok ⟨promptId, unknownPromptId⟩, ())
  cancel _ _ := (.ok (), ())
  name_submit _ _ _ _ := rfl
  name_getStatus _ _ := rfl
  name_cancel _ _ := rfl

/-- Workers that nobody can reach. -/
def unreachableWorkers : LiveComfyUIClient.LiveServices where
  graph _ := .ok .null
  post _ _ := .error "ConnectError"
  servers _ _ := ⟨.error "ConnectError", .error "ConnectError",
    fun _ => .error "ConnectError"⟩
  put _ _ _ := .ok ()
  hex _ := ""

/-- A client of two workers. -/
def twoWorkers (nextIndex : Nat) : NestedClient LiveComfyUIClient Unit where
  comfyui := .several [.new "http://a", .new "http://b"] (by simp) nextIndex
  gemini := none
  designer := none
  imageProvider := .gemini

/-- A prompt. -/
def catPayload : List (String × Json) := [("prompt", .str "cat")]

/-- Its second submission, to the second worker, fails locally; another instance finds
the worker and the reason. -/
theorem nested_run_unreachable :
    Reached quietHost (LiveComfyUIClient.port quietHost unreachableWorkers) noImages
        (twoWorkers 0) "comfyui:1:localfail:ab:comfy_live_error:ConnectError"
        (.comfyui 1 "localfail:ab:comfy_live_error:ConnectError") ∧
      ∃ promptId, ((twoWorkers 0).getStatus quietHost
        (LiveComfyUIClient.port quietHost unreachableWorkers) noImages promptId).1 =
          .ok ⟨promptId, failedStatus "comfy_live_error:ConnectError"⟩ := by
  have hnames : (twoWorkers 0).names (LiveComfyUIClient.port quietHost unreachableWorkers)
      noImages = (twoWorkers 0).names (LiveComfyUIClient.port quietHost unreachableWorkers)
        noImages := rfl
  refine ⟨?_, ?_⟩
  · obtain ⟨p, _, hreached, _, hunique⟩ := nested_run.1 _ _ _ _ quietHost
      (LiveComfyUIClient.port quietHost unreachableWorkers) noImages (twoWorkers 0)
      (twoWorkers 0) hnames [.submit ⟨"a", by simp⟩ catPayload none] []
      ⟨"ab", by simp⟩ catPayload none
      "comfyui:1:localfail:ab:comfy_live_error:ConnectError" (by rfl)
    have hplace := hunique (.comfyui 1 "localfail:ab:comfy_live_error:ConnectError")
      (show 1 < 2 by decide) (by rfl)
    rw [hplace]
    exact hreached
  · obtain ⟨promptId, _, hstatus⟩ := nested_run.2 _ _ quietHost unreachableWorkers noImages
      (twoWorkers 0) (twoWorkers 0) hnames [.submit ⟨"a", by simp⟩ catPayload none]
      [] ⟨"ab", by simp⟩ catPayload catPayload none "comfy_live_error:ConnectError"
      rfl rfl (by rfl)
    exact ⟨promptId, congrArg Prod.fst hstatus⟩

end Imagin4.Ports
