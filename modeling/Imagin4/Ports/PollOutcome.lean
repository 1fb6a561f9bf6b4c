import Imagin4.Verified.Outcome
import Imagin4.Ports.ComfyLive

/-!
# What a live client reports

A `LiveComfyUIClient` remembers the outcomes it has seen.  Such an outcome is
`PromptSettled`: it is what the worker's history says of the prompt, and stays that
while the worker keeps its history (`KeepsHistory`) and the object storage takes
an image again that it has taken, whatever its random key (`StorageTakes`).  So
the memory of a client shows in the names of the stored images and nowhere else.

## Main results

* `PromptSettled.keeps`, `PromptSettled.sameReport` — a settled outcome stays, and there is
  only one.
* `LiveComfyUIClient.Sound` — all that a client remembers is settled; its own
  calls and the world keep this.
* `LiveComfyUIClient.sameReport_getStatus` — once a sound client reports that a
  prompt has ended, so does every other client of the worker.
-/

namespace Imagin4.Ports

open Imagin4.Verified

/-- Two statuses report the same: the state, and the error. -/
structure SameReport (a b : ComfyStatus) : Prop where
  state : a.state = b.state
  error : a.error = b.error

namespace SameReport

theorem refl (a : ComfyStatus) : SameReport a a := ⟨rfl, rfl⟩

theorem symm {a b : ComfyStatus} (h : SameReport a b) : SameReport b a :=
  ⟨h.state.symm, h.error.symm⟩

theorem trans {a b c : ComfyStatus} (hab : SameReport a b)
    (hbc : SameReport b c) : SameReport a c :=
  ⟨hab.state.trans hbc.state, hab.error.trans hbc.error⟩

end SameReport

/-- What `put` has stored, `put'` stores too, under any key. -/
def StorageTakes (put put' : PutObject) : Prop :=
  ∀ key key' data mime, put key data mime = .ok () → put' key' data mime = .ok ()

/-- Does `/history` list the prompt? -/
def ComfyAnswers.lists (answers : ComfyAnswers) (promptId : String) : Bool :=
  match answers.history with
  | .ok history =>
      match history.contains promptId with
      | .ok found => found
      | .error _ => false
  | .error _ => false

/-- What a worker has in its history about a prompt stays there, and so do the
images of its entry. -/
def KeepsHistory (before after : ComfyAnswers) (promptId : String) : Prop :=
  before.lists promptId = true →
    after.history = before.history ∧ after.view = before.view

section Poll

variable {host : Host} {answers answers' : ComfyAnswers} {put put' : PutObject}
  {hex hex' : Nat → String} {promptId : String} {status status' : ComfyStatus}

/-! ## Other names, other clients -/

/-- As many images. -/
def SameCount (a b : List Output) : Prop := a.length = b.length

theorem put_simulates (hput : StorageTakes put put') (key key' : String)
    (data : Bytes) (mime : String) :
    Simulates (fun _ _ => True) (handling (put key data mime))
      (handling (put' key' data mime)) := by
  refine Simulates.mapError ?_ _
  intro stored hstored
  exact ⟨(), hput key key' data mime hstored, trivial⟩

theorem storeImage_simulates (hput : StorageTakes put put')
    (hview : answers'.view = answers.view) (outputs outputs' : List Output)
    (image : Json) (hcount : SameCount outputs outputs') :
    Simulates SameCount
      (storeImage host answers put hex outputs image)
      (storeImage host answers' put' hex' outputs' image) := by
  unfold storeImage
  apply Simulates.bind_same
  intro filename
  split
  · exact Simulates.ok hcount
  · have hlength : outputs.length = outputs'.length := hcount
    rw [hview, hlength]
    apply Simulates.bind_same
    intro data
    split
    · refine (put_simulates hput _ _ _ _).bind (fun _ _ _ => ?_)
      apply Simulates.ok
      simp [SameCount, hlength]
    · exact Simulates.error _ _

theorem fetchAndStoreOutputs_simulates (hput : StorageTakes put put')
    (hview : answers'.view = answers.view) (entry : Json) :
    Simulates SameCount
      (fetchAndStoreOutputs host answers put hex entry)
      (fetchAndStoreOutputs host answers' put' hex' entry) := by
  unfold fetchAndStoreOutputs
  apply Simulates.bind_same
  intro nodeOutputs
  apply Simulates.bind_same
  intro nodes
  refine Simulates.foldlM (R := SameCount) ?_ nodes rfl
  intro outputs outputs' node hcount
  unfold storeNode
  apply Simulates.bind_same
  intro images
  apply Simulates.bind_same
  intro images
  exact Simulates.foldlM (storeImage_simulates hput hview) _ hcount

theorem historyStatus_simulates (hput : StorageTakes put put')
    (hview : answers'.view = answers.view) (entry : Json) :
    Simulates SameReport (historyStatus host answers put hex entry)
      (historyStatus host answers' put' hex' entry) := by
  unfold historyStatus
  apply Simulates.bind_same
  intro statusInfo
  apply Simulates.bind_same
  intro statusStr
  split
  · exact Simulates.ok (SameReport.refl _)
  · apply (fetchAndStoreOutputs_simulates hput hview entry).bind
    intro outputs outputs' hcount
    have hlength : outputs.length = outputs'.length := hcount
    have hempty : outputs.isEmpty = outputs'.isEmpty := by
      rw [Bool.eq_iff_iff, List.isEmpty_iff_length_eq_zero,
        List.isEmpty_iff_length_eq_zero, hlength]
    rw [hempty]
    split
    · exact Simulates.ok (SameReport.refl _)
    · exact Simulates.ok ⟨rfl, rfl⟩

/-! ## PromptSettled outcomes -/

/-- The worker's history has ended the prompt, with this report. -/
structure PromptSettled (host : Host) (answers : ComfyAnswers) (put : PutObject)
    (promptId : String) (status : ComfyStatus) : Prop where
  ended : status.state.ended = true
  report : ∃ (hex : Nat → String) (history entry : Json) (made : ComfyStatus),
    answers.history = .ok history ∧ history.contains promptId = .ok true ∧
      history.item promptId = .ok entry ∧
      historyStatus host answers put hex entry = .ok made ∧ SameReport made status

/-- A poll that ends a prompt settles it. -/
theorem settled_of_poll (hended : status.state.ended = true)
    (h : poll host answers put hex promptId = .ok status) :
    PromptSettled host answers put promptId status := by
  refine ⟨hended, ?_⟩
  unfold poll at h
  obtain ⟨history, hhistory, h⟩ := bind_eq_ok.mp h
  obtain ⟨finished, hfinished, h⟩ := bind_eq_ok.mp h
  split at h
  · rename_i htrue
    obtain ⟨entry, hentry, h⟩ := bind_eq_ok.mp h
    rw [htrue] at hfinished
    exact ⟨hex, history, entry, status, request_eq_ok.mp hhistory,
      handling_eq_ok.mp hfinished, handling_eq_ok.mp hentry, h,
      SameReport.refl status⟩
  · rcases queueStatus_cases h with rfl | rfl
    · cases hended
    · cases hended

/-- A settled prompt stays settled. -/
theorem PromptSettled.keeps (h : PromptSettled host answers put promptId status)
    (hkeeps : KeepsHistory answers answers' promptId)
    (hput : StorageTakes put put') :
    PromptSettled host answers' put' promptId status := by
  obtain ⟨hended, hex, history, entry, made, hhistory, hlists, hentry, hmade,
    hreport⟩ := h
  have hlisted : answers.lists promptId = true := by
    unfold ComfyAnswers.lists
    rw [hhistory]
    dsimp only
    rw [hlists]
  obtain ⟨hsame, hview⟩ := hkeeps hlisted
  obtain ⟨again, hagain, hsimilar⟩ :=
    historyStatus_simulates hput hview entry made hmade
  exact ⟨hended, hex, history, entry, again, hsame.trans hhistory, hlists, hentry,
    hagain, hsimilar.symm.trans hreport⟩

/-- A poll of a settled prompt reports how it has ended. -/
theorem PromptSettled.poll (h : PromptSettled host answers put promptId status)
    (hput : StorageTakes put put) (hex : Nat → String) :
    ∃ again, Ports.poll host answers put hex promptId = .ok again ∧
      SameReport again status := by
  obtain ⟨_, hex', history, entry, made, hhistory, hlists, hentry, hmade,
    hreport⟩ := h
  obtain ⟨again, hagain, hsimilar⟩ :=
    historyStatus_simulates hput rfl entry made hmade
  refine ⟨again, ?_, hsimilar.symm.trans hreport⟩
  unfold Ports.poll
  rw [hhistory]
  show (handling (history.contains promptId) >>= _) = _
  rw [hlists]
  show (handling (history.item promptId) >>= _) = _
  rw [hentry]
  exact hagain

/-- A prompt is settled in one way only. -/
theorem PromptSettled.sameReport (h : PromptSettled host answers put promptId status)
    (h' : PromptSettled host answers put promptId status')
    (hput : StorageTakes put put) : SameReport status status' := by
  obtain ⟨again, hpoll, hreport⟩ := h.poll hput (fun _ => "")
  obtain ⟨again', hpoll', hreport'⟩ := h'.poll hput (fun _ => "")
  rw [hpoll] at hpoll'
  cases hpoll'
  exact hreport.symm.trans hreport'

/-! ## Clients -/

namespace LiveComfyUIClient

variable {c c' : LiveComfyUIClient}

/-- What the client remembers is settled.  An id of a failed submission is never
looked up. -/
def Sound (host : Host) (answers : String → ComfyAnswers) (put : PutObject)
    (c : LiveComfyUIClient) : Prop :=
  ∀ promptId status, c.resolved.get promptId = some status →
    localFailReason promptId = none →
    PromptSettled host (answers promptId) put promptId status

theorem sound_new (answers : String → ComfyAnswers) (baseUrl : String) :
    (LiveComfyUIClient.new baseUrl).Sound host answers put := by
  intro promptId status h
  cases h

section Sound

variable {answers answers' : String → ComfyAnswers}

/-- The world may change as long as it keeps what it has said. -/
theorem Sound.keeps (h : c.Sound host answers put)
    (hkeeps : ∀ promptId, KeepsHistory (answers promptId) (answers' promptId)
      promptId)
    (hput : StorageTakes put put') : c.Sound host answers' put' := by
  intro promptId status hstatus hreal
  exact (h promptId status hstatus hreal).keeps (hkeeps promptId) hput

theorem Sound.set (h : c.Sound host answers put)
    (hstatus : localFailReason promptId = none →
      PromptSettled host (answers promptId) put promptId status) :
    Sound host answers put
      { c with resolved := c.resolved.set promptId status } := by
  intro q st hq hreal
  rw [StatusCache.get_set] at hq
  split at hq
  · rename_i heq
    cases hq
    subst heq
    exact hstatus hreal
  · exact h q st hq hreal

theorem sound_getStatus (h : c.Sound host answers put) (promptId : String) :
    (c.getStatus host (answers promptId) put hex promptId).2.Sound host answers
      put := by
  unfold getStatus
  split
  · exact h
  · split
    · exact h
    · split
      · rename_i status hpoll
        split
        · rename_i hended
          exact h.set (fun _ => settled_of_poll hended hpoll)
        · exact h
      · exact h

theorem sound_failLocally (h : c.Sound host answers put) (hex reason : String) :
    (c.failLocally hex reason).2.Sound host answers put := by
  refine h.set (fun hreal => ?_)
  rw [String.append_assoc, String.append_assoc, localFailReason_append] at hreal
  cases hreal

theorem sound_submit {graph : Except PyError Json}
    {post : Json → Except PyError Json} {hex : String}
    {payload : List (String × Json)} {r : String × LiveComfyUIClient}
    (h : c.Sound host answers put)
    (hsubmit : c.submit host graph post hex payload = .ok r) :
    r.2.Sound host answers put := by
  unfold submit at hsubmit
  obtain ⟨graph, _, hsubmit⟩ := bind_eq_ok.mp hsubmit
  split at hsubmit
  · cases hsubmit
    exact sound_failLocally h _ _
  · split at hsubmit
    · cases hsubmit
      exact h
    · cases hsubmit
      exact sound_failLocally h _ _

/-- A client that reports a prompt's end has it settled. -/
theorem settled_of_getStatus (h : c.Sound host answers put)
    (hreal : localFailReason promptId = none)
    (hended : (c.getStatus host (answers promptId) put hex promptId).1.state.ended =
      true) :
    PromptSettled host (answers promptId) put promptId
      (c.getStatus host (answers promptId) put hex promptId).1 := by
  unfold getStatus at hended ⊢
  rw [hreal] at hended ⊢
  dsimp only at hended ⊢
  split at hended
  · rename_i status hcached
    exact h promptId status hcached hreal
  · split at hended
    · rename_i status hpoll
      have hstatus : status.state.ended = true := by
        split at hended
        · exact hended
        · exact hended
      rw [if_pos hstatus]
      exact settled_of_poll hstatus hpoll
    · cases hended

/-- A client reports a settled prompt as it has ended. -/
theorem getStatus_of_settled (h : c.Sound host answers put)
    (hput : StorageTakes put put) (hreal : localFailReason promptId = none)
    (hsettled : PromptSettled host (answers promptId) put promptId status) :
    SameReport (c.getStatus host (answers promptId) put hex promptId).1 status := by
  unfold getStatus
  rw [hreal]
  dsimp only
  cases hcached : c.resolved.get promptId with
  | some cached =>
      exact (h promptId cached hcached hreal).sameReport hsettled hput
  | none =>
      obtain ⟨again, hpoll, hreport⟩ := hsettled.poll hput hex
      dsimp only
      rw [hpoll]
      dsimp only
      split
      · exact hreport
      · exact hreport

/-- **Two clients of one worker.**  Once one of them reports that a prompt has
ended, the other one reports the same from then on. -/
theorem sameReport_getStatus (hc : c.Sound host answers put)
    (hc' : c'.Sound host answers' put')
    (hkeeps : KeepsHistory (answers promptId) (answers' promptId) promptId)
    (hput : StorageTakes put put') (hput' : StorageTakes put' put')
    (hended : (c.getStatus host (answers promptId) put hex promptId).1.state.ended =
      true) :
    SameReport (c'.getStatus host (answers' promptId) put' hex' promptId).1
      (c.getStatus host (answers promptId) put hex promptId).1 := by
  cases hlocal : localFailReason promptId with
  | some reason =>
      unfold getStatus
      rw [hlocal]
      exact SameReport.refl _
  | none =>
      have hsettled := settled_of_getStatus hc hlocal hended
      exact getStatus_of_settled hc' hput' hlocal (hsettled.keeps hkeeps hput)

end Sound

end LiveComfyUIClient

end Poll

end Imagin4.Ports
