import Imagin4.Ports.JobLives
import Imagin4.Ports.MemoryQueue

/-!
# The prompt id of an in-memory job

`QueuedJob.prompt_id` is one field for all attempts of a job.
`InMemoryJobQueue.mark_running` clears it, so that the reconciler never asks
about an earlier attempt; but a claim makes the job active before
`mark_running`, and the field still holds the prompt id of the attempt that
failed.  With one scheduler and one reconciler the field is right as long as no
job that a claim may take has a prompt id and the calls of a dispatch find its job
in the attempt it has claimed.

## Main results

* `memoryPromptInv_step` — the invariant: which attempt the prompt id of an
  active job, and the prompt id the reconciler is polling, belong to.
* `promptsCurrent_run` — the same for a whole run.
* `not_promptsCurrent` — a second attempt with the first one's prompt id.
-/

namespace Imagin4.Ports

open Imagin4.Verified

/-! ## The property and its condition -/

/-- The prompt id of every active job was returned for its current attempt. -/
def PromptsCurrent (s : Sys InMemoryJobQueue) : Prop :=
  ∀ id j p, s.queue.get id = some j → j.state.isActive = true →
    j.promptId = some p → Returned s id j.attempt p

/-- The prompt id the reconciler is waiting to hear about was returned for the
current attempt of its job, unless the job has ended meanwhile. -/
def PollsCurrent (s : Sys InMemoryJobQueue) : Prop :=
  ∀ now job p active, s.reconcilers 0 = .polling now job p active →
    ∀ j, s.queue.get job.id = some j → j.state.isActive = true →
      Returned s job.id j.attempt p

/-- Is the action one of scheduler 0, reconciler 0, a dispatch or a user? -/
def Action.ofOne : Action → Bool
  | .countComfy i => i = 0
  | .countGemini i _ => i = 0
  | .claimLane i _ => i = 0
  | .tickFails i => i = 0
  | .spawn i => i = 0
  | .startPass r => r = 0
  | .listActive r => r = 0
  | .reconcile r _ => r = 0
  | .answer r _ _ => r = 0
  | .pollRaises r => r = 0
  | _ => true

/-- No job the claim may take has a prompt id, whether it is taken or not. -/
def claimsUnprompted (settings : Settings) (s : Sys InMemoryJobQueue) :
    Action → Bool
  | .claimLane i _ =>
      match laneRequest settings s i with
      | some req => s.queue.jobs.rows.all (fun j =>
          !InMemoryJobQueue.eligible req.kinds s.now j || j.promptId.isNone)
      | none => true
  | _ => true

/-- Does a call that moves the attempt `attempt` of its caller find the job
active in that attempt, where it takes effect? -/
def QueueCall.inOwnAttempt (attempt : Nat) (l : JobLife) : QueueCall → Bool
  | .markRunning _ => l.state.isActive && l.currentAttempt + 1 = attempt
  | .setPromptId _ _ | .markRetryWait _ _ _ _ _ =>
      l.state.isTerminal ||
        (l.state.isActive && l.currentAttempt + 1 = attempt)
  | _ => true

/-- Where they take effect, `mark_running`, `set_prompt_id` and
`mark_retry_wait` find the job active in the attempt of their caller. -/
def callsOwnAttempt (settings : Settings) (s : Sys InMemoryJobQueue)
    (a : Action) : Bool :=
  match callOf settings s a with
  | some (c, attempt) =>
      match JobQueue.life s.queue c.target with
      | some l => c.inOwnAttempt attempt l
      | none => true
  | none => true

theorem inOwnAttempt_of_call {settings : Settings} {s : Sys InMemoryJobQueue}
    {a : Action} {c : QueueCall} {attempt : Nat}
    (h : callsOwnAttempt settings s a = true)
    (hcall : callOf settings s a = some (c, attempt)) {l : JobLife}
    {q : Option String} (hslot : s.queue.slot c.target = some (l, q)) :
    c.inOwnAttempt attempt l = true := by
  have hlife : JobQueue.life s.queue c.target = some l := by
    rw [InMemoryJobQueue.life_eq_slot, hslot]
    rfl
  unfold callsOwnAttempt at h
  simpa only [hcall, hlife] using h

/-! ## How the fields move -/

/-- What one step does to the life and the prompt id of a job. -/
inductive SlotMove (settings : Settings) (s : Sys InMemoryJobQueue)
    (a : Action) (t : Sys InMemoryJobQueue) (id : Uuid) : Prop
  | same (h : t.queue.slot id = s.queue.slot id)
  | new (l : JobLife) (hnone : s.queue.slot id = none)
      (hl : l.state = .queued) (h : t.queue.slot id = some (l, none))
  | claimed (i : Nat) (locked : List Uuid) (ha : a = .claimLane i locked)
      (req : ClaimRequest) (hreq : laneRequest settings s i = some req)
      (j : QueuedJob) (hj : s.queue.get id = some j)
      (heligible : InMemoryJobQueue.eligible req.kinds s.now j = true)
      (h : t.queue.slot id = some (j.life.dispatch, j.promptId))
  | called (c : QueueCall) (attempt : Nat)
      (hcall : callOf settings s a = some (c, attempt))
      (horigin : Origin s a c attempt) (htarget : c.target = id)
      (h : t.queue.slot id =
        (s.queue.slot id).map (InMemoryJobQueue.slotStep c))

theorem slot_move {settings : Settings} {s t : Sys InMemoryJobQueue}
    {a : Action} (h : step settings s a = some t) (id : Uuid) :
    SlotMove settings s a t id := by
  cases step_move h with
  | quiet _ _ hqueue => exact .same (by rw [hqueue])
  | enqueue job _ hadmitted hnew =>
      have hnew' : s.queue.get job.id = none := hnew
      have hget : (s.queue.enqueue job).get id = _ :=
        InMemoryJobQueue.get_enqueue job id s.queue
      by_cases hid : id = job.id
      · subst hid
        refine .new job.life ?_ (life_of_admitted hadmitted).1 ?_
        · unfold InMemoryJobQueue.slot
          rw [hnew']
          rfl
        · show (s.queue.enqueue job).slot job.id = _
          unfold InMemoryJobQueue.slot
          rw [hget, if_pos rfl, Option.map_some, promptId_of_admitted hadmitted]
      · refine .same ?_
        show (s.queue.enqueue job).slot id = _
        unfold InMemoryJobQueue.slot
        rw [hget, if_neg hid]
  | claim u i req locked ha hreq hqueue =>
      have hqueue' : t.queue =
          (s.queue.claimNextWithLease req s.now).1 := hqueue
      have hget := InMemoryJobQueue.get_claimNextWithLease req s.now s.queue id
      obtain ⟨taken, _, htaken, heq⟩ :=
        InMemoryJobQueue.exists_taken req s.now s.queue
      by_cases hmem : id ∈ (s.queue.claimNextWithLease req s.now).2.map
        QueuedJob.id
      · rw [if_pos hmem] at hget
        rw [heq, List.map_map] at hmem
        obtain ⟨j, hj, hid⟩ := List.mem_map.mp hmem
        obtain ⟨hown, helig⟩ := htaken j hj
        obtain rfl : j.id = id := hid
        refine .claimed i locked ha req hreq j hown helig ?_
        unfold InMemoryJobQueue.slot
        rw [hqueue', hget, hown]
        rfl
      · rw [if_neg hmem] at hget
        refine .same ?_
        unfold InMemoryJobQueue.slot
        rw [hqueue', hget]
  | call u c attempt hcall horigin hnow hqueue =>
      have hslot := InMemoryJobQueue.slot_apply c s.now s.queue id
      have hqueue' : (u.call c attempt).queue = c.apply s.now s.queue := by
        show c.apply u.now u.queue = _
        rw [hqueue, hnow]
      by_cases hid : id = c.target
      · exact .called c attempt hcall horigin hid.symm
          (by rw [hqueue', hslot, if_pos hid])
      · exact .same (by rw [hqueue', hslot, if_neg hid])

/-! ## Dispatches that are over -/

section Settled

variable {σ : Type}

/-- The dispatch of attempt `k` has written the prompt id `p` it got, and is
over. -/
def Settled (s : Sys σ) (id : Uuid) (k : Nat) (p : String) : Prop :=
  ∃ d ∈ s.tasks, d.job.id = id ∧ d.attempt = k ∧ d.promptId = some p ∧
    d.phase = .done

theorem Settled.returned {s : Sys σ} {id : Uuid} {k : Nat} {p : String}
    (h : Settled s id k p) : Returned s id k p := by
  obtain ⟨d, hd, hid, hk, hp, _⟩ := h
  exact ⟨d, hd, hid, hk, hp⟩

variable [JobQueue σ]

/-- A dispatch that is over makes no further call. -/
theorem Settled.not_pending {s : Sys σ} (hs : AttemptsDistinct s) {k : Nat}
    {d : Dispatch} {p : String} (hd : s.tasks[k]? = some d)
    (hphase : d.phase ≠ .done) : ¬ Settled s d.job.id d.attempt p := by
  rintro ⟨e, he, hid, hattempt, _, hdone⟩
  obtain rfl := hs.unique he (List.mem_of_getElem? hd) hid hattempt
  exact hphase hdone

theorem Advance.done {s : Sys σ} {d e : Dispatch} (h : Advance s d e)
    (hdone : d.phase = .done) : e.phase = .done ∧ e.promptId = d.promptId := by
  cases h with
  | same | finish => simp [hdone]
  | spawn i hphase | drop i hphase => simp [hdone] at hphase
  | mark hphase | submit hphase | submitted p hphase =>
      simp [hdone] at hphase

theorem settled_step {settings : Settings} {s t : Sys σ} {a : Action}
    (h : step settings s a = some t) {id : Uuid} {k : Nat} {p : String}
    (hs : Settled s id k p) : Settled t id k p := by
  obtain ⟨d, hd, hid, hk, hp, hdone⟩ := hs
  rcases step_tasks h with hadv | ⟨i, locked, req, _, _, htasks⟩
  · obtain ⟨e, he, hmove⟩ := hadv.forward d hd
    obtain ⟨hdone', hp'⟩ := hmove.done hdone
    have hattempt : e.attempt = d.attempt := by
      unfold Dispatch.attempt
      rw [hmove.job]
    exact ⟨e, he, by rw [hmove.job, hid], by rw [hattempt, hk],
      by rw [hp', hp], hdone'⟩
  · refine ⟨d, ?_, hid, hk, hp, hdone⟩
    rw [htasks]
    exact List.mem_append_left _ hd

/-- `set_prompt_id` is the last thing a dispatch does. -/
theorem settled_of_setPromptId {settings : Settings} {s t : Sys σ} {k : Nat}
    {d : Dispatch} {p : String}
    (h : step settings s (.setPromptId k) = some t)
    (hd : s.tasks[k]? = some d) (hphase : d.phase = .returned)
    (hp : d.promptId = some p) : Settled t d.job.id d.attempt p := by
  have htasks : t.tasks = s.tasks.modify k
      (fun d => { d with phase := .done }) := by
    unfold step at h
    simp only [localStep, callOf, hd, hphase, Option.bind_some, hp,
      Option.map_some] at h
    cases h
    rfl
  refine ⟨{ d with phase := .done }, ?_, rfl, rfl, hp, rfl⟩
  refine List.mem_of_getElem? (i := k) ?_
  rw [htasks, List.getElem?_modify, hd]
  simp

end Settled

/-! ## What a step finds -/

/-- What a step that meets the condition does to the life and the prompt id of
a job. -/
inductive SlotEffect (s : Sys InMemoryJobQueue) (a : Action)
    (t : Sys InMemoryJobQueue) (id : Uuid) (l : JobLife) (q : Option String) :
    JobLife → Option String → Prop
  | keep : SlotEffect s a t id l q l q
  | claimed (hwaiting : l.state.isWaiting = true) (hnone : q = none) :
      SlotEffect s a t id l q l.dispatch none
  | finish (final : JobState) (hfinal : final.isTerminal = true) :
      SlotEffect s a t id l q { l with state := final } q
  | run (hactive : l.state.isActive = true)
      (hpending : ∀ p, ¬ Settled s id (l.currentAttempt + 1) p) :
      SlotEffect s a t id l q { l with state := .running } none
  | prompt (p : String)
      (hown : l.state.isTerminal = true ∨
        (l.state.isActive = true ∧ Settled t id (l.currentAttempt + 1) p)) :
      SlotEffect s a t id l q l (some p)
  | raised (hactive : l.state.isActive = true)
      (hpending : ∀ p, ¬ Settled s id (l.currentAttempt + 1) p) :
      SlotEffect s a t id l q l.retry q
  | verdict (job : QueuedJob) (ha : a.reconciler = some 0)
      (hhead : (s.reconcilers 0).head? = some job) (hid : job.id = id) :
      SlotEffect s a t id l q l.retry q

theorem reconciler_eq_zero {a : Action} (hone : a.ofOne = true) {r : Nat}
    (ha : a.reconciler = some r) : r = 0 := by
  cases a <;> simp_all [Action.ofOne, Action.reconciler]

theorem slotEffect_finish (s : Sys InMemoryJobQueue) (a : Action)
    (t : Sys InMemoryJobQueue) (id : Uuid) (l : JobLife) (q : Option String)
    {final : JobState} (hfinal : final.isTerminal = true) :
    SlotEffect s a t id l q (l.finish final) q := by
  unfold JobLife.finish
  split
  · exact .keep
  · exact .finish final hfinal

theorem slotEffect_of_call {settings : Settings} {s t : Sys InMemoryJobQueue}
    {a : Action} {c : QueueCall} {attempt : Nat} (hs : AttemptsDistinct s)
    (h : step settings s a = some t) (hone : a.ofOne = true)
    (hown : callsOwnAttempt settings s a = true)
    (hcall : callOf settings s a = some (c, attempt))
    (horigin : Origin s a c attempt) {l : JobLife} {q : Option String}
    (hslot : s.queue.slot c.target = some (l, q)) :
    SlotEffect s a t c.target l q (c.lifeStep false l)
      (InMemoryJobQueue.promptStep c q) := by
  have hin := inOwnAttempt_of_call hown hcall hslot
  cases horigin with
  | user id => exact slotEffect_finish s a t id l q rfl
  | running k d ha hd hphase =>
      simp only [QueueCall.inOwnAttempt, Bool.and_eq_true, decide_eq_true_eq]
        at hin
      refine .run hin.1 (fun p => ?_)
      rw [hin.2]
      exact Settled.not_pending hs hd (by simp [hphase])
  | prompt k d ha hd hphase p hp =>
      subst ha
      refine .prompt p ?_
      simp only [QueueCall.inOwnAttempt, Bool.or_eq_true, Bool.and_eq_true,
        decide_eq_true_eq] at hin
      rcases hin with hterm | ⟨hactive, hattempt⟩
      · exact Or.inl hterm
      · rw [hattempt]
        exact Or.inr ⟨hactive, settled_of_setPromptId h hd hphase hp⟩
  | raised k d exc draw ha hd hphase =>
      simp only [QueueCall.inOwnAttempt, Bool.or_eq_true, Bool.and_eq_true,
        decide_eq_true_eq] at hin
      rcases hin with hterm | ⟨hactive, hattempt⟩
      · show SlotEffect s a t d.job.id l q l.retry q
        rw [JobLife.retry_of_terminal hterm]
        exact .keep
      · refine .raised hactive (fun p => ?_)
        rw [hattempt]
        refine Settled.not_pending hs hd ?_
        rcases hphase with hphase | hphase | hphase <;> simp [hphase]
  | verdict r j c ha hhead hverdict =>
      obtain rfl := reconciler_eq_zero hone ha
      have hid : (JobQueue.deref s.queue j).id = j.id :=
        LawfulJobQueue.deref_id s.queue j
      cases hverdict with
      | renew secs => exact .keep
      | succeed result => exact slotEffect_finish s a t _ l q rfl
      | fail code detail => exact slotEffect_finish s a t _ l q rfl
      | retry code detail delay draw =>
          exact .verdict j ha hhead hid.symm

/-- The condition on the steps of a run. -/
def StaysCurrent (settings : Settings) (s : Sys InMemoryJobQueue)
    (a : Action) : Prop :=
  a.ofOne = true ∧ claimsUnprompted settings s a = true ∧
    callsOwnAttempt settings s a = true

theorem slotEffect_of_step {settings : Settings} {s t : Sys InMemoryJobQueue}
    {a : Action} (hs : AttemptsDistinct s) (hcond : StaysCurrent settings s a)
    (h : step settings s a = some t) {id : Uuid} {l : JobLife}
    {q : Option String} (hslot : s.queue.slot id = some (l, q)) :
    ∃ l' q', t.queue.slot id = some (l', q') ∧ SlotEffect s a t id l q l' q' := by
  obtain ⟨hone, hclaims, hown⟩ := hcond
  cases slot_move h id with
  | same heq => exact ⟨l, q, heq.trans hslot, .keep⟩
  | new l' hnone => simp [hslot] at hnone
  | claimed i locked ha req hreq j hj heligible hclaimed =>
      subst ha
      have hprompt : j.promptId = none := by
        simp only [claimsUnprompted, hreq, List.all_eq_true] at hclaims
        have hmem := hclaims j ((Table.find?_eq_some_iff.mp hj).1)
        simpa [heligible] using hmem
      have hjob : s.queue.slot id = some (j.life, j.promptId) := by
        unfold InMemoryJobQueue.slot
        rw [hj]
        rfl
      obtain ⟨rfl, rfl⟩ := Prod.mk.inj
        (Option.some.inj (hslot.symm.trans hjob))
      have hwaiting : j.state.isWaiting = true := by
        simp only [InMemoryJobQueue.eligible, Bool.and_eq_true] at heligible
        exact heligible.1.1
      exact ⟨_, _, hclaimed, by rw [hprompt]; exact .claimed hwaiting rfl⟩
  | called c attempt hcall horigin htarget hcalled =>
      subst htarget
      rw [hslot] at hcalled
      exact ⟨_, _, hcalled,
        slotEffect_of_call hs h hone hown hcall horigin hslot⟩

/-- A job with a prompt id is no new job. -/
theorem slot_before {settings : Settings} {s t : Sys InMemoryJobQueue}
    {a : Action} (h : step settings s a = some t) {id : Uuid} {l : JobLife}
    {p : String} (hslot : t.queue.slot id = some (l, some p)) :
    ∃ l' q', s.queue.slot id = some (l', q') := by
  cases hbefore : s.queue.slot id with
  | some x => exact ⟨x.1, x.2, rfl⟩
  | none =>
      cases slot_move h id with
      | same heq => simp [heq, hbefore] at hslot
      | new l' _ _ hnew => simp [hnew] at hslot
      | claimed i locked _ req _ j hj =>
          simp [InMemoryJobQueue.slot, hj] at hbefore
      | called c attempt _ _ _ hcalled => simp [hcalled, hbefore] at hslot

/-! ## The invariant -/

/-- A job the reconciler has still to decide about: if it has been put back,
then without a prompt id. -/
def Tidy (s : Sys InMemoryJobQueue) (id : Uuid) : Prop :=
  ∃ l q, s.queue.slot id = some (l, q) ∧
    (q = none ∨ l.state.isTerminal = true ∨ l.state.isActive = true)

/-- The prompt id the reconciler is polling is that of the running attempt,
unless the job has ended. -/
def Polled (s : Sys InMemoryJobQueue) (id : Uuid) (p : String) : Prop :=
  ∃ l q, s.queue.slot id = some (l, q) ∧
    (l.state.isTerminal = true ∨
      (l.state.isActive = true ∧ Settled s id (l.currentAttempt + 1) p))

theorem Polled.tidy {s : Sys InMemoryJobQueue} {id : Uuid} {p : String}
    (h : Polled s id p) : Tidy s id := by
  obtain ⟨l, q, hslot, hcase⟩ := h
  exact ⟨l, q, hslot, Or.inr (hcase.imp_right And.left)⟩

/-- The invariant behind `PromptsCurrent` and `PollsCurrent`. -/
structure MemoryPromptInv (s : Sys InMemoryJobQueue) : Prop where
  distinct : AttemptsDistinct s
  current : ∀ id l p, s.queue.slot id = some (l, some p) →
    l.state.isActive = true → Settled s id (l.currentAttempt + 1) p
  nodup : (s.reconcilers 0).ids.Nodup
  tidy : ∀ id ∈ (s.reconcilers 0).ids, Tidy s id
  polled : ∀ now job p active, s.reconcilers 0 = .polling now job p active →
    Polled s job.id p

section Step

variable {settings : Settings} {s t : Sys InMemoryJobQueue} {a : Action}

theorem current_step (hs : MemoryPromptInv s)
    (hcond : StaysCurrent settings s a) (h : step settings s a = some t)
    (id : Uuid) (l : JobLife) (p : String)
    (hslot : t.queue.slot id = some (l, some p))
    (hactive : l.state.isActive = true) :
    Settled t id (l.currentAttempt + 1) p := by
  obtain ⟨l₀, q₀, hbefore⟩ := slot_before h hslot
  obtain ⟨l', q', hafter, heffect⟩ :=
    slotEffect_of_step hs.distinct hcond h hbefore
  obtain ⟨rfl, rfl⟩ := Prod.mk.inj (Option.some.inj (hafter.symm.trans hslot))
  cases heffect with
  | keep => exact settled_step h (hs.current id _ p hbefore hactive)
  | finish final hfinal =>
      have hidle := JobState.not_active_of_terminal hfinal
      simp [hidle] at hactive
  | prompt p hown =>
      rcases hown with hterm | ⟨_, hsettled⟩
      · simp [JobState.not_active_of_terminal hterm] at hactive
      · exact hsettled
  | raised hlive =>
      rw [JobLife.retry_of_live (JobState.not_terminal_of_active hlive)]
        at hactive
      simp [JobState.isActive] at hactive
  | verdict job =>
      by_cases hterm : l₀.state.isTerminal = true
      · rw [JobLife.retry_of_terminal hterm] at hactive
        simp [JobState.not_active_of_terminal hterm] at hactive
      · rw [JobLife.retry_of_live (by simpa using hterm)] at hactive
        simp [JobState.isActive] at hactive

/-- Jobs the reconciler has still to decide about are put back by nobody else
once they have a prompt id. -/
theorem tidy_step (hs : MemoryPromptInv s) (hcond : StaysCurrent settings s a)
    (h : step settings s a = some t) {id : Uuid} (hid : Tidy s id)
    (hother : ∀ job, a.reconciler = some 0 →
      (s.reconcilers 0).head? = some job → job.id ≠ id) : Tidy t id := by
  obtain ⟨l, q, hslot, hcase⟩ := hid
  obtain ⟨l', q', hafter, heffect⟩ :=
    slotEffect_of_step hs.distinct hcond h hslot
  refine ⟨l', q', hafter, ?_⟩
  cases heffect with
  | keep => exact hcase
  | claimed => exact Or.inl rfl
  | finish final hfinal => exact Or.inr (Or.inl hfinal)
  | run => exact Or.inl rfl
  | prompt p hown => exact Or.inr (hown.imp_right And.left)
  | verdict job ha hhead heq => exact absurd heq (hother job ha hhead)
  | raised hactive hpending =>
      -- a dispatch that may raise has not written a prompt id
      cases q with
      | none => exact Or.inl rfl
      | some p =>
          exact absurd (hs.current id l p hslot hactive) (hpending p)

/-- While the reconciler waits for an answer, the attempt it asks about is not
given up. -/
theorem polled_step (hs : MemoryPromptInv s) (hcond : StaysCurrent settings s a)
    (h : step settings s a = some t) {id : Uuid} {p : String}
    (hid : Polled s id p) (hother : a.reconciler ≠ some 0) : Polled t id p := by
  obtain ⟨l, q, hslot, hcase⟩ := hid
  obtain ⟨l', q', hafter, heffect⟩ :=
    slotEffect_of_step hs.distinct hcond h hslot
  refine ⟨l', q', hafter, ?_⟩
  have hkeep := hcase.imp_right (And.imp_right (settled_step h))
  cases heffect with
  | keep => exact hkeep
  | finish final hfinal => exact Or.inl hfinal
  | prompt => exact hkeep
  | verdict job ha => exact absurd ha hother
  | claimed hwaiting =>
      rcases hcase with hterm | ⟨hactive, _⟩
      · simp [JobState.not_waiting_of_terminal hterm] at hwaiting
      · simp [JobState.not_active_of_waiting hwaiting] at hactive
  | run hactive hpending | raised hactive hpending =>
      rcases hcase with hterm | ⟨_, hsettled⟩
      · simp [JobState.not_active_of_terminal hterm] at hactive
      · exact absurd hsettled (hpending p)

theorem nodup_listActive (q : InMemoryJobQueue) :
    ((JobQueue.listActive q).map QueuedJob.id).Nodup := by
  have hsub : ((JobQueue.listActive q).map QueuedJob.id).Sublist
      (q.jobs.rows.map QueuedJob.id) := List.filter_sublist.map _
  exact q.jobs.nodup.sublist hsub

/-- The reconciler asks about the prompt id of the running attempt. -/
theorem polled_of_tidy (hs : MemoryPromptInv s)
    (h : step settings s a = some t) (hqueue : t.queue = s.queue)
    {job : QueuedJob} {p : String} (hjob : Tidy s job.id)
    (hp : hasPromptId (JobQueue.deref s.queue job) = some p) :
    Polled t job.id p := by
  obtain ⟨l, q, hslot, hcase⟩ := hjob
  obtain ⟨j, hget, rfl, rfl⟩ := InMemoryJobQueue.slot_eq_some.mp hslot
  have hderef : JobQueue.deref s.queue job = j := by
    show (s.queue.get job.id).getD job = j
    rw [hget]
    rfl
  rw [hderef] at hp
  have hprompt := promptId_of_hasPromptId hp
  rw [hprompt] at hslot hcase
  refine ⟨j.life, some p, by rw [hqueue]; exact hslot, ?_⟩
  rcases hcase with hnone | hterm | hactive
  · cases hnone
  · exact Or.inl hterm
  · exact Or.inr ⟨hactive,
      settled_step h (hs.current job.id j.life p hslot hactive)⟩

/-- A step that meets the condition keeps the invariant. -/
theorem memoryPromptInv_step (hs : MemoryPromptInv s)
    (hcond : StaysCurrent settings s a) (h : step settings s a = some t) :
    MemoryPromptInv t := by
  have hdistinct := attemptsDistinct_step hs.distinct h
  have hcurrent := current_step hs hcond h
  cases pass_move h 0 with
  | same hother heq =>
      refine ⟨hdistinct, hcurrent, by rw [heq]; exact hs.nodup, ?_, ?_⟩
      · intro id hid
        rw [heq] at hid
        exact tidy_step hs hcond h (hs.tidy id hid)
          (fun job ha _ => absurd ha hother)
      · intro now job p active hpass
        rw [heq] at hpass
        exact polled_step hs hcond h (hs.polled now job p active hpass) hother
  | started now _ heq =>
      refine ⟨hdistinct, hcurrent, ?_, ?_, ?_⟩
      · rw [heq]
        exact List.nodup_nil
      · intro id hid
        rw [heq] at hid
        cases hid
      · intro now' job p active hpass
        rw [heq] at hpass
        cases hpass
  | listed now hqueue heq =>
      refine ⟨hdistinct, hcurrent, ?_, ?_, ?_⟩
      · rw [heq]
        exact nodup_listActive s.queue
      · intro id hid
        rw [heq] at hid
        obtain ⟨j, hj, rfl⟩ := List.mem_map.mp hid
        obtain ⟨hget, hactive⟩ := LawfulJobQueue.listActive_get hj
        refine ⟨j.life, j.promptId, ?_, Or.inr (Or.inr hactive)⟩
        rw [hqueue]
        exact InMemoryJobQueue.slot_eq_some.mpr ⟨j, hget, rfl, rfl⟩
      · intro now' job p active hpass
        rw [heq] at hpass
        cases hpass
  | poll now job active p hpass hp hqueue heq =>
      have hid : (JobQueue.deref s.queue job).id = job.id :=
        LawfulJobQueue.deref_id s.queue job
      have hids : (t.reconcilers 0).ids = (s.reconcilers 0).ids := by
        rw [heq, hpass]
        simp only [Pass.ids, hid, List.map_cons]
      have htidy : ∀ id ∈ (s.reconcilers 0).ids, Tidy t id := by
        intro id hmem
        obtain ⟨l, q, hslot, hcase⟩ := hs.tidy id hmem
        exact ⟨l, q, by rw [hqueue]; exact hslot, hcase⟩
      refine ⟨hdistinct, hcurrent, by rw [hids]; exact hs.nodup,
        by rw [hids]; exact htidy, ?_⟩
      intro now' job' p' active' hpass'
      rw [heq] at hpass'
      cases hpass'
      rw [hid]
      refine polled_of_tidy hs h hqueue (hs.tidy job.id ?_) hp
      rw [hpass]
      exact List.mem_cons_self ..
  | next now job active hhead hids heq =>
      have hnodup := hs.nodup
      rw [hids] at hnodup
      refine ⟨hdistinct, hcurrent, ?_, ?_, ?_⟩
      · rw [heq]
        exact (List.nodup_cons.mp hnodup).2
      · intro id hid
        rw [heq] at hid
        have hmem : id ∈ (s.reconcilers 0).ids := by
          rw [hids]
          exact List.mem_cons_of_mem _ hid
        refine tidy_step hs hcond h (hs.tidy id hmem) ?_
        -- the job decided about is not listed twice
        rintro job' _ hhead' rfl
        obtain rfl : job = job' := Option.some.inj (hhead.symm.trans hhead')
        exact (List.nodup_cons.mp hnodup).1 hid
      · intro now' job' p active' hpass
        rw [heq] at hpass
        cases hpass

end Step

/-- An active job with a prompt id is in the attempt that got it. -/
theorem MemoryPromptInv.promptsCurrent {s : Sys InMemoryJobQueue}
    (hs : MemoryPromptInv s) : PromptsCurrent s := by
  intro id j p hget hactive hp
  have hslot : s.queue.slot id = some (j.life, some p) :=
    InMemoryJobQueue.slot_eq_some.mpr ⟨j, hget, rfl, hp⟩
  exact (hs.current id j.life p hslot hactive).returned

theorem MemoryPromptInv.pollsCurrent {s : Sys InMemoryJobQueue}
    (hs : MemoryPromptInv s) : PollsCurrent s := by
  intro now job p active hpass j hget hactive
  obtain ⟨l, q, hslot, hcase⟩ := hs.polled now job p active hpass
  obtain ⟨j', hget', rfl, _⟩ := InMemoryJobQueue.slot_eq_some.mp hslot
  obtain rfl : j = j' := Option.some.inj (hget.symm.trans hget')
  rcases hcase with hterm | ⟨_, hsettled⟩
  · have hidle := JobState.not_active_of_terminal hterm
    exact absurd (hactive.symm.trans hidle) (by decide)
  · exact hsettled.returned

/-- With one scheduler and one reconciler, and while no job a claim may take has a
prompt id and the calls of a dispatch find its own attempt, every prompt id is that
of the current attempt, in the queue and in the reconciler. -/
theorem promptsCurrent_run (settings : Settings) (as : List Action)
    (t : Sys InMemoryJobQueue)
    (hone : ∀ a ∈ as, a.ofOne = true)
    (halong : (system InMemoryJobQueue settings).Along
      (fun s a => claimsUnprompted settings s a = true ∧
        callsOwnAttempt settings s a = true) (.init .empty) as)
    (hrun : (system InMemoryJobQueue settings).exec (.init .empty) as =
      some t) : PromptsCurrent t ∧ PollsCurrent t := by
  have hinit : MemoryPromptInv (Sys.init InMemoryJobQueue.empty) := by
    refine ⟨attemptsDistinct_init _, ?_, List.nodup_nil, ?_, ?_⟩
    · intro id l p hslot
      cases hslot
    · intro id hid
      cases hid
    · intro now job p active hpass
      cases hpass
  have hcond := Machine.along_and_of_forall (M := system InMemoryJobQueue settings) hone
    halong
  have hinv : MemoryPromptInv t := Machine.invariant (I := MemoryPromptInv)
    (fun _ _ _ hs hstep h => memoryPromptInv_step hs hstep h) hinit hcond hrun
  exact ⟨hinv.promptsCurrent, hinv.pollsCurrent⟩

/-! ## The second attempt -/

/-- Attempt 1 fails on the backend, and the job is claimed again. -/
def secondAttemptRun : List Action :=
  claimedRun ++
    [.markRunning 0, .submit 0, .submitReturns 0 "first", .setPromptId 0,
      .startPass 0, .listActive 0, .reconcile 0 0,
      .answer 0 ⟨.failed, none, none⟩ 0, .advance 200000000] ++ tick 0

theorem not_promptsCurrent :
    ¬ ∀ (settings : Settings) (as : List Action) (t : Sys InMemoryJobQueue),
      (∀ a ∈ as, a.ofOne = true) →
      (system InMemoryJobQueue settings).exec (.init .empty) as = some t →
      PromptsCurrent t := by
  intro h
  have hrun : ((system InMemoryJobQueue {}).exec (.init .empty)
      secondAttemptRun).map (fun t => ((t.queue.get 7).map
        (fun j => (j.state, j.attempt, j.promptId)), t.tasks.map
        (fun d => (d.attempt, d.promptId)))) =
      some (some (.dispatched, 2, some "first"),
        [(1, some "first"), (2, none)]) := by
    decide +kernel
  obtain ⟨t, ht, heq⟩ := Option.map_eq_some_iff.mp hrun
  obtain ⟨hjob, htasks⟩ := Prod.mk.inj heq
  obtain ⟨j, hget, hj⟩ := Option.map_eq_some_iff.mp hjob
  simp only [Prod.mk.injEq] at hj
  obtain ⟨d, hd, _, hk, hp⟩ := h {} secondAttemptRun t (by decide) ht 7 j
    "first" hget (by rw [hj.1]; rfl) hj.2.2
  have hmem : (d.attempt, d.promptId) ∈ t.tasks.map
      (fun d => (d.attempt, d.promptId)) := List.mem_map_of_mem hd
  rw [htasks, hk, hp, hj.2.1] at hmem
  simp at hmem

/-- Attempt 1 raises before it is submitted; attempt 2 is polled. -/
theorem promptsCurrent_run_second :
    ∃ t : Sys InMemoryJobQueue,
      (system InMemoryJobQueue {}).exec (.init .empty)
        (claimedRun ++ [.dispatchRaises 0 "ComfyUIError" 0,
          .advance 200000000] ++ tick 0 ++ [.markRunning 1, .submit 1,
          .submitReturns 1 "second", .setPromptId 1, .startPass 0,
          .listActive 0, .reconcile 0 0]) = some t ∧
      PromptsCurrent t ∧ PollsCurrent t := by
  have hsome : ((system InMemoryJobQueue {}).exec (.init .empty)
      (claimedRun ++ [.dispatchRaises 0 "ComfyUIError" 0,
        .advance 200000000] ++ tick 0 ++ [.markRunning 1, .submit 1,
        .submitReturns 1 "second", .setPromptId 1, .startPass 0,
        .listActive 0, .reconcile 0 0])).isSome = true := by decide +kernel
  obtain ⟨t, ht⟩ := Option.isSome_iff_exists.mp hsome
  exact ⟨t, ht, promptsCurrent_run {} _ t (by decide) (by decide +kernel) ht⟩

end Imagin4.Ports
