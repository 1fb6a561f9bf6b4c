import Imagin4.Ports.JobLives
import Imagin4.Ports.PostgresQueue

/-!
# Prompt ids of Postgres attempts

`job_attempts.comfy_prompt_id` is what the reconciler asks the backend about.
`set_prompt_id` writes it to the latest attempt of the job, whichever dispatch
calls it; a `submit` that outlasts the lease returns when the job is in a later
attempt, and its prompt id lands there.  While every `set_prompt_id` finds its
own attempt to be the latest, each stored prompt id was returned by the
`submit` of the one dispatch that claimed the attempt.

## Main results

* `attributed_step` — a step that writes to its own attempt keeps every stored
  prompt id attributed.
* `promptsAttributed_run` — the same for a whole run.
* `not_promptsAttributed` — the slow `submit` that writes to the next attempt.
-/

namespace Imagin4.Ports

open Imagin4.Verified

/-! ## Attribution -/

/-- Every stored prompt id was returned by the `submit` of the dispatch that
claimed the attempt, and no other dispatch has claimed it. -/
def PromptsAttributed (s : Sys PostgresJobQueue) : Prop :=
  ∀ id k p, s.queue.promptOf id k = some p →
    ∃ d ∈ s.tasks, d.job.id = id ∧ d.attempt = k ∧ d.promptId = some p ∧
      ∀ e ∈ s.tasks, e.job.id = id → e.attempt = k → e = d

/-- A `set_prompt_id` finds the attempt its dispatch has claimed to be the
latest of the job. -/
def writesOwnAttempt (settings : Settings) (s : Sys PostgresJobQueue)
    (a : Action) : Bool :=
  match callOf settings s a with
  | some (.setPromptId id _, attempt) =>
      match s.queue.maxAttemptNo id with
      | some k => k = attempt
      | none => true
  | _ => true

/-- The invariant behind `PromptsAttributed`. -/
structure PromptInv (s : Sys PostgresJobQueue) : Prop where
  distinct : AttemptsDistinct s
  returned : PromptsReturned s
  attributed : ∀ id k p, s.queue.promptOf id k = some p → Returned s id k p

/-- A step that writes to its own attempt keeps the stored prompt ids
attributed. -/
theorem attributed_step {settings : Settings} {s t : Sys PostgresJobQueue}
    {a : Action} (hs : PromptInv s)
    (hown : writesOwnAttempt settings s a = true)
    (h : step settings s a = some t) (id : Uuid) (k : Nat) (p : String)
    (hp : t.queue.promptOf id k = some p) : Returned t id k p := by
  have hkeep : t.queue.promptOf id k = s.queue.promptOf id k →
      Returned t id k p := by
    intro heq
    exact returned_step hs.returned h (hs.attributed id k p (heq ▸ hp))
  cases step_move h with
  | quiet _ _ hqueue => exact hkeep (by rw [hqueue])
  | enqueue job => exact hkeep (PostgresJobQueue.promptOf_enqueue job _ _ _)
  | claim _ i req locked _ _ hqueue =>
      refine hkeep ?_
      rw [hqueue]
      exact PostgresJobQueue.promptOf_claim req locked _ _ _ _
  | call u c attempt hcall horigin hnow hqueue hjobs =>
      have hqueue' : (u.call c attempt).queue = c.apply s.now s.queue := by
        show c.apply u.now u.queue = _
        rw [hqueue, hnow]
      by_cases hset : ∃ i r, c = .setPromptId i r
      · obtain ⟨i, r, rfl⟩ := hset
        have hwrite : (u.call (.setPromptId i r) attempt).queue.promptOf id k =
            if id = i ∧ s.queue.maxAttemptNo i = some k then some r
            else s.queue.promptOf id k := by
          rw [hqueue']
          exact PostgresJobQueue.promptOf_setPromptId i r s.queue id k
        by_cases hlatest : id = i ∧ s.queue.maxAttemptNo i = some k
        · -- the written row is the latest one, so it is the caller's own
          obtain ⟨rfl, hmax⟩ := hlatest
          rw [if_pos ⟨rfl, hmax⟩] at hwrite
          have hk : k = attempt := by
            simpa [writesOwnAttempt, hcall, hmax] using hown
          have hr : r = p := Option.some.inj (hwrite.symm.trans hp)
          subst hk hr
          refine returned_step hs.returned h ?_
          cases horigin with
          | prompt k d _ hd _ r hr =>
              exact ⟨d, List.mem_of_getElem? hd, rfl, rfl, hr⟩
          | verdict r j c _ _ hverdict => cases hverdict
        · rw [if_neg hlatest] at hwrite
          exact hkeep hwrite
      · refine hkeep ?_
        rw [hqueue']
        exact PostgresJobQueue.promptOf_apply
          (fun i r hc => hset ⟨i, r, hc⟩) _ _ _ _

theorem promptInv_step {settings : Settings} {s t : Sys PostgresJobQueue}
    {a : Action} (hs : PromptInv s)
    (hown : writesOwnAttempt settings s a = true)
    (h : step settings s a = some t) : PromptInv t :=
  ⟨attemptsDistinct_step hs.distinct h, promptsReturned_step hs.returned h,
    attributed_step hs hown h⟩

theorem PromptInv.promptsAttributed {s : Sys PostgresJobQueue}
    (hs : PromptInv s) : PromptsAttributed s := by
  intro id k p hp
  obtain ⟨d, hd, hid, hk, hprompt⟩ := hs.attributed id k p hp
  refine ⟨d, hd, hid, hk, hprompt, fun e he heid hek => ?_⟩
  exact hs.distinct.unique he hd (heid.trans hid.symm) (hek.trans hk.symm)

/-- While every `set_prompt_id` finds its own attempt to be the latest, each
stored prompt id was returned by the one dispatch that claimed the attempt. -/
theorem promptsAttributed_run (settings : Settings) (as : List Action)
    (t : Sys PostgresJobQueue)
    (halong : (system PostgresJobQueue settings).Along
      (fun s a => writesOwnAttempt settings s a = true) (.init .empty) as)
    (hrun : (system PostgresJobQueue settings).exec (.init .empty) as =
      some t) : PromptsAttributed t := by
  have hinit : PromptInv (Sys.init PostgresJobQueue.empty) := by
    refine ⟨attemptsDistinct_init _, fun d hd => ?_, fun id k p hp => ?_⟩
    · cases hd
    · cases hp
  have hinv : PromptInv t := Machine.invariant (I := PromptInv)
    (fun _ _ _ hs hown h => promptInv_step hs hown h) hinit halong hrun
  exact hinv.promptsAttributed

/-! ## The slow submit -/

/-- The lease of attempt 1 runs out while its `submit` is under way, and the
job is claimed again. -/
def reclaimedRun : List Action :=
  claimedRun ++
    [.markRunning 0, .submit 0, .advance 121000000, .startPass 0,
      .listActive 0, .reconcile 0 0, .advance 200000000] ++ tick 0

/-- The first `submit` returns after all. -/
def slowSubmitRun : List Action :=
  reclaimedRun ++ [.submitReturns 0 "first", .setPromptId 0]

theorem not_promptsAttributed :
    ¬ ∀ (settings : Settings) (as : List Action) (t : Sys PostgresJobQueue),
      (system PostgresJobQueue settings).exec (.init .empty) as = some t →
      PromptsAttributed t := by
  intro h
  have hrun : ((system PostgresJobQueue {}).exec (.init .empty)
      slowSubmitRun).map (fun t => (t.queue.promptOf 7 2, t.tasks.map
        (fun d => (d.job.id, d.attempt, d.promptId)))) =
      some (some "first", [(7, 1, some "first"), (7, 2, none)]) := by
    decide +kernel
  obtain ⟨t, ht, heq⟩ := Option.map_eq_some_iff.mp hrun
  obtain ⟨hprompt, htasks⟩ := Prod.mk.inj heq
  obtain ⟨d, hd, hid, hk, hp, _⟩ := h {} slowSubmitRun t ht 7 2 _ hprompt
  have hmem : (d.job.id, d.attempt, d.promptId) ∈ t.tasks.map
      (fun d => (d.job.id, d.attempt, d.promptId)) := List.mem_map_of_mem hd
  rw [htasks, hid, hk, hp] at hmem
  simp at hmem

/-- The same job, whose second dispatch is the one that writes. -/
theorem promptsAttributed_run_reclaimed :
    ∃ t : Sys PostgresJobQueue,
      (system PostgresJobQueue {}).exec (.init .empty)
        (reclaimedRun ++ [.markRunning 1, .submit 1,
          .submitReturns 1 "second", .setPromptId 1]) = some t ∧
      PromptsAttributed t := by
  have hsome : ((system PostgresJobQueue {}).exec (.init .empty)
      (reclaimedRun ++ [.markRunning 1, .submit 1, .submitReturns 1 "second",
        .setPromptId 1])).isSome = true := by decide +kernel
  obtain ⟨t, ht⟩ := Option.isSome_iff_exists.mp hsome
  exact ⟨t, ht, promptsAttributed_run {} _ t (by decide +kernel) ht⟩

end Imagin4.Ports
