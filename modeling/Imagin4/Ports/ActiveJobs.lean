import Imagin4.Ports.PostgresQueue

/-!
# Counting active Postgres jobs

The two limits of the scheduler, the ceiling of a lane and the cap of a user,
are counts over `generation_jobs` that only active rows raise.  `Occupied`
says so of a predicate on rows; whatever leaves rows inactive and keeps their
id, user and kind does not raise its count.

## Main results

* `countRows_apply_le` — no queue call but a `mark_running` of a waiting job
  raises such a count.
* `countRows_enqueue` — neither does a new job.
-/

namespace Imagin4.Ports

open Imagin4.Verified

/-- A property of job rows that a row can gain only by becoming active. -/
def Occupied (p : JobRow → Bool) : Prop :=
  ∀ g g' : JobRow, g'.id = g.id → g'.userId = g.userId → g'.kind = g.kind →
    (g'.state.isActive = true → g.state.isActive = true) →
    p g' = true → p g = true

namespace PostgresJobQueue

/-- The number of job rows with a property. -/
def countRows (p : JobRow → Bool) (q : PostgresJobQueue) : Nat :=
  q.generationJobs.rows.countP p

theorem countRows_congr {q r : PostgresJobQueue}
    (h : q.generationJobs = r.generationJobs) (p : JobRow → Bool) :
    q.countRows p = r.countRows p := by
  unfold countRows
  rw [h]

/-- A guarded update that activates no row raises no such count. -/
theorem countRows_updateLive_le {p : JobRow → Bool} (hp : Occupied p)
    (id : Uuid) (f : JobRow → JobRow) (hf : ∀ g, (f g).id = g.id)
    {rest : PostgresJobQueue → PostgresJobQueue}
    (hrest : ∀ q, (rest q).generationJobs = q.generationJobs)
    (huser : ∀ g, (f g).userId = g.userId) (hkind : ∀ g, (f g).kind = g.kind)
    (q : PostgresJobQueue)
    (hactive : ∀ g, q.generationJobs.find? id = some g →
      g.state.isTerminal = false → (f g).state.isActive = true →
      g.state.isActive = true) :
    (q.updateLive id f hf rest).countRows p ≤ q.countRows p := by
  unfold updateLive
  cases hrow : q.generationJobs.find? id with
  | none => exact Nat.le_refl _
  | some g =>
      dsimp only
      split
      · exact Nat.le_refl _
      · rename_i hlive
        rw [countRows_congr (hrest _)]
        unfold countRows Table.modify
        refine @Table.countP_modifyWhere_le _ _ JobRow.id q.generationJobs _ f
          hf p (fun r hr hid hpr => ?_)
        have hown : q.generationJobs.find? id = some r := by
          rw [← of_decide_eq_true hid]
          exact Table.find?_key hr
        obtain rfl : g = r := Option.some.inj (hrow.symm.trans hown)
        exact hp g (f g) (hf g) (huser g) (hkind g)
          (hactive g hrow (by simpa using hlive)) hpr

/-- A new job waits. -/
theorem countRows_enqueue {p : JobRow → Bool} {job : QueuedJob}
    (hnew : ∀ g : JobRow, g.id = job.id → g.state = job.state → p g = false)
    (q : PostgresJobQueue) : (q.enqueue job).countRows p = q.countRows p := by
  unfold enqueue
  split
  · rfl
  · split
    · rfl
    · rename_i hfree
      simp only [Bool.or_eq_true, not_or, Bool.not_eq_true,
        Option.isSome_eq_false_iff, Option.isNone_iff_eq_none] at hfree
      unfold countRows appendEvent
      dsimp only
      rw [Table.rows_put_of_find?_none hfree.1, List.countP_append,
        List.countP_singleton, hnew _ rfl rfl]
      simp

/-- No queue call but a `mark_running` of a waiting job raises such a
count. -/
theorem countRows_apply_le {p : JobRow → Bool} (hp : Occupied p)
    (c : QueueCall) (now : DateTime) (q : PostgresJobQueue)
    (hwake : ∀ id l, c = .markRunning id → JobQueue.life q id = some l →
      l.state.isTerminal = false → l.state.isActive = true) :
    (c.apply now q).countRows p ≤ q.countRows p := by
  have hidle : ∀ {id : Uuid} {f : JobRow → JobRow}
      (hf : ∀ g, (f g).id = g.id) {rest : PostgresJobQueue → PostgresJobQueue},
      (∀ q, (rest q).generationJobs = q.generationJobs) →
      (∀ g, (f g).userId = g.userId ∧ (f g).kind = g.kind ∧
        (f g).state.isActive = false) → ∀ q : PostgresJobQueue,
      (q.updateLive id f hf rest).countRows p ≤ q.countRows p := by
    intro id f hf rest hrest hkeep q
    refine countRows_updateLive_le hp id f hf hrest (fun g => (hkeep g).1)
      (fun g => (hkeep g).2.1) q (fun g _ _ hactive => ?_)
    simp [(hkeep g).2.2] at hactive
  cases c with
  | renewLease id secs => exact Nat.le_refl _
  | setPromptId id promptId => exact Nat.le_refl _
  | markRunning id =>
      show (q.markRunning id).countRows p ≤ q.countRows p
      unfold markRunning
      apply countRows_updateLive_le hp
      · exact fun _ => rfl
      · exact fun _ => rfl
      · exact fun _ => rfl
      · intro g hg hlive _
        refine hwake id g.life rfl ?_ hlive
        rw [life_eq, hg]
        rfl
  | markSucceeded id result =>
      show (q.markSucceeded id result).countRows p ≤ q.countRows p
      unfold markSucceeded
      apply hidle
      · exact fun _ => rfl
      · exact fun _ => ⟨rfl, rfl, rfl⟩
  | markFailed id code detail =>
      show (q.markFailed id code detail).countRows p ≤ q.countRows p
      unfold markFailed
      apply hidle
      · exact fun _ => rfl
      · exact fun _ => ⟨rfl, rfl, rfl⟩
  | cancel id =>
      show (q.cancel id).countRows p ≤ q.countRows p
      unfold cancel
      apply hidle
      · exact fun _ => rfl
      · exact fun _ => ⟨rfl, rfl, rfl⟩
  | markRetryWait id code detail delay draw =>
      show (q.markRetryWait id code detail delay draw now).countRows p ≤ _
      unfold markRetryWait
      split
      · exact Nat.le_refl _
      · split
        · exact Nat.le_refl _
        · apply hidle
          · exact fun _ => rfl
          · exact fun _ => ⟨rfl, rfl, rfl⟩

end PostgresJobQueue

end Imagin4.Ports
