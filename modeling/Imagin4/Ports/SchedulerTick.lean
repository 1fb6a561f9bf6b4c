import Imagin4.Verified.Machine
import Imagin4.Ports.Scheduler
import Imagin4.Ports.JobSystem
import Imagin4.Ports.PostgresQueue

/-!
# The tick of a scheduler

`Scheduler._tick` with its exceptions.  It claims on one lane after the other, and
creates the dispatch tasks when all claims have returned; `run_forever` logs what it
raises.  What has been claimed is held in a local variable until then, so the
exception of one lane drops the jobs of the lane before.

A claim can raise before its transaction, or after it: the commit was made, but its
acknowledgement was lost.

## Main results

* `Scheduler.claimLanes_moved` — the loop holds what its claims have moved, if and
  only if no claim raises while it holds something.
* `Scheduler.allHanded_run` — the ticks that hand on every job they claim.
* `Scheduler.not_allHanded` — the lane that fails after another one.
-/

namespace Imagin4.Ports

open Imagin4.Verified

namespace Scheduler

/-! ## Ticks -/

/-- How a claim ends.  One that is `lost` has been carried out, but raises. -/
inductive ClaimEnd where
  | answered
  | refused (exc : PyError)
  | lost (exc : PyError)
deriving DecidableEq, Repr

/-- What the claim of one lane meets: what everyone else has done to the queue
since the call before, the rows that are locked, the time, and how it ends. -/
structure LaneWorld (σ : Type) where
  others : σ → σ
  locked : List Uuid
  now : DateTime
  ending : ClaimEnd

/-- What one tick meets. -/
structure TickWorld (σ : Type) where
  comfyActive : Except PyError Nat
  geminiActive : Except PyError Nat
  workers : Except PyError WorkerStatuses
  lane : Backend → LaneWorld σ

/-- The queue, the jobs that the claims of a scheduler have moved to `dispatched`
(history), and the jobs it has created a task of `_dispatch` for. -/
structure TickState (σ : Type) where
  queue : σ
  moved : List QueuedJob
  inflight : List QueuedJob

section Ticks

variable {σ : Type} [JobQueue σ]

/-- A scheduler that has not ticked yet. -/
def TickState.init (queue : σ) : TickState σ := ⟨queue, [], []⟩

/-- `_reserve_capacity_by_backend`, whose calls are made in this order. -/
def reserveCapacity (settings : Settings) (world : TickWorld σ) :
    Except PyError Capacity := do
  let comfyActive ← world.comfyActive
  let geminiActive ← world.geminiActive
  let workers ← world.workers
  pure (settings.reserveCapacityByBackend comfyActive geminiActive workers)

/-- The claims of `_tick`.  `claimed` is what they have returned so far. -/
def claimLanes (settings : Settings) (ownerId : String) (capacity : Capacity)
    (world : TickWorld σ) :
    List Backend → List QueuedJob → TickState σ →
      TickState σ × Except PyError (List QueuedJob)
  | [], claimed, s => (s, .ok claimed)
  | backend :: rest, claimed, s =>
      let queue := (world.lane backend).others s.queue
      match claimForBackend settings ownerId backend (capacity.lane backend) with
      | none =>
          claimLanes settings ownerId capacity world rest claimed
            { s with queue := queue }
      | some req =>
          let r := JobQueue.claimNextWithLease req (world.lane backend).locked
            (world.lane backend).now queue
          match (world.lane backend).ending with
          | .answered =>
              claimLanes settings ownerId capacity world rest (claimed ++ r.2)
                { s with queue := r.1, moved := s.moved ++ r.2 }
          | .refused exc => ({ s with queue := queue }, .error exc)
          | .lost exc =>
              ({ s with queue := r.1, moved := s.moved ++ r.2 }, .error exc)

/-- `_tick`, whose exception `run_forever` logs. -/
def tick (settings : Settings) (ownerId : String) (s : TickState σ)
    (world : TickWorld σ) : TickState σ :=
  match reserveCapacity settings world with
  | .error _ => s
  | .ok capacity =>
      match claimLanes settings ownerId capacity world [.comfyui, .gemini] [] s with
      | (t, .ok claimed) => { t with inflight := t.inflight ++ claimed }
      | (t, .error _) => t

/-- `run_forever`. -/
def runForever (σ : Type) [JobQueue σ] (settings : Settings) (ownerId : String) :
    Machine (TickState σ) (TickWorld σ) :=
  ⟨fun s world => some (tick settings ownerId s world)⟩

/-! ## What is handed on -/

/-- Every job that the scheduler has claimed has been handed to `_dispatch`. -/
def AllHanded (s : TickState σ) : Prop := s.inflight = s.moved

/-- No claim of these lanes raises once the tick has moved a job; `holding` says
that it has. -/
def raisesEmptyHanded (settings : Settings) (ownerId : String) (capacity : Capacity)
    (world : TickWorld σ) : List Backend → Bool → σ → Bool
  | [], _, _ => true
  | backend :: rest, holding, q =>
      let queue := (world.lane backend).others q
      match claimForBackend settings ownerId backend (capacity.lane backend) with
      | none =>
          raisesEmptyHanded settings ownerId capacity world rest holding queue
      | some req =>
          let r := JobQueue.claimNextWithLease req (world.lane backend).locked
            (world.lane backend).now queue
          match (world.lane backend).ending with
          | .answered =>
              raisesEmptyHanded settings ownerId capacity world rest
                (holding || !r.2.isEmpty) r.1
          | .refused _ => !holding
          | .lost _ => !holding && r.2.isEmpty

/-- No claim of the tick raises once the tick has moved a job. -/
def failsEmptyHanded (settings : Settings) (ownerId : String) (s : TickState σ)
    (world : TickWorld σ) : Bool :=
  match reserveCapacity settings world with
  | .error _ => true
  | .ok capacity =>
      raisesEmptyHanded settings ownerId capacity world [.comfyui, .gemini] false
        s.queue

/-- What the claims leave in flight is what was there before. -/
theorem inflight_claimLanes (settings : Settings) (ownerId : String)
    (capacity : Capacity) (world : TickWorld σ) (lanes : List Backend) :
    ∀ (claimed : List QueuedJob) (s : TickState σ),
      (claimLanes settings ownerId capacity world lanes claimed s).1.inflight =
        s.inflight := by
  induction lanes with
  | nil => exact fun _ _ => rfl
  | cons backend rest ih =>
      intro claimed s
      rw [claimLanes]
      dsimp only
      split
      · rw [ih]
      · split
        · rw [ih]
        · rfl
        · rfl

/-- The loop gives back what its claims have moved; an exception loses nothing only
if they have moved nothing. -/
theorem claimLanes_moved (settings : Settings) (ownerId : String)
    (capacity : Capacity) (world : TickWorld σ) (lanes : List Backend) :
    ∀ (before claimed : List QueuedJob) (s : TickState σ),
      s.moved = before ++ claimed →
      match claimLanes settings ownerId capacity world lanes claimed s with
      | (t, .ok claimed') => t.moved = before ++ claimed' ∧
          raisesEmptyHanded settings ownerId capacity world lanes
            (!claimed.isEmpty) s.queue = true
      | (t, .error _) => (t.moved = before ↔
          raisesEmptyHanded settings ownerId capacity world lanes
            (!claimed.isEmpty) s.queue = true) := by
  induction lanes with
  | nil =>
      intro before claimed s hs
      exact ⟨hs, rfl⟩
  | cons backend rest ih =>
      intro before claimed s hs
      rw [claimLanes, raisesEmptyHanded]
      dsimp only
      cases hreq : claimForBackend settings ownerId backend (capacity.lane backend)
        with
      | none =>
          exact ih before claimed
            { s with queue := (world.lane backend).others s.queue } hs
      | some req =>
          dsimp only
          generalize JobQueue.claimNextWithLease req (world.lane backend).locked
            (world.lane backend).now ((world.lane backend).others s.queue) = r
          have hempty : (s.moved = before ↔ claimed.isEmpty = true) := by
            rw [hs, List.isEmpty_iff]
            exact List.append_right_eq_self
          cases hend : (world.lane backend).ending with
          | answered =>
              have hrest := ih before (claimed ++ r.2)
                { s with queue := r.1, moved := s.moved ++ r.2 }
                (by show s.moved ++ r.2 = _; rw [hs, List.append_assoc])
              have hholding : (!(claimed ++ r.2).isEmpty) =
                  (!claimed.isEmpty || !r.2.isEmpty) := by
                cases claimed <;> simp
              rw [hholding] at hrest
              exact hrest
          | refused exc =>
              show s.moved = before ↔ (!(!claimed.isEmpty)) = true
              rw [hempty, Bool.not_not]
          | lost exc =>
              show s.moved ++ r.2 = before ↔
                (!(!claimed.isEmpty) && r.2.isEmpty) = true
              rw [Bool.not_not, hs, List.append_assoc, Bool.and_eq_true,
                List.isEmpty_iff, List.isEmpty_iff]
              simp

/-- A tick hands on every job it claims if and only if none of its claims raises
once it has moved a job. -/
theorem allHanded_tick_iff {settings : Settings} {ownerId : String}
    {s : TickState σ} {world : TickWorld σ} (hs : AllHanded s) :
    AllHanded (tick settings ownerId s world) ↔
      failsEmptyHanded settings ownerId s world = true := by
  unfold tick failsEmptyHanded
  cases reserveCapacity settings world with
  | error exc => exact iff_of_true hs rfl
  | ok capacity =>
      have hmoved := claimLanes_moved settings ownerId capacity world
        [.comfyui, .gemini] s.moved [] s (List.append_nil _).symm
      have hinflight := inflight_claimLanes settings ownerId capacity world
        [.comfyui, .gemini] [] s
      dsimp only
      revert hmoved hinflight
      generalize claimLanes settings ownerId capacity world [.comfyui, .gemini] [] s
        = r
      obtain ⟨t, result⟩ := r
      intro hmoved hinflight
      replace hinflight : t.inflight = s.inflight := hinflight
      cases result with
      | ok claimed =>
          refine iff_of_true ?_ hmoved.2
          show t.inflight ++ claimed = t.moved
          rw [hinflight, hs, hmoved.1]
      | error exc =>
          refine Iff.trans ?_ hmoved
          show t.inflight = t.moved ↔ t.moved = s.moved
          rw [hinflight, hs]
          exact eq_comm

/-- Over any sequence of ticks, with anything happening to the queue in between,
every job that is claimed is handed to `_dispatch` if and only if no claim raises
once its tick has moved a job. -/
theorem allHanded_run (settings : Settings) (ownerId : String) (queue : σ)
    (worlds : List (TickWorld σ)) (t : TickState σ)
    (hrun : (runForever σ settings ownerId).exec (.init queue) worlds = some t) :
    (∀ pre post s, worlds = pre ++ post →
      (runForever σ settings ownerId).exec (.init queue) pre = some s →
      AllHanded s) ↔
    (runForever σ settings ownerId).Along
      (fun s world => failsEmptyHanded settings ownerId s world = true)
      (.init queue) worlds := by
  refine (Machine.along_iff (I := AllHanded) ?_ ?_ hrun).symm
  · intro s world t hs hstep
    obtain rfl : tick settings ownerId s world = t := Option.some.inj hstep
    exact allHanded_tick_iff hs
  · rfl

end Ticks

/-! ## The lane that fails after another one -/

/-- A queue with one job of the ComfyUI lane. -/
def oneJob : PostgresJobQueue :=
  PostgresJobQueue.empty.enqueue (newJob 7 1 "image_basic" "k" (.obj []) none 0)

/-- A tick whose claims end in the given ways. -/
def worldOf (comfyui gemini : ClaimEnd) : TickWorld PostgresJobQueue where
  comfyActive := .ok 0
  geminiActive := .ok 0
  workers := .ok none
  lane backend :=
    { others := id
      locked := []
      now := 0
      ending := match backend with
        | .comfyui => comfyui
        | .gemini => gemini }

/-- The claim of the Gemini lane raises. -/
theorem not_allHanded :
    ¬ ∀ (settings : Settings) (ownerId : String) (queue : PostgresJobQueue)
      (worlds : List (TickWorld PostgresJobQueue)) (t : TickState PostgresJobQueue),
      (runForever PostgresJobQueue settings ownerId).exec (.init queue) worlds =
        some t → AllHanded t := by
  intro h
  have hhanded := h {} "s" oneJob [worldOf .answered (.refused "OperationalError")] _
    rfl
  have hids : ((tick {} "s" (.init oneJob)
      (worldOf .answered (.refused "OperationalError"))).inflight.map QueuedJob.id,
      (tick {} "s" (.init oneJob)
        (worldOf .answered (.refused "OperationalError"))).moved.map QueuedJob.id) =
      ([], [7]) := by decide +kernel
  obtain ⟨hinflight, hmoved⟩ := Prod.mk.inj hids
  have heq := congrArg (List.map QueuedJob.id) hhanded
  rw [show List.map QueuedJob.id _ = [] from hinflight,
    show List.map QueuedJob.id _ = [7] from hmoved] at heq
  cases heq

/-- The claim of the ComfyUI lane raises, and the next tick makes up for it. -/
theorem allHanded_run_refused :
    ∃ s, (runForever PostgresJobQueue {} "s").exec (.init oneJob)
      [worldOf (.refused "OperationalError") .answered, worldOf .answered .answered] =
        some s ∧ AllHanded s := by
  have hall := (allHanded_run {} "s" oneJob
    [worldOf (.refused "OperationalError") .answered, worldOf .answered .answered]
    _ rfl).mpr (by decide +kernel)
  exact ⟨_, rfl, hall _ [] _ (List.append_nil _).symm rfl⟩

end Scheduler

end Imagin4.Ports
