import Imagin4.Ports.JobQueue
import Imagin4.Ports.Settings
import Imagin4.Ports.WorkflowRegistry

/-!
# The scheduler's decisions

The parts of `app/services/scheduler.py` that only compute: how many jobs a
tick may claim on each backend, and what it asks the queue for.  The steps a
scheduler takes around them are in `Imagin4.Ports.JobSystem`.

## Main results

* `reserve_le` — what a tick may claim on a lane, together with what was active
  when it looked, stays inside the ceiling of the lane.
-/

namespace Imagin4.Ports

/-- `DEFAULT_LEASE_SECONDS`, in the scheduler and in the reconciler. -/
def defaultLeaseSeconds : Rat := 120

/-- The states of the `comfy_workers` rows, or `none` without a session
factory. -/
abbrev WorkerStatuses := Option (List String)

/-- `_reserve_capacity_by_backend`'s dictionary. -/
structure Capacity where
  comfyui : Int
  gemini : Int

namespace Settings

variable (settings : Settings)

/-- `comfy_slots`: the ceiling of the ComfyUI lane. -/
def comfySlots : Int :=
  settings.defaultComfyActiveSlots + max 0 settings.comfyPendingBuffer

/-- The ceiling of a lane. -/
def slots : Backend → Int
  | .comfyui => settings.comfySlots
  | .gemini => settings.defaultGeminiActiveSlots

/-- `_reserve_capacity_by_backend`, from the two counts it reads. -/
def reserveCapacityByBackend (comfyActive geminiActive : Nat)
    (workers : WorkerStatuses) : Capacity :=
  let comfyBudget := max 0 (settings.comfySlots - comfyActive)
  let geminiBudget := max 0 (settings.defaultGeminiActiveSlots - geminiActive)
  match workers with
  | none => ⟨comfyBudget, geminiBudget⟩
  | some rows =>
      let online := rows.any (fun status => status = "online")
      if !online && !rows.isEmpty then ⟨0, geminiBudget⟩
      else if rows.isEmpty then ⟨comfyBudget, geminiBudget⟩
      else ⟨comfyBudget, geminiBudget⟩

end Settings

/-- The capacity of one lane. -/
def Capacity.lane (c : Capacity) : Backend → Int
  | .comfyui => c.comfyui
  | .gemini => c.gemini

/-- The count a tick has read for a lane. -/
def countOf (comfyActive geminiActive : Nat) : Backend → Nat
  | .comfyui => comfyActive
  | .gemini => geminiActive

/-- A tick may fill a lane up to its ceiling and no further. -/
theorem reserve_le (settings : Settings) (comfyActive geminiActive : Nat)
    (workers : WorkerStatuses) (lane : Backend) :
    ((settings.reserveCapacityByBackend comfyActive geminiActive
      workers).lane lane) ≤
      max 0 (settings.slots lane - countOf comfyActive geminiActive lane) := by
  unfold Settings.reserveCapacityByBackend
  cases workers with
  | none => cases lane <;> exact Int.le_refl _
  | some rows =>
      dsimp only
      split
      · cases lane
        · exact Int.le_max_left _ _
        · exact Int.le_refl _
      · split <;> cases lane <;> exact Int.le_refl _

/-- What `_claim_for_backend` asks for; it asks for nothing without
capacity. -/
def claimForBackend (settings : Settings) (ownerId : String)
    (backend : Backend) (capacity : Int) : Option ClaimRequest :=
  if capacity ≤ 0 then none
  else some
    { workerCapacity := capacity.toNat
      leaseOwner := ownerId
      leaseSeconds := defaultLeaseSeconds
      kinds := some (kindsForBackend backend)
      maxActivePerUser := settings.maxActiveJobsPerUser }

end Imagin4.Ports
