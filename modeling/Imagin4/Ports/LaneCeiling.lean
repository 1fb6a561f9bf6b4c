import Imagin4.Ports.ActiveJobs
import Imagin4.Ports.JobLives

/-!
# The ceilings of the lanes

`Scheduler._reserve_capacity_by_backend` counts the active jobs of a lane in
one transaction and claims up to its ceiling in another.  What the claim may
add was computed from the earlier count, so two schedulers that count before
either claims fill the lane twice.  The ceilings hold while every claim finds
no more jobs active than its scheduler has counted, and while `mark_running`
wakes no waiting job.

## Main results

* `fills_claim` — a claim raises the count of its own lane, by at most its
  capacity.
* `withinCeilings_step`, `withinCeilings_run` — the ceilings of a step and of
  a run.
* `not_withinCeilings` — two schedulers and one slot.
-/

namespace Imagin4.Ports

open Imagin4.Verified

namespace PostgresJobQueue

theorem countActive_congr {q r : PostgresJobQueue}
    (h : q.generationJobs = r.generationJobs) (kinds : Option (List String)) :
    q.countActive kinds = r.countActive kinds :=
  countRows_congr h _

theorem occupied_countActive (kinds : Option (List String)) :
    Occupied (fun g => g.state.isActive && kindAllowed kinds g.kind) := by
  intro g g' _ _ hkind hactive hp
  simp only [Bool.and_eq_true, hkind] at hp ⊢
  exact ⟨hactive hp.1, hp.2⟩

/-! ## What a claim may add -/

/-- A claim raises the count of its own lane by what it hands out, and no
count of jobs of other kinds. -/
structure Fills (capacity : Nat) (claimed : Option (List String))
    (q : PostgresJobQueue) (r : PostgresJobQueue × List QueuedJob) :
    Prop where
  own : ∀ kinds, r.1.countActive kinds ≤ q.countActive kinds + capacity
  other : ∀ kinds, (∀ kind, kindAllowed claimed kind = true →
      kindAllowed kinds kind = false) →
    r.1.countActive kinds ≤ q.countActive kinds

theorem fills_nil (capacity : Nat) (claimed : Option (List String))
    (q : PostgresJobQueue) : Fills capacity claimed q (q, []) where
  own _ := Nat.le_add_right _ _
  other _ _ := Nat.le_refl _

theorem kind_of_eligible {kinds : Option (List String)} {locked : List Uuid}
    {now : DateTime} {g : JobRow}
    (h : eligible kinds locked now g = true) :
    kindAllowed kinds g.kind = true := by
  simp only [eligible, Bool.and_eq_true] at h
  exact h.1.2

/-- Dispatching some rows raises no count by more than their number. -/
theorem countActive_dispatchRows_le (ids : List Uuid) (q : PostgresJobQueue)
    (kinds : Option (List String)) :
    (q.dispatchRows ids).countActive kinds ≤
      q.countActive kinds + ids.length :=
  q.generationJobs.countP_modifyWhere_mem_le ids
    (fun g => { g with state := .dispatched }) (fun _ => rfl) _

/-- Dispatching rows of other kinds raises no count. -/
theorem countActive_dispatchRows_other {ids : List Uuid}
    {q : PostgresJobQueue} {kinds : Option (List String)}
    (h : ∀ g ∈ q.generationJobs, g.id ∈ ids →
      kindAllowed kinds g.kind = false) :
    (q.dispatchRows ids).countActive kinds ≤ q.countActive kinds := by
  refine @Table.countP_modifyWhere_le _ _ JobRow.id q.generationJobs _
    (fun g => { g with state := .dispatched }) (fun _ => rfl) _
    (fun g hg hid hp => ?_)
  have hkind := h g hg (of_decide_eq_true hid)
  simp [hkind] at hp

theorem fills_claimBatch (req : ClaimRequest) (locked : List Uuid)
    (now : DateTime) (q : PostgresJobQueue) :
    Fills req.workerCapacity req.kinds q (q.claimBatch req locked now) := by
  unfold claimBatch
  generalize hpicked : (q.ordered now (eligible req.kinds locked now)).take
    req.workerCapacity = picked
  have hlength : picked.length ≤ req.workerCapacity := by
    rw [← hpicked]
    exact List.length_take_le _ _
  have hmem : ∀ g ∈ picked, g ∈ q.generationJobs ∧
      eligible req.kinds locked now g = true := by
    intro g hg
    rw [← hpicked] at hg
    exact mem_ordered.mp (List.mem_of_mem_take hg)
  constructor
  · intro kinds
    dsimp only
    rw [countActive_congr (generationJobs_foldl_recordAttempt _ _ _ _)]
    refine Nat.le_trans (countActive_dispatchRows_le _ q kinds) ?_
    simpa using hlength
  · intro kinds hother
    dsimp only
    rw [countActive_congr (generationJobs_foldl_recordAttempt _ _ _ _)]
    refine countActive_dispatchRows_other (fun g hg hid => ?_)
    rw [List.map_map] at hid
    obtain ⟨g', hg', heq⟩ := List.mem_map.mp hid
    obtain ⟨hrow, helig⟩ := hmem g' hg'
    obtain rfl : g' = g := Table.eq_of_key_eq hrow hg heq
    exact hother g'.kind (kind_of_eligible helig)

theorem fills_claimCapped (req : ClaimRequest) (locked : List Uuid)
    (now : DateTime) (n : Nat) :
    ∀ q : PostgresJobQueue,
      Fills n req.kinds q (q.claimCapped req locked now n) := by
  induction n with
  | zero => exact fills_nil 0 req.kinds
  | succ n ih =>
      intro q
      rw [claimCapped]
      cases hnext : q.nextCapped req locked now with
      | none => exact fills_nil (n + 1) req.kinds q
      | some row =>
          obtain ⟨hrow, helig, _⟩ := of_nextCapped hnext
          dsimp only
          generalize hq : (q.dispatchRows [row.id]).recordAttempt _ _ _ = q₁
          have hcount : ∀ kinds, q₁.countActive kinds =
              (q.dispatchRows [row.id]).countActive kinds := by
            intro kinds
            rw [← hq]
            rfl
          have hrest := ih q₁
          constructor
          · intro kinds
            have hone := countActive_dispatchRows_le [row.id] q kinds
            have hmore := hrest.own kinds
            rw [hcount] at hmore
            simp only [List.length_singleton] at hone
            dsimp only
            omega
          · intro kinds hother
            refine Nat.le_trans (hrest.other kinds hother) ?_
            rw [hcount]
            refine countActive_dispatchRows_other (fun g hg hid => ?_)
            obtain rfl : g = row := Table.eq_of_key_eq hg
              (Table.find?_eq_some_iff.mp hrow).1 (List.mem_singleton.mp hid)
            exact hother g.kind (kind_of_eligible helig)

/-- Both claim paths stay within their capacity and their lane. -/
theorem fills_claim (req : ClaimRequest) (locked : List Uuid) (now : DateTime)
    (q : PostgresJobQueue) :
    Fills req.workerCapacity req.kinds q (q.claim req locked now) := by
  unfold claim
  split
  · exact fills_nil _ _ q
  · split
    · exact fills_claimBatch req locked now q
    · exact fills_claimCapped req locked now _ q

end PostgresJobQueue

/-! ## The ceilings -/

/-- No lane has more active jobs than its ceiling. -/
def WithinCeilings (settings : Settings) (s : Sys PostgresJobQueue) : Prop :=
  ∀ lane, (s.queue.countActive (some (kindsForBackend lane)) : Int) ≤
    settings.slots lane

/-- A scheduler that claims on a lane finds no more of its jobs active than it
has counted. -/
def countStillHolds (settings : Settings) (s : Sys PostgresJobQueue) :
    Action → Bool
  | .claimLane i _ =>
      match s.schedulers i with
      | .claiming comfyActive geminiActive _ (lane :: _) =>
          (laneRequest settings s i).isNone ||
            decide (s.queue.countActive (some (kindsForBackend lane)) ≤
              countOf comfyActive geminiActive lane)
      | _ => true
  | _ => true

/-- `mark_running` finds its job active, or ended. -/
def wakesNoJob (settings : Settings) (s : Sys PostgresJobQueue) (a : Action) :
    Bool :=
  match callOf settings s a with
  | some (.markRunning id, _) =>
      match JobQueue.life s.queue id with
      | some l => l.state.isActive || l.state.isTerminal
      | none => true
  | _ => true

/-- What `_claim_for_backend` asks for is what the budget of its lane
allows. -/
theorem of_laneRequest {σ : Type} [JobQueue σ] {settings : Settings}
    {s : Sys σ} {i : Nat} {req : ClaimRequest}
    (h : laneRequest settings s i = some req) :
    ∃ comfyActive geminiActive workers lane lanes,
      s.schedulers i =
        .claiming comfyActive geminiActive workers (lane :: lanes) ∧
      req.kinds = some (kindsForBackend lane) ∧
      (req.workerCapacity : Int) ≤
        settings.slots lane - countOf comfyActive geminiActive lane := by
  unfold laneRequest at h
  split at h
  · rename_i comfyActive geminiActive workers lane lanes hscheduler
    refine ⟨comfyActive, geminiActive, workers, lane, lanes, hscheduler, ?_⟩
    unfold claimForBackend at h
    dsimp only at h
    split at h
    · cases h
    · rename_i hpositive
      cases h
      have hle := reserve_le settings comfyActive geminiActive workers lane
      refine ⟨rfl, ?_⟩
      dsimp only
      omega
  · cases h

section Step

variable {settings : Settings} {s t : Sys PostgresJobQueue} {a : Action}

/-- A step that meets the conditions keeps the ceilings. -/
theorem withinCeilings_step (hs : WithinCeilings settings s)
    (hcount : countStillHolds settings s a = true)
    (hwake : wakesNoJob settings s a = true)
    (h : step settings s a = some t) : WithinCeilings settings t := by
  intro lane
  have hbefore := hs lane
  cases step_move h with
  | quiet _ _ hqueue =>
      rw [hqueue]
      exact hbefore
  | enqueue job _ hadmitted =>
      have hsame : (s.queue.enqueue job).countActive
          (some (kindsForBackend lane)) =
          s.queue.countActive (some (kindsForBackend lane)) := by
        refine PostgresJobQueue.countRows_enqueue (fun g _ hstate => ?_) s.queue
        simp [hstate, (life_of_admitted hadmitted).1, JobState.isActive]
      show ((s.queue.enqueue job).countActive _ : Int) ≤ _
      rw [hsame]
      exact hbefore
  | claim _ i req locked ha hreq hqueue =>
      subst ha
      obtain ⟨comfyActive, geminiActive, workers, own, lanes, hscheduler,
        hkinds, hcapacity⟩ := of_laneRequest hreq
      have hfills := PostgresJobQueue.fills_claim req locked s.now s.queue
      rw [hkinds] at hfills
      have hqueue' : t.queue = (s.queue.claim req locked s.now).1 := hqueue
      rw [hqueue']
      by_cases hlane : lane = own
      · -- the lane of the claim: there is room for all it may take
        subst hlane
        have hadded := hfills.own (some (kindsForBackend lane))
        simp only [countStillHolds, hscheduler, hreq, Option.isNone_some,
          Bool.false_or, decide_eq_true_eq] at hcount
        omega
      · have hother := hfills.other (some (kindsForBackend lane))
          (fun kind hkind => ?_)
        · omega
        · simp only [kindAllowed, decide_eq_true_eq, decide_eq_false_iff_not]
            at hkind ⊢
          exact fun hmem => hlane (kindsForBackend_disjoint hmem hkind)
  | call u c attempt hcall _ hnow hqueue =>
      have hle := PostgresJobQueue.countRows_apply_le
        (PostgresJobQueue.occupied_countActive (some (kindsForBackend lane))) c
        s.now s.queue (fun id l hc hl hlive => ?_)
      · have hqueue' : (u.call c attempt).queue = c.apply s.now s.queue := by
          show c.apply u.now u.queue = _
          rw [hqueue, hnow]
        rw [hqueue']
        exact Int.le_trans (Int.ofNat_le.mpr hle) hbefore
      · subst hc
        simpa [wakesNoJob, hcall, hl, hlive] using hwake

/-- From a queue within the ceilings, any number of schedulers stay within
them as long as each claims on a count that still holds and `mark_running`
wakes no waiting job. -/
theorem withinCeilings_run (settings : Settings) (queue : PostgresJobQueue)
    (as : List Action) (t : Sys PostgresJobQueue)
    (hstart : WithinCeilings settings (.init queue))
    (halong : (system PostgresJobQueue settings).Along
      (fun s a => countStillHolds settings s a = true ∧
        wakesNoJob settings s a = true) (.init queue) as)
    (hrun : (system PostgresJobQueue settings).exec (.init queue) as =
      some t) : WithinCeilings settings t :=
  Machine.invariant (I := WithinCeilings settings)
    (fun _ _ _ hs hcond h => withinCeilings_step hs hcond.1 hcond.2 h)
    hstart halong hrun

end Step

/-! ## Two schedulers -/

/-- Two users have enqueued a job each. -/
def twoJobs : List Action :=
  [.enqueue (newJob 7 1 "image_basic" "k" (.obj []) none 0),
    .enqueue (newJob 8 2 "image_basic" "k" (.obj []) none 0)]

/-- Both schedulers count before either claims. -/
def bothCount : List Action :=
  twoJobs ++ [.countComfy 0, .countGemini 0 none, .countComfy 1,
    .countGemini 1 none, .claimLane 0 [], .claimLane 1 []]

theorem not_withinCeilings :
    ¬ ∀ (settings : Settings) (queue : PostgresJobQueue) (as : List Action)
      (t : Sys PostgresJobQueue), WithinCeilings settings (.init queue) →
      (system PostgresJobQueue settings).exec (.init queue) as = some t →
      WithinCeilings settings t := by
  intro h
  have hrun : ((system PostgresJobQueue {}).exec (.init .empty)
      bothCount).map (fun t => t.queue.countActive
        (some (kindsForBackend .comfyui))) = some 2 := by
    decide +kernel
  obtain ⟨t, ht, hcount⟩ := Option.map_eq_some_iff.mp hrun
  have hstart : WithinCeilings {} (.init .empty) := by
    intro lane
    cases lane <;> decide
  have hle := h {} .empty bothCount t hstart ht .comfyui
  rw [hcount] at hle
  exact absurd hle (by decide)

/-- The second scheduler counts after the first has claimed. -/
theorem withinCeilings_run_inTurn :
    ∃ t : Sys PostgresJobQueue,
      (system PostgresJobQueue {}).exec (.init .empty)
        (twoJobs ++ tick 0 ++ tick 1 ++ [.markRunning 0]) = some t ∧
      WithinCeilings {} t := by
  have hsome : ((system PostgresJobQueue {}).exec (.init .empty)
      (twoJobs ++ tick 0 ++ tick 1 ++ [.markRunning 0])).isSome = true := by
    decide +kernel
  obtain ⟨t, ht⟩ := Option.isSome_iff_exists.mp hsome
  refine ⟨t, ht, withinCeilings_run {} .empty _ t ?_ (by decide +kernel) ht⟩
  intro lane
  cases lane <;> decide

end Imagin4.Ports
