import Mathlib.Data.List.Basic
import Imagin4.Verified.Machine

/-!
# The admission gate

`AdmissionGate` of `app/core/rate_limit.py`, and `check_admission_capacity` around a
request: `INCR` and `EXPIRE` on the way in, one `DECR` on the way out, in whatever
order those of different requests come.  Redis answers every command; it forgets the
counter when its time to live has run out, and a `DECR` makes a new one, at -1 and
without a time to live.

Only an acquire renews the time to live, so that nothing keeps the counter while
requests are running and none comes in.

## Main results

* `gateKept_step` — the counter counts the requests in flight, as long as it is not
  dropped under them.
* `gate_run` — no more than `max_inflight` requests, and no negative counter.
* `drained` — after a drop, the counter goes as far below zero as requests were in
  flight.
* `not_gate` — a request that outlives the counter.
-/

namespace Imagin4.Ports

open Imagin4.Verified

/-! ## The counter -/

/-- A key of Redis: its value, and when it expires, in seconds. -/
structure RedisCounter where
  value : Int
  expiresAt : Option Int

/-- The settings of the gate. -/
structure AdmissionGate where
  maxInflight : Int
  ttlSeconds : Int

/-- A request that has called `INCR` and not yet `DECR`. -/
inductive InFlight where
  /-- `INCR` has answered; `EXPIRE` comes next. -/
  | counted (count : Int)
  /-- `try_acquire` goes back: `DECR`, and a 503. -/
  | refusing
  /-- The request is running. -/
  | admitted
deriving DecidableEq

/-- The counter, the clock of Redis, and the requests in flight. -/
structure GateState where
  counter : Option RedisCounter
  clock : Int
  requests : List InFlight

namespace GateState

/-- Before the first request. -/
def init : GateState := ⟨none, 0, []⟩

/-- The value of the key, which counts as 0 while there is none. -/
def value (s : GateState) : Int := (s.counter.map RedisCounter.value).getD 0

/-- `INCRBY`. -/
def add (n : Int) (s : GateState) : Option RedisCounter :=
  some ⟨s.value + n, s.counter.bind RedisCounter.expiresAt⟩

/-- `EXPIRE`, which deletes the key if there is no time left. -/
def expire (ttl : Int) (s : GateState) : Option RedisCounter :=
  if ttl ≤ 0 then none
  else s.counter.map (fun k => { k with expiresAt := some (s.clock + ttl) })

/-- What is there of the key at a time. -/
def keyAt (s : GateState) (now : Int) : Option RedisCounter :=
  s.counter.filter (fun k => k.expiresAt.all (fun expiresAt => now ≤ expiresAt))

end GateState

/-! ## Steps -/

/-- A request comes in, calls `EXPIRE`, and goes out with `DECR`; time passes. -/
inductive GateAction where
  | acquire
  | refresh (i : Nat)
  | release (i : Nat)
  | wait (seconds : Nat)

section Steps

variable (gate : AdmissionGate)

/-- The end of `try_acquire`. -/
def decision (count : Int) : InFlight :=
  if gate.maxInflight < count then .refusing else .admitted

/-- The steps.  A gate that is switched off lets a request in without a command, but
not out. -/
def gateStep (s : GateState) : GateAction → Option GateState
  | .acquire =>
      if gate.maxInflight ≤ 0 then some { s with requests := s.requests ++ [.admitted] }
      else
        some { s with
          counter := s.add 1
          requests := s.requests ++ [.counted (s.value + 1)] }
  | .refresh i =>
      match s.requests[i]? with
      | some (.counted count) =>
          some { s with
            counter := s.expire gate.ttlSeconds
            requests := s.requests.set i (decision gate count) }
      | _ => none
  | .release i =>
      match s.requests[i]? with
      | some .refusing | some .admitted =>
          some { s with
            counter := s.add (-1)
            requests := s.requests.eraseIdx i }
      | _ => none
  | .wait seconds =>
      some { s with
        counter := s.keyAt (s.clock + seconds)
        clock := s.clock + seconds }

/-- Requests in any order. -/
def gateRequests : Machine GateState GateAction where
  step := gateStep gate

/-- The step drops the counter, while a request is in flight. -/
def dropsCounter (s : GateState) : GateAction → Bool
  | .refresh _ => gate.ttlSeconds ≤ 0
  | .wait seconds =>
      !s.requests.isEmpty && s.counter.isSome &&
        (s.keyAt (s.clock + seconds)).isNone
  | _ => false

/-! ## What the gate is for -/

/-- The requests that have been admitted and not yet released. -/
def admittedCount (s : GateState) : Nat := s.requests.countP (fun r => r = .admitted)

/-- No more requests than `max_inflight`, and nothing left of them on the counter when
none is in flight. -/
structure GateHolds (s : GateState) : Prop where
  bounded : (admittedCount s : Int) ≤ gate.maxInflight
  idle : s.requests = [] → ∀ k, s.counter = some k → k.value = 0

/-- The request is in, or about to be. -/
def isIn : InFlight → Bool
  | .counted count => count ≤ gate.maxInflight
  | .refusing => false
  | .admitted => true

/-- What every step keeps that does not drop the counter: it counts the requests in
flight. -/
structure GateKept (s : GateState) : Prop where
  counts : s.value = s.requests.length
  bounded : (s.requests.countP (isIn gate) : Int) ≤ gate.maxInflight

end Steps

variable {gate : AdmissionGate}

theorem gateKept_init (hmax : 0 < gate.maxInflight) : GateKept gate .init where
  counts := rfl
  bounded := Int.le_of_lt hmax

theorem isIn_decision (count : Int) :
    isIn gate (decision gate count) = isIn gate (.counted count) := by
  unfold decision
  by_cases h : gate.maxInflight < count
  · rw [if_pos h]
    exact (decide_eq_false (by omega)).symm
  · rw [if_neg h]
    exact (decide_eq_true (by omega)).symm

/-- A request that changes its place and not whether it is in. -/
theorem countP_set_of_eq {α : Type} {p : α → Bool} {x y : α} (h : p y = p x)
    (xs : List α) : ∀ {i : Nat}, xs[i]? = some x →
      (xs.set i y).countP p = xs.countP p := by
  induction xs with
  | nil =>
      intro i hx
      cases hx
  | cons z xs ih =>
      intro i hx
      cases i with
      | zero =>
          obtain rfl := Option.some.inj hx
          rw [List.set_cons_zero, List.countP_cons, List.countP_cons, h]
      | succ i =>
          rw [List.set_cons_succ, List.countP_cons, List.countP_cons, ih hx]

theorem gateHolds_of_kept {s : GateState} (h : GateKept gate s) : GateHolds gate s where
  bounded := by
    have hle : admittedCount s ≤ s.requests.countP (isIn gate) := by
      refine List.countP_mono_left (fun r _ hr => ?_)
      rw [of_decide_eq_true hr]
      rfl
    have hbounded := h.bounded
    omega
  idle hidle k hk := by
    have hcounts := h.counts
    unfold GateState.value at hcounts
    rw [hk, hidle] at hcounts
    exact hcounts

/-- A request that goes out takes its own count along. -/
theorem gateKept_release {s : GateState} (h : GateKept gate s) {i : Nat}
    (hi : i < s.requests.length) :
    GateKept gate
      { s with counter := s.add (-1), requests := s.requests.eraseIdx i } where
  counts := by
    have hcounts := h.counts
    have hlength := List.length_eraseIdx_of_lt hi
    show s.value + -1 = ((s.requests.eraseIdx i).length : Int)
    omega
  bounded := by
    have hle : (s.requests.eraseIdx i).countP (isIn gate) ≤
        s.requests.countP (isIn gate) :=
      (List.eraseIdx_sublist ..).countP_le
    have hbounded := h.bounded
    show ((s.requests.eraseIdx i).countP (isIn gate) : Int) ≤ gate.maxInflight
    omega

/-- A request that comes in is counted with all the others. -/
theorem gateKept_acquire {s : GateState} (h : GateKept gate s) :
    GateKept gate
      { s with
        counter := s.add 1
        requests := s.requests ++ [.counted (s.value + 1)] } where
  counts := by
    have hcounts := h.counts
    show s.value + 1 = ((s.requests ++ [InFlight.counted (s.value + 1)]).length : Int)
    rw [List.length_append, List.length_singleton]
    omega
  bounded := by
    have hcounts := h.counts
    have hbounded := h.bounded
    have hle : s.requests.countP (isIn gate) ≤ s.requests.length :=
      List.countP_le_length
    show ((s.requests ++ [InFlight.counted (s.value + 1)]).countP (isIn gate) : Int) ≤
      gate.maxInflight
    rw [List.countP_append, List.countP_singleton]
    by_cases hin : isIn gate (.counted (s.value + 1)) = true
    · have hcount : s.value + 1 ≤ gate.maxInflight := of_decide_eq_true hin
      rw [if_pos hin]
      omega
    · rw [if_neg hin]
      omega

/-- `EXPIRE` with time left keeps the value. -/
theorem value_expire {s : GateState} {ttl : Int} (httl : 0 < ttl) :
    ((s.expire ttl).map RedisCounter.value).getD 0 = s.value := by
  unfold GateState.expire GateState.value
  rw [if_neg (by omega)]
  cases s.counter <;> rfl

/-- Time that does not drop the counter keeps it, and time without requests in
flight keeps it empty. -/
theorem value_keyAt {s : GateState} {now : Int}
    (h : s.value = 0 ∨ (s.counter.isSome && (s.keyAt now).isNone) = false) :
    ((s.keyAt now).map RedisCounter.value).getD 0 = s.value := by
  cases hkey : s.keyAt now with
  | some k =>
      obtain ⟨hcounter, _⟩ := Option.filter_eq_some_iff.mp hkey
      unfold GateState.value
      rw [hcounter]
  | none =>
      rw [hkey] at h
      show 0 = s.value
      rcases h with hzero | hnone
      · exact hzero.symm
      · have hcounter : s.counter = none := by
          cases hc : s.counter with
          | none => rfl
          | some k =>
              rw [hc] at hnone
              cases hnone
        unfold GateState.value
        rw [hcounter]
        rfl

/-- **One step** that does not drop the counter under the requests in flight. -/
theorem gateKept_step (hmax : 0 < gate.maxInflight) {s t : GateState} {a : GateAction}
    (h : GateKept gate s) (hdrop : dropsCounter gate s a = false)
    (hstep : (gateRequests gate).step s a = some t) : GateKept gate t := by
  have hstep : gateStep gate s a = some t := hstep
  cases a with
  | acquire =>
      simp only [gateStep] at hstep
      rw [if_neg (by omega)] at hstep
      obtain rfl := Option.some.inj hstep
      exact gateKept_acquire h
  | refresh i =>
      simp only [gateStep] at hstep
      split at hstep
      · rename_i count hrequest
        obtain rfl := Option.some.inj hstep
        have httl : 0 < gate.ttlSeconds := by
          have hnot : ¬ gate.ttlSeconds ≤ 0 := of_decide_eq_false hdrop
          omega
        refine ⟨?_, ?_⟩
        · show ((s.expire gate.ttlSeconds).map RedisCounter.value).getD 0 = _
          rw [value_expire httl, h.counts, List.length_set]
        · show ((s.requests.set i (decision gate count)).countP (isIn gate) : Int) ≤ _
          rw [countP_set_of_eq (isIn_decision count) s.requests hrequest]
          exact h.bounded
      · cases hstep
  | release i =>
      simp only [gateStep] at hstep
      split at hstep
      · rename_i hrequest
        obtain rfl := Option.some.inj hstep
        exact gateKept_release h (List.getElem?_eq_some_iff.mp hrequest).1
      · rename_i hrequest
        obtain rfl := Option.some.inj hstep
        exact gateKept_release h (List.getElem?_eq_some_iff.mp hrequest).1
      · cases hstep
  | wait seconds =>
      simp only [gateStep] at hstep
      obtain rfl := Option.some.inj hstep
      refine ⟨?_, h.bounded⟩
      show ((s.keyAt (s.clock + seconds)).map RedisCounter.value).getD 0 = _
      rw [value_keyAt, h.counts]
      cases hrequests : s.requests with
      | nil =>
          refine Or.inl ?_
          rw [h.counts, hrequests]
          rfl
      | cons r rest =>
          refine Or.inr ?_
          simpa [dropsCounter, hrequests] using hdrop

/-! ## After a drop -/

/-- The next request goes out. -/
theorem goes_out (httl : 0 < gate.ttlSeconds) {s : GateState} {r : InFlight}
    {rest : List InFlight} (hrequests : s.requests = r :: rest) :
    ∃ as t, (gateRequests gate).exec s as = some t ∧ t.requests = rest ∧
      t.value = s.value - 1 := by
  have hrelease : ∀ {s : GateState} {r : InFlight}, r = .refusing ∨ r = .admitted →
      s.requests = r :: rest → ∃ t, gateStep gate s (.release 0) = some t ∧
        t.requests = rest ∧ t.value = s.value - 1 := by
    rintro s r (rfl | rfl) hs
    · exact ⟨⟨s.add (-1), s.clock, rest⟩, by simp [gateStep, hs], rfl, rfl⟩
    · exact ⟨⟨s.add (-1), s.clock, rest⟩, by simp [gateStep, hs], rfl, rfl⟩
  cases r with
  | counted count =>
      have hdecision : decision gate count = .refusing ∨
          decision gate count = .admitted := by
        unfold decision
        split_ifs
        · exact Or.inl rfl
        · exact Or.inr rfl
      have hrefresh : gateStep gate s (.refresh 0) =
          some ⟨s.expire gate.ttlSeconds, s.clock, decision gate count :: rest⟩ := by
        simp [gateStep, hrequests]
      obtain ⟨t, ht, hrest, hvalue⟩ := hrelease
        (s := ⟨s.expire gate.ttlSeconds, s.clock, decision gate count :: rest⟩)
        hdecision rfl
      refine ⟨[.refresh 0, .release 0], t, ?_, hrest, ?_⟩
      · exact (Machine.exec_cons_eq_some _).mpr
          ⟨_, hrefresh, (Machine.exec_cons_eq_some _).mpr ⟨t, ht, rfl⟩⟩
      · rw [hvalue]
        exact congrArg (· - 1) (value_expire httl)
  | refusing =>
      obtain ⟨t, ht, hrest, hvalue⟩ := hrelease (Or.inl rfl) hrequests
      exact ⟨[.release 0], t, (Machine.exec_cons_eq_some _).mpr ⟨t, ht, rfl⟩, hrest,
        hvalue⟩
  | admitted =>
      obtain ⟨t, ht, hrest, hvalue⟩ := hrelease (Or.inr rfl) hrequests
      exact ⟨[.release 0], t, (Machine.exec_cons_eq_some _).mpr ⟨t, ht, rfl⟩, hrest,
        hvalue⟩

/-- All requests in flight go out, and each takes one from the counter. -/
theorem drained (httl : 0 < gate.ttlSeconds) (requests : List InFlight) :
    ∀ {s : GateState}, s.requests = requests →
      ∃ as t, (gateRequests gate).exec s as = some t ∧ t.requests = [] ∧
        t.value = s.value - requests.length := by
  induction requests with
  | nil =>
      intro s hs
      exact ⟨[], s, rfl, hs, (Int.sub_zero _).symm⟩
  | cons r rest ih =>
      intro s hs
      obtain ⟨as, q, hq, hrest, hvalue⟩ := goes_out httl hs
      obtain ⟨bs, t, ht, hnone, hdrained⟩ := ih hrest
      refine ⟨as ++ bs, t, (Machine.exec_append_eq_some _).mpr ⟨q, hq, ht⟩, hnone, ?_⟩
      rw [hdrained, hvalue, List.length_cons]
      omega

/-- A counter that is dropped under requests in flight comes to be negative: they need
only go out. -/
theorem negative_of_drop (httl : 0 < gate.ttlSeconds) {s : GateState} {seconds : Nat}
    (hdrop : dropsCounter gate s (.wait seconds) = true) :
    ∃ as t, (gateRequests gate).exec s (.wait seconds :: as) = some t ∧
      t.requests = [] ∧ t.value < 0 := by
  simp only [dropsCounter, Bool.and_eq_true, Bool.not_eq_true',
    Option.isNone_iff_eq_none] at hdrop
  obtain ⟨⟨hrequests, _⟩, hkey⟩ := hdrop
  have hpos : 0 < s.requests.length := by
    cases hs : s.requests with
    | nil =>
        rw [hs] at hrequests
        cases hrequests
    | cons r rest => exact Nat.succ_pos _
  obtain ⟨as, t, ht, hnone, hvalue⟩ := drained httl s.requests
    (s := ⟨s.keyAt (s.clock + seconds), s.clock + seconds, s.requests⟩) rfl
  refine ⟨as, t, (Machine.exec_cons_eq_some _).mpr ⟨_, rfl, ht⟩, hnone, ?_⟩
  have hzero : GateState.value
      ⟨s.keyAt (s.clock + seconds), s.clock + seconds, s.requests⟩ = 0 := by
    unfold GateState.value
    rw [hkey]
    rfl
  rw [hvalue, hzero]
  omega

/-! ## Every run -/

/-- In a run in which the counter is not dropped while a request is in flight, no more
than `max_inflight` requests are admitted and not yet released, and the counter is
zero or absent whenever none is in flight.  Dropping it then leads to a negative
counter as soon as those in flight are gone. -/
theorem gate_run (gate : AdmissionGate) (hmax : 0 < gate.maxInflight)
    (as : List GateAction) (t : GateState)
    (hrun : (gateRequests gate).exec .init as = some t)
    (hkeep : (gateRequests gate).Along (fun s a => dropsCounter gate s a = false) .init
      as) :
    GateHolds gate t ∧
      ∀ seconds, 0 < gate.ttlSeconds → dropsCounter gate t (.wait seconds) = true →
        ∃ bs u, (gateRequests gate).exec t (.wait seconds :: bs) = some u ∧
          u.requests = [] ∧ u.value < 0 ∧ ¬ GateHolds gate u := by
  have ht : GateKept gate t :=
    Machine.invariant (I := GateKept gate)
      (fun _ _ _ hs hdrop hstep => gateKept_step hmax hs hdrop hstep)
      (gateKept_init hmax) hkeep hrun
  refine ⟨gateHolds_of_kept ht, fun seconds httl hdrop => ?_⟩
  obtain ⟨bs, u, hu, hnone, hnegative⟩ := negative_of_drop httl hdrop
  refine ⟨bs, u, hu, hnone, hnegative, fun hholds => ?_⟩
  unfold GateState.value at hnegative
  cases hcounter : u.counter with
  | none =>
      rw [hcounter] at hnegative
      exact absurd hnegative (by decide)
  | some k =>
      have hzero : k.value = 0 := hholds.idle hnone k hcounter
      rw [hcounter] at hnegative
      exact absurd hnegative (by simp [hzero])

/-! ## A request that outlives the counter -/

/-- One request at a time, and the time to live of the settings. -/
def oneAtATime : AdmissionGate := ⟨1, 60⟩

/-- A request is running when another is refused, and a third is admitted after it. -/
def busyGate : List GateAction :=
  [.acquire, .refresh 0, .wait 50, .acquire, .refresh 1, .release 1, .wait 50,
    .release 0, .acquire, .refresh 0]

/-- The requests admitted, those in flight, and the counter at the end of a run. -/
def gateAfter (as : List GateAction) : Option (Nat × Nat × Int) :=
  ((gateRequests oneAtATime).exec .init as).map (fun s =>
    (admittedCount s, s.requests.length, s.value))

theorem gate_run_busy :
    ∃ t, (gateRequests oneAtATime).exec .init busyGate = some t ∧
      admittedCount t = 1 ∧ t.value = 1 ∧ GateHolds oneAtATime t := by
  have hafter : gateAfter busyGate = some (1, 1, 1) := by decide +kernel
  have hkeep : (gateRequests oneAtATime).Along
      (fun s a => dropsCounter oneAtATime s a = false) .init busyGate := by
    decide +kernel
  obtain ⟨t, ht, heq⟩ := Option.map_eq_some_iff.mp hafter
  have hholds := (gate_run oneAtATime (by decide) busyGate t ht hkeep).1
  exact ⟨t, ht, congrArg Prod.fst heq, congrArg (fun x => x.2.2) heq, hholds⟩

/-- A request runs for longer than the time to live, and another is let in beside it.
-/
def outlivedGate : List GateAction :=
  [.acquire, .refresh 0, .wait 61, .acquire, .refresh 1]

/-- Two requests are in where there is room for one, and when both are gone the counter
is at -1. -/
theorem not_gate :
    ∃ t u, (gateRequests oneAtATime).exec .init outlivedGate = some t ∧
      admittedCount t = 2 ∧ ¬ GateHolds oneAtATime t ∧
      (gateRequests oneAtATime).exec t [.release 0, .release 0] = some u ∧
      u.requests = [] ∧ u.value = -1 := by
  have hafter : gateAfter outlivedGate = some (2, 2, 1) := by decide +kernel
  have hend : gateAfter (outlivedGate ++ [.release 0, .release 0]) =
      some (0, 0, -1) := by decide +kernel
  obtain ⟨t, ht, heq⟩ := Option.map_eq_some_iff.mp hafter
  obtain ⟨u, hu, hequ⟩ := Option.map_eq_some_iff.mp hend
  obtain ⟨t', ht', htu⟩ := (Machine.exec_append_eq_some _).mp hu
  obtain rfl : t = t' := Option.some.inj (ht.symm.trans ht')
  have htwo : admittedCount t = 2 := congrArg Prod.fst heq
  have hnone : u.requests.length = 0 := congrArg (fun x => x.2.1) hequ
  refine ⟨t, u, ht, htwo, fun hholds => ?_, htu, List.length_eq_zero_iff.mp hnone,
    congrArg (fun x => x.2.2) hequ⟩
  have hbounded := hholds.bounded
  rw [htwo] at hbounded
  exact absurd hbounded (by decide)

end Imagin4.Ports
