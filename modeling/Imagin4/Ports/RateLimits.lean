import Mathlib.Data.Rat.Floor
import Imagin4.Verified.Windows
import Imagin4.Ports.CanonicalJson

/-!
# Rate limits

`check_rate_limit` of `app/core/rate_limit.py`: a counter in Redis for every scope,
user and window of time.  The time to live of a counter starts with its first hit,
somewhere in the window, and runs out after the window's end.

Redis answers every command here, and a key is gone from the moment its time to live
has run out.

## Main results

* `rate_limited` — in every window the first calls of a user, up to the limit, are
  allowed and the others are not, and the wait a refused caller is told ends in the
  next window.
-/

namespace Imagin4.Ports

open Imagin4.Verified

/-! ## Redis -/

/-- A key: its value, and when it expires. -/
structure RedisKey where
  value : Int
  expiresAt : Option Rat

/-- The keys of Redis. -/
abbrev Redis := String → Option RedisKey

namespace Redis

/-- The value of a key, which counts as 0 while there is none. -/
def value (redis : Redis) (key : String) : Int :=
  ((redis key).map RedisKey.value).getD 0

/-- What has not expired. -/
def live (redis : Redis) (now : Rat) : Redis := fun key =>
  (redis key).filter (fun k => k.expiresAt.all (fun expiresAt => decide (now < expiresAt)))

/-- `INCR`, which keeps the time to live. -/
def incr (redis : Redis) (key : String) : Int × Redis :=
  let count := redis.value key + 1
  (count, fun k =>
    if k = key then some ⟨count, (redis key).bind RedisKey.expiresAt⟩ else redis k)

/-- `EXPIRE`, which deletes the key if there is no time left. -/
def expire (redis : Redis) (key : String) (seconds : Int) (now : Rat) : Redis := fun k =>
  if k = key then
    if seconds ≤ 0 then none
    else (redis key).map (fun r => { r with expiresAt := some (now + seconds) })
  else redis k

end Redis

/-! ## The limit -/

def rateLimitKey (scope userId : String) (windowSeconds : Int) (now : Rat) : String :=
  "rl:" ++ scope ++ ":" ++ userId ++ ":" ++ (window (windowSeconds : Rat) now).repr

/-- `now % window_seconds`. -/
def windowElapsed (windowSeconds : Int) (now : Rat) : Rat :=
  now - window (windowSeconds : Rat) now * windowSeconds

def secondsUntilWindowReset (windowSeconds : Int) (now : Rat) : Int :=
  windowSeconds - ⌊windowElapsed windowSeconds now⌋ + 1

/-- The answer, and Redis afterwards, where there is a client. -/
def checkRateLimit (redisClient : Option Redis) (scope userId : String)
    (limitPerWindow windowSeconds : Int) (now : Rat) : Bool × Option Redis :=
  match redisClient with
  | none => (true, none)
  | some redis =>
      if limitPerWindow ≤ 0 then (true, some redis)
      else
        let key := rateLimitKey scope userId windowSeconds now
        let (count, redis) := (redis.live now).incr key
        let redis := if count = 1 then redis.expire key windowSeconds now else redis
        (decide (count ≤ limitPerWindow), some redis)

/-- A call, and the time at which it is made. -/
structure RateLimitCall where
  scope : String
  userId : String
  limitPerWindow : Int
  time : Rat

/-- The answers to calls, one after another, in windows of one minute. -/
def checkRateLimits : Option Redis → List RateLimitCall → List Bool
  | _, [] => []
  | redisClient, call :: calls =>
      let (answer, redisClient) := checkRateLimit redisClient call.scope call.userId
        call.limitPerWindow 60 call.time
      answer :: checkRateLimits redisClient calls

/-! ## Keys -/

/-- What stands behind the last colon is settled by there being none in it. -/
theorem append_lastColon_inj {u v d e : List Char} (hd : ':' ∉ d) (he : ':' ∉ e)
    (h : u ++ ':' :: d = v ++ ':' :: e) : u = v ∧ d = e := by
  rcases List.append_eq_append_iff.mp h with ⟨a, ha, hb⟩ | ⟨a, ha, hb⟩
  · cases a with
    | nil =>
        simp only [List.nil_append, List.cons.injEq, true_and] at hb
        exact ⟨by simpa using ha.symm, hb⟩
    | cons c a =>
        simp only [List.cons_append, List.cons.injEq] at hb
        exact absurd (by simp [hb.2]) hd
  · cases a with
    | nil =>
        simp only [List.nil_append, List.cons.injEq, true_and] at hb
        exact ⟨by simpa using ha, hb.symm⟩
    | cons c a =>
        simp only [List.cons_append, List.cons.injEq] at hb
        exact absurd (by simp [hb.2]) he

theorem not_colon_intRepr (w : Int) : ':' ∉ w.repr.toList := by
  intro hColon
  rcases Json.chars_intRepr w ':' hColon with hDigit | hMinus
  · exact absurd hDigit (by decide)
  · exact absurd hMinus (by decide)

/-- The key of a scope, a user and a window. -/
def windowKey (scope userId : String) (w : Int) : String :=
  "rl:" ++ scope ++ ":" ++ userId ++ ":" ++ w.repr

/-- The scope is what stands before the first colon, the window what stands behind
the last. -/
theorem windowKey_inj {scope scope' userId userId' : String} {w w' : Int}
    (hScope : ':' ∉ scope.toList) (hScope' : ':' ∉ scope'.toList)
    (h : windowKey scope userId w = windowKey scope' userId' w') :
    scope = scope' ∧ userId = userId' ∧ w = w' := by
  have hTagged : scope ++ ":" ++ (userId ++ ":" ++ w.repr) =
      scope' ++ ":" ++ (userId' ++ ":" ++ w'.repr) := by
    have hChars := congrArg String.toList h
    apply String.toList_inj.mp
    simpa [windowKey] using hChars
  obtain ⟨hScopes, hRest⟩ := append_colon_inj hScope hScope' hTagged
  have hUserWindow : userId.toList ++ ':' :: w.repr.toList =
      userId'.toList ++ ':' :: w'.repr.toList := by
    have hChars := congrArg String.toList hRest
    simpa using hChars
  obtain ⟨hUser, hWindow⟩ :=
    append_lastColon_inj (not_colon_intRepr w) (not_colon_intRepr w') hUserWindow
  exact ⟨hScopes, String.toList_inj.mp hUser,
    Int.repr_injective (String.toList_inj.mp hWindow)⟩

/-! ## Counts -/

/-- A call counts for its scope, user and window, unless it has no limit. -/
def rateQuota : Quota RateLimitCall (String × String × Int) where
  classOf call :=
    if call.limitPerWindow ≤ 0 then none
    else some (call.scope, call.userId, window 60 call.time)
  quota := RateLimitCall.limitPerWindow

theorem classOf_of_pos {call : RateLimitCall} (h : 0 < call.limitPerWindow) :
    rateQuota.classOf call =
      some (call.scope, call.userId, window 60 call.time) :=
  if_neg (Int.not_le.mpr h)

theorem classOf_of_nonpos {call : RateLimitCall} (h : call.limitPerWindow ≤ 0) :
    rateQuota.classOf call = none :=
  if_pos h

/-- Redis holds the counts of the windows that are not over, and none of those keys
expires before its window ends. -/
structure HoldsCounts (before : List RateLimitCall) (redis : Redis) : Prop where
  counts {scope userId : String} {w : Int} : ':' ∉ scope.toList →
    (∀ call ∈ before, window 60 call.time ≤ w) →
    redis.value (windowKey scope userId w) =
      rateQuota.count (scope, userId, w) before
  lasts {scope userId : String} {w : Int} {k : RedisKey} : ':' ∉ scope.toList →
    (∀ call ∈ before, window 60 call.time ≤ w) →
    redis (windowKey scope userId w) = some k →
    ∃ expiresAt, k.expiresAt = some expiresAt ∧ ((w + 1 : Int) : Rat) * 60 ≤ expiresAt

theorem holdsCounts_nil : HoldsCounts [] (fun _ => none) where
  counts _ _ := rfl
  lasts _ _ h := by cases h

section Step

variable {before : List RateLimitCall} {redis : Redis} {call : RateLimitCall}

/-- Of a window that is not over nothing has expired. -/
theorem HoldsCounts.live_eq (h : HoldsCounts before redis) {scope userId : String}
    {w : Int} {now : Rat} (hScope : ':' ∉ scope.toList)
    (hBefore : ∀ call ∈ before, window 60 call.time ≤ w) (hNow : window 60 now ≤ w) :
    redis.live now (windowKey scope userId w) = redis (windowKey scope userId w) := by
  unfold Redis.live
  cases hKey : redis (windowKey scope userId w) with
  | none => rfl
  | some k =>
      obtain ⟨expiresAt, hExpires, hLasts⟩ := h.lasts hScope hBefore hKey
      have hEnd : now < (window 60 now + 1) * 60 := lt_window_end (by norm_num)
      have hNowRat : ((window 60 now : Int) : Rat) ≤ w := by exact_mod_cast hNow
      have hLive : now < expiresAt := by
        push_cast at hLasts
        linarith
      simp [Option.filter, hExpires, hLive]

/-- Before a call of the window, all others belong to it or an earlier one. -/
theorem window_le_of_time_le (h : ∀ other ∈ before, other.time ≤ call.time) :
    ∀ other ∈ before, window 60 other.time ≤ window 60 call.time :=
  fun other hOther => window_mono (by norm_num) (h other hOther)

/-- Redis after a call with a limit. -/
def countedHit (redis : Redis) (key : String) (windowSeconds : Int) (now : Rat) :
    Redis :=
  if (redis.incr key).1 = 1 then (redis.incr key).2.expire key windowSeconds now
  else (redis.incr key).2

theorem checkRateLimit_of_pos {scope userId : String} {limitPerWindow : Int}
    {now : Rat} (h : 0 < limitPerWindow) :
    checkRateLimit (some redis) scope userId limitPerWindow 60 now =
      (decide ((redis.live now).value (windowKey scope userId (window 60 now)) + 1 ≤
          limitPerWindow),
        some (countedHit (redis.live now) (windowKey scope userId (window 60 now))
          60 now)) := by
  rw [checkRateLimit, if_neg (Int.not_le.mpr h)]
  rfl

theorem countedHit_ne {key other : String} {now : Rat} (h : other ≠ key) :
    countedHit redis key 60 now other = redis other := by
  unfold countedHit
  by_cases hFirst : (redis.incr key).1 = 1
  · rw [if_pos hFirst, Redis.expire, if_neg h]
    exact if_neg h
  · rw [if_neg hFirst]
    exact if_neg h

/-- The first hit sets a time to live, and the others keep it. -/
theorem countedHit_self {key : String} {now : Rat} :
    countedHit redis key 60 now key =
      some ⟨redis.value key + 1,
        if redis.value key = 0 then some (now + 60)
        else (redis key).bind RedisKey.expiresAt⟩ := by
  unfold countedHit
  have hKey : (redis.incr key).2 key =
      some ⟨redis.value key + 1, (redis key).bind RedisKey.expiresAt⟩ := if_pos rfl
  have hCount : (redis.incr key).1 = redis.value key + 1 := rfl
  by_cases hFirst : redis.value key = 0
  · have hOne : (redis.incr key).1 = 1 := by
      omega
    rw [if_pos hOne, if_pos hFirst, Redis.expire, if_pos rfl, if_neg (by decide), hKey]
    simp
  · have hOne : ¬ (redis.incr key).1 = 1 := by
      omega
    rw [if_neg hOne, if_neg hFirst, hKey]

theorem value_eq_zero_of_none {key : String} (h : redis key = none) :
    redis.value key = 0 := by
  simp [Redis.value, h]

theorem value_of_some {key : String} {k : RedisKey} (h : redis key = some k) :
    redis.value key = k.value := by
  simp [Redis.value, h]

theorem value_congr {other : Redis} {key : String} (h : redis key = other key) :
    redis.value key = other.value key := by
  simp [Redis.value, h]

/-- The counter of the call's window. -/
theorem live_value (h : HoldsCounts before redis) (hScope : ':' ∉ call.scope.toList)
    (hTimes : ∀ other ∈ before, other.time ≤ call.time) :
    (redis.live call.time).value
        (windowKey call.scope call.userId (window 60 call.time)) =
      rateQuota.count (call.scope, call.userId, window 60 call.time) before := by
  have hBefore := window_le_of_time_le hTimes
  rw [value_congr (h.live_eq hScope hBefore le_rfl)]
  exact h.counts hScope hBefore

/-- A window that is not over with a call was not over before it. -/
theorem window_le_of_append {w : Int}
    (h : ∀ other ∈ before ++ [call], window 60 other.time ≤ w) :
    (∀ other ∈ before, window 60 other.time ≤ w) ∧ window 60 call.time ≤ w :=
  ⟨fun other hOther => h other (by simp [hOther]), h call (by simp)⟩

/-- A hit counts for its own window, and for no other. -/
theorem value_countedHit (h : HoldsCounts before redis)
    (hLimit : 0 < call.limitPerWindow) (hScope : ':' ∉ call.scope.toList)
    (hTimes : ∀ other ∈ before, other.time ≤ call.time)
    {scope userId : String} {w : Int} (hScope' : ':' ∉ scope.toList)
    (hAll : ∀ other ∈ before ++ [call], window 60 other.time ≤ w) :
    (countedHit (redis.live call.time)
        (windowKey call.scope call.userId (window 60 call.time)) 60 call.time).value
        (windowKey scope userId w) =
      rateQuota.count (scope, userId, w) (before ++ [call]) := by
  obtain ⟨hEarlier, hNow⟩ := window_le_of_append hAll
  rw [Quota.count_append, classOf_of_pos hLimit]
  by_cases hSame : (call.scope, call.userId, window 60 call.time) = (scope, userId, w)
  · obtain ⟨rfl, rfl, rfl⟩ : call.scope = scope ∧ call.userId = userId ∧
        window 60 call.time = w := by simpa using hSame
    rw [value_of_some countedHit_self, live_value h hScope hTimes, if_pos rfl]
    push_cast
    rfl
  · have hNe : windowKey scope userId w ≠
        windowKey call.scope call.userId (window 60 call.time) := by
      intro hKeys
      obtain ⟨rfl, rfl, rfl⟩ := windowKey_inj hScope' hScope hKeys
      exact hSame rfl
    rw [if_neg (fun hEq => hSame (Option.some.inj hEq)),
      value_congr (countedHit_ne hNe), value_congr (h.live_eq hScope' hEarlier hNow),
      h.counts hScope' hEarlier, Nat.add_zero]

/-- The counter of a hit stays till its window's end: a first hit starts the time to
live, and the others leave the one there was. -/
theorem expiresAt_countedHit_self (h : HoldsCounts before redis)
    (hScope : ':' ∉ call.scope.toList)
    (hTimes : ∀ other ∈ before, other.time ≤ call.time) {k : RedisKey}
    (hKey : countedHit (redis.live call.time)
      (windowKey call.scope call.userId (window 60 call.time)) 60 call.time
      (windowKey call.scope call.userId (window 60 call.time)) = some k) :
    ∃ expiresAt, k.expiresAt = some expiresAt ∧
      ((window 60 call.time + 1 : Int) : Rat) * 60 ≤ expiresAt := by
  have hBefore := window_le_of_time_le hTimes
  rw [countedHit_self] at hKey
  obtain rfl := Option.some.inj hKey
  by_cases hFirst : (redis.live call.time).value
      (windowKey call.scope call.userId (window 60 call.time)) = 0
  · refine ⟨call.time + 60, if_pos hFirst, ?_⟩
    have hStart : window 60 call.time * 60 ≤ call.time :=
      window_start_le (by norm_num)
    push_cast
    linarith
  · cases hOld : redis.live call.time
        (windowKey call.scope call.userId (window 60 call.time)) with
    | none => exact absurd (value_eq_zero_of_none hOld) hFirst
    | some old =>
        rw [h.live_eq hScope hBefore le_rfl] at hOld
        obtain ⟨expiresAt, hExpires, hLasts⟩ := h.lasts hScope hBefore hOld
        exact ⟨expiresAt, by simpa [hFirst] using hExpires, hLasts⟩

/-- A hit in a window leaves its counter there till the window's end. -/
theorem holdsCounts_countedHit (h : HoldsCounts before redis)
    (hLimit : 0 < call.limitPerWindow) (hScope : ':' ∉ call.scope.toList)
    (hTimes : ∀ other ∈ before, other.time ≤ call.time) :
    HoldsCounts (before ++ [call])
      (countedHit (redis.live call.time)
        (windowKey call.scope call.userId (window 60 call.time)) 60 call.time) where
  counts hScope' hAll := value_countedHit h hLimit hScope hTimes hScope' hAll
  lasts {scope userId w k} hScope' hAll hKey := by
    obtain ⟨hEarlier, hNow⟩ := window_le_of_append hAll
    by_cases hSame : windowKey scope userId w =
        windowKey call.scope call.userId (window 60 call.time)
    · obtain ⟨rfl, rfl, rfl⟩ := windowKey_inj hScope' hScope hSame
      exact expiresAt_countedHit_self h hScope hTimes hKey
    · rw [countedHit_ne hSame, h.live_eq hScope' hEarlier hNow] at hKey
      exact h.lasts hScope' hEarlier hKey

/-- A call is answered as its quota says, and the counts stay. -/
theorem checkRateLimit_step (h : HoldsCounts before redis)
    (hScope : ':' ∉ call.scope.toList)
    (hTimes : ∀ other ∈ before, other.time ≤ call.time) :
    ∃ after, checkRateLimit (some redis) call.scope call.userId call.limitPerWindow 60
        call.time = (rateQuota.grant before call, some after) ∧
      HoldsCounts (before ++ [call]) after := by
  by_cases hLimit : 0 < call.limitPerWindow
  · refine ⟨_, ?_, holdsCounts_countedHit h hLimit hScope hTimes⟩
    rw [checkRateLimit_of_pos hLimit, live_value h hScope hTimes,
      Quota.grant_of_class (classOf_of_pos hLimit)]
    rfl
  · have hNone := classOf_of_nonpos (Int.not_lt.mp hLimit)
    refine ⟨redis, ?_, ⟨fun hScope' hAll => ?_, fun hScope' hAll => ?_⟩⟩
    · rw [checkRateLimit, if_pos (Int.not_lt.mp hLimit), Quota.grant, hNone]
    · rw [Quota.count_append, hNone, if_neg (by simp), Nat.add_zero]
      exact h.counts hScope' (fun other hOther => hAll other (by simp [hOther]))
    · exact h.lasts hScope' (fun other hOther => hAll other (by simp [hOther]))

end Step

/-! ## Runs -/

theorem checkRateLimits_eq (calls : List RateLimitCall) :
    ∀ (before : List RateLimitCall) (redis : Redis), HoldsCounts before redis →
      (before ++ calls).Pairwise (fun c d => c.time ≤ d.time) →
      (∀ call ∈ calls, ':' ∉ call.scope.toList) →
      checkRateLimits (some redis) calls = rateQuota.grants before calls := by
  induction calls with
  | nil =>
      intro before redis _ _ _
      rfl
  | cons call calls ih =>
      intro before redis h hTimes hScopes
      have hBefore : ∀ other ∈ before, other.time ≤ call.time := fun other hOther =>
        (List.pairwise_append.mp hTimes).2.2 other hOther call (by simp)
      obtain ⟨after, hStep, hAfter⟩ :=
        checkRateLimit_step h (hScopes call (by simp)) hBefore
      have hRest := ih (before ++ [call]) after hAfter (by simpa using hTimes)
        (fun other hOther => hScopes other (List.mem_cons_of_mem _ hOther))
      rw [checkRateLimits, hStep, Quota.grants, ← hRest]

/-- The call is one of a user's in a window. -/
def inWindow (scope userId : String) (w : Int) (call : RateLimitCall) : Bool :=
  decide (call.scope = scope ∧ call.userId = userId ∧ window 60 call.time = w)

theorem inWindow_iff {scope userId : String} {w : Int} {call : RateLimitCall}
    (hLimit : inWindow scope userId w call = true → 0 < call.limitPerWindow) :
    inWindow scope userId w call = true ↔
      rateQuota.classOf call = some (scope, userId, w) := by
  by_cases hPos : 0 < call.limitPerWindow
  · rw [classOf_of_pos hPos]
    simp [inWindow]
  · rw [classOf_of_nonpos (Int.not_lt.mp hPos)]
    exact ⟨fun hIn => absurd (hLimit hIn) hPos, fun hSome => by cases hSome⟩

/-- The wait ends one or two seconds after the window. -/
theorem window_secondsUntilWindowReset (now : Rat) :
    window 60 (now + secondsUntilWindowReset 60 now) = window 60 now + 1 := by
  have hFloor := Int.floor_le (windowElapsed 60 now)
  have hNext := Int.lt_floor_add_one (windowElapsed 60 now)
  have hWait : (secondsUntilWindowReset 60 now : Rat) =
      60 - ⌊windowElapsed 60 now⌋ + 1 := by
    unfold secondsUntilWindowReset
    push_cast
    rfl
  have hElapsed : windowElapsed 60 now = now - window 60 now * 60 := by
    unfold windowElapsed
    norm_num
  apply window_add_wait (by norm_num)
  · linarith
  · linarith

/-- A run of calls that finds no counter. -/
theorem rate_limited {calls : List RateLimitCall}
    (hTimes : calls.Pairwise (fun c d => c.time ≤ d.time))
    (hScopes : ∀ call ∈ calls, ':' ∉ call.scope.toList) :
    (∀ {scope userId : String} {w limit : Int}, 0 < limit →
      (∀ call ∈ calls, inWindow scope userId w call = true →
        call.limitPerWindow = limit) →
      answersOf (inWindow scope userId w) calls
          (checkRateLimits (some (fun _ => none)) calls) =
        (List.range (calls.countP (inWindow scope userId w))).map
          (fun number : Nat => decide ((number : Int) < limit))) ∧
    ∀ now, window 60 (now + secondsUntilWindowReset 60 now) = window 60 now + 1 := by
  refine ⟨fun {scope userId w limit} hPos hLimit => ?_, window_secondsUntilWindowReset⟩
  have hClass : ∀ call ∈ calls, inWindow scope userId w call = true ↔
      rateQuota.classOf call = some (scope, userId, w) := fun call hCall =>
    inWindow_iff (fun hIn => hLimit call hCall hIn ▸ hPos)
  rw [checkRateLimits_eq calls [] _ holdsCounts_nil (by simpa using hTimes) hScopes,
    Quota.grants_answersOf calls [] hClass hLimit, List.range_eq_range']
  rfl

/-- Two users, one of whom calls twice. -/
def twoUsers : List RateLimitCall :=
  [⟨"message", "u:a", 1, 59⟩, ⟨"message", "u", 1, 59⟩, ⟨"message", "u:a", 1, 119 / 2⟩]

theorem rate_limited_twoUsers :
    answersOf (inWindow "message" "u:a" 0) twoUsers
      (checkRateLimits (some (fun _ => none)) twoUsers) = [true, false] := by
  have hTimes : twoUsers.Pairwise (fun c d => c.time ≤ d.time) := by
    norm_num [twoUsers]
  have hScopes : ∀ call ∈ twoUsers, ':' ∉ call.scope.toList := by
    simp [twoUsers]
  have hLimit : ∀ call ∈ twoUsers, inWindow "message" "u:a" 0 call = true →
      call.limitPerWindow = 1 := by
    simp [twoUsers]
  have hCount : twoUsers.countP (inWindow "message" "u:a" 0) = 2 := by
    have hOther : ("u" : String) ≠ "u:a" := by decide
    norm_num [twoUsers, List.countP_cons, inWindow, window, hOther]
  rw [(rate_limited hTimes hScopes).1 (by decide) hLimit, hCount]
  rfl

end Imagin4.Ports
