import FandheBackend.ActionRuns
import FandheBackend.ExceptChecks
import Mathlib.Algebra.Ring.Nat
import Mathlib.Data.List.Basic
import Mathlib.Tactic.SplitIfs

set_option autoImplicit false

/-!
# The key set refresh task (`crates/plugin-jwt/src/refresh.rs`, `refresh/task.rs`)

The task fetches the key set when it is due, keeps it when a fetch fails, and empties it when it
is too old. A step is one pass of a poll function; the runtime chooses which expired timers it
has seen and how far the fetch is. Times are nanoseconds of the monotonic clock. The observer
only listens and is left out.
-/
namespace FandheBackend.JwtRefresh
open ActionRuns ExceptChecks

def seconds (n : ℕ) : ℕ := n * 1000000000

def maxRefreshPeriod : ℕ := seconds (24 * 60 * 60)
def maxRefreshMinInterval : ℕ := seconds (60 * 60)
def maxFetchTimeout : ℕ := seconds 60
def maxStaleLimit : ℕ := seconds (30 * 24 * 60 * 60)

def maxDuration : ℕ := seconds (2 ^ 64) - 1

inductive RefreshConfigError where
  | zeroPeriod
  | periodTooLarge
  | zeroMinInterval
  | minIntervalTooLarge
  | zeroFetchTimeout
  | fetchTimeoutTooLarge
  | zeroMaxStale
  | maxStaleTooLarge
  | minIntervalExceedsPeriod
  | fetchTimeoutExceedsMinInterval
  | maxStaleTooShort
  deriving DecidableEq, Repr

structure RefreshConfigBuilder where
  period : ℕ
  minInterval : ℕ
  fetchTimeout : ℕ
  maxStale : Option ℕ

def range (v max : ℕ) (zero large : RefreshConfigError) : Except RefreshConfigError Unit :=
  if v = 0 then .error zero else if max < v then .error large else .ok ()

def staleRange : Option ℕ → Except RefreshConfigError Unit
  | none => .ok ()
  | some s => range s maxStaleLimit .zeroMaxStale .maxStaleTooLarge

/-- A key set must not be too old before the next fetch can have ended. -/
def staleCovers (period fetchTimeout : ℕ) : Option ℕ → Except RefreshConfigError Unit
  | none => .ok ()
  | some s => do
    rejectIf (maxDuration < period + fetchTimeout) .maxStaleTooShort
    rejectIf (s < period + fetchTimeout) .maxStaleTooShort

def RefreshConfigBuilder.check (b : RefreshConfigBuilder) : Except RefreshConfigError Unit := do
  range b.period maxRefreshPeriod .zeroPeriod .periodTooLarge
  range b.minInterval maxRefreshMinInterval .zeroMinInterval .minIntervalTooLarge
  range b.fetchTimeout maxFetchTimeout .zeroFetchTimeout .fetchTimeoutTooLarge
  staleRange b.maxStale
  rejectIf (b.period < b.minInterval) .minIntervalExceedsPeriod
  rejectIf (b.minInterval < b.fetchTimeout) .fetchTimeoutExceedsMinInterval
  staleCovers b.period b.fetchTimeout b.maxStale

structure RefreshConfig extends RefreshConfigBuilder where
  built : toRefreshConfigBuilder.check = .ok ()

def RefreshConfigBuilder.build (b : RefreshConfigBuilder) :
    Except RefreshConfigError RefreshConfig :=
  match h : b.check with
  | .ok () => .ok ⟨b, h⟩
  | .error e => .error e

theorem RefreshConfig.build_self (cfg : RefreshConfig) :
    cfg.toRefreshConfigBuilder.build = .ok cfg := by
  obtain ⟨b, hbuilt⟩ := cfg
  unfold RefreshConfigBuilder.build
  split
  · rfl
  · next e he => rw [hbuilt] at he; cases he

theorem range_eq_ok {v max : ℕ} {zero large : RefreshConfigError} {u : Unit}
    (h : range v max zero large = .ok u) : 0 < v ∧ v ≤ max := by
  unfold range at h
  split_ifs at h
  omega

theorem RefreshConfig.bounds (cfg : RefreshConfig) :
    cfg.minInterval ≤ cfg.period ∧ cfg.period ≤ maxRefreshPeriod ∧
      ∀ s, cfg.maxStale = some s → 0 < s ∧ s ≤ maxStaleLimit := by
  have h := cfg.built
  unfold RefreshConfigBuilder.check at h
  obtain ⟨_, hperiod, h⟩ := bind_eq_ok.mp h
  obtain ⟨_, -, h⟩ := bind_eq_ok.mp h
  obtain ⟨_, -, h⟩ := bind_eq_ok.mp h
  obtain ⟨_, hstale, h⟩ := bind_eq_ok.mp h
  obtain ⟨hinterval, -⟩ := rejectIf_bind_eq_ok.mp h
  refine ⟨Nat.le_of_not_lt hinterval, (range_eq_ok hperiod).2, fun s hs => ?_⟩
  rw [hs] at hstale
  exact range_eq_ok hstale

structure RefreshStatus where
  lastSuccess : Option ℕ
  consecutiveFailures : ℕ
  cleared : Bool
  stopped : Bool

inductive Phase where
  -- The future was not polled yet.
  | created
  | waiting
  | fetching (fetchStart : ℕ)
  | finished
  -- An addition of times overflowed.
  | panicked
  deriving DecidableEq, Repr

/-- The task with what it shares, the clock, and a record of the run. -/
structure Task (K : Type) where
  now : ℕ
  stopped : Bool
  wake : Bool
  status : RefreshStatus
  keys : K
  phase : Phase
  nextDue : ℕ
  nextAllowed : ℕ
  staleDeadline : Option ℕ
  start : ℕ
  -- When the fetches began, the latest first.
  starts : List ℕ
  -- Which of the fetches that ended were successful, the latest first.
  outcomes : List Bool
  -- When the last signal since the last fetch began was taken.
  received : Option ℕ

inductive FetchPoll (Body : Type) where
  | pending
  | ok (body : Body) (maxAge : Option ℕ)
  | err
  | panic

/-- What a poll finds: the timers that the runtime has seen expire, and the fetch. -/
structure Ready (Body : Type) where
  stale : Bool
  due : Bool
  timeout : Bool
  fetch : FetchPoll Body
  -- The call of `fetch` panics, before there is a future.
  callPanics : Bool

inductive Action (Body : Type) where
  | tick (time : ℕ)
  | fire
  | shutdown
  | poll (ready : Ready Body)

namespace Task
variable {K : Type}

def new (keys : K) (now : ℕ) : Task K where
  now := now
  stopped := false
  wake := false
  status := ⟨none, 0, false, false⟩
  keys := keys
  phase := .created
  nextDue := 0
  nextAllowed := 0
  staleDeadline := none
  start := 0
  starts := []
  outcomes := []
  received := none

def markStopped (s : Task K) : Task K :=
  { s with stopped := true, status := { s.status with stopped := true } }

def finish (s : Task K) : Task K := { s.markStopped with phase := .finished }

def panicked (s : Task K) : Task K := { s with phase := .panicked }

section
variable {Body : Type} (maxInstant : ℕ) (cfg : RefreshConfig) (empty : K) (parse : Body → Option K)

/-- `Instant + Duration`, which panics when the sum is not an `Instant`. -/
def addInstant (t d : ℕ) : Option ℕ := if t + d ≤ maxInstant then some (t + d) else none

/-- The stale deadline after a success at `t`. -/
def armStale (t : ℕ) : Option (Option ℕ) :=
  match cfg.maxStale with
  | none => some none
  | some s => (addInstant maxInstant t s).map some

def startRun (s : Task K) : Task K :=
  if s.stopped then s.finish
  else match armStale maxInstant cfg s.now with
    | none => s.panicked
    | some deadline =>
      { s with
        phase := .waiting, start := s.now, nextDue := s.now, nextAllowed := s.now,
        staleDeadline := deadline }

def clearKeys (s : Task K) : Task K :=
  { s with keys := empty, status := { s.status with cleared := true } }

def staleReady (s : Task K) (ready : Ready Body) : Bool :=
  ready.stale && s.staleDeadline.any (· ≤ s.now)

def due (s : Task K) : ℕ := max s.nextDue s.nextAllowed

def fail (s : Task K) (fetchStart : ℕ) : Task K :=
  let s := { s with
    phase := .waiting, outcomes := false :: s.outcomes,
    status := { s.status with
      consecutiveFailures := min (s.status.consecutiveFailures + 1) (2 ^ 32 - 1) } }
  match addInstant maxInstant fetchStart cfg.minInterval with
  | none => s.panicked
  | some next => { s with nextDue := next }

def succeed (s : Task K) (fetchStart : ℕ) (set : K) (maxAge : Option ℕ) : Task K :=
  let s := { s with phase := .waiting, outcomes := true :: s.outcomes, keys := set }
  match armStale maxInstant cfg fetchStart with
  | none => s.panicked
  | some deadline =>
    let s := { s with
      staleDeadline := deadline,
      status := { s.status with
        consecutiveFailures := 0, cleared := false, lastSuccess := some fetchStart } }
    let wait := max (min cfg.period (maxAge.getD cfg.period)) cfg.minInterval
    match addInstant maxInstant fetchStart wait with
    | none => s.panicked
    | some next => { s with nextDue := next }

/-- `Wait::Due` up to the first poll of the fetch. -/
def beginFetch (s : Task K) (callPanics : Bool) : Task K :=
  match addInstant maxInstant s.now cfg.minInterval with
  | none => s.panicked
  | some allowed =>
    let s := { s with
      phase := .fetching s.now, nextAllowed := allowed, starts := s.now :: s.starts,
      received := none }
    if callPanics then s.fail maxInstant cfg s.now else s

/-- One pass of `wait_phase`, with the branch of `run` that it leads to. -/
def waitPhase (s : Task K) (ready : Ready Body) : Task K :=
  if s.stopped then s.finish
  else if s.staleReady ready then { s.clearKeys empty with staleDeadline := none }
  else if ready.due && decide (s.due ≤ s.now) then s.beginFetch maxInstant cfg ready.callPanics
  else if s.wake then
    { s with wake := false, nextDue := min s.nextDue s.now, received := some s.now }
  else s

/-- One pass of the loop of `fetch_once`, with what `run` makes of its result. -/
def fetchOnce (s : Task K) (fetchStart : ℕ) (ready : Ready Body) : Task K :=
  if s.stopped then s.finish
  else match ready.fetch with
    | .ok body maxAge =>
      match parse body with
      | some set => s.succeed maxInstant cfg fetchStart set maxAge
      | none => s.fail maxInstant cfg fetchStart
    | .err | .panic => s.fail maxInstant cfg fetchStart
    | .pending =>
      if ready.timeout && decide (fetchStart + cfg.fetchTimeout ≤ s.now) then
        s.fail maxInstant cfg fetchStart
      else if s.staleReady ready then { s.clearKeys empty with staleDeadline := none }
      else s

/-- The clock goes on, and stays far enough from the last `Instant`. -/
def step (s : Task K) : Action Body → Option (Task K)
  | .tick time =>
    if s.now ≤ time ∧ time + maxStaleLimit ≤ maxInstant then some { s with now := time } else none
  | .fire => some (if s.stopped then s else { s with wake := true })
  | .shutdown => some s.markStopped
  | .poll ready =>
    match s.phase with
    | .created => some (s.startRun maxInstant cfg)
    | .waiting => some (s.waitPhase maxInstant cfg empty ready)
    | .fetching fetchStart => some (s.fetchOnce maxInstant cfg empty parse fetchStart ready)
    | .finished | .panicked => none

end

end Task

end FandheBackend.JwtRefresh
