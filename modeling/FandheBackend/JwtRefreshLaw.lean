import FandheBackend.JwtRefresh

set_option autoImplicit false

namespace FandheBackend.JwtRefresh
open ActionRuns

namespace Task

section
variable {K Body : Type} {maxInstant : ℕ} {cfg : RefreshConfig} {empty : K}
variable {parse : Body → Option K} {s s' : Task K}

/-- The start of the last successful fetch, or of the task. -/
def lastGood (s : Task K) : ℕ := s.status.lastSuccess.getD s.start

def allowedFrom (cfg : RefreshConfig) (s : Task K) : ℕ :=
  match s.starts with
  | [] => s.start
  | t :: _ => t + cfg.minInterval

def failures (s : Task K) : ℕ := (s.outcomes.takeWhile (· == false)).length

def active (s : Task K) : Prop := s.phase = .waiting ∨ ∃ t, s.phase = .fetching t

structure Invariant (maxInstant : ℕ) (cfg : RefreshConfig) (empty : K) (s : Task K) : Prop where
  clock : s.now + maxStaleLimit ≤ maxInstant
  running : s.phase ≠ .panicked
  started : s.start ≤ s.now
  created : s.phase = .created → s.starts = [] ∧ s.status.lastSuccess = none ∧ s.received = none
  fetching : ∀ t, s.phase = .fetching t → s.starts.head? = some t ∧ s.received = none
  allowed : s.active → s.nextAllowed = s.allowedFrom cfg
  apart : s.starts.Pairwise fun later earlier => earlier + cfg.minInterval ≤ later
  past : ∀ t ∈ s.starts, t ≤ s.now
  stale : s.active → ∀ m, cfg.maxStale = some m → s.staleDeadline = some (s.lastGood + m) ∨
    s.staleDeadline = none ∧ s.keys = empty ∧ s.status.cleared = true
  counted : s.status.consecutiveFailures = min s.failures (2 ^ 32 - 1)
  taken : ∀ t, s.received = some t → s.nextDue ≤ t ∧ s.start ≤ t

theorem addInstant_eq {t d : ℕ} (h : t + maxStaleLimit ≤ maxInstant) (hd : d ≤ maxStaleLimit) :
    addInstant maxInstant t d = some (t + d) := by
  unfold addInstant
  rw [if_pos (by omega)]

theorem armStale_eq {t : ℕ} (h : t + maxStaleLimit ≤ maxInstant) :
    armStale maxInstant cfg t = some (cfg.maxStale.map (t + ·)) := by
  unfold armStale
  cases hstale : cfg.maxStale with
  | none => rfl
  | some m => simp [addInstant_eq h ((cfg.bounds.2.2 m hstale).2)]

theorem period_le (cfg : RefreshConfig) : cfg.period ≤ maxStaleLimit :=
  Nat.le_trans cfg.bounds.2.1 (by decide)

theorem minInterval_le (cfg : RefreshConfig) : cfg.minInterval ≤ maxStaleLimit :=
  Nat.le_trans cfg.bounds.1 (period_le cfg)

theorem fail_eq {t : ℕ} (h : t + maxStaleLimit ≤ maxInstant) :
    s.fail maxInstant cfg t = { s with
      phase := .waiting, outcomes := false :: s.outcomes, nextDue := t + cfg.minInterval,
      status := { s.status with
        consecutiveFailures := min (s.status.consecutiveFailures + 1) (2 ^ 32 - 1) } } := by
  unfold fail
  simp only [addInstant_eq h (minInterval_le cfg)]

theorem succeed_eq {t : ℕ} (h : t + maxStaleLimit ≤ maxInstant) (set : K) (maxAge : Option ℕ) :
    s.succeed maxInstant cfg t set maxAge = { s with
      phase := .waiting, outcomes := true :: s.outcomes, keys := set,
      staleDeadline := cfg.maxStale.map (t + ·),
      nextDue := t + max (min cfg.period (maxAge.getD cfg.period)) cfg.minInterval,
      status := { s.status with
        consecutiveFailures := 0, cleared := false, lastSuccess := some t } } := by
  have hwait : max (min cfg.period (maxAge.getD cfg.period)) cfg.minInterval ≤ maxStaleLimit := by
    have hperiod := period_le cfg
    have hinterval := minInterval_le cfg
    omega
  unfold succeed
  simp only [armStale_eq h, addInstant_eq h hwait]

theorem invariant_new (keys : K) {clock : ℕ} (h : clock + maxStaleLimit ≤ maxInstant) :
    (new keys clock).Invariant maxInstant cfg empty where
  clock := h
  running := nofun
  started := Nat.zero_le _
  created := fun _ => ⟨rfl, rfl, rfl⟩
  fetching := nofun
  allowed := by
    rintro (h | ⟨t, h⟩) <;> cases h
  apart := .nil
  past := nofun
  stale := by
    rintro (h | ⟨t, h⟩) <;> cases h
  counted := rfl
  taken := nofun

theorem Invariant.finish (hs : s.Invariant maxInstant cfg empty) :
    s.finish.Invariant maxInstant cfg empty where
  clock := hs.clock
  running := nofun
  started := hs.started
  created := nofun
  fetching := nofun
  allowed := by
    rintro (h | ⟨t, h⟩) <;> cases h
  apart := hs.apart
  past := hs.past
  stale := by
    rintro (h | ⟨t, h⟩) <;> cases h
  counted := hs.counted
  taken := hs.taken

theorem Invariant.startRun (hs : s.Invariant maxInstant cfg empty) (hphase : s.phase = .created) :
    (s.startRun maxInstant cfg).Invariant maxInstant cfg empty := by
  obtain ⟨hstarts, hgood, hreceived⟩ := hs.created hphase
  unfold Task.startRun
  split_ifs
  · exact hs.finish
  · simp only [armStale_eq hs.clock]
    refine ⟨hs.clock, nofun, Nat.le_refl _, nofun, nofun, ?_, hs.apart, hs.past, ?_, hs.counted, ?_⟩
    · intro _
      simp [allowedFrom, hstarts]
    · intro _ m hm
      simp [lastGood, hgood, hm]
    · intro t ht
      rw [hreceived] at ht
      cases ht

theorem Invariant.clear (hs : s.Invariant maxInstant cfg empty) :
    Invariant maxInstant cfg empty { s.clearKeys empty with staleDeadline := none } where
  clock := hs.clock
  running := hs.running
  started := hs.started
  created := hs.created
  fetching := hs.fetching
  allowed := hs.allowed
  apart := hs.apart
  past := hs.past
  stale := fun _ _ _ => .inr ⟨rfl, rfl, rfl⟩
  counted := hs.counted
  taken := hs.taken

theorem Invariant.fail (hs : s.Invariant maxInstant cfg empty) {t : ℕ}
    (hphase : s.phase = .fetching t) : (s.fail maxInstant cfg t).Invariant maxInstant cfg empty := by
  obtain ⟨hhead, hreceived⟩ := hs.fetching t hphase
  have hpast : t ≤ s.now := hs.past t (List.mem_of_head? hhead)
  have hclock := hs.clock
  have hactive : s.active := .inr ⟨t, hphase⟩
  rw [fail_eq (by omega)]
  refine ⟨hs.clock, nofun, hs.started, nofun, nofun, fun _ => hs.allowed hactive, hs.apart, hs.past,
    fun _ => hs.stale hactive, ?_, ?_⟩
  · have hcounted := hs.counted
    simp only [failures, List.takeWhile_cons_of_pos, beq_self_eq_true, List.length_cons] at hcounted ⊢
    omega
  · intro t ht
    rw [hreceived] at ht
    cases ht

theorem Invariant.succeed (hs : s.Invariant maxInstant cfg empty) {t : ℕ}
    (hphase : s.phase = .fetching t) (set : K) (maxAge : Option ℕ) :
    (s.succeed maxInstant cfg t set maxAge).Invariant maxInstant cfg empty := by
  obtain ⟨hhead, hreceived⟩ := hs.fetching t hphase
  have hpast : t ≤ s.now := hs.past t (List.mem_of_head? hhead)
  have hclock := hs.clock
  have hactive : s.active := .inr ⟨t, hphase⟩
  rw [succeed_eq (by omega)]
  refine ⟨hs.clock, nofun, hs.started, nofun, nofun, fun _ => hs.allowed hactive, hs.apart, hs.past,
    ?_, ?_, ?_⟩
  · intro _ m hm
    simp [lastGood, hm]
  · simp [failures]
  · intro t ht
    rw [hreceived] at ht
    cases ht

theorem Invariant.beginFetch (hs : s.Invariant maxInstant cfg empty) (hphase : s.phase = .waiting)
    (hdue : s.due ≤ s.now) (callPanics : Bool) :
    (s.beginFetch maxInstant cfg callPanics).Invariant maxInstant cfg empty := by
  have hallowed := hs.allowed (.inl hphase)
  have hbegun : Invariant maxInstant cfg empty { s with
      phase := .fetching s.now, nextAllowed := s.now + cfg.minInterval,
      starts := s.now :: s.starts, received := none } := by
    refine ⟨hs.clock, nofun, hs.started, nofun, ?_, fun _ => rfl, ?_, ?_,
      fun _ => hs.stale (.inl hphase), hs.counted, nofun⟩
    · rintro t ⟨⟩
      exact ⟨rfl, rfl⟩
    · refine List.pairwise_cons.mpr ⟨fun t ht => ?_, hs.apart⟩
      have hlate : s.allowedFrom cfg ≤ s.now := by
        rw [← hallowed]
        exact Nat.le_trans (Nat.le_max_right _ _) hdue
      cases hstarts : s.starts with
      | nil =>
        rw [hstarts] at ht
        cases ht
      | cons last rest =>
        simp only [allowedFrom, hstarts] at hlate
        rw [hstarts] at ht
        rcases List.mem_cons.mp ht with rfl | ht
        · exact hlate
        · have hrest := (List.pairwise_cons.mp (hstarts ▸ hs.apart)).1 t ht
          omega
    · intro t ht
      rcases List.mem_cons.mp ht with rfl | ht
      · exact Nat.le_refl _
      · exact hs.past t ht
  unfold Task.beginFetch
  simp only [addInstant_eq hs.clock (minInterval_le cfg)]
  split_ifs
  · exact hbegun.fail rfl
  · exact hbegun

theorem Invariant.waitPhase (hs : s.Invariant maxInstant cfg empty) (hphase : s.phase = .waiting)
    (ready : Ready Body) : (s.waitPhase maxInstant cfg empty ready).Invariant maxInstant cfg empty := by
  have hactive : s.active := .inl hphase
  unfold Task.waitPhase
  split_ifs with hstopped hstale hdue hwake
  · exact hs.finish
  · exact hs.clear
  · rw [Bool.and_eq_true, decide_eq_true_eq] at hdue
    exact hs.beginFetch hphase hdue.2 _
  · refine ⟨hs.clock, hs.running, hs.started, ?_, ?_, fun _ => hs.allowed hactive, hs.apart, hs.past,
      fun _ => hs.stale hactive, hs.counted, ?_⟩
    · intro h
      cases hphase.symm.trans h
    · intro t h
      cases hphase.symm.trans h
    · rintro t ⟨⟩
      exact ⟨Nat.min_le_right _ _, hs.started⟩
  · exact hs

theorem Invariant.fetchOnce (hs : s.Invariant maxInstant cfg empty) {t : ℕ}
    (hphase : s.phase = .fetching t) (ready : Ready Body) :
    (s.fetchOnce maxInstant cfg empty parse t ready).Invariant maxInstant cfg empty := by
  unfold Task.fetchOnce
  by_cases hstopped : s.stopped = true
  · rw [if_pos hstopped]
    exact hs.finish
  · rw [if_neg hstopped]
    cases ready.fetch with
    | ok body maxAge =>
      dsimp only
      cases parse body with
      | none => exact hs.fail hphase
      | some set => exact hs.succeed hphase set maxAge
    | err => exact hs.fail hphase
    | panic => exact hs.fail hphase
    | pending =>
      dsimp only
      split_ifs
      · exact hs.fail hphase
      · exact hs.clear
      · exact hs

theorem invariant_step {a : Action Body} (hs : s.Invariant maxInstant cfg empty)
    (h : s.step maxInstant cfg empty parse a = some s') : s'.Invariant maxInstant cfg empty := by
  cases a with
  | tick time =>
    simp only [Task.step] at h
    split_ifs at h with htime
    cases h
    exact ⟨htime.2, hs.running, Nat.le_trans hs.started htime.1, hs.created, hs.fetching, hs.allowed,
      hs.apart, fun t ht => Nat.le_trans (hs.past t ht) htime.1, hs.stale, hs.counted, hs.taken⟩
  | fire =>
    cases h
    split_ifs
    · exact hs
    · exact ⟨hs.clock, hs.running, hs.started, hs.created, hs.fetching, hs.allowed, hs.apart, hs.past,
        hs.stale, hs.counted, hs.taken⟩
  | shutdown =>
    cases h
    exact ⟨hs.clock, hs.running, hs.started, hs.created, hs.fetching, hs.allowed, hs.apart, hs.past,
      hs.stale, hs.counted, hs.taken⟩
  | poll ready =>
    simp only [Task.step] at h
    cases hphase : s.phase <;> simp only [hphase] at h <;> cases h
    · exact hs.startRun hphase
    · exact hs.waitPhase hphase ready
    · exact hs.fetchOnce hphase ready

theorem invariant_run {keys : K} {clock : ℕ} {actions : List (Action Body)}
    (hclock : clock + maxStaleLimit ≤ maxInstant)
    (h : run (Task.step maxInstant cfg empty parse) actions (.new keys clock) = some s) :
    s.Invariant maxInstant cfg empty :=
  run_invariant (Invariant maxInstant cfg empty) (fun _ _ => invariant_step)
    (invariant_new keys hclock) h

structure Later (s s' : Task K) : Prop where
  now : s.now ≤ s'.now
  stopped : s.stopped = true → s'.stopped = true

inductive SignalStep (s : Task K) : Task K → Prop
  | kept {s' : Task K} (later : s.Later s') (wake : s.wake = true → s'.wake = true)
      (starts : s'.starts = s.starts) (received : s'.received = s.received)
      (phase : s.phase = .waiting → s'.phase = .waiting ∨ s'.stopped = true) : SignalStep s s'
  | began {s' : Task K} (later : s.Later s') (starts : s'.starts = s.now :: s.starts) :
      SignalStep s s'
  | taken {s' : Task K} (later : s.Later s') (starts : s'.starts = s.starts)
      (received : s'.received = some s.now) (phase : s'.phase = .waiting) : SignalStep s s'

theorem Later.of_eq (hnow : s'.now = s.now) (hstopped : s.stopped = true → s'.stopped = true) :
    s.Later s' := ⟨Nat.le_of_eq hnow.symm, hstopped⟩

theorem beginFetch_starts (hs : s.Invariant maxInstant cfg empty) (callPanics : Bool) :
    (s.beginFetch maxInstant cfg callPanics).starts = s.now :: s.starts := by
  unfold Task.beginFetch
  simp only [addInstant_eq hs.clock (minInterval_le cfg)]
  split_ifs
  · rw [fail_eq hs.clock]
  · rfl

theorem beginFetch_signal (hs : s.Invariant maxInstant cfg empty) (callPanics : Bool) :
    s.SignalStep (s.beginFetch maxInstant cfg callPanics) := by
  refine .began ?_ (beginFetch_starts hs callPanics)
  unfold Task.beginFetch
  simp only [addInstant_eq hs.clock (minInterval_le cfg)]
  split_ifs
  · rw [fail_eq hs.clock]
    exact .of_eq rfl id
  · exact .of_eq rfl id

theorem signalStep_fail (hs : s.Invariant maxInstant cfg empty) {t : ℕ}
    (hphase : s.phase = .fetching t) : s.SignalStep (s.fail maxInstant cfg t) := by
  have hclock := hs.clock
  have hpast : t ≤ s.now := hs.past t (List.mem_of_head? (hs.fetching t hphase).1)
  rw [fail_eq (by omega)]
  exact .kept (.of_eq rfl id) id rfl rfl fun _ => .inl rfl

theorem signalStep_fetchOnce (hs : s.Invariant maxInstant cfg empty) {t : ℕ}
    (hphase : s.phase = .fetching t) (ready : Ready Body) :
    s.SignalStep (s.fetchOnce maxInstant cfg empty parse t ready) := by
  have hclock := hs.clock
  have hpast : t ≤ s.now := hs.past t (List.mem_of_head? (hs.fetching t hphase).1)
  unfold Task.fetchOnce
  by_cases hstopped : s.stopped = true
  · rw [if_pos hstopped]
    exact .kept (.of_eq rfl fun _ => rfl) id rfl rfl fun _ => .inr rfl
  · rw [if_neg hstopped]
    cases ready.fetch with
    | ok body maxAge =>
      dsimp only
      cases parse body with
      | none => exact signalStep_fail hs hphase
      | some set =>
        dsimp only
        rw [succeed_eq (by omega)]
        exact .kept (.of_eq rfl id) id rfl rfl fun _ => .inl rfl
    | err => exact signalStep_fail hs hphase
    | panic => exact signalStep_fail hs hphase
    | pending =>
      dsimp only
      split_ifs with htimeout hstale
      · exact signalStep_fail hs hphase
      · exact .kept (.of_eq rfl id) id rfl rfl .inl
      · exact .kept (.of_eq rfl id) id rfl rfl .inl

theorem signalStep_waitPhase (hs : s.Invariant maxInstant cfg empty) (hphase : s.phase = .waiting)
    (ready : Ready Body) : s.SignalStep (s.waitPhase maxInstant cfg empty ready) := by
  unfold Task.waitPhase
  split_ifs with hstopped hstale hdue hwake
  · exact .kept (.of_eq rfl fun _ => rfl) id rfl rfl fun _ => .inr rfl
  · exact .kept (.of_eq rfl id) id rfl rfl .inl
  · exact beginFetch_signal hs _
  · exact .taken (.of_eq rfl id) rfl rfl hphase
  · exact .kept (.of_eq rfl id) id rfl rfl .inl

theorem signal_step {a : Action Body} (hs : s.Invariant maxInstant cfg empty)
    (h : s.step maxInstant cfg empty parse a = some s') : s.SignalStep s' := by
  cases a with
  | tick time =>
    simp only [Task.step] at h
    split_ifs at h with htime
    cases h
    exact .kept ⟨htime.1, id⟩ id rfl rfl .inl
  | fire =>
    cases h
    split_ifs
    · exact .kept (.of_eq rfl id) id rfl rfl .inl
    · exact .kept (.of_eq rfl id) (fun _ => rfl) rfl rfl .inl
  | shutdown =>
    cases h
    exact .kept (.of_eq rfl fun _ => rfl) id rfl rfl .inl
  | poll ready =>
    simp only [Task.step] at h
    cases hphase : s.phase <;> simp only [hphase] at h <;> cases h
    · unfold Task.startRun
      simp only [armStale_eq hs.clock]
      split_ifs
      · exact .kept (.of_eq rfl fun _ => rfl) id rfl rfl fun _ => .inr rfl
      · exact .kept (.of_eq rfl id) id rfl rfl fun _ => .inl rfl
    · exact signalStep_waitPhase hs hphase ready
    · exact signalStep_fetchOnce hs hphase ready

theorem SignalStep.later (h : s.SignalStep s') :
    s.Later s' ∧ s.starts.length ≤ s'.starts.length := by
  cases h with
  | kept later wake starts received phase => exact ⟨later, by rw [starts]⟩
  | began later starts => exact ⟨later, by simp [starts]⟩
  | taken later starts received phase => exact ⟨later, by rw [starts]⟩

/-- A signal that came at some time: it waits, or it was taken, or a fetch has begun since. -/
def Signalled (since fetches : ℕ) (s : Task K) : Prop :=
  s.stopped = true ∨ fetches < s.starts.length ∨ s.wake = true ∨
    ∃ t, since ≤ t ∧ t ≤ s.now ∧ s.received = some t ∧ s.phase = .waiting

theorem SignalStep.signalled {since fetches : ℕ} (h : s.SignalStep s') (hsince : since ≤ s.now)
    (hfetches : fetches ≤ s.starts.length) (hsignal : s.Signalled since fetches) :
    s'.Signalled since fetches := by
  cases h with
  | kept later wake starts received phase =>
    rcases hsignal with hstop | hbegan | hwake | ⟨t, hfrom, hto, ht, hphase⟩
    · exact .inl (later.stopped hstop)
    · exact .inr (.inl (starts.symm ▸ hbegan))
    · exact .inr (.inr (.inl (wake hwake)))
    · rcases phase hphase with hphase | hstop
      · exact .inr (.inr (.inr ⟨t, hfrom, Nat.le_trans hto later.now, received.trans ht, hphase⟩))
      · exact .inl hstop
  | began later starts =>
    refine .inr (.inl ?_)
    rw [starts, List.length_cons]
    omega
  | taken later starts received phase =>
    exact .inr (.inr (.inr ⟨s.now, hsince, later.now, received, phase⟩))

end

section

def sampleConfig : RefreshConfig :=
  ⟨⟨seconds 60, seconds 10, seconds 5, some (seconds 65)⟩,
    ExceptChecks.eq_ok_of_toOption (by decide +kernel)⟩

def quiet : Ready ℕ := ⟨false, false, false, .pending, false⟩

end

end Task

end FandheBackend.JwtRefresh
