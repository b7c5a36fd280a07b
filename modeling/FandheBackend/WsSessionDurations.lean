import FandheBackend.WsSessionPlaces

set_option autoImplicit false

namespace FandheBackend.WsSession
open ActionRuns

section CheckedDeadline

/-- The search keeps a duration that fits below and one that does not above. -/
theorem checkedDeadlineSearch_spec {latest now lo hi : ℕ} (hlo : now + lo ≤ latest)
    (hhi : latest < now + hi) :
    now + checkedDeadlineSearch latest now lo hi ≤ latest ∧
      latest < now + checkedDeadlineSearch latest now lo hi + 1000000000 := by
  induction lo, hi using checkedDeadlineSearch.induct latest now with
  | case1 lo hi hwide hmid ih =>
    rw [checkedDeadlineSearch, if_pos hwide, if_pos hmid]
    exact ih hmid hhi
  | case2 lo hi hwide hmid ih =>
    rw [checkedDeadlineSearch, if_pos hwide, if_neg hmid]
    exact ih hlo (by omega)
  | case3 lo hi hwide =>
    rw [checkedDeadlineSearch, if_neg hwide]
    omega

theorem checkedDeadline_eq {latest now duration : ℕ} (h : now + duration ≤ latest) :
    checkedDeadline latest now duration = now + duration := by
  rw [checkedDeadline, checkedAdd, if_pos h]

/-- A sum that the clock cannot hold becomes an instant of its last second. -/
theorem checkedDeadline_saturates {latest now duration : ℕ} (hnow : now ≤ latest)
    (h : latest < now + duration) :
    now ≤ checkedDeadline latest now duration ∧ checkedDeadline latest now duration ≤ latest ∧
      latest < checkedDeadline latest now duration + 1000000000 := by
  obtain ⟨hfits, hlast⟩ := @checkedDeadlineSearch_spec latest now 0 duration (by omega) h
  rw [checkedDeadline, checkedAdd, if_neg (by omega)]
  dsimp only
  rw [checkedAdd, if_pos hfits, Option.getD_some]
  omega

theorem le_checkedDeadline {latest now : ℕ} (hnow : now ≤ latest) (duration : ℕ) :
    now ≤ checkedDeadline latest now duration := by
  by_cases h : now + duration ≤ latest
  · rw [checkedDeadline_eq h]
    exact Nat.le_add_right _ _
  · exact (checkedDeadline_saturates hnow (Nat.lt_of_not_le h)).1

end CheckedDeadline

section
variable {latest : ℕ} {config : Config} {s s' : Session}

variable (latest config) in
theorem Clock.processed_cases (c : Clock) :
    c.processed latest config = (.left, c) ∨
      c.processed latest config =
        (.top, { c with idleDeadline := config.idleTimeout.map (c.now + ·) }) ∧
      ∀ d ∈ config.idleTimeout, c.now + d ≤ latest := by
  unfold Clock.processed
  cases config.idleTimeout with
  | none => exact .inr ⟨rfl, by simp⟩
  | some d =>
    dsimp only
    cases hadd : checkedAdd latest c.now d with
    | none => exact .inl rfl
    | some deadline =>
      obtain ⟨hle, heq⟩ := Option.ite_none_right_eq_some.mp hadd
      cases heq
      refine .inr ⟨rfl, ?_⟩
      rintro _ ⟨⟩
      exact hle

theorem Clock.processed_now (c : Clock) : (c.processed latest config).2.now = c.now := by
  rcases c.processed_cases latest config with h | ⟨h, -⟩ <;> rw [h]

variable (latest config) in
theorem Clock.processed_keepalive (c : Clock) :
    (c.processed latest config).2.keepalive = c.keepalive := by
  rcases c.processed_cases latest config with h | ⟨h, -⟩ <;> rw [h]

theorem Clock.heard_now (c : Clock) (m : Message) : (c.heard m).now = c.now := by
  cases m <;> rfl

theorem Moved.now_le {a : Action} {v v' : Place × Clock} (h : Moved latest config a v v') :
    v.2.now ≤ v'.2.now := by
  cases h with
  | tick => exact Nat.le_add_right _ _
  | opened | served => rw [Clock.processed_now]
  | control => rw [Clock.processed_now, Clock.heard_now]
  | _ => exact le_rfl

theorem run_now_le {as : List Action} (h : run (Session.step latest config) as s = some s') :
    s.timers.now ≤ s'.timers.now :=
  run_invariant (fun t => s.timers.now ≤ t.timers.now)
    (fun _ _ _ _ hle hstep => hle.trans (step_moved hstep).now_le) le_rfl h

theorem additions_mem {a : Action} {d : ℕ} (h : d ∈ s.additions config a) :
    d ∈ config.idleTimeout ∨ d = config.closeGrace := by
  have hbound : d ∈ s.boundAdditions config → d ∈ config.idleTimeout ∨ d = config.closeGrace := by
    intro h
    unfold Session.boundAdditions at h
    split_ifs at h
    · cases h
    · exact .inr (List.mem_singleton.mp h)
  have htake : d ∈ s.takeAdditions config → d ∈ config.idleTimeout ∨ d = config.closeGrace := by
    intro h
    unfold Session.takeAdditions at h
    split at h
    · exact hbound h
    · cases h
  have hidle : d ∈ config.idleTimeout.toList → d ∈ config.idleTimeout ∨ d = config.closeGrace :=
    fun h => .inl (Option.mem_toList.mp h)
  have hreply : ∀ {reply}, d ∈ Session.replyAdditions config reply →
      d ∈ config.idleTimeout ∨ d = config.closeGrace := by
    intro reply h
    cases reply with
    | nil => exact hidle h
    | cons => cases h
  unfold Session.additions at h
  split at h
  · unfold Session.goAdditions at h
    split at h
    · exact hidle h
    · exact htake h
    · rw [List.mem_cons] at h
      rcases h with h | h
      · exact .inr h
      · split_ifs at h
        · cases h
        · exact hreply h
    · split_ifs at h
      · exact hreply h
      · exact htake h
    · unfold Session.nextAdditions at h
      split at h
      · exact .inr (List.mem_singleton.mp h)
      · cases h
    · cases h
  · exact htake h
  · exact hbound h
  · exact hidle h
  · exact hidle h
  · exact hidle h
  · exact .inr (List.mem_singleton.mp h)
  · exact .inr (List.mem_singleton.mp h)
  · split at h
    · exact hidle h
    · cases h
  · split_ifs at h
    · exact .inr (List.mem_singleton.mp h)
    · cases h
  · cases h

/-- The two durations can be added at every instant up to the horizon. -/
def Config.FitsUntil (config : Config) (latest horizon : ℕ) : Prop :=
  (∀ d ∈ config.idleTimeout, horizon + d ≤ latest) ∧ horizon + config.closeGrace ≤ latest

theorem not_panics_run {horizon : ℕ} (hfits : config.FitsUntil latest horizon) {as : List Action}
    (hphase : ¬ s.phase.Panics) (h : run (Session.step latest config) as s = some s')
    (hhorizon : s'.timers.now ≤ horizon) : ¬ s'.phase.Panics := by
  induction as generalizing s with
  | nil =>
    cases h
    exact hphase
  | cons a as ih =>
    obtain ⟨t, ht, hrun⟩ := run_cons h
    have hle : s.timers.now ≤ horizon :=
      ((step_moved ht).now_le.trans (run_now_le hrun)).trans hhorizon
    have hadd : ∀ d ∈ s.additions config a, s.timers.now + d ≤ latest := by
      intro d hd
      rcases additions_mem hd with hidle | rfl
      · exact (Nat.add_le_add_right hle d).trans (hfits.1 d hidle)
      · exact (Nat.add_le_add_right hle _).trans hfits.2
    exact ih (mt (told_step hphase ht).panics.mp (not_not_intro hadd)) hrun

theorem cancelled_panics (hphase : s.phase = .waiting ∨ ∃ payload, s.phase = .sending (.ping payload))
    (hreceiver : s.outbound.receiver = .attached)
    (hgrace : latest < s.timers.now + config.closeGrace) :
    ∃ s', run (Session.step latest config) [.cancel, .go, .go, .go] s = some s' ∧
      s'.timers.now = s.timers.now ∧ s'.phase.Panics := by
  have hcancel : s.cancel = some (s.quit (.close .cancelled Session.goingAway none)) := by
    unfold Session.cancel
    rcases hphase with hphase | ⟨payload, hphase⟩ <;> simp only [hphase]
  have hadd : checkedAdd latest s.timers.now config.closeGrace = none :=
    checkedAdd_eq_none.mpr (by omega)
  have hrun : run (Session.step latest config) [.cancel, .go, .go, .go] s =
      some { s.quit (.close .cancelled Session.goingAway none) with
        outbound := { s.outbound with
          closing := true
          sealed := true
          closedSignal := true
          receiver := .dropped
          queue := []
          free := s.outbound.free + s.outbound.queue.length }
        phase := .unwound } := by
    simp [run, Session.step, hcancel, Session.quit, Session.go, Session.sealStep,
      WsSender.Outbound.step, Session.enter, hreceiver, hadd]
  exact ⟨_, hrun, rfl, trivial⟩

theorem opened_now (s : Session) : (s.opened latest config).timers.now = s.timers.now := by
  have hview := processed_view latest config { s with
    timers := { s.timers with keepalive := config.ping.map (Keepalive.new latest s.timers.now) } }
  exact (congrArg (·.2.now) hview).trans (Clock.processed_now _)

theorem opened_fits (hfits : ∀ d ∈ config.idleTimeout, s.timers.now + d ≤ latest) :
    ∃ timers, s.opened latest config = { s with timers := timers, phase := .top } := by
  unfold Session.opened Session.processed
  cases hidle : config.idleTimeout with
  | none => exact ⟨_, rfl⟩
  | some d =>
    have hadd : checkedAdd latest s.timers.now d = some (s.timers.now + d) := by
      rw [checkedAdd, if_pos (hfits d hidle)]
    dsimp only
    rw [hadd]
    exact ⟨_, rfl⟩

theorem atTop_cases (s : Session) :
    (s.atTop.phase = .waiting ∨ ∃ payload, s.atTop.phase = .sending (.ping payload)) ∧
      s.atTop.outbound = s.outbound ∧ s.atTop.timers.now = s.timers.now := by
  unfold Session.atTop
  split
  · split
    · exact ⟨.inr ⟨_, rfl⟩, rfl, rfl⟩
    · exact ⟨.inl rfl, rfl, rfl⟩
  · exact ⟨.inl rfl, rfl, rfl⟩

/-- Where one of the two does not fit, a session that begins before the horizon can panic by
then: at its opening, or when it is cancelled. -/
theorem exists_panic {now horizon : ℕ} (hnow : now ≤ horizon) (hlast : horizon ≤ latest)
    (hnot : ¬ config.FitsUntil latest horizon) :
    ∃ as s, run (Session.step latest config) as (.new config now) = some s ∧
      s.timers.now ≤ horizon ∧ s.phase.Panics := by
  let s₀ : Session := { Session.new config now with
    timers := { (Session.new config now).timers with now := horizon } }
  have htick : (Session.new config now).step latest config (.tick (horizon - now)) = some s₀ := by
    have hadd : checkedAdd latest now (horizon - now) = some horizon := by
      rw [checkedAdd, Nat.add_sub_cancel' hnow, if_pos hlast]
    simp only [Session.step, Session.new, hadd, Option.map_some, s₀]
  have hgo : s₀.step latest config .go = some (s₀.opened latest config) := rfl
  have hnow₁ : (s₀.opened latest config).timers.now = horizon := opened_now s₀
  have htold := told_step (s := s₀) not_false hgo
  by_cases hopened : (s₀.opened latest config).phase.Panics
  · refine ⟨[.tick (horizon - now), .go], _, ?_, hnow₁.le, hopened⟩
    rw [run, htick, Option.bind_some, run, hgo, Option.bind_some, run]
  · have hidle : ∀ d ∈ config.idleTimeout, horizon + d ≤ latest := by
      intro d hd
      have hall := not_not.mp (mt htold.panics.mpr hopened)
      exact hall d (Option.mem_toList.mpr hd)
    have hgrace : latest < horizon + config.closeGrace := by
      by_contra hle
      exact hnot ⟨hidle, Nat.not_lt.mp hle⟩
    obtain ⟨timers, heq⟩ := opened_fits (s := s₀) hidle
    obtain ⟨hphase, houtbound, hnow₂⟩ := atTop_cases (s₀.opened latest config)
    have htop : (s₀.opened latest config).step latest config .go =
        some (s₀.opened latest config).atTop := by
      rw [heq]
      rfl
    have hreceiver : (s₀.opened latest config).atTop.outbound.receiver = .attached := by
      rw [houtbound, heq]
      rfl
    obtain ⟨s, hrun, hs, hpanics⟩ := @cancelled_panics latest config _ hphase hreceiver
      (by rw [hnow₂, hnow₁]; exact hgrace)
    refine ⟨.tick (horizon - now) :: .go :: .go :: [.cancel, .go, .go, .go], s, ?_, ?_, hpanics⟩
    · rw [run, htick, Option.bind_some, run, hgo, Option.bind_some, run, htop, Option.bind_some]
      exact hrun
    · rw [hs, hnow₂, hnow₁]

/-- No session panics by the horizon exactly when both durations fit there; the deadlines of the
keepalive are instants whatever its durations are. -/
theorem durations_law {now horizon : ℕ} (hnow : now ≤ horizon) (hlast : horizon ≤ latest) :
    ((∀ as s, run (Session.step latest config) as (.new config now) = some s →
        s.timers.now ≤ horizon → ¬ s.phase.Panics) ↔
      config.FitsUntil latest horizon) ∧
    ∀ duration, now ≤ checkedDeadline latest now duration ∧
      (now + duration ≤ latest → checkedDeadline latest now duration = now + duration) ∧
      (latest < now + duration → checkedDeadline latest now duration ≤ latest ∧
        latest < checkedDeadline latest now duration + 1000000000) := by
  have hfirst : now ≤ latest := hnow.trans hlast
  refine ⟨⟨fun hall => ?_, fun hfits as s h hs =>
      not_panics_run (s := .new config now) hfits not_false h hs⟩,
    fun duration => ⟨le_checkedDeadline hfirst duration, checkedDeadline_eq,
      fun h => (checkedDeadline_saturates hfirst h).2⟩⟩
  by_contra hnot
  obtain ⟨as, s, h, hs, hpanics⟩ := exists_panic hnow hlast hnot
  exact hall as s h hs hpanics

/-- The clock of a 64-bit Unix, with the seconds of an instant in an `i64`. -/
def unixLatest : ℕ := 9223372036854775807999999999

/-- `WebSocketConfig::default()`. -/
def defaultConfig : Config := ⟨some 60000000000, 10000000000, none, 8, by decide, by decide⟩

/-- No session of the default configuration panics in a hundred years. -/
theorem durations_law_default :
    defaultConfig.FitsUntil unixLatest 3155760000000000000 ∧
      ∀ as s, run (Session.step unixLatest defaultConfig) as (.new defaultConfig 0) = some s →
        s.timers.now ≤ 3155760000000000000 → ¬ s.phase.Panics := by
  have hfits : defaultConfig.FitsUntil unixLatest 3155760000000000000 := by
    refine ⟨?_, by decide⟩
    rintro d ⟨⟩
    decide
  exact ⟨hfits, (durations_law (Nat.zero_le _) (by decide)).1.mpr hfits⟩

def maxGraceConfig : Config := { defaultConfig with closeGrace := 18446744073709551615999999999 }

/-- The first reply of a handler reaches the addition, and the session unwinds. -/
theorem max_grace_panics :
    ∃ s, run (Session.step unixLatest maxGraceConfig)
        [.go, .go, .inbound (some (.ok (.text "q"))), .handled (.ok (.reply [.text "r"])), .go, .go]
        (.new maxGraceConfig 0) = some s ∧ s.phase.Panics :=
  ⟨_, rfl, trivial⟩

end

end FandheBackend.WsSession
