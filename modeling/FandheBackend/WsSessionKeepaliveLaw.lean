import FandheBackend.WsSessionPace

set_option autoImplicit false

namespace FandheBackend.WsSession
open StdBytes ActionRuns WsSender

structure Watch.Calm (latest : ℕ) (config : Config) (p : PingKeepalive) (idle : ℕ) (w : Watch) :
    Prop where
  pings : w.Pings latest config
  idles : w.Idles config
  paced : w.place.InLoop → w.Paced latest p idle
  not_idle : w.ended ≠ some .idleTimeout

structure Watch.Answered (p : PingKeepalive) (w : Watch) : Prop where
  expects : w.place ≠ .left → w.Expects p
  running : w.ended = none

/-- The client sends nothing, and the time for its answer has not run out. -/
structure Watch.Silent (w : Watch) : Prop where
  frames : w.arrivals.frames = []
  not_serving : w.place ≠ .serving
  waits : w.place.InLoop → ∀ x ∈ w.clock.pending, w.clock.now ≤ x.deadline

section
variable {latest : ℕ} {config : Config} {p : PingKeepalive} {idle : ℕ} {w w' : Watch} {a : Action}

theorem Watch.Calm.step (hconfig : config.Recommended p idle) (h : w.Calm latest config p idle)
    (hpunctual : w.punctual a = true) (hstep : Watched latest config a w w') :
    w'.Calm latest config p idle := by
  refine ⟨h.pings.step hstep, h.idles.step hstep,
    Watch.Paced.step hconfig h.pings h.paced hpunctual hstep, ?_⟩
  rcases hstep.ended_cases with hsame | ⟨deadline, kind, hp, hkind, hended, hleg, -⟩
  · rw [hsame]
    exact h.not_idle
  · obtain ⟨rfl, -⟩ :=
      (h.paced (by rw [hp]; trivial)).expired hconfig h.pings h.idles hp hleg hkind
    rw [hended]
    rintro ⟨⟩

/-- At the deadline of a Ping its answer has arrived, and `ws.next()` is polled first. -/
theorem Watch.Answered.step (hconfig : config.Recommended p idle)
    (hcalm : w.Calm latest config p idle) (h : w.Answered p) (hanswers : w.answers config a = true)
    (hstep : Watched latest config a w w') : w'.Answered p := by
  refine ⟨fun hp' => Watch.Expects.step hconfig hcalm.pings h.expects hanswers hstep hp', ?_⟩
  rcases hstep.ended_cases with hsame | ⟨deadline, kind, hp, hkind, -, hleg, hle, hready⟩
  · exact hsame.trans h.running
  · obtain ⟨-, ping, hping, rfl⟩ :=
      (hcalm.paced (by rw [hp]; trivial)).expired hconfig hcalm.pings hcalm.idles hp hleg hkind
    obtain ⟨arrival, harrival, hframe⟩ := h.expects (by rw [hp]; rintro ⟨⟩) ping hping
    have hsome := Arrivals.ready_of_mem hframe (harrival.trans hle)
    rw [hready] at hsome
    cases hsome

theorem Watch.Silent.tick (hconfig : config.Recommended p idle)
    (hcalm : w.Calm latest config p idle) (h : w.Silent) (hp : w.place.InLoop) {d : ℕ}
    (hpunctual : w.punctual (.tick d) = true) {x : PendingPing} (hx : w.clock.pending = some x) :
    w.clock.now + d ≤ x.deadline := by
  obtain ⟨k, hk, hleg, -⟩ :=
    (hcalm.paced hp).timerLeg_eq hconfig hcalm.pings hcalm.idles hp h.not_serving
  rcases Watch.now_le_of_punctual hp h.not_serving hpunctual hk with rfl | hle
  · exact h.waits hp x hx
  · rw [Clock.pending, hk, Option.bind_some] at hx
    rcases k.timerLeg_cases with ⟨x', hx', hxleg⟩ | ⟨hnone, -⟩
    · cases hx.symm.trans hx'
      rw [hxleg] at hle
      exact hle
    · rw [hx] at hnone
      cases hnone

theorem Watch.Silent.step (hconfig : config.Recommended p idle)
    (hcalm : w.Calm latest config p idle) (h : w.Silent) (hpunctual : w.punctual a = true)
    (hstep : Watched latest config a w w') : w'.Silent := by
  have hunheard : ∀ {frame}, w.arrivals.frames.head? ≠ some frame := by
    intro frame
    rw [h.frames]
    rintro ⟨⟩
  cases hstep with
  | tick => exact ⟨h.frames, h.not_serving, fun hp x hx => h.tick hconfig hcalm hp hpunctual hx⟩
  | stay => exact h
  | leave | expired => exact ⟨h.frames, by rintro ⟨⟩, fun hp => hp.elim⟩
  | hungUp =>
    refine ⟨?_, by rintro ⟨⟩, fun hp => hp.elim⟩
    change w.arrivals.frames.tail = []
    rw [h.frames, List.tail_nil]
  | data _ _ hframe | control _ _ hframe => exact absurd hframe hunheard
  | served hp => exact absurd hp h.not_serving
  | rest hp | taken hp | pushed hp | due hp =>
    exact ⟨h.frames, by rintro ⟨⟩, fun _ => h.waits (by rw [hp]; trivial)⟩
  | ping hp hk hdue =>
    refine ⟨h.frames, by rintro ⟨⟩, fun _ x hx => ?_⟩
    rw [Clock.pending, Option.bind_some, Keepalive.pending_of_due hdue] at hx
    cases hx
  | @pinged _ payload hp =>
    refine ⟨h.frames, by rintro ⟨⟩, fun _ x hx => ?_⟩
    rw [Clock.pending, Option.mem_def, Option.bind_eq_some_iff] at hx
    obtain ⟨k, hk, hx⟩ := hx
    obtain ⟨k, -, rfl⟩ := Option.map_eq_some_iff.mp hk
    cases hx
    exact le_checkedDeadline hcalm.pings.now_le _
  | opened =>
    refine ⟨h.frames, ?_, fun _ x hx => ?_⟩
    · rcases processed_place_cases latest config _ with hp | hp <;>
        rw [hp] <;> rintro ⟨⟩
    · rw [processed_pending] at hx
      cases hping : config.ping <;> rw [hping] at hx <;> cases hx

/-- A client that sends nothing keeps the session at most for a Ping and the wait for its Pong. -/
theorem Watch.Silent.now_le (hconfig : config.Recommended p idle)
    (hcalm : w.Calm latest config p idle) (h : w.Silent) (hp : w.place.InLoop) :
    w.clock.now ≤ w.processedAt + p.interval + p.pongTimeout := by
  have hpaced := hcalm.paced hp
  obtain ⟨k, hk, -, hnone⟩ := hpaced.keepalive
  cases hpending : k.pending with
  | none => exact (hnone hpending h.not_serving).2.trans (Nat.le_add_right _ _)
  | some x =>
    have hx : w.clock.pending = some x := by
      rw [Clock.pending, hk]
      exact hpending
    obtain ⟨-, -, -, hle⟩ := hpaced.deadline_eq hconfig hcalm.pings hx
    exact (h.waits hp x hx).trans hle

end

namespace Timed

/-- A punctual session of a client that sends nothing. -/
structure Hushed (latest : ℕ) (config : Config) (p : PingKeepalive) (idle : ℕ) (t : Timed) :
    Prop where
  calm : t.watch.Calm latest config p idle
  silent : t.watch.Silent

/-- The session can go on to the deadline of a Ping, with every timer in time. -/
def TimesOut (latest : ℕ) (config : Config) (t : Timed) : Prop :=
  ∃ as t', run (Timed.step latest config) as t = some t' ∧
    Along (Timed.step latest config) (·.punctual ·) as t ∧ t'.ended = some .pongTimeout

section
variable {latest : ℕ} {config : Config} {p : PingKeepalive} {idle : ℕ} {t t' : Timed} {a : Action}

theorem Hushed.step (hconfig : config.Recommended p idle) (h : t.Hushed latest config p idle)
    (hstep : t.step latest config a = some t') (hpunctual : t.punctual a = true) :
    t'.Hushed latest config p idle := by
  have hwatched := step_watched hstep
  exact ⟨h.calm.step hconfig hpunctual hwatched, h.silent.step hconfig h.calm hpunctual hwatched⟩

theorem TimesOut.of_step (hstep : t.step latest config a = some t')
    (hpunctual : t.punctual a = true) (h : t'.TimesOut latest config) :
    t.TimesOut latest config := by
  obtain ⟨as, u, hrun, halong, hended⟩ := h
  refine ⟨a :: as, u, ?_, (along_cons hstep).mpr ⟨hpunctual, halong⟩, hended⟩
  rw [run, hstep, Option.bind_some]
  exact hrun

theorem step_eq {s : Session} (hadmits : t.admits a = true)
    (h : t.session.step latest config a = some s) :
    t.step latest config a = some (t.after a s) := by
  rw [Timed.step, if_pos hadmits, h, Option.map_some]

theorem step_tick {d : ℕ} (hfits : t.now + d ≤ latest) :
    t.step latest config (.tick d) = some (t.after (.tick d)
      { t.session with timers := { t.session.timers with now := t.now + d } }) := by
  refine step_eq rfl ?_
  rw [Session.step, show t.session.timers.now = t.now from rfl, checkedAdd, if_pos hfits,
    Option.map_some]

theorem step_timer (hp : t.session.phase = .waiting) (hready : t.arrivals.ready t.now = false)
    {deadline : ℕ} {kind : TimerKind} (hleg : t.watch.clock.timerLeg = some (deadline, kind))
    (hle : deadline ≤ t.now) :
    t.step latest config .timer = some (t.after .timer (t.session.timer kind)) := by
  refine step_eq (by rw [Timed.admits, hready]; rfl) ?_
  have hleg' : Session.timerLeg t.session.timers = some (deadline, kind) := hleg
  simp only [Session.step, hp, hleg']
  exact if_pos hle

theorem Hushed.ready_eq (h : t.Hushed latest config p idle) (now : ℕ) :
    t.arrivals.ready now = false := by
  rw [Arrivals.ready, show t.arrivals.frames = [] from h.silent.frames]
  rfl

theorem TimesOut.wait (hconfig : config.Recommended p idle) (h : t.Hushed latest config p idle)
    (hp : t.session.phase = .waiting) {k : Keepalive} (hk : t.session.timers.keepalive = some k)
    (hnext : ∀ {t₁ : Timed}, t₁.Hushed latest config p idle → t₁.session.phase = .waiting →
      t₁.session.timers.keepalive = some k → t₁.watch.clock.timerLeg = some k.timerLeg →
      k.timerLeg.1 ≤ t₁.now → t₁.TimesOut latest config) : t.TimesOut latest config := by
  have hplace : t.place = .waiting := by
    rw [Timed.place, hp]
    rfl
  have hpaced := h.calm.paced (by rw [show t.watch.place = .waiting from hplace]; trivial)
  obtain ⟨k', hk', hleg, hle⟩ := hpaced.timerLeg_eq hconfig h.calm.pings h.calm.idles
    (by rw [show t.watch.place = .waiting from hplace]; trivial) h.silent.not_serving
  cases hk.symm.trans hk'
  by_cases hdue : k.timerLeg.1 ≤ t.now
  · exact hnext h hp hk hleg hdue
  · have heq : t.now + (k.timerLeg.1 - t.now) = k.timerLeg.1 := by omega
    have hfits := hpaced.fits
    have hlt := hconfig.fits
    have hstep : t.step latest config (.tick (k.timerLeg.1 - t.now)) = _ := step_tick (by omega)
    have hpunctual : t.punctual (.tick (k.timerLeg.1 - t.now)) = true := by
      simp only [Timed.punctual, Watch.punctual, show t.watch.place = .waiting from hplace, hleg,
        Option.all_some, decide_eq_true_eq]
      exact heq.le
    exact .of_step hstep hpunctual
      (hnext (h.step hconfig hstep hpunctual) hp hk hleg heq.ge)

theorem Hushed.keepalive (h : t.Hushed latest config p idle) {place : Place}
    (hplace : t.session.phase.place = place) (hp : place.InLoop) :
    ∃ k, t.session.timers.keepalive = some k := by
  have hloop : t.watch.place.InLoop := by
    rw [show t.watch.place = place from hplace]
    exact hp
  obtain ⟨k, hk, -⟩ := (h.calm.paced hloop).keepalive
  exact ⟨k, hk⟩

theorem Hushed.timesOut_pending (hconfig : config.Recommended p idle)
    (h : t.Hushed latest config p idle) (hp : t.session.phase = .waiting) {k : Keepalive}
    (hk : t.session.timers.keepalive = some k) {x : PendingPing} (hx : k.pending = some x) :
    t.TimesOut latest config := by
  refine .wait hconfig h hp hk fun h₁ hp₁ _ hleg hle => ?_
  have hkleg : k.timerLeg = (x.deadline, .pongDeadline) := by rw [Keepalive.timerLeg, hx]
  rw [hkleg] at hleg hle
  exact .of_step (step_timer hp₁ (h₁.ready_eq _) hleg hle) rfl ⟨[], _, rfl, trivial, rfl⟩

theorem Hushed.timesOut_inFlight (hconfig : config.Recommended p idle)
    (h : t.Hushed latest config p idle) {payload : Bytes}
    (hp : t.session.phase = .inFlight (.ping payload)) : t.TimesOut latest config := by
  obtain ⟨k, hk⟩ := h.keepalive (congrArg Phase.place hp) trivial
  have hstep : t.step latest config (.sendDone (.ok ())) = some (t.after (.sendDone (.ok ()))
      (t.session.sent latest config (.ping payload))) := by
    refine step_eq rfl ?_
    simp only [Session.step, Session.sendDone, hp]
  exact .of_step hstep rfl
    ((h.step hconfig hstep rfl).timesOut_pending hconfig rfl (congrArg (Option.map _) hk) rfl)

theorem Hushed.timesOut_sending (hconfig : config.Recommended p idle)
    (h : t.Hushed latest config p idle) {payload : Bytes}
    (hp : t.session.phase = .sending (.ping payload)) : t.TimesOut latest config := by
  have hstep : t.step latest config .go = some (t.after .go (t.session.startSend (.ping payload))) :=
    step_eq rfl (by simp only [Session.step, Session.go, hp])
  exact .of_step hstep rfl ((h.step hconfig hstep rfl).timesOut_inFlight hconfig rfl)

theorem step_top (hp : t.session.phase = .top) :
    t.step latest config .go = some (t.after .go t.session.atTop) :=
  step_eq rfl (by simp only [Session.step, Session.go, hp])

theorem Hushed.timesOut_due (hconfig : config.Recommended p idle)
    (h : t.Hushed latest config p idle) (hp : t.session.phase = .top) {k : Keepalive}
    (hk : t.session.timers.keepalive = some k) (hdue : k.due t.now = true) :
    t.TimesOut latest config := by
  have hphase : t.session.atTop.phase = .sending (.ping k.payload) := by
    have hdue' : k.due t.session.timers.now = true := hdue
    simp only [Session.atTop, hk, hdue', if_true]
  exact .of_step (step_top hp) rfl
    ((h.step hconfig (step_top hp) rfl).timesOut_sending hconfig hphase)

theorem Hushed.timesOut_waiting (hconfig : config.Recommended p idle)
    (h : t.Hushed latest config p idle) (hp : t.session.phase = .waiting) :
    t.TimesOut latest config := by
  obtain ⟨k, hk⟩ := h.keepalive (congrArg Phase.place hp) trivial
  cases hx : k.pending with
  | some x => exact h.timesOut_pending hconfig hp hk hx
  | none =>
    refine .wait hconfig h hp hk fun {t₁} h₁ hp₁ hk₁ hleg hle => ?_
    have hkleg : k.timerLeg = (k.nextPingAt, .pingDue) := by rw [Keepalive.timerLeg, hx]
    rw [hkleg] at hleg hle
    have hstep : t₁.step latest config .timer = _ := step_timer hp₁ (h₁.ready_eq _) hleg hle
    refine .of_step hstep rfl ((h₁.step hconfig hstep rfl).timesOut_due hconfig rfl hk₁ ?_)
    rw [Keepalive.due, hx]
    exact decide_eq_true hle

theorem Hushed.timesOut_top (hconfig : config.Recommended p idle)
    (h : t.Hushed latest config p idle) (hp : t.session.phase = .top) :
    t.TimesOut latest config := by
  obtain ⟨k, hk⟩ := h.keepalive (congrArg Phase.place hp) trivial
  cases hdue : k.due t.now with
  | true => exact h.timesOut_due hconfig hp hk hdue
  | false =>
    have hphase : t.session.atTop.phase = .waiting := by
      have hdue' : k.due t.session.timers.now = false := hdue
      simp only [Session.atTop, hk, hdue', Bool.false_eq_true, if_false]
    exact .of_step (step_top hp) rfl
      ((h.step hconfig (step_top hp) rfl).timesOut_waiting hconfig hphase)

theorem Hushed.timesOut_pushed (hconfig : config.Recommended p idle)
    (h : t.Hushed latest config p idle) {call : ℕ} {msg : WsMessage}
    (hp : t.session.phase = .inFlight (.push call msg .loop)) : t.TimesOut latest config := by
  have hstep : t.step latest config (.sendDone (.ok ())) = some (t.after (.sendDone (.ok ()))
      (t.session.sent latest config (.push call msg .loop))) := by
    refine step_eq rfl ?_
    simp only [Session.step, Session.sendDone, hp]
  exact .of_step hstep rfl ((h.step hconfig hstep rfl).timesOut_top hconfig rfl)

/-- From every state in its loop the session of a silent client can go on to the missing Pong. -/
theorem Hushed.timesOut (hconfig : config.Recommended p idle)
    (h : t.Hushed latest config p idle) (hp : t.place.InLoop) : t.TimesOut latest config := by
  have hserving : t.place ≠ .serving := h.silent.not_serving
  rw [Timed.place] at hp hserving
  cases hphase : t.session.phase with
  | top => exact h.timesOut_top hconfig hphase
  | waiting => exact h.timesOut_waiting hconfig hphase
  | inFlight what =>
    cases what with
    | ping => exact h.timesOut_inFlight hconfig hphase
    | reply => exact absurd (congrArg Phase.place hphase) hserving
    | push call msg back =>
      cases back with
      | loop => exact h.timesOut_pushed hconfig hphase
      | flush =>
        rw [hphase] at hp
        exact hp.elim
      | _ => exact absurd (congrArg Phase.place hphase) hserving
  | sending what =>
    cases what with
    | ping => exact h.timesOut_sending hconfig hphase
    | reply => exact absurd (congrArg Phase.place hphase) hserving
    | push call msg back =>
      cases back with
      | loop =>
        have hstep : t.step latest config .go =
            some (t.after .go (t.session.startSend (.push call msg .loop))) :=
          step_eq rfl (by simp only [Session.step, Session.go, hphase])
        exact .of_step hstep rfl ((h.step hconfig hstep rfl).timesOut_pushed hconfig rfl)
      | flush =>
        rw [hphase] at hp
        exact hp.elim
      | _ => exact absurd (congrArg Phase.place hphase) hserving
  | handling | drainBeforeReply | decide | drainToClose =>
    exact absurd (congrArg Phase.place hphase) hserving
  | _ =>
    rw [hphase] at hp
    exact hp.elim

end

end Timed

section
variable {latest : ℕ} {config : Config} {now : ℕ} {arrivals : Arrivals} {as : List Action} {t : Timed}

theorem pings_run (hnow : now ≤ latest)
    (h : run (Timed.step latest config) as (.new config now arrivals) = some t) :
    t.watch.Pings latest config ∧ t.watch.Idles config := by
  refine run_invariant (fun t => t.watch.Pings latest config ∧ t.watch.Idles config) ?_
    ⟨new_pings hnow arrivals, new_idles now arrivals⟩ h
  intro a _ s s' hs hstep
  have hwatched := step_watched hstep
  exact ⟨hs.1.step hwatched, hs.2.step hwatched⟩

variable {p : PingKeepalive} {idle : ℕ}

theorem new_calm (hnow : now ≤ latest) :
    (Timed.new config now arrivals).watch.Calm latest config p idle :=
  ⟨new_pings hnow arrivals, new_idles now arrivals, fun hp => hp.elim, by rintro ⟨⟩⟩

theorem calm_run (hconfig : config.Recommended p idle) (hnow : now ≤ latest)
    (h : run (Timed.step latest config) as (.new config now arrivals) = some t)
    (hpunctual : Along (Timed.step latest config) (·.punctual ·) as (.new config now arrivals)) :
    t.watch.Calm latest config p idle := by
  refine run_invariant_along (fun t => t.watch.Calm latest config p idle) _ ?_ (new_calm hnow)
    hpunctual h
  intro s a s' hs hok hstep
  exact hs.step hconfig hok (step_watched hstep)

theorem answered_run (hconfig : config.Recommended p idle) (hnow : now ≤ latest)
    (h : run (Timed.step latest config) as (.new config now arrivals) = some t)
    (hpunctual : Along (Timed.step latest config) (·.punctual ·) as (.new config now arrivals))
    (hanswers : Along (Timed.step latest config) (·.answers config ·) as
      (.new config now arrivals)) : t.ended = none := by
  have hnew : (Timed.new config now arrivals).watch.Answered p := by
    refine ⟨fun _ ping hping => ?_, rfl⟩
    cases hping
  refine (run_invariant_along
    (fun t : Timed => t.watch.Calm latest config p idle ∧ t.watch.Answered p) _ ?_
    ⟨new_calm hnow, hnew⟩ (hpunctual.and hanswers) h).2.running
  intro s a s' hs hok hstep
  have hwatched := step_watched hstep
  exact ⟨hs.1.step hconfig hok.1 hwatched, hs.2.step hconfig hs.1 hok.2 hwatched⟩

theorem hushed_run (hconfig : config.Recommended p idle) (hnow : now ≤ latest)
    (hsilent : arrivals.frames = [])
    (h : run (Timed.step latest config) as (.new config now arrivals) = some t)
    (hpunctual : Along (Timed.step latest config) (·.punctual ·) as (.new config now arrivals)) :
    t.Hushed latest config p idle := by
  refine run_invariant_along (Timed.Hushed latest config p idle) _
    (fun hs hok hstep => hs.step hconfig hstep hok) ⟨new_calm hnow, hsilent, ?_, fun hp => hp.elim⟩
    hpunctual h
  rintro ⟨⟩

/-- In every run at most one Ping is unanswered, only its own Pong ends the wait for it, and the
timers end the session no earlier than the Ping and the last frame allow. Punctual runs of the
recommended configuration are never ended by the idle timeout: not by a timer at all when the
client answers, and by the missing Pong when it is silent. -/
theorem keepalive_law (hnow : now ≤ latest) (arrivals : Arrivals) :
    (∀ as t, run (Timed.step latest config) as (.new config now arrivals) = some t →
      t.Lawful config ∧
        ∀ a t', t.step latest config a = some t' → t.LawfulStep latest config a t') ∧
    ∀ p idle, config.Recommended p idle →
      ∀ as t, run (Timed.step latest config) as (.new config now arrivals) = some t →
        Along (Timed.step latest config) (·.punctual ·) as (.new config now arrivals) →
          t.ended ≠ some .idleTimeout ∧
          (Along (Timed.step latest config) (·.answers config ·) as (.new config now arrivals) →
            t.ended = none) ∧
          (arrivals.frames = [] → t.place.InLoop →
            t.now ≤ t.processedAt + p.interval + p.pongTimeout ∧ t.TimesOut latest config) := by
  refine ⟨fun as t h => ?_, fun p idle hconfig as t h hpunctual =>
    ⟨(calm_run hconfig hnow h hpunctual).not_idle, answered_run hconfig hnow h hpunctual,
      fun hsilent hp => ?_⟩⟩
  · obtain ⟨hpings, hidles⟩ := pings_run hnow h
    exact ⟨lawful_of_watch hpings hidles, fun a t' => lawfulStep_of_watch hpings hidles⟩
  · have hhushed := hushed_run hconfig hnow hsilent h hpunctual
    exact ⟨hhushed.silent.now_le hconfig hhushed.calm hp, hhushed.timesOut hconfig hp⟩

end

/-- `with_idle_timeout` and `with_ping_interval` with 60, 30 and 10 seconds. -/
def recommendedConfig : Config :=
  { defaultConfig with ping := some ⟨30000000000, 10000000000, by decide, by decide⟩ }

/-- A client that answers its first Ping after five seconds. -/
def answering : Arrivals :=
  ⟨[(35000000000, some (.ok (.pong [0, 0, 0, 0, 0, 0, 0, 0])))], List.pairwise_singleton _ _⟩

def firstPing : List Action :=
  [.go, .go, .tick 30000000000, .timer, .go, .go, .sendDone (.ok ()), .tick 5000000000]

theorem keepalive_law_recommended :
    (∃ t, run (Timed.step unixLatest recommendedConfig) firstPing
        (.new recommendedConfig 0 .silent) = some t ∧ t.Lawful recommendedConfig ∧
      t.ended ≠ some .idleTimeout ∧ t.now ≤ t.processedAt + 30000000000 + 10000000000 ∧
      t.TimesOut unixLatest recommendedConfig) ∧
    ∃ t, run (Timed.step unixLatest recommendedConfig) firstPing
        (.new recommendedConfig 0 answering) = some t ∧ t.ended = none := by
  have hconfig : recommendedConfig.Recommended ⟨30000000000, 10000000000, by decide, by decide⟩
      60000000000 := ⟨rfl, rfl, by decide⟩
  have hpunctual : ∀ arrivals : Arrivals,
      checkAlong (Timed.step unixLatest recommendedConfig) Timed.punctual firstPing
        (.new recommendedConfig 0 arrivals) = true →
      Along (Timed.step unixLatest recommendedConfig) (·.punctual ·) firstPing
        (.new recommendedConfig 0 arrivals) := fun _ => along_of_checkAlong id
  have hsilent : (run (Timed.step unixLatest recommendedConfig) firstPing
      (.new recommendedConfig 0 .silent)).map Timed.place = some .waiting := by rfl
  have hanswering : (run (Timed.step unixLatest recommendedConfig) firstPing
      (.new recommendedConfig 0 answering)).isSome = true := by decide
  obtain ⟨t, ht, hplace⟩ := Option.map_eq_some_iff.mp hsilent
  obtain ⟨u, hu⟩ := Option.isSome_iff_exists.mp hanswering
  refine ⟨⟨t, ht, ?_⟩, u, hu, ?_⟩
  · obtain ⟨hall, hrecommended⟩ :=
      @keepalive_law unixLatest recommendedConfig 0 (Nat.zero_le _) .silent
    obtain ⟨hidle, -, hends⟩ := hrecommended _ _ hconfig _ t ht (hpunctual _ (by decide))
    obtain ⟨hnow, htimesOut⟩ := hends rfl (by rw [hplace]; trivial)
    exact ⟨(hall _ t ht).1, hidle, hnow, htimesOut⟩
  · refine ((keepalive_law (Nat.zero_le _) answering).2 _ _ hconfig _ u hu
      (hpunctual _ (by decide))).2.1 ?_
    exact along_of_checkAlong (fun {t : Timed} {a} (h : t.answers recommendedConfig a = true) => h)
      (by decide)

/-- `with_ping_interval` with 30 seconds and `Duration::MAX`, and no idle timeout. -/
def maxPongConfig : Config :=
  { defaultConfig with
    idleTimeout := none
    ping := some ⟨30000000000, 18446744073709551615999999999, by decide, by decide⟩ }

/-- In the last minute of the clock a Ping is sent, and its deadline is in the last second. -/
theorem pong_timeout_early :
    ∃ t t', run (Timed.step unixLatest maxPongConfig)
        [.go, .go, .tick 30000000000, .timer, .go, .go, .sendDone (.ok ()), .tick 30000000000]
        (.new maxPongConfig 9223372036854775747999999999 .silent) = some t ∧
      t.step unixLatest maxPongConfig .timer = some t' ∧ t.ended = none ∧
      t'.ended = some .pongTimeout ∧
      ∀ ping ∈ t.unanswered, ∀ p ∈ maxPongConfig.ping, t.now < ping.1 + p.pongTimeout := by
  have hrun : (run (Timed.step unixLatest maxPongConfig)
      [.go, .go, .tick 30000000000, .timer, .go, .go, .sendDone (.ok ()), .tick 30000000000]
      (.new maxPongConfig 9223372036854775747999999999 .silent)).map
        (fun t => (t.session.phase, t.now, t.arrivals.frames, t.watch.clock.timerLeg, t.unanswered,
          t.ended)) =
      some (.waiting, unixLatest, [], some (checkedDeadline unixLatest 9223372036854775777999999999
        18446744073709551615999999999, .pongDeadline),
        [(9223372036854775777999999999, [0, 0, 0, 0, 0, 0, 0, 0])], none) := by rfl
  obtain ⟨t, ht, hfacts⟩ := Option.map_eq_some_iff.mp hrun
  simp only [Prod.mk.injEq] at hfacts
  obtain ⟨hphase, hnow, hframes, hleg, hunanswered, hended⟩ := hfacts
  obtain ⟨-, hle, -⟩ := @checkedDeadline_saturates unixLatest
    9223372036854775777999999999 18446744073709551615999999999 (by decide) (by decide)
  refine ⟨t, _, ht, Timed.step_timer hphase ?_ hleg (by rw [hnow]; exact hle), hended, rfl, ?_⟩
  · rw [Arrivals.ready, hframes]
    rfl
  · rintro ping hping p ⟨⟩
    rw [hunanswered] at hping
    cases List.mem_singleton.mp hping
    rw [hnow]
    decide

end FandheBackend.WsSession
