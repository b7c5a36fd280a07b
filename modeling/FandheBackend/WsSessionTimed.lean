import FandheBackend.WsSessionDurations

set_option autoImplicit false

/-!
# Timed sessions

A session with a client whose frames arrive at set instants. `race2` polls `ws.next()` before
the timer, so a timer ends the wait only when no frame has arrived. Beside the session stands
what an observer would note: when the last frame of the client was done with, which Pings are
unanswered, and with which reason a timer has ended the session.
-/
namespace FandheBackend.WsSession
open StdBytes ActionRuns WsSender

/-- What the client sends, each with the instant at which it arrives. -/
structure Arrivals where
  frames : List (ℕ × Option (Except StreamError Message))
  sorted : frames.Pairwise fun a b => a.1 ≤ b.1

namespace Arrivals

def silent : Arrivals := ⟨[], .nil⟩

def rest (arrivals : Arrivals) : Arrivals := ⟨arrivals.frames.tail, arrivals.sorted.tail⟩

def ready (arrivals : Arrivals) (now : ℕ) : Bool := arrivals.frames.head?.any (·.1 ≤ now)

theorem ready_of_mem {arrivals : Arrivals} {frame : ℕ × Option (Except StreamError Message)}
    (h : frame ∈ arrivals.frames) {now : ℕ} (hnow : frame.1 ≤ now) : arrivals.ready now = true := by
  obtain ⟨frames, hsorted⟩ := arrivals
  cases frames with
  | nil => cases h
  | cons first frames =>
    have hfirst : first.1 ≤ frame.1 := by
      rcases List.mem_cons.mp h with rfl | h
      · exact le_rfl
      · exact List.rel_of_pairwise_cons hsorted h
    simp only [ready, List.head?_cons, Option.any_some, decide_eq_true_eq]
    exact hfirst.trans hnow

end Arrivals

def unansweredAfter (unanswered : List (ℕ × Bytes)) :
    Option (Except StreamError Message) → List (ℕ × Bytes)
  | some (.ok (.pong payload)) => unanswered.filter (·.2 ≠ payload)
  | _ => unanswered

structure Timed where
  session : Session
  arrivals : Arrivals
  -- When the last frame of the client was done with; before that, when the session began.
  processedAt : ℕ
  -- The Pings that were sent, with their instants, and whose payload no Pong has had since.
  unanswered : List (ℕ × Bytes)
  -- The reason with which a timer has ended the session.
  ended : Option CloseReason

namespace Timed
variable (latest : ℕ) (config : Config)

def now (t : Timed) : ℕ := t.session.timers.now

def place (t : Timed) : Place := t.session.phase.place

/-- Which leg of the race can be ready. -/
def admits (t : Timed) : Action → Bool
  | .inbound item =>
    t.arrivals.frames.head?.any fun frame => decide (frame.1 ≤ t.now) && decide (frame.2 = item)
  | .timer => !t.arrivals.ready t.now
  | _ => true

/-- A frame is done with, or the session begins: it is at the head of its loop and was not
there because of a push or a timer. -/
def processes (t : Timed) (a : Action) (s : Session) : Bool :=
  s.phase.place = .top &&
    match a, t.place with
    | .inbound _, _ | _, .opening | _, .serving => true
    | _, _ => false

def after (t : Timed) (a : Action) (s : Session) : Timed where
  session := s
  arrivals := match a with
    | .inbound _ => t.arrivals.rest
    | _ => t.arrivals
  processedAt := if t.processes a s then s.timers.now else t.processedAt
  unanswered := match a, t.place with
    | .sendDone (.ok ()), .pinging payload => t.unanswered ++ [(t.now, payload)]
    | .inbound item, _ => unansweredAfter t.unanswered item
    | _, _ => t.unanswered
  ended := match a, s.phase with
    | .timer, .sealing _ (.close reason _ _) => some reason
    | _, _ => t.ended

def step (t : Timed) (a : Action) : Option Timed :=
  if t.admits a then (t.session.step latest config a).map (t.after a) else none

def new (now : ℕ) (arrivals : Arrivals) : Timed := ⟨.new config now, arrivals, now, [], none⟩

end Timed

/-- What the law of the timers reads of a timed session. -/
structure Watch where
  place : Place
  clock : Clock
  arrivals : Arrivals
  processedAt : ℕ
  unanswered : List (ℕ × Bytes)
  ended : Option CloseReason

def Timed.watch (t : Timed) : Watch :=
  ⟨t.place, t.session.clock, t.arrivals, t.processedAt, t.unanswered, t.ended⟩

def TimerKind.reason : TimerKind → CloseReason
  | .idle => .idleTimeout
  | _ => .pongTimeout

namespace Watch
variable (latest : ℕ) (config : Config)

def processed (w : Watch) : Watch :=
  let moved := w.clock.processed latest config
  { w with
    place := moved.1
    clock := moved.2
    processedAt := if moved.1 = .top then w.clock.now else w.processedAt }

def hears (w : Watch) (m : Message) : Watch :=
  { w with
    clock := w.clock.heard m
    arrivals := w.arrivals.rest
    unanswered := unansweredAfter w.unanswered (some (.ok m)) }

end Watch

inductive Watched (latest : ℕ) (config : Config) : Action → Watch → Watch → Prop
  | tick {w : Watch} {d : ℕ} (h : w.clock.now + d ≤ latest) :
    Watched latest config (.tick d) w { w with clock := { w.clock with now := w.clock.now + d } }
  | stay {a : Action} {w : Watch} (h : a.Quiet w.place) : Watched latest config a w w
  | leave {a : Action} {w : Watch} (h : a.Quiet w.place) :
    Watched latest config a w { w with place := .left }
  | opened {w : Watch} (hp : w.place = .opening) :
    Watched latest config .go w ({ w with clock := { w.clock with
      keepalive := config.ping.map (Keepalive.new latest w.clock.now) } }.processed latest config)
  | rest {w : Watch} (hp : w.place = .top) (h : ∀ k ∈ w.clock.keepalive, k.due w.clock.now = false) :
    Watched latest config .go w { w with place := .waiting }
  | ping {w : Watch} {k : Keepalive} (hp : w.place = .top) (hk : w.clock.keepalive = some k)
      (hdue : k.due w.clock.now = true) :
    Watched latest config .go w { w with
      place := .pinging k.payload
      clock := { w.clock with keepalive := some { k with nextSeq := k.nextSeq + 1 } } }
  | pinged {w : Watch} {payload : Bytes} (hp : w.place = .pinging payload) :
    Watched latest config (.sendDone (.ok ())) w { w with
      place := .waiting
      clock := { w.clock with
        keepalive := w.clock.keepalive.map (·.sent latest w.clock.now payload) }
      unanswered := w.unanswered ++ [(w.clock.now, payload)] }
  | taken {w : Watch} (hp : w.place = .waiting) :
    Watched latest config .recv w { w with place := .pushing }
  | pushed {w : Watch} (hp : w.place = .pushing) :
    Watched latest config (.sendDone (.ok ())) w { w with place := .top }
  | data {w : Watch} {m : Message} {arrival : ℕ} (hp : w.place = .waiting) (h : m.IsData)
      (hframe : w.arrivals.frames.head? = some (arrival, some (.ok m))) :
    Watched latest config (.inbound (some (.ok m))) w
      { w with place := .serving, arrivals := w.arrivals.rest }
  | control {w : Watch} {m : Message} {arrival : ℕ} (hp : w.place = .waiting) (h : m.IsControl)
      (hframe : w.arrivals.frames.head? = some (arrival, some (.ok m))) :
    Watched latest config (.inbound (some (.ok m))) w ((w.hears m).processed latest config)
  | hungUp {w : Watch} {item : Option (Except StreamError Message)} (hp : w.place = .waiting)
      (h : ∀ m, item = some (.ok m) → ¬ m.IsControl ∧ ¬ m.IsData) :
    Watched latest config (.inbound item) w
      { w with place := .left, arrivals := w.arrivals.rest }
  | served {a : Action} {w : Watch} (hp : w.place = .serving) (h : a.Quiet .serving) :
    Watched latest config a w (w.processed latest config)
  | due {w : Watch} {deadline : ℕ} (hp : w.place = .waiting)
      (hleg : w.clock.timerLeg = some (deadline, .pingDue)) (h : deadline ≤ w.clock.now) :
    Watched latest config .timer w { w with place := .top }
  | expired {w : Watch} {deadline : ℕ} {kind : TimerKind} (hp : w.place = .waiting)
      (hkind : kind ≠ .pingDue) (hleg : w.clock.timerLeg = some (deadline, kind))
      (h : deadline ≤ w.clock.now) (hready : w.arrivals.ready w.clock.now = false) :
    Watched latest config .timer w { w with place := .left, ended := some kind.reason }

section
variable {latest : ℕ} {config : Config} {t t' : Timed}

theorem processes_of_not_inbound {a : Action} (h : ∀ item, a ≠ .inbound item) (s : Session) :
    t.processes a s = true ↔
      s.phase.place = .top ∧ (t.place = .opening ∨ t.place = .serving) := by
  unfold Timed.processes
  cases a with
  | inbound item => exact absurd rfl (h item)
  | _ => cases t.place <;> simp

theorem after_quiet {a : Action} (h : a.Quiet t.place ∨ ∃ d, a = .tick d) (s : Session) :
    (t.after a s).watch =
      ⟨s.phase.place, s.clock, t.arrivals,
        if s.phase.place = .top ∧ (t.place = .opening ∨ t.place = .serving) then s.timers.now
        else t.processedAt, t.unanswered, t.ended⟩ := by
  have hinbound : ∀ item, a ≠ .inbound item := by
    rintro item rfl
    rcases h with h | ⟨d, ⟨⟩⟩
    exact h
  have htimer : a ≠ .timer := by
    rintro rfl
    rcases h with h | ⟨d, ⟨⟩⟩
    exact h
  have harrivals : (t.after a s).arrivals = t.arrivals := by
    cases a with
    | inbound item => exact absurd rfl (hinbound item)
    | _ => rfl
  have hended : (t.after a s).ended = t.ended := by
    cases a with
    | timer => exact absurd rfl htimer
    | _ => rfl
  have hunanswered : (t.after a s).unanswered = t.unanswered := by
    unfold Timed.after
    dsimp only
    split
    · next payload hp =>
      rcases h with h | ⟨d, ⟨⟩⟩
      exact absurd hp (h payload)
    · exact absurd rfl (hinbound _)
    · rfl
  have hprocessed : (t.after a s).processedAt =
      if s.phase.place = .top ∧ (t.place = .opening ∨ t.place = .serving) then s.timers.now
      else t.processedAt := by
    simp only [Timed.after, processes_of_not_inbound hinbound]
  rw [← harrivals, ← hprocessed, ← hunanswered, ← hended]
  rfl

theorem after_inbound (item : Option (Except StreamError Message)) (s : Session) :
    (t.after (.inbound item) s).watch =
      ⟨s.phase.place, s.clock, t.arrivals.rest,
        if s.phase.place = .top then s.timers.now else t.processedAt,
        unansweredAfter t.unanswered item, t.ended⟩ := by
  have hprocessed : (t.after (.inbound item) s).processedAt =
      if s.phase.place = .top then s.timers.now else t.processedAt := by
    simp [Timed.after, Timed.processes]
  rw [← hprocessed]
  rfl

theorem after_pinged {payload : Bytes} (h : t.place = .pinging payload) (s : Session) :
    (t.after (.sendDone (.ok ())) s).watch =
      ⟨s.phase.place, s.clock, t.arrivals, t.processedAt, t.unanswered ++ [(t.now, payload)],
        t.ended⟩ := by
  have hunanswered : (t.after (.sendDone (.ok ())) s).unanswered =
      t.unanswered ++ [(t.now, payload)] := by
    simp only [Timed.after, h]
  have hprocessed : (t.after (.sendDone (.ok ())) s).processedAt = t.processedAt := by
    simp [Timed.after, Timed.processes, h]
  rw [← hunanswered, ← hprocessed]
  rfl

theorem after_timer {deadline : ℕ} {kind : TimerKind} (hwaiting : t.place = .waiting)
    (hleg : t.session.clock.timerLeg = some (deadline, kind)) (h : deadline ≤ t.now)
    (hready : t.arrivals.ready t.now = false) :
    Watched latest config .timer t.watch (t.after .timer (t.session.timer kind)).watch := by
  have hprocesses : ∀ s, t.processes .timer s = false := by
    intro s
    unfold Timed.processes
    rw [hwaiting]
    exact Bool.and_false _
  cases kind with
  | pingDue =>
    have hwatch : (t.after .timer (t.session.timer .pingDue)).watch =
        { t.watch with place := .top } := by
      simp only [Timed.watch, Timed.after, hprocesses]
      rfl
    rw [hwatch]
    exact .due hwaiting hleg h
  | idle | pongDeadline =>
    refine Eq.mp ?_ (@Watched.expired latest config t.watch _ _ hwaiting ?_ hleg h hready)
    · simp only [Timed.watch, Timed.after, hprocesses]
      rfl
    · rintro ⟨⟩

theorem head_of_admits {item : Option (Except StreamError Message)}
    (h : t.admits (.inbound item) = true) :
    ∃ arrival, t.arrivals.frames.head? = some (arrival, item) := by
  rw [Timed.admits, Option.any_eq_true] at h
  obtain ⟨⟨arrival, item'⟩, hhead, hframe⟩ := h
  simp only [Bool.and_eq_true, decide_eq_true_eq] at hframe
  obtain ⟨-, rfl⟩ := hframe
  exact ⟨arrival, hhead⟩

theorem timer_watched (h : t.step latest config .timer = some t') :
    Watched latest config .timer t.watch t'.watch := by
  obtain ⟨hadmits, h⟩ := Option.ite_none_right_eq_some.mp h
  obtain ⟨s, hs, rfl⟩ := Option.map_eq_some_iff.mp h
  cases transition_of_step hs with
  | timer hwaiting hleg hle =>
    refine after_timer ?_ hleg hle (by simpa [Timed.admits] using hadmits)
    rw [Timed.place, hwaiting]
    rfl

theorem place_not_back (p : Place) : ¬ (p = .top ∧ (p = .opening ∨ p = .serving)) := by
  cases p <;> simp

theorem step_watched {a : Action} (hstep : t.step latest config a = some t') :
    Watched latest config a t.watch t'.watch := by
  by_cases htimer : a = .timer
  · subst htimer
    exact timer_watched hstep
  obtain ⟨hadmits, hsome⟩ := Option.ite_none_right_eq_some.mp hstep
  obtain ⟨s, hs, rfl⟩ := Option.map_eq_some_iff.mp hsome
  have hmoved := step_moved hs
  generalize hv : t.session.view = v at hmoved
  generalize hv' : s.view = v' at hmoved
  have hplace : t.place = v.1 := congrArg (·.1) hv
  have hclock : t.session.clock = v.2 := congrArg (·.2) hv
  have hplace' : s.phase.place = v'.1 := congrArg (·.1) hv'
  have hclock' : s.clock = v'.2 := congrArg (·.2) hv'
  have hnow : s.timers.now = v'.2.now := congrArg (·.2.now) hv'
  have hnow₀ : t.now = v.2.now := congrArg (·.now) hclock
  have hw : t.watch = ⟨v.1, v.2, t.arrivals, t.processedAt, t.unanswered, t.ended⟩ := by
    rw [← hplace, ← hclock]
    rfl
  have hquiet : a.Quiet v.1 ∨ (∃ d, a = .tick d) →
      (t.after a s).watch = ⟨v'.1, v'.2, t.arrivals,
        if v'.1 = .top ∧ (v.1 = .opening ∨ v.1 = .serving) then v'.2.now else t.processedAt,
        t.unanswered, t.ended⟩ := by
    intro h
    rw [after_quiet (hplace ▸ h), hplace', hclock', hplace, hnow]
  cases hmoved with
  | tick hle =>
    rw [hw, hquiet (.inr ⟨_, rfl⟩), if_neg (place_not_back _)]
    exact .tick hle
  | stay h =>
    rw [hw, hquiet (.inl h), if_neg (place_not_back _)]
    exact .stay h
  | leave h =>
    rw [hw, hquiet (.inl h), if_neg (by rintro ⟨⟨⟩, -⟩)]
    exact .leave h
  | opened =>
    rw [hw, hquiet (.inl trivial), Clock.processed_now]
    simp only [true_or, and_true]
    exact .opened rfl
  | rest hdue =>
    rw [hw, hquiet (.inl trivial), if_neg (by rintro ⟨⟨⟩, -⟩)]
    exact .rest rfl hdue
  | ping hk hdue =>
    rw [hw, hquiet (.inl trivial), if_neg (by rintro ⟨⟨⟩, -⟩)]
    exact .ping rfl hk hdue
  | taken =>
    rw [hw, hquiet (.inl trivial), if_neg (by rintro ⟨⟨⟩, -⟩)]
    exact .taken rfl
  | pushed =>
    rw [hw, hquiet (.inl (by rintro _ ⟨⟩)), if_neg (by simp)]
    exact .pushed rfl
  | served h =>
    rw [hw, hquiet (.inl h), Clock.processed_now]
    simp only [or_true, and_true]
    exact .served rfl h
  | pinged =>
    rw [hw, after_pinged hplace, hplace', hclock', hnow₀]
    exact .pinged rfl
  | @data c m h =>
    obtain ⟨arrival, hframe⟩ := head_of_admits hadmits
    have hsame : unansweredAfter t.unanswered (some (.ok m)) = t.unanswered := by
      cases m <;> first | rfl | exact h.elim
    rw [hw, after_inbound, hplace', hclock', if_neg (by simp), hsame]
    exact .data rfl h hframe
  | control h =>
    obtain ⟨arrival, hframe⟩ := head_of_admits hadmits
    rw [hw, after_inbound, hplace', hclock', hnow, Clock.processed_now]
    exact .control rfl h hframe
  | @hungUp c item h =>
    have hsame : unansweredAfter t.unanswered item = t.unanswered := by
      match item with
      | none | some (.error _) => rfl
      | some (.ok m) => cases m <;> first | rfl | exact absurd trivial (h _ rfl).1
    rw [hw, after_inbound, hplace', hclock', if_neg (by simp), hsame]
    exact .hungUp rfl h
  | due | expired => exact absurd rfl htimer

end

end FandheBackend.WsSession
