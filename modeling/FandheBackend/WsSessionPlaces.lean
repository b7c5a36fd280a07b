import FandheBackend.WsSessionPanics

set_option autoImplicit false

namespace FandheBackend.WsSession
open StdBytes WsSender

/-- The places that the timers tell apart. `serving` is everything between a data frame of the
client and the head of the loop; `left` is everything after the loop. -/
inductive Place where
  | opening
  | top
  | waiting
  | serving
  | pinging (payload : Bytes)
  | pushing
  | left
  deriving DecidableEq

def Back.place : Back → Place
  | .loop => .pushing
  | .flush _ _ _ => .left
  | _ => .serving

def Sending.place : Sending → Place
  | .ping payload => .pinging payload
  | .push _ _ back => back.place
  | .reply _ _ => .serving

def Phase.place : Phase → Place
  | .opening => .opening
  | .top => .top
  | .waiting => .waiting
  | .handling | .drainBeforeReply _ _ | .decide _ | .drainToClose _ => .serving
  | .sending what | .inFlight what => what.place
  | _ => .left

structure Clock where
  now : ℕ
  idleDeadline : Option ℕ
  keepalive : Option Keepalive

namespace Clock
variable (latest : ℕ) (config : Config)

def timerLeg (c : Clock) : Option (ℕ × TimerKind) :=
  match c.idleDeadline.map (·, .idle), c.keepalive.map Keepalive.timerLeg with
  | some a, some b => some (if a.1 ≤ b.1 then a else b)
  | some a, none => some a
  | none, b => b

def processed (c : Clock) : Place × Clock :=
  match config.idleTimeout with
  | none => (.top, { c with idleDeadline := none })
  | some d =>
    match checkedAdd latest c.now d with
    | some deadline => (.top, { c with idleDeadline := some deadline })
    | none => (.left, c)

def heard (c : Clock) : Message → Clock
  | .pong payload => { c with keepalive := c.keepalive.map (Keepalive.onPong · payload) }
  | _ => c

end Clock

namespace Session

def clock (s : Session) : Clock := ⟨s.timers.now, s.timers.idleDeadline, s.timers.keepalive⟩

def view (s : Session) : Place × Clock := (s.phase.place, s.clock)

end Session

/-- Not the clock, nor an event of the receive loop, nor the end of the send of a Ping. -/
def Action.Quiet (p : Place) : Action → Prop
  | .tick _ | .inbound _ | .timer => False
  | .sendDone (.ok ()) => ∀ payload, p ≠ .pinging payload
  | _ => True

def Message.IsData : Message → Prop
  | .text _ | .binary _ => True
  | _ => False

def Message.IsControl : Message → Prop
  | .ping _ | .pong _ | .frame => True
  | _ => False

/-- What a step does to the place and the timers of a session. -/
inductive Moved (latest : ℕ) (config : Config) : Action → Place × Clock → Place × Clock → Prop
  | tick {p : Place} {c : Clock} {d : ℕ} (h : c.now + d ≤ latest) :
    Moved latest config (.tick d) (p, c) (p, { c with now := c.now + d })
  | stay {a : Action} {p : Place} {c : Clock} (h : a.Quiet p) : Moved latest config a (p, c) (p, c)
  | leave {a : Action} {p : Place} {c : Clock} (h : a.Quiet p) :
    Moved latest config a (p, c) (.left, c)
  | opened {c : Clock} :
    Moved latest config .go (.opening, c)
      ({ c with keepalive := config.ping.map (Keepalive.new latest c.now) }.processed latest config)
  | rest {c : Clock} (h : ∀ k ∈ c.keepalive, k.due c.now = false) :
    Moved latest config .go (.top, c) (.waiting, c)
  | ping {c : Clock} {k : Keepalive} (hk : c.keepalive = some k) (hdue : k.due c.now = true) :
    Moved latest config .go (.top, c)
      (.pinging k.payload, { c with keepalive := some { k with nextSeq := k.nextSeq + 1 } })
  | pinged {c : Clock} {payload : Bytes} :
    Moved latest config (.sendDone (.ok ())) (.pinging payload, c)
      (.waiting, { c with keepalive := c.keepalive.map (·.sent latest c.now payload) })
  | taken {c : Clock} : Moved latest config .recv (.waiting, c) (.pushing, c)
  | pushed {c : Clock} : Moved latest config (.sendDone (.ok ())) (.pushing, c) (.top, c)
  | data {c : Clock} {m : Message} (h : m.IsData) :
    Moved latest config (.inbound (some (.ok m))) (.waiting, c) (.serving, c)
  | control {c : Clock} {m : Message} (h : m.IsControl) :
    Moved latest config (.inbound (some (.ok m))) (.waiting, c) ((c.heard m).processed latest config)
  | hungUp {c : Clock} {item : Option (Except StreamError Message)}
      (h : ∀ m, item = some (.ok m) → ¬ m.IsControl ∧ ¬ m.IsData) :
    Moved latest config (.inbound item) (.waiting, c) (.left, c)
  | served {a : Action} {c : Clock} (h : a.Quiet .serving) :
    Moved latest config a (.serving, c) (c.processed latest config)
  | due {c : Clock} {deadline : ℕ} (hleg : c.timerLeg = some (deadline, .pingDue))
      (h : deadline ≤ c.now) :
    Moved latest config .timer (.waiting, c) (.top, c)
  | expired {c : Clock} {deadline : ℕ} {kind : TimerKind} (hkind : kind ≠ .pingDue)
      (hleg : c.timerLeg = some (deadline, kind)) (h : deadline ≤ c.now) :
    Moved latest config .timer (.waiting, c) (.left, c)

section
variable {latest : ℕ} {config : Config} {s s' : Session}

@[simp] theorem quit_view (s : Session) (next : Next) : (s.quit next).view = (.left, s.clock) := rfl

variable (latest config) in
theorem processed_view (s : Session) :
    (s.processed latest config).view = s.clock.processed latest config := by
  unfold Session.processed Clock.processed
  cases config.idleTimeout with
  | none => rfl
  | some d =>
    dsimp only
    rw [show s.clock.now = s.timers.now from rfl]
    cases checkedAdd latest s.timers.now d <;> rfl

theorem moved_startReply {a : Action} (ha : a.Quiet .serving) (hplace : s.phase.place = .serving)
    {t : Session} (ht : t.clock = s.clock) (reply : List WsMessage) :
    Moved latest config a s.view (t.startReply latest config reply).view := by
  have hview : s.view = (.serving, s.clock) := by rw [Session.view, hplace]
  rw [hview]
  cases reply with
  | nil =>
    rw [Session.startReply, processed_view, ht]
    exact .served ha
  | cons msg rest =>
    have hview' : (t.startReply latest config (msg :: rest)).view = (.serving, s.clock) := by
      rw [← ht]
      rfl
    rw [hview']
    exact .stay ha

theorem senderClose_view (s : Session) (code : UInt16) (reason : String) :
    (s.senderClose latest config code reason).view = (.left, s.clock) := by
  unfold Session.senderClose
  split <;> rfl

theorem take_view {back : Back} (h : s.take latest config back = some s') :
    s'.view = (back.place, s.clock) ∨ s'.view = (.left, s.clock) := by
  unfold Session.take at h
  split at h
  · dsimp only at h
    split at h <;> cases h
    · exact .inl rfl
    · exact .inr rfl
    · exact .inr (senderClose_view _ _ _)
  · cases h

theorem moved_take {a : Action} {back : Back} (ha : a.Quiet s.phase.place)
    (hback : back.place = s.phase.place) (h : s.take latest config back = some s') :
    Moved latest config a s.view s'.view := by
  rcases take_view h with hview | hview
  · rw [hview, hback]
    exact .stay ha
  · rw [hview]
    exact .leave ha

theorem enter_view (s : Session) (next : Next) :
    (s.enter latest config next).view = (.left, s.clock) := by
  cases next with
  | close reason frame deadline =>
    cases deadline with
    | some deadline => rfl
    | none =>
      unfold Session.enter
      cases checkedAdd latest s.timers.now config.closeGrace <;> rfl
  | _ => rfl

theorem sealStep_view {stage : SealStage} {next : Next}
    (h : s.sealStep latest config next stage = some s') : s'.view = (.left, s.clock) := by
  rcases sealStep_cases h with ⟨-, o, stage', rfl⟩ | ⟨-, o, rfl⟩
  · rfl
  · exact enter_view _ next

theorem moved_atTop (hplace : s.phase = .top) :
    Moved latest config .go s.view s.atTop.view := by
  have hview : s.view = (.top, s.clock) := by rw [Session.view, hplace, Phase.place]
  rw [hview]
  unfold Session.atTop
  cases hk : s.timers.keepalive with
  | none => exact .rest (c := s.clock) (by simp [Session.clock, hk])
  | some k =>
    dsimp only
    cases hdue : k.due s.timers.now with
    | true => exact .ping (c := s.clock) hk hdue
    | false => exact .rest (c := s.clock) (by simpa [Session.clock, hk] using hdue)

theorem moved_go (h : s.go latest config = some s') : Moved latest config .go s.view s'.view := by
  have hleft : ∀ {t : Session}, s.phase.place = .left → t.view = (.left, s.clock) →
      Moved latest config .go s.view t.view := by
    intro t hplace ht
    rw [Session.view, hplace, ht]
    exact .leave trivial
  have hstay : ∀ {t : Session}, t.view = s.view → Moved latest config .go s.view t.view := by
    intro t ht
    rw [ht]
    exact .stay trivial
  unfold Session.go at h
  split at h
  · next hopening =>
    cases h
    rw [Session.opened, processed_view, Session.view, hopening]
    exact .opened
  · next htop =>
    cases h
    exact moved_atTop htop
  · next what hsending =>
    cases h
    exact hstay (by rw [Session.view, Session.view, hsending]; rfl)
  · next reply hdrain =>
    cases h
    exact hstay (by rw [Session.view, Session.view, hdrain]; rfl)
  · next left reply hdrain =>
    cases h
    cases htake : s.take latest config (.beforeReply left reply) with
    | some u =>
      exact moved_take (a := .go) trivial (by rw [hdrain]; rfl) htake
    | none => exact hstay (by rw [Session.view, Session.view, hdrain]; rfl)
  · next reply hdecide =>
    have hplace : s.phase.place = .serving := by rw [hdecide]; rfl
    split at h
    · cases h
      rw [quit_view]
      exact .leave trivial
    · dsimp only at h
      split at h <;> cases h
      · exact hstay (by rw [Session.view, Session.view, hdecide]; rfl)
      · refine moved_startReply (a := .go) trivial hplace ?_ reply
        rfl
  · next reply hdrain =>
    cases h
    have hplace : s.phase.place = .serving := by rw [hdrain]; rfl
    cases htake : s.take latest config (.toClose reply) with
    | some u => exact moved_take (a := .go) trivial (by rw [hplace]; rfl) htake
    | none => exact moved_startReply (a := .go) trivial hplace rfl reply
  · next stage next hsealing =>
    exact hleft (by rw [hsealing]; rfl) (sealStep_view h)
  · next deadline ending closeDeadline hflushing =>
    cases h
    refine hleft (by rw [hflushing]; rfl) ?_
    cases htake : s.take latest config (.flush deadline ending closeDeadline) with
    | some u => exact (take_view htake).elim id id
    | none => cases ending <;> rfl
  · next hclose =>
    cases h
    exact hleft (by rw [hclose]; rfl) rfl
  · next hclose =>
    cases h
    exact hleft (by rw [hclose]; rfl) rfl
  · next hbig =>
    cases h
    exact hleft (by rw [hbig]; rfl) rfl
  · cases h

theorem moved_cancel (h : s.cancel = some s') : Moved latest config .cancel s.view s'.view := by
  rcases cancel_cases h with rfl | rfl
  · exact .leave trivial
  · exact .leave trivial

theorem moved_recv (h : s.recv latest config = some s') :
    Moved latest config .recv s.view s'.view := by
  unfold Session.recv at h
  split at h
  · next hwaiting =>
    rcases take_view h with hview | hview <;> rw [hview, Session.view, hwaiting]
    · exact .taken
    · exact .leave trivial
  · next hhandling =>
    exact moved_take (a := .recv) trivial (by rw [hhandling]; rfl) h
  · cases h

theorem moved_inbound (hwaiting : s.phase = .waiting)
    (item : Option (Except StreamError Message)) :
    Moved latest config (.inbound item) s.view (s.inbound latest config item).view := by
  rw [show s.view = (.waiting, s.clock) by rw [Session.view, hwaiting, Phase.place]]
  match item with
  | none => exact .hungUp (by simp)
  | some (.error error) =>
    have hview : (s.inbound latest config (some (.error error))).view = (.left, s.clock) := by
      unfold Session.inbound
      dsimp only
      split
      · split <;> rfl
      · rfl
    rw [hview]
    exact .hungUp (by simp)
  | some (.ok (.text _)) | some (.ok (.binary _)) => exact .data trivial
  | some (.ok (.close _)) => exact .hungUp (by rintro _ ⟨⟩; exact ⟨not_false, not_false⟩)
  | some (.ok (.ping _)) | some (.ok .frame) =>
    rw [Session.inbound, processed_view]
    exact .control (c := s.clock) trivial
  | some (.ok (.pong payload)) =>
    rw [Session.inbound, processed_view]
    exact .control (c := s.clock) (m := .pong payload) trivial

theorem moved_startFlush {a : Action} (ha : a.Quiet s.phase.place) {t : Session}
    (ht : t.clock = s.clock) (ending : Option String) :
    Moved latest config a s.view (t.startFlush latest config ending).view := by
  have hview : (t.startFlush latest config ending).view = (.left, s.clock) := by
    rw [← ht]
    unfold Session.startFlush
    split <;> rfl
  rw [hview]
  exact .leave ha

theorem moved_handled (hhandling : s.phase = .handling) (result : HandlerResult) :
    Moved latest config (.handled result) s.view (s.handled latest config result).view := by
  have hquiet : ∀ p, (Action.handled result).Quiet p := fun _ => trivial
  match result with
  | .ok (.reply messages) =>
    have hview : (s.handled latest config (.ok (.reply messages))).view = s.view := by
      rw [Session.view, Session.view, hhandling]
      rfl
    rw [hview]
    exact .stay (hquiet _)
  | .ok .close =>
    refine moved_startFlush (hquiet _) ?_ none
    rfl
  | .error error =>
    refine moved_startFlush (hquiet _) ?_ (some error)
    rfl

theorem moved_sendDone {result : Except StreamError Unit}
    (h : s.sendDone latest config result = some s') :
    Moved latest config (.sendDone result) s.view s'.view := by
  have hleave : ∀ {t : Session}, (Action.sendDone result).Quiet s.phase.place →
      t.view = (.left, s.clock) → Moved latest config (.sendDone result) s.view t.view := by
    intro t hquiet ht
    rw [ht]
    exact .leave hquiet
  unfold Session.sendDone at h
  split at h
  · have hquiet : ∀ {p}, (∀ payload, p ≠ .pinging payload) →
        (Action.sendDone (.ok ())).Quiet p := fun h => h
    split at h
    · next what hsending =>
      cases h
      cases what with
      | ping payload =>
        rw [show s.view = (.pinging payload, s.clock) by rw [Session.view, hsending]; rfl]
        exact .pinged
      | push i msg back =>
        rw [show s.view = (back.place, s.clock) by rw [Session.view, hsending]; rfl]
        cases back with
        | loop => exact .pushed
        | handler | beforeReply | toClose => exact .stay (hquiet (by rintro _ ⟨⟩))
        | flush => exact .leave (hquiet (by rintro _ ⟨⟩))
      | reply msg rest =>
        exact moved_startReply (hquiet (by rintro _ ⟨⟩)) (by rw [hsending]; rfl) rfl rest
    · next hclose =>
      cases h
      exact hleave (hquiet (by rw [hclose]; rintro _ ⟨⟩)) rfl
    · next hclose =>
      cases h
      exact hleave (hquiet (by rw [hclose]; rintro _ ⟨⟩)) rfl
    · cases h
  · split at h
    case h_5 =>
      dsimp only at h
      split at h <;> cases h <;> exact hleave trivial rfl
    case h_6 => cases h
    all_goals
      cases h
      exact hleave trivial rfl

theorem moved_observe (h : s.observe latest config = some s') :
    Moved latest config .observe s.view s'.view := by
  obtain ⟨-, h⟩ := Option.ite_none_right_eq_some.mp h
  split at h <;> cases h
  · exact .stay trivial
  · exact .leave trivial

theorem moved_deadline (h : s.Expires s') : Moved latest config .deadline s.view s'.view := by
  cases h <;> exact .leave trivial

theorem moved_drained {message : Option (Except StreamError Unit)} {wrote : Bool}
    (h : s.drained message wrote = some s') :
    Moved latest config (.drained message wrote) s.view s'.view := by
  unfold Session.drained at h
  split at h
  · next hdrain =>
    have hview : s'.view = (.left, s.clock) := by
      cases wrote <;> dsimp only at h <;> split at h <;> cases h <;> first
        | rfl
        | exact Prod.ext (by rw [Session.view, Session.trouble, hdrain]; rfl) rfl
    rw [hview]
    exact .leave trivial
  · cases h

theorem moved_timer (hwaiting : s.phase = .waiting) {deadline : ℕ} {kind : TimerKind}
    (hleg : Session.timerLeg s.timers = some (deadline, kind)) (h : deadline ≤ s.timers.now) :
    Moved latest config .timer s.view (s.timer kind).view := by
  have hleg' : s.clock.timerLeg = some (deadline, kind) := hleg
  rw [show s.view = (.waiting, s.clock) by rw [Session.view, hwaiting]; rfl]
  cases kind with
  | idle => exact .expired (by rintro ⟨⟩) hleg' h
  | pongDeadline => exact .expired (by rintro ⟨⟩) hleg' h
  | pingDue => exact .due hleg' h

theorem step_moved {a : Action} (h : s.step latest config a = some s') :
    Moved latest config a s.view s'.view := by
  cases transition_of_step h with
  | sender => exact .stay trivial
  | tick hle => exact .tick (c := s.clock) hle
  | go h => exact moved_go h
  | cancel h => exact moved_cancel h
  | recv h => exact moved_recv h
  | inbound hwaiting => exact moved_inbound hwaiting _
  | timer hwaiting hleg hle => exact moved_timer hwaiting hleg hle
  | handled hhandling => exact moved_handled hhandling _
  | sendDone h => exact moved_sendDone h
  | observe h => exact moved_observe h
  | graceExpired h | stalled h =>
    obtain ⟨-, ⟨⟩⟩ := Option.ite_none_right_eq_some.mp h
    exact .leave trivial
  | deadline h => exact moved_deadline h
  | drained h => exact moved_drained h
  | lingered => exact .leave trivial

end

end FandheBackend.WsSession
