import FandheBackend.WsSessionLaw

set_option autoImplicit false

namespace FandheBackend.WsSession
open ActionRuns WsSender

/-- The session unwinds, or has unwound. -/
def Phase.Panics : Phase → Prop
  | .sealing _ .unwind | .unwound => True
  | _ => False

def Next.Orderly : Next → Prop
  | .unwind => False
  | _ => True

theorem Phase.panics_sealing {stage : SealStage} {next : Next} :
    (Phase.sealing stage next).Panics ↔ ¬ next.Orderly := by
  cases next <;> simp [Phase.Panics, Next.Orderly]

namespace Session
variable (config : Config) (s : Session)

/-- `CloseBound::deadline` adds the grace when no deadline was set before. -/
def boundAdditions : List ℕ :=
  if s.outbound.closeRequestSignal && s.timers.closeDeadline.isSome then []
  else [config.closeGrace]

def takeAdditions : List ℕ :=
  match s.outbound.queue with
  | (_, .close _ _) :: _ => s.boundAdditions config
  | _ => []

/-- After the last message of a reply the idle deadline moves. -/
def replyAdditions : List WsMessage → List ℕ
  | [] => config.idleTimeout.toList
  | _ :: _ => []

/-- `close_normally` and `handle_cancellation` count the grace from their call. -/
def nextAdditions : Next → List ℕ
  | .close _ _ none => [config.closeGrace]
  | _ => []

def goAdditions : List ℕ :=
  match s.phase with
  | .opening => config.idleTimeout.toList
  | .drainBeforeReply (_ + 1) _ => s.takeAdditions config
  | .decide reply =>
    config.closeGrace :: if s.outbound.closing then [] else replyAdditions config reply
  | .drainToClose reply =>
    if s.outbound.queue = [] then replyAdditions config reply else s.takeAdditions config
  | .sealing .receiver next => nextAdditions config next
  | _ => []

/-- The durations that a step adds to the present instant with `+`. -/
def additions : Action → List ℕ
  | .go => s.goAdditions config
  | .recv => s.takeAdditions config
  | .inbound (some (.error .capacity)) => s.boundAdditions config
  | .inbound (some (.ok (.ping _))) | .inbound (some (.ok (.pong _)))
  | .inbound (some (.ok .frame)) => config.idleTimeout.toList
  | .handled (.ok .close) | .handled (.error _) => [config.closeGrace]
  | .sendDone (.ok ()) =>
    match s.phase with
    | .inFlight (.reply _ []) => config.idleTimeout.toList
    | _ => []
  | .observe =>
    if s.outbound.closeRequestSignal && s.timers.closeDeadline.isNone then [config.closeGrace]
    else []
  | _ => []

def Fits (latest : ℕ) (a : Action) : Prop :=
  ∀ d ∈ s.additions config a, s.timers.now + d ≤ latest

end Session

/-- A step that makes these additions: the calls of the handler so far stay as they are, and the
session begins to unwind only when a sum does not fit. -/
structure Told (latest : ℕ) (additions : List ℕ) (s s' : Session) : Prop where
  log : s.record.log <+: s'.record.log
  panics : s'.phase.Panics ↔ ¬ ∀ d ∈ additions, s.timers.now + d ≤ latest

section
variable {latest : ℕ} {config : Config} {s s' : Session}

theorem checkedAdd_eq_none {now d : ℕ} :
    checkedAdd latest now d = none ↔ ¬ now + d ≤ latest := by
  unfold checkedAdd
  split <;> simp [*]

theorem checkedAdd_isSome {now d : ℕ} :
    (checkedAdd latest now d).isSome = true ↔ now + d ≤ latest := by
  unfold checkedAdd
  split <;> simp [*]

theorem checkedAdd_le {now d deadline : ℕ} (h : checkedAdd latest now d = some deadline) :
    now + d ≤ latest := (Option.ite_none_right_eq_some.mp h).1

theorem Record.log_stop_grows (r : Record) : r.log <+: r.stop.log := by
  unfold Record.stop
  split
  · exact List.prefix_append _ _
  · exact List.prefix_rfl

theorem Told.calm {additions : List ℕ} (hlog : s.record.log <+: s'.record.log)
    (hphase : ¬ s'.phase.Panics) (hfits : ∀ d ∈ additions, s.timers.now + d ≤ latest) :
    Told latest additions s s' :=
  ⟨hlog, iff_of_false hphase (not_not_intro hfits)⟩

theorem Told.plain (hlog : s.record.log <+: s'.record.log) (hphase : ¬ s'.phase.Panics) :
    Told latest [] s s' :=
  .calm hlog hphase fun _ h => nomatch h

theorem told_quit {t : Session} {next : Next} {additions : List ℕ}
    (hlog : t.record.log = s.record.log) (hnext : next.Orderly)
    (hfits : ∀ d ∈ additions, s.timers.now + d ≤ latest) :
    Told latest additions s (t.quit next) := by
  refine .calm (hlog ▸ t.record.log_stop_grows) ?_ hfits
  rwa [Session.quit, Phase.panics_sealing, not_not]

/-- The session goes on with a deadline, or unwinds where its addition does not fit. -/
theorem told_found {α : Type} {found : Option α} {additions : List ℕ}
    (hfound : found.isSome = true ↔ ∀ d ∈ additions, s.timers.now + d ≤ latest)
    (hsome : ∀ a, found = some a → s.record.log <+: s'.record.log ∧ ¬ s'.phase.Panics)
    (hnone : found = none → s' = s.quit .unwind) : Told latest additions s s' := by
  cases hcase : found with
  | some a =>
    rw [hcase] at hfound
    exact .calm (hsome a hcase).1 (hsome a hcase).2 (hfound.mp rfl)
  | none =>
    rw [hcase] at hfound
    rw [hnone hcase]
    exact ⟨s.record.log_stop_grows, iff_of_true trivial (mt hfound.mpr Bool.false_ne_true)⟩

theorem told_processed (latest : ℕ) (config : Config) (s : Session) :
    Told latest config.idleTimeout.toList s (s.processed latest config) := by
  unfold Session.processed
  cases config.idleTimeout with
  | none => exact .plain List.prefix_rfl not_false
  | some d =>
    have hfound : (checkedAdd latest s.timers.now d).isSome = true ↔
        ∀ d' ∈ (some d).toList, s.timers.now + d' ≤ latest := by
      simp [checkedAdd_isSome]
    refine told_found hfound ?_ ?_
    · intro deadline hadd
      simp only [hadd]
      exact ⟨List.prefix_rfl, not_false⟩
    · intro hadd
      simp only [hadd]

theorem told_startReply (latest : ℕ) (config : Config) (s : Session) (reply : List WsMessage) :
    Told latest (Session.replyAdditions config reply) s (s.startReply latest config reply) := by
  cases reply with
  | nil => exact told_processed latest config s
  | cons => exact .plain List.prefix_rfl not_false

theorem told_startFlush (latest : ℕ) (config : Config) (s : Session) (ending : Option String) :
    Told latest [config.closeGrace] s (s.startFlush latest config ending) := by
  unfold Session.startFlush
  cases hadd : checkedAdd latest s.timers.now config.closeGrace with
  | none =>
    exact ⟨s.record.log_stop_grows, iff_of_true trivial fun hall =>
      checkedAdd_eq_none.mp hadd (hall _ List.mem_cons_self)⟩
  | some closeDeadline =>
    have hobserved : ∃ deadline, s.observed latest config = some deadline := by
      unfold Session.observed
      rw [hadd]
      cases s.outbound.closeRequestSignal <;> cases s.timers.closeDeadline <;> exact ⟨_, rfl⟩
    obtain ⟨deadline, hdeadline⟩ := hobserved
    rw [hdeadline]
    exact told_quit rfl trivial (by simpa using checkedAdd_le hadd)

theorem closeBoundDeadline_isSome :
    (s.closeBoundDeadline latest config).isSome = true ↔
      ∀ d ∈ s.boundAdditions config, s.timers.now + d ≤ latest := by
  unfold Session.closeBoundDeadline Session.observed Session.boundAdditions
  cases s.outbound.closeRequestSignal <;> cases s.timers.closeDeadline <;>
    cases hadd : checkedAdd latest s.timers.now config.closeGrace <;>
      simp [← checkedAdd_isSome, hadd]

theorem told_bound (s : Session) {next : ℕ → Next} (hnext : ∀ deadline, (next deadline).Orderly) :
    Told latest (s.boundAdditions config) s
      (match s.closeBoundDeadline latest config with
      | some deadline => s.quit (next deadline)
      | none => s.quit .unwind) := by
  refine told_found closeBoundDeadline_isSome ?_ ?_
  · intro deadline hdeadline
    rw [hdeadline]
    exact ⟨s.record.log_stop_grows, fun hpanics =>
      Phase.panics_sealing.mp hpanics (hnext deadline)⟩
  · intro hnone
    rw [hnone]

theorem told_senderClose (latest : ℕ) (config : Config) (s : Session) (code : UInt16) (reason : String) :
    Told latest (s.boundAdditions config) s (s.senderClose latest config code reason) :=
  told_bound s fun _ => trivial

theorem told_take {back : Back} (hback : ∀ deadline ending closeDeadline,
    back ≠ .flush deadline ending closeDeadline) (h : s.take latest config back = some s') :
    Told latest (s.takeAdditions config) s s' := by
  unfold Session.take at h
  unfold Session.takeAdditions
  split at h
  · next i item rest o hqueue hrecv =>
    rw [hqueue]
    dsimp only at h
    split at h
    · cases h
      exact .plain List.prefix_rfl not_false
    · next deadline ending closeDeadline => exact absurd rfl (hback _ _ _)
    · cases h
      have hrest : o.closeRequestSignal = s.outbound.closeRequestSignal := by
        rw [Outbound.recv, hqueue] at hrecv
        cases hrecv
        rfl
      have htold := told_senderClose latest config { s with outbound := o } ‹_› ‹_›
      unfold Session.boundAdditions at *
      exact ⟨htold.log, hrest ▸ htold.panics⟩
  · cases h

theorem told_take_flush {deadline closeDeadline : ℕ} {ending : Option String}
    (h : s.take latest config (.flush deadline ending closeDeadline) = some s') :
    Told latest [] s s' := by
  unfold Session.take at h
  split at h
  · dsimp only at h
    split at h
    · cases h
      exact .plain List.prefix_rfl not_false
    · cases h
      exact told_quit rfl trivial (List.forall_mem_nil _)
    · next hback => exact absurd rfl (hback _ _ _)
  · cases h

theorem told_enter (latest : ℕ) (config : Config) (s : Session) {next : Next}
    (hnext : next.Orderly) :
    Told latest (Session.nextAdditions config next) s (s.enter latest config next) := by
  cases next with
  | flush | tooBig | leave => exact .plain List.prefix_rfl not_false
  | unwind => exact hnext.elim
  | close reason frame deadline =>
    cases deadline with
    | some deadline => exact .plain List.prefix_rfl not_false
    | none =>
      unfold Session.enter
      cases hadd : checkedAdd latest s.timers.now config.closeGrace with
      | none =>
        exact ⟨List.prefix_rfl, iff_of_true trivial fun hall =>
          checkedAdd_eq_none.mp hadd (hall _ List.mem_cons_self)⟩
      | some deadline =>
        refine .calm List.prefix_rfl not_false ?_
        simpa [Session.nextAdditions] using checkedAdd_le hadd

theorem sealStep_cases {stage : SealStage} {next : Next}
    (h : s.sealStep latest config next stage = some s') :
    (stage ≠ .receiver ∧ ∃ o stage', s' = { s with outbound := o, phase := .sealing stage' next }) ∨
      stage = .receiver ∧ ∃ o, s' = { s with outbound := o }.enter latest config next := by
  unfold Session.sealStep at h
  split at h
  · obtain ⟨o, -, rfl⟩ := Option.map_eq_some_iff.mp h
    exact .inl ⟨(fun h => nomatch h), o, _, rfl⟩
  · obtain ⟨o, -, rfl⟩ := Option.map_eq_some_iff.mp h
    exact .inl ⟨(fun h => nomatch h), o, _, rfl⟩
  · split at h <;> obtain ⟨o, -, rfl⟩ := Option.map_eq_some_iff.mp h <;> exact .inr ⟨rfl, o, rfl⟩

theorem told_sealStep {stage : SealStage} {next : Next} (hnext : next.Orderly)
    (hphase : s.phase = .sealing stage next) (h : s.sealStep latest config next stage = some s') :
    Told latest (s.goAdditions config) s s' := by
  unfold Session.goAdditions
  rw [hphase]
  rcases sealStep_cases h with ⟨hstage, o, stage', rfl⟩ | ⟨rfl, o, rfl⟩
  · have hplain : Told latest [] s { s with outbound := o, phase := .sealing stage' next } :=
      .plain List.prefix_rfl fun hpanics => Phase.panics_sealing.mp hpanics hnext
    cases stage with
    | receiver => exact absurd rfl hstage
    | closing | announce => exact hplain
  · have htold := told_enter latest config { s with outbound := o } hnext
    exact ⟨htold.log, htold.panics⟩

theorem told_take_getD {back : Back} (hback : ∀ deadline ending closeDeadline,
    back ≠ .flush deadline ending closeDeadline) {t : Session}
    (ht : Told latest [] s t) :
    Told latest (s.takeAdditions config) s ((s.take latest config back).getD t) := by
  cases htake : s.take latest config back with
  | some u => exact told_take hback htake
  | none =>
    have hnone : s.takeAdditions config = [] := by
      rw [Session.takeAdditions, queue_of_take_none htake]
    rw [hnone]
    exact ht

/-- The decision point adds the grace whatever it decides. -/
theorem told_decide {reply : List WsMessage} (hdecide : s.phase = .decide reply)
    (h : s.go latest config = some s') : Told latest (s.goAdditions config) s s' := by
  rw [Session.goAdditions, hdecide]
  simp only [Session.go, hdecide] at h
  dsimp only
  split at h
  · next hadd =>
    cases h
    exact ⟨s.record.log_stop_grows, iff_of_true trivial fun hall =>
      checkedAdd_eq_none.mp hadd (hall _ List.mem_cons_self)⟩
  · next deadline hadd =>
    have hle := checkedAdd_le hadd
    split at h
    · next hclosing =>
      cases h
      rw [if_pos hclosing]
      exact .calm List.prefix_rfl not_false (by simpa using hle)
    · next hclosing =>
      cases h
      rw [if_neg hclosing]
      have htold := told_startReply latest config { s with record := { s.record with
        decided := some (s.outbound.committed.any (·.2.isClose)) } } reply
      refine ⟨htold.log, htold.panics.trans (not_congr ?_)⟩
      simp [hle]

theorem told_go (hphase : ¬ s.phase.Panics) (h : s.go latest config = some s') :
    Told latest (s.goAdditions config) s s' := by
  have hplain : ∀ {t : Session}, s.record.log <+: t.record.log → ¬ t.phase.Panics →
      s.goAdditions config = [] → Told latest (s.goAdditions config) s t := by
    intro t hlog ht hnone
    rw [hnone]
    exact .plain hlog ht
  have hgo := h
  unfold Session.go at h
  split at h
  · next hopening =>
    cases h
    have htold := told_processed latest config
      { s with timers := { s.timers with
        keepalive := config.ping.map (Keepalive.new latest s.timers.now) } }
    rw [Session.goAdditions, hopening]
    exact ⟨htold.log, htold.panics⟩
  · next htop =>
    cases h
    refine hplain ?_ ?_ (by rw [Session.goAdditions, htop])
    · unfold Session.atTop
      split
      · split <;> exact List.prefix_rfl
      · exact List.prefix_rfl
    · unfold Session.atTop
      split
      · split <;> exact not_false
      · exact not_false
  · next what hsending =>
    cases h
    exact hplain List.prefix_rfl not_false (by rw [Session.goAdditions, hsending])
  · next reply hdrain =>
    cases h
    exact hplain List.prefix_rfl not_false (by rw [Session.goAdditions, hdrain])
  · next left reply hdrain =>
    cases h
    rw [Session.goAdditions, hdrain]
    exact told_take_getD (by rintro _ _ _ ⟨⟩) (.plain List.prefix_rfl not_false)
  · next reply hdecide => exact told_decide hdecide hgo
  · next reply hdrain =>
    cases h
    rw [Session.goAdditions, hdrain]
    dsimp only
    cases htake : s.take latest config (.toClose reply) with
    | some u =>
      have hqueue : s.outbound.queue ≠ [] := by
        intro hnil
        simp [Session.take, hnil] at htake
      rw [if_neg hqueue]
      exact told_take (by rintro _ _ _ ⟨⟩) htake
    | none =>
      rw [if_pos (queue_of_take_none htake)]
      exact told_startReply latest config s reply
  · next stage next hsealing =>
    refine told_sealStep ?_ hsealing h
    rw [hsealing, Phase.panics_sealing, not_not] at hphase
    exact hphase
  · next deadline ending closeDeadline hflushing =>
    cases h
    rw [Session.goAdditions, hflushing]
    cases htake : s.take latest config (.flush deadline ending closeDeadline) with
    | some u => exact told_take_flush htake
    | none =>
      cases ending with
      | none => exact .plain List.prefix_rfl not_false
      | some error => exact told_quit rfl trivial (List.forall_mem_nil _)
  · next hclose =>
    cases h
    exact hplain List.prefix_rfl not_false (by rw [Session.goAdditions, hclose])
  · next hclose =>
    cases h
    exact hplain List.prefix_rfl not_false (by rw [Session.goAdditions, hclose])
  · next hbig =>
    cases h
    exact hplain List.prefix_rfl not_false (by rw [Session.goAdditions, hbig])
  · cases h

theorem told_cancel (h : s.cancel = some s') : Told latest [] s s' := by
  rcases cancel_cases h with rfl | rfl
  · exact told_quit rfl trivial (List.forall_mem_nil _)
  · exact told_quit rfl trivial (List.forall_mem_nil _)

theorem told_recv (h : s.recv latest config = some s') :
    Told latest (s.takeAdditions config) s s' := by
  unfold Session.recv at h
  split at h
  · exact told_take (by rintro _ _ _ ⟨⟩) h
  · exact told_take (by rintro _ _ _ ⟨⟩) h
  · cases h

theorem told_inbound (s : Session) (message : Option (Except StreamError Message)) :
    Told latest (s.additions config (.inbound message)) s (s.inbound latest config message) := by
  match message with
  | none => exact told_quit rfl trivial (List.forall_mem_nil _)
  | some (.error error) =>
    cases error with
    | capacity => exact told_bound s fun _ => trivial
    | connectionClosed | alreadyClosed | io | resetWithoutClosingHandshake | sendAfterClosing
    | other => exact told_quit rfl trivial (List.forall_mem_nil _)
  | some (.ok (.text _)) | some (.ok (.binary _)) =>
    exact .plain (List.prefix_append _ _) not_false
  | some (.ok (.close _)) => exact told_quit rfl trivial (List.forall_mem_nil _)
  | some (.ok (.ping _)) | some (.ok .frame) => exact told_processed latest config s
  | some (.ok (.pong payload)) =>
    have htold := told_processed latest config { s with timers := { s.timers with
      keepalive := s.timers.keepalive.map (Keepalive.onPong · payload) } }
    exact ⟨htold.log, htold.panics⟩

theorem told_handled (s : Session) (result : HandlerResult) :
    Told latest (s.additions config (.handled result)) s (s.handled latest config result) := by
  have hreturned : s.record.log <+: (returned s.outbound s.record result).log :=
    s.record.log_stop_grows
  have htold := told_startFlush latest config
    { s with record := returned s.outbound s.record result }
  match result with
  | .ok (.reply _) => exact .plain hreturned not_false
  | .ok .close => exact ⟨hreturned.trans (htold none).log, (htold none).panics⟩
  | .error error => exact ⟨hreturned.trans (htold error).log, (htold error).panics⟩

theorem told_sendDone {result : Except StreamError Unit}
    (h : s.sendDone latest config result = some s') :
    Told latest (s.additions config (.sendDone result)) s s' := by
  unfold Session.sendDone at h
  split at h
  · unfold Session.additions
    dsimp only
    split at h
    · next what hsending =>
      rw [hsending]
      cases h
      cases what with
      | ping => exact .plain List.prefix_rfl not_false
      | push i msg back =>
        cases back <;> exact .plain List.prefix_rfl not_false
      | reply msg rest =>
        have htold := told_startReply latest config s rest
        cases rest <;> exact htold
    · next hclose =>
      rw [hclose]
      cases h
      exact told_quit rfl trivial (List.forall_mem_nil _)
    · next hclose =>
      rw [hclose]
      cases h
      exact .plain List.prefix_rfl not_false
    · cases h
  · split at h
    case h_5 =>
      dsimp only at h
      split at h <;> cases h <;> exact .plain List.prefix_rfl not_false
    case h_6 => cases h
    all_goals
      cases h
      exact told_quit rfl trivial (List.forall_mem_nil _)

theorem told_observe (hphase : ¬ s.phase.Panics) (h : s.observe latest config = some s') :
    Told latest (s.additions config .observe) s s' := by
  obtain ⟨-, h⟩ := Option.ite_none_right_eq_some.mp h
  have hobserved : (s.observed latest config).isSome = true ↔
      ∀ d ∈ s.additions config .observe, s.timers.now + d ≤ latest := by
    unfold Session.observed Session.additions
    cases s.outbound.closeRequestSignal <;> cases s.timers.closeDeadline <;>
      simp [checkedAdd_isSome]
  refine told_found hobserved ?_ ?_
  · intro deadline hdeadline
    rw [hdeadline] at h
    cases h
    exact ⟨List.prefix_rfl, hphase⟩
  · intro hnone
    rw [hnone] at h
    cases h
    rfl

theorem told_deadline (h : s.Expires s') : Told latest [] s s' := by
  cases h with
  | flushed | failed | closeNone => exact told_quit rfl trivial (List.forall_mem_nil _)
  | closing | tooBig => exact .plain List.prefix_rfl not_false

theorem told_drained {message : Option (Except StreamError Unit)} {wrote : Bool}
    (h : s.drained message wrote = some s') : Told latest [] s s' := by
  unfold Session.drained at h
  split at h
  · next hdrain =>
    have hphase : ¬ s.phase.Panics := by
      rw [hdrain]
      exact not_false
    cases wrote <;> dsimp only at h <;> split at h <;> cases h
    all_goals first | exact .plain List.prefix_rfl hphase | exact .plain List.prefix_rfl not_false
  · cases h

theorem told_timer (s : Session) (kind : TimerKind) : Told latest [] s (s.timer kind) := by
  cases kind with
  | idle | pongDeadline => exact told_quit rfl trivial (List.forall_mem_nil _)
  | pingDue => exact .plain List.prefix_rfl not_false

theorem told_step {a : Action} (hphase : ¬ s.phase.Panics) (h : s.step latest config a = some s') :
    Told latest (s.additions config a) s s' := by
  cases transition_of_step h with
  | sender | tick => exact .plain List.prefix_rfl hphase
  | go h => exact told_go hphase h
  | cancel h => exact told_cancel h
  | recv h => exact told_recv h
  | inbound => exact told_inbound s _
  | timer => exact told_timer s _
  | handled => exact told_handled s _
  | sendDone h => exact told_sendDone h
  | observe h => exact told_observe hphase h
  | graceExpired h | stalled h =>
    obtain ⟨-, ⟨⟩⟩ := Option.ite_none_right_eq_some.mp h
    exact told_quit rfl trivial (List.forall_mem_nil _)
  | deadline h => exact told_deadline h
  | drained h => exact told_drained h
  | lingered => exact .plain List.prefix_rfl not_false

/-- In these phases the session reads and writes nothing and waits for nothing. -/
def Phase.Still : Phase → Prop
  | .sealing _ _ | .done _ _ | .unwound => True
  | _ => False

theorem still_step {a : Action} (hphase : s.phase.Still) (h : s.step latest config a = some s') :
    (∃ action, a = .sender action) ∨ (∃ duration, a = .tick duration) ∨ a = .go := by
  obtain ⟨o, t, phase, st, r⟩ := s
  cases a with
  | sender action => exact .inl ⟨action, rfl⟩
  | tick duration => exact .inr (.inl ⟨duration, rfl⟩)
  | go => exact .inr (.inr rfl)
  | sendDone result =>
    cases phase with
    | sealing | done | unwound =>
      cases result <;> change none = some s' at h <;> cases h
    | _ => exact hphase.elim
  | _ =>
    cases phase with
    | sealing | done | unwound =>
      change none = some s' at h
      cases h
    | _ => exact hphase.elim

theorem panics_step {a : Action} (hphase : s.phase.Panics) (h : s.step latest config a = some s') :
    s'.phase.Panics ∧ s'.record = s.record := by
  have hstill : s.phase.Still := by
    unfold Phase.Panics at hphase
    split at hphase
    · next hsealing =>
      rw [hsealing]
      trivial
    · next hunwound =>
      rw [hunwound]
      trivial
    · exact hphase.elim
  rcases still_step hstill h with ⟨action, rfl⟩ | ⟨duration, rfl⟩ | rfl
  · obtain ⟨-, h⟩ := Option.ite_none_right_eq_some.mp h
    obtain ⟨o, -, rfl⟩ := Option.map_eq_some_iff.mp h
    exact ⟨hphase, rfl⟩
  · obtain ⟨now, -, rfl⟩ := Option.map_eq_some_iff.mp h
    exact ⟨hphase, rfl⟩
  · cases hcase : s.phase with
    | sealing stage next =>
      rw [hcase] at hphase
      have hseal : s.sealStep latest config next stage = some s' := by
        simpa [Session.step, Session.go, hcase] using h
      rcases sealStep_cases hseal with ⟨-, o, stage', rfl⟩ | ⟨-, o, rfl⟩
      · exact ⟨Phase.panics_sealing.mpr (Phase.panics_sealing.mp hphase), rfl⟩
      · cases next with
        | unwind => exact ⟨trivial, rfl⟩
        | _ => exact hphase.elim
    | unwound => simp [Session.step, Session.go, hcase] at h
    | _ =>
      rw [hcase] at hphase
      exact hphase.elim

theorem done_step {a : Action} {reason : CloseReason} {result : Except WsError Unit}
    (hphase : s.phase = .done reason result) (h : s.step latest config a = some s') :
    (s'.phase = .done reason result ∧ s'.record = s.record) ∧
      (s'.outbound = s.outbound ∨ ∃ action i, action.call = some i ∧
        s.outbound.step action = some s'.outbound) := by
  have hstill : s.phase.Still := by
    rw [hphase]
    trivial
  rcases still_step hstill h with ⟨action, rfl⟩ | ⟨duration, rfl⟩ | rfl
  · obtain ⟨hcall, h⟩ := Option.ite_none_right_eq_some.mp h
    obtain ⟨o, ho, rfl⟩ := Option.map_eq_some_iff.mp h
    obtain ⟨i, hi⟩ := Option.isSome_iff_exists.mp hcall
    exact ⟨⟨hphase, rfl⟩, .inr ⟨action, i, hi, ho⟩⟩
  · obtain ⟨now, -, rfl⟩ := Option.map_eq_some_iff.mp h
    exact ⟨⟨hphase, rfl⟩, .inl rfl⟩
  · simp [Session.step, Session.go, hphase] at h

end

end FandheBackend.WsSession
