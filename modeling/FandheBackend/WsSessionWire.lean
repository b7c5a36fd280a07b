import FandheBackend.WsSessionLaw

set_option autoImplicit false

namespace FandheBackend.WsSession
open ActionRuns WsSender

def Session.frame (s : Session) : Sending → Handed
  | .ping payload => .ping payload
  | .push i msg _ => .push i msg
  | .reply msg _ => .reply (s.record.turns.length - 1) msg

inductive Hands (s : Session) : List Handed → Prop
  | nothing : Hands s []
  | send (what : Sending) (phase : s.phase = .sending what) : Hands s [s.frame what]
  | close (frame : Option CloseFrame) : Hands s [.close frame]

/-- The frames so far, and whether the client has closed. -/
def Record.seen (r : Record) : List Handed × Bool := (r.handed, r.troubles.clientClosed)

section Seen
variable (latest : ℕ) (config : Config) (s : Session)

theorem seen_quit (next : Next) : (s.quit next).record.seen = s.record.seen := by
  rw [Record.seen, Session.quit, Record.stop_handed, Record.stop_troubles]
  rfl

theorem seen_senderClose (code : UInt16) (reason : String) :
    (s.senderClose latest config code reason).record.seen = s.record.seen := by
  unfold Session.senderClose
  split <;> exact seen_quit s _

theorem seen_processed : (s.processed latest config).record.seen = s.record.seen := by
  unfold Session.processed
  split
  · rfl
  · split
    · rfl
    · exact seen_quit s _

theorem seen_startReply (reply : List WsMessage) :
    (s.startReply latest config reply).record.seen = s.record.seen := by
  cases reply with
  | nil => exact seen_processed latest config s
  | cons => rfl

theorem seen_startFlush (ending : Option String) :
    (s.startFlush latest config ending).record.seen = s.record.seen := by
  unfold Session.startFlush
  split <;> exact seen_quit s _

theorem seen_enter (next : Next) : (s.enter latest config next).record.seen = s.record.seen := by
  unfold Session.enter
  split
  case h_3 => split <;> rfl
  all_goals rfl

variable {latest config s} {s' : Session}

theorem seen_take {back : Back} (h : s.take latest config back = some s') :
    s'.record.seen = s.record.seen := by
  unfold Session.take at h
  split at h
  · split at h
    · cases h
      rfl
    · cases h
      exact seen_quit { s with outbound := _ } _
    · cases h
      exact seen_senderClose latest config { s with outbound := _ } _ _
  · cases h

theorem seen_sealStep {stage : SealStage} {next : Next}
    (h : s.sealStep latest config next stage = some s') : s'.record.seen = s.record.seen := by
  unfold Session.sealStep at h
  split at h
  · obtain ⟨o, -, rfl⟩ := Option.map_eq_some_iff.mp h
    rfl
  · obtain ⟨o, -, rfl⟩ := Option.map_eq_some_iff.mp h
    rfl
  · split at h <;> obtain ⟨o, -, rfl⟩ := Option.map_eq_some_iff.mp h <;>
      exact seen_enter latest config { s with outbound := o } _

theorem seen_go (h : s.go latest config = some s') :
    ∃ l, Hands s l ∧ s'.record.seen = (s.record.handed ++ l, s.record.troubles.clientClosed) := by
  have hnothing : s'.record.seen = s.record.seen → ∃ l, Hands s l ∧
      s'.record.seen = (s.record.handed ++ l, s.record.troubles.clientClosed) := fun heq =>
    ⟨[], .nothing, by rw [heq, List.append_nil]; rfl⟩
  have hgetD : ∀ back t, t.record.seen = s.record.seen →
      ((s.take latest config back).getD t).record.seen = s.record.seen := by
    intro back t ht
    cases htake : s.take latest config back with
    | none => exact ht
    | some u => exact seen_take htake
  unfold Session.go at h
  split at h
  · cases h
    exact hnothing (seen_processed latest config _)
  · cases h
    refine hnothing ?_
    unfold Session.atTop
    split
    · split <;> rfl
    · rfl
  · next what hphase =>
    cases h
    refine ⟨_, .send what hphase, ?_⟩
    cases what <;> rfl
  · cases h
    exact hnothing rfl
  · cases h
    exact hnothing (hgetD _ _ rfl)
  · split at h
    · cases h
      exact hnothing (seen_quit s _)
    · dsimp only at h
      split at h
      · cases h
        exact hnothing rfl
      · cases h
        exact hnothing (seen_startReply latest config _ _)
  · cases h
    exact hnothing (hgetD _ _ (seen_startReply latest config s _))
  · exact hnothing (seen_sealStep h)
  · cases h
    refine hnothing (hgetD _ _ ?_)
    split
    · rfl
    · exact seen_quit s _
  · cases h
    exact ⟨_, .close none, rfl⟩
  · cases h
    exact ⟨_, .close _, rfl⟩
  · cases h
    exact ⟨_, .close _, rfl⟩
  · cases h

theorem seen_cancel (h : s.cancel = some s') : s'.record.seen = s.record.seen := by
  rcases cancel_cases h with rfl | rfl
  · exact seen_quit s _
  · exact seen_quit (s.trouble _) _

theorem seen_sendDone {result : Except StreamError Unit}
    (h : s.sendDone latest config result = some s') : s'.record.seen = s.record.seen := by
  unfold Session.sendDone at h
  split at h
  · split at h
    · next what _ =>
      cases h
      cases what with
      | ping | push => rfl
      | reply => exact seen_startReply latest config s _
    · cases h
      exact seen_quit { s with stream := _ } _
    · cases h
      rfl
    · cases h
  · split at h
    case h_5 =>
      dsimp only at h
      split at h <;> cases h <;> rfl
    case h_6 => cases h
    all_goals
      cases h
      exact seen_quit _ _

theorem seen_deadline (h : s.Expires s') : s'.record.seen = s.record.seen := by
  cases h with
  | flushed | failed | closeNone => exact seen_quit _ _
  | closing | tooBig => rfl

theorem seen_drained {message : Option (Except StreamError Unit)} {wrote : Bool}
    (h : s.drained message wrote = some s') : s'.record.seen = s.record.seen := by
  unfold Session.drained at h
  split at h
  · cases wrote <;> dsimp only at h <;> split at h <;> cases h <;> rfl
  · cases h

def Action.clientClose : Action → Bool
  | .inbound (some (.ok (.close _))) => true
  | _ => false

theorem seen_inbound (message : Option (Except StreamError Message)) :
    (s.inbound latest config message).record.seen = (s.record.handed,
      s.record.troubles.clientClosed || (Action.inbound message).clientClose) := by
  have hkept : (s.inbound latest config message).record.seen = s.record.seen →
      (Action.inbound message).clientClose = false → (s.inbound latest config message).record.seen =
        (s.record.handed, s.record.troubles.clientClosed || (Action.inbound message).clientClose) := by
    intro heq hclose
    rw [heq, hclose, Bool.or_false]
    rfl
  match message with
  | none => exact hkept (seen_quit s _) rfl
  | some (.error error) =>
    refine hkept ?_ rfl
    unfold Session.inbound
    dsimp only
    split
    · split <;> exact seen_quit s _
    · exact seen_quit s _
  | some (.ok (.text _)) | some (.ok (.binary _)) => exact hkept rfl rfl
  | some (.ok (.close _)) =>
    refine (seen_quit _ _).trans ?_
    rw [Action.clientClose, Bool.or_true]
    rfl
  | some (.ok (.ping _)) | some (.ok .frame) | some (.ok (.pong _)) =>
    exact hkept (seen_processed latest config _) rfl

theorem seen_handled (result : HandlerResult) :
    (s.handled latest config result).record.seen = s.record.seen := by
  have hreturned : (returned s.outbound s.record result).seen = s.record.seen := by
    change (s.record.stop.handed, s.record.stop.troubles.clientClosed) = _
    rw [Record.stop_handed, Record.stop_troubles]
    rfl
  match result with
  | .ok (.reply _) => exact hreturned
  | .ok .close => exact (seen_startFlush latest config _ _).trans hreturned
  | .error _ => exact (seen_startFlush latest config _ _).trans hreturned

theorem seen_step {a : Action} (h : s.step latest config a = some s') :
    ∃ l, Hands s l ∧ s'.record.seen = (s.record.handed ++ l,
      s.record.troubles.clientClosed || a.clientClose) := by
  have hkept : s'.record.seen = s.record.seen → a.clientClose = false → ∃ l, Hands s l ∧
      s'.record.seen = (s.record.handed ++ l, s.record.troubles.clientClosed || a.clientClose) := by
    intro heq hclose
    refine ⟨[], .nothing, ?_⟩
    rw [heq, hclose, List.append_nil, Bool.or_false]
    rfl
  cases transition_of_step h with
  | sender | tick => exact hkept rfl rfl
  | go h =>
    obtain ⟨l, hl, heq⟩ := seen_go h
    refine ⟨l, hl, ?_⟩
    rw [heq, show Action.go.clientClose = false from rfl, Bool.or_false]
  | cancel h => exact hkept (seen_cancel h) rfl
  | recv h =>
    rw [Session.recv] at h
    split at h
    · exact hkept (seen_take h) rfl
    · exact hkept (seen_take h) rfl
    · cases h
  | inbound =>
    refine ⟨[], .nothing, ?_⟩
    rw [seen_inbound, List.append_nil]
  | @timer _ kind =>
    refine hkept ?_ rfl
    cases kind <;> first | rfl | exact seen_quit s _
  | handled => exact hkept (seen_handled _) rfl
  | sendDone h => exact hkept (seen_sendDone h) rfl
  | observe h =>
    refine hkept ?_ rfl
    obtain ⟨-, h⟩ := Option.ite_none_right_eq_some.mp h
    split at h <;> cases h <;> first | rfl | exact seen_quit s _
  | graceExpired h | stalled h =>
    obtain ⟨-, ⟨⟩⟩ := Option.ite_none_right_eq_some.mp h
    exact hkept (seen_quit _ _) rfl
  | deadline h => exact hkept (seen_deadline h) rfl
  | drained h => exact hkept (seen_drained h) rfl
  | lingered => exact hkept rfl rfl

end Seen

section Law
variable {latest : ℕ} {config : Config} {s : Session}

theorem Phase.Fits.wire {o : Outbound} {st : WsStream} {r : Record} {phase : Phase}
    (h : phase.Fits o st r) (ho : o.Ordered) :
    (r.handed.Pairwise fun a b => a.isClose = true → b.isClose = true) ∧
      pushes r.handed <+: messages o.committed := by
  have hback : ∀ {back : Back}, back.Fits o st r → ∀ f ∈ r.handed, f.isClose = false := by
    intro back hback
    cases back <;> exact hback.1.silent
  have hover : Over o r → (r.handed.Pairwise fun a b => a.isClose = true → b.isClose = true) ∧
      pushes r.handed <+: messages o.committed := fun hover => ⟨hover.ordered, hover.sent⟩
  cases phase with
  | opening | top | waiting | handling | drainBeforeReply | decide | drainToClose | flushing =>
    exact ⟨pairwise_of_silent (hback h.1), h.2.initial ho⟩
  | sending what | inFlight what =>
    cases what with
    | ping => exact ⟨pairwise_of_silent (hback h.1), h.2.initial ho⟩
    | push => exact ⟨pairwise_of_silent (hback h.1), h.2.initial ho⟩
    | reply => exact ⟨pairwise_of_silent h.1.silent, h.2.initial ho⟩
  | sealing stage next =>
    obtain ⟨-, -, -, hnext⟩ := h
    cases next with
    | flush => exact ⟨pairwise_of_silent hnext.1.silent, hnext.2.initial ho⟩
    | close => exact hover (Closing.toOver hnext)
    | tooBig => exact hover hnext.1
    | leave => exact hover (Leaving.toOver hnext)
    | unwind => exact hover hnext
  | closeNone polled =>
    cases polled with
    | false => exact ⟨pairwise_of_silent h.1.silent, h.2.1.initial ho⟩
    | true => exact hover h.1.toOver
  | closeAndDrain stage =>
    cases stage <;> exact hover h.1.toOver
  | tooBig => exact hover h.1
  | done => exact hover h.1.toOver
  | unwound => exact hover h

/-- The frames of a session, in every state that it reaches. -/
theorem wire_law {now : ℕ} {as : List Action}
    (h : run (Session.step latest config) as (.new config now) = some s) :
    (s.record.handed.Pairwise fun a b => a.isClose = true → b.isClose = true) ∧
    (pushes s.record.handed <+: messages s.outbound.committed ∧
      (s.outbound.committed.map Prod.fst).Nodup) ∧
    (∀ k, Block s.record.handed s.record.turns k) ∧
    (∀ a s', s.step latest config a = some s' → ∀ k msg,
      s'.record.handed = s.record.handed ++ [.reply k msg] →
        k + 1 = s.record.turns.length ∧ messages s.record.mark <+: pushes s.record.handed ∧
          s.record.decided = some false) ∧
    (∀ reason result last, s.phase = .done reason result → s.record.turns.getLast? = some last →
      (∀ msgs, last ≠ .ok (.reply msgs)) → s.record.troubles.cut = false →
        (∀ i op msg, s.outbound.calls i = .returned op .ok → op.item = .message msg →
          .push i msg ∈ s.record.handed) ∧
        (∀ i code text, (i, .close code text) ∈ s.outbound.committed →
          reason = .senderClose ∧ s.record.handed.getLast? = some (.close (some ⟨code, text⟩))) ∧
        ((∀ x ∈ s.outbound.committed, x.2.isClose = false) →
          (last = .ok .close →
            reason = .handlerClose ∨ reason = .cancelled ∨ ∃ kind, reason = .failed kind) ∧
          ∀ error, last = .error error → reason = .failed .handler) ∧
        (reason = .handlerClose → s.record.handed.getLast? = some (.close none))) := by
  have hs := session_run h
  have ho := hs.base.outbound.ordered
  obtain ⟨hordered, hsent⟩ := hs.fits.wire ho
  refine ⟨hordered, ⟨hsent, ho.once⟩, hs.base.blocks, ?_, ?_⟩
  · intro a s' hstep k msg hhanded
    obtain ⟨l, hl, heq⟩ := seen_step hstep
    have happend := congrArg Prod.fst heq
    rw [show s'.record.seen.1 = s'.record.handed from rfl, hhanded] at happend
    have hframe := List.append_cancel_left happend
    cases hl with
    | nothing => cases hframe
    | close => cases hframe
    | send what hphase =>
      have hfits := hs.fits
      rw [hphase] at hfits
      cases what with
      | ping | push => cases hframe
      | reply msg' rest =>
        obtain ⟨hreplying, hsent⟩ := hfits
        obtain ⟨before, sent, hlast, -⟩ := hreplying.answering
        have hpos : s.record.turns ≠ [] := by
          rintro hnil
          rw [hnil] at hlast
          cases hlast
        have hlength := List.length_pos_of_ne_nil hpos
        cases hframe
        exact ⟨Nat.sub_add_cancel hlength, hsent ▸ messages_mono hreplying.marked,
          hreplying.decided⟩
  · intro reason result last hphase hlast hreply hcut
    have hfits := hs.fits
    rw [hphase] at hfits
    rcases hfits.1.settled with hreplied | hcut' | hflushed
    · obtain ⟨msgs, hmsgs⟩ := hreplied last hlast
      exact absurd hmsgs (hreply msgs)
    · rw [hcut] at hcut'
      cases hcut'
    · refine ⟨?_, hflushed.byClose, ?_, hflushed.handlerClose⟩
      · intro i op msg hreturned hitem
        have hop : (s.outbound.calls i).op = some op := by
          rw [hreturned]
          rfl
        have hmem : (i, op.item) ∈ s.outbound.committed := by
          rw [ho.mem_committed hop, hreturned]
          rfl
        have hpush : (i, msg) ∈ pushes s.record.handed := by
          rw [hflushed.all]
          exact List.mem_filterMap.mpr ⟨_, hmem, by rw [hitem]⟩
        obtain ⟨f, hf, hfi⟩ := List.mem_filterMap.mp hpush
        cases f with
        | push j msg' =>
          cases hfi
          exact hf
        | ping | reply | close => cases hfi
      · intro hnone
        obtain ⟨hclose, herror⟩ := hflushed.byHandler hnone
        exact ⟨fun heq => hclose (heq ▸ hlast), fun error heq => herror error (heq ▸ hlast)⟩

/-- No timers but the close grace of ten seconds, and room for one push. -/
def sampleConfig : Config := ⟨none, 10000000000, none, 1, by decide, by decide⟩

/-- The handler pushes a message and returns a reply, which is the next frame. -/
def replyActions : List Action :=
  [.go, .go, .inbound (some (.ok (.text "q"))), .sender (.start 0 (.send (.text "a"))),
    .sender (.grant 0), .sender (.go 0), .sender (.go 0), .handled (.ok (.reply [.text "r"])),
    .go, .go, .sendDone (.ok ()), .go, .go]

def closeActions : List Action :=
  [.go, .sendDone (.ok ()), .go, .inbound (some (.ok (.text "q"))),
    .sender (.start 1 (.send (.text "b"))), .sender (.grant 1), .sender (.go 1), .sender (.go 1),
    .handled (.ok .close), .go, .go, .go, .go, .go, .sendDone (.ok ()), .go, .go,
    .sendDone (.ok ()), .go, .go, .go]

theorem wire_law_close :
    ∃ s t, run (Session.step (2 ^ 63) sampleConfig) replyActions (.new sampleConfig 0) = some s ∧
      run (Session.step (2 ^ 63) sampleConfig) (replyActions ++ closeActions)
        (.new sampleConfig 0) = some t ∧
      messages s.record.mark <+: pushes s.record.handed ∧ s.record.mark ≠ [] ∧
      t.record.handed = [.push 0 (.text "a"), .reply 0 (.text "r"), .push 1 (.text "b"), .close none] ∧
      .push 1 (.text "b") ∈ t.record.handed := by
  refine ⟨_, _, rfl, rfl, ?_, (fun h => nomatch h), rfl, ?_⟩
  · have hlaw := wire_law (show run (Session.step (2 ^ 63) sampleConfig) replyActions
      (.new sampleConfig 0) = some _ from rfl)
    exact (hlaw.2.2.2.1 .go _ rfl 0 (.text "r") rfl).2.1
  · have hlaw := wire_law (show run (Session.step (2 ^ 63) sampleConfig)
      (replyActions ++ closeActions) (.new sampleConfig 0) = some _ from rfl)
    exact (hlaw.2.2.2.2 .handlerClose (.ok ()) (.ok .close) rfl rfl (fun _ h => nomatch h) rfl).1
      1 (.send (.text "b")) (.text "b") rfl rfl

theorem clientClosed_run {as : List Action} {s s' : Session}
    (h : run (Session.step latest config) as s = some s') :
    s'.record.troubles.clientClosed =
      (s.record.troubles.clientClosed || as.any Action.clientClose) := by
  induction as generalizing s with
  | nil =>
    cases h
    rw [List.any_nil, Bool.or_false]
  | cons a as ih =>
    obtain ⟨t, ht, hrun⟩ := run_cons h
    obtain ⟨l, -, heq⟩ := seen_step ht
    have hclosed : t.record.troubles.clientClosed = _ := congrArg Prod.snd heq
    rw [ih hrun, hclosed, List.any_cons, Bool.or_assoc]

/-- An orderly close ends with one Close frame on the wire, but for the reply to a Close of the
client. -/
theorem close_flushed_iff {now : ℕ} {as : List Action} {reason : CloseReason}
    {result : Except WsError Unit}
    (h : run (Session.step latest config) as (.new config now) = some s)
    (hphase : s.phase = .done reason result) (horderly : reason.Orderly)
    (hexpired : s.record.troubles.expired = false)
    (hwrite : s.record.troubles.writeFailed = false)
    (htimer : reason = .pongTimeout → s.record.troubles.stalled = false) :
    s.stream.flushed = 1 ↔ ∀ frame, .inbound (some (.ok (.close frame))) ∉ as := by
  have hfits := (session_run h).fits
  rw [hphase] at hfits
  obtain ⟨hclient, hflushed⟩ := hfits.1.handshaken
  have hrun := clientClosed_run h
  rw [show (Session.new config now).record.troubles.clientClosed = false from rfl,
    Bool.false_or] at hrun
  rw [hrun, List.any_eq_true] at hclient
  have hexists : (∃ a ∈ as, a.clientClose = true) ↔
      ∃ frame, .inbound (some (.ok (.close frame))) ∈ as := by
    constructor
    · rintro ⟨a, ha, hclose⟩
      unfold Action.clientClose at hclose
      split at hclose
      · exact ⟨_, ha⟩
      · cases hclose
    · rintro ⟨frame, hframe⟩
      exact ⟨_, hframe, rfl⟩
  rw [hflushed horderly hexpired hwrite htimer, ← not_exists, ← hexists, hclient]
  split
  · next hreason => simp [hreason]
  · next hreason => simp [hreason]

theorem close_flushed_iff_handler :
    ∃ s, run (Session.step (2 ^ 63) sampleConfig) (replyActions ++ closeActions)
        (.new sampleConfig 0) = some s ∧
      s.phase = .done .handlerClose (.ok ()) ∧ s.stream.flushed = 1 := by
  refine ⟨_, rfl, rfl, ?_⟩
  refine (close_flushed_iff (show run (Session.step (2 ^ 63) sampleConfig)
    (replyActions ++ closeActions) (.new sampleConfig 0) = some _ from rfl)
    rfl (.inr (.inl rfl)) rfl rfl (fun h => nomatch h)).mpr ?_
  intro frame hmem
  simp [replyActions, closeActions] at hmem

/-- The client sends a Close frame, and the session ends before the stream answers it. -/
theorem client_close_unanswered :
    ∃ s, run (Session.step (2 ^ 63) sampleConfig)
        [.go, .go, .inbound (some (.ok (.close (some ⟨1000, "bye"⟩)))), .go, .go, .go]
        (.new sampleConfig 0) = some s ∧
      s.phase = .done .clientClose (.ok ()) ∧ s.record.troubles.expired = false ∧
      s.record.troubles.writeFailed = false ∧ s.stream.queued = true ∧ s.stream.flushed = 0 :=
  ⟨_, rfl, rfl, rfl, rfl, rfl, rfl⟩

end Law

end FandheBackend.WsSession
