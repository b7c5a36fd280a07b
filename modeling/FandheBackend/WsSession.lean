import FandheBackend.ActionRuns
import FandheBackend.WsSender

set_option autoImplicit false

/-!
# A WebSocket session (`crates/plugin-websocket/src/session.rs`, `config.rs`)

The task of `run_session_inner` beside the calls on its `WsSender`. A phase is a place where the
task waits, or where it looks at the queue; what a wait ends with is an action of the run, so
which leg of a race is ready is left open. The channel always has a sender, the one in the
context of the session. Instants are numbers up to the last one that the clock can hold.
-/
namespace FandheBackend.WsSession
open StdBytes WsSender

/-- `tungstenite::Error`, as far as the session tells errors apart. -/
inductive StreamError where
  | connectionClosed
  | alreadyClosed
  | io
  | capacity
  | resetWithoutClosingHandshake
  | sendAfterClosing
  | other
  deriving DecidableEq, Repr

structure CloseFrame where
  code : UInt16
  reason : String
  deriving DecidableEq

/-- `tungstenite::Message`, as `ws.next()` gives it. -/
inductive Message where
  | text (data : String)
  | binary (data : Bytes)
  | ping (payload : Bytes)
  | pong (payload : Bytes)
  | close (frame : Option CloseFrame)
  | frame
  deriving DecidableEq

inductive FailureKind where
  | io
  | protocol
  | handler
  deriving DecidableEq, Repr

inductive CloseReason where
  | clientClose
  | eof
  | idleTimeout
  | cancelled
  | handlerClose
  | messageTooLarge
  | failed (kind : FailureKind)
  | senderClose
  | pongTimeout
  deriving DecidableEq, Repr

inductive WsError where
  | invalidHandshake (reason : String)
  | unsupportedVersion
  | io
  | protocol (error : StreamError)
  | handler (error : String)
  deriving DecidableEq

inductive WsOutcome where
  | reply (messages : List WsMessage)
  | close
  deriving DecidableEq

/-- What a call of the handler gives; the error is a `WsHandlerError`. -/
abbrev HandlerResult := Except String WsOutcome

structure SessionFailure where
  reason : CloseReason
  error : WsError

namespace SessionFailure

def recv (error : StreamError) : SessionFailure where
  reason := match error with
    | .capacity => .messageTooLarge
    | .io => .failed .io
    | .resetWithoutClosingHandshake => .eof
    | _ => .failed .protocol
  error := .protocol error

def send (error : StreamError) : SessionFailure where
  reason := match error with
    | .io => .failed .io
    | _ => .failed .protocol
  error := .protocol error

end SessionFailure

/-- With the checks of `with_ping_interval`. -/
structure PingKeepalive where
  interval : ℕ
  pongTimeout : ℕ
  interval_pos : 0 < interval
  pongTimeout_pos : 0 < pongTimeout

def maxOutboundCapacity : ℕ := 4096

/-- What the session reads of `WebSocketConfig`, with the checks of `with_outbound_capacity`.
Durations are in nanoseconds. -/
structure Config where
  idleTimeout : Option ℕ
  closeGrace : ℕ
  ping : Option PingKeepalive
  outboundCapacity : ℕ
  outboundCapacity_pos : 0 < outboundCapacity
  outboundCapacity_le : outboundCapacity ≤ maxOutboundCapacity

def checkedAdd (latest now duration : ℕ) : Option ℕ :=
  if now + duration ≤ latest then some (now + duration) else none

/-- The loop of `checked_deadline`, in nanoseconds. -/
def checkedDeadlineSearch (latest now lo hi : ℕ) : ℕ :=
  if 1000000000 < hi - lo then
    if now + (lo + (hi - lo) / 2) ≤ latest then
      checkedDeadlineSearch latest now (lo + (hi - lo) / 2) hi
    else checkedDeadlineSearch latest now lo (lo + (hi - lo) / 2)
  else lo
termination_by hi - lo

def checkedDeadline (latest now duration : ℕ) : ℕ :=
  match checkedAdd latest now duration with
  | some deadline => deadline
  | none => (checkedAdd latest now (checkedDeadlineSearch latest now 0 duration)).getD now

structure PendingPing where
  deadline : ℕ
  payload : Bytes
  deriving DecidableEq

structure Keepalive where
  interval : ℕ
  pongTimeout : ℕ
  nextPingAt : ℕ
  pending : Option PendingPing
  nextSeq : UInt64
  deriving DecidableEq

inductive TimerKind where
  | idle
  | pongDeadline
  | pingDue
  deriving DecidableEq, Repr

namespace Keepalive

def new (latest now : ℕ) (config : PingKeepalive) : Keepalive :=
  ⟨config.interval, config.pongTimeout, checkedDeadline latest now config.interval, none, 0⟩

def timerLeg (k : Keepalive) : ℕ × TimerKind :=
  match k.pending with
  | some pending => (pending.deadline, .pongDeadline)
  | none => (k.nextPingAt, .pingDue)

/-- `next_seq.to_be_bytes()`. -/
def payload (k : Keepalive) : Bytes :=
  ([56, 48, 40, 32, 24, 16, 8, 0] : List UInt64).map fun shift => (k.nextSeq >>> shift).toUInt8

def due (k : Keepalive) (now : ℕ) : Bool := k.pending.isNone && decide (k.nextPingAt ≤ now)

def sent (k : Keepalive) (latest now : ℕ) (payload : Bytes) : Keepalive :=
  { k with
    pending := some ⟨checkedDeadline latest now k.pongTimeout, payload⟩
    nextPingAt := checkedDeadline latest now k.interval }

def onPong (k : Keepalive) (payload : Bytes) : Keepalive :=
  if k.pending.any (·.payload = payload) then { k with pending := none } else k

end Keepalive

inductive Back where
  | loop
  | handler
  -- `drain_before_reply`, with the tries that are left.
  | beforeReply (left : ℕ) (reply : List WsMessage)
  -- `drain_to_close`.
  | toClose (reply : List WsMessage)
  -- `flush_outbound`, with its deadline and the result of the handler.
  | flush (deadline : ℕ) (ending : Option String) (closeDeadline : ℕ)

/-- A frame of `send_bounded`, or of the sends in `flush_outbound`. -/
inductive Sending where
  | ping (payload : Bytes)
  | push (call : ℕ) (msg : WsMessage) (back : Back)
  | reply (msg : WsMessage) (rest : List WsMessage)

inductive Next where
  | flush (deadline : ℕ) (ending : Option String) (closeDeadline : ℕ)
  -- `close_and_drain`; with no deadline it is counted from the call.
  | close (reason : CloseReason) (frame : Option CloseFrame) (deadline : Option ℕ)
  | tooBig (deadline : ℕ) (error : StreamError)
  | leave (reason : CloseReason) (result : Except WsError Unit)
  -- The panic of an addition of instants.
  | unwind

/-- The steps of `release`, and of `seal` with `rx.close()`. -/
inductive SealStage where
  | closing
  | announce
  | receiver
  deriving DecidableEq, Repr

inductive CloseStage where
  | call
  | await
  | drain
  deriving DecidableEq, Repr

inductive Phase where
  | opening
  | top
  | waiting
  | handling
  -- Before the first poll of `ws.send`.
  | sending (what : Sending)
  | inFlight (what : Sending)
  | drainBeforeReply (left : ℕ) (reply : List WsMessage)
  -- The decision point of `apply_outcome`.
  | decide (reply : List WsMessage)
  | drainToClose (reply : List WsMessage)
  | sealing (stage : SealStage) (next : Next)
  | flushing (deadline : ℕ) (ending : Option String) (closeDeadline : ℕ)
  -- `ws.close(None)` of `apply_outcome`, before or after its first poll.
  | closeNone (polled : Bool) (deadline : ℕ)
  | closeAndDrain (stage : CloseStage) (reason : CloseReason) (frame : Option CloseFrame)
      (deadline : ℕ)
  -- `handle_message_too_big`.
  | tooBig (polled : Bool) (deadline : ℕ) (error : StreamError)
  | done (reason : CloseReason) (result : Except WsError Unit)
  | unwound

def Back.phase : Back → Phase
  | .loop => .top
  | .handler => .handling
  | .beforeReply left reply => .drainBeforeReply left reply
  | .toClose reply => .drainToClose reply
  | .flush deadline ending closeDeadline => .flushing deadline ending closeDeadline

inductive Handed where
  | ping (payload : Bytes)
  | push (call : ℕ) (msg : WsMessage)
  -- With the number of the handler's call.
  | reply (turn : ℕ) (msg : WsMessage)
  | close (frame : Option CloseFrame)
  deriving DecidableEq

def Handed.isClose : Handed → Bool
  | .close _ => true
  | _ => false

inductive HandlerEvent where
  | start
  -- The future has returned, or was dropped.
  | stop
  deriving DecidableEq, Repr

structure Timers where
  now : ℕ
  idleDeadline : Option ℕ
  keepalive : Option Keepalive
  closeDeadline : Option ℕ
  -- `CloseBound::expired` was polled since the send began.
  watching : Bool
  sendStart : ℕ

/-- The `WebSocketStream`, as far as Close frames go. -/
structure WsStream where
  active : Bool
  queued : Bool
  -- The Close frames that were written and flushed.
  flushed : ℕ
  deriving DecidableEq, Repr

structure Troubles where
  cut : Bool := false
  expired : Bool := false
  writeFailed : Bool := false
  stalled : Bool := false
  closeFailed : Bool := false
  clientClosed : Bool := false
  deriving DecidableEq

structure Record where
  handed : List Handed
  turns : List HandlerResult
  -- The items that were committed when the handler returned.
  mark : List (ℕ × OutboundItem)
  -- At the decision point of this turn, whether a Close was committed.
  decided : Option Bool
  running : Bool
  log : List HandlerEvent
  troubles : Troubles

structure Session where
  outbound : Outbound
  timers : Timers
  phase : Phase
  stream : WsStream
  record : Record

inductive Action where
  | sender (action : WsSender.Action)
  | tick (duration : ℕ)
  | go
  | cancel
  | recv
  -- `ws.next()` of the receive loop.
  | inbound (message : Option (Except StreamError Message))
  | timer
  | handled (result : HandlerResult)
  | sendDone (result : Except StreamError Unit)
  -- A poll of `CloseBound::expired`.
  | observe
  | graceExpired
  | stalled
  -- `timeout_at`.
  | deadline
  -- `ws.next()` of `close_and_drain`; it may fail to write what the stream has queued.
  | drained (message : Option (Except StreamError Unit)) (wrote : Bool)
  -- The end of `handle_message_too_big`.
  | lingered

namespace WsStream

def flush (st : WsStream) : WsStream :=
  if st.queued then { st with queued := false, flushed := st.flushed + 1 } else st

/-- The first poll of `ws.close`, or a Close from the client that has to be answered. -/
def queueClose (st : WsStream) : WsStream :=
  if st.active then { st with active := false, queued := true } else st

end WsStream

namespace Record

def hand (r : Record) (frame : Handed) : Record := { r with handed := r.handed ++ [frame] }

/-- The future of the handler is dropped if there is one. -/
def stop (r : Record) : Record :=
  if r.running then { r with running := false, log := r.log ++ [.stop] } else r

end Record

namespace Session

def hand (s : Session) (frame : Handed) : Session := { s with record := s.record.hand frame }

def trouble (s : Session) (f : Troubles → Troubles) : Session :=
  { s with record := { s.record with troubles := f s.record.troubles } }

/-- `outbound.release()`, or the drop of the guard at a return. -/
def quit (s : Session) (next : Next) : Session :=
  { s with record := s.record.stop, phase := .sealing .closing next }

def goingAway : CloseFrame := ⟨1001, "going away"⟩

def messageTooBig : CloseFrame := ⟨1009, "message too big"⟩

section
variable (latest : ℕ) (config : Config)

/-- `CloseBound::observe`; nothing when the addition overflows. -/
def observed (s : Session) : Option (Option ℕ) :=
  if s.outbound.closeRequestSignal then
    match s.timers.closeDeadline with
    | some deadline => some (some deadline)
    | none => (checkedAdd latest s.timers.now config.closeGrace).map some
  else some none

/-- `CloseBound::deadline`. -/
def closeBoundDeadline (s : Session) : Option ℕ :=
  (s.observed latest config).bind fun deadline =>
    deadline.elim (checkedAdd latest s.timers.now config.closeGrace) some

def senderClose (s : Session) (code : UInt16) (reason : String) : Session :=
  match s.closeBoundDeadline latest config with
  | some deadline => s.quit (.close .senderClose (some ⟨code, reason⟩) (some deadline))
  | none => s.quit .unwind

def take (s : Session) (back : Back) : Option Session :=
  match s.outbound.queue, s.outbound.recv with
  | (i, item) :: _, some outbound =>
    let s := { s with outbound := outbound }
    match item, back with
    | .message msg, _ => some { s with phase := .sending (.push i msg back) }
    | .close code reason, .flush deadline _ _ =>
      some (s.quit (.close .senderClose (some ⟨code, reason⟩) (some deadline)))
    | .close code reason, _ => some (s.senderClose latest config code reason)
  | _, _ => none

/-- A frame of the client is done with; the idle deadline moves. -/
def processed (s : Session) : Session :=
  match config.idleTimeout with
  | none => { s with timers := { s.timers with idleDeadline := none }, phase := .top }
  | some d =>
    match checkedAdd latest s.timers.now d with
    | some deadline =>
      { s with timers := { s.timers with idleDeadline := some deadline }, phase := .top }
    | none => s.quit .unwind

def startReply (s : Session) : List WsMessage → Session
  | [] => s.processed latest config
  | msg :: rest => { s with phase := .sending (.reply msg rest) }

/-- `flush_outbound` up to the seal, for a handler that returned `Close` or an error. -/
def startFlush (s : Session) (ending : Option String) : Session :=
  match checkedAdd latest s.timers.now config.closeGrace, s.observed latest config with
  | some closeDeadline, some deadline =>
    s.quit (.flush (deadline.elim closeDeadline (min closeDeadline)) ending closeDeadline)
  | _, _ => s.quit .unwind

def enter (s : Session) : Next → Session
  | .flush deadline ending closeDeadline =>
    { s with phase := .flushing deadline ending closeDeadline }
  | .close reason frame (some deadline) =>
    { s with phase := .closeAndDrain .call reason frame deadline }
  | .close reason frame none =>
    match checkedAdd latest s.timers.now config.closeGrace with
    | some deadline => { s with phase := .closeAndDrain .call reason frame deadline }
    | none => { s with phase := .unwound }
  | .tooBig deadline error => { s with phase := .tooBig false deadline error }
  | .leave reason result => { s with phase := .done reason result }
  | .unwind => { s with phase := .unwound }

def sealStep (s : Session) (next : Next) : SealStage → Option Session
  | .closing => (s.outbound.step .sealForSession).map fun outbound =>
    { s with outbound := outbound, phase := .sealing .announce next }
  | .announce => (s.outbound.step .announceSeal).map fun outbound =>
    { s with outbound := outbound, phase := .sealing .receiver next }
  | .receiver =>
    match next with
    | .flush _ _ _ => (s.outbound.step .closeReceiver).map fun outbound =>
      { s with outbound := outbound }.enter latest config next
    | _ => (s.outbound.step .dropReceiver).map fun outbound =>
      { s with outbound := outbound }.enter latest config next

def opened (s : Session) : Session :=
  let s := { s with timers := { s.timers with
    keepalive := config.ping.map (Keepalive.new latest s.timers.now) } }
  s.processed latest config

def atTop (s : Session) : Session :=
  match s.timers.keepalive with
  | some k =>
    if k.due s.timers.now then
      { s with
        timers := { s.timers with keepalive := some { k with nextSeq := k.nextSeq + 1 } }
        phase := .sending (.ping k.payload) }
    else { s with phase := .waiting }
  | none => { s with phase := .waiting }

/-- `ws.send` is polled for the first time. -/
def startSend (s : Session) (what : Sending) : Session :=
  let frame := match what with
    | .ping payload => Handed.ping payload
    | .push i msg _ => .push i msg
    | .reply msg _ => .reply (s.record.turns.length - 1) msg
  { s.hand frame with
    timers := { s.timers with watching := false, sendStart := s.timers.now }
    phase := .inFlight what }

def sent (s : Session) : Sending → Session
  | .ping payload =>
    { s with
      timers := { s.timers with
        keepalive := s.timers.keepalive.map (·.sent latest s.timers.now payload) }
      phase := .waiting }
  | .push _ _ back => { s with phase := back.phase }
  | .reply _ rest => s.startReply latest config rest

def go (s : Session) : Option Session :=
  match s.phase with
  | .opening => some (s.opened latest config)
  | .top => some s.atTop
  | .sending what => some (s.startSend what)
  | .drainBeforeReply 0 reply => some { s with phase := .decide reply }
  | .drainBeforeReply (left + 1) reply =>
    some ((s.take latest config (.beforeReply left reply)).getD { s with phase := .decide reply })
  | .decide reply =>
    match checkedAdd latest s.timers.now config.closeGrace with
    | none => some (s.quit .unwind)
    | some _ =>
      let s := { s with record := { s.record with
        decided := some (s.outbound.committed.any (·.2.isClose)) } }
      if s.outbound.closing then some { s with phase := .drainToClose reply }
      else some (s.startReply latest config reply)
  | .drainToClose reply =>
    some ((s.take latest config (.toClose reply)).getD (s.startReply latest config reply))
  | .sealing stage next => s.sealStep latest config next stage
  | .flushing deadline ending closeDeadline =>
    some ((s.take latest config (.flush deadline ending closeDeadline)).getD
      (match ending with
      | none => { s with phase := .closeNone false closeDeadline }
      | some error => s.quit (.leave (.failed .handler) (.error (.handler error)))))
  | .closeNone false deadline =>
    some { s.hand (.close none) with
      stream := s.stream.queueClose, phase := .closeNone true deadline }
  | .closeAndDrain .call reason frame deadline =>
    -- A second call of `ws.close` is refused, and the code goes on as after the first.
    some { s.hand (.close frame) with
      stream := s.stream.queueClose
      phase := .closeAndDrain (if s.stream.active then .await else .drain) reason frame deadline }
  | .tooBig false deadline error =>
    some { s.hand (.close messageTooBig) with
      stream := s.stream.queueClose, phase := .tooBig true deadline error }
  | _ => none

/-- Cancellation; `handle_cancellation` follows. -/
def cancel (s : Session) : Option Session :=
  let next := Next.close .cancelled goingAway none
  match s.phase with
  | .sending (.push _ _ (.flush _ _ _)) | .inFlight (.push _ _ (.flush _ _ _)) =>
    some ((s.trouble ({ · with cut := true })).quit next)
  | .sending _ | .inFlight _ | .waiting | .handling | .closeNone _ _ => some (s.quit next)
  | _ => none

def recv (s : Session) : Option Session :=
  match s.phase with
  | .waiting => s.take latest config .loop
  | .handling => s.take latest config .handler
  | _ => none

def startHandler (s : Session) : Session :=
  { s with
    phase := .handling
    record := { s.record with running := true, log := s.record.log ++ [.start] } }

/-- What `ws.next()` gives to the receive loop. -/
def inbound (s : Session) : Option (Except StreamError Message) → Session
  | none => s.quit (.leave .eof (.ok ()))
  | some (.error error) =>
    let failure := SessionFailure.recv error
    if failure.reason = .messageTooLarge then
      match s.closeBoundDeadline latest config with
      | some deadline => s.quit (.tooBig deadline error)
      | none => s.quit .unwind
    else s.quit (.leave failure.reason (.error failure.error))
  | some (.ok (.text _)) | some (.ok (.binary _)) => s.startHandler
  | some (.ok (.close _)) =>
    ({ s with stream := s.stream.queueClose }.trouble ({ · with clientClosed := true })).quit
      (.leave .clientClose (.ok ()))
  | some (.ok (.ping _)) | some (.ok .frame) => s.processed latest config
  | some (.ok (.pong payload)) =>
    { s with timers := { s.timers with
      keepalive := s.timers.keepalive.map (Keepalive.onPong · payload) } }.processed latest config

/-- The earlier of the two deadlines of the receive loop. -/
def timerLeg (t : Timers) : Option (ℕ × TimerKind) :=
  match t.idleDeadline.map (·, .idle), t.keepalive.map Keepalive.timerLeg with
  | some a, some b => some (if a.1 ≤ b.1 then a else b)
  | some a, none => some a
  | none, b => b

def timer (s : Session) : TimerKind → Session
  | .idle => s.quit (.close .idleTimeout none none)
  | .pongDeadline => s.quit (.close .pongTimeout none none)
  | .pingDue => { s with phase := .top }

def handled (s : Session) (result : HandlerResult) : Session :=
  let s := { s with record := { s.record.stop with
    turns := s.record.turns ++ [result], mark := s.outbound.committed, decided := none } }
  match result with
  | .ok (.reply messages) =>
    { s with phase := .drainBeforeReply config.outboundCapacity messages }
  | .ok .close => s.startFlush latest config none
  | .error error => s.startFlush latest config (some error)

def sendFailed (s : Session) (error : StreamError) : Session :=
  let failure := SessionFailure.send error
  (s.trouble ({ · with writeFailed := true })).quit (.leave failure.reason (.error failure.error))

def sendDone (s : Session) : Except StreamError Unit → Option Session
  | .ok () =>
    match s.phase with
    | .inFlight what => some (s.sent latest config what)
    | .closeNone true _ =>
      some ({ s with stream := s.stream.flush }.quit (.leave .handlerClose (.ok ())))
    | .closeAndDrain .await reason frame deadline =>
      some { s with stream := s.stream.flush, phase := .closeAndDrain .drain reason frame deadline }
    | _ => none
  | .error error =>
    match s.phase with
    | .inFlight (.push _ _ (.flush _ (some handlerError) _)) =>
      some ((s.trouble ({ · with cut := true, writeFailed := true })).quit
        (.leave (.failed .handler) (.error (.handler handlerError))))
    | .inFlight (.push _ _ (.flush _ none _)) =>
      some ((s.trouble ({ · with cut := true })).sendFailed error)
    | .inFlight _ | .closeNone true _ => some (s.sendFailed error)
    | .closeAndDrain .await reason frame deadline =>
      let s := s.trouble ({ · with writeFailed := true })
      match error with
      | .connectionClosed | .alreadyClosed => some { s with phase := .done reason (.ok ()) }
      | .sendAfterClosing =>
        some { s with phase := .closeAndDrain .drain reason frame deadline }
      | error => some { s.trouble ({ · with closeFailed := true }) with
          phase := .done reason (.error (.protocol error)) }
    | _ => none

/-- The sends that `CloseBound` and the stall timeout can end. -/
def bounded : Phase → Bool
  | .inFlight (.push _ _ (.flush _ _ _)) => false
  | .inFlight _ => true
  | _ => false

def observe (s : Session) : Option Session :=
  if bounded s.phase then
    match s.observed latest config with
    | some deadline =>
      some { s with timers := { s.timers with closeDeadline := deadline, watching := true } }
    | none => some (s.quit .unwind)
  else none

def graceExpired (s : Session) : Option Session :=
  if bounded s.phase ∧ s.timers.watching ∧ s.timers.closeDeadline.any (· ≤ s.timers.now) then
    some ((s.trouble ({ · with expired := true })).quit (.leave .senderClose (.ok ())))
  else none

def stall (s : Session) : Option Session :=
  if bounded s.phase ∧ config.ping.any (fun p => s.timers.sendStart + p.pongTimeout ≤ s.timers.now)
  then some ((s.trouble ({ · with stalled := true })).quit (.leave .pongTimeout (.ok ())))
  else none

/-- A deadline of `timeout_at` that has passed. -/
def deadline (s : Session) : Option Session :=
  let expired := s.trouble ({ · with expired := true })
  match s.phase with
  | .inFlight (.push _ _ (.flush deadline ending _)) =>
    if deadline ≤ s.timers.now then
      let s := expired.trouble ({ · with cut := true })
      some (s.quit (match ending with
        | none => .leave .handlerClose (.ok ())
        | some error => .leave (.failed .handler) (.error (.handler error))))
    else none
  | .closeNone true deadline =>
    if deadline ≤ s.timers.now then some (expired.quit (.leave .handlerClose (.ok ()))) else none
  | .closeAndDrain .await reason _ deadline | .closeAndDrain .drain reason _ deadline =>
    if deadline ≤ s.timers.now then some { expired with phase := .done reason (.ok ()) } else none
  | .tooBig true deadline error =>
    if deadline ≤ s.timers.now then
      some { s with phase := .done .messageTooLarge (.error (.protocol error)) }
    else none
  | _ => none

def drained (s : Session) (message : Option (Except StreamError Unit)) (wrote : Bool) :
    Option Session :=
  match s.phase with
  | .closeAndDrain .drain reason _ _ =>
    let s := if wrote then { s with stream := s.stream.flush }
      else s.trouble ({ · with writeFailed := true })
    match message with
    | some (.ok ()) => if wrote then some s else none
    | none => if wrote then some { s with phase := .done reason (.ok ()) } else none
    | some (.error .connectionClosed) | some (.error .alreadyClosed) =>
      some { s with phase := .done reason (.ok ()) }
    | some (.error error) =>
      some { s.trouble ({ · with closeFailed := true }) with
        phase := .done reason (.error (.protocol error)) }
  | _ => none

/-- `run_session_inner` with the senders of its queue. -/
def step (s : Session) : Action → Option Session
  | .sender action =>
    if action.call.isSome then
      (s.outbound.step action).map fun outbound => { s with outbound := outbound }
    else none
  | .tick duration =>
    (checkedAdd latest s.timers.now duration).map fun now =>
      { s with timers := { s.timers with now := now } }
  | .go => s.go latest config
  | .cancel => s.cancel
  | .recv => s.recv latest config
  | .inbound message =>
    match s.phase with
    | .waiting => some (s.inbound latest config message)
    | _ => none
  | .timer =>
    match s.phase, timerLeg s.timers with
    | .waiting, some (deadline, kind) =>
      if deadline ≤ s.timers.now then some (s.timer kind) else none
    | _, _ => none
  | .handled result =>
    match s.phase with
    | .handling => some (s.handled latest config result)
    | _ => none
  | .sendDone result => s.sendDone latest config result
  | .observe => s.observe latest config
  | .graceExpired => s.graceExpired
  | .stalled => s.stall config
  | .deadline => s.deadline
  | .drained message wrote => s.drained message wrote
  | .lingered =>
    match s.phase with
    | .tooBig true _ error =>
      some { s with phase := .done .messageTooLarge (.error (.protocol error)) }
    | _ => none

/-- The session that `run_session` begins at an instant. -/
def new (now : ℕ) : Session where
  outbound := .channel config.outboundCapacity
  timers := ⟨now, none, none, none, false, now⟩
  phase := .opening
  stream := ⟨true, false, 0⟩
  record := ⟨[], [], [], none, false, [], {}⟩

end

end Session

end FandheBackend.WsSession
