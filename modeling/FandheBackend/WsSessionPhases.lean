import FandheBackend.WsSession
import FandheBackend.WsSenderLaw

set_option autoImplicit false

namespace FandheBackend.WsSession
open WsSender

def messages (items : List (ℕ × OutboundItem)) : List (ℕ × WsMessage) :=
  items.filterMap fun x =>
    match x.2 with
    | .message msg => some (x.1, msg)
    | .close _ _ => none

def pushes (handed : List Handed) : List (ℕ × WsMessage) :=
  handed.filterMap fun
    | .push i msg => some (i, msg)
    | _ => none

@[simp] theorem messages_append (l l' : List (ℕ × OutboundItem)) :
    messages (l ++ l') = messages l ++ messages l' := List.filterMap_append

@[simp] theorem pushes_append (l l' : List Handed) : pushes (l ++ l') = pushes l ++ pushes l' :=
  List.filterMap_append

theorem messages_mono {l l' : List (ℕ × OutboundItem)} (h : l <+: l') :
    messages l <+: messages l' := h.filterMap _

/-- The frames of one reply, in order and with no frame between them. -/
def Block (handed : List Handed) (turns : List HandlerResult) (k : ℕ) : Prop :=
  ∃ before sent after, handed = before ++ sent.map (.reply k) ++ after ∧
    (∀ msg, .reply k msg ∉ before) ∧ (∀ msg, .reply k msg ∉ after) ∧
    (sent = [] ∨ ∃ msgs, turns[k]? = some (.ok (.reply msgs)) ∧ sent <+: msgs)

namespace Record

def Blocks (r : Record) : Prop := ∀ k, Block r.handed r.turns k

/-- The calls of the handler do not overlap. -/
def LogFits (r : Record) : Prop :=
  ∃ n, r.log = (List.replicate n [HandlerEvent.start, .stop]).flatten ++
    if r.running then [.start] else []

def LastReply (r : Record) : Prop :=
  ∀ result, r.turns.getLast? = some result → ∃ msgs, result = .ok (.reply msgs)

/-- The last call has returned a reply, and none of it was handed. -/
def Unanswered (r : Record) (reply : List WsMessage) : Prop :=
  r.turns.getLast? = some (.ok (.reply reply)) ∧ ∀ msg, .reply (r.turns.length - 1) msg ∉ r.handed

/-- The last call has returned a reply, and these messages of it are left. -/
def Answering (r : Record) (rest : List WsMessage) : Prop :=
  ∃ before sent, r.turns.getLast? = some (.ok (.reply (sent ++ rest))) ∧
    r.handed = before ++ sent.map (.reply (r.turns.length - 1)) ∧
    ∀ msg, .reply (r.turns.length - 1) msg ∉ before

end Record

def endingResult : Option String → HandlerResult
  | none => .ok .close
  | some error => .error error

def Sent (o : Outbound) (r : Record) : Prop := pushes r.handed = messages o.received

def Owing (o : Outbound) (r : Record) (i : ℕ) (msg : WsMessage) : Prop :=
  messages o.received = pushes r.handed ++ [(i, msg)]

/-- No Close frame was seen, and nothing has gone wrong. -/
structure Open (o : Outbound) (st : WsStream) (r : Record) : Prop where
  noClose : ∀ x ∈ o.received, x.2.isClose = false
  fresh : st = ⟨true, false, 0⟩
  plain : r.troubles = {}
  silent : ∀ f ∈ r.handed, f.isClose = false

structure Running (o : Outbound) (st : WsStream) (r : Record) : Prop extends Open o st r where
  attached : o.receiver = .attached
  unsealed : o.sealed = false
  lastReply : r.LastReply

structure Flushing (o : Outbound) (st : WsStream) (r : Record) (ending : Option String) : Prop
    extends Open o st r where
  receiver : o.receiver ≠ .dropped
  last : r.turns.getLast? = some (endingResult ending)
  idle : r.running = false

/-- A reply may be sent: what was committed when the handler returned is handed, and no Close
was committed at the decision point. -/
structure Replying (o : Outbound) (st : WsStream) (r : Record) (rest : List WsMessage) : Prop
    extends Running o st r where
  idle : r.running = false
  answering : r.Answering rest
  marked : r.mark <+: o.received
  decided : r.decided = some false

def Back.Fits (o : Outbound) (st : WsStream) (r : Record) : Back → Prop
  | .loop => Running o st r ∧ r.running = false
  | .handler => Running o st r ∧ r.running = true
  | .beforeReply left reply => Running o st r ∧ r.running = false ∧ r.Unanswered reply ∧
      r.mark <+: o.committed ∧ r.mark.length ≤ o.received.length + left
  | .toClose _ => Running o st r ∧ r.running = false ∧ ∃ x ∈ o.queue, x.2.isClose = true
  | .flush _ ending _ => Flushing o st r ending ∧ o.sealed = true

/-- The session hands no push any more. -/
structure Over (o : Outbound) (r : Record) : Prop where
  ordered : r.handed.Pairwise fun a b => a.isClose = true → b.isClose = true
  sent : pushes r.handed <+: messages o.committed
  idle : r.running = false

/-- The queue was flushed to its end; a Close frame may still have to be handed. -/
structure Flushed (o : Outbound) (r : Record) (reason : CloseReason)
    (pending : Option (Option CloseFrame)) : Prop where
  sealed : o.sealed = true
  all : pushes r.handed = messages o.committed
  byClose : ∀ i code text, (i, .close code text) ∈ o.committed → reason = .senderClose ∧
    pending.elim (r.handed.getLast? = some (.close (some ⟨code, text⟩))) (· = some ⟨code, text⟩)
  byHandler : (∀ x ∈ o.committed, x.2.isClose = false) →
    (r.turns.getLast? = some (.ok .close) →
      reason = .handlerClose ∨ reason = .cancelled ∨ ∃ kind, reason = .failed kind) ∧
    ∀ error, r.turns.getLast? = some (.error error) → reason = .failed .handler
  handlerClose : reason = .handlerClose →
    pending.elim (r.handed.getLast? = some (.close none)) (· = none)

/-- Unless the last call has returned a reply, or something has cut it off, the queue was
flushed. -/
def Settled (o : Outbound) (r : Record) (reason : CloseReason)
    (pending : Option (Option CloseFrame)) : Prop :=
  r.LastReply ∨ r.troubles.cut = true ∨ Flushed o r reason pending

namespace CloseReason

def Closes (reason : CloseReason) : Prop :=
  reason = .senderClose ∨ reason = .cancelled ∨ reason = .idleTimeout ∨ reason = .pongTimeout

/-- The reasons after which the closing handshake is expected. -/
def Orderly (reason : CloseReason) : Prop :=
  reason = .clientClose ∨ reason = .handlerClose ∨ reason.Closes

def Agrees (reason : CloseReason) (result : Except WsError Unit) (closeFailed : Bool) : Prop :=
  match reason with
  | .clientClose | .handlerClose => result = .ok ()
  | .idleTimeout | .cancelled | .senderClose | .pongTimeout => result = .ok () ∨ closeFailed = true
  | .messageTooLarge | .failed _ => ∃ error, result = .error error
  | .eof => True

end CloseReason

/-- The Close frames that the stream has written, for a reason. -/
structure Handshaken (st : WsStream) (t : Troubles) (reason : CloseReason) : Prop where
  client : t.clientClosed = true ↔ reason = .clientClose
  flushed : reason.Orderly → t.expired = false → t.writeFailed = false →
    (reason = .pongTimeout → t.stalled = false) →
    st.flushed = if reason = .clientClose then 0 else 1

def Troubles.OnlyCut (t : Troubles) : Prop := t = { cut := t.cut }

/-- `ws.close` was not called, or was not ready. -/
def WsStream.Ready (st : WsStream) : Prop := st = ⟨true, false, 0⟩ ∨ st = ⟨false, true, 0⟩

structure Shut (o : Outbound) : Prop where
  sealed : o.sealed = true
  signal : o.closedSignal = true
  receiver : o.receiver = .dropped

/-- Before `close_and_drain` hands its frame. -/
structure Closing (o : Outbound) (st : WsStream) (r : Record) (reason : CloseReason)
    (frame : Option CloseFrame) : Prop extends Over o r where
  settled : Settled o r reason (some frame)
  closes : reason.Closes
  ready : st.Ready
  onlyCut : r.troubles.OnlyCut

structure Leaving (o : Outbound) (st : WsStream) (r : Record) (reason : CloseReason)
    (result : Except WsError Unit) : Prop extends Over o r where
  settled : Settled o r reason none
  agrees : reason.Agrees result r.troubles.closeFailed
  handshaken : Handshaken st r.troubles reason

def Next.Fits (o : Outbound) (st : WsStream) (r : Record) : Next → Prop
  | .flush _ ending _ => Flushing o st r ending ∧ Sent o r
  | .close reason frame _ => Closing o st r reason frame
  | .tooBig _ _ => Over o r ∧ r.LastReply ∧ r.troubles = {}
  | .leave reason result => Leaving o st r reason result
  | .unwind => Over o r

structure ClosingNone (o : Outbound) (st : WsStream) (r : Record) : Prop extends Over o r where
  flushed : Flushed o r .handlerClose none
  noClose : ∀ x ∈ o.committed, x.2.isClose = false
  last : r.turns.getLast? = some (.ok .close)
  stream : st = ⟨false, true, 0⟩
  plain : r.troubles = {}

structure Draining (o : Outbound) (st : WsStream) (r : Record) (reason : CloseReason) : Prop
    extends Over o r where
  settled : Settled o r reason none
  closes : reason.Closes
  failed : r.troubles = { cut := r.troubles.cut, writeFailed := r.troubles.writeFailed }
  stream : r.troubles.writeFailed = false → st = ⟨false, true, 0⟩ ∨ st = ⟨false, false, 1⟩

def Phase.Fits (o : Outbound) (st : WsStream) (r : Record) : Phase → Prop
  | .opening | .top | .waiting | .sending (.ping _) | .inFlight (.ping _) =>
    Back.loop.Fits o st r ∧ Sent o r
  | .handling => Back.handler.Fits o st r ∧ Sent o r
  | .sending (.push i msg back) => back.Fits o st r ∧ Owing o r i msg
  | .inFlight (.push _ _ back) => back.Fits o st r ∧ Sent o r
  | .sending (.reply msg rest) => Replying o st r (msg :: rest) ∧ Sent o r
  | .inFlight (.reply _ rest) => Replying o st r rest ∧ Sent o r
  | .drainBeforeReply left reply => (Back.beforeReply left reply).Fits o st r ∧ Sent o r
  | .decide reply => (Back.beforeReply 0 reply).Fits o st r ∧ Sent o r
  | .drainToClose reply => (Back.toClose reply).Fits o st r ∧ Sent o r
  | .flushing deadline ending closeDeadline =>
    (Back.flush deadline ending closeDeadline).Fits o st r ∧ Sent o r
  | .sealing stage next => (stage ≠ .closing → o.sealed = true) ∧
      (stage = .receiver → o.closedSignal = true) ∧ o.receiver ≠ .dropped ∧ next.Fits o st r
  | .closeNone false _ => Flushing o st r none ∧ Sent o r ∧ o.sealed = true ∧ o.queue = []
  | .closeNone true _ => ClosingNone o st r ∧ o.receiver ≠ .dropped
  | .closeAndDrain .call reason frame _ => Closing o st r reason frame ∧ Shut o
  | .closeAndDrain .await reason _ _ =>
    Draining o st r reason ∧ st = ⟨false, true, 0⟩ ∧ Shut o
  | .closeAndDrain .drain reason _ _ => Draining o st r reason ∧ Shut o
  | .tooBig _ _ _ => Over o r ∧ r.LastReply ∧ r.troubles = {} ∧ Shut o
  | .done reason result => Leaving o st r reason result ∧ Shut o
  | .unwound => Over o r

section Called
variable {o o' : Outbound} {st : WsStream} {r : Record}

theorem committed_of_sealed (h : o.Called o') (ho : o.Ordered) (hsealed : o.sealed = true) :
    o'.committed = o.committed := h.closing (ho.closing.mpr (.inl hsealed))

theorem Open.called (hopen : Open o st r) (h : o.Called o') : Open o' st r :=
  { hopen with noClose := h.received ▸ hopen.noClose }

theorem Running.called (hrunning : Running o st r) (h : o.Called o') : Running o' st r :=
  { hrunning.toOpen.called h with
    attached := h.receiver.trans hrunning.attached
    unsealed := h.sealed.trans hrunning.unsealed
    lastReply := hrunning.lastReply }

theorem Flushing.called {ending : Option String} (hflushing : Flushing o st r ending)
    (h : o.Called o') : Flushing o' st r ending :=
  { hflushing.toOpen.called h with
    receiver := h.receiver ▸ hflushing.receiver
    last := hflushing.last
    idle := hflushing.idle }

theorem Replying.called {rest : List WsMessage} (hreplying : Replying o st r rest)
    (h : o.Called o') : Replying o' st r rest :=
  { hreplying.toRunning.called h with
    idle := hreplying.idle
    answering := hreplying.answering
    marked := h.received ▸ hreplying.marked
    decided := hreplying.decided }

theorem Sent.called (hsent : Sent o r) (h : o.Called o') : Sent o' r := by
  rw [Sent, h.received]
  exact hsent

theorem Back.Fits.called {back : Back} (hback : back.Fits o st r) (h : o.Called o') :
    back.Fits o' st r := by
  cases back with
  | loop | handler => exact ⟨hback.1.called h, hback.2⟩
  | beforeReply left reply =>
    obtain ⟨hrunning, hidle, hun, hmark, hleft⟩ := hback
    exact ⟨hrunning.called h, hidle, hun, hmark.trans h.committed, h.received ▸ hleft⟩
  | toClose reply =>
    obtain ⟨hrunning, hidle, x, hx, hclose⟩ := hback
    exact ⟨hrunning.called h, hidle, x, h.queue.subset hx, hclose⟩
  | flush => exact ⟨hback.1.called h, h.sealed.trans hback.2⟩

theorem Over.called (hover : Over o r) (h : o.Called o') : Over o' r :=
  { hover with sent := hover.sent.trans (messages_mono h.committed) }

theorem Flushed.called {reason : CloseReason} {pending : Option (Option CloseFrame)}
    (hflushed : Flushed o r reason pending) (h : o.Called o') (ho : o.Ordered) :
    Flushed o' r reason pending := by
  have hcommitted := committed_of_sealed h ho hflushed.sealed
  obtain ⟨hsealed, hall, hbyClose, hbyHandler, hclose⟩ := hflushed
  exact ⟨h.sealed.trans hsealed, hcommitted ▸ hall, hcommitted ▸ hbyClose, hcommitted ▸ hbyHandler,
    hclose⟩

theorem Settled.called {reason : CloseReason} {pending : Option (Option CloseFrame)}
    (hsettled : Settled o r reason pending) (h : o.Called o') (ho : o.Ordered) :
    Settled o' r reason pending :=
  hsettled.imp_right (·.imp_right (·.called h ho))

theorem Shut.called (hshut : Shut o) (h : o.Called o') : Shut o' :=
  ⟨h.sealed.trans hshut.sealed, h.signal hshut.signal, h.receiver.trans hshut.receiver⟩

theorem Closing.called {reason : CloseReason} {frame : Option CloseFrame}
    (hclosing : Closing o st r reason frame) (h : o.Called o') (ho : o.Ordered) :
    Closing o' st r reason frame :=
  { hclosing with toOver := hclosing.toOver.called h, settled := hclosing.settled.called h ho }

theorem Leaving.called {reason : CloseReason} {result : Except WsError Unit}
    (hleaving : Leaving o st r reason result) (h : o.Called o') (ho : o.Ordered) :
    Leaving o' st r reason result :=
  { hleaving with toOver := hleaving.toOver.called h, settled := hleaving.settled.called h ho }

theorem Draining.called {reason : CloseReason} (hdraining : Draining o st r reason)
    (h : o.Called o') (ho : o.Ordered) : Draining o' st r reason :=
  { hdraining with toOver := hdraining.toOver.called h, settled := hdraining.settled.called h ho }

theorem ClosingNone.called (hnone : ClosingNone o st r) (h : o.Called o') (ho : o.Ordered) :
    ClosingNone o' st r :=
  { hnone with
    toOver := hnone.toOver.called h
    flushed := hnone.flushed.called h ho
    noClose := committed_of_sealed h ho hnone.flushed.sealed ▸ hnone.noClose }

theorem Next.Fits.called {next : Next} (hnext : next.Fits o st r) (h : o.Called o')
    (ho : o.Ordered) : next.Fits o' st r := by
  cases next with
  | flush => exact ⟨hnext.1.called h, hnext.2.called h⟩
  | close => exact Closing.called hnext h ho
  | tooBig => exact ⟨hnext.1.called h, hnext.2⟩
  | leave => exact Leaving.called hnext h ho
  | unwind => exact Over.called hnext h

theorem queue_of_sealed (h : o.Called o') (ho : o.Ordered) (ho' : o'.Ordered)
    (hsealed : o.sealed = true) (hreceiver : o.receiver ≠ .dropped) : o'.queue = o.queue := by
  have hcommitted := committed_of_sealed h ho hsealed
  rw [ho.queued hreceiver, ho'.queued (h.receiver ▸ hreceiver), h.received] at hcommitted
  exact List.append_cancel_left hcommitted

theorem Phase.Fits.called {phase : Phase} (hphase : phase.Fits o st r) (h : o.Called o')
    (ho : o.Ordered) (ho' : o'.Ordered) : phase.Fits o' st r := by
  cases phase with
  | opening | top | waiting | handling | drainBeforeReply | decide | drainToClose | flushing =>
    exact ⟨Back.Fits.called hphase.1 h, hphase.2.called h⟩
  | sending what =>
    cases what with
    | ping => exact ⟨Back.Fits.called hphase.1 h, hphase.2.called h⟩
    | push i msg back =>
      refine ⟨hphase.1.called h, ?_⟩
      rw [Owing, h.received]
      exact hphase.2
    | reply => exact ⟨hphase.1.called h, hphase.2.called h⟩
  | inFlight what =>
    cases what with
    | ping | push => exact ⟨Back.Fits.called hphase.1 h, hphase.2.called h⟩
    | reply => exact ⟨hphase.1.called h, hphase.2.called h⟩
  | sealing stage next =>
    obtain ⟨hsealed, hsignal, hreceiver, hnext⟩ := hphase
    exact ⟨fun hstage => h.sealed.trans (hsealed hstage), fun hstage => h.signal (hsignal hstage),
      h.receiver ▸ hreceiver, hnext.called h ho⟩
  | closeNone polled deadline =>
    cases polled with
    | false =>
      obtain ⟨hflushing, hsent, hsealed, hqueue⟩ := hphase
      exact ⟨hflushing.called h, hsent.called h, h.sealed.trans hsealed,
        (queue_of_sealed h ho ho' hsealed hflushing.receiver).trans hqueue⟩
    | true => exact ⟨hphase.1.called h ho, h.receiver ▸ hphase.2⟩
  | closeAndDrain stage =>
    cases stage with
    | call => exact ⟨hphase.1.called h ho, hphase.2.called h⟩
    | await => exact ⟨hphase.1.called h ho, hphase.2.1, hphase.2.2.called h⟩
    | drain => exact ⟨hphase.1.called h ho, hphase.2.called h⟩
  | tooBig => exact ⟨hphase.1.called h, hphase.2.1, hphase.2.2.1, hphase.2.2.2.called h⟩
  | done => exact ⟨hphase.1.called h ho, hphase.2.called h⟩
  | unwound => exact Over.called hphase h

end Called

namespace Record
variable (r : Record)

@[simp] theorem stop_handed : r.stop.handed = r.handed := by
  unfold stop
  split <;> rfl

@[simp] theorem stop_turns : r.stop.turns = r.turns := by
  unfold stop
  split <;> rfl

@[simp] theorem stop_troubles : r.stop.troubles = r.troubles := by
  unfold stop
  split <;> rfl

@[simp] theorem stop_running : r.stop.running = false := by
  unfold stop
  split
  · rfl
  · next h => exact Bool.eq_false_iff.mpr h

theorem stop_of_idle {r : Record} (h : r.running = false) : r.stop = r := by
  rw [stop, h]
  rfl

theorem LogFits.stop {r : Record} (h : r.LogFits) : r.stop.LogFits := by
  obtain ⟨n, hlog⟩ := h
  unfold Record.stop
  split
  · next hrunning =>
    refine ⟨n + 1, ?_⟩
    rw [hrunning] at hlog
    change r.log ++ [.stop] = _
    rw [hlog, List.replicate_succ', List.flatten_append]
    simp
  · exact ⟨n, hlog⟩

end Record

section Exits
variable {o : Outbound} {st : WsStream} {r : Record}

theorem pairwise_of_silent {handed : List Handed} (h : ∀ f ∈ handed, f.isClose = false) :
    handed.Pairwise fun a b => a.isClose = true → b.isClose = true :=
  List.pairwise_of_forall_mem_list fun a ha _ _ hclose => by
    rw [h a ha] at hclose
    cases hclose

theorem Sent.initial (hsent : Sent o r) (ho : o.Ordered) : pushes r.handed <+: messages o.committed :=
  hsent ▸ messages_mono ho.received

theorem Owing.initial {i : ℕ} {msg : WsMessage} (howing : Owing o r i msg) (ho : o.Ordered) :
    pushes r.handed <+: messages o.committed :=
  (howing ▸ List.prefix_append _ _ : pushes r.handed <+: messages o.received).trans
    (messages_mono ho.received)

theorem Open.over_stop {o' : Outbound} (hopen : Open o' st r) (t : Troubles)
    (hsent : pushes r.handed <+: messages o.committed) : Over o { r with troubles := t }.stop where
  ordered := by
    rw [Record.stop_handed]
    exact pairwise_of_silent hopen.silent
  sent := by
    rw [Record.stop_handed]
    exact hsent
  idle := Record.stop_running _

theorem Running.closing {o' : Outbound} (hrunning : Running o' st r)
    (hsent : pushes r.handed <+: messages o.committed) {reason : CloseReason}
    (hreason : reason.Closes) (frame : Option CloseFrame) : Closing o st r.stop reason frame where
  toOver := hrunning.toOpen.over_stop r.troubles hsent
  settled := by
    refine .inl ?_
    rw [Record.LastReply, Record.stop_turns]
    exact hrunning.lastReply
  closes := hreason
  ready := .inl hrunning.fresh
  onlyCut := by
    rw [Record.stop_troubles, hrunning.plain]
    rfl

theorem Running.leaving (hrunning : Running o st r)
    (hsent : pushes r.handed <+: messages o.committed) {st' : WsStream} {t : Troubles}
    {reason : CloseReason} {result : Except WsError Unit}
    (hagrees : reason.Agrees result t.closeFailed) (hhandshaken : Handshaken st' t reason) :
    Leaving o st' { r with troubles := t }.stop reason result where
  toOver := hrunning.toOpen.over_stop t hsent
  settled := by
    refine .inl ?_
    rw [Record.LastReply, Record.stop_turns]
    exact hrunning.lastReply
  agrees := by
    rw [Record.stop_troubles]
    exact hagrees
  handshaken := by
    rw [Record.stop_troubles]
    exact hhandshaken

theorem client_iff {t : Troubles} {reason : CloseReason} (hclient : t.clientClosed = false)
    (hreason : reason ≠ .clientClose) : t.clientClosed = true ↔ reason = .clientClose := by
  rw [hclient]
  exact iff_of_false Bool.false_ne_true hreason

theorem handshaken_of_not_orderly {t : Troubles} {reason : CloseReason}
    (hreason : ¬ reason.Orderly) (hclient : t.clientClosed = false) : Handshaken st t reason where
  client := client_iff hclient fun h => hreason (.inl h)
  flushed horderly := absurd horderly hreason

theorem not_orderly_failed (kind : FailureKind) : ¬ (CloseReason.failed kind).Orderly := by
  rintro (h | h | h | h | h | h) <;> cases h

theorem Flushing.flushed {ending : Option String} (hflushing : Flushing o st r ending)
    (hsent : Sent o r) (hsealed : o.sealed = true) (hqueue : o.queue = []) (ho : o.Ordered)
    {reason : CloseReason} {pending : Option (Option CloseFrame)}
    (hclose : ending = none →
      reason = .handlerClose ∨ reason = .cancelled ∨ ∃ kind, reason = .failed kind)
    (herror : ∀ error, ending = some error → reason = .failed .handler)
    (hnone : reason = .handlerClose →
      pending.elim (r.handed.getLast? = some (.close none)) (· = none)) :
    Flushed o r reason pending := by
  have hcommitted : o.committed = o.received := by
    rw [ho.queued hflushing.receiver, hqueue, List.append_nil]
  have hlast := hflushing.last
  refine ⟨hsealed, hcommitted ▸ hsent, ?_, fun _ => ⟨?_, ?_⟩, hnone⟩
  · intro i code text hmem
    rw [hcommitted] at hmem
    exact Bool.noConfusion (hflushing.noClose (i, .close code text) hmem)
  · intro hturn
    refine hclose ?_
    cases ending with
    | none => rfl
    | some error => exact nomatch hlast.symm.trans hturn
  · intro error hturn
    refine herror error ?_
    cases ending with
    | none => exact nomatch hlast.symm.trans hturn
    | some error' =>
      cases hlast.symm.trans hturn
      rfl

theorem Flushed.hand {reason : CloseReason} {frame : Option CloseFrame}
    (h : Flushed o r reason (some frame)) : Flushed o (r.hand (.close frame)) reason none where
  sealed := h.sealed
  all := by
    change pushes (r.handed ++ [.close frame]) = _
    rw [pushes_append, ← h.all]
    exact List.append_nil _
  byClose i code text hmem := by
    obtain ⟨hreason, hframe⟩ := h.byClose i code text hmem
    refine ⟨hreason, ?_⟩
    change (r.handed ++ [Handed.close frame]).getLast? = _
    rw [List.getLast?_concat, show frame = some ⟨code, text⟩ from hframe]
  byHandler := h.byHandler
  handlerClose hreason := by
    change (r.handed ++ [Handed.close frame]).getLast? = _
    rw [List.getLast?_concat, show frame = none from h.handlerClose hreason]

theorem Over.hand (h : Over o r) (frame : Option CloseFrame) : Over o (r.hand (.close frame)) where
  ordered := by
    refine List.pairwise_append.mpr ⟨h.ordered, List.pairwise_singleton _ _, ?_⟩
    intro a _ b hb _
    rw [List.mem_singleton.mp hb]
    rfl
  sent := by
    change pushes (r.handed ++ [.close frame]) <+: _
    rw [pushes_append]
    exact (List.append_nil (pushes r.handed)).symm ▸ h.sent
  idle := h.idle

theorem Settled.hand {reason : CloseReason} {frame : Option CloseFrame}
    (h : Settled o r reason (some frame)) : Settled o (r.hand (.close frame)) reason none :=
  h.imp id (·.imp id Flushed.hand)

theorem ClosingNone.settled {reason : CloseReason} {pending : Option (Option CloseFrame)}
    (h : ClosingNone o st r) (t : Troubles)
    (hreason : reason = .handlerClose ∧ pending = none ∨ reason = .cancelled ∨
      ∃ kind, reason = .failed kind) : Settled o { r with troubles := t }.stop reason pending := by
  refine .inr (.inr ⟨h.flushed.sealed, ?_, ?_, fun _ => ⟨fun _ => ?_, ?_⟩, fun hclose => ?_⟩)
  · rw [Record.stop_handed]
    exact h.flushed.all
  · intro i code text hmem
    exact Bool.noConfusion (h.noClose (i, .close code text) hmem)
  · exact hreason.imp_left And.left
  · intro error hturn
    rw [Record.stop_turns] at hturn
    exact nomatch h.last.symm.trans hturn
  · rcases hreason with ⟨-, rfl⟩ | rfl | ⟨kind, rfl⟩
    · rw [Record.stop_handed]
      exact h.flushed.handlerClose rfl
    · cases hclose
    · cases hclose

theorem Over.stop (h : Over o r) (t : Troubles) : Over o { r with troubles := t }.stop where
  ordered := by
    rw [Record.stop_handed]
    exact h.ordered
  sent := by
    rw [Record.stop_handed]
    exact h.sent
  idle := Record.stop_running _

theorem ClosingNone.leaving (h : ClosingNone o st r) {st' : WsStream} {t : Troubles}
    {reason : CloseReason} {result : Except WsError Unit}
    (hreason : reason = .handlerClose ∨ ∃ kind, reason = .failed kind)
    (hagrees : reason.Agrees result t.closeFailed) (hhandshaken : Handshaken st' t reason) :
    Leaving o st' { r with troubles := t }.stop reason result where
  toOver := h.toOver.stop t
  settled := h.settled t (hreason.imp (⟨·, rfl⟩) .inr)
  agrees := by
    rw [Record.stop_troubles]
    exact hagrees
  handshaken := by
    rw [Record.stop_troubles]
    exact hhandshaken

theorem Back.Fits.running {back : Back} (hback : back.Fits o st r)
    (hne : ∀ d e c, back ≠ .flush d e c) : Running o st r := by
  cases back with
  | flush d e c => exact absurd rfl (hne d e c)
  | _ => exact hback.1

def Sending.Flush (what : Sending) : Prop := ∃ i msg d e c, what = .push i msg (.flush d e c)

/-- A write of the loop, before it starts or under way. -/
theorem running_of_write {what : Sending} {phase : Phase}
    (hphase : phase = .sending what ∨ phase = .inFlight what) (h : phase.Fits o st r)
    (hwhat : ¬ what.Flush) (ho : o.Ordered) :
    Running o st r ∧ pushes r.handed <+: messages o.committed := by
  cases what with
  | ping => rcases hphase with rfl | rfl <;> exact ⟨h.1.1, h.2.initial ho⟩
  | push i msg back =>
    have hback : ∀ d e c, back ≠ .flush d e c := fun d e c heq =>
      hwhat ⟨i, msg, d, e, c, by rw [heq]⟩
    rcases hphase with rfl | rfl <;> exact ⟨h.1.running hback, h.2.initial ho⟩
  | reply => rcases hphase with rfl | rfl <;> exact ⟨h.1.toRunning, h.2.initial ho⟩

theorem CloseReason.Closes.agrees {reason : CloseReason} (h : reason.Closes)
    {result : Except WsError Unit} {closeFailed : Bool}
    (hresult : result = .ok () ∨ closeFailed = true) : reason.Agrees result closeFailed := by
  rcases h with rfl | rfl | rfl | rfl <;> exact hresult

theorem CloseReason.Closes.ne_clientClose {reason : CloseReason} (h : reason.Closes) :
    reason ≠ .clientClose := by
  rcases h with rfl | rfl | rfl | rfl <;> exact CloseReason.noConfusion

theorem Draining.client {reason : CloseReason} (h : Draining o st r reason) :
    r.troubles.clientClosed = false := by
  rw [h.failed]

theorem Draining.leaving {reason : CloseReason} (h : Draining o st r reason) {st' : WsStream}
    {t : Troubles} {result : Except WsError Unit} (hcut : t.cut = r.troubles.cut)
    (hclient : t.clientClosed = false) (hresult : result = .ok () ∨ t.closeFailed = true)
    (hflushed : t.expired = false → t.writeFailed = false → st'.flushed = 1) :
    Leaving o st' { r with troubles := t } reason result where
  ordered := h.ordered
  sent := h.sent
  idle := h.idle
  settled := by
    rcases h.settled with hlast | hbefore | hflushed
    · exact .inl hlast
    · exact .inr (.inl (hcut.trans hbefore))
    · obtain ⟨hsealed, hall, hbyClose, hbyHandler, hclose⟩ := hflushed
      exact .inr (.inr ⟨hsealed, hall, hbyClose, hbyHandler, hclose⟩)
  agrees := h.closes.agrees hresult
  handshaken :=
    { client := by
        rw [hclient]
        exact ⟨(fun h => nomatch h), fun heq => absurd heq h.closes.ne_clientClose⟩
      flushed := fun _ hexpired hwrite _ => by
        rw [if_neg h.closes.ne_clientClose]
        exact hflushed hexpired hwrite }

theorem Record.not_reply_of_block {k : ℕ} {handed : List Handed} {turns : List HandlerResult}
    (h : Block handed turns k) (hk : turns.length ≤ k) (msg : WsMessage) : .reply k msg ∉ handed := by
  obtain ⟨before, sent, after, rfl, hbefore, hafter, hsent⟩ := h
  have hnil : sent = [] := by
    rcases hsent with hnil | ⟨msgs, hturn, -⟩
    · exact hnil
    · rw [List.getElem?_eq_none hk] at hturn
      cases hturn
  rw [hnil, List.map_nil, List.append_nil, List.mem_append]
  exact fun hmem => hmem.elim (hbefore msg) (hafter msg)

end Exits

end FandheBackend.WsSession
