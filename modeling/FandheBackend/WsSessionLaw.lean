import FandheBackend.WsSessionPhases

set_option autoImplicit false

namespace FandheBackend.WsSession
open ActionRuns WsSender

structure Base (config : Config) (o : Outbound) (r : Record) : Prop where
  outbound : o.Invariant (max config.outboundCapacity 1)
  blocks : r.Blocks
  log : r.LogFits

structure Session.Invariant (config : Config) (s : Session) : Prop where
  base : Base config s.outbound s.record
  fits : s.phase.Fits s.outbound s.stream s.record

section
variable {latest : ℕ} {config : Config} {s s' : Session}

theorem Block.turns {handed : List Handed} {turns : List HandlerResult} {k : ℕ}
    (h : Block handed turns k) (result : HandlerResult) : Block handed (turns ++ [result]) k := by
  obtain ⟨before, sent, after, heq, hbefore, hafter, hsent⟩ := h
  refine ⟨before, sent, after, heq, hbefore, hafter, hsent.imp_right ?_⟩
  rintro ⟨msgs, hturn, hgrown⟩
  have hk : k < turns.length := (List.getElem?_eq_some_iff.mp hturn).1
  exact ⟨msgs, by rw [List.getElem?_append_left hk, hturn], hgrown⟩

theorem Block.hand {handed : List Handed} {turns : List HandlerResult} {k : ℕ}
    (h : Block handed turns k) {frame : Handed} (hframe : ∀ msg, frame ≠ .reply k msg) :
    Block (handed ++ [frame]) turns k := by
  obtain ⟨before, sent, after, heq, hbefore, hafter, hsent⟩ := h
  refine ⟨before, sent, after ++ [frame], by rw [heq, List.append_assoc], hbefore, ?_, hsent⟩
  intro msg hmem
  rcases List.mem_append.mp hmem with hmem | hmem
  · exact hafter msg hmem
  · exact hframe msg (List.mem_singleton.mp hmem).symm

theorem Base.hand {o : Outbound} {r : Record} (hs : Base config o r) {frame : Handed}
    (hframe : ∀ k msg, frame ≠ .reply k msg) : Base config o (r.hand frame) :=
  ⟨hs.outbound, fun k => (hs.blocks k).hand (hframe k), hs.log⟩

theorem Base.troubles {o : Outbound} {r : Record} (hs : Base config o r) (t : Troubles) :
    Base config o { r with troubles := t } :=
  ⟨hs.outbound, hs.blocks, hs.log⟩

theorem Base.stop {o : Outbound} {r : Record} (hs : Base config o r) : Base config o r.stop where
  outbound := hs.outbound
  blocks k := by
    rw [Record.stop_handed, Record.stop_turns]
    exact hs.blocks k
  log := hs.log.stop

theorem invariant_quit (s : Session) (next : Next) (hs : Base config s.outbound s.record)
    (hreceiver : s.outbound.receiver ≠ .dropped)
    (hnext : next.Fits s.outbound s.stream s.record.stop) : (s.quit next).Invariant config where
  base := hs.stop
  fits := ⟨fun h => absurd rfl h, (fun h => nomatch h), hreceiver, hnext⟩

theorem Running.receiver {o : Outbound} {st : WsStream} {r : Record} (h : Running o st r) :
    o.receiver ≠ .dropped := by
  rw [h.attached]
  exact ReceiverState.noConfusion

theorem invariant_processed (hs : Base config s.outbound s.record)
    (hloop : Back.loop.Fits s.outbound s.stream s.record) (hsent : Sent s.outbound s.record) :
    (s.processed latest config).Invariant config := by
  have hunwind : (s.quit .unwind).Invariant config :=
    invariant_quit s _ hs hloop.1.receiver
      (hloop.1.toOpen.over_stop s.record.troubles (hsent.initial hs.outbound.ordered))
  rw [Session.processed]
  split
  · exact ⟨hs, hloop, hsent⟩
  · split
    · exact ⟨hs, hloop, hsent⟩
    · exact hunwind

theorem invariant_startReply (hs : Base config s.outbound s.record) {rest : List WsMessage}
    (hreplying : Replying s.outbound s.stream s.record rest) (hsent : Sent s.outbound s.record) :
    (s.startReply latest config rest).Invariant config := by
  cases rest with
  | nil => exact invariant_processed hs ⟨hreplying.toRunning, hreplying.idle⟩ hsent
  | cons msg rest => exact ⟨hs, hreplying, hsent⟩

def taken (o : Outbound) (x : ℕ × OutboundItem) (rest : List (ℕ × OutboundItem)) : Outbound :=
  { o with queue := rest, free := o.free + 1, received := o.received ++ [x] }

theorem taken_invariant {o : Outbound} {capacity : ℕ} (ho : o.Invariant capacity)
    {x : ℕ × OutboundItem} {rest : List (ℕ × OutboundItem)} (hqueue : o.queue = x :: rest) :
    (taken o x rest).Invariant capacity := by
  refine invariant_step (a := .recv) ho ?_
  simp [Outbound.step, Outbound.recv, hqueue, taken]

theorem Running.taken {o : Outbound} {st : WsStream} {r : Record} (h : Running o st r) {i : ℕ}
    (msg : WsMessage) (rest : List (ℕ × OutboundItem)) :
    Running (taken o (i, .message msg) rest) st r where
  noClose x hx := by
    rcases List.mem_append.mp hx with hx | hx
    · exact h.noClose x hx
    · rw [List.mem_singleton.mp hx]
      rfl
  fresh := h.fresh
  plain := h.plain
  silent := h.silent
  attached := h.attached
  unsealed := h.unsealed
  lastReply := h.lastReply

theorem Sent.owing {o : Outbound} {r : Record} (h : Sent o r) (i : ℕ) (msg : WsMessage)
    (rest : List (ℕ × OutboundItem)) : Owing (WsSession.taken o (i, .message msg) rest) r i msg := by
  change messages (o.received ++ [(i, .message msg)]) = _
  rw [messages_append, ← h]
  rfl

theorem invariant_take (hs : Base config s.outbound s.record)
    (hrunning : Running s.outbound s.stream s.record) (hsent : Sent s.outbound s.record)
    {back : Back} (hback : ∀ d e c, back ≠ .flush d e c)
    (hmessage : ∀ i msg rest, s.outbound.queue = (i, .message msg) :: rest →
      back.Fits (taken s.outbound (i, .message msg) rest) s.stream s.record)
    (h : s.take latest config back = some s') : s'.Invariant config := by
  cases hqueue : s.outbound.queue with
  | nil => simp [Session.take, hqueue] at h
  | cons x rest =>
    obtain ⟨i, item⟩ := x
    have hbase : Base config (taken s.outbound (i, item) rest) s.record :=
      ⟨taken_invariant hs.outbound hqueue, hs.blocks, hs.log⟩
    cases item with
    | message msg =>
      have hs' : s' = { s with
          outbound := taken s.outbound (i, .message msg) rest
          phase := .sending (.push i msg back) } := by
        simpa [Session.take, Outbound.recv, hqueue, taken] using h.symm
      subst hs'
      exact ⟨hbase, hmessage i msg rest hqueue, hsent.owing i msg rest⟩
    | close code text =>
      have hs' : s' = { s with outbound := taken s.outbound (i, .close code text) rest }.senderClose
          latest config code text := by
        cases back with
        | flush d e c => exact absurd rfl (hback d e c)
        | _ => simpa [Session.take, Outbound.recv, hqueue, taken] using h.symm
      have hgrown : pushes s.record.handed <+:
          messages (taken s.outbound (i, .close code text) rest).committed :=
        hsent.initial hs.outbound.ordered
      rw [hs', Session.senderClose]
      split
      · exact invariant_quit { s with outbound := taken s.outbound (i, .close code text) rest } _
          hbase hrunning.receiver (hrunning.closing hgrown (.inl rfl) _)
      · exact invariant_quit { s with outbound := taken s.outbound (i, .close code text) rest } _
          hbase hrunning.receiver (hrunning.toOpen.over_stop s.record.troubles hgrown)

theorem queue_of_close {o : Outbound} (ho : o.Ordered) {x : ℕ × OutboundItem}
    {rest : List (ℕ × OutboundItem)} (hqueue : o.queue = x :: rest) (hx : x.2.isClose = true) :
    rest = [] := by
  cases rest with
  | nil => rfl
  | cons y rest =>
    have hfalse := ho.queue_dropLast x (by rw [hqueue]; exact List.mem_cons_self)
    rw [hx] at hfalse
    cases hfalse

theorem Flushing.closing {o : Outbound} {st : WsStream} {r : Record} {ending : Option String}
    (h : Flushing o st r ending) (hsent : Sent o r) (hsealed : o.sealed = true) (ho : o.Ordered)
    {i : ℕ} {code : UInt16} {text : String} {rest : List (ℕ × OutboundItem)}
    (hqueue : o.queue = (i, .close code text) :: rest) :
    Closing (taken o (i, .close code text) rest) st r .senderClose (some ⟨code, text⟩) := by
  have hcommitted : o.committed = o.received ++ [(i, .close code text)] := by
    rw [ho.queued h.receiver, hqueue, queue_of_close ho hqueue rfl]
  have hclose : (i, OutboundItem.close code text) ∈ o.committed := by
    rw [hcommitted]
    exact List.mem_append_right _ List.mem_cons_self
  refine ⟨⟨pairwise_of_silent h.silent, hsent.initial ho, h.idle⟩, .inr (.inr ?_), .inl rfl,
    .inl h.fresh, ?_⟩
  · refine ⟨hsealed, ?_, ?_, fun hnone => ?_, (fun hreason => nomatch hreason)⟩
    · change pushes r.handed = messages o.committed
      rw [hcommitted, messages_append, hsent]
      exact (List.append_nil _).symm
    · intro j code' text' hmem
      replace hmem : (j, OutboundItem.close code' text') ∈ o.committed := hmem
      rw [hcommitted, List.mem_append, List.mem_singleton] at hmem
      rcases hmem with hmem | hmem
      · exact Bool.noConfusion (h.noClose (j, .close code' text') hmem)
      · cases hmem
        exact ⟨rfl, rfl⟩
    · exact Bool.noConfusion (hnone (i, .close code text) hclose)
  · rw [h.plain]
    rfl

theorem invariant_take_flush (hs : Base config s.outbound s.record) {deadline closeDeadline : ℕ}
    {ending : Option String} (hflushing : Flushing s.outbound s.stream s.record ending)
    (hsealed : s.outbound.sealed = true) (hsent : Sent s.outbound s.record)
    (h : s.take latest config (.flush deadline ending closeDeadline) = some s') :
    s'.Invariant config := by
  cases hqueue : s.outbound.queue with
  | nil => simp [Session.take, hqueue] at h
  | cons x rest =>
    obtain ⟨i, item⟩ := x
    have hbase : Base config (taken s.outbound (i, item) rest) s.record :=
      ⟨taken_invariant hs.outbound hqueue, hs.blocks, hs.log⟩
    cases item with
    | message msg =>
      have hs' : s' = { s with
          outbound := taken s.outbound (i, .message msg) rest
          phase := .sending (.push i msg (.flush deadline ending closeDeadline)) } := by
        simpa [Session.take, Outbound.recv, hqueue, taken] using h.symm
      subst hs'
      refine ⟨hbase, ⟨⟨⟨?_, hflushing.fresh, hflushing.plain, hflushing.silent⟩,
        hflushing.receiver, hflushing.last, hflushing.idle⟩, hsealed⟩, hsent.owing i msg rest⟩
      intro x hx
      rcases List.mem_append.mp hx with hx | hx
      · exact hflushing.noClose x hx
      · rw [List.mem_singleton.mp hx]
        rfl
    | close code text =>
      have hs' : s' = { s with outbound := taken s.outbound (i, .close code text) rest }.quit
          (.close .senderClose (some ⟨code, text⟩) (some deadline)) := by
        simpa [Session.take, Outbound.recv, hqueue, taken] using h.symm
      rw [hs']
      refine invariant_quit { s with outbound := taken s.outbound (i, .close code text) rest } _
        hbase hflushing.receiver ?_
      rw [Record.stop_of_idle hflushing.idle]
      exact hflushing.closing hsent hsealed hs.outbound.ordered hqueue

theorem Open.hand {o : Outbound} {st : WsStream} {r : Record} (h : Open o st r) {frame : Handed}
    (hframe : frame.isClose = false) : Open o st (r.hand frame) where
  noClose := h.noClose
  fresh := h.fresh
  plain := h.plain
  silent f hf := by
    rcases List.mem_append.mp hf with hf | hf
    · exact h.silent f hf
    · exact List.mem_singleton.mp hf ▸ hframe

theorem Running.hand {o : Outbound} {st : WsStream} {r : Record} (h : Running o st r)
    {frame : Handed} (hframe : frame.isClose = false) : Running o st (r.hand frame) :=
  { h.toOpen.hand hframe with
    attached := h.attached, unsealed := h.unsealed, lastReply := h.lastReply }

theorem Back.Fits.hand {o : Outbound} {st : WsStream} {r : Record} {back : Back}
    (h : back.Fits o st r) (i : ℕ) (msg : WsMessage) : back.Fits o st (r.hand (.push i msg)) := by
  cases back with
  | loop | handler => exact ⟨h.1.hand rfl, h.2⟩
  | beforeReply left reply =>
    obtain ⟨hrunning, hidle, ⟨hlast, hnone⟩, hmark, hleft⟩ := h
    refine ⟨hrunning.hand rfl, hidle, ⟨hlast, fun msg' hmem => ?_⟩, hmark, hleft⟩
    rcases List.mem_append.mp hmem with hmem | hmem
    · exact hnone msg' hmem
    · exact nomatch List.mem_singleton.mp hmem
  | toClose reply => exact ⟨h.1.hand rfl, h.2⟩
  | flush deadline ending closeDeadline =>
    exact ⟨{ h.1.toOpen.hand rfl with
      receiver := h.1.receiver, last := h.1.last, idle := h.1.idle }, h.2⟩

theorem Record.Answering.hand {r : Record} {msg : WsMessage} {rest : List WsMessage}
    (h : r.Answering (msg :: rest)) :
    (r.hand (.reply (r.turns.length - 1) msg)).Answering rest ∧
      Block (r.handed ++ [.reply (r.turns.length - 1) msg]) r.turns (r.turns.length - 1) := by
  obtain ⟨before, sent, hlast, hhanded, hbefore⟩ := h
  have heq : r.handed ++ [.reply (r.turns.length - 1) msg] =
      before ++ (sent ++ [msg]).map (.reply (r.turns.length - 1)) := by
    rw [hhanded, List.map_append, List.append_assoc]
    rfl
  have hmsgs : sent ++ msg :: rest = sent ++ [msg] ++ rest := by
    rw [List.append_assoc, List.singleton_append]
  rw [hmsgs] at hlast
  refine ⟨⟨before, sent ++ [msg], hlast, heq, hbefore⟩, before, sent ++ [msg], [], ?_, hbefore,
    fun _ => List.not_mem_nil, .inr ⟨_, ?_, List.prefix_append _ rest⟩⟩
  · rw [heq, List.append_nil]
  · rw [← hlast, List.getLast?_eq_getElem?]

theorem invariant_startSend (hs : s.Invariant config) {what : Sending}
    (hphase : s.phase = .sending what) : (s.startSend what).Invariant config := by
  obtain ⟨hbase, hfits⟩ := hs
  rw [hphase] at hfits
  cases what with
  | ping payload =>
    refine ⟨hbase.hand (fun _ _ h => nomatch h), ⟨hfits.1.1.hand rfl, hfits.1.2⟩, ?_⟩
    change pushes (s.record.handed ++ [.ping payload]) = _
    rw [pushes_append, hfits.2]
    exact List.append_nil _
  | push i msg back =>
    refine ⟨hbase.hand (fun _ _ h => nomatch h), hfits.1.hand i msg, ?_⟩
    change pushes (s.record.handed ++ [.push i msg]) = _
    rw [pushes_append]
    exact hfits.2.symm
  | reply msg rest =>
    obtain ⟨hreplying, hsent⟩ := hfits
    obtain ⟨hanswering, hblock⟩ := hreplying.answering.hand
    refine ⟨⟨hbase.outbound, fun k => ?_, hbase.log⟩, ⟨hreplying.toRunning.hand rfl,
      hreplying.idle, hanswering, hreplying.marked, hreplying.decided⟩, ?_⟩
    · by_cases hk : k = s.record.turns.length - 1
      · exact hk ▸ hblock
      · exact (hbase.blocks k).hand fun msg' heq => hk (by cases heq; rfl)
    · change pushes (s.record.handed ++ [.reply (s.record.turns.length - 1) msg]) = _
      rw [pushes_append, hsent]
      exact List.append_nil _

theorem Back.phase_fits {o : Outbound} {st : WsStream} {r : Record} {back : Back}
    (hback : back.Fits o st r) (hsent : Sent o r) : back.phase.Fits o st r := by
  cases back <;> exact ⟨hback, hsent⟩

theorem invariant_sent (hs : s.Invariant config) {what : Sending}
    (hphase : s.phase = .inFlight what) : (s.sent latest config what).Invariant config := by
  obtain ⟨hbase, hfits⟩ := hs
  rw [hphase] at hfits
  cases what with
  | ping => exact ⟨hbase, hfits⟩
  | push i msg back => exact ⟨hbase, Back.phase_fits hfits.1 hfits.2⟩
  | reply msg rest => exact invariant_startReply hbase hfits.1 hfits.2

/-- What a step of the seal leaves as it is. -/
theorem Next.Fits.kept {o o' : Outbound} {st : WsStream} {r : Record} {next : Next}
    (h : next.Fits o st r) (hreceived : o'.received = o.received)
    (hcommitted : o'.committed = o.committed) (hsealed : o'.sealed = true)
    (hflush : (∃ d e c, next = .flush d e c) → o'.receiver ≠ .dropped) : next.Fits o' st r := by
  have hover : Over o r → Over o' r := fun hover => { hover with sent := hcommitted ▸ hover.sent }
  have hsettled : ∀ reason pending, Settled o r reason pending → Settled o' r reason pending := by
    intro reason pending hsettled
    refine hsettled.imp_right (·.imp_right fun hflushed => ?_)
    obtain ⟨-, hall, hbyClose, hbyHandler, hclose⟩ := hflushed
    exact ⟨hsealed, hcommitted ▸ hall, hcommitted ▸ hbyClose, hcommitted ▸ hbyHandler, hclose⟩
  cases next with
  | flush d e c =>
    obtain ⟨hflushing, hsent⟩ := h
    refine ⟨⟨⟨hreceived ▸ hflushing.noClose, hflushing.fresh, hflushing.plain, hflushing.silent⟩,
      hflush ⟨d, e, c, rfl⟩, hflushing.last, hflushing.idle⟩, ?_⟩
    rw [Sent, hreceived]
    exact hsent
  | close =>
    have hclosing : Closing o st r _ _ := h
    exact { hclosing with toOver := hover hclosing.toOver, settled := hsettled _ _ hclosing.settled }
  | tooBig => exact ⟨hover h.1, h.2⟩
  | leave =>
    have hleaving : Leaving o st r _ _ := h
    exact { hleaving with toOver := hover hleaving.toOver, settled := hsettled _ _ hleaving.settled }
  | unwind => exact hover h

theorem invariant_enter (hs : Base config s.outbound s.record) (hshut : Shut s.outbound)
    {next : Next} (hflush : ∀ d e c, next ≠ .flush d e c)
    (hnext : next.Fits s.outbound s.stream s.record) :
    (s.enter latest config next).Invariant config := by
  cases next with
  | flush d e c => exact absurd rfl (hflush d e c)
  | close reason frame deadline =>
    have hclosing : Closing s.outbound s.stream s.record reason frame := hnext
    cases deadline with
    | some deadline => exact ⟨hs, hclosing, hshut⟩
    | none =>
      rw [Session.enter]
      split
      · exact ⟨hs, hclosing, hshut⟩
      · exact ⟨hs, hclosing.toOver⟩
  | tooBig => exact ⟨hs, hnext.1, hnext.2.1, hnext.2.2, hshut⟩
  | leave => exact ⟨hs, hnext, hshut⟩
  | unwind => exact ⟨hs, hnext⟩

theorem invariant_sealStep (hs : s.Invariant config) {stage : SealStage} {next : Next}
    (hphase : s.phase = .sealing stage next)
    (h : s.sealStep latest config next stage = some s') : s'.Invariant config := by
  obtain ⟨hbase, hfits⟩ := hs
  rw [hphase] at hfits
  obtain ⟨hsealed, hsignal, hreceiver, hnext⟩ := hfits
  have houtbound : ∀ {a o}, s.outbound.step a = some o → Base config o s.record := fun ho =>
    ⟨invariant_step hbase.outbound ho, hbase.blocks, hbase.log⟩
  cases stage with
  | closing =>
    rw [Session.sealStep] at h
    obtain ⟨o, ho, rfl⟩ := Option.map_eq_some_iff.mp h
    have hbase' := houtbound ho
    cases ho
    exact ⟨hbase', fun _ => rfl, (fun h => nomatch h), hreceiver,
      hnext.kept rfl rfl rfl fun _ => hreceiver⟩
  | announce =>
    rw [Session.sealStep] at h
    obtain ⟨o, ho, rfl⟩ := Option.map_eq_some_iff.mp h
    have hbase' := houtbound ho
    obtain ⟨htrue, ⟨⟩⟩ := Option.ite_none_right_eq_some.mp ho
    exact ⟨hbase', fun _ => htrue, fun _ => rfl, hreceiver,
      hnext.kept rfl rfl htrue fun _ => hreceiver⟩
  | receiver =>
    have htrue : s.outbound.sealed = true := hsealed SealStage.noConfusion
    by_cases hflush : ∃ d e c, next = .flush d e c
    · obtain ⟨d, e, c, rfl⟩ := hflush
      obtain ⟨o, ho, rfl⟩ := Option.map_eq_some_iff.mp h
      have hbase' := houtbound ho
      obtain ⟨-, ⟨⟩⟩ := Option.ite_none_right_eq_some.mp ho
      have hkept : (Next.flush d e c).Fits { s.outbound with receiver := .closed } s.stream
          s.record := hnext.kept rfl rfl htrue fun _ => ReceiverState.noConfusion
      exact ⟨hbase', ⟨hkept.1, htrue⟩, hkept.2⟩
    · have hstep : (s.outbound.step .dropReceiver).map
          (fun o => { s with outbound := o }.enter latest config next) = some s' := by
        cases next with
        | flush d e c => exact absurd ⟨d, e, c, rfl⟩ hflush
        | _ => exact h
      obtain ⟨o, ho, rfl⟩ := Option.map_eq_some_iff.mp hstep
      have hbase' := houtbound ho
      obtain ⟨-, ⟨⟩⟩ := Option.ite_none_right_eq_some.mp ho
      refine invariant_enter (s := { s with outbound := _ }) hbase' ⟨htrue, hsignal rfl, rfl⟩
        (fun d e c heq => hflush ⟨d, e, c, heq⟩) ?_
      exact hnext.kept rfl rfl htrue fun hex => absurd hex hflush

theorem Flushing.cut_closing {o : Outbound} {st : WsStream} {r : Record} {ending : Option String}
    (h : Flushing o st r ending) (hsent : pushes r.handed <+: messages o.committed)
    {t : Troubles} (ht : t = { cut := true }) {reason : CloseReason} (hreason : reason.Closes)
    (frame : Option CloseFrame) : Closing o st { r with troubles := t }.stop reason frame where
  toOver := h.toOpen.over_stop t hsent
  settled := by
    refine .inr (.inl ?_)
    rw [Record.stop_troubles]
    exact congrArg Troubles.cut ht
  closes := hreason
  ready := .inl h.fresh
  onlyCut := by
    rw [Record.stop_troubles]
    exact ht ▸ rfl

theorem Flushing.cut_leaving {o : Outbound} {st : WsStream} {r : Record} {ending : Option String}
    (h : Flushing o st r ending) (hsent : pushes r.handed <+: messages o.committed)
    {t : Troubles} (ht : t.cut = true) {reason : CloseReason} {result : Except WsError Unit}
    (hagrees : reason.Agrees result t.closeFailed) (hhandshaken : Handshaken st t reason) :
    Leaving o st { r with troubles := t }.stop reason result where
  toOver := h.toOpen.over_stop t hsent
  settled := by
    refine .inr (.inl ?_)
    rw [Record.stop_troubles]
    exact ht
  agrees := by
    rw [Record.stop_troubles]
    exact hagrees
  handshaken := by
    rw [Record.stop_troubles]
    exact hhandshaken

theorem queue_of_take_none {back : Back} (h : s.take latest config back = none) :
    s.outbound.queue = [] := by
  cases hqueue : s.outbound.queue with
  | nil => rfl
  | cons x rest =>
    obtain ⟨i, item⟩ := x
    cases item <;> cases back <;> simp [Session.take, Outbound.recv, hqueue] at h

theorem invariant_drainBeforeReply (hbase : Base config s.outbound s.record) {left : ℕ}
    {reply : List WsMessage}
    (hback : (Back.beforeReply (left + 1) reply).Fits s.outbound s.stream s.record)
    (hsent : Sent s.outbound s.record) :
    ((s.take latest config (.beforeReply left reply)).getD
      { s with phase := .decide reply }).Invariant config := by
  obtain ⟨hrunning, hidle, hun, hmark, hleft⟩ := hback
  cases htake : s.take latest config (.beforeReply left reply) with
  | none =>
    -- the queue is empty, so that nothing marked is left in it
    have hlength := hmark.length_le
    rw [hbase.outbound.ordered.queued hrunning.receiver, queue_of_take_none htake,
      List.append_nil] at hlength
    exact ⟨hbase, ⟨hrunning, hidle, hun, hmark, hlength⟩, hsent⟩
  | some s' =>
    refine invariant_take hbase hrunning hsent ?_ ?_ htake
    · exact fun _ _ _ h => nomatch h
    · intro i msg rest _
      refine ⟨hrunning.taken msg rest, hidle, hun, hmark, ?_⟩
      change _ ≤ (s.outbound.received ++ [(i, OutboundItem.message msg)]).length + left
      rw [List.length_append, List.length_singleton]
      omega

/-- Without a seal, the queue is closing exactly when a Close was committed. -/
theorem closing_iff_of_unsealed {o : Outbound} (ho : o.Ordered) (h : o.sealed = false) :
    o.closing = o.committed.any (·.2.isClose) := by
  rw [Bool.eq_iff_iff, ho.closing, h, List.any_eq_true]
  simp

theorem invariant_decide (hbase : Base config s.outbound s.record) {reply : List WsMessage}
    (hback : (Back.beforeReply 0 reply).Fits s.outbound s.stream s.record)
    (hsent : Sent s.outbound s.record) (hphase : s.phase = .decide reply)
    (h : s.go latest config = some s') : s'.Invariant config := by
  obtain ⟨hrunning, hidle, ⟨hlast, hnone⟩, hmark, hleft⟩ := hback
  have ho := hbase.outbound.ordered
  simp only [Session.go, hphase] at h
  split at h
  · cases h
    exact invariant_quit s _ hbase hrunning.receiver
      (hrunning.toOpen.over_stop s.record.troubles (hsent.initial ho))
  · have hrunning' : ∀ d, Running s.outbound s.stream { s.record with decided := d } := fun _ =>
      ⟨⟨hrunning.noClose, hrunning.fresh, hrunning.plain, hrunning.silent⟩, hrunning.attached,
        hrunning.unsealed, hrunning.lastReply⟩
    have hbase' : ∀ d, Base config s.outbound { s.record with decided := d } := fun _ =>
      ⟨hbase.outbound, hbase.blocks, hbase.log⟩
    split_ifs at h with hclosing
    · cases h
      refine ⟨hbase' _, ⟨hrunning' _, hidle, ?_⟩, hsent⟩
      rw [closing_iff_of_unsealed ho hrunning.unsealed, List.any_eq_true] at hclosing
      obtain ⟨x, hx, hclose⟩ := hclosing
      rw [ho.queued hrunning.receiver, List.mem_append] at hx
      rcases hx with hx | hx
      · exact Bool.noConfusion ((hrunning.noClose x hx).symm.trans hclose)
      · exact ⟨x, hx, hclose⟩
    · cases h
      rw [closing_iff_of_unsealed ho hrunning.unsealed, Bool.not_eq_true] at hclosing
      set r := { s.record with decided := some (s.outbound.committed.any (·.2.isClose)) }
      have hreplying : Replying s.outbound s.stream r reply :=
        { hrunning' _ with
          idle := hidle
          answering := ⟨s.record.handed, [], hlast, (List.append_nil _).symm, hnone⟩
          marked := List.prefix_of_prefix_length_le hmark ho.received hleft
          decided := congrArg some hclosing }
      exact invariant_startReply (s := { s with record := r }) (hbase' _) hreplying hsent

theorem invariant_drainToClose (hbase : Base config s.outbound s.record) {reply : List WsMessage}
    (hback : (Back.toClose reply).Fits s.outbound s.stream s.record)
    (hsent : Sent s.outbound s.record) :
    ((s.take latest config (.toClose reply)).getD
      (s.startReply latest config reply)).Invariant config := by
  obtain ⟨hrunning, hidle, x, hx, hclose⟩ := hback
  cases htake : s.take latest config (.toClose reply) with
  | none =>
    rw [queue_of_take_none htake] at hx
    cases hx
  | some s' =>
    refine invariant_take hbase hrunning hsent ?_ ?_ htake
    · exact fun _ _ _ h => nomatch h
    · intro i msg rest hqueue
      refine ⟨hrunning.taken msg rest, hidle, x, ?_, hclose⟩
      rw [hqueue, List.mem_cons] at hx
      rcases hx with hx | hx
      · rw [hx] at hclose
        cases hclose
      · exact hx

theorem invariant_flushing (hbase : Base config s.outbound s.record) {deadline closeDeadline : ℕ}
    {ending : Option String} (hflushing : Flushing s.outbound s.stream s.record ending)
    (hsealed : s.outbound.sealed = true) (hsent : Sent s.outbound s.record)
    (hphase : s.phase = .flushing deadline ending closeDeadline)
    (h : s.go latest config = some s') : s'.Invariant config := by
  have ho := hbase.outbound.ordered
  simp only [Session.go, hphase, Option.some.injEq] at h
  cases htake : s.take latest config (.flush deadline ending closeDeadline) with
  | some t =>
    rw [htake, Option.getD_some] at h
    exact h ▸ invariant_take_flush hbase hflushing hsealed hsent htake
  | none =>
    have hqueue := queue_of_take_none htake
    rw [htake, Option.getD_none] at h
    subst h
    cases ending with
    | none => exact ⟨hbase, hflushing, hsent, hsealed, hqueue⟩
    | some error =>
      refine invariant_quit s _ hbase hflushing.receiver ?_
      rw [Record.stop_of_idle hflushing.idle]
      refine ⟨⟨pairwise_of_silent hflushing.silent, hsent.initial ho, hflushing.idle⟩,
        .inr (.inr ?_), ⟨_, rfl⟩, handshaken_of_not_orderly (not_orderly_failed _) ?_⟩
      · exact hflushing.flushed hsent hsealed hqueue ho (fun h => nomatch h) (fun _ _ => rfl)
          (fun h => nomatch h)
      · rw [hflushing.plain]

theorem Closing.draining {o : Outbound} {st : WsStream} {r : Record} {reason : CloseReason}
    {frame : Option CloseFrame} (h : Closing o st r reason frame) :
    Draining o st.queueClose (r.hand (.close frame)) reason ∧ st.queueClose = ⟨false, true, 0⟩ := by
  have hqueued : st.queueClose = ⟨false, true, 0⟩ := by rcases h.ready with rfl | rfl <;> rfl
  refine ⟨⟨h.toOver.hand frame, h.settled.hand, h.closes, ?_, fun _ => .inl hqueued⟩, hqueued⟩
  change r.troubles = { cut := r.troubles.cut, writeFailed := r.troubles.writeFailed }
  rw [h.onlyCut]

theorem invariant_go (hs : s.Invariant config) (h : s.go latest config = some s') :
    s'.Invariant config := by
  obtain ⟨hbase, hfits⟩ := hs
  cases hphase : s.phase with
  | opening =>
    rw [hphase] at hfits
    simp only [Session.go, hphase, Option.some.injEq] at h
    subst h
    exact invariant_processed hbase hfits.1 hfits.2
  | top =>
    rw [hphase] at hfits
    simp only [Session.go, hphase, Option.some.injEq] at h
    rw [← h, Session.atTop]
    split
    · split <;> exact ⟨hbase, hfits⟩
    · exact ⟨hbase, hfits⟩
  | sending what =>
    simp only [Session.go, hphase, Option.some.injEq] at h
    exact h ▸ invariant_startSend ⟨hbase, hfits⟩ hphase
  | drainBeforeReply left reply =>
    rw [hphase] at hfits
    cases left with
    | zero =>
      simp only [Session.go, hphase, Option.some.injEq] at h
      exact h ▸ ⟨hbase, hfits⟩
    | succ left =>
      simp only [Session.go, hphase, Option.some.injEq] at h
      exact h ▸ invariant_drainBeforeReply hbase hfits.1 hfits.2
  | decide reply =>
    rw [hphase] at hfits
    exact invariant_decide hbase hfits.1 hfits.2 hphase h
  | drainToClose reply =>
    rw [hphase] at hfits
    simp only [Session.go, hphase, Option.some.injEq] at h
    exact h ▸ invariant_drainToClose hbase hfits.1 hfits.2
  | sealing stage next =>
    simp only [Session.go, hphase] at h
    exact invariant_sealStep ⟨hbase, hfits⟩ hphase h
  | flushing deadline ending closeDeadline =>
    rw [hphase] at hfits
    exact invariant_flushing hbase hfits.1.1 hfits.1.2 hfits.2 hphase h
  | closeNone polled deadline =>
    rw [hphase] at hfits
    cases polled with
    | false =>
      obtain ⟨hflushing, hsent, hsealed, hqueue⟩ := hfits
      have ho := hbase.outbound.ordered
      have hover : Over s.outbound s.record :=
        ⟨pairwise_of_silent hflushing.silent, hsent.initial ho, hflushing.idle⟩
      have hflushed : Flushed s.outbound s.record .handlerClose (some none) :=
        hflushing.flushed hsent hsealed hqueue ho (fun _ => .inl rfl) (fun _ h => nomatch h)
          fun _ => rfl
      simp only [Session.go, hphase, Option.some.injEq] at h
      subst h
      refine ⟨hbase.hand (fun _ _ h => nomatch h),
        ⟨hover.hand none, hflushed.hand, ?_, hflushing.last, ?_, hflushing.plain⟩,
        hflushing.receiver⟩
      · change ∀ x ∈ s.outbound.committed, x.2.isClose = false
        rw [ho.queued hflushing.receiver, hqueue, List.append_nil]
        exact hflushing.noClose
      · change s.stream.queueClose = _
        rw [hflushing.fresh]
        rfl
    | true => simp [Session.go, hphase] at h
  | closeAndDrain stage reason frame deadline =>
    rw [hphase] at hfits
    cases stage with
    | call =>
      obtain ⟨hclosing, hshut⟩ := hfits
      obtain ⟨hdraining, hqueued⟩ := hclosing.draining
      simp only [Session.go, hphase, Option.some.injEq] at h
      subst h
      refine ⟨hbase.hand (fun _ _ h => nomatch h), ?_⟩
      dsimp only
      split
      · exact ⟨hdraining, hqueued, hshut⟩
      · exact ⟨hdraining, hshut⟩
    | await | drain => simp [Session.go, hphase] at h
  | tooBig polled deadline error =>
    rw [hphase] at hfits
    obtain ⟨hover, hlast, hplain, hshut⟩ := hfits
    cases polled with
    | false =>
      simp only [Session.go, hphase, Option.some.injEq] at h
      subst h
      exact ⟨hbase.hand (fun _ _ h => nomatch h), hover.hand _, hlast, hplain, hshut⟩
    | true => simp [Session.go, hphase] at h
  | waiting | handling | inFlight | done | unwound => simp [Session.go, hphase] at h

theorem plain_cut {t : Troubles} (h : t = {}) :
    { t with cut := true } = ({ cut := true } : Troubles) := by
  rw [h]

theorem invariant_goAway (hbase : Base config s.outbound s.record)
    (hrunning : Running s.outbound s.stream s.record)
    (hsent : pushes s.record.handed <+: messages s.outbound.committed) :
    (s.quit (.close .cancelled Session.goingAway none)).Invariant config :=
  invariant_quit s _ hbase hrunning.receiver (hrunning.closing hsent (.inr (.inl rfl)) _)

theorem invariant_cutAway {ending : Option String} (hbase : Base config s.outbound s.record)
    (hflushing : Flushing s.outbound s.stream s.record ending)
    (hsent : pushes s.record.handed <+: messages s.outbound.committed) :
    ((s.trouble ({ · with cut := true })).quit
      (.close .cancelled Session.goingAway none)).Invariant config :=
  invariant_quit _ _ (hbase.troubles _) hflushing.receiver
    (hflushing.cut_closing hsent (plain_cut hflushing.plain) (.inr (.inl rfl)) _)

theorem cancel_cases (h : s.cancel = some s') :
    s' = s.quit (.close .cancelled Session.goingAway none) ∨
      s' = (s.trouble ({ · with cut := true })).quit (.close .cancelled Session.goingAway none) := by
  unfold Session.cancel at h
  dsimp only at h
  split at h
  case h_8 => cases h
  all_goals
    cases h
    first | exact .inl rfl | exact .inr rfl

theorem cancel_of_not_flush {what : Sending} (hwhat : ¬ what.Flush)
    (hphase : s.phase = .sending what ∨ s.phase = .inFlight what) :
    s.cancel = some (s.quit (.close .cancelled Session.goingAway none)) := by
  rcases hphase with hphase | hphase
  all_goals
    cases what with
    | ping | reply => simp [Session.cancel, hphase]
    | push i msg back =>
      cases back with
      | flush d e c => exact absurd ⟨i, msg, d, e, c, rfl⟩ hwhat
      | _ => simp [Session.cancel, hphase]

theorem invariant_cancel_write {what : Sending} (hs : s.Invariant config)
    (hphase : s.phase = .sending what ∨ s.phase = .inFlight what) (h : s.cancel = some s') :
    s'.Invariant config := by
  obtain ⟨hbase, hfits⟩ := hs
  have ho := hbase.outbound.ordered
  by_cases hwhat : what.Flush
  · obtain ⟨i, msg, d, e, c, rfl⟩ := hwhat
    rcases hphase with hphase | hphase
    all_goals
      rw [hphase] at hfits
      simp only [Session.cancel, hphase, Option.some.injEq] at h
      exact h ▸ invariant_cutAway hbase hfits.1.1 (hfits.2.initial ho)
  · rw [cancel_of_not_flush hwhat hphase, Option.some.injEq] at h
    obtain ⟨hrunning, hsent⟩ := running_of_write hphase hfits hwhat ho
    exact h ▸ invariant_goAway hbase hrunning hsent

theorem invariant_cancel (hs : s.Invariant config) (h : s.cancel = some s') :
    s'.Invariant config := by
  have hbase := hs.base
  have hfits := hs.fits
  have ho := hbase.outbound.ordered
  cases hphase : s.phase with
  | sending what => exact invariant_cancel_write hs (.inl hphase) h
  | inFlight what => exact invariant_cancel_write hs (.inr hphase) h
  | waiting | handling =>
    rw [hphase] at hfits
    simp only [Session.cancel, hphase, Option.some.injEq] at h
    exact h ▸ invariant_goAway hbase hfits.1.1 (hfits.2.initial ho)
  | closeNone polled deadline =>
    rw [hphase] at hfits
    simp only [Session.cancel, hphase, Option.some.injEq] at h
    subst h
    cases polled with
    | false =>
      obtain ⟨hflushing, hsent, hsealed, hqueue⟩ := hfits
      refine invariant_quit s _ hbase hflushing.receiver ?_
      rw [Record.stop_of_idle hflushing.idle]
      refine ⟨⟨pairwise_of_silent hflushing.silent, hsent.initial ho, hflushing.idle⟩,
        .inr (.inr ?_), .inr (.inl rfl), .inl hflushing.fresh, ?_⟩
      · exact hflushing.flushed hsent hsealed hqueue ho (fun _ => .inr (.inl rfl))
          (fun _ h => nomatch h) (fun h => nomatch h)
      · rw [hflushing.plain]
        rfl
    | true =>
      obtain ⟨hnone, hreceiver⟩ := hfits
      refine invariant_quit s _ hbase hreceiver ⟨hnone.toOver.stop s.record.troubles,
        hnone.settled s.record.troubles (.inr (.inl rfl)), .inr (.inl rfl), .inr hnone.stream, ?_⟩
      rw [Record.stop_troubles, hnone.plain]
      rfl
  | _ => simp [Session.cancel, hphase] at h

theorem invariant_recv (hs : s.Invariant config) (h : s.recv latest config = some s') :
    s'.Invariant config := by
  obtain ⟨hbase, hfits⟩ := hs
  cases hphase : s.phase with
  | waiting | handling =>
    rw [hphase] at hfits
    simp only [Session.recv, hphase] at h
    refine invariant_take hbase hfits.1.1 hfits.2 ?_ ?_ h
    · exact fun _ _ _ h => nomatch h
    · exact fun i msg rest _ => ⟨hfits.1.1.taken msg rest, hfits.1.2⟩
  | _ => simp [Session.recv, hphase] at h

theorem invariant_leave (hbase : Base config s.outbound s.record)
    (hrunning : Running s.outbound s.stream s.record)
    (hsent : pushes s.record.handed <+: messages s.outbound.committed) {reason : CloseReason}
    {result : Except WsError Unit} (hreason : ¬ reason.Orderly)
    (hagrees : reason.Agrees result false) : (s.quit (.leave reason result)).Invariant config := by
  refine invariant_quit s _ hbase hrunning.receiver (hrunning.leaving hsent ?_ ?_)
  · rw [hrunning.plain]
    exact hagrees
  · exact handshaken_of_not_orderly hreason (by rw [hrunning.plain])

theorem invariant_startHandler (hbase : Base config s.outbound s.record)
    (hloop : Back.loop.Fits s.outbound s.stream s.record) (hsent : Sent s.outbound s.record) :
    s.startHandler.Invariant config := by
  obtain ⟨hrunning, hidle⟩ := hloop
  obtain ⟨n, hlog⟩ := hbase.log
  refine ⟨⟨hbase.outbound, hbase.blocks, n, ?_⟩, ⟨⟨⟨hrunning.noClose, hrunning.fresh,
    hrunning.plain, hrunning.silent⟩, hrunning.attached, hrunning.unsealed, hrunning.lastReply⟩,
    rfl⟩, hsent⟩
  rw [hidle] at hlog
  change s.record.log ++ [.start] =
    (List.replicate n [HandlerEvent.start, .stop]).flatten ++ if true then [.start] else []
  rw [hlog]
  simp

theorem not_orderly_eof : ¬ CloseReason.eof.Orderly := by
  rintro (h | h | h | h | h | h) <;> cases h

theorem invariant_inbound (hs : s.Invariant config) (hphase : s.phase = .waiting)
    (message : Option (Except StreamError Message)) :
    (s.inbound latest config message).Invariant config := by
  obtain ⟨hbase, hfits⟩ := hs
  rw [hphase] at hfits
  obtain ⟨⟨hrunning, hidle⟩, hsent⟩ := hfits
  have hgrown := hsent.initial hbase.outbound.ordered
  have hover := hrunning.toOpen.over_stop s.record.troubles hgrown
  match message with
  | none => exact invariant_leave hbase hrunning hgrown not_orderly_eof trivial
  | some (.error error) =>
    rw [Session.inbound]
    split_ifs with hlarge
    · split
      · refine invariant_quit s _ hbase hrunning.receiver ⟨hover, ?_, ?_⟩
        · rw [Record.LastReply, Record.stop_turns]
          exact hrunning.lastReply
        · rw [Record.stop_troubles]
          exact hrunning.plain
      · exact invariant_quit s _ hbase hrunning.receiver hover
    · refine invariant_leave hbase hrunning hgrown ?_ ?_
      · cases error <;>
          first | exact absurd rfl hlarge | exact not_orderly_eof | exact not_orderly_failed _
      · cases error <;> first | exact absurd rfl hlarge | exact trivial | exact ⟨_, rfl⟩
  | some (.ok (.text _)) | some (.ok (.binary _)) =>
    exact invariant_startHandler hbase ⟨hrunning, hidle⟩ hsent
  | some (.ok (.close _)) =>
    refine invariant_quit _ _ (hbase.troubles _) hrunning.receiver
      (hrunning.leaving hgrown rfl ⟨⟨fun _ => rfl, fun _ => rfl⟩, fun _ _ _ _ => ?_⟩)
    change s.stream.queueClose.flushed = _
    rw [hrunning.fresh]
    rfl
  | some (.ok (.ping _)) | some (.ok .frame) =>
    exact invariant_processed hbase ⟨hrunning, hidle⟩ hsent
  | some (.ok (.pong payload)) => exact invariant_processed hbase ⟨hrunning, hidle⟩ hsent

theorem invariant_timer (hs : s.Invariant config) (hphase : s.phase = .waiting) (kind : TimerKind) :
    (s.timer kind).Invariant config := by
  obtain ⟨hbase, hfits⟩ := hs
  rw [hphase] at hfits
  obtain ⟨⟨hrunning, hidle⟩, hsent⟩ := hfits
  have hgrown := hsent.initial hbase.outbound.ordered
  cases kind with
  | idle =>
    exact invariant_quit s _ hbase hrunning.receiver
      (hrunning.closing hgrown (.inr (.inr (.inl rfl))) _)
  | pongDeadline =>
    exact invariant_quit s _ hbase hrunning.receiver
      (hrunning.closing hgrown (.inr (.inr (.inr rfl))) _)
  | pingDue => exact ⟨hbase, ⟨hrunning, hidle⟩, hsent⟩

theorem invariant_startFlush (hbase : Base config s.outbound s.record) {ending : Option String}
    (hflushing : Flushing s.outbound s.stream s.record ending) (hsent : Sent s.outbound s.record) :
    (s.startFlush latest config ending).Invariant config := by
  rw [Session.startFlush]
  split
  · refine invariant_quit s _ hbase hflushing.receiver ?_
    rw [Record.stop_of_idle hflushing.idle]
    exact ⟨hflushing, hsent⟩
  · exact invariant_quit s _ hbase hflushing.receiver
      (hflushing.toOpen.over_stop s.record.troubles (hsent.initial hbase.outbound.ordered))

theorem queue_length_le {o : Outbound} (h : o.Invariant (max config.outboundCapacity 1)) :
    o.queue.length ≤ config.outboundCapacity := by
  obtain ⟨n, -, hsum⟩ := h.balanced.permits
  have hpos := config.outboundCapacity_pos
  omega

def returned (o : Outbound) (r : Record) (result : HandlerResult) : Record :=
  { r.stop with turns := r.turns ++ [result], mark := o.committed, decided := none }

theorem returned_last (o : Outbound) (r : Record) (result : HandlerResult) :
    (returned o r result).turns.getLast? = some result := List.getLast?_concat

theorem returned_base {o : Outbound} {r : Record} (h : Base config o r) (result : HandlerResult) :
    Base config o (returned o r result) := by
  have hstop := h.stop
  refine ⟨h.outbound, fun k => ?_, hstop.log⟩
  change Block r.stop.handed (r.turns ++ [result]) k
  rw [Record.stop_handed]
  exact (h.blocks k).turns result

theorem returned_open {o : Outbound} {st : WsStream} {r : Record} (h : Open o st r)
    (result : HandlerResult) : Open o st (returned o r result) where
  noClose := h.noClose
  fresh := h.fresh
  plain := r.stop_troubles.trans h.plain
  silent := by
    change ∀ f ∈ r.stop.handed, f.isClose = false
    rw [Record.stop_handed]
    exact h.silent

theorem invariant_handled (hs : s.Invariant config) (hphase : s.phase = .handling)
    (result : HandlerResult) : (s.handled latest config result).Invariant config := by
  obtain ⟨hbase, hfits⟩ := hs
  rw [hphase] at hfits
  obtain ⟨⟨hrunning, -⟩, hsent⟩ := hfits
  have ho := hbase.outbound.ordered
  have hbase' := returned_base hbase result
  have hopen := returned_open hrunning.toOpen result
  have hlast := returned_last s.outbound s.record result
  have hidle : (returned s.outbound s.record result).running = false := s.record.stop_running
  have hsent' : Sent s.outbound (returned s.outbound s.record result) := by
    change pushes s.record.stop.handed = _
    rw [Record.stop_handed]
    exact hsent
  match result with
  | .ok (.reply msgs) =>
    refine ⟨hbase', ⟨⟨hopen, hrunning.attached, hrunning.unsealed, ?_⟩, hidle, ⟨hlast, ?_⟩,
      List.prefix_rfl, ?_⟩, hsent'⟩
    · intro result hresult
      cases hlast.symm.trans hresult
      exact ⟨msgs, rfl⟩
    · intro msg
      change .reply ((s.record.turns ++ [Except.ok (WsOutcome.reply msgs)]).length - 1) msg ∉
        s.record.stop.handed
      rw [Record.stop_handed, List.length_append, List.length_singleton, Nat.add_sub_cancel]
      exact Record.not_reply_of_block (hbase.blocks _) (Nat.le_refl _) msg
    · have hlength := queue_length_le hbase.outbound
      change s.outbound.committed.length ≤ _
      rw [ho.queued hrunning.receiver, List.length_append]
      change _ ≤ s.outbound.received.length + config.outboundCapacity
      omega
  | .ok .close =>
    have hflushing : Flushing s.outbound s.stream (returned s.outbound s.record (.ok .close)) none :=
      { hopen with receiver := hrunning.receiver, last := hlast, idle := hidle }
    exact invariant_startFlush (s := { s with record := returned s.outbound s.record (.ok .close) })
      hbase' hflushing hsent'
  | .error error =>
    have hflushing : Flushing s.outbound s.stream (returned s.outbound s.record (.error error))
        (some error) :=
      { hopen with receiver := hrunning.receiver, last := hlast, idle := hidle }
    exact invariant_startFlush (s := { s with record := returned s.outbound s.record (.error error) })
      hbase' hflushing hsent'

theorem send_agrees (error : StreamError) (closeFailed : Bool) :
    (SessionFailure.send error).reason.Agrees (.error (SessionFailure.send error).error)
      closeFailed := by
  cases error <;> exact ⟨_, rfl⟩

theorem send_not_orderly (error : StreamError) : ¬ (SessionFailure.send error).reason.Orderly := by
  cases error <;> exact not_orderly_failed _

theorem send_failed (error : StreamError) :
    ∃ kind, (SessionFailure.send error).reason = .failed kind := by
  cases error <;> exact ⟨_, rfl⟩

theorem invariant_sendDone_ok (hs : s.Invariant config)
    (h : s.sendDone latest config (.ok ()) = some s') : s'.Invariant config := by
  obtain ⟨hbase, hfits⟩ := hs
  cases hphase : s.phase with
  | inFlight what =>
    simp only [Session.sendDone, hphase, Option.some.injEq] at h
    exact h ▸ invariant_sent ⟨hbase, hfits⟩ hphase
  | closeNone polled deadline =>
    cases polled with
    | false => simp [Session.sendDone, hphase] at h
    | true =>
      rw [hphase] at hfits
      obtain ⟨hnone, hreceiver⟩ := hfits
      simp only [Session.sendDone, hphase, Option.some.injEq] at h
      subst h
      refine invariant_quit { s with stream := s.stream.flush } _ hbase hreceiver
        (hnone.leaving (.inl rfl) rfl ⟨?_, fun _ _ _ _ => ?_⟩)
      · exact client_iff (by rw [hnone.plain]) CloseReason.noConfusion
      · change s.stream.flush.flushed = _
        rw [hnone.stream]
        rfl
  | closeAndDrain stage reason frame deadline =>
    cases stage with
    | await =>
      rw [hphase] at hfits
      obtain ⟨hdraining, hqueued, hshut⟩ := hfits
      simp only [Session.sendDone, hphase, Option.some.injEq] at h
      subst h
      refine ⟨hbase, { hdraining with stream := fun _ => .inr ?_ }, hshut⟩
      change s.stream.flush = _
      rw [hqueued]
      rfl
    | call | drain => simp [Session.sendDone, hphase] at h
  | _ => simp [Session.sendDone, hphase] at h

theorem invariant_sendFailed (hbase : Base config s.outbound s.record)
    (hrunning : Running s.outbound s.stream s.record)
    (hsent : pushes s.record.handed <+: messages s.outbound.committed) (error : StreamError) :
    (s.sendFailed error).Invariant config := by
  refine invariant_quit _ _ (hbase.troubles _) hrunning.receiver
    (hrunning.leaving hsent (send_agrees error _)
      (handshaken_of_not_orderly (send_not_orderly error) ?_))
  rw [hrunning.plain]

theorem sendDone_error_of_not_flush {what : Sending} (hwhat : ¬ what.Flush) (error : StreamError)
    (hphase : s.phase = .inFlight what) :
    s.sendDone latest config (.error error) = some (s.sendFailed error) := by
  cases what with
  | ping | reply => simp [Session.sendDone, hphase]
  | push i msg back =>
    cases back with
    | flush d e c => exact absurd ⟨i, msg, d, e, c, rfl⟩ hwhat
    | _ => simp [Session.sendDone, hphase]

theorem invariant_sendDone_error (hs : s.Invariant config) {error : StreamError}
    (h : s.sendDone latest config (.error error) = some s') : s'.Invariant config := by
  obtain ⟨hbase, hfits⟩ := hs
  have ho := hbase.outbound.ordered
  cases hphase : s.phase with
  | inFlight what =>
    rw [hphase] at hfits
    by_cases hwhat : what.Flush
    · obtain ⟨i, msg, d, e, c, rfl⟩ := hwhat
      obtain ⟨⟨hflushing, -⟩, hsent⟩ := hfits
      have hclient : s.record.troubles.clientClosed = false := by rw [hflushing.plain]
      cases e with
      | none =>
        simp only [Session.sendDone, hphase, Option.some.injEq] at h
        subst h
        exact invariant_quit _ _ (hbase.troubles _) hflushing.receiver
          (hflushing.cut_leaving (hsent.initial ho) rfl (send_agrees error _)
            (handshaken_of_not_orderly (send_not_orderly error) hclient))
      | some handlerError =>
        simp only [Session.sendDone, hphase, Option.some.injEq] at h
        subst h
        exact invariant_quit _ _ (hbase.troubles _) hflushing.receiver
          (hflushing.cut_leaving (hsent.initial ho) rfl ⟨_, rfl⟩
            (handshaken_of_not_orderly (not_orderly_failed _) hclient))
    · obtain ⟨hrunning, hsent⟩ := running_of_write (.inr rfl) hfits hwhat ho
      rw [sendDone_error_of_not_flush hwhat error hphase, Option.some.injEq] at h
      exact h ▸ invariant_sendFailed hbase hrunning hsent error
  | closeNone polled deadline =>
    cases polled with
    | false => simp [Session.sendDone, hphase] at h
    | true =>
      rw [hphase] at hfits
      obtain ⟨hnone, hreceiver⟩ := hfits
      simp only [Session.sendDone, hphase, Option.some.injEq] at h
      subst h
      refine invariant_quit _ _ (hbase.troubles _) hreceiver
        (hnone.leaving (.inr (send_failed error)) (send_agrees error _)
          (handshaken_of_not_orderly (send_not_orderly error) ?_))
      rw [hnone.plain]
  | closeAndDrain stage reason frame deadline =>
    cases stage with
    | await =>
      rw [hphase] at hfits
      obtain ⟨hdraining, -, hshut⟩ := hfits
      have hclient := hdraining.client
      simp only [Session.sendDone, hphase] at h
      split at h
      · cases h
        exact ⟨hbase.troubles _, hdraining.leaving rfl hclient (.inl rfl) (fun _ h => nomatch h), hshut⟩
      · cases h
        exact ⟨hbase.troubles _, hdraining.leaving rfl hclient (.inl rfl) (fun _ h => nomatch h), hshut⟩
      · cases h
        refine ⟨hbase.troubles _, ⟨⟨hdraining.ordered, hdraining.sent, hdraining.idle⟩, ?_,
          hdraining.closes, ?_, (fun h => nomatch h)⟩, hshut⟩
        · rcases hdraining.settled with hlast | hcut | hflushed
          · exact .inl hlast
          · exact .inr (.inl hcut)
          · obtain ⟨hsealed, hall, hbyClose, hbyHandler, hclose⟩ := hflushed
            exact .inr (.inr ⟨hsealed, hall, hbyClose, hbyHandler, hclose⟩)
        · change ({ s.record.troubles with writeFailed := true } : Troubles) = _
          rw [hdraining.failed]
          rfl
      · cases h
        exact ⟨hbase.troubles _, hdraining.leaving rfl hclient (.inr rfl) (fun _ h => nomatch h), hshut⟩
    | call | drain => simp [Session.sendDone, hphase] at h
  | _ => simp [Session.sendDone, hphase] at h

theorem running_of_bounded (hs : s.Invariant config) (h : Session.bounded s.phase = true) :
    Running s.outbound s.stream s.record ∧
      pushes s.record.handed <+: messages s.outbound.committed := by
  obtain ⟨hbase, hfits⟩ := hs
  cases hphase : s.phase with
  | inFlight what =>
    rw [hphase] at h hfits
    refine running_of_write (.inr rfl) hfits ?_ hbase.outbound.ordered
    rintro ⟨i, msg, d, e, c, rfl⟩
    cases h
  | _ =>
    rw [hphase] at h
    cases h

theorem invariant_observe (hs : s.Invariant config) (h : s.observe latest config = some s') :
    s'.Invariant config := by
  rw [Session.observe] at h
  split_ifs at h with hbounded
  obtain ⟨hrunning, hsent⟩ := running_of_bounded hs hbounded
  split at h
  · cases h
    exact ⟨hs.base, hs.fits⟩
  · cases h
    exact invariant_quit s _ hs.base hrunning.receiver
      (hrunning.toOpen.over_stop s.record.troubles hsent)

theorem invariant_graceExpired (hs : s.Invariant config) (h : s.graceExpired = some s') :
    s'.Invariant config := by
  obtain ⟨hbounded, ⟨⟩⟩ := Option.ite_none_right_eq_some.mp h
  obtain ⟨hrunning, hsent⟩ := running_of_bounded hs hbounded.1
  refine invariant_quit _ _ (hs.base.troubles _) hrunning.receiver
    (hrunning.leaving hsent (.inl rfl) ⟨?_, fun _ hexpired => nomatch hexpired⟩)
  exact client_iff (by rw [hrunning.plain]) CloseReason.noConfusion

theorem invariant_stall (hs : s.Invariant config) (h : s.stall config = some s') :
    s'.Invariant config := by
  obtain ⟨hbounded, ⟨⟩⟩ := Option.ite_none_right_eq_some.mp h
  obtain ⟨hrunning, hsent⟩ := running_of_bounded hs hbounded.1
  refine invariant_quit _ _ (hs.base.troubles _) hrunning.receiver
    (hrunning.leaving hsent (.inl rfl) ⟨?_, fun _ _ _ hstalled => nomatch hstalled rfl⟩)
  exact client_iff (by rw [hrunning.plain]) CloseReason.noConfusion

theorem invariant_tooBig (hs : s.Invariant config) {polled : Bool} {deadline : ℕ}
    {error : StreamError} (hphase : s.phase = .tooBig polled deadline error) :
    { s with phase := .done .messageTooLarge (.error (.protocol error)) }.Invariant config := by
  obtain ⟨hbase, hfits⟩ := hs
  rw [hphase] at hfits
  obtain ⟨hover, hlast, hplain, hshut⟩ := hfits
  have horderly : ¬ CloseReason.messageTooLarge.Orderly := by
    rintro (h | h | h | h | h | h) <;> cases h
  refine ⟨hbase, ⟨hover, .inl hlast, ⟨_, rfl⟩, handshaken_of_not_orderly horderly ?_⟩, hshut⟩
  rw [hplain]

inductive Session.Expires (s : Session) : Session → Prop
  | flushed {i : ℕ} {msg : WsMessage} {deadline closeDeadline : ℕ} : deadline ≤ s.timers.now →
      s.phase = .inFlight (.push i msg (.flush deadline none closeDeadline)) →
      Expires s (((s.trouble ({ · with expired := true })).trouble ({ · with cut := true })).quit
        (.leave .handlerClose (.ok ())))
  | failed {i : ℕ} {msg : WsMessage} {deadline closeDeadline : ℕ} {error : String} :
      deadline ≤ s.timers.now →
      s.phase = .inFlight (.push i msg (.flush deadline (some error) closeDeadline)) →
      Expires s (((s.trouble ({ · with expired := true })).trouble ({ · with cut := true })).quit
        (.leave (.failed .handler) (.error (.handler error))))
  | closeNone {deadline : ℕ} : deadline ≤ s.timers.now → s.phase = .closeNone true deadline →
      Expires s ((s.trouble ({ · with expired := true })).quit (.leave .handlerClose (.ok ())))
  | closing {stage : CloseStage} {reason : CloseReason} {frame : Option CloseFrame}
      {deadline : ℕ} : deadline ≤ s.timers.now → stage ≠ .call →
      s.phase = .closeAndDrain stage reason frame deadline →
      Expires s { s.trouble ({ · with expired := true }) with phase := .done reason (.ok ()) }
  | tooBig {deadline : ℕ} {error : StreamError} : deadline ≤ s.timers.now →
      s.phase = .tooBig true deadline error →
      Expires s { s with phase := .done .messageTooLarge (.error (.protocol error)) }

theorem deadline_cases (h : s.deadline = some s') : s.Expires s' := by
  unfold Session.deadline at h
  dsimp only at h
  split at h
  · rename_i i msg deadline ending closeDeadline hphase
    obtain ⟨hle, ⟨⟩⟩ := Option.ite_none_right_eq_some.mp h
    cases ending with
    | none => exact .flushed hle hphase
    | some error => exact .failed hle hphase
  · rename_i hphase
    obtain ⟨hle, ⟨⟩⟩ := Option.ite_none_right_eq_some.mp h
    exact .closeNone hle hphase
  · rename_i hphase
    obtain ⟨hle, ⟨⟩⟩ := Option.ite_none_right_eq_some.mp h
    exact .closing hle CloseStage.noConfusion hphase
  · rename_i hphase
    obtain ⟨hle, ⟨⟩⟩ := Option.ite_none_right_eq_some.mp h
    exact .closing hle CloseStage.noConfusion hphase
  · rename_i hphase
    obtain ⟨hle, ⟨⟩⟩ := Option.ite_none_right_eq_some.mp h
    exact .tooBig hle hphase
  · cases h

theorem invariant_deadline (hs : s.Invariant config) (h : s.Expires s') : s'.Invariant config := by
  have hlarge := hs
  obtain ⟨hbase, hfits⟩ := hs
  have ho := hbase.outbound.ordered
  cases h with
  | flushed _ hphase =>
    rw [hphase] at hfits
    obtain ⟨⟨hflushing, -⟩, hsent⟩ := hfits
    have hclient : s.record.troubles.clientClosed = false := by rw [hflushing.plain]
    refine invariant_quit _ _ (hbase.troubles _) hflushing.receiver
      (hflushing.cut_leaving (hsent.initial ho) rfl rfl ⟨?_, fun _ hexpired => nomatch hexpired⟩)
    exact client_iff hclient CloseReason.noConfusion
  | failed _ hphase =>
    rw [hphase] at hfits
    obtain ⟨⟨hflushing, -⟩, hsent⟩ := hfits
    have hclient : s.record.troubles.clientClosed = false := by rw [hflushing.plain]
    exact invariant_quit _ _ (hbase.troubles _) hflushing.receiver
      (hflushing.cut_leaving (hsent.initial ho) rfl ⟨_, rfl⟩
        (handshaken_of_not_orderly (not_orderly_failed _) hclient))
  | closeNone _ hphase =>
    rw [hphase] at hfits
    obtain ⟨hnone, hreceiver⟩ := hfits
    refine invariant_quit _ _ (hbase.troubles _) hreceiver
      (hnone.leaving (.inl rfl) rfl ⟨?_, fun _ hexpired => nomatch hexpired⟩)
    exact client_iff (by rw [hnone.plain]) CloseReason.noConfusion
  | @closing stage reason _ _ _ hcall hphase =>
    rw [hphase] at hfits
    obtain ⟨hdraining, hshut⟩ :
        Draining s.outbound s.stream s.record reason ∧ Shut s.outbound := by
      cases stage with
      | call => exact absurd rfl hcall
      | await => exact ⟨hfits.1, hfits.2.2⟩
      | drain => exact hfits
    exact ⟨hbase.troubles _, hdraining.leaving rfl hdraining.client (.inl rfl)
      (fun h => nomatch h), hshut⟩
  | tooBig _ hphase => exact invariant_tooBig hlarge hphase

theorem Draining.flush {o : Outbound} {st : WsStream} {r : Record} {reason : CloseReason}
    (h : Draining o st r reason) : Draining o st.flush r reason ∧
      (r.troubles.writeFailed = false → st.flush.flushed = 1) := by
  have hstream : r.troubles.writeFailed = false → st.flush = ⟨false, false, 1⟩ := by
    intro hwrite
    rcases h.stream hwrite with rfl | rfl <;> rfl
  exact ⟨{ h with stream := fun hwrite => .inr (hstream hwrite) },
    fun hwrite => by rw [hstream hwrite]⟩

theorem invariant_drained (hs : s.Invariant config) {message : Option (Except StreamError Unit)}
    {wrote : Bool} (h : s.drained message wrote = some s') : s'.Invariant config := by
  obtain ⟨hbase, hfits⟩ := hs
  cases hphase : s.phase with
  | closeAndDrain stage reason frame deadline =>
    cases stage with
    | drain =>
      rw [hphase] at hfits
      obtain ⟨hdraining, hshut⟩ := hfits
      obtain ⟨hflushing, hflushed⟩ := hdraining.flush
      have hclient := hdraining.client
      simp only [Session.drained, hphase] at h
      cases wrote with
      | true =>
        split at h
        · cases h
          exact ⟨hbase, hflushing, hshut⟩
        · cases h
          exact ⟨hbase, hflushing.leaving rfl hclient (.inl rfl) fun _ => hflushed, hshut⟩
        · cases h
          exact ⟨hbase, hflushing.leaving rfl hclient (.inl rfl) fun _ => hflushed, hshut⟩
        · cases h
          exact ⟨hbase, hflushing.leaving rfl hclient (.inl rfl) fun _ => hflushed, hshut⟩
        · cases h
          exact ⟨hbase.troubles _, hflushing.leaving rfl hclient (.inr rfl) fun _ => hflushed, hshut⟩
      | false =>
        split at h
        · cases h
        · cases h
        · cases h
          exact ⟨hbase.troubles _, hdraining.leaving rfl hclient (.inl rfl) (fun _ h => nomatch h), hshut⟩
        · cases h
          exact ⟨hbase.troubles _, hdraining.leaving rfl hclient (.inl rfl) (fun _ h => nomatch h), hshut⟩
        · cases h
          exact ⟨hbase.troubles _, hdraining.leaving rfl hclient (.inr rfl) (fun _ h => nomatch h), hshut⟩
    | call | await => simp [Session.drained, hphase] at h
  | _ => simp [Session.drained, hphase] at h

/-- What each action asks of the session and makes of it. -/
inductive Session.Transition (latest : ℕ) (config : Config) (s : Session) : Action → Session → Prop
  | sender {action : WsSender.Action} {i : ℕ} {o : Outbound} : action.call = some i →
      s.outbound.step action = some o →
      Transition latest config s (.sender action) { s with outbound := o }
  | tick {duration : ℕ} : s.timers.now + duration ≤ latest →
      Transition latest config s (.tick duration)
        { s with timers := { s.timers with now := s.timers.now + duration } }
  | go {s' : Session} : s.go latest config = some s' → Transition latest config s .go s'
  | cancel {s' : Session} : s.cancel = some s' → Transition latest config s .cancel s'
  | recv {s' : Session} : s.recv latest config = some s' → Transition latest config s .recv s'
  | inbound {message : Option (Except StreamError Message)} : s.phase = .waiting →
      Transition latest config s (.inbound message) (s.inbound latest config message)
  | timer {deadline : ℕ} {kind : TimerKind} : s.phase = .waiting →
      Session.timerLeg s.timers = some (deadline, kind) → deadline ≤ s.timers.now →
      Transition latest config s .timer (s.timer kind)
  | handled {result : HandlerResult} : s.phase = .handling →
      Transition latest config s (.handled result) (s.handled latest config result)
  | sendDone {result : Except StreamError Unit} {s' : Session} :
      s.sendDone latest config result = some s' →
      Transition latest config s (.sendDone result) s'
  | observe {s' : Session} : s.observe latest config = some s' →
      Transition latest config s .observe s'
  | graceExpired {s' : Session} : s.graceExpired = some s' →
      Transition latest config s .graceExpired s'
  | stalled {s' : Session} : s.stall config = some s' → Transition latest config s .stalled s'
  | deadline {s' : Session} : s.Expires s' → Transition latest config s .deadline s'
  | drained {message : Option (Except StreamError Unit)} {wrote : Bool} {s' : Session} :
      s.drained message wrote = some s' → Transition latest config s (.drained message wrote) s'
  | lingered {deadline : ℕ} {error : StreamError} : s.phase = .tooBig true deadline error →
      Transition latest config s .lingered
        { s with phase := .done .messageTooLarge (.error (.protocol error)) }

theorem transition_of_step {a : Action} (h : s.step latest config a = some s') :
    s.Transition latest config a s' := by
  cases a with
  | sender action =>
    obtain ⟨hcall, h⟩ := Option.ite_none_right_eq_some.mp h
    obtain ⟨i, hi⟩ := Option.isSome_iff_exists.mp hcall
    obtain ⟨o, ho, rfl⟩ := Option.map_eq_some_iff.mp h
    exact .sender hi ho
  | tick duration =>
    obtain ⟨now, hnow, rfl⟩ := Option.map_eq_some_iff.mp h
    obtain ⟨hle, ⟨⟩⟩ := Option.ite_none_right_eq_some.mp hnow
    exact .tick hle
  | go => exact .go h
  | cancel => exact .cancel h
  | recv => exact .recv h
  | inbound message =>
    rw [Session.step] at h
    split at h
    · next hphase =>
      cases h
      exact .inbound hphase
    · cases h
  | timer =>
    rw [Session.step] at h
    split at h
    · next hphase hleg =>
      obtain ⟨hle, ⟨⟩⟩ := Option.ite_none_right_eq_some.mp h
      exact .timer hphase hleg hle
    · cases h
  | handled result =>
    rw [Session.step] at h
    split at h
    · next hphase =>
      cases h
      exact .handled hphase
    · cases h
  | sendDone result => exact .sendDone h
  | observe => exact .observe h
  | graceExpired => exact .graceExpired h
  | stalled => exact .stalled h
  | deadline => exact .deadline (deadline_cases h)
  | drained message wrote => exact .drained h
  | lingered =>
    rw [Session.step] at h
    split at h
    · next hphase =>
      cases h
      exact .lingered hphase
    · cases h

theorem Session.Invariant.step (hs : s.Invariant config) {a : Action}
    (h : s.step latest config a = some s') : s'.Invariant config := by
  cases transition_of_step h with
  | sender hi ho =>
    have hinvariant := invariant_step hs.base.outbound ho
    exact ⟨⟨hinvariant, hs.base.blocks, hs.base.log⟩,
      hs.fits.called (called_step hi (step_cases ho)) hs.base.outbound.ordered hinvariant.ordered⟩
  | tick => exact ⟨hs.base, hs.fits⟩
  | go h => exact invariant_go hs h
  | cancel h => exact invariant_cancel hs h
  | recv h => exact invariant_recv hs h
  | inbound hphase => exact invariant_inbound hs hphase _
  | timer hphase => exact invariant_timer hs hphase _
  | handled hphase => exact invariant_handled hs hphase _
  | @sendDone result _ h =>
    cases result with
    | ok => exact invariant_sendDone_ok hs h
    | error error => exact invariant_sendDone_error hs h
  | observe h => exact invariant_observe hs h
  | graceExpired h => exact invariant_graceExpired hs h
  | stalled h => exact invariant_stall hs h
  | deadline h => exact invariant_deadline hs h
  | drained h => exact invariant_drained hs h
  | lingered hphase => exact invariant_tooBig hs hphase

theorem invariant_new (now : ℕ) : (Session.new config now).Invariant config := by
  refine ⟨⟨invariant_channel _, fun k => ⟨[], [], [], rfl, ?_, ?_, .inl rfl⟩, 0, rfl⟩, ⟨?_, rfl⟩, rfl⟩
  · exact fun _ => List.not_mem_nil
  · exact fun _ => List.not_mem_nil
  · exact ⟨⟨(fun _ h => nomatch h), rfl, rfl, (fun _ h => nomatch h)⟩, rfl, rfl,
      (fun _ h => nomatch h)⟩

theorem session_run {now : ℕ} {as : List Action}
    (h : run (Session.step latest config) as (.new config now) = some s) : s.Invariant config :=
  run_invariant (fun s : Session => s.Invariant config) (fun _ _ _ _ hs hstep => hs.step hstep)
    (invariant_new now) h

end

end FandheBackend.WsSession
