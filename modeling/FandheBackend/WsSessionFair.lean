import FandheBackend.WsSessionTimed
import FandheBackend.WsSessionWire

set_option autoImplicit false

namespace FandheBackend.WsSession
open ActionRuns WsSender

/-- `race2`: of two futures that are polled, with `none` for one that is pending. -/
def race2 {A B : Type} (a : Option A) (b : Option B) : Option (A ⊕ B) :=
  (a.map .inl).or (b.map .inr)

/-- `race2_alternating`. -/
def race2Alternating {A B : Type} (preferB : Bool) (a : Option A) (b : Option B) : Option (A ⊕ B) :=
  if preferB then (b.map .inr).or (a.map .inl) else (a.map .inl).or (b.map .inr)

namespace Timed
variable (t : Timed)

def pollNext : Option Action :=
  (t.arrivals.frames.head?.filter fun frame => decide (frame.1 ≤ t.now)).map fun frame =>
    .inbound frame.2

def pollTimer : Option Action :=
  ((Session.timerLeg t.session.timers).filter fun leg => decide (leg.1 ≤ t.now)).map fun _ => .timer

def pollInbound : Option Action := (race2 t.pollNext t.pollTimer).map (Sum.elim id id)

def pollOutbound : Option Action := t.session.outbound.queue.head?.map fun _ => .recv

end Timed

/-- A session whose waits are polled, with the flag of the loop and what an observer would count:
the events that the client or a timer brought about, and the items taken from the queue, both
while the loop waited. -/
structure Polled where
  timed : Timed
  preferOutbound : Bool
  events : ℕ
  pushes : ℕ

inductive PolledAction where
  | poll
  | act (action : Action)

/-- The two futures of the race: an event of the client or of a timer, and an item. -/
def Action.IsEvent : Action → Bool
  | .inbound _ | .timer => true
  | _ => false

def Action.Raced : Action → Bool
  | .recv => true
  | a => a.IsEvent

namespace Polled
variable (latest : ℕ) (config : Config)

def place (p : Polled) : Place := p.timed.place

def race (p : Polled) : Option Action :=
  (race2Alternating p.preferOutbound p.timed.pollInbound p.timed.pollOutbound).map (Sum.elim id id)

/-- The flag is turned over when a wait begins. -/
def after (p : Polled) (a : Action) (t : Timed) : Polled where
  timed := t
  preferOutbound :=
    if p.place ≠ .waiting ∧ t.place = .waiting then !p.preferOutbound else p.preferOutbound
  events := p.events + a.IsEvent.toNat
  pushes := p.pushes + (decide (p.place = .waiting) && a.Raced && !a.IsEvent).toNat

def take (p : Polled) (a : Action) : Option Polled := (p.timed.step latest config a).map (p.after a)

def step (p : Polled) : PolledAction → Option Polled
  | .poll =>
    if p.place = .waiting then
      match p.race with
      | none => some p
      | some a => p.take latest config a
    else none
  | .act a => if p.place = .waiting ∧ a.Raced = true then none else p.take latest config a

def new (now : ℕ) (arrivals : Arrivals) : Polled := ⟨.new config now arrivals, false, 0, 0⟩

end Polled

section Grown
variable {latest : ℕ} {config : Config} {s s' : Session}

theorem processed_outbound (s : Session) : (s.processed latest config).outbound = s.outbound := by
  unfold Session.processed
  split
  · rfl
  · split <;> rfl

theorem startReply_outbound (s : Session) (reply : List WsMessage) :
    (s.startReply latest config reply).outbound = s.outbound := by
  cases reply with
  | nil => exact processed_outbound s
  | cons => rfl

theorem startFlush_outbound (s : Session) (ending : Option String) :
    (s.startFlush latest config ending).outbound = s.outbound := by
  unfold Session.startFlush
  split <;> rfl

theorem senderClose_outbound (s : Session) (code : UInt16) (reason : String) :
    (s.senderClose latest config code reason).outbound = s.outbound := by
  unfold Session.senderClose
  split <;> rfl

theorem enter_outbound (s : Session) (next : Next) :
    (s.enter latest config next).outbound = s.outbound := by
  unfold Session.enter
  split
  case h_3 => split <;> rfl
  all_goals rfl

theorem take_outbound {back : Back} (h : s.take latest config back = some s') :
    s.outbound.recv = some s'.outbound := by
  unfold Session.take at h
  split at h
  · next i item rest outbound hqueue hrecv =>
    rw [hrecv]
    split at h <;> cases h
    · rfl
    · rfl
    · rw [senderClose_outbound]
  · cases h

structure Grown (o o' : Outbound) : Prop where
  received : o.received <+: o'.received
  committed : o.committed <+: o'.committed

theorem grown_rfl {o : Outbound} : Grown o o := ⟨List.prefix_rfl, List.prefix_rfl⟩

theorem Grown.trans {o o' o'' : Outbound} (h : Grown o o') (h' : Grown o' o'') : Grown o o'' :=
  ⟨h.received.trans h'.received, h.committed.trans h'.committed⟩

theorem grown_outbound {o o' : Outbound} {a : WsSender.Action} (h : o.step a = some o') :
    Grown o o' := by
  have hstepped := step_cases h
  refine ⟨?_, (committed_step hstepped).1⟩
  cases hstepped with
  | received => exact List.prefix_append _ _
  | committed _ _ _ _ hrunning =>
    rw [commit_running hrunning]
    exact List.prefix_rfl
  | _ => exact List.prefix_rfl

theorem take_grown {back : Back} (h : s.take latest config back = some s') :
    Grown s.outbound s'.outbound := grown_outbound (a := .recv) (take_outbound h)

theorem sealStep_grown {stage : SealStage} {next : Next}
    (h : s.sealStep latest config next stage = some s') : Grown s.outbound s'.outbound := by
  unfold Session.sealStep at h
  split at h
  · obtain ⟨o, ho, rfl⟩ := Option.map_eq_some_iff.mp h
    exact grown_outbound ho
  · obtain ⟨o, ho, rfl⟩ := Option.map_eq_some_iff.mp h
    exact grown_outbound ho
  · split at h <;> obtain ⟨o, ho, rfl⟩ := Option.map_eq_some_iff.mp h <;>
      rw [enter_outbound] <;> exact grown_outbound ho

theorem go_grown (h : s.go latest config = some s') : Grown s.outbound s'.outbound := by
  have hgetD : ∀ back t, t.outbound = s.outbound →
      Grown s.outbound ((s.take latest config back).getD t).outbound := by
    intro back t ht
    cases htake : s.take latest config back with
    | none => exact ht ▸ grown_rfl
    | some u => exact take_grown htake
  have hkept : s'.outbound = s.outbound → Grown s.outbound s'.outbound := fun heq =>
    heq ▸ grown_rfl
  unfold Session.go at h
  split at h
  · cases h
    exact hkept (processed_outbound _)
  · cases h
    refine hkept ?_
    unfold Session.atTop
    split
    · split <;> rfl
    · rfl
  · cases h
    exact hkept rfl
  · cases h
    exact hkept rfl
  · cases h
    exact hgetD _ _ rfl
  · split at h
    · cases h
      exact hkept rfl
    · dsimp only at h
      split at h <;> cases h
      · exact hkept rfl
      · exact hkept (startReply_outbound _ _)
  · cases h
    exact hgetD _ _ (startReply_outbound _ _)
  · exact sealStep_grown h
  · cases h
    refine hgetD _ _ ?_
    split <;> rfl
  · cases h
    exact hkept rfl
  · cases h
    exact hkept rfl
  · cases h
    exact hkept rfl
  · cases h

theorem inbound_outbound (s : Session) (item : Option (Except StreamError Message)) :
    (s.inbound latest config item).outbound = s.outbound := by
  match item with
  | none => rfl
  | some (.error error) =>
    unfold Session.inbound
    dsimp only
    split
    · split <;> rfl
    · rfl
  | some (.ok (.text _)) | some (.ok (.binary _)) | some (.ok (.close _)) => rfl
  | some (.ok (.ping _)) | some (.ok .frame) | some (.ok (.pong _)) => exact processed_outbound _

theorem handled_outbound (s : Session) (result : HandlerResult) :
    (s.handled latest config result).outbound = s.outbound := by
  match result with
  | .ok (.reply _) => rfl
  | .ok .close | .error _ => exact startFlush_outbound _ _

theorem sendDone_outbound {result : Except StreamError Unit}
    (h : s.sendDone latest config result = some s') : s'.outbound = s.outbound := by
  unfold Session.sendDone at h
  split at h
  · split at h
    · next what _ =>
      cases h
      cases what with
      | ping | push => rfl
      | reply => exact startReply_outbound s _
    · cases h
      rfl
    · cases h
      rfl
    · cases h
  · split at h
    case h_5 =>
      dsimp only at h
      split at h <;> cases h <;> rfl
    case h_6 => cases h
    all_goals
      cases h
      rfl

theorem drained_outbound {message : Option (Except StreamError Unit)} {wrote : Bool}
    (h : s.drained message wrote = some s') : s'.outbound = s.outbound := by
  unfold Session.drained at h
  split at h
  · cases wrote <;> dsimp only at h <;> split at h <;> cases h <;> rfl
  · cases h

theorem recv_received (h : s.recv latest config = some s') :
    s'.outbound.received.length = s.outbound.received.length + 1 := by
  have hone : ∀ {back : Back}, s.take latest config back = some s' →
      s'.outbound.received.length = s.outbound.received.length + 1 := by
    intro back htake
    have hrecv := take_outbound htake
    unfold Outbound.recv at hrecv
    split at hrecv
    · cases hrecv
    · rw [← Option.some.inj hrecv]
      exact List.length_append
  unfold Session.recv at h
  split at h
  · exact hone h
  · exact hone h
  · cases h

theorem step_grown {a : Action} (h : s.step latest config a = some s') :
    Grown s.outbound s'.outbound := by
  have hkept : s'.outbound = s.outbound → Grown s.outbound s'.outbound := fun heq =>
    heq ▸ grown_rfl
  cases transition_of_step h with
  | sender _ ho => exact grown_outbound ho
  | tick | lingered => exact grown_rfl
  | go h => exact go_grown h
  | cancel h => rcases cancel_cases h with rfl | rfl <;> exact grown_rfl
  | recv h =>
    unfold Session.recv at h
    split at h
    · exact take_grown h
    · exact take_grown h
    · cases h
  | inbound => exact hkept (inbound_outbound s _)
  | @timer _ kind => cases kind <;> exact grown_rfl
  | handled => exact hkept (handled_outbound s _)
  | sendDone h => exact hkept (sendDone_outbound h)
  | observe h =>
    obtain ⟨-, h⟩ := Option.ite_none_right_eq_some.mp h
    split at h <;> cases h <;> exact grown_rfl
  | graceExpired h | stalled h =>
    obtain ⟨-, ⟨⟩⟩ := Option.ite_none_right_eq_some.mp h
    exact grown_rfl
  | deadline h => cases h <;> exact grown_rfl
  | drained h => exact hkept (drained_outbound h)

end Grown

section Waits
variable {latest : ℕ} {config : Config} {s s' : Session}

/-- What a step does to the wait of the receive loop. -/
inductive Waits (a : Action) : Place → Place → Prop
  | event {p' : Place} (event : a.IsEvent = true) (left : p' ≠ .waiting) : Waits a .waiting p'
  | push {p' : Place} (recv : a = .recv) (left : p' ≠ .waiting) : Waits a .waiting p'
  | stay {p : Place} (quiet : a.IsEvent = false) (waits : p = .waiting → a ≠ .recv) : Waits a p p
  | leave {p : Place} (quiet : a.IsEvent = false) (waits : p = .waiting → a ≠ .recv) :
    Waits a p .left
  | move {p p' : Place} (quiet : a.IsEvent = false) (elsewhere : p ≠ .waiting) (inside : p ≠ .left) :
    Waits a p p'

theorem phase_of_waiting {phase : Phase} (h : phase.place = .waiting) : phase = .waiting := by
  cases phase with
  | waiting => rfl
  | sending what | inFlight what =>
    cases what with
    | ping | reply => cases h
    | push _ _ back => cases back <;> cases h
  | _ => cases h

theorem isEvent_of_quiet {a : Action} {p : Place} (h : a.Quiet p) : a.IsEvent = false := by
  cases a with
  | inbound | timer => exact h.elim
  | _ => rfl

theorem processed_not_waiting (c : Clock) : (c.processed latest config).1 ≠ .waiting := by
  unfold Clock.processed
  split
  · nofun
  · split <;> nofun

theorem step_waits {a : Action} (h : s.step latest config a = some s') :
    Waits a s.phase.place s'.phase.place := by
  by_cases hpush : s.phase.place = .waiting ∧ a = .recv
  · obtain ⟨hwaiting, rfl⟩ := hpush
    rw [hwaiting]
    refine .push rfl ?_
    cases transition_of_step h with
    | recv h =>
      unfold Session.recv at h
      split at h
      · rcases take_view h with hview | hview <;>
          rw [show s'.phase.place = _ from congrArg Prod.fst hview] <;> nofun
      · next hhandling =>
        rw [hhandling] at hwaiting
        cases hwaiting
      · cases h
  have hwaits : s.phase.place = .waiting → a ≠ .recv := fun hwaiting hrecv => hpush ⟨hwaiting, hrecv⟩
  have hmoved := step_moved h
  generalize hv : s.view = v at hmoved
  generalize hv' : s'.view = v' at hmoved
  rw [show s.phase.place = v.1 from congrArg Prod.fst hv] at hwaits ⊢
  rw [show s'.phase.place = v'.1 from congrArg Prod.fst hv']
  cases hmoved with
  | tick => exact .stay rfl hwaits
  | stay hquiet => exact .stay (isEvent_of_quiet hquiet) hwaits
  | leave hquiet => exact .leave (isEvent_of_quiet hquiet) hwaits
  | opened | rest | ping | pinged | pushed => exact .move rfl nofun nofun
  | served hquiet => exact .move (isEvent_of_quiet hquiet) nofun nofun
  | taken => exact .push rfl nofun
  | data | hungUp | due | expired => exact .event rfl nofun
  | control => exact .event rfl (processed_not_waiting _)

theorem Waits.of_event {a : Action} {p p' : Place} (h : Waits a p p') (hevent : a.IsEvent = true) :
    p = .waiting ∧ p' ≠ .waiting := by
  cases h with
  | event _ hover => exact ⟨rfl, hover⟩
  | push _ hover => exact ⟨rfl, hover⟩
  | stay hquiet | leave hquiet | move hquiet =>
    rw [hquiet] at hevent
    cases hevent

theorem Waits.of_recv {p p' : Place} (h : Waits .recv p p') (hp : p = .waiting) : p' ≠ .waiting := by
  cases h with
  | event _ hover | push _ hover => exact hover
  | stay _ hwaits | leave _ hwaits => exact absurd rfl (hwaits hp)
  | move _ helsewhere => exact absurd hp helsewhere

end Waits

namespace Polled
variable {latest : ℕ} {config : Config} {p q : Polled}

def outbound (p : Polled) : Outbound := p.timed.session.outbound

def frames (p : Polled) : List (ℕ × Option (Except StreamError Message)) := p.timed.arrivals.frames

/-- Whether the queue is polled first in this wait, or else in the next one. -/
def outboundFirst (p : Polled) : Bool :=
  if p.place = .waiting then p.preferOutbound else !p.preferOutbound

/-- How often one side may be taken before the other one is: at most once, and only if it is
polled first. -/
def credit (p : Polled) (outbound : Bool) : ℕ :=
  if p.place = .left then 0 else (p.outboundFirst == outbound).toNat

theorem credit_le_one (p : Polled) (outbound : Bool) : p.credit outbound ≤ 1 := by
  unfold credit
  split
  · exact Nat.zero_le 1
  · exact Bool.toNat_le _

theorem credit_waiting (h : p.place = .waiting) (outbound : Bool) :
    p.credit outbound = (p.preferOutbound == outbound).toNat := by
  rw [credit, outboundFirst, h]
  rfl

theorem credit_over {a : Action} {t : Timed} (hp : p.place = .waiting) (ht : t.place ≠ .waiting)
    (outbound : Bool) :
    (p.after a t).credit outbound ≤ (p.preferOutbound != outbound).toNat := by
  have hfirst : (p.after a t).outboundFirst = !p.preferOutbound := by
    rw [outboundFirst, if_neg (show (p.after a t).place ≠ .waiting from ht)]
    exact congrArg _ (if_neg fun h => h.1 hp)
  rw [credit, hfirst]
  split
  · exact Nat.zero_le _
  · cases p.preferOutbound <;> cases outbound <;> exact le_rfl

/-- The credits of a step that takes neither an event nor, while the loop waits, an item. -/
theorem credit_quiet {a : Action} {t : Timed} (hwaits : Waits a p.place t.place)
    (hquiet : a.IsEvent = false) (hrecv : p.place = .waiting → a ≠ .recv) (outbound : Bool) :
    (p.after a t).credit outbound ≤ p.credit outbound := by
  have hplace : (p.after a t).place = t.place := rfl
  have hkept : p.place ≠ .left → (p.after a t).outboundFirst = p.outboundFirst →
      (p.after a t).credit outbound ≤ p.credit outbound := by
    intro hleft hfirst
    rw [credit, credit, if_neg hleft, hfirst]
    split
    · exact Nat.zero_le _
    · exact le_rfl
  have hgone : t.place = .left → (p.after a t).credit outbound ≤ p.credit outbound := by
    intro hleft
    rw [credit, if_pos (hplace.trans hleft)]
    exact Nat.zero_le _
  have hflag : (p.after a t).preferOutbound =
    if p.place ≠ .waiting ∧ t.place = .waiting then !p.preferOutbound else p.preferOutbound := rfl
  generalize hp : p.place = before at hwaits
  generalize ht : t.place = now at hwaits
  cases hwaits with
  | event hevent => exact absurd hevent (by rw [hquiet]; exact Bool.false_ne_true)
  | push heq => exact absurd heq (hrecv hp)
  | stay =>
    by_cases hleft : t.place = .left
    · exact hgone hleft
    · have hsame : p.place = t.place := hp.trans ht.symm
      refine hkept (by rwa [hsame]) ?_
      rw [if_neg fun h => h.1 (hsame.trans h.2)] at hflag
      rw [outboundFirst, outboundFirst, hplace, hsame, hflag]
  | leave => exact hgone ht
  | move _ helsewhere hinside =>
    refine hkept (by rwa [hp]) ?_
    rw [outboundFirst, outboundFirst, hplace, hflag, hp, if_neg helsewhere]
    by_cases hwaiting : t.place = .waiting
    · rw [if_pos hwaiting, if_pos ⟨helsewhere, hwaiting⟩]
    · rw [if_neg hwaiting, if_neg fun h => hwaiting h.2]

theorem take_cases {a : Action} (h : p.take latest config a = some q) :
    ∃ t, p.timed.step latest config a = some t ∧ q = p.after a t ∧ Waits a p.place t.place ∧
      Grown p.outbound q.outbound := by
  obtain ⟨t, ht, rfl⟩ := Option.map_eq_some_iff.mp h
  obtain ⟨-, hsession⟩ := Option.ite_none_right_eq_some.mp ht
  obtain ⟨s, hs, rfl⟩ := Option.map_eq_some_iff.mp hsession
  exact ⟨_, ht, rfl, step_waits hs, step_grown hs⟩

theorem arrivals_step {a : Action} {t : Timed} (h : p.timed.step latest config a = some t) :
    (∀ item, a = .inbound item → t.arrivals = p.timed.arrivals.rest) ∧
      ((∀ item, a ≠ .inbound item) → t.arrivals = p.timed.arrivals) := by
  obtain ⟨-, hsession⟩ := Option.ite_none_right_eq_some.mp h
  obtain ⟨s, -, rfl⟩ := Option.map_eq_some_iff.mp hsession
  cases a with
  | inbound item => exact ⟨fun _ _ => rfl, fun hne => absurd rfl (hne item)⟩
  | _ => exact ⟨nofun, fun _ => rfl⟩

theorem received_recv {t : Timed} (h : p.timed.step latest config .recv = some t) :
    t.session.outbound.received.length = p.timed.session.outbound.received.length + 1 := by
  obtain ⟨-, hsession⟩ := Option.ite_none_right_eq_some.mp h
  obtain ⟨s, hs, rfl⟩ := Option.map_eq_some_iff.mp hsession
  cases transition_of_step hs with
  | recv h => exact recv_received h

/-- An event is taken only while the queue is not polled first, and then it is the queue's turn. -/
theorem take_events {a : Action} (h : p.take latest config a = some q)
    (hfirst : p.place = .waiting → a.IsEvent = true → p.preferOutbound = false) :
    q.events + q.credit false + p.outbound.received.length ≤
      p.events + p.credit false + q.outbound.received.length := by
  obtain ⟨t, ht, rfl, hwaits, hgrown⟩ := take_cases h
  have hevents : (p.after a t).events = p.events + a.IsEvent.toNat := rfl
  have hreceived := hgrown.received.length_le
  by_cases hevent : a.IsEvent = true
  · obtain ⟨hwaiting, hover⟩ := hwaits.of_event hevent
    have hcredit := credit_over (a := a) hwaiting hover false
    rw [hfirst hwaiting hevent] at hcredit
    rw [hevents, hevent, credit_waiting hwaiting, hfirst hwaiting hevent]
    simp only [bne_self_eq_false, Bool.toNat_false, Nat.le_zero] at hcredit
    simp only [hcredit, beq_self_eq_true, Bool.toNat_true]
    omega
  · have hquiet : a.IsEvent = false := Bool.eq_false_iff.mpr hevent
    rw [hevents, hquiet, Bool.toNat_false, Nat.add_zero]
    by_cases hpush : p.place = .waiting ∧ a = .recv
    · obtain ⟨hwaiting, rfl⟩ := hpush
      have hcredit := credit_le_one (p.after .recv t) false
      have htaken := received_recv ht
      change _ ≤ _ + _ + t.session.outbound.received.length
      rw [htaken]
      change _ + _ + p.timed.session.outbound.received.length ≤ _
      omega
    · have hcredit := credit_quiet hwaits hquiet (fun hp ha => hpush ⟨hp, ha⟩) false
      omega

/-- While a frame is there, an item is taken only while the queue is polled first, and then it is
the client's turn. -/
theorem take_pushes {a : Action} (h : p.take latest config a = some q)
    (hready : p.timed.arrivals.ready p.timed.now = true)
    (hfirst : p.place = .waiting → a = .recv → p.preferOutbound = true) :
    q.pushes + q.credit true + q.frames.length ≤ p.pushes + p.credit true + p.frames.length := by
  obtain ⟨t, ht, rfl, hwaits, -⟩ := take_cases h
  have hpushes : (p.after a t).pushes =
    p.pushes + (decide (p.place = .waiting) && a.Raced && !a.IsEvent).toNat := rfl
  have hframes : (p.after a t).frames = t.arrivals.frames := rfl
  have harrivals := arrivals_step ht
  by_cases hevent : a.IsEvent = true
  · obtain ⟨hwaiting, hover⟩ := hwaits.of_event hevent
    have hcredit := credit_le_one (p.after a t) true
    have hread : t.arrivals.frames.length + 1 = p.frames.length := by
      cases a with
      | inbound item =>
        have hne : p.timed.arrivals.frames ≠ [] := by
          intro hnil
          rw [Arrivals.ready, hnil] at hready
          cases hready
        rw [harrivals.1 item rfl, Arrivals.rest, List.length_tail]
        exact Nat.sub_add_cancel (List.length_pos_iff.mpr hne)
      | timer =>
        obtain ⟨hadmits, -⟩ := Option.ite_none_right_eq_some.mp ht
        rw [Timed.admits, hready] at hadmits
        cases hadmits
      | _ => cases hevent
    rw [hpushes, hevent, Bool.not_true, Bool.and_false, Bool.toNat_false, hframes]
    omega
  · have hquiet : a.IsEvent = false := Bool.eq_false_iff.mpr hevent
    have hsame : t.arrivals = p.timed.arrivals :=
      harrivals.2 fun item hitem => hevent (hitem ▸ rfl)
    rw [hframes, hsame]
    change _ ≤ _ + _ + p.timed.arrivals.frames.length
    by_cases hpush : p.place = .waiting ∧ a = .recv
    · obtain ⟨hwaiting, rfl⟩ := hpush
      have hcredit := credit_over (a := .recv) hwaiting (hwaits.of_recv hwaiting) true
      rw [hfirst hwaiting rfl] at hcredit
      rw [hpushes, credit_waiting hwaiting, hfirst hwaiting rfl]
      simp only [bne_self_eq_false, Bool.toNat_false, Nat.le_zero] at hcredit
      simp only [hcredit, hwaiting, decide_true, Action.Raced, Action.IsEvent, Bool.not_false,
        Bool.and_self, beq_self_eq_true, Bool.toNat_true]
      omega
    · have hcredit := credit_quiet hwaits hquiet (fun hp ha => hpush ⟨hp, ha⟩) true
      have hnone : (decide (p.place = .waiting) && a.Raced && !a.IsEvent) = false := by
        by_cases hp : p.place = .waiting
        · cases a with
          | recv => exact absurd ⟨hp, rfl⟩ hpush
          | _ => cases hp' : decide (p.place = .waiting) <;> rfl
        · rw [decide_eq_false hp]
          rfl
      rw [hpushes, hnone, Bool.toNat_false]
      omega

theorem take_of_step {a : PolledAction} (h : p.step latest config a = some q) :
    q = p ∨ ∃ a, p.take latest config a = some q ∧
      (p.place = .waiting → a.Raced = true → p.race = some a) := by
  cases a with
  | poll =>
    obtain ⟨hwaiting, h⟩ := Option.ite_none_right_eq_some.mp h
    split at h
    · exact .inl (Option.some.inj h).symm
    · next a hrace => exact .inr ⟨a, h, fun _ _ => hrace⟩
  | act a =>
    obtain ⟨hnot, h⟩ := Option.ite_none_left_eq_some.mp h
    exact .inr ⟨a, h, fun hwaiting hraced => absurd ⟨hwaiting, hraced⟩ hnot⟩

theorem race_event {a : Action} (h : p.race = some a) (hevent : a.IsEvent = true)
    (hqueue : p.outbound.queue ≠ []) : p.preferOutbound = false := by
  obtain ⟨item, queue, hcons⟩ := List.exists_cons_of_ne_nil hqueue
  have houtbound : p.timed.pollOutbound = some .recv := by
    rw [Timed.pollOutbound, show p.timed.session.outbound.queue = item :: queue from hcons]
    rfl
  cases hprefer : p.preferOutbound with
  | false => rfl
  | true =>
    rw [race, race2Alternating, hprefer, houtbound] at h
    obtain rfl := Option.some.inj h
    cases hevent

theorem isEvent_of_pollInbound {t : Timed} {a : Action} (h : t.pollInbound = some a) :
    a.IsEvent = true := by
  obtain ⟨w, hw, rfl⟩ := Option.map_eq_some_iff.mp h
  rcases Option.or_eq_some_iff.mp hw with hw | ⟨-, hw⟩
  · obtain ⟨b, hb, rfl⟩ := Option.map_eq_some_iff.mp hw
    obtain ⟨frame, -, rfl⟩ := Option.map_eq_some_iff.mp hb
    rfl
  · obtain ⟨b, hb, rfl⟩ := Option.map_eq_some_iff.mp hw
    obtain ⟨leg, -, rfl⟩ := Option.map_eq_some_iff.mp hb
    rfl

theorem isSome_pollInbound {t : Timed} (h : t.arrivals.ready t.now = true) :
    t.pollInbound.isSome = true := by
  rw [Arrivals.ready] at h
  rw [Timed.pollInbound, race2, Timed.pollNext]
  cases hhead : t.arrivals.frames.head? with
  | none =>
    rw [hhead] at h
    cases h
  | some frame =>
    rw [hhead, Option.any_some] at h
    rw [Option.filter_some, h]
    rfl

theorem race_recv (h : p.race = some .recv) (hready : p.timed.arrivals.ready p.timed.now = true) :
    p.preferOutbound = true := by
  obtain ⟨a, ha⟩ := Option.isSome_iff_exists.mp (isSome_pollInbound hready)
  cases hprefer : p.preferOutbound with
  | true => rfl
  | false =>
    rw [race, race2Alternating, hprefer, ha] at h
    obtain rfl := Option.some.inj h
    exact absurd (isEvent_of_pollInbound ha) (by decide)

/-- A poll is pending only when there is nothing to take. -/
theorem nothing_of_race (h : p.race = none) :
    p.outbound.queue = [] ∧ p.timed.arrivals.ready p.timed.now = false := by
  have hnone : p.timed.pollInbound = none ∧ p.timed.pollOutbound = none := by
    rw [race, Option.map_eq_none_iff, race2Alternating] at h
    split at h <;> simp only [Option.or_eq_none_iff, Option.map_eq_none_iff] at h
    · exact h.symm
    · exact h
  refine ⟨?_, ?_⟩
  · have hqueue := hnone.2
    rw [Timed.pollOutbound, Option.map_eq_none_iff, List.head?_eq_none_iff] at hqueue
    exact hqueue
  · rw [Bool.eq_false_iff]
    intro hready
    have hsome := isSome_pollInbound hready
    rw [hnone.1] at hsome
    cases hsome

/-- A run of polls is a run of the session with its client. -/
theorem timed_of_run {as : List PolledAction} (h : run (Polled.step latest config) as p = some q) :
    ∃ bs, run (Timed.step latest config) bs p.timed = some q.timed := by
  induction as generalizing p with
  | nil =>
    cases h
    exact ⟨[], rfl⟩
  | cons a as ih =>
    obtain ⟨r, hr, hrun⟩ := run_cons h
    obtain ⟨bs, hbs⟩ := ih hrun
    rcases take_of_step hr with rfl | ⟨b, htake, -⟩
    · exact ⟨bs, hbs⟩
    · obtain ⟨t, ht, rfl, -⟩ := take_cases htake
      refine ⟨b :: bs, ?_⟩
      rw [run, ht]
      exact hbs

theorem session_of_run {as : List Action} {t t' : Timed}
    (h : run (Timed.step latest config) as t = some t') :
    run (Session.step latest config) as t.session = some t'.session := by
  induction as generalizing t with
  | nil =>
    cases h
    rfl
  | cons a as ih =>
    obtain ⟨u, hu, hrun⟩ := run_cons h
    obtain ⟨-, hu⟩ := Option.ite_none_right_eq_some.mp hu
    obtain ⟨s, hs, rfl⟩ := Option.map_eq_some_iff.mp hu
    rw [run, hs]
    exact ih hrun

structure Goes (p q : Polled) : Prop where
  grown : Grown p.outbound q.outbound
  frames : q.frames <:+ p.frames
  now : p.timed.now ≤ q.timed.now

theorem goes_rfl : Goes p p := ⟨grown_rfl, List.suffix_rfl, le_rfl⟩

theorem Goes.trans {r : Polled} (h : Goes p r) (h' : Goes r q) : Goes p q :=
  ⟨h.grown.trans h'.grown, h'.frames.trans h.frames, h.now.trans h'.now⟩

theorem goes_step {a : PolledAction} (h : p.step latest config a = some q) : Goes p q := by
  rcases take_of_step h with rfl | ⟨b, htake, -⟩
  · exact goes_rfl
  · obtain ⟨t, ht, rfl, -, hgrown⟩ := take_cases htake
    have harrivals := arrivals_step ht
    obtain ⟨-, hsession⟩ := Option.ite_none_right_eq_some.mp ht
    obtain ⟨s, hs, rfl⟩ := Option.map_eq_some_iff.mp hsession
    refine ⟨hgrown, ?_, (step_moved hs).now_le⟩
    by_cases hinbound : ∃ item, b = .inbound item
    · obtain ⟨item, hitem⟩ := hinbound
      change (p.timed.after b s).arrivals.frames <:+ _
      rw [harrivals.1 item hitem]
      exact List.tail_suffix _
    · change (p.timed.after b s).arrivals.frames <:+ _
      rw [harrivals.2 fun item hitem => hinbound ⟨item, hitem⟩]
      exact List.suffix_rfl

theorem goes_run {as : List PolledAction} (h : run (Polled.step latest config) as p = some q) :
    Goes p q :=
  run_invariant (Goes p) (fun _ _ _ _ hgoes hstep => hgoes.trans (goes_step hstep)) goes_rfl h

theorem invariant_of_step {a : PolledAction} (hp : p.timed.session.Invariant config)
    (h : p.step latest config a = some q) : q.timed.session.Invariant config := by
  rcases take_of_step h with rfl | ⟨b, htake, -⟩
  · exact hp
  · obtain ⟨t, ht, rfl, -⟩ := take_cases htake
    obtain ⟨-, hsession⟩ := Option.ite_none_right_eq_some.mp ht
    obtain ⟨s, hs, rfl⟩ := Option.map_eq_some_iff.mp hsession
    exact hp.step hs

theorem queue_ne_nil (hp : p.timed.session.Invariant config) (hwaiting : p.place = .waiting)
    (hless : p.outbound.received.length < p.outbound.committed.length) : p.outbound.queue ≠ [] := by
  have hphase : p.timed.session.phase = .waiting := phase_of_waiting hwaiting
  have hfits := hp.fits
  rw [hphase] at hfits
  have hattached : p.outbound.receiver ≠ .dropped := by
    rw [show p.outbound.receiver = .attached from hfits.1.1.attached]
    nofun
  intro hnil
  have hcommitted : p.outbound.committed = p.outbound.received ++ p.outbound.queue :=
    hp.base.outbound.ordered.queued hattached
  rw [hcommitted, hnil, List.append_nil] at hless
  exact lt_irrefl _ hless

theorem events_run {as : List PolledAction} (hp : p.timed.session.Invariant config)
    (h : run (Polled.step latest config) as p = some q)
    (hqueued : q.outbound.received.length < p.outbound.committed.length) :
    q.events + q.credit false + p.outbound.received.length ≤
      p.events + p.credit false + q.outbound.received.length := by
  induction as generalizing p with
  | nil =>
    cases h
    exact le_rfl
  | cons a as ih =>
    obtain ⟨r, hr, hrun⟩ := run_cons h
    have hfirst := goes_step hr
    have hlater := goes_run hrun
    have hrest := ih (invariant_of_step hp hr) hrun
      (hqueued.trans_le hfirst.grown.committed.length_le)
    rcases take_of_step hr with rfl | ⟨b, htake, hrace⟩
    · exact hrest
    · have hstep := take_events htake fun hwaiting hevent => by
        have hraced : b.Raced = true := by cases b <;> first | rfl | cases hevent
        refine race_event (hrace hwaiting hraced) hevent (queue_ne_nil hp hwaiting ?_)
        exact ((hfirst.trans hlater).grown.received.length_le).trans_lt hqueued
      omega

theorem pushes_run {as : List PolledAction} (h : run (Polled.step latest config) as p = some q)
    {frame : ℕ × Option (Except StreamError Message)} (hframe : frame ∈ q.frames)
    (harrived : frame.1 ≤ p.timed.now) :
    q.pushes + q.credit true + q.frames.length ≤ p.pushes + p.credit true + p.frames.length := by
  induction as generalizing p with
  | nil =>
    cases h
    exact le_rfl
  | cons a as ih =>
    obtain ⟨r, hr, hrun⟩ := run_cons h
    have hfirst := goes_step hr
    have hrest := ih hrun (harrived.trans hfirst.now)
    rcases take_of_step hr with rfl | ⟨b, htake, hrace⟩
    · exact hrest
    · have hready : p.timed.arrivals.ready p.timed.now = true :=
        Arrivals.ready_of_mem ((hfirst.trans (goes_run hrun)).frames.subset hframe) harrived
      have hstep := take_pushes htake hready fun hwaiting hrecv =>
        race_recv (hrecv ▸ hrace hwaiting (hrecv ▸ rfl)) hready
      omega

end Polled

section Law
variable {latest : ℕ} {config : Config}

/-- The polls make runs of the session, and neither the client nor a timer nor a sender starves:
while an item is queued there is at most one event more than items taken, and while a frame of
the client is there at most one push more than frames read. -/
theorem fair_law {now : ℕ} {arrivals : Arrivals} {before after : List PolledAction} {p q : Polled}
    (hbefore : run (Polled.step latest config) before (.new config now arrivals) = some p)
    (hafter : run (Polled.step latest config) after p = some q) :
    (∃ as, run (Timed.step latest config) as (.new config now arrivals) = some q.timed ∧
      run (Session.step latest config) as (.new config now) = some q.timed.session) ∧
    (q.outbound.received.length < p.outbound.committed.length →
      q.events + p.outbound.received.length ≤ p.events + q.outbound.received.length + 1) ∧
    (∀ frame ∈ q.frames, frame.1 ≤ p.timed.now →
      q.pushes + q.frames.length ≤ p.pushes + p.frames.length + 1) ∧
    (q.place = .waiting → q.race = none →
      q.outbound.queue = [] ∧ q.timed.arrivals.ready q.timed.now = false) := by
  have hrun : run (Polled.step latest config) (before ++ after) (.new config now arrivals) = some q := by
    rw [run_append, hbefore]
    exact hafter
  obtain ⟨as, has⟩ := Polled.timed_of_run hrun
  obtain ⟨bs, hbs⟩ := Polled.timed_of_run hbefore
  have hinvariant : p.timed.session.Invariant config := session_run (Polled.session_of_run hbs)
  refine ⟨⟨as, has, Polled.session_of_run has⟩, fun hqueued => ?_, fun frame hframe harrived => ?_,
    fun _ hnone => Polled.nothing_of_race hnone⟩
  · have hbound := Polled.events_run hinvariant hafter hqueued
    have hcredit := p.credit_le_one false
    omega
  · have hbound := Polled.pushes_run hafter hframe harrived
    have hcredit := p.credit_le_one true
    omega

def flood : Arrivals :=
  ⟨List.replicate 3 (0, some (.ok (.ping []))), List.pairwise_replicate.mpr (.inr le_rfl)⟩

/-- A first frame is read, and a push is queued. -/
def floodBefore : List PolledAction :=
  [.act .go, .act .go, .poll, .act (.sender (.start 0 (.trySend (.text "a")))),
    .act (.sender (.go 0))]

/-- The second frame is read before the push, and the third one is not. -/
theorem fair_law_flood :
    ∃ p q r, run (Polled.step 0 sampleConfig) floodBefore (.new sampleConfig 0 flood) = some p ∧
      run (Polled.step 0 sampleConfig) [.act .go, .poll, .act .go] p = some q ∧
      q.events = p.events + 1 ∧ q.outbound.received.length < p.outbound.committed.length ∧
      q.events + p.outbound.received.length ≤ p.events + q.outbound.received.length + 1 ∧
      q.step 0 sampleConfig .poll = some r ∧ r.outbound.queue = [] := by
  refine ⟨_, _, _, rfl, rfl, rfl, by decide, ?_, rfl, rfl⟩
  have hlaw := fair_law (show run (Polled.step 0 sampleConfig) floodBefore
    (.new sampleConfig 0 flood) = some _ from rfl) (show run (Polled.step 0 sampleConfig)
    [.act .go, .poll, .act .go] _ = some _ from rfl)
  exact hlaw.2.1 (by decide)

end Law

end FandheBackend.WsSession
