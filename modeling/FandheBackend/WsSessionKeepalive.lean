import FandheBackend.WsSessionTimed

set_option autoImplicit false

namespace FandheBackend.WsSession
open StdBytes ActionRuns WsSender

def Clock.pending (c : Clock) : Option PendingPing := c.keepalive.bind (·.pending)

/-- The Ping that the session waits for is the only unanswered one. -/
def Watch.Waits (latest : ℕ) (config : Config) (w : Watch) : Prop :=
  (w.clock.pending = none ∧ w.unanswered = []) ∨
    ∃ x sent p, w.clock.pending = some x ∧ w.unanswered = [(sent, x.payload)] ∧
      sent ≤ w.clock.now ∧ config.ping = some p ∧
      x.deadline = checkedDeadline latest sent p.pongTimeout

structure Watch.Pings (latest : ℕ) (config : Config) (w : Watch) : Prop where
  now_le : w.clock.now ≤ latest
  waits : w.Waits latest config
  known : ∀ k ∈ w.clock.keepalive,
    ∃ p, config.ping = some p ∧ k.interval = p.interval ∧ k.pongTimeout = p.pongTimeout
  pinging : ∀ payload, w.place = .pinging payload →
    w.clock.pending = none ∧ w.clock.keepalive.isSome = true
  opening : w.place = .opening → w.clock.keepalive = none

/-- The idle timeout counts from the end of the processing of the last frame. -/
structure Watch.Idles (config : Config) (w : Watch) : Prop where
  processedAt_le : w.processedAt ≤ w.clock.now
  idle : w.place ≠ .opening → w.place ≠ .left →
    w.clock.idleDeadline = config.idleTimeout.map (w.processedAt + ·)
  running : w.place ≠ .left → w.ended = none

section
variable {latest : ℕ} {config : Config} {w w' : Watch} {a : Action}

theorem Keepalive.pending_of_due {k : Keepalive} {now : ℕ} (h : k.due now = true) :
    k.pending = none := by
  rw [Keepalive.due, Bool.and_eq_true, Option.isNone_iff_eq_none] at h
  exact h.1

theorem Watch.Pings.unanswered_nil (h : w.Pings latest config) (hnone : w.clock.pending = none) :
    w.unanswered = [] := by
  rcases h.waits with ⟨-, hnil⟩ | ⟨x, _, _, hx, -⟩
  · exact hnil
  · rw [hnone] at hx
    cases hx

theorem Watch.Pings.waiting (h : w.Pings latest config) {x : PendingPing}
    (hx : w.clock.pending = some x) :
    ∃ sent p, w.unanswered = [(sent, x.payload)] ∧ sent ≤ w.clock.now ∧ config.ping = some p ∧
      x.deadline = checkedDeadline latest sent p.pongTimeout := by
  rcases h.waits with ⟨hnone, -⟩ | ⟨x', sent, p, hx', hwaiting⟩
  · rw [hx] at hnone
    cases hnone
  · cases hx.symm.trans hx'
    exact ⟨sent, p, hwaiting⟩

theorem Watch.Pings.opening_pending (h : w.Pings latest config) (hp : w.place = .opening) :
    w.clock.pending = none := by
  rw [Clock.pending, h.opening hp]
  rfl

theorem Watch.Pings.kept (h : w.Pings latest config)
    (hkeepalive : w'.clock.keepalive = w.clock.keepalive) (hunanswered : w'.unanswered = w.unanswered)
    (hnow : w.clock.now ≤ w'.clock.now) (hlatest : w'.clock.now ≤ latest)
    (hplace : w'.place = w.place ∨
      (∀ payload, w'.place ≠ .pinging payload) ∧ w'.place ≠ .opening) : w'.Pings latest config := by
  have hpending : w'.clock.pending = w.clock.pending := by
    rw [Clock.pending, hkeepalive, Clock.pending]
  refine ⟨hlatest, ?_, hkeepalive ▸ h.known, ?_, ?_⟩
  · rcases h.waits with ⟨hnone, hnil⟩ | ⟨x, sent, p, hx, hsent, hle, hp⟩
    · exact .inl ⟨hpending.trans hnone, hunanswered.trans hnil⟩
    · exact .inr ⟨x, sent, p, hpending.trans hx, hunanswered.trans hsent, hle.trans hnow, hp⟩
  · intro payload hpinging
    rw [hpending, hkeepalive]
    rcases hplace with hsame | ⟨hnot, -⟩
    · exact h.pinging payload (hsame ▸ hpinging)
    · exact absurd hpinging (hnot payload)
  · intro hopening
    rw [hkeepalive]
    rcases hplace with hsame | ⟨-, hnot⟩
    · exact h.opening (hsame ▸ hopening)
    · exact absurd hopening hnot

variable (latest config) in
theorem processed_place_cases (w : Watch) :
    (w.processed latest config).place = .left ∨ (w.processed latest config).place = .top := by
  rcases w.clock.processed_cases latest config with h | ⟨h, -⟩
  · exact .inl (congrArg (·.1) h)
  · exact .inr (congrArg (·.1) h)

variable (latest config) in
theorem processed_place (w : Watch) :
    (∀ payload, (w.processed latest config).place ≠ .pinging payload) ∧
      (w.processed latest config).place ≠ .opening := by
  rcases processed_place_cases latest config w with h | h <;> simp [h]

theorem processed_pending (w : Watch) :
    (w.processed latest config).clock.pending = w.clock.pending := by
  have hkeepalive := w.clock.processed_keepalive latest config
  rw [Clock.pending, Clock.pending, ← hkeepalive]
  rfl

theorem Watch.Pings.processed (h : w.Pings latest config) :
    (w.processed latest config).Pings latest config :=
  h.kept (Clock.processed_keepalive _ _ _) rfl (Clock.processed_now _).ge
    ((Clock.processed_now _).trans_le h.now_le) (.inr (processed_place _ _ w))

theorem Watch.Pings.opened (h : w.Pings latest config) (hp : w.place = .opening) :
    ({ w with clock := { w.clock with
      keepalive := config.ping.map (Keepalive.new latest w.clock.now) } }.processed latest
        config).Pings latest config := by
  have hkeepalive := Clock.processed_keepalive latest config
    { w.clock with keepalive := config.ping.map (Keepalive.new latest w.clock.now) }
  have hplace := processed_place latest config { w with clock :=
    { w.clock with keepalive := config.ping.map (Keepalive.new latest w.clock.now) } }
  have hnil := h.unanswered_nil (h.opening_pending hp)
  refine ⟨(Clock.processed_now _).trans_le h.now_le, .inl ⟨?_, hnil⟩, ?_,
    fun payload hpinging => absurd hpinging (hplace.1 payload),
    fun hopening => absurd hopening hplace.2⟩
  · change (Clock.processed latest config _).2.pending = none
    rw [Clock.pending, hkeepalive]
    cases config.ping <;> rfl
  · intro k hk
    change k ∈ (Clock.processed latest config _).2.keepalive at hk
    rw [hkeepalive] at hk
    obtain ⟨p, hp, rfl⟩ := Option.map_eq_some_iff.mp hk
    exact ⟨p, hp, rfl, rfl⟩

theorem onPong_pending (k : Keepalive) (payload : Bytes) :
    (k.onPong payload).pending = k.pending.filter (·.payload ≠ payload) := by
  unfold Keepalive.onPong
  cases hpending : k.pending with
  | none => simp [hpending]
  | some x => by_cases hx : x.payload = payload <;> simp [hx, hpending, Option.filter]

theorem heard_pending (c : Clock) (payload : Bytes) :
    (c.heard (.pong payload)).pending = c.pending.filter (·.payload ≠ payload) := by
  unfold Clock.heard Clock.pending
  cases c.keepalive with
  | none => rfl
  | some k => exact onPong_pending k payload

theorem onPong_same (k : Keepalive) (payload : Bytes) :
    (k.onPong payload).interval = k.interval ∧ (k.onPong payload).pongTimeout = k.pongTimeout ∧
      (k.onPong payload).nextPingAt = k.nextPingAt := by
  unfold Keepalive.onPong
  split <;> exact ⟨rfl, rfl, rfl⟩

/-- A Pong answers the Ping with its payload, for the session as for the observer. -/
theorem Watch.Pings.hears (h : w.Pings latest config) (hp : w.place = .waiting) {m : Message}
    (hm : m.IsControl) : (w.hears m).Pings latest config := by
  have hnot : (∀ payload, (w.hears m).place ≠ .pinging payload) ∧ (w.hears m).place ≠ .opening := by
    simp [Watch.hears, hp]
  cases m with
  | text | binary | close => exact hm.elim
  | ping | frame => exact h.kept rfl rfl le_rfl h.now_le (.inr hnot)
  | pong payload =>
    refine ⟨h.now_le, ?_, ?_, fun _ hpinging => absurd hpinging (hnot.1 _),
      fun hopening => absurd hopening hnot.2⟩
    · have hpending := heard_pending w.clock payload
      rcases h.waits with ⟨hnone, hnil⟩ | ⟨x, sent, p, hx, hsent, hle, hping, hdeadline⟩
      · refine .inl ⟨?_, ?_⟩
        · rw [Watch.hears, hpending, hnone]
          rfl
        · simp [Watch.hears, unansweredAfter, hnil]
      · by_cases hsame : x.payload = payload
        · refine .inl ⟨?_, ?_⟩
          · rw [Watch.hears, hpending, hx]
            simp [hsame]
          · simp [Watch.hears, unansweredAfter, hsent, hsame]
        · refine .inr ⟨x, sent, p, ?_, ?_, hle, hping, hdeadline⟩
          · rw [Watch.hears, hpending, hx]
            simp [hsame]
          · simp [Watch.hears, unansweredAfter, hsent, hsame]
    · intro k hk
      obtain ⟨k, hk', rfl⟩ := Option.map_eq_some_iff.mp hk
      obtain ⟨p, hping, hinterval, htimeout⟩ := h.known k hk'
      obtain ⟨hi, ht, -⟩ := onPong_same k payload
      exact ⟨p, hping, hi.trans hinterval, ht.trans htimeout⟩

theorem Watch.Pings.step (h : w.Pings latest config) (hstep : Watched latest config a w w') :
    w'.Pings latest config := by
  cases hstep with
  | tick hle => exact h.kept rfl rfl (Nat.le_add_right _ _) hle (.inl rfl)
  | stay => exact h
  | leave => exact h.kept rfl rfl le_rfl h.now_le (.inr ⟨by rintro _ ⟨⟩, by rintro ⟨⟩⟩)
  | opened hp => exact h.opened hp
  | rest | taken | pushed | data | hungUp | due | expired =>
    exact h.kept rfl rfl le_rfl h.now_le (.inr ⟨by rintro _ ⟨⟩, by rintro ⟨⟩⟩)
  | served => exact h.processed
  | control hp hm => exact (h.hears hp hm).processed
  | @ping _ k hp hk hdue =>
    have hnone := Keepalive.pending_of_due hdue
    have hpending : w.clock.pending = none := by rw [Clock.pending, hk, Option.bind_some, hnone]
    refine ⟨h.now_le, .inl ⟨hnone, h.unanswered_nil hpending⟩, ?_, fun _ _ => ⟨hnone, rfl⟩,
      by rintro ⟨⟩⟩
    rintro _ ⟨⟩
    exact h.known k hk
  | @pinged _ payload hp =>
    obtain ⟨hnone, hsome⟩ := h.pinging payload hp
    obtain ⟨k, hk⟩ := Option.isSome_iff_exists.mp hsome
    obtain ⟨p, hping, hinterval, htimeout⟩ := h.known k hk
    have hnil := h.unanswered_nil hnone
    refine ⟨h.now_le, .inr ⟨⟨checkedDeadline latest w.clock.now p.pongTimeout, payload⟩,
      w.clock.now, p, ?_, ?_, le_rfl, hping, rfl⟩, ?_, by rintro _ ⟨⟩, by rintro ⟨⟩⟩
    · simp only [Clock.pending, hk, Option.map_some, Option.bind_some, Keepalive.sent, htimeout]
    · simp only [hnil, List.nil_append]
    · intro k' hsent
      obtain ⟨k, hk', rfl⟩ := Option.map_eq_some_iff.mp hsent
      exact h.known k hk'

/-- The wait for a Pong ends with the payload of the Ping, and with nothing else. -/
theorem Watch.Pings.pong_ends (h : w.Pings latest config) (hstep : Watched latest config a w w')
    {x : PendingPing} (hx : w.clock.pending = some x) :
    w'.clock.pending = none ↔ a = .inbound (some (.ok (.pong x.payload))) := by
  have hkept : w'.clock.keepalive = w.clock.keepalive →
      a ≠ .inbound (some (.ok (.pong x.payload))) →
      (w'.clock.pending = none ↔ a = .inbound (some (.ok (.pong x.payload)))) := by
    intro hsame hnot
    refine iff_of_false ?_ hnot
    rw [Clock.pending, hsame, ← Clock.pending, hx]
    exact Option.some_ne_none x
  cases hstep with
  | tick | rest | taken | pushed | due | expired => exact hkept rfl (by rintro ⟨⟩)
  | stay hquiet | leave hquiet =>
    refine hkept rfl ?_
    rintro rfl
    exact hquiet
  | served _ hquiet =>
    refine hkept (Clock.processed_keepalive _ _ _) ?_
    rintro rfl
    exact hquiet
  | data _ hm =>
    refine hkept rfl ?_
    rintro ⟨⟩
    exact hm
  | hungUp _ hitem =>
    refine hkept rfl ?_
    rintro ⟨⟩
    exact (hitem _ rfl).1 trivial
  | opened hp =>
    rw [h.opening_pending hp] at hx
    cases hx
  | ping hp hk hdue =>
    rw [Clock.pending, hk, Option.bind_some, Keepalive.pending_of_due hdue] at hx
    cases hx
  | pinged hp =>
    rw [(h.pinging _ hp).1] at hx
    cases hx
  | @control _ m _ hp hm =>
    cases m with
    | text | binary | close => exact hm.elim
    | ping | frame => exact hkept (Clock.processed_keepalive _ _ _) (by rintro ⟨⟩)
    | pong payload =>
      have hsame : Action.inbound (some (.ok (.pong payload))) =
          .inbound (some (.ok (.pong x.payload))) ↔ x.payload = payload := by
        constructor
        · rintro ⟨⟩
          rfl
        · rintro rfl
          rfl
      rw [processed_pending, Watch.hears, heard_pending, hx, hsame]
      by_cases heq : x.payload = payload <;> simp [heq, Option.filter]

theorem idles_processed (hle : w.processedAt ≤ w.clock.now) (hended : w.ended = none) :
    (w.processed latest config).Idles config := by
  have hcases := w.clock.processed_cases latest config
  unfold Watch.processed
  rcases hcases with heq | ⟨heq, -⟩ <;> rw [heq]
  · exact ⟨hle, fun _ hleft => absurd rfl hleft, fun _ => hended⟩
  · exact ⟨le_rfl, fun _ _ => rfl, fun _ => hended⟩

theorem Watch.Idles.kept (h : w.Idles config) (hidle : w'.clock.idleDeadline = w.clock.idleDeadline)
    (hprocessedAt : w'.processedAt = w.processedAt) (hended : w'.ended = w.ended)
    (hnow : w.clock.now ≤ w'.clock.now)
    (hplace : w'.place ≠ .left → w.place ≠ .left ∧ (w'.place ≠ .opening → w.place ≠ .opening)) :
    w'.Idles config := by
  refine ⟨?_, ?_, ?_⟩
  · rw [hprocessedAt]
    exact h.processedAt_le.trans hnow
  · intro hopening hleft
    obtain ⟨hleft', hopening'⟩ := hplace hleft
    rw [hidle, hprocessedAt]
    exact h.idle (hopening' hopening) hleft'
  · intro hleft
    rw [hended]
    exact h.running (hplace hleft).1

theorem Watch.Idles.step (h : w.Idles config) (hstep : Watched latest config a w w') :
    w'.Idles config := by
  have hinside : ∀ {p q : Place}, w.place = p → p ≠ .left → p ≠ .opening → q ≠ .left →
      w.place ≠ .left ∧ (q ≠ .opening → w.place ≠ .opening) := by
    rintro p q rfl hleft hopening -
    exact ⟨hleft, fun _ => hopening⟩
  have hgone : ∀ {P : Prop}, (Place.left ≠ .left) → P := fun h => absurd rfl h
  cases hstep with
  | tick => exact h.kept rfl rfl rfl (Nat.le_add_right _ _) fun hleft => ⟨hleft, id⟩
  | stay => exact h
  | leave | hungUp => exact h.kept rfl rfl rfl le_rfl hgone
  | rest hp | ping hp | pinged hp | taken hp | pushed hp | data hp | due hp =>
    exact h.kept rfl rfl rfl le_rfl (hinside hp (by rintro ⟨⟩) (by rintro ⟨⟩))
  | expired => exact ⟨h.processedAt_le, fun _ hleft => hgone hleft, fun hleft => hgone hleft⟩
  | opened hp | served hp => exact idles_processed h.processedAt_le (h.running (by simp [hp]))
  | @control _ m _ hp =>
    refine idles_processed ?_ (h.running (by simp [hp]))
    exact h.processedAt_le.trans (w.clock.heard_now m).ge

theorem Clock.timerLeg_cases {c : Clock} {deadline : ℕ} {kind : TimerKind}
    (h : c.timerLeg = some (deadline, kind)) :
    (c.idleDeadline = some deadline ∧ kind = .idle ∧
        ∀ k ∈ c.keepalive, deadline ≤ k.timerLeg.1) ∨
      ∃ k ∈ c.keepalive, k.timerLeg = (deadline, kind) ∧
        ∀ idle ∈ c.idleDeadline, deadline < idle := by
  unfold Clock.timerLeg at h
  cases hidle : c.idleDeadline with
  | none =>
    rw [hidle] at h
    obtain ⟨k, hk, hleg⟩ := Option.map_eq_some_iff.mp h
    exact .inr ⟨k, hk, hleg, by rintro _ ⟨⟩⟩
  | some idle =>
    cases hkeepalive : c.keepalive with
    | none =>
      rw [hidle, hkeepalive] at h
      cases h
      exact .inl ⟨rfl, rfl, by rintro _ ⟨⟩⟩
    | some k =>
      rw [hidle, hkeepalive] at h
      simp only [Option.map_some, Option.some.injEq] at h
      split_ifs at h with hle
      · cases h
        refine .inl ⟨rfl, rfl, ?_⟩
        rintro _ ⟨⟩
        exact hle
      · refine .inr ⟨k, rfl, h, ?_⟩
        rintro _ ⟨⟩
        have hlt := Nat.lt_of_not_le hle
        rw [h] at hlt
        exact hlt

theorem Keepalive.timerLeg_cases (k : Keepalive) :
    (∃ x, k.pending = some x ∧ k.timerLeg = (x.deadline, .pongDeadline)) ∨
      k.pending = none ∧ k.timerLeg = (k.nextPingAt, .pingDue) := by
  unfold Keepalive.timerLeg
  cases k.pending with
  | none => exact .inr ⟨rfl, rfl⟩
  | some x => exact .inl ⟨x, rfl, rfl⟩

theorem Watch.Pings.expired (h : w.Pings latest config) {deadline : ℕ}
    (hleg : w.clock.timerLeg = some (deadline, .pongDeadline)) (hdeadline : deadline ≤ w.clock.now) :
    ∃ ping ∈ w.unanswered, ∃ p ∈ config.ping, ping.1 + p.pongTimeout ≤ w.clock.now ∨
      latest < ping.1 + p.pongTimeout ∧ latest < w.clock.now + 1000000000 := by
  rcases Clock.timerLeg_cases hleg with ⟨-, ⟨⟩, -⟩ | ⟨k, hk, hkleg, -⟩
  rcases k.timerLeg_cases with ⟨x, hx, hxleg⟩ | ⟨-, hnext⟩
  · cases hkleg.symm.trans hxleg
    have hpending : w.clock.pending = some x := by rw [Clock.pending, hk, Option.bind_some, hx]
    obtain ⟨sent, p, hsent, hle, hping, hxdeadline⟩ := h.waiting hpending
    refine ⟨_, by rw [hsent]; exact List.mem_singleton_self _, p, hping, ?_⟩
    rw [hxdeadline] at hdeadline
    by_cases hfits : sent + p.pongTimeout ≤ latest
    · rw [checkedDeadline_eq hfits] at hdeadline
      exact .inl hdeadline
    · have hsaturates := checkedDeadline_saturates (hle.trans h.now_le) (Nat.lt_of_not_le hfits)
      exact .inr ⟨Nat.lt_of_not_le hfits, by omega⟩
  · cases hkleg.symm.trans hnext

/-- Only a timer ends the session with a reason, and only when no frame has arrived. -/
theorem Watched.ended_cases (hstep : Watched latest config a w w') :
    w'.ended = w.ended ∨
      ∃ deadline kind, w.place = .waiting ∧ kind ≠ .pingDue ∧ w'.ended = some kind.reason ∧
        w.clock.timerLeg = some (deadline, kind) ∧ deadline ≤ w.clock.now ∧
        w.arrivals.ready w.clock.now = false := by
  cases hstep with
  | expired hp hkind hleg hle hready => exact .inr ⟨_, _, hp, hkind, rfl, hleg, hle, hready⟩
  | _ => exact .inl rfl

theorem Watched.ends (hstep : Watched latest config a w w') (hended : w.ended = none)
    {reason : CloseReason} (h : w'.ended = some reason) :
    ∃ deadline kind, w.place = .waiting ∧ kind ≠ .pingDue ∧ reason = kind.reason ∧
      w.clock.timerLeg = some (deadline, kind) ∧ deadline ≤ w.clock.now := by
  rcases hstep.ended_cases with hsame | ⟨deadline, kind, hp, hkind, hreason, hleg, hle, -⟩
  · rw [h, hended] at hsame
    cases hsame
  · exact ⟨deadline, kind, hp, hkind, Option.some.inj (h.symm.trans hreason), hleg, hle⟩

theorem Watched.idle_moves (hstep : Watched latest config a w w')
    (h : w'.clock.idleDeadline ≠ w.clock.idleDeadline) :
    w'.place = .top ∧ (w.place = .opening ∨ w.place = .serving ∨ ∃ item, a = .inbound item) := by
  have hprocessed : ∀ u : Watch, u.clock.idleDeadline = w.clock.idleDeadline →
      (u.processed latest config).clock.idleDeadline ≠ w.clock.idleDeadline →
      (u.processed latest config).place = .top := by
    intro u hu hmoved
    unfold Watch.processed at hmoved ⊢
    rcases u.clock.processed_cases latest config with heq | ⟨heq, -⟩
    · rw [heq] at hmoved
      exact absurd hu hmoved
    · rw [heq]
  cases hstep with
  | opened hp => exact ⟨hprocessed _ rfl h, .inl hp⟩
  | served hp => exact ⟨hprocessed _ rfl h, .inr (.inl hp)⟩
  | @control _ m =>
    refine ⟨hprocessed _ ?_ h, .inr (.inr ⟨_, rfl⟩)⟩
    cases m <;> rfl
  | _ => exact absurd rfl h

end

def Timed.pending (t : Timed) : Option PendingPing := t.session.timers.keepalive.bind (·.pending)

structure Timed.Lawful (config : Config) (t : Timed) : Prop where
  one_unanswered : t.unanswered.length ≤ 1
  waits : t.pending.map (·.payload) = t.unanswered.head?.map (·.2)
  idle : t.place ≠ .opening → t.place ≠ .left →
    t.session.timers.idleDeadline = config.idleTimeout.map (t.processedAt + ·)

/-- What a step may do to the wait for a Pong and to the idle deadline, and when a timer may end
the session. A deadline that the clock cannot hold stands in its last second. -/
structure Timed.LawfulStep (latest : ℕ) (config : Config) (t : Timed) (a : Action) (t' : Timed) :
    Prop where
  pong_ends : ∀ x ∈ t.pending, t'.pending = none ↔ a = .inbound (some (.ok (.pong x.payload)))
  pong_timeout : t.ended = none → t'.ended = some .pongTimeout →
    ∃ ping ∈ t.unanswered, ∃ p ∈ config.ping, ping.1 + p.pongTimeout ≤ t.now ∨
      latest < ping.1 + p.pongTimeout ∧ latest < t.now + 1000000000
  idle_timeout : t.ended = none → t'.ended = some .idleTimeout →
    ∃ idle ∈ config.idleTimeout, t.processedAt + idle ≤ t.now
  idle_moves : t'.session.timers.idleDeadline ≠ t.session.timers.idleDeadline →
    t'.place = .top ∧ (t.place = .opening ∨ t.place = .serving ∨ ∃ item, a = .inbound item)

section
variable {latest : ℕ} {config : Config} {t t' : Timed}

theorem new_pings {now : ℕ} (hnow : now ≤ latest) (arrivals : Arrivals) :
    (Timed.new config now arrivals).watch.Pings latest config :=
  ⟨hnow, .inl ⟨rfl, rfl⟩, by rintro _ ⟨⟩, by rintro _ ⟨⟩, fun _ => rfl⟩

theorem new_idles (now : ℕ) (arrivals : Arrivals) :
    (Timed.new config now arrivals).watch.Idles config :=
  ⟨le_rfl, fun hopening => absurd rfl hopening, fun _ => rfl⟩

theorem lawful_of_watch (hpings : t.watch.Pings latest config) (hidles : t.watch.Idles config) :
    t.Lawful config := by
  rcases hpings.waits with ⟨hnone, hnil⟩ | ⟨x, sent, p, hx, hsent, -⟩
  · refine ⟨?_, ?_, hidles.idle⟩
    · rw [show t.unanswered = [] from hnil]
      exact Nat.zero_le _
    · rw [show t.unanswered = [] from hnil, show t.pending = none from hnone]
      rfl
  · refine ⟨?_, ?_, hidles.idle⟩
    · rw [show t.unanswered = [(sent, x.payload)] from hsent]
      exact le_rfl
    · rw [show t.unanswered = [(sent, x.payload)] from hsent, show t.pending = some x from hx]
      rfl

theorem lawfulStep_of_watch {a : Action} (hpings : t.watch.Pings latest config)
    (hidles : t.watch.Idles config) (hstep : t.step latest config a = some t') :
    t.LawfulStep latest config a t' := by
  have hwatched := step_watched hstep
  refine ⟨fun x hx => hpings.pong_ends hwatched hx, fun hended h => ?_, fun hended h => ?_,
    fun h => hwatched.idle_moves h⟩
  · obtain ⟨deadline, kind, -, hkind, hreason, hleg, hle⟩ := hwatched.ends hended h
    cases kind with
    | idle => cases hreason
    | pingDue => exact absurd rfl hkind
    | pongDeadline => exact hpings.expired hleg hle
  · obtain ⟨deadline, kind, hp, hkind, hreason, hleg, hle⟩ := hwatched.ends hended h
    cases kind with
    | pongDeadline | pingDue => cases hreason
    | idle =>
      rcases Clock.timerLeg_cases hleg with ⟨hidle, -, -⟩ | ⟨k, -, hkleg, -⟩
      · rw [hidles.idle (by simp [hp]) (by simp [hp])] at hidle
        obtain ⟨idle, hsome, rfl⟩ := Option.map_eq_some_iff.mp hidle
        exact ⟨idle, hsome, hle⟩
      · rcases k.timerLeg_cases with ⟨x, -, hx⟩ | ⟨-, hnext⟩
        · cases hkleg.symm.trans hx
        · cases hkleg.symm.trans hnext

end

end FandheBackend.WsSession
