import FandheBackend.WsSessionKeepalive

set_option autoImplicit false

namespace FandheBackend.WsSession
open StdBytes ActionRuns WsSender

/-- The recommended configuration: a Ping and the wait for its Pong fit into the idle timeout. -/
structure Config.Recommended (config : Config) (p : PingKeepalive) (idle : ℕ) : Prop where
  ping : config.ping = some p
  idleTimeout : config.idleTimeout = some idle
  fits : p.interval + p.pongTimeout < idle

def Place.InLoop : Place → Prop
  | .opening | .left => False
  | _ => True

namespace Watch

/-- Time passes while the session waits or serves a frame, and a timer that it waits for fires
when it is due; everything else it does at once. -/
def punctual (w : Watch) : Action → Bool
  | .tick d =>
    match w.place with
    | .waiting => w.clock.timerLeg.all fun leg => w.clock.now + d ≤ leg.1
    | .top | .pinging _ | .pushing => d = 0
    | _ => true
  | _ => true

/-- When a Ping has been sent, its Pong is still to be read and arrives within the timeout. -/
def answers (config : Config) (w : Watch) (a : Action) : Bool :=
  match a, w.place, config.ping with
  | .sendDone (.ok ()), .pinging payload, some p =>
    w.arrivals.frames.any fun frame =>
      decide (frame.1 ≤ w.clock.now + p.pongTimeout) &&
        decide (frame.2 = some (.ok (.pong payload)))
  | _, _, _ => true

/-- The next Ping and the unanswered one are no later than an interval after the last frame was
done with. -/
structure Paced (latest : ℕ) (p : PingKeepalive) (idle : ℕ) (w : Watch) : Prop where
  keepalive : ∃ k, w.clock.keepalive = some k ∧ k.nextPingAt ≤ w.clock.now + p.interval ∧
    (k.pending = none → w.place ≠ .serving →
      k.nextPingAt ≤ w.processedAt + p.interval ∧ w.clock.now ≤ w.processedAt + p.interval)
  sent : ∀ ping ∈ w.unanswered, ping.1 ≤ w.processedAt + p.interval
  fits : w.processedAt + idle ≤ latest

end Watch

namespace Timed

def punctual (t : Timed) (a : Action) : Bool := t.watch.punctual a

def answers (config : Config) (t : Timed) (a : Action) : Bool := t.watch.answers config a

end Timed

theorem checkedDeadline_le {latest now : ℕ} (hnow : now ≤ latest) (duration : ℕ) :
    checkedDeadline latest now duration ≤ now + duration := by
  by_cases h : now + duration ≤ latest
  · exact (checkedDeadline_eq h).le
  · have hsaturates := checkedDeadline_saturates hnow (Nat.lt_of_not_le h)
    omega

section
variable {latest : ℕ} {config : Config} {p : PingKeepalive} {idle : ℕ} {w w' : Watch} {a : Action}

theorem Clock.timerLeg_le {c : Clock} {k : Keepalive} (hk : c.keepalive = some k) :
    ∃ leg, c.timerLeg = some leg ∧ leg.1 ≤ k.timerLeg.1 := by
  unfold Clock.timerLeg
  rw [hk]
  cases c.idleDeadline with
  | none => exact ⟨k.timerLeg, rfl, le_rfl⟩
  | some deadline =>
    simp only [Option.map_some]
    split
    · next hle => exact ⟨_, rfl, hle⟩
    · exact ⟨_, rfl, le_rfl⟩

/-- While the session waits, no time passes beyond the deadline of the keepalive. -/
theorem Watch.now_le_of_punctual {d : ℕ} (hp : w.place.InLoop) (hserving : w.place ≠ .serving)
    (h : w.punctual (.tick d) = true) {k : Keepalive} (hk : w.clock.keepalive = some k) :
    d = 0 ∨ w.clock.now + d ≤ k.timerLeg.1 := by
  cases hplace : w.place with
  | opening | left =>
    rw [hplace] at hp
    exact hp.elim
  | serving => exact absurd hplace hserving
  | waiting =>
    obtain ⟨leg, hleg, hle⟩ := Clock.timerLeg_le hk
    simp only [Watch.punctual, hplace, hleg, Option.all_some, decide_eq_true_eq] at h
    exact .inr (h.trans hle)
  | top | pinging | pushing =>
    simp only [Watch.punctual, hplace, decide_eq_true_eq] at h
    exact .inl h

theorem Watch.Paced.tick (h : w.Paced latest p idle) (hp : w.place.InLoop) {d : ℕ}
    (hpunctual : w.punctual (.tick d) = true) :
    Watch.Paced latest p idle { w with clock := { w.clock with now := w.clock.now + d } } := by
  obtain ⟨k, hk, hnext, hcalm⟩ := h.keepalive
  refine ⟨⟨k, hk, hnext.trans (by simp only; omega), fun hnone hserving => ?_⟩, h.sent, h.fits⟩
  obtain ⟨hnext', hnow⟩ := hcalm hnone hserving
  refine ⟨hnext', ?_⟩
  rcases Watch.now_le_of_punctual hp hserving hpunctual hk with rfl | hle
  · exact hnow
  · rcases k.timerLeg_cases with ⟨x, hx, -⟩ | ⟨-, hleg⟩
    · rw [hnone] at hx
      cases hx
    · rw [hleg] at hle
      exact hle.trans hnext'

theorem paced_processed (hidle : config.idleTimeout = some idle)
    (hkeepalive : ∃ k, w.clock.keepalive = some k ∧ k.nextPingAt ≤ w.clock.now + p.interval)
    (hsent : ∀ ping ∈ w.unanswered, ping.1 ≤ w.clock.now)
    (hp : (w.processed latest config).place.InLoop) :
    (w.processed latest config).Paced latest p idle := by
  obtain ⟨k, hk, hnext⟩ := hkeepalive
  have hcases := w.clock.processed_cases latest config
  unfold Watch.processed at hp ⊢
  rcases hcases with heq | ⟨heq, hfits⟩ <;> rw [heq] at hp ⊢
  · exact hp.elim
  · exact ⟨⟨k, hk, hnext, fun _ _ => ⟨hnext, Nat.le_add_right _ _⟩⟩,
      fun ping hping => (hsent ping hping).trans (Nat.le_add_right _ _), hfits idle hidle⟩

theorem Watch.Paced.moved (h : w.Paced latest p idle) (hserving : w.place ≠ .serving)
    (hkeepalive : w'.clock.keepalive = w.clock.keepalive) (hnow : w'.clock.now = w.clock.now)
    (hunanswered : w'.unanswered = w.unanswered) (hprocessedAt : w'.processedAt = w.processedAt) :
    w'.Paced latest p idle := by
  obtain ⟨k, hk, hnext, hcalm⟩ := h.keepalive
  refine ⟨⟨k, hkeepalive.trans hk, ?_, fun hnone _ => ?_⟩, ?_, ?_⟩
  · rw [hnow]
    exact hnext
  · rw [hnow, hprocessedAt]
    exact hcalm hnone hserving
  · rw [hunanswered, hprocessedAt]
    exact h.sent
  · rw [hprocessedAt]
    exact h.fits

theorem Watch.Pings.sent_le (h : w.Pings latest config) :
    ∀ ping ∈ w.unanswered, ping.1 ≤ w.clock.now := by
  rcases h.waits with ⟨-, hnil⟩ | ⟨x, sent, _, -, hsent, hle, -⟩
  · simp [hnil]
  · simpa [hsent] using hle

theorem mem_unansweredAfter {unanswered : List (ℕ × Bytes)} {ping : ℕ × Bytes}
    {item : Option (Except StreamError Message)} (h : ping ∈ unansweredAfter unanswered item) :
    ping ∈ unanswered ∧ item ≠ some (.ok (.pong ping.2)) := by
  unfold unansweredAfter at h
  split at h
  · next payload =>
    obtain ⟨hmem, hne⟩ := List.mem_filter.mp h
    refine ⟨hmem, ?_⟩
    rintro ⟨⟩
    simp at hne
  · next hpong =>
    refine ⟨h, ?_⟩
    rintro rfl
    exact hpong _ rfl

theorem Watch.Paced.step (hconfig : config.Recommended p idle) (hpings : w.Pings latest config)
    (h : w.place.InLoop → w.Paced latest p idle)
    (hpunctual : w.punctual a = true) (hstep : Watched latest config a w w')
    (hp' : w'.place.InLoop) : w'.Paced latest p idle := by
  have hinside : ∀ {q : Place}, w.place = q → q.InLoop → q ≠ .serving →
      w.Paced latest p idle ∧ w.place ≠ .serving := by
    rintro q rfl hq hserving
    exact ⟨h hq, hserving⟩
  cases hstep with
  | tick => exact (h hp').tick hp' hpunctual
  | stay => exact h hp'
  | leave | hungUp | expired => exact hp'.elim
  | opened hp =>
    refine paced_processed hconfig.idleTimeout ?_ ?_ hp'
    · exact ⟨_, by rw [hconfig.ping]; rfl, checkedDeadline_le hpings.now_le _⟩
    · have hnil := hpings.unanswered_nil (hpings.opening_pending hp)
      simp [hnil]
  | rest hp | taken hp | pushed hp | due hp =>
    obtain ⟨hpaced, hserving⟩ := hinside hp trivial (by rintro ⟨⟩)
    exact hpaced.moved hserving rfl rfl rfl rfl
  | data hp =>
    obtain ⟨hpaced, hserving⟩ := hinside hp trivial (by rintro ⟨⟩)
    exact hpaced.moved hserving rfl rfl rfl rfl
  | @ping _ k hp hk hdue =>
    obtain ⟨hpaced, hserving⟩ := hinside hp trivial (by rintro ⟨⟩)
    obtain ⟨k', hk', hnext, hcalm⟩ := hpaced.keepalive
    cases hk.symm.trans hk'
    exact ⟨⟨_, rfl, hnext, fun hnone _ => hcalm hnone hserving⟩, hpaced.sent, hpaced.fits⟩
  | @pinged _ payload hp =>
    obtain ⟨hpaced, hserving⟩ := hinside hp trivial (by rintro ⟨⟩)
    obtain ⟨k, hk, -, hcalm⟩ := hpaced.keepalive
    have hnone := (hpings.pinging payload hp).1
    have hknone : k.pending = none := by
      rw [Clock.pending, hk] at hnone
      exact hnone
    obtain ⟨p', hp', hinterval, -⟩ := hpings.known k hk
    cases hconfig.ping.symm.trans hp'
    refine ⟨⟨_, by rw [hk]; rfl, ?_, ?_⟩, ?_, hpaced.fits⟩
    · rw [← hinterval]
      exact checkedDeadline_le hpings.now_le _
    · rintro ⟨⟩
    · rw [hpings.unanswered_nil hnone, List.nil_append]
      simpa using (hcalm hknone hserving).2
  | @control _ m _ hp hm =>
    obtain ⟨hpaced, -⟩ := hinside hp trivial (by rintro ⟨⟩)
    obtain ⟨k, hk, hnext, -⟩ := hpaced.keepalive
    refine paced_processed hconfig.idleTimeout ?_ ?_ hp'
    · cases m with
      | pong payload =>
        refine ⟨_, by rw [Watch.hears, Clock.heard, hk]; rfl, ?_⟩
        rw [(onPong_same k payload).2.2]
        exact hnext
      | _ => exact ⟨k, hk, hnext⟩
    · intro ping hmem
      exact (hpings.sent_le ping (mem_unansweredAfter hmem).1).trans (w.clock.heard_now m).ge
  | served hp =>
    have hpaced := h (by rw [hp]; trivial)
    obtain ⟨k, hk, hnext, -⟩ := hpaced.keepalive
    exact paced_processed hconfig.idleTimeout ⟨k, hk, hnext⟩ hpings.sent_le hp'

theorem Watch.Paced.deadline_eq (hconfig : config.Recommended p idle)
    (hpings : w.Pings latest config) (h : w.Paced latest p idle) {x : PendingPing}
    (hx : w.clock.pending = some x) :
    ∃ sent, w.unanswered = [(sent, x.payload)] ∧ x.deadline = sent + p.pongTimeout ∧
      x.deadline ≤ w.processedAt + p.interval + p.pongTimeout := by
  obtain ⟨sent, p', hsent, -, hping', hdeadline⟩ := hpings.waiting hx
  cases hconfig.ping.symm.trans hping'
  have hlt := hconfig.fits
  have hle : sent ≤ w.processedAt + p.interval := by
    refine h.sent (sent, x.payload) ?_
    rw [hsent]
    exact List.mem_singleton_self _
  have hfits := h.fits
  have heq : x.deadline = sent + p.pongTimeout := by
    rw [hdeadline]
    exact checkedDeadline_eq (by omega)
  exact ⟨sent, hsent, heq, by omega⟩

theorem Watch.Paced.timerLeg_eq (hconfig : config.Recommended p idle)
    (hpings : w.Pings latest config) (hidles : w.Idles config) (h : w.Paced latest p idle)
    (hp : w.place.InLoop) (hserving : w.place ≠ .serving) :
    ∃ k, w.clock.keepalive = some k ∧ w.clock.timerLeg = some k.timerLeg ∧
      k.timerLeg.1 ≤ w.processedAt + p.interval + p.pongTimeout := by
  obtain ⟨k, hk, -, hcalm⟩ := h.keepalive
  have hbefore : k.timerLeg.1 ≤ w.processedAt + p.interval + p.pongTimeout := by
    rcases k.timerLeg_cases with ⟨x, hx, hleg⟩ | ⟨hnone, hleg⟩
    · obtain ⟨sent, -, -, hle⟩ := h.deadline_eq hconfig hpings (x := x)
        (by rw [Clock.pending, hk]; exact hx)
      rw [hleg]
      exact hle
    · rw [hleg]
      exact (hcalm hnone hserving).1.trans (Nat.le_add_right _ _)
  obtain ⟨⟨deadline, kind⟩, hleg, -⟩ := Clock.timerLeg_le hk
  rcases Clock.timerLeg_cases hleg with ⟨hdeadline, -, hle⟩ | ⟨k', hk', heq, -⟩
  · have hopening : w.place ≠ .opening := by
      intro heq
      rw [heq] at hp
      exact hp
    have hleft : w.place ≠ .left := by
      intro heq
      rw [heq] at hp
      exact hp
    rw [hidles.idle hopening hleft, hconfig.idleTimeout, Option.map_some, Option.some.injEq]
      at hdeadline
    have hlate := hle k hk
    have hlt := hconfig.fits
    omega
  · cases hk.symm.trans hk'
    exact ⟨k, hk, hleg.trans (congrArg some heq.symm), hbefore⟩

/-- The only timer that can end a paced session is the deadline of its unanswered Ping. -/
theorem Watch.Paced.expired (hconfig : config.Recommended p idle)
    (hpings : w.Pings latest config) (hidles : w.Idles config) (h : w.Paced latest p idle)
    (hp : w.place = .waiting) {deadline : ℕ} {kind : TimerKind}
    (hleg : w.clock.timerLeg = some (deadline, kind)) (hkind : kind ≠ .pingDue) :
    kind = .pongDeadline ∧ ∃ ping ∈ w.unanswered, deadline = ping.1 + p.pongTimeout := by
  obtain ⟨k, hk, hkleg, -⟩ := h.timerLeg_eq hconfig hpings hidles (by rw [hp]; trivial)
    (by rw [hp]; rintro ⟨⟩)
  have heq : (deadline, kind) = k.timerLeg := Option.some.inj (hleg.symm.trans hkleg)
  rcases k.timerLeg_cases with ⟨x, hx, hxleg⟩ | ⟨-, hnext⟩
  · obtain ⟨sent, hsent, hdeadline, -⟩ := h.deadline_eq hconfig hpings (x := x)
      (by rw [Clock.pending, hk]; exact hx)
    cases heq.trans hxleg
    exact ⟨rfl, (sent, x.payload), by rw [hsent]; exact List.mem_singleton_self _, hdeadline⟩
  · cases heq.trans hnext
    exact absurd rfl hkind

/-- The answers to the unanswered Pings are still to be read, and arrive within the timeout. -/
def Watch.Expects (p : PingKeepalive) (w : Watch) : Prop :=
  ∀ ping ∈ w.unanswered, ∃ arrival ≤ ping.1 + p.pongTimeout,
    (arrival, some (.ok (.pong ping.2))) ∈ w.arrivals.frames

theorem Watch.Expects.rest (h : w.Expects p) {item : Option (Except StreamError Message)}
    {arrival : ℕ} (hframe : w.arrivals.frames.head? = some (arrival, item)) :
    ∀ ping ∈ unansweredAfter w.unanswered item, ∃ arrival ≤ ping.1 + p.pongTimeout,
      (arrival, some (.ok (.pong ping.2))) ∈ w.arrivals.rest.frames := by
  intro ping hmem
  obtain ⟨hmem, hne⟩ := mem_unansweredAfter hmem
  obtain ⟨arrival', hle, hin⟩ := h ping hmem
  refine ⟨arrival', hle, ?_⟩
  obtain ⟨rest, hrest⟩ := List.head?_eq_some_iff.mp hframe
  rw [hrest, List.mem_cons] at hin
  change _ ∈ w.arrivals.frames.tail
  rw [hrest]
  rcases hin with heq | hin
  · exact absurd (congrArg (·.2) heq).symm hne
  · exact hin

theorem Watch.Expects.step (hconfig : config.Recommended p idle) (hpings : w.Pings latest config)
    (h : w.place ≠ .left → w.Expects p) (hanswers : w.answers config a = true)
    (hstep : Watched latest config a w w') (hp' : w'.place ≠ .left) : w'.Expects p := by
  cases hstep with
  | leave | hungUp | expired => exact absurd rfl hp'
  | tick | stay => exact h hp'
  | opened hp | rest hp | ping hp | taken hp | pushed hp | due hp | served hp =>
    exact h (by simp [hp])
  | @data _ m _ hp hm hframe =>
    have hrest := (h (by simp [hp])).rest hframe
    cases m with
    | text | binary => exact hrest
    | _ => exact hm.elim
  | control hp hm hframe => exact (h (by simp [hp])).rest hframe
  | @pinged _ payload hp =>
    intro ping hmem
    rw [hpings.unanswered_nil (hpings.pinging payload hp).1, List.nil_append,
      List.mem_singleton] at hmem
    subst hmem
    simp only [Watch.answers, hp, hconfig.ping, List.any_eq_true, Bool.and_eq_true, decide_eq_true_eq]
      at hanswers
    obtain ⟨⟨arrival, item⟩, hin, hle, rfl⟩ := hanswers
    exact ⟨arrival, hle, hin⟩

end

end FandheBackend.WsSession
