import FandheBackend.ActionRuns
import FandheBackend.AtomicCell
import FandheBackend.TaskCounts
import Mathlib.Algebra.BigOperators.Group.List.Basic

set_option autoImplicit false

/-!
# Data channels of one connection (`crates/plugin-webrtc/src/handler.rs`)

A data channel that arrives takes a permit of the limiter or is closed. The permit is held by the
task that echoes, and its drop gives the place back.
-/
namespace FandheBackend.WebRtcDataChannels
open ActionRuns TaskCounts

def usizeMax : ℕ := 2 ^ 64 - 1

/-- Where `on_data_channel` is with a channel. -/
inductive Channel where
  | absent
  | arrived
  -- In the loop of `try_acquire`, with the value to replace.
  | trying (current : ℕ)
  -- Over the limit: the channel is closed, the connection stays.
  | closed
  -- `echo_loop` runs, with the permit.
  | echoing
  | ended
  deriving DecidableEq, Repr

def Channel.holds : Channel → Bool
  | .echoing => true
  | _ => false

structure Connection where
  max : ℕ
  opened : AtomicCell ℕ
  channels : ℕ → Channel

inductive Action where
  | arrive (i : ℕ)
  | load (i age : ℕ)
  | exchange (i : ℕ)
  -- `compare_exchange_weak` may fail for no reason.
  | spurious (i : ℕ)
  -- The echo ends, or its task is dropped.
  | drop (i : ℕ)
  deriving DecidableEq, Repr

namespace Connection

def new (max : ℕ) : Connection := ⟨max, .new 0, fun _ => .absent⟩

def setChannel (s : Connection) (i : ℕ) (c : Channel) : Connection :=
  { s with channels := Function.update s.channels i c }

/-- The tests before the exchange: the limit, and `checked_add`. -/
def full (s : Connection) (current : ℕ) : Bool :=
  (s.max != 0 && s.max ≤ current) || current == usizeMax

def step (s : Connection) : Action → Option Connection
  | .arrive i => if s.channels i = .absent then some (s.setChannel i .arrived) else none
  | .load i age =>
    match s.channels i with
    | .arrived => (s.opened.load age).map fun current => s.setChannel i (.trying current)
    | _ => none
  | .exchange i =>
    match s.channels i with
    | .trying current =>
      if s.full current then some (s.setChannel i .closed)
      else
        let exchanged := s.opened.compareExchange current (current + 1)
        if exchanged.1 then some { s.setChannel i .echoing with opened := exchanged.2 }
        else some (s.setChannel i (.trying s.opened.latest))
    | _ => none
  | .spurious i =>
    match s.channels i with
    | .trying current =>
      if s.full current then none else some (s.setChannel i (.trying s.opened.latest))
    | _ => none
  | .drop i =>
    match s.channels i with
    | .echoing =>
      some { s.setChannel i .ended with
        opened := (s.opened.modify fun v => (v + (2 ^ 64 - 1)) % 2 ^ 64).2 }
    | _ => none

inductive Stepped (s : Connection) : Action → Connection → Prop
  | arrived (i : ℕ) : s.channels i = .absent → Stepped s (.arrive i) (s.setChannel i .arrived)
  | loaded (i age current : ℕ) : s.channels i = .arrived → s.opened.load age = some current →
      Stepped s (.load i age) (s.setChannel i (.trying current))
  | closed (i current : ℕ) : s.channels i = .trying current → s.full current = true →
      Stepped s (.exchange i) (s.setChannel i .closed)
  | opened (i : ℕ) : s.channels i = .trying s.opened.latest → s.full s.opened.latest = false →
      Stepped s (.exchange i) { s.setChannel i .echoing with
        opened := ⟨s.opened.latest + 1, s.opened.history⟩ }
  | again (i current : ℕ) (a : Action) : s.channels i = .trying current →
      a = .exchange i ∨ a = .spurious i → Stepped s a (s.setChannel i (.trying s.opened.latest))
  | dropped (i : ℕ) : s.channels i = .echoing →
      Stepped s (.drop i) { s.setChannel i .ended with
        opened := ⟨(s.opened.latest + (2 ^ 64 - 1)) % 2 ^ 64, s.opened.history⟩ }

theorem stepped_of_step {s s' : Connection} {a : Action} (h : s.step a = some s') : Stepped s a s' := by
  cases a with
  | arrive i =>
    simp only [step] at h
    split_ifs at h with habsent
    cases h
    exact .arrived i habsent
  | load i age =>
    simp only [step] at h
    cases hchannel : s.channels i <;> simp only [hchannel] at h <;> try cases h
    obtain ⟨current, hload, rfl⟩ := Option.map_eq_some_iff.mp h
    exact .loaded i age current hchannel hload
  | exchange i =>
    simp only [step] at h
    cases hchannel : s.channels i <;> simp only [hchannel] at h <;> try cases h
    rename_i current
    by_cases hfull : s.full current = true
    · rw [if_pos hfull] at h
      cases h
      exact .closed i current hchannel hfull
    · rw [if_neg hfull] at h
      by_cases hlatest : s.opened.latest = current
      · subst hlatest
        simp only [AtomicCell.compareExchange_latest, ↓reduceIte] at h
        cases h
        exact .opened i hchannel (by simpa using hfull)
      · simp only [AtomicCell.compareExchange_other hlatest, Bool.false_eq_true, ↓reduceIte] at h
        cases h
        exact .again i current _ hchannel (.inl rfl)
  | spurious i =>
    simp only [step] at h
    cases hchannel : s.channels i <;> simp only [hchannel] at h <;> try cases h
    rename_i current
    split_ifs at h
    cases h
    exact .again i current _ hchannel (.inr rfl)
  | drop i =>
    simp only [step] at h
    cases hchannel : s.channels i <;> simp only [hchannel] at h <;> cases h
    exact .dropped i hchannel

/-- How many channels may be open at once; a maximum of zero is none, but the counter has an end. -/
def limit (max : ℕ) : ℕ := if max = 0 then usizeMax else min max usizeMax

theorem full_iff (s : Connection) {current : ℕ} (h : current ≤ limit s.max) :
    s.full current = true ↔ current = limit s.max := by
  simp only [full, Bool.or_eq_true, Bool.and_eq_true, bne_iff_ne, decide_eq_true_eq, beq_iff_eq]
  unfold limit at h ⊢
  split_ifs at h ⊢ <;> omega

/-- Some value of the counter was too high for the channel. -/
def Explained (s : Connection) : Channel → Prop
  | .trying current => current ∈ s.opened.history
  | .closed => ∃ v ∈ s.opened.history, s.full v = true
  | _ => True

structure Invariant (max : ℕ) (s : Connection) : Prop where
  configured : s.max = max
  counted : Counted Channel.holds s.channels s.opened.latest
  bounded : s.opened.latest ≤ limit max
  explained : ∀ i, s.Explained (s.channels i)

theorem invariant_new (max : ℕ) : Invariant max (new max) :=
  ⟨rfl, counted_zero fun _ => rfl, Nat.zero_le _, fun _ => trivial⟩

theorem Explained.push {s t : Connection} {c : Channel} (h : s.Explained c) (hmax : t.max = s.max)
    (hhistory : s.opened.history ⊆ t.opened.history) : t.Explained c := by
  cases c with
  | trying current => exact hhistory h
  | closed =>
    obtain ⟨v, hv, hfull⟩ := h
    refine ⟨v, hhistory hv, ?_⟩
    rw [full, hmax]
    exact hfull
  | _ => trivial

theorem Invariant.setChannel {max : ℕ} {s : Connection} (h : Invariant max s) {i : ℕ} {c : Channel}
    (hold : (s.channels i).holds = false) (hnew : c.holds = false) (hc : s.Explained c) :
    Invariant max (s.setChannel i c) where
  configured := h.configured
  counted := h.counted.update (by rw [hold, hnew]; rfl)
  bounded := h.bounded
  explained j := by
    by_cases hij : j = i
    · subst hij
      simp only [Connection.setChannel, Function.update_self]
      exact hc.push rfl (List.Subset.refl _)
    · simp only [Connection.setChannel, Function.update_of_ne hij]
      exact (h.explained j).push rfl (List.Subset.refl _)

theorem explained_push {s : Connection} (h : ∀ i, s.Explained (s.channels i)) {i v : ℕ} {c : Channel}
    (hc : ∀ t : Connection, t.Explained c) (j : ℕ) :
    ({ s.setChannel i c with opened := ⟨v, s.opened.history⟩ } : Connection).Explained
      ((s.setChannel i c).channels j) := by
  by_cases hij : j = i
  · subst hij
    simpa only [Connection.setChannel, Function.update_self] using hc _
  · simp only [Connection.setChannel, Function.update_of_ne hij]
    exact (h j).push rfl (List.subset_cons_self _ _)

theorem Invariant.step {max : ℕ} {s s' : Connection} {a : Action} (h : Invariant max s)
    (hstep : s.step a = some s') : Invariant max s' := by
  cases stepped_of_step hstep with
  | arrived i habsent => exact h.setChannel (by rw [habsent]; rfl) rfl trivial
  | loaded i age current harrived hload =>
    exact h.setChannel (by rw [harrived]; rfl) rfl (AtomicCell.mem_of_load hload)
  | closed i current htrying hfull =>
    have hseen := h.explained i
    rw [htrying] at hseen
    exact h.setChannel (by rw [htrying]; rfl) rfl ⟨current, hseen, hfull⟩
  | opened i htrying hroom =>
    have hne : s.opened.latest ≠ limit max := by
      have hiff := s.full_iff (h.configured ▸ h.bounded)
      rw [hroom, h.configured] at hiff
      simpa using hiff
    refine ⟨h.configured, h.counted.update ?_, ?_, explained_push h.explained fun _ => trivial⟩
    · rw [htrying]
      rfl
    · exact Nat.lt_of_le_of_ne h.bounded hne
  | again i current _ htrying _ =>
    exact h.setChannel (by rw [htrying]; rfl) rfl List.mem_cons_self
  | dropped i hechoing =>
    have hpos : 0 < s.opened.latest := h.counted.pos (i := i) (by rw [hechoing]; rfl)
    have hbounded := h.bounded
    -- the counter is positive, so the subtraction does not wrap
    have hless : (s.opened.latest + (2 ^ 64 - 1)) % 2 ^ 64 + 1 = s.opened.latest := by
      have hmax : limit max ≤ usizeMax := by
        unfold limit
        split_ifs <;> omega
      unfold usizeMax at hmax
      omega
    refine ⟨h.configured, h.counted.update ?_, ?_, explained_push h.explained fun _ => trivial⟩
    · rw [hechoing]
      exact hless.symm
    · show (s.opened.latest + (2 ^ 64 - 1)) % 2 ^ 64 ≤ limit max
      omega

theorem invariant_run {max : ℕ} {actions : List Action} {s : Connection}
    (h : run step actions (new max) = some s) : Invariant max s :=
  run_invariant (Invariant max) (fun _ _ => Invariant.step) (invariant_new max) h

theorem history_of_step {s s' : Connection} {a : Action} (h : s.step a = some s') {v : ℕ}
    (hv : v ∈ s'.opened.history) : v ∈ s.opened.history ∨ v = s'.opened.latest := by
  cases stepped_of_step h with
  | opened => exact (List.mem_cons.mp hv).symm
  | dropped => exact (List.mem_cons.mp hv).symm
  | _ => exact .inl hv

/-- Every value that the counter ever had was at that moment the number of open channels. -/
theorem visited_of_history {max : ℕ} {actions : List Action} {s : Connection}
    (h : run step actions (new max) = some s) {v : ℕ} (hv : v ∈ s.opened.history) :
    ∃ t, Visited step actions (new max) t ∧ Invariant max t ∧ t.opened.latest = v := by
  induction actions using List.reverseRecOn generalizing s with
  | nil =>
    cases h
    exact ⟨new max, visited_last rfl, invariant_new max, (List.mem_singleton.mp hv).symm⟩
  | append_singleton actions a ih =>
    obtain ⟨t, ht, hstep⟩ := run_concat h
    rcases history_of_step hstep hv with hv | rfl
    · obtain ⟨u, hu, hcounted⟩ := ih ht hv
      exact ⟨u, hu.concat a, hcounted⟩
    · exact ⟨s, visited_last h, invariant_run h, rfl⟩

theorem run_alone {max : ℕ} {s : Connection} (hs : Invariant max s) {i : ℕ}
    (habsent : s.channels i = .absent) :
    ∃ s', run step [.arrive i, .load i 0, .exchange i] s = some s' ∧
      s'.channels i = if s.opened.latest < limit max then .echoing else .closed := by
  have hiff := s.full_iff (hs.configured ▸ hs.bounded)
  rw [hs.configured] at hiff
  have hbounded := hs.bounded
  by_cases hfull : s.full s.opened.latest = true
  · rw [if_neg (by have := hiff.mp hfull; omega)]
    have hfull' : ∀ c, full { s with channels := c } s.opened.latest = true := fun _ => hfull
    simp [run, step, habsent, setChannel, hfull']
  · rw [if_pos (by have := mt hiff.mpr hfull; omega)]
    have hfull' : ∀ c, full { s with channels := c } s.opened.latest = false := fun _ =>
      Bool.eq_false_iff.mpr hfull
    simp [run, step, habsent, setChannel, hfull', AtomicCell.compareExchange_latest]

/-- The counter is the number of channels that echo, in every interleaving of arrivals, failed
exchanges, stale loads and drops. It stays within the limit, so every drop gives a place back. A
channel is closed only if at some moment all places were taken, and one that no other comes
between is let in exactly when a place is free. -/
theorem limiter_law {max : ℕ} {actions : List Action} {s : Connection}
    (h : run step actions (new max) = some s) :
    Counted Channel.holds s.channels s.opened.latest ∧ s.opened.latest ≤ limit max ∧
    (∀ i, s.channels i = .closed → ∃ t, Visited step actions (new max) t ∧
      Counted Channel.holds t.channels (limit max)) ∧
    ∀ i, s.channels i = .absent →
      ∃ s', run step [.arrive i, .load i 0, .exchange i] s = some s' ∧
        s'.channels i = if s.opened.latest < limit max then .echoing else .closed := by
  have hs := invariant_run h
  refine ⟨hs.counted, hs.bounded, fun i hi => ?_, fun i => run_alone hs⟩
  have hexplained := hs.explained i
  rw [hi] at hexplained
  obtain ⟨v, hv, hfull⟩ := hexplained
  obtain ⟨t, ht, htinv, rfl⟩ := visited_of_history h hv
  -- the counter was at the limit, and never above it
  have hlimit : t.opened.latest = limit max := by
    rw [← hs.configured]
    exact (s.full_iff (hs.configured ▸ htinv.bounded)).mp hfull
  exact ⟨t, ht, hlimit ▸ htinv.counted⟩

/-- Two channels race for the only place, the loser is closed, and the place comes back. -/
def race : List Action :=
  [.arrive 0, .arrive 1, .load 0 0, .load 1 0, .exchange 1, .exchange 0, .exchange 0, .drop 1, .arrive 2,
   .load 2 1, .exchange 2, .arrive 3, .load 3 0, .spurious 3, .exchange 3]

theorem limiter_law_race :
    ∃ s, run step race (new 1) = some s ∧ s.channels 0 = .closed ∧ s.channels 3 = .echoing ∧
      (∃ t, Visited step race (new 1) t ∧ Counted Channel.holds t.channels (limit 1)) ∧
      Counted Channel.holds s.channels s.opened.latest := by
  obtain ⟨s, hs⟩ : ∃ s, run step race (new 1) = some s := ⟨_, rfl⟩
  have hclosed : s.channels 0 = .closed := by
    cases hs
    rfl
  have hechoing : s.channels 3 = .echoing := by
    cases hs
    rfl
  have hlaw := limiter_law hs
  exact ⟨s, hs, hclosed, hechoing, hlaw.2.2.1 0 hclosed, hlaw.1⟩

end Connection

end FandheBackend.WebRtcDataChannels
