import Mathlib.Data.Nat.Notation
import Mathlib.Logic.Basic
import Mathlib.Tactic.SplitIfs

set_option autoImplicit false

namespace FandheBackend.WatchChannel

section
variable {α : Type}

structure Channel (α : Type) where
  value : α
  version : ℕ
  sender : Bool
  deriving DecidableEq, Repr

/-- A call of `wait_for`: not polled yet, parked after it saw a version, or returned. -/
inductive Wait where
  | fresh
  | parked (seen : ℕ)
  | returned (ok : Bool)
  deriving DecidableEq, Repr

structure Receiver where
  channel : ℕ
  wait : Wait
  woken : Bool
  deriving DecidableEq, Repr

namespace Channel

def new (value : α) : Channel α := ⟨value, 0, true⟩

/-- `send_replace`: the value changes also when nobody listens. -/
def sendReplace (c : Channel α) (value : α) : Channel α :=
  { c with value := value, version := c.version + 1 }

def close (c : Channel α) : Channel α := { c with sender := false }

/-- The value is looked at, then the call parks unless the channel is closed. -/
def look (c : Channel α) (p : α → Bool) : Wait :=
  if p c.value then .returned true
  else if c.sender then .parked c.version
  else .returned false

/-- One poll of `wait_for(p)`. -/
def pollWaitFor (c : Channel α) (p : α → Bool) : Wait → Wait
  | .fresh => c.look p
  | .parked seen =>
    if c.version ≠ seen then c.look p
    else if c.sender then .parked seen
    else .returned false
  | .returned ok => .returned ok

end Channel

namespace Receiver

def subscribe (channel : ℕ) : Receiver := ⟨channel, .fresh, false⟩

def poll (r : Receiver) (c : Channel α) (p : α → Bool) : Receiver :=
  { r with wait := c.pollWaitFor p r.wait, woken := false }

/-- A change of channel `channel` wakes the receivers parked on it. -/
def wake (channel : ℕ) (r : Receiver) : Receiver :=
  if r.channel = channel then { r with woken := true } else r

@[simp] theorem wake_channel (channel : ℕ) (r : Receiver) : (r.wake channel).channel = r.channel := by
  unfold wake
  split_ifs <;> rfl

@[simp] theorem wake_wait (channel : ℕ) (r : Receiver) : (r.wake channel).wait = r.wait := by
  unfold wake
  split_ifs <;> rfl

end Receiver

/-- A parked receiver has seen a version of the channel; if the value has the property now, a
newer one was sent since, and it was woken. -/
def Attentive (p : α → Bool) (c : Channel α) (r : Receiver) : Prop :=
  ∀ seen, r.wait = .parked seen →
    seen ≤ c.version ∧ (p c.value = true → seen < c.version ∧ r.woken = true)

variable {p : α → Bool} {c : Channel α} {r : Receiver}

theorem attentive_subscribe (channel : ℕ) : Attentive p c (.subscribe channel) := by
  intro seen h
  cases h

theorem look_eq_parked {seen : ℕ} (h : c.look p = .parked seen) :
    seen = c.version ∧ p c.value = false := by
  unfold Channel.look at h
  split_ifs at h with hp hsender
  cases h
  exact ⟨rfl, by simpa using hp⟩

theorem attentive_poll (h : Attentive p c r) : Attentive p c (r.poll c p) := by
  intro seen hseen
  have hlook : ∀ {seen}, c.look p = .parked seen →
      seen ≤ c.version ∧ (p c.value = true → seen < c.version ∧ false = true) := by
    intro seen hl
    obtain ⟨rfl, hp⟩ := look_eq_parked hl
    exact ⟨Nat.le_refl _, fun hv => by simp [hp] at hv⟩
  change c.pollWaitFor p r.wait = .parked seen at hseen
  cases hw : r.wait with
  | fresh => exact hlook (by simpa [hw, Channel.pollWaitFor] using hseen)
  | returned ok => simp [hw, Channel.pollWaitFor] at hseen
  | parked old =>
    rw [hw, Channel.pollWaitFor] at hseen
    split_ifs at hseen with hversion hsender
    · exact hlook hseen
    · cases hseen
      have hold := h seen hw
      have heq : c.version = seen := by simpa using hversion
      refine ⟨hold.1, fun hv => ?_⟩
      have hlt := (hold.2 hv).1
      omega

theorem attentive_sendReplace (value : α) (h : Attentive p c r) :
    Attentive p (c.sendReplace value) (r.wake r.channel) := by
  intro seen hseen
  rw [Receiver.wake_wait] at hseen
  have hle := (h seen hseen).1
  refine ⟨Nat.le_succ_of_le hle, fun _ => ⟨Nat.lt_succ_of_le hle, ?_⟩⟩
  simp [Receiver.wake]

theorem attentive_close (h : Attentive p c r) : Attentive p c.close (r.wake r.channel) := by
  intro seen hseen
  rw [Receiver.wake_wait] at hseen
  obtain ⟨hle, hval⟩ := h seen hseen
  refine ⟨hle, fun hv => ⟨(hval hv).1, ?_⟩⟩
  simp [Receiver.wake]

/-- Once the value has the property, no receiver sleeps and the next poll returns. -/
theorem Attentive.ready (h : Attentive p c r) (hv : p c.value = true) :
    (∀ seen, r.wait = .parked seen → r.woken = true) ∧
      ∃ ok, (r.poll c p).wait = .returned ok := by
  refine ⟨fun seen hseen => ((h seen hseen).2 hv).2, ?_⟩
  change ∃ ok, c.pollWaitFor p r.wait = .returned ok
  cases hw : r.wait with
  | fresh => exact ⟨true, by simp [Channel.pollWaitFor, Channel.look, hv]⟩
  | returned ok => exact ⟨ok, rfl⟩
  | parked seen =>
    have hlt := ((h seen hw).2 hv).1
    have hne : c.version ≠ seen := by omega
    exact ⟨true, by simp [Channel.pollWaitFor, Channel.look, hv, hne]⟩

end

end FandheBackend.WatchChannel
