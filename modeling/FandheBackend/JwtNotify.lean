import FandheBackend.ActionRuns
import FandheBackend.AtomicCell
import FandheBackend.StdBytes
import Mathlib.Algebra.BigOperators.Group.List.Basic
import Mathlib.Logic.Function.Basic

set_option autoImplicit false

/-!
# The throttle of the unknown-key notifications (`crates/plugin-jwt/src/notify.rs`)

Any number of threads call `try_acquire` at once. Each operation on an atomic is a step of its
own, and the load of the next allowed time may be stale.
-/
namespace FandheBackend.JwtNotify
open StdBytes ActionRuns

def u64Max : ℕ := 2 ^ 64 - 1

structure NotifyThrottle where
  nextAllowedUnix : AtomicCell ℕ
  suppressed : ℕ
  intervalSecs : ℕ

inductive Call where
  | idle
  | called (now : ℕ)
  | loaded (now next : ℕ)
  -- On the way to `None`, before the `fetch_add`.
  | refused
  -- The exchange succeeded; the `swap` is still to come.
  | acquired
  | returned (result : Option ℕ)
  deriving DecidableEq, Repr

inductive Event where
  | acquired (call now : ℕ)
  | reported (call suppressed : ℕ)
  | counted (call : ℕ)
  deriving DecidableEq, Repr

def Event.call : Event → ℕ
  | .acquired i _ | .reported i _ | .counted i => i

structure Threads where
  throttle : NotifyThrottle
  calls : ℕ → Call
  events : List Event

inductive Action where
  | call (i now : ℕ)
  | load (i age : ℕ)
  | exchange (i : ℕ)
  | fetchAdd (i : ℕ)
  | swap (i : ℕ)
  deriving DecidableEq, Repr

namespace NotifyThrottle

def new (intervalSecs : ℕ) : NotifyThrottle := ⟨.new 0, 0, intervalSecs⟩

/-- A call of `try_acquire` that no other call comes between. -/
def tryAcquire (t : NotifyThrottle) (now : ℕ) : Option ℕ × NotifyThrottle :=
  let refused := (none, { t with suppressed := (t.suppressed + 1) % 2 ^ 64 })
  let next := t.nextAllowedUnix.latest
  if now = u64Max then refused
  else if next = u64Max ∧ 0 < t.intervalSecs ∨ now < next then refused
  else
    let (_, cell) := t.nextAllowedUnix.compareExchange next (u64SaturatingAdd now t.intervalSecs)
    (some t.suppressed, { t with nextAllowedUnix := cell, suppressed := 0 })

end NotifyThrottle

namespace Threads

def new (intervalSecs : ℕ) : Threads := ⟨.new intervalSecs, fun _ => .idle, []⟩

def setCall (s : Threads) (i : ℕ) (c : Call) : Threads :=
  { s with calls := Function.update s.calls i c }

def step (s : Threads) : Action → Option Threads
  | .call i now =>
    if s.calls i = .idle ∧ now ≤ u64Max then
      -- the sentinel of a broken clock leaves the location alone
      some (s.setCall i (if now = u64Max then .refused else .called now))
    else none
  | .load i age =>
    match s.calls i with
    | .called now => (s.throttle.nextAllowedUnix.load age).map fun next => s.setCall i (.loaded now next)
    | _ => none
  | .exchange i =>
    match s.calls i with
    | .loaded now next =>
      if next = u64Max ∧ 0 < s.throttle.intervalSecs ∨ now < next then some (s.setCall i .refused)
      else
        let exchanged := s.throttle.nextAllowedUnix.compareExchange next
          (u64SaturatingAdd now s.throttle.intervalSecs)
        if exchanged.1 then
          some { s.setCall i .acquired with
            throttle := { s.throttle with nextAllowedUnix := exchanged.2 }
            events := .acquired i now :: s.events }
        else some (s.setCall i .refused)
    | _ => none
  | .fetchAdd i =>
    match s.calls i with
    | .refused =>
      some { s.setCall i (.returned none) with
        throttle := { s.throttle with suppressed := (s.throttle.suppressed + 1) % 2 ^ 64 }
        events := .counted i :: s.events }
    | _ => none
  | .swap i =>
    match s.calls i with
    | .acquired =>
      some { s.setCall i (.returned (some s.throttle.suppressed)) with
        throttle := { s.throttle with suppressed := 0 }
        events := .reported i s.throttle.suppressed :: s.events }
    | _ => none

/-- The clocks at which calls acquired, the latest exchange first. -/
def acquisitions (s : Threads) : List ℕ :=
  s.events.filterMap fun | .acquired _ now => some now | _ => none

def reported (s : Threads) : List ℕ :=
  s.events.filterMap fun | .reported _ n => some n | _ => none

def turnedAway (s : Threads) : ℕ := s.events.countP fun | .counted _ => true | _ => false

/-- What each operation does, with what the code has checked before it. -/
inductive Stepped (s : Threads) : Action → Threads → Prop
  | broken (i : ℕ) : s.calls i = .idle → Stepped s (.call i u64Max) (s.setCall i .refused)
  | called (i now : ℕ) : s.calls i = .idle → now < u64Max →
      Stepped s (.call i now) (s.setCall i (.called now))
  | loaded (i age now next : ℕ) : s.calls i = .called now →
      s.throttle.nextAllowedUnix.load age = some next →
      Stepped s (.load i age) (s.setCall i (.loaded now next))
  | refused (i now next : ℕ) : s.calls i = .loaded now next →
      (next = u64Max ∧ 0 < s.throttle.intervalSecs ∨ now < next ∨
        s.throttle.nextAllowedUnix.latest ≠ next) →
      Stepped s (.exchange i) (s.setCall i .refused)
  | acquired (i now next : ℕ) : s.calls i = .loaded now next →
      s.throttle.nextAllowedUnix.latest = next →
      ¬(next = u64Max ∧ 0 < s.throttle.intervalSecs ∨ now < next) →
      Stepped s (.exchange i) { s.setCall i .acquired with
        throttle := { s.throttle with
          nextAllowedUnix := ⟨u64SaturatingAdd now s.throttle.intervalSecs,
            s.throttle.nextAllowedUnix.history⟩ }
        events := .acquired i now :: s.events }
  | counted (i : ℕ) : s.calls i = .refused →
      Stepped s (.fetchAdd i) { s.setCall i (.returned none) with
        throttle := { s.throttle with suppressed := (s.throttle.suppressed + 1) % 2 ^ 64 }
        events := .counted i :: s.events }
  | swapped (i : ℕ) : s.calls i = .acquired →
      Stepped s (.swap i) { s.setCall i (.returned (some s.throttle.suppressed)) with
        throttle := { s.throttle with suppressed := 0 }
        events := .reported i s.throttle.suppressed :: s.events }

theorem stepped_of_step {s s' : Threads} {a : Action} (h : s.step a = some s') :
    Stepped s a s' := by
  cases a with
  | call i now =>
    simp only [step] at h
    split_ifs at h with hidle hnow
    · cases h
      exact hnow ▸ .broken i hidle.1
    · cases h
      exact .called i now hidle.1 (by omega)
  | load i age =>
    simp only [step] at h
    cases hcall : s.calls i <;> simp only [hcall] at h <;> try cases h
    obtain ⟨next, hnext, rfl⟩ := Option.map_eq_some_iff.mp h
    exact .loaded i age _ next hcall hnext
  | exchange i =>
    simp only [step] at h
    cases hcall : s.calls i <;> simp only [hcall] at h <;> try cases h
    rename_i now next
    by_cases hlatest : s.throttle.nextAllowedUnix.latest = next
    · subst hlatest
      simp only [AtomicCell.compareExchange_latest, ↓reduceIte] at h
      split_ifs at h with hlate
      · cases h
        exact .refused i now _ hcall (by tauto)
      · cases h
        exact .acquired i now _ hcall rfl hlate
    · simp only [AtomicCell.compareExchange_other hlatest, Bool.false_eq_true, ↓reduceIte,
        ite_self] at h
      cases h
      exact .refused i now next hcall (.inr (.inr hlatest))
  | fetchAdd i =>
    simp only [step] at h
    cases hcall : s.calls i <;> simp only [hcall] at h <;> cases h
    exact .counted i hcall
  | swap i =>
    simp only [step] at h
    cases hcall : s.calls i <;> simp only [hcall] at h <;> cases h
    exact .swapped i hcall

def nextAllowed (interval : ℕ) : List ℕ → ℕ
  | [] => 0
  | now :: _ => u64SaturatingAdd now interval

def Undecided (events : List Event) (i : ℕ) : Prop :=
  .counted i ∉ events ∧ (∀ now, .acquired i now ∉ events) ∧ ∀ n, .reported i n ∉ events

def Recorded (events : List Event) (i : ℕ) : Call → Prop
  | .acquired => (∃ now, .acquired i now ∈ events) ∧ .counted i ∉ events ∧ ∀ n, .reported i n ∉ events
  | .returned none => .counted i ∈ events ∧ (∀ now, .acquired i now ∉ events) ∧
      ∀ n, .reported i n ∉ events
  | .returned (some n) => (∃ now, .acquired i now ∈ events) ∧ .counted i ∉ events ∧
      ∀ m, .reported i m ∈ events ↔ m = n
  | _ => Undecided events i

theorem recorded_other {e : Event} {events : List Event} {i : ℕ} {c : Call} (he : e.call ≠ i)
    (h : Recorded events i c) : Recorded (e :: events) i c := by
  have hcounted : .counted i ∈ e :: events ↔ Event.counted i ∈ events := by
    refine List.mem_cons.trans (or_iff_right ?_)
    rintro rfl
    exact he rfl
  have hacquired : ∀ now, .acquired i now ∈ e :: events ↔ Event.acquired i now ∈ events := by
    refine fun now => List.mem_cons.trans (or_iff_right ?_)
    rintro rfl
    exact he rfl
  have hreported : ∀ n, .reported i n ∈ e :: events ↔ Event.reported i n ∈ events := by
    refine fun n => List.mem_cons.trans (or_iff_right ?_)
    rintro rfl
    exact he rfl
  rcases c with _ | _ | _ | _ | _ | (_ | n) <;>
    simpa only [Recorded, Undecided, hcounted, hacquired, hreported] using h

def Clocked (c : Call) : Prop := ∀ now, (c = .called now ∨ ∃ next, c = .loaded now next) → now < u64Max

structure Invariant (interval : ℕ) (s : Threads) : Prop where
  configured : s.throttle.intervalSecs = interval
  clock : ∀ i, Clocked (s.calls i)
  latest : s.throttle.nextAllowedUnix.latest = nextAllowed interval s.acquisitions
  below : ∀ now ∈ s.acquisitions, now < u64Max
  spaced : s.acquisitions.Pairwise fun later before => before + interval ≤ later
  counted : (s.reported.sum + s.throttle.suppressed) % 2 ^ 64 = s.turnedAway % 2 ^ 64
  recorded : ∀ i, Recorded s.events i (s.calls i)
  nodup : s.events.Nodup

theorem spaced_cons {interval now : ℕ} {before : List ℕ} (hbelow : ∀ t ∈ before, t < u64Max)
    (hspaced : before.Pairwise fun later t => t + interval ≤ later) (hnow : now < u64Max) :
    nextAllowed interval before ≤ now ↔ ∀ t ∈ before, t + interval ≤ now := by
  cases before with
  | nil => simp [nextAllowed]
  | cons last before =>
    have hlast : nextAllowed interval (last :: before) ≤ now ↔ last + interval ≤ now := by
      simp only [nextAllowed, u64SaturatingAdd]
      unfold u64Max at hnow
      omega
    rw [hlast, List.forall_mem_cons]
    refine ⟨fun h => ⟨h, fun t ht => ?_⟩, And.left⟩
    have hbefore := (List.pairwise_cons.mp hspaced).1 t ht
    omega

theorem invariant_new (interval : ℕ) : Invariant interval (new interval) where
  configured := rfl
  clock i := by rintro _ (h | ⟨_, h⟩) <;> cases h
  latest := rfl
  below _ h := by cases h
  spaced := .nil
  counted := rfl
  recorded i := by simp [new, Recorded, Undecided]
  nodup := .nil

theorem clocked_setCall {s : Threads} (h : ∀ i, Clocked (s.calls i)) {i : ℕ} {c : Call}
    (hc : Clocked c) (j : ℕ) : Clocked ((s.setCall i c).calls j) := by
  by_cases hij : j = i
  · subst hij
    simpa only [Threads.setCall, Function.update_self] using hc
  · simpa only [Threads.setCall, Function.update_of_ne hij] using h j

theorem clocked_refused : Clocked .refused := by
  rintro _ (h | ⟨_, h⟩) <;> cases h

theorem clocked_acquired : Clocked .acquired := by
  rintro _ (h | ⟨_, h⟩) <;> cases h

theorem clocked_returned (result : Option ℕ) : Clocked (.returned result) := by
  rintro _ (h | ⟨_, h⟩) <;> cases h

theorem Invariant.setCall {interval : ℕ} {s : Threads} (h : Invariant interval s) {i : ℕ} {c : Call}
    (hclock : Clocked c) (hrecorded : Recorded s.events i c) : Invariant interval (s.setCall i c) where
  configured := h.configured
  clock := clocked_setCall h.clock hclock
  latest := h.latest
  below := h.below
  spaced := h.spaced
  counted := h.counted
  recorded j := by
    by_cases hij : j = i
    · subst hij
      simpa only [Threads.setCall, Function.update_self] using hrecorded
    · simpa only [Threads.setCall, Function.update_of_ne hij] using h.recorded j
  nodup := h.nodup

theorem recorded_push {s : Threads} (h : ∀ j, Recorded s.events j (s.calls j)) {i : ℕ} {c : Call}
    {e : Event} (he : e.call = i) (hi : Recorded (e :: s.events) i c) (j : ℕ) :
    Recorded (e :: s.events) j ((s.setCall i c).calls j) := by
  by_cases hij : j = i
  · subst hij
    simpa only [Threads.setCall, Function.update_self] using hi
  · simp only [Threads.setCall, Function.update_of_ne hij]
    exact recorded_other (fun heq => hij (heq.symm.trans he)) (h j)

theorem Invariant.undecided {interval : ℕ} {s : Threads} (h : Invariant interval s) {i : ℕ} {c : Call}
    (hcall : s.calls i = c) (hc : ∀ events, Recorded events i c = Undecided events i) :
    Undecided s.events i := by
  rw [← hc, ← hcall]
  exact h.recorded i

theorem Invariant.step {interval : ℕ} {s s' : Threads} {a : Action} (h : Invariant interval s)
    (hstep : s.step a = some s') : Invariant interval s' := by
  cases stepped_of_step hstep with
  | broken i hidle => exact h.setCall clocked_refused (h.undecided hidle fun _ => rfl)
  | called i now hidle hnow =>
    refine h.setCall ?_ (h.undecided hidle fun _ => rfl)
    rintro _ (hc | ⟨_, hc⟩) <;> cases hc
    exact hnow
  | loaded i age now next hcalled =>
    refine h.setCall ?_ (h.undecided hcalled fun _ => rfl)
    rintro _ (hc | ⟨_, hc⟩) <;> cases hc
    exact h.clock i now (.inl hcalled)
  | refused i now next hloaded => exact h.setCall clocked_refused (h.undecided hloaded fun _ => rfl)
  | acquired i now next hloaded hlatest hdue =>
    have hnow : now < u64Max := h.clock i now (.inr ⟨next, hloaded⟩)
    have hspaced := (spaced_cons h.below h.spaced hnow).mp (by rw [← h.latest, hlatest]; omega)
    obtain ⟨hcounted, hacquired, hreported⟩ := h.undecided hloaded fun _ => rfl
    refine ⟨h.configured, clocked_setCall h.clock clocked_acquired, ?_, ?_, ?_, h.counted, ?_,
      List.nodup_cons.mpr ⟨hacquired now, h.nodup⟩⟩
    · show u64SaturatingAdd now s.throttle.intervalSecs = u64SaturatingAdd now interval
      rw [h.configured]
    · exact List.forall_mem_cons.mpr ⟨hnow, h.below⟩
    · exact List.pairwise_cons.mpr ⟨hspaced, h.spaced⟩
    · refine recorded_push h.recorded rfl ⟨⟨now, List.mem_cons_self⟩, ?_, fun n hn => ?_⟩
      · simpa using hcounted
      · exact hreported n (by simpa using hn)
  | counted i hrefused =>
    obtain ⟨hcounted, hacquired, hreported⟩ := h.undecided hrefused fun _ => rfl
    refine ⟨h.configured, clocked_setCall h.clock (clocked_returned none), h.latest, h.below,
      h.spaced, ?_, ?_, List.nodup_cons.mpr ⟨hcounted, h.nodup⟩⟩
    · have hsum := h.counted
      have hmore : (s.turnedAway + 1) = (Event.counted i :: s.events).countP
          fun | .counted _ => true | _ => false := (List.countP_cons_of_pos rfl).symm
      show (s.reported.sum + (s.throttle.suppressed + 1) % 2 ^ 64) % 2 ^ 64 = _ % 2 ^ 64
      rw [Threads.turnedAway, ← hmore]
      omega
    · refine recorded_push h.recorded rfl ⟨List.mem_cons_self, fun now hnow => ?_, fun n hn => ?_⟩
      · exact hacquired now (by simpa using hnow)
      · exact hreported n (by simpa using hn)
  | swapped i hacquired =>
    have hi := h.recorded i
    rw [hacquired] at hi
    obtain ⟨⟨now, hnow⟩, hcounted, hreported⟩ := hi
    refine ⟨h.configured, clocked_setCall h.clock (clocked_returned _), h.latest, h.below,
      h.spaced, ?_, ?_, List.nodup_cons.mpr ⟨hreported _, h.nodup⟩⟩
    · have hsum := h.counted
      show ((s.throttle.suppressed :: s.reported).sum + 0) % 2 ^ 64 = s.turnedAway % 2 ^ 64
      rw [List.sum_cons, Nat.add_zero, Nat.add_comm]
      exact hsum
    · refine recorded_push h.recorded rfl ⟨⟨now, List.mem_cons_of_mem _ hnow⟩, ?_, fun n => ?_⟩
      · simpa using hcounted
      · simp [hreported n]

theorem invariant_run {interval : ℕ} {actions : List Action} {s : Threads}
    (h : run step actions (new interval) = some s) : Invariant interval s :=
  run_invariant (Invariant interval) (fun _ _ => Invariant.step) (invariant_new interval) h

/-- The clock is sound, and the interval since every acquisition has passed. -/
def Due (interval : ℕ) (s : Threads) (now : ℕ) : Prop :=
  now < u64Max ∧ ∀ before ∈ s.acquisitions, before + interval ≤ now

theorem Invariant.due_iff {interval : ℕ} {s : Threads} (h : Invariant interval s) (now : ℕ) :
    Due interval s now ↔ now < u64Max ∧ s.throttle.nextAllowedUnix.latest ≤ now := by
  refine and_congr_right fun hnow => ?_
  rw [h.latest]
  exact (spaced_cons h.below h.spaced hnow).symm

theorem Invariant.tryAcquire_isSome {interval : ℕ} {s : Threads} (h : Invariant interval s) {now : ℕ}
    (hnow : now ≤ u64Max) : (s.throttle.tryAcquire now).1.isSome = true ↔ Due interval s now := by
  rw [h.due_iff]
  unfold NotifyThrottle.tryAcquire
  dsimp only
  split_ifs <;> simp <;> omega

theorem step_of_stepped {s s' : Threads} {a : Action} (h : Stepped s a s') :
    s.step a = some s' := by
  cases h with
  | broken i hidle => simp [step, hidle]
  | called i now hidle hnow => simp [step, hidle, Nat.le_of_lt hnow, Nat.ne_of_lt hnow]
  | loaded i age now next hcalled hload => simp [step, hcalled, hload]
  | refused i now next hloaded hwhy =>
    simp only [step, hloaded]
    by_cases hlatest : s.throttle.nextAllowedUnix.latest = next
    · rw [if_pos (by tauto)]
    · simp [AtomicCell.compareExchange_other hlatest]
  | acquired i now next hloaded hlatest hdue =>
    subst hlatest
    simp only [step, hloaded, AtomicCell.compareExchange_latest, ↓reduceIte, if_neg hdue]
  | counted i hrefused => simp [step, hrefused]
  | swapped i hacquired => simp [step, hacquired]

theorem run_stepped {s t u : Threads} {a : Action} {actions : List Action} (h : Stepped s a t)
    (hrun : run step actions t = some u) : run step (a :: actions) s = some u := by
  rw [run, step_of_stepped h]
  exact hrun

theorem run_one {s t : Threads} {a : Action} (h : Stepped s a t) : run step [a] s = some t :=
  run_stepped h rfl

theorem setCall_self (s : Threads) (i : ℕ) (c : Call) : (s.setCall i c).calls i = c := by
  rw [setCall]
  exact Function.update_self i c s.calls

/-- The operations of one call, the last by whether it was let through. -/
def alone (i now : ℕ) (through : Bool) : List Action :=
  if now = u64Max then [.call i now, .fetchAdd i]
  else [.call i now, .load i 0, .exchange i, if through then .swap i else .fetchAdd i]

theorem run_alone {s : Threads} {i now : ℕ} (hidle : s.calls i = .idle) (hnow : now ≤ u64Max) :
    ∃ s', run step (alone i now (s.throttle.tryAcquire now).1.isSome) s = some s' ∧
      s'.throttle = (s.throttle.tryAcquire now).2 ∧
      s'.calls i = .returned (s.throttle.tryAcquire now).1 := by
  unfold NotifyThrottle.tryAcquire
  dsimp only
  split_ifs with hbroken hlate
  · subst hbroken
    exact ⟨_, run_stepped (.broken i hidle) (run_one (.counted i (setCall_self s i _))), rfl,
      setCall_self _ i _⟩
  all_goals
    rw [alone, if_neg hbroken]
    have hcalled := Stepped.called i now hidle (by omega)
    have hloaded := Stepped.loaded (s := s.setCall i (.called now)) i 0 now _ (setCall_self s i _)
      (AtomicCell.load_zero s.throttle.nextAllowedUnix)
  · have hrefused := Stepped.refused (s := (s.setCall i (.called now)).setCall i (.loaded now _)) i now
      _ (setCall_self _ i _) (by tauto)
    exact ⟨_, run_stepped hcalled (run_stepped hloaded (run_stepped hrefused
      (run_one (.counted i (setCall_self _ i _))))), rfl, setCall_self _ i _⟩
  · have hacquired := Stepped.acquired (s := (s.setCall i (.called now)).setCall i (.loaded now _)) i
      now _ (setCall_self _ i _) rfl hlate
    refine ⟨_, run_stepped hcalled (run_stepped hloaded (run_stepped hacquired
      (run_one (.swapped i ?_)))), ?_, ?_⟩
    · exact setCall_self _ i _
    · rw [AtomicCell.compareExchange_latest]
      rfl
    · exact setCall_self _ i _

/-- What another operation leaves of a call that has loaded, and of the acquisitions. -/
theorem kept_of_stepped {s s' : Threads} {a : Action} {i now next : ℕ} (h : Stepped s a s')
    (ha : a ≠ .exchange i) (hi : s.calls i = .loaded now next) :
    s'.calls i = .loaded now next ∧ s.acquisitions <:+ s'.acquisitions := by
  have hkeep : ∀ j c, (s.calls j = .loaded now next → j ≠ i) →
      (s.setCall j c).calls i = .loaded now next := by
    intro j c hj
    have hij : i ≠ j := fun heq => hj (heq ▸ hi) heq.symm
    rw [setCall]
    simpa only [Function.update_of_ne hij] using hi
  cases h with
  | broken j hj => exact ⟨hkeep j _ fun h => by simp [hj] at h, List.suffix_refl _⟩
  | called j _ hj => exact ⟨hkeep j _ fun h => by simp [hj] at h, List.suffix_refl _⟩
  | loaded j _ _ _ hj => exact ⟨hkeep j _ fun h => by simp [hj] at h, List.suffix_refl _⟩
  | refused j => exact ⟨hkeep j _ fun _ heq => ha (heq ▸ rfl), List.suffix_refl _⟩
  | acquired j => exact ⟨hkeep j _ fun _ heq => ha (heq ▸ rfl), List.suffix_cons _ _⟩
  | counted j hj => exact ⟨hkeep j _ fun h => by simp [hj] at h, List.suffix_refl _⟩
  | swapped j hj => exact ⟨hkeep j _ fun h => by simp [hj] at h, List.suffix_refl _⟩

theorem kept_run {i now next : ℕ} {actions : List Action} (hother : ∀ a ∈ actions, a ≠ .exchange i)
    {s s' : Threads} (hi : s.calls i = .loaded now next) (h : run step actions s = some s') :
    s'.calls i = .loaded now next ∧ s.acquisitions <:+ s'.acquisitions := by
  refine run_invariant (fun t : Threads =>
    t.calls i = .loaded now next ∧ s.acquisitions <:+ t.acquisitions) ?_ ⟨hi, List.suffix_refl _⟩ h
  rintro a ha t t' ⟨ht, hsuffix⟩ hstep
  obtain ⟨ht', hmore⟩ := kept_of_stepped (stepped_of_step hstep) (hother a ha) ht
  exact ⟨ht', hsuffix.trans hmore⟩

/-- A call that is due when it loads the latest value fails only if another call acquires before
its exchange. -/
theorem overtaken {interval : ℕ} {s t u v : Threads} {i now : ℕ} {middle : List Action}
    (hs : Invariant interval s) (hcalled : s.calls i = .called now) (hdue : Due interval s now)
    (hload : s.step (.load i 0) = some t) (hmiddle : run step middle t = some u)
    (hother : ∀ a ∈ middle, a ≠ .exchange i) (hexchange : u.step (.exchange i) = some v)
    (hrefused : v.calls i = .refused) : s.acquisitions.length < u.acquisitions.length := by
  obtain rfl : t = s.setCall i (.loaded now s.throttle.nextAllowedUnix.latest) := by
    simpa [step, hcalled] using hload.symm
  obtain ⟨hu, hsuffix⟩ := kept_run hother (setCall_self s i _) hmiddle
  have ht : Invariant interval (s.setCall i (.loaded now s.throttle.nextAllowedUnix.latest)) :=
    hs.step hload
  have huinv : Invariant interval u :=
    run_invariant (Invariant interval) (fun _ _ => Invariant.step) ht hmiddle
  refine lt_of_le_of_ne hsuffix.length_le fun hlength => ?_
  -- nobody acquired: the value is the one that was loaded, and the exchange succeeds
  have hsame : s.acquisitions = u.acquisitions := hsuffix.eq_of_length hlength
  have hlatest : u.throttle.nextAllowedUnix.latest = s.throttle.nextAllowedUnix.latest := by
    rw [huinv.latest, hs.latest, hsame]
  obtain ⟨hnow, hle⟩ := (hs.due_iff now).mp hdue
  have hacquired := step_of_stepped (.acquired i now _ hu hlatest (by omega))
  rw [hacquired] at hexchange
  cases hexchange
  simp [setCall] at hrefused

/-- Notifications are `interval` apart on the clocks of their calls, whatever the threads do. Every
call that is turned away is counted once and reported once. A call that no other comes between is
let through exactly when it is due; one that is due by a fresh load and fails has been overtaken. -/
theorem try_acquire_law {interval : ℕ} {actions : List Action} {s : Threads}
    (h : run step actions (new interval) = some s) :
    (s.acquisitions.Pairwise fun later before => before + interval ≤ later) ∧
    (s.reported.sum + s.throttle.suppressed) % 2 ^ 64 = s.turnedAway % 2 ^ 64 ∧
    (s.events.Nodup ∧ ∀ i, Recorded s.events i (s.calls i)) ∧
    (∀ i now, s.calls i = .idle → now ≤ u64Max →
      ((s.throttle.tryAcquire now).1.isSome = true ↔ Due interval s now) ∧
      ∃ s', run step (alone i now (s.throttle.tryAcquire now).1.isSome) s = some s' ∧
        s'.throttle = (s.throttle.tryAcquire now).2 ∧
        s'.calls i = .returned (s.throttle.tryAcquire now).1) ∧
    ∀ i now t middle u v, s.calls i = .called now → Due interval s now →
      s.step (.load i 0) = some t → run step middle t = some u →
      (∀ a ∈ middle, a ≠ .exchange i) → u.step (.exchange i) = some v → v.calls i = .refused →
      s.acquisitions.length < u.acquisitions.length := by
  have hs := invariant_run h
  refine ⟨hs.spaced, hs.counted, ⟨hs.nodup, hs.recorded⟩, fun i now hidle hnow => ?_, ?_⟩
  · exact ⟨hs.tryAcquire_isSome hnow, run_alone hidle hnow⟩
  · intro i now t middle u v hcalled hdue hload hmiddle hother hexchange hrefused
    exact overtaken hs hcalled hdue hload hmiddle hother hexchange hrefused

/-- Two calls race, a clock is broken, and the third notification reports both. -/
def race : List Action :=
  [.call 0 100, .call 1 100, .load 0 0, .load 1 0, .exchange 1, .exchange 0, .swap 1, .fetchAdd 0,
   .call 2 u64Max, .fetchAdd 2, .call 3 110, .load 3 0, .exchange 3, .swap 3]

theorem try_acquire_law_race :
    ∃ s, run step race (new 10) = some s ∧ s.acquisitions = [110, 100] ∧ s.reported = [2, 0] ∧
      (s.reported.sum + s.throttle.suppressed) % 2 ^ 64 = s.turnedAway % 2 ^ 64 := by
  obtain ⟨s, hs⟩ : ∃ s, run step race (new 10) = some s := ⟨_, rfl⟩
  refine ⟨s, hs, ?_, ?_, (try_acquire_law hs).2.1⟩ <;>
  · cases hs
    rfl

end Threads

end FandheBackend.JwtNotify
