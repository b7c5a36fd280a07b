import FandheBackend.ActionRuns
import Mathlib.Algebra.Ring.Nat
import Mathlib.Data.List.Basic
import Mathlib.Tactic.Common

set_option autoImplicit false

/-!
# Connection permits (`bind` and `run_until` of `crates/core/src/server.rs`)

The accept loop, the tasks it spawns and the sessions that take a connection over, each
with the permit it holds. The semaphore grants a permit when one is available and takes it
back when its holder drops it. An action is one move of the loop or of a task.
-/
namespace FandheBackend.CorePermits
open ActionRuns

def u32Max : ℕ := 2 ^ 32 - 1

def rebindBacklogDrainLimit : ℕ := 1024

/-- A task that has handed its socket to a session only returns. -/
inductive TaskKind where
  | connection
  | returning
  | session
  deriving DecidableEq, Repr

structure Task where
  kind : TaskKind
  generation : ℕ
  permit : Bool
  deriving DecidableEq, Repr

def Task.accepted (generation : ℕ) : Task := ⟨.connection, generation, true⟩

def Task.live (t : Task) : Bool := t.kind != .returning

/-- Sessions run outside of every `JoinSet`. -/
def Task.inJoinSet (generation : ℕ) (t : Task) : Bool :=
  t.kind != .session && t.generation == generation

inductive Phase where
  -- The accept future, before and after it has its permit.
  | accepting (permit : Bool)
  | backoff
  -- `drain_listener_backlog`, with its permit at hand and the connections it has collected.
  | rebinding (permit : Bool) (drained : ℕ)
  | stopping
  -- `run_until` has acquired `permit_total` permits.
  | drained
  | returned
  deriving DecidableEq, Repr

structure State where
  available : ℕ
  phase : Phase
  generation : ℕ
  tasks : List Task
  deriving DecidableEq, Repr

/-- The size of the semaphore, from `Server::bind`. -/
def permitCount (maxConnections : ℕ) : ℕ := max maxConnections 1

/-- `u32::try_from(permit_count).unwrap_or(u32::MAX)`. -/
def permitTotal (maxConnections : ℕ) : ℕ :=
  if permitCount maxConnections ≤ u32Max then permitCount maxConnections else u32Max

def bind (maxConnections : ℕ) : State := ⟨permitCount maxConnections, .accepting false, 0, []⟩

inductive Action where
  | acquire
  | accept
  | acceptError
  | retry
  | rebind
  | drainAcquire
  | drainAccept
  | drainStop
  | shutdown
  | acquireMany
  | finish
  | graceExceeded
  | cancel
  | abortGeneration (generation : ℕ)
  | delegate (i : ℕ)
  | ends (i : ℕ)
  deriving DecidableEq, Repr

namespace State

def leaveAccept (phase : Phase) (s : State) : Option State :=
  match s.phase with
  | .accepting permit => some { s with phase := phase, available := s.available + permit.toNat }
  | .backoff => some { s with phase := phase }
  | _ => none

/-- `JoinSet::shutdown`: the tasks are dropped, with the permits they hold. -/
def abort (generation : ℕ) (s : State) : State :=
  { s with
    available := s.available +
      s.tasks.countP fun t => t.inJoinSet generation && t.permit
    tasks := s.tasks.filter fun t => !t.inJoinSet generation }

def spawn (n : ℕ) (s : State) : State :=
  { s with tasks := s.tasks ++ List.replicate n (.accepted s.generation) }

/-- `drain_listener_backlog` returns: its connections are spawned and a generation ends. -/
def drainStop (permit : Bool) (drained : ℕ) (s : State) : State :=
  let s := ({ s with available := s.available + permit.toNat }).spawn drained
  { s with phase := .accepting false, generation := s.generation + 1 }

/-- `try_handle_upgrade` takes the permit of task `i` for a session of its own. -/
def delegate (i : ℕ) (s : State) : Option State :=
  match s.tasks[i]? with
  | some ⟨.connection, generation, permit⟩ => some { s with
      tasks := s.tasks.set i ⟨.returning, generation, false⟩ ++ [⟨.session, generation, permit⟩] }
  | _ => none

def ends (i : ℕ) (s : State) : Option State :=
  (s.tasks[i]?).map fun t =>
    { s with available := s.available + t.permit.toNat, tasks := s.tasks.eraseIdx i }

def step (total : ℕ) (s : State) : Action → Option State
  | .acquire =>
    if s.phase = .accepting false ∧ 0 < s.available then
      some { s with phase := .accepting true, available := s.available - 1 }
    else none
  | .accept =>
    if s.phase = .accepting true then some ({ s with phase := .accepting false }.spawn 1) else none
  | .acceptError =>
    if s.phase = .accepting true then
      some { s with phase := .backoff, available := s.available + 1 }
    else none
  | .retry => if s.phase = .backoff then some { s with phase := .accepting false } else none
  | .rebind => s.leaveAccept (.rebinding false 0)
  | .drainAcquire =>
    match s.phase with
    | .rebinding false drained =>
      if drained < rebindBacklogDrainLimit ∧ 0 < s.available then
        some { s with phase := .rebinding true drained, available := s.available - 1 }
      else none
    | _ => none
  | .drainAccept =>
    match s.phase with
    | .rebinding true drained => some { s with phase := .rebinding false (drained + 1) }
    | _ => none
  | .drainStop =>
    match s.phase with
    | .rebinding true drained => some (s.drainStop true drained)
    | .rebinding false drained =>
      if drained = rebindBacklogDrainLimit ∨ s.available = 0 then some (s.drainStop false drained)
      else none
    | _ => none
  | .shutdown => s.leaveAccept .stopping
  | .acquireMany =>
    if s.phase = .stopping ∧ total ≤ s.available then
      some { s with phase := .drained, available := s.available - total }
    else none
  | .finish =>
    if s.phase = .drained ∧ s.tasks.all (fun t => !t.inJoinSet s.generation) then
      some { s with phase := .returned, available := s.available + total }
    else none
  | .graceExceeded =>
    if s.phase = .stopping then some ({ s with phase := .returned }.abort s.generation) else none
  | .cancel =>
    match s.phase with
    | .stopping => some { s with phase := .returned }
    | .drained => some { s with phase := .returned, available := s.available + total }
    | _ => s.leaveAccept .returned
  | .abortGeneration generation =>
    if generation < s.generation then some (s.abort generation) else none
  | .delegate i => s.delegate i
  | .ends i => s.ends i

end State

def Phase.permits (total : ℕ) : Phase → ℕ
  | .accepting permit => permit.toNat
  | .backoff => 0
  | .rebinding permit n => permit.toNat + n
  | .stopping => 0
  | .drained => total
  | .returned => 0

/-- No permit is lost or made, and whatever is live holds its own. -/
structure Conserved (size total : ℕ) (s : State) : Prop where
  total : s.available + s.tasks.countP Task.permit + s.phase.permits total = size
  one : ∀ t ∈ s.tasks, t.permit = t.live

theorem conserved_bind (maxConnections total : ℕ) :
    Conserved (permitCount maxConnections) total (bind maxConnections) :=
  ⟨by simp [bind, Phase.permits], by simp [bind]⟩

section
variable {size total : ℕ}

theorem conserved_move {s : State} {phase : Phase} {available : ℕ} (h : Conserved size total s)
    (hmove : available + phase.permits total = s.available + s.phase.permits total) :
    Conserved size total { s with available := available, phase := phase } := by
  have htotal := h.total
  refine ⟨?_, h.one⟩
  simp only
  omega

theorem conserved_leaveAccept {s s' : State} {phase : Phase} (h : Conserved size total s)
    (hphase : phase.permits total = 0) (hs' : s.leaveAccept phase = some s') :
    Conserved size total s' := by
  cases hp : s.phase with
  | accepting permit =>
    simp only [State.leaveAccept, hp, Option.some.injEq] at hs'
    subst hs'
    apply conserved_move h
    rw [hphase, hp, Phase.permits]
    omega
  | backoff =>
    simp only [State.leaveAccept, hp, Option.some.injEq] at hs'
    subst hs'
    apply conserved_move h
    rw [hphase, hp, Phase.permits]
  | _ => simp [State.leaveAccept, hp] at hs'

theorem countP_spawn (tasks : List Task) (generation n : ℕ) :
    (tasks ++ List.replicate n (Task.accepted generation)).countP Task.permit =
      tasks.countP Task.permit + n := by
  simp [List.countP_append, List.countP_replicate, Task.accepted]

theorem live_spawn {tasks : List Task} (h : ∀ t ∈ tasks, t.permit = t.live) (generation n : ℕ) :
    ∀ t ∈ tasks ++ List.replicate n (Task.accepted generation), t.permit = t.live := by
  intro t ht
  rw [List.mem_append] at ht
  rcases ht with ht | ht
  · exact h t ht
  · rw [List.eq_of_mem_replicate ht]
    rfl

theorem conserved_abort {s : State} (h : Conserved size total s) (generation : ℕ) :
    Conserved size total (s.abort generation) := by
  have htotal := h.total
  have hsplit := List.countP_eq_countP_filter_add s.tasks Task.permit (Task.inJoinSet generation)
  rw [List.countP_filter] at hsplit
  have hcomm : (s.tasks.countP fun t => t.inJoinSet generation && t.permit) =
      s.tasks.countP fun t => t.permit && t.inJoinSet generation := by
    simp only [Bool.and_comm]
  refine ⟨?_, fun t ht => h.one t (List.mem_of_mem_filter ht)⟩
  simp only [State.abort, hcomm]
  omega

theorem around {l : List Task} {i : ℕ} {t : Task} (h : l[i]? = some t) :
    ∃ pre post, l = pre ++ t :: post ∧ l.eraseIdx i = pre ++ post ∧
      ∀ t', l.set i t' = pre ++ t' :: post := by
  induction l generalizing i with
  | nil => simp at h
  | cons x l ih =>
    cases i with
    | zero =>
      rw [List.getElem?_cons_zero, Option.some.injEq] at h
      subst h
      exact ⟨[], l, rfl, rfl, fun _ => rfl⟩
    | succ i =>
      rw [List.getElem?_cons_succ] at h
      obtain ⟨pre, post, hl, herase, hset⟩ := ih h
      refine ⟨x :: pre, post, by rw [hl]; rfl, ?_, fun t' => ?_⟩
      · rw [List.eraseIdx_cons_succ, herase]
        rfl
      · rw [List.set_cons_succ, hset]
        rfl

theorem conserved_ends {s s' : State} {i : ℕ} (h : Conserved size total s) (hs' : s.ends i = some s') :
    Conserved size total s' := by
  have htotal := h.total
  have hone := h.one
  rw [State.ends, Option.map_eq_some_iff] at hs'
  obtain ⟨t, ht, rfl⟩ := hs'
  obtain ⟨pre, post, hl, herase, _⟩ := around ht
  rw [hl] at htotal hone
  rw [List.forall_mem_append, List.forall_mem_cons] at hone
  refine ⟨?_, ?_⟩
  · simp only [herase, List.countP_append, List.countP_cons] at htotal ⊢
    cases hpermit : t.permit with
    | false =>
      simp only [hpermit, Bool.false_eq_true, ↓reduceIte, Bool.toNat_false] at htotal ⊢
      omega
    | true =>
      simp only [hpermit, ↓reduceIte, Bool.toNat_true] at htotal ⊢
      omega
  · simp only [herase, List.forall_mem_append]
    exact ⟨hone.1, hone.2.2⟩

theorem conserved_delegate {s s' : State} {i : ℕ} (h : Conserved size total s)
    (hs' : s.delegate i = some s') : Conserved size total s' := by
  have htotal := h.total
  have hone := h.one
  unfold State.delegate at hs'
  split at hs'
  · rename_i generation permit ht
    cases hs'
    obtain ⟨pre, post, hl, _, hset⟩ := around ht
    rw [hl] at htotal hone
    rw [List.forall_mem_append, List.forall_mem_cons] at hone
    refine ⟨?_, ?_⟩
    · simp only [hset, List.countP_append, List.countP_cons, List.countP_nil,
        Bool.false_eq_true, ↓reduceIte] at htotal ⊢
      omega
    · simp only [hset, List.forall_mem_append, List.forall_mem_cons]
      exact ⟨⟨hone.1, rfl, hone.2.2⟩, hone.2.1, by simp⟩
  · cases hs'

theorem conserved_drainStop {s : State} {permit : Bool} {n : ℕ} (h : Conserved size total s)
    (htotal : s.available + s.tasks.countP Task.permit +
      Phase.permits total (.rebinding permit n) = size) :
    Conserved size total (s.drainStop permit n) := by
  refine ⟨?_, live_spawn h.one s.generation n⟩
  simp only [State.drainStop, State.spawn, countP_spawn, Phase.permits, Bool.toNat_false] at htotal ⊢
  omega

theorem conserved_step {s s' : State} {a : Action} (h : Conserved size total s)
    (hs' : s.step total a = some s') : Conserved size total s' := by
  have htotal := h.total
  cases a with
  | acquire =>
    simp only [State.step] at hs'
    split_ifs at hs' with hguard
    cases hs'
    apply conserved_move h
    simp only [hguard.1, Phase.permits, Bool.toNat_false, Bool.toNat_true]
    omega
  | accept =>
    simp only [State.step] at hs'
    split_ifs at hs' with hguard
    cases hs'
    refine ⟨?_, live_spawn h.one s.generation 1⟩
    simp only [State.spawn, countP_spawn, hguard, Phase.permits, Bool.toNat_false,
      Bool.toNat_true] at htotal ⊢
    omega
  | acceptError =>
    simp only [State.step] at hs'
    split_ifs at hs' with hguard
    cases hs'
    apply conserved_move h
    rw [hguard]
    rfl
  | retry =>
    simp only [State.step] at hs'
    split_ifs at hs' with hguard
    cases hs'
    apply conserved_move h
    rw [hguard]
    rfl
  | rebind => exact conserved_leaveAccept h rfl hs'
  | shutdown => exact conserved_leaveAccept h rfl hs'
  | drainAcquire =>
    simp only [State.step] at hs'
    split at hs'
    · rename_i n hphase
      split_ifs at hs' with hguard
      cases hs'
      apply conserved_move h
      simp only [hphase, Phase.permits, Bool.toNat_false, Bool.toNat_true]
      omega
    · cases hs'
  | drainAccept =>
    simp only [State.step] at hs'
    split at hs'
    · rename_i n hphase
      cases hs'
      apply conserved_move h
      simp only [hphase, Phase.permits, Bool.toNat_false, Bool.toNat_true]
      omega
    · cases hs'
  | drainStop =>
    simp only [State.step] at hs'
    split at hs'
    · rename_i n hphase
      cases hs'
      rw [hphase] at htotal
      exact conserved_drainStop h htotal
    · rename_i n hphase
      split_ifs at hs'
      cases hs'
      rw [hphase] at htotal
      exact conserved_drainStop h htotal
    · cases hs'
  | acquireMany =>
    simp only [State.step] at hs'
    split_ifs at hs' with hguard
    cases hs'
    apply conserved_move h
    simp only [hguard.1, Phase.permits]
    omega
  | finish =>
    simp only [State.step] at hs'
    split_ifs at hs' with hguard
    cases hs'
    apply conserved_move h
    rw [hguard.1]
    rfl
  | graceExceeded =>
    simp only [State.step] at hs'
    split_ifs at hs' with hguard
    cases hs'
    apply conserved_abort
    apply conserved_move h
    rw [hguard]
    rfl
  | cancel =>
    simp only [State.step] at hs'
    split at hs'
    · rename_i hphase
      cases hs'
      apply conserved_move h
      rw [hphase]
      rfl
    · rename_i hphase
      cases hs'
      apply conserved_move h
      rw [hphase]
      rfl
    · exact conserved_leaveAccept h rfl hs'
  | abortGeneration generation =>
    simp only [State.step] at hs'
    split_ifs at hs'
    cases hs'
    exact conserved_abort h generation
  | delegate i => exact conserved_delegate h hs'
  | ends i => exact conserved_ends h hs'

end

namespace State

/-- Connections, those collected from the backlog too, and sessions. -/
def live (s : State) : ℕ :=
  s.tasks.countP Task.live + match s.phase with
    | .rebinding _ drained => drained
    | _ => 0

def pending (s : State) : ℕ :=
  match s.phase with
  | .accepting permit => permit.toNat
  | .rebinding permit _ => permit.toNat
  | _ => 0

def acquired (total : ℕ) (s : State) : ℕ := if s.phase = .drained then total else 0

end State

theorem Conserved.balance {size total : ℕ} {s : State} (h : Conserved size total s) :
    s.available + s.live + s.pending + s.acquired total = size := by
  have htotal := h.total
  have hlive : s.tasks.countP Task.permit = s.tasks.countP Task.live :=
    List.countP_congr fun t ht => by rw [h.one t ht]
  cases hphase : s.phase <;>
    simp only [State.live, State.pending, State.acquired, hphase, Phase.permits, hlive,
      reduceCtorEq, ↓reduceIte] at htotal ⊢ <;>
    omega

/-- In every interleaving the permits balance, whatever is live holds exactly one, and the drain
succeeds only when nothing is live. -/
theorem run_permits (maxConnections : ℕ) (actions : List Action) (s : State)
    (h : run (State.step (permitTotal maxConnections)) actions (bind maxConnections) = some s) :
    s.available + s.live + s.pending + s.acquired (permitTotal maxConnections) =
      max 1 maxConnections ∧
    (∀ t ∈ s.tasks, t.permit = t.live) ∧
    s.live ≤ max 1 maxConnections ∧
    (max 1 maxConnections ≤ u32Max → ∀ s',
      s.step (permitTotal maxConnections) .acquireMany = some s' → s.live = 0) := by
  have hconserved := run_invariant (Conserved (permitCount maxConnections) (permitTotal maxConnections))
    (fun _ _ _ _ hs hstep => conserved_step hs hstep) (conserved_bind maxConnections _) h
  have hbalance := hconserved.balance
  have hsize : permitCount maxConnections = max 1 maxConnections := Nat.max_comm _ _
  rw [hsize] at hbalance
  refine ⟨hbalance, hconserved.one, by omega, fun hsmall s' hs' => ?_⟩
  have htotal : permitTotal maxConnections = max 1 maxConnections := by
    rw [permitTotal, hsize, if_pos hsmall]
  simp only [State.step] at hs'
  split_ifs at hs' with hguard
  have henough := hguard.2
  omega

def upgradeAndRebind : List Action :=
  [.acquire, .accept, .delegate 0, .ends 0, .acquire, .rebind, .drainAcquire, .drainAccept,
    .drainStop, .ends 0, .ends 0, .shutdown]

theorem run_permits_upgradeAndRebind :
    ∃ s, run (State.step (permitTotal 2)) upgradeAndRebind (bind 2) = some s ∧
      s.available + s.live + s.pending + s.acquired (permitTotal 2) = max 1 2 ∧
      ∀ s', s.step (permitTotal 2) .acquireMany = some s' → s.live = 0 := by
  have hrun : run (State.step (permitTotal 2)) upgradeAndRebind (bind 2) =
      some ⟨2, .stopping, 1, []⟩ := by decide
  have h := run_permits 2 upgradeAndRebind _ hrun
  exact ⟨_, hrun, h.1, h.2.2.2 (by decide)⟩

/-- With `max_connections` 0 a connection is served, the drain itself holds permits, and from 2^32
on the clamped drain succeeds beside a live connection. -/
theorem run_permit_exceptions :
    (∃ s, run (State.step (permitTotal 0)) [.acquire, .accept] (bind 0) = some s ∧
      ¬ s.live ≤ 0) ∧
    (∃ s, run (State.step (permitTotal 1)) [.shutdown, .acquireMany] (bind 1) = some s ∧
      s.available + s.live + s.pending ≠ permitCount 1) ∧
    ∃ s s', run (State.step (permitTotal (2 ^ 32))) [.acquire, .accept, .shutdown]
        (bind (2 ^ 32)) = some s ∧
      s.step (permitTotal (2 ^ 32)) .acquireMany = some s' ∧ s.live ≠ 0 :=
  ⟨⟨⟨0, .accepting false, 0, [.accepted 0]⟩, by decide, by decide⟩,
    ⟨⟨0, .drained, 0, []⟩, by decide, by decide⟩,
    ⟨⟨u32Max, .stopping, 0, [.accepted 0]⟩, ⟨0, .drained, 0, [.accepted 0]⟩,
      by decide, by decide, by decide⟩⟩

end FandheBackend.CorePermits
