import FandheBackend.ActionRuns
import FandheBackend.KeyedList
import Mathlib.Logic.Function.Basic

set_option autoImplicit false

/-!
# Peer connections and their slots (`crates/plugin-webrtc/src/handler.rs`, `config.rs`, `drain.rs`)

A request reserves a slot, lets a task of its own build the connection, and hands the connection
to the registry. Each step is one section under a lock, with the code around it that does not
wait. A request is known by the number of its slot, and so is the connection that it builds.
-/
namespace FandheBackend.WebRtcRegistry
open ActionRuns

inductive PcState where
  | empty
  | building
  | abandoned
  | held
  deriving DecidableEq, Repr

inductive RegistrySlot where
  | reserved
  | active (pc : ℕ)
  deriving DecidableEq, Repr

/-- Where a request is, with its `SignalingGuard`. -/
inductive Guard where
  | absent
  | working
  -- `rx.await` in `build_owned`.
  | waiting
  -- The waits between the build and `activate`.
  | signaling
  -- `finish`, from `close().await` on.
  | finishing
  -- `activate` found no connection; the guard is dropped on return.
  | returning
  -- `activate`, with the connection taken out of the state.
  | activating
  -- `drop` after its section on the state, with the connection if there was one.
  | dropping (pc : Bool)
  | ended
  deriving DecidableEq, Repr

/-- Where the task is that builds the connection (`run_build`). -/
inductive Build where
  | notStarted
  | running
  -- The connection is there and the state was not looked at yet.
  | built
  -- An error or a panic, after the section on the state.
  | failed
  -- The caller is gone; the task has to close the connection.
  | abandoned
  | closing
  | ended
  deriving DecidableEq, Repr

structure Request where
  pc : PcState
  guard : Guard
  build : Build
  built : Bool
  closing : Bool
  deriving DecidableEq, Repr

/-- The shared `WebRtcConfig` and the requests that use it. -/
structure World where
  maxPeerConnections : ℕ
  registry : List (ℕ × RegistrySlot)
  nextSlotId : ℕ
  terminalDraining : Bool
  requests : ℕ → Request
  -- `drain_for_shutdown` has taken the active connections.
  drained : Bool

inductive Action where
  | reserve
  | spawnBuild (i : ℕ)
  | buildOk (i : ℕ)
  | buildFailed (i : ℕ)
  | publish (i : ℕ)
  | closeAbandoned (i : ℕ)
  | buildRelease (i : ℕ)
  | receive (i : ℕ)
  | finish (i : ℕ)
  | finishRelease (i : ℕ)
  | activate (i : ℕ)
  | activateSlot (i : ℕ)
  -- The guard is dropped while it is armed: a cancellation, the timeout, a panic, a return.
  | drop (i : ℕ)
  | dropRelease (i : ℕ)
  | peerEvent (i : ℕ)
  -- `take_active_peers` with the closes that follow, of a rebind or of the last drain.
  | takeActive
  | beginTerminalDrain

def Request.idle : Request := ⟨.empty, .absent, .notStarted, false, false⟩

def RegistrySlot.isActive : RegistrySlot → Bool
  | .active _ => true
  | .reserved => false

namespace World

def new (maxPeerConnections : ℕ) : World :=
  ⟨maxPeerConnections, [], 0, false, fun _ => .idle, false⟩

def modify (w : World) (i : ℕ) (f : Request → Request) : World :=
  { w with requests := Function.update w.requests i (f (w.requests i)) }

/-- `spawn_close`, or the first poll of `close()`. -/
def startClose (w : World) (pc : ℕ) : World := w.modify pc fun r => { r with closing := true }

def reserveSlot (w : World) : World :=
  if w.maxPeerConnections ≤ w.registry.length then w
  else { w with
    registry := w.registry ++ [(w.nextSlotId, .reserved)], nextSlotId := w.nextSlotId + 1,
    requests := Function.update w.requests w.nextSlotId { Request.idle with guard := .working } }

def releaseSlot (w : World) (i : ℕ) : World :=
  match KeyedList.find w.registry i with
  | none => w
  | some .reserved => { w with registry := KeyedList.erase i w.registry }
  | some (.active pc) => { w with registry := KeyedList.erase i w.registry }.startClose pc

def activateSlot (w : World) (i pc : ℕ) : World :=
  if w.terminalDraining then
    { w with registry := w.registry.filter fun e => e.1 ≠ i }.startClose pc
  else match KeyedList.find w.registry i with
    | some _ => { w with registry := KeyedList.set i (.active pc) w.registry }
    | none => w.startClose pc

def takeActivePeers (w : World) : World :=
  { w with
    registry := w.registry.filter fun e => !e.2.isActive,
    requests := fun pc => if w.registry.any (·.2 = .active pc) then
      { w.requests pc with closing := true } else w.requests pc,
    drained := w.drained || w.terminalDraining }

def step (w : World) : Action → Option World
  | .reserve => some w.reserveSlot
  | .spawnBuild i =>
    if (w.requests i).guard = .working then
      some (w.modify i fun r => { r with pc := .building, guard := .waiting, build := .running })
    else none
  | .buildOk i =>
    if (w.requests i).build = .running then
      some (w.modify i fun r => { r with build := .built, built := true })
    else none
  | .buildFailed i =>
    if (w.requests i).build = .running then
      some (w.modify i fun r => { r with
        pc := if r.pc = .building then .empty else r.pc, build := .failed })
    else none
  | .publish i =>
    if (w.requests i).build = .built then
      some (w.modify i fun r =>
        if r.pc = .building then { r with pc := .held, build := .ended }
        else { r with build := .abandoned })
    else none
  | .closeAbandoned i =>
    if (w.requests i).build = .abandoned then
      some ((w.startClose i).modify i fun r => { r with build := .closing })
    else none
  | .buildRelease i =>
    if (w.requests i).build = .failed ∨ (w.requests i).build = .closing then
      some ((w.releaseSlot i).modify i fun r => { r with build := .ended })
    else none
  | .receive i =>
    if (w.requests i).guard = .waiting ∧ (w.requests i).build = .ended ∧
        (w.requests i).pc = .held then
      some (w.modify i fun r => { r with guard := .signaling })
    else none
  | .finish i =>
    if (w.requests i).guard = .working ∨ (w.requests i).guard = .signaling ∨
        ((w.requests i).guard = .waiting ∧ (w.requests i).build = .ended ∧
          (w.requests i).pc ≠ .held) then
      some (w.modify i fun r => { r with
        guard := .finishing, closing := r.closing || r.pc == .held })
    else none
  | .finishRelease i =>
    if (w.requests i).guard = .finishing then
      some ((w.releaseSlot i).modify i fun r => { r with guard := .ended })
    else none
  | .activate i =>
    if (w.requests i).guard = .signaling then
      some (w.modify i fun r =>
        if r.pc = .held then { r with pc := .empty, guard := .activating }
        else { r with guard := .returning })
    else none
  | .activateSlot i =>
    if (w.requests i).guard = .activating then
      some ((w.activateSlot i i).modify i fun r => { r with guard := .ended })
    else none
  | .drop i =>
    match (w.requests i).guard with
    | .working | .waiting | .signaling | .finishing | .returning =>
      some (w.modify i fun r => match r.pc with
        | .building => { r with pc := .abandoned, guard := .ended }
        | .held => { r with pc := .empty, guard := .dropping true }
        | .empty | .abandoned => { r with pc := .empty, guard := .dropping false })
    | _ => none
  | .dropRelease i =>
    match (w.requests i).guard with
    | .dropping pc =>
      some ((w.releaseSlot i).modify i fun r => { r with guard := .ended, closing := r.closing || pc })
    | _ => none
  | .peerEvent i => if (w.requests i).build = .notStarted then none else some (w.releaseSlot i)
  | .takeActive => some w.takeActivePeers
  | .beginTerminalDrain => some { w with terminalDraining := true }

end World

end FandheBackend.WebRtcRegistry
