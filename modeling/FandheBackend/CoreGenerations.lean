import Mathlib.Logic.Function.Basic
import FandheBackend.CorePermits
import FandheBackend.WatchChannel

set_option autoImplicit false

/-!
# Generations of a listener (`crates/core/src/server.rs`, `crates/core/src/plugin.rs`)

`BoundServer::run_until` as a machine of single statements, beside any number of
`RebindHandle::rebind` calls, the drain tasks of superseded generations and the handles on
their cancel sources. Every flag, cancel source, join set and listener that was ever made has
a number. Permits and accept errors only decide when an accept is ready, so the outcome of an
accept is part of the action.
-/
namespace FandheBackend.CoreGenerations
open WatchChannel
open CorePermits (rebindBacklogDrainLimit)

/-- The listener of `Server::bind`, or the one that a `rebind` call bound. -/
inductive Listener where
  | bound
  | rebound (call : ℕ)
  deriving DecidableEq, Repr

inductive Reply where
  | unsent
  | sent
  | dropped
  deriving DecidableEq, Repr

/-- How far `RebindHandle::rebind` is; `gone` is a call whose future was dropped. -/
inductive Call where
  | idle
  | sending
  | reserved
  | waiting
  | returned (ok : Bool)
  | gone
  deriving DecidableEq, Repr

structure Connection where
  listener : Listener
  flag : ℕ
  cancel : ℕ
  joinSet : ℕ
  deriving DecidableEq, Repr

inductive Point where
  | pollShutdown
  | pollRebind
  | pollAccept
  | spawnAccepted (stream : Listener)
  | storeFlag (call : ℕ)
  | drainBacklog (call : ℕ) (drained : List Listener)
  | spawnDrained (call : ℕ) (drained : List Listener)
  | swapListener (call : ℕ)
  | swapJoinSet (call : ℕ)
  | swapCancel (call : ℕ)
  | spawnDrain (call : ℕ) (oldCancel : ℕ)
  | renewFlag (call : ℕ)
  | reply (call : ℕ)
  | dropRebind
  | storeLastFlag
  | fireLast
  | awaitDrain
  | ended
  deriving DecidableEq, Repr

structure Loop where
  point : Point
  listener : Listener
  flag : ℕ
  flags : ℕ → Bool
  cancel : ℕ
  joinSet : ℕ
  connections : List Connection
  -- The listeners that were in force, in order.
  installed : List Listener
  -- The commands that `poll_recv` returned, in order.
  taken : List ℕ

structure Server extends Loop where
  signalled : Bool
  cancels : ℕ → Channel Bool
  receiving : Bool
  -- Free room in the channel of commands.
  permits : ℕ
  queue : List ℕ
  calls : ℕ → Call
  replies : ℕ → Reply
  -- Drain tasks that have not run yet, by their cancel source.
  spawned : List ℕ
  -- Drain tasks that have fired and wait for their join set.
  draining : List ℕ
  handles : List Receiver

/-- What polling a listener gives; `pending` stands for a missing permit too. -/
inductive Accept where
  | stream
  | failed
  | pending
  deriving DecidableEq, Repr

inductive Action where
  | signal
  | turn (accept : Accept)
  | fire (task : ℕ)
  | drained (task : ℕ)
  | subscribe (source : ℕ)
  | poll (handle : ℕ)
  | bind (call : ℕ) (ok : Bool)
  | reserve (call : ℕ)
  | push (call : ℕ)
  | receive (call : ℕ)
  | cancel (call : ℕ)
  deriving DecidableEq, Repr

namespace Server

def new : Server where
  point := .pollShutdown
  signalled := false
  listener := .bound
  flag := 0
  flags := fun _ => false
  cancel := 0
  cancels := fun _ => .new false
  joinSet := 0
  receiving := true
  permits := 1
  queue := []
  calls := fun _ => .idle
  replies := fun _ => .unsent
  spawned := []
  draining := []
  handles := []
  connections := []
  installed := [.bound]
  taken := []

def store (s : Server) (flag : ℕ) : Server :=
  { s with flags := Function.update s.flags flag true }

/-- `GenerationCancel::fire`. -/
def fire (s : Server) (source : ℕ) : Server :=
  { s with
    cancels := Function.update s.cancels source ((s.cancels source).sendReplace true)
    handles := s.handles.map (Receiver.wake source) }

def dropCancel (s : Server) (source : ℕ) : Server :=
  { s with
    cancels := Function.update s.cancels source (s.cancels source).close
    handles := s.handles.map (Receiver.wake source) }

/-- `GenerationCancel::handle`. -/
def handle (s : Server) (source : ℕ) : Server :=
  { s with handles := s.handles ++ [.subscribe source] }

/-- `join_set.spawn` of a connection with the current flag and a handle of the current source. -/
def spawn (s : Server) (stream : Listener) : Server :=
  { s.handle s.cancel with
    connections := s.connections ++ [⟨stream, s.flag, s.cancel, s.joinSet⟩] }

def goto (s : Server) (point : Point) : Server := { s with point := point }

def setCall (s : Server) (call : ℕ) (c : Call) : Server :=
  { s with calls := Function.update s.calls call c }

def dropReceiver (s : Server) : Server :=
  { s with
    receiving := false
    queue := []
    replies := fun i => if i ∈ s.queue then .dropped else s.replies i }

def turn (s : Server) (accept : Accept) : Option Server :=
  match s.point with
  | .pollShutdown => some (s.goto (if s.signalled then .dropRebind else .pollRebind))
  | .pollRebind =>
    match s.queue with
    | [] => some (s.goto .pollAccept)
    | call :: rest =>
      some { s with
        queue := rest
        permits := s.permits + 1
        taken := s.taken ++ [call]
        point := .storeFlag call }
  | .pollAccept =>
    match accept with
    | .stream => some (s.goto (.spawnAccepted s.listener))
    | .failed | .pending => some (s.goto .pollShutdown)
  | .spawnAccepted stream => some ((s.spawn stream).goto .pollShutdown)
  | .storeFlag call => some ((s.store s.flag).goto (.drainBacklog call []))
  | .drainBacklog call drained =>
    if drained.length < rebindBacklogDrainLimit ∧ accept = .stream then
      some (s.goto (.drainBacklog call (drained ++ [s.listener])))
    else some (s.goto (.spawnDrained call drained))
  | .spawnDrained call (stream :: rest) => some ((s.spawn stream).goto (.spawnDrained call rest))
  | .spawnDrained call [] => some (s.goto (.swapListener call))
  | .swapListener call =>
    some { s with
      listener := .rebound call
      installed := s.installed ++ [.rebound call]
      point := .swapJoinSet call }
  | .swapJoinSet call => some { s with joinSet := s.joinSet + 1, point := .swapCancel call }
  | .swapCancel call =>
    some { s with cancel := s.cancel + 1, point := .spawnDrain call s.cancel }
  | .spawnDrain call oldCancel =>
    some { s with spawned := s.spawned ++ [oldCancel], point := .renewFlag call }
  | .renewFlag call => some { s with flag := s.flag + 1, point := .reply call }
  | .reply call =>
    some { s with replies := Function.update s.replies call .sent, point := .pollShutdown }
  | .dropRebind => some (s.dropReceiver.goto .storeLastFlag)
  | .storeLastFlag => some ((s.store s.flag).goto .fireLast)
  | .fireLast => some ((s.fire s.cancel).goto .awaitDrain)
  | .awaitDrain => some ((s.dropCancel s.cancel).goto .ended)
  | .ended => none

/-- A step of a task other than `run_until`. A command whose permit was taken before the
receiver went away is still put into the channel, where nobody reads it. -/
def stepOther (s : Server) : Action → Option Server
  | .turn _ => none
  | .signal => some { s with signalled := true }
  | .fire task =>
    s.spawned[task]?.map fun source =>
      { s.fire source with
        spawned := s.spawned.eraseIdx task
        draining := s.draining ++ [source] }
  | .drained task =>
    s.draining[task]?.map fun source =>
      { s.dropCancel source with draining := s.draining.eraseIdx task }
  | .subscribe source => if source ≤ s.cancel then some (s.handle source) else none
  | .poll handle =>
    s.handles[handle]?.map fun r =>
      { s with handles := s.handles.set handle (r.poll (s.cancels r.channel) id) }
  | .bind call ok =>
    if s.calls call = .idle then some (s.setCall call (if ok then .sending else .returned false))
    else none
  | .reserve call =>
    if s.calls call ≠ .sending then none
    else if s.receiving = false then some (s.setCall call (.returned false))
    else if s.permits = 0 then none
    else some { s.setCall call .reserved with permits := s.permits - 1 }
  | .push call =>
    if s.calls call ≠ .reserved then none
    else some { s.setCall call .waiting with queue := s.queue ++ [call] }
  | .receive call =>
    if s.calls call ≠ .waiting then none
    else match s.replies call with
      | .sent => some (s.setCall call (.returned true))
      | .dropped => some (s.setCall call (.returned false))
      | .unsent => none
  | .cancel call =>
    match s.calls call with
    | .idle | .sending | .waiting => some (s.setCall call .gone)
    | .reserved | .returned _ | .gone => none

def step (s : Server) : Action → Option Server
  | .turn accept => s.turn accept
  | a => s.stepOther a

end Server

end FandheBackend.CoreGenerations
