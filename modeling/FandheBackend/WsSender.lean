import Mathlib.Logic.Function.Basic
import FandheBackend.StdBytes

set_option autoImplicit false

/-!
# The outbound queue of a session (`crates/plugin-websocket/src/handler.rs`)

The calls of `WsSender::send`, `try_send` and `close` on any clones, and the session that
receives. A call is a task of its own: `reserve`, `try_reserve` and the sections under the lock
of `closing` are single steps, and a future may be dropped where it waits.
-/
namespace FandheBackend.WsSender
open StdBytes

inductive WsMessage where
  | text (data : String)
  | binary (data : Bytes)
  deriving DecidableEq

inductive OutboundItem where
  | message (msg : WsMessage)
  | close (code : UInt16) (reason : String)
  deriving DecidableEq

def OutboundItem.isClose : OutboundItem → Bool
  | .message _ => false
  | .close _ _ => true

/-- The code may stand in a Close frame that a server sends. -/
def is_sendable_close_code (code : UInt16) : Bool :=
  (1000 ≤ code && code ≤ 1003) || (1007 ≤ code && code ≤ 1009) || (1011 ≤ code && code ≤ 1014) ||
    (3000 ≤ code && code ≤ 4999)

def maxCloseReasonBytes : ℕ := 123

inductive Op where
  | send (msg : WsMessage)
  | trySend (msg : WsMessage)
  | close (code : UInt16) (reason : String)
  deriving DecidableEq

namespace Op

def item : Op → OutboundItem
  | .send msg | .trySend msg => .message msg
  | .close code reason => .close code reason

def isClose : Op → Bool
  | .close _ _ => true
  | _ => false

end Op

/-- What a call returns: `WsSendError`, `WsTrySendError` and `WsCloseError` in one type. -/
inductive Outcome where
  | ok
  | closed
  | full
  | invalidCode
  | reasonTooLong
  deriving DecidableEq, Repr

inductive Call where
  | idle
  | requested (code : UInt16) (reason : String)
  -- In `reserve_or_closed`, after it saw `closed_signal` unset.
  | waiting (op : Op)
  -- The semaphore has given the waiting `reserve` its permit.
  | granted (op : Op)
  -- `try_reserve` found no permit.
  | refused (msg : WsMessage)
  | reserved (op : Op)
  -- The Close item is in the queue, `closed_signal` is not sent yet.
  | announcing (code : UInt16) (reason : String)
  -- The `CloseRequest` is about to be dropped; with no result, the whole future is.
  | releasing (code : UInt16) (reason : String) (result : Option Outcome)
  | returned (op : Op) (result : Outcome)
  | dropped (op : Op)
  deriving DecidableEq

namespace Call

def holdsPermit : Call → Bool
  | .granted _ | .reserved _ => true
  | _ => false

def holdsRequest : Call → Bool
  | .requested _ _ | .announcing _ _ | .releasing _ _ _ => true
  | .waiting op | .granted op | .reserved op => op.isClose
  | _ => false

def hasCommitted : Call → Bool
  | .announcing _ _ | .releasing _ _ (some .ok) | .returned _ .ok => true
  | _ => false

def op : Call → Option Op
  | .idle => none
  | .refused msg => some (.trySend msg)
  | .requested code reason | .announcing code reason | .releasing code reason _ =>
    some (.close code reason)
  | .waiting op | .granted op | .reserved op | .returned op _ | .dropped op => some op

end Call

inductive ReceiverState where
  | attached
  | closed
  | dropped
  deriving DecidableEq, Repr

structure Outbound where
  free : ℕ
  -- The items in the channel, each with the call it comes from.
  queue : List (ℕ × OutboundItem)
  receiver : ReceiverState
  closing : Bool
  pending : ℕ
  closeRequestSignal : Bool
  closedSignal : Bool
  sealed : Bool
  calls : ℕ → Call
  -- The items in the order of their commits.
  committed : List (ℕ × OutboundItem)
  received : List (ℕ × OutboundItem)

inductive Action where
  | start (call : ℕ) (op : Op)
  | grant (call : ℕ)
  | go (call : ℕ)
  | drop (call : ℕ)
  | recv
  | sealForSession
  | announceSeal
  | closeReceiver
  | dropReceiver
  deriving DecidableEq

def Action.call : Action → Option ℕ
  | .start call _ | .grant call | .go call | .drop call => some call
  | _ => none

namespace Outbound

def channel (capacity : ℕ) : Outbound where
  free := max capacity 1
  queue := []
  receiver := .attached
  closing := false
  pending := 0
  closeRequestSignal := false
  closedSignal := false
  sealed := false
  calls := fun _ => .idle
  committed := []
  received := []

def setCall (s : Outbound) (i : ℕ) (c : Call) : Outbound :=
  { s with calls := Function.update s.calls i c }

/-- A call leaves with a result, or because its future is dropped; a `close` drops its
`CloseRequest` first. -/
def leave : Op → Option Outcome → Call
  | .close code reason, result => .releasing code reason result
  | op, some result => .returned op result
  | op, none => .dropped op

def accepted : Op → Call
  | .close code reason => .announcing code reason
  | op => .returned op .ok

/-- `CloseRequest::new`. -/
def request (s : Outbound) : Outbound :=
  { s with pending := s.pending + 1, closeRequestSignal := true }

/-- `CloseRequest::drop`. -/
def withdraw (s : Outbound) : Outbound :=
  { s with
    pending := s.pending - 1
    closeRequestSignal := decide (0 < s.pending - 1) || s.closing }

def start (s : Outbound) (i : ℕ) (op : Op) : Outbound :=
  match op with
  | .send _ => s.setCall i (if s.closedSignal then .returned op .closed else .waiting op)
  | .trySend msg =>
    if s.receiver ≠ .attached then s.setCall i (.returned op .closed)
    else if s.free = 0 then s.setCall i (.refused msg)
    else { s.setCall i (.reserved op) with free := s.free - 1 }
  | .close code reason =>
    if is_sendable_close_code code = false then s.setCall i (.returned op .invalidCode)
    else if maxCloseReasonBytes < reason.utf8ByteSize then
      s.setCall i (.returned op .reasonTooLong)
    else s.request.setCall i (.requested code reason)

/-- The section of `commit_with` under the lock. -/
def commit (s : Outbound) (i : ℕ) (op : Op) : Outbound :=
  if s.closing then { s.setCall i (leave op (some .closed)) with free := s.free + 1 }
  else
    { s.setCall i (accepted op) with
      closing := op.isClose
      queue := s.queue ++ [(i, op.item)]
      committed := s.committed ++ [(i, op.item)] }

/-- `reserve_or_closed` looks at `closed_signal` first; `reserve` fails when the receiver is
closed. -/
def refuses (s : Outbound) : Bool := s.closedSignal || decide (s.receiver ≠ .attached)

def go (s : Outbound) (i : ℕ) : Call → Option Outbound
  | .requested code reason =>
    some (s.setCall i
      (if s.closedSignal then .releasing code reason (some .closed)
        else .waiting (.close code reason)))
  | .waiting op => if s.refuses then some (s.setCall i (leave op (some .closed))) else none
  | .granted op =>
    if s.refuses then some { s.setCall i (leave op (some .closed)) with free := s.free + 1 }
    else some (s.setCall i (.reserved op))
  | .refused msg =>
    some (s.setCall i (.returned (.trySend msg) (if s.closing then .closed else .full)))
  | .reserved op => some (s.commit i op)
  | .announcing code reason =>
    some { s.setCall i (.releasing code reason (some .ok)) with closedSignal := true }
  | .releasing code reason (some result) =>
    some (s.withdraw.setCall i (.returned (.close code reason) result))
  | .releasing code reason none => some (s.withdraw.setCall i (.dropped (.close code reason)))
  | .idle | .returned _ _ | .dropped _ => none

def drop (s : Outbound) (i : ℕ) : Call → Option Outbound
  | .waiting op => some (s.setCall i (leave op none))
  | .granted op => some { s.setCall i (leave op none) with free := s.free + 1 }
  | _ => none

/-- `recv` or `try_recv` of the session. -/
def recv (s : Outbound) : Option Outbound :=
  match s.queue with
  | [] => none
  | item :: rest =>
    some { s with queue := rest, free := s.free + 1, received := s.received ++ [item] }

def step (s : Outbound) : Action → Option Outbound
  | .start i op => if s.calls i = .idle then some (s.start i op) else none
  | .grant i =>
    match s.calls i with
    | .waiting op =>
      if s.receiver = .attached ∧ 0 < s.free then
        some { s.setCall i (.granted op) with free := s.free - 1 }
      else none
    | _ => none
  | .go i => s.go i (s.calls i)
  | .drop i => s.drop i (s.calls i)
  | .recv => s.recv
  | .sealForSession => some { s with closing := true, sealed := true }
  | .announceSeal => if s.sealed then some { s with closedSignal := true } else none
  | .closeReceiver =>
    if s.sealed ∧ s.receiver = .attached then some { s with receiver := .closed } else none
  | .dropReceiver =>
    if s.sealed ∧ s.receiver ≠ .dropped then
      some { s with receiver := .dropped, queue := [], free := s.free + s.queue.length }
    else none

end Outbound

end FandheBackend.WsSender
