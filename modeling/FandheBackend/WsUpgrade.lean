import FandheBackend.WsHandshake
import FandheBackend.WsSessionPanics

set_option autoImplicit false

/-!
# The upgrade of a connection (`crates/plugin-websocket/src/lib.rs`)

`handle_upgrade_with_peer_addr` answers the handshake and runs the session, and calls the handler
on the way. Each wait may end with a cancellation. The bytes that came with the request are the
first that `ws.next()` reads, so they are part of what the session is given.
-/
namespace FandheBackend.WsUpgrade
open StdBytes HttpExtensions HttpRequestHead HttpResponse WsPathPattern WsHandshake WsSession

def maxContextHeaderValueBytes : ℕ := 1024
def maxContextQueryBytes : ℕ := 2048

section
variable {TypeId Addr : Type} {E : TypeId → Type}

structure ConnRequestInfo (E : TypeId → Type) (Addr : Type) where
  peerAddr : Option Addr
  host : Option Bytes
  origin : Option Bytes
  userAgent : Option Bytes
  query : Option Bytes
  extensions : RequestExtensions E

def boundedHeaderValue (head : RequestHead E) (name : Bytes) : Option Bytes :=
  (head.header name).filter (·.length ≤ maxContextHeaderValueBytes)

def ConnRequestInfo.fromHead (head : RequestHead E) (peerAddr : Option Addr) :
    ConnRequestInfo E Addr where
  peerAddr := peerAddr
  host := boundedHeaderValue head (ascii "host")
  origin := boundedHeaderValue head (ascii "origin")
  userAgent := boundedHeaderValue head (ascii "user-agent")
  query := head.query.filter (·.length ≤ maxContextQueryBytes)
  extensions := head.extensions

/-- What `on_open` is given, besides the sender of the session. -/
structure WsOpenContext (E : TypeId → Type) (Addr : Type) where
  connId : UInt64
  params : PathParams
  info : ConnRequestInfo E Addr

/-- What `on_message_with_ctx` and `on_close` are given. -/
structure WsConnContext (E : TypeId → Type) (Addr : Type) where
  connId : UInt64
  params : PathParams
  info : ConnRequestInfo E Addr

inductive Callback (E : TypeId → Type) (Addr : Type) where
  | onOpen (ctx : WsOpenContext E Addr)
  | onMessage (ctx : WsConnContext E Addr) (event : HandlerEvent)
  | onClose (ctx : WsConnContext E Addr) (reason : CloseReason)

/-- The arguments of `handle_upgrade_with_peer_addr`, and what lies outside of it. -/
structure Env (E : TypeId → Type) (Addr : Type) where
  head : RequestHead E
  config : WebSocketConfig E Addr
  peerAddr : Option Addr
  deriveAcceptKey : Bytes → Bytes
  latest : ℕ

namespace Env
variable (env : Env E Addr)

def matchedParams : PathParams := (matchConfigPath env.head env.config).getD []

def info : ConnRequestInfo E Addr := .fromHead env.head env.peerAddr

def openContext (connId : UInt64) : WsOpenContext E Addr := ⟨connId, env.matchedParams, env.info⟩

def connContext (connId : UInt64) : WsConnContext E Addr := ⟨connId, env.matchedParams, env.info⟩

def check : Except Response Unit :=
  match env.config.handshakeCheck with
  | some check => check ⟨env.head, env.matchedParams, env.peerAddr⟩
  | none => .ok ()

end Env

inductive Stage (E : TypeId → Type) (Addr : Type) where
  | entered
  -- `write_racing_cancel`, with what is returned after it; nothing after the 101.
  | writing (bytes : Bytes) (ending : Option (Except WsError Unit))
  | established
  | session (ctx : WsConnContext E Addr) (s : Session)
  -- `on_close` was called; its context still has a sender.
  | closed (ctx : WsConnContext E Addr) (s : Session) (result : Except WsError Unit)
  | returned (result : Except WsError Unit)

structure Upgrade (E : TypeId → Type) (Addr : Type) where
  stage : Stage E Addr
  -- The responses that were written to their end.
  written : List Bytes
  callbacks : List (Callback E Addr)

inductive UpgradeAction where
  -- The first poll of `cancel`.
  | enter (cancelled : Bool)
  | wrote (ok : Bool)
  | cancel
  -- With the id from the counter.
  | onOpen (connId : UInt64) (now : ℕ)
  | session (action : WsSession.Action)
  | onClose

/-- `handshake::validate` and the handshake check, up to the write of the response. -/
def Env.respond (env : Env E Addr) : Stage E Addr :=
  match validate env.deriveAcceptKey env.head with
  | .error .unsupportedVersion => .writing serialize426 (some (.error .unsupportedVersion))
  | .error (.invalidHandshake reason) =>
    .writing serialize400 (some (.error (.invalidHandshake reason)))
  | .error error => .returned (.error error)
  | .ok acceptKey =>
    match env.check with
    | .error rejection =>
      .writing ((normalizeRejection rejection).serialize false) (some (.ok ()))
    | .ok () => .writing (serialize101 acceptKey) none

namespace Upgrade

def new : Upgrade E Addr := ⟨.entered, [], []⟩

/-- A step of the session; the calls of the handler that begin or end in it are called back. -/
def stepSession (env : Env E Addr) (u : Upgrade E Addr) (ctx : WsConnContext E Addr) (s : Session)
    (action : WsSession.Action) : Option (Upgrade E Addr) :=
  (s.step env.latest env.config.session action).map fun s' =>
    { u with
      stage := .session ctx s'
      callbacks := u.callbacks ++
        (s'.record.log.drop s.record.log.length).map (Callback.onMessage ctx) }

def step (env : Env E Addr) (u : Upgrade E Addr) : UpgradeAction → Option (Upgrade E Addr)
  | .enter cancelled =>
    match u.stage with
    | .entered =>
      some { u with stage := if cancelled then .returned (.ok ()) else env.respond }
    | _ => none
  | .wrote ok =>
    match u.stage with
    | .writing bytes ending =>
      if ok then
        some { u with
          stage := ending.elim .established .returned
          written := u.written ++ [bytes] }
      else some { u with stage := .returned (.error .io) }
    | _ => none
  | .cancel =>
    match u.stage with
    | .writing _ ending => some { u with stage := .returned (ending.getD (.ok ())) }
    | _ => none
  | .onOpen connId now =>
    match u.stage with
    | .established =>
      if now ≤ env.latest then
        some { u with
          stage := .session (env.connContext connId) (Session.new env.config.session now)
          callbacks := u.callbacks ++ [.onOpen (env.openContext connId)] }
      else none
    | _ => none
  | .session action =>
    match u.stage with
    | .session ctx s => u.stepSession env ctx s action
    | .closed ctx s result =>
      (s.step env.latest env.config.session action).map fun s' =>
        { u with stage := .closed ctx s' result }
    | _ => none
  | .onClose =>
    match u.stage with
    | .session ctx s =>
      match s.phase with
      | .done reason result =>
        some { u with
          stage := .closed ctx s result
          callbacks := u.callbacks ++ [.onClose ctx reason] }
      | _ => none
    | _ => none

end Upgrade

end

end FandheBackend.WsUpgrade
