import FandheBackend.HttpConnection
import FandheBackend.HttpResponse
import FandheBackend.WsPathPattern
import FandheBackend.WsSession

set_option autoImplicit false

namespace FandheBackend.WsHandshake
open StdBytes HttpRequestHead HttpConnection HttpResponse WsPathPattern WsSession

section
variable {TypeId Addr : Type} {E : TypeId → Type}

structure WsHandshakeContext (E : TypeId → Type) (Addr : Type) where
  head : RequestHead E
  params : PathParams
  peerAddr : Option Addr

/-- `WebSocketConfig`: what the session reads of it, and what the handshake does. -/
structure WebSocketConfig (E : TypeId → Type) (Addr : Type) where
  session : WsSession.Config
  path : Bytes
  pattern : Option PathPattern
  handshakeCheck : Option (WsHandshakeContext E Addr → Except Response Unit)

def matchConfigPath (head : RequestHead E) (config : WebSocketConfig E Addr) :
    Option PathParams :=
  match config.pattern with
  | some pattern => pattern.matchPath head.path
  | none => if head.path = config.path then some [] else none

def connectionContainsUpgrade (head : RequestHead E) : Bool :=
  (connectionTokens head).any fun token => eqIgnoreAsciiCase token (ascii "upgrade")

/-- 24 characters of the base64 alphabet. -/
def isValidBase64Key (key : Bytes) : Bool :=
  key.length == 24 &&
    key.all fun b => isAsciiAlphanumeric b || b == 43 || b == 47 || b == 61

/-- The accept key, for a request that RFC 6455 allows. -/
def validate (deriveAcceptKey : Bytes → Bytes) (head : RequestHead E) : Except WsError Bytes :=
  if head.method ≠ ascii "GET" then .error (.invalidHandshake "method must be GET")
  else if head.version ≠ .http11 then .error (.invalidHandshake "version must be HTTP/1.1")
  else if !(head.header (ascii "upgrade")).any (eqIgnoreAsciiCase · (ascii "websocket")) then
    .error (.invalidHandshake "missing Upgrade: websocket")
  else if !connectionContainsUpgrade head then
    .error (.invalidHandshake "Connection header must contain 'upgrade'")
  else if head.header (ascii "sec-websocket-version") ≠ some (ascii "13") then
    .error .unsupportedVersion
  else match head.header (ascii "sec-websocket-key") with
    | none => .error (.invalidHandshake "missing Sec-WebSocket-Key")
    | some key =>
      if !isValidBase64Key key then .error (.invalidHandshake "invalid Sec-WebSocket-Key")
      else .ok (deriveAcceptKey key)

def serialize101 (acceptKey : Bytes) : Bytes :=
  ascii "HTTP/1.1 101 Switching Protocols\r\nUpgrade: websocket\r\nConnection: Upgrade\r\n" ++
    ascii "Sec-WebSocket-Accept: " ++ acceptKey ++ crlf ++ crlf

def serialize400 : Bytes :=
  ascii "HTTP/1.1 400 Bad Request\r\nConnection: close\r\nContent-Length: 0\r\n\r\n"

def serialize426 : Bytes :=
  ascii "HTTP/1.1 426 Upgrade Required\r\nSec-WebSocket-Version: 13\r\n" ++
    ascii "Connection: close\r\nContent-Length: 0\r\n\r\n"

/-- A rejection that is no refusal, or that cannot have a body, becomes a 400. -/
def normalizeRejection (response : Response) : Response :=
  if 300 ≤ response.status ∧ response.status < 600 ∧
      Response.isBodylessStatus response.status = false then response
  else Response.empty 400

end

def Switches (bytes : Bytes) : Prop := ascii "HTTP/1.1 101" <+: bytes

theorem not_switches_serialize400 : ¬ Switches serialize400 := by
  unfold Switches
  decide

theorem not_switches_serialize426 : ¬ Switches serialize426 := by
  unfold Switches
  decide

theorem normalizeRejection_status (r : Response) :
    300 ≤ (normalizeRejection r).status ∧ (normalizeRejection r).status < 600 := by
  unfold normalizeRejection
  split
  · next h => exact ⟨h.1, h.2.1⟩
  · decide

theorem numeral_head {n : ℕ} (hlo : 300 ≤ n) (hhi : n < 600) :
    (numeral 10 n).head? ≠ some 49 := by
  have hdigits : numeral 10 n =
      [digitByte (n / 100), digitByte (n / 10 % 10), digitByte (n % 10)] := by
    have hdiv : n / 10 / 10 = n / 100 := by omega
    rw [numeral, if_neg (by omega), Nat.digits_def' (by omega) (by omega),
      Nat.digits_def' (by omega) (by omega), hdiv,
      Nat.digits_of_lt 10 (n / 100) (by omega) (by omega)]
    rfl
  have hfirst : n / 100 = 3 ∨ n / 100 = 4 ∨ n / 100 = 5 := by omega
  rw [hdigits, List.head?_cons]
  rcases hfirst with hfirst | hfirst | hfirst <;> rw [hfirst] <;> decide

theorem not_switches_rejection (r : Response) :
    ¬ Switches ((normalizeRejection r).serialize false) := by
  obtain ⟨hlo, hhi⟩ := normalizeRejection_status r
  intro h
  rw [Switches, show ascii "HTTP/1.1 101" = ascii "HTTP/1.1 " ++ ascii "101" from rfl,
    Response.serialize, Response.headBytes, statusLine] at h
  simp only [List.append_assoc, List.prefix_append_right_inj] at h
  have hhead := numeral_head (n := (normalizeRejection r).status.toNat) hlo hhi
  obtain ⟨rest, hrest⟩ := h
  cases hnumeral : numeral 10 (normalizeRejection r).status.toNat with
  | nil => exact numeral_ne_nil _ _ hnumeral
  | cons b bs =>
    rw [hnumeral] at hrest hhead
    have hb : 49 = b := (List.cons.inj hrest).1
    exact hhead (congrArg some hb.symm)

end FandheBackend.WsHandshake
