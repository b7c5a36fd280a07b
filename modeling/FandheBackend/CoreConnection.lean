import FandheBackend.CoreGates
import FandheBackend.HttpChunked
import FandheBackend.HttpConnection

set_option autoImplicit false

/-!
# The connection loop (`handle_connection_with_permit` of `crates/core/src/server.rs`)

User code and plugins are functions of the number of the request on its connection. The
clock and the shutdown flag are looked at in ticks, one for each look; the flag is set at
some tick and stays set. The loop keeps an account of what it does, `events`, that no
function looks at.
-/
namespace FandheBackend.CoreConnection
open StdBytes HttpExtensions HttpRequestHead HttpBodyLength HttpBuffer HttpChunked
open HttpConnection HttpResponse CoreGates

/-- What `StreamingResponse::recv` returns. `finished` is `RecvOutcome::End`. -/
inductive RecvOutcome where
  | chunk (data : Bytes)
  | finished
  | aborted
  deriving DecidableEq, Repr

abbrev Recv := Option RecvOutcome

/-- What its receives return, in order; after the last one the channel is closed. -/
structure StreamingResponse where
  status : UInt16
  contentType : Option ContentType
  recvs : List Recv

def StreamingResponse.initialHead (streaming : StreamingResponse) : Response :=
  match streaming.contentType with
  | some contentType => (Response.empty streaming.status).withContentType contentType
  | none => Response.empty streaming.status

/-- `StreamingBodyEncoder`, whose results depend on the data given to it before. -/
structure StreamingBodyEncoder where
  transform : List Bytes → Bytes → Option Bytes
  finish : List Bytes → Option Bytes

def StreamingBodyEncoder.identity : StreamingBodyEncoder := ⟨fun _ data => some data, fun _ => some []⟩

section
variable {TypeId : Type} (E : TypeId → Type)

structure Interceptor where
  intercept : ℕ → RequestHead E → Bytes → Option Response
  mapResponse : ℕ → RequestHead E → Response → Response

structure Handler where
  handleStreaming : ℕ → RequestHead E → Bytes → Option StreamingResponse
  handle : ℕ → RequestHead E → Bytes → Response

structure Server where
  -- How many middlewares are registered.
  middlewares : ℕ
  gates : List (ℕ → RequestHead E → Check E)
  upgradeHandlers : List (ℕ → RequestHead E → Bool)
  tryHandleUpgrade : ℕ → RequestHead E → Bool
  interceptors : List (Interceptor E)
  tryIntercept : ℕ → RequestHead E → Bytes → Option Response
  handler : Option (Handler E)
  finalizeResponse : ℕ → RequestHead E → Response → Response
  finalizeStreamingHead : ℕ → RequestHead E → Response → Response
  prepareStreamingCompression : ℕ → RequestHead E → Response → Response × StreamingBodyEncoder
  keepAliveEnabled : Bool
  maxRequestsPerConnection : ℕ
  maxConnectionLifetime : ℕ
  maxBodyBytes : UInt64

inductive Hook where
  | onRequest (i : ℕ)
  | upgradeMatches (i : ℕ)
  | tryHandleUpgrade
  | intercept (i : ℕ)
  | tryIntercept
  | handleStreaming
  | handle
  | mapResponse (i : ℕ)
  | finalizeResponse
  | finalizeStreamingHead
  | prepareStreamingCompression
  | onResponse (i : ℕ) (status : UInt16)
  deriving DecidableEq, Repr

inductive Answer where
  | whole (response : Response)
  | chunked (response : Response)
  | untilClose (response : Response)
  deriving DecidableEq

inductive Event where
  | read (tick : ℕ) (request : Request E)
  | gate (consulted : Consulted E)
  | ran (hook : Hook) (extensions : RequestExtensions E)
  | upgradeCheck (tick : ℕ)
  | delegated
  | responded (answer : Answer) (keepAlive : Bool) (done : Bool)
  | sent (bytes : Bytes) (done : Bool)

structure State where
  conn : Conn
  reads : List Read
  tick : ℕ
  writeCalls : ℕ
  requestsServed : ℕ
  out : Bytes
  events : List (Event E)

end

structure Env where
  alloc : Alloc
  usizeMax : ℕ
  -- `connection_started_at.elapsed()` at a tick.
  elapsed : ℕ → ℕ
  shutdownFlag : ℕ → Bool
  shutdownFlag_stays : ∀ t, shutdownFlag t = true → shutdownFlag (t + 1) = true
  -- Whether the read of the request after so many others times out.
  readTimesOut : ℕ → Bool
  -- A write that fails or times out, with the number of bytes that it got through.
  writeFails : ℕ → Option ℕ

def Env.calm : Env where
  alloc := ⟨fun _ len additional => len + additional, fun _ _ minCap => minCap⟩
  usizeMax := 2 ^ 64 - 1
  elapsed _ := 0
  shutdownFlag _ := false
  shutdownFlag_stays _ h := h
  readTimesOut _ := false
  writeFails _ := none

def Answer.bytes : Answer → Bool → Bytes
  | .whole response, keepAlive => response.serialize keepAlive
  | .chunked response, keepAlive => response.serializeChunkedHead keepAlive
  | .untilClose response, _ => response.serializeStreamingHeadHttp10

def errorResponse : RequestError → Option Response
  | .parse .headerSectionTooLarge => some (.empty 431)
  | .parse .tooManyHeaders => some (.empty 431)
  | .parse .invalidRequestLine => some (.empty 400)
  | .parse .invalidHeader => some (.empty 400)
  | .parse .unsupportedVersion => some (.empty 505)
  | .body .bodyTooLarge => some (.empty 413)
  | .body .transferEncodingUnsupported => some (.empty 501)
  | .body .duplicateContentLength => some (.empty 400)
  | .body .invalidContentLength => some (.empty 400)
  | .body .contentLengthWithChunked => some (.empty 400)
  | .chunked .bodyTooLarge => some (.empty 413)
  | .chunked .invalidChunkSize => some (.empty 400)
  | .chunked .chunkLineTooLong => some (.empty 400)
  | .chunked .tooManyChunks => some (.empty 400)
  | .chunked .trailerUnsupported => some (.empty 400)
  | .chunked .invalidLineTerminator => some (.empty 400)
  | .unexpectedEof => none
  | .io => none

section
variable {TypeId : Type} {E : TypeId → Type}

namespace State

def start (reads : List Read) : State E := ⟨.new, reads, 0, 0, 0, [], []⟩

def log (s : State E) (events : List (Event E)) : State E :=
  { s with events := s.events ++ events }

/-- `write_all` of some bytes, under the given account of it. -/
def write (env : Env) (event : Bool → Event E) (bytes : Bytes) (s : State E) : Bool × State E :=
  let done := (env.writeFails s.writeCalls).isNone
  let sent := match env.writeFails s.writeCalls with
    | none => bytes
    | some n => bytes.take n
  (done, { s with
    writeCalls := s.writeCalls + 1
    out := s.out ++ sent
    events := s.events ++ [event done] })

def startResponse (env : Env) (answer : Answer) (keepAlive : Bool) (s : State E) :
    Bool × State E :=
  s.write env (.responded answer keepAlive) (answer.bytes keepAlive)

def send (env : Env) (bytes : Bytes) (s : State E) : Bool × State E :=
  s.write env (.sent bytes) bytes

end State

variable (server : Server E) (env : Env)

/-- `keep_alive` narrowed by the lifetime and the flag as they are now. -/
def stillAlive (keepAlive : Bool) (s : State E) : Bool × State E :=
  (keepAlive && decide (env.elapsed s.tick < server.maxConnectionLifetime) &&
    !env.shutdownFlag (s.tick + 1), { s with tick := s.tick + 2 })

def onResponse (head : RequestHead E) (status : UInt16) (s : State E) : State E :=
  s.log ((List.range server.middlewares).map fun i => .ran (.onResponse i status) head.extensions)

/-- The write of a whole response on the gate and the normal path, and what follows it. -/
def respond (head : RequestHead E) (response : Response) (keepAlive : Bool) (s : State E) :
    Bool × State E :=
  let w := s.startResponse env (.whole response) keepAlive
  if w.1 then (keepAlive, onResponse server head response.status w.2) else (false, w.2)

def respondAndClose (response : Response) (s : State E) : Bool × State E :=
  (false, (s.startResponse env (.whole response) false).2)

/-- `upgrade_handlers.iter().any(..)` from index `i` on. -/
def upgradeMatches (n : ℕ) (head : RequestHead E) :
    ℕ → List (ℕ → RequestHead E → Bool) → State E → Bool × State E
  | _, [], s => (false, s)
  | i, handler :: handlers, s =>
    let s := s.log [.ran (.upgradeMatches i) head.extensions]
    if handler n head then (true, s) else upgradeMatches n head (i + 1) handlers s

def answerUpgrade (n : ℕ) (head : RequestHead E) (s : State E) : Bool × State E :=
  let flag := env.shutdownFlag s.tick
  let s := { s.log [.upgradeCheck s.tick] with tick := s.tick + 1 }
  if flag then respondAndClose env (.empty 503) s
  else
    let s := s.log [.ran .tryHandleUpgrade head.extensions]
    if server.tryHandleUpgrade n head then (false, s.log [.delegated])
    else respondAndClose env (.empty 501) s

/-- `interceptors.iter().find_map(..)` from index `i` on. -/
def intercept (n : ℕ) (head : RequestHead E) (body : Bytes) :
    ℕ → List (Interceptor E) → State E → Option Response × State E
  | _, [], s => (none, s)
  | i, interceptor :: interceptors, s =>
    let s := s.log [.ran (.intercept i) head.extensions]
    match interceptor.intercept n head body with
    | some response => (some response, s)
    | none => intercept n head body (i + 1) interceptors s

/-- `interceptors.iter().fold(..)` from index `i` on. -/
def mapResponses (n : ℕ) (head : RequestHead E) :
    ℕ → List (Interceptor E) → Response → State E → Response × State E
  | _, [], response, s => (response, s)
  | i, interceptor :: interceptors, response, s =>
    mapResponses n head (i + 1) interceptors (interceptor.mapResponse n head response)
      (s.log [.ran (.mapResponse i) head.extensions])

structure StreamingCompletion where
  keepAlive : Bool
  status : UInt16
  deriving DecidableEq

/-- The body loop for HTTP/1.0. The result says whether the body was finished. -/
def sendUntilClose : List Recv → State E → Bool × State E
  | [], s => (false, s)
  | none :: _, s => (false, s)
  | some .aborted :: _, s => (false, s)
  | some .finished :: _, s => (true, s)
  | some (.chunk data) :: recvs, s =>
    if data.isEmpty then sendUntilClose recvs s
    else
      let w := s.send env data
      if w.1 then sendUntilClose recvs w.2 else (false, w.2)

/-- The body loop for HTTP/1.1, with the data that the encoder was given before. -/
def sendChunks (encoder : StreamingBodyEncoder) :
    List Bytes → List Recv → State E → Bool × State E
  | _, [], s => (false, s)
  | _, none :: _, s => (false, s)
  | _, some .aborted :: _, s => (false, s)
  | given, some .finished :: _, s =>
    match encoder.finish given with
    | none => (false, s)
    | some residual =>
      let last := if residual.isEmpty then [] else encodeChunk residual []
      s.send env (encodeTerminator last)
  | given, some (.chunk data) :: recvs, s =>
    match encoder.transform given data with
    | none => (false, s)
    | some encoded =>
      let framed := encodeChunk encoded []
      if framed.isEmpty then sendChunks encoder (given ++ [data]) recvs s
      else
        let w := s.send env framed
        if w.1 then sendChunks encoder (given ++ [data]) recvs w.2 else (false, w.2)

/-- The head of a streaming response after the interceptors and the plugins, its body cleared. -/
def streamingHead (n : ℕ) (head : RequestHead E) (streaming : StreamingResponse) (s : State E) :
    Response × State E :=
  let mapped := mapResponses n head 0 server.interceptors streaming.initialHead s
  ({ server.finalizeStreamingHead n head mapped.1 with body := [] },
    mapped.2.log [.ran .finalizeStreamingHead head.extensions])

def writeStreamingHttp10 (response : Response) (recvs : List Recv) (s : State E) :
    Option StreamingCompletion × State E :=
  let w := s.startResponse env (.untilClose response) false
  if w.1 then
    if Response.isBodylessStatus response.status then (some ⟨false, response.status⟩, w.2)
    else
      let b := sendUntilClose env recvs w.2
      (if b.1 then some ⟨false, response.status⟩ else none, b.2)
  else (none, w.2)

def writeStreamingHttp11 (n : ℕ) (head : RequestHead E) (response : Response) (recvs : List Recv)
    (keepAlive : Bool) (s : State E) : Option StreamingCompletion × State E :=
  let alive := stillAlive server env keepAlive s
  let prepared := server.prepareStreamingCompression n head response
  let s := alive.2.log [.ran .prepareStreamingCompression head.extensions]
  let w := s.startResponse env (.chunked prepared.1) alive.1
  if w.1 then
    if Response.isBodylessStatus prepared.1.status then
      let after := stillAlive server env alive.1 w.2
      (some ⟨after.1, response.status⟩, after.2)
    else
      let b := sendChunks env prepared.2 [] recvs w.2
      if b.1 then
        let after := stillAlive server env alive.1 b.2
        (some ⟨after.1, response.status⟩, after.2)
      else (none, b.2)
  else (none, w.2)

def writeStreamingResponse (n : ℕ) (head : RequestHead E) (streaming : StreamingResponse)
    (keepAlive : Bool) (s : State E) : Option StreamingCompletion × State E :=
  let r := streamingHead server n head streaming s
  match head.version with
  | .http10 => writeStreamingHttp10 env r.1 streaming.recvs r.2
  | .http11 => writeStreamingHttp11 server env n head r.1 streaming.recvs keepAlive r.2

/-- `on_response_with_status` runs only for a response that was completed. -/
def finishStreaming (head : RequestHead E) :
    Option StreamingCompletion × State E → Bool × State E
  | (some completion, s) =>
    (completion.keepAlive, onResponse server head completion.status s)
  | (none, s) => (false, s)

def answerStreaming (n : ℕ) (head : RequestHead E) (streaming : StreamingResponse)
    (keepAlive : Bool) (s : State E) : Bool × State E :=
  finishStreaming server head (writeStreamingResponse server env n head streaming keepAlive s)

/-- From the response of an interceptor, a plugin or the handler to the end of the iteration. -/
def answerWhole (n : ℕ) (head : RequestHead E) (response : Response) (keepAlive : Bool)
    (s : State E) : Bool × State E :=
  let mapped := mapResponses n head 0 server.interceptors response s
  let final := server.finalizeResponse n head mapped.1
  let alive := stillAlive server env keepAlive
    (mapped.2.log [.ran .finalizeResponse head.extensions])
  respond server env head final alive.1 alive.2

def answerByHandler (n : ℕ) (head : RequestHead E) (body : Bytes) (keepAlive : Bool)
    (s : State E) : Bool × State E :=
  match server.handler with
  | none => answerWhole server env n head (.empty 404) keepAlive s
  | some handler =>
    let s := s.log [.ran .handleStreaming head.extensions]
    match handler.handleStreaming n head body with
    | some streaming => answerStreaming server env n head streaming keepAlive s
    | none =>
      answerWhole server env n head (handler.handle n head body) keepAlive
        (s.log [.ran .handle head.extensions])

def answer (n : ℕ) (head : RequestHead E) (body : Bytes) (keepAlive : Bool) (s : State E) :
    Bool × State E :=
  let r := intercept n head body 0 server.interceptors s
  match r.1 with
  | some response => answerWhole server env n head response keepAlive r.2
  | none =>
    let s := r.2.log [.ran .tryIntercept head.extensions]
    match server.tryIntercept n head body with
    | some response => answerWhole server env n head response keepAlive s
    | none => answerByHandler server env n head body keepAlive s

def serveAllowed (n : ℕ) (head : RequestHead E) (body : Bytes) (keepAlive : Bool)
    (s : State E) : Bool × State E :=
  let u := upgradeMatches n head 0 server.upgradeHandlers s
  if u.1 then answerUpgrade server env n head u.2
  else answer server env n head body keepAlive u.2

variable [DecidableEq TypeId]

def runGates (n : ℕ) (head : RequestHead E) : GateRun E :=
  firstRejection head 0 (server.gates.map fun gate => gate n) .new

def headWithExtensions (head : RequestHead E) (extensions : RequestExtensions E) :
    RequestHead E :=
  if extensions.entries.isEmpty then head else { head with extensions := extensions }

def serve (request : Request E) (s : State E) : Bool × State E :=
  let n := s.requestsServed
  let alive := stillAlive server env (server.keepAliveEnabled && shouldKeepAlive request.head &&
    decide (n < max server.maxRequestsPerConnection 1)) s
  let g := runGates server n request.head
  let s := alive.2.log (g.consulted.map .gate)
  match g.rejection with
  | some response => respond server env request.head response alive.1 s
  | none =>
    serveAllowed server env n (headWithExtensions request.head g.extensions) request.body
      alive.1 s

def received (request : Request E) (s : State E) : State E :=
  { s.log (.read s.tick request :: (List.range server.middlewares).map fun i =>
      .ran (.onRequest i) request.head.extensions) with
    tick := s.tick + 1
    requestsServed := s.requestsServed + 1 }

/-- One turn of the loop: whether there is another one, and the state after it. -/
def iteration (s : State E) : Bool × State E :=
  let expired := server.maxConnectionLifetime ≤ env.elapsed s.tick
  let s := { s with tick := s.tick + 1, events := [] }
  if expired then (false, s)
  else if env.readTimesOut s.requestsServed then (false, s)
  else match readRequestWithLimit env.alloc env.usizeMax server.maxBodyBytes s.reads s.conn with
    | none => (false, s)
    | some o =>
      let s := { s with reads := o.reads, conn := o.conn }
      match o.result with
      | .error e =>
        match errorResponse e with
        | some response => respondAndClose env response s
        | none => (false, s)
      | .ok none => (false, s)
      | .ok (some request) => serve server env request (received server request s)

structure Served {TypeId : Type} (E : TypeId → Type) where
  turns : List (List (Event E))
  alive : Bool
  state : State E

def handleConnection : ℕ → State E → Served E
  | 0, s => ⟨[], true, s⟩
  | turns + 1, s =>
    let r := iteration server env s
    if r.1 then
      let rest := handleConnection turns r.2
      { rest with turns := r.2.events :: rest.turns }
    else ⟨[r.2.events], false, r.2⟩

end

end FandheBackend.CoreConnection
