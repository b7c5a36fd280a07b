import FandheBackend.CoreConnectionGates
import FandheBackend.PluginCompression

set_option autoImplicit false

namespace FandheBackend.CoreConnectionPlan
open StdBytes HttpExtensions HttpRequestHead HttpChunked HttpConnection HttpResponse
open CoreGates CoreConnection CoreConnectionTurns CoreConnectionGates PluginCompression

section Bodies

def finishedData : List Recv → Option (List Bytes)
  | some .finished :: _ => some []
  | some (.chunk data) :: recvs => (finishedData recvs).map (data :: ·)
  | _ => none

/-- What the encoder makes of some data, after the data it was given before. -/
def encodedPieces (encoder : StreamingBodyEncoder) :
    List Bytes → List Bytes → Option (List Bytes)
  | _, [] => some []
  | given, data :: ds =>
    (encoder.transform given data).bind fun piece =>
      (encodedPieces encoder (given ++ [data]) ds).map (piece :: ·)

def untilCloseBody (recvs : List Recv) : Option (List Bytes) :=
  (finishedData recvs).map (List.filter fun data => !data.isEmpty)

/-- The writes of a body for HTTP/1.1, after the data that the encoder was given before. -/
def chunkedBody (encoder : StreamingBodyEncoder) (given : List Bytes) (recvs : List Recv) :
    Option (List Bytes) :=
  (finishedData recvs).bind fun ds =>
    (encodedPieces encoder given ds).bind fun pieces =>
      (encoder.finish (given ++ ds)).map fun residual =>
        (pieces.filter fun piece => !piece.isEmpty).map (encodeChunk · []) ++
          [encodeTerminator (encodeChunk residual [])]

theorem untilCloseBody_chunk (data : Bytes) (recvs : List Recv) :
    untilCloseBody (some (.chunk data) :: recvs) =
      (untilCloseBody recvs).map fun body => if data.isEmpty then body else data :: body := by
  rw [untilCloseBody, untilCloseBody, finishedData, Option.map_map, Option.map_map]
  congr 1
  funext ds
  cases data <;> rfl

theorem chunkedBody_chunk (encoder : StreamingBodyEncoder) (given : List Bytes) (data : Bytes)
    (recvs : List Recv) :
    chunkedBody encoder given (some (.chunk data) :: recvs) =
      (encoder.transform given data).bind fun piece =>
        (chunkedBody encoder (given ++ [data]) recvs).map fun body =>
          if piece.isEmpty then body else encodeChunk piece [] :: body := by
  rw [chunkedBody, finishedData]
  cases hdata : finishedData recvs with
  | none =>
    cases encoder.transform given data <;> simp [chunkedBody, hdata]
  | some ds =>
    cases htransform : encoder.transform given data with
    | none => simp [encodedPieces, htransform]
    | some piece =>
      cases hpieces : encodedPieces encoder (given ++ [data]) ds with
      | none => simp [encodedPieces, htransform, hpieces, chunkedBody, hdata]
      | some pieces =>
        cases hfinish : encoder.finish (given ++ data :: ds) with
        | none => simp [encodedPieces, htransform, hpieces, chunkedBody, hdata, hfinish]
        | some residual =>
          cases piece <;>
            simp [encodedPieces, htransform, hpieces, chunkedBody, hdata, hfinish]

end Bodies

inductive Plan where
  | rejected (response : Response)
  | upgrade
  | whole (response : Response)
  | untilClose (response : Response) (recvs : List Recv)
  | chunked (response : Response) (encoder : StreamingBodyEncoder) (recvs : List Recv)

/-- A status without a body ends a streaming response at its head. -/
def streamed (response : Response) (body : Option (List Bytes)) : Option (List Bytes) :=
  if Response.isBodylessStatus response.status then some [] else body

/-- The complete answer: its start and the writes that carry it on. There is none for an
upgrade, and none for a stream that is not finished. -/
def Plan.delivery : Plan → Option (Answer × List Bytes)
  | .rejected response => some (.whole response, [])
  | .upgrade => none
  | .whole response => some (.whole response, [])
  | .untilClose response recvs =>
    (streamed response (untilCloseBody recvs)).map fun body => (.untilClose response, body)
  | .chunked response encoder recvs =>
    (streamed response (chunkedBody encoder [] recvs)).map fun body => (.chunked response, body)

def answerResponse : Answer → Response
  | .whole response => response
  | .chunked response => response
  | .untilClose response => response

section
variable {TypeId : Type} {E : TypeId → Type}

def Complete (delivery : Option (Answer × List Bytes)) (writes : List (Event E))
    (status : UInt16) : Prop :=
  ∃ answer body keepAlive, delivery = some (answer, body) ∧
    writes = .responded answer keepAlive true :: body.map (.sent · true) ∧
    status = (answerResponse answer).status

variable (server : Server E)

/-- The first of the interceptors, the plugins and the handler that has a response. -/
def chosen (n : ℕ) (head : RequestHead E) (body : Bytes) : Response ⊕ StreamingResponse :=
  match server.interceptors.findSome? fun interceptor => interceptor.intercept n head body with
  | some response => .inl response
  | none =>
    match server.tryIntercept n head body with
    | some response => .inl response
    | none =>
      match server.handler with
      | none => .inl (.empty 404)
      | some handler =>
        match handler.handleStreaming n head body with
        | some streaming => .inr streaming
        | none => .inl (handler.handle n head body)

def mapped (n : ℕ) (head : RequestHead E) (response : Response) : Response :=
  server.interceptors.foldl (fun acc interceptor => interceptor.mapResponse n head acc) response

def streamingPlan (n : ℕ) (head : RequestHead E) (streaming : StreamingResponse) : Plan :=
  let response := { server.finalizeStreamingHead n head (mapped server n head
    streaming.initialHead) with body := [] }
  match head.version with
  | .http10 => .untilClose response streaming.recvs
  | .http11 =>
    let prepared := server.prepareStreamingCompression n head response
    .chunked prepared.1 prepared.2 streaming.recvs

def answerPlan (n : ℕ) (head : RequestHead E) (body : Bytes) : Plan :=
  match chosen server n head body with
  | .inl response => .whole (server.finalizeResponse n head (mapped server n head response))
  | .inr streaming => streamingPlan server n head streaming

def allowedPlan (n : ℕ) (head : RequestHead E) (body : Bytes) : Plan :=
  if server.upgradeHandlers.any (fun handler => handler n head) then .upgrade
  else answerPlan server n head body

variable [DecidableEq TypeId]

def planOf (n : ℕ) (request : Request E) : Plan :=
  match (runGates server n request.head).rejection with
  | some response => .rejected response
  | none =>
    allowedPlan server n
      (headWithExtensions request.head (runGates server n request.head).extensions) request.body

end

end FandheBackend.CoreConnectionPlan
