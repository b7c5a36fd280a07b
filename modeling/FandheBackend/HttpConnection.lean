import FandheBackend.HttpBodyLength
import FandheBackend.HttpBuffer
import FandheBackend.HttpChunked

set_option autoImplicit false

/-!
# Reading requests off a connection (`crates/http/src/connection.rs`)

A socket is the list of what its reads return; after the last one it is at its end.
`Conn` is the buffer of a connection with a history that no function looks at:
the bytes received and consumed so far, and the same at every earlier point.
-/
namespace FandheBackend.HttpConnection
open StdBytes HttpRequestHead HttpBodyLength HttpBuffer HttpChunked

/-- What one read of the socket returns. No bytes mean the end of the stream. -/
inductive Read where
  | data (bytes : Bytes)
  | failed
  deriving DecidableEq, Repr

def Read.bytes : Read → Bytes
  | .data bs => bs
  | .failed => []

def stream (reads : List Read) : Bytes := reads.flatMap Read.bytes

structure Point where
  buf : RecvBuffer
  received : Bytes
  consumed : Bytes

structure Conn where
  buf : RecvBuffer
  received : Bytes
  consumed : Bytes
  points : List Point

namespace Conn

def new : Conn := ⟨.new, [], [], []⟩

def record (c : Conn) : Conn :=
  { c with points := c.points ++ [⟨c.buf, c.received, c.consumed⟩] }

def consume (c : Conn) (n : ℕ) : Option Conn :=
  (c.buf.consume n).map fun buf =>
    record { c with buf := buf, consumed := c.consumed ++ c.buf.unread.take n }

def takeExact (c : Conn) (n : ℕ) : Option (Bytes × Conn) :=
  (c.buf.takeExact n).map fun r =>
    (r.1, record { c with buf := r.2, consumed := c.consumed ++ r.1 })

def readChunk (alloc : Alloc) (c : Conn) (bs : Bytes) : Conn :=
  record { c with buf := c.buf.readChunk alloc bs, received := c.received ++ bs }

def shrinkIfOversized (alloc : Alloc) (c : Conn) : Conn :=
  record { c with buf := c.buf.shrinkIfOversized alloc }

end Conn

structure Request {TypeId : Type} (E : TypeId → Type) where
  head : RequestHead E
  body : Bytes

inductive RequestError where
  | parse (e : ParseError)
  | body (e : BodyError)
  | chunked (e : ChunkedError)
  | unexpectedEof
  | io
  deriving DecidableEq, Repr

structure Outcome (α : Type) where
  result : Except RequestError α
  reads : List Read
  conn : Conn

section
variable {TypeId : Type} {E : TypeId → Type} (alloc : Alloc)

def connectionTokens (head : RequestHead E) : List Bytes :=
  (namedValues head.headers (ascii "connection")).flatMap fun value =>
    (value.splitOn 44).map strTrim

def shouldKeepAlive (head : RequestHead E) : Bool :=
  let hasClose := (connectionTokens head).any fun t => eqIgnoreAsciiCase t (ascii "close")
  match head.version with
  | .http11 => !hasClose
  | .http10 =>
    !hasClose && (connectionTokens head).any fun t => eqIgnoreAsciiCase t (ascii "keep-alive")

def readHead (reads : List Read) (conn : Conn) : Outcome (Option (RequestHead E × ℕ)) :=
  match parseRequestHead conn.buf.unread with
  | .error e => ⟨.error (.parse e), reads, conn⟩
  | .ok (.complete head consumed) => ⟨.ok (some (head, consumed)), reads, conn⟩
  | .ok .incomplete =>
    let startedEmpty := conn.buf.unread.isEmpty
    let atEnd := if startedEmpty then .ok none else .error .unexpectedEof
    match reads with
    | [] => ⟨atEnd, [], conn.readChunk alloc []⟩
    | .failed :: reads => ⟨.error .io, reads, conn.readChunk alloc []⟩
    | .data bs :: reads =>
      let conn := conn.readChunk alloc bs
      if bs.length = 0 then ⟨atEnd, reads, conn⟩ else readHead reads conn

def fillBody (n : ℕ) (reads : List Read) (conn : Conn) : Outcome Unit :=
  if conn.buf.unread.length < n then
    match reads with
    | [] => ⟨.error .unexpectedEof, [], conn.readChunk alloc []⟩
    | .failed :: reads => ⟨.error .io, reads, conn.readChunk alloc []⟩
    | .data bs :: reads =>
      let conn := conn.readChunk alloc bs
      if bs.length = 0 then ⟨.error .unexpectedEof, reads, conn⟩ else fillBody n reads conn
  else ⟨.ok (), reads, conn⟩

/-- `read_body` on a target whose largest `usize` is `usizeMax`; `none` is a panic. -/
def readBody (usizeMax n : ℕ) (reads : List Read) (conn : Conn) : Option (Outcome Bytes) :=
  if n > usizeMax then some ⟨.error (.body .bodyTooLarge), reads, conn⟩
  else
    let filled := fillBody alloc n reads conn
    match filled.result with
    | .error e => some ⟨.error e, filled.reads, filled.conn⟩
    | .ok () =>
      match filled.conn.takeExact n with
      | some (body, conn) => some ⟨.ok body, filled.reads, conn⟩
      | none =>
        if n ≤ filled.conn.buf.unread.length then
          (filled.conn.consume n).map fun conn =>
            ⟨.ok (filled.conn.buf.unread.take n), filled.reads, conn⟩
        else none

/-- The loop of `read_body_chunked`; `none` is a panic. -/
def chunkedLoop (decoder : ChunkedDecoder) (body : Bytes) (reads : List Read) (conn : Conn) :
    Option (Outcome Bytes) :=
  let r := decoder.decode conn.buf.unread body
  match r.result with
  | .error e => some ⟨.error (.chunked e), reads, conn⟩
  | .ok (.complete consumed) =>
    (conn.consume consumed).map fun conn => ⟨.ok r.out, reads, conn⟩
  | .ok (.incomplete consumed) =>
    match conn.consume consumed with
    | none => none
    | some conn =>
      match reads with
      | [] => some ⟨.error .unexpectedEof, [], conn.readChunk alloc []⟩
      | .failed :: reads => some ⟨.error .io, reads, conn.readChunk alloc []⟩
      | .data bs :: reads =>
        let conn := conn.readChunk alloc bs
        if bs.length = 0 then some ⟨.error .unexpectedEof, reads, conn⟩
        else chunkedLoop r.decoder r.out reads conn

def readBodyChunked (maxBodyBytes : UInt64) (reads : List Read) (conn : Conn) :
    Option (Outcome Bytes) :=
  chunkedLoop alloc (.withMaxBodyBytes maxBodyBytes) [] reads conn

def readFramedBody (usizeMax : ℕ) (maxBodyBytes : UInt64) (head : RequestHead E)
    (reads : List Read) (conn : Conn) : Option (Outcome Bytes) :=
  match bodyLengthWithLimit head maxBodyBytes with
  | .error e => some ⟨.error (.body e), reads, conn⟩
  | .ok .none => some ⟨.ok [], reads, conn⟩
  | .ok (.fixed n) => readBody alloc usizeMax n reads conn
  | .ok .chunked => readBodyChunked alloc maxBodyBytes reads conn

def readRequestWithLimit (usizeMax : ℕ) (maxBodyBytes : UInt64) (reads : List Read)
    (conn : Conn) : Option (Outcome (Option (Request E))) :=
  let h := readHead alloc reads conn
  match h.result with
  | .error e => some ⟨.error e, h.reads, h.conn⟩
  | .ok none => some ⟨.ok none, h.reads, h.conn⟩
  | .ok (some (head, consumed)) =>
    match h.conn.consume consumed with
    | none => none
    | some conn =>
      match readFramedBody alloc usizeMax maxBodyBytes head h.reads conn with
      | none => none
      | some b =>
        match b.result with
        | .error e => some ⟨.error e, b.reads, b.conn⟩
        | .ok body => some ⟨.ok (some ⟨head, body⟩), b.reads, b.conn.shrinkIfOversized alloc⟩

inductive Ended where
  | closed
  | failed (e : RequestError)
  deriving DecidableEq, Repr

/-- Calls of `read_request_with_limit` on one connection until one returns no request. `none`
is a panic, or more requests than `fuel`. -/
def readRequests (usizeMax : ℕ) (maxBodyBytes : UInt64) :
    ℕ → List Read → Conn → Option (List (Request E) × Ended)
  | 0, _, _ => none
  | fuel + 1, reads, conn =>
    match readRequestWithLimit alloc usizeMax maxBodyBytes reads conn with
    | none => none
    | some o =>
      match o.result with
      | .error e => some ([], .failed e)
      | .ok none => some ([], .closed)
      | .ok (some request) =>
        (readRequests usizeMax maxBodyBytes fuel o.reads o.conn).map fun r =>
          (request :: r.1, r.2)

end

end FandheBackend.HttpConnection
