import FandheBackend.ExceptChecks
import FandheBackend.HttpConnection
import FandheBackend.HttpForm
import FandheBackend.PatternSplit

set_option autoImplicit false

/-!
# The client of the upstream service (`client.rs` of `crates/plugin-webrtc-proxy`)

The upstream is the list of what the reads of its socket return. The buffer of the head is
kept: what was read past the head is the beginning of the body.
-/
namespace FandheBackend.PluginWebrtcProxy
open StdBytes ExceptChecks HttpRequestHead HttpConnection HttpBodyLength HttpForm PatternSplit

def readChunkBytes : ℕ := 4 * 1024

def responseHeadLimit : ℕ := 8 * 1024

inductive ProxyError where
  | upstreamConnect
  | upstreamTimeout
  | upstreamProtocol
  | upstreamStatus
  | answerTooLarge
  | io
  deriving DecidableEq, Repr

/-- `str::splitn` for a single character. -/
def splitn : ℕ → UInt8 → Bytes → List Bytes
  | 0, _, _ => []
  | 1, _, s => [s]
  | n + 2, b, s =>
    match splitOnce b s with
    | some (part, rest) => part :: splitn (n + 1) b rest
    | none => [s]

def contentLengthOf : List Bytes → Option ℕ → Except ProxyError (Option ℕ)
  | [], contentLength => .ok contentLength
  | line :: lines, contentLength =>
    if line.isEmpty then contentLengthOf lines contentLength
    else match splitOnce 58 line with
      | none => .error .upstreamProtocol
      | some (name, value) =>
        if eqIgnoreAsciiCase (strTrim name) (ascii "content-length") then
          if contentLength.isSome then .error .upstreamProtocol
          else match parseUnsigned (2 ^ 64) (strTrim value) with
            | none => .error .upstreamProtocol
            | some parsed => contentLengthOf lines (some parsed)
        else contentLengthOf lines contentLength

def parseStatusLine (statusLine : Bytes) : Except ProxyError ℕ :=
  match splitn 3 32 statusLine with
  | [] => .error .upstreamProtocol
  | version :: parts =>
    if !(ascii "HTTP/1.").isPrefixOf version then .error .upstreamProtocol
    else match parts with
      | [] => .error .upstreamProtocol
      | status :: _ => orError .upstreamProtocol (parseUnsigned (2 ^ 16) status)

def parseResponseHead (head : Bytes) : Except ProxyError (ℕ × ℕ) :=
  if (Utf8Text.decode head).isNone then .error .upstreamProtocol
  else match split crlf head with
    | [] => .error .upstreamProtocol
    | statusLine :: lines => do
      let status ← parseStatusLine statusLine
      let contentLength ← contentLengthOf lines none
      let contentLength ← orError .upstreamProtocol contentLength
      .ok (status, contentLength)

/-- The loop up to the end of the head: its position, what was read, and the reads to come. -/
def readHead (buf : Bytes) (reads : List Read) : Except ProxyError (ℕ × Bytes × List Read) :=
  match findSubslice buf terminator with
  | some pos => .ok (pos + 4, buf, reads)
  | none =>
    if buf.length ≥ responseHeadLimit then .error .upstreamProtocol
    else match reads with
      | [] => .error .upstreamProtocol
      | .failed :: _ => .error .io
      | .data chunk :: reads =>
        if chunk.isEmpty then .error .upstreamProtocol else readHead (buf ++ chunk) reads

def readBody (contentLength maxAnswerBytes : ℕ) (body : Bytes) (reads : List Read) :
    Except ProxyError Bytes :=
  if body.length < contentLength then
    if body.length ≥ maxAnswerBytes then .error .answerTooLarge
    else match reads with
      | [] => .error .upstreamProtocol
      | .failed :: _ => .error .io
      | .data chunk :: reads =>
        if chunk.isEmpty then .error .upstreamProtocol
        else readBody contentLength maxAnswerBytes (body ++ chunk) reads
  else .ok (body.take contentLength)

def readResponseBody (reads : List Read) (maxAnswerBytes : UInt64) : Except ProxyError Bytes := do
  let (headerEnd, buf, reads) ← readHead [] reads
  let (status, contentLength) ← parseResponseHead (buf.take headerEnd)
  rejectIf (¬(200 ≤ status ∧ status < 300)) .upstreamStatus
  rejectIf (contentLength > maxAnswerBytes.toNat) .answerTooLarge
  readBody contentLength maxAnswerBytes.toNat (buf.drop headerEnd) reads

end FandheBackend.PluginWebrtcProxy
