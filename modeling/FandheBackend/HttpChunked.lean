import FandheBackend.StdBytes

set_option autoImplicit false

/-!
# Chunked transfer-coding (`crates/http/src/chunked.rs`)

The incremental decoder and the encoder. The cursor `pos` of `decode` is kept as
the unread rest of the input; the bytes consumed are the rest of the length.
-/
namespace FandheBackend.HttpChunked
open StdBytes

def maxChunkCount : ℕ := 16384
def maxChunkLineBytes : ℕ := 256

inductive ChunkedError where
  | invalidChunkSize
  | chunkLineTooLong
  | tooManyChunks
  | bodyTooLarge
  | trailerUnsupported
  | invalidLineTerminator
  deriving DecidableEq, Repr

inductive DecodeOutcome where
  | complete (consumed : ℕ)
  | incomplete (consumed : ℕ)
  deriving DecidableEq, Repr

inductive State where
  | chunkSizeLine
  | chunkData (remaining : ℕ)
  | chunkDataCrlf
  | trailerLine
  | done
  deriving DecidableEq, Repr

structure ChunkedDecoder where
  state : State
  lineBuf : Bytes
  totalDecoded : ℕ
  chunkCount : ℕ
  maxBodyBytes : UInt64
  deriving DecidableEq, Repr

def ChunkedDecoder.withMaxBodyBytes (maxBodyBytes : UInt64) : ChunkedDecoder :=
  { state := .chunkSizeLine, lineBuf := [], totalDecoded := 0, chunkCount := 0, maxBodyBytes }

def encodeChunk (data out : Bytes) : Bytes :=
  if data.isEmpty then out else out ++ numeral 16 data.length ++ crlf ++ data ++ crlf

def encodeTerminator (out : Bytes) : Bytes := out ++ ascii "0\r\n\r\n"

/-- The hexadecimal part is what stands before the first `;`. -/
def parseChunkSize (line : Bytes) : Except ChunkedError ℕ :=
  let sizePart := line.takeWhile (· != 59)
  if sizePart.isEmpty || !sizePart.all isAsciiHexdigit then .error .invalidChunkSize
  else match u64FromStrRadix sizePart 16 with
    | none => .error .invalidChunkSize
    | some size => .ok size

structure TakeLine where
  result : Except ChunkedError (Option Bytes)
  lineBuf : Bytes
  rest : Bytes

def takeLine : Bytes → Bytes → TakeLine
  | lineBuf, [] => ⟨.ok none, lineBuf, []⟩
  | lineBuf, byte :: rest =>
    if byte = lf then
      if lineBuf.getLast? ≠ some cr then ⟨.error .invalidLineTerminator, lineBuf, rest⟩
      else ⟨.ok (some lineBuf.dropLast), [], rest⟩
    else
      let lineBuf := lineBuf ++ [byte]
      if lineBuf.length > maxChunkLineBytes then ⟨.error .chunkLineTooLong, lineBuf, rest⟩
      else takeLine lineBuf rest

/-- The arm of `decode` for a complete chunk-size line. -/
def acceptSizeLine (d : ChunkedDecoder) (line : Bytes) : Except ChunkedError Unit × ChunkedDecoder :=
  match parseChunkSize line with
  | .error e => (.error e, d)
  | .ok size =>
    let d := { d with chunkCount := d.chunkCount + 1 }
    if d.chunkCount > maxChunkCount then (.error .tooManyChunks, d)
    else if size = 0 then (.ok (), { d with state := .trailerLine })
    else match u64CheckedAdd d.totalDecoded size with
      | none => (.error .bodyTooLarge, d)
      | some newTotal =>
        if newTotal > d.maxBodyBytes.toNat then (.error .bodyTooLarge, d)
        else (.ok (), { d with state := .chunkData size })

def acceptDataCrlf (d : ChunkedDecoder) (line : Bytes) : Except ChunkedError Unit × ChunkedDecoder :=
  if !line.isEmpty then (.error .invalidLineTerminator, d)
  else (.ok (), { d with state := .chunkSizeLine })

def acceptTrailer (d : ChunkedDecoder) (line : Bytes) : Except ChunkedError Unit × ChunkedDecoder :=
  if !line.isEmpty then (.error .trailerUnsupported, d)
  else (.ok (), { d with state := .done })

structure DecodeResult where
  result : Except ChunkedError DecodeOutcome
  decoder : ChunkedDecoder
  out : Bytes

/-- A line state of `decode`: take a line, then run the arm of the state on it. -/
def lineState (accept : ChunkedDecoder → Bytes → Except ChunkedError Unit × ChunkedDecoder)
    (continue_ : ChunkedDecoder → Bytes → DecodeResult) (len : ℕ)
    (d : ChunkedDecoder) (rest out : Bytes) : DecodeResult :=
  let t := takeLine d.lineBuf rest
  let d := { d with lineBuf := t.lineBuf }
  match t.result with
  | .error e => ⟨.error e, d, out⟩
  | .ok none => ⟨.ok (.incomplete (len - t.rest.length)), d, out⟩
  | .ok (some line) =>
    match accept d line with
    | (.error e, d) => ⟨.error e, d, out⟩
    | (.ok (), d) => continue_ d t.rest

/-- The loop of `decode` on an input of `len` bytes of which `rest` is unread.
Every turn that does not return reads a byte, so `len + 1` turns are enough. -/
def decodeLoop (len : ℕ) : ℕ → ChunkedDecoder → Bytes → Bytes → DecodeResult
  | 0, d, rest, out => ⟨.ok (.incomplete (len - rest.length)), d, out⟩
  | fuel + 1, d, rest, out =>
    match d.state with
    | .done => ⟨.ok (.complete (len - rest.length)), d, out⟩
    | .chunkSizeLine =>
      lineState acceptSizeLine (fun d rest => decodeLoop len fuel d rest out) len d rest out
    | .chunkData remaining =>
      if rest.length = 0 then ⟨.ok (.incomplete (len - rest.length)), d, out⟩
      else
        let take := min rest.length remaining
        let out := out ++ rest.take take
        let d := { d with totalDecoded := d.totalDecoded + take }
        let rest := rest.drop take
        let remainingLeft := remaining - take
        if remainingLeft = 0 then
          decodeLoop len fuel { d with state := .chunkDataCrlf } rest out
        else
          ⟨.ok (.incomplete (len - rest.length)), { d with state := .chunkData remainingLeft }, out⟩
    | .chunkDataCrlf =>
      lineState acceptDataCrlf (fun d rest => decodeLoop len fuel d rest out) len d rest out
    | .trailerLine =>
      lineState acceptTrailer
        (fun d rest => ⟨.ok (.complete (len - rest.length)), d, out⟩) len d rest out

def ChunkedDecoder.decode (d : ChunkedDecoder) (input out : Bytes) : DecodeResult :=
  decodeLoop input.length (input.length + 1) d input out

/-- A run of calls, each made after the previous one asked for more input. -/
structure DecodeRun where
  calls : List (Bytes × Except ChunkedError DecodeOutcome)
  decoder : ChunkedDecoder
  out : Bytes

def decodeCalls : ChunkedDecoder → Bytes → List Bytes → DecodeRun
  | d, out, [] => ⟨[], d, out⟩
  | d, out, input :: inputs =>
    let r := d.decode input out
    match r.result with
    | .ok (.incomplete _) =>
      let t := decodeCalls r.decoder r.out inputs
      { t with calls := (input, r.result) :: t.calls }
    | _ => ⟨[(input, r.result)], r.decoder, r.out⟩

def DecodeOutcome.consumed : DecodeOutcome → ℕ
  | .complete n => n
  | .incomplete n => n

def DecodeRun.consumed (r : DecodeRun) : ℕ :=
  (r.calls.map fun c => match c.2 with
    | .ok o => o.consumed
    | .error _ => 0).sum

def DecodeRun.completed (r : DecodeRun) : Prop :=
  ∃ c ∈ r.calls, ∃ n, c.2 = .ok (.complete n)

end FandheBackend.HttpChunked
