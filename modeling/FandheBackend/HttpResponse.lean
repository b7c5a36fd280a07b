import FandheBackend.HttpRequestHead

set_option autoImplicit false

/-!
# Responses and their serialisation (`crates/http/src/response.rs`)

The fields of a response are private in the source and every builder checks what
it stores; here the checked facts are fields of the types.
-/
namespace FandheBackend.HttpResponse
open StdBytes HttpRequestHead

inductive HeaderError where
  | invalidName
  | invalidValue
  | reservedName
  deriving DecidableEq, Repr

def isToken (name : Bytes) : Bool := !name.isEmpty && name.all isTchar

def isForbiddenInValue (b : UInt8) : Bool := (b < 32 && b != 9) || b == 127

def isReserved (name : Bytes) : Bool :=
  [ascii "content-length", ascii "connection", ascii "transfer-encoding"].any
    (eqIgnoreAsciiCase name ·)

structure ExtraHeader where
  name : Bytes
  value : Bytes
  isToken_name : isToken name = true
  value_allowed : value.any isForbiddenInValue = false
  not_reserved : isReserved name = false
  deriving DecidableEq

/-- Callers pass a literal without CR or LF; debug builds assert it. -/
structure ContentType where
  text : Bytes
  no_line_end : cr ∉ text ∧ lf ∉ text
  deriving DecidableEq

structure AllowedMethods where
  methods : List Bytes
  ne_nil : methods ≠ []
  tokens : ∀ m ∈ methods, isToken m = true
  deriving DecidableEq

def AllowedMethods.toHeaderValue (a : AllowedMethods) : Bytes :=
  join (ascii ", ") a.methods

structure Response where
  status : UInt16
  body : Bytes
  contentType : Option ContentType
  allow : Option AllowedMethods
  extraHeaders : List ExtraHeader
  deriving DecidableEq

namespace Response

def new (status : UInt16) (body : Bytes) : Response :=
  { status, body, contentType := none, allow := none, extraHeaders := [] }

def empty (status : UInt16) : Response := new status []

def withContentType (r : Response) (contentType : ContentType) : Response :=
  { r with contentType := some contentType }

def withAllow (r : Response) (allow : AllowedMethods) : Response :=
  { r with allow := some allow }

def withHeader (r : Response) (name value : Bytes) : Except HeaderError Response :=
  if hname : isToken name = false then .error .invalidName
  else if hvalue : value.any isForbiddenInValue = true then .error .invalidValue
  else if hreserved : isReserved name = true then .error .reservedName
  else .ok { r with
    extraHeaders := r.extraHeaders ++ [⟨name, value, by simpa using hname,
      by simpa using hvalue, by simpa using hreserved⟩] }

def isBodylessStatus (status : UInt16) : Bool :=
  (100 ≤ status && status ≤ 199) || status == 204 || status == 304

end Response

def reasonPhrase (status : UInt16) : Bytes :=
  match status.toNat with
  | 200 => ascii "OK"
  | 204 => ascii "No Content"
  | 304 => ascii "Not Modified"
  | 301 => ascii "Moved Permanently"
  | 302 => ascii "Found"
  | 303 => ascii "See Other"
  | 307 => ascii "Temporary Redirect"
  | 308 => ascii "Permanent Redirect"
  | 400 => ascii "Bad Request"
  | 401 => ascii "Unauthorized"
  | 403 => ascii "Forbidden"
  | 404 => ascii "Not Found"
  | 405 => ascii "Method Not Allowed"
  | 413 => ascii "Payload Too Large"
  | 429 => ascii "Too Many Requests"
  | 431 => ascii "Request Header Fields Too Large"
  | 500 => ascii "Internal Server Error"
  | 501 => ascii "Not Implemented"
  | 502 => ascii "Bad Gateway"
  | 503 => ascii "Service Unavailable"
  | 504 => ascii "Gateway Timeout"
  | 505 => ascii "HTTP Version Not Supported"
  | _ => []

def headerLine (field : Bytes × Bytes) : Bytes := field.1 ++ ascii ": " ++ field.2 ++ crlf

def statusLine (status : UInt16) : Bytes :=
  ascii "HTTP/1.1 " ++ numeral 10 status.toNat ++ ascii " " ++ reasonPhrase status

namespace Response

/-- The headers that all three serialisers write, in their order. A dedicated field replaces
the extra headers of its name. -/
def fields (r : Response) : List (Bytes × Bytes) :=
  (match r.contentType with
    | some contentType => [(ascii "Content-Type", contentType.text)]
    | none => []) ++
  (match r.allow with
    | some allow => [(ascii "Allow", allow.toHeaderValue)]
    | none => []) ++
  (r.extraHeaders.filter fun h =>
    !(r.contentType.isSome && eqIgnoreAsciiCase h.name (ascii "content-type")) &&
      !(r.allow.isSome && eqIgnoreAsciiCase h.name (ascii "allow"))).map
    fun h => (h.name, h.value)

def connectionField (keepAlive : Bool) : List (Bytes × Bytes) :=
  if !keepAlive then [(ascii "Connection", ascii "close")] else []

def headBytes (status : UInt16) (fields : List (Bytes × Bytes)) : Bytes :=
  statusLine status ++ crlf ++ fields.flatMap headerLine ++ crlf

/-- The headers of `serialize_into`. -/
def fixedFields (r : Response) (keepAlive : Bool) : List (Bytes × Bytes) :=
  r.fields ++ [(ascii "Content-Length", numeral 10 r.body.length)] ++ connectionField keepAlive

def serialize (r : Response) (keepAlive : Bool) : Bytes :=
  headBytes r.status (r.fixedFields keepAlive) ++ r.body

/-- The headers of `serialize_chunked_head`. -/
def chunkedFields (r : Response) (keepAlive : Bool) : List (Bytes × Bytes) :=
  r.fields ++
    (if !isBodylessStatus r.status then [(ascii "Transfer-Encoding", ascii "chunked")] else []) ++
    connectionField keepAlive

def serializeChunkedHead (r : Response) (keepAlive : Bool) : Bytes :=
  headBytes r.status (r.chunkedFields keepAlive)

def serializeStreamingHeadHttp10 (r : Response) : Bytes :=
  headBytes r.status (r.fields ++ connectionField false)

end Response

end FandheBackend.HttpResponse
