import FandheBackend.HttpLocation

set_option autoImplicit false

/-!
# The builders of a response (`crates/http/src/response.rs`, `crates/http/src/error.rs`)

`with_header` checks what it stores. The other builders that store a header push it as it
is; here each of them shows that what it pushes would have passed the check.
-/
namespace FandheBackend.HttpResponse
open StdBytes HttpRequestHead HttpCookie HttpLocation

def listMembers (value : Bytes) : List Bytes :=
  ((value.splitOn 44).map (Utf8Text.trimBy isOws)).filter fun m => !m.isEmpty

def isDirective (name seg : Bytes) : Bool :=
  eqIgnoreAsciiCase (Utf8Text.trimBy isOws (seg.takeWhile (· != 61))) name

/-- The loop of `has_directive`: commas within quotes do not end the segment read so far. -/
def hasDirectiveLoop (name : Bytes) : Bool → Bool → Bytes → Bytes → Bool
  | _, _, seg, [] => isDirective name seg
  | inQuote, escaped, seg, c :: rest =>
    if escaped then hasDirectiveLoop name inQuote false (seg ++ [c]) rest
    else if inQuote && c == 92 then hasDirectiveLoop name inQuote true (seg ++ [c]) rest
    else if c == 34 then hasDirectiveLoop name (!inQuote) escaped (seg ++ [c]) rest
    else if c == 44 && !inQuote then
      isDirective name seg || hasDirectiveLoop name inQuote escaped [] rest
    else hasDirectiveLoop name inQuote escaped (seg ++ [c]) rest

def hasDirective (value name : Bytes) : Bool := hasDirectiveLoop name false false [] value

inductive RedirectError where
  | unsupportedStatus
  | emptyLocation
  | invalidLocation (inner : HeaderError)
  deriving DecidableEq, Repr

namespace Response

def pushHeader (r : Response) (h : ExtraHeader) : Response :=
  { r with extraHeaders := r.extraHeaders ++ [h] }

/-- `*` is a token character too, so it is told apart before the check of the name. -/
def withVary (r : Response) (fieldName : Bytes) : Except HeaderError Response :=
  let isStar := fieldName == ascii "*"
  if !isStar && (fieldName.isEmpty || !fieldName.all isTchar) then .error .invalidValue
  else
    let already :=
      ((r.extraHeaders.filter fun h => eqIgnoreAsciiCase h.name (ascii "vary")).flatMap
        fun h => listMembers h.value).any fun m => m == ascii "*" || eqIgnoreAsciiCase m fieldName
    if already then .ok r else r.withHeader (ascii "Vary") fieldName

def withNoStore (r : Response) : Response :=
  let already :=
    (r.extraHeaders.filter fun h => eqIgnoreAsciiCase h.name (ascii "cache-control")).any
      fun h => hasDirective h.value (ascii "no-store")
  if !already then
    r.pushHeader ⟨ascii "Cache-Control", ascii "no-store", by decide, by decide, by decide⟩
  else r

def withSetCookie (r : Response) (cookie : SetCookie) : Response :=
  r.pushHeader ⟨ascii "Set-Cookie", cookie.toHeaderValue, by decide,
    cookie.toHeaderValue_allowed, by decide⟩

def seeOther (location : SameOriginLocation) : Response :=
  (empty 303).pushHeader ⟨ascii "Location", location.intoString, by decide,
    location.intoString_allowed, by decide⟩

def redirect (status : UInt16) (location : Bytes) : Except RedirectError Response :=
  if status ≠ 301 ∧ status ≠ 302 ∧ status ≠ 303 ∧ status ≠ 307 ∧ status ≠ 308 then
    .error .unsupportedStatus
  else if location.isEmpty then .error .emptyLocation
  else ((empty status).withHeader (ascii "Location") location).mapError .invalidLocation

end Response

/-- `format!` with a width of zeros. -/
def padZeros (width : ℕ) (s : Bytes) : Bytes := List.replicate (width - s.length) 48 ++ s

def escapeJsonChar (ch : Char) : Bytes :=
  if ch = '"' then ascii "\\\""
  else if ch = '\\' then ascii "\\\\"
  else if ch.toNat = 8 then ascii "\\b"
  else if ch.toNat = 12 then ascii "\\f"
  else if ch = '\n' then ascii "\\n"
  else if ch = '\r' then ascii "\\r"
  else if ch = '\t' then ascii "\\t"
  else if ch.toNat < 32 then ascii "\\u" ++ padZeros 4 (numeral 16 ch.toNat)
  else String.utf8EncodeChar ch

def escapeJsonString (input : List Char) (out : Bytes) : Bytes :=
  input.foldl (fun out ch => out ++ escapeJsonChar ch) out

def applicationJson : ContentType := ⟨ascii "application/json", by decide⟩

def errorResponse (status : UInt16) (message : List Char) : Response :=
  let body := escapeJsonString message (ascii "\x7b\"error\":\"")
  (Response.new status (body ++ ascii "\"\x7d")).withContentType applicationJson

def isizeMax : ℕ := 2 ^ 63 - 1

/-- The responses that the builders give. Status and body are public fields. -/
inductive Built : Response → Prop
  | new (status : UInt16) (body : Bytes) : body.length ≤ isizeMax → Built (.new status body)
  | empty (status : UInt16) : Built (.empty status)
  | redirect {status : UInt16} {location : Bytes} {r : Response} :
      Response.redirect status location = .ok r → Built r
  | seeOther (location : SameOriginLocation) : Built (.seeOther location)
  | errorResponse (status : UInt16) (message : List Char) :
      (errorResponse status message).body.length ≤ isizeMax → Built (errorResponse status message)
  | withContentType {r : Response} (contentType : ContentType) :
      Built r → Built (r.withContentType contentType)
  | withAllow {r : Response} (allow : AllowedMethods) : Built r → Built (r.withAllow allow)
  | withHeader {r r' : Response} {name value : Bytes} :
      Built r → r.withHeader name value = .ok r' → Built r'
  | withVary {r r' : Response} {fieldName : Bytes} :
      Built r → r.withVary fieldName = .ok r' → Built r'
  | withNoStore {r : Response} : Built r → Built r.withNoStore
  | withSetCookie {r : Response} (cookie : SetCookie) : Built r → Built (r.withSetCookie cookie)
  | status {r : Response} (status : UInt16) : Built r → Built { r with status }
  | body {r : Response} (body : Bytes) :
      Built r → body.length ≤ isizeMax → Built { r with body }

theorem withHeader_eq_ok {r r' : Response} {name value : Bytes}
    (h : r.withHeader name value = .ok r') : ∃ hs, r' = { r with extraHeaders := hs } := by
  unfold Response.withHeader at h
  split_ifs at h
  exact ⟨_, (Except.ok.inj h).symm⟩

theorem withVary_eq_ok {r r' : Response} {fieldName : Bytes} (h : r.withVary fieldName = .ok r') :
    ∃ hs, r' = { r with extraHeaders := hs } := by
  unfold Response.withVary at h
  simp only at h
  split_ifs at h
  · exact ⟨_, (Except.ok.inj h).symm⟩
  · exact withHeader_eq_ok h

theorem withNoStore_body (r : Response) : r.withNoStore.body = r.body := by
  unfold Response.withNoStore
  simp only
  split_ifs <;> rfl

theorem redirect_body {status : UInt16} {location : Bytes} {r : Response}
    (h : Response.redirect status location = .ok r) : r.body = [] := by
  unfold Response.redirect at h
  split_ifs at h
  cases hr : (Response.empty status).withHeader (ascii "Location") location with
  | error e =>
    rw [hr] at h
    cases h
  | ok r' =>
    rw [hr] at h
    cases h
    obtain ⟨hs, rfl⟩ := withHeader_eq_ok hr
    rfl

theorem Built.body_length {r : Response} (h : Built r) : r.body.length ≤ isizeMax := by
  induction h with
  | new status body h => exact h
  | empty status => exact Nat.zero_le _
  | redirect h =>
    rw [redirect_body h]
    exact Nat.zero_le _
  | seeOther location => exact Nat.zero_le _
  | errorResponse status message h => exact h
  | withContentType contentType _ ih => exact ih
  | withAllow allow _ ih => exact ih
  | withHeader _ h ih =>
    obtain ⟨hs, rfl⟩ := withHeader_eq_ok h
    exact ih
  | withVary _ h ih =>
    obtain ⟨hs, rfl⟩ := withVary_eq_ok h
    exact ih
  | withNoStore _ ih =>
    rw [withNoStore_body]
    exact ih
  | withSetCookie cookie _ ih => exact ih
  | status status _ ih => exact ih
  | body body _ h _ => exact h

end FandheBackend.HttpResponse
