import FandheBackend.PatternSplit
import FandheBackend.PluginHeaders

set_option autoImplicit false

/-!
# Cross-origin requests (`crates/plugin-cors/src/lib.rs`)

A preflight is answered from the `OPTIONS` fallback of the router. The core adds the headers
of the actual responses, and leaves a preflight alone.
-/
namespace FandheBackend.PluginCors
open StdBytes HttpRequestHead HttpResponse HttpResponseUnions PluginHeaders

inductive CorsOrigins where
  | list (origins : List Bytes)
  | any
  deriving DecidableEq, Repr

inductive CorsConfigError where
  | anyOriginWithCredentials
  deriving DecidableEq, Repr

structure CorsConfig where
  origins : CorsOrigins
  methods : Option (List Bytes)
  headers : List Bytes
  credentials : Bool
  maxAge : Option UInt64
  exposeHeaders : List Bytes
  any_without_credentials : origins = .any → credentials = false

structure CorsConfigBuilder where
  origins : List Bytes := []
  anyOrigin : Bool := false
  methods : Option (List Bytes) := none
  headers : List Bytes := []
  credentials : Bool := false
  maxAge : Option UInt64 := none
  exposeHeaders : List Bytes := []

def CorsConfigBuilder.build (b : CorsConfigBuilder) : Except CorsConfigError CorsConfig :=
  if h : (b.anyOrigin && b.credentials) = true then .error .anyOriginWithCredentials
  else .ok
    { origins := if b.anyOrigin then .any else .list b.origins
      methods := b.methods
      headers := b.headers
      credentials := b.credentials
      maxAge := b.maxAge
      exposeHeaders := b.exposeHeaders
      any_without_credentials := by
        intro hany
        cases hb : b.anyOrigin with
        | false => simp [hb] at hany
        | true => simpa [hb] using h }

/-- The builder makes every configuration. -/
theorem CorsConfigBuilder.build_surjective (config : CorsConfig) :
    ∃ b : CorsConfigBuilder, b.build = .ok config := by
  obtain ⟨origins, methods, headers, credentials, maxAge, exposeHeaders, hany⟩ := config
  cases origins with
  | list origins =>
    exact ⟨⟨origins, false, methods, headers, credentials, maxAge, exposeHeaders⟩, rfl⟩
  | any =>
    obtain rfl := hany rfl
    exact ⟨⟨[], true, methods, headers, false, maxAge, exposeHeaders⟩, rfl⟩

def originAllowed (config : CorsConfig) (origin : Bytes) : Bool :=
  match config.origins with
  | .any => true
  | .list list => list.any (· == origin)

def tryAddHeader (response : Response) (name value : Bytes) : Response :=
  (response.withHeader name value).toOption.getD response

def tryAddVary (response : Response) (fieldName : Bytes) : Response :=
  (response.withVary fieldName).toOption.getD response

/-- The `match` on the origins, which both functions below have in these words. -/
def addAllowOrigin (config : CorsConfig) (origin : Bytes) (response : Response) : Response :=
  match config.origins with
  | .any => tryAddHeader response (ascii "Access-Control-Allow-Origin") (ascii "*")
  | .list _ =>
    let response := tryAddHeader response (ascii "Access-Control-Allow-Origin") origin
    tryAddVary response (ascii "Origin")

def effectiveMethods (config : CorsConfig) (allow : AllowedMethods) : List Bytes :=
  config.methods.getD (PatternSplit.split (ascii ", ") allow.toHeaderValue)

section
variable {TypeId : Type} {E : TypeId → Type}

def isPreflight (head : RequestHead E) : Bool :=
  eqIgnoreAsciiCase head.method (ascii "OPTIONS") && (head.header (ascii "origin")).isSome &&
    (head.header (ascii "access-control-request-method")).isSome

def requestedMethod (head : RequestHead E) : Bytes :=
  (head.header (ascii "access-control-request-method")).getD []

def preflightResponse (head : RequestHead E) (allow : AllowedMethods) (config : CorsConfig) :
    Response :=
  match head.header (ascii "origin") with
  | none => (Response.empty 405).withAllow allow
  | some origin =>
    if !originAllowed config origin then Response.empty 403
    else if !(effectiveMethods config allow).any (· == requestedMethod head) then
      Response.empty 403
    else
      let response := Response.empty 204
      let response := addAllowOrigin config origin response
      let response := tryAddHeader response (ascii "Access-Control-Allow-Methods")
        (join (ascii ", ") (effectiveMethods config allow))
      let response := if !config.headers.isEmpty then
          tryAddHeader response (ascii "Access-Control-Allow-Headers")
            (join (ascii ", ") config.headers)
        else response
      let response := match config.maxAge with
        | some maxAge =>
          tryAddHeader response (ascii "Access-Control-Max-Age") (numeral 10 maxAge.toNat)
        | none => response
      if config.credentials then
        tryAddHeader response (ascii "Access-Control-Allow-Credentials") (ascii "true")
      else response

def applyCorsHeaders (head : RequestHead E) (config : CorsConfig) (response : Response) :
    Response :=
  match head.header (ascii "origin") with
  | none => response
  | some origin =>
    if !originAllowed config origin then response
    else
      let response := addAllowOrigin config origin response
      let response := if config.credentials then
          tryAddHeader response (ascii "Access-Control-Allow-Credentials") (ascii "true")
        else response
      if !config.exposeHeaders.isEmpty then
        tryAddHeader response (ascii "Access-Control-Expose-Headers")
          (join (ascii ", ") config.exposeHeaders)
      else response

/-- `plugin::apply_cors` of the core; `none` is a server without CORS. -/
def applyCors (config : Option CorsConfig) (head : RequestHead E) (response : Response) :
    Response :=
  match config with
  | some config =>
    if !isPreflight head then applyCorsHeaders head config response else response
  | none => response

end

end FandheBackend.PluginCors
