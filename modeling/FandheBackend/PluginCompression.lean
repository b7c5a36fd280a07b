import FandheBackend.CoreConnection
import FandheBackend.HttpResponseBuilder
import FandheBackend.PluginCors

set_option autoImplicit false

/-!
# Compression of responses (`crates/plugin-compression/src/lib.rs`)

What the plugin decides about the head of a streaming response, and what it makes of a whole
one. The gzip encoder and the parser of `f32` are parameters.
-/
namespace FandheBackend.PluginCompression
open StdBytes HttpRequestHead HttpBodyLength HttpResponse CoreConnection

structure CompressionConfig where
  compressibleTypes : List Bytes
  compressStreaming : Bool

def CompressionConfig.matchesContentType (config : CompressionConfig) (contentType : Bytes) :
    Bool :=
  let essence := (strTrim (contentType.takeWhile (· != 59))).map toAsciiLowercase
  if essence.isEmpty then false
  else config.compressibleTypes.any fun pattern =>
    if pattern.getLast? = some 47 then pattern.isPrefixOf essence else essence == pattern

section
variable (parseQ : Bytes → Option Bool)

/-- The parameters of a token. `parseQ` says of a text that is a number from 0 to 1 whether
it is above 0; another text makes the token invalid. -/
def tokenQ : List Bytes → Bool → Bool → Option Bool
  | [], q, valid => if valid then some q else none
  | param :: params, q, valid =>
    let param := strTrim param
    if (ascii "q=").isPrefixOf param || (ascii "Q=").isPrefixOf param then
      match parseQ (strTrim (param.drop 2)) with
      | some v => tokenQ params v valid
      | none => tokenQ params q false
    else tokenQ params q valid

def acceptToken (qs : Option Bool × Option Bool) (token : Bytes) : Option Bool × Option Bool :=
  match token.splitOn 59 with
  | [] => qs
  | first :: params =>
    let coding := strTrim first
    if coding.isEmpty then qs
    else match tokenQ parseQ params true true with
      | none => qs
      | some q =>
        if eqIgnoreAsciiCase coding (ascii "gzip") || eqIgnoreAsciiCase coding (ascii "x-gzip") then
          (some q, qs.2)
        else if coding == ascii "*" then (qs.1, some q)
        else qs

def acceptsGzip (headers : List (Bytes × Bytes)) : Bool :=
  let values := (headers.filter fun h => eqIgnoreAsciiCase h.1 (ascii "accept-encoding")).map
    Prod.snd
  let qs := (values.flatMap fun value => value.splitOn 44).foldl (acceptToken parseQ) (none, none)
  match qs.1 with
  | some q => q
  | none => qs.2.getD false

end

def header (response : Response) (name : Bytes) : Option Bytes :=
  if eqIgnoreAsciiCase name (ascii "content-type") && response.contentType.isSome then
    response.contentType.map ContentType.text
  else (response.extraHeaders.find? fun h => eqIgnoreAsciiCase h.name name).map ExtraHeader.value

def tryAddHeader (response : Response) (name value : Bytes) : Response :=
  (response.withHeader name value).toOption.getD response

def tryAddVary (response : Response) (fieldName : Bytes) : Response :=
  (response.withVary fieldName).toOption.getD response

section
variable {TypeId : Type} {E : TypeId → Type} (parseQ : Bytes → Option Bool)

def beginStreamingCompression (head : RequestHead E) (config : CompressionConfig)
    (response : Response) : Response × Bool :=
  if !config.compressStreaming then (response, false)
  else if !(200 ≤ response.status && response.status < 300) ||
      Response.isBodylessStatus response.status then (response, false)
  else if !((header response (ascii "content-type")).any config.matchesContentType) then
    (response, false)
  else
    let response := tryAddVary response (ascii "Accept-Encoding")
    if (header response (ascii "content-encoding")).isSome then (response, false)
    else if !acceptsGzip parseQ head.headers then (response, false)
    else (tryAddHeader response (ascii "Content-Encoding") (ascii "gzip"), true)

/-- `plugin::prepare_streaming_compression`; without the feature there is no configuration. -/
def prepareStreamingCompression (gzip : StreamingBodyEncoder) (config : Option CompressionConfig)
    (head : RequestHead E) (response : Response) : Response × StreamingBodyEncoder :=
  match config with
  | none => (response, .identity)
  | some config =>
    let begun := beginStreamingCompression parseQ head config response
    (begun.1, if begun.2 then gzip else .identity)

end

section
variable {TypeId : Type} {E : TypeId → Type} (parseQ : Bytes → Option Bool)
variable (compressBody : Bytes → Bytes)

/-- `CompressionConfig` with its other two fields, which only whole responses ask for. -/
structure WholeConfig extends CompressionConfig where
  minSize : ℕ
  blockingThreshold : ℕ

inductive CompressionPlan where
  | skip (response : Response)
  | compress (response : Response)
  deriving DecidableEq

def planCompression (head : RequestHead E) (config : WholeConfig) (response : Response) :
    CompressionPlan :=
  if response.status == 204 || !(200 ≤ response.status && response.status < 300) then
    .skip response
  else
    let contentTypeOk :=
      (header response (ascii "content-type")).any config.matchesContentType
    let sizeOk := decide (config.minSize ≤ response.body.length)
    if !(contentTypeOk && sizeOk) then .skip response
    else
      let response := tryAddVary response (ascii "Accept-Encoding")
      if (header response (ascii "content-encoding")).isSome then .skip response
      else if !acceptsGzip parseQ head.headers then .skip response
      else .compress response

def attachCompressed (response : Response) (compressed : Bytes) : Response :=
  if compressed.isEmpty || response.body.length ≤ compressed.length then response
  else
    let response := tryAddHeader response (ascii "Content-Encoding") (ascii "gzip")
    { response with body := compressed }

def applyCompression (head : RequestHead E) (config : WholeConfig) (response : Response) :
    Response :=
  match planCompression parseQ head config response with
  | .skip response => response
  | .compress response =>
    let compressed := compressBody response.body
    attachCompressed response compressed

/-- How a task of `spawn_blocking` ends; one that panics or is cut off has no result. -/
inductive Join where
  | completed
  | failed
  deriving DecidableEq

/-- `plugin::finalize_response` of the core. The body is taken out of the planned response while
it is compressed, and put back. -/
def finalizeResponse (cors : Option PluginCors.CorsConfig) (compression : Option WholeConfig)
    (join : Join) (head : RequestHead E) (response : Response) : Response :=
  let response := PluginCors.applyCors cors head response
  match compression with
  | none => response
  | some config =>
    match planCompression parseQ head config response with
    | .skip skipped => skipped
    | .compress planned =>
      let body := planned.body
      let planned := { planned with body := [] }
      if config.blockingThreshold ≤ body.length then
        let compressed := match join with
          | .completed => compressBody body
          | .failed => []
        attachCompressed { planned with body := body } compressed
      else
        let compressed := compressBody body
        attachCompressed { planned with body := body } compressed

end

theorem tryAddHeader_status (response : Response) (name value : Bytes) :
    (tryAddHeader response name value).status = response.status := by
  unfold tryAddHeader
  cases h : response.withHeader name value with
  | error e => rfl
  | ok r =>
    obtain ⟨hs, rfl⟩ := withHeader_eq_ok h
    rfl

theorem tryAddVary_status (response : Response) (fieldName : Bytes) :
    (tryAddVary response fieldName).status = response.status := by
  unfold tryAddVary
  cases h : response.withVary fieldName with
  | error e => rfl
  | ok r =>
    obtain ⟨hs, rfl⟩ := withVary_eq_ok h
    rfl

section
variable {TypeId : Type} {E : TypeId → Type} (parseQ : Bytes → Option Bool)

theorem beginStreamingCompression_status (head : RequestHead E) (config : CompressionConfig)
    (response : Response) :
    (beginStreamingCompression parseQ head config response).1.status = response.status := by
  have hvary := tryAddVary_status response (ascii "Accept-Encoding")
  unfold beginStreamingCompression
  dsimp only
  split_ifs
  · rfl
  · rfl
  · rfl
  · exact hvary
  · exact hvary
  · exact (tryAddHeader_status _ _ _).trans hvary

/-- The plugin adds headers; the status stays as the interceptors left it. -/
theorem prepareStreamingCompression_status (gzip : StreamingBodyEncoder)
    (config : Option CompressionConfig) (head : RequestHead E) (response : Response) :
    (prepareStreamingCompression parseQ gzip config head response).1.status =
      response.status := by
  cases config with
  | none => rfl
  | some config => exact beginStreamingCompression_status parseQ head config response

end

end FandheBackend.PluginCompression
