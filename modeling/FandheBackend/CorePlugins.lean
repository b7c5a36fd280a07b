import FandheBackend.CoreConnectionObservations
import FandheBackend.FirstAnswer
import FandheBackend.JsonText
import FandheBackend.PluginStaticLaw
import FandheBackend.PluginWebrtcProxyRelay

set_option autoImplicit false

/-!
# The plugins of a server (`crates/core/src/plugin.rs`)

Five plugins may take a request before the handler sees it; two more go over what is sent. A
plugin that is not registered, or whose feature is off, is `none`.
-/
namespace FandheBackend.CorePlugins
open StdBytes HttpRequestHead HttpResponse CoreConnection
open PluginCompression (WholeConfig Join)
open PluginStatic (StaticFilesConfig FileSystem IsGet UnderMount tryHandleStatic
  tryHandleStatic_eq_some)
open PluginWebrtcProxyRelay (ProxyConfig Upstream PluginResponse isOffer)

def json (status : UInt16) (body : Bytes) : Response :=
  (Response.new status body).withContentType applicationJson

section WebRtc

/-- How `complete_signaling` ends, and `timedOut` if `signaling_timeout` passes first. -/
inductive Signaling where
  | timedOut
  | invalidOfferJson
  | initFailed
  | invalidRemoteDescription
  | createAnswerFailed
  | setLocalDescriptionFailed
  | localDescriptionMissing
  | serializationFailed
  | answered (answer : Bytes)
  deriving DecidableEq, Repr

def errorBody (code : Bytes) : Bytes := ascii "\x7b\"error\":\"" ++ code ++ ascii "\"\x7d"

def Signaling.response : Signaling → Response
  | .timedOut => json 504 (errorBody (ascii "signaling_timeout"))
  | .invalidOfferJson => json 400 (errorBody (ascii "invalid_offer_json"))
  | .initFailed => json 500 (errorBody (ascii "peer_connection_init_failed"))
  | .invalidRemoteDescription => json 400 (errorBody (ascii "invalid_remote_description"))
  | .createAnswerFailed => json 500 (errorBody (ascii "create_answer_failed"))
  | .setLocalDescriptionFailed => json 500 (errorBody (ascii "set_local_description_failed"))
  | .localDescriptionMissing => json 500 (errorBody (ascii "local_description_missing"))
  | .serializationFailed => json 500 (errorBody (ascii "serialization_failed"))
  | .answered answer => json 200 answer

/-- `WebRtcConfig` as one request finds it. -/
structure WebRtcConfig where
  maxOfferBytes : UInt64
  -- `parsed_udp_bind_addrs` finds addresses.
  udpBindAddrs : Bool
  -- `reserve_slot` finds a slot.
  reserveSlot : Bool
  signaling : Bytes → Signaling

variable {TypeId : Type} {E : TypeId → Type}

/-- `try_handle_rtc_offer` of `plugin-webrtc`. -/
def tryHandleRtcOffer (head : RequestHead E) (body : Bytes) (config : WebRtcConfig) :
    Option Response :=
  if !isOffer head then none
  else match (head.header (ascii "content-length")).bind (parseUnsigned (2 ^ 64)) with
    | none => some (json 400 (errorBody (ascii "missing_content_length")))
    | some declaredLen =>
      if declaredLen ≠ body.length then
        some (json 400 (errorBody (ascii "content_length_mismatch")))
      else if body.length > config.maxOfferBytes.toNat then
        some (json 413 (errorBody (ascii "offer_too_large")))
      else if !config.udpBindAddrs then
        some (json 500 (errorBody (ascii "peer_connection_init_failed")))
      else if !config.reserveSlot then
        some (json 503 (errorBody (ascii "peer_connection_limit_reached")))
      else some (config.signaling body).response

end WebRtc

section GraphQl

structure GraphQlRequestBody where
  query : List Char
  variableValues : Option JsonText.Value
  operationName : Option (List Char)

/-- The schema, between the deserialiser of the body and the serialiser of the result. -/
structure GraphQlConfig where
  fromSlice : Bytes → Option GraphQlRequestBody
  execute : GraphQlRequestBody → Option Bytes

def invalidRequestBody : Bytes :=
  ascii "\x7b\"errors\":[\x7b\"message\":\"invalid request body\"\x7d]\x7d"

variable {TypeId : Type} {E : TypeId → Type}

def tryHandleGraphql (head : RequestHead E) (body : Bytes) (config : GraphQlConfig) :
    Option Response :=
  if head.method != ascii "POST" || head.target != ascii "/graphql" then none
  else match config.fromSlice body with
    | none => some (json 400 invalidRequestBody)
    | some parsed => some (json 200 ((config.execute parsed).getD invalidRequestBody))

end GraphQl

section OpenApi

inductive OpenApiDocError where
  | invalidJson
  | notAnObject
  | invalidYaml
  deriving DecidableEq, Repr

structure OpenApiDoc where
  json : Bytes
  yaml : Option Bytes
  yaml_text : ∀ text ∈ yaml, text ≠ [] ∧ Utf8Text.IsText text

/-- `parse` is `serde_json::from_slice`. -/
def OpenApiDoc.fromJson (parse : Bytes → Option JsonText.Value) (json : Bytes) :
    Except OpenApiDocError OpenApiDoc :=
  match parse json with
  | none => .error .invalidJson
  | some (.object _) => .ok ⟨json, none, nofun⟩
  | some _ => .error .notAnObject

def OpenApiDoc.withYaml (doc : OpenApiDoc) (yaml : Bytes) : Except OpenApiDocError OpenApiDoc :=
  if h : yaml = [] ∨ fromUtf8IsErr yaml = true then .error .invalidYaml
  else .ok { doc with
    yaml := some yaml
    yaml_text := by
      rw [not_or, Bool.not_eq_true] at h
      rintro text ⟨⟩
      exact ⟨h.1, (HttpRequestGrammar.fromUtf8IsErr_eq_false yaml).mp h.2⟩ }

/-- The two constructors make every document whose JSON is an object. -/
theorem OpenApiDoc.built (doc : OpenApiDoc) {parse : Bytes → Option JsonText.Value}
    {members : List (List Char × JsonText.Value)} (h : parse doc.json = some (.object members)) :
    ∃ bare, fromJson parse doc.json = .ok bare ∧
      (bare = doc ∨ ∃ yaml, bare.withYaml yaml = .ok doc) := by
  obtain ⟨json, yaml, htext⟩ := doc
  refine ⟨⟨json, none, nofun⟩, by rw [fromJson, h], ?_⟩
  cases yaml with
  | none => exact .inl rfl
  | some yaml =>
    obtain ⟨hne, htext⟩ := htext yaml rfl
    have hvalid : ¬(yaml = [] ∨ fromUtf8IsErr yaml = true) := by
      rw [not_or, Bool.not_eq_true]
      exact ⟨hne, (HttpRequestGrammar.fromUtf8IsErr_eq_false yaml).mpr htext⟩
    exact .inr ⟨yaml, by rw [withYaml, dif_neg hvalid]⟩

structure EmbeddedDoc where
  openapiJson : Bytes
  openapiYaml : Bytes

inductive OpenApiRegistration where
  | disabled
  | embedded
  | custom (doc : OpenApiDoc)

variable {TypeId : Type} {E : TypeId → Type}

def openapiJson (embedded : EmbeddedDoc) : OpenApiRegistration → Option Bytes
  | .disabled => none
  | .embedded => some embedded.openapiJson
  | .custom doc => some doc.json

def openapiYaml (embedded : EmbeddedDoc) : OpenApiRegistration → Option Bytes
  | .disabled => none
  | .embedded => some embedded.openapiYaml
  | .custom doc => doc.yaml

/-- The `openapi` part of `try_intercept`. -/
def interceptOpenapi (embedded : EmbeddedDoc) (registration : OpenApiRegistration)
    (head : RequestHead E) : Option Response :=
  if head.method = ascii "GET" ∧ head.target = ascii "/openapi.json" then
    (openapiJson embedded registration).map (CorePlugins.json 200)
  else if head.method = ascii "GET" ∧ head.target = ascii "/openapi.yaml" then
    (openapiYaml embedded registration).map fun body =>
      (Response.new 200 body).withContentType ⟨ascii "application/yaml", by decide⟩
  else none

end OpenApi

/-- What is registered, and what the requests meet outside the program: the upstream, the
registry of peers, the file system, and how the tasks of `spawn_blocking` end. -/
structure Plugins where
  webrtcProxy : Option ProxyConfig
  upstream : ℕ → Upstream
  webrtc : Option (ℕ → WebRtcConfig)
  graphql : Option GraphQlConfig
  embedded : EmbeddedDoc
  openapi : OpenApiRegistration
  staticFiles : Option StaticFilesConfig
  fileSystem : ℕ → FileSystem
  staticJoined : ℕ → Bool
  cors : Option PluginCors.CorsConfig
  parseQ : Bytes → Option Bool
  compression : Option WholeConfig
  compressBody : Bytes → Bytes
  compressJoin : ℕ → Join
  gzip : StreamingBodyEncoder

/-- `from_plugin_response`; `from_graphql_response` does the same. -/
def fromPluginResponse (response : PluginResponse) : Response :=
  (Response.new response.status response.body).withContentType response.contentType

section
variable {TypeId : Type} {E : TypeId → Type} (p : Plugins)

namespace Plugins

/-- `plugin::try_intercept`. -/
def tryIntercept (n : ℕ) (head : RequestHead E) (body : Bytes) : Option Response :=
  match p.webrtcProxy.bind fun config =>
      PluginWebrtcProxyRelay.tryHandleRtcOffer head body config (p.upstream n) with
  | some response => some (fromPluginResponse response)
  | none =>
    match p.webrtc.bind fun config => CorePlugins.tryHandleRtcOffer head body (config n) with
    | some response => some response
    | none =>
      match p.graphql.bind fun config => tryHandleGraphql head body config with
      | some response => some response
      | none =>
        match interceptOpenapi p.embedded p.openapi head with
        | some response => some response
        | none => p.staticFiles.bind fun config =>
            tryHandleStatic (p.fileSystem n) (p.staticJoined n) head config

/-- A server with the plugins of `plugin.rs` in place of its own. -/
def register (server : Server E) : Server E :=
  { server with
    tryIntercept := p.tryIntercept
    finalizeResponse := fun n head response => PluginCompression.finalizeResponse p.parseQ
      p.compressBody p.cors p.compression (p.compressJoin n) head response
    finalizeStreamingHead := fun _ head response => PluginCors.applyCors p.cors head response
    prepareStreamingCompression := fun _ head response =>
      PluginCompression.prepareStreamingCompression p.parseQ p.gzip
        (p.compression.map WholeConfig.toCompressionConfig) head response }

end Plugins

end

section Order
variable {TypeId : Type} {E : TypeId → Type}

inductive Plugin where
  | webrtcProxy
  | webrtc
  | graphql
  | openapi
  | staticFiles
  deriving DecidableEq, Repr

def Plugin.all : List Plugin := [.webrtcProxy, .webrtc, .graphql, .openapi, .staticFiles]

def Plugins.answer (p : Plugins) (n : ℕ) (head : RequestHead E) (body : Bytes) :
    Plugin → Option Response
  | .webrtcProxy => (p.webrtcProxy.bind fun config =>
      PluginWebrtcProxyRelay.tryHandleRtcOffer head body config (p.upstream n)).map
        fromPluginResponse
  | .webrtc => p.webrtc.bind fun config => tryHandleRtcOffer head body (config n)
  | .graphql => p.graphql.bind fun config => tryHandleGraphql head body config
  | .openapi => interceptOpenapi p.embedded p.openapi head
  | .staticFiles => p.staticFiles.bind fun config =>
      tryHandleStatic (p.fileSystem n) (p.staticJoined n) head config

theorem tryIntercept_eq (p : Plugins) (n : ℕ) (head : RequestHead E) (body : Bytes) :
    p.tryIntercept n head body = Plugin.all.findSome? (p.answer n head body) := by
  simp only [Plugins.tryIntercept, Plugin.all, List.findSome?_cons, List.findSome?_nil,
    Plugins.answer]
  cases p.webrtcProxy.bind fun config =>
      PluginWebrtcProxyRelay.tryHandleRtcOffer head body config (p.upstream n) with
  | some response => rfl
  | none =>
    cases p.webrtc.bind fun config => tryHandleRtcOffer head body (config n) with
    | some response => rfl
    | none =>
      cases p.graphql.bind fun config => tryHandleGraphql head body config with
      | some response => rfl
      | none =>
        cases interceptOpenapi p.embedded p.openapi head with
        | some response => rfl
        | none =>
          cases p.staticFiles.bind fun config =>
            tryHandleStatic (p.fileSystem n) (p.staticJoined n) head config <;> rfl

/-- The requests that a plugin may answer: a method, and a target or what lies under a mount. -/
def claims (p : Plugins) (head : RequestHead E) : Plugin → Prop
  | .webrtcProxy => head.method = ascii "POST" ∧ head.target = ascii "/rtc/offer"
  | .webrtc => head.method = ascii "POST" ∧ head.target = ascii "/rtc/offer"
  | .graphql => head.method = ascii "POST" ∧ head.target = ascii "/graphql"
  | .openapi => head.method = ascii "GET" ∧
      (head.target = ascii "/openapi.json" ∨ head.target = ascii "/openapi.yaml")
  | .staticFiles => IsGet head ∧
      ∃ config tail, p.staticFiles = some config ∧ UnderMount config.mount head.path tail

theorem isOffer_iff (head : RequestHead E) :
    isOffer head = true ↔ head.method = ascii "POST" ∧ head.target = ascii "/rtc/offer" := by
  simp [isOffer]

theorem claims_of_answer {p : Plugins} {n : ℕ} {head : RequestHead E} {body : Bytes} {a : Plugin}
    {r : Response} (h : p.answer n head body a = some r) : claims p head a := by
  cases a with
  | webrtcProxy =>
    obtain ⟨_, hbind, -⟩ := Option.map_eq_some_iff.mp h
    obtain ⟨config, -, hconfig⟩ := Option.bind_eq_some_iff.mp hbind
    refine (isOffer_iff head).mp (Bool.not_eq_false _ ▸ fun hoffer => ?_)
    rw [PluginWebrtcProxyRelay.tryHandleRtcOffer, hoffer] at hconfig
    cases hconfig
  | webrtc =>
    obtain ⟨config, -, hconfig⟩ := Option.bind_eq_some_iff.mp h
    refine (isOffer_iff head).mp (Bool.not_eq_false _ ▸ fun hoffer => ?_)
    rw [tryHandleRtcOffer, hoffer] at hconfig
    cases hconfig
  | graphql =>
    obtain ⟨config, -, hconfig⟩ := Option.bind_eq_some_iff.mp h
    rw [tryHandleGraphql] at hconfig
    split_ifs at hconfig with hpost
    have hboth : head.method = ascii "POST" ∧ head.target = ascii "/graphql" := by simpa using hpost
    exact hboth
  | openapi =>
    have hopen : interceptOpenapi p.embedded p.openapi head = some r := h
    rw [interceptOpenapi] at hopen
    split_ifs at hopen with hjson hyaml
    · exact ⟨hjson.1, .inl hjson.2⟩
    · exact ⟨hyaml.1, .inr hyaml.2⟩
  | staticFiles =>
    obtain ⟨config, hregistered, hconfig⟩ := Option.bind_eq_some_iff.mp h
    obtain ⟨hget, tail, htail⟩ := tryHandleStatic_eq_some hconfig
    exact ⟨hget, config, tail, hregistered, htail⟩

/-- The plugins that answer to `GET`; the others answer to `POST`. -/
def isGet : Plugin → Bool
  | .openapi => true
  | .staticFiles => true
  | _ => false

theorem method_of_claims {p : Plugins} {head : RequestHead E} {a : Plugin}
    (h : claims p head a) : eqIgnoreAsciiCase head.method (ascii "GET") = isGet a := by
  cases a with
  | staticFiles => exact h.1
  | _ =>
    rw [h.1]
    rfl

/-- Two plugins that may both answer a request, the first of them asked first. -/
theorem claims_twice {p : Plugins} {head : RequestHead E} {a b : Plugin} (ha : claims p head a)
    (hb : claims p head b) (h : FirstAnswer.Before a b Plugin.all) :
    a = .webrtcProxy ∧ b = .webrtc ∨ a = .openapi ∧ b = .staticFiles := by
  have hmethod : isGet a = isGet b := (method_of_claims ha).symm.trans (method_of_claims hb)
  have hpairs : ∀ a b : Plugin, [a, b].Sublist Plugin.all → isGet a = isGet b → b ≠ .graphql →
      a = .webrtcProxy ∧ b = .webrtc ∨ a = .openapi ∧ b = .staticFiles := by
    intro a b
    cases a <;> cases b <;> decide
  refine hpairs a b h hmethod ?_
  rintro rfl
  have hoffer : head.target = ascii "/rtc/offer" := by
    cases a with
    | webrtcProxy => exact ha.2
    | webrtc => exact ha.2
    | graphql => exact absurd h (by unfold FirstAnswer.Before; decide)
    | openapi => cases hmethod
    | staticFiles => cases hmethod
  exact absurd (hoffer.symm.trans hb.2) (by decide)

/-- The order of `try_intercept` matters for two pairs of plugins only, and a request that none of
the plugins claims passes them all. -/
theorem intercept_order_law (p : Plugins) (n : ℕ) (head : RequestHead E) (body : Bytes) :
    (∀ order : List Plugin, Plugin.all.Perm order →
      FirstAnswer.Before .webrtcProxy .webrtc order →
      FirstAnswer.Before .openapi .staticFiles order →
      p.tryIntercept n head body = order.findSome? (p.answer n head body)) ∧
    (∀ r, p.tryIntercept n head body = some r →
      ∃ a, claims p head a ∧ p.answer n head body a = some r) := by
  rw [tryIntercept_eq]
  constructor
  · intro order hperm hrtc hget
    refine FirstAnswer.findSome?_of_perm hperm (by decide) fun a b ha hb hbefore => ?_
    obtain ⟨r, hr⟩ := Option.isSome_iff_exists.mp ha
    obtain ⟨r', hr'⟩ := Option.isSome_iff_exists.mp hb
    obtain ⟨rfl, rfl⟩ | ⟨rfl, rfl⟩ :=
      claims_twice (claims_of_answer hr) (claims_of_answer hr') hbefore
    · exact hrtc
    · exact hget
  · intro r hr
    obtain ⟨_, a, _, -, ha, -⟩ := List.findSome?_eq_some_iff.mp hr
    exact ⟨a, claims_of_answer ha, ha⟩

def noFiles : FileSystem where
  tree := ⟨[([], .dir)], rfl, by decide⟩
  currentDir := []
  current_dir := rfl

def twoRelays : Plugins where
  webrtcProxy := some (.new (ascii "127.0.0.1:9000"))
  upstream _ := ⟨.failed, false, fun _ => false, fun _ => []⟩
  webrtc := some fun _ => ⟨65536, true, true, fun _ => .invalidOfferJson⟩
  graphql := none
  embedded := ⟨[], []⟩
  openapi := .disabled
  staticFiles := none
  fileSystem _ := noFiles
  staticJoined _ := true
  cors := none
  parseQ _ := none
  compression := none
  compressBody _ := []
  compressJoin _ := .completed
  gzip := .identity

def bareOffer : RequestHead (fun _ : Unit => Unit) :=
  { buf := ascii "POST /rtc/offer HTTP/1.1"
    methodRange := ⟨0, 4⟩
    targetRange := ⟨5, 15⟩
    version := .http11
    headerRanges := []
    extensions := .new }

/-- Any place for `graphql` is as good; the proxy keeps its place before the other one. -/
theorem intercept_order_law_swapped :
    twoRelays.tryIntercept 0 bareOffer [] =
      [Plugin.graphql, .openapi, .staticFiles, .webrtcProxy, .webrtc].findSome?
        (twoRelays.answer 0 bareOffer []) ∧
    twoRelays.tryIntercept 0 bareOffer [] ≠
      [Plugin.graphql, .openapi, .staticFiles, .webrtc, .webrtcProxy].findSome?
        (twoRelays.answer 0 bareOffer []) := by
  refine ⟨?_, by decide⟩
  exact (intercept_order_law twoRelays 0 bareOffer []).1 _ (by decide)
    (by unfold FirstAnswer.Before; decide) (by unfold FirstAnswer.Before; decide)

end Order

end FandheBackend.CorePlugins
