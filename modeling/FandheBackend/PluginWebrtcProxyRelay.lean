import FandheBackend.CoreConnection
import FandheBackend.HttpSentRequest
import FandheBackend.HttpTrim
import FandheBackend.PluginWebrtcProxyLaw

set_option autoImplicit false

namespace FandheBackend.PluginWebrtcProxyRelay
open StdBytes ExceptChecks HttpRequestHead HttpBodyLength HttpBuffer HttpConnection HttpResponse
open Utf8Text PatternSearch PatternSplit HttpRequestGrammar HttpConnectionStream HttpConnectionRuns
open PluginWebrtcProxy (ProxyError readResponseBody responseHeadLimit)
open HttpSentRequest HttpTrim PluginWebrtcProxyHead PluginWebrtcProxyLaw

structure ProxyConfig where
  upstreamAddr : Bytes
  upstreamPath : Bytes
  maxOfferBytes : UInt64
  maxAnswerBytes : UInt64

/-- `ProxyConfig::new`, which leaves the defaults of the other fields. -/
def ProxyConfig.new (upstreamAddr : Bytes) : ProxyConfig where
  upstreamAddr := upstreamAddr
  upstreamPath := ascii "/rtc/offer"
  maxOfferBytes := 64 * 1024
  maxAnswerBytes := 64 * 1024

inductive Connect where
  | connected
  | failed
  | timedOut
  deriving DecidableEq, Repr

/-- The upstream as one exchange finds it. -/
structure Upstream where
  connect : Connect
  -- `request_timeout` passes before the exchange is over.
  late : Bool
  -- Whether a request can be written to the end.
  takes : Bytes → Bool
  -- What the reads of the socket return after a request.
  replies : Bytes → List Read

def requestHead (config : ProxyConfig) (body : Bytes) : Bytes :=
  ascii "POST " ++ config.upstreamPath ++ ascii " HTTP/1.1\r\nHost: " ++ config.upstreamAddr ++
    ascii "\r\nContent-Type: application/sdp\r\nContent-Length: " ++ numeral 10 body.length ++
    ascii "\r\nConnection: close\r\n\r\n"

/-- The bytes of `write_request`. -/
def requestBytes (config : ProxyConfig) (body : Bytes) : Bytes := requestHead config body ++ body

def exchange (config : ProxyConfig) (upstream : Upstream) (offer : Bytes) :
    Except ProxyError Bytes := do
  rejectIf (¬ upstream.takes (requestBytes config offer)) .io
  readResponseBody (upstream.replies (requestBytes config offer)) config.maxAnswerBytes

def forwardOffer (config : ProxyConfig) (upstream : Upstream) (offer : Bytes) :
    Except ProxyError Bytes :=
  match upstream.connect with
  | .timedOut => .error .upstreamTimeout
  | .failed => .error .upstreamConnect
  | .connected =>
    if upstream.late then .error .upstreamTimeout else exchange config upstream offer

structure PluginResponse where
  status : UInt16
  reason : Bytes
  contentType : ContentType
  body : Bytes
  deriving DecidableEq

def PluginResponse.error (status : UInt16) (reason : Bytes) : PluginResponse :=
  ⟨status, reason, ⟨ascii "text/plain; charset=utf-8", by decide⟩, reason⟩

def PluginResponse.sdp (answer : Bytes) : PluginResponse :=
  ⟨200, ascii "OK", ⟨ascii "application/sdp", by decide⟩, answer⟩

def answered : Except ProxyError Bytes → PluginResponse
  | .ok answer => .sdp answer
  | .error .upstreamTimeout => .error 504 (ascii "Gateway Timeout")
  | .error _ => .error 502 (ascii "Bad Gateway")

section
variable {TypeId : Type} {E : TypeId → Type}

def isOffer (head : RequestHead E) : Bool :=
  !(head.method != ascii "POST" || head.target != ascii "/rtc/offer")

def tryHandleRtcOffer (head : RequestHead E) (body : Bytes) (config : ProxyConfig)
    (upstream : Upstream) : Option PluginResponse :=
  if !isOffer head then none
  else match (head.header (ascii "content-length")).bind (parseUnsigned (2 ^ 64)) with
    | none => some (.error 400 (ascii "Bad Request"))
    | some declaredLen =>
      if declaredLen ≠ body.length then some (.error 400 (ascii "Bad Request"))
      else if body.length > config.maxOfferBytes.toNat then
        some (.error 413 (ascii "Payload Too Large"))
      else some (answered (forwardOffer config upstream body))

end

/-- The headers that go out, whatever the headers of the client. -/
def sentHeaders (config : ProxyConfig) (offer : Bytes) : List (Bytes × Bytes) :=
  [(ascii "Host", config.upstreamAddr), (ascii "Content-Type", ascii "application/sdp"),
    (ascii "Content-Length", numeral 10 offer.length), (ascii "Connection", ascii "close")]

structure ProxyConfig.Sendable (config : ProxyConfig) (offer : Bytes) : Prop where
  addr : Visible config.upstreamAddr
  path : Visible config.upstreamPath
  path_ne_nil : config.upstreamPath ≠ []
  fits : (requestHead config offer).length ≤ maxHeaderBytes

section Sent
variable {TypeId : Type} {E : TypeId → Type}

def offerSent (config : ProxyConfig) (offer : Bytes) : Sent :=
  ⟨ascii "POST", config.upstreamPath, .http11, sentHeaders config offer, .length offer⟩

theorem requestHead_eq (config : ProxyConfig) (offer : Bytes) :
    requestHead config offer = (offerSent config offer).head := by
  have hpost : ascii "POST " = ascii "POST" ++ [32] := rfl
  have hhost : ascii " HTTP/1.1\r\nHost: " = 32 :: versionText .http11 ++ crlf ++ ascii "Host" ++
    ascii ": " := rfl
  have hlength : ascii "\r\nContent-Type: application/sdp\r\nContent-Length: " = crlf ++
    ascii "Content-Type" ++ ascii ": " ++ ascii "application/sdp" ++ crlf ++ ascii "Content-Length" ++
    ascii ": " := rfl
  have hlast : ascii "\r\nConnection: close\r\n\r\n" = crlf ++ ascii "Connection" ++ ascii ": " ++
    ascii "close" ++ crlf ++ crlf := rfl
  rw [requestHead, hpost, hhost, hlength, hlast, Sent.head, headText]
  simp only [offerSent, lineText, fieldText, sentHeaders, List.map_cons, List.map_nil,
    List.flatMap_cons, List.flatMap_nil, List.append_assoc, List.cons_append, List.nil_append]

theorem offerSent_sendable {config : ProxyConfig} {offer : Bytes} (h : config.Sendable offer)
    {usizeMax : ℕ} {limit : UInt64} (husize : offer.length ≤ usizeMax)
    (hlimit : offer.length ≤ limit.toNat) :
    (offerSent config offer).Sendable usizeMax limit where
  method := show isToken (ascii "POST") = true by decide
  target := h.path
  target_ne_nil := h.path_ne_nil
  fields := by
    simp only [offerSent, sentHeaders, List.forall_mem_cons, List.not_mem_nil, false_implies,
      implies_true, and_true]
    exact ⟨⟨by decide, h.addr.fieldValue⟩, ⟨by decide, (visible_of_all (by decide)).fieldValue⟩,
      ⟨by decide, (visible_numeral _).fieldValue⟩,
      by decide, (visible_of_all (by decide)).fieldValue⟩
  count := show 4 ≤ maxHeaderCount by decide
  fits := requestHead_eq config offer ▸ h.fits
  framed := ⟨rfl, rfl⟩
  body := ⟨husize, hlimit⟩

/-- Whoever reads with this framework reads one request, the offer as its body. -/
theorem nextRequest_sent {config : ProxyConfig} {offer : Bytes} (h : config.Sendable offer)
    {usizeMax : ℕ} {limit : UInt64} (husize : offer.length ≤ usizeMax)
    (hlimit : offer.length ≤ limit.toNat) :
    ∃ head : RequestHead E, nextRequest usizeMax limit (requestBytes config offer) =
        .ok (some ⟨head, offer⟩, []) ∧ head.method = ascii "POST" ∧
      head.target = config.upstreamPath ∧ head.version = .http11 ∧
      head.headers = sentHeaders config offer := by
  obtain ⟨⟨head, body⟩, hread, hbody, hnext⟩ :=
    Sent.exists_readBy (E := E) (offerSent_sendable h husize hlimit)
  obtain rfl : offer = body := hbody.symm
  have htext : (offerSent config offer).text ++ [] = requestBytes config offer := by
    rw [List.append_nil, requestBytes, requestHead_eq]
    rfl
  have hwhole := hnext []
  rw [htext] at hwhole
  exact ⟨head, hwhole, hread.method, hread.target, hread.version, hread.headers⟩

end Sent

section Answered

theorem strTrim_token {name : Bytes} (h : isToken name = true) : strTrim name = name := by
  rw [isToken, Bool.and_eq_true, List.all_eq_true] at h
  exact strTrim_plain fun b hb => plain_tchar (h.2 b hb)

theorem fields_token (r : Response) : ∀ f ∈ r.fields, isToken f.1 = true := by
  intro f hf
  simp only [Response.fields, List.mem_append] at hf
  rcases hf with (hf | hf) | hf
  · cases hct : r.contentType with
    | none => simp [hct] at hf
    | some contentType =>
      simp only [hct, List.mem_singleton] at hf
      subst hf
      exact show isToken (ascii "Content-Type") = true by decide
  · cases hal : r.allow with
    | none => simp [hal] at hf
    | some allow =>
      simp only [hal, List.mem_singleton] at hf
      subst hf
      exact show isToken (ascii "Allow") = true by decide
  · obtain ⟨e, -, rfl⟩ := List.mem_map.mp hf
    exact e.isToken_name

theorem fixedFields_token (r : Response) (keepAlive : Bool) :
    ∀ f ∈ r.fixedFields keepAlive, isToken f.1 = true := by
  intro f hf
  simp only [Response.fixedFields, List.mem_append, List.mem_singleton] at hf
  rcases hf with (hf | rfl) | hf
  · exact fields_token r f hf
  · exact show isToken (ascii "Content-Length") = true by decide
  · unfold Response.connectionField at hf
    split_ifs at hf
    · obtain rfl := List.mem_singleton.mp hf
      exact show isToken (ascii "Connection") = true by decide
    · cases hf

/-- The head of a serialised response, in the parts that the client looks for. -/
def serializedParts (r : Response) (keepAlive : Bool) : HeadParts where
  version := ascii "1"
  code := numeral 10 r.status.toNat
  reason := 32 :: reasonPhrase r.status
  fields := (r.fixedFields keepAlive).map fun f => (f.1, 32 :: f.2)

theorem headBytes_eq (r : Response) (keepAlive : Bool) :
    Response.headBytes r.status (r.fixedFields keepAlive) =
      headText (serializedParts r keepAlive).lines := by
  have hline : headerLine = fun f => f.1 ++ 58 :: 32 :: f.2 ++ crlf := by
    funext f
    rw [headerLine, List.append_assoc f.1]
    rfl
  have hstatus : statusLine r.status = (serializedParts r keepAlive).statusLine := by
    have hpre : ascii "HTTP/1.1 " = ascii "HTTP/1." ++ ascii "1" ++ [32] := rfl
    have hspace : ascii " " = [32] := rfl
    rw [statusLine, hpre, hspace, HeadParts.statusLine, serializedParts]
    simp only [List.append_assoc, List.cons_append, List.nil_append]
  rw [Response.headBytes, headText, HeadParts.lines, hstatus, hline, List.flatMap_cons]
  simp only [serializedParts, List.flatMap_map, List.map_map, List.append_assoc, Function.comp_def]

theorem trimmed_numeral (n : ℕ) : trimBy isOws (32 :: numeral 10 n) = numeral 10 n := by
  have hdigit : ∀ b ∈ numeral 10 n, isOws b = false := by
    intro b hb
    have hnot : ∀ b : UInt8, isAsciiDigit b = true → isOws b = false := by
      apply forall_byte
      decide +kernel
    exact hnot b (numeral_digits n b hb)
  have hpad : trimBy isOws ([32] ++ numeral 10 n ++ []) = numeral 10 n :=
    trimBy_append isOws (List.forall_mem_singleton.mpr rfl) (List.forall_mem_nil _)
      (numeral_ne_nil 10 n) (fun b hb => hdigit b (List.mem_of_mem_head? hb))
      (fun b hb => hdigit b (List.mem_of_getLast? hb))
  rwa [List.append_nil] at hpad

theorem contentLengths_serialized (r : Response) (keepAlive : Bool) :
    contentLengths (serializedParts r keepAlive).fields = [numeral 10 r.body.length] := by
  have hnamed : contentLengths (serializedParts r keepAlive).fields =
      (namedValues (r.fixedFields keepAlive) (ascii "content-length")).map
        fun v => trimBy isOws (32 :: v) := by
    rw [contentLengths, serializedParts, namedValues, List.filter_map, List.map_map, List.map_map]
    rfl
  have hfields : namedValues r.fields (ascii "content-length") = [] := by
    have hnone : HttpClient.valuesIn r.fields (ascii "content-length") = [] :=
      HttpClient.valuesIn_fields r (by decide)
    rw [HttpClient.valuesIn, List.map_eq_nil_iff] at hnone
    rw [namedValues, hnone]
    rfl
  have hconn : namedValues (Response.connectionField keepAlive) (ascii "content-length") = [] := by
    cases keepAlive <;> rfl
  have hlength : namedValues [(ascii "Content-Length", numeral 10 r.body.length)]
      (ascii "content-length") = [numeral 10 r.body.length] := rfl
  have happend : ∀ xs ys, namedValues (xs ++ ys) (ascii "content-length") =
      namedValues xs (ascii "content-length") ++ namedValues ys (ascii "content-length") := by
    intro xs ys
    simp only [namedValues, List.filter_append, List.map_append]
  rw [hnamed, Response.fixedFields, happend, happend, hfields, hconn, hlength, List.nil_append,
    List.append_nil, List.map_singleton, trimmed_numeral]

theorem plain_serialized (r : Response) (keepAlive : Bool) : (serializedParts r keepAlive).Plain := by
  refine ⟨numeral_digits _, fun f hf hname => ?_⟩
  have hmem := hf
  obtain ⟨g, hg, rfl⟩ := List.mem_map.mp hf
  rw [strTrim_token (fixedFields_token r keepAlive g hg)] at hname
  have hvalue : trimBy isOws (32 :: g.2) ∈ contentLengths (serializedParts r keepAlive).fields :=
    List.mem_map.mpr ⟨_, List.mem_filter.mpr ⟨hmem, hname⟩, rfl⟩
  rw [contentLengths_serialized, List.mem_singleton] at hvalue
  exact ⟨hname, hvalue ▸ numeral_digits _⟩

theorem isText_flatten {pieces : List Bytes} (h : ∀ piece ∈ pieces, IsText piece) :
    IsText pieces.flatten := by
  induction pieces with
  | nil => exact isText_nil
  | cons piece pieces ih =>
    rw [List.forall_mem_cons] at h
    exact h.1.append (ih h.2)

theorem isText_reasonPhrase (status : UInt16) : IsText (reasonPhrase status) := by
  unfold reasonPhrase
  split <;> exact isText_of_all (by decide)

theorem isText_fixedFields {r : Response} (h : ∀ f ∈ r.fields, IsText f.2) (keepAlive : Bool) :
    ∀ f ∈ r.fixedFields keepAlive, IsText f.2 := by
  intro f hf
  simp only [Response.fixedFields, List.mem_append, List.mem_singleton] at hf
  rcases hf with (hf | rfl) | hf
  · exact h f hf
  · exact (visible_numeral _).1
  · unfold Response.connectionField at hf
    split_ifs at hf
    · obtain rfl := List.mem_singleton.mp hf
      exact isText_of_all (show (ascii "close").all (· < 128) = true by decide)
    · cases hf

theorem isText_head {r : Response} (h : ∀ f ∈ r.fields, IsText f.2) (keepAlive : Bool) :
    IsText (Response.headBytes r.status (r.fixedFields keepAlive)) := by
  have hcrlf : IsText crlf := isText_of_all (by decide)
  have hstatus : IsText (statusLine r.status) :=
    ((isText_of_all (by decide)).append (visible_numeral _).1).append
      (isText_of_all (by decide)) |>.append (isText_reasonPhrase r.status)
  have hlines : IsText ((r.fixedFields keepAlive).flatMap headerLine) := by
    apply isText_flatten
    intro piece hpiece
    obtain ⟨f, hf, rfl⟩ := List.mem_map.mp hpiece
    have htoken := fixedFields_token r keepAlive f hf
    rw [isToken, Bool.and_eq_true, List.all_eq_true] at htoken
    exact (((isText_token htoken.2).append (isText_of_all (by decide))).append
      (isText_fixedFields h keepAlive f hf)).append hcrlf
  exact ((hstatus.append hcrlf).append hlines).append hcrlf

theorem announces_serialized {r : Response} (h : ∀ f ∈ r.fields, IsText f.2) (keepAlive : Bool) :
    EndsFirst (Response.headBytes r.status (r.fixedFields keepAlive)) ∧
    Announces clientReading (Response.headBytes r.status (r.fixedFields keepAlive)) r.status.toNat
      r.body.length := by
  have hcr : ∀ line ∈ (serializedParts r keepAlive).lines, cr ∉ line := by
    have hnum : cr ∉ numeral 10 r.status.toNat := (visible_numeral _).no_cr
    refine List.forall_mem_cons.mpr ⟨?_, fun line hline => ?_⟩
    · simp only [HeadParts.statusLine, serializedParts, List.mem_append, List.mem_cons, not_or]
      exact ⟨⟨by decide, by decide⟩, by decide, hnum, by decide,
        HttpClient.cr_not_mem_reasonPhrase r.status⟩
    · simp only [serializedParts, List.map_map] at hline
      obtain ⟨f, hf, rfl⟩ := List.mem_map.mp hline
      have hreadable := HttpClient.fixedFields_readable r keepAlive f hf
      simp only [Function.comp_apply, List.mem_append, List.mem_cons, not_or]
      exact ⟨hreadable.name_no_cr, by decide, by decide, hreadable.value_no_cr⟩
  have htext := isText_head h keepAlive
  rw [headBytes_eq] at htext ⊢
  have hnames : ∀ f ∈ (serializedParts r keepAlive).fields, (58 : UInt8) ∉ f.1 := by
    intro f hf
    obtain ⟨g, hg, rfl⟩ := List.mem_map.mp hf
    exact (HttpClient.fixedFields_readable r keepAlive g hg).name_no_colon
  have hcode : (32 : UInt8) ∉ numeral 10 r.status.toNat :=
    fun hmem => absurd ((visible_numeral r.status.toNat).2 32 hmem).1 (by decide)
  refine ⟨endsFirst_headText hcr, htext, serializedParts r keepAlive, rfl, ?_⟩
  exact (plain_serialized r keepAlive).announces_iff.mpr
    ⟨⟨show (32 : UInt8) ∉ ascii "1" by decide, hcode, .inr rfl, hnames, not_crlf_of_cr hcr⟩,
      denotes_numeral _, _, contentLengths_serialized r keepAlive, denotes_numeral _⟩

/-- What a server of this framework serialised, however it arrives. -/
theorem readResponseBody_serialize {r : Response} (h : ∀ f ∈ r.fields, IsText f.2)
    {keepAlive : Bool}
    (hfits : (Response.headBytes r.status (r.fixedFields keepAlive)).length ≤ responseHeadLimit)
    (hbody : r.body.length < 2 ^ 64) {reads : List Read} (hcut : Cut (r.serialize keepAlive) reads)
    (maxAnswerBytes : UInt64) :
    readResponseBody reads maxAnswerBytes =
      if ¬(200 ≤ r.status.toNat ∧ r.status.toNat < 300) then .error .upstreamStatus
      else if r.body.length > maxAnswerBytes.toNat then .error .answerTooLarge
      else .ok r.body := by
  obtain ⟨hends, hannounces⟩ := announces_serialized h keepAlive
  have hparse := (parseResponseHead_eq_ok_iff hends).mpr
    ⟨hannounces, r.status.toNat_lt, hbody⟩
  obtain heq | ⟨hlong, -⟩ := @readResponseBody_cases _ _ _ maxAnswerBytes hends hcut
  · rw [heq, answer_of_head hparse, if_neg (lt_irrefl r.body.length), List.take_length]
  · exact absurd hfits (Nat.not_le.mpr hlong)

end Answered

section Arrivals
variable {TypeId : Type} {E : TypeId → Type}

/-- A request that the reader of the framework has read, off whatever socket. -/
def Arrived (request : Request E) : Prop :=
  ∃ alloc usizeMax maxBodyBytes reads conn o,
    readRequestWithLimit alloc usizeMax maxBodyBytes reads conn = some o ∧
      o.result = .ok (some request)

theorem Arrived.length {request : Request E} (h : Arrived request) :
    namedValues request.head.headers (ascii "content-length") = [] ∨
      ∃ v, namedValues request.head.headers (ascii "content-length") = [v] ∧
        Denotes v request.body.length ∧ request.body.length < 2 ^ 64 := by
  obtain ⟨alloc, usizeMax, limit, reads, conn, o, hread, hresult⟩ := h
  obtain ⟨o', ho', hfaith⟩ := readRequestWithLimit_faithful (E := E) alloc usizeMax limit reads conn
  obtain rfl := Option.some.inj (hread.symm.trans ho')
  have hspec := hfaith.result (.inr ⟨_, hresult, rfl⟩)
  rw [hresult] at hspec
  obtain ⟨consumed, -, hbody⟩ := nextRequest_eq_some hspec
  obtain ⟨wire, -, hbytes⟩ := framedSpec_eq_ok hbody
  unfold BodyBytes at hbytes
  cases hlength : bodyLengthWithLimit request.head limit with
  | error e => simp [hlength] at hbytes
  | ok length =>
    rw [hlength] at hbytes
    by_cases hchunked : length = .chunked
    · rw [hchunked] at hlength
      refine .inl ?_
      cases hte : namedValues request.head.headers (ascii "transfer-encoding") with
      | nil =>
        rw [bodyLength_of_no_transferEncoding limit hte] at hlength
        split at hlength <;> grind
      | cons first others =>
        rw [bodyLength_of_transferEncoding limit hte] at hlength
        split_ifs at hlength with _ hnone
        exact not_not.mp hnone
    · have hte := no_transferEncoding_of_ne_chunked hlength hchunked
      rw [bodyLength_of_no_transferEncoding limit hte] at hlength
      cases hloop : contentLengthLoop request.head.headers none with
      | error e => simp [hloop] at hlength
      | ok found =>
        obtain ⟨hnone, -⟩ | ⟨v, n, hvalue, hparse, hfound⟩ := (contentLengthLoop_none _ _).mp hloop
        · exact .inl hnone
        · obtain ⟨hdenotes, hlt⟩ := (parseContentLength_eq_ok_iff v n).mp hparse
          have hn : n = request.body.length := by
            subst hfound
            rw [hloop] at hlength
            cases n with
            | zero =>
              obtain rfl := Except.ok.inj hlength
              rw [hbytes.2]
              rfl
            | succ n =>
              simp only at hlength
              split_ifs at hlength
              obtain rfl := Except.ok.inj hlength
              exact hbytes.2.symm
          subst hn
          exact .inr ⟨v, hvalue, hdenotes, hlt⟩

end Arrivals

section Law
variable {TypeId : Type} {E : TypeId → Type} {ServedId : Type} {F : ServedId → Type}

/-- The upstream is a server of this framework: it reads the request and serialises what its
handler answers. -/
structure Serves (handler : Request F → Response) (usizeMax : ℕ) (limit : UInt64)
    (upstream : Upstream) : Prop where
  connect : upstream.connect = .connected
  in_time : upstream.late = false
  takes : ∀ bytes, upstream.takes bytes = true
  replies : ∀ bytes request, nextRequest usizeMax limit bytes = .ok (some request, []) →
    ∃ keepAlive, Cut ((handler request).serialize keepAlive) (upstream.replies bytes)

/-- A response of text, with a head within the limit of the client. -/
structure Relayable (r : Response) : Prop where
  text : ∀ f ∈ r.fields, IsText f.2
  fits : ∀ keepAlive,
    (Response.headBytes r.status (r.fixedFields keepAlive)).length ≤ responseHeadLimit
  body : r.body.length < 2 ^ 64

/-- An answer that reaches the client of the relay as it is. -/
def Passes (config : ProxyConfig) (r : Response) : Prop :=
  200 ≤ r.status.toNat ∧ r.status.toNat < 300 ∧ r.body.length ≤ config.maxAnswerBytes.toNat

instance (config : ProxyConfig) : DecidablePred (Passes config) :=
  fun r => inferInstanceAs (Decidable (200 ≤ r.status.toNat ∧ r.status.toNat < 300 ∧
    r.body.length ≤ config.maxAnswerBytes.toNat))

variable (config : ProxyConfig) (upstream : Upstream)

theorem tryHandleRtcOffer_bare {head : RequestHead E} (hoffer : isOffer head = true)
    (h : namedValues head.headers (ascii "content-length") = []) (body : Bytes) :
    tryHandleRtcOffer head body config upstream = some (.error 400 (ascii "Bad Request")) := by
  rw [tryHandleRtcOffer, hoffer, header_eq_head?, h]
  rfl

theorem tryHandleRtcOffer_sized {head : RequestHead E} (hoffer : isOffer head = true) {v : Bytes}
    (h : namedValues head.headers (ascii "content-length") = [v]) {body : Bytes}
    (hv : Denotes v body.length) (hlt : body.length < 2 ^ 64) :
    tryHandleRtcOffer head body config upstream =
      if body.length > config.maxOfferBytes.toNat then
        some (.error 413 (ascii "Payload Too Large"))
      else some (answered (forwardOffer config upstream body)) := by
  have hparse : parseUnsigned (2 ^ 64) v = some body.length :=
    parseUnsigned_eq_some_iff.mpr ⟨.inl hv, hlt⟩
  rw [tryHandleRtcOffer, hoffer, header_eq_head?, h, List.head?_cons, Option.bind_some, hparse]
  simp

/-- What the upstream answers is what the relay returns, or a bad gateway. -/
theorem forwardOffer_serves {handler : Request F → Response} {usizeMax : ℕ} {limit : UInt64}
    (h : Serves handler usizeMax limit upstream) {offer : Bytes} {request : Request F}
    (hnext : nextRequest usizeMax limit (requestBytes config offer) = .ok (some request, []))
    (hrelay : Relayable (handler request)) :
    answered (forwardOffer config upstream offer) =
      if Passes config (handler request) then .sdp (handler request).body
      else .error 502 (ascii "Bad Gateway") := by
  obtain ⟨keepAlive, hcut⟩ := h.replies _ request hnext
  have hread := readResponseBody_serialize hrelay.text (hrelay.fits keepAlive) hrelay.body hcut
    config.maxAnswerBytes
  have hexchange : forwardOffer config upstream offer =
      readResponseBody (upstream.replies (requestBytes config offer)) config.maxAnswerBytes := by
    have hwritten : ¬ ¬ upstream.takes (requestBytes config offer) = true :=
      not_not.mpr (h.takes _)
    simp only [forwardOffer, h.connect, h.in_time, exchange, rejectIf_bind, if_neg hwritten,
      Bool.false_eq_true, if_false]
  rw [hexchange, hread]
  by_cases hstatus : 200 ≤ (handler request).status.toNat ∧ (handler request).status.toNat < 300
  · rw [if_neg (not_not.mpr hstatus)]
    by_cases hmax : (handler request).body.length > config.maxAnswerBytes.toNat
    · rw [if_pos hmax, if_neg fun hpasses => absurd hpasses.2.2 (Nat.not_le.mpr hmax)]
      rfl
    · rw [if_neg hmax, if_pos ⟨hstatus.1, hstatus.2, Nat.not_lt.mp hmax⟩]
      rfl
  · rw [if_pos hstatus, if_neg fun hpasses => hstatus ⟨hpasses.1, hpasses.2.1⟩]
    rfl

def refusals : List PluginResponse :=
  [.error 400 (ascii "Bad Request"), .error 413 (ascii "Payload Too Large"),
    .error 502 (ascii "Bad Gateway"), .error 504 (ascii "Gateway Timeout")]

theorem answered_cases (result : Except ProxyError Bytes) :
    (∃ answer, result = .ok answer ∧ answered result = .sdp answer) ∨
      answered result ∈ refusals := by
  cases result with
  | ok answer => exact .inl ⟨answer, rfl, rfl⟩
  | error e => exact .inr (by cases e <;> decide)

/-- The law of the relay, for every request that the framework has read. -/
theorem relay_law {request : Request E} (harrived : Arrived request)
    (hoffer : isOffer request.head = true) :
    (namedValues request.head.headers (ascii "content-length") = [] →
      tryHandleRtcOffer request.head request.body config upstream =
        some (.error 400 (ascii "Bad Request"))) ∧
    (namedValues request.head.headers (ascii "content-length") ≠ [] →
      config.maxOfferBytes.toNat < request.body.length →
      tryHandleRtcOffer request.head request.body config upstream =
        some (.error 413 (ascii "Payload Too Large"))) ∧
    (namedValues request.head.headers (ascii "content-length") ≠ [] →
      request.body.length ≤ config.maxOfferBytes.toNat →
      ∀ (handler : Request F → Response) usizeMax limit, Serves handler usizeMax limit upstream →
      config.Sendable request.body → request.body.length ≤ usizeMax →
      request.body.length ≤ limit.toNat →
      ∃ head : RequestHead F,
        nextRequest usizeMax limit (requestBytes config request.body) =
          .ok (some ⟨head, request.body⟩, []) ∧
        head.method = ascii "POST" ∧ head.target = config.upstreamPath ∧ head.version = .http11 ∧
        head.headers = sentHeaders config request.body ∧
        (Relayable (handler ⟨head, request.body⟩) →
          tryHandleRtcOffer request.head request.body config upstream =
            some (if Passes config (handler ⟨head, request.body⟩) then
              .sdp (handler ⟨head, request.body⟩).body
            else .error 502 (ascii "Bad Gateway")))) ∧
    ∀ r, tryHandleRtcOffer request.head request.body config upstream = some r →
      (∃ answer, forwardOffer config upstream request.body = .ok answer ∧ r = .sdp answer) ∨
        r ∈ refusals := by
  obtain hbare | ⟨v, hvalue, hdenotes, hlt⟩ := harrived.length
  · have heq := tryHandleRtcOffer_bare config upstream hoffer hbare request.body
    refine ⟨fun _ => heq, fun hne => absurd hbare hne, fun hne => absurd hbare hne, ?_⟩
    intro r hr
    obtain rfl := Option.some.inj (heq.symm.trans hr)
    exact .inr List.mem_cons_self
  · have heq := tryHandleRtcOffer_sized config upstream hoffer hvalue hdenotes hlt
    rw [hvalue, heq]
    refine ⟨nofun, fun _ hbig => if_pos hbig, ?_, ?_⟩
    · intro _ hsmall handler usizeMax limit hserves hsend husize hlimit
      obtain ⟨head, hnext, hparts⟩ := nextRequest_sent (E := F) hsend husize hlimit
      refine ⟨head, hnext, hparts.1, hparts.2.1, hparts.2.2.1, hparts.2.2.2, fun hrelay => ?_⟩
      rw [if_neg (Nat.not_lt.mpr hsmall), forwardOffer_serves config upstream hserves hnext hrelay]
    · intro r hr
      split_ifs at hr
      · obtain rfl := Option.some.inj hr
        exact .inr (by decide)
      · obtain rfl := Option.some.inj hr
        exact answered_cases _

end Law

namespace RelaySample

def offerRequest : Request (fun _ : Unit => Unit) where
  head :=
    { buf := ascii "POST /rtc/offer HTTP/1.1\r\nContent-Length: 3"
      methodRange := ⟨0, 4⟩
      targetRange := ⟨5, 15⟩
      version := .http11
      headerRanges := [(⟨26, 40⟩, ⟨42, 43⟩)]
      extensions := .new }
  body := ascii "v=0"

theorem offerRequest_arrived : Arrived offerRequest :=
  ⟨CoreConnection.Env.calm.alloc, 2 ^ 64 - 1, 3,
    [.data (ascii "POST /rtc/offer HTTP/1.1\r\nContent-Length: 3\r\n\r\nv=0")], .new, _, rfl, rfl⟩

def handler (request : Request (fun _ : Unit => Unit)) : Response := .new 200 request.body

def upstream : Upstream where
  connect := .connected
  late := false
  takes _ := true
  replies bytes :=
    match nextRequest (E := fun _ : Unit => Unit) (2 ^ 64 - 1) 3 bytes with
    | .ok (some request, []) => byteReads ((handler request).serialize false)
    | _ => []

theorem upstream_serves : Serves handler (2 ^ 64 - 1) 3 upstream where
  connect := rfl
  in_time := rfl
  takes _ := rfl
  replies bytes request h := by
    refine ⟨false, ?_⟩
    have hreplies : upstream.replies bytes = byteReads ((handler request).serialize false) := by
      simp only [upstream, h]
    rw [hreplies]
    exact cut_byteReads _

def config : ProxyConfig := .new (ascii "127.0.0.1:9000")

theorem config_sendable : config.Sendable (ascii "v=0") :=
  ⟨visible_of_all (by decide), visible_of_all (by decide), by decide, by decide +kernel⟩

theorem handler_relayable (head : RequestHead (fun _ : Unit => Unit)) :
    Relayable (handler ⟨head, ascii "v=0"⟩) :=
  ⟨fun _ hf => (List.not_mem_nil hf).elim,
    show ∀ keepAlive, _ by
      intro keepAlive
      cases keepAlive
      · exact show (Response.headBytes 200 ((Response.new 200 (ascii "v=0")).fixedFields
          false)).length ≤ 8192 by decide +kernel
      · exact show (Response.headBytes 200 ((Response.new 200 (ascii "v=0")).fixedFields
          true)).length ≤ 8192 by decide +kernel,
    show 3 < 2 ^ 64 by decide⟩

end RelaySample

theorem relay_law_echo :
    tryHandleRtcOffer RelaySample.offerRequest.head (ascii "v=0") RelaySample.config
      RelaySample.upstream = some (.sdp (ascii "v=0")) := by
  obtain ⟨-, -, hrelayed, -⟩ := relay_law (F := fun _ : Unit => Unit) RelaySample.config
    RelaySample.upstream RelaySample.offerRequest_arrived (by decide)
  obtain ⟨head, -, -, -, -, -, hpassed⟩ := hrelayed (by decide) (by decide) RelaySample.handler
    (2 ^ 64 - 1) 3 RelaySample.upstream_serves RelaySample.config_sendable (by decide) (by decide)
  have hpasses : Passes RelaySample.config
      (RelaySample.handler ⟨head, RelaySample.offerRequest.body⟩) :=
    show 200 ≤ 200 ∧ 200 < 300 ∧ 3 ≤ 64 * 1024 by decide
  rw [if_pos hpasses] at hpassed
  exact hpassed (RelaySample.handler_relayable head)

end FandheBackend.PluginWebrtcProxyRelay
