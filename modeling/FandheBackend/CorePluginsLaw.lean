import FandheBackend.CorePlugins
import FandheBackend.PluginCompressionLaw
import FandheBackend.PluginCorsLaw

set_option autoImplicit false

namespace FandheBackend.CorePlugins
open StdBytes HttpRequestHead HttpResponse HttpClient HttpChunked HttpChunkedRoundTrip
open HttpResponseUnions PluginHeaders CoreConnection CoreConnectionPlan CoreConnectionMiddleware
open CoreConnectionObservations HttpConnection CoreGates CoreConnectionGates
open PluginCompression (WholeConfig CompressionConfig Join contentEncodingLines varied encoded
  gzipHeader textBody textBodyGzip textResponse)

def encodingName : Bytes := ascii "content-encoding"

def pluginNames : List Bytes := PluginCors.actualNames ++ [ascii "Vary", ascii "Content-Encoding"]

/-- A header that neither the plugins nor the serialiser write. -/
def IsForeign (name : Bytes) : Prop :=
  (∀ n ∈ pluginNames, eqIgnoreAsciiCase n name = false) ∧ isReserved name = false

section Additions

/-- Headers of the plugins were added to a response, whose body may have been replaced. -/
def Extends (r result : Response) : Prop :=
  ∃ hs, result = { Response.appended r hs with body := result.body } ∧
    ∀ h ∈ hs, h.name ∈ pluginNames

theorem extends_appended {r : Response} {hs : List ExtraHeader} {allowed : List Bytes}
    (hnames : (hs.map ExtraHeader.name).Sublist allowed) (hsub : allowed ⊆ pluginNames) :
    Extends r (Response.appended r hs) :=
  ⟨hs, rfl, fun _ hh => hsub (hnames.subset (List.mem_map_of_mem hh))⟩

theorem Extends.trans {r r' r'' : Response} (h : Extends r r') (h' : Extends r' r'') :
    Extends r r'' := by
  obtain ⟨hs, heq, hnames⟩ := h
  obtain ⟨hs', heq', hnames'⟩ := h'
  refine ⟨hs ++ hs', ?_, fun e he => (List.mem_append.mp he).elim (hnames e) (hnames' e)⟩
  rw [heq', heq, ← appended_appended]
  rfl

theorem Extends.refl (r : Response) : Extends r r := ⟨[], by rw [appended_nil], nofun⟩

theorem plugin_name_plain {name : Bytes} (h : name ∈ pluginNames) :
    eqIgnoreAsciiCase name (ascii "content-type") = false ∧
      eqIgnoreAsciiCase name (ascii "allow") = false := by
  have hall : ∀ n ∈ pluginNames, eqIgnoreAsciiCase n (ascii "content-type") = false ∧
      eqIgnoreAsciiCase n (ascii "allow") = false := by decide
  exact hall name h

theorem fields_extended {r result : Response} {hs : List ExtraHeader}
    (heq : result = { Response.appended r hs with body := result.body })
    (hnames : ∀ h ∈ hs, h.name ∈ pluginNames) :
    result.fields = r.fields ++ hs.map fun h => (h.name, h.value) := by
  have hkeep : (hs.filter fun h =>
      !(r.contentType.isSome && eqIgnoreAsciiCase h.name (ascii "content-type")) &&
        !(r.allow.isSome && eqIgnoreAsciiCase h.name (ascii "allow"))) = hs := by
    refine List.filter_eq_self.mpr fun h hh => ?_
    rw [(plugin_name_plain (hnames h hh)).1, (plugin_name_plain (hnames h hh)).2, Bool.and_false,
      Bool.and_false]
    rfl
  rw [heq]
  simp only [Response.fields, Response.appended, List.filter_append, List.map_append, hkeep,
    List.append_assoc]

theorem valuesIn_pairs (hs : List ExtraHeader) (name : Bytes) :
    valuesIn (hs.map fun h => (h.name, h.value)) name =
      (valuesOf name hs).map (Utf8Text.trimBy isOws) := by
  rw [valuesIn, valuesOf, List.filter_map, List.map_map, List.map_map]
  rfl

theorem Extends.foreign {r result : Response} (h : Extends r result) {name : Bytes}
    (hname : IsForeign name) : valuesIn result.fields name = valuesIn r.fields name := by
  obtain ⟨hs, heq, hnames⟩ := h
  have hnone : valuesOf name hs = [] := by
    rw [valuesOf, List.map_eq_nil_iff, List.filter_eq_nil_iff]
    intro e he
    rw [hname.1 _ (hnames e he)]
    exact Bool.false_ne_true
  rw [fields_extended heq hnames, valuesIn_append, valuesIn_pairs, hnone, List.map_nil,
    List.append_nil]

theorem valuesIn_encoding (r : Response) :
    valuesIn r.fields encodingName = (contentEncodingLines r).map (Utf8Text.trimBy isOws) := by
  have hother : ∀ h : ExtraHeader, eqIgnoreAsciiCase h.name encodingName = true →
      eqIgnoreAsciiCase h.name (ascii "content-type") = false ∧
        eqIgnoreAsciiCase h.name (ascii "allow") = false := by
    intro h hname
    rw [eqIgnoreAsciiCase, beq_iff_eq] at hname
    rw [eqIgnoreAsciiCase, eqIgnoreAsciiCase, hname]
    decide
  have hextra : valuesIn ((r.extraHeaders.filter fun h =>
        !(r.contentType.isSome && eqIgnoreAsciiCase h.name (ascii "content-type")) &&
          !(r.allow.isSome && eqIgnoreAsciiCase h.name (ascii "allow"))).map
        fun h => (h.name, h.value)) encodingName =
      (contentEncodingLines r).map (Utf8Text.trimBy isOws) := by
    rw [valuesIn_pairs, valuesOf, List.filter_filter]
    congr 2
    refine List.filter_congr fun h _ => ?_
    cases hname : eqIgnoreAsciiCase h.name encodingName with
    | false => exact hname.symm
    | true =>
      rw [(hother h hname).1, (hother h hname).2, Bool.and_false, Bool.and_false]
      exact hname.symm
  rw [Response.fields, valuesIn_append, valuesIn_append, hextra]
  have htype : ∀ contentType : ContentType,
      valuesIn [(ascii "Content-Type", contentType.text)] encodingName = [] :=
    fun _ => valuesIn_of_ne _ (by decide)
  have hallow : ∀ allow : AllowedMethods,
      valuesIn [(ascii "Allow", allow.toHeaderValue)] encodingName = [] :=
    fun _ => valuesIn_of_ne _ (by decide)
  cases r.contentType with
  | none =>
    cases r.allow with
    | none => rfl
    | some allow =>
      simp only [hallow]
      rfl
  | some contentType =>
    cases r.allow with
    | none =>
      simp only [htype]
      rfl
    | some allow =>
      simp only [htype, hallow]
      rfl

end Additions

section Bodies
variable {TypeId : Type} {E : TypeId → Type} (p : Plugins) {gunzip : Bytes → Option Bytes}

/-- What is sent under `result` is `body` of `r`, or what gzip makes of it. -/
structure Carries (gunzip : Bytes → Option Bytes) (r : Response) (body : Bytes) (result : Response)
    (sent : Bytes) : Prop where
  added : Extends r result
  content : contentEncodingLines result = contentEncodingLines r ∧ sent = body ∨
    contentEncodingLines r = [] ∧ contentEncodingLines result = [ascii "gzip"] ∧
      gunzip sent = some body

theorem Extends.status {r result : Response} (h : Extends r result) : result.status = r.status := by
  obtain ⟨hs, heq, -⟩ := h
  rw [heq]
  rfl

theorem carries_varied {r : Response} {body : Bytes} : Carries gunzip r body (varied r) body where
  added := extends_appended (names_varyOffered r _) (by decide)
  content := .inl ⟨PluginCompression.contentEncodingLines_varied r, rfl⟩

theorem extends_gzip (r : Response) (body : Bytes) :
    Extends r { Response.appended (varied r) [gzipHeader] with body := body } := by
  have hvaried : Extends r (varied r) := extends_appended (names_varyOffered r _) (by decide)
  exact hvaried.trans ⟨[gzipHeader], rfl, fun h hh => by
    rw [List.mem_singleton.mp hh]
    decide⟩

theorem contentEncodingLines_gzip {r : Response} (h : contentEncodingLines r = []) (body : Bytes) :
    contentEncodingLines { Response.appended (varied r) [gzipHeader] with body := body } =
      [ascii "gzip"] := by
  have hlines : contentEncodingLines { Response.appended (varied r) [gzipHeader] with body := body } =
      contentEncodingLines (varied r) ++ [ascii "gzip"] :=
    linesOf_eq_append (ascii "content-encoding") (varied r) [gzipHeader]
  rw [hlines, PluginCompression.contentEncodingLines_varied, h]
  rfl

theorem Carries.after {r r' result : Response} {body sent : Bytes} (hr : Extends r r')
    (hlines : contentEncodingLines r' = contentEncodingLines r)
    (h : Carries gunzip r' body result sent) : Carries gunzip r body result sent where
  added := hr.trans h.added
  content := by
    rw [← hlines]
    exact h.content

theorem applyCors_extends (cors : Option PluginCors.CorsConfig) (head : RequestHead E)
    (r : Response) :
    Extends r (PluginCors.applyCors cors head r) ∧
      contentEncodingLines (PluginCors.applyCors cors head r) = contentEncodingLines r ∧
      (PluginCors.applyCors cors head r).body = r.body := by
  cases cors with
  | none => exact ⟨.refl r, rfl, rfl⟩
  | some config =>
    obtain ⟨hs, heq, hnames⟩ := PluginCors.applyCors_added config head r
    have hactual : ∀ n ∈ PluginCors.actualNames, n ∈ pluginNames ∧
        eqIgnoreAsciiCase n (ascii "content-encoding") = false := by decide
    have hnone : valuesOf (ascii "content-encoding") hs = [] := by
      rw [valuesOf, List.map_eq_nil_iff, List.filter_eq_nil_iff]
      intro h hh
      rw [(hactual _ (hnames.subset (List.mem_map_of_mem hh))).2]
      exact Bool.false_ne_true
    rw [heq]
    refine ⟨extends_appended hnames fun n hn => (hactual n hn).1, ?_, rfl⟩
    rw [contentEncodingLines, linesOf_eq_append, hnone, List.append_nil]
    rfl

/-- What `finalize_response` does after CORS, wherever the body is compressed. -/
theorem finalizeResponse_cases (parseQ : Bytes → Option Bool) (compressBody : Bytes → Bytes)
    (config : WholeConfig) (join : Join) (head : RequestHead E) (r : Response) :
    let result := PluginCompression.finalizeResponse parseQ compressBody none (some config) join
      head r
    result = r ∨ result = varied r ∨
      contentEncodingLines r = [] ∧ compressBody r.body ≠ [] ∧
        (compressBody r.body).length < r.body.length ∧ result = encoded r (compressBody r.body) := by
  intro result
  by_cases hjoin : join = .completed ∨ r.body.length < config.blockingThreshold
  · have heq : result = PluginCompression.applyCompression parseQ compressBody head config r :=
      PluginCompression.finalizeResponse_eq parseQ compressBody head config r hjoin
    rw [heq]
    obtain h | ⟨-, h | h⟩ :=
      PluginCompression.applyCompression_cases parseQ compressBody head config r
    · exact .inl h
    · exact .inr (.inl h)
    · exact .inr (.inr h)
  · rw [not_or, Nat.not_lt] at hjoin
    have hfailed : join = .failed := by
      cases join with
      | completed => exact absurd rfl hjoin.1
      | failed => rfl
    cases hplan : PluginCompression.planCompression parseQ head config r with
    | skip skipped =>
      have hskip : result = skipped := by
        simp only [result, PluginCompression.finalizeResponse, PluginCors.applyCors, hplan]
      rw [PluginCompression.planCompression_eq] at hplan
      split_ifs at hplan
      · cases hplan
        exact .inr (.inl hskip)
      · cases hplan
        exact .inl hskip
    | compress planned =>
      have hplanned : result = planned := by
        simp only [result, hfailed]
        exact PluginCompression.finalizeResponse_failed parseQ compressBody hplan hjoin.2
      rw [PluginCompression.planCompression_eq] at hplan
      split_ifs at hplan
      cases hplan
      exact .inr (.inl hplanned)

structure Gunzips (gunzip : Bytes → Option Bytes) : Prop where
  whole : ∀ data, p.compressBody data ≠ [] → gunzip (p.compressBody data) = some data
  stream : ∀ ds pieces residual, encodedPieces p.gzip [] ds = some pieces →
    p.gzip.finish ds = some residual → gunzip (pieces.flatten ++ residual) = some ds.flatten

variable {p}

theorem finalizeResponse_carries (h : Gunzips p gunzip) (server : Server E) (n : ℕ)
    (head : RequestHead E) (r : Response) :
    let result := (p.register server).finalizeResponse n head r
    Carries gunzip r r.body result result.body ∧ (r.body = [] → result.body = []) := by
  intro result
  obtain ⟨hadded, hlines, hbody⟩ := applyCors_extends p.cors head r
  have hresult : result = PluginCompression.finalizeResponse p.parseQ p.compressBody none
      p.compression (p.compressJoin n) head (PluginCors.applyCors p.cors head r) := rfl
  generalize PluginCors.applyCors p.cors head r = r' at *
  rw [← hbody]
  cases hconfig : p.compression with
  | none =>
    rw [hconfig] at hresult
    have heq : result = r' := hresult
    rw [heq]
    exact ⟨⟨hadded, .inl ⟨hlines, rfl⟩⟩, id⟩
  | some config =>
    rw [hconfig] at hresult
    rw [hresult]
    obtain heq | heq | ⟨hnone, hne, hlength, heq⟩ := finalizeResponse_cases p.parseQ p.compressBody
      config (p.compressJoin n) head r'
    · rw [heq]
      exact ⟨⟨hadded, .inl ⟨hlines, rfl⟩⟩, id⟩
    · rw [heq]
      exact ⟨carries_varied.after hadded hlines, id⟩
    · rw [heq]
      refine ⟨.after hadded hlines ⟨extends_gzip r' _,
        .inr ⟨hnone, contentEncodingLines_gzip hnone _, h.whole r'.body hne⟩⟩, fun hempty => ?_⟩
      rw [hempty] at hlength
      exact absurd hlength (Nat.not_lt_zero _)

theorem encodedPieces_identity (given ds : List Bytes) :
    encodedPieces .identity given ds = some ds := by
  induction ds generalizing given with
  | nil => rfl
  | cons data ds ih =>
    rw [encodedPieces]
    change (encodedPieces .identity (given ++ [data]) ds).map (data :: ·) = _
    rw [ih]
    rfl

theorem prepareStreaming_cases (p : Plugins) (server : Server E) (n : ℕ) (head : RequestHead E)
    (r : Response) :
    let prepared := (p.register server).prepareStreamingCompression n head r
    prepared = (r, .identity) ∨ prepared = (varied r, .identity) ∨
      Response.isBodylessStatus r.status = false ∧ contentEncodingLines r = [] ∧
        prepared = (Response.appended (varied r) [gzipHeader], p.gzip) := by
  intro prepared
  have hprepared : prepared = PluginCompression.prepareStreamingCompression p.parseQ p.gzip
      (p.compression.map WholeConfig.toCompressionConfig) head r := rfl
  rw [hprepared]
  cases p.compression with
  | none => exact .inl rfl
  | some config =>
    -- a head that is left alone keeps its chunks as they are
    have hskip : PluginCompression.beginStreamingCompression p.parseQ head
        config.toCompressionConfig r = (r, false) →
        PluginCompression.prepareStreamingCompression p.parseQ p.gzip
          ((some config).map WholeConfig.toCompressionConfig) head r = (r, .identity) := by
      intro hbegun
      simp only [Option.map_some, PluginCompression.prepareStreamingCompression, hbegun]
      rfl
    cases hstreaming : config.compressStreaming with
    | false =>
      refine .inl (hskip ?_)
      rw [PluginCompression.beginStreamingCompression, hstreaming]
      rfl
    | true =>
      cases hbodyless : Response.isBodylessStatus r.status with
      | true =>
        refine .inl (hskip ?_)
        rw [PluginCompression.beginStreamingCompression, hstreaming, hbodyless, Bool.or_true]
        rfl
      | false =>
        have hbegun := PluginCompression.beginStreamingCompression_eq p.parseQ head hstreaming r
        rw [PluginCompression.tryAddHeader_gzip] at hbegun
        by_cases hcompressible :
            PluginCompression.compressible config.toCompressionConfig r = true
        · rw [if_pos hcompressible] at hbegun
          by_cases hencodable : PluginCompression.encodable p.parseQ head r = true
          · rw [if_pos hencodable] at hbegun
            rw [PluginCompression.encodable, Bool.and_eq_true, List.isEmpty_iff] at hencodable
            refine .inr (.inr ⟨rfl, hencodable.1, ?_⟩)
            simp only [Option.map_some, PluginCompression.prepareStreamingCompression, hbegun]
            rfl
          · rw [if_neg hencodable] at hbegun
            refine .inr (.inl ?_)
            simp only [Option.map_some, PluginCompression.prepareStreamingCompression, hbegun]
            rfl
        · rw [if_neg hcompressible] at hbegun
          exact .inl (hskip hbegun)

/-- What the encoder that was chosen makes of a stream stands under the head that was chosen. -/
theorem prepareStreaming_carries (h : Gunzips p gunzip) (server : Server E) (n : ℕ)
    (head : RequestHead E) (r : Response) {ds pieces : List Bytes} {residual : Bytes}
    (hpieces : encodedPieces ((p.register server).prepareStreamingCompression n head r).2 [] ds =
      some pieces)
    (hresidual : ((p.register server).prepareStreamingCompression n head r).2.finish ds =
      some residual) :
    Carries gunzip r ds.flatten ((p.register server).prepareStreamingCompression n head r).1
      (pieces.flatten ++ residual) := by
  have hplain : encodedPieces .identity [] ds = some pieces →
      StreamingBodyEncoder.identity.finish ds = some residual →
      pieces.flatten ++ residual = ds.flatten := by
    intro hp hr
    rw [encodedPieces_identity] at hp
    obtain rfl := Option.some.inj hp
    obtain rfl := Option.some.inj (show some [] = some residual from hr)
    exact List.append_nil _
  obtain heq | heq | ⟨-, hnone, heq⟩ := prepareStreaming_cases p server n head r
  · rw [heq] at hpieces hresidual ⊢
    exact ⟨.refl r, .inl ⟨rfl, hplain hpieces hresidual⟩⟩
  · rw [heq] at hpieces hresidual ⊢
    rw [hplain hpieces hresidual]
    exact carries_varied
  · rw [heq] at hpieces hresidual ⊢
    exact ⟨extends_gzip r _, .inr ⟨hnone, contentEncodingLines_gzip hnone _,
      h.stream ds pieces residual hpieces hresidual⟩⟩

end Bodies

section Reading

/-- A client at the other end of a connection that is closed after the answer: without a framing
the body lasts until the end, and with one nothing is left behind it. -/
def readAnswer (method wire : Bytes) : Option ClientResponse :=
  match takeHead wire with
  | none => none
  | some (head, rest) =>
    if hasNoBody method head.status = false ∧ head.values (ascii "transfer-encoding") = [] ∧
        head.values (ascii "content-length") = [] then some ⟨head, rest⟩
    else match takeResponse method wire with
      | some (response, []) => some response
      | _ => none

theorem readAnswer_of_takeResponse {method wire : Bytes} {head : ClientHead}
    {response : ClientResponse} {rest : Bytes} (hhead : takeHead wire = some (head, rest))
    (hframed : hasNoBody method head.status = true ∨ head.values (ascii "transfer-encoding") ≠ [] ∨
      head.values (ascii "content-length") ≠ [])
    (h : takeResponse method wire = some (response, [])) :
    readAnswer method wire = some response := by
  have hnot : ¬ (hasNoBody method head.status = false ∧
      head.values (ascii "transfer-encoding") = [] ∧
      head.values (ascii "content-length") = []) := by
    rintro ⟨hbody, htransfer, hlength⟩
    rcases hframed with hframed | hframed | hframed
    · rw [hframed] at hbody
      cases hbody
    · exact hframed htransfer
    · exact hframed hlength
  simp only [readAnswer, hhead, if_neg hnot, h]

/-- The client has this answer, also with more behind it if the answer has a framing. -/
structure Reads (framed : Bool) (method wire : Bytes) (response : ClientResponse) : Prop where
  last : readAnswer method wire = some response
  ahead : framed = true → ∀ rest, takeResponse method (wire ++ rest) = some (response, rest)

theorem reads_framed {method wire : Bytes} {head : ClientHead} {response : ClientResponse}
    {body : Bytes} (hhead : takeHead wire = some (head, body))
    (hframed : hasNoBody method head.status = true ∨ head.values (ascii "transfer-encoding") ≠ [] ∨
      head.values (ascii "content-length") ≠ [])
    (h : ∀ rest, takeResponse method (wire ++ rest) = some (response, rest)) :
    Reads true method wire response where
  last := by
    have hlast := h []
    rw [List.append_nil] at hlast
    exact readAnswer_of_takeResponse hhead hframed hlast
  ahead _ := h

theorem reads_whole (method : Bytes) (r : Response) (keepAlive : Bool)
    (h : hasNoBody method r.status.toNat = true → r.body = []) :
    Reads true method (r.serialize keepAlive) ⟨fixedHead r keepAlive, r.body⟩ := by
  have hhead : takeHead (r.serialize keepAlive) = some (fixedHead r keepAlive, r.body) :=
    takeHead_headBytes r.status (fixedFields_readable r keepAlive) r.body
  rw [hasNoBody_status] at h
  refine reads_framed hhead (.inr (.inr ?_))
    fun rest => takeResponse_serialize method r keepAlive rest h
  rw [(fixedHead_values r keepAlive).2.1]
  exact List.cons_ne_nil _ _

theorem reads_chunked {method : Bytes} (r : Response) (keepAlive : Bool) (ds : List Bytes)
    (hmethod : method ≠ ascii "HEAD") (hstatus : Response.isBodylessStatus r.status = false) :
    Reads true method (r.serializeChunkedHead keepAlive ++ encodeBody ds)
      ⟨chunkedHead r keepAlive, ds.flatten⟩ := by
  have hhead : takeHead (r.serializeChunkedHead keepAlive ++ encodeBody ds) =
      some (chunkedHead r keepAlive, encodeBody ds) :=
    takeHead_headBytes r.status (chunkedFields_readable r keepAlive) (encodeBody ds)
  refine reads_framed hhead (.inr (.inl ?_))
    fun rest => takeResponse_streamed method r keepAlive ds rest hmethod hstatus
  rw [(chunkedHead_values r keepAlive).1, hstatus]
  exact List.cons_ne_nil _ _

theorem reads_chunked_bodyless (method : Bytes) (r : Response) (keepAlive : Bool)
    (hstatus : Response.isBodylessStatus r.status = true) :
    Reads true method (r.serializeChunkedHead keepAlive) ⟨chunkedHead r keepAlive, []⟩ := by
  have hhead := takeHead_headBytes r.status (chunkedFields_readable r keepAlive) []
  rw [List.append_nil] at hhead
  refine reads_framed hhead (.inl ?_)
    fun rest => takeResponse_bodyless method r keepAlive rest hstatus
  have hmethod := hasNoBody_status method r.status
  rw [hstatus, Bool.or_true] at hmethod
  exact hmethod

def closingHead (r : Response) : ClientHead :=
  ⟨r.status.toNat, readFields (r.fields ++ Response.connectionField false)⟩

theorem closingHead_values (r : Response) :
    (closingHead r).values (ascii "transfer-encoding") = [] ∧
      (closingHead r).values (ascii "content-length") = [] := by
  obtain ⟨htransfer, hlength, -⟩ := valuesIn_connectionField false
  simp only [closingHead, values_readFields, valuesIn_append, htransfer, hlength]
  exact ⟨by rw [valuesIn_fields r (by decide), List.append_nil],
    by rw [valuesIn_fields r (by decide), List.append_nil]⟩

theorem reads_untilClose {method : Bytes} (r : Response) (body : Bytes)
    (h : hasNoBody method r.status.toNat = true → body = []) :
    Reads false method (r.serializeStreamingHeadHttp10 ++ body) ⟨closingHead r, body⟩ := by
  refine ⟨?_, nofun⟩
  have hreadable : ∀ f ∈ r.fields ++ Response.connectionField false, FieldReadable f := by
    intro f hf
    rcases List.mem_append.mp hf with hf | hf
    · exact (fields_facts r f hf).1
    · exact connectionField_facts false f hf
  have hhead : takeHead (r.serializeStreamingHeadHttp10 ++ body) = some (closingHead r, body) :=
    takeHead_headBytes r.status hreadable body
  obtain ⟨htransfer, hlength⟩ := closingHead_values r
  cases hbody : hasNoBody method r.status.toNat with
  | false =>
    have hstatus : hasNoBody method (closingHead r).status = false := hbody
    simp only [readAnswer, hhead, hstatus, htransfer, hlength, and_self, if_true]
  | true =>
    obtain rfl := h hbody
    have hstatus : hasNoBody method (closingHead r).status = true := hbody
    refine readAnswer_of_takeResponse hhead (.inl hstatus) ?_
    simp only [takeResponse, hhead, hstatus, if_true]

/-- The framing of a head is written with reserved names, so that the others stay readable. -/
theorem valuesIn_framed (r : Response) {framing : List (Bytes × Bytes)}
    (hframing : ∀ f ∈ framing, isReserved f.1 = true) {name : Bytes}
    (hname : isReserved name = false) :
    valuesIn (r.fields ++ framing) name = valuesIn r.fields name := by
  have hnone : valuesIn framing name = [] := by
    rw [valuesIn, List.map_eq_nil_iff, List.filter_eq_nil_iff]
    intro f hf heq
    have hsame : isReserved f.1 = isReserved name := by
      rw [eqIgnoreAsciiCase, beq_iff_eq] at heq
      simp only [isReserved, eqIgnoreAsciiCase, heq]
    rw [hframing f hf, hname] at hsame
    cases hsame
  rw [valuesIn_append, hnone, List.append_nil]

theorem connectionField_reserved (keepAlive : Bool) :
    ∀ f ∈ Response.connectionField keepAlive, isReserved f.1 = true := by
  cases keepAlive <;> decide

theorem fixedHead_foreign (r : Response) (keepAlive : Bool) {name : Bytes}
    (hname : isReserved name = false) :
    (fixedHead r keepAlive).values name = valuesIn r.fields name := by
  rw [fixedHead, values_readFields, Response.fixedFields, List.append_assoc]
  refine valuesIn_framed r (fun f hf => ?_) hname
  rcases List.mem_append.mp hf with hf | hf
  · rw [List.mem_singleton.mp hf]
    exact (by decide : isReserved (ascii "Content-Length") = true)
  · exact connectionField_reserved keepAlive f hf

theorem chunkedHead_foreign (r : Response) (keepAlive : Bool) {name : Bytes}
    (hname : isReserved name = false) :
    (chunkedHead r keepAlive).values name = valuesIn r.fields name := by
  rw [chunkedHead, values_readFields, Response.chunkedFields, List.append_assoc]
  refine valuesIn_framed r (fun f hf => ?_) hname
  rcases List.mem_append.mp hf with hf | hf
  · split_ifs at hf
    · rw [List.mem_singleton.mp hf]
      decide
    · cases hf
  · exact connectionField_reserved keepAlive f hf

theorem closingHead_foreign (r : Response) {name : Bytes} (hname : isReserved name = false) :
    (closingHead r).values name = valuesIn r.fields name := by
  rw [closingHead, values_readFields]
  exact valuesIn_framed r (connectionField_reserved false) hname

end Reading

section Handed
variable {TypeId : Type} {E : TypeId → Type}

/-- An answer before the plugins go over it, and the body that it stands for. -/
structure Handed where
  response : Response
  body : Bytes
  isStream : Bool

def handedStream (response : Response) (recvs : List Recv) : Option Handed :=
  if Response.isBodylessStatus response.status then
    some ⟨{ response with body := [] }, [], true⟩
  else (finishedData recvs).map fun ds => ⟨{ response with body := [] }, ds.flatten, true⟩

def handedAnswer (server : Server E) (n : ℕ) (head : RequestHead E) (body : Bytes) :
    Option Handed :=
  match chosen server n head body with
  | .inl response =>
    let answer := mapped server n head response
    some ⟨answer, answer.body, false⟩
  | .inr streaming =>
    handedStream (mapped server n head streaming.initialHead) streaming.recvs

/-- What a gate rejects a request with, or what the interceptors left of the answer. A stream that
is not finished stands for no body. -/
def handed [DecidableEq TypeId] (server : Server E) (n : ℕ) (request : Request E) :
    Option Handed :=
  match (runGates server n request.head).rejection with
  | some response => some ⟨response, response.body, false⟩
  | none => handedAnswer server n
      (headWithExtensions request.head (runGates server n request.head).extensions) request.body

/-- There is no body where the client of a method expects none. -/
def Handed.Polite (h : Handed) (method : Bytes) : Prop :=
  hasNoBody method h.response.status.toNat = true →
    h.body = [] ∧ (h.isStream = true → Response.isBodylessStatus h.response.status = true)

/-- A client that undoes gzip has the answer as it was handed over. -/
structure Understood (gunzip : Bytes → Option Bytes) (h : Handed) (r : ClientResponse) : Prop where
  status : r.head.status = h.response.status.toNat
  kept : ∀ name, isReserved name = false →
    valuesIn h.response.fields name <+: r.head.values name
  foreign : ∀ name, IsForeign name → r.head.values name = valuesIn h.response.fields name
  content :
    r.head.values encodingName = valuesIn h.response.fields encodingName ∧ r.body = h.body ∨
      valuesIn h.response.fields encodingName = [] ∧ r.head.values encodingName = [ascii "gzip"] ∧
        gunzip r.body = some h.body

theorem understood_of_carries {gunzip : Bytes → Option Bytes} {h : Handed} {result : Response}
    {r : ClientResponse} (hcarries : Carries gunzip h.response h.body result r.body)
    (hstatus : r.head.status = result.status.toNat)
    (hvalues : ∀ name, isReserved name = false → r.head.values name = valuesIn result.fields name) :
    Understood gunzip h r where
  status := hstatus.trans (congrArg UInt16.toNat hcarries.added.status)
  kept name hname := by
    obtain ⟨hs, heq, hnames⟩ := hcarries.added
    rw [hvalues name hname, fields_extended heq hnames, valuesIn_append]
    exact List.prefix_append _ _
  foreign name hname := (hvalues name hname.2).trans (hcarries.added.foreign hname)
  content := by
    rw [hvalues encodingName (by decide), valuesIn_encoding, valuesIn_encoding]
    obtain ⟨hsame, hbody⟩ | ⟨hnone, hgzip, hbody⟩ := hcarries.content
    · exact .inl ⟨by rw [hsame], hbody⟩
    · exact .inr ⟨by rw [hnone]; rfl, by rw [hgzip]; decide, hbody⟩

variable (p : Plugins) {gunzip : Bytes → Option Bytes}

theorem untilCloseBody_flatten {recvs : List Recv} {body : List Bytes}
    (h : untilCloseBody recvs = some body) :
    ∃ ds, finishedData recvs = some ds ∧ body.flatten = ds.flatten := by
  obtain ⟨ds, hds, rfl⟩ := Option.map_eq_some_iff.mp h
  exact ⟨ds, hds, List.flatten_filter_not_isEmpty⟩

theorem encodeBody_append_last (pieces : List Bytes) (residual : Bytes) :
    ((pieces.filter fun piece => !piece.isEmpty).map (encodeChunk · []) ++
      [encodeTerminator (encodeChunk residual [])]).flatten = encodeBody (pieces ++ [residual]) := by
  induction pieces with
  | nil => exact List.append_nil _
  | cons piece pieces ih =>
    rw [List.cons_append, encodeBody_cons, ← ih]
    cases piece with
    | nil => rfl
    | cons b bs => rfl

theorem chunkedBody_flatten {encoder : StreamingBodyEncoder} {recvs : List Recv}
    {body : List Bytes} (h : chunkedBody encoder [] recvs = some body) :
    ∃ ds pieces residual, finishedData recvs = some ds ∧
      encodedPieces encoder [] ds = some pieces ∧ encoder.finish ds = some residual ∧
      body.flatten = encodeBody (pieces ++ [residual]) := by
  obtain ⟨ds, hds, hrest⟩ := Option.bind_eq_some_iff.mp h
  obtain ⟨pieces, hpieces, hrest⟩ := Option.bind_eq_some_iff.mp hrest
  obtain ⟨residual, hresidual, rfl⟩ := Option.map_eq_some_iff.mp hrest
  exact ⟨ds, pieces, residual, hds, hpieces, hresidual, encodeBody_append_last pieces residual⟩

theorem Extends.with_body {r result : Response} (h : Extends r result) (body body' : Bytes) :
    Extends { r with body := body } { result with body := body' } := by
  obtain ⟨hs, heq, hnames⟩ := h
  exact ⟨hs, by rw [heq]; rfl, hnames⟩

end Handed

section Law
variable {TypeId : Type} {E : TypeId → Type} {p : Plugins} {gunzip : Bytes → Option Bytes}

theorem understood_whole (h : Gunzips p gunzip) (server : Server E) (n : ℕ) (head : RequestHead E)
    (r : Response) (keepAlive : Bool) {method : Bytes}
    (hpolite : (Handed.mk r r.body false).Polite method) :
    ∃ answer, Reads true method
        (((p.register server).finalizeResponse n head r).serialize keepAlive) answer ∧
      Understood gunzip ⟨r, r.body, false⟩ answer := by
  obtain ⟨hcarries, hempty⟩ := finalizeResponse_carries h server n head r
  generalize (p.register server).finalizeResponse n head r = result at hcarries hempty ⊢
  refine ⟨⟨fixedHead result keepAlive, result.body⟩,
    reads_whole method result keepAlive fun hnone => ?_,
    understood_of_carries hcarries rfl fun _ hname => fixedHead_foreign result keepAlive hname⟩
  rw [hcarries.added.status] at hnone
  exact hempty (hpolite hnone).1

theorem understood_rejected (r : Response) (keepAlive : Bool) {method : Bytes}
    (hpolite : (Handed.mk r r.body false).Polite method) :
    ∃ answer, Reads true method (r.serialize keepAlive) answer ∧
      Understood gunzip ⟨r, r.body, false⟩ answer :=
  ⟨⟨fixedHead r keepAlive, r.body⟩,
    reads_whole method r keepAlive fun hnone => (hpolite hnone).1,
    understood_of_carries ⟨.refl r, .inl ⟨rfl, rfl⟩⟩ rfl
      fun _ hname => fixedHead_foreign r keepAlive hname⟩

theorem method_of_polite {handed : Handed} {method : Bytes} (h : handed.Polite method)
    (hstream : handed.isStream = true)
    (hstatus : Response.isBodylessStatus handed.response.status = false) :
    hasNoBody method handed.response.status.toNat = false ∧ method ≠ ascii "HEAD" := by
  have hbody : hasNoBody method handed.response.status.toNat = false := by
    refine Bool.eq_false_iff.mpr fun hnone => ?_
    rw [(h hnone).2 hstream] at hstatus
    cases hstatus
  refine ⟨hbody, fun hmethod => ?_⟩
  rw [hasNoBody_status, hmethod] at hbody
  cases hbody

theorem understood_untilClose {r response : Response} (hadded : Extends r response)
    (hlines : contentEncodingLines response = contentEncodingLines r) {recvs : List Recv}
    {body : List Bytes} (hbody : streamed response (untilCloseBody recvs) = some body) :
    ∃ handed, handedStream r recvs = some handed ∧ ∀ method, handed.Polite method →
      ∃ answer, Reads false method (response.serializeStreamingHeadHttp10 ++ body.flatten)
        answer ∧ Understood gunzip handed answer := by
  have hcarries : ∀ sent : Bytes,
      Carries gunzip { r with body := [] } sent response sent :=
    fun sent => ⟨hadded.with_body [] response.body, .inl ⟨hlines, rfl⟩⟩
  cases hstatus : Response.isBodylessStatus r.status with
  | true =>
    rw [streamed, hadded.status, if_pos hstatus] at hbody
    obtain rfl := Option.some.inj hbody
    refine ⟨_, if_pos hstatus, fun method _ => ⟨⟨closingHead response, []⟩, ?_,
      understood_of_carries (hcarries []) rfl fun name hname => closingHead_foreign response hname⟩⟩
    exact reads_untilClose response [] fun _ => rfl
  | false =>
    have hneg : ¬ Response.isBodylessStatus r.status = true := by
      rw [hstatus]
      exact Bool.false_ne_true
    rw [streamed, hadded.status, if_neg hneg] at hbody
    obtain ⟨ds, hds, hflatten⟩ := untilCloseBody_flatten hbody
    refine ⟨⟨{ r with body := [] }, ds.flatten, true⟩, ?_, fun method hpolite =>
      ⟨⟨closingHead response, ds.flatten⟩, ?_, understood_of_carries (hcarries ds.flatten) rfl
        fun name hname => closingHead_foreign response hname⟩⟩
    · rw [handedStream, if_neg hneg, hds]
      rfl
    · rw [hflatten]
      refine reads_untilClose response _ fun hnone => ?_
      rw [hadded.status, (method_of_polite hpolite rfl hstatus).1] at hnone
      cases hnone

theorem understood_chunked (h : Gunzips p gunzip) (server : Server E) (n : ℕ)
    (head : RequestHead E) {r response : Response} (hadded : Extends r response)
    (hlines : contentEncodingLines response = contentEncodingLines r) (keepAlive : Bool)
    {recvs : List Recv} {body : List Bytes} :
    let prepared := (p.register server).prepareStreamingCompression n head response
    streamed prepared.1 (chunkedBody prepared.2 [] recvs) = some body →
    ∃ handed, handedStream r recvs = some handed ∧ ∀ method, handed.Polite method →
      ∃ answer, Reads true method (prepared.1.serializeChunkedHead keepAlive ++ body.flatten)
        answer ∧ Understood gunzip handed answer := by
  intro prepared hbody
  have hkept : prepared.1.status = r.status :=
    (PluginCompression.prepareStreamingCompression_status p.parseQ p.gzip _ head response).trans
      hadded.status
  cases hstatus : Response.isBodylessStatus r.status with
  | true =>
    rw [streamed, hkept, if_pos hstatus] at hbody
    obtain rfl := Option.some.inj hbody
    have hcarries : Carries gunzip { r with body := [] } [] prepared.1 [] := by
      obtain heq | heq | ⟨hbodyless, -, -⟩ := prepareStreaming_cases p server n head response
      · rw [show prepared = _ from heq]
        exact ⟨hadded.with_body [] response.body, .inl ⟨hlines, rfl⟩⟩
      · rw [show prepared = _ from heq]
        exact carries_varied.after (hadded.with_body [] response.body) hlines
      · rw [hadded.status, hstatus] at hbodyless
        cases hbodyless
    refine ⟨_, if_pos hstatus, fun method _ => ⟨⟨chunkedHead prepared.1 keepAlive, []⟩, ?_,
      understood_of_carries hcarries rfl
        fun name hname => chunkedHead_foreign prepared.1 keepAlive hname⟩⟩
    rw [List.flatten_nil, List.append_nil]
    exact reads_chunked_bodyless method prepared.1 keepAlive (by rw [hkept, hstatus])
  | false =>
    have hneg : ¬ Response.isBodylessStatus r.status = true := by
      rw [hstatus]
      exact Bool.false_ne_true
    rw [streamed, hkept, if_neg hneg] at hbody
    obtain ⟨ds, pieces, residual, hds, hpieces, hresidual, hflatten⟩ := chunkedBody_flatten hbody
    have hcarries : Carries gunzip { r with body := [] } ds.flatten prepared.1
        (pieces ++ [residual]).flatten := by
      have hsent := prepareStreaming_carries h server n head response hpieces hresidual
      rw [List.flatten_append, List.flatten_singleton]
      exact hsent.after (hadded.with_body [] response.body) hlines
    refine ⟨⟨{ r with body := [] }, ds.flatten, true⟩, ?_, fun method hpolite =>
      ⟨⟨chunkedHead prepared.1 keepAlive, (pieces ++ [residual]).flatten⟩, ?_,
        understood_of_carries hcarries rfl
          fun name hname => chunkedHead_foreign prepared.1 keepAlive hname⟩⟩
    · rw [handedStream, if_neg hneg, hds]
      rfl
    · rw [hflatten]
      exact reads_chunked prepared.1 keepAlive _ (method_of_polite hpolite rfl hstatus).2
        (by rw [hkept, hstatus])

def isFramed : Answer → Bool
  | .untilClose _ => false
  | _ => true

theorem wire_of_complete {delivery : Option (Answer × List Bytes)} {writes : List (Event E)}
    {status : UInt16} (h : Complete delivery writes status) :
    ∃ answer body keepAlive, delivery = some (answer, body) ∧
      writes.flatMap eventBytes = answer.bytes keepAlive ++ body.flatten := by
  obtain ⟨answer, body, keepAlive, hdelivery, rfl, -⟩ := h
  refine ⟨answer, body, keepAlive, hdelivery, ?_⟩
  have hsent : (body.map fun bytes => Event.sent (E := E) bytes true).flatMap eventBytes =
      body.flatten := by
    rw [List.flatMap_map]
    exact List.flatMap_id'
  rw [List.flatMap_cons, hsent]
  rfl

theorem understood_streaming (h : Gunzips p gunzip) (server : Server E) (n : ℕ)
    (head : RequestHead E) (streaming : StreamingResponse) {answer : Answer} {body : List Bytes}
    (hdelivery : (streamingPlan (p.register server) n head streaming).delivery =
      some (answer, body)) (keepAlive : Bool) :
    ∃ given, handedStream (mapped (p.register server) n head streaming.initialHead)
        streaming.recvs = some given ∧ ∀ method, given.Polite method →
      ∃ r, Reads (isFramed answer) method (answer.bytes keepAlive ++ body.flatten) r ∧
        Understood gunzip given r := by
  generalize hr : mapped (p.register server) n head streaming.initialHead = r
  obtain ⟨hcors, hlines, -⟩ := applyCors_extends p.cors head r
  let response := { PluginCors.applyCors p.cors head r with body := [] }
  have hadded : Extends r response := hcors.with_body r.body []
  have hresponse : { (p.register server).finalizeStreamingHead n head (mapped (p.register server) n
      head streaming.initialHead) with body := [] } = response := by
    rw [hr]
    rfl
  simp only [streamingPlan, hresponse] at hdelivery
  cases hversion : head.version with
  | http10 =>
    simp only [hversion, Plan.delivery] at hdelivery
    obtain ⟨_, hbody, heq⟩ := Option.map_eq_some_iff.mp hdelivery
    obtain ⟨rfl, rfl⟩ := Prod.mk.inj heq
    exact understood_untilClose hadded hlines hbody
  | http11 =>
    simp only [hversion, Plan.delivery] at hdelivery
    obtain ⟨_, hbody, heq⟩ := Option.map_eq_some_iff.mp hdelivery
    obtain ⟨rfl, rfl⟩ := Prod.mk.inj heq
    exact understood_chunked h server n head hadded hlines keepAlive hbody

theorem understood_answer (h : Gunzips p gunzip) (server : Server E) (n : ℕ)
    (head : RequestHead E) (requestBody : Bytes) {answer : Answer} {body : List Bytes}
    (hdelivery : (answerPlan (p.register server) n head requestBody).delivery =
      some (answer, body)) (keepAlive : Bool) :
    ∃ given, handedAnswer (p.register server) n head requestBody = some given ∧
      ∀ method, given.Polite method →
        ∃ r, Reads (isFramed answer) method (answer.bytes keepAlive ++ body.flatten) r ∧
          Understood gunzip given r := by
  rw [answerPlan] at hdelivery
  rw [handedAnswer]
  cases hchosen : chosen (p.register server) n head requestBody with
  | inl response =>
    simp only [hchosen, Plan.delivery, Option.some.injEq, Prod.mk.injEq] at hdelivery
    obtain ⟨rfl, rfl⟩ := hdelivery
    refine ⟨_, rfl, fun method hpolite => ?_⟩
    rw [List.flatten_nil, List.append_nil]
    exact understood_whole h server n head _ keepAlive hpolite
  | inr streaming =>
    simp only [hchosen] at hdelivery
    exact understood_streaming h server n head streaming hdelivery keepAlive

variable [DecidableEq TypeId]

theorem understood_plan (h : Gunzips p gunzip) (server : Server E) (n : ℕ) (request : Request E)
    {answer : Answer} {body : List Bytes}
    (hdelivery : (planOf (p.register server) n request).delivery = some (answer, body))
    (keepAlive : Bool) :
    ∃ given, handed (p.register server) n request = some given ∧
      ∀ method, given.Polite method →
        ∃ r, Reads (isFramed answer) method (answer.bytes keepAlive ++ body.flatten) r ∧
          Understood gunzip given r := by
  rw [planOf] at hdelivery
  rw [handed]
  cases hrejection : (runGates (p.register server) n request.head).rejection with
  | some response =>
    simp only [hrejection, Plan.delivery, Option.some.injEq, Prod.mk.injEq] at hdelivery
    obtain ⟨rfl, rfl⟩ := hdelivery
    refine ⟨_, rfl, fun method hpolite => ?_⟩
    rw [List.flatten_nil, List.append_nil]
    exact understood_rejected response keepAlive hpolite
  | none =>
    simp only [hrejection, allowedPlan] at hdelivery
    split_ifs at hdelivery
    · cases hdelivery
    · exact understood_answer h server n _ request.body hdelivery keepAlive

/-- On every run of a connection with the plugins, a client understands each answer that was
written completely as it was handed to the plugins: by a gate, by the application, by a plugin
that intercepts, whole or as a stream, for HTTP/1.0 or HTTP/1.1. -/
theorem plugins_law (h : Gunzips p gunzip) (server : Server E) (env : Env) (turns : ℕ)
    (reads : List Read) :
    ∃ obs es wire, RunObserved (p.register server) 1 (.start reads)
        (handleConnection (p.register server) env turns (.start reads)) obs es wire ∧
      ∀ k (o : Observation E) status, obs[k]? = some o → o.status = some status →
        ∃ given, handed (p.register server) (1 + k) o.request = some given ∧
          (given.Polite o.request.head.method →
            ∃ r, readAnswer o.request.head.method o.wire = some r ∧
              Understood gunzip given r) := by
  have hkeeps : KeepsStatus (p.register server) := fun _ head response =>
    PluginCompression.prepareStreamingCompression_status p.parseQ p.gzip _ head response
  obtain ⟨obs, es, wire, hrun⟩ := handleConnection_run env hkeeps turns (.start reads)
  refine ⟨obs, es, wire, hrun, fun k o status hk hstatus => ?_⟩
  have hlawful := hrun.lawful k o hk
  obtain ⟨answer, body, keepAlive, hdelivery, hbytes⟩ :=
    wire_of_complete ((hlawful.status_iff status).mp hstatus)
  obtain ⟨given, hgiven, hread⟩ := understood_plan h server (1 + k) o.request hdelivery keepAlive
  refine ⟨given, hgiven, fun hpolite => ?_⟩
  rw [(hlawful.on_the_wire status hstatus).1, hbytes]
  obtain ⟨r, hreads, hunderstood⟩ := hread o.request.head.method hpolite
  exact ⟨r, hreads.last, hunderstood⟩

def compressing : Plugins :=
  { twoRelays with
    webrtcProxy := none
    webrtc := none
    compression := some ⟨⟨[ascii "text/"], true⟩, 1, 64⟩
    compressBody := fun data => if data = textBody then textBodyGzip else []
    gzip := ⟨fun _ _ => some [], fun ds => if ds.flatten = textBody then some textBodyGzip else none⟩ }

def undone (data : Bytes) : Option Bytes := if data = textBodyGzip then some textBody else none

theorem gunzips_compressing : Gunzips compressing undone where
  whole data hne := by
    by_cases hdata : data = textBody
    · subst hdata
      rfl
    · exact absurd (if_neg hdata) hne
  stream ds pieces residual hpieces hresidual := by
    have hempty : ∀ given ds : List Bytes, ∀ pieces,
        encodedPieces compressing.gzip given ds = some pieces → pieces.flatten = [] := by
      intro given ds
      induction ds generalizing given with
      | nil =>
        intro pieces h
        obtain rfl := Option.some.inj (show some [] = some pieces from h)
        rfl
      | cons data ds ih =>
        intro pieces h
        obtain ⟨rest, hrest, rfl⟩ := Option.map_eq_some_iff.mp
          (show (encodedPieces compressing.gzip (given ++ [data]) ds).map ([] :: ·) =
            some pieces from h)
        exact ih _ rest hrest
    rw [hempty [] ds pieces hpieces]
    by_cases hds : ds.flatten = textBody
    · obtain rfl := Option.some.inj ((if_pos hds).symm.trans hresidual)
      rw [hds]
      rfl
    · cases (if_neg hds).symm.trans hresidual

def textServer : Server (fun _ : Unit => Unit) where
  middlewares := 0
  gates := []
  upgradeHandlers := []
  tryHandleUpgrade _ _ := false
  interceptors := []
  tryIntercept _ _ _ := none
  handler := some {
    handleStreaming := fun _ _ _ => some ⟨200, textResponse.contentType,
      [some (.chunk (textBody.take 32)), some (.chunk (textBody.drop 32)), some .finished]⟩
    handle := fun _ _ _ => .empty 500 }
  finalizeResponse _ _ response := response
  finalizeStreamingHead _ _ response := response
  prepareStreamingCompression _ _ response := (response, .identity)
  keepAliveEnabled := true
  maxRequestsPerConnection := 100
  maxConnectionLifetime := 1
  maxBodyBytes := 0

theorem plugins_law_stream :
    let server := compressing.register textServer
    let reads := [Read.data (ascii "GET / HTTP/1.1\r\nAccept-Encoding: gzip\r\n\r\n")]
    let run := handleConnection server .calm 1 (.start reads)
    (∃ obs es wire, RunObserved server 1 (.start reads) run obs es wire ∧
      ∀ k (o : Observation (fun _ : Unit => Unit)) status, obs[k]? = some o →
        o.status = some status → ∃ given, handed server (1 + k) o.request = some given ∧
          (given.Polite o.request.head.method →
            ∃ r, readAnswer o.request.head.method o.wire = some r ∧
              Understood undone given r)) ∧
    (readAnswer (ascii "GET") run.state.out).map ClientResponse.body = some textBodyGzip := by
  intro server reads run
  refine ⟨?_, by decide +kernel⟩
  exact plugins_law gunzips_compressing textServer .calm 1 reads

end Law

end FandheBackend.CorePlugins
