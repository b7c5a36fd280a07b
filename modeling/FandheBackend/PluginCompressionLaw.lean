import FandheBackend.PluginCompression

set_option autoImplicit false

namespace FandheBackend.PluginCompression
open StdBytes HttpRequestHead HttpResponse HttpResponseUnions PluginHeaders

section Plan
variable {TypeId : Type} {E : TypeId → Type} (parseQ : Bytes → Option Bool)

def contentEncodingLines (r : Response) : List Bytes := linesOf (ascii "content-encoding") r

def varied (r : Response) : Response :=
  Response.appended r (varyOffered r (ascii "Accept-Encoding"))

def compressible (config : CompressionConfig) (r : Response) : Bool :=
  !(r.status == 204 || !(200 ≤ r.status && r.status < 300)) &&
    (header r (ascii "content-type")).any config.matchesContentType

def encodable (head : RequestHead E) (r : Response) : Bool :=
  (contentEncodingLines r).isEmpty && acceptsGzip parseQ head.headers

theorem header_contentEncoding (r : Response) :
    (header r (ascii "content-encoding")).isSome = !(contentEncodingLines r).isEmpty := by
  have hname : eqIgnoreAsciiCase (ascii "content-encoding") (ascii "content-type") = false := rfl
  rw [header, hname, Bool.false_and, if_neg Bool.false_ne_true, Option.isSome_map, List.isSome_find?,
    contentEncodingLines, linesOf, List.isEmpty_map]
  rw [Bool.eq_iff_iff, List.any_eq_true, Bool.not_eq_true', List.isEmpty_eq_false_iff_exists_mem]
  simp only [List.mem_filter]

theorem contentEncodingLines_varied (r : Response) :
    contentEncodingLines (varied r) = contentEncodingLines r := by
  rw [contentEncodingLines, varied, linesOf_eq_append, valuesOf_varyOffered rfl, List.append_nil]
  rfl

theorem tryAddVary_eq (r : Response) : tryAddVary r (ascii "Accept-Encoding") = varied r :=
  withVary_getD r (by decide)

theorem planCompression_eq (head : RequestHead E) (config : WholeConfig) (r : Response) :
    planCompression parseQ head config r =
      if compressible config.toCompressionConfig r && config.minSize ≤ r.body.length then
        if encodable parseQ head r then .compress (varied r) else .skip (varied r)
      else .skip r := by
  unfold planCompression compressible
  simp only [tryAddVary_eq, header_contentEncoding, contentEncodingLines_varied]
  cases hstatus : r.status == 204 || !(200 ≤ r.status && r.status < 300) with
  | true => rfl
  | false =>
    rw [if_neg Bool.false_ne_true, Bool.not_false, Bool.true_and]
    cases (header r (ascii "content-type")).any config.matchesContentType &&
        decide (config.minSize ≤ r.body.length) with
    | false => rfl
    | true =>
      unfold encodable
      cases (contentEncodingLines r).isEmpty <;> cases acceptsGzip parseQ head.headers <;> rfl

theorem beginStreamingCompression_eq (head : RequestHead E) {config : CompressionConfig}
    (hstreaming : config.compressStreaming = true) (r : Response) :
    beginStreamingCompression parseQ head config r =
      if compressible config r then
        if encodable parseQ head r then
          (tryAddHeader (varied r) (ascii "Content-Encoding") (ascii "gzip"), true)
        else (varied r, false)
      else (r, false) := by
  have hbodyless : (200 ≤ r.status && r.status < 300) = true →
      Response.isBodylessStatus r.status = (r.status == 204) := by
    intro h
    simp only [Bool.and_eq_true, decide_eq_true_eq, UInt16.le_iff_toNat_le,
      UInt16.lt_iff_toNat_lt] at h
    have h204 : (200 : UInt16).toNat = 200 ∧ (300 : UInt16).toNat = 300 := ⟨rfl, rfl⟩
    rw [h204.1, h204.2] at h
    have hinfo : (100 ≤ r.status && r.status ≤ 199) = false := by
      simp only [Bool.and_eq_false_iff, decide_eq_false_iff_not, UInt16.le_iff_toNat_le]
      exact .inr fun hle => by
        have : (199 : UInt16).toNat = 199 := rfl
        omega
    have h304 : (r.status == 304) = false := by
      rw [beq_eq_false_iff_ne]
      intro heq
      rw [heq] at h
      exact absurd h.2 (by decide)
    rw [Response.isBodylessStatus, hinfo, h304, Bool.false_or, Bool.or_false]
  unfold beginStreamingCompression compressible
  simp only [hstreaming, tryAddVary_eq, header_contentEncoding, contentEncodingLines_varied,
    Bool.not_true, Bool.false_eq_true, if_false]
  cases hrange : (decide (200 ≤ r.status) && decide (r.status < 300)) with
  | false => simp
  | true =>
    rw [hbodyless hrange]
    cases r.status == 204 with
    | true => rfl
    | false =>
      simp only [Bool.not_true, Bool.or_self, Bool.false_eq_true, if_false, Bool.not_false,
        Bool.true_and]
      cases (header r (ascii "content-type")).any config.matchesContentType with
      | false => rfl
      | true =>
        unfold encodable
        cases (contentEncodingLines r).isEmpty <;> cases acceptsGzip parseQ head.headers <;> rfl

end Plan

section Body
variable {TypeId : Type} {E : TypeId → Type} (parseQ : Bytes → Option Bool)
variable (compressBody : Bytes → Bytes)

def gzipHeader : ExtraHeader :=
  ⟨ascii "Content-Encoding", ascii "gzip", by decide, by decide, by decide⟩

theorem tryAddHeader_gzip (r : Response) :
    tryAddHeader r (ascii "Content-Encoding") (ascii "gzip") = Response.appended r [gzipHeader] := by
  have hoffered : offered (ascii "Content-Encoding") (ascii "gzip") = [gzipHeader] :=
    dif_pos ⟨by decide, by decide, by decide⟩
  rw [← hoffered]
  exact withHeader_getD r _ _

def encoded (r : Response) (compressed : Bytes) : Response :=
  { Response.appended (varied r) [gzipHeader] with body := compressed }

theorem attachCompressed_varied (r : Response) (compressed : Bytes) :
    attachCompressed (varied r) compressed =
      if compressed ≠ [] ∧ compressed.length < r.body.length then encoded r compressed
      else varied r := by
  have hcond : (compressed.isEmpty || decide ((varied r).body.length ≤ compressed.length)) = true ↔
      ¬ (compressed ≠ [] ∧ compressed.length < r.body.length) := by
    rw [Bool.or_eq_true, List.isEmpty_iff, decide_eq_true_iff, not_and_or, not_not, Nat.not_lt]
    rfl
  rw [attachCompressed, tryAddHeader_gzip]
  by_cases hshorter : compressed ≠ [] ∧ compressed.length < r.body.length
  · rw [if_pos hshorter, if_neg fun h => hcond.mp h hshorter]
    rfl
  · rw [if_neg hshorter, if_pos (hcond.mpr hshorter)]

theorem applyCompression_cases (head : RequestHead E) (config : WholeConfig) (r : Response) :
    applyCompression parseQ compressBody head config r = r ∨
    (VariesBy (ascii "Accept-Encoding") (varied r) ∧
      (applyCompression parseQ compressBody head config r = varied r ∨
        (contentEncodingLines r = [] ∧ compressBody r.body ≠ [] ∧
          (compressBody r.body).length < r.body.length ∧
          applyCompression parseQ compressBody head config r = encoded r (compressBody r.body)))) := by
  have hvaries : VariesBy (ascii "Accept-Encoding") (varied r) :=
    variesBy_varyOffered r (by decide)
  rw [applyCompression, planCompression_eq]
  split_ifs with hcompressible hencodable
  · refine .inr ⟨hvaries, ?_⟩
    simp only [attachCompressed_varied]
    split_ifs with hshorter
    · rw [encodable, Bool.and_eq_true, List.isEmpty_iff] at hencodable
      exact .inr ⟨hencodable.1, hshorter.1, hshorter.2, rfl⟩
    · exact .inl rfl
  · exact .inr ⟨hvaries, .inl rfl⟩
  · exact .inl rfl

def GzipAdded (r result : Response) : Prop :=
  contentEncodingLines result = contentEncodingLines r ++ [ascii "gzip"]

instance (r result : Response) : Decidable (GzipAdded r result) :=
  inferInstanceAs (Decidable (contentEncodingLines result = contentEncodingLines r ++ [ascii "gzip"]))

/-- Who decodes by the encoding that was added has the body of before. -/
structure Transparent (gunzip : Bytes → Option Bytes) (r result : Response) : Prop where
  decoded : (if GzipAdded r result then gunzip result.body else some result.body) = some r.body
  replaced : GzipAdded r result ↔ result.body ≠ r.body
  kept : ¬ GzipAdded r result → contentEncodingLines result = contentEncodingLines r
  once : contentEncodingLines r ≠ [] → ¬ GzipAdded r result
  status : result.status = r.status
  contentType : result.contentType = r.contentType
  allow : result.allow = r.allow
  headers : ∃ hs, result.extraHeaders = r.extraHeaders ++ hs ∧
    (hs.map fun h => (h.name, h.value)).Sublist
      [(ascii "Vary", ascii "Accept-Encoding"), (ascii "Content-Encoding", ascii "gzip")]

theorem varyOffered_pairs (r : Response) :
    ((varyOffered r (ascii "Accept-Encoding")).map fun h => (h.name, h.value)).Sublist
      [(ascii "Vary", ascii "Accept-Encoding")] := by
  unfold varyOffered offered
  split_ifs
  · exact List.nil_sublist _
  · exact .refl _
  · exact List.nil_sublist _

theorem transparent_of_same {gunzip : Bytes → Option Bytes} {r result : Response}
    {hs : List ExtraHeader} (heq : result = Response.appended r hs)
    (hlines : contentEncodingLines result = contentEncodingLines r)
    (hpairs : (hs.map fun h => (h.name, h.value)).Sublist
      [(ascii "Vary", ascii "Accept-Encoding")]) : Transparent gunzip r result := by
  have hnot : ¬ GzipAdded r result := by
    intro h
    rw [GzipAdded, hlines] at h
    simpa using congrArg List.length h
  have hbody : result.body = r.body := by
    rw [heq]
    rfl
  refine ⟨?_, ⟨fun h => absurd h hnot, fun h => absurd hbody h⟩, fun _ => hlines, fun _ => hnot,
    ?_, ?_, ?_, ⟨hs, ?_, hpairs.trans (List.sublist_append_left [_] [_])⟩⟩
  · rw [if_neg hnot, hbody]
  all_goals rw [heq]; rfl

theorem transparent_encoded {gunzip : Bytes → Option Bytes} {r : Response} {compressed : Bytes}
    (hlines : contentEncodingLines r = []) (hlength : compressed.length < r.body.length)
    (hgunzip : gunzip compressed = some r.body) : Transparent gunzip r (encoded r compressed) := by
  have hadded : GzipAdded r (encoded r compressed) := by
    have hvaried := contentEncodingLines_varied r
    change linesOf _ (Response.appended (varied r) [gzipHeader]) = _
    rw [linesOf_eq_append, ← contentEncodingLines, hvaried]
    rfl
  have hbody : compressed ≠ r.body := by
    rintro rfl
    exact lt_irrefl _ hlength
  refine ⟨?_, ⟨fun _ => hbody, fun _ => hadded⟩, fun h => absurd hadded h,
    fun h => absurd hlines h, rfl, rfl, rfl,
    ⟨varyOffered r (ascii "Accept-Encoding") ++ [gzipHeader], ?_, ?_⟩⟩
  · rw [if_pos hadded]
    exact hgunzip
  · change r.extraHeaders ++ _ ++ _ = _
    rw [List.append_assoc]
  · rw [List.map_append]
    exact (varyOffered_pairs r).append (.refl _)

theorem applyCompression_transparent {gunzip : Bytes → Option Bytes}
    (hgunzip : ∀ data, compressBody data ≠ [] → gunzip (compressBody data) = some data)
    (head : RequestHead E) (config : WholeConfig) (r : Response) :
    Transparent gunzip r (applyCompression parseQ compressBody head config r) := by
  rcases applyCompression_cases parseQ compressBody head config r with
    heq | ⟨-, heq | ⟨hlines, hne, hlength, heq⟩⟩
  · rw [heq]
    exact transparent_of_same (appended_nil r).symm rfl (List.nil_sublist _)
  · rw [heq]
    exact transparent_of_same rfl (contentEncodingLines_varied r) (varyOffered_pairs r)
  · rw [heq]
    exact transparent_encoded hlines hlength (hgunzip r.body hne)

theorem planned_body {head : RequestHead E} {config : WholeConfig} {r planned : Response}
    (hplan : planCompression parseQ head config r = .compress planned) : planned.body = r.body := by
  rw [planCompression_eq] at hplan
  split_ifs at hplan
  cases hplan
  rfl

theorem finalizeResponse_eq (head : RequestHead E) (config : WholeConfig) (r : Response) {join : Join}
    (hjoin : join = .completed ∨ r.body.length < config.blockingThreshold) :
    finalizeResponse parseQ compressBody none (some config) join head r =
      applyCompression parseQ compressBody head config r := by
  rw [finalizeResponse, applyCompression]
  simp only [PluginCors.applyCors]
  cases hplan : planCompression parseQ head config r with
  | skip skipped => rfl
  | compress planned =>
    rcases hjoin with rfl | hsmall
    · exact ite_self _
    · rw [← planned_body parseQ hplan] at hsmall
      exact if_neg (Nat.not_le.mpr hsmall)

theorem finalizeResponse_failed {head : RequestHead E} {config : WholeConfig} {r planned : Response}
    (hplan : planCompression parseQ head config r = .compress planned)
    (hthreshold : config.blockingThreshold ≤ r.body.length) :
    finalizeResponse parseQ compressBody none (some config) .failed head r = planned := by
  have hbody := planned_body parseQ hplan
  rw [finalizeResponse]
  simp only [PluginCors.applyCors, hplan]
  rw [hbody, if_pos hthreshold, ← hbody]
  rfl

/-- Two clients that get different responses are told apart by `Vary`. -/
theorem applyCompression_varies (config : WholeConfig) (r : Response) (a b : RequestHead E)
    (hdiff : applyCompression parseQ compressBody a config r ≠
      applyCompression parseQ compressBody b config r) (head : RequestHead E) :
    VariesBy (ascii "Accept-Encoding") (applyCompression parseQ compressBody head config r) := by
  have hplanned : (compressible config.toCompressionConfig r &&
      decide (config.minSize ≤ r.body.length)) = true := by
    by_contra hno
    apply hdiff
    rw [applyCompression, applyCompression, planCompression_eq, planCompression_eq, if_neg hno,
      if_neg hno]
  have hvaries : VariesBy (ascii "Accept-Encoding") (varied r) :=
    variesBy_varyOffered r (by decide)
  rw [applyCompression, planCompression_eq, if_pos hplanned]
  split_ifs
  · simp only [attachCompressed_varied]
    split_ifs
    · exact hvaries.appended [gzipHeader]
    · exact hvaries
  · exact hvaries

theorem beginStreamingCompression_plan (head : RequestHead E) {config : WholeConfig}
    (hstreaming : config.compressStreaming = true) (r : Response) :
    beginStreamingCompression parseQ head config.toCompressionConfig r =
      (match planCompression parseQ head { config with minSize := 0 } r with
        | .skip response => (response, false)
        | .compress response =>
          (tryAddHeader response (ascii "Content-Encoding") (ascii "gzip"), true)) ∧
    planCompression parseQ head config r =
      if config.minSize ≤ r.body.length then
        planCompression parseQ head { config with minSize := 0 } r
      else .skip r := by
  constructor
  · rw [beginStreamingCompression_eq parseQ head hstreaming, planCompression_eq]
    simp only [Nat.zero_le, decide_true, Bool.and_true]
    split_ifs <;> rfl
  · rw [planCompression_eq, planCompression_eq]
    simp only [Nat.zero_le, decide_true, Bool.and_true]
    by_cases hsize : config.minSize ≤ r.body.length
    · simp only [hsize, decide_true, Bool.and_true, if_true]
    · simp only [hsize, decide_false, Bool.and_false, Bool.false_eq_true, if_false]

/-- Compression is transparent, and all its paths agree. -/
theorem compression_law {gunzip : Bytes → Option Bytes}
    (hgunzip : ∀ data, compressBody data ≠ [] → gunzip (compressBody data) = some data)
    (config : WholeConfig) (head : RequestHead E) (r : Response) :
    Transparent gunzip r (applyCompression parseQ compressBody head config r) ∧
    (∀ join, join = .completed ∨ r.body.length < config.blockingThreshold →
      finalizeResponse parseQ compressBody none (some config) join head r =
        applyCompression parseQ compressBody head config r) ∧
    (∀ planned, planCompression parseQ head config r = .compress planned →
      config.blockingThreshold ≤ r.body.length →
      finalizeResponse parseQ compressBody none (some config) .failed head r = planned) ∧
    (∀ other, SameBut (ascii "Accept-Encoding") head other →
      applyCompression parseQ compressBody head config r ≠
        applyCompression parseQ compressBody other config r →
      VariesBy (ascii "Accept-Encoding") (applyCompression parseQ compressBody head config r) ∧
        VariesBy (ascii "Accept-Encoding")
          (applyCompression parseQ compressBody other config r)) ∧
    (config.compressStreaming = true → 200 ≤ r.status → r.status < 300 →
      beginStreamingCompression parseQ head config.toCompressionConfig r =
        (match planCompression parseQ head { config with minSize := 0 } r with
          | .skip response => (response, false)
          | .compress response =>
            (tryAddHeader response (ascii "Content-Encoding") (ascii "gzip"), true)) ∧
      planCompression parseQ head config r =
        if config.minSize ≤ r.body.length then
          planCompression parseQ head { config with minSize := 0 } r
        else .skip r) := by
  refine ⟨applyCompression_transparent parseQ compressBody hgunzip head config r,
    fun join hjoin => finalizeResponse_eq parseQ compressBody head config r hjoin,
    fun planned hplan hthreshold => finalizeResponse_failed parseQ compressBody hplan hthreshold,
    fun other _ hdiff => ?_,
    fun hstreaming _ _ => beginStreamingCompression_plan parseQ head hstreaming r⟩
  have hvaries := applyCompression_varies parseQ compressBody config r head other hdiff
  exact ⟨hvaries head, hvaries other⟩

def textBody : Bytes := List.replicate 64 120

def textBodyGzip : Bytes :=
  [31, 139, 8, 0, 0, 0, 0, 0, 0, 255, 171, 168, 160, 12, 0, 0, 18, 172, 210, 58, 64, 0, 0, 0]

def textResponse : Response :=
  (Response.new 200 textBody).withContentType ⟨ascii "text/plain", by decide⟩

def gzipHead : RequestHead (fun _ : Unit => Unit) :=
  { buf := ascii "GET / HTTP/1.1\r\nAccept-Encoding: gzip"
    methodRange := ⟨0, 3⟩
    targetRange := ⟨4, 5⟩
    version := .http11
    headerRanges := [(⟨16, 31⟩, ⟨33, 37⟩)]
    extensions := .new }

theorem compression_law_text :
    let gzip := fun data => if data = textBody then textBodyGzip else []
    let gunzip := fun data => if data = textBodyGzip then some textBody else none
    let config : WholeConfig := ⟨⟨[ascii "text/"], false⟩, 1, 64⟩
    let result := applyCompression (fun _ => none) gzip gzipHead config textResponse
    Transparent gunzip textResponse result ∧ result.body = textBodyGzip ∧
      finalizeResponse (fun _ => none) gzip none (some config) .completed gzipHead textResponse =
        result ∧
      finalizeResponse (fun _ => none) gzip none (some config) .failed gzipHead textResponse =
        varied textResponse := by
  intro gzip gunzip config result
  have hgunzip : ∀ data, gzip data ≠ [] → gunzip (gzip data) = some data := by
    intro data hne
    by_cases hdata : data = textBody
    · subst hdata
      rfl
    · exact absurd (if_neg hdata) hne
  obtain ⟨htransparent, hjoin, hfailed, -, -⟩ :=
    compression_law (fun _ => none) gzip hgunzip config gzipHead textResponse
  exact ⟨htransparent, by decide, hjoin .completed (.inl rfl), hfailed _ (by decide) (by decide)⟩

end Body

end FandheBackend.PluginCompression
