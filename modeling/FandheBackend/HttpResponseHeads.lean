import FandheBackend.HttpResponseFraming

set_option autoImplicit false

namespace FandheBackend.HttpResponse
open StdBytes HttpRequestHead HttpCookie HttpClient PatternSearch PatternSplit

namespace Response

/-- `serialize_chunked_head`, write by write. -/
def writeChunkedHead (r : Response) (keepAlive : Bool) : Bytes :=
  let out := ascii "HTTP/1.1 "
  let out := out ++ numeral 10 r.status.toNat
  let out := out ++ [32] ++ reasonPhrase r.status ++ ascii "\r\n"
  let out := match r.contentType with
    | some contentType => out ++ ascii "Content-Type: " ++ contentType.text ++ ascii "\r\n"
    | none => out
  let out := match r.allow with
    | some allow => out ++ ascii "Allow: " ++ allow.toHeaderValue ++ ascii "\r\n"
    | none => out
  let out := r.extraHeaders.foldl (fun out h =>
    if r.contentType.isSome && eqIgnoreAsciiCase h.name (ascii "content-type") then out
    else if r.allow.isSome && eqIgnoreAsciiCase h.name (ascii "allow") then out
    else out ++ h.name ++ ascii ": " ++ h.value ++ ascii "\r\n") out
  let out := if !isBodylessStatus r.status then out ++ ascii "Transfer-Encoding: chunked\r\n"
    else out
  let out := if !keepAlive then out ++ ascii "Connection: close\r\n" else out
  out ++ ascii "\r\n"

def writeStreamingHeadHttp10 (r : Response) : Bytes :=
  let out := ascii "HTTP/1.1 "
  let out := out ++ numeral 10 r.status.toNat
  let out := out ++ [32] ++ reasonPhrase r.status ++ ascii "\r\n"
  let out := match r.contentType with
    | some contentType => out ++ ascii "Content-Type: " ++ contentType.text ++ ascii "\r\n"
    | none => out
  let out := match r.allow with
    | some allow => out ++ ascii "Allow: " ++ allow.toHeaderValue ++ ascii "\r\n"
    | none => out
  let out := r.extraHeaders.foldl (fun out h =>
    if r.contentType.isSome && eqIgnoreAsciiCase h.name (ascii "content-type") then out
    else if r.allow.isSome && eqIgnoreAsciiCase h.name (ascii "allow") then out
    else out ++ h.name ++ ascii ": " ++ h.value ++ ascii "\r\n") out
  let out := out ++ ascii "Connection: close\r\n"
  out ++ ascii "\r\n"

end Response

theorem writeChunkedHead_eq (r : Response) (keepAlive : Bool) :
    r.writeChunkedHead keepAlive = r.serializeChunkedHead keepAlive := by
  have hclose : ascii "Connection: close\r\n" =
      headerLine (ascii "Connection", ascii "close") := rfl
  have hchunked : ascii "Transfer-Encoding: chunked\r\n" =
      headerLine (ascii "Transfer-Encoding", ascii "chunked") := rfl
  -- the copy in this serialiser is the code of `write_fields`
  have hcopy : r.writeChunkedHead keepAlive =
      (let out := r.extraHeaders.foldl r.writeExtraHeader (r.writeAllow (r.writeContentType
        (statusLine r.status ++ crlf)))
      let out := if !Response.isBodylessStatus r.status then
        out ++ ascii "Transfer-Encoding: chunked\r\n" else out
      let out := if !keepAlive then out ++ ascii "Connection: close\r\n" else out
      out ++ ascii "\r\n") := rfl
  rw [hcopy, write_fields, Response.serializeChunkedHead, Response.headBytes,
    Response.chunkedFields, Response.connectionField, hclose, hchunked, crlf_eq]
  cases keepAlive <;> cases Response.isBodylessStatus r.status <;> simp

theorem writeStreamingHeadHttp10_eq (r : Response) :
    r.writeStreamingHeadHttp10 = r.serializeStreamingHeadHttp10 := by
  have hclose : ascii "Connection: close\r\n" =
      headerLine (ascii "Connection", ascii "close") := rfl
  have hcopy : r.writeStreamingHeadHttp10 =
      r.extraHeaders.foldl r.writeExtraHeader (r.writeAllow (r.writeContentType
        (statusLine r.status ++ crlf))) ++ ascii "Connection: close\r\n" ++ ascii "\r\n" := rfl
  rw [hcopy, write_fields, Response.serializeStreamingHeadHttp10, Response.headBytes,
    Response.connectionField, hclose, crlf_eq]
  simp

section Lines

def headLines (bytes : Bytes) : List Bytes :=
  match findSubslice bytes terminator with
  | some pos => split crlf (bytes.take pos)
  | none => []

/-- The lines that say where the body ends, and what becomes of the connection. -/
def isFraming (line : Bytes) : Bool :=
  isNamed (ascii "content-length") line || isNamed (ascii "transfer-encoding") line ||
    isNamed (ascii "connection") line

def otherLines (bytes : Bytes) : List Bytes := (headLines bytes).tail.filter (!isFraming ·)

def framingLines (bytes : Bytes) : List Bytes := (headLines bytes).tail.filter isFraming

def linesNamed (name bytes : Bytes) : List Bytes := (headLines bytes).tail.filter (isNamed name)

theorem headLines_headBytes {status : UInt16} {fields : List (Bytes × Bytes)}
    (h : ∀ f ∈ fields, FieldReadable f) (body : Bytes) :
    headLines (Response.headBytes status fields ++ body) =
      statusLine status :: fields.map fieldLine := by
  obtain ⟨hfirst, hsplit⟩ := headBytes_cut h body
  rw [headLines, hfirst]
  simp only
  rw [headBytes_text, List.take_left]
  exact hsplit

theorem isFraming_stored (r : Response) : ∀ line ∈ r.fields.map fieldLine,
    isFraming line = false := by
  intro line hline
  obtain ⟨f, hf, rfl⟩ := List.mem_map.mp hline
  obtain ⟨hreadable, hreserved⟩ := fields_facts r f hf
  have hname := isNamed_fieldLine hreadable.name_no_colon
  simp only [isReserved, List.any_cons, List.any_nil, Bool.or_false, Bool.or_eq_false_iff]
    at hreserved
  simp [isFraming, hname, hreserved]

/-- What a reader sees of a head: the stored headers, and those that the serialiser adds. -/
structure Head (r : Response) (bytes : Bytes) (managed : List (Bytes × Bytes)) : Prop where
  status : (headLines bytes).head? = some (statusLine r.status)
  stored : otherLines bytes = r.fields.map fieldLine
  framing : framingLines bytes = managed.map fieldLine
  named : ∀ name ∈ [ascii "content-length", ascii "connection", ascii "transfer-encoding"],
    linesNamed name bytes = (managed.filter fun f => eqIgnoreAsciiCase f.1 name).map fieldLine

theorem headBytes_head (r : Response) {managed : List (Bytes × Bytes)}
    (hreadable : ∀ f ∈ managed, FieldReadable f)
    (hframing : ∀ f ∈ managed, isFraming (fieldLine f) = true) (body : Bytes) :
    Head r (Response.headBytes r.status (r.fields ++ managed) ++ body) managed := by
  have hlines : headLines (Response.headBytes r.status (r.fields ++ managed) ++ body) =
      statusLine r.status :: (r.fields ++ managed).map fieldLine := by
    apply headLines_headBytes
    intro f hf
    rcases List.mem_append.mp hf with hf | hf
    · exact (fields_facts r f hf).1
    · exact hreadable f hf
  have hstored := isFraming_stored r
  have hmanaged : ∀ line ∈ managed.map fieldLine, isFraming line = true := by
    intro line hline
    obtain ⟨f, hf, rfl⟩ := List.mem_map.mp hline
    exact hframing f hf
  constructor
  · rw [hlines, List.head?_cons]
  · rw [otherLines, hlines, List.tail_cons, List.map_append, List.filter_append,
      List.filter_eq_self.mpr fun line h => by simp [hstored line h],
      List.filter_eq_nil_iff.mpr fun line h => by simp [hmanaged line h], List.append_nil]
  · rw [framingLines, hlines, List.tail_cons, List.map_append, List.filter_append,
      List.filter_eq_nil_iff.mpr fun line h => by simp [hstored line h],
      List.filter_eq_self.mpr hmanaged, List.nil_append]
  · intro name hname
    rw [linesNamed, hlines, List.tail_cons]
    exact filter_isNamed r hreadable hname

theorem serialize_head {r : Response} (hbody : r.body = []) (keepAlive : Bool) :
    Head r (r.serialize keepAlive)
      ((ascii "Content-Length", ascii "0") :: Response.connectionField keepAlive) := by
  have hnumeral : numeral 10 0 = ascii "0" := rfl
  have hfields : r.fixedFields keepAlive = r.fields ++
      ((ascii "Content-Length", ascii "0") :: Response.connectionField keepAlive) := by
    rw [Response.fixedFields, hbody, List.length_nil, hnumeral, List.append_assoc,
      List.singleton_append]
  rw [Response.serialize, hfields]
  apply headBytes_head r
  · rw [List.forall_mem_cons]
    exact ⟨⟨by decide, by decide, by decide⟩, connectionField_facts keepAlive⟩
  · cases keepAlive <;> decide

theorem chunkedHead_head (r : Response) (keepAlive : Bool) :
    Head r (r.serializeChunkedHead keepAlive)
      ((if Response.isBodylessStatus r.status then []
        else [(ascii "Transfer-Encoding", ascii "chunked")]) ++
        Response.connectionField keepAlive) := by
  have hfields : r.chunkedFields keepAlive = r.fields ++
      ((if Response.isBodylessStatus r.status then []
        else [(ascii "Transfer-Encoding", ascii "chunked")]) ++
        Response.connectionField keepAlive) := by
    rw [Response.chunkedFields, List.append_assoc]
    cases Response.isBodylessStatus r.status <;> rfl
  have hreadable := chunkedFields_readable r keepAlive
  rw [Response.serializeChunkedHead, hfields, ← List.append_nil (Response.headBytes _ _)]
  apply headBytes_head r
  · intro f hf
    rw [hfields] at hreadable
    exact hreadable f (List.mem_append_right _ hf)
  · cases Response.isBodylessStatus r.status <;> cases keepAlive <;> decide

theorem streamingHeadHttp10_head (r : Response) :
    Head r r.serializeStreamingHeadHttp10 [(ascii "Connection", ascii "close")] := by
  rw [Response.serializeStreamingHeadHttp10, ← List.append_nil (Response.headBytes _ _)]
  apply headBytes_head r
  · exact connectionField_facts false
  · decide

end Lines

/-- The three copies write the same head, but for the lines of the framing. -/
theorem serialisers_agree {r : Response} (hbody : r.body = []) (keepAlive : Bool) (out : Bytes) :
    ∃ fixed, r.serializeInto keepAlive out = some fixed ∧
      (headLines fixed).head? = some (statusLine r.status) ∧
      (∀ bytes ∈ [r.writeChunkedHead keepAlive, r.writeStreamingHeadHttp10],
        (headLines bytes).head? = (headLines fixed).head? ∧ otherLines bytes = otherLines fixed) ∧
      framingLines fixed = ascii "Content-Length: 0" ::
        (if keepAlive then [] else [ascii "Connection: close"]) ∧
      framingLines (r.writeChunkedHead keepAlive) =
        (if Response.isBodylessStatus r.status then [] else [ascii "Transfer-Encoding: chunked"]) ++
          (if keepAlive then [] else [ascii "Connection: close"]) ∧
      framingLines r.writeStreamingHeadHttp10 = [ascii "Connection: close"] ∧
      ∀ bytes ∈ [fixed, r.writeChunkedHead keepAlive, r.writeStreamingHeadHttp10],
        linesNamed (ascii "content-length") bytes = [] ∨
          linesNamed (ascii "transfer-encoding") bytes = [] := by
  have hlength : r.body.length < 2 ^ 64 := by rw [hbody]; decide
  obtain hfixed := serialize_head hbody keepAlive
  obtain hchunked := chunkedHead_head r keepAlive
  obtain hhttp10 := streamingHeadHttp10_head r
  refine ⟨r.serialize keepAlive, serializeInto_eq hlength keepAlive out, hfixed.status, ?_, ?_, ?_,
    ?_, ?_⟩
  · intro bytes hbytes
    simp only [List.mem_cons, List.not_mem_nil, or_false] at hbytes
    rcases hbytes with rfl | rfl
    · rw [writeChunkedHead_eq]
      exact ⟨hchunked.status.trans hfixed.status.symm, hchunked.stored.trans hfixed.stored.symm⟩
    · rw [writeStreamingHeadHttp10_eq]
      exact ⟨hhttp10.status.trans hfixed.status.symm, hhttp10.stored.trans hfixed.stored.symm⟩
  · rw [hfixed.framing]
    cases keepAlive <;> decide
  · rw [writeChunkedHead_eq, hchunked.framing]
    cases Response.isBodylessStatus r.status <;> cases keepAlive <;> decide
  · rw [writeStreamingHeadHttp10_eq, hhttp10.framing]
    decide
  · intro bytes hbytes
    simp only [List.mem_cons, List.not_mem_nil, or_false] at hbytes
    rcases hbytes with rfl | rfl | rfl
    · right
      rw [hfixed.named _ (by decide)]
      cases keepAlive <;> decide
    · left
      rw [writeChunkedHead_eq, hchunked.named _ (by decide)]
      cases Response.isBodylessStatus r.status <;> cases keepAlive <;> decide
    · left
      rw [writeStreamingHeadHttp10_eq, hhttp10.named _ (by decide)]
      decide

theorem serialisers_agree_no_content : ∃ fixed,
    (Response.empty 204).serializeInto true [] = some fixed ∧
      framingLines fixed = [ascii "Content-Length: 0"] ∧
      framingLines ((Response.empty 204).writeChunkedHead true) = [] := by
  obtain ⟨fixed, hfixed, -, -, hframing, hchunked, -⟩ :=
    serialisers_agree (by decide : (Response.empty 204).body = []) true []
  exact ⟨fixed, hfixed, hframing, hchunked⟩

end FandheBackend.HttpResponse
