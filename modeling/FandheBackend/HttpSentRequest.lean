import FandheBackend.HttpClient
import FandheBackend.HttpConnectionRuns
import FandheBackend.HttpRequestGrammar
import FandheBackend.PluginWebrtcProxyHead

set_option autoImplicit false

namespace FandheBackend.HttpSentRequest
open StdBytes Utf8Text PatternSearch PatternSplit HttpRequestHead HttpRequestGrammar
open HttpBodyLength HttpChunked HttpChunkedGrammar HttpChunkedRoundTrip HttpConnection
open HttpConnectionStream HttpResponse
open PluginWebrtcProxyHead (headText flatMap_append_crlf)

section Texts

/-- Visible characters, no blanks: such a text stands in a line of a head as it is. -/
def Visible (text : Bytes) : Prop := IsText text ∧ ∀ b ∈ text, 32 < b ∧ b ≠ 127

structure FieldValue (value : Bytes) : Prop where
  text : IsText value
  trimmed : trimBy isOws value = value
  no_control : ∀ b ∈ value, b ≠ 9 → 32 ≤ b ∧ b ≠ 127

theorem Visible.no_ows {text : Bytes} (h : Visible text) : ∀ b ∈ text, isOws b = false := by
  intro b hb
  have hlow := (h.2 b hb).1
  cases hows : isOws b with
  | false => rfl
  | true =>
    rw [isOws, Bool.or_eq_true, beq_iff_eq, beq_iff_eq] at hows
    rcases hows with rfl | rfl
    · exact absurd hlow (by decide)
    · exact absurd hlow (by decide)

theorem Visible.no_cr {text : Bytes} (h : Visible text) : cr ∉ text :=
  fun hmem => absurd (h.2 cr hmem).1 (by decide)

theorem visible_of_all {text : Bytes} (h : text.all (fun b => 32 < b && b < 127) = true) :
    Visible text := by
  rw [List.all_eq_true] at h
  have hb : ∀ b ∈ text, 32 < b ∧ b < 127 := fun b hmem => by simpa using h b hmem
  refine ⟨isText_of_ascii fun b hmem => ?_, fun b hmem => ?_⟩
  · exact UInt8.lt_trans (hb b hmem).2 (by decide)
  · exact ⟨(hb b hmem).1, UInt8.ne_of_lt (hb b hmem).2⟩

theorem visible_numeral (n : ℕ) : Visible (numeral 10 n) := by
  have hdigit : ∀ b : UInt8, isAsciiDigit b = true → (32 < b && b < 127) = true := by
    intro b hb
    rw [isAsciiDigit, Bool.and_eq_true, decide_eq_true_eq, decide_eq_true_eq] at hb
    rw [Bool.and_eq_true, decide_eq_true_eq, decide_eq_true_eq]
    exact ⟨UInt8.lt_of_lt_of_le (by decide) hb.1, UInt8.lt_of_le_of_lt hb.2 (by decide)⟩
  exact visible_of_all (List.all_eq_true.mpr fun b hb => hdigit b (numeral_digits n b hb))

theorem denotes_numeral (n : ℕ) : Denotes (numeral 10 n) n :=
  ⟨numeral_ne_nil 10 n, numeral_digits n, digitsValue_numeral (by decide) (by decide) n⟩

theorem Visible.fieldValue {text : Bytes} (h : Visible text) : FieldValue text :=
  ⟨h.1, trimBy_eq_self isOws h.no_ows, fun b hb _ => ⟨UInt8.le_of_lt (h.2 b hb).1, (h.2 b hb).2⟩⟩

theorem FieldValue.no_cr {value : Bytes} (h : FieldValue value) : cr ∉ value :=
  fun hmem => absurd (h.no_control cr hmem (by decide)).1 (by decide)

theorem token_parts {name : Bytes} (h : isToken name = true) :
    name ≠ [] ∧ ∀ b ∈ name, isTchar b = true := by
  rw [isToken, Bool.and_eq_true, Bool.not_eq_true', List.all_eq_true] at h
  exact ⟨fun hnil => by simp [hnil] at h, h.2⟩

def fieldText (field : Bytes × Bytes) : Bytes := field.1 ++ ascii ": " ++ field.2

theorem headerLine_field {field : Bytes × Bytes} (hname : isToken field.1 = true)
    (hvalue : FieldValue field.2) :
    HeaderLine (fieldText field) field.1 field.2 ∧ cr ∉ fieldText field := by
  obtain ⟨hcolon, hcr⟩ := HttpClient.token_facts hname
  have htrim : trimBy isOws (32 :: field.2) = trimBy isOws field.2 := by simp [trimBy, isOws]
  refine ⟨⟨⟨32 :: field.2, ?_, ?_⟩, hcolon, token_parts hname, hvalue.text, hvalue.no_control⟩, ?_⟩
  · rw [fieldText, List.append_assoc]
    rfl
  · exact (htrim.trans hvalue.trimmed).symm
  · simp only [fieldText, List.mem_append, not_or]
    exact ⟨⟨hcr, by decide⟩, hvalue.no_cr⟩

def lineText (method target : Bytes) (version : HttpVersion) : Bytes :=
  method ++ 32 :: (target ++ 32 :: versionText version)

theorem requestLine_text {method target : Bytes} (hmethod : isToken method = true)
    (htarget : Visible target) (hne : target ≠ []) (version : HttpVersion) :
    RequestLine (lineText method target version) method target version where
  layout := rfl
  two_spaces := by
    have htchar := (token_parts hmethod).2
    have hmethod : method.count 32 = 0 :=
      List.count_eq_zero.mpr fun hmem => absurd (htchar 32 hmem) (by decide)
    have htarget : target.count 32 = 0 :=
      List.count_eq_zero.mpr fun hmem => absurd (htarget.2 32 hmem).1 (by decide)
    have hversion : (versionText version).count 32 = 0 :=
      List.count_eq_zero.mpr (space_not_mem_version version)
    rw [lineText, List.count_append, List.count_cons_self, List.count_append, List.count_cons_self,
      hmethod, htarget, hversion]
  method_token := token_parts hmethod
  target_text := ⟨hne, htarget.1⟩
  no_control := by
    have htchar : ∀ b : UInt8, isTchar b = true → 32 ≤ b ∧ b ≠ 127 := by
      apply forall_byte
      decide +kernel
    have hversion : ∀ b ∈ versionText version, 32 ≤ b ∧ b ≠ 127 := by
      cases version <;> decide +kernel
    intro b hb
    simp only [lineText, List.mem_append, List.mem_cons] at hb
    rcases hb with hb | rfl | hb | rfl | hb
    · exact htchar b ((token_parts hmethod).2 b hb)
    · decide
    · exact ⟨UInt8.le_of_lt (htarget.2 b hb).1, (htarget.2 b hb).2⟩
    · decide
    · exact hversion b hb

end Texts

section Heads
variable {TypeId : Type} {E : TypeId → Type}

/-- Lines without a CR that follow the grammar are read as the grammar says. -/
theorem parseRequestHead_headText {first method target : Bytes} {version : HttpVersion}
    {lines : List Bytes} {headers : List (Bytes × Bytes)}
    (hfirst : RequestLine first method target version) (hcount : lines.length ≤ maxHeaderCount)
    (hlines : List.Forall₂ (fun line h => HeaderLine line h.1 h.2) lines headers)
    (hcr : ∀ line ∈ first :: lines, cr ∉ line)
    (hfits : (headText (first :: lines)).length ≤ maxHeaderBytes) :
    ∃ head : RequestHead E, (∀ rest, parseRequestHead (headText (first :: lines) ++ rest) =
        .ok (.complete head (headText (first :: lines)).length)) ∧ head.method = method ∧
      head.target = target ∧ head.version = version ∧ head.headers = headers := by
  have hne : ∀ line ∈ lines, line ≠ [] := by
    clear hcount hcr hfits
    induction hlines with
    | nil => exact List.forall_mem_nil _
    | cons h _ ih =>
      obtain ⟨⟨raw, rfl, -⟩, -, -, -, -⟩ := h
      exact List.forall_mem_cons.mpr ⟨by simp, ih⟩
  have htext : headText (first :: lines) =
      first ++ lines.flatMap (crlf ++ ·) ++ ([cr, lf, cr, lf] ++ []) := by
    rw [headText, flatMap_append_crlf, List.append_assoc]
    rfl
  have hterm := findFirst_double (show lf ≠ cr by decide) (hcr first List.mem_cons_self)
    (fun line hline => ⟨hne line hline, hcr line (List.mem_cons_of_mem _ hline)⟩) []
  have hsplit : split crlf (first ++ lines.flatMap (crlf ++ ·)) = first :: lines := split_pieces hcr
  obtain ⟨head, hsection, hparts⟩ := (parseHeaderSection_iff (E := E) _ method target version
    headers).mpr ⟨first, lines, hsplit, hfirst, hcount, hlines⟩
  refine ⟨head, parseRequestHead_append_complete ?_, hparts⟩
  have hlen : (first ++ lines.flatMap (crlf ++ ·)).length + terminator.length =
      (headText (first :: lines)).length := by
    rw [htext]
    exact List.length_append.symm
  have htake : (headText (first :: lines)).take (first ++ lines.flatMap (crlf ++ ·)).length =
      first ++ lines.flatMap (crlf ++ ·) := by
    rw [htext, List.take_left]
  have hfirst' : findFirst terminator (headText (first :: lines)) =
      some (first ++ lines.flatMap (crlf ++ ·)).length := by
    rw [htext]
    exact hterm
  have hfit : ¬ (headText (first :: lines)).length > maxHeaderBytes := Nat.not_lt.mpr hfits
  simp only [parseRequestHead, findSubslice_terminator, hfirst', hlen, hfit, ↓reduceIte, htake,
    hsection]

theorem header_eq_head? {TypeId : Type} {E : TypeId → Type} (head : RequestHead E) (name : Bytes) :
    head.header name = (namedValues head.headers name).head? := by
  rw [RequestHead.header, namedValues, List.head?_map, List.head?_filter,
    RequestHead.headers, List.find?_map, Option.map_map]
  rfl

end Heads

section Bodies

inductive SentBody where
  | none
  | length (body : Bytes)
  | chunks (ds : List Bytes)

namespace SentBody

def bytes : SentBody → Bytes
  | .none => []
  | .length body => body
  | .chunks ds => ds.flatten

def wire : SentBody → Bytes
  | .none => []
  | .length body => body
  | .chunks ds => encodeBody ds

def Framed (fields : List (Bytes × Bytes)) (version : HttpVersion) : SentBody → Prop
  | .none => namedValues fields (ascii "transfer-encoding") = [] ∧
      namedValues fields (ascii "content-length") = []
  | .length body => namedValues fields (ascii "transfer-encoding") = [] ∧
      namedValues fields (ascii "content-length") = [numeral 10 body.length]
  | .chunks _ => version = .http11 ∧
      namedValues fields (ascii "transfer-encoding") = [ascii "chunked"] ∧
      namedValues fields (ascii "content-length") = []

def Fits (usizeMax : ℕ) (limit : UInt64) : SentBody → Prop
  | .none => True
  | .length body => body.length ≤ usizeMax ∧ body.length ≤ limit.toNat
  | .chunks ds => ds.flatten.length ≤ limit.toNat ∧
      (ds.filter fun d => !d.isEmpty).length ≤ maxChunkCount - 1

end SentBody

structure Sent where
  method : Bytes
  target : Bytes
  version : HttpVersion
  fields : List (Bytes × Bytes)
  body : SentBody

namespace Sent

def head (sent : Sent) : Bytes :=
  headText (lineText sent.method sent.target sent.version :: sent.fields.map fieldText)

def text (sent : Sent) : Bytes := sent.head ++ sent.body.wire

structure Sendable (usizeMax : ℕ) (limit : UInt64) (sent : Sent) : Prop where
  method : isToken sent.method = true
  target : Visible sent.target
  target_ne_nil : sent.target ≠ []
  fields : ∀ field ∈ sent.fields, isToken field.1 = true ∧ FieldValue field.2
  count : sent.fields.length ≤ maxHeaderCount
  fits : sent.head.length ≤ maxHeaderBytes
  framed : sent.body.Framed sent.fields sent.version
  body : sent.body.Fits usizeMax limit

variable {TypeId : Type} {E : TypeId → Type}

structure ReadAs (sent : Sent) (head : RequestHead E) : Prop where
  method : head.method = sent.method
  target : head.target = sent.target
  version : head.version = sent.version
  headers : head.headers = sent.fields

theorem ReadAs.header {sent : Sent} {head : RequestHead E} (h : sent.ReadAs head) (name : Bytes) :
    head.header name = (namedValues sent.fields name).head? := by
  rw [header_eq_head?, h.headers]

theorem parseRequestHead_head {usizeMax : ℕ} {limit : UInt64} {sent : Sent}
    (h : sent.Sendable usizeMax limit) :
    ∃ head : RequestHead E, (∀ rest, parseRequestHead (sent.head ++ rest) =
      .ok (.complete head sent.head.length)) ∧ sent.ReadAs head := by
  have hfirst := requestLine_text h.method h.target h.target_ne_nil sent.version
  have hlines : ∀ field ∈ sent.fields,
      HeaderLine (fieldText field) field.1 field.2 ∧ cr ∉ fieldText field :=
    fun field hfield => headerLine_field (h.fields field hfield).1 (h.fields field hfield).2
  obtain ⟨head, hparse, hmethod, htarget, hversion, hheaders⟩ := parseRequestHead_headText (E := E)
    hfirst (by rw [List.length_map]; exact h.count)
    (List.forall₂_map_left_iff.mpr (List.forall₂_same.mpr fun field hfield => (hlines field hfield).1))
    (List.forall_mem_cons.mpr ⟨fun hmem => absurd (hfirst.no_control cr hmem).1 (by decide),
      fun line hline => by
        obtain ⟨field, hfield, rfl⟩ := List.mem_map.mp hline
        exact (hlines field hfield).2⟩) h.fits
  exact ⟨head, hparse, hmethod, htarget, hversion, hheaders⟩

theorem framedSpec_length {usizeMax : ℕ} {limit : UInt64} {head : RequestHead E} {body : Bytes}
    (htransfer : namedValues head.headers (ascii "transfer-encoding") = [])
    (hlength : namedValues head.headers (ascii "content-length") = [numeral 10 body.length])
    (husize : body.length ≤ usizeMax) (hlimit : body.length ≤ limit.toNat) (rest : Bytes) :
    framedSpec usizeMax limit head (body ++ rest) = .ok (body, rest) := by
  have hparse : parseContentLength (numeral 10 body.length) = .ok body.length :=
    (parseContentLength_eq_ok_iff _ _).mpr
      ⟨denotes_numeral body.length, hlimit.trans_lt limit.toNat_lt⟩
  have hloop : contentLengthLoop head.headers none = .ok (some body.length) :=
    (contentLengthLoop_none _ _).mpr (.inr ⟨_, _, hlength, hparse, rfl⟩)
  have hshort : ¬ (body ++ rest).length < body.length := by
    rw [List.length_append]
    exact Nat.not_lt.mpr (Nat.le_add_right _ _)
  have htake : bodySpec usizeMax body.length (body ++ rest) = .ok (body, rest) := by
    rw [bodySpec, if_neg (Nat.not_lt.mpr husize), if_neg hshort, List.take_left, List.drop_left]
  rw [framedSpec, bodyLength_of_no_transferEncoding limit htransfer, hloop]
  cases body with
  | nil => rfl
  | cons b bs =>
    simp only [List.length_cons] at hlimit htake ⊢
    rw [if_neg (Nat.not_lt.mpr hlimit)]
    exact htake

theorem framedSpec_sent {usizeMax : ℕ} {limit : UInt64} {sent : Sent}
    (h : sent.Sendable usizeMax limit) {head : RequestHead E} (hread : sent.ReadAs head)
    (rest : Bytes) :
    framedSpec usizeMax limit head (sent.body.wire ++ rest) = .ok (sent.body.bytes, rest) := by
  have hframed := h.framed
  have hfits := h.body
  rw [← hread.headers, ← hread.version] at hframed
  cases hbody : sent.body with
  | none =>
    rw [hbody] at hframed
    have hloop : contentLengthLoop head.headers none = .ok none :=
      (contentLengthLoop_none _ _).mpr (.inl ⟨hframed.2, rfl⟩)
    rw [framedSpec, bodyLength_of_no_transferEncoding limit hframed.1, hloop]
    rfl
  | length body =>
    rw [hbody] at hframed hfits
    exact framedSpec_length hframed.1 hframed.2 hfits.1 hfits.2 rest
  | chunks ds =>
    rw [hbody] at hframed hfits
    obtain ⟨hversion, htransfer, hlength⟩ := hframed
    have hchunked : bodyLengthWithLimit head limit = .ok .chunked := by
      rw [bodyLength_of_transferEncoding limit htransfer, if_neg, if_neg (by rw [hlength]; simp)]
      rw [not_or, not_not, not_not]
      exact ⟨hversion, rfl, by decide⟩
    obtain ⟨d, hfeed⟩ := feed_section (section_encodeBody hfits.1 hfits.2) rest []
    rw [framedSpec, hchunked]
    simp only [chunkedSpec, SentBody.wire, hfeed]
    rfl

/-- The request that a reader with these limits makes of a text, whatever comes after it. -/
structure ReadBy (usizeMax : ℕ) (limit : UInt64) (sent : Sent) (request : Request E) : Prop where
  head : sent.ReadAs request.head
  body : request.body = sent.body.bytes
  next : ∀ rest, nextRequest usizeMax limit (sent.text ++ rest) = .ok (some request, rest)

theorem exists_readBy {usizeMax : ℕ} {limit : UInt64} {sent : Sent}
    (h : sent.Sendable usizeMax limit) :
    ∃ request : Request E, sent.ReadBy usizeMax limit request := by
  obtain ⟨head, hparse, hread⟩ := parseRequestHead_head (E := E) h
  refine ⟨⟨head, sent.body.bytes⟩, hread, rfl, fun rest => ?_⟩
  have hdrop : (sent.head ++ (sent.body.wire ++ rest)).drop sent.head.length =
      sent.body.wire ++ rest := List.drop_left
  rw [text, List.append_assoc]
  simp only [nextRequest, headSpec, hparse, hdrop, framedSpec_sent h hread rest]

end Sent

end Bodies

end FandheBackend.HttpSentRequest
