import FandheBackend.HttpResponseBuilder
import FandheBackend.HttpClient
import FandheBackend.PatternSplit

set_option autoImplicit false

namespace FandheBackend.HttpResponse
open StdBytes HttpRequestHead HttpCookie HttpClient PatternSearch PatternSplit

/-- The loop of `write_decimal` at the index above the next digit. -/
def decimalLoop (digits : Bytes) : ℕ → ℕ → Option (Bytes × ℕ)
  | 0, _ => none
  | i + 1, n =>
    let digits := digits.set i (48 + UInt8.ofNat (n % 10))
    let n := n / 10
    if n = 0 then some (digits, i) else decimalLoop digits i n

/-- `none` where the digits do not fit. -/
def writeDecimal (out : Bytes) (n : ℕ) : Option Bytes :=
  (decimalLoop (List.replicate 20 0) 20 n).map fun r => out ++ r.1.drop r.2

/-- `Vec::clear`. -/
def vecClear (_out : Bytes) : Bytes := []

namespace Response

def writeExtraHeader (r : Response) (out : Bytes) (h : ExtraHeader) : Bytes :=
  if r.contentType.isSome && eqIgnoreAsciiCase h.name (ascii "content-type") then out
  else if r.allow.isSome && eqIgnoreAsciiCase h.name (ascii "allow") then out
  else out ++ h.name ++ ascii ": " ++ h.value ++ ascii "\r\n"

def writeContentType (r : Response) (out : Bytes) : Bytes :=
  match r.contentType with
  | some contentType => out ++ ascii "Content-Type: " ++ contentType.text ++ ascii "\r\n"
  | none => out

def writeAllow (r : Response) (out : Bytes) : Bytes :=
  match r.allow with
  | some allow => out ++ ascii "Allow: " ++ allow.toHeaderValue ++ ascii "\r\n"
  | none => out

def serializeInto (r : Response) (keepAlive : Bool) (out : Bytes) : Option Bytes := do
  let out := vecClear out
  let out := out ++ ascii "HTTP/1.1 "
  let out ← writeDecimal out r.status.toNat
  let out := out ++ [32] ++ reasonPhrase r.status ++ ascii "\r\n"
  let out := r.writeContentType out
  let out := r.writeAllow out
  let out := r.extraHeaders.foldl r.writeExtraHeader out
  let out := out ++ ascii "Content-Length: "
  let out ← writeDecimal out r.body.length
  let out := out ++ ascii "\r\n"
  let out := if !keepAlive then out ++ ascii "Connection: close\r\n" else out
  let out := out ++ ascii "\r\n"
  return out ++ r.body

end Response

theorem digit_byte {n : ℕ} : (48 : UInt8) + UInt8.ofNat (n % 10) = digitByte (n % 10) := by
  have hlt : n % 10 < 10 := Nat.mod_lt n (by decide)
  interval_cases n % 10 <;> decide

theorem numeral_of_lt {n : ℕ} (h : n < 10) : numeral 10 n = [digitByte n] := by
  interval_cases n <;> decide

theorem numeral_step {n : ℕ} (h : n / 10 ≠ 0) :
    numeral 10 n = numeral 10 (n / 10) ++ [digitByte (n % 10)] := by
  have hn : n ≠ 0 := by
    rintro rfl
    exact h rfl
  rw [numeral, numeral, if_neg hn, if_neg h, Nat.digits_def' (by decide) (Nat.pos_of_ne_zero hn)]
  simp

theorem drop_set_self {digits : Bytes} {i : ℕ} (h : i < digits.length) (b : UInt8) :
    (digits.set i b).drop i = b :: digits.drop (i + 1) := by
  have hlen : i < (digits.set i b).length := by rwa [List.length_set]
  rw [List.drop_eq_getElem_cons hlen, List.getElem_set_self, List.drop_set_of_lt (by omega)]

theorem decimalLoop_eq {digits : Bytes} {i n : ℕ} (hlen : i ≤ digits.length) (hn : n < 10 ^ i)
    (hpos : 0 < i) :
    ∃ r, decimalLoop digits i n = some r ∧ r.1.drop r.2 = numeral 10 n ++ digits.drop i := by
  induction i generalizing digits n with
  | zero => omega
  | succ i ih =>
    have hdrop := drop_set_self (Nat.lt_of_succ_le hlen) (digitByte (n % 10))
    by_cases hzero : n / 10 = 0
    · have hdigit : n < 10 := by omega
      refine ⟨(digits.set i (digitByte (n % 10)), i), ?_, ?_⟩
      · rw [decimalLoop, digit_byte, if_pos hzero]
      · rw [hdrop, Nat.mod_eq_of_lt hdigit, numeral_of_lt hdigit]
        rfl
    · have hquot : n / 10 < 10 ^ i := by
        rw [Nat.pow_succ] at hn
        omega
      have hi : 0 < i := by
        by_contra hnot
        obtain rfl : i = 0 := by omega
        omega
      have hset : i ≤ (digits.set i (digitByte (n % 10))).length := by
        rw [List.length_set]
        omega
      obtain ⟨r, hr, hd⟩ := ih hset hquot hi
      refine ⟨r, ?_, ?_⟩
      · rw [decimalLoop, digit_byte, if_neg hzero]
        exact hr
      · rw [hd, hdrop, numeral_step hzero, List.append_assoc]
        rfl

theorem writeDecimal_eq (out : Bytes) {n : ℕ} (h : n < 2 ^ 64) :
    writeDecimal out n = some (out ++ numeral 10 n) := by
  have hlen : 20 ≤ (List.replicate 20 (0 : UInt8)).length := by simp
  have hdigits : n < 10 ^ 20 := h.trans (by decide)
  obtain ⟨r, hr, hdrop⟩ := decimalLoop_eq hlen hdigits (by decide)
  rw [writeDecimal, hr, Option.map_some, hdrop]
  simp

def isWritten (r : Response) (h : ExtraHeader) : Bool :=
  !(r.contentType.isSome && eqIgnoreAsciiCase h.name (ascii "content-type")) &&
    !(r.allow.isSome && eqIgnoreAsciiCase h.name (ascii "allow"))

theorem crlf_eq : ascii "\r\n" = crlf := rfl

theorem headerLine_eq (name value : Bytes) :
    headerLine (name, value) = name ++ (ascii ": " ++ (value ++ crlf)) := by
  simp only [headerLine, List.append_assoc]

theorem writeExtraHeader_eq (r : Response) (out : Bytes) (h : ExtraHeader) :
    r.writeExtraHeader out h =
      out ++ if isWritten r h then headerLine (h.name, h.value) else [] := by
  unfold Response.writeExtraHeader isWritten
  cases r.contentType.isSome && eqIgnoreAsciiCase h.name (ascii "content-type") with
  | true => simp
  | false =>
    cases r.allow.isSome && eqIgnoreAsciiCase h.name (ascii "allow") with
    | true => simp
    | false => simp [headerLine_eq, crlf_eq]

theorem foldl_writeExtraHeader (r : Response) (headers : List ExtraHeader) (out : Bytes) :
    headers.foldl r.writeExtraHeader out =
      out ++ ((headers.filter (isWritten r)).map fun h => (h.name, h.value)).flatMap
        headerLine := by
  induction headers generalizing out with
  | nil => simp
  | cons h headers ih =>
    rw [List.foldl_cons, ih, writeExtraHeader_eq, List.filter_cons]
    split_ifs
    · rw [List.map_cons, List.flatMap_cons, List.append_assoc]
    · rw [List.append_nil]

theorem write_fields (r : Response) (out : Bytes) :
    r.extraHeaders.foldl r.writeExtraHeader (r.writeAllow (r.writeContentType out)) =
      out ++ r.fields.flatMap headerLine := by
  have hextra := foldl_writeExtraHeader r r.extraHeaders
  unfold isWritten at hextra
  have htype : ascii "Content-Type: " = ascii "Content-Type" ++ ascii ": " := rfl
  have hallow : ascii "Allow: " = ascii "Allow" ++ ascii ": " := rfl
  rw [hextra, Response.fields, List.flatMap_append, List.flatMap_append]
  cases hc : r.contentType with
  | none =>
    cases ha : r.allow with
    | none => simp [Response.writeAllow, Response.writeContentType, hc, ha]
    | some allow =>
      simp [Response.writeAllow, Response.writeContentType, hc, ha, headerLine_eq, crlf_eq, hallow]
  | some contentType =>
    cases ha : r.allow with
    | none =>
      simp [Response.writeAllow, Response.writeContentType, hc, ha, headerLine_eq, crlf_eq, htype]
    | some allow =>
      simp [Response.writeAllow, Response.writeContentType, hc, ha, headerLine_eq, crlf_eq, htype,
        hallow]

theorem serializeInto_eq {r : Response} (h : r.body.length < 2 ^ 64) (keepAlive : Bool)
    (out : Bytes) : r.serializeInto keepAlive out = some (r.serialize keepAlive) := by
  have hstatus : r.status.toNat < 2 ^ 64 := r.status.toNat_lt.trans (by decide)
  have hlength : ascii "Content-Length: " = ascii "Content-Length" ++ ascii ": " := rfl
  have hclose : ascii "Connection: close\r\n" =
      ascii "Connection" ++ (ascii ": " ++ (ascii "close" ++ crlf)) := rfl
  have hspace : ascii " " = [32] := rfl
  simp only [Response.serializeInto, vecClear, writeDecimal_eq _ hstatus, writeDecimal_eq _ h,
    Option.bind_eq_bind, Option.bind_some, write_fields]
  cases keepAlive <;>
    simp [Response.serialize, Response.headBytes, Response.fixedFields, Response.connectionField,
      statusLine, headerLine_eq, crlf_eq, hlength, hclose, hspace]

def fieldLine (field : Bytes × Bytes) : Bytes := field.1 ++ ascii ": " ++ field.2

def Response.headerLines (r : Response) (keepAlive : Bool) : List Bytes :=
  (r.fixedFields keepAlive).map fieldLine

def isNamed (name line : Bytes) : Bool := eqIgnoreAsciiCase (line.takeWhile (· != 58)) name

/-- Bytes that a reader can cut into the head and the body of a response in one way only. -/
structure Framed (r : Response) (keepAlive : Bool) (bytes : Bytes) : Prop where
  layout : bytes = statusLine r.status ++ crlf ++
    (r.headerLines keepAlive).flatMap (· ++ crlf) ++ crlf ++ r.body
  cut : ∃ head, findSubslice bytes terminator = some head.length ∧
    bytes = head ++ (terminator ++ r.body) ∧
    split crlf head = statusLine r.status :: r.headerLines keepAlive
  no_line_end : ∀ line ∈ r.headerLines keepAlive, cr ∉ line ∧ lf ∉ line
  nul_in_content_type : ∀ line ∈ r.headerLines keepAlive, (0 : UInt8) ∈ line →
    ∃ contentType, r.contentType = some contentType ∧
      line = fieldLine (ascii "Content-Type", contentType.text)
  one_length : ∃ digits, (r.headerLines keepAlive).filter (isNamed (ascii "content-length")) =
      [fieldLine (ascii "Content-Length", digits)] ∧
    digits.all isAsciiDigit = true ∧ digitsValue 10 digits = r.body.length
  no_transfer_encoding :
    (r.headerLines keepAlive).filter (isNamed (ascii "transfer-encoding")) = []
  connection : (r.headerLines keepAlive).filter (isNamed (ascii "connection")) =
    if keepAlive then [] else [fieldLine (ascii "Connection", ascii "close")]

theorem not_mem_of_allowed {s : Bytes} (h : s.any isForbiddenInValue = false) {b : UInt8}
    (hb : isForbiddenInValue b = true) : b ∉ s :=
  fun hmem => List.any_eq_false.mp h b hmem hb

theorem fieldLine_allowed {name value : Bytes} (hname : name.any isForbiddenInValue = false)
    (hvalue : value.any isForbiddenInValue = false) :
    (fieldLine (name, value)).any isForbiddenInValue = false := by
  simp only [fieldLine, List.any_append, hname, hvalue]
  rfl

theorem allow_allowed (a : AllowedMethods) : a.toHeaderValue.any isForbiddenInValue = false := by
  rw [List.any_eq_false]
  intro b hb
  obtain hsep | ⟨m, hm, hb⟩ := mem_join hb
  · exact List.any_eq_false.mp (by decide : (ascii ", ").any isForbiddenInValue = false) b hsep
  · exact List.any_eq_false.mp (token_allowed (a.tokens m hm)) b hb

/-- Only the literal of `with_content_type` may hold what `with_header` refuses. -/
theorem fields_allowed (r : Response) {f : Bytes × Bytes} (hf : f ∈ r.fields) :
    (fieldLine f).any isForbiddenInValue = false ∨
      ∃ contentType, r.contentType = some contentType ∧
        f = (ascii "Content-Type", contentType.text) := by
  simp only [Response.fields, List.mem_append] at hf
  obtain (hf | hf) | hf := hf
  · cases hc : r.contentType with
    | none => simp [hc] at hf
    | some contentType => exact .inr ⟨contentType, rfl, by simpa [hc] using hf⟩
  · cases ha : r.allow with
    | none => simp [ha] at hf
    | some allow =>
      simp only [ha, List.mem_singleton] at hf
      subst hf
      exact .inl (fieldLine_allowed (by decide) (allow_allowed allow))
  · obtain ⟨e, _, rfl⟩ := List.mem_map.mp hf
    exact .inl (fieldLine_allowed (token_allowed e.isToken_name) e.value_allowed)

theorem headerLines_allowed (r : Response) (keepAlive : Bool) {line : Bytes}
    (h : line ∈ r.headerLines keepAlive) :
    line.any isForbiddenInValue = false ∨
      ∃ contentType, r.contentType = some contentType ∧
        line = fieldLine (ascii "Content-Type", contentType.text) := by
  obtain ⟨f, hf, rfl⟩ := List.mem_map.mp h
  simp only [Response.fixedFields, List.mem_append, List.mem_singleton] at hf
  obtain (hf | rfl) | hf := hf
  · rcases fields_allowed r hf with hallowed | ⟨contentType, hc, rfl⟩
    · exact .inl hallowed
    · exact .inr ⟨contentType, hc, rfl⟩
  · exact .inl (fieldLine_allowed (by decide) (numeral_allowed _))
  · cases keepAlive with
    | true => simp [Response.connectionField] at hf
    | false =>
      simp only [Response.connectionField, Bool.not_false, ↓reduceIte, List.mem_singleton] at hf
      subst hf
      exact .inl (by decide)

theorem headerLines_no_line_end (r : Response) (keepAlive : Bool) :
    ∀ line ∈ r.headerLines keepAlive, cr ∉ line ∧ lf ∉ line := by
  intro line h
  rcases headerLines_allowed r keepAlive h with hallowed | ⟨contentType, _, rfl⟩
  · exact ⟨not_mem_of_allowed hallowed (by decide), not_mem_of_allowed hallowed (by decide)⟩
  · have hname : cr ∉ ascii "Content-Type" ++ ascii ": " ∧
        lf ∉ ascii "Content-Type" ++ ascii ": " := by decide
    simp only [fieldLine, List.mem_append, not_or] at hname ⊢
    exact ⟨⟨hname.1, contentType.no_line_end.1⟩, hname.2, contentType.no_line_end.2⟩

theorem isNamed_fieldLine {field : Bytes × Bytes} (h : (58 : UInt8) ∉ field.1) (name : Bytes) :
    isNamed name (fieldLine field) = eqIgnoreAsciiCase field.1 name := by
  have hname : ∀ b ∈ field.1, (b != 58) = true := by
    intro b hb
    rw [bne_iff_ne]
    rintro rfl
    exact h hb
  have hsep : ascii ": " ++ field.2 = 58 :: 32 :: field.2 := rfl
  rw [isNamed, fieldLine, List.append_assoc, hsep, List.takeWhile_append_of_pos hname]
  simp

theorem filter_isNamed (r : Response) {managed : List (Bytes × Bytes)}
    (h : ∀ f ∈ managed, FieldReadable f) {name : Bytes}
    (hname : name ∈ [ascii "content-length", ascii "connection", ascii "transfer-encoding"]) :
    ((r.fields ++ managed).map fieldLine).filter (isNamed name) =
      (managed.filter fun f => eqIgnoreAsciiCase f.1 name).map fieldLine := by
  have hline : ∀ f ∈ r.fields ++ managed,
      isNamed name (fieldLine f) = eqIgnoreAsciiCase f.1 name := by
    intro f hf
    rcases List.mem_append.mp hf with hf | hf
    · exact isNamed_fieldLine (fields_facts r f hf).1.name_no_colon name
    · exact isNamed_fieldLine (h f hf).name_no_colon name
  have hstored : r.fields.filter (fun f => eqIgnoreAsciiCase f.1 name) = [] := by
    have hvalues := valuesIn_fields r hname
    rwa [valuesIn, List.map_eq_nil_iff] at hvalues
  have hfilter : (r.fields ++ managed).filter (isNamed name ∘ fieldLine) =
      (r.fields ++ managed).filter fun f => eqIgnoreAsciiCase f.1 name := List.filter_congr hline
  rw [List.filter_map, hfilter, List.filter_append, hstored, List.nil_append]

theorem headerLines_filter (r : Response) (keepAlive : Bool) {name : Bytes}
    (hname : name ∈ [ascii "content-length", ascii "connection", ascii "transfer-encoding"]) :
    (r.headerLines keepAlive).filter (isNamed name) =
      (([(ascii "Content-Length", numeral 10 r.body.length)] ++
        Response.connectionField keepAlive).filter
          fun f => eqIgnoreAsciiCase f.1 name).map fieldLine := by
  have hreadable := fixedFields_readable r keepAlive
  rw [Response.fixedFields, List.append_assoc] at hreadable
  rw [Response.headerLines, Response.fixedFields, List.append_assoc]
  exact filter_isNamed r (fun f hf => hreadable f (List.mem_append_right _ hf)) hname

theorem flatMap_shift (lines : List Bytes) :
    crlf ++ lines.flatMap (· ++ crlf) = lines.flatMap (crlf ++ ·) ++ crlf := by
  induction lines with
  | nil => rfl
  | cons line lines ih =>
    rw [List.flatMap_cons, List.flatMap_cons, List.append_assoc, List.append_assoc, ← ih]
    simp only [List.append_assoc]

theorem headBytes_text (status : UInt16) (fields : List (Bytes × Bytes)) (body : Bytes) :
    Response.headBytes status fields ++ body =
      statusLine status ++ (fields.map fieldLine).flatMap (crlf ++ ·) ++ (terminator ++ body) := by
  have hshift := flatMap_shift (fields.map fieldLine)
  have hmap : (fields.map fieldLine).flatMap (· ++ crlf) = fields.flatMap headerLine := by
    rw [List.flatMap_map]
    rfl
  rw [hmap] at hshift
  simp only [Response.headBytes, terminator, List.append_assoc] at hshift ⊢
  rw [← List.append_assoc crlf, hshift]
  simp only [List.append_assoc]

theorem headBytes_cut {status : UInt16} {fields : List (Bytes × Bytes)}
    (h : ∀ f ∈ fields, FieldReadable f) (body : Bytes) :
    findSubslice (Response.headBytes status fields ++ body) terminator =
        some (statusLine status ++ (fields.map fieldLine).flatMap (crlf ++ ·)).length ∧
      split crlf (statusLine status ++ (fields.map fieldLine).flatMap (crlf ++ ·)) =
        statusLine status :: fields.map fieldLine := by
  have hstatus := cr_not_mem_statusLine status
  have hlines : ∀ line ∈ fields.map fieldLine, line ≠ [] ∧ cr ∉ line := by
    intro line hline
    obtain ⟨f, hf, rfl⟩ := List.mem_map.mp hline
    have hsep : cr ∉ ascii ": " := by decide
    refine ⟨by simp [fieldLine, ascii], ?_⟩
    simp only [fieldLine, List.mem_append, not_or]
    exact ⟨⟨(h f hf).name_no_cr, hsep⟩, (h f hf).value_no_cr⟩
  constructor
  · rw [findSubslice_terminator, headBytes_text]
    exact findFirst_double (by decide) hstatus hlines body
  · apply split_pieces
    rw [List.forall_mem_cons]
    exact ⟨hstatus, fun line hline => (hlines line hline).2⟩

def Response.headText (r : Response) (keepAlive : Bool) : Bytes :=
  statusLine r.status ++ (r.headerLines keepAlive).flatMap (crlf ++ ·)

theorem serialize_layout (r : Response) (keepAlive : Bool) :
    r.serialize keepAlive = statusLine r.status ++ crlf ++
      (r.headerLines keepAlive).flatMap (· ++ crlf) ++ crlf ++ r.body := by
  have hlines : (r.headerLines keepAlive).flatMap (· ++ crlf) =
      (r.fixedFields keepAlive).flatMap headerLine := by
    rw [Response.headerLines, List.flatMap_map]
    rfl
  rw [hlines]
  rfl

theorem serialize_headText (r : Response) (keepAlive : Bool) :
    r.serialize keepAlive = r.headText keepAlive ++ (terminator ++ r.body) :=
  headBytes_text r.status (r.fixedFields keepAlive) r.body

theorem headText_cut (r : Response) (keepAlive : Bool) :
    findSubslice (r.serialize keepAlive) terminator = some (r.headText keepAlive).length ∧
    split crlf (r.headText keepAlive) = statusLine r.status :: r.headerLines keepAlive :=
  headBytes_cut (fixedFields_readable r keepAlive) r.body

theorem serialize_one_length (r : Response) (keepAlive : Bool) :
    (r.headerLines keepAlive).filter (isNamed (ascii "content-length")) =
      [fieldLine (ascii "Content-Length", numeral 10 r.body.length)] := by
  rw [headerLines_filter r keepAlive (by decide)]
  cases keepAlive <;> rfl

theorem serialize_framed {r : Response} (h : Built r) (keepAlive : Bool) :
    (∀ out, r.serializeInto keepAlive out = some (r.serialize keepAlive)) ∧
    Framed r keepAlive (r.serialize keepAlive) := by
  have hbody : r.body.length < 2 ^ 64 := lt_of_le_of_lt h.body_length (by decide)
  obtain ⟨hfirst, hsplit⟩ := headText_cut r keepAlive
  refine ⟨fun out => serializeInto_eq hbody keepAlive out, ?_⟩
  exact {
    layout := serialize_layout r keepAlive
    cut := ⟨r.headText keepAlive, hfirst, serialize_headText r keepAlive, hsplit⟩
    no_line_end := headerLines_no_line_end r keepAlive
    nul_in_content_type := by
      intro line hline hnul
      rcases headerLines_allowed r keepAlive hline with hallowed | hct
      · exact absurd hnul (not_mem_of_allowed hallowed (by decide))
      · exact hct
    one_length := ⟨_, serialize_one_length r keepAlive,
      List.all_eq_true.mpr (numeral_digits r.body.length),
      digitsValue_numeral (by decide) (by decide) r.body.length⟩
    no_transfer_encoding := by
      rw [headerLines_filter r keepAlive (by decide)]
      cases keepAlive <;> rfl
    connection := by
      rw [headerLines_filter r keepAlive (by decide)]
      cases keepAlive <;> rfl }

theorem serialize_framed_no_store :
    let r := ((Response.new 200 (ascii "\x7b\x7d")).withContentType applicationJson).withNoStore
    (∀ out, r.serializeInto false out = some (r.serialize false)) ∧
    Framed r false (r.serialize false) := by
  intro r
  have hbuilt : Built r :=
    .withNoStore (.withContentType applicationJson (.new 200 (ascii "\x7b\x7d") (by decide)))
  exact serialize_framed hbuilt false

/-- A literal with a NUL has no CR and no LF, and it reaches the wire as it is. -/
theorem headerLines_may_hold_nul :
    ¬ ∀ r, Built r → ∀ keepAlive, ∀ line ∈ r.headerLines keepAlive,
      cr ∉ line ∧ lf ∉ line ∧ (0 : UInt8) ∉ line := by
  intro h
  let contentType : ContentType := ⟨[0], by decide⟩
  have hbuilt : Built ((Response.empty 200).withContentType contentType) :=
    .withContentType contentType (.empty 200)
  have hline := h _ hbuilt true (fieldLine (ascii "Content-Type", [0])) (by decide)
  exact hline.2.2 (by decide)

end FandheBackend.HttpResponse
