import FandheBackend.HttpResponse
import FandheBackend.HttpChunkedRoundTrip
import FandheBackend.PatternSplit

set_option autoImplicit false

/-!
# An HTTP/1.1 client

The reader at the other end of a connection: it knows the methods of its requests,
reads a head line by line, and takes the body that the head announces. It is the
yardstick for what the server writes, not part of the server.
-/
namespace FandheBackend.HttpClient
open StdBytes HttpRequestHead HttpResponse HttpChunked HttpChunkedGrammar HttpChunkedRoundTrip

def takeCrlfLine : Bytes → Option (Bytes × Bytes)
  | [] => none
  | [_] => none
  | b :: c :: rest =>
    if b = cr ∧ c = lf then some ([], rest)
    else (takeCrlfLine (c :: rest)).map fun r => (b :: r.1, r.2)

def takeHeadLines : ℕ → Bytes → Option (List Bytes × Bytes)
  | 0, _ => none
  | fuel + 1, s =>
    match takeCrlfLine s with
    | none => none
    | some ([], rest) => some ([], rest)
    | some (line, rest) => (takeHeadLines fuel rest).map fun r => (line :: r.1, r.2)

def parseStatus (line : Bytes) : Option ℕ :=
  if (ascii "HTTP/1.1 ").isPrefixOf line then
    let digits := (line.drop 9).takeWhile isAsciiDigit
    if digits.isEmpty then none else some (digitsValue 10 digits)
  else none

def parseField (line : Bytes) : Bytes × Bytes :=
  (line.takeWhile (· != 58), Utf8Text.trimBy isOws ((line.dropWhile (· != 58)).drop 1))

structure ClientHead where
  status : ℕ
  fields : List (Bytes × Bytes)
  deriving DecidableEq

def takeHead (s : Bytes) : Option (ClientHead × Bytes) :=
  match takeHeadLines (s.length + 1) s with
  | some (first :: lines, rest) =>
    (parseStatus first).map fun status => (⟨status, lines.map parseField⟩, rest)
  | _ => none

def ClientHead.values (h : ClientHead) (name : Bytes) : List Bytes :=
  (h.fields.filter fun f => eqIgnoreAsciiCase f.1 name).map Prod.snd

def ClientHead.closes (h : ClientHead) : Bool :=
  (h.values (ascii "connection")).any fun v => eqIgnoreAsciiCase v (ascii "close")

def announcesClose (s : Bytes) : Bool :=
  match takeHead s with
  | some (head, _) => head.closes
  | none => false

def hasNoBody (method : Bytes) (status : ℕ) : Bool :=
  method == ascii "HEAD" || (100 ≤ status && status ≤ 199) || status == 204 || status == 304

def takeChunks : ℕ → Bytes → Option (Bytes × Bytes)
  | 0, _ => none
  | fuel + 1, s =>
    match takeCrlfLine s with
    | none => none
    | some (line, rest) =>
      let digits := line.takeWhile isAsciiHexdigit
      if digits.isEmpty then none
      else
        let size := digitsValue 16 digits
        if size = 0 then (takeHeadLines (rest.length + 1) rest).map fun r => ([], r.2)
        else if rest.length < size then none
        else match takeCrlfLine (rest.drop size) with
          | some ([], rest') => (takeChunks fuel rest').map fun r => (rest.take size ++ r.1, r.2)
          | _ => none

structure ClientResponse where
  head : ClientHead
  body : Bytes
  deriving DecidableEq

/-- One response to a request of a method. `none` if the bytes are no complete response. -/
def takeResponse (method s : Bytes) : Option (ClientResponse × Bytes) :=
  match takeHead s with
  | none => none
  | some (head, rest) =>
    if hasNoBody method head.status then some (⟨head, []⟩, rest)
    else if (head.values (ascii "transfer-encoding")).any
        fun v => eqIgnoreAsciiCase v (ascii "chunked") then
      (takeChunks (rest.length + 1) rest).map fun r => (⟨head, r.1⟩, r.2)
    else match head.values (ascii "content-length") with
      | [value] =>
        let n := digitsValue 10 value
        if n ≤ rest.length then some (⟨head, rest.take n⟩, rest.drop n) else none
      | _ => none

def takeResponses : List Bytes → Bytes → Option (List ClientResponse × Bytes)
  | [], s => some ([], s)
  | method :: methods, s =>
    match takeResponse method s with
    | none => none
    | some (response, rest) =>
      (takeResponses methods rest).map fun r => (response :: r.1, r.2)

theorem takeCrlfLine_append {line : Bytes} (h : cr ∉ line) (rest : Bytes) :
    takeCrlfLine (line ++ crlf ++ rest) = some (line, rest) := by
  induction line with
  | nil => simp [takeCrlfLine, crlf]
  | cons b line ih =>
    rw [List.mem_cons, not_or] at h
    have hb : ¬ b = cr := fun heq => h.1 heq.symm
    have htail := ih h.2
    cases line with
    | nil => simp [takeCrlfLine, crlf, hb]
    | cons c line =>
      simp only [List.cons_append, List.append_assoc] at htail ⊢
      simp [takeCrlfLine, hb, htail]

theorem takeHeadLines_append {lines : List Bytes} (h : ∀ l ∈ lines, l ≠ [] ∧ cr ∉ l)
    (rest : Bytes) (fuel : ℕ) (hfuel : lines.length < fuel) :
    takeHeadLines fuel (lines.flatMap (· ++ crlf) ++ crlf ++ rest) = some (lines, rest) := by
  induction lines generalizing fuel with
  | nil =>
    obtain ⟨fuel, rfl⟩ : ∃ m, fuel = m + 1 := ⟨fuel - 1, by omega⟩
    have hline : takeCrlfLine (crlf ++ rest) = some ([], rest) :=
      takeCrlfLine_append List.not_mem_nil rest
    simp [takeHeadLines, hline]
  | cons line lines ih =>
    rw [List.length_cons] at hfuel
    rw [List.forall_mem_cons] at h
    obtain ⟨fuel, rfl⟩ : ∃ m, fuel = m + 1 := ⟨fuel - 1, by omega⟩
    obtain ⟨b, line, rfl⟩ := List.exists_cons_of_ne_nil h.1.1
    have hline := takeCrlfLine_append h.1.2 (lines.flatMap (· ++ crlf) ++ crlf ++ rest)
    rw [List.flatMap_cons, List.append_assoc, List.append_assoc, ← List.append_assoc _ crlf,
      takeHeadLines, hline]
    simp only [ih h.2 fuel (by omega), Option.map_some]

section Heads

structure FieldReadable (field : Bytes × Bytes) : Prop where
  name_no_colon : (58 : UInt8) ∉ field.1
  name_no_cr : cr ∉ field.1
  value_no_cr : cr ∉ field.2

theorem parseField_line {name value : Bytes} (h : (58 : UInt8) ∉ name) :
    parseField (name ++ ascii ": " ++ value) = (name, Utf8Text.trimBy isOws value) := by
  have hname : ∀ b ∈ name, (b != 58) = true := by
    intro b hb
    simpa using fun heq : b = 58 => h (heq ▸ hb)
  have hsep : ascii ": " ++ value = 58 :: 32 :: value := rfl
  rw [parseField, List.append_assoc, hsep, List.takeWhile_append_of_pos hname,
    List.dropWhile_append_of_pos hname]
  have htrim : Utf8Text.trimBy isOws (32 :: value) = Utf8Text.trimBy isOws value := by
    simp [Utf8Text.trimBy, isOws]
  simp [htrim]

theorem not_mem_numeral {base n : ℕ} (hb : 1 < base) (hb' : base ≤ 16) {b : UInt8}
    (h : isAsciiHexdigit b = false) : b ∉ numeral base n := by
  intro hmem
  rw [numeral_hexdigits hb hb' n b hmem] at h
  cases h

theorem cr_not_mem_reasonPhrase (status : UInt16) : cr ∉ reasonPhrase status := by
  unfold reasonPhrase
  split <;> decide

theorem cr_not_mem_statusLine (status : UInt16) : cr ∉ statusLine status := by
  have hnum : cr ∉ numeral 10 status.toNat :=
    not_mem_numeral (by decide) (by decide) (by decide)
  have hreason := cr_not_mem_reasonPhrase status
  simp only [statusLine, List.mem_append, not_or]
  exact ⟨⟨⟨by decide, hnum⟩, by decide⟩, hreason⟩

theorem parseStatus_statusLine (status : UInt16) :
    parseStatus (statusLine status) = some status.toNat := by
  have hpre : (ascii "HTTP/1.1 ").isPrefixOf (statusLine status) = true := by
    rw [List.isPrefixOf_iff_prefix, statusLine, List.append_assoc, List.append_assoc]
    exact List.prefix_append _ _
  have hdrop : (statusLine status).drop 9 =
      numeral 10 status.toNat ++ (ascii " " ++ reasonPhrase status) := by
    rw [statusLine, List.append_assoc, List.append_assoc]
    exact List.drop_left' (by decide)
  have hdigits := numeral_digits status.toNat
  have htake : ((statusLine status).drop 9).takeWhile isAsciiDigit = numeral 10 status.toNat := by
    rw [hdrop, List.takeWhile_append_of_pos hdigits]
    have hsep : ascii " " ++ reasonPhrase status = 32 :: reasonPhrase status := rfl
    have hstop : isAsciiDigit 32 = false := by decide
    rw [hsep, List.takeWhile_cons_of_neg (by simp [hstop]), List.append_nil]
  have hne : (numeral 10 status.toNat).isEmpty = false := by
    simpa using numeral_ne_nil 10 status.toNat
  rw [parseStatus, if_pos hpre, htake]
  simp only [hne, Bool.false_eq_true, ↓reduceIte]
  rw [digitsValue_numeral (by decide) (by decide)]

def readFields (fields : List (Bytes × Bytes)) : List (Bytes × Bytes) :=
  fields.map fun f => (f.1, Utf8Text.trimBy isOws f.2)

theorem takeHead_headBytes (status : UInt16) {fields : List (Bytes × Bytes)}
    (h : ∀ f ∈ fields, FieldReadable f) (rest : Bytes) :
    takeHead (Response.headBytes status fields ++ rest) =
      some (⟨status.toNat, readFields fields⟩, rest) := by
  have hbytes : Response.headBytes status fields ++ rest =
      (statusLine status :: fields.map fun f => f.1 ++ ascii ": " ++ f.2).flatMap (· ++ crlf) ++
        crlf ++ rest := by
    have hline : headerLine = fun f => f.1 ++ ascii ": " ++ f.2 ++ crlf := rfl
    simp [Response.headBytes, hline, List.flatMap_map]
  have hlines : ∀ l ∈ statusLine status :: fields.map fun f => f.1 ++ ascii ": " ++ f.2,
      l ≠ [] ∧ cr ∉ l := by
    rw [List.forall_mem_cons]
    refine ⟨⟨by simp [statusLine, ascii], cr_not_mem_statusLine status⟩, ?_⟩
    intro l hl
    obtain ⟨f, hf, rfl⟩ := List.mem_map.mp hl
    refine ⟨by simp [ascii], ?_⟩
    simp only [List.mem_append, not_or]
    exact ⟨⟨(h f hf).name_no_cr, by decide⟩, (h f hf).value_no_cr⟩
  have hlen := PatternSplit.length_le_flatMap (f := (· ++ crlf)) (by simp [crlf])
    (statusLine status :: fields.map fun f => f.1 ++ ascii ": " ++ f.2)
  rw [takeHead, hbytes, takeHeadLines_append hlines rest _ (by
    rw [List.length_append, List.length_append]
    omega)]
  simp only [parseStatus_statusLine, Option.map_some, List.map_map, readFields]
  congr 3
  apply List.map_congr_left
  intro f hf
  exact parseField_line (h f hf).name_no_colon

theorem tchar_facts {b : UInt8} (h : isTchar b = true) : b ≠ 58 ∧ b ≠ cr := by
  constructor
  · rintro rfl
    exact absurd h (by decide)
  · rintro rfl
    exact absurd h (by decide)

theorem token_facts {name : Bytes} (h : isToken name = true) :
    (58 : UInt8) ∉ name ∧ cr ∉ name := by
  simp only [isToken, Bool.and_eq_true, List.all_eq_true] at h
  exact ⟨fun hm => (tchar_facts (h.2 _ hm)).1 rfl, fun hm => (tchar_facts (h.2 _ hm)).2 rfl⟩

theorem readable_of_token {name value : Bytes} (hname : isToken name = true)
    (hvalue : cr ∉ value) : FieldReadable (name, value) :=
  ⟨(token_facts hname).1, (token_facts hname).2, hvalue⟩

theorem cr_not_mem_allow (a : AllowedMethods) : cr ∉ a.toHeaderValue := by
  intro hmem
  obtain hsep | ⟨m, hm, hcr⟩ := mem_join hmem
  · exact absurd hsep (by decide)
  · exact (token_facts (a.tokens m hm)).2 hcr

theorem fields_facts (r : Response) :
    ∀ f ∈ r.fields, FieldReadable f ∧ isReserved f.1 = false := by
  intro f hf
  simp only [Response.fields, List.mem_append] at hf
  obtain (hf | hf) | hf := hf
  · cases hct : r.contentType with
    | none => simp [hct] at hf
    | some contentType =>
      simp only [hct, List.mem_singleton] at hf
      subst hf
      exact ⟨readable_of_token (by decide) contentType.no_line_end.1,
        show isReserved (ascii "Content-Type") = false by decide⟩
  · cases hal : r.allow with
    | none => simp [hal] at hf
    | some allow =>
      simp only [hal, List.mem_singleton] at hf
      subst hf
      exact ⟨readable_of_token (by decide) (cr_not_mem_allow allow),
        show isReserved (ascii "Allow") = false by decide⟩
  · obtain ⟨e, _, rfl⟩ := List.mem_map.mp hf
    refine ⟨readable_of_token e.isToken_name fun hm => ?_, e.not_reserved⟩
    have := List.any_eq_false.mp e.value_allowed cr hm
    exact this (by decide)

def valuesIn (fields : List (Bytes × Bytes)) (name : Bytes) : List Bytes :=
  (fields.filter fun f => eqIgnoreAsciiCase f.1 name).map fun f => Utf8Text.trimBy isOws f.2

theorem values_readFields (status : ℕ) (fields : List (Bytes × Bytes)) (name : Bytes) :
    (ClientHead.mk status (readFields fields)).values name = valuesIn fields name := by
  simp [ClientHead.values, readFields, valuesIn, List.filter_map, Function.comp_def]

theorem valuesIn_append (xs ys : List (Bytes × Bytes)) (name : Bytes) :
    valuesIn (xs ++ ys) name = valuesIn xs name ++ valuesIn ys name := by
  simp [valuesIn]

theorem valuesIn_of_eq {key name : Bytes} (value : Bytes) (h : eqIgnoreAsciiCase key name = true) :
    valuesIn [(key, value)] name = [Utf8Text.trimBy isOws value] := by
  simp [valuesIn, h]

theorem valuesIn_of_ne {key name : Bytes} (value : Bytes)
    (h : eqIgnoreAsciiCase key name = false) : valuesIn [(key, value)] name = [] := by
  simp [valuesIn, h]

theorem valuesIn_fields (r : Response) {name : Bytes}
    (hname : name ∈ [ascii "content-length", ascii "connection", ascii "transfer-encoding"]) :
    valuesIn r.fields name = [] := by
  rw [valuesIn, List.map_eq_nil_iff, List.filter_eq_nil_iff]
  intro f hf heq
  have hres := (fields_facts r f hf).2
  rw [isReserved, List.any_eq_false] at hres
  exact hres name hname heq

theorem connectionField_facts (keepAlive : Bool) :
    ∀ f ∈ Response.connectionField keepAlive, FieldReadable f := by
  intro f hf
  unfold Response.connectionField at hf
  split_ifs at hf
  · rw [List.mem_singleton] at hf
    subst hf
    exact ⟨by decide, by decide, by decide⟩
  · cases hf

end Heads

section Responses

theorem numeral_no_ows {base : ℕ} (hb : 1 < base) (hb' : base ≤ 16) (n : ℕ) :
    Utf8Text.trimBy isOws (numeral base n) = numeral base n := by
  apply Utf8Text.trimBy_eq_self
  intro b hmem
  obtain ⟨d, hd, rfl⟩ := mem_numeral hb hmem
  have hall : ∀ d : Fin 16, isOws (digitByte d.val) = false := by decide
  exact hall ⟨d, by omega⟩

theorem fixedFields_readable (r : Response) (keepAlive : Bool) :
    ∀ f ∈ r.fixedFields keepAlive, FieldReadable f := by
  intro f hf
  simp only [Response.fixedFields, List.mem_append, List.mem_singleton] at hf
  obtain (hf | rfl) | hf := hf
  · exact (fields_facts r f hf).1
  · exact readable_of_token (by decide) (not_mem_numeral (by decide) (by decide) (by decide))
  · exact connectionField_facts keepAlive f hf

theorem chunkedFields_readable (r : Response) (keepAlive : Bool) :
    ∀ f ∈ r.chunkedFields keepAlive, FieldReadable f := by
  intro f hf
  simp only [Response.chunkedFields, List.mem_append] at hf
  obtain (hf | hf) | hf := hf
  · exact (fields_facts r f hf).1
  · split_ifs at hf
    · rw [List.mem_singleton] at hf
      subst hf
      exact ⟨by decide, by decide, by decide⟩
    · cases hf
  · exact connectionField_facts keepAlive f hf

def fixedHead (r : Response) (keepAlive : Bool) : ClientHead :=
  ⟨r.status.toNat, readFields (r.fixedFields keepAlive)⟩

def chunkedHead (r : Response) (keepAlive : Bool) : ClientHead :=
  ⟨r.status.toNat, readFields (r.chunkedFields keepAlive)⟩

theorem valuesIn_connectionField (keepAlive : Bool) :
    valuesIn (Response.connectionField keepAlive) (ascii "transfer-encoding") = [] ∧
    valuesIn (Response.connectionField keepAlive) (ascii "content-length") = [] ∧
    valuesIn (Response.connectionField keepAlive) (ascii "connection") =
      if keepAlive then [] else [ascii "close"] := by
  cases keepAlive <;> decide

theorem fixedHead_values (r : Response) (keepAlive : Bool) :
    (fixedHead r keepAlive).values (ascii "transfer-encoding") = [] ∧
    (fixedHead r keepAlive).values (ascii "content-length") = [numeral 10 r.body.length] ∧
    (fixedHead r keepAlive).values (ascii "connection") =
      if keepAlive then [] else [ascii "close"] := by
  obtain ⟨hte, hcl, hco⟩ := valuesIn_connectionField keepAlive
  simp only [fixedHead, values_readFields, Response.fixedFields, valuesIn_append]
  refine ⟨?_, ?_, ?_⟩
  · rw [valuesIn_fields r (by decide), valuesIn_of_ne _ (by decide), hte]
    rfl
  · rw [valuesIn_fields r (by decide), valuesIn_of_eq _ (by decide), hcl,
      numeral_no_ows (by decide) (by decide)]
    rfl
  · rw [valuesIn_fields r (by decide), valuesIn_of_ne _ (by decide), hco]
    rfl

theorem chunkedHead_values (r : Response) (keepAlive : Bool) :
    (chunkedHead r keepAlive).values (ascii "transfer-encoding") =
      (if Response.isBodylessStatus r.status then [] else [ascii "chunked"]) ∧
    (chunkedHead r keepAlive).values (ascii "connection") =
      if keepAlive then [] else [ascii "close"] := by
  obtain ⟨hte, _, hco⟩ := valuesIn_connectionField keepAlive
  simp only [chunkedHead, values_readFields, Response.chunkedFields, valuesIn_append]
  cases Response.isBodylessStatus r.status with
  | true =>
    rw [valuesIn_fields r (by decide), valuesIn_fields r (by decide), hte, hco]
    exact ⟨rfl, rfl⟩
  | false =>
    simp only [Bool.not_false, ↓reduceIte, Bool.false_eq_true]
    rw [valuesIn_fields r (by decide), valuesIn_fields r (by decide), hte, hco,
      valuesIn_of_eq _ (by decide), valuesIn_of_ne _ (by decide)]
    have hplain : ((ascii "chunked").all fun b => !isOws b) = true := by decide
    refine ⟨?_, rfl⟩
    rw [Utf8Text.trimBy_eq_self isOws fun b hb => by simpa using List.all_eq_true.mp hplain b hb]
    rfl

theorem closes_of_values {head : ClientHead} {keepAlive : Bool}
    (h : head.values (ascii "connection") = if keepAlive then [] else [ascii "close"]) :
    head.closes = !keepAlive := by
  rw [ClientHead.closes, h]
  cases keepAlive <;> decide

theorem announcesClose_serialize (r : Response) (keepAlive : Bool) :
    announcesClose (r.serialize keepAlive) = !keepAlive := by
  rw [announcesClose, Response.serialize,
    takeHead_headBytes r.status (fixedFields_readable r keepAlive) r.body]
  exact closes_of_values (fixedHead_values r keepAlive).2.2

theorem announcesClose_serializeChunkedHead (r : Response) (keepAlive : Bool) :
    announcesClose (r.serializeChunkedHead keepAlive) = !keepAlive := by
  have hhead := takeHead_headBytes r.status (chunkedFields_readable r keepAlive) []
  rw [List.append_nil] at hhead
  rw [announcesClose, Response.serializeChunkedHead, hhead]
  exact closes_of_values (chunkedHead_values r keepAlive).2

theorem announcesClose_serializeStreamingHeadHttp10 (r : Response) :
    announcesClose r.serializeStreamingHeadHttp10 = true := by
  have hreadable : ∀ f ∈ r.fields ++ Response.connectionField false, FieldReadable f := by
    intro f hf
    rw [List.mem_append] at hf
    rcases hf with hf | hf
    · exact (fields_facts r f hf).1
    · exact connectionField_facts false f hf
  have hhead := takeHead_headBytes r.status hreadable []
  rw [List.append_nil] at hhead
  rw [announcesClose, Response.serializeStreamingHeadHttp10, hhead]
  have hvalues : (ClientHead.mk r.status.toNat
      (readFields (r.fields ++ Response.connectionField false))).values (ascii "connection") =
      if false then [] else [ascii "close"] := by
    rw [values_readFields, valuesIn_append, valuesIn_fields r (by decide),
      (valuesIn_connectionField false).2.2]
    rfl
  exact closes_of_values hvalues

theorem hasNoBody_status (method : Bytes) (status : UInt16) :
    hasNoBody method status.toNat =
      (method == ascii "HEAD" || Response.isBodylessStatus status) := by
  have h100 : (100 ≤ status.toNat) = (100 ≤ status) := by
    rw [UInt16.le_iff_toNat_le]
    rfl
  have h199 : (status.toNat ≤ 199) = (status ≤ 199) := by
    rw [UInt16.le_iff_toNat_le]
    rfl
  have h204 : (status.toNat == 204) = (status == 204) := by
    rw [Bool.eq_iff_iff, beq_iff_eq, beq_iff_eq, ← UInt16.toNat_inj]
    rfl
  have h304 : (status.toNat == 304) = (status == 304) := by
    rw [Bool.eq_iff_iff, beq_iff_eq, beq_iff_eq, ← UInt16.toNat_inj]
    rfl
  simp only [hasNoBody, Response.isBodylessStatus, h100, h199, h204, h304, Bool.or_assoc]

/-- A response with a length is read back whole, unless the client expects no body and the
response has one. -/
theorem takeResponse_serialize (method : Bytes) (r : Response) (keepAlive : Bool) (rest : Bytes)
    (h : (method == ascii "HEAD" || Response.isBodylessStatus r.status) = true → r.body = []) :
    takeResponse method (r.serialize keepAlive ++ rest) =
      some (⟨fixedHead r keepAlive, r.body⟩, rest) := by
  obtain ⟨hte, hcl, _⟩ := fixedHead_values r keepAlive
  have hhead : takeHead (Response.headBytes r.status (r.fixedFields keepAlive) ++ (r.body ++ rest)) =
      some (fixedHead r keepAlive, r.body ++ rest) :=
    takeHead_headBytes r.status (fixedFields_readable r keepAlive) (r.body ++ rest)
  have hstatus : (fixedHead r keepAlive).status = r.status.toNat := rfl
  rw [takeResponse, Response.serialize, List.append_assoc, hhead]
  simp only [hstatus, hasNoBody_status, hte, hcl, List.any_nil]
  cases hnone : method == ascii "HEAD" || Response.isBodylessStatus r.status with
  | true => simp [h hnone]
  | false =>
    simp [digitsValue_numeral (by decide : 1 < 10) (by decide : 10 ≤ 16)]

theorem takeWhile_numeral (n : ℕ) :
    (numeral 16 n).takeWhile isAsciiHexdigit = numeral 16 n := by
  exact List.takeWhile_eq_self_iff.mpr (numeral_hexdigits (by decide) (by decide) n)

theorem takeChunks_last (rest : Bytes) (fuel : ℕ) :
    takeChunks (fuel + 1) (ascii "0" ++ crlf ++ crlf ++ rest) = some ([], rest) := by
  have hline : takeCrlfLine (ascii "0" ++ crlf ++ (crlf ++ rest)) = some (ascii "0", crlf ++ rest) :=
    takeCrlfLine_append (by decide) _
  have hnil : ∀ l ∈ ([] : List Bytes), l ≠ [] ∧ cr ∉ l := by simp
  have hend : takeHeadLines ((crlf ++ rest).length + 1) (crlf ++ rest) = some ([], rest) :=
    takeHeadLines_append hnil rest _ (by simp)
  have hdigits : (ascii "0").takeWhile isAsciiHexdigit = ascii "0" := by decide
  have hne : (ascii "0").isEmpty = false := by decide
  have hzero : digitsValue 16 (ascii "0") = 0 := by decide
  rw [takeChunks, List.append_assoc, hline]
  simp only [hdigits, hne, Bool.false_eq_true, ↓reduceIte, hzero, hend, Option.map_some]

theorem takeChunks_chunk (data rest : Bytes) (hne : data ≠ []) (fuel : ℕ) :
    takeChunks (fuel + 1) (numeral 16 data.length ++ crlf ++ (data ++ (crlf ++ rest))) =
      (takeChunks fuel rest).map fun r => (data ++ r.1, r.2) := by
  have hcr : cr ∉ numeral 16 data.length := not_mem_numeral (by decide) (by decide) (by decide)
  have hline := takeCrlfLine_append hcr (data ++ (crlf ++ rest))
  have hend : takeCrlfLine (crlf ++ rest) = some ([], rest) :=
    takeCrlfLine_append List.not_mem_nil rest
  have hnum : (numeral 16 data.length).isEmpty = false := by
    simpa using numeral_ne_nil 16 data.length
  have hsize : digitsValue 16 (numeral 16 data.length) = data.length :=
    digitsValue_numeral (by decide) (by decide) _
  have hpos : ¬ data.length = 0 := by simpa using hne
  have hfit : ¬ (data ++ (crlf ++ rest)).length < data.length := by
    rw [List.length_append]
    omega
  rw [takeChunks, hline]
  simp only [takeWhile_numeral, hnum, Bool.false_eq_true, ↓reduceIte, hsize, hpos, hfit,
    List.drop_left, List.take_left, hend]

/-- What was read stays the same when more bytes follow. -/
theorem takeCrlfLine_extend {p line rest : Bytes} (h : takeCrlfLine p = some (line, rest))
    (q : Bytes) : takeCrlfLine (p ++ q) = some (line, rest ++ q) := by
  induction p generalizing line with
  | nil => cases h
  | cons b p ih =>
    cases p with
    | nil => cases h
    | cons c p =>
      rw [takeCrlfLine] at h
      rw [List.cons_append, List.cons_append, takeCrlfLine]
      split_ifs at h with hend
      · cases h
        rw [if_pos hend]
      · obtain ⟨r, hr, heq⟩ := Option.map_eq_some_iff.mp h
        cases heq
        have htail := ih hr
        rw [List.cons_append] at htail
        rw [if_neg hend, htail]
        rfl

theorem takeHeadLines_extend {p rest : Bytes} {lines : List Bytes} {fuel : ℕ}
    (h : takeHeadLines fuel p = some (lines, rest)) (q : Bytes) (k : ℕ) :
    takeHeadLines (fuel + k) (p ++ q) = some (lines, rest ++ q) := by
  induction fuel generalizing p lines with
  | zero => cases h
  | succ fuel ih =>
    rw [takeHeadLines] at h
    rw [Nat.add_right_comm, takeHeadLines]
    cases hline : takeCrlfLine p with
    | none =>
      rw [hline] at h
      cases h
    | some r =>
      obtain ⟨line, tail⟩ := r
      rw [hline] at h
      rw [takeCrlfLine_extend hline q]
      cases line with
      | nil =>
        cases h
        rfl
      | cons b line =>
        obtain ⟨r, hr, heq⟩ := Option.map_eq_some_iff.mp h
        cases heq
        simp only [ih hr, Option.map_some]

theorem takeChunks_extend {p body rest : Bytes} {fuel : ℕ}
    (h : takeChunks fuel p = some (body, rest)) (q : Bytes) (k : ℕ) :
    takeChunks (fuel + k) (p ++ q) = some (body, rest ++ q) := by
  induction fuel generalizing p body with
  | zero => cases h
  | succ fuel ih =>
    rw [takeChunks] at h
    rw [Nat.add_right_comm, takeChunks]
    cases hline : takeCrlfLine p with
    | none =>
      rw [hline] at h
      cases h
    | some r =>
      obtain ⟨line, tail⟩ := r
      rw [hline] at h
      rw [takeCrlfLine_extend hline q]
      simp only at h ⊢
      split_ifs at h with hdigits hzero hshort
      · obtain ⟨r, hr, heq⟩ := Option.map_eq_some_iff.mp h
        cases heq
        have htrailers := takeHeadLines_extend hr q q.length
        rw [if_neg hdigits, if_pos hzero, List.length_append, Nat.add_right_comm, htrailers]
        rfl
      · have hsize := Nat.le_of_not_lt hshort
        have hfits : ¬ (tail ++ q).length < digitsValue 16 (line.takeWhile isAsciiHexdigit) := by
          rw [List.length_append]
          omega
        rw [if_neg hdigits, if_neg hzero, if_neg hfits, List.drop_append_of_le_length hsize,
          List.take_append_of_le_length hsize]
        cases hdata : takeCrlfLine (tail.drop (digitsValue 16 (line.takeWhile isAsciiHexdigit))) with
        | none =>
          rw [hdata] at h
          cases h
        | some r =>
          obtain ⟨empty, next⟩ := r
          rw [hdata] at h
          rw [takeCrlfLine_extend hdata q]
          cases empty with
          | cons b empty => cases h
          | nil =>
            obtain ⟨r, hr, heq⟩ := Option.map_eq_some_iff.mp h
            cases heq
            simp only [ih hr, Option.map_some]

theorem takeChunks_encodeBody (ds : List Bytes) (rest : Bytes) (fuel : ℕ)
    (hfuel : (encodedChunks ds).length < fuel) :
    takeChunks fuel (encodeBody ds ++ rest) = some (ds.flatten, rest) := by
  induction ds generalizing fuel with
  | nil =>
    obtain ⟨fuel, rfl⟩ : ∃ m, fuel = m + 1 := ⟨fuel - 1, by omega⟩
    exact takeChunks_last rest fuel
  | cons d ds ih =>
    cases d with
    | nil => exact ih fuel hfuel
    | cons b bs =>
      have hlen : (encodedChunks ((b :: bs) :: ds)).length = (encodedChunks ds).length + 1 := rfl
      obtain ⟨fuel, rfl⟩ : ∃ m, fuel = m + 1 := ⟨fuel - 1, by omega⟩
      have hwire : encodeBody ((b :: bs) :: ds) ++ rest =
          numeral 16 (b :: bs).length ++ crlf ++ ((b :: bs) ++ (crlf ++ (encodeBody ds ++ rest))) := by
        rw [encodeBody_eq, encodeBody_eq]
        have hchunks : encodedChunks ((b :: bs) :: ds) =
            ⟨numeral 16 (b :: bs).length, b :: bs⟩ :: encodedChunks ds := rfl
        rw [hchunks, sectionWire_cons]
        simp only [List.append_assoc]
      rw [hwire, takeChunks_chunk _ _ (by simp), ih fuel (by omega)]
      simp

theorem encodedChunks_length_le (ds : List Bytes) :
    (encodedChunks ds).length ≤ (encodeBody ds).length := by
  have hle : (encodedChunks ds).length ≤ (chunksWire (encodedChunks ds)).length := by
    rw [chunksWire]
    induction encodedChunks ds with
    | nil => exact le_refl _
    | cons c cs ih =>
      have hcrlf : crlf.length = 2 := rfl
      rw [List.map_cons, List.flatten_cons, List.length_append, List.length_cons]
      simp only [Chunk.wire, List.length_append, hcrlf]
      omega
  rw [encodeBody_eq, sectionWire]
  simp only [List.length_append]
  omega

/-- A streamed response with a body is read back whole by a client that expects a body. -/
theorem takeResponse_streamed (method : Bytes) (r : Response) (keepAlive : Bool) (ds : List Bytes)
    (rest : Bytes) (hmethod : method ≠ ascii "HEAD")
    (hstatus : Response.isBodylessStatus r.status = false) :
    takeResponse method (r.serializeChunkedHead keepAlive ++ encodeBody ds ++ rest) =
      some (⟨chunkedHead r keepAlive, ds.flatten⟩, rest) := by
  obtain ⟨hte, _⟩ := chunkedHead_values r keepAlive
  have hhead : takeHead (Response.headBytes r.status (r.chunkedFields keepAlive) ++
      (encodeBody ds ++ rest)) = some (chunkedHead r keepAlive, encodeBody ds ++ rest) :=
    takeHead_headBytes r.status (chunkedFields_readable r keepAlive) (encodeBody ds ++ rest)
  have hst : (chunkedHead r keepAlive).status = r.status.toNat := rfl
  have hmeth : (method == ascii "HEAD") = false := by simpa using hmethod
  have hchunked : eqIgnoreAsciiCase (ascii "chunked") (ascii "chunked") = true := by decide
  have hle := encodedChunks_length_le ds
  have hbody := takeChunks_encodeBody ds rest ((encodeBody ds ++ rest).length + 1) (by
    rw [List.length_append]
    omega)
  rw [takeResponse, Response.serializeChunkedHead, List.append_assoc, hhead]
  simp only [hst, hasNoBody_status, hte, hstatus, hmeth, Bool.or_self,
    Bool.false_eq_true, ↓reduceIte, List.any_cons, hchunked, Bool.true_or, hbody, Option.map_some]

theorem takeResponse_bodyless (method : Bytes) (r : Response) (keepAlive : Bool) (rest : Bytes)
    (hstatus : Response.isBodylessStatus r.status = true) :
    takeResponse method (r.serializeChunkedHead keepAlive ++ rest) =
      some (⟨chunkedHead r keepAlive, []⟩, rest) := by
  have hhead : takeHead (Response.headBytes r.status (r.chunkedFields keepAlive) ++ rest) =
      some (chunkedHead r keepAlive, rest) :=
    takeHead_headBytes r.status (chunkedFields_readable r keepAlive) rest
  have hst : (chunkedHead r keepAlive).status = r.status.toNat := rfl
  rw [takeResponse, Response.serializeChunkedHead, hhead]
  simp only [hst, hasNoBody_status, hstatus, Bool.or_true, ↓reduceIte]

end Responses

end FandheBackend.HttpClient
