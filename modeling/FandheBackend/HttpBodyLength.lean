import FandheBackend.HttpRequestHead

set_option autoImplicit false

namespace FandheBackend.HttpBodyLength
open StdBytes HttpRequestHead Utf8Text

inductive BodyLength where
  | none
  | fixed (n : ℕ)
  | chunked
  deriving DecidableEq, Repr

inductive BodyError where
  | transferEncodingUnsupported
  | contentLengthWithChunked
  | duplicateContentLength
  | invalidContentLength
  | bodyTooLarge
  deriving DecidableEq, Repr

/-- `char::is_whitespace`, the Unicode property `White_Space`. -/
def isWhitespace (c : Char) : Bool :=
  let n := c.toNat
  (9 ≤ n && n ≤ 13) || n == 0x20 || n == 0x85 || n == 0xa0 || n == 0x1680 ||
    (0x2000 ≤ n && n ≤ 0x200a) || n == 0x2028 || n == 0x2029 || n == 0x202f ||
    n == 0x205f || n == 0x3000

/-- `str::trim`; a `str` is valid UTF-8, so the last arm is not reached. -/
def strTrim (s : Bytes) : Bytes :=
  match decode s with
  | some cs => encode (trimBy isWhitespace cs)
  | none => s

def parseContentLength (value : Bytes) : Except BodyError ℕ :=
  if value.isEmpty || !value.all isAsciiDigit then .error .invalidContentLength
  else match u64FromStrRadix value 10 with
    | none => .error .invalidContentLength
    | some n => .ok n

def contentLengthLoop : List (Bytes × Bytes) → Option ℕ → Except BodyError (Option ℕ)
  | [], contentLength => .ok contentLength
  | (name, value) :: headers, contentLength =>
    if !eqIgnoreAsciiCase name (ascii "content-length") then
      contentLengthLoop headers contentLength
    else if contentLength.isSome then .error .duplicateContentLength
    else match parseContentLength value with
      | .error e => .error e
      | .ok n => contentLengthLoop headers (some n)

def namedValues (headers : List (Bytes × Bytes)) (name : Bytes) : List Bytes :=
  (headers.filter fun h => eqIgnoreAsciiCase h.1 name).map Prod.snd

section
variable {TypeId : Type} {E : TypeId → Type}

def bodyLengthWithLimit (head : RequestHead E) (maxBodyBytes : UInt64) :
    Except BodyError BodyLength :=
  let hasContentLength :=
    head.headers.any fun h => eqIgnoreAsciiCase h.1 (ascii "content-length")
  let transferEncodings := (head.headers.filter fun h =>
    eqIgnoreAsciiCase h.1 (ascii "transfer-encoding")).map Prod.snd
  match transferEncodings with
  | first :: others =>
    let isSingleChunked :=
      others.isEmpty && eqIgnoreAsciiCase (strTrim first) (ascii "chunked")
    if head.version ≠ .http11 || !isSingleChunked then .error .transferEncodingUnsupported
    else if hasContentLength then .error .contentLengthWithChunked
    else .ok .chunked
  | [] =>
    match contentLengthLoop head.headers none with
    | .error e => .error e
    | .ok none => .ok .none
    | .ok (some 0) => .ok .none
    | .ok (some n) => if n > maxBodyBytes.toNat then .error .bodyTooLarge else .ok (.fixed n)

/-- A non-empty string of ASCII digits that denotes `n`. -/
structure Denotes (value : Bytes) (n : ℕ) : Prop where
  ne_nil : value ≠ []
  digits : ∀ b ∈ value, isAsciiDigit b = true
  value_eq : digitsValue 10 value = n

structure FramingLaw (head : RequestHead E) (limit : UInt64) : Prop where
  chunked : bodyLengthWithLimit head limit = .ok .chunked ↔
    head.version = .http11 ∧ (∃ v, namedValues head.headers (ascii "transfer-encoding") = [v] ∧
      eqIgnoreAsciiCase (trimBy isOws v) (ascii "chunked") = true) ∧
    namedValues head.headers (ascii "content-length") = []
  fixed : ∀ n, bodyLengthWithLimit head limit = .ok (.fixed n) ↔
    namedValues head.headers (ascii "transfer-encoding") = [] ∧
    (∃ v, namedValues head.headers (ascii "content-length") = [v] ∧ Denotes v n) ∧
    1 ≤ n ∧ n ≤ limit.toNat ∧ n < 2 ^ 64
  none : bodyLengthWithLimit head limit = .ok .none ↔
    namedValues head.headers (ascii "transfer-encoding") = [] ∧
    (namedValues head.headers (ascii "content-length") = [] ∨
      ∃ v, namedValues head.headers (ascii "content-length") = [v] ∧ Denotes v 0)
  letters : bodyLengthWithLimit head limit = .ok .chunked →
    ∀ v ∈ namedValues head.headers (ascii "transfer-encoding"), ∀ b ∈ v,
      isOws b = true ∨ toAsciiLowercase b ∈ ascii "chunked"

/-- An HTTP/1.1 head with one `Transfer-Encoding` header and no `Content-Length`, whose value
is `chunked` between white space of which some is neither SP nor HTAB. -/
def UnicodePadded (head : RequestHead E) : Prop :=
  head.version = .http11 ∧ namedValues head.headers (ascii "content-length") = [] ∧
  ∃ (pre post : List Char) (mid : Bytes),
    namedValues head.headers (ascii "transfer-encoding") = [encode pre ++ mid ++ encode post] ∧
    eqIgnoreAsciiCase mid (ascii "chunked") = true ∧
    (∀ c ∈ pre ++ post, isWhitespace c = true) ∧ ∃ c ∈ pre ++ post, c ≠ ' ' ∧ c ≠ '\t'

end

section ContentLength

theorem namedValues_cons_of_eq {name value key : Bytes} (headers : List (Bytes × Bytes))
    (h : eqIgnoreAsciiCase name key = true) :
    namedValues ((name, value) :: headers) key = value :: namedValues headers key := by
  simp [namedValues, h]

theorem namedValues_cons_of_ne {name value key : Bytes} (headers : List (Bytes × Bytes))
    (h : eqIgnoreAsciiCase name key = false) :
    namedValues ((name, value) :: headers) key = namedValues headers key := by
  simp [namedValues, h]

theorem any_name_iff (headers : List (Bytes × Bytes)) (key : Bytes) :
    (headers.any fun h => eqIgnoreAsciiCase h.1 key) = false ↔ namedValues headers key = [] := by
  simp [namedValues, List.filter_eq_nil_iff]

theorem contentLengthLoop_some (headers : List (Bytes × Bytes)) (n : ℕ) (r : Option ℕ) :
    contentLengthLoop headers (some n) = .ok r ↔
      namedValues headers (ascii "content-length") = [] ∧ r = some n := by
  induction headers with
  | nil => simp [contentLengthLoop, namedValues, eq_comm]
  | cons h headers ih =>
    obtain ⟨name, value⟩ := h
    cases hn : eqIgnoreAsciiCase name (ascii "content-length") with
    | true => simp [contentLengthLoop, hn, namedValues_cons_of_eq headers hn]
    | false => simp [contentLengthLoop, hn, namedValues_cons_of_ne headers hn, ih]

theorem contentLengthLoop_none (headers : List (Bytes × Bytes)) (r : Option ℕ) :
    contentLengthLoop headers none = .ok r ↔
      namedValues headers (ascii "content-length") = [] ∧ r = none ∨
      ∃ v n, namedValues headers (ascii "content-length") = [v] ∧
        parseContentLength v = .ok n ∧ r = some n := by
  induction headers with
  | nil => simp [contentLengthLoop, namedValues, eq_comm]
  | cons h headers ih =>
    obtain ⟨name, value⟩ := h
    cases hn : eqIgnoreAsciiCase name (ascii "content-length") with
    | false => simp [contentLengthLoop, hn, namedValues_cons_of_ne headers hn, ih]
    | true =>
      rw [namedValues_cons_of_eq headers hn]
      cases hp : parseContentLength value with
      | error e =>
        simp only [contentLengthLoop, hn, hp, Bool.not_true, Bool.false_eq_true, ↓reduceIte,
          Option.isSome_none, reduceCtorEq, false_and, List.cons.injEq, false_or, false_iff]
        rintro ⟨v, n, ⟨rfl, _⟩, hv, _⟩
        rw [hp] at hv
        cases hv
      | ok n =>
        simp only [contentLengthLoop, hn, hp, Bool.not_true, Bool.false_eq_true, ↓reduceIte,
          Option.isSome_none, contentLengthLoop_some, reduceCtorEq, false_and, List.cons.injEq,
          false_or]
        constructor
        · rintro ⟨hnil, rfl⟩
          exact ⟨value, n, ⟨rfl, hnil⟩, hp, rfl⟩
        · rintro ⟨v, m, ⟨rfl, hnil⟩, hv, rfl⟩
          rw [hp] at hv
          cases hv
          exact ⟨hnil, rfl⟩

theorem parseContentLength_eq_ok_iff (value : Bytes) (n : ℕ) :
    parseContentLength value = .ok n ↔ Denotes value n ∧ n < 2 ^ 64 := by
  unfold parseContentLength u64FromStrRadix
  by_cases hbad : (value.isEmpty || !value.all isAsciiDigit) = true
  · simp only [hbad, ↓reduceIte, reduceCtorEq, false_iff]
    rintro ⟨hd, _⟩
    have hall : value.all isAsciiDigit = true := List.all_eq_true.mpr hd.digits
    simp [hall, hd.ne_nil] at hbad
  · rw [if_neg hbad]
    simp only [Bool.or_eq_true, List.isEmpty_iff, Bool.not_eq_true', not_or,
      Bool.not_eq_false] at hbad
    by_cases hlt : digitsValue 10 value < 2 ^ 64
    · simp only [hlt, ↓reduceIte, Except.ok.injEq]
      constructor
      · rintro rfl
        exact ⟨⟨hbad.1, List.all_eq_true.mp hbad.2, rfl⟩, hlt⟩
      · exact fun h => h.1.value_eq
    · simp only [hlt, ↓reduceIte, reduceCtorEq, false_iff]
      rintro ⟨hd, hn⟩
      rw [hd.value_eq] at hlt
      exact hlt hn

variable {TypeId : Type} {E : TypeId → Type}

theorem bodyLength_of_no_transferEncoding {head : RequestHead E} (limit : UInt64)
    (h : namedValues head.headers (ascii "transfer-encoding") = []) :
    bodyLengthWithLimit head limit =
      match contentLengthLoop head.headers none with
      | .error e => .error e
      | .ok none => .ok .none
      | .ok (some 0) => .ok .none
      | .ok (some n) => if n > limit.toNat then .error .bodyTooLarge else .ok (.fixed n) := by
  rw [namedValues] at h
  simp only [bodyLengthWithLimit, h]

theorem bodyLength_of_transferEncoding {head : RequestHead E} (limit : UInt64)
    {first : Bytes} {others : List Bytes}
    (h : namedValues head.headers (ascii "transfer-encoding") = first :: others) :
    bodyLengthWithLimit head limit =
      if head.version ≠ .http11 ∨
          ¬ (others = [] ∧ eqIgnoreAsciiCase (strTrim first) (ascii "chunked") = true) then
        .error .transferEncodingUnsupported
      else if namedValues head.headers (ascii "content-length") ≠ [] then
        .error .contentLengthWithChunked
      else .ok .chunked := by
  rw [namedValues] at h
  have hany := any_name_iff head.headers (ascii "content-length")
  rw [← Bool.not_eq_true, not_iff_comm] at hany
  simp only [bodyLengthWithLimit, h, ne_eq, hany]
  congr 1
  simp [imp_iff_not_or]

theorem no_transferEncoding_of_ne_chunked {head : RequestHead E} {limit : UInt64}
    {length : BodyLength} (h : bodyLengthWithLimit head limit = .ok length)
    (hne : length ≠ .chunked) : namedValues head.headers (ascii "transfer-encoding") = [] := by
  cases hte : namedValues head.headers (ascii "transfer-encoding") with
  | nil => rfl
  | cons first others =>
    rw [bodyLength_of_transferEncoding limit hte] at h
    split_ifs at h
    exact absurd (Except.ok.inj h).symm hne

theorem contentLengthLoop_eq_some_iff (headers : List (Bytes × Bytes)) (n : ℕ) :
    contentLengthLoop headers none = .ok (some n) ↔
      (∃ v, namedValues headers (ascii "content-length") = [v] ∧ Denotes v n) ∧ n < 2 ^ 64 := by
  rw [contentLengthLoop_none]
  constructor
  · rintro (⟨-, hnone⟩ | ⟨v, m, hv, hm, heq⟩)
    · cases hnone
    · obtain rfl := Option.some.inj heq
      obtain ⟨hden, hlt⟩ := (parseContentLength_eq_ok_iff v n).mp hm
      exact ⟨⟨v, hv, hden⟩, hlt⟩
  · rintro ⟨⟨v, hv, hden⟩, hlt⟩
    exact .inr ⟨v, n, hv, (parseContentLength_eq_ok_iff v n).mpr ⟨hden, hlt⟩, rfl⟩

theorem contentLengthLoop_eq_none_iff (headers : List (Bytes × Bytes)) :
    contentLengthLoop headers none = .ok none ↔
      namedValues headers (ascii "content-length") = [] := by
  rw [contentLengthLoop_none]
  constructor
  · rintro (⟨hnil, -⟩ | ⟨v, m, -, -, hsome⟩)
    · exact hnil
    · cases hsome
  · exact fun hnil => .inl ⟨hnil, rfl⟩

theorem framing_fixed (head : RequestHead E) (limit : UInt64) (n : ℕ) :
    bodyLengthWithLimit head limit = .ok (.fixed n) ↔
      namedValues head.headers (ascii "transfer-encoding") = [] ∧
      (∃ v, namedValues head.headers (ascii "content-length") = [v] ∧ Denotes v n) ∧
      1 ≤ n ∧ n ≤ limit.toNat ∧ n < 2 ^ 64 := by
  constructor
  · intro h
    have hte := no_transferEncoding_of_ne_chunked h BodyLength.noConfusion
    rw [bodyLength_of_no_transferEncoding limit hte] at h
    split at h
    · cases h
    · cases h
    · cases h
    · rename_i m hm hloop
      split_ifs at h with hbig
      obtain rfl : m = n := BodyLength.fixed.inj (Except.ok.inj h)
      obtain ⟨hv, hlt⟩ := (contentLengthLoop_eq_some_iff _ _).mp hloop
      exact ⟨hte, hv, Nat.pos_of_ne_zero hm, Nat.not_lt.mp hbig, hlt⟩
  · rintro ⟨hte, hv, hpos, hle, hlt⟩
    have hloop := (contentLengthLoop_eq_some_iff head.headers n).mpr ⟨hv, hlt⟩
    obtain ⟨m, rfl⟩ : ∃ m, n = m + 1 := ⟨n - 1, by omega⟩
    rw [bodyLength_of_no_transferEncoding limit hte, hloop]
    exact if_neg (Nat.not_lt.mpr hle)

theorem framing_none (head : RequestHead E) (limit : UInt64) :
    bodyLengthWithLimit head limit = .ok .none ↔
      namedValues head.headers (ascii "transfer-encoding") = [] ∧
      (namedValues head.headers (ascii "content-length") = [] ∨
        ∃ v, namedValues head.headers (ascii "content-length") = [v] ∧ Denotes v 0) := by
  constructor
  · intro h
    have hte := no_transferEncoding_of_ne_chunked h BodyLength.noConfusion
    rw [bodyLength_of_no_transferEncoding limit hte] at h
    refine ⟨hte, ?_⟩
    split at h
    · cases h
    · rename_i hloop
      exact .inl ((contentLengthLoop_eq_none_iff _).mp hloop)
    · rename_i hloop
      exact .inr ((contentLengthLoop_eq_some_iff _ _).mp hloop).1
    · split_ifs at h
      cases h
  · rintro ⟨hte, hnil | hv⟩
    · rw [bodyLength_of_no_transferEncoding limit hte,
        (contentLengthLoop_eq_none_iff head.headers).mpr hnil]
    · rw [bodyLength_of_no_transferEncoding limit hte,
        (contentLengthLoop_eq_some_iff head.headers 0).mpr ⟨hv, by decide⟩]
      rfl

end ContentLength

section TransferEncoding

theorem lower_mem_chunked {mid : Bytes} (h : eqIgnoreAsciiCase mid (ascii "chunked") = true) :
    ∀ b ∈ mid, toAsciiLowercase b ∈ ascii "chunked" := by
  have heq : mid.map toAsciiLowercase = (ascii "chunked").map toAsciiLowercase := by
    simpa [eqIgnoreAsciiCase] using h
  have hlow : (ascii "chunked").map toAsciiLowercase = ascii "chunked" := by decide
  intro b hb
  rw [← hlow, ← heq]
  exact List.mem_map_of_mem hb

theorem letter_facts {b : UInt8} (h : toAsciiLowercase b ∈ ascii "chunked") :
    b < 128 ∧ isOws b = false ∧ isWhitespace (Char.ofNat b.toNat) = false := by
  revert b
  apply forall_byte
  decide +kernel

theorem chunked_ne_nil {mid : Bytes} (h : eqIgnoreAsciiCase mid (ascii "chunked") = true) :
    mid ≠ [] := by
  rintro rfl
  exact absurd h (by decide)

theorem head_letter {mid : Bytes} (h : eqIgnoreAsciiCase mid (ascii "chunked") = true) :
    ∀ b ∈ mid.head?, toAsciiLowercase b ∈ ascii "chunked" :=
  fun b hb => lower_mem_chunked h b (List.mem_of_mem_head? hb)

theorem last_letter {mid : Bytes} (h : eqIgnoreAsciiCase mid (ascii "chunked") = true) :
    ∀ b ∈ mid.getLast?, toAsciiLowercase b ∈ ascii "chunked" :=
  fun b hb => lower_mem_chunked h b (List.mem_of_getLast? hb)

theorem encode_letters {mid : Bytes} (h : eqIgnoreAsciiCase mid (ascii "chunked") = true) :
    encode (ofAscii mid) = mid :=
  encode_ofAscii fun b hb => (letter_facts (lower_mem_chunked h b hb)).1

theorem ofAscii_letters {mid : Bytes} (h : eqIgnoreAsciiCase mid (ascii "chunked") = true) :
    ofAscii mid ≠ [] ∧ (∀ c ∈ (ofAscii mid).head?, isWhitespace c = false) ∧
      ∀ c ∈ (ofAscii mid).getLast?, isWhitespace c = false := by
  refine ⟨by simpa [ofAscii] using chunked_ne_nil h, ?_, ?_⟩
  · intro c hc
    rw [ofAscii, List.head?_map, Option.mem_map] at hc
    obtain ⟨b, hb, rfl⟩ := hc
    exact (letter_facts (head_letter h b hb)).2.2
  · intro c hc
    rw [ofAscii, List.getLast?_map, Option.mem_map] at hc
    obtain ⟨b, hb, rfl⟩ := hc
    exact (letter_facts (last_letter h b hb)).2.2

/-- `value` is `chunked`, in any case, between characters of a class. -/
def PaddedBy (class_ : Char → Prop) (value : Bytes) : Prop :=
  ∃ (pre post : List Char) (mid : Bytes), value = encode pre ++ mid ++ encode post ∧
    eqIgnoreAsciiCase mid (ascii "chunked") = true ∧ ∀ c ∈ pre ++ post, class_ c

/-- `str::trim` leaves `chunked` of the values that are padded with any white space. -/
theorem strTrim_chunked_iff {v : Bytes} (hv : fromUtf8IsErr v = false) :
    eqIgnoreAsciiCase (strTrim v) (ascii "chunked") = true ↔
      PaddedBy (fun c => isWhitespace c = true) v := by
  constructor
  · intro h
    cases hd : decode v with
    | none => simp [fromUtf8IsErr, hd] at hv
    | some cs =>
      simp only [strTrim, hd] at h
      obtain ⟨pre, post, hcs, hpre, hpost⟩ := trimBy_split isWhitespace cs
      refine ⟨pre, post, _, ?_, h, ?_⟩
      · rw [← encode_append, ← encode_append, ← hcs]
        exact (decode_eq_some_iff v cs).mp hd
      · intro c hc
        obtain hc | hc := List.mem_append.mp hc
        · exact hpre c hc
        · exact hpost c hc
  · rintro ⟨pre, post, mid, rfl, hmid, hpad⟩
    obtain ⟨hne, hhead, hlast⟩ := ofAscii_letters hmid
    have henc : encode pre ++ mid ++ encode post = encode (pre ++ ofAscii mid ++ post) := by
      rw [encode_append, encode_append, encode_letters hmid]
    have htrim := trimBy_append isWhitespace
      (fun c hc => hpad c (List.mem_append_left _ hc))
      (fun c hc => hpad c (List.mem_append_right _ hc)) hne hhead hlast
    rw [henc, strTrim, decode_encode]
    simp only [htrim, encode_letters hmid, hmid]

theorem encode_ows {cs : List Char} (h : ∀ c ∈ cs, c = ' ' ∨ c = '\t') :
    ∀ b ∈ encode cs, isOws b = true := by
  intro b hb
  obtain ⟨c, hc, hbc⟩ := List.mem_flatMap.mp hb
  obtain rfl | rfl := h c hc
  · have hsp : b ∈ [(32 : UInt8)] := hbc
    rw [List.mem_singleton.mp hsp]
    rfl
  · have htab : b ∈ [(9 : UInt8)] := hbc
    rw [List.mem_singleton.mp htab]
    rfl

theorem ofAscii_ows {bs : Bytes} (h : ∀ b ∈ bs, isOws b = true) :
    encode (ofAscii bs) = bs ∧ ∀ c ∈ ofAscii bs, c = ' ' ∨ c = '\t' := by
  have hows : ∀ b ∈ bs, b = 32 ∨ b = 9 := fun b hb => by simpa [isOws] using h b hb
  constructor
  · apply encode_ofAscii
    intro b hb
    obtain rfl | rfl := hows b hb
    · decide
    · decide
  · intro c hc
    obtain ⟨b, hb, rfl⟩ := List.mem_map.mp hc
    obtain rfl | rfl := hows b hb
    · exact .inl rfl
    · exact .inr rfl

/-- Trimming SP and HTAB leaves `chunked` of the values that are padded with these. -/
theorem trimOws_chunked_iff (v : Bytes) :
    eqIgnoreAsciiCase (trimBy isOws v) (ascii "chunked") = true ↔
      PaddedBy (fun c => c = ' ' ∨ c = '\t') v := by
  constructor
  · intro h
    obtain ⟨pre, post, hv, hpre, hpost⟩ := trimBy_split isOws v
    obtain ⟨hpre_eq, hpre_ows⟩ := ofAscii_ows hpre
    obtain ⟨hpost_eq, hpost_ows⟩ := ofAscii_ows hpost
    refine ⟨ofAscii pre, ofAscii post, _, ?_, h, ?_⟩
    · rw [hpre_eq, hpost_eq]
      exact hv
    · intro c hc
      obtain hc | hc := List.mem_append.mp hc
      · exact hpre_ows c hc
      · exact hpost_ows c hc
  · rintro ⟨pre, post, mid, rfl, hmid, hpad⟩
    rw [trimBy_append isOws (encode_ows fun c hc => hpad c (List.mem_append_left _ hc))
      (encode_ows fun c hc => hpad c (List.mem_append_right _ hc)) (chunked_ne_nil hmid)
      (fun b hb => (letter_facts (head_letter hmid b hb)).2.1)
      (fun b hb => (letter_facts (last_letter hmid b hb)).2.1)]
    exact hmid

theorem isWhitespace_of_ows {c : Char} (h : c = ' ' ∨ c = '\t') : isWhitespace c = true := by
  obtain rfl | rfl := h
  · rfl
  · rfl

/-- Two readings of a value as padded `chunked` have the same padding. -/
theorem padding_unique {pre post pre' post' : List Char} {mid mid' : Bytes}
    (h : encode pre ++ mid ++ encode post = encode pre' ++ mid' ++ encode post')
    (hmid : eqIgnoreAsciiCase mid (ascii "chunked") = true)
    (hmid' : eqIgnoreAsciiCase mid' (ascii "chunked") = true)
    (hpad : ∀ c ∈ pre ++ post, isWhitespace c = true)
    (hpad' : ∀ c ∈ pre' ++ post', isWhitespace c = true) : pre = pre' ∧ post = post' := by
  obtain ⟨hne, hhead, hlast⟩ := ofAscii_letters hmid
  obtain ⟨hne', hhead', hlast'⟩ := ofAscii_letters hmid'
  have hchars : pre ++ ofAscii mid ++ post = pre' ++ ofAscii mid' ++ post' := by
    apply encode_injective
    simpa [encode_letters hmid, encode_letters hmid'] using h
  exact trimBy_unique isWhitespace hchars
    (fun c hc => hpad c (List.mem_append_left _ hc))
    (fun c hc => hpad c (List.mem_append_right _ hc))
    (fun c hc => hpad' c (List.mem_append_left _ hc))
    (fun c hc => hpad' c (List.mem_append_right _ hc))
    hne hhead hlast hne' hhead' hlast'

variable {TypeId : Type} {E : TypeId → Type}

theorem bodyLength_chunked_iff (head : RequestHead E) (limit : UInt64)
    (hvalid : ∀ p ∈ head.headers, fromUtf8IsErr p.2 = false) :
    bodyLengthWithLimit head limit = .ok .chunked ↔
      head.version = .http11 ∧
      (∃ v, namedValues head.headers (ascii "transfer-encoding") = [v] ∧
        PaddedBy (fun c => isWhitespace c = true) v) ∧
      namedValues head.headers (ascii "content-length") = [] := by
  cases hte : namedValues head.headers (ascii "transfer-encoding") with
  | nil =>
    rw [bodyLength_of_no_transferEncoding limit hte]
    constructor
    · intro h
      split at h
      · cases h
      · cases h
      · cases h
      · split_ifs at h
        cases h
    · rintro ⟨_, ⟨v, hv, _⟩, _⟩
      cases hv
  | cons first others =>
    have hmem : first ∈ namedValues head.headers (ascii "transfer-encoding") := by simp [hte]
    obtain ⟨p, hp, rfl⟩ := List.mem_map.mp hmem
    have htrim := strTrim_chunked_iff (hvalid p (List.mem_filter.mp hp).1)
    rw [bodyLength_of_transferEncoding limit hte]
    constructor
    · intro h
      split_ifs at h with hbad hcl
      simp only [ne_eq, not_or, not_not] at hbad hcl
      exact ⟨hbad.1, ⟨p.2, by rw [hbad.2.1], htrim.mp hbad.2.2⟩, hcl⟩
    · rintro ⟨hver, ⟨v, hv, hpad⟩, hcl⟩
      obtain ⟨rfl, rfl⟩ := List.cons.inj hv
      rw [if_neg (by simp [hver, htrim.mpr hpad]), if_neg (by simp [hcl])]

/-- The framing of a parsed head follows the documented law exactly when the value of its
`Transfer-Encoding` is not `chunked` between white space other than SP and HTAB. -/
theorem framingLaw_iff_not_unicodePadded (buf : Bytes) (head : RequestHead E) (consumed : ℕ)
    (limit : UInt64) (h : parseRequestHead buf = .ok (.complete head consumed)) :
    FramingLaw head limit ↔ ¬ UnicodePadded head := by
  have hchunked := bodyLength_chunked_iff head limit (parseRequestHead_values h)
  constructor
  · rintro law ⟨hver, hcl, pre, post, mid, hte, hmid, hpad, c, hc, hnot⟩
    have hok := hchunked.mpr ⟨hver, ⟨_, hte, pre, post, mid, rfl, hmid, hpad⟩, hcl⟩
    obtain ⟨_, ⟨v, hv, htrim⟩, _⟩ := law.chunked.mp hok
    rw [hte] at hv
    obtain ⟨pre', post', mid', heq, hmid', hpad'⟩ := (trimOws_chunked_iff v).mp htrim
    rw [← (List.cons.inj hv).1] at heq
    obtain ⟨rfl, rfl⟩ := padding_unique heq hmid hmid' hpad
      fun c hc => isWhitespace_of_ows (hpad' c hc)
    obtain rfl | rfl := hpad' c hc
    · exact hnot.1 rfl
    · exact hnot.2 rfl
  · intro hnot
    have hlaw : bodyLengthWithLimit head limit = .ok .chunked ↔
        head.version = .http11 ∧ (∃ v, namedValues head.headers (ascii "transfer-encoding") = [v] ∧
          eqIgnoreAsciiCase (trimBy isOws v) (ascii "chunked") = true) ∧
        namedValues head.headers (ascii "content-length") = [] := by
      rw [hchunked]
      constructor
      · rintro ⟨hver, ⟨v, hv, pre, post, mid, rfl, hmid, hpad⟩, hcl⟩
        refine ⟨hver, ⟨_, hv, ?_⟩, hcl⟩
        rw [trimOws_chunked_iff]
        refine ⟨pre, post, mid, rfl, hmid, ?_⟩
        by_contra hother
        push Not at hother
        obtain ⟨c, hc, hsp⟩ := hother
        exact hnot ⟨hver, hcl, pre, post, mid, hv, hmid, hpad, c, hc, hsp⟩
      · rintro ⟨hver, ⟨v, hv, htrim⟩, hcl⟩
        obtain ⟨pre, post, mid, heq, hmid, hpad⟩ := (trimOws_chunked_iff v).mp htrim
        exact ⟨hver, ⟨v, hv, pre, post, mid, heq, hmid,
          fun c hc => isWhitespace_of_ows (hpad c hc)⟩, hcl⟩
    refine ⟨hlaw, framing_fixed head limit, framing_none head limit, ?_⟩
    intro hok v hv b hb
    obtain ⟨_, ⟨w, hw, htrim⟩, _⟩ := hlaw.mp hok
    rw [hw, List.mem_singleton] at hv
    subst hv
    obtain ⟨pre, post, hsplit, hpre, hpost⟩ := trimBy_split isOws v
    rw [hsplit, List.mem_append, List.mem_append] at hb
    obtain (hb | hb) | hb := hb
    · exact .inl (hpre b hb)
    · exact .inr (lower_mem_chunked htrim b hb)
    · exact .inl (hpost b hb)

def nbspChunkedRequest : Bytes :=
  ascii "POST / HTTP/1.1\r\nTransfer-Encoding: " ++ [0xc2, 0xa0] ++ ascii "chunked\r\n\r\n"

def nbspChunkedHead : RequestHead (fun _ : Unit => Unit) :=
  { buf := nbspChunkedRequest.take 45
    methodRange := ⟨0, 4⟩
    targetRange := ⟨5, 6⟩
    version := .http11
    headerRanges := [(⟨17, 34⟩, ⟨36, 45⟩)]
    extensions := .new }

theorem framingLaw_nbspChunkedRequest :
    parseRequestHead nbspChunkedRequest = .ok (.complete nbspChunkedHead 49) ∧
      bodyLengthWithLimit nbspChunkedHead 10 = .ok .chunked ∧
      ¬ FramingLaw nbspChunkedHead 10 := by
  have hok : bodyLengthWithLimit nbspChunkedHead 10 = .ok .chunked := by decide
  refine ⟨by rfl, hok, fun law => ?_⟩
  obtain ⟨_, ⟨v, hv, htrim⟩, _⟩ := law.chunked.mp hok
  have hvalue : namedValues nbspChunkedHead.headers (ascii "transfer-encoding") =
      [[0xc2, 0xa0] ++ ascii "chunked"] := by decide
  rw [hvalue] at hv
  rw [← (List.cons.inj hv).1] at htrim
  exact absurd htrim (by decide)

theorem framingLaw_iff_at_nbspChunkedRequest :
    FramingLaw nbspChunkedHead 10 ↔ ¬ UnicodePadded nbspChunkedHead :=
  framingLaw_iff_not_unicodePadded nbspChunkedRequest nbspChunkedHead 49 10 (by rfl)

end TransferEncoding

end FandheBackend.HttpBodyLength
