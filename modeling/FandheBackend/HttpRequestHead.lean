import FandheBackend.HttpExtensions
import FandheBackend.PatternSearch
import FandheBackend.StdBytes
import FandheBackend.Utf8Text

set_option autoImplicit false

/-!
# Request heads (`crates/http/src/request.rs`)

The parser of the request line and the headers. A head keeps one copy of the head
section and stores the method, the target and each header as ranges of it.
-/
namespace FandheBackend.HttpRequestHead
open StdBytes PatternSearch HttpExtensions

def maxHeaderBytes : ℕ := 16 * 1024
def maxHeaderCount : ℕ := 100

inductive HttpVersion where
  | http10
  | http11
  deriving DecidableEq, Repr

structure Range where
  start : ℕ
  stop : ℕ
  deriving DecidableEq, Repr

/-- `&bytes[range]`. -/
def slice (bytes : Bytes) (r : Range) : Bytes := (bytes.take r.stop).drop r.start

structure RequestHead {TypeId : Type} (E : TypeId → Type) where
  buf : Bytes
  methodRange : Range
  targetRange : Range
  version : HttpVersion
  headerRanges : List (Range × Range)
  extensions : RequestExtensions E

namespace RequestHead
variable {TypeId : Type} {E : TypeId → Type}

def method (head : RequestHead E) : Bytes := slice head.buf head.methodRange

def target (head : RequestHead E) : Bytes := slice head.buf head.targetRange

def path (head : RequestHead E) : Bytes := head.target.takeWhile (· != 63)

def query (head : RequestHead E) : Option Bytes := (head.target.dropWhile (· != 63)).tail?

def headers (head : RequestHead E) : List (Bytes × Bytes) :=
  head.headerRanges.map fun r => (slice head.buf r.1, slice head.buf r.2)

def header (head : RequestHead E) (name : Bytes) : Option Bytes :=
  (head.headerRanges.find? fun r => eqIgnoreAsciiCase (slice head.buf r.1) name).map
    fun r => slice head.buf r.2

end RequestHead

inductive ParseOutcome {TypeId : Type} (E : TypeId → Type) where
  | complete (head : RequestHead E) (consumed : ℕ)
  | incomplete

inductive ParseError where
  | headerSectionTooLarge
  | tooManyHeaders
  | invalidRequestLine
  | unsupportedVersion
  | invalidHeader
  deriving DecidableEq, Repr

def shiftRange (range : Range) (offset : ℕ) : Range :=
  ⟨range.start + offset, range.stop + offset⟩

/-- `memmem::find` gives the first occurrence. -/
def findSubslice (haystack needle : Bytes) : Option ℕ :=
  if needle.isEmpty || haystack.length < needle.length then none
  else findFirst needle haystack

/-- `CrlfSplit::next` at a position, with the position it goes on from. -/
def crlfSplitNext (text : Bytes) (start : ℕ) : Range × Option ℕ :=
  match findSubslice (text.drop start) crlf with
  | some relPos => (⟨start, start + relPos⟩, some (start + relPos + 2))
  | none => (⟨start, text.length⟩, none)

def crlfSplitFrom (text : Bytes) : ℕ → Option ℕ → List Range
  | _, none => []
  | 0, some _ => []
  | fuel + 1, some start =>
    let step := crlfSplitNext text start
    step.1 :: crlfSplitFrom text fuel step.2

/-- Every turn but the last moves past a line end, so the length is enough fuel. -/
def splitByCrlf (text : Bytes) : List Range := crlfSplitFrom text (text.length + 1) (some 0)

def isTchar (b : UInt8) : Bool :=
  (ascii "!#$%&'*+-.^_`|~").contains b || isAsciiAlphanumeric b

def isForbiddenCtl (b : UInt8) (allowHtab : Bool) : Bool :=
  if allowHtab && b == 9 then false else b < 32 || b == 127

/-- `SpSplit::next`: the segment with its offset, and the position it goes on from. -/
def spSplitNext (line : Bytes) : Option ℕ → Option (ℕ × Bytes) × Option ℕ
  | none => (none, none)
  | some start =>
    match (line.drop start).findIdx? (· == 32) with
    | some relPos =>
      (some (start, slice line ⟨start, start + relPos⟩), some (start + relPos + 1))
    | none => (some (start, line.drop start), none)

def fromUtf8IsErr (bytes : Bytes) : Bool := (Utf8Text.decode bytes).isNone

def parseVersion (version : Bytes) : Except ParseError HttpVersion :=
  if !(ascii "HTTP/").isPrefixOf version then .error .invalidRequestLine
  else if version.drop 5 = ascii "1.1" then .ok .http11
  else if version.drop 5 = ascii "1.0" then .ok .http10
  else .error .unsupportedVersion

def parseRequestLine (line : Bytes) : Except ParseError (Range × Range × HttpVersion) :=
  if line.any (isForbiddenCtl · false) then .error .invalidRequestLine
  else
    let nonEmpty := fun part : ℕ × Bytes => !part.2.isEmpty
    let first := spSplitNext line (some 0)
    let second := spSplitNext line first.2
    let third := spSplitNext line second.2
    let fourth := spSplitNext line third.2
    if fourth.1.isSome then .error .invalidRequestLine
    else match first.1.filter nonEmpty, second.1.filter nonEmpty, third.1.filter nonEmpty with
      | some (methodStart, method), some (targetStart, target), some (_, version) =>
        if !method.all isTchar then .error .invalidRequestLine
        else if target.isEmpty then .error .invalidRequestLine
        else match parseVersion version with
          | .error e => .error e
          | .ok httpVersion =>
            if fromUtf8IsErr method || fromUtf8IsErr target then .error .invalidRequestLine
            else .ok (⟨methodStart, methodStart + method.length⟩,
              ⟨targetStart, targetStart + target.length⟩, httpVersion)
      | _, _, _ => .error .invalidRequestLine

def isOws (b : UInt8) : Bool := b == 32 || b == 9

def rposition (p : UInt8 → Bool) (bytes : Bytes) : Option ℕ :=
  (bytes.reverse.findIdx? p).map fun i => bytes.length - 1 - i

def trimOwsRange (bytes : Bytes) : Range :=
  let start := (bytes.findIdx? (!isOws ·)).getD bytes.length
  let stop := ((rposition (!isOws ·) bytes).map (· + 1)).getD start
  ⟨start, stop⟩

def parseHeaderLine (line : Bytes) : Except ParseError (Range × Range) :=
  match line.findIdx? (· == 58) with
  | none => .error .invalidHeader
  | some colonPos =>
    let name := line.take colonPos
    let valueRaw := line.drop (colonPos + 1)
    if name.isEmpty || !name.all isTchar then .error .invalidHeader
    else
      let valueRel := trimOwsRange valueRaw
      let value := slice valueRaw valueRel
      if value.any (isForbiddenCtl · true) then .error .invalidHeader
      else if fromUtf8IsErr name || fromUtf8IsErr value then .error .invalidHeader
      else .ok (⟨0, colonPos⟩, ⟨colonPos + 1 + valueRel.start, colonPos + 1 + valueRel.stop⟩)

def parseHeaderLines (headerSection : Bytes) :
    List Range → List (Range × Range) → Except ParseError (List (Range × Range))
  | [], headers => .ok headers
  | lineRange :: lines, headers =>
    if headers.length ≥ maxHeaderCount then .error .tooManyHeaders
    else match parseHeaderLine (slice headerSection lineRange) with
      | .error e => .error e
      | .ok (nameRel, valueRel) =>
        parseHeaderLines headerSection lines
          (headers ++ [(shiftRange nameRel lineRange.start, shiftRange valueRel lineRange.start)])

section
variable {TypeId : Type} {E : TypeId → Type}

/-- The part of `parse_request_head` that follows the search for the terminator. -/
def parseHeaderSection (headerSection : Bytes) : Except ParseError (RequestHead E) :=
  match splitByCrlf headerSection with
  | [] => .error .invalidRequestLine
  | requestLineRange :: lines =>
    match parseRequestLine (slice headerSection requestLineRange) with
    | .error e => .error e
    | .ok (methodRel, targetRel, version) =>
      match parseHeaderLines headerSection lines [] with
      | .error e => .error e
      | .ok headers =>
        if fromUtf8IsErr headerSection then .error .invalidHeader
        else .ok
          { buf := headerSection
            methodRange := shiftRange methodRel requestLineRange.start
            targetRange := shiftRange targetRel requestLineRange.start
            version
            headerRanges := headers
            extensions := .new }

def terminator : Bytes := crlf ++ crlf

def parseRequestHead (buf : Bytes) : Except ParseError (ParseOutcome E) :=
  match findSubslice buf terminator with
  | some pos =>
    if pos + terminator.length > maxHeaderBytes then .error .headerSectionTooLarge
    else match parseHeaderSection (buf.take pos) with
      | .error e => .error e
      | .ok head => .ok (.complete head (pos + terminator.length))
  | none =>
    if buf.length ≥ maxHeaderBytes then .error .headerSectionTooLarge
    else .ok .incomplete

theorem findSubslice_eq {haystack needle : Bytes} (hne : needle ≠ []) :
    findSubslice haystack needle = findFirst needle haystack := by
  unfold findSubslice
  split_ifs with h
  · have hshort : haystack.length < needle.length := by simpa [hne] using h
    symm
    rw [findFirst_eq_none_iff]
    intro j hj
    have := hj.length_le
    rw [List.length_drop] at this
    omega
  · rfl

theorem findSubslice_terminator (buf : Bytes) :
    findSubslice buf terminator = findFirst terminator buf :=
  findSubslice_eq (by decide)

theorem parseRequestHead_complete {buf : Bytes} {head : RequestHead E} {consumed : ℕ}
    (h : parseRequestHead buf = .ok (.complete head consumed)) :
    ∃ pos, findFirst terminator buf = some pos ∧ consumed = pos + terminator.length ∧
      consumed ≤ maxHeaderBytes ∧ parseHeaderSection (buf.take pos) = .ok head := by
  unfold parseRequestHead at h
  rw [findSubslice_terminator] at h
  cases hf : findFirst terminator buf with
  | none =>
    simp only [hf] at h
    split_ifs at h
    cases h
  | some pos =>
    simp only [hf] at h
    split_ifs at h with hlen
    cases hp : parseHeaderSection (E := E) (buf.take pos) with
    | error e => simp [hp] at h
    | ok head' =>
      simp only [hp, Except.ok.injEq, ParseOutcome.complete.injEq] at h
      obtain ⟨rfl, rfl⟩ := h
      exact ⟨pos, rfl, rfl, by omega, hp⟩

theorem parseRequestHead_complete_bounds {buf : Bytes} {head : RequestHead E} {consumed : ℕ}
    (h : parseRequestHead buf = .ok (.complete head consumed)) :
    4 ≤ consumed ∧ consumed ≤ buf.length := by
  obtain ⟨pos, hf, rfl, _, _⟩ := parseRequestHead_complete h
  exact ⟨Nat.le_add_left 4 pos, findFirst_length_le hf⟩

theorem parseRequestHead_append_complete {p : Bytes} {head : RequestHead E} {consumed : ℕ}
    (h : parseRequestHead p = .ok (.complete head consumed)) (q : Bytes) :
    parseRequestHead (p ++ q) = .ok (.complete head consumed) := by
  obtain ⟨pos, hf, rfl, hlen, hp⟩ := parseRequestHead_complete h
  have hle := findFirst_length_le hf
  have hpos : ¬ pos + terminator.length > maxHeaderBytes := by omega
  have htake : (p ++ q).take pos = p.take pos := List.take_append_of_le_length (by omega)
  unfold parseRequestHead
  rw [findSubslice_terminator, findFirst_append_of_some q hf]
  simp only [hpos, ↓reduceIte, htake, hp]

theorem parseRequestHead_append_error {p : Bytes} {e : ParseError}
    (h : parseRequestHead (E := E) p = .error e) (q : Bytes) :
    parseRequestHead (E := E) (p ++ q) = .error e := by
  unfold parseRequestHead at h ⊢
  rw [findSubslice_terminator] at h ⊢
  cases hf : findFirst terminator p with
  | some pos =>
    have hle := findFirst_length_le hf
    have htake : (p ++ q).take pos = p.take pos := List.take_append_of_le_length (by omega)
    simp only [hf] at h
    simp only [findFirst_append_of_some q hf, htake]
    exact h
  | none =>
    simp only [hf] at h
    split_ifs at h with hbig
    cases h
    cases hq : findFirst terminator (p ++ q) with
    | some pos =>
      have hlt := findFirst_append_of_none hf hq
      have hpos : pos + terminator.length > maxHeaderBytes := by omega
      simp only [hpos, ↓reduceIte]
    | none =>
      have hlong : (p ++ q).length ≥ maxHeaderBytes := by
        rw [List.length_append]
        omega
      simp only [hlong, ↓reduceIte]

theorem parseRequestHead_incomplete_length {p : Bytes}
    (h : parseRequestHead (E := E) p = .ok .incomplete) :
    findFirst terminator p = none ∧ p.length < maxHeaderBytes := by
  unfold parseRequestHead at h
  rw [findSubslice_terminator] at h
  cases hf : findFirst terminator p with
  | some pos =>
    simp only [hf] at h
    split_ifs at h
    cases hp : parseHeaderSection (E := E) (p.take pos) with
    | error e => simp [hp] at h
    | ok head => simp [hp] at h
  | none =>
    simp only [hf] at h
    split_ifs at h with hbig
    exact ⟨rfl, by omega⟩

/-- Bytes that arrive later change `Incomplete` and nothing else. -/
theorem parseRequestHead_append_stable (p q : Bytes) :
    (∀ (head : RequestHead E) consumed, parseRequestHead p = .ok (.complete head consumed) →
      parseRequestHead (p ++ q) = .ok (.complete head consumed)) ∧
    (∀ e, parseRequestHead (E := E) p = .error e → parseRequestHead (E := E) (p ++ q) = .error e) ∧
    (parseRequestHead (E := E) (p ++ q) ≠ parseRequestHead p →
      parseRequestHead (E := E) p = .ok .incomplete) ∧
    (16384 ≤ p.length → parseRequestHead (E := E) p ≠ .ok .incomplete) := by
  refine ⟨fun head consumed h => parseRequestHead_append_complete h q,
    fun e h => parseRequestHead_append_error h q, ?_, ?_⟩
  · intro hchange
    cases hp : parseRequestHead (E := E) p with
    | error e => exact absurd (parseRequestHead_append_error hp q) (hp ▸ hchange)
    | ok outcome =>
      cases outcome with
      | complete head consumed =>
        exact absurd (parseRequestHead_append_complete hp q) (hp ▸ hchange)
      | incomplete => rfl
  · intro hlong hp
    have hshort := (parseRequestHead_incomplete_length hp).2
    rw [maxHeaderBytes] at hshort
    omega

end

section Values

theorem slice_shiftRange (text : Bytes) (line r : Range)
    (h : r.stop ≤ (slice text line).length) :
    slice text (shiftRange r line.start) = slice (slice text line) r := by
  simp only [slice, List.length_drop, List.length_take] at h
  by_cases hz : r.stop = 0
  · simp [slice, shiftRange, hz]
  · simp only [slice, shiftRange]
    rw [List.drop_take, List.drop_take, List.drop_take, List.drop_take, List.take_take,
      List.drop_drop]
    congr 1
    · omega
    · congr 1
      omega

theorem trimOwsRange_stop_le (bytes : Bytes) : (trimOwsRange bytes).stop ≤ bytes.length := by
  have hstart : (bytes.findIdx? (!isOws ·)).getD bytes.length ≤ bytes.length := by
    cases h : bytes.findIdx? (!isOws ·) with
    | none => simp
    | some i => simpa using (List.findIdx?_eq_some_iff_findIdx_eq.mp h).1.le
  unfold trimOwsRange rposition
  cases h : bytes.reverse.findIdx? (!isOws ·) with
  | none => simpa using hstart
  | some i =>
    have hlt := (List.findIdx?_eq_some_iff_findIdx_eq.mp h).1
    rw [List.length_reverse] at hlt
    simp only [Option.map_some, Option.getD_some]
    omega

theorem parseHeaderLine_value {line : Bytes} {name value : Range}
    (h : parseHeaderLine line = .ok (name, value)) :
    value.stop ≤ line.length ∧ fromUtf8IsErr (slice line value) = false := by
  unfold parseHeaderLine at h
  cases hc : line.findIdx? (· == 58) with
  | none => simp [hc] at h
  | some colonPos =>
    have hlt := (List.findIdx?_eq_some_iff_findIdx_eq.mp hc).1
    have hstop := trimOwsRange_stop_le (line.drop (colonPos + 1))
    rw [List.length_drop] at hstop
    simp only [hc] at h
    split_ifs at h with h1 h2 h3
    simp only [Except.ok.injEq, Prod.mk.injEq] at h
    obtain ⟨_, rfl⟩ := h
    have hslice : slice line ⟨colonPos + 1 + (trimOwsRange (line.drop (colonPos + 1))).start,
        colonPos + 1 + (trimOwsRange (line.drop (colonPos + 1))).stop⟩ =
        slice (line.drop (colonPos + 1)) (trimOwsRange (line.drop (colonPos + 1))) := by
      simp only [slice]
      rw [List.drop_take, List.drop_take, List.drop_drop]
      congr 1
      omega
    refine ⟨by simp only; omega, ?_⟩
    rw [hslice]
    simp only [Bool.or_eq_true, not_or, Bool.not_eq_true] at h3
    exact h3.2

theorem parseHeaderLines_values {text : Bytes} {lines : List Range}
    {acc headers : List (Range × Range)} (h : parseHeaderLines text lines acc = .ok headers)
    (hacc : ∀ r ∈ acc, fromUtf8IsErr (slice text r.2) = false) :
    ∀ r ∈ headers, fromUtf8IsErr (slice text r.2) = false := by
  induction lines generalizing acc with
  | nil =>
    cases h
    exact hacc
  | cons line lines ih =>
    simp only [parseHeaderLines] at h
    split_ifs at h
    cases hl : parseHeaderLine (slice text line) with
    | error e => simp [hl] at h
    | ok p =>
      obtain ⟨name, value⟩ := p
      obtain ⟨hstop, hvalid⟩ := parseHeaderLine_value hl
      simp only [hl] at h
      apply ih h
      intro r hr
      rw [List.mem_append, List.mem_singleton] at hr
      obtain hr | rfl := hr
      · exact hacc r hr
      · rw [slice_shiftRange text line value hstop]
        exact hvalid

variable {TypeId : Type} {E : TypeId → Type}

theorem parseHeaderSection_ok {text : Bytes} {head : RequestHead E}
    (h : parseHeaderSection text = .ok head) :
    head.buf = text ∧ head.extensions = .new ∧
      ∃ lines, parseHeaderLines text lines [] = .ok head.headerRanges := by
  unfold parseHeaderSection at h
  cases hs : splitByCrlf text with
  | nil => simp [hs] at h
  | cons line lines =>
    simp only [hs] at h
    cases hr : parseRequestLine (slice text line) with
    | error e => simp [hr] at h
    | ok r =>
      cases hh : parseHeaderLines text lines [] with
      | error e => simp [hr, hh] at h
      | ok headers =>
        simp only [hr, hh] at h
        split_ifs at h
        cases h
        exact ⟨rfl, rfl, lines, hh⟩

theorem parseRequestHead_values {buf : Bytes} {head : RequestHead E} {consumed : ℕ}
    (h : parseRequestHead buf = .ok (.complete head consumed)) :
    ∀ p ∈ head.headers, fromUtf8IsErr p.2 = false := by
  obtain ⟨pos, _, _, _, hp⟩ := parseRequestHead_complete h
  obtain ⟨hbuf, _, lines, hlines⟩ := parseHeaderSection_ok hp
  intro p hp
  obtain ⟨ranges, hmem, rfl⟩ := List.mem_map.mp hp
  rw [hbuf]
  exact parseHeaderLines_values hlines (by simp) ranges hmem

theorem parseRequestHead_extensions {buf : Bytes} {head : RequestHead E} {consumed : ℕ}
    (h : parseRequestHead buf = .ok (.complete head consumed)) : head.extensions = .new := by
  obtain ⟨pos, _, _, _, hp⟩ := parseRequestHead_complete h
  exact (parseHeaderSection_ok hp).2.1

end Values

end FandheBackend.HttpRequestHead
