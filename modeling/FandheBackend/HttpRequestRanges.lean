import FandheBackend.HttpRequestCookies
import FandheBackend.HttpRequestGrammar

set_option autoImplicit false

/-!
# The ranges of a parsed head

The accessors of `RequestHead` index a `str` with the stored ranges, which panics when a range
leaves the text or cuts a character. Here they are with that panic, and none of them meets it.
-/
namespace FandheBackend.HttpRequestRanges
open StdBytes HttpRequestHead HttpRequestGrammar HttpRequestCookies PatternSplit Utf8Text

section Indexing

/-- `&text[range]` on a `str`; `none` stands for the panic. -/
def strIndex (text : Bytes) (r : Range) : Option Bytes :=
  if r.start ≤ r.stop && isCharBoundary text r.start && isCharBoundary text r.stop then
    some (slice text r)
  else none

variable {TypeId : Type} {E : TypeId → Type}

def indexMethod (head : RequestHead E) : Option Bytes := strIndex head.buf head.methodRange

def indexTarget (head : RequestHead E) : Option Bytes := strIndex head.buf head.targetRange

def indexPath (head : RequestHead E) : Option Bytes :=
  (indexTarget head).map fun target => target.takeWhile (· != 63)

def indexQuery (head : RequestHead E) : Option (Option Bytes) :=
  (indexTarget head).map fun target => (target.dropWhile (· != 63)).tail?

/-- Names are indexed up to the one that is asked for, and then its value. -/
def indexHeaderFrom (buf name : Bytes) : List (Range × Range) → Option (Option Bytes)
  | [] => some none
  | (k, v) :: rest =>
    match strIndex buf k with
    | none => none
    | some key =>
      if eqIgnoreAsciiCase key name then (strIndex buf v).map some
      else indexHeaderFrom buf name rest

def indexHeader (head : RequestHead E) (name : Bytes) : Option (Option Bytes) :=
  indexHeaderFrom head.buf name head.headerRanges

def indexHeaders (head : RequestHead E) : Option (List (Bytes × Bytes)) :=
  head.headerRanges.mapM fun r =>
    match strIndex head.buf r.1, strIndex head.buf r.2 with
    | some name, some value => some (name, value)
    | _, _ => none

def indexCookies (head : RequestHead E) :
    Option (Except HttpCookie.CookieError (List (Bytes × Bytes))) :=
  (indexHeaders head).map cookiesOf

end Indexing

section Safe
variable {TypeId : Type} {E : TypeId → Type}

def ranges (head : RequestHead E) : List Range :=
  head.methodRange :: head.targetRange :: storedRanges head.headerRanges

/-- What the accessors need of the stored ranges, and the order in which they stand. -/
structure Safe (head : RequestHead E) : Prop where
  bounds : ∀ r ∈ ranges head, r.start ≤ r.stop ∧ r.stop ≤ head.buf.length
  boundaries : ∀ r ∈ ranges head,
    isCharBoundary head.buf r.start = true ∧ isCharBoundary head.buf r.stop = true
  text : ∀ r ∈ ranges head, IsText (slice head.buf r)
  increasing : (ranges head).Pairwise fun a b => a.stop < b.start

theorem mem_ranges_of_header {head : RequestHead E} {r : Range × Range}
    (h : r ∈ head.headerRanges) : r.1 ∈ ranges head ∧ r.2 ∈ ranges head := by
  have hstored : ∀ k ∈ [r.1, r.2], k ∈ ranges head := fun k hk =>
    List.mem_cons_of_mem _ (List.mem_cons_of_mem _ (List.mem_flatMap.mpr ⟨r, h, hk⟩))
  exact ⟨hstored r.1 (by simp), hstored r.2 (by simp)⟩

theorem Safe.strIndex_eq {head : RequestHead E} (h : Safe head) {r : Range} (hr : r ∈ ranges head) :
    strIndex head.buf r = some (slice head.buf r) := by
  obtain ⟨hstart, hstop⟩ := h.boundaries r hr
  rw [strIndex, hstart, hstop, decide_eq_true (h.bounds r hr).1]
  rfl

theorem Safe.indexTarget_eq {head : RequestHead E} (h : Safe head) :
    indexTarget head = some head.target :=
  h.strIndex_eq (by simp [ranges])

theorem indexHeaderFrom_eq {buf : Bytes} (name : Bytes) {stored : List (Range × Range)}
    (h : ∀ r ∈ stored, strIndex buf r.1 = some (slice buf r.1) ∧
      strIndex buf r.2 = some (slice buf r.2)) :
    indexHeaderFrom buf name stored =
      some ((stored.find? fun r => eqIgnoreAsciiCase (slice buf r.1) name).map
        fun r => slice buf r.2) := by
  induction stored with
  | nil => rfl
  | cons r stored ih =>
    obtain ⟨⟨hname, hvalue⟩, hrest⟩ := List.forall_mem_cons.mp h
    rw [indexHeaderFrom, hname, List.find?_cons]
    cases heq : eqIgnoreAsciiCase (slice buf r.1) name with
    | true => simp only [heq, ↓reduceIte, hvalue, Option.map_some]
    | false => simp only [heq, Bool.false_eq_true, ↓reduceIte, ih hrest]

theorem Safe.indexHeaders_eq {head : RequestHead E} (h : Safe head) :
    indexHeaders head = some head.headers := by
  have hmem : ∀ r ∈ head.headerRanges, strIndex head.buf r.1 = some (slice head.buf r.1) ∧
      strIndex head.buf r.2 = some (slice head.buf r.2) := fun r hr =>
    ⟨h.strIndex_eq (mem_ranges_of_header hr).1, h.strIndex_eq (mem_ranges_of_header hr).2⟩
  rw [indexHeaders, RequestHead.headers]
  generalize head.headerRanges = stored at hmem
  induction stored with
  | nil => rfl
  | cons r stored ih =>
    obtain ⟨⟨hname, hvalue⟩, hrest⟩ := List.forall_mem_cons.mp hmem
    rw [List.mapM_cons, hname, hvalue, ih hrest]
    rfl

theorem isText_around {target : Bytes} (h : IsText target) :
    IsText (target.takeWhile (· != 63)) ∧
      ∀ query ∈ (target.dropWhile (· != 63)).tail?, IsText query := by
  by_cases hmark : 63 ∈ target
  · obtain ⟨path, query, rfl, hpath⟩ := List.eq_append_cons_of_mem hmark
    obtain ⟨htext, hquery⟩ := h.cut (by decide)
    have hplain : ∀ b ∈ path, (b != 63) = true := fun b hb => by
      simpa using ne_of_mem_of_not_mem hb hpath
    rw [List.takeWhile_append_of_pos hplain, List.dropWhile_append_of_pos hplain]
    simp [htext, hquery]
  · have hplain : ∀ b ∈ target, (b != 63) = true := fun b hb => by
      simpa using ne_of_mem_of_not_mem hb hmark
    rw [List.takeWhile_eq_self_iff.mpr hplain, List.dropWhile_eq_nil_iff.mpr hplain]
    exact ⟨h, by simp⟩

theorem isText_octets {value : Bytes} (h : ∀ b ∈ value, HttpCookie.isCookieOctet b = true) :
    IsText value := by
  have hbyte : ∀ b : UInt8, HttpCookie.isCookieOctet b = true → b < 128 := by
    apply forall_byte
    decide +kernel
  exact isText_of_ascii fun b hb => hbyte b (h b hb)

structure Accessible (head : RequestHead E) : Prop where
  method : indexMethod head = some head.method ∧ IsText head.method
  target : indexTarget head = some head.target ∧ IsText head.target
  path : indexPath head = some head.path ∧ IsText head.path
  query : indexQuery head = some head.query ∧ ∀ query ∈ head.query, IsText query
  header : ∀ name, indexHeader head name = some (head.header name) ∧
    ∀ value ∈ head.header name, IsText value
  headers : indexHeaders head = some head.headers ∧
    ∀ field ∈ head.headers, IsText field.1 ∧ IsText field.2
  cookies : indexCookies head = some (cookies head) ∧
    ∀ pairs, cookies head = .ok pairs → ∀ pair ∈ pairs, IsText pair.1 ∧ IsText pair.2

theorem Safe.accessible {head : RequestHead E} (h : Safe head) : Accessible head := by
  have htarget : IsText head.target := h.text _ (by simp [ranges])
  have hmem : ∀ r ∈ head.headerRanges, strIndex head.buf r.1 = some (slice head.buf r.1) ∧
      strIndex head.buf r.2 = some (slice head.buf r.2) := fun r hr =>
    ⟨h.strIndex_eq (mem_ranges_of_header hr).1, h.strIndex_eq (mem_ranges_of_header hr).2⟩
  refine ⟨⟨h.strIndex_eq (by simp [ranges]), h.text _ (by simp [ranges])⟩,
    ⟨h.indexTarget_eq, htarget⟩, ⟨?_, (isText_around htarget).1⟩, ⟨?_, (isText_around htarget).2⟩,
    fun name => ⟨indexHeaderFrom_eq name hmem, ?_⟩, ⟨h.indexHeaders_eq, ?_⟩, ?_, ?_⟩
  · rw [indexPath, h.indexTarget_eq]
    rfl
  · rw [indexQuery, h.indexTarget_eq]
    rfl
  · intro value hvalue
    obtain ⟨r, hr, rfl⟩ := Option.map_eq_some_iff.mp hvalue
    exact h.text _ (mem_ranges_of_header (List.mem_of_find?_eq_some hr)).2
  · intro f hf
    obtain ⟨r, hr, rfl⟩ := List.mem_map.mp hf
    exact ⟨h.text _ (mem_ranges_of_header hr).1, h.text _ (mem_ranges_of_header hr).2⟩
  · rw [indexCookies, h.indexHeaders_eq]
    rfl
  · intro pairs hpairs pair hpair
    obtain ⟨hname, hvalue⟩ := (cookiesOf_ok hpairs).2 pair hpair
    exact ⟨isText_token hname.2, isText_octets hvalue⟩

end Safe

section Parsed
variable {TypeId : Type} {E : TypeId → Type}

theorem parseRequestHead_cuts {buf : Bytes} {head : RequestHead E} {consumed : ℕ}
    (h : parseRequestHead buf = .ok (.complete head consumed)) :
    head.buf.length ≤ buf.length ∧ (∀ r ∈ ranges head, ∃ piece, Cuts head.buf r piece) ∧
      Ordered 0 (ranges head) := by
  obtain ⟨pos, -, -, -, hsection⟩ := parseRequestHead_complete h
  obtain ⟨requestLine, lines, hsplit, htext⟩ := split_crlf (buf.take pos)
  obtain ⟨m, t, version, stored, hline, -, hstored, rfl⟩ :=
    (parseHeaderSection_eq_ok_iff hsplit htext head).mp hsection
  obtain ⟨-, hm, ht, hzero, hlt⟩ := parseRequestLine_cuts hline
  have hlength : (buf.take pos).length ≤ buf.length := by
    rw [List.length_take]
    exact Nat.min_le_right _ _
  rw [htext] at hstored hlength ⊢
  obtain ⟨hrest, hcuts, hordered⟩ := headerLines_safe requestLine lines hstored
  have hmethod := hm.shift [] hrest
  have htarget := ht.shift [] hrest
  rw [List.nil_append, List.length_nil, shiftRange_zero] at hmethod htarget
  refine ⟨hlength, ?_, ?_⟩
  · rw [ranges, List.forall_mem_cons, List.forall_mem_cons]
    exact ⟨⟨_, hmethod⟩, ⟨_, htarget⟩, hcuts⟩
  · have hm' := hm.safe
    have ht' := ht.safe
    have hbound : t.stop + 1 ≤ requestLine.length + 2 := by omega
    exact ⟨Nat.zero_le _, hm'.1, hlt, ht'.1, hordered.mono hbound⟩

theorem parseRequestHead_safe {buf : Bytes} {head : RequestHead E} {consumed : ℕ}
    (h : parseRequestHead buf = .ok (.complete head consumed)) : Safe head := by
  obtain ⟨-, hcuts, hordered⟩ := parseRequestHead_cuts h
  refine ⟨fun r hr => ?_, fun r hr => ?_, fun r hr => ?_, hordered.pairwise⟩ <;>
    obtain ⟨piece, hpiece⟩ := hcuts r hr
  · exact ⟨hpiece.safe.1, hpiece.safe.2.1⟩
  · exact hpiece.safe.2.2
  · rw [hpiece.slice_eq]
    obtain ⟨before, after, -, -, htext, -⟩ := hpiece
    exact htext

/-- The last check never fails: its text has passed the checks of its lines. -/
theorem fromUtf8IsErr_unreachable {headerSection : Bytes} {requestLineRange : Range}
    {lines : List Range} {m t : Range} {version : HttpVersion} {headers : List (Range × Range)}
    (hlines : splitByCrlf headerSection = requestLineRange :: lines)
    (hline : parseRequestLine (slice headerSection requestLineRange) = .ok (m, t, version))
    (hheaders : parseHeaderLines headerSection lines [] = .ok headers) :
    fromUtf8IsErr headerSection = false := by
  obtain ⟨requestLine, rest, hsplit, htext⟩ := split_crlf headerSection
  rw [splitByCrlf_eq, hsplit, lineRanges, Nat.zero_add] at hlines
  obtain ⟨rfl, rfl⟩ := List.cons.inj hlines
  obtain ⟨_, rfl, -, hstored⟩ :=
    (parseHeaderLines_eq_ok_iff headerSection (Nat.zero_le _) headers).mp hheaders
  rw [fromUtf8IsErr_eq_false, htext]
  rw [htext, slice_firstLine] at hline
  exact section_isText hline (htext ▸ hstored)

/-- The ranges of every parsed head are safe, and the last check of the parser is spare. -/
theorem parseRequestHead_zeroCopy (buf : Bytes) :
    (∀ (head : RequestHead E) (consumed : ℕ),
      parseRequestHead buf = .ok (.complete head consumed) →
        head.buf.length ≤ buf.length ∧ Safe head ∧ Accessible head) ∧
    ∀ (headerSection : Bytes) (requestLineRange : Range) (lines : List Range) (m t : Range)
      (version : HttpVersion) (headers : List (Range × Range)),
      splitByCrlf headerSection = requestLineRange :: lines →
      parseRequestLine (slice headerSection requestLineRange) = .ok (m, t, version) →
      parseHeaderLines headerSection lines [] = .ok headers →
        fromUtf8IsErr headerSection = false :=
  ⟨fun _ _ h => ⟨(parseRequestHead_cuts h).1, parseRequestHead_safe h,
    (parseRequestHead_safe h).accessible⟩,
    fun _ _ _ _ _ _ _ hlines hline hheaders =>
      fromUtf8IsErr_unreachable hlines hline hheaders⟩

end Parsed

end FandheBackend.HttpRequestRanges
