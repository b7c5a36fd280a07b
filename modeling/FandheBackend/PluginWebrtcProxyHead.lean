import FandheBackend.HttpFormLaw
import FandheBackend.HttpTrim
import FandheBackend.PluginWebrtcProxy

set_option autoImplicit false

namespace FandheBackend.PluginWebrtcProxyHead
open StdBytes ExceptChecks HttpRequestHead HttpBodyLength HttpForm HttpFormLaw Utf8Text
open HttpTrim PatternSearch PatternSplit PluginWebrtcProxy

/-- What `str::parse` reads as an unsigned number. -/
def Signed (text : Bytes) (n : ℕ) : Prop :=
  Denotes text n ∨ ∃ digits, text = 43 :: digits ∧ Denotes digits n

structure HeadParts where
  version : Bytes
  code : Bytes
  reason : Bytes
  fields : List (Bytes × Bytes)

namespace HeadParts

def statusLine (p : HeadParts) : Bytes := ascii "HTTP/1." ++ p.version ++ 32 :: (p.code ++ p.reason)

def lines (p : HeadParts) : List Bytes := p.statusLine :: p.fields.map fun f => f.1 ++ 58 :: f.2

end HeadParts

def headText (lines : List Bytes) : Bytes := lines.flatMap (· ++ crlf) ++ crlf

/-- The values of the `Content-Length` lines, without the blanks that HTTP allows around them. -/
def contentLengths (fields : List (Bytes × Bytes)) : List Bytes :=
  (fields.filter fun f => eqIgnoreAsciiCase f.1 (ascii "content-length")).map
    fun f => trimBy isOws f.2

/-- The lines that the client takes for `Content-Length` lines, and their values as it reads
them: `str::trim` drops any white space, also around the names. -/
def trimmedLengths (fields : List (Bytes × Bytes)) : List Bytes :=
  (fields.filter fun f => eqIgnoreAsciiCase (strTrim f.1) (ascii "content-length")).map
    fun f => strTrim f.2

/-- Which texts are which numbers, and which lengths the lines of a head announce. -/
structure Reading where
  Number : Bytes → ℕ → Prop
  lengths : List (Bytes × Bytes) → List Bytes

def httpReading : Reading := ⟨Denotes, contentLengths⟩

def clientReading : Reading := ⟨Signed, trimmedLengths⟩

namespace HeadParts

structure WellFormed (p : HeadParts) : Prop where
  version : (32 : UInt8) ∉ p.version
  code : (32 : UInt8) ∉ p.code
  reason : p.reason = [] ∨ p.reason.head? = some 32
  names : ∀ f ∈ p.fields, (58 : UInt8) ∉ f.1
  lines : ∀ line ∈ p.lines, ¬ crlf <:+: line

structure Announces (r : Reading) (p : HeadParts) (status n : ℕ) : Prop extends p.WellFormed where
  status : r.Number p.code status
  contentLength : ∃ value, r.lengths p.fields = [value] ∧ r.Number value n

/-- A status of digits alone, and digits alone between the blanks of HTTP in every line that the
client takes for a `Content-Length` line, which has that name and not one with white space. -/
structure Plain (p : HeadParts) : Prop where
  code : ∀ b ∈ p.code, isAsciiDigit b = true
  lengths : ∀ f ∈ p.fields, eqIgnoreAsciiCase (strTrim f.1) (ascii "content-length") = true →
    eqIgnoreAsciiCase f.1 (ascii "content-length") = true ∧
      ∀ b ∈ trimBy isOws f.2, isAsciiDigit b = true

end HeadParts

def Announces (r : Reading) (head : Bytes) (status n : ℕ) : Prop :=
  IsText head ∧ ∃ p : HeadParts, head = headText p.lines ∧ p.Announces r status n

def EndsFirst (head : Bytes) : Prop := terminator <:+ head ∧ ¬ terminator <:+: head.dropLast

section Numbers

theorem parseUnsigned_digits {bound : ℕ} {digits : Bytes} {n : ℕ} :
    (if digits.isEmpty || !digits.all isAsciiDigit then none
      else if digitsValue 10 digits < bound then some (digitsValue 10 digits) else none) = some n ↔
      Denotes digits n ∧ n < bound := by
  constructor
  · intro h
    split_ifs at h with hbad hlt
    simp only [Bool.or_eq_true, not_or, Bool.not_eq_true', Bool.not_eq_false] at hbad
    obtain rfl := Option.some.inj h
    exact ⟨⟨by simpa using hbad.1, List.all_eq_true.mp hbad.2, rfl⟩, hlt⟩
  · rintro ⟨hdigits, hlt⟩
    have hall : digits.all isAsciiDigit = true := List.all_eq_true.mpr hdigits.digits
    rw [if_neg (by simp [hall, hdigits.ne_nil]), hdigits.value_eq, if_pos hlt]

theorem not_denotes_plus {digits : Bytes} {n : ℕ} : ¬ Denotes (43 :: digits) n :=
  fun h => absurd (h.digits 43 List.mem_cons_self) (by decide)

theorem parseUnsigned_eq_some_iff {bound : ℕ} {s : Bytes} {n : ℕ} :
    parseUnsigned bound s = some n ↔ Signed s n ∧ n < bound := by
  unfold parseUnsigned
  split
  · rename_i rest
    rw [parseUnsigned_digits]
    simp [Signed, not_denotes_plus]
  · rename_i hsign
    rw [parseUnsigned_digits]
    have hnone : ¬ ∃ digits, s = 43 :: digits ∧ Denotes digits n :=
      fun ⟨digits, heq, _⟩ => hsign digits heq
    simp [Signed, hnone]

end Numbers

section Lines

theorem splitn_eq_cons_cons_iff {b : UInt8} {s first second : Bytes} :
    (∃ rest, splitn 3 b s = first :: second :: rest) ↔
      ∃ tail, s = first ++ b :: (second ++ tail) ∧ b ∉ first ∧ b ∉ second ∧
        (tail = [] ∨ tail.head? = some b) := by
  constructor
  · rintro ⟨rest, h⟩
    rw [splitn] at h
    cases hfirst : splitOnce b s with
    | none => simp [hfirst] at h
    | some parts =>
      obtain ⟨part, rest'⟩ := parts
      simp only [hfirst, List.cons.injEq] at h
      obtain ⟨rfl, h⟩ := h
      obtain ⟨rfl, hnot⟩ := splitOnce_eq_some_iff.mp hfirst
      rw [splitn] at h
      cases hsecond : splitOnce b rest' with
      | none =>
        simp only [hsecond, List.cons.injEq] at h
        obtain ⟨rfl, -⟩ := h
        exact ⟨[], by rw [List.append_nil], hnot, splitOnce_eq_none_iff.mp hsecond, .inl rfl⟩
      | some parts =>
        obtain ⟨part', rest''⟩ := parts
        simp only [hsecond, List.cons.injEq] at h
        obtain ⟨rfl, -⟩ := h
        obtain ⟨rfl, hnot'⟩ := splitOnce_eq_some_iff.mp hsecond
        exact ⟨b :: rest'', rfl, hnot, hnot', .inr rfl⟩
  · rintro ⟨tail, rfl, hfirst, hsecond, rfl | htail⟩
    · refine ⟨[], ?_⟩
      rw [splitn, splitOnce_append hfirst, List.append_nil]
      simp only [splitn, splitOnce_none hsecond]
    · obtain ⟨rest, rfl⟩ := List.head?_eq_some_iff.mp htail
      refine ⟨[rest], ?_⟩
      rw [splitn, splitOnce_append hfirst]
      simp only [splitn, splitOnce_append hsecond]

theorem parseStatusLine_eq_ok_iff {line : Bytes} {status : ℕ} :
    parseStatusLine line = .ok status ↔
      ∃ version code reason, line = ascii "HTTP/1." ++ version ++ 32 :: (code ++ reason) ∧
        (32 : UInt8) ∉ version ∧ (32 : UInt8) ∉ code ∧ (reason = [] ∨ reason.head? = some 32) ∧
        Signed code status ∧ status < 2 ^ 16 := by
  constructor
  · intro h
    unfold parseStatusLine at h
    cases hparts : splitn 3 32 line with
    | nil => simp [hparts] at h
    | cons version parts =>
      simp only [hparts] at h
      split_ifs at h with hversion
      simp only [Bool.not_eq_true, Bool.not_eq_false', List.isPrefixOf_iff_prefix] at hversion
      cases parts with
      | nil => cases h
      | cons code rest =>
        obtain ⟨tail, hline, hversion', hcode, htail⟩ :=
          splitn_eq_cons_cons_iff.mp ⟨rest, hparts⟩
        obtain ⟨version, rfl⟩ := hversion
        obtain ⟨hstatus, hlt⟩ := parseUnsigned_eq_some_iff.mp (orError_eq_ok.mp h)
        rw [List.mem_append, not_or] at hversion'
        exact ⟨version, code, tail, hline, hversion'.2, hcode, htail, hstatus, hlt⟩
  · rintro ⟨version, code, reason, rfl, hversion, hcode, hreason, hstatus, hlt⟩
    have hversion' : (32 : UInt8) ∉ ascii "HTTP/1." ++ version := by
      rw [List.mem_append, not_or]
      exact ⟨by decide, hversion⟩
    obtain ⟨rest, hparts⟩ :=
      splitn_eq_cons_cons_iff.mpr ⟨reason, rfl, hversion', hcode, hreason⟩
    have hstarts : (ascii "HTTP/1.").isPrefixOf (ascii "HTTP/1." ++ version) = true :=
      List.isPrefixOf_iff_prefix.mpr (List.prefix_append _ _)
    unfold parseStatusLine
    simp only [hparts, hstarts, Bool.not_true, Bool.false_eq_true, if_false]
    exact orError_eq_ok.mpr (parseUnsigned_eq_some_iff.mpr ⟨hstatus, hlt⟩)

end Lines

section Fields

/-- The lines after the status line: each but the empty ones has a name and a value. -/
def FieldLines (lines : List Bytes) (fields : List (Bytes × Bytes)) : Prop :=
  (lines.filter fun line => !line.isEmpty) = (fields.map fun f => f.1 ++ 58 :: f.2) ∧
    ∀ f ∈ fields, (58 : UInt8) ∉ f.1

theorem fieldLines_nil_iff {fields : List (Bytes × Bytes)} : FieldLines [] fields ↔ fields = [] := by
  constructor
  · exact fun h => List.map_eq_nil_iff.mp h.1.symm
  · rintro rfl
    exact ⟨rfl, by simp⟩

theorem fieldLines_empty_iff {lines : List Bytes} {fields : List (Bytes × Bytes)} :
    FieldLines ([] :: lines) fields ↔ FieldLines lines fields := Iff.rfl

theorem fieldLines_cons_iff {name value : Bytes} (hname : (58 : UInt8) ∉ name) {lines : List Bytes}
    {fields : List (Bytes × Bytes)} :
    FieldLines ((name ++ 58 :: value) :: lines) fields ↔
      ∃ rest, fields = (name, value) :: rest ∧ FieldLines lines rest := by
  have hkeep : ((name ++ 58 :: value) :: lines).filter (fun line => !line.isEmpty) =
      (name ++ 58 :: value) :: lines.filter fun line => !line.isEmpty :=
    List.filter_cons_of_pos (by simp)
  constructor
  · rintro ⟨hlines, hnames⟩
    rw [hkeep] at hlines
    cases fields with
    | nil => cases hlines
    | cons f fields =>
      obtain ⟨name', value'⟩ := f
      obtain ⟨hline, hrest⟩ := List.cons.inj hlines
      rw [List.forall_mem_cons] at hnames
      have hsplit := splitOnce_append hname value
      rw [hline, splitOnce_append hnames.1] at hsplit
      exact ⟨fields, by rw [Option.some.inj hsplit], hrest, hnames.2⟩
  · rintro ⟨rest, rfl, hrest, hnames⟩
    refine ⟨?_, List.forall_mem_cons.mpr ⟨hname, hnames⟩⟩
    rw [hkeep, hrest]
    rfl

theorem not_fieldLines {line : Bytes} (hne : line ≠ []) (hcolon : (58 : UInt8) ∉ line)
    {lines : List Bytes} {fields : List (Bytes × Bytes)} : ¬ FieldLines (line :: lines) fields := by
  rintro ⟨hlines, -⟩
  rw [List.filter_cons_of_pos (by simpa using hne)] at hlines
  cases fields with
  | nil => cases hlines
  | cons f fields =>
    refine hcolon ?_
    rw [(List.cons.inj hlines).1]
    exact List.mem_append_right _ List.mem_cons_self

theorem trimmedLengths_cons (name value : Bytes) (fields : List (Bytes × Bytes)) :
    trimmedLengths ((name, value) :: fields) =
      if eqIgnoreAsciiCase (strTrim name) (ascii "content-length") then
        strTrim value :: trimmedLengths fields
      else trimmedLengths fields := by
  unfold trimmedLengths
  rw [List.filter_cons]
  split_ifs <;> rfl

def LengthAfter (seen : Option ℕ) (values : List Bytes) (result : Option ℕ) : Prop :=
  match seen with
  | some n => values = [] ∧ result = some n
  | none => values = [] ∧ result = none ∨
      ∃ value n, values = [value] ∧ Signed value n ∧ n < 2 ^ 64 ∧ result = some n

theorem contentLengthOf_eq_ok_iff {lines : List Bytes} {seen result : Option ℕ} :
    contentLengthOf lines seen = .ok result ↔
      ∃ fields, FieldLines lines fields ∧ LengthAfter seen (trimmedLengths fields) result := by
  induction lines generalizing seen with
  | nil =>
    simp only [contentLengthOf, Except.ok.injEq, fieldLines_nil_iff, exists_eq_left]
    cases seen with
    | some n => simp [LengthAfter, trimmedLengths, eq_comm]
    | none => simp [LengthAfter, trimmedLengths, eq_comm]
  | cons line lines ih =>
    rw [contentLengthOf]
    by_cases hempty : line = []
    · subst hempty
      simp only [List.isEmpty_nil, if_true, ih, fieldLines_empty_iff]
    · rw [if_neg (by simpa using hempty)]
      cases hsplit : splitOnce 58 line with
      | none =>
        have hnot (fields : List (Bytes × Bytes)) : ¬ FieldLines (line :: lines) fields :=
          not_fieldLines hempty (splitOnce_eq_none_iff.mp hsplit)
        simp [hnot]
      | some field =>
        obtain ⟨name, value⟩ := field
        obtain ⟨rfl, hname⟩ := splitOnce_eq_some_iff.mp hsplit
        have hcons (P : List (Bytes × Bytes) → Prop) :
            (∃ fields, FieldLines ((name ++ 58 :: value) :: lines) fields ∧ P fields) ↔
              ∃ rest, FieldLines lines rest ∧ P ((name, value) :: rest) := by
          simp only [fieldLines_cons_iff hname]
          constructor
          · rintro ⟨_, ⟨rest, rfl, hrest⟩, hP⟩
            exact ⟨rest, hrest, hP⟩
          · rintro ⟨rest, hrest, hP⟩
            exact ⟨_, ⟨rest, rfl, hrest⟩, hP⟩
        simp only [hcons, trimmedLengths_cons]
        by_cases hkey : eqIgnoreAsciiCase (strTrim name) (ascii "content-length") = true
        · simp only [if_pos hkey]
          cases seen with
          | some n => simp [LengthAfter]
          | none =>
            simp only [Option.isSome_none, Bool.false_eq_true, if_false]
            cases hparse : parseUnsigned (2 ^ 64) (strTrim value) with
            | none =>
              have hnot (n : ℕ) : ¬ (Signed (strTrim value) n ∧ n < 2 ^ 64) := by
                rw [← parseUnsigned_eq_some_iff, hparse]
                simp
              simp only [LengthAfter, reduceCtorEq, false_and, false_or, List.cons.injEq, false_iff]
              rintro ⟨fields, -, v, n, ⟨rfl, -⟩, hsigned, hlt, -⟩
              exact hnot n ⟨hsigned, hlt⟩
            | some parsed =>
              have hparsed := parseUnsigned_eq_some_iff.mp hparse
              simp only [ih, LengthAfter, reduceCtorEq, false_and, false_or, List.cons.injEq]
              constructor
              · rintro ⟨fields, hfields, hnil, rfl⟩
                exact ⟨fields, hfields, _, parsed, ⟨rfl, hnil⟩, hparsed.1, hparsed.2, rfl⟩
              · rintro ⟨fields, hfields, v, n, ⟨rfl, hnil⟩, hsigned, hlt, rfl⟩
                have hn := parseUnsigned_eq_some_iff.mpr ⟨hsigned, hlt⟩
                exact ⟨fields, hfields, hnil, hn.symm.trans hparse⟩
        · simp only [if_neg hkey, ih]

end Fields

section Heads

theorem findFirst_crlf_eq_none_iff {line : Bytes} : findFirst crlf line = none ↔ ¬ crlf <:+: line := by
  rw [findFirst_eq_none_iff]
  constructor
  · rintro h ⟨pre, post, rfl⟩
    refine h pre.length ?_
    rw [List.append_assoc, List.drop_left]
    exact List.prefix_append _ _
  · intro h j hj
    exact h (hj.isInfix.trans (List.drop_suffix j line).isInfix)

theorem flatMap_append_crlf (first : Bytes) (rest : List Bytes) :
    (first :: rest).flatMap (· ++ crlf) = first ++ rest.flatMap (crlf ++ ·) ++ crlf := by
  induction rest generalizing first with
  | nil => simp
  | cons next rest ih =>
    rw [List.flatMap_cons, ih, List.flatMap_cons]
    simp only [List.append_assoc]

theorem headText_cons (first : Bytes) (rest : List Bytes) :
    headText (first :: rest) = first ++ (rest ++ [[], []]).flatMap (crlf ++ ·) := by
  rw [headText, flatMap_append_crlf, List.flatMap_append]
  simp

theorem split_headText_iff {head first : Bytes} {rest : List Bytes} :
    split crlf head = first :: (rest ++ [[], []]) ↔
      head = headText (first :: rest) ∧ ∀ line ∈ first :: rest, ¬ crlf <:+: line := by
  have hpair : split crlf head = first :: (rest ++ [[], []]) ↔
      head = first ++ (rest ++ [[], []]).flatMap (crlf ++ ·) ∧
        ∀ p ∈ first :: (rest ++ [[], []]), findFirst crlf p = none :=
    split_pair_eq_iff (show lf ≠ cr by decide)
  have hnone : findFirst crlf ([] : Bytes) = none := rfl
  rw [hpair, ← headText_cons]
  refine and_congr_right fun _ => ?_
  simp only [← findFirst_crlf_eq_none_iff, List.forall_mem_cons, List.forall_mem_append, hnone,
    List.not_mem_nil, false_implies, implies_true, and_true]

theorem EndsFirst.split {head : Bytes} (h : EndsFirst head) :
    ∃ first rest, PatternSplit.split crlf head = first :: (rest ++ [[], []]) ∧
      ∀ line ∈ rest, line ≠ [] := by
  obtain ⟨⟨pre, rfl⟩, hfirst⟩ := h
  obtain ⟨first, rest, hsplit, hpre⟩ := splitLoop_eq crlf pre.length pre
  have hnone := findFirst_mem_splitLoop (show crlf ≠ [] by decide) pre.length pre le_rfl
  rw [hsplit] at hnone
  have hhead : pre ++ terminator = headText (first :: rest) := by
    rw [headText, flatMap_append_crlf, ← hpre, List.append_assoc]
    rfl
  refine ⟨first, rest, split_headText_iff.mpr ⟨hhead, fun line hline => ?_⟩, ?_⟩
  · exact findFirst_crlf_eq_none_iff.mp (hnone line hline)
  · rintro line hline rfl
    obtain ⟨before, after, rfl⟩ := List.append_of_mem hline
    -- the empty line ends a terminator in front of the last one
    have hinner : pre ++ terminator = first ++ before.flatMap (crlf ++ ·) ++ terminator ++
        (after.flatMap (· ++ crlf) ++ crlf) := by
      rw [hhead, headText, ← List.cons_append, List.flatMap_append, flatMap_append_crlf]
      simp [terminator]
    rw [hinner, List.dropLast_append_of_ne_nil (by simp [crlf])] at hfirst
    exact hfirst ⟨_, _, rfl⟩

theorem filter_lines {lines : List Bytes} (h : ∀ line ∈ lines, line ≠ []) :
    (lines ++ [[], []]).filter (fun line => !line.isEmpty) = lines := by
  have hkeep : lines.filter (fun line => !line.isEmpty) = lines :=
    List.filter_eq_self.mpr fun line hline => by simpa using h line hline
  rw [List.filter_append, hkeep]
  exact List.append_nil lines

/-- What the parser reads of a head, up to the bounds of the two types. -/
theorem parseResponseHead_eq_ok_iff {head : Bytes} (h : EndsFirst head) {status n : ℕ} :
    parseResponseHead head = .ok (status, n) ↔
      Announces clientReading head status n ∧ status < 2 ^ 16 ∧ n < 2 ^ 64 := by
  unfold parseResponseHead Announces
  constructor
  · intro hparse
    obtain ⟨first, rest, hsplit, hrest⟩ := h.split
    split_ifs at hparse with htext
    have htext' : IsText head := by
      rwa [Bool.not_eq_true, Option.isNone_eq_false_iff, isSome_decode_iff] at htext
    rw [hsplit] at hparse
    simp only [bind_eq_ok, orError_eq_ok] at hparse
    obtain ⟨status', hstatus, result, hloop, n', rfl, hpair⟩ := hparse
    obtain ⟨rfl, rfl⟩ := Prod.ext_iff.mp (Except.ok.inj hpair)
    obtain ⟨version, code, reason, rfl, hversion, hcode, hreason, hsigned, hlt⟩ :=
      parseStatusLine_eq_ok_iff.mp hstatus
    obtain ⟨fields, ⟨hlines, hnames⟩, hlength⟩ := contentLengthOf_eq_ok_iff.mp hloop
    obtain ⟨-, habsurd⟩ | ⟨value, m, hvalue, hsigned', hlt', hm⟩ := hlength
    · cases habsurd
    · obtain rfl := Option.some.inj hm
      have hfields : rest = fields.map fun f => f.1 ++ 58 :: f.2 := by
        rw [← hlines, filter_lines hrest]
      subst hfields
      obtain ⟨hhead, hcrlf⟩ := split_headText_iff.mp hsplit
      exact ⟨⟨htext', ⟨version, code, reason, fields⟩, hhead, ⟨hversion, hcode, hreason, hnames, hcrlf⟩,
        hsigned, value, hvalue, hsigned'⟩, hlt, hlt'⟩
  · rintro ⟨⟨htext, p, rfl, hp⟩, hstatus, hn⟩
    have htext' : ¬ (decode (headText p.lines)).isNone = true := by
      rwa [Bool.not_eq_true, Option.isNone_eq_false_iff, isSome_decode_iff]
    have hsplit : split crlf (headText p.lines) = p.statusLine ::
        ((p.fields.map fun f => f.1 ++ 58 :: f.2) ++ [[], []]) :=
      split_headText_iff.mpr ⟨rfl, hp.lines⟩
    have hline : parseStatusLine p.statusLine = .ok status :=
      parseStatusLine_eq_ok_iff.mpr ⟨p.version, p.code, p.reason, rfl, hp.version, hp.code,
        hp.reason, hp.status, hstatus⟩
    obtain ⟨value, hvalue, hsigned⟩ := hp.contentLength
    have hloop : contentLengthOf ((p.fields.map fun f => f.1 ++ 58 :: f.2) ++ [[], []]) none =
        .ok (some n) := by
      refine contentLengthOf_eq_ok_iff.mpr ⟨p.fields, ⟨filter_lines fun line hline => ?_, hp.names⟩,
        .inr ⟨value, n, hvalue, hsigned, hn, rfl⟩⟩
      obtain ⟨f, -, rfl⟩ := List.mem_map.mp hline
      simp
    rw [if_neg htext', hsplit]
    simp only [hline, hloop]
    rfl

end Heads

section Readings
variable {p p' : HeadParts} {status n : ℕ}

theorem HeadParts.WellFormed.split (hp : p.WellFormed) :
    PatternSplit.split crlf (headText p.lines) =
      p.statusLine :: ((p.fields.map fun f => f.1 ++ 58 :: f.2) ++ [[], []]) :=
  split_headText_iff.mpr ⟨rfl, hp.lines⟩

theorem HeadParts.WellFormed.splitOnce_statusLine (hp : p.WellFormed) :
    splitOnce 32 p.statusLine = some (ascii "HTTP/1." ++ p.version, p.code ++ p.reason) := by
  refine splitOnce_append ?_ _
  rw [List.mem_append, not_or]
  exact ⟨by decide, hp.version⟩

theorem HeadParts.WellFormed.takeWhile_code (hp : p.WellFormed) :
    (p.code ++ p.reason).takeWhile (· != 32) = p.code := by
  have hcode : ∀ b ∈ p.code, (b != 32) = true := fun b hb => by
    simpa using ne_of_mem_of_not_mem hb hp.code
  rw [List.takeWhile_append_of_pos hcode]
  rcases hp.reason with hreason | hreason
  · simp [hreason]
  · obtain ⟨rest, hreason⟩ := List.head?_eq_some_iff.mp hreason
    simp [hreason]

theorem HeadParts.WellFormed.splitOnce_fields (hp : p.WellFormed) :
    (p.fields.map fun f => f.1 ++ 58 :: f.2).map (splitOnce 58) = p.fields.map some := by
  rw [List.map_map]
  exact List.map_congr_left fun f hf => splitOnce_append (hp.names f hf) f.2

theorem HeadParts.WellFormed.unique (hp : p.WellFormed) (hp' : p'.WellFormed)
    (h : headText p.lines = headText p'.lines) : p = p' := by
  have hsplit := hp.split.symm.trans (h ▸ hp'.split)
  have hstatus := hp.splitOnce_statusLine
  rw [(List.cons.inj hsplit).1, hp'.splitOnce_statusLine, Option.some.injEq, Prod.mk.injEq] at hstatus
  obtain ⟨hversion, htail⟩ := hstatus
  have hcode : p'.code = p.code := by
    rw [← hp'.takeWhile_code, htail, hp.takeWhile_code]
  rw [hcode] at htail
  have hfields : p'.fields = p.fields := by
    refine List.map_injective_iff.mpr (Option.some_injective _) ?_
    rw [← hp'.splitOnce_fields, ← List.append_cancel_right (List.cons.inj hsplit).2,
      hp.splitOnce_fields]
  obtain ⟨version, code, reason, fields⟩ := p
  obtain ⟨version', code', reason', fields'⟩ := p'
  obtain rfl : version' = version := List.append_cancel_left hversion
  obtain rfl : reason' = reason := List.append_cancel_left htail
  obtain rfl : code' = code := hcode
  obtain rfl : fields' = fields := hfields
  rfl

theorem plain_digit {b : UInt8} (h : isAsciiDigit b = true) : isPlain b = true :=
  plain_tchar (tchar_digit h)

theorem strTrim_contentLength {name : Bytes}
    (h : eqIgnoreAsciiCase name (ascii "content-length") = true) : strTrim name = name :=
  strTrim_of_eqIgnoreAsciiCase h (by decide +kernel)

theorem HeadParts.Plain.lengths_eq (h : p.Plain) :
    trimmedLengths p.fields = contentLengths p.fields := by
  have hfilter : p.fields.filter
        (fun f => eqIgnoreAsciiCase (strTrim f.1) (ascii "content-length")) =
      p.fields.filter fun f => eqIgnoreAsciiCase f.1 (ascii "content-length") := by
    refine List.filter_congr fun f hf => Bool.eq_iff_iff.mpr ⟨fun hname => (h.lengths f hf hname).1, ?_⟩
    intro hname
    rwa [strTrim_contentLength hname]
  rw [trimmedLengths, contentLengths, hfilter]
  refine List.map_congr_left fun f hf => strTrim_eq_trimBy fun b hb => ?_
  obtain ⟨hf, hname⟩ := List.mem_filter.mp hf
  refine plain_digit ((h.lengths f hf ?_).2 b hb)
  rwa [strTrim_contentLength hname]

theorem signed_iff_denotes {text : Bytes} (h : ∀ b ∈ text, isAsciiDigit b = true) :
    Signed text n ↔ Denotes text n := by
  refine ⟨?_, .inl⟩
  rintro (h | ⟨digits, rfl, -⟩)
  · exact h
  · exact absurd (h 43 List.mem_cons_self) (by decide)

/-- The client and HTTP read a plain head alike. -/
theorem HeadParts.Plain.announces_iff (h : p.Plain) :
    p.Announces clientReading status n ↔ p.Announces httpReading status n := by
  have hcode : Signed p.code status ↔ Denotes p.code status := signed_iff_denotes h.code
  have hlength : (∃ value, trimmedLengths p.fields = [value] ∧ Signed value n) ↔
      ∃ value, contentLengths p.fields = [value] ∧ Denotes value n := by
    rw [h.lengths_eq]
    refine exists_congr fun value => and_congr_right fun hvalue => signed_iff_denotes ?_
    obtain ⟨f, hfilter, rfl⟩ := List.map_eq_singleton_iff.mp hvalue
    obtain ⟨hf, hname⟩ := List.mem_filter.mp (hfilter ▸ List.mem_cons_self)
    refine (h.lengths f hf ?_).2
    rwa [strTrim_contentLength hname]
  exact ⟨fun ⟨hwell, hstatus, hn⟩ => ⟨hwell, hcode.mp hstatus, hlength.mp hn⟩,
    fun ⟨hwell, hstatus, hn⟩ => ⟨hwell, hcode.mpr hstatus, hlength.mpr hn⟩⟩

/-- A head that both can read is plain, whatever they read. -/
theorem HeadParts.plain_of_both {status' n' : ℕ} (h : p.Announces clientReading status n)
    (h' : p.Announces httpReading status' n') : p.Plain := by
  obtain ⟨value, hvalue, -⟩ := h.contentLength
  obtain ⟨value', hvalue', hn'⟩ := h'.contentLength
  obtain ⟨g, hclient, -⟩ := List.map_eq_singleton_iff.mp hvalue
  obtain ⟨g', hhttp, hdigits⟩ := List.map_eq_singleton_iff.mp hvalue'
  obtain ⟨hg', hname⟩ := List.mem_filter.mp (hhttp ▸ List.mem_cons_self)
  have honly : ∀ f ∈ p.fields,
      eqIgnoreAsciiCase (strTrim f.1) (ascii "content-length") = true → f = g := by
    intro f hf hmatch
    have hmem : f ∈ p.fields.filter fun f =>
        eqIgnoreAsciiCase (strTrim f.1) (ascii "content-length") := List.mem_filter.mpr ⟨hf, hmatch⟩
    rw [hclient] at hmem
    exact List.mem_singleton.mp hmem
  obtain rfl : g' = g := honly g' hg' (by rwa [strTrim_contentLength hname])
  refine ⟨h'.status.digits, fun f hf hmatch => ?_⟩
  obtain rfl := honly f hf hmatch
  exact ⟨hname, hdigits ▸ hn'.digits⟩

end Readings

section Positions

theorem EndsFirst.findFirst {head : Bytes} (h : EndsFirst head) (rest : Bytes) :
    PatternSearch.findFirst terminator (head ++ rest) = some (head.length - 4) := by
  obtain ⟨⟨pre, rfl⟩, hfirst⟩ := h
  have hlen : (pre ++ terminator).length - 4 = pre.length := by
    rw [List.length_append]
    rfl
  apply findFirst_append_of_some
  rw [hlen, findFirst_eq_some_iff]
  refine ⟨by rw [List.drop_left], by simp, fun j hj hstart => hfirst ?_⟩
  have hdrop : (pre ++ terminator).dropLast.drop j = ((pre ++ terminator).drop j).dropLast := by
    rw [List.dropLast_eq_take, List.dropLast_eq_take, List.drop_take, List.length_drop]
    congr 1
    omega
  have hstart' : terminator <+: (pre ++ terminator).dropLast.drop j := by
    have hne : (pre ++ terminator).drop j ≠ [] := by
      intro hnil
      have := congrArg List.length hnil
      simp [terminator, crlf] at this
      omega
    rw [hdrop]
    refine List.prefix_of_prefix_length_le hstart (List.dropLast_prefix _) ?_
    rw [List.length_dropLast, List.length_drop, List.length_append]
    have : terminator.length = 4 := rfl
    omega
  exact hstart'.isInfix.trans (List.drop_suffix j _).isInfix

theorem EndsFirst.length_ge {head : Bytes} (h : EndsFirst head) : 4 ≤ head.length := h.1.length_le

theorem endsFirst_take {s : Bytes} {pos : ℕ} (h : findFirst terminator s = some pos) :
    EndsFirst (s.take (pos + 4)) ∧ (s.take (pos + 4)).length = pos + 4 := by
  have hle : pos + 4 ≤ s.length := findFirst_length_le h
  obtain ⟨hstart, -, hmin⟩ := (findFirst_eq_some_iff terminator s pos).mp h
  have hlen : (s.take (pos + 4)).length = pos + 4 := by
    rw [List.length_take]
    omega
  refine ⟨⟨?_, ?_⟩, hlen⟩
  · obtain ⟨tail, htail⟩ := hstart
    refine ⟨s.take pos, ?_⟩
    rw [List.take_add, ← htail]
    rfl
  · rintro ⟨pre, post, hinfix⟩
    have hpre : pre.length < pos := by
      have := congrArg List.length hinfix
      rw [List.length_dropLast, hlen, List.length_append, List.length_append] at this
      have hfour : terminator.length = 4 := rfl
      omega
    refine hmin pre.length hpre ?_
    have hstarts : pre ++ terminator <+: s := by
      have hstart : pre ++ terminator <+: (s.take (pos + 4)).dropLast := ⟨post, hinfix⟩
      exact hstart.trans ((List.dropLast_prefix _).trans (List.take_prefix _ _))
    obtain ⟨tail, htail⟩ := hstarts
    rw [← htail, List.append_assoc, List.drop_left]
    exact List.prefix_append _ _

theorem EndsFirst.unique {head head' rest rest' : Bytes} (h : EndsFirst head)
    (h' : EndsFirst head') (heq : head ++ rest = head' ++ rest') : head = head' ∧ rest = rest' := by
  have hpos := h.findFirst rest
  rw [heq, h'.findFirst rest'] at hpos
  have hlen := Option.some.inj hpos
  have hge := h.length_ge
  have hge' := h'.length_ge
  exact List.append_inj heq (by omega)

theorem not_crlf_of_cr {lines : List Bytes} (h : ∀ line ∈ lines, cr ∉ line) :
    ∀ line ∈ lines, ¬ crlf <:+: line :=
  fun line hline hcrlf => h line hline (hcrlf.subset List.mem_cons_self)

theorem endsFirst_headText {p : HeadParts} (h : ∀ line ∈ p.lines, cr ∉ line) :
    EndsFirst (headText p.lines) := by
  have hlines : ∀ line ∈ p.fields.map fun f => f.1 ++ 58 :: f.2, line ≠ [] ∧ cr ∉ line := by
    intro line hline
    refine ⟨?_, h line (List.mem_cons_of_mem _ hline)⟩
    obtain ⟨f, -, rfl⟩ := List.mem_map.mp hline
    simp
  have hhead : headText p.lines = p.statusLine ++
      (p.fields.map fun f => f.1 ++ 58 :: f.2).flatMap ([cr, lf] ++ ·) ++
        ([cr, lf, cr, lf] ++ []) := by
    rw [headText, HeadParts.lines, flatMap_append_crlf, List.append_assoc]
    rfl
  have hfirst := findFirst_double (show lf ≠ cr by decide) (h _ List.mem_cons_self) hlines []
  rw [← hhead] at hfirst
  have hends := (endsFirst_take hfirst).1
  have hlen : (headText p.lines).length = (p.statusLine ++
      (p.fields.map fun f => f.1 ++ 58 :: f.2).flatMap ([cr, lf] ++ ·)).length + 4 := by
    rw [hhead, List.length_append]
    rfl
  rwa [← hlen, List.take_length] at hends

theorem contentLengthOf_error {lines : List Bytes} {seen : Option ℕ} {e : ProxyError}
    (h : contentLengthOf lines seen = .error e) : e = .upstreamProtocol := by
  fun_induction contentLengthOf lines seen <;> grind

theorem parseStatusLine_error {line : Bytes} {e : ProxyError}
    (h : parseStatusLine line = .error e) : e = .upstreamProtocol := by
  unfold parseStatusLine orError at h
  grind

theorem parseResponseHead_error {head : Bytes} {e : ProxyError}
    (h : parseResponseHead head = .error e) : e = .upstreamProtocol := by
  unfold parseResponseHead at h
  split_ifs at h with htext
  · exact (Except.error.inj h).symm
  · cases hsplit : split crlf head with
    | nil =>
      rw [hsplit] at h
      exact (Except.error.inj h).symm
    | cons statusLine lines =>
      simp only [hsplit] at h
      cases hstatus : parseStatusLine statusLine with
      | error e' =>
        rw [hstatus] at h
        obtain rfl := Except.error.inj h
        exact parseStatusLine_error hstatus
      | ok status =>
        cases hlength : contentLengthOf lines none with
        | error e' =>
          rw [hstatus, hlength] at h
          obtain rfl := Except.error.inj h
          exact contentLengthOf_error hlength
        | ok result =>
          rw [hstatus, hlength] at h
          cases result with
          | none => exact (Except.error.inj h).symm
          | some n => cases h

end Positions

end FandheBackend.PluginWebrtcProxyHead
