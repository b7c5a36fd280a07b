import FandheBackend.HttpTrim
import FandheBackend.PluginCompressionLaw
import FandheBackend.StdF32

set_option autoImplicit false

namespace FandheBackend.PluginCompression
open StdBytes HttpRequestHead HttpBodyLength HttpResponse Utf8Text SeparatedList HttpResponseUnions
open FloatRounding HttpTrim StdF32

section Weight

/-- `raw.trim().parse::<f32>()` with the test for the range; whether the weight is above zero. -/
def parseQ (raw : Bytes) : Option Bool :=
  match f32FromStr raw with
  | some (.number (.finite v)) => if 0 ≤ v ∧ v ≤ 1 then some (decide (0 < v)) else none
  | _ => none

/-- The least numbers that `f32` rounds up from zero are above half its least value. -/
def f32Tiny : ℚ := 2 ^ (-150 : ℤ)

/-- The greatest number that `f32` rounds to one. -/
def f32One : ℚ := 1 + 2 ^ (-24 : ℤ)

theorem parseQ_eq_some_iff {raw : Bytes} {b : Bool} : parseQ raw = some b ↔
    ∃ x, literalValue raw = some x ∧ -f32Tiny ≤ x ∧ x ≤ f32One ∧ (b = true ↔ f32Tiny < x) := by
  unfold parseQ f32FromStr
  cases hliteral : literalValue raw with
  | none =>
    simp only [reduceCtorEq, false_and, exists_false, iff_false]
    split_ifs <;> simp
  | some x =>
    have hprecision : 1 < f32Format.precision := by decide
    have hmin : f32Format.minExponent ≤ -f32Format.precision := by decide
    have hmax : 0 < f32Format.maxExponent := by decide
    have hunit := fun y => round_unit f32Format (x := x) (y := y) hprecision hmin hmax
    simp only [Option.some.injEq, exists_eq_left']
    constructor
    · intro h
      cases hround : f32Format.round x with
      | infinite negative => simp [hround] at h
      | finite y =>
        simp only [hround] at h
        split_ifs at h with hrange
        obtain ⟨hlow, hhigh⟩ := (hunit y).1.mp ⟨y, hround, hrange⟩
        refine ⟨hlow, hhigh, ?_⟩
        cases h
        rw [decide_eq_true_iff]
        exact (hunit y).2 hround
    · rintro ⟨hlow, hhigh, hb⟩
      obtain ⟨y, hround, hrange⟩ := (hunit 0).1.mpr ⟨hlow, hhigh⟩
      have hpos : 0 < y ↔ f32Tiny < x := (hunit y).2 hround
      simp only [hround, if_pos hrange, Option.some.injEq]
      rw [Bool.eq_iff_iff, decide_eq_true_iff, hb, hpos]

end Weight

section Entries

def literalWeight (param : Bytes) : Option Bytes :=
  if (ascii "q=").isPrefixOf param || (ascii "Q=").isPrefixOf param then
    some (strTrim (param.drop 2))
  else none

/-- The weight of a trimmed parameter of the name `q`, with white space around `=`. -/
def weightParameter (param : Bytes) : Option Bytes :=
  match param.dropWhile (· != 61) with
  | [] => none
  | _ :: value =>
    if eqIgnoreAsciiCase (strTrim (param.takeWhile (· != 61))) (ascii "q") then
      some (strTrim value)
    else none

def entryCoding (entry : Bytes) : Bytes := strTrim ((entry.splitOn 59).headD [])

def entryParams (entry : Bytes) : List Bytes := (entry.splitOn 59).tail.map strTrim

def literalWeights (entry : Bytes) : List Bytes := (entryParams entry).filterMap literalWeight

def weightParameters (entry : Bytes) : List Bytes := (entryParams entry).filterMap weightParameter

def isGzipCoding (coding : Bytes) : Bool :=
  eqIgnoreAsciiCase coding (ascii "gzip") || eqIgnoreAsciiCase coding (ascii "x-gzip")

/-- What an entry is read as, when it counts: gzip or `*`, and whether its weight is positive. -/
def readEntry (entry : Bytes) : Option (Bool × Bool) :=
  if isGzipCoding (entryCoding entry) || entryCoding entry == ascii "*" then
    (tokenQ parseQ (entry.splitOn 59).tail true true).map fun q =>
      (isGzipCoding (entryCoding entry), q)
  else none

def record (qs : Option Bool × Option Bool) : Option (Bool × Bool) → Option Bool × Option Bool
  | none => qs
  | some (true, q) => (some q, qs.2)
  | some (false, q) => (qs.1, some q)

theorem acceptToken_eq (qs : Option Bool × Option Bool) (entry : Bytes) :
    acceptToken parseQ qs entry = record qs (readEntry entry) := by
  cases hsplit : entry.splitOn 59 with
  | nil => exact absurd hsplit (List.splitOn_ne_nil 59 entry)
  | cons first params =>
    have hcoding : entryCoding entry = strTrim first := by
      rw [entryCoding, hsplit]
      rfl
    rw [acceptToken, readEntry, hcoding, hsplit]
    simp only [List.tail_cons]
    generalize strTrim first = coding
    cases hempty : coding.isEmpty with
    | true =>
      rw [List.isEmpty_iff.mp hempty]
      rfl
    | false =>
      rw [if_neg Bool.false_ne_true, ← isGzipCoding]
      cases tokenQ parseQ params true true with
      | none =>
        rw [Option.map_none, ite_self]
        rfl
      | some q =>
        cases isGzipCoding coding with
        | true => rfl
        | false => cases coding == ascii "*" <;> rfl

theorem tokenQ_eq_some_iff (f : Bytes → Option Bool) (params : List Bytes) (q valid b : Bool) :
    tokenQ f params q valid = some b ↔ valid = true ∧
      (∀ raw ∈ (params.map strTrim).filterMap literalWeight, (f raw).isSome = true) ∧
      ((((params.map strTrim).filterMap literalWeight).getLast?).bind f).getD q = b := by
  induction params generalizing q valid with
  | nil => cases valid <;> simp [tokenQ]
  | cons param params ih =>
    rw [tokenQ, List.map_cons]
    by_cases hliteral : ((ascii "q=").isPrefixOf (strTrim param) ||
        (ascii "Q=").isPrefixOf (strTrim param)) = true
    · have hweight : literalWeight (strTrim param) = some (strTrim ((strTrim param).drop 2)) :=
        if_pos hliteral
      rw [if_pos hliteral, List.filterMap_cons_some hweight, List.forall_mem_cons,
        List.getLast?_cons]
      cases hq : f (strTrim ((strTrim param).drop 2)) with
      | none => simp [ih]
      | some v =>
        simp only [ih, Option.isSome_some, true_and]
        refine and_congr_right fun _ => and_congr_right fun hall => ?_
        cases hlast : ((params.map strTrim).filterMap literalWeight).getLast? with
        | none => simp [hq]
        | some raw =>
          obtain ⟨w, hw⟩ := Option.isSome_iff_exists.mp (hall raw (List.mem_of_getLast? hlast))
          simp [hw]
    · have hweight : literalWeight (strTrim param) = none := if_neg hliteral
      rw [if_neg hliteral, List.filterMap_cons_none hweight]
      exact ih q valid

def CountsForGzip (entry : Bytes) : Prop :=
  isGzipCoding (entryCoding entry) = true ∨ entryCoding entry = ascii "*"

/-- The entry is one for gzip, and all of its weights that the code finds are rounded into the
unit interval, the last of them above zero. -/
def ReadPositive (entry : Bytes) : Prop :=
  CountsForGzip entry ∧
  (∀ raw ∈ literalWeights entry, ∃ x, literalValue raw = some x ∧ -f32Tiny ≤ x ∧ x ≤ f32One) ∧
  ∀ raw ∈ (literalWeights entry).getLast?, ∃ x, literalValue raw = some x ∧ f32Tiny < x

theorem parseQ_isSome_iff (raw : Bytes) : (parseQ raw).isSome = true ↔
    ∃ x, literalValue raw = some x ∧ -f32Tiny ≤ x ∧ x ≤ f32One := by
  rw [Option.isSome_iff_exists]
  constructor
  · rintro ⟨b, hb⟩
    obtain ⟨x, hx, hlow, hhigh, -⟩ := parseQ_eq_some_iff.mp hb
    exact ⟨x, hx, hlow, hhigh⟩
  · rintro ⟨x, hx, hlow, hhigh⟩
    exact ⟨decide (f32Tiny < x), parseQ_eq_some_iff.mpr ⟨x, hx, hlow, hhigh, decide_eq_true_iff⟩⟩

theorem readPositive_iff (entry : Bytes) :
    ReadPositive entry ↔ ∃ gzip, readEntry entry = some (gzip, true) := by
  have hcounts : (isGzipCoding (entryCoding entry) || entryCoding entry == ascii "*") = true ↔
      CountsForGzip entry := by
    rw [CountsForGzip, Bool.or_eq_true, beq_iff_eq]
  have htoken : tokenQ parseQ (entry.splitOn 59).tail true true = some true ↔
      (∀ raw ∈ literalWeights entry, ∃ x, literalValue raw = some x ∧ -f32Tiny ≤ x ∧ x ≤ f32One) ∧
      ∀ raw ∈ (literalWeights entry).getLast?, ∃ x, literalValue raw = some x ∧ f32Tiny < x := by
    rw [tokenQ_eq_some_iff, ← entryParams, ← literalWeights]
    simp only [parseQ_isSome_iff, true_and]
    refine and_congr_right fun hall => ?_
    cases hlast : (literalWeights entry).getLast? with
    | none => simp
    | some raw =>
      obtain ⟨x, hx, hlow, hhigh⟩ := hall raw (List.mem_of_getLast? hlast)
      have hread : parseQ raw = some (decide (f32Tiny < x)) :=
        parseQ_eq_some_iff.mpr ⟨x, hx, hlow, hhigh, decide_eq_true_iff⟩
      simp [hread, hx]
  unfold readEntry
  rw [ReadPositive, ← htoken, ← hcounts]
  by_cases h : (isGzipCoding (entryCoding entry) || entryCoding entry == ascii "*") = true
  · rw [if_pos h]
    simp [h, Option.map_eq_some_iff]
  · rw [if_neg h]
    simp [h]

end Entries

section Lines

def acceptEncodingValues (headers : List (Bytes × Bytes)) : List Bytes :=
  (headers.filter fun h => eqIgnoreAsciiCase h.1 (ascii "accept-encoding")).map Prod.snd

def entriesOf (headers : List (Bytes × Bytes)) : List Bytes :=
  (acceptEncodingValues headers).flatMap fun value => value.splitOn 44

def answer (qs : Option Bool × Option Bool) : Bool :=
  match qs.1 with
  | some q => q
  | none => qs.2.getD false

def readEntries (qs : Option Bool × Option Bool) (entries : List Bytes) :
    Option Bool × Option Bool :=
  entries.foldl (fun qs entry => record qs (readEntry entry)) qs

theorem acceptsGzip_eq (headers : List (Bytes × Bytes)) :
    acceptsGzip parseQ headers = answer (readEntries (none, none) (entriesOf headers)) := by
  have hstep : acceptToken parseQ = fun qs entry => record qs (readEntry entry) := by
    funext qs entry
    exact acceptToken_eq qs entry
  rw [acceptsGzip, hstep]
  rfl

theorem readEntries_or (entries : List Bytes) : ∃ g s : Option Bool, ∀ qs,
    readEntries qs entries = (g.or qs.1, s.or qs.2) := by
  induction entries with
  | nil => exact ⟨none, none, fun qs => rfl⟩
  | cons entry entries ih =>
    obtain ⟨g, s, h⟩ := ih
    have hcons : ∀ qs, readEntries qs (entry :: entries) =
        readEntries (record qs (readEntry entry)) entries := fun qs => rfl
    rcases hread : readEntry entry with _ | ⟨_ | _, q⟩
    · exact ⟨g, s, fun qs => by rw [hcons, hread, h, record]⟩
    · refine ⟨g, s.or (some q), fun qs => ?_⟩
      rw [hcons, hread, h, record, Option.or_assoc, Option.some_or]
    · refine ⟨g.or (some q), s, fun qs => ?_⟩
      rw [hcons, hread, h, record, Option.or_assoc, Option.some_or]

theorem readEntries_append (qs : Option Bool × Option Bool) (xs ys : List Bytes) :
    readEntries qs (xs ++ ys) = readEntries (readEntries qs xs) ys := List.foldl_append

theorem answer_insert {entry : Bytes} (h : ¬ ∃ gzip, readEntry entry = some (gzip, true))
    (before after : List Bytes) (hno : answer (readEntries (none, none) (before ++ after)) = false) :
    answer (readEntries (none, none) (before ++ entry :: after)) = false := by
  obtain ⟨g, s, hafter⟩ := readEntries_or after
  have hcons : ∀ qs, readEntries qs (entry :: after) =
      readEntries (record qs (readEntry entry)) after := fun qs => rfl
  rw [readEntries_append, hafter] at hno
  rw [readEntries_append, hcons, hafter]
  generalize readEntries (none, none) before = qs at hno
  rcases hread : readEntry entry with _ | ⟨_ | _, _ | _⟩
  · exact hno
  · -- `*` is refused, which counts when there is no gzip
    change answer (g.or qs.1, s.or (some false)) = false
    change answer (g.or qs.1, s.or qs.2) = false at hno
    cases hgzip : g.or qs.1 with
    | none => cases s with
      | none => rfl
      | some q => rwa [hgzip] at hno
    | some q => rwa [hgzip] at hno
  · exact absurd ⟨_, hread⟩ h
  · -- gzip is refused, unless a later entry takes it
    cases g with
    | none => rfl
    | some q => exact hno
  · exact absurd ⟨_, hread⟩ h

/-- The entry, wherever it stands in the header lines, turns no negative answer. -/
def NeverTurns (entry : Bytes) : Prop :=
  ∀ headers headers' before after, entriesOf headers = before ++ after →
    entriesOf headers' = before ++ entry :: after →
    acceptsGzip parseQ headers = false → acceptsGzip parseQ headers' = false

theorem neverTurns_iff {entry : Bytes} (hcomma : 44 ∉ entry) :
    NeverTurns entry ↔ ¬ ReadPositive entry := by
  rw [readPositive_iff]
  constructor
  · rintro h ⟨gzip, hread⟩
    have hsplit : entriesOf [(ascii "accept-encoding", entry)] = [] ++ entry :: [] := by
      change (entry.splitOn 44) ++ [] = _
      rw [List.splitOn_eq_singleton hcomma]
      rfl
    have hturn := h [] [(ascii "accept-encoding", entry)] [] [] rfl hsplit rfl
    rw [acceptsGzip_eq, hsplit] at hturn
    change answer (record (none, none) (readEntry entry)) = false at hturn
    rw [hread] at hturn
    cases gzip <;> cases hturn
  · intro h headers headers' before after heq heq' hno
    rw [acceptsGzip_eq, heq] at hno
    rw [acceptsGzip_eq, heq']
    exact answer_insert h before after hno

theorem readEntries_join (values : List Bytes) (qs : Option Bool × Option Bool) :
    readEntries qs (values.flatMap fun value => value.splitOn 44) =
      readEntries qs ((join (ascii ",") values).splitOn 44) := by
  cases values with
  | nil => rfl
  | cons value values =>
    congr 1
    induction values generalizing value with
    | nil => simp [join]
    | cons next values ih =>
      have hjoin : join (ascii ",") (value :: next :: values) =
          value ++ 44 :: join (ascii ",") (next :: values) := by
        rw [join, List.append_assoc]
        · rfl
        · exact List.cons_ne_nil _ _
      rw [List.flatMap_cons, ih, hjoin, List.splitOn_append_cons_self]

theorem acceptsGzip_lines {headers headers' : List (Bytes × Bytes)}
    (h : join (ascii ",") (acceptEncodingValues headers) =
      join (ascii ",") (acceptEncodingValues headers')) :
    acceptsGzip parseQ headers = acceptsGzip parseQ headers' := by
  rw [acceptsGzip_eq, acceptsGzip_eq, entriesOf, entriesOf, readEntries_join, readEntries_join, h]

end Lines

section Grammar

/-- The text of a weight and its exact value: up to three digits after the point. -/
inductive Qvalue : ℚ → Bytes → Prop
  | zero : Qvalue 0 (ascii "0")
  | fraction {ds : Bytes} : ds.length ≤ 3 → (∀ d ∈ ds, isAsciiDigit d = true) →
      Qvalue (digitsValue 10 ds / 10 ^ ds.length) (48 :: 46 :: ds)
  | one : Qvalue 1 (ascii "1")
  | oneZeros {n : ℕ} : n ≤ 3 → Qvalue 1 (49 :: 46 :: List.replicate n 48)

structure Coding where
  name : Bytes
  weight : ℚ

inductive CodingText : Coding → Bytes → Prop
  | plain {name : Bytes} : isToken name = true → CodingText ⟨name, 1⟩ name
  | weighted {name before after digits : Bytes} {q : UInt8} {weight : ℚ} :
      isToken name = true → (∀ b ∈ before, isOws b = true) → (∀ b ∈ after, isOws b = true) →
      toAsciiLowercase q = 113 → Qvalue weight digits →
      CodingText ⟨name, weight⟩ (name ++ before ++ 59 :: (after ++ q :: 61 :: digits))

abbrev AcceptEncoding : List Coding → Bytes → Prop := Separated isOws CodingText 44

def Coding.isGzip (c : Coding) : Bool := isGzipCoding c.name

def Coding.isStar (c : Coding) : Bool := c.name == ascii "*"

/-- The weight rule: the entry for gzip decides, and without one the entry for `*`. -/
def TakesGzip (cs : List Coding) : Prop :=
  (∃ c ∈ cs, c.isGzip = true ∧ 0 < c.weight) ∨
    (∀ c ∈ cs, c.isGzip = false) ∧ ∃ c ∈ cs, c.isStar = true ∧ 0 < c.weight

theorem literalValue_pointed {d : UInt8} (hd : isAsciiDigit d = true) {ds : Bytes}
    (h : ∀ b ∈ ds, isAsciiDigit b = true) :
    literalValue (d :: 46 :: ds) = some ((digitsValue 10 (d :: ds) : ℚ) / 10 ^ ds.length) := by
  have hsign : splitSign (d :: 46 :: ds) = (false, d :: 46 :: ds) := by
    unfold splitSign
    split
    · rename_i heq
      rw [(List.cons.inj heq).1] at hd
      cases hd
    · rename_i heq
      rw [(List.cons.inj heq).1] at hd
      cases hd
    · rfl
  have hpoint : isAsciiDigit 46 = false := rfl
  have hwhole : (d :: 46 :: ds).takeWhile isAsciiDigit = [d] ∧
      (d :: 46 :: ds).dropWhile isAsciiDigit = 46 :: ds := by
    rw [List.takeWhile_cons_of_pos hd, List.dropWhile_cons_of_pos hd,
      List.takeWhile_cons_of_neg (by simp [hpoint]), List.dropWhile_cons_of_neg (by simp [hpoint])]
    exact ⟨rfl, rfl⟩
  have hfraction : splitFraction (46 :: ds) = (ds, []) := by
    rw [splitFraction, List.takeWhile_eq_self_iff.mpr h, List.dropWhile_eq_nil_iff.mpr h]
  rw [literalValue, hsign]
  simp only
  rw [parseNumber, hwhole.1, hwhole.2, hfraction]
  simp only [List.isEmpty_cons, Bool.false_and, Bool.false_eq_true, if_false, parseExponent,
    Option.map_some, signed, zero_sub, zpow_neg, zpow_natCast, List.cons_append, List.nil_append,
    div_eq_mul_inv]

theorem Qvalue.literalValue {weight : ℚ} {text : Bytes} (h : Qvalue weight text) :
    literalValue text = some weight := by
  have hzero : ∀ n, ∀ b ∈ List.replicate n (48 : UInt8), isAsciiDigit b = true := by
    intro n b hb
    rw [List.eq_of_mem_replicate hb]
    rfl
  have hzeros : ∀ n, digitsValue 10 (List.replicate n 48) = 0 := by
    intro n
    induction n with
    | zero => rfl
    | succ n ih => rw [List.replicate_succ, digitsValue_cons, ih]; rfl
  cases h with
  | zero => decide +kernel
  | @fraction ds _ hds =>
    rw [literalValue_pointed rfl hds, digitsValue_cons]
    rfl
  | one => decide +kernel
  | @oneZeros n _ =>
    rw [literalValue_pointed rfl (hzero n), digitsValue_cons, hzeros, List.length_replicate]
    have hone : digitValue 49 = 1 := rfl
    rw [hone]
    push_cast
    rw [zero_add, mul_one, div_self (by positivity)]

theorem Qvalue.range {weight : ℚ} {text : Bytes} (h : Qvalue weight text) :
    0 ≤ weight ∧ weight ≤ 1 ∧ (0 < weight → 1 / 1000 ≤ weight) := by
  cases h with
  | zero => norm_num
  | @fraction ds hlength hds =>
    have hpow : (0 : ℚ) < 10 ^ ds.length := by positivity
    have hthousand : (10 : ℚ) ^ ds.length ≤ 1000 := by
      have hle := pow_le_pow_right₀ (by norm_num : (1 : ℚ) ≤ 10) hlength
      norm_num at hle
      exact hle
    refine ⟨by positivity, ?_, fun hpos => ?_⟩
    · rw [div_le_one hpow]
      exact_mod_cast (digitsValue_lt hds).le
    · rw [div_pos_iff_of_pos_right hpow, Nat.cast_pos] at hpos
      have hone : (1 : ℚ) ≤ digitsValue 10 ds := by exact_mod_cast hpos
      rw [div_le_div_iff₀ (by norm_num) hpow]
      linarith
  | one => norm_num
  | oneZeros _ => norm_num

/-- On the weights of the grammar, rounding changes nothing. -/
theorem Qvalue.parseQ {weight : ℚ} {text : Bytes} (h : Qvalue weight text) :
    parseQ text = some (decide (0 < weight)) := by
  obtain ⟨hlow, hhigh, hstep⟩ := h.range
  have htiny : (0 : ℚ) < f32Tiny ∧ f32Tiny < 1 / 1000 := by
    rw [f32Tiny]
    norm_num
  have hone : (1 : ℚ) ≤ f32One := by
    rw [f32One]
    norm_num
  refine parseQ_eq_some_iff.mpr ⟨weight, h.literalValue, by linarith, by linarith, ?_⟩
  rw [decide_eq_true_iff]
  constructor
  · intro hpos
    exact htiny.2.trans_le (hstep hpos)
  · exact htiny.1.trans

def readCoding (c : Coding) : Option (Bool × Bool) :=
  if c.isGzip || c.isStar then some (c.isGzip, decide (0 < c.weight)) else none

theorem ows_ne {b : UInt8} (h : isOws b = true) : b ≠ 59 ∧ b ≠ 44 := by
  revert b
  apply forall_byte
  decide +kernel

theorem tchar_plain {b : UInt8} (h : isTchar b = true) : isPlain b = true ∧ b ≠ 59 ∧ b ≠ 44 := by
  refine ⟨plain_tchar h, ?_⟩
  revert b
  apply forall_byte
  decide +kernel

theorem name_plain {name : Bytes} (h : isToken name = true) :
    ∀ b ∈ name, isPlain b = true ∧ b ≠ 59 ∧ b ≠ 44 := by
  rw [isToken, Bool.and_eq_true, List.all_eq_true] at h
  exact fun b hb => tchar_plain (h.2 b hb)

theorem Qvalue.plain {weight : ℚ} {text : Bytes} (h : Qvalue weight text) :
    ∀ b ∈ text, isPlain b = true ∧ b ≠ 59 ∧ b ≠ 44 := by
  have hzero : isPlain 48 = true ∧ (48 : UInt8) ≠ 59 ∧ (48 : UInt8) ≠ 44 := by decide
  have hone : isPlain 49 = true ∧ (49 : UInt8) ≠ 59 ∧ (49 : UInt8) ≠ 44 := by decide
  have hpoint : isPlain 46 = true ∧ (46 : UInt8) ≠ 59 ∧ (46 : UInt8) ≠ 44 := by decide
  cases h with
  | zero => exact List.forall_mem_singleton.mpr hzero
  | fraction _ hds =>
    rw [List.forall_mem_cons, List.forall_mem_cons]
    exact ⟨hzero, hpoint, fun b hb => tchar_plain (tchar_digit (hds b hb))⟩
  | one => exact List.forall_mem_singleton.mpr hone
  | oneZeros _ =>
    rw [List.forall_mem_cons, List.forall_mem_cons]
    exact ⟨hone, hpoint, fun b hb => List.eq_of_mem_replicate hb ▸ hzero⟩

theorem readEntry_eq {entry first : Bytes} {params : List Bytes}
    (hsplit : entry.splitOn 59 = first :: params) {name : Bytes} (hname : strTrim first = name)
    {positive : Bool} (htoken : tokenQ parseQ params true true = some positive) :
    readEntry entry = if isGzipCoding name || name == ascii "*" then
      some (isGzipCoding name, positive) else none := by
  have hcoding : entryCoding entry = name := by
    rw [entryCoding, hsplit]
    exact hname
  rw [readEntry, hcoding, hsplit, List.tail_cons, htoken]
  rfl

theorem not_mem_padding {ws : Bytes} (h : ∀ b ∈ ws, isOws b = true) : 59 ∉ ws ∧ 44 ∉ ws :=
  ⟨fun hmem => (ows_ne (h 59 hmem)).1 rfl, fun hmem => (ows_ne (h 44 hmem)).2 rfl⟩

theorem not_mem_plain {text : Bytes} (h : ∀ b ∈ text, isPlain b = true ∧ b ≠ 59 ∧ b ≠ 44) :
    59 ∉ text ∧ 44 ∉ text :=
  ⟨fun hmem => (h 59 hmem).2.1 rfl, fun hmem => (h 44 hmem).2.2 rfl⟩

theorem tokenQ_weight {after post digits : Bytes} {q : UInt8} {weight : ℚ}
    (hafter : ∀ b ∈ after, isOws b = true) (hpost : ∀ b ∈ post, isOws b = true)
    (hq : toAsciiLowercase q = 113) (hweight : Qvalue weight digits) :
    tokenQ parseQ [after ++ q :: 61 :: digits ++ post] true true = some (decide (0 < weight)) := by
  have hletter : q = 113 ∨ q = 81 := by
    have hbyte : ∀ q : UInt8, toAsciiLowercase q = 113 → q = 113 ∨ q = 81 := by
      apply forall_byte
      decide +kernel
    exact hbyte q hq
  have hplain : ∀ b ∈ q :: 61 :: digits, isPlain b = true := by
    rw [List.forall_mem_cons, List.forall_mem_cons]
    refine ⟨?_, rfl, fun b hb => (hweight.plain b hb).1⟩
    rcases hletter with rfl | rfl <;> rfl
  have htrim : strTrim (after ++ q :: 61 :: digits ++ post) = q :: 61 :: digits :=
    strTrim_pad hafter hpost hplain
  have hdigits : strTrim digits = digits := by
    have htrim := strTrim_pad (List.forall_mem_nil _) (List.forall_mem_nil _)
      fun b hb => (hweight.plain b hb).1
    rwa [List.nil_append, List.append_nil] at htrim
  have hliteral : ((ascii "q=").isPrefixOf (q :: 61 :: digits) ||
      (ascii "Q=").isPrefixOf (q :: 61 :: digits)) = true := by
    rcases hletter with rfl | rfl <;> rfl
  rw [tokenQ, htrim, if_pos hliteral, List.drop_succ_cons, List.drop_succ_cons, List.drop_zero,
    hdigits, hweight.parseQ]
  rfl

/-- An entry of the grammar is read as it is meant, whatever padding is around it. -/
theorem readEntry_coding {c : Coding} {text pre post : Bytes} (h : CodingText c text)
    (hpre : ∀ b ∈ pre, isOws b = true) (hpost : ∀ b ∈ post, isOws b = true) :
    readEntry (pre ++ text ++ post) = readCoding c := by
  cases h with
  | plain hname =>
    have hsplit : (pre ++ text ++ post).splitOn 59 = [pre ++ text ++ post] := by
      apply List.splitOn_eq_singleton
      rw [List.mem_append, List.mem_append, not_or, not_or]
      exact ⟨⟨(not_mem_padding hpre).1, (not_mem_plain (name_plain hname)).1⟩,
        (not_mem_padding hpost).1⟩
    have htrim := strTrim_pad hpre hpost fun b hb => (name_plain hname b hb).1
    rw [readEntry_eq hsplit htrim rfl]
    simp [readCoding, Coding.isGzip, Coding.isStar]
  | @weighted name before after digits q weight hname hbefore hafter hq hweight =>
    have htext : pre ++ (name ++ before ++ 59 :: (after ++ q :: 61 :: digits)) ++ post =
        (pre ++ name ++ before) ++ 59 :: (after ++ q :: 61 :: digits ++ post) := by
      simp only [List.append_assoc, List.cons_append]
    have hqsemi : q ≠ 59 := by
      rintro rfl
      cases hq
    have hfirst : 59 ∉ pre ++ name ++ before := by
      rw [List.mem_append, List.mem_append, not_or, not_or]
      exact ⟨⟨(not_mem_padding hpre).1, (not_mem_plain (name_plain hname)).1⟩,
        (not_mem_padding hbefore).1⟩
    have hrest : 59 ∉ after ++ q :: 61 :: digits ++ post := by
      simp only [List.mem_append, List.mem_cons, not_or]
      exact ⟨⟨(not_mem_padding hafter).1, hqsemi.symm, by decide, (not_mem_plain hweight.plain).1⟩,
        (not_mem_padding hpost).1⟩
    have hsplit : (pre ++ (name ++ before ++ 59 :: (after ++ q :: 61 :: digits)) ++ post).splitOn 59 =
        [pre ++ name ++ before, after ++ q :: 61 :: digits ++ post] := by
      rw [htext, List.splitOn_append_cons_self_of_not_mem hfirst, List.splitOn_eq_singleton hrest]
    have htrim := strTrim_pad hpre hbefore fun b hb => (name_plain hname b hb).1
    rw [readEntry_eq hsplit htrim (tokenQ_weight hafter hpost hq hweight)]
    rfl

theorem readEntry_absent {ws : Bytes} (h : ∀ b ∈ ws, isOws b = true) : readEntry ws = none := by
  have hsplit : ws.splitOn 59 = [ws] := List.splitOn_eq_singleton (not_mem_padding h).1
  have htrim := strTrim_pad h (List.forall_mem_nil _) (List.forall_mem_nil _)
  rw [List.append_nil, List.append_nil] at htrim
  rw [readEntry_eq hsplit htrim rfl]
  rfl

theorem CodingText.no_comma {c : Coding} {text : Bytes} (h : CodingText c text) : 44 ∉ text := by
  cases h with
  | plain hname => exact (not_mem_plain (name_plain hname)).2
  | @weighted name before after digits q weight hname hbefore hafter hq hweight =>
    have hcomma : q ≠ 44 := by
      rintro rfl
      cases hq
    simp only [List.mem_append, List.mem_cons, not_or]
    exact ⟨⟨(not_mem_plain (name_plain hname)).2, (not_mem_padding hbefore).2⟩, by decide,
      (not_mem_padding hafter).2, hcomma.symm, by decide, (not_mem_plain hweight.plain).2⟩

theorem element_entries {cs : List Coding} {text : Bytes} (h : Element isOws CodingText cs text) :
    [text].filterMap readEntry = cs.filterMap readCoding ∧ 44 ∉ text := by
  cases h with
  | absent hws => exact ⟨by rw [List.filterMap_cons_none (readEntry_absent hws)]; rfl,
      (not_mem_padding hws).2⟩
  | @present c text pre post htext hpre hpost =>
    refine ⟨?_, ?_⟩
    · simp only [List.filterMap_cons, List.filterMap_nil, readEntry_coding htext hpre hpost]
    · rw [List.mem_append, List.mem_append, not_or, not_or]
      exact ⟨⟨(not_mem_padding hpre).2, htext.no_comma⟩, (not_mem_padding hpost).2⟩

theorem line_entries {cs : List Coding} {line : Bytes} (h : AcceptEncoding cs line) :
    (line.splitOn 44).filterMap readEntry = cs.filterMap readCoding := by
  induction h with
  | last helement =>
    rw [List.splitOn_eq_singleton (element_entries helement).2, (element_entries helement).1]
  | cons helement _ ih =>
    rw [List.splitOn_append_cons_self_of_not_mem (element_entries helement).2,
      ← List.singleton_append, List.filterMap_append, (element_entries helement).1, ih,
      List.filterMap_append]

theorem entries_codings {cs : List Coding} {headers : List (Bytes × Bytes)}
    (h : Reads AcceptEncoding cs (acceptEncodingValues headers)) :
    (entriesOf headers).filterMap readEntry = cs.filterMap readCoding := by
  obtain ⟨css, hlines, rfl⟩ := h
  rw [entriesOf]
  generalize acceptEncodingValues headers = values at hlines ⊢
  induction hlines with
  | nil => rfl
  | cons hline _ ih =>
    rw [List.flatMap_cons, List.filterMap_append, line_entries hline, ih, List.flatten_cons,
      List.filterMap_append]

end Grammar

section Rule

def marked (gzip : Bool) (marks : List (Bool × Bool)) : Option Bool :=
  ((marks.filter fun m => m.1 == gzip).getLast?).map Prod.snd

theorem readEntries_marked (entries : List Bytes) :
    readEntries (none, none) entries =
      (marked true (entries.filterMap readEntry), marked false (entries.filterMap readEntry)) := by
  induction entries using List.reverseRecOn with
  | nil => rfl
  | append_singleton entries entry ih =>
    rw [readEntries_append, ih, List.filterMap_append]
    change record _ (readEntry entry) = _
    rcases hread : readEntry entry with _ | ⟨_ | _, q⟩
    all_goals simp [record, marked, hread, List.filter_append]

theorem isGzip_of_isStar {c : Coding} (h : c.isStar = true) : c.isGzip = false := by
  rw [Coding.isStar, beq_iff_eq] at h
  rw [Coding.isGzip, h]
  rfl

theorem marked_gzip (cs : List Coding) : marked true (cs.filterMap readCoding) =
    ((cs.filter Coding.isGzip).getLast?).map fun c => decide (0 < c.weight) := by
  have hmarks : (cs.filterMap readCoding).filter (fun m => m.1 == true) =
      (cs.filter Coding.isGzip).map fun c => (true, decide (0 < c.weight)) := by
    induction cs with
    | nil => rfl
    | cons c cs ih =>
      rw [List.filterMap_cons, readCoding]
      cases hgzip : c.isGzip <;> cases c.isStar <;> simpa [List.filter_cons, hgzip] using ih
  rw [marked, hmarks, List.getLast?_map, Option.map_map]
  rfl

theorem marked_star (cs : List Coding) : marked false (cs.filterMap readCoding) =
    ((cs.filter Coding.isStar).getLast?).map fun c => decide (0 < c.weight) := by
  have hmarks : (cs.filterMap readCoding).filter (fun m => m.1 == false) =
      (cs.filter Coding.isStar).map fun c => (false, decide (0 < c.weight)) := by
    induction cs with
    | nil => rfl
    | cons c cs ih =>
      rw [List.filterMap_cons, readCoding]
      cases hstar : c.isStar with
      | true => simpa [List.filter_cons, hstar, isGzip_of_isStar hstar] using ih
      | false => cases c.isGzip <;> simpa [List.filter_cons, hstar] using ih
  rw [marked, hmarks, List.getLast?_map, Option.map_map]
  rfl

theorem getLast?_filter {α : Type} {p : α → Bool} {xs : List α} (h : (xs.filter p).length ≤ 1)
    (x : α) : (xs.filter p).getLast? = some x ↔ x ∈ xs ∧ p x = true := by
  rw [← List.mem_filter]
  rcases hfilter : xs.filter p with _ | ⟨y, _ | ⟨z, ys⟩⟩
  · simp
  · simp [eq_comm]
  · rw [hfilter] at h
    simp at h

/-- On what conforms to the grammar the code follows the weight rule. -/
theorem acceptsGzip_iff {headers : List (Bytes × Bytes)} {cs : List Coding}
    (h : Reads AcceptEncoding cs (acceptEncodingValues headers))
    (hgzip : (cs.filter Coding.isGzip).length ≤ 1) (hstar : (cs.filter Coding.isStar).length ≤ 1) :
    acceptsGzip parseQ headers = true ↔ TakesGzip cs := by
  have hlastGzip := getLast?_filter hgzip
  have hlastStar := getLast?_filter hstar
  rw [acceptsGzip_eq, readEntries_marked, entries_codings h, marked_gzip, marked_star, answer,
    TakesGzip]
  cases hlast : (cs.filter Coding.isGzip).getLast? with
  | some c =>
    obtain ⟨hmem, hc⟩ := (hlastGzip c).mp hlast
    simp only [Option.map_some, decide_eq_true_iff]
    constructor
    · exact fun hpos => .inl ⟨c, hmem, hc, hpos⟩
    · rintro (⟨d, hd, hdgzip, hpos⟩ | ⟨hnone, -⟩)
      · rw [(hlastGzip d).mpr ⟨hd, hdgzip⟩] at hlast
        cases hlast
        exact hpos
      · rw [hnone c hmem] at hc
        cases hc
  | none =>
    have hnone : ∀ c ∈ cs, c.isGzip = false := by
      intro c hc
      by_contra hcgzip
      rw [(hlastGzip c).mpr ⟨hc, by simpa using hcgzip⟩] at hlast
      cases hlast
    simp only [Option.map_none]
    constructor
    · intro hstar
      cases hlastS : (cs.filter Coding.isStar).getLast? with
      | none => simp [hlastS] at hstar
      | some d =>
        obtain ⟨hmem, hd⟩ := (hlastStar d).mp hlastS
        simp only [hlastS, Option.map_some, Option.getD_some, decide_eq_true_iff] at hstar
        exact .inr ⟨hnone, d, hmem, hd, hstar⟩
    · rintro (⟨c, hc, hcgzip, -⟩ | ⟨-, d, hd, hdstar, hpos⟩)
      · rw [hnone c hc] at hcgzip
        cases hcgzip
      · rw [(hlastStar d).mpr ⟨hd, hdstar⟩]
        simpa using hpos

theorem TakesGzip.perm {cs cs' : List Coding} (h : cs.Perm cs') : TakesGzip cs ↔ TakesGzip cs' := by
  simp only [TakesGzip, h.mem_iff]

def InUnit (raw : Bytes) : Prop := ∃ x, literalValue raw = some x ∧ 0 < x ∧ x ≤ 1

/-- A weight of the entry is zero, or no number between zero and one. -/
def BadWeight (entry : Bytes) : Prop := ∃ raw ∈ weightParameters entry, ¬ InUnit raw

theorem weightParameter_of_literal {param raw : Bytes} (h : literalWeight param = some raw) :
    weightParameter param = some raw := by
  unfold literalWeight at h
  split_ifs at h with hprefixed
  cases h
  have hname : ∃ q value, param = q :: 61 :: value ∧ (q = 113 ∨ q = 81) := by
    rw [Bool.or_eq_true, List.isPrefixOf_iff_prefix, List.isPrefixOf_iff_prefix] at hprefixed
    rcases hprefixed with ⟨value, hvalue⟩ | ⟨value, hvalue⟩
    · exact ⟨113, value, hvalue.symm, .inl rfl⟩
    · exact ⟨81, value, hvalue.symm, .inr rfl⟩
  have hletter : ∀ q : UInt8, isPlain q = true → strTrim [q] = [q] := by
    intro q hq
    have htrim := strTrim_pad (List.forall_mem_nil _) (List.forall_mem_nil _)
      (List.forall_mem_singleton.mpr hq)
    rwa [List.nil_append, List.append_nil] at htrim
  obtain ⟨q, value, rfl, rfl | rfl⟩ := hname
  · change (if eqIgnoreAsciiCase (strTrim [113]) (ascii "q") then some (strTrim value) else none) =
      some (strTrim value)
    rw [hletter 113 rfl]
    rfl
  · change (if eqIgnoreAsciiCase (strTrim [81]) (ascii "q") then some (strTrim value) else none) =
      some (strTrim value)
    rw [hletter 81 rfl]
    rfl

theorem literalWeights_sublist (entry : Bytes) :
    (literalWeights entry).Sublist (weightParameters entry) := by
  unfold literalWeights weightParameters
  induction entryParams entry with
  | nil => exact .slnil
  | cons param params ih =>
    cases hliteral : literalWeight param with
    | some raw =>
      rw [List.filterMap_cons_some hliteral,
        List.filterMap_cons_some (weightParameter_of_literal hliteral)]
      exact ih.cons_cons raw
    | none =>
      rw [List.filterMap_cons_none hliteral, List.filterMap_cons]
      cases weightParameter param with
      | none => exact ih
      | some raw => exact ih.cons raw

/-- With one weight that is bad: it is not found, or it is rounded down to one. -/
theorem readPositive_single {entry raw : Bytes} (hweight : weightParameters entry = [raw])
    (hbad : ¬ InUnit raw) : ReadPositive entry ↔ CountsForGzip entry ∧
      (literalWeights entry = [] ∨ ∃ x, literalValue raw = some x ∧ 1 < x ∧ x ≤ f32One) := by
  have hsub := literalWeights_sublist entry
  have htiny : (0 : ℚ) < f32Tiny ∧ f32Tiny < 1 := by
    rw [f32Tiny]
    norm_num
  rw [hweight, List.sublist_singleton] at hsub
  rw [ReadPositive]
  refine and_congr_right fun _ => ?_
  rcases hsub with hnone | hone
  · simp [hnone]
  · rw [hone, List.forall_mem_singleton]
    simp only [List.getLast?_singleton, Option.mem_def, Option.some.injEq, forall_eq',
      List.cons_ne_nil, false_or]
    constructor
    · rintro ⟨⟨x, hx, -, hhigh⟩, y, hy, hpos⟩
      rw [hx] at hy
      cases hy
      refine ⟨x, hx, not_le.mp fun hle => hbad ⟨x, hx, htiny.1.trans hpos, hle⟩, hhigh⟩
    · rintro ⟨x, hx, hlow, hhigh⟩
      exact ⟨⟨x, hx, by linarith, hhigh⟩, x, hx, by linarith⟩

/-- The weight rule, and what the code makes of an entry whose weight is bad. -/
theorem acceptsGzip_weights (headers : List (Bytes × Bytes)) (entry : Bytes) :
    (∀ cs, Reads AcceptEncoding cs (acceptEncodingValues headers) →
      (cs.filter Coding.isGzip).length ≤ 1 → (cs.filter Coding.isStar).length ≤ 1 →
      (acceptsGzip parseQ headers = true ↔ TakesGzip cs) ∧
      ∀ headers' cs', Reads AcceptEncoding cs' (acceptEncodingValues headers') → cs.Perm cs' →
        acceptsGzip parseQ headers' = acceptsGzip parseQ headers) ∧
    (∀ headers', join (ascii ",") (acceptEncodingValues headers) =
        join (ascii ",") (acceptEncodingValues headers') →
      acceptsGzip parseQ headers = acceptsGzip parseQ headers') ∧
    (44 ∉ entry → BadWeight entry → (NeverTurns entry ↔ ¬ ReadPositive entry)) ∧
    (∀ raw, weightParameters entry = [raw] → ¬ InUnit raw →
      (ReadPositive entry ↔ CountsForGzip entry ∧
        (literalWeights entry = [] ∨ ∃ x, literalValue raw = some x ∧ 1 < x ∧ x ≤ f32One))) := by
  refine ⟨fun cs h hgzip hstar => ⟨acceptsGzip_iff h hgzip hstar, fun headers' cs' h' hperm => ?_⟩,
    fun _ h => acceptsGzip_lines h, fun hcomma _ => neverTurns_iff hcomma,
    fun raw hweight hbad => readPositive_single hweight hbad⟩
  have hgzip' := (hperm.filter Coding.isGzip).length_eq ▸ hgzip
  have hstar' := (hperm.filter Coding.isStar).length_eq ▸ hstar
  rw [Bool.eq_iff_iff, acceptsGzip_iff h' hgzip' hstar', acceptsGzip_iff h hgzip hstar,
    TakesGzip.perm hperm]

/-- gzip is refused, and `*` does not stand in for it. -/
theorem acceptsGzip_weights_refused :
    ¬ acceptsGzip parseQ [(ascii "Accept-Encoding", ascii "gzip;Q=0.00, *")] = true := by
  have hgzip : CodingText ⟨ascii "gzip", 0⟩ (ascii "gzip;Q=0.00") := by
    have hweight : Qvalue (digitsValue 10 [48, 48] / 10 ^ 2) (ascii "0.00") :=
      .fraction (by decide) (List.forall_mem_cons.mpr ⟨rfl, List.forall_mem_singleton.mpr rfl⟩)
    rw [show digitsValue 10 [48, 48] = 0 from rfl, Nat.cast_zero, zero_div] at hweight
    exact .weighted (q := 81) (by decide) (List.forall_mem_nil _) (List.forall_mem_nil _) rfl hweight
  have hstar : CodingText ⟨ascii "*", 1⟩ (ascii "*") := .plain (by decide)
  have hfirst : Element isOws CodingText [⟨ascii "gzip", 0⟩] ([] ++ ascii "gzip;Q=0.00" ++ []) :=
    .present hgzip (List.forall_mem_nil _) (List.forall_mem_nil _)
  have hlast : Element isOws CodingText [⟨ascii "*", 1⟩] ([32] ++ ascii "*" ++ []) :=
    .present hstar (List.forall_mem_singleton.mpr rfl) (List.forall_mem_nil _)
  have hline : AcceptEncoding ([⟨ascii "gzip", 0⟩] ++ [⟨ascii "*", 1⟩]) (ascii "gzip;Q=0.00, *") :=
    .cons hfirst (.last hlast)
  rw [((acceptsGzip_weights _ []).1 _ ⟨[_], .cons hline .nil, rfl⟩ (by decide) (by decide)).1]
  rintro (⟨c, hc, hcgzip, hpos⟩ | ⟨hnone, -⟩)
  · rcases List.mem_pair.mp hc with rfl | rfl
    · exact lt_irrefl _ hpos
    · cases hcgzip
  · cases hnone _ (.head _)

def spacedRequest : Bytes :=
  ascii "GET / HTTP/1.1" ++ crlf ++ ascii "Accept-Encoding: gzip;q =0" ++ crlf ++ crlf

def spacedHead : RequestHead (fun _ : Unit => Unit) :=
  { buf := spacedRequest.take 42
    methodRange := ⟨0, 3⟩
    targetRange := ⟨4, 5⟩
    version := .http11
    headerRanges := [(⟨16, 31⟩, ⟨33, 42⟩)]
    extensions := .new }

theorem acceptsGzip_spaced :
    parseRequestHead spacedRequest = .ok (.complete spacedHead 46) ∧
      BadWeight (ascii "gzip;q =0") ∧ acceptsGzip parseQ spacedHead.headers = true ∧
      ¬ NeverTurns (ascii "gzip;q =0") := by
  have haccepts : acceptsGzip parseQ spacedHead.headers = true := by decide +kernel
  refine ⟨by rfl, ⟨ascii "0", ?_, ?_⟩, haccepts, fun h => ?_⟩
  · have hweights : weightParameters (ascii "gzip;q =0") = [ascii "0"] := by decide +kernel
    rw [hweights]
    exact List.mem_singleton_self _
  · rintro ⟨x, hx, hpos, -⟩
    rw [Qvalue.zero.literalValue] at hx
    cases hx
    exact lt_irrefl _ hpos
  · have hentries : entriesOf spacedHead.headers = [] ++ ascii "gzip;q =0" :: [] := by
      decide +kernel
    have hturn := h [] spacedHead.headers [] [] rfl hentries rfl
    rw [haccepts] at hturn
    cases hturn

end Rule

end FandheBackend.PluginCompression
