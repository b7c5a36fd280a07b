import FandheBackend.HttpRequestHead
import FandheBackend.PatternSplit

set_option autoImplicit false

namespace FandheBackend.HttpRequestGrammar
open StdBytes HttpRequestHead PatternSearch PatternSplit Utf8Text

def versionText : HttpVersion → Bytes
  | .http10 => ascii "HTTP/1.0"
  | .http11 => ascii "HTTP/1.1"

/-- `method SP target SP version` -/
structure RequestLine (line method target : Bytes) (version : HttpVersion) : Prop where
  layout : line = method ++ 32 :: (target ++ 32 :: versionText version)
  two_spaces : line.count 32 = 2
  method_token : method ≠ [] ∧ ∀ b ∈ method, isTchar b = true
  target_text : target ≠ [] ∧ IsText target
  no_control : ∀ b ∈ line, 32 ≤ b ∧ b ≠ 127

/-- `name:value`, with spaces and tabs around the value. -/
structure HeaderLine (line name value : Bytes) : Prop where
  layout : ∃ raw, line = name ++ 58 :: raw ∧ value = trimBy isOws raw
  first_colon : 58 ∉ name
  name_token : name ≠ [] ∧ ∀ b ∈ name, isTchar b = true
  value_text : IsText value
  no_control : ∀ b ∈ value, b ≠ 9 → 32 ≤ b ∧ b ≠ 127

/-- The range stands for a piece that begins and ends between characters. -/
def Cuts (text : Bytes) (r : Range) (piece : Bytes) : Prop :=
  ∃ before after, text = before ++ piece ++ after ∧
    r = ⟨before.length, before.length + piece.length⟩ ∧ IsText piece ∧ IsText after

theorem Cuts.slice_eq {text piece : Bytes} {r : Range} (h : Cuts text r piece) :
    slice text r = piece := by
  obtain ⟨before, after, rfl, rfl, -, -⟩ := h
  rw [slice, ← List.length_append, List.take_left, List.drop_left]

theorem Cuts.safe {text piece : Bytes} {r : Range} (h : Cuts text r piece) :
    r.start ≤ r.stop ∧ r.stop ≤ text.length ∧ isCharBoundary text r.start = true ∧
      isCharBoundary text r.stop = true := by
  obtain ⟨before, after, rfl, rfl, hpiece, hafter⟩ := h
  refine ⟨Nat.le_add_right _ _, by simp, ?_, ?_⟩
  · rw [List.append_assoc]
    exact isCharBoundary_append before (hpiece.append hafter)
  · rw [← List.length_append]
    exact isCharBoundary_append (before ++ piece) hafter

theorem Cuts.shift {line piece : Bytes} {r : Range} (h : Cuts line r piece) (before : Bytes)
    {after : Bytes} (hafter : IsText after) :
    Cuts (before ++ line ++ after) (shiftRange r before.length) piece := by
  obtain ⟨inBefore, inAfter, rfl, rfl, hpiece, hinAfter⟩ := h
  refine ⟨before ++ inBefore, inAfter ++ after, by simp, ?_, hpiece, hinAfter.append hafter⟩
  simp only [shiftRange, List.length_append, Range.mk.injEq]
  omega

section Trim

theorem findIdx?_append {p : UInt8 → Bool} {pre : Bytes} (hpre : ∀ b ∈ pre, p b = false) {b : UInt8}
    (hb : p b = true) (post : Bytes) : (pre ++ b :: post).findIdx? p = some pre.length := by
  induction pre with
  | nil => simp [List.findIdx?_cons, hb]
  | cons a pre ih =>
    rw [List.forall_mem_cons] at hpre
    rw [List.cons_append, List.findIdx?_cons, hpre.1, ih hpre.2]
    rfl

theorem trimOwsRange_eq (raw : Bytes) :
    ∃ before after, raw = before ++ trimBy isOws raw ++ after ∧
      trimOwsRange raw = ⟨before.length, before.length + (trimBy isOws raw).length⟩ ∧
      (∀ b ∈ before, isOws b = true) ∧ ∀ b ∈ after, isOws b = true := by
  obtain ⟨before, after, hraw, hbefore, hafter⟩ := trimBy_split isOws raw
  by_cases hempty : trimBy isOws raw = []
  · have hall : ∀ b ∈ raw, (!isOws b) = false := by
      intro b hb
      rw [hraw, hempty, List.append_nil] at hb
      rcases List.mem_append.mp hb with hb | hb
      · simp [hbefore b hb]
      · simp [hafter b hb]
    have hnone : raw.findIdx? (!isOws ·) = none := List.findIdx?_eq_none_iff.mpr hall
    have hrnone : raw.reverse.findIdx? (!isOws ·) = none :=
      List.findIdx?_eq_none_iff.mpr fun b hb => hall b (List.mem_reverse.mp hb)
    refine ⟨raw, [], by simp [hempty], ?_, fun b hb => by simpa using hall b hb, by simp⟩
    simp [trimOwsRange, rposition, hnone, hrnone, hempty]
  · obtain ⟨hhead, hlast⟩ := trimBy_ends isOws raw
    refine ⟨before, after, hraw, ?_, hbefore, hafter⟩
    generalize trimBy isOws raw = mid at hraw hempty hhead hlast
    have hstart : raw.findIdx? (!isOws ·) = some before.length := by
      obtain ⟨b, tail, rfl⟩ := List.exists_cons_of_ne_nil hempty
      have hb : isOws b = false := hhead b rfl
      rw [hraw, List.append_assoc, List.cons_append]
      exact findIdx?_append (fun a ha => by simp [hbefore a ha]) (by simp [hb]) _
    have hstop : rposition (!isOws ·) raw = some (before.length + mid.length - 1) := by
      obtain ⟨front, b, rfl⟩ : ∃ front b, mid = front ++ [b] :=
        ⟨mid.dropLast, mid.getLast hempty, (List.dropLast_append_getLast hempty).symm⟩
      have hb : isOws b = false := hlast b (by simp)
      have hreverse : raw.reverse = after.reverse ++ b :: (before ++ front).reverse := by
        rw [hraw]
        simp
      rw [rposition, hreverse, findIdx?_append (fun a ha => by simp [hafter a (by simpa using ha)])
        (by simp [hb]), Option.map_some, hraw]
      simp only [List.length_append, List.length_reverse, List.length_singleton,
        Option.some.injEq]
      omega
    have hpos := List.length_pos_of_ne_nil hempty
    rw [trimOwsRange, hstart, hstop]
    simp only [Option.getD_some, Option.map_some, Range.mk.injEq, true_and]
    omega

end Trim

section Bytes

theorem fromUtf8IsErr_eq_false (bytes : Bytes) : fromUtf8IsErr bytes = false ↔ IsText bytes := by
  rw [← isSome_decode_iff, fromUtf8IsErr]
  cases decode bytes <;> simp

theorem tchar_ascii {b : UInt8} (h : isTchar b = true) : b < 128 ∧ b ≠ 32 ∧ b ≠ 58 := by
  revert b
  apply forall_byte
  decide +kernel

theorem ows_ascii {b : UInt8} (h : isOws b = true) : b < 128 := by
  rw [isOws, Bool.or_eq_true, beq_iff_eq, beq_iff_eq] at h
  rcases h with rfl | rfl <;> decide

theorem isText_token {token : Bytes} (h : ∀ b ∈ token, isTchar b = true) : IsText token :=
  isText_of_ascii fun b hb => (tchar_ascii (h b hb)).1

theorem isText_ows {bytes : Bytes} (h : ∀ b ∈ bytes, isOws b = true) : IsText bytes :=
  isText_of_ascii fun b hb => ows_ascii (h b hb)

theorem isText_cons {b : UInt8} (hb : b < 128) {bytes : Bytes} (h : IsText bytes) :
    IsText (b :: bytes) := by
  have hone : IsText [b] := isText_of_ascii (by simpa using hb)
  exact hone.append h

theorem any_forbidden_eq_false (bytes : Bytes) :
    bytes.any (isForbiddenCtl · false) = false ↔ ∀ b ∈ bytes, 32 ≤ b ∧ b ≠ 127 := by
  rw [List.any_eq_false]
  refine forall₂_congr fun b _ => ?_
  simp [isForbiddenCtl]

theorem any_forbidden_htab_eq_false (bytes : Bytes) :
    bytes.any (isForbiddenCtl · true) = false ↔ ∀ b ∈ bytes, b ≠ 9 → 32 ≤ b ∧ b ≠ 127 := by
  rw [List.any_eq_false]
  refine forall₂_congr fun b _ => ?_
  by_cases hb : b = 9 <;> simp [isForbiddenCtl, hb]

end Bytes

section HeaderLines

def headerRangesOf (name raw : Bytes) : Range × Range :=
  (⟨0, name.length⟩,
    ⟨name.length + 1 + (trimOwsRange raw).start, name.length + 1 + (trimOwsRange raw).stop⟩)

theorem slice_trimOwsRange (raw : Bytes) : slice raw (trimOwsRange raw) = trimBy isOws raw := by
  obtain ⟨before, after, hraw, hrange, -, -⟩ := trimOwsRange_eq raw
  generalize trimBy isOws raw = mid at hraw hrange
  rw [hrange, hraw, slice, ← List.length_append, List.take_left, List.drop_left]

theorem parseHeaderLine_eq_ok_iff {name : Bytes} (hcolon : 58 ∉ name) (raw : Bytes)
    (r : Range × Range) :
    parseHeaderLine (name ++ 58 :: raw) = .ok r ↔
      HeaderLine (name ++ 58 :: raw) name (trimBy isOws raw) ∧ r = headerRangesOf name raw := by
  have hfind : (name ++ 58 :: raw).findIdx? (· == 58) = some name.length :=
    findIdx?_append (fun b hb => beq_eq_false_iff_ne.mpr (ne_of_mem_of_not_mem hb hcolon))
      (by decide) raw
  have hdrop : (name ++ 58 :: raw).drop (name.length + 1) = raw := by
    rw [← List.drop_drop, List.drop_left]
    rfl
  simp only [parseHeaderLine, hfind, List.take_left, hdrop, slice_trimOwsRange]
  constructor
  · intro h
    split_ifs at h with hname hcontrol htext
    simp only [Bool.or_eq_true, not_or, Bool.not_eq_true, Bool.not_eq_false', List.isEmpty_eq_false_iff,
      fromUtf8IsErr_eq_false] at hname hcontrol htext
    refine ⟨⟨⟨raw, rfl, rfl⟩, hcolon, ⟨hname.1, List.all_eq_true.mp hname.2⟩, htext.2,
      (any_forbidden_htab_eq_false _).mp hcontrol⟩, (Except.ok.inj h).symm⟩
  · rintro ⟨h, rfl⟩
    have hname : ¬ (name.isEmpty || !name.all isTchar) = true := by
      simp [h.name_token.1, List.all_eq_true.mpr h.name_token.2]
    have hcontrol : ¬ (trimBy isOws raw).any (isForbiddenCtl · true) = true := by
      rw [Bool.not_eq_true]
      exact (any_forbidden_htab_eq_false _).mpr h.no_control
    have htext : ¬ (fromUtf8IsErr name || fromUtf8IsErr (trimBy isOws raw)) = true := by
      rw [(fromUtf8IsErr_eq_false _).mpr (isText_token h.name_token.2),
        (fromUtf8IsErr_eq_false _).mpr h.value_text]
      decide
    rw [if_neg hname, if_neg hcontrol, if_neg htext]
    rfl

theorem HeaderLine.isText {line name value : Bytes} (h : HeaderLine line name value) :
    IsText line := by
  obtain ⟨raw, rfl, rfl⟩ := h.layout
  obtain ⟨before, after, hraw, -, hbefore, hafter⟩ := trimOwsRange_eq raw
  have hvalue : IsText raw := by
    rw [hraw]
    exact ((isText_ows hbefore).append h.value_text).append (isText_ows hafter)
  exact (isText_token h.name_token.2).append (isText_cons (by decide) hvalue)

theorem headerRangesOf_cuts {name raw : Bytes}
    (h : HeaderLine (name ++ 58 :: raw) name (trimBy isOws raw)) :
    Cuts (name ++ 58 :: raw) (headerRangesOf name raw).1 name ∧
      Cuts (name ++ 58 :: raw) (headerRangesOf name raw).2 (trimBy isOws raw) ∧
      (headerRangesOf name raw).1.stop < (headerRangesOf name raw).2.start := by
  obtain ⟨before, after, hraw, hrange, hbefore, hafter⟩ := trimOwsRange_eq raw
  have hrest : IsText raw := by
    rw [hraw]
    exact ((isText_ows hbefore).append h.value_text).append (isText_ows hafter)
  refine ⟨⟨[], 58 :: raw, by simp, by simp [headerRangesOf], isText_token h.name_token.2,
    isText_cons (by decide) hrest⟩, ⟨name ++ 58 :: before, after, ?_, ?_, h.value_text,
    isText_ows hafter⟩, ?_⟩
  · conv_lhs => rw [hraw]
    simp
  · rw [headerRangesOf, hrange]
    simp only [Range.mk.injEq, List.length_append, List.length_cons]
    omega
  · rw [headerRangesOf, hrange]
    simp only
    omega

theorem parseHeaderLine_ok {line : Bytes} {r : Range × Range} (h : parseHeaderLine line = .ok r) :
    ∃ name raw, line = name ++ 58 :: raw ∧ HeaderLine line name (trimBy isOws raw) ∧
      r = headerRangesOf name raw := by
  by_cases hcolon : 58 ∈ line
  · obtain ⟨name, raw, rfl, hname⟩ := List.eq_append_cons_of_mem hcolon
    obtain ⟨hline, hr⟩ := (parseHeaderLine_eq_ok_iff hname raw r).mp h
    exact ⟨name, raw, rfl, hline, hr⟩
  · have hnone : line.findIdx? (· == 58) = none := by
      rw [List.findIdx?_eq_none_iff]
      exact fun b hb => beq_eq_false_iff_ne.mpr (ne_of_mem_of_not_mem hb hcolon)
    simp [parseHeaderLine, hnone] at h

theorem parseHeaderLine_cuts {line : Bytes} {r : Range × Range} (h : parseHeaderLine line = .ok r) :
    IsText line ∧ Cuts line r.1 (slice line r.1) ∧ Cuts line r.2 (slice line r.2) ∧
      r.1.stop < r.2.start := by
  obtain ⟨name, raw, rfl, hline, rfl⟩ := parseHeaderLine_ok h
  obtain ⟨hname, hvalue, hlt⟩ := headerRangesOf_cuts hline
  rw [hname.slice_eq, hvalue.slice_eq]
  exact ⟨hline.isText, hname, hvalue, hlt⟩

/-- A header line is what the parser accepts, with the parts that it finds. -/
theorem headerLine_iff (line name value : Bytes) :
    HeaderLine line name value ↔ ∃ r, parseHeaderLine line = .ok r ∧
      slice line r.1 = name ∧ slice line r.2 = value := by
  constructor
  · intro h
    obtain ⟨raw, rfl, rfl⟩ := h.layout
    obtain ⟨hname, hvalue, -⟩ := headerRangesOf_cuts h
    exact ⟨headerRangesOf name raw, (parseHeaderLine_eq_ok_iff h.first_colon raw _).mpr ⟨h, rfl⟩,
      hname.slice_eq, hvalue.slice_eq⟩
  · rintro ⟨r, hr, rfl, rfl⟩
    obtain ⟨name, raw, rfl, hline, rfl⟩ := parseHeaderLine_ok hr
    obtain ⟨hname, hvalue, -⟩ := headerRangesOf_cuts hline
    rw [hname.slice_eq, hvalue.slice_eq]
    exact hline

end HeaderLines

section RequestLines

theorem findIdx?_space {part : Bytes} (h : 32 ∉ part) (rest : Bytes) :
    (part ++ 32 :: rest).findIdx? (· == 32) = some part.length :=
  findIdx?_append (fun b hb => beq_eq_false_iff_ne.mpr (ne_of_mem_of_not_mem hb h)) (by decide) rest

theorem spSplitNext_cut {line part rest : Bytes} (before : Bytes) (start : ℕ)
    (hline : line = before ++ (part ++ 32 :: rest)) (hstart : start = before.length)
    (h : 32 ∉ part) :
    spSplitNext line (some start) = (some (start, part), some (start + part.length + 1)) := by
  subst hline hstart
  have hslice : slice (before ++ (part ++ 32 :: rest))
      ⟨before.length, before.length + part.length⟩ = part := by
    rw [slice, ← List.length_append, ← List.append_assoc, List.take_left, List.drop_left]
  rw [spSplitNext, List.drop_left, findIdx?_space h]
  simp only [hslice]

theorem spSplitNext_last {line part : Bytes} (before : Bytes) (start : ℕ)
    (hline : line = before ++ part) (hstart : start = before.length) (h : 32 ∉ part) :
    spSplitNext line (some start) = (some (start, part), none) := by
  subst hline hstart
  have hnone : part.findIdx? (· == 32) = none := by
    rw [List.findIdx?_eq_none_iff]
    exact fun b hb => beq_eq_false_iff_ne.mpr (ne_of_mem_of_not_mem hb h)
  simp only [spSplitNext, List.drop_left, hnone]

theorem spSplitNext_isSome (line : Bytes) (start : ℕ) :
    (spSplitNext line (some start)).1.isSome = true := by
  rw [spSplitNext]
  split <;> rfl

theorem parseVersion_eq_ok_iff (text : Bytes) (version : HttpVersion) :
    parseVersion text = .ok version ↔ text = versionText version := by
  unfold parseVersion
  constructor
  · intro h
    split_ifs at h with hprefix h11 h10
    · rw [Bool.not_eq_true, Bool.not_eq_false', List.isPrefixOf_iff_prefix] at hprefix
      obtain ⟨rest, rfl⟩ := hprefix
      have hrest : rest = ascii "1.1" := h11
      cases h
      rw [hrest]
      rfl
    · rw [Bool.not_eq_true, Bool.not_eq_false', List.isPrefixOf_iff_prefix] at hprefix
      obtain ⟨rest, rfl⟩ := hprefix
      have hrest : rest = ascii "1.0" := h10
      cases h
      rw [hrest]
      rfl
  · rintro rfl
    cases version <;> rfl

theorem space_not_mem_version (version : HttpVersion) : (32 : UInt8) ∉ versionText version := by
  cases version <;> decide

theorem RequestLine.parts {line method target : Bytes} {version : HttpVersion}
    (h : RequestLine line method target version) : 32 ∉ method ∧ 32 ∉ target := by
  have hcount := h.two_spaces
  rw [h.layout, List.count_append, List.count_cons_self, List.count_append, List.count_cons_self]
    at hcount
  rw [← List.count_eq_zero, ← List.count_eq_zero]
  omega

theorem parseRequestLine_eq_ok_iff {method target text : Bytes} (hm : 32 ∉ method)
    (ht : 32 ∉ target) (hv : 32 ∉ text) (r : Range × Range × HttpVersion) :
    parseRequestLine (method ++ 32 :: (target ++ 32 :: text)) = .ok r ↔
      ∃ version, text = versionText version ∧
        RequestLine (method ++ 32 :: (target ++ 32 :: text)) method target version ∧
        r = (⟨0, method.length⟩, ⟨method.length + 1, method.length + 1 + target.length⟩,
          version) := by
  have hfirst : spSplitNext (method ++ 32 :: (target ++ 32 :: text)) (some 0) =
      (some (0, method), some (0 + method.length + 1)) := spSplitNext_cut [] 0 rfl rfl hm
  have hsecond : spSplitNext (method ++ 32 :: (target ++ 32 :: text))
      (some (0 + method.length + 1)) =
      (some (0 + method.length + 1, target),
        some (0 + method.length + 1 + target.length + 1)) :=
    spSplitNext_cut (method ++ [32]) _ (List.append_cons method 32 _) (by simp) ht
  have hthird : spSplitNext (method ++ 32 :: (target ++ 32 :: text))
      (some (0 + method.length + 1 + target.length + 1)) =
      (some (0 + method.length + 1 + target.length + 1, text), none) :=
    spSplitNext_last (method ++ [32] ++ target ++ [32]) _ (by simp) (by simp; omega) hv
  generalize hline : method ++ 32 :: (target ++ 32 :: text) = line at hfirst hsecond hthird ⊢
  have hcount : line.count 32 = 2 := by
    rw [← hline, List.count_append, List.count_cons_self, List.count_append, List.count_cons_self,
      List.count_eq_zero.mpr hm, List.count_eq_zero.mpr ht, List.count_eq_zero.mpr hv]
  have hnone : spSplitNext line none = (none, none) := rfl
  have hkept : ∀ (start : ℕ) (part : Bytes), part ≠ [] →
      (some (start, part)).filter (fun part => !part.2.isEmpty) = some (start, part) :=
    fun start part h => by simp [h]
  simp only [parseRequestLine, hfirst, hsecond, hthird, hnone, Option.isSome_none,
    Bool.false_eq_true, ↓reduceIte]
  constructor
  · intro h
    split_ifs at h with hcontrol
    rw [Bool.not_eq_true, any_forbidden_eq_false] at hcontrol
    by_cases hmethod : method = []
    · simp [hmethod] at h
    by_cases htarget : target = []
    · simp [htarget] at h
    by_cases htext : text = []
    · simp [htext] at h
    simp only [hkept _ _ hmethod, hkept _ _ htarget, hkept _ _ htext] at h
    cases hversion : parseVersion text with
    | error e =>
      simp only [hversion] at h
      split_ifs at h
    | ok version =>
      simp only [hversion] at h
      split_ifs at h with htoken hempty hutf8
      rw [Bool.or_eq_true, not_or, Bool.not_eq_true, Bool.not_eq_true, fromUtf8IsErr_eq_false,
        fromUtf8IsErr_eq_false] at hutf8
      rw [Bool.not_eq_true, Bool.not_eq_false', List.all_eq_true] at htoken
      obtain rfl := (parseVersion_eq_ok_iff text version).mp hversion
      refine ⟨version, rfl, ⟨hline.symm, hcount, ⟨hmethod, htoken⟩, ⟨htarget, hutf8.2⟩, hcontrol⟩, ?_⟩
      rw [← Except.ok.inj h, Nat.zero_add]
  · rintro ⟨version, rfl, h, rfl⟩
    have hcontrol : ¬ (line.any (isForbiddenCtl · false)) = true := by
      rw [Bool.not_eq_true]
      exact (any_forbidden_eq_false line).mpr h.no_control
    have htext : versionText version ≠ [] := by cases version <;> decide
    have htoken : ¬ (!method.all isTchar) = true := by
      simp [List.all_eq_true.mpr h.method_token.2]
    have hutf8 : ¬ (fromUtf8IsErr method || fromUtf8IsErr target) = true := by
      rw [(fromUtf8IsErr_eq_false _).mpr (isText_token h.method_token.2),
        (fromUtf8IsErr_eq_false _).mpr h.target_text.2]
      decide
    simp only [hkept _ _ h.method_token.1, hkept _ _ h.target_text.1, hkept _ _ htext,
      (parseVersion_eq_ok_iff _ version).mpr rfl, hcontrol, htoken, hutf8, ↓reduceIte,
      List.isEmpty_iff, h.target_text.1, Nat.zero_add, Bool.false_eq_true]

theorem parseRequestLine_ok {line : Bytes} {r : Range × Range × HttpVersion}
    (h : parseRequestLine line = .ok r) :
    ∃ method target version, line = method ++ 32 :: (target ++ 32 :: versionText version) ∧
      RequestLine line method target version ∧
      r = (⟨0, method.length⟩, ⟨method.length + 1, method.length + 1 + target.length⟩,
        version) := by
  have hend : spSplitNext line none = (none, none) := rfl
  by_cases hone : 32 ∈ line
  · obtain ⟨method, rest, hline, hm⟩ := List.eq_append_cons_of_mem hone
    have hfirst := spSplitNext_cut [] 0 hline rfl hm
    by_cases htwo : 32 ∈ rest
    · obtain ⟨target, text, rfl, ht⟩ := List.eq_append_cons_of_mem htwo
      by_cases hthree : 32 ∈ text
      · -- the fourth part is what follows the third space
        obtain ⟨third, fourth, rfl, hthird⟩ := List.eq_append_cons_of_mem hthree
        have hsecond := spSplitNext_cut (method ++ [32]) (0 + method.length + 1)
          (hline.trans (List.append_cons method 32 _)) (by simp) ht
        have hnext := spSplitNext_cut (method ++ [32] ++ target ++ [32])
          (0 + method.length + 1 + target.length + 1) (by simpa using hline) (by simp; omega) hthird
        simp only [parseRequestLine, hfirst, hsecond, hnext, spSplitNext_isSome, ↓reduceIte,
          ite_self] at h
        cases h
      · rw [hline] at h ⊢
        obtain ⟨version, rfl, hparts, hr⟩ := (parseRequestLine_eq_ok_iff hm ht hthree r).mp h
        exact ⟨method, target, version, rfl, hparts, hr⟩
    · have hsecond := spSplitNext_last (method ++ [32]) (0 + method.length + 1)
        (hline.trans (List.append_cons method 32 _)) (by simp) htwo
      simp only [parseRequestLine, hfirst, hsecond, hend, Option.filter_none] at h
      split_ifs at h
      generalize (some (0, method)).filter (fun part => !part.2.isEmpty) = first at h
      generalize (some (0 + method.length + 1, rest)).filter (fun part => !part.2.isEmpty) =
        second at h
      cases first <;> cases second <;> cases h
  · have hfirst := spSplitNext_last [] 0 (List.nil_append line).symm rfl hone
    simp only [parseRequestLine, hfirst, hend, Option.filter_none] at h
    split_ifs at h
    generalize (some (0, line)).filter (fun part => !part.2.isEmpty) = first at h
    cases first <;> cases h

theorem isText_versionText (version : HttpVersion) : IsText (versionText version) := by
  cases version with
  | http10 => exact ⟨"HTTP/1.0".toList, rfl⟩
  | http11 => exact ⟨"HTTP/1.1".toList, rfl⟩

theorem RequestLine.isText {line method target : Bytes} {version : HttpVersion}
    (h : RequestLine line method target version) : IsText line := by
  have hversion := isText_versionText version
  rw [h.layout]
  exact (isText_token h.method_token.2).append
    (isText_cons (by decide) (h.target_text.2.append (isText_cons (by decide) hversion)))

theorem parseRequestLine_cuts {line : Bytes} {m t : Range} {version : HttpVersion}
    (h : parseRequestLine line = .ok (m, t, version)) :
    RequestLine line (slice line m) (slice line t) version ∧ Cuts line m (slice line m) ∧
      Cuts line t (slice line t) ∧ m.start = 0 ∧ m.stop < t.start := by
  obtain ⟨method, target, version, rfl, hline, hr⟩ := parseRequestLine_ok h
  cases hr
  have hversion := isText_versionText version
  have hrest : IsText (target ++ 32 :: versionText version) :=
    hline.target_text.2.append (isText_cons (by decide) hversion)
  have hmethod : Cuts (method ++ 32 :: (target ++ 32 :: versionText version)) ⟨0, method.length⟩
      method :=
    ⟨[], 32 :: (target ++ 32 :: versionText version), by simp, by simp,
      isText_token hline.method_token.2, isText_cons (by decide) hrest⟩
  have htarget : Cuts (method ++ 32 :: (target ++ 32 :: versionText version))
      ⟨method.length + 1, method.length + 1 + target.length⟩ target :=
    ⟨method ++ [32], 32 :: versionText version, by simp, by simp, hline.target_text.2,
      isText_cons (by decide) hversion⟩
  rw [hmethod.slice_eq, htarget.slice_eq]
  exact ⟨hline, hmethod, htarget, rfl, Nat.lt_succ_self _⟩

theorem requestLine_iff (line method target : Bytes) (version : HttpVersion) :
    RequestLine line method target version ↔ ∃ m t, parseRequestLine line = .ok (m, t, version) ∧
      slice line m = method ∧ slice line t = target := by
  constructor
  · intro h
    obtain ⟨hm, ht⟩ := h.parts
    have hparse : parseRequestLine line = .ok (⟨0, method.length⟩,
        ⟨method.length + 1, method.length + 1 + target.length⟩, version) := by
      have hiff := parseRequestLine_eq_ok_iff hm ht (space_not_mem_version version)
        (⟨0, method.length⟩, ⟨method.length + 1, method.length + 1 + target.length⟩, version)
      rw [← h.layout] at hiff
      exact hiff.mpr ⟨version, rfl, h, rfl⟩
    refine ⟨_, _, hparse, ?_, ?_⟩
    · rw [h.layout, slice, List.take_left, List.drop_zero]
    · rw [h.layout, slice, List.append_cons, ← List.append_assoc]
      rw [show method.length + 1 + target.length = (method ++ [32] ++ target).length by
          simp [Nat.add_assoc, Nat.add_comm 1],
        List.take_left, show method.length + 1 = (method ++ [32]).length by simp, List.drop_left]
  · rintro ⟨m, t, hparse, rfl, rfl⟩
    exact (parseRequestLine_cuts hparse).1

end RequestLines

section Lines

def lineRanges : ℕ → List Bytes → List Range
  | _, [] => []
  | start, line :: lines =>
    ⟨start, start + line.length⟩ :: lineRanges (start + line.length + 2) lines

theorem crlfSplitFrom_eq {text : Bytes} {fuel start : ℕ} (hstart : start ≤ text.length)
    (hfuel : text.length - start ≤ fuel) :
    crlfSplitFrom text (fuel + 1) (some start) =
      lineRanges start (splitLoop crlf fuel (text.drop start)) := by
  have hfind : findSubslice (text.drop start) crlf = findFirst crlf (text.drop start) :=
    findSubslice_eq (by decide)
  have hlast : start + (text.drop start).length = text.length := by
    rw [List.length_drop]
    omega
  induction fuel generalizing start with
  | zero =>
    have hnil : text.drop start = [] := List.drop_eq_nil_of_le (by omega)
    have hnone : findSubslice ([] : Bytes) crlf = none := rfl
    rw [hnil, List.length_nil] at hlast
    rw [crlfSplitFrom, crlfSplitNext, hnil, hnone, ← hlast]
    rfl
  | succ fuel ih =>
    rw [crlfSplitFrom, crlfSplitNext, hfind, splitLoop]
    cases hfirst : findFirst crlf (text.drop start) with
    | none => simp only [crlfSplitFrom, lineRanges, hlast]
    | some i =>
      have hlength := findFirst_length_le hfirst
      rw [List.length_drop, show crlf.length = 2 from rfl] at hlength
      have hnext : start + i + 2 ≤ text.length := by omega
      have hline : ((text.drop start).take i).length = i := by
        rw [List.length_take, List.length_drop]
        omega
      simp only [lineRanges, hline]
      rw [ih hnext (by omega) (findSubslice_eq (by decide)) (by rw [List.length_drop]; omega),
        List.drop_drop]
      rfl

theorem splitByCrlf_eq (text : Bytes) : splitByCrlf text = lineRanges 0 (split crlf text) := by
  rw [splitByCrlf, crlfSplitFrom_eq (Nat.zero_le _) (by omega), List.drop_zero]
  rfl

theorem slice_line (before line after : Bytes) :
    slice (before ++ line ++ after) ⟨before.length, before.length + line.length⟩ = line := by
  rw [slice, ← List.length_append, List.take_left, List.drop_left]

def Parsed (text : Bytes) (range : Range) (stored : Range × Range) : Prop :=
  ∃ r, parseHeaderLine (slice text range) = .ok r ∧
    stored = (shiftRange r.1 range.start, shiftRange r.2 range.start)

theorem parseHeaderLines_eq_ok_iff (text : Bytes) {lines : List Range}
    {acc : List (Range × Range)} (hacc : acc.length ≤ maxHeaderCount)
    (headers : List (Range × Range)) :
    parseHeaderLines text lines acc = .ok headers ↔
      ∃ tail, headers = acc ++ tail ∧ acc.length + lines.length ≤ maxHeaderCount ∧
        List.Forall₂ (Parsed text) lines tail := by
  induction lines generalizing acc with
  | nil =>
    rw [parseHeaderLines, Except.ok.injEq]
    constructor
    · rintro rfl
      exact ⟨[], by simp, by simpa using hacc, .nil⟩
    · rintro ⟨tail, rfl, -, htail⟩
      cases htail
      simp
  | cons line lines ih =>
    rw [parseHeaderLines]
    by_cases hfull : acc.length ≥ maxHeaderCount
    · rw [if_pos hfull]
      constructor
      · rintro ⟨⟩
      · rintro ⟨tail, -, hlength, -⟩
        rw [List.length_cons] at hlength
        omega
    · rw [if_neg hfull]
      cases hparse : parseHeaderLine (slice text line) with
      | error e =>
        constructor
        · rintro ⟨⟩
        · rintro ⟨tail, -, -, htail⟩
          cases htail with
          | cons hfirst _ =>
            obtain ⟨r, hr, -⟩ := hfirst
            rw [hparse] at hr
            cases hr
      | ok r =>
        have hacc' : (acc ++ [(shiftRange r.1 line.start, shiftRange r.2 line.start)]).length ≤
            maxHeaderCount := by
          rw [List.length_append, List.length_singleton]
          omega
        have hlength : (acc ++ [(shiftRange r.1 line.start, shiftRange r.2 line.start)]).length +
            lines.length = acc.length + (line :: lines).length := by
          rw [List.length_append, List.length_singleton, List.length_cons]
          omega
        simp only [ih hacc', hlength]
        constructor
        · rintro ⟨tail, rfl, hcount, htail⟩
          exact ⟨_ :: tail, by simp, hcount, .cons ⟨r, hparse, rfl⟩ htail⟩
        · rintro ⟨tail, rfl, hcount, htail⟩
          cases htail with
          | cons hfirst hrest =>
            obtain ⟨r', hr', rfl⟩ := hfirst
            rw [hparse] at hr'
            cases hr'
            exact ⟨_, by simp, hcount, hrest⟩

end Lines

section Section

/-- Ranges that follow each other, with something between any two. -/
def Ordered : ℕ → List Range → Prop
  | _, [] => True
  | low, r :: rs => low ≤ r.start ∧ r.start ≤ r.stop ∧ Ordered (r.stop + 1) rs

theorem Ordered.mono {low low' : ℕ} {rs : List Range} (h : Ordered low rs) (hle : low' ≤ low) :
    Ordered low' rs := by
  cases rs with
  | nil => trivial
  | cons r rs => exact ⟨hle.trans h.1, h.2⟩

theorem Ordered.start_le {low : ℕ} {rs : List Range} (h : Ordered low rs) :
    ∀ r ∈ rs, low ≤ r.start := by
  induction rs generalizing low with
  | nil => simp
  | cons r rs ih =>
    obtain ⟨hlow, hle, hrest⟩ := h
    rw [List.forall_mem_cons]
    exact ⟨hlow, ih (hrest.mono (by omega))⟩

theorem Ordered.pairwise {low : ℕ} {rs : List Range} (h : Ordered low rs) :
    rs.Pairwise fun a b => a.stop < b.start := by
  induction rs generalizing low with
  | nil => exact List.Pairwise.nil
  | cons r rs ih =>
    obtain ⟨-, -, hrest⟩ := h
    exact List.pairwise_cons.mpr ⟨fun b hb => hrest.start_le b hb, ih hrest⟩

def storedRanges (stored : List (Range × Range)) : List Range :=
  stored.flatMap fun r => [r.1, r.2]

def storedValues (text : Bytes) (stored : List (Range × Range)) : List (Bytes × Bytes) :=
  stored.map fun r => (slice text r.1, slice text r.2)

theorem stored_slices {text line : Bytes} {range : Range} (hline : slice text range = line)
    {r : Range × Range} (hr : parseHeaderLine line = .ok r) :
    slice text (shiftRange r.1 range.start) = slice line r.1 ∧
      slice text (shiftRange r.2 range.start) = slice line r.2 := by
  obtain ⟨-, hname, hvalue, -⟩ := parseHeaderLine_cuts hr
  subst hline
  exact ⟨slice_shiftRange text range r.1 hname.safe.2.1,
    slice_shiftRange text range r.2 hvalue.safe.2.1⟩

theorem slice_nextLine (before line rest : Bytes) :
    slice (before ++ (crlf ++ line ++ rest)) ⟨before.length + 2, before.length + 2 + line.length⟩ =
      line := by
  have h := slice_line (before ++ crlf) line rest
  rw [List.length_append, show crlf.length = 2 from rfl] at h
  simpa only [List.append_assoc] using h

theorem headerLines_iff (before : Bytes) (lines : List Bytes) (values : List (Bytes × Bytes)) :
    List.Forall₂ (fun line h => HeaderLine line h.1 h.2) lines values ↔
      ∃ stored, List.Forall₂ (Parsed (before ++ lines.flatMap (crlf ++ ·)))
          (lineRanges (before.length + 2) lines) stored ∧
        values = storedValues (before ++ lines.flatMap (crlf ++ ·)) stored := by
  induction lines generalizing before values with
  | nil =>
    constructor
    · rintro ⟨⟩
      exact ⟨[], .nil, rfl⟩
    · rintro ⟨stored, ⟨⟩, rfl⟩
      exact .nil
  | cons line lines ih =>
    have hslice := slice_nextLine before line (lines.flatMap (crlf ++ ·))
    have ih := ih (before ++ (crlf ++ line))
    rw [List.append_assoc, List.length_append, List.length_append, show crlf.length = 2 from rfl,
      ← Nat.add_assoc] at ih
    rw [List.flatMap_cons, lineRanges]
    generalize before ++ (crlf ++ line ++ lines.flatMap (crlf ++ ·)) = text at hslice ih ⊢
    constructor
    · rintro (_ | ⟨hfirst, hrest⟩)
      obtain ⟨r, hr, hname, hvalue⟩ := (headerLine_iff line _ _).mp hfirst
      obtain ⟨hname', hvalue'⟩ := stored_slices hslice hr
      obtain ⟨stored, hstored, rfl⟩ := (ih _).mp hrest
      refine ⟨_ :: stored, .cons ⟨r, by rw [hslice]; exact hr, rfl⟩ hstored, ?_⟩
      exact congrArg (· :: storedValues text stored)
        (Prod.ext (hname'.trans hname).symm (hvalue'.trans hvalue).symm)
    · rintro ⟨stored, hstored, rfl⟩
      cases hstored with
      | cons hfirst hrest =>
        obtain ⟨r, hr, rfl⟩ := hfirst
        rw [hslice] at hr
        obtain ⟨hname', hvalue'⟩ := stored_slices hslice hr
        refine .cons ?_ ((ih _).mpr ⟨_, hrest, rfl⟩)
        exact (headerLine_iff line _ _).mpr ⟨r, hr, hname'.symm, hvalue'.symm⟩

theorem headerLines_safe (before : Bytes) (lines : List Bytes) {stored : List (Range × Range)}
    (h : List.Forall₂ (Parsed (before ++ lines.flatMap (crlf ++ ·)))
      (lineRanges (before.length + 2) lines) stored) :
    IsText (lines.flatMap (crlf ++ ·)) ∧
      (∀ r ∈ storedRanges stored, ∃ piece, Cuts (before ++ lines.flatMap (crlf ++ ·)) r piece) ∧
      Ordered (before.length + 2) (storedRanges stored) := by
  induction lines generalizing before stored with
  | nil =>
    cases h
    exact ⟨isText_nil, by simp [storedRanges], trivial⟩
  | cons line lines ih =>
    have hslice := slice_nextLine before line (lines.flatMap (crlf ++ ·))
    have ih := @ih (before ++ (crlf ++ line))
    rw [List.append_assoc, List.length_append, List.length_append, show crlf.length = 2 from rfl,
      ← Nat.add_assoc] at ih
    rw [List.flatMap_cons, lineRanges] at h
    rw [List.flatMap_cons]
    cases h with
    | cons hfirst hrest =>
      obtain ⟨r, hr, rfl⟩ := hfirst
      rw [hslice] at hr
      obtain ⟨hline, hname, hvalue, hlt⟩ := parseHeaderLine_cuts hr
      obtain ⟨htext, hcuts, hordered⟩ := ih hrest
      have hcrlf : IsText crlf := isText_of_ascii (by simp [crlf, cr, lf])
      have hshift : ∀ {range piece}, Cuts line range piece →
          Cuts (before ++ (crlf ++ line ++ lines.flatMap (crlf ++ ·)))
            (shiftRange range (before.length + 2)) piece := by
        intro range piece hcut
        have h := hcut.shift (before ++ crlf) htext
        rw [List.length_append, show crlf.length = 2 from rfl] at h
        simpa only [List.append_assoc] using h
      refine ⟨(hcrlf.append hline).append htext, ?_, ?_⟩
      · intro range hrange
        rw [storedRanges, List.flatMap_cons] at hrange
        rcases List.mem_append.mp hrange with hrange | hrange
        · simp only [List.mem_cons, List.not_mem_nil, or_false] at hrange
          rcases hrange with rfl | rfl
          · exact ⟨_, hshift hname⟩
          · exact ⟨_, hshift hvalue⟩
        · exact hcuts range hrange
      · have hname' := hname.safe
        have hvalue' := hvalue.safe
        refine ⟨?_, ?_, ?_, ?_, hordered.mono ?_⟩ <;> simp only [shiftRange] <;> omega

end Section

section Heads
variable {TypeId : Type} {E : TypeId → Type}

/-- A head section: a request line, and at most a hundred header lines. -/
def HeadSection (text method target : Bytes) (version : HttpVersion)
    (headers : List (Bytes × Bytes)) : Prop :=
  ∃ requestLine lines, split crlf text = requestLine :: lines ∧
    RequestLine requestLine method target version ∧ lines.length ≤ maxHeaderCount ∧
    List.Forall₂ (fun line h => HeaderLine line h.1 h.2) lines headers

theorem split_crlf (text : Bytes) : ∃ requestLine lines, split crlf text = requestLine :: lines ∧
    text = requestLine ++ lines.flatMap (crlf ++ ·) :=
  splitLoop_eq crlf text.length text

theorem slice_firstLine (line rest : Bytes) : slice (line ++ rest) ⟨0, line.length⟩ = line := by
  rw [slice, List.take_left, List.drop_zero]

theorem shiftRange_zero (r : Range) : shiftRange r 0 = r := rfl

theorem lineRanges_length (start : ℕ) (lines : List Bytes) :
    (lineRanges start lines).length = lines.length := by
  induction lines generalizing start with
  | nil => rfl
  | cons line lines ih => rw [lineRanges, List.length_cons, List.length_cons, ih]

theorem section_isText {requestLine : Bytes} {lines : List Bytes} {m t : Range}
    {version : HttpVersion} {stored : List (Range × Range)}
    (hline : parseRequestLine requestLine = .ok (m, t, version))
    (hstored : List.Forall₂ (Parsed (requestLine ++ lines.flatMap (crlf ++ ·)))
      (lineRanges (requestLine.length + 2) lines) stored) :
    IsText (requestLine ++ lines.flatMap (crlf ++ ·)) :=
  (parseRequestLine_cuts hline).1.isText.append (headerLines_safe requestLine lines hstored).1

theorem parseHeaderSection_eq_ok_iff {text requestLine : Bytes} {lines : List Bytes}
    (hsplit : split crlf text = requestLine :: lines)
    (htext : text = requestLine ++ lines.flatMap (crlf ++ ·)) (head : RequestHead E) :
    parseHeaderSection text = .ok head ↔
      ∃ m t version stored, parseRequestLine requestLine = .ok (m, t, version) ∧
        lines.length ≤ maxHeaderCount ∧
        List.Forall₂ (Parsed text) (lineRanges (requestLine.length + 2) lines) stored ∧
        head = ⟨text, m, t, version, stored, .new⟩ := by
  have hranges : splitByCrlf text =
      ⟨0, requestLine.length⟩ :: lineRanges (requestLine.length + 2) lines := by
    rw [splitByCrlf_eq, hsplit, lineRanges, Nat.zero_add]
  have hfirst : slice text ⟨0, requestLine.length⟩ = requestLine := by
    rw [htext]
    exact slice_firstLine _ _
  have hloop := @parseHeaderLines_eq_ok_iff text (lineRanges (requestLine.length + 2) lines) []
    (Nat.zero_le _)
  simp only [List.nil_append, List.length_nil, Nat.zero_add, lineRanges_length, exists_eq_left']
    at hloop
  rw [parseHeaderSection, hranges]
  simp only [hfirst, shiftRange_zero]
  cases hline : parseRequestLine requestLine with
  | error e => simp
  | ok r =>
    obtain ⟨m, t, version⟩ := r
    simp only
    cases hparse : parseHeaderLines text (lineRanges (requestLine.length + 2) lines) [] with
    | error e =>
      constructor
      · rintro ⟨⟩
      · rintro ⟨_, _, _, stored, -, hcount, hstored, -⟩
        rw [(hloop stored).mpr ⟨hcount, hstored⟩] at hparse
        cases hparse
    | ok stored =>
      obtain ⟨hcount, hstored⟩ := (hloop stored).mp hparse
      have hutf8 : fromUtf8IsErr text = false := by
        rw [fromUtf8IsErr_eq_false, htext]
        exact section_isText hline (htext ▸ hstored)
      simp only [hutf8, Bool.false_eq_true, ↓reduceIte, Except.ok.injEq]
      constructor
      · rintro rfl
        exact ⟨m, t, version, stored, rfl, hcount, hstored, rfl⟩
      · rintro ⟨_, _, _, stored', hsame, -, hstored', rfl⟩
        cases hsame
        have hsame : Except.ok stored' = Except.ok stored :=
          ((hloop stored').mpr ⟨hcount, hstored'⟩).symm.trans hparse
        cases hsame
        rfl

/-- A section is parsed when the grammar derives it, into the parts of the derivation. -/
theorem parseHeaderSection_iff (text method target : Bytes) (version : HttpVersion)
    (headers : List (Bytes × Bytes)) :
    (∃ head : RequestHead E, parseHeaderSection text = .ok head ∧ head.method = method ∧
        head.target = target ∧ head.version = version ∧ head.headers = headers) ↔
      HeadSection text method target version headers := by
  obtain ⟨requestLine, lines, hsplit, htext⟩ := split_crlf text
  have hheaders := headerLines_iff requestLine lines headers
  rw [← htext] at hheaders
  have hfront : ∀ {r : Range}, r.stop ≤ requestLine.length → slice text r = slice requestLine r := by
    intro r hr
    rw [slice, htext, List.take_append_of_le_length hr, slice]
  constructor
  · rintro ⟨head, hparse, rfl, rfl, rfl, rfl⟩
    obtain ⟨m, t, version, stored, hline, hcount, hstored, rfl⟩ :=
      (parseHeaderSection_eq_ok_iff hsplit htext head).mp hparse
    obtain ⟨-, hm, ht, -, -⟩ := parseRequestLine_cuts hline
    refine ⟨requestLine, lines, hsplit, ?_, hcount, hheaders.mpr ⟨stored, hstored, rfl⟩⟩
    exact (requestLine_iff requestLine _ _ version).mpr
      ⟨m, t, hline, (hfront hm.safe.2.1).symm, (hfront ht.safe.2.1).symm⟩
  · rintro ⟨requestLine', lines', hsplit', hline, hcount, hlines⟩
    obtain ⟨rfl, rfl⟩ := List.cons.inj (hsplit.symm.trans hsplit')
    obtain ⟨m, t, hparse, rfl, rfl⟩ := (requestLine_iff requestLine _ _ version).mp hline
    obtain ⟨-, hm, ht, -, -⟩ := parseRequestLine_cuts hparse
    obtain ⟨stored, hstored, rfl⟩ := hheaders.mp hlines
    refine ⟨⟨text, m, t, version, stored, .new⟩, ?_, hfront hm.safe.2.1, hfront ht.safe.2.1, rfl,
      rfl⟩
    exact (parseHeaderSection_eq_ok_iff hsplit htext _).mpr
      ⟨m, t, version, stored, hparse, hcount, hstored, rfl⟩

def FirstTerminator (buf : Bytes) (pos : ℕ) : Prop :=
  terminator <+: buf.drop pos ∧ ∀ i < pos, ¬ terminator <+: buf.drop i

theorem firstTerminator_iff (buf : Bytes) (pos : ℕ) :
    FirstTerminator buf pos ↔ findFirst terminator buf = some pos := by
  rw [findFirst_eq_some_iff]
  constructor
  · rintro ⟨hhere, hbefore⟩
    have hlength := hhere.length_le
    rw [List.length_drop, show terminator.length = 4 from rfl] at hlength
    exact ⟨hhere, by omega, hbefore⟩
  · rintro ⟨hhere, -, hbefore⟩
    exact ⟨hhere, hbefore⟩

theorem not_infix_iff (buf : Bytes) :
    ¬ terminator <:+: buf ↔ findFirst terminator buf = none := by
  rw [findFirst_eq_none_iff, ← not_exists, not_iff_not]
  constructor
  · rintro ⟨before, after, rfl⟩
    refine ⟨before.length, after, ?_⟩
    rw [List.append_assoc, List.drop_left]
  · rintro ⟨pos, hpos⟩
    exact hpos.isInfix.trans (List.drop_suffix pos buf).isInfix

/-- The parser accepts its grammar and nothing else. -/
theorem parseRequestHead_grammar (buf : Bytes) :
    (∀ (consumed : ℕ) (method target : Bytes) (version : HttpVersion)
        (headers : List (Bytes × Bytes)),
      (∃ head : RequestHead E, parseRequestHead buf = .ok (.complete head consumed) ∧
          head.method = method ∧ head.target = target ∧ head.version = version ∧
          head.headers = headers) ↔
        ∃ pos, FirstTerminator buf pos ∧ consumed = pos + 4 ∧ consumed ≤ maxHeaderBytes ∧
          HeadSection (buf.take pos) method target version headers) ∧
    (parseRequestHead buf = .ok (.incomplete : ParseOutcome E) ↔
      ¬ terminator <:+: buf ∧ buf.length < maxHeaderBytes) := by
  refine ⟨fun consumed method target version headers => ?_, ?_⟩
  · simp only [← parseHeaderSection_iff (E := E), firstTerminator_iff]
    constructor
    · rintro ⟨head, hparse, hparts⟩
      obtain ⟨pos, hpos, hconsumed, hmax, hsection⟩ := parseRequestHead_complete hparse
      exact ⟨pos, hpos, hconsumed, hmax, head, hsection, hparts⟩
    · rintro ⟨pos, hpos, rfl, hmax, head, hsection, hparts⟩
      have hfits : ¬ pos + terminator.length > maxHeaderBytes := Nat.not_lt.mpr hmax
      refine ⟨head, ?_, hparts⟩
      simp only [parseRequestHead, findSubslice_terminator, hpos, hfits, ↓reduceIte, hsection]
      rfl
  · rw [not_infix_iff]
    constructor
    · exact parseRequestHead_incomplete_length
    · rintro ⟨hnone, hshort⟩
      simp only [parseRequestHead, findSubslice_terminator, hnone, if_neg (Nat.not_le.mpr hshort)]

end Heads

end FandheBackend.HttpRequestGrammar
