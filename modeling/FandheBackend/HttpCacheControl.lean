import FandheBackend.HttpResponseBuilder
import FandheBackend.SeparatedList

set_option autoImplicit false

namespace FandheBackend.HttpCacheControl
open StdBytes HttpRequestHead HttpResponse Utf8Text SeparatedList

section Grammar

def isQdtext (b : UInt8) : Bool :=
  b == 9 || b == 32 || b == 33 || (35 ≤ b && b ≤ 91) || (93 ≤ b && b ≤ 126) || 128 ≤ b

def isQuotedPairByte (b : UInt8) : Bool := b == 9 || (32 ≤ b && b ≤ 126) || 128 ≤ b

inductive QuotedBody : Bytes → Prop
  | nil : QuotedBody []
  | qdtext {b : UInt8} {rest : Bytes} : isQdtext b = true → QuotedBody rest → QuotedBody (b :: rest)
  | quotedPair {b : UInt8} {rest : Bytes} : isQuotedPairByte b = true → QuotedBody rest →
      QuotedBody (92 :: b :: rest)

inductive Argument : Bytes → Prop
  | token {text : Bytes} : isToken text = true → Argument text
  | quoted {body : Bytes} : QuotedBody body → Argument (34 :: (body ++ [34]))

structure Directive where
  name : Bytes
  argument : Option Bytes

def Directive.text (d : Directive) : Bytes :=
  match d.argument with
  | some argument => d.name ++ 61 :: argument
  | none => d.name

def DirectiveText (d : Directive) (text : Bytes) : Prop :=
  isToken d.name = true ∧ (∀ argument ∈ d.argument, Argument argument) ∧ text = d.text

abbrev CacheControl : List Directive → Bytes → Prop := Separated isOws DirectiveText 44

end Grammar

section Scanner

/-- The segments that the scanner compares, from within one that was begun. -/
def segmentsFrom : Bool → Bool → Bytes → Bytes → List Bytes
  | _, _, seg, [] => [seg]
  | inQuote, escaped, seg, c :: rest =>
    if escaped then segmentsFrom inQuote false (seg ++ [c]) rest
    else if inQuote && c == 92 then segmentsFrom inQuote true (seg ++ [c]) rest
    else if c == 34 then segmentsFrom (!inQuote) escaped (seg ++ [c]) rest
    else if c == 44 && !inQuote then seg :: segmentsFrom inQuote escaped [] rest
    else segmentsFrom inQuote escaped (seg ++ [c]) rest

theorem hasDirectiveLoop_eq_any (name : Bytes) (inQuote escaped : Bool) (seg value : Bytes) :
    hasDirectiveLoop name inQuote escaped seg value =
      (segmentsFrom inQuote escaped seg value).any (isDirective name) := by
  induction value generalizing inQuote escaped seg with
  | nil => simp [hasDirectiveLoop, segmentsFrom]
  | cons c rest ih =>
    rw [hasDirectiveLoop, segmentsFrom]
    simp only [ih]
    split_ifs <;> rfl

def ReadOver (text : Bytes) : Prop := ∀ seg rest,
  segmentsFrom false false seg (text ++ rest) = segmentsFrom false false (seg ++ text) rest

theorem ReadOver.append {xs ys : Bytes} (hxs : ReadOver xs) (hys : ReadOver ys) :
    ReadOver (xs ++ ys) := by
  intro seg rest
  rw [List.append_assoc, hxs, hys, List.append_assoc]

theorem readOver_plain {text : Bytes} (h : ∀ b ∈ text, b ≠ 34 ∧ b ≠ 44) : ReadOver text := by
  induction text with
  | nil =>
    intro seg rest
    rw [List.append_nil]
    rfl
  | cons b text ih =>
    rw [List.forall_mem_cons] at h
    intro seg rest
    have hquote : (b == 34) = false := beq_eq_false_iff_ne.mpr h.1.1
    have hcomma : (b == 44) = false := beq_eq_false_iff_ne.mpr h.1.2
    rw [List.cons_append, segmentsFrom]
    simp only [Bool.false_eq_true, if_false, Bool.false_and, hquote, hcomma]
    rw [ih h.2, List.append_assoc, List.singleton_append]

theorem qdtext_byte {b : UInt8} (h : isQdtext b = true) : b ≠ 34 ∧ b ≠ 92 := by
  revert b
  apply forall_byte
  decide +kernel

/-- From within a quoted string to its end: an escaped quote does not end it. -/
theorem loop_quoted {body : Bytes} (h : QuotedBody body) (seg rest : Bytes) :
    segmentsFrom true false seg (body ++ 34 :: rest) =
      segmentsFrom false false (seg ++ body ++ [34]) rest := by
  induction h generalizing seg with
  | nil =>
    rw [List.nil_append, List.append_nil, segmentsFrom]
    rfl
  | @qdtext b body hb _ ih =>
    obtain ⟨hquote, hescape⟩ := qdtext_byte hb
    have hquote : (b == 34) = false := beq_eq_false_iff_ne.mpr hquote
    have hescape : (b == 92) = false := beq_eq_false_iff_ne.mpr hescape
    rw [List.cons_append, segmentsFrom]
    simp only [Bool.false_eq_true, if_false, Bool.and_false, hquote, hescape, Bool.not_true]
    rw [ih, List.append_assoc seg, List.singleton_append]
  | @quotedPair b body _ _ ih =>
    rw [List.cons_append, List.cons_append, segmentsFrom]
    simp only [Bool.false_eq_true, if_false, if_true, Bool.true_and, beq_self_eq_true]
    rw [segmentsFrom, if_pos rfl, ih, List.append_assoc seg, List.append_assoc seg]
    rfl

theorem readOver_quoted {body : Bytes} (h : QuotedBody body) :
    ReadOver (34 :: (body ++ [34])) := by
  intro seg rest
  have hopen : segmentsFrom false false seg (34 :: (body ++ 34 :: rest)) =
      segmentsFrom true false (seg ++ [34]) (body ++ 34 :: rest) := by
    rw [segmentsFrom]
    rfl
  rw [List.cons_append, List.append_assoc, List.singleton_append, hopen, loop_quoted h]
  simp

theorem token_plain {text : Bytes} (h : isToken text = true) :
    text ≠ [] ∧ ∀ b ∈ text, b ≠ 34 ∧ b ≠ 44 ∧ b ≠ 61 ∧ isOws b = false := by
  have hbyte : ∀ b : UInt8, isTchar b = true → b ≠ 34 ∧ b ≠ 44 ∧ b ≠ 61 ∧ isOws b = false := by
    apply forall_byte
    decide +kernel
  rw [isToken, Bool.and_eq_true, Bool.not_eq_true', List.isEmpty_eq_false_iff, List.all_eq_true] at h
  exact ⟨h.1, fun b hb => hbyte b (h.2 b hb)⟩

theorem readOver_token {text : Bytes} (h : isToken text = true) : ReadOver text :=
  readOver_plain fun b hb => ⟨((token_plain h).2 b hb).1, ((token_plain h).2 b hb).2.1⟩

theorem readOver_ows {ws : Bytes} (h : ∀ b ∈ ws, isOws b = true) : ReadOver ws := by
  have hbyte : ∀ b : UInt8, isOws b = true → b ≠ 34 ∧ b ≠ 44 := by
    apply forall_byte
    decide +kernel
  exact readOver_plain fun b hb => hbyte b (h b hb)

theorem readOver_directive {d : Directive} {text : Bytes} (h : DirectiveText d text) :
    ReadOver text := by
  obtain ⟨hname, hargument, rfl⟩ := h
  unfold Directive.text
  cases harg : d.argument with
  | none => exact readOver_token hname
  | some argument =>
    have hequals : ReadOver [61] := readOver_plain (by simp)
    have hread : ReadOver argument := by
      cases hargument argument harg with
      | token htoken => exact readOver_token htoken
      | quoted hbody => exact readOver_quoted hbody
    exact (readOver_token hname).append (hequals.append hread)

theorem readOver_element {ds : List Directive} {text : Bytes}
    (h : Element isOws DirectiveText ds text) : ReadOver text := by
  cases h with
  | absent hws => exact readOver_ows hws
  | present hd hpre hpost =>
    exact ((readOver_ows hpre).append (readOver_directive hd)).append (readOver_ows hpost)

theorem takeWhile_stop {xs : Bytes} (h : ∀ b ∈ xs, b ≠ 61) (ys : Bytes) :
    (xs ++ 61 :: ys).takeWhile (· != 61) = xs := by
  rw [List.takeWhile_append_of_pos fun b hb => bne_iff_ne.mpr (h b hb)]
  exact List.append_nil xs

theorem takeWhile_all {xs : Bytes} (h : ∀ b ∈ xs, b ≠ 61) : xs.takeWhile (· != 61) = xs :=
  List.takeWhile_eq_self_iff.mpr fun b hb => bne_iff_ne.mpr (h b hb)

theorem ows_ne_equals {ws : Bytes} (h : ∀ b ∈ ws, isOws b = true) : ∀ b ∈ ws, b ≠ 61 := by
  rintro b hb rfl
  exact absurd (h 61 hb) (by decide)

def segmentName (seg : Bytes) : Bytes := trimBy isOws (seg.takeWhile (· != 61))

theorem segmentName_element {ds : List Directive} {text : Bytes}
    (h : Element isOws DirectiveText ds text) :
    [segmentName text].filter (fun n => !n.isEmpty) = ds.map Directive.name := by
  cases h with
  | absent hws =>
    rw [segmentName, takeWhile_all (ows_ne_equals hws), trimBy_padding hws]
    rfl
  | @present d text pre post hd hpre hpost =>
    obtain ⟨htoken, -, rfl⟩ := hd
    obtain ⟨hne, hplain⟩ := token_plain htoken
    have hequals : ∀ b ∈ pre ++ d.name, b ≠ 61 := by
      intro b hb
      rcases List.mem_append.mp hb with hb | hb
      · exact ows_ne_equals hpre b hb
      · exact (hplain b hb).2.2.1
    have htrim : ∀ ws : Bytes, (∀ b ∈ ws, isOws b = true) →
        trimBy isOws (pre ++ d.name ++ ws) = d.name := fun ws hws =>
      trimBy_append isOws hpre hws hne (fun b hb => (hplain b (List.mem_of_mem_head? hb)).2.2.2)
        (fun b hb => (hplain b (List.mem_of_getLast? hb)).2.2.2)
    have hname : segmentName (pre ++ d.text ++ post) = d.name := by
      rw [segmentName, Directive.text]
      cases d.argument with
      | none =>
        have hall : ∀ b ∈ pre ++ d.name ++ post, b ≠ 61 := by
          intro b hb
          rcases List.mem_append.mp hb with hb | hb
          · exact hequals b hb
          · exact ows_ne_equals hpost b hb
        simp only
        rw [takeWhile_all hall, htrim post hpost]
      | some argument =>
        have hstop := takeWhile_stop hequals (argument ++ post)
        have htrim := htrim [] (by simp)
        rw [List.append_nil] at htrim
        simp only
        rw [show pre ++ (d.name ++ 61 :: argument) ++ post =
          pre ++ d.name ++ 61 :: (argument ++ post) by simp, hstop, htrim]
    rw [hname, List.filter_cons_of_pos (by simp [hne])]
    rfl

def directiveNames (value : Bytes) : List Bytes :=
  ((segmentsFrom false false [] value).map segmentName).filter fun n => !n.isEmpty

theorem directiveNames_eq {ds : List Directive} {value : Bytes} (h : CacheControl ds value) :
    directiveNames value = ds.map Directive.name := by
  unfold directiveNames
  induction h with
  | @last ds text helement =>
    have hread := readOver_element helement [] []
    rw [List.append_nil, List.nil_append] at hread
    rw [hread, segmentsFrom, List.map_singleton, segmentName_element helement]
  | @cons ds es text rest helement _ ih =>
    rw [readOver_element helement, List.nil_append, segmentsFrom]
    simp only [Bool.false_eq_true, if_false, Bool.false_and, show ((44 : UInt8) == 34) = false from rfl,
      beq_self_eq_true, Bool.not_false, Bool.and_self, if_true]
    rw [List.map_cons, ← List.singleton_append, List.filter_append, segmentName_element helement, ih,
      List.map_append]

theorem hasDirective_eq_any (value : Bytes) {name : Bytes} (hname : name ≠ []) :
    hasDirective value name = (directiveNames value).any (eqIgnoreAsciiCase · name) := by
  rw [hasDirective, hasDirectiveLoop_eq_any, directiveNames, List.any_filter, List.any_map]
  congr 1
  funext seg
  change eqIgnoreAsciiCase (segmentName seg) name =
    (!(segmentName seg).isEmpty && eqIgnoreAsciiCase (segmentName seg) name)
  cases segmentName seg with
  | nil => simp [eqIgnoreAsciiCase, hname]
  | cons b bs => rfl

end Scanner

end FandheBackend.HttpCacheControl
