import FandheBackend.RoutesPatternLaw
import FandheBackend.WsPathPattern

set_option autoImplicit false

namespace FandheBackend.WsPathPatternLaw
open StdBytes ExceptChecks WsPathPattern

def toRoute : Segment → RoutesPattern.Segment
  | .literal text => .literal text
  | .param name => .param name

/-- `{*...}` -/
def WildcardShaped (raw : Bytes) : Prop := ∃ text, raw = ascii "\x7b*" ++ text ++ ascii "\x7d"

theorem toRoute_names (segment : Segment) :
    (toRoute segment).names = segment.names := by
  cases segment <;> rfl

section Parse
variable {lastIndex index : ℕ} {seen : List Bytes}

theorem parseParam_agree {inner : Bytes} (h : inner.head? ≠ some 42) :
    (RoutesPattern.parseParam lastIndex index seen (123 :: (inner ++ [125]))).toOption =
      (parseParam seen (123 :: (inner ++ [125]))).toOption.map toRoute := by
  have hinner : ((123 :: (inner ++ [125]) : Bytes).drop 1).dropLast = inner := by simp
  have hstar : (inner.head? == some 42) = false := by simpa using h
  have hbytes : isNameByte = RoutesPattern.isNameByte := rfl
  unfold RoutesPattern.parseParam parseParam
  simp only [hinner, hstar, Bool.false_eq_true, ↓reduceIte, false_and, hbytes]
  by_cases hnil : inner = []
  · simp [hnil, rejectIf, bind, Except.bind, Except.toOption]
  · by_cases hall : inner.all RoutesPattern.isNameByte = false
    · simp [hnil, hall, rejectIf, bind, Except.bind, Except.toOption]
    · by_cases hseen : inner ∈ seen <;>
        simp [hnil, hall, hseen, rejectIf, bind, Except.bind, Except.toOption, pure, Except.pure,
          toRoute]

theorem parseSegment_agree {raw : Bytes} (hlength : raw.length ≤ maxSegmentBytes)
    (hshape : ¬ WildcardShaped raw) :
    (RoutesPattern.parseSegment lastIndex index seen raw).toOption =
      (parseSegment seen raw).toOption.map toRoute := by
  unfold RoutesPattern.parseSegment parseSegment
  rw [if_neg (Nat.not_lt.mpr hlength)]
  by_cases hnil : raw = []
  · rw [if_pos hnil, if_pos hnil]
    rfl
  · rw [if_neg hnil, if_neg hnil]
    by_cases hbraced : raw.head? = some 123 ∧ raw.getLast? = some 125 ∧ 2 ≤ raw.length
    · rw [if_pos hbraced, if_pos hbraced]
      obtain ⟨inner, rfl⟩ := (RoutesPatternLaw.braced_iff raw).mp hbraced
      apply parseParam_agree
      intro hstar
      obtain ⟨text, rfl⟩ := List.head?_eq_some_iff.mp hstar
      exact hshape ⟨text, rfl⟩
    · rw [if_neg hbraced, if_neg hbraced]
      split_ifs <;> rfl

theorem parseLoop_agree {raws : List Bytes}
    (hraws : ∀ raw ∈ raws, raw.length ≤ maxSegmentBytes ∧ ¬ WildcardShaped raw)
    (index : ℕ) (acc : List Segment) :
    (RoutesPattern.parseLoop lastIndex index raws (acc.map toRoute)
        (acc.flatMap Segment.names)).toOption =
      (parseLoop raws acc (acc.flatMap Segment.names)).toOption.bind fun segments =>
        if segments.flatMap Segment.names = [] then none else some (segments.map toRoute) := by
  induction raws generalizing index acc with
  | nil =>
    rw [RoutesPattern.parseLoop, parseLoop]
    by_cases hnamed : acc.flatMap Segment.names = [] <;>
      simp only [hnamed, rejectIf, ↓reduceIte, bind, Except.bind, Except.toOption, pure,
        Except.pure, Option.bind_some]
  | cons raw rest ih =>
    rw [List.forall_mem_cons] at hraws
    have hsegment : (RoutesPattern.parseSegment lastIndex index (acc.flatMap Segment.names)
        raw).toOption = (parseSegment (acc.flatMap Segment.names) raw).toOption.map toRoute :=
      parseSegment_agree hraws.1.1 hraws.1.2
    rw [RoutesPattern.parseLoop, parseLoop]
    cases hws : parseSegment (acc.flatMap Segment.names) raw with
    | error e =>
      rw [hws] at hsegment
      cases hroute : RoutesPattern.parseSegment lastIndex index (acc.flatMap Segment.names) raw with
      | error e => rfl
      | ok segment =>
        rw [hroute] at hsegment
        cases hsegment
    | ok segment =>
      rw [hws] at hsegment
      rw [ExceptChecks.eq_ok_of_toOption hsegment]
      have ih := ih hraws.2 (index + 1) (acc ++ [segment])
      rw [List.map_append, List.flatMap_append, List.flatMap_singleton, List.map_singleton] at ih
      simp only [bind, Except.bind, toRoute_names]
      exact ih

theorem parseSegment_named {raw : Bytes} {segment : Segment}
    (h : parseSegment seen raw = .ok segment) {b : UInt8} (hb : b = 123 ∨ b = 125)
    (hmem : b ∈ raw) : segment.names ≠ [] := by
  unfold parseSegment at h
  split_ifs at h with hnil hlength hbraced hmixed
  · simp only [parseParam, rejectIf_bind_eq_ok] at h
    obtain ⟨-, -, -, ⟨⟩⟩ := h
    exact List.cons_ne_nil _ _
  · refine absurd ?_ hmixed
    rcases hb with rfl | rfl <;> simp [hmem]

theorem parseLoop_named {raws : List Bytes} {acc segments : List Segment} {seen : List Bytes}
    (h : parseLoop raws acc seen = .ok segments) :
    (acc.flatMap Segment.names ≠ [] → segments.flatMap Segment.names ≠ []) ∧
      ((∃ raw ∈ raws, ∃ b, (b = 123 ∨ b = 125) ∧ b ∈ raw) →
        segments.flatMap Segment.names ≠ []) := by
  induction raws generalizing acc seen with
  | nil =>
    cases h
    exact ⟨id, fun ⟨_, hmem, _⟩ => absurd hmem List.not_mem_nil⟩
  | cons raw rest ih =>
    rw [parseLoop, bind_eq_ok] at h
    obtain ⟨segment, hsegment, hloop⟩ := h
    obtain ⟨hacc, hrest⟩ := ih hloop
    rw [List.flatMap_append, List.flatMap_singleton, ne_eq, List.append_eq_nil_iff, not_and_or]
      at hacc
    refine ⟨fun h => hacc (.inl h), ?_⟩
    rintro ⟨piece, hpiece, b, hb, hmem⟩
    rcases List.mem_cons.mp hpiece with rfl | hpiece
    · exact hacc (.inr (parseSegment_named hsegment hb hmem))
    · exact hrest ⟨piece, hpiece, b, hb, hmem⟩

end Parse

theorem not_exact {pattern : Bytes} (hbrace : 123 ∈ pattern ∨ 125 ∈ pattern) :
    ¬ (!pattern.contains 123 && !pattern.contains 125) = true := by
  simpa [Classical.or_iff_not_imp_left] using hbrace

theorem parse_braced {pattern : Bytes} (hbrace : 123 ∈ pattern ∨ 125 ∈ pattern)
    {parsed : PathPattern} (h : PathPattern.parse pattern = .ok parsed) :
    ∃ pieces, parsed = .segments pieces := by
  rw [PathPattern.parse, if_neg (not_exact hbrace)] at h
  simp only [bind_eq_ok] at h
  obtain ⟨_, -, _, -, pieces, -, ⟨⟩⟩ := h
  exact ⟨pieces, rfl⟩

/-- A pattern of the router with the texts and the names of one of the plugin. -/
def toPattern : PathPattern → Option (List RoutesPattern.Segment)
  | .exact _ => none
  | .segments pieces => some (pieces.map toRoute)

theorem parse_agree {pattern : Bytes} (hbrace : 123 ∈ pattern ∨ 125 ∈ pattern)
    (hcount : (RoutesPattern.splitSegments pattern).length ≤ maxPatternSegments)
    (hraws : ∀ raw ∈ RoutesPattern.splitSegments pattern,
      raw.length ≤ maxSegmentBytes ∧ ¬ WildcardShaped raw) :
    (RoutesPattern.parsePattern pattern).toOption =
      (PathPattern.parse pattern).toOption.bind toPattern := by
  rw [PathPattern.parse, if_neg (not_exact hbrace), RoutesPattern.parsePattern]
  by_cases hslash : pattern.head? = some 47
  · obtain ⟨rest, rfl⟩ := List.head?_eq_some_iff.mp hslash
    obtain ⟨b, hb, hmem⟩ : ∃ b, (b = 123 ∨ b = 125) ∧ b ∈ rest := by
      rcases hbrace with h | h
      · exact ⟨123, .inl rfl, by simpa using h⟩
      · exact ⟨125, .inr rfl, by simpa using h⟩
    have hpieces : RoutesPattern.splitSegments (47 :: rest) = rest.splitOn 47 := by
      simp [RoutesPattern.splitSegments, List.ne_nil_of_mem hmem]
    rw [hpieces] at hcount hraws
    have hloop : (RoutesPattern.parseLoop ((rest.splitOn 47).length - 1) 0 (rest.splitOn 47)
        [] []).toOption = (parseLoop (rest.splitOn 47) [] []).toOption.bind fun segments =>
          if segments.flatMap Segment.names = [] then none else some (segments.map toRoute) :=
      parseLoop_agree hraws 0 []
    simp only [rejectIf, hpieces, not_true_eq_false, ↓reduceIte, Nat.not_lt.mpr hcount, bind,
      Except.bind, ne_eq, List.head?_cons, List.drop_succ_cons, List.drop_zero]
    rw [hloop]
    cases hparse : parseLoop (rest.splitOn 47) [] [] with
    | error e => rfl
    | ok segments =>
      have hnamed : segments.flatMap Segment.names ≠ [] := by
        apply (parseLoop_named hparse).2
        have hjoin : b ∈ join [47] (rest.splitOn 47) := by
          rw [RoutesPattern.join_eq_intercalate, List.intercalate_splitOn]
          exact hmem
        rcases mem_join hjoin with hsep | ⟨piece, hpiece, hmem⟩
        · rcases hb with rfl | rfl <;> simp at hsep
        · exact ⟨piece, hpiece, b, hb, hmem⟩
      simp only [Except.toOption, Option.bind_some, hnamed, ↓reduceIte, pure, Except.pure,
        toPattern]
  · simp [hslash, rejectIf, bind, Except.bind, Except.toOption]

theorem isSafeSegmentValue_agree {value : Bytes} (h : value.length ≤ maxSegmentBytes) :
    isSafeSegmentValue value = RoutesPattern.isSafeSegmentValue value := by
  rw [isSafeSegmentValue, decide_eq_true h, Bool.and_true]
  rfl

theorem matchSegmentsLoop_agree (segments : List Segment) {values : List Bytes}
    (hvalues : ∀ value ∈ values, value.length ≤ maxSegmentBytes) (params : PathParams) :
    matchSegmentsLoop segments values params =
      (RoutesPattern.bindSegments (segments.map toRoute) values).map (params ++ ·) := by
  induction segments generalizing values params with
  | nil =>
    cases values with
    | nil => simp [matchSegmentsLoop, RoutesPattern.bindSegments]
    | cons value values => rfl
  | cons segment segments ih =>
    cases values with
    | nil => cases segment <;> rfl
    | cons value values =>
      rw [List.forall_mem_cons] at hvalues
      cases segment with
      | literal text =>
        rw [matchSegmentsLoop, ih hvalues.2, List.map_cons, toRoute, RoutesPattern.bindSegments]
        by_cases htext : text = value <;> simp [htext]
      | param name =>
        rw [matchSegmentsLoop, ih hvalues.2, List.map_cons, toRoute, RoutesPattern.bindSegments,
          isSafeSegmentValue_agree hvalues.1]
        by_cases hsafe : RoutesPattern.isSafeSegmentValue value = true
        · simp only [hsafe, Bool.not_true, Bool.false_eq_true, ↓reduceIte, Option.map_map]
          congr 1
          funext rest
          simp
        · simp [hsafe]

/-- The root has one empty segment for the plugin and none for the router: neither matches. -/
theorem matchSegmentsLoop_root {segment : Segment} {segments : List Segment}
    (h : RoutesPatternLaw.Allowed (toRoute segment)) (params : PathParams) :
    matchSegmentsLoop (segment :: segments) [[]] params = none := by
  cases segment with
  | literal text => rw [matchSegmentsLoop, if_pos h.1]
  | param name => rfl

theorem matchPath_agree {pieces : List Segment}
    (hwf : RoutesPatternLaw.WellFormed (pieces.map toRoute)) {path : Bytes}
    (hpath : ∀ values, RoutesPattern.requestTargetSegments path = some values →
      ∀ value ∈ values, value.length ≤ maxSegmentBytes) :
    (PathPattern.segments pieces).matchPath path =
      (RoutesPattern.requestTargetSegments path).bind fun values =>
        RoutesPattern.matchSegments (pieces.map toRoute) values path := by
  rw [PathPattern.matchPath]
  by_cases hslash : path.head? = some 47
  · obtain ⟨stripped, rfl⟩ := List.head?_eq_some_iff.mp hslash
    obtain ⟨values, hvalues, -⟩ := RoutesPatternLaw.requestTargetSegments_slash stripped
    rw [hvalues, Option.bind_some, RoutesPattern.matchSegments_eq_bindSegments hvalues,
      matchSegments]
    by_cases hroot : stripped = []
    · subst hroot
      cases hvalues
      obtain ⟨segment, segments, rfl⟩ :=
        List.exists_cons_of_ne_nil (fun h => hwf.ne_nil (List.map_eq_nil_iff.mpr h))
      exact matchSegmentsLoop_root (hwf.allowed _ List.mem_cons_self) []
    · have hsplit : values = stripped.splitOn 47 := by
        rw [RoutesPattern.requestTargetSegments, if_neg hroot] at hvalues
        exact (Option.some.inj hvalues).symm
      have hlength := hpath values hvalues
      rw [hsplit] at hlength ⊢
      rw [matchSegmentsLoop_agree pieces hlength]
      simp
  · have hws : matchSegments pieces path = none := by
      unfold matchSegments
      split
      · exact absurd rfl hslash
      · rfl
    have hroute : RoutesPattern.requestTargetSegments path = none := by
      unfold RoutesPattern.requestTargetSegments
      split
      · exact absurd rfl hslash
      · rfl
    rw [hws, hroute, Option.bind_none]

/-- Both read the same patterns, and match the same paths with the same values. -/
theorem pathPattern_agrees {pattern : Bytes} (hbrace : 123 ∈ pattern ∨ 125 ∈ pattern)
    (hcount : (RoutesPattern.splitSegments pattern).length ≤ maxPatternSegments)
    (hraws : ∀ raw ∈ RoutesPattern.splitSegments pattern,
      raw.length ≤ maxSegmentBytes ∧ ¬ WildcardShaped raw) :
    ((∃ parsed, PathPattern.parse pattern = .ok parsed) ↔
      ∃ segments, RoutesPattern.parsePattern pattern = .ok segments) ∧
    ∀ parsed segments, PathPattern.parse pattern = .ok parsed →
      RoutesPattern.parsePattern pattern = .ok segments → ∀ path,
        (∀ values, RoutesPattern.requestTargetSegments path = some values →
          ∀ value ∈ values, value.length ≤ maxSegmentBytes) →
        parsed.matchPath path = (RoutesPattern.requestTargetSegments path).bind fun values =>
          RoutesPattern.matchSegments segments values path := by
  have hagree := parse_agree hbrace hcount hraws
  have hparsed : ∀ parsed, PathPattern.parse pattern = .ok parsed →
      ∃ pieces, parsed = .segments pieces ∧
        RoutesPattern.parsePattern pattern = .ok (pieces.map toRoute) := by
    intro parsed hws
    obtain ⟨pieces, rfl⟩ := parse_braced hbrace hws
    rw [hws] at hagree
    exact ⟨pieces, rfl, eq_ok_of_toOption hagree⟩
  refine ⟨⟨?_, ?_⟩, ?_⟩
  · rintro ⟨parsed, hws⟩
    obtain ⟨pieces, -, hroute⟩ := hparsed parsed hws
    exact ⟨_, hroute⟩
  · rintro ⟨segments, hroute⟩
    rw [hroute] at hagree
    cases hws : PathPattern.parse pattern with
    | ok parsed => exact ⟨parsed, rfl⟩
    | error e =>
      rw [hws] at hagree
      cases hagree
  · intro parsed segments hws hroute path hpath
    obtain ⟨pieces, rfl, hpieces⟩ := hparsed parsed hws
    rw [hroute] at hpieces
    cases hpieces
    exact matchPath_agree ((RoutesPatternLaw.parsePattern_eq_ok_iff _ _).mp hroute).1 hpath

theorem pathPattern_agrees_page : ∃ parsed,
    PathPattern.parse (ascii "/page/\x7bid\x7d") = .ok parsed ∧
      parsed.matchPath (ascii "/page/7") = some [(ascii "id", ascii "7")] := by
  have hshape : ∀ raw ∈ RoutesPattern.splitSegments (ascii "/page/\x7bid\x7d"),
      raw.length ≤ maxSegmentBytes ∧ ¬ WildcardShaped raw := by
    intro raw hraw
    have hcases : raw = ascii "page" ∨ raw = ascii "\x7bid\x7d" := by
      have hsplit : RoutesPattern.splitSegments (ascii "/page/\x7bid\x7d") =
          [ascii "page", ascii "\x7bid\x7d"] := by decide
      simpa [hsplit] using hraw
    rcases hcases with rfl | rfl
    · refine ⟨by decide, ?_⟩
      rintro ⟨text, htext⟩
      exact absurd (congrArg (List.take 1) htext) (by simp [ascii])
    · refine ⟨by decide, ?_⟩
      rintro ⟨text, htext⟩
      exact absurd (congrArg (List.take 2) htext) (by simp [ascii])
  obtain ⟨hparse, hmatch⟩ := @pathPattern_agrees (ascii "/page/\x7bid\x7d")
    (by decide) (by decide) hshape
  have hroute : RoutesPattern.parsePattern (ascii "/page/\x7bid\x7d") =
      .ok [.literal (ascii "page"), .param (ascii "id")] := by decide
  obtain ⟨parsed, hparsed⟩ := hparse.mpr ⟨_, hroute⟩
  refine ⟨parsed, hparsed, ?_⟩
  rw [hmatch parsed _ hparsed hroute (ascii "/page/7") (by
    intro values hvalues
    cases hvalues
    decide)]
  decide

end FandheBackend.WsPathPatternLaw
