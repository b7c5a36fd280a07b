import FandheBackend.KeyedList
import FandheBackend.RoutesPattern
import FandheBackend.Utf8Text

set_option autoImplicit false

namespace FandheBackend.RoutesPatternLaw
open StdBytes ExceptChecks KeyedList RoutesPattern Utf8Text

def Allowed : Segment → Prop
  | .literal text => text ≠ [] ∧ 47 ∉ text ∧ 123 ∉ text ∧ 125 ∉ text
  | .param name => name ≠ [] ∧ ∀ b ∈ name, isNameByte b = true
  | .wildcard name => name ≠ [] ∧ ∀ b ∈ name, isNameByte b = true

def names (segments : List Segment) : List Bytes := segments.flatMap Segment.names

/-- A wildcard names a parameter as well. -/
structure WellFormed (segments : List Segment) : Prop where
  allowed : ∀ segment ∈ segments, Allowed segment
  named : names segments ≠ []
  distinct : (names segments).Nodup
  wildcard_last : ∀ segment ∈ segments.dropLast, ∀ name, segment ≠ .wildcard name

theorem not_isNameByte {b : UInt8} (h : b = 42 ∨ b = 47 ∨ b = 123 ∨ b = 125) :
    isNameByte b = false := by
  rcases h with rfl | rfl | rfl | rfl <;> rfl

theorem not_mem_name {name : Bytes} (h : ∀ b ∈ name, isNameByte b = true) {b : UInt8}
    (hb : isNameByte b = false) : b ∉ name := by
  intro hmem
  rw [h b hmem] at hb
  cases hb

section Segments
variable {lastIndex index : ℕ} {seen : List Bytes}

def Placed (lastIndex index : ℕ) (seen : List Bytes) (segment : Segment) : Prop :=
  (∀ name ∈ segment.names, name ∉ seen) ∧ ∀ name, segment = .wildcard name → index = lastIndex

theorem braced_iff (raw : Bytes) :
    (raw.head? = some 123 ∧ raw.getLast? = some 125 ∧ 2 ≤ raw.length) ↔
      ∃ inner, raw = 123 :: (inner ++ [125]) := by
  constructor
  · rintro ⟨hhead, hlast, hlength⟩
    cases raw with
    | nil => cases hhead
    | cons b tail =>
      cases hhead
      have htail : tail ≠ [] := by
        rintro rfl
        simp at hlength
      rw [List.getLast?_cons_of_ne_nil htail] at hlast
      obtain ⟨inner, rfl⟩ := List.getLast?_eq_some_iff.mp hlast
      exact ⟨inner, rfl⟩
  · rintro ⟨inner, rfl⟩
    refine ⟨rfl, ?_, by simp⟩
    rw [List.getLast?_cons_of_ne_nil (by simp), List.getLast?_concat]

theorem parseParam_eq_ok_iff {inner : Bytes} {segment : Segment} :
    parseParam lastIndex index seen (123 :: (inner ++ [125])) = .ok segment ↔
      ((segment = .param inner) ∨ ∃ name, inner = 42 :: name ∧ segment = .wildcard name) ∧
        Allowed segment ∧ Placed lastIndex index seen segment := by
  have hinner : ((123 :: (inner ++ [125]) : Bytes).drop 1).dropLast = inner := by simp
  unfold parseParam
  rw [hinner]
  cases hstar : inner.head? == some 42 with
  | true =>
    obtain ⟨name, rfl⟩ : ∃ name, inner = 42 :: name := by
      cases inner with
      | nil => cases hstar
      | cons b name => exact ⟨name, by simpa using hstar⟩
    simp only [hstar, ↓reduceIte, rejectIf_bind_eq_ok, List.drop_succ_cons, List.drop_zero, true_and,
      not_not, Bool.not_eq_false, List.all_eq_true, pure, Except.pure, Except.ok.injEq]
    constructor
    · rintro ⟨hne, hall, hseen, hlast, rfl⟩
      refine ⟨.inr ⟨name, rfl, rfl⟩, ⟨hne, hall⟩, ?_, fun _ _ => hlast⟩
      simpa [Segment.names] using hseen
    · rintro ⟨rfl | ⟨name', hname, rfl⟩, ⟨hne, hall⟩, hseen, hlast⟩
      · exact absurd List.mem_cons_self (not_mem_name hall (not_isNameByte (.inl rfl)))
      · obtain rfl := (List.cons.inj hname).2
        exact ⟨hne, hall, hseen name (by simp [Segment.names]), hlast name rfl, rfl⟩
  | false =>
    simp only [hstar, Bool.false_eq_true, ↓reduceIte, rejectIf_bind_eq_ok, false_and, not_false_eq_true,
      Bool.not_eq_false, List.all_eq_true, true_and, pure, Except.pure, Except.ok.injEq]
    constructor
    · rintro ⟨hne, hall, hseen, rfl⟩
      refine ⟨.inl rfl, ⟨hne, hall⟩, ?_, fun _ h => nomatch h⟩
      simpa [Segment.names] using hseen
    · rintro ⟨rfl | ⟨name, rfl, rfl⟩, ⟨hne, hall⟩, hseen, hlast⟩
      · exact ⟨hne, hall, hseen inner (by simp [Segment.names]), rfl⟩
      · cases hstar

theorem parseSegment_eq_ok_iff {raw : Bytes} (hraw : 47 ∉ raw) {segment : Segment} :
    parseSegment lastIndex index seen raw = .ok segment ↔
      raw = renderSegment segment ∧ Allowed segment ∧ Placed lastIndex index seen segment := by
  unfold parseSegment
  by_cases hnil : raw = []
  · rw [if_pos hnil, hnil]
    constructor
    · rintro ⟨⟩
    · rintro ⟨hrender, hallowed, -⟩
      cases segment with
      | literal text => exact absurd hrender.symm hallowed.1
      | param name => cases hrender
      | wildcard name => cases hrender
  · rw [if_neg hnil]
    by_cases hbraced : raw.head? = some 123 ∧ raw.getLast? = some 125 ∧ 2 ≤ raw.length
    · rw [if_pos hbraced]
      obtain ⟨inner, rfl⟩ := (braced_iff raw).mp hbraced
      rw [parseParam_eq_ok_iff]
      apply and_congr_left
      rintro ⟨hallowed, -⟩
      cases segment with
      | literal text =>
        constructor
        · rintro (⟨⟨⟩⟩ | ⟨_, _, ⟨⟩⟩)
        · rintro rfl
          exact absurd List.mem_cons_self hallowed.2.2.1
      | param name =>
        simp [renderSegment, ascii, eq_comm]
      | wildcard name =>
        have hrender : renderSegment (.wildcard name) = 123 :: ((42 :: name) ++ [125]) := rfl
        rw [hrender, List.cons.injEq, List.append_left_inj]
        simp [eq_comm]
    · rw [if_neg hbraced]
      have hnone : ∀ inner : Bytes, raw ≠ 123 :: (inner ++ [125]) :=
        fun inner h => hbraced ((braced_iff raw).mpr ⟨inner, h⟩)
      by_cases hmixed : (raw.contains 123 || raw.contains 125) = true
      · rw [if_pos hmixed]
        simp only [Bool.or_eq_true, List.contains_iff_mem] at hmixed
        constructor
        · rintro ⟨⟩
        · rintro ⟨hrender, hallowed, -⟩
          cases segment with
          | literal text =>
            subst hrender
            exact absurd hmixed (not_or.mpr hallowed.2.2)
          | param name => exact absurd hrender (hnone name)
          | wildcard name => exact absurd hrender (hnone (42 :: name))
      · rw [if_neg hmixed]
        simp only [Bool.or_eq_true, List.contains_iff_mem, not_or] at hmixed
        constructor
        · rintro ⟨⟩
          exact ⟨rfl, ⟨hnil, hraw, hmixed⟩, by simp [Segment.names], by simp⟩
        · rintro ⟨hrender, -, -⟩
          cases segment with
          | literal text => rw [hrender]; rfl
          | param name => exact absurd hrender (hnone name)
          | wildcard name => exact absurd hrender (hnone (42 :: name))

end Segments

theorem nodup_append_names {segment : Segment} {lastIndex index : ℕ} {seen : List Bytes}
    (hseen : seen.Nodup) (h : Placed lastIndex index seen segment) :
    (seen ++ segment.names).Nodup := by
  cases segment with
  | literal text => simpa [Segment.names] using hseen
  | param name | wildcard name =>
    have hname : name ∉ seen := h.1 name (by simp [Segment.names])
    exact List.nodup_append.mpr ⟨hseen, List.nodup_singleton name, fun a ha b hb heq =>
      hname (List.mem_singleton.mp hb ▸ heq ▸ ha)⟩

theorem parseLoop_eq_ok_iff {lastIndex : ℕ} {raws : List Bytes} (hraws : ∀ raw ∈ raws, 47 ∉ raw)
    (index : ℕ) (acc : List Segment) {seen : List Bytes} (hseen : seen.Nodup)
    (segments : List Segment) :
    parseLoop lastIndex index raws acc seen = .ok segments ↔
      ∃ tail, segments = acc ++ tail ∧ raws = tail.map renderSegment ∧
        (∀ segment ∈ tail, Allowed segment) ∧ seen ++ names tail ≠ [] ∧
        (seen ++ names tail).Nodup ∧
        ∀ k name, tail[k]? = some (.wildcard name) → index + k = lastIndex := by
  induction raws generalizing index acc seen with
  | nil =>
    simp only [parseLoop, rejectIf_bind_eq_ok, pure, Except.pure, Except.ok.injEq]
    constructor
    · rintro ⟨hnamed, rfl⟩
      exact ⟨[], by simp, rfl, by simp, by simpa [names] using hnamed, by simpa [names] using hseen,
        by simp⟩
    · rintro ⟨tail, rfl, htail, -, hnamed, -⟩
      obtain rfl := List.map_eq_nil_iff.mp htail.symm
      exact ⟨by simpa [names] using hnamed, by simp⟩
  | cons raw rest ih =>
    rw [List.forall_mem_cons] at hraws
    simp only [parseLoop, bind_eq_ok, parseSegment_eq_ok_iff hraws.1]
    constructor
    · rintro ⟨segment, ⟨rfl, hallowed, hplaced⟩, hloop⟩
      have hnames := nodup_append_names hseen hplaced
      obtain ⟨tail, rfl, rfl, hall, hnamed, hdistinct, hlast⟩ :=
        (ih hraws.2 (index + 1) (acc ++ [segment]) hnames).mp hloop
      rw [List.append_assoc] at hnamed hdistinct
      refine ⟨segment :: tail, by simp, rfl, List.forall_mem_cons.mpr ⟨hallowed, hall⟩, hnamed,
        hdistinct, ?_⟩
      intro k name hk
      cases k with
      | zero => exact hplaced.2 name (Option.some.inj hk)
      | succ k =>
        have := hlast k name hk
        omega
    · rintro ⟨tail, rfl, htail, hall, hnamed, hdistinct, hlast⟩
      cases tail with
      | nil => cases htail
      | cons segment tail =>
        obtain ⟨rfl, rfl⟩ := List.cons.inj htail
        rw [List.forall_mem_cons] at hall
        have hcons : names (segment :: tail) = segment.names ++ names tail := rfl
        rw [hcons, ← List.append_assoc] at hnamed hdistinct
        have hnames := (List.nodup_append.mp hdistinct).1
        have hplaced : Placed lastIndex index seen segment := by
          refine ⟨fun name hname hmem => ?_, fun name hname => hlast 0 name (by simp [hname])⟩
          exact (List.nodup_append.mp hnames).2.2 name hmem name hname rfl
        refine ⟨segment, ⟨rfl, hall.1, hplaced⟩, ?_⟩
        rw [ih hraws.2 (index + 1) (acc ++ [segment]) hnames]
        refine ⟨tail, by simp, rfl, hall.2, hnamed, hdistinct, fun k name hk => ?_⟩
        have := hlast (k + 1) name hk
        omega

theorem wildcard_last_iff (segments : List Segment) :
    (∀ k name, segments[k]? = some (.wildcard name) → 0 + k = segments.length - 1) ↔
      ∀ segment ∈ segments.dropLast, ∀ name, segment ≠ .wildcard name := by
  constructor
  · rintro h segment hmem name rfl
    obtain ⟨k, hk⟩ := List.mem_iff_getElem?.mp hmem
    rw [List.getElem?_dropLast] at hk
    split_ifs at hk with hlt
    have := h k name hk
    omega
  · intro h k name hk
    by_contra hne
    have hlength := (List.getElem?_eq_some_iff.mp hk).1
    have hlt : k < segments.length - 1 := by omega
    refine h (.wildcard name) (List.mem_iff_getElem?.mpr ⟨k, ?_⟩) name rfl
    rw [List.getElem?_dropLast, if_pos hlt, hk]

theorem renderSegments_eq_join {segments : List Segment} (h : segments ≠ []) :
    renderSegments segments = 47 :: join [47] (segments.map renderSegment) := by
  induction segments with
  | nil => exact absurd rfl h
  | cons segment segments ih =>
    cases segments with
    | nil => simp [renderSegments, join]
    | cons next segments =>
      have ih := ih (List.cons_ne_nil next segments)
      rw [renderSegments, List.flatMap_cons, ← renderSegments, ih]
      simp [join]

theorem Allowed.render {segment : Segment} (h : Allowed segment) :
    renderSegment segment ≠ [] ∧ 47 ∉ renderSegment segment := by
  cases segment with
  | literal text => exact ⟨h.1, h.2.1⟩
  | param name | wildcard name =>
    have hslash := not_mem_name h.2 (not_isNameByte (.inr (.inl rfl)))
    exact ⟨by simp [renderSegment, ascii], by simp [renderSegment, ascii, hslash]⟩

theorem WellFormed.ne_nil {segments : List Segment} (h : WellFormed segments) : segments ≠ [] := by
  rintro rfl
  exact h.named rfl

theorem splitSegments_render {segments : List Segment} (hne : segments ≠ [])
    (hall : ∀ segment ∈ segments, Allowed segment) :
    splitSegments (renderSegments segments) = segments.map renderSegment := by
  have hpieces : ∀ piece ∈ segments.map renderSegment, 47 ∉ piece := by
    intro piece hpiece
    obtain ⟨segment, hmem, rfl⟩ := List.mem_map.mp hpiece
    exact (hall segment hmem).render.2
  have htext : join [47] (segments.map renderSegment) ≠ [] := by
    obtain ⟨segment, rest, rfl⟩ := List.exists_cons_of_ne_nil hne
    have hfirst := (hall segment List.mem_cons_self).render.1
    cases rest with
    | nil => exact hfirst
    | cons next rest => simp [join]
  rw [renderSegments_eq_join hne, splitSegments]
  simp only [List.head?_cons, ↓reduceIte, List.drop_succ_cons, List.drop_zero, htext]
  rw [join_eq_intercalate, List.splitOn_intercalate 47 hpieces (by simpa using hne)]

theorem not_mem_splitSegments {pattern : Bytes} : ∀ raw ∈ splitSegments pattern, 47 ∉ raw := by
  unfold splitSegments
  dsimp only
  split_ifs
  · simp
  · exact not_mem_splitOn
  · simp
  · exact not_mem_splitOn

theorem join_splitSegments {rest : Bytes} (h : splitSegments (47 :: rest) ≠ []) :
    47 :: rest = 47 :: join [47] (splitSegments (47 :: rest)) := by
  unfold splitSegments at h ⊢
  simp only [List.head?_cons, ↓reduceIte, List.drop_succ_cons, List.drop_zero] at h ⊢
  split_ifs at h ⊢ with hrest
  · exact absurd rfl h
  · rw [join_eq_intercalate, List.intercalate_splitOn]

theorem parsePattern_eq_ok_iff (pattern : Bytes) (segments : List Segment) :
    parsePattern pattern = .ok segments ↔
      WellFormed segments ∧ pattern = renderSegments segments := by
  have hpieces : ∀ raw ∈ splitSegments pattern, 47 ∉ raw := not_mem_splitSegments
  simp only [parsePattern, rejectIf_bind_eq_ok, not_not]
  rw [parseLoop_eq_ok_iff hpieces 0 [] List.nodup_nil]
  simp only [List.nil_append]
  constructor
  · rintro ⟨hslash, segments, rfl, hraws, hall, hnamed, hdistinct, hlast⟩
    obtain ⟨rest, rfl⟩ := List.head?_eq_some_iff.mp hslash
    have hlength : (splitSegments (47 :: rest)).length = segments.length := by
      rw [hraws, List.length_map]
    rw [hlength, wildcard_last_iff] at hlast
    have hwf : WellFormed segments := ⟨hall, hnamed, hdistinct, hlast⟩
    have hne : splitSegments (47 :: rest) ≠ [] := by simpa [hraws] using hwf.ne_nil
    refine ⟨hwf, ?_⟩
    rw [renderSegments_eq_join hwf.ne_nil, ← hraws]
    exact join_splitSegments hne
  · rintro ⟨hwf, rfl⟩
    have hraws := splitSegments_render hwf.ne_nil hwf.allowed
    refine ⟨by rw [renderSegments_eq_join hwf.ne_nil]; rfl, segments, rfl, hraws, hwf.allowed,
      hwf.named, hwf.distinct, ?_⟩
    rw [hraws, List.length_map, wildcard_last_iff]
    exact hwf.wildcard_last

/-- The parser accepts exactly the rendered well-formed patterns, each as what it renders. -/
theorem pattern_round_trip :
    (∀ pattern segments, parsePattern pattern = .ok segments →
      renderSegments segments = pattern ∧ WellFormed segments) ∧
    (∀ segments, WellFormed segments → parsePattern (renderSegments segments) = .ok segments) ∧
    ∀ pattern, (∃ segments, parsePattern pattern = .ok segments) ↔
      ∃ segments, WellFormed segments ∧ renderSegments segments = pattern := by
  refine ⟨?_, ?_, ?_⟩
  · intro pattern segments h
    obtain ⟨hwf, rfl⟩ := (parsePattern_eq_ok_iff pattern segments).mp h
    exact ⟨rfl, hwf⟩
  · exact fun segments hwf => (parsePattern_eq_ok_iff _ segments).mpr ⟨hwf, rfl⟩
  · intro pattern
    refine exists_congr fun segments => ?_
    rw [parsePattern_eq_ok_iff]
    exact and_congr_right fun _ => eq_comm

section Matching

def Safe (value : Bytes) : Prop :=
  value ≠ [] ∧ value ≠ ascii "." ∧ value ≠ ascii ".." ∧ 63 ∉ value ∧ 35 ∉ value

/-- The segments of a path as an instance of a pattern, with the values of its parameters. -/
inductive Instance : List Segment → List Bytes → PathParams → Prop
  | nil : Instance [] [] []
  | literal {text segments values params} : Instance segments values params →
      Instance (.literal text :: segments) (text :: values) params
  | param {name value segments values params} : Safe value → Instance segments values params →
      Instance (.param name :: segments) (value :: values) ((name, value) :: params)
  | wildcard {name values} : values ≠ [] → (∀ value ∈ values, Safe value) →
      Instance [.wildcard name] values [(name, join [47] values)]

def substituteSegment (params : PathParams) : Segment → Bytes
  | .literal text => text
  | .param name => (find params name).getD []
  | .wildcard name => (find params name).getD []

def substitute (params : PathParams) (segments : List Segment) : Bytes :=
  segments.flatMap fun segment => 47 :: substituteSegment params segment

/-- Where the value of a wildcard starts in the path. -/
def wildcardStart (targetSegments : List Bytes) (prefixLen : ℕ) : ℕ :=
  (targetSegments.take prefixLen).foldl (fun start segment => start + (segment.length + 1)) 1

/-- The value of a wildcard is the slice of the path that starts there. -/
theorem matchSegments_wildcard {init : List Segment} {name : Bytes} {values : List Bytes}
    {path : Bytes} {params : PathParams}
    (h : matchSegments (init ++ [.wildcard name]) values path = some params) :
    ∃ bound, params = bound ++ [(name, path.drop (wildcardStart values init.length))] := by
  have hname : wildcardName (init ++ [Segment.wildcard name]) = some name := by
    simp [wildcardName]
  have hlength : (init ++ [Segment.wildcard name]).length = init.length + 1 := by simp
  simp only [matchSegments, hname, hlength, Nat.add_sub_cancel] at h
  obtain ⟨-, h⟩ := Option.ite_none_left_eq_some.mp h
  obtain ⟨bound, -, h⟩ := Option.bind_eq_some_iff.mp h
  obtain ⟨-, h⟩ := Option.ite_none_right_eq_some.mp h
  exact ⟨bound, (Option.some.inj h).symm⟩

theorem isSafeSegmentValue_iff (value : Bytes) : isSafeSegmentValue value = true ↔ Safe value := by
  simp [isSafeSegmentValue, Safe, and_assoc]

theorem all_isSafeSegmentValue_iff (values : List Bytes) :
    values.all isSafeSegmentValue = true ↔ ∀ value ∈ values, Safe value := by
  rw [List.all_eq_true]
  exact forall₂_congr fun value _ => isSafeSegmentValue_iff value

theorem instance_of_bindSegments {segments : List Segment} {values : List Bytes}
    {params : PathParams} (h : bindSegments segments values = some params) :
    Instance segments values params := by
  fun_induction bindSegments segments values generalizing params with
  | case1 =>
    cases h
    exact .nil
  | case2 | case3 | case5 | case7 | case9 | case10 => cases h
  | case4 text segments values ih => exact .literal (ih h)
  | case6 name segments value values hsafe ih =>
    obtain ⟨rest, hrest, rfl⟩ := Option.map_eq_some_iff.mp h
    exact .param ((isSafeSegmentValue_iff value).mp hsafe) (ih hrest)
  | case8 name value values hsafe =>
    cases h
    exact .wildcard (List.cons_ne_nil value values) ((all_isSafeSegmentValue_iff _).mp hsafe)

theorem bindSegments_of_instance {segments : List Segment} {values : List Bytes}
    {params : PathParams} (h : Instance segments values params) :
    bindSegments segments values = some params := by
  induction h with
  | nil => rfl
  | literal _ ih => rw [bindSegments, if_pos rfl, ih]
  | param hsafe _ ih =>
    rw [bindSegments, if_pos ((isSafeSegmentValue_iff _).mpr hsafe), ih]
    rfl
  | wildcard hne hsafe =>
    obtain ⟨value, values, rfl⟩ := List.exists_cons_of_ne_nil hne
    rw [bindSegments, if_pos ((all_isSafeSegmentValue_iff _).mpr hsafe)]

theorem Instance.params_names {segments : List Segment} {values : List Bytes} {params : PathParams}
    (h : Instance segments values params) : keys params = names segments := by
  induction h with
  | nil => rfl
  | literal _ ih => exact ih
  | param _ _ ih => exact congrArg (_ :: ·) ih
  | wildcard _ _ => rfl

theorem cons_join_eq_flatMap {values : List Bytes} (h : values ≠ []) :
    47 :: join [47] values = values.flatMap (47 :: ·) := by
  induction values with
  | nil => exact absurd rfl h
  | cons value values ih =>
    cases values with
    | nil => simp [join]
    | cons next values =>
      rw [List.flatMap_cons, ← ih (List.cons_ne_nil next values)]
      simp [join]

theorem Instance.substitute_eq {segments : List Segment} {values : List Bytes} {params : PathParams}
    (h : Instance segments values params) (all : PathParams)
    (hall : ∀ param ∈ params, find all param.1 = some param.2) :
    substitute all segments = values.flatMap (47 :: ·) := by
  induction h with
  | nil => rfl
  | literal _ ih => exact congrArg (_ ++ ·) (ih hall)
  | @param name value segments values params _ _ ih =>
    rw [List.forall_mem_cons] at hall
    have hvalue : substituteSegment all (.param name) = value := by
      rw [substituteSegment, hall.1, Option.getD_some]
    rw [substitute, List.flatMap_cons, ← substitute, ih hall.2, hvalue, List.flatMap_cons]
  | @wildcard name values hne _ =>
    rw [List.forall_mem_singleton] at hall
    rw [← cons_join_eq_flatMap hne, substitute, List.flatMap_singleton, substituteSegment, hall,
      Option.getD_some]

/-- What a wildcard takes are the segments that are left for it. -/
theorem Instance.wildcard_value {init : List Segment} {name : Bytes} {values : List Bytes}
    {params : PathParams} (h : Instance (init ++ [.wildcard name]) values params) :
    (name, join [47] (values.drop init.length)) ∈ params := by
  induction init generalizing values params with
  | nil =>
    cases h
    exact List.mem_cons_self
  | cons segment init ih =>
    generalize hrest : init ++ [Segment.wildcard name] = rest at ih
    rw [List.cons_append, hrest] at h
    cases h with
    | literal h => exact ih h
    | param _ h => exact List.mem_cons_of_mem _ (ih h)
    | wildcard _ _ => exact absurd hrest (by simp)

theorem Instance.pieces_safe {segments : List Segment} {values : List Bytes} {params : PathParams}
    (h : Instance segments values params) (hvalues : ∀ value ∈ values, 47 ∉ value) :
    ∀ param ∈ params, ∀ piece ∈ param.2.splitOn 47, Safe piece := by
  induction h with
  | nil => simp
  | literal _ ih => exact ih (List.forall_mem_cons.mp hvalues).2
  | param hsafe _ ih =>
    rw [List.forall_mem_cons] at hvalues
    rw [List.forall_mem_cons]
    refine ⟨fun piece hpiece => ?_, ih hvalues.2⟩
    rw [List.splitOn_eq_singleton hvalues.1, List.mem_singleton] at hpiece
    exact hpiece ▸ hsafe
  | wildcard hne hsafe =>
    rw [List.forall_mem_singleton, join_eq_intercalate, List.splitOn_intercalate 47 hvalues hne]
    exact hsafe

theorem wildcardStart_after_slash (before : Bytes) {values : List Bytes} {k : ℕ}
    (hk : k < values.length) :
    ∃ head, before ++ 47 :: join [47] values = head ++ 47 :: join [47] (values.drop k) ∧
      (values.take k).foldl (fun start segment => start + (segment.length + 1))
        (before.length + 1) = head.length + 1 := by
  induction k generalizing before values with
  | zero => exact ⟨before, rfl, rfl⟩
  | succ k ih =>
    obtain ⟨value, values, rfl⟩ := List.exists_cons_of_length_pos (Nat.zero_lt_of_lt hk)
    cases values with
    | nil => exact absurd hk (by simp)
    | cons next values =>
      obtain ⟨head, hpath, hstart⟩ := ih (before ++ 47 :: value) (Nat.lt_of_succ_lt_succ hk)
      refine ⟨head, ?_, ?_⟩
      · rw [List.drop_succ_cons, ← hpath]
        simp [join]
      · have hlength : before.length + 1 + (value.length + 1) =
            (before ++ 47 :: value).length + 1 := by
          rw [List.length_append, List.length_cons]
          omega
        rw [List.take_succ_cons, List.foldl_cons, hlength]
        exact hstart

theorem requestTargetSegments_slash (stripped : Bytes) :
    ∃ values, requestTargetSegments (47 :: stripped) = some values ∧
      ∀ value ∈ values, 47 ∉ value := by
  refine ⟨_, rfl, ?_⟩
  split_ifs
  · simp
  · exact not_mem_splitOn

theorem Instance.values_ne_nil {segments : List Segment} {values : List Bytes}
    {params : PathParams} (h : Instance segments values params) (hne : segments ≠ []) :
    values ≠ [] := by
  cases h with
  | nil => exact absurd rfl hne
  | literal _ => exact List.cons_ne_nil _ _
  | param _ _ => exact List.cons_ne_nil _ _
  | wildcard hvalues _ => exact hvalues

theorem matchSegments_eq_some_iff {path : Bytes} {values : List Bytes}
    (h : requestTargetSegments path = some values) (segments : List Segment) (params : PathParams) :
    matchSegments segments values path = some params ↔ Instance segments values params := by
  rw [matchSegments_eq_bindSegments h]
  exact ⟨instance_of_bindSegments, bindSegments_of_instance⟩

/-- What is bound gives the path back, and no value leaves its place in it. -/
theorem Instance.lossless {segments : List Segment} {values : List Bytes} {params : PathParams}
    {path : Bytes} (h : Instance segments values params) (hwf : WellFormed segments)
    (hpath : requestTargetSegments path = some values) (hvalues : ∀ value ∈ values, 47 ∉ value) :
    substitute params segments = path ∧
      (∀ init name, segments = init ++ [.wildcard name] →
        find params name = some (join [47] (values.drop init.length))) ∧
      keys params = names segments ∧
      ∀ param ∈ params, ∀ piece ∈ param.2.splitOn 47,
        piece ≠ [] ∧ piece ≠ ascii "." ∧ piece ≠ ascii ".." := by
  have hkeys : (keys params).Nodup := h.params_names ▸ hwf.distinct
  have hfind : ∀ param ∈ params, find params param.1 = some param.2 :=
    fun param hparam => find_eq_some hkeys hparam
  refine ⟨?_, ?_, h.params_names, ?_⟩
  · rw [h.substitute_eq params hfind, join_requestTargetSegments hpath,
      cons_join_eq_flatMap (h.values_ne_nil hwf.ne_nil)]
  · rintro init name rfl
    exact hfind _ h.wildcard_value
  · intro param hparam piece hpiece
    have hsafe := h.pieces_safe hvalues param hparam piece hpiece
    exact ⟨hsafe.1, hsafe.2.1, hsafe.2.2.1⟩

theorem wildcardStart_in_path {path : Bytes} {values : List Bytes}
    (hpath : requestTargetSegments path = some values) {k : ℕ} (hk : k < values.length) :
    wildcardStart values k ≤ path.length ∧
      (IsText path → isCharBoundary path (wildcardStart values k) = true) := by
  obtain ⟨head, hsplit, hstart⟩ := wildcardStart_after_slash [] hk
  have hstart : wildcardStart values k = head.length + 1 := hstart
  have hpath : path = head ++ 47 :: join [47] (values.drop k) := by
    rw [join_requestTargetSegments hpath, ← hsplit, List.nil_append]
  rw [hstart]
  constructor
  · rw [hpath, List.length_append, List.length_cons]
    omega
  · intro htext
    exact htext.isCharBoundary_after (by simp [hpath]) (by decide : (47 : UInt8) < 128)

/-- The matcher binds exactly the instances of a pattern, without loss. -/
theorem matchSegments_exact {pattern path : Bytes} {segments : List Segment}
    (hpattern : parsePattern pattern = .ok segments) (hslash : path.head? = some 47) :
    ∃ values, requestTargetSegments path = some values ∧
      (∀ params, matchSegments segments values path = some params ↔
        Instance segments values params) ∧
      (∀ params, matchSegments segments values path = some params →
        substitute params segments = path ∧
        (∀ init name, segments = init ++ [.wildcard name] →
          find params name = some (join [47] (values.drop init.length))) ∧
        keys params = names segments ∧ (names segments).Nodup ∧
        ∀ param ∈ params, ∀ piece ∈ param.2.splitOn 47,
          piece ≠ [] ∧ piece ≠ ascii "." ∧ piece ≠ ascii "..") ∧
      ∀ init name, segments = init ++ [.wildcard name] →
        (∀ params, matchSegments segments values path = some params →
          ∃ bound, params = bound ++ [(name, path.drop (wildcardStart values init.length))]) ∧
        (segments.length ≤ values.length →
          wildcardStart values init.length ≤ path.length ∧
          (IsText path → isCharBoundary path (wildcardStart values init.length) = true)) := by
  obtain ⟨hwf, -⟩ := (parsePattern_eq_ok_iff pattern segments).mp hpattern
  obtain ⟨stripped, rfl⟩ := List.head?_eq_some_iff.mp hslash
  obtain ⟨values, hvalues, hpieces⟩ := requestTargetSegments_slash stripped
  refine ⟨values, hvalues, matchSegments_eq_some_iff hvalues segments, ?_, ?_⟩
  · intro params hmatch
    have hinstance := (matchSegments_eq_some_iff hvalues segments params).mp hmatch
    obtain ⟨hpath, hwildcard, hkeys, hsafe⟩ := hinstance.lossless hwf hvalues hpieces
    exact ⟨hpath, hwildcard, hkeys, hwf.distinct, hsafe⟩
  · rintro init name rfl
    refine ⟨fun params => matchSegments_wildcard, fun hlength => ?_⟩
    rw [List.length_append, List.length_singleton] at hlength
    exact wildcardStart_in_path hvalues hlength

theorem matchSegments_exact_files : ∃ values,
    requestTargetSegments (ascii "/u/7/a/b") = some values ∧
      matchSegments [.literal (ascii "u"), .param (ascii "id"), .wildcard (ascii "rest")] values
          (ascii "/u/7/a/b") =
        some [(ascii "id", ascii "7"), (ascii "rest", ascii "a/b")] ∧
      substitute [(ascii "id", ascii "7"), (ascii "rest", ascii "a/b")]
        [.literal (ascii "u"), .param (ascii "id"), .wildcard (ascii "rest")] =
          ascii "/u/7/a/b" := by
  obtain ⟨values, hvalues, -, hlossless, -⟩ :=
    @matchSegments_exact (ascii "/u/\x7bid\x7d/\x7b*rest\x7d") (ascii "/u/7/a/b")
      [.literal (ascii "u"), .param (ascii "id"), .wildcard (ascii "rest")]
      (by decide) (by decide)
  have hmatch : matchSegments [.literal (ascii "u"), .param (ascii "id"),
      .wildcard (ascii "rest")] values (ascii "/u/7/a/b") =
        some [(ascii "id", ascii "7"), (ascii "rest", ascii "a/b")] := by
    cases hvalues
    decide
  exact ⟨values, hvalues, hmatch, (hlossless _ hmatch).1⟩

end Matching

end FandheBackend.RoutesPatternLaw
