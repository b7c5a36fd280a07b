import FandheBackend.ExceptChecks
import FandheBackend.StdBytes

set_option autoImplicit false

namespace FandheBackend.RoutesPattern
open StdBytes ExceptChecks

inductive RoutePatternError where
  | missingLeadingSlash
  | emptyParamName
  | invalidParamName (name : Bytes)
  | mixedSegment (segment : Bytes)
  | duplicateParamName (name : Bytes)
  | emptySegment
  | noParamSegment
  | wildcardNotLast (segment : Bytes)
  deriving DecidableEq, Repr

inductive Segment where
  | literal (text : Bytes)
  | param (name : Bytes)
  | wildcard (name : Bytes)
  deriving DecidableEq, Repr

/-- Names and values, in the order of the pattern. -/
abbrev PathParams := List (Bytes × Bytes)

def splitSegments (pattern : Bytes) : List Bytes :=
  let trimmed := if pattern.head? = some 47 then pattern.drop 1 else pattern
  if trimmed = [] then [] else trimmed.splitOn 47

/-- Only a path that starts with a slash has segments. -/
def requestTargetSegments : Bytes → Option (List Bytes)
  | 47 :: stripped => some (if stripped = [] then [] else stripped.splitOn 47)
  | _ => none

def isNameByte (b : UInt8) : Bool := isAsciiAlphanumeric b || b == 95

/-- `{name}` or `{*name}`, by what is between the braces. -/
def parseParam (lastIndex index : ℕ) (seenNames : List Bytes) (raw : Bytes) :
    Except RoutePatternError Segment := do
  let inner := (raw.drop 1).dropLast
  let isWildcard := inner.head? == some 42
  let name := if isWildcard then inner.drop 1 else inner
  rejectIf (name = []) .emptyParamName
  rejectIf (name.all isNameByte = false) (.invalidParamName name)
  rejectIf (name ∈ seenNames) (.duplicateParamName name)
  rejectIf (isWildcard = true ∧ index ≠ lastIndex) (.wildcardNotLast raw)
  return if isWildcard then .wildcard name else .param name

def parseSegment (lastIndex index : ℕ) (seenNames : List Bytes) (raw : Bytes) :
    Except RoutePatternError Segment :=
  if raw = [] then .error .emptySegment
  else if raw.head? = some 123 ∧ raw.getLast? = some 125 ∧ 2 ≤ raw.length then
    parseParam lastIndex index seenNames raw
  else if raw.contains 123 || raw.contains 125 then .error (.mixedSegment raw)
  else .ok (.literal raw)

def Segment.names : Segment → List Bytes
  | .literal _ => []
  | .param name => [name]
  | .wildcard name => [name]

def parseLoop (lastIndex : ℕ) : ℕ → List Bytes → List Segment → List Bytes →
    Except RoutePatternError (List Segment)
  | _, [], segments, seenNames => do
    rejectIf (seenNames = []) .noParamSegment
    return segments
  | index, raw :: rest, segments, seenNames => do
    let segment ← parseSegment lastIndex index seenNames raw
    parseLoop lastIndex (index + 1) rest (segments ++ [segment]) (seenNames ++ segment.names)

def parsePattern (pattern : Bytes) : Except RoutePatternError (List Segment) := do
  rejectIf (pattern.head? ≠ some 47) .missingLeadingSlash
  let rawSegments := splitSegments pattern
  parseLoop (rawSegments.length - 1) 0 rawSegments [] []

def isSafeSegmentValue (value : Bytes) : Bool :=
  !value.isEmpty && value != ascii "." && value != ascii ".." && !value.contains 63 &&
    !value.contains 35

/-- The loop of `match_segments` over the segments before a wildcard. -/
def matchLoop : List (Segment × Bytes) → PathParams → Option PathParams
  | [], params => some params
  | (.literal text, value) :: rest, params =>
    if text ≠ value then none else matchLoop rest params
  | (.param name, value) :: rest, params =>
    if !isSafeSegmentValue value then none else matchLoop rest (params ++ [(name, value)])
  | (.wildcard _, _) :: _, _ => none

def wildcardName (segments : List Segment) : Option Bytes :=
  match segments.getLast? with
  | some (.wildcard name) => some name
  | _ => none

/-- The value of a wildcard is the path from the end of the segments before it. -/
def matchSegments (segments : List Segment) (targetSegments : List Bytes) (path : Bytes) :
    Option PathParams :=
  match wildcardName segments with
  | some name =>
    let prefixLen := segments.length - 1
    if targetSegments.length < segments.length then none
    else
      (matchLoop ((segments.take prefixLen).zip (targetSegments.take prefixLen)) []).bind
        fun params =>
          if (targetSegments.drop prefixLen).all isSafeSegmentValue then
            let start := (targetSegments.take prefixLen).foldl
              (fun start segment => start + (segment.length + 1)) 1
            some (params ++ [(name, path.drop start)])
          else none
  | none =>
    if segments.length ≠ targetSegments.length then none
    else matchLoop (segments.zip targetSegments) []

def segmentEquivalent : Segment → Segment → Bool
  | .literal x, .literal y => x == y
  | .param _, .param _ => true
  | .wildcard _, .wildcard _ => true
  | _, _ => false

def segmentsEquivalent (a b : List Segment) : Bool :=
  a.length == b.length && (a.zip b).all fun p => segmentEquivalent p.1 p.2

def renderSegment : Segment → Bytes
  | .literal text => text
  | .param name => ascii "\x7b" ++ name ++ ascii "\x7d"
  | .wildcard name => ascii "\x7b*" ++ name ++ ascii "\x7d"

def renderSegments (segments : List Segment) : Bytes :=
  segments.flatMap fun segment => 47 :: renderSegment segment

def bindSegments : List Segment → List Bytes → Option PathParams
  | [], [] => some []
  | [], _ :: _ => none
  | _ :: _, [] => none
  | .literal text :: segments, value :: values =>
    if text = value then bindSegments segments values else none
  | .param name :: segments, value :: values =>
    if isSafeSegmentValue value then (bindSegments segments values).map ((name, value) :: ·)
    else none
  | [.wildcard name], value :: values =>
    if (value :: values).all isSafeSegmentValue then
      some [(name, join [47] (value :: values))]
    else none
  | .wildcard _ :: _ :: _, _ :: _ => none

theorem matchLoop_params (pairs : List (Segment × Bytes)) (params : PathParams) :
    matchLoop pairs params = (matchLoop pairs []).map (params ++ ·) := by
  induction pairs generalizing params with
  | nil => simp [matchLoop]
  | cons pair rest ih =>
    obtain ⟨segment, value⟩ := pair
    cases segment with
    | literal text =>
      rw [matchLoop, matchLoop]
      split_ifs
      · rfl
      · exact ih params
    | param name =>
      rw [matchLoop, matchLoop]
      split_ifs
      · rfl
      · rw [ih (params ++ [(name, value)]), ih ([] ++ [(name, value)]), Option.map_map]
        congr 1
        funext tail
        simp
    | wildcard name => rfl

theorem wildcardName_tail {segment : Segment} {segments : List Segment}
    (h : wildcardName (segment :: segments) = none) : wildcardName segments = none := by
  cases segments with
  | nil => rfl
  | cons next segments =>
    rw [wildcardName, List.getLast?_cons_cons] at h
    exact h

theorem eq_append_of_wildcardName {segments : List Segment} {name : Bytes}
    (h : wildcardName segments = some name) : ∃ init, segments = init ++ [.wildcard name] := by
  unfold wildcardName at h
  split at h
  · next name' hlast =>
    cases h
    exact List.getLast?_eq_some_iff.mp hlast
  · cases h

theorem matchLoop_zip {segments : List Segment} {values : List Bytes}
    (hlast : wildcardName segments = none) (hlength : segments.length = values.length) :
    matchLoop (segments.zip values) [] = bindSegments segments values := by
  induction segments generalizing values with
  | nil =>
    obtain rfl := List.length_eq_zero_iff.mp hlength.symm
    rfl
  | cons segment segments ih =>
    cases values with
    | nil => cases hlength
    | cons value values =>
      have hlength' : segments.length = values.length := Nat.succ.inj hlength
      have ih := ih (wildcardName_tail hlast) hlength'
      rw [List.zip_cons_cons]
      cases segment with
      | literal text =>
        rw [matchLoop, bindSegments, ih]
        by_cases h : text = value <;> simp [h]
      | param name =>
        rw [matchLoop, bindSegments, matchLoop_params, ih]
        by_cases h : isSafeSegmentValue value = true <;> simp [h]
      | wildcard name =>
        cases segments with
        | nil => cases hlast
        | cons next segments => rfl

theorem bindSegments_length {segments : List Segment} {values : List Bytes}
    (hlast : wildcardName segments = none) (hlength : segments.length ≠ values.length) :
    bindSegments segments values = none := by
  induction segments generalizing values with
  | nil =>
    cases values with
    | nil => exact absurd rfl hlength
    | cons value values => rfl
  | cons segment segments ih =>
    cases values with
    | nil => rfl
    | cons value values =>
      have hlength' : segments.length ≠ values.length := fun h => hlength (congrArg Nat.succ h)
      have ih := ih (wildcardName_tail hlast) hlength'
      cases segment with
      | literal text => simp [bindSegments, ih]
      | param name => simp [bindSegments, ih]
      | wildcard name =>
        cases segments with
        | nil => cases hlast
        | cons next segments => rfl

/-- With a wildcard it binds those before it, and the wildcard the rest. -/
theorem bindSegments_wildcard (init : List Segment) (name : Bytes) (values : List Bytes) :
    bindSegments (init ++ [.wildcard name]) values =
      if values.length < init.length + 1 then none
      else (matchLoop (init.zip (values.take init.length)) []).bind fun params =>
        if (values.drop init.length).all isSafeSegmentValue then
          some (params ++ [(name, join [47] (values.drop init.length))])
        else none := by
  induction init generalizing values with
  | nil =>
    cases values with
    | nil => rfl
    | cons value values => simp [bindSegments, matchLoop]
  | cons segment init ih =>
    cases values with
    | nil => rfl
    | cons value values =>
      have ih := ih values
      rw [List.length_cons, List.length_cons, List.take_succ_cons, List.drop_succ_cons,
        List.zip_cons_cons, List.cons_append]
      simp only [Nat.add_lt_add_iff_right]
      cases segment with
      | literal text =>
        rw [bindSegments, matchLoop, ih]
        by_cases h : text = value <;> simp [h]
      | param pname =>
        rw [bindSegments, matchLoop, matchLoop_params, ih]
        by_cases h : isSafeSegmentValue value = true
        · by_cases hlength : values.length < init.length + 1
          · simp [h, hlength]
          · rw [if_pos h, if_neg hlength, if_neg hlength, if_neg (by simp [h])]
            cases matchLoop (init.zip (values.take init.length)) [] with
            | none => rfl
            | some params =>
              by_cases hsafe : (values.drop init.length).all isSafeSegmentValue = true <;>
                simp [hsafe]
        · simp [h]
      | wildcard wname =>
        have hnone : bindSegments (.wildcard wname :: (init ++ [.wildcard name])) (value :: values) =
            none := by
          cases init <;> rfl
        rw [hnone, matchLoop]
        simp

theorem drop_join_after (before : Bytes) {values : List Bytes} {k : ℕ} (hk : k < values.length) :
    (before ++ 47 :: join [47] values).drop ((values.take k).foldl
      (fun start segment => start + (segment.length + 1)) (before.length + 1)) =
      join [47] (values.drop k) := by
  induction k generalizing before values with
  | zero =>
    rw [List.take_zero, List.foldl_nil, List.drop_append]
    simp
  | succ k ih =>
    cases values with
    | nil => exact absurd hk (Nat.not_lt_zero _)
    | cons value values =>
      cases values with
      | nil => exact absurd hk (by simp)
      | cons next values =>
        have hlength : before.length + 1 + (value.length + 1) =
            (before ++ 47 :: value).length + 1 := by
          rw [List.length_append, List.length_cons]
          omega
        have hjoin : before ++ 47 :: join [47] (value :: next :: values) =
            (before ++ 47 :: value) ++ 47 :: join [47] (next :: values) := by simp [join]
        rw [List.take_succ_cons, List.foldl_cons, List.drop_succ_cons, hlength, hjoin]
        exact ih _ (Nat.lt_of_succ_lt_succ hk)

theorem drop_join {values : List Bytes} {k : ℕ} (hk : k < values.length) :
    (47 :: join [47] values).drop
      ((values.take k).foldl (fun start segment => start + (segment.length + 1)) 1) =
      join [47] (values.drop k) :=
  drop_join_after [] hk

theorem join_eq_intercalate (values : List Bytes) : join [47] values = [47].intercalate values := by
  induction values with
  | nil => rfl
  | cons value values ih =>
    cases values with
    | nil => simp [join]
    | cons next values => rw [join, ih, List.intercalate_cons_cons]; simp

theorem join_requestTargetSegments {path : Bytes} {values : List Bytes}
    (h : requestTargetSegments path = some values) : path = 47 :: join [47] values := by
  unfold requestTargetSegments at h
  split at h
  · next stripped =>
    cases h
    split_ifs with hnil
    · rw [hnil]
      rfl
    · rw [join_eq_intercalate, List.intercalate_splitOn]
  · cases h

theorem matchSegments_eq_bindSegments {path : Bytes} {values : List Bytes}
    (h : requestTargetSegments path = some values) (segments : List Segment) :
    matchSegments segments values path = bindSegments segments values := by
  unfold matchSegments
  cases hlast : wildcardName segments with
  | none =>
    by_cases hlength : segments.length = values.length
    · rw [if_neg (not_not.mpr hlength), matchLoop_zip hlast hlength]
    · rw [if_pos hlength, bindSegments_length hlast hlength]
  | some name =>
    obtain ⟨init, rfl⟩ := eq_append_of_wildcardName hlast
    have hinit : (init ++ [Segment.wildcard name]).length - 1 = init.length := by simp
    have htake : (init ++ [Segment.wildcard name]).take init.length = init := List.take_left
    rw [bindSegments_wildcard, join_requestTargetSegments h]
    dsimp only
    rw [hinit, htake, List.length_append, List.length_singleton]
    by_cases hlength : values.length < init.length + 1
    · rw [if_pos hlength, if_pos hlength]
    · rw [if_neg hlength, if_neg hlength, drop_join (by omega)]

end FandheBackend.RoutesPattern
