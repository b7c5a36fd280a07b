import FandheBackend.ExceptChecks
import FandheBackend.StdBytes

set_option autoImplicit false

namespace FandheBackend.WsPathPattern
open StdBytes ExceptChecks

def maxPatternSegments : ℕ := 32
def maxSegmentBytes : ℕ := 256

inductive PathPatternError where
  | missingLeadingSlash
  | emptyParamName
  | invalidParamName (name : Bytes)
  | mixedSegment (segment : Bytes)
  | duplicateParamName (name : Bytes)
  | emptySegment
  | tooManySegments
  | segmentTooLong
  deriving DecidableEq

inductive Segment where
  | literal (text : Bytes)
  | param (name : Bytes)
  deriving DecidableEq

/-- `PathPattern`, by its `PatternKind`. -/
inductive PathPattern where
  | exact (path : Bytes)
  | segments (pieces : List Segment)
  deriving DecidableEq

/-- Names and values, in the order of the pattern. -/
abbrev PathParams := List (Bytes × Bytes)

def isNameByte (b : UInt8) : Bool := isAsciiAlphanumeric b || b == 95

/-- `{name}`, by what is between the braces. -/
def parseParam (seenNames : List Bytes) (raw : Bytes) : Except PathPatternError Segment := do
  let name := (raw.drop 1).dropLast
  rejectIf (name = []) .emptyParamName
  rejectIf (name.all isNameByte = false) (.invalidParamName name)
  rejectIf (name ∈ seenNames) (.duplicateParamName name)
  return .param name

def parseSegment (seenNames : List Bytes) (raw : Bytes) : Except PathPatternError Segment :=
  if raw = [] then .error .emptySegment
  else if maxSegmentBytes < raw.length then .error .segmentTooLong
  else if raw.head? = some 123 ∧ raw.getLast? = some 125 ∧ 2 ≤ raw.length then
    parseParam seenNames raw
  else if raw.contains 123 || raw.contains 125 then .error (.mixedSegment raw)
  else .ok (.literal raw)

def Segment.names : Segment → List Bytes
  | .literal _ => []
  | .param name => [name]

def parseLoop : List Bytes → List Segment → List Bytes → Except PathPatternError (List Segment)
  | [], segments, _ => .ok segments
  | raw :: rest, segments, seenNames => do
    let segment ← parseSegment seenNames raw
    parseLoop rest (segments ++ [segment]) (seenNames ++ segment.names)

/-- A pattern without braces is not looked at any further. -/
def PathPattern.parse (pattern : Bytes) : Except PathPatternError PathPattern :=
  if !pattern.contains 123 && !pattern.contains 125 then .ok (.exact pattern)
  else do
    rejectIf (pattern.head? ≠ some 47) .missingLeadingSlash
    let rawSegments := (pattern.drop 1).splitOn 47
    rejectIf (maxPatternSegments < rawSegments.length) .tooManySegments
    let segments ← parseLoop rawSegments [] []
    return .segments segments

def isSafeSegmentValue (value : Bytes) : Bool :=
  !value.isEmpty && value != ascii "." && value != ascii ".." && !value.contains 63 &&
    !value.contains 35 && decide (value.length ≤ maxSegmentBytes)

/-- The loop of `match_segments` over the pieces of the path that are left. -/
def matchSegmentsLoop : List Segment → List Bytes → PathParams → Option PathParams
  | [], [], params => some params
  | [], _ :: _, _ => none
  | _ :: _, [], _ => none
  | .literal text :: segments, value :: values, params =>
    if text ≠ value then none else matchSegmentsLoop segments values params
  | .param name :: segments, value :: values, params =>
    if !isSafeSegmentValue value then none
    else matchSegmentsLoop segments values (params ++ [(name, value)])

def matchSegments (segments : List Segment) : Bytes → Option PathParams
  | 47 :: stripped => matchSegmentsLoop segments (stripped.splitOn 47) []
  | _ => none

def PathPattern.matchPath : PathPattern → Bytes → Option PathParams
  | .exact expected, path => if path = expected then some [] else none
  | .segments pieces, path => matchSegments pieces path

end FandheBackend.WsPathPattern
