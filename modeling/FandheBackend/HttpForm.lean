import FandheBackend.StdBytes
import FandheBackend.Utf8Text

set_option autoImplicit false

/-!
# Forms (`percent.rs`, `query.rs` and `form.rs` of `crates/http/src`)

A body is cut at `&` and each segment at its first `=`; only then are the two components
decoded, `+` before the escapes. Positions in errors count bytes of the component.
-/
namespace FandheBackend.HttpForm
open StdBytes

inductive PercentDecodeError where
  | truncatedEscape (pos : ℕ)
  | invalidHexDigit (pos : ℕ)
  | invalidUtf8
  deriving DecidableEq, Repr

def hexValue (b : UInt8) : Option UInt8 :=
  if 48 ≤ b && b ≤ 57 then some (b - 48)
  else if 65 ≤ b && b ≤ 70 then some (b - 65 + 10)
  else if 97 ≤ b && b ≤ 102 then some (b - 97 + 10)
  else none

/-- The loop of `decode_bytes` from the position `pos` on. -/
def decodeBytesFrom (pos : ℕ) : Bytes → Except PercentDecodeError Bytes
  | [] => .ok []
  | b :: rest =>
    if b = 37 then
      match rest with
      | hi :: lo :: rest =>
        match hexValue hi with
        | none => .error (.invalidHexDigit (pos + 1))
        | some hiV =>
          match hexValue lo with
          | none => .error (.invalidHexDigit (pos + 2))
          | some loV => (decodeBytesFrom (pos + 3) rest).map ((hiV <<< 4 ||| loV) :: ·)
      | _ => .error (.truncatedEscape pos)
    else (decodeBytesFrom (pos + 1) rest).map (b :: ·)

def decodeBytes (input : Bytes) : Except PercentDecodeError Bytes := decodeBytesFrom 0 input

def decodeStr (input : Bytes) : Except PercentDecodeError Bytes :=
  match decodeBytes input with
  | .error e => .error e
  | .ok bytes => if (Utf8Text.decode bytes).isSome then .ok bytes else .error .invalidUtf8

inductive QueryError where
  | queryTooLong
  | tooManyPairs
  deriving DecidableEq, Repr

/-- `str::split_once` for a single character. -/
def splitOnce (b : UInt8) (s : Bytes) : Option (Bytes × Bytes) :=
  (s.findIdx? (· == b)).map fun i => (s.take i, s.drop (i + 1))

structure QueryPairs where
  remainder : Bytes
  deriving DecidableEq

def parseQueryWithLimits (query : Bytes) (maxBytes maxPairs : ℕ) : Except QueryError QueryPairs :=
  if query.length > maxBytes then .error .queryTooLong
  else if ((query.splitOn 38).filter fun seg => !seg.isEmpty).length > maxPairs then
    .error .tooManyPairs
  else .ok ⟨query⟩

namespace QueryPairs

/-- The segment in front of the next `&`, and what is left after it. -/
def segment (remainder : Bytes) : Bytes × Bytes := (splitOnce 38 remainder).getD (remainder, [])

def keyValue (segment : Bytes) : Bytes × Bytes := (splitOnce 61 segment).getD (segment, [])

theorem segment_length {remainder : Bytes} (h : remainder ≠ []) :
    (segment remainder).2.length < remainder.length := by
  unfold segment splitOnce
  cases hidx : remainder.findIdx? (· == 38) with
  | none => exact List.length_pos_iff.mpr h
  | some i =>
    have hlt := (List.findIdx?_eq_some_iff_getElem.mp hidx).1
    simp only [Option.map_some, Option.getD_some, List.length_drop]
    omega

/-- The iterator's loop skips the empty segments. -/
def next (q : QueryPairs) : Option ((Bytes × Bytes) × QueryPairs) :=
  if _h : q.remainder = [] then none
  else if (segment q.remainder).1 = [] then next ⟨(segment q.remainder).2⟩
  else some (keyValue (segment q.remainder).1, ⟨(segment q.remainder).2⟩)
termination_by q.remainder.length
decreasing_by exact segment_length (by assumption)

theorem next_length {q q' : QueryPairs} {pair : Bytes × Bytes} (h : q.next = some (pair, q')) :
    q'.remainder.length < q.remainder.length := by
  fun_induction next q with
  | case1 q hnil => cases h
  | case2 q hne hseg ih => exact (ih h).trans (segment_length hne)
  | case3 q hne hseg =>
    cases h
    exact segment_length hne

def toList (q : QueryPairs) : List (Bytes × Bytes) :=
  match _ : q.next with
  | none => []
  | some (pair, q') => pair :: toList q'
termination_by q.remainder.length
decreasing_by exact next_length (by assumption)

end QueryPairs

structure FormLimits where
  maxBytes : ℕ
  maxPairs : ℕ
  deriving DecidableEq

def FormLimits.default : FormLimits := ⟨8 * 1024, 256⟩

inductive FormError where
  | bodyTooLong
  | tooManyPairs
  | invalidUtf8Body
  | decode (e : PercentDecodeError)
  deriving DecidableEq, Repr

def FormError.fromQuery : QueryError → FormError
  | .queryTooLong => .bodyTooLong
  | .tooManyPairs => .tooManyPairs

def decodeFormComponent (component : Bytes) : Except PercentDecodeError Bytes :=
  decodeStr (component.map fun b => if b = 43 then 32 else b)

def decodePair (pair : Bytes × Bytes) : Except FormError (Bytes × Bytes) :=
  match decodeFormComponent pair.1 with
  | .error e => .error (.decode e)
  | .ok key =>
    match decodeFormComponent pair.2 with
    | .error e => .error (.decode e)
    | .ok value => .ok (key, value)

def parseFormWithLimit (body : Bytes) (limits : FormLimits) :
    Except FormError (List (Bytes × Bytes)) :=
  if body.length > limits.maxBytes then .error .bodyTooLong
  else if (Utf8Text.decode body).isNone then .error .invalidUtf8Body
  else match parseQueryWithLimits body limits.maxBytes limits.maxPairs with
    | .error e => .error (.fromQuery e)
    | .ok pairs => pairs.toList.mapM decodePair

end FandheBackend.HttpForm
