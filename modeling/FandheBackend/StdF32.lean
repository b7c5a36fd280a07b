import FandheBackend.FloatRounding
import FandheBackend.StdBytes

set_option autoImplicit false

/-!
# `f32::from_str` of the standard library

A literal is read by its documented grammar as an exact number, and that number is rounded to
the nearest value. The two zeros are one value here: no comparison tells them apart.
-/
namespace FandheBackend.StdF32
open StdBytes FloatRounding

def f32Format : BinaryFormat :=
  { precision := 24
    minExponent := -149
    maxExponent := 128 }

inductive F32 where
  | nan
  | number (value : Rounded)
  deriving DecidableEq

def splitSign : Bytes → Bool × Bytes
  | 45 :: rest => (true, rest)
  | 43 :: rest => (false, rest)
  | text => (false, text)

def signed (negative : Bool) (x : ℚ) : ℚ := if negative then -x else x

/-- `e`, a sign and digits; nothing is the exponent zero. -/
def parseExponent : Bytes → Option ℤ
  | [] => some 0
  | c :: rest =>
    if toAsciiLowercase c == 101 then
      let (negative, digits) := splitSign rest
      if digits.isEmpty || !digits.all isAsciiDigit then none
      else if negative then some (-(digitsValue 10 digits : ℤ))
      else some (digitsValue 10 digits)
    else none

def splitFraction : Bytes → Bytes × Bytes
  | 46 :: rest => (rest.takeWhile isAsciiDigit, rest.dropWhile isAsciiDigit)
  | text => ([], text)

def parseNumber (text : Bytes) : Option ℚ :=
  let whole := text.takeWhile isAsciiDigit
  let (fraction, rest) := splitFraction (text.dropWhile isAsciiDigit)
  if whole.isEmpty && fraction.isEmpty then none
  else (parseExponent rest).map fun exponent : ℤ =>
    (digitsValue 10 (whole ++ fraction) : ℚ) * 10 ^ (exponent - fraction.length)

/-- The exact number of a literal; `inf` and `nan` have none. -/
def literalValue (text : Bytes) : Option ℚ :=
  let (negative, rest) := splitSign text
  (parseNumber rest).map (signed negative)

def f32FromStr (text : Bytes) : Option F32 :=
  match literalValue text with
  | some x => some (.number (f32Format.round x))
  | none =>
    let (negative, rest) := splitSign text
    if eqIgnoreAsciiCase rest (ascii "inf") || eqIgnoreAsciiCase rest (ascii "infinity") then
      some (.number (.infinite negative))
    else if eqIgnoreAsciiCase rest (ascii "nan") then some .nan
    else none

end FandheBackend.StdF32
