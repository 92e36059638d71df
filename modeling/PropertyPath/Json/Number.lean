import PropertyPath.Text.Integer

/-!
# Numbers of a document

A number of a JSON document is an integer if it is written without a point and without an exponent
and fits a 64-bit word, signed or unsigned; any other number is a double, the one nearest to what
is written. What lies beyond the doubles is no number.
-/

namespace PropertyPath

inductive JsonNumber where
  | integer (value : Int)
  | double (value : Float)

namespace JsonNumber

/-- The integers that a document keeps exactly. -/
def isExact (value : Int) : Bool :=
  Int64.minValue.toInt ≤ value ∧ value < UInt64.size

/-! ## Literals -/

/-- A number as it is written: the sign, the digits before the point, and, where they are written,
the digits after the point and the exponent. -/
structure Literal where
  negative : Bool
  whole : List Char
  fraction : Option (List Char)
  exponent : Option Int

namespace Literal

/-- The digits on both sides of the point. -/
def digits (literal : Literal) : List Char :=
  literal.whole ++ literal.fraction.getD []

/-- The digits read without the point: the magnitude is this many times `10 ^ scale`. -/
def significand (literal : Literal) : Nat :=
  Nat.ofDigitChars 10 literal.digits 0

/-- The power of ten that the last digit counts. -/
def scale (literal : Literal) : Int :=
  literal.exponent.getD 0 - (literal.fraction.getD []).length

/-- Whether a literal is written as an integer. -/
def isWhole (literal : Literal) : Bool :=
  literal.fraction.isNone && literal.exponent.isNone

/-- The integer that the digits stand for, with their sign. -/
def toInt (literal : Literal) : Int :=
  if literal.negative then -literal.significand else literal.significand

/-- The scale, cut to the range where it decides the double: a multiple of `10 ^ 400` is zero or
beyond every double, and a magnitude below `10 ^ (-400)` is nearest to zero. -/
def cutScale (literal : Literal) : Int :=
  max (-(literal.digits.length + 400)) (min literal.scale 400)

/-- The double nearest to the literal; it is infinite where the literal is beyond the doubles. -/
def toFloat (literal : Literal) : Float :=
  let scale := literal.cutScale
  let magnitude := Float.ofScientific literal.significand (scale < 0) scale.natAbs
  if literal.negative then -magnitude else magnitude

end Literal

/-- The number that a literal stands for. -/
def ofLiteral? (literal : Literal) : Option JsonNumber :=
  if literal.isWhole && isExact literal.toInt then some (.integer literal.toInt)
  else if literal.toFloat.isInf then none
  else some (.double literal.toFloat)

/-! ## Reading as a scalar -/

/-- The number as a signed word: only an integer in range has one. -/
def int64? : JsonNumber → Option Int64
  | .integer value => PropertyPath.int64? value
  | .double _ => none

/-- The double nearest to the number. -/
def toFloat : JsonNumber → Float
  | .integer value => Float.ofInt value
  | .double value => value

end JsonNumber

end PropertyPath
