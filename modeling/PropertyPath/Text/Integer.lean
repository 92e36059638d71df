/-!
# Integer literals

An integer literal is an optional minus sign followed by `0` or by a run of digits that does not
start with `0`. Reading one is greedy and never fails: a literal without digits is what is left
when the text does not start with an integer. A `0` ends the literal, so `01` reads as `0` with
`1` left over.

The value of a literal is an exact integer; whether it fits the 64-bit range is asked separately,
by `int64?`.
-/

namespace PropertyPath

/-- The signed word of an integer, if it has one. -/
def int64? (value : Int) : Option Int64 :=
  if Int64.minValue.toInt ≤ value ∧ value ≤ Int64.maxValue.toInt then some (Int64.ofInt value)
  else none

namespace Text

/-- An integer as it is written: its sign, and its digits without leading zeros. -/
structure IntegerLiteral where
  negative : Bool
  digits : List Char
deriving DecidableEq, Repr

namespace IntegerLiteral

/-- The characters of the literal. -/
def chars (literal : IntegerLiteral) : List Char :=
  (if literal.negative then ['-'] else []) ++ literal.digits

def value (literal : IntegerLiteral) : Int :=
  let magnitude : Int := Nat.ofDigitChars 10 literal.digits 0
  if literal.negative then -magnitude else magnitude

end IntegerLiteral

/-- The longest run of digits without a leading zero at the front of the text, and what follows
it. -/
def splitDigits : List Char → List Char × List Char
  | [] => ([], [])
  | c :: rest =>
    if c = '0' then (['0'], rest)
    else if c.isDigit then (c :: rest.takeWhile Char.isDigit, rest.dropWhile Char.isDigit)
    else ([], c :: rest)

/-- The longest integer literal at the front of the text, and what follows it. -/
def splitInteger (text : List Char) : IntegerLiteral × List Char :=
  match text with
  | '-' :: rest => (⟨true, (splitDigits rest).1⟩, (splitDigits rest).2)
  | rest => (⟨false, (splitDigits rest).1⟩, (splitDigits rest).2)

theorem splitDigits_append (text : List Char) :
    (splitDigits text).1 ++ (splitDigits text).2 = text := by
  fun_cases splitDigits text <;> simp_all

theorem splitInteger_append (text : List Char) :
    (splitInteger text).1.chars ++ (splitInteger text).2 = text := by
  fun_cases splitInteger text <;> simp [IntegerLiteral.chars, splitDigits_append]

end Text

end PropertyPath
