import PropertyPath.Path.Basic

/-!
# Faults

Everything that can go wrong, by cause. A fault is one of four kinds: the caller passed something
unusable, the text of a path does not fit the grammar, a value in the middle of a path is missing,
or a suffix was applied to a value of another shape. The wording of each cause is given in one
place, `Fault.message`; a caller's own wording is the `other` cause of its kind.
-/

namespace PropertyPath

/-- The shape that a suffix asks of a value. -/
inductive Shape where
  | arrayLike
  | mapLike
deriving DecidableEq, Repr

def Shape.phrase : Shape → String
  | .arrayLike => "an array-like"
  | .mapLike => "a map-like"

/-- Why something the caller passed cannot be used. -/
inductive ArgumentFault where
  /-- The text of the path is blank. -/
  | pathRequired
  /-- The text of the path starts or ends with a dot. -/
  | dotBounded
  /-- There are no segments to build a path from. -/
  | noSegments
  /-- A segment made by hand has a name that cannot be written. -/
  | invalidName (name : String)
  /-- A segment made by hand has a key that cannot be written. -/
  | keyHasParen (key : String)
  /-- A suffix without a name stands behind a plain property. -/
  | nameNeeded (segment : Segment)
  /-- The value to start from is nil. -/
  | objectRequired
  | other (text : String)
deriving DecidableEq, Repr

def ArgumentFault.message : ArgumentFault → String
  | .pathRequired => "path is required"
  | .dotBounded => "path should not start nor end with a dot"
  | .noSegments => "a path needs at least one segment"
  | .invalidName name => "`" ++ name ++ "` is not a valid property name"
  | .keyHasParen key => "key `" ++ key ++ "` can't contain `)`"
  | .nameNeeded segment =>
    "segment `" ++ segment.text ++ "` needs a name when it follows a plain property"
  | .objectRequired => "object is required"
  | .other text => text

/-- What did not fit the grammar. -/
inductive Misfit where
  | nameExpected
  | integerExpected
  /-- An index is an integer, but not one of 64 bits. -/
  | integerOutOfRange
  | bracketMissing
  | parenMissing
  | unexpectedChar (c : Char)
  /-- A token stands where none of its kind can. -/
  | unexpectedToken (token : String)
  | other (text : String)
deriving DecidableEq, Repr

/-- The wording of a misfit found at a position. An integer that is too large is worded like no
integer at all. The lexer words its misfits apart from the positions it reports, and
`Lexer.tokens?_eq_tokensOf` says that both come to the same. -/
def Misfit.message (position : Nat) : Misfit → String
  | .nameExpected => "expected name" ++ place
  | .integerExpected | .integerOutOfRange => "could not parse index as integer" ++ place
  | .bracketMissing => "missing `]`" ++ place
  | .parenMissing => "missing `)`" ++ place
  | .unexpectedChar c => "unexpected token `" ++ c.toString ++ "`" ++ place
  | .unexpectedToken token => "unexpected token " ++ token ++ place
  | .other text => text
where
  place : String := " at position " ++ toString position

/-- How a path and a value disagree about shape. -/
inductive TypeFault where
  /-- The value called `name`, or the current value itself, is not of the shape asked for. -/
  | mismatch (name : Option String) (expected : Shape) (actual : String)
  | other (text : String)
deriving DecidableEq, Repr

def TypeFault.message : TypeFault → String
  | .mismatch name expected actual =>
    (match name with
      | some name => "property `" ++ name ++ "`"
      | none => "value") ++
    " is expected to be " ++ expected.phrase ++ ", got `" ++ actual ++ "` instead"
  | .other text => text

inductive Fault where
  | argument (fault : ArgumentFault)
  /-- The text of a path does not fit at a position, counted in characters of the caller's text. -/
  | malformed (fault : Misfit) (position : Nat)
  /-- The segment written `segment` of the path written `path` led to nothing, and more
  segments follow. -/
  | noSuchProperty (segment path : String)
  | type (fault : TypeFault)
deriving DecidableEq, Repr

inductive FaultKind where
  | argument
  | malformed
  | noSuchProperty
  | type
deriving DecidableEq, Repr

/-- The heading under which faults of a kind are displayed. -/
def FaultKind.heading : FaultKind → String
  | .argument => "argument error"
  | .malformed => "syntax error"
  | .noSuchProperty => "no such property"
  | .type => "type error"

/-- The name of a kind of fault. -/
def FaultKind.label : FaultKind → String
  | .argument => "ArgumentError"
  | .malformed => "SyntaxError"
  | .noSuchProperty => "NoSuchProperty"
  | .type => "TypeError"

namespace Fault

def kind : Fault → FaultKind
  | .argument _ => .argument
  | .malformed _ _ => .malformed
  | .noSuchProperty _ _ => .noSuchProperty
  | .type _ => .type

def message : Fault → String
  | .argument fault => fault.message
  | .malformed fault position => fault.message position
  | .noSuchProperty segment path =>
    "unexpected nil value for property `" ++ segment ++ "` in path `" ++ path ++ "`"
  | .type fault => fault.message

/-- Where the text of a path does not fit; other faults have no position. -/
def position? : Fault → Option Nat
  | .malformed _ position => some position
  | _ => none

/-- The message under the heading of its kind. -/
def display (fault : Fault) : String := fault.kind.heading ++ ": " ++ fault.message

end Fault

end PropertyPath
