import PropertyPath.Path.Basic
import PropertyPath.Path.OfTokens
import PropertyPath.Text.WhiteSpace
import PropertyPath.Token.Scan

/-!
# The path written in a text

White space around a path is ignored. A blank text, or one that starts or ends with a dot, is
refused before it is scanned; everything else that does not fit the grammar is a misfit, reported
at a position in the caller's text, white space included.
-/

namespace PropertyPath

namespace Path

/-- The path of the tokens of a text. -/
def ofTokens (tokens : List Token) : Except Fault Path :=
  match segmentsOfTokens none tokens with
  | .error fault => .error fault
  | .ok [] => .error (.argument .pathRequired)
  | .ok (first :: rest) => .ok ⟨first :: rest⟩

/-- Whether a text starts or ends with a dot. -/
def isDotBounded (text : List Char) : Bool :=
  text.head? = some '.' || text.getLast? = some '.'

/-- The path written in a text without white space around it, where the caller's text has `offset`
characters in front of it. -/
def parseTrimmed (text : List Char) (offset : Nat) : Except Fault Path :=
  if text = [] then .error (.argument .pathRequired)
  else if isDotBounded text then .error (.argument .dotBounded)
  else (tokensOrFault text offset).bind ofTokens

/-- The path written in a text. -/
def parse (text : String) : Except Fault Path :=
  parseTrimmed (Text.trim text.toList) (Text.indent text.toList)

end Path

end PropertyPath
