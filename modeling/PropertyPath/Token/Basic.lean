import PropertyPath.Fault

/-!
# Tokens

The lexical units of the text of a path. A token remembers the span of text it was read from, in
characters of the caller's text. The last token of a scan is the end of the path, or the misfit at
which the scan stopped.
-/

namespace PropertyPath

inductive TokenKind where
  | endOfPath
  | misfit (fault : Misfit) (position : Nat)
  | dot
  | name (text : String)
  | openBracket
  | index (value : Int64)
  | closeBracket
  | openParen
  | key (text : String)
  | closeParen
deriving DecidableEq, Repr

/-- How a token is quoted in messages. -/
def TokenKind.text : TokenKind → String
  | .endOfPath => "'end of path'"
  | .misfit fault position => "error: " ++ fault.message position
  | .dot => "'.'"
  | .name text => "'" ++ text ++ "'"
  | .openBracket => "'['"
  | .index value => toString value
  | .closeBracket => "']'"
  | .openParen => "'('"
  | .key text => "'" ++ text ++ "'"
  | .closeParen => "')'"

/-- A token and its span: the position of its first character, and the position behind its last
one. -/
structure Token where
  kind : TokenKind
  start : Nat
  stop : Nat
deriving DecidableEq, Repr

end PropertyPath
