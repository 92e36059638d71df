import PropertyPath.Token.Basic

/-!
# Segments of a row of tokens

A name followed by a suffix owns that suffix; a name followed by anything else is a plain
property, and a suffix that no name owns is a segment of its own. Any row of tokens is accepted as
an argument, also one that no text is scanned to: a token out of place is a fault reported where
the grammar is first broken. A row that has run out reads like one that has come to the end of the
path at position 0.
-/

namespace PropertyPath

namespace Token

/-- Where the next token begins. -/
def nextStart : List Token → Nat
  | [] => 0
  | token :: _ => token.start

/-- Whether a suffix follows. -/
def opensSuffix : List Token → Bool
  | ⟨.openBracket, _, _⟩ :: _ | ⟨.openParen, _, _⟩ :: _ => true
  | _ => false

/-- Whether a name follows. -/
def startsWithName : List Token → Bool
  | ⟨.name _, _, _⟩ :: _ => true
  | _ => false

end Token

/-- The segments of a row of tokens up to the end of the path, where `owner` is the name that owns
a suffix at the front of the row. -/
def segmentsOfTokens (owner : Option String) : List Token → Except Fault (List Segment)
  | [] => .ok []
  | ⟨kind, start, stop⟩ :: tokens =>
    match kind with
    | .endOfPath => .ok []
    | .dot =>
      if Token.startsWithName tokens then segmentsOfTokens none tokens
      else .error (.malformed .nameExpected stop)
    | .name text =>
      if Token.opensSuffix tokens then segmentsOfTokens (some text) tokens
      else (segmentsOfTokens none tokens).map (.property text :: ·)
    | .openBracket =>
      match tokens with
      | ⟨.index value, _, _⟩ :: closing =>
        match closing with
        | ⟨.closeBracket, _, _⟩ :: rest =>
          (segmentsOfTokens none rest).map (.index owner value :: ·)
        | _ => .error (.malformed .bracketMissing (Token.nextStart closing))
      | _ => .error (.malformed .integerExpected stop)
    | .openParen =>
      match tokens with
      | ⟨.key text, _, _⟩ :: closing =>
        match closing with
        | ⟨.closeParen, _, _⟩ :: rest =>
          (segmentsOfTokens none rest).map (.keyed owner text :: ·)
        | _ => .error (.malformed .parenMissing (Token.nextStart closing))
      | _ => .error (.malformed .parenMissing (Token.nextStart tokens))
    | _ => .error (.malformed (.unexpectedToken kind.text) start)

end PropertyPath
