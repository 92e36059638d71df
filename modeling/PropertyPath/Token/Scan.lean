import PropertyPath.Token.Reading

/-!
# Scanning

The tokens of a whole text. `scan` lays the lexemes that `read` answers with end to end, from a
given position on, so there is one number for where a token begins and one for what was read. The
lexer, which goes through the text with counts of bytes and of characters, finds the same tokens
(`Lexer.tokens?_eq_tokensOf`). The last token, and no other, is the end of the path or the misfit at
which the scan stopped.

Every token makes the text shorter, except an empty key; but behind a key a closing parenthesis is
expected, and that is never empty.
-/

namespace PropertyPath

/-- How long a wait can go on without text being consumed. Only a key can be empty, and a closing
parenthesis is expected behind it. -/
def Expecting.weight : Expecting → Nat
  | .key => 1
  | _ => 0

section OfRead

variable {expecting next : Expecting} {text lexeme rest : List Char} {kind : TokenKind}

theorem lexeme_ne_nil_or_key (h : read expecting text = .token kind lexeme rest next) :
    lexeme ≠ [] ∨ expecting = .key ∧ next = .closeParen := by
  cases expecting with
  | segment => cases text <;> grind [read, Reading.segment]
  | name => cases text <;> grind [read, Reading.name]
  | integer => grind [read, Reading.integer, Text.IntegerLiteral.chars]
  | closeBracket => cases text <;> grind [read, Reading.closeBracket]
  | key => grind [read, Reading.key]
  | closeParen => cases text <;> grind [read, Reading.closeParen]

/-- Reading a token makes the text shorter, or ends the wait for a key. -/
theorem weight_lt_of_read (h : read expecting text = .token kind lexeme rest next) :
    2 * rest.length + next.weight < 2 * text.length + expecting.weight := by
  have length_eq : lexeme.length + rest.length = text.length := by
    rw [← List.length_append, lexeme_append_rest h]
  rcases lexeme_ne_nil_or_key h with ne | ⟨rfl, rfl⟩
  · have pos := List.length_pos_iff.mpr ne
    have le : next.weight ≤ 1 := by cases next <;> simp [Expecting.weight]
    omega
  · simp only [Expecting.weight]
    omega

end OfRead

/-- The tokens of a text that begins at a position. -/
def scan (expecting : Expecting) (text : List Char) (position : Nat) : List Token :=
  match _h : read expecting text with
  | .token kind lexeme rest next =>
    ⟨kind, position, position + lexeme.length⟩ :: scan next rest (position + lexeme.length)
  | .endOfPath => [⟨.endOfPath, position, position⟩]
  | .misfit fault consumed column =>
    [⟨.misfit fault (position + column), position, position + consumed.length⟩]
termination_by 2 * text.length + expecting.weight
decreasing_by exact weight_lt_of_read _h

section ScanEquations

variable {expecting next : Expecting} {text lexeme rest consumed : List Char} {kind : TokenKind}
  {fault : Misfit} {column : Nat} (position : Nat)

theorem scan_of_token (h : read expecting text = .token kind lexeme rest next) :
    scan expecting text position
      = ⟨kind, position, position + lexeme.length⟩
        :: scan next rest (position + lexeme.length) := by
  rw [scan]
  split <;> simp_all

theorem scan_of_endOfPath (h : read expecting text = .endOfPath) :
    scan expecting text position = [⟨.endOfPath, position, position⟩] := by
  rw [scan]
  split <;> simp_all

theorem scan_of_misfit (h : read expecting text = .misfit fault consumed column) :
    scan expecting text position
      = [⟨.misfit fault (position + column), position, position + consumed.length⟩] := by
  rw [scan]
  split <;> simp_all

end ScanEquations

/-- What a path begins with: a suffix, or else a name. -/
def Expecting.atStart : List Char → Expecting
  | c :: _ => if c = '[' ∨ c = '(' then .segment else .name
  | [] => .name

/-- The tokens of a text, with spans counted from `offset`. -/
def tokensOf (text : List Char) (offset : Nat) : List Token :=
  scan (.atStart text) text offset

/-- A row of tokens, or the misfit at its end. -/
def rowOrFault (tokens : List Token) : Except Fault (List Token) :=
  match tokens.getLast?.map Token.kind with
  | some (.misfit fault position) => .error (.malformed fault position)
  | _ => .ok tokens

/-- The tokens of a text, or the misfit at which the scan stopped. -/
def tokensOrFault (text : List Char) (offset : Nat) : Except Fault (List Token) :=
  rowOrFault (tokensOf text offset)

end PropertyPath
