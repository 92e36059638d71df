import PropertyPath.Path.Basic
import PropertyPath.Text.Integer
import PropertyPath.Token.Basic

/-!
# Reading one token

A text is cut into tokens from left to right. At every point one kind of thing is expected, and
`read` looks at the text that is left and answers with one token, the end of the path, or a misfit.
It knows nothing of positions: a misfit says how much text was read before it was noticed, and how
far into that text it is to be reported. That is the reading position, except for an integer
outside the 64-bit range, which is reported where it begins.

Whatever is read splits the text (`splits_read`): a token and what follows it are the text, and
what a misfit consumed is the front of it, so nothing is skipped or looked at twice.
-/

namespace PropertyPath

/-- What the scanner expects next. -/
inductive Expecting where
  /-- A dot, a suffix or the end. -/
  | segment
  | name
  | integer
  | closeBracket
  | key
  | closeParen
deriving DecidableEq, Repr

/-- What the scanner finds at the front of a text. -/
inductive Reading where
  /-- A token, the text it stands for, the text behind it, and what is expected there. -/
  | token (kind : TokenKind) (lexeme rest : List Char) (next : Expecting)
  | endOfPath
  /-- A misfit, the text read before it was noticed, and where in that text to report it. -/
  | misfit (fault : Misfit) (consumed : List Char) (column : Nat)

namespace Reading

/-- A dot, an opening suffix or the end of the text. -/
def segment : List Char → Reading
  | [] => endOfPath
  | c :: rest =>
    if c = '.' then token .dot [c] rest .name
    else if c = '[' then token .openBracket [c] rest .integer
    else if c = '(' then token .openParen [c] rest .key
    else misfit (.unexpectedChar c) [] 0

/-- The longest name at the front of the text. -/
def name : List Char → Reading
  | [] => misfit .nameExpected [] 0
  | c :: rest =>
    if isNameStart c then
      let lexeme := c :: rest.takeWhile isNameChar
      token (.name (String.ofList lexeme)) lexeme (rest.dropWhile isNameChar) .segment
    else misfit .nameExpected [] 0

/-- The longest integer literal at the front of the text. -/
def integer (text : List Char) : Reading :=
  let parts := Text.splitInteger text
  let literal := parts.1
  if literal.digits = [] then misfit .integerExpected literal.chars literal.chars.length
  else match int64? literal.value with
    | some value => token (.index value) literal.chars parts.2 .closeBracket
    | none => misfit .integerOutOfRange literal.chars 0

def closeBracket : List Char → Reading
  | [] => misfit .bracketMissing [] 0
  | c :: rest =>
    if c = ']' then token .closeBracket [c] rest .segment else misfit .bracketMissing [] 0

/-- Everything up to the next closing parenthesis, which has to be there. -/
def key (text : List Char) : Reading :=
  let lexeme := text.takeWhile (· ≠ ')')
  match text.dropWhile (· ≠ ')') with
  | [] => misfit .parenMissing lexeme lexeme.length
  | c :: rest => token (.key (String.ofList lexeme)) lexeme (c :: rest) .closeParen

def closeParen : List Char → Reading
  | [] => misfit .parenMissing [] 0
  | c :: rest =>
    if c = ')' then token .closeParen [c] rest .segment else misfit .parenMissing [] 0

end Reading

/-- What stands at the front of the text, where `expecting` is expected. -/
def read (expecting : Expecting) (text : List Char) : Reading :=
  match expecting with
  | .segment => .segment text
  | .name => .name text
  | .integer => .integer text
  | .closeBracket => .closeBracket text
  | .key => .key text
  | .closeParen => .closeParen text

/-! ## Readings split the text -/

namespace Reading

/-- The reading accounts for the whole text. -/
def Splits (text : List Char) : Reading → Prop
  | token _ lexeme rest _ => lexeme ++ rest = text
  | endOfPath => text = []
  | misfit _ consumed column => consumed <+: text ∧ column ≤ consumed.length

private theorem splits_misfit_nil (fault : Misfit) (text : List Char) :
    (misfit fault [] 0).Splits text :=
  ⟨List.nil_prefix, Nat.le_refl 0⟩

theorem splits_segment (text : List Char) : (segment text).Splits text := by
  cases text with
  | nil => rfl
  | cons c rest =>
    rw [segment]
    repeat' split
    all_goals first | rfl | exact splits_misfit_nil _ _

theorem splits_name (text : List Char) : (name text).Splits text := by
  cases text with
  | nil => exact splits_misfit_nil _ _
  | cons c rest =>
    rw [name]
    split
    · rw [Splits, List.cons_append, List.takeWhile_append_dropWhile]
    · exact splits_misfit_nil _ _

theorem splits_integer (text : List Char) : (integer text).Splits text := by
  have append := Text.splitInteger_append text
  have front : (Text.splitInteger text).1.chars <+: text := ⟨_, append⟩
  simp only [integer]
  split
  · exact ⟨front, Nat.le_refl _⟩
  · split
    · exact append
    · exact ⟨front, Nat.zero_le _⟩

theorem splits_closeBracket (text : List Char) : (closeBracket text).Splits text := by
  cases text with
  | nil => exact splits_misfit_nil _ _
  | cons c rest =>
    rw [closeBracket]
    split
    · rfl
    · exact splits_misfit_nil _ _

theorem splits_key (text : List Char) : (key text).Splits text := by
  have append : text.takeWhile (· ≠ ')') ++ text.dropWhile (· ≠ ')') = text :=
    List.takeWhile_append_dropWhile
  rw [key]
  split
  · exact ⟨⟨_, append⟩, Nat.le_refl _⟩
  · next behind =>
    rw [behind] at append
    exact append

theorem splits_closeParen (text : List Char) : (closeParen text).Splits text := by
  cases text with
  | nil => exact splits_misfit_nil _ _
  | cons c rest =>
    rw [closeParen]
    split
    · rfl
    · exact splits_misfit_nil _ _

end Reading

theorem splits_read (expecting : Expecting) (text : List Char) :
    (read expecting text).Splits text := by
  cases expecting with
  | segment => exact Reading.splits_segment text
  | name => exact Reading.splits_name text
  | integer => exact Reading.splits_integer text
  | closeBracket => exact Reading.splits_closeBracket text
  | key => exact Reading.splits_key text
  | closeParen => exact Reading.splits_closeParen text

section OfRead

variable {expecting next : Expecting} {text lexeme rest consumed : List Char} {kind : TokenKind}
  {fault : Misfit} {column : Nat}

theorem lexeme_append_rest (h : read expecting text = .token kind lexeme rest next) :
    lexeme ++ rest = text := by
  have splits := splits_read expecting text
  rwa [h] at splits

theorem consumed_prefix (h : read expecting text = .misfit fault consumed column) :
    consumed <+: text := by
  have splits := splits_read expecting text
  rw [h] at splits
  exact splits.1

end OfRead

end PropertyPath
