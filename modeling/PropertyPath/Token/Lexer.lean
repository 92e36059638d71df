import PropertyPath.Token.Scan

/-!
# The lexer

The tokens of a text as a machine finds them that goes through the text once. It keeps two pairs of
counts side by side. `start` and `pos` count bytes: between them lies the text of the token that is
being read, and the value of a name, a key or an index is cut out of the bytes of the text there.
`startChar` and `charsRead` count characters, since that is what spans and positions are told in.
`next` moves the second count of each pair, and `emit` moves the first one up to it.

To cut text out of bytes can fail, and with it everything that does so: `value?` is `none` if a
character would be cut in two. The messages of misfits are put together here, each with the position
it says next to the position that the token reports.
-/

namespace PropertyPath

/-! ## Bytes and characters -/

namespace Text

/-- The text between two bytes of a text, if both stand at the edge of a character. -/
def betweenBytes? (text : String) (start stop : Nat) : Option String :=
  if h : start ≤ stop ∧ (String.Pos.Raw.mk start).IsValid text ∧
      (String.Pos.Raw.mk stop).IsValid text then
    some (String.extract (text.pos ⟨start⟩ h.2.1) (text.pos ⟨stop⟩ h.2.2))
  else none

/-- The number that a row of digits writes. A row without digits writes none. -/
def natural? (digits : List Char) : Option Nat :=
  if digits ≠ [] ∧ digits.all Char.isDigit then some (Nat.ofDigitChars 10 digits 0) else none

/-- The signed word that a whole text writes in digits, with a sign in front or without. -/
def word? (text : String) : Option Int64 :=
  match text.toList with
  | '-' :: digits => (natural? digits).bind fun magnitude ↦ int64? (-magnitude)
  | '+' :: digits => (natural? digits).bind fun magnitude ↦ int64? magnitude
  | digits => (natural? digits).bind fun magnitude ↦ int64? magnitude

end Text

/-- The characters of a text that are still to be read, and the byte at which the first of them
begins. -/
structure CharIndices where
  index : Nat
  rest : List Char

/-- The next character and the byte at which it begins, and what is to be read behind it. -/
def CharIndices.next? : CharIndices → Option ((Nat × Char) × CharIndices)
  | ⟨_, []⟩ => none
  | ⟨index, c :: rest⟩ => some ((index, c), ⟨index + c.utf8Size, rest⟩)

/-! ## The machine -/

structure Lexer where
  path : String
  /-- How many characters of the caller's text stand in front of the path. -/
  offset : Nat
  tokens : List Token
  chars : CharIndices
  /-- The byte at which the token being read begins. -/
  start : Nat
  /-- The byte behind the last character that was read. -/
  pos : Nat
  /-- The character at which the token being read begins. -/
  startChar : Nat
  charsRead : Nat

/-- What the machine does next. -/
inductive LexerState where
  | error
  | endOfPath
  | root
  | segment
  | name
  | index
  | key
deriving DecidableEq, Repr

namespace LexerState

def stops : LexerState → Bool
  | .error | .endOfPath => true
  | _ => false

/-- How many states may be gone through from here without a character being read. -/
def weight : LexerState → Nat
  | .error | .endOfPath => 0
  | .root => 2
  | _ => 1

end LexerState

namespace Lexer

/-- The machine in front of a path. -/
def new (path : String) (offset : Nat) : Lexer where
  path := path
  offset := offset
  tokens := []
  chars := ⟨0, path.toList⟩
  start := 0
  pos := 0
  startChar := 0
  charsRead := 0

/-- The place of the next character in the caller's text. -/
def position (l : Lexer) : Nat := l.offset + l.charsRead

/-- Adds a token for what was read since the last one, and begins another. -/
def emit (l : Lexer) (kind : TokenKind) : Lexer :=
  { l with
    tokens := l.tokens ++ [⟨kind, l.offset + l.startChar, l.position⟩]
    start := l.pos
    startChar := l.charsRead }

/-- What was read since the last token. -/
def value? (l : Lexer) : Option String := Text.betweenBytes? l.path l.start l.pos

/-- Reads a character, if there is one. -/
def next (l : Lexer) : Lexer :=
  match l.chars.next? with
  | some ((index, c), chars) =>
    { l with chars := chars, pos := index + c.utf8Size, charsRead := l.charsRead + 1 }
  | none => l

/-- The next character. The null character stands for the end of the path. -/
def peek (l : Lexer) : Char :=
  match l.chars.next? with
  | some ((_, c), _) => c
  | none => '\x00'

def isEnd (l : Lexer) : Bool := l.chars.next?.isNone

/-- Reads the next character, if it is of a class. -/
def acceptIf? (l : Lexer) (p : Char → Bool) : Option Lexer :=
  if !l.isEnd && p l.peek then some l.next else none

/-- Reads the next character, if it is this one. -/
def accept? (l : Lexer) (c : Char) : Option Lexer := l.acceptIf? (· = c)

/-- How many characters are still to be read. -/
def remaining (l : Lexer) : Nat := l.chars.rest.length

theorem remaining_next_lt {l : Lexer} (h : l.isEnd = false) : l.next.remaining < l.remaining := by
  rcases l with ⟨_, _, _, ⟨_, _ | _⟩, _⟩
  · cases h
  · exact Nat.lt_succ_self _

/-- Reads characters as long as they are of a class. -/
def acceptRun (l : Lexer) (p : Char → Bool) : Lexer :=
  if _h : l.isEnd = false ∧ p l.peek = true then l.next.acceptRun p else l
termination_by l.remaining
decreasing_by exact remaining_next_lt _h.1

/-- Ends the scan with a misfit that is reported at a position. -/
def errorAt (l : Lexer) (message : String) (position : Nat) : LexerState × Lexer :=
  (.error,
    { l with
      tokens :=
        l.tokens ++ [⟨.misfit (.other message) position, l.offset + l.startChar, l.position⟩] })

/-- Ends the scan with a misfit that is reported where the machine stands. -/
def error (l : Lexer) (message : String) : LexerState × Lexer := l.errorAt message l.position

/-! ### What the states do -/

/-- A path that does not open with a suffix reads as if there were a dot in front. -/
def lexRoot (l : Lexer) : LexerState × Lexer :=
  if l.peek = '[' ∨ l.peek = '(' then (.segment, l) else (.name, l)

def lexSegment (l : Lexer) : LexerState × Lexer :=
  if l.isEnd then (.endOfPath, l.emit .endOfPath)
  else if let some l := l.accept? '.' then (.name, l.emit .dot)
  else if let some l := l.accept? '[' then (.index, l.emit .openBracket)
  else if let some l := l.accept? '(' then (.key, l.emit .openParen)
  else
    l.error ("unexpected token `" ++ l.peek.toString ++ "` at position " ++ toString l.position)

def lexName (l : Lexer) : Option (LexerState × Lexer) :=
  if let some l := l.acceptIf? isNameStart then
    let l := l.acceptRun isNameChar
    l.value?.map fun value ↦ (.segment, l.emit (.name value))
  else some (l.error ("expected name at position " ++ toString l.position))

/-- Reads the digits of an index, if there are any. A zero is one on its own. -/
def acceptDigits? (l : Lexer) : Option Lexer :=
  if let some l := l.accept? '0' then some l
  else (l.acceptIf? fun c ↦ '1' ≤ c && c ≤ '9').map fun l ↦ l.acceptRun Char.isDigit

def lexCloseBracket (l : Lexer) : LexerState × Lexer :=
  if let some l := l.accept? ']' then (.segment, l.emit .closeBracket)
  else l.error ("missing `]` at position " ++ toString l.position)

def lexIndex (l : Lexer) : Option (LexerState × Lexer) :=
  let integerStart := l.position
  let l := (l.accept? '-').getD l
  if let some l := l.acceptDigits? then
    l.value?.map fun value ↦
      match Text.word? value with
      | some word => (l.emit (.index word)).lexCloseBracket
      | none =>
        l.errorAt ("could not parse index as integer at position " ++ toString integerStart)
          integerStart
  else some (l.error ("could not parse index as integer at position " ++ toString l.position))

def lexKey (l : Lexer) : Option (LexerState × Lexer) :=
  let l := l.acceptRun (· ≠ ')')
  if l.isEnd then some (l.error ("missing `)` at position " ++ toString l.position))
  else l.value?.map fun value ↦ (.segment, ((l.emit (.key value)).next).emit .closeParen)

/-- What the machine does in a state, and in which state it goes on. -/
def step (state : LexerState) (l : Lexer) : Option (LexerState × Lexer) :=
  match state with
  | .error | .endOfPath => some (state, l)
  | .root => some l.lexRoot
  | .segment => some l.lexSegment
  | .name => l.lexName
  | .index => l.lexIndex
  | .key => l.lexKey

/-! ### What is left to do

A state reads a character or stops the machine, except the first one, which only chooses another. -/

section Left

variable {l l' : Lexer} {p : Char → Bool}

/-- What is left to do: the characters to be read, and the states to go through without reading
any. -/
def left (reached : LexerState × Lexer) : Nat := reached.2.remaining + reached.1.weight

theorem remaining_lt_of_acceptIf? (h : l.acceptIf? p = some l') : l'.remaining < l.remaining := by
  rw [acceptIf?] at h
  split at h
  · next accepts =>
    obtain rfl := Option.some.inj h
    simp only [Bool.and_eq_true, Bool.not_eq_true'] at accepts
    exact remaining_next_lt accepts.1
  · cases h

theorem remaining_lt_of_accept? {c : Char} (h : l.accept? c = some l') :
    l'.remaining < l.remaining :=
  remaining_lt_of_acceptIf? h

theorem remaining_acceptRun_le (l : Lexer) (p : Char → Bool) :
    (l.acceptRun p).remaining ≤ l.remaining := by
  fun_induction acceptRun l p with
  | case1 l h ih => exact Nat.le_trans ih (Nat.le_of_lt (remaining_next_lt h.1))
  | case2 => exact Nat.le_refl _

theorem remaining_lt_of_acceptDigits? (h : l.acceptDigits? = some l') :
    l'.remaining < l.remaining := by
  rw [acceptDigits?] at h
  split at h
  · next zero =>
    obtain rfl := Option.some.inj h
    exact remaining_lt_of_accept? zero
  · obtain ⟨first, accepted, rfl⟩ := Option.map_eq_some_iff.mp h
    exact Nat.lt_of_le_of_lt (remaining_acceptRun_le first _) (remaining_lt_of_acceptIf? accepted)

theorem left_lexRoot_lt (l : Lexer) : left l.lexRoot < left (.root, l) := by
  rw [lexRoot]
  split <;> exact Nat.lt_succ_self _

theorem left_lexSegment_lt (l : Lexer) : left l.lexSegment < left (.segment, l) := by
  rw [lexSegment]
  split
  · exact Nat.lt_succ_self _
  split
  · next dot =>
    have lt := remaining_lt_of_accept? dot
    exact Nat.succ_lt_succ lt
  split
  · next bracket =>
    have lt := remaining_lt_of_accept? bracket
    exact Nat.succ_lt_succ lt
  split
  · next paren =>
    have lt := remaining_lt_of_accept? paren
    exact Nat.succ_lt_succ lt
  · exact Nat.lt_succ_self _

theorem left_lexCloseBracket_le (l : Lexer) : left l.lexCloseBracket ≤ l.remaining := by
  rw [lexCloseBracket]
  split
  · next bracket =>
    have lt := remaining_lt_of_accept? bracket
    exact lt
  · exact Nat.le_refl _

theorem left_lt_of_lexName {reached : LexerState × Lexer} (h : l.lexName = some reached) :
    left reached < left (.name, l) := by
  rw [lexName] at h
  split at h
  · next first accepted =>
    obtain ⟨value, -, rfl⟩ := Option.map_eq_some_iff.mp h
    have le := remaining_acceptRun_le first isNameChar
    exact Nat.succ_lt_succ (Nat.lt_of_le_of_lt le (remaining_lt_of_acceptIf? accepted))
  · obtain rfl := Option.some.inj h
    exact Nat.lt_succ_self _

theorem left_lt_of_lexIndex {reached : LexerState × Lexer} (h : l.lexIndex = some reached) :
    left reached < left (.index, l) := by
  have signed : ((l.accept? '-').getD l).remaining ≤ l.remaining := by
    cases accepted : l.accept? '-' with
    | none => exact Nat.le_refl _
    | some l => exact Nat.le_of_lt (remaining_lt_of_accept? accepted)
  rw [lexIndex] at h
  split at h
  · next digits accepted =>
    obtain ⟨value, -, rfl⟩ := Option.map_eq_some_iff.mp h
    have le := Nat.le_trans (Nat.le_of_lt (remaining_lt_of_acceptDigits? accepted)) signed
    split
    · next word _ =>
      have closed := left_lexCloseBracket_le (digits.emit (.index word))
      exact Nat.lt_succ_of_le (Nat.le_trans closed le)
    · exact Nat.lt_succ_of_le le
  · obtain rfl := Option.some.inj h
    exact Nat.lt_succ_of_le signed

theorem left_lt_of_lexKey {reached : LexerState × Lexer} (h : l.lexKey = some reached) :
    left reached < left (.key, l) := by
  have le := remaining_acceptRun_le l (· ≠ ')')
  rw [lexKey] at h
  split at h
  · obtain rfl := Option.some.inj h
    exact Nat.lt_succ_of_le le
  · next more =>
    obtain ⟨value, -, rfl⟩ := Option.map_eq_some_iff.mp h
    have lt : ((l.acceptRun (· ≠ ')')).emit (.key value)).next.remaining
        < (l.acceptRun (· ≠ ')')).remaining := remaining_next_lt (Bool.eq_false_iff.mpr more)
    exact Nat.succ_lt_succ (Nat.lt_of_lt_of_le lt le)

theorem left_lt_of_step {state : LexerState} {reached : LexerState × Lexer}
    (running : state.stops = false) (h : l.step state = some reached) :
    left reached < left (state, l) := by
  cases state with
  | error => cases running
  | endOfPath => cases running
  | root =>
    obtain rfl := Option.some.inj h
    exact left_lexRoot_lt l
  | segment =>
    obtain rfl := Option.some.inj h
    exact left_lexSegment_lt l
  | name => exact left_lt_of_lexName h
  | index => exact left_lt_of_lexIndex h
  | key => exact left_lt_of_lexKey h

end Left

/-! ### Running -/

/-- Runs the machine until it stops. -/
def run (state : LexerState) (l : Lexer) : Option Lexer :=
  if _running : state.stops then some l
  else match _h : l.step state with
    | some (next, l) => l.run next
    | none => none
termination_by left (state, l)
decreasing_by exact left_lt_of_step (Bool.eq_false_iff.mpr _running) _h

/-- The tokens of a path, with spans counted from `offset`. -/
def tokens? (path : String) (offset : Nat) : Option (List Token) :=
  (run .root (new path offset)).map tokens

/-- The tokens of a path, or the misfit at which the machine stopped. -/
def lex? (path : String) (offset : Nat) : Option (Except Fault (List Token)) :=
  (tokens? path offset).map rowOrFault

end Lexer

end PropertyPath
