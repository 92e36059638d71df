import PropertyPath.Proofs.Text.Integer
import PropertyPath.Proofs.Token.Tiling
import PropertyPath.Token.Lexer

/-!
# What the lexer finds

The lexer never fails, and the tokens that it finds are those of the scan, with their misfits told
in words (`Lexer.tokens?_eq_tokensOf`). So all that is said of a scan is said of the lexer, and its
tokens tile the text.

## The invariant

A machine that has passed over `before`, is reading `current` and has `rest` in front of it is
`holding offset row before current rest`: `start` and `startChar` are the sizes of `before`, one in
bytes and one in characters, and `pos` and `charsRead` those of `before` and `current` together.
Whatever the machine does takes one such machine to another, as the `…_holding` lemmas say. Its
bytes thus stand at the edges of characters, where text can be cut, and its spans are as long as
the lexemes of the scan.
-/

namespace PropertyPath

open Grammar
open Text (IntegerLiteral IsMagnitude splitDigits splitInteger)

/-! ## Text out of bytes -/

namespace Text

private theorem isValid_utf8ByteSize (front back : String) :
    (String.Pos.Raw.mk front.utf8ByteSize).IsValid (front ++ back) :=
  String.Pos.Raw.isValid_iff_exists_append.mpr ⟨front, back, rfl, rfl⟩

/-- The middle of a text lies between the byte sizes of what its two ends have in front of them. -/
theorem betweenBytes?_append (front middle back : String) :
    betweenBytes? (front ++ middle ++ back) front.utf8ByteSize (front ++ middle).utf8ByteSize
      = some middle := by
  have start : (String.Pos.Raw.mk front.utf8ByteSize).IsValid (front ++ middle ++ back) := by
    rw [String.append_assoc]
    exact isValid_utf8ByteSize front (middle ++ back)
  have stop := isValid_utf8ByteSize (front ++ middle) back
  have le : front.utf8ByteSize ≤ (front ++ middle).utf8ByteSize := by
    rw [String.utf8ByteSize_append]
    exact Nat.le_add_right _ _
  have bytes : (front ++ middle ++ back).toByteArray
      = front.toByteArray ++ (middle.toByteArray ++ back.toByteArray) := by
    rw [String.append_assoc, String.toByteArray_append, String.toByteArray_append]
  rw [betweenBytes?, dif_pos ⟨le, start, stop⟩, Option.some_inj, ← String.toByteArray_inj,
    String.toByteArray_extract]
  show (front ++ middle ++ back).toByteArray.extract (front.toByteArray.size + 0)
      (front ++ middle).toByteArray.size = middle.toByteArray
  rw [bytes, String.toByteArray_append, ByteArray.size_append,
    ByteArray.extract_append_size_add, ByteArray.extract_append_eq_left rfl]

theorem natural?_of_isMagnitude {digits : List Char} (h : IsMagnitude digits) :
    natural? digits = some (Nat.ofDigitChars 10 digits 0) :=
  if_pos ⟨ne_nil_of_isMagnitude h, List.all_eq_true.mpr (isDigit_of_mem_magnitude h)⟩

theorem word?_chars {literal : IntegerLiteral} (h : IsMagnitude literal.digits) :
    word? (String.ofList literal.chars) = int64? literal.value := by
  obtain ⟨negative, digits⟩ := literal
  rw [word?, String.toList_ofList]
  cases negative with
  | true =>
    show (natural? digits).bind _ = _
    rw [natural?_of_isMagnitude h]
    rfl
  | false =>
    obtain ⟨c, more, rfl⟩ := List.exists_cons_of_ne_nil (ne_nil_of_isMagnitude h)
    have digit : c.isDigit = true := isDigit_of_mem_magnitude h c List.mem_cons_self
    have ne_sign {sign : Char} (h : sign.isDigit = false) : c ≠ sign := by
      rintro rfl
      rw [h] at digit
      cases digit
    have chars : IntegerLiteral.chars ⟨false, c :: more⟩ = c :: more := rfl
    rw [chars]
    split
    · next eq => exact absurd (List.cons.inj eq).1 (ne_sign (by decide))
    · next eq => exact absurd (List.cons.inj eq).1 (ne_sign (by decide))
    · rw [natural?_of_isMagnitude h]
      rfl

end Text

/-! ## Misfits in words -/

/-- The misfit as its words at a position. -/
def Misfit.worded (fault : Misfit) (position : Nat) : Misfit := .other (fault.message position)

def TokenKind.worded : TokenKind → TokenKind
  | .misfit fault position => .misfit (fault.worded position) position
  | kind => kind

def Token.worded (token : Token) : Token := { token with kind := token.kind.worded }

def Fault.worded : Fault → Fault
  | .malformed fault position => .malformed (fault.worded position) position
  | fault => fault

/-- A fault told in words shows the same kind, message and position. -/
theorem Fault.worded_shows_same (fault : Fault) :
    fault.worded.kind = fault.kind ∧ fault.worded.message = fault.message ∧
      fault.worded.position? = fault.position? := by
  cases fault <;> exact ⟨rfl, rfl, rfl⟩

theorem TokenKind.worded_eq_self {kind : TokenKind} (h : ¬kind.IsFinal) : kind.worded = kind := by
  cases kind with
  | misfit => exact absurd trivial h
  | _ => rfl

theorem Token.worded_eq_self {token : Token} (h : ¬token.kind.IsFinal) : token.worded = token := by
  rw [Token.worded, TokenKind.worded_eq_self h]

theorem Misfit.words_append_place (words : String) (position : Nat) :
    words ++ " at position " ++ toString position = words ++ Misfit.message.place position :=
  String.append_assoc

theorem Misfit.message_unexpectedChar (c : Char) (position : Nat) :
    "unexpected token `" ++ c.toString ++ "` at position " ++ toString position
      = (Misfit.unexpectedChar c).message position := by
  have tail : "` at position " = "`" ++ " at position " := rfl
  rw [tail, ← String.append_assoc]
  exact Misfit.words_append_place _ position

namespace Lexer

/-! ## A machine in the middle of its text -/

/-- The machine that has found `row` in `before`, is reading `current` and has `rest` in front
of it. -/
def holding (offset : Nat) (row : List Token) (before current rest : List Char) : Lexer where
  path := String.ofList (before ++ current ++ rest)
  offset := offset
  tokens := row
  chars := ⟨(String.ofList (before ++ current)).utf8ByteSize, rest⟩
  start := (String.ofList before).utf8ByteSize
  pos := (String.ofList (before ++ current)).utf8ByteSize
  startChar := before.length
  charsRead := (before ++ current).length

section Holding

variable {offset : Nat} {row : List Token} {before current rest : List Char} {c : Char}
  {p : Char → Bool}

theorem new_eq_holding (text : String) (offset : Nat) :
    new text offset = holding offset [] [] [] text.toList := by
  simp [new, holding]

theorem position_holding :
    (holding offset row before current rest).position
      = offset + before.length + current.length := by
  rw [position, holding, List.length_append, Nat.add_assoc]

/-- The machine does not get beyond the end of its path. -/
theorem pos_le_holding : (holding offset row before current rest).pos
    ≤ (holding offset row before current rest).path.utf8ByteSize := by
  have path : String.ofList (before ++ current ++ rest)
      = String.ofList (before ++ current) ++ String.ofList rest := String.ofList_append
  rw [holding, path, String.utf8ByteSize_append]
  exact Nat.le_add_right _ _

theorem isEnd_holding_cons : (holding offset row before current (c :: rest)).isEnd = false :=
  rfl

theorem next_holding_cons :
    (holding offset row before current (c :: rest)).next
      = holding offset row before (current ++ [c]) rest := by
  simp [next, holding, CharIndices.next?, String.ofList_append, String.utf8ByteSize_append,
    Nat.add_assoc]

theorem value?_holding :
    (holding offset row before current rest).value? = some (String.ofList current) := by
  have cut := Text.betweenBytes?_append (.ofList before) (.ofList current) (.ofList rest)
  rwa [← String.ofList_append, ← String.ofList_append] at cut

theorem emit_holding (kind : TokenKind) :
    (holding offset row before current rest).emit kind
      = holding offset
          (row ++ [⟨kind, offset + before.length, offset + before.length + current.length⟩])
          (before ++ current) [] rest := by
  simp [emit, position, holding, Nat.add_assoc]

theorem acceptIf?_holding_cons :
    (holding offset row before current (c :: rest)).acceptIf? p
      = if p c then some (holding offset row before (current ++ [c]) rest) else none := by
  rw [← next_holding_cons]
  rfl

theorem accept?_holding_cons (d : Char) :
    (holding offset row before current (c :: rest)).accept? d
      = if c = d then some (holding offset row before (current ++ [c]) rest) else none := by
  simp only [accept?, acceptIf?_holding_cons, decide_eq_true_eq]

theorem acceptRun_holding :
    (holding offset row before current rest).acceptRun p
      = holding offset row before (current ++ rest.takeWhile p) (rest.dropWhile p) := by
  induction rest generalizing current with
  | nil =>
    have stops : ¬((holding offset row before current []).isEnd = false ∧
        p (holding offset row before current []).peek = true) := fun h ↦ nomatch h.1
    rw [acceptRun, dif_neg stops, List.takeWhile_nil, List.append_nil, List.dropWhile_nil]
  | cons c rest ih =>
    rw [acceptRun]
    by_cases hc : p c = true
    · rw [dif_pos ⟨isEnd_holding_cons, hc⟩, next_holding_cons, ih, List.append_assoc,
        List.takeWhile_cons_of_pos hc, List.dropWhile_cons_of_pos hc]
      rfl
    · rw [dif_neg (fun h ↦ hc h.2), List.takeWhile_cons_of_neg hc,
        List.dropWhile_cons_of_neg hc, List.append_nil]

/-- Digits are read as far as `splitDigits` takes them. -/
theorem acceptDigits?_holding (text : List Char) :
    (holding offset row before current text).acceptDigits?
      = if (splitDigits text).1 = [] then none
        else some (holding offset row before (current ++ (splitDigits text).1)
          (splitDigits text).2) := by
  rw [acceptDigits?]
  fun_cases splitDigits text with
  | case1 => rfl
  | case2 rest => simp only [accept?_holding_cons, if_true, List.cons_ne_nil, if_false]
  | case3 c rest zero digit =>
    have range := Text.one_le_of_isDigit digit zero
    simp only [accept?_holding_cons, if_neg zero, acceptIf?_holding_cons, range, decide_true,
      Bool.and_self, if_true, Option.map_some, acceptRun_holding, List.cons_ne_nil, if_false,
      List.append_assoc, List.singleton_append]
  | case4 c rest zero digit =>
    have range : ('1' ≤ c && c ≤ '9') = false := by
      rw [← Bool.decide_and, decide_eq_false_iff_not]
      exact fun range ↦ digit (Text.isDigit_of_one_le range)
    simp only [accept?_holding_cons, if_neg zero, acceptIf?_holding_cons, range,
      Bool.false_eq_true, if_false, Option.map_none, if_true]

/-- A sign is read off the literal at the front of a text, and leaves the digits. -/
theorem exists_holding_sign (text : List Char) : ∃ sign unsigned,
    ((holding offset row before [] text).accept? '-').getD (holding offset row before [] text)
        = holding offset row before sign unsigned ∧
      (splitInteger text).1.chars = sign ++ (splitInteger text).1.digits ∧
      splitDigits unsigned = ((splitInteger text).1.digits, (splitInteger text).2) := by
  fun_cases splitInteger text with
  | case1 rest =>
    refine ⟨['-'], rest, ?_, rfl, rfl⟩
    rw [accept?_holding_cons, if_pos rfl]
    rfl
  | case2 text noSign =>
    refine ⟨[], text, ?_, rfl, rfl⟩
    cases text with
    | nil => rfl
    | cons c rest =>
      have sign : c ≠ '-' := fun eq ↦ noSign rest (by rw [eq])
      rw [accept?_holding_cons, if_neg sign]
      rfl

end Holding

/-! ## Going on -/

/-- The tokens of a run that goes on from a state. -/
def finish (reached : LexerState × Lexer) : Option (List Token) :=
  (reached.2.run reached.1).map tokens

theorem finish_of_stops {state : LexerState} (l : Lexer) (stops : state.stops = true) :
    finish (state, l) = some l.tokens := by
  rw [finish, run, dif_pos stops]
  rfl

theorem finish_of_step {state : LexerState} (l : Lexer) (running : state.stops = false) :
    finish (state, l) = (l.step state).bind finish := by
  rw [finish, run, dif_neg (Bool.eq_false_iff.mp running)]
  cases l.step state <;> rfl

/-- Where the machine is when `expecting` is expected. There are no states for the two closing
characters, which are read along with what they close. -/
def awaiting (expecting : Expecting) (l : Lexer) : LexerState × Lexer :=
  match expecting with
  | .segment => (.segment, l)
  | .name => (.name, l)
  | .integer => (.index, l)
  | .closeBracket => l.lexCloseBracket
  | .key => (.key, l)
  | .closeParen =>
    if let some l := l.accept? ')' then (.segment, l.emit .closeParen)
    else l.error ("missing `)` at position " ++ toString l.position)

/-- The tokens of a run that found `row` in `before` and reads this next. -/
def afterReading (offset : Nat) (row : List Token) (before : List Char) :
    Reading → Option (List Token)
  | .token kind lexeme rest next =>
    finish (awaiting next (holding offset
      (row ++ [⟨kind, offset + before.length, offset + before.length + lexeme.length⟩])
      (before ++ lexeme) [] rest))
  | .endOfPath => some (row ++ [⟨.endOfPath, offset + before.length, offset + before.length⟩])
  | .misfit fault consumed column =>
    some (row ++ [⟨.misfit (fault.worded (offset + before.length + column))
      (offset + before.length + column), offset + before.length,
      offset + before.length + consumed.length⟩])

/-! ## One reading -/

section Readings

variable {offset : Nat} {row : List Token} {before current rest : List Char} {message : String}
  {fault : Misfit}

theorem finish_errorAt_holding {position column : Nat}
    (place : position = offset + before.length + column)
    (told : message = fault.message position) :
    finish ((holding offset row before current rest).errorAt message position)
      = afterReading offset row before (.misfit fault current column) := by
  rw [errorAt, finish_of_stops _ rfl, position_holding, told, place]
  rfl

theorem finish_error_holding
    (told : message = fault.message (holding offset row before current rest).position) :
    finish ((holding offset row before current rest).error message)
      = afterReading offset row before (.misfit fault current current.length) :=
  finish_errorAt_holding position_holding told

theorem lexSegment_holding (text : List Char) :
    finish ((holding offset row before [] text).lexSegment)
      = afterReading offset row before (.segment text) := by
  cases text with
  | nil =>
    show finish (.endOfPath, _) = _
    rw [finish_of_stops _ rfl, emit_holding]
    rfl
  | cons c rest =>
    rw [lexSegment, accept?_holding_cons, accept?_holding_cons, accept?_holding_cons,
      Reading.segment, isEnd_holding_cons, if_neg Bool.false_ne_true]
    by_cases dot : c = '.'
    · simp only [if_pos dot, emit_holding]
      rfl
    by_cases bracket : c = '['
    · simp only [if_neg dot, if_pos bracket, emit_holding]
      rfl
    by_cases paren : c = '('
    · simp only [if_neg dot, if_neg bracket, if_pos paren, emit_holding]
      rfl
    · simp only [if_neg dot, if_neg bracket, if_neg paren]
      exact finish_error_holding (Misfit.message_unexpectedChar c _)

theorem lexName_holding (text : List Char) :
    (holding offset row before [] text).lexName.bind finish
      = afterReading offset row before (.name text) := by
  cases text with
  | nil => exact finish_error_holding (Misfit.words_append_place "expected name" _)
  | cons c rest =>
    rw [lexName, acceptIf?_holding_cons, Reading.name]
    by_cases start : isNameStart c
    · simp only [if_pos start, acceptRun_holding, value?_holding, emit_holding, Option.map_some,
        Option.bind_some]
      rfl
    · simp only [if_neg start]
      exact finish_error_holding (Misfit.words_append_place "expected name" _)

theorem lexCloseBracket_holding (text : List Char) :
    finish (holding offset row before [] text).lexCloseBracket
      = afterReading offset row before (.closeBracket text) := by
  cases text with
  | nil => exact finish_error_holding (Misfit.words_append_place "missing `]`" _)
  | cons c rest =>
    rw [lexCloseBracket, accept?_holding_cons, Reading.closeBracket]
    by_cases bracket : c = ']'
    · simp only [if_pos bracket, emit_holding]
      rfl
    · simp only [if_neg bracket]
      exact finish_error_holding (Misfit.words_append_place "missing `]`" _)

theorem lexIndex_holding (text : List Char) :
    (holding offset row before [] text).lexIndex.bind finish
      = afterReading offset row before (.integer text) := by
  obtain ⟨sign, unsigned, signed, chars, split⟩ := @exists_holding_sign offset row before text
  simp only [lexIndex, Reading.integer, signed, acceptDigits?_holding, split, ← chars]
  by_cases noDigits : (splitInteger text).1.digits = []
  · rw [noDigits, List.append_nil] at chars
    simp only [noDigits, if_true, Option.bind_some, chars]
    exact finish_error_holding (Misfit.words_append_place "could not parse index as integer" _)
  · have magnitude := Text.isMagnitude_splitInteger text noDigits
    simp only [noDigits, if_false, value?_holding, Option.map_some, Option.bind_some,
      Text.word?_chars magnitude]
    cases int64? (splitInteger text).1.value with
    | none =>
      -- the position is the one noted in front of the integer
      exact finish_errorAt_holding position_holding
        (Misfit.words_append_place "could not parse index as integer" _)
    | some value =>
      simp only [emit_holding]
      rfl

theorem awaiting_closeParen_holding (text : List Char) :
    finish (awaiting .closeParen (holding offset row before [] text))
      = afterReading offset row before (.closeParen text) := by
  cases text with
  | nil => exact finish_error_holding (Misfit.words_append_place "missing `)`" _)
  | cons c rest =>
    rw [awaiting, accept?_holding_cons, Reading.closeParen]
    by_cases paren : c = ')'
    · simp only [if_pos paren, emit_holding]
      rfl
    · simp only [if_neg paren]
      exact finish_error_holding (Misfit.words_append_place "missing `)`" _)

theorem lexKey_holding (text : List Char) :
    (holding offset row before [] text).lexKey.bind finish
      = afterReading offset row before (.key text) := by
  rw [lexKey, acceptRun_holding, Reading.key]
  cases behind : text.dropWhile (· ≠ ')') with
  | nil => exact finish_error_holding (Misfit.words_append_place "missing `)`" _)
  | cons c rest =>
    have paren : c = ')' := by
      have stops := Text.boundary_dropWhile (· ≠ ')') text c (by rw [behind]; rfl)
      simpa using stops
    -- the parenthesis that stopped the key is read without another look at it
    simp only [isEnd_holding_cons, value?_holding, emit_holding, next_holding_cons,
      Bool.false_eq_true, if_false, Option.map_some, Option.bind_some, afterReading, awaiting,
      accept?_holding_cons, if_pos paren, List.nil_append]

/-- The machine finds what `read` finds. -/
theorem finish_awaiting_holding (expecting : Expecting) (text : List Char) :
    finish (awaiting expecting (holding offset row before [] text))
      = afterReading offset row before (read expecting text) := by
  cases expecting with
  | segment =>
    rw [awaiting, finish_of_step _ rfl]
    exact lexSegment_holding text
  | name =>
    rw [awaiting, finish_of_step _ rfl]
    exact lexName_holding text
  | integer =>
    rw [awaiting, finish_of_step _ rfl]
    exact lexIndex_holding text
  | closeBracket => exact lexCloseBracket_holding text
  | key =>
    rw [awaiting, finish_of_step _ rfl]
    exact lexKey_holding text
  | closeParen => exact awaiting_closeParen_holding text

end Readings

/-! ## Whole texts -/

/-- A run adds the tokens of the scan to those it has. -/
theorem finish_awaiting_eq_scan {offset : Nat} {row : List Token} {before : List Char}
    (expecting : Expecting) (text : List Char) (position : Nat)
    (place : position = offset + before.length) :
    finish (awaiting expecting (holding offset row before [] text))
      = some (row ++ (scan expecting text position).map Token.worded) := by
  fun_induction scan expecting text position generalizing row before with
  | case1 expecting text position kind lexeme rest next h ih =>
    subst place
    have ordinary := not_isFinal_of_isLexeme (isLexeme_of_read h)
    have behind : offset + before.length + lexeme.length = offset + (before ++ lexeme).length := by
      rw [List.length_append, Nat.add_assoc]
    rw [finish_awaiting_holding, h]
    refine (ih behind).trans ?_
    rw [List.map_cons, Token.worded_eq_self ordinary, List.append_assoc, List.singleton_append]
  | case2 expecting text position h =>
    subst place
    rw [finish_awaiting_holding, h]
    rfl
  | case3 expecting text position fault consumed column h =>
    subst place
    rw [finish_awaiting_holding, h]
    rfl

theorem lexRoot_holding (text : List Char) (offset : Nat) :
    (holding offset [] [] [] text).lexRoot
      = awaiting (.atStart text) (holding offset [] [] [] text) := by
  cases text with
  | nil => rfl
  | cons c rest =>
    rw [lexRoot, Expecting.atStart]
    show (if c = '[' ∨ c = '(' then _ else _) = _
    split_ifs <;> rfl

/-- **The lexer finds the tokens of the scan**, and tells its misfits in words. It never fails to
cut a value out of the bytes of the text. -/
theorem tokens?_eq_tokensOf (text : String) (offset : Nat) :
    tokens? text offset = some ((tokensOf text.toList offset).map Token.worded) := by
  have begins : tokens? text offset = finish (.root, new text offset) := rfl
  rw [begins, finish_of_step _ rfl, step, Option.bind_some, new_eq_holding,
    lexRoot_holding, finish_awaiting_eq_scan _ _ offset rfl, List.nil_append, tokensOf]

/-- The lexer stops at a misfit if the scan does, and says the same of it. -/
theorem lex?_eq_tokensOrFault (text : String) (offset : Nat) :
    lex? text offset = some ((tokensOrFault text.toList offset).mapError Fault.worded) := by
  obtain ⟨front, last, eq, tiling⟩ :=
    exists_isTiling_scan (.atStart text.toList) text.toList offset
  have final := tiling.final
  have ordinary : front.map Token.worded = front := by
    rw [List.map_congr_left fun token h ↦ Token.worded_eq_self (tiling.ordinary token h),
      List.map_id']
  rw [lex?, tokens?_eq_tokensOf, Option.map_some, tokensOrFault, tokensOf, eq, List.map_append,
    List.map_singleton, ordinary, rowOrFault, rowOrFault, List.getLast?_concat,
    List.getLast?_concat]
  obtain ⟨kind, start, stop⟩ := last
  cases kind with
  | endOfPath => rfl
  | misfit fault position => rfl
  | _ => exact final.elim

end Lexer

/-! ## The tokens of the lexer tile the text -/

section Worded

variable {kind : TokenKind}

theorem TokenKind.isFinal_worded : kind.worded.IsFinal ↔ kind.IsFinal := by
  cases kind <;> rfl

theorem TokenKind.denotes_worded {lexeme : List Char} :
    kind.worded.Denotes lexeme ↔ kind.Denotes lexeme := by
  cases kind <;> rfl

theorem TokenKind.worded_eq_endOfPath_iff : kind.worded = .endOfPath ↔ kind = .endOfPath := by
  cases kind <;> simp [worded]

theorem TokenKind.worded_eq_misfit_iff {fault : Misfit} {position : Nat} :
    kind.worded = .misfit fault position ↔
      ∃ cause, kind = .misfit cause position ∧ fault = cause.worded position := by
  cases kind <;> simp [worded]
  grind

end Worded

/-- A row still tiles the text when its misfit is told in words. -/
theorem IsTiling.worded {text : List Char} {offset : Nat} {front : List Token} {last : Token}
    (h : IsTiling text offset front last) :
    IsTiling text offset (front.map Token.worded) last.worded := by
  have row : front.map Token.worded ++ [last.worded] = (front ++ [last]).map Token.worded := by
    rw [List.map_append, List.map_singleton]
  refine ⟨?_, TokenKind.isFinal_worded.mpr h.final, ?_, ?_, ?_, ?_, ?_, ?_⟩
  · exact List.forall_mem_map.mpr fun token htoken final ↦
      h.ordinary token htoken (TokenKind.isFinal_worded.mp final)
  · rw [row, List.head?_map]
    intro worded hworded
    obtain ⟨first, hfirst, rfl⟩ := Option.map_eq_some_iff.mp hworded
    exact h.begins first hfirst
  · rw [row, List.isChain_map]
    exact h.contiguous
  · rw [row]
    exact List.forall_mem_map.mpr h.within
  · rw [row]
    refine List.forall_mem_map.mpr fun token htoken ordinary ↦ ?_
    refine TokenKind.denotes_worded.mpr (h.denotes token htoken ?_)
    intro fault position misfit
    exact ordinary (fault.worded position) position
      (TokenKind.worded_eq_misfit_iff.mpr ⟨fault, misfit, rfl⟩)
  · intro ends
    exact h.ends (TokenKind.worded_eq_endOfPath_iff.mp ends)
  · intro fault position misfit
    obtain ⟨told, kind, rfl⟩ := TokenKind.worded_eq_misfit_iff.mp misfit
    exact h.stops told position kind

end PropertyPath
