import PropertyPath.Proofs.Grammar.Reading

/-!
# What a reading depends on

`IsMisfit` says, without a scanner, where nothing that is expected can be read: it relates what was
read before the misfit was noticed, the character ahead of it, and the place where it is reported.
Beside it `EndsLexeme` says which characters may follow a lexeme. With `IsLexeme` these decide every
reading (`read_eq_token_iff`, `read_eq_misfit_iff`).

None of them looks further ahead than one character. So a reading stays the same on every text that
shares what was read and the character behind it.
-/

namespace PropertyPath.Grammar

open Text (IntegerLiteral IsMagnitude)

/-! ## Misfits -/

/-- The misfits where something is expected: the text read before the misfit was noticed, the
character ahead of it, and how far into the text read it is reported. -/
inductive IsMisfit : Expecting → Misfit → List Char → Option Char → Nat → Prop where
  | segment {c : Char} (h : c ≠ '.' ∧ c ≠ '[' ∧ c ≠ '(') :
    IsMisfit .segment (.unexpectedChar c) [] (some c) 0
  | name {next : Option Char} (h : ∀ c ∈ next, ¬IsLetter c) :
    IsMisfit .name .nameExpected [] next 0
  /-- At most a sign was read. -/
  | integer {negative : Bool} {next : Option Char} (h : Text.EndsSign negative next) :
    IsMisfit .integer .integerExpected (IntegerLiteral.chars ⟨negative, []⟩) next
      (IntegerLiteral.chars ⟨negative, []⟩).length
  /-- A whole integer was read, and is reported where it begins. -/
  | outOfRange {literal : IntegerLiteral} {next : Option Char} (h : IsMagnitude literal.digits)
    (hrange : ¬IsInt64 literal.value) (boundary : ∀ c ∈ next, c.isDigit = false) :
    IsMisfit .integer .integerOutOfRange literal.chars next 0
  | closeBracket {next : Option Char} (h : next ≠ some ']') :
    IsMisfit .closeBracket .bracketMissing [] next 0
  /-- The rest of the text was read. -/
  | key {held : List Char} (h : ')' ∉ held) : IsMisfit .key .parenMissing held none held.length
  | closeParen {next : Option Char} (h : next ≠ some ')') :
    IsMisfit .closeParen .parenMissing [] next 0

section Misfits

variable {expecting : Expecting} {text held ahead : List Char} {next : Option Char}
  {fault : Misfit} {column : Nat}

/-- A misfit is reported where it is noticed, except for an integer out of range. -/
theorem column_eq_length (h : IsMisfit expecting fault held next column)
    (hfault : fault ≠ .integerOutOfRange) : column = held.length := by
  rcases h
  case outOfRange => exact absurd rfl hfault
  all_goals rfl

theorem isInt64_of_zero {literal : IntegerLiteral} (h : literal.digits = ['0']) :
    IsInt64 literal.value := by
  obtain ⟨negative, digits⟩ := literal
  subst h
  cases negative <;> decide

theorem isMisfit_of_segment (h : Reading.segment text = .misfit fault held column) :
    ∃ ahead, held ++ ahead = text ∧ IsMisfit .segment fault held ahead.head? column := by
  rcases text with _ | ⟨c, more⟩
  · cases h
  · rw [Reading.segment] at h
    split at h
    · cases h
    split at h
    · cases h
    split at h
    · cases h
    · next dot bracket paren =>
      cases h
      exact ⟨c :: more, rfl, .segment ⟨dot, bracket, paren⟩⟩

theorem isMisfit_of_name (h : Reading.name text = .misfit fault held column) :
    ∃ ahead, held ++ ahead = text ∧ IsMisfit .name fault held ahead.head? column := by
  rcases text with _ | ⟨c, more⟩
  · cases h
    exact ⟨[], rfl, .name (by simp)⟩
  · rw [Reading.name] at h
    split at h
    · cases h
    · next start =>
      cases h
      rw [isNameStart_iff] at start
      exact ⟨c :: more, rfl, .name (by simpa using start)⟩

/-- Without digits no integer was read, and with digits it is out of range. -/
theorem isMisfit_of_integer (h : Reading.integer text = .misfit fault held column) :
    ∃ ahead, held ++ ahead = text ∧ IsMisfit .integer fault held ahead.head? column := by
  have append := Text.splitInteger_append text
  rw [Reading.integer] at h
  split at h
  · next digits =>
    cases h
    have ends := Text.endsSign_splitInteger digits
    generalize (Text.splitInteger text).1 = literal at digits append ends ⊢
    obtain ⟨negative, _⟩ := literal
    subst digits
    exact ⟨_, append, .integer ends⟩
  · next digits =>
    split at h
    · cases h
    · next outside =>
      cases h
      have hrange : ¬IsInt64 (Text.splitInteger text).1.value := by
        intro hrange
        rw [int64?_of_isInt64 hrange] at outside
        cases outside
      -- only a zero ends in front of a digit, and zero is in range
      have boundary := (Text.boundary_splitInteger text).resolve_left fun zero ↦
        hrange (isInt64_of_zero zero)
      exact ⟨_, append, .outOfRange (Text.isMagnitude_splitInteger text digits) hrange boundary⟩

theorem isMisfit_of_closeBracket (h : Reading.closeBracket text = .misfit fault held column) :
    ∃ ahead, held ++ ahead = text ∧ IsMisfit .closeBracket fault held ahead.head? column := by
  rcases text with _ | ⟨c, more⟩
  · cases h
    exact ⟨[], rfl, .closeBracket (by simp)⟩
  · rw [Reading.closeBracket] at h
    split at h
    · cases h
    · next bracket =>
      cases h
      exact ⟨c :: more, rfl, .closeBracket (by simpa using bracket)⟩

theorem isMisfit_of_key (h : Reading.key text = .misfit fault held column) :
    ∃ ahead, held ++ ahead = text ∧ IsMisfit .key fault held ahead.head? column := by
  rw [Reading.key] at h
  split at h
  · next behind =>
    cases h
    have append : text.takeWhile (· ≠ ')') ++ text.dropWhile (· ≠ ')') = text :=
      List.takeWhile_append_dropWhile
    rw [behind] at append
    refine ⟨[], append, .key fun mem ↦ ?_⟩
    simpa using List.mem_takeWhile_imp mem
  · cases h

theorem isMisfit_of_closeParen (h : Reading.closeParen text = .misfit fault held column) :
    ∃ ahead, held ++ ahead = text ∧ IsMisfit .closeParen fault held ahead.head? column := by
  rcases text with _ | ⟨c, more⟩
  · cases h
    exact ⟨[], rfl, .closeParen (by simp)⟩
  · rw [Reading.closeParen] at h
    split at h
    · cases h
    · next paren =>
      cases h
      exact ⟨c :: more, rfl, .closeParen (by simpa using paren)⟩

theorem isMisfit_of_read (h : read expecting text = .misfit fault held column) :
    ∃ ahead, held ++ ahead = text ∧ IsMisfit expecting fault held ahead.head? column := by
  cases expecting with
  | segment => exact isMisfit_of_segment h
  | name => exact isMisfit_of_name h
  | integer => exact isMisfit_of_integer h
  | closeBracket => exact isMisfit_of_closeBracket h
  | key => exact isMisfit_of_key h
  | closeParen => exact isMisfit_of_closeParen h

theorem read_of_isMisfit (h : IsMisfit expecting fault held ahead.head? column) :
    read expecting (held ++ ahead) = .misfit fault held column := by
  generalize hnext : ahead.head? = next at h
  rcases h
  case segment c h =>
    obtain ⟨more, rfl⟩ := List.head?_eq_some_iff.mp hnext
    rw [List.nil_append, read, Reading.segment, if_neg h.1, if_neg h.2.1, if_neg h.2.2]
  case name h =>
    rcases ahead with _ | ⟨c, more⟩
    · rfl
    · have start : ¬isNameStart c = true := by
        rw [isNameStart_iff]
        exact h c hnext.symm
      rw [List.nil_append, read, Reading.name, if_neg start]
  case integer negative h =>
    rw [← hnext] at h
    rw [read, Reading.integer, Text.splitInteger_append_of_endsSign h]
    rfl
  case outOfRange literal hmagnitude hrange boundary =>
    exact read_integer_outOfRange hmagnitude hrange (hnext ▸ boundary)
  case closeBracket h =>
    rcases ahead with _ | ⟨c, more⟩
    · rfl
    · have bracket : c ≠ ']' := fun eq ↦ h (hnext ▸ congrArg some eq)
      rw [List.nil_append, read, Reading.closeBracket, if_neg bracket]
  case key h =>
    obtain rfl : ahead = [] := List.head?_eq_none_iff.mp hnext
    have inside : ∀ c ∈ held, decide (c ≠ ')') = true := by
      intro c hc
      simp only [decide_eq_true_eq]
      rintro rfl
      exact h hc
    have noBoundary : ∀ c ∈ ([] : List Char).head?, decide (c ≠ ')') = false := by simp
    rw [read, Reading.key, Text.takeWhile_run inside noBoundary,
      Text.dropWhile_run inside noBoundary]
  case closeParen h =>
    rcases ahead with _ | ⟨c, more⟩
    · rfl
    · have paren : c ≠ ')' := fun eq ↦ h (hnext ▸ congrArg some eq)
      rw [List.nil_append, read, Reading.closeParen, if_neg paren]

/-- **The misfits are read exactly.** -/
theorem read_eq_misfit_iff : read expecting (held ++ ahead) = .misfit fault held column
    ↔ IsMisfit expecting fault held ahead.head? column := by
  refine ⟨fun h ↦ ?_, read_of_isMisfit⟩
  obtain ⟨ahead', eq, misfit⟩ := isMisfit_of_read h
  rwa [List.append_cancel_left eq] at misfit

end Misfits

/-! ## Lexemes and what follows them -/

/-- The characters that may follow a lexeme: they do not continue it, and behind a key there is a
closing parenthesis. A zero is not continued by anything. -/
def EndsLexeme (lexeme : List Char) (next : Option Char) : Expecting → Prop
  | .name => ∀ c ∈ next, isNameChar c = false
  | .integer => (∃ negative, lexeme = IntegerLiteral.chars ⟨negative, ['0']⟩) ∨
      ∀ c ∈ next, c.isDigit = false
  | .key => next = some ')'
  | _ => True

section Lexemes

variable {expecting after : Expecting} {text lexeme rest rest' : List Char} {kind : TokenKind}

theorem endsLexeme_of_read (h : read expecting text = .token kind lexeme rest after) :
    EndsLexeme lexeme rest.head? expecting := by
  rcases expecting
  case name =>
    rcases text with _ | ⟨c, more⟩
    · cases h
    · rw [read, Reading.name] at h
      split at h
      · cases h
        exact Text.boundary_dropWhile isNameChar more
      · cases h
  case integer =>
    rw [read, Reading.integer] at h
    split at h
    · cases h
    split at h
    · cases h
      refine (Text.boundary_splitInteger text).imp_left fun zero ↦ ?_
      generalize (Text.splitInteger text).1 = literal at zero ⊢
      obtain ⟨negative, _⟩ := literal
      subst zero
      exact ⟨negative, rfl⟩
    · cases h
  case key =>
    rw [read, Reading.key] at h
    split at h
    · cases h
    · next c more behind =>
      cases h
      have boundary := Text.boundary_dropWhile (· ≠ ')') text
      rw [behind] at boundary
      simpa [EndsLexeme] using boundary
  all_goals trivial

theorem read_of_isLexeme (h : IsLexeme expecting kind lexeme after)
    (ends : EndsLexeme lexeme rest.head? expecting) :
    read expecting (lexeme ++ rest) = .token kind lexeme rest after := by
  rcases h
  case name hname => exact read_name hname ends
  case index literal hmagnitude hrange =>
    rcases ends with ⟨negative, zero⟩ | boundary
    · have eq : literal = ⟨negative, ['0']⟩ :=
        Text.chars_inj_of_isMagnitude hmagnitude (Or.inl ⟨rfl, rfl⟩) zero
      have digits : literal.digits ≠ [] := Text.ne_nil_of_isMagnitude hmagnitude
      rw [read, Reading.integer, Text.splitInteger_append_of_zero (by rw [eq])]
      simp only [digits, if_false, int64?_of_isInt64 hrange]
    · exact read_integer hmagnitude hrange boundary
  case key hkey =>
    obtain ⟨more, rfl⟩ := List.head?_eq_some_iff.mp ends
    exact read_key hkey
  all_goals rfl

/-- **The tokens are read exactly.** -/
theorem read_eq_token_iff : read expecting (lexeme ++ rest) = .token kind lexeme rest after
    ↔ IsLexeme expecting kind lexeme after ∧ EndsLexeme lexeme rest.head? expecting :=
  ⟨fun h ↦ ⟨isLexeme_of_read h, endsLexeme_of_read h⟩, fun h ↦ read_of_isLexeme h.1 h.2⟩

end Lexemes

/-! ## One character of lookahead -/

section Lookahead

variable {expecting after : Expecting} {text lexeme rest rest' held ahead ahead' : List Char}
  {kind : TokenKind} {fault : Misfit} {column : Nat}

/-- A token is read as well in front of another text that begins with the same character. -/
theorem read_token_of_head?_eq (h : read expecting text = .token kind lexeme rest after)
    (eq : rest.head? = rest'.head?) :
    read expecting (lexeme ++ rest') = .token kind lexeme rest' after := by
  rw [← lexeme_append_rest h, read_eq_token_iff] at h
  rwa [read_eq_token_iff, ← eq]

theorem read_misfit_of_head?_eq (h : read expecting (held ++ ahead) = .misfit fault held column)
    (eq : ahead.head? = ahead'.head?) :
    read expecting (held ++ ahead') = .misfit fault held column := by
  rw [read_eq_misfit_iff] at h ⊢
  rwa [← eq]

end Lookahead

end PropertyPath.Grammar
