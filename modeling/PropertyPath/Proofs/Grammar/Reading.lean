import PropertyPath.Proofs.Grammar.Basic
import PropertyPath.Token.Reading

/-!
# Lexemes are read exactly

`IsLexeme` says, without a scanner, which texts are tokens where something is expected, and what is
expected behind them. Every token that is read is one of these (`isLexeme_of_read`). The other way
round a punctuation mark is read wherever it is expected, and a name, an integer or a key is read
whole if something follows that does not continue it (`read_name`, `read_integer`, `read_key`).
-/

namespace PropertyPath

theorem int64?_of_isInt64 {value : Int} (h : IsInt64 value) :
    int64? value = some (Int64.ofInt value) := if_pos h

theorem int64?_eq_none_of_not_isInt64 {value : Int} (h : ¬IsInt64 value) : int64? value = none :=
  if_neg h

theorem isInt64_of_int64?_eq_some {value : Int} {word : Int64} (h : int64? value = some word) :
    IsInt64 value := by
  by_contra hrange
  rw [int64?_eq_none_of_not_isInt64 hrange] at h
  cases h

namespace Grammar

open Text (IntegerLiteral IsMagnitude)

/-! ## Lexemes -/

/-- The token of a text where something is expected, and what is expected behind it. -/
inductive IsLexeme : Expecting → TokenKind → List Char → Expecting → Prop where
  | dot : IsLexeme .segment .dot ['.'] .name
  | openBracket : IsLexeme .segment .openBracket ['['] .integer
  | openParen : IsLexeme .segment .openParen ['('] .key
  | name {text : List Char} (h : IsName text) :
    IsLexeme .name (.name (String.ofList text)) text .segment
  | index {literal : IntegerLiteral} (h : IsMagnitude literal.digits)
    (hrange : IsInt64 literal.value) :
    IsLexeme .integer (.index (Int64.ofInt literal.value)) literal.chars .closeBracket
  | closeBracket : IsLexeme .closeBracket .closeBracket [']'] .segment
  | key {text : List Char} (h : ')' ∉ text) :
    IsLexeme .key (.key (String.ofList text)) text .closeParen
  | closeParen : IsLexeme .closeParen .closeParen [')'] .segment

theorem isLexeme_of_read {expecting next : Expecting} {text lexeme rest : List Char}
    {kind : TokenKind} (h : read expecting text = .token kind lexeme rest next) :
    IsLexeme expecting kind lexeme next := by
  cases expecting with
  | segment =>
    rcases text with _ | ⟨c, more⟩
    · cases h
    · rw [read, Reading.segment] at h
      split at h
      · next dot => cases h; exact dot ▸ .dot
      split at h
      · next bracket => cases h; exact bracket ▸ .openBracket
      split at h
      · next paren => cases h; exact paren ▸ .openParen
      · cases h
  | name =>
    rcases text with _ | ⟨c, more⟩
    · cases h
    · rw [read, Reading.name] at h
      split at h
      · next start =>
        cases h
        exact .name (isName_cons_iff.mpr ⟨start, fun d hd ↦ List.mem_takeWhile_imp hd⟩)
      · cases h
  | integer =>
    rw [read, Reading.integer] at h
    split at h
    · cases h
    · next digits =>
      split at h
      · next value hvalue =>
        -- the word read is the one of the literal, which is in range
        have hrange := isInt64_of_int64?_eq_some hvalue
        rw [int64?_of_isInt64 hrange] at hvalue
        cases hvalue
        cases h
        exact .index (Text.isMagnitude_splitInteger text digits) hrange
      · cases h
  | closeBracket =>
    rcases text with _ | ⟨c, more⟩
    · cases h
    · rw [read, Reading.closeBracket] at h
      split at h
      · next bracket => cases h; exact bracket ▸ .closeBracket
      · cases h
  | key =>
    rw [read, Reading.key] at h
    split at h
    · cases h
    · cases h
      refine .key fun hc ↦ ?_
      simpa using List.mem_takeWhile_imp hc
  | closeParen =>
    rcases text with _ | ⟨c, more⟩
    · cases h
    · rw [read, Reading.closeParen] at h
      split at h
      · next paren => cases h; exact paren ▸ .closeParen
      · cases h

/-! ## Reading a lexeme and what follows it -/

section Words

variable (rest : List Char)

theorem read_dot : read .segment ('.' :: rest) = .token .dot ['.'] rest .name := rfl

theorem read_openBracket :
    read .segment ('[' :: rest) = .token .openBracket ['['] rest .integer := rfl

theorem read_openParen : read .segment ('(' :: rest) = .token .openParen ['('] rest .key := rfl

theorem read_closeBracket :
    read .closeBracket (']' :: rest) = .token .closeBracket [']'] rest .segment := rfl

theorem read_closeParen :
    read .closeParen (')' :: rest) = .token .closeParen [')'] rest .segment := rfl

variable {rest}

theorem read_name {name : List Char} (h : IsName name)
    (boundary : ∀ c ∈ rest.head?, isNameChar c = false) :
    read .name (name ++ rest) = .token (.name (String.ofList name)) name rest .segment := by
  cases name with
  | nil => exact h.elim
  | cons c more =>
    obtain ⟨start, inside⟩ := isName_cons_iff.mp h
    rw [List.cons_append, read, Reading.name, if_pos start]
    simp only [Text.takeWhile_run inside boundary, Text.dropWhile_run inside boundary]

theorem read_integer {literal : IntegerLiteral} (h : IsMagnitude literal.digits)
    (hrange : IsInt64 literal.value) (boundary : ∀ c ∈ rest.head?, c.isDigit = false) :
    read .integer (literal.chars ++ rest)
      = .token (.index (Int64.ofInt literal.value)) literal.chars rest .closeBracket := by
  have digits := Text.ne_nil_of_isMagnitude h
  rw [read, Reading.integer, Text.splitInteger_append_of_isMagnitude h boundary]
  simp only [digits, if_false, int64?_of_isInt64 hrange]

/-- An integer outside the range is read as far as it goes, and reported where it begins. -/
theorem read_integer_outOfRange {literal : IntegerLiteral} (h : IsMagnitude literal.digits)
    (hrange : ¬IsInt64 literal.value) (boundary : ∀ c ∈ rest.head?, c.isDigit = false) :
    read .integer (literal.chars ++ rest) = .misfit .integerOutOfRange literal.chars 0 := by
  have digits := Text.ne_nil_of_isMagnitude h
  rw [read, Reading.integer, Text.splitInteger_append_of_isMagnitude h boundary]
  simp only [digits, if_false, int64?_eq_none_of_not_isInt64 hrange]

theorem read_key {key : List Char} (h : ')' ∉ key) :
    read .key (key ++ ')' :: rest)
      = .token (.key (String.ofList key)) key (')' :: rest) .closeParen := by
  have inside : ∀ c ∈ key, decide (c ≠ ')') = true := by
    intro c hc
    simp only [decide_eq_true_eq]
    rintro rfl
    exact h hc
  have boundary : ∀ c ∈ (')' :: rest).head?, decide (c ≠ ')') = false := by simp
  rw [read, Reading.key, Text.takeWhile_run inside boundary, Text.dropWhile_run inside boundary]

end Words

end Grammar

end PropertyPath
