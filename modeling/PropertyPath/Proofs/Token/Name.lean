import Mathlib.Computability.RegularExpressions
import PropertyPath.Proofs.Grammar.Tokens
import PropertyPath.Proofs.Path.WellFormed
import PropertyPath.Proofs.Token.Order

/-!
# Names

Names are told from other texts in three ways. The validator of hand-built segments looks at a whole
name, the rule is written as the pattern `^[A-Za-z][A-Za-z0-9?!_]*$`, and the scanner takes the
longest name at the front of a text. The three agree on every text.

The pattern is an expression (`nameExpression`), and its anchors say that the whole text is to be
matched: a text has the pattern if it belongs to the language of the expression. The rule of the
grammar, `IsName`, stands between the three. It is what the validator tests, it spells out the
language, and it is what the lexemes of name tokens have in common.
-/

namespace PropertyPath

namespace Grammar

/-! ## The pattern of a name -/

/-- The expression for a single character of a class. -/
def oneOf (chars : List Char) : RegularExpression Char := (chars.map RegularExpression.char).sum

/-- The class `[A-Za-z]`. -/
def letters : List Char := ('A' ...= 'Z').toList ++ ('a' ...= 'z').toList

/-- The class `[A-Za-z0-9?!_]`. -/
def nameChars : List Char := letters ++ ('0' ...= '9').toList ++ ['?', '!', '_']

/-- The expression `[A-Za-z][A-Za-z0-9?!_]*`. -/
def nameExpression : RegularExpression Char := oneOf letters * (oneOf nameChars).star

section Pattern

variable {chars text : List Char} {c : Char}

theorem mem_oneOf_iff : text ∈ (oneOf chars).matches' ↔ ∃ c ∈ chars, text = [c] := by
  induction chars with
  | nil => exact ⟨fun h ↦ (Language.notMem_zero text h).elim, by simp⟩
  | cons d chars ih =>
    have sum : oneOf (d :: chars) = .char d + oneOf chars := List.sum_cons
    rw [sum, RegularExpression.matches'_add, Language.mem_add, ih, List.exists_mem_cons_iff,
      RegularExpression.matches'_char]
    exact Iff.rfl

/-- The words of a repeated class are the runs of characters of the class. -/
theorem mem_star_oneOf_iff : text ∈ (oneOf chars).star.matches' ↔ ∀ c ∈ text, c ∈ chars := by
  rw [RegularExpression.matches'_star, Language.mem_kstar]
  constructor
  · rintro ⟨words, rfl, hwords⟩ c hc
    obtain ⟨word, hword, hc⟩ := List.mem_flatten.mp hc
    obtain ⟨d, hd, rfl⟩ := mem_oneOf_iff.mp (hwords word hword)
    rwa [List.mem_singleton.mp hc]
  · intro h
    refine ⟨text.map ([·]), ?_, ?_⟩
    · rw [← List.flatMap_def, List.flatMap_singleton']
    · rw [List.forall_mem_map]
      exact fun c hc ↦ mem_oneOf_iff.mpr ⟨c, h c hc, rfl⟩

theorem mem_letters_iff : c ∈ letters ↔ IsLetter c := by
  rw [letters, List.mem_append, Std.Rcc.mem_toList_iff_mem, Std.Rcc.mem_toList_iff_mem]
  exact Iff.rfl

theorem mem_nameChars_iff :
    c ∈ nameChars ↔ IsLetter c ∨ '0' ≤ c ∧ c ≤ '9' ∨ c = '?' ∨ c = '!' ∨ c = '_' := by
  have digit : c ∈ ('0' ...= '9').toList ↔ '0' ≤ c ∧ c ≤ '9' := Std.Rcc.mem_toList_iff_mem
  simp [nameChars, mem_letters_iff, digit]

/-- **The texts of the pattern are the names of the grammar.** -/
theorem mem_nameExpression_iff : text ∈ nameExpression.matches' ↔ IsName text := by
  rw [nameExpression, RegularExpression.matches'_mul, Language.mem_mul]
  constructor
  · rintro ⟨first, hfirst, rest, hrest, rfl⟩
    obtain ⟨c, hc, rfl⟩ := mem_oneOf_iff.mp hfirst
    exact ⟨mem_letters_iff.mp hc,
      fun d hd ↦ mem_nameChars_iff.mp (mem_star_oneOf_iff.mp hrest d hd)⟩
  · intro h
    rcases text with _ | ⟨c, rest⟩
    · exact h.elim
    · refine ⟨[c], mem_oneOf_iff.mpr ⟨c, mem_letters_iff.mpr h.1, rfl⟩, rest, ?_, rfl⟩
      exact mem_star_oneOf_iff.mpr fun d hd ↦ mem_nameChars_iff.mpr (h.2 d hd)

end Pattern

/-! ## The scan of a name -/

section Scan

variable {text : List Char} (offset : Nat)

theorem tokensOf_name (h : IsName text) : tokensOf text offset
    = [nameToken offset text, ⟨.endOfPath, offset + text.length, offset + text.length⟩] := by
  have path : IsPath IsInt64 [.plain text] :=
    ⟨isRow_plain_iff.mpr ⟨h, by simp, isRow_nil⟩, List.cons_ne_nil _ _⟩
  have scanned := tokensOf_chars path offset
  rw [chars, chars_plain, row_nil, List.append_nil] at scanned
  rw [scanned, tokens, chars_plain]
  rfl

variable {offset}

theorem isName_of_scan {expecting : Expecting} {stop : Nat}
    (h : scan expecting text offset = [nameToken offset text, ⟨.endOfPath, stop, stop⟩]) :
    IsName text := by
  have row : scan expecting text offset
      = [nameToken offset text] ++ [⟨.endOfPath, stop, stop⟩] := h
  cases leadsToEnd_of_scan row rfl with
  | cons start stop first onward =>
    generalize eq : String.ofList text = name at first
    cases first with
    | name hname => rwa [String.ofList_injective eq]

end Scan

end Grammar

open Grammar

/-- **A name is what is scanned as a name.** A text passes the validator exactly if it has the
pattern, and exactly if its scan is one name token, which holds the text and spans it, and the end
of the path. -/
theorem isName_iff_scanned_as_name (name : String) :
    (isName name = true ↔ name.toList ∈ nameExpression.matches') ∧
    (isName name = true ↔ tokensOf name.toList 0
      = [⟨.name name, 0, name.length⟩, ⟨.endOfPath, name.length, name.length⟩]) := by
  rw [isName_iff]
  refine ⟨mem_nameExpression_iff.symm, ?_⟩
  have token : nameToken 0 name.toList = ⟨.name name, 0, name.length⟩ := by
    rw [nameToken, String.ofList_toList, String.length_toList, Nat.zero_add]
  rw [← token]
  constructor
  · intro h
    have scanned := tokensOf_name 0 h
    rwa [String.length_toList, Nat.zero_add] at scanned
  · exact isName_of_scan

/-- The end of a line is not the end of a name. -/
example : isName "a\n" = false := by decide

end PropertyPath
