import PropertyPath.Proofs.Grammar.Misfit
import PropertyPath.Token.Scan

/-!
# Tokens tile the text

The tokens of a text lie side by side. The first one begins at the offset, each of the others where
the one before it stops, and the text in the span of a token is what the token says. Only the last
token says how the scan ended. It is the end of the path, behind the whole text, or a misfit, whose
span is what was read since the token before it.

`IsTiling` collects this for one row of tokens. A scan grows such a row from its end, one token in
front at a time (`IsTiling.cons`), by laying lexemes end to end. The lexer keeps counts instead, and
that they come to the same spans is for `PropertyPath.Proofs.Token.Lexer` to show.
-/

namespace PropertyPath

open Grammar
open Text (IntegerLiteral IsMagnitude)

/-! ## Spans and what they hold -/

/-- The characters in the span of a token, in a text that begins at `offset`. -/
def Token.slice (text : List Char) (offset : Nat) (token : Token) : List Char :=
  (text.drop (token.start - offset)).take (token.stop - token.start)

/-- Whether a token ends a scan. -/
def TokenKind.IsFinal : TokenKind → Prop
  | .endOfPath | .misfit _ _ => True
  | _ => False

/-- Whether a token is what is written in its span. A misfit does not stand for any text. -/
def TokenKind.Denotes (lexeme : List Char) : TokenKind → Prop
  | .endOfPath => lexeme = []
  | .misfit _ _ => False
  | .dot => lexeme = ['.']
  | .name text => lexeme = text.toList
  | .openBracket => lexeme = ['[']
  | .index value => ∃ literal : IntegerLiteral, IsMagnitude literal.digits ∧
      lexeme = literal.chars ∧ value.toInt = literal.value
  | .closeBracket => lexeme = [']']
  | .openParen => lexeme = ['(']
  | .key text => lexeme = text.toList
  | .closeParen => lexeme = [')']

section Lexemes

variable {expecting next : Expecting} {kind : TokenKind} {lexeme : List Char}

theorem denotes_of_isLexeme (h : IsLexeme expecting kind lexeme next) : kind.Denotes lexeme := by
  rcases h
  case index literal hmagnitude hrange =>
    exact ⟨literal, hmagnitude, rfl, toInt_of_isInt64 hrange⟩
  case name => exact String.toList_ofList.symm
  case key => exact String.toList_ofList.symm
  all_goals rfl

theorem not_isFinal_of_isLexeme (h : IsLexeme expecting kind lexeme next) : ¬kind.IsFinal := by
  rcases h <;> exact id

end Lexemes

/-! ## Rows of tokens that tile a text -/

/-- The tokens `front` and, behind them, `last` tile a text that begins at `offset`. -/
structure IsTiling (text : List Char) (offset : Nat) (front : List Token) (last : Token) :
    Prop where
  ordinary : ∀ token ∈ front, ¬token.kind.IsFinal
  final : last.kind.IsFinal
  begins : ∀ first ∈ (front ++ [last]).head?, first.start = offset
  contiguous : (front ++ [last]).IsChain fun token next ↦ next.start = token.stop
  within : ∀ token ∈ front ++ [last],
    offset ≤ token.start ∧ token.start ≤ token.stop ∧ token.stop ≤ offset + text.length
  denotes : ∀ token ∈ front ++ [last], (∀ fault position, token.kind ≠ .misfit fault position) →
    token.kind.Denotes (token.slice text offset)
  /-- The end of the path is behind the whole text. -/
  ends : last.kind = .endOfPath →
    last.start = offset + text.length ∧ last.stop = offset + text.length
  /-- A misfit stops where the scanner has read to: its span is the text read in vain, and the
  character behind the span is the one that did not fit. Its wording names the position. -/
  stops : ∀ fault position, last.kind = .misfit fault position → ∃ cause expecting column,
    fault.message position = cause.message position ∧
      IsMisfit expecting cause (last.slice text offset) text[last.stop - offset]? column ∧
      position = last.start + column

namespace IsTiling

variable {text lexeme rest : List Char} {offset : Nat} {front : List Token} {last : Token}
  {kind : TokenKind}

theorem slice_append {token : Token} (h : offset + lexeme.length ≤ token.start) :
    token.slice (lexeme ++ rest) offset = token.slice rest (offset + lexeme.length) := by
  have past : token.start - offset = lexeme.length + (token.start - (offset + lexeme.length)) := by
    omega
  rw [Token.slice, Token.slice, past, List.drop_length_add_append]

theorem endOfPath (offset : Nat) : IsTiling [] offset [] ⟨.endOfPath, offset, offset⟩ where
  ordinary := by simp
  final := trivial
  begins := by simp
  contiguous := by simp
  within := by simp
  denotes := by simp [Token.slice, TokenKind.Denotes]
  ends := by simp
  stops := by simp

theorem misfit {expecting : Expecting} {fault : Misfit} {held ahead : List Char} {column : Nat}
    (h : IsMisfit expecting fault held ahead.head? column) (offset : Nat) :
    IsTiling (held ++ ahead) offset []
      ⟨.misfit fault (offset + column), offset, offset + held.length⟩ where
  ordinary := by simp
  final := trivial
  begins := by simp
  contiguous := by simp
  within := by simp
  denotes := by simp
  ends := by simp
  stops := by
    rintro fault position ⟨rfl, rfl⟩
    refine ⟨fault, expecting, column, rfl, ?_, rfl⟩
    have slice : Token.slice (held ++ ahead) offset
        ⟨.misfit fault (offset + column), offset, offset + held.length⟩ = held := by
      simp [Token.slice]
    have next : (held ++ ahead)[offset + held.length - offset]? = ahead.head? := by
      rw [Nat.add_sub_cancel_left, List.getElem?_append_right (Nat.le_refl _), Nat.sub_self,
        List.head?_eq_getElem?]
    rwa [slice, next]

/-- A token in front of a row that tiles the text behind it. -/
theorem cons (h : IsTiling rest (offset + lexeme.length) front last) (denotes : kind.Denotes lexeme)
    (ordinary : ¬kind.IsFinal) :
    IsTiling (lexeme ++ rest) offset (⟨kind, offset, offset + lexeme.length⟩ :: front) last := by
  have length : (lexeme ++ rest).length = lexeme.length + rest.length := List.length_append
  have tail : ∀ token ∈ front ++ [last], offset + lexeme.length ≤ token.start :=
    fun token htoken ↦ (h.within token htoken).1
  have hlast : last ∈ front ++ [last] := List.mem_append_right _ List.mem_cons_self
  refine ⟨?_, h.final, ?_, ?_, ?_, ?_, ?_, ?_⟩
  · exact List.forall_mem_cons.mpr ⟨ordinary, h.ordinary⟩
  · intro first hfirst
    cases hfirst
    rfl
  · exact List.isChain_cons.mpr ⟨h.begins, h.contiguous⟩
  · refine List.forall_mem_cons.mpr ⟨?_, fun token htoken ↦ ?_⟩
    · simp only [length]
      omega
    · have within := h.within token htoken
      omega
  · refine List.forall_mem_cons.mpr ⟨fun _ ↦ ?_, fun token htoken ↦ ?_⟩
    · have slice : Token.slice (lexeme ++ rest) offset ⟨kind, offset, offset + lexeme.length⟩
          = lexeme := by
        simp [Token.slice]
      rwa [slice]
    · rw [slice_append (tail token htoken)]
      exact h.denotes token htoken
  · intro kindEq
    rw [length, ← Nat.add_assoc]
    exact h.ends kindEq
  · intro fault position kindEq
    have before : lexeme.length ≤ last.stop - offset := by
      have within := h.within last hlast
      omega
    rw [slice_append (tail last hlast), List.getElem?_append_right before, Nat.sub_sub]
    exact h.stops fault position kindEq

end IsTiling

/-! ## Scans -/

/-- A scan grows a tiling from its end. -/
theorem exists_isTiling_scan (expecting : Expecting) (text : List Char) (position : Nat) :
    ∃ front last, scan expecting text position = front ++ [last] ∧
      IsTiling text position front last := by
  fun_induction scan expecting text position with
  | case1 expecting text position kind lexeme rest next h ih =>
    obtain ⟨front, last, eq, tiling⟩ := ih
    have hlexeme := isLexeme_of_read h
    refine ⟨⟨kind, position, position + lexeme.length⟩ :: front, last, ?_, ?_⟩
    · rw [eq, List.cons_append]
    · rw [← lexeme_append_rest h]
      exact tiling.cons (denotes_of_isLexeme hlexeme) (not_isFinal_of_isLexeme hlexeme)
  | case2 expecting text position h =>
    have nil : (Reading.endOfPath).Splits text := h ▸ splits_read expecting text
    obtain rfl : text = [] := nil
    exact ⟨[], _, rfl, .endOfPath position⟩
  | case3 expecting text position fault consumed column h =>
    obtain ⟨ahead, rfl, misfit⟩ := isMisfit_of_read h
    exact ⟨[], _, rfl, .misfit misfit position⟩

end PropertyPath
