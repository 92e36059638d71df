import PropertyPath.Proofs.Grammar.Completion
import PropertyPath.Proofs.Grammar.Misfit

/-!
# Tokens of a text that is moved

What is read depends on the text alone. The offset from which positions are counted only moves them,
all by the same number of characters: the spans of the tokens, and the place that a misfit reports.
The wording of a misfit says that place again, at its end, and is otherwise the same everywhere
(`Misfit.TellsPosition`).
-/

namespace PropertyPath

open Grammar (IsLexeme IsMisfit StopsAt)

/-! ## Moving by a number of characters -/

/-- A misfit moves with its text. No other kind of token says where it stands. -/
def TokenKind.shift (count : Nat) : TokenKind → TokenKind
  | .misfit fault position => .misfit fault (position + count)
  | kind => kind

/-- A token moves with its text. -/
def Token.shift (count : Nat) (token : Token) : Token :=
  ⟨token.kind.shift count, token.start + count, token.stop + count⟩

/-- What the wording of a misfit says besides the position. -/
def Misfit.words : Misfit → String
  | .nameExpected => "expected name"
  | .integerExpected | .integerOutOfRange => "could not parse index as integer"
  | .bracketMissing => "missing `]`"
  | .parenMissing => "missing `)`"
  | .unexpectedChar c => "unexpected token `" ++ c.toString ++ "`"
  | .unexpectedToken token => "unexpected token " ++ token
  | .other text => text

/-- Whether the wording of a misfit is the same wherever it is found, and ends in the position. -/
def Misfit.TellsPosition (fault : Misfit) : Prop :=
  ∀ position, fault.message position = fault.words ++ (" at position " ++ toString position)

section Scans

variable {expecting next : Expecting} {text lexeme held : List Char} {kind : TokenKind}
  {ahead : Option Char} {fault : Misfit} {column reported position : Nat} {tokens : List Token}

/-! ## Scans -/

theorem shift_of_isLexeme (h : IsLexeme expecting kind lexeme next) (count : Nat) :
    kind.shift count = kind := by
  cases h <;> rfl

/-- **A scan from further on finds the same tokens further on.** -/
theorem scan_shift (expecting : Expecting) (text : List Char) (position count : Nat) :
    scan expecting text (position + count)
      = (scan expecting text position).map (Token.shift count) := by
  fun_induction scan expecting text position with
  | case1 expecting text position kind lexeme rest next hread ih =>
    have stop : position + count + lexeme.length = position + lexeme.length + count :=
      Nat.add_right_comm _ _ _
    rw [scan_of_token _ hread, stop, ih, List.map_cons, Token.shift,
      shift_of_isLexeme (Grammar.isLexeme_of_read hread)]
  | case2 expecting text position hread =>
    rw [scan_of_endOfPath _ hread]
    rfl
  | case3 expecting text position fault consumed column hread =>
    have place : position + count + column = position + column + count :=
      Nat.add_right_comm _ _ _
    have stop : position + count + consumed.length = position + consumed.length + count :=
      Nat.add_right_comm _ _ _
    rw [scan_of_misfit _ hread, place, stop]
    rfl

theorem tokensOf_shift (text : List Char) (offset : Nat) :
    tokensOf text offset = (tokensOf text 0).map (Token.shift offset) := by
  have shifted := scan_shift (.atStart text) text 0 offset
  rwa [Nat.zero_add] at shifted

theorem stopsAt_map_shift (h : StopsAt fault reported tokens) (count : Nat) :
    StopsAt fault (reported + count) (tokens.map (Token.shift count)) := by
  rw [StopsAt, Option.map_eq_some_iff] at h
  obtain ⟨last, hlast, kind⟩ := h
  rw [StopsAt, List.getLast?_map, hlast, Option.map_some, Option.map_some, Token.shift, kind]
  rfl

/-! ## The wording of misfits -/

/-- Only a wording of the caller's own need not end in the position, and the scanner has none. -/
theorem tellsPosition_of_isMisfit (h : IsMisfit expecting fault held ahead column) :
    fault.TellsPosition := by
  cases h <;> exact fun position ↦ rfl

theorem tellsPosition_of_mem_scan {token : Token} (h : token ∈ scan expecting text position)
    (misfit : token.kind = .misfit fault reported) : fault.TellsPosition := by
  fun_induction scan expecting text position with
  | case1 expecting text position kind lexeme rest next hread ih =>
    rcases List.mem_cons.mp h with rfl | later
    · -- a token that is read is no misfit
      cases misfit
      cases Grammar.isLexeme_of_read hread
    · exact ih later
  | case2 expecting text position hread =>
    cases List.mem_singleton.mp h
    cases misfit
  | case3 expecting text position found consumed column hread =>
    cases List.mem_singleton.mp h
    cases misfit
    obtain ⟨ahead, -, hmisfit⟩ := Grammar.isMisfit_of_read hread
    exact tellsPosition_of_isMisfit hmisfit

theorem tellsPosition_of_stopsAt (h : StopsAt fault reported (scan expecting text position)) :
    fault.TellsPosition := by
  rw [StopsAt, Option.map_eq_some_iff] at h
  obtain ⟨last, hlast, kind⟩ := h
  exact tellsPosition_of_mem_scan (List.mem_of_getLast? hlast) kind

end Scans

end PropertyPath
