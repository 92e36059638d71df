import PropertyPath.Proofs.Path.Position
import PropertyPath.Proofs.Token.Shift

/-!
# Paths in texts that are moved

White space around a text changes nothing but positions. Trimming takes it away, so the same text is
scanned, and the number of characters in front of it is the offset from which positions are counted.
A path has no positions, nor has an argument that is refused; a misfit moves with the text.
-/

namespace PropertyPath

open Grammar

/-- A fault moves with the text it was found in, if it says where. -/
def Fault.shift (count : Nat) : Fault → Fault
  | .malformed fault position => .malformed fault (position + count)
  | fault => fault

section Results

variable {α : Type} {result : Except Fault α} {count : Nat}

/-! ## Results that are moved -/

theorem mapError_shift_eq_ok_iff {value : α} :
    result.mapError (Fault.shift count) = .ok value ↔ result = .ok value := by
  cases result <;> simp [Except.mapError]

theorem mapError_shift_eq_argument_iff {argument : ArgumentFault} :
    result.mapError (Fault.shift count) = .error (.argument argument)
      ↔ result = .error (.argument argument) := by
  rcases result with (_ | _ | _ | _) | _ <;> simp [Except.mapError, Fault.shift]

theorem mapError_shift_eq_malformed_iff {misfit : Misfit} {position : Nat} :
    result.mapError (Fault.shift count) = .error (.malformed misfit position)
      ↔ ∃ place, result = .error (.malformed misfit place) ∧ position = place + count := by
  rcases result with (_ | _ | _ | _) | _ <;> simp [Except.mapError, Fault.shift, eq_comm]

end Results

/-! ## Texts with an offset -/

/-- Whether a scan stops does not depend on the offset. If it does, the misfit has moved; if it does
not, the segments are those of the derivation, wherever the tokens stand. -/
theorem bind_ofTokens_shift (text : List Char) (offset : Nat) :
    (tokensOrFault text offset).bind Path.ofTokens
      = ((tokensOrFault text 0).bind Path.ofTokens).mapError (Fault.shift offset) := by
  by_cases stops : EndsInMisfit (tokensOf text 0)
  · obtain ⟨misfit, position, stops⟩ := stops
    have moved : StopsAt misfit (position + offset) (tokensOf text offset) := by
      rw [tokensOf_shift]
      exact stopsAt_map_shift stops offset
    rw [tokensOrFault_of_stopsAt stops, tokensOrFault_of_stopsAt moved]
    rfl
  · rw [endsInMisfit_tokensOf_iff, not_not] at stops
    obtain ⟨items, hitems, rfl⟩ := stops
    rw [tokensOrFault_chars offset hitems, tokensOrFault_chars 0 hitems, Except.bind, Except.bind,
      ofTokens_tokens offset hitems, ofTokens_tokens 0 hitems]
    rfl

theorem parseTrimmed_shift (text : List Char) (offset : Nat) :
    Path.parseTrimmed text offset = (Path.parseTrimmed text 0).mapError (Fault.shift offset) := by
  rw [Path.parseTrimmed, Path.parseTrimmed]
  split
  · rfl
  · split
    · rfl
    · exact bind_ofTokens_shift text offset

/-! ## White space around a text -/

/-- **White space in front moves a fault, and white space behind changes nothing.** -/
theorem parse_append_append {before text after : String} (trimmed : Text.IsTrimmed text.toList)
    (hbefore : ∀ c ∈ before.toList, Text.isWhiteSpace c = true)
    (hafter : ∀ c ∈ after.toList, Text.isWhiteSpace c = true) :
    Path.parse (before ++ text ++ after)
      = (Path.parse text).mapError (Fault.shift before.length) := by
  have chars : (before ++ text ++ after).toList = before.toList ++ text.toList ++ after.toList := by
    simp
  by_cases nil : text.toList = []
  · -- all of it is white space, and a blank text has no position
    have blank : ∀ c ∈ (before ++ text ++ after).toList, Text.isWhiteSpace c = true := by
      rw [chars, nil, List.append_nil]
      exact List.forall_mem_append.mpr ⟨hbefore, hafter⟩
    rw [Path.parse, Path.parse, Text.trim_of_blank blank, nil]
    rfl
  · have trim : Text.trim (before ++ text ++ after).toList = text.toList := by
      rw [chars]
      exact Text.trim_append_append hbefore hafter nil trimmed.1 trimmed.2
    have indent : Text.indent (before ++ text ++ after).toList = before.length := by
      rw [chars]
      exact Text.indent_append_append hbefore nil trimmed.1 _
    have noIndent : Text.indent ([] ++ text.toList ++ []) = 0 :=
      Text.indent_append_append (by simp) nil trimmed.1 []
    rw [List.nil_append, List.append_nil] at noIndent
    rw [Path.parse, Path.parse, trim, indent, Text.trim_of_isTrimmed trimmed, noIndent]
    exact parseTrimmed_shift text.toList before.length

/-! ## The main result -/

/-- **Positions move with the text, and nothing else changes.** Counted from an offset, the tokens
of a text are the same ones, further on by the offset, and the wording of a misfit ends in its new
position and is otherwise the same. With white space around it, a text reads as the same path or is
refused as the same argument; if it is malformed, so is the whole, further on by the white space in
front. -/
theorem positions_move_with_text :
    (∀ (text : List Char) (offset : Nat),
      tokensOf text offset = (tokensOf text 0).map (Token.shift offset) ∧
      ∀ token ∈ tokensOf text 0, ∀ misfit position, token.kind = .misfit misfit position →
        misfit.TellsPosition) ∧
    ∀ before text after : String, Text.IsTrimmed text.toList →
      (∀ c ∈ before.toList, Text.isWhiteSpace c = true) →
      (∀ c ∈ after.toList, Text.isWhiteSpace c = true) →
      Path.parse (before ++ text ++ after)
        = (Path.parse text).mapError (Fault.shift before.length) ∧
      (∀ path, Path.parse (before ++ text ++ after) = .ok path ↔ Path.parse text = .ok path) ∧
      (∀ argument, Path.parse (before ++ text ++ after) = .error (.argument argument)
        ↔ Path.parse text = .error (.argument argument)) ∧
      (∀ misfit position, Path.parse (before ++ text ++ after) = .error (.malformed misfit position)
        ↔ ∃ place, Path.parse text = .error (.malformed misfit place) ∧
          position = place + before.length) ∧
      ∀ misfit place, Path.parse text = .error (.malformed misfit place) →
        misfit.TellsPosition := by
  refine ⟨?_, ?_⟩
  · intro text offset
    refine ⟨tokensOf_shift text offset, ?_⟩
    intro token mem misfit position kind
    exact tellsPosition_of_mem_scan mem kind
  · intro before text after trimmed hbefore hafter
    have moved := parse_append_append trimmed hbefore hafter
    refine ⟨moved, ?_, ?_, ?_, ?_⟩
    · intro path
      rw [moved, mapError_shift_eq_ok_iff]
    · intro argument
      rw [moved, mapError_shift_eq_argument_iff]
    · intro misfit position
      rw [moved, mapError_shift_eq_malformed_iff]
    · intro misfit place malformed
      obtain ⟨misfit', position, eq, stops⟩ := exists_stopsAt_of_parse malformed rfl
      obtain ⟨rfl, -⟩ := Fault.malformed.inj eq
      exact tellsPosition_of_stopsAt stops

/-- A space that is not one of ASCII moves the misfit as well, by one character. -/
theorem parse_behind_ideographic_space :
    Path.parse "a b" = .error (.malformed (.unexpectedChar ' ') 1) ∧
      Path.parse "\t\u3000a b\n" = .error (.malformed (.unexpectedChar ' ') 3) := by
  have parse : Path.parse "a b" = .error (.malformed (.unexpectedChar ' ') 1) := by decide +kernel
  obtain ⟨-, -, -, malformed, -⟩ := positions_move_with_text.2 "\t\u3000" "a b" "\n" (by decide)
    (List.all_eq_true.mp rfl) (List.all_eq_true.mp rfl)
  exact ⟨parse, (malformed _ _).mpr ⟨1, parse, rfl⟩⟩

end PropertyPath
