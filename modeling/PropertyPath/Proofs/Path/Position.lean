import PropertyPath.Proofs.Grammar.OutOfRange
import PropertyPath.Proofs.Path.Parse

/-!
# Where a text is malformed

The position of a malformed text is counted in the caller's text, from which white space was
trimmed before the scan. Behind that white space it is the place of the first misfit: as far as
there the text is the beginning of a path text, and no further. What is measured against is the
grammar with integers of any size. An integer out of range fits that grammar, and its position is
the place of the first such integer instead.
-/

namespace PropertyPath

open Grammar

section Position

variable {text : String} {fault : Fault}

theorem exists_stopsAt_of_parse (h : Path.parse text = .error fault)
    (hkind : fault.kind = .malformed) :
    ∃ misfit position, fault = .malformed misfit position ∧
      StopsAt misfit position (tokensOf (Text.trim text.toList) (Text.indent text.toList)) := by
  have noPath : ¬∃ items, Derives text items := by
    rintro ⟨items, hitems⟩
    cases h.symm.trans (parse_of_derives hitems)
  have noBounds : ¬IsBlankOrDotBounded text := by
    intro bounds
    obtain ⟨argument, eq⟩ := parse_of_isBlankOrDotBounded bounds
    cases h.symm.trans eq
    cases hkind
  obtain ⟨misfit, position, stops⟩ :=
    (endsInMisfit_tokensOf_iff (Text.indent text.toList)).mpr noPath
  have eq := h.symm.trans (parse_of_stopsAt stops noBounds)
  exact ⟨misfit, position, Except.error.inj eq, stops⟩

/-- **A malformed text is reported at its first misfit.** The position lies in the trimmed text or
at its end, and up to there the text is the beginning of a word of the grammar with integers of any
size. If the misfit is an integer out of range, it is the first one of the text. For any other
misfit there is none in the text, no word begins with one character more, and the text is no word
itself. -/
theorem malformed_at_first_misfit (h : Path.parse text = .error fault)
    (hkind : fault.kind = .malformed) :
    ∃ misfit place,
      fault = .malformed misfit (Text.indent text.toList + place) ∧
      fault.position? = some (Text.indent text.toList + place) ∧
      place ≤ (Text.trim text.toList).length ∧
      IsBeginning ((Text.trim text.toList).take place) ∧
      (misfit = .integerOutOfRange →
        IsLeast (outOfRangePlaces (Text.trim text.toList)) place) ∧
      (misfit ≠ .integerOutOfRange →
        outOfRangePlaces (Text.trim text.toList) = ∅ ∧
        (place < (Text.trim text.toList).length →
          ¬IsBeginning ((Text.trim text.toList).take (place + 1))) ∧
        ¬IsWord (Text.trim text.toList)) := by
  obtain ⟨misfit, position, rfl, stops⟩ := exists_stopsAt_of_parse h hkind
  by_cases hmisfit : misfit = .integerOutOfRange
  · subst hmisfit
    obtain ⟨place, rfl, within, beginning, least⟩ := isLeast_outOfRangePlaces_of_stopsAt stops
    exact ⟨_, place, rfl, rfl, within, beginning, fun _ ↦ least, fun ne ↦ absurd rfl ne⟩
  · obtain ⟨place, rfl, first⟩ := isFirstMisfit_of_stopsAt stops hmisfit
    have inRange := outOfRangePlaces_eq_empty_of_stopsAt stops hmisfit
    exact ⟨misfit, place, rfl, rfl, first.within, first.isBeginning_take,
      fun eq ↦ absurd eq hmisfit, fun _ ↦
        ⟨inRange, first.not_isBeginning_take, first.not_isWord⟩⟩

/-- An integer out of range is reported where it begins, at its sign. -/
example : Path.parse " a(é)[-9223372036854775809]" = .error (.malformed .integerOutOfRange 6) := by
  decide +kernel

/-- The bracket stands where a name has to: behind the dot nothing else can follow. -/
theorem malformed_behind_dot :
    Path.parse "  a.[0]" = .error (.malformed .nameExpected 4) ∧
      IsBeginning ['a', '.'] ∧ ¬IsBeginning ['a', '.', '['] := by
  have parse : Path.parse "  a.[0]" = .error (.malformed .nameExpected 4) := by decide +kernel
  have indent : Text.indent "  a.[0]".toList = 2 := by decide
  have trim : Text.trim "  a.[0]".toList = ['a', '.', '[', '0', ']'] := by decide
  obtain ⟨misfit, place, eq, -, -, beginning, -, first⟩ := malformed_at_first_misfit parse rfl
  rw [indent] at eq
  rw [trim] at beginning first
  obtain ⟨rfl, position⟩ := Fault.malformed.inj eq
  obtain rfl : place = 2 := by omega
  exact ⟨parse, beginning, (first (by decide)).2.1 (by decide)⟩

end Position

end PropertyPath
