import PropertyPath.Proofs.Grammar.Context
import PropertyPath.Proofs.Path.Position
import PropertyPath.Proofs.Token.Shift

/-!
# What a malformed text is told

The wording of a misfit says what was expected, and that is what the text in front of the misfit
awaits. Each of the five wordings stands for one kind of front (`TellsExpected`): the wordings
differ from each other, and a front awaits one thing only. An integer out of range is left out: it
is worded like a missing one, although it is there.
-/

namespace PropertyPath

open Grammar

/-- A message about the text `held ++ rest`, where `rest` does not fit, tells what is expected. -/
structure TellsExpected (message : String) (position : Nat) (held rest : List Char) : Prop where
  name : message = "expected name at position " ++ toString position ↔ Awaits .name held
  integer : message = "could not parse index as integer at position " ++ toString position
    ↔ Awaits .integer held
  closeBracket : message = "missing `]` at position " ++ toString position
    ↔ Awaits .closeBracket held
  closeParen : message = "missing `)` at position " ++ toString position ↔ Awaits .key held
  /-- A key without an end goes on to the end of the text. -/
  unclosed : Awaits .key held → rest = []
  /-- Behind the text of a path the next character is the one that does not fit. -/
  unexpected : ∀ c, message = "unexpected token `" ++ c.toString ++ "` at position "
      ++ toString position
    ↔ IsPathText held ∧ rest.head? = some c
  /-- The text of a path is not refused for its end. -/
  more : IsPathText held → rest ≠ []

/-! ## Wordings -/

section Wordings

variable {state state' : Expecting} {next next' : Option Char} {fault fault' : Misfit}

/-- The misfits whose wording is the same for every text. -/
def constantMisfits : List Misfit :=
  [.nameExpected, .integerExpected, .bracketMissing, .parenMissing]

theorem mem_constantMisfits_or_unexpectedChar (h : state.misfit? next = some fault) :
    fault ∈ constantMisfits ∨ ∃ c, fault = .unexpectedChar c := by
  cases state with
  | segment =>
    obtain ⟨c, -, rfl⟩ := Option.map_eq_some_iff.mp h
    exact Or.inr ⟨c, rfl⟩
  | _ =>
    cases h
    exact Or.inl (by decide)

theorem toList_words_unexpectedChar (c : Char) :
    (Misfit.unexpectedChar c).words.toList = "unexpected token `".toList ++ c :: "`".toList := by
  have words : (Misfit.unexpectedChar c).words = "unexpected token `" ++ c.toString ++ "`" := rfl
  rw [words, String.toList_append, String.toList_append, Char.toString, String.toList_singleton,
    List.append_assoc, List.singleton_append]

theorem words_inj (h : state.misfit? next = some fault) (h' : state'.misfit? next' = some fault')
    (eq : fault.words = fault'.words) : fault = fault' := by
  have constants : ∀ fault ∈ constantMisfits, ∀ fault' ∈ constantMisfits,
      fault.words = fault'.words → fault = fault' := by decide
  have others : ∀ fault ∈ constantMisfits, ∀ c,
      fault.words ≠ (Misfit.unexpectedChar c).words := by
    intro fault mem c eq
    have first : ∀ fault ∈ constantMisfits, fault.words.toList.head? ≠ some 'u' := by decide
    apply first fault mem
    rw [eq, toList_words_unexpectedChar]
    rfl
  rcases mem_constantMisfits_or_unexpectedChar h with mem | ⟨c, rfl⟩ <;>
    rcases mem_constantMisfits_or_unexpectedChar h' with mem' | ⟨d, rfl⟩
  · exact constants fault mem fault' mem' eq
  · exact absurd eq (others fault mem d)
  · exact absurd eq.symm (others fault' mem' c)
  · have lists := congrArg String.toList eq
    rw [toList_words_unexpectedChar, toList_words_unexpectedChar] at lists
    rw [(List.cons.inj (List.append_cancel_left lists)).1]

/-- A sentence about a position says what its misfit says. -/
theorem message_eq_iff {sentence : String} (h : state.misfit? next = some fault)
    (h' : state'.misfit? next' = some fault') (tells : fault.TellsPosition)
    (joined : fault'.words ++ " at position " = sentence) (position : Nat) :
    fault.message position = sentence ++ toString position ↔ fault = fault' := by
  rw [tells, ← joined, String.append_assoc, String.append_left_inj]
  constructor
  · exact words_inj h h'
  · exact congrArg Misfit.words

end Wordings

/-! ## What is told and what is awaited -/

section Expected

variable {state state' : Expecting} {held rest : List Char} {fault fault' : Misfit} {position : Nat}

/-- A misfit is of a certain kind exactly if that kind of thing is awaited. -/
theorem misfit_eq_iff_awaits {next next' : Option Char} (awaits : Awaits state held)
    (met : state.misfit? next = some fault) (kind : state'.misfit? next' = some fault')
    (key : state' ≠ .closeParen) :
    fault = fault' ↔ Awaits state' held ∧ state'.misfit? next = some fault' := by
  constructor
  · rintro rfl
    obtain rfl := eq_of_misfit?_eq met kind (ne_closeParen_of_awaits awaits) key
    exact ⟨awaits, met⟩
  · rintro ⟨awaits', met'⟩
    obtain rfl := awaits_inj awaits awaits'
    exact Option.some.inj (met.symm.trans met')

theorem message_eq_iff_awaits {next : Option Char} {sentence : String} (awaits : Awaits state held)
    (met : state.misfit? next = some fault) (tells : fault.TellsPosition) (expected : Expecting)
    (kind : expected.misfit? next = some fault') (key : expected ≠ .closeParen)
    (joined : fault'.words ++ " at position " = sentence) :
    fault.message position = sentence ++ toString position ↔ Awaits expected held := by
  rw [message_eq_iff met kind tells joined, misfit_eq_iff_awaits awaits met kind key]
  exact and_iff_left kind

/-- **Every wording stands for one thing that is awaited.** -/
theorem tellsExpected_of_awaits (awaits : Awaits state held)
    (met : state.misfit? rest.head? = some fault) (tells : fault.TellsPosition)
    (whole : state = .key → rest = []) (position : Nat) :
    TellsExpected (fault.message position) position held rest where
  name := message_eq_iff_awaits awaits met tells .name rfl nofun (by decide)
  integer := message_eq_iff_awaits awaits met tells .integer rfl nofun (by decide)
  closeBracket := message_eq_iff_awaits awaits met tells .closeBracket rfl nofun (by decide)
  closeParen := message_eq_iff_awaits awaits met tells .key rfl nofun (by decide)
  unclosed h := whole (awaits_inj awaits h)
  unexpected c := by
    have kind : Expecting.segment.misfit? (some c) = some (.unexpectedChar c) := rfl
    have joined : (Misfit.unexpectedChar c).words ++ " at position "
        = "unexpected token `" ++ c.toString ++ "` at position " := by
      have last : "`" ++ " at position " = "` at position " := by decide
      rw [← last, ← String.append_assoc]
      rfl
    rw [message_eq_iff met kind tells joined, misfit_eq_iff_awaits awaits met kind nofun,
      awaits_segment_iff]
    simp [Expecting.misfit?]
  more h := by
    obtain rfl := awaits_inj awaits (awaits_segment_iff.mpr h)
    rintro rfl
    cases met

end Expected

/-! ## The main result -/

/-- **A malformed text is told what was expected.** The position of the fault is the one that its
message ends in, and the text in front of it is `held`. Unless there is an index out of range in the
text, the message says what `held` awaits: a name, an integer, a closing bracket, or a closing
parenthesis, which is only missing at the end of the text; and if `held` is the text of a path, it
says which character follows. -/
theorem malformed_tells_expected {text : String} {fault : Fault}
    (h : Path.parse text = .error fault) (hkind : fault.kind = .malformed) :
    ∃ misfit held rest, held ++ rest = Text.trim text.toList ∧
      fault = .malformed misfit (Text.indent text.toList + held.length) ∧
      fault.position? = some (Text.indent text.toList + held.length) ∧
      fault.message
        = misfit.words ++ (" at position " ++ toString (Text.indent text.toList + held.length)) ∧
      (misfit = .integerOutOfRange
        ↔ (outOfRangePlaces (Text.trim text.toList)).Nonempty) ∧
      (misfit ≠ .integerOutOfRange →
        TellsExpected fault.message (Text.indent text.toList + held.length) held rest) := by
  obtain ⟨misfit, position, rfl, stops⟩ := exists_stopsAt_of_parse h hkind
  have tells : misfit.TellsPosition := tellsPosition_of_stopsAt stops
  by_cases hmisfit : misfit = .integerOutOfRange
  · obtain ⟨place, rfl, within, -, least⟩ :=
      isLeast_outOfRangePlaces_of_stopsAt (hmisfit ▸ stops)
    refine ⟨misfit, _, _, List.take_append_drop place _, ?_⟩
    rw [List.length_take_of_le within]
    exact ⟨rfl, rfl, tells _, iff_of_true hmisfit ⟨place, least.1⟩, fun ne ↦ absurd hmisfit ne⟩
  · obtain ⟨state, held, rest, eq, rfl, awaits, met, whole⟩ :=
      exists_awaits_of_stopsAt stops hmisfit
    have inRange := outOfRangePlaces_eq_empty_of_stopsAt stops hmisfit
    refine ⟨misfit, held, rest, eq, rfl, rfl, tells _, iff_of_false hmisfit ?_, fun _ ↦ ?_⟩
    · rw [inRange]
      exact Set.not_nonempty_empty
    · exact tellsExpected_of_awaits awaits met tells whole _

/-- The dot and the bracket in the key are not awaited on: behind the key there is a path. -/
theorem malformed_behind_key :
    Path.parse " (.[)x" = .error (.malformed (.unexpectedChar 'x') 5) ∧
      IsPathText ['(', '.', '[', ')'] := by
  have parse : Path.parse " (.[)x" = .error (.malformed (.unexpectedChar 'x') 5) := by
    decide +kernel
  have indent : Text.indent " (.[)x".toList = 1 := by decide
  have trim : Text.trim " (.[)x".toList = ['(', '.', '[', ')'] ++ ['x'] := by decide
  obtain ⟨misfit, held, rest, eq, same, -, -, -, tells⟩ := malformed_tells_expected parse rfl
  rw [indent] at same tells
  rw [trim] at eq
  obtain ⟨rfl, position⟩ := Fault.malformed.inj same
  have length : held.length = 4 := by omega
  obtain ⟨rfl, rfl⟩ := List.append_inj eq length
  exact ⟨parse, (((tells nofun).unexpected 'x').mp (by decide)).1⟩

end PropertyPath
