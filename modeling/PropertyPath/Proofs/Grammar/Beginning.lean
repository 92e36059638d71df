import PropertyPath.Proofs.Grammar.Completion
import PropertyPath.Proofs.Grammar.Misfit

/-!
# Beginnings of path texts

A text that is no path leaves the grammar somewhere: up to that place it is the beginning of a path
text, and with one more character it is not. `IsFirstMisfit` says so of the place, for every state
of the scanner, and `isFirstMisfit_of_stopsAt` finds it where the scan reports its misfit.

The grammar measured against is the one with integers of any size. An integer out of range is no
misfit in this sense, since the text around it may well be a word of that grammar.

The step over a token is where looking ahead by one character counts. What completes a path behind
the token begins with the same character as the text that was scanned, and that is all the reading
of the token depends on.
-/

namespace PropertyPath.Grammar

/-! ## Words and their beginnings -/

/-- The integers of any size. -/
def AnySize (_ : Int) : Prop := True

instance : DecidablePred AnySize := fun _ ↦ inferInstanceAs (Decidable True)

theorem anySize_of_isInt64 (value : Int) (_ : IsInt64 value) : AnySize value := trivial

/-- The texts of paths whose integers may be of any size. -/
def IsWord (text : List Char) : Prop := ∃ items, IsPath AnySize items ∧ chars items = text

/-- The texts with which a word begins. -/
def IsBeginning (text : List Char) : Prop := ∃ word, IsWord word ∧ text <+: word

/-- The texts with which something that completes a path begins, where something is expected. -/
def IsExtendable (expecting : Expecting) (text : List Char) : Prop :=
  ∃ more, Completes AnySize expecting (text ++ more)

section Beginnings

variable {text : List Char}

theorem isWord_iff : IsWord text ↔ Completes AnySize (Expecting.atStart text) text :=
  exists_isPath_iff

theorem atStart_append (ne : text ≠ []) (more : List Char) :
    Expecting.atStart (text ++ more) = Expecting.atStart text := by
  obtain ⟨c, rest, rfl⟩ := List.exists_cons_of_ne_nil ne
  rfl

theorem isBeginning_nil : IsBeginning [] :=
  ⟨['a'], ⟨[.plain ['a']], by decide, rfl⟩, List.nil_prefix⟩

/-- The beginnings of words are what the start can go on from. -/
theorem isBeginning_iff (ne : text ≠ []) :
    IsBeginning text ↔ IsExtendable (Expecting.atStart text) text := by
  constructor
  · rintro ⟨_, hword, more, rfl⟩
    rw [isWord_iff, atStart_append ne] at hword
    exact ⟨more, hword⟩
  · rintro ⟨more, hmore⟩
    rw [← atStart_append ne more] at hmore
    exact ⟨text ++ more, isWord_iff.mpr hmore, text.prefix_append more⟩

theorem isBeginning_take_iff {count : Nat} (ne : text.take count ≠ []) :
    IsBeginning (text.take count) ↔ IsExtendable (Expecting.atStart text) (text.take count) := by
  have start := atStart_append ne (text.drop count)
  rw [List.take_append_drop] at start
  rw [isBeginning_iff ne, start]

end Beginnings

/-! ## The first misfit -/

/-- The place in a text at which it stops being the beginning of anything that completes a path. -/
structure IsFirstMisfit (expecting : Expecting) (text : List Char) (column : Nat) : Prop where
  within : column ≤ text.length
  extendable : IsExtendable expecting (text.take column)
  stuck : column < text.length → ¬IsExtendable expecting (text.take (column + 1))
  incomplete : ¬Completes AnySize expecting text

section Step

variable {expecting next : Expecting} {text lexeme rest held : List Char} {kind : TokenKind}
  {fault : Misfit} {column : Nat}

/-- Whatever was read before a misfit can be completed by something else. -/
theorem isExtendable_of_isMisfit {ahead : Option Char}
    (h : IsMisfit expecting fault held ahead column) : IsExtendable expecting held := by
  rcases h
  case segment => exact ⟨[], isRowText_nil⟩
  case name => exact ⟨['a'], ['a'], [], by decide, isRowText_nil, rfl⟩
  case integer negative _ =>
    refine ⟨['0', ']'], ⟨negative, ['0']⟩, [], ⟨Or.inl ⟨rfl, rfl⟩, trivial⟩, isRowText_nil, ?_⟩
    cases negative <;> rfl
  case outOfRange literal hmagnitude _ _ =>
    exact ⟨[']'], literal, [], ⟨hmagnitude, trivial⟩, isRowText_nil, rfl⟩
  case closeBracket => exact ⟨[']'], [], isRowText_nil, rfl⟩
  case key hkey => exact ⟨[')'], held, [], hkey, isRowText_nil, rfl⟩
  case closeParen => exact ⟨[')'], [], isRowText_nil, rfl⟩

/-- A misfit is reported at the first place that does not fit, unless an integer is out of
range. -/
theorem isFirstMisfit_of_misfit (h : read expecting text = .misfit fault held column)
    (hfault : fault ≠ .integerOutOfRange) : IsFirstMisfit expecting text column := by
  obtain ⟨ahead, rfl, misfit⟩ := isMisfit_of_read h
  obtain rfl : column = held.length := column_eq_length misfit hfault
  refine ⟨?_, ?_, ?_, not_completes_of_misfit (fun range ↦ absurd range hfault) h⟩
  · rw [List.length_append]
    exact Nat.le_add_right _ _
  · rw [List.take_left]
    exact isExtendable_of_isMisfit misfit
  · rintro more ⟨tail, hcompletes⟩
    rw [List.length_append] at more
    obtain ⟨c, rest, rfl⟩ := List.exists_cons_of_length_pos (Nat.pos_of_lt_add_right more)
    rw [List.take_length_add_append, List.take_succ_cons, List.take_zero, List.append_assoc]
      at hcompletes
    -- the same misfit is met whatever follows the character ahead of it
    have met : read expecting (held ++ ([c] ++ tail)) = .misfit fault held held.length :=
      read_misfit_of_head?_eq h rfl
    exact not_completes_of_misfit (fun range ↦ absurd range hfault) met hcompletes

theorem isExtendable_append (h : IsLexeme expecting kind lexeme next)
    (hrest : IsExtendable next rest) : IsExtendable expecting (lexeme ++ rest) := by
  obtain ⟨more, hmore⟩ := hrest
  refine ⟨more, ?_⟩
  rw [List.append_assoc]
  exact completes_append anySize_of_isInt64 h hmore

/-- The first misfit of a text behind a token is the one of the whole text. -/
theorem isFirstMisfit_of_token (h : read expecting text = .token kind lexeme rest next)
    (hrest : IsFirstMisfit next rest column) :
    IsFirstMisfit expecting text (lexeme.length + column) := by
  obtain rfl : lexeme ++ rest = text := lexeme_append_rest h
  refine ⟨?_, ?_, ?_, ?_⟩
  · rw [List.length_append]
    exact Nat.add_le_add_left hrest.within _
  · rw [List.take_length_add_append]
    exact isExtendable_append (isLexeme_of_read h) hrest.extendable
  · rintro more ⟨tail, hcompletes⟩
    rw [List.length_append, Nat.add_lt_add_iff_left] at more
    rw [Nat.add_assoc, List.take_length_add_append, List.append_assoc] at hcompletes
    -- a character of the rest is still there, so the token is read as before
    have same : rest.head? = (rest.take (column + 1) ++ tail).head? := by
      obtain ⟨c, rest, rfl⟩ := List.exists_cons_of_length_pos (Nat.zero_lt_of_lt more)
      rfl
    rw [completes_iff_of_token anySize_of_isInt64 (read_token_of_head?_eq h same)] at hcompletes
    exact hrest.stuck more ⟨tail, hcompletes⟩
  · rw [completes_iff_of_token anySize_of_isInt64 h]
    exact hrest.incomplete

end Step

/-! ## Where a scan stops -/

section Scans

variable {expecting next : Expecting} {text lexeme rest : List Char} {kind : TokenKind}
  {fault : Misfit} {reported position : Nat}

theorem stopsAt_of_token (h : read expecting text = .token kind lexeme rest next) :
    StopsAt fault reported (scan expecting text position)
      ↔ StopsAt fault reported (scan next rest (position + lexeme.length)) := by
  rw [scan_of_token position h, stopsAt_cons_iff (scan_ne_nil _ _ _)]

/-- **A scan stops at the first misfit**, unless an integer is out of range. -/
theorem isFirstMisfit_of_stopsAt (h : StopsAt fault reported (scan expecting text position))
    (hfault : fault ≠ .integerOutOfRange) :
    ∃ column, reported = position + column ∧ IsFirstMisfit expecting text column := by
  fun_induction scan expecting text position with
  | case1 expecting text position kind lexeme rest next hread ih =>
    rw [stopsAt_cons_iff (scan_ne_nil _ _ _)] at h
    obtain ⟨column, rfl, first⟩ := ih h
    exact ⟨lexeme.length + column, Nat.add_assoc _ _ _, isFirstMisfit_of_token hread first⟩
  | case2 expecting text position hread => cases h
  | case3 expecting text position misfit held column hread =>
    cases h
    exact ⟨column, rfl, isFirstMisfit_of_misfit hread hfault⟩

end Scans

/-! ## The first misfit of a whole text -/

namespace IsFirstMisfit

variable {text : List Char} {place : Nat}

theorem isBeginning_take (h : IsFirstMisfit (Expecting.atStart text) text place) :
    IsBeginning (text.take place) := by
  by_cases nil : text.take place = []
  · rw [nil]
    exact isBeginning_nil
  · exact (isBeginning_take_iff nil).mpr h.extendable

theorem not_isBeginning_take (h : IsFirstMisfit (Expecting.atStart text) text place)
    (more : place < text.length) : ¬IsBeginning (text.take (place + 1)) := by
  have ne : text.take (place + 1) ≠ [] := by
    rw [← List.length_pos_iff, List.length_take]
    omega
  rw [isBeginning_take_iff ne]
  exact h.stuck more

theorem not_isWord (h : IsFirstMisfit (Expecting.atStart text) text place) : ¬IsWord text :=
  isWord_iff.not.mpr h.incomplete

end IsFirstMisfit

end PropertyPath.Grammar
