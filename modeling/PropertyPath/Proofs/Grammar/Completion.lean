import PropertyPath.Proofs.Grammar.Reading
import PropertyPath.Token.Scan

/-!
# What completes a path

Every state of the scanner has a language: the texts that complete a path where something is
expected. Reading a token leads from one language to the next, the end of the path is reached only
where nothing more is needed, and a misfit is noticed only where nothing completes the path. So a
scan ends in a misfit exactly if the text is outside the language of the state it began in.

The grouping of names and suffixes into items is dealt with once, in the equations of `IsRowText`:
a suffix behind a name belongs to the item of that name, but as a text it is the same as a suffix
of its own.
-/

namespace PropertyPath.Grammar

open Text (IntegerLiteral IsMagnitude)

/-- The texts of rows. -/
def IsRowText (fits : Int → Prop) (text : List Char) : Prop :=
  ∃ items, IsRow fits items ∧ row items = text

/-- The texts that complete a path where something is expected. -/
def Completes (fits : Int → Prop) : Expecting → List Char → Prop
  | .segment, text => IsRowText fits text
  | .name, text => ∃ name rest, IsName name ∧ IsRowText fits rest ∧ name ++ rest = text
  | .integer, text => ∃ literal rest, (Suffix.index literal).IsWritten fits ∧
      IsRowText fits rest ∧ literal.chars ++ ']' :: rest = text
  | .closeBracket, text => ∃ rest, IsRowText fits rest ∧ ']' :: rest = text
  | .key, text => ∃ key rest, (Suffix.key key).IsWritten fits ∧ IsRowText fits rest ∧
      key ++ ')' :: rest = text
  | .closeParen, text => ∃ rest, IsRowText fits rest ∧ ')' :: rest = text

section RowText

variable {fits : Int → Prop} {text rest : List Char} {c : Char}

/-! ## Texts of rows -/

theorem isRowText_nil : IsRowText fits [] := ⟨[], isRow_nil, rfl⟩

theorem isRowText_suffix {suffix : Suffix} (h : suffix.IsWritten fits)
    (hrest : IsRowText fits rest) : IsRowText fits (suffix.chars ++ rest) := by
  obtain ⟨items, hitems, rfl⟩ := hrest
  exact ⟨.suffixed none suffix :: items, isRow_suffixed_iff.mpr ⟨by simp, h, hitems⟩, rfl⟩

/-- A suffix behind a name joins its item; anything else begins an item of its own. -/
theorem isRowText_name {name : List Char} (h : IsName name) (hrest : IsRowText fits rest) :
    IsRowText fits ('.' :: (name ++ rest)) := by
  obtain ⟨items, hitems, rfl⟩ := hrest
  -- only a bare suffix in front of the row can be owned by the name
  rcases items with _ | ⟨_ | ⟨_ | owner, suffix⟩, items⟩
  · exact ⟨[.plain name], isRow_plain_iff.mpr ⟨h, by simp, isRow_nil⟩, by simp⟩
  · exact ⟨.plain name :: _, isRow_plain_iff.mpr ⟨h, by simp [Item.name?], hitems⟩, by simp⟩
  · rw [isRow_suffixed_iff] at hitems
    exact ⟨.suffixed (some name) suffix :: items,
      isRow_suffixed_iff.mpr ⟨by simpa using h, hitems.2⟩, by simp⟩
  · exact ⟨.plain name :: _, isRow_plain_iff.mpr ⟨h, by simp [Item.name?], hitems⟩, by simp⟩

theorem isRowText_cases (h : IsRowText fits text) :
    text = [] ∨
      (∃ (suffix : Suffix) (rest : List Char), suffix.IsWritten fits ∧ IsRowText fits rest ∧
        text = suffix.chars ++ rest) ∨
      ∃ name rest, IsName name ∧ IsRowText fits rest ∧ text = '.' :: (name ++ rest) := by
  obtain ⟨items, hitems, rfl⟩ := h
  rcases items with _ | ⟨name | ⟨_ | name, suffix⟩, items⟩
  · exact Or.inl rfl
  · rw [isRow_plain_iff] at hitems
    exact Or.inr (Or.inr ⟨name, row items, hitems.1, ⟨items, hitems.2.2, rfl⟩, by simp⟩)
  · rw [isRow_suffixed_iff] at hitems
    exact Or.inr (Or.inl ⟨suffix, row items, hitems.2.1, ⟨items, hitems.2.2, rfl⟩, by simp⟩)
  · rw [isRow_suffixed_iff] at hitems
    refine Or.inr (Or.inr ⟨name, suffix.chars ++ row items, hitems.1 name rfl, ?_, by simp⟩)
    exact isRowText_suffix hitems.2.1 ⟨items, hitems.2.2, rfl⟩

theorem head_of_isRowText (h : IsRowText fits (c :: text)) : c = '.' ∨ c = '[' ∨ c = '(' := by
  rcases isRowText_cases h with h | ⟨suffix, rest, -, -, h⟩ | ⟨name, rest, -, -, h⟩
  · cases h
  · cases suffix with
    | index literal => exact Or.inr (Or.inl (List.cons.inj h).1)
    | key key => exact Or.inr (Or.inr (List.cons.inj h).1)
  · exact Or.inl (List.cons.inj h).1

theorem boundary_suffix (suffix : Suffix) (rest : List Char) :
    ∀ c ∈ (suffix.chars ++ rest).head?, isNameChar c = false := by
  rcases suffix with literal | key
  · rintro c ⟨rfl⟩
    rfl
  · rintro c ⟨rfl⟩
    rfl

theorem boundary_row (items : List Item) (boundary : ∀ c ∈ rest.head?, isNameChar c = false) :
    ∀ c ∈ (row items ++ rest).head?, isNameChar c = false := by
  rcases items with _ | ⟨name | ⟨_ | name, suffix⟩, items⟩
  · exact boundary
  · rintro c ⟨rfl⟩
    rfl
  · rw [row_cons, followingChars_bare, List.append_assoc]
    exact boundary_suffix suffix _
  · rintro c ⟨rfl⟩
    rfl

theorem boundary_of_isRowText (h : IsRowText fits rest) :
    ∀ c ∈ rest.head?, isNameChar c = false := by
  obtain ⟨items, -, rfl⟩ := h
  have boundary : ∀ c ∈ (row items ++ []).head?, isNameChar c = false :=
    boundary_row items (by simp)
  rwa [List.append_nil] at boundary

theorem isRowText_dot_iff : IsRowText fits ('.' :: text) ↔ Completes fits .name text := by
  constructor
  · intro h
    rcases isRowText_cases h with h | ⟨suffix, rest, -, -, h⟩ | ⟨name, rest, hname, hrest, h⟩
    · cases h
    · cases suffix <;> cases h
    · exact ⟨name, rest, hname, hrest, (List.cons.inj h).2.symm⟩
  · rintro ⟨name, rest, hname, hrest, rfl⟩
    exact isRowText_name hname hrest

theorem isRowText_bracket_iff : IsRowText fits ('[' :: text) ↔ Completes fits .integer text := by
  constructor
  · intro h
    rcases isRowText_cases h with h | ⟨suffix, rest, hsuffix, hrest, h⟩ | ⟨name, rest, -, -, h⟩
    · cases h
    · cases suffix with
      | index literal => exact ⟨literal, rest, hsuffix, hrest, by simpa [Suffix.chars] using h.symm⟩
      | key key => cases h
    · cases h
  · rintro ⟨literal, rest, hliteral, hrest, rfl⟩
    simpa [Suffix.chars] using isRowText_suffix hliteral hrest

theorem isRowText_paren_iff : IsRowText fits ('(' :: text) ↔ Completes fits .key text := by
  constructor
  · intro h
    rcases isRowText_cases h with h | ⟨suffix, rest, hsuffix, hrest, h⟩ | ⟨name, rest, -, -, h⟩
    · cases h
    · cases suffix with
      | index literal => cases h
      | key key => exact ⟨key, rest, hsuffix, hrest, by simpa [Suffix.chars] using h.symm⟩
    · cases h
  · rintro ⟨key, rest, hkey, hrest, rfl⟩
    simpa [Suffix.chars] using isRowText_suffix hkey hrest

end RowText

/-! ## One reading -/

section Step

variable {fits : Int → Prop} {expecting next : Expecting} {text lexeme rest consumed : List Char}
  {kind : TokenKind} {fault : Misfit} {column : Nat}

theorem completes_append (hfits : ∀ value, IsInt64 value → fits value)
    (h : IsLexeme expecting kind lexeme next) (hrest : Completes fits next rest) :
    Completes fits expecting (lexeme ++ rest) := by
  cases h with
  | dot => exact isRowText_dot_iff.mpr hrest
  | openBracket => exact isRowText_bracket_iff.mpr hrest
  | openParen => exact isRowText_paren_iff.mpr hrest
  | name hname => exact ⟨lexeme, rest, hname, hrest, rfl⟩
  | index hmagnitude hrange =>
    obtain ⟨more, hmore, rfl⟩ := hrest
    exact ⟨_, more, ⟨hmagnitude, hfits _ hrange⟩, hmore, rfl⟩
  | closeBracket => exact ⟨rest, hrest, rfl⟩
  | key hkey =>
    obtain ⟨more, hmore, rfl⟩ := hrest
    exact ⟨lexeme, more, hkey, hmore, rfl⟩
  | closeParen => exact ⟨rest, hrest, rfl⟩

/-- **A completion is read on.** Where a text completes the path, either it is used up, or a token
is read with a completion behind it, or an integer is out of range. -/
theorem read_of_completes (h : Completes fits expecting text) :
    read expecting text = .endOfPath ∨
      (∃ kind lexeme rest next, read expecting text = .token kind lexeme rest next ∧
        Completes fits next rest) ∨
      ∃ literal : IntegerLiteral, fits literal.value ∧ ¬IsInt64 literal.value ∧
        read expecting text = .misfit .integerOutOfRange literal.chars 0 := by
  cases expecting with
  | segment =>
    rcases text with _ | ⟨c, rest⟩
    · exact Or.inl rfl
    · refine Or.inr (Or.inl ?_)
      rcases head_of_isRowText h with rfl | rfl | rfl
      · exact ⟨_, _, rest, _, rfl, isRowText_dot_iff.mp h⟩
      · exact ⟨_, _, rest, _, rfl, isRowText_bracket_iff.mp h⟩
      · exact ⟨_, _, rest, _, rfl, isRowText_paren_iff.mp h⟩
  | name =>
    obtain ⟨name, rest, hname, hrest, rfl⟩ := h
    exact Or.inr (Or.inl ⟨_, _, rest, _, read_name hname (boundary_of_isRowText hrest), hrest⟩)
  | integer =>
    obtain ⟨literal, rest, ⟨hmagnitude, hvalue⟩, hrest, rfl⟩ := h
    have boundary : ∀ c ∈ (']' :: rest).head?, c.isDigit = false := by simp
    -- the grammar may allow more integers than the scanner takes
    by_cases hrange : IsInt64 literal.value
    · exact Or.inr (Or.inl ⟨_, _, _, _, read_integer hmagnitude hrange boundary,
        rest, hrest, rfl⟩)
    · exact Or.inr (Or.inr ⟨literal, hvalue, hrange,
        read_integer_outOfRange hmagnitude hrange boundary⟩)
  | closeBracket =>
    obtain ⟨rest, hrest, rfl⟩ := h
    exact Or.inr (Or.inl ⟨_, _, rest, _, rfl, hrest⟩)
  | key =>
    obtain ⟨key, rest, hkey, hrest, rfl⟩ := h
    exact Or.inr (Or.inl ⟨_, _, _, _, read_key hkey, rest, hrest, rfl⟩)
  | closeParen =>
    obtain ⟨rest, hrest, rfl⟩ := h
    exact Or.inr (Or.inl ⟨_, _, rest, _, rfl, hrest⟩)

/-- A token leads from language to language. -/
theorem completes_iff_of_token (hfits : ∀ value, IsInt64 value → fits value)
    (h : read expecting text = .token kind lexeme rest next) :
    Completes fits expecting text ↔ Completes fits next rest := by
  constructor
  · intro hcompletes
    rcases read_of_completes hcompletes with hread | ⟨_, _, _, _, hread, hrest⟩ | ⟨_, -, -, hread⟩
    · cases h.symm.trans hread
    · obtain ⟨-, -, rfl, rfl⟩ := Reading.token.inj (h.symm.trans hread)
      exact hrest
    · cases h.symm.trans hread
  · intro hrest
    rw [← lexeme_append_rest h]
    exact completes_append hfits (isLexeme_of_read h) hrest

theorem completes_of_endOfPath (h : read expecting text = .endOfPath) :
    Completes fits expecting text := by
  have nil : (Reading.endOfPath).Splits text := h ▸ splits_read expecting text
  obtain rfl : text = [] := nil
  cases expecting with
  | segment => exact isRowText_nil
  | _ => cases h

/-- Nothing completes the path at a misfit, unless an integer out of range was in order. -/
theorem not_completes_of_misfit
    (hrange : fault = .integerOutOfRange → ∀ value, fits value → IsInt64 value)
    (h : read expecting text = .misfit fault consumed column) : ¬Completes fits expecting text := by
  intro hcompletes
  rcases read_of_completes hcompletes with hread | ⟨_, _, _, _, hread, -⟩ | ⟨_, hvalue, hout, hread⟩
  · cases h.symm.trans hread
  · cases h.symm.trans hread
  · obtain ⟨rfl, -, -⟩ := Reading.misfit.inj (h.symm.trans hread)
    exact hout (hrange rfl _ hvalue)

end Step

/-! ## Whole scans -/

section Scans

variable {expecting next : Expecting} {text lexeme rest : List Char} {kind : TokenKind}

/-- Whether a scan stopped at a misfit. -/
def EndsInMisfit (tokens : List Token) : Prop :=
  ∃ fault position, tokens.getLast?.map Token.kind = some (.misfit fault position)

theorem scan_ne_nil (expecting : Expecting) (text : List Char) (position : Nat) :
    scan expecting text position ≠ [] := by
  rw [scan]
  split <;> simp

/-- The misfit at which a scan stopped, and where it is reported. -/
def StopsAt (fault : Misfit) (reported : Nat) (tokens : List Token) : Prop :=
  tokens.getLast?.map Token.kind = some (.misfit fault reported)

theorem stopsAt_cons_iff {token : Token} {tokens : List Token} {fault : Misfit} {reported : Nat}
    (ne : tokens ≠ []) :
    StopsAt fault reported (token :: tokens) ↔ StopsAt fault reported tokens := by
  rw [StopsAt, StopsAt, List.getLast?_cons, List.getLast?_eq_some_getLast ne]
  rfl

theorem stopsAt_inj {tokens : List Token} {fault fault' : Misfit} {reported reported' : Nat}
    (h : StopsAt fault reported tokens) (h' : StopsAt fault' reported' tokens) :
    fault = fault' ∧ reported = reported' :=
  TokenKind.misfit.inj (Option.some.inj (h.symm.trans h'))

theorem endsInMisfit_cons_iff {token : Token} {tokens : List Token} (ne : tokens ≠ []) :
    EndsInMisfit (token :: tokens) ↔ EndsInMisfit tokens :=
  exists_congr fun _ ↦ exists_congr fun _ ↦ stopsAt_cons_iff ne

/-- **A scan ends well exactly on the texts that complete the path.** -/
theorem endsInMisfit_scan_iff (expecting : Expecting) (text : List Char) (position : Nat) :
    EndsInMisfit (scan expecting text position) ↔ ¬Completes IsInt64 expecting text := by
  fun_induction scan expecting text position with
  | case1 expecting text position kind lexeme rest next h ih =>
    rw [endsInMisfit_cons_iff (scan_ne_nil _ _ _), ih,
      completes_iff_of_token (fun _ hvalue ↦ hvalue) h]
  | case2 expecting text position h =>
    have completes : Completes IsInt64 expecting text := completes_of_endOfPath h
    simp [EndsInMisfit, completes]
  | case3 expecting text position fault consumed column h =>
    have stuck := not_completes_of_misfit (fun _ _ hvalue ↦ hvalue) h
    simp [EndsInMisfit, stuck]

end Scans

/-! ## Whole paths

A path begins with a name or a suffix. The scanner tells them apart by the first character; put
after a dot, a path that begins with a name is a row. -/

section Paths

variable {fits : Int → Prop} {item : Item} {items : List Item} {text : List Char}

theorem row_eq_chars (item : Item) (items : List Item) :
    row (item :: items) = (if item.name?.isSome then ['.'] else []) ++ chars (item :: items) := by
  rw [row_cons, Item.followingChars, chars, List.append_assoc]

theorem atStart_name {name : List Char} (h : IsName name) (rest : List Char) :
    Expecting.atStart (name ++ rest) = .name := by
  rcases name with _ | ⟨c, more⟩
  · exact h.elim
  · have letter : ¬(c = '[' ∨ c = '(') := by
      rintro (rfl | rfl)
      · exact absurd h.1 (by decide)
      · exact absurd h.1 (by decide)
    exact if_neg letter

theorem atStart_suffix (suffix : Suffix) (rest : List Char) :
    Expecting.atStart (suffix.chars ++ rest) = .segment := by
  cases suffix <;> rfl

theorem atStart_chars (h : IsRow fits (item :: items)) :
    Expecting.atStart (chars (item :: items))
      = if item.name?.isSome then .name else .segment := by
  rcases item with name | ⟨_ | name, suffix⟩
  · rw [chars, chars_plain]
    exact atStart_name (isRow_plain_iff.mp h).1 (row items)
  · exact atStart_suffix suffix (row items)
  · rw [chars, chars_owned, List.append_assoc]
    exact atStart_name ((isRow_suffixed_iff.mp h).1 name rfl) _

/-- The first character of a row tells whether its first item has a name. -/
theorem row_cases (h : IsRow fits (item :: items)) :
    (row (item :: items) = '.' :: chars (item :: items) ∧
        Expecting.atStart (chars (item :: items)) = .name) ∨
      (row (item :: items) = chars (item :: items) ∧
        Expecting.atStart (chars (item :: items)) = .segment) := by
  have start := atStart_chars h
  rw [row_eq_chars]
  by_cases named : item.name?.isSome = true
  · rw [if_pos named] at start ⊢
    exact Or.inl ⟨rfl, start⟩
  · rw [if_neg named] at start ⊢
    exact Or.inr ⟨rfl, start⟩

theorem row_cons_ne_nil (h : IsRow fits (item :: items)) : row (item :: items) ≠ [] := by
  intro nil
  rcases row_cases h with ⟨dot, -⟩ | ⟨same, start⟩
  · exact List.cons_ne_nil _ _ (dot.symm.trans nil)
  · rw [← same, nil] at start
    cases start

theorem atStart_eq_name_or_segment (text : List Char) :
    Expecting.atStart text = .name ∨ Expecting.atStart text = .segment := by
  rcases text with _ | ⟨c, rest⟩
  · exact Or.inl rfl
  · rw [Expecting.atStart]
    split
    · exact Or.inr rfl
    · exact Or.inl rfl

/-- **The language of the start is the language of paths.** -/
theorem exists_isPath_iff :
    (∃ items, IsPath fits items ∧ chars items = text)
      ↔ Completes fits (Expecting.atStart text) text := by
  constructor
  · rintro ⟨items, h, rfl⟩
    obtain ⟨first, rest, rfl⟩ := List.exists_cons_of_ne_nil h.ne_nil
    have hrow : IsRowText fits (row (first :: rest)) := ⟨_, h.toIsRow, rfl⟩
    -- a path that begins with a name is a row once a dot is put in front
    rcases row_cases h.toIsRow with ⟨dot, start⟩ | ⟨same, start⟩
    · rw [start]
      exact isRowText_dot_iff.mp (dot ▸ hrow)
    · rw [start]
      exact same ▸ hrow
  · intro h
    rcases atStart_eq_name_or_segment text with start | start <;> rw [start] at h
    · obtain ⟨_ | ⟨first, rest⟩, hrow, eq⟩ := isRowText_dot_iff.mpr h
      · cases eq
      · rcases row_cases hrow with ⟨dot, -⟩ | ⟨same, start'⟩
        · have eq' : chars (first :: rest) = text := (List.cons.inj (dot.symm.trans eq)).2
          exact ⟨first :: rest, ⟨hrow, List.cons_ne_nil _ _⟩, eq'⟩
        · rw [← same, eq] at start'
          cases start'
    · obtain ⟨_ | ⟨first, rest⟩, hrow, rfl⟩ := h
      · cases start
      · rcases row_cases hrow with ⟨dot, -⟩ | ⟨same, -⟩
        · rw [dot] at start
          cases start
        · exact ⟨first :: rest, ⟨hrow, List.cons_ne_nil _ _⟩, same.symm⟩

end Paths

end PropertyPath.Grammar
