import PropertyPath.Proofs.Grammar.Beginning
import PropertyPath.Proofs.Grammar.Edges
import PropertyPath.Proofs.Grammar.Join
import PropertyPath.Proofs.Grammar.Tokens

/-!
# What the front of a text leaves open

Where a text does not fit, something was expected, and what that was is a matter of the text in
front. `Awaits` says so without a scanner: a name is awaited at the very front and behind a dot that
separates segments, an integer behind a bracket that opens an index and behind its sign, a closing
bracket behind a whole index, a closing parenthesis behind any part of a key, and a segment behind
the text of a path. A dot or a bracket inside a key is none of these, for what stands in front of it
is no path.

`Reaches` is the invariant of the scan. It holds of the front of the text between any two tokens,
since every lexeme leads from one state to the next (`reaches_append`). A front leaves one thing
open at most (`awaits_inj`): scanned on its own, it stops behind its last character, and the misfit
says what is missing.
-/

namespace PropertyPath

/-- The misfit where something is expected and `next` is the next character. Nothing is missing at
the end of a path. -/
def Expecting.misfit? (next : Option Char) : Expecting → Option Misfit
  | .segment => next.map Misfit.unexpectedChar
  | .name => some .nameExpected
  | .integer => some .integerExpected
  | .closeBracket => some .bracketMissing
  | .key | .closeParen => some .parenMissing

namespace Grammar

/-- The texts of paths. -/
def IsPathText (text : List Char) : Prop := ∃ items, IsPath IsInt64 items ∧ chars items = text

/-- The texts behind which a suffix may open: a path begins with it, or goes on. -/
def TakesSuffix (text : List Char) : Prop := text = [] ∨ IsPathText text

/-- What stands in front of the place where something is expected. -/
def Reaches : Expecting → List Char → Prop
  | .segment, front => IsPathText front
  | .name, front => front = [] ∨ ∃ before, IsPathText before ∧ front = before ++ ['.']
  | .integer, front => ∃ before, TakesSuffix before ∧ front = before ++ ['[']
  | .closeBracket, front => ∃ before literal, TakesSuffix before ∧
      (Suffix.index literal).IsWritten IsInt64 ∧ front = before ++ '[' :: literal.chars
  | .key, front => ∃ before, TakesSuffix before ∧ front = before ++ ['(']
  | .closeParen, front => ∃ before key, TakesSuffix before ∧
      (Suffix.key key).IsWritten IsInt64 ∧ front = before ++ '(' :: key

/-- The parts of what is expected behind which the rest of it can be missing. The parenthesis behind
a whole key cannot be, since the key would go on. -/
def IsPiece : Expecting → List Char → Prop
  | .integer, piece => piece = [] ∨ piece = ['-']
  | .key, piece => ')' ∉ piece
  | .closeParen, _ => False
  | _, piece => piece = []

/-- What a text awaits: it leads to a place where something is expected, and may have a part of it
already. -/
def Awaits (expecting : Expecting) (text : List Char) : Prop :=
  ∃ front piece, Reaches expecting front ∧ IsPiece expecting piece ∧ front ++ piece = text

theorem awaits_segment_iff {text : List Char} : Awaits .segment text ↔ IsPathText text := by
  constructor
  · rintro ⟨front, _, hfront, rfl, rfl⟩
    rwa [List.append_nil]
  · intro h
    exact ⟨text, [], h, rfl, List.append_nil text⟩

/-! ## One token further -/

section Step

variable {expecting next : Expecting} {text lexeme rest before front held : List Char}
  {ahead : Option Char} {kind : TokenKind} {fault : Misfit} {suffix : Suffix}
  {column reported position : Nat}

theorem isPathText_append_suffix (h : TakesSuffix before) (hsuffix : suffix.IsWritten IsInt64) :
    IsPathText (before ++ suffix.chars) := by
  have bare : IsPath IsInt64 [.suffixed none suffix] :=
    ⟨isRow_suffixed_iff.mpr ⟨by simp, hsuffix, isRow_nil⟩, by simp⟩
  have text : chars [.suffixed none suffix] = suffix.chars := List.append_nil _
  rcases h with rfl | ⟨items, hitems, rfl⟩
  · exact ⟨_, bare, text⟩
  · obtain ⟨joined, hjoined, eq⟩ := exists_isPath_append_suffix hitems bare
    exact ⟨joined, hjoined, by rw [eq, text]⟩

theorem isPathText_append_name (h : Reaches .name front) (hname : IsName lexeme) :
    IsPathText (front ++ lexeme) := by
  have plain : IsPath IsInt64 [.plain lexeme] :=
    ⟨isRow_plain_iff.mpr ⟨hname, by simp, isRow_nil⟩, by simp⟩
  have text : chars [.plain lexeme] = lexeme := by simp [chars]
  rcases h with rfl | ⟨_, ⟨items, hitems, rfl⟩, rfl⟩
  · exact ⟨_, plain, text⟩
  · have start : Expecting.atStart (chars [.plain lexeme]) = .name := atStart_chars plain.toIsRow
    obtain ⟨joined, eq⟩ := isPath_append_of_name hitems plain start
    exact ⟨_, joined, by rw [eq, text, List.append_assoc, List.singleton_append]⟩

/-- **A lexeme leads from one place to the next.** -/
theorem reaches_append (h : IsLexeme expecting kind lexeme next)
    (hfront : Reaches expecting front) : Reaches next (front ++ lexeme) := by
  cases h with
  | dot => exact Or.inr ⟨front, hfront, rfl⟩
  | openBracket => exact ⟨front, Or.inr hfront, rfl⟩
  | openParen => exact ⟨front, Or.inr hfront, rfl⟩
  | name hname => exact isPathText_append_name hfront hname
  | @index literal hmagnitude hrange =>
    obtain ⟨before, takes, rfl⟩ := hfront
    exact ⟨before, literal, takes, ⟨hmagnitude, hrange⟩, List.append_assoc _ _ _⟩
  | closeBracket =>
    obtain ⟨before, literal, takes, written, rfl⟩ := hfront
    rw [List.append_assoc, List.cons_append]
    exact isPathText_append_suffix takes written
  | key hkey =>
    obtain ⟨before, takes, rfl⟩ := hfront
    exact ⟨before, lexeme, takes, hkey, List.append_assoc _ _ _⟩
  | closeParen =>
    obtain ⟨before, key, takes, written, rfl⟩ := hfront
    rw [List.append_assoc, List.cons_append]
    exact isPathText_append_suffix takes written

/-! ## The misfit at which a scan stopped -/

/-- What was read of a token that is missing is a piece of it, and a key is read to the end. -/
theorem isPiece_of_isMisfit (h : IsMisfit expecting fault held ahead column)
    (hfault : fault ≠ .integerOutOfRange) (hparen : expecting ≠ .closeParen) :
    IsPiece expecting held ∧ expecting.misfit? ahead = some fault ∧
      (expecting = .key → ahead = none) := by
  cases h with
  | segment => exact ⟨rfl, rfl, nofun⟩
  | name => exact ⟨rfl, rfl, nofun⟩
  | @integer negative =>
    refine ⟨?_, rfl, nofun⟩
    cases negative
    · exact Or.inl rfl
    · exact Or.inr rfl
  | outOfRange => exact absurd rfl hfault
  | closeBracket => exact ⟨rfl, rfl, nofun⟩
  | key hkey => exact ⟨hkey, rfl, fun _ ↦ rfl⟩
  | closeParen => exact absurd rfl hparen

theorem head?_of_read_key (h : read expecting text = .token kind lexeme rest .closeParen) :
    rest.head? = some ')' := by
  have ends := endsLexeme_of_read h
  cases isLexeme_of_read h
  exact ends

/-- A scan goes on from what stands in front of it, and stops where the front awaits something. -/
theorem exists_awaits_of_scan (h : StopsAt fault reported (scan expecting text position))
    (hfault : fault ≠ .integerOutOfRange) (hfront : Reaches expecting front)
    (closes : expecting = .closeParen → text.head? = some ')') :
    ∃ state held rest, held ++ rest = text ∧ reported = position + held.length ∧
      Awaits state (front ++ held) ∧ state.misfit? rest.head? = some fault ∧
      (state = .key → rest = []) := by
  fun_induction scan expecting text position generalizing front with
  | case1 expecting text position kind lexeme rest next hread ih =>
    rw [stopsAt_cons_iff (scan_ne_nil _ _ _)] at h
    have closes' : next = .closeParen → rest.head? = some ')' := by
      rintro rfl
      exact head?_of_read_key hread
    obtain ⟨state, held, ahead, eq, rfl, awaits, onward⟩ :=
      ih h (reaches_append (isLexeme_of_read hread) hfront) closes'
    refine ⟨state, lexeme ++ held, ahead, ?_, ?_, ?_, onward⟩
    · rw [List.append_assoc, eq, lexeme_append_rest hread]
    · rw [List.length_append, Nat.add_assoc]
    · rwa [← List.append_assoc]
  | case2 expecting text position hread => cases h
  | case3 expecting text position misfit held column hread =>
    cases h
    have hparen : expecting ≠ .closeParen := by
      rintro rfl
      obtain ⟨more, rfl⟩ := List.head?_eq_some_iff.mp (closes rfl)
      cases hread
    obtain ⟨ahead, rfl, misfit⟩ := isMisfit_of_read hread
    obtain rfl := column_eq_length misfit hfault
    obtain ⟨piece, eq, key⟩ := isPiece_of_isMisfit misfit hfault hparen
    exact ⟨expecting, held, ahead, rfl, rfl, ⟨front, held, hfront, piece, rfl⟩, eq,
      fun hkey ↦ List.head?_eq_none_iff.mp (key hkey)⟩

theorem exists_opens_of_atStart (h : Expecting.atStart text = .segment) :
    ∃ c rest, text = c :: rest ∧ (c = '[' ∨ c = '(') := by
  cases text with
  | nil => cases h
  | cons c rest =>
    by_cases opens : c = '[' ∨ c = '('
    · exact ⟨c, rest, rfl, opens⟩
    · rw [Expecting.atStart, if_neg opens] at h
      cases h

theorem exists_read_of_opens {c : Char} (opens : c = '[' ∨ c = '(') (rest : List Char) :
    ∃ kind next, read .segment (c :: rest) = .token kind [c] rest next ∧ Reaches next [c] ∧
      next ≠ .closeParen := by
  rcases opens with rfl | rfl
  · exact ⟨_, _, read_openBracket rest, ⟨[], Or.inl rfl, rfl⟩, nofun⟩
  · exact ⟨_, _, read_openParen rest, ⟨[], Or.inl rfl, rfl⟩, nofun⟩

/-- **A scan stops where the text read so far awaits something**, unless an integer is out of
range. -/
theorem exists_awaits_of_stopsAt (h : StopsAt fault reported (tokensOf text position))
    (hfault : fault ≠ .integerOutOfRange) :
    ∃ state held rest, held ++ rest = text ∧ reported = position + held.length ∧
      Awaits state held ∧ state.misfit? rest.head? = some fault ∧
      (state = .key → rest = []) := by
  rw [tokensOf] at h
  rcases atStart_eq_name_or_segment text with name | segment
  · have start : Reaches .name [] := Or.inl rfl
    rw [name] at h
    exact exists_awaits_of_scan h hfault start fun closeParen ↦ by cases closeParen
  · obtain ⟨c, more, rfl, opens⟩ := exists_opens_of_atStart segment
    -- no path stands in front of the first bracket, so it is read here
    obtain ⟨kind, next, hread, hfront, hnext⟩ := exists_read_of_opens opens more
    rw [segment, stopsAt_of_token hread] at h
    obtain ⟨state, held, ahead, rfl, rfl, awaits, onward⟩ :=
      exists_awaits_of_scan h hfault hfront fun closeParen ↦ absurd closeParen hnext
    refine ⟨state, [c] ++ held, ahead, rfl, ?_, awaits, onward⟩
    rw [List.length_append, Nat.add_assoc]

end Step

/-! ## One thing at most -/

section Scans

variable {expecting state state' : Expecting} {items : List Item} {item : Item}
  {text rest before front piece : List Char} {c : Char} {fault : Misfit} {reported : Nat}
  {next next' : Option Char} {tokens behind : List Token} (position : Nat)

theorem stopsAt_append_iff (ne : behind ≠ []) :
    StopsAt fault reported (tokens ++ behind) ↔ StopsAt fault reported behind := by
  rw [StopsAt, StopsAt, List.getLast?_append_of_ne_nil _ ne]

theorem stopsAt_row_append_iff (h : ∀ item ∈ items, item.IsWritten IsInt64)
    (boundary : ∀ c ∈ rest.head?, isNameChar c = false) :
    StopsAt fault reported (scan .segment (row items ++ rest) position)
      ↔ StopsAt fault reported (scan .segment rest (position + (row items).length)) := by
  induction items generalizing position with
  | nil => rfl
  | cons item items ih =>
    rw [List.forall_mem_cons] at h
    rw [row_cons, List.append_assoc, scan_followingItem _ h.1 (boundary_row items boundary),
      stopsAt_append_iff (scan_ne_nil _ _ _), ih _ h.2, List.length_append, Nat.add_assoc]

theorem stopsAt_chars_append_iff (h : IsPath IsInt64 items)
    (boundary : ∀ c ∈ rest.head?, isNameChar c = false) :
    StopsAt fault reported (tokensOf (chars items ++ rest) position)
      ↔ StopsAt fault reported (scan .segment rest (position + (chars items).length)) := by
  obtain ⟨first, others, rfl⟩ := List.exists_cons_of_ne_nil h.ne_nil
  obtain ⟨hfirst, hothers⟩ := List.forall_mem_cons.mp h.written
  rw [tokensOf, atStart_append (chars_ne_nil h), atStart_chars h.toIsRow, chars, List.append_assoc,
    scan_item _ hfirst (boundary_row others boundary), stopsAt_append_iff (scan_ne_nil _ _ _),
    stopsAt_row_append_iff _ hothers boundary, List.length_append, Nat.add_assoc]

theorem stopsAt_takesSuffix_iff (h : TakesSuffix before) (opens : c = '[' ∨ c = '(') :
    StopsAt fault reported (tokensOf (before ++ c :: rest) position)
      ↔ StopsAt fault reported (scan .segment (c :: rest) (position + before.length)) := by
  rcases h with rfl | ⟨items, hitems, rfl⟩
  · rw [List.nil_append, tokensOf, Expecting.atStart, if_pos opens]
    rfl
  · apply stopsAt_chars_append_iff position hitems
    rintro d ⟨rfl⟩
    rcases opens with rfl | rfl <;> rfl

/-- A scan of a text that leads to a place where something is expected goes on from there. -/
theorem stopsAt_reaches_iff (hfront : Reaches state front) (hpiece : IsPiece state piece) :
    StopsAt fault reported (tokensOf (front ++ piece) position)
      ↔ StopsAt fault reported (scan state piece (position + front.length)) := by
  cases state with
  | segment =>
    obtain ⟨items, hitems, rfl⟩ := hfront
    obtain rfl : piece = [] := hpiece
    exact stopsAt_chars_append_iff position hitems (by simp)
  | name =>
    obtain rfl : piece = [] := hpiece
    rcases hfront with rfl | ⟨_, ⟨items, hitems, rfl⟩, rfl⟩
    · rfl
    · rw [List.append_nil, stopsAt_chars_append_iff _ hitems (by simp; decide),
        stopsAt_of_token (read_dot []), List.length_append, Nat.add_assoc]
  | integer =>
    obtain ⟨before, takes, rfl⟩ := hfront
    rw [List.append_assoc, List.singleton_append, stopsAt_takesSuffix_iff _ takes (Or.inl rfl),
      stopsAt_of_token (read_openBracket piece), List.length_append, Nat.add_assoc]
  | closeBracket =>
    obtain ⟨before, literal, takes, ⟨hmagnitude, hrange⟩, rfl⟩ := hfront
    obtain rfl : piece = [] := hpiece
    have index : read .integer (literal.chars ++ []) = _ :=
      read_integer hmagnitude hrange (by simp)
    rw [List.append_assoc, List.cons_append, stopsAt_takesSuffix_iff _ takes (Or.inl rfl),
      stopsAt_of_token (read_openBracket _), stopsAt_of_token index, List.length_append,
      List.length_cons]
    simp [Nat.add_assoc, Nat.add_comm 1]
  | key =>
    obtain ⟨before, takes, rfl⟩ := hfront
    rw [List.append_assoc, List.singleton_append, stopsAt_takesSuffix_iff _ takes (Or.inr rfl),
      stopsAt_of_token (read_openParen piece), List.length_append, Nat.add_assoc]
  | closeParen => exact hpiece.elim

theorem isMisfit_of_isPiece (h : IsPiece state piece) (missing : state.misfit? none = some fault) :
    IsMisfit state fault piece none piece.length := by
  cases state with
  | segment => cases missing
  | name =>
    cases missing
    obtain rfl : piece = [] := h
    exact .name (by simp)
  | integer =>
    cases missing
    rcases h with rfl | rfl
    · exact @IsMisfit.integer false none (by simp [Text.EndsSign])
    · exact @IsMisfit.integer true none (by simp [Text.EndsSign])
  | closeBracket =>
    cases missing
    obtain rfl : piece = [] := h
    exact .closeBracket nofun
  | key =>
    cases missing
    exact .key h
  | closeParen => exact h.elim

theorem eq_segment_of_misfit?_eq_none (h : state.misfit? none = none) : state = .segment := by
  cases state with
  | segment => rfl
  | _ => cases h

/-- Where nothing follows, a scan stops exactly if something is missing. -/
theorem stopsAt_isPiece_iff (h : IsPiece state piece) :
    StopsAt fault reported (scan state piece position)
      ↔ state.misfit? none = some fault ∧ reported = position + piece.length := by
  cases missing : state.misfit? none with
  | none =>
    obtain rfl := eq_segment_of_misfit?_eq_none missing
    obtain rfl : piece = [] := h
    rw [scan_of_endOfPath position rfl]
    simp [StopsAt]
  | some found =>
    have hread : read state (piece ++ []) = _ := read_of_isMisfit (isMisfit_of_isPiece h missing)
    rw [List.append_nil] at hread
    rw [scan_of_misfit position hread]
    simp [StopsAt, eq_comm]

theorem ne_closeParen_of_awaits (h : Awaits state text) : state ≠ .closeParen := by
  obtain ⟨front, piece, -, hpiece, -⟩ := h
  rintro rfl
  exact hpiece

theorem eq_of_misfit?_eq (h : state.misfit? next = some fault)
    (h' : state'.misfit? next' = some fault) (key : state ≠ .closeParen)
    (key' : state' ≠ .closeParen) : state = state' := by
  cases state <;> cases state' <;> grind [Expecting.misfit?, Option.map_eq_some_iff]

/-- On its own, a text stops a scan behind its end exactly if it awaits something. -/
theorem stopsAt_awaits_iff (h : Awaits state text) :
    StopsAt fault text.length (tokensOf text 0) ↔ state.misfit? none = some fault := by
  obtain ⟨front, piece, hfront, hpiece, rfl⟩ := h
  rw [stopsAt_reaches_iff 0 hfront hpiece, stopsAt_isPiece_iff _ hpiece, List.length_append,
    Nat.zero_add]
  exact and_iff_left rfl

/-- **A text awaits one thing at most.** -/
theorem awaits_inj (h : Awaits state text) (h' : Awaits state' text) : state = state' := by
  have same : state.misfit? none = state'.misfit? none :=
    Option.ext fun fault ↦ (stopsAt_awaits_iff h).symm.trans (stopsAt_awaits_iff h')
  cases missing : state.misfit? none with
  | none =>
    rw [missing, eq_comm] at same
    rw [eq_segment_of_misfit?_eq_none missing, eq_segment_of_misfit?_eq_none same]
  | some fault =>
    rw [missing, eq_comm] at same
    exact eq_of_misfit?_eq missing same (ne_closeParen_of_awaits h) (ne_closeParen_of_awaits h')

end Scans

end Grammar

end PropertyPath
