import Mathlib.Data.Set.Basic
import Mathlib.Order.Bounds.Defs
import PropertyPath.Proofs.Grammar.Beginning

/-!
# Integers out of range

An index that does not fit into 64 bits is an index of the grammar all the same, so it is not found
by asking where a text leaves the grammar. `HasIndexAt` says where the indices of a text are, as far
as it is the beginning of a path text: a derivation ends with the index, and the text agrees with
the derivation up to the last digit.

A scan that stops at an integer out of range does so at the first of them. On the one hand the scan
has followed a derivation up to there (`exists_mem_outOfRangePlaces_of_stopsAt`). On the other hand
it follows every derivation until it meets an integer out of range (`overflows_row`), so no such
integer of the text is further to the front.
-/

namespace PropertyPath.Grammar

open Text (IntegerLiteral IsMagnitude)

/-- The indices of a text: `literal` begins at `place`, a derivation ends with it, and it is written
as far as its digits go. The text need not go on like the derivation, which closes the bracket. -/
def HasIndexAt (text : List Char) (place : Nat) (literal : IntegerLiteral) : Prop :=
  ∃ items owner front rest, IsPath AnySize (items ++ [.suffixed owner (.index literal)]) ∧
    chars (items ++ [.suffixed owner (.index literal)]) = front ++ literal.chars ++ [']'] ∧
    front ++ literal.chars ++ rest = text ∧ (∀ c ∈ rest.head?, c.isDigit = false) ∧
    front.length = place

/-- The places of the indices that do not fit a word. -/
def outOfRangePlaces (text : List Char) : Set Nat :=
  {place | ∃ literal, HasIndexAt text place literal ∧ ¬IsInt64 literal.value}

/-! ## The last index of a derivation -/

section LastIndex

variable {fits : Int → Prop} {items : List Item} {front rest : List Char}
  {literal literal' : IntegerLiteral}

theorem chars_concat (items : List Item) (last : Item) :
    ∃ front, chars (items ++ [last]) = front ++ last.chars := by
  rcases items with _ | ⟨first, more⟩
  · exact ⟨[], by simp [chars]⟩
  · refine ⟨first.chars ++ row more ++ if last.name?.isSome then ['.'] else [], ?_⟩
    simp [chars, row, Item.followingChars]

theorem append_openBracket_inj (h : IsMagnitude literal.digits) (h' : IsMagnitude literal'.digits)
    (eq : front ++ '[' :: literal.chars = rest ++ '[' :: literal'.chars) : literal = literal' := by
  have inside : ∀ {literal : IntegerLiteral}, IsMagnitude literal.digits →
      ∀ c ∈ literal.chars.reverse, decide (c ≠ '[') = true := by
    intro literal h c hc
    simp only [decide_eq_true_eq]
    rintro rfl
    exact Text.not_mem_chars_of_isMagnitude h rfl (by decide) (List.mem_reverse.mp hc)
  have boundary : ∀ front : List Char, ∀ c ∈ ('[' :: front).head?, decide (c ≠ '[') = false := by
    simp
  have reversed : literal.chars.reverse ++ '[' :: front.reverse
      = literal'.chars.reverse ++ '[' :: rest.reverse := by
    simpa using congrArg List.reverse eq
  have same := Text.takeWhile_run (inside h) (boundary front.reverse)
  rw [reversed, Text.takeWhile_run (inside h') (boundary rest.reverse)] at same
  exact Text.chars_inj_of_isMagnitude h h' (List.reverse_inj.mp same.symm)

theorem exists_eq_concat_index (hpath : IsPath fits items) (h : IsMagnitude literal.digits)
    (eq : chars items = front ++ '[' :: literal.chars ++ [']']) :
    ∃ before owner, items = before ++ [.suffixed owner (.index literal)] := by
  obtain ⟨before, last, rfl⟩ := (List.eq_nil_or_concat items).resolve_left hpath.ne_nil
  rw [List.concat_eq_append] at hpath eq ⊢
  obtain ⟨pre, concat⟩ := chars_concat before last
  rw [concat] at eq
  have written := hpath.written last (List.mem_append_right _ List.mem_cons_self)
  -- what the last item ends with tells what it is
  rcases last with name | ⟨owner, literal' | key⟩
  · have name_ne : name ≠ [] := by
      rintro rfl
      exact written.1 [] rfl
    obtain ⟨init, c, rfl⟩ := (List.eq_nil_or_concat name).resolve_left name_ne
    rw [chars_plain, List.concat_eq_append, ← List.append_assoc] at eq
    obtain ⟨-, last⟩ := List.append_inj' eq rfl
    have inside := isNameChar_of_mem_name (written.1 _ rfl) c (by simp)
    rw [List.singleton_inj.mp last] at inside
    cases inside
  · have index : (Item.suffixed owner (.index literal')).chars
        = (owner.getD [] ++ '[' :: literal'.chars) ++ [']'] := by
      simp [Item.chars, Item.name?, Item.suffix?, Suffix.chars]
    rw [index, ← List.append_assoc, ← List.append_assoc] at eq
    obtain ⟨opened, -⟩ := List.append_inj' eq rfl
    rw [append_openBracket_inj h (written.2 _ rfl).1 opened.symm]
    exact ⟨before, owner, rfl⟩
  · have keyed : (Item.suffixed owner (.key key)).chars
        = (owner.getD [] ++ '(' :: key) ++ [')'] := by
      simp [Item.chars, Item.name?, Item.suffix?, Suffix.chars]
    rw [keyed, ← List.append_assoc] at eq
    obtain ⟨-, last⟩ := List.append_inj' eq rfl
    cases List.singleton_inj.mp last

end LastIndex

/-! ## The integer at which a scan stopped -/

/-- `front` leads from where something is expected to an index, whatever the index is. -/
structure LeadsToIndex (expecting : Expecting) (front : List Char) : Prop where
  completes : ∀ tail, Completes AnySize .integer tail → Completes AnySize expecting (front ++ tail)
  opened : front = [] ∧ expecting = .integer ∨ ∃ before, front = before ++ ['[']

section Scans

variable {expecting next : Expecting} {text lexeme rest front : List Char} {kind : TokenKind}
  {reported position : Nat}

theorem leadsToIndex_append (h : IsLexeme expecting kind lexeme next)
    (hfront : LeadsToIndex next front) : LeadsToIndex expecting (lexeme ++ front) := by
  refine ⟨fun tail htail ↦ ?_, Or.inr ?_⟩
  · rw [List.append_assoc]
    exact completes_append anySize_of_isInt64 h (hfront.completes tail htail)
  · rcases hfront.opened with ⟨rfl, rfl⟩ | ⟨before, rfl⟩
    · -- only behind an opening bracket is an integer expected
      rcases h
      exact ⟨[], rfl⟩
    · exact ⟨lexeme ++ before, (List.append_assoc _ _ _).symm⟩

theorem exists_leadsToIndex_of_stopsAt
    (h : StopsAt .integerOutOfRange reported (scan expecting text position)) :
    ∃ (front : List Char) (literal : IntegerLiteral) (rest : List Char),
      front ++ literal.chars ++ rest = text ∧ reported = position + front.length ∧
      LeadsToIndex expecting front ∧
      IsMagnitude literal.digits ∧ ¬IsInt64 literal.value ∧
      ∀ c ∈ rest.head?, c.isDigit = false := by
  fun_induction scan expecting text position with
  | case1 expecting text position kind lexeme rest next hread ih =>
    rw [stopsAt_cons_iff (scan_ne_nil _ _ _)] at h
    obtain ⟨front, literal, behind, eq, rfl, leads, hliteral⟩ := ih h
    refine ⟨lexeme ++ front, literal, behind, ?_, ?_,
      leadsToIndex_append (isLexeme_of_read hread) leads, hliteral⟩
    · rw [← lexeme_append_rest hread, ← eq, List.append_assoc, List.append_assoc,
        List.append_assoc]
    · rw [List.length_append, Nat.add_assoc]
  | case2 expecting text position hread => cases h
  | case3 expecting text position misfit held column hread =>
    cases h
    obtain ⟨ahead, rfl, misfit⟩ := isMisfit_of_read hread
    generalize hnext : ahead.head? = next at misfit
    rcases misfit
    case outOfRange literal hmagnitude hrange boundary =>
      exact ⟨[], literal, ahead, rfl, rfl, ⟨fun _ ↦ id, Or.inl ⟨rfl, rfl⟩⟩, hmagnitude, hrange,
        hnext ▸ boundary⟩

/-- A scan that stops at an integer out of range stops at an index of the text. -/
theorem exists_mem_outOfRangePlaces_of_stopsAt
    (h : StopsAt .integerOutOfRange reported (scan (Expecting.atStart text) text position)) :
    ∃ place, reported = position + place ∧ place ≤ text.length ∧ IsBeginning (text.take place) ∧
      place ∈ outOfRangePlaces text := by
  obtain ⟨front, literal, rest, rfl, rfl, leads, hmagnitude, hrange, boundary⟩ :=
    exists_leadsToIndex_of_stopsAt h
  obtain ⟨before, rfl⟩ : ∃ before, front = before ++ ['['] := by
    refine leads.opened.resolve_left fun ⟨_, start⟩ ↦ ?_
    rcases atStart_eq_name_or_segment (front ++ literal.chars ++ rest) with name | segment
    · cases name.symm.trans start
    · cases segment.symm.trans start
  have ne : before ++ ['['] ≠ [] := by simp
  have closes : Completes AnySize .integer (literal.chars ++ [']']) :=
    ⟨literal, [], ⟨hmagnitude, trivial⟩, isRowText_nil, rfl⟩
  have word : IsWord (before ++ ['['] ++ (literal.chars ++ [']'])) := by
    have completes := leads.completes _ closes
    rw [List.append_assoc, atStart_append ne] at completes
    rwa [isWord_iff, atStart_append ne]
  refine ⟨_, rfl, ?_, ?_, literal, ?_, hrange⟩
  · simp only [List.length_append]
    omega
  · rw [List.append_assoc, List.take_left]
    exact ⟨_, word, List.prefix_append _ _⟩
  · obtain ⟨items, hpath, eq⟩ := word
    have bracketed : chars items = before ++ '[' :: literal.chars ++ [']'] := by
      simpa using eq
    obtain ⟨items, owner, rfl⟩ := exists_eq_concat_index hpath hmagnitude bracketed
    exact ⟨items, owner, before ++ ['['], rest, hpath, by simpa using eq, rfl, boundary, rfl⟩

end Scans

/-! ## No integer out of range is further to the front -/

/-- A scan comes to an integer out of range which is not behind `bound`. -/
inductive Overflows : Expecting → List Char → Nat → Prop where
  | here {expecting : Expecting} {text held : List Char} (bound : Nat)
    (h : read expecting text = .misfit .integerOutOfRange held 0) : Overflows expecting text bound
  | token {expecting next : Expecting} {text lexeme rest : List Char} {kind : TokenKind}
    {bound : Nat} (h : read expecting text = .token kind lexeme rest next)
    (hrest : Overflows next rest bound) : Overflows expecting text (lexeme.length + bound)

section Overflow

variable {expecting : Expecting} {text rest name : List Char} {suffix : Suffix} {item : Item}
  {items : List Item} {literal : IntegerLiteral} {bound : Nat}

theorem stopsAt_of_overflows (h : Overflows expecting text bound) (position : Nat) :
    ∃ column ≤ bound,
      StopsAt .integerOutOfRange (position + column) (scan expecting text position) := by
  induction h generalizing position with
  | here bound hread =>
    refine ⟨0, Nat.zero_le _, ?_⟩
    rw [scan_of_misfit position hread]
    rfl
  | @token _ _ _ lexeme _ _ _ hread _ ih =>
    obtain ⟨column, le, stops⟩ := ih (position + lexeme.length)
    refine ⟨lexeme.length + column, Nat.add_le_add_left le _, ?_⟩
    rwa [stopsAt_of_token hread, ← Nat.add_assoc]

theorem overflows_dot_iff :
    Overflows .segment ('.' :: text) (bound + 1) ↔ Overflows .name text bound := by
  constructor
  · intro h
    generalize hbound : bound + 1 = bound' at h
    rcases h with ⟨_, h⟩ | ⟨h, hrest⟩
    · cases h
    · cases h
      obtain rfl := Nat.add_right_cancel (hbound.trans (Nat.add_comm _ _))
      exact hrest
  · intro h
    rw [Nat.add_comm]
    exact .token (read_dot text) h

theorem overflows_name (h : IsName name) (boundary : ∀ c ∈ rest.head?, isNameChar c = false)
    (hrest : Overflows .segment rest bound) :
    Overflows .name (name ++ rest) (name.length + bound) :=
  .token (read_name h boundary) hrest

theorem overflows_bracket (h : IsMagnitude literal.digits) (hrange : ¬IsInt64 literal.value)
    (boundary : ∀ c ∈ rest.head?, c.isDigit = false) :
    Overflows .segment ('[' :: (literal.chars ++ rest)) 1 :=
  .token (read_openBracket _) (.here 0 (read_integer_outOfRange h hrange boundary))

/-- An index in front does no harm: if it is out of range itself, the scan stops there. -/
theorem overflows_suffix (h : suffix.IsWritten AnySize) (hrest : Overflows .segment rest bound) :
    Overflows .segment (suffix.chars ++ rest) (suffix.chars.length + bound) := by
  rcases suffix with literal | key
  · have text : (Suffix.index literal).chars ++ rest = '[' :: (literal.chars ++ ']' :: rest) := by
      simp [Suffix.chars]
    have length : (Suffix.index literal).chars.length + bound
        = 1 + (literal.chars.length + (1 + bound)) := by
      simp [Suffix.chars]
      omega
    have boundary : ∀ c ∈ (']' :: rest).head?, c.isDigit = false := by simp
    rw [text, length]
    by_cases hrange : IsInt64 literal.value
    · exact .token (read_openBracket _)
        (.token (read_integer h.1 hrange boundary) (.token (read_closeBracket _) hrest))
    · exact .token (read_openBracket _) (.here _ (read_integer_outOfRange h.1 hrange boundary))
  · have text : (Suffix.key key).chars ++ rest = '(' :: (key ++ ')' :: rest) := by
      simp [Suffix.chars]
    have length : (Suffix.key key).chars.length + bound = 1 + (key.length + (1 + bound)) := by
      simp [Suffix.chars]
      omega
    rw [text, length]
    exact .token (read_openParen _) (.token (read_key h) (.token (read_closeParen _) hrest))

theorem overflows_followingItem (h : item.IsWritten AnySize)
    (boundary : ∀ c ∈ rest.head?, isNameChar c = false) (hrest : Overflows .segment rest bound) :
    Overflows .segment (item.followingChars ++ rest) (item.followingChars.length + bound) := by
  rcases item with name | ⟨_ | name, suffix⟩
  · rw [followingChars_plain, List.cons_append, List.length_cons, Nat.add_right_comm,
      overflows_dot_iff]
    exact overflows_name (h.1 name rfl) boundary hrest
  · exact overflows_suffix (h.2 suffix rfl) hrest
  · rw [followingChars_owned, List.cons_append, List.length_cons, Nat.add_right_comm,
      overflows_dot_iff, List.append_assoc, List.length_append, Nat.add_assoc]
    exact overflows_name (h.1 name rfl) (boundary_suffix suffix rest)
      (overflows_suffix (h.2 suffix rfl) hrest)

/-- A scan comes through a row, or stops in it at an integer out of range. -/
theorem overflows_row (h : ∀ item ∈ items, item.IsWritten AnySize)
    (boundary : ∀ c ∈ rest.head?, isNameChar c = false) (hrest : Overflows .segment rest bound) :
    Overflows .segment (row items ++ rest) ((row items).length + bound) := by
  induction items with
  | nil => rwa [row_nil, List.nil_append, List.length_nil, Nat.zero_add]
  | cons item items ih =>
    rw [List.forall_mem_cons] at h
    rw [row_cons, List.append_assoc, List.length_append, Nat.add_assoc]
    exact overflows_followingItem h.1 (boundary_row items boundary) (ih h.2)

/-- A scan comes to the index at the end of a row, whatever follows its digits, or stops before. -/
theorem exists_overflows_lastIndex {owner : Option (List Char)}
    (h : ∀ item ∈ items, item.IsWritten AnySize) (howner : ∀ name ∈ owner, IsName name)
    (hmagnitude : IsMagnitude literal.digits) (hrange : ¬IsInt64 literal.value)
    (boundary : ∀ c ∈ rest.head?, c.isDigit = false) :
    ∃ front, row (items ++ [.suffixed owner (.index literal)]) = front ++ literal.chars ++ [']'] ∧
      Overflows .segment (front ++ literal.chars ++ rest) front.length := by
  have bracket : Overflows .segment ('[' :: (literal.chars ++ rest)) 1 :=
    overflows_bracket hmagnitude hrange boundary
  rcases owner with _ | name
  · refine ⟨row items ++ ['['], by simp [row, Suffix.chars], ?_⟩
    have overflows := overflows_row h (by simp; decide) bracket
    simpa using overflows
  · refine ⟨row items ++ '.' :: (name ++ ['[']), by simp [row, Suffix.chars], ?_⟩
    have named : Overflows .segment ('.' :: (name ++ '[' :: (literal.chars ++ rest)))
        (name.length + 1 + 1) :=
      overflows_dot_iff.mpr (overflows_name (howner name rfl) (by simp; decide) bracket)
    have overflows := overflows_row h (by simp; decide) named
    simpa using overflows

/-- **Where an integer is out of range, a scan stops,** if it has not done so before. -/
theorem overflows_of_mem_outOfRangePlaces {place : Nat} (h : place ∈ outOfRangePlaces text) :
    Overflows (Expecting.atStart text) text place := by
  obtain ⟨literal, ⟨items, owner, front, rest, hpath, eq, rfl, boundary, rfl⟩, hrange⟩ := h
  have written := List.forall_mem_append.mp hpath.written
  have last := written.2 _ (List.mem_singleton_self _)
  have howner : ∀ name ∈ owner, IsName name := last.1
  have hmagnitude : IsMagnitude literal.digits := (last.2 _ rfl).1
  obtain ⟨before, inRow, overflows⟩ :=
    exists_overflows_lastIndex written.1 howner hmagnitude hrange boundary
  -- the text begins like the derivation, since it has the digits in it
  have start : Expecting.atStart (front ++ literal.chars ++ rest)
      = Expecting.atStart (chars (items ++ [.suffixed owner (.index literal)])) := by
    have ne : front ++ literal.chars ≠ [] :=
      List.append_ne_nil_of_right_ne_nil _ (Text.chars_ne_nil_of_isMagnitude hmagnitude)
    rw [eq, atStart_append ne, atStart_append ne]
  obtain ⟨first, others, list⟩ := List.exists_cons_of_ne_nil hpath.ne_nil
  rw [start]
  rw [list] at hpath eq inRow ⊢
  rcases row_cases hpath.toIsRow with ⟨dot, start⟩ | ⟨same, start⟩
  · have dotted : '.' :: front = before := by
      rw [dot, eq, List.append_assoc, List.append_assoc before, ← List.cons_append] at inRow
      exact List.append_cancel_right inRow
    rw [start, ← overflows_dot_iff]
    rwa [← dotted] at overflows
  · have bare : front = before := by
      rw [same, eq, List.append_assoc, List.append_assoc before] at inRow
      exact List.append_cancel_right inRow
    rwa [start, bare]

end Overflow

/-! ## The integer that is reported -/

section Reported

variable {text : List Char} {fault : Misfit} {reported position : Nat}

/-- **A scan stops at the first integer out of range.** -/
theorem isLeast_outOfRangePlaces_of_stopsAt
    (h : StopsAt .integerOutOfRange reported (scan (Expecting.atStart text) text position)) :
    ∃ place, reported = position + place ∧ place ≤ text.length ∧ IsBeginning (text.take place) ∧
      IsLeast (outOfRangePlaces text) place := by
  obtain ⟨place, rfl, within, beginning, mem⟩ := exists_mem_outOfRangePlaces_of_stopsAt h
  refine ⟨place, rfl, within, beginning, mem, fun other hother ↦ ?_⟩
  obtain ⟨column, le, stops⟩ :=
    stopsAt_of_overflows (overflows_of_mem_outOfRangePlaces hother) position
  have same : place = column := Nat.add_left_cancel (stopsAt_inj h stops).2
  rwa [same]

/-- A scan that stops at anything else has no integer out of range before it, nor behind it. -/
theorem outOfRangePlaces_eq_empty_of_stopsAt
    (h : StopsAt fault reported (scan (Expecting.atStart text) text position))
    (hfault : fault ≠ .integerOutOfRange) : outOfRangePlaces text = ∅ := by
  refine Set.eq_empty_iff_forall_notMem.mpr fun place mem ↦ hfault ?_
  obtain ⟨column, -, stops⟩ :=
    stopsAt_of_overflows (overflows_of_mem_outOfRangePlaces mem) position
  exact (stopsAt_inj h stops).1

end Reported

end PropertyPath.Grammar
