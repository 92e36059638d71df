import PropertyPath.Proofs.Grammar.Completion

/-!
# One derivation for every text

No text has two derivations. A name ends where its characters end, an integer before its bracket,
a key before the first parenthesis; and whether a suffix belongs to the name in front of it is not
a choice, because behind a plain name no suffix may stand.
-/

namespace PropertyPath.Grammar

section Unique

variable {fits : Int → Prop} {rest rest' name name' : List Char} {suffix suffix' : Suffix}
  {item item' : Item} {items items' : List Item}

theorem name_append_inj (h : IsName name) (h' : IsName name') (hrest : IsRowText fits rest)
    (hrest' : IsRowText fits rest') (eq : name ++ rest = name' ++ rest') :
    name = name' ∧ rest = rest' := by
  have reading := read_name h (boundary_of_isRowText hrest)
  rw [eq, read_name h' (boundary_of_isRowText hrest')] at reading
  obtain ⟨-, rfl, rfl, -⟩ := Reading.token.inj reading
  exact ⟨rfl, rfl⟩

theorem suffix_append_inj (h : suffix.IsWritten fits) (h' : suffix'.IsWritten fits)
    (eq : suffix.chars ++ rest = suffix'.chars ++ rest') : suffix = suffix' ∧ rest = rest' := by
  rcases suffix with literal | key <;> rcases suffix' with literal' | key'
  · have boundary : ∀ more : List Char, ∀ c ∈ (']' :: more).head?, c.isDigit = false := by simp
    have split := Text.splitInteger_append_of_isMagnitude h.1 (boundary rest)
    simp only [Suffix.chars, List.cons_append, List.append_assoc, List.nil_append,
      List.cons.injEq, true_and] at eq
    rw [eq, Text.splitInteger_append_of_isMagnitude h'.1 (boundary rest')] at split
    simp only [Prod.mk.injEq, List.cons.injEq, true_and] at split
    exact ⟨congrArg Suffix.index split.1.symm, split.2.symm⟩
  · cases eq
  · cases eq
  · have reading : read .key (key ++ ')' :: rest) = _ := read_key h
    simp only [Suffix.chars, List.cons_append, List.append_assoc, List.nil_append,
      List.cons.injEq, true_and] at eq
    rw [eq, read_key h'] at reading
    obtain ⟨-, rfl, tail, -⟩ := Reading.token.inj reading
    exact ⟨rfl, (List.cons.inj tail).2.symm⟩

/-! ## What follows a name

An item is its name, if it has one, and its suffix, if it has one. Each of the two can be told from
its absence by the first character of what is left: a bare suffix opens with a bracket, a name does
not, and behind a plain name the row goes on with a dot or not at all. -/

/-- The text of a row behind the name of its first item. -/
def behindName (item : Item) (items : List Item) : List Char :=
  (item.suffix?.map Suffix.chars).getD [] ++ row items

theorem chars_eq_append_behindName (item : Item) (items : List Item) :
    chars (item :: items) = (item.name?.map id).getD [] ++ behindName item items := by
  rw [chars, Item.chars, behindName, List.append_assoc, Option.map_id, id]

theorem isRowText_behindName (h : IsRow fits (item :: items)) :
    IsRowText fits (behindName item items) := by
  rcases item with name | ⟨owner, suffix⟩
  · exact ⟨items, (isRow_plain_iff.mp h).2.2, rfl⟩
  · obtain ⟨-, hsuffix, hitems⟩ := isRow_suffixed_iff.mp h
    exact isRowText_suffix hsuffix ⟨items, hitems, rfl⟩

theorem atStart_behindName (h : item.name? = none) :
    Expecting.atStart (behindName item items) = .segment := by
  rcases item with name | ⟨owner, suffix⟩
  · cases h
  · exact atStart_suffix suffix (row items)

theorem atStart_row (h : IsRow fits (item :: items)) (plain : item.suffix? = none) :
    Expecting.atStart (row items) = .name := by
  rcases items with _ | ⟨next, items⟩
  · rfl
  · have named : next.name?.isSome = true := by
      rw [Option.isSome_iff_ne_none]
      exact fun bare ↦ (isRow_cons_iff.mp h).2.1 next rfl bare plain
    rw [row_eq_chars, if_pos named]
    rfl

/-- A part that may be missing can be told from its absence by where the text starts. -/
theorem optional_append_inj {β : Type} {f : β → List Char} {part part' : Option β}
    {there missing : Expecting} (ne : there ≠ missing)
    (starts : ∀ x ∈ part, ∀ more, Expecting.atStart (f x ++ more) = there)
    (starts' : ∀ x ∈ part', ∀ more, Expecting.atStart (f x ++ more) = there)
    (lacks : part = none → Expecting.atStart rest = missing)
    (lacks' : part' = none → Expecting.atStart rest' = missing)
    (inj : ∀ x ∈ part, ∀ x' ∈ part', f x ++ rest = f x' ++ rest' → x = x' ∧ rest = rest')
    (eq : (part.map f).getD [] ++ rest = (part'.map f).getD [] ++ rest') :
    part = part' ∧ rest = rest' := by
  rcases part with _ | x <;> rcases part' with _ | x'
  · exact ⟨rfl, eq⟩
  · have start := starts' x' rfl rest'
    rw [← show rest = f x' ++ rest' from eq, lacks rfl] at start
    exact absurd start.symm ne
  · have start := starts x rfl rest
    rw [show f x ++ rest = rest' from eq, lacks' rfl] at start
    exact absurd start.symm ne
  · obtain ⟨rfl, tail⟩ := inj x rfl x' rfl eq
    exact ⟨rfl, tail⟩

theorem item_ext (hname : item.name? = item'.name?) (hsuffix : item.suffix? = item'.suffix?) :
    item = item' := by
  rcases item with name | ⟨owner, suffix⟩ <;> rcases item' with name' | ⟨owner', suffix'⟩
  · exact congrArg Item.plain (Option.some.inj hname)
  · cases hsuffix
  · cases hsuffix
  · rw [show owner = owner' from hname, Option.some.inj hsuffix]

/-! ## Rows and paths -/

theorem chars_cons_inj (h : IsRow fits (item :: items)) (h' : IsRow fits (item' :: items'))
    (eq : chars (item :: items) = chars (item' :: items')) :
    item = item' ∧ row items = row items' := by
  have written := (isRow_cons_iff.mp h).1
  have written' := (isRow_cons_iff.mp h').1
  have names : ∀ name ∈ item.name?, ∀ name' ∈ item'.name?,
      name ++ behindName item items = name' ++ behindName item' items' →
        name = name' ∧ behindName item items = behindName item' items' :=
    fun name hname name' hname' ↦ name_append_inj (written.1 name hname) (written'.1 name' hname')
      (isRowText_behindName h) (isRowText_behindName h')
  have suffixes : ∀ suffix ∈ item.suffix?, ∀ suffix' ∈ item'.suffix?,
      suffix.chars ++ row items = suffix'.chars ++ row items' →
        suffix = suffix' ∧ row items = row items' :=
    fun suffix hsuffix suffix' hsuffix' ↦
      suffix_append_inj (written.2 suffix hsuffix) (written'.2 suffix' hsuffix')
  rw [chars_eq_append_behindName, chars_eq_append_behindName] at eq
  obtain ⟨hname, behind⟩ := optional_append_inj (by decide : Expecting.name ≠ .segment)
    (fun name hname ↦ atStart_name (written.1 name hname))
    (fun name hname ↦ atStart_name (written'.1 name hname))
    atStart_behindName atStart_behindName names eq
  obtain ⟨hsuffix, tail⟩ := optional_append_inj (by decide : Expecting.segment ≠ .name)
    (fun suffix _ ↦ atStart_suffix suffix) (fun suffix _ ↦ atStart_suffix suffix)
    (atStart_row h) (atStart_row h') suffixes behind
  exact ⟨item_ext hname hsuffix, tail⟩

theorem chars_eq_of_row_eq (h : IsRow fits (item :: items)) (h' : IsRow fits (item' :: items'))
    (eq : row (item :: items) = row (item' :: items')) :
    chars (item :: items) = chars (item' :: items') := by
  rcases row_cases h with ⟨dot, -⟩ | ⟨same, start⟩ <;>
    rcases row_cases h' with ⟨dot', -⟩ | ⟨same', start'⟩
  · exact (List.cons.inj (dot.symm.trans (eq.trans dot'))).2
  · rw [← same', ← eq, dot] at start'
    cases start'
  · rw [← same, eq, dot'] at start
    cases start
  · exact same.symm.trans (eq.trans same')

theorem row_inj (h : IsRow fits items) (h' : IsRow fits items') (eq : row items = row items') :
    items = items' := by
  induction items generalizing items' with
  | nil =>
    -- no item is empty, so a row without text has no items
    rcases items' with _ | ⟨item', items'⟩
    · rfl
    · exact absurd eq.symm (row_cons_ne_nil h')
  | cons item items ih =>
    rcases items' with _ | ⟨item', items'⟩
    · exact absurd eq (row_cons_ne_nil h)
    · obtain ⟨rfl, tail⟩ := chars_cons_inj h h' (chars_eq_of_row_eq h h' eq)
      rw [ih (isRow_cons_iff.mp h).2.2 (isRow_cons_iff.mp h').2.2 tail]

/-- **A text has at most one derivation.** -/
theorem chars_inj (h : IsPath fits items) (h' : IsPath fits items')
    (eq : chars items = chars items') : items = items' := by
  obtain ⟨first, rest, rfl⟩ := List.exists_cons_of_ne_nil h.ne_nil
  obtain ⟨first', rest', rfl⟩ := List.exists_cons_of_ne_nil h'.ne_nil
  obtain ⟨rfl, tail⟩ := chars_cons_inj h.toIsRow h'.toIsRow eq
  rw [row_inj (isRow_cons_iff.mp h.toIsRow).2.2 (isRow_cons_iff.mp h'.toIsRow).2.2 tail]

end Unique

end PropertyPath.Grammar
