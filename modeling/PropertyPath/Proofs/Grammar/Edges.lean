import PropertyPath.Path.Parse
import PropertyPath.Proofs.Grammar.Basic

/-!
# The ends of a path text

A path text begins with a letter or an opening bracket and ends with a character of a name or a
closing bracket. So none of it is white space that trimming would take away, and neither end is a
dot: looking for dots at the ends before a text is scanned refuses no path.
-/

namespace PropertyPath.Grammar

/-- The characters that stand at the ends of path texts: those of names, and brackets. -/
def IsEdge (c : Char) : Prop :=
  isNameChar c = true ∨ c = '[' ∨ c = '(' ∨ c = ']' ∨ c = ')'

/-- Whether a text begins with an edge. -/
def BeginsWithEdge (text : List Char) : Prop := ∃ c rest, text = c :: rest ∧ IsEdge c

/-- Whether a text ends with an edge. -/
def EndsWithEdge (text : List Char) : Prop := ∃ front c, text = front ++ [c] ∧ IsEdge c

section Edges

variable {c : Char} {text : List Char}

private theorem toNat_of_isNameChar (h : isNameChar c = true) :
    0x20 < c.toNat ∧ c.toNat < 0x80 := by
  have within : ∀ lo hi : Char, 0x20 < lo.toNat → hi.toNat < 0x80 → lo ≤ c ∧ c ≤ hi →
      0x20 < c.toNat ∧ c.toNat < 0x80 :=
    fun lo hi hlo hhi between ↦ ⟨lt_of_lt_of_le hlo between.1, lt_of_le_of_lt between.2 hhi⟩
  rcases (isNameChar_iff c).mp h with (h | h) | h | rfl | rfl | rfl
  · exact within 'A' 'Z' (by decide) (by decide) h
  · exact within 'a' 'z' (by decide) (by decide) h
  · exact within '0' '9' (by decide) (by decide) h
  all_goals decide

theorem isWhiteSpace_of_isEdge (h : IsEdge c) : Text.isWhiteSpace c = false := by
  have range : 0x20 < c.toNat ∧ c.toNat < 0x80 := by
    rcases h with h | rfl | rfl | rfl | rfl
    · exact toNat_of_isNameChar h
    all_goals decide
  simp only [Text.isWhiteSpace, Text.whiteSpaceRanges, List.any_cons, List.any_nil,
    Bool.or_eq_false_iff, Bool.and_eq_false_iff, decide_eq_false_iff_not, and_true]
  omega

theorem ne_dot_of_isEdge (h : IsEdge c) : c ≠ '.' := by
  rintro rfl
  rcases h with h | h | h | h | h <;> exact absurd h (by decide)

theorem BeginsWithEdge.append (h : BeginsWithEdge text) (rest : List Char) :
    BeginsWithEdge (text ++ rest) := by
  obtain ⟨c, more, rfl, hc⟩ := h
  exact ⟨c, more ++ rest, rfl, hc⟩

theorem EndsWithEdge.append (h : EndsWithEdge text) (front : List Char) :
    EndsWithEdge (front ++ text) := by
  obtain ⟨more, c, rfl, hc⟩ := h
  exact ⟨front ++ more, c, (List.append_assoc _ _ _).symm, hc⟩

end Edges

/-! ## Derivations -/

section Derivations

variable {fits : Int → Prop} {items : List Item} {item : Item} {name : List Char}

theorem beginsWithEdge_name (h : IsName name) : BeginsWithEdge name := by
  rcases name with _ | ⟨c, rest⟩
  · exact h.elim
  · exact ⟨c, rest, rfl, Or.inl (isNameChar_of_isNameStart (isName_cons_iff.mp h).1)⟩

theorem endsWithEdge_name (h : IsName name) : EndsWithEdge name := by
  rcases name with _ | ⟨c, rest⟩
  · exact h.elim
  · have ne : c :: rest ≠ [] := List.cons_ne_nil c rest
    exact ⟨_, _, (List.dropLast_append_getLast ne).symm,
      Or.inl (isNameChar_of_mem_name h _ (List.getLast_mem ne))⟩

theorem beginsWithEdge_suffix (suffix : Suffix) : BeginsWithEdge suffix.chars := by
  cases suffix with
  | index literal => exact ⟨'[', _, rfl, by simp [IsEdge]⟩
  | key text => exact ⟨'(', _, rfl, by simp [IsEdge]⟩

theorem endsWithEdge_suffix (suffix : Suffix) : EndsWithEdge suffix.chars := by
  cases suffix with
  | index literal => exact ⟨'[' :: literal.chars, ']', rfl, by simp [IsEdge]⟩
  | key text => exact ⟨'(' :: text, ')', rfl, by simp [IsEdge]⟩

theorem beginsWithEdge_item (h : item.IsWritten fits) : BeginsWithEdge item.chars := by
  rcases item with name | ⟨_ | name, suffix⟩
  · rw [chars_plain]
    exact beginsWithEdge_name (h.1 name rfl)
  · exact beginsWithEdge_suffix suffix
  · exact (beginsWithEdge_name (h.1 name rfl)).append suffix.chars

theorem endsWithEdge_item (h : item.IsWritten fits) : EndsWithEdge item.chars := by
  rcases item with name | ⟨_ | name, suffix⟩
  · rw [chars_plain]
    exact endsWithEdge_name (h.1 name rfl)
  · exact endsWithEdge_suffix suffix
  · exact (endsWithEdge_suffix suffix).append name

/-- A row ends with an edge behind any text that does. -/
theorem endsWithEdge_append_row {text : List Char} (h : EndsWithEdge text)
    (hitems : ∀ item ∈ items, item.IsWritten fits) : EndsWithEdge (text ++ row items) := by
  -- each item in turn moves over to the text in front
  induction items generalizing text with
  | nil => rwa [row_nil, List.append_nil]
  | cons item items ih =>
    rw [List.forall_mem_cons] at hitems
    rw [row_cons, ← List.append_assoc]
    exact ih (((endsWithEdge_item hitems.1).append _).append _) hitems.2

theorem beginsWithEdge_chars (h : IsPath fits items) : BeginsWithEdge (chars items) := by
  obtain ⟨first, rest, rfl⟩ := List.exists_cons_of_ne_nil h.ne_nil
  exact (beginsWithEdge_item (h.written first List.mem_cons_self)).append (row rest)

theorem endsWithEdge_chars (h : IsPath fits items) : EndsWithEdge (chars items) := by
  obtain ⟨first, rest, rfl⟩ := List.exists_cons_of_ne_nil h.ne_nil
  have hitems := List.forall_mem_cons.mp h.written
  exact endsWithEdge_append_row (endsWithEdge_item hitems.1) hitems.2

theorem chars_ne_nil (h : IsPath fits items) : chars items ≠ [] := by
  obtain ⟨c, rest, eq, -⟩ := beginsWithEdge_chars h
  rw [eq]
  exact List.cons_ne_nil c rest

theorem trim_chars (h : IsPath fits items) : Text.trim (chars items) = chars items := by
  obtain ⟨first, rest, start, hfirst⟩ := beginsWithEdge_chars h
  obtain ⟨front, last, stop, hlast⟩ := endsWithEdge_chars h
  refine Text.trim_eq_self (chars_ne_nil h) (fun c hc ↦ ?_) (fun c hc ↦ ?_)
  · rw [start, List.head?_cons, Option.mem_some] at hc
    exact hc ▸ isWhiteSpace_of_isEdge hfirst
  · rw [stop, List.getLast?_concat, Option.mem_some] at hc
    exact hc ▸ isWhiteSpace_of_isEdge hlast

theorem isDotBounded_chars (h : IsPath fits items) : Path.isDotBounded (chars items) = false := by
  obtain ⟨first, rest, start, hfirst⟩ := beginsWithEdge_chars h
  obtain ⟨front, last, stop, hlast⟩ := endsWithEdge_chars h
  have noDotFirst : (chars items).head? ≠ some '.' := by
    rw [start, List.head?_cons]
    exact fun eq ↦ ne_dot_of_isEdge hfirst (Option.some.inj eq)
  have noDotLast : (chars items).getLast? ≠ some '.' := by
    rw [stop, List.getLast?_concat]
    exact fun eq ↦ ne_dot_of_isEdge hlast (Option.some.inj eq)
  simp [Path.isDotBounded, noDotFirst, noDotLast]

end Derivations

end PropertyPath.Grammar
