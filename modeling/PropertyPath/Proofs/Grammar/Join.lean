import PropertyPath.Proofs.Grammar.Completion

/-!
# Derivations behind one another

The texts of two derivations, written one behind the other, are the text of a derivation again. A
second text that begins with a name is put behind a dot, and its items follow those of the first
(`isPath_append`). One that begins with a suffix follows directly. Then it depends on how the first
text ends: behind a suffix the items follow as before, but a plain name takes the suffix over, so
the two items at the joint become one (`isPath_own`).
-/

namespace PropertyPath.Grammar

section Joins

variable {fits : Int → Prop} {front rest items items' : List Item} {name : List Char}
  {suffix : Suffix}

/-! ## Items that follow -/

theorem row_append (items items' : List Item) : row (items ++ items') = row items ++ row items' :=
  List.flatMap_append

theorem chars_append (ne : items ≠ []) : chars (items ++ items') = chars items ++ row items' := by
  obtain ⟨first, more, rfl⟩ := List.exists_cons_of_ne_nil ne
  rw [List.cons_append, chars, chars, row_append, List.append_assoc]

theorem isPath_append (h : IsPath fits items) (h' : IsPath fits items')
    (joint : ∀ last ∈ items.getLast?, ∀ first ∈ items'.head?, last.MayPrecede first) :
    IsPath fits (items ++ items') where
  written := List.forall_mem_append.mpr ⟨h.written, h'.written⟩
  chain := List.isChain_append.mpr ⟨h.chain, h'.chain, joint⟩
  ne_nil := List.append_ne_nil_of_left_ne_nil h.ne_nil items'

/-! ## A name that takes a suffix over -/

theorem isPath_own (h : IsPath fits (front ++ [.plain name]))
    (h' : IsPath fits (.suffixed none suffix :: rest)) :
    IsPath fits (front ++ .suffixed (some name) suffix :: rest) := by
  obtain ⟨written, last⟩ := List.forall_mem_append.mp h.written
  obtain ⟨-, hsuffix, hrest⟩ := isRow_suffixed_iff.mp h'.toIsRow
  have hname : ∀ own ∈ some name, IsName own := (last _ (List.mem_singleton_self _)).1
  have behind : IsRow fits (.suffixed (some name) suffix :: rest) :=
    isRow_suffixed_iff.mpr ⟨hname, hsuffix, hrest⟩
  refine ⟨⟨List.forall_mem_append.mpr ⟨written, behind.written⟩, ?_⟩, by simp⟩
  refine List.isChain_append.mpr ⟨(List.isChain_append.mp h.chain).1, behind.chain, ?_⟩
  -- an item with a name may follow anything
  intro before _ next hnext bare
  cases hnext
  cases bare

theorem chars_own (front rest : List Item) (name : List Char) (suffix : Suffix) :
    chars (front ++ .suffixed (some name) suffix :: rest)
      = chars (front ++ [.plain name]) ++ chars (.suffixed none suffix :: rest) := by
  cases front with
  | nil => simp [chars]
  | cons first more => simp [chars, row_append]

/-! ## Joints

How the second text begins tells whether a dot is needed: its first item has a name, or is a bare
suffix. -/

theorem row_of_atStart_name (h : IsPath fits items)
    (start : Expecting.atStart (chars items) = .name) : row items = '.' :: chars items := by
  obtain ⟨first, more, rfl⟩ := List.exists_cons_of_ne_nil h.ne_nil
  rcases row_cases h.toIsRow with ⟨dot, -⟩ | ⟨-, start'⟩
  · exact dot
  · cases start.symm.trans start'

theorem exists_name_of_atStart_name (h : IsPath fits items)
    (start : Expecting.atStart (chars items) = .name) :
    ∀ first ∈ items.head?, first.name? ≠ none := by
  obtain ⟨first, more, rfl⟩ := List.exists_cons_of_ne_nil h.ne_nil
  rw [atStart_chars h.toIsRow] at start
  intro head hhead bare
  cases hhead
  rw [bare] at start
  cases start

theorem exists_suffix_of_atStart_segment (h : IsPath fits items)
    (start : Expecting.atStart (chars items) = .segment) :
    ∃ suffix rest, items = .suffixed none suffix :: rest := by
  obtain ⟨first, more, rfl⟩ := List.exists_cons_of_ne_nil h.ne_nil
  rw [atStart_chars h.toIsRow] at start
  rcases first with name | ⟨_ | name, suffix⟩
  · cases start
  · exact ⟨suffix, more, rfl⟩
  · cases start

/-- A text that begins with a name is put behind a dot. -/
theorem isPath_append_of_name (h : IsPath fits items) (h' : IsPath fits items')
    (start : Expecting.atStart (chars items') = .name) :
    IsPath fits (items ++ items') ∧
      chars (items ++ items') = chars items ++ '.' :: chars items' := by
  refine ⟨isPath_append h h' ?_, ?_⟩
  · intro last _ first hfirst bare
    exact absurd bare (exists_name_of_atStart_name h' start first hfirst)
  · rw [chars_append h.ne_nil, row_of_atStart_name h' start]

/-- Behind a suffix, a text that begins with a suffix follows directly. -/
theorem isPath_append_of_suffix (h : IsPath fits items)
    (h' : IsPath fits (.suffixed none suffix :: rest))
    (suffixed : ∀ last ∈ items.getLast?, last.suffix? ≠ none) :
    IsPath fits (items ++ .suffixed none suffix :: rest) ∧
      chars (items ++ .suffixed none suffix :: rest)
        = chars items ++ chars (.suffixed none suffix :: rest) := by
  refine ⟨isPath_append h h' ?_, ?_⟩
  · intro last hlast _ _ _
    exact suffixed last hlast
  · rw [chars_append h.ne_nil]
    rfl

/-- Whatever a text ends with, one that begins with a suffix can follow. -/
theorem exists_isPath_append_suffix (h : IsPath fits items)
    (h' : IsPath fits (.suffixed none suffix :: rest)) :
    ∃ joined, IsPath fits joined ∧
      chars joined = chars items ++ chars (.suffixed none suffix :: rest) := by
  by_cases suffixed : ∀ last ∈ items.getLast?, last.suffix? ≠ none
  · exact ⟨_, isPath_append_of_suffix h h' suffixed⟩
  · -- only a plain name has no suffix
    push Not at suffixed
    obtain ⟨last, hlast, plain⟩ := suffixed
    obtain ⟨front, rfl⟩ := List.getLast?_eq_some_iff.mp hlast
    rcases last with name | ⟨owner, own⟩
    · exact ⟨_, isPath_own h h', chars_own front rest name suffix⟩
    · cases plain

end Joins

end PropertyPath.Grammar
