import PropertyPath.Proofs.Path.WellFormed

/-!
# Printing and reading back

The canonical text of a row of segments is the text of one item for each segment. If the row is
well-formed these items are a derivation, so the text reads back as the row it was printed from; if
it is not, the text may still be a path, but never this one, because what is read is well-formed.
-/

namespace PropertyPath

/-! ## Segments as items -/

namespace Grammar

open Text (IntegerLiteral)

/-- The item that the canonical text writes for a segment. -/
def Item.ofSegment : Segment → Item
  | .property name => plain name.toList
  | .index owner position =>
    suffixed (owner.map String.toList) (.index (IntegerLiteral.ofInt position.toInt))
  | .keyed owner key => suffixed (owner.map String.toList) (.key key.toList)

section OfSegment

variable {segments : List Segment} {segment next : Segment}

@[simp] theorem segment_ofSegment (segment : Segment) :
    (Item.ofSegment segment).segment = segment := by
  rcases segment with name | ⟨_ | owner, position⟩ | ⟨_ | owner, key⟩ <;>
    simp [Item.ofSegment, Item.segment, Suffix.segment, IntegerLiteral.value_ofInt]

theorem name?_ofSegment (segment : Segment) :
    (Item.ofSegment segment).name? = segment.name?.map String.toList := by
  cases segment <;> rfl

theorem suffix?_ofSegment (segment : Segment) :
    ((Item.ofSegment segment).suffix?.map Suffix.chars).getD []
      = ((segment.suffix?.map Component.text).getD "").toList := by
  cases segment with
  | property name => rfl
  | index owner position =>
    simp only [Item.ofSegment, Item.suffix?, Segment.suffix?, Option.map_some, Option.getD_some,
      Suffix.chars, Component.text, IntegerLiteral.chars_ofInt, String.toList_append]
    rfl
  | keyed owner key =>
    simp only [Item.ofSegment, Item.suffix?, Segment.suffix?, Option.map_some, Option.getD_some,
      Suffix.chars, Component.text, String.toList_append]
    rfl

theorem chars_ofSegment (segment : Segment) :
    (Item.ofSegment segment).chars = segment.text.toList := by
  rw [Item.chars, suffix?_ofSegment, name?_ofSegment, Segment.text, String.toList_append]
  cases segment.name? <;> rfl

theorem followingChars_ofSegment (segment : Segment) :
    (Item.ofSegment segment).followingChars = (Path.followingText segment).toList := by
  rw [Item.followingChars, Path.followingText, chars_ofSegment, name?_ofSegment,
    Option.isSome_map, String.toList_append]
  split <;> rfl

theorem chars_map_ofSegment (segments : List Segment) :
    chars (segments.map Item.ofSegment) = (Path.textOf segments).toList := by
  cases segments with
  | nil => rfl
  | cons first rest =>
    rw [Path.textOf, String.toList_append, String.toList_join, List.flatMap_map, List.map_cons,
      chars, row, List.flatMap_map, chars_ofSegment]
    simp only [followingChars_ofSegment]

/-! ## Well-formed rows of items -/

theorem isInt64_toInt (word : Int64) : IsInt64 word.toInt :=
  ⟨word.le_toInt, Int.le_sub_one_of_lt word.toInt_lt⟩

theorem isWritten_ofSegment (h : segment.IsWritable) :
    (Item.ofSegment segment).IsWritten IsInt64 := by
  refine ⟨fun name hname ↦ ?_, fun suffix hsuffix ↦ ?_⟩
  · rw [name?_ofSegment, Option.mem_def, Option.map_eq_some_iff] at hname
    obtain ⟨text, htext, rfl⟩ := hname
    exact h.name text htext
  · cases segment with
    | property name => cases hsuffix
    | index owner position =>
      cases hsuffix
      -- the literal is the one of a word, so it is in range
      refine ⟨Text.isMagnitude_toDigits _, ?_⟩
      rw [IntegerLiteral.value_ofInt]
      exact isInt64_toInt position
    | keyed owner key =>
      cases hsuffix
      exact h.key owner key rfl

/-- The items of a well-formed row of segments are a derivation. -/
theorem isPath_map_ofSegment (h : WellFormed segments) :
    IsPath IsInt64 (segments.map Item.ofSegment) where
  written := by
    rw [List.forall_mem_map]
    exact fun segment hmem ↦ isWritten_ofSegment (isWritable_of_mem h hmem)
  chain := by
    rw [List.isChain_map]
    refine h.chain.imp fun segment next place ↦ ?_
    rwa [← mayPrecede_segment_iff, segment_ofSegment, segment_ofSegment]
  ne_nil := by
    rw [ne_eq, List.map_eq_nil_iff]
    exact h.ne_nil

end OfSegment

end Grammar

/-! ## Reading the canonical text -/

section Printing

open Grammar

variable {segments : List Segment}

theorem derives_textOf (h : WellFormed segments) :
    Derives (Path.textOf segments) (segments.map Item.ofSegment) :=
  derives_of_chars_eq (isPath_map_ofSegment h) (chars_map_ofSegment segments)

theorem parse_textOf (h : WellFormed segments) :
    Path.parse (Path.textOf segments) = .ok ⟨segments⟩ := by
  rw [parse_of_derives (derives_textOf h), List.map_map]
  simp only [Function.comp_def, segment_ofSegment, List.map_id']

end Printing

/-- **The checks are exact with respect to the syntax.** Segments pass them exactly if their
canonical text reads back as these very segments. In particular every path that was checked reads
back as itself. -/
theorem ofSegments_isOk_iff_parse_textOf (segments : List Segment) :
    ((∃ path, Path.ofSegments segments = .ok path)
      ↔ ∃ path, Path.parse (Path.textOf segments) = .ok path ∧ path.segments = segments) ∧
    ∀ path, Path.ofSegments segments = .ok path → Path.parse path.text = .ok path := by
  refine ⟨⟨?_, ?_⟩, ?_⟩
  · rintro ⟨path, hpath⟩
    obtain ⟨wellFormed, -⟩ := ofSegments_eq_ok_iff.mp hpath
    exact ⟨⟨segments⟩, parse_textOf wellFormed, rfl⟩
  · rintro ⟨path, hparse, rfl⟩
    have wellFormed := wellFormed_of_isMade (.ofText hparse)
    exact ⟨path, ofSegments_eq_ok_iff.mpr ⟨wellFormed, rfl⟩⟩
  · intro path hpath
    obtain ⟨wellFormed, rfl⟩ := ofSegments_eq_ok_iff.mp hpath
    exact parse_textOf wellFormed

/-- The smallest word reads back although its magnitude is no word, and so does white space in a
key. -/
theorem parse_textOf_minValue :
    Path.parse (Path.textOf [.index none Int64.minValue, .keyed none ". "])
      = .ok ⟨[.index none Int64.minValue, .keyed none ". "]⟩ :=
  (ofSegments_isOk_iff_parse_textOf [.index none Int64.minValue, .keyed none ". "]).2 ⟨_⟩ rfl

end PropertyPath
