import PropertyPath.Proofs.Grammar.Join
import PropertyPath.Proofs.Path.WellFormed

/-!
# Texts of paths behind one another

Two texts of paths make the text of a path, and its segments are those of the one followed by those
of the other. Only at the joint there is something to say. A name needs a dot in front; a suffix
follows directly, and behind a plain property it is owned by it, so the two segments at the joint
become one.

The texts stand for their derivations, which are put behind one another item by item. Nothing has to
be read again: the text of a derivation reads as its segments.
-/

namespace PropertyPath

open Grammar

/-- The segment that a name makes of a suffix without an owner. -/
def Segment.ownedBy (name : String) : Segment → Segment
  | .property own => .property own
  | .index _ position => .index (some name) position
  | .keyed _ key => .keyed (some name) key

section Append

variable {first second : String} {path path' : Path} {items items' : List Item}

/-! ## Segments at the joint -/

theorem segment_owned (name : List Char) (suffix : Suffix) :
    (Item.suffixed (some name) suffix).segment
      = (Item.suffixed none suffix).segment.ownedBy (String.ofList name) := by
  cases suffix <;> rfl

theorem isProperty_segment (item : Item) :
    item.segment.isProperty = true ↔ item.suffix? = none := by
  rw [isProperty_iff, suffix?_segment_eq_none_iff]

theorem eq_plain_of_segment_eq {item : Item} {name : String} (h : item.segment = .property name) :
    item = .plain name.toList := by
  rcases item with own | ⟨owner, literal | key⟩
  · rw [← Segment.property.inj h, String.toList_ofList]
  · cases h
  · cases h

theorem exists_eq_concat_plain {segments : List Segment} {name : String}
    (h : items.map Item.segment = segments ++ [.property name]) :
    ∃ front, items = front ++ [.plain name.toList] ∧ front.map Item.segment = segments := by
  obtain ⟨front, last, rfl, hfront, hlast⟩ := List.map_eq_append_iff.mp h
  obtain ⟨item, rfl, hitem⟩ := List.map_eq_singleton_iff.mp hlast
  exact ⟨front, by rw [eq_plain_of_segment_eq hitem], hfront⟩

/-! ## The three joints -/

section Joints

variable (h : IsPath IsInt64 items) (text : chars items = first.toList) (h' : IsPath IsInt64 items')
  (text' : chars items' = second.toList)
include h text h' text'

theorem parse_append_of_name (start : Expecting.atStart second.toList = .name) :
    Path.parse (first ++ "." ++ second)
      = .ok ⟨items.map Item.segment ++ items'.map Item.segment⟩ := by
  rw [← text'] at start
  obtain ⟨joined, eq⟩ := isPath_append_of_name h h' start
  rw [← List.map_append]
  exact parse_of_chars_eq joined (by simp [eq, text, text'])

theorem parse_append_of_suffix (start : Expecting.atStart second.toList = .segment)
    (suffixed : ∀ last ∈ items.getLast?, last.suffix? ≠ none) :
    Path.parse (first ++ second) = .ok ⟨items.map Item.segment ++ items'.map Item.segment⟩ := by
  rw [← text'] at start
  obtain ⟨suffix, behind, rfl⟩ := exists_suffix_of_atStart_segment h' start
  obtain ⟨joined, eq⟩ := isPath_append_of_suffix h h' suffixed
  rw [← List.map_append]
  exact parse_of_chars_eq joined (by simp [eq, text, text'])

/-- The segment of a bare suffix is joined with the plain property in front of it. -/
theorem parse_append_of_plain (start : Expecting.atStart second.toList = .segment)
    {front : List Item} {name : List Char} (plain : items = front ++ [.plain name]) :
    ∃ suffix behind, items'.map Item.segment = suffix :: behind ∧ suffix.name? = none ∧
      Path.parse (first ++ second)
        = .ok ⟨front.map Item.segment ++ suffix.ownedBy (String.ofList name) :: behind⟩ := by
  subst plain
  rw [← text'] at start
  obtain ⟨suffix, behind, rfl⟩ := exists_suffix_of_atStart_segment h' start
  have eq := chars_own front behind name suffix
  refine ⟨_, _, rfl, name?_segment _, ?_⟩
  rw [parse_of_chars_eq (isPath_own h h') (by rw [eq, text, text', String.toList_append]),
    List.map_append, List.map_cons, segment_owned]

end Joints

/-! ## The main result -/

theorem atStart_of_isLetter {c : Char} (rest : List Char) (h : IsLetter c) :
    Expecting.atStart (c :: rest) = .name := by
  have name : IsName [c] := ⟨h, by simp⟩
  exact atStart_name name rest

/-- **Reading is compositional.** Let two texts without white space around them read as paths. If
the second begins with a letter, the two with a dot in between read as the segments of both. If it
begins with a bracket and the first does not end with a plain property, so do the two without a dot.
And if the first does end with a plain property, its name owns the first suffix of the second. -/
theorem parse_append (h : Path.parse first = .ok path) (h' : Path.parse second = .ok path')
    (trimmed : Text.IsTrimmed first.toList) (trimmed' : Text.IsTrimmed second.toList) :
    (∀ c rest, second.toList = c :: rest → IsLetter c →
      Path.parse (first ++ "." ++ second) = .ok ⟨path.segments ++ path'.segments⟩) ∧
    (∀ c rest, second.toList = c :: rest → c = '[' ∨ c = '(' →
      ((∀ last ∈ path.segments.getLast?, last.isProperty = false) →
        Path.parse (first ++ second) = .ok ⟨path.segments ++ path'.segments⟩) ∧
      ∀ front name, path.segments = front ++ [.property name] →
        ∃ suffix behind, path'.segments = suffix :: behind ∧ suffix.name? = none ∧
          Path.parse (first ++ second) = .ok ⟨front ++ suffix.ownedBy name :: behind⟩) := by
  obtain ⟨items, ⟨hitems, text⟩, segments⟩ := exists_derives_of_parse h
  obtain ⟨items', ⟨hitems', text'⟩, segments'⟩ := exists_derives_of_parse h'
  rw [Text.trim_of_isTrimmed trimmed] at text
  rw [Text.trim_of_isTrimmed trimmed'] at text'
  rw [segments, segments']
  refine ⟨?_, ?_⟩
  · intro c rest begins letter
    apply parse_append_of_name hitems text hitems' text'
    rw [begins]
    exact atStart_of_isLetter rest letter
  · intro c rest begins opens
    have start : Expecting.atStart second.toList = .segment := by
      rw [begins]
      exact if_pos opens
    refine ⟨?_, ?_⟩
    · intro suffixed
      apply parse_append_of_suffix hitems text hitems' text' start
      intro last hlast plain
      have noProperty : last.segment.isProperty = false := by
        apply suffixed
        rw [List.getLast?_map, hlast]
        rfl
      rw [(isProperty_segment last).mpr plain] at noProperty
      cases noProperty
    · intro front name ends
      obtain ⟨front, plain, rfl⟩ := exists_eq_concat_plain ends
      have joined := parse_append_of_plain hitems text hitems' text' start plain
      rwa [String.ofList_toList] at joined

/-- The bracket belongs to the name in front of it, and the dot in the key is no joint. -/
theorem parse_joint_owned :
    Path.parse "(.).x[-1](k)"
      = .ok ⟨[.keyed none ".", .index (some "x") (-1), .keyed none "k"]⟩ := by
  have first : Path.parse "(.).x" = .ok ⟨[.keyed none ".", .property "x"]⟩ := by decide +kernel
  have second : Path.parse "[-1](k)" = .ok ⟨[.index none (-1), .keyed none "k"]⟩ := by
    decide +kernel
  obtain ⟨-, brackets⟩ := parse_append first second (by decide) (by decide)
  obtain ⟨suffix, behind, segments, -, parsed⟩ :=
    (brackets '[' _ rfl (.inl rfl)).2 [.keyed none "."] "x" rfl
  obtain ⟨rfl, rfl⟩ := List.cons.inj segments
  exact parsed

end Append

end PropertyPath
