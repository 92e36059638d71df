/-!
# Paths

A segment is one step of a path as it is written: a plain property, or an index or a key with an
optional name in front. A segment without a name applies its suffix to the current value itself,
as in `[0]`, `(key)` or the second suffix of `pow[0][1]`.

A component is one step of the flat view, in which a name that carries a suffix is a step of its
own. `Segment.components` splits a segment into its one or two components, and the text of a
segment is the text of its components in a row: see `Segment.text_eq_join`.

A path is the list of its segments. Its canonical text puts a dot in front of every segment that
starts with a name, except at the very front; a suffix without a name follows directly. Its flat
view is the list of the components of its segments.

The type holds any list of segments, so that the two ways of building a path, reading a text and
checking segments made by hand, can be compared with each other. What both promise of their
results is that there is a first segment, that names and keys can be written, and that no suffix
without a name stands behind a plain property, which would own it.
-/

namespace PropertyPath

/-! ## Names

A property name is an ASCII letter followed by ASCII letters, digits, `?`, `!` and `_`. The two
character classes are used twice: by the validator of hand-built segments, which looks at a whole
name, and by the scanner, which takes the longest name at the front of a text. -/

/-- The characters a name may begin with: the ASCII letters. -/
def isNameStart (c : Char) : Bool := c.isAlpha

/-- The characters a name may go on with. -/
def isNameChar (c : Char) : Bool := c.isAlphanum || c = '?' || c = '!' || c = '_'

/-- Whether the whole text can be used as a property name. -/
def isName (name : String) : Bool :=
  match name.toList with
  | [] => false
  | c :: rest => isNameStart c && rest.all isNameChar

theorem isNameChar_of_isNameStart {c : Char} (h : isNameStart c = true) : isNameChar c = true := by
  rw [isNameStart] at h
  simp [isNameChar, Char.isAlphanum, h]

/-! ## Segments and components -/

/-- One step of a path as it is written. -/
inductive Segment where
  | property (name : String)
  | index (name : Option String) (position : Int64)
  | keyed (name : Option String) (key : String)
deriving DecidableEq, Repr

/-- One step of the flat view of a path. -/
inductive Component where
  | property (name : String)
  | index (position : Int64)
  | key (text : String)
deriving DecidableEq, Repr

/-- The canonical text of a component. -/
def Component.text : Component → String
  | .property name => name
  | .index position => "[" ++ toString position ++ "]"
  | .key text => "(" ++ text ++ ")"

namespace Segment

/-- The name a segment starts with, if it has one. -/
def name? : Segment → Option String
  | .property name => some name
  | .index name _ | .keyed name _ => name

/-- The index or key a segment ends with, if it has one. -/
def suffix? : Segment → Option Component
  | .property _ => none
  | .index _ position => some (.index position)
  | .keyed _ key => some (.key key)

/-- Whether the segment is a plain property, to which a suffix behind it would belong. -/
def isProperty : Segment → Bool
  | .property _ => true
  | _ => false

/-- The segment as flat steps: its name, then its suffix. -/
def components (segment : Segment) : List Component :=
  (segment.name?.map Component.property).toList ++ segment.suffix?.toList

/-- The canonical text of a segment: its name with the suffix directly behind. -/
def text (segment : Segment) : String :=
  segment.name?.getD "" ++ (segment.suffix?.map Component.text).getD ""

theorem components_ne_nil (segment : Segment) : segment.components ≠ [] := by
  cases segment <;> simp [components, name?, suffix?]

theorem text_eq_join (segment : Segment) :
    segment.text = String.join (segment.components.map Component.text) := by
  rcases segment with name | ⟨_ | name, position⟩ | ⟨_ | name, key⟩ <;>
    simp [text, components, name?, suffix?, Component.text, String.join]

end Segment

/-! ## Rows of segments -/

/-- A property path, as the list of its segments. -/
structure Path where
  segments : List Segment
deriving DecidableEq, Repr

namespace Path

/-- The number of segments. -/
def size (path : Path) : Nat := path.segments.length

/-- The flat view: every name and every suffix as a step of its own. -/
def components (path : Path) : List Component := path.segments.flatMap Segment.components

/-- The text of a segment that is not the first one. -/
def followingText (segment : Segment) : String :=
  (if segment.name?.isSome then "." else "") ++ segment.text

/-- The canonical text of a list of segments. -/
def textOf : List Segment → String
  | [] => ""
  | first :: rest => first.text ++ String.join (rest.map followingText)

/-- The canonical text of the path. -/
def text (path : Path) : String := textOf path.segments

end Path

end PropertyPath
