/-!
# Capabilities

A value that a path can walk through shows what it can do in a `View`: it may be nil, it may look
up keys (a mapping), it may have elements at positions (a sequence), and it may have named accessors
(a record). Any mix is possible, and a lookup is any function. A path never looks at anything else
of a value, so evaluation is defined for every type with a `Walkable` instance.

The scalar readings play no part in evaluation; they are how a caller reads the value found.
-/

namespace PropertyPath

/-! ## Positions counted from either end

A sequence of `length` elements has the positions `0` to `length - 1`; a negative index counts
back from the end. Both are machine words: an index is a signed word and a length an unsigned one.
The least signed word has no absolute value among the signed words, so as an index it names no
position, whatever the length. -/

/-- How far back a negative index counts, if that is a signed word again. -/
def stepsBack? (index : Int64) : Option UInt64 :=
  if index = Int64.minValue then none else some (-index).toUInt64

/-- The position in a sequence of `length` elements that a possibly negative index names. -/
def positionOf? (index : Int64) (length : UInt64) : Option UInt64 :=
  let position? :=
    if index < 0 then
      (stepsBack? index).bind fun back ↦ if back ≤ length then some (length - back) else none
    else some index.toUInt64
  position?.filter (· < length)

/-! ## Views -/

/-- What a value is when read as a single datum. -/
structure Scalars where
  string : Option String := none
  int : Option Int64 := none
  float : Option Float := none
  bool : Option Bool := none

/-- Elements at positions. There may be gaps below `length`, and a sequence may resolve an index in
a way of its own. -/
structure SequenceView (α : Type) where
  length : UInt64
  element : UInt64 → Option α
  /-- The element of an index that may count back from the end. -/
  resolve : Int64 → Option α := fun index ↦ (positionOf? index length).bind element

/-- Named accessors. A keyed accessor takes a key; `keyed` tells a record that has no accessor of
that name for the key from one whose accessor returns nothing. -/
structure RecordView (α : Type) where
  field : String → Option α
  keyed : String → String → Option (Option α)

/-- Everything a path can see of a value. -/
structure View (α : Type) where
  /-- A short name for the shape of the value, quoted in type faults. -/
  typeName : String
  /-- Whether the value counts as missing. -/
  isNil : Bool := false
  mapping : Option (String → Option α) := none
  sequence : Option (SequenceView α) := none
  record : Option (RecordView α) := none
  scalars : Scalars := {}

variable {α β : Type}

/-- The elements of a list, in order and without gaps. -/
def SequenceView.ofList (items : List α) : SequenceView α where
  length := UInt64.ofNat items.length
  element position := items[position.toNat]?

def SequenceView.map (f : α → β) (elements : SequenceView α) : SequenceView β where
  length := elements.length
  element position := (elements.element position).map f
  resolve index := (elements.resolve index).map f

def RecordView.map (f : α → β) (record : RecordView α) : RecordView β where
  field name := (record.field name).map f
  keyed name key := (record.keyed name key).map fun found ↦ found.map f

/-- The same capabilities with the values they lead to replaced. -/
def View.map (f : α → β) (view : View α) : View β where
  typeName := view.typeName
  isNil := view.isNil
  mapping := view.mapping.map fun lookup key ↦ (lookup key).map f
  sequence := view.sequence.map (.map f)
  record := view.record.map (.map f)
  scalars := view.scalars

theorem SequenceView.map_ofList (f : α → β) (items : List α) :
    (ofList items).map f = ofList (items.map f) := by
  simp [ofList, map, Option.map_bind, Function.comp_def]

/-- Values that paths can walk through. -/
class Walkable (α : Type) where
  view : α → View α

end PropertyPath
