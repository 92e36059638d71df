import PropertyPath.Json.Basic
import PropertyPath.Value.Scalar

/-!
# Values of a host program

The values a host program hands over: documents, scalars, the standard sequences and mappings,
optional and indirect values, and values of its own types.

An optional value that is present, and every kind of pointer, is transparent: it shows the view of
the value it holds. A value of one of the program's own types can show anything: any mix of
capabilities and readings, with any functions to look values up. Where a key stands twice in a
table, its first entry counts.
-/

namespace PropertyPath

/-- What can stand between a path and the value it walks through. -/
inductive Wrapper where
  | present
  | owned
  | shared
  | sharedAcrossThreads
deriving DecidableEq, Repr

inductive SequenceType where
  | vector
  | deque
  | array
deriving DecidableEq, Repr

def SequenceType.typeName : SequenceType → String
  | .vector => "Vec"
  | .deque => "VecDeque"
  | .array => "array"

inductive MappingType where
  | sorted
  | hashed
deriving DecidableEq, Repr

def MappingType.typeName : MappingType → String
  | .sorted => "BTreeMap"
  | .hashed => "HashMap"

inductive Host where
  | json (node : Json)
  /-- The members of a JSON object, without the document around them. -/
  | jsonObject (members : List (String × Json))
  | unit
  | absent
  | wrapped (wrapper : Wrapper) (value : Host)
  | scalar (value : Scalar)
  | sequence (type : SequenceType) (items : List Host)
  | mapping (type : MappingType) (entries : List (String × Host))
  /-- A value of one of the program's own types, by what it shows. -/
  | custom (shows : View Host)

namespace Host

/-- The capabilities of a host value. -/
def view : Host → View Host
  | .json node => node.view.map .json
  | .jsonObject members => ((Json.object members).view).map .json
  | .unit | .absent => { typeName := "nil", isNil := true }
  | .wrapped _ value => value.view
  | .scalar value => { typeName := value.typeName, scalars := value.readings }
  | .sequence type items => { typeName := type.typeName, sequence := some (.ofList items) }
  | .mapping type entries =>
    { typeName := type.typeName, mapping := some fun key ↦ entries.lookup key }
  | .custom shows => shows

instance : Walkable Host := ⟨Host.view⟩

/-- A text as a host value. -/
def ofString (value : String) : Host := .scalar (.string value)

/-- A present or absent value. -/
def ofOption : Option Host → Host
  | some value => .wrapped .present value
  | none => .absent

/-- A value that is a record and nothing else, with a table for each keyed accessor. -/
def ofRecord (typeName : String) (fields : List (String × Host))
    (keyed : List (String × List (String × Host))) : Host :=
  .custom
    { typeName := typeName
      record := some
        { field := fun name ↦ fields.lookup name
          keyed := fun name key ↦ (keyed.lookup name).map fun table ↦ table.lookup key } }

@[simp] theorem view_wrapped (wrapper : Wrapper) (value : Host) :
    (wrapped wrapper value).view = value.view := rfl

end Host

end PropertyPath
