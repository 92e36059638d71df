import PropertyPath.Json.Number
import PropertyPath.Value.View

/-!
# Documents

A JSON document as a tree. An object is the list of its members; the member of a key is the first
one in the list. To a path objects are mappings, arrays are sequences, and `null` is nil.
-/

namespace PropertyPath

inductive Json where
  | null
  | bool (value : Bool)
  | number (value : JsonNumber)
  | string (value : String)
  | array (items : List Json)
  | object (members : List (String × Json))

namespace Json

/-- The name of the kind of a document, as type faults quote it. -/
def typeName : Json → String
  | .null => "null"
  | .bool _ => "boolean"
  | .number _ => "number"
  | .string _ => "string"
  | .array _ => "array"
  | .object _ => "object"

end Json

/-- The capabilities of a document. -/
def Json.view (node : Json) : View Json :=
  let plain : View Json := { typeName := node.typeName }
  match node with
  | .null => { plain with isNil := true }
  | .bool value => { plain with scalars := { bool := some value } }
  | .number value => { plain with scalars := { int := value.int64?, float := some value.toFloat } }
  | .string value => { plain with scalars := { string := some value } }
  | .array items => { plain with sequence := some (.ofList items) }
  | .object members => { plain with mapping := some fun key ↦ members.lookup key }

instance : Walkable Json := ⟨Json.view⟩

end PropertyPath
