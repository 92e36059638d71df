import PropertyPath.Text.Integer
import PropertyPath.Value.View

/-!
# Scalars of a host program

Values without capabilities: strings (which are not sequences), truth values, characters, machine
integers and floating point numbers. Each shows the name of its type and what it reads as. Every
integer reads as the nearest double, and as a signed word if it fits; a single is widened.
-/

namespace PropertyPath

inductive Width where
  | bits8
  | bits16
  | bits32
  | bits64
  /-- The width of an address, which is 64 bits. -/
  | address
deriving DecidableEq, Repr

def Width.bits : Width → Nat
  | .bits8 => 8
  | .bits16 => 16
  | .bits32 => 32
  | .bits64 | .address => 64

/-- How many integers there are of a width. -/
def Width.size (width : Width) : Nat := Nat.pow 2 width.bits

structure IntegerType where
  signed : Bool
  width : Width
deriving DecidableEq, Repr

namespace IntegerType

def typeName (type : IntegerType) : String :=
  (if type.signed then "i" else "u") ++
    match type.width with
    | .address => "size"
    | width => toString width.bits

/-- The least integer of the type. -/
def min (type : IntegerType) : Int := if type.signed then -↑(type.width.size / 2) else 0

/-- The greatest integer of the type. -/
def max (type : IntegerType) : Int :=
  if type.signed then ↑(type.width.size / 2) - 1 else ↑type.width.size - 1

end IntegerType

/-- An integer of a machine type. -/
structure MachineInteger where
  type : IntegerType
  value : Int
  inRange : type.min ≤ value ∧ value ≤ type.max

inductive Scalar where
  | string (value : String)
  | stringSlice (value : String)
  | bool (value : Bool)
  | char (value : Char)
  | integer (value : MachineInteger)
  | double (value : Float)
  | single (value : Float32)

namespace Scalar

def typeName : Scalar → String
  | .string _ => "String"
  | .stringSlice _ => "str"
  | .bool _ => "bool"
  | .char _ => "char"
  | .integer value => value.type.typeName
  | .double _ => "f64"
  | .single _ => "f32"

/-- What a scalar reads as. A character has no reading. -/
def readings : Scalar → Scalars
  | .string value | .stringSlice value => { string := some value }
  | .bool value => { bool := some value }
  | .char _ => {}
  | .integer value => { int := int64? value.value, float := some (Float.ofInt value.value) }
  | .double value => { float := some value }
  | .single value => { float := some value.toFloat }

end Scalar

end PropertyPath
