import PropertyPath.Value.View

/-!
# Probing the capabilities of a value

The views of a value can be asked one question at a time. A cursor goes from value to value: it
moves to each value that a question finds, a nil value included, and stays where it is otherwise.
A question put to a value that has no such view is answered by `noCapability`.
-/

namespace PropertyPath

open Walkable (view)

/-- One question about a value. -/
inductive Probe where
  | lookup (key : String)
  /-- Whether a key is there, be its value nil. -/
  | containsKey (key : String)
  | element (position : UInt64)
  /-- An element by an index that may count back from the end. -/
  | index (index : Int64)
  | isEmpty
  | field (name : String)
  | keyed (accessor key : String)
deriving DecidableEq, Repr

inductive Finding (α : Type) where
  /-- What a lookup led to, if anything. -/
  | value (found : Option α)
  | answer (holds : Bool)
  | noCapability
  | noAccessor

variable {α : Type} [Walkable α]

/-- The answer to a question about a value. -/
def probe (value : α) : Probe → Finding α
  | .lookup key =>
    match (view value).mapping with
    | some lookup => .value (lookup key)
    | none => .noCapability
  | .containsKey key =>
    match (view value).mapping with
    | some lookup => .answer (lookup key).isSome
    | none => .noCapability
  | .element position =>
    match (view value).sequence with
    | some elements => .value (elements.element position)
    | none => .noCapability
  | .index index =>
    match (view value).sequence with
    | some elements => .value (elements.resolve index)
    | none => .noCapability
  | .isEmpty =>
    match (view value).sequence with
    | some elements => .answer (elements.length = 0)
    | none => .noCapability
  | .field name =>
    match (view value).record with
    | some record => .value (record.field name)
    | none => .noCapability
  | .keyed accessor key =>
    match (view value).record with
    | some record =>
      match record.keyed accessor key with
      | some found => .value found
      | none => .noAccessor
    | none => .noCapability

/-- Where a cursor stands after a finding. -/
def Finding.moveFrom {α : Type} (cursor : α) : Finding α → α
  | .value (some found) => found
  | _ => cursor

/-- The answers to a row of questions, each put to the value the cursor has come to. -/
def probeAll (cursor : α) : List Probe → List (Finding α)
  | [] => []
  | question :: rest =>
    let finding := probe cursor question
    finding :: probeAll (finding.moveFrom cursor) rest

end PropertyPath
