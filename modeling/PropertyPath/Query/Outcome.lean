import PropertyPath.Fault
import PropertyPath.Value.View

/-!
# What one segment leads to

A segment applied to a value finds another value, finds nothing, or meets a value of the wrong
shape. A nil value counts as nothing found.

A name is looked up in the mapping view of a value; only a value without one is asked for its
record view. A segment with a name and a suffix resolves the name first and applies the suffix to
what it finds, with one exception: a record, not also a mapping, that has a keyed accessor of the
name is handed the key directly.
-/

namespace PropertyPath

open Walkable (view)

/-- What a segment leads to. -/
inductive Outcome (α : Type) where
  | found (value : α)
  | absent
  | mismatch (expected : Shape) (actual : String)
deriving DecidableEq, Repr

namespace Outcome

variable {α β : Type}

/-- Goes on from a value found. -/
def bind (outcome : Outcome α) (next : α → Outcome β) : Outcome β :=
  match outcome with
  | .found value => next value
  | .absent => .absent
  | .mismatch expected actual => .mismatch expected actual

theorem bind_eq_found_iff {outcome : Outcome α} {next : α → Outcome β} {found : β} :
    outcome.bind next = .found found
      ↔ ∃ value, outcome = .found value ∧ next value = .found found := by
  cases outcome <;> simp [bind]

def map (f : α → β) (outcome : Outcome α) : Outcome β := outcome.bind fun value ↦ .found (f value)

/-- The outcome of a lookup: a nil value counts as nothing found. -/
def ofLookup [Walkable α] : Option α → Outcome α
  | some value => if (view value).isNil then .absent else .found value
  | none => .absent

theorem isNil_of_ofLookup_eq_found [Walkable α] {lookup : Option α} {value : α}
    (h : ofLookup lookup = .found value) : (view value).isNil = false := by
  cases lookup with
  | none => cases h
  | some found =>
    rw [ofLookup] at h
    split at h
    · cases h
    · next notNil =>
      cases h
      simpa using notNil

end Outcome

section Advance

variable {α : Type} [Walkable α]

/-- The value of a property. -/
def propertyOf (value : α) (name : String) : Outcome α :=
  match (view value).mapping with
  | some lookup => .ofLookup (lookup name)
  | none =>
    match (view value).record with
    | some record => .ofLookup (record.field name)
    | none => .absent

/-- What a suffix applies to: the property in front of it, or the value itself. -/
def suffixTarget (value : α) : Option String → Outcome α
  | some name => propertyOf value name
  | none => .found value

/-- The element of a sequence. -/
def elementOf (index : Int64) (value : α) : Outcome α :=
  match (view value).sequence with
  | some elements => .ofLookup (elements.resolve index)
  | none => .mismatch .arrayLike (view value).typeName

/-- The value of a key. -/
def entryOf (key : String) (value : α) : Outcome α :=
  match (view value).mapping with
  | some lookup => .ofLookup (lookup key)
  | none => .mismatch .mapLike (view value).typeName

/-- The answer of the keyed accessor of a name to a key, if there is one: only a value that is no
mapping is asked. -/
def keyedAnswer? (value : α) (name key : String) : Option (Option α) :=
  match (view value).mapping with
  | some _ => none
  | none => (view value).record.bind fun record ↦ record.keyed name key

/-- What a segment leads to from a value. -/
def advance (value : α) : Segment → Outcome α
  | .property name => propertyOf value name
  | .index name position => (suffixTarget value name).bind (elementOf position)
  | .keyed name key =>
    match name.bind (keyedAnswer? value · key) with
    | some answer => .ofLookup answer
    | none => (suffixTarget value name).bind (entryOf key)

end Advance

end PropertyPath
