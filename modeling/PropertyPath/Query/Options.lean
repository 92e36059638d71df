import PropertyPath.Json.Basic

/-!
# Options

What to do when a segment in the middle of a path leads to nothing. A value missing at the end of
a path is never an error.

Options are stored as a JSON object with one member. Reading is lenient about the object: other
members are ignored and a missing member means the default. A row of at most one policy is
accepted as well, and a policy may be written as a string or as an object that maps its name to
`null`.
-/

namespace PropertyPath

inductive AbsencePolicy where
  /-- Raise a fault that names the segment. -/
  | fail
  /-- Stop walking and return nothing. -/
  | passthrough
deriving DecidableEq, Repr

namespace AbsencePolicy

/-- The name of a policy in stored options. -/
def name : AbsencePolicy → String
  | .fail => "fail"
  | .passthrough => "passthrough"

def ofName? (name : String) : Option AbsencePolicy :=
  if name = "fail" then some .fail else if name = "passthrough" then some .passthrough else none

def ofJson? : Json → Option AbsencePolicy
  | .string name => ofName? name
  | .object [(name, .null)] => ofName? name
  | _ => none

@[simp] theorem ofName?_name (policy : AbsencePolicy) : ofName? policy.name = some policy := by
  cases policy <;> rfl

end AbsencePolicy

structure Options where
  absence : AbsencePolicy := .fail
deriving DecidableEq, Repr

namespace Options

def strict : Options := ⟨.fail⟩

def lenient : Options := ⟨.passthrough⟩

/-- The name of the one member of stored options. -/
def memberName : String := "on_missing_intermediate"

def toJson (options : Options) : Json :=
  .object [(memberName, .string options.absence.name)]

def ofJson? : Json → Option Options
  | .object members =>
    match members.lookup memberName with
    | some policy => (AbsencePolicy.ofJson? policy).map Options.mk
    | none => some {}
  | .array [] => some {}
  | .array [policy] => (AbsencePolicy.ofJson? policy).map Options.mk
  | _ => none

@[simp] theorem ofJson?_toJson (options : Options) : ofJson? options.toJson = some options := by
  simp [toJson, ofJson?, AbsencePolicy.ofJson?]

end Options

end PropertyPath
