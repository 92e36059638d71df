import PropertyPath.Fault
import PropertyPath.Path.Basic

/-!
# Paths of segments made by hand

Segments made by hand are checked one after the other, and the first fault in the list is the
answer. For one segment the name is looked at first, then its place behind the previous segment,
then its key. The checked ways of making a single segment apply the same rules to its name and its
key.
-/

namespace PropertyPath

/-- What keeps a text from being used as a property name. -/
def nameFault? (name : String) : Option ArgumentFault :=
  if isName name then none else some (.invalidName name)

/-- What keeps a text from being used as a key: a key ends at the first closing parenthesis. -/
def keyFault? (key : String) : Option ArgumentFault :=
  if key.toList.contains ')' then some (.keyHasParen key) else none

namespace Segment

/-- What keeps the key of a segment from being written, if it has a key. -/
def ownKeyFault? : Segment → Option ArgumentFault
  | .keyed _ key => keyFault? key
  | _ => none

/-- What keeps a segment from standing behind `previous`, or at the front of a path. -/
def fault? (previous : Option Segment) (segment : Segment) : Option ArgumentFault :=
  let nameFault := match segment.name? with
    | some name => nameFault? name
    | none => if previous.any isProperty then some (.nameNeeded segment) else none
  nameFault <|> segment.ownKeyFault?

/-- The first fault of a row of segments behind `previous`. -/
def firstFault? (previous : Option Segment) : List Segment → Option ArgumentFault
  | [] => none
  | segment :: rest => segment.fault? previous <|> firstFault? (some segment) rest

/-- The segment, if it is free of faults of its own. -/
def checked (segment : Segment) : Except Fault Segment :=
  match segment.fault? none with
  | some fault => .error (.argument fault)
  | none => .ok segment

end Segment

/-- The path of a row of segments, if they are the segments of a path. -/
def Path.ofSegments (segments : List Segment) : Except Fault Path :=
  if segments = [] then .error (.argument .noSegments)
  else match Segment.firstFault? none segments with
    | some fault => .error (.argument fault)
    | none => .ok ⟨segments⟩

end PropertyPath
