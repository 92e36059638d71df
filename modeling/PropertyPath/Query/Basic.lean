import PropertyPath.Path.Parse
import PropertyPath.Query.Log

/-!
# Queries

A query is a path bound to options, ready to be evaluated against any number of values. It also
keeps the text by which a missing property is reported: the text the query was built from, without
the white space around it, or the canonical text of a path that was built otherwise.

An evaluation is a `Run`: its result together with what it logs. Segments are followed one after
the other. A value of the wrong shape ends the run with a fault. A missing value ends it with
nothing if no segment is left to follow; before that, the policy decides between nothing and a
fault. The value that the run starts from must not be nil, and neither is any value it goes on
from, since a nil value counts as missing.
-/

namespace PropertyPath

open Walkable (view)

/-! ## Runs -/

/-- The result of an evaluation, and what it logged. -/
structure Run (α : Type) where
  result : Except Fault (Option α)
  log : List LogRecord

namespace Run

variable {α : Type}

/-- A run that ends without logging anything. -/
def ended (result : Except Fault (Option α)) : Run α := ⟨result, []⟩

/-- The same run behind earlier records. -/
def after (records : List LogRecord) (run : Run α) : Run α :=
  { run with log := records ++ run.log }

@[simp] theorem result_ended (result : Except Fault (Option α)) : (ended result).result = result :=
  rfl

@[simp] theorem log_ended (result : Except Fault (Option α)) : (ended result).log = [] := rfl

@[simp] theorem result_after (records : List LogRecord) (run : Run α) :
    (run.after records).result = run.result := rfl

@[simp] theorem log_after (records : List LogRecord) (run : Run α) :
    (run.after records).log = records ++ run.log := rfl

end Run

section Follow

variable {α : Type} [Walkable α]

/-- What a segment led to, as it is logged. -/
def stepRecord (segment : Segment) (outcome : Outcome α) : LogRecord :=
  .step segment (outcome.map fun value ↦ (view value).typeName)

/-- How a run ends at a segment that leads to nothing, with `rest` still to follow. -/
def missing (policy : AbsencePolicy) (source : String) (segment : Segment)
    (rest : List Segment) : Run α :=
  if rest = [] then .ended (.ok none)
  else match policy with
    | .fail => .ended (.error (.noSuchProperty segment.text source))
    | .passthrough => (Run.ended (.ok none)).after [.passedOver segment source]

/-- Follows segments from a value. -/
def follow (policy : AbsencePolicy) (source : String) : List Segment → α → Run α
  | [], value => .ended (.ok (some value))
  | segment :: rest, value =>
    let outcome := advance value segment
    Run.after [stepRecord segment outcome] <|
      match outcome with
      | .found next => follow policy source rest next
      | .absent => missing policy source segment rest
      | .mismatch expected actual =>
        .ended (.error (.type (.mismatch segment.name? expected actual)))

/-- Follows segments from a value that must not be nil. -/
def evaluate (policy : AbsencePolicy) (source : String) (segments : List Segment)
    (root : α) : Run α :=
  if (view root).isNil then .ended (.error (.argument .objectRequired))
  else follow policy source segments root

end Follow

/-! ## Queries -/

/-- A path bound to options, and the text to report it by. -/
structure Query where
  path : Path
  source : String
  options : Options
deriving DecidableEq, Repr

namespace Query

/-- The text by which a query built from `text` is reported. -/
def sourceOf (text : String) : String := String.ofList (Text.trim text.toList)

/-- The query for the path written in a text. -/
def ofText (text : String) (options : Options) : Except Fault Query :=
  (Path.parse text).map fun path ↦ ⟨path, sourceOf text, options⟩

/-- The query for a path. -/
def ofPath (path : Path) (options : Options) : Query := ⟨path, path.text, options⟩

/-- What building the query from `text` logs. -/
def buildLog (query : Query) (text : String) : List LogRecord :=
  [.parsed (sourceOf text) query.path.size, .built (sourceOf text) query.options]

variable {α : Type} [Walkable α]

/-- Evaluates the path against a value. -/
def run (query : Query) (root : α) : Run α :=
  evaluate query.options.absence query.source query.path.segments root

/-- The value that the path leads to, if there is one. -/
def eval (query : Query) (root : α) : Except Fault (Option α) := (query.run root).result

end Query

section OneShot

variable {α : Type} [Walkable α]

/-- Builds a query from a text and evaluates it once, logging both. Nothing is logged of a text
that is no path. -/
def runText (root : α) (text : String) (options : Options) : Run α :=
  match Query.ofText text options with
  | .error fault => .ended (.error fault)
  | .ok query => (query.run root).after (query.buildLog text)

/-- The value that the path written in a text leads to, if there is one. -/
def evalText (root : α) (text : String) (options : Options) : Except Fault (Option α) :=
  (runText root text options).result

end OneShot

end PropertyPath
