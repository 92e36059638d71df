import PropertyPath.Listing
import PropertyPath.Query.Options
import PropertyPath.Query.Outcome

/-!
# The log of an evaluation

What an evaluation reports while it runs: that a text was parsed, that a query was built, what
each segment led to, and that a missing value was passed over. A step is reported by the name of
the type it found, not by the value.
-/

namespace PropertyPath

inductive LogRecord where
  | parsed (text : String) (segmentCount : Nat)
  | built (text : String) (options : Options)
  | step (segment : Segment) (outcome : Outcome String)
  /-- A value in the middle of the path is missing, and the policy says to return nothing. -/
  | passedOver (segment : Segment) (source : String)
deriving DecidableEq, Repr

namespace LogRecord

/-- The severity under which a record is logged. -/
def level : LogRecord → String
  | .step _ _ => "TRACE"
  | _ => "DEBUG"

/-- How the outcome of a step is logged. -/
def outcomeText : Outcome String → String
  | .found typeName => "Found(" ++ typeName ++ ")"
  | .absent => "Absent"
  | .mismatch expected actual => "Mismatch(" ++ expected.phrase ++ ", " ++ actual ++ ")"

/-- How a policy is logged. -/
def policyText : AbsencePolicy → String
  | .fail => "Fail"
  | .passthrough => "Passthrough"

/-- How options are logged. -/
def optionsListing (options : Options) : Listing :=
  .fields "Options"
    [("on_missing_intermediate", .word (policyText options.absence))]

def message : LogRecord → String
  | .parsed text segmentCount =>
    "parsed `" ++ text ++ "` into " ++ toString segmentCount ++ " segment(s)"
  | .built text options =>
    "built accessor for `" ++ text ++ "` with " ++ (optionsListing options).oneLine
  | .step segment outcome => "`" ++ segment.text ++ "` -> " ++ outcomeText outcome
  | .passedOver segment source =>
    "`" ++ segment.text ++ "` is missing in `" ++ source ++ "`, returning nothing"

/-- The line of a record: its level and its message. -/
def line (record : LogRecord) : String := record.level ++ " " ++ record.message

end LogRecord

end PropertyPath
