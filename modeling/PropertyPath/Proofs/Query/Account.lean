import PropertyPath.Proofs.Path.WellFormed
import PropertyPath.Proofs.Query.Policy
import PropertyPath.Proofs.Query.Wording

/-!
# The log accounts for the run

Whoever has the log of an evaluation knows how it went. The trail has one record for each segment
that was followed, in the order of the path. All of them found a value, apart from the last one,
and the last one tells the result, with the policy to say what becomes of a missing value. Only the
value found is not in the log: the record has the name of its type.

A walk and its trail end at the same segment (`exists_trail_eq`), which is shown by one induction
along the path. What the last record tells is then a matter of where the walk stops.
-/

namespace PropertyPath

open Walkable (view)

/-- The record of a segment that found a value, by the name of the type of the value. -/
def foundRecord (step : Segment × String) : LogRecord := .step step.1 (.found step.2)

/-- What the record of the last step tells: the step of `segment`, with `rest` still to follow, had
this outcome, and the evaluation has this result. -/
structure TellsResult {α : Type} [Walkable α] (policy : AbsencePolicy) (source : String)
    (segment : Segment) (rest : List Segment) (outcome : Outcome String)
    (result : Except Fault (Option α)) : Prop where
  /-- Only the last segment of a path leads to the value that is found. -/
  found : ∀ typeName, outcome = .found typeName
    ↔ rest = [] ∧ ∃ value, result = .ok (some value) ∧ (view value).typeName = typeName
  absent : outcome = .absent → result
    = if rest ≠ [] ∧ policy = .fail then .error (.noSuchProperty segment.text source) else .ok none
  mismatch : ∀ expected actual, outcome = .mismatch expected actual →
    result = .error (.type (.mismatch segment.name? expected actual))

section Account

variable {α : Type} [Walkable α] {policy : AbsencePolicy} {source : String}

namespace Stop

variable {segment : Segment} {rest : List Segment} {stop : Stop α}

/-- The outcome of the last step, as it is logged. -/
def lastOutcome : Stop α → Outcome String
  | reached value => .found (view value).typeName
  | absent _ _ => .absent
  | mismatch _ expected actual => .mismatch expected actual

/-- Whether the last step of a walk that stops here is the one of `segment`, with `rest` still to
follow. -/
def IsAt (segment : Segment) (rest : List Segment) : Stop α → Prop
  | reached _ => rest = []
  | absent last left => last = segment ∧ left = rest
  | mismatch last _ _ => last = segment

theorem remarks_eq (h : stop.IsAt segment rest) :
    stop.remarks policy source
      = if stop.lastOutcome = .absent ∧ rest ≠ [] ∧ policy = .passthrough
        then [.passedOver segment source] else [] := by
  cases stop with
  | reached value => rfl
  | mismatch last expected actual => rfl
  | absent last left =>
    obtain ⟨rfl, rfl⟩ := h
    rw [remarks, missing.eq_def, lastOutcome]
    by_cases hleft : left = []
    · rw [if_pos hleft, if_neg (by simp [hleft])]
      rfl
    · rw [if_neg hleft]
      cases policy with
      | fail =>
        rw [if_neg (by simp)]
        rfl
      | passthrough =>
        rw [if_pos ⟨rfl, hleft, rfl⟩]
        rfl

theorem tellsResult (h : stop.IsAt segment rest) :
    TellsResult policy source segment rest stop.lastOutcome (stop.result policy source) := by
  constructor
  · intro typeName
    constructor
    · intro name
      cases stop with
      | reached value =>
        obtain rfl : rest = [] := h
        exact ⟨rfl, value, rfl, Outcome.found.inj name⟩
      | absent last left => cases name
      | mismatch last expected actual => cases name
    · rintro ⟨-, value, found, rfl⟩
      rw [eq_reached_of_result_eq found]
      rfl
  · intro absent
    cases stop with
    | reached value => cases absent
    | mismatch last expected actual => cases absent
    | absent last left =>
      obtain ⟨rfl, rfl⟩ := h
      by_cases hleft : left = []
      · rw [hleft, result_absent_nil, if_neg (by simp)]
      · rw [result_absent_of_ne_nil hleft]
        cases policy with
        | fail => rw [if_pos ⟨hleft, rfl⟩]
        | passthrough => rw [if_neg (by simp)]
  · intro expected actual mismatch
    cases stop with
    | reached value => cases mismatch
    | absent last left => cases mismatch
    | mismatch last expected' actual' =>
      obtain rfl : last = segment := h
      cases mismatch
      rfl

end Stop

/-! ## The trail of a walk -/

/-- A trail has one record for each segment up to the one at which the walk stops. -/
theorem exists_trail_eq {segments : List Segment} (ne : segments ≠ []) (value : α) :
    ∃ (before : List (Segment × String)) (segment : Segment) (rest : List Segment),
      segments = before.map Prod.fst ++ segment :: rest ∧
      trail segments value = before.map foundRecord
        ++ [.step segment (walk segments value).lastOutcome] ∧
      (walk segments value).IsAt segment rest := by
  induction segments generalizing value with
  | nil => exact absurd rfl ne
  | cons segment rest ih =>
    rw [trail, walk]
    rcases step : advance value segment with next | _ | ⟨expected, actual⟩
    · -- the last segment is the only one that may find a value and still be the last step
      by_cases last : rest = []
      · subst last
        exact ⟨[], segment, [], rfl, rfl, rfl⟩
      · obtain ⟨before, stopped, left, rfl, onward, isAt⟩ := ih last next
        refine ⟨(segment, (view next).typeName) :: before, stopped, left, rfl, ?_, isAt⟩
        exact congrArg _ onward
    · exact ⟨[], segment, rest, rfl, rfl, rfl, rfl⟩
    · exact ⟨[], segment, rest, rfl, rfl, rfl⟩

/-! ## The main result -/

theorem log_evaluate {root : α} (policy : AbsencePolicy) (source : String)
    (segments : List Segment) (notNil : (view root).isNil = false) :
    (evaluate policy source segments root).log
      = trail segments root ++ (walk segments root).remarks policy source := by
  rw [evaluate, notNil, if_neg Bool.false_ne_true, log_follow]

theorem runText_of_parse {text : String} {path : Path} (h : Path.parse text = .ok path)
    (root : α) (options : Options) :
    runText root text options
      = (evaluate options.absence (Query.sourceOf text) path.segments root).after
        [.parsed (Query.sourceOf text) path.size, .built (Query.sourceOf text) options] := by
  rw [runText, Query.ofText, h]
  rfl

/-- **The log accounts for the run.** Nothing is logged of a text that is no path. Otherwise the log
says how many segments were read and with which options, and goes on with one record for each
segment that was followed; there is none exactly if the root is nil. All of these found a value
but the last one, which tells the result. A remark follows exactly if a missing value was passed
over before the end of the path. The lines of the log, and the message of a fault, quote what is
said here in the words of their kind. -/
theorem log_accounts_for_run (root : α) (text : String) (options : Options) :
    (∀ fault, Path.parse text = .error fault → (runText root text options).log = []) ∧
    (∀ path, Path.parse text = .ok path → ∃ steps remarks : List LogRecord,
      (runText root text options).log
        = .parsed (Query.sourceOf text) path.size :: .built (Query.sourceOf text) options ::
          (steps ++ remarks) ∧
      traces (runText root text options).log = steps ∧
      (steps = [] ↔ (view root).isNil = true) ∧
      ((view root).isNil = true → remarks = [] ∧
        (runText root text options).result = .error (.argument .objectRequired)) ∧
      ((view root).isNil = false →
        ∃ (before : List (Segment × String)) (segment : Segment) (outcome : Outcome String)
          (rest : List Segment), path.segments = before.map Prod.fst ++ segment :: rest ∧
          steps = before.map foundRecord ++ [.step segment outcome] ∧
          remarks = (if outcome = .absent ∧ rest ≠ [] ∧ options.absence = .passthrough
            then [.passedOver segment (Query.sourceOf text)] else []) ∧
          TellsResult options.absence (Query.sourceOf text) segment rest outcome
            (runText root text options).result)) ∧
    (∀ record ∈ (runText root text options).log,
      record.line = quoting record.frame record.quoted) ∧
    ∀ fault, (runText root text options).result = .error fault →
      fault.message = quoting fault.frame fault.quoted := by
  refine ⟨?_, ?_, fun record _ ↦ record.line_eq_quoting, fun fault _ ↦ fault.message_eq_quoting⟩
  · intro fault h
    rw [runText, Query.ofText, h]
    rfl
  · intro path h
    rw [runText_of_parse h, Run.log_after, Run.result_after, traces_append]
    have ne : path.segments ≠ [] := (wellFormed_of_isMade (.ofText h)).ne_nil
    have steps := traces_log_evaluate options.absence (Query.sourceOf text) path.segments root
    cases nil : (view root).isNil with
    | true =>
      rw [nil, if_pos rfl] at steps
      refine ⟨[], [], ?_, steps, ⟨fun _ ↦ rfl, fun _ ↦ rfl⟩, ?_, ?_⟩
      · rw [evaluate, if_pos nil]
        rfl
      · intro _
        exact ⟨rfl, result_evaluate_of_isNil _ _ _ nil⟩
      · intro notNil
        cases notNil
    | false =>
      rw [nil, if_neg Bool.false_ne_true] at steps
      obtain ⟨before, segment, rest, segments, eq, isAt⟩ := exists_trail_eq ne root
      refine ⟨trail path.segments root,
        (walk path.segments root).remarks options.absence (Query.sourceOf text),
        ?_, steps, ?_, ?_, ?_⟩
      · rw [log_evaluate _ _ _ nil]
        rfl
      · rw [eq]
        simp
      · intro isNil
        cases isNil
      · intro _
        refine ⟨before, segment, _, rest, segments, eq, Stop.remarks_eq isAt, ?_⟩
        rw [result_evaluate _ _ _ nil]
        exact Stop.tellsResult isAt

end Account

/-- A member that is missing in an object is logged as absent, and the log goes on to say that it
was passed over. The record tells the result, with the rest of the path still to follow. -/
theorem log_object_nil_passed_over :
    Path.parse " a.b " = .ok ⟨[.property "a", .property "b"]⟩ ∧
      (view (Json.object [])).isNil = false ∧
      (runText (Json.object []) " a.b " .lenient).log
        = [.parsed "a.b" 2, .built "a.b" .lenient, .step (.property "a") .absent,
          .passedOver (.property "a") "a.b"] ∧
      (runText (Json.object []) " a.b " .lenient).log.map LogRecord.line
        = ["DEBUG parsed `a.b` into 2 segment(s)",
          "DEBUG built accessor for `a.b` with Options "
            ++ "\x7b on_missing_intermediate: Passthrough \x7d",
          "TRACE `a` -> Absent", "DEBUG `a` is missing in `a.b`, returning nothing"] ∧
      TellsResult .passthrough "a.b" (.property "a") [.property "b"] .absent
        (runText (Json.object []) " a.b " .lenient).result := by
  have parse : Path.parse " a.b " = .ok ⟨[.property "a", .property "b"]⟩ := by decide +kernel
  have source : Query.sourceOf " a.b " = "a.b" := by decide
  have log : (runText (Json.object []) " a.b " .lenient).log
      = [.parsed "a.b" 2, .built "a.b" .lenient, .step (.property "a") .absent,
        .passedOver (.property "a") "a.b"] := by
    rw [runText_of_parse parse, source]
    rfl
  obtain ⟨steps, remarks, -, trace, -, -, account⟩ :=
    (log_accounts_for_run (Json.object []) " a.b " .lenient).2.1 _ parse
  obtain ⟨before, segment, outcome, rest, segments, eq, -, tells⟩ := account rfl
  have only : [] ++ [.step (.property "a") .absent]
      = before.map foundRecord ++ [.step segment outcome] := by
    rw [← eq, ← trace, log]
    rfl
  obtain ⟨none, same⟩ := List.append_inj' only rfl
  obtain rfl : before = [] := List.map_eq_nil_iff.mp none.symm
  obtain ⟨rfl, rfl⟩ := LogRecord.step.inj (List.singleton_inj.mp same)
  obtain rfl := List.tail_eq_of_cons_eq segments
  rw [source] at tells
  refine ⟨parse, rfl, log, ?_, tells⟩
  rw [log]
  decide

end PropertyPath
