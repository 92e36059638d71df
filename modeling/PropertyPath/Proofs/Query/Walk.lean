import PropertyPath.Query.Basic

/-!
# Where a walk stops

Following segments stops behind the last one, or earlier at a segment that leads to nothing or
meets a value of the wrong shape. Where it stops is a matter of the segments and the value alone:
neither the policy nor the text to report by has a say in it. `walk` gives the place, and
`result_follow` the result that a policy makes of it.

A walk over two rows of segments is a walk over the first row and, from the value it reaches, over
the second (`walk_append`). No value that is reached is nil.
-/

namespace PropertyPath

open Walkable (view)

/-- Where following segments stops. -/
inductive Stop (α : Type) where
  /-- All segments were followed. -/
  | reached (value : α)
  /-- A segment led to nothing, with `rest` still to follow. -/
  | absent (segment : Segment) (rest : List Segment)
  | mismatch (segment : Segment) (expected : Shape) (actual : String)
deriving DecidableEq, Repr

namespace Stop

variable {α : Type} {policy : AbsencePolicy} {source : String} {stop : Stop α}

/-- The result of a run that stops here. -/
def result (policy : AbsencePolicy) (source : String) : Stop α → Except Fault (Option α)
  | reached value => .ok (some value)
  | absent segment rest => (missing policy source segment rest).result
  | mismatch segment expected actual => .error (.type (.mismatch segment.name? expected actual))

@[simp] theorem result_absent_nil (segment : Segment) :
    (absent segment [] : Stop α).result policy source = .ok none := rfl

theorem result_absent_of_ne_nil {segment : Segment} {rest : List Segment} (hrest : rest ≠ []) :
    (absent segment rest : Stop α).result policy source = match policy with
      | .passthrough => .ok none
      | .fail => .error (.noSuchProperty segment.text source) := by
  cases policy with
  | fail => rw [result, missing, if_neg hrest, Run.result_ended]
  | passthrough => rw [result, missing, if_neg hrest, Run.result_after, Run.result_ended]

/-- A value is only found behind the last segment. -/
theorem eq_reached_of_result_eq {value : α} (h : stop.result policy source = .ok (some value)) :
    stop = .reached value := by
  cases stop with
  | reached last =>
    cases h
    rfl
  | mismatch segment expected actual => cases h
  | absent segment rest =>
    by_cases hrest : rest = []
    · rw [hrest, result_absent_nil] at h
      cases h
    · rw [result_absent_of_ne_nil hrest] at h
      cases policy <;> cases h

/-- Under the policy to fail, only a last segment leads to nothing without a fault. -/
theorem eq_absent_of_result_fail_eq (h : stop.result .fail source = .ok none) :
    ∃ segment, stop = .absent segment [] := by
  cases stop with
  | reached last => cases h
  | mismatch segment expected actual => cases h
  | absent segment rest =>
    by_cases hrest : rest = []
    · exact ⟨segment, hrest ▸ rfl⟩
    · rw [result_absent_of_ne_nil hrest] at h
      cases h

end Stop

section Walk

variable {α : Type} [Walkable α]

/-- Where following segments from a value stops. -/
def walk : List Segment → α → Stop α
  | [], value => .reached value
  | segment :: rest, value =>
    match advance value segment with
    | .found next => walk rest next
    | .absent => .absent segment rest
    | .mismatch expected actual => .mismatch segment expected actual

/-- Where a walk stops if more segments follow. -/
def Stop.andThen (more : List Segment) : Stop α → Stop α
  | reached value => walk more value
  | absent segment rest => absent segment (rest ++ more)
  | mismatch segment expected actual => mismatch segment expected actual

variable {segments front rest : List Segment} {segment : Segment} {value next : α}

/-! ## The result of a run -/

/-- The result of a run is what the policy makes of the place where the walk stops. -/
theorem result_follow (policy : AbsencePolicy) (source : String) (segments : List Segment)
    (value : α) :
    (follow policy source segments value).result = (walk segments value).result policy source := by
  induction segments generalizing value with
  | nil => rfl
  | cons segment rest ih =>
    rw [follow, walk, Run.result_after]
    cases advance value segment with
    | found next => exact ih next
    | absent => rfl
    | mismatch expected actual => rfl

theorem result_evaluate (policy : AbsencePolicy) (source : String) (segments : List Segment)
    (notNil : (view value).isNil = false) :
    (evaluate policy source segments value).result
      = (walk segments value).result policy source := by
  rw [evaluate, notNil, if_neg Bool.false_ne_true, result_follow]

theorem result_evaluate_of_isNil (policy : AbsencePolicy) (source : String)
    (segments : List Segment) (nil : (view value).isNil = true) :
    (evaluate policy source segments value).result = .error (.argument .objectRequired) := by
  rw [evaluate, if_pos nil]
  rfl

/-! ## Walks over two rows -/

theorem walk_append (front rest : List Segment) (value : α) :
    walk (front ++ rest) value = (walk front value).andThen rest := by
  induction front generalizing value with
  | nil => rfl
  | cons segment front ih =>
    rw [List.cons_append, walk, walk]
    cases advance value segment with
    | found next => exact ih next
    | absent => rfl
    | mismatch expected actual => rfl

theorem walk_cons_eq_reached_iff {last : α} : walk (segment :: rest) value = .reached last
    ↔ ∃ next, advance value segment = .found next ∧ walk rest next = .reached last := by
  rw [walk]
  cases advance value segment <;> simp

/-- A walk stops at an absent segment exactly if it reaches a value that the segment does not lead
on from. -/
theorem walk_eq_absent_iff : walk segments value = .absent segment rest
    ↔ ∃ front last, segments = front ++ segment :: rest ∧ walk front value = .reached last ∧
        advance last segment = .absent := by
  constructor
  · intro h
    induction segments generalizing value with
    | nil => cases h
    | cons first more ih =>
      rw [walk] at h
      cases step : advance value first with
      | found next =>
        rw [step] at h
        obtain ⟨front, last, rfl, reached, absent⟩ := ih h
        refine ⟨first :: front, last, rfl, ?_, absent⟩
        rw [walk, step]
        exact reached
      | absent =>
        rw [step] at h
        cases h
        exact ⟨[], value, rfl, rfl, step⟩
      | mismatch expected actual =>
        rw [step] at h
        cases h
  · rintro ⟨front, last, rfl, reached, absent⟩
    rw [walk_append, reached, Stop.andThen, walk, absent]

/-! ## No value reached is nil -/

theorem isNil_of_propertyOf_eq_found {name : String} (h : propertyOf value name = .found next) :
    (view next).isNil = false := by
  rw [propertyOf] at h
  split at h
  · exact Outcome.isNil_of_ofLookup_eq_found h
  · split at h
    · exact Outcome.isNil_of_ofLookup_eq_found h
    · cases h

theorem isNil_of_elementOf_eq_found {index : Int64} (h : elementOf index value = .found next) :
    (view next).isNil = false := by
  rw [elementOf] at h
  split at h
  · exact Outcome.isNil_of_ofLookup_eq_found h
  · cases h

theorem isNil_of_entryOf_eq_found {key : String} (h : entryOf key value = .found next) :
    (view next).isNil = false := by
  rw [entryOf] at h
  split at h
  · exact Outcome.isNil_of_ofLookup_eq_found h
  · cases h

theorem isNil_of_advance_eq_found (h : advance value segment = .found next) :
    (view next).isNil = false := by
  -- whoever answers in the end, the answer is the outcome of a lookup
  cases segment with
  | property name => exact isNil_of_propertyOf_eq_found h
  | index owner position =>
    obtain ⟨target, -, element⟩ := Outcome.bind_eq_found_iff.mp h
    exact isNil_of_elementOf_eq_found element
  | keyed owner key =>
    rw [advance] at h
    split at h
    · exact Outcome.isNil_of_ofLookup_eq_found h
    · obtain ⟨target, -, entry⟩ := Outcome.bind_eq_found_iff.mp h
      exact isNil_of_entryOf_eq_found entry

/-- A walk that does not start at nil does not come to nil. -/
theorem isNil_of_walk_eq_reached {last : α} (notNil : (view value).isNil = false)
    (h : walk segments value = .reached last) : (view last).isNil = false := by
  induction segments generalizing value with
  | nil =>
    cases h
    exact notNil
  | cons segment rest ih =>
    obtain ⟨next, step, onward⟩ := walk_cons_eq_reached_iff.mp h
    exact ih (isNil_of_advance_eq_found step) onward

end Walk

end PropertyPath
