import PropertyPath.Json.Basic
import PropertyPath.Proofs.Query.Walk

/-!
# What the policy changes

The policy is asked in one place only: where a walk stops at a missing value with more segments to
follow. So the two results of a query are one and the same up to `passOver`, which turns the fault
of a missing property into the result of finding nothing and leaves every other result alone.

The log of a run is the trail of its walk, one record for each step, with a remark behind it if a
value is passed over. The trail does not mention the policy, and the remark is no record of a step.
-/

namespace PropertyPath

open Walkable (view)

section PassOver

variable {α : Type} {result : Except Fault (Option α)} {fault : Fault}

/-- The result with a missing property passed over. -/
def passOver : Except Fault (Option α) → Except Fault (Option α)
  | .error (.noSuchProperty _ _) => .ok none
  | result => result

theorem passOver_of_noSuchProperty (h : fault.kind = .noSuchProperty) :
    passOver (.error fault : Except Fault (Option α)) = .ok none := by
  rcases fault
  case noSuchProperty segment path => rfl
  all_goals cases h

theorem passOver_eq_self (h : ∀ fault, result = .error fault → fault.kind ≠ .noSuchProperty) :
    passOver result = result := by
  rcases result with (_ | _ | _ | _) | found
  case error.noSuchProperty => exact absurd rfl (h _ rfl)
  all_goals rfl

theorem kind_ne_of_passOver_eq (h : passOver result = .error fault) :
    fault.kind ≠ .noSuchProperty := by
  intro kind
  by_cases missing : ∃ fault, result = .error fault ∧ fault.kind = .noSuchProperty
  · obtain ⟨fault, rfl, missing⟩ := missing
    rw [passOver_of_noSuchProperty missing] at h
    cases h
  · have others : ∀ fault, result = .error fault → fault.kind ≠ .noSuchProperty :=
      fun fault eq kind ↦ missing ⟨fault, eq, kind⟩
    rw [passOver_eq_self others] at h
    exact others fault h kind

end PassOver

/-- The records of steps in a log. -/
def traces (log : List LogRecord) : List LogRecord := log.filter fun record ↦ record.level = "TRACE"

theorem traces_append (log log' : List LogRecord) :
    traces (log ++ log') = traces log ++ traces log' := List.filter_append log log'

/-! ## What the policy makes of a stop -/

namespace Stop

variable {α : Type} {policy : AbsencePolicy} {source : String}

theorem result_passthrough (source : String) (stop : Stop α) :
    stop.result .passthrough source = passOver (stop.result .fail source) := by
  rcases stop with value | ⟨segment, rest⟩ | ⟨segment, expected, actual⟩
  · rfl
  · by_cases hrest : rest = []
    · rw [hrest, result_absent_nil, result_absent_nil]
      rfl
    · rw [result_absent_of_ne_nil hrest, result_absent_of_ne_nil hrest]
      rfl
  · rfl

/-- What a run logs besides its steps. -/
def remarks (policy : AbsencePolicy) (source : String) : Stop α → List LogRecord
  | absent segment rest => (missing policy source segment rest : Run α).log
  | _ => []

theorem traces_remarks (stop : Stop α) : traces (stop.remarks policy source) = [] := by
  rcases stop with _ | ⟨segment, rest⟩ | _
  · rfl
  · by_cases hrest : rest = []
    · rw [remarks, missing.eq_def, if_pos hrest]
      rfl
    · rw [remarks, missing.eq_def, if_neg hrest]
      cases policy <;> rfl
  · rfl

end Stop

/-! ## Evaluations -/

section Evaluations

variable {α : Type} [Walkable α]

theorem result_evaluate_passthrough (source : String) (segments : List Segment) (root : α) :
    (evaluate .passthrough source segments root).result
      = passOver (evaluate .fail source segments root).result := by
  by_cases nil : (view root).isNil = true
  · rw [result_evaluate_of_isNil _ _ _ nil, result_evaluate_of_isNil _ _ _ nil]
    rfl
  · rw [Bool.not_eq_true] at nil
    rw [result_evaluate _ _ _ nil, result_evaluate _ _ _ nil, Stop.result_passthrough]

/-- The records of the steps of a walk. -/
def trail : List Segment → α → List LogRecord
  | [], _ => []
  | segment :: rest, value =>
    stepRecord segment (advance value segment) ::
      match advance value segment with
      | .found next => trail rest next
      | _ => []

/-- A run logs the trail of its walk, and its remarks behind it. -/
theorem log_follow (policy : AbsencePolicy) (source : String) (segments : List Segment)
    (value : α) :
    (follow policy source segments value).log
      = trail segments value ++ (walk segments value).remarks policy source := by
  induction segments generalizing value with
  | nil => rfl
  | cons segment rest ih =>
    rw [follow, trail, walk, Run.log_after, List.singleton_append, List.cons_append]
    rcases advance value segment with next | _ | ⟨expected, actual⟩
    · exact congrArg _ (ih next)
    · rfl
    · rfl

theorem traces_trail (segments : List Segment) (value : α) :
    traces (trail segments value) = trail segments value := by
  induction segments generalizing value with
  | nil => rfl
  | cons segment rest ih =>
    rw [trail, traces, List.filter_cons_of_pos (by rfl)]
    rcases advance value segment with next | _ | ⟨expected, actual⟩
    · exact congrArg _ (ih next)
    · rfl
    · rfl

theorem traces_log_evaluate (policy : AbsencePolicy) (source : String) (segments : List Segment)
    (root : α) :
    traces (evaluate policy source segments root).log
      = if (view root).isNil then [] else trail segments root := by
  rw [evaluate]
  split
  · rfl
  · rw [log_follow, traces_append, traces_trail, Stop.traces_remarks, List.append_nil]

/-! ## The main result -/

/-- **The policy changes one outcome.** Where failing reports a missing property, passing over
finds nothing, and everywhere else the two results are the same. No property is reported missing
when it is passed over, and the steps that are logged are the same under both policies. -/
theorem policy_changes_one_outcome (path : Path) (source : String) (root : α) :
    (∀ fault, ((Query.mk path source ⟨.fail⟩).run root).result = .error fault →
      fault.kind = .noSuchProperty →
        ((Query.mk path source ⟨.passthrough⟩).run root).result = .ok none) ∧
    ((∀ fault, ((Query.mk path source ⟨.fail⟩).run root).result = .error fault →
      fault.kind ≠ .noSuchProperty) →
        ((Query.mk path source ⟨.passthrough⟩).run root).result
          = ((Query.mk path source ⟨.fail⟩).run root).result) ∧
    (∀ fault, ((Query.mk path source ⟨.passthrough⟩).run root).result = .error fault →
      fault.kind ≠ .noSuchProperty) ∧
    traces ((Query.mk path source ⟨.passthrough⟩).run root).log
      = traces ((Query.mk path source ⟨.fail⟩).run root).log := by
  simp only [Query.run, result_evaluate_passthrough, traces_log_evaluate]
  refine ⟨?_, passOver_eq_self, fun fault ↦ kind_ne_of_passOver_eq, trivial⟩
  rintro fault failed kind
  rw [failed]
  exact passOver_of_noSuchProperty kind

/-- A member that is missing in an object is reported or passed over, after the same step. -/
theorem lenient_run_object_nil :
    ((Query.mk ⟨[.property "a", .property "b"]⟩ "a.b" .strict).run (Json.object [])).result
        = .error (.noSuchProperty "a" "a.b") ∧
      ((Query.mk ⟨[.property "a", .property "b"]⟩ "a.b" .lenient).run (Json.object [])).result
        = .ok none ∧
      traces ((Query.mk ⟨[.property "a", .property "b"]⟩ "a.b" .lenient).run (Json.object [])).log
        = [.step (.property "a") .absent] := by
  have strict :
      ((Query.mk ⟨[.property "a", .property "b"]⟩ "a.b" .strict).run (Json.object [])).result
        = .error (.noSuchProperty "a" "a.b") := rfl
  obtain ⟨passedOver, -, -, same⟩ :=
    policy_changes_one_outcome ⟨[.property "a", .property "b"]⟩ "a.b" (Json.object [])
  exact ⟨strict, passedOver _ strict rfl, same.trans rfl⟩

end Evaluations

end PropertyPath
