import PropertyPath.Json.Basic
import PropertyPath.Proofs.Query.Walk

/-!
# Evaluation along a path in two parts

A path in two parts is evaluated part by part: the second part starts from the value that the first
one leads to. The seam shows in one place only. The last segment of the first part is not the last
one of the path, so a value missing there is no longer left to the caller but to the policy.
-/

namespace PropertyPath

open Walkable (view)

section Append

variable {α : Type} [Walkable α] {policy : AbsencePolicy} {source : String}
  {front rest : List Segment} {segment : Segment} {root : α}

theorem getLast_eq_of_walk_eq_absent (hfront : front ≠ [])
    (h : walk front root = .absent segment []) : front.getLast hfront = segment := by
  obtain ⟨before, last, rfl, -, -⟩ := walk_eq_absent_iff.mp h
  exact List.getLast_concat

/-- The second part of a walk goes on with the result of the first. -/
theorem result_walk_append (hfront : front ≠ []) (hrest : rest ≠ []) :
    (walk (front ++ rest) root).result policy source
      = match (walk front root).result policy source with
        | .error fault => .error fault
        | .ok (some value) => (walk rest value).result policy source
        | .ok none => match policy with
          | .passthrough => .ok none
          | .fail => .error (.noSuchProperty (front.getLast hfront).text source) := by
  rw [walk_append]
  cases stop : walk front root with
  | reached value => rfl
  | mismatch segment expected actual => rfl
  | absent segment left =>
    rw [Stop.andThen, Stop.result_absent_of_ne_nil (List.append_ne_nil_of_right_ne_nil left hrest)]
    by_cases hleft : left = []
    · -- here the policy is asked for the first time: the segment was a last one before
      subst hleft
      have last := getLast_eq_of_walk_eq_absent hfront stop
      cases policy <;> simp [last]
    · rw [Stop.result_absent_of_ne_nil hleft]
      cases policy <;> rfl

/-- **Evaluation composes along a path.** If the first part fails, so does the path, in the same
way. If it finds nothing, the policy decides, and a fault names the last segment of the first part,
which is the one that was absent. If it finds a value, which is never nil, the second part goes on
from there. -/
theorem result_evaluate_append (policy : AbsencePolicy) (source : String)
    {front rest : List Segment} (hfront : front ≠ []) (hrest : rest ≠ []) (root : α) :
    (evaluate policy source (front ++ rest) root).result
        = (match (evaluate policy source front root).result with
          | .error fault => .error fault
          | .ok (some value) => (evaluate policy source rest value).result
          | .ok none => match policy with
            | .passthrough => .ok none
            | .fail => .error (.noSuchProperty (front.getLast hfront).text source)) ∧
      (∀ value, (evaluate policy source front root).result = .ok (some value) →
        (view value).isNil = false) ∧
      ((evaluate .fail source front root).result = .ok none →
        ∃ value, (evaluate .fail source front.dropLast root).result = .ok (some value) ∧
          advance value (front.getLast hfront) = .absent) := by
  cases notNil : (view root).isNil with
  | true =>
    simp only [result_evaluate_of_isNil _ _ _ notNil]
    exact ⟨trivial, nofun, nofun⟩
  | false =>
    simp only [result_evaluate _ _ _ notNil]
    have goesOn : ∀ value, (walk front root).result policy source = .ok (some value) →
        (view value).isNil = false :=
      fun value h ↦ isNil_of_walk_eq_reached notNil (Stop.eq_reached_of_result_eq h)
    refine ⟨?_, goesOn, fun h ↦ ?_⟩
    · rw [result_walk_append hfront hrest]
      rcases found : (walk front root).result policy source with fault | _ | value
      · rfl
      · rfl
      · exact (result_evaluate policy source rest (goesOn value found)).symm
    · obtain ⟨segment, stop⟩ := Stop.eq_absent_of_result_fail_eq h
      obtain ⟨before, last, rfl, reached, absent⟩ := walk_eq_absent_iff.mp stop
      refine ⟨last, ?_, ?_⟩
      · rw [List.dropLast_concat, reached]
        rfl
      · rwa [List.getLast_concat]

/-- A member that is missing in an object is reported if the path goes on behind it. -/
theorem result_evaluate_object_nil :
    (evaluate .fail "a.b" ([.property "a"] ++ [.property "b"]) (Json.object [])).result
      = .error (.noSuchProperty "a" "a.b") :=
  (result_evaluate_append .fail "a.b" (List.cons_ne_nil _ _) (List.cons_ne_nil _ _) _).1.trans rfl

end Append

end PropertyPath
