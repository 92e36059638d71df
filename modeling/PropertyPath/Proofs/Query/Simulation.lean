import PropertyPath.Proofs.Query.Walk
import PropertyPath.Proofs.Value.Related

/-!
# Evaluating two values side by side

Two values can differ and be the same to every path. `IsSimulation` says when a relation between
values is of that kind: related values are nil together, and if they are not nil, their views agree
in what a segment can ask of them. A lookup then leads on both sides to nothing, a nil value
included, or to related values. The record view is asked only of a value that is no mapping, so it
has to agree only there. A nil value is never asked anything, so its views do not have to agree.

One segment leads from related values to related outcomes (`IsSimulation.rel_advance`). It also
asks a value that it comes to half-way, behind its name, but that value was found and so is not nil.
By induction a walk stops at related places (`IsSimulation.rel_walk`), and the results of an
evaluation are the same up to the relation and up to the names of types that faults quote
(`IsSimulation.resultRel_evaluate`). If the two sides name their types alike, the faults are the
same (`IsSimulation.sameResult_evaluate`).
-/

namespace PropertyPath

open Walkable (view)

/-! ## Relations between outcomes and results -/

section Relations

variable {α β : Type}

/-- Outcomes that agree, up to `names` on names of types and up to `R` on values. -/
inductive Outcome.Rel (names : String → String → Prop) (R : α → β → Prop) :
    Outcome α → Outcome β → Prop
  | found {value : α} {value' : β} (related : R value value') :
      Rel names R (.found value) (.found value')
  | absent : Rel names R .absent .absent
  | mismatch {actual actual' : String} (expected : Shape) (related : names actual actual') :
      Rel names R (.mismatch expected actual) (.mismatch expected actual')

/-- Places to stop at that agree in the same way. -/
inductive Stop.Rel (names : String → String → Prop) (R : α → β → Prop) :
    Stop α → Stop β → Prop
  | reached {value : α} {value' : β} (related : R value value') :
      Rel names R (.reached value) (.reached value')
  | absent (segment : Segment) (rest : List Segment) :
      Rel names R (.absent segment rest) (.absent segment rest)
  | mismatch {actual actual' : String} (segment : Segment) (expected : Shape)
      (related : names actual actual') :
      Rel names R (.mismatch segment expected actual) (.mismatch segment expected actual')

/-- Results that are the same up to `R`: one and the same fault, nothing, or related values. -/
inductive SameResult (R : α → β → Prop) :
    Except Fault (Option α) → Except Fault (Option β) → Prop
  | fault (fault : Fault) : SameResult R (.error fault) (.error fault)
  | nothing : SameResult R (.ok none) (.ok none)
  | value {value : α} {value' : β} (related : R value value') :
      SameResult R (.ok (some value)) (.ok (some value'))

theorem SameResult.imp {R S : α → β → Prop} (h : ∀ value value', R value value' → S value value')
    {result : Except Fault (Option α)} {result' : Except Fault (Option β)}
    (same : SameResult R result result') : SameResult S result result' := by
  cases same with
  | fault fault => exact .fault fault
  | nothing => exact .nothing
  | value related => exact .value (h _ _ related)

/-- Faults of an evaluation that agree up to `names` on the name of a type that is quoted. -/
inductive Fault.Rel (names : String → String → Prop) : Fault → Fault → Prop
  | argument (fault : ArgumentFault) : Rel names (.argument fault) (.argument fault)
  | noSuchProperty (segment path : String) :
    Rel names (.noSuchProperty segment path) (.noSuchProperty segment path)
  | mismatch {actual actual' : String} (name : Option String) (expected : Shape)
    (related : names actual actual') :
    Rel names (.type (.mismatch name expected actual)) (.type (.mismatch name expected actual'))

theorem Fault.Rel.kind_eq {names : String → String → Prop} {fault fault' : Fault}
    (h : Fault.Rel names fault fault') : fault.kind = fault'.kind := by
  cases h <;> rfl

/-- Only a fault of type quotes the name of one. -/
theorem Fault.Rel.eq_of_kind_ne_type {names : String → String → Prop} {fault fault' : Fault}
    (h : Fault.Rel names fault fault') (kind : fault.kind ≠ .type) : fault = fault' := by
  cases h with
  | argument fault => rfl
  | noSuchProperty segment path => rfl
  | mismatch name expected related => exact absurd rfl kind

/-- Results that agree, up to `names` on names of types and up to `R` on values. -/
inductive ResultRel (names : String → String → Prop) (R : α → β → Prop) :
    Except Fault (Option α) → Except Fault (Option β) → Prop
  | fault {fault fault' : Fault} (related : Fault.Rel names fault fault') :
      ResultRel names R (.error fault) (.error fault')
  | nothing : ResultRel names R (.ok none) (.ok none)
  | value {value : α} {value' : β} (related : R value value') :
      ResultRel names R (.ok (some value)) (.ok (some value'))

/-- What the policy makes of related places are related results. -/
theorem Stop.Rel.resultRel {names : String → String → Prop} {R : α → β → Prop} {stop : Stop α}
    {stop' : Stop β} (h : Stop.Rel names R stop stop') (policy : AbsencePolicy)
    (source : String) :
    ResultRel names R (stop.result policy source) (stop'.result policy source) := by
  cases h with
  | reached related => exact .value related
  | mismatch segment expected related => exact .fault (.mismatch segment.name? expected related)
  | absent segment rest =>
    by_cases hrest : rest = []
    · rw [hrest, result_absent_nil, result_absent_nil]
      exact .nothing
    · rw [result_absent_of_ne_nil hrest, result_absent_of_ne_nil hrest]
      cases policy with
      | fail => exact .fault (.noSuchProperty segment.text source)
      | passthrough => exact .nothing

/-- If types are named alike, related faults are one and the same. -/
theorem ResultRel.sameResult {R : α → β → Prop} {result : Except Fault (Option α)}
    {result' : Except Fault (Option β)} (h : ResultRel Eq R result result') :
    SameResult R result result' := by
  cases h with
  | nothing => exact .nothing
  | value related => exact .value related
  | fault related =>
    cases related with
    | argument fault => exact .fault _
    | noSuchProperty segment path => exact .fault _
    | mismatch name expected sameName =>
      cases sameName
      exact .fault _

namespace Outcome

variable {names : String → String → Prop} {R : α → β → Prop}

theorem Rel.bind {outcome : Outcome α} {outcome' : Outcome β} {next : α → Outcome α}
    {next' : β → Outcome β} (h : Rel names R outcome outcome')
    (step : ∀ value value', outcome = .found value → R value value' →
      Rel names R (next value) (next' value')) :
    Rel names R (outcome.bind next) (outcome'.bind next') := by
  cases h with
  | found related => exact step _ _ rfl related
  | absent => exact .absent
  | mismatch expected related => exact .mismatch expected related

theorem rel_ofLookup [Walkable α] [Walkable β]
    (nilTogether : ∀ {value value'}, R value value' → (view value).isNil = (view value').isNil)
    {found : Option α} {found' : Option β} (h : Option.Rel R found found') :
    Rel names R (.ofLookup found) (.ofLookup found') := by
  cases h with
  | none => exact .absent
  | @some value value' related =>
    rw [ofLookup, ofLookup, ← nilTogether related]
    split
    · exact .absent
    · exact .found related

end Outcome

end Relations

/-! ## Simulations -/

section Simulations

variable {α β : Type} [Walkable α] [Walkable β]

/-- A relation between values that no path can tell apart. -/
structure IsSimulation (names : String → String → Prop) (lookups : Option α → Option β → Prop)
    (R : α → β → Prop) : Prop where
  isNil : ∀ {value value'}, R value value' → (view value).isNil = (view value').isNil
  views : ∀ {value value'}, R value value' → (view value).isNil = false →
    View.Rel names lookups (view value) (view value')
  records : ∀ {value value'}, R value value' → (view value).isNil = false →
    (view value).mapping = none →
    Option.Rel (RecordView.Rel lookups) (view value).record (view value').record
  ofLookup : ∀ {found found'}, lookups found found' →
    Outcome.Rel names R (.ofLookup found) (.ofLookup found')

namespace IsSimulation

variable {names : String → String → Prop} {lookups : Option α → Option β → Prop}
  {R : α → β → Prop} {value : α} {value' : β}

/-! ### One segment -/

theorem rel_propertyOf (sim : IsSimulation names lookups R) (related : R value value')
    (notNil : (view value).isNil = false) (name : String) :
    Outcome.Rel names R (propertyOf value name) (propertyOf value' name) := by
  rw [propertyOf, propertyOf]
  rcases eq_none_or_eq_some_of_rel (sim.views related notNil).mapping with
    ⟨noMapping, noMapping'⟩ | ⟨lookup, lookup', mapping, mapping', agree⟩
  · simp only [noMapping, noMapping']
    rcases eq_none_or_eq_some_of_rel (sim.records related notNil noMapping) with
      ⟨noRecord, noRecord'⟩ | ⟨record, record', isRecord, isRecord', agree⟩
    · simp only [noRecord, noRecord']
      exact .absent
    · simp only [isRecord, isRecord']
      exact sim.ofLookup (agree.field name)
  · simp only [mapping, mapping']
    exact sim.ofLookup (agree name)

theorem rel_suffixTarget (sim : IsSimulation names lookups R) (related : R value value')
    (notNil : (view value).isNil = false) (name : Option String) :
    Outcome.Rel names R (suffixTarget value name) (suffixTarget value' name) := by
  cases name with
  | none => exact .found related
  | some name => exact sim.rel_propertyOf related notNil name

theorem rel_elementOf (sim : IsSimulation names lookups R) (related : R value value')
    (notNil : (view value).isNil = false) (index : Int64) :
    Outcome.Rel names R (elementOf index value) (elementOf index value') := by
  have views := sim.views related notNil
  rw [elementOf, elementOf]
  rcases eq_none_or_eq_some_of_rel views.sequence with
    ⟨noSequence, noSequence'⟩ | ⟨elements, elements', sequence, sequence', agree⟩
  · simp only [noSequence, noSequence']
    exact .mismatch .arrayLike views.typeName
  · simp only [sequence, sequence']
    exact sim.ofLookup (agree.resolve index)

theorem rel_entryOf (sim : IsSimulation names lookups R) (related : R value value')
    (notNil : (view value).isNil = false) (key : String) :
    Outcome.Rel names R (entryOf key value) (entryOf key value') := by
  have views := sim.views related notNil
  rw [entryOf, entryOf]
  rcases eq_none_or_eq_some_of_rel views.mapping with
    ⟨noMapping, noMapping'⟩ | ⟨lookup, lookup', mapping, mapping', agree⟩
  · simp only [noMapping, noMapping']
    exact .mismatch .mapLike views.typeName
  · simp only [mapping, mapping']
    exact sim.ofLookup (agree key)

theorem rel_keyedAnswer? (sim : IsSimulation names lookups R) (related : R value value')
    (notNil : (view value).isNil = false) (name key : String) :
    Option.Rel lookups (keyedAnswer? value name key) (keyedAnswer? value' name key) := by
  rw [keyedAnswer?, keyedAnswer?]
  rcases eq_none_or_eq_some_of_rel (sim.views related notNil).mapping with
    ⟨noMapping, noMapping'⟩ | ⟨lookup, lookup', mapping, mapping', -⟩
  · simp only [noMapping, noMapping']
    rcases eq_none_or_eq_some_of_rel (sim.records related notNil noMapping) with
      ⟨noRecord, noRecord'⟩ | ⟨record, record', isRecord, isRecord', agree⟩
    · simp only [noRecord, noRecord']
      exact .none
    · simp only [isRecord, isRecord']
      exact agree.keyed name key
  · simp only [mapping, mapping']
    exact .none

/-- A segment leads from related values to related outcomes. -/
theorem rel_advance (sim : IsSimulation names lookups R) (related : R value value')
    (notNil : (view value).isNil = false) (segment : Segment) :
    Outcome.Rel names R (advance value segment) (advance value' segment) := by
  -- behind a name stands a value that was found, and behind none the value itself
  have targetNotNil : ∀ {name target}, suffixTarget value name = .found target →
      (view target).isNil = false := by
    rintro (_ | name) target found
    · cases found
      exact notNil
    · exact isNil_of_propertyOf_eq_found found
  cases segment with
  | property name => exact sim.rel_propertyOf related notNil name
  | index name index =>
    exact (sim.rel_suffixTarget related notNil name).bind fun target target' found related ↦
      sim.rel_elementOf related (targetNotNil found) index
  | keyed name key =>
    have suffix := (sim.rel_suffixTarget related notNil name).bind
      fun target target' found related ↦ sim.rel_entryOf related (targetNotNil found) key
    rw [advance, advance]
    cases name with
    | none => exact suffix
    | some name =>
      rw [Option.bind_some, Option.bind_some]
      rcases eq_none_or_eq_some_of_rel (sim.rel_keyedAnswer? related notNil name key) with
        ⟨unanswered, unanswered'⟩ | ⟨answer, answer', answered, answered', agree⟩
      · rw [unanswered, unanswered']
        exact suffix
      · rw [answered, answered']
        exact sim.ofLookup agree

/-! ### Walks and evaluations -/

theorem rel_walk (sim : IsSimulation names lookups R) (related : R value value')
    (notNil : (view value).isNil = false) (segments : List Segment) :
    Stop.Rel names R (walk segments value) (walk segments value') := by
  induction segments generalizing value value' with
  | nil => exact .reached related
  | cons segment rest ih =>
    rw [walk, walk]
    have outcomes := sim.rel_advance related notNil segment
    generalize step : advance value segment = outcome at outcomes ⊢
    generalize advance value' segment = outcome' at outcomes ⊢
    cases outcomes with
    | found related => exact ih related (isNil_of_advance_eq_found step)
    | absent => exact .absent segment rest
    | mismatch expected sameName => exact .mismatch segment expected sameName

/-- **No evaluation tells values apart that a simulation relates**, apart from the names of their
types: the results are the same up to the relation. -/
theorem resultRel_evaluate (sim : IsSimulation names lookups R) (related : R value value')
    (policy : AbsencePolicy) (source : String) (segments : List Segment) :
    ResultRel names R (evaluate policy source segments value).result
      (evaluate policy source segments value').result := by
  cases notNil : (view value).isNil with
  | true =>
    rw [result_evaluate_of_isNil _ _ _ notNil,
      result_evaluate_of_isNil _ _ _ ((sim.isNil related).symm.trans notNil)]
    exact .fault (.argument .objectRequired)
  | false =>
    rw [result_evaluate _ _ _ notNil,
      result_evaluate _ _ _ ((sim.isNil related).symm.trans notNil)]
    exact (sim.rel_walk related notNil segments).resultRel policy source

/-- If the two sides name their types alike, there is no difference in the faults. -/
theorem sameResult_evaluate (sim : IsSimulation Eq lookups R) (related : R value value')
    (policy : AbsencePolicy) (source : String) (segments : List Segment) :
    SameResult R (evaluate policy source segments value).result
      (evaluate policy source segments value').result :=
  (sim.resultRel_evaluate related policy source segments).sameResult

end IsSimulation

/-- If all relations closed under `step` are simulations, no evaluation sees that two values differ
by `step`, at whatever depth. -/
theorem AtAnyDepth.sameResult {step : (α → β → Prop) → α → β → Prop}
    {lookups : (α → β → Prop) → Option α → Option β → Prop}
    (sim : ∀ R : α → β → Prop, (∀ value value', R value value' → step R value value') →
      IsSimulation Eq (lookups R) R)
    {value : α} {value' : β} (h : AtAnyDepth step value value') (policy : AbsencePolicy)
    (source : String) (segments : List Segment) :
    SameResult (AtAnyDepth step) (evaluate policy source segments value).result
      (evaluate policy source segments value').result := by
  obtain ⟨R, related, closed⟩ := h
  exact ((sim R closed).sameResult_evaluate related policy source segments).imp
    fun _ _ related ↦ ⟨R, related, closed⟩

end Simulations

end PropertyPath
