import Mathlib.Logic.Relation
import PropertyPath.Proofs.Query.Walk
import PropertyPath.Value.Host

/-!
# Walking component by component

The flat view of a path has a step of its own for every name and every suffix. A flat walk takes
these steps one at a time, each from the value that the one before it found, and stops at the first
component that leads to nothing or meets a value of the wrong shape. A suffix is applied to the
value itself, as in a segment without a name (`advance_alone`).

A segment leads to what its own components lead to in a row, unless a keyed accessor answers for
name and key at once (`advance_eq_outcome_flatWalk`). So where no record has a keyed accessor, the
flat walk and the walk over the segments stop together: the flat walk at a component, the other one
at the segment that the component belongs to (`regroup_flatWalk`).
-/

namespace PropertyPath

open Walkable (view)

/-! ## Flat walks -/

/-- A component as a segment of its own: a suffix without a name in front. -/
def Component.alone : Component → Segment
  | .property name => .property name
  | .index position => .index none position
  | .key text => .keyed none text

/-- Where a flat walk stops, by the position of a component. -/
inductive FlatStop (α : Type) where
  | reached (value : α)
  | absent (position : Nat)
  | mismatch (position : Nat) (expected : Shape) (actual : String)

namespace FlatStop

variable {α : Type}

/-- The same place, with `count` more components in front. -/
def behind (count : Nat) : FlatStop α → FlatStop α
  | reached value => reached value
  | absent position => absent (count + position)
  | mismatch position expected actual => mismatch (count + position) expected actual

/-- The position of the component that ended the walk early. -/
def position? : FlatStop α → Option Nat
  | reached _ => none
  | absent position | mismatch position _ _ => some position

/-- What the components lead to together. -/
def outcome : FlatStop α → Outcome α
  | reached value => .found value
  | absent _ => .absent
  | mismatch _ expected actual => .mismatch expected actual

theorem behind_zero (stop : FlatStop α) : stop.behind 0 = stop := by
  cases stop <;> simp [behind]

theorem behind_behind (count count' : Nat) (stop : FlatStop α) :
    (stop.behind count').behind count = stop.behind (count + count') := by
  cases stop <;> simp [behind, Nat.add_assoc]

theorem position?_behind (count : Nat) (stop : FlatStop α) :
    (stop.behind count).position? = stop.position?.map (count + ·) := by
  cases stop <;> rfl

theorem outcome_behind (count : Nat) (stop : FlatStop α) :
    (stop.behind count).outcome = stop.outcome := by
  cases stop <;> rfl

end FlatStop

section FlatWalk

variable {α : Type} [Walkable α]

/-- What a component leads to from a value. -/
def flatStep (value : α) : Component → Outcome α
  | .property name => propertyOf value name
  | .index index => elementOf index value
  | .key key => entryOf key value

theorem advance_alone (value : α) (component : Component) :
    advance value component.alone = flatStep value component := by
  cases component <;> rfl

/-- Follows components one at a time. -/
def flatWalk : List Component → α → FlatStop α
  | [], value => .reached value
  | component :: rest, value =>
    match flatStep value component with
    | .found next => (flatWalk rest next).behind 1
    | .absent => .absent 0
    | .mismatch expected actual => .mismatch 0 expected actual

/-- Where a flat walk stops if more components follow behind the first `count`. -/
def FlatStop.andThen (count : Nat) (more : List Component) : FlatStop α → FlatStop α
  | reached value => (flatWalk more value).behind count
  | absent position => absent position
  | mismatch position expected actual => mismatch position expected actual

theorem flatWalk_append (front rest : List Component) (value : α) :
    flatWalk (front ++ rest) value = (flatWalk front value).andThen front.length rest := by
  induction front generalizing value with
  | nil => exact (FlatStop.behind_zero _).symm
  | cons component front ih =>
    rw [List.cons_append, flatWalk, flatWalk]
    cases flatStep value component with
    | absent => rfl
    | mismatch expected actual => rfl
    | found next =>
      simp only [ih]
      cases flatWalk front next with
      | absent position => rfl
      | mismatch position expected actual => rfl
      | reached last =>
        rw [FlatStop.andThen, FlatStop.behind_behind, Nat.add_comm]
        rfl

/-- A flat walk that ends early ends at one of its components. -/
theorem lt_length_of_position?_flatWalk {components : List Component} {value : α} {position : Nat}
    (h : (flatWalk components value).position? = some position) :
    position < components.length := by
  induction components generalizing value position with
  | nil => cases h
  | cons component rest ih =>
    rw [flatWalk] at h
    rw [List.length_cons]
    cases step : flatStep value component with
    | absent =>
      rw [step] at h
      cases h
      exact Nat.zero_lt_succ _
    | mismatch expected actual =>
      rw [step] at h
      cases h
      exact Nat.zero_lt_succ _
    | found next =>
      rw [step, FlatStop.position?_behind] at h
      obtain ⟨later, stopped, rfl⟩ := Option.map_eq_some_iff.mp h
      have := ih stopped
      omega

theorem outcome_flatWalk_cons (component : Component) (rest : List Component) (value : α) :
    (flatWalk (component :: rest) value).outcome
      = (flatStep value component).bind fun next ↦ (flatWalk rest next).outcome := by
  rw [flatWalk]
  cases flatStep value component with
  | found next => exact FlatStop.outcome_behind 1 _
  | absent => rfl
  | mismatch expected actual => rfl

theorem outcome_flatWalk_singleton (component : Component) (value : α) :
    (flatWalk [component] value).outcome = flatStep value component := by
  rw [outcome_flatWalk_cons]
  cases flatStep value component <;> rfl

/-- A segment leads to what its components lead to one after the other, unless a keyed accessor
answers for name and key at once. -/
theorem advance_eq_outcome_flatWalk {value : α}
    (unanswered : ∀ name key, keyedAnswer? value name key = none) (segment : Segment) :
    advance value segment = (flatWalk segment.components value).outcome := by
  rcases segment with name | ⟨_ | name, index⟩ | ⟨_ | name, key⟩
  · exact (outcome_flatWalk_singleton (.property name) value).symm
  · exact (outcome_flatWalk_singleton (.index index) value).symm
  · refine Eq.trans ?_ (outcome_flatWalk_cons (.property name) [.index index] value).symm
    simp only [outcome_flatWalk_singleton]
    rfl
  · exact (outcome_flatWalk_singleton (.key key) value).symm
  · refine Eq.trans ?_ (outcome_flatWalk_cons (.property name) [.key key] value).symm
    simp only [outcome_flatWalk_singleton]
    rw [advance, Option.bind_some, unanswered]
    rfl

end FlatWalk

/-! ## The segments that components belong to -/

/-- For each component of a row of segments the segment it belongs to, and the segments behind. -/
def owners : List Segment → List (Segment × List Segment)
  | [] => []
  | segment :: rest => segment.components.map (fun _ ↦ (segment, rest)) ++ owners rest

/-- The place where the walk over the segments stops if the flat walk stops here. -/
def FlatStop.regroup {α : Type} (segments : List Segment) : FlatStop α → Option (Stop α)
  | reached value => some (.reached value)
  | absent position =>
    (owners segments)[position]?.map fun owner ↦ .absent owner.1 owner.2
  | mismatch position expected actual =>
    (owners segments)[position]?.map fun owner ↦ .mismatch owner.1 expected actual

theorem owners_of_lt {segment : Segment} {position : Nat}
    (h : position < segment.components.length) (rest : List Segment) :
    (owners (segment :: rest))[position]? = some (segment, rest) := by
  rw [owners, List.getElem?_append_left (by rwa [List.length_map]), List.getElem?_map,
    List.getElem?_eq_getElem h, Option.map_some]

theorem owners_behind (segment : Segment) (rest : List Segment) (position : Nat) :
    (owners (segment :: rest))[segment.components.length + position]?
      = (owners rest)[position]? := by
  rw [owners, List.getElem?_append_right (by rw [List.length_map]; exact Nat.le_add_right _ _),
    List.length_map, Nat.add_sub_cancel_left]

theorem regroup_behind {α : Type} (segment : Segment) (rest : List Segment) (stop : FlatStop α) :
    (stop.behind segment.components.length).regroup (segment :: rest) = stop.regroup rest := by
  cases stop with
  | reached value => rfl
  | absent position => rw [FlatStop.behind, FlatStop.regroup, owners_behind, FlatStop.regroup]
  | mismatch position expected actual =>
    rw [FlatStop.behind, FlatStop.regroup, owners_behind, FlatStop.regroup]

/-! ## Values without keyed accessors -/

section Keyless

variable {α : Type} [Walkable α]

/-- One value leads to another by a question that a segment can ask of it. -/
inductive LeadsTo (value next : α) : Prop
  | entry {lookup : String → Option α} (key : String) (mapping : (view value).mapping = some lookup)
      (found : lookup key = some next)
  | element {elements : SequenceView α} (index : Int64)
      (sequence : (view value).sequence = some elements)
      (found : elements.resolve index = some next)
  | field {record : RecordView α} (name : String) (isRecord : (view value).record = some record)
      (found : record.field name = some next)
  | keyed {record : RecordView α} (name key : String) (isRecord : (view value).record = some record)
      (found : record.keyed name key = some (some next))

/-- No record in the value, itself included, has a keyed accessor. -/
def HasNoKeyedAccessor (root : α) : Prop :=
  ∀ value, Relation.ReflTransGen LeadsTo root value →
    ∀ record, (view value).record = some record → ∀ name key, record.keyed name key = none

theorem eq_some_of_ofLookup_eq_found {lookup : Option α} {next : α}
    (h : Outcome.ofLookup lookup = .found next) : lookup = some next := by
  cases lookup with
  | none => cases h
  | some value =>
    rw [Outcome.ofLookup] at h
    split at h
    · cases h
    · cases h
      rfl

theorem leadsTo_of_flatStep {value next : α} {component : Component}
    (h : flatStep value component = .found next) : LeadsTo value next := by
  cases component with
  | property name =>
    rw [flatStep, propertyOf] at h
    split at h
    · next lookup mapping => exact .entry name mapping (eq_some_of_ofLookup_eq_found h)
    · split at h
      · next record isRecord => exact .field name isRecord (eq_some_of_ofLookup_eq_found h)
      · cases h
  | index index =>
    rw [flatStep, elementOf] at h
    split at h
    · next elements sequence => exact .element index sequence (eq_some_of_ofLookup_eq_found h)
    · cases h
  | key key =>
    rw [flatStep, entryOf] at h
    split at h
    · next lookup mapping => exact .entry key mapping (eq_some_of_ofLookup_eq_found h)
    · cases h

/-- A flat walk does not leave the value it starts from. -/
theorem within_of_flatWalk {components : List Component} {value last : α}
    (h : (flatWalk components value).outcome = .found last) :
    Relation.ReflTransGen LeadsTo value last := by
  induction components generalizing value with
  | nil =>
    cases h
    exact .refl
  | cons component rest ih =>
    rw [outcome_flatWalk_cons] at h
    obtain ⟨next, step, onward⟩ := Outcome.bind_eq_found_iff.mp h
    exact .head (leadsTo_of_flatStep step) (ih onward)

namespace HasNoKeyedAccessor

theorem keyedAnswer?_eq_none {root : α} (h : HasNoKeyedAccessor root) (name key : String) :
    keyedAnswer? root name key = none := by
  rw [keyedAnswer?]
  split
  · rfl
  · cases isRecord : (view root).record with
    | none => rfl
    | some record => exact h root .refl record isRecord name key

theorem of_within {root value : α} (h : HasNoKeyedAccessor root)
    (within : Relation.ReflTransGen LeadsTo root value) : HasNoKeyedAccessor value :=
  fun inner inValue ↦ h inner (within.trans inValue)

/-- A value has no keyed accessor in it if its own record has none and the values that it leads to
have none in them. -/
theorem of_leadsTo {root : α}
    (own : ∀ record, (view root).record = some record → ∀ name key, record.keyed name key = none)
    (parts : ∀ next, LeadsTo root next → HasNoKeyedAccessor next) : HasNoKeyedAccessor root := by
  intro value within
  rcases within.cases_head with rfl | ⟨next, leads, onward⟩
  · exact own
  · exact parts next leads value onward

end HasNoKeyedAccessor

/-! ## The two walks -/

/-- **The flat walk and the walk over the segments stop together.** -/
theorem regroup_flatWalk {root : α} (keyless : HasNoKeyedAccessor root) (segments : List Segment) :
    (flatWalk (segments.flatMap Segment.components) root).regroup segments
      = some (walk segments root) := by
  induction segments generalizing root with
  | nil => rfl
  | cons segment rest ih =>
    -- the flat walk ends within the components of this segment, or else it goes on from the value
    -- that the segment leads to; then the positions of the rest count from there
    rw [List.flatMap_cons, flatWalk_append, walk,
      advance_eq_outcome_flatWalk keyless.keyedAnswer?_eq_none segment]
    cases stop : flatWalk segment.components root with
    | reached next =>
      have within : Relation.ReflTransGen LeadsTo root next :=
        within_of_flatWalk (by rw [stop]; rfl)
      rw [FlatStop.andThen, regroup_behind, ih (keyless.of_within within)]
      rfl
    | absent position =>
      have inside : position < segment.components.length :=
        lt_length_of_position?_flatWalk (by rw [stop]; rfl)
      rw [FlatStop.andThen, FlatStop.regroup, owners_of_lt inside]
      rfl
    | mismatch position expected actual =>
      have inside : position < segment.components.length :=
        lt_length_of_position?_flatWalk (by rw [stop]; rfl)
      rw [FlatStop.andThen, FlatStop.regroup, owners_of_lt inside]
      rfl

variable {root : α} {path : Path} {position : Nat}

theorem result_of_flatWalk_eq_reached (notNil : (view root).isNil = false)
    (keyless : HasNoKeyedAccessor root) (policy : AbsencePolicy) (source : String) {value : α}
    (stop : flatWalk path.components root = .reached value) :
    (evaluate policy source path.segments root).result = .ok (some value) := by
  have together := regroup_flatWalk keyless path.segments
  rw [← Path.components, stop, FlatStop.regroup, Option.some.injEq] at together
  rw [result_evaluate policy source path.segments notNil, ← together]
  rfl

theorem result_of_flatWalk_eq_absent (notNil : (view root).isNil = false)
    (keyless : HasNoKeyedAccessor root) (policy : AbsencePolicy) (source : String)
    (stop : flatWalk path.components root = .absent position) :
    ∃ segment rest, (owners path.segments)[position]? = some (segment, rest) ∧
      (evaluate policy source path.segments root).result
        = if rest = [] ∨ policy = .passthrough then .ok none
          else .error (.noSuchProperty segment.text source) := by
  have together := regroup_flatWalk keyless path.segments
  rw [← Path.components, stop, FlatStop.regroup, Option.map_eq_some_iff] at together
  obtain ⟨⟨segment, rest⟩, owner, together⟩ := together
  refine ⟨segment, rest, owner, ?_⟩
  rw [result_evaluate policy source path.segments notNil, ← together]
  by_cases hrest : rest = []
  · rw [hrest, Stop.result_absent_nil, if_pos (.inl rfl)]
  · rw [Stop.result_absent_of_ne_nil hrest]
    cases policy with
    | fail => rw [if_neg (by simp [hrest])]
    | passthrough => rw [if_pos (.inr rfl)]

theorem result_of_flatWalk_eq_mismatch (notNil : (view root).isNil = false)
    (keyless : HasNoKeyedAccessor root) (policy : AbsencePolicy) (source : String)
    {expected : Shape} {actual : String}
    (stop : flatWalk path.components root = .mismatch position expected actual) :
    ∃ segment rest, (owners path.segments)[position]? = some (segment, rest) ∧
      (evaluate policy source path.segments root).result
        = .error (.type (.mismatch segment.name? expected actual)) := by
  have together := regroup_flatWalk keyless path.segments
  rw [← Path.components, stop, FlatStop.regroup, Option.map_eq_some_iff] at together
  obtain ⟨⟨segment, rest⟩, owner, together⟩ := together
  refine ⟨segment, rest, owner, ?_⟩
  rw [result_evaluate policy source path.segments notNil, ← together]
  rfl

theorem result_eq_ok_some_iff_flatWalk (notNil : (view root).isNil = false)
    (keyless : HasNoKeyedAccessor root) (policy : AbsencePolicy) (source : String) (value : α) :
    (evaluate policy source path.segments root).result = .ok (some value)
      ↔ flatWalk path.components root = .reached value := by
  refine ⟨fun found ↦ ?_, result_of_flatWalk_eq_reached notNil keyless policy source⟩
  cases stop : flatWalk path.components root with
  | reached last =>
    rw [result_of_flatWalk_eq_reached notNil keyless policy source stop] at found
    cases found
    rfl
  | absent position =>
    obtain ⟨segment, rest, -, result⟩ :=
      result_of_flatWalk_eq_absent notNil keyless policy source stop
    rw [result] at found
    split at found <;> cases found
  | mismatch position expected actual =>
    obtain ⟨segment, rest, -, result⟩ :=
      result_of_flatWalk_eq_mismatch notNil keyless policy source stop
    rw [result] at found
    cases found

/-- An evaluation fails with a fault of type exactly where the flat walk meets a value of the wrong
shape. -/
theorem result_eq_type_fault_iff_flatWalk (notNil : (view root).isNil = false)
    (keyless : HasNoKeyedAccessor root) (policy : AbsencePolicy) (source : String) :
    (∃ fault, (evaluate policy source path.segments root).result = .error (.type fault))
      ↔ ∃ position expected actual,
        flatWalk path.components root = .mismatch position expected actual := by
  constructor
  · rintro ⟨fault, failed⟩
    cases stop : flatWalk path.components root with
    | reached last =>
      rw [result_of_flatWalk_eq_reached notNil keyless policy source stop] at failed
      cases failed
    | absent position =>
      obtain ⟨segment, rest, -, result⟩ :=
        result_of_flatWalk_eq_absent notNil keyless policy source stop
      rw [result] at failed
      split at failed <;> cases failed
    | mismatch position expected actual => exact ⟨position, expected, actual, rfl⟩
  · rintro ⟨position, expected, actual, stop⟩
    obtain ⟨segment, rest, -, result⟩ :=
      result_of_flatWalk_eq_mismatch notNil keyless policy source stop
    exact ⟨_, result⟩

/-- **Segments refine components.** From a value in which no record has a keyed accessor, an
evaluation finds what the flat walk ends on. It fails with a fault of type where the flat walk
meets a value of the wrong shape, and the fault names that shape and the name of the type found.
Where the flat walk comes to nothing, the segment that the component belongs to is the last one or
the policy decides. -/
theorem result_follows_flatWalk {root : α} (notNil : (view root).isNil = false)
    (keyless : HasNoKeyedAccessor root) (path : Path) (policy : AbsencePolicy) (source : String) :
    (∀ value, (evaluate policy source path.segments root).result = .ok (some value)
      ↔ flatWalk path.components root = .reached value) ∧
    ((∃ fault, (evaluate policy source path.segments root).result = .error (.type fault))
      ↔ ∃ position expected actual,
        flatWalk path.components root = .mismatch position expected actual) ∧
    (∀ position expected actual,
      flatWalk path.components root = .mismatch position expected actual →
        ∃ segment rest, (owners path.segments)[position]? = some (segment, rest) ∧
          (evaluate policy source path.segments root).result
            = .error (.type (.mismatch segment.name? expected actual))) ∧
    (∀ position, flatWalk path.components root = .absent position →
      ∃ segment rest, (owners path.segments)[position]? = some (segment, rest) ∧
        (evaluate policy source path.segments root).result
          = if rest = [] ∨ policy = .passthrough then .ok none
            else .error (.noSuchProperty segment.text source)) :=
  ⟨result_eq_ok_some_iff_flatWalk notNil keyless policy source,
    result_eq_type_fault_iff_flatWalk notNil keyless policy source,
    fun _ _ _ ↦ result_of_flatWalk_eq_mismatch notNil keyless policy source,
    fun _ ↦ result_of_flatWalk_eq_absent notNil keyless policy source⟩

end Keyless

/-! ## Values of a host program -/

theorem hasNoKeyedAccessor_json (root : Json) : HasNoKeyedAccessor root := by
  rintro (_ | _ | _ | _ | _ | _) - record isRecord <;> cases isRecord

theorem hasNoKeyedAccessor_scalar (value : Scalar) : HasNoKeyedAccessor (Host.scalar value) := by
  apply HasNoKeyedAccessor.of_leadsTo
  · intro record isRecord
    cases isRecord
  · rintro next (⟨key, view, found⟩ | ⟨index, view, found⟩ | ⟨name, view, found⟩ |
      ⟨name, key, view, found⟩)
    all_goals cases view

theorem hasNoKeyedAccessor_sequence (type : SequenceType) {items : List Host}
    (each : ∀ item ∈ items, HasNoKeyedAccessor item) :
    HasNoKeyedAccessor (Host.sequence type items) := by
  apply HasNoKeyedAccessor.of_leadsTo
  · intro record isRecord
    cases isRecord
  · rintro next (⟨key, view, found⟩ | ⟨index, view, found⟩ | ⟨name, view, found⟩ |
      ⟨name, key, view, found⟩)
    case element =>
      cases view
      obtain ⟨position, -, element⟩ := Option.bind_eq_some_iff.mp found
      exact each next (List.mem_of_getElem? element)
    all_goals cases view

theorem hasNoKeyedAccessor_ofRecord (typeName : String) {fields : List (String × Host)}
    (each : ∀ field ∈ fields, HasNoKeyedAccessor field.2) :
    HasNoKeyedAccessor (Host.ofRecord typeName fields []) := by
  apply HasNoKeyedAccessor.of_leadsTo
  · intro record isRecord name key
    cases isRecord
    rfl
  · rintro next (⟨key, view, found⟩ | ⟨index, view, found⟩ | ⟨name, view, found⟩ |
      ⟨name, key, view, found⟩)
    case field =>
      cases view
      obtain ⟨before, behind, rfl, -⟩ := List.lookup_eq_some_iff.mp found
      exact each (name, next) (by simp)
    all_goals cases view
    cases found

/-- An index that leads to nothing in the middle of a path, in a record without keyed accessors: the
flat walk stops at its second component, which belongs to the first segment. -/
theorem result_element_missing :
    HasNoKeyedAccessor (Host.ofRecord "Row" [("a", .sequence .vector [.ofString "x"])] []) ∧
      (evaluate .fail "a[1].b" [.index (some "a") 1, .property "b"]
        (Host.ofRecord "Row" [("a", .sequence .vector [.ofString "x"])] [])).result
          = .error (.noSuchProperty "a[1]" "a[1].b") := by
  have keyless : HasNoKeyedAccessor
      (Host.ofRecord "Row" [("a", .sequence .vector [.ofString "x"])] []) := by
    apply hasNoKeyedAccessor_ofRecord
    rw [List.forall_mem_singleton]
    apply hasNoKeyedAccessor_sequence
    rw [List.forall_mem_singleton]
    exact hasNoKeyedAccessor_scalar _
  obtain ⟨segment, rest, owner, result⟩ :=
    (result_follows_flatWalk rfl keyless ⟨[.index (some "a") 1, .property "b"]⟩ .fail
      "a[1].b").2.2.2 1 rfl
  cases owner
  exact ⟨keyless, result⟩

end PropertyPath
