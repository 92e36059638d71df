import PropertyPath.Proofs.Query.Simulation
import PropertyPath.Value.Host

/-!
# Documents in other representations

A host program can hold what a document says in containers of its own. `Host.Represents` compares
the two node by node: an array is any sequence with the same elements in order, an object is any
mapping with the same keys, whatever order they stand in, null is any of the nil values, and a
scalar is a value without capabilities. What a scalar of the program and the scalar that it stands
for must agree in is left open (`readings`), since no path asks a scalar anything.

The relation looks at what a host value is and never at what it shows. That the views of the two
agree is what makes it a simulation (`isSimulation_represents`); only the names of types differ.
-/

namespace PropertyPath

open Walkable (view)

/-! ## Representations -/

/-- The documents without parts, null apart. -/
inductive Json.IsScalar : Json → Prop
  | bool (value : Bool) : IsScalar (.bool value)
  | number (value : JsonNumber) : IsScalar (.number value)
  | string (value : String) : IsScalar (.string value)

namespace Host

/-- The values that stand for null. -/
inductive IsNull : Host → Prop
  | unit : IsNull .unit
  | absent : IsNull .absent
  | json : IsNull (.json .null)

/-- The values without capabilities that are not nil. -/
inductive IsScalar : Host → Prop
  | standard (value : Scalar) : IsScalar (.scalar value)
  | json {node : Json} (scalar : node.IsScalar) : IsScalar (.json node)
  | custom (typeName : String) (scalars : Scalars) :
    IsScalar (.custom { typeName := typeName, scalars := scalars })

/-- The sequences, with their items. -/
inductive HasItems : Host → List Host → Prop
  | standard (type : SequenceType) (items : List Host) : HasItems (.sequence type items) items
  | json (nodes : List Json) : HasItems (.json (.array nodes)) (nodes.map .json)

/-- A table of documents as a table of host values. -/
def ofMembers (members : List (String × Json)) : List (String × Host) :=
  members.map fun member ↦ (member.1, .json member.2)

/-- The mappings, with their entries. -/
inductive HasEntries : Host → List (String × Host) → Prop
  | standard (type : MappingType) (entries : List (String × Host)) :
    HasEntries (.mapping type entries) entries
  | json (members : List (String × Json)) :
    HasEntries (.json (.object members)) (ofMembers members)
  | jsonObject (members : List (String × Json)) :
    HasEntries (.jsonObject members) (ofMembers members)

/-- The value represents the document node by node. -/
inductive Represents (readings : Scalars → Scalars → Prop) : Host → Json → Prop
  | null {host : Host} (nil : host.IsNull) : Represents readings host .null
  | scalar {host : Host} {node : Json} (scalar : host.IsScalar) (scalar' : node.IsScalar)
    (agree : readings host.view.scalars node.view.scalars) : Represents readings host node
  | array {host : Host} {items : List Host} {nodes : List Json} (sequence : host.HasItems items)
    (each : List.Forall₂ (Represents readings) items nodes) :
    Represents readings host (.array nodes)
  | object {host : Host} {entries : List (String × Host)} {members : List (String × Json)}
    (mapping : host.HasEntries entries)
    (sameKeys : ∀ key, (entries.lookup key).isSome = (members.lookup key).isSome)
    (each : ∀ key value node, entries.lookup key = some value → members.lookup key = some node →
      Represents readings value node) : Represents readings host (.object members)
  | wrapped {value : Host} {node : Json} (wrapper : Wrapper)
    (inner : Represents readings value node) : Represents readings (.wrapped wrapper value) node

end Host

section Views

variable {readings : Scalars → Scalars → Prop} {host : Host} {node : Json}

theorem lookup_ofMembers (members : List (String × Json)) (key : String) :
    (Host.ofMembers members).lookup key = (members.lookup key).map .json := by
  induction members with
  | nil => rfl
  | cons member members ih =>
    rw [Host.ofMembers, List.map_cons, List.lookup_cons, List.lookup_cons]
    cases key == member.1 with
    | true => rfl
    | false => exact ih

/-! ## What representations show -/

theorem view_of_isScalar (h : host.IsScalar) : (view host).isNil = false ∧
    (view host).mapping = none ∧ (view host).sequence = none ∧ (view host).record = none := by
  rcases h with value | ⟨⟨_⟩⟩ | ⟨typeName, scalars⟩
  all_goals exact ⟨rfl, rfl, rfl, rfl⟩

theorem view_of_hasItems {items : List Host} (h : host.HasItems items) :
    (view host).isNil = false ∧ (view host).mapping = none ∧
      (view host).sequence = some (.ofList items) ∧ (view host).record = none := by
  cases h with
  | standard type items => exact ⟨rfl, rfl, rfl, rfl⟩
  | json nodes => exact ⟨rfl, rfl, congrArg some (SequenceView.map_ofList Host.json nodes), rfl⟩

theorem view_of_hasEntries {entries : List (String × Host)} (h : host.HasEntries entries) :
    (view host).isNil = false ∧ (view host).mapping = some (entries.lookup ·) ∧
      (view host).sequence = none ∧ (view host).record = none := by
  cases h with
  | standard type entries => exact ⟨rfl, rfl, rfl, rfl⟩
  | json members =>
    simp only [lookup_ofMembers]
    exact ⟨rfl, rfl, rfl, rfl⟩
  | jsonObject members =>
    simp only [lookup_ofMembers]
    exact ⟨rfl, rfl, rfl, rfl⟩

theorem view_of_json_isScalar (h : node.IsScalar) : (view node).isNil = false ∧
    (view node).mapping = none ∧ (view node).sequence = none := by
  cases h <;> exact ⟨rfl, rfl, rfl⟩

theorem rel_lookup {R : Host → Json → Prop} {entries : List (String × Host)}
    {members : List (String × Json)} {key : String}
    (sameKeys : (entries.lookup key).isSome = (members.lookup key).isSome)
    (each : ∀ value node, entries.lookup key = some value → members.lookup key = some node →
      R value node) : Option.Rel R (entries.lookup key) (members.lookup key) := by
  generalize entries.lookup key = found at sameKeys each ⊢
  generalize members.lookup key = found' at sameKeys each ⊢
  cases found with
  | none =>
    obtain rfl : found' = none := by simpa using sameKeys.symm
    exact .none
  | some value =>
    obtain ⟨node, rfl⟩ := Option.isSome_iff_exists.mp sameKeys.symm
    exact .some (each value node rfl rfl)

/-- A value that represents a document shows the same, up to the representation and apart from the
name of its type. It is no record, as no document is. -/
theorem views_of_represents {host : Host} {node : Json} (h : host.Represents readings node) :
    (view host).isNil = (view node).isNil ∧
      View.Rel (fun _ _ ↦ True) (Option.Rel (Host.Represents readings)) (view host) (view node) ∧
      (view host).record = none := by
  match h with
  | .wrapped _ inner =>
    have within := views_of_represents inner
    exact within
  | .null nil => cases nil <;> exact ⟨rfl, ⟨trivial, .none, .none⟩, rfl⟩
  | .scalar scalar scalar' agree =>
    obtain ⟨notNil, noMapping, noSequence, noRecord⟩ := view_of_isScalar scalar
    obtain ⟨notNil', noMapping', noSequence'⟩ := view_of_json_isScalar scalar'
    refine ⟨notNil.trans notNil'.symm, ⟨trivial, ?_, ?_⟩, noRecord⟩
    · rw [noMapping, noMapping']
      exact .none
    · rw [noSequence, noSequence']
      exact .none
  | .array sequence each =>
    obtain ⟨notNil, noMapping, items, noRecord⟩ := view_of_hasItems sequence
    refine ⟨notNil, ⟨trivial, ?_, ?_⟩, noRecord⟩
    · rw [noMapping]
      exact .none
    · rw [items]
      exact .some (.ofList each)
  | .object mapping sameKeys each =>
    obtain ⟨notNil, entries, noSequence, noRecord⟩ := view_of_hasEntries mapping
    refine ⟨notNil, ⟨trivial, ?_, ?_⟩, noRecord⟩
    · rw [entries]
      exact .some fun key ↦ rel_lookup (sameKeys key) (each key)
    · rw [noSequence]
      exact .none

theorem isSimulation_represents (readings : Scalars → Scalars → Prop) :
    IsSimulation (fun _ _ ↦ True) (Option.Rel (Host.Represents readings))
      (Host.Represents readings) where
  isNil represents := (views_of_represents represents).1
  views represents _ := (views_of_represents represents).2.1
  records {value node} represents _ _ := by
    have noRecord : (view node).record = none := by cases node <;> rfl
    rw [(views_of_represents represents).2.2, noRecord]
    exact .none
  ofLookup := Outcome.rel_ofLookup fun represents ↦ (views_of_represents represents).1

theorem sizeOf_lt_of_lookup_eq_some {members : List (String × Json)} {key : String}
    (found : members.lookup key = some node) : sizeOf node < sizeOf members := by
  obtain ⟨before, behind, rfl, -⟩ := List.lookup_eq_some_iff.mp found
  have mem : (key, node) ∈ before ++ (key, node) :: behind := by simp
  have smaller := List.sizeOf_lt_of_mem mem
  rw [Prod.mk.sizeOf_spec] at smaller
  omega

/-- A document represents itself, whatever is asked of the scalars, as long as each agrees with
itself. -/
theorem represents_json (refl : ∀ scalars, readings scalars scalars) (node : Json) :
    (Host.json node).Represents readings node := by
  match node with
  | .null => exact .null .json
  | .bool value => exact .scalar (.json (.bool value)) (.bool value) (refl _)
  | .number value => exact .scalar (.json (.number value)) (.number value) (refl _)
  | .string value => exact .scalar (.json (.string value)) (.string value) (refl _)
  | .array nodes =>
    refine .array (.json nodes) (List.forall₂_map_left_iff.mpr (List.forall₂_same.mpr ?_))
    intro node mem
    exact represents_json refl node
  | .object members =>
    refine .object (.json members) ?_ ?_
    · intro key
      rw [lookup_ofMembers, Option.isSome_map]
    · intro key value node found found'
      have smaller := sizeOf_lt_of_lookup_eq_some found'
      rw [lookup_ofMembers, found'] at found
      cases found
      exact represents_json refl node
termination_by sizeOf node
decreasing_by
  · have smaller := List.sizeOf_lt_of_mem mem
    simp only [Json.array.sizeOf_spec]
    omega
  · simp only [Json.object.sizeOf_spec]
    omega

/-! ## The main result -/

/-- **Evaluation does not depend on the representation.** A host value and the document that it
represents lead to nothing together, and they lead together to values of which the first represents
the second. They fail together with faults of one kind, which are the same but for the names of
types that a type fault quotes. -/
theorem result_of_represents (h : host.Represents readings node) (policy : AbsencePolicy)
    (source : String) (segments : List Segment) :
    ResultRel (fun _ _ ↦ True) (Host.Represents readings)
        (evaluate policy source segments host).result
        (evaluate policy source segments node).result ∧
      ∀ fault fault', (evaluate policy source segments host).result = .error fault →
        (evaluate policy source segments node).result = .error fault' →
          fault.kind = fault'.kind ∧ (fault.kind ≠ .type → fault.message = fault'.message) := by
  have results := (isSimulation_represents readings).resultRel_evaluate h policy source segments
  refine ⟨results, ?_⟩
  intro fault fault' failed failed'
  rw [failed, failed'] at results
  cases results with
  | fault related =>
    refine ⟨related.kind_eq, ?_⟩
    intro kind
    rw [related.eq_of_kind_ne_type kind]

end Views

/-- A map with two keys: a deque of an optional string that is present and one that is not, and
nothing. -/
def Host.labels : Host :=
  .mapping .hashed [("b", .unit),
    ("a", .sequence .deque [.wrapped .present (.ofString "x"), .absent])]

/-- The same as a document, which lists the keys in another order. -/
def Json.labels : Json := .object [("a", .array [.string "x", .null]), ("b", .null)]

/-- An index behind the string fails on both sides, each time with the name of its own type. -/
theorem result_of_hash_map :
    Host.labels.Represents Eq Json.labels ∧
      (evaluate .fail "a[0][0]" [.index (some "a") 0, .index none 0] Host.labels).result
        = .error (.type (.mismatch none .arrayLike "String")) ∧
      (evaluate .fail "a[0][0]" [.index (some "a") 0, .index none 0] Json.labels).result
        = .error (.type (.mismatch none .arrayLike "string")) ∧
      ResultRel (fun _ _ ↦ True) (Host.Represents Eq)
        (evaluate .fail "a[0][0]" [.index (some "a") 0, .index none 0] Host.labels).result
        (evaluate .fail "a[0][0]" [.index (some "a") 0, .index none 0] Json.labels).result := by
  have items : (Host.sequence .deque [.wrapped .present (.ofString "x"), .absent]).Represents Eq
      (.array [.string "x", .null]) :=
    .array (.standard _ _)
      (.cons (.wrapped _ (.scalar (.standard _) (.string _) rfl)) (.cons (.null .absent) .nil))
  have represents : Host.labels.Represents Eq Json.labels := by
    refine .object (.standard _ _) ?_ ?_
    · intro key
      simp only [List.lookup_cons, List.lookup_nil]
      cases key == "a" <;> cases key == "b" <;> rfl
    · intro key value node found found'
      by_cases a : key = "a"
      · subst a
        cases found
        cases found'
        exact items
      · by_cases b : key = "b"
        · subst b
          cases found
          cases found'
          exact .null .unit
        · have notA := beq_eq_false_iff_ne.mpr a
          have notB := beq_eq_false_iff_ne.mpr b
          simp only [List.lookup_cons, List.lookup_nil, notA, notB] at found
          contradiction
  exact ⟨represents, rfl, rfl, (result_of_represents represents .fail "a[0][0]" _).1⟩

end PropertyPath
