import PropertyPath.Proofs.Path.WellFormed
import PropertyPath.Proofs.Query.FlatWalk

/-!
# Keys in place of names

The members of a document can be asked for by name or by key: `a.b` and `(a)(b)` lead to the same
value. They differ where there is no object to ask. A name then leads to nothing, and a key meets a
value of the wrong shape.

A segment with a name becomes two segments when the name is written as a key, so the paths are
compared by their components, of which there are equally many. The flat walks over the two rows of
components go side by side and stop at the same component, the one over keys perhaps with a mismatch
where the other one comes to nothing (`stricter_flatWalk_asKey`).
-/

namespace PropertyPath

open Walkable (view)

/-! ## Paths without names -/

/-- The same step with a key in place of a name. -/
def Component.asKey : Component → Component
  | .property name => .key name
  | component => component

/-- The segments that write the name of a segment as a key. -/
def Segment.withKeys : Segment → List Segment
  | .property name => [.keyed none name]
  | .index (some name) position => [.keyed none name, .index none position]
  | .index none position => [.index none position]
  | .keyed (some name) key => [.keyed none name, .keyed none key]
  | .keyed none key => [.keyed none key]

/-- The path with a key in place of each name. -/
def Path.withKeys (path : Path) : Path := ⟨path.segments.flatMap Segment.withKeys⟩

section Paths

variable {path : Path} {segment next : Segment}

theorem components_withKeys (path : Path) :
    path.withKeys.components = path.components.map Component.asKey := by
  have one : ∀ segment : Segment, segment.withKeys.flatMap Segment.components
      = segment.components.map Component.asKey := by
    rintro (name | ⟨_ | name, position⟩ | ⟨_ | name, key⟩) <;> rfl
  rw [Path.components, Path.withKeys, List.flatMap_assoc, Path.components, List.map_flatMap]
  simp only [one]

theorem isWritable_key_of_isName {name : String} (h : Grammar.IsName name.toList) :
    (Segment.keyed none name).IsWritable := by
  constructor
  · intro other named
    cases named
  · intro owner key eq
    cases eq
    intro paren
    exact absurd (Grammar.isNameChar_of_mem_name h _ paren) (by decide)

theorem isWritable_withKeys (h : segment.IsWritable) :
    ∀ next ∈ segment.withKeys, next.IsWritable := by
  have named : ∀ name ∈ segment.name?, (Segment.keyed none name).IsWritable :=
    fun name hname ↦ isWritable_key_of_isName (h.name name hname)
  rcases segment with name | ⟨_ | name, position⟩ | ⟨_ | name, key⟩
  · exact List.forall_mem_singleton.mpr (named name rfl)
  · exact List.forall_mem_singleton.mpr h
  · exact List.forall_mem_cons.mpr ⟨named name rfl, List.forall_mem_singleton.mpr ⟨nofun, nofun⟩⟩
  · exact List.forall_mem_singleton.mpr h
  · refine List.forall_mem_cons.mpr ⟨named name rfl, List.forall_mem_singleton.mpr ⟨nofun, ?_⟩⟩
    intro owner key eq
    cases eq
    exact h.key _ _ rfl

theorem suffix?_ne_none_of_mem_withKeys (h : next ∈ segment.withKeys) : next.suffix? ≠ none := by
  have suffixed : ∀ next ∈ segment.withKeys, next.suffix? ≠ none := by
    rcases segment with name | ⟨_ | name, position⟩ | ⟨_ | name, key⟩ <;>
      simp [Segment.withKeys, Segment.suffix?]
  exact suffixed next h

theorem withKeys_ne_nil (segment : Segment) : segment.withKeys ≠ [] := by
  rcases segment with name | ⟨_ | name, position⟩ | ⟨_ | name, key⟩ <;> exact List.cons_ne_nil _ _

theorem wellFormed_withKeys (h : WellFormed path.segments) : WellFormed path.withKeys.segments := by
  apply wellFormed_of_isWritable
  · obtain ⟨first, rest, eq⟩ := List.exists_cons_of_ne_nil h.ne_nil
    rw [Path.withKeys, eq, List.flatMap_cons]
    exact List.append_ne_nil_of_left_ne_nil (withKeys_ne_nil first) _
  · intro next hnext
    obtain ⟨segment, hsegment, hnext⟩ := List.mem_flatMap.mp hnext
    exact isWritable_withKeys (isWritable_of_mem h hsegment) next hnext
  · -- behind a suffix anything may stand
    apply List.Pairwise.isChain
    apply List.pairwise_of_forall_mem_list
    intro segment hsegment next _ _
    obtain ⟨owner, _, hsegment⟩ := List.mem_flatMap.mp hsegment
    exact suffix?_ne_none_of_mem_withKeys hsegment

end Paths

/-! ## Walks side by side -/

/-- The second walk stops at the same component as the first one. Where the first one comes to
nothing, the second one may meet a value of the wrong shape. -/
inductive FlatStop.Stricter {α : Type} : FlatStop α → FlatStop α → Prop
  | same (stop : FlatStop α) : Stricter stop stop
  | refused (position : Nat) (expected : Shape) (actual : String) :
    Stricter (absent position) (mismatch position expected actual)

section Walks

/-- Only where there is no object to ask do a name and a key make a difference. -/
theorem flatStep_asKey (node : Json) (component : Component) :
    flatStep node component.asKey = flatStep node component ∨
      flatStep node component = .absent ∧
        ∃ expected actual, flatStep node component.asKey = .mismatch expected actual := by
  cases component with
  | index position => exact .inl rfl
  | key key => exact .inl rfl
  | property name =>
    cases node with
    | object members => exact .inl rfl
    | _ => exact .inr ⟨rfl, _, _, rfl⟩

theorem FlatStop.Stricter.behind {stop stop' : FlatStop Json} (h : stop.Stricter stop')
    (count : Nat) : (stop.behind count).Stricter (stop'.behind count) := by
  cases h with
  | same stop => exact .same _
  | refused position expected actual => exact .refused _ _ _

/-- **Walks over names and over keys stop together.** -/
theorem stricter_flatWalk_asKey (components : List Component) (node : Json) :
    (flatWalk components node).Stricter (flatWalk (components.map Component.asKey) node) := by
  induction components generalizing node with
  | nil => exact .same _
  | cons component rest ih =>
    rw [List.map_cons, flatWalk, flatWalk]
    rcases flatStep_asKey node component with same | ⟨absent, expected, actual, refused⟩
    · rw [same]
      cases flatStep node component with
      | found next => exact (ih next).behind 1
      | absent => exact .same _
      | mismatch expected actual => exact .same _
    · rw [absent, refused]
      exact .refused 0 expected actual

theorem FlatStop.Stricter.eq_reached_iff {stop stop' : FlatStop Json} (h : stop.Stricter stop')
    (value : Json) : stop = .reached value ↔ stop' = .reached value := by
  cases h with
  | same stop => rfl
  | refused position expected actual => exact ⟨nofun, nofun⟩

/-! ## The main result -/

variable {node : Json} {path : Path} {policy : AbsencePolicy} {source source' : String}

/-- An evaluation that finds nothing is one whose flat walk comes to nothing. -/
theorem exists_flatWalk_eq_absent (notNil : (view node).isNil = false)
    (h : (evaluate policy source path.segments node).result = .ok none) :
    ∃ position, flatWalk path.components node = .absent position := by
  have keyless := hasNoKeyedAccessor_json node
  cases stop : flatWalk path.components node with
  | absent position => exact ⟨position, rfl⟩
  | reached value =>
    cases h.symm.trans (result_of_flatWalk_eq_reached notNil keyless policy source stop)
  | mismatch position expected actual =>
    obtain ⟨segment, rest, -, result⟩ :=
      result_of_flatWalk_eq_mismatch notNil keyless policy source stop
    cases h.symm.trans result

/-- Where keys find nothing that is passed over, names find nothing either. -/
theorem result_passthrough_of_withKeys (notNil : (view node).isNil = false)
    (h : (evaluate .passthrough source' path.withKeys.segments node).result = .ok none) :
    (evaluate .passthrough source path.segments node).result = .ok none := by
  obtain ⟨position, keys⟩ := exists_flatWalk_eq_absent notNil h
  have stricter := stricter_flatWalk_asKey path.components node
  rw [← components_withKeys, keys] at stricter
  generalize stop : flatWalk path.components node = names at stricter
  cases stricter
  obtain ⟨segment, rest, -, result⟩ := result_of_flatWalk_eq_absent notNil
    (hasNoKeyedAccessor_json node) .passthrough source stop
  rw [result, if_pos (.inr rfl)]

/-- **Keys can stand for names in a document.** The path with a key in place of each name passes the
checks. It leads to a value exactly if the path itself does, and to the same one; it is refused as
a fault of type if the path is; and if it comes to nothing and that is passed over, then so does the
path. -/
theorem keys_stand_for_names (h : path.IsMade) (node : Json) (policy : AbsencePolicy)
    (source source' : String) :
    Path.ofSegments path.withKeys.segments = .ok path.withKeys ∧
    (∀ value, (evaluate policy source path.segments node).result = .ok (some value)
      ↔ (evaluate policy source' path.withKeys.segments node).result = .ok (some value)) ∧
    ((∃ fault, (evaluate policy source path.segments node).result = .error (.type fault)) →
      ∃ fault, (evaluate policy source' path.withKeys.segments node).result
        = .error (.type fault)) ∧
    ((evaluate .passthrough source' path.withKeys.segments node).result = .ok none →
      (evaluate .passthrough source path.segments node).result = .ok none) := by
  have accepted : Path.ofSegments path.withKeys.segments = .ok path.withKeys :=
    ofSegments_eq_ok_iff.mpr ⟨wellFormed_withKeys (wellFormed_of_isMade h), rfl⟩
  cases nil : (view node).isNil with
  | true =>
    -- neither path is followed from nil
    simp [result_evaluate_of_isNil _ _ _ nil, accepted]
  | false =>
    have keyless := hasNoKeyedAccessor_json node
    have stricter := stricter_flatWalk_asKey path.components node
    rw [← components_withKeys] at stricter
    refine ⟨accepted, fun value ↦ ?_, ?_, result_passthrough_of_withKeys nil⟩
    · rw [result_eq_ok_some_iff_flatWalk nil keyless, result_eq_ok_some_iff_flatWalk nil keyless]
      exact stricter.eq_reached_iff value
    · rw [result_eq_type_fault_iff_flatWalk nil keyless,
        result_eq_type_fault_iff_flatWalk nil keyless]
      rintro ⟨position, expected, actual, names⟩
      rw [names] at stricter
      generalize flatWalk path.withKeys.components node = keys at stricter ⊢
      cases stricter
      exact ⟨position, expected, actual, rfl⟩

/-- A name behind an index, in a document where it leads to a value. -/
theorem withKeys_index_behind_name :
    (Path.mk [.index (some "a") 0, .property "b"]).IsMade ∧
      Path.ofSegments [.keyed none "a", .index none 0, .keyed none "b"]
        = .ok ⟨[.keyed none "a", .index none 0, .keyed none "b"]⟩ ∧
      (evaluate .fail "(a)[0](b)" [.keyed none "a", .index none 0, .keyed none "b"]
        (Json.object [("a", .array [.object [("b", .string "x")]])])).result
          = .ok (some (.string "x")) := by
  have checked : Path.ofSegments [.index (some "a") 0, .property "b"] = .ok ⟨_⟩ := rfl
  have made : (Path.mk [.index (some "a") 0, .property "b"]).IsMade := .ofSegments checked
  obtain ⟨accepted, found, -⟩ := keys_stand_for_names made
    (.object [("a", .array [.object [("b", .string "x")]])]) .fail "a[0].b" "(a)[0](b)"
  exact ⟨made, accepted, (found _).mp rfl⟩

end Walks

end PropertyPath
