import PropertyPath.Proofs.Path.WellFormed

/-!
# The flat view determines the path

Flattening forgets where segments end, and a plain property with a bare suffix behind it looks like
a property that owns the suffix. Only the second one is a path, so of a path nothing is forgotten:
`segmentsOfComponents` gives every suffix the name directly in front of it, and has to be right,
since no plain property stands there.

The text is the same whichever of the two is meant. It only depends on the components, and dots are
put in front of names, not of segments.
-/

namespace PropertyPath

/-! ## Segments of components -/

/-- The segments that components belong to, each suffix with the name directly in front of it. The
name that was read last waits as `owner`. -/
def segmentsOfComponents (owner : Option String) : List Component → List Segment
  | [] => (owner.map Segment.property).toList
  | .property name :: rest =>
    (owner.map Segment.property).toList ++ segmentsOfComponents (some name) rest
  | .index position :: rest => .index owner position :: segmentsOfComponents none rest
  | .key text :: rest => .keyed owner text :: segmentsOfComponents none rest

section Segments

variable {segments : List Segment} {components : List Component}

/-- A name that waits is a plain property if no suffix follows. -/
theorem segmentsOfComponents_some (name : String)
    (h : ∀ first ∈ components.head?, ∃ other, first = .property other) :
    segmentsOfComponents (some name) components
      = .property name :: segmentsOfComponents none components := by
  rcases components with _ | ⟨first, rest⟩
  · rfl
  · obtain ⟨other, rfl⟩ := h first rfl
    rfl

theorem exists_eq_property_of_head? (h : ∀ next ∈ segments.head?, next.name? ≠ none) :
    ∀ first ∈ (segments.flatMap Segment.components).head?, ∃ name, first = .property name := by
  intro first hfirst
  rcases segments with _ | ⟨next, rest⟩
  · cases hfirst
  · obtain ⟨name, hname⟩ := Option.ne_none_iff_exists'.mp (h next rfl)
    rw [List.flatMap_cons, Segment.components, hname] at hfirst
    exact ⟨name, (Option.some.inj hfirst).symm⟩

/-- **Flattening is undone**, where no bare suffix stands behind a plain property. -/
theorem segmentsOfComponents_flatMap (h : segments.IsChain Segment.MayPrecede) :
    segmentsOfComponents none (segments.flatMap Segment.components) = segments := by
  induction segments with
  | nil => rfl
  | cons segment rest ih =>
    obtain ⟨hnext, hrest⟩ := List.isChain_cons.mp h
    have onward := ih hrest
    rcases segment with name | ⟨_ | name, position⟩ | ⟨_ | name, key⟩
    · -- only here does it matter what stands behind the segment
      have named : ∀ next ∈ rest.head?, next.name? ≠ none :=
        fun next mem bare ↦ hnext next mem bare rfl
      have waits := segmentsOfComponents_some name (exists_eq_property_of_head? named)
      rw [onward] at waits
      exact waits
    all_goals exact congrArg _ onward

end Segments

/-! ## The text of components -/

/-- The text of a component that is not the first one: a name has a dot in front. -/
def Component.followingText : Component → String
  | .property name => "." ++ name
  | component => component.text

/-- The text of components in a row. -/
def textOfComponents : List Component → String
  | [] => ""
  | first :: rest => first.text ++ String.join (rest.map Component.followingText)

section Texts

variable {components : List Component}

theorem textOfComponents_append (ne : components ≠ []) (rest : List Component) :
    textOfComponents (components ++ rest)
      = textOfComponents components ++ String.join (rest.map Component.followingText) := by
  obtain ⟨first, more, rfl⟩ := List.exists_cons_of_ne_nil ne
  rw [List.cons_append, textOfComponents, textOfComponents, List.map_append, String.join_append,
    String.append_assoc]

/-- Within a segment no dot is put. -/
theorem text_eq_textOfComponents (segment : Segment) :
    segment.text = textOfComponents segment.components := by
  rcases segment with name | ⟨_ | name, position⟩ | ⟨_ | name, key⟩ <;>
    simp [Segment.text, Segment.components, Segment.name?, Segment.suffix?, textOfComponents,
      Component.followingText, Component.text]

theorem followingText_eq_join (segment : Segment) :
    Path.followingText segment
      = String.join (segment.components.map Component.followingText) := by
  rcases segment with name | ⟨_ | name, position⟩ | ⟨_ | name, key⟩ <;>
    simp [Path.followingText, Segment.text, Segment.components, Segment.name?, Segment.suffix?,
      Component.followingText, Component.text, String.append_assoc]

theorem join_followingText (segments : List Segment) :
    String.join (segments.map Path.followingText)
      = String.join ((segments.flatMap Segment.components).map Component.followingText) := by
  induction segments with
  | nil => rfl
  | cons segment rest ih =>
    rw [List.map_cons, String.join_cons, ih, followingText_eq_join, List.flatMap_cons,
      List.map_append, String.join_append]

theorem textOf_eq_textOfComponents (segments : List Segment) :
    Path.textOf segments = textOfComponents (segments.flatMap Segment.components) := by
  rcases segments with _ | ⟨first, rest⟩
  · rfl
  · rw [Path.textOf, List.flatMap_cons, textOfComponents_append first.components_ne_nil,
      text_eq_textOfComponents, join_followingText]

end Texts

/-! ## The main result -/

theorem segmentsOfComponents_components {path : Path} (h : path.IsMade) :
    segmentsOfComponents none path.components = path.segments :=
  segmentsOfComponents_flatMap (wellFormed_of_isMade h).chain

/-- **The flat view determines the path.** Paths with the same components are the same, because
the segments can be made again from the components. The canonical text of a path is that of its
components in a row, with a dot in front of each name that is not at the very front. -/
theorem flat_view_determines_path :
    (∀ path : Path, path.IsMade → segmentsOfComponents none path.components = path.segments) ∧
    (∀ path path' : Path, path.IsMade → path'.IsMade → path.components = path'.components →
      path = path') ∧
    ∀ path : Path, path.text = textOfComponents path.components := by
  refine ⟨fun path ↦ segmentsOfComponents_components, ?_, ?_⟩
  · intro path path' h h' same
    have segments : path.segments = path'.segments := by
      rw [← segmentsOfComponents_components h, same, segmentsOfComponents_components h']
    exact congrArg Path.mk segments
  · intro path
    exact textOf_eq_textOfComponents path.segments

/-- Reading and checking make the same path. The name owns the index: with the index as a segment of
its own there would be a second row of segments with the same components, but that is no path. -/
theorem not_isMade_bare_index_behind_property :
    (∃ read checked, Path.parse " pow[-0]" = .ok read ∧
      Path.ofSegments [.index (some "pow") 0] = .ok checked ∧ read = checked ∧
      segmentsOfComponents none checked.components = [.index (some "pow") 0]) ∧
    (Path.mk [.property "pow", .index none 0]).components = [.property "pow", .index 0] ∧
    ¬(Path.mk [.property "pow", .index none 0]).IsMade := by
  obtain ⟨remade, determined, -⟩ := flat_view_determines_path
  have parse : Path.parse " pow[-0]" = .ok ⟨[.index (some "pow") 0]⟩ := by decide +kernel
  have check : Path.ofSegments [.index (some "pow") 0] = .ok ⟨[.index (some "pow") 0]⟩ := rfl
  refine ⟨⟨_, _, parse, check, ?_, ?_⟩, rfl, ?_⟩
  · exact determined _ _ (.ofText parse) (.ofSegments check) rfl
  · exact remade _ (.ofSegments check)
  · intro bare
    cases determined _ _ bare (.ofSegments check) rfl

end PropertyPath
