import PropertyPath.Proofs.Query.Simulation
import PropertyPath.Value.Host

/-!
# Wrapped values

A value can stand behind any number of wrappers: it can be the value of an optional one, or what a
pointer of some kind points to. A wrapper shows what it holds, and nothing else is known of the
types of the values here (`Wrappable`).

`IsWrapping R` says of a relation that it only ever adds wrappers: the second of two related values
is a finite stack of wrappers around a value that shows the same as the first, up to wrappers that
are added to what the two lead to. That makes `R` a simulation. `Host.Wraps` is the relation of this
kind between the values of a host program, read off how they are built.
-/

namespace PropertyPath

open Walkable (view)

/-- A type in which values can stand behind wrappers, which show what they hold. -/
class Wrappable (α : Type) extends Walkable α where
  wrap : Wrapper → α → α
  view_wrap : ∀ wrapper value, view (wrap wrapper value) = view value

section Wrapping

variable {α β : Type} [Walkable α] [Wrappable β]

/-- A value behind a stack of wrappers, the first of them outermost. -/
def wrapAll (wrappers : List Wrapper) (value : β) : β := wrappers.foldr Wrappable.wrap value

theorem view_wrapAll (wrappers : List Wrapper) (value : β) :
    view (wrapAll wrappers value) = view value := by
  induction wrappers with
  | nil => rfl
  | cons wrapper wrappers ih =>
    rw [wrapAll, List.foldr_cons, Wrappable.view_wrap]
    exact ih

/-- Whether the second of two related values is always the first one with wrappers added: a stack of
them around a value that shows the same, up to wrappers added to the values it leads to. -/
def IsWrapping (R : α → β → Prop) : Prop :=
  ∀ value value', R value value' → ∃ wrappers inner, value' = wrapAll wrappers inner ∧
    View.SameUpTo (Option.Rel R) (view value) (view inner)

variable {R : α → β → Prop} {value : α} {value' : β}

theorem IsWrapping.sameUpTo (wrapping : IsWrapping R) (related : R value value') :
    View.SameUpTo (Option.Rel R) (view value) (view value') := by
  obtain ⟨wrappers, inner, rfl, same⟩ := wrapping value value' related
  rwa [view_wrapAll]

theorem isSimulation_of_isWrapping (wrapping : IsWrapping R) :
    IsSimulation Eq (Option.Rel R) R where
  isNil related := (wrapping.sameUpTo related).isNil
  views related _ := (wrapping.sameUpTo related).toRel
  records related _ _ := (wrapping.sameUpTo related).record
  ofLookup := Outcome.rel_ofLookup fun related ↦ (wrapping.sameUpTo related).isNil

/-- **Wrappers are transparent to evaluation.** Let the second value be the first one with wrappers
added, at any depth. Both lead to the same fault, both to nothing, or the first to a value and the
second to the same value with wrappers added, which has the same type name and the same readings. -/
theorem sameResult_of_wraps (wrapping : IsWrapping R) (wraps : R value value')
    (policy : AbsencePolicy) (source : String) (segments : List Segment) :
    SameResult (fun value value' ↦ R value value' ∧
        (view value).typeName = (view value').typeName ∧
        (view value).scalars = (view value').scalars)
      (evaluate policy source segments value).result
      (evaluate policy source segments value').result :=
  ((isSimulation_of_isWrapping wrapping).sameResult_evaluate wraps policy source segments).imp
    fun _ _ related ↦
      ⟨related, (wrapping.sameUpTo related).typeName, (wrapping.sameUpTo related).scalars⟩

end Wrapping

/-! ## Values of a host program -/

namespace Host

instance : Wrappable Host where
  wrap := .wrapped
  view_wrap _ _ := rfl

/-- The second value is the first one with wrappers around it and `R` between what the two are made
of. Documents are their own world, in which no value can be wrapped; a document as a whole can. -/
inductive WrapStep (R : Host → Host → Prop) : Host → Host → Prop
  /-- One more wrapper around the value as a whole. -/
  | wrap {value value' : Host} (wrapper : Wrapper) (inner : WrapStep R value value') :
      WrapStep R value (.wrapped wrapper value')
  | wrapped {value value' : Host} (wrapper : Wrapper) (inner : WrapStep R value value') :
      WrapStep R (.wrapped wrapper value) (.wrapped wrapper value')
  | json (node : Json) : WrapStep R (.json node) (.json node)
  | jsonObject (members : List (String × Json)) :
      WrapStep R (.jsonObject members) (.jsonObject members)
  | unit : WrapStep R .unit .unit
  | absent : WrapStep R .absent .absent
  | scalar (value : Scalar) : WrapStep R (.scalar value) (.scalar value)
  | sequence {items items' : List Host} (type : SequenceType) (each : List.Forall₂ R items items') :
      WrapStep R (.sequence type items) (.sequence type items')
  | mapping {entries entries' : List (String × Host)} (type : MappingType)
      (each : TableRel R entries entries') :
      WrapStep R (.mapping type entries) (.mapping type entries')
  | custom {shows shows' : View Host} (same : View.SameUpTo (Option.Rel R) shows shows') :
      WrapStep R (.custom shows) (.custom shows')

/-- The second value is the first one with wrappers added around any of the values in it. -/
def Wraps (value value' : Host) : Prop := AtAnyDepth WrapStep value value'

theorem WrapStep.imp {R S : Host → Host → Prop}
    (h : ∀ value value', R value value' → S value value') (value value' : Host)
    (step : WrapStep R value value') : WrapStep S value value' := by
  induction step with
  | wrap wrapper _ ih => exact .wrap wrapper ih
  | wrapped wrapper _ ih => exact .wrapped wrapper ih
  | json node => exact .json node
  | jsonObject members => exact .jsonObject members
  | unit => exact .unit
  | absent => exact .absent
  | scalar value => exact .scalar value
  | sequence type each => exact .sequence type (each.imp h)
  | mapping type each => exact .mapping type (each.imp h)
  | custom same => exact .custom (same.imp fun _ _ ↦ rel_imp h)

theorem wraps_iff {value value' : Host} : Wraps value value' ↔ WrapStep Wraps value value' :=
  AtAnyDepth.iff_step WrapStep.imp

/-- A document leads to documents, in which nothing is wrapped. -/
theorem sameUpTo_json (node : Json) :
    View.SameUpTo (Option.Rel Wraps) (node.view.map .json) (node.view.map .json) := by
  have same (found : Option Json) : Option.Rel Wraps (found.map .json) (found.map .json) := by
    cases found with
    | none => exact .none
    | some node => exact .some (wraps_iff.mpr (.json node))
  cases node with
  | array items =>
    exact ⟨⟨rfl, .none, .some ⟨rfl, fun _ ↦ same _, fun _ ↦ same _⟩⟩, rfl, rfl, .none⟩
  | object members => exact ⟨⟨rfl, .some fun key ↦ same _, .none⟩, rfl, rfl, .none⟩
  | null | bool | number | string => exact ⟨⟨rfl, .none, .none⟩, rfl, rfl, .none⟩

theorem exists_wrapAll_of_wrapStep {value value' : Host} (step : WrapStep Wraps value value') :
    ∃ wrappers inner, value' = wrapAll wrappers inner ∧
      View.SameUpTo (Option.Rel Wraps) (view value) (view inner) := by
  induction step with
  | wrap wrapper _ ih | wrapped wrapper _ ih =>
    obtain ⟨wrappers, inner, rfl, same⟩ := ih
    exact ⟨wrapper :: wrappers, inner, rfl, same⟩
  | json node => exact ⟨[], _, rfl, sameUpTo_json node⟩
  | jsonObject members => exact ⟨[], _, rfl, sameUpTo_json (.object members)⟩
  | unit => exact ⟨[], .unit, rfl, ⟨rfl, .none, .none⟩, rfl, rfl, .none⟩
  | absent => exact ⟨[], .absent, rfl, ⟨rfl, .none, .none⟩, rfl, rfl, .none⟩
  | scalar value => exact ⟨[], .scalar value, rfl, ⟨rfl, .none, .none⟩, rfl, rfl, .none⟩
  | sequence type each =>
    exact ⟨[], .sequence type _, rfl, ⟨rfl, .none, .some (.ofList each)⟩, rfl, rfl, .none⟩
  | mapping type each =>
    exact ⟨[], .mapping type _, rfl, ⟨rfl, .some each.lookup, .none⟩, rfl, rfl, .none⟩
  | custom same => exact ⟨[], .custom _, rfl, same⟩

theorem isWrapping_wraps : IsWrapping Wraps :=
  fun _ _ wraps ↦ exists_wrapAll_of_wrapStep (wraps_iff.mp wraps)

/-- A text of one of the program's own types. -/
def page (text : String) : Host :=
  .custom { typeName := "Page", scalars := { string := some text } }

/-- A shelf that has a book of one page for every title, where something may be put around the book
and around the page. -/
def shelf (aroundBook aroundPage : Host → Host) : Host :=
  .custom
    { typeName := "Shelf"
      record := some
        { field := fun _ ↦ none
          keyed := fun _ title ↦
            some (some (aroundBook (.sequence .vector [aroundPage (page title)]))) } }

end Host

/-- A book behind two pointers with its page behind a third, on an optional shelf. The page that is
found is the same, behind the pointer. -/
theorem sameResult_wrapped_record :
    Host.Wraps (.shelf id id)
        (.wrapped .present (.shelf (fun book ↦ .wrapped .owned (.wrapped .shared book))
          (.wrapped .sharedAcrossThreads))) ∧
      (evaluate .fail "book(Dune)[-1]" [.keyed (some "book") "Dune", .index none (-1)]
        (Host.shelf id id)).result = .ok (some (.page "Dune")) ∧
      (evaluate .fail "book(Dune)[-1]" [.keyed (some "book") "Dune", .index none (-1)]
        (Host.wrapped .present (.shelf (fun book ↦ .wrapped .owned (.wrapped .shared book))
          (.wrapped .sharedAcrossThreads)))).result
        = .ok (some (.wrapped .sharedAcrossThreads (.page "Dune"))) ∧
      SameResult (fun value value' ↦ Host.Wraps value value' ∧
          (view value).typeName = (view value').typeName ∧
          (view value).scalars = (view value').scalars)
        (evaluate .fail "book(Dune)[-1]" [.keyed (some "book") "Dune", .index none (-1)]
          (Host.shelf id id)).result
        (evaluate .fail "book(Dune)[-1]" [.keyed (some "book") "Dune", .index none (-1)]
          (Host.wrapped .present (.shelf (fun book ↦ .wrapped .owned (.wrapped .shared book))
            (.wrapped .sharedAcrossThreads)))).result := by
  have page : ∀ text, Host.Wraps (.page text) (.wrapped .sharedAcrossThreads (.page text)) :=
    fun text ↦ Host.wraps_iff.mpr (.wrap _ (.custom ⟨⟨rfl, .none, .none⟩, rfl, rfl, .none⟩))
  have book : ∀ title, Host.Wraps (.sequence .vector [.page title]) (.wrapped .owned
      (.wrapped .shared (.sequence .vector [.wrapped .sharedAcrossThreads (.page title)]))) :=
    fun title ↦ Host.wraps_iff.mpr (.wrap _ (.wrap _ (.sequence _ (.cons (page title) .nil))))
  have wraps : Host.Wraps (.shelf id id)
      (.wrapped .present (.shelf (fun book ↦ .wrapped .owned (.wrapped .shared book))
        (.wrapped .sharedAcrossThreads))) := by
    refine Host.wraps_iff.mpr (.wrap _ (.custom ⟨⟨rfl, .none, .none⟩, rfl, rfl, .some ?_⟩))
    exact ⟨fun _ ↦ .none, fun _ title ↦ .some (.some (book title))⟩
  exact ⟨wraps, rfl, rfl, sameResult_of_wraps Host.isWrapping_wraps wraps _ _ _⟩

end PropertyPath
