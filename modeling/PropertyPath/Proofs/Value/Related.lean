import Mathlib.Data.List.Forall2
import PropertyPath.Value.View

/-!
# Views of related values

What it means that two values show the same up to the values they lead to. The two views of a kind
are compared lookup by lookup. What a lookup may lead to on the two sides is a parameter, `lookups`:
related values or nothing, or whatever else a comparison wants to allow. The elements of two
sequences are compared like other lookups, position by position; the sequences are equally long.

Such a comparison looks one step deep. `AtAnyDepth` repeats it for the values that the two lead to,
and for those that these lead to, and so on, without asking that this comes to an end.
-/

namespace PropertyPath

variable {α β : Type}

/-! ## Optional values -/

theorem eq_none_or_eq_some_of_rel {r : α → β → Prop} {a : Option α} {b : Option β}
    (h : Option.Rel r a b) :
    (a = none ∧ b = none) ∨ ∃ x y, a = some x ∧ b = some y ∧ r x y := by
  cases h with
  | none => exact .inl ⟨rfl, rfl⟩
  | some related => exact .inr ⟨_, _, rfl, rfl, related⟩

theorem rel_imp {r s : α → β → Prop} (h : ∀ x y, r x y → s x y) {a : Option α} {b : Option β}
    (related : Option.Rel r a b) : Option.Rel s a b := by
  cases related with
  | none => exact .none
  | some related => exact .some (h _ _ related)

/-! ## Tables -/

/-- Tables with the same keys in the same order, whose values are related. -/
inductive TableRel (R : α → β → Prop) : List (String × α) → List (String × β) → Prop
  | nil : TableRel R [] []
  | cons (key : String) {value : α} {value' : β} {rest : List (String × α)}
      {rest' : List (String × β)} (related : R value value') (others : TableRel R rest rest') :
      TableRel R ((key, value) :: rest) ((key, value') :: rest')

theorem TableRel.lookup {R : α → β → Prop} {table : List (String × α)}
    {table' : List (String × β)} (h : TableRel R table table') (key : String) :
    Option.Rel R (table.lookup key) (table'.lookup key) := by
  induction h with
  | nil => exact .none
  | cons first related _ ih =>
    rw [List.lookup_cons, List.lookup_cons]
    cases key == first with
    | true => exact .some related
    | false => exact ih

theorem TableRel.imp {R S : α → β → Prop} (h : ∀ value value', R value value' → S value value')
    {table : List (String × α)} {table' : List (String × β)} (related : TableRel R table table') :
    TableRel S table table' := by
  induction related with
  | nil => exact .nil
  | cons key first _ ih => exact .cons key (h _ _ first) ih

/-! ## Views -/

/-- Sequences of the same length whose elements agree, by position and by index. -/
structure SequenceView.Rel (lookups : Option α → Option β → Prop) (elements : SequenceView α)
    (elements' : SequenceView β) : Prop where
  length : elements.length = elements'.length
  element : ∀ position, lookups (elements.element position) (elements'.element position)
  resolve : ∀ index, lookups (elements.resolve index) (elements'.resolve index)

/-- Record views with the same keyed accessors, whose answers agree. -/
structure RecordView.Rel (lookups : Option α → Option β → Prop) (record : RecordView α)
    (record' : RecordView β) : Prop where
  field : ∀ name, lookups (record.field name) (record'.field name)
  keyed : ∀ name key, Option.Rel lookups (record.keyed name key) (record'.keyed name key)

/-- Views that agree apart from records, and up to `names` on the names of types: both are a
mapping or none, and a sequence of the same length or none. -/
structure View.Rel (names : String → String → Prop) (lookups : Option α → Option β → Prop)
    (view : View α) (view' : View β) : Prop where
  typeName : names view.typeName view'.typeName
  mapping : Option.Rel (fun lookup lookup' ↦ ∀ key, lookups (lookup key) (lookup' key))
    view.mapping view'.mapping
  sequence : Option.Rel (SequenceView.Rel lookups) view.sequence view'.sequence

/-- Views that agree in everything they show, records and scalar readings included, up to what
their lookups lead to. -/
structure View.SameUpTo (lookups : Option α → Option β → Prop) (view : View α) (view' : View β) :
    Prop extends View.Rel Eq lookups view view' where
  isNil : view.isNil = view'.isNil
  scalars : view.scalars = view'.scalars
  record : Option.Rel (RecordView.Rel lookups) view.record view'.record

theorem rel_getElem? {R : α → β → Prop} {items : List α} {items' : List β}
    (each : List.Forall₂ R items items') (position : Nat) :
    Option.Rel R items[position]? items'[position]? := by
  by_cases inside : position < items.length
  · have inside' : position < items'.length := each.length_eq ▸ inside
    rw [List.getElem?_eq_getElem inside, List.getElem?_eq_getElem inside']
    exact .some (each.get inside inside')
  · have outside' : ¬position < items'.length := each.length_eq ▸ inside
    rw [List.getElem?_eq_none (Nat.le_of_not_lt inside),
      List.getElem?_eq_none (Nat.le_of_not_lt outside')]
    exact .none

theorem SequenceView.Rel.ofList {R : α → β → Prop} {items : List α} {items' : List β}
    (each : List.Forall₂ R items items') :
    SequenceView.Rel (Option.Rel R) (.ofList items) (.ofList items') where
  length := congrArg UInt64.ofNat each.length_eq
  element position := rel_getElem? each position.toNat
  resolve index := by
    simp only [SequenceView.ofList, each.length_eq]
    cases positionOf? index (UInt64.ofNat items'.length) with
    | none => exact .none
    | some position => exact rel_getElem? each position.toNat

section Monotone

variable {names : String → String → Prop} {lookups lookups' : Option α → Option β → Prop}
  (h : ∀ found found', lookups found found' → lookups' found found')
include h

theorem SequenceView.Rel.imp {elements : SequenceView α} {elements' : SequenceView β}
    (related : SequenceView.Rel lookups elements elements') :
    SequenceView.Rel lookups' elements elements' where
  length := related.length
  element position := h _ _ (related.element position)
  resolve index := h _ _ (related.resolve index)

theorem RecordView.Rel.imp {record : RecordView α} {record' : RecordView β}
    (related : RecordView.Rel lookups record record') : RecordView.Rel lookups' record record' where
  field name := h _ _ (related.field name)
  keyed name key := rel_imp h (related.keyed name key)

theorem View.Rel.imp {view : View α} {view' : View β}
    (related : View.Rel names lookups view view') : View.Rel names lookups' view view' where
  typeName := related.typeName
  mapping := rel_imp (fun _ _ each key ↦ h _ _ (each key)) related.mapping
  sequence := rel_imp (fun _ _ ↦ SequenceView.Rel.imp h) related.sequence

theorem View.SameUpTo.imp {view : View α} {view' : View β}
    (same : View.SameUpTo lookups view view') : View.SameUpTo lookups' view view' where
  toRel := same.toRel.imp h
  isNil := same.isNil
  scalars := same.scalars
  record := rel_imp (fun _ _ ↦ RecordView.Rel.imp h) same.record

end Monotone

/-! ## Differences at any depth -/

/-- Two values that differ by no more than `step` allows, at any depth: some relation holds between
them, and wherever it holds, `step` does, with the same relation again between the values that the
two lead to. -/
def AtAnyDepth (step : (α → β → Prop) → α → β → Prop) (value : α) (value' : β) : Prop :=
  ∃ R : α → β → Prop, R value value' ∧ ∀ value value', R value value' → step R value value'

/-- If `step` is monotone, a difference at any depth is one step of it, with differences at any
depth between the values that the two lead to. -/
theorem AtAnyDepth.iff_step {step : (α → β → Prop) → α → β → Prop}
    (mono : ∀ {R S : α → β → Prop}, (∀ value value', R value value' → S value value') →
      ∀ value value', step R value value' → step S value value') {value : α} {value' : β} :
    AtAnyDepth step value value' ↔ step (AtAnyDepth step) value value' := by
  have unfold : ∀ value value', AtAnyDepth step value value' →
      step (AtAnyDepth step) value value' := by
    rintro value value' ⟨R, related, closed⟩
    exact mono (fun _ _ related ↦ ⟨R, related, closed⟩) _ _ (closed _ _ related)
  -- what one step allows on top of differences at any depth is closed under `step` by itself
  exact ⟨unfold _ _, fun h ↦ ⟨step (AtAnyDepth step), h, mono unfold⟩⟩

end PropertyPath
