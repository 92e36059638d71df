import PropertyPath.Proofs.Query.Simulation
import PropertyPath.Value.Host

/-!
# Records behind a mapping

A value can be a mapping and a record at the same time. Then its mapping view hides its record view
completely: neither a field nor a keyed accessor is ever asked, not even for a key that the mapping
does not have. So a path cannot tell two values apart that differ only in the record views of
values that are mappings, at whatever depth those stand.
-/

namespace PropertyPath

open Walkable (view)

section Shadow

variable {α β : Type} [Walkable α] [Walkable β]

/-- The two values show the same, with `R` between the values they lead to; only the record view of
a mapping is left open, and whether there is one. -/
structure ShadowChange (R : α → β → Prop) (value : α) (value' : β) : Prop where
  views : View.Rel Eq (Option.Rel R) (view value) (view value')
  isNil : (view value).isNil = (view value').isNil
  scalars : (view value).scalars = (view value').scalars
  record : (view value).mapping = none →
    Option.Rel (RecordView.Rel (Option.Rel R)) (view value).record (view value').record

/-- The two values differ, at any depth, in nothing but record views of mappings. -/
def ShadowChanges (value : α) (value' : β) : Prop := AtAnyDepth ShadowChange value value'

theorem ShadowChange.imp {R S : α → β → Prop} (h : ∀ value value', R value value' → S value value')
    (value : α) (value' : β) (change : ShadowChange R value value') :
    ShadowChange S value value' where
  views := change.views.imp fun _ _ ↦ rel_imp h
  isNil := change.isNil
  scalars := change.scalars
  record noMapping := rel_imp (fun _ _ ↦ RecordView.Rel.imp fun _ _ ↦ rel_imp h)
    (change.record noMapping)

/-- Two values differ in shadowed records if they show the same apart from those, with no other
differences between the values they lead to. -/
theorem shadowChanges_iff {value : α} {value' : β} :
    ShadowChanges value value' ↔ ShadowChange ShadowChanges value value' :=
  AtAnyDepth.iff_step ShadowChange.imp

theorem isSimulation_of_shadowChange {R : α → β → Prop}
    (closed : ∀ value value', R value value' → ShadowChange R value value') :
    IsSimulation Eq (Option.Rel R) R where
  isNil related := (closed _ _ related).isNil
  views related _ := (closed _ _ related).views
  records related _ := (closed _ _ related).record
  ofLookup := Outcome.rel_ofLookup fun related ↦ (closed _ _ related).isNil

/-- **A mapping view shadows the record view.** What the record view of a mapping offers makes no
difference to any evaluation. -/
theorem sameResult_of_shadowChanges {value : α} {value' : β} (h : ShadowChanges value value')
    (policy : AbsencePolicy) (source : String) (segments : List Segment) :
    SameResult ShadowChanges (evaluate policy source segments value).result
      (evaluate policy source segments value').result :=
  h.sameResult (fun _ ↦ isSimulation_of_shadowChange) policy source segments

end Shadow

/-- A shelf that is a mapping without entries and also the given record, if any. -/
def Host.emptyShelf (record : Option (RecordView Host)) : Host :=
  .custom { typeName := "Shelf", mapping := some fun _ ↦ none, record := record }

/-- A record whose fields and keyed accessors all have something to say. -/
def RecordView.talkative : RecordView Host where
  field _ := some (.mapping .sorted [("k", .ofString "x")])
  keyed _ key := some (some (.ofString key))

/-- A mapping that misses the key, where the record behind it has a field and a keyed accessor of
the name, and the same mapping without a record. The name leads to nothing in both. -/
theorem sameResult_shadowed_accessor :
    ShadowChanges (Host.emptyShelf (some .talkative)) (Host.emptyShelf none) ∧
      (evaluate .fail "a(k).b" [.keyed (some "a") "k", .property "b"]
        (Host.emptyShelf (some .talkative))).result
          = .error (.noSuchProperty "a(k)" "a(k).b") ∧
      (evaluate .fail "a(k).b" [.keyed (some "a") "k", .property "b"]
        (Host.emptyShelf none)).result = .error (.noSuchProperty "a(k)" "a(k).b") := by
  have changes : ShadowChanges (Host.emptyShelf (some .talkative)) (Host.emptyShelf none) :=
    shadowChanges_iff.mpr ⟨⟨rfl, .some fun _ ↦ .none, .none⟩, rfl, rfl, nofun⟩
  have missing : (evaluate .fail "a(k).b" [.keyed (some "a") "k", .property "b"]
      (Host.emptyShelf none)).result = .error (.noSuchProperty "a(k)" "a(k).b") := rfl
  have same := sameResult_of_shadowChanges changes .fail "a(k).b"
    [.keyed (some "a") "k", .property "b"]
  rw [missing] at same
  refine ⟨changes, ?_, missing⟩
  generalize (evaluate .fail "a(k).b" [.keyed (some "a") "k", .property "b"]
    (Host.emptyShelf (some .talkative))).result = result at same ⊢
  cases same
  rfl

end PropertyPath
