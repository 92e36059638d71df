import PropertyPath.Proofs.Query.Simulation
import PropertyPath.Value.Host

/-!
# Nil values

A value that is nil counts as missing, whatever else it can do: no path finds it, asks its views or
quotes its type. So a path cannot tell whether an entry is nil or not there, nor one nil value from
another, at whatever depth they stand.
-/

namespace PropertyPath

open Walkable (view)

section Nil

variable {α β : Type} [Walkable α]

/-- What a lookup leads to before and after a change of nil values, with `R` between values that
stay: a value that is nil may be gone. -/
inductive LookupChange (R : α → β → Prop) : Option α → Option β → Prop
  | kept {value : α} {value' : β} (related : R value value') :
      LookupChange R (some value) (some value')
  | removed {value : α} (nil : (view value).isNil = true) : LookupChange R (some value) none
  | nothing : LookupChange R none none

theorem LookupChange.imp {R S : α → β → Prop} (h : ∀ value value', R value value' → S value value')
    {found : Option α} {found' : Option β} (change : LookupChange R found found') :
    LookupChange S found found' := by
  cases change with
  | kept related => exact .kept (h _ _ related)
  | removed nil => exact .removed nil
  | nothing => exact .nothing

variable [Walkable β]

/-- The value is nil and any other nil value stands in its place, or it shows the same as before
up to changes in what its lookups lead to. A nil element of a sequence may leave a gap behind, but
the others keep their positions. -/
inductive NilChange (R : α → β → Prop) (value : α) (value' : β) : Prop
  | replaced (nil : (view value).isNil = true) (nil' : (view value').isNil = true)
  | within (same : View.SameUpTo (LookupChange R) (view value) (view value'))

/-- The second value is the first one with nil values removed from it or replaced by others, at any
depth. -/
def NilChanges (value : α) (value' : β) : Prop := AtAnyDepth NilChange value value'

theorem NilChange.isNil {R : α → β → Prop} {value : α} {value' : β} (h : NilChange R value value') :
    (view value).isNil = (view value').isNil := by
  cases h with
  | replaced nil nil' => rw [nil, nil']
  | within same => exact same.isNil

theorem NilChange.sameUpTo {R : α → β → Prop} {value : α} {value' : β}
    (h : NilChange R value value') (notNil : (view value).isNil = false) :
    View.SameUpTo (LookupChange R) (view value) (view value') := by
  cases h with
  | replaced nil _ => cases nil.symm.trans notNil
  | within same => exact same

theorem NilChange.imp {R S : α → β → Prop} (h : ∀ value value', R value value' → S value value')
    (value : α) (value' : β) (change : NilChange R value value') : NilChange S value value' := by
  cases change with
  | replaced nil nil' => exact .replaced nil nil'
  | within same => exact .within (same.imp fun _ _ ↦ LookupChange.imp h)

/-- Nil values are changed in a value if it is nil and replaced as a whole, or if they are changed
in the values it leads to. -/
theorem nilChanges_iff {value : α} {value' : β} :
    NilChanges value value' ↔ NilChange NilChanges value value' :=
  AtAnyDepth.iff_step NilChange.imp

theorem isSimulation_of_nilChange {R : α → β → Prop}
    (closed : ∀ value value', R value value' → NilChange R value value') :
    IsSimulation Eq (LookupChange R) R where
  isNil related := (closed _ _ related).isNil
  views related notNil := ((closed _ _ related).sameUpTo notNil).toRel
  records related notNil _ := ((closed _ _ related).sameUpTo notNil).record
  ofLookup change := by
    cases change with
    | kept related =>
      exact Outcome.rel_ofLookup (fun related ↦ (closed _ _ related).isNil) (.some related)
    | removed nil =>
      rw [Outcome.ofLookup, if_pos nil]
      exact .absent
    | nothing => exact .absent

/-- **Nil is indistinguishable from missing.** -/
theorem sameResult_of_nilChanges {value : α} {value' : β} (h : NilChanges value value')
    (policy : AbsencePolicy) (source : String) (segments : List Segment) :
    SameResult NilChanges (evaluate policy source segments value).result
      (evaluate policy source segments value').result :=
  h.sameResult (fun _ ↦ isSimulation_of_nilChange) policy source segments

end Nil

/-- A row of one element that counts as nil all the same. -/
def Host.nilRow : Host :=
  .custom { typeName := "Row", isNil := true, sequence := some (.ofList [.ofString "x"]) }

/-- An entry that is nil and yet a sequence is removed. An index behind its name leads to nothing
before and after. -/
theorem sameResult_nil_entry_removed :
    NilChanges (Host.mapping .sorted [("a", .nilRow)]) (Host.mapping .sorted []) ∧
      (evaluate .fail "a[0].b" [.index (some "a") 0, .property "b"]
        (Host.mapping .sorted [("a", .nilRow)])).result
          = .error (.noSuchProperty "a[0]" "a[0].b") ∧
      (evaluate .fail "a[0].b" [.index (some "a") 0, .property "b"]
        (Host.mapping .sorted [])).result = .error (.noSuchProperty "a[0]" "a[0].b") := by
  have changes : NilChanges (Host.mapping .sorted [("a", .nilRow)]) (Host.mapping .sorted []) := by
    refine nilChanges_iff.mpr (.within ⟨⟨rfl, .some fun key ↦ ?_, .none⟩, rfl, rfl, .none⟩)
    rw [List.lookup_cons]
    cases key == "a" with
    | true => exact .removed rfl
    | false => exact .nothing
  have missing : (evaluate .fail "a[0].b" [.index (some "a") 0, .property "b"]
      (Host.mapping .sorted [("a", .nilRow)])).result
        = .error (.noSuchProperty "a[0]" "a[0].b") := rfl
  have same := sameResult_of_nilChanges changes .fail "a[0].b" [.index (some "a") 0, .property "b"]
  rw [missing] at same
  refine ⟨changes, missing, ?_⟩
  generalize (evaluate .fail "a[0].b" [.index (some "a") 0, .property "b"]
    (Host.mapping .sorted [])).result = result at same ⊢
  cases same
  rfl

end PropertyPath
