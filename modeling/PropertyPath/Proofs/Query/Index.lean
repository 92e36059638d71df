import PropertyPath.Proofs.Path.RoundTrip
import PropertyPath.Proofs.Query.Account
import PropertyPath.Proofs.Query.Representation
import PropertyPath.Proofs.Value.Position

/-!
# Elements by their index

A path that is an index and nothing else leads from a sequence to one of its elements, counted from
the front or back from the end, or to nothing. `elementCountedTo` says which one in integers.

On the way from the text to the element the index is decimal digits, an integer, a word, and a place
in the sequence. The text reads as the word it was written for, since every canonical text reads
back. The place is the one that the integers say as long as the sequence has fewer than `2 ^ 63`
elements, which leaves the least index no element to count back to.
-/

namespace PropertyPath

open Walkable (view)

/-! ## Places in a sequence -/

/-- The element that an integer counts to: from the front if it is not negative, and back from the
end if it is. -/
def elementCountedTo {α : Type} (items : List α) (index : Int) : Option α :=
  if 0 ≤ index then items[index.toNat]?
  else if -items.length ≤ index then items[(items.length + index).toNat]?
  else none

section Places

variable {α : Type} {items : List α} {index : Int64} {length position : UInt64}

/-- In a short sequence every index names the position that it counts to. -/
theorem positionOf?_eq_some_iff (short : length.toNat < 2 ^ 63) :
    positionOf? index length = some position ↔ Names index length position := by
  by_cases least : index = Int64.minValue
  · have nowhere : ¬Names Int64.minValue length position := by
      intro names
      exact absurd (exists_names_minValue_iff.mp ⟨position, names⟩) (Nat.not_le.mpr short)
    rw [least, positionOf?_of_minValue]
    simp [nowhere]
  · rcases Int.lt_or_le index.toInt 0 with negative | nonneg
    · exact positionOf?_of_neg negative least
    · exact positionOf?_of_nonneg nonneg

theorem toNat_ofNat_length (short : items.length < 2 ^ 63) :
    (UInt64.ofNat items.length).toNat = items.length := by
  have word : items.length < 2 ^ 64 := by omega
  exact UInt64.toNat_ofNat_of_lt' word

/-- The element at the place that an index counts to, if the sequence goes that far. -/
theorem resolve_of_countedFrom (short : items.length < 2 ^ 63) {place : Nat}
    (counted : countedFrom index (UInt64.ofNat items.length) = place) :
    (SequenceView.ofList items).resolve index = items[place]? := by
  have length := toNat_ofNat_length short
  have named : ∀ position, positionOf? index (UInt64.ofNat items.length) = some position
      ↔ position.toNat < items.length ∧ position.toNat = place := by
    intro position
    rw [positionOf?_eq_some_iff (length.symm ▸ short), Names, counted, length, Int.ofNat_inj]
  simp only [SequenceView.ofList]
  by_cases within : place < items.length
  · have word : place < 2 ^ 64 := by omega
    have position : (UInt64.ofNat place).toNat = place := UInt64.toNat_ofNat_of_lt' word
    rw [(named _).mpr ⟨position.symm ▸ within, position⟩, Option.bind_some, position]
  · have nowhere : positionOf? index (UInt64.ofNat items.length) = none := by
      rw [Option.eq_none_iff_forall_ne_some]
      intro position eq
      obtain ⟨inside, rfl⟩ := (named position).mp eq
      exact within inside
    rw [nowhere, List.getElem?_eq_none (Nat.not_lt.mp within)]
    rfl

theorem resolve_of_countedFrom_neg (short : items.length < 2 ^ 63)
    (counted : countedFrom index (UInt64.ofNat items.length) < 0) :
    (SequenceView.ofList items).resolve index = none := by
  have nowhere : positionOf? index (UInt64.ofNat items.length) = none := by
    rw [Option.eq_none_iff_forall_ne_some]
    intro position eq
    rw [positionOf?_eq_some_iff ((toNat_ofNat_length short).symm ▸ short), Names] at eq
    omega
  simp only [SequenceView.ofList, nowhere]
  rfl

/-- **Elements are counted in integers** in a short sequence. -/
theorem resolve_eq_elementCountedTo (short : items.length < 2 ^ 63) (index : Int64) :
    (SequenceView.ofList items).resolve index = elementCountedTo items index.toInt := by
  have length := toNat_ofNat_length short
  rw [elementCountedTo]
  split
  · next front =>
    apply resolve_of_countedFrom short
    rw [countedFrom, if_pos front, Int.toNat_of_nonneg front]
  · next back =>
    have counted : countedFrom index (UInt64.ofNat items.length) = items.length + index.toInt := by
      rw [countedFrom, if_neg back, length]
    split
    · apply resolve_of_countedFrom short
      rw [counted, Int.toNat_of_nonneg (by omega)]
    · apply resolve_of_countedFrom_neg short
      rw [counted]
      omega

theorem elementCountedTo_sub_length {place : Nat} (h : place < items.length) :
    elementCountedTo items (place - items.length) = elementCountedTo items place := by
  have back : ¬(0 : Int) ≤ place - items.length := by omega
  have inside : -(items.length : Int) ≤ place - items.length := by omega
  have front : (0 : Int) ≤ place := by omega
  have same : (items.length : Int) + (place - items.length) = place := by omega
  rw [elementCountedTo, if_neg back, if_pos inside, elementCountedTo, if_pos front, same]

end Places

/-! ## The text of an index -/

theorem parse_index (index : Int64) :
    Path.parse ("[" ++ toString index ++ "]") = .ok ⟨[.index none index]⟩ := by
  have wellFormed : WellFormed [.index none index] := by
    apply wellFormed_of_isWritable (List.cons_ne_nil _ _)
    · rw [List.forall_mem_singleton]
      exact ⟨nofun, nofun⟩
    · exact .singleton _
  have text : Path.textOf [.index none index] = "[" ++ toString index ++ "]" := by
    simp [Path.textOf, Segment.text, Segment.name?, Segment.suffix?, Component.text]
  rw [← text]
  exact parse_textOf wellFormed

/-! ## Sequences -/

/-- The standard sequences and arrays of documents with their elements, behind any wrappers. -/
inductive Host.IsSequenceOf : Host → List Host → Prop
  | bare {host : Host} {items : List Host} (h : host.HasItems items) : IsSequenceOf host items
  | wrapped {host : Host} {items : List Host} (wrapper : Wrapper)
    (inner : IsSequenceOf host items) : IsSequenceOf (.wrapped wrapper host) items

section Sequences

variable {α : Type} [Walkable α] {root : α} {items : List α}

/-- A lookup at the end of a path leads to what it found, unless that is nil. -/
theorem result_walk_of_lookup {segment : Segment} {lookup : Option α}
    (step : advance root segment = .ofLookup lookup) (policy : AbsencePolicy) (source : String) :
    (walk [segment] root).result policy source
      = .ok (lookup.filter fun value ↦ !(view value).isNil) := by
  rw [walk, step]
  rcases lookup with _ | value
  · rfl
  · by_cases nil : (view value).isNil = true
    · rw [Outcome.ofLookup, if_pos nil, Option.filter_some_neg (by simp [nil])]
      rfl
    · rw [Outcome.ofLookup, if_neg nil, Option.filter_some_pos (by simp [nil])]
      rfl

theorem evalText_index (notNil : (view root).isNil = false)
    (sequence : (view root).sequence = some (.ofList items)) (short : items.length < 2 ^ 63)
    (index : Int64) (options : Options) :
    evalText root ("[" ++ toString index ++ "]") options
      = .ok ((elementCountedTo items index.toInt).filter fun element ↦ !(view element).isNil) := by
  have step : advance root (.index none index)
      = .ofLookup ((SequenceView.ofList items).resolve index) := by
    change elementOf index root = _
    rw [elementOf, sequence]
  rw [evalText, runText_of_parse (parse_index index), Run.result_after,
    result_evaluate _ _ _ notNil, result_walk_of_lookup step, resolve_eq_elementCountedTo short]

theorem view_of_isSequenceOf {host : Host} {items : List Host} (h : host.IsSequenceOf items) :
    (view host).isNil = false ∧ (view host).sequence = some (.ofList items) := by
  induction h with
  | bare h =>
    obtain ⟨notNil, -, sequence, -⟩ := view_of_hasItems h
    exact ⟨notNil, sequence⟩
  | wrapped wrapper inner ih => exact ih

end Sequences

/-! ## The main result -/

/-- **An index leads to the element it counts to.** Evaluating the text of any word as an index
against a sequence finds the element, counted from the front or back from the end, if there is one
and it is not nil; otherwise it finds nothing, and never fails. So each element can be counted to
from either end. -/
theorem index_counts_from_either_end {host : Host} {items : List Host}
    (h : host.IsSequenceOf items) (short : items.length < 2 ^ 63) (options : Options) :
    (∀ index : Int64, evalText host ("[" ++ toString index ++ "]") options
      = .ok ((elementCountedTo items index.toInt).filter fun element ↦ !(view element).isNil)) ∧
    ∀ place : Nat, place < items.length →
      evalText host ("[" ++ toString (place : Int) ++ "]") options
        = evalText host ("[" ++ toString ((place : Int) - items.length) ++ "]") options := by
  obtain ⟨notNil, sequence⟩ := view_of_isSequenceOf h
  have counted := fun index ↦ evalText_index notNil sequence short index options
  refine ⟨counted, fun place inside ↦ ?_⟩
  have integers : ∀ index : Int, -2 ^ 63 ≤ index → index < 2 ^ 63 →
      evalText host ("[" ++ toString index ++ "]") options
        = .ok ((elementCountedTo items index).filter fun element ↦ !(view element).isNil) := by
    intro index lower upper
    have word := counted (Int64.ofInt index)
    have exact : (Int64.ofInt index).toInt = index := Int64.toInt_ofInt_of_le lower upper
    have digits : toString (Int64.ofInt index) = toString (Int64.ofInt index).toInt := rfl
    rwa [digits, exact] at word
  rw [integers place (by omega) (by omega), integers (place - items.length) (by omega) (by omega),
    elementCountedTo_sub_length inside]

/-- The last element is nil, so it is not found from either end, and the least index counts past the
front. -/
theorem index_of_shared_deque :
    evalText (.wrapped .shared (.sequence .deque [.ofString "x", .absent])) "[-2]" .strict
        = .ok (some (Host.ofString "x")) ∧
      evalText (.wrapped .shared (.sequence .deque [.ofString "x", .absent])) "[1]" .strict
        = .ok (none : Option Host) ∧
      evalText (.wrapped .shared (.sequence .deque [.ofString "x", .absent]))
        "[-9223372036854775808]" .strict = .ok (none : Option Host) ∧
      evalText (.wrapped .shared (.sequence .deque [.ofString "x", .absent])) "[0]" .strict
        = evalText (Host.wrapped .shared (.sequence .deque [.ofString "x", .absent])) "[-2]"
          .strict := by
  have sequence : Host.IsSequenceOf (.wrapped .shared (.sequence .deque [.ofString "x", .absent]))
      [.ofString "x", .absent] :=
    .wrapped _ (.bare (.standard _ _))
  obtain ⟨counted, ends⟩ := index_counts_from_either_end sequence (by decide) .strict
  exact ⟨counted (-2), counted 1, counted Int64.minValue, ends 0 (by decide)⟩

end PropertyPath
