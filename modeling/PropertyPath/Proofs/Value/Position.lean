import Mathlib.Algebra.Group.Int.Defs
import Mathlib.Algebra.Group.Nat.Defs
import PropertyPath.Value.View

/-!
# Positions in exact arithmetic

`positionOf?` works on machine words, and what it means is said in integers: an index that is not
negative counts from the front, a negative one back from the end (`countedFrom`). Every operation on
words that is carried out on the way has the integer as its result, so nothing wraps around.

There is one index for which the words fall short. The least one is negated before it is subtracted,
and its negation is no signed word, so it names no position at all. In a sequence of `2 ^ 63`
elements or more it should: `least_index_names_none` is the shortest such sequence, and
`position_counted_exactly` says that nothing else goes wrong.
-/

namespace PropertyPath

/-- The place that an index counts to, as an integer. -/
def countedFrom (index : Int64) (length : UInt64) : Int :=
  if 0 ≤ index.toInt then index.toInt else length.toNat + index.toInt

/-- Whether an index names a position in a sequence: the place it counts to, if that is one of the
sequence. -/
def Names (index : Int64) (length position : UInt64) : Prop :=
  position.toNat < length.toNat ∧ (position.toNat : Int) = countedFrom index length

instance (index : Int64) (length position : UInt64) : Decidable (Names index length position) :=
  inferInstanceAs (Decidable
    (position.toNat < length.toNat ∧ (position.toNat : Int) = countedFrom index length))

section Positions

variable {index : Int64} {length back position : UInt64}

theorem nonneg_iff : ¬index < 0 ↔ 0 ≤ index.toInt := by
  rw [Int64.lt_iff_toInt_lt, Int64.toInt_zero, Int.not_lt]

/-! ## Operations on words -/

theorem toNat_toUInt64_of_nonneg (h : 0 ≤ index.toInt) :
    (index.toUInt64.toNat : Int) = index.toInt := by
  rw [Int64.toNat_toUInt64_of_le (Int64.le_iff_toInt_le.mpr h)]
  exact Int.toNat_of_nonneg h

theorem toInt_neg_of_ne_minValue (h : index ≠ Int64.minValue) : (-index).toInt = -index.toInt := by
  have least : index.toInt ≠ -2 ^ 63 := by
    rw [← Int64.toInt_minValue, ne_eq, Int64.toInt_inj]
    exact h
  have lower := index.le_toInt
  have upper := index.toInt_lt
  rw [Int64.toInt_neg]
  exact Int.bmod_eq_of_le (by omega) (by omega)

/-- A negative index counts back by its magnitude, unless it is the least one. -/
theorem stepsBack?_eq_some_iff (negative : index.toInt < 0) :
    stepsBack? index = some back ↔ index ≠ Int64.minValue ∧ (back.toNat : Int) = -index.toInt := by
  rw [stepsBack?]
  by_cases least : index = Int64.minValue
  · simp [least]
  · have magnitude : ((-index).toUInt64.toNat : Int) = -index.toInt := by
      rw [toNat_toUInt64_of_nonneg, toInt_neg_of_ne_minValue least]
      rw [toInt_neg_of_ne_minValue least]
      omega
    rw [if_neg least, Option.some_inj, ← UInt64.toNat_inj, and_iff_right least, ← magnitude]
    omega

/-! ## Both directions -/

theorem positionOf?_of_nonneg (h : 0 ≤ index.toInt) :
    positionOf? index length = some position ↔ Names index length position := by
  have front : ¬index < 0 := nonneg_iff.mpr h
  have exact := toNat_toUInt64_of_nonneg h
  rw [positionOf?, if_neg front, Option.filter_eq_some_iff, Option.some_inj, decide_eq_true_iff,
    Names, countedFrom, if_pos h, UInt64.lt_iff_toNat_lt, ← UInt64.toNat_inj]
  omega

theorem positionOf?_of_neg (negative : index.toInt < 0) (h : index ≠ Int64.minValue) :
    positionOf? index length = some position ↔ Names index length position := by
  have behind : index < 0 := Int64.lt_iff_toInt_lt.mpr negative
  have notFront : ¬0 ≤ index.toInt := Int.not_le.mpr negative
  have magnitude : ∃ back, stepsBack? index = some back := by
    rw [stepsBack?, if_neg h]
    exact ⟨_, rfl⟩
  obtain ⟨back, steps⟩ := magnitude
  have exact := ((stepsBack?_eq_some_iff negative).mp steps).2
  rw [positionOf?, if_pos behind, steps, Option.bind_some, Option.filter_eq_some_iff,
    decide_eq_true_iff, Names, countedFrom, if_neg notFront, UInt64.lt_iff_toNat_lt]
  by_cases fits : back ≤ length
  · -- the subtraction is carried out only here, where it does not wrap around
    have difference := UInt64.toNat_sub_of_le length back fits
    rw [UInt64.le_iff_toNat_le] at fits
    rw [if_pos (UInt64.le_iff_toNat_le.mpr fits), Option.some_inj, ← UInt64.toNat_inj, difference]
    omega
  · rw [if_neg fits]
    rw [UInt64.le_iff_toNat_le] at fits
    simp only [reduceCtorEq, false_and, false_iff]
    omega

theorem positionOf?_of_minValue (length : UInt64) : positionOf? Int64.minValue length = none := by
  rw [positionOf?, if_pos (by decide), stepsBack?, if_pos rfl]
  rfl

/-- The least index names the place `length - 2 ^ 63`, if there is one. -/
theorem exists_names_minValue_iff :
    (∃ position, Names Int64.minValue length position) ↔ 2 ^ 63 ≤ length.toNat := by
  have counted : countedFrom Int64.minValue length = length.toNat - 2 ^ 63 := by
    rw [countedFrom, if_neg (by decide), Int64.toInt_minValue]
    rfl
  have bound := length.toNat_lt
  simp only [Names, counted]
  constructor
  · rintro ⟨position, -, eq⟩
    omega
  · intro long
    have word : length.toNat - 2 ^ 63 < 2 ^ 64 := by omega
    have place : (UInt64.ofNat (length.toNat - 2 ^ 63)).toNat = length.toNat - 2 ^ 63 :=
      UInt64.toNat_ofNat_of_lt' word
    refine ⟨UInt64.ofNat (length.toNat - 2 ^ 63), ?_, ?_⟩
    · omega
    · omega

end Positions

/-! ## The main result -/

/-- **Positions are counted exactly, from either end.** Any index but the least one names the
position it counts to in integers, and none if the sequence has no such position; the operations on
words that lead there are those on integers. The least index names nothing, which is wrong exactly
in a sequence of `2 ^ 63` elements or more. -/
theorem position_counted_exactly (index : Int64) (length : UInt64) :
    (∀ position, positionOf? index length = some position
      ↔ index ≠ Int64.minValue ∧ Names index length position) ∧
    (positionOf? index length = none
      ↔ index = Int64.minValue ∨ ∀ position, ¬Names index length position) ∧
    ((∃ position, Names index length position ∧ positionOf? index length = none)
      ↔ index = Int64.minValue ∧ 2 ^ 63 ≤ length.toNat) ∧
    (0 ≤ index.toInt → (index.toUInt64.toNat : Int) = index.toInt) ∧
    (index.toInt < 0 → ∀ back, stepsBack? index = some back →
      (back.toNat : Int) = -index.toInt ∧
      (back ≤ length → (length - back).toNat = length.toNat - back.toNat)) := by
  have named : ∀ position, positionOf? index length = some position
      ↔ index ≠ Int64.minValue ∧ Names index length position := by
    intro position
    by_cases least : index = Int64.minValue
    · rw [least, positionOf?_of_minValue]
      simp
    · rw [and_iff_right least]
      rcases Int.lt_or_le index.toInt 0 with negative | nonneg
      · exact positionOf?_of_neg negative least
      · exact positionOf?_of_nonneg nonneg
  have unnamed : positionOf? index length = none
      ↔ index = Int64.minValue ∨ ∀ position, ¬Names index length position := by
    rw [Option.eq_none_iff_forall_ne_some]
    simp only [ne_eq, named, not_and]
    by_cases least : index = Int64.minValue
    · simp [least]
    · simp [least]
  refine ⟨named, unnamed, ?_, toNat_toUInt64_of_nonneg, ?_⟩
  · constructor
    · rintro ⟨position, names, missed⟩
      have least := (unnamed.mp missed).resolve_right fun nowhere ↦ nowhere position names
      rw [least] at names
      exact ⟨least, exists_names_minValue_iff.mp ⟨position, names⟩⟩
    · rintro ⟨rfl, long⟩
      obtain ⟨position, names⟩ := exists_names_minValue_iff.mpr long
      exact ⟨position, names, positionOf?_of_minValue length⟩
  · intro negative back steps
    exact ⟨((stepsBack?_eq_some_iff negative).mp steps).2, UInt64.toNat_sub_of_le length back⟩

/-- The least index counts back to the first of `2 ^ 63` elements, and is said to name none. -/
theorem least_index_names_none :
    Names Int64.minValue 9223372036854775808 0 ∧
      positionOf? Int64.minValue 9223372036854775808 = none ∧
      ¬∀ (index : Int64) (length position : UInt64),
        positionOf? index length = some position ↔ Names index length position := by
  have names : Names Int64.minValue 9223372036854775808 0 := by decide
  have missed : positionOf? Int64.minValue 9223372036854775808 = none := by decide
  refine ⟨names, missed, fun counted ↦ ?_⟩
  have found := (counted _ _ _).mpr names
  rw [missed] at found
  cases found

end PropertyPath
