import PropertyPath.Proofs.Path.WellFormed

/-!
# The first fault of a row of segments

Segments made by hand are checked in order, and each check looks back at one segment. `IsFault`
says, without the checks, what is wrong with a segment where it stands, and `IsFirstFault` what is
wrong with a row: everything in front of the segment at fault can stand there.

Two rows behind one another are checked as each would be on its own, apart from the first segment of
the second row, which now has a segment to look back at (`firstFault?_append`). That matters only
for a suffix without a name. So there is one way in which two rows of segments can fail together and
not on their own: the second begins with such a suffix, and the first ends with a plain property.
-/

namespace PropertyPath

open Grammar

/-! ## Faults -/

/-- What is wrong with a segment behind `previous`, or at the front of a path. The key is only to
blame if the name and the place are not. -/
inductive Segment.IsFault (previous : Option Segment) : Segment → ArgumentFault → Prop where
  | invalidName {segment : Segment} {name : String} (own : segment.name? = some name)
    (h : ¬IsName name.toList) : IsFault previous segment (.invalidName name)
  | nameNeeded {segment before : Segment} (behind : previous = some before)
    (h : ¬before.MayPrecede segment) : IsFault previous segment (.nameNeeded segment)
  | keyHasParen {owner : Option String} {key : String} (name : ∀ name ∈ owner, IsName name.toList)
    (place : ∀ before ∈ previous, before.MayPrecede (.keyed owner key)) (h : ')' ∈ key.toList) :
    IsFault previous (.keyed owner key) (.keyHasParen key)

/-- The fault of the first segment of a row that cannot stand where it does. -/
def IsFirstFault (segments : List Segment) (fault : ArgumentFault) : Prop :=
  ∃ front offender behind, segments = front ++ offender :: behind ∧
    (∀ segment ∈ front, segment.IsWritable) ∧ front.IsChain Segment.MayPrecede ∧
    offender.IsFault front.getLast? fault

section Faults

variable {previous : Option Segment} {before segment last first : Segment}
  {segments front back : List Segment} {cause : ArgumentFault} {path : Path} {fault : Fault}

/-! ## One segment -/

theorem not_mayPrecede_iff :
    ¬before.MayPrecede segment ↔ before.isProperty = true ∧ segment.name? = none := by
  rw [Segment.MayPrecede, Classical.not_imp, not_not, isProperty_iff, and_comm]

/-- Where it may stand, a segment is checked as it would be at the front. -/
theorem fault?_of_mayPrecede (place : ∀ before ∈ previous, before.MayPrecede segment) :
    segment.fault? previous = segment.fault? none := by
  rw [Segment.fault?, Segment.fault?]
  cases hname : segment.name? with
  | some name => rfl
  | none =>
    -- only a segment without a name asks what it stands behind
    have suffixed : previous.any Segment.isProperty = false := by
      rw [← Bool.not_eq_true, Option.any_eq_true]
      rintro ⟨before, behind, plain⟩
      exact not_mayPrecede_iff.mpr ⟨plain, hname⟩ (place before behind)
    simp only [suffixed, Option.any_none]

theorem fault?_of_not_mayPrecede (h : ¬before.MayPrecede segment) :
    segment.fault? (some before) = some (.nameNeeded segment) := by
  obtain ⟨plain, bare⟩ := not_mayPrecede_iff.mp h
  simp [Segment.fault?, bare, plain]

theorem fault?_of_name? {name : String} (own : segment.name? = some name)
    (h : ¬IsName name.toList) : segment.fault? previous = some (.invalidName name) := by
  have invalid : nameFault? name = some (.invalidName name) := by
    rw [nameFault?, if_neg (mt (isName_iff name).mp h)]
  simp [Segment.fault?, own, invalid]

theorem fault?_eq_ownKeyFault? (name : ∀ name ∈ segment.name?, IsName name.toList)
    (place : ∀ before ∈ previous, before.MayPrecede segment) :
    segment.fault? previous = segment.ownKeyFault? := by
  rw [fault?_of_mayPrecede place, Segment.fault?]
  cases hname : segment.name? with
  | some own =>
    have valid : nameFault? own = none := (nameFault?_eq_none_iff own).mpr (name own hname)
    simp [valid]
  | none => rfl

theorem fault?_of_isFault (h : segment.IsFault previous cause) :
    segment.fault? previous = some cause := by
  cases h with
  | invalidName own h => exact fault?_of_name? own h
  | nameNeeded behind h =>
    rw [behind]
    exact fault?_of_not_mayPrecede h
  | @keyHasParen owner key name place h =>
    have last : Segment.fault? previous (.keyed owner key) = keyFault? key :=
      fault?_eq_ownKeyFault? name place
    rw [last, keyFault?, if_pos (List.contains_iff_mem.mpr h)]

theorem exists_isFault
    (h : ¬(segment.IsWritable ∧ ∀ before ∈ previous, before.MayPrecede segment)) :
    ∃ cause, segment.IsFault previous cause := by
  by_cases name : ∀ name ∈ segment.name?, IsName name.toList
  · by_cases place : ∀ before ∈ previous, before.MayPrecede segment
    · have key : ¬∀ owner key, segment = .keyed owner key → ')' ∉ key.toList :=
        fun key ↦ h ⟨⟨name, key⟩, place⟩
      push Not at key
      obtain ⟨owner, key, rfl, paren⟩ := key
      exact ⟨_, .keyHasParen name place paren⟩
    · push Not at place
      obtain ⟨before, behind, misplaced⟩ := place
      exact ⟨_, .nameNeeded behind misplaced⟩
  · push Not at name
    obtain ⟨name, own, invalid⟩ := name
    exact ⟨_, .invalidName own invalid⟩

/-- **The check of a segment finds what is wrong with it.** -/
theorem fault?_eq_some_iff :
    segment.fault? previous = some cause ↔ segment.IsFault previous cause := by
  refine ⟨fun h ↦ ?_, fault?_of_isFault⟩
  obtain ⟨found, isFault⟩ : ∃ found, segment.IsFault previous found := by
    apply exists_isFault
    rw [← fault?_eq_none_iff, h]
    exact Option.some_ne_none cause
  -- what is found is unique, since the check answers with it
  rwa [Option.some.inj ((fault?_of_isFault isFault).symm.trans h)] at isFault

/-! ## Rows of segments -/

theorem firstFault?_cons (previous : Option Segment) (segment : Segment) (rest : List Segment) :
    Segment.firstFault? previous (segment :: rest)
      = (segment.fault? previous).or (Segment.firstFault? (some segment) rest) := by
  rw [Segment.firstFault?, Option.orElse_eq_orElse, Option.orElse_eq_or]

/-- The segment that the check behind a row looks back at, when the row grows in front. -/
theorem getLast?_cons_or (previous : Option Segment) (segment : Segment) (rest : List Segment) :
    (segment :: rest).getLast?.or previous = rest.getLast?.or (some segment) := by
  rw [List.getLast?_cons]
  cases rest.getLast? <;> rfl

/-- Behind other segments a row is checked with the last one of them to look back at. -/
theorem firstFault?_append (previous : Option Segment) (front back : List Segment) :
    Segment.firstFault? previous (front ++ back)
      = (Segment.firstFault? previous front).or
        (Segment.firstFault? (front.getLast?.or previous) back) := by
  induction front generalizing previous with
  | nil => rfl
  | cons segment rest ih =>
    rw [List.cons_append, firstFault?_cons, firstFault?_cons, ih, getLast?_cons_or, Option.or_assoc]

/-- The answer for a row is the fault of one segment, and there is none in front of it. -/
theorem firstFault?_eq_some_iff : Segment.firstFault? previous segments = some cause
    ↔ ∃ front offender behind, segments = front ++ offender :: behind ∧
      Segment.firstFault? previous front = none ∧
      offender.fault? (front.getLast?.or previous) = some cause := by
  constructor
  · intro h
    induction segments generalizing previous with
    | nil => cases h
    | cons segment rest ih =>
      rw [firstFault?_cons, Option.or_eq_some_iff] at h
      rcases h with here | ⟨fine, later⟩
      · exact ⟨[], segment, rest, rfl, rfl, here⟩
      · obtain ⟨front, offender, behind, rfl, before, fault⟩ := ih later
        refine ⟨segment :: front, offender, behind, rfl, ?_, ?_⟩
        · rw [firstFault?_cons, fine, before]
          rfl
        · rwa [getLast?_cons_or]
  · rintro ⟨front, offender, behind, rfl, before, fault⟩
    rw [firstFault?_append, before, firstFault?_cons, fault]
    rfl

theorem firstFault?_none_eq_some_iff :
    Segment.firstFault? none segments = some cause ↔ IsFirstFault segments cause := by
  simp only [firstFault?_eq_some_iff, firstFault?_eq_none_iff, Option.or_none, fault?_eq_some_iff,
    Option.toList_none, List.nil_append, and_assoc, IsFirstFault]

/-! ## The answer of the checks -/

theorem ofSegments_eq_error_iff : Path.ofSegments segments = .error fault
    ↔ segments = [] ∧ fault = .argument .noSegments ∨
      ∃ cause, fault = .argument cause ∧ Segment.firstFault? none segments = some cause := by
  rw [Path.ofSegments]
  by_cases nil : segments = []
  · subst nil
    simp [Segment.firstFault?, eq_comm]
  · rw [if_neg nil]
    cases Segment.firstFault? none segments <;> simp [nil, eq_comm]

theorem firstFault?_of_ofSegments (h : Path.ofSegments segments = .ok path) :
    Segment.firstFault? none segments = none := by
  obtain ⟨wellFormed, -⟩ := ofSegments_eq_ok_iff.mp h
  exact firstFault?_eq_none_iff.mpr ⟨fun _ ↦ isWritable_of_mem wellFormed, wellFormed.chain⟩

theorem ofSegments_append_of_error (ne : front ≠ []) (h : Path.ofSegments front = .error fault) :
    Path.ofSegments (front ++ back) = .error fault := by
  obtain ⟨nil, -⟩ | ⟨cause, rfl, found⟩ := ofSegments_eq_error_iff.mp h
  · exact absurd nil ne
  · refine ofSegments_eq_error_iff.mpr (.inr ⟨cause, rfl, ?_⟩)
    rw [firstFault?_append, found]
    rfl

section Joint

variable (made : Path.ofSegments front = .ok path) (hlast : front.getLast? = some last)
include made hlast

theorem firstFault?_append_of_ofSegments (back : List Segment) :
    Segment.firstFault? none (front ++ back) = Segment.firstFault? (some last) back := by
  rw [firstFault?_append, firstFault?_of_ofSegments made, hlast]
  rfl

/-- Only a suffix without a name fails behind a plain property. -/
theorem ofSegments_append_of_not_mayPrecede (hfirst : back.head? = some first)
    (h : ¬last.MayPrecede first) :
    Path.ofSegments (front ++ back) = .error (.argument (.nameNeeded first)) := by
  obtain ⟨rest, rfl⟩ := List.head?_eq_some_iff.mp hfirst
  refine ofSegments_eq_error_iff.mpr (.inr ⟨_, rfl, ?_⟩)
  rw [firstFault?_append_of_ofSegments made hlast, firstFault?_cons, fault?_of_not_mayPrecede h]
  rfl

/-- Where the joint is in order, the second row is checked as it would be on its own. -/
theorem ofSegments_append_of_mayPrecede (hfirst : back.head? = some first)
    (h : last.MayPrecede first) :
    Path.ofSegments (front ++ back) = (Path.ofSegments back).map fun _ ↦ ⟨front ++ back⟩ := by
  obtain ⟨rest, rfl⟩ := List.head?_eq_some_iff.mp hfirst
  have joint : Segment.firstFault? none (front ++ first :: rest)
      = Segment.firstFault? none (first :: rest) := by
    rw [firstFault?_append_of_ofSegments made hlast, firstFault?_cons, firstFault?_cons,
      fault?_of_mayPrecede (by simpa using h)]
  have ne : front ++ first :: rest ≠ [] :=
    List.append_ne_nil_of_right_ne_nil front (List.cons_ne_nil first rest)
  rw [Path.ofSegments, Path.ofSegments, if_neg ne, if_neg (List.cons_ne_nil first rest), joint]
  cases Segment.firstFault? none (first :: rest) <;> rfl

end Joint

end Faults

/-! ## The main result -/

/-- **The checks answer with the first fault of the row**, and the faults of two rows behind one
another are those of the rows. Let neither row be empty. If the first one fails, both together fail
in the same way. If it passes, ends with a plain property and the second begins with a suffix
without a name, then this suffix needs a name. Otherwise both together do as the second one does:
they fail in the same way, or make a path of all the segments. -/
theorem ofSegments_reports_first_fault :
    (∀ segments fault, Path.ofSegments segments = .error fault
      ↔ segments = [] ∧ fault = .argument .noSegments ∨
        ∃ cause, fault = .argument cause ∧ IsFirstFault segments cause) ∧
    ∀ front back : List Segment, front ≠ [] → back ≠ [] →
      (∀ fault, Path.ofSegments front = .error fault →
        Path.ofSegments (front ++ back) = .error fault) ∧
      ∀ path, Path.ofSegments front = .ok path → ∀ last first, front.getLast? = some last →
        back.head? = some first →
        (last.isProperty = true ∧ first.name? = none →
          Path.ofSegments (front ++ back) = .error (.argument (.nameNeeded first))) ∧
        (¬(last.isProperty = true ∧ first.name? = none) →
          Path.ofSegments (front ++ back)
            = (Path.ofSegments back).map fun _ ↦ ⟨front ++ back⟩) := by
  refine ⟨fun segments fault ↦ ?_, fun front back ne _ ↦ ⟨fun fault ↦ ?_, ?_⟩⟩
  · simp only [ofSegments_eq_error_iff, firstFault?_none_eq_some_iff]
  · exact ofSegments_append_of_error ne
  · intro path made last first hlast hfirst
    rw [← not_mayPrecede_iff, not_not]
    exact ⟨ofSegments_append_of_not_mayPrecede made hlast hfirst,
      ofSegments_append_of_mayPrecede made hlast hfirst⟩

/-- At the joint the place is at fault, although on its own the second row has a key at fault. -/
theorem ofSegments_joint_before_key :
    Path.ofSegments [.keyed none ")"] = .error (.argument (.keyHasParen ")")) ∧
    Path.ofSegments ([.index none 0, .property "a"] ++ [.keyed none ")"])
      = .error (.argument (.nameNeeded (.keyed none ")"))) ∧
    IsFirstFault [.index none 0, .property "a", .keyed none ")"]
      (.nameNeeded (.keyed none ")")) := by
  obtain ⟨answers, joins⟩ := ofSegments_reports_first_fault
  have front : Path.ofSegments [.index none 0, .property "a"] = .ok ⟨_⟩ := rfl
  have joint := ((joins [.index none 0, .property "a"] [.keyed none ")"] nofun nofun).2 _ front
    (.property "a") (.keyed none ")") rfl rfl).1 ⟨rfl, rfl⟩
  refine ⟨by rfl, joint, ?_⟩
  obtain ⟨nil, -⟩ | ⟨cause, same, first⟩ := (answers _ _).mp joint
  · cases nil
  · cases same
    exact first

end PropertyPath
