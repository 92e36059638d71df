import PropertyPath.Path.OfSegments
import PropertyPath.Proofs.Path.Parse
import PropertyPath.Query.Basic

/-!
# Well-formed paths

There are two ways of making a path. The one checks segments made by hand, and `WellFormed` says
what it checks for: the checks pass exactly if the row of segments is well-formed. The other reads
a text and checks nothing; its paths are well-formed because every derivation of the grammar is.
So a path that was read passes the checks, and comes out of them as it is.
-/

namespace PropertyPath

open Grammar

/-! ## Well-formed rows of segments -/

/-- Whether `next` may follow: a segment without a name only follows one with a suffix. -/
def Segment.MayPrecede (segment next : Segment) : Prop := next.name? = none → segment.suffix? ≠ none

/-- Whether the name and the key of a segment, as far as it has them, can be written. -/
structure Segment.IsWritable (segment : Segment) : Prop where
  name : ∀ name ∈ segment.name?, IsName name.toList
  key : ∀ owner key, segment = .keyed owner key → ')' ∉ key.toList

/-- The rows of segments that are paths. -/
structure WellFormed (segments : List Segment) : Prop where
  /-- There is a first segment. -/
  ne_nil : segments ≠ []
  /-- Every name can be written. -/
  names : ∀ segment ∈ segments, ∀ name ∈ segment.name?, IsName name.toList
  /-- Every key can be written. -/
  keys : ∀ owner key, .keyed owner key ∈ segments → ')' ∉ key.toList
  /-- A segment without a name is the first one or directly behind an index or a key. -/
  chain : segments.IsChain Segment.MayPrecede

section Segments

variable {segments : List Segment} {segment : Segment} {previous : Option Segment} {path : Path}

theorem isWritable_of_mem (h : WellFormed segments) (hmem : segment ∈ segments) :
    segment.IsWritable where
  name := h.names segment hmem
  key owner key eq := h.keys owner key (eq ▸ hmem)

theorem wellFormed_of_isWritable (ne : segments ≠ [])
    (writable : ∀ segment ∈ segments, segment.IsWritable)
    (chain : segments.IsChain Segment.MayPrecede) : WellFormed segments where
  ne_nil := ne
  names segment hmem := (writable segment hmem).name
  keys owner key hmem := (writable _ hmem).key owner key rfl
  chain := chain

/-! ## The checks -/

/-- The validator's rule for names is the one of the grammar. -/
theorem isName_iff (name : String) : isName name = true ↔ IsName name.toList := by
  rw [isName]
  cases name.toList with
  | nil => simp [IsName]
  | cons c rest => simp [isName_cons_iff]

theorem nameFault?_eq_none_iff (name : String) : nameFault? name = none ↔ IsName name.toList := by
  rw [nameFault?, ← isName_iff]
  split <;> simp [*]

theorem keyFault?_eq_none_iff (key : String) : keyFault? key = none ↔ ')' ∉ key.toList := by
  rw [keyFault?]
  split <;> simp_all

theorem isProperty_iff (segment : Segment) :
    segment.isProperty = true ↔ segment.suffix? = none := by
  cases segment <;> simp [Segment.isProperty, Segment.suffix?]

theorem isWritable_iff : segment.IsWritable
    ↔ (∀ name ∈ segment.name?, IsName name.toList) ∧ segment.ownKeyFault? = none := by
  have key : segment.ownKeyFault? = none
      ↔ ∀ owner key, segment = .keyed owner key → ')' ∉ key.toList := by
    cases segment <;> simp [Segment.ownKeyFault?, keyFault?_eq_none_iff]
  rw [key]
  exact ⟨fun h ↦ ⟨h.name, h.key⟩, fun h ↦ ⟨h.1, h.2⟩⟩

theorem fault?_eq_none_iff : segment.fault? previous = none
    ↔ segment.IsWritable ∧ ∀ before ∈ previous, before.MayPrecede segment := by
  rw [Segment.fault?, isWritable_iff]
  -- a segment with a name may stand anywhere, and only such a segment has a name to check
  cases hname : segment.name? with
  | some name => simp [nameFault?_eq_none_iff, Segment.MayPrecede, hname]
  | none => cases previous <;> simp [Segment.MayPrecede, hname, isProperty_iff, and_comm]

theorem firstFault?_eq_none_iff : Segment.firstFault? previous segments = none
    ↔ (∀ segment ∈ segments, segment.IsWritable) ∧
      (previous.toList ++ segments).IsChain Segment.MayPrecede := by
  induction segments generalizing previous with
  | nil => cases previous <;> simp [Segment.firstFault?]
  | cons segment rest ih =>
    -- what is behind the segment sees the segment as its previous one
    have step : (previous.toList ++ segment :: rest).IsChain Segment.MayPrecede
        ↔ (∀ before ∈ previous, before.MayPrecede segment) ∧
          (segment :: rest).IsChain Segment.MayPrecede := by
      cases previous <;> simp
    rw [Segment.firstFault?, Option.orElse_eq_orElse, Option.orElse_eq_or, Option.or_eq_none_iff,
      fault?_eq_none_iff, ih, step, List.forall_mem_cons]
    exact ⟨fun ⟨⟨writable, place⟩, writables, chain⟩ ↦ ⟨⟨writable, writables⟩, place, chain⟩,
      fun ⟨⟨writable, writables⟩, place, chain⟩ ↦ ⟨⟨writable, place⟩, writables, chain⟩⟩

/-- **The checks pass exactly if the segments are well-formed**, and leave them as they are. -/
theorem ofSegments_eq_ok_iff :
    Path.ofSegments segments = .ok path ↔ WellFormed segments ∧ path = ⟨segments⟩ := by
  have checks : Segment.firstFault? none segments = none ↔ _ := firstFault?_eq_none_iff
  rw [Path.ofSegments]
  by_cases nil : segments = []
  · rw [if_pos nil]
    exact ⟨nofun, fun h ↦ absurd nil h.1.ne_nil⟩
  · rw [if_neg nil]
    split
    · next fault hfault =>
      refine ⟨nofun, fun ⟨h, _⟩ ↦ ?_⟩
      have noFault := checks.mpr ⟨fun _ ↦ isWritable_of_mem h, h.chain⟩
      cases hfault.symm.trans noFault
    · next noFault =>
      obtain ⟨writable, chain⟩ := checks.mp noFault
      constructor
      · rintro ⟨rfl⟩
        exact ⟨wellFormed_of_isWritable nil writable chain, rfl⟩
      · rintro ⟨-, rfl⟩
        rfl

end Segments

/-! ## Derivations -/

section Derivations

variable {fits : Int → Prop} {items : List Item} {item next : Item}

theorem name?_segment (item : Item) : item.segment.name? = item.name?.map String.ofList := by
  rcases item with name | ⟨owner, literal | key⟩ <;> rfl

theorem suffix?_segment_eq_none_iff (item : Item) :
    item.segment.suffix? = none ↔ item.suffix? = none := by
  rcases item with name | ⟨owner, literal | key⟩ <;>
    simp [Item.segment, Item.suffix?, Suffix.segment, Segment.suffix?]

theorem mayPrecede_segment_iff :
    item.segment.MayPrecede next.segment ↔ item.MayPrecede next := by
  rw [Segment.MayPrecede, Item.MayPrecede, name?_segment, Option.map_eq_none_iff, ne_eq, ne_eq,
    suffix?_segment_eq_none_iff]

theorem isWritable_segment (h : item.IsWritten fits) : item.segment.IsWritable where
  name name hname := by
    rw [name?_segment, Option.mem_def, Option.map_eq_some_iff] at hname
    obtain ⟨text, htext, rfl⟩ := hname
    rw [String.toList_ofList]
    exact h.1 text htext
  key owner key eq := by
    rcases item with name | ⟨_, literal | text⟩
    · cases eq
    · cases eq
    · cases eq
      rw [String.toList_ofList]
      exact h.2 (.key text) rfl

/-- Every derivation of the grammar is of a well-formed path. -/
theorem wellFormed_segments (h : IsPath fits items) : WellFormed (items.map Item.segment) := by
  refine wellFormed_of_isWritable ?_ ?_ ?_
  · rw [ne_eq, List.map_eq_nil_iff]
    exact h.ne_nil
  · rw [List.forall_mem_map]
    exact fun item hmem ↦ isWritable_segment (h.written item hmem)
  · rw [List.isChain_map]
    exact h.chain.imp fun item next ↦ mayPrecede_segment_iff.mpr

end Derivations

/-! ## The paths that are made -/

/-- The paths that are made, by reading a text or by checking segments made by hand. -/
inductive Path.IsMade : Path → Prop
  | ofText {text : String} {path : Path} (h : Path.parse text = .ok path) : IsMade path
  | ofSegments {segments : List Segment} {path : Path} (h : Path.ofSegments segments = .ok path) :
    IsMade path

/-- The queries that are made, from a text or from a path that was made before. -/
inductive Query.IsMade : Query → Prop
  | ofText {text : String} {options : Options} {query : Query}
    (h : Query.ofText text options = .ok query) : IsMade query
  | ofPath {path : Path} (h : path.IsMade) (options : Options) : IsMade (Query.ofPath path options)

theorem wellFormed_of_isMade {path : Path} (h : path.IsMade) : WellFormed path.segments := by
  cases h with
  | ofText h =>
    obtain ⟨items, hitems, segments⟩ := exists_derives_of_parse h
    rw [segments]
    exact wellFormed_segments hitems.1
  | ofSegments h =>
    obtain ⟨wellFormed, rfl⟩ := ofSegments_eq_ok_iff.mp h
    exact wellFormed

theorem isMade_path {query : Query} (h : query.IsMade) : query.path.IsMade := by
  cases h with
  | @ofText text options query h =>
    rw [Query.ofText] at h
    cases hparse : Path.parse text with
    | error fault =>
      rw [hparse] at h
      cases h
    | ok path =>
      rw [hparse] at h
      cases h
      exact .ofText hparse
  | ofPath h options => exact h

/-- **Every path is well-formed**, however it is made: it passes the checks of segments made by
hand as it is. So every query has a first segment to follow. -/
theorem every_path_is_wellFormed :
    (∀ path : Path, path.IsMade →
      WellFormed path.segments ∧ Path.ofSegments path.segments = .ok path) ∧
    ∀ query : Query, query.IsMade → 1 ≤ query.path.size := by
  refine ⟨fun path h ↦ ?_, fun query h ↦ ?_⟩
  · have wellFormed := wellFormed_of_isMade h
    exact ⟨wellFormed, ofSegments_eq_ok_iff.mpr ⟨wellFormed, rfl⟩⟩
  · exact List.length_pos_of_ne_nil (wellFormed_of_isMade (isMade_path h)).ne_nil

/-- An empty key can be written, and a suffix without a name may stand behind it. -/
theorem wellFormed_keyed_index :
    Path.ofSegments [.keyed (some "a") "", .index none (-1)]
        = .ok ⟨[.keyed (some "a") "", .index none (-1)]⟩ ∧
      WellFormed [.keyed (some "a") "", .index none (-1)] := by
  have made : Path.ofSegments [.keyed (some "a") "", .index none (-1)] = .ok ⟨_⟩ := rfl
  exact ⟨made, (every_path_is_wellFormed.1 _ (.ofSegments made)).1⟩

end PropertyPath
