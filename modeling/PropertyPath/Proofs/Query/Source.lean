import PropertyPath.Json.Basic
import PropertyPath.Proofs.Path.Canonical
import PropertyPath.Proofs.Query.Walk
import PropertyPath.Proofs.Query.Wording

/-!
# Queries for one path

A query for a path can be built from the text that the path was read from, from its canonical text,
from the path itself, or from its segments once they are checked again. The path is the same each
time. What may differ is the source, the text by which a missing property is reported: the first
query keeps the text it was built from, and the other three have the canonical text.

An evaluation looks at the source in one place, where a walk stops at a missing value before the end
of the path. So the results are the same but for the source that such a fault quotes
(`SameButSource`). The two texts themselves differ exactly where the sign of a zero is dropped.
-/

namespace PropertyPath

open Grammar
open Walkable (view)

/-! ## What the source can change -/

/-- Results that are the same, except that a missing property is reported by another source. -/
inductive SameButSource {α : Type} (source source' : String) :
    Except Fault (Option α) → Except Fault (Option α) → Prop
  | same {result : Except Fault (Option α)}
    (other : ∀ fault, result = .error fault → fault.kind ≠ .noSuchProperty) :
    SameButSource source source' result result
  | missing (segment : String) :
    SameButSource source source' (.error (.noSuchProperty segment source))
      (.error (.noSuchProperty segment source'))

section Evaluations

variable {α : Type}

theorem sameButSource_of_kind_ne {source source' : String} {fault : Fault}
    (h : fault.kind ≠ .noSuchProperty) :
    SameButSource source source' (.error fault : Except Fault (Option α)) (.error fault) := by
  apply SameButSource.same
  rintro _ ⟨⟩
  exact h

/-- The messages have the same words, and quote the same but for the source. -/
theorem SameButSource.messages {source source' : String} {fault fault' : Fault}
    (h : SameButSource source source' (.error fault : Except Fault (Option α)) (.error fault')) :
    fault.message = quoting fault.frame fault.quoted ∧
      fault'.message = quoting fault.frame fault'.quoted ∧
      (fault' = fault ∨
        ∃ segment, fault.quoted = [segment, source] ∧ fault'.quoted = [segment, source']) := by
  cases h with
  | same => exact ⟨fault.message_eq_quoting, fault.message_eq_quoting, .inl rfl⟩
  | missing segment =>
    exact ⟨Fault.message_eq_quoting _, Fault.message_eq_quoting _, .inr ⟨segment, rfl, rfl⟩⟩

theorem Stop.sameButSource (stop : Stop α) (policy : AbsencePolicy) (source source' : String) :
    SameButSource source source' (stop.result policy source) (stop.result policy source') := by
  rcases stop with value | ⟨segment, rest⟩ | ⟨segment, expected, actual⟩
  · exact .same nofun
  · by_cases last : rest = []
    · rw [last, result_absent_nil, result_absent_nil]
      exact .same nofun
    · rw [result_absent_of_ne_nil last, result_absent_of_ne_nil last]
      -- the only place where the source is quoted
      rcases policy with _ | _
      · exact .missing segment.text
      · exact .same nofun
  · apply sameButSource_of_kind_ne
    exact nofun

/-- The source changes nothing but what the fault of a missing property quotes. -/
theorem sameButSource_evaluate [Walkable α] (policy : AbsencePolicy) (source source' : String)
    (segments : List Segment) (root : α) :
    SameButSource source source' (evaluate policy source segments root).result
      (evaluate policy source' segments root).result := by
  by_cases nil : (view root).isNil = true
  · rw [result_evaluate_of_isNil _ _ _ nil, result_evaluate_of_isNil _ _ _ nil]
    apply sameButSource_of_kind_ne
    exact nofun
  · rw [Bool.not_eq_true] at nil
    rw [result_evaluate _ _ _ nil, result_evaluate _ _ _ nil]
    exact Stop.sameButSource _ policy source source'

end Evaluations

/-! ## The two sources -/

/-- Whether a text writes an index as `-0`. -/
def WritesSignedZero (text : String) : Prop :=
  ∃ items, Derives text items ∧ ∃ owner, .suffixed owner (.index .negativeZero) ∈ items

section Sources

variable {text : String} {path : Path} {segments : List Segment}

theorem sourceOf_textOf (h : WellFormed segments) :
    Query.sourceOf (Path.textOf segments) = Path.textOf segments := by
  obtain ⟨derivation, chars⟩ := derives_textOf h
  rw [Query.sourceOf, ← chars, chars_map_ofSegment, String.ofList_toList]

/-- The source is the canonical text exactly if there is no sign to drop. -/
theorem sourceOf_eq_text_iff (h : Path.parse text = .ok path) :
    Query.sourceOf text = path.text ↔ ¬WritesSignedZero text := by
  obtain ⟨items, derives, segments⟩ := exists_derives_of_parse h
  obtain rfl : path = ⟨items.map Item.segment⟩ := congrArg Path.mk segments
  have canonical := chars_map_canonical_eq_iff derives.1
  have source : Query.sourceOf text = Path.text ⟨items.map Item.segment⟩
      ↔ chars (items.map Item.canonical) = chars items := by
    rw [← toList_text_of_derives derives, derives.2, ← String.toList_inj, Query.sourceOf,
      String.toList_ofList, eq_comm]
  rw [source, canonical]
  constructor
  · rintro unsigned ⟨others, derives', owner, mem⟩
    -- any other derivation is this one
    obtain rfl : items = others := chars_inj derives.1 derives'.1 (derives.2.trans derives'.2.symm)
    exact unsigned owner mem
  · intro unsigned owner mem
    exact unsigned ⟨items, derives, owner, mem⟩

end Sources

/-! ## The main result -/

/-- **All queries for one path agree.** Let a text read as a path. The queries built from the text,
from the canonical text of the path, from the path, and from its segments checked again are all for
this path. They have the same results, except that a fault of a missing property quotes the text in
the first case, without the white space around it, and the canonical text in the other three. So
the messages have the same words and quote the same segment. The two texts are the same, and all
four the same query, exactly if no index is written `-0`. -/
theorem queries_for_one_path_agree {α : Type} [Walkable α] {text : String} {path : Path}
    (h : Path.parse text = .ok path) (options : Options) :
    Query.ofText text options = .ok ⟨path, Query.sourceOf text, options⟩ ∧
    Query.ofText path.text options = .ok ⟨path, path.text, options⟩ ∧
    Query.ofPath path options = ⟨path, path.text, options⟩ ∧
    (Path.ofSegments path.segments).map (Query.ofPath · options)
      = .ok ⟨path, path.text, options⟩ ∧
    (∀ root : α, SameButSource (Query.sourceOf text) path.text
      ((Query.mk path (Query.sourceOf text) options).eval root)
      ((Query.mk path path.text options).eval root)) ∧
    (∀ (root : α) fault fault',
      (Query.mk path (Query.sourceOf text) options).eval root = .error fault →
      (Query.mk path path.text options).eval root = .error fault' →
      fault.message = quoting fault.frame fault.quoted ∧
        fault'.message = quoting fault.frame fault'.quoted ∧
        (fault' = fault ∨ ∃ segment, fault.quoted = [segment, Query.sourceOf text] ∧
          fault'.quoted = [segment, path.text])) ∧
    (Query.mk path (Query.sourceOf text) options = Query.mk path path.text options
      ↔ ¬WritesSignedZero text) := by
  have wellFormed := wellFormed_of_isMade (.ofText h)
  have checked : Path.ofSegments path.segments = .ok path :=
    ofSegments_eq_ok_iff.mpr ⟨wellFormed, rfl⟩
  have reread : Path.parse path.text = .ok path := parse_textOf wellFormed
  have source : Query.sourceOf path.text = path.text := sourceOf_textOf wellFormed
  have same (root : α) : SameButSource (Query.sourceOf text) path.text
      ((Query.mk path (Query.sourceOf text) options).eval root)
      ((Query.mk path path.text options).eval root) := sameButSource_evaluate _ _ _ _ root
  refine ⟨?_, ?_, rfl, ?_, same, ?_, ?_⟩
  · rw [Query.ofText, h]
    rfl
  · rw [Query.ofText, reread, source]
    rfl
  · rw [checked]
    rfl
  · intro root fault fault' first second
    have faults := same root
    rw [first, second] at faults
    exact faults.messages
  · rw [← sourceOf_eq_text_iff h]
    simp

/-- The element is missing in all cases. The fault quotes the text with the sign of the zero or
without. -/
theorem missing_element_quoted_by_source :
    Query.ofText " a[-0].b" .strict
        = .ok ⟨⟨[.index (some "a") 0, .property "b"]⟩, "a[-0].b", .strict⟩ ∧
      Query.ofText "a[0].b" .strict
        = .ok ⟨⟨[.index (some "a") 0, .property "b"]⟩, "a[0].b", .strict⟩ ∧
      (Query.mk ⟨[.index (some "a") 0, .property "b"]⟩ "a[-0].b" .strict).eval
        (Json.object [("a", .array [])]) = .error (.noSuchProperty "a[0]" "a[-0].b") ∧
      (Query.mk ⟨[.index (some "a") 0, .property "b"]⟩ "a[0].b" .strict).eval
        (Json.object [("a", .array [])]) = .error (.noSuchProperty "a[0]" "a[0].b") := by
  have parse : Path.parse " a[-0].b" = .ok ⟨[.index (some "a") 0, .property "b"]⟩ := by
    decide +kernel
  have source : Query.sourceOf " a[-0].b" = "a[-0].b" := by decide
  have canonical : Path.text ⟨[.index (some "a") 0, .property "b"]⟩ = "a[0].b" := by decide
  have missing : (Query.mk ⟨[.index (some "a") 0, .property "b"]⟩ "a[-0].b" .strict).eval
      (Json.object [("a", .array [])]) = .error (.noSuchProperty "a[0]" "a[-0].b") := by
    rfl
  obtain ⟨first, second, -, -, results, -, -⟩ :=
    queries_for_one_path_agree (α := Json) parse .strict
  have quoted := results (.object [("a", .array [])])
  rw [source, canonical, missing] at quoted
  rw [source] at first
  rw [canonical] at second
  refine ⟨first, second, missing, ?_⟩
  generalize (Query.mk ⟨[.index (some "a") 0, .property "b"]⟩ "a[0].b" .strict).eval
    (Json.object [("a", .array [])]) = result at quoted ⊢
  rcases quoted with other | segment
  · exact absurd rfl (other _ rfl)
  · rfl

end PropertyPath
