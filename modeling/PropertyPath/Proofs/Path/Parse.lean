import PropertyPath.Proofs.Grammar.Edges
import PropertyPath.Proofs.Grammar.Tokens
import PropertyPath.Proofs.Grammar.Unique

/-!
# Parsing decides the grammar

The path written in a text is the one that the text's derivation describes, and there is such a
path exactly if there is a derivation. Every other text is refused: as an argument if it is blank
or bounded by dots, and as malformed otherwise.

Three lemmas give the outcome in each of the three cases, and the main result puts them together.
The cases exclude each other, since no path text is blank or bounded by dots.
-/

namespace PropertyPath

open Grammar

/-- The derivations of a text, the white space around it left aside. -/
def Derives (text : String) (items : List Item) : Prop :=
  IsPath IsInt64 items ∧ chars items = Text.trim text.toList

instance (text : String) (items : List Item) : Decidable (Derives text items) :=
  inferInstanceAs (Decidable (IsPath IsInt64 items ∧ chars items = Text.trim text.toList))

/-! ## Tokens or a fault -/

section Tokens

variable {text : List Char} {items : List Item} (offset : Nat)

theorem tokensOrFault_of_not_endsInMisfit (h : ¬EndsInMisfit (tokensOf text offset)) :
    tokensOrFault text offset = .ok (tokensOf text offset) := by
  rw [tokensOrFault, rowOrFault]
  split
  · next fault position last => exact absurd ⟨fault, position, last⟩ h
  · rfl

theorem tokensOrFault_of_stopsAt {offset : Nat} {fault : Misfit} {position : Nat}
    (h : StopsAt fault position (tokensOf text offset)) :
    tokensOrFault text offset = .error (.malformed fault position) := by
  rw [tokensOrFault, rowOrFault, h]

theorem endsInMisfit_tokensOf_iff :
    EndsInMisfit (tokensOf text offset) ↔ ¬∃ items, IsPath IsInt64 items ∧ chars items = text := by
  rw [tokensOf, endsInMisfit_scan_iff, exists_isPath_iff]

theorem tokensOrFault_chars (h : IsPath IsInt64 items) :
    tokensOrFault (chars items) offset = .ok (tokens offset items) := by
  have ends : ¬EndsInMisfit (tokensOf (chars items) offset) := by
    rw [endsInMisfit_tokensOf_iff, not_not]
    exact ⟨items, h, rfl⟩
  rw [tokensOrFault_of_not_endsInMisfit offset ends, tokensOf_chars h]

theorem ofTokens_tokens (h : IsPath IsInt64 items) :
    Path.ofTokens (tokens offset items) = .ok ⟨items.map Item.segment⟩ := by
  obtain ⟨first, rest, rfl⟩ := List.exists_cons_of_ne_nil h.ne_nil
  rw [Path.ofTokens, segmentsOfTokens_tokens offset h.chain]
  rfl

end Tokens

/-! ## The three outcomes -/

section Outcomes

variable {text : String} {items : List Item}

theorem parse_of_derives (h : Derives text items) :
    Path.parse text = .ok ⟨items.map Item.segment⟩ := by
  obtain ⟨hpath, htrim⟩ := h
  rw [Path.parse, ← htrim, Path.parseTrimmed, if_neg (chars_ne_nil hpath),
    isDotBounded_chars hpath, if_neg Bool.false_ne_true, tokensOrFault_chars _ hpath]
  exact ofTokens_tokens _ hpath

theorem derives_of_chars_eq (h : IsPath IsInt64 items) (eq : chars items = text.toList) :
    Derives text items :=
  ⟨h, by rw [← eq, trim_chars h]⟩

theorem parse_of_chars_eq (h : IsPath IsInt64 items) (eq : chars items = text.toList) :
    Path.parse text = .ok ⟨items.map Item.segment⟩ :=
  parse_of_derives (derives_of_chars_eq h eq)

/-- Whether a text is blank or bounded by dots, the white space around it left aside. -/
def IsBlankOrDotBounded (text : String) : Prop :=
  Text.trim text.toList = [] ∨ (Text.trim text.toList).head? = some '.' ∨
    (Text.trim text.toList).getLast? = some '.'

theorem parse_of_isBlankOrDotBounded (h : IsBlankOrDotBounded text) :
    ∃ fault, Path.parse text = .error (.argument fault) := by
  rw [Path.parse, Path.parseTrimmed]
  by_cases blank : Text.trim text.toList = []
  · exact ⟨.pathRequired, if_pos blank⟩
  · have dots : Path.isDotBounded (Text.trim text.toList) = true := by
      simpa [Path.isDotBounded] using h.resolve_left blank
    exact ⟨.dotBounded, by rw [if_neg blank, if_pos dots]⟩

theorem parse_eq_bind (hbounds : ¬IsBlankOrDotBounded text) :
    Path.parse text
      = (tokensOrFault (Text.trim text.toList) (Text.indent text.toList)).bind Path.ofTokens := by
  obtain ⟨blank, dots⟩ := not_or.mp hbounds
  have noDots : ¬Path.isDotBounded (Text.trim text.toList) = true := by
    simpa [Path.isDotBounded] using dots
  rw [Path.parse, Path.parseTrimmed, if_neg blank, if_neg noDots]

theorem parse_of_stopsAt {fault : Misfit} {position : Nat}
    (h : StopsAt fault position (tokensOf (Text.trim text.toList) (Text.indent text.toList)))
    (hbounds : ¬IsBlankOrDotBounded text) :
    Path.parse text = .error (.malformed fault position) := by
  rw [parse_eq_bind hbounds, tokensOrFault_of_stopsAt h]
  rfl

theorem parse_of_not_derives (h : ¬∃ items, Derives text items)
    (hbounds : ¬IsBlankOrDotBounded text) :
    ∃ fault position, Path.parse text = .error (.malformed fault position) := by
  obtain ⟨fault, position, stops⟩ := (endsInMisfit_tokensOf_iff (Text.indent text.toList)).mpr h
  exact ⟨fault, position, parse_of_stopsAt stops hbounds⟩

theorem exists_derives_of_parse {path : Path} (h : Path.parse text = .ok path) :
    ∃ items, Derives text items ∧ path.segments = items.map Item.segment := by
  by_cases derived : ∃ items, Derives text items
  · obtain ⟨items, hitems⟩ := derived
    rw [parse_of_derives hitems] at h
    cases h
    exact ⟨items, hitems, rfl⟩
  · by_cases bounds : IsBlankOrDotBounded text
    · obtain ⟨fault, eq⟩ := parse_of_isBlankOrDotBounded bounds
      cases h.symm.trans eq
    · obtain ⟨fault, position, eq⟩ := parse_of_not_derives derived bounds
      cases h.symm.trans eq

/-- No derivation is of a blank text or one bounded by dots. -/
theorem not_isBlankOrDotBounded_of_derives (h : Derives text items) :
    ¬IsBlankOrDotBounded text := by
  intro bounds
  obtain ⟨fault, eq⟩ := parse_of_isBlankOrDotBounded bounds
  cases (parse_of_derives h).symm.trans eq

end Outcomes

/-! ## The main result -/

/-- **Parsing decides the grammar.** A path is read exactly if the text has a derivation, which is
then the only one and says what the segments are, with the integers as they are written. The text
is refused as an argument exactly if it is blank or bounded by dots, and as malformed in all other
cases. -/
theorem parse_decides_grammar (text : String) :
    (∀ path, Path.parse text = .ok path
      ↔ ∃ items, Derives text items ∧ path.segments = items.map Item.segment) ∧
    (∀ items items', Derives text items → Derives text items' → items = items') ∧
    (∀ items, Derives text items → ∀ owner literal, .suffixed owner (.index literal) ∈ items →
      (Int64.ofInt literal.value).toInt = literal.value) ∧
    ((∃ fault, Path.parse text = .error fault ∧ fault.kind = .argument)
      ↔ IsBlankOrDotBounded text) ∧
    (∀ items, Derives text items → ¬IsBlankOrDotBounded text) ∧
    ((∃ fault, Path.parse text = .error fault ∧ fault.kind = .malformed)
      ↔ (¬∃ items, Derives text items) ∧ ¬IsBlankOrDotBounded text) := by
  refine ⟨fun path ↦ ⟨exists_derives_of_parse, ?_⟩, ?_, ?_, ⟨?_, ?_⟩,
    fun items ↦ not_isBlankOrDotBounded_of_derives, ⟨?_, ?_⟩⟩
  · rintro ⟨items, hitems, segments⟩
    rw [parse_of_derives hitems, ← segments]
  · intro items items' h h'
    exact chars_inj h.1 h'.1 (h.2.trans h'.2.symm)
  · intro items h owner literal hmem
    exact toInt_of_isInt64 ((h.1.written _ hmem).2 _ rfl).2
  · rintro ⟨fault, hparse, kind⟩
    by_contra bounds
    -- the other two outcomes are a path and a fault of the other kind
    by_cases derived : ∃ items, Derives text items
    · obtain ⟨items, h⟩ := derived
      cases hparse.symm.trans (parse_of_derives h)
    · obtain ⟨misfit, position, eq⟩ := parse_of_not_derives derived bounds
      cases hparse.symm.trans eq
      cases kind
  · intro bounds
    obtain ⟨fault, hparse⟩ := parse_of_isBlankOrDotBounded bounds
    exact ⟨_, hparse, rfl⟩
  · rintro ⟨fault, hparse, kind⟩
    refine ⟨?_, ?_⟩
    · rintro ⟨items, h⟩
      cases hparse.symm.trans (parse_of_derives h)
    · intro bounds
      obtain ⟨argument, eq⟩ := parse_of_isBlankOrDotBounded bounds
      cases hparse.symm.trans eq
      cases kind
  · rintro ⟨derived, bounds⟩
    obtain ⟨fault, position, hparse⟩ := parse_of_not_derives derived bounds
    exact ⟨_, hparse, rfl⟩

/-- White space is left aside, and a zero may have a sign. -/
theorem parse_signed_zero :
    Path.parse "\t a[-0](.) " = .ok ⟨[.index (some "a") 0, .keyed none "."]⟩ :=
  ((parse_decides_grammar _).1 _).mpr
    ⟨[.suffixed (some ['a']) (.index ⟨true, ['0']⟩), .suffixed none (.key ['.'])],
      by decide, rfl⟩

end PropertyPath
