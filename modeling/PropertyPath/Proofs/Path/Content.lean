import PropertyPath.Path.Basic
import PropertyPath.Proofs.Path.Parse
import PropertyPath.Proofs.Token.Tiling

/-!
# What parsing keeps

Some tokens are punctuation, and the others say something: a name, an integer or a key. What they
say, in the order of the text, is the flat view of the path that is read from them. Nothing of it is
lost, said twice or moved.

The parser puts a name and the suffix behind it into one segment, and the flat view takes the two
apart again. While the suffix is read, the name is neither in a segment nor among the tokens that
are left. It is the `owner`, and counts as said in front of them (`flatMap_components_eq`). This
holds of every row of tokens that is parsed without a fault, whether a text is scanned to it or not.
-/

namespace PropertyPath

open Grammar

/-! ## What tokens say -/

/-- The component that a token stands for, if it is not punctuation. -/
def TokenKind.component? : TokenKind → Option Component
  | .name text => some (.property text)
  | .index value => some (.index value)
  | .key text => some (.key text)
  | _ => none

/-- What tokens say. -/
def componentsOf (tokens : List Token) : List Component :=
  tokens.filterMap fun token ↦ token.kind.component?

/-- The tokens in front of the end of the path, or all of them if it is not among them. -/
def beforeEnd (tokens : List Token) : List Token :=
  tokens.takeWhile fun token ↦ token.kind ≠ .endOfPath

section Contents

variable {kind : TokenKind}

theorem componentsOf_cons (kind : TokenKind) (start stop : Nat) (tokens : List Token) :
    componentsOf (⟨kind, start, stop⟩ :: tokens)
      = kind.component?.toList ++ componentsOf tokens := by
  rw [componentsOf, List.filterMap_cons, ← componentsOf]
  rcases kind.component? with _ | component <;> rfl

theorem componentsOf_append (tokens tokens' : List Token) :
    componentsOf (tokens ++ tokens') = componentsOf tokens ++ componentsOf tokens' :=
  List.filterMap_append

theorem beforeEnd_cons (more : kind ≠ .endOfPath) (start stop : Nat) (tokens : List Token) :
    beforeEnd (⟨kind, start, stop⟩ :: tokens) = ⟨kind, start, stop⟩ :: beforeEnd tokens := by
  rw [beforeEnd, List.takeWhile_cons_of_pos (by simpa using more), ← beforeEnd]

theorem componentsOf_beforeEnd_cons (more : kind ≠ .endOfPath) (start stop : Nat)
    (tokens : List Token) :
    componentsOf (beforeEnd (⟨kind, start, stop⟩ :: tokens))
      = kind.component?.toList ++ componentsOf (beforeEnd tokens) := by
  rw [beforeEnd_cons more, componentsOf_cons]

theorem component?_of_isFinal (h : kind.IsFinal) : kind.component? = none := by
  cases kind with
  | endOfPath | misfit => rfl
  | _ => exact h.elim

/-- In a scan, nothing is said at the end of the path or behind it. -/
theorem componentsOf_beforeEnd_scan (expecting : Expecting) (text : List Char) (position : Nat) :
    componentsOf (beforeEnd (scan expecting text position))
      = componentsOf (scan expecting text position) := by
  obtain ⟨front, last, eq, tiling⟩ := exists_isTiling_scan expecting text position
  have before : ∀ token ∈ front, decide (token.kind ≠ .endOfPath) = true := by
    intro token mem
    rw [decide_eq_true_iff]
    intro ends
    exact tiling.ordinary token mem (ends ▸ trivial)
  have silent : ∀ tokens ⊆ [last], componentsOf tokens = [] := by
    intro tokens sub
    apply List.filterMap_eq_nil_iff.mpr
    intro token mem
    rw [List.mem_singleton.mp (sub mem)]
    exact component?_of_isFinal tiling.final
  rw [eq, beforeEnd, List.takeWhile_append_of_pos before, componentsOf_append, componentsOf_append,
    silent _ (List.takeWhile_subset _), silent _ (List.Subset.refl _)]

end Contents

/-! ## What the parser keeps -/

section Segments

variable {owner : Option String} {tokens : List Token} {segments : List Segment}

theorem exists_of_map_cons_eq_ok {parsed : Except Fault (List Segment)} {segment : Segment}
    (h : parsed.map (segment :: ·) = .ok segments) :
    ∃ rest, parsed = .ok rest ∧ segments = segment :: rest := by
  rcases parsed with fault | rest
  · cases h
  · cases h
    exact ⟨rest, rfl, rfl⟩

/-- **The parser keeps what the tokens say**, behind the name that owns a suffix at their front. A
name may only be waiting for a suffix that follows. -/
theorem flatMap_components_eq (h : segmentsOfTokens owner tokens = .ok segments)
    (unowned : Token.opensSuffix tokens = false → owner = none) :
    segments.flatMap Segment.components
      = (owner.map Component.property).toList ++ componentsOf (beforeEnd tokens) := by
  fun_induction segmentsOfTokens owner tokens generalizing segments with
  | case1 owner =>
    obtain rfl := unowned rfl
    cases h
    rfl
  | case2 owner start stop tokens =>
    obtain rfl := unowned rfl
    cases h
    rfl
  | case3 owner start stop tokens named ih =>
    obtain rfl := unowned rfl
    rw [componentsOf_beforeEnd_cons (by simp)]
    exact ih h fun _ ↦ rfl
  | case5 owner start stop tokens name opens ih =>
    -- the name is said here, and then owns what follows
    obtain rfl := unowned rfl
    rw [componentsOf_beforeEnd_cons (by simp)]
    exact ih h fun closed ↦ absurd opens (by simp [closed])
  | case6 owner start stop tokens name closed ih =>
    obtain rfl := unowned rfl
    obtain ⟨rest, parsed, rfl⟩ := exists_of_map_cons_eq_ok h
    rw [componentsOf_beforeEnd_cons (by simp), List.flatMap_cons, ih parsed fun _ ↦ rfl]
    rfl
  | case7 owner start stop value start' stop' start'' stop'' tokens ih =>
    -- the brackets around the integer say nothing, and the owner goes into the segment
    obtain ⟨rest, parsed, rfl⟩ := exists_of_map_cons_eq_ok h
    rw [List.flatMap_cons, ih parsed fun _ ↦ rfl]
    rcases owner with _ | name <;> rfl
  | case10 owner start stop key start' stop' start'' stop'' tokens ih =>
    obtain ⟨rest, parsed, rfl⟩ := exists_of_map_cons_eq_ok h
    rw [List.flatMap_cons, ih parsed fun _ ↦ rfl]
    rcases owner with _ | name <;> rfl
  | case4 | case8 | case9 | case11 | case12 | case13 => cases h

end Segments

/-! ## The main result -/

section Parsing

variable {text : String} {path : Path}

/-- The segments of a path that was read are those of the tokens of its text, wherever the positions
are counted from. -/
theorem segmentsOfTokens_tokensOf_of_parse (h : Path.parse text = .ok path) (offset : Nat) :
    segmentsOfTokens none (tokensOf (Text.trim text.toList) offset) = .ok path.segments := by
  obtain ⟨items, ⟨derivation, chars⟩, segments⟩ := exists_derives_of_parse h
  rw [segments, ← chars, tokensOf_chars derivation, segmentsOfTokens_tokens offset derivation.chain]

/-- **Parsing keeps what the text says.** The flat view of a path that was read is what the tokens
of its text say, one component for each name, integer and key, in the order of the text. -/
theorem components_eq_tokens_of_parse (h : Path.parse text = .ok path) (offset : Nat) :
    path.components = componentsOf (tokensOf (Text.trim text.toList) offset) := by
  have parsed := segmentsOfTokens_tokensOf_of_parse h offset
  have kept := flatMap_components_eq parsed fun _ ↦ rfl
  rw [tokensOf, componentsOf_beforeEnd_scan] at kept
  exact kept

/-- The zero is said without its sign, the brackets in the key say nothing, and an empty key is
a component like any other. -/
theorem components_signed_zero_and_keys :
    Path.parse " pow[-0]([1])().x" = .ok
        ⟨[.index (some "pow") 0, .keyed none "[1]", .keyed none "", .property "x"]⟩ ∧
      componentsOf (tokensOf (Text.trim " pow[-0]([1])().x".toList) 1)
        = [.property "pow", .index 0, .key "[1]", .key "", .property "x"] := by
  have parse : Path.parse " pow[-0]([1])().x" = .ok
      ⟨[.index (some "pow") 0, .keyed none "[1]", .keyed none "", .property "x"]⟩ := by
    decide +kernel
  exact ⟨parse, (components_eq_tokens_of_parse parse 1).symm⟩

end Parsing

end PropertyPath
