import PropertyPath.Proofs.Path.Parse
import PropertyPath.Proofs.Token.Order
import PropertyPath.Proofs.Token.Tiling

/-!
# The scanner and the parser agree

The parser has faults of its own for tokens out of place, and no text shows them. A scan that comes
to the end of the path leads there token by token, and such a row is parsed without a fault. So a
text is refused by the scanner or not at all, apart from the two checks made before the scan.

The parser takes several tokens at a time and the scanner one, so the induction is over the states
of the scanner: `IsPending` says which tokens the parser has still to take when the scanner is in
a state. One state further the parser has one token more before it, or has finished a segment.
-/

namespace PropertyPath

section Tokens

variable {owner : Option String} {front rest tokens : List Token} {segments : List Segment}

/-! ## Rows that are used up -/

/-- The parser makes `segments` of the tokens `front`, all of them, and goes on behind them. It
looks ahead by one token, so nothing that a name could own stands behind. -/
def UsesUp (owner : Option String) (front : List Token) (segments : List Segment) : Prop :=
  ∀ rest, Token.opensSuffix rest = false →
    segmentsOfTokens owner (front ++ rest) = (segmentsOfTokens none rest).map (segments ++ ·)

theorem opensSuffix_append (closed : Token.opensSuffix rest = false) :
    Token.opensSuffix (front ++ rest) = Token.opensSuffix front := by
  rcases front with _ | ⟨⟨kind, start, stop⟩, front⟩
  · exact closed
  · cases kind <;> rfl

theorem map_cons_map_append (segment : Segment) (segments : List Segment)
    (parsed : Except Fault (List Segment)) :
    (parsed.map (segments ++ ·)).map (segment :: ·) = parsed.map (segment :: segments ++ ·) := by
  cases parsed <;> rfl

theorem usesUp_nil : UsesUp none [] [] := by
  intro rest _
  rw [List.nil_append]
  cases segmentsOfTokens none rest <;> rfl

section Steps

variable (start stop start' stop' start'' stop'' : Nat)

theorem usesUp_dot (h : UsesUp none front segments) (named : Token.startsWithName front = true) :
    UsesUp none (⟨.dot, start, stop⟩ :: front) segments := by
  intro rest closed
  have named' : Token.startsWithName (front ++ rest) = true := by
    rcases front with _ | ⟨⟨kind, start, stop⟩, front⟩
    · cases named
    · cases kind <;> first | rfl | cases named
  rw [List.cons_append, segmentsOfTokens]
  simp only [named', if_true]
  exact h rest closed

theorem usesUp_property (h : UsesUp none front segments) (plain : Token.opensSuffix front = false)
    (name : String) :
    UsesUp none (⟨.name name, start, stop⟩ :: front) (.property name :: segments) := by
  intro rest closed
  have plain' : Token.opensSuffix (front ++ rest) = false := (opensSuffix_append closed).trans plain
  rw [List.cons_append, segmentsOfTokens]
  simp only [plain', Bool.false_eq_true, if_false]
  rw [h rest closed, map_cons_map_append]

theorem usesUp_owner {name : String} (h : UsesUp (some name) front segments)
    (opens : Token.opensSuffix front = true) :
    UsesUp owner (⟨.name name, start, stop⟩ :: front) segments := by
  intro rest closed
  have opens' : Token.opensSuffix (front ++ rest) = true := (opensSuffix_append closed).trans opens
  rw [List.cons_append, segmentsOfTokens]
  simp only [opens', if_true]
  exact h rest closed

theorem usesUp_index (h : UsesUp none front segments) (owner : Option String) (value : Int64) :
    UsesUp owner (⟨.openBracket, start, stop⟩ :: ⟨.index value, start', stop'⟩ ::
        ⟨.closeBracket, start'', stop''⟩ :: front) (.index owner value :: segments) := by
  intro rest closed
  rw [← map_cons_map_append, ← h rest closed]
  rfl

theorem usesUp_key (h : UsesUp none front segments) (owner : Option String) (key : String) :
    UsesUp owner (⟨.openParen, start, stop⟩ :: ⟨.key key, start', stop'⟩ ::
        ⟨.closeParen, start'', stop''⟩ :: front) (.keyed owner key :: segments) := by
  intro rest closed
  rw [← map_cons_map_append, ← h rest closed]
  rfl

end Steps

/-! ## Rows that lead to the end -/

/-- The tokens that the parser has still to take when the scanner is in a state. -/
inductive IsPending : Expecting → List Token → Prop
  | segment : IsPending .segment []
  | start : IsPending .name []
  | dot (start stop : Nat) : IsPending .name [⟨.dot, start, stop⟩]
  | openBracket (start stop : Nat) : IsPending .integer [⟨.openBracket, start, stop⟩]
  | index (start stop start' stop' : Nat) (value : Int64) :
    IsPending .closeBracket [⟨.openBracket, start, stop⟩, ⟨.index value, start', stop'⟩]
  | openParen (start stop : Nat) : IsPending .key [⟨.openParen, start, stop⟩]
  | key (start stop start' stop' : Nat) (key : String) :
    IsPending .closeParen [⟨.openParen, start, stop⟩, ⟨.key key, start', stop'⟩]

/-- If tokens are used up whoever owns them, so is a name in front of them. -/
theorem exists_usesUp_name (start stop : Nat) (name : String)
    (h : ∀ owner, owner = none ∨ Token.opensSuffix tokens = true →
      ∃ segments, (tokens ≠ [] → segments ≠ []) ∧ UsesUp owner tokens segments) :
    ∃ segments, segments ≠ [] ∧ UsesUp none (⟨.name name, start, stop⟩ :: tokens) segments := by
  cases opens : Token.opensSuffix tokens with
  | true =>
    obtain ⟨segments, ne, used⟩ := h (some name) (.inr opens)
    refine ⟨segments, ne ?_, usesUp_owner start stop used opens⟩
    rintro rfl
    cases opens
  | false =>
    obtain ⟨segments, -, used⟩ := h none (.inl rfl)
    exact ⟨_, List.cons_ne_nil _ _, usesUp_property start stop used opens name⟩

/-- **A row that leads to the end is used up.** What is pending is taken with it, by the name that
owns it if there is one. -/
theorem exists_usesUp {expecting : Expecting} (h : LeadsToEnd expecting tokens)
    {pending : List Token} (hpending : IsPending expecting pending)
    (howner : owner = none ∨ Token.opensSuffix (pending ++ tokens) = true) :
    ∃ segments, (pending ++ tokens ≠ [] → segments ≠ []) ∧
      UsesUp owner (pending ++ tokens) segments := by
  induction h generalizing owner pending with
  | nil =>
    cases hpending
    obtain rfl : owner = none := howner.resolve_right Bool.false_ne_true
    exact ⟨[], absurd rfl, usesUp_nil⟩
  | @cons _ _ _ _ tokens start stop first onward ih =>
    cases first with
    | dot =>
      cases hpending
      obtain rfl : owner = none := howner.resolve_right Bool.false_ne_true
      exact ih (.dot start stop) (.inl rfl)
    | openBracket =>
      cases hpending
      exact ih (.openBracket start stop) (.inr rfl)
    | openParen =>
      cases hpending
      exact ih (.openParen start stop) (.inr rfl)
    | name =>
      obtain ⟨segments, ne, used⟩ := exists_usesUp_name start stop _ fun _ ↦ ih .segment
      cases hpending with
      | start =>
        obtain rfl : owner = none := howner.resolve_right Bool.false_ne_true
        exact ⟨segments, fun _ ↦ ne, used⟩
      | dot =>
        obtain rfl : owner = none := howner.resolve_right Bool.false_ne_true
        exact ⟨segments, fun _ ↦ ne, usesUp_dot _ _ used rfl⟩
    | index =>
      cases hpending with
      | openBracket start' stop' =>
        exact ih (.index start' stop' start stop _) (.inr rfl)
    | closeBracket =>
      cases hpending with
      | index =>
        obtain ⟨segments, -, used⟩ := ih .segment (.inl rfl)
        exact ⟨_, fun _ ↦ List.cons_ne_nil _ _, usesUp_index _ _ _ _ _ _ used owner _⟩
    | key =>
      cases hpending with
      | openParen start' stop' =>
        exact ih (.key start' stop' start stop _) (.inr rfl)
    | closeParen =>
      cases hpending with
      | key =>
        obtain ⟨segments, -, used⟩ := ih .segment (.inl rfl)
        exact ⟨_, fun _ ↦ List.cons_ne_nil _ _, usesUp_key _ _ _ _ _ _ used owner _⟩

end Tokens

/-! ## Scanned texts -/

section Texts

variable {text : List Char} {offset : Nat} {front tokens : List Token} {last : Token}
  {segments : List Segment} {fault : Fault}

theorem exists_usesUp_of_tokensOf (h : tokensOf text offset = front ++ [last])
    (ends : last.kind = .endOfPath) : ∃ segments, segments ≠ [] ∧ UsesUp none front segments := by
  have leads : LeadsToEnd (.atStart text) front := leadsToEnd_of_scan h ends
  have pending : IsPending (.atStart text) [] := by
    rcases Grammar.atStart_eq_name_or_segment text with start | start <;> rw [start]
    · exact .start
    · exact .segment
  obtain ⟨segments, ne, used⟩ := exists_usesUp leads pending (.inl rfl)
  refine ⟨segments, ne ?_, used⟩
  rintro rfl
  obtain ⟨kind, mem, -⟩ := exists_beginsItem_of_tokensOf h ends
  cases mem

/-- If all tokens up to the end of the path are used up, their segments are a path. -/
theorem ofTokens_of_usesUp (used : UsesUp none front segments) (ne : segments ≠ [])
    (ends : last.kind = .endOfPath) : Path.ofTokens (front ++ [last]) = .ok ⟨segments⟩ := by
  obtain ⟨kind, start, stop⟩ := last
  obtain rfl : kind = .endOfPath := ends
  have parsed : segmentsOfTokens none (front ++ [⟨.endOfPath, start, stop⟩])
      = .ok (segments ++ []) := used _ rfl
  obtain ⟨first, rest, rfl⟩ := List.exists_cons_of_ne_nil ne
  rw [Path.ofTokens, parsed, List.append_nil]

/-- The tokens of a text that come to the end of the path are used up, and make a path. -/
theorem exists_ofTokens_of_tokensOf (h : tokensOf text offset = front ++ [last])
    (ends : last.kind = .endOfPath) :
    ∃ segments, segments ≠ [] ∧ UsesUp none front segments ∧
      Path.ofTokens (front ++ [last]) = .ok ⟨segments⟩ := by
  obtain ⟨segments, ne, used⟩ := exists_usesUp_of_tokensOf h ends
  exact ⟨segments, ne, used, ofTokens_of_usesUp used ne ends⟩

theorem exists_eq_append_of_tokensOrFault (h : tokensOrFault text offset = .ok tokens) :
    ∃ front last, tokens = front ++ [last] ∧ tokensOf text offset = front ++ [last] ∧
      last.kind = .endOfPath := by
  obtain ⟨front, last, eq, tiling⟩ := exists_isTiling_scan (.atStart text) text offset
  have final := tiling.final
  rw [tokensOrFault, rowOrFault, tokensOf, eq, List.getLast?_concat, Option.map_some] at h
  cases kind : last.kind with
  | endOfPath =>
    rw [kind] at h
    cases h
    exact ⟨front, last, rfl, eq, kind⟩
  | misfit fault position =>
    rw [kind] at h
    cases h
  | _ =>
    rw [kind] at final
    exact final.elim

theorem kind_of_tokensOrFault (h : tokensOrFault text offset = .error fault) :
    fault.kind = .malformed := by
  rw [tokensOrFault, rowOrFault] at h
  split at h
  · cases h
    rfl
  · cases h

/-- The parser takes whatever the scanner lets through. -/
theorem exists_ofTokens_of_tokensOrFault (h : tokensOrFault text offset = .ok tokens) :
    ∃ path, Path.ofTokens tokens = .ok path := by
  obtain ⟨front, last, rfl, scanned, ends⟩ := exists_eq_append_of_tokensOrFault h
  obtain ⟨segments, -, -, made⟩ := exists_ofTokens_of_tokensOf scanned ends
  exact ⟨⟨segments⟩, made⟩

end Texts

/-! ## The main result -/

/-- **The scanner and the parser agree.** Of a text that is neither blank nor bounded by dots a path
is read exactly if the scan comes to its end, and the text is refused with a fault exactly if the
scan stops with it. For tokens that come to the end of the path are in order, and the parser uses
all of them up. -/
theorem parse_agrees_with_scan {text : String} (hbounds : ¬IsBlankOrDotBounded text) :
    ((∃ path, Path.parse text = .ok path) ↔
      ∃ tokens, tokensOrFault (Text.trim text.toList) (Text.indent text.toList) = .ok tokens) ∧
    (∀ fault, Path.parse text = .error fault
      ↔ tokensOrFault (Text.trim text.toList) (Text.indent text.toList) = .error fault) ∧
    (∀ fault, Path.parse text = .error fault → fault.kind = .malformed) ∧
    ∀ (scanned : String) (offset : Nat) (front : List Token) (last : Token),
      tokensOf scanned.toList offset = front ++ [last] → last.kind = .endOfPath →
        IsOrderly (front.map Token.kind) ∧
        ∃ segments, segments ≠ [] ∧ UsesUp none front segments ∧
          Path.ofTokens (front ++ [last]) = .ok ⟨segments⟩ := by
  rw [parse_eq_bind hbounds]
  cases scan : tokensOrFault (Text.trim text.toList) (Text.indent text.toList) with
  | error fault =>
    refine ⟨⟨nofun, nofun⟩, ?_, ?_, fun _ _ _ _ h ends ↦
      ⟨isOrderly_of_tokensOf h ends, exists_ofTokens_of_tokensOf h ends⟩⟩
    · intro fault'
      constructor
      · intro eq
        exact congrArg Except.error (Except.error.inj eq)
      · intro eq
        exact congrArg Except.error (Except.error.inj eq)
    · intro fault' eq
      cases eq
      exact kind_of_tokensOrFault scan
  | ok tokens =>
    obtain ⟨path, parsed⟩ := exists_ofTokens_of_tokensOrFault scan
    have parse : (Except.ok tokens : Except Fault (List Token)).bind Path.ofTokens = .ok path :=
      parsed
    rw [parse]
    exact ⟨⟨fun _ ↦ ⟨tokens, rfl⟩, fun _ ↦ ⟨path, rfl⟩⟩, fun _ ↦ ⟨nofun, nofun⟩, nofun,
      fun _ _ _ _ h ends ↦ ⟨isOrderly_of_tokensOf h ends, exists_ofTokens_of_tokensOf h ends⟩⟩

/-- The parser would report a bracket behind a dot as well, but the scanner stops there first. The
tokens of a text with an empty key are in order. -/
theorem parse_stopped_by_scan :
    ¬IsBlankOrDotBounded " a.[0]" ∧ Path.parse " a.[0]" = .error (.malformed .nameExpected 3) ∧
      IsOrderly [.name "a", .openParen, .key "", .closeParen] := by
  have bounds : ¬IsBlankOrDotBounded " a.[0]" := by
    rw [IsBlankOrDotBounded]
    decide
  have stopped : tokensOrFault (Text.trim " a.[0]".toList) (Text.indent " a.[0]".toList)
      = .error (.malformed .nameExpected 3) := by
    decide +kernel
  have scanned : tokensOf "a()".toList 0
      = [⟨.name "a", 0, 1⟩, ⟨.openParen, 1, 2⟩, ⟨.key "", 2, 2⟩, ⟨.closeParen, 2, 3⟩]
        ++ [⟨.endOfPath, 3, 3⟩] := by
    decide +kernel
  obtain ⟨-, faults, -, tokens⟩ := parse_agrees_with_scan bounds
  exact ⟨bounds, (faults _).mpr stopped, (tokens "a()" 0 _ _ scanned rfl).1⟩

end PropertyPath
