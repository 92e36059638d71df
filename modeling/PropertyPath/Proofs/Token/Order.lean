import PropertyPath.Proofs.Grammar.Completion

/-!
# The order of tokens

A scan that comes to the end of the path has gone from state to state, and each of its tokens was
read where it was expected. `LeadsToEnd` says this of a row of tokens: every token is a lexeme of
the state that the one before it left behind, and the state behind the last one needs nothing more.
It is the invariant of the scan, grown from the end of the row (`leadsToEnd_of_scan`).

What may stand next to what (`IsOrderly`) is read off one or two steps of such a row, which can be
entered at any token (`LeadsToEnd.exists_lexeme`).
-/

namespace PropertyPath

open Grammar (IsLexeme)

/-! ## Rows that lead to the end -/

/-- Tokens that lead from where something is expected to the end of the path. -/
inductive LeadsToEnd : Expecting → List Token → Prop
  | nil : LeadsToEnd .segment []
  | cons {expecting next : Expecting} {kind : TokenKind} {lexeme : List Char} {tokens : List Token}
    (start stop : Nat) (first : IsLexeme expecting kind lexeme next)
    (onward : LeadsToEnd next tokens) : LeadsToEnd expecting (⟨kind, start, stop⟩ :: tokens)

/-- Whether a token begins a name or a suffix. -/
def TokenKind.BeginsItem : TokenKind → Prop
  | .name _ | .openBracket | .openParen => True
  | _ => False

/-- Kinds of tokens in the order in which a path needs them. -/
structure IsOrderly (kinds : List TokenKind) : Prop where
  dot : ∀ front rest, kinds = front ++ .dot :: rest → ∃ name more, rest = .name name :: more
  openBracket : ∀ front rest, kinds = front ++ .openBracket :: rest →
    ∃ value more, rest = .index value :: .closeBracket :: more
  openParen : ∀ front rest, kinds = front ++ .openParen :: rest →
    ∃ key more, rest = .key key :: .closeParen :: more
  /-- A name is the first token or directly behind a dot. -/
  name : ∀ front name rest, kinds = front ++ .name name :: rest →
    front = [] ∨ ∃ before, front = before ++ [.dot]
  begins : ∃ kind ∈ kinds, kind.BeginsItem

section Rows

variable {expecting : Expecting} {tokens front : List Token} {kind : TokenKind}
  {kinds before behind : List TokenKind}

/-! ## Scans -/

theorem eq_nil_and_eq_of_singleton_eq_append {only last : Token} (h : [only] = front ++ [last]) :
    front = [] ∧ only = last := by
  have aligned : [] ++ [only] = front ++ [last] := h
  obtain ⟨none, same⟩ := List.append_inj' aligned rfl
  exact ⟨none.symm, List.singleton_inj.mp same⟩

/-- The path ends only where a dot or a suffix might follow. -/
theorem eq_segment_of_read_eq_endOfPath {text : List Char} (h : read expecting text = .endOfPath) :
    expecting = .segment := by
  have nil : (Reading.endOfPath).Splits text := h ▸ splits_read expecting text
  obtain rfl : text = [] := nil
  cases expecting with
  | segment => rfl
  | _ => cases h

/-- A scan that comes to the end of the path leads there token by token. -/
theorem leadsToEnd_of_scan {text : List Char} {position : Nat} {last : Token}
    (h : scan expecting text position = front ++ [last]) (ends : last.kind = .endOfPath) :
    LeadsToEnd expecting front := by
  fun_induction scan expecting text position generalizing front with
  | case1 expecting text position kind lexeme rest next hread ih =>
    -- the scan goes on behind this token, so it is not the last one
    rcases List.cons_eq_append_iff.mp h with ⟨rfl, one⟩ | ⟨more, rfl, onward⟩
    · exact absurd (List.cons.inj one).2.symm (Grammar.scan_ne_nil _ _ _)
    · exact .cons _ _ (Grammar.isLexeme_of_read hread) (ih onward)
  | case2 expecting text position hread =>
    obtain ⟨rfl, -⟩ := eq_nil_and_eq_of_singleton_eq_append h
    rw [eq_segment_of_read_eq_endOfPath hread]
    exact .nil
  | case3 expecting text position fault consumed column hread =>
    obtain ⟨-, rfl⟩ := eq_nil_and_eq_of_singleton_eq_append h
    cases ends

/-! ## Neighbours -/

namespace LeadsToEnd

/-- Before the end may come, one more token is read. -/
theorem exists_first (h : LeadsToEnd expecting tokens) (more : expecting ≠ .segment) :
    ∃ kind lexeme next rest, IsLexeme expecting kind lexeme next ∧ LeadsToEnd next rest ∧
      tokens.map Token.kind = kind :: rest.map Token.kind := by
  cases h with
  | nil => exact absurd rfl more
  | cons start stop first onward => exact ⟨_, _, _, _, first, onward, rfl⟩

/-- A row can be entered at any token: it was read in some state, and the rest leads to the end from
the state behind it. -/
theorem exists_lexeme (h : LeadsToEnd expecting tokens)
    (eq : tokens.map Token.kind = before ++ kind :: behind) :
    ∃ state lexeme next rest, IsLexeme state kind lexeme next ∧ LeadsToEnd next rest ∧
      rest.map Token.kind = behind := by
  induction h generalizing before with
  | nil => simp at eq
  | cons start stop first onward ih =>
    rw [List.map_cons] at eq
    rcases List.cons_eq_append_iff.mp eq with ⟨rfl, here⟩ | ⟨more, rfl, later⟩
    · obtain ⟨rfl, rfl⟩ := List.cons.inj here
      exact ⟨_, _, _, _, first, onward, rfl⟩
    · exact ih later

variable (h : LeadsToEnd expecting tokens)
include h

theorem name_behind_dot (eq : tokens.map Token.kind = before ++ .dot :: behind) :
    ∃ name more, behind = .name name :: more := by
  obtain ⟨_, _, _, _, here, onward, rfl⟩ := h.exists_lexeme eq
  cases here
  obtain ⟨_, _, _, _, name, -, eq⟩ := onward.exists_first (by decide)
  cases name
  exact ⟨_, _, eq⟩

theorem index_behind_openBracket (eq : tokens.map Token.kind = before ++ .openBracket :: behind) :
    ∃ value more, behind = .index value :: .closeBracket :: more := by
  obtain ⟨_, _, _, _, bracket, onward, rfl⟩ := h.exists_lexeme eq
  cases bracket
  obtain ⟨_, _, _, _, index, onward, eq⟩ := onward.exists_first (by decide)
  cases index
  obtain ⟨_, _, _, _, bracket, -, eq'⟩ := onward.exists_first (by decide)
  cases bracket
  exact ⟨_, _, eq.trans (congrArg _ eq')⟩

theorem key_behind_openParen (eq : tokens.map Token.kind = before ++ .openParen :: behind) :
    ∃ key more, behind = .key key :: .closeParen :: more := by
  obtain ⟨_, _, _, _, paren, onward, rfl⟩ := h.exists_lexeme eq
  cases paren
  obtain ⟨_, _, _, _, key, onward, eq⟩ := onward.exists_first (by decide)
  cases key
  obtain ⟨_, _, _, _, paren, -, eq'⟩ := onward.exists_first (by decide)
  cases paren
  exact ⟨_, _, eq.trans (congrArg _ eq')⟩

/-- Only behind a dot is a name expected, apart from the very front. -/
theorem dot_before_name {name : String}
    (eq : tokens.map Token.kind = before ++ .name name :: behind) :
    before = [] ∨ ∃ front, before = front ++ [.dot] := by
  rcases List.eq_nil_or_concat before with rfl | ⟨front, last, rfl⟩
  · exact Or.inl rfl
  · right
    rw [List.concat_eq_append, List.append_assoc] at eq
    obtain ⟨_, _, next, rest, previous, onward, eq⟩ := h.exists_lexeme eq
    cases onward with
    | nil => cases eq
    | cons start stop here onward =>
      -- the state in which the name was read is the one that the token before it left behind
      obtain ⟨rfl, -⟩ := List.cons.inj eq
      cases here
      cases previous
      exact ⟨front, List.concat_eq_append⟩

end LeadsToEnd

/-! ## Whole texts -/

theorem beginsItem_of_read {text lexeme rest : List Char} {next : Expecting}
    (h : read (.atStart text) text = .token kind lexeme rest next) : kind.BeginsItem := by
  rcases text with _ | ⟨c, more⟩
  · cases h
  · rw [Expecting.atStart] at h
    split at h
    · next opens =>
      rcases opens with rfl | rfl
      · cases h
        trivial
      · cases h
        trivial
    · cases Grammar.isLexeme_of_read h
      trivial

variable {text : List Char} {offset : Nat} {last : Token}
  (h : tokensOf text offset = front ++ [last]) (ends : last.kind = .endOfPath)
include h ends

theorem exists_beginsItem_of_tokensOf : ∃ kind ∈ front.map Token.kind, kind.BeginsItem := by
  rw [tokensOf] at h
  cases hread : read (.atStart text) text with
  | token kind lexeme rest next =>
    rw [scan_of_token offset hread] at h
    rcases List.cons_eq_append_iff.mp h with ⟨-, one⟩ | ⟨more, rfl, -⟩
    · exact absurd (List.cons.inj one).2.symm (Grammar.scan_ne_nil _ _ _)
    · exact ⟨kind, List.mem_cons_self, beginsItem_of_read hread⟩
  | endOfPath =>
    -- nothing is left to read, but then a name is expected
    have nil : (Reading.endOfPath).Splits text := hread ▸ splits_read _ text
    obtain rfl : text = [] := nil
    cases hread
  | misfit fault consumed column =>
    rw [scan_of_misfit offset hread] at h
    obtain ⟨-, rfl⟩ := eq_nil_and_eq_of_singleton_eq_append h
    cases ends

/-- **The tokens of a text are in order** if they come to the end of the path. -/
theorem isOrderly_of_tokensOf : IsOrderly (front.map Token.kind) := by
  have leads : LeadsToEnd (.atStart text) front := leadsToEnd_of_scan h ends
  constructor
  · intro before behind eq
    exact leads.name_behind_dot eq
  · intro before behind eq
    exact leads.index_behind_openBracket eq
  · intro before behind eq
    exact leads.key_behind_openParen eq
  · intro before name behind eq
    exact leads.dot_before_name eq
  · exact exists_beginsItem_of_tokensOf h ends

end Rows

end PropertyPath
