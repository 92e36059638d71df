import PropertyPath.Path.OfTokens
import PropertyPath.Proofs.Grammar.Completion

/-!
# The tokens of a derivation

Every derivation has its tokens: those of its items one after the other, with a dot in front of a
name that is not the first, and the end of the path behind them. Scanning the text of a derivation
gives these tokens, and making segments of them gives the segments of the items.

A name and the suffix it owns are different tokens. What joins them again is one token of
lookahead, so the tokens behind a plain name must not open a suffix; that is where the order of
items in a row (`Item.MayPrecede`) is needed.
-/

namespace PropertyPath.Grammar

/-! ## Tokens of items -/

/-- The tokens of a suffix that begins at a position. -/
def Suffix.tokens (position : Nat) : Suffix → List Token
  | index literal =>
    let stop := position + 1 + literal.chars.length
    [⟨.openBracket, position, position + 1⟩,
      ⟨.index (Int64.ofInt literal.value), position + 1, stop⟩, ⟨.closeBracket, stop, stop + 1⟩]
  | key text =>
    let stop := position + 1 + text.length
    [⟨.openParen, position, position + 1⟩, ⟨.key (String.ofList text), position + 1, stop⟩,
      ⟨.closeParen, stop, stop + 1⟩]

/-- The token of a name that begins at a position. -/
def nameToken (position : Nat) (name : List Char) : Token :=
  ⟨.name (String.ofList name), position, position + name.length⟩

/-- The tokens of an item that begins at a position. -/
def Item.tokens (position : Nat) : Item → List Token
  | plain name => [nameToken position name]
  | suffixed none suffix => suffix.tokens position
  | suffixed (some name) suffix =>
    nameToken position name :: suffix.tokens (position + name.length)

/-- The tokens of an item that is not the first one. -/
def Item.followingTokens (position : Nat) (item : Item) : List Token :=
  if item.name?.isSome then ⟨.dot, position, position + 1⟩ :: item.tokens (position + 1)
  else item.tokens position

/-- The tokens of a row that begins at a position, up to the end of the path. -/
def rowTokens (position : Nat) : List Item → List Token
  | [] => [⟨.endOfPath, position, position⟩]
  | item :: items =>
    item.followingTokens position ++ rowTokens (position + item.followingChars.length) items

/-- The tokens of the items of a path that begins at a position. -/
def tokens (position : Nat) : List Item → List Token
  | [] => [⟨.endOfPath, position, position⟩]
  | first :: rest => first.tokens position ++ rowTokens (position + first.chars.length) rest

/-! ## Scanning a derivation -/

section Scans

variable {rest name : List Char} {suffix : Suffix} {item : Item} {items : List Item}
  (position : Nat)

theorem scan_dot (text : List Char) :
    scan .segment ('.' :: text) position
      = ⟨.dot, position, position + 1⟩ :: scan .name text (position + 1) :=
  scan_of_token position (read_dot text)

theorem scan_name (h : IsName name) (boundary : ∀ c ∈ rest.head?, isNameChar c = false) :
    scan .name (name ++ rest) position
      = nameToken position name :: scan .segment rest (position + name.length) :=
  scan_of_token position (read_name h boundary)

theorem scan_suffix (h : suffix.IsWritten IsInt64) (rest : List Char) :
    scan .segment (suffix.chars ++ rest) position
      = suffix.tokens position ++ scan .segment rest (position + suffix.chars.length) := by
  cases suffix with
  | index literal =>
    have text : (Suffix.index literal).chars ++ rest = '[' :: (literal.chars ++ ']' :: rest) := by
      simp [Suffix.chars]
    have content : read .integer (literal.chars ++ ']' :: rest) = _ :=
      read_integer h.1 h.2 (by simp)
    rw [text, scan_of_token _ (read_openBracket _), scan_of_token _ content,
      scan_of_token _ (read_closeBracket _)]
    simp [Suffix.tokens, Suffix.chars, Nat.add_assoc, Nat.add_comm 1]
  | key key =>
    have text : (Suffix.key key).chars ++ rest = '(' :: (key ++ ')' :: rest) := by
      simp [Suffix.chars]
    rw [text, scan_of_token _ (read_openParen _), scan_of_token _ (read_key h),
      scan_of_token _ (read_closeParen _)]
    simp [Suffix.tokens, Suffix.chars, Nat.add_assoc, Nat.add_comm 1]

/-- Where an item begins with a name, a name is expected; where it does not, a suffix is. -/
theorem scan_item (h : item.IsWritten IsInt64)
    (boundary : ∀ c ∈ rest.head?, isNameChar c = false) :
    scan (if item.name?.isSome then .name else .segment) (item.chars ++ rest) position
      = item.tokens position ++ scan .segment rest (position + item.chars.length) := by
  rcases item with name | ⟨_ | name, suffix⟩
  · rw [chars_plain]
    exact scan_name position (h.1 name rfl) boundary
  · exact scan_suffix position (h.2 suffix rfl) rest
  · rw [chars_owned, List.append_assoc, List.length_append, ← Nat.add_assoc]
    refine (scan_name position (h.1 name rfl) (boundary_suffix suffix rest)).trans ?_
    rw [scan_suffix _ (h.2 suffix rfl)]
    rfl

/-- The dot is a token of its own, after which a name is expected. -/
theorem scan_followingItem (h : item.IsWritten IsInt64)
    (boundary : ∀ c ∈ rest.head?, isNameChar c = false) :
    scan .segment (item.followingChars ++ rest) position
      = item.followingTokens position
        ++ scan .segment rest (position + item.followingChars.length) := by
  have hitem := fun start ↦ scan_item start h boundary
  rw [Item.followingChars, Item.followingTokens]
  by_cases named : item.name?.isSome = true
  · simp only [named, if_true] at hitem ⊢
    rw [List.append_assoc, List.singleton_append, scan_dot, hitem]
    simp [Nat.add_assoc, Nat.add_comm 1]
  · simp only [named, if_false, Bool.false_eq_true] at hitem ⊢
    exact hitem position

theorem scan_row (h : IsRow IsInt64 items) :
    scan .segment (row items) position = rowTokens position items := by
  induction items generalizing position with
  | nil => exact scan_of_endOfPath position rfl
  | cons item items ih =>
    obtain ⟨written, -, hitems⟩ := isRow_cons_iff.mp h
    have boundary := boundary_of_isRowText ⟨items, hitems, rfl⟩
    rw [row_cons, rowTokens, scan_followingItem position written boundary, ih _ hitems]

/-- **The tokens of a derived text are the tokens of its derivation.** -/
theorem tokensOf_chars (h : IsPath IsInt64 items) (offset : Nat) :
    tokensOf (chars items) offset = tokens offset items := by
  obtain ⟨first, rest, rfl⟩ := List.exists_cons_of_ne_nil h.ne_nil
  obtain ⟨written, -, hrest⟩ := isRow_cons_iff.mp h.toIsRow
  have boundary := boundary_of_isRowText ⟨rest, hrest, rfl⟩
  rw [tokensOf, atStart_chars h.toIsRow, chars, tokens, scan_item offset written boundary,
    scan_row _ hrest]

end Scans

/-! ## Segments of the tokens -/

section Segments

variable {items : List Item} (position : Nat) (tail : List Token)

/-- A suffix makes a segment together with the name that owns it. -/
theorem segmentsOfTokens_suffix (owner : Option String) (suffix : Suffix) :
    segmentsOfTokens owner (suffix.tokens position ++ tail)
      = (segmentsOfTokens none tail).map (suffix.segment owner :: ·) := by
  cases suffix <;> rfl

theorem segmentsOfTokens_nameToken (name : List Char) :
    segmentsOfTokens none (nameToken position name :: tail)
      = if Token.opensSuffix tail then segmentsOfTokens (some (String.ofList name)) tail
        else (segmentsOfTokens none tail).map (.property (String.ofList name) :: ·) := by
  rw [nameToken, segmentsOfTokens]

/-- The tokens of an item make its segment, unless a suffix would join a plain name. -/
theorem segmentsOfTokens_item (item : Item)
    (h : item.suffix? = none → Token.opensSuffix tail = false) :
    segmentsOfTokens none (item.tokens position ++ tail)
      = (segmentsOfTokens none tail).map (item.segment :: ·) := by
  rcases item with name | ⟨_ | name, suffix⟩
  · rw [Item.tokens, List.singleton_append, segmentsOfTokens_nameToken, h rfl,
      if_neg Bool.false_ne_true]
    rfl
  · exact segmentsOfTokens_suffix position tail none suffix
  · have opens : Token.opensSuffix (suffix.tokens (position + name.length) ++ tail) = true := by
      cases suffix <;> rfl
    rw [Item.tokens, List.cons_append, segmentsOfTokens_nameToken, opens, if_pos rfl,
      segmentsOfTokens_suffix]
    rfl

theorem segmentsOfTokens_followingItem (item : Item)
    (h : item.suffix? = none → Token.opensSuffix tail = false) :
    segmentsOfTokens none (item.followingTokens position ++ tail)
      = (segmentsOfTokens none tail).map (item.segment :: ·) := by
  rw [Item.followingTokens]
  split
  · next named =>
    have starts : Token.startsWithName (item.tokens (position + 1) ++ tail) = true := by
      rcases item with name | ⟨_ | name, suffix⟩
      · rfl
      · cases named
      · rfl
    rw [List.cons_append, segmentsOfTokens]
    simp only [starts, if_true]
    exact segmentsOfTokens_item _ tail item h
  · exact segmentsOfTokens_item _ tail item h

/-- Where no bare suffix may stand, the tokens of a row open none. -/
theorem opensSuffix_rowTokens (h : ∀ next ∈ items.head?, next.name? ≠ none) :
    Token.opensSuffix (rowTokens position items) = false := by
  rcases items with _ | ⟨_ | ⟨_ | owner, suffix⟩, items⟩
  · rfl
  · rfl
  · exact absurd rfl (h _ rfl)
  · rfl

private theorem opensSuffix_behind {item : Item}
    (h : ∀ next ∈ items.head?, item.MayPrecede next) (plain : item.suffix? = none) :
    Token.opensSuffix (rowTokens position items) = false :=
  opensSuffix_rowTokens position fun next hnext bare ↦ h next hnext bare plain

theorem segmentsOfTokens_rowTokens (h : items.IsChain Item.MayPrecede) :
    segmentsOfTokens none (rowTokens position items) = .ok (items.map Item.segment) := by
  induction items generalizing position with
  | nil => rfl
  | cons item items ih =>
    obtain ⟨hnext, hitems⟩ := List.isChain_cons.mp h
    rw [rowTokens, segmentsOfTokens_followingItem _ _ _ (opensSuffix_behind _ hnext),
      ih _ hitems]
    rfl

/-- **The tokens of a derivation make its segments.** -/
theorem segmentsOfTokens_tokens (h : items.IsChain Item.MayPrecede) :
    segmentsOfTokens none (tokens position items) = .ok (items.map Item.segment) := by
  cases items with
  | nil => rfl
  | cons first rest =>
    obtain ⟨hnext, hrest⟩ := List.isChain_cons.mp h
    rw [tokens, segmentsOfTokens_item _ _ _ (opensSuffix_behind _ hnext),
      segmentsOfTokens_rowTokens _ hrest]
    rfl

end Segments

end PropertyPath.Grammar
