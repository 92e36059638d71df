import PropertyPath.Proofs.Path.RoundTrip

/-!
# The canonical text of a text

The canonical text of a path that was read is the text it was read from, without the white space
around it, and with the sign of every zero index dropped. On texts this is the work of
`unsignZeros`, which leaves keys alone, whatever they contain.

On derivations the same is said item by item: the canonical item of the segment of an item is the
item itself, unless its index is the signed zero, because every other literal is the one of its
value. A row is put together from there, with the rest of the text left open.
-/

namespace PropertyPath

open Grammar

/-- The text of a path with every index `-0` replaced by `0`. It is read from a place outside of
keys or, if `inKey`, from inside of one, up to whose end nothing is replaced. -/
def unsignZeros : (inKey : Bool) → List Char → List Char
  | _, [] => []
  | true, c :: rest => c :: unsignZeros (c != ')') rest
  | false, '[' :: '-' :: '0' :: ']' :: rest => '[' :: '0' :: ']' :: unsignZeros false rest
  | false, c :: rest => c :: unsignZeros (c == '(') rest

/-! ## Along a text -/

section Texts

open Text (IntegerLiteral IsMagnitude)

variable {front key name : List Char} {c : Char} (rest : List Char)

theorem unsignZeros_cons (bracket : c ≠ '[') (paren : c ≠ '(') :
    unsignZeros false (c :: rest) = c :: unsignZeros false rest := by
  have outside : (c == '(') = false := beq_false_of_ne paren
  rw [unsignZeros.eq_4 _ _ fun _ eq _ ↦ bracket eq, outside]

theorem unsignZeros_append (bracket : '[' ∉ front) (paren : '(' ∉ front) :
    unsignZeros false (front ++ rest) = front ++ unsignZeros false rest := by
  induction front with
  | nil => rfl
  | cons c front ih =>
    obtain ⟨bracket_ne, bracket⟩ := not_or.mp (List.mem_cons.not.mp bracket)
    obtain ⟨paren_ne, paren⟩ := not_or.mp (List.mem_cons.not.mp paren)
    rw [List.cons_append, unsignZeros_cons _ (Ne.symm bracket_ne) (Ne.symm paren_ne),
      ih bracket paren, List.cons_append]

theorem unsignZeros_name (h : IsName name) :
    unsignZeros false (name ++ rest) = name ++ unsignZeros false rest := by
  have inside := isNameChar_of_mem_name h
  refine unsignZeros_append rest (fun bracket ↦ ?_) (fun paren ↦ ?_)
  · cases inside _ bracket
  · cases inside _ paren

theorem unsignZeros_key (h : ')' ∉ key) :
    unsignZeros true (key ++ ')' :: rest) = key ++ ')' :: unsignZeros false rest := by
  induction key with
  | nil => rfl
  | cons c key ih =>
    obtain ⟨ne, h⟩ := not_or.mp (List.mem_cons.not.mp h)
    have inside : (c != ')') = true := bne_iff_ne.mpr (Ne.symm ne)
    rw [List.cons_append, unsignZeros, inside, ih h, List.cons_append]

/-- An index is replaced by the one that is written for its value. -/
theorem unsignZeros_index {literal : IntegerLiteral} (h : IsMagnitude literal.digits) :
    unsignZeros false ('[' :: (literal.chars ++ ']' :: rest))
      = '[' :: ((IntegerLiteral.ofInt literal.value).chars ++ ']' :: unsignZeros false rest) := by
  have boundary : ∀ more : List Char, ∀ c ∈ (']' :: more).head?, c.isDigit = false := by simp
  by_cases hzero : literal = .negativeZero
  · rw [hzero, IntegerLiteral.ofInt_value_negativeZero]
    rfl
  · have noZero : ∀ more, literal.chars ++ ']' :: rest ≠ '-' :: '0' :: ']' :: more := by
      intro more eq
      have split := Text.splitInteger_append_of_isMagnitude h (boundary rest)
      rw [eq] at split
      exact hzero (Prod.mk.inj split).1.symm
    have bracket : '[' ∉ literal.chars ++ [']'] := by
      simpa using Text.not_mem_chars_of_isMagnitude h rfl (by decide)
    have paren : '(' ∉ literal.chars ++ [']'] := by
      simpa using Text.not_mem_chars_of_isMagnitude h rfl (by decide)
    have inside : unsignZeros false (literal.chars ++ ']' :: rest)
        = literal.chars ++ ']' :: unsignZeros false rest := by
      simpa using unsignZeros_append rest bracket paren
    rw [unsignZeros.eq_4 _ _ fun more _ eq ↦ noZero more eq, IntegerLiteral.ofInt_value h hzero]
    exact congrArg _ inside

end Texts

/-! ## Along a derivation -/

namespace Grammar

open Text (IntegerLiteral)

/-- The suffix as the canonical text writes it. -/
def Suffix.canonical : Suffix → Suffix
  | index literal => index (.ofInt literal.value)
  | key text => key text

/-- The item as the canonical text writes it. -/
def Item.canonical : Item → Item
  | plain name => plain name
  | suffixed owner suffix => suffixed owner suffix.canonical

section Canonical

variable {fits : Int → Prop} {item : Item} {items : List Item} {suffix : Suffix}

@[simp] theorem name?_canonical (item : Item) : item.canonical.name? = item.name? := by
  cases item <;> rfl

theorem ofSegment_segment (h : item.IsWritten IsInt64) :
    Item.ofSegment item.segment = item.canonical := by
  rcases item with name | ⟨owner, literal | key⟩
  · simp [Item.segment, Item.ofSegment, Item.canonical]
  · have value : (Int64.ofInt literal.value).toInt = literal.value :=
      toInt_of_isInt64 (h.2 _ rfl).2
    simp [Item.segment, Suffix.segment, Item.ofSegment, Item.canonical, Suffix.canonical, value]
  · simp [Item.segment, Suffix.segment, Item.ofSegment, Item.canonical, Suffix.canonical]

theorem canonical_eq_self_iff (h : item.IsWritten fits) :
    item.canonical = item ↔ ∀ owner, item ≠ .suffixed owner (.index .negativeZero) := by
  rcases item with name | ⟨owner, literal | key⟩
  · simp [Item.canonical]
  · have ofInt_eq : IntegerLiteral.ofInt literal.value = literal ↔ literal ≠ .negativeZero := by
      refine ⟨?_, IntegerLiteral.ofInt_value (h.2 _ rfl).1⟩
      rintro eq rfl
      cases eq
    simpa [Item.canonical, Suffix.canonical] using ofInt_eq
  · simp [Item.canonical, Suffix.canonical]

theorem unsignZeros_suffix (h : suffix.IsWritten fits) (rest : List Char) :
    unsignZeros false (suffix.chars ++ rest)
      = suffix.canonical.chars ++ unsignZeros false rest := by
  rcases suffix with literal | key
  · simpa [Suffix.chars, Suffix.canonical] using unsignZeros_index rest h.1
  · have inside := unsignZeros_key rest h
    simpa [Suffix.chars, Suffix.canonical, unsignZeros] using inside

theorem unsignZeros_item (h : item.IsWritten fits) (rest : List Char) :
    unsignZeros false (item.chars ++ rest) = item.canonical.chars ++ unsignZeros false rest := by
  rcases item with name | ⟨_ | name, suffix⟩
  · rw [chars_plain, Item.canonical, chars_plain, unsignZeros_name rest (h.1 name rfl)]
  · exact unsignZeros_suffix (h.2 suffix rfl) rest
  · rw [chars_owned, Item.canonical, chars_owned, List.append_assoc, List.append_assoc,
      unsignZeros_name _ (h.1 name rfl), unsignZeros_suffix (h.2 suffix rfl)]

theorem unsignZeros_followingItem (h : item.IsWritten fits) (rest : List Char) :
    unsignZeros false (item.followingChars ++ rest)
      = item.canonical.followingChars ++ unsignZeros false rest := by
  rw [Item.followingChars, Item.followingChars, name?_canonical]
  split
  · rw [List.append_assoc, unsignZeros_append _ (by simp) (by simp), unsignZeros_item h,
      List.append_assoc]
  · exact unsignZeros_item h rest

theorem unsignZeros_row (h : ∀ item ∈ items, item.IsWritten fits) :
    unsignZeros false (row items) = row (items.map Item.canonical) := by
  induction items with
  | nil => rfl
  | cons item items ih =>
    rw [List.forall_mem_cons] at h
    rw [row_cons, unsignZeros_followingItem h.1, ih h.2, List.map_cons, row_cons]

/-- The text of a derivation without signed zeros is the text of its canonical items. -/
theorem unsignZeros_chars (h : ∀ item ∈ items, item.IsWritten fits) :
    unsignZeros false (chars items) = chars (items.map Item.canonical) := by
  rcases items with _ | ⟨first, others⟩
  · rfl
  · rw [List.forall_mem_cons] at h
    rw [chars, unsignZeros_item h.1, unsignZeros_row h.2]
    rfl

theorem map_ofSegment_map_segment (h : ∀ item ∈ items, item.IsWritten IsInt64) :
    (items.map Item.segment).map Item.ofSegment = items.map Item.canonical := by
  rw [List.map_map]
  exact List.map_congr_left fun item hmem ↦ ofSegment_segment (h item hmem)

theorem isPath_map_canonical (h : IsPath IsInt64 items) :
    IsPath IsInt64 (items.map Item.canonical) := by
  rw [← map_ofSegment_map_segment h.written]
  exact isPath_map_ofSegment (wellFormed_segments h)

/-- The canonical text of a derivation is its own text exactly if it has no signed zero. -/
theorem chars_map_canonical_eq_iff (h : IsPath IsInt64 items) :
    chars (items.map Item.canonical) = chars items
      ↔ ∀ owner, .suffixed owner (.index .negativeZero) ∉ items := by
  have itemwise : items.map Item.canonical = items ↔ ∀ item ∈ items, item.canonical = item := by
    rw [← List.map_inj_left, List.map_id']
  calc chars (items.map Item.canonical) = chars items
      ↔ items.map Item.canonical = items :=
        ⟨chars_inj (isPath_map_canonical h) h, congrArg chars⟩
    _ ↔ ∀ item ∈ items, ∀ owner, item ≠ .suffixed owner (.index .negativeZero) := by
        rw [itemwise]
        exact forall₂_congr fun item hmem ↦ canonical_eq_self_iff (h.written item hmem)
    _ ↔ ∀ owner, .suffixed owner (.index .negativeZero) ∉ items := by
        refine ⟨fun others owner hmem ↦ others _ hmem owner rfl, ?_⟩
        rintro others _ hmem owner rfl
        exact others owner hmem

end Canonical

end Grammar

/-! ## The main result -/

section Printing

variable {text : String} {path : Path} {items : List Item}

/-- The canonical text of a path that was read is the one of its derivation. -/
theorem toList_text_of_derives (h : Derives text items) :
    (Path.text ⟨items.map Item.segment⟩).toList = chars (items.map Item.canonical) := by
  rw [Path.text, ← chars_map_ofSegment, map_ofSegment_map_segment h.1.written]

/-- **Printing undoes reading but for signed zeros.** The canonical text of a path is the text it
was read from, without the white space around it and with every index `-0` replaced by `0`. So the
two texts are the same exactly if no index is written `-0`. The canonical text reads back as the
same path, and is its own canonical text. -/
theorem text_eq_unsignZeros_of_parse (h : Path.parse text = .ok path) :
    path.text.toList = unsignZeros false (Text.trim text.toList) ∧
    (path.text.toList = Text.trim text.toList
      ↔ ∀ items, Derives text items → ∀ owner, .suffixed owner (.index .negativeZero) ∉ items) ∧
    Path.parse path.text = .ok path := by
  obtain ⟨items, derives, segments⟩ := exists_derives_of_parse h
  obtain rfl : path = ⟨items.map Item.segment⟩ := congrArg Path.mk segments
  have printed := toList_text_of_derives derives
  refine ⟨?_, ⟨?_, ?_⟩, parse_textOf (wellFormed_segments derives.1)⟩
  · rw [printed, ← derives.2, unsignZeros_chars derives.1.written]
  · intro same others hothers
    -- any other derivation is this one
    obtain rfl : items = others := chars_inj derives.1 hothers.1 (derives.2.trans hothers.2.symm)
    rw [printed, ← derives.2] at same
    exact (chars_map_canonical_eq_iff derives.1).mp same
  · intro unsigned
    rw [printed, ← derives.2]
    exact (chars_map_canonical_eq_iff derives.1).mpr (unsigned items derives)

/-- A key may look like a signed zero and is kept. -/
theorem text_keyed_signed_zero :
    (Path.text ⟨[.index (some "a") 0, .keyed none "[-0]"]⟩).toList = "a[0]([-0])".toList := by
  have parse : Path.parse "\t a[-0]([-0]) "
      = .ok ⟨[.index (some "a") 0, .keyed none "[-0]"]⟩ := by decide +kernel
  have trim : Text.trim "\t a[-0]([-0]) ".toList = "a[-0]([-0])".toList := by decide
  rw [(text_eq_unsignZeros_of_parse parse).1, trim]
  decide

end Printing

end PropertyPath
