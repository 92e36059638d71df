import Mathlib.Algebra.Group.Int.Defs
import Mathlib.Data.List.Chain
import PropertyPath.Path.Basic
import PropertyPath.Proofs.Text.Integer

/-!
# The grammar of path texts

```text
path    :=  item  following*
item    :=  name suffix?  |  suffix
following  :=  '.' name suffix?  |  suffix           the bare suffix only behind a suffix
suffix  :=  '[' integer ']'  |  '(' key ')'
name    :=  [A-Za-z][A-Za-z0-9?!_]*
integer :=  '-'? ('0' | [1-9][0-9]*)
key     :=  any characters except ')'
```

A derivation is the list of its items, each kept as it is written: an integer with its digits, so
that `-0` and `0` are different derivations of different texts. `chars` is the text derived, and
`IsPath` says which lists of items the grammar generates.

The grammar says nothing about how large an integer may be. `IsPath` takes the restriction as an
argument: a path needs integers of 64 bits (`IsInt64`), while the places where a text leaves the
grammar are measured against the grammar without a restriction.
-/

namespace PropertyPath

/-- The integers of 64 bits. -/
def IsInt64 (value : Int) : Prop := -2 ^ 63 ≤ value ∧ value ≤ 2 ^ 63 - 1

instance : DecidablePred IsInt64 := fun value ↦
  inferInstanceAs (Decidable (-2 ^ 63 ≤ value ∧ value ≤ 2 ^ 63 - 1))

/-- An index is the integer that is written: the range of the words loses nothing. -/
theorem toInt_of_isInt64 {value : Int} (h : IsInt64 value) : (Int64.ofInt value).toInt = value :=
  Int64.toInt_ofInt_of_le h.1 (Int.lt_of_le_sub_one h.2)

namespace Grammar

open Text (IntegerLiteral IsMagnitude)

/-! ## Words -/

/-- The characters `[A-Za-z]`. -/
def IsLetter (c : Char) : Prop := 'A' ≤ c ∧ c ≤ 'Z' ∨ 'a' ≤ c ∧ c ≤ 'z'

instance : DecidablePred IsLetter := fun c ↦
  inferInstanceAs (Decidable ('A' ≤ c ∧ c ≤ 'Z' ∨ 'a' ≤ c ∧ c ≤ 'z'))

/-- The texts `[A-Za-z][A-Za-z0-9?!_]*`. -/
def IsName : List Char → Prop
  | [] => False
  | c :: rest =>
    IsLetter c ∧ ∀ d ∈ rest, IsLetter d ∨ '0' ≤ d ∧ d ≤ '9' ∨ d = '?' ∨ d = '!' ∨ d = '_'

instance : DecidablePred IsName
  | [] => isFalse id
  | c :: rest =>
    letI := List.decidableBAll
      (fun d ↦ IsLetter d ∨ '0' ≤ d ∧ d ≤ '9' ∨ d = '?' ∨ d = '!' ∨ d = '_') rest
    inferInstanceAs (Decidable (IsLetter c ∧
      ∀ d ∈ rest, IsLetter d ∨ '0' ≤ d ∧ d ≤ '9' ∨ d = '?' ∨ d = '!' ∨ d = '_'))

theorem isNameStart_iff (c : Char) : isNameStart c = true ↔ IsLetter c := by
  have upper : c.isUpper = true ↔ 'A' ≤ c ∧ c ≤ 'Z' := decide_eq_true_iff
  have lower : c.isLower = true ↔ 'a' ≤ c ∧ c ≤ 'z' := by
    change (decide ('a' ≤ c) && decide (c ≤ 'z')) = true ↔ _
    rw [Bool.and_eq_true, decide_eq_true_iff, decide_eq_true_iff]
  change (c.isUpper || c.isLower) = true ↔ _
  rw [Bool.or_eq_true, upper, lower, IsLetter]

theorem isNameChar_iff (c : Char) :
    isNameChar c = true ↔ IsLetter c ∨ '0' ≤ c ∧ c ≤ '9' ∨ c = '?' ∨ c = '!' ∨ c = '_' := by
  have digit : c.isDigit = true ↔ '0' ≤ c ∧ c ≤ '9' := Char.isDigit_iff_toNat
  rw [← isNameStart_iff, ← digit]
  simp [isNameChar, Char.isAlphanum, isNameStart, or_assoc]

/-- The two classes that the scanner and the validator look at are the ones of the grammar. -/
theorem isName_cons_iff {c : Char} {rest : List Char} :
    IsName (c :: rest) ↔ isNameStart c = true ∧ ∀ d ∈ rest, isNameChar d = true := by
  simp only [IsName, isNameStart_iff, isNameChar_iff]

theorem isNameChar_of_mem_name {name : List Char} (h : IsName name) :
    ∀ c ∈ name, isNameChar c = true := by
  rcases name with _ | ⟨c, rest⟩
  · exact h.elim
  · obtain ⟨start, inside⟩ := isName_cons_iff.mp h
    exact List.forall_mem_cons.mpr ⟨isNameChar_of_isNameStart start, inside⟩

/-! ## Items -/

/-- A suffix as it is written. -/
inductive Suffix where
  | index (literal : IntegerLiteral)
  | key (text : List Char)
deriving DecidableEq

/-- An item as it is written: a name, or a suffix with the name that owns it. -/
inductive Item where
  | plain (name : List Char)
  | suffixed (owner : Option (List Char)) (suffix : Suffix)
deriving DecidableEq

namespace Suffix

/-- The text of a suffix. -/
def chars : Suffix → List Char
  | index literal => '[' :: (literal.chars ++ [']'])
  | key text => '(' :: (text ++ [')'])

/-- The suffixes that can be written, with integers that fit. -/
def IsWritten (fits : Int → Prop) : Suffix → Prop
  | index literal => IsMagnitude literal.digits ∧ fits literal.value
  | key text => ')' ∉ text

instance (fits : Int → Prop) [DecidablePred fits] : DecidablePred (IsWritten fits)
  | index literal => inferInstanceAs (Decidable (IsMagnitude literal.digits ∧ fits literal.value))
  | key text => inferInstanceAs (Decidable (')' ∉ text))

/-- The segment that a suffix makes together with its owner. The word of an integer of 64 bits is
exact. -/
def segment (owner : Option String) : Suffix → Segment
  | index literal => .index owner (Int64.ofInt literal.value)
  | key text => .keyed owner (String.ofList text)

end Suffix

namespace Item

/-- The name of an item, if it has one. -/
def name? : Item → Option (List Char)
  | plain name => some name
  | suffixed owner _ => owner

/-- The suffix of an item, if it has one. -/
def suffix? : Item → Option Suffix
  | plain _ => none
  | suffixed _ suffix => some suffix

/-- The text of an item: its name, then its suffix. -/
def chars (item : Item) : List Char :=
  item.name?.getD [] ++ (item.suffix?.map Suffix.chars).getD []

/-- The text of an item that is not the first one. -/
def followingChars (item : Item) : List Char :=
  (if item.name?.isSome then ['.'] else []) ++ item.chars

/-- The items that can be written, with integers that fit. -/
def IsWritten (fits : Int → Prop) (item : Item) : Prop :=
  (∀ name ∈ item.name?, IsName name) ∧ ∀ suffix ∈ item.suffix?, suffix.IsWritten fits

instance (fits : Int → Prop) [DecidablePred fits] : DecidablePred (IsWritten fits) := fun item ↦
  inferInstanceAs (Decidable
    ((∀ name ∈ item.name?, IsName name) ∧ ∀ suffix ∈ item.suffix?, suffix.IsWritten fits))

/-- Whether `next` may follow: a bare suffix only follows a suffix. -/
def MayPrecede (item next : Item) : Prop := next.name? = none → item.suffix? ≠ none

instance : DecidableRel MayPrecede := fun item next ↦
  inferInstanceAs (Decidable (next.name? = none → item.suffix? ≠ none))

/-- The segment of an item. -/
def segment : Item → Segment
  | plain name => .property (String.ofList name)
  | suffixed owner suffix => suffix.segment (owner.map String.ofList)

end Item

/-! ## Rows of items -/

/-- The text of items that are not at the front of a path. -/
def row (items : List Item) : List Char := items.flatMap Item.followingChars

/-- The text of the items of a path. -/
def chars : List Item → List Char
  | [] => []
  | first :: rest => first.chars ++ row rest

/-- Items in a row, the first of which may be a bare suffix. -/
structure IsRow (fits : Int → Prop) (items : List Item) : Prop where
  written : ∀ item ∈ items, item.IsWritten fits
  chain : items.IsChain Item.MayPrecede

/-- The derivations of the grammar: there is a first item. -/
structure IsPath (fits : Int → Prop) (items : List Item) : Prop extends IsRow fits items where
  ne_nil : items ≠ []

instance (fits : Int → Prop) [DecidablePred fits] : DecidablePred (IsPath fits) := fun items ↦
  decidable_of_iff ((∀ item ∈ items, item.IsWritten fits) ∧ items.IsChain Item.MayPrecede ∧
      items ≠ [])
    ⟨fun ⟨written, chain, ne⟩ ↦ ⟨⟨written, chain⟩, ne⟩, fun h ↦ ⟨h.written, h.chain, h.ne_nil⟩⟩

section Rows

variable {fits : Int → Prop} {item : Item} {items : List Item} {suffix : Suffix}
  {owner : Option (List Char)} {name : List Char}

@[simp] theorem chars_plain (name : List Char) : (Item.plain name).chars = name := by
  simp [Item.chars, Item.name?, Item.suffix?]

@[simp] theorem chars_bare (suffix : Suffix) :
    (Item.suffixed none suffix).chars = suffix.chars := rfl

@[simp] theorem chars_owned (name : List Char) (suffix : Suffix) :
    (Item.suffixed (some name) suffix).chars = name ++ suffix.chars := rfl

@[simp] theorem followingChars_plain (name : List Char) :
    (Item.plain name).followingChars = '.' :: name := by
  simp [Item.followingChars, Item.name?]

@[simp] theorem followingChars_bare (suffix : Suffix) :
    (Item.suffixed none suffix).followingChars = suffix.chars := rfl

@[simp] theorem followingChars_owned (name : List Char) (suffix : Suffix) :
    (Item.suffixed (some name) suffix).followingChars = '.' :: (name ++ suffix.chars) := rfl

@[simp] theorem row_nil : row [] = [] := rfl

@[simp] theorem row_cons (item : Item) (items : List Item) :
    row (item :: items) = item.followingChars ++ row items := rfl

theorem isRow_nil : IsRow fits [] := ⟨by simp, .nil⟩

theorem isRow_cons_iff :
    IsRow fits (item :: items)
      ↔ item.IsWritten fits ∧ (∀ next ∈ items.head?, item.MayPrecede next) ∧ IsRow fits items := by
  constructor
  · rintro ⟨written, chain⟩
    rw [List.forall_mem_cons] at written
    rw [List.isChain_cons] at chain
    exact ⟨written.1, chain.1, written.2, chain.2⟩
  · rintro ⟨written, next, row⟩
    exact ⟨List.forall_mem_cons.mpr ⟨written, row.written⟩,
      List.isChain_cons.mpr ⟨next, row.chain⟩⟩

theorem isRow_plain_iff :
    IsRow fits (.plain name :: items)
      ↔ IsName name ∧ (∀ next ∈ items.head?, next.name? ≠ none) ∧ IsRow fits items := by
  simp [isRow_cons_iff, Item.IsWritten, Item.MayPrecede, Item.name?, Item.suffix?]

theorem isRow_suffixed_iff :
    IsRow fits (.suffixed owner suffix :: items)
      ↔ (∀ name ∈ owner, IsName name) ∧ suffix.IsWritten fits ∧ IsRow fits items := by
  simp [isRow_cons_iff, Item.IsWritten, Item.MayPrecede, Item.name?, Item.suffix?, and_assoc]

end Rows

end Grammar

end PropertyPath
