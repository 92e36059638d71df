import PropertyPath.Fault

/-!
# Listings

How the parts of a value are listed for a reader: words, and groups of labelled items between
brackets. A listing is laid out either on one line, or with every item of a group on a line of its
own, indented by four spaces for each group around it and closed with a comma. This is what a reader
is shown of a path, segment by segment, and of a fault: its kind, its message and its position.

A text in a listing stands between double quotes, with the characters that would end it or that
cannot be seen written as escapes. The rule is stated for ASCII: quotation marks and backslashes are
escaped by a backslash, the line and page controls have letters of their own, and any other control
character is written as its code point in hexadecimal. An apostrophe needs no escape.
-/

namespace PropertyPath

/-! ## Quoted texts -/

namespace Text

/-- Whether a character is a control character of ASCII. -/
def isControl (c : Char) : Bool := c.toNat < 0x20 || c.toNat = 0x7F

/-- How a character is written between double quotes. -/
def escapeChar (c : Char) : String :=
  if c = '"' then "\\\""
  else if c = '\\' then "\\\\"
  else if c = '\t' then "\\t"
  else if c = '\n' then "\\n"
  else if c = '\r' then "\\r"
  else if c.toNat = 0 then "\\0"
  else if isControl c then "\\u\x7b" ++ String.ofList (Nat.toDigits 16 c.toNat) ++ "\x7d"
  else c.toString

/-- A text between double quotes. -/
def quote (text : String) : String := "\"" ++ String.join (text.toList.map escapeChar) ++ "\""

end Text

/-! ## Groups and words -/

inductive Listing where
  | word (text : String)
  /-- The items of a group stand between `opening` and `closing`, each behind its label. On one
  line they are set off from the brackets by `padding`. -/
  | group (opening padding closing : String) (items : List (String × Listing))

namespace Listing

/-- A quoted text. -/
def quoted (text : String) : Listing := word (Text.quote text)

/-- The fields of a value in braces, under its name. -/
def fields (name : String) (items : List (String × Listing)) : Listing :=
  group (name ++ " \x7b") " " "\x7d" (items.map fun item ↦ (item.1 ++ ": ", item.2))

/-- The elements of a list in brackets. -/
def elements (items : List Listing) : Listing :=
  group "[" "" "]" (items.map fun item ↦ ("", item))

/-- A value that may be missing. -/
def optional : Option Listing → Listing
  | some item => group "Some(" "" ")" [("", item)]
  | none => word "None"

mutual

/-- The listing on one line. -/
def oneLine : Listing → String
  | word text => text
  | group opening padding closing items =>
    opening ++ padding ++ oneLineItems items ++ padding ++ closing

def oneLineItems : List (String × Listing) → String
  | [] => ""
  | [(label, item)] => label ++ item.oneLine
  | (label, item) :: rest => label ++ item.oneLine ++ ", " ++ oneLineItems rest

end

/-- The space in front of a line inside `depth` groups. -/
def indentation (depth : Nat) : String := String.ofList (List.replicate (4 * depth) ' ')

mutual

/-- The listing with every item on a line of its own, inside `depth` groups. -/
def indentedAt (depth : Nat) : Listing → String
  | word text => text
  | group opening _ closing [] => opening ++ closing
  | group opening _ closing items =>
    opening ++ "\n" ++ indentedItems (depth + 1) items ++ indentation depth ++ closing

def indentedItems (depth : Nat) : List (String × Listing) → String
  | [] => ""
  | (label, item) :: rest =>
    indentation depth ++ label ++ item.indentedAt depth ++ ",\n" ++ indentedItems depth rest

end

/-- The listing with every item on a line of its own. -/
def indented (listing : Listing) : String := listing.indentedAt 0

end Listing

/-! ## Paths and faults -/

def Segment.listing : Segment → Listing
  | .property name => .fields "Property" [("name", .quoted name)]
  | .index name position =>
    .fields "Index"
      [("name", .optional (name.map .quoted)), ("index", .word (toString position))]
  | .keyed name key =>
    .fields "Mapped" [("name", .optional (name.map .quoted)), ("key", .quoted key)]

def Path.listing (path : Path) : Listing :=
  .fields "ParsedPath" [("segments", .elements (path.segments.map Segment.listing))]

def Fault.listing (fault : Fault) : Listing :=
  .fields "PathError"
    [("kind", .word fault.kind.label), ("msg", .quoted fault.message),
      ("position", .optional (fault.position?.map fun position ↦ .word (toString position)))]

end PropertyPath
