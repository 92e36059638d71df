/-!
# White space

The characters with the Unicode property `White_Space`, and the trimming of a text by it. The set
is fixed by the character database: twenty-five code points in ten ranges. The byte order mark,
the zero width space and the information separators do not belong to it.

Trimming works on lists of characters, so that a count of characters is a `List.length`.
-/

namespace PropertyPath.Text

/-- The code points with the property `White_Space`, as inclusive ranges in increasing order. -/
def whiteSpaceRanges : List (Nat × Nat) :=
  [(0x09, 0x0D), (0x20, 0x20), (0x85, 0x85), (0xA0, 0xA0), (0x1680, 0x1680), (0x2000, 0x200A),
    (0x2028, 0x2029), (0x202F, 0x202F), (0x205F, 0x205F), (0x3000, 0x3000)]

def isWhiteSpace (c : Char) : Bool :=
  whiteSpaceRanges.any fun range ↦ range.1 ≤ c.toNat && c.toNat ≤ range.2

/-- The text without the white space in front of it. -/
def trimStart (text : List Char) : List Char := text.dropWhile isWhiteSpace

/-- The text without the white space behind it. -/
def trimEnd (text : List Char) : List Char := (text.reverse.dropWhile isWhiteSpace).reverse

/-- The text without the white space around it. -/
def trim (text : List Char) : List Char := trimEnd (trimStart text)

/-- How many white space characters stand in front of the text. -/
def indent (text : List Char) : Nat := (text.takeWhile isWhiteSpace).length

end PropertyPath.Text
