/-!
# White space

The characters with the Unicode property `White_Space`, as a list of ranges.
-/

namespace SqlGen.Text

/-- The ranges of the property, each with both ends. -/
def blankRanges : List (Nat × Nat) :=
  [(0x09, 0x0D), (0x20, 0x20), (0x85, 0x85), (0xA0, 0xA0), (0x1680, 0x1680),
    (0x2000, 0x200A), (0x2028, 0x2029), (0x202F, 0x202F), (0x205F, 0x205F),
    (0x3000, 0x3000)]

/-- A character with the property. -/
def isBlank (c : Char) : Bool :=
  blankRanges.any fun r => r.1 ≤ c.toNat && c.toNat ≤ r.2

/-- The text without its leading white space. -/
def dropBlanks (text : List Char) : List Char := text.dropWhile isBlank

end SqlGen.Text
