/-!
# Blank text

The characters with the Unicode property `White_Space`.
-/

namespace Entailment.Text

/-- The ranges of code points with the property `White_Space`. -/
def spaceRanges : List (Nat × Nat) :=
  [(0x9, 0xD), (0x20, 0x20), (0x85, 0x85), (0xA0, 0xA0), (0x1680, 0x1680), (0x2000, 0x200A),
    (0x2028, 0x2029), (0x202F, 0x202F), (0x205F, 0x205F), (0x3000, 0x3000)]

/-- Whether a character has the property `White_Space`. -/
def isSpace (c : Char) : Bool :=
  spaceRanges.any fun range => range.1 ≤ c.toNat && c.toNat ≤ range.2

/-- The text from its first character that is no white space. -/
def trimLeft (text : List Char) : List Char := text.dropWhile isSpace

end Entailment.Text
