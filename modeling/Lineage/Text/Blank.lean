import Lineage.Text.Ranges

set_option autoImplicit false

/-! # Blanks: the Unicode property White_Space

Blanks separate words: the ASCII control blanks, the spaces of the various widths and the line and
paragraph separators. Zero-width space and byte order mark are not blanks. -/

namespace Lineage.Text

/-- The code points with the Unicode property White_Space. -/
def blankRanges : List (Nat × Nat) :=
  [(0x9, 0xD), (0x20, 0x20), (0x85, 0x85), (0xA0, 0xA0), (0x1680, 0x1680), (0x2000, 0x200A),
   (0x2028, 0x2029), (0x202F, 0x202F), (0x205F, 0x205F), (0x3000, 0x3000)]

/-- Whether `c` has the Unicode property White_Space. -/
def isBlank (c : Char) : Bool :=
  inRanges blankRanges c

end Lineage.Text
