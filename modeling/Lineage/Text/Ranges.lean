set_option autoImplicit false

/-! # Character classes given by ranges

A Unicode property is data: a list of closed ranges of code points in increasing order. This file
holds the one way such a table is read, so that the table modules hold nothing but their data. -/

namespace Lineage.Text

/-- Whether the code point of `c` lies in one of the closed ranges `(first, last)` of `table`. -/
def inRanges (table : List (Nat × Nat)) (c : Char) : Bool :=
  table.any fun range => range.1 ≤ c.toNat && c.toNat ≤ range.2

end Lineage.Text
