set_option autoImplicit false

/-! # Positions, ranges and locations

Editors address text by line and column, both counted from zero, the column in UTF-16 code units.
Both numbers are 32-bit words. Sums of them are taken with a check: a sum that does not fit has no
value, rather than a wrapped one. -/

namespace Lineage

/-! ## Checked sums of words -/

/-- The sum of two words if it fits into 32 bits. -/
def addChecked (a b : UInt32) : Option UInt32 :=
  if a.toNat + b.toNat < UInt32.size then some (a + b) else none

/-- A checked sum is the sum of the numbers. -/
theorem toNat_addChecked {a b c : UInt32} (h : addChecked a b = some c) :
    c.toNat = a.toNat + b.toNat := by
  rw [addChecked] at h
  split at h
  · next hlt =>
    cases h
    rw [UInt32.toNat_add]
    exact Nat.mod_eq_of_lt hlt
  · cases h

/-! ## Positions -/

/-- A place in a text: line, and UTF-16 column within the line. -/
structure Position where
  line : UInt32
  character : UInt32
deriving DecidableEq

namespace Position

/-- The first place of a text. -/
def zero : Position := ⟨0, 0⟩

/-- Positions are ordered by line, then by column. -/
instance : LT Position where
  lt a b := a.line < b.line ∨ (a.line = b.line ∧ a.character < b.character)

instance : LE Position where
  le a b := a.line < b.line ∨ (a.line = b.line ∧ a.character ≤ b.character)

instance (a b : Position) : Decidable (a < b) :=
  inferInstanceAs (Decidable (a.line < b.line ∨ (a.line = b.line ∧ a.character < b.character)))

instance (a b : Position) : Decidable (a ≤ b) :=
  inferInstanceAs (Decidable (a.line < b.line ∨ (a.line = b.line ∧ a.character ≤ b.character)))

instance : Ord Position where
  compare a b := (compare a.line b.line).then (compare a.character b.character)

/-- The position in the whole document of a position in a part of it that starts at `start`.
    Only the first line of the part is shifted sideways. -/
def within (start position : Position) : Option Position :=
  if position.line = 0 then do
    return ⟨start.line, ← addChecked start.character position.character⟩
  else do
    return ⟨← addChecked start.line position.line, position.character⟩

end Position

/-! ## Ranges and locations -/

/-- The places from `start` up to, and without, `stop`. -/
structure Range where
  start : Position
  stop : Position
deriving DecidableEq

namespace Range

/-- Whether a position lies in a range, the end excluded. -/
def contains (range : Range) (position : Position) : Bool :=
  range.start ≤ position && position < range.stop

instance : Ord Range where
  compare a b := (compare a.start b.start).then (compare a.stop b.stop)

end Range

/-- A range of a document. -/
structure Location where
  uri : String
  range : Range
deriving DecidableEq

end Lineage
