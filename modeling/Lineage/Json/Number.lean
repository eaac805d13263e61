import Lineage.Double

set_option autoImplicit false

/-! # JSON numbers

A number as it is written, and the number that is meant. Integers of 64 bits are kept as they are; every
other number stands for a double.

The significand of a double takes as many of the written digits as fit into 64 bits. Further digits in
front of the point count as zeros, further digits behind it are dropped. -/

namespace Lineage

/-! ## Digits -/

/-- The value of a decimal digit. -/
def digitValue (c : Char) : Nat := c.toNat - '0'.toNat

/-- The number that some decimal digits stand for, behind those of `front`. -/
def digitsValue (front : Nat) (digits : Text) : Nat :=
  digits.foldl (fun value c => 10 * value + digitValue c) front

/-- A number followed by as many digits as keep it below `2 ^ 64`, and the digits left over. -/
def absorbDigits : Nat → Text → Nat × Text
  | value, [] => (value, [])
  | value, c :: rest =>
    let next := 10 * value + digitValue c
    if next < UInt64.size then absorbDigits next rest else (value, c :: rest)

/-! ## Values -/

/-- The value of a number. -/
inductive JsonNumber where
  | integer (value : Int)
  | double (value : Double)
deriving DecidableEq

/-- A number as text. -/
def JsonNumber.render : JsonNumber → Text
  | integer value =>
    (if value < 0 then ['-'] else []) ++ Nat.toDigits 10 value.natAbs
  | double value => value.render

/-! ## Literals -/

/-- A number as it is written. -/
structure NumberLiteral where
  negative : Bool
  /-- The digits in front of the point. -/
  whole : Text
  /-- The digits behind the point, none if there is no point. -/
  fraction : Text
  /-- The exponent, if one is written. -/
  exponent : Option Int
deriving DecidableEq

namespace NumberLiteral

/-- Whether neither fraction nor exponent is written. -/
def isInteger (literal : NumberLiteral) : Bool :=
  literal.fraction.isEmpty && literal.exponent.isNone

/-- The natural number that is written without sign, fraction and exponent. -/
def toNat? (literal : NumberLiteral) : Option Nat :=
  if literal.negative || !literal.isInteger then none else some (digitsValue 0 literal.whole)

/-- The integer with a sign and a magnitude below `2 ^ 64`. Zero with a sign, and what is less than any
    64-bit integer, is a double. -/
def signed (negative : Bool) (magnitude : Nat) : JsonNumber :=
  if !negative then
    .integer magnitude
  else if 0 < magnitude && magnitude ≤ UInt64.size / 2 then
    .integer (-magnitude)
  else
    .double ⟨true, Double.ofNat magnitude⟩

/-- The number that a literal stands for; `none` if it is too large for a double. -/
def value? (literal : NumberLiteral) : Option JsonNumber :=
  let (front, excess) := absorbDigits 0 literal.whole
  if literal.isInteger && excess.isEmpty then
    some (signed literal.negative front)
  else
    let (significand, dropped) := absorbDigits front literal.fraction
    let places : Nat := literal.fraction.length - dropped.length
    let exponent : Int := excess.length - places + literal.exponent.getD 0
    (Double.ofScientific significand exponent).map fun units => .double ⟨literal.negative, units⟩

end NumberLiteral
end Lineage
