import Lineage.Text.Measure

set_option autoImplicit false

/-! # Doubles: binary floating-point numbers of 64 bits

A finite double is a whole number of units of `2 ^ -1074` that has at most 53 significant bits and
stays below `2 ^ 1024`. So its magnitude is kept as a natural number, and every operation is the exact
result, rounded once to the nearest magnitude with 53 bits, of two equally near ones to the even one.

In decimal, a unit is `5 ^ 1074` units of `10 ^ -1074`. A double is written with the fewest digits that
are rounded back to it; the search for them goes through the numbers of digits from one up and tries the
two neighbours with that many digits. -/

namespace Lineage

/-- A finite double, by its sign and its magnitude in units of `2 ^ -1074`. -/
structure Double where
  negative : Bool
  units : Nat
deriving DecidableEq

namespace Double

/-! ## Powers -/

/-- A power of two. -/
def twoTo (power : Nat) : Nat := Nat.pow 2 power

/-- A power of five. -/
def fiveTo (power : Nat) : Nat := Nat.pow 5 power

/-- A power of ten. -/
def tenTo (power : Nat) : Nat := Nat.pow 10 power

/-! ## Rounding -/

/-- The natural number nearest to a quotient, the even one of two that are equally near. -/
def nearest (num den : Nat) : Nat :=
  let below := num / den
  match compare (2 * (num % den)) den with
  | .lt => below
  | .gt => below + 1
  | .eq => below + below % 2

/-- The magnitude with 53 significant bits that is nearest to a quotient. -/
def round (num den : Nat) : Nat :=
  let step := twoTo (Nat.log2 (num / den) + 1 - 53)
  nearest num (den * step) * step

/-! ## Arithmetic on magnitudes -/

/-- The number of units in one. -/
def one : Nat := twoTo 1074

/-- The first magnitude that is too large. -/
def limit : Nat := twoTo 1024 * one

/-- The magnitude of a natural number. -/
def ofNat (n : Nat) : Nat := round (n * one) 1

/-- The magnitude of a product. -/
def mul (a b : Nat) : Nat := round (a * b) one

/-- The magnitude of a quotient. -/
def div (a b : Nat) : Nat := round (a * one) b

/-- The largest power of ten that is a double. -/
def maxPower : Nat := 308

/-- A magnitude times a power of ten; `none` if it is too large. -/
def scaleUp (units power : Nat) : Option Nat :=
  if power ≤ maxPower then
    let product := mul units (ofNat (tenTo power))
    if product < limit then some product else none
  else if units = 0 then
    some 0
  else
    none

/-- A magnitude divided by a power of ten, in steps that are doubles themselves. -/
def scaleDown (units power : Nat) : Nat :=
  if power ≤ maxPower then
    div units (ofNat (tenTo power))
  else if units = 0 then
    0
  else
    scaleDown (div units (ofNat (tenTo maxPower))) (power - maxPower)
termination_by power
decreasing_by
  simp only [maxPower] at *
  omega

/-- The magnitude of `significand * 10 ^ exponent`; `none` if it is too large. The significand, the
    power of ten and the result are rounded one after the other, so the result need not be the double
    nearest to the product. -/
def ofScientific (significand : Nat) (exponent : Int) : Option Nat :=
  if 0 ≤ exponent then
    scaleUp (ofNat significand) exponent.toNat
  else
    some (scaleDown (ofNat significand) (-exponent).toNat)

/-! ## Decimal digits -/

/-- A decimal: a coefficient and the number of zeros behind it, in units of `10 ^ -1074`. -/
structure Decimal where
  coefficient : Nat
  zeros : Nat
deriving DecidableEq

/-- The magnitude nearest to a decimal. -/
def ofDecimal (decimal : Decimal) : Nat :=
  round (decimal.coefficient * tenTo decimal.zeros) (fiveTo 1074)

/-- The exact decimal of a magnitude. -/
def exactDecimal (units : Nat) : Decimal := ⟨units * fiveTo 1074, 0⟩

/-- The decimals next to a number that leave `zeros` zeros behind their coefficient, the nearer one
    first, and of two equally near ones the even one. -/
def neighbours (exact zeros : Nat) : List Decimal :=
  let below := exact / tenTo zeros
  if nearest exact (tenTo zeros) = below then
    [⟨below, zeros⟩, ⟨below + 1, zeros⟩]
  else
    [⟨below + 1, zeros⟩, ⟨below, zeros⟩]

/-- The decimal with the fewest digits whose nearest magnitude is `units`, and of those the nearest;
    seventeen digits are always enough. -/
def shortest (units : Nat) : Decimal :=
  let exact := (exactDecimal units).coefficient
  let length := (Nat.toDigits 10 exact).length
  let found := (List.range' 1 17).findSome? fun digits =>
    (neighbours exact (length - digits)).find? fun decimal => ofDecimal decimal == units
  found.getD (exactDecimal units)

/-! ## As text -/

/-- The digits of a decimal without zeros at the end, and the power of ten of the first one. -/
def Decimal.scientific (decimal : Decimal) : Text × Int :=
  let digits := Nat.toDigits 10 decimal.coefficient
  ((digits.reverse.dropWhile (· == '0')).reverse,
    (digits.length + decimal.zeros : Nat) - 1075)

/-- Digits whose first one stands for `10 ^ exponent`. From `10 ^ -5` to below `10 ^ 16` they are
    written with a point in its place, otherwise with an exponent. -/
def layout (digits : Text) (exponent : Int) : Text :=
  if exponent < -5 || 16 ≤ exponent then
    digits.take 1 ++ (if digits.length = 1 then [] else '.' :: digits.drop 1) ++
      'e' :: (if exponent < 0 then ['-'] else []) ++ Nat.toDigits 10 exponent.natAbs
  else if exponent < 0 then
    '0' :: '.' :: (List.replicate (exponent.natAbs - 1) '0' ++ digits)
  else
    let wholeLength := exponent.toNat + 1
    let padding := List.replicate (wholeLength - digits.length) '0'
    let fraction := digits.drop wholeLength
    digits.take wholeLength ++ padding ++ '.' :: (if fraction.isEmpty then ['0'] else fraction)

/-- A double as text. -/
def render (value : Double) : Text :=
  let (digits, exponent) := if value.units = 0 then (['0'], 0) else (shortest value.units).scientific
  (if value.negative then ['-'] else []) ++ layout digits exponent

end Double
end Lineage
