import BoundSql.Decimal.Shortest

/-!
# `BoundSql.Decimal.Style` — decimals as text

## Contents
- **`Decimal.positional`** writes every digit in its place, **`Decimal.scientific`** a leading digit and
  a power of ten.
- **`Style`.** The decisions of an output format, in one record.
- **`Style.write`.** The text of a finite number in a style: its sign, then its shortest digits.
-/

namespace BoundSql

namespace Decimal

/-- The decimal digits of the integer part, the first one first. -/
def digitChars (d : Decimal) : List Char :=
  Nat.toDigits 10 d.digits

/-- The power of ten that the first digit counts. -/
def leadingExponent (d : Decimal) : Int :=
  d.exponent + d.digitChars.length - 1

/-- Every digit in its place. A number without a fraction is followed by `whole`. -/
def positional (whole : String) (d : Decimal) : String :=
  let digits := d.digitChars
  let places := (-d.exponent).toNat
  if 0 ≤ d.exponent then
    String.ofList (digits ++ List.replicate d.exponent.toNat '0') ++ whole
  else if places < digits.length then
    let point := digits.length - places
    String.ofList (digits.take point) ++ "." ++ String.ofList (digits.drop point)
  else
    "0." ++ String.ofList (List.replicate (places - digits.length) '0' ++ digits)

/-- One digit before the point, the others behind it, and the power of ten. -/
def scientific (d : Decimal) : String :=
  let fraction := d.digitChars.drop 1
  String.ofList (d.digitChars.take 1) ++
    (if fraction.isEmpty then "" else "." ++ String.ofList fraction) ++
    "e" ++ d.leadingExponent.repr

end Decimal

/-- How a format writes finite numbers. -/
structure Style where
  /-- Which of two equally near shortest decimals is written. -/
  tie : Tie
  /-- What follows the digits of a number without a fraction. -/
  whole : String
  /-- The least leading exponent that is written in place and the least one beyond; without bounds
      every number is. -/
  inPlace : Option (Int × Int)

namespace Style

/-- Whether a decimal is written with every digit in its place. -/
def isInPlace (style : Style) (d : Decimal) : Bool :=
  match style.inPlace with
  | none => true
  | some (least, beyond) => least ≤ d.leadingExponent && d.leadingExponent < beyond

/-- The text of a finite number; a zero keeps its sign. -/
def write (style : Style) (x : Double) : String :=
  let d := shortest style.tie x
  (if x.isNegative then "-" else "") ++
    (if style.isInPlace d then d.positional style.whole else d.scientific)

end Style

/-- A number above one, one below it, and one with trailing zeros. -/
example : (Decimal.mk 435 (-2)).positional "" = "4.35" ∧
    (Decimal.mk 1 (-7)).positional "" = "0.0000001" ∧
    (Decimal.mk 12 3).positional ".0" = "12000.0" ∧
    (Decimal.mk 125 (-11)).scientific = "1.25e-9" := by decide +kernel

end BoundSql
