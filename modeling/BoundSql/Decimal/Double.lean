/-!
# `BoundSql.Decimal.Double` — binary64 numbers, held by their bits

A number of the binary64 format is kept as its 64 bits, so equality of two `Double`s is equality of
bits and every definition below is arithmetic on natural numbers.

## Contents
- **Fields.** `isNegative`, `exponentField`, `fractionField`, and the classes `isFinite`, `isNaN`,
  `isZero` read off them.
- **Magnitude.** A finite number has the absolute value `significand * 2 ^ scale`; any other number has
  a `specialName` instead.
- **Comparison.** `sameNumber` is the comparison of the format: a NaN equals nothing, and the two
  zeros are equal.
- **Widening.** `ofSingle` reads the bits of a binary32 number, whose value every `Double` can hold.
-/

namespace BoundSql

/-- A binary64 number: one sign bit, eleven exponent bits and fifty-two fraction bits. -/
structure Double where
  bits : UInt64
  deriving DecidableEq, Repr, Inhabited

namespace Double

/-! ## Fields -/

/-- Whether the sign bit is set. -/
def isNegative (d : Double) : Bool :=
  0x8000000000000000 ≤ d.bits.toNat

/-- The eleven exponent bits. -/
def exponentField (d : Double) : Nat :=
  d.bits.toNat / 0x10000000000000 % 0x800

/-- The fifty-two fraction bits. -/
def fractionField (d : Double) : Nat :=
  d.bits.toNat % 0x10000000000000

/-- Whether the number is neither infinite nor a NaN. -/
def isFinite (d : Double) : Bool :=
  d.exponentField < 2047

/-- Whether the bits stand for no number. -/
def isNaN (d : Double) : Bool :=
  !d.isFinite && d.fractionField != 0

/-- Whether the number is one of the two zeros. -/
def isZero (d : Double) : Bool :=
  d.exponentField == 0 && d.fractionField == 0

theorem exponentField_lt (d : Double) : d.exponentField < 0x800 :=
  Nat.mod_lt _ (by decide)

theorem fractionField_lt (d : Double) : d.fractionField < 0x10000000000000 :=
  Nat.mod_lt _ (by decide)

/-- A finite number is not a NaN. -/
theorem isNaN_of_isFinite {d : Double} (h : d.isFinite = true) : d.isNaN = false := by
  simp [isNaN, h]

/-! ## Magnitude of a finite number -/

/-- The integer significand: a normal number has a leading bit above its fraction. -/
def significand (d : Double) : Nat :=
  if d.exponentField = 0 then d.fractionField else d.fractionField + 0x10000000000000

/-- The power of two that the significand is multiplied by. -/
def scale (d : Double) : Int :=
  (max d.exponentField 1 : Nat) - 1075

/-- Whether the next smaller magnitude is only half as far away as the next larger one, as it is at
    the powers of two above the smallest normal number. -/
def nearerBelow (d : Double) : Bool :=
  d.fractionField == 0 && 1 < d.exponentField

/-- Only the zeros have the significand zero. -/
theorem significand_eq_zero_iff (d : Double) : d.significand = 0 ↔ d.isZero = true := by
  unfold significand isZero
  by_cases h : d.exponentField = 0 <;> simp [h]

/-- The name of a number that is not finite. A NaN has no sign. -/
def specialName (d : Double) : String :=
  if d.isNaN then "NaN" else if d.isNegative then "-inf" else "inf"

/-! ## Comparison -/

/-- Equality as the format defines it: no NaN equals anything, and the zeros are equal. -/
def sameNumber (a b : Double) : Bool :=
  !a.isNaN && !b.isNaN && (a == b || (a.isZero && b.isZero))

/-- A number equals itself exactly if it is one. -/
theorem sameNumber_self (d : Double) : d.sameNumber d = !d.isNaN := by
  simp [sameNumber]

/-! ## Widening -/

/-- The number with the given sign, exponent field and fraction field. -/
def ofFields (negative : Bool) (exponent fraction : Nat) : Double :=
  ⟨UInt64.ofNat ((if negative then 0x8000000000000000 else 0) + exponent * 0x10000000000000 + fraction)⟩

/-- The number whose binary32 form has the given bits. A subnormal binary32 number is normal as a
    `Double`, so its fraction is shifted up until the leading bit is reached. -/
def ofSingle (bits : UInt32) : Double :=
  let negative := 0x80000000 ≤ bits.toNat
  let exponent := bits.toNat / 0x800000 % 0x100
  let fraction := bits.toNat % 0x800000
  if exponent = 255 then
    ofFields negative 2047 (fraction <<< 29)
  else if exponent = 0 then
    if fraction = 0 then
      ofFields negative 0 0
    else
      let top := fraction.log2
      ofFields negative (874 + top) ((fraction - 1 <<< top) <<< (52 - top))
  else
    ofFields negative (exponent + 896) (fraction <<< 29)

/-- One and a half, the smallest positive binary32 number, and minus infinity. -/
example : (ofSingle 0x3fc00000).bits = 0x3ff8000000000000 ∧
    (ofSingle 1).bits = 0x36a0000000000000 ∧
    (ofSingle 0xff800000).bits = 0xfff0000000000000 := by decide

end Double

end BoundSql
