/-!
# `BoundSql.Text.Numeric` — texts that read as a number

A numeric text is a decimal number, with an optional sign, an optional fraction and an optional
exponent, and with blanks around it. Only ASCII digits and ASCII blanks count.

## Contents
- **Classes** `isBlank`, `isDigit` of characters.
- **Readers** `afterSign`, `afterMantissa?`, `afterExponent?` that return what follows the part they
  read.
- **`isNumericText`** puts the parts in order.
-/

namespace BoundSql

namespace Numeric

/-- The six blanks of ASCII: space, tab, line feed, carriage return, vertical tab and form feed. -/
def isBlank (c : Char) : Bool :=
  c = ' ' || c = '\t' || c = '\n' || c = '\r' || c = '\x0b' || c = '\x0c'

/-- The ten ASCII digits. -/
def isDigit (c : Char) : Bool :=
  '0' ≤ c && c ≤ '9'

/-- What follows an optional sign. -/
def afterSign : List Char → List Char
  | '+' :: cs => cs
  | '-' :: cs => cs
  | cs => cs

/-- What follows the digits and the fraction. At least one digit has to stand on a side of the point. -/
def afterMantissa? (cs : List Char) : Option (List Char) :=
  let whole := cs.takeWhile isDigit
  match cs.dropWhile isDigit with
  | '.' :: rest =>
    if whole.isEmpty && (rest.takeWhile isDigit).isEmpty then none
    else some (rest.dropWhile isDigit)
  | rest => if whole.isEmpty then none else some rest

/-- What follows an optional exponent. An exponent without digits is refused. -/
def afterExponent? : List Char → Option (List Char)
  | [] => some []
  | c :: cs =>
    if c = 'e' || c = 'E' then
      let exponent := afterSign cs
      if (exponent.takeWhile isDigit).isEmpty then none
      else some (exponent.dropWhile isDigit)
    else some (c :: cs)

end Numeric

open Numeric in
/-- Whether a text is a number between blanks. -/
def isNumericText (s : String) : Bool :=
  match afterMantissa? (afterSign (s.toList.dropWhile isBlank)) with
  | none => false
  | some rest =>
    match afterExponent? rest with
    | none => false
    | some rest => rest.all isBlank

/-- A point may stand at either end of the digits, not alone; a sign needs digits. -/
example : isNumericText " -1.50e+3\n" = true ∧ isNumericText "5." = true ∧
    isNumericText ".5" = true ∧ isNumericText "." = false ∧ isNumericText "+" = false ∧
    isNumericText "1e" = false ∧ isNumericText "" = false := by decide +kernel

end BoundSql
