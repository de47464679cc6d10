import BoundSql.Statement

/-!
# `BoundSql.Wire` — prepared statements as JSON

A prepared statement is sent as one JSON object without blanks: its text, then its parameters as pairs
of a value and the code of a type tag. A value is sent as the JSON value of its kind.

## Contents
- **Strings.** `Wire.escape` is the written form of a character, `Wire.string` of a text.
- **Values.** `Wire.value` and `Wire.param`.
- **`Prepared.toJson`** is the whole object.
-/

namespace BoundSql

namespace Wire

/-! ## Strings -/

/-- A hexadecimal digit, in small letters. -/
def hexDigit (n : Nat) : Char :=
  Nat.digitChar (n % 16)

/-- The written form of a character inside a string. Quotes, backslashes and control characters are
    escaped, all others are copied. -/
def escape (c : Char) : List Char :=
  if c = '"' then ['\\', '"']
  else if c = '\\' then ['\\', '\\']
  else if c = '\x08' then ['\\', 'b']
  else if c = '\t' then ['\\', 't']
  else if c = '\n' then ['\\', 'n']
  else if c = '\x0c' then ['\\', 'f']
  else if c = '\r' then ['\\', 'r']
  else if c.toNat < 32 then
    ['\\', 'u', '0', '0', hexDigit (c.toNat / 16), hexDigit c.toNat]
  else [c]

/-- The characters of a string: escaped, between double quotes. -/
def stringChars (cs : List Char) : List Char :=
  '"' :: (cs.flatMap escape ++ ['"'])

/-- A text as a string. -/
def string (s : String) : String :=
  String.ofList (stringChars s.toList)

/-! ## Values -/

/-- Numbers always have a fraction. Very large and very small ones have an exponent. Of two equally near
    shortest decimals the even one is written. -/
def numberStyle : Style where
  tie := .even
  whole := ".0"
  inPlace := some (-5, 16)

/-- A value. Numbers that are not finite have no written form, so null stands for them. -/
def value : Value → String
  | .null => "null"
  | .bool b => if b then "true" else "false"
  | .int i => i.repr
  | .float x => if x.isFinite then numberStyle.write x else "null"
  | .text s => string s

/-- A parameter: its value and the code of its type tag. -/
def param (p : BoundParam) : String :=
  "[" ++ value p.value ++ "," ++ p.type.code.repr ++ "]"

/-- Items with commas between them. -/
def items : List String → String
  | [] => ""
  | [s] => s
  | s :: t :: rest => s ++ "," ++ items (t :: rest)

end Wire

/-- The prepared statement as a JSON object. -/
def Prepared.toJson (p : Prepared) : String :=
  "\x7b\"sql\":" ++ Wire.string p.sql ++
    ",\"params\":[" ++ Wire.items (p.params.map Wire.param) ++ "]\x7d"

end BoundSql
