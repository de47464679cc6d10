import BoundSql.Decimal.Style
import BoundSql.Text.Numeric

/-!
# `BoundSql.Value` — scalar values

A scalar is bound to a placeholder or written into a statement as a literal.

## Contents
- **`Value`** and the predicates `isNull` and `isNumeric`.
- **`Value.sameAs`** compares two values: values of different kinds always differ, and numbers compare
  as binary64 defines it.
-/

namespace BoundSql

/-- A scalar value. -/
inductive Value where
  | null
  | bool (b : Bool)
  | int (i : Int)
  | float (x : Double)
  | text (s : String)
  deriving DecidableEq, Repr, Inhabited

namespace Value

/-- Whether the value is the absent one. -/
def isNull : Value → Bool
  | .null => true
  | _ => false

/-- Whether the value reads as a finite number; numeric texts do. -/
def isNumeric : Value → Bool
  | .int _ => true
  | .float x => x.isFinite
  | .text s => isNumericText s
  | .null => false
  | .bool _ => false

/-- Whether two values are equal. A NaN is not equal to itself, and the two zeros are equal. -/
def sameAs : Value → Value → Bool
  | .null, .null => true
  | .bool a, .bool b => a == b
  | .int a, .int b => a == b
  | .float a, .float b => a.sameNumber b
  | .text a, .text b => a == b
  | _, _ => false

/-- Only a NaN differs from itself. -/
theorem sameAs_self {v : Value} (h : ∀ x, v = .float x → x.isNaN = false) : v.sameAs v = true := by
  cases v with
  | float x => simp [sameAs, Double.sameNumber_self, h x rfl]
  | _ => simp [sameAs]

theorem sameAs_comm (v w : Value) : v.sameAs w = w.sameAs v := by
  cases v <;> cases w <;> simp [sameAs, Double.sameNumber, Bool.beq_comm]
  all_goals grind

end Value

end BoundSql
