/-!
# `BoundSql.Operator` — comparison operators and connectives

## Contents
- **`Operator`** with its spelling `text`, read back by `ofText?`.
- **`Operator.negatesInside`** tells where a negation is written, **`Operator.takesOneValue`** how many
  values stand on the right.
- **`Connective`** joins two terms of a predicate.
-/

namespace BoundSql

/-- A comparison operator. -/
inductive Operator where
  | equal
  | less
  | greater
  | atMost
  | atLeast
  | unequal
  | like
  | between
  | oneOf
  deriving DecidableEq, Repr

namespace Operator

/-- The spelling of the operator. -/
def text : Operator → String
  | .equal => "="
  | .less => "<"
  | .greater => ">"
  | .atMost => "<="
  | .atLeast => ">="
  | .unequal => "!="
  | .like => "LIKE"
  | .between => "BETWEEN"
  | .oneOf => "IN"

/-- Every operator once. -/
def all : List Operator :=
  [.equal, .less, .greater, .atMost, .atLeast, .unequal, .like, .between, .oneOf]

/-- The operator with exactly this spelling. -/
def ofText? (s : String) : Option Operator :=
  all.find? (·.text == s)

/-- Whether a negation stands between the field and the operator, not in front of the field. -/
def negatesInside : Operator → Bool
  | .like | .between | .oneOf => true
  | _ => false

/-- Whether exactly one value stands on the right of the operator. -/
def takesOneValue : Operator → Bool
  | .between | .oneOf => false
  | _ => true

@[simp] theorem ofText?_text (op : Operator) : ofText? op.text = some op := by
  cases op <;> decide

/-- A text reads as an operator only if it is the operator's spelling. -/
theorem text_of_ofText? {s : String} {op : Operator} (h : ofText? s = some op) : op.text = s := by
  simpa using List.find?_some h

end Operator

/-- What stands between two terms of a predicate. -/
inductive Connective where
  | and
  | or
  deriving DecidableEq, Repr

/-- The spelling of the connective. -/
def Connective.text : Connective → String
  | .and => "AND"
  | .or => "OR"

end BoundSql
