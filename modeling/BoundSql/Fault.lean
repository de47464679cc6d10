import BoundSql.Decimal.Double
import BoundSql.Operator

/-!
# `BoundSql.Fault` — what can be wrong with a statement

A fault is a mistake of the caller. It is either noted while a statement is put together, and then
reported by every later rendering, or found by a rendering.

## Contents
- **`FaultKind`** sorts faults into five kinds; `FaultKind.describe` writes a kind before a message.
- **`Fault`** lists the causes, **`Fault.kind`** and **`Fault.message`** say what each one is.
- **`map_eq_ok_iff`** and **`map_eq_error_iff`** look through a result that was changed.
- **`keepFirst`** is the rule of every slot that holds a fault: the first one stays.
-/

namespace BoundSql

/-! ## Kinds -/

/-- The five kinds of faults. -/
inductive FaultKind where
  /-- The parts of a statement do not fit together. -/
  | structural
  /-- An operator is unknown or cannot take its operand. -/
  | operator
  /-- A value has the wrong shape. -/
  | shape
  /-- A step is applied to the wrong kind of target. -/
  | contract
  /-- Something that has to be given is missing. -/
  | precondition
  deriving DecidableEq, Repr

namespace FaultKind

/-- The name of the kind. -/
def name : FaultKind → String
  | .structural => "Structural"
  | .operator => "Operator"
  | .shape => "Shape"
  | .contract => "Contract"
  | .precondition => "Precondition"

/-- Every kind once. -/
def all : List FaultKind :=
  [.structural, .operator, .shape, .contract, .precondition]

/-- A message under the name of its kind. -/
def describe (kind : FaultKind) (message : String) : String :=
  kind.name ++ " error: " ++ message

end FaultKind

/-! ## Causes -/

/-- How the values of an operand reach the database: bound to placeholders, or written out. -/
inductive Mode where
  | bound
  | inlined
  deriving DecidableEq, Repr

/-- What a message about a mode ends with. -/
def Mode.ending : Mode → String
  | .bound => "."
  | .inlined => " in raw mode."

/-- The causes of faults. -/
inductive Fault where
  /-- A first term is given to a predicate that has terms. -/
  | predicateStarted
  /-- A joined term is given to a predicate without terms. -/
  | nothingToJoin (c : Connective)
  /-- A predicate without terms is rendered. -/
  | predicateEmpty
  /-- A result is given to a CASE without branches. -/
  | noBranch
  /-- A CASE without branches is rendered. -/
  | caseEmpty
  /-- There are more aliases than columns. -/
  | tooManyAliases
  /-- WITHIN GROUP is given to a query without columns. -/
  | noColumnToGroup
  /-- A join condition is given to a query without joins. -/
  | noJoin
  /-- GROUP BY is given without columns. -/
  | emptyGroupBy
  /-- HAVING is given before GROUP BY. -/
  | havingWithoutGroupBy
  /-- A record has no columns. -/
  | emptyRecord
  /-- A record has other columns than the batch. -/
  | columnsDiffer
  /-- A record lacks a column of the batch. -/
  | missingColumn (column : String)
  /-- No operator has this spelling. -/
  | unknownOperator (text : String)
  /-- The operator cannot be compared with NULL. -/
  | nullOperand (op : Operator)
  /-- The operator takes no list. -/
  | listOperand (mode : Mode) (op : Operator)
  /-- The operator takes no subquery. -/
  | subqueryOperand (op : Operator)
  /-- No direction of ORDER BY has this spelling. -/
  | unknownDirection (text : String)
  /-- BETWEEN is given something else than a list of two values. -/
  | notTwoValues (mode : Mode)
  /-- BETWEEN is given values that are not numeric. -/
  | notNumeric
  /-- IN is given an empty list. -/
  | emptyList (mode : Mode)
  /-- IN is given a single value. -/
  | notAList (mode : Mode)
  /-- The value cannot be written beside the operator. -/
  | notComparable (op : Operator)
  /-- The number has no literal. -/
  | notFinite (x : Double)
  /-- A list is assigned to a column. -/
  | listAssigned (column : String)
  /-- A subquery is assigned to a column. -/
  | subqueryAssigned
  /-- A record gives a column something else than a single value. -/
  | notSingleValue (column : String)
  /-- The last column is no aggregate. -/
  | lastNotAggregate
  /-- The last column is an aggregate other than LISTAGG. -/
  | lastNotListagg
  /-- The last column is no CASE. -/
  | lastNotCase
  /-- A query has nothing to read from. -/
  | noSource
  /-- An INSERT has no table. -/
  | noInsertTable
  /-- An INSERT has no rows. -/
  | noRows
  /-- A batch without columns is rendered. -/
  | noBatchColumns
  /-- An UPDATE has no table. -/
  | noUpdateTable
  /-- An UPDATE has no assignments. -/
  | noAssignments
  /-- A DELETE has no table. -/
  | noDeleteTable
  deriving DecidableEq, Repr

namespace Fault

/-- The kind of a cause. -/
def kind : Fault → FaultKind
  | .predicateStarted | .nothingToJoin _ | .predicateEmpty | .noBranch | .caseEmpty
  | .tooManyAliases | .noColumnToGroup | .noJoin | .emptyGroupBy | .havingWithoutGroupBy
  | .emptyRecord | .columnsDiffer | .missingColumn _ => .structural
  | .unknownOperator _ | .nullOperand _ | .listOperand _ _ | .subqueryOperand _
  | .unknownDirection _ => .operator
  | .notTwoValues _ | .notNumeric | .emptyList _ | .notAList _ | .notComparable _ | .notFinite _
  | .listAssigned _ | .subqueryAssigned | .notSingleValue _ => .shape
  | .lastNotAggregate | .lastNotListagg | .lastNotCase => .contract
  | .noSource | .noInsertTable | .noRows | .noBatchColumns | .noUpdateTable | .noAssignments
  | .noDeleteTable => .precondition

/-- The wording of a cause. -/
def message : Fault → String
  | .predicateStarted => "Conditions array is not empty."
  | .nothingToJoin c => "No initial condition exists for " ++ c.text ++ " condition."
  | .predicateEmpty =>
    "Mismatch between conditions and operators: " ++
      "there must be exactly one more condition than operators."
  | .noBranch => "No case exists to apply then."
  | .caseEmpty => "No cases defined in CASE expression."
  | .tooManyAliases => "Number of aliases exceeds the number of fields."
  | .noColumnToGroup => "No fields available to apply WITHIN GROUP clause."
  | .noJoin => "No join exists in the query."
  | .emptyGroupBy => "At least one GROUP BY field must be provided."
  | .havingWithoutGroupBy => "Cannot set HAVING clause when GROUP BY list is empty."
  | .emptyRecord => "Record has no fields."
  | .columnsDiffer => "Provided keys do not match the defined fields."
  | .missingColumn column => "Missing field '" ++ column ++ "' in provided data."
  | .unknownOperator text => "Invalid operator: " ++ text
  | .nullOperand op => "Operator " ++ op.text ++ " is not allowed with null value."
  | .listOperand mode op => "Operator " ++ op.text ++ " does not support array value" ++ mode.ending
  | .subqueryOperand op => "Operator " ++ op.text ++ " does not support a subquery value."
  | .unknownDirection text => "Invalid order value: " ++ text
  | .notTwoValues mode =>
    "BETWEEN operator requires a two-element array as value" ++ mode.ending
  | .notNumeric => "BETWEEN operator requires numeric values."
  | .emptyList mode => "IN operator requires a non-empty array" ++ mode.ending
  | .notAList mode => "IN operator requires an array as value" ++ mode.ending
  | .notComparable op =>
    op.text ++ " operator supports only string or numeric values in raw mode."
  | .notFinite x => "Value " ++ x.specialName ++ " cannot be written as a SQL literal."
  | .listAssigned column => "Set clause value for '" ++ column ++ "' cannot be an array."
  | .subqueryAssigned => "Value cannot be a subquery."
  | .notSingleValue column => "Value for field '" ++ column ++ "' cannot be an array."
  | .lastNotAggregate => "The last field is not an aggregate field."
  | .lastNotListagg => "The aggregation function of the last field is not LISTAGG."
  | .lastNotCase => "Last field is not a CaseField."
  | .noSource => "Source not specified for SELECT."
  | .noInsertTable => "Table name not specified for INSERT."
  | .noRows => "Batch is not initialized for INSERT query."
  | .noBatchColumns => "No fields defined for batch query."
  | .noUpdateTable => "Table not specified for UPDATE."
  | .noAssignments => "No SET clauses provided for UPDATE."
  | .noDeleteTable => "Table not specified for DELETE."

/-- The full text of a fault. -/
def describe (f : Fault) : String :=
  f.kind.describe f.message

end Fault

/-! ## Results -/

section Results

variable {α β : Type} {x : Except Fault α} {g : α → β} {b : β} {f : Fault}

/-- A result that was changed comes from a result. -/
theorem map_eq_ok_iff : x.map g = .ok b ↔ ∃ a, x = .ok a ∧ g a = b := by
  cases x <;> simp [Except.map]

/-- Changing a result does not change a fault. -/
theorem map_eq_error_iff : x.map g = .error f ↔ x = .error f := by
  cases x <;> simp [Except.map]

end Results

/-! ## Slots -/

/-- What a slot holds after a fault: the fault, unless it holds an earlier one. -/
def keepFirst (slot : Option Fault) (f : Fault) : Option Fault :=
  slot.or (some f)

@[simp] theorem keepFirst_none (f : Fault) : keepFirst none f = some f := rfl

@[simp] theorem keepFirst_some (f g : Fault) : keepFirst (some f) g = some f := rfl

end BoundSql
