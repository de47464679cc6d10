import BoundSql.Build.Mutation
import BoundSql.Build.Select
import BoundSql.Layout.Tree

/-!
# `BoundSql.Statement` — statements and what is handed to a driver

## Contents
- **Scripts** of rows (`Batch.script`) and assignments (`Assignment.script`), and of INSERT, UPDATE and
  DELETE.
- **`Statement`** is one of the four kinds of statements.
- **`Prepared`** is the text of a statement with the parameters for its placeholders;
  `Statement.prepare` makes it.
- **`Statement.inspect`** is a text for people, also when the statement is faulty.
-/

namespace BoundSql

/-! ## Rows and assignments as scripts -/

/-- One value: NULL, a placeholder or a literal. -/
def Cell.script : Cell → Script
  | .null => [.keyword "NULL"]
  | .bound p => [.placeholder p]
  | .inlined v => [.ofExcept v.literal]

/-- The values of a row. -/
def rowScript (row : List Cell) : Script :=
  Script.inParens (Script.commaList (row.map Cell.script))

/-- The columns in parentheses, then the rows. -/
def Batch.script (b : Batch) : Script :=
  if b.columns.isEmpty then [.fault .noBatchColumns]
  else
    Script.inParens (Script.nameList b.columns) ++
      .keyword " VALUES " :: Script.commaList (b.rows.map rowScript)

/-- A column set to a single value. -/
def Assignment.script (a : Assignment) : Script :=
  if a.operand.isList then [.fault (.listAssigned a.column)]
  else
    match a.operand.cell? with
    | some cell => .verbatim a.column :: .keyword " = " :: cell.script
    | none => [.fault .subqueryAssigned]

/-! ## Statements that change a table as scripts -/

/-- An INSERT with its rows. A noted fault comes first, then a missing table, then missing rows. -/
def Insert.script (i : Insert) : Script :=
  match i.fault with
  | some f => [.fault f]
  | none =>
    if i.table = "" then [.fault .noInsertTable]
    else if i.batch.isFilled then
      .keyword "INSERT INTO " :: .verbatim i.table :: .keyword " " :: i.batch.script
    else [.fault .noRows]

/-- An UPDATE with its assignments and its predicate. -/
def Update.script (u : Update) : Script :=
  if u.table = "" then [.fault .noUpdateTable]
  else if u.assignments.isEmpty then [.fault .noAssignments]
  else
    .keyword "UPDATE " :: .verbatim u.table :: .keyword " SET " ::
      (Script.commaList (u.assignments.map Assignment.script) ++ u.filter.whereClause)

/-- A DELETE with its predicate. -/
def Delete.script (d : Delete) : Script :=
  if d.table = "" then [.fault .noDeleteTable]
  else .keyword "DELETE FROM " :: .verbatim d.table :: d.filter.whereClause

/-! ## Statements -/

/-- The kinds of statements. -/
inductive StatementKind where
  | select
  | insert
  | update
  | delete
  deriving DecidableEq, Repr

/-- The spelling of the kind. -/
def StatementKind.text : StatementKind → String
  | .select => "SELECT"
  | .insert => "INSERT"
  | .update => "UPDATE"
  | .delete => "DELETE"

/-- A statement. -/
inductive Statement where
  | select (s : Select)
  | insert (i : Insert)
  | update (u : Update)
  | delete (d : Delete)

/-- The text of a statement, and the parameters for its placeholders in order. -/
structure Prepared where
  sql : String
  params : List BoundParam
  deriving DecidableEq

/-- The number of placeholders in the text. -/
def Prepared.placeholderCount (p : Prepared) : Nat :=
  BoundSql.placeholderCount p.sql

namespace Statement

/-- The kind of the statement. -/
def kind : Statement → StatementKind
  | .select _ => .select
  | .insert _ => .insert
  | .update _ => .update
  | .delete _ => .delete

/-- The statement laid out. -/
def script : Statement → Script
  | .select s => s.script
  | .insert i => i.script
  | .update u => u.script
  | .delete d => d.script

/-- The statement for a driver, or its first fault. -/
def prepare (s : Statement) : Except Fault Prepared :=
  let rendering := s.script.renderAfter []
  rendering.outcome.map fun sql => ⟨sql, rendering.params⟩

/-- The text of the statement, or a note in its place that says what is wrong. -/
def inspect (s : Statement) : String :=
  match (s.script.renderAfter []).outcome with
  | .ok sql => sql
  | .error f => "<invalid " ++ s.kind.text ++ ": " ++ f.describe ++ ">"

/-- A statement that can be prepared has no fault, and its text and parameters come from the same
    script. -/
theorem prepare_eq_ok_iff {s : Statement} {p : Prepared} :
    s.prepare = .ok p ↔
      Script.fault? s.script = none ∧ p = ⟨Script.text s.script, Script.bindings s.script⟩ := by
  unfold prepare
  rw [Script.renderAfter_eq, Script.render]
  cases h : Script.fault? s.script <;> simp [Except.map, eq_comm]

/-- A statement is put together by steps and then prepared. -/
example :
    (Statement.update (.ofSteps "users"
      [.assign ⟨"status", .inlined (.text "it\x27s")⟩, .assign ⟨"name", .null⟩,
        .filter (.add .first (.comparison "id" "=" (.bound ⟨.scalar (.int 1), .integer⟩) false))])
      ).prepare =
      .ok ⟨"UPDATE users SET status = \x27it\\\x27s\x27, name = NULL WHERE id = ?",
        [⟨.int 1, .integer⟩]⟩ := by
  rfl

end Statement

end BoundSql
