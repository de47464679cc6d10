import BoundSql.Build.Predicate
import BoundSql.Build.Rows

/-!
# `BoundSql.Build.Mutation` — putting statements together that change a table

## Contents
- **`Insert`** adds the rows of a batch. A record that does not fit is noted.
- **`Update`** sets columns of the rows that a predicate selects.
- **`Delete`** removes the rows that a predicate selects.

Each has its steps, `apply` for one of them and `ofSteps` for a list.
-/

namespace BoundSql

/-! ## INSERT -/

/-- An INSERT: a table, the rows for it, and the first fault noted. -/
structure Insert where
  table : String
  batch : Batch
  fault : Option Fault

namespace Insert

/-- A step on an INSERT. -/
inductive Step where
  /-- The table. -/
  | table (name : String)
  /-- One more row. -/
  | record (r : Record)
  /-- More rows, in order. -/
  | records (rs : List Record)

/-- An INSERT into a table, without rows. -/
def into (table : String) : Insert := ⟨table, .empty, none⟩

/-- Adds a row, or notes why it does not fit. -/
def addRecord (i : Insert) (r : Record) : Insert :=
  match i.batch.add r with
  | .ok b => { i with batch := b }
  | .error f => { i with fault := keepFirst i.fault f }

/-- Carries out a step. -/
def apply (i : Insert) : Step → Insert
  | .table name => { i with table := name }
  | .record r => i.addRecord r
  | .records rs => rs.foldl addRecord i

/-- The INSERT made by steps in order. -/
def ofSteps (table : String) (steps : List Step) : Insert :=
  steps.foldl apply (into table)

/-- A noted fault stays when a row is added. -/
theorem fault_addRecord {i : Insert} {f : Fault} (h : i.fault = some f) (r : Record) :
    (i.addRecord r).fault = some f := by
  unfold addRecord
  split <;> simp [h]

/-- Several rows are added like one row at a time. -/
theorem apply_records (i : Insert) (rs : List Record) :
    i.apply (.records rs) = (rs.map Step.record).foldl apply i := by
  simp [apply, List.foldl_map]

end Insert

/-! ## UPDATE -/

/-- An UPDATE: a table, its assignments, and the predicate that selects rows. -/
structure Update where
  table : String
  assignments : List Assignment
  filter : Predicate

namespace Update

/-- A step on an UPDATE. -/
inductive Step where
  /-- The table. -/
  | table (name : String)
  /-- One more assignment. -/
  | assign (a : Assignment)
  /-- More assignments, in order. -/
  | assignAll (assignments : List Assignment)
  /-- A step on the predicate. -/
  | filter (s : Predicate.Step)

/-- An UPDATE of a table, without assignments. -/
def of (table : String) : Update := ⟨table, [], .empty⟩

/-- Carries out a step. -/
def apply (u : Update) : Step → Update
  | .table name => { u with table := name }
  | .assign a => { u with assignments := u.assignments ++ [a] }
  | .assignAll assignments => { u with assignments := u.assignments ++ assignments }
  | .filter s => { u with filter := u.filter.apply s }

/-- The UPDATE made by steps in order. -/
def ofSteps (table : String) (steps : List Step) : Update :=
  steps.foldl apply (of table)

end Update

/-! ## DELETE -/

/-- A DELETE: a table, and the predicate that selects rows. -/
structure Delete where
  table : String
  filter : Predicate

namespace Delete

/-- A step on a DELETE. -/
inductive Step where
  /-- The table. -/
  | table (name : String)
  /-- A step on the predicate. -/
  | filter (s : Predicate.Step)

/-- A DELETE of all rows of a table. -/
def of (table : String) : Delete := ⟨table, .empty⟩

/-- Carries out a step. -/
def apply (d : Delete) : Step → Delete
  | .table name => { d with table := name }
  | .filter s => { d with filter := d.filter.apply s }

/-- The DELETE made by steps in order. -/
def ofSteps (table : String) (steps : List Step) : Delete :=
  steps.foldl apply (of table)

end Delete

end BoundSql
