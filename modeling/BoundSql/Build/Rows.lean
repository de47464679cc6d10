import BoundSql.Tree

/-!
# `BoundSql.Build.Rows` — records and the batch they fill

An INSERT writes rows under one list of columns. The caller gives each row as a record, in any order of
columns; the first record fixes the order, and later ones are brought into it.

## Contents
- **`Record`** maps columns to operands and keeps the order in which columns were first set.
  `Record.set` and `Record.take?` put a value in and take one out.
- **`Cell`** is a single value of a row; `Operand.cell?` refuses lists and subqueries.
- **`Batch`** holds the columns and the rows; `Batch.add` accepts a record or says why it does not fit.
- **`Assignment`** is a column and what an UPDATE sets it to.
-/

namespace BoundSql

/-! ## Records -/

/-- Columns with their values, in the order in which the columns were first set. -/
structure Record where
  entries : List (String × Operand)

namespace Record

/-- A record without columns. -/
def empty : Record := ⟨[]⟩

/-- The columns in order. -/
def columns (r : Record) : List String :=
  r.entries.map (·.1)

/-- The number of columns. -/
def size (r : Record) : Nat :=
  r.entries.length

/-- Whether there is no column. -/
def isEmpty (r : Record) : Bool :=
  r.entries.isEmpty

/-- The entries with a value for a column: in the place of an earlier value, else at the end. -/
def setEntry (column : String) (v : Operand) : List (String × Operand) → List (String × Operand)
  | [] => [(column, v)]
  | (c, w) :: rest =>
    if c = column then (c, v) :: rest else (c, w) :: setEntry column v rest

/-- Gives a column a value. -/
def set (r : Record) (column : String) (v : Operand) : Record :=
  ⟨setEntry column v r.entries⟩

/-- The record made by setting columns in order. -/
def ofList (settings : List (String × Operand)) : Record :=
  settings.foldl (fun r s => r.set s.1 s.2) empty

/-- The value of a column. -/
def get? (r : Record) (column : String) : Option Operand :=
  r.entries.lookup column

/-- The entries without the one at a position, which the last entry takes. -/
def swapRemove (entries : List (String × Operand)) (i : Nat) : List (String × Operand) :=
  match entries.getLast? with
  | none => []
  | some e => (entries.set i e).dropLast

/-- Takes the value of a column out of the record. The last entry moves to the place that is free then. -/
def take? (r : Record) (column : String) : Option (Operand × Record) :=
  (r.get? column).map fun v => (v, ⟨swapRemove r.entries (r.entries.findIdx (·.1 == column))⟩)

/-- Setting a column adds it at the end, unless it is there already. -/
theorem columns_set (r : Record) (column : String) (v : Operand) :
    (r.set column v).columns =
      if column ∈ r.columns then r.columns else r.columns ++ [column] := by
  obtain ⟨entries⟩ := r
  simp only [set, columns]
  induction entries with
  | nil => simp [setEntry]
  | cons e rest ih =>
    obtain ⟨c, w⟩ := e
    by_cases hc : c = column
    · simp [setEntry, hc]
    · by_cases hm : column ∈ rest.map (·.1)
      · simp [setEntry, hc, ih, hm]
      · have hc' : column ≠ c := fun h => hc h.symm
        simp [setEntry, hc, hc', ih, hm]

/-- A column that was set has its new value. -/
theorem get?_set_self (r : Record) (column : String) (v : Operand) :
    (r.set column v).get? column = some v := by
  obtain ⟨entries⟩ := r
  simp only [set, get?]
  induction entries with
  | nil => simp [setEntry]
  | cons e rest ih =>
    obtain ⟨c, w⟩ := e
    by_cases hc : c = column
    · simp [setEntry, hc]
    · have hc' : (column == c) = false := by simpa using fun h => hc h.symm
      simp [setEntry, hc, List.lookup_cons, hc', ih]

/-- Every other column keeps its value. -/
theorem get?_set_of_ne (r : Record) {column other : String} (h : other ≠ column) (v : Operand) :
    (r.set column v).get? other = r.get? other := by
  obtain ⟨entries⟩ := r
  simp only [set, get?]
  have hne : (other == column) = false := by simpa using h
  induction entries with
  | nil => simp [setEntry, List.lookup_cons, hne]
  | cons e rest ih =>
    obtain ⟨c, w⟩ := e
    by_cases hc : c = column
    · subst hc
      simp [setEntry, List.lookup_cons, hne]
    · cases ho : other == c <;> simp [setEntry, hc, List.lookup_cons, ho, ih]

end Record

/-! ## Cells -/

/-- A single value of a row. -/
inductive Cell where
  /-- NULL. -/
  | null
  /-- A parameter, bound to a placeholder. -/
  | bound (p : BoundParam)
  /-- A value, written as a literal. -/
  | inlined (v : Value)
  deriving DecidableEq, Repr

/-- The operand as a single value. Lists and subqueries are none, whatever they hold. -/
def Operand.cell? : Operand → Option Cell
  | .null => some .null
  | .bound ⟨.scalar v, type⟩ => some (.bound ⟨v, type⟩)
  | .bound ⟨.list _, _⟩ => none
  | .inlined v => some (.inlined v)
  | .inlinedList _ => none
  | .subquery _ => none

/-- Whether the operand is a list, of whatever length. -/
def Operand.isList : Operand → Bool
  | .bound p => p.content.isList
  | .inlinedList _ => true
  | _ => false

/-- Whether the operand is NULL. -/
def Operand.isNull : Operand → Bool
  | .null => true
  | _ => false

/-! ## Batches -/

/-- Columns, and rows with one cell for each of them. -/
structure Batch where
  columns : List String
  rows : List (List Cell)

namespace Batch

/-- A batch without columns and rows. -/
def empty : Batch := ⟨[], []⟩

/-- Whether there is anything to insert. -/
def isFilled (b : Batch) : Bool :=
  !b.columns.isEmpty && !b.rows.isEmpty

/-- The cells of a record under the given columns. -/
def rowOf : List String → Record → Except Fault (List Cell)
  | [], _ => .ok []
  | column :: rest, r =>
    match r.take? column with
    | none => .error (.missingColumn column)
    | some (v, r) =>
      match v.cell? with
      | none => .error (.notSingleValue column)
      | some cell => (rowOf rest r).map (cell :: ·)

/-- The batch with one more row. The first record brings its columns; every other one has to have the
    same columns, in any order. -/
def add (b : Batch) (r : Record) : Except Fault Batch :=
  if r.isEmpty then .error .emptyRecord
  else if b.columns.isEmpty then
    (rowOf r.columns r).map fun row => ⟨r.columns, b.rows ++ [row]⟩
  else if r.columns.isPerm b.columns then
    (rowOf b.columns r).map fun row => { b with rows := b.rows ++ [row] }
  else .error .columnsDiffer

/-- A row has one cell for each column. -/
theorem length_rowOf {columns : List String} {r : Record} {row : List Cell}
    (h : rowOf columns r = .ok row) : row.length = columns.length := by
  induction columns generalizing r row with
  | nil => cases h; rfl
  | cons column rest ih =>
    simp only [rowOf] at h
    split at h
    · cases h
    · split at h
      · cases h
      · obtain ⟨row', hrow', rfl⟩ := map_eq_ok_iff.mp h
        rw [List.length_cons, List.length_cons, ih hrow']

end Batch

/-! ## Assignments -/

/-- A column and what an UPDATE sets it to. -/
structure Assignment where
  column : String
  operand : Operand

end BoundSql
