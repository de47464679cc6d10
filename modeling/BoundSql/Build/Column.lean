import BoundSql.Build.Predicate

/-!
# `BoundSql.Build.Column` — putting columns together

## Contents
- **`CaseColumn.Step`** is a step on a CASE; `CaseColumn.edit` says what it does, or why it is rejected,
  and `CaseColumn.apply` carries it out.
- **`Aggregate.listagg`** and `Aggregate.orderWithin`.
- **`Column.relabel`** names a column of any kind, `relabelLast` the last columns of a list.
-/

namespace BoundSql

/-! ## CASE -/

namespace CaseColumn

/-- A step on a CASE. -/
inductive Step where
  /-- A new branch without a result. -/
  | branch (guard : Predicate)
  /-- The result of the last branch. -/
  | result (v : Value) (quoted : Bool)
  /-- The result where no branch applies. -/
  | otherwise (v : Value) (quoted : Bool)
  /-- The name of the column. -/
  | label (s : String)

/-- Notes a fault. -/
def note (c : CaseColumn) (f : Fault) : CaseColumn :=
  { c with fault := keepFirst c.fault f }

/-- The branches with a result for the last one. That there is one is checked first. -/
def giveResult (branches : List Branch) (v : Value) (quoted : Bool) : Except Fault (List Branch) :=
  match branches.getLast? with
  | none => .error .noBranch
  | some b =>
    match CaseResult.of v quoted with
    | .ok r => .ok (branches.dropLast ++ [{ b with result := some r }])
    | .error f => .error f

/-- The CASE after a step, if the step fits. -/
def edit (c : CaseColumn) : Step → Except Fault CaseColumn
  | .branch guard => .ok { c with branches := c.branches ++ [⟨guard, none⟩] }
  | .result v quoted =>
    match giveResult c.branches v quoted with
    | .ok branches => .ok { c with branches := branches }
    | .error f => .error f
  | .otherwise v quoted =>
    match CaseResult.of v quoted with
    | .ok r => .ok { c with otherwise := some r }
    | .error f => .error f
  | .label s => .ok { c with label := some s }

/-- Carries out a step, or notes why it does not fit. -/
def apply (c : CaseColumn) (s : Step) : CaseColumn :=
  match c.edit s with
  | .ok c' => c'
  | .error f => c.note f

/-- The CASE made by steps in order. -/
def ofSteps (steps : List Step) : CaseColumn :=
  steps.foldl apply .empty

/-- No step touches a noted fault. -/
theorem fault_apply {c : CaseColumn} {f : Fault} (h : c.fault = some f) (s : Step) :
    (c.apply s).fault = some f := by
  unfold apply
  cases he : c.edit s with
  | error g => simp [note, h]
  | ok c' =>
    cases s with
    | branch guard => cases he; exact h
    | label s => cases he; exact h
    | result v quoted =>
      simp only [edit] at he
      split at he <;> cases he
      exact h
    | otherwise v quoted =>
      simp only [edit] at he
      split at he <;> cases he
      exact h

end CaseColumn

/-! ## Aggregates -/

namespace Aggregate

/-- A function of one expression. -/
def of (function : AggregateFunction) (e : String) (distinct : Bool) : Aggregate where
  function := function
  argument := .expression e
  distinct := distinct

/-- The values of concatenated expressions in one text, with a delimiter between rows. -/
def listagg (es : List String) (delimiter : String) (distinct : Bool) : Aggregate where
  function := .listagg
  argument := .concatenation es delimiter
  distinct := distinct

/-- The aggregate with an order of its rows, which LISTAGG alone can have. -/
def orderWithin (a : Aggregate) (columns : List String) : Except Fault Aggregate :=
  if a.function = .listagg then .ok { a with trailing := some (.withinGroup columns) }
  else .error .lastNotListagg

end Aggregate

/-! ## Columns of any kind -/

namespace Column

/-- The column under a name. -/
def relabel (label : String) : Column → Column
  | .plain name _ => .plain name (some label)
  | .aggregate a => .aggregate { a with label := some label }
  | .case c => .case { c with label := some label }

/-- The column with an order of its rows, if it is a LISTAGG. -/
def orderWithin (columns : List String) : Column → Except Fault Column
  | .aggregate a =>
    match a.orderWithin columns with
    | .ok a' => .ok (.aggregate a')
    | .error f => .error f
  | _ => .error .lastNotAggregate

end Column

/-- The last columns under names, in order. There may not be more names than columns. -/
def relabelLast (columns : List Column) (labels : List String) : Except Fault (List Column) :=
  if labels.length ≤ columns.length then
    let kept := columns.length - labels.length
    .ok (columns.take kept ++ (columns.drop kept).zipWith (fun c label => c.relabel label) labels)
  else .error .tooManyAliases

/-- Naming columns neither adds nor drops any. -/
theorem length_relabelLast {columns renamed : List Column} {labels : List String}
    (h : relabelLast columns labels = .ok renamed) : renamed.length = columns.length := by
  unfold relabelLast at h
  split at h <;> cases h
  simp only [List.length_append, List.length_take, List.length_zipWith, List.length_drop]
  omega

end BoundSql
