import BoundSql.Build.Column

/-!
# `BoundSql.Build.Select` — putting queries together

Most steps edit one query: the one under the cursor. An edit that does not fit is rejected. Then its
fault is noted on the whole `Select`, and nothing else changes.

## Contents
- **`Edit`** is a change to one query; `Query.edit` makes it or names the fault.
- **`Select.Step`** is an edit, a union or a move of the cursor; `Select.apply` carries it out.
- **`Select.ofSteps`** carries out a list of steps on the empty `Select`.
-/

namespace BoundSql

/-! ## Edits of one query -/

/-- A change to one query. -/
inductive Edit where
  /-- Plain columns behind those there are. -/
  | columns (names : List String)
  /-- Any column behind those there are. -/
  | column (c : Column)
  /-- Equal rows are returned once. -/
  | distinct
  /-- Names for the last columns. -/
  | labels (labels : List String)
  /-- The order of rows for the last column, which has to be a LISTAGG. -/
  | withinGroup (columns : List String)
  /-- A step on the last column, which has to be a CASE. -/
  | onCase (s : CaseColumn.Step)
  /-- What the query reads from. -/
  | source (s : Source) (label : Option String)
  /-- A join behind those there are. -/
  | join (kind : JoinKind) (target : Source) (label : Option String)
  /-- The condition of the last join. -/
  | joinCondition (p : ColumnPair)
  /-- A step on the predicate of WHERE. -/
  | filter (s : Predicate.Step)
  /-- Columns of GROUP BY behind those there are. -/
  | groupBy (columns : List String)
  /-- The predicate of HAVING. -/
  | having (p : Predicate)
  /-- An entry of ORDER BY behind those there are. -/
  | orderBy (o : Order)
  /-- How many rows are returned. -/
  | limit (rows : Int)
  /-- How many rows are passed over. -/
  | offset (rows : Int)
  /-- The rows of one page; pages count from one and have at least one row. How many rows are in front of the
      page is a number of 64 bits, and wraps around if it is too large. -/
  | page (number rows : Int)

namespace Query

/-- The columns after a step on the last one. -/
def editLastCase (columns : List Column) (s : CaseColumn.Step) : Except Fault (List Column) :=
  match columns.getLast? with
  | some (.case c) => .ok (columns.dropLast ++ [.case (c.apply s)])
  | _ => .error .lastNotCase

/-- The columns with an order of rows for the last one. -/
def orderLastWithin (columns : List Column) (order : List String) : Except Fault (List Column) :=
  match columns.getLast? with
  | none => .error .noColumnToGroup
  | some c =>
    match c.orderWithin order with
    | .ok c' => .ok (columns.dropLast ++ [c'])
    | .error f => .error f

/-- The joins with a condition for the last one. -/
def conditionLast (joins : List Join) (p : ColumnPair) : Except Fault (List Join) :=
  match joins.getLast? with
  | none => .error .noJoin
  | some j => .ok (joins.dropLast ++ [{ j with condition := some p }])

/-- The query after an edit, if the edit fits. -/
def edit (q : Query) : Edit → Except Fault Query
  | .columns names => .ok { q with columns := q.columns ++ names.map (Column.plain · none) }
  | .column c => .ok { q with columns := q.columns ++ [c] }
  | .distinct => .ok { q with distinct := true }
  | .labels labels => (relabelLast q.columns labels).map fun columns => { q with columns := columns }
  | .withinGroup order =>
    (orderLastWithin q.columns order).map fun columns => { q with columns := columns }
  | .onCase s => (editLastCase q.columns s).map fun columns => { q with columns := columns }
  | .source s label => .ok { q with source := some s, sourceLabel := label }
  | .join kind target label => .ok { q with joins := q.joins ++ [⟨kind, target, label, none⟩] }
  | .joinCondition p => (conditionLast q.joins p).map fun joins => { q with joins := joins }
  | .filter s => .ok { q with filter := q.filter.apply s }
  | .groupBy columns =>
    if columns.isEmpty then .error .emptyGroupBy else .ok { q with groupBy := q.groupBy ++ columns }
  | .having p =>
    if q.groupBy.isEmpty then .error .havingWithoutGroupBy else .ok { q with having := some p }
  | .orderBy o => .ok { q with orderBy := q.orderBy ++ [o] }
  | .limit rows => .ok { q with limit := some rows }
  | .offset rows => .ok { q with offset := some rows }
  | .page number rows =>
    let rows := max rows 1
    let before := ((max number 1 - 1) * rows).bmod 0x10000000000000000
    .ok { q with limit := some rows, offset := some before }

end Query

namespace Select

/-! ## Steps -/

/-- A step on a `Select`. -/
inductive Step where
  /-- A change to the query under the cursor. -/
  | edit (e : Edit)
  /-- A new query behind all others, which the cursor moves to. -/
  | union (k : UnionKind)
  /-- The cursor moves to the first query. -/
  | root

/-- The query under the cursor. -/
def current? (s : Select) : Option Query :=
  s.queries[s.cursor]?

/-- The `Select` with another query under the cursor. -/
def replaceCurrent (s : Select) (q : Query) : Select :=
  match s.cursor with
  | 0 => { s with head := q }
  | i + 1 => { s with unions := s.unions.modify i fun u => { u with query := q } }

/-- Notes a fault. -/
def note (s : Select) (f : Fault) : Select :=
  { s with fault := keepFirst s.fault f }

/-- Changes the query under the cursor, or notes why the change does not fit. -/
def editCurrent (s : Select) (e : Edit) : Select :=
  match s.current? with
  | none => s
  | some q =>
    match q.edit e with
    | .ok q' => s.replaceCurrent q'
    | .error f => s.note f

/-- Puts an empty query behind all others and moves the cursor to it. -/
def unite (s : Select) (k : UnionKind) : Select :=
  { s with unions := s.unions ++ [⟨k, .empty⟩], cursor := s.unions.length + 1 }

/-- Carries out a step. -/
def apply (s : Select) : Step → Select
  | .edit e => s.editCurrent e
  | .union k => s.unite k
  | .root => { s with cursor := 0 }

/-- Carries out steps in order. -/
def applyAll (s : Select) (steps : List Step) : Select :=
  steps.foldl apply s

/-- The `Select` made by steps in order. -/
def ofSteps (steps : List Step) : Select :=
  empty.applyAll steps

end Select

/-- What is read off the elements of a list when one of them is changed. -/
theorem map_modify {α β : Type} {f : α → β} {g : α → α} {g' : β → β} (h : ∀ a, f (g a) = g' (f a))
    (l : List α) (i : Nat) : (l.modify i g).map f = (l.map f).modify i g' := by
  induction l generalizing i with
  | nil => cases i <;> rfl
  | cons a rest ih =>
    cases i with
    | zero => exact congrArg (· :: rest.map f) (h a)
    | succ j => exact congrArg (f a :: ·) (ih j)

namespace Select

/-! ## The queries -/

/-- Only the query under the cursor is replaced. -/
theorem queries_replaceCurrent (s : Select) (q : Query) :
    (s.replaceCurrent q).queries = s.queries.set s.cursor q := by
  obtain ⟨head, unions, cursor, fault⟩ := s
  cases cursor with
  | zero => rfl
  | succ i =>
    have hmap : (unions.modify i fun u => { u with query := q }).map (·.query) =
        (unions.map (·.query)).set i q := by
      induction unions generalizing i with
      | nil => simp
      | cons u rest ih =>
        cases i with
        | zero => rfl
        | succ j => exact congrArg (u.query :: ·) (ih j)
    exact congrArg (head :: ·) hmap

/-- A union leaves the queries there are alone. -/
theorem queries_unite (s : Select) (k : UnionKind) : (s.unite k).queries = s.queries ++ [.empty] := by
  simp [unite, queries]

/-! ## The cursor -/

@[simp] theorem fault_replaceCurrent (s : Select) (q : Query) :
    (s.replaceCurrent q).fault = s.fault := by
  unfold replaceCurrent
  split <;> rfl

@[simp] theorem cursor_replaceCurrent (s : Select) (q : Query) :
    (s.replaceCurrent q).cursor = s.cursor := by
  unfold replaceCurrent
  split <;> rfl

@[simp] theorem size_replaceCurrent (s : Select) (q : Query) :
    (s.replaceCurrent q).size = s.size := by
  unfold replaceCurrent size
  split <;> simp

/-- No edit moves the cursor or changes the number of queries. -/
theorem editCurrent_cursor_size (s : Select) (e : Edit) :
    (s.editCurrent e).cursor = s.cursor ∧ (s.editCurrent e).size = s.size := by
  unfold editCurrent
  split
  · exact ⟨rfl, rfl⟩
  · split
    · simp
    · exact ⟨rfl, rfl⟩

/-- The cursor stays on a query. -/
theorem cursor_apply_lt {s : Select} (h : s.cursor < s.size) (step : Step) :
    (s.apply step).cursor < (s.apply step).size := by
  cases step with
  | edit e =>
    have he := s.editCurrent_cursor_size e
    simp only [apply]
    omega
  | union k => simp [apply, unite, size]
  | root => simp [apply, size]

/-- A noted fault stays, whatever comes after it. -/
theorem fault_apply {s : Select} {f : Fault} (h : s.fault = some f) (step : Step) :
    (s.apply step).fault = some f := by
  cases step with
  | edit e =>
    simp only [apply, editCurrent]
    split
    · exact h
    · split
      · simp [h]
      · simp [note, h]
  | union k => exact h
  | root => exact h

end Select

end BoundSql
