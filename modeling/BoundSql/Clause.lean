import BoundSql.Script

/-!
# `BoundSql.Clause` — the clauses of a query that hold no other query

## Contents
- **Labels.** `labelled` writes the name that a column is given, `sourceLabelScript` and
  `joinLabelScript` those of what a query reads from.
- **`Aggregate`** is a column computed over the rows of a group.
- **`Order`** is one entry of ORDER BY; its direction is checked when it is laid out. Beside it stand
  `groupScript` and `pageScript`.
- **`JoinKind`** and **`UnionKind`** name the ways to join tables and to unite queries.
-/

namespace BoundSql

/-! ## Labels -/

/-- A column under a name of its own, in double quotes. An empty name is no name. -/
def labelled (s : Script) : Option String → Script
  | none => s
  | some label =>
    if label = "" then s else s ++ [.keyword " AS \"", .verbatim label, .keyword "\""]

/-- The name of what a query reads from, behind a blank. An empty name is no name. -/
def sourceLabelScript : Option String → Script
  | none => []
  | some label => if label = "" then [] else [.keyword " ", .verbatim label]

/-- The name of a joined source, behind a blank. The blank is written also before an empty name. -/
def joinLabelScript : Option String → Script
  | none => []
  | some label => [.keyword " ", .verbatim label]

/-! ## Aggregates -/

/-- A function over the rows of a group. -/
inductive AggregateFunction where
  | count
  | avg
  | sum
  | min
  | max
  | listagg
  deriving DecidableEq, Repr

/-- The spelling of the function. -/
def AggregateFunction.text : AggregateFunction → String
  | .count => "COUNT"
  | .avg => "AVG"
  | .sum => "SUM"
  | .min => "MIN"
  | .max => "MAX"
  | .listagg => "LISTAGG"

/-- What a function is computed from. -/
inductive Argument where
  /-- One expression. -/
  | expression (e : String)
  /-- The concatenation of expressions, and what is put between the values of two rows. -/
  | concatenation (es : List String) (delimiter : String)
  deriving DecidableEq, Repr

/-- What follows the closing parenthesis of a function. -/
inductive Trailing where
  /-- Any text. -/
  | words (s : String)
  /-- The order in which LISTAGG takes the rows. -/
  | withinGroup (columns : List String)
  deriving DecidableEq, Repr

/-- A column computed over the rows of a group. -/
structure Aggregate where
  function : AggregateFunction
  argument : Argument
  distinct : Bool := false
  trailing : Option Trailing := none
  label : Option String := none
  deriving DecidableEq, Repr

/-- The argument as it stands between the parentheses. -/
def Argument.script : Argument → Script
  | .expression e => [.verbatim e]
  | .concatenation es delimiter =>
    Script.separated " || " (es.map fun e => [.verbatim e]) ++
      [.keyword ", ", .text (.delimiter delimiter)]

/-- What follows the closing parenthesis, behind a blank. Empty text is left out. -/
def Trailing.script : Trailing → Script
  | .words s => if s = "" then [] else [.keyword " ", .verbatim s]
  | .withinGroup columns =>
    .keyword " WITHIN GROUP (ORDER BY " :: (Script.nameList columns ++ [.keyword ")"])

/-- The aggregate as a column. -/
def Aggregate.script (a : Aggregate) : Script :=
  labelled
    (.keyword (a.function.text ++ "(" ++ if a.distinct then "DISTINCT " else "") ::
      (a.argument.script ++ [.keyword ")"] ++ (a.trailing.map Trailing.script).getD []))
    a.label

/-! ## Order -/

/-- A direction of ORDER BY. -/
inductive Direction where
  | ascending
  | descending
  deriving DecidableEq, Repr

namespace Direction

/-- The spelling of the direction. -/
def text : Direction → String
  | .ascending => "ASC"
  | .descending => "DESC"

/-- The ASCII capital of a character; other characters stay. -/
def capital (c : Char) : Char :=
  if 'a' ≤ c && c ≤ 'z' then Char.ofNat (c.toNat - 32) else c

/-- The direction with a spelling, in capital or small ASCII letters. -/
def ofText? (s : String) : Option Direction :=
  let capitals := s.toList.map capital
  if capitals = ['A', 'S', 'C'] then some .ascending
  else if capitals = ['D', 'E', 'S', 'C'] then some .descending
  else none

@[simp] theorem ofText?_text (d : Direction) : ofText? d.text = some d := by
  cases d <;> decide

end Direction

/-- One entry of ORDER BY. The direction is kept as the caller gave it. -/
structure Order where
  column : String
  direction : Option String := none
  deriving DecidableEq, Repr

/-- The entry in the database's default order, or in the direction that the caller asked for. -/
def Order.script (o : Order) : Script :=
  match o.direction with
  | none => [.verbatim o.column]
  | some text =>
    match Direction.ofText? text with
    | some d => [.verbatim o.column, .keyword (" " ++ d.text)]
    | none => [.fault (.unknownDirection text)]

/-- The entries of ORDER BY, if there are any. -/
def orderScript (orders : List Order) : Script :=
  if orders.isEmpty then []
  else .keyword " ORDER BY " :: Script.commaList (orders.map Order.script)

/-- The columns of GROUP BY, if there are any. -/
def groupScript (columns : List String) : Script :=
  if columns.isEmpty then [] else .keyword " GROUP BY " :: Script.nameList columns

/-- The rows that a query returns: after `offset` rows, at most `limit`. Without a limit all rows
    are returned, whatever the offset. -/
def pageScript (limit offset : Option Int) : Script :=
  match limit with
  | none => []
  | some limit =>
    [.keyword (" OFFSET " ++ (offset.getD 0).repr ++ " ROWS FETCH NEXT " ++ limit.repr ++
      " ROWS ONLY")]

/-! ## Joins and unions -/

/-- A way to join a table. -/
inductive JoinKind where
  | inner
  | left
  | right
  | outer
  deriving DecidableEq, Repr

/-- The spelling of the way to join. -/
def JoinKind.text : JoinKind → String
  | .inner => "INNER"
  | .left => "LEFT"
  | .right => "RIGHT"
  | .outer => "OUTER"

/-- The two sides of a join condition. -/
structure ColumnPair where
  source : String
  target : String
  deriving DecidableEq, Repr

/-- The condition that both sides are equal. -/
def ColumnPair.script (p : ColumnPair) : Script :=
  [.verbatim p.source, .keyword " = ", .verbatim p.target]

/-- The condition of a join, if one was given. -/
def joinConditionScript : Option ColumnPair → Script
  | none => []
  | some p => .keyword " ON " :: p.script

/-- A way to unite a query with the ones before it. -/
inductive UnionKind where
  | distinct
  | all
  deriving DecidableEq, Repr

/-- The words between two united queries. -/
def UnionKind.words : UnionKind → String
  | .distinct => " UNION "
  | .all => " UNION ALL "

end BoundSql
