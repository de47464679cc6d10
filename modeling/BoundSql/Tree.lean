import BoundSql.Clause
import BoundSql.Layout.Operand

/-!
# `BoundSql.Tree` — predicates, columns and queries

A query may stand inside a predicate, as the right side of IN, and predicates stand inside queries,
so the types of both are declared together.

## Contents
- **`Operand`** is what a field is compared with or set to.
- **`Predicate`** is a `Chain` of terms or has none; a `Term` is a comparison or a predicate in
  parentheses.
- **`Column`**, **`Source`**, **`Join`** and **`Query`**: one SELECT with its clauses.
- **`Select`** is a query and those united with it, with a cursor on the one that is being edited.
- **Views.** `Predicate.terms` and `Predicate.connectives`, `Select.queries` and `Select.size`.
-/

namespace BoundSql

mutual

/-- The right side of a comparison or of an assignment. -/
inductive Operand where
  /-- NULL. -/
  | null
  /-- A parameter, bound to placeholders. -/
  | bound (p : Param)
  /-- A value, written as a literal. -/
  | inlined (v : Value)
  /-- A list of values, written as literals. -/
  | inlinedList (vs : List Value)
  /-- A query of its own. -/
  | subquery (s : Select)

/-- A field, an operator and an operand, possibly negated. -/
structure Comparison where
  field : String
  operator : Operator
  operand : Operand
  negated : Bool

/-- A comparison, or a predicate in parentheses. -/
inductive Term where
  | comparison (c : Comparison)
  | group (p : Predicate)

/-- A term and the connective in front of it. -/
structure Link where
  connective : Connective
  term : Term

/-- One term or more, with connectives between them. No connective binds more tightly than the
    other. -/
structure Chain where
  first : Term
  rest : List Link

/-- A chain of terms, if there are any, possibly negated as a whole, and the first fault noted on
    it. -/
structure Predicate where
  chain : Option Chain
  negated : Bool
  fault : Option Fault

/-- A branch of a CASE: the result is what holds where the guard does. -/
structure Branch where
  guard : Predicate
  result : Option CaseResult

/-- A CASE with its branches, its ELSE result, its label and the first fault noted on it. -/
structure CaseColumn where
  branches : List Branch
  otherwise : Option CaseResult
  label : Option String
  fault : Option Fault

/-- A column of a query. -/
inductive Column where
  | plain (name : String) (label : Option String)
  | aggregate (a : Aggregate)
  | case (c : CaseColumn)

/-- What a query reads from. -/
inductive Source where
  | table (name : String)
  | subquery (s : Select)

/-- A joined source, its label and its condition. -/
structure Join where
  kind : JoinKind
  target : Source
  label : Option String
  condition : Option ColumnPair

/-- One SELECT. -/
structure Query where
  columns : List Column
  distinct : Bool
  source : Option Source
  sourceLabel : Option String
  joins : List Join
  filter : Predicate
  groupBy : List String
  having : Option Predicate
  orderBy : List Order
  limit : Option Int
  offset : Option Int

/-- A query united with those before it. -/
structure UnitedQuery where
  kind : UnionKind
  query : Query

/-- A first query, those united with it, the position of the query that is being edited, and the
    first fault noted. -/
structure Select where
  head : Query
  unions : List UnitedQuery
  cursor : Nat
  fault : Option Fault

end

/-! ## Starting points -/

/-- A predicate without terms. -/
def Predicate.empty : Predicate where
  chain := none
  negated := false
  fault := none

/-- A CASE without branches. -/
def CaseColumn.empty : CaseColumn where
  branches := []
  otherwise := none
  label := none
  fault := none

/-- A query of which nothing is given yet. -/
def Query.empty : Query where
  columns := []
  distinct := false
  source := none
  sourceLabel := none
  joins := []
  filter := .empty
  groupBy := []
  having := none
  orderBy := []
  limit := none
  offset := none

/-- One empty query, with the cursor on it. -/
def Select.empty : Select where
  head := .empty
  unions := []
  cursor := 0
  fault := none

/-! ## Views -/

namespace Chain

/-- The terms in order. -/
def terms (c : Chain) : List Term :=
  c.first :: c.rest.map (·.term)

/-- The connectives in order. -/
def connectives (c : Chain) : List Connective :=
  c.rest.map (·.connective)

/-- A chain has one term more than it has connectives. -/
theorem length_terms (c : Chain) : c.terms.length = c.connectives.length + 1 := by
  simp [terms, connectives]

end Chain

namespace Predicate

/-- The terms in order. -/
def terms (p : Predicate) : List Term :=
  (p.chain.map Chain.terms).getD []

/-- The connectives in order. -/
def connectives (p : Predicate) : List Connective :=
  (p.chain.map Chain.connectives).getD []

/-- Whether there is a term. -/
def hasTerms (p : Predicate) : Bool :=
  p.chain.isSome

/-- Whether a statement has to render the predicate: it has terms, or a fault to report. -/
def isPending (p : Predicate) : Bool :=
  p.hasTerms || p.fault.isSome

theorem hasTerms_iff (p : Predicate) : p.hasTerms = true ↔ p.terms ≠ [] := by
  cases h : p.chain <;> simp [hasTerms, terms, h, Chain.terms]

end Predicate

namespace Select

/-- The united queries in order. -/
def queries (s : Select) : List Query :=
  s.head :: s.unions.map (·.query)

/-- The number of united queries. -/
def size (s : Select) : Nat :=
  s.unions.length + 1

/-- Whether the cursor is on the first query. -/
def atHead (s : Select) : Bool :=
  s.cursor == 0

@[simp] theorem length_queries (s : Select) : s.queries.length = s.size := by
  simp [queries, size]

end Select

end BoundSql
