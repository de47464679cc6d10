import BoundSql.Tree

/-!
# `BoundSql.Layout.Tree` — predicates, columns and queries as scripts

Each part is laid out from the scripts of its own parts, in the order of the written statement. A
fault noted on a part stands in the place of the whole part, so nothing of it is bound.

## Contents
- **Negation.** `negatable` is how a negated predicate is written wherever a clause holds one.
- **`script`** of every type of the tree, all declared together because a query may stand in a
  predicate and predicates stand in queries.
- **`Predicate.clause`** and `Predicate.whereClause` for the statements that end in a predicate;
  `Query.script_mk` finds the same clause in a query.
-/

namespace BoundSql

/-- A predicate in a clause: in parentheses behind NOT if it is negated, else as it is. -/
def negatable (negated : Bool) (s : Script) : Script :=
  if negated then .keyword "NOT " :: Script.inParens s else s

/-- A predicate as a term of another one: in parentheses, and behind NOT if it is negated. -/
def grouped (negated : Bool) (s : Script) : Script :=
  notBefore negated (Script.inParens s)

mutual

/-- The right side of an operator. -/
def Operand.comparand (op : Operator) : Operand → Script
  | .null => [.keyword "NULL"]
  | .bound p => p.comparand op
  | .inlined v => v.comparandOf op
  | .inlinedList vs => listComparand op vs
  | .subquery s =>
    if op = .oneOf then Script.inParens s.script else [.fault (.subqueryOperand op)]

/-- A comparison; one with NULL is a test. -/
def Comparison.script : Comparison → Script
  | { field, operator, operand := .null, negated } => nullTest field operator negated
  | { field, operator, operand, negated } =>
    sentence field operator negated (operand.comparand operator)

/-- A term. -/
def Term.script : Term → Script
  | .comparison c => c.script
  | .group p => grouped p.negated p.script

/-- Terms behind their connectives. -/
def linksScript : List Link → Script
  | [] => []
  | { connective, term } :: rest =>
    .keyword (" " ++ connective.text ++ " ") :: (term.script ++ linksScript rest)

/-- The terms of a chain with their connectives between them. -/
def Chain.script : Chain → Script
  | { first, rest } => first.script ++ linksScript rest

/-- The terms of a predicate, if there are any. -/
def chainScript : Option Chain → Script
  | none => [.fault .predicateEmpty]
  | some c => c.script

/-- A predicate without its own negation, which the place where it stands writes. -/
def Predicate.script : Predicate → Script
  | { chain, fault := none, .. } => chainScript chain
  | { fault := some f, .. } => [.fault f]

/-- The branches of a CASE. A branch without a result has an empty one. -/
def branchesScript : List Branch → Script
  | [] => []
  | { guard, result } :: rest =>
    .keyword " WHEN " :: (negatable guard.negated guard.script ++
      (.keyword " THEN " ::
        (result.toList.map (fun r => Piece.text r.fragment) ++ branchesScript rest)))

/-- A CASE as a column. -/
def CaseColumn.script : CaseColumn → Script
  | { fault := some f, .. } => [.fault f]
  | { branches := [], fault := none, .. } => [.fault .caseEmpty]
  | { branches, otherwise, label, fault := none } =>
    labelled
      (.keyword "CASE" ::
        (branchesScript branches ++ otherwiseScript otherwise ++ [.keyword " END"]))
      label

/-- A column. -/
def Column.script : Column → Script
  | .plain name label => labelled [.verbatim name] label
  | .aggregate a => a.script
  | .case c => c.script

/-- Columns one by one. -/
def columnScripts : List Column → List Script
  | [] => []
  | c :: rest => c.script :: columnScripts rest

/-- The columns of a query; without any, all of them are returned. -/
def columnsScript : List Column → Script
  | [] => [.keyword "*"]
  | c :: rest => Script.commaList (c.script :: columnScripts rest)

/-- What is read from: a table by its name, a subquery in parentheses. -/
def Source.script : Source → Script
  | .table name => [.verbatim name]
  | .subquery s => Script.inParens s.script

/-- What a query reads from. It has to be given, and the name of a table must not be empty. -/
def sourceScript : Option Source → Script
  | none => [.fault .noSource]
  | some (.table name) => if name = "" then [.fault .noSource] else [.verbatim name]
  | some (.subquery s) => Script.inParens s.script

/-- A join with its label and its condition. -/
def Join.script : Join → Script
  | { kind, target, label, condition } =>
    .keyword (kind.text ++ " JOIN ") ::
      (target.script ++ joinLabelScript label ++ joinConditionScript condition)

/-- Joins in order, each behind a blank. -/
def joinsScript : List Join → Script
  | [] => []
  | j :: rest => .keyword " " :: (j.script ++ joinsScript rest)

/-- The predicate of HAVING, if one was given. -/
def havingScript : Option Predicate → Script
  | none => []
  | some p => .keyword " HAVING " :: negatable p.negated p.script

/-- One SELECT with its clauses in the order of the language. -/
def Query.script : Query → Script
  | { columns, distinct, source, sourceLabel, joins, filter, groupBy, having, orderBy, limit,
      offset } =>
    .keyword (if distinct then "SELECT DISTINCT " else "SELECT ") ::
      (columnsScript columns ++ .keyword " FROM " ::
        (sourceScript source ++ sourceLabelScript sourceLabel ++ joinsScript joins ++
          (if filter.isPending then
            .keyword " WHERE " :: negatable filter.negated filter.script
          else []) ++
          groupScript groupBy ++ havingScript having ++ orderScript orderBy ++
          pageScript limit offset))

/-- United queries behind the words that unite them. -/
def unionsScript : List UnitedQuery → Script
  | [] => []
  | { kind, query } :: rest => .keyword kind.words :: (query.script ++ unionsScript rest)

/-- All united queries. -/
def Select.script : Select → Script
  | { fault := some f, .. } => [.fault f]
  | { head, unions, fault := none, .. } => head.script ++ unionsScript unions

end

namespace Predicate

/-- A predicate behind the words that open its clause. -/
def clause (words : String) (p : Predicate) : Script :=
  .keyword words :: negatable p.negated p.script

/-- The WHERE clause of a statement, if its predicate asks for one. -/
def whereClause (p : Predicate) : Script :=
  if p.isPending then p.clause " WHERE " else []

/-- A predicate with a fault is rendered to that fault alone. -/
theorem script_of_fault {p : Predicate} {f : Fault} (h : p.fault = some f) :
    p.script = [.fault f] := by
  obtain ⟨chain, negated, fault⟩ := p
  cases h
  rw [Predicate.script]

/-- Whatever asks for the predicate of a statement finds its clause there. -/
theorem whereClause_of_isPending {p : Predicate} (h : p.isPending = true) :
    p.whereClause = p.clause " WHERE " := by
  simp [whereClause, h]

end Predicate

theorem columnScripts_eq_map (columns : List Column) : columnScripts columns = columns.map Column.script := by
  induction columns with
  | nil => rfl
  | cons c rest ih => rw [columnScripts, ih, List.map_cons]

/-- The clauses of a query, of which WHERE is the same as in the other statements. -/
theorem Query.script_mk (columns : List Column) (distinct : Bool) (source : Option Source)
    (sourceLabel : Option String) (joins : List Join) (filter : Predicate) (groupBy : List String)
    (having : Option Predicate) (orderBy : List Order) (limit offset : Option Int) :
    Query.script ⟨columns, distinct, source, sourceLabel, joins, filter, groupBy, having, orderBy, limit,
        offset⟩ =
      .keyword (if distinct then "SELECT DISTINCT " else "SELECT ") ::
        (columnsScript columns ++ .keyword " FROM " ::
          (sourceScript source ++ sourceLabelScript sourceLabel ++ joinsScript joins ++
            filter.whereClause ++ groupScript groupBy ++ havingScript having ++ orderScript orderBy ++
            pageScript limit offset)) := by
  rw [Query.script]
  rfl

end BoundSql
