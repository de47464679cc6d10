import BoundSql.Proofs.BoundValues
import BoundSql.Proofs.Masking

/-!
# `BoundSql.Proofs.MappedSteps` — changing values before or after a statement is put together

A leaf map changes the values of a finished statement. A caller sees no finished statement, only the steps
that make it, so what is said about statements that differ in their values has to be carried over to steps
that differ in their values. Here the same leaf map is applied to the arguments of the steps, and the two
ways round agree: the statement of the changed steps is the changed statement. This includes the steps that
are rejected: no step looks at a value to decide whether it fits, but for a CASE, which refuses a value that has
no literal. A predicate, a CASE or a query that is an argument of a step is changed as a whole, and it is made by
changed steps in turn.

## Contents
- **`StepMap`** is a leaf map with what it makes of a value that a CASE is given. `StepMap.eraseTexts` and
  `StepMap.forgetValues` are the two that are used.
- **`mapLeaves`** for entries, records, edits and steps of every kind; `Entry.eraseTexts_inlined_eq_iff` and
  `CaseColumn.Step.eraseTexts_result_eq_iff` say when two of them are the same without their texts.
- **`mapLeaves_apply`** for every kind says that a step commutes with the map, and **`mapLeaves_ofSteps`** that
  a whole run does.
- **`Recipe`** is all a caller says about a statement, and **`Recipe.mapLeaves_statement`** the law of it.
- **`Recipe.eraseTexts_statement_congr`** and **`Recipe.forgetValues_statement_congr`** find statements with the
  same erasure from the steps that made them.
-/

namespace BoundSql

/-! ## Maps of steps -/

/-- A leaf map that can be followed while a statement is put together. -/
structure StepMap extends LeafMap where
  /-- The values that a CASE is given, and whether they are to be quoted. -/
  given : Value → Bool → Value
  /-- The changed value leads to the changed result, or is refused as the value is. -/
  of_given : ∀ v quoted, CaseResult.of (given v quoted) quoted = (CaseResult.of v quoted).map result
  /-- A parameter in a record is changed as beside an equality, and so is the cell that it fills. -/
  cell?_bound : ∀ p,
    (Operand.bound (bound .equal p)).cell? = (Operand.bound p).cell?.map (Cell.mapLeaves toLeafMap)

/-- The step map that forgets what the literals of texts stand for. -/
def StepMap.eraseTexts : StepMap where
  toLeafMap := .eraseTexts
  given := Value.eraseQuoted
  of_given := CaseResult.of_eraseQuoted
  cell?_bound p := by
    obtain ⟨content, type⟩ := p
    cases content <;> rfl

/-- The step map that forgets the values of parameters. -/
def StepMap.forgetValues : StepMap where
  toLeafMap := .forgetValues
  given v _ := v
  of_given v quoted := by cases CaseResult.of v quoted <;> rfl
  cell?_bound p := by
    obtain ⟨content, type⟩ := p
    cases content <;> rfl

/-- What commutes with one step commutes with a run. -/
theorem mapLeaves_foldl {σ ι : Type} {apply : σ → ι → σ} {f : σ → σ} {g : ι → ι}
    (h : ∀ x step, f (apply x step) = apply (f x) (g step)) (x : σ) (steps : List ι) :
    f (steps.foldl apply x) = (steps.map g).foldl apply (f x) := by
  rw [List.foldl_map]
  refine (List.foldl_hom f ?_).symm
  intro x step
  exact (h x step).symm

/-! ## Predicates -/

section Predicates

variable {φ : LeafMap}

/-- The entry with other values. An operand is changed according to the operator beside it; without an operator
    the entry is refused, whatever its operand is. -/
def Entry.mapLeaves (φ : LeafMap) : Entry → Entry
  | .comparison field operator operand negated =>
    .comparison field operator ((Operator.ofText? operator).elim operand fun op => operand.mapLeaves φ op)
      negated
  | .group p negated => .group (p.mapLeaves φ) negated

/-- The step on a predicate with other values. -/
def Predicate.Step.mapLeaves (φ : LeafMap) : Predicate.Step → Predicate.Step
  | .add role e => .add role (e.mapLeaves φ)
  | .negate => .negate

theorem Predicate.mapLeaves_negate (p : Predicate) : p.negate.mapLeaves φ = (p.mapLeaves φ).negate := by
  obtain ⟨chain, negated, fault⟩ := p
  rfl

/-- A changed entry is refused as the entry is, and is read as the changed term. -/
theorem Entry.term_mapLeaves (e : Entry) : (e.mapLeaves φ).term = e.term.map (Term.mapLeaves φ) := by
  cases e with
  | comparison field operator operand negated =>
    rw [mapLeaves, term, term, Operator.read]
    cases Operator.ofText? operator <;> rfl
  | group p negated =>
    cases negated with
    | false => rfl
    | true => exact congrArg (fun p => Except.ok (Term.group p)) p.mapLeaves_negate.symm

/-- Comparisons with a known operator are the same without their texts if they are made with the same value, or
    with texts both times. -/
theorem Entry.eraseTexts_inlined_eq_iff {field operator : String} {op : Operator} {v w : Value}
    {negated : Bool} (h : Operator.ofText? operator = some op) :
    (Entry.comparison field operator (.inlined v) negated).mapLeaves .eraseTexts =
        (Entry.comparison field operator (.inlined w) negated).mapLeaves .eraseTexts ↔
      v = w ∨ (∃ s, v = .text s) ∧ ∃ t, w = .text t := by
  rw [← Value.eraseText_eq_iff]
  simp only [mapLeaves, h, Option.elim_some, Operand.mapLeaves, comparison.injEq, Operand.inlined.injEq,
    true_and, and_true]
  exact Iff.rfl

namespace Predicate

/-- Whether a term fits does not depend on values. -/
theorem extend_mapLeaves (chain : Option Chain) (role : Role) (e : Entry) :
    extend (mapChain φ chain) role (e.mapLeaves φ) = (extend chain role e).map (Chain.mapLeaves φ) := by
  cases role with
  | first =>
    cases chain with
    | none =>
      rw [mapChain, extend, extend, e.term_mapLeaves]
      cases e.term <;> rfl
    | some c => rfl
  | joined k =>
    cases chain with
    | none => rfl
    | some c =>
      obtain ⟨first, rest⟩ := c
      rw [mapChain, extend, extend, e.term_mapLeaves]
      cases e.term with
      | error f => rfl
      | ok t =>
        have hrest : mapLinks φ (rest ++ [⟨k, t⟩]) = mapLinks φ rest ++ [⟨k, t.mapLeaves φ⟩] := by
          rw [mapLinks_eq_map, mapLinks_eq_map, List.map_append, List.map_cons, List.map_nil]
        exact congrArg (fun rest => Except.ok (⟨first.mapLeaves φ, rest⟩ : Chain)) hrest.symm

theorem mapLeaves_push (p : Predicate) (role : Role) (e : Entry) :
    (p.push role e).mapLeaves φ = (p.mapLeaves φ).push role (e.mapLeaves φ) := by
  obtain ⟨chain, negated, fault⟩ := p
  rw [push, push, mapLeaves, extend_mapLeaves]
  cases extend chain role e <;> rfl

theorem mapLeaves_apply (p : Predicate) (step : Step) :
    (p.apply step).mapLeaves φ = (p.mapLeaves φ).apply (step.mapLeaves φ) := by
  cases step with
  | add role e => exact p.mapLeaves_push role e
  | negate => exact p.mapLeaves_negate

/-- The predicate of the changed steps is the changed predicate. -/
theorem mapLeaves_ofSteps (steps : List Step) :
    (ofSteps steps).mapLeaves φ = ofSteps (steps.map (Step.mapLeaves φ)) :=
  mapLeaves_foldl mapLeaves_apply empty steps

end Predicate

end Predicates

/-! ## Columns -/

section Columns

variable {φ : StepMap}

/-- The step on a CASE with other values. -/
def CaseColumn.Step.mapLeaves (φ : StepMap) : CaseColumn.Step → CaseColumn.Step
  | .branch guard => .branch (guard.mapLeaves φ.toLeafMap)
  | .result v quoted => .result (φ.given v quoted) quoted
  | .otherwise v quoted => .otherwise (φ.given v quoted) quoted
  | .label s => .label s

/-- The last element of the changed branches is the changed last one, and what is in front of it is changed. -/
theorem mapBranches_dropLast_append (branches : List Branch) (b : Branch) :
    mapBranches φ.toLeafMap (branches.dropLast ++ [b]) =
      (mapBranches φ.toLeafMap branches).dropLast ++
        [⟨b.guard.mapLeaves φ.toLeafMap, b.result.map φ.result⟩] := by
  rw [mapBranches_eq_map, mapBranches_eq_map, List.map_append, List.map_dropLast, List.map_cons, List.map_nil]

/-- Results are the same without their texts if they are given the same value, or both values become literals. -/
theorem CaseColumn.Step.eraseTexts_result_eq_iff {v w : Value} {quoted : Bool} :
    (Step.result v quoted).mapLeaves .eraseTexts = (Step.result w quoted).mapLeaves .eraseTexts ↔
      v = w ∨ v.isQuotedText quoted = true ∧ w.isQuotedText quoted = true := by
  rw [← Value.eraseQuoted_eq_iff, Step.mapLeaves, Step.mapLeaves, Step.result.injEq]
  exact and_iff_left rfl

namespace CaseColumn

theorem giveResult_mapBranches (branches : List Branch) (v : Value) (quoted : Bool) :
    giveResult (mapBranches φ.toLeafMap branches) (φ.given v quoted) quoted =
      (giveResult branches v quoted).map (mapBranches φ.toLeafMap) := by
  have hlast : (mapBranches φ.toLeafMap branches).getLast? = branches.getLast?.map fun b =>
      ⟨b.guard.mapLeaves φ.toLeafMap, b.result.map φ.result⟩ := by
    rw [mapBranches_eq_map, List.getLast?_map]
  rw [giveResult, giveResult, hlast, φ.of_given]
  cases branches.getLast? with
  | none => rfl
  | some b =>
    cases CaseResult.of v quoted with
    | error f => rfl
    | ok r => exact congrArg Except.ok (mapBranches_dropLast_append branches { b with result := some r }).symm

/-- Whether a step fits a CASE does not depend on what the map forgets. -/
theorem edit_mapLeaves (c : CaseColumn) (step : Step) :
    (c.mapLeaves φ.toLeafMap).edit (step.mapLeaves φ) =
      (c.edit step).map (CaseColumn.mapLeaves φ.toLeafMap) := by
  obtain ⟨branches, otherwise, label, fault⟩ := c
  cases step with
  | branch guard =>
    have hbranches : mapBranches φ.toLeafMap (branches ++ [⟨guard, none⟩]) =
        mapBranches φ.toLeafMap branches ++ [⟨guard.mapLeaves φ.toLeafMap, none⟩] := by
      rw [mapBranches_eq_map, mapBranches_eq_map, List.map_append]
      rfl
    exact congrArg (fun branches =>
      Except.ok (⟨branches, otherwise.map φ.result, label, fault⟩ : CaseColumn)) hbranches.symm
  | result v quoted =>
    rw [Step.mapLeaves, mapLeaves, edit, edit, giveResult_mapBranches]
    cases giveResult branches v quoted <;> rfl
  | otherwise v quoted =>
    rw [Step.mapLeaves, mapLeaves, edit, edit, φ.of_given]
    cases CaseResult.of v quoted <;> rfl
  | label s => rfl

theorem mapLeaves_note (c : CaseColumn) (f : Fault) :
    (c.note f).mapLeaves φ.toLeafMap = (c.mapLeaves φ.toLeafMap).note f := by
  obtain ⟨branches, otherwise, label, fault⟩ := c
  rfl

theorem mapLeaves_apply (c : CaseColumn) (step : Step) :
    (c.apply step).mapLeaves φ.toLeafMap = (c.mapLeaves φ.toLeafMap).apply (step.mapLeaves φ) := by
  rw [apply, apply, edit_mapLeaves]
  cases c.edit step with
  | ok c' => rfl
  | error f => exact c.mapLeaves_note f

/-- The CASE of the changed steps is the changed CASE. -/
theorem mapLeaves_ofSteps (steps : List Step) :
    (ofSteps steps).mapLeaves φ.toLeafMap = ofSteps (steps.map (Step.mapLeaves φ)) :=
  mapLeaves_foldl mapLeaves_apply empty steps

end CaseColumn

theorem Column.mapLeaves_relabel (label : String) (c : Column) :
    (c.relabel label).mapLeaves φ.toLeafMap = (c.mapLeaves φ.toLeafMap).relabel label := by
  cases c with
  | plain name l => rfl
  | aggregate a => rfl
  | case c =>
    obtain ⟨branches, otherwise, l, fault⟩ := c
    rfl

theorem Column.orderWithin_mapLeaves (columns : List String) (c : Column) :
    (c.mapLeaves φ.toLeafMap).orderWithin columns =
      (c.orderWithin columns).map (Column.mapLeaves φ.toLeafMap) := by
  cases c with
  | plain name l => rfl
  | aggregate a =>
    rw [mapLeaves, orderWithin]
    cases a.orderWithin columns <;> rfl
  | case c => rfl

theorem relabelLast_mapLeaves (columns : List Column) (labels : List String) :
    relabelLast (columns.map (Column.mapLeaves φ.toLeafMap)) labels =
      (relabelLast columns labels).map (List.map (Column.mapLeaves φ.toLeafMap)) := by
  have hzip : (fun c label => (Column.mapLeaves φ.toLeafMap c).relabel label) =
      fun c label => (c.relabel label).mapLeaves φ.toLeafMap :=
    funext fun c => funext fun label => (c.mapLeaves_relabel label).symm
  unfold relabelLast
  rw [List.length_map]
  split
  · have hcolumns (kept : Nat) : (columns.map (Column.mapLeaves φ.toLeafMap)).take kept ++
        ((columns.map (Column.mapLeaves φ.toLeafMap)).drop kept).zipWith (fun c label => c.relabel label)
          labels =
        (columns.take kept ++ (columns.drop kept).zipWith (fun c label => c.relabel label) labels).map
          (Column.mapLeaves φ.toLeafMap) := by
      rw [List.map_append, List.map_take, List.map_zipWith, ← List.map_drop, List.zipWith_map_left, hzip]
    exact congrArg Except.ok (hcolumns _)
  · rfl

end Columns

/-! ## Queries -/

section Queries

variable {φ : StepMap}

/-- The edit with other values. -/
def Edit.mapLeaves (φ : StepMap) : Edit → Edit
  | .column c => .column (c.mapLeaves φ.toLeafMap)
  | .onCase step => .onCase (step.mapLeaves φ)
  | .source s label => .source (s.mapLeaves φ.toLeafMap) label
  | .join kind target label => .join kind (target.mapLeaves φ.toLeafMap) label
  | .filter step => .filter (step.mapLeaves φ.toLeafMap)
  | .having p => .having (p.mapLeaves φ.toLeafMap)
  | e => e

/-- The step on a `Select` with other values. -/
def Select.Step.mapLeaves (φ : StepMap) : Select.Step → Select.Step
  | .edit e => .edit (e.mapLeaves φ)
  | .union k => .union k
  | .root => .root

namespace Query

theorem editLastCase_mapLeaves (columns : List Column) (step : CaseColumn.Step) :
    editLastCase (columns.map (Column.mapLeaves φ.toLeafMap)) (step.mapLeaves φ) =
      (editLastCase columns step).map (List.map (Column.mapLeaves φ.toLeafMap)) := by
  unfold editLastCase
  rw [List.getLast?_map]
  cases columns.getLast? with
  | none => rfl
  | some c =>
    cases c with
    | plain name label => rfl
    | aggregate a => rfl
    | case c =>
      simp only [Option.map_some, Column.mapLeaves, Except.map, List.map_append, List.map_dropLast,
        List.map_cons, List.map_nil, CaseColumn.mapLeaves_apply]

theorem orderLastWithin_mapLeaves (columns : List Column) (order : List String) :
    orderLastWithin (columns.map (Column.mapLeaves φ.toLeafMap)) order =
      (orderLastWithin columns order).map (List.map (Column.mapLeaves φ.toLeafMap)) := by
  unfold orderLastWithin
  rw [List.getLast?_map]
  cases columns.getLast? with
  | none => rfl
  | some c =>
    simp only [Option.map_some, Column.orderWithin_mapLeaves]
    cases c.orderWithin order with
    | error f => rfl
    | ok c' => simp only [Except.map, List.map_append, List.map_dropLast, List.map_cons, List.map_nil]

theorem conditionLast_mapLeaves (joins : List Join) (p : ColumnPair) :
    conditionLast (joins.map (Join.mapLeaves φ.toLeafMap)) p =
      (conditionLast joins p).map (List.map (Join.mapLeaves φ.toLeafMap)) := by
  unfold conditionLast
  rw [List.getLast?_map]
  cases joins.getLast? with
  | none => rfl
  | some j =>
    obtain ⟨kind, target, label, condition⟩ := j
    simp only [Option.map_some, Join.mapLeaves, Except.map, List.map_append, List.map_dropLast,
      List.map_cons, List.map_nil]

theorem mapLeaves_withColumns (q : Query) (columns : List Column) :
    ({ q with columns := columns } : Query).mapLeaves φ.toLeafMap =
      { q.mapLeaves φ.toLeafMap with columns := columns.map (Column.mapLeaves φ.toLeafMap) } := by
  obtain ⟨_, distinct, source, sourceLabel, joins, filter, groupBy, having, orderBy, limit, offset⟩ := q
  rw [mapLeaves, mapLeaves, mapColumns_eq_map]

theorem mapLeaves_withJoins (q : Query) (joins : List Join) :
    ({ q with joins := joins } : Query).mapLeaves φ.toLeafMap =
      { q.mapLeaves φ.toLeafMap with joins := joins.map (Join.mapLeaves φ.toLeafMap) } := by
  obtain ⟨columns, distinct, source, sourceLabel, _, filter, groupBy, having, orderBy, limit, offset⟩ := q
  rw [mapLeaves, mapLeaves, mapJoins_eq_map]

theorem columns_mapLeaves (q : Query) :
    (q.mapLeaves φ.toLeafMap).columns = q.columns.map (Column.mapLeaves φ.toLeafMap) := by
  obtain ⟨columns, distinct, source, sourceLabel, joins, filter, groupBy, having, orderBy, limit, offset⟩ := q
  exact mapColumns_eq_map columns

theorem joins_mapLeaves (q : Query) :
    (q.mapLeaves φ.toLeafMap).joins = q.joins.map (Join.mapLeaves φ.toLeafMap) := by
  obtain ⟨columns, distinct, source, sourceLabel, joins, filter, groupBy, having, orderBy, limit, offset⟩ := q
  exact mapJoins_eq_map joins

/-- An edit of the columns commutes with the map if the change of the columns does. -/
theorem mapLeaves_editColumns (q : Query) {change change' : Except Fault (List Column)}
    (h : change' = change.map (List.map (Column.mapLeaves φ.toLeafMap))) :
    change'.map (fun columns => { q.mapLeaves φ.toLeafMap with columns := columns }) =
      (change.map fun columns => { q with columns := columns }).map (Query.mapLeaves φ.toLeafMap) := by
  subst h
  cases change with
  | error f => rfl
  | ok columns => exact congrArg Except.ok (q.mapLeaves_withColumns columns).symm

/-- Whether an edit fits does not depend on what the map forgets. -/
theorem edit_mapLeaves (q : Query) (e : Edit) :
    (q.mapLeaves φ.toLeafMap).edit (e.mapLeaves φ) = (q.edit e).map (Query.mapLeaves φ.toLeafMap) := by
  cases e with
  | columns names =>
    have hplain : (names.map (Column.plain · none)).map (Column.mapLeaves φ.toLeafMap) =
        names.map (Column.plain · none) := by
      rw [List.map_map]
      rfl
    simp only [Edit.mapLeaves, edit, Except.map, mapLeaves_withColumns, List.map_append, hplain,
      columns_mapLeaves]
  | column c =>
    simp only [Edit.mapLeaves, edit, Except.map, mapLeaves_withColumns, List.map_append, List.map_cons,
      List.map_nil, columns_mapLeaves]
  | labels labels =>
    refine q.mapLeaves_editColumns ?_
    rw [columns_mapLeaves, relabelLast_mapLeaves]
  | withinGroup order =>
    refine q.mapLeaves_editColumns ?_
    rw [columns_mapLeaves, orderLastWithin_mapLeaves]
  | onCase step =>
    refine q.mapLeaves_editColumns ?_
    rw [columns_mapLeaves, editLastCase_mapLeaves]
  | join kind target label =>
    simp only [Edit.mapLeaves, edit, Except.map, mapLeaves_withJoins, List.map_append, List.map_cons,
      List.map_nil, Join.mapLeaves, joins_mapLeaves]
  | joinCondition p =>
    simp only [Edit.mapLeaves, edit, joins_mapLeaves, conditionLast_mapLeaves]
    cases conditionLast q.joins p with
    | error f => rfl
    | ok joins => exact congrArg Except.ok (q.mapLeaves_withJoins joins).symm
  | filter step =>
    obtain ⟨columns, distinct, source, sourceLabel, joins, filter, groupBy, having, orderBy, limit, offset⟩ := q
    simp only [Edit.mapLeaves, edit, mapLeaves, Except.map, Predicate.mapLeaves_apply]
  | groupBy columns =>
    obtain ⟨_, distinct, source, sourceLabel, joins, filter, groupBy, having, orderBy, limit, offset⟩ := q
    cases columns <;> rfl
  | having p =>
    obtain ⟨columns, distinct, source, sourceLabel, joins, filter, groupBy, _, orderBy, limit, offset⟩ := q
    cases groupBy <;> rfl
  | distinct | source s label | orderBy o | limit rows | offset rows | page number rows =>
    obtain ⟨columns, distinct, source, sourceLabel, joins, filter, groupBy, having, orderBy, limit, offset⟩ := q
    rfl

end Query

namespace Select

theorem current?_mapLeaves (s : Select) :
    (s.mapLeaves φ.toLeafMap).current? = s.current?.map (Query.mapLeaves φ.toLeafMap) := by
  obtain ⟨head, unions, cursor, fault⟩ := s
  cases cursor with
  | zero => rfl
  | succ i =>
    show ((mapUnions φ.toLeafMap unions).map (·.query))[i]? =
      ((unions.map (·.query))[i]?).map (Query.mapLeaves φ.toLeafMap)
    rw [mapUnions_eq_map, List.map_map, List.getElem?_map, List.getElem?_map, Option.map_map]
    rfl

theorem mapLeaves_replaceCurrent (s : Select) (q : Query) :
    (s.replaceCurrent q).mapLeaves φ.toLeafMap =
      (s.mapLeaves φ.toLeafMap).replaceCurrent (q.mapLeaves φ.toLeafMap) := by
  obtain ⟨head, unions, cursor, fault⟩ := s
  cases cursor with
  | zero => rfl
  | succ i =>
    have hunions : mapUnions φ.toLeafMap (unions.modify i fun u => { u with query := q }) =
        (mapUnions φ.toLeafMap unions).modify i fun u => { u with query := q.mapLeaves φ.toLeafMap } := by
      rw [mapUnions_eq_map, mapUnions_eq_map]
      refine map_modify ?_ unions i
      intro u
      rfl
    exact congrArg (fun unions => (⟨head.mapLeaves φ.toLeafMap, unions, i + 1, fault⟩ : Select)) hunions

theorem mapLeaves_note (s : Select) (f : Fault) :
    (s.note f).mapLeaves φ.toLeafMap = (s.mapLeaves φ.toLeafMap).note f := by
  obtain ⟨head, unions, cursor, fault⟩ := s
  rfl

theorem mapLeaves_editCurrent (s : Select) (e : Edit) :
    (s.editCurrent e).mapLeaves φ.toLeafMap =
      (s.mapLeaves φ.toLeafMap).editCurrent (e.mapLeaves φ) := by
  rw [editCurrent, editCurrent, current?_mapLeaves]
  cases s.current? with
  | none => rfl
  | some q =>
    simp only [Option.map_some, Query.edit_mapLeaves]
    cases q.edit e with
    | ok q' => exact s.mapLeaves_replaceCurrent q'
    | error f => exact s.mapLeaves_note f

theorem mapLeaves_unite (s : Select) (k : UnionKind) :
    (s.unite k).mapLeaves φ.toLeafMap = (s.mapLeaves φ.toLeafMap).unite k := by
  obtain ⟨head, unions, cursor, fault⟩ := s
  have hempty : Query.empty.mapLeaves φ.toLeafMap = .empty := rfl
  simp only [unite, mapLeaves, mapUnions_eq_map, List.map_append, List.map_cons, List.map_nil, hempty,
    List.length_map]

theorem mapLeaves_apply (s : Select) (step : Step) :
    (s.apply step).mapLeaves φ.toLeafMap = (s.mapLeaves φ.toLeafMap).apply (step.mapLeaves φ) := by
  cases step with
  | edit e => exact s.mapLeaves_editCurrent e
  | union k => exact s.mapLeaves_unite k
  | root =>
    obtain ⟨head, unions, cursor, fault⟩ := s
    rfl

/-- The `Select` of the changed steps is the changed `Select`. -/
theorem mapLeaves_ofSteps (steps : List Step) :
    (ofSteps steps).mapLeaves φ.toLeafMap = ofSteps (steps.map (Step.mapLeaves φ)) :=
  mapLeaves_foldl mapLeaves_apply empty steps

end Select

end Queries

/-! ## Records and rows -/

section Rows

variable {φ : StepMap}

/-- The record with other values. -/
def Record.mapLeaves (φ : LeafMap) (r : Record) : Record :=
  ⟨r.entries.map fun e => (e.1, e.2.mapLeaves φ .equal)⟩

/-- The changed operand is a single value if the operand is one, and then it is the changed value. -/
theorem Operand.cell?_mapLeaves (o : Operand) :
    (o.mapLeaves φ.toLeafMap .equal).cell? = o.cell?.map (Cell.mapLeaves φ.toLeafMap) := by
  cases o with
  | bound p => exact φ.cell?_bound p
  | null | inlined v | inlinedList vs | subquery s => rfl

namespace Record

theorem columns_mapLeaves (r : Record) : (r.mapLeaves φ.toLeafMap).columns = r.columns := by
  rw [columns, columns, mapLeaves, List.map_map]
  rfl

theorem isEmpty_mapLeaves (r : Record) : (r.mapLeaves φ.toLeafMap).isEmpty = r.isEmpty :=
  List.isEmpty_map

theorem get?_mapLeaves (r : Record) (column : String) :
    (r.mapLeaves φ.toLeafMap).get? column =
      (r.get? column).map fun v => v.mapLeaves φ.toLeafMap .equal := by
  obtain ⟨entries⟩ := r
  show (entries.map _).lookup column = (entries.lookup column).map _
  induction entries with
  | nil => rfl
  | cons e rest ih =>
    obtain ⟨c, v⟩ := e
    rw [List.map_cons, List.lookup_cons, List.lookup_cons]
    cases column == c with
    | true => rfl
    | false => exact ih

/-- Taking a column out of the changed record takes out the changed value. -/
theorem take?_mapLeaves (r : Record) (column : String) :
    (r.mapLeaves φ.toLeafMap).take? column =
      (r.take? column).map fun taken =>
        (taken.1.mapLeaves φ.toLeafMap .equal, taken.2.mapLeaves φ.toLeafMap) := by
  have hswap (entries : List (String × Operand)) (i : Nat) :
      swapRemove (entries.map fun e => (e.1, e.2.mapLeaves φ.toLeafMap .equal)) i =
        (swapRemove entries i).map fun e => (e.1, e.2.mapLeaves φ.toLeafMap .equal) := by
    unfold swapRemove
    rw [List.getLast?_map]
    cases entries.getLast? with
    | none => rfl
    | some e => simp only [Option.map_some, List.map_dropLast, List.map_set]
  have hplace : (r.mapLeaves φ.toLeafMap).entries.findIdx (·.1 == column) =
      r.entries.findIdx (·.1 == column) := by
    rw [mapLeaves, List.findIdx_map]
    rfl
  rw [take?, take?, get?_mapLeaves, hplace, mapLeaves, hswap, Option.map_map, Option.map_map]
  rfl

/-- The record of the changed settings is the changed record. -/
theorem mapLeaves_ofList (settings : List (String × Operand)) :
    (ofList settings).mapLeaves φ.toLeafMap =
      ofList (settings.map fun s => (s.1, s.2.mapLeaves φ.toLeafMap .equal)) := by
  refine mapLeaves_foldl (fun r s => ?_) empty settings
  obtain ⟨entries⟩ := r
  obtain ⟨column, v⟩ := s
  refine congrArg Record.mk ?_
  show (setEntry column v entries).map _ = setEntry column _ (entries.map _)
  induction entries with
  | nil => rfl
  | cons e rest ih =>
    obtain ⟨c, w⟩ := e
    rw [List.map_cons, setEntry, setEntry]
    split
    · rfl
    · exact congrArg ((c, w.mapLeaves φ.toLeafMap .equal) :: ·) ih

end Record

namespace Batch

/-- A changed record has the changed row, or none for the same reason. -/
theorem rowOf_mapLeaves (columns : List String) (r : Record) :
    rowOf columns (r.mapLeaves φ.toLeafMap) =
      (rowOf columns r).map (List.map (Cell.mapLeaves φ.toLeafMap)) := by
  induction columns generalizing r with
  | nil => rfl
  | cons column rest ih =>
    rw [rowOf, rowOf, r.take?_mapLeaves]
    cases r.take? column with
    | none => rfl
    | some taken =>
      simp only [Option.map_some, Operand.cell?_mapLeaves]
      cases taken.1.cell? with
      | none => rfl
      | some cell =>
        simp only [Option.map_some, ih]
        cases rowOf rest taken.2 <;> rfl

/-- Whether a record fits does not depend on what the map forgets. -/
theorem add_mapLeaves (b : Batch) (r : Record) :
    (b.mapLeaves φ.toLeafMap).add (r.mapLeaves φ.toLeafMap) =
      (b.add r).map (Batch.mapLeaves φ.toLeafMap) := by
  have hrow (names : List String) : ((rowOf names (r.mapLeaves φ.toLeafMap)).map fun row =>
        (⟨names, (b.mapLeaves φ.toLeafMap).rows ++ [row]⟩ : Batch)) =
      ((rowOf names r).map fun row => (⟨names, b.rows ++ [row]⟩ : Batch)).map
        (Batch.mapLeaves φ.toLeafMap) := by
    rw [rowOf_mapLeaves]
    cases rowOf names r with
    | error f => rfl
    | ok row =>
      simp only [Except.map, mapLeaves, List.map_append, List.map_cons, List.map_nil]
  have hcolumns : (b.mapLeaves φ.toLeafMap).columns = b.columns := rfl
  unfold add
  rw [Record.isEmpty_mapLeaves, Record.columns_mapLeaves, hcolumns]
  by_cases hempty : r.isEmpty = true
  · rw [if_pos hempty, if_pos hempty]
    rfl
  · rw [if_neg hempty, if_neg hempty]
    by_cases hfirst : b.columns.isEmpty = true
    · rw [if_pos hfirst, if_pos hfirst]
      exact hrow r.columns
    · rw [if_neg hfirst, if_neg hfirst]
      by_cases hperm : r.columns.isPerm b.columns = true
      · rw [if_pos hperm, if_pos hperm]
        exact hrow b.columns
      · rw [if_neg hperm, if_neg hperm]
        rfl

end Batch

end Rows

/-! ## Statements that change a table -/

section Mutations

variable {φ : StepMap}

/-- The INSERT with other values. -/
def Insert.mapLeaves (φ : LeafMap) (i : Insert) : Insert :=
  { i with batch := i.batch.mapLeaves φ }

/-- The step on an INSERT with other values. -/
def Insert.Step.mapLeaves (φ : LeafMap) : Insert.Step → Insert.Step
  | .table name => .table name
  | .record r => .record (r.mapLeaves φ)
  | .records rs => .records (rs.map (Record.mapLeaves φ))

/-- The UPDATE with other values. -/
def Update.mapLeaves (φ : LeafMap) (u : Update) : Update :=
  { u with assignments := u.assignments.map (Assignment.mapLeaves φ), filter := u.filter.mapLeaves φ }

/-- The step on an UPDATE with other values. -/
def Update.Step.mapLeaves (φ : LeafMap) : Update.Step → Update.Step
  | .table name => .table name
  | .assign a => .assign (a.mapLeaves φ)
  | .assignAll assignments => .assignAll (assignments.map (Assignment.mapLeaves φ))
  | .filter step => .filter (step.mapLeaves φ)

/-- The DELETE with other values. -/
def Delete.mapLeaves (φ : LeafMap) (d : Delete) : Delete :=
  { d with filter := d.filter.mapLeaves φ }

/-- The step on a DELETE with other values. -/
def Delete.Step.mapLeaves (φ : LeafMap) : Delete.Step → Delete.Step
  | .table name => .table name
  | .filter step => .filter (step.mapLeaves φ)

namespace Insert

theorem mapLeaves_addRecord (i : Insert) (r : Record) :
    (i.addRecord r).mapLeaves φ.toLeafMap =
      (i.mapLeaves φ.toLeafMap).addRecord (r.mapLeaves φ.toLeafMap) := by
  have hadd : (i.mapLeaves φ.toLeafMap).batch.add (r.mapLeaves φ.toLeafMap) =
      (i.batch.add r).map (Batch.mapLeaves φ.toLeafMap) :=
    i.batch.add_mapLeaves r
  rw [addRecord, addRecord, hadd]
  cases i.batch.add r <;> rfl

theorem mapLeaves_apply (i : Insert) (step : Step) :
    (i.apply step).mapLeaves φ.toLeafMap =
      (i.mapLeaves φ.toLeafMap).apply (step.mapLeaves φ.toLeafMap) := by
  cases step with
  | table name => rfl
  | record r => exact i.mapLeaves_addRecord r
  | records rs => exact BoundSql.mapLeaves_foldl mapLeaves_addRecord i rs

theorem mapLeaves_ofSteps (table : String) (steps : List Step) :
    (ofSteps table steps).mapLeaves φ.toLeafMap =
      ofSteps table (steps.map (Step.mapLeaves φ.toLeafMap)) :=
  mapLeaves_foldl mapLeaves_apply (into table) steps

end Insert

namespace Update

theorem mapLeaves_apply (u : Update) (step : Step) :
    (u.apply step).mapLeaves φ.toLeafMap =
      (u.mapLeaves φ.toLeafMap).apply (step.mapLeaves φ.toLeafMap) := by
  obtain ⟨table, assignments, filter⟩ := u
  cases step with
  | table name => rfl
  | assign a =>
    simp only [apply, mapLeaves, Step.mapLeaves, List.map_append, List.map_cons, List.map_nil]
  | assignAll more => simp only [apply, mapLeaves, Step.mapLeaves, List.map_append]
  | filter step => simp only [apply, mapLeaves, Step.mapLeaves, Predicate.mapLeaves_apply]

theorem mapLeaves_ofSteps (table : String) (steps : List Step) :
    (ofSteps table steps).mapLeaves φ.toLeafMap =
      ofSteps table (steps.map (Step.mapLeaves φ.toLeafMap)) :=
  mapLeaves_foldl mapLeaves_apply (of table) steps

end Update

namespace Delete

theorem mapLeaves_apply (d : Delete) (step : Step) :
    (d.apply step).mapLeaves φ.toLeafMap =
      (d.mapLeaves φ.toLeafMap).apply (step.mapLeaves φ.toLeafMap) := by
  cases step with
  | table name => rfl
  | filter step => simp only [apply, mapLeaves, Step.mapLeaves, Predicate.mapLeaves_apply]

theorem mapLeaves_ofSteps (table : String) (steps : List Step) :
    (ofSteps table steps).mapLeaves φ.toLeafMap =
      ofSteps table (steps.map (Step.mapLeaves φ.toLeafMap)) :=
  mapLeaves_foldl mapLeaves_apply (of table) steps

end Delete

end Mutations

/-! ## Statements -/

/-- All that a caller says about a statement: its kind, the table it starts with, and its steps. -/
inductive Recipe where
  | select (steps : List Select.Step)
  | insert (table : String) (steps : List Insert.Step)
  | update (table : String) (steps : List Update.Step)
  | delete (table : String) (steps : List Delete.Step)

namespace Recipe

/-- The statement that is made. -/
def statement : Recipe → Statement
  | .select steps => .select (.ofSteps steps)
  | .insert table steps => .insert (.ofSteps table steps)
  | .update table steps => .update (.ofSteps table steps)
  | .delete table steps => .delete (.ofSteps table steps)

/-- The recipe with other values. -/
def mapLeaves (φ : StepMap) : Recipe → Recipe
  | .select steps => .select (steps.map (Select.Step.mapLeaves φ))
  | .insert table steps => .insert table (steps.map (Insert.Step.mapLeaves φ.toLeafMap))
  | .update table steps => .update table (steps.map (Update.Step.mapLeaves φ.toLeafMap))
  | .delete table steps => .delete table (steps.map (Delete.Step.mapLeaves φ.toLeafMap))

/-- **The values may be changed before or after.** The statement of a changed recipe is the changed statement. -/
theorem mapLeaves_statement (φ : StepMap) (r : Recipe) :
    r.statement.mapLeaves φ.toLeafMap = (r.mapLeaves φ).statement := by
  cases r with
  | select steps => exact congrArg Statement.select (Select.mapLeaves_ofSteps steps)
  | insert table steps => exact congrArg Statement.insert (Insert.mapLeaves_ofSteps table steps)
  | update table steps => exact congrArg Statement.update (Update.mapLeaves_ofSteps table steps)
  | delete table steps => exact congrArg Statement.delete (Delete.mapLeaves_ofSteps table steps)

/-- Recipes that differ in texts only which become literals make statements with the same erasure. -/
theorem eraseTexts_statement_congr {r r' : Recipe}
    (h : r.mapLeaves .eraseTexts = r'.mapLeaves .eraseTexts) :
    r.statement.eraseTexts = r'.statement.eraseTexts := by
  show r.statement.mapLeaves StepMap.eraseTexts.toLeafMap =
    r'.statement.mapLeaves StepMap.eraseTexts.toLeafMap
  rw [mapLeaves_statement, mapLeaves_statement, h]

/-- Recipes that differ in values of parameters only make statements that are the same without them. -/
theorem forgetValues_statement_congr {r r' : Recipe}
    (h : r.mapLeaves .forgetValues = r'.mapLeaves .forgetValues) :
    r.statement.forgetValues = r'.statement.forgetValues := by
  show r.statement.mapLeaves StepMap.forgetValues.toLeafMap =
    r'.statement.mapLeaves StepMap.forgetValues.toLeafMap
  rw [mapLeaves_statement, mapLeaves_statement, h]

end Recipe

end BoundSql
