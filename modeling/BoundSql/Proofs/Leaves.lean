import BoundSql.Statement

/-!
# `BoundSql.Proofs.Leaves` — changing the values of a statement

Two statements that differ in their values only have the same tree above the leaves. To compare them, a
**leaf map** changes the values of a statement and nothing else, and a function on pieces forgets what was
changed. If the two agree at every leaf, they agree on the script of the whole statement, so statements
with equal images under the leaf map have scripts with equal images too.

## Contents
- **`LeafMap`** and `mapLeaves` for every type of the tree and for statements; lists of the tree are mapped
  element by element (`mapLinks_eq_map` and its like).
- **`LeafMap.ForgottenBy`** says that a function on pieces forgets what the leaf map changes.
- **`map_script_mapLeaves`** for every type of the tree, and **`Statement.map_script_mapLeaves`**.
-/

namespace BoundSql

/-! ## Leaf maps -/

/-- A change of the values of a statement. A parameter is changed according to the operator beside it; an
    assignment counts as an equality. -/
structure LeafMap where
  /-- The parameters of comparisons and assignments. -/
  bound : Operator → Param → Param
  /-- The parameters of rows. -/
  cell : BoundParam → BoundParam
  /-- The values that are written out. -/
  inlined : Value → Value
  /-- The results of a CASE. -/
  result : CaseResult → CaseResult

mutual

/-- The operand with other values. -/
def Operand.mapLeaves (φ : LeafMap) (op : Operator) : Operand → Operand
  | .null => .null
  | .bound p => .bound (φ.bound op p)
  | .inlined v => .inlined (φ.inlined v)
  | .inlinedList vs => .inlinedList (vs.map φ.inlined)
  | .subquery s => .subquery (s.mapLeaves φ)

/-- The comparison with other values. -/
def Comparison.mapLeaves (φ : LeafMap) : Comparison → Comparison
  | { field, operator, operand, negated } =>
    { field, operator, operand := operand.mapLeaves φ operator, negated }

/-- The term with other values. -/
def Term.mapLeaves (φ : LeafMap) : Term → Term
  | .comparison c => .comparison (c.mapLeaves φ)
  | .group p => .group (p.mapLeaves φ)

/-- The links with other values. -/
def mapLinks (φ : LeafMap) : List Link → List Link
  | [] => []
  | { connective, term } :: rest => { connective, term := term.mapLeaves φ } :: mapLinks φ rest

/-- The chain with other values. -/
def Chain.mapLeaves (φ : LeafMap) : Chain → Chain
  | { first, rest } => { first := first.mapLeaves φ, rest := mapLinks φ rest }

/-- The chain, if there is one, with other values. -/
def mapChain (φ : LeafMap) : Option Chain → Option Chain
  | none => none
  | some c => some (c.mapLeaves φ)

/-- The predicate with other values. -/
def Predicate.mapLeaves (φ : LeafMap) : Predicate → Predicate
  | { chain, negated, fault } => { chain := mapChain φ chain, negated, fault }

/-- The branches with other values. -/
def mapBranches (φ : LeafMap) : List Branch → List Branch
  | [] => []
  | { guard, result } :: rest =>
    { guard := guard.mapLeaves φ, result := result.map φ.result } :: mapBranches φ rest

/-- The CASE with other values. -/
def CaseColumn.mapLeaves (φ : LeafMap) : CaseColumn → CaseColumn
  | { branches, otherwise, label, fault } =>
    { branches := mapBranches φ branches, otherwise := otherwise.map φ.result, label, fault }

/-- The column with other values. -/
def Column.mapLeaves (φ : LeafMap) : Column → Column
  | .plain name label => .plain name label
  | .aggregate a => .aggregate a
  | .case c => .case (c.mapLeaves φ)

/-- The columns with other values. -/
def mapColumns (φ : LeafMap) : List Column → List Column
  | [] => []
  | c :: rest => c.mapLeaves φ :: mapColumns φ rest

/-- The source with other values. -/
def Source.mapLeaves (φ : LeafMap) : Source → Source
  | .table name => .table name
  | .subquery s => .subquery (s.mapLeaves φ)

/-- The source, if there is one, with other values. -/
def mapSource (φ : LeafMap) : Option Source → Option Source
  | none => none
  | some s => some (s.mapLeaves φ)

/-- The join with other values. -/
def Join.mapLeaves (φ : LeafMap) : Join → Join
  | { kind, target, label, condition } =>
    { kind, target := target.mapLeaves φ, label, condition }

/-- The joins with other values. -/
def mapJoins (φ : LeafMap) : List Join → List Join
  | [] => []
  | j :: rest => j.mapLeaves φ :: mapJoins φ rest

/-- The predicate of HAVING, if there is one, with other values. -/
def mapHaving (φ : LeafMap) : Option Predicate → Option Predicate
  | none => none
  | some p => some (p.mapLeaves φ)

/-- The query with other values. -/
def Query.mapLeaves (φ : LeafMap) : Query → Query
  | { columns, distinct, source, sourceLabel, joins, filter, groupBy, having, orderBy, limit,
      offset } =>
    { columns := mapColumns φ columns, distinct, source := mapSource φ source, sourceLabel,
      joins := mapJoins φ joins, filter := filter.mapLeaves φ, groupBy,
      having := mapHaving φ having, orderBy, limit, offset }

/-- The united queries with other values. -/
def mapUnions (φ : LeafMap) : List UnitedQuery → List UnitedQuery
  | [] => []
  | { kind, query } :: rest => { kind, query := query.mapLeaves φ } :: mapUnions φ rest

/-- The queries with other values. -/
def Select.mapLeaves (φ : LeafMap) : Select → Select
  | { head, unions, cursor, fault } =>
    { head := head.mapLeaves φ, unions := mapUnions φ unions, cursor, fault }

end

/-- The cell with another value. -/
def Cell.mapLeaves (φ : LeafMap) : Cell → Cell
  | .null => .null
  | .bound p => .bound (φ.cell p)
  | .inlined v => .inlined (φ.inlined v)

/-- The rows with other values. -/
def Batch.mapLeaves (φ : LeafMap) (b : Batch) : Batch :=
  { b with rows := b.rows.map fun row => row.map (Cell.mapLeaves φ) }

/-- The assignment with another value. -/
def Assignment.mapLeaves (φ : LeafMap) (a : Assignment) : Assignment :=
  { a with operand := a.operand.mapLeaves φ .equal }

/-- The statement with other values. -/
def Statement.mapLeaves (φ : LeafMap) : Statement → Statement
  | .select s => .select (s.mapLeaves φ)
  | .insert i => .insert { i with batch := i.batch.mapLeaves φ }
  | .update u =>
    .update { u with
      assignments := u.assignments.map (Assignment.mapLeaves φ), filter := u.filter.mapLeaves φ }
  | .delete d => .delete { d with filter := d.filter.mapLeaves φ }

section Lists

variable {φ : LeafMap}

theorem mapLinks_eq_map (links : List Link) :
    mapLinks φ links = links.map fun l => { l with term := l.term.mapLeaves φ } := by
  induction links with
  | nil => rfl
  | cons link rest ih =>
    obtain ⟨connective, term⟩ := link
    rw [mapLinks, ih, List.map_cons]

theorem mapBranches_eq_map (branches : List Branch) :
    mapBranches φ branches =
      branches.map fun b => { guard := b.guard.mapLeaves φ, result := b.result.map φ.result } := by
  induction branches with
  | nil => rfl
  | cons b rest ih =>
    obtain ⟨guard, result⟩ := b
    rw [mapBranches, ih, List.map_cons]

theorem mapColumns_eq_map (columns : List Column) :
    mapColumns φ columns = columns.map (Column.mapLeaves φ) := by
  induction columns with
  | nil => rfl
  | cons c rest ih => rw [mapColumns, ih, List.map_cons]

theorem mapJoins_eq_map (joins : List Join) : mapJoins φ joins = joins.map (Join.mapLeaves φ) := by
  induction joins with
  | nil => rfl
  | cons j rest ih => rw [mapJoins, ih, List.map_cons]

theorem mapUnions_eq_map (unions : List UnitedQuery) :
    mapUnions φ unions = unions.map fun u => { u with query := u.query.mapLeaves φ } := by
  induction unions with
  | nil => rfl
  | cons u rest ih =>
    obtain ⟨kind, query⟩ := u
    rw [mapUnions, ih, List.map_cons]

end Lists

/-! ## Functions on pieces that forget a leaf map -/

/-- The function on pieces makes the same of every leaf, before and after the leaf map. -/
structure LeafMap.ForgottenBy (φ : LeafMap) (π : Piece → Piece) : Prop where
  bound : ∀ op p, ((φ.bound op p).comparand op).map π = (p.comparand op).map π
  isList : ∀ p, (φ.bound .equal p).content.isList = p.content.isList
  cell : ∀ p, π (.placeholder (φ.cell p)) = π (.placeholder p)
  literal : ∀ v, π (.ofExcept (φ.inlined v).literal) = π (.ofExcept v.literal)
  comparand : ∀ op v, π (.ofExcept ((φ.inlined v).comparand op)) = π (.ofExcept (v.comparand op))
  result : ∀ r, π (.text (φ.result r).fragment) = π (.text r.fragment)
  /-- An ELSE result is left out before and after, or neither time. -/
  resultEmpty : ∀ r, (φ.result r).fragment.text = "" ↔ r.fragment.text = ""

namespace Script

variable {π : Piece → Piece}

/-- Scripts with equal images have equal images also with words between them. -/
theorem map_separated_congr (separator : String) : ∀ {scripts scripts' : List Script},
    scripts.map (List.map π) = scripts'.map (List.map π) →
      (separated separator scripts).map π = (separated separator scripts').map π
  | [], [], _ => rfl
  | [], _ :: _, h => nomatch h
  | _ :: _, [], h => nomatch h
  | [s], [s'], h => (List.cons.inj h).1
  | [_], _ :: _ :: _, h => nomatch (List.cons.inj h).2
  | _ :: _ :: _, [_], h => nomatch (List.cons.inj h).2
  | s :: t :: rest, s' :: t' :: rest', h => by
    obtain ⟨hfirst, hrest⟩ := List.cons.inj h
    rw [separated, separated, List.map_append, List.map_append, List.map_cons, List.map_cons, hfirst,
      map_separated_congr separator hrest]

/-- A comma list depends only on the images of its elements. -/
theorem map_commaList_congr {scripts scripts' : List Script}
    (h : scripts.map (List.map π) = scripts'.map (List.map π)) :
    (commaList scripts).map π = (commaList scripts').map π :=
  map_separated_congr ", " h

theorem map_inParens_congr {s s' : Script} (h : s.map π = s'.map π) :
    (inParens s).map π = (inParens s').map π := by
  simp only [inParens, List.map_cons, List.map_append, h]

end Script

open Script

section

variable {φ : LeafMap} {π : Piece → Piece}

/-! ## Clauses -/

theorem map_notBefore_congr (negated : Bool) {s s' : Script} (h : s.map π = s'.map π) :
    (notBefore negated s).map π = (notBefore negated s').map π := by
  cases negated with
  | false => exact h
  | true => exact congrArg (π (.keyword "NOT ") :: ·) h

theorem map_negatable_congr (negated : Bool) {s s' : Script} (h : s.map π = s'.map π) :
    (negatable negated s).map π = (negatable negated s').map π := by
  cases negated with
  | false => exact h
  | true => exact congrArg (π (.keyword "NOT ") :: ·) (map_inParens_congr h)

theorem map_sentence_congr (field : String) (op : Operator) (negated : Bool) {s s' : Script}
    (h : s.map π = s'.map π) :
    (sentence field op negated s).map π = (sentence field op negated s').map π := by
  unfold sentence
  split
  · rw [List.map_cons, List.map_cons, List.map_cons, h, List.map_cons, List.map_cons, List.map_cons]
  · refine map_notBefore_congr negated ?_
    rw [List.map_cons, List.map_cons, h, List.map_cons, List.map_cons]

theorem map_labelled_congr {s s' : Script} (h : s.map π = s'.map π) (label : Option String) :
    (labelled s label).map π = (labelled s' label).map π := by
  cases label with
  | none => exact h
  | some label =>
    rw [labelled, labelled]
    split
    · exact h
    · rw [List.map_append, List.map_append, h]

theorem LeafMap.ForgottenBy.comparandOf (hπ : φ.ForgottenBy π) (op : Operator) (v : Value) :
    ((φ.inlined v).comparandOf op).map π = (v.comparandOf op).map π := by
  cases op with
  | between | oneOf => rfl
  | _ => exact congrArg ([·]) (hπ.comparand _ v)

theorem LeafMap.ForgottenBy.listComparand (hπ : φ.ForgottenBy π) (op : Operator) (vs : List Value) :
    (listComparand op (vs.map φ.inlined)).map π = (listComparand op vs).map π := by
  -- BETWEEN and IN write the values one by one, IN with commas between them.
  have helements (op : Operator) : ((vs.map φ.inlined).map fun v => [Piece.ofExcept (v.comparand op)]).map
      (List.map π) = (vs.map fun v => [Piece.ofExcept (v.comparand op)]).map (List.map π) := by
    rw [List.map_map, List.map_map, List.map_map]
    exact List.map_congr_left fun v _ => congrArg ([·]) (hπ.comparand op v)
  cases op with
  | between =>
    match vs with
    | [] | [_] | _ :: _ :: _ :: _ => rfl
    | [a, b] =>
      simp only [BoundSql.listComparand, List.map_cons, List.map_nil, hπ.comparand]
  | oneOf =>
    match vs with
    | [] => rfl
    | v :: rest => exact map_inParens_congr (map_commaList_congr (helements .oneOf))
  | _ => rfl

theorem LeafMap.ForgottenBy.otherwiseScript (hπ : φ.ForgottenBy π) (result : Option CaseResult) :
    (otherwiseScript (result.map φ.result)).map π = (otherwiseScript result).map π := by
  cases result with
  | none => rfl
  | some r =>
    rw [Option.map_some, BoundSql.otherwiseScript, BoundSql.otherwiseScript]
    by_cases hr : r.fragment.text = ""
    · rw [if_pos hr, if_pos ((hπ.resultEmpty r).mpr hr)]
    · rw [if_neg hr, if_neg (mt (hπ.resultEmpty r).mp hr), List.map_cons, List.map_cons, List.map_cons,
        List.map_cons, hπ.result]

/-- A leaf map does not change whether a clause has to be written. -/
@[simp] theorem Predicate.isPending_mapLeaves (p : Predicate) :
    (p.mapLeaves φ).isPending = p.isPending := by
  match p with
  | { chain, negated, fault } => cases chain <;> rfl

@[simp] theorem Predicate.negated_mapLeaves (p : Predicate) :
    (p.mapLeaves φ).negated = p.negated := by
  match p with
  | { chain, negated, fault } => rfl

theorem map_whereClause_mapLeaves {p : Predicate} (h : (p.mapLeaves φ).script.map π = p.script.map π) :
    (p.mapLeaves φ).whereClause.map π = p.whereClause.map π := by
  rw [Predicate.whereClause, Predicate.whereClause, Predicate.isPending_mapLeaves]
  split
  · rw [Predicate.clause, Predicate.clause, Predicate.negated_mapLeaves, List.map_cons,
      map_negatable_congr p.negated h, List.map_cons]
  · rfl

/-! ## The tree -/

mutual

theorem Operand.map_comparand_mapLeaves (hπ : φ.ForgottenBy π) (op : Operator) (o : Operand) :
    ((o.mapLeaves φ op).comparand op).map π = (o.comparand op).map π := by
  -- A leaf is covered by a law of `hπ`; every other case opens both trees by the same layer.
  match o with
  | .null => rfl
  | .bound p =>
    rw [Operand.mapLeaves, Operand.comparand, Operand.comparand]
    exact hπ.bound op p
  | .inlined v =>
    rw [Operand.mapLeaves, Operand.comparand, Operand.comparand]
    exact hπ.comparandOf op v
  | .inlinedList vs =>
    rw [Operand.mapLeaves, Operand.comparand, Operand.comparand]
    exact hπ.listComparand op vs
  | .subquery s =>
    rw [Operand.mapLeaves, Operand.comparand, Operand.comparand]
    split
    · exact map_inParens_congr (s.map_script_mapLeaves hπ)
    · rfl

theorem Comparison.map_script_mapLeaves (hπ : φ.ForgottenBy π) (c : Comparison) :
    (c.mapLeaves φ).script.map π = c.script.map π := by
  match c with
  | { field, operator, operand, negated } =>
    have hright := operand.map_comparand_mapLeaves hπ operator
    cases operand with
    | null => rfl
    | bound p | inlined v | inlinedList vs | subquery s =>
      rw [Operand.mapLeaves] at hright
      -- A leaf map keeps the kind of an operand, so the same equation opens both sides.
      rw [Comparison.mapLeaves, Operand.mapLeaves, Comparison.script, Comparison.script]
      · exact map_sentence_congr field operator negated hright
      · simp
      · simp

theorem Term.map_script_mapLeaves (hπ : φ.ForgottenBy π) (t : Term) :
    (t.mapLeaves φ).script.map π = t.script.map π := by
  match t with
  | .comparison c =>
    rw [Term.mapLeaves, Term.script, Term.script]
    exact c.map_script_mapLeaves hπ
  | .group p =>
    rw [Term.mapLeaves, Term.script, Term.script, Predicate.negated_mapLeaves]
    exact map_notBefore_congr p.negated (map_inParens_congr (p.map_script_mapLeaves hπ))

theorem map_linksScript_mapLinks (hπ : φ.ForgottenBy π) (links : List Link) :
    (linksScript (mapLinks φ links)).map π = (linksScript links).map π := by
  match links with
  | [] => rfl
  | { connective, term } :: rest =>
    rw [mapLinks, linksScript, linksScript, List.map_cons, List.map_append,
      term.map_script_mapLeaves hπ, map_linksScript_mapLinks hπ rest, List.map_cons, List.map_append]

theorem Chain.map_script_mapLeaves (hπ : φ.ForgottenBy π) (c : Chain) :
    (c.mapLeaves φ).script.map π = c.script.map π := by
  match c with
  | { first, rest } =>
    rw [Chain.mapLeaves, Chain.script, Chain.script, List.map_append, first.map_script_mapLeaves hπ,
      map_linksScript_mapLinks hπ rest, List.map_append]

theorem map_chainScript_mapChain (hπ : φ.ForgottenBy π) (c : Option Chain) :
    (chainScript (mapChain φ c)).map π = (chainScript c).map π := by
  match c with
  | none => rfl
  | some c =>
    rw [mapChain, chainScript, chainScript]
    exact c.map_script_mapLeaves hπ

theorem Predicate.map_script_mapLeaves (hπ : φ.ForgottenBy π) (p : Predicate) :
    (p.mapLeaves φ).script.map π = p.script.map π := by
  match p with
  | { chain, negated, fault := none } =>
    rw [Predicate.mapLeaves, Predicate.script, Predicate.script]
    exact map_chainScript_mapChain hπ chain
  | { chain, negated, fault := some f } => rfl

theorem map_branchesScript_mapBranches (hπ : φ.ForgottenBy π) (branches : List Branch) :
    (branchesScript (mapBranches φ branches)).map π = (branchesScript branches).map π := by
  match branches with
  | [] => rfl
  | { guard, result } :: rest =>
    have hguard := map_negatable_congr guard.negated (guard.map_script_mapLeaves hπ)
    -- A branch without a result has none after the leaf map either.
    have hresult : ((result.map φ.result).toList.map fun r => Piece.text r.fragment).map π =
        (result.toList.map fun r => Piece.text r.fragment).map π := by
      cases result with
      | none => rfl
      | some r => exact congrArg ([·]) (hπ.result r)
    rw [mapBranches, branchesScript, branchesScript, Predicate.negated_mapLeaves, List.map_cons,
      List.map_append, hguard, List.map_cons, List.map_append, hresult,
      map_branchesScript_mapBranches hπ rest, List.map_cons, List.map_append, List.map_cons,
      List.map_append]

theorem CaseColumn.map_script_mapLeaves (hπ : φ.ForgottenBy π) (c : CaseColumn) :
    (c.mapLeaves φ).script.map π = c.script.map π := by
  match c with
  | { branches, otherwise, label, fault := some f } => rfl
  | { branches := [], otherwise, label, fault := none } => rfl
  | { branches := { guard, result } :: rest, otherwise, label, fault := none } =>
    have hbranches := map_branchesScript_mapBranches hπ ({ guard, result } :: rest)
    rw [mapBranches] at hbranches
    rw [CaseColumn.mapLeaves, mapBranches, CaseColumn.script, CaseColumn.script]
    · refine map_labelled_congr ?_ label
      simp only [List.map_cons, List.map_append, hbranches, hπ.otherwiseScript]
    · simp
    · simp

theorem Column.map_script_mapLeaves (hπ : φ.ForgottenBy π) (c : Column) :
    (c.mapLeaves φ).script.map π = c.script.map π := by
  match c with
  | .plain name label => rfl
  | .aggregate a => rfl
  | .case c =>
    rw [Column.mapLeaves, Column.script, Column.script]
    exact c.map_script_mapLeaves hπ

theorem map_columnScripts_mapColumns (hπ : φ.ForgottenBy π) (columns : List Column) :
    (columnScripts (mapColumns φ columns)).map (List.map π) =
      (columnScripts columns).map (List.map π) := by
  match columns with
  | [] => rfl
  | c :: rest =>
    rw [mapColumns, columnScripts, columnScripts, List.map_cons, c.map_script_mapLeaves hπ,
      map_columnScripts_mapColumns hπ rest, List.map_cons]

theorem map_columnsScript_mapColumns (hπ : φ.ForgottenBy π) (columns : List Column) :
    (columnsScript (mapColumns φ columns)).map π = (columnsScript columns).map π := by
  match columns with
  | [] => rfl
  | c :: rest =>
    rw [mapColumns, columnsScript, columnsScript]
    refine map_commaList_congr ?_
    rw [List.map_cons, c.map_script_mapLeaves hπ, map_columnScripts_mapColumns hπ rest, List.map_cons]

theorem Source.map_script_mapLeaves (hπ : φ.ForgottenBy π) (s : Source) :
    (s.mapLeaves φ).script.map π = s.script.map π := by
  match s with
  | .table name => rfl
  | .subquery s =>
    rw [Source.mapLeaves, Source.script, Source.script]
    exact map_inParens_congr (s.map_script_mapLeaves hπ)

theorem map_sourceScript_mapSource (hπ : φ.ForgottenBy π) (source : Option Source) :
    (sourceScript (mapSource φ source)).map π = (sourceScript source).map π := by
  match source with
  | none => rfl
  | some (.table name) => rfl
  | some (.subquery s) =>
    rw [mapSource, Source.mapLeaves, sourceScript, sourceScript]
    exact map_inParens_congr (s.map_script_mapLeaves hπ)

theorem Join.map_script_mapLeaves (hπ : φ.ForgottenBy π) (j : Join) :
    (j.mapLeaves φ).script.map π = j.script.map π := by
  match j with
  | { kind, target, label, condition } =>
    rw [Join.mapLeaves, Join.script, Join.script, List.map_cons, List.map_append, List.map_append,
      target.map_script_mapLeaves hπ, List.map_cons, List.map_append, List.map_append]

theorem map_joinsScript_mapJoins (hπ : φ.ForgottenBy π) (joins : List Join) :
    (joinsScript (mapJoins φ joins)).map π = (joinsScript joins).map π := by
  match joins with
  | [] => rfl
  | j :: rest =>
    rw [mapJoins, joinsScript, joinsScript, List.map_cons, List.map_append, j.map_script_mapLeaves hπ,
      map_joinsScript_mapJoins hπ rest, List.map_cons, List.map_append]

theorem map_havingScript_mapHaving (hπ : φ.ForgottenBy π) (having : Option Predicate) :
    (havingScript (mapHaving φ having)).map π = (havingScript having).map π := by
  match having with
  | none => rfl
  | some p =>
    rw [mapHaving, havingScript, havingScript, Predicate.negated_mapLeaves, List.map_cons,
      map_negatable_congr p.negated (p.map_script_mapLeaves hπ), List.map_cons]

theorem Query.map_script_mapLeaves (hπ : φ.ForgottenBy π) (q : Query) :
    (q.mapLeaves φ).script.map π = q.script.map π := by
  match q with
  | { columns, distinct, source, sourceLabel, joins, filter, groupBy, having, orderBy, limit,
      offset } =>
    have hfilter := map_whereClause_mapLeaves (filter.map_script_mapLeaves hπ)
    rw [Query.mapLeaves, Query.script_mk, Query.script_mk]
    simp only [List.map_cons, List.map_append, map_columnsScript_mapColumns hπ columns,
      map_sourceScript_mapSource hπ source, map_joinsScript_mapJoins hπ joins, hfilter,
      map_havingScript_mapHaving hπ having]

theorem map_unionsScript_mapUnions (hπ : φ.ForgottenBy π) (unions : List UnitedQuery) :
    (unionsScript (mapUnions φ unions)).map π = (unionsScript unions).map π := by
  match unions with
  | [] => rfl
  | { kind, query } :: rest =>
    rw [mapUnions, unionsScript, unionsScript, List.map_cons, List.map_append,
      query.map_script_mapLeaves hπ, map_unionsScript_mapUnions hπ rest, List.map_cons,
      List.map_append]

theorem Select.map_script_mapLeaves (hπ : φ.ForgottenBy π) (s : Select) :
    (s.mapLeaves φ).script.map π = s.script.map π := by
  match s with
  | { head, unions, cursor, fault := some f } => rfl
  | { head, unions, cursor, fault := none } =>
    rw [Select.mapLeaves, Select.script, Select.script, List.map_append, head.map_script_mapLeaves hπ,
      map_unionsScript_mapUnions hπ unions, List.map_append]

end

/-! ## Statements -/

theorem Cell.map_script_mapLeaves (hπ : φ.ForgottenBy π) (c : Cell) :
    (c.mapLeaves φ).script.map π = c.script.map π := by
  cases c with
  | null => rfl
  | bound p => exact congrArg ([·]) (hπ.cell p)
  | inlined v => exact congrArg ([·]) (hπ.literal v)

theorem map_rowScript_mapLeaves (hπ : φ.ForgottenBy π) (row : List Cell) :
    (rowScript (row.map (Cell.mapLeaves φ))).map π = (rowScript row).map π := by
  refine map_inParens_congr (map_commaList_congr ?_)
  rw [List.map_map, List.map_map, List.map_map]
  exact List.map_congr_left fun c _ => c.map_script_mapLeaves hπ

theorem Batch.map_script_mapLeaves (hπ : φ.ForgottenBy π) (b : Batch) :
    (b.mapLeaves φ).script.map π = b.script.map π := by
  have hrows : (commaList ((b.mapLeaves φ).rows.map rowScript)).map π =
      (commaList (b.rows.map rowScript)).map π := by
    refine map_commaList_congr ?_
    rw [Batch.mapLeaves, List.map_map, List.map_map, List.map_map]
    exact List.map_congr_left fun row _ => map_rowScript_mapLeaves hπ row
  unfold Batch.script
  rw [show (b.mapLeaves φ).columns = b.columns from rfl]
  split
  · rfl
  · rw [List.map_append, List.map_cons, hrows, List.map_append, List.map_cons]

theorem Assignment.map_script_mapLeaves (hπ : φ.ForgottenBy π) (a : Assignment) :
    (a.mapLeaves φ).script.map π = a.script.map π := by
  obtain ⟨column, operand⟩ := a
  cases operand with
  | null => rfl
  | inlinedList vs => rfl
  | subquery s => rfl
  | inlined v => exact congrArg ([π (.verbatim column), π (.keyword " = "), ·]) (hπ.literal v)
  | bound p =>
    have hbound := hπ.bound .equal p
    have hlist := hπ.isList p
    rw [Assignment.mapLeaves, Operand.mapLeaves]
    revert hbound hlist
    -- A single value has the same placeholder in an assignment and beside an operator.
    rcases φ.bound .equal p with ⟨v' | vs', type'⟩ <;> rcases p with ⟨v | vs, type⟩
    · exact fun hbound _ => congrArg ([π (.verbatim column), π (.keyword " = ")] ++ ·) hbound
    · exact fun _ hlist => nomatch hlist
    · exact fun _ hlist => nomatch hlist
    · exact fun _ _ => rfl

/-- **A leaf map that is forgotten changes nothing.** A function on pieces that makes the same of every
    leaf makes the same of the whole statement. -/
theorem Statement.map_script_mapLeaves (hπ : φ.ForgottenBy π) (s : Statement) :
    (s.mapLeaves φ).script.map π = s.script.map π := by
  cases s with
  | select s => exact s.map_script_mapLeaves hπ
  | insert i =>
    have hbatch := i.batch.map_script_mapLeaves hπ
    have hfilled : (i.batch.mapLeaves φ).isFilled = i.batch.isFilled := by
      simp [Batch.isFilled, Batch.mapLeaves]
    simp only [Statement.mapLeaves, Statement.script, Insert.script]
    split
    · rfl
    · split
      · rfl
      · rw [hfilled]
        split
        · rw [List.map_cons, List.map_cons, List.map_cons, hbatch, List.map_cons, List.map_cons,
            List.map_cons]
        · rfl
  | update u =>
    have hassignments : (commaList ((u.assignments.map (Assignment.mapLeaves φ)).map
        Assignment.script)).map π = (commaList (u.assignments.map Assignment.script)).map π := by
      refine map_commaList_congr ?_
      rw [List.map_map, List.map_map, List.map_map]
      exact List.map_congr_left fun a _ => a.map_script_mapLeaves hπ
    have hfilter := map_whereClause_mapLeaves (u.filter.map_script_mapLeaves hπ)
    simp only [Statement.mapLeaves, Statement.script, Update.script, List.isEmpty_map]
    split
    · rfl
    · split
      · rfl
      · simp only [List.map_cons, List.map_append, hassignments, hfilter]
  | delete d =>
    have hfilter := map_whereClause_mapLeaves (d.filter.map_script_mapLeaves hπ)
    simp only [Statement.mapLeaves, Statement.script, Delete.script]
    split
    · rfl
    · simp only [List.map_cons, hfilter]

end

end BoundSql
