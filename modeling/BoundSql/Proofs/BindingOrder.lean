import BoundSql.Proofs.Composition

/-!
# `BoundSql.Proofs.BindingOrder` — parameters are bound in reading order

All parts of a statement push their parameters onto one list, also those of a statement that turns out to
be faulty. What the list holds afterwards is described by a walk over the tree that knows nothing of
scripts: a rendering adds the parameters of that walk, or, if it fails, an initial segment of them.

## Contents
- **`params`** of every type of the tree is the walk; `Predicate.params_eq_flatMap`,
  `CaseColumn.params_eq_flatMap` and `Select.params_eq_flatMap` say in which order it goes.
- **`Script.Binds`** relates a script to what it binds; it composes (`Script.composes_binds`).
- **`binds_script`** for every type of the tree.
- **`Part.Nests.exists_script_eq`** finds the place of a query in a part, and
  **`Part.renderAfter_appends`** is the law of all parts.
-/

namespace BoundSql

/-! ## The walk -/

mutual

/-- The parameters of an operand. -/
def Operand.params : Operand → List BoundParam
  | .bound p => p.bindings
  | .subquery s => s.params
  | .null | .inlined _ | .inlinedList _ => []

/-- The parameters of a comparison. -/
def Comparison.params : Comparison → List BoundParam
  | { operand, .. } => operand.params

/-- The parameters of a term. -/
def Term.params : Term → List BoundParam
  | .comparison c => c.params
  | .group p => p.params

/-- The parameters of joined terms in order. -/
def linksParams : List Link → List BoundParam
  | [] => []
  | { term, .. } :: rest => term.params ++ linksParams rest

/-- The parameters of all terms in order. -/
def Chain.params : Chain → List BoundParam
  | { first, rest } => first.params ++ linksParams rest

/-- The parameters of the terms, if there are any. -/
def chainParams : Option Chain → List BoundParam
  | none => []
  | some c => c.params

/-- The parameters of a predicate. -/
def Predicate.params : Predicate → List BoundParam
  | { chain, .. } => chainParams chain

/-- The parameters of the guards in order. -/
def branchesParams : List Branch → List BoundParam
  | [] => []
  | { guard, .. } :: rest => guard.params ++ branchesParams rest

/-- The parameters of a CASE. -/
def CaseColumn.params : CaseColumn → List BoundParam
  | { branches, .. } => branchesParams branches

/-- The parameters of a column. -/
def Column.params : Column → List BoundParam
  | .case c => c.params
  | .plain _ _ | .aggregate _ => []

/-- The parameters of columns in order. -/
def columnsParams : List Column → List BoundParam
  | [] => []
  | c :: rest => c.params ++ columnsParams rest

/-- The parameters of a source. -/
def Source.params : Source → List BoundParam
  | .table _ => []
  | .subquery s => s.params

/-- The parameters of the source, if there is one. -/
def sourceParams : Option Source → List BoundParam
  | none => []
  | some s => s.params

/-- The parameters of a join. -/
def Join.params : Join → List BoundParam
  | { target, .. } => target.params

/-- The parameters of joins in order. -/
def joinsParams : List Join → List BoundParam
  | [] => []
  | j :: rest => j.params ++ joinsParams rest

/-- The parameters of HAVING, if there is one. -/
def havingParams : Option Predicate → List BoundParam
  | none => []
  | some p => p.params

/-- The parameters of a query: those of its columns, its source, its joins, WHERE and HAVING. -/
def Query.params : Query → List BoundParam
  | { columns, source, joins, filter, having, .. } =>
    columnsParams columns ++ sourceParams source ++ joinsParams joins ++ filter.params ++
      havingParams having

/-- The parameters of united queries in order. -/
def unionsParams : List UnitedQuery → List BoundParam
  | [] => []
  | { query, .. } :: rest => query.params ++ unionsParams rest

/-- The parameters of all queries in order. -/
def Select.params : Select → List BoundParam
  | { head, unions, .. } => head.params ++ unionsParams unions

end

/-- The parameter of a cell. -/
def Cell.params : Cell → List BoundParam
  | .bound p => [p]
  | .null | .inlined _ => []

/-- The parameters of the rows in order. -/
def Batch.params (b : Batch) : List BoundParam :=
  b.rows.flatMap fun row => row.flatMap Cell.params

/-- The parameters of an assignment. -/
def Assignment.params (a : Assignment) : List BoundParam :=
  a.operand.params

/-- The parameters of a statement. -/
def Statement.params : Statement → List BoundParam
  | .select s => s.params
  | .insert i => i.batch.params
  | .update u => u.assignments.flatMap Assignment.params ++ u.filter.params
  | .delete d => d.filter.params

/-- The parameters of a part. -/
def Part.params : Part → List BoundParam
  | .comparison c => c.params
  | .predicate p => p.params
  | .column c => c.params
  | .assignment a => a.params
  | .join j => j.params
  | .batch b => b.params
  | .statement s => s.params

/-- The walk over a predicate goes through its terms. -/
theorem Predicate.params_eq_flatMap (p : Predicate) : p.params = p.terms.flatMap Term.params := by
  have hlinks (links : List Link) : linksParams links = (links.map (·.term)).flatMap Term.params := by
    induction links with
    | nil => rfl
    | cons link rest ih =>
      obtain ⟨connective, term⟩ := link
      rw [linksParams, ih, List.map_cons, List.flatMap_cons]
  obtain ⟨chain, negated, fault⟩ := p
  cases chain with
  | none => rfl
  | some c =>
    obtain ⟨first, rest⟩ := c
    rw [Predicate.params, chainParams, Chain.params, hlinks]
    rfl

/-- The walk over a CASE goes through its guards. -/
theorem CaseColumn.params_eq_flatMap (c : CaseColumn) :
    c.params = c.branches.flatMap fun b => b.guard.params := by
  obtain ⟨branches, otherwise, label, fault⟩ := c
  rw [CaseColumn.params]
  induction branches with
  | nil => rfl
  | cons b rest ih =>
    obtain ⟨guard, result⟩ := b
    rw [branchesParams, ih, List.flatMap_cons]

/-- The walk over columns goes through the columns, and so on for joins. -/
theorem columnsParams_eq_flatMap (columns : List Column) :
    columnsParams columns = columns.flatMap Column.params := by
  induction columns with
  | nil => rfl
  | cons c rest ih => rw [columnsParams, ih, List.flatMap_cons]

theorem joinsParams_eq_flatMap (joins : List Join) :
    joinsParams joins = joins.flatMap fun j => j.target.params := by
  induction joins with
  | nil => rfl
  | cons j rest ih =>
    obtain ⟨kind, target, label, condition⟩ := j
    rw [joinsParams, ih, Join.params, List.flatMap_cons]

/-- The walk over a `Select` goes through its queries. -/
theorem Select.params_eq_flatMap (s : Select) : s.params = s.queries.flatMap Query.params := by
  obtain ⟨head, unions, cursor, fault⟩ := s
  have hunions : unionsParams unions = (unions.map (·.query)).flatMap Query.params := by
    induction unions with
    | nil => rfl
    | cons u rest ih =>
      obtain ⟨kind, query⟩ := u
      rw [unionsParams, ih, List.map_cons, List.flatMap_cons]
  rw [Select.params, hunions, Select.queries, List.flatMap_cons]

/-! ## Scripts and what they bind -/

/-- What a script binds is an initial segment of a list, and the whole list if the script has no fault. -/
def Script.Binds (s : Script) (ps : List BoundParam) : Prop :=
  bindings s <+: ps ∧ (fault? s = none → bindings s = ps)

namespace Script.Binds

theorem nil : Binds [] [] :=
  ⟨List.nil_prefix, fun _ => rfl⟩

/-- A fault keeps everything from being bound. -/
theorem fault {f : Fault} {ps : List BoundParam} : Binds [.fault f] ps :=
  ⟨List.nil_prefix, nofun⟩

theorem text {f : Fragment} {s : Script} {ps : List BoundParam} (h : Binds s ps) :
    Binds (.text f :: s) ps :=
  h

theorem placeholder {p : BoundParam} {s : Script} {ps : List BoundParam} (h : Binds s ps) :
    Binds (.placeholder p :: s) (p :: ps) :=
  ⟨List.cons_prefix_cons.mpr ⟨rfl, h.1⟩, fun hf => congrArg (p :: ·) (h.2 hf)⟩

/-- A value that is written out binds nothing, whether or not it has a literal. -/
theorem ofExcept {e : Except Fault Fragment} {s : Script} {ps : List BoundParam} (h : Binds s ps) :
    Binds (.ofExcept e :: s) ps := by
  cases e with
  | ok f => exact h.text
  | error f => exact ⟨List.nil_prefix, nofun⟩

/-- A fault in the first script cuts off the second one, and what is left is still an initial segment. -/
theorem append {a b : Script} {ps qs : List BoundParam} (ha : Binds a ps) (hb : Binds b qs) :
    Binds (a ++ b) (ps ++ qs) := by
  rw [Binds, bindings_append, fault?_append]
  cases hfault : fault? a with
  | some f =>
    -- Nothing of `b` is bound, and an initial segment of `ps` is one of `ps ++ qs`.
    refine ⟨?_, nofun⟩
    rw [Option.isSome_some, if_pos rfl, List.append_nil]
    exact ha.1.trans (List.prefix_append ps qs)
  | none =>
    -- All of `ps` is bound, so `b` decides.
    rw [Option.isSome_none, if_neg Bool.false_ne_true, ha.2 hfault, Option.none_or]
    exact ⟨(List.prefix_append_right_inj ps).mpr hb.1, fun hf => congrArg (ps ++ ·) (hb.2 hf)⟩

end Script.Binds

theorem Script.composes_binds : Composes Binds where
  nil := .nil
  text := .text
  append := .append

open Script

/-! ## Clauses -/

theorem Param.binds_comparand (op : Operator) (p : Param) : (p.comparand op).Binds p.bindings := by
  obtain ⟨content, type⟩ := p
  unfold Param.comparand
  split
  · rename_i a b hcontent
    cases hcontent
    split
    · exact .placeholder (.text (.placeholder .nil))
    · exact .fault
  · exact .fault
  · exact .fault
  · rename_i vs _ hcontent
    cases hcontent
    have hlist : (commaList (vs.map fun v => [.placeholder ⟨v, type⟩])).Binds
        (vs.flatMap fun v => [⟨v, type⟩]) :=
      composes_binds.commaList_map _ _ fun v _ => .placeholder .nil
    rw [← List.map_eq_flatMap] at hlist
    exact composes_binds.inParens hlist
  · exact .fault
  · exact .fault
  · rename_i hcontent
    cases hcontent
    exact .placeholder .nil

theorem Value.binds_comparandOf (op : Operator) (v : Value) : (v.comparandOf op).Binds [] := by
  unfold Value.comparandOf
  split
  · exact .fault
  · exact .fault
  · exact .ofExcept .nil

theorem binds_listComparand (op : Operator) (vs : List Value) : (listComparand op vs).Binds [] := by
  unfold listComparand
  split
  · exact .ofExcept (.text (.ofExcept .nil))
  · exact .fault
  · exact .fault
  · exact composes_binds.inParens (composes_binds.commaList_map_nil _ fun v _ => .ofExcept .nil)
  · exact .fault

theorem binds_nullTest (field : String) (op : Operator) (negated : Bool) :
    (nullTest field op negated).Binds [] := by
  unfold nullTest
  split
  · exact composes_binds.notBefore (.text (.text .nil)) negated
  · exact composes_binds.notBefore (.text (.text .nil)) negated
  · exact .fault

theorem binds_orderScript (orders : List Order) : (orderScript orders).Binds [] := by
  have horder (o : Order) : o.script.Binds [] := by
    unfold Order.script
    split
    · exact .text .nil
    · split
      · exact .text (.text .nil)
      · exact .fault
  unfold orderScript
  split
  · exact .nil
  · exact .text (composes_binds.commaList_map_nil _ fun o _ => horder o)

/-- A predicate that is not written has no terms, and so no parameters. -/
theorem binds_whereClause {p : Predicate} (h : p.script.Binds p.params) :
    p.whereClause.Binds p.params := by
  unfold Predicate.whereClause
  split
  · exact .text (composes_binds.negatable h p.negated)
  · rename_i hpending
    obtain ⟨chain, negated, fault⟩ := p
    cases chain with
    | none => exact .nil
    | some c =>
      -- A predicate with terms is pending.
      exact absurd rfl hpending

/-! ## The tree -/

mutual

theorem Operand.binds_comparand (op : Operator) (o : Operand) : (o.comparand op).Binds o.params := by
  -- The scripts and the walk recurse in the same way; each theorem opens one layer of both.
  match o with
  | .null => exact .text .nil
  | .bound p =>
    rw [Operand.comparand, Operand.params]
    exact p.binds_comparand op
  | .inlined v =>
    rw [Operand.comparand, Operand.params]
    exact v.binds_comparandOf op
  | .inlinedList vs =>
    rw [Operand.comparand, Operand.params]
    exact binds_listComparand op vs
  | .subquery s =>
    rw [Operand.comparand, Operand.params]
    split
    · exact composes_binds.inParens s.binds_script
    · exact .fault

theorem Comparison.binds_script (c : Comparison) : c.script.Binds c.params := by
  match c with
  | { field, operator, operand, negated } =>
    have hright := operand.binds_comparand operator
    rw [Comparison.params]
    cases operand with
    | null => exact binds_nullTest field operator negated
    | bound p | inlined v | inlinedList vs | subquery s =>
      rw [Comparison.script]
      · exact composes_binds.sentence hright field operator negated
      · simp

theorem Term.binds_script (t : Term) : t.script.Binds t.params := by
  match t with
  | .comparison c =>
    rw [Term.script, Term.params]
    exact c.binds_script
  | .group p =>
    rw [Term.script, Term.params]
    exact composes_binds.notBefore (composes_binds.inParens p.binds_script) p.negated

theorem binds_linksScript (links : List Link) : (linksScript links).Binds (linksParams links) := by
  match links with
  | [] => exact .nil
  | { connective, term } :: rest =>
    rw [linksScript, linksParams]
    exact (term.binds_script.append (binds_linksScript rest)).text

theorem Chain.binds_script (c : Chain) : c.script.Binds c.params := by
  match c with
  | { first, rest } =>
    rw [Chain.script, Chain.params]
    exact first.binds_script.append (binds_linksScript rest)

theorem binds_chainScript (c : Option Chain) : (chainScript c).Binds (chainParams c) := by
  match c with
  | none => exact .fault
  | some c =>
    rw [chainScript, chainParams]
    exact c.binds_script

theorem Predicate.binds_script (p : Predicate) : p.script.Binds p.params := by
  match p with
  | { chain, negated, fault := none } =>
    rw [Predicate.script, Predicate.params]
    exact binds_chainScript chain
  | { chain, negated, fault := some f } => exact .fault

theorem binds_branchesScript (branches : List Branch) :
    (branchesScript branches).Binds (branchesParams branches) := by
  match branches with
  | [] => exact .nil
  | { guard, result } :: rest =>
    rw [branchesParams]
    exact composes_binds.branches guard.binds_script result (binds_branchesScript rest)

theorem CaseColumn.binds_script (c : CaseColumn) : c.script.Binds c.params := by
  match c with
  | { branches, otherwise, label, fault := some f } => exact .fault
  | { branches := [], otherwise, label, fault := none } => exact .fault
  | { branches := b :: rest, otherwise, label, fault := none } =>
    rw [CaseColumn.params]
    exact composes_binds.caseColumn (binds_branchesScript (b :: rest)) otherwise label

theorem Column.binds_script (c : Column) : c.script.Binds c.params := by
  match c with
  | .plain name label =>
    rw [Column.script]
    exact composes_binds.labelled (.text .nil) label
  | .aggregate a =>
    rw [Column.script]
    exact composes_binds.of_isStatic a.isStatic_script
  | .case c =>
    rw [Column.script, Column.params]
    exact c.binds_script

theorem binds_columnScripts (columns : List Column) :
    (commaList (columnScripts columns)).Binds (columnsParams columns) := by
  match columns with
  | [] => exact .nil
  | c :: rest =>
    rw [columnScripts, columnsParams]
    exact composes_binds.commaList_cons c.binds_script (binds_columnScripts rest)

theorem Source.binds_script (s : Source) : s.script.Binds s.params := by
  match s with
  | .table name => exact .text .nil
  | .subquery s =>
    rw [Source.script, Source.params]
    exact composes_binds.inParens s.binds_script

theorem binds_sourceScript (source : Option Source) :
    (sourceScript source).Binds (sourceParams source) := by
  match source with
  | none => exact .fault
  | some (.table name) =>
    rw [sourceScript]
    split
    · exact .fault
    · exact .text .nil
  | some (.subquery s) =>
    rw [sourceScript, sourceParams, Source.params]
    exact composes_binds.inParens s.binds_script

theorem Join.binds_script (j : Join) : j.script.Binds j.params := by
  match j with
  | { kind, target, label, condition } =>
    rw [Join.params]
    exact composes_binds.join target.binds_script kind label condition

theorem binds_joinsScript (joins : List Join) : (joinsScript joins).Binds (joinsParams joins) := by
  match joins with
  | [] => exact .nil
  | j :: rest =>
    rw [joinsScript, joinsParams]
    exact (j.binds_script.append (binds_joinsScript rest)).text

theorem binds_havingScript (having : Option Predicate) :
    (havingScript having).Binds (havingParams having) := by
  match having with
  | none => exact .nil
  | some p =>
    rw [havingScript, havingParams]
    exact .text (composes_binds.negatable p.binds_script p.negated)

theorem Query.binds_script (q : Query) : q.script.Binds q.params := by
  match q with
  | { columns, distinct, source, sourceLabel, joins, filter, groupBy, having, orderBy, limit,
      offset } =>
    have hquery := composes_binds.query
      (q := ⟨columns, distinct, source, sourceLabel, joins, filter, groupBy, having, orderBy, limit,
        offset⟩)
      (binds_columnScripts columns) (binds_sourceScript source) (binds_joinsScript joins)
      (binds_whereClause filter.binds_script) (binds_havingScript having) (binds_orderScript orderBy)
    rw [List.append_nil] at hquery
    rw [Query.params]
    exact hquery

theorem binds_unionsScript (unions : List UnitedQuery) :
    (unionsScript unions).Binds (unionsParams unions) := by
  match unions with
  | [] => exact .nil
  | { kind, query } :: rest =>
    rw [unionsScript, unionsParams]
    exact (query.binds_script.append (binds_unionsScript rest)).text

theorem Select.binds_script (s : Select) : s.script.Binds s.params := by
  match s with
  | { head, unions, cursor, fault := some f } => exact .fault
  | { head, unions, cursor, fault := none } =>
    rw [Select.script, Select.params]
    exact head.binds_script.append (binds_unionsScript unions)

end

/-! ## Statements -/

theorem Cell.binds_script (c : Cell) : c.script.Binds c.params := by
  cases c with
  | null => exact .text .nil
  | bound p => exact .placeholder .nil
  | inlined v => exact .ofExcept .nil

theorem Batch.binds_script (b : Batch) : b.script.Binds b.params := by
  have hrow (row : List Cell) : (rowScript row).Binds (row.flatMap Cell.params) :=
    composes_binds.inParens (composes_binds.commaList_map _ _ fun c _ => c.binds_script)
  have hrows : (commaList (b.rows.map rowScript)).Binds b.params :=
    composes_binds.commaList_map _ _ fun row _ => hrow row
  unfold Batch.script
  split
  · exact .fault
  · have hnames := composes_binds.of_isStatic (IsStatic.nameList b.columns)
    exact (composes_binds.inParens hnames).append hrows.text

theorem Assignment.binds_script (a : Assignment) : a.script.Binds a.params := by
  obtain ⟨column, operand⟩ := a
  rw [Assignment.params]
  cases operand with
  | null => exact .text (.text (.text .nil))
  | inlinedList vs => exact .fault
  | subquery s => exact .fault
  | inlined v => exact .text (.text (.ofExcept .nil))
  | bound p =>
    obtain ⟨content, type⟩ := p
    cases content with
    | scalar v => exact .text (.text (.placeholder .nil))
    | list vs => exact .fault

theorem Statement.binds_script (s : Statement) : s.script.Binds s.params := by
  cases s with
  | select s => exact s.binds_script
  | insert i =>
    simp only [Statement.script, Insert.script]
    split
    · exact .fault
    · split
      · exact .fault
      · split
        · exact i.batch.binds_script.text.text.text
        · exact .fault
  | update u =>
    have hassignments : (commaList (u.assignments.map Assignment.script)).Binds
        (u.assignments.flatMap Assignment.params) :=
      composes_binds.commaList_map _ _ fun a _ => a.binds_script
    have hfilter := binds_whereClause u.filter.binds_script
    simp only [Statement.script, Update.script]
    split
    · exact .fault
    · split
      · exact .fault
      · exact (hassignments.append hfilter).text.text.text
  | delete d =>
    simp only [Statement.script, Delete.script]
    split
    · exact .fault
    · exact (binds_whereClause d.filter.binds_script).text.text

/-! ## Parts -/

theorem Part.binds_script (x : Part) : x.script.Binds x.params := by
  cases x with
  | comparison c => exact c.binds_script
  | predicate p => exact p.binds_script
  | column c => exact c.binds_script
  | assignment a => exact a.binds_script
  | join j => exact j.binds_script
  | batch b => exact b.binds_script
  | statement s => exact s.binds_script

/-- A query among the united ones is laid out in one place of the whole. -/
theorem Select.exists_script_eq {t : Select} {q : Query} (hq : q ∈ t.queries)
    (ht : t.script.fault? = none) :
    ∃ before after, t.script = before ++ q.script ++ after := by
  obtain ⟨head, unions, cursor, fault⟩ := t
  cases fault with
  | some f =>
    rw [Select.script] at ht
    cases ht
  | none =>
    -- The queries behind the first one, by induction on how many stand in front of `q`.
    have hunions (us : List UnitedQuery) (hmem : q ∈ us.map (·.query)) :
        ∃ before after, unionsScript us = before ++ q.script ++ after := by
      induction us with
      | nil => cases hmem
      | cons u rest ih =>
        obtain ⟨kind, query⟩ := u
        rw [unionsScript]
        rcases List.mem_cons.mp hmem with rfl | hrest
        · exact ⟨[.keyword kind.words], unionsScript rest, rfl⟩
        · obtain ⟨before, after, heq⟩ := ih hrest
          rw [heq]
          exact ⟨.keyword kind.words :: (query.script ++ before), after, by simp⟩
    rw [Select.script]
    rcases List.mem_cons.mp hq with rfl | hrest
    · exact ⟨[], unionsScript unions, rfl⟩
    · obtain ⟨before, after, heq⟩ := hunions unions hrest
      rw [heq]
      exact ⟨head.script ++ before, after, by simp⟩

/-- A query in a part is laid out in one place of the part, between parentheses. -/
theorem Part.Nests.exists_script_eq {x : Part} {s : Select} (h : x.Nests s)
    (hx : x.script.fault? = none) :
    ∃ before after, x.script = before ++ s.script.inParens ++ after := by
  cases h with
  | @oneOf field negated =>
    refine ⟨[.verbatim field, .keyword (if negated then " NOT " else " "), .keyword "IN "], [], ?_⟩
    rw [Part.script, Comparison.script, Operand.comparand, List.append_nil]
    · rfl
    · simp
  | @source t _ q hq hs =>
    obtain ⟨before, after, heq⟩ := t.exists_script_eq hq hx
    obtain ⟨columns, distinct, source, sourceLabel, joins, filter, groupBy, having, orderBy, limit,
      offset⟩ := q
    cases hs
    refine ⟨before ++ (.keyword (if distinct then "SELECT DISTINCT " else "SELECT ") ::
        (columnsScript columns ++ [.keyword " FROM "])),
      sourceLabelScript sourceLabel ++ joinsScript joins ++ filter.whereClause ++ groupScript groupBy ++
        havingScript having ++ orderScript orderBy ++ pageScript limit offset ++ after, ?_⟩
    rw [Part.script, Statement.script, heq, Query.script_mk, sourceScript]
    simp only [List.append_assoc, List.cons_append, List.nil_append]
  | @join kind _ label condition =>
    refine ⟨[.keyword (kind.text ++ " JOIN ")], joinLabelScript label ++ joinConditionScript condition,
      ?_⟩
    rw [Part.script, Join.script, Source.script, List.append_assoc]
    rfl

/-- **Rendering only appends, in reading order.** What a part is rendered to does not depend on the
    parameters that are already bound. A rendering that succeeds binds the parameters of the part behind
    them, and one that fails an initial segment of those. A query under IN, FROM or JOIN contributes, in
    one place, what it is rendered to by itself: its text in parentheses, and its parameters. -/
theorem Part.renderAfter_appends (x : Part) (earlier : List BoundParam) :
    (x.renderAfter earlier).outcome = (x.renderAfter []).outcome ∧
      (∀ sql, (x.renderAfter earlier).outcome = .ok sql →
        (x.renderAfter earlier).params = earlier ++ x.params) ∧
      (∀ f, (x.renderAfter earlier).outcome = .error f →
        ∃ q, q <+: x.params ∧ (x.renderAfter earlier).params = earlier ++ q) ∧
      ∀ s sql, x.Nests s → (x.renderAfter earlier).outcome = .ok sql →
        ∃ (before after : Script) (inner : String),
          x.script = before ++ s.script.inParens ++ after ∧
            ((statement (.select s)).renderAfter []).outcome = .ok inner ∧
            sql = before.text ++ ("(" ++ inner ++ ")") ++ after.text ∧
            (x.renderAfter earlier).params = earlier ++
              (before.bindings ++ ((statement (.select s)).renderAfter []).params ++ after.bindings) := by
  obtain ⟨hinitial, hall⟩ := x.binds_script
  rw [Part.renderAfter, Part.renderAfter, renderAfter_eq, renderAfter_eq]
  refine ⟨rfl, ?_, ?_, ?_⟩
  · intro sql hsql
    obtain ⟨hx, -⟩ := render_eq_ok_iff.mp hsql
    exact congrArg (earlier ++ ·) (hall hx)
  · intro f _
    exact ⟨bindings x.script, hinitial, rfl⟩
  · intro s sql hs hsql
    obtain ⟨hx, rfl⟩ := render_eq_ok_iff.mp hsql
    obtain ⟨before, after, heq⟩ := hs.exists_script_eq hx
    rw [heq, fault?_append_eq_none, fault?_append_eq_none, fault?_inParens] at hx
    obtain ⟨⟨hbefore, hinner⟩, -⟩ := hx
    have hfront : fault? (before ++ s.script.inParens) = none :=
      fault?_append_eq_none.mpr ⟨hbefore, by rwa [fault?_inParens]⟩
    refine ⟨before, after, text s.script, heq, ?_, ?_, ?_⟩
    · rw [Part.renderAfter, renderAfter_eq]
      exact render_eq_ok_iff.mpr ⟨hinner, rfl⟩
    · rw [heq, text_append, text_append, text_inParens]
    · show earlier ++ bindings x.script = _
      rw [Part.renderAfter, renderAfter_eq, heq, bindings_append_of_fault?_eq_none hfront,
        bindings_append_of_fault?_eq_none hbefore, bindings_inParens]
      rfl

/-- The first comparison is rendered and the second one is not: what the first one bound stays bound. -/
example :
    ((Part.predicate (.ofSteps
      [.add .first (.comparison "id" "=" (.bound ⟨.scalar (.int 1), .integer⟩) false),
        .add (.joined .and) (.comparison "kind" "IN" .null false)])).renderAfter []).params =
      [⟨.int 1, .integer⟩] := by
  rfl

end BoundSql
