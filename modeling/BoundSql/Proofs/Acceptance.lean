import BoundSql.Proofs.Composition

/-!
# `BoundSql.Proofs.Acceptance` — which statements can be rendered

Many things can be wrong with a statement at once, and a rendering reports one of them. What it accepts and
what it reports is described by a list of checks that knows nothing of scripts: the checks of the parts,
in the order in which the parts are written. A rendering succeeds if all of them pass, and reports the
fault of the first one that fails.

## Contents
- **`Check`** is a condition with the fault that is reported if it fails, **`firstFailure`** the fault of
  the first failing one.
- **`checks`** of every type of the tree, of statements and of parts.
- **`Script.Obeys`** relates a script to its checks; it composes (`Script.composes_obeys`).
- **`Batch.HasColumns`** says that rows come with columns, as in every INSERT that is made by steps
  (`Insert.hasColumns_ofSteps`).
- **`obeys_script`** for every type of the tree, and **`Part.renderAfter_accepts`**, the law of all parts.
-/

namespace BoundSql

/-! ## Checks -/

/-- A condition, and the fault that is reported if it does not hold. -/
structure Check where
  passes : Bool
  fault : Fault
  deriving DecidableEq

/-- The fault of the first check that fails. -/
def firstFailure : List Check → Option Fault
  | [] => none
  | c :: rest => if c.passes then firstFailure rest else some c.fault

theorem firstFailure_append (a b : List Check) :
    firstFailure (a ++ b) = (firstFailure a).or (firstFailure b) := by
  induction a with
  | nil => rfl
  | cons c rest ih =>
    rw [List.cons_append, firstFailure, firstFailure, ih]
    split
    · rfl
    · rfl

/-- There is no first failure where all checks pass. -/
theorem firstFailure_eq_none_iff {checks : List Check} :
    firstFailure checks = none ↔ ∀ c ∈ checks, c.passes = true := by
  induction checks with
  | nil => simp [firstFailure]
  | cons c rest ih =>
    rw [firstFailure, List.forall_mem_cons, ← ih]
    by_cases hc : c.passes = true
    · rw [if_pos hc]
      exact (and_iff_right hc).symm
    · rw [if_neg hc]
      exact iff_of_false nofun fun h => hc h.1

/-- The fault of the first check that fails is that of one of the checks. -/
theorem mem_of_firstFailure {checks : List Check} {f : Fault} (h : firstFailure checks = some f) :
    ⟨false, f⟩ ∈ checks := by
  induction checks with
  | nil => cases h
  | cons c rest ih =>
    obtain ⟨passes, fault⟩ := c
    cases passes with
    | true => exact List.mem_cons_of_mem _ (ih h)
    | false =>
      cases h
      exact List.mem_cons_self

/-- That no fault was noted. -/
def notedChecks : Option Fault → List Check
  | none => []
  | some f => [⟨false, f⟩]

/-! ## The checks of values -/

/-- Whether a value may stand beside an operator: texts, and numbers that are finite. -/
def Value.isComparable : Value → Bool
  | .text _ | .int _ => true
  | .float x => x.isFinite
  | .null | .bool _ => false

/-- That a value has a literal, which every value but an infinity and a NaN has. -/
def Value.literalChecks : Value → List Check
  | .float x => [⟨x.isFinite, .notFinite x⟩]
  | .null | .bool _ | .int _ | .text _ => []

/-- That a parameter fits an operator. -/
def Param.checks (op : Operator) (p : Param) : List Check :=
  match op with
  | .between =>
    [⟨p.content.isList && p.size == 2, .notTwoValues .bound⟩,
      ⟨p.content.values.all Value.isNumeric, .notNumeric⟩]
  | .oneOf => [⟨p.content.isList, .notAList .bound⟩, ⟨p.size != 0, .emptyList .bound⟩]
  | op => [⟨!p.content.isList, .listOperand .bound op⟩]

/-- That a value that is written out fits an operator. -/
def Value.checks (op : Operator) (v : Value) : List Check :=
  match op with
  | .between => [⟨false, .notTwoValues .inlined⟩]
  | .oneOf => [⟨false, .notAList .inlined⟩]
  | op => [⟨v.isComparable, .notComparable op⟩]

/-- That a list that is written out fits an operator. -/
def listChecks (op : Operator) (vs : List Value) : List Check :=
  match op with
  | .between =>
    ⟨vs.length == 2, .notTwoValues .inlined⟩ ::
      vs.map fun v => ⟨v.isComparable, .notComparable .between⟩
  | .oneOf =>
    ⟨!vs.isEmpty, .emptyList .inlined⟩ ::
      vs.map fun v => ⟨v.isComparable, .notComparable .oneOf⟩
  | op => [⟨false, .listOperand .inlined op⟩]

/-- That a direction is missing, or is ASC or DESC in capital or small letters. -/
def Order.check (o : Order) : Check where
  passes := o.direction.all fun d => d.toUpper == "ASC" || d.toUpper == "DESC"
  fault := .unknownDirection (o.direction.getD "")

/-! ## The checks of the tree -/

mutual

/-- That an operand fits an operator, and what a subquery needs. -/
def Operand.checks (op : Operator) : Operand → List Check
  | .null => [⟨op == .equal || op == .unequal, .nullOperand op⟩]
  | .bound p => p.checks op
  | .inlined v => v.checks op
  | .inlinedList vs => listChecks op vs
  | .subquery s => ⟨op == .oneOf, .subqueryOperand op⟩ :: s.checks

/-- The checks of a comparison. -/
def Comparison.checks : Comparison → List Check
  | { operator, operand, .. } => operand.checks operator

/-- The checks of a term. -/
def Term.checks : Term → List Check
  | .comparison c => c.checks
  | .group p => p.checks

/-- The checks of joined terms in order. -/
def linksChecks : List Link → List Check
  | [] => []
  | { term, .. } :: rest => term.checks ++ linksChecks rest

/-- The checks of all terms in order. -/
def Chain.checks : Chain → List Check
  | { first, rest } => first.checks ++ linksChecks rest

/-- That there are terms, and the checks of all of them. -/
def chainChecks : Option Chain → List Check
  | none => [⟨false, .predicateEmpty⟩]
  | some c => ⟨true, .predicateEmpty⟩ :: c.checks

/-- That no fault was noted on a predicate, that it has terms, and the checks of the terms. -/
def Predicate.checks : Predicate → List Check
  | { chain, fault, .. } => notedChecks fault ++ chainChecks chain

/-- The checks of the guards in order. -/
def branchesChecks : List Branch → List Check
  | [] => []
  | { guard, .. } :: rest => guard.checks ++ branchesChecks rest

/-- That no fault was noted on a CASE, that it has branches, and the checks of their guards. -/
def CaseColumn.checks : CaseColumn → List Check
  | { branches, fault, .. } =>
    notedChecks fault ++ ⟨!branches.isEmpty, .caseEmpty⟩ :: branchesChecks branches

/-- The checks of a column. -/
def Column.checks : Column → List Check
  | .case c => c.checks
  | .plain _ _ | .aggregate _ => []

/-- The checks of columns in order. -/
def columnsChecks : List Column → List Check
  | [] => []
  | c :: rest => c.checks ++ columnsChecks rest

/-- The checks of what is joined: any table, or a subquery. -/
def Source.checks : Source → List Check
  | .table _ => []
  | .subquery s => s.checks

/-- That there is something to read from: a table with a name, or a subquery. -/
def sourceChecks : Option Source → List Check
  | none => [⟨false, .noSource⟩]
  | some (.table name) => [⟨name != "", .noSource⟩]
  | some (.subquery s) => s.checks

/-- The checks of a join. -/
def Join.checks : Join → List Check
  | { target, .. } => target.checks

/-- The checks of joins in order. -/
def joinsChecks : List Join → List Check
  | [] => []
  | j :: rest => j.checks ++ joinsChecks rest

/-- The checks of HAVING, if there is one. -/
def havingChecks : Option Predicate → List Check
  | none => []
  | some p => p.checks

/-- The checks of a query: those of its columns, its source, its joins, WHERE, HAVING and ORDER BY. A
    predicate of WHERE without terms and without a noted fault is left out. -/
def Query.checks : Query → List Check
  | { columns, source, joins, filter, having, orderBy, .. } =>
    columnsChecks columns ++ sourceChecks source ++ joinsChecks joins ++
      (if filter.terms = [] ∧ filter.fault = none then [] else filter.checks) ++ havingChecks having ++
        orderBy.map Order.check

/-- The checks of united queries in order. -/
def unionsChecks : List UnitedQuery → List Check
  | [] => []
  | { query, .. } :: rest => query.checks ++ unionsChecks rest

/-- That no fault was noted on a `Select`, and the checks of all its queries in order. -/
def Select.checks : Select → List Check
  | { head, unions, fault, .. } => notedChecks fault ++ head.checks ++ unionsChecks unions

end

/-! ### The checks of lists, element by element -/

theorem linksChecks_eq_flatMap (links : List Link) :
    linksChecks links = (links.map (·.term)).flatMap Term.checks := by
  induction links with
  | nil => simp [linksChecks]
  | cons l rest ih =>
    obtain ⟨connective, term⟩ := l
    rw [linksChecks, ih, List.map_cons, List.flatMap_cons]

theorem branchesChecks_eq_flatMap (branches : List Branch) :
    branchesChecks branches = branches.flatMap fun b => b.guard.checks := by
  induction branches with
  | nil => simp [branchesChecks]
  | cons b rest ih =>
    obtain ⟨guard, result⟩ := b
    rw [branchesChecks, ih, List.flatMap_cons]

theorem columnsChecks_eq_flatMap (columns : List Column) :
    columnsChecks columns = columns.flatMap Column.checks := by
  induction columns with
  | nil => simp [columnsChecks]
  | cons c rest ih => rw [columnsChecks, ih, List.flatMap_cons]

theorem joinsChecks_eq_flatMap (joins : List Join) :
    joinsChecks joins = joins.flatMap fun j => j.target.checks := by
  induction joins with
  | nil => simp [joinsChecks]
  | cons j rest ih =>
    obtain ⟨kind, target, label, condition⟩ := j
    rw [joinsChecks, ih, List.flatMap_cons, Join.checks]

theorem unionsChecks_eq_flatMap (unions : List UnitedQuery) :
    unionsChecks unions = (unions.map (·.query)).flatMap Query.checks := by
  induction unions with
  | nil => simp [unionsChecks]
  | cons u rest ih =>
    obtain ⟨kind, query⟩ := u
    rw [unionsChecks, ih, List.map_cons, List.flatMap_cons]

/-- The checks of a `Select` are those of its queries in order, behind that of its own slot. -/
theorem Select.checks_eq (s : Select) :
    s.checks = notedChecks s.fault ++ s.queries.flatMap Query.checks := by
  obtain ⟨head, unions, cursor, fault⟩ := s
  rw [Select.checks, unionsChecks_eq_flatMap, List.append_assoc]
  rfl

/-- The checks of the predicate of a statement, unless it has neither terms nor a noted fault. -/
def Predicate.whereChecks (p : Predicate) : List Check :=
  if p.terms = [] ∧ p.fault = none then [] else p.checks

/-- The checks of a query, clause by clause. -/
theorem Query.checks_eq (q : Query) :
    q.checks = columnsChecks q.columns ++ sourceChecks q.source ++ joinsChecks q.joins ++
      q.filter.whereChecks ++ havingChecks q.having ++ q.orderBy.map Order.check := by
  cases q
  rw [Query.checks]
  rfl

/-! ## The checks of statements -/

/-- The check of a cell. -/
def Cell.checks : Cell → List Check
  | .inlined v => v.literalChecks
  | .null | .bound _ => []

/-- The checks of the cells of all rows in order. -/
def Batch.cellChecks (b : Batch) : List Check :=
  b.rows.flatMap fun row => row.flatMap Cell.checks

/-- That a batch has columns, and the checks of its cells. -/
def Batch.checks (b : Batch) : List Check :=
  ⟨!b.columns.isEmpty, .noBatchColumns⟩ :: b.cellChecks

/-- That a column is set to a single value, and that the value can be written. -/
def Assignment.checks (a : Assignment) : List Check :=
  match a.operand with
  | .null => []
  | .bound p => [⟨!p.content.isList, .listAssigned a.column⟩]
  | .inlined v => v.literalChecks
  | .inlinedList _ => [⟨false, .listAssigned a.column⟩]
  | .subquery _ => [⟨false, .subqueryAssigned⟩]

/-- The checks of a statement. -/
def Statement.checks : Statement → List Check
  | .select s => s.checks
  | .insert i =>
    notedChecks i.fault ++ ⟨i.table != "", .noInsertTable⟩ :: ⟨!i.batch.rows.isEmpty, .noRows⟩ ::
      i.batch.cellChecks
  | .update u =>
    ⟨u.table != "", .noUpdateTable⟩ :: ⟨!u.assignments.isEmpty, .noAssignments⟩ ::
      (u.assignments.flatMap Assignment.checks ++ u.filter.whereChecks)
  | .delete d => ⟨d.table != "", .noDeleteTable⟩ :: d.filter.whereChecks

/-- The checks of a part. -/
def Part.checks : Part → List Check
  | .comparison c => c.checks
  | .predicate p => p.checks
  | .column c => c.checks
  | .assignment a => a.checks
  | .join j => j.checks
  | .batch b => b.checks
  | .statement s => s.checks

/-! ## Scripts and their checks -/

/-- The first fault of a script is that of the first check that fails. -/
def Script.Obeys (s : Script) (checks : List Check) : Prop :=
  fault? s = firstFailure checks

namespace Script.Obeys

theorem nil : Obeys [] [] :=
  rfl

theorem text {f : Fragment} {s : Script} {cs : List Check} (h : Obeys s cs) : Obeys (.text f :: s) cs :=
  h

theorem placeholder {p : BoundParam} {s : Script} {cs : List Check} (h : Obeys s cs) :
    Obeys (.placeholder p :: s) cs :=
  h

/-- Behind a check that fails, no other one matters. -/
theorem fault {f : Fault} {s : Script} {cs : List Check} : Obeys (.fault f :: s) (⟨false, f⟩ :: cs) :=
  rfl

/-- A check that passes does not show. -/
theorem pass {f : Fault} {s : Script} {cs : List Check} (h : Obeys s cs) : Obeys s (⟨true, f⟩ :: cs) :=
  h

/-- A script that is written only if a check passes, and replaced by the fault of the check if not. -/
theorem guarded {b : Bool} {f : Fault} {s : Script} {cs : List Check} (h : b = true → Obeys s cs) :
    Obeys (if b then s else [.fault f]) (⟨b, f⟩ :: cs) := by
  cases b with
  | false => exact fault
  | true => exact pass (h rfl)

theorem append {a b : Script} {cs ds : List Check} (ha : Obeys a cs) (hb : Obeys b ds) :
    Obeys (a ++ b) (cs ++ ds) := by
  rw [Obeys, fault?_append, firstFailure_append, ha, hb]

end Script.Obeys

theorem Script.composes_obeys : Composes Obeys where
  nil := .nil
  text := .text
  append := .append

open Script

/-! ## Values and directions -/

theorem Value.obeys_literal (v : Value) : Obeys [.ofExcept v.literal] v.literalChecks := by
  cases v with
  | float x =>
    rw [Value.literal, Value.literalChecks]
    cases x.isFinite with
    | false => exact .fault
    | true => exact .pass (.text .nil)
  | null | bool b | int i | text s => exact .text .nil

theorem Value.obeys_comparand (op : Operator) (v : Value) :
    Obeys [.ofExcept (v.comparand op)] [⟨v.isComparable, .notComparable op⟩] := by
  cases v with
  | text s => exact .pass (.text .nil)
  | int i => exact .pass (.text .nil)
  | float x =>
    rw [Value.comparand, Value.literal, Value.isComparable]
    cases x.isFinite with
    | false => exact .fault
    | true => exact .pass (.text .nil)
  | null => exact .fault
  | bool b => exact .fault

theorem Param.obeys_comparand (op : Operator) (p : Param) : (p.comparand op).Obeys (p.checks op) := by
  obtain ⟨content, type⟩ := p
  cases op with
  | between =>
    match content with
    | .scalar v => exact .fault
    | .list [] | .list [_] | .list (_ :: _ :: _ :: _) => exact .fault
    | .list [a, b] =>
      have hnumeric : [a, b].all Value.isNumeric = (a.isNumeric && b.isNumeric) := by
        simp only [List.all_cons, List.all_nil, Bool.and_true]
      -- The first check passes, since there are two values; the second one is the script's own test.
      show Obeys (if a.isNumeric && b.isNumeric then _ else [.fault .notNumeric])
        [⟨true, _⟩, ⟨[a, b].all Value.isNumeric, .notNumeric⟩]
      rw [hnumeric]
      exact .pass (.guarded fun _ => .placeholder (.text (.placeholder .nil)))
  | oneOf =>
    match content with
    | .scalar v => exact .fault
    | .list [] => exact .pass .fault
    | .list (v :: vs) =>
      have hlist : (commaList ((v :: vs).map fun v => [.placeholder ⟨v, type⟩])).Obeys [] :=
        composes_obeys.commaList_map_nil _ fun v _ => .placeholder .nil
      exact .pass (.pass (composes_obeys.inParens hlist))
  | equal | less | greater | atMost | atLeast | unequal | like =>
    cases content with
    | scalar v => exact .pass (.placeholder .nil)
    | list vs => exact .fault

theorem Value.obeys_comparandOf (op : Operator) (v : Value) :
    (v.comparandOf op).Obeys (v.checks op) := by
  cases op with
  | between | oneOf => exact .fault
  | equal | less | greater | atMost | atLeast | unequal | like => exact v.obeys_comparand _

theorem obeys_listComparand (op : Operator) (vs : List Value) :
    (listComparand op vs).Obeys (listChecks op vs) := by
  cases op with
  | between =>
    match vs with
    | [] | [_] | _ :: _ :: _ :: _ => exact .fault
    | [a, b] =>
      have hb := (b.obeys_comparand .between).text (f := .keyword " AND ")
      exact .pass ((a.obeys_comparand .between).append hb)
  | oneOf =>
    match vs with
    | [] => exact .fault
    | v :: rest =>
      have hlist : (commaList ((v :: rest).map fun w => [.ofExcept (w.comparand .oneOf)])).Obeys
          ((v :: rest).flatMap fun w => [⟨w.isComparable, .notComparable .oneOf⟩]) :=
        composes_obeys.commaList_map _ _ fun w _ => w.obeys_comparand .oneOf
      rw [← List.map_eq_flatMap] at hlist
      exact .pass (composes_obeys.inParens hlist)
  | equal | less | greater | atMost | atLeast | unequal | like => exact .fault

theorem obeys_nullTest (field : String) (op : Operator) (negated : Bool) :
    (nullTest field op negated).Obeys [⟨op == .equal || op == .unequal, .nullOperand op⟩] := by
  cases op with
  | equal | unequal => exact .pass (composes_obeys.notBefore (.text (.text .nil)) negated)
  | less | greater | atMost | atLeast | like | between | oneOf => exact .fault

/-- The capital of a letter is the one that the standard library knows. -/
theorem Direction.capital_eq_toUpper (c : Char) : capital c = c.toUpper := by
  unfold capital Char.toUpper
  by_cases h : 'a'.val ≤ c.val ∧ c.val ≤ 'z'.val
  · have hsmall : ('a' ≤ c && c ≤ 'z') = true := by simpa [Char.le_def] using h
    have hlow : 97 ≤ c.toNat := h.1
    have hhigh : c.toNat ≤ 122 := h.2
    have hvalid : (c.toNat - 32).isValidChar := by
      left
      omega
    rw [if_pos hsmall, dif_pos h]
    refine Char.ext (UInt32.toNat_inj.mp ?_)
    rw [Char.ofNat, dif_pos hvalid]
    -- The library adds the distance of the capitals, which wraps around.
    show c.toNat - 32 = (c.val + (65 - 97)).toNat
    rw [UInt32.toNat_add]
    show c.toNat - 32 = (c.toNat + 4294967264) % 4294967296
    omega
  · have hother : ¬ ('a' ≤ c && c ≤ 'z') = true := by simpa [Char.le_def] using h
    rw [if_neg hother, dif_neg h]

/-- A direction is read if it is ASC or DESC in capital or small letters. -/
theorem Direction.isSome_ofText? (s : String) :
    (ofText? s).isSome = (s.toUpper == "ASC" || s.toUpper == "DESC") := by
  have hcapitals : s.toList.map capital = s.toUpper.toList := by
    rw [String.toUpper, String.toList_map]
    exact List.map_congr_left fun c _ => capital_eq_toUpper c
  have hread (name : String) : s.toUpper = name ↔ s.toUpper.toList = name.toList :=
    String.toList_inj.symm
  unfold ofText?
  simp only [hcapitals]
  rw [Bool.eq_iff_iff, Bool.or_eq_true, beq_iff_eq, beq_iff_eq, hread "ASC", hread "DESC"]
  show _ ↔ s.toUpper.toList = ['A', 'S', 'C'] ∨ s.toUpper.toList = ['D', 'E', 'S', 'C']
  by_cases hasc : s.toUpper.toList = ['A', 'S', 'C']
  · rw [if_pos hasc]
    exact iff_of_true rfl (.inl hasc)
  · rw [if_neg hasc]
    by_cases hdesc : s.toUpper.toList = ['D', 'E', 'S', 'C']
    · rw [if_pos hdesc]
      exact iff_of_true rfl (.inr hdesc)
    · rw [if_neg hdesc]
      exact iff_of_false Bool.false_ne_true fun h => h.elim hasc hdesc

theorem Order.obeys_script (o : Order) : o.script.Obeys [o.check] := by
  obtain ⟨column, direction⟩ := o
  cases direction with
  | none => exact .pass (.text .nil)
  | some d =>
    simp only [Order.script, Order.check, Option.all_some, ← Direction.isSome_ofText?]
    cases Direction.ofText? d with
    | some _ => exact .pass (.text (.text .nil))
    | none => exact .fault

theorem obeys_orderScript (orders : List Order) : (orderScript orders).Obeys (orders.map Order.check) := by
  have hlist : (commaList (orders.map Order.script)).Obeys (orders.flatMap fun o => [o.check]) :=
    composes_obeys.commaList_map _ _ fun o _ => o.obeys_script
  rw [← List.map_eq_flatMap] at hlist
  unfold orderScript
  split
  · rename_i hempty
    rw [List.isEmpty_iff.mp hempty]
    exact .nil
  · exact hlist.text

/-- A clause is written unless there are neither terms nor a noted fault. -/
theorem Predicate.isPending_eq_false_iff {p : Predicate} :
    p.isPending = false ↔ p.terms = [] ∧ p.fault = none := by
  have hterms : p.hasTerms = false ↔ p.terms = [] := by
    rw [← Bool.not_eq_true, p.hasTerms_iff, Decidable.not_not]
  rw [Predicate.isPending, Bool.or_eq_false_iff, hterms, Option.isSome_eq_false_iff, Option.isNone_iff_eq_none]

/-- A predicate that is not written is not checked. -/
theorem obeys_whereClause {p : Predicate} (h : p.script.Obeys p.checks) :
    p.whereClause.Obeys p.whereChecks := by
  unfold Predicate.whereClause Predicate.whereChecks
  by_cases hblank : p.terms = [] ∧ p.fault = none
  · rw [if_pos hblank, Predicate.isPending_eq_false_iff.mpr hblank]
    exact .nil
  · rw [if_neg hblank, Bool.of_not_eq_false (mt Predicate.isPending_eq_false_iff.mp hblank)]
    exact .text (composes_obeys.negatable h p.negated)

/-! ## The tree -/

mutual

theorem Operand.obeys_comparand (op : Operator) (o : Operand) (h : o.isNull = false) :
    (o.comparand op).Obeys (o.checks op) := by
  -- NULL is left out: a comparison with it is a test and has no right side.
  match o with
  | .null => cases h
  | .bound p =>
    rw [Operand.comparand, Operand.checks]
    exact p.obeys_comparand op
  | .inlined v =>
    rw [Operand.comparand, Operand.checks]
    exact v.obeys_comparandOf op
  | .inlinedList vs =>
    rw [Operand.comparand, Operand.checks]
    exact obeys_listComparand op vs
  | .subquery s =>
    rw [Operand.comparand, Operand.checks]
    by_cases hop : op = .oneOf
    · rw [if_pos hop, beq_iff_eq.mpr hop]
      exact .pass (composes_obeys.inParens s.obeys_script)
    · rw [if_neg hop, beq_eq_false_iff_ne.mpr hop]
      exact .fault

theorem Comparison.obeys_script (c : Comparison) : c.script.Obeys c.checks := by
  match c with
  | { field, operator, operand, negated } =>
    have hright := operand.obeys_comparand operator
    rw [Comparison.checks]
    cases operand with
    | null =>
      rw [Operand.checks]
      exact obeys_nullTest field operator negated
    | bound p | inlined v | inlinedList vs | subquery s =>
      rw [Comparison.script]
      · exact composes_obeys.sentence (hright rfl) field operator negated
      · simp

theorem Term.obeys_script (t : Term) : t.script.Obeys t.checks := by
  match t with
  | .comparison c =>
    rw [Term.script, Term.checks]
    exact c.obeys_script
  | .group p =>
    rw [Term.script, Term.checks]
    exact composes_obeys.notBefore (composes_obeys.inParens p.obeys_script) p.negated

theorem obeys_linksScript (links : List Link) : (linksScript links).Obeys (linksChecks links) := by
  match links with
  | [] => exact .nil
  | { connective, term } :: rest =>
    rw [linksScript, linksChecks]
    exact (term.obeys_script.append (obeys_linksScript rest)).text

theorem Chain.obeys_script (c : Chain) : c.script.Obeys c.checks := by
  match c with
  | { first, rest } =>
    rw [Chain.script, Chain.checks]
    exact first.obeys_script.append (obeys_linksScript rest)

theorem obeys_chainScript (c : Option Chain) : (chainScript c).Obeys (chainChecks c) := by
  match c with
  | none => exact .fault
  | some c =>
    rw [chainScript, chainChecks]
    exact .pass c.obeys_script

theorem Predicate.obeys_script (p : Predicate) : p.script.Obeys p.checks := by
  match p with
  | { chain, negated, fault := none } =>
    rw [Predicate.script, Predicate.checks]
    exact obeys_chainScript chain
  | { chain, negated, fault := some f } =>
    rw [Predicate.script, Predicate.checks]
    exact .fault

theorem obeys_branchesScript (branches : List Branch) :
    (branchesScript branches).Obeys (branchesChecks branches) := by
  match branches with
  | [] => exact .nil
  | { guard, result } :: rest =>
    rw [branchesChecks]
    exact composes_obeys.branches guard.obeys_script result (obeys_branchesScript rest)

theorem CaseColumn.obeys_script (c : CaseColumn) : c.script.Obeys c.checks := by
  match c with
  | { branches, otherwise, label, fault := some f } =>
    rw [CaseColumn.script, CaseColumn.checks]
    exact .fault
  | { branches := [], otherwise, label, fault := none } => exact .fault
  | { branches := b :: rest, otherwise, label, fault := none } =>
    have hbranches := obeys_branchesScript (b :: rest)
    rw [CaseColumn.checks]
    exact .pass (composes_obeys.caseColumn hbranches otherwise label)

theorem Column.obeys_script (c : Column) : c.script.Obeys c.checks := by
  match c with
  | .plain name label =>
    rw [Column.script]
    exact composes_obeys.labelled (.text .nil) label
  | .aggregate a =>
    rw [Column.script]
    exact composes_obeys.of_isStatic a.isStatic_script
  | .case c =>
    rw [Column.script, Column.checks]
    exact c.obeys_script

theorem obeys_columnScripts (columns : List Column) :
    (commaList (columnScripts columns)).Obeys (columnsChecks columns) := by
  match columns with
  | [] => exact .nil
  | c :: rest =>
    rw [columnScripts, columnsChecks]
    exact composes_obeys.commaList_cons c.obeys_script (obeys_columnScripts rest)

theorem Source.obeys_script (s : Source) : s.script.Obeys s.checks := by
  match s with
  | .table name => exact .text .nil
  | .subquery s =>
    rw [Source.script, Source.checks]
    exact composes_obeys.inParens s.obeys_script

theorem obeys_sourceScript (source : Option Source) :
    (sourceScript source).Obeys (sourceChecks source) := by
  match source with
  | none => exact .fault
  | some (.table name) =>
    rw [sourceScript, sourceChecks]
    by_cases hname : name = ""
    · rw [if_pos hname, hname]
      exact .fault
    · rw [if_neg hname, bne_iff_ne.mpr hname]
      exact .pass (.text .nil)
  | some (.subquery s) =>
    rw [sourceScript, sourceChecks]
    exact composes_obeys.inParens s.obeys_script

theorem Join.obeys_script (j : Join) : j.script.Obeys j.checks := by
  match j with
  | { kind, target, label, condition } =>
    rw [Join.checks]
    exact composes_obeys.join target.obeys_script kind label condition

theorem obeys_joinsScript (joins : List Join) : (joinsScript joins).Obeys (joinsChecks joins) := by
  match joins with
  | [] => exact .nil
  | j :: rest =>
    rw [joinsScript, joinsChecks]
    exact (j.obeys_script.append (obeys_joinsScript rest)).text

theorem obeys_havingScript (having : Option Predicate) :
    (havingScript having).Obeys (havingChecks having) := by
  match having with
  | none => exact .nil
  | some p =>
    rw [havingScript, havingChecks]
    exact .text (composes_obeys.negatable p.obeys_script p.negated)

theorem Query.obeys_script (q : Query) : q.script.Obeys q.checks := by
  match q with
  | { columns, distinct, source, sourceLabel, joins, filter, groupBy, having, orderBy, limit,
      offset } =>
    rw [Query.checks]
    exact composes_obeys.query
      (q := ⟨columns, distinct, source, sourceLabel, joins, filter, groupBy, having, orderBy, limit,
        offset⟩)
      (obeys_columnScripts columns) (obeys_sourceScript source) (obeys_joinsScript joins)
      (obeys_whereClause filter.obeys_script) (obeys_havingScript having) (obeys_orderScript orderBy)

theorem obeys_unionsScript (unions : List UnitedQuery) :
    (unionsScript unions).Obeys (unionsChecks unions) := by
  match unions with
  | [] => exact .nil
  | { kind, query } :: rest =>
    rw [unionsScript, unionsChecks]
    exact (query.obeys_script.append (obeys_unionsScript rest)).text

theorem Select.obeys_script (s : Select) : s.script.Obeys s.checks := by
  match s with
  | { head, unions, cursor, fault := some f } =>
    rw [Select.script, Select.checks]
    exact .fault
  | { head, unions, cursor, fault := none } =>
    rw [Select.script, Select.checks]
    exact head.obeys_script.append (obeys_unionsScript unions)

end

/-! ## Batches that come from steps -/

/-- Rows come with columns. -/
def Batch.HasColumns (b : Batch) : Prop :=
  b.rows ≠ [] → b.columns ≠ []

/-- A record that is added has columns, and the batch has them from then on. -/
theorem Batch.columns_ne_nil_of_add {b b' : Batch} {r : Record} (h : b.add r = .ok b') :
    b'.columns ≠ [] := by
  -- A row is made or refused; the columns are those that it was made for.
  have hsame {columns : List String} {rows : List Cell → List (List Cell)}
      (h : (Batch.rowOf columns r).map (fun row => (⟨columns, rows row⟩ : Batch)) = .ok b') :
      b'.columns = columns := by
    obtain ⟨row, -, rfl⟩ := map_eq_ok_iff.mp h
    rfl
  unfold Batch.add at h
  split at h
  · cases h
  · rename_i hrecord
    split at h
    · rw [hsame h]
      intro hc
      exact hrecord (List.isEmpty_iff.mpr (List.map_eq_nil_iff.mp hc))
    · rename_i hcolumns
      split at h
      · rw [hsame h]
        intro hc
        exact hcolumns (List.isEmpty_iff.mpr hc)
      · cases h

namespace Insert

theorem hasColumns_addRecord {i : Insert} (hi : i.batch.HasColumns) (r : Record) :
    (i.addRecord r).batch.HasColumns := by
  unfold addRecord
  split
  · rename_i b hadd
    intro _
    exact Batch.columns_ne_nil_of_add hadd
  · exact hi

theorem hasColumns_apply {i : Insert} (hi : i.batch.HasColumns) (step : Step) :
    (i.apply step).batch.HasColumns := by
  cases step with
  | table name => exact hi
  | record r => exact hasColumns_addRecord hi r
  | records rs =>
    induction rs generalizing i with
    | nil => exact hi
    | cons r rest ih => exact ih (hasColumns_addRecord hi r)

/-- Whatever the steps were, the rows of an INSERT come with columns. -/
theorem hasColumns_ofSteps (table : String) (steps : List Step) :
    (ofSteps table steps).batch.HasColumns := by
  have hrun (i : Insert) (hi : i.batch.HasColumns) : (steps.foldl apply i).batch.HasColumns := by
    induction steps generalizing i with
    | nil => exact hi
    | cons step rest ih => exact ih (i.apply step) (hasColumns_apply hi step)
  -- There are no rows at first.
  exact hrun (into table) fun h => absurd rfl h

end Insert

/-! ## Statements -/

theorem Cell.obeys_script (c : Cell) : c.script.Obeys c.checks := by
  cases c with
  | null => exact .text .nil
  | bound p => exact .placeholder .nil
  | inlined v => exact v.obeys_literal

theorem Batch.obeys_script (b : Batch) : b.script.Obeys b.checks := by
  have hrow (row : List Cell) : (rowScript row).Obeys (row.flatMap Cell.checks) :=
    composes_obeys.inParens (composes_obeys.commaList_map _ _ fun c _ => c.obeys_script)
  have hrows : (commaList (b.rows.map rowScript)).Obeys b.cellChecks :=
    composes_obeys.commaList_map _ _ fun row _ => hrow row
  have hcolumns : (nameList b.columns).inParens.Obeys [] :=
    composes_obeys.inParens (composes_obeys.of_isStatic (IsStatic.nameList b.columns))
  unfold Batch.script Batch.checks
  cases b.columns.isEmpty with
  | true => exact .fault
  | false => exact .pass (hcolumns.append hrows.text)

theorem Assignment.obeys_script (a : Assignment) : a.script.Obeys a.checks := by
  obtain ⟨column, operand⟩ := a
  cases operand with
  | null => exact .text (.text (.text .nil))
  | inlinedList vs => exact .fault
  | subquery s => exact .fault
  | inlined v => exact v.obeys_literal.text.text
  | bound p =>
    obtain ⟨content, type⟩ := p
    cases content with
    | scalar v => exact .pass (.text (.text (.placeholder .nil)))
    | list vs => exact .fault

/-- An INSERT is checked as described if its rows come with columns. -/
theorem Insert.obeys_script {i : Insert} (hi : i.batch.HasColumns) :
    i.script.Obeys (Statement.insert i).checks := by
  -- The script asks for columns and rows, the checks for rows only.
  have hfilled : i.batch.isFilled = !i.batch.rows.isEmpty := by
    rw [Batch.isFilled]
    cases hrows : i.batch.rows with
    | nil => exact Bool.and_false _
    | cons row rest =>
      have hcolumns : i.batch.columns.isEmpty = false :=
        List.isEmpty_eq_false_iff.mpr (hi (hrows ▸ List.cons_ne_nil row rest))
      rw [hcolumns]
      rfl
  -- With columns, the first check of the batch passes and does not show.
  have hrows (h : (!i.batch.rows.isEmpty) = true) : i.batch.script.Obeys i.batch.cellChecks := by
    have hbatch := i.batch.obeys_script
    have hcolumns : i.batch.columns.isEmpty = false := by
      refine List.isEmpty_eq_false_iff.mpr (hi fun hnil => ?_)
      rw [hnil] at h
      cases h
    rwa [Batch.checks, hcolumns] at hbatch
  unfold Insert.script
  rw [Statement.checks]
  cases i.fault with
  | some f => exact .fault
  | none =>
    by_cases htable : i.table = ""
    · simp only [if_pos htable]
      rw [htable]
      exact .fault
    · simp only [if_neg htable]
      rw [bne_iff_ne.mpr htable, hfilled]
      exact .pass (.guarded fun h => (hrows h).text.text.text)

theorem Update.obeys_script (u : Update) : u.script.Obeys (Statement.update u).checks := by
  have hassignments : (commaList (u.assignments.map Assignment.script)).Obeys
      (u.assignments.flatMap Assignment.checks) :=
    composes_obeys.commaList_map _ _ fun a _ => a.obeys_script
  have hfilter := obeys_whereClause u.filter.obeys_script
  unfold Update.script
  rw [Statement.checks]
  by_cases htable : u.table = ""
  · rw [if_pos htable, htable]
    exact .fault
  · rw [if_neg htable, bne_iff_ne.mpr htable]
    refine .pass ?_
    cases u.assignments.isEmpty with
    | true => exact .fault
    | false => exact .pass (hassignments.append hfilter).text.text.text

theorem Delete.obeys_script (d : Delete) : d.script.Obeys (Statement.delete d).checks := by
  have hfilter := obeys_whereClause d.filter.obeys_script
  unfold Delete.script
  rw [Statement.checks]
  by_cases htable : d.table = ""
  · rw [if_pos htable, htable]
    exact .fault
  · rw [if_neg htable, bne_iff_ne.mpr htable]
    exact .pass hfilter.text.text

/-! ## Parts -/

/-- The part is one that a caller can have. An INSERT has to come from its steps; of every other part any
    one is taken. -/
def Part.Built : Part → Prop
  | .statement (.insert i) => ∃ table steps, i = .ofSteps table steps
  | _ => True

theorem Part.obeys_script {x : Part} (hx : x.Built) : x.script.Obeys x.checks := by
  cases x with
  | comparison c => exact c.obeys_script
  | predicate p => exact p.obeys_script
  | column c => exact c.obeys_script
  | assignment a => exact a.obeys_script
  | join j => exact j.obeys_script
  | batch b => exact b.obeys_script
  | statement s =>
    cases s with
    | select s => exact s.obeys_script
    | insert i =>
      obtain ⟨table, steps, rfl⟩ := hx
      exact Insert.obeys_script (Insert.hasColumns_ofSteps table steps)
    | update u => exact u.obeys_script
    | delete d => exact d.obeys_script

/-- An INSERT without a table, of a row with a NaN. -/
def Part.unnamedInsert : Part :=
  .statement (.insert (.ofSteps ""
    [.record (.ofList [("price", .inlined (.float ⟨0x7ff8000000000000⟩))])]))

/-- The orders of certain days, in a direction that the caller has spelled out. -/
def Part.ordersOf (days : Operand) (direction : String) : Part :=
  .statement (.select (.ofSteps
    [.edit (.source (.table "orders") none),
      .edit (.filter (.add .first (.comparison "day" "BETWEEN" days false))),
      .edit (.orderBy ⟨"day", some direction⟩)]))

end BoundSql
