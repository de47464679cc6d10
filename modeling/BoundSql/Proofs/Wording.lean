import BoundSql.Proofs.Scanner
import BoundSql.Statement

/-!
# `BoundSql.Proofs.Wording` — the words that the renderer chooses

What neither the caller nor the literal convention answers for is a keyword piece: words, marks and
numbers. None of them has a single quote or a question mark, so the scanner passes over all of them.

Much of a statement is **static**: plain keywords and copied text, without a literal, a placeholder or a
fault. The clauses that hold no other part of the tree are shown static once, and every law about scripts
takes them from there.

## Contents
- **`Script.IsStatic`** and **`Script.IsWorded`**, with a lemma per combinator of scripts.
- **Numbers** are plain: `isPlain_natRepr`, `isPlain_intRepr`, `isPlain_write`.
- **Clauses** without parts of the tree are static.
- **`isWorded_script`** for every type of the tree, and `Statement.isWorded_script`.
-/

namespace BoundSql

/-! ## Static and worded scripts -/

/-- A piece that is a plain keyword or text that the caller wants copied. -/
def Piece.IsStatic : Piece → Prop
  | .text (.keyword s) => IsPlain s.toList
  | .text (.verbatim _) | .text (.delimiter _) => True
  | .text (.literal _) | .placeholder _ | .fault _ => False

/-- A piece that, if it is a keyword, is plain. -/
def Piece.IsWorded : Piece → Prop
  | .text (.keyword s) => IsPlain s.toList
  | _ => True

namespace Script

/-- A script of plain keywords and copied text. -/
def IsStatic (s : Script) : Prop :=
  ∀ piece ∈ s, piece.IsStatic

/-- A script whose keywords are plain. -/
def IsWorded (s : Script) : Prop :=
  ∀ piece ∈ s, piece.IsWorded

namespace IsStatic

theorem nil : IsStatic [] :=
  List.forall_mem_nil _

theorem append {a b : Script} (ha : IsStatic a) (hb : IsStatic b) : IsStatic (a ++ b) :=
  List.forall_mem_append.mpr ⟨ha, hb⟩

theorem keyword {words : String} {s : Script} (hw : IsPlain words.toList) (hs : IsStatic s) :
    IsStatic (.keyword words :: s) :=
  List.forall_mem_cons.mpr ⟨hw, hs⟩

theorem verbatim {name : String} {s : Script} (hs : IsStatic s) : IsStatic (.verbatim name :: s) :=
  List.forall_mem_cons.mpr ⟨trivial, hs⟩

/-- Names between plain separators are static. -/
theorem separated {separator : String} (hw : IsPlain separator.toList) :
    ∀ names : List String, IsStatic (separated separator (names.map fun name => [.verbatim name]))
  | [] => nil
  | [_] => verbatim nil
  | _ :: t :: rest => verbatim (keyword hw (separated hw (t :: rest)))

theorem nameList (names : List String) : IsStatic (nameList names) :=
  separated (by decide) names

theorem isWorded {s : Script} (h : IsStatic s) : IsWorded s := by
  intro piece hmem
  have hstatic := h piece hmem
  cases piece with
  | text f => cases f <;> first | exact hstatic | trivial
  | placeholder p => trivial
  | fault f => trivial

end IsStatic

namespace IsWorded

theorem nil : IsWorded [] :=
  List.forall_mem_nil _

theorem append {a b : Script} (ha : IsWorded a) (hb : IsWorded b) : IsWorded (a ++ b) :=
  List.forall_mem_append.mpr ⟨ha, hb⟩

theorem keyword {words : String} {s : Script} (hw : IsPlain words.toList) (hs : IsWorded s) :
    IsWorded (.keyword words :: s) :=
  List.forall_mem_cons.mpr ⟨hw, hs⟩

theorem piece {p : Piece} {s : Script} (hp : p.IsWorded) (hs : IsWorded s) : IsWorded (p :: s) :=
  List.forall_mem_cons.mpr ⟨hp, hs⟩

theorem verbatim {name : String} {s : Script} (hs : IsWorded s) : IsWorded (.verbatim name :: s) :=
  piece trivial hs

theorem placeholder {p : BoundParam} {s : Script} (hs : IsWorded s) :
    IsWorded (.placeholder p :: s) :=
  piece trivial hs

theorem fault {f : Fault} : IsWorded [.fault f] :=
  piece trivial nil

theorem commaList : ∀ {scripts : List Script}, (∀ s ∈ scripts, IsWorded s) →
    IsWorded (commaList scripts)
  | [], _ => nil
  | [s], h => h s List.mem_cons_self
  -- Only from two scripts on is there a comma.
  | s :: t :: rest, h =>
    append (h s List.mem_cons_self)
      (keyword (by decide)
        (@commaList (t :: rest) fun u hu => h u (List.mem_cons_of_mem s hu)))

theorem inParens {s : Script} (h : IsWorded s) : IsWorded (inParens s) :=
  keyword (by decide) (append h (keyword (by decide) nil))

end IsWorded

end Script

open Script

/-! ## Numbers -/

theorem isPlain_toDigits (n : Nat) : IsPlain (Nat.toDigits 10 n) := by
  intro c hc
  -- Neither of the two characters is a digit.
  have hdigit := Nat.isDigit_of_mem_toDigits (by decide) (by decide) hc
  constructor <;> rintro rfl <;> revert hdigit <;> decide

theorem isPlain_natRepr (n : Nat) : IsPlain n.repr.toList := by
  rw [Nat.toList_repr]
  exact isPlain_toDigits n

theorem isPlain_intRepr (i : Int) : IsPlain i.repr.toList := by
  rw [Int.repr_eq_if]
  split
  · exact isPlain_natRepr _
  · rw [String.toList_append]
    exact IsPlain.append (by decide) (isPlain_natRepr _)

theorem isPlain_zeros (n : Nat) : IsPlain (List.replicate n '0') := by
  intro c hc
  rw [List.eq_of_mem_replicate hc]
  decide

/-- A number with every digit in its place is plain. -/
theorem isPlain_positional (d : Decimal) : IsPlain (d.positional "").toList := by
  have hdigits : IsPlain d.digitChars := isPlain_toDigits _
  have htake (n : Nat) : IsPlain (d.digitChars.take n) := fun c hc => hdigits c (List.mem_of_mem_take hc)
  have hdrop (n : Nat) : IsPlain (d.digitChars.drop n) := fun c hc => hdigits c (List.mem_of_mem_drop hc)
  simp only [Decimal.positional]
  split
  · simpa using hdigits.append (isPlain_zeros _)
  · split
    · simp only [String.toList_append, String.toList_ofList]
      exact ((htake _).append (by decide)).append (hdrop _)
    · simp only [String.toList_append, String.toList_ofList]
      exact IsPlain.append (by decide) ((isPlain_zeros _).append hdigits)

/-- A number as literals write it is plain. -/
theorem isPlain_write (x : Double) : IsPlain (literalStyle.write x).toList := by
  have hsign : IsPlain (if x.isNegative then "-" else "").toList := by
    split <;> decide
  rw [Style.write, String.toList_append]
  exact hsign.append (isPlain_positional _)

/-! ## Clauses without parts of the tree -/

/-- A label is static text behind what it labels. -/
theorem labelled_eq_append (s : Script) (label : Option String) :
    ∃ tail, tail.IsStatic ∧ labelled s label = s ++ tail := by
  cases label with
  | none => exact ⟨[], .nil, (List.append_nil s).symm⟩
  | some label =>
    by_cases h : label = ""
    · exact ⟨[], .nil, by simp [labelled, h]⟩
    · refine ⟨[.keyword " AS \"", .verbatim label, .keyword "\""], ?_, by rw [labelled, if_neg h]⟩
      exact .keyword (by decide) (.verbatim (.keyword (by decide) .nil))

theorem Script.IsStatic.labelled {s : Script} (h : s.IsStatic) (label : Option String) :
    (labelled s label).IsStatic := by
  obtain ⟨tail, htail, heq⟩ := labelled_eq_append s label
  rw [heq]
  exact h.append htail

theorem isStatic_sourceLabelScript (label : Option String) : (sourceLabelScript label).IsStatic := by
  cases label with
  | none => exact .nil
  | some label =>
    simp only [sourceLabelScript]
    split
    · exact .nil
    · exact .keyword (by decide) (.verbatim .nil)

theorem isStatic_joinLabelScript (label : Option String) : (joinLabelScript label).IsStatic := by
  cases label with
  | none => exact .nil
  | some label =>
    rw [joinLabelScript]
    exact .keyword (by decide) (.verbatim .nil)

theorem Argument.isStatic_script (a : Argument) : a.script.IsStatic := by
  cases a with
  | expression e => exact .verbatim .nil
  | concatenation es delimiter =>
    have hdelimiter : IsStatic [.text (.delimiter delimiter)] :=
      List.forall_mem_cons.mpr ⟨trivial, IsStatic.nil⟩
    rw [Argument.script]
    exact (IsStatic.separated (by decide) es).append (.keyword (by decide) hdelimiter)

theorem Trailing.isStatic_script (t : Trailing) : t.script.IsStatic := by
  cases t with
  | words s =>
    simp only [Trailing.script]
    split
    · exact .nil
    · exact .keyword (by decide) (.verbatim .nil)
  | withinGroup columns =>
    rw [Trailing.script]
    exact .keyword (by decide) ((IsStatic.nameList columns).append (.keyword (by decide) .nil))

theorem Aggregate.isStatic_script (a : Aggregate) : a.script.IsStatic := by
  have hopen : IsPlain (a.function.text ++ "(" ++ if a.distinct then "DISTINCT " else "").toList := by
    cases a.function <;> cases a.distinct <;> decide
  have htrailing : ((a.trailing.map Trailing.script).getD []).IsStatic := by
    cases a.trailing with
    | none => exact .nil
    | some t => exact t.isStatic_script
  have hargument : IsStatic (a.argument.script ++ [.keyword ")"]) :=
    a.argument.isStatic_script.append (.keyword (by decide) .nil)
  exact IsStatic.labelled (.keyword hopen (hargument.append htrailing)) a.label

theorem isStatic_groupScript (columns : List String) : (groupScript columns).IsStatic := by
  unfold groupScript
  split
  · exact .nil
  · exact .keyword (by decide) (.nameList columns)

theorem isStatic_pageScript (limit offset : Option Int) : (pageScript limit offset).IsStatic := by
  cases limit with
  | none => exact .nil
  | some limit =>
    refine .keyword ?_ .nil
    have hpassed := isPlain_intRepr (offset.getD 0)
    have hrows := isPlain_intRepr limit
    simp only [String.toList_append]
    exact (((IsPlain.append (by decide) hpassed).append (by decide)).append hrows).append (by decide)

theorem isStatic_joinConditionScript (condition : Option ColumnPair) :
    (joinConditionScript condition).IsStatic := by
  cases condition with
  | none => exact .nil
  | some p =>
    rw [joinConditionScript, ColumnPair.script]
    exact .keyword (by decide) (.verbatim (.keyword (by decide) (.verbatim .nil)))

/-! ## Values -/

theorem isWorded_literal {v : Value} {f : Fragment} (h : v.literal = .ok f) :
    (Piece.text f).IsWorded := by
  cases v with
  | null =>
    cases h
    exact (by decide : IsPlain "NULL".toList)
  | bool b =>
    cases h
    exact (by cases b <;> decide : IsPlain (if b then "1" else "0").toList)
  | int i =>
    cases h
    exact isPlain_intRepr i
  | float x =>
    simp only [Value.literal] at h
    split at h <;> cases h
    exact isPlain_write x
  | text s =>
    cases h
    trivial

theorem isWorded_ofExcept_literal (v : Value) : (Piece.ofExcept v.literal).IsWorded := by
  cases h : v.literal with
  | ok f => exact isWorded_literal h
  | error f => trivial

theorem isWorded_ofExcept_comparand (op : Operator) (v : Value) :
    (Piece.ofExcept (v.comparand op)).IsWorded := by
  cases v with
  | text s => trivial
  | int i => exact isPlain_intRepr i
  | float x =>
    simp only [Value.comparand]
    split
    · exact isWorded_ofExcept_literal (.float x)
    · trivial
  | null => trivial
  | bool b => trivial

/-- The result of a CASE is a literal, copied text, or the written form of a value. -/
theorem CaseResult.isWorded (r : CaseResult) : (Piece.text r.fragment).IsWorded := by
  obtain ⟨v, quoted, h⟩ := r.isResult
  unfold Value.result at h
  split at h
  · split at h <;> rw [← Except.ok.inj h] <;> trivial
  · exact isWorded_literal h

theorem isWorded_otherwiseScript (result : Option CaseResult) :
    (otherwiseScript result).IsWorded := by
  cases result with
  | none => exact .nil
  | some r =>
    simp only [otherwiseScript]
    split
    · exact .nil
    · exact .keyword (by decide) (.piece r.isWorded .nil)

/-! ## Right sides -/

theorem Param.isWorded_comparand (op : Operator) (p : Param) : (p.comparand op).IsWorded := by
  unfold Param.comparand
  split
  · split
    · exact .placeholder (.keyword (by decide) (.placeholder .nil))
    · exact .fault
  · exact .fault
  · exact .fault
  · refine .inParens (.commaList ?_)
    intro s hs
    obtain ⟨v, -, rfl⟩ := List.mem_map.mp hs
    exact .placeholder .nil
  · exact .fault
  · exact .fault
  · exact .placeholder .nil

theorem Value.isWorded_comparandOf (op : Operator) (v : Value) : (v.comparandOf op).IsWorded := by
  unfold Value.comparandOf
  split
  · exact .fault
  · exact .fault
  · exact .piece (isWorded_ofExcept_comparand _ v) .nil

theorem isWorded_listComparand (op : Operator) (vs : List Value) : (listComparand op vs).IsWorded := by
  unfold listComparand
  split
  · exact .piece (isWorded_ofExcept_comparand _ _)
      (.keyword (by decide) (.piece (isWorded_ofExcept_comparand _ _) .nil))
  · exact .fault
  · exact .fault
  · refine .inParens (.commaList ?_)
    intro s hs
    obtain ⟨v, -, rfl⟩ := List.mem_map.mp hs
    exact .piece (isWorded_ofExcept_comparand _ v) .nil
  · exact .fault

theorem isWorded_notBefore {s : Script} (h : s.IsWorded) (negated : Bool) :
    (notBefore negated s).IsWorded := by
  cases negated with
  | false => exact h
  | true => exact .keyword (by decide) h

theorem isWorded_nullTest (field : String) (op : Operator) (negated : Bool) :
    (nullTest field op negated).IsWorded := by
  unfold nullTest
  split
  · exact isWorded_notBefore (.verbatim (.keyword (by decide) .nil)) negated
  · exact isWorded_notBefore (.verbatim (.keyword (by decide) .nil)) negated
  · exact .fault

theorem isWorded_sentence (field : String) (op : Operator) (negated : Bool) {right : Script}
    (h : right.IsWorded) : (sentence field op negated right).IsWorded := by
  unfold sentence
  split
  · have hnot : IsPlain (if negated then " NOT " else " ").toList := by cases negated <;> decide
    have hop : IsPlain (op.text ++ " ").toList := by cases op <;> decide
    exact .verbatim (.keyword hnot (.keyword hop h))
  · have hop : IsPlain (" " ++ op.text ++ " ").toList := by cases op <;> decide
    exact isWorded_notBefore (.verbatim (.keyword hop h)) negated

theorem isWorded_orderScript (orders : List Order) : (orderScript orders).IsWorded := by
  unfold orderScript
  split
  · exact .nil
  · refine .keyword (by decide) (.commaList ?_)
    intro s hs
    obtain ⟨o, -, rfl⟩ := List.mem_map.mp hs
    unfold Order.script
    split
    · exact .verbatim .nil
    · split
      · rename_i d _
        exact .verbatim (.keyword (by cases d <;> decide) .nil)
      · exact .fault

/-! ## The tree -/

theorem isWorded_negatable {s : Script} (h : s.IsWorded) (negated : Bool) :
    (negatable negated s).IsWorded := by
  cases negated with
  | false => exact h
  | true => exact .keyword (by decide) h.inParens

theorem isWorded_grouped {s : Script} (h : s.IsWorded) (negated : Bool) :
    (grouped negated s).IsWorded :=
  isWorded_notBefore h.inParens negated

theorem isWorded_whereClause {p : Predicate} (h : p.script.IsWorded) : p.whereClause.IsWorded := by
  unfold Predicate.whereClause
  split
  · exact .keyword (by decide) (isWorded_negatable h p.negated)
  · exact .nil

mutual

theorem Operand.isWorded_comparand (op : Operator) (o : Operand) : (o.comparand op).IsWorded := by
  -- The theorems recurse as the scripts do: each opens one layer of the tree and cites the next one.
  match o with
  | .null => exact .keyword (by decide) .nil
  | .bound p =>
    rw [Operand.comparand]
    exact p.isWorded_comparand op
  | .inlined v =>
    rw [Operand.comparand]
    exact v.isWorded_comparandOf op
  | .inlinedList vs =>
    rw [Operand.comparand]
    exact isWorded_listComparand op vs
  | .subquery s =>
    rw [Operand.comparand]
    split
    · exact s.isWorded_script.inParens
    · exact .fault

theorem Comparison.isWorded_script (c : Comparison) : c.script.IsWorded := by
  match c with
  | { field, operator, operand, negated } =>
    have hright := operand.isWorded_comparand operator
    cases operand with
    | null => exact isWorded_nullTest field operator negated
    | bound p | inlined v | inlinedList vs | subquery s =>
      -- NULL has an equation of its own; this one asks for another operand.
      rw [Comparison.script]
      · exact isWorded_sentence field operator negated hright
      · simp

theorem Term.isWorded_script (t : Term) : t.script.IsWorded := by
  match t with
  | .comparison c =>
    rw [Term.script]
    exact c.isWorded_script
  | .group p =>
    rw [Term.script]
    exact isWorded_grouped p.isWorded_script p.negated

theorem isWorded_linksScript (links : List Link) : (linksScript links).IsWorded := by
  match links with
  | [] => exact .nil
  | { connective, term } :: rest =>
    have hwords : IsPlain (" " ++ connective.text ++ " ").toList := by cases connective <;> decide
    rw [linksScript]
    exact .keyword hwords (term.isWorded_script.append (isWorded_linksScript rest))

theorem Chain.isWorded_script (c : Chain) : c.script.IsWorded := by
  match c with
  | { first, rest } =>
    rw [Chain.script]
    exact first.isWorded_script.append (isWorded_linksScript rest)

theorem isWorded_chainScript (c : Option Chain) : (chainScript c).IsWorded := by
  match c with
  | none => exact .fault
  | some c =>
    rw [chainScript]
    exact c.isWorded_script

theorem Predicate.isWorded_script (p : Predicate) : p.script.IsWorded := by
  match p with
  | { chain, negated, fault := none } =>
    rw [Predicate.script]
    exact isWorded_chainScript chain
  | { chain, negated, fault := some f } => exact .fault

theorem isWorded_branchesScript (branches : List Branch) : (branchesScript branches).IsWorded := by
  match branches with
  | [] => exact .nil
  | { guard, result } :: rest =>
    have hresult : IsWorded (result.toList.map fun r => Piece.text r.fragment) := by
      cases result with
      | none => exact .nil
      | some r => exact .piece r.isWorded .nil
    rw [branchesScript]
    exact .keyword (by decide) ((isWorded_negatable guard.isWorded_script guard.negated).append
      (.keyword (by decide) (hresult.append (isWorded_branchesScript rest))))

theorem CaseColumn.isWorded_script (c : CaseColumn) : c.script.IsWorded := by
  match c with
  | { branches, otherwise, label, fault := some f } => exact .fault
  | { branches := [], otherwise, label, fault := none } => exact .fault
  | { branches := b :: rest, otherwise, label, fault := none } =>
    obtain ⟨tail, htail, heq⟩ := labelled_eq_append
      (.keyword "CASE" ::
        (branchesScript (b :: rest) ++ otherwiseScript otherwise ++ [.keyword " END"])) label
    -- This equation asks for a branch.
    rw [CaseColumn.script, heq]
    · exact .append (.keyword (by decide) (((isWorded_branchesScript (b :: rest)).append
        (isWorded_otherwiseScript otherwise)).append (.keyword (by decide) .nil))) htail.isWorded
    · simp

theorem Column.isWorded_script (c : Column) : c.script.IsWorded := by
  match c with
  | .plain name label =>
    rw [Column.script]
    exact (IsStatic.labelled (.verbatim .nil) label).isWorded
  | .aggregate a =>
    rw [Column.script]
    exact a.isStatic_script.isWorded
  | .case c =>
    rw [Column.script]
    exact c.isWorded_script

theorem isWorded_columnScripts (columns : List Column) :
    ∀ s ∈ columnScripts columns, s.IsWorded := by
  match columns with
  | [] => simp [columnScripts]
  | c :: rest =>
    rw [columnScripts]
    exact List.forall_mem_cons.mpr ⟨c.isWorded_script, isWorded_columnScripts rest⟩

theorem isWorded_columnsScript (columns : List Column) : (columnsScript columns).IsWorded := by
  match columns with
  | [] => exact .keyword (by decide) .nil
  | c :: rest =>
    rw [columnsScript]
    exact .commaList (List.forall_mem_cons.mpr ⟨c.isWorded_script, isWorded_columnScripts rest⟩)

theorem Source.isWorded_script (s : Source) : s.script.IsWorded := by
  match s with
  | .table name => exact .verbatim .nil
  | .subquery s =>
    rw [Source.script]
    exact s.isWorded_script.inParens

theorem isWorded_sourceScript (source : Option Source) : (sourceScript source).IsWorded := by
  match source with
  | none => exact .fault
  | some (.table name) =>
    rw [sourceScript]
    split
    · exact .fault
    · exact .verbatim .nil
  | some (.subquery s) =>
    rw [sourceScript]
    exact s.isWorded_script.inParens

theorem Join.isWorded_script (j : Join) : j.script.IsWorded := by
  match j with
  | { kind, target, label, condition } =>
    have hwords : IsPlain (kind.text ++ " JOIN ").toList := by cases kind <;> decide
    rw [Join.script]
    exact .keyword hwords ((target.isWorded_script.append
      (isStatic_joinLabelScript label).isWorded).append (isStatic_joinConditionScript condition).isWorded)

theorem isWorded_joinsScript (joins : List Join) : (joinsScript joins).IsWorded := by
  match joins with
  | [] => exact .nil
  | j :: rest =>
    rw [joinsScript]
    exact .keyword (by decide) (j.isWorded_script.append (isWorded_joinsScript rest))

theorem isWorded_havingScript (having : Option Predicate) : (havingScript having).IsWorded := by
  match having with
  | none => exact .nil
  | some p =>
    rw [havingScript]
    exact .keyword (by decide) (isWorded_negatable p.isWorded_script p.negated)

theorem Query.isWorded_script (q : Query) : q.script.IsWorded := by
  match q with
  | { columns, distinct, source, sourceLabel, joins, filter, groupBy, having, orderBy, limit,
      offset } =>
    have hselect : IsPlain (if distinct then "SELECT DISTINCT " else "SELECT ").toList := by
      cases distinct <;> decide
    have hfilter := isWorded_whereClause filter.isWorded_script
    have hsource := ((isWorded_sourceScript source).append
      (isStatic_sourceLabelScript sourceLabel).isWorded).append (isWorded_joinsScript joins)
    have hgroup := (isStatic_groupScript groupBy).isWorded.append (isWorded_havingScript having)
    have horder := (isWorded_orderScript orderBy).append (isStatic_pageScript limit offset).isWorded
    rw [Query.script_mk]
    refine .keyword hselect ((isWorded_columnsScript columns).append (.keyword (by decide) ?_))
    -- The clauses were put together in three groups, and the script nests them one by one.
    simpa only [List.append_assoc] using hsource.append (hfilter.append (hgroup.append horder))

theorem isWorded_unionsScript (unions : List UnitedQuery) : (unionsScript unions).IsWorded := by
  match unions with
  | [] => exact .nil
  | { kind, query } :: rest =>
    have hwords : IsPlain kind.words.toList := by cases kind <;> decide
    rw [unionsScript]
    exact .keyword hwords (query.isWorded_script.append (isWorded_unionsScript rest))

theorem Select.isWorded_script (s : Select) : s.script.IsWorded := by
  match s with
  | { head, unions, cursor, fault := some f } => exact .fault
  | { head, unions, cursor, fault := none } =>
    rw [Select.script]
    exact head.isWorded_script.append (isWorded_unionsScript unions)

end

/-! ## Statements -/

theorem Cell.isWorded_script (c : Cell) : c.script.IsWorded := by
  cases c with
  | null => exact .keyword (by decide) .nil
  | bound p => exact .placeholder .nil
  | inlined v => exact .piece (isWorded_ofExcept_literal v) .nil

theorem Batch.isWorded_script (b : Batch) : b.script.IsWorded := by
  have hrows : IsWorded (commaList (b.rows.map rowScript)) := by
    refine .commaList ?_
    intro s hs
    obtain ⟨row, -, rfl⟩ := List.mem_map.mp hs
    refine .inParens (.commaList ?_)
    intro t ht
    obtain ⟨c, -, rfl⟩ := List.mem_map.mp ht
    exact c.isWorded_script
  unfold Batch.script
  split
  · exact .fault
  · exact (IsStatic.nameList b.columns).isWorded.inParens.append (.keyword (by decide) hrows)

theorem Assignment.isWorded_script (a : Assignment) : a.script.IsWorded := by
  unfold Assignment.script
  split
  · exact .fault
  · split
    · rename_i cell _
      exact .verbatim (.keyword (by decide) cell.isWorded_script)
    · exact .fault

theorem Insert.isWorded_script (i : Insert) : i.script.IsWorded := by
  unfold Insert.script
  split
  · exact .fault
  · split
    · exact .fault
    · split
      · exact .keyword (by decide) (.verbatim (.keyword (by decide) i.batch.isWorded_script))
      · exact .fault

theorem Update.isWorded_script (u : Update) : u.script.IsWorded := by
  have hassignments : IsWorded (commaList (u.assignments.map Assignment.script)) := by
    refine .commaList ?_
    intro s hs
    obtain ⟨a, -, rfl⟩ := List.mem_map.mp hs
    exact a.isWorded_script
  unfold Update.script
  split
  · exact .fault
  · split
    · exact .fault
    · exact .keyword (by decide) (.verbatim (.keyword (by decide)
        (hassignments.append (isWorded_whereClause u.filter.isWorded_script))))

theorem Delete.isWorded_script (d : Delete) : d.script.IsWorded := by
  unfold Delete.script
  split
  · exact .fault
  · exact .keyword (by decide) (.verbatim (isWorded_whereClause d.filter.isWorded_script))

/-- All words of a statement are plain. -/
theorem Statement.isWorded_script (s : Statement) : s.script.IsWorded := by
  cases s with
  | select s => exact s.isWorded_script
  | insert i => exact i.isWorded_script
  | update u => exact u.isWorded_script
  | delete d => exact d.isWorded_script

end BoundSql
