import BoundSql.Proofs.Alignment
import BoundSql.Proofs.Masking
import BoundSql.Proofs.Places

/-!
# `BoundSql.Proofs.CopiedTexts` — where copied text comes from

What a caller has to promise about copied text is said of the pieces of a script. The caller gives names,
expressions and delimiters, though, and never sees a script. Here each copied piece is traced back to the
part of the statement whose text it is, so that a promise about the texts of all parts is one about the
script.

## Contents
- **`Script.copied`** are the copied fragments of a script, with a lemma per combinator and clause.
- **`Node.texts`** are the texts of a part that are copied when it is rendered.
- **`Node.mem_copied_script`** goes one level down: a fragment copied for a part is one of its own texts, or is
  copied for one of its parts. **`Node.exists_contains_of_mem_copied`** goes all the way.
- **`Node.forall_mem_script`** carries laws of texts over to scripts. **`Statement.isSafe_script`** and
  **`Statement.leavesOutside_script`** are the two promises, and **`CaseResult.isSafe_of_quoted`** says which
  texts given to a CASE need none.
-/

namespace BoundSql

/-! ## Copied fragments -/

/-- The fragment of a piece, if it copies text of the caller. -/
def Piece.copied? : Piece → Option Fragment
  | .text (.verbatim s) => some (.verbatim s)
  | .text (.delimiter s) => some (.delimiter s)
  | .text (.keyword _) | .text (.literal _) | .placeholder _ | .fault _ => none

theorem Piece.eq_of_copied? {piece : Piece} {f : Fragment} (h : piece.copied? = some f) :
    piece = .text f := by
  unfold copied? at h
  split at h <;> cases h <;> rfl

/-- Names are copied as they are. -/
def copiedNames (names : List String) : List Fragment :=
  names.map .verbatim

@[simp] theorem mem_copiedNames {names : List String} {f : Fragment} :
    f ∈ copiedNames names ↔ ∃ name ∈ names, f = .verbatim name := by
  simp only [copiedNames, List.mem_map, eq_comm]

namespace Script

/-- The fragments of a script that copy text of the caller. -/
def copied (s : Script) : List Fragment :=
  s.filterMap Piece.copied?

/-- A law of pieces that only copied text can break holds of a script if it holds of its copied fragments. -/
theorem forall_mem_iff_copied {Q : Piece → Prop} (hQ : ∀ piece : Piece, piece.copied? = none → Q piece)
    {s : Script} : (∀ piece ∈ s, Q piece) ↔ ∀ f ∈ s.copied, Q (.text f) := by
  constructor
  · intro h f hf
    obtain ⟨piece, hmem, hpiece⟩ := List.mem_filterMap.mp hf
    exact Piece.eq_of_copied? hpiece ▸ h piece hmem
  · intro h piece hmem
    cases hpiece : piece.copied? with
    | none => exact hQ piece hpiece
    | some f =>
      have hf := h f (List.mem_filterMap.mpr ⟨piece, hmem, hpiece⟩)
      rwa [Piece.eq_of_copied? hpiece]

@[simp] theorem copied_nil : copied [] = [] := rfl

@[simp] theorem copied_append (a b : Script) : copied (a ++ b) = copied a ++ copied b :=
  List.filterMap_append

@[simp] theorem copied_keyword (words : String) (s : Script) : copied (.keyword words :: s) = copied s := rfl

@[simp] theorem copied_verbatim (name : String) (s : Script) :
    copied (.verbatim name :: s) = .verbatim name :: copied s := rfl

@[simp] theorem copied_placeholder (p : BoundParam) (s : Script) : copied (.placeholder p :: s) = copied s := rfl

@[simp] theorem copied_fault (f : Fault) (s : Script) : copied (.fault f :: s) = copied s := rfl

/-- What stands between scripts is not the caller's. -/
@[simp] theorem copied_separated (separator : String) :
    ∀ scripts : List Script, copied (separated separator scripts) = scripts.flatMap copied
  | [] => rfl
  | [s] => (List.append_nil _).symm
  | s :: t :: rest => by
    rw [separated, copied_append, copied_keyword, copied_separated separator (t :: rest),
      List.flatMap_cons (x := s)]

@[simp] theorem copied_commaList (scripts : List Script) :
    copied (commaList scripts) = scripts.flatMap copied :=
  copied_separated ", " scripts

@[simp] theorem copied_inParens (s : Script) : copied s.inParens = copied s := by
  simp [inParens]

/-- Names between separators. -/
@[simp] theorem flatMap_copied_names (names : List String) :
    (names.map fun name => [Piece.verbatim name]).flatMap copied = copiedNames names := by
  rw [List.flatMap_map, copiedNames, List.map_eq_flatMap]
  rfl

@[simp] theorem copied_nameList (names : List String) : copied (nameList names) = copiedNames names := by
  rw [nameList, copied_commaList, flatMap_copied_names]

end Script

open Script

/-! ## Texts of parts -/

/-- The texts of a label, of which there is at most one. -/
def labelTexts (label : Option String) : List Fragment :=
  copiedNames label.toList

/-- The texts of an argument: expressions, and the delimiter between the values of two rows. -/
def Argument.texts : Argument → List Fragment
  | .expression e => copiedNames [e]
  | .concatenation es delimiter => copiedNames es ++ [.delimiter delimiter]

/-- The texts behind the closing parenthesis of a function. -/
def Trailing.texts : Trailing → List Fragment
  | .words s => copiedNames [s]
  | .withinGroup columns => copiedNames columns

/-- The texts of an aggregate. -/
def Aggregate.texts (a : Aggregate) : List Fragment :=
  a.argument.texts ++ a.trailing.toList.flatMap Trailing.texts ++ labelTexts a.label

/-- The text of a result of a CASE, unless it is written as a literal or as a number. -/
def CaseResult.texts (r : CaseResult) : List Fragment :=
  (Piece.text r.fragment).copied?.toList

/-- The texts of a CASE, except those in its guards. -/
def CaseColumn.texts (c : CaseColumn) : List Fragment :=
  (c.branches.flatMap fun b => b.result.toList.flatMap CaseResult.texts) ++
    c.otherwise.toList.flatMap CaseResult.texts ++ labelTexts c.label

/-- The texts of a column. -/
def Column.texts : Column → List Fragment
  | .plain name label => copiedNames [name] ++ labelTexts label
  | .aggregate a => a.texts
  | .case c => c.texts

/-- The texts of a join, except those of what is joined. -/
def Join.texts (j : Join) : List Fragment :=
  labelTexts j.label ++ j.condition.toList.flatMap fun p => copiedNames [p.source, p.target]

/-- The texts of the clauses of a query that belong to none of its parts. -/
def Query.texts (q : Query) : List Fragment :=
  labelTexts q.sourceLabel ++ q.joins.flatMap Join.texts ++ copiedNames q.groupBy ++
    copiedNames (q.orderBy.map (·.column))

/-- The names of the table and the columns that a statement changes. -/
def Statement.texts : Statement → List Fragment
  | .select _ => []
  | .insert i => copiedNames (i.table :: i.batch.columns)
  | .update u => copiedNames (u.table :: u.assignments.map (·.column))
  | .delete d => copiedNames [d.table]

namespace Node

/-- The texts of the node itself. -/
def texts : Node → List Fragment
  | statement s => s.texts
  | query q => q.texts
  | column c => c.texts
  | source (.table name) => copiedNames [name]
  | term (.comparison c) => copiedNames [c.field]
  | select _ | source (.subquery _) | predicate _ | term (.group _) | operand _ _ | row _ | cell _ => []

/-- The node laid out. -/
def script : Node → Script
  | statement s => s.script
  | select s => s.script
  | query q => q.script
  | column c => c.script
  | source s => s.script
  | predicate p => p.script
  | term t => t.script
  | operand op o => o.comparand op
  | row cells => rowScript cells
  | cell c => c.script

end Node

/-! ## Clauses -/

theorem copied_labelled_subset (s : Script) (label : Option String) :
    copied (labelled s label) ⊆ copied s ++ labelTexts label := by
  cases label with
  | none => exact List.subset_append_left _ _
  | some label =>
    rw [labelled]
    split
    · exact List.subset_append_left _ _
    · rw [copied_append]
      exact fun _ hf => hf

theorem copied_sourceLabelScript_subset (label : Option String) :
    copied (sourceLabelScript label) ⊆ labelTexts label := by
  cases label with
  | none => exact List.nil_subset _
  | some label =>
    rw [sourceLabelScript]
    split
    · exact List.nil_subset _
    · exact fun _ hf => hf

theorem copied_joinLabelScript (label : Option String) : copied (joinLabelScript label) = labelTexts label := by
  cases label <;> rfl

theorem copied_joinConditionScript (condition : Option ColumnPair) :
    copied (joinConditionScript condition) =
      condition.toList.flatMap fun p => copiedNames [p.source, p.target] := by
  cases condition <;> rfl

theorem Argument.copied_script (a : Argument) : copied a.script = a.texts := by
  cases a with
  | expression e => rfl
  | concatenation es delimiter =>
    rw [Argument.script, copied_append, copied_separated, flatMap_copied_names]
    rfl

theorem Trailing.copied_script_subset (t : Trailing) : copied t.script ⊆ t.texts := by
  cases t with
  | words s =>
    rw [Trailing.script]
    split
    · exact List.nil_subset _
    · exact fun _ hf => hf
  | withinGroup columns =>
    rw [Trailing.script, copied_keyword, copied_append, copied_nameList, copied_keyword, copied_nil,
      List.append_nil]
    exact fun _ hf => hf

theorem Aggregate.copied_script_subset (a : Aggregate) : copied a.script ⊆ a.texts := by
  have htrailing : copied ((a.trailing.map Trailing.script).getD []) ⊆
      a.trailing.toList.flatMap Trailing.texts := by
    cases a.trailing with
    | none => exact List.nil_subset _
    | some t => exact fun f hf => List.mem_append_left _ (t.copied_script_subset hf)
  intro f hf
  have hparts := copied_labelled_subset _ _ hf
  simp only [copied_keyword, copied_append, copied_nil, List.append_nil, a.argument.copied_script,
    List.mem_append] at hparts
  simp only [Aggregate.texts, List.mem_append]
  exact hparts.imp_left (Or.imp_right (htrailing ·))

theorem copied_groupScript (columns : List String) : copied (groupScript columns) = copiedNames columns := by
  unfold groupScript
  split
  · rename_i h
    rw [List.isEmpty_iff.mp h]
    rfl
  · rw [copied_keyword, copied_nameList]

theorem Order.copied_script_subset (o : Order) : copied o.script ⊆ copiedNames [o.column] := by
  unfold Order.script
  split
  · exact fun _ hf => hf
  · split
    · exact fun _ hf => hf
    · exact List.nil_subset _

theorem copied_orderScript_subset (orders : List Order) :
    copied (orderScript orders) ⊆ copiedNames (orders.map (·.column)) := by
  unfold orderScript
  split
  · exact List.nil_subset _
  · intro f hf
    rw [copied_keyword, copied_commaList, List.flatMap_map] at hf
    obtain ⟨o, ho, hmem⟩ := List.mem_flatMap.mp hf
    rw [mem_copiedNames]
    refine ⟨o.column, List.mem_map_of_mem ho, ?_⟩
    obtain ⟨name, hname, rfl⟩ := mem_copiedNames.mp (o.copied_script_subset hmem)
    rw [List.mem_singleton.mp hname]

theorem copied_pageScript (limit offset : Option Int) : copied (pageScript limit offset) = [] := by
  cases limit <;> rfl

theorem copied_notBefore (negated : Bool) (s : Script) : copied (notBefore negated s) = copied s := by
  cases negated <;> rfl

theorem copied_negatable (negated : Bool) (s : Script) : copied (negatable negated s) = copied s := by
  cases negated with
  | false => rfl
  | true => rw [negatable, if_pos rfl, copied_keyword, copied_inParens]

theorem copied_sentence (field : String) (op : Operator) (negated : Bool) (right : Script) :
    copied (sentence field op negated right) = .verbatim field :: copied right := by
  unfold sentence
  split
  · rfl
  · rw [copied_notBefore]
    rfl

theorem copied_nullTest_subset (field : String) (op : Operator) (negated : Bool) :
    copied (nullTest field op negated) ⊆ copiedNames [field] := by
  unfold nullTest
  split
  · rw [copied_notBefore]
    exact fun _ hf => hf
  · rw [copied_notBefore]
    exact fun _ hf => hf
  · exact List.nil_subset _

theorem copied_whereClause_subset (p : Predicate) : copied p.whereClause ⊆ copied p.script := by
  unfold Predicate.whereClause
  split
  · rw [Predicate.clause, copied_keyword, copied_negatable]
    exact fun _ hf => hf
  · exact List.nil_subset _

/-- A result of a CASE behind the word in front of it. -/
theorem copied_result (r : CaseResult) (s : Script) : copied (.text r.fragment :: s) = r.texts ++ copied s := by
  rw [CaseResult.texts, copied, List.filterMap_cons]
  cases (Piece.text r.fragment).copied? <;> rfl

theorem copied_otherwiseScript_subset (result : Option CaseResult) :
    copied (otherwiseScript result) ⊆ result.toList.flatMap CaseResult.texts := by
  cases result with
  | none => exact List.nil_subset _
  | some r =>
    rw [otherwiseScript]
    split
    · exact List.nil_subset _
    · rw [copied_keyword, copied_result]
      exact fun _ hf => hf

/-! ### Values have no copied text -/

theorem Value.copied_literal (v : Value) : copied [.ofExcept v.literal] = [] := by
  cases v with
  | float x =>
    rw [Value.literal]
    split <;> rfl
  | null | bool b | int i | text s => rfl

theorem Value.copied_comparand (op : Operator) (v : Value) : copied [.ofExcept (v.comparand op)] = [] := by
  cases v with
  | float x =>
    rw [Value.comparand]
    split
    · exact (Value.float x).copied_literal
    · rfl
  | null | bool b | int i | text s => rfl

theorem Param.copied_comparand (op : Operator) (p : Param) : copied (p.comparand op) = [] := by
  unfold Param.comparand
  split
  · split <;> rfl
  · rfl
  · rfl
  · rw [copied_inParens, copied_commaList, List.flatMap_map]
    exact List.flatMap_eq_nil_iff.mpr fun _ _ => rfl
  · rfl
  · rfl
  · rfl

theorem Value.copied_comparandOf (op : Operator) (v : Value) : copied (v.comparandOf op) = [] := by
  unfold Value.comparandOf
  split
  · rfl
  · rfl
  · exact v.copied_comparand _

theorem copied_listComparand (op : Operator) (vs : List Value) : copied (listComparand op vs) = [] := by
  unfold listComparand
  split
  · rename_i a b
    show copied ([.ofExcept (a.comparand .between)] ++
      .keyword " AND " :: [.ofExcept (b.comparand .between)]) = []
    rw [copied_append, copied_keyword, a.copied_comparand, b.copied_comparand, List.append_nil]
  · rfl
  · rfl
  · rw [copied_inParens, copied_commaList, List.flatMap_map]
    exact List.flatMap_eq_nil_iff.mpr fun v _ => v.copied_comparand .oneOf
  · rfl

theorem Cell.copied_script (c : Cell) : copied c.script = [] := by
  cases c with
  | null | bound p => rfl
  | inlined v => exact v.copied_literal

theorem copied_rowScript (row : List Cell) : copied (rowScript row) = [] := by
  rw [rowScript, copied_inParens, copied_commaList, List.flatMap_map]
  exact List.flatMap_eq_nil_iff.mpr fun c _ => c.copied_script

/-! ## Parts -/

namespace Node

variable {f : Fragment}

theorem mem_copied_statement {s : Statement} (h : f ∈ copied s.script) :
    f ∈ s.texts ∨ ∃ c ∈ (statement s).children, f ∈ copied c.script := by
  cases s with
  | select s => exact .inr ⟨select s, List.mem_singleton_self _, h⟩
  | insert i =>
    refine .inl ?_
    have hbatch : copied i.batch.script ⊆ copiedNames i.batch.columns := by
      unfold Batch.script
      split
      · exact List.nil_subset _
      · have hrows : (i.batch.rows.map rowScript).flatMap copied = [] := by
          rw [List.flatMap_map]
          exact List.flatMap_eq_nil_iff.mpr fun row _ => copied_rowScript row
        rw [copied_append, copied_inParens, copied_nameList, copied_keyword, copied_commaList, hrows,
          List.append_nil]
        exact fun _ hf => hf
    rw [Statement.script, Insert.script] at h
    split at h
    · cases h
    · split at h
      · cases h
      · split at h
        · rcases List.mem_cons.mp h with rfl | h
          · exact List.mem_cons_self
          · exact List.mem_cons_of_mem _ (hbatch h)
        · cases h
  | update u =>
    have hassignments : (u.assignments.map Assignment.script).flatMap copied ⊆
        copiedNames (u.assignments.map (·.column)) := by
      intro g hg
      rw [List.flatMap_map] at hg
      obtain ⟨a, ha, hmem⟩ := List.mem_flatMap.mp hg
      refine mem_copiedNames.mpr ⟨a.column, List.mem_map_of_mem ha, ?_⟩
      unfold Assignment.script at hmem
      split at hmem
      · cases hmem
      · split at hmem
        · rename_i cell _
          rw [copied_verbatim, copied_keyword, cell.copied_script] at hmem
          exact List.mem_singleton.mp hmem
        · cases hmem
    rw [Statement.script, Update.script] at h
    split at h
    · cases h
    · split at h
      · cases h
      · rw [copied_keyword, copied_verbatim, copied_keyword, copied_append, copied_commaList] at h
        rcases List.mem_cons.mp h with rfl | h
        · exact .inl List.mem_cons_self
        · rcases List.mem_append.mp h with h | h
          · exact .inl (List.mem_cons_of_mem _ (hassignments h))
          · refine .inr ⟨predicate u.filter, ?_, copied_whereClause_subset u.filter h⟩
            exact List.mem_append_right _ (List.mem_singleton_self _)
  | delete d =>
    rw [Statement.script, Delete.script] at h
    split at h
    · cases h
    · rcases List.mem_cons.mp h with rfl | h
      · exact .inl List.mem_cons_self
      · exact .inr ⟨predicate d.filter, List.mem_singleton_self _, copied_whereClause_subset d.filter h⟩

theorem copied_unionsScript (unions : List UnitedQuery) :
    copied (unionsScript unions) = unions.flatMap fun u => copied u.query.script := by
  induction unions with
  | nil => rfl
  | cons u rest ih =>
    obtain ⟨kind, query⟩ := u
    rw [unionsScript, copied_keyword, copied_append, ih, List.flatMap_cons]

theorem mem_copied_select {s : Select} (h : f ∈ copied s.script) :
    ∃ c ∈ (select s).children, f ∈ copied c.script := by
  obtain ⟨head, unions, cursor, fault⟩ := s
  cases fault with
  | some g =>
    rw [Select.script] at h
    cases h
  | none =>
    rw [Select.script, copied_append, copied_unionsScript] at h
    rcases List.mem_append.mp h with h | h
    · exact ⟨query head, List.mem_cons_self, h⟩
    · obtain ⟨u, hu, hmem⟩ := List.mem_flatMap.mp h
      exact ⟨query u.query, List.mem_cons_of_mem _ (List.mem_map_of_mem (List.mem_map_of_mem hu)), hmem⟩

theorem copied_linksScript (links : List Link) :
    copied (linksScript links) = links.flatMap fun l => copied l.term.script := by
  induction links with
  | nil => rfl
  | cons l rest ih =>
    obtain ⟨connective, term⟩ := l
    rw [linksScript, copied_keyword, copied_append, ih, List.flatMap_cons]

theorem mem_copied_predicate {p : Predicate} (h : f ∈ copied p.script) :
    ∃ c ∈ (predicate p).children, f ∈ copied c.script := by
  obtain ⟨chain, negated, fault⟩ := p
  cases fault with
  | some g =>
    rw [Predicate.script] at h
    cases h
  | none =>
    cases chain with
    | none => cases h
    | some c =>
      obtain ⟨first, rest⟩ := c
      rw [Predicate.script, chainScript, Chain.script, copied_append, copied_linksScript] at h
      rcases List.mem_append.mp h with h | h
      · exact ⟨term first, List.mem_cons_self, h⟩
      · obtain ⟨l, hl, hmem⟩ := List.mem_flatMap.mp h
        exact ⟨term l.term, List.mem_cons_of_mem _ (List.mem_map_of_mem (List.mem_map_of_mem hl)), hmem⟩

theorem mem_copied_term {t : Term} (h : f ∈ copied t.script) :
    f ∈ (term t).texts ∨ ∃ c ∈ (term t).children, f ∈ copied c.script := by
  cases t with
  | group p =>
    rw [Term.script, grouped, copied_notBefore, copied_inParens] at h
    exact .inr ⟨predicate p, List.mem_singleton_self _, h⟩
  | comparison c =>
    obtain ⟨field, operator, operand, negated⟩ := c
    rw [Term.script] at h
    cases operand with
    | null =>
      rw [Comparison.script] at h
      exact .inl (copied_nullTest_subset field operator negated h)
    | bound p | inlined v | inlinedList vs | subquery s =>
      rw [Comparison.script, copied_sentence] at h
      · rcases List.mem_cons.mp h with rfl | h
        · exact .inl List.mem_cons_self
        · exact .inr ⟨_, List.mem_singleton_self _, h⟩
      · simp

theorem mem_copied_operand {op : Operator} {o : Operand} (h : f ∈ copied (o.comparand op)) :
    ∃ c ∈ (operand op o).children, f ∈ copied c.script := by
  cases o with
  | null =>
    rw [Operand.comparand] at h
    cases h
  | bound p =>
    rw [Operand.comparand, p.copied_comparand] at h
    cases h
  | inlined v =>
    rw [Operand.comparand, v.copied_comparandOf] at h
    cases h
  | inlinedList vs =>
    rw [Operand.comparand, copied_listComparand] at h
    cases h
  | subquery s =>
    rw [Operand.comparand] at h
    split at h
    · rw [copied_inParens] at h
      exact ⟨select s, List.mem_singleton_self _, h⟩
    · cases h

theorem mem_copied_branchesScript {branches : List Branch} (h : f ∈ copied (branchesScript branches)) :
    f ∈ (branches.flatMap fun b => b.result.toList.flatMap CaseResult.texts) ∨
      ∃ b ∈ branches, f ∈ copied b.guard.script := by
  induction branches with
  | nil => cases h
  | cons b rest ih =>
    obtain ⟨guard, result⟩ := b
    have hresult (s : Script) : copied (result.toList.map (fun r => Piece.text r.fragment) ++ s) =
        result.toList.flatMap CaseResult.texts ++ copied s := by
      cases result with
      | none => rfl
      | some r => exact (copied_result r s).trans (congrArg (· ++ _) (List.append_nil _).symm)
    rw [branchesScript, copied_keyword, copied_append, copied_negatable, copied_keyword, hresult] at h
    rw [List.flatMap_cons]
    rcases List.mem_append.mp h with h | h
    · exact .inr ⟨_, List.mem_cons_self, h⟩
    · rcases List.mem_append.mp h with h | h
      · exact .inl (List.mem_append_left _ h)
      · rcases ih h with h | ⟨b, hb, hmem⟩
        · exact .inl (List.mem_append_right _ h)
        · exact .inr ⟨b, List.mem_cons_of_mem _ hb, hmem⟩

theorem mem_copied_column {c : Column} (h : f ∈ copied c.script) :
    f ∈ c.texts ∨ ∃ d ∈ (column c).children, f ∈ copied d.script := by
  cases c with
  | plain name label =>
    rw [Column.script] at h
    exact .inl (copied_labelled_subset _ label h)
  | aggregate a =>
    rw [Column.script] at h
    exact .inl (a.copied_script_subset h)
  | case c =>
    obtain ⟨branches, otherwise, label, fault⟩ := c
    rw [Column.script] at h
    unfold CaseColumn.script at h
    split at h
    · cases h
    · cases h
    · rename_i branches otherwise label hne heq
      cases heq
      have hparts := copied_labelled_subset _ _ h
      simp only [copied_keyword, copied_append, copied_nil, List.append_nil, List.mem_append] at hparts
      rcases hparts with (hbranch | hotherwise) | hlabel
      · rcases mem_copied_branchesScript hbranch with hresult | ⟨b, hb, hguard⟩
        · exact .inl (List.mem_append_left _ (List.mem_append_left _ hresult))
        · exact .inr ⟨predicate b.guard, List.mem_map_of_mem hb, hguard⟩
      · refine .inl (List.mem_append_left _ (List.mem_append_right _ ?_))
        exact copied_otherwiseScript_subset _ hotherwise
      · exact .inl (List.mem_append_right _ hlabel)

theorem mem_copied_source {s : Source} (h : f ∈ copied s.script) :
    f ∈ (source s).texts ∨ ∃ c ∈ (source s).children, f ∈ copied c.script := by
  cases s with
  | table name =>
    rw [Source.script] at h
    exact .inl h
  | subquery s =>
    rw [Source.script, copied_inParens] at h
    exact .inr ⟨select s, List.mem_singleton_self _, h⟩

theorem copied_columnsScript_subset (columns : List Column) :
    copied (columnsScript columns) ⊆ columns.flatMap fun c => copied c.script := by
  cases columns with
  | nil => exact List.nil_subset _
  | cons c rest =>
    rw [columnsScript, copied_commaList, columnScripts_eq_map, ← List.map_cons, List.flatMap_map]
    exact fun _ hf => hf

theorem copied_sourceScript_subset (s : Option Source) :
    copied (sourceScript s) ⊆ s.toList.flatMap fun s => copied s.script := by
  cases s with
  | none => exact List.nil_subset _
  | some source =>
    cases source with
    | table name =>
      rw [sourceScript]
      split
      · exact List.nil_subset _
      · exact fun _ hf => hf
    | subquery s =>
      rw [sourceScript]
      exact fun _ hf => List.mem_append_left _ hf

theorem mem_copied_joinsScript {joins : List Join} (h : f ∈ copied (joinsScript joins)) :
    f ∈ joins.flatMap Join.texts ∨ ∃ j ∈ joins, f ∈ copied j.target.script := by
  induction joins with
  | nil => cases h
  | cons j rest ih =>
    obtain ⟨kind, target, label, condition⟩ := j
    rw [joinsScript, Join.script, copied_keyword, copied_append, copied_keyword, copied_append, copied_append,
      copied_joinLabelScript, copied_joinConditionScript] at h
    rcases List.mem_append.mp h with h | h
    · rcases List.mem_append.mp h with h | hcondition
      · rcases List.mem_append.mp h with htarget | hlabel
        · exact .inr ⟨_, List.mem_cons_self, htarget⟩
        · exact .inl (List.mem_append_left _ (List.mem_append_left _ hlabel))
      · exact .inl (List.mem_append_left _ (List.mem_append_right _ hcondition))
    · rcases ih h with hrest | ⟨j, hj, hmem⟩
      · exact .inl (List.mem_append_right _ hrest)
      · exact .inr ⟨j, List.mem_cons_of_mem _ hj, hmem⟩

theorem copied_havingScript_subset (having : Option Predicate) :
    copied (havingScript having) ⊆ having.toList.flatMap fun p => copied p.script := by
  cases having with
  | none => exact List.nil_subset _
  | some p =>
    rw [havingScript, copied_keyword, copied_negatable]
    exact fun _ hf => List.mem_append_left _ hf

theorem mem_copied_query {q : Query} (h : f ∈ copied q.script) :
    f ∈ q.texts ∨ ∃ c ∈ (query q).children, f ∈ copied c.script := by
  obtain ⟨columns, distinct, source, sourceLabel, joins, filter, groupBy, having, orderBy, limit,
    offset⟩ := q
  rw [Query.script_mk] at h
  simp only [copied_keyword, copied_append, copied_groupScript, copied_pageScript, List.append_nil,
    List.mem_append] at h
  simp only [Query.texts, children, List.mem_append, List.mem_cons]
  rcases h with hcolumns | ((((((hsource | hlabel) | hjoins) | hfilter) | hgroup) | hhaving) | horder)
  · obtain ⟨c, hc, hmem⟩ := List.mem_flatMap.mp (copied_columnsScript_subset columns hcolumns)
    exact .inr ⟨column c, .inl (.inl (.inl (List.mem_map_of_mem hc))), hmem⟩
  · obtain ⟨t, ht, hmem⟩ := List.mem_flatMap.mp (copied_sourceScript_subset source hsource)
    exact .inr ⟨Node.source t, .inl (.inl (.inr (List.mem_map_of_mem ht))), hmem⟩
  · exact .inl (.inl (.inl (.inl (copied_sourceLabelScript_subset sourceLabel hlabel))))
  · rcases mem_copied_joinsScript hjoins with htexts | ⟨j, hj, hmem⟩
    · exact .inl (.inl (.inl (.inr htexts)))
    · exact .inr ⟨Node.source j.target, .inl (.inr (List.mem_map.mpr ⟨j, hj, rfl⟩)), hmem⟩
  · exact .inr ⟨predicate filter, .inr (.inl rfl), copied_whereClause_subset filter hfilter⟩
  · exact .inl (.inl (.inr hgroup))
  · obtain ⟨p, hp, hmem⟩ := List.mem_flatMap.mp (copied_havingScript_subset having hhaving)
    exact .inr ⟨predicate p, .inr (.inr (List.mem_map_of_mem hp)), hmem⟩
  · exact .inl (.inr (copied_orderScript_subset orderBy horder))

/-- **One level.** A fragment copied for a node is one of its own texts, or is copied for one of its parts. -/
theorem mem_copied_script {n : Node} (h : f ∈ copied n.script) :
    f ∈ n.texts ∨ ∃ c ∈ n.children, f ∈ copied c.script := by
  cases n with
  | statement s => exact mem_copied_statement h
  | select s => exact .inr (mem_copied_select h)
  | query q => exact mem_copied_query h
  | column c => exact mem_copied_column h
  | source s => exact mem_copied_source h
  | predicate p => exact .inr (mem_copied_predicate h)
  | term t => exact mem_copied_term h
  | operand op o => exact .inr (mem_copied_operand h)
  | row cells =>
    have hrow : f ∈ copied (rowScript cells) := h
    rw [copied_rowScript] at hrow
    cases hrow
  | cell c =>
    have hcell : f ∈ copied c.script := h
    rw [c.copied_script] at hcell
    cases hcell

/-- **All levels.** What is copied for a node is a text of the node or of a part of it. -/
theorem exists_contains_of_mem_copied {n : Node} (h : f ∈ copied n.script) :
    ∃ m, n.Contains m ∧ f ∈ m.texts := by
  rcases mem_copied_script h with htexts | ⟨c, hc, hmem⟩
  · exact ⟨n, .self, htexts⟩
  · obtain ⟨m, hm, htexts⟩ := exists_contains_of_mem_copied hmem
    exact ⟨m, .part hc hm, htexts⟩
termination_by sizeOf n
decreasing_by exact sizeOf_lt_of_mem_children hc

/-- A law of pieces that only copied text can break holds of a rendering if it holds of the texts of all
    parts. -/
theorem forall_mem_script {Q : Piece → Prop} (hQ : ∀ piece : Piece, piece.copied? = none → Q piece) {n : Node}
    (h : n.Everywhere fun m => ∀ f ∈ m.texts, Q (.text f)) : ∀ piece ∈ n.script, Q piece := by
  refine (forall_mem_iff_copied hQ).mpr ?_
  intro f hf
  obtain ⟨m, hm, htexts⟩ := exists_contains_of_mem_copied hf
  exact h m hm f htexts

end Node

/-! ## Promises -/

theorem Piece.isSafe_of_copied? {piece : Piece} (h : piece.copied? = none) : piece.IsSafe := by
  cases piece with
  | placeholder p | fault f => trivial
  | text f =>
    cases f with
    | keyword s | literal s => trivial
    | verbatim s | delimiter s => cases h

theorem Piece.leavesOutside_of_copied? {piece : Piece} (h : piece.copied? = none) : piece.LeavesOutside := by
  cases piece with
  | placeholder p | fault f => trivial
  | text f =>
    cases f with
    | keyword s | literal s => trivial
    | verbatim s | delimiter s => cases h

/-- **What a caller promises about texts holds of pieces.** If every text of every part of a statement is
    neutral, or reads as a number, and every delimiter has no single quote and no backslash, then the script
    is safe. -/
theorem Statement.isSafe_script {s : Statement}
    (h : (Node.statement s).Everywhere fun n => ∀ f ∈ n.texts, (Piece.text f).IsSafe) : s.script.IsSafe :=
  Node.forall_mem_script (fun _ => Piece.isSafe_of_copied?) h

/-- In the same way, if every text of every part leaves the scanner outside a literal, so does every piece. -/
theorem Statement.leavesOutside_script {s : Statement}
    (h : (Node.statement s).Everywhere fun n => ∀ f ∈ n.texts, (Piece.text f).LeavesOutside) :
    s.script.LeavesOutside :=
  Node.forall_mem_script (fun _ => Piece.leavesOutside_of_copied?) h

theorem Value.isSafe_literal {v : Value} {f : Fragment} (h : v.literal = .ok f) : (Piece.text f).IsSafe := by
  cases v with
  | float x =>
    rw [Value.literal] at h
    split at h <;> cases h
    trivial
  | null | bool b | int i | text s =>
    cases h
    trivial

/-- Only a text that is given to a CASE unquoted has to keep a promise. -/
theorem CaseResult.isSafe_of_quoted {v : Value} {quoted : Bool} {r : CaseResult} (h : of v quoted = .ok r)
    (hv : ∀ s, v = .text s → quoted = true) : ∀ f ∈ r.texts, (Piece.text f).IsSafe := by
  have hresult : v.result quoted = .ok r.fragment := by
    rw [← map_fragment_of, h]
    rfl
  have hsafe : (Piece.text r.fragment).IsSafe := by
    generalize r.fragment = f at hresult
    unfold Value.result at hresult
    split at hresult
    · rename_i s
      rw [hv s rfl, Bool.true_and] at hresult
      cases hnumeric : isNumericText s with
      | true =>
        rw [hnumeric] at hresult
        cases hresult
        exact .inl hnumeric
      | false =>
        rw [hnumeric] at hresult
        cases hresult
        trivial
    · exact Value.isSafe_literal hresult
  intro f hf
  rw [texts, Option.mem_toList] at hf
  rwa [← Piece.eq_of_copied? hf]

end BoundSql
