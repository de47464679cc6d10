import BoundSql.Proofs.Wording

/-!
# `BoundSql.Proofs.Composition` — laws that go from parts to the whole

Several laws of the renderer give each script a list, such as that of the parameters it binds, and are
shown in the same way: text adds nothing to the list, and scripts in a row have their lists in a row. Every
clause that is made of text and of other scripts follows from these two facts, so each clause is gone
through once, for all such laws.

Statements are not all that can be rendered: a caller may also render a comparison, a predicate, a column,
an assignment, a join or a batch by itself. What holds of the renderer holds of each of these parts, and is
said once for all of them.

## Contents
- **`Part`** is anything that is rendered; `Part.script` lays it out and `Part.renderAfter` renders it.
  **`Part.Nests`** says that a query stands in a part under IN, FROM or JOIN.
- **`Script.Composes`** is a law of this kind.
- **Combinators** of scripts: `inParens`, `labelled`, `commaList_cons`, `commaList_map`.
- **Clauses**: one lemma for each place where the scripts of parts stand in that of a whole.
-/

namespace BoundSql

/-! ## Parts -/

/-- Anything that is rendered. -/
inductive Part where
  | comparison (c : Comparison)
  | predicate (p : Predicate)
  | column (c : Column)
  | assignment (a : Assignment)
  | join (j : Join)
  | batch (b : Batch)
  | statement (s : Statement)

namespace Part

/-- The part laid out. -/
def script : Part → Script
  | comparison c => c.script
  | predicate p => p.script
  | column c => c.script
  | assignment a => a.script
  | join j => j.script
  | batch b => b.script
  | statement s => s.script

/-- Renders the part behind parameters that are already bound. -/
def renderAfter (x : Part) (earlier : List BoundParam) : Rendering :=
  x.script.renderAfter earlier

/-- A query stands in a part: as the right side of IN, as the source of one of the united queries, or as
    the target of a join. -/
inductive Nests : Part → Select → Prop where
  | oneOf {field : String} {negated : Bool} {s : Select} :
      Nests (comparison ⟨field, .oneOf, .subquery s, negated⟩) s
  | source {t s : Select} {q : Query} (hq : q ∈ t.queries) (hs : q.source = some (.subquery s)) :
      Nests (statement (.select t)) s
  | join {kind : JoinKind} {s : Select} {label : Option String} {condition : Option ColumnPair} :
      Nests (join ⟨kind, .subquery s, label, condition⟩) s

end Part

/-! ## Laws -/

/-- A relation between scripts and lists that text does not add to, and that concatenation respects. -/
structure Script.Composes {α : Type} (R : Script → List α → Prop) : Prop where
  nil : R [] []
  text : ∀ {f s l}, R s l → R (.text f :: s) l
  append : ∀ {s t l m}, R s l → R t m → R (s ++ t) (l ++ m)

namespace Script.Composes

variable {α : Type} {R : Script → List α → Prop} {s t : Script} {l m : List α}

/-! ## Combinators -/

theorem of_isStatic (hR : Composes R) (h : s.IsStatic) : R s [] := by
  induction s with
  | nil => exact hR.nil
  | cons piece rest ih =>
    obtain ⟨hpiece, hrest⟩ := List.forall_mem_cons.mp h
    cases piece with
    | text f => exact hR.text (ih hrest)
    | placeholder p => exact hpiece.elim
    | fault f => exact hpiece.elim

/-- Static text behind a script adds nothing. -/
theorem append_static (hR : Composes R) (hs : R s l) (ht : t.IsStatic) : R (s ++ t) l := by
  have h := hR.append hs (hR.of_isStatic ht)
  rwa [List.append_nil] at h

theorem inParens (hR : Composes R) (h : R s l) : R s.inParens l :=
  hR.text (hR.append_static h (.keyword (by decide) .nil))

theorem labelled (hR : Composes R) (h : R s l) (label : Option String) : R (labelled s label) l := by
  obtain ⟨tail, htail, heq⟩ := labelled_eq_append s label
  rw [heq]
  exact hR.append_static h htail

/-- Commas add nothing. -/
theorem commaList_cons (hR : Composes R) {scripts : List Script} (hs : R s l)
    (h : R (commaList scripts) m) : R (commaList (s :: scripts)) (l ++ m) := by
  cases scripts with
  | nil =>
    have hs' := hR.append hs h
    rwa [show commaList [] = [] from rfl, List.append_nil] at hs'
  | cons t rest => exact hR.append hs (hR.text h)

theorem commaList_map (hR : Composes R) {β : Type} (script : β → Script) (list : β → List α)
    {items : List β} (h : ∀ b ∈ items, R (script b) (list b)) :
    R (commaList (items.map script)) (items.flatMap list) := by
  induction items with
  | nil => exact hR.nil
  | cons b rest ih =>
    obtain ⟨hb, hrest⟩ := List.forall_mem_cons.mp h
    rw [List.map_cons, List.flatMap_cons]
    exact hR.commaList_cons hb (ih hrest)

theorem commaList_map_nil (hR : Composes R) {β : Type} (script : β → Script) {items : List β}
    (h : ∀ b ∈ items, R (script b) []) : R (commaList (items.map script)) [] := by
  have hlist := hR.commaList_map script (fun _ => []) h
  rwa [List.flatMap_eq_nil_iff.mpr fun _ _ => rfl] at hlist

/-! ## Clauses -/

theorem notBefore (hR : Composes R) (h : R s l) (negated : Bool) : R (notBefore negated s) l := by
  cases negated with
  | false => exact h
  | true => exact hR.text h

theorem negatable (hR : Composes R) (h : R s l) (negated : Bool) : R (negatable negated s) l := by
  cases negated with
  | false => exact h
  | true => exact hR.text (hR.inParens h)

theorem sentence (hR : Composes R) (h : R s l) (field : String) (op : Operator) (negated : Bool) :
    R (sentence field op negated s) l := by
  unfold BoundSql.sentence
  split
  · exact hR.text (hR.text (hR.text h))
  · exact hR.notBefore (hR.text (hR.text h)) negated

/-- A branch of a CASE and those behind it. -/
theorem branches (hR : Composes R) {guard : Predicate} (hguard : R guard.script l)
    (result : Option CaseResult) {rest : List Branch} (hrest : R (branchesScript rest) m) :
    R (branchesScript (⟨guard, result⟩ :: rest)) (l ++ m) := by
  rw [branchesScript]
  refine hR.text (hR.append (hR.negatable hguard guard.negated) ?_)
  cases result with
  | none => exact hR.text hrest
  | some r => exact hR.text (hR.text hrest)

/-- A CASE without a fault, of which only the branches matter. -/
theorem caseColumn (hR : Composes R) {b : Branch} {rest : List Branch}
    (h : R (branchesScript (b :: rest)) l) (otherwise : Option CaseResult) (label : Option String) :
    R (CaseColumn.script ⟨b :: rest, otherwise, label, none⟩) l := by
  have hotherwise : R (otherwiseScript otherwise) [] := by
    cases otherwise with
    | none => exact hR.nil
    | some r =>
      rw [otherwiseScript]
      split
      · exact hR.nil
      · exact hR.text (hR.text hR.nil)
  have hbody := hR.append h hotherwise
  rw [List.append_nil] at hbody
  have hend : R (_ ++ [.keyword " END"]) l := hR.append_static hbody (.keyword (by decide) .nil)
  rw [CaseColumn.script]
  · exact hR.labelled (hR.text hend) label
  · simp

theorem columns (hR : Composes R) {columns : List Column} (h : R (commaList (columnScripts columns)) l) :
    R (columnsScript columns) l := by
  cases columns with
  | nil => exact hR.text h
  | cons c rest =>
    rw [columnScripts] at h
    rw [columnsScript]
    exact h

theorem join (hR : Composes R) {target : Source} (h : R target.script l) (kind : JoinKind)
    (label : Option String) (condition : Option ColumnPair) :
    R (Join.script ⟨kind, target, label, condition⟩) l := by
  have hlabel := hR.append_static h (isStatic_joinLabelScript label)
  rw [Join.script]
  exact hR.text (hR.append_static hlabel (isStatic_joinConditionScript condition))

/-- A query, with the lists of its columns, its source, its joins, WHERE, HAVING and ORDER BY in a row. -/
theorem query (hR : Composes R) {q : Query} {l₁ l₂ l₃ l₄ l₅ l₆ : List α}
    (hcolumns : R (commaList (columnScripts q.columns)) l₁) (hsource : R (sourceScript q.source) l₂)
    (hjoins : R (joinsScript q.joins) l₃) (hfilter : R q.filter.whereClause l₄)
    (hhaving : R (havingScript q.having) l₅) (horder : R (orderScript q.orderBy) l₆) :
    R q.script (l₁ ++ l₂ ++ l₃ ++ l₄ ++ l₅ ++ l₆) := by
  obtain ⟨columns, distinct, source, sourceLabel, joins, filter, groupBy, having, orderBy, limit,
    offset⟩ := q
  have hfrom := hR.append_static hsource (isStatic_sourceLabelScript sourceLabel)
  have hwhere := hR.append (hR.append hfrom hjoins) hfilter
  have hgroup := hR.append_static hwhere (isStatic_groupScript groupBy)
  have hbody := hR.append (hR.append hgroup hhaving) horder
  have hpage := hR.append_static hbody (isStatic_pageScript limit offset)
  have hall := hR.append (hR.columns hcolumns) (hR.text (f := .keyword " FROM ") hpage)
  rw [Query.script_mk]
  simp only [List.append_assoc] at hall ⊢
  exact hR.text hall

end Script.Composes

end BoundSql
