import BoundSql.Build.Select
import Mathlib.Data.List.Forall2

/-!
# `BoundSql.Proofs.Edits` — what one edit of a query does

There are many edits, and each does one of few things: it adds something behind what is there, changes
the last element of a list, or puts something in the place of something else. This is said once here, for
all of them, so that what edits keep can be shown without going through them again.

## Contents
- **`Clause`** lists the clauses of a query, `Edit.clause` names the one that an edit belongs to, and
  `Query.only` is a query with nothing but one clause. `Query.only_edit_of_ne` leaves all others alone.
- **`Column.Becomes`** is what an edit makes of a column; `Query.columns_edit`, `Query.targets_edit`,
  `Query.source_edit` and `Query.grouping_edit` say what becomes of the clauses that have parts.
- **`Select.apply_edit_cases`** is the edit of a whole `Select`.
-/

namespace BoundSql

/-! ## Clauses -/

/-- The clauses of a query. -/
inductive Clause where
  /-- The columns with their labels. -/
  | columns
  /-- DISTINCT. -/
  | distinct
  /-- FROM. -/
  | source
  /-- The joins with their conditions. -/
  | joins
  /-- WHERE. -/
  | filter
  /-- GROUP BY and HAVING. -/
  | grouping
  /-- ORDER BY. -/
  | order
  /-- The number of rows that are returned, and of those passed over. -/
  | page
  deriving DecidableEq

/-- The clause that an edit belongs to. -/
def Edit.clause : Edit → Clause
  | .columns _ | .column _ | .labels _ | .withinGroup _ | .onCase _ => .columns
  | .distinct => .distinct
  | .source _ _ => .source
  | .join _ _ _ | .joinCondition _ => .joins
  | .filter _ => .filter
  | .groupBy _ | .having _ => .grouping
  | .orderBy _ => .order
  | .limit _ | .offset _ | .page _ _ => .page

namespace Query

variable {q r : Query} {e : Edit} {c : Clause}

/-- The query with one of its clauses, and nothing else. -/
def only (q : Query) : Clause → Query
  | .columns => { empty with columns := q.columns }
  | .distinct => { empty with distinct := q.distinct }
  | .source => { empty with source := q.source, sourceLabel := q.sourceLabel }
  | .joins => { empty with joins := q.joins }
  | .filter => { empty with filter := q.filter }
  | .grouping => { empty with groupBy := q.groupBy, having := q.having }
  | .order => { empty with orderBy := q.orderBy }
  | .page => { empty with limit := q.limit, offset := q.offset }

/-- A query that gets its own fields is the same. -/
theorem mk_fields (q : Query) :
    (⟨q.columns, q.distinct, q.source, q.sourceLabel, q.joins, q.filter, q.groupBy, q.having, q.orderBy,
      q.limit, q.offset⟩ : Query) = q := by
  cases q
  rfl

/-- An edit leaves the other clauses alone. -/
theorem only_edit_of_ne (h : q.edit e = .ok r) (hc : e.clause ≠ c) : r.only c = q.only c := by
  cases e with
  | labels _ | withinGroup _ | onCase _ | joinCondition _ =>
    obtain ⟨a, -, rfl⟩ := map_eq_ok_iff.mp h
    cases c <;> first | rfl | exact absurd rfl hc
  | groupBy _ | having _ =>
    simp only [edit] at h
    split at h
    · cases h
    · cases h
      cases c <;> first | rfl | exact absurd rfl hc
  | columns _ | column _ | distinct | source _ _ | join _ _ _ | filter _ | orderBy _ | limit _ | offset _
  | page _ _ =>
    cases h
    cases c <;> first | rfl | exact absurd rfl hc

theorem columns_edit_of_ne (h : q.edit e = .ok r) (hc : e.clause ≠ .columns) : r.columns = q.columns := by
  show (r.only .columns).columns = (q.only .columns).columns
  rw [only_edit_of_ne h hc]

theorem source_edit_of_ne (h : q.edit e = .ok r) (hc : e.clause ≠ .source) : r.source = q.source := by
  show (r.only .source).source = (q.only .source).source
  rw [only_edit_of_ne h hc]

theorem joins_edit_of_ne (h : q.edit e = .ok r) (hc : e.clause ≠ .joins) : r.joins = q.joins := by
  show (r.only .joins).joins = (q.only .joins).joins
  rw [only_edit_of_ne h hc]

theorem groupBy_edit_of_ne (h : q.edit e = .ok r) (hc : e.clause ≠ .grouping) :
    r.groupBy = q.groupBy := by
  show (r.only .grouping).groupBy = (q.only .grouping).groupBy
  rw [only_edit_of_ne h hc]

theorem having_edit_of_ne (h : q.edit e = .ok r) (hc : e.clause ≠ .grouping) : r.having = q.having := by
  show (r.only .grouping).having = (q.only .grouping).having
  rw [only_edit_of_ne h hc]

end Query

/-! ## What becomes of the parts of a query -/

/-- What an edit makes of a column that is there: it leaves it alone, renames it, gives it an order of rows, or
    makes a step on it. -/
inductive Column.Becomes (e : Edit) : Column → Column → Prop where
  | same {c : Column} : Becomes e c c
  | relabelled {c : Column} (label : String) : Becomes e c (c.relabel label)
  | ordered {a a' : Aggregate} : Becomes e (.aggregate a) (.aggregate a')
  | stepped {c : CaseColumn} {s : CaseColumn.Step} (h : e = .onCase s) :
      Becomes e (.case c) (.case (c.apply s))

/-- The targets that an edit joins. -/
def Edit.targets : Edit → List Source
  | .join _ target _ => [target]
  | _ => []

/-- A list of which only the last element changes. -/
theorem forall₂_last {α : Type} {R : α → α → Prop} (hrefl : ∀ x, R x x) {l : List α} {a b : α}
    (hlast : l.getLast? = some a) (h : R a b) : List.Forall₂ R l (l.dropLast ++ [b]) := by
  obtain ⟨front, rfl⟩ := List.getLast?_eq_some_iff.mp hlast
  rw [List.dropLast_concat]
  exact List.rel_append (List.forall₂_same.mpr fun x _ => hrefl x) (.cons h .nil)

theorem forall₂_relabel (e : Edit) {columns : List Column} {labels : List String}
    (h : columns.length = labels.length) :
    List.Forall₂ (Column.Becomes e) columns (columns.zipWith (fun c label => c.relabel label) labels) := by
  induction columns generalizing labels with
  | nil => exact .nil
  | cons c rest ih =>
    cases labels with
    | nil => cases h
    | cons label labels => exact .cons (.relabelled label) (ih (Nat.succ.inj h))

namespace Query

variable {q r : Query} {e : Edit}

theorem forall₂_relabelLast {columns renamed : List Column} {labels : List String}
    (h : relabelLast columns labels = .ok renamed) :
    List.Forall₂ (Column.Becomes e) columns renamed := by
  rw [relabelLast] at h
  by_cases hle : labels.length ≤ columns.length
  · rw [if_pos hle] at h
    cases h
    have hkept : List.Forall₂ (Column.Becomes e) (columns.take (columns.length - labels.length))
        (columns.take (columns.length - labels.length)) := List.forall₂_same.mpr fun _ _ => .same
    have hlength : (columns.drop (columns.length - labels.length)).length = labels.length := by
      rw [List.length_drop]
      omega
    conv_lhs => rw [← List.take_append_drop (columns.length - labels.length) columns]
    exact List.rel_append hkept (forall₂_relabel e hlength)
  · rw [if_neg hle] at h
    cases h

theorem forall₂_orderLastWithin {columns ordered : List Column} {order : List String}
    (h : orderLastWithin columns order = .ok ordered) :
    List.Forall₂ (Column.Becomes e) columns ordered := by
  rw [orderLastWithin] at h
  cases hlast : columns.getLast? with
  | none =>
    rw [hlast] at h
    cases h
  | some c =>
    cases c with
    | plain name label | case c =>
      rw [hlast] at h
      cases h
    | aggregate a =>
      simp only [hlast, Column.orderWithin] at h
      cases horder : a.orderWithin order with
      | error f =>
        simp only [horder] at h
        cases h
      | ok a' =>
        simp only [horder] at h
        cases h
        exact forall₂_last (fun _ => .same) hlast .ordered

theorem forall₂_editLastCase {columns edited : List Column} {s : CaseColumn.Step}
    (h : editLastCase columns s = .ok edited) :
    List.Forall₂ (Column.Becomes (.onCase s)) columns edited := by
  rw [editLastCase] at h
  split at h
  · rename_i c hlast
    cases h
    exact forall₂_last (fun _ => .same) hlast (.stepped rfl)
  · cases h

/-- **Columns.** Each of them becomes another one in its place, and plain ones or the given one come
    behind. -/
theorem columns_edit (h : q.edit e = .ok r) :
    ∃ kept added, r.columns = kept ++ added ∧ List.Forall₂ (Column.Becomes e) q.columns kept ∧
      ∀ c ∈ added, e = .column c ∨ ∃ name, c = .plain name none := by
  have hsame : List.Forall₂ (Column.Becomes e) q.columns q.columns := List.forall₂_same.mpr fun _ _ => .same
  by_cases hclause : e.clause = .columns
  · cases e with
    | columns names =>
      cases h
      refine ⟨q.columns, names.map (Column.plain · none), rfl, hsame, ?_⟩
      intro c hc
      obtain ⟨name, -, rfl⟩ := List.mem_map.mp hc
      exact .inr ⟨name, rfl⟩
    | column c =>
      cases h
      refine ⟨q.columns, [c], rfl, hsame, ?_⟩
      intro d hd
      exact .inl (congrArg Edit.column (List.mem_singleton.mp hd).symm)
    | labels labels =>
      obtain ⟨renamed, hrenamed, rfl⟩ := map_eq_ok_iff.mp h
      exact ⟨renamed, [], (List.append_nil _).symm, forall₂_relabelLast hrenamed, nofun⟩
    | withinGroup order =>
      obtain ⟨ordered, hordered, rfl⟩ := map_eq_ok_iff.mp h
      exact ⟨ordered, [], (List.append_nil _).symm, forall₂_orderLastWithin hordered, nofun⟩
    | onCase s =>
      obtain ⟨edited, hedited, rfl⟩ := map_eq_ok_iff.mp h
      exact ⟨edited, [], (List.append_nil _).symm, forall₂_editLastCase hedited, nofun⟩
    | _ => cases hclause
  · rw [columns_edit_of_ne h hclause]
    exact ⟨q.columns, [], (List.append_nil _).symm, hsame, nofun⟩

/-- **Joins.** Targets are added behind those there are. -/
theorem targets_edit (h : q.edit e = .ok r) :
    r.joins.map (·.target) = q.joins.map (·.target) ++ e.targets := by
  by_cases hclause : e.clause = .joins
  · cases e with
    | join kind target label =>
      cases h
      exact List.map_append
    | joinCondition p =>
      obtain ⟨joins, hjoins, rfl⟩ := map_eq_ok_iff.mp h
      rw [conditionLast] at hjoins
      cases hlast : q.joins.getLast? with
      | none =>
        rw [hlast] at hjoins
        cases hjoins
      | some j =>
        rw [hlast] at hjoins
        cases hjoins
        obtain ⟨front, hfront⟩ := List.getLast?_eq_some_iff.mp hlast
        show (q.joins.dropLast ++ [{ j with condition := some p }]).map Join.target = q.joins.map _ ++ []
        simp [hfront]
    | _ => cases hclause
  · have hnone : e.targets = [] := by
      cases e with
      | join kind target label => exact absurd rfl hclause
      | _ => rfl
    rw [joins_edit_of_ne h hclause, hnone, List.append_nil]

/-- **FROM.** The source is replaced as a whole. -/
theorem source_edit (h : q.edit e = .ok r) :
    (∃ s label, e = .source s label ∧ r.source = some s) ∨ r.source = q.source := by
  by_cases hclause : e.clause = .source
  · cases e with
    | source s label =>
      cases h
      exact .inl ⟨s, label, rfl, rfl⟩
    | _ => cases hclause
  · exact .inr (source_edit_of_ne h hclause)

/-- **GROUP BY and HAVING.** No column is taken out of GROUP BY, and HAVING is replaced as a whole, where there
    is GROUP BY. -/
theorem grouping_edit (h : q.edit e = .ok r) :
    q.groupBy <+: r.groupBy ∧
      ((∃ p, e = .having p ∧ r.having = some p ∧ r.groupBy ≠ []) ∨ r.having = q.having) := by
  by_cases hclause : e.clause = .grouping
  · cases e with
    | groupBy columns =>
      cases columns <;> cases h
      exact ⟨List.prefix_append _ _, .inr rfl⟩
    | having p =>
      rw [edit] at h
      by_cases hgroup : q.groupBy = []
      · rw [if_pos (List.isEmpty_iff.mpr hgroup)] at h
        cases h
      · rw [if_neg (mt List.isEmpty_iff.mp hgroup)] at h
        cases h
        exact ⟨List.prefix_rfl, .inl ⟨p, rfl, rfl, hgroup⟩⟩
    | _ => cases hclause
  · rw [groupBy_edit_of_ne h hclause, having_edit_of_ne h hclause]
    exact ⟨List.prefix_rfl, .inr rfl⟩

end Query

/-! ## Edits of a `Select` -/

namespace Select

/-- An edit that fits changes the query under the cursor. -/
theorem apply_edit_of_ok {s : Select} {q q' : Query} {e : Edit} (hq : s.current? = some q)
    (he : q.edit e = .ok q') : s.apply (.edit e) = s.replaceCurrent q' := by
  simp only [apply, editCurrent, hq, he]

/-- An edit that does not fit leaves its fault on the `Select`. -/
theorem apply_edit_of_error {s : Select} {q : Query} {e : Edit} {f : Fault} (hq : s.current? = some q)
    (he : q.edit e = .error f) : s.apply (.edit e) = s.note f := by
  simp only [apply, editCurrent, hq, he]

/-- All that an edit can do: nothing where there is no query, else leave a fault or change the query. -/
theorem apply_edit_cases (s : Select) (e : Edit) :
    (s.current? = none ∧ s.apply (.edit e) = s) ∨
      (∃ q f, s.current? = some q ∧ q.edit e = .error f ∧ s.apply (.edit e) = s.note f) ∨
        ∃ q q', s.current? = some q ∧ q.edit e = .ok q' ∧ s.apply (.edit e) = s.replaceCurrent q' := by
  cases hq : s.current? with
  | none =>
    refine .inl ⟨rfl, ?_⟩
    simp only [apply, editCurrent, hq]
  | some q =>
    cases he : q.edit e with
    | error f => exact .inr (.inl ⟨q, f, rfl, he, apply_edit_of_error hq he⟩)
    | ok q' => exact .inr (.inr ⟨q, q', rfl, he, apply_edit_of_ok hq he⟩)

end Select

end BoundSql
