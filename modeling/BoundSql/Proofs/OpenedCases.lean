import BoundSql.Proofs.CaseScripts

/-!
# `BoundSql.Proofs.OpenedCases` — a CASE among the columns of a query

In a SELECT the steps on a CASE stand between other steps. They go to the CASE that was opened last, in the
query under the cursor, and a label can reach it even later, when other columns stand behind it. Here these
steps are picked out of all steps; what they make is the CASE that they would make alone.

## Contents
- **`Edit.caseSteps`** and **`Select.caseSteps`** pick out the steps on a CASE by its place.
- **`Query.column_edit_of_ok`** follows a CASE through one edit, and `Select.column_applyAll` through all steps.
- **`CaseColumn.renderAfter_ofSteps`** is the law of CASE, on its own and in a SELECT.
-/

namespace BoundSql

open Script

/-! ## Steps on the CASE at a place -/

/-- The step that an edit makes on the CASE at position `j`, if it makes one, where a query has so many columns.
    A branch or a result goes to the last column, and labels to the last columns in their order. -/
def Edit.caseSteps (j columns : Nat) : Edit → List CaseColumn.Step
  | .onCase step => if columns = j + 1 then [step] else []
  | .labels names =>
    if names.length ≤ columns ∧ columns ≤ j + names.length then
      (names[j + names.length - columns]?).toList.map .label
    else []
  | _ => []

/-- The number of columns that an edit adds. -/
def Edit.added : Edit → Nat
  | .columns names => names.length
  | .column _ => 1
  | _ => 0

/-- The steps on the CASE at position `j` in the query at position `i`, which has so many columns, among steps
    on a `Select` of `size` queries with the cursor at `cursor`. -/
def Select.caseSteps (i j : Nat) : (cursor size columns : Nat) → List Step → List CaseColumn.Step
  | _, _, _, [] => []
  | cursor, size, columns, .edit e :: rest =>
    if cursor = i then e.caseSteps j columns ++ caseSteps i j cursor size (columns + e.added) rest
    else caseSteps i j cursor size columns rest
  | _, size, columns, .union _ :: rest => caseSteps i j size (size + 1) columns rest
  | _, size, columns, .root :: rest => caseSteps i j 0 size columns rest

/-! ## One edit -/

namespace Query

variable {q q' : Query} {e : Edit} {c : CaseColumn} {j : Nat}

/-- A list with another last element is as long as before. An element stays in its place, unless it is the last
    one. -/
theorem dropLast_append_cases {α : Type} {l : List α} {a x : α} (hlast : l.getLast? = some a)
    (hx : l[j]? = some x) (b : α) :
    (l.dropLast ++ [b]).length = l.length ∧
      ((l.length = j + 1 ∧ a = x ∧ (l.dropLast ++ [b])[j]? = some b) ∨
        (l.length ≠ j + 1 ∧ (l.dropLast ++ [b])[j]? = some x)) := by
  obtain ⟨front, rfl⟩ := List.getLast?_eq_some_iff.mp hlast
  rw [List.dropLast_concat, List.length_append, List.length_append, List.length_singleton, List.length_singleton]
  refine ⟨rfl, ?_⟩
  rcases Nat.lt_trichotomy j front.length with hlt | rfl | hgt
  · rw [List.getElem?_append_left hlt] at hx ⊢
    exact .inr ⟨by omega, hx⟩
  · rw [List.getElem?_concat_length] at hx ⊢
    exact .inl ⟨rfl, Option.some.inj hx, rfl⟩
  · rw [List.getElem?_eq_none (by rw [List.length_append, List.length_singleton]; omega)] at hx
    cases hx

/-- A CASE among columns of which the last ones get names. -/
theorem column_relabelLast {columns renamed : List Column} {names : List String}
    (h : relabelLast columns names = .ok renamed) (hc : columns[j]? = some (.case c)) :
    renamed[j]? = some (.case (((Edit.labels names).caseSteps j columns.length).foldl CaseColumn.apply c)) := by
  obtain ⟨hj, -⟩ := List.getElem?_eq_some_iff.mp hc
  rw [relabelLast] at h
  by_cases hle : names.length ≤ columns.length
  · rw [if_pos hle] at h
    cases h
    have htake : (columns.take (columns.length - names.length)).length = columns.length - names.length :=
      List.length_take_of_le (Nat.sub_le _ _)
    rw [Edit.caseSteps]
    by_cases hreached : columns.length ≤ j + names.length
    · have hplace : j - (columns.length - names.length) = j + names.length - columns.length := by omega
      have hindex : columns.length - names.length + (j + names.length - columns.length) = j := by omega
      have hname : j + names.length - columns.length < names.length := by omega
      rw [if_pos ⟨hle, hreached⟩, List.getElem?_append_right (by omega), htake, hplace, List.getElem?_zipWith,
        List.getElem?_drop, hindex, hc, List.getElem?_eq_getElem hname]
      rfl
    · rw [if_neg fun h => hreached h.2, List.getElem?_append_left (by omega), List.getElem?_take_of_lt (by omega)]
      exact hc
  · rw [if_neg hle] at h
    cases h

/-- A CASE among columns of which the last one gets an order of rows. This is never the CASE. -/
theorem column_orderLastWithin {columns ordered : List Column} {order : List String}
    (h : orderLastWithin columns order = .ok ordered) (hc : columns[j]? = some (.case c)) :
    ordered[j]? = some (.case c) ∧ ordered.length = columns.length := by
  rw [orderLastWithin] at h
  split at h
  · cases h
  · rename_i d hlast
    split at h
    · rename_i d' horder
      cases h
      obtain ⟨hlength, ⟨-, rfl, -⟩ | ⟨-, hkept⟩⟩ := dropLast_append_cases hlast hc d'
      · cases horder
      · exact ⟨hkept, hlength⟩
    · cases h

/-- A CASE among columns of which the last one, which is a CASE, is given a step. -/
theorem column_editLastCase {columns edited : List Column} {step : CaseColumn.Step}
    (h : editLastCase columns step = .ok edited) (hc : columns[j]? = some (.case c)) :
    edited[j]? = some (.case (((Edit.onCase step).caseSteps j columns.length).foldl CaseColumn.apply c)) ∧
      edited.length = columns.length := by
  rw [editLastCase] at h
  split at h
  · rename_i d hlast
    cases h
    rw [Edit.caseSteps]
    obtain ⟨hlength, ⟨hend, hd, hnew⟩ | ⟨hend, hkept⟩⟩ := dropLast_append_cases hlast hc (.case (d.apply step))
    · cases hd
      rw [if_pos hend]
      exact ⟨hnew, hlength⟩
    · rw [if_neg hend]
      exact ⟨hkept, hlength⟩
  · cases h

/-- An edit carries out its steps on a CASE, which stays in its place. -/
theorem column_edit_of_ok (h : q.edit e = .ok q') (hc : q.columns[j]? = some (.case c)) :
    q'.columns[j]? = some (.case ((e.caseSteps j q.columns.length).foldl CaseColumn.apply c)) ∧
      q'.columns.length = q.columns.length + e.added := by
  obtain ⟨hj, -⟩ := List.getElem?_eq_some_iff.mp hc
  by_cases hclause : e.clause = .columns
  · cases e with
    | columns names =>
      cases h
      refine ⟨(List.getElem?_append_left hj).trans hc, ?_⟩
      rw [List.length_append, List.length_map]
      rfl
    | column d =>
      cases h
      exact ⟨(List.getElem?_append_left hj).trans hc, List.length_append⟩
    | labels names =>
      obtain ⟨renamed, hrenamed, rfl⟩ := map_eq_ok_iff.mp h
      exact ⟨column_relabelLast hrenamed hc, length_relabelLast hrenamed⟩
    | withinGroup order =>
      obtain ⟨ordered, hordered, rfl⟩ := map_eq_ok_iff.mp h
      exact column_orderLastWithin hordered hc
    | onCase step =>
      obtain ⟨edited, hedited, rfl⟩ := map_eq_ok_iff.mp h
      exact column_editLastCase hedited hc
    | _ => cases hclause
  · rw [columns_edit_of_ne h hclause]
    cases e with
    | columns _ | column _ | labels _ | withinGroup _ | onCase _ => exact absurd rfl hclause
    | _ => exact ⟨hc, rfl⟩

/-- An edit that is rejected makes no step on a CASE. -/
theorem caseSteps_of_error {f : Fault} (h : q.edit e = .error f) (hc : q.columns[j]? = some (.case c)) :
    e.caseSteps j q.columns.length = [] ∧ e.added = 0 := by
  cases e with
  | columns _ | column _ => cases h
  | labels names =>
    refine ⟨?_, rfl⟩
    rw [Edit.caseSteps, if_neg]
    rintro ⟨hle, -⟩
    rw [edit, relabelLast, if_pos hle] at h
    cases h
  | onCase step =>
    refine ⟨?_, rfl⟩
    rw [Edit.caseSteps, if_neg]
    intro hlast
    have hcase : q.columns.getLast? = some (.case c) := by
      rw [List.getLast?_eq_getElem?, hlast, Nat.add_sub_cancel, hc]
    rw [edit, editLastCase, hcase] at h
    cases h
  | _ => exact ⟨rfl, rfl⟩

end Query

/-! ## All steps -/

namespace Select

variable {s : Select} {q : Query} {c : CaseColumn} {i j : Nat}

/-- An edit goes to the query under the cursor. -/
theorem column_edit (h : s.cursor < s.size) (hq : s.queries[i]? = some q)
    (hc : q.columns[j]? = some (.case c)) (e : Edit) :
    ∃ q', (s.apply (.edit e)).queries[i]? = some q' ∧
      q'.columns[j]? =
        some (.case ((if s.cursor = i then e.caseSteps j q.columns.length else []).foldl CaseColumn.apply c)) ∧
      q'.columns.length = q.columns.length + if s.cursor = i then e.added else 0 := by
  have hlt : s.cursor < s.queries.length := by
    rw [length_queries]
    exact h
  rcases s.apply_edit_cases e with ⟨hnone, -⟩ | ⟨r, f, hr, hedit, hnote⟩ | ⟨r, r', hr, hedit, hchange⟩
  · rw [current?, List.getElem?_eq_getElem hlt] at hnone
    cases hnone
  · rw [hnote]
    refine ⟨q, hq, ?_⟩
    by_cases hi : s.cursor = i
    · subst hi
      obtain rfl : r = q := Option.some_inj.mp (hr.symm.trans hq)
      obtain ⟨hsteps, hadded⟩ := Query.caseSteps_of_error hedit hc
      rw [if_pos rfl, if_pos rfl, hsteps, hadded]
      exact ⟨hc, rfl⟩
    · rw [if_neg hi, if_neg hi]
      exact ⟨hc, rfl⟩
  · rw [hchange, queries_replaceCurrent]
    by_cases hi : s.cursor = i
    · subst hi
      obtain rfl : r = q := Option.some_inj.mp (hr.symm.trans hq)
      obtain ⟨hcolumn, hlength⟩ := Query.column_edit_of_ok hedit hc
      rw [if_pos rfl, if_pos rfl]
      exact ⟨r', List.getElem?_set_self hlt, hcolumn, hlength⟩
    · rw [if_neg hi, if_neg hi, List.getElem?_set_ne hi]
      exact ⟨q, hq, hc, rfl⟩

/-- A CASE stays in its place, and is made by the steps on it, whatever happens to other columns and queries. -/
theorem column_applyAll (h : s.cursor < s.size) (hq : s.queries[i]? = some q)
    (hc : q.columns[j]? = some (.case c)) (steps : List Step) :
    ∃ q', (s.applyAll steps).queries[i]? = some q' ∧
      q'.columns[j]? =
        some (.case ((caseSteps i j s.cursor s.size q.columns.length steps).foldl CaseColumn.apply c)) := by
  induction steps generalizing s q c with
  | nil => exact ⟨q, hq, hc⟩
  | cons step rest ih =>
    have hcursor := cursor_apply_lt h step
    cases step with
    | edit e =>
      obtain ⟨q', hq', hc', hlength⟩ := column_edit h hq hc e
      have hrest := ih hcursor hq' hc'
      obtain ⟨hsame, hsize⟩ := s.editCurrent_cursor_size e
      rw [apply, hsame, hsize, hlength] at hrest
      rw [caseSteps]
      by_cases hi : s.cursor = i
      · rw [if_pos hi, if_pos hi] at hrest
        rw [if_pos hi, List.foldl_append]
        exact hrest
      · rw [if_neg hi, if_neg hi] at hrest
        rw [if_neg hi]
        exact hrest
    | union k =>
      obtain ⟨hlt, -⟩ := List.getElem?_eq_some_iff.mp hq
      have hunited : (s.unite k).queries[i]? = some q := by
        rw [queries_unite, List.getElem?_append_left hlt, hq]
      have hsize : (s.unite k).size = s.size + 1 := by simp [unite, size]
      have hrest := ih hcursor hunited hc
      rw [apply, hsize] at hrest
      exact hrest
    | root => exact ih hcursor hq hc

end Select

/-! ## The text -/

/-- The columns of a query that is rendered stand between SELECT and FROM, with commas between them. -/
theorem Query.exists_text_eq {q : Query} (h : fault? q.script = none) (hcolumns : q.columns ≠ []) :
    (∀ c ∈ q.columns, fault? c.script = none) ∧
      ∃ front back, text q.script =
        front ++ ", ".intercalate (q.columns.map fun c => text c.script) ++ " FROM " ++ back := by
  have hfaults : ∀ c ∈ q.columns, fault? c.script = none := by
    intro c hc
    rw [q.obeys_script, firstFailure_eq_none_iff, checks_eq, columnsChecks_eq_flatMap] at h
    rw [c.obeys_script, firstFailure_eq_none_iff]
    intro k hk
    have hmem := List.mem_flatMap.mpr ⟨c, hc, hk⟩
    exact h k (by simp only [List.mem_append, hmem, true_or])
  have hlist : Writes (commaList (q.columns.map Column.script))
      (", ".intercalate (q.columns.map fun c => text c.script)) (q.columns.flatMap fun c => bindings c.script) :=
    .commaList_map fun c hc => ⟨hfaults c hc, rfl, rfl⟩
  refine ⟨hfaults, ?_⟩
  obtain ⟨columns, distinct, source, sourceLabel, joins, filter, groupBy, having, orderBy, limit, offset⟩ := q
  cases columns with
  | nil => exact absurd rfl hcolumns
  | cons c rest =>
    have hcolumns : columnsScript (c :: rest) = commaList ((c :: rest).map Column.script) := by
      rw [columnsScript, columnScripts_eq_map, List.map_cons]
    rw [script_mk, hcolumns]
    refine ⟨if distinct then "SELECT DISTINCT " else "SELECT ", text (sourceScript source ++
      sourceLabelScript sourceLabel ++ joinsScript joins ++ filter.whereClause ++ groupScript groupBy ++
      havingScript having ++ orderScript orderBy ++ pageScript limit offset), ?_⟩
    rw [text, text_append, hlist.2.1, text]
    simp only [String.append_assoc]
    rfl

namespace Select

/-- A query that is rendered among others stands in the text of all of them. -/
theorem exists_text_eq {s : Select} {q : Query} {p : Prepared} (hq : q ∈ s.queries)
    (hp : (Statement.select s).prepare = .ok p) :
    fault? q.script = none ∧ ∃ front back, p.sql = front ++ text q.script ++ back := by
  obtain ⟨hfault, rfl⟩ := Statement.prepare_eq_ok_iff.mp hp
  obtain ⟨before, after, hscript⟩ := exists_script_eq hq hfault
  have hwhole : fault? (before ++ q.script ++ after) = none := hscript ▸ hfault
  rw [fault?_append_eq_none, fault?_append_eq_none] at hwhole
  refine ⟨hwhole.1.2, text before, text after, ?_⟩
  show text s.script = _
  rw [hscript, text_append, text_append]

/-- The number of columns of the query under the cursor, which is the position of the next one. -/
def columnCount (s : Select) : Nat :=
  (s.current?.map (·.columns.length)).getD 0

/-- What is asked of a CASE that is put behind the columns of the query under the cursor, made by some steps
    already. -/
def openedSteps (s : Select) (given : List CaseColumn.Step) (after : List Step) : List CaseColumn.Step :=
  given ++ caseSteps s.cursor s.columnCount s.cursor s.size (s.columnCount + 1) after

theorem cursor_ofSteps_lt (steps : List Step) : (ofSteps steps).cursor < (ofSteps steps).size := by
  have hrun (s : Select) (h : s.cursor < s.size) : (s.applyAll steps).cursor < (s.applyAll steps).size := by
    induction steps generalizing s with
    | nil => exact h
    | cons step rest ih => exact ih (s.apply step) (cursor_apply_lt h step)
  exact hrun .empty Nat.zero_lt_one

/-- A CASE that is put behind the columns of a query stays there, and is made by the steps on it. -/
theorem exists_column_openedSteps {s : Select} (h : s.cursor < s.size) (given : List CaseColumn.Step)
    (after : List Step) :
    ∃ q, (s.applyAll (.edit (.column (.case (.ofSteps given))) :: after)).queries[s.cursor]? = some q ∧
      q.columns[s.columnCount]? = some (.case (.ofSteps (s.openedSteps given after))) := by
  have hlt : s.cursor < s.queries.length := by
    rw [length_queries]
    exact h
  generalize hq : s.queries[s.cursor] = q
  have hcurrent : s.current? = some q := by
    rw [current?, List.getElem?_eq_getElem hlt, hq]
  have hcount : s.columnCount = q.columns.length := by
    rw [columnCount, hcurrent]
    rfl
  have hopened : s.apply (.edit (.column (.case (.ofSteps given)))) =
      s.replaceCurrent { q with columns := q.columns ++ [.case (.ofSteps given)] } :=
    apply_edit_of_ok hcurrent rfl
  have hquery : (s.apply (.edit (.column (.case (.ofSteps given))))).queries[s.cursor]? =
      some { q with columns := q.columns ++ [.case (.ofSteps given)] } := by
    rw [hopened, queries_replaceCurrent, List.getElem?_set_self hlt]
  have hcase : (q.columns ++ [Column.case (.ofSteps given)])[s.columnCount]? = some (.case (.ofSteps given)) := by
    rw [hcount, List.getElem?_concat_length]
  obtain ⟨q', hq', hcolumn⟩ := column_applyAll (cursor_apply_lt h _) hquery hcase after
  refine ⟨q', hq', ?_⟩
  rw [hopened, cursor_replaceCurrent, size_replaceCurrent] at hcolumn
  rw [hcolumn, openedSteps, CaseColumn.ofSteps, CaseColumn.ofSteps, List.foldl_append, hcount, List.length_append]
  rfl

end Select

open CaseColumn

/-- The CASE at a position of a query that is rendered can be rendered, and is written at its place among the
    columns. -/
theorem Query.text_of_case {q : Query} {j : Nat} {steps : List Step} (h : fault? q.script = none)
    (hc : q.columns[j]? = some (.case (.ofSteps steps))) :
    Renders steps ∧ ∃ front left right back, left.length = j ∧
      text q.script = front ++ ", ".intercalate (left ++ scriptText steps :: right) ++ " FROM " ++ back := by
  obtain ⟨hj, hget⟩ := List.getElem?_eq_some_iff.mp hc
  have hne : q.columns ≠ [] := List.ne_nil_of_length_pos (Nat.zero_lt_of_lt hj)
  obtain ⟨hfaults, front, back, htext⟩ := exists_text_eq h hne
  have hcase : fault? (CaseColumn.ofSteps steps).script = none := by
    have hcolumn := hfaults _ (List.mem_of_getElem? hc)
    rwa [Column.script] at hcolumn
  have hrenders : Renders steps := fault?_script_ofSteps_eq_none_iff.mp hcase
  refine ⟨hrenders, front, (q.columns.take j).map fun c => text c.script,
    (q.columns.drop (j + 1)).map fun c => text c.script, back, ?_, ?_⟩
  · rw [List.length_map, List.length_take_of_le (Nat.le_of_lt hj)]
  · have hsplit : q.columns = q.columns.take j ++ .case (.ofSteps steps) :: q.columns.drop (j + 1) := by
      rw [← hget, ← List.drop_eq_getElem_cons hj, List.take_append_drop]
    have hown : text (Column.case (.ofSteps steps)).script = scriptText steps := by
      rw [Column.script]
      exact hrenders.writes.2.1
    rw [htext, hsplit, List.map_append, List.map_cons, hown, ← hsplit]

/-- Steps on a `Select`, one of which puts a CASE behind the columns of the query under the cursor. The CASE may
    be made by some steps already. -/
structure OpenedCase where
  before : List Select.Step
  given : List CaseColumn.Step
  after : List Select.Step

namespace OpenedCase

/-- The `Select` that the CASE is put into. -/
def start (x : OpenedCase) : Select :=
  .ofSteps x.before

/-- The `Select` after all steps. -/
def select (x : OpenedCase) : Select :=
  .ofSteps (x.before ++ .edit (.column (.case (.ofSteps x.given))) :: x.after)

/-- All steps on the CASE. -/
def steps (x : OpenedCase) : List CaseColumn.Step :=
  x.start.openedSteps x.given x.after

/-- The CASE stands where it was put, and is made by the steps on it. -/
theorem exists_column (x : OpenedCase) : ∃ q, x.select.queries[x.start.cursor]? = some q ∧
    q.columns[x.start.columnCount]? = some (.case (.ofSteps x.steps)) := by
  have hcursor : x.start.cursor < x.start.size := Select.cursor_ofSteps_lt x.before
  have hselect : x.select = x.start.applyAll (.edit (.column (.case (.ofSteps x.given))) :: x.after) :=
    List.foldl_append
  rw [hselect]
  exact Select.exists_column_openedSteps hcursor x.given x.after

theorem noted_of_refusal {x : OpenedCase} {f : Fault} (h : firstRefusal? false x.steps = some f) :
    x.select.noted (.case x.start.cursor x.start.columnCount) = some f := by
  obtain ⟨q, hq, hc⟩ := x.exists_column
  have hfault : (CaseColumn.ofSteps x.steps).fault = some f := (fault_ofSteps x.steps).trans h
  refine Select.notedAt_query_iff.mpr ⟨q, hq, ?_⟩
  show ((Node.query q).part? (.column x.start.columnCount)).bind (Node.notedAt []) = some f
  rw [Node.part?_column, List.getElem?_map, hc]
  exact hfault

/-- What is prepared has the text of the CASE at its place. -/
theorem text_of_prepare {x : OpenedCase} {p : Prepared} (hp : (Statement.select x.select).prepare = .ok p) :
    Renders x.steps ∧ ∃ front left right back, left.length = x.start.columnCount ∧
      p.sql = front ++ ", ".intercalate (left ++ scriptText x.steps :: right) ++ " FROM " ++ back := by
  obtain ⟨q, hq, hc⟩ := x.exists_column
  obtain ⟨hfault, before, after, hsql⟩ := Select.exists_text_eq (List.mem_of_getElem? hq) hp
  obtain ⟨hrenders, front, left, right, back, hleft, htext⟩ := Query.text_of_case hfault hc
  refine ⟨hrenders, before ++ front, left, right, back ++ after, hleft, ?_⟩
  rw [hsql, htext]
  simp only [String.append_assoc]

end OpenedCase

/-- **A CASE is what its steps ask for.** By itself it is rendered if none of its steps is refused, one of them
    opens a branch, and every guard can be rendered; it is then written as the list of the steps says, and binds
    what its guards bind. A step that is refused makes it fail from then on, with the fault of the first such
    step. In a SELECT, a CASE that is put behind the columns of a query stays in its place, and is made by the
    steps on it among all that come later. What is prepared has its text there. After a step that is refused
    nothing is prepared, and its fault is reported unless a check in front of the CASE fails. -/
theorem CaseColumn.renderAfter_ofSteps :
    (∀ (steps : List Step) (earlier : List BoundParam),
      ((∃ sql, ((Part.column (.case (.ofSteps steps))).renderAfter earlier).outcome = .ok sql) ↔
          Renders steps) ∧
        (Renders steps → (Part.column (.case (.ofSteps steps))).renderAfter earlier =
          ⟨.ok (scriptText steps), earlier ++ (openings steps).flatMap (·.guard.params)⟩) ∧
        ∀ f, firstRefusal? false steps = some f → ∀ later : List Step,
          (Part.column (.case (.ofSteps (steps ++ later)))).renderAfter earlier = ⟨.error f, earlier⟩) ∧
    ∀ x : OpenedCase,
      (∃ q, x.select.queries[x.start.cursor]? = some q ∧
          q.columns[x.start.columnCount]? = some (.case (.ofSteps x.steps))) ∧
        (∀ p, (Statement.select x.select).prepare = .ok p → Renders x.steps ∧
          ∃ front left right back, left.length = x.start.columnCount ∧
            p.sql = front ++ ", ".intercalate (left ++ scriptText x.steps :: right) ++ " FROM " ++ back) ∧
        ∀ f, firstRefusal? false x.steps = some f → (Statement.select x.select).prepare =
          .error ((firstFailure (x.select.checksBefore (.case x.start.cursor x.start.columnCount))).getD f) := by
  refine ⟨fun steps earlier => ⟨?_, ?_, ?_⟩, fun x => ⟨x.exists_column, ?_, ?_⟩⟩
  · rw [← fault?_script_ofSteps_eq_none_iff, Part.renderAfter, Script.renderAfter_eq, Part.script, Column.script]
    constructor
    · rintro ⟨sql, hsql⟩
      exact (render_eq_ok_iff.mp hsql).1
    · intro hnone
      exact ⟨_, render_eq_ok_iff.mpr ⟨hnone, rfl⟩⟩
  · intro hrenders
    rw [Part.renderAfter, Part.script, Column.script]
    exact hrenders.writes.renderAfter earlier
  · intro f hf later
    have hfault : (CaseColumn.ofSteps (steps ++ later)).fault = some f := by
      rw [fault_ofSteps, firstRefusal?_append, hf, Option.some_or]
    exact Part.renderAfter_of_noted (x := .column (.case (.ofSteps (steps ++ later)))) hfault earlier
  · intro p hp
    exact OpenedCase.text_of_prepare hp
  · intro f hf
    exact Select.prepare_of_noted (OpenedCase.noted_of_refusal hf)

/-- A CASE whose only branch is given two results, between two plain columns. The last two columns get names. -/
def grades : OpenedCase where
  before := [.edit (.source (.table "exams") none), .edit (.columns ["name"])]
  given := []
  after :=
    [.edit (.onCase (.branch
        (.ofSteps [.add .first (.comparison "score" ">=" (.bound ⟨.scalar (.int 50), .integer⟩) false)]))),
      .edit (.onCase (.result (.text "1") true)), .edit (.onCase (.result (.text "Pass") true)),
      .edit (.onCase (.otherwise (.text "Fail") true)), .edit (.columns ["day"]),
      .edit (.labels ["grade", "held"])]

/-- The text of `grades` has the last result and the label of the CASE. A result without a branch is not made good
    by a branch that comes later. -/
theorem CaseColumn.renderAfter_ofSteps_grades :
    (Renders grades.steps ∧
      (Statement.select grades.select).prepare =
        .ok ⟨"SELECT name, CASE WHEN score >= ? THEN \x27Pass\x27 ELSE \x27Fail\x27 END AS \"grade\", " ++
            "day AS \"held\" FROM exams",
          [⟨.int 50, .integer⟩]⟩ ∧
      firstRefusal? false [.result (.int 1) true] = some .noBranch) ∧
      (Part.column (.case (.ofSteps grades.steps))).renderAfter [] =
        ⟨.ok (scriptText grades.steps), [⟨.int 50, .integer⟩]⟩ ∧
      (∃ front left right back, left.length = 1 ∧
        "SELECT name, CASE WHEN score >= ? THEN \x27Pass\x27 ELSE \x27Fail\x27 END AS \"grade\", " ++
            "day AS \"held\" FROM exams" =
          front ++ ", ".intercalate (left ++ scriptText grades.steps :: right) ++ " FROM " ++ back) ∧
      (Part.column (.case (.ofSteps ([.result (.int 1) true] ++ [.branch .empty])))).renderAfter [] =
        ⟨.error .noBranch, []⟩ := by
  have hp : (Statement.select grades.select).prepare =
      .ok ⟨"SELECT name, CASE WHEN score >= ? THEN \x27Pass\x27 ELSE \x27Fail\x27 END AS \"grade\", " ++
          "day AS \"held\" FROM exams",
        [⟨.int 50, .integer⟩]⟩ := by
    rfl
  have hrefused : firstRefusal? false [.result (.int 1) true] = some .noBranch := by
    rfl
  obtain ⟨halone, hselect⟩ := renderAfter_ofSteps
  obtain ⟨hrenders, hplace⟩ := (hselect grades).2.1 _ hp
  exact ⟨⟨hrenders, hp, hrefused⟩, (halone grades.steps []).2.1 hrenders, hplace,
    (halone _ []).2.2 .noBranch hrefused [.branch .empty]⟩

end BoundSql
