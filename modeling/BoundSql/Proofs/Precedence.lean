import BoundSql.Proofs.Acceptance
import BoundSql.Proofs.NotedFaults

/-!
# `BoundSql.Proofs.Precedence` — which of several faults is reported

Steps on one `Select` note their faults in several slots: in its own, in that of each predicate of WHERE, in
that of each CASE. Within a slot the first fault stays. Between slots it is the order of the written statement
that decides, and not the order of the steps: the slot of the `Select` comes before all others, and what a
rendering finds on its way to a slot hides the fault that was noted there.

## Contents
- **`Select.checksBefore`** lists what is checked before a slot is looked at; `Select.checks_of_noted` finds
  the slot behind them.
- **`Select.prepare_of_rejects`** says what is reported after a rejected step, whatever comes before and
  after it.
- **`Select.FirstRejects`** is the earliest rejected step. Its fault is reported if it went into the slot of
  the `Select`, by `Select.prepare_of_firstRejects_own`, and not always if it went elsewhere, by
  `Select.not_prepare_of_firstRejects`.
-/

namespace BoundSql

open Node

/-- What the elements of a list give, split around one of them. -/
theorem flatMap_of_getElem? {α β : Type} {l : List α} {i : Nat} {a : α} (h : l[i]? = some a)
    (g : α → List β) : l.flatMap g = (l.take i).flatMap g ++ (g a ++ (l.drop (i + 1)).flatMap g) := by
  obtain ⟨hlt, rfl⟩ := List.getElem?_eq_some_iff.mp h
  rw [← List.flatMap_cons, ← List.drop_eq_getElem_cons hlt, ← List.flatMap_append, List.take_append_drop]

/-- Of the checks in front of one that fails, the first that fails is reported, else that one. -/
theorem firstFailure_append_cons (before rest : List Check) (f : Fault) :
    firstFailure (before ++ ⟨false, f⟩ :: rest) = some ((firstFailure before).getD f) := by
  rw [firstFailure_append, firstFailure]
  cases firstFailure before <;> rfl

namespace Query

variable {q : Query} {g : Fault}

/-- The checks of a query in front of those of its predicate. -/
def checksBeforeFilter (q : Query) : List Check :=
  columnsChecks q.columns ++ sourceChecks q.source ++ joinsChecks q.joins

theorem checks_of_filter_noted (h : q.filter.fault = some g) :
    ∃ rest, q.checks = q.checksBeforeFilter ++ ⟨false, g⟩ :: rest := by
  have hasked : ¬(q.filter.terms = [] ∧ q.filter.fault = none) := fun hblank =>
    nomatch h.symm.trans hblank.2
  have hfilter : q.filter.checks = ⟨false, g⟩ :: chainChecks q.filter.chain := by
    generalize q.filter = p at h
    obtain ⟨chain, negated, fault⟩ := p
    cases h
    rw [Predicate.checks]
    rfl
  refine ⟨chainChecks q.filter.chain ++ (havingChecks q.having ++ q.orderBy.map Order.check), ?_⟩
  rw [checks_eq, Predicate.whereChecks, if_neg hasked, hfilter, checksBeforeFilter]
  simp only [List.append_assoc, List.cons_append]

theorem checks_of_case_noted {j : Nat} {c : CaseColumn} (hc : q.columns[j]? = some (.case c))
    (h : c.fault = some g) : ∃ rest, q.checks = columnsChecks (q.columns.take j) ++ ⟨false, g⟩ :: rest := by
  have hcase : ∃ rest, (Column.case c).checks = ⟨false, g⟩ :: rest := by
    obtain ⟨branches, otherwise, label, fault⟩ := c
    cases h
    rw [Column.checks, CaseColumn.checks]
    exact ⟨_, rfl⟩
  obtain ⟨rest, hrest⟩ := hcase
  have hcolumns : columnsChecks q.columns = columnsChecks (q.columns.take j) ++
      (⟨false, g⟩ :: rest ++ columnsChecks (q.columns.drop (j + 1))) := by
    rw [columnsChecks_eq_flatMap, flatMap_of_getElem? hc, hrest, columnsChecks_eq_flatMap,
      columnsChecks_eq_flatMap]
  rw [checks_eq, hcolumns]
  simp only [List.append_assoc, List.cons_append]
  exact ⟨_, rfl⟩

end Query

namespace Select

variable {s : Select} {slot : Slot} {f g : Fault}

/-- The checks that a rendering makes before it comes to a slot: none before the slot of the `Select`, else
    those of the queries in front, and of the clauses in front in the query of the slot. -/
def checksBefore (s : Select) : Slot → List Check
  | .own => []
  | .filter i =>
    notedChecks s.fault ++ (s.queries.take i).flatMap Query.checks ++
      (s.queries[i]?.map Query.checksBeforeFilter).getD []
  | .case i j =>
    notedChecks s.fault ++ (s.queries.take i).flatMap Query.checks ++
      (s.queries[i]?.map fun q => columnsChecks (q.columns.take j)).getD []

/-- The checks of a `Select` around those of one of its queries. -/
theorem checks_of_query {i : Nat} {q : Query} (hq : s.queries[i]? = some q) :
    s.checks = notedChecks s.fault ++ (s.queries.take i).flatMap Query.checks ++
      (q.checks ++ (s.queries.drop (i + 1)).flatMap Query.checks) := by
  rw [checks_eq, flatMap_of_getElem? hq, List.append_assoc]

/-- A slot with a fault is a check that fails. -/
theorem checks_of_noted (h : s.noted slot = some g) :
    ∃ rest, s.checks = s.checksBefore slot ++ ⟨false, g⟩ :: rest := by
  cases slot with
  | own =>
    have hfault : s.fault = some g := h
    rw [checks_eq, hfault]
    exact ⟨_, rfl⟩
  | filter i =>
    obtain ⟨q, hq, hnoted⟩ := notedAt_query_iff.mp h
    have hfault : q.filter.fault = some g := hnoted
    obtain ⟨rest, hrest⟩ := Query.checks_of_filter_noted hfault
    refine ⟨rest ++ (s.queries.drop (i + 1)).flatMap Query.checks, ?_⟩
    rw [checks_of_query hq, hrest, checksBefore, hq]
    simp only [Option.map_some, Option.getD_some, List.append_assoc, List.cons_append]
  | case i j =>
    obtain ⟨q, hq, hnoted⟩ := notedAt_query_iff.mp h
    obtain ⟨c, hc, hfault⟩ : ∃ c : CaseColumn, q.columns[j]? = some (.case c) ∧ c.fault = some g := by
      obtain ⟨n, hn, hfault⟩ := Option.bind_eq_some_iff.mp hnoted
      obtain ⟨c, hc, rfl⟩ := Option.map_eq_some_iff.mp hn
      cases c with
      | case c => exact ⟨c, hc, hfault⟩
      | plain name label | aggregate a => cases hfault
    obtain ⟨rest, hrest⟩ := Query.checks_of_case_noted hc hfault
    refine ⟨rest ++ (s.queries.drop (i + 1)).flatMap Query.checks, ?_⟩
    rw [checks_of_query hq, hrest, checksBefore, hq]
    simp only [Option.map_some, Option.getD_some, List.append_assoc, List.cons_append]

/-- What is reported where a slot holds a fault. -/
theorem prepare_of_noted (h : s.noted slot = some g) :
    (Statement.select s).prepare = .error ((firstFailure (s.checksBefore slot)).getD g) := by
  obtain ⟨rest, hrest⟩ := checks_of_noted h
  have hfault : Script.fault? s.script = some ((firstFailure (s.checksBefore slot)).getD g) := by
    rw [s.obeys_script, hrest]
    exact firstFailure_append_cons _ rest g
  have houtcome : (s.script.renderAfter []).outcome =
      .error ((firstFailure (s.checksBefore slot)).getD g) := by
    rw [Script.renderAfter_eq]
    exact Script.render_eq_error_iff.mpr hfault
  show (s.script.renderAfter []).outcome.map _ = _
  rw [houtcome]
  rfl

/-- No steps change a fault in a slot. -/
theorem noted_applyAll (h : s.noted slot = some g) (steps : List Step) :
    (s.applyAll steps).noted slot = some g := by
  refine notedAt_applyAll h (s.leaves_of_ne steps ?_)
  intro i rest
  cases slot <;> exact ⟨nofun, nofun⟩

/-- **After a rejected step a statement is never prepared.** What is reported is the fault in the slot of
    the step, which is that of the step itself if the slot was empty, unless a check in front of the slot
    fails. -/
theorem prepare_of_rejects {before : List Step} {step : Step} (h : (ofSteps before).Rejects step slot f)
    (after : List Step) :
    (Statement.select (.ofSteps (before ++ step :: after))).prepare =
      .error ((firstFailure ((ofSteps (before ++ step :: after)).checksBefore slot)).getD
        (((ofSteps before).noted slot).getD f)) := by
  have hsteps : ofSteps (before ++ step :: after) = ((ofSteps before).apply step).applyAll after :=
    List.foldl_append
  have hnoted : (ofSteps (before ++ step :: after)).noted slot = some (((ofSteps before).noted slot).getD f) := by
    rw [hsteps]
    exact noted_applyAll (noted_apply_of_rejects h) after
  exact prepare_of_noted hnoted

/-! ## The earliest rejected step -/

/-- The earliest rejected step among steps on a `Select` fills this slot with this fault. -/
inductive FirstRejects : Select → List Step → Slot → Fault → Prop where
  | here {s : Select} {step : Step} {rest : List Step} {slot : Slot} {f : Fault}
      (h : s.Rejects step slot f) : FirstRejects s (step :: rest) slot f
  | later {s : Select} {step : Step} {rest : List Step} {slot : Slot} {f : Fault}
      (hnone : ∀ slot f, ¬ s.Rejects step slot f) (h : FirstRejects (s.apply step) rest slot f) :
      FirstRejects s (step :: rest) slot f

theorem noted_of_firstRejects_own {steps : List Step} (hs : s.fault = none)
    (h : s.FirstRejects steps .own f) : (s.applyAll steps).noted .own = some f := by
  induction steps generalizing s with
  | nil => cases h
  | cons step rest ih =>
    cases h with
    | here h =>
      have hfilled : (s.apply step).noted .own = some f := (fault_apply_eq_some_iff hs).mpr h
      exact noted_applyAll hfilled rest
    | later hnone h =>
      refine ih ?_ h
      cases hfault : (s.apply step).fault with
      | none => rfl
      | some g => exact absurd ((fault_apply_eq_some_iff hs).mp hfault) (hnone .own g)

/-- If the earliest rejected step is rejected by the `Select` itself, its fault is reported. -/
theorem prepare_of_firstRejects_own {steps : List Step} (h : empty.FirstRejects steps .own f) :
    (Statement.select (.ofSteps steps)).prepare = .error f := by
  exact prepare_of_noted (noted_of_firstRejects_own rfl h)

/-- An unknown operator in WHERE, and then HAVING without GROUP BY. -/
def lateHaving : List Step :=
  [.edit (.source (.table "orders") none),
    .edit (.filter (.add .first (.comparison "status" "<>" (.inlined (.text "open")) false))),
    .edit (.having (.ofSteps [.add .first (.comparison "n" ">" (.inlined (.int 1)) false)]))]

theorem rejects_status :
    (ofSteps [.edit (.source (.table "orders") none)]).Rejects
      (.edit (.filter (.add .first (.comparison "status" "<>" (.inlined (.text "open")) false)))) (.filter 0)
      (.unknownOperator "<>") :=
  .filter rfl (.unknownOperator rfl (by intro op; cases op <;> decide))

/-- The earliest rejected step is the one with the operator, and the other one is reported. -/
theorem prepare_of_rejects_lateHaving :
    (ofSteps [.edit (.source (.table "orders") none)]).Rejects
        (.edit (.filter (.add .first (.comparison "status" "<>" (.inlined (.text "open")) false))))
        (.filter 0) (.unknownOperator "<>") ∧
      (Statement.select (.ofSteps lateHaving)).prepare = .error .havingWithoutGroupBy :=
  ⟨rejects_status, prepare_of_rejects rejects_status
    [.edit (.having (.ofSteps [.add .first (.comparison "n" ">" (.inlined (.int 1)) false)]))]⟩

/-- The fault of the earliest rejected step is not always the one that is reported. -/
theorem not_prepare_of_firstRejects :
    ¬ ∀ (steps : List Step) (slot : Slot) (f : Fault), empty.FirstRejects steps slot f →
      (Statement.select (.ofSteps steps)).prepare = .error f := by
  intro h
  have hsource : ∀ slot f, ¬ empty.Rejects (.edit (.source (.table "orders") none)) slot f := by
    rintro slot f ⟨-, ⟨⟩⟩
  have hfirst : empty.FirstRejects lateHaving (.filter 0) (.unknownOperator "<>") :=
    .later hsource (.here rejects_status)
  have hclaimed := h lateHaving (.filter 0) (.unknownOperator "<>") hfirst
  have hactual : (Statement.select (.ofSteps lateHaving)).prepare = .error .havingWithoutGroupBy := by
    rfl
  rw [hactual] at hclaimed
  cases hclaimed

end Select

end BoundSql
