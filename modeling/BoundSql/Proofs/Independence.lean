import BoundSql.Proofs.Edits
import BoundSql.Proofs.Composition

/-!
# `BoundSql.Proofs.Independence` — edits of different clauses do not see each other

A caller may give the clauses of a query in any order, and may go back to one of them later. Some edits look
at what is there already: a label needs a column, HAVING needs GROUP BY, a joined term needs a first one. As
long as each of them looks at its own clause only, the order of edits matters within a clause and nowhere
else.

## Contents
- **The step.** `Query.edit_only` makes an edit on its clause alone; that it leaves all others alone is
  `Query.only_edit_of_ne`.
- **The run.** `Query.revise` is one edit in a row of edits, rejected or not; `Query.only_revises` and
  `Query.accepts_iff` split the row by clauses.
- **`Select.ofSteps_eq_of_clauses`** compares two rows of edits on a whole `Select`.
-/

namespace BoundSql

namespace Query

variable {q r : Query} {e : Edit} {c : Clause}

/-- A query is put together from its clauses. -/
theorem mk_only (q : Query) :
    (⟨(q.only .columns).columns, (q.only .distinct).distinct, (q.only .source).source,
      (q.only .source).sourceLabel, (q.only .joins).joins, (q.only .filter).filter,
      (q.only .grouping).groupBy, (q.only .grouping).having, (q.only .order).orderBy,
      (q.only .page).limit, (q.only .page).offset⟩ : Query) = q :=
  q.mk_fields

/-- A query is known by its clauses. -/
theorem eq_of_only (h : ∀ c, q.only c = r.only c) : q = r := by
  rw [← q.mk_only, ← r.mk_only]
  simp only [h]

/-! ## One edit -/

/-- What an edit does to its own clause, and whether it is rejected, does not depend on other clauses. -/
theorem edit_only (q : Query) (e : Edit) :
    (q.only e.clause).edit e = (q.edit e).map (·.only e.clause) := by
  cases e with
  | labels labels =>
    show (relabelLast q.columns labels).map _ = ((relabelLast q.columns labels).map _).map _
    cases relabelLast q.columns labels <;> rfl
  | withinGroup order =>
    show (orderLastWithin q.columns order).map _ = ((orderLastWithin q.columns order).map _).map _
    cases orderLastWithin q.columns order <;> rfl
  | onCase s =>
    show (editLastCase q.columns s).map _ = ((editLastCase q.columns s).map _).map _
    cases editLastCase q.columns s <;> rfl
  | joinCondition p =>
    show (conditionLast q.joins p).map _ = ((conditionLast q.joins p).map _).map _
    cases conditionLast q.joins p <;> rfl
  | groupBy columns =>
    cases columns <;> rfl
  | having p =>
    show (if q.groupBy.isEmpty then _ else _) = Except.map _ (if q.groupBy.isEmpty then _ else _)
    by_cases h : q.groupBy.isEmpty = true
    · rw [if_pos h, if_pos h]
      rfl
    · rw [if_neg h, if_neg h]
      rfl
  | columns _ | column _ | distinct | source _ _ | join _ _ _ | filter _ | orderBy _ | limit _ | offset _
  | page _ _ => rfl

/-! ## Edits in a row -/

/-- The query after an edit. A rejected edit does nothing. -/
def revise (q : Query) (e : Edit) : Query :=
  match q.edit e with
  | .ok r => r
  | .error _ => q

/-- None of the edits in a row is rejected. -/
def Accepts : Query → List Edit → Prop
  | _, [] => True
  | q, e :: rest => (∃ r, q.edit e = .ok r) ∧ (q.revise e).Accepts rest

/-- An edit changes its own clause as if there were no other one. -/
theorem only_revise (q : Query) (e : Edit) (c : Clause) :
    (q.revise e).only c = if e.clause = c then (q.only c).revise e else q.only c := by
  by_cases hc : e.clause = c
  · subst hc
    rw [if_pos rfl, revise, revise, edit_only]
    cases q.edit e <;> rfl
  · rw [if_neg hc, revise]
    cases he : q.edit e with
    | ok r => exact only_edit_of_ne he hc
    | error f => rfl

/-- **The run.** Edits in a row change each clause as the edits of that clause alone do. -/
theorem only_revises (q : Query) (es : List Edit) (c : Clause) :
    (es.foldl revise q).only c = (es.filter (·.clause = c)).foldl revise (q.only c) := by
  induction es generalizing q with
  | nil => rfl
  | cons e rest ih =>
    rw [List.foldl_cons, ih, only_revise]
    by_cases hc : e.clause = c
    · rw [if_pos hc, List.filter_cons_of_pos (by simpa using hc), List.foldl_cons]
    · rw [if_neg hc, List.filter_cons_of_neg (by simpa using hc)]

theorem exists_edit_only_iff : (∃ r, (q.only e.clause).edit e = .ok r) ↔ ∃ r, q.edit e = .ok r := by
  rw [edit_only]
  cases q.edit e with
  | ok r => exact iff_of_true ⟨_, rfl⟩ ⟨_, rfl⟩
  | error f => exact iff_of_false nofun nofun

/-- Edits in a row are accepted if those of each clause are. -/
theorem accepts_iff {es : List Edit} :
    q.Accepts es ↔ ∀ c, (q.only c).Accepts (es.filter (·.clause = c)) := by
  induction es generalizing q with
  | nil => exact iff_of_true trivial fun _ => trivial
  | cons e rest ih =>
    -- The edit stands at the head of the row of its own clause, and in no other row.
    have hown : (q.only e.clause).Accepts ((e :: rest).filter (·.clause = e.clause)) ↔
        (∃ r, q.edit e = .ok r) ∧
          ((q.revise e).only e.clause).Accepts (rest.filter (·.clause = e.clause)) := by
      rw [List.filter_cons_of_pos (by simp), Accepts, exists_edit_only_iff, only_revise,
        if_pos rfl]
    have hother (c : Clause) (hc : e.clause ≠ c) :
        (q.only c).Accepts ((e :: rest).filter (·.clause = c)) ↔
          ((q.revise e).only c).Accepts (rest.filter (·.clause = c)) := by
      rw [List.filter_cons_of_neg (by simpa using hc), only_revise, if_neg hc]
    rw [Accepts, ih]
    constructor
    · rintro ⟨hedit, hrest⟩ c
      by_cases hc : e.clause = c
      · subst hc
        exact hown.mpr ⟨hedit, hrest e.clause⟩
      · exact (hother c hc).mpr (hrest c)
    · intro h
      refine ⟨(hown.mp (h e.clause)).1, fun c => ?_⟩
      by_cases hc : e.clause = c
      · subst hc
        exact (hown.mp (h e.clause)).2
      · exact (hother c hc).mp (h c)

end Query

/-! ## A whole `Select` -/

namespace Select

/-- Edits of a single query leave behind the edited query, and a fault if one of them was rejected. -/
theorem applyAll_edits (q : Query) (fault : Option Fault) (es : List Edit) :
    ∃ fault' : Option Fault,
      (⟨q, [], 0, fault⟩ : Select).applyAll (es.map .edit) = ⟨es.foldl Query.revise q, [], 0, fault'⟩ ∧
        (fault' = none ↔ fault = none ∧ q.Accepts es) := by
  induction es generalizing q fault with
  | nil => exact ⟨fault, rfl, (and_iff_left trivial).symm⟩
  | cons e rest ih =>
    rw [List.map_cons, applyAll, List.foldl_cons, ← applyAll, List.foldl_cons, Query.Accepts]
    cases he : q.edit e with
    | ok r =>
      have hrevise : q.revise e = r := by
        rw [Query.revise, he]
      have hfits : ∃ r', (.ok r : Except Fault Query) = .ok r' := ⟨r, rfl⟩
      rw [apply_edit_of_ok rfl he, hrevise, and_iff_right hfits]
      exact ih r fault
    | error f =>
      have hrevise : q.revise e = q := by
        rw [Query.revise, he]
      have hkept : keepFirst fault f ≠ none := by
        cases fault with
        | none => exact Option.some_ne_none f
        | some g => exact Option.some_ne_none g
      obtain ⟨fault', hrun, hfault⟩ := ih q (keepFirst fault f)
      rw [apply_edit_of_error rfl he, hrevise]
      refine ⟨fault', hrun, hfault.trans (iff_of_false (fun h => hkept h.1) ?_)⟩
      rintro ⟨-, ⟨r, hr⟩, -⟩
      cases hr

/-- **Edits of different clauses are independent.** Two rows of edits that agree on each clause make the
    same `Select`, up to the fault in its own slot. That slot is filled by both or by neither; if it is empty,
    nothing at all tells the two apart. -/
theorem ofSteps_eq_of_clauses {a b : List Edit}
    (h : ∀ c : Clause, a.filter (·.clause = c) = b.filter (·.clause = c)) :
    ofSteps (a.map .edit) = { ofSteps (b.map .edit) with fault := (ofSteps (a.map .edit)).fault } ∧
      ((ofSteps (a.map .edit)).fault = none ↔ (ofSteps (b.map .edit)).fault = none) ∧
      ((ofSteps (a.map .edit)).fault = none →
        ofSteps (a.map .edit) = ofSteps (b.map .edit) ∧
          ∀ earlier, (Part.statement (.select (.ofSteps (a.map .edit)))).renderAfter earlier =
            (Part.statement (.select (.ofSteps (b.map .edit)))).renderAfter earlier) := by
  obtain ⟨f, hf, hfiff⟩ := applyAll_edits .empty none a
  obtain ⟨g, hg, hgiff⟩ := applyAll_edits .empty none b
  have hquery : a.foldl Query.revise .empty = b.foldl Query.revise .empty := by
    refine Query.eq_of_only fun c => ?_
    rw [Query.only_revises, Query.only_revises, h c]
  have hnone : f = none ↔ g = none := by
    have haccepts : Query.empty.Accepts a ↔ Query.empty.Accepts b := by
      rw [Query.accepts_iff, Query.accepts_iff]
      simp only [h]
    rw [hfiff, hgiff, haccepts]
  have hleft : ofSteps (a.map .edit) = ⟨b.foldl Query.revise .empty, [], 0, f⟩ := by
    rw [← hquery]
    exact hf
  have hright : ofSteps (b.map .edit) = ⟨b.foldl Query.revise .empty, [], 0, g⟩ := hg
  rw [hleft, hright]
  refine ⟨rfl, hnone, ?_⟩
  rintro rfl
  obtain rfl : g = none := hnone.mp rfl
  exact ⟨rfl, fun _ => rfl⟩

/-- Edits clause by clause. -/
def ordersInOrder : List Edit :=
  [.columns ["host"], .column (.case .empty), .onCase (.otherwise (.int 0) true), .labels ["rank"],
    .source (.table "orders") none,
    .filter (.add .first (.comparison "day" ">" (.bound ⟨.scalar (.int 3), .integer⟩) false)),
    .filter (.add (.joined .or) (.comparison "host" "=" .null true)), .filter .negate,
    .groupBy ["host"], .having .empty, .limit 5]

/-- The same edits, with those of different clauses mixed. -/
def ordersMixed : List Edit :=
  [.limit 5, .groupBy ["host"],
    .filter (.add .first (.comparison "day" ">" (.bound ⟨.scalar (.int 3), .integer⟩) false)),
    .columns ["host"], .having .empty, .column (.case .empty),
    .filter (.add (.joined .or) (.comparison "host" "=" .null true)),
    .onCase (.otherwise (.int 0) true), .source (.table "orders") none, .labels ["rank"], .filter .negate]

/-- Both rows of edits on orders make the same `Select`. -/
theorem ofSteps_eq_of_clauses_orders :
    ((∀ c : Clause, ordersInOrder.filter (·.clause = c) = ordersMixed.filter (·.clause = c)) ∧
      (ofSteps (ordersInOrder.map .edit)).fault = none) ∧
      ofSteps (ordersInOrder.map .edit) = ofSteps (ordersMixed.map .edit) := by
  have h (c : Clause) : ordersInOrder.filter (·.clause = c) = ordersMixed.filter (·.clause = c) := by
    cases c <;> rfl
  have hfault : (ofSteps (ordersInOrder.map .edit)).fault = none := by
    rfl
  exact ⟨⟨h, hfault⟩, ((ofSteps_eq_of_clauses h).2.2 hfault).1⟩

/-- Which of two rejected edits is reported does depend on their order. -/
example :
    (ofSteps [.edit (.labels ["rank"]), .edit (.groupBy [])]).fault = some .tooManyAliases ∧
      (ofSteps [.edit (.groupBy []), .edit (.labels ["rank"])]).fault = some .emptyGroupBy := by
  exact ⟨rfl, rfl⟩

end Select

end BoundSql
