import BoundSql.Proofs.Places

/-!
# `BoundSql.Proofs.BoundValues` — bound values never reach the text

A parameter is there so that its value need not be written into the statement. Whether that works is a
question about two renderings: statements that differ in the values of their parameters only must come out
as the same text, or fail in the same way, and hand over parameters of the same types from the same places.
The one thing a value decides is whether BETWEEN takes it, so there the values have to be numeric in both
statements or in neither.

## Contents
- **`Param.forget`** is what is left of a parameter without its values, and **`Param.forget_eq_forget_iff`**
  says what that is; `Statement.forgetValues` does it everywhere.
- **`LeafMap.forgetValues_forgottenBy`** shows that no piece but a placeholder depends on the values.
- **`Statement.renderAfter_congr`** compares the renderings.
-/

namespace BoundSql

open Script

/-! ## Forgetting values -/

/-- Whether the values are what BETWEEN takes: two of them, both numeric. -/
def areBounds (vs : List Value) : Bool :=
  vs.length == 2 && vs.all Value.isNumeric

/-- The content without its values. What stays is how many values there are and, beside BETWEEN, whether
    they are bounds. -/
def ParamContent.forget (op : Operator) : ParamContent → ParamContent
  | .scalar _ => .scalar .null
  | .list vs => .list (vs.map fun _ => if op = .between ∧ areBounds vs then .int 0 else .null)

/-- The parameter without its values. The type tag stays. -/
def Param.forget (op : Operator) (p : Param) : Param :=
  { p with content := p.content.forget op }

@[simp] theorem Param.size_forget (op : Operator) (p : Param) : (p.forget op).size = p.size := by
  obtain ⟨content, type⟩ := p
  cases content with
  | scalar v => rfl
  | list vs => exact List.length_map _

/-- What is left of two parameters is the same if they have the same type, are both lists or both single
    values, have the same size and, beside BETWEEN, are both bounds or both none. -/
theorem Param.forget_eq_forget_iff {op : Operator} {p q : Param} :
    p.forget op = q.forget op ↔
      p.type = q.type ∧ p.content.isList = q.content.isList ∧ p.size = q.size ∧
        (op = .between → areBounds p.content.values = areBounds q.content.values) := by
  obtain ⟨content, type⟩ := p
  obtain ⟨content', type'⟩ := q
  cases content with
  | scalar v =>
    cases content' with
    | scalar v' =>
      have hnone (v : Value) : areBounds [v] = false := rfl
      simp [Param.forget, ParamContent.forget, ParamContent.isList, ParamContent.values, Param.size, hnone]
    | list vs' => simp [Param.forget, ParamContent.forget, ParamContent.isList]
  | list vs =>
    cases content' with
    | scalar v' => simp [Param.forget, ParamContent.forget, ParamContent.isList]
    | list vs' =>
      simp only [Param.forget, ParamContent.forget, ParamContent.isList, ParamContent.values, Param.size,
        Param.mk.injEq, ParamContent.list.injEq, List.map_const', List.replicate_inj, true_and]
      rw [and_comm]
      refine and_congr_right fun _ => and_congr_right fun hlength => ?_
      -- Two values beside BETWEEN are there to tell the two stand-ins apart.
      have hpair (ws : List Value) (h : areBounds ws = true) : ws.length ≠ 0 := by
        rintro hzero
        simp [areBounds, hzero] at h
      by_cases hop : op = .between
      · cases hvs : areBounds vs <;> cases hvs' : areBounds vs'
        · simp
        · simp [hop, hlength, hpair vs' hvs']
        · simp [hop, hpair vs hvs]
        · simp
      · simp [hop]

/-- The bound value without the value. -/
def BoundParam.forget (p : BoundParam) : BoundParam :=
  { p with value := .null }

/-- The leaf map that forgets the values of parameters. -/
def LeafMap.forgetValues : LeafMap where
  bound := Param.forget
  cell := BoundParam.forget
  inlined v := v
  result r := r

/-- The statement without the values of its parameters. -/
def Statement.forgetValues (s : Statement) : Statement :=
  s.mapLeaves .forgetValues

/-- The piece without the value of a placeholder. -/
def Piece.forgetValue : Piece → Piece
  | .placeholder p => .placeholder p.forget
  | piece => piece

/-- What stands to the right of an operator depends on the values only where they are bound. -/
theorem Param.map_comparand_forget (op : Operator) (p : Param) :
    ((p.forget op).comparand op).map Piece.forgetValue = (p.comparand op).map Piece.forgetValue := by
  obtain ⟨content, type⟩ := p
  cases op with
  | between =>
    match content with
    | .scalar v | .list [] | .list [_] | .list (_ :: _ :: _ :: _) => rfl
    | .list [a, b] =>
      have hbounds : areBounds [a, b] = (a.isNumeric && b.isNumeric) := by simp [areBounds]
      cases hnumeric : a.isNumeric && b.isNumeric with
      | true =>
        rw [Param.forget, ParamContent.forget, hbounds, hnumeric]
        simp only [Param.comparand, hnumeric]
        rfl
      | false =>
        rw [Param.forget, ParamContent.forget, hbounds, hnumeric]
        simp only [Param.comparand, hnumeric]
        rfl
  | oneOf =>
    match content with
    | .scalar v | .list [] => rfl
    | .list (v :: vs) =>
      refine map_inParens_congr (map_commaList_congr ?_)
      rw [List.map_map, List.map_map, List.map_map]
      exact List.map_congr_left fun _ _ => rfl
  | equal | less | greater | atMost | atLeast | unequal | like => cases content <;> rfl

theorem LeafMap.forgetValues_forgottenBy : forgetValues.ForgottenBy Piece.forgetValue where
  bound := Param.map_comparand_forget
  isList p := by
    obtain ⟨content, type⟩ := p
    cases content <;> rfl
  cell _ := rfl
  literal _ := rfl
  comparand _ _ := rfl
  result _ := rfl
  resultEmpty _ := Iff.rfl

/-! ## Renderings -/

namespace Script

theorem text_map_forgetValue (s : Script) : text (s.map Piece.forgetValue) = text s := by
  induction s with
  | nil => rfl
  | cons piece rest ih =>
    rw [List.map_cons, text, text, ih]
    cases piece <;> rfl

theorem fault?_map_forgetValue (s : Script) : fault? (s.map Piece.forgetValue) = fault? s := by
  induction s with
  | nil => rfl
  | cons piece rest ih =>
    cases piece with
    | text f | placeholder p => exact ih
    | fault f => rfl

theorem bindings_map_forgetValue (s : Script) :
    bindings (s.map Piece.forgetValue) = (bindings s).map BoundParam.forget := by
  induction s with
  | nil => rfl
  | cons piece rest ih =>
    cases piece with
    | text f => exact ih
    | placeholder p => exact congrArg (p.forget :: ·) ih
    | fault f => rfl

end Script

/-- The script of a statement, up to the values of placeholders, has no use for the values of parameters. -/
theorem Statement.map_script_congr {s t : Statement} (h : s.forgetValues = t.forgetValues) :
    s.script.map Piece.forgetValue = t.script.map Piece.forgetValue := by
  have hforget := Statement.map_script_mapLeaves LeafMap.forgetValues_forgottenBy
  rw [← hforget s, ← hforget t]
  exact congrArg (fun u : Statement => u.script.map Piece.forgetValue) h

/-- The places of the parameters of a statement, in reading order. -/
def Statement.places (s : Statement) : List Place :=
  (Node.statement s).places

/-- The parameter in a place of a statement. -/
def Statement.paramAt (s : Statement) (x : Place) : Option BoundParam :=
  (Node.statement s).paramAt x

theorem Statement.places_congr {s t : Statement} (h : s.forgetValues = t.forgetValues) :
    s.places = t.places := by
  have hforget (u : Statement) : u.forgetValues.places = u.places :=
    Node.places_mapLeaves Param.size_forget (.statement u)
  rw [← hforget s, h, hforget t]

/-- What a script of a statement binds stands in the first places of the statement. -/
theorem Statement.map_some_bindings (s : Statement) :
    (bindings s.script).map some =
      (s.places.take (bindings s.script).length).map s.paramAt := by
  obtain ⟨hinitial, -⟩ := s.binds_script
  have hplaces : s.places.map s.paramAt = s.params.map some := (Node.statement s).map_paramAt_places
  rw [List.map_take, hplaces, ← List.map_take, ← List.prefix_iff_eq_take.mp hinitial]

/-- **Bound values never influence the text.** Take two statements that are the same but for the values of
    their parameters. Then both have the same text or the same fault. The parameters that they bind, also
    before a fault, have the same types and stand, one by one, in the same places of both statements. -/
theorem Statement.renderAfter_congr {s t : Statement} (h : s.forgetValues = t.forgetValues)
    (earlier : List BoundParam) :
    (s.script.renderAfter earlier).outcome = (t.script.renderAfter earlier).outcome ∧
      ∃ (ps qs : List BoundParam) (places : List Place),
        (s.script.renderAfter earlier).params = earlier ++ ps ∧
          (t.script.renderAfter earlier).params = earlier ++ qs ∧
          ps.map (·.type) = qs.map (·.type) ∧
          places.Nodup ∧ places <+: s.places ∧ places <+: t.places ∧
          ps.map some = places.map s.paramAt ∧ qs.map some = places.map t.paramAt := by
  have hscript := Statement.map_script_congr h
  have hplaces := Statement.places_congr h
  have hfault : fault? s.script = fault? t.script := by
    rw [← fault?_map_forgetValue, hscript, fault?_map_forgetValue]
  have htext : text s.script = text t.script := by
    rw [← text_map_forgetValue, hscript, text_map_forgetValue]
  have hforget : (bindings s.script).map BoundParam.forget = (bindings t.script).map BoundParam.forget := by
    rw [← bindings_map_forgetValue, hscript, bindings_map_forgetValue]
  have hlength : (bindings s.script).length = (bindings t.script).length := by
    simpa using congrArg List.length hforget
  have htypes : (bindings s.script).map (·.type) = (bindings t.script).map (·.type) := by
    have hmap := congrArg (List.map (·.type)) hforget
    rwa [List.map_map, List.map_map] at hmap
  rw [renderAfter_eq, renderAfter_eq, render, render, hfault, htext]
  refine ⟨rfl, bindings s.script, bindings t.script, s.places.take (bindings s.script).length, rfl, rfl,
    htypes, ?_, List.take_prefix _ _, ?_, s.map_some_bindings, ?_⟩
  · exact (Node.nodup_places _).sublist (List.take_sublist _ _)
  · rw [hplaces]
    exact List.take_prefix _ _
  · rw [hplaces, hlength]
    exact t.map_some_bindings

/-- The users of one kind who came on certain days, of which a query of its own keeps account. -/
def Statement.usersSeen (first last kind : Value) : Statement :=
  let visits : Select := .ofSteps
    [.edit (.columns ["user_id"]), .edit (.source (.table "visits") none),
      .edit (.filter (.add .first
        (.comparison "day" "BETWEEN" (.bound ⟨.list [first, last], .integer⟩) false)))]
  .select (.ofSteps
    [.edit (.source (.table "users") none),
      .edit (.filter (.add .first (.comparison "id" "IN" (.subquery visits) false))),
      .edit (.filter (.add (.joined .and)
        (.comparison "kind" "=" (.bound ⟨.scalar kind, .string⟩) false)))])

/-- Two searches in one statement, one of them for numbers that stand as text and for a kind that looks
    like the end of a condition. -/
theorem Statement.renderAfter_congr_usersSeen :
    (usersSeen (.int 1) (.int 7) (.text "guest")).forgetValues =
        (usersSeen (.text "10") (.int 20) (.text "\x27 OR 1 = 1 --")).forgetValues ∧
      ((usersSeen (.int 1) (.int 7) (.text "guest")).script.renderAfter []).outcome =
        ((usersSeen (.text "10") (.int 20) (.text "\x27 OR 1 = 1 --")).script.renderAfter []).outcome ∧
      ∃ (ps qs : List BoundParam) (places : List Place),
        ((usersSeen (.int 1) (.int 7) (.text "guest")).script.renderAfter []).params = [] ++ ps ∧
          ((usersSeen (.text "10") (.int 20) (.text "\x27 OR 1 = 1 --")).script.renderAfter []).params =
            [] ++ qs ∧
          ps.map (·.type) = qs.map (·.type) ∧ places.Nodup ∧
          places <+: (usersSeen (.int 1) (.int 7) (.text "guest")).places ∧
          places <+: (usersSeen (.text "10") (.int 20) (.text "\x27 OR 1 = 1 --")).places ∧
          ps.map some = places.map (usersSeen (.int 1) (.int 7) (.text "guest")).paramAt ∧
          qs.map some =
            places.map (usersSeen (.text "10") (.int 20) (.text "\x27 OR 1 = 1 --")).paramAt := by
  have h : (usersSeen (.int 1) (.int 7) (.text "guest")).forgetValues =
      (usersSeen (.text "10") (.int 20) (.text "\x27 OR 1 = 1 --")).forgetValues := rfl
  exact ⟨h, renderAfter_congr h []⟩

end BoundSql
