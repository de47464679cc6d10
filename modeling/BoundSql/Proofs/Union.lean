import BoundSql.Build.Plan
import BoundSql.Statement

/-!
# `BoundSql.Proofs.Union` — a union renders like its two sides

After a union, the steps that follow work on a new query behind the ones there are, with a cursor that has
moved and with one slot for faults that both sides share. A caller expects them to do what they would do on
an empty `Select`. They do, as long as none of them moves the cursor back to the first query of all.

## Contents
- **`Select.unitedWith`** puts the queries of one `Select` behind those of another one.
- **`Select.apply_unitedWith`** carries one step out on the second side, and
  **`Select.ofSteps_append_union`** all of them.
- **`Select.prepare_unitedWith`** reads text and parameters off the two sides, and
  **`Select.prepare_ofSteps_union`** is the law of steps.
-/

namespace BoundSql

namespace Select

variable {a b : Select} {k : UnionKind}

/-! ## Two sides in one -/

/-- The queries of `b` behind those of `a`. The cursor stands where it stands in `b`, and a fault that was
    noted on `a` was noted first. -/
def unitedWith (a : Select) (k : UnionKind) (b : Select) : Select where
  head := a.head
  unions := a.unions ++ ⟨k, b.head⟩ :: b.unions
  cursor := a.size + b.cursor
  fault := a.fault.or b.fault

/-- A union puts an empty second side behind the first one. -/
theorem unite_eq_unitedWith (a : Select) (k : UnionKind) : a.unite k = a.unitedWith k empty := by
  have hfault : a.fault.or none = a.fault := Option.or_none
  rw [unite, unitedWith, show (empty : Select).fault = none from rfl, hfault]
  rfl

@[simp] theorem queries_unitedWith : (a.unitedWith k b).queries = a.queries ++ b.queries := by
  simp [unitedWith, queries]

@[simp] theorem size_unitedWith : (a.unitedWith k b).size = a.size + b.size := by
  simp only [unitedWith, size, List.length_append, List.length_cons]
  omega

/-! ## Steps on the second side -/

/-- The query under the cursor is the one of the second side. -/
theorem current?_unitedWith : (a.unitedWith k b).current? = b.current? := by
  have hcursor : (a.unitedWith k b).cursor = a.queries.length + b.cursor := by
    rw [length_queries]
    rfl
  rw [current?, current?, hcursor, queries_unitedWith, List.getElem?_append_right (Nat.le_add_right _ _),
    Nat.add_sub_cancel_left]

/-- Behind the first query, the cursor counts the unions. -/
theorem replaceCurrent_of_cursor_eq {s : Select} {i : Nat} (h : s.cursor = i + 1) (q : Query) :
    s.replaceCurrent q = { s with unions := s.unions.modify i fun u => { u with query := q } } := by
  rw [replaceCurrent, h]

theorem replaceCurrent_unitedWith (q : Query) :
    (a.unitedWith k b).replaceCurrent q = a.unitedWith k (b.replaceCurrent q) := by
  obtain ⟨head, unions, cursor, fault⟩ := b
  have hcursor : a.size + cursor = (a.unions.length + cursor) + 1 := by
    rw [size]
    omega
  -- What is replaced stands behind all unions of the first side.
  have hmodify (f : UnitedQuery → UnitedQuery) :
      (a.unions ++ ⟨k, head⟩ :: unions).modify (a.unions.length + cursor) f =
        a.unions ++ (⟨k, head⟩ :: unions).modify cursor f :=
    List.modifyTailIdx_add _ cursor a.unions _
  rw [replaceCurrent_of_cursor_eq hcursor]
  simp only [unitedWith, hmodify]
  cases cursor with
  | zero => rfl
  | succ i => rfl

/-- A fault on the second side is kept unless there is one on the first side already. -/
theorem note_unitedWith (f : Fault) : (a.unitedWith k b).note f = a.unitedWith k (b.note f) := by
  have hfault : keepFirst (a.fault.or b.fault) f = a.fault.or (keepFirst b.fault f) := Option.or_assoc
  rw [note, note, unitedWith, unitedWith, hfault]

theorem editCurrent_unitedWith (e : Edit) :
    (a.unitedWith k b).editCurrent e = a.unitedWith k (b.editCurrent e) := by
  rw [editCurrent, editCurrent, current?_unitedWith]
  cases b.current? with
  | none => rfl
  | some q =>
    dsimp only
    cases q.edit e with
    | ok q' => exact replaceCurrent_unitedWith q'
    | error f => exact note_unitedWith f

theorem unite_unitedWith (l : UnionKind) :
    (a.unitedWith k b).unite l = a.unitedWith k (b.unite l) := by
  have hcursor : (a.unions ++ ⟨k, b.head⟩ :: b.unions).length + 1 = a.size + (b.unions.length + 1) := by
    rw [List.length_append, List.length_cons, size]
    omega
  simp only [unite, unitedWith, hcursor, List.append_assoc, List.cons_append]

/-- **A step on the second side.** Behind a union, a step does what it does on the second side alone, unless
    it moves the cursor to the first query of all. -/
theorem apply_unitedWith {step : Step} (h : step ≠ .root) :
    (a.unitedWith k b).apply step = a.unitedWith k (b.apply step) := by
  cases step with
  | edit e => exact editCurrent_unitedWith e
  | union l => exact unite_unitedWith l
  | root => exact absurd rfl h

theorem applyAll_unitedWith {steps : List Step} (h : ∀ step ∈ steps, step ≠ .root) :
    (a.unitedWith k b).applyAll steps = a.unitedWith k (b.applyAll steps) := by
  induction steps generalizing b with
  | nil => rfl
  | cons step rest ih =>
    obtain ⟨hstep, hrest⟩ := List.forall_mem_cons.mp h
    have hfirst : (a.unitedWith k b).apply step = a.unitedWith k (b.apply step) := apply_unitedWith hstep
    calc (a.unitedWith k b).applyAll (step :: rest)
        = ((a.unitedWith k b).apply step).applyAll rest := rfl
      _ = (a.unitedWith k (b.apply step)).applyAll rest := by rw [hfirst]
      _ = a.unitedWith k ((b.apply step).applyAll rest) := ih hrest

/-- Steps behind a union make the second side as they would make it from nothing. -/
theorem ofSteps_append_union {steps₂ : List Step} (steps₁ : List Step)
    (h : ∀ step ∈ steps₂, step ≠ .root) :
    ofSteps (steps₁ ++ .union k :: steps₂) = (ofSteps steps₁).unitedWith k (ofSteps steps₂) := by
  have hsplit : ofSteps (steps₁ ++ .union k :: steps₂) =
      ((ofSteps steps₁).unite k).applyAll steps₂ := by
    rw [ofSteps, applyAll, List.foldl_append]
    rfl
  rw [hsplit, unite_eq_unitedWith, applyAll_unitedWith h]
  rfl

/-! ## Rendering the two sides -/

theorem unionsScript_append (us vs : List UnitedQuery) :
    unionsScript (us ++ vs) = unionsScript us ++ unionsScript vs := by
  induction us with
  | nil => rfl
  | cons u rest ih =>
    obtain ⟨kind, query⟩ := u
    rw [List.cons_append, unionsScript, unionsScript, ih, List.cons_append, List.append_assoc]

/-- Without a noted fault, the script of a union is that of its sides with the words of the union between
    them. -/
theorem script_unitedWith (ha : a.fault = none) (hb : b.fault = none) :
    (a.unitedWith k b).script = a.script ++ .keyword k.words :: b.script := by
  obtain ⟨headA, unionsA, cursorA, faultA⟩ := a
  obtain ⟨headB, unionsB, cursorB, faultB⟩ := b
  cases ha
  cases hb
  simp only [unitedWith, Option.or_none, Select.script, unionsScript_append, unionsScript,
    List.append_assoc]

/-- A noted fault shows in the script. -/
theorem fault_eq_none_of_script {s : Select} (h : Script.fault? s.script = none) : s.fault = none := by
  obtain ⟨head, unions, cursor, fault⟩ := s
  cases fault with
  | none => rfl
  | some f =>
    rw [Select.script] at h
    cases h

/-- A union has no fault if neither side has one. -/
theorem fault?_script_unitedWith :
    Script.fault? (a.unitedWith k b).script = none ↔
      Script.fault? a.script = none ∧ Script.fault? b.script = none := by
  have hscript (ha : a.fault = none) (hb : b.fault = none) :
      Script.fault? (a.unitedWith k b).script = none ↔
        Script.fault? a.script = none ∧ Script.fault? b.script = none := by
    rw [script_unitedWith ha hb, Script.fault?_append_eq_none]
    rfl
  constructor
  · intro h
    have hfault : a.fault.or b.fault = none := fault_eq_none_of_script h
    obtain ⟨ha, hb⟩ := Option.or_eq_none_iff.mp hfault
    exact (hscript ha hb).mp h
  · intro h
    have ha : a.fault = none := fault_eq_none_of_script h.1
    have hb : b.fault = none := fault_eq_none_of_script h.2
    exact (hscript ha hb).mpr h

/-- A union is prepared if both sides are: their texts with the words of the union between them, and
    their parameters in a row. -/
theorem prepare_unitedWith {p : Prepared} :
    (Statement.select (a.unitedWith k b)).prepare = .ok p ↔
      ∃ p₁ p₂, (Statement.select a).prepare = .ok p₁ ∧ (Statement.select b).prepare = .ok p₂ ∧
        p = ⟨p₁.sql ++ k.words ++ p₂.sql, p₁.params ++ p₂.params⟩ := by
  -- With both sides free of faults, the whole is read off its script.
  have hwhole (ha : Script.fault? a.script = none) (hb : Script.fault? b.script = none) :
      (⟨Script.text (a.unitedWith k b).script, Script.bindings (a.unitedWith k b).script⟩ : Prepared) =
        ⟨Script.text a.script ++ k.words ++ Script.text b.script,
          Script.bindings a.script ++ Script.bindings b.script⟩ := by
    rw [script_unitedWith (fault_eq_none_of_script ha) (fault_eq_none_of_script hb), Script.text_append,
      Script.bindings_append_of_fault?_eq_none ha, String.append_assoc]
    rfl
  rw [Statement.prepare_eq_ok_iff, Statement.script, fault?_script_unitedWith]
  constructor
  · rintro ⟨⟨ha, hb⟩, rfl⟩
    exact ⟨_, _, Statement.prepare_eq_ok_iff.mpr ⟨ha, rfl⟩, Statement.prepare_eq_ok_iff.mpr ⟨hb, rfl⟩,
      hwhole ha hb⟩
  · rintro ⟨p₁, p₂, h₁, h₂, rfl⟩
    obtain ⟨ha, rfl⟩ := Statement.prepare_eq_ok_iff.mp h₁
    obtain ⟨hb, rfl⟩ := Statement.prepare_eq_ok_iff.mp h₂
    exact ⟨⟨ha, hb⟩, (hwhole ha hb).symm⟩

/-- **UNION is a homomorphism.** Carry out the steps of `plans₁`, a union, and the steps of `plans₂`, none of
    which goes back to the first query. The result is prepared exactly if the steps of `plans₁` and those of
    `plans₂`, each from nothing, make something that is prepared. Then its text is the two texts with the
    words of the union between them, its parameters are those of both in a row, and it has the queries of
    both. -/
theorem prepare_ofSteps_union {plans₂ : List (Plan Step)} (plans₁ : List (Plan Step)) (k : UnionKind)
    (h : ∀ step ∈ Plan.allSteps plans₂, step ≠ .root) :
    let first := ofSteps (Plan.allSteps plans₁)
    let second := ofSteps (Plan.allSteps plans₂)
    let whole := ofSteps (Plan.allSteps (plans₁ ++ .step (.union k) :: plans₂))
    (∀ p, (Statement.select whole).prepare = .ok p ↔
      ∃ p₁ p₂, (Statement.select first).prepare = .ok p₁ ∧ (Statement.select second).prepare = .ok p₂ ∧
        p = ⟨p₁.sql ++ k.words ++ p₂.sql, p₁.params ++ p₂.params⟩) ∧
      whole.size = first.size + second.size := by
  intro first second whole
  have hsteps : Plan.allSteps (plans₁ ++ .step (.union k) :: plans₂) =
      Plan.allSteps plans₁ ++ .union k :: Plan.allSteps plans₂ := by
    rw [Plan.allSteps_append, Plan.allSteps, Plan.steps]
    rfl
  have hwhole : whole = first.unitedWith k second := by
    show ofSteps (Plan.allSteps (plans₁ ++ .step (.union k) :: plans₂)) = _
    rw [hsteps]
    exact ofSteps_append_union (Plan.allSteps plans₁) h
  rw [hwhole]
  exact ⟨fun p => prepare_unitedWith, size_unitedWith⟩

/-- Two queries, of which the first one is edited again after the second one. -/
def staffPlans : List (Plan Step) :=
  [.step (.edit (.source (.table "staff") none)), .step (.union .distinct),
    .step (.edit (.source (.table "guests") none)), .step .root,
    .step (.edit (.filter (.add .first (.comparison "id" "=" (.bound ⟨.scalar (.int 1), .integer⟩) false))))]

/-- One query, in whose subquery the cursor goes back, and which would go back itself under a condition that
    does not hold. -/
def visitorPlans : List (Plan Step) :=
  [.onlyIf false [.step .root],
    .step (.edit (.source (.subquery (.ofSteps [.edit (.source (.table "visits") none), .root])) none)),
    .onlyIf true [.step (.edit (.filter
      (.add .first (.comparison "day" "=" (.bound ⟨.scalar (.int 2), .integer⟩) false))))]]

/-- The filter of the first query does not reach the one behind the union. -/
theorem prepare_ofSteps_union_visitors :
    (∀ step ∈ Plan.allSteps visitorPlans, step ≠ .root) ∧
      (Statement.select (ofSteps (Plan.allSteps
        (staffPlans ++ .step (.union .all) :: visitorPlans)))).prepare =
        .ok ⟨"SELECT * FROM staff WHERE id = ? UNION SELECT * FROM guests" ++ " UNION ALL " ++
            "SELECT * FROM (SELECT * FROM visits) WHERE day = ?",
          [⟨.int 1, .integer⟩] ++ [⟨.int 2, .integer⟩]⟩ := by
  have h : ∀ step ∈ Plan.allSteps visitorPlans, step ≠ .root := by
    simp [visitorPlans, Plan.allSteps, Plan.steps]
  have hfirst : (Statement.select (ofSteps (Plan.allSteps staffPlans))).prepare =
      .ok ⟨"SELECT * FROM staff WHERE id = ? UNION SELECT * FROM guests", [⟨.int 1, .integer⟩]⟩ := by
    rfl
  have hsecond : (Statement.select (ofSteps (Plan.allSteps visitorPlans))).prepare =
      .ok ⟨"SELECT * FROM (SELECT * FROM visits) WHERE day = ?", [⟨.int 2, .integer⟩]⟩ := by
    rfl
  exact ⟨h, ((prepare_ofSteps_union staffPlans .all h).1 _).mpr ⟨_, _, hfirst, hsecond, rfl⟩⟩

end Select

end BoundSql
