import BoundSql.Proofs.Comparisons
import BoundSql.Proofs.Precedence

/-!
# `BoundSql.Proofs.CaseScripts` — what becomes of the steps on a CASE

A CASE is put together by steps in any order. A result belongs to the branch that was opened before it, and
another result takes its place. Values are written when they are given, guards when the CASE is rendered. A
value that cannot be written, and a result without a branch, leave their fault behind. All of this can be read
off the list of the steps, without a CASE being built.

## Contents
- **`Value.resultText`** is the text of a result, and **`Value.resultFault?`** says which values have none.
- **`CaseColumn.openings`**, **`CaseColumn.lastText?`** and **`CaseColumn.firstRefusal?`** read branches, ELSE
  result, label and first refusal off a list of steps; **`CaseColumn.scriptText`** puts the text together.
- **One step, all steps.** `shown_apply` and `shown_applyAll` for the branches, and two such lemmas for each
  other field.
- **`CaseColumn.Renders`** says when a CASE can be rendered; `Renders.writes` says what is then written.
-/

namespace BoundSql

open Script

/-! ## Results -/

/-- The text of a result. A text in quotes is a literal, unless it reads as a number; any other text is copied,
    and any other value is written as its literal. -/
def Value.resultText (v : Value) (quoted : Bool) : String :=
  match v with
  | .text s => if quoted && !isNumericText s then Literal.quote s else s
  | v => v.written

/-- Why a value cannot be a result: it is an infinity or a NaN. -/
def Value.resultFault? : Value → Option Fault
  | .float x => if x.isFinite then none else some (.notFinite x)
  | .null | .bool _ | .int _ | .text _ => none

theorem Value.resultFault?_eq_some_iff {v : Value} {f : Fault} :
    v.resultFault? = some f ↔ ∃ x : Double, v = .float x ∧ x.isFinite = false ∧ f = .notFinite x := by
  cases v with
  | null | bool b | int i | text s => simp [resultFault?]
  | float x =>
    rw [resultFault?]
    constructor
    · intro h
      split at h
      · cases h
      · rename_i hx
        cases h
        exact ⟨x, rfl, Bool.eq_false_iff.mpr hx, rfl⟩
    · rintro ⟨_, ⟨⟩, hx, rfl⟩
      rw [if_neg (Bool.eq_false_iff.mp hx)]

/-- What is written for a value that can be a result. -/
theorem Value.result_of_resultFault? {v : Value} (h : v.resultFault? = none) (quoted : Bool) :
    (v.result quoted).map Fragment.text = .ok (v.resultText quoted) := by
  cases v with
  | null | bool b | int i => rfl
  | text s =>
    rw [result, resultText]
    cases quoted && !isNumericText s <;> rfl
  | float x =>
    have hfinite : x.isFinite = true := by
      by_contra hx
      rw [resultFault?, if_neg hx] at h
      cases h
    show (literal (.float x)).map Fragment.text = _
    rw [literal, if_pos hfinite]
    rfl

/-- A result that is accepted has the text of its value. -/
theorem CaseResult.exists_of_eq_ok {v : Value} (h : v.resultFault? = none) (quoted : Bool) :
    ∃ r, CaseResult.of v quoted = .ok r ∧ r.fragment.text = v.resultText quoted := by
  have htext := Value.result_of_resultFault? h quoted
  rw [← map_fragment_of] at htext
  cases hof : CaseResult.of v quoted with
  | error f =>
    rw [hof] at htext
    cases htext
  | ok r =>
    rw [hof] at htext
    exact ⟨r, rfl, Except.ok.inj htext⟩

namespace CaseColumn

/-! ## Steps as they are read -/

/-- Whether a step opens a branch. -/
def Step.isBranch : Step → Bool
  | .branch _ => true
  | .result _ _ | .otherwise _ _ | .label _ => false

/-- The text of the result that a step gives. -/
def Step.resultText? : Step → Option String
  | .result v quoted => some (v.resultText quoted)
  | .branch _ | .otherwise _ _ | .label _ => none

/-- The text of the ELSE result that a step gives. -/
def Step.otherwiseText? : Step → Option String
  | .otherwise v quoted => some (v.resultText quoted)
  | .branch _ | .result _ _ | .label _ => none

/-- The label that a step gives. -/
def Step.label? : Step → Option String
  | .label s => some s
  | .branch _ | .result _ _ | .otherwise _ _ => none

/-- The text that the last of some steps gives, if one of them gives any. -/
def lastText? (text? : Step → Option String) (steps : List Step) : Option String :=
  (steps.filterMap text?).getLast?

/-- A branch: its guard, and the text of its result. -/
structure Opening where
  guard : Predicate
  result : String

/-- The branches that are opened. The result of each is the last one that is given before the next one is
    opened, and empty if none is. -/
def openings : List Step → List Opening
  | [] => []
  | .branch guard :: rest =>
    ⟨guard, (lastText? Step.resultText? (rest.takeWhile (!·.isBranch))).getD ""⟩ :: openings rest
  | .result _ _ :: rest | .otherwise _ _ :: rest | .label _ :: rest => openings rest

/-- The text of a branch: the guard, in parentheses behind NOT if it is negated, and the result. -/
def Opening.text (o : Opening) : String :=
  " WHEN " ++ (if o.guard.negated then "NOT (" ++ Script.text o.guard.script ++ ")"
    else Script.text o.guard.script) ++ " THEN " ++ o.result

/-- The ELSE result, unless it is empty. -/
def otherwiseText (s : String) : String :=
  if s = "" then "" else " ELSE " ++ s

/-- The label, unless it is empty. -/
def labelText (s : String) : String :=
  if s = "" then "" else " AS \"" ++ s ++ "\""

/-- The text of the CASE that steps ask for. -/
def scriptText (steps : List Step) : String :=
  "CASE" ++ String.join ((openings steps).map Opening.text) ++
    otherwiseText ((lastText? Step.otherwiseText? steps).getD "") ++ " END" ++
    labelText ((lastText? Step.label? steps).getD "")

/-- Why a step is refused: a result needs a branch, and its value has to be one that can be written. -/
def Step.refusal? (hasBranch : Bool) : Step → Option Fault
  | .branch _ | .label _ => none
  | .result v _ => if hasBranch then v.resultFault? else some .noBranch
  | .otherwise v _ => v.resultFault?

/-- The fault of the first step that is refused. -/
def firstRefusal? (hasBranch : Bool) : List Step → Option Fault
  | [] => none
  | step :: rest => (step.refusal? hasBranch).or (firstRefusal? (hasBranch || step.isBranch) rest)

/-- The first of two lists of steps comes first. Whether a step opens a branch matters to all behind it. -/
theorem firstRefusal?_append (hasBranch : Bool) (steps later : List Step) :
    firstRefusal? hasBranch (steps ++ later) = (firstRefusal? hasBranch steps).or
      (firstRefusal? (hasBranch || steps.any Step.isBranch) later) := by
  induction steps generalizing hasBranch with
  | nil =>
    rw [List.any_nil, Bool.or_false]
    rfl
  | cons step rest ih =>
    rw [List.cons_append, firstRefusal?, ih, firstRefusal?, Option.or_assoc, List.any_cons, Bool.or_assoc]

theorem lastText?_cons (text? : Step → Option String) (step : Step) (rest : List Step) :
    lastText? text? (step :: rest) = (lastText? text? rest).or (text? step) := by
  rw [lastText?, List.filterMap_cons, lastText?]
  cases text? step with
  | none => exact Option.or_none.symm
  | some s =>
    show (s :: rest.filterMap text?).getLast? = _
    rw [List.getLast?_cons]
    cases (rest.filterMap text?).getLast? <;> rfl

/-! ## The slot for faults -/

variable {c : CaseColumn} {step : Step} {steps : List Step}

theorem rejects_iff_refusal? {f : Fault} :
    c.Rejects step f ↔ step.refusal? (!c.branches.isEmpty) = some f := by
  cases step with
  | branch guard | label s => exact iff_of_false (by rintro ⟨⟩) (by rintro ⟨⟩)
  | otherwise v quoted =>
    rw [Step.refusal?, Value.resultFault?_eq_some_iff]
    constructor
    · rintro ⟨⟩
      exact ⟨_, rfl, ‹_›, rfl⟩
    · rintro ⟨x, rfl, hx, rfl⟩
      exact .otherwise hx
  | result v quoted =>
    rw [Step.refusal?]
    cases hbranches : c.branches with
    | nil =>
      constructor
      · rintro ⟨⟩
        · rfl
        · exact absurd hbranches ‹_›
      · rintro ⟨⟩
        exact .noBranch hbranches
    | cons b rest =>
      have hne : c.branches ≠ [] := hbranches ▸ List.cons_ne_nil b rest
      rw [if_pos (by rfl), Value.resultFault?_eq_some_iff]
      constructor
      · rintro ⟨⟩
        · exact absurd ‹_› hne
        · exact ⟨_, rfl, ‹_›, rfl⟩
      · rintro ⟨x, rfl, hx, rfl⟩
        exact .result hne hx

/-- A step leaves its fault in an empty slot, if it is refused. -/
theorem fault_apply_eq (c : CaseColumn) (step : Step) :
    (c.apply step).fault = c.fault.or (step.refusal? (!c.branches.isEmpty)) := by
  cases hfault : c.fault with
  | some f => exact fault_apply hfault step
  | none =>
    rw [Option.none_or]
    ext f
    rw [fault_apply_eq_some_iff hfault, rejects_iff_refusal?]

theorem hasBranch_apply (c : CaseColumn) (step : Step) :
    (!(c.apply step).branches.isEmpty) = (!c.branches.isEmpty || step.isBranch) := by
  have hempty : (c.apply step).branches.isEmpty = true ↔ c.branches.isEmpty = true ∧ step.isBranch = false := by
    rw [List.isEmpty_iff, List.isEmpty_iff, ← List.map_eq_nil_iff (f := (·.guard)), guards_apply]
    cases step <;> simp [Step.guards, Step.isBranch]
  rw [Bool.eq_iff_iff, Bool.or_eq_true, Bool.not_eq_true', Bool.not_eq_true', ← Bool.not_eq_true, hempty,
    not_and_or, Bool.not_eq_true, Bool.not_eq_false]

/-- The slot holds the fault of the first step that was refused. -/
theorem fault_applyAll (c : CaseColumn) (steps : List Step) :
    (steps.foldl apply c).fault = c.fault.or (firstRefusal? (!c.branches.isEmpty) steps) := by
  induction steps generalizing c with
  | nil => exact Option.or_none.symm
  | cons step rest ih =>
    rw [List.foldl_cons, ih, fault_apply_eq, hasBranch_apply, Option.or_assoc]
    rfl

/-! ## The fields -/

/-- A branch with the text of its result. -/
def opening (b : Branch) : Opening where
  guard := b.guard
  result := (b.result.map (·.fragment.text)).getD ""

/-- The branches of a CASE with the texts of their results. -/
def shown (c : CaseColumn) : List Opening :=
  c.branches.map opening

/-- The branches with another result for the last one, if there is one. -/
def withResult (os : List Opening) : Option String → List Opening
  | none => os
  | some r => os.dropLast ++ os.getLast?.toList.map fun o => { o with result := r }

theorem withResult_concat (os : List Opening) (o : Opening) (result? : Option String) :
    withResult (os ++ [o]) result? = os ++ [{ o with result := result?.getD o.result }] := by
  cases result? with
  | none => rfl
  | some r =>
    rw [withResult, List.dropLast_concat, List.getLast?_concat]
    rfl

/-- Of two results for a branch, the second one stays. -/
theorem withResult_withResult (os : List Opening) (first second : Option String) :
    withResult (withResult os first) second = withResult os (second.or first) := by
  rcases List.eq_nil_or_concat' os with rfl | ⟨front, o, rfl⟩
  · cases first <;> cases second <;> rfl
  · rw [withResult_concat, withResult_concat, withResult_concat]
    cases second <;> rfl

/-- A result that is not refused goes to the last branch. -/
theorem exists_apply_result {v : Value} {quoted : Bool}
    (h : (Step.result v quoted).refusal? (!c.branches.isEmpty) = none) :
    ∃ front b r, c.branches = front ++ [b] ∧ r.fragment.text = v.resultText quoted ∧
      c.apply (.result v quoted) = { c with branches := front ++ [{ b with result := some r }] } := by
  rw [Step.refusal?] at h
  rcases List.eq_nil_or_concat' c.branches with hnil | ⟨front, b, hlast⟩
  · rw [hnil] at h
    cases h
  · have hbranch : (!c.branches.isEmpty) = true := by
      rw [hlast]
      cases front <;> rfl
    rw [if_pos hbranch] at h
    obtain ⟨r, hr, htext⟩ := CaseResult.exists_of_eq_ok h quoted
    refine ⟨front, b, r, hlast, htext, ?_⟩
    simp only [apply, edit, giveResult, hlast, List.getLast?_concat, hr, List.dropLast_concat]

/-- A step that is not refused opens a branch, or gives the last one another result. -/
theorem shown_apply (h : step.refusal? (!c.branches.isEmpty) = none) :
    (c.apply step).shown = withResult c.shown step.resultText? ++ step.guards.map (⟨·, ""⟩) := by
  cases step with
  | branch guard =>
    show (c.branches ++ [(⟨guard, none⟩ : Branch)]).map _ = _
    rw [List.map_append]
    rfl
  | label s => exact (List.append_nil _).symm
  | otherwise v quoted =>
    obtain ⟨r, hr, -⟩ := CaseResult.exists_of_eq_ok h quoted
    simp only [apply, edit, hr]
    exact (List.append_nil _).symm
  | result v quoted =>
    obtain ⟨front, b, r, hlast, htext, happly⟩ := exists_apply_result h
    have hopening : opening { b with result := some r } = { opening b with result := v.resultText quoted } :=
      congrArg (Opening.mk b.guard) htext
    rw [happly, shown, shown, hlast, List.map_append, List.map_append, List.map_singleton, List.map_singleton,
      hopening, withResult_concat]
    exact (List.append_nil _).symm

theorem otherwise_apply (h : step.refusal? (!c.branches.isEmpty) = none) :
    (c.apply step).otherwise.map (·.fragment.text) =
      step.otherwiseText?.or (c.otherwise.map (·.fragment.text)) := by
  cases step with
  | branch guard | label s => rfl
  | otherwise v quoted =>
    obtain ⟨r, hr, htext⟩ := CaseResult.exists_of_eq_ok h quoted
    simp only [apply, edit, hr]
    exact congrArg some htext
  | result v quoted =>
    obtain ⟨front, b, r, -, -, happly⟩ := exists_apply_result h
    rw [happly]
    rfl

theorem label_apply (h : step.refusal? (!c.branches.isEmpty) = none) :
    (c.apply step).label = step.label?.or c.label := by
  cases step with
  | branch guard | label s => rfl
  | otherwise v quoted =>
    obtain ⟨r, hr, -⟩ := CaseResult.exists_of_eq_ok h quoted
    simp only [apply, edit, hr]
    rfl
  | result v quoted =>
    obtain ⟨front, b, r, -, -, happly⟩ := exists_apply_result h
    rw [happly]
    rfl

/-- If no step is refused, none of those behind the first one is. -/
theorem firstRefusal?_cons_eq_none {rest : List Step}
    (h : firstRefusal? (!c.branches.isEmpty) (step :: rest) = none) :
    step.refusal? (!c.branches.isEmpty) = none ∧ firstRefusal? (!(c.apply step).branches.isEmpty) rest = none := by
  rw [hasBranch_apply]
  exact Option.or_eq_none_iff.mp h

/-- The branches of a CASE are those that were there, the last one with the last result that was given before
    another branch was opened, and then those that the steps open. -/
theorem shown_applyAll (h : firstRefusal? (!c.branches.isEmpty) steps = none) :
    (steps.foldl apply c).shown =
      withResult c.shown (lastText? Step.resultText? (steps.takeWhile (!·.isBranch))) ++ openings steps := by
  induction steps generalizing c with
  | nil => exact (List.append_nil _).symm
  | cons step rest ih =>
    obtain ⟨hstep, hrest⟩ := firstRefusal?_cons_eq_none h
    rw [List.foldl_cons, ih hrest, shown_apply hstep]
    cases step with
    | branch guard =>
      show withResult (c.shown ++ [⟨guard, ""⟩]) _ ++ _ = c.shown ++ openings (.branch guard :: rest)
      rw [withResult_concat, openings, List.append_assoc, List.singleton_append]
    | result v quoted | otherwise v quoted | label s =>
      rw [Step.guards, List.map_nil, List.append_nil, withResult_withResult, ← lastText?_cons]
      rfl

theorem otherwise_applyAll (h : firstRefusal? (!c.branches.isEmpty) steps = none) :
    (steps.foldl apply c).otherwise.map (·.fragment.text) =
      (lastText? Step.otherwiseText? steps).or (c.otherwise.map (·.fragment.text)) := by
  induction steps generalizing c with
  | nil => rfl
  | cons step rest ih =>
    obtain ⟨hstep, hrest⟩ := firstRefusal?_cons_eq_none h
    rw [List.foldl_cons, ih hrest, otherwise_apply hstep, lastText?_cons, Option.or_assoc]

theorem label_applyAll (h : firstRefusal? (!c.branches.isEmpty) steps = none) :
    (steps.foldl apply c).label = (lastText? Step.label? steps).or c.label := by
  induction steps generalizing c with
  | nil => rfl
  | cons step rest ih =>
    obtain ⟨hstep, hrest⟩ := firstRefusal?_cons_eq_none h
    rw [List.foldl_cons, ih hrest, label_apply hstep, lastText?_cons, Option.or_assoc]

/-! ## The text -/

theorem writes_fragment (f : Fragment) : Writes [.text f] f.text [] :=
  ⟨rfl, String.append_empty, rfl⟩

/-- A guard that can be rendered, behind NOT if it is negated. -/
theorem writes_negatable {p : Predicate} (h : fault? p.script = none) :
    Writes (negatable p.negated p.script)
      (if p.negated then "NOT (" ++ Script.text p.script ++ ")" else Script.text p.script) p.params := by
  have hguard : Writes p.script (Script.text p.script) p.params := ⟨h, rfl, p.binds_script.2 h⟩
  cases p.negated with
  | false => exact hguard
  | true =>
    have hnot := hguard.inParens.text (f := .keyword "NOT ")
    rw [← String.append_assoc, ← String.append_assoc] at hnot
    exact hnot

theorem writes_branchesScript {branches : List Branch}
    (h : ∀ b ∈ branches, fault? b.guard.script = none) :
    Writes (branchesScript branches) (String.join ((branches.map opening).map Opening.text))
      (branches.flatMap (·.guard.params)) := by
  induction branches with
  | nil => exact .nil
  | cons b rest ih =>
    obtain ⟨hb, hrest⟩ := List.forall_mem_cons.mp h
    obtain ⟨guard, result⟩ := b
    have hresult : Writes (result.toList.map fun r => .text r.fragment) (opening ⟨guard, result⟩).result [] := by
      cases result with
      | none => exact .nil
      | some r => exact writes_fragment r.fragment
    have hbehind := (hresult.append (ih hrest)).text (f := .keyword " THEN ")
    have hall := ((writes_negatable hb).append hbehind).text (f := .keyword " WHEN ")
    rw [branchesScript, List.map_cons, List.map_cons, String.join_cons, Opening.text]
    simp only [String.append_assoc]
    exact hall

theorem writes_otherwiseScript (otherwise : Option CaseResult) :
    Writes (otherwiseScript otherwise) (otherwiseText ((otherwise.map (·.fragment.text)).getD "")) [] := by
  cases otherwise with
  | none => exact .nil
  | some r =>
    show Writes (otherwiseScript (some r)) (otherwiseText r.fragment.text) []
    rw [otherwiseScript, otherwiseText]
    split
    · exact .nil
    · exact (writes_fragment r.fragment).text (f := .keyword " ELSE ")

theorem writes_labelled {s : Script} {sql : String} {ps : List BoundParam} (h : Writes s sql ps)
    (label : Option String) : Writes (labelled s label) (sql ++ labelText (label.getD "")) ps := by
  cases label with
  | none =>
    show Writes s (sql ++ "") ps
    rwa [String.append_empty]
  | some l =>
    show Writes (labelled s (some l)) (sql ++ labelText l) ps
    rw [labelled, labelText]
    split
    · rwa [String.append_empty]
    · have hname := ((writes_fragment (.keyword "\"")).text (f := .verbatim l)).text (f := .keyword " AS \"")
      have hall := h.append hname
      rw [List.append_nil] at hall
      simp only [String.append_assoc]
      exact hall

/-- A CASE without a fault is written as its fields say. -/
theorem writes_script (hfault : c.fault = none) (hopen : c.shown ≠ [])
    (hguards : ∀ o ∈ c.shown, fault? o.guard.script = none) :
    Writes c.script
      ("CASE" ++ String.join (c.shown.map Opening.text) ++
        otherwiseText ((c.otherwise.map (·.fragment.text)).getD "") ++ " END" ++ labelText (c.label.getD ""))
      (c.shown.flatMap (·.guard.params)) := by
  obtain ⟨branches, otherwise, label, fault⟩ := c
  obtain rfl : fault = none := hfault
  have hbranches := writes_branchesScript fun b hb => hguards (opening b) (List.mem_map_of_mem hb)
  have hbody := (hbranches.append (writes_otherwiseScript otherwise)).append (writes_fragment (.keyword " END"))
  have hall := writes_labelled (hbody.text (f := .keyword "CASE")) label
  rw [List.append_nil, List.append_nil] at hall
  rw [CaseColumn.script, shown, List.flatMap_map]
  · simp only [String.append_assoc] at hall ⊢
    exact hall
  · rintro rfl
    exact hopen rfl

theorem fault_ofSteps (steps : List Step) : (ofSteps steps).fault = firstRefusal? false steps :=
  fault_applyAll empty steps

/-- Steps on an empty CASE, none of which is refused. -/
theorem fields_ofSteps (h : firstRefusal? false steps = none) :
    (ofSteps steps).fault = none ∧ (ofSteps steps).shown = openings steps ∧
      (ofSteps steps).otherwise.map (·.fragment.text) = lastText? Step.otherwiseText? steps ∧
      (ofSteps steps).label = lastText? Step.label? steps := by
  have hsteps : firstRefusal? (!empty.branches.isEmpty) steps = none := h
  refine ⟨(fault_ofSteps steps).trans h, ?_, ?_, ?_⟩
  · have hempty (result? : Option String) : withResult [] result? = [] := by cases result? <;> rfl
    exact (shown_applyAll hsteps).trans (congrArg (· ++ openings steps) (hempty _))
  · exact (otherwise_applyAll hsteps).trans Option.or_none
  · exact (label_applyAll hsteps).trans Option.or_none

/-- Steps make a CASE that can be rendered: none of them is refused, one of them opens a branch, and every guard
    can be rendered. -/
structure Renders (steps : List Step) : Prop where
  refusal : firstRefusal? false steps = none
  opened : openings steps ≠ []
  guards : ∀ o ∈ openings steps, fault? o.guard.script = none

/-- A CASE that can be rendered is written as its steps ask for. -/
theorem Renders.writes (h : Renders steps) :
    Writes (ofSteps steps).script (scriptText steps) ((openings steps).flatMap (·.guard.params)) := by
  obtain ⟨hrefusal, hopen, hguards⟩ := h
  obtain ⟨hfault, hshown, hotherwise, hlabel⟩ := fields_ofSteps hrefusal
  rw [← hshown] at hopen hguards
  have hall := writes_script hfault hopen hguards
  rwa [hshown, hotherwise, hlabel] at hall

/-- A CASE of which a step was refused is written as the fault of this step. -/
theorem script_ofSteps_of_refusal {f : Fault} (h : firstRefusal? false steps = some f) :
    (ofSteps steps).script = [.fault f] := by
  have hfault : (ofSteps steps).fault = some f := (fault_ofSteps steps).trans h
  exact Part.script_of_noted (x := .column (.case (ofSteps steps))) hfault

theorem fault?_script_ofSteps_eq_none_iff : fault? (ofSteps steps).script = none ↔ Renders steps := by
  refine ⟨fun h => ?_, fun h => h.writes.1⟩
  cases hrefusal : firstRefusal? false steps with
  | some f =>
    rw [script_ofSteps_of_refusal hrefusal] at h
    cases h
  | none =>
    obtain ⟨-, hshown, -, -⟩ := fields_ofSteps hrefusal
    rw [(ofSteps steps).obeys_script, firstFailure_eq_none_iff] at h
    -- What is checked of a CASE is that there is a branch, and what is checked of its guards.
    generalize ofSteps steps = c at h hshown
    obtain ⟨branches, otherwise, label, fault⟩ := c
    rw [checks, branchesChecks_eq_flatMap] at h
    refine ⟨hrefusal, ?_, ?_⟩
    · intro hnil
      have hbranches : branches = [] := List.map_eq_nil_iff.mp (hshown.trans hnil)
      have hopen := h _ (List.mem_append_right _ List.mem_cons_self)
      rw [hbranches] at hopen
      cases hopen
    · intro o ho
      rw [← hshown] at ho
      obtain ⟨b, hb, rfl⟩ := List.mem_map.mp ho
      show fault? b.guard.script = none
      rw [b.guard.obeys_script, firstFailure_eq_none_iff]
      intro k hk
      exact h k (List.mem_append_right _ (List.mem_cons_of_mem _ (List.mem_flatMap.mpr ⟨b, hb, hk⟩)))

end CaseColumn

end BoundSql
