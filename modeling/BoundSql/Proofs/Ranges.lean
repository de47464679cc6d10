import BoundSql.Proofs.Comparisons

/-!
# `BoundSql.Proofs.Ranges` — the ends of a range

A range has two ends. Bound as parameters, they have to be numeric. Written out, any text will do, be it
numeric or not, so one list of values can be refused as a parameter and accepted where it is written out.
Texts that are not numeric are the only reason for this.

## Contents
- **`Value.isComparable_iff`** and **`Value.isNumeric_iff`** compare what may stand beside an operator with what
  is numeric.
- **`Operand.IsRange`** lists the operands that BETWEEN accepts, and `Operand.isRange_iff_checks` reads them off
  the checks.
- **`Comparison.isRendered_between_iff`** is the law of ranges, and
  **`Comparison.not_isNumeric_of_between`** says what does not hold of them.
-/

namespace BoundSql

/-- A comparison is rendered behind parameters that are already bound. -/
def Comparison.IsRendered (c : Comparison) (earlier : List BoundParam) : Prop :=
  ∃ sql, (c.script.renderAfter earlier).outcome = .ok sql

/-- A comparison is rendered if its operand passes all checks of its operator. -/
theorem Comparison.isRendered_iff_checks {c : Comparison} {earlier : List BoundParam} :
    c.IsRendered earlier ↔ ∀ k ∈ c.operand.checks c.operator, k.passes = true := by
  have hchecks : Script.fault? c.script = firstFailure (c.operand.checks c.operator) := by
    obtain ⟨field, op, operand, negated⟩ := c
    exact Comparison.obeys_script ⟨field, op, operand, negated⟩
  rw [← firstFailure_eq_none_iff, ← hchecks, IsRendered, Script.renderAfter_eq]
  constructor
  · rintro ⟨sql, hsql⟩
    exact (Script.render_eq_ok_iff.mp hsql).1
  · intro h
    exact ⟨_, Script.render_eq_ok_iff.mpr ⟨h, rfl⟩⟩

/-! ## Values at the ends -/

/-- What may stand beside an operator is numeric or a text. -/
theorem Value.isComparable_iff {v : Value} : v.isComparable = true ↔ v.isNumeric = true ∨ ∃ s, v = .text s := by
  cases v with
  | null | bool b => simp [isComparable, isNumeric]
  | int i | float x => simp [isComparable, isNumeric]
  | text s => simp [isComparable]

/-- What may stand beside an operator is numeric, unless it is a text that is not. -/
theorem Value.isNumeric_iff {v : Value} :
    v.isNumeric = true ↔ v.isComparable = true ∧ ∀ s, v = .text s → isNumericText s = true := by
  cases v with
  | null | bool b => simp [isComparable, isNumeric]
  | int i | float x => simp [isComparable, isNumeric]
  | text s => simp [isComparable, isNumeric]

/-- BETWEEN accepts a list as a parameter if it has two values and they are numeric. -/
theorem Param.checks_between_pass_iff {vs : List Value} {t : ParamType} :
    (∀ k ∈ checks .between ⟨.list vs, t⟩, k.passes = true) ↔ vs.length = 2 ∧ ∀ v ∈ vs, v.isNumeric = true := by
  simp [checks, ParamContent.isList, size, ParamContent.values]

/-- BETWEEN accepts a list that is written out if it has two values that may stand beside an operator. -/
theorem listChecks_between_pass_iff {vs : List Value} :
    (∀ k ∈ listChecks .between vs, k.passes = true) ↔ vs.length = 2 ∧ ∀ v ∈ vs, v.isComparable = true := by
  simp [listChecks]

/-! ## Ranges -/

/-- An operand is a range: two numeric values that are bound, or two values that are written out, each of which
    is numeric or a text, whatever the text is. -/
inductive Operand.IsRange : Operand → Prop where
  | bound {vs : List Value} (htwo : vs.length = 2) (hall : ∀ v ∈ vs, v.isNumeric = true) (t : ParamType) :
      IsRange (.bound ⟨.list vs, t⟩)
  | inlined {vs : List Value} (htwo : vs.length = 2)
      (hall : ∀ v ∈ vs, v.isNumeric = true ∨ ∃ s, v = .text s) : IsRange (.inlinedList vs)

/-- The checks of BETWEEN accept the ranges. -/
theorem Operand.isRange_iff_checks {operand : Operand} :
    operand.IsRange ↔ ∀ k ∈ operand.checks .between, k.passes = true := by
  constructor
  · rintro (⟨htwo, hall, t⟩ | ⟨htwo, hall⟩)
    · rw [checks, Param.checks_between_pass_iff]
      exact ⟨htwo, hall⟩
    · rw [checks, listChecks_between_pass_iff]
      exact ⟨htwo, fun v hv => Value.isComparable_iff.mpr (hall v hv)⟩
  · intro h
    cases operand with
    | null | inlined v | subquery s =>
      rw [checks] at h
      cases h _ List.mem_cons_self
    | bound p =>
      obtain ⟨content, t⟩ := p
      rw [checks] at h
      cases content with
      | scalar v => cases h _ List.mem_cons_self
      | list vs =>
        obtain ⟨htwo, hall⟩ := Param.checks_between_pass_iff.mp h
        exact .bound htwo hall t
    | inlinedList vs =>
      rw [checks] at h
      obtain ⟨htwo, hall⟩ := listChecks_between_pass_iff.mp h
      exact .inlined htwo fun v hv => Value.isComparable_iff.mp (hall v hv)

/-- **BETWEEN accepts ranges and nothing else.** Whatever the field and the negation are, and whatever is bound
    already, it is rendered if its operand is a range. A list of values is a range as a parameter if it is one
    where it is written out, and no value of it is a text that does not read as a number. -/
theorem Comparison.isRendered_between_iff (field : String) (negated : Bool) (earlier : List BoundParam) :
    (∀ operand, IsRendered ⟨field, .between, operand, negated⟩ earlier ↔ operand.IsRange) ∧
      ∀ vs t, IsRendered ⟨field, .between, .bound ⟨.list vs, t⟩, negated⟩ earlier ↔
        IsRendered ⟨field, .between, .inlinedList vs, negated⟩ earlier ∧
          ∀ s, .text s ∈ vs → isNumericText s = true := by
  have haccepts (operand : Operand) :
      IsRendered ⟨field, .between, operand, negated⟩ earlier ↔
        ∀ k ∈ operand.checks .between, k.passes = true := isRendered_iff_checks
  refine ⟨?_, ?_⟩
  · intro operand
    rw [haccepts, Operand.isRange_iff_checks]
  · intro vs t
    rw [haccepts, haccepts, Operand.checks, Operand.checks, Param.checks_between_pass_iff,
      listChecks_between_pass_iff]
    constructor
    · rintro ⟨htwo, hall⟩
      refine ⟨⟨htwo, fun v hv => (Value.isNumeric_iff.mp (hall v hv)).1⟩, ?_⟩
      intro s hs
      exact (Value.isNumeric_iff.mp (hall _ hs)).2 s rfl
    · rintro ⟨⟨htwo, hall⟩, htexts⟩
      refine ⟨htwo, fun v hv => Value.isNumeric_iff.mpr ⟨hall v hv, ?_⟩⟩
      rintro s rfl
      exact htexts s hv

/-- The letters a and z are written out as the ends of a range, and refused as parameters. So not all ends are
    numeric, and the two forms of BETWEEN do not accept the same lists. -/
theorem Comparison.not_isNumeric_of_between :
    (¬ ∀ (field : String) (negated : Bool) (operand : Operand) (earlier : List BoundParam),
        IsRendered ⟨field, .between, operand, negated⟩ earlier →
          ∃ vs : List Value, (operand = .inlinedList vs ∨ ∃ t, operand = .bound ⟨.list vs, t⟩) ∧
            vs.length = 2 ∧ ∀ v ∈ vs, v.isNumeric = true) ∧
      ¬ ∀ (field : String) (negated : Bool) (vs : List Value) (t : ParamType) (earlier : List BoundParam),
        IsRendered ⟨field, .between, .bound ⟨.list vs, t⟩, negated⟩ earlier ↔
          IsRendered ⟨field, .between, .inlinedList vs, negated⟩ earlier := by
  have hinlined : IsRendered ⟨"price", .between, .inlinedList [.text "a", .text "z"], false⟩ [] :=
    ⟨"price BETWEEN \x27a\x27 AND \x27z\x27", rfl⟩
  have hletter : ¬ (Value.text "a").isNumeric = true := by decide +kernel
  refine ⟨?_, ?_⟩
  · intro h
    obtain ⟨vs, hvs | ⟨t, ht⟩, -, hnumeric⟩ := h _ _ _ _ hinlined
    · cases hvs
      exact hletter (hnumeric _ List.mem_cons_self)
    · cases ht
  · intro h
    obtain ⟨sql, hsql⟩ := (h _ _ _ .string _).mpr hinlined
    cases hsql

end BoundSql
