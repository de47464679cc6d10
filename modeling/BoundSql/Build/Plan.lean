import BoundSql.Value

/-!
# `BoundSql.Build.Plan` — steps that depend on values

A plan is a list of steps some of which are carried out only under a condition. Which of them are is
known before any is carried out, so a plan is first reduced to the steps that it selects.

## Contents
- **`Plan`** is one step or one choice between lists of plans.
- **`Plan.steps`** lists the selected steps, **`Plan.allSteps`** those of a list of plans.
-/

namespace BoundSql

mutual

/-- A step, or a choice of steps. -/
inductive Plan (σ : Type) where
  /-- One step. -/
  | step (s : σ)
  /-- Steps that are carried out if the condition holds. -/
  | onlyIf (condition : Bool) (body : List (Plan σ))
  /-- The first steps if the condition holds, the second ones if not. -/
  | either (condition : Bool) (yes no : List (Plan σ))
  /-- The steps of the first case whose key equals the value. -/
  | choose (v : Value) (cases : List (PlanCase σ))

/-- The steps for a value. -/
structure PlanCase (σ : Type) where
  key : Value
  body : List (Plan σ)

end

variable {σ : Type}

mutual

/-- The selected steps of a plan. -/
def Plan.steps : Plan σ → List σ
  | .step s => [s]
  | .onlyIf condition body => if condition then Plan.allSteps body else []
  | .either condition yes no => if condition then Plan.allSteps yes else Plan.allSteps no
  | .choose v cases => Plan.caseSteps v cases

/-- The selected steps of plans in order. -/
def Plan.allSteps : List (Plan σ) → List σ
  | [] => []
  | p :: rest => p.steps ++ Plan.allSteps rest

/-- The selected steps of the first case for a value. -/
def Plan.caseSteps (v : Value) : List (PlanCase σ) → List σ
  | [] => []
  | { key, body } :: rest => if key.sameAs v then Plan.allSteps body else Plan.caseSteps v rest

end

namespace Plan

@[simp] theorem allSteps_append (a b : List (Plan σ)) :
    allSteps (a ++ b) = allSteps a ++ allSteps b := by
  induction a with
  | nil => simp [allSteps]
  | cons p rest ih => simp [allSteps, ih]

/-- Plans without choices select all their steps. -/
theorem allSteps_map_step (steps : List σ) : allSteps (steps.map Plan.step) = steps := by
  induction steps with
  | nil => simp [allSteps]
  | cons s rest ih => simp [allSteps, Plan.steps, ih]

end Plan

end BoundSql
