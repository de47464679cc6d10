import BoundSql.Tree

/-!
# `BoundSql.Build.Predicate` — putting a predicate together

A predicate grows by one term per step. A step that does not fit is rejected: it notes its fault, if
none was noted before, and changes nothing else.

## Contents
- **`Entry`** is a term as the caller gives it, with the operator spelled out; `Entry.term` reads it.
- **`Predicate.Step`** is one step; `Predicate.push` and `Predicate.apply` carry it out.
- **`Predicate.ofSteps`** carries out a list of steps on the empty predicate.
-/

namespace BoundSql

/-- The operator that the caller has spelled out. -/
def Operator.read (text : String) : Except Fault Operator :=
  match Operator.ofText? text with
  | some op => .ok op
  | none => .error (.unknownOperator text)

/-! ## Entries -/

/-- A term as the caller gives it. -/
inductive Entry where
  | comparison (field operator : String) (operand : Operand) (negated : Bool)
  | group (p : Predicate) (negated : Bool)

/-- The predicate marked as negated. -/
def Predicate.negate (p : Predicate) : Predicate :=
  { p with negated := true }

/-- The term of an entry. A group that is negated already stays so. -/
def Entry.term : Entry → Except Fault Term
  | .comparison field operator operand negated =>
    match Operator.read operator with
    | .ok op => .ok (.comparison ⟨field, op, operand, negated⟩)
    | .error f => .error f
  | .group p negated => .ok (.group (if negated then p.negate else p))

/-- Whether an entry opens a predicate, or is joined to the terms before it. -/
inductive Role where
  | first
  | joined (k : Connective)
  deriving DecidableEq, Repr

namespace Predicate

/-! ## Steps -/

/-- A step on a predicate. -/
inductive Step where
  | add (role : Role) (e : Entry)
  | negate

/-- Notes a fault. -/
def note (p : Predicate) (f : Fault) : Predicate :=
  { p with fault := keepFirst p.fault f }

/-- The chain with one more term, if the term's role fits: only the first term opens a predicate,
    and all others are joined. The role is checked before the entry is read. -/
def extend (chain : Option Chain) (role : Role) (e : Entry) : Except Fault Chain :=
  match role, chain with
  | .first, some _ => .error .predicateStarted
  | .joined k, none => .error (.nothingToJoin k)
  | .first, none =>
    match e.term with
    | .ok t => .ok ⟨t, []⟩
    | .error f => .error f
  | .joined k, some c =>
    match e.term with
    | .ok t => .ok { c with rest := c.rest ++ [⟨k, t⟩] }
    | .error f => .error f

/-- Adds a term, or notes why it does not fit. -/
def push (p : Predicate) (role : Role) (e : Entry) : Predicate :=
  match extend p.chain role e with
  | .ok c => { p with chain := some c }
  | .error f => p.note f

/-- Carries out a step. -/
def apply (p : Predicate) : Step → Predicate
  | .add role e => p.push role e
  | .negate => p.negate

/-- Carries out steps in order. -/
def applyAll (p : Predicate) (steps : List Step) : Predicate :=
  steps.foldl apply p

/-- The predicate made by steps in order. -/
def ofSteps (steps : List Step) : Predicate :=
  empty.applyAll steps

/-! ## What a step leaves alone -/

/-- A noted fault stays, whatever comes after it. -/
theorem fault_apply {p : Predicate} {f : Fault} (h : p.fault = some f) (s : Step) :
    (p.apply s).fault = some f := by
  cases s with
  | add role e =>
    simp only [apply, push]
    split <;> simp [note, h]
  | negate => exact h

/-- A step that fits adds its term behind all others. -/
theorem terms_push {p : Predicate} {role : Role} {e : Entry} {c : Chain}
    (h : extend p.chain role e = .ok c) :
    ∃ t, e.term = .ok t ∧ (p.push role e).terms = p.terms ++ [t] := by
  obtain ⟨chain, negated, fault⟩ := p
  cases role <;> cases chain <;> cases he : e.term <;> simp [extend, he] at h
  all_goals simp [push, extend, he, terms, Chain.terms]

/-- A step that does not fit leaves a fault behind and nothing else. -/
theorem push_of_error {p : Predicate} {role : Role} {e : Entry} {f : Fault}
    (h : extend p.chain role e = .error f) : p.push role e = p.note f := by
  simp [push, h]

end Predicate

end BoundSql
