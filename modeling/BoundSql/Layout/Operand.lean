import BoundSql.Decimal.Style
import BoundSql.Script

/-!
# `BoundSql.Layout.Operand` — values, parameters and lists beside an operator or in a CASE

## Contents
- **Literals.** `Value.literal` writes any value that has a literal; `Value.comparand` only those that
  may stand beside an operator.
- **Right sides.** `Param.comparand`, `Value.comparandOf` and `listComparand` lay out what stands to the
  right of an operator, or name the fault if the operator does not take it.
- **Sentences.** `nullTest` and `sentence` put field, operator, right side and negation in order. Only the
  right side of a sentence has faults and placeholders.
- **Results of a CASE.** `Value.result` is what a CASE writes for a value. **`CaseResult`** is a fragment
  that was made this way; `CaseResult.of` makes it, and `otherwiseScript` writes the one of ELSE.
-/

namespace BoundSql

/-! ## Literals -/

/-- Numbers in a statement have every digit in its place, and no point without a fraction. Of two
    equally near shortest decimals the one further from zero is written. -/
def literalStyle : Style where
  tie := .away
  whole := ""
  inPlace := none

/-- The literal of a value. Truth values are one and zero; only finite numbers have a literal. -/
def Value.literal : Value → Except Fault Fragment
  | .null => .ok (.keyword "NULL")
  | .bool b => .ok (.keyword (if b then "1" else "0"))
  | .int i => .ok (.keyword i.repr)
  | .float x =>
    if x.isFinite then .ok (.keyword (literalStyle.write x)) else .error (.notFinite x)
  | .text s => .ok (.literal s)

/-- The literal of a value beside an operator: texts and finite numbers have one. -/
def Value.comparand (op : Operator) (v : Value) : Except Fault Fragment :=
  match v with
  | .text _ | .int _ => v.literal
  | .float x => if x.isFinite then v.literal else .error (.notComparable op)
  | .null | .bool _ => .error (.notComparable op)

/-- A fragment in its place, or the fault that stands there instead. -/
def Piece.ofExcept : Except Fault Fragment → Piece
  | .ok f => .text f
  | .error f => .fault f

/-! ## Right sides -/

/-- Placeholders for a parameter. BETWEEN takes a list of two numeric values, IN a list that is not
    empty, and every other operator one value. -/
def Param.comparand (op : Operator) (p : Param) : Script :=
  match op, p.content with
  | .between, .list [a, b] =>
    if a.isNumeric && b.isNumeric then
      [.placeholder ⟨a, p.type⟩, .keyword " AND ", .placeholder ⟨b, p.type⟩]
    else [.fault .notNumeric]
  | .between, _ => [.fault (.notTwoValues .bound)]
  | .oneOf, .list [] => [.fault (.emptyList .bound)]
  | .oneOf, .list vs =>
    Script.inParens (Script.commaList (vs.map fun v => [.placeholder ⟨v, p.type⟩]))
  | .oneOf, .scalar _ => [.fault (.notAList .bound)]
  | op, .list _ => [.fault (.listOperand .bound op)]
  | _, .scalar v => [.placeholder ⟨v, p.type⟩]

/-- A single value that is written out. BETWEEN and IN do not take one. -/
def Value.comparandOf (op : Operator) (v : Value) : Script :=
  match op with
  | .between => [.fault (.notTwoValues .inlined)]
  | .oneOf => [.fault (.notAList .inlined)]
  | op => [.ofExcept (v.comparand op)]

/-- A list of values that are written out. Only BETWEEN and IN take one. -/
def listComparand (op : Operator) (vs : List Value) : Script :=
  match op, vs with
  | .between, [a, b] =>
    [.ofExcept (a.comparand .between), .keyword " AND ", .ofExcept (b.comparand .between)]
  | .between, _ => [.fault (.notTwoValues .inlined)]
  | .oneOf, [] => [.fault (.emptyList .inlined)]
  | .oneOf, vs =>
    Script.inParens (Script.commaList (vs.map fun v => [.ofExcept (v.comparand .oneOf)]))
  | op, _ => [.fault (.listOperand .inlined op)]

/-! ## Sentences -/

/-- NOT in front of a sentence. -/
def notBefore (negated : Bool) (s : Script) : Script :=
  if negated then .keyword "NOT " :: s else s

/-- A comparison with NULL, which only the operators for equal and unequal allow. -/
def nullTest (field : String) (op : Operator) (negated : Bool) : Script :=
  match op with
  | .equal => notBefore negated [.verbatim field, .keyword " IS NULL"]
  | .unequal => notBefore negated [.verbatim field, .keyword " IS NOT NULL"]
  | op => [.fault (.nullOperand op)]

/-- A field, an operator and a right side. LIKE, BETWEEN and IN are negated behind the field, other
    operators in front of it. -/
def sentence (field : String) (op : Operator) (negated : Bool) (right : Script) : Script :=
  if op.negatesInside then
    .verbatim field :: .keyword (if negated then " NOT " else " ") :: .keyword (op.text ++ " ") ::
      right
  else
    notBefore negated (.verbatim field :: .keyword (" " ++ op.text ++ " ") :: right)

@[simp] theorem fault?_sentence (field : String) (op : Operator) (negated : Bool) (right : Script) :
    Script.fault? (sentence field op negated right) = Script.fault? right := by
  unfold sentence notBefore
  split
  · rfl
  · split <;> rfl

@[simp] theorem bindings_sentence (field : String) (op : Operator) (negated : Bool) (right : Script) :
    Script.bindings (sentence field op negated right) = Script.bindings right := by
  unfold sentence notBefore
  split
  · rfl
  · split <;> rfl

/-! ## Results of a CASE -/

/-- What a CASE writes for a value. A quoted text is a literal unless it reads as a number; all other
    texts are copied. The value is turned into text when it is given to the CASE, so one without a literal
    is refused at once. -/
def Value.result (v : Value) (quoted : Bool) : Except Fault Fragment :=
  match v with
  | .text s =>
    if quoted && !isNumericText s then .ok (.literal s) else .ok (.verbatim s)
  | v => v.literal

/-- A result of a CASE: a fragment that is written for some value. -/
structure CaseResult where
  fragment : Fragment
  isResult : ∃ v quoted, Value.result v quoted = .ok fragment

namespace CaseResult

/-- The result for a value, if the value can be written. -/
def of (v : Value) (quoted : Bool) : Except Fault CaseResult :=
  match h : v.result quoted with
  | .ok fragment => .ok ⟨fragment, v, quoted, h⟩
  | .error f => .error f

/-- A result is written as its value is. -/
theorem map_fragment_of (v : Value) (quoted : Bool) :
    (of v quoted).map (·.fragment) = v.result quoted := by
  unfold of
  split <;> simp [Except.map, *]

theorem of_eq_ok {v : Value} {quoted : Bool} {fragment : Fragment} (h : v.result quoted = .ok fragment) :
    of v quoted = .ok ⟨fragment, v, quoted, h⟩ := by
  unfold of
  split
  · rename_i fragment' h'
    cases h.symm.trans h'
    rfl
  · rename_i f h'
    cases h.symm.trans h'

theorem of_eq_error {v : Value} {quoted : Bool} {f : Fault} (h : v.result quoted = .error f) :
    of v quoted = .error f := by
  unfold of
  split
  · rename_i fragment h'
    cases h.symm.trans h'
  · rename_i g h'
    cases h.symm.trans h'
    rfl

end CaseResult

/-- The ELSE result of a CASE. A result without text is left out. -/
def otherwiseScript : Option CaseResult → Script
  | none => []
  | some result => if result.fragment.text = "" then [] else [.keyword " ELSE ", .text result.fragment]

end BoundSql
