import BoundSql.Value

/-!
# `BoundSql.Param` — parameters and what they bind

A parameter is handed to a statement by its caller. It stands for one value or for a list of values,
and carries a type tag for the driver that binds it. In the text of a statement it leaves placeholders
only.

## Contents
- **`ParamType`** with its numeric `code`; `ofCode?` reads codes back.
- **`Param`** is what a caller gives: a `ParamContent` and its tag. **`BoundParam`** is one value under
  one placeholder.
- **`Param.bindings`** lists what a parameter binds, in placeholder order.
-/

namespace BoundSql

/-- The type tag of a parameter. -/
inductive ParamType where
  | integer
  | string
  | lob
  | bool
  deriving DecidableEq, Repr

namespace ParamType

/-- The number that a driver knows the tag by. -/
def code : ParamType → Nat
  | .integer => 1
  | .string => 2
  | .lob => 3
  | .bool => 5

/-- The tag with a number. -/
def ofCode? : Nat → Option ParamType
  | 1 => some .integer
  | 2 => some .string
  | 3 => some .lob
  | 5 => some .bool
  | _ => none

@[simp] theorem ofCode?_code (t : ParamType) : ofCode? t.code = some t := by
  cases t <;> rfl

/-- Only the code of a tag reads as that tag. -/
theorem ofCode?_eq_some_iff {n : Nat} {t : ParamType} : ofCode? n = some t ↔ n = t.code := by
  constructor
  · intro h
    unfold ofCode? at h
    split at h <;> cases h <;> rfl
  · rintro rfl
    exact ofCode?_code t

end ParamType

/-- One value, or a list whose elements are bound one by one. -/
inductive ParamContent where
  | scalar (v : Value)
  | list (vs : List Value)
  deriving DecidableEq, Repr

namespace ParamContent

/-- The values in order. -/
def values : ParamContent → List Value
  | .scalar v => [v]
  | .list vs => vs

/-- Whether the content is a list, of whatever length. -/
def isList : ParamContent → Bool
  | .scalar _ => false
  | .list _ => true

end ParamContent

/-- A parameter: its content and its type tag. -/
structure Param where
  content : ParamContent
  type : ParamType
  deriving DecidableEq, Repr

/-- One value and its type tag, bound to one placeholder. -/
structure BoundParam where
  value : Value
  type : ParamType
  deriving DecidableEq, Repr

namespace Param

/-- The number of placeholders that the parameter stands for. -/
def size (p : Param) : Nat :=
  p.content.values.length

/-- What the parameter binds: each value under the parameter's own tag. -/
def bindings (p : Param) : List BoundParam :=
  p.content.values.map (⟨·, p.type⟩)

@[simp] theorem length_bindings (p : Param) : p.bindings.length = p.size := by
  simp [bindings, size]

end Param

end BoundSql
