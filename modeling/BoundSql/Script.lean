import BoundSql.Fault
import BoundSql.Param
import BoundSql.Text.Literal

/-!
# `BoundSql.Script` — a statement laid out, before it is text

Laying out a statement gives a script: its pieces from left to right, each of them some text, a
placeholder with the parameter bound to it, or the fault that was found at this place. Text and
parameters of a rendering are both read off the one script, so neither can get ahead of the other.

## Contents
- **`Fragment`** is text that says who answers for it: the renderer, the caller, or the literal
  convention.
- **`Piece`**, **`Script`** and the combinators `commaList` and `inParens`.
- **Readings.** `Script.text`, `Script.bindings` and `Script.fault?`, each split over a concatenation
  by a lemma.
- **`Script.renderAfter`** writes a script piece by piece; `Script.renderAfter_eq` says what comes out in
  terms of the readings.
-/

namespace BoundSql

/-! ## Pieces -/

/-- A piece of text. -/
inductive Fragment where
  /-- Words and marks of the language, and numbers. -/
  | keyword (s : String)
  /-- Text of the caller, copied as it is. -/
  | verbatim (s : String)
  /-- Text of the caller between single quotes, copied as it is. -/
  | delimiter (s : String)
  /-- A string literal that stands for the caller's text. -/
  | literal (s : String)
  deriving DecidableEq, Repr

/-- What is written for a fragment. -/
def Fragment.text : Fragment → String
  | .keyword s => s
  | .verbatim s => s
  | .delimiter s => "\x27" ++ s ++ "\x27"
  | .literal s => Literal.quote s

/-- A piece of a script. -/
inductive Piece where
  | text (f : Fragment)
  | placeholder (p : BoundParam)
  | fault (f : Fault)
  deriving DecidableEq, Repr

/-- What is written for a piece. A fault writes nothing, since the text is then not used. -/
def Piece.written : Piece → String
  | .text f => f.text
  | .placeholder _ => "?"
  | .fault _ => ""

/-- A piece of the language's own words. -/
abbrev Piece.keyword (s : String) : Piece :=
  .text (.keyword s)

/-- A piece of the caller's text. -/
abbrev Piece.verbatim (s : String) : Piece :=
  .text (.verbatim s)

/-- The pieces of a statement or of a part of it, in order. -/
abbrev Script := List Piece

namespace Script

/-! ## Combinators -/

/-- Scripts in order, with the same words between any two of them. -/
def separated (separator : String) : List Script → Script
  | [] => []
  | [s] => s
  | s :: t :: rest => s ++ .keyword separator :: separated separator (t :: rest)

/-- Scripts in order, with commas between them. -/
def commaList (scripts : List Script) : Script :=
  separated ", " scripts

/-- Names of the caller in order, with commas between them. -/
def nameList (names : List String) : Script :=
  commaList (names.map fun name => [.verbatim name])

/-- A script between parentheses. -/
def inParens (s : Script) : Script :=
  .keyword "(" :: (s ++ [.keyword ")"])

/-! ## Readings -/

/-- The text of all pieces. -/
def text : Script → String
  | [] => ""
  | piece :: rest => piece.written ++ text rest

/-- The parameters bound before the first fault, in placeholder order. -/
def bindings : Script → List BoundParam
  | [] => []
  | .text _ :: rest => bindings rest
  | .placeholder p :: rest => p :: bindings rest
  | .fault _ :: _ => []

/-- The first fault. -/
def fault? : Script → Option Fault
  | [] => none
  | .fault f :: _ => some f
  | .text _ :: rest => fault? rest
  | .placeholder _ :: rest => fault? rest

@[simp] theorem text_append (a b : Script) : text (a ++ b) = text a ++ text b := by
  induction a with
  | nil => simp [text]
  | cons piece rest ih => simp [text, ih, String.append_assoc]

/-- The first fault of two scripts is that of the first one, if it has any. -/
theorem fault?_append (a b : Script) : fault? (a ++ b) = (fault? a).or (fault? b) := by
  induction a with
  | nil => simp [fault?]
  | cons piece rest ih => cases piece <;> simp [fault?, ih]

/-- A fault keeps everything behind it from being bound. -/
theorem bindings_append (a b : Script) :
    bindings (a ++ b) = bindings a ++ if (fault? a).isSome then [] else bindings b := by
  induction a with
  | nil => simp [bindings, fault?]
  | cons piece rest ih =>
    cases piece <;> cases h : fault? rest <;> simp_all [bindings, fault?]

/-- Two scripts together have no fault if neither has one. -/
theorem fault?_append_eq_none {a b : Script} :
    fault? (a ++ b) = none ↔ fault? a = none ∧ fault? b = none := by
  rw [fault?_append, Option.or_eq_none_iff]

theorem bindings_append_of_fault?_eq_none {a : Script} (ha : fault? a = none) (b : Script) :
    bindings (a ++ b) = bindings a ++ bindings b := by
  simp [bindings_append, ha]

@[simp] theorem fault?_inParens (s : Script) : fault? s.inParens = fault? s := by
  simp [inParens, fault?, fault?_append]

@[simp] theorem bindings_inParens (s : Script) : bindings s.inParens = bindings s := by
  simp [inParens, bindings, bindings_append]

@[simp] theorem text_inParens (s : Script) : text s.inParens = "(" ++ text s ++ ")" := by
  simp [inParens, text, Piece.written, Fragment.text, String.append_assoc]

/-! ## Rendering -/

/-- The text of a script without faults, or its first fault. -/
def render (s : Script) : Except Fault String :=
  match fault? s with
  | some f => .error f
  | none => .ok (text s)

theorem render_eq_ok_iff {s : Script} {sql : String} :
    render s = .ok sql ↔ fault? s = none ∧ text s = sql := by
  unfold render
  cases fault? s <;> simp

theorem render_eq_error_iff {s : Script} {f : Fault} : render s = .error f ↔ fault? s = some f := by
  unfold render
  cases fault? s <;> simp

end Script

/-- A rendering behind a list of parameters: its text or fault, and the list afterwards. -/
structure Rendering where
  outcome : Except Fault String
  params : List BoundParam

namespace Script

/-- Writes pieces one by one behind the text and the parameters there are, up to the first fault. What
    was bound before the fault stays bound. -/
def write : Script → String → Array BoundParam → Rendering
  | [], sql, params => ⟨.ok sql, params.toList⟩
  | .text f :: rest, sql, params => write rest (sql ++ f.text) params
  | .placeholder p :: rest, sql, params => write rest (sql ++ "?") (params.push p)
  | .fault f :: _, _, params => ⟨.error f, params.toList⟩

/-- Renders a script behind parameters that are already bound. -/
def renderAfter (s : Script) (earlier : List BoundParam) : Rendering :=
  s.write "" earlier.toArray

/-- Writing piece by piece gives what the readings of the whole script give. -/
theorem write_eq (s : Script) (sql : String) (params : Array BoundParam) :
    s.write sql params = ⟨(render s).map (sql ++ ·), params.toList ++ bindings s⟩ := by
  induction s generalizing sql params with
  | nil => simp [write, render, fault?, text, bindings, Except.map]
  | cons piece rest ih =>
    cases piece with
    | fault f => simp [write, render, fault?, bindings, Except.map]
    | text f =>
      rw [write, ih]
      cases h : fault? rest <;>
        simp [render, fault?, text, bindings, Piece.written, h, Except.map, String.append_assoc]
    | placeholder p =>
      rw [write, ih]
      cases h : fault? rest <;>
        simp [render, fault?, text, bindings, Piece.written, h, Except.map, String.append_assoc]

/-- The outcome of a rendering is that of the script alone, and parameters are only ever added. -/
theorem renderAfter_eq (s : Script) (earlier : List BoundParam) :
    s.renderAfter earlier = ⟨render s, earlier ++ bindings s⟩ := by
  rw [renderAfter, write_eq]
  cases h : render s <;> simp [Except.map]

end Script

end BoundSql
