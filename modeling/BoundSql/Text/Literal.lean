/-!
# `BoundSql.Text.Literal` — string literals, and the question marks outside them

A literal runs from one single quote to the next. Inside it a backslash takes away the meaning of the
character behind it, so quotes and backslashes of the text are written behind a backslash, and the NUL
character is written as a backslash and a zero.

A placeholder is a question mark that stands outside every string literal. The scanner reads a text
once, from left to right, and knows only whether it is outside a literal, inside one, or inside one and
behind a backslash.

## Contents
- **`Literal.escape`** is the written form of one character, **`Literal.quote`** that of a text.
- **`Scan`** is the scanner's state, with one `step` per character and `run` over a text.
- **`Scan.count`** counts the placeholders met on the way; `Scan.run_append` and `Scan.count_append`
  split both over a concatenation.
- **`placeholderCount`** is the count of a whole text.
-/

namespace BoundSql

/-! ## Literals -/

namespace Literal

/-- The written form of a character inside a literal. -/
def escape (c : Char) : List Char :=
  if c = '\x27' || c = '"' || c = '\\' then ['\\', c]
  else if c = '\x00' then ['\\', '0']
  else [c]

/-- The written form of a text: its escaped characters between single quotes. -/
def quoteChars (cs : List Char) : List Char :=
  '\x27' :: (cs.flatMap escape ++ ['\x27'])

/-- The literal that stands for a text. -/
def quote (s : String) : String :=
  String.ofList (quoteChars s.toList)

/-- The characters of a literal. -/
@[simp] theorem toList_quote (s : String) : (quote s).toList = quoteChars s.toList :=
  String.toList_ofList

/-- Quotes of both kinds, a backslash and a NUL. -/
example : quoteChars ['a', '\x27', '"', '\\', '\x00'] =
    ['\x27', 'a', '\\', '\x27', '\\', '"', '\\', '\\', '\\', '0', '\x27'] := by decide

end Literal

/-! ## Placeholders -/

/-- Where the scanner stands. -/
inductive Scan where
  | outside
  | inside
  | escaped
  deriving DecidableEq, Repr

namespace Scan

/-- The state behind a character. -/
def step : Scan → Char → Scan
  | .outside, c => if c = '\x27' then .inside else .outside
  | .inside, c => if c = '\x27' then .outside else if c = '\\' then .escaped else .inside
  | .escaped, _ => .inside

/-- The state behind a text. -/
def run (s : Scan) (cs : List Char) : Scan :=
  cs.foldl step s

/-- Whether a character met in a state is a placeholder. -/
def isPlaceholder (s : Scan) (c : Char) : Bool :=
  s == .outside && c == '?'

/-- The number of placeholders in a text that is entered in state `s`. -/
def count (s : Scan) : List Char → Nat
  | [] => 0
  | c :: cs => (if s.isPlaceholder c then 1 else 0) + (s.step c).count cs

@[simp] theorem run_nil (s : Scan) : s.run [] = s := rfl

@[simp] theorem run_cons (s : Scan) (c : Char) (cs : List Char) :
    s.run (c :: cs) = (s.step c).run cs := rfl

@[simp] theorem count_nil (s : Scan) : s.count [] = 0 := rfl

theorem run_append (s : Scan) (a b : List Char) : s.run (a ++ b) = (s.run a).run b :=
  List.foldl_append

/-- The second part of a text is entered where the first part ends. -/
theorem count_append (s : Scan) (a b : List Char) :
    s.count (a ++ b) = s.count a + (s.run a).count b := by
  induction a generalizing s with
  | nil => simp
  | cons c cs ih => simp [count, ih, Nat.add_assoc]

end Scan

/-- The number of placeholders in a text. -/
def placeholderCount (sql : String) : Nat :=
  Scan.outside.count sql.toList

/-- A question mark inside a literal is data, also behind an escaped quote. -/
example : placeholderCount "a = ? AND b = \x27it\\\x27s ?\x27 AND c IN (?, ?)" = 3 := by decide +kernel

end BoundSql
