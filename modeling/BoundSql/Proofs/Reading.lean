import BoundSql.Proofs.Wording
import Mathlib

/-!
# `BoundSql.Proofs.Reading` — reading back what was written

A reader of a statement has its characters and its parameters, and knows nothing of the script that they
came from. Still it can tell where a word ends, a number or a literal, as long as what follows does not
look like more of the same. The parameter of a placeholder is the first one that is left.

## Contents
- **`Literal.unquote`** reads a literal; `Literal.unquote_quoteChars_append` gets the text back that was
  written.
- **`Output`** is what a reader has; `Script.emit` puts the output of a script in front of another one, and
  `Output.Before` says what follows.
- **`Atom`** is a placeholder, a number or a text; `Output.readAtom` reads one, and
  **`emit_atom_inj`**, **`emit_moreAtoms_inj`** tell atoms and lists of them from their output.
-/

namespace BoundSql

/-! ## Literals -/

namespace Literal

/-- Reads a literal behind its first quote: the text that it stands for, and what follows the literal. -/
def readContent : List Char → List Char × List Char
  | [] => ([], [])
  | '\x27' :: rest => ([], rest)
  | '\\' :: c :: rest =>
    ((if c = '0' then '\x00' else c) :: (readContent rest).1, (readContent rest).2)
  | c :: rest => (c :: (readContent rest).1, (readContent rest).2)

/-- Reads a literal, if there is one. -/
def unquote : List Char → Option (List Char × List Char)
  | '\x27' :: rest => some (readContent rest)
  | _ => none

/-- An escaped character is read as the character. -/
theorem readContent_escape_append (c : Char) (rest : List Char) :
    readContent (escape c ++ rest) = (c :: (readContent rest).1, (readContent rest).2) := by
  unfold escape
  split
  · rename_i hspecial
    have hzero : c ≠ '0' := by
      rintro rfl
      exact absurd hspecial (by decide)
    simp [readContent, hzero]
  · rename_i hspecial
    simp only [Bool.or_eq_true, decide_eq_true_eq, not_or] at hspecial
    obtain ⟨⟨hquote, -⟩, hslash⟩ := hspecial
    split
    · rename_i hnul
      simp [readContent, hnul]
    · rw [List.singleton_append, readContent]
      · exact hquote
      · exact fun d ds h => absurd h hslash

/-- The content of a literal is read up to its closing quote. -/
theorem readContent_flatMap_escape (cs rest : List Char) :
    readContent (cs.flatMap escape ++ '\x27' :: rest) = (cs, rest) := by
  induction cs with
  | nil => simp [readContent]
  | cons c cs ih => rw [List.flatMap_cons, List.append_assoc, readContent_escape_append, ih]

theorem unquote_cons_of_ne {c : Char} (h : c ≠ '\x27') (cs : List Char) : unquote (c :: cs) = none := by
  unfold unquote
  split
  · rename_i rest heq
    exact absurd (List.cons.inj heq).1 h
  · rfl

/-- A literal is read up to its end, whatever follows. -/
theorem unquote_quoteChars_append (cs rest : List Char) :
    unquote (quoteChars cs ++ rest) = some (cs, rest) := by
  have hopen : unquote (quoteChars cs ++ rest) =
      some (readContent (cs.flatMap escape ++ ['\x27'] ++ rest)) := rfl
  rw [hopen, List.append_assoc]
  exact congrArg some (readContent_flatMap_escape cs rest)

end Literal

/-! ## Words -/

/-- A word ends where a text does not go on with its characters. -/
theorem takeWhile_append_of_stops {p : Char → Bool} {a r : List Char} (ha : ∀ c ∈ a, p c = true)
    (hr : ∀ c ∈ r.head?, p c = false) :
    (a ++ r).takeWhile p = a ∧ (a ++ r).dropWhile p = r := by
  rw [List.takeWhile_append_of_pos ha, List.dropWhile_append_of_pos ha]
  cases r with
  | nil => exact ⟨List.append_nil a, rfl⟩
  | cons c r =>
    have hc : ¬ p c = true := by simp [hr c rfl]
    rw [List.takeWhile_cons_of_neg hc, List.dropWhile_cons_of_neg hc, List.append_nil]
    exact ⟨rfl, rfl⟩

/-! ## Outputs -/

/-- Characters, and the parameters for the placeholders among them. -/
structure Output where
  chars : List Char
  params : List BoundParam

namespace Output

/-- The output behind more characters. -/
def write (cs : List Char) (o : Output) : Output :=
  { o with chars := cs ++ o.chars }

/-- The output is at its end, or goes on with one of the marks. -/
def Before (marks : List Char) (o : Output) : Prop :=
  ∀ c ∈ o.chars.head?, c ∈ marks

theorem write_inj {cs : List Char} {o o' : Output} (h : o.write cs = o'.write cs) : o = o' := by
  obtain ⟨hchars, hparams⟩ := Output.mk.inj h
  obtain ⟨chars, params⟩ := o
  obtain ⟨chars', params'⟩ := o'
  cases List.append_cancel_left hchars
  cases hparams
  rfl

theorem write_append (a b : List Char) (o : Output) : o.write (a ++ b) = (o.write b).write a :=
  congrArg (Output.mk · o.params) (List.append_assoc a b o.chars)

/-- Words of the same characters in front of two outputs are the same, and so is what follows them. -/
theorem write_word_inj {p : Char → Bool} {marks a b : List Char} {o o' : Output}
    (ha : ∀ c ∈ a, p c = true) (hb : ∀ c ∈ b, p c = true) (hmarks : ∀ c ∈ marks, p c = false)
    (ho : o.Before marks) (ho' : o'.Before marks) (h : o.write a = o'.write b) : a = b ∧ o = o' := by
  obtain ⟨hchars, hparams⟩ := Output.mk.inj h
  have hleft := (takeWhile_append_of_stops ha fun c hc => hmarks c (ho c hc)).1
  have hright := (takeWhile_append_of_stops hb fun c hc => hmarks c (ho' c hc)).1
  rw [hchars, hright] at hleft
  subst hleft
  exact ⟨rfl, write_inj h⟩

end Output

/-- The output of a piece in front of another output. A fault has none. -/
def Piece.emit : Piece → Output → Output
  | .text f, o => o.write f.text.toList
  | .placeholder p, o => ⟨'?' :: o.chars, p :: o.params⟩
  | .fault _, o => o

namespace Script

/-- The output of a script in front of another output. -/
def emit (s : Script) (o : Output) : Output :=
  s.foldr Piece.emit o

@[simp] theorem emit_nil (o : Output) : emit [] o = o := rfl

@[simp] theorem emit_cons (piece : Piece) (s : Script) (o : Output) :
    emit (piece :: s) o = piece.emit (s.emit o) := rfl

@[simp] theorem emit_append (a b : Script) (o : Output) : (a ++ b).emit o = a.emit (b.emit o) :=
  List.foldr_append

/-- A script in parentheses. -/
theorem emit_inParens (s : Script) (o : Output) :
    (inParens s).emit o = (s.emit (o.write [')'])).write ['('] := by
  rw [inParens, emit_cons, emit_append]
  rfl

/-- A script without faults has its text and its bindings as output. -/
theorem emit_of_fault?_eq_none {s : Script} (h : fault? s = none) :
    s.emit ⟨[], []⟩ = ⟨(text s).toList, bindings s⟩ := by
  induction s with
  | nil => rfl
  | cons piece rest ih =>
    cases piece with
    | text f =>
      rw [emit_cons, ih h, text, String.toList_append]
      rfl
    | placeholder p =>
      have hmark : "?".toList = ['?'] := by decide
      rw [emit_cons, ih h, text, String.toList_append, Piece.written, hmark]
      rfl
    | fault f => cases h

end Script

/-! ## Atoms -/

/-- A value on the right of an operator, bound or written out. -/
inductive Atom where
  | bound (p : BoundParam)
  | int (i : Int)
  | text (s : String)

/-- The piece that stands for an atom. -/
def Atom.piece : Atom → Piece
  | .bound p => .placeholder p
  | .int i => .keyword i.repr
  | .text s => .text (.literal s)

/-- A character of a number. -/
def isNumeral (c : Char) : Bool :=
  c.isDigit || c == '-'

/-- The marks that may follow an atom. -/
def atomMarks : List Char := [' ', ')', ',']

/-- Reads an atom, if there is one. -/
def Output.readAtom (o : Output) : Option (Atom × Output) :=
  match Literal.unquote o.chars with
  | some (cs, rest) => some (.text (String.ofList cs), ⟨rest, o.params⟩)
  | none =>
    if o.chars.head? = some '?' then
      o.params.head?.map fun p => (.bound p, ⟨o.chars.tail, o.params.tail⟩)
    else
      (String.ofList (o.chars.takeWhile isNumeral)).toInt?.map fun i =>
        (.int i, ⟨o.chars.dropWhile isNumeral, o.params⟩)

theorem isNumeral_of_mem_intRepr {i : Int} {c : Char} (hc : c ∈ i.repr.toList) : isNumeral c = true := by
  have hnat (n : Nat) (hc : c ∈ n.repr.toList) : isNumeral c = true := by
    rw [Nat.toList_repr] at hc
    rw [isNumeral, Nat.isDigit_of_mem_toDigits (by decide) (by decide) hc, Bool.true_or]
  rw [Int.repr_eq_if] at hc
  split at hc
  · exact hnat _ hc
  · rw [String.toList_append] at hc
    rcases List.mem_append.mp hc with h | h
    · have hminus : "-".toList = ['-'] := by decide
      rw [hminus, List.mem_singleton] at h
      rw [h]
      rfl
    · exact hnat _ h

theorem not_isNumeral_of_mem_atomMarks : ∀ c ∈ atomMarks, isNumeral c = false := by
  simp [atomMarks, isNumeral, Char.isDigit]

/-- A number starts neither as a placeholder nor as a literal does. -/
theorem exists_cons_intRepr (i : Int) : ∃ c cs, i.repr.toList = c :: cs ∧ c ≠ '?' ∧ c ≠ '\x27' := by
  have hne : i.repr.toList ≠ [] := by
    rw [Int.repr_eq_if, Ne, String.toList_eq_nil_iff]
    split
    · exact Nat.repr_ne_empty
    · intro hnil
      exact Nat.repr_ne_empty (String.append_eq_empty_iff.mp hnil).2
  obtain ⟨c, cs, hrepr⟩ := List.exists_cons_of_ne_nil hne
  have hfirst : isNumeral c = true := isNumeral_of_mem_intRepr (hrepr ▸ List.mem_cons_self)
  refine ⟨c, cs, hrepr, ?_, ?_⟩ <;> rintro rfl <;> exact absurd hfirst (by decide)

/-- What is read in front of an output is the atom that was written there. -/
theorem readAtom_emit (a : Atom) {o : Output} (ho : o.Before atomMarks) :
    (a.piece.emit o).readAtom = some (a, o) := by
  cases a with
  | bound p => rfl
  | int i =>
    -- No mark is a numeral, so the number ends where it was written to end.
    obtain ⟨hword, hrest⟩ := takeWhile_append_of_stops
      (fun c hc => isNumeral_of_mem_intRepr (i := i) hc)
      fun c hc => not_isNumeral_of_mem_atomMarks c (ho c hc)
    obtain ⟨c, cs, hrepr, hmark, hquote⟩ := exists_cons_intRepr i
    have hwrite : (Atom.int i).piece.emit o = ⟨i.repr.toList ++ o.chars, o.params⟩ := rfl
    have hchars : i.repr.toList ++ o.chars = c :: (cs ++ o.chars) := congrArg (· ++ o.chars) hrepr
    have hunquote : Literal.unquote (i.repr.toList ++ o.chars) = none := by
      rw [hchars, Literal.unquote_cons_of_ne hquote]
    have hhead : ¬ (i.repr.toList ++ o.chars).head? = some '?' := by
      rw [hchars]
      exact fun h => hmark (Option.some.inj h)
    rw [hwrite, Output.readAtom, hunquote]
    simp only [if_neg hhead, hword, hrest]
    rw [String.ofList_toList, Int.toInt?_repr]
    rfl
  | text s =>
    have hwrite : (Atom.text s).piece.emit o = ⟨Literal.quoteChars s.toList ++ o.chars, o.params⟩ := by
      rw [← Literal.toList_quote]
      rfl
    rw [hwrite, Output.readAtom, Literal.unquote_quoteChars_append]
    simp only [String.ofList_toList]

/-- Atoms in front of two outputs are the same, and so is what follows them. -/
theorem emit_atom_inj {a b : Atom} {o o' : Output} (ho : o.Before atomMarks) (ho' : o'.Before atomMarks)
    (h : a.piece.emit o = b.piece.emit o') : a = b ∧ o = o' := by
  have hread := readAtom_emit a ho
  rw [h, readAtom_emit b ho'] at hread
  obtain ⟨hatom, hrest⟩ := Prod.mk.inj (Option.some.inj hread)
  exact ⟨hatom.symm, hrest.symm⟩

/-- The atoms of a list behind the first one, each behind a comma. -/
def moreAtoms (atoms : List Atom) : Script :=
  atoms.flatMap fun a => [.keyword ", ", a.piece]

theorem commaList_atoms (a : Atom) (rest : List Atom) :
    Script.commaList ((a :: rest).map fun b => [b.piece]) = a.piece :: moreAtoms rest := by
  induction rest generalizing a with
  | nil => rfl
  | cons b rest ih =>
    have htail := ih b
    rw [Script.commaList, List.map_cons] at htail
    rw [Script.commaList, List.map_cons, List.map_cons, Script.separated, htail]
    rfl

/-- Behind an atom of a list there is a comma or the parenthesis that ends the list. -/
theorem before_emit_moreAtoms (atoms : List Atom) (o : Output) :
    ((moreAtoms atoms).emit (o.write [')'])).Before atomMarks := by
  intro c hc
  cases atoms with
  | nil =>
    cases hc
    decide
  | cons a rest =>
    cases hc
    decide

/-- Lists of atoms in front of two outputs are the same, if a parenthesis ends each of them. -/
theorem emit_moreAtoms_inj {as bs : List Atom} {o o' : Output}
    (h : (moreAtoms as).emit (o.write [')']) = (moreAtoms bs).emit (o'.write [')'])) :
    as = bs ∧ o = o' := by
  induction as generalizing bs with
  | nil =>
    cases bs with
    | nil => exact ⟨rfl, Output.write_inj h⟩
    -- Where one list ends there is a parenthesis, where the other one goes on there is a comma.
    | cons b bs => exact absurd (List.cons.inj (congrArg Output.chars h)).1 (by decide)
  | cons a as ih =>
    cases bs with
    | nil => exact absurd (List.cons.inj (congrArg Output.chars h)).1 (by decide)
    | cons b bs =>
      have hatom : a.piece.emit ((moreAtoms as).emit (o.write [')'])) =
          b.piece.emit ((moreAtoms bs).emit (o'.write [')'])) := @Output.write_inj ", ".toList _ _ h
      obtain ⟨rfl, hrest⟩ := emit_atom_inj (before_emit_moreAtoms as o) (before_emit_moreAtoms bs o') hatom
      obtain ⟨rfl, hout⟩ := ih hrest
      exact ⟨rfl, hout⟩

end BoundSql
