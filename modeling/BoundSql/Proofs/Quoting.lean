import BoundSql.Proofs.Alignment
import BoundSql.Proofs.Masking
import BoundSql.Proofs.Reading

/-!
# `BoundSql.Proofs.Quoting` — what the renderer puts between quotes

A text of the caller stands between quotes in three places. A literal escapes its text, so it can be read back
and the scanner passes over it. The delimiter of LISTAGG and the label of a column are copied between their
quotes as they are. A single quote in one of them opens or closes a literal as far as the scanner can tell, and
from there on it may count text and pass over placeholders.

## Contents
- **`Literal.read?`** reads a literal at the start of a text; **`Literal.quote_isSelfDelimiting`** says that
  it finds what was written, whatever follows.
- **`Scan.hidden`** counts the placeholders that the scanner passes over, **`Scan.strays`** the question marks
  of text that it counts; `Scan.count_add_hidden` balances the two.
- **`Select.placeholderCount_prepare`** says when as many placeholders are counted as parameters are bound, and
  `Select.not_aligned_memberNames` that this is not always so.
-/

namespace BoundSql

/-! ## Literals -/

namespace Literal

/-- Reads the literal that a text starts with: the text that the literal stands for, and what follows it. -/
def read? (sql : String) : Option (String × String) :=
  (unquote sql.toList).map fun parts => (String.ofList parts.1, String.ofList parts.2)

theorem read?_quote_append (s t : String) : read? (quote s ++ t) = some (s, t) := by
  have hread := unquote_quoteChars_append s.toList t.toList
  rw [read?, String.toList_append, toList_quote, hread]
  show some (String.ofList s.toList, String.ofList t.toList) = some (s, t)
  rw [String.ofList_toList, String.ofList_toList]

/-- Literals in front of two texts are the same if the texts are, and so is what follows them. -/
theorem quote_append_inj {s s' t t' : String} (h : quote s ++ t = quote s' ++ t') : s = s' ∧ t = t' := by
  have hread := read?_quote_append s t
  rw [h, read?_quote_append] at hread
  obtain ⟨hs, ht⟩ := Prod.mk.inj (Option.some.inj hread)
  exact ⟨hs.symm, ht.symm⟩

/-- The scanner passes over a literal and comes out of it at its end. -/
theorem placeholderCount_quote_append (s t : String) :
    placeholderCount (quote s ++ t) = placeholderCount t := by
  obtain ⟨hclosed, hcount⟩ := isNeutral_quoteChars s.toList
  unfold placeholderCount
  rw [String.toList_append, toList_quote, Scan.count_append, hclosed, hcount, Nat.zero_add]

/-- **Literals are read back and end where they end.** Whatever text a literal stands for, and whatever text
    follows it, a reader finds the one and the other. So no two texts have the same literal, none of them
    begins another one, and in the placeholders that are counted a literal does not show. -/
theorem quote_isSelfDelimiting :
    (∀ s t : String, read? (quote s ++ t) = some (s, t)) ∧ Function.Injective quote ∧
      (∀ s u : String, (quote s).toList <+: (quote u).toList ↔ s = u) ∧
      ∀ s t : String, placeholderCount (quote s ++ t) = placeholderCount t := by
  refine ⟨read?_quote_append, ?_, ?_, placeholderCount_quote_append⟩
  · intro s u h
    exact (quote_append_inj (congrArg (· ++ "") h)).1
  · intro s u
    constructor
    · rintro ⟨rest, hrest⟩
      have happend : quote s ++ String.ofList rest = quote u ++ "" := by
        rw [← String.toList_inj, String.toList_append, String.toList_append, String.toList_ofList, hrest]
        exact (List.append_nil _).symm
      exact (quote_append_inj happend).1
    · rintro rfl
      exact List.prefix_refl _

/-- A quote, a backslash, a question mark and a NUL in front of a zero. -/
example : read? (quote "\x27\\?\x000" ++ "\x27?") = some ("\x27\\?\x000", "\x27?") := by decide +kernel

end Literal

/-! ## What the scanner makes of a script -/

namespace Scan

/-- The placeholders of a script, entered in state `s`, that the scanner meets inside a literal. -/
def hidden (s : Scan) : Script → Nat
  | [] => 0
  | .placeholder _ :: rest => (if s = .outside then 0 else 1) + (s.step '?').hidden rest
  | piece :: rest => (s.run piece.written.toList).hidden rest

/-- The question marks in the text of a script, entered in state `s`, that the scanner meets outside a
    literal. -/
def strays (s : Scan) : Script → Nat
  | [] => 0
  | .placeholder _ :: rest => (s.step '?').strays rest
  | piece :: rest => s.count piece.written.toList + (s.run piece.written.toList).strays rest

/-- Placeholders are counted unless they are hidden, and nothing else is counted but strays. -/
theorem count_add_hidden {script : Script} (hf : Script.fault? script = none) (s : Scan) :
    s.count (Script.text script).toList + s.hidden script =
      (Script.bindings script).length + s.strays script := by
  induction script generalizing s with
  | nil => rfl
  | cons piece rest ih =>
    rw [Script.text, String.toList_append, count_append]
    cases piece with
    | text f =>
      have hrest := ih hf (s.run f.text.toList)
      simp only [Piece.written, hidden, strays, Script.bindings]
      omega
    | placeholder p =>
      have hrest := ih hf (s.step '?')
      have hmark : "?".toList = ['?'] := by decide
      have hcount : s.count ['?'] + (if s = .outside then 0 else 1) = 1 := by cases s <;> rfl
      simp only [Piece.written, hmark, run_cons, run_nil, hidden, strays, Script.bindings, List.length_cons]
      omega
    | fault f => cases hf

variable {script : Script}

/-- Where all copied text leaves the scanner outside a literal, no placeholder is hidden. -/
theorem hidden_of_leavesOutside (hw : script.IsWorded) (hs : script.LeavesOutside) :
    outside.hidden script = 0 := by
  induction script with
  | nil => rfl
  | cons piece rest ih =>
    obtain ⟨hworded, hwrest⟩ := List.forall_mem_cons.mp hw
    obtain ⟨houtside, hsrest⟩ := List.forall_mem_cons.mp hs
    have hclosed := Piece.isClosed_written hworded houtside
    have hrest := ih hwrest hsrest
    cases piece with
    | placeholder p => exact (Nat.zero_add _).trans hrest
    | text f | fault f =>
      rw [hidden, hclosed]
      · exact hrest
      · exact nofun

/-- Then the strays are the question marks that the single texts have outside literals. -/
theorem strays_eq_zero_iff (hw : script.IsWorded) (hs : script.LeavesOutside) :
    outside.strays script = 0 ↔ ∀ f, .text f ∈ script → placeholderCount f.text = 0 := by
  induction script with
  | nil => exact iff_of_true rfl nofun
  | cons piece rest ih =>
    obtain ⟨hworded, hwrest⟩ := List.forall_mem_cons.mp hw
    obtain ⟨houtside, hsrest⟩ := List.forall_mem_cons.mp hs
    have hclosed := Piece.isClosed_written hworded houtside
    have hrest := ih hwrest hsrest
    cases piece with
    | text g =>
      have hstrays : outside.strays (.text g :: rest) =
          placeholderCount g.text + outside.strays rest := by
        rw [strays, hclosed]
        · rfl
        · exact nofun
      rw [hstrays, Nat.add_eq_zero_iff, hrest]
      constructor
      · rintro ⟨hg, hall⟩ f hf
        rcases List.mem_cons.mp hf with heq | hf
        · cases heq
          exact hg
        · exact hall f hf
      · intro h
        exact ⟨h g List.mem_cons_self, fun f hf => h f (List.mem_cons_of_mem _ hf)⟩
    | placeholder p =>
      have hstrays : outside.strays (.placeholder p :: rest) = outside.strays rest := rfl
      rw [hstrays, hrest]
      simp
    | fault g =>
      have hstrays : outside.strays (.fault g :: rest) = outside.strays rest := Nat.zero_add _
      rw [hstrays, hrest]
      simp

end Scan

/-! ## Queries -/

namespace Select

/-- **Quoted text decides whether placeholders and parameters agree in number.** In every prepared query the
    placeholders that are counted and those that are hidden are as many as the parameters and the strays. If every
    text that is copied, each delimiter with its quotes, leaves the scanner outside a literal, then as
    many placeholders are counted as parameters are bound exactly if no text has a question mark outside its
    literals. -/
theorem placeholderCount_prepare {s : Select} {p : Prepared} (hp : (Statement.select s).prepare = .ok p) :
    p.placeholderCount + Scan.outside.hidden s.script = p.params.length + Scan.outside.strays s.script ∧
      (s.script.LeavesOutside →
        (p.placeholderCount = p.params.length ↔ ∀ f, .text f ∈ s.script → placeholderCount f.text = 0)) := by
  obtain ⟨hfault, rfl⟩ := Statement.prepare_eq_ok_iff.mp hp
  have hbalance : Scan.outside.count (Script.text s.script).toList + Scan.outside.hidden s.script =
      (Script.bindings s.script).length + Scan.outside.strays s.script :=
    Scan.count_add_hidden hfault .outside
  refine ⟨hbalance, fun hs => ?_⟩
  have hhidden := Scan.hidden_of_leavesOutside s.isWorded_script hs
  rw [← Scan.strays_eq_zero_iff s.isWorded_script hs]
  -- Nothing is hidden here, so the two numbers differ by the strays.
  show Scan.outside.count (Script.text s.script).toList = (Script.bindings s.script).length ↔
    Scan.outside.strays s.script = 0
  omega

/-- The names of a user in one text, under a delimiter and a label that the caller chooses. -/
def memberNames (delimiter label : String) : Select :=
  .ofSteps
    [.edit (.column (.aggregate (.listagg ["name"] delimiter false))), .edit (.labels [label]),
      .edit (.source (.table "users") none),
      .edit (.filter (.add .first (.comparison "id" "=" (.bound ⟨.scalar (.int 1), .integer⟩) false)))]

/-- What `memberNames` is prepared as. -/
def preparedNames (delimiter label : String) : Prepared where
  sql := "SELECT LISTAGG(name, \x27" ++ delimiter ++ "\x27) AS \"" ++ label ++ "\" FROM users WHERE id = ?"
  params := [⟨.int 1, .integer⟩]

/-- An escaped quote and a question mark in the delimiter do no harm, and the question mark in the label is
    counted beside the one placeholder. -/
theorem placeholderCount_prepare_memberNames :
    (Statement.select (memberNames "\\\x27?" "who?")).prepare = .ok (preparedNames "\\\x27?" "who?") ∧
      (preparedNames "\\\x27?" "who?").placeholderCount + 0 = 1 + 1 ∧
      ((preparedNames "\\\x27?" "who?").placeholderCount = 1 ↔
        ∀ f, .text f ∈ (memberNames "\\\x27?" "who?").script → placeholderCount f.text = 0) := by
  have hp : (Statement.select (memberNames "\\\x27?" "who?")).prepare =
      .ok (preparedNames "\\\x27?" "who?") :=
    Statement.prepare_eq_ok_iff.mpr ⟨by decide +kernel, by decide +kernel⟩
  have hhidden : Scan.outside.hidden (memberNames "\\\x27?" "who?").script = 0 := by decide +kernel
  have hstrays : Scan.outside.strays (memberNames "\\\x27?" "who?").script = 1 := by decide +kernel
  obtain ⟨hbalance, hcriterion⟩ := placeholderCount_prepare hp
  rw [hhidden, hstrays] at hbalance
  exact ⟨hp, hbalance, hcriterion (by decide +kernel)⟩

/-- A query whose placeholders and parameters do not agree in number, although the caller keeps to the rule
    for copied text in all pieces but one. -/
def DisturbedBy (s : Select) (piece : Piece) (p : Prepared) : Prop :=
  (∀ other ∈ s.script, other = piece ∨ other.IsSafe) ∧ (Statement.select s).prepare = .ok p ∧
    p.placeholderCount ≠ p.params.length

/-- A single quote as the delimiter and one in the label hide the placeholder of WHERE, and a question mark
    in the label is counted as a second one. -/
theorem not_aligned_memberNames :
    (memberNames "\x27" "names").DisturbedBy (.text (.delimiter "\x27")) (preparedNames "\x27" "names") ∧
      (memberNames ", " "member\x27s").DisturbedBy (.verbatim "member\x27s")
        (preparedNames ", " "member\x27s") ∧
      (memberNames ", " "who?").DisturbedBy (.verbatim "who?") (preparedNames ", " "who?") := by
  refine ⟨⟨?_, ?_, ?_⟩, ⟨?_, ?_, ?_⟩, ⟨?_, ?_, ?_⟩⟩
  · decide +kernel
  · exact Statement.prepare_eq_ok_iff.mpr ⟨by decide +kernel, by decide +kernel⟩
  · decide +kernel
  · decide +kernel
  · exact Statement.prepare_eq_ok_iff.mpr ⟨by decide +kernel, by decide +kernel⟩
  · decide +kernel
  · decide +kernel
  · exact Statement.prepare_eq_ok_iff.mpr ⟨by decide +kernel, by decide +kernel⟩
  · decide +kernel

end Select

end BoundSql
