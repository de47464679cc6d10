import BoundSql.Text.Literal
import BoundSql.Text.Numeric

/-!
# `BoundSql.Proofs.Scanner` — texts that the scanner passes over

A script is written piece by piece, and the scanner reads the whole text. What it makes of the whole
follows from what it makes of the pieces, as long as each piece leaves it outside a literal.

## Contents
- **`IsClosed`** texts leave the scanner outside a literal; **`IsNeutral`** texts also hold no placeholder.
- **`IsPlain`** texts have no character that the scanner reacts to. Texts that read as numbers are plain
  (`isPlain_of_isNumericText`).
- **`IsContent`** is what may stand between the quotes of a literal. The escaped form of any text is such
  a content (`isContent_flatMap_escape`), so every literal is neutral (`isNeutral_quoteChars`).
-/

namespace BoundSql

/-! ## Closed and neutral texts -/

/-- A text that the scanner, when it enters it outside a literal, also leaves outside a literal. -/
def IsClosed (cs : List Char) : Prop :=
  Scan.outside.run cs = .outside

/-- A closed text without placeholders. -/
def IsNeutral (cs : List Char) : Prop :=
  IsClosed cs ∧ Scan.outside.count cs = 0

instance (cs : List Char) : Decidable (IsClosed cs) :=
  inferInstanceAs (Decidable (_ = _))

instance (cs : List Char) : Decidable (IsNeutral cs) :=
  inferInstanceAs (Decidable (_ ∧ _))

theorem IsClosed.append {a b : List Char} (ha : IsClosed a) (hb : IsClosed b) :
    IsClosed (a ++ b) := by
  unfold IsClosed at *
  rw [Scan.run_append, ha, hb]

theorem IsNeutral.append {a b : List Char} (ha : IsNeutral a) (hb : IsNeutral b) : IsNeutral (a ++ b) := by
  refine ⟨ha.1.append hb.1, ?_⟩
  rw [Scan.count_append, ha.1, ha.2, hb.2]

/-! ## Plain texts -/

/-- A text without single quotes and without question marks. -/
def IsPlain (cs : List Char) : Prop :=
  ∀ c ∈ cs, c ≠ '\x27' ∧ c ≠ '?'

instance (cs : List Char) : Decidable (IsPlain cs) :=
  List.decidableBAll (fun c => c ≠ '\x27' ∧ c ≠ '?') cs

theorem IsPlain.append {a b : List Char} (ha : IsPlain a) (hb : IsPlain b) : IsPlain (a ++ b) := by
  intro c hmem
  rcases List.mem_append.mp hmem with h | h
  · exact ha c h
  · exact hb c h

theorem IsPlain.isNeutral {cs : List Char} (h : IsPlain cs) : IsNeutral cs := by
  induction cs with
  | nil => exact ⟨rfl, rfl⟩
  | cons c cs ih =>
    obtain ⟨hquote, hmark⟩ := h c List.mem_cons_self
    have hstep : Scan.outside.step c = .outside := by simp [Scan.step, hquote]
    obtain ⟨hclosed, hcount⟩ := ih fun d hd => h d (List.mem_cons_of_mem c hd)
    refine ⟨?_, ?_⟩
    · rw [IsClosed, Scan.run_cons, hstep]
      exact hclosed
    · rw [Scan.count, hstep, hcount]
      simp [Scan.isPlaceholder, hmark]

/-! ## Numeric texts -/

namespace Numeric

theorem isPlain_of_isBlank (c : Char) (h : isBlank c = true) : c ≠ '\x27' ∧ c ≠ '?' := by
  constructor <;> rintro rfl <;> revert h <;> decide

theorem isPlain_of_isDigit (c : Char) (h : isDigit c = true) : c ≠ '\x27' ∧ c ≠ '?' := by
  constructor <;> rintro rfl <;> revert h <;> decide

/-- A text is plain if what is dropped and what is left are. -/
theorem isPlain_of_dropWhile {p : Char → Bool} (hp : ∀ c, p c = true → c ≠ '\x27' ∧ c ≠ '?')
    {cs : List Char} (h : IsPlain (cs.dropWhile p)) : IsPlain cs := by
  induction cs with
  | nil => exact h
  | cons c cs ih =>
    by_cases hc : p c = true
    · rw [List.dropWhile_cons_of_pos hc] at h
      exact List.forall_mem_cons.mpr ⟨hp c hc, ih h⟩
    · rwa [List.dropWhile_cons_of_neg hc] at h

theorem isPlain_of_afterSign {cs : List Char} (h : IsPlain (afterSign cs)) : IsPlain cs := by
  unfold afterSign at h
  split at h
  · exact List.forall_mem_cons.mpr ⟨by decide, h⟩
  · exact List.forall_mem_cons.mpr ⟨by decide, h⟩
  · exact h

theorem isPlain_of_afterMantissa? {cs rest : List Char} (h : afterMantissa? cs = some rest)
    (hrest : IsPlain rest) : IsPlain cs := by
  refine isPlain_of_dropWhile isPlain_of_isDigit ?_
  simp only [afterMantissa?] at h
  split at h
  · rename_i fraction hpoint
    split at h <;> cases h
    rw [hpoint]
    exact List.forall_mem_cons.mpr ⟨by decide, isPlain_of_dropWhile isPlain_of_isDigit hrest⟩
  · split at h <;> cases h
    exact hrest

theorem isPlain_of_afterExponent? {cs rest : List Char} (h : afterExponent? cs = some rest)
    (hrest : IsPlain rest) : IsPlain cs := by
  cases cs with
  | nil => exact List.forall_mem_nil _
  | cons c cs =>
    simp only [afterExponent?] at h
    by_cases hc : (c = 'e' || c = 'E') = true
    · have hmark : c ≠ '\x27' ∧ c ≠ '?' := by
        constructor <;> rintro rfl <;> revert hc <;> decide
      rw [if_pos hc] at h
      split at h <;> cases h
      have hexponent := isPlain_of_dropWhile isPlain_of_isDigit hrest
      exact List.forall_mem_cons.mpr ⟨hmark, isPlain_of_afterSign hexponent⟩
    · rw [if_neg hc] at h
      cases h
      -- Without an exponent, nothing was read.
      exact hrest

end Numeric

open Numeric in
/-- A text that reads as a number is plain. -/
theorem isPlain_of_isNumericText {s : String} (h : isNumericText s = true) : IsPlain s.toList := by
  unfold isNumericText at h
  split at h
  · cases h
  · rename_i tail hmantissa
    split at h
    · cases h
    · rename_i rest hexponent
      have hrest : IsPlain rest := fun c hc => isPlain_of_isBlank c (List.all_eq_true.mp h c hc)
      have htail := isPlain_of_afterExponent? hexponent hrest
      have hbody := isPlain_of_afterSign (isPlain_of_afterMantissa? hmantissa htail)
      exact isPlain_of_dropWhile isPlain_of_isBlank hbody

/-! ## Literals -/

/-- What may stand between the quotes of a literal: characters other than a single quote and a backslash,
    and pairs of a backslash and any character. -/
inductive IsContent : List Char → Prop where
  | nil : IsContent []
  | char {c : Char} {cs : List Char} : c ≠ '\x27' → c ≠ '\\' → IsContent cs → IsContent (c :: cs)
  | pair {c : Char} {cs : List Char} : IsContent cs → IsContent ('\\' :: c :: cs)

theorem IsContent.append {a b : List Char} (ha : IsContent a) (hb : IsContent b) :
    IsContent (a ++ b) := by
  induction ha with
  | nil => exact hb
  | char hquote hslash _ ih => exact .char hquote hslash ih
  | pair _ ih => exact .pair ih

/-- A text without single quotes and backslashes is content as it is. -/
theorem isContent_of_forall {cs : List Char} (h : ∀ c ∈ cs, c ≠ '\x27' ∧ c ≠ '\\') :
    IsContent cs := by
  induction cs with
  | nil => exact .nil
  | cons c cs ih =>
    obtain ⟨hquote, hslash⟩ := h c List.mem_cons_self
    exact .char hquote hslash (ih fun d hd => h d (List.mem_cons_of_mem c hd))

theorem isContent_escape (c : Char) : IsContent (Literal.escape c) := by
  unfold Literal.escape
  split
  · exact .pair .nil
  · rename_i hspecial
    split
    · exact .pair .nil
    · simp only [Bool.or_eq_true, decide_eq_true_eq, not_or] at hspecial
      exact .char hspecial.1.1 hspecial.2 .nil

/-- The escaped form of any text is content. -/
theorem isContent_flatMap_escape (cs : List Char) : IsContent (cs.flatMap Literal.escape) := by
  induction cs with
  | nil => exact .nil
  | cons c cs ih =>
    rw [List.flatMap_cons]
    exact (isContent_escape c).append ih

/-- The scanner stays inside a literal while it reads content. -/
theorem IsContent.run_inside {cs : List Char} (h : IsContent cs) : Scan.inside.run cs = .inside := by
  induction h with
  | nil => rfl
  | char hquote hslash _ ih => rwa [Scan.run_cons, Scan.step, if_neg hquote, if_neg hslash]
  | pair _ ih => exact ih

/-- The scanner counts nothing in content. -/
theorem IsContent.count_inside {cs : List Char} (h : IsContent cs) : Scan.inside.count cs = 0 := by
  induction h with
  | nil => rfl
  | @char c cs hquote hslash _ ih =>
    have hstep : Scan.inside.step c = .inside := by simp [Scan.step, hquote, hslash]
    rw [Scan.count, hstep, ih]
    rfl
  | @pair c cs _ ih =>
    have hstep : (Scan.inside.step '\\').step c = .inside := rfl
    rw [Scan.count, Scan.count, hstep, ih]
    rfl

/-- Content between quotes is neutral. -/
theorem IsContent.isNeutral_quoted {cs : List Char} (h : IsContent cs) :
    IsNeutral ('\x27' :: (cs ++ ['\x27'])) := by
  have hopen : Scan.outside.step '\x27' = .inside := rfl
  -- The first quote enters the literal, its content stays inside, and the last quote leaves it.
  refine ⟨?_, ?_⟩
  · rw [IsClosed, Scan.run_cons, hopen, Scan.run_append, h.run_inside]
    rfl
  · rw [Scan.count, hopen, Scan.count_append, h.run_inside, h.count_inside]
    rfl

/-- A literal is neutral, whatever text it stands for. -/
theorem isNeutral_quoteChars (cs : List Char) : IsNeutral (Literal.quoteChars cs) :=
  (isContent_flatMap_escape cs).isNeutral_quoted

end BoundSql
