import BoundSql.Proofs.Wording

/-!
# `BoundSql.Proofs.Alignment` — placeholders and parameters stay in step

A driver binds the parameters of a prepared statement to the question marks that it finds outside
literals, from left to right. The scanner is independent of the renderer, so that it finds exactly the
placeholders that were laid out, in their order, has to be shown: no keyword, no literal and no text that
the caller keeps neutral may hide one or add one.

## Contents
- **`fillPlaceholders`** puts texts in the place of the placeholders that the scanner finds.
- **`Script.textWith`** is the text of a script in which each placeholder is written as a text of its own
  parameter.
- **`Script.IsSafe`** is what the caller promises about copied text.
- **`Script.count_text`** and **`Script.fill_text`** are the laws of scripts, and
  **`Statement.prepare_aligned`** is that of prepared statements.
-/

namespace BoundSql

/-! ## Filling placeholders -/

/-- A text that is entered in state `s`, with other texts in the place of its placeholders. Placeholders
    for which no text is left stay as they are. -/
def Scan.fill (s : Scan) : List (List Char) → List Char → List Char
  | _, [] => []
  | texts, c :: cs =>
    if s.isPlaceholder c then texts.headD ['?'] ++ (s.step c).fill texts.tail cs
    else c :: (s.step c).fill texts cs

/-- A text with the first of `texts` in the place of its first placeholder, and so on. -/
def fillPlaceholders (texts : List String) (sql : String) : String :=
  String.ofList (Scan.outside.fill (texts.map String.toList) sql.toList)

/-- The texts that the first part of a text does not use are left for the second one. -/
theorem Scan.fill_append (s : Scan) (texts : List (List Char)) (a b : List Char) :
    s.fill texts (a ++ b) = s.fill texts a ++ (s.run a).fill (texts.drop (s.count a)) b := by
  induction a generalizing s texts with
  | nil => simp [Scan.fill]
  | cons c cs ih =>
    by_cases h : s.isPlaceholder c = true
    · -- This placeholder uses up the first text, and the rest of `a` its share of the others.
      have hdrop : texts.tail.drop ((s.step c).count cs) = texts.drop (s.count (c :: cs)) := by
        rw [← List.drop_one, List.drop_drop, Scan.count, if_pos h]
      simp only [List.cons_append, Scan.fill, if_pos h, ih, Scan.run_cons, List.append_assoc, hdrop]
    · have hcount : s.count (c :: cs) = (s.step c).count cs := by
        rw [Scan.count, if_neg h, Nat.zero_add]
      simp only [List.cons_append, Scan.fill, if_neg h, ih, Scan.run_cons, hcount]

/-- A text without placeholders is not changed. -/
theorem Scan.fill_of_count_eq_zero {s : Scan} {cs : List Char} (texts : List (List Char))
    (h : s.count cs = 0) : s.fill texts cs = cs := by
  induction cs generalizing s with
  | nil => rfl
  | cons c cs ih =>
    rw [Scan.count, Nat.add_eq_zero_iff] at h
    obtain ⟨hhere, hrest⟩ := h
    have hc : ¬ s.isPlaceholder c = true := by
      intro hc
      rw [if_pos hc] at hhere
      exact Nat.one_ne_zero hhere
    rw [Scan.fill, if_neg hc, ih hrest]

/-! ## Scripts -/

/-- What a caller keeps to: copied text is neutral, unless it reads as a number and so needs no promise,
    and a delimiter has no single quote and no backslash. Literals may stand for any text. -/
def Piece.IsSafe : Piece → Prop
  | .text (.verbatim s) => isNumericText s = true ∨ IsNeutral s.toList
  | .text (.delimiter s) => ∀ c ∈ s.toList, c ≠ '\x27' ∧ c ≠ '\\'
  | .text (.keyword _) | .text (.literal _) | .placeholder _ | .fault _ => True

instance (piece : Piece) : Decidable piece.IsSafe :=
  match piece with
  | .text (.verbatim s) => inferInstanceAs (Decidable (isNumericText s = true ∨ IsNeutral s.toList))
  | .text (.delimiter s) => List.decidableBAll (fun c => c ≠ '\x27' ∧ c ≠ '\\') s.toList
  | .text (.keyword _) | .text (.literal _) | .placeholder _ | .fault _ => .isTrue trivial

/-- Every text fragment is neutral, if the caller keeps to the rule. -/
theorem Fragment.isNeutral_text {f : Fragment} (hw : (Piece.text f).IsWorded)
    (hs : (Piece.text f).IsSafe) : IsNeutral f.text.toList := by
  cases f with
  | keyword s => exact IsPlain.isNeutral hw
  | verbatim s =>
    rcases hs with hnumeric | hneutral
    · exact (isPlain_of_isNumericText hnumeric).isNeutral
    · exact hneutral
  | delimiter s =>
    have hcontent := (isContent_of_forall hs).isNeutral_quoted
    simpa [Fragment.text] using hcontent
  | literal s =>
    rw [Fragment.text, Literal.toList_quote]
    exact isNeutral_quoteChars s.toList

namespace Script

/-- A script in which the caller keeps to the rule. -/
def IsSafe (s : Script) : Prop :=
  ∀ piece ∈ s, piece.IsSafe

instance (s : Script) : Decidable s.IsSafe :=
  inferInstanceAs (Decidable (∀ piece ∈ s, _))

/-- The text of a script, with a text of its parameter in the place of each placeholder. -/
def textWith (m : BoundParam → String) : Script → String
  | [] => ""
  | .placeholder p :: rest => m p ++ textWith m rest
  | piece :: rest => piece.written ++ textWith m rest

theorem IsSafe.tail {piece : Piece} {s : Script} (h : IsSafe (piece :: s)) : IsSafe s :=
  (List.forall_mem_cons.mp h).2

theorem IsSafe.isNeutral_head {f : Fragment} {s : Script} (h : IsSafe (.text f :: s))
    (hw : IsWorded (.text f :: s)) : IsNeutral f.text.toList :=
  f.isNeutral_text (hw _ List.mem_cons_self) (h _ List.mem_cons_self)

/-- The scanner counts one placeholder for each parameter that a script binds. -/
theorem count_text {s : Script} (hw : IsWorded s) (hs : IsSafe s) (hf : fault? s = none) :
    Scan.outside.count (text s).toList = (bindings s).length := by
  induction s with
  | nil => rfl
  | cons piece rest ih =>
    have hrest : IsWorded rest := fun p hp => hw p (List.mem_cons_of_mem piece hp)
    rw [text, String.toList_append, Scan.count_append]
    cases piece with
    | text f =>
      -- Text is passed over: nothing is counted, and the scanner is outside behind it.
      obtain ⟨hclosed, hcount⟩ := hs.isNeutral_head hw
      rw [Piece.written, hclosed, hcount, ih hrest hs.tail hf, bindings, Nat.zero_add]
    | placeholder p =>
      have hmark : Scan.outside.count "?".toList = 1 := by decide
      have hclosed : Scan.outside.run "?".toList = .outside := by decide
      rw [Piece.written, hmark, hclosed, ih hrest hs.tail hf, bindings, List.length_cons, Nat.add_comm]
    | fault f => cases hf

/-- The placeholder that the scanner finds at a position is the one that was laid out for the parameter
    at that position. -/
theorem fill_text {s : Script} (hw : IsWorded s) (hs : IsSafe s) (hf : fault? s = none)
    (m : BoundParam → String) :
    Scan.outside.fill ((bindings s).map fun p => (m p).toList) (text s).toList =
      (textWith m s).toList := by
  induction s with
  | nil => rfl
  | cons piece rest ih =>
    have hrest : IsWorded rest := fun p hp => hw p (List.mem_cons_of_mem piece hp)
    rw [text, String.toList_append, Scan.fill_append]
    cases piece with
    | text f =>
      obtain ⟨hclosed, hcount⟩ := hs.isNeutral_head hw
      rw [Piece.written, hclosed, hcount, List.drop_zero, Scan.fill_of_count_eq_zero _ hcount, bindings,
        ih hrest hs.tail hf, textWith, String.toList_append, Piece.written]
      rintro p ⟨⟩
    | placeholder p =>
      have hmark : Scan.outside.count "?".toList = 1 := by decide
      have hclosed : Scan.outside.run "?".toList = .outside := by decide
      -- The text of this parameter is used up here, and those of the others are left for the rest.
      have hfirst : Scan.outside.fill ((m p).toList :: (bindings rest).map fun q => (m q).toList)
          "?".toList = (m p).toList := List.append_nil _
      rw [Piece.written, hmark, hclosed, bindings, List.map_cons, hfirst, List.drop_one, List.tail_cons,
        ih hrest hs.tail hf, textWith, String.toList_append]
    | fault f => cases hf

end Script

/-! ## Statements -/

/-- **Placeholders are aligned.** A prepared statement has as many placeholders as parameters, and the
    `i`-th placeholder is the one that was laid out for the `i`-th parameter: whatever text each parameter
    is given, filling the placeholders in order gives the text in which every parameter stands in its own
    place. -/
theorem Statement.prepare_aligned {s : Statement} {p : Prepared} (hs : s.script.IsSafe)
    (hp : s.prepare = .ok p) :
    p.placeholderCount = p.params.length ∧
      ∀ m : BoundParam → String,
        fillPlaceholders (p.params.map m) p.sql = Script.textWith m s.script := by
  obtain ⟨hfault, rfl⟩ := Statement.prepare_eq_ok_iff.mp hp
  refine ⟨Script.count_text s.isWorded_script hs hfault, fun m => ?_⟩
  -- What was shown about characters is carried over to texts.
  rw [fillPlaceholders, List.map_map]
  have hfill := Script.fill_text s.isWorded_script hs hfault m
  exact (congrArg String.ofList hfill).trans String.ofList_toList

/-- A union with a subquery, in which a CASE result, a delimiter and a literal hold question marks, quotes
    and a backslash. -/
def Statement.openOrders : Statement :=
  .select (.ofSteps
    [.edit (.column (.case .empty)),
      .edit (.onCase (.branch (.ofSteps
        [.add .first (.comparison "state" "=" (.bound ⟨.scalar (.text "open"), .string⟩) false)]))),
      .edit (.onCase (.result (.text "isn\x27t \\ done?") true)),
      .edit (.column (.aggregate (.listagg ["name"] "?, " false))),
      .edit (.source (.table "orders") (some "o")),
      .edit (.filter (.add .first (.comparison "note" "LIKE" (.inlined (.text "who\x27s ?")) true))),
      .edit (.filter (.add (.joined .and) (.comparison "id" "IN" (.subquery (.ofSteps
        [.edit (.columns ["order_id"]), .edit (.source (.table "items") none),
          .edit (.filter (.add .first
            (.comparison "kind" "IN" (.bound ⟨.list [.int 1, .int 2], .integer⟩) false)))])) false))),
      .union .all,
      .edit (.source (.table "archive") none)])

/-- What `openOrders` is prepared as. -/
def Prepared.openOrders : Prepared where
  sql :=
    "SELECT CASE WHEN state = ? THEN \x27isn\\\x27t \\\\ done?\x27 END, LISTAGG(name, \x27?, \x27) " ++
      "FROM orders o WHERE note NOT LIKE \x27who\\\x27s ?\x27 AND id IN " ++
      "(SELECT order_id FROM items WHERE kind IN (?, ?)) UNION ALL SELECT * FROM archive"
  params := [⟨.text "open", .string⟩, ⟨.int 1, .integer⟩, ⟨.int 2, .integer⟩]

/-- Six question marks stand in the text of `openOrders`, and the three that are placeholders belong to
    its three parameters. -/
theorem Statement.prepare_aligned_openOrders :
    (openOrders.script.IsSafe ∧ openOrders.prepare = .ok .openOrders) ∧
      Prepared.openOrders.placeholderCount = 3 ∧
      ∀ m : BoundParam → String,
        fillPlaceholders (Prepared.openOrders.params.map m) Prepared.openOrders.sql =
          Script.textWith m openOrders.script := by
  have hs : openOrders.script.IsSafe := by decide +kernel
  have hp : openOrders.prepare = .ok .openOrders :=
    Statement.prepare_eq_ok_iff.mpr ⟨by decide +kernel, by decide +kernel⟩
  exact ⟨⟨hs, hp⟩, prepare_aligned hs hp⟩

end BoundSql
