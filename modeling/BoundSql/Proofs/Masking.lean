import BoundSql.Proofs.Leaves
import BoundSql.Proofs.Wording

/-!
# `BoundSql.Proofs.Masking` — texts written as literals stay inside their quotes

A text that is written as a literal comes from anywhere, and a single one that ended its literal early or
late would turn the rest of the statement inside out. Two statements that differ in such texts only are
therefore compared in a reader's eyes: with every literal that the scanner finds emptied, they have to be
the same text.

## Contents
- **`mask`** empties the literals of a text, **`Rendering.masked`** those of a rendering.
- **`Statement.eraseTexts`** replaces every text that is written as a literal by the empty one.
  **`Value.eraseText_eq_iff`**, **`CaseResult.eraseText_eq_iff`** and **`Value.eraseQuoted_eq_iff`** say which
  values and results are the same then; `CaseResult.of_eraseQuoted` erases a value before a CASE is given it.
- **`Script.LeavesOutside`** is what the caller promises about copied text.
- **`Script.mask_text`** says that a mask does not depend on literals, and
  **`Statement.masked_renderAfter_eq`** that no rendering lets a text out of its literal.
-/

namespace BoundSql

/-! ## Masks -/

/-- The characters of a text, entered in state `s`, that are read outside a literal or end one. -/
def Scan.mask (s : Scan) : List Char → List Char
  | [] => []
  | c :: cs =>
    if s = .outside ∨ s.step c = .outside then c :: (s.step c).mask cs else (s.step c).mask cs

/-- A text with nothing between the quotes of its literals. -/
def mask (sql : String) : String :=
  String.ofList (Scan.outside.mask sql.toList)

/-- The rendering with its text masked. A fault and the parameters stay. -/
def Rendering.masked (r : Rendering) : Rendering :=
  ⟨r.outcome.map mask, r.params⟩

/-- What is found between quotes is gone, also if it holds a quote behind a backslash. -/
example : mask "a = \x27it\\\x27s\x27 AND b = \x27\x27" = "a = \x27\x27 AND b = \x27\x27" := by
  decide +kernel

theorem Scan.mask_append (s : Scan) (a b : List Char) :
    s.mask (a ++ b) = s.mask a ++ (s.run a).mask b := by
  induction a generalizing s with
  | nil => rfl
  | cons c cs ih =>
    rw [List.cons_append, Scan.mask, Scan.mask, ih, Scan.run_cons]
    split
    · rfl
    · rfl

/-- The second part of a text is masked by itself if the first part is closed. -/
theorem IsClosed.mask_append {a : List Char} (ha : IsClosed a) (b : List Char) :
    Scan.outside.mask (a ++ b) = Scan.outside.mask a ++ Scan.outside.mask b := by
  rw [Scan.mask_append, ha]

/-- Nothing is left of the content of a literal. -/
theorem IsContent.mask_inside {cs : List Char} (h : IsContent cs) : Scan.inside.mask cs = [] := by
  induction h with
  | nil => rfl
  | @char c cs hquote hslash _ ih =>
    have hstep : Scan.inside.step c = .inside := by simp [Scan.step, hquote, hslash]
    rw [Scan.mask, hstep, ih]
    rfl
  | pair _ ih => exact ih

/-- Only the quotes are left of a literal, whatever text it stands for. -/
theorem mask_quoteChars (cs : List Char) :
    Scan.outside.mask (Literal.quoteChars cs) = ['\x27', '\x27'] := by
  have hcontent := isContent_flatMap_escape cs
  have hopen : Scan.outside.mask (Literal.quoteChars cs) =
      '\x27' :: Scan.inside.mask (cs.flatMap Literal.escape ++ ['\x27']) := rfl
  rw [hopen, Scan.mask_append, hcontent.mask_inside, hcontent.run_inside]
  rfl

/-! ## Erasing texts -/

/-- A value without its text. -/
def Value.eraseText : Value → Value
  | .text _ => .text ""
  | v => v

/-- A result of a CASE without the text of its literal. Copied text and other values stay. -/
def CaseResult.eraseText (r : CaseResult) : CaseResult :=
  match r.fragment with
  | .literal _ => ⟨.literal "", .text "", true, rfl⟩
  | _ => r

/-- Whether a CASE makes a literal of a value that it is given. -/
def Value.isQuotedText (v : Value) (quoted : Bool) : Bool :=
  match v with
  | .text s => quoted && !isNumericText s
  | _ => false

/-- A value that a CASE is given, without its text if that becomes a literal. -/
def Value.eraseQuoted (v : Value) (quoted : Bool) : Value :=
  if v.isQuotedText quoted then .text "" else v

/-- Two values have the same erasure if they are equal or both texts. -/
theorem Value.eraseText_eq_iff {v w : Value} :
    v.eraseText = w.eraseText ↔ v = w ∨ (∃ s, v = .text s) ∧ ∃ t, w = .text t := by
  cases v <;> cases w <;> simp [Value.eraseText]

/-- Two results have the same erasure if they are the same fragment or both literals. -/
theorem CaseResult.eraseText_eq_iff {q r : CaseResult} :
    q.eraseText = r.eraseText ↔
      q.fragment = r.fragment ∨ (∃ s, q.fragment = .literal s) ∧ ∃ t, r.fragment = .literal t := by
  obtain ⟨f, hf⟩ := q
  obtain ⟨g, hg⟩ := r
  cases f <;> cases g <;> simp [CaseResult.eraseText]

theorem Value.isQuotedText_eq_true_iff {v : Value} {quoted : Bool} :
    v.isQuotedText quoted = true ↔ quoted = true ∧ ∃ s, v = .text s ∧ isNumericText s = false := by
  cases v <;> simp [Value.isQuotedText]

/-- The literal of a text stands for just that text, and no other value has one in a CASE. -/
theorem Value.result_eq_literal_iff {v : Value} {quoted : Bool} {s : String} :
    v.result quoted = .ok (.literal s) ↔ v = .text s ∧ v.isQuotedText quoted = true := by
  cases v with
  | text t =>
    cases hquoted : quoted && !isNumericText t with
    | true => simp [Value.result, Value.isQuotedText, hquoted]
    | false => simp [Value.result, Value.isQuotedText, hquoted]
  | float x =>
    by_cases hx : x.isFinite = true
    · simp [Value.result, Value.literal, hx]
    · simp [Value.result, Value.literal, hx]
  | null | bool b | int i => simp [Value.result, Value.literal]

/-- Two values have the same erasure in a CASE if they are equal or both become literals: both are given to be
    quoted, and both are texts that do not read as numbers. -/
theorem Value.eraseQuoted_eq_iff {v w : Value} {quoted : Bool} :
    v.eraseQuoted quoted = w.eraseQuoted quoted ↔
      v = w ∨ v.isQuotedText quoted = true ∧ w.isQuotedText quoted = true := by
  -- The stand-in becomes a literal wherever some text does.
  have hempty {u : Value} (hu : u.isQuotedText quoted = true) :
      (Value.text "").isQuotedText quoted = true := by
    rw [(isQuotedText_eq_true_iff.mp hu).1]
    rfl
  unfold Value.eraseQuoted
  by_cases hv : v.isQuotedText quoted = true
  · by_cases hw : w.isQuotedText quoted = true
    · rw [if_pos hv, if_pos hw]
      exact iff_of_true rfl (.inr ⟨hv, hw⟩)
    · rw [if_pos hv, if_neg hw]
      refine iff_of_false ?_ ?_
      · rintro rfl
        exact hw (hempty hv)
      · rintro (rfl | ⟨-, hw'⟩)
        · exact hw hv
        · exact hw hw'
  · rw [if_neg hv]
    by_cases hw : w.isQuotedText quoted = true
    · rw [if_pos hw]
      refine iff_of_false ?_ ?_
      · rintro rfl
        exact hv (hempty hw)
      · rintro (rfl | ⟨hv', -⟩)
        · exact hv hw
        · exact hv hv'
    · rw [if_neg hw]
      exact ⟨.inl, fun h => h.elim id fun h' => absurd h'.1 hv⟩

/-- The erasure of a result is the result for the erased value. -/
theorem CaseResult.of_eraseQuoted (v : Value) (quoted : Bool) :
    of (v.eraseQuoted quoted) quoted = (of v quoted).map eraseText := by
  unfold Value.eraseQuoted
  by_cases hv : v.isQuotedText quoted = true
  · rw [if_pos hv]
    obtain ⟨hquoted, s, rfl, hs⟩ := Value.isQuotedText_eq_true_iff.mp hv
    subst hquoted
    rw [of_eq_ok (Value.result_eq_literal_iff.mpr ⟨rfl, hv⟩)]
    rfl
  · rw [if_neg hv]
    cases hresult : v.result quoted with
    | error f =>
      rw [of_eq_error hresult]
      rfl
    | ok fragment =>
      rw [of_eq_ok hresult]
      cases fragment with
      | literal s => exact absurd (Value.result_eq_literal_iff.mp hresult).2 hv
      | keyword s | verbatim s | delimiter s => rfl

/-- The leaf map that forgets what the literals of texts stand for. -/
def LeafMap.eraseTexts : LeafMap where
  bound _ p := p
  cell p := p
  inlined := Value.eraseText
  result := CaseResult.eraseText

/-- The statement with the empty text for every text that is written as a literal: the texts among inlined
    values, and the texts that a CASE was given to be quoted. -/
def Statement.eraseTexts (s : Statement) : Statement :=
  s.mapLeaves .eraseTexts

/-- A piece without the text of its literal. -/
def Piece.eraseLiteral : Piece → Piece
  | .text (.literal _) => .text (.literal "")
  | piece => piece

theorem LeafMap.eraseTexts_forgottenBy : eraseTexts.ForgottenBy Piece.eraseLiteral where
  bound _ _ := rfl
  isList _ := rfl
  cell _ := rfl
  literal v := by cases v <;> rfl
  comparand op v := by cases v <;> rfl
  result r := by
    obtain ⟨fragment, hr⟩ := r
    cases fragment <;> rfl
  resultEmpty r := by
    obtain ⟨fragment, hr⟩ := r
    cases fragment with
    | literal s =>
      -- A literal has its quotes, so it is never left out.
      have hquote (s : String) : Literal.quote s ≠ "" := fun h => by
        have hchars := congrArg String.toList h
        rw [Literal.toList_quote, Literal.quoteChars] at hchars
        cases hchars
      exact iff_of_false (hquote "") (hquote s)
    | keyword s | verbatim s | delimiter s => exact Iff.rfl

/-! ## Scripts -/

/-- What a caller keeps to: copied text leaves the scanner outside a literal. -/
def Piece.LeavesOutside : Piece → Prop
  | .text (.verbatim s) => IsClosed s.toList
  | .text (.delimiter s) => IsClosed (Fragment.delimiter s).text.toList
  | .text (.keyword _) | .text (.literal _) | .placeholder _ | .fault _ => True

instance (piece : Piece) : Decidable piece.LeavesOutside :=
  match piece with
  | .text (.verbatim s) => inferInstanceAs (Decidable (IsClosed s.toList))
  | .text (.delimiter s) => inferInstanceAs (Decidable (IsClosed (Fragment.delimiter s).text.toList))
  | .text (.keyword _) | .text (.literal _) | .placeholder _ | .fault _ => .isTrue trivial

/-- Nothing but its literal is erased from a piece. -/
theorem Piece.leavesOutside_eraseLiteral {piece : Piece} :
    piece.eraseLiteral.LeavesOutside ↔ piece.LeavesOutside := by
  cases piece with
  | text f => cases f <;> exact Iff.rfl
  | placeholder p => exact Iff.rfl
  | fault f => exact Iff.rfl

theorem Piece.isWorded_eraseLiteral {piece : Piece} (h : piece.IsWorded) :
    piece.eraseLiteral.IsWorded := by
  cases piece with
  | text f => cases f <;> exact h
  | placeholder p | fault f => exact h

/-- Every piece is closed, if the caller keeps to the rule. -/
theorem Piece.isClosed_written {piece : Piece} (hw : piece.IsWorded) (hs : piece.LeavesOutside) :
    IsClosed piece.written.toList := by
  cases piece with
  | text f =>
    cases f with
    | keyword s => exact (IsPlain.isNeutral hw).1
    | verbatim s => exact hs
    | delimiter s => exact hs
    | literal s =>
      rw [Piece.written, Fragment.text, Literal.toList_quote]
      exact (isNeutral_quoteChars s.toList).1
  | placeholder p => exact (by decide : IsClosed "?".toList)
  | fault f => exact (by decide : IsClosed "".toList)

/-- The literal of a piece does not show in its mask. -/
theorem Piece.mask_written_eraseLiteral (piece : Piece) :
    Scan.outside.mask piece.eraseLiteral.written.toList = Scan.outside.mask piece.written.toList := by
  cases piece with
  | text f =>
    cases f with
    | literal s =>
      rw [Piece.eraseLiteral, Piece.written, Piece.written, Fragment.text, Fragment.text,
        Literal.toList_quote, Literal.toList_quote, mask_quoteChars, mask_quoteChars]
    | keyword s | verbatim s | delimiter s => rfl
  | placeholder p => rfl
  | fault f => rfl

namespace Script

/-- A script in which the caller keeps to the rule. -/
def LeavesOutside (s : Script) : Prop :=
  ∀ piece ∈ s, piece.LeavesOutside

instance (s : Script) : Decidable s.LeavesOutside :=
  inferInstanceAs (Decidable (∀ piece ∈ s, _))

/-- The script with empty literals. -/
def eraseLiterals (s : Script) : Script :=
  s.map Piece.eraseLiteral

theorem leavesOutside_eraseLiterals {s : Script} : s.eraseLiterals.LeavesOutside ↔ s.LeavesOutside := by
  rw [LeavesOutside, eraseLiterals, List.forall_mem_map]
  exact forall₂_congr fun _ _ => Piece.leavesOutside_eraseLiteral

@[simp] theorem fault?_eraseLiterals (s : Script) : fault? s.eraseLiterals = fault? s := by
  induction s with
  | nil => rfl
  | cons piece rest ih =>
    cases piece with
    | text f => cases f <;> exact ih
    | placeholder p => exact ih
    | fault f => rfl

@[simp] theorem bindings_eraseLiterals (s : Script) : bindings s.eraseLiterals = bindings s := by
  induction s with
  | nil => rfl
  | cons piece rest ih =>
    cases piece with
    | text f => cases f <;> exact ih
    | placeholder p => exact congrArg (p :: ·) ih
    | fault f => rfl

/-- The mask of a script's text is that of the script with empty literals. -/
theorem mask_text {s : Script} (hw : IsWorded s) (hs : LeavesOutside s) :
    Scan.outside.mask (text s.eraseLiterals).toList = Scan.outside.mask (text s).toList := by
  induction s with
  | nil => rfl
  | cons piece rest ih =>
    obtain ⟨hpiece, hrest⟩ := List.forall_mem_cons.mp hw
    obtain ⟨hpiece', hrest'⟩ := List.forall_mem_cons.mp hs
    have herased : IsClosed piece.eraseLiteral.written.toList :=
      Piece.isClosed_written (Piece.isWorded_eraseLiteral hpiece)
        (Piece.leavesOutside_eraseLiteral.mpr hpiece')
    -- Both first pieces are closed, so the masks of both texts split behind them.
    rw [eraseLiterals, List.map_cons, text, text, String.toList_append, String.toList_append,
      herased.mask_append, (Piece.isClosed_written hpiece hpiece').mask_append,
      piece.mask_written_eraseLiteral]
    exact congrArg (Scan.outside.mask piece.written.toList ++ ·) (ih hrest hrest')

/-- Scripts that differ in their literals only have the same masked rendering. -/
theorem masked_renderAfter_congr {s t : Script} (h : s.eraseLiterals = t.eraseLiterals)
    (hws : IsWorded s) (hwt : IsWorded t) (hs : LeavesOutside s) (earlier : List BoundParam) :
    (s.renderAfter earlier).masked = (t.renderAfter earlier).masked := by
  -- The caller's promise is about pieces that are not erased, so it holds of `t` as well.
  have ht : LeavesOutside t := by
    rw [← leavesOutside_eraseLiterals, ← h]
    exact leavesOutside_eraseLiterals.mpr hs
  have hfault : fault? s = fault? t := by
    rw [← fault?_eraseLiterals, h, fault?_eraseLiterals]
  have hbindings : bindings s = bindings t := by
    rw [← bindings_eraseLiterals, h, bindings_eraseLiterals]
  have hmask : mask (text s) = mask (text t) := by
    rw [mask, mask, ← mask_text hws hs, h, mask_text hwt ht]
  rw [renderAfter_eq, renderAfter_eq, Rendering.masked, Rendering.masked, hbindings, render, render, hfault]
  cases fault? t with
  | none => exact congrArg (fun sql => (⟨.ok sql, _⟩ : Rendering)) hmask
  | some f => rfl

end Script

/-! ## Statements -/

/-- **No text leaves its literal.** Take two statements that are the same but for texts that are written as
    literals. Then both fail with the same fault, or both succeed with texts that agree outside their
    literals, and in either case they bind the same parameters. -/
theorem Statement.masked_renderAfter_eq {s t : Statement} (h : s.eraseTexts = t.eraseTexts)
    (hs : s.script.LeavesOutside) (earlier : List BoundParam) :
    (s.script.renderAfter earlier).masked = (t.script.renderAfter earlier).masked := by
  refine Script.masked_renderAfter_congr ?_ s.isWorded_script t.isWorded_script hs earlier
  have hforget := Statement.map_script_mapLeaves LeafMap.eraseTexts_forgottenBy
  rw [Script.eraseLiterals, Script.eraseLiterals, ← hforget s, ← hforget t]
  exact congrArg (fun u : Statement => u.script.map Piece.eraseLiteral) h

/-- A search for a name in a table, where the name is written out, and so is what a CASE says about those who
    have it. -/
def Statement.search (name remark : String) : Statement :=
  .select (.ofSteps
    [.edit (.column (.case (.ofSteps
      [.branch (.ofSteps [.add .first (.comparison "name" "=" (.inlined (.text name)) false)]),
        .result (.text remark) true, .otherwise (.int 0) false, .label "remark"]))),
      .edit (.source (.table "users") none),
      .edit (.filter (.add .first (.comparison "name" "=" (.inlined (.text name)) false))),
      .edit (.filter (.add (.joined .and)
        (.comparison "group_id" "=" (.bound ⟨.scalar (.int 7), .integer⟩) false)))])

/-- A name that is made to look like the end of a literal is still only a name, and so is a remark. -/
theorem Statement.masked_renderAfter_search :
    ((search "ann" "found").eraseTexts = (search "\x27 OR 1 = 1 --" "\\\x27 ?").eraseTexts ∧
        (search "ann" "found").script.LeavesOutside) ∧
      ((search "ann" "found").script.renderAfter []).masked =
        ((search "\x27 OR 1 = 1 --" "\\\x27 ?").script.renderAfter []).masked := by
  have h : (search "ann" "found").eraseTexts = (search "\x27 OR 1 = 1 --" "\\\x27 ?").eraseTexts := rfl
  have hs : (search "ann" "found").script.LeavesOutside := by decide +kernel
  exact ⟨⟨h, hs⟩, masked_renderAfter_eq h hs []⟩

end BoundSql
