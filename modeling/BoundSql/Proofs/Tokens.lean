import BoundSql.Proofs.Scanner
import Mathlib.Data.List.Induction

/-!
# `BoundSql.Proofs.Tokens` — the placeholder scanner and the tokens of a text

The scanner reads a text character by character and remembers where it stands. A reader sees tokens instead:
single characters, complete literals, and maybe a literal at the end that the text cuts off. Every text has
exactly one such reading, and what the scanner counts are the question marks that it has as tokens of their own.

## Contents
- **`Token`** is a character or a complete literal, **`Tokens`** a whole text: its tokens, and the content of a
  literal that is cut off (`IsCutContent`).
- **`Tokens.chars_injective`** and **`Tokens.exists_chars_eq`**: no text has two readings, and none has none.
- **`Tokens.isClosed_chars_iff`**: the scanner ends outside a literal exactly if no literal is cut off.
- **`Tokens.placeholderCount_eq_marks`** is the agreement of the two.
-/

namespace BoundSql

/-! ## Tokens -/

/-- A single character that is no quote, or a complete literal. -/
inductive Token where
  | char (c : Char) (h : c ≠ '\x27')
  | literal (content : List Char) (h : IsContent content)

namespace Token

/-- The characters of a token. -/
def chars : Token → List Char
  | char c _ => [c]
  | literal content _ => '\x27' :: (content ++ ['\x27'])

/-- Whether the token is a question mark. -/
def isMark : Token → Bool
  | char c _ => c == '?'
  | literal _ _ => false

end Token

/-- What may stand behind the quote of a literal that the text cuts off. The last character may be a backslash
    that has lost the character behind it. -/
def IsCutContent (cs : List Char) : Prop :=
  IsContent cs ∨ ∃ front, IsContent front ∧ cs = front ++ ['\\']

/-- A text as a reader sees it: tokens, and maybe a literal that is cut off. -/
structure Tokens where
  complete : List Token
  cut : Option { content : List Char // IsCutContent content }

namespace Tokens

/-- The characters of a literal that is cut off, if there is one. -/
def cutChars : Option { content : List Char // IsCutContent content } → List Char
  | none => []
  | some content => '\x27' :: content

/-- The characters of the text. -/
def chars (t : Tokens) : List Char :=
  t.complete.flatMap Token.chars ++ cutChars t.cut

/-- The text. -/
def text (t : Tokens) : String :=
  String.ofList t.chars

/-- The number of question marks among the single characters. -/
def marks (t : Tokens) : Nat :=
  t.complete.countP Token.isMark

/-- The text behind one more token. -/
def cons (token : Token) (t : Tokens) : Tokens :=
  { t with complete := token :: t.complete }

@[simp] theorem chars_cons (token : Token) (t : Tokens) : (t.cons token).chars = token.chars ++ t.chars := by
  simp [chars, cons]

@[simp] theorem cut_cons (token : Token) (t : Tokens) : (t.cons token).cut = t.cut := rfl

@[simp] theorem marks_cons (token : Token) (t : Tokens) :
    (t.cons token).marks = t.marks + if token.isMark then 1 else 0 :=
  List.countP_cons

/-- A text is made from its end: first what is cut off, if anything is, and then one token after the other in
    front. -/
@[elab_as_elim]
theorem consInduction {motive : Tokens → Prop} (ending : ∀ cut, motive ⟨[], cut⟩)
    (front : ∀ token t, motive t → motive (t.cons token)) (t : Tokens) : motive t := by
  obtain ⟨complete, cut⟩ := t
  induction complete with
  | nil => exact ending cut
  | cons token rest ih => exact front token ⟨rest, cut⟩ ih

end Tokens

/-! ## Content of literals -/

/-- Of two contents that one text starts with, one in front of a quote, the other one begins that one. -/
theorem IsContent.exists_of_append_eq {a b t r : List Char} (ha : IsContent a) (hb : IsContent b)
    (h : a ++ t = b ++ '\x27' :: r) : ∃ d, IsContent d ∧ b = a ++ d ∧ t = d ++ '\x27' :: r := by
  induction ha generalizing b with
  | nil => exact ⟨b, hb, rfl, h⟩
  | char hquote hslash _ ih =>
    cases hb with
    | nil => exact absurd (List.cons.inj h).1 hquote
    | char _ _ hb =>
      obtain ⟨rfl, htail⟩ := List.cons.inj h
      obtain ⟨d, hd, rfl, ht⟩ := ih hb htail
      exact ⟨d, hd, rfl, ht⟩
    | pair _ => exact absurd (List.cons.inj h).1 hslash
  | pair _ ih =>
    cases hb with
    | nil => exact absurd (List.cons.inj h).1 (by decide)
    | char _ hslash _ => exact absurd (List.cons.inj h).1.symm hslash
    | pair hb =>
      -- Both have a backslash here, so both take the next character with it.
      obtain ⟨rfl, htail⟩ := List.cons.inj (List.cons.inj h).2
      obtain ⟨d, hd, rfl, ht⟩ := ih hb htail
      exact ⟨d, hd, rfl, ht⟩

/-- A literal ends at one place only. -/
theorem IsContent.append_quote_inj {a b r r' : List Char} (ha : IsContent a) (hb : IsContent b)
    (h : a ++ '\x27' :: r = b ++ '\x27' :: r') : a = b ∧ r = r' := by
  obtain ⟨d, hd, rfl, ht⟩ := ha.exists_of_append_eq hb h
  cases hd with
  | nil => exact ⟨(List.append_nil a).symm, (List.cons.inj ht).2⟩
  | char hquote _ _ => exact absurd (List.cons.inj ht).1.symm hquote
  | pair _ => exact absurd (List.cons.inj ht).1 (by decide)

namespace IsCutContent

variable {cs : List Char}

theorem char {c : Char} (hquote : c ≠ '\x27') (hslash : c ≠ '\\') (h : IsCutContent cs) :
    IsCutContent (c :: cs) := by
  rcases h with h | ⟨front, hfront, rfl⟩
  · exact .inl (.char hquote hslash h)
  · exact .inr ⟨c :: front, .char hquote hslash hfront, rfl⟩

theorem pair (c : Char) (h : IsCutContent cs) : IsCutContent ('\\' :: c :: cs) := by
  rcases h with h | ⟨front, hfront, rfl⟩
  · exact .inl (.pair h)
  · exact .inr ⟨'\\' :: c :: front, .pair hfront, rfl⟩

/-- A literal that is cut off is not complete. -/
theorem ne_append_quote (h : IsCutContent cs) {b : List Char} (hb : IsContent b) (r : List Char) :
    cs ≠ b ++ '\x27' :: r := by
  intro heq
  rcases h with h | ⟨front, hfront, rfl⟩
  · obtain ⟨d, -, -, ht⟩ := h.exists_of_append_eq hb ((List.append_nil cs).trans heq)
    exact absurd ht.symm (List.append_ne_nil_of_right_ne_nil d (List.cons_ne_nil _ r))
  · obtain ⟨d, hd, -, ht⟩ := hfront.exists_of_append_eq hb heq
    -- The backslash at the end would have to be the quote, or a pair with nothing behind it.
    cases hd with
    | nil => exact absurd (List.cons.inj ht).1 (by decide)
    | char _ hslash _ => exact absurd (List.cons.inj ht).1.symm hslash
    | pair _ => exact absurd (List.cons.inj ht).2.symm (List.cons_ne_nil _ _)

/-- In a literal that is cut off, the scanner stays inside, maybe behind a backslash. -/
theorem run_inside_ne_outside (h : IsCutContent cs) : Scan.inside.run cs ≠ .outside := by
  rcases h with h | ⟨front, hfront, rfl⟩
  · rw [h.run_inside]
    decide
  · rw [Scan.run_append, hfront.run_inside]
    decide

theorem count_inside (h : IsCutContent cs) : Scan.inside.count cs = 0 := by
  rcases h with h | ⟨front, hfront, rfl⟩
  · exact h.count_inside
  · rw [Scan.count_append, hfront.run_inside, hfront.count_inside]
    rfl

end IsCutContent

/-- Behind a quote, either a literal is completed or the text ends in it. -/
theorem exists_content (cs : List Char) :
    (∃ content rest, IsContent content ∧ cs = content ++ '\x27' :: rest) ∨ IsCutContent cs := by
  induction cs using List.twoStepInduction with
  | nil => exact .inr (.inl .nil)
  | singleton c =>
    by_cases hquote : c = '\x27'
    · subst hquote
      exact .inl ⟨[], [], .nil, rfl⟩
    by_cases hslash : c = '\\'
    · subst hslash
      exact .inr (.inr ⟨[], .nil, rfl⟩)
    · exact .inr (.inl (.char hquote hslash .nil))
  | cons_cons c d rest ihpair ihchar =>
    by_cases hquote : c = '\x27'
    · subst hquote
      exact .inl ⟨[], d :: rest, .nil, rfl⟩
    by_cases hslash : c = '\\'
    · subst hslash
      rcases ihpair with ⟨content, tail, hcontent, rfl⟩ | hcut
      · exact .inl ⟨'\\' :: d :: content, tail, .pair hcontent, rfl⟩
      · exact .inr (hcut.pair d)
    · rcases ihchar d with ⟨content, tail, hcontent, heq⟩ | hcut
      · exact .inl ⟨c :: content, tail, .char hquote hslash hcontent, congrArg (c :: ·) heq⟩
      · exact .inr (hcut.char hquote hslash)

/-! ## One reading -/

namespace Token

theorem chars_literal_append {content : List Char} (h : IsContent content) (r : List Char) :
    (literal content h).chars ++ r = '\x27' :: (content ++ '\x27' :: r) := by
  simp [chars]

/-- Tokens in front of two texts are the same if the texts are, and so is what follows them. -/
theorem chars_append_inj {a b : Token} {r r' : List Char} (h : a.chars ++ r = b.chars ++ r') :
    a = b ∧ r = r' := by
  cases a with
  | char c hc =>
    cases b with
    | char d hd =>
      obtain ⟨rfl, hr⟩ := List.cons.inj h
      exact ⟨rfl, hr⟩
    | literal content hcontent => exact absurd (List.cons.inj h).1 hc
  | literal content hcontent =>
    cases b with
    | char d hd => exact absurd (List.cons.inj h).1.symm hd
    | literal content' hcontent' =>
      rw [chars_literal_append, chars_literal_append] at h
      obtain ⟨rfl, hr⟩ := hcontent.append_quote_inj hcontent' (List.cons.inj h).2
      exact ⟨rfl, hr⟩

/-- A literal that is cut off has no token in front. -/
theorem chars_append_ne_cutChars (token : Token) (r : List Char)
    (cut : Option { content : List Char // IsCutContent content }) :
    token.chars ++ r ≠ Tokens.cutChars cut := by
  intro h
  cases cut with
  | none => cases token <;> cases h
  | some content =>
    cases token with
    | char c hc => exact absurd (List.cons.inj h).1 hc
    | literal content' hcontent' =>
      rw [chars_literal_append] at h
      exact content.2.ne_append_quote hcontent' r (List.cons.inj h).2.symm

/-- The scanner comes out of a token where it entered it. -/
theorem isClosed_chars (token : Token) : IsClosed token.chars := by
  cases token with
  | char c hc =>
    show Scan.outside.step c = .outside
    rw [Scan.step, if_neg hc]
  | literal content hcontent => exact hcontent.isNeutral_quoted.1

/-- The scanner counts a token if it is a question mark. -/
theorem count_chars (token : Token) : Scan.outside.count token.chars = if token.isMark then 1 else 0 := by
  cases token with
  | char c hc => rfl
  | literal content hcontent => exact hcontent.isNeutral_quoted.2

end Token

namespace Tokens

theorem cutChars_injective : Function.Injective cutChars := by
  intro cut cut' h
  cases cut with
  | none =>
    cases cut' with
    | none => rfl
    | some content' => cases h
  | some content =>
    cases cut' with
    | none => cases h
    | some content' => exact congrArg some (Subtype.ext (List.cons.inj h).2)

/-- No text has two readings. -/
theorem chars_injective : Function.Injective chars := by
  intro t u h
  induction t using consInduction generalizing u with
  | ending cut =>
    induction u using consInduction with
    | ending cut' => exact congrArg (Tokens.mk []) (cutChars_injective h)
    | front token' rest' _ =>
      rw [chars_cons] at h
      exact absurd h.symm (token'.chars_append_ne_cutChars _ cut)
  | front token rest ih =>
    induction u using consInduction with
    | ending cut' =>
      rw [chars_cons] at h
      exact absurd h (token.chars_append_ne_cutChars _ cut')
    | front token' rest' _ =>
      rw [chars_cons, chars_cons] at h
      obtain ⟨rfl, hrest⟩ := Token.chars_append_inj h
      exact congrArg (cons token) (ih hrest)

/-- Every text has a reading. -/
theorem exists_chars_eq (cs : List Char) : ∃ t : Tokens, t.chars = cs := by
  match cs with
  | [] => exact ⟨⟨[], none⟩, rfl⟩
  | c :: cs =>
    by_cases hquote : c = '\x27'
    · subst hquote
      rcases exists_content cs with ⟨content, rest, hcontent, rfl⟩ | hcut
      · obtain ⟨t, ht⟩ := exists_chars_eq rest
        exact ⟨t.cons (.literal content hcontent), by rw [chars_cons, ht, Token.chars_literal_append]⟩
      · exact ⟨⟨[], some ⟨cs, hcut⟩⟩, rfl⟩
    · obtain ⟨t, ht⟩ := exists_chars_eq cs
      exact ⟨t.cons (.char c hquote), by rw [chars_cons, ht]; rfl⟩
termination_by cs.length

/-! ## What the scanner makes of it -/

theorem run_chars (t : Tokens) : Scan.outside.run t.chars = Scan.outside.run (cutChars t.cut) := by
  induction t using consInduction with
  | ending cut => rfl
  | front token t ih => rw [chars_cons, Scan.run_append, token.isClosed_chars, ih, cut_cons]

/-- The scanner ends outside a literal exactly if no literal is cut off. -/
theorem isClosed_chars_iff (t : Tokens) : IsClosed t.chars ↔ t.cut = none := by
  rw [IsClosed, run_chars]
  cases t.cut with
  | none => exact iff_of_true rfl rfl
  | some content => exact iff_of_false content.2.run_inside_ne_outside (Option.some_ne_none content)

/-- The scanner counts the question marks among the tokens. -/
theorem count_chars (t : Tokens) : Scan.outside.count t.chars = t.marks := by
  induction t using consInduction with
  | ending cut =>
    cases cut with
    | none => rfl
    | some content =>
      show 0 + Scan.inside.count content = 0
      rw [content.2.count_inside]
  | front token t ih =>
    rw [chars_cons, Scan.count_append, token.isClosed_chars, token.count_chars, ih, marks_cons, Nat.add_comm]

theorem placeholderCount_text (t : Tokens) : placeholderCount t.text = t.marks := by
  rw [placeholderCount, text, String.toList_ofList, count_chars]

/-- A literal that is cut off takes the start of the text that is put behind it for its own. -/
theorem count_append_iff (t : Tokens) :
    (∀ cs, Scan.outside.count (t.chars ++ cs) = Scan.outside.count t.chars + Scan.outside.count cs) ↔
      t.cut = none := by
  rw [← isClosed_chars_iff]
  constructor
  · intro h
    -- A question mark behind the text is counted only where the scanner is outside.
    have hmark := h ['?']
    rw [Scan.count_append] at hmark
    have hone : (Scan.outside.run t.chars).count ['?'] = 1 := Nat.add_left_cancel hmark
    unfold IsClosed
    cases hstate : Scan.outside.run t.chars with
    | outside => rfl
    | inside | escaped =>
      rw [hstate] at hone
      cases hone
  · intro h cs
    rw [Scan.count_append, h]

/-- **The scanner agrees with the tokens of a text.** Every text has exactly one reading as characters that are
    no quotes and complete literals, with one literal at the end that may be cut off. The placeholders that the
    scanner counts are the question marks among those characters. Where no literal is cut off, and only there, the
    placeholders of a text and of whatever is put behind it add up. -/
theorem placeholderCount_eq_marks :
    (∀ sql : String, ∃! t : Tokens, t.text = sql) ∧
      (∀ t : Tokens, placeholderCount t.text = t.marks) ∧
      ∀ t : Tokens, t.cut = none ↔
        ∀ sql : String, placeholderCount (t.text ++ sql) = placeholderCount t.text + placeholderCount sql := by
  refine ⟨fun sql => ?_, placeholderCount_text, fun t => ?_⟩
  · obtain ⟨t, ht⟩ := exists_chars_eq sql.toList
    refine ⟨t, ?_, fun u hu => chars_injective ?_⟩
    · show String.ofList t.chars = sql
      rw [ht, String.ofList_toList]
    · rw [ht, ← hu, text, String.toList_ofList]
  · rw [← count_append_iff]
    have htext : t.text.toList = t.chars := String.toList_ofList
    constructor
    · intro h sql
      rw [placeholderCount, placeholderCount, placeholderCount, String.toList_append, htext]
      exact h sql.toList
    · intro h cs
      have hcount := h (String.ofList cs)
      rwa [placeholderCount, placeholderCount, placeholderCount, String.toList_append, htext,
        String.toList_ofList] at hcount

/-- A question mark, and a literal that is cut off right behind a backslash. -/
example : (Tokens.mk [.char '?' (by decide)] (some ⟨['\\'], .inr ⟨[], .nil, rfl⟩⟩)).text = "?\x27\\" ∧
    placeholderCount "?\x27\\" = 1 := by decide +kernel

end Tokens

end BoundSql
