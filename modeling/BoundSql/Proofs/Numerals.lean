import BoundSql.Proofs.Bytes
import BoundSql.Proofs.Reading

/-!
# `BoundSql.Proofs.Numerals` — which texts read as numbers

Whether a text reads as a number decides whether a CASE copies it without quotes, so it has to be exactly the
numbers that pass. The grammar of numbers is written down here without a reader. The library reads characters
one part after the other; a scanner that walks over the bytes of the text, and counts, says the same.

## Contents
- **The grammar.** `IsSign`, `IsMantissa`, `IsExponent`, and blanks around them.
- **Readers.** Each reader of `BoundSql.Text.Numeric` takes a part of the grammar off the front of a text:
  one lemma says that what it took is such a part, another one that it takes all of it.
- **`scanNumber?`** walks over bytes by their positions, and gives nothing if it ever reads where there is no
  byte. `At` says which characters are left behind a position; each loop keeps it.
- **`isNumericText_decides`** is the law of numeric texts.
-/

namespace BoundSql

namespace Numeric

/-! ## The grammar -/

/-- The ten digits. -/
def digits : List Char :=
  ['0', '1', '2', '3', '4', '5', '6', '7', '8', '9']

/-- Space, tab, line feed, carriage return, vertical tab and form feed. -/
def blanks : List Char :=
  [' ', '\t', '\n', '\r', '\x0b', '\x0c']

/-- Nothing, or a sign. -/
inductive IsSign : List Char → Prop where
  | none : IsSign []
  | plus : IsSign ['+']
  | minus : IsSign ['-']

/-- Digits with a point behind them, among them or nowhere, or a point in front of digits. -/
inductive IsMantissa : List Char → Prop where
  | whole {ds : List Char} (hne : ds ≠ []) (hds : ∀ d ∈ ds, d ∈ digits) : IsMantissa ds
  | pointed {ds fs : List Char} (hne : ds ≠ []) (hds : ∀ d ∈ ds, d ∈ digits) (hfs : ∀ d ∈ fs, d ∈ digits) :
      IsMantissa (ds ++ '.' :: fs)
  | fraction {fs : List Char} (hne : fs ≠ []) (hfs : ∀ d ∈ fs, d ∈ digits) : IsMantissa ('.' :: fs)

/-- Nothing, or a mark with a whole number behind it. -/
inductive IsExponent : List Char → Prop where
  | none : IsExponent []
  | power {mark : Char} {sign ds : List Char} (hmark : mark = 'e' ∨ mark = 'E') (hsign : IsSign sign)
      (hne : ds ≠ []) (hds : ∀ d ∈ ds, d ∈ digits) : IsExponent (mark :: (sign ++ ds))

/-- A number without blanks. -/
inductive IsNumeral : List Char → Prop where
  | intro {sign mantissa exponent : List Char} (hsign : IsSign sign) (hmantissa : IsMantissa mantissa)
      (hexponent : IsExponent exponent) : IsNumeral (sign ++ mantissa ++ exponent)

/-! ## Classes of characters -/

theorem isBlank_iff {c : Char} : isBlank c = true ↔ c ∈ blanks := by
  simp [isBlank, blanks, or_assoc]

theorem isDigit_iff {c : Char} : isDigit c = true ↔ c ∈ digits := by
  constructor
  · intro h
    simp only [isDigit, Bool.and_eq_true, decide_eq_true_eq, Char.le_def, UInt32.le_iff_toNat_le] at h
    have hrange : 48 ≤ c.toNat ∧ c.toNat ≤ 57 := h
    rw [← Char.ofNat_toNat c]
    generalize c.toNat = n at hrange
    obtain ⟨hlow, hhigh⟩ := hrange
    interval_cases n <;> decide
  · intro h
    have hall : ∀ d ∈ digits, isDigit d = true := by simp [digits, isDigit]
    exact hall c h

/-- Whether a character is a sign. -/
def isSign (c : Char) : Bool :=
  c = '+' || c = '-'

/-- Whether a character begins an exponent. -/
def isMark (c : Char) : Bool :=
  c = 'e' || c = 'E'

/-- A digit is nothing else that a reader looks for. -/
theorem of_isDigit {c : Char} (h : isDigit c = true) :
    isBlank c = false ∧ isSign c = false ∧ isMark c = false ∧ c ≠ '.' ∧ c.toNat < 0x80 := by
  have hall : ∀ d ∈ digits,
      isBlank d = false ∧ isSign d = false ∧ isMark d = false ∧ d ≠ '.' ∧ d.toNat < 0x80 := by
    simp [digits, isBlank, isSign, isMark]
  exact hall c (isDigit_iff.mp h)

/-- A blank is nothing else that a reader looks for. -/
theorem of_isBlank {c : Char} (h : isBlank c = true) :
    isDigit c = false ∧ isSign c = false ∧ isMark c = false ∧ c ≠ '.' ∧ c.toNat < 0x80 := by
  have hall : ∀ d ∈ blanks,
      isDigit d = false ∧ isSign d = false ∧ isMark d = false ∧ d ≠ '.' ∧ d.toNat < 0x80 := by
    simp [blanks, isDigit, isSign, isMark]
  exact hall c (isBlank_iff.mp h)

theorem of_isSign {c : Char} (h : isSign c = true) : isBlank c = false ∧ c.toNat < 0x80 := by
  simp only [isSign, Bool.or_eq_true, decide_eq_true_eq] at h
  rcases h with rfl | rfl <;> decide

theorem of_isMark {c : Char} (h : isMark c = true) :
    isBlank c = false ∧ isDigit c = false ∧ c ≠ '.' ∧ c.toNat < 0x80 := by
  simp only [isMark, Bool.or_eq_true, decide_eq_true_eq] at h
  rcases h with rfl | rfl <;> decide

/-- Digits are in a text of digits. -/
theorem forall_isDigit_iff {ds : List Char} :
    (∀ d ∈ ds, isDigit d = true) ↔ ∀ d ∈ ds, d ∈ digits :=
  forall₂_congr fun _ _ => isDigit_iff

/-! ## Readers take parts of the grammar -/

variable {cs rest : List Char}

/-- A text goes on with a character of a class, or it does not. -/
theorem head?_any_cases (p : Char → Bool) (cs : List Char) :
    (∃ c tail, cs = c :: tail ∧ p c = true ∧ cs.head?.any p = true) ∨
      ((∀ c ∈ cs.head?, p c = false) ∧ cs.head?.any p = false) := by
  cases cs with
  | nil => exact .inr ⟨nofun, rfl⟩
  | cons c tail =>
    cases hc : p c with
    | true => exact .inl ⟨c, tail, rfl, hc, hc⟩
    | false =>
      refine .inr ⟨?_, hc⟩
      rintro _ ⟨⟩
      exact hc

theorem digits_of_takeWhile (cs : List Char) : ∀ d ∈ cs.takeWhile isDigit, d ∈ digits :=
  forall_isDigit_iff.mp fun _ hd => List.mem_takeWhile_imp hd

theorem exists_isSign_append (cs : List Char) : ∃ sign, IsSign sign ∧ sign ++ afterSign cs = cs := by
  unfold afterSign
  split
  · exact ⟨_, .plus, rfl⟩
  · exact ⟨_, .minus, rfl⟩
  · exact ⟨_, .none, rfl⟩

theorem afterSign_of_head? (h : ∀ c ∈ rest.head?, isSign c = false) : afterSign rest = rest := by
  unfold afterSign
  split
  · cases h '+' rfl
  · cases h '-' rfl
  · rfl

/-- A sign is read off the front of what does not go on with another one. -/
theorem afterSign_append {sign : List Char} (hsign : IsSign sign)
    (h : ∀ c ∈ rest.head?, isSign c = false) : afterSign (sign ++ rest) = rest := by
  cases hsign with
  | none => exact afterSign_of_head? h
  | plus => rfl
  | minus => rfl

/-- A mantissa with a point, which has a digit on one of its sides. -/
theorem afterMantissa?_of_point {fraction : List Char} (h : cs.dropWhile isDigit = '.' :: fraction) :
    afterMantissa? cs =
      if (cs.takeWhile isDigit).isEmpty && (fraction.takeWhile isDigit).isEmpty then none
      else some (fraction.dropWhile isDigit) := by
  rw [afterMantissa?, h]
  rfl

/-- A mantissa without a point. -/
theorem afterMantissa?_of_no_point (h : ∀ c ∈ (cs.dropWhile isDigit).head?, c ≠ '.') :
    afterMantissa? cs =
      if (cs.takeWhile isDigit).isEmpty then none else some (cs.dropWhile isDigit) := by
  rw [afterMantissa?]
  split
  · rename_i fraction hpoint
    rw [hpoint] at h
    exact absurd rfl (h '.' rfl)
  · rfl

theorem exists_isMantissa_append (h : afterMantissa? cs = some rest) :
    ∃ mantissa, IsMantissa mantissa ∧ mantissa ++ rest = cs := by
  have hsplit : cs.takeWhile isDigit ++ cs.dropWhile isDigit = cs := List.takeWhile_append_dropWhile
  rcases head?_any_cases (· == '.') (cs.dropWhile isDigit) with ⟨c, fraction, hpoint, hc, -⟩ | ⟨hpoint, -⟩
  · obtain rfl := eq_of_beq hc
    have hfraction : fraction.takeWhile isDigit ++ fraction.dropWhile isDigit = fraction :=
      List.takeWhile_append_dropWhile
    rw [afterMantissa?_of_point hpoint] at h
    split at h
    · cases h
    · rename_i hsome
      cases h
      by_cases hwhole : cs.takeWhile isDigit = []
      · have hne : fraction.takeWhile isDigit ≠ [] := by
          intro hnil
          exact hsome (by rw [hwhole, hnil]; rfl)
        rw [hwhole, List.nil_append] at hsplit
        refine ⟨_, .fraction hne (digits_of_takeWhile fraction), ?_⟩
        rw [List.cons_append, hfraction, ← hpoint, hsplit]
      · refine ⟨_, .pointed hwhole (digits_of_takeWhile cs) (digits_of_takeWhile fraction), ?_⟩
        rw [List.append_assoc, List.cons_append, hfraction, ← hpoint, hsplit]
  · rw [afterMantissa?_of_no_point fun c hc => ne_of_beq_false (hpoint c hc)] at h
    split at h
    · cases h
    · rename_i hsome
      cases h
      have hne : cs.takeWhile isDigit ≠ [] := by
        intro hnil
        exact hsome (by rw [hnil]; rfl)
      exact ⟨_, .whole hne (digits_of_takeWhile cs), hsplit⟩

/-- A mantissa is read off the front of what does not go on with a digit or a point. -/
theorem afterMantissa?_append {mantissa : List Char} (hmantissa : IsMantissa mantissa)
    (h : ∀ c ∈ rest.head?, isDigit c = false ∧ c ≠ '.') : afterMantissa? (mantissa ++ rest) = some rest := by
  have hstops : ∀ c ∈ rest.head?, isDigit c = false := fun c hc => (h c hc).1
  have hpoint (fs : List Char) : ∀ c ∈ ('.' :: (fs ++ rest)).head?, isDigit c = false := by
    rintro c ⟨⟩
    decide
  cases hmantissa with
  | whole hne hds =>
    obtain ⟨htake, hdrop⟩ := takeWhile_append_of_stops (forall_isDigit_iff.mpr hds) hstops
    rw [afterMantissa?_of_no_point, htake, hdrop, if_neg (by simpa using hne)]
    rw [hdrop]
    exact fun c hc => (h c hc).2
  | @pointed ds fs hne hds hfs =>
    obtain ⟨htake, hdrop⟩ := takeWhile_append_of_stops (forall_isDigit_iff.mpr hds) (hpoint fs)
    obtain ⟨-, hrest⟩ := takeWhile_append_of_stops (forall_isDigit_iff.mpr hfs) hstops
    rw [List.append_assoc, List.cons_append, afterMantissa?_of_point hdrop, htake, hrest,
      if_neg (by simp [hne])]
  | @fraction fs hne hfs =>
    obtain ⟨htake, hdrop⟩ := takeWhile_append_of_stops (List.forall_mem_nil _) (hpoint fs)
    obtain ⟨hfraction, hrest⟩ := takeWhile_append_of_stops (forall_isDigit_iff.mpr hfs) hstops
    rw [List.nil_append] at hdrop
    rw [List.cons_append, afterMantissa?_of_point hdrop, hfraction, hrest, if_neg (by simp [hne])]

/-- An exponent behind its mark, which has a digit. -/
theorem afterExponent?_of_isMark {c : Char} (h : isMark c = true) :
    afterExponent? (c :: cs) =
      if ((afterSign cs).takeWhile isDigit).isEmpty then none
      else some ((afterSign cs).dropWhile isDigit) :=
  if_pos h

theorem afterExponent?_of_no_mark (h : ∀ c ∈ cs.head?, isMark c = false) : afterExponent? cs = some cs := by
  cases cs with
  | nil => rfl
  | cons c cs => exact if_neg (Bool.eq_false_iff.mp (h c rfl))

theorem exists_isExponent_append (h : afterExponent? cs = some rest) :
    ∃ exponent, IsExponent exponent ∧ exponent ++ rest = cs := by
  rcases head?_any_cases isMark cs with ⟨c, cs, rfl, hmark, -⟩ | ⟨hmark, -⟩
  · rw [afterExponent?_of_isMark hmark] at h
    split at h
    · cases h
    · rename_i hsome
      cases h
      obtain ⟨sign, hsign, hsplit⟩ := exists_isSign_append cs
      have hne : (afterSign cs).takeWhile isDigit ≠ [] := by
        intro hnil
        exact hsome (by rw [hnil]; rfl)
      refine ⟨_, .power (by simpa [isMark] using hmark) hsign hne (digits_of_takeWhile _), ?_⟩
      rw [List.cons_append, List.append_assoc, List.takeWhile_append_dropWhile, hsplit]
  · rw [afterExponent?_of_no_mark hmark] at h
    cases h
    exact ⟨[], .none, rfl⟩

/-- An exponent is read off the front of what does not go on with a digit or with another exponent. -/
theorem afterExponent?_append {exponent : List Char} (hexponent : IsExponent exponent)
    (h : ∀ c ∈ rest.head?, isDigit c = false ∧ isMark c = false) :
    afterExponent? (exponent ++ rest) = some rest := by
  cases hexponent with
  | none => exact afterExponent?_of_no_mark fun c hc => (h c hc).2
  | @power mark sign ds hmark hsign hne hds =>
    have hmark : isMark mark = true := by simpa [isMark] using hmark
    have hdigits := forall_isDigit_iff.mpr hds
    obtain ⟨htake, hdrop⟩ := takeWhile_append_of_stops hdigits fun c hc => (h c hc).1
    have hunsigned : ∀ c ∈ (ds ++ rest).head?, isSign c = false := by
      intro c hc
      cases ds with
      | nil => exact absurd rfl hne
      | cons d ds =>
        cases hc
        exact (of_isDigit (hdigits c List.mem_cons_self)).2.1
    rw [List.cons_append, List.append_assoc, afterExponent?_of_isMark hmark, afterSign_append hsign hunsigned,
      htake, hdrop, if_neg (by simpa using hne)]

/-! ## Numerals between blanks -/

theorem of_mem_digits {d : Char} (h : d ∈ digits) : isBlank d = false ∧ d.toNat < 0x80 :=
  have hall := of_isDigit (isDigit_iff.mpr h)
  ⟨hall.1, hall.2.2.2.2⟩

theorem IsSign.of_mem {c : Char} (h : IsSign cs) (hc : c ∈ cs) : isBlank c = false ∧ c.toNat < 0x80 := by
  cases h with
  | none => cases hc
  | plus | minus =>
    obtain rfl := List.mem_singleton.mp hc
    decide

theorem IsMantissa.of_mem {c : Char} (h : IsMantissa cs) (hc : c ∈ cs) : isBlank c = false ∧ c.toNat < 0x80 := by
  have hpointed {fs : List Char} (hfs : ∀ d ∈ fs, d ∈ digits) (hc : c ∈ '.' :: fs) :
      isBlank c = false ∧ c.toNat < 0x80 := by
    rcases List.mem_cons.mp hc with rfl | hc
    · decide
    · exact of_mem_digits (hfs c hc)
  cases h with
  | whole _ hds => exact of_mem_digits (hds c hc)
  | pointed _ hds hfs =>
    rcases List.mem_append.mp hc with hc | hc
    · exact of_mem_digits (hds c hc)
    · exact hpointed hfs hc
  | fraction _ hfs => exact hpointed hfs hc

theorem IsExponent.of_mem {c : Char} (h : IsExponent cs) (hc : c ∈ cs) : isBlank c = false ∧ c.toNat < 0x80 := by
  cases h with
  | none => cases hc
  | power hmark hsign _ hds =>
    rcases List.mem_cons.mp hc with rfl | hc
    · rcases hmark with rfl | rfl <;> decide
    · rcases List.mem_append.mp hc with hc | hc
      · exact hsign.of_mem hc
      · exact of_mem_digits (hds c hc)

/-- The characters of a numeral are neither blanks nor outside ASCII. -/
theorem IsNumeral.of_mem {c : Char} (h : IsNumeral cs) (hc : c ∈ cs) : isBlank c = false ∧ c.toNat < 0x80 := by
  obtain ⟨hsign, hmantissa, hexponent⟩ := h
  rcases List.mem_append.mp hc with hc | hc
  · rcases List.mem_append.mp hc with hc | hc
    · exact hsign.of_mem hc
    · exact hmantissa.of_mem hc
  · exact hexponent.of_mem hc

theorem IsNumeral.ne_nil (h : IsNumeral cs) : cs ≠ [] := by
  obtain ⟨hsign, hmantissa, hexponent⟩ := h
  cases hmantissa <;> simp [*]

/-- A mantissa does not begin with a sign. -/
theorem IsMantissa.head? {mantissa : List Char} (h : IsMantissa mantissa) :
    ∀ c ∈ (mantissa ++ rest).head?, isSign c = false := by
  have hdigit {d : Char} (hd : d ∈ digits) : isSign d = false := (of_isDigit (isDigit_iff.mpr hd)).2.1
  have hfirst {ds r : List Char} (hne : ds ≠ []) (hds : ∀ d ∈ ds, d ∈ digits) :
      ∀ c ∈ (ds ++ r).head?, isSign c = false := by
    cases ds with
    | nil => exact absurd rfl hne
    | cons d ds =>
      rintro c ⟨⟩
      exact hdigit (hds d List.mem_cons_self)
  cases h with
  | whole hne hds => exact hfirst hne hds
  | pointed hne hds _ =>
    rw [List.append_assoc]
    exact hfirst hne hds
  | fraction =>
    rintro c ⟨⟩
    decide

/-- The readers, one after the other, take a numeral off the front of blanks. -/
theorem readers_iff {back : List Char} (hback : ∀ c ∈ back, isBlank c = true) :
    (∃ tail, afterMantissa? (afterSign cs) = some tail ∧ afterExponent? tail = some back) ↔
      ∃ numeral, IsNumeral numeral ∧ numeral ++ back = cs := by
  constructor
  · rintro ⟨tail, hmantissa, hexponent⟩
    obtain ⟨sign, hsign, hsplit⟩ := exists_isSign_append cs
    obtain ⟨mantissa, hm, hm'⟩ := exists_isMantissa_append hmantissa
    obtain ⟨exponent, he, he'⟩ := exists_isExponent_append hexponent
    refine ⟨_, .intro hsign hm he, ?_⟩
    rw [List.append_assoc, he', List.append_assoc, hm', hsplit]
  · rintro ⟨numeral, ⟨hsign, hm, he⟩, rfl⟩
    rename_i sign mantissa exponent
    have hblank : ∀ c ∈ back.head?, isDigit c = false ∧ isMark c = false ∧ c ≠ '.' := by
      intro c hc
      obtain ⟨hdigit, -, hmark, hpoint, -⟩ := of_isBlank (hback c (List.mem_of_mem_head? hc))
      exact ⟨hdigit, hmark, hpoint⟩
    have htail : ∀ c ∈ (exponent ++ back).head?, isDigit c = false ∧ c ≠ '.' := by
      cases he with
      | none => exact fun c hc => ⟨(hblank c hc).1, (hblank c hc).2.2⟩
      | @power mark sign ds hmark =>
        rintro c ⟨⟩
        have hmark : isMark mark = true := by simpa [isMark] using hmark
        exact ⟨(of_isMark hmark).2.1, (of_isMark hmark).2.2.1⟩
    refine ⟨exponent ++ back, ?_, afterExponent?_append he fun c hc => ⟨(hblank c hc).1, (hblank c hc).2.1⟩⟩
    rw [List.append_assoc, List.append_assoc, afterSign_append hsign hm.head?]
    exact afterMantissa?_append hm htail

/-- What the readers have to do with a text that reads as a number. -/
theorem isNumericText_iff_readers (s : String) :
    isNumericText s = true ↔
      ∃ back, (∀ c ∈ back, isBlank c = true) ∧
        ∃ tail, afterMantissa? (afterSign (s.toList.dropWhile isBlank)) = some tail ∧
          afterExponent? tail = some back := by
  rw [isNumericText]
  cases afterMantissa? (afterSign (s.toList.dropWhile isBlank)) with
  | none => simp
  | some tail =>
    cases hexponent : afterExponent? tail with
    | none => simp [hexponent]
    | some back => simp [hexponent]

theorem dropWhile_isBlank_append {front back : List Char} (hfront : ∀ c ∈ front, isBlank c = true)
    (h : IsNumeral cs) : (front ++ (cs ++ back)).dropWhile isBlank = cs ++ back := by
  refine (takeWhile_append_of_stops hfront ?_).2
  cases cs with
  | nil => exact absurd rfl h.ne_nil
  | cons c cs =>
    rintro _ ⟨⟩
    exact (h.of_mem List.mem_cons_self).1

/-- A text reads as a number if it is a numeral between blanks. -/
theorem isNumericText_iff (s : String) :
    isNumericText s = true ↔
      ∃ front cs back, s.toList = front ++ cs ++ back ∧ (∀ c ∈ front, c ∈ blanks) ∧ IsNumeral cs ∧
        ∀ c ∈ back, c ∈ blanks := by
  rw [isNumericText_iff_readers]
  constructor
  · rintro ⟨back, hback, hreaders⟩
    obtain ⟨cs, hcs, hsplit⟩ := (readers_iff hback).mp hreaders
    refine ⟨s.toList.takeWhile isBlank, cs, back, ?_, ?_, hcs, fun c hc => isBlank_iff.mp (hback c hc)⟩
    · rw [List.append_assoc, hsplit, List.takeWhile_append_dropWhile]
    · exact fun c hc => isBlank_iff.mp (List.mem_takeWhile_imp hc)
  · rintro ⟨front, cs, back, hs, hfront, hcs, hback⟩
    have hback : ∀ c ∈ back, isBlank c = true := fun c hc => isBlank_iff.mpr (hback c hc)
    rw [hs, List.append_assoc, dropWhile_isBlank_append (fun c hc => isBlank_iff.mpr (hfront c hc)) hcs]
    exact ⟨back, hback, (readers_iff hback).mpr ⟨cs, hcs, rfl⟩⟩

/-! ## Trimmed texts -/

/-- Characters without the blanks at both ends. -/
def trimmed (cs : List Char) : List Char :=
  (cs.dropWhile isBlank).rdropWhile isBlank

theorem trimmed_of_isNumeral {front back : List Char} (hfront : ∀ c ∈ front, isBlank c = true)
    (h : IsNumeral cs) (hback : ∀ c ∈ back, isBlank c = true) : trimmed (front ++ cs ++ back) = cs := by
  have hend : ∀ c ∈ cs.reverse.head?, isBlank c = false := by
    intro c hc
    exact (h.of_mem (List.mem_reverse.mp (List.mem_of_mem_head? hc))).1
  rw [trimmed, List.append_assoc, dropWhile_isBlank_append hfront h, List.rdropWhile, List.reverse_append,
    (takeWhile_append_of_stops (fun c hc => hback c (List.mem_reverse.mp hc)) hend).2, List.reverse_reverse]

/-- A text reads as a number if a numeral is left when it is trimmed. -/
theorem isNumericText_iff_trimmed (s : String) : isNumericText s = true ↔ IsNumeral (trimmed s.toList) := by
  rw [isNumericText_iff]
  constructor
  · rintro ⟨front, cs, back, hs, hfront, hcs, hback⟩
    rw [hs, trimmed_of_isNumeral (fun c hc => isBlank_iff.mpr (hfront c hc)) hcs
      fun c hc => isBlank_iff.mpr (hback c hc)]
    exact hcs
  · intro h
    refine ⟨s.toList.takeWhile isBlank, _, (s.toList.dropWhile isBlank).rtakeWhile isBlank, ?_, ?_, h, ?_⟩
    · rw [trimmed, List.append_assoc, List.rdropWhile_append_rtakeWhile, List.takeWhile_append_dropWhile]
    · exact fun c hc => isBlank_iff.mp (List.mem_takeWhile_imp hc)
    · exact fun c hc => isBlank_iff.mp (List.mem_rtakeWhile_imp hc)

/-! ## A scanner over bytes -/

/-- Whether the byte at a position is in a class. At the end of the bytes nothing is read. -/
def byteIs? (p : Char → Bool) (bytes : List UInt8) (i : Nat) : Option Bool :=
  if i < bytes.length then bytes[i]?.map (inClass p) else some false

theorem lt_of_byteIs? {p : Char → Bool} {bytes : List UInt8} {i : Nat} (h : byteIs? p bytes i = some true) :
    i < bytes.length := by
  rw [byteIs?] at h
  split at h
  · assumption
  · cases h

/-- The position behind a sign, if there is one. -/
def signEnd? (bytes : List UInt8) (i : Nat) : Option Nat :=
  (byteIs? isSign bytes i).map fun found => if found then i + 1 else i

/-- The position behind all digits that follow. -/
def digitsEnd? (bytes : List UInt8) (i : Nat) : Option Nat :=
  match h : byteIs? isDigit bytes i with
  | none => none
  | some false => some i
  | some true => digitsEnd? bytes (i + 1)
termination_by bytes.length - i
decreasing_by
  have hlt := lt_of_byteIs? h
  omega

theorem digitsEnd?_of_stop {bytes : List UInt8} {i : Nat} (h : byteIs? isDigit bytes i = some false) :
    digitsEnd? bytes i = some i := by
  rw [digitsEnd?]
  split <;> simp_all

theorem digitsEnd?_of_more {bytes : List UInt8} {i : Nat} (h : byteIs? isDigit bytes i = some true) :
    digitsEnd? bytes i = digitsEnd? bytes (i + 1) := by
  rw [digitsEnd?]
  split <;> simp_all

/-- The position behind a mantissa. The digits on both sides of the point are counted together, and there has
    to be one. -/
def mantissaEnd? (bytes : List UInt8) (i : Nat) : Option (Option Nat) := do
  let point ← digitsEnd? bytes i
  if ← byteIs? (· == '.') bytes point then
    let last ← digitsEnd? bytes (point + 1)
    return if point - i + (last - (point + 1)) = 0 then none else some last
  else
    return if point - i = 0 then none else some point

/-- The position behind an exponent, if there is one. Behind its mark and its sign there has to be a digit. -/
def exponentEnd? (bytes : List UInt8) (i : Nat) : Option (Option Nat) := do
  if ← byteIs? isMark bytes i then
    let power ← signEnd? bytes (i + 1)
    let last ← digitsEnd? bytes power
    return if last = power then none else some last
  else
    return some i

/-- Whether bytes are a numeral from the first one to the last one; nothing if a byte is read at a position
    where there is none. -/
def scanNumber? (bytes : List UInt8) : Option Bool := do
  let start ← signEnd? bytes 0
  match ← mantissaEnd? bytes start with
  | none => return false
  | some mark =>
    match ← exponentEnd? bytes mark with
    | none => return false
    | some last => return last == bytes.length

/-- At a position among bytes, these characters are left. -/
def At (bytes : List UInt8) (i : Nat) (cs : List Char) : Prop :=
  i ≤ bytes.length ∧ bytes.drop i = utf8 cs

section Scanner

variable {bytes : List UInt8} {i : Nat}

/-- A byte is in a class if the next character is. No read is out of range. -/
theorem At.byteIs? (h : At bytes i cs) {p : Char → Bool} (hp : IsAscii p) :
    Numeric.byteIs? p bytes i = some (cs.head?.any p) := by
  have hhead : bytes[i]?.any (inClass p) = cs.head?.any p := by
    rw [← List.head?_drop, h.2, head?_utf8_inClass hp]
  rw [Numeric.byteIs?, ← hhead]
  split
  · rename_i hlt
    rw [List.getElem?_eq_getElem hlt]
    rfl
  · rename_i hge
    rw [List.getElem?_eq_none (Nat.le_of_not_lt hge)]
    rfl

/-- Behind an ASCII character stands the next one. -/
theorem At.succ {c : Char} (h : At bytes i (c :: cs)) (hc : c.toNat < 0x80) : At bytes (i + 1) cs := by
  obtain ⟨hle, hdrop⟩ := h
  rw [utf8_cons, encode_of_ascii hc] at hdrop
  have hlt : i < bytes.length := by
    have hlength := congrArg List.length hdrop
    rw [List.length_drop, List.length_append, List.length_singleton] at hlength
    omega
  refine ⟨hlt, ?_⟩
  rw [← List.tail_drop, hdrop]
  rfl

/-- Only at the end of the bytes, no characters are left. -/
theorem At.eq_length_iff (h : At bytes i cs) : i = bytes.length ↔ cs = [] := by
  obtain ⟨hle, hdrop⟩ := h
  have hlength := congrArg List.length hdrop
  rw [List.length_drop, length_utf8] at hlength
  constructor
  · rintro rfl
    cases cs with
    | nil => rfl
    | cons c cs =>
      have hpos := c.utf8Size_pos
      rw [byteCount] at hlength
      omega
  · rintro rfl
    rw [byteCount] at hlength
    omega

theorem isAscii_isSign : IsAscii isSign := fun _ h => (of_isSign h).2

theorem isAscii_isDigit : IsAscii isDigit := fun _ h => (of_isDigit h).2.2.2.2

theorem isAscii_isMark : IsAscii isMark := fun _ h => (of_isMark h).2.2.2

theorem isAscii_point : IsAscii (· == '.') := by
  intro c h
  obtain rfl := eq_of_beq h
  decide

theorem At.signEnd? (h : At bytes i cs) : ∃ j, Numeric.signEnd? bytes i = some j ∧ At bytes j (afterSign cs) := by
  rw [Numeric.signEnd?, h.byteIs? isAscii_isSign]
  cases cs with
  | nil => exact ⟨i, rfl, h⟩
  | cons c cs =>
    by_cases hsign : isSign c = true
    · refine ⟨i + 1, by simp [hsign], ?_⟩
      have hnext := h.succ (of_isSign hsign).2
      simp only [isSign, Bool.or_eq_true, decide_eq_true_eq] at hsign
      rcases hsign with rfl | rfl <;> exact hnext
    · refine ⟨i, by simp [hsign], ?_⟩
      rw [afterSign_of_head?]
      · exact h
      · rintro _ ⟨⟩
        exact Bool.eq_false_iff.mpr hsign

/-- The loop over digits stops behind the last one of them, each of which is one byte. -/
theorem At.digitsEnd? (h : At bytes i cs) :
    Numeric.digitsEnd? bytes i = some (i + (cs.takeWhile isDigit).length) ∧
      At bytes (i + (cs.takeWhile isDigit).length) (cs.dropWhile isDigit) := by
  induction cs generalizing i with
  | nil =>
    rw [digitsEnd?_of_stop (h.byteIs? isAscii_isDigit)]
    exact ⟨rfl, h⟩
  | cons c cs ih =>
    have hread : Numeric.byteIs? isDigit bytes i = some (isDigit c) := h.byteIs? isAscii_isDigit
    by_cases hdigit : isDigit c = true
    · obtain ⟨hloop, hat⟩ := ih (h.succ (of_isDigit hdigit).2.2.2.2)
      rw [Nat.succ_add_eq_add_succ] at hloop hat
      rw [hdigit] at hread
      rw [digitsEnd?_of_more hread, hloop, List.takeWhile_cons_of_pos hdigit, List.dropWhile_cons_of_pos hdigit]
      exact ⟨rfl, hat⟩
    · rw [Bool.eq_false_iff.mpr hdigit] at hread
      rw [digitsEnd?_of_stop hread, List.takeWhile_cons_of_neg hdigit, List.dropWhile_cons_of_neg hdigit]
      exact ⟨rfl, h⟩

/-- A loop over bytes and a reader of characters stop at the same place, or both refuse. -/
def Ends (bytes : List UInt8) : Option Nat → Option (List Char) → Prop
  | some i, some cs => At bytes i cs
  | none, none => True
  | _, _ => False

theorem At.ends {refused : Bool} {p : Prop} [Decidable p] (h : At bytes i cs) (hp : p ↔ refused = true) :
    Ends bytes (if p then none else some i) (if refused then none else some cs) := by
  by_cases hrefused : refused = true
  · rw [if_pos hrefused, if_pos (hp.mpr hrefused)]
    trivial
  · rw [if_neg hrefused, if_neg fun h => hrefused (hp.mp h)]
    exact h

theorem At.mantissaEnd? (h : At bytes i cs) :
    ∃ stop?, Numeric.mantissaEnd? bytes i = some stop? ∧ Ends bytes stop? (afterMantissa? cs) := by
  obtain ⟨hwhole, hpoint⟩ := h.digitsEnd?
  have hread := hpoint.byteIs? isAscii_point
  rw [Numeric.mantissaEnd?, hwhole, Option.bind_eq_bind, Option.bind_some, hread, Option.bind_eq_bind,
    Option.bind_some]
  rcases head?_any_cases (· == '.') (cs.dropWhile isDigit) with ⟨c, fraction, hdot, hc, hany⟩ | ⟨hnone, hany⟩
  · obtain rfl := eq_of_beq hc
    rw [hdot] at hpoint
    obtain ⟨hfraction, hlast⟩ := (hpoint.succ (by decide)).digitsEnd?
    rw [afterMantissa?_of_point hdot, if_pos hany, hfraction]
    refine ⟨_, rfl, hlast.ends ?_⟩
    rw [Nat.add_sub_cancel_left, Nat.add_sub_cancel_left, Nat.add_eq_zero_iff, List.length_eq_zero_iff,
      List.length_eq_zero_iff, Bool.and_eq_true, List.isEmpty_iff, List.isEmpty_iff]
  · rw [afterMantissa?_of_no_point fun c hc => ne_of_beq_false (hnone c hc), if_neg (Bool.eq_false_iff.mp hany)]
    refine ⟨_, rfl, hpoint.ends ?_⟩
    rw [Nat.add_sub_cancel_left, List.length_eq_zero_iff, List.isEmpty_iff]

theorem At.exponentEnd? (h : At bytes i cs) :
    ∃ stop?, Numeric.exponentEnd? bytes i = some stop? ∧ Ends bytes stop? (afterExponent? cs) := by
  have hread := h.byteIs? isAscii_isMark
  rw [Numeric.exponentEnd?, hread, Option.bind_eq_bind, Option.bind_some]
  rcases head?_any_cases isMark cs with ⟨c, cs, rfl, hmark, hany⟩ | ⟨hmark, hany⟩
  · obtain ⟨power, hsign, hpower⟩ := (h.succ (of_isMark hmark).2.2.2).signEnd?
    obtain ⟨hdigits, hlast⟩ := hpower.digitsEnd?
    rw [afterExponent?_of_isMark hmark, if_pos hany, hsign, Option.bind_eq_bind, Option.bind_some, hdigits]
    refine ⟨_, rfl, hlast.ends ?_⟩
    rw [Nat.add_eq_left, List.length_eq_zero_iff, List.isEmpty_iff]
  · rw [afterExponent?_of_no_mark hmark, if_neg (Bool.eq_false_iff.mp hany)]
    exact ⟨_, rfl, h⟩

/-- On the bytes of a text, the scanner reads no byte out of range, and it accepts the numerals. -/
theorem scanNumber?_utf8 (cs : List Char) : ∃ accepted, scanNumber? (utf8 cs) = some accepted ∧
    (accepted = true ↔ IsNumeral cs) := by
  have hreaders : (∃ tail, afterMantissa? (afterSign cs) = some tail ∧ afterExponent? tail = some []) ↔
      IsNumeral cs := by
    rw [readers_iff (List.forall_mem_nil (isBlank · = true))]
    simp only [List.append_nil, exists_eq_right]
  rw [← hreaders]
  have hbegin : At (utf8 cs) 0 cs := ⟨Nat.zero_le _, rfl⟩
  obtain ⟨start, hsign, hstart⟩ := hbegin.signEnd?
  obtain ⟨mark?, hmantissa, hmark⟩ := hstart.mantissaEnd?
  rw [scanNumber?, hsign, Option.bind_eq_bind, Option.bind_some, hmantissa, Option.bind_eq_bind,
    Option.bind_some]
  cases htail : afterMantissa? (afterSign cs) with
  | none =>
    rw [htail] at hmark
    cases mark? with
    | none => exact ⟨false, rfl, by simp⟩
    | some mark => cases hmark
  | some tail =>
    rw [htail] at hmark
    cases mark? with
    | none => cases hmark
    | some mark =>
      obtain ⟨last?, hexponent, hlast⟩ := At.exponentEnd? hmark
      simp only [hexponent, Option.bind_some]
      cases hrest : afterExponent? tail with
      | none =>
        rw [hrest] at hlast
        cases last? with
        | none => exact ⟨false, rfl, by simp [hrest]⟩
        | some last => cases hlast
      | some rest =>
        rw [hrest] at hlast
        cases last? with
        | none => cases hlast
        | some last =>
          have hend : last = (utf8 cs).length ↔ rest = [] := At.eq_length_iff hlast
          refine ⟨_, rfl, ?_⟩
          rw [beq_iff_eq, hend]
          simp [hrest]

end Scanner

/-! ## The law -/

/-- The bytes of a text without the blanks at both ends. -/
def trimmedBytes (s : String) : List UInt8 :=
  bytesOf (String.ofList (trimmed s.toList))

/-- **A text reads as a number exactly if it is made of blanks, a sign, a mantissa, an exponent and blanks.**
    No character outside ASCII is among them. A scanner over the bytes between the blanks finds the same out,
    and reads each byte at a position where there is one. -/
theorem isNumericText_decides (s : String) :
    (isNumericText s = true ↔ ∃ front sign mantissa exponent back : List Char,
      s.toList = front ++ sign ++ mantissa ++ exponent ++ back ∧ (∀ c ∈ front, c ∈ blanks) ∧
        IsSign sign ∧ IsMantissa mantissa ∧ IsExponent exponent ∧ ∀ c ∈ back, c ∈ blanks) ∧
    (isNumericText s = true → ∀ c ∈ s.toList, c.toNat < 0x80) ∧
    scanNumber? (trimmedBytes s) = some (isNumericText s) := by
  refine ⟨?_, ?_, ?_⟩
  · rw [isNumericText_iff]
    constructor
    · rintro ⟨front, _, back, hs, hfront, ⟨hsign, hmantissa, hexponent⟩, hback⟩
      refine ⟨front, _, _, _, back, ?_, hfront, hsign, hmantissa, hexponent, hback⟩
      rw [hs]
      simp only [List.append_assoc]
    · rintro ⟨front, sign, mantissa, exponent, back, hs, hfront, hsign, hmantissa, hexponent, hback⟩
      refine ⟨front, _, back, ?_, hfront, ⟨hsign, hmantissa, hexponent⟩, hback⟩
      rw [hs]
      simp only [List.append_assoc]
  · rw [isNumericText_iff]
    rintro ⟨front, cs, back, hs, hfront, hcs, hback⟩ c hc
    have hblank (hc : c ∈ blanks) : c.toNat < 0x80 := (of_isBlank (isBlank_iff.mpr hc)).2.2.2.2
    rw [hs] at hc
    rcases List.mem_append.mp hc with hc | hc
    · rcases List.mem_append.mp hc with hc | hc
      · exact hblank (hfront c hc)
      · exact (hcs.of_mem hc).2
    · exact hblank (hback c hc)
  · obtain ⟨accepted, hscan, haccepted⟩ := scanNumber?_utf8 (trimmed s.toList)
    rw [trimmedBytes, bytesOf_eq, String.toList_ofList, hscan]
    rw [← isNumericText_iff_trimmed, ← Bool.eq_iff_iff] at haccepted
    rw [haccepted]

end Numeric

end BoundSql
