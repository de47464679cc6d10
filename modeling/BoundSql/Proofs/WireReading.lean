import BoundSql.Proofs.Reading
import BoundSql.Wire

/-!
# `BoundSql.Proofs.WireReading` — a sent statement can be read back

A value is sent without a note of its kind, so a receiver has nothing to go by but the look of it: a word, a
number or a string. As it has a string of its own, a text is never taken for what it spells, and as its
quotes, backslashes and control characters are escaped, it does not end before its time. So a receiver gets the
very statement that was sent, as long as no binary64 number is among the values; of those, the ones that are not
finite are sent as null.

## Contents
- **Readers.** `Wire.readChars`, `Wire.readValue`, `Wire.readParam` and `Wire.readParams` each take what they
  read off the front of a text and leave the rest; **`Prepared.ofJson?`** reads a whole statement.
- **What was written is read.** One lemma for each writer, whatever follows: `Wire.readChars_flatMap_escape`,
  `Wire.readValue_value_append`, `Wire.readParam_param_append`, `Wire.readParams_items_append`.
- **`Prepared.toJson_determines`**: a receiver gets what was sent, and nothing else is sent as the same.
-/

namespace BoundSql

namespace Wire

/-! ## Readers -/

/-- The value of a hexadecimal digit. -/
def digitValue? (c : Char) : Option Nat :=
  if '0' ≤ c ∧ c ≤ '9' then some (c.toNat - 48)
  else if 'a' ≤ c ∧ c ≤ 'f' then some (c.toNat - 87)
  else if 'A' ≤ c ∧ c ≤ 'F' then some (c.toNat - 55)
  else none

/-- The character whose code point has four hexadecimal digits. Halves of pairs are none. -/
def ofHex? (a b c d : Char) : Option Char := do
  let n := (((← digitValue? a) * 16 + (← digitValue? b)) * 16 + (← digitValue? c)) * 16 + (← digitValue? d)
  if n.isValidChar then some (Char.ofNat n) else none

/-- The character that a letter behind a backslash stands for. -/
def unescape? : Char → Option Char
  | '"' => some '"'
  | '\\' => some '\\'
  | '/' => some '/'
  | 'b' => some '\x08'
  | 't' => some '\t'
  | 'n' => some '\n'
  | 'f' => some '\x0c'
  | 'r' => some '\r'
  | _ => none

/-- One more character in front of those that are read from a string. -/
def withFirst (c : Char) (reading : Option (List Char × List Char)) : Option (List Char × List Char) :=
  reading.map fun (cs, left) => (c :: cs, left)

/-- Reads a string behind its first quote. Control characters may not stand in it as they are. -/
def readChars : List Char → Option (List Char × List Char)
  | [] => none
  | '"' :: rest => some ([], rest)
  | '\\' :: 'u' :: a :: b :: c :: d :: rest => (ofHex? a b c d).bind fun e => withFirst e (readChars rest)
  | '\\' :: c :: rest => (unescape? c).bind fun e => withFirst e (readChars rest)
  | c :: rest => if c.toNat < 32 then none else withFirst c (readChars rest)

/-- Reads a value. What is neither a word nor a string has to be a whole number. -/
def readValue : List Char → Option (Value × List Char)
  | 'n' :: 'u' :: 'l' :: 'l' :: rest => some (.null, rest)
  | 't' :: 'r' :: 'u' :: 'e' :: rest => some (.bool true, rest)
  | 'f' :: 'a' :: 'l' :: 's' :: 'e' :: rest => some (.bool false, rest)
  | '"' :: rest => (readChars rest).map fun (cs, left) => (.text (String.ofList cs), left)
  | cs =>
    (String.ofList (cs.takeWhile isNumeral)).toInt?.map fun i => (.int i, cs.dropWhile isNumeral)

/-- Reads the code of a type tag. -/
def readType (cs : List Char) : Option (ParamType × List Char) :=
  ((String.ofList (cs.takeWhile Char.isDigit)).toNat?.bind ParamType.ofCode?).map fun type =>
    (type, cs.dropWhile Char.isDigit)

/-- Reads a parameter. -/
def readParam : List Char → Option (BoundParam × List Char)
  | '[' :: rest =>
    match readValue rest with
    | some (v, ',' :: rest) =>
      match readType rest with
      | some (type, ']' :: left) => some (⟨v, type⟩, left)
      | _ => none
    | _ => none
  | _ => none

theorem suffix_of_withFirst {c : Char} {reading : Option (List Char × List Char)} {cs found left : List Char}
    (hreading : ∀ found left, reading = some (found, left) → left <:+ cs)
    (h : withFirst c reading = some (found, left)) : left <:+ cs := by
  obtain ⟨⟨more, _⟩, hmore, heq⟩ := Option.map_eq_some_iff.mp h
  cases heq
  exact hreading more left hmore

/-- What is left of a string is the end of it. -/
theorem suffix_of_readChars {cs found left : List Char} (h : readChars cs = some (found, left)) :
    left <:+ cs := by
  induction cs using readChars.induct generalizing found left with
  | case1 => cases h
  | case2 rest =>
    cases h
    exact List.suffix_cons _ _
  | case3 a b c d rest ih =>
    obtain ⟨e, -, h⟩ := Option.bind_eq_some_iff.mp h
    exact (suffix_of_withFirst (fun _ _ => ih) h).trans (List.suffix_append ['\\', 'u', a, b, c, d] rest)
  | case4 c rest hhex ih =>
    rw [readChars] at h
    · obtain ⟨e, -, h⟩ := Option.bind_eq_some_iff.mp h
      exact (suffix_of_withFirst (fun _ _ => ih) h).trans (List.suffix_append ['\\', c] rest)
    · exact hhex
  | case5 c rest hquote hhex hslash hcontrol =>
    rw [readChars, if_pos hcontrol] at h
    · cases h
    all_goals assumption
  | case6 c rest hquote hhex hslash hcontrol ih =>
    rw [readChars, if_neg hcontrol] at h
    · exact (suffix_of_withFirst (fun _ _ => ih) h).trans (List.suffix_cons c rest)
    all_goals assumption

theorem suffix_of_readValue {cs left : List Char} {v : Value} (h : readValue cs = some (v, left)) :
    left <:+ cs := by
  unfold readValue at h
  split at h
  · cases h
    exact List.suffix_append ['n', 'u', 'l', 'l'] _
  · cases h
    exact List.suffix_append ['t', 'r', 'u', 'e'] _
  · cases h
    exact List.suffix_append ['f', 'a', 'l', 's', 'e'] _
  · obtain ⟨⟨found, _⟩, hread, heq⟩ := Option.map_eq_some_iff.mp h
    cases heq
    exact (suffix_of_readChars hread).trans (List.suffix_cons _ _)
  · obtain ⟨i, -, heq⟩ := Option.map_eq_some_iff.mp h
    cases heq
    exact List.dropWhile_suffix isNumeral

theorem suffix_of_readType {cs left : List Char} {type : ParamType} (h : readType cs = some (type, left)) :
    left <:+ cs := by
  obtain ⟨_, -, heq⟩ := Option.map_eq_some_iff.mp h
  cases heq
  exact List.dropWhile_suffix Char.isDigit

/-- A parameter takes up room, so reading one after the other comes to an end. -/
theorem length_lt_of_readParam {cs left : List Char} {p : BoundParam} (h : readParam cs = some (p, left)) :
    left.length < cs.length := by
  unfold readParam at h
  split at h
  · rename_i rest
    split at h
    · rename_i v behindValue hvalue
      split at h
      · rename_i type behindType htype
        cases h
        have hv := (suffix_of_readValue hvalue).length_le
        have ht := (suffix_of_readType htype).length_le
        simp only [List.length_cons] at hv ht ⊢
        omega
      · cases h
    · cases h
  · cases h

/-- Reads parameters, each behind a comma, up to the bracket that ends them. -/
def readMore (cs : List Char) : Option (List BoundParam × List Char) :=
  match cs with
  | ']' :: left => some ([], left)
  | ',' :: rest =>
    match _h : readParam rest with
    | some (p, behind) => (readMore behind).map fun (ps, left) => (p :: ps, left)
    | none => none
  | _ => none
termination_by cs.length
decreasing_by
  have hlt := length_lt_of_readParam _h
  rw [List.length_cons]
  omega

/-- Reads parameters with commas between them, up to the bracket that ends them. -/
def readParams : List Char → Option (List BoundParam × List Char)
  | ']' :: left => some ([], left)
  | cs => readMore (',' :: cs)

end Wire

/-- The prepared statement that is sent as a text. -/
def Prepared.ofJson? (json : String) : Option Prepared := do
  let rest ← json.toList.dropPrefix? "\x7b\"sql\":\"".toList
  let (sql, rest) ← Wire.readChars rest
  let rest ← rest.dropPrefix? ",\"params\":[".toList
  let (params, rest) ← Wire.readParams rest
  if rest = ['\x7d'] then some ⟨String.ofList sql, params⟩ else none

namespace Wire

/-! ## What was written is read -/

theorem digitValue?_hexDigit (n : Nat) : digitValue? (hexDigit n) = some (n % 16) := by
  have hall : ∀ k < 16, digitValue? (Nat.digitChar k) = some k := by decide
  exact hall (n % 16) (Nat.mod_lt n (by decide))

/-- A control character is read from its code point. -/
theorem ofHex?_toNat {c : Char} (h : c.toNat < 32) :
    ofHex? '0' '0' (hexDigit (c.toNat / 16)) (hexDigit c.toNat) = some c := by
  have hzero : digitValue? '0' = some 0 := by decide
  have hvalue : ((0 * 16 + 0) * 16 + c.toNat / 16 % 16) * 16 + c.toNat % 16 = c.toNat := by omega
  have hvalid : c.toNat.isValidChar := c.valid
  simp only [ofHex?, hzero, digitValue?_hexDigit, Option.bind_eq_bind, Option.bind_some, hvalue, if_pos hvalid,
    Char.ofNat_toNat]

theorem readChars_letter {c letter : Char} (h : unescape? letter = some c) (rest : List Char) :
    readChars ('\\' :: letter :: rest) = withFirst c (readChars rest) := by
  have hletter : letter ≠ 'u' := by
    rintro rfl
    cases h
  rw [readChars, h]
  · rfl
  · intro a b d e tail hu
    exact absurd hu hletter

/-- An escaped character is read as the character. -/
theorem readChars_escape_append (c : Char) (rest : List Char) :
    readChars (escape c ++ rest) = withFirst c (readChars rest) := by
  unfold escape
  split_ifs with hquote hslash hback htab hnewline hfeed hreturn hcontrol
  · subst hquote
    exact readChars_letter rfl rest
  · subst hslash
    exact readChars_letter rfl rest
  · subst hback
    exact readChars_letter rfl rest
  · subst htab
    exact readChars_letter rfl rest
  · subst hnewline
    exact readChars_letter rfl rest
  · subst hfeed
    exact readChars_letter rfl rest
  · subst hreturn
    exact readChars_letter rfl rest
  · show (ofHex? '0' '0' (hexDigit (c.toNat / 16)) (hexDigit c.toNat)).bind
      (fun e => withFirst e (readChars rest)) = _
    rw [ofHex?_toNat hcontrol, Option.bind_some]
  · rw [List.singleton_append, readChars, if_neg hcontrol]
    · exact hquote
    · exact fun a b d e tail h _ => absurd h hslash
    · exact fun letter tail h _ => absurd h hslash

/-- A string is read up to its closing quote. -/
theorem readChars_flatMap_escape (cs rest : List Char) :
    readChars (cs.flatMap escape ++ '"' :: rest) = some (cs, rest) := by
  induction cs with
  | nil => rfl
  | cons c cs ih =>
    rw [List.flatMap_cons, List.append_assoc, readChars_escape_append, ih]
    rfl

theorem toList_string_append (s : String) (rest : List Char) :
    (string s).toList ++ rest = '"' :: (s.toList.flatMap escape ++ '"' :: rest) := by
  rw [string, String.toList_ofList, stringChars]
  simp

/-- What starts as a number is neither a word nor a string. -/
theorem readValue_of_isNumeral {c : Char} (h : isNumeral c = true) (cs : List Char) :
    readValue (c :: cs) = (String.ofList ((c :: cs).takeWhile isNumeral)).toInt?.map fun i =>
      (.int i, (c :: cs).dropWhile isNumeral) := by
  have hne (d : Char) (hd : isNumeral d = false) : c ≠ d := by
    rintro rfl
    rw [h] at hd
    cases hd
  rw [readValue]
  · exact fun rest heq => absurd (List.cons.inj heq).1 (hne 'n' (by decide))
  · exact fun rest heq => absurd (List.cons.inj heq).1 (hne 't' (by decide))
  · exact fun rest heq => absurd (List.cons.inj heq).1 (hne 'f' (by decide))
  · exact fun rest heq => absurd (List.cons.inj heq).1 (hne '"' (by decide))

/-- A whole number is read up to the comma behind it. -/
theorem readValue_int_append (i : Int) (rest : List Char) :
    readValue (i.repr.toList ++ ',' :: rest) = some (.int i, ',' :: rest) := by
  have hcomma : ∀ c ∈ (',' :: rest).head?, isNumeral c = false := by
    intro c hc
    cases hc
    decide
  obtain ⟨hnumber, hrest⟩ :=
    takeWhile_append_of_stops (fun c hc => isNumeral_of_mem_intRepr (i := i) hc) hcomma
  obtain ⟨c, cs, hrepr, -, -⟩ := exists_cons_intRepr i
  have hfirst : isNumeral c = true := isNumeral_of_mem_intRepr (hrepr ▸ List.mem_cons_self)
  have hread := readValue_of_isNumeral hfirst (cs ++ ',' :: rest)
  rw [← List.cons_append, ← hrepr, hnumber, hrest, String.ofList_toList, Int.toInt?_repr] at hread
  exact hread

/-- A value is read up to the comma behind it, and as the kind of value that it is. -/
theorem readValue_value_append {v : Value} (hv : ∀ x, v ≠ .float x) (rest : List Char) :
    readValue ((value v).toList ++ ',' :: rest) = some (v, ',' :: rest) := by
  cases v with
  | null => rfl
  | bool b => cases b <;> rfl
  | int i => exact readValue_int_append i rest
  | float x => exact absurd rfl (hv x)
  | text s =>
    rw [value, toList_string_append]
    show (readChars (s.toList.flatMap escape ++ '"' :: ',' :: rest)).map _ = _
    rw [readChars_flatMap_escape]
    show some (Value.text (String.ofList s.toList), ',' :: rest) = _
    rw [String.ofList_toList]

/-- A type tag is read from its code. -/
theorem readType_code_append (type : ParamType) (rest : List Char) :
    readType (type.code.repr.toList ++ ']' :: rest) = some (type, ']' :: rest) := by
  have hdigits : ∀ c ∈ type.code.repr.toList, c.isDigit = true := by
    intro c hc
    rw [Nat.toList_repr] at hc
    exact Nat.isDigit_of_mem_toDigits (by decide) (by decide) hc
  have hbracket : ∀ c ∈ (']' :: rest).head?, c.isDigit = false := by
    intro c hc
    cases hc
    decide
  obtain ⟨hcode, hrest⟩ := takeWhile_append_of_stops hdigits hbracket
  rw [readType, hcode, hrest, String.ofList_toList, Nat.toNat?_repr, Option.bind_some, ParamType.ofCode?_code]
  rfl

theorem toList_param_append (p : BoundParam) (rest : List Char) :
    (param p).toList ++ rest =
      '[' :: ((value p.value).toList ++ ',' :: (p.type.code.repr.toList ++ ']' :: rest)) := by
  simp [param]

/-- A parameter is read up to the bracket that ends it. -/
theorem readParam_param_append {p : BoundParam} (hp : ∀ x, p.value ≠ .float x) (rest : List Char) :
    readParam ((param p).toList ++ rest) = some (p, rest) := by
  rw [toList_param_append]
  simp only [readParam, readValue_value_append hp, readType_code_append]

theorem readMore_comma {cs behind : List Char} {p : BoundParam} (h : readParam cs = some (p, behind)) :
    readMore (',' :: cs) = (readMore behind).map fun (ps, left) => (p :: ps, left) := by
  rw [readMore]
  split
  · rename_i q behind' hq
    cases h.symm.trans hq
    rfl
  · rename_i hnone
    rw [h] at hnone
    cases hnone

/-- Parameters behind commas are read up to the bracket that ends them. -/
theorem readMore_flatMap_append {ps : List BoundParam} (hps : ∀ p ∈ ps, ∀ x, p.value ≠ .float x)
    (rest : List Char) :
    readMore (ps.flatMap (fun p => ',' :: (param p).toList) ++ ']' :: rest) = some (ps, rest) := by
  induction ps with
  | nil =>
    rw [List.flatMap_nil, List.nil_append, readMore]
  | cons p ps ih =>
    obtain ⟨hp, hps⟩ := List.forall_mem_cons.mp hps
    rw [List.flatMap_cons, List.append_assoc, List.cons_append, readMore_comma (readParam_param_append hp _),
      ih hps]
    rfl

theorem comma_cons_toList_items (p : BoundParam) (ps : List BoundParam) :
    ',' :: (items ((p :: ps).map param)).toList = (p :: ps).flatMap fun p => ',' :: (param p).toList := by
  induction ps generalizing p with
  | nil => simp [items]
  | cons q ps ih =>
    have hcomma : ",".toList = [','] := by decide
    rw [List.flatMap_cons, ← ih q, List.map_cons, List.map_cons, items, String.toList_append,
      String.toList_append, hcomma, List.append_assoc]
    rfl

/-- Parameters are read up to the bracket that ends them. -/
theorem readParams_items_append {ps : List BoundParam} (hps : ∀ p ∈ ps, ∀ x, p.value ≠ .float x)
    (rest : List Char) :
    readParams ((items (ps.map param)).toList ++ ']' :: rest) = some (ps, rest) := by
  cases ps with
  | nil => rfl
  | cons p ps =>
    have hitems := comma_cons_toList_items p ps
    have hfirst : (items ((p :: ps).map param)).toList =
        (param p).toList ++ ps.flatMap fun p => ',' :: (param p).toList := (List.cons.inj hitems).2
    have hread := readMore_flatMap_append hps rest
    rw [← hitems, List.cons_append] at hread
    rw [readParams]
    · exact hread
    · -- The first parameter starts with a bracket of its own, so there is no end in its place.
      intro left hend
      rw [hfirst, List.append_assoc, toList_param_append] at hend
      exact absurd (List.cons.inj hend).1 (by decide)

theorem dropPrefix?_append (front rest : List Char) : (front ++ rest).dropPrefix? front = some rest :=
  List.dropPrefix?_eq_some_iff.mpr ⟨front, rfl, beq_self_eq_true front⟩

end Wire

namespace Prepared

/-- No parameter is a binary64 number. -/
def HasNoFloat (p : Prepared) : Prop :=
  ∀ param ∈ p.params, ∀ x, param.value ≠ .float x

theorem toList_toJson (p : Prepared) :
    p.toJson.toList = "\x7b\"sql\":\"".toList ++ (p.sql.toList.flatMap Wire.escape ++ '"' ::
      (",\"params\":[".toList ++ ((Wire.items (p.params.map Wire.param)).toList ++ [']', '\x7d']))) := by
  simp [toJson, Wire.string, Wire.stringChars]

/-- A statement without binary64 numbers is read back from what it is sent as. -/
theorem ofJson?_toJson {p : Prepared} (hp : p.HasNoFloat) : ofJson? p.toJson = some p := by
  rw [ofJson?, toList_toJson]
  simp only [Wire.dropPrefix?_append, Wire.readChars_flatMap_escape, Wire.readParams_items_append hp,
    Option.bind_eq_bind, Option.bind_some, String.ofList_toList]
  rfl

/-- **What is sent determines what was prepared.** A receiver reads the same text from it, and the same parameters
    in order, each with a value of the same kind and with the same type tag. No other statement without binary64
    numbers is sent as the same. -/
theorem toJson_determines {p : Prepared} (hp : p.HasNoFloat) :
    ofJson? p.toJson = some p ∧ ∀ q : Prepared, q.HasNoFloat → q.toJson = p.toJson → q = p := by
  refine ⟨ofJson?_toJson hp, fun q hq h => ?_⟩
  have hsame := ofJson?_toJson hq
  rw [h, ofJson?_toJson hp] at hsame
  exact (Option.some.inj hsame).symm

/-- A statement whose texts look like other values and like the end of what they stand in. -/
def lookalikes : Prepared where
  sql := "SELECT \x27\"]\\\x27 FROM t WHERE a IN (?, ?, ?, ?, ?)\n\x01"
  params := [⟨.text "1", .integer⟩, ⟨.int 1, .string⟩, ⟨.text "null", .lob⟩, ⟨.null, .bool⟩,
    ⟨.text "\",1],[true", .string⟩]

/-- A text that spells a number or null is not taken for one, and brackets in a text end nothing. -/
theorem toJson_determines_lookalikes :
    lookalikes.HasNoFloat ∧
      lookalikes.toJson =
        "\x7b\"sql\":\"SELECT \x27\\\"]\\\\\x27 FROM t WHERE a IN (?, ?, ?, ?, ?)\\n\\u0001\"," ++
          "\"params\":[[\"1\",1],[1,2],[\"null\",3],[null,5],[\"\\\",1],[true\",2]]\x7d" ∧
      ofJson? lookalikes.toJson = some lookalikes ∧
      ∀ q : Prepared, q.HasNoFloat → q.toJson = lookalikes.toJson → q = lookalikes := by
  have hp : lookalikes.HasNoFloat := by
    intro param hmem x
    simp only [lookalikes, List.mem_cons, List.not_mem_nil, or_false] at hmem
    rcases hmem with rfl | rfl | rfl | rfl | rfl <;> exact nofun
  exact ⟨hp, by decide +kernel, toJson_determines hp⟩

/-- An infinity is sent as null. -/
example : Wire.value (.float ⟨0x7ff0000000000000⟩) = Wire.value .null := by decide +kernel

end Prepared

end BoundSql
