import BoundSql.Text.Cut

/-!
# `BoundSql.Proofs.Bytes` — texts as bytes

A text is stored as bytes, one to four for each character. Whoever walks over a text byte by byte has to tell
the bytes that begin a character from those that go on with one, and ASCII characters from all others. UTF-8
is made so that a look at one byte is enough for both.

## Contents
- **`utf8`** lists the bytes of characters, **`bytesOf`** those that a text holds.
- **`continues`** tells the bytes that go on with a character; `exists_encode_eq_cons` finds one byte in front
  of them in each character.
- **`IsAscii`** classes of characters; **`inClass`** looks at a byte as a character, and
  `head?_utf8_inClass` says that this finds the first character of the class.
-/

namespace BoundSql

/-- The bytes of characters in UTF-8. -/
def utf8 (cs : List Char) : List UInt8 :=
  cs.flatMap String.utf8EncodeChar

@[simp] theorem utf8_nil : utf8 [] = [] := rfl

@[simp] theorem utf8_cons (c : Char) (cs : List Char) :
    utf8 (c :: cs) = String.utf8EncodeChar c ++ utf8 cs := rfl

@[simp] theorem utf8_append (a b : List Char) : utf8 (a ++ b) = utf8 a ++ utf8 b :=
  List.flatMap_append

/-- The bytes that a text holds. -/
def bytesOf (s : String) : List UInt8 :=
  s.toByteArray.data.toList

theorem bytesOf_eq (s : String) : bytesOf s = utf8 s.toList := by
  rw [bytesOf, ← String.utf8Encode_toList, List.utf8Encode, List.toList_data_toByteArray]
  rfl

theorem bytesOf_append (s t : String) : bytesOf (s ++ t) = bytesOf s ++ bytesOf t := by
  rw [bytesOf_eq, bytesOf_eq, bytesOf_eq, String.toList_append, utf8_append]

@[simp] theorem length_utf8 (cs : List Char) : (utf8 cs).length = byteCount cs := by
  induction cs with
  | nil => rfl
  | cons c cs ih => rw [utf8_cons, List.length_append, String.length_utf8EncodeChar, ih, byteCount]

/-! ## Bytes within a character -/

/-- Whether a byte goes on with a character that an earlier byte began. -/
def continues (b : UInt8) : Bool :=
  0x80 ≤ b && b < 0xc0

theorem continues_ofNat {n : Nat} (h : n < 256) :
    continues (UInt8.ofNat n) = true ↔ 0x80 ≤ n ∧ n < 0xc0 := by
  rw [continues, Bool.and_eq_true, decide_eq_true_eq, decide_eq_true_eq, UInt8.le_iff_toNat_le,
    UInt8.lt_iff_toNat_lt, UInt8.toNat_ofNat', Nat.mod_eq_of_lt h]
  exact Iff.rfl

/-- The bytes of a character hold the bits of its number, six in each byte behind the first one. -/
theorem encode_eq (c : Char) : String.utf8EncodeChar c =
    if c.toNat ≤ 0x7f then [UInt8.ofNat c.toNat]
    else if c.toNat ≤ 0x7ff then
      [UInt8.ofNat (c.toNat / 64 % 32 + 0xc0), UInt8.ofNat (c.toNat % 64 + 0x80)]
    else if c.toNat ≤ 0xffff then
      [UInt8.ofNat (c.toNat / 4096 % 16 + 0xe0), UInt8.ofNat (c.toNat / 64 % 64 + 0x80),
        UInt8.ofNat (c.toNat % 64 + 0x80)]
    else
      [UInt8.ofNat (c.toNat / 262144 % 8 + 0xf0), UInt8.ofNat (c.toNat / 4096 % 64 + 0x80),
        UInt8.ofNat (c.toNat / 64 % 64 + 0x80), UInt8.ofNat (c.toNat % 64 + 0x80)] := rfl

/-- A character is one byte that begins it, and bytes that go on with it. The first byte tells whether the
    character is in ASCII. -/
theorem exists_encode_eq_cons (c : Char) :
    ∃ first rest, String.utf8EncodeChar c = first :: rest ∧ continues first = false ∧
      (∀ b ∈ rest, continues b = true) ∧ (first.toNat < 0x80 ↔ c.toNat < 0x80) := by
  rw [encode_eq]
  generalize c.toNat = n
  have hrest (m : Nat) : continues (UInt8.ofNat (m % 64 + 0x80)) = true :=
    (continues_ofNat (by omega)).mpr (by omega)
  have hfirst {m : Nat} (hm : m < 256) (h : m < 0x80 ∨ 0xc0 ≤ m) (hn : m < 0x80 ↔ n < 0x80) :
      continues (UInt8.ofNat m) = false ∧ ((UInt8.ofNat m).toNat < 0x80 ↔ n < 0x80) := by
    rw [← Bool.not_eq_true, continues_ofNat hm, UInt8.toNat_ofNat', Nat.mod_eq_of_lt hm]
    exact ⟨by omega, hn⟩
  by_cases hone : n ≤ 0x7f
  · rw [if_pos hone]
    obtain ⟨hbegins, hascii⟩ := hfirst (m := n) (by omega) (by omega) (by omega)
    exact ⟨_, _, rfl, hbegins, List.forall_mem_nil _, hascii⟩
  rw [if_neg hone]
  have hlast : ∀ b ∈ [UInt8.ofNat (n % 64 + 0x80)], continues b = true :=
    List.forall_mem_singleton.mpr (hrest n)
  by_cases htwo : n ≤ 0x7ff
  · rw [if_pos htwo]
    obtain ⟨hbegins, hascii⟩ := hfirst (m := n / 64 % 32 + 0xc0) (by omega) (by omega) (by omega)
    exact ⟨_, _, rfl, hbegins, hlast, hascii⟩
  rw [if_neg htwo]
  have hmore : ∀ b ∈ [UInt8.ofNat (n / 64 % 64 + 0x80), UInt8.ofNat (n % 64 + 0x80)], continues b = true :=
    List.forall_mem_cons.mpr ⟨hrest (n / 64), hlast⟩
  by_cases hthree : n ≤ 0xffff
  · rw [if_pos hthree]
    obtain ⟨hbegins, hascii⟩ := hfirst (m := n / 4096 % 16 + 0xe0) (by omega) (by omega) (by omega)
    exact ⟨_, _, rfl, hbegins, hmore, hascii⟩
  · rw [if_neg hthree]
    obtain ⟨hbegins, hascii⟩ := hfirst (m := n / 262144 % 8 + 0xf0) (by omega) (by omega) (by omega)
    exact ⟨_, _, rfl, hbegins, List.forall_mem_cons.mpr ⟨hrest (n / 4096), hmore⟩, hascii⟩

/-! ## ASCII characters -/

/-- An ASCII character is the byte with its number. -/
theorem encode_of_ascii {c : Char} (h : c.toNat < 0x80) :
    String.utf8EncodeChar c = [UInt8.ofNat c.toNat] := by
  rw [encode_eq, if_pos (Nat.le_of_lt_succ h)]

/-- A class of characters that has ASCII characters only. -/
def IsAscii (p : Char → Bool) : Prop :=
  ∀ c, p c = true → c.toNat < 0x80

/-- Whether a byte, taken as the character with its number, is in a class. -/
def inClass (p : Char → Bool) (b : UInt8) : Bool :=
  p (Char.ofNat b.toNat)

/-- The first byte of a text is in a class of ASCII characters if the first character is. -/
theorem head?_utf8_inClass {p : Char → Bool} (hp : IsAscii p) (cs : List Char) :
    (utf8 cs).head?.any (inClass p) = cs.head?.any p := by
  cases cs with
  | nil => rfl
  | cons c cs =>
    show _ = p c
    by_cases hc : c.toNat < 0x80
    · rw [utf8_cons, encode_of_ascii hc]
      have hbyte : (UInt8.ofNat c.toNat).toNat = c.toNat := by
        rw [UInt8.toNat_ofNat', Nat.mod_eq_of_lt (by omega)]
      show p (Char.ofNat (UInt8.ofNat c.toNat).toNat) = p c
      rw [hbyte, Char.ofNat_toNat]
    · obtain ⟨first, rest, hencode, -, -, hascii⟩ := exists_encode_eq_cons c
      rw [utf8_cons, hencode]
      show p (Char.ofNat first.toNat) = p c
      have hchar : p c = false := Bool.eq_false_iff.mpr fun h => hc (hp c h)
      have hlatin : (Char.ofNat first.toNat).toNat = first.toNat := by
        have hlt := first.toNat_lt
        have hvalid : first.toNat.isValidChar := .inl (by omega)
        rw [Char.ofNat, dif_pos hvalid]
        rfl
      rw [hchar]
      refine Bool.eq_false_iff.mpr fun h => ?_
      have hsmall := hp _ h
      rw [hlatin] at hsmall
      exact hc (hascii.mp hsmall)

end BoundSql
