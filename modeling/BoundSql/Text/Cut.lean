/-!
# `BoundSql.Text.Cut` — cutting a text to a number of bytes

The length of a text is its number of bytes in UTF-8, where a character takes one to four. A text is
only ever cut between two characters.

## Contents
- **`byteCount`** is the length of a list of characters.
- **`fitting`** is the longest beginning of whole characters that fits into a number of bytes.
-/

namespace BoundSql

/-- The number of bytes that characters take in UTF-8. -/
def byteCount : List Char → Nat
  | [] => 0
  | c :: cs => c.utf8Size + byteCount cs

/-- The longest beginning of `cs` that takes at most `room` bytes. -/
def fitting : Nat → List Char → List Char
  | _, [] => []
  | room, c :: cs =>
    if c.utf8Size ≤ room then c :: fitting (room - c.utf8Size) cs else []

/-- The length of a text in bytes is that of its characters. -/
theorem byteCount_toList (s : String) : byteCount s.toList = s.utf8ByteSize := by
  suffices h : ∀ cs : List Char, (String.ofList cs).utf8ByteSize = byteCount cs by
    rw [← h, String.ofList_toList]
  intro cs
  induction cs with
  | nil => simp [byteCount]
  | cons c cs ih =>
    rw [show c :: cs = [c] ++ cs from rfl, String.ofList_append, String.utf8ByteSize_append, ih,
      ← String.singleton_eq_ofList, String.utf8ByteSize_singleton]
    rfl

/-- What is kept fits. -/
theorem byteCount_fitting_le (room : Nat) (cs : List Char) :
    byteCount (fitting room cs) ≤ room := by
  induction cs generalizing room with
  | nil => simp [fitting, byteCount]
  | cons c cs ih =>
    unfold fitting
    split
    · have := ih (room - c.utf8Size)
      simp only [byteCount]
      omega
    · simp [byteCount]

/-- A text that fits is kept whole. -/
theorem fitting_of_byteCount_le {room : Nat} {cs : List Char} (h : byteCount cs ≤ room) :
    fitting room cs = cs := by
  induction cs generalizing room with
  | nil => rfl
  | cons c cs ih =>
    simp only [byteCount] at h
    rw [fitting, if_pos (by omega), ih (by omega)]

end BoundSql
