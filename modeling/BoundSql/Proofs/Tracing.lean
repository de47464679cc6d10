import BoundSql.Proofs.Bytes
import BoundSql.Trace

/-!
# `BoundSql.Proofs.Tracing` — what events tell about a statement

Whoever looks at the events takes them for what was sent to the driver, and whoever sends it relies on it that
looking changes nothing. A long text is cut. The cut is found on the bytes of the text, by steps back from
the limit, and a text can only be cut where a character begins.

## Contents
- **The longest beginning.** `fitting_isPrefix`, `isPrefix_fitting` and `byteCount_lt_fitting_add` say what
  `fitting` keeps.
- **`isBoundary`** tells the positions where a text can be cut; by `isBoundary_utf8_iff` these are the lengths
  of its beginnings.
- **`backOff`** steps back to the last boundary, and **`TraceConfig.shortenBytes?`** cuts there; it gives
  nothing when it would cut within a character.
- **`Shows`** says what an event has to show of a text.
- **`Statement.prepareTraced_isFaithful`** is the law of tracing.
-/

namespace BoundSql

/-! ## The longest beginning that fits -/

/-- What is kept is a beginning. -/
theorem fitting_isPrefix (room : Nat) (cs : List Char) : fitting room cs <+: cs := by
  induction cs generalizing room with
  | nil => exact List.prefix_rfl
  | cons c cs ih =>
    rw [fitting]
    split
    · exact List.cons_prefix_cons.mpr ⟨rfl, ih _⟩
    · exact List.nil_prefix

/-- Every beginning that fits is part of what is kept. -/
theorem isPrefix_fitting {room : Nat} {p cs : List Char} (hp : p <+: cs) (hfits : byteCount p ≤ room) :
    p <+: fitting room cs := by
  induction cs generalizing room p with
  | nil => exact hp
  | cons c cs ih =>
    cases p with
    | nil => exact List.nil_prefix
    | cons d p =>
      obtain ⟨rfl, htail⟩ := List.cons_prefix_cons.mp hp
      rw [byteCount] at hfits
      rw [fitting, if_pos (by omega)]
      exact List.cons_prefix_cons.mpr ⟨rfl, ih htail (by omega)⟩

/-- Less than one character of the room is left over. -/
theorem byteCount_lt_fitting_add {room : Nat} {cs : List Char} (h : room < byteCount cs) :
    room < byteCount (fitting room cs) + 4 := by
  induction cs generalizing room with
  | nil => exact absurd h (Nat.not_lt_zero room)
  | cons c cs ih =>
    rw [byteCount] at h
    rw [fitting]
    split
    · have hrest : room - c.utf8Size < byteCount (fitting (room - c.utf8Size) cs) + 4 := ih (by omega)
      rw [byteCount]
      omega
    · have hsize := c.utf8Size_le_four
      rw [byteCount]
      omega

/-! ## Boundaries -/

/-- Whether a text can be cut at a position: at its ends, and in front of each byte that begins a character. -/
def isBoundary (bytes : List UInt8) (i : Nat) : Bool :=
  i = 0 || i = bytes.length || bytes[i]?.any fun b => !continues b

theorem isBoundary_zero (bytes : List UInt8) : isBoundary bytes 0 = true := by
  simp [isBoundary]

/-- At the front of a text there is no byte within a character. -/
theorem isBoundary_utf8 (cs : List Char) (i : Nat) :
    isBoundary (utf8 cs) i = true ↔
      i = (utf8 cs).length ∨ (utf8 cs)[i]?.any (fun b => !continues b) = true := by
  have hfront : i = 0 → i = (utf8 cs).length ∨ (utf8 cs)[i]?.any (fun b => !continues b) = true := by
    rintro rfl
    cases cs with
    | nil => exact .inl rfl
    | cons c cs =>
      obtain ⟨first, rest, hencode, hbegins, -⟩ := exists_encode_eq_cons c
      right
      rw [utf8_cons, hencode]
      show (!continues first) = true
      rw [hbegins]
      rfl
  rw [isBoundary, Bool.or_eq_true, Bool.or_eq_true, decide_eq_true_eq, decide_eq_true_eq, or_assoc]
  exact or_iff_right_of_imp hfront

/-- Within a character there is no boundary. -/
theorem isBoundary_cons_of_lt {c : Char} {cs : List Char} {i : Nat} (h : i < c.utf8Size) :
    isBoundary (utf8 (c :: cs)) i = true ↔ i = 0 := by
  constructor
  · intro hboundary
    rcases Nat.eq_zero_or_eq_succ_pred i with hi | hi
    · exact hi
    obtain ⟨first, rest, hencode, -, hrest, -⟩ := exists_encode_eq_cons c
    have hlength : (utf8 (c :: cs)).length = c.utf8Size + byteCount cs := length_utf8 (c :: cs)
    have hsize : rest.length + 1 = c.utf8Size := by
      rw [← String.length_utf8EncodeChar, hencode, List.length_cons]
    rcases (isBoundary_utf8 _ _).mp hboundary with hend | hbyte
    · omega
    · have hpred : i.pred < rest.length := by omega
      rw [hi, utf8_cons, hencode, List.cons_append, List.getElem?_cons_succ, List.getElem?_append_left hpred,
        List.getElem?_eq_getElem hpred, Option.any_some, hrest _ (List.getElem_mem hpred)] at hbyte
      cases hbyte
  · rintro rfl
    exact isBoundary_zero _

/-- Behind the first character, the boundaries are those of the other ones. -/
theorem isBoundary_cons_of_le {c : Char} {cs : List Char} {i : Nat} (h : c.utf8Size ≤ i) :
    isBoundary (utf8 (c :: cs)) i = true ↔ isBoundary (utf8 cs) (i - c.utf8Size) = true := by
  have hsize : (String.utf8EncodeChar c).length = c.utf8Size := String.length_utf8EncodeChar c
  rw [isBoundary_utf8, isBoundary_utf8, utf8_cons, List.getElem?_append_right (by omega), List.length_append,
    hsize]
  have hend : i = c.utf8Size + (utf8 cs).length ↔ i - c.utf8Size = (utf8 cs).length := by omega
  rw [hend]

/-- A text can be cut behind each of its beginnings, and nowhere else. -/
theorem isBoundary_utf8_iff {cs : List Char} {i : Nat} :
    isBoundary (utf8 cs) i = true ↔ ∃ p, p <+: cs ∧ byteCount p = i := by
  induction cs generalizing i with
  | nil =>
    have hempty : isBoundary (utf8 []) i = true ↔ i = 0 := (isBoundary_utf8 [] i).trans (or_iff_left nofun)
    rw [hempty]
    constructor
    · rintro rfl
      exact ⟨[], List.prefix_rfl, rfl⟩
    · rintro ⟨p, hp, rfl⟩
      rw [List.prefix_nil.mp hp]
      rfl
  | cons c cs ih =>
    by_cases hi : i < c.utf8Size
    · rw [isBoundary_cons_of_lt hi]
      constructor
      · rintro rfl
        exact ⟨[], List.nil_prefix, rfl⟩
      · rintro ⟨p, hp, rfl⟩
        cases p with
        | nil => rfl
        | cons d p =>
          obtain ⟨rfl, -⟩ := List.cons_prefix_cons.mp hp
          rw [byteCount] at hi
          omega
    · rw [isBoundary_cons_of_le (Nat.le_of_not_lt hi), ih]
      constructor
      · rintro ⟨p, hp, hcount⟩
        refine ⟨c :: p, List.cons_prefix_cons.mpr ⟨rfl, hp⟩, ?_⟩
        rw [byteCount]
        omega
      · rintro ⟨p, hp, rfl⟩
        cases p with
        | nil => exact absurd c.utf8Size_pos hi
        | cons d p =>
          obtain ⟨rfl, htail⟩ := List.cons_prefix_cons.mp hp
          exact ⟨p, htail, (Nat.add_sub_cancel_left ..).symm⟩

/-- The bytes in front of a boundary are those of a beginning. -/
theorem take_utf8 {p cs : List Char} (h : p <+: cs) : (utf8 cs).take (byteCount p) = utf8 p := by
  obtain ⟨rest, rfl⟩ := h
  rw [utf8_append, ← length_utf8, List.take_left]

/-! ## Steps back -/

/-- Steps back from a position until the text can be cut there. -/
def backOff (bytes : List UInt8) : Nat → Nat
  | 0 => 0
  | i + 1 => if isBoundary bytes (i + 1) then i + 1 else backOff bytes i

section BackOff

variable {bytes : List UInt8} {i j : Nat}

theorem backOff_le (bytes : List UInt8) (i : Nat) : backOff bytes i ≤ i := by
  induction i with
  | zero => exact Nat.le_refl 0
  | succ i ih =>
    rw [backOff]
    split
    · exact Nat.le_refl (i + 1)
    · exact Nat.le_succ_of_le ih

/-- The steps end at a boundary. -/
theorem isBoundary_backOff (bytes : List UInt8) (i : Nat) : isBoundary bytes (backOff bytes i) = true := by
  induction i with
  | zero => exact isBoundary_zero bytes
  | succ i ih =>
    rw [backOff]
    split
    · assumption
    · exact ih

/-- The steps pass no boundary. -/
theorem le_backOff (hj : isBoundary bytes j = true) (h : j ≤ i) : j ≤ backOff bytes i := by
  induction i with
  | zero => exact h
  | succ i ih =>
    rw [backOff]
    split
    · exact h
    · rename_i hno
      rcases Nat.le_succ_iff.mp h with hle | rfl
      · exact ih hle
      · exact absurd hj hno

/-- The steps end behind the longest beginning that fits. -/
theorem backOff_utf8 (room : Nat) (cs : List Char) :
    backOff (utf8 cs) room = byteCount (fitting room cs) := by
  apply Nat.le_antisymm
  · obtain ⟨p, hp, hstop⟩ := isBoundary_utf8_iff.mp (isBoundary_backOff (utf8 cs) room)
    have hfits : byteCount p ≤ room := hstop ▸ backOff_le (utf8 cs) room
    obtain ⟨rest, hrest⟩ := isPrefix_fitting hp hfits
    rw [← hstop, ← hrest, ← length_utf8, ← length_utf8, utf8_append, List.length_append]
    exact Nat.le_add_right _ _
  · exact le_backOff (isBoundary_utf8_iff.mpr ⟨_, fitting_isPrefix room cs, rfl⟩) (byteCount_fitting_le room cs)

/-- A step back is one byte of a character, and a character has at most three bytes behind its first one. -/
theorem le_backOff_utf8_add {room : Nat} {cs : List Char} (h : room ≤ byteCount cs) :
    room ≤ backOff (utf8 cs) room + 3 := by
  rw [backOff_utf8]
  rcases Nat.lt_or_eq_of_le h with hlt | rfl
  · have hleft := byteCount_lt_fitting_add hlt
    omega
  · rw [fitting_of_byteCount_le (Nat.le_refl _)]
    exact Nat.le_add_right _ 3

end BackOff

/-! ## Events -/

/-- The bytes in front of a boundary, and nothing where a character would be cut in two. -/
def takeBytes? (bytes : List UInt8) (i : Nat) : Option (List UInt8) :=
  if isBoundary bytes i then some (bytes.take i) else none

/-- The bytes that an event shows: all of them if there is room, else those in front of the last boundary, and
    three dots. -/
def TraceConfig.shortenBytes? (c : TraceConfig) (bytes : List UInt8) : Option (List UInt8) :=
  match c.maxBytes with
  | none => some bytes
  | some room =>
    if bytes.length ≤ room then some bytes
    else (takeBytes? bytes (backOff bytes room)).map (· ++ bytesOf "...")

/-- The cut on bytes never fails, and leaves the text that an event shows. -/
theorem TraceConfig.shortenBytes?_bytesOf (c : TraceConfig) (sql : String) :
    c.shortenBytes? (bytesOf sql) = some (bytesOf (c.shorten sql)) := by
  have hlength : (bytesOf sql).length = sql.utf8ByteSize := by
    rw [bytesOf_eq, length_utf8, byteCount_toList]
  rw [shortenBytes?, shorten]
  cases c.maxBytes with
  | none => rfl
  | some room =>
    dsimp only
    rw [hlength]
    by_cases hfits : sql.utf8ByteSize ≤ room
    · rw [if_pos hfits, if_pos hfits]
    · have hkept : utf8 (fitting room sql.toList) = bytesOf (String.ofList (fitting room sql.toList)) := by
        rw [bytesOf_eq, String.toList_ofList]
      rw [if_neg hfits, if_neg hfits, takeBytes?, if_pos (isBoundary_backOff _ _), Option.map_some, bytesOf_eq sql,
        backOff_utf8, take_utf8 (fitting_isPrefix room sql.toList), hkept, bytesOf_append]

/-- A character of four bytes that does not fit is left out as a whole. -/
example : backOff (bytesOf "n😀") 4 = 1 ∧ TraceConfig.shorten ⟨.debug, some 4⟩ "n😀" = "n..." := by
  decide +kernel

/-- What an event shows of a text: all of it if there is no limit, or if the text keeps it; else the longest
    beginning within the limit, and three dots. -/
inductive Shows (sql : String) : Option Nat → String → Prop where
  | unlimited : Shows sql none sql
  | whole {room : Nat} (hfits : sql.utf8ByteSize ≤ room) : Shows sql (some room) sql
  | cut {room : Nat} {p : String} (hlong : room < sql.utf8ByteSize) (hp : p.toList <+: sql.toList)
      (hfits : p.utf8ByteSize ≤ room)
      (hlongest : ∀ q : String, q.toList <+: sql.toList → q.utf8ByteSize ≤ room → q.toList <+: p.toList) :
      Shows sql (some room) (p ++ "...")

theorem TraceConfig.shows_shorten (c : TraceConfig) (sql : String) : Shows sql c.maxBytes (c.shorten sql) := by
  rw [shorten]
  cases c.maxBytes with
  | none => exact .unlimited
  | some room =>
    dsimp only
    by_cases hfits : sql.utf8ByteSize ≤ room
    · rw [if_pos hfits]
      exact .whole hfits
    · rw [if_neg hfits]
      have hkept : (String.ofList (fitting room sql.toList)).toList = fitting room sql.toList :=
        String.toList_ofList
      refine .cut (Nat.lt_of_not_le hfits) ?_ ?_ ?_
      · rw [hkept]
        exact fitting_isPrefix room sql.toList
      · rw [← byteCount_toList, hkept]
        exact byteCount_fitting_le room sql.toList
      · intro q hq hroom
        rw [hkept]
        rw [← byteCount_toList] at hroom
        exact isPrefix_fitting hq hroom

/-- There is one text only that an event can show. -/
theorem Shows.unique {sql a b : String} {maxBytes : Option Nat} (ha : Shows sql maxBytes a)
    (hb : Shows sql maxBytes b) : a = b := by
  cases ha with
  | unlimited =>
    cases hb
    rfl
  | whole hfits =>
    cases hb with
    | whole => rfl
    | cut hlong => exact absurd hlong (Nat.not_lt_of_le hfits)
  | cut hlong hp hfits hlongest =>
    cases hb with
    | whole hfits => exact absurd hlong (Nat.not_lt_of_le hfits)
    | cut _ hq hfits' hlongest' =>
      have hpq := hlongest' _ hp hfits
      have hqp := hlongest _ hq hfits'
      rw [String.toList_inj.mp (hpq.eq_of_length_le hqp.length_le)]

end BoundSql
