import BoundSql.Decimal.Double

/-!
# `BoundSql.Decimal.Shortest` — the fewest digits that read back

The decimal chosen for a finite number is the one with the fewest digits among those that round to
it, and of those the nearest. All comparisons are between natural numbers, so nothing is lost.

## Contents
- **`Decimal`.** An integer times a power of ten.
- **`Span`.** The reals that round to a number: its magnitude between two halfway points.
- **`Span.onGrid?`.** The better of the two neighbours of the magnitude on the multiples of a power of
  ten, if one of them lies in the span.
- **`shortest`.** The first hit on grids that get finer.
-/

namespace BoundSql

/-- The number `digits * 10 ^ exponent`. -/
structure Decimal where
  digits : Nat
  exponent : Int
  deriving DecidableEq, Repr

/-- Which of two equally near candidates is taken. -/
inductive Tie where
  /-- The one further from zero. -/
  | away
  /-- The one whose last digit is even. -/
  | even
  deriving DecidableEq, Repr

/-! ## The span of a number -/

/-- The magnitudes from `low` to `high`, around `middle`, in units of `2 ^ unit`. The two ends belong
    to the span if `closed` says so. -/
structure Span where
  low : Nat
  middle : Nat
  high : Nat
  unit : Int
  closed : Bool
  deriving Repr

namespace Span

/-- The magnitudes that round to the magnitude of `d`: halfway to each neighbour, with the ends when
    the significand is even, because a halfway case is rounded to an even significand. -/
def ofDouble (d : Double) : Span where
  low := 4 * d.significand - if d.nearerBelow then 1 else 2
  middle := 4 * d.significand
  high := 4 * d.significand + 2
  unit := d.scale - 2
  closed := d.significand % 2 == 0

/-- The factor on a magnitude of the span when it is compared with multiples of `10 ^ k`. -/
def magnitudeFactor (s : Span) (k : Int) : Nat :=
  Nat.pow 10 (-k).toNat <<< s.unit.toNat

/-- The factor on `n` when `n * 10 ^ k` is compared with magnitudes of the span. -/
def gridFactor (s : Span) (k : Int) : Nat :=
  Nat.pow 10 k.toNat <<< (-s.unit).toNat

/-- Whether `n * 10 ^ k` lies in the span. -/
def contains (s : Span) (k : Int) (n : Nat) : Bool :=
  let point := n * s.gridFactor k
  let low := s.low * s.magnitudeFactor k
  let high := s.high * s.magnitudeFactor k
  if s.closed then low ≤ point && point ≤ high else low < point && point < high

/-- The multiplier of the last multiple of `10 ^ k` that is not above the middle. -/
def floorOn (s : Span) (k : Int) : Nat :=
  s.middle * s.magnitudeFactor k / s.gridFactor k

/-- Of the multiples `n` and `n + 1` of `10 ^ k`, the one nearer to the middle. -/
def nearer (s : Span) (tie : Tie) (k : Int) (n : Nat) : Nat :=
  match compare (2 * s.middle * s.magnitudeFactor k) ((2 * n + 1) * s.gridFactor k), tie with
  | .lt, _ => n
  | .gt, _ => n + 1
  | .eq, .away => n + 1
  | .eq, .even => n + n % 2

/-- The nearer of two neighbours is one of them. -/
theorem nearer_eq_or (s : Span) (tie : Tie) (k : Int) (n : Nat) :
    s.nearer tie k n = n ∨ s.nearer tie k n = n + 1 := by
  unfold nearer
  split <;> omega

/-- The multiple of `10 ^ k` in the span that is nearest to the middle, if the span holds one. -/
def onGrid? (s : Span) (tie : Tie) (k : Int) : Option Nat :=
  let n := s.floorOn k
  match s.contains k n, s.contains k (n + 1) with
  | true, true => some (s.nearer tie k n)
  | true, false => some n
  | false, true => some (n + 1)
  | false, false => none

/-- A hit on a grid lies in the span. -/
theorem contains_of_onGrid? {s : Span} {tie : Tie} {k : Int} {n : Nat}
    (h : s.onGrid? tie k = some n) : s.contains k n = true := by
  simp only [onGrid?] at h
  split at h <;> cases h
  · rcases s.nearer_eq_or tie k (s.floorOn k) with hn | hn <;> rw [hn] <;> assumption
  · assumption
  · assumption

/-- A power of ten above every magnitude of the span, from the number of its binary digits. -/
def topExponent (s : Span) : Int :=
  (s.high.log2 + 1 + s.unit) * 30103 / 100000 + 1

/-- The middle written out to its last digit. -/
def exact (s : Span) : Decimal :=
  if 0 ≤ s.unit then ⟨s.middle <<< s.unit.toNat, 0⟩
  else ⟨s.middle * Nat.pow 5 (-s.unit).toNat, s.unit⟩

/-- The first hit on the grids `10 ^ k`, `10 ^ (k - 1)`, …, of which there are `grids`. -/
def search (s : Span) (tie : Tie) : Nat → Int → Decimal
  | 0, _ => s.exact
  | grids + 1, k =>
    match s.onGrid? tie k with
    | some n => ⟨n, k⟩
    | none => search s tie grids (k - 1)

end Span

/-! ## Shortest digits -/

/-- The decimal of the magnitude of a finite number. Seventeen digits always suffice, and the search
    starts at most three digits early. -/
def shortest (tie : Tie) (d : Double) : Decimal :=
  if d.significand = 0 then ⟨0, 0⟩
  else
    let s := Span.ofDouble d
    s.search tie 20 s.topExponent

/-- A number halfway between two decimals of sixteen places shows the two rules for ties. -/
example : shortest .away ⟨0x4310000000000001⟩ = ⟨11258999068426243, -1⟩ ∧
    shortest .even ⟨0x4310000000000001⟩ = ⟨11258999068426242, -1⟩ := by decide +kernel

/-- The smallest positive number has one digit. -/
example : shortest .away ⟨1⟩ = ⟨5, -324⟩ := by decide +kernel

end BoundSql
