import Downhill.Decimal.Magnitude

/-!
# Shortest decimals

The shortest decimal that reads back as a given double, found on exact grids. The multiples of
`10 ^ e` form the grid of `e`. Of the grids that have a point among the reals rounding to the
double, the coarsest gives the fewest digits, and of its points the nearest to the double is taken.

A point that lies just as near on both sides is a tie, and whoever writes the decimal says which way
it goes.
-/

namespace Downhill.Decimal

/-- Which of two equally near decimals is taken. -/
inductive Tie
  /-- The greater one. -/
  | up
  /-- The one whose last digit is even. -/
  | even
  deriving DecidableEq, Repr

/-- The decimal `coefficient * 10 ^ exponent`. -/
structure Scaled where
  /-- The digits, as one natural number. -/
  coefficient : Nat
  /-- The power of ten. -/
  exponent : Int
  deriving DecidableEq, Repr

/-- A magnitude, the reals that round to it and the grid of a power of ten, all over one
denominator. -/
structure Grid where
  /-- The distance of neighbouring grid points. -/
  unit : Nat
  /-- The magnitude itself. -/
  value : Nat
  /-- The lower end of the reals that round to the magnitude. -/
  low : Nat
  /-- Their upper end. -/
  high : Nat
  /-- The two ends themselves round to the magnitude. -/
  closed : Bool

/-- The grid of `e` around a magnitude. A quarter of the last binary place is the finest length that
occurs, so everything is counted in quarters. -/
def Grid.around (x : Magnitude) (e : Int) : Grid :=
  let quarter := x.exponent - 2
  let scale := Nat.pow 2 quarter.toNat * Nat.pow 10 (-e).toNat
  { unit := Nat.pow 2 (-quarter).toNat * Nat.pow 10 e.toNat
    value := 4 * x.significand * scale
    low := (4 * x.significand - if x.narrowBelow then 1 else 2) * scale
    high := (4 * x.significand + 2) * scale
    closed := x.significand % 2 = 0 }

/-- The real rounds to the magnitude. -/
def Grid.holds (g : Grid) (p : Nat) : Bool :=
  if g.closed then g.low ≤ p && p ≤ g.high else g.low < p && p < g.high

/-- The multiple of the unit that rounds to the magnitude and is nearest to it, if there is one. It
is one of the two neighbours of the magnitude on the grid. -/
def Grid.nearest? (g : Grid) (tie : Tie) : Option Nat :=
  let d := g.value / g.unit
  let past := g.value - d * g.unit
  match g.holds (d * g.unit), g.holds ((d + 1) * g.unit) with
  | true, true =>
    if 2 * past < g.unit then some d
    else if g.unit < 2 * past then some (d + 1)
    else if tie = .even && d % 2 = 0 then some d else some (d + 1)
  | true, false => some d
  | false, true => some (d + 1)
  | false, false => none

/-- The first hit on the grids of `e`, `e - 1`, …, at most `finer` grids below `e`. -/
def coarsest (tie : Tie) (x : Magnitude) : (finer : Nat) → (e : Int) → Scaled
  | 0, e =>
    let g := Grid.around x e
    ⟨g.value / g.unit, e⟩
  | finer + 1, e =>
    match (Grid.around x e).nearest? tie with
    | some d => ⟨d, e⟩
    | none => coarsest tie x finer (e - 1)

/-- A power of ten above the magnitude, and within two places of it: `0.30103` is a little more than
the decimal logarithm of two. -/
def startingExponent (x : Magnitude) : Int :=
  (x.exponent + (x.significand.log2 + 1)) * 30103 / 100000 + 1

/-- The shortest decimal that reads back as the magnitude. Seventeen digits always do, so twenty
grids are enough. -/
def shortest (tie : Tie) (x : Magnitude) : Scaled :=
  if x.significand = 0 then ⟨0, 0⟩ else coarsest tie x 20 (startingExponent x)

/-- A grid point that is found rounds to the magnitude. -/
theorem Grid.holds_of_nearest? {g : Grid} {tie : Tie} {d : Nat} (h : g.nearest? tie = some d) :
    g.holds (d * g.unit) = true := by
  simp only [Grid.nearest?] at h
  split at h
  · split at h
    · simp_all
    · split at h
      · simp_all
      · split at h <;> simp_all
  all_goals simp_all

example : shortest .up (.ofFloat 0.1) = ⟨1, -1⟩ ∧ shortest .up (.ofFloat 5e-324) = ⟨5, -324⟩
    ∧ shortest .up (.ofFloat 1.7976931348623157e308) = ⟨17976931348623157, 292⟩
    ∧ shortest .even (.ofFloat 123.456) = ⟨123456, -3⟩ := by decide +kernel

end Downhill.Decimal
