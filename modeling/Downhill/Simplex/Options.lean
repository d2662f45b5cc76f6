/-!
# Options of a search

Four coefficients say how far a search reflects, expands, contracts and shrinks its simplex, and two
steps how the first simplex is laid around a point. The coefficients may be chosen as a family,
which then overrides the numbers given.
-/

namespace Downhill

/-- A choice of the four coefficients. -/
inductive Family
  /-- One, two, a half and a half. -/
  | standard
  /-- Adapted to the dimension, so that expansions and contractions do not fade in many dimensions.
  In fewer than two dimensions the same as `standard`. -/
  | balanced
  /-- The coefficients as they are given. -/
  | fixed
  deriving DecidableEq, Repr

/-- The options of a search. -/
structure Options where
  /-- How the coefficients are chosen. -/
  family : Family := .standard
  /-- How far the worst vertex is reflected through the centroid. -/
  reflection : Float := 1
  /-- How far a good reflection is followed. -/
  expansion : Float := 2
  /-- How far the worst vertex is taken towards the centroid. -/
  contraction : Float := 0.5
  /-- How much of the distance to the best vertex is left by a shrinkage. -/
  shrinkage : Float := 0.5
  /-- How much of itself a coordinate is moved by, for a vertex of the first simplex. -/
  relativeStep : Float := 0.05
  /-- Where a coordinate that is zero is moved to. -/
  zeroStep : Float := 0.00025
  deriving DecidableEq, Repr

namespace Options

/-- The coefficients of the textbook. -/
def withStandard (o : Options) : Options :=
  { o with reflection := 1, expansion := 2, contraction := 0.5, shrinkage := 0.5 }

/-- The coefficients adapted to a dimension. -/
def withBalanced (o : Options) (dim : Nat) : Options :=
  let share := 1 / Float.ofNat dim
  { o with
    reflection := 1
    expansion := share * 2 + 1
    contraction := 0.75 - share * 0.5
    shrinkage := 1 - share }

/-- The options in effect in a dimension: the family's coefficients in place of the given ones. -/
def inEffect (o : Options) (dim : Nat) : Options :=
  match o.family with
  | .standard => o.withStandard
  | .balanced => if 2 ≤ dim then o.withBalanced dim else o.withStandard
  | .fixed => o

/-- What a coordinate becomes when the first simplex is laid. -/
def nudge (o : Options) (c : Float) : Float :=
  if c == 0 then o.zeroStep else c * (1 + o.relativeStep)

end Options

end Downhill
