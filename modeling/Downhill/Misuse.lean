/-!
# Misuse

Calls that break what an operation asks of its caller. They are no results of a computation: a
caller that keeps the stated rules never meets one.
-/

namespace Downhill

/-- What a caller got wrong. -/
inductive Misuse
  /-- A benchmark function of no variables was asked for. -/
  | noVariables
  /-- A benchmark function that pairs its variables was asked for with an odd number of them. -/
  | oddVariables
  /-- There is no variable of this coordinate. -/
  | outOfBounds (length index : Nat)
  /-- The point that should receive the best vertex has another dimension than the simplex. -/
  | shape
  /-- The starting point has another dimension than the objective. -/
  | start (length dimension : Nat)
  deriving DecidableEq, Repr

/-- The misuse in words. -/
def Misuse.message : Misuse → String
  | noVariables => "n must be greater than zero"
  | oddVariables => "n must be a multiple of 2"
  | outOfBounds length index =>
    s!"index out of bounds: the len is {length} but the index is {index}"
  | shape => "Unable to copy from a matrix with a different shape."
  | start length dimension =>
    "assertion `left == right` failed: initial point has invalid dimension\n" ++
      s!"  left: {length}\n right: {dimension}"

end Downhill
